import Mathlib.Data.List.Basic

set_option autoImplicit false

-- The `Except` monad as error returns use it: a bind on a success runs its continuation on the
-- value, which lets a run be rewritten one successful step at a time.

namespace Except

variable {ε α β : Type _}

theorem ok_bind (a : α) (f : α → Except ε β) : (Except.ok a >>= f) = f a := rfl

end Except
