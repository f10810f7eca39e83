import Mathlib

set_option autoImplicit false

-- A memory with a store buffer per thread, as x86-TSO has it: a thread's store waits at the end of
-- its own buffer and reaches memory, oldest first, when the buffer commits it; a load reads the
-- thread's newest buffered store to the location, and memory when there is none. A release store
-- and an acquire load are a plain store and a plain load there, so a run of this machine is a run
-- the C11 release/acquire orders allow.

namespace StoreBuffer

structure Tso (T L V : Type) where
  mem : L → V
  -- oldest first
  buffers : T → List (L × V)

namespace Tso

variable {T L V : Type}

def init (mem : L → V) : Tso T L V := ⟨mem, fun _ => []⟩

-- The newest of `stores` to `l`.
def newest [DecidableEq L] (l : L) (stores : List (L × V)) : Option V :=
  stores.foldl (fun found store => if store.1 = l then some store.2 else found) none

def load [DecidableEq L] (m : Tso T L V) (t : T) (l : L) : V := (newest l (m.buffers t)).getD (m.mem l)

def store [DecidableEq T] (m : Tso T L V) (t : T) (l : L) (v : V) : Tso T L V :=
  { m with buffers := Function.update m.buffers t (m.buffers t ++ [(l, v)]) }

-- The oldest store of `t` reaches memory.
def commit [DecidableEq T] [DecidableEq L] (m : Tso T L V) (t : T) : Tso T L V :=
  match m.buffers t with
  | [] => m
  | (l, v) :: rest => ⟨Function.update m.mem l v, Function.update m.buffers t rest⟩

-- A store as a sequentially consistent memory makes it: at once, to memory.
def write [DecidableEq L] (m : Tso T L V) (l : L) (v : V) : Tso T L V := { m with mem := Function.update m.mem l v }

@[simp] theorem init_mem (mem : L → V) : (init mem : Tso T L V).mem = mem := rfl

@[simp] theorem init_buffers (mem : L → V) (t : T) : (init mem : Tso T L V).buffers t = [] := rfl

@[simp] theorem store_mem [DecidableEq T] (m : Tso T L V) (t : T) (l : L) (v : V) : (m.store t l v).mem = m.mem := rfl

theorem store_buffers [DecidableEq T] (m : Tso T L V) (t : T) (l : L) (v : V) :
    (m.store t l v).buffers = Function.update m.buffers t (m.buffers t ++ [(l, v)]) := rfl

theorem store_pending [DecidableEq T] (m : Tso T L V) (t : T) (l : L) (v : V) : (m.store t l v).buffers t ≠ [] := by
  rw [store_buffers, Function.update_self]
  exact List.concat_ne_nil _ _

@[simp] theorem newest_nil [DecidableEq L] (l : L) : newest l ([] : List (L × V)) = none := rfl

theorem load_of_nil [DecidableEq L] {m : Tso T L V} {t : T} (empty : m.buffers t = []) (l : L) : m.load t l = m.mem l := by
  rw [load, empty, newest_nil, Option.getD_none]

theorem commit_of_cons [DecidableEq T] [DecidableEq L] {m : Tso T L V} {t : T} {l : L} {v : V} {rest : List (L × V)}
    (buffered : m.buffers t = (l, v) :: rest) :
    m.commit t = ⟨Function.update m.mem l v, Function.update m.buffers t rest⟩ := by
  rw [commit, buffered]

theorem commit_store_of_nil [DecidableEq T] [DecidableEq L] {m : Tso T L V} {t : T} (empty : m.buffers t = []) (l : L) (v : V) :
    (m.store t l v).commit t = m.write l v := by
  have buffered : (m.store t l v).buffers t = [(l, v)] := by
    rw [store_buffers, Function.update_self, empty, List.nil_append]
  have drained : Function.update (m.store t l v).buffers t [] = m.buffers := by
    rw [store_buffers, Function.update_idem, ← empty, Function.update_eq_self]
  rw [commit_of_cons buffered, drained, store_mem]
  rfl

end Tso

end StoreBuffer
