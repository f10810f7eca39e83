import Mathlib

set_option autoImplicit false

-- The routes of one prefix in the route operator's RIB
-- (operators/route/internal/rib). `RoutesList.Insert` replaces the route of the
-- same identity or appends, then re-sorts stably best first; `Remove` deletes the
-- first route of the identity in place, and `RIB.RemoveUnicastRoute` filters out
-- every route of the candidate's identity. `BestPerSource` scans the list once,
-- taking the first route of each source as that source's best cost, so it is
-- right only because every list these operations build stays sorted.
--
-- `routeCompare` compares two routes by one number, `routeRank`, which orders
-- them by preference, then shorter AS path, then lower MED; the order facts the
-- proofs need are facts about that number.

namespace Yanet

-- netip.Addr, less the IPv6 zone: the zero Addr, an IPv4 address, or an IPv6 address as two halves.
inductive NetipAddr
  | invalid
  | v4 (addr : UInt32)
  | v6 (hi lo : UInt64)
deriving DecidableEq

namespace NetipAddr

def IPv6Unspecified : NetipAddr := .v6 0 0

-- Addr.Unmap: an IPv4-mapped IPv6 address (::ffff:a.b.c.d) becomes the IPv4 address.
def unmap : NetipAddr → NetipAddr
  | .v6 hi lo => if hi = 0 ∧ lo >>> 32 = 0xffff then .v4 lo.toUInt32 else .v6 hi lo
  | addr => addr

end NetipAddr

def RouteSourceStatic : UInt8 := 1

-- The fields of rib.Route that the list operations read.
structure Route where
  nextHop : NetipAddr
  peer : NetipAddr
  med : UInt32
  pref : UInt32
  asPathLen : UInt8
  sourceId : UInt8
deriving DecidableEq

def Route.isSameIdentity (m other : Route) : Bool :=
  if m.sourceId ≠ other.sourceId ∨ m.peer ≠ other.peer then false
  else if m.sourceId = RouteSourceStatic then m.nextHop.unmap = other.nextHop.unmap
  else true

-- Go's int is 64 bits wide, so none of the differences overflows.
def routeCompare (a b : Route) : Int :=
  let prefDiff : Int := a.pref.toNat - b.pref.toNat
  if prefDiff ≠ 0 then prefDiff
  else
    let asPathLenDiff : Int := b.asPathLen.toNat - a.asPathLen.toNat
    if asPathLenDiff ≠ 0 then asPathLenDiff
    else b.med.toNat - a.med.toNat

def routeCompareRev (a b : Route) : Int := -routeCompare a b

-- Insert's re-sort of more than one route, slices.SortStableFunc(routes, routeCompareRev):
-- best first, routes of equal cost in place.
def routesListSort (routes : List Route) : List Route :=
  if routes.length > 1 then routes.mergeSort fun a b => decide (routeCompareRev a b ≤ 0) else routes

def routesListInsert (routes : List Route) (route : Route) : List Route × Bool :=
  let (routes, insertedIdx) : List Route × Option Nat :=
    match routes.findIdx? (·.isSameIdentity route) with
    | some idx => (routes.set idx route, some idx)
    | none => (routes ++ [route], none)
  (routesListSort routes, insertedIdx.isNone)

def routesListRemove (routes : List Route) (route : Route) : List Route × Bool :=
  match routes.findIdx? (·.isSameIdentity route) with
  | some idx => (routes.eraseIdx idx, true)
  | none => (routes, false)

-- The route RIB.RemoveUnicastRoute matches against: no peer, the nexthop and source asked for.
def removeUnicastCandidate (nextHop : NetipAddr) (sourceId : UInt8) : Route :=
  { nextHop, peer := NetipAddr.IPv6Unspecified, med := 0, pref := 0, asPathLen := 0, sourceId }

-- The update RIB.RemoveUnicastRoute applies to the prefix's list.
def removeUnicastRoutes (routes : List Route) (candidate : Route) : List Route :=
  routes.filter fun r => !r.isSameIdentity candidate

-- One step of BestPerSourceMask: the mask so far, and the first route seen of each source.
def bestPerSourceStep (acc : List Bool × (UInt8 → Option Route)) (r : Route) :
    List Bool × (UInt8 → Option Route) :=
  match acc.2 r.sourceId with
  | none => (acc.1 ++ [true], Function.update acc.2 r.sourceId (some r))
  | some b => (acc.1 ++ [routeCompare r b == 0], acc.2)

def bestPerSourceMask (routes : List Route) : List Bool :=
  (routes.foldl bestPerSourceStep ([], fun _ => none)).1

def bestPerSource (routes : List Route) : List Route :=
  ((routes.zip (bestPerSourceMask routes)).filter (·.2)).map (·.1)

-- What a prefix's list goes through: RIB.update's Insert (a new prefix's `[route]` is the
-- insert into the empty list) and Remove, and RIB.RemoveUnicastRoute. A prefix whose
-- list empties is deleted, which is the empty list again.
inductive RoutesListOp
  | insert (route : Route)
  | remove (route : Route)
  | removeUnicast (nextHop : NetipAddr) (sourceId : UInt8)

def routesListApply (routes : List Route) : RoutesListOp → List Route
  | .insert route => (routesListInsert routes route).1
  | .remove route => (routesListRemove routes route).1
  | .removeUnicast nextHop sourceId => removeUnicastRoutes routes (removeUnicastCandidate nextHop sourceId)

def routesListRun (ops : List RoutesListOp) : List Route :=
  ops.foldl routesListApply []

section Order

-- The cost routeCompare compares: preference, then the AS path (shorter is more), then MED (lower is more).
def routeRank (r : Route) : Nat :=
  r.pref.toNat * 2 ^ 40 + (255 - r.asPathLen.toNat) * 2 ^ 32 + (2 ^ 32 - 1 - r.med.toNat)

theorem routeCompare_sign (a b : Route) :
    (routeCompare a b = 0 ∧ routeRank a = routeRank b) ∨
    (0 < routeCompare a b ∧ routeRank b < routeRank a) ∨
    (routeCompare a b < 0 ∧ routeRank a < routeRank b) := by
  have := a.pref.toNat_lt
  have := b.pref.toNat_lt
  have := a.asPathLen.toNat_lt
  have := b.asPathLen.toNat_lt
  have := a.med.toNat_lt
  have := b.med.toNat_lt
  unfold routeCompare routeRank
  dsimp only
  split
  · omega
  · split <;> omega

theorem routeCompare_nonneg_iff (a b : Route) : 0 ≤ routeCompare a b ↔ routeRank b ≤ routeRank a := by
  have := routeCompare_sign a b
  omega

theorem routeCompare_pos_iff (a b : Route) : 0 < routeCompare a b ↔ routeRank b < routeRank a := by
  have := routeCompare_sign a b
  omega

theorem routeCompare_eq_zero_iff (a b : Route) : routeCompare a b = 0 ↔ routeRank a = routeRank b := by
  have := routeCompare_sign a b
  omega

theorem routeCompareRev_nonpos_iff (a b : Route) : routeCompareRev a b ≤ 0 ↔ routeRank b ≤ routeRank a := by
  have := routeCompare_nonneg_iff a b
  unfold routeCompareRev
  omega

theorem routesListSort_perm (routes : List Route) : (routesListSort routes).Perm routes := by
  unfold routesListSort
  split
  · exact List.mergeSort_perm _ _
  · exact List.Perm.refl _

theorem routesListSort_sorted (routes : List Route) :
    (routesListSort routes).Pairwise fun a b => 0 ≤ routeCompare a b := by
  unfold routesListSort
  split
  · have trans : ∀ a b c : Route, decide (routeCompareRev a b ≤ 0) = true →
        decide (routeCompareRev b c ≤ 0) = true → decide (routeCompareRev a c ≤ 0) = true := by
      intro a b c
      simp only [decide_eq_true_eq, routeCompareRev_nonpos_iff]
      omega
    have total : ∀ a b : Route, (decide (routeCompareRev a b ≤ 0) || decide (routeCompareRev b a ≤ 0)) = true := by
      intro a b
      simp only [Bool.or_eq_true, decide_eq_true_eq, routeCompareRev_nonpos_iff]
      omega
    refine (List.pairwise_mergeSort trans total routes).imp fun le => ?_
    simpa [routeCompareRev_nonpos_iff, routeCompare_nonneg_iff] using le
  · -- no sort: at most one route
    rename_i short
    rcases routes with _ | ⟨a, _ | ⟨b, rest⟩⟩
    · exact List.Pairwise.nil
    · exact List.pairwise_singleton _ _
    · simp at short

end Order

section Identity

-- What isSameIdentity compares: the source and the peer, and for a static route the unmapped nexthop.
def Route.identity (r : Route) : UInt8 × NetipAddr × Option NetipAddr :=
  (r.sourceId, r.peer, if r.sourceId = RouteSourceStatic then some r.nextHop.unmap else none)

theorem isSameIdentity_iff (a b : Route) : a.isSameIdentity b = true ↔ a.identity = b.identity := by
  unfold Route.isSameIdentity Route.identity
  by_cases source : a.sourceId = b.sourceId
  · by_cases peer : a.peer = b.peer
    · by_cases static : a.sourceId = RouteSourceStatic
      · have static' : b.sourceId = RouteSourceStatic := source ▸ static
        simp [source, peer, static']
      · have static' : b.sourceId ≠ RouteSourceStatic := source ▸ static
        simp [source, peer, static']
    · simp [source, peer]
  · simp [source]

theorem isSameIdentity_comm (a b : Route) : a.isSameIdentity b = b.isSameIdentity a := by
  rw [Bool.eq_iff_iff, isSameIdentity_iff, isSameIdentity_iff, eq_comm]

theorem identitiesDistinct_iff {routes : List Route} :
    routes.Pairwise (fun a b => a.isSameIdentity b = false) ↔ (routes.map Route.identity).Nodup := by
  simp only [List.Nodup, List.pairwise_map, ← Bool.not_eq_true, isSameIdentity_iff]

theorem identitiesDistinct_of_perm {routes routes' : List Route} (perm : routes'.Perm routes)
    (distinct : routes.Pairwise fun a b => a.isSameIdentity b = false) :
    routes'.Pairwise fun a b => a.isSameIdentity b = false :=
  (perm.pairwise_iff fun {a b} same => by rwa [isSameIdentity_comm]).mpr distinct

end Identity

section Operations

theorem routesListInsert_cases (routes : List Route) (route : Route) :
    (∃ idx, ∃ lt : idx < routes.length, routes[idx].isSameIdentity route = true ∧
      routesListInsert routes route = (routesListSort (routes.set idx route), false)) ∨
    ((∀ r ∈ routes, r.isSameIdentity route = false) ∧
      routesListInsert routes route = (routesListSort (routes ++ [route]), true)) := by
  unfold routesListInsert
  cases found : routes.findIdx? (·.isSameIdentity route) with
  | some idx =>
    obtain ⟨lt, same, -⟩ := List.findIdx?_eq_some_iff_getElem.mp found
    exact .inl ⟨idx, lt, same, rfl⟩
  | none => exact .inr ⟨List.findIdx?_eq_none_iff.mp found, rfl⟩

theorem routesListInsert_snd (routes : List Route) (route : Route) :
    (routesListInsert routes route).2 = true ↔ ∀ r ∈ routes, r.isSameIdentity route = false := by
  rcases routesListInsert_cases routes route with ⟨idx, lt, same, eq⟩ | ⟨fresh, eq⟩
  · rw [eq]
    simp only [Bool.false_eq_true, false_iff, not_forall]
    exact ⟨routes[idx], List.getElem_mem lt, by simp [same]⟩
  · simpa [eq] using fresh

theorem routesListRemove_sublist (routes : List Route) (route : Route) :
    (routesListRemove routes route).1.Sublist routes := by
  unfold routesListRemove
  split
  · exact List.eraseIdx_sublist _ _
  · exact List.Sublist.refl _

end Operations

section Invariant

-- The invariant of every list the RIB keeps for a prefix.
structure RoutesListInv (routes : List Route) : Prop where
  sorted : routes.Pairwise fun a b => 0 ≤ routeCompare a b
  distinct : routes.Pairwise fun a b => a.isSameIdentity b = false

theorem routesListInv_nil : RoutesListInv [] := ⟨.nil, .nil⟩

theorem RoutesListInv.sublist {routes routes' : List Route} (inv : RoutesListInv routes)
    (sub : routes'.Sublist routes) : RoutesListInv routes' :=
  ⟨inv.sorted.sublist sub, inv.distinct.sublist sub⟩

theorem RoutesListInv.insert {routes : List Route} (inv : RoutesListInv routes) (route : Route) :
    RoutesListInv (routesListInsert routes route).1 := by
  rcases routesListInsert_cases routes route with ⟨idx, lt, same, eq⟩ | ⟨fresh, eq⟩
  · rw [eq]
    -- the route takes the place of the one of its identity: the identities stay as they were
    have identities : (routes.set idx route).map Route.identity = routes.map Route.identity := by
      rw [List.map_set, ← (isSameIdentity_iff _ _).mp same, ← List.getElem_map Route.identity,
        List.set_getElem_self]
      simpa using lt
    have distinct : (routes.set idx route).Pairwise fun a b => a.isSameIdentity b = false := by
      rw [identitiesDistinct_iff, identities, ← identitiesDistinct_iff]
      exact inv.distinct
    exact ⟨routesListSort_sorted _, identitiesDistinct_of_perm (routesListSort_perm _) distinct⟩
  · rw [eq]
    have distinct : (routes ++ [route]).Pairwise fun a b => a.isSameIdentity b = false := by
      refine List.pairwise_append.mpr ⟨inv.distinct, List.pairwise_singleton _ _, fun r mem r' mem' => ?_⟩
      rw [List.mem_singleton.mp mem']
      exact fresh r mem
    exact ⟨routesListSort_sorted _, identitiesDistinct_of_perm (routesListSort_perm _) distinct⟩

theorem RoutesListInv.apply {routes : List Route} (inv : RoutesListInv routes) :
    ∀ op, RoutesListInv (routesListApply routes op)
  | .insert route => inv.insert route
  | .remove route => inv.sublist (routesListRemove_sublist routes route)
  | .removeUnicast _ _ => inv.sublist List.filter_sublist

theorem routesListInv_run (ops : List RoutesListOp) : RoutesListInv (routesListRun ops) := by
  unfold routesListRun
  -- the run from any list that keeps the invariant, by induction on the operations
  suffices run : ∀ routes, RoutesListInv routes → RoutesListInv (ops.foldl routesListApply routes) from
    run [] routesListInv_nil
  induction ops with
  | nil => exact fun _ inv => inv
  | cons op ops ih => exact fun routes inv => ih _ (inv.apply op)

end Invariant

section BestPerSource

-- The first route of a source in a list.
def firstOfSource (routes : List Route) (sourceId : UInt8) : Option Route :=
  routes.find? (·.sourceId == sourceId)

-- The mark BestPerSourceMask gives a route of a scanned list: it costs the same as the first
-- route of its source.
def bestMark (routes : List Route) (r : Route) : Bool :=
  routeCompare r ((firstOfSource routes r.sourceId).getD r) == 0

theorem find?_pairwise {α : Type} {R : α → α → Prop} {p : α → Bool} :
    ∀ {l : List α} {first : α}, l.Pairwise R → l.find? p = some first →
      ∀ x ∈ l, p x = true → first = x ∨ R first x
  | [], _, _, found, _, _, _ => by simp at found
  | y :: l, first, sorted, found, x, mem, px => by
    rw [List.pairwise_cons] at sorted
    by_cases py : p y = true
    · rw [List.find?_cons_of_pos py, Option.some.injEq] at found
      subst found
      rcases List.mem_cons.mp mem with rfl | later
      · exact .inl rfl
      · exact .inr (sorted.1 x later)
    · rw [List.find?_cons_of_neg py] at found
      rcases List.mem_cons.mp mem with rfl | later
      · exact absurd px py
      · exact find?_pairwise sorted.2 found x later px

theorem firstOfSource_append_of_mem {pre : List Route} {r : Route} (mem : r ∈ pre) (rest : List Route) :
    firstOfSource (pre ++ rest) r.sourceId = firstOfSource pre r.sourceId := by
  obtain ⟨first, found⟩ : ∃ first, firstOfSource pre r.sourceId = some first :=
    Option.isSome_iff_exists.mp (List.find?_isSome.mpr ⟨r, mem, by simp⟩)
  unfold firstOfSource at found ⊢
  rw [List.find?_append, found, Option.some_or]

theorem bestMark_append_of_mem {pre : List Route} {r : Route} (mem : r ∈ pre) (rest : List Route) :
    bestMark (pre ++ rest) r = bestMark pre r := by
  rw [bestMark, bestMark, firstOfSource_append_of_mem mem]

theorem bestPerSourceStep_scan (pre : List Route) (r : Route) :
    bestPerSourceStep (pre.map (bestMark pre), firstOfSource pre) r =
      ((pre ++ [r]).map (bestMark (pre ++ [r])), firstOfSource (pre ++ [r])) := by
  have marks : pre.map (bestMark (pre ++ [r])) = pre.map (bestMark pre) :=
    List.map_congr_left fun _ mem => bestMark_append_of_mem mem [r]
  have firstAppend : ∀ s, firstOfSource (pre ++ [r]) s = (firstOfSource pre s).or (if r.sourceId = s then some r else none) := by
    intro s
    unfold firstOfSource
    by_cases source : r.sourceId = s <;> simp [List.find?_append, source]
  unfold bestPerSourceStep
  dsimp only
  cases first : firstOfSource pre r.sourceId with
  | none =>
    -- the first route of its source: marked, and recorded as the source's best
    have self : bestMark (pre ++ [r]) r = true := by
      simp [bestMark, firstAppend, first, routeCompare_eq_zero_iff]
    refine Prod.ext ?_ (funext fun s => ?_)
    · simp [marks, self]
    · by_cases source : r.sourceId = s
      · subst source
        simp [firstAppend, first]
      · simp [firstAppend, Function.update_of_ne (Ne.symm source), source]
  | some b =>
    have mark : bestMark (pre ++ [r]) r = (routeCompare r b == 0) := by
      simp [bestMark, firstAppend, first]
    refine Prod.ext ?_ (funext fun s => ?_)
    · simp [marks, mark]
    · by_cases source : r.sourceId = s
      · subst source
        simp [firstAppend, first]
      · simp [firstAppend, source]

theorem foldl_bestPerSourceStep (rest : List Route) : ∀ pre : List Route,
    rest.foldl bestPerSourceStep (pre.map (bestMark pre), firstOfSource pre) =
      ((pre ++ rest).map (bestMark (pre ++ rest)), firstOfSource (pre ++ rest)) := by
  induction rest with
  | nil => simp
  | cons r rest ih =>
    intro pre
    rw [List.foldl_cons, bestPerSourceStep_scan, ih, List.append_assoc, List.singleton_append]

theorem bestPerSourceMask_eq (routes : List Route) :
    bestPerSourceMask routes = routes.map (bestMark routes) := by
  have scan := foldl_bestPerSourceStep routes []
  rw [List.nil_append] at scan
  exact congrArg Prod.fst scan

theorem zip_map_filter {α : Type} (l : List α) (f : α → Bool) :
    ((l.zip (l.map f)).filter (·.2)).map (·.1) = l.filter f := by
  induction l with
  | nil => rfl
  | cons a l ih =>
    cases fa : f a <;> simp [fa, ih]

-- In a sorted list a route costs the same as the first of its source exactly when no route
-- of its source costs more.
theorem bestMark_of_sorted {routes : List Route} (sorted : routes.Pairwise fun a b => 0 ≤ routeCompare a b)
    {r : Route} (mem : r ∈ routes) :
    bestMark routes r = decide (¬ ∃ r' ∈ routes, r'.sourceId = r.sourceId ∧ 0 < routeCompare r' r) := by
  obtain ⟨b, first⟩ : ∃ b, firstOfSource routes r.sourceId = some b :=
    Option.isSome_iff_exists.mp (List.find?_isSome.mpr ⟨r, mem, by simp⟩)
  have bSource : b.sourceId = r.sourceId := by
    simpa using List.find?_some first
  -- the first route of the source costs at least as much as every route of the source
  have best : ∀ r' ∈ routes, r'.sourceId = r.sourceId → routeRank r' ≤ routeRank b := by
    intro r' mem' source'
    rcases find?_pairwise sorted first r' mem' (by simpa using source') with rfl | le
    · exact Nat.le_refl _
    · exact (routeCompare_nonneg_iff _ _).mp le
  have below := best r mem rfl
  have bMem : b ∈ routes := List.mem_of_find?_eq_some first
  rw [bestMark, first, Option.getD_some]
  simp only [routeCompare_pos_iff]
  rw [Bool.eq_iff_iff, beq_iff_eq, decide_eq_true_eq, routeCompare_eq_zero_iff]
  constructor
  · rintro same ⟨r', mem', source', better⟩
    have := best r' mem' source'
    omega
  · intro unbeaten
    -- the first route of the source is itself no better than r
    have notBetter : ¬ routeRank r < routeRank b := fun better => unbeaten ⟨b, bMem, bSource, better⟩
    omega

-- BestPerSource of any sorted list (every list the RIB keeps, and BuildFIB's sublists of them).
theorem bestPerSource_of_sorted {routes : List Route} (sorted : routes.Pairwise fun a b => 0 ≤ routeCompare a b) :
    bestPerSource routes = routes.filter fun r =>
      decide (¬ ∃ r' ∈ routes, r'.sourceId = r.sourceId ∧ 0 < routeCompare r' r) := by
  rw [bestPerSource, bestPerSourceMask_eq, zip_map_filter]
  exact List.filter_congr fun r mem => bestMark_of_sorted sorted mem

end BestPerSource

theorem routes_list_run_invariants (ops : List RoutesListOp) :
    (routesListRun ops).Pairwise (fun a b => 0 ≤ routeCompare a b) ∧
    (routesListRun ops).Pairwise (fun a b => a.isSameIdentity b = false) ∧
    (∀ route, (routesListInsert (routesListRun ops) route).2 = true ↔
      ∀ r ∈ routesListRun ops, r.isSameIdentity route = false) ∧
    bestPerSource (routesListRun ops) = (routesListRun ops).filter fun r =>
      decide (¬ ∃ r' ∈ routesListRun ops, r'.sourceId = r.sourceId ∧ 0 < routeCompare r' r) := by
  have inv := routesListInv_run ops
  exact ⟨inv.sorted, inv.distinct, routesListInsert_snd _, bestPerSource_of_sorted inv.sorted⟩

end Yanet
