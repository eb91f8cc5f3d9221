import Soil.Net.Balancer

/-!
# Concurrent picks of the weighted balancer

`WeightedRoundRobinBalancer.Pick` called by any number of goroutines with one list of
candidates.  Each `Load`, `Store` and `CompareAndSwap` of the balancer's state is a step, and
pointers are compared, not what they point to.
-/

namespace Soil.Net.BalancerRace

open List Option

open Soil.System

structure Cell where
  heap : List WrrState := []
  state : Option Nat := none
  deriving DecidableEq

inductive PC where
  | load
  | store
  | cas (st : Nat)
  | ret (c : Option EndpointNode)
  | done (c : Option EndpointNode)
  deriving DecidableEq

def Cell.put (b : Cell) (st : WrrState) : Cell :=
  { heap := b.heap ++ [st], state := some b.heap.length }

def Cell.move (candidates : List EndpointNode) (b : Cell) : PC → Option (Cell × PC)
  | .load =>
    match candidates with
    | [c] => some (b, .ret (some c))
    | _ =>
      match b.state with
      | none => some (b, .store)
      | some p => (b.heap[p]?).map fun st =>
        if wrrMatches st candidates then (b, .cas p) else (b, .store)
  | .store => some (b.put (buildWRRState candidates), .cas b.heap.length)
  | .cas p => (b.heap[p]?).map fun st =>
    if b.state = some p then (b.put st.advance, .ret (st.choice candidates)) else (b, .load)
  | .ret c => some (b, .done c)
  | .done _ => none

structure State where
  cell : Cell := {}
  calls : List PC := []
  deriving DecidableEq

inductive Label where
  | call
  | go (i : Nat)
  deriving DecidableEq

def State.step (candidates : List EndpointNode) (s : State) : Label → Option State
  | .call => some { s with calls := s.calls ++ [.load] }
  | .go i => (s.calls[i]?).bind fun pc => (s.cell.move candidates pc).map fun (cell, pc') =>
    { cell, calls := s.calls.set i pc' }

def balancer (candidates : List EndpointNode) : System State Label where
  init s := s = {}
  step := State.step candidates

def PC.picked : PC → Option (Option EndpointNode)
  | .ret c | .done c => some c
  | _ => none

def State.picks (s : State) : List (Option EndpointNode) := s.calls.filterMap PC.picked

def PC.result : PC → Option (Option EndpointNode)
  | .done c => some c
  | _ => none

def State.results (s : State) : List (Option EndpointNode) := s.calls.filterMap PC.result

def State.Quiet (s : State) : Prop := ∀ pc ∈ s.calls, pc.result.isSome

def Cell.current (candidates : List EndpointNode) (b : Cell) : Option WrrState :=
  match b.state with
  | none => some (buildWRRState candidates)
  | some p => b.heap[p]?

def NoOverwrite (candidates : List EndpointNode) (s : State) : Label → Prop
  | .call => True
  | .go i => s.calls[i]? = some .store →
      s.cell.current candidates = some (buildWRRState candidates)

instance (candidates : List EndpointNode) (s : State) (l : Label) :
    Decidable (NoOverwrite candidates s l) := by
  cases l <;> unfold NoOverwrite <;> infer_instance

/-! ## One step -/

theorem filterMap_set_perm {α β : Type} {f : α → Option β} {xs : List α} {i : Nat} {old new : α}
    {y : β} (at_ : xs[i]? = some old) (before : f old = none) (after : f new = some y) :
    ((xs.set i new).filterMap f).Perm (xs.filterMap f ++ [y]) := by
  induction xs generalizing i with
  | nil => simp at at_
  | cons x xs ih =>
    cases i with
    | zero =>
      obtain rfl : x = old := by simpa using at_
      rw [set_cons_zero, filterMap_cons_some after, filterMap_cons_none before]
      exact (perm_append_singleton y _).symm
    | succ =>
      have rest := ih (by simpa using at_)
      rw [set_cons_succ]
      cases here : f x with
      | none =>
        rw [filterMap_cons_none here, filterMap_cons_none here]
        exact rest
      | some z =>
        rw [filterMap_cons_some here, filterMap_cons_some here]
        exact rest.cons z

theorem filterMap_set_of_eq {α β : Type} {f : α → Option β} {xs : List α} {i : Nat} {old new : α}
    (at_ : xs[i]? = some old) (same : f new = f old) :
    (xs.set i new).filterMap f = xs.filterMap f := by
  have mapped (ys : List α) : ys.filterMap f = (ys.map f).filterMap id := by
    rw [filterMap_map]
    rfl
  rw [mapped, mapped, map_set_of_eq at_ same]

variable {candidates : List EndpointNode} {s s' : State} {n : Nat}

@[simp]
theorem current_put (b : Cell) (st : WrrState) : (b.put st).current candidates = some st := by
  simp [Cell.put, Cell.current]

theorem firstPicks_succ (candidates : List EndpointNode) (n : Nat) : firstPicks candidates (n + 1) =
      firstPicks candidates n ++ [(pick (balancerAfter candidates n) candidates).1] := by
  rw [firstPicks, range_succ, map_append]
  rfl

theorem move_load (two : 2 ≤ candidates.length) (b : Cell) : b.move candidates .load =
    match b.state with
    | none => some (b, .store)
    | some p => (b.heap[p]?).map fun st =>
      if wrrMatches st candidates then (b, .cas p) else (b, .store) := by
  match candidates with
  | [] | [_] => simp at two
  | _ :: _ :: _ => rfl

structure Follows (candidates : List EndpointNode) (n n' : Nat) (b : Cell) (pc : PC) (b' : Cell)
    (pc' : PC) : Prop where
  current : b'.current candidates = some (inForce (balancerAfter candidates n') candidates)
  picked : n' = n ∧ pc'.picked = pc.picked ∨
    n' = n + 1 ∧ pc.picked = none ∧
      pc'.picked = some (pick (balancerAfter candidates n) candidates).1
  shared : pc' = .store ∨ (∃ p, pc' = .cas p) → 2 ≤ candidates.length

theorem move_follows (some_ : candidates ≠ []) {b b' : Cell} {pc pc' : PC}
    (current : b.current candidates = some (inForce (balancerAfter candidates n) candidates))
    (shared : pc = .store ∨ (∃ p, pc = .cas p) → 2 ≤ candidates.length)
    (kind : pc = .store → b.current candidates = some (buildWRRState candidates))
    (move : b.move candidates pc = some (b', pc')) : ∃ n', Follows candidates n n' b pc b' pc' := by
  cases pc with
  | load =>
    match candidates with
    | [] => exact (some_ rfl).elim
    | [c] =>
      cases move
      exact ⟨n + 1, current, .inr ⟨rfl, rfl, rfl⟩, nofun⟩
    | c :: d :: rest =>
      have two : 2 ≤ (c :: d :: rest).length := by simp
      rw [move_load two] at move
      split at move
      · cases move
        exact ⟨n, current, .inl ⟨rfl, rfl⟩, fun _ => two⟩
      · obtain ⟨st, -, move⟩ := map_eq_some_iff.mp move
        split at move <;>
        · cases move
          exact ⟨n, current, .inl ⟨rfl, rfl⟩, fun _ => two⟩
  | store =>
    cases move
    refine ⟨n, ?_, .inl ⟨rfl, rfl⟩, fun _ => shared (.inl rfl)⟩
    rw [current_put, ← kind rfl, current]
  | cas p =>
    have two := shared (.inr ⟨p, rfl⟩)
    obtain ⟨st, at_, move⟩ := map_eq_some_iff.mp move
    split at move
    · rename_i points
      cases move
      obtain rfl : st = inForce (balancerAfter candidates n) candidates := by
        simpa only [Cell.current, points, at_, some.injEq] using current
      refine ⟨n + 1, ?_, .inr ⟨rfl, rfl, ?_⟩, nofun⟩
      · rw [current_put, inForce_succ two (balancerAfter_of two n)]
      · rw [pick_of_two two]
        rfl
    · cases move
      exact ⟨n, current, .inl ⟨rfl, rfl⟩, nofun⟩
  | ret =>
    cases move
    exact ⟨n, current, .inl ⟨rfl, rfl⟩, nofun⟩
  | done => cases move

/-! ## Runs -/

structure Inv (candidates : List EndpointNode) (n : Nat) (s : State) : Prop where
  current : s.cell.current candidates = some (inForce (balancerAfter candidates n) candidates)
  picks : s.picks.Perm (firstPicks candidates n)
  shared : ∀ pc ∈ s.calls, pc = .store ∨ (∃ p, pc = .cas p) → 2 ≤ candidates.length

theorem Inv.start (candidates : List EndpointNode) : Inv candidates 0 {} :=
  ⟨rfl, .refl _, nofun⟩

theorem Inv.keeps (some_ : candidates ≠ []) {l : Label} (inv : Inv candidates n s)
    (kind : NoOverwrite candidates s l) (step : (balancer candidates).step s l = some s') :
    ∃ n', Inv candidates n' s' := by
  cases l with
  | call =>
    cases step
    refine ⟨n, inv.current, ?_, ?_⟩
    · simpa only [State.picks, filterMap_append, PC.picked, filterMap_cons,
        filterMap_nil, append_nil] using inv.picks
    · intro pc inside
      rcases mem_append.mp inside with old | new
      · exact inv.shared pc old
      · rw [mem_singleton.mp new]
        nofun
  | go =>
    obtain ⟨pc, at_, step⟩ := bind_eq_some_iff.mp step
    obtain ⟨⟨cell, pc'⟩, move, rfl⟩ := map_eq_some_iff.mp step
    obtain ⟨n', follows⟩ := move_follows some_ inv.current
      (inv.shared pc (mem_of_getElem? at_)) (fun store => kind (store ▸ at_)) move
    refine ⟨n', follows.current, ?_, forall_mem_set inv.shared follows.shared⟩
    rcases follows.picked with ⟨rfl, same⟩ | ⟨rfl, before, after⟩
    · rw [State.picks, filterMap_set_of_eq at_ same]
      exact inv.picks
    · rw [firstPicks_succ]
      exact (filterMap_set_perm at_ before after).trans (inv.picks.append_right _)

theorem State.Quiet.picks_eq (quiet : s.Quiet) : s.picks = s.results := by
  apply filterMap_congr
  intro pc inside
  have returned := quiet pc inside
  cases pc <;> first | rfl | cases returned

theorem State.Quiet.length_results (quiet : s.Quiet) : s.results.length = s.calls.length :=
  filterMap_length_eq_length.mpr quiet

/-- If no `Store` overwrites an advanced state, then whenever no pick is in progress the results
are those of the sequential balancer. -/
theorem concurrent_picks (some_ : candidates ≠ [])
    (reachable : (balancer candidates).Reachable (NoOverwrite candidates) s) (quiet : s.Quiet) :
    s.results.Perm (firstPicks candidates s.calls.length) := by
  obtain ⟨n, inv⟩ : ∃ n, Inv candidates n s := by
    apply reachable.induct (I := fun s => ∃ n, Inv candidates n s)
    · intro s start
      exact ⟨0, start ▸ Inv.start candidates⟩
    · intro s l s' ⟨n, inv⟩ kind step
      exact inv.keeps some_ kind step
  have picks := inv.picks
  rw [quiet.picks_eq] at picks
  have length : s.calls.length = n := by
    rw [← quiet.length_results, picks.length_eq, firstPicks, length_map, length_range]
  rwa [length]

/-- Two goroutines that both find no state, one of which has to try again, and a third pick. -/
theorem concurrent_picks_two :
    let candidates : List EndpointNode := [⟨⟨"a", 3⟩, 0, 0⟩, ⟨⟨"b", 1⟩, 0, 0⟩]
    ∃ s : State, s.calls.length = 3 ∧ s.results.Perm (firstPicks candidates 3) := by
  intro candidates
  obtain ⟨s, reachable, three, all⟩ : ∃ s,
      (balancer candidates).Reachable (NoOverwrite candidates) s ∧ s.calls.length = 3 ∧
        ∀ pc ∈ s.calls, pc.result.isSome :=
    exists_reachable [.call, .call, .go 0, .go 1, .go 0, .go 1, .go 0, .go 1, .go 1, .go 0, .go 0,
      .go 0, .call, .go 2, .go 2, .go 2] rfl (by decide +kernel)
  refine ⟨s, three, ?_⟩
  rw [← three]
  exact concurrent_picks (by simp) reachable all

/-- A goroutine that has found no state builds one after another has installed and advanced
its own: both get the first candidate, and the second has to wait. -/
theorem store_loses_pick :
    let candidates : List EndpointNode := [⟨⟨"a", 1⟩, 0, 0⟩, ⟨⟨"b", 1⟩, 0, 0⟩]
    ∃ s, (balancer candidates).Reachable Any s ∧ s.Quiet ∧
      s.results = [some ⟨⟨"a", 1⟩, 0, 0⟩, some ⟨⟨"a", 1⟩, 0, 0⟩] ∧
      firstPicks candidates 2 = [some ⟨⟨"a", 1⟩, 0, 0⟩, some ⟨⟨"b", 1⟩, 0, 0⟩] := by
  intro candidates
  unfold State.Quiet
  exact exists_reachable [.call, .call, .go 0, .go 1, .go 0, .go 0, .go 0, .go 1, .go 1, .go 1] rfl
    (by decide +kernel)

end Soil.Net.BalancerRace
