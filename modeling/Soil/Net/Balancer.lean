import Soil.Net.Endpoint
import Soil.Smooth

/-!
# The weighted balancer

`WeightedRoundRobinBalancer` of `balancer.go`, with the arithmetic of Go's `int`.  `Pick` works
on an immutable `wrrState` and replaces it; here it is run by one goroutine.
-/

namespace Soil.Net

open List

def goInt (x : Int) : Int := x.bmod 18446744073709551616

def EndpointNode.weight (n : EndpointNode) : Int := if n.ep.weight ≤ 0 then 1 else n.ep.weight

structure WrrState where
  addrs : List String
  weights : List Int
  current : List Int
  total : Int
  deriving DecidableEq, Repr

def wrrMatches (st : WrrState) (candidates : List EndpointNode) : Bool :=
  st.addrs.length == candidates.length &&
    (candidates.zip (st.addrs.zip st.weights)).all fun (c, addr, weight) =>
      addr == c.ep.addr && weight == c.weight

def buildWRRState (candidates : List EndpointNode) : WrrState where
  addrs := candidates.map (·.ep.addr)
  weights := candidates.map (·.weight)
  current := candidates.map fun _ => 0
  total := candidates.foldl (fun total c => goInt (total + c.weight)) 0

def bestFrom : Nat → Nat → Int → List Int → Nat
  | _, bestIdx, _, [] => bestIdx
  | i, bestIdx, bestVal, x :: xs =>
    if bestVal < x then bestFrom (i + 1) i x xs else bestFrom (i + 1) bestIdx bestVal xs

def WrrState.nextCurrent (st : WrrState) : List Int :=
  List.zipWith (fun c w => goInt (c + w)) st.current st.weights

def WrrState.bestIdx (st : WrrState) : Nat := bestFrom 0 0 (-1073741824) st.nextCurrent

def WrrState.advance (st : WrrState) : WrrState :=
  { st with current := st.nextCurrent.modify st.bestIdx fun x => goInt (x - st.total) }

def WrrState.choice (st : WrrState) (candidates : List EndpointNode) : Option EndpointNode :=
  match candidates.find? fun c => st.addrs[st.bestIdx]? = some c.ep.addr with
  | some c => some c
  | none => candidates[st.bestIdx % candidates.length]?

def inForce (b : Option WrrState) (candidates : List EndpointNode) : WrrState :=
  match b with
  | some st => if wrrMatches st candidates then st else buildWRRState candidates
  | none => buildWRRState candidates

def pick (b : Option WrrState) (candidates : List EndpointNode) :
    Option EndpointNode × Option WrrState :=
  match candidates with
  | [c] => (some c, b)
  | _ =>
    let st := inForce b candidates
    (st.choice candidates, some st.advance)

def balancerAfter (candidates : List EndpointNode) : Nat → Option WrrState
  | 0 => none
  | t + 1 => (pick (balancerAfter candidates t) candidates).2

def firstPicks (candidates : List EndpointNode) (t : Nat) : List (Option EndpointNode) :=
  (List.range t).map fun s => (pick (balancerAfter candidates s) candidates).1

def currentAfter (candidates : List EndpointNode) (t : Nat) : List Int :=
  (inForce (balancerAfter candidates t) candidates).current

def totalWeight (candidates : List EndpointNode) : Int := (candidates.map (·.weight)).sum

structure NoOverflow (candidates : List EndpointNode) : Prop where
  total : totalWeight candidates < 9223372036854775808
  gain : ∀ t, ∀ x ∈ List.zipWith (· + ·) (currentAfter candidates t) (candidates.map (·.weight)),
    x < 9223372036854775808

/-! ## States of a list of candidates -/

theorem goInt_eq {x : Int} (low : -9223372036854775808 ≤ x) (high : x < 9223372036854775808) :
    goInt x = x := by
  apply Int.bmod_eq_of_le <;> omega

theorem EndpointNode.weight_pos (n : EndpointNode) : 0 < n.weight := by
  unfold weight
  split <;> omega

structure WrrState.Of (candidates : List EndpointNode) (st : WrrState) : Prop where
  addrs : st.addrs = candidates.map (·.ep.addr)
  weights : st.weights = candidates.map (·.weight)
  length : st.current.length = candidates.length

variable {candidates : List EndpointNode} {st : WrrState}

theorem buildWRRState_of (candidates : List EndpointNode) :
    (buildWRRState candidates).Of candidates :=
  ⟨rfl, rfl, length_map _⟩

theorem WrrState.Of.advance (of : st.Of candidates) : st.advance.Of candidates := by
  refine ⟨of.addrs, of.weights, ?_⟩
  have length := of.length
  simp [WrrState.advance, WrrState.nextCurrent, of.weights, length]

theorem WrrState.Of.matches (of : st.Of candidates) : wrrMatches st candidates = true := by
  rw [wrrMatches, of.addrs, of.weights, length_map, beq_self_eq_true, Bool.true_and]
  clear of
  induction candidates with
  | nil => rfl
  | cons c cs ih =>
    rw [map_cons, map_cons, zip_cons_cons, zip_cons_cons, all_cons, ih]
    simp

theorem inForce_of (of : st.Of candidates) : inForce (some st) candidates = st := by
  rw [inForce, if_pos of.matches]

theorem pick_of_two (two : 2 ≤ candidates.length) (b : Option WrrState) :
    pick b candidates = ((inForce b candidates).choice candidates,
      some (inForce b candidates).advance) := by
  unfold pick
  split
  · simp at two
  · rfl

section

variable (two : 2 ≤ candidates.length)

include two

theorem inForce_succ {t : Nat}
    (of : (inForce (balancerAfter candidates t) candidates).Of candidates) :
    inForce (balancerAfter candidates (t + 1)) candidates =
      (inForce (balancerAfter candidates t) candidates).advance := by
  rw [balancerAfter, pick_of_two two]
  exact inForce_of of.advance

theorem balancerAfter_of (t : Nat) :
    (inForce (balancerAfter candidates t) candidates).Of candidates := by
  induction t with
  | zero => exact buildWRRState_of candidates
  | succ t ih =>
    rw [inForce_succ two ih]
    exact ih.advance

end

/-! ## Rounds -/

theorem bestFrom_spec (i bestIdx : Nat) (bestVal : Int) (xs : List Int) :
    bestFrom i bestIdx bestVal xs = bestIdx ∧ (∀ x ∈ xs, x ≤ bestVal) ∨
      ∃ j y, bestFrom i bestIdx bestVal xs = i + j ∧ xs[j]? = some y ∧ bestVal < y ∧
        ∀ x ∈ xs, x ≤ y := by
  induction xs generalizing i bestIdx bestVal with
  | nil => exact .inl ⟨rfl, nofun⟩
  | cons x xs ih =>
    rw [bestFrom]
    split
    · rename_i better
      right
      rcases ih (i + 1) i x with ⟨same, others⟩ | ⟨j, y, found, at_, above, others⟩
      · exact ⟨0, x, same, rfl, better, forall_mem_cons.mpr ⟨le_refl x, others⟩⟩
      · refine ⟨j + 1, y, by omega, at_, by omega, forall_mem_cons.mpr ⟨by omega, others⟩⟩
    · rcases ih (i + 1) bestIdx bestVal with ⟨same, others⟩ | ⟨j, y, found, at_, above, others⟩
      · exact .inl ⟨same, forall_mem_cons.mpr ⟨by omega, others⟩⟩
      · exact .inr ⟨j + 1, y, by omega, at_, above, forall_mem_cons.mpr ⟨by omega, others⟩⟩

structure WrrState.Balanced (candidates : List EndpointNode) (st : WrrState) : Prop
    extends st.Of candidates where
  total : st.total = totalWeight candidates
  sum : st.current.sum = 0
  owes : ∀ x ∈ st.current, - totalWeight candidates < x

theorem WrrState.Balanced.owes_entries (balanced : st.Balanced candidates)
    (i : Fin candidates.length) :
    - totalWeight candidates < entries candidates.length st.current i := by
  have here : i.1 < st.current.length := by
    rw [balanced.length]
    exact i.2
  rw [entries_of_getElem? (List.getElem?_eq_getElem here)]
  exact balanced.owes _ (getElem_mem here)

theorem weights_pos (i : Fin candidates.length) :
    0 < entries candidates.length (candidates.map (·.weight)) i := by
  rw [entries_of_getElem? (x := candidates[i].weight)]
  · exact EndpointNode.weight_pos _
  · simp

theorem totalWeight_pos (some_ : candidates ≠ []) : 0 < totalWeight candidates := by
  apply sum_pos
  · intro x inside
    obtain ⟨c, -, rfl⟩ := mem_map.mp inside
    exact c.weight_pos
  · simpa using some_

theorem mem_gained {current : List Int} {x : Int}
    (inside : x ∈ List.zipWith (· + ·) current (candidates.map (·.weight))) :
    ∃ c w, c ∈ current ∧ 0 < w ∧ c + w = x := by
  obtain ⟨j, at_⟩ := mem_iff_getElem?.mp inside
  obtain ⟨c, w, here, weight, sum⟩ := List.getElem?_zipWith_eq_some.mp at_
  obtain ⟨node, -, rfl⟩ := mem_map.mp (mem_of_getElem? weight)
  exact ⟨c, _, mem_of_getElem? here, node.weight_pos, sum⟩

section

variable (balanced : st.Balanced candidates) (total : totalWeight candidates < 9223372036854775808)
  (gain : ∀ x ∈ List.zipWith (· + ·) st.current (candidates.map (·.weight)),
    x < 9223372036854775808)

include balanced

theorem sum_gained :
    (List.zipWith (· + ·) st.current (candidates.map (·.weight))).sum = totalWeight candidates := by
  rw [← sum_add_sum_eq_sum_zipWith_of_length_eq, balanced.sum, zero_add, totalWeight]
  rw [length_map, balanced.length]

theorem gained_le (x : Int)
    (inside : x ∈ List.zipWith (· + ·) st.current (candidates.map (·.weight))) :
    x ≤ candidates.length * totalWeight candidates := by
  have most : x + totalWeight candidates ≤
      ((List.zipWith (· + ·) st.current (candidates.map (·.weight))).map
        (· + totalWeight candidates)).sum := by
    apply single_le_sum
    · intro y owed
      obtain ⟨z, gained, rfl⟩ := mem_map.mp owed
      obtain ⟨c, w, current, positive, rfl⟩ := mem_gained gained
      have owes := balanced.owes c current
      omega
    · exact mem_map_of_mem inside
  have length : (List.zipWith (· + ·) st.current (candidates.map (·.weight))).length =
      candidates.length := by
    simp [balanced.length]
  rw [sum_map_add, map_id', sum_gained balanced, map_const', sum_replicate,
    length, nsmul_eq_mul] at most
  omega

include total gain in
theorem nextCurrent_eq : st.nextCurrent =
    List.zipWith (· + ·) st.current (candidates.map (·.weight)) := by
  have mapped : st.nextCurrent =
      (List.zipWith (· + ·) st.current (candidates.map (·.weight))).map goInt := by
    rw [map_zipWith, WrrState.nextCurrent, balanced.weights]
  rw [mapped]
  conv_rhs => rw [← map_id (List.zipWith _ _ _)]
  apply map_congr_left
  intro x inside
  obtain ⟨c, w, current, positive, rfl⟩ := mem_gained inside
  have owes := balanced.owes c current
  exact goInt_eq (by omega) (gain _ inside)

include total gain in
theorem WrrState.Balanced.round (some_ : candidates ≠ []) :
    ∃ small : st.bestIdx < candidates.length,
      Round (entries candidates.length (candidates.map (·.weight)))
        (entries candidates.length st.current) ⟨st.bestIdx, small⟩
        (entries candidates.length st.advance.current) := by
  have next := nextCurrent_eq balanced total gain
  have sum := sum_gained balanced
  have positive := totalWeight_pos some_
  have notAll (bound : ∀ x ∈ List.zipWith (· + ·) st.current (candidates.map (·.weight)), x ≤ 0) :
      False := by
    have := sum_le_card_nsmul _ 0 bound
    rw [nsmul_zero] at this
    omega
  rcases bestFrom_spec 0 0 (-1073741824) st.nextCurrent with ⟨-, low⟩ | ⟨j, y, best, at_, -, most⟩
  · -- not all of them are below zero
    rw [next] at low
    exact (notAll fun x inside => (low x inside).trans (by omega)).elim
  rw [next] at at_ most
  have here : st.bestIdx = j := by rw [WrrState.bestIdx, best, zero_add]
  have small : st.bestIdx < candidates.length := by
    have := (List.getElem?_eq_some_iff.mp at_).1
    rw [length_zipWith, balanced.length, length_map] at this
    omega
  have above : 0 < y := by
    by_contra none
    exact notAll fun x inside => (most x inside).trans (not_lt.mp none)
  have high := gain y (mem_of_getElem? at_)
  have advance : st.advance.current =
      (List.zipWith (· + ·) st.current (candidates.map (·.weight))).modify st.bestIdx
        (· - (candidates.map (·.weight)).sum) := by
    have paid : goInt (y - st.total) = y - (candidates.map (·.weight)).sum := by
      rw [balanced.total]
      exact goInt_eq (by omega) (by omega)
    apply ext_getElem?
    intro i
    rw [WrrState.advance, next, List.getElem?_modify, List.getElem?_modify]
    by_cases same : st.bestIdx = i
    · rw [← same, here, at_]
      simp [paid]
    · simp [same]
  refine ⟨small, ?_⟩
  rw [advance]
  apply Round.of_lists (length_map _) balanced.length
  intro x inside
  rw [entries_of_getElem? (x := y)]
  · exact most x inside
  · dsimp only
    rw [here]
    exact at_

include total gain in
theorem WrrState.Balanced.advance (some_ : candidates ≠ []) : st.advance.Balanced candidates := by
  obtain ⟨small, round⟩ := balanced.round total gain some_
  have of := balanced.toOf.advance
  have sum : ∑ i, entries candidates.length st.current i = 0 := by
    rw [sum_entries balanced.length, balanced.sum]
  have weights : ∑ i, entries candidates.length (candidates.map (·.weight)) i =
      totalWeight candidates := sum_entries (length_map _)
  refine ⟨of, balanced.total, ?_, ?_⟩
  · rw [← sum_entries of.length, round.sum_eq, sum]
  intro x inside
  obtain ⟨i, at_⟩ := mem_iff_getElem?.mp inside
  have here : i < candidates.length := of.length ▸ (List.getElem?_eq_some_iff.mp at_).1
  have low := round.neg_sum_lt weights_pos sum
    (fun j => weights.symm ▸ balanced.owes_entries j) ⟨i, here⟩
  rwa [entries_of_getElem? at_, weights] at low

end

/-! ## Runs -/

theorem foldl_goInt (cs : List EndpointNode) (sum : Int) (nonneg : 0 ≤ sum)
    (fits : sum + totalWeight cs < 9223372036854775808) :
    cs.foldl (fun total c => goInt (total + c.weight)) sum = sum + totalWeight cs := by
  induction cs generalizing sum with
  | nil => simp [totalWeight]
  | cons c cs ih =>
    have positive := c.weight_pos
    have rest : 0 ≤ totalWeight cs := by
      apply sum_nonneg
      intro x inside
      obtain ⟨d, -, rfl⟩ := mem_map.mp inside
      exact le_of_lt d.weight_pos
    have split_ : totalWeight (c :: cs) = c.weight + totalWeight cs := by simp [totalWeight]
    rw [foldl_cons, goInt_eq (by omega) (by omega), ih _ (by omega) (by omega), split_]
    ring

theorem buildWRRState_balanced (some_ : candidates ≠ [])
    (total : totalWeight candidates < 9223372036854775808) :
    (buildWRRState candidates).Balanced candidates := by
  have positive := totalWeight_pos some_
  refine ⟨buildWRRState_of candidates, ?_, ?_, ?_⟩
  · rw [buildWRRState, foldl_goInt candidates 0 (le_refl 0) (by omega), zero_add]
  · simp [buildWRRState]
  · intro x inside
    obtain ⟨c, -, rfl⟩ := mem_map.mp inside
    omega

section

variable (two : 2 ≤ candidates.length)

include two

theorem candidates_ne_nil : candidates ≠ [] := by
  intro none
  simp [none] at two

variable {t : Nat}

theorem balanced_succ
    (balanced : (inForce (balancerAfter candidates t) candidates).Balanced candidates)
    (total : totalWeight candidates < 9223372036854775808)
    (gain : ∀ x ∈ List.zipWith (· + ·) (currentAfter candidates t) (candidates.map (·.weight)),
      x < 9223372036854775808) :
    (inForce (balancerAfter candidates (t + 1)) candidates).Balanced candidates := by
  rw [inForce_succ two balanced.toOf]
  exact balanced.advance total gain (candidates_ne_nil two)

theorem balanced_after (fits : NoOverflow candidates) (t : Nat) :
    (inForce (balancerAfter candidates t) candidates).Balanced candidates := by
  induction t with
  | zero => exact buildWRRState_balanced (candidates_ne_nil two) fits.total
  | succ t ih => exact balanced_succ two ih fits.total (fits.gain t)

theorem noOverflow_of_mul_lt
    (fits : candidates.length * totalWeight candidates < 9223372036854775808) :
    NoOverflow candidates := by
  have positive := totalWeight_pos (candidates_ne_nil two)
  have total : totalWeight candidates < 9223372036854775808 := by
    have : (1 : Int) * totalWeight candidates ≤ candidates.length * totalWeight candidates := by
      apply mul_le_mul_of_nonneg_right _ (le_of_lt positive)
      omega
    omega
  have balanced (t : Nat) :
      (inForce (balancerAfter candidates t) candidates).Balanced candidates := by
    induction t with
    | zero => exact buildWRRState_balanced (candidates_ne_nil two) total
    | succ t ih =>
      exact balanced_succ two ih total fun x inside => (gained_le ih x inside).trans_lt fits
  exact ⟨total, fun t x inside => (gained_le (balanced t) x inside).trans_lt fits⟩

theorem states_smooth (fits : NoOverflow candidates) : ∃ picked : Nat → Fin candidates.length,
    (∀ t, (inForce (balancerAfter candidates t) candidates).bestIdx = (picked t).1) ∧
      Smooth (entries candidates.length (candidates.map (·.weight)))
        (fun t => entries candidates.length (currentAfter candidates t)) picked := by
  have round (t : Nat) := (balanced_after two fits t).round fits.total (fits.gain t)
    (candidates_ne_nil two)
  refine ⟨fun t => ⟨_, (round t).fst⟩, fun t => rfl, ?_⟩
  intro t
  dsimp only [currentAfter]
  rw [inForce_succ two (balanced_after two fits t).toOf]
  exact (round t).snd

theorem currentAfter_length (t : Nat) : (currentAfter candidates t).length = candidates.length :=
  (balancerAfter_of two t).length

theorem pick_eq (distinct : (candidates.map (·.ep.addr)).Nodup) {i : Fin candidates.length}
    (best : (inForce (balancerAfter candidates t) candidates).bestIdx = i) :
    (pick (balancerAfter candidates t) candidates).1 = some candidates[i] := by
  have wanted : (inForce (balancerAfter candidates t) candidates).addrs[i.1]? =
      some candidates[i].ep.addr := by
    rw [(balancerAfter_of two t).addrs]
    simp
  have found : candidates.find? (fun c => some candidates[i].ep.addr = some c.ep.addr) =
      some candidates[i] := by
    cases search : candidates.find? fun c => some candidates[i].ep.addr = some c.ep.addr with
    | none =>
      have := List.find?_eq_none.mp search candidates[i] (getElem_mem i.2)
      simp at this
    | some c =>
      have same : candidates[i].ep.addr = c.ep.addr := by
        simpa using List.find?_some search
      have inside := mem_of_find?_eq_some search
      exact congrArg some (inj_on_of_nodup_map distinct (getElem_mem i.2) inside same).symm
  rw [pick_of_two two, WrrState.choice, best, wanted, found]

theorem count_firstPicks (distinct : (candidates.map (·.ep.addr)).Nodup)
    {picked : Nat → Fin candidates.length}
    (best : ∀ t, (inForce (balancerAfter candidates t) candidates).bestIdx = (picked t).1)
    (i : Fin candidates.length) (t : Nat) :
    (firstPicks candidates t).count (some candidates[i]) = Smooth.picks picked i t := by
  have nodup : candidates.Nodup := distinct.of_map
  induction t with
  | zero => simp [firstPicks]
  | succ t ih =>
    have same : candidates[(picked t).1] = candidates[i.1] ↔ picked t = i := by
      rw [nodup.getElem_inj_iff, Fin.ext_iff]
    rw [firstPicks, range_succ, map_append, count_append, Smooth.picks, Nat.count_succ]
    simp [same, pick_eq two distinct (best t), ← ih, firstPicks, count_singleton]

end

/-- Smooth weighted round robin: from a fresh balancer whole cycles of picks choose every
candidate as often as its weight says and leave nothing behind; at every point everyone owes
less than a cycle and what all have is nothing. -/
theorem weighted_round_robin (two : 2 ≤ candidates.length)
    (distinct : (candidates.map (·.ep.addr)).Nodup) (fits : NoOverflow candidates) :
    (∀ k : Nat, let t := k * (totalWeight candidates).toNat
      (∀ c ∈ candidates, ((firstPicks candidates t).count (some c) : Int) = k * c.weight) ∧
        ∀ x ∈ currentAfter candidates t, x = 0) ∧
      ∀ t, (∀ x ∈ currentAfter candidates t, - totalWeight candidates < x) ∧
        (currentAfter candidates t).sum = 0 := by
  refine ⟨?_, fun t => ⟨(balanced_after two fits t).owes, (balanced_after two fits t).sum⟩⟩
  intro k t
  obtain ⟨picked, best, smooth⟩ := states_smooth two fits
  have positive := totalWeight_pos (candidates_ne_nil two)
  have zero (i : Fin candidates.length) :
      entries candidates.length (currentAfter candidates 0) i = 0 := by
    apply entries_of_getElem?
    simp [currentAfter, balancerAfter, inForce, buildWRRState]
  have whole : (t : Int) = k * ∑ i, entries candidates.length (candidates.map (·.weight)) i := by
    rw [sum_entries (length_map _)]
    change ((k * (totalWeight candidates).toNat : Nat) : Int) = k * totalWeight candidates
    rw [Nat.cast_mul, Int.toNat_of_nonneg (le_of_lt positive)]
  have exact_ (i : Fin candidates.length) := smooth.exact weights_pos zero whole i
  refine ⟨?_, ?_⟩
  · intro c inside
    obtain ⟨i, rfl⟩ := mem_iff_get.mp inside
    have share := (exact_ i).1
    rwa [← count_firstPicks two distinct best, entries_of_getElem? (x := candidates[i].weight)]
      at share
    simp
  · intro x inside
    obtain ⟨i, at_⟩ := mem_iff_getElem?.mp inside
    have here : i < candidates.length := by
      rw [← currentAfter_length two t]
      exact (List.getElem?_eq_some_iff.mp at_).1
    have none := (exact_ ⟨i, here⟩).2
    rwa [entries_of_getElem? at_] at none

theorem weighted_round_robin_two :
    let a : EndpointNode := ⟨⟨"a", 3⟩, 0, 0⟩
    let candidates : List EndpointNode := [a, ⟨⟨"b", 1⟩, 0, 0⟩]
    (2 ≤ candidates.length ∧ (candidates.map (·.ep.addr)).Nodup ∧ NoOverflow candidates) ∧
      ((firstPicks candidates 400).count (some a) : Int) = 300 := by
  intro a candidates
  have two : 2 ≤ candidates.length := by decide
  have distinct : (candidates.map (·.ep.addr)).Nodup := by decide
  have fits : NoOverflow candidates := noOverflow_of_mul_lt two (by decide)
  refine ⟨⟨two, distinct, fits⟩, ?_⟩
  exact ((weighted_round_robin two distinct fits).1 100).1 a (mem_cons_self ..)

end Soil.Net
