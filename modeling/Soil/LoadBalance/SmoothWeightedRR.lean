import Soil.Smooth
import Soil.System

/-!
# The smooth weighted balancer for gRPC

`smooth_weight_rr.go`: `Build` and `Pick`, called by one goroutine and with no `Done` in between,
with the arithmetic of `uint32`.  A connection starts with its weight, gains it in every pick,
and pays the sum of all weights when it is picked.
-/

namespace Soil.LoadBalance

open List Nat Smooth Option

open Finset

structure WeightConn (SC : Type) where
  sc : SC
  efficientWeight : UInt32
  currentWeight : UInt32
  deriving DecidableEq

variable {SC : Type}

def newWeightConn (sc : SC) (weight : UInt32) : WeightConn SC :=
  { sc, efficientWeight := weight, currentWeight := weight }

def build (readySCs : List (SC × UInt32)) : Option (List (WeightConn SC)) :=
  if readySCs.length = 0 then none
  else some (readySCs.map fun (sc, weight) => newWeightConn sc weight)

/-! ## Pick -/

structure Acc where
  totalWeight : UInt32 := 0
  res : Option Nat := none
  deriving DecidableEq

def WeightConn.gain (c : WeightConn SC) : WeightConn SC :=
  { c with currentWeight := c.currentWeight + c.efficientWeight }

def WeightConn.pay (totalWeight : UInt32) (c : WeightConn SC) : WeightConn SC :=
  { c with currentWeight := c.currentWeight - totalWeight }

def better (connections : List (WeightConn SC)) (res : Option Nat) (c : WeightConn SC) : Bool :=
  match res.bind (connections[·]?) with
  | none => true
  | some r => r.currentWeight < c.currentWeight

def visit (connections : List (WeightConn SC)) (acc : Acc) (i : Nat) :
    List (WeightConn SC) × Acc :=
  match connections[i]? with
  | none => (connections, acc)
  | some c =>
    let connections := connections.set i c.gain
    (connections,
      { totalWeight := acc.totalWeight + c.efficientWeight
        res := if better connections acc.res c.gain then some i else acc.res })

def scan (connections : List (WeightConn SC)) : Nat → List (WeightConn SC) × Acc
  | 0 => (connections, {})
  | i + 1 =>
    let (connections, acc) := scan connections i
    visit connections acc i

def pick (connections : List (WeightConn SC)) : Option Nat × List (WeightConn SC) :=
  let (connections, acc) := scan connections connections.length
  match acc.res with
  | none => (none, connections)
  | some r => (some r, connections.modify r (WeightConn.pay acc.totalWeight))

def after (connections : List (WeightConn SC)) : Nat → List (WeightConn SC)
  | 0 => connections
  | t + 1 => (pick (after connections t)).2

def subConn (connections : List (WeightConn SC)) : Option SC :=
  (pick connections).1.bind fun r => (connections[r]?).map (·.sc)

def block (connections : List (WeightConn SC)) (s n : Nat) : List (Option SC) :=
  (List.range' s n).map fun t => subConn (after connections t)

/-! ## What a pick does -/

def sumWeights (connections : List (WeightConn SC)) : Nat :=
  (connections.map (·.efficientWeight.toNat)).sum

structure Scanned (connections : List (WeightConn SC)) (i : Nat) (now : List (WeightConn SC))
    (acc : Acc) : Prop where
  gained : ∀ j, now[j]? = if j < i then (connections[j]?).map WeightConn.gain else connections[j]?
  total : acc.totalWeight.toNat = sumWeights (connections.take i) % 4294967296
  res : i = 0 ∧ acc.res = none ∨ ∃ r c, acc.res = some r ∧ r < i ∧ now[r]? = some c ∧
    ∀ j d, j < i → now[j]? = some d → d.currentWeight ≤ c.currentWeight

variable {connections : List (WeightConn SC)} {i : Nat}

theorem Scanned.visit {now : List (WeightConn SC)} {acc : Acc}
    (scanned : Scanned connections i now acc) (inside : i < connections.length) :
    Scanned connections (i + 1) (visit now acc i).1 (visit now acc i).2 := by
  have here : now[i]? = some connections[i] := by
    rw [scanned.gained, if_neg (Nat.lt_irrefl i), List.getElem?_eq_getElem inside]
  have kept {j : Nat} (before : j < i) : (now.set i connections[i].gain)[j]? = now[j]? := by
    rw [getElem?_set_of_some here, if_neg (by omega)]
  have new : (now.set i connections[i].gain)[i]? = some connections[i].gain := by
    rw [getElem?_set_of_some here, if_pos rfl]
  have eq : LoadBalance.visit now acc i = (now.set i connections[i].gain,
      { totalWeight := acc.totalWeight + connections[i].efficientWeight
        res := if better (now.set i connections[i].gain) acc.res connections[i].gain then some i
          else acc.res }) := by
    rw [LoadBalance.visit, here]
  rw [eq]
  refine ⟨?_, ?_, .inr ?_⟩
  · intro j
    rw [getElem?_set_of_some here, scanned.gained]
    rcases Nat.lt_trichotomy j i with before | rfl | behind
    · rw [if_neg (by omega), if_pos before, if_pos (by omega)]
    · rw [if_pos rfl, if_pos (by omega), List.getElem?_eq_getElem inside]
      rfl
    · rw [if_neg (by omega), if_neg (by omega), if_neg (by omega)]
  · have split_ : sumWeights (connections.take (i + 1)) =
        sumWeights (connections.take i) + connections[i].efficientWeight.toNat := by
      rw [take_add_one, List.getElem?_eq_getElem inside, sumWeights, map_append,
        sum_append]
      simp [sumWeights]
    rw [UInt32.toNat_add, scanned.total, split_, Nat.mod_add_mod]
  · rcases scanned.res with ⟨rfl, none⟩ | ⟨r, c, res, before, at_, most⟩
    · refine ⟨0, _, by simp [none, better], by omega, new, ?_⟩
      intro j d first found
      obtain rfl : j = 0 := by omega
      rw [new] at found
      cases found
      exact UInt32.le_refl _
    · have same : better (now.set i connections[i].gain) acc.res connections[i].gain =
          decide (c.currentWeight < connections[i].gain.currentWeight) := by
        rw [better, res, bind_some, kept before, at_]
      -- the best of the connections before, or the new one
      by_cases wins : c.currentWeight < connections[i].gain.currentWeight
      · refine ⟨i, _, by rw [same, decide_eq_true wins]; rfl, by omega, new, ?_⟩
        intro j d inside found
        rcases Nat.lt_succ_iff_lt_or_eq.mp inside with earlier | rfl
        · rw [kept earlier] at found
          exact UInt32.le_trans (most j d earlier found) (UInt32.le_of_lt wins)
        · rw [new] at found
          cases found
          exact UInt32.le_refl _
      · refine ⟨r, c, by rw [same, decide_eq_false wins]; exact res, by omega,
          (kept before).trans at_, ?_⟩
        intro j d inside found
        rcases Nat.lt_succ_iff_lt_or_eq.mp inside with earlier | rfl
        · rw [kept earlier] at found
          exact most j d earlier found
        · rw [new] at found
          cases found
          exact UInt32.not_lt.mp wins

theorem scan_scanned (inside : i ≤ connections.length) :
    Scanned connections i (scan connections i).1 (scan connections i).2 := by
  induction i with
  | zero =>
    refine ⟨?_, ?_, .inl ⟨rfl, rfl⟩⟩
    · intro j
      simp [scan]
    · simp [scan, sumWeights]
  | succ i ih => exact (ih (by omega)).visit inside

open WeightConn

theorem scan_length : (scan connections connections.length).1 = connections.map gain := by
  apply ext_getElem?
  intro j
  rw [(scan_scanned le_rfl).gained, List.getElem?_map]
  split
  · rfl
  · rw [List.getElem?_eq_none (by omega)]
    rfl

theorem pick_spec (some_ : connections ≠ []) : ∃ r c total, pick connections =
      (some r, (connections.map gain).modify r (pay total)) ∧ (connections.map gain)[r]? = some c ∧
    (∀ d ∈ connections.map gain, d.currentWeight ≤ c.currentWeight) ∧
    total.toNat = sumWeights connections % 4294967296 := by
  have scanned := scan_scanned (le_refl connections.length)
  rcases scanned.res with ⟨none, -⟩ | ⟨r, c, res, -, at_, most⟩
  · exact (some_ (length_eq_zero_iff.mp none)).elim
  have total := scanned.total
  rw [take_length] at total
  rw [scan_length] at at_ most
  refine ⟨r, c, _, ?_, at_, ?_, total⟩
  · simp [pick, res, scan_length]
  · intro d inside
    obtain ⟨j, found⟩ := mem_iff_getElem?.mp inside
    have here := (List.getElem?_eq_some_iff.mp found).1
    exact most j d (by simpa using here) found

/-! ## Rounds -/

def weights (connections : List (WeightConn SC)) : List ℤ :=
  connections.map fun c => (c.efficientWeight.toNat : ℤ)

def current (connections : List (WeightConn SC)) : List ℤ :=
  connections.map fun c => (c.currentWeight.toNat : ℤ)

structure NoWrap (connections : List (WeightConn SC)) : Prop where
  gain : ∀ c ∈ connections, c.currentWeight.toNat + c.efficientWeight.toNat < 4294967296
  total : sumWeights connections < 4294967296
  pay : ∀ r c, (pick connections).1 = some r → connections[r]? = some c →
    sumWeights connections ≤ c.currentWeight.toNat + c.efficientWeight.toNat

@[simp]
theorem length_weights (connections : List (WeightConn SC)) :
    (weights connections).length = connections.length :=
  List.length_map _

@[simp]
theorem length_current (connections : List (WeightConn SC)) :
    (current connections).length = connections.length :=
  List.length_map _

theorem gained_eq (connections : List (WeightConn SC)) :
    List.zipWith (· + ·) (current connections) (weights connections) =
      connections.map fun c => (c.currentWeight.toNat : ℤ) + c.efficientWeight.toNat := by
  rw [current, weights, List.zipWith_map, List.zipWith_self]

theorem sum_weights (connections : List (WeightConn SC)) :
    (weights connections).sum = sumWeights connections := by
  rw [weights, sumWeights, cast_list_sum, List.map_map]
  rfl

theorem toNat_gain
    (gain : ∀ c ∈ connections, c.currentWeight.toNat + c.efficientWeight.toNat < 4294967296)
    {c : WeightConn SC} (inside : c ∈ connections) :
    c.gain.currentWeight.toNat = c.currentWeight.toNat + c.efficientWeight.toNat := by
  rw [WeightConn.gain, UInt32.toNat_add]
  exact mod_eq_of_lt (gain c inside)

variable {n : ℕ}

theorem pick_gained (length : connections.length = n) (some_ : connections ≠ [])
    (gain : ∀ c ∈ connections, c.currentWeight.toNat + c.efficientWeight.toNat < 4294967296)
    (total : sumWeights connections < 4294967296) :
    ∃ r c, ∃ small : r < n, (pick connections).1 = some r ∧ connections[r]? = some c ∧
      Round (entries n (weights connections)) (entries n (current connections)) ⟨r, small⟩
        (entries n ((List.zipWith (· + ·) (current connections) (weights connections)).modify r
          (· - (weights connections).sum))) ∧
      (sumWeights connections ≤ c.currentWeight.toNat + c.efficientWeight.toNat →
        current (pick connections).2 =
          (List.zipWith (· + ·) (current connections) (weights connections)).modify r
            (· - (weights connections).sum)) := by
  obtain ⟨r, c', paid, picked, at_, most, sum⟩ := pick_spec some_
  rw [List.getElem?_map] at at_
  obtain ⟨c, here, rfl⟩ := map_eq_some_iff.mp at_
  have inside := mem_of_getElem? here
  have small : r < n := length ▸ (List.getElem?_eq_some_iff.mp here).1
  refine ⟨r, c, small, by rw [picked], here, ?_, ?_⟩
  · apply Round.of_lists
    · rw [length_weights, length]
    · rw [length_current, length]
    rw [gained_eq]
    intro x gained
    obtain ⟨d, present, rfl⟩ := mem_map.mp gained
    rw [entries_of_getElem? (x := (c.currentWeight.toNat : ℤ) + c.efficientWeight.toNat)
      (by simp [here])]
    have less := most d.gain (mem_map_of_mem present)
    rw [UInt32.le_iff_toNat_le, toNat_gain gain present, toNat_gain gain inside] at less
    exact_mod_cast less
  · intro pays
    rw [mod_eq_of_lt total] at sum
    rw [picked, current, gained_eq]
    apply ext_getElem?
    intro j
    rw [List.getElem?_map, List.getElem?_modify, List.getElem?_modify, List.getElem?_map,
      List.getElem?_map]
    by_cases same : r = j
    · subst same
      have enough : paid ≤ c.gain.currentWeight := by
        rw [UInt32.le_iff_toNat_le, toNat_gain gain inside, sum]
        exact pays
      have rest : ((c.gain.pay paid).currentWeight.toNat : ℤ) =
          c.currentWeight.toNat + c.efficientWeight.toNat - (weights connections).sum := by
        rw [pay, UInt32.toNat_sub_of_le _ _ enough, toNat_gain gain inside, sum,
          sum_weights, cast_sub pays, cast_add]
      simp [here, rest]
    · simp only [if_neg same]
      cases there : connections[j]? with
      | none => rfl
      | some => simp [toNat_gain gain (mem_of_getElem? there)]

theorem NoWrap.round (noWrap : NoWrap connections) (length : connections.length = n)
    (some_ : connections ≠ []) : ∃ r, ∃ small : r < n, (pick connections).1 = some r ∧
      Round (entries n (weights connections)) (entries n (current connections)) ⟨r, small⟩
        (entries n (current (pick connections).2)) := by
  obtain ⟨r, c, small, picked, here, round, paid⟩ :=
    pick_gained length some_ noWrap.gain noWrap.total
  refine ⟨r, small, picked, ?_⟩
  rw [paid (noWrap.pay r c picked here)]
  exact round

theorem weights_pos (positive : ∀ c ∈ connections, 1 ≤ c.efficientWeight)
    (i : Fin connections.length) : 0 < entries connections.length (weights connections) i := by
  have least := UInt32.le_iff_toNat_le.mp (positive _ (getElem_mem i.2))
  rw [entries_of_getElem? (x := (connections[i].efficientWeight.toNat : ℤ)) (by simp [weights])]
  exact_mod_cast least

theorem current_nonneg (i : Fin n) : 0 ≤ entries n (current connections) i := by
  rw [entries, getD_eq_getElem?_getD, current, List.getElem?_map]
  cases connections[i.1]? with
  | none => exact le_rfl
  | some => exact Int.natCast_nonneg _

theorem NoWrap.of_two (some_ : connections ≠ []) (two : connections.length ≤ 2)
    (positive : ∀ c ∈ connections, 1 ≤ c.efficientWeight)
    (sum : (current connections).sum = sumWeights connections)
    (small : sumWeights connections < 1073741824) : NoWrap connections := by
  have gain (c : WeightConn SC) (inside : c ∈ connections) :
      c.currentWeight.toNat + c.efficientWeight.toNat < 4294967296 := by
    have part : (c.currentWeight.toNat : ℤ) ≤ (current connections).sum := by
      apply List.single_le_sum
      · intro x present
        obtain ⟨-, -, rfl⟩ := mem_map.mp present
        exact Int.natCast_nonneg _
      · exact mem_map_of_mem inside
    have weight : c.efficientWeight.toNat ≤ sumWeights connections :=
      le_sum_of_mem (mem_map_of_mem inside)
    omega
  have total : sumWeights connections < 4294967296 := by omega
  refine ⟨gain, total, ?_⟩
  intro r c picked here
  obtain ⟨r', c', inside, picked', here', round, -⟩ := pick_gained rfl some_ gain total
  obtain rfl : r' = r := some.inj (picked'.symm.trans picked)
  obtain rfl : c' = c := some.inj (here'.symm.trans here)
  have owns := round.nonneg (by simpa using two) (weights_pos positive)
    (by rw [sum_entries (length_current _), sum_entries (length_weights _), sum, sum_weights])
    current_nonneg ⟨r', inside⟩
  rw [gained_eq, entries_of_getElem? (x := (c'.currentWeight.toNat : ℤ) +
    c'.efficientWeight.toNat - (weights connections).sum), sum_weights] at owns
  · omega
  · rw [List.getElem?_modify, List.getElem?_map, here']
    simp

/-! ## Runs -/

def WeightConn.key (c : WeightConn SC) : SC × UInt32 := (c.sc, c.efficientWeight)

theorem pick_keys (connections : List (WeightConn SC)) :
    (pick connections).2.map key = connections.map key := by
  rcases eq_or_ne connections [] with rfl | some_
  · rfl
  · obtain ⟨r, c, total, picked, -⟩ := pick_spec some_
    have paid : ∀ d : WeightConn SC, (d.pay total).key = d.key := fun _ => rfl
    rw [picked, map_modify_of_eq paid, List.map_map]
    rfl

theorem after_keys (connections : List (WeightConn SC)) (t : Nat) :
    (after connections t).map key = connections.map key := by
  induction t with
  | zero => rfl
  | succ t ih => rw [after, pick_keys, ih]

section

variable (connections) (t : Nat)

theorem after_length : (after connections t).length = connections.length := by
  have keys := congrArg List.length (after_keys connections t)
  rwa [List.length_map, List.length_map] at keys

theorem after_weights : weights (after connections t) = weights connections := by
  have keys := congrArg (List.map fun k : SC × UInt32 => (k.2.toNat : ℤ))
    (after_keys connections t)
  rwa [List.map_map, List.map_map] at keys

theorem after_sumWeights : sumWeights (after connections t) = sumWeights connections := by
  have sums := congrArg List.sum (after_weights connections t)
  rw [sum_weights, sum_weights] at sums
  exact_mod_cast sums

variable {connections} in
theorem after_ne_nil (some_ : connections ≠ []) : after connections t ≠ [] := by
  rw [← length_pos_iff, after_length]
  exact length_pos_iff.mpr some_

variable {connections} in
theorem after_positive (positive : ∀ c ∈ connections, 1 ≤ c.efficientWeight) :
    ∀ c ∈ after connections t, 1 ≤ c.efficientWeight := by
  intro c inside
  have key : c.key ∈ connections.map key :=
    after_keys connections t ▸ mem_map_of_mem inside
  obtain ⟨d, present, same⟩ := mem_map.mp key
  have weight : d.efficientWeight = c.efficientWeight := congrArg Prod.snd same
  exact weight ▸ positive d present

end

def NeverWraps (connections : List (WeightConn SC)) : Prop := ∀ t, NoWrap (after connections t)

theorem NeverWraps.smooth (never : NeverWraps connections) (some_ : connections ≠ []) :
    ∃ picked : ℕ → Fin connections.length,
      (∀ t, (pick (after connections t)).1 = some (picked t).1) ∧
        Smooth (entries connections.length (weights connections))
          (fun t => entries connections.length (current (after connections t))) picked := by
  have round (t : ℕ) := (never t).round (after_length connections t) (after_ne_nil t some_)
  choose r small picked round using round
  refine ⟨fun t => ⟨r t, small t⟩, picked, ?_⟩
  intro t
  have next := round t
  rwa [after_weights] at next

theorem NeverWraps.of_two (some_ : connections ≠ []) (two : connections.length ≤ 2)
    (positive : ∀ c ∈ connections, 1 ≤ c.efficientWeight)
    (start : current connections = weights connections)
    (small : sumWeights connections < 1073741824) : NeverWraps connections := by
  have noWrap (t : ℕ) (sum : (current (after connections t)).sum = sumWeights connections) :
      NoWrap (after connections t) := by
    apply NoWrap.of_two (after_ne_nil t some_) _ (after_positive t positive)
    · rw [after_sumWeights, sum]
    · rwa [after_sumWeights]
    · rwa [after_length]
  have sum (t : ℕ) : (current (after connections t)).sum = sumWeights connections := by
    induction t with
    | zero => rw [after, start, sum_weights]
    | succ t ih =>
      obtain ⟨r, inside, -, round⟩ :=
        (noWrap t ih).round (after_length connections t) (after_ne_nil t some_)
      have same := round.sum_eq
      rw [sum_entries, sum_entries, ih] at same
      · exact same
      · rw [length_current, after_length]
      · rw [length_current]
        exact after_length connections (t + 1)
  exact fun t => noWrap t (sum t)

theorem count_block [DecidableEq SC] (distinct : (connections.map (·.sc)).Nodup)
    {picked : ℕ → Fin connections.length}
    (found : ∀ t, (pick (after connections t)).1 = some (picked t).1)
    (i : Fin connections.length) (s n : ℕ) :
    picks picked i s + (block connections s n).count (some connections[i].sc) =
      picks picked i (s + n) := by
  have result (t : ℕ) : subConn (after connections t) = some connections[picked t].sc := by
    have scs := congrArg (List.map Prod.fst) (after_keys connections t)
    rw [List.map_map, List.map_map] at scs
    have here := congrArg (·[(picked t).1]?) scs
    rw [subConn, found, bind_some]
    simpa [key] using here
  induction n with
  | zero => simp [block]
  | succ n ih =>
    have same : connections[(picked (s + n)).1].sc = connections[i.1].sc ↔
        picked (s + n) = i := by
      constructor
      · intro equal
        have conns := inj_on_of_nodup_map distinct (getElem_mem _) (getElem_mem _)
          equal
        exact Fin.ext ((distinct.of_map _).getElem_inj_iff.mp conns)
      · intro here
        simp [here]
    rw [block, List.range'_1_concat, map_append, count_append, ← add_assoc s n 1,
      picks, picks, count_succ, ← add_assoc]
    rw [block, picks, picks] at ih
    rw [ih]
    simp [result, same, count_singleton]

def BlocksExact [DecidableEq SC] (connections : List (WeightConn SC)) : Prop :=
  ∀ k, ∀ c ∈ connections,
    (block connections (k * sumWeights connections) (sumWeights connections)).count (some c.sc) =
      c.efficientWeight.toNat

theorem BlocksExact.of_neverWraps [DecidableEq SC] (never : NeverWraps connections)
    (some_ : connections ≠ []) (distinct : (connections.map (·.sc)).Nodup)
    (positive : ∀ c ∈ connections, 1 ≤ c.efficientWeight)
    (start : current connections = weights connections) : BlocksExact connections := by
  obtain ⟨picked, found, smooth⟩ := never.smooth some_
  have exact_ (k : ℕ) (i : Fin connections.length) :
      picks picked i (k * sumWeights connections) =
        k * connections[i].efficientWeight.toNat := by
    have whole : ((k * sumWeights connections : ℕ) : ℤ) =
        k * ∑ j, entries connections.length (weights connections) j := by
      rw [sum_entries (length_weights _), sum_weights, cast_mul]
    have share := smooth.exact_of_nonneg (weights_pos positive) (fun i => by rw [after, start])
      (fun t i => current_nonneg i) whole i
    rw [entries_of_getElem? (x := (connections[i].efficientWeight.toNat : ℤ)) (by simp [weights])]
      at share
    exact_mod_cast share
  intro k c inside
  obtain ⟨i, rfl⟩ := mem_iff_get.mp inside
  have counts := count_block distinct found i (k * sumWeights connections) (sumWeights connections)
  rw [← succ_mul, exact_, exact_, succ_mul] at counts
  exact add_left_cancel counts

theorem built_eq {readySCs : List (SC × UInt32)} (built : build readySCs = some connections) :
    connections ≠ [] ∧ connections = readySCs.map fun c => newWeightConn c.1 c.2 := by
  rw [build] at built
  split at built
  · cases built
  · cases built
    refine ⟨?_, rfl⟩
    rw [← length_pos_iff, List.length_map]
    omega

/-- A balancer that has just been built picks exactly in blocks and never wraps around exactly
if it has at most two connections. -/
theorem blocks_exact_iff [DecidableEq SC] {readySCs : List (SC × UInt32)}
    (built : build readySCs = some connections) (distinct : (readySCs.map Prod.fst).Nodup)
    (positive : ∀ c ∈ readySCs, 1 ≤ c.2) (small : (readySCs.map (·.2.toNat)).sum < 1073741824) :
    BlocksExact connections ∧ NeverWraps connections ↔ readySCs.length ≤ 2 := by
  obtain ⟨nonempty, conns⟩ := built_eq built
  have length : connections.length = readySCs.length := by rw [conns, List.length_map]
  have start : current connections = weights connections := by
    rw [conns, current, weights, List.map_map, List.map_map]
    rfl
  have positive' : ∀ c ∈ connections, 1 ≤ c.efficientWeight := by
    rw [conns]
    intro c inside
    obtain ⟨d, present, rfl⟩ := mem_map.mp inside
    exact positive d present
  constructor
  · rintro ⟨-, never⟩
    obtain ⟨picked, -, smooth⟩ := never.smooth nonempty
    have card := smooth.card_le_two_of_nonneg (weights_pos positive')
      (fun i => by rw [after, start]) (fun t i => current_nonneg i)
    rwa [Fintype.card_fin, length] at card
  · intro two
    have never : NeverWraps connections := by
      apply NeverWraps.of_two nonempty (by rwa [length]) positive' start
      rw [conns, sumWeights, List.map_map]
      exact small
    refine ⟨BlocksExact.of_neverWraps never nonempty ?_ positive' start, never⟩
    rw [conns, List.map_map]
    exact distinct

theorem blocks_exact_iff_two :
    BlocksExact [newWeightConn 0 5, newWeightConn 1 3] ∧
      NeverWraps [newWeightConn 0 5, newWeightConn 1 3] :=
  (blocks_exact_iff (show build [(0, 5), (1, 3)] = some _ from rfl) (by decide) (by decide)
    (by decide)).mpr (by decide)

/-- Of four connections of weight one the first owes more than it has, wraps around and is
picked again and again. -/
theorem four_wrap :
    let connections := [newWeightConn 0 1, newWeightConn 1 1, newWeightConn 2 1, newWeightConn 3 1]
    block connections 0 4 = [some 0, some 0, some 0, some 0] ∧
      current (after connections 1) = [4294967294, 2, 2, 2] := by
  decide +kernel

end Soil.LoadBalance
