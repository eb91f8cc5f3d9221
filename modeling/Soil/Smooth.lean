import Mathlib.Algebra.BigOperators.Fin
import Mathlib.Algebra.Order.BigOperators.Group.Finset
import Mathlib.Data.Nat.Count
import Mathlib.Tactic.Linarith
import Mathlib.Tactic.Ring

/-!
# Smooth weighted round robin

In every round each candidate gains its weight, and one of those that then have most is
picked and pays the sum of all weights.  Ties may be broken in any way.
-/

namespace Soil

open Finset

section

variable {ι : Type} [Fintype ι] [DecidableEq ι] {weight have_ have' : ι → ℤ} {picked : ι}

structure Round (weight have_ : ι → ℤ) (picked : ι) (have' : ι → ℤ) : Prop where
  step : ∀ i, have' i = have_ i + weight i - if picked = i then ∑ j, weight j else 0
  most : ∀ i, have_ i + weight i ≤ have_ picked + weight picked

namespace Round

section

variable (round : Round weight have_ picked have')
include round

theorem sum_eq : ∑ i, have' i = ∑ i, have_ i := by
  simp only [round.step, sum_sub_distrib, sum_add_distrib, sum_ite_eq, mem_univ, if_true]
  ring

theorem sum_le_card_mul :
    ∑ i, have_ i + ∑ i, weight i ≤ Fintype.card ι * (have_ picked + weight picked) := by
  rw [← sum_add_distrib, ← nsmul_eq_mul]
  exact sum_le_card_nsmul univ _ _ fun i _ => round.most i

theorem neg_sum_lt (positive : ∀ i, 0 < weight i)
    (nothing : ∑ i, have_ i = 0) (owes : ∀ i, - ∑ j, weight j < have_ i) (i : ι) :
    - ∑ j, weight j < have' i := by
  have total : 0 < ∑ j, weight j := sum_pos (fun j _ => positive j) ⟨i, mem_univ i⟩
  rw [round.step]
  split
  · rename_i here
    have share := round.sum_le_card_mul
    rw [nothing, here] at share
    have some_ : 0 < have_ i + weight i := by
      by_contra none
      have := mul_nonpos_of_nonneg_of_nonpos (Int.natCast_nonneg (Fintype.card ι)) (not_lt.mp none)
      omega
    omega
  · have gain := positive i
    have := owes i
    omega

/-- Of two candidates that have the sum of all weights, the one that is picked can pay. -/
theorem nonneg (two : Fintype.card ι ≤ 2)
    (positive : ∀ i, 0 < weight i) (all : ∑ i, have_ i = ∑ i, weight i)
    (owns : ∀ i, 0 ≤ have_ i) (i : ι) : 0 ≤ have' i := by
  have gain := positive i
  have own := owns i
  rw [round.step]
  split
  · rename_i here
    have share := round.sum_le_card_mul
    rw [all, here] at share
    have twice : (Fintype.card ι : ℤ) * (have_ i + weight i) ≤ 2 * (have_ i + weight i) := by
      apply mul_le_mul_of_nonneg_right
      · exact_mod_cast two
      · omega
    omega
  · omega

end

end Round

end

/-! ## Rounds of lists -/

section

variable {n p : ℕ} {weights current xs : List ℤ}

def entries (n : ℕ) (xs : List ℤ) (i : Fin n) : ℤ := xs.getD i 0

theorem entries_of_getElem? {i : Fin n} {x : ℤ} (at_ : xs[i.1]? = some x) : entries n xs i = x := by
  rw [entries, List.getD_eq_getElem?_getD, at_]
  rfl

theorem sum_entries (length : xs.length = n) : ∑ i, entries n xs i = xs.sum := by
  subst length
  rw [← Fin.sum_univ_getElem]
  exact sum_congr rfl fun i _ => entries_of_getElem? (List.getElem?_eq_getElem i.2)

theorem Round.of_lists (length : weights.length = n) (length' : current.length = n) (small : p < n)
    (most : ∀ x ∈ List.zipWith (· + ·) current weights,
      x ≤ entries n (List.zipWith (· + ·) current weights) ⟨p, small⟩) :
    Round (entries n weights) (entries n current) ⟨p, small⟩
      (entries n ((List.zipWith (· + ·) current weights).modify p (· - weights.sum))) := by
  have gained (i : Fin n) : (List.zipWith (· + ·) current weights)[i.1]? =
      some (entries n current i + entries n weights i) := by
    have here : i.1 < current.length := length' ▸ i.2
    have here' : i.1 < weights.length := length ▸ i.2
    rw [List.getElem?_zipWith_eq_some]
    refine ⟨_, _, List.getElem?_eq_getElem here, List.getElem?_eq_getElem here', ?_⟩
    rw [entries_of_getElem? (List.getElem?_eq_getElem here),
      entries_of_getElem? (List.getElem?_eq_getElem here')]
  refine ⟨?_, ?_⟩
  · intro i
    apply entries_of_getElem?
    rw [List.getElem?_modify, gained, sum_entries length]
    by_cases here : p = i.1 <;> simp [here, Fin.ext_iff]
  · intro i
    have bound := most _ (List.mem_of_getElem? (gained i))
    rwa [entries_of_getElem? (gained ⟨p, small⟩)] at bound

end

def Smooth {ι : Type} [Fintype ι] [DecidableEq ι] (weight : ι → ℤ) (current : ℕ → ι → ℤ)
    (pick : ℕ → ι) : Prop :=
  ∀ t, Round weight (current t) (pick t) (current (t + 1))

namespace Smooth

variable {ι : Type} [Fintype ι] [DecidableEq ι] {weight : ι → ℤ} {current : ℕ → ι → ℤ}
  {pick : ℕ → ι}

abbrev picks (pick : ℕ → ι) (i : ι) (t : ℕ) : ℕ := Nat.count (fun s => pick s = i) t

theorem sum_picks (pick : ℕ → ι) (t : ℕ) : ∑ i, picks pick i t = t := by
  induction t with
  | zero => simp
  | succ t ih =>
    have one : ∑ i, (if pick t = i then 1 else 0) = 1 := by
      rw [sum_ite_eq, if_pos (mem_univ _)]
    simp only [picks, Nat.count_succ, sum_add_distrib, one]
    exact congrArg (· + 1) ih

theorem current_eq (smooth : Smooth weight current pick) (t : ℕ) (i : ι) :
    current t i = current 0 i + t * weight i - (∑ j, weight j) * picks pick i t := by
  induction t with
  | zero => simp
  | succ t ih =>
    rw [(smooth t).step, ih]
    simp only [picks, Nat.count_succ]
    split <;> push_cast <;> ring

theorem sum_current (smooth : Smooth weight current pick) (t : ℕ) :
    ∑ i, current t i = ∑ i, current 0 i := by
  induction t with
  | zero => rfl
  | succ t ih => rw [(smooth t).sum_eq, ih]

/-- Everyone is picked at most as often as its weight says, so exactly as often. -/
theorem picks_eq_of_le {k t : ℕ} (whole : (t : ℤ) = k * ∑ j, weight j)
    (most : ∀ i, (picks pick i t : ℤ) ≤ k * weight i) (i : ι) :
    (picks pick i t : ℤ) = k * weight i := by
  have sums : ∑ i, (picks pick i t : ℤ) = ∑ i, k * weight i := by
    rw [← Nat.cast_sum, sum_picks, whole, mul_sum]
  exact (sum_eq_sum_iff_of_le fun i _ => most i).mp sums i (mem_univ i)

section

variable (smooth : Smooth weight current pick) (positive : ∀ i, 0 < weight i)
  (zero : ∀ i, current 0 i = 0)

include smooth positive zero

theorem neg_sum_lt (t : ℕ) (i : ι) : - ∑ j, weight j < current t i := by
  induction t generalizing i with
  | zero =>
    have total : 0 < ∑ j, weight j := sum_pos (fun j _ => positive j) ⟨i, mem_univ i⟩
    rw [zero]
    omega
  | succ t ih =>
    apply (smooth t).neg_sum_lt positive _ ih
    rw [smooth.sum_current]
    exact sum_eq_zero fun i _ => zero i

theorem exact {k t : ℕ} (whole : (t : ℤ) = k * ∑ j, weight j) (i : ι) :
    (picks pick i t : ℤ) = k * weight i ∧ current t i = 0 := by
  have equal : (picks pick i t : ℤ) = k * weight i := by
    apply picks_eq_of_le whole
    intro i
    have total : 0 < ∑ j, weight j := sum_pos (fun j _ => positive j) ⟨i, mem_univ i⟩
    have low := smooth.neg_sum_lt positive zero t i
    rw [smooth.current_eq, zero, zero_add, whole] at low
    -- a multiple of the sum that is more than its negative is not negative
    have above : 0 < (∑ j, weight j) * (k * weight i - picks pick i t + 1) := by linarith
    have := (mul_pos_iff_of_pos_left total).mp above
    linarith
  refine ⟨equal, ?_⟩
  rw [smooth.current_eq, zero, equal, whole]
  ring

end

section

variable (smooth : Smooth weight current pick) (positive : ∀ i, 0 < weight i)
  (start : ∀ i, current 0 i = weight i)

include smooth positive start

theorem exact_of_nonneg (nonneg : ∀ t i, 0 ≤ current t i) {k t : ℕ}
    (whole : (t : ℤ) = k * ∑ j, weight j) (i : ι) : (picks pick i t : ℤ) = k * weight i := by
  apply picks_eq_of_le whole
  intro i
  have gain := positive i
  have least : weight i ≤ ∑ j, weight j :=
    single_le_sum (fun j _ => le_of_lt (positive j)) (mem_univ i)
  rcases least.lt_or_eq with less | alone
  · have low := nonneg t i
    rw [smooth.current_eq, start, whole] at low
    have above : 0 < (∑ j, weight j) * (k * weight i - picks pick i t + 1) := by linarith
    have := (mul_pos_iff_of_pos_left (by omega)).mp above
    linarith
  · -- a candidate with all the weight is picked in at most all rounds
    rw [alone, ← whole]
    exact_mod_cast Nat.count_le (fun s => pick s = i)

theorem card_le_two_of_nonneg (nonneg : ∀ t i, 0 ≤ current t i) : Fintype.card ι ≤ 2 := by
  have least : (Fintype.card ι : ℤ) ≤ ∑ j, weight j := by
    rw [← card_univ, ← mul_one ((univ : Finset ι).card : ℤ), ← nsmul_eq_mul]
    exact card_nsmul_le_sum univ weight 1 fun i _ => positive i
  by_contra more
  obtain ⟨n, total⟩ : ∃ n : ℕ, ∑ j, weight j = n + 2 :=
    ⟨(∑ j, weight j).toNat - 2, by omega⟩
  have due (i : ι) : 1 ≤ weight i - picks pick i n := by
    have low := nonneg n i
    rw [smooth.current_eq, start, total] at low
    have gain := positive i
    have above : 0 < ((n : ℤ) + 2) * (weight i - picks pick i n) := by linarith
    exact (mul_pos_iff_of_pos_left (by omega)).mp above
  have sums : ∑ i, (weight i - picks pick i n) = 2 := by
    rw [sum_sub_distrib, ← Nat.cast_sum, sum_picks, total]
    ring
  have := card_nsmul_le_sum univ _ 1 fun i _ => due i
  rw [sums, nsmul_eq_mul, mul_one, card_univ] at this
  omega

end

end Smooth

end Soil
