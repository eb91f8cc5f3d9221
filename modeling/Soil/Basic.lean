import Mathlib.Data.List.AList

/-!
# Failing computations, association lists and runs

What the models below share: inverting a bind of `Except`, maps as lists of entries under
distinct keys, and runs of a function over a list of operations.
-/

namespace Soil

open List

/-! ## `Except` -/

theorem bind_eq_ok {ε α β : Type} {x : Except ε α} {f : α → Except ε β} {b : β} :
    (x >>= f) = .ok b ↔ ∃ a, x = .ok a ∧ f a = .ok b := by
  cases x with
  | error | ok => simp [bind, Except.bind]

theorem mapM_eq_ok_map {ε α β : Type} {f : α → Except ε β} {g : α → β} {xs : List α}
    (each : ∀ x ∈ xs, f x = .ok (g x)) : xs.mapM f = .ok (xs.map g) := by
  induction xs with
  | nil => rfl
  | cons x xs ih =>
    rw [forall_mem_cons] at each
    rw [mapM_cons, each.1, ih each.2]
    rfl

/-! ## Lists -/

theorem notMem_of_mem_splitOn {α : Type} [DecidableEq α] {sep : α} {s part : List α}
    (inside : part ∈ s.splitOn sep) : sep ∉ part := by
  induction s generalizing part with
  | nil =>
    obtain rfl : part = [] := by simpa using inside
    simp
  | cons first rest ih =>
    rw [splitOn_cons_eq_if_modifyHead] at inside
    split at inside
    · rcases mem_cons.mp inside with rfl | later
      · simp
      · exact ih later
    next other =>
      cases parts : rest.splitOn sep with
      | nil => simp [parts] at inside
      | cons head =>
        rw [parts, modifyHead_cons, mem_cons] at inside
        rcases inside with rfl | later
        · have plain : sep ∉ head := ih (by simp [parts])
          rw [mem_cons, not_or]
          exact ⟨fun same => other (beq_iff_eq.mpr same.symm), plain⟩
        · exact ih (by simp [parts, later])

/-! ## Association lists -/

section

variable {α β : Type} [BEq α] [LawfulBEq α] {xs ys : List (α × β)} {k : α} {v : β}

theorem mem_of_lookup (found : xs.lookup k = some v) : (k, v) ∈ xs := by
  obtain ⟨-, -, rfl, -⟩ := lookup_eq_some_iff.mp found
  simp

theorem lookup_eq_some_iff_mem (keys : (xs.map Prod.fst).Nodup) :
    xs.lookup k = some v ↔ (k, v) ∈ xs := by
  refine ⟨mem_of_lookup, fun there => ?_⟩
  obtain ⟨before, after, rfl⟩ := append_of_mem there
  refine lookup_eq_some_iff.mpr ⟨before, after, rfl, fun entry inside => ?_⟩
  rw [map_append, nodup_append] at keys
  have other := keys.2.2 entry.1 (mem_map_of_mem inside) k (by simp)
  simpa using Ne.symm other

theorem lookup_perm (same : xs.Perm ys) (keys : (xs.map Prod.fst).Nodup) :
    xs.lookup k = ys.lookup k := by
  have keys' : (ys.map Prod.fst).Nodup := (same.map Prod.fst).nodup_iff.mp keys
  apply Option.ext
  intro v
  rw [lookup_eq_some_iff_mem keys, lookup_eq_some_iff_mem keys', same.mem_iff]

end

section

variable {α : Type} [DecidableEq α] {β : α → Type} {entries : AList β} {k : α} {v : β k}

section

variable (found : entries.lookup k = some v)
include found

theorem mem_keys_of_lookup : k ∈ entries.keys := by
  rw [← AList.mem_keys, ← AList.lookup_isSome, found]
  rfl

theorem length_keys_erase_of_lookup : (entries.erase k).keys.length + 1 = entries.keys.length := by
  have inside := mem_keys_of_lookup found
  rw [AList.keys_erase, length_erase_of_mem inside]
  exact Nat.sub_add_cancel (length_pos_of_mem inside)

theorem length_keys_insert_of_lookup (new : β k) :
    (entries.insert k new).keys.length = entries.keys.length := by
  have inside := mem_keys_of_lookup found
  rw [AList.keys_insert, length_cons, length_erase_of_mem inside]
  exact Nat.sub_add_cancel (length_pos_of_mem inside)

end

theorem entries_erase_eq_filter (entries : AList β) (k : α) :
    (entries.erase k).entries = entries.entries.filter (·.1 ≠ k) := by
  obtain ⟨xs, keys⟩ := entries
  change xs.kerase k = xs.filter (·.1 ≠ k)
  induction xs with
  | nil => rfl
  | cons e xs ih =>
    rw [nodupKeys_cons] at keys
    by_cases own : k = e.1
    · have rest : xs.filter (·.1 ≠ k) = xs := filter_eq_self.mpr fun other inside => by
        have differs : other.1 ≠ e.1 := fun same => keys.1 (same ▸ mem_keys_of_mem inside)
        simpa [own] using differs
      rw [kerase_cons_eq own, filter_cons_of_neg (by simp [own]), rest]
    · rw [kerase_cons_ne own, filter_cons_of_pos (by simpa using Ne.symm own), ih keys.2]

end

/-! ## Runs -/

section

variable {σ α : Type} {step : σ → α → σ} {I Q : σ → Prop} {P K : σ → α → Prop} {s : σ}

theorem forall_step_cons_iff {P : List α → α → Prop} {first : α} {rest : List α} :
    (∀ before op, before ++ [op] <+: first :: rest → P before op) ↔
      P [] first ∧ ∀ before op, before ++ [op] <+: rest → P (first :: before) op := by
  constructor
  · intro all
    refine ⟨all [] first (by simp), fun before op inside => ?_⟩
    exact all (first :: before) op (cons_prefix_cons.mpr ⟨rfl, inside⟩)
  intro ⟨here, later⟩ before op inside
  cases before with
  | nil =>
    obtain rfl : op = first := by simpa using inside
    exact here
  | cons one before =>
    obtain ⟨rfl, onwards⟩ := cons_prefix_cons.mp inside
    exact later before op onwards

/-- Two conditions on steps that agree as long as an invariant holds, which the second keeps,
agree along every run. -/
theorem forall_step_iff (agree : ∀ s op, I s → (P s op ↔ K s op))
    (keeps : ∀ s op, I s → K s op → I (step s op)) (holds : I s) (ops : List α) :
    (∀ before op, before ++ [op] <+: ops → P (before.foldl step s) op) ↔
      ∀ before op, before ++ [op] <+: ops → K (before.foldl step s) op := by
  induction ops generalizing s with
  | nil => simp
  | cons first rest ih =>
    rw [forall_step_cons_iff, forall_step_cons_iff, foldl_nil, agree s first holds]
    exact and_congr_right fun meets => ih (keeps s first holds meets)

theorem forall_prefix_iff (holds : Q s) {ops : List α} :
    (∀ before, before <+: ops → Q (before.foldl step s)) ↔
      ∀ before op, before ++ [op] <+: ops → Q (step (before.foldl step s) op) := by
  constructor
  · intro all before op inside
    have reached : Q ((before ++ [op]).foldl step s) := all _ inside
    rwa [foldl_concat] at reached
  · intro all before inside
    rcases eq_nil_or_concat' before with rfl | ⟨before, op, rfl⟩
    · exact holds
    · rw [foldl_concat]
      exact all before op inside

end

end Soil
