import Mathlib.Algebra.Order.BigOperators.Group.List
import Mathlib.Algebra.Order.Ring.Nat
import Mathlib.Data.List.Count

/-!
# Labelled transition systems

Concurrent components are modelled as systems whose steps are chosen by labels: a
label names the goroutine that moves and what its environment does.  `Run ok` are
the runs all of whose steps meet `ok`, so that an assumption about the environment
is a condition on single steps.
-/

namespace Soil

open List

structure System (S L : Type) where
  init : S → Prop
  step : S → L → Option S

namespace System

variable {S L : Type}

def Any : S → L → Prop := fun _ _ => True

instance (s : S) (l : L) : Decidable (Any s l) := .isTrue trivial

inductive Run (sys : System S L) (ok : S → L → Prop) : S → S → Prop
  | refl (s : S) : Run sys ok s s
  | tail {s s' s'' : S} {l : L} :
      Run sys ok s s' → ok s' l → sys.step s' l = some s'' → Run sys ok s s''

def Reachable (sys : System S L) (ok : S → L → Prop) (s : S) : Prop :=
  ∃ s₀, sys.init s₀ ∧ sys.Run ok s₀ s

variable {sys : System S L} {ok : S → L → Prop} {s s' s'' : S} {l : L}

theorem Run.trans (first : sys.Run ok s s') (second : sys.Run ok s' s'') : sys.Run ok s s'' := by
  induction second with
  | refl => exact first
  | tail _ meets step ih => exact ih.tail meets step

theorem Reachable.run (reachable : sys.Reachable ok s) (run : sys.Run ok s s') :
    sys.Reachable ok s' := by
  obtain ⟨s₀, start, before⟩ := reachable
  exact ⟨s₀, start, before.trans run⟩

variable {I : S → Prop}

theorem Run.keeps (keeps : ∀ s l s', I s → ok s l → sys.step s l = some s' → I s')
    (run : sys.Run ok s s') (holds : I s) : I s' := by
  induction run with
  | refl => exact holds
  | tail _ meets step ih => exact keeps _ _ _ ih meets step

theorem Reachable.induct (start : ∀ s, sys.init s → I s)
    (keeps : ∀ s l s', I s → ok s l → sys.step s l = some s' → I s')
    (reachable : sys.Reachable ok s) : I s := by
  obtain ⟨s₀, initial, run⟩ := reachable
  exact run.keeps keeps (start s₀ initial)

/-- A projection that moves by `R` or stays turns a run into a chain of `R`. -/
theorem Run.simulate {T : Type} {R : T → T → Prop} {f : S → T}
    (keeps : ∀ s l s', I s → ok s l → sys.step s l = some s' → I s')
    (moves : ∀ s l s', I s → ok s l → sys.step s l = some s' → f s' = f s ∨ R (f s) (f s'))
    (run : sys.Run ok s s') (holds : I s) : Relation.ReflTransGen R (f s) (f s') := by
  induction run with
  | refl => exact .refl
  | tail before meets step ih =>
    have invariant := before.keeps keeps holds
    rcases moves _ _ _ invariant meets step with same | moved
    · rw [same]
      exact ih
    · exact ih.tail moved

def exec (sys : System S L) (ok : S → L → Prop) [∀ s l, Decidable (ok s l)] :
    S → List L → Option S
  | s, [] => some s
  | s, l :: ls => if ok s l then (sys.step s l).bind fun s' => sys.exec ok s' ls else none

variable {ls : List L}

theorem run_of_exec [∀ s l, Decidable (ok s l)] (run : sys.exec ok s ls = some s') :
    sys.Run ok s s' := by
  induction ls generalizing s with
  | nil =>
    cases run
    exact .refl _
  | cons l ls ih =>
    rw [exec] at run
    split at run
    · obtain ⟨next, step, rest⟩ := Option.bind_eq_some_iff.mp run
      exact ((Run.refl s).tail ‹_› step).trans (ih rest)
    · cases run

/-- Executing labels either meets `ok` throughout or has a first step that does not. -/
theorem exec_or_violates (ok : S → L → Prop) [∀ s l, Decidable (ok s l)]
    (run : sys.exec Any s ls = some s') : sys.exec ok s ls = some s' ∨
      ∃ mid l next, sys.Run Any s mid ∧ ¬ ok mid l ∧ sys.step mid l = some next ∧
        sys.Run Any next s' := by
  induction ls generalizing s with
  | nil => exact .inl run
  | cons l ls ih =>
    rw [exec, if_pos (show Any s l from trivial)] at run
    obtain ⟨next, step, rest⟩ := Option.bind_eq_some_iff.mp run
    by_cases meets : ok s l
    · rcases ih rest with done | ⟨mid, l', next', before, fails, step', after⟩
      · left
        rw [exec, if_pos meets, step]
        exact done
      · exact .inr ⟨mid, l', next', ((Run.refl s).tail trivial step).trans before, fails, step',
          after⟩
    · exact .inr ⟨s, l, next, .refl s, meets, step, run_of_exec rest⟩

/-- What a step leaves in place exactly if it meets `ok`, a run leaves in place exactly if all
its steps do. -/
theorem exec_iff [∀ s l, Decidable (ok s l)]
    (step_iff : ∀ s l s', sys.step s l = some s' → (I s' ↔ I s ∧ ok s l))
    (run : sys.exec Any s ls = some s') : I s' ↔ I s ∧ sys.exec ok s ls = some s' := by
  induction ls generalizing s with
  | nil =>
    cases run
    simp [exec]
  | cons l ls ih =>
    rw [exec, if_pos (show Any s l from trivial)] at run
    obtain ⟨next, step, rest⟩ := Option.bind_eq_some_iff.mp run
    rw [ih rest, step_iff s l next step, exec, step]
    by_cases meets : ok s l <;> simp [meets]

def Along (sys : System S L) (P : S → L → S → Prop) : S → List L → Prop
  | _, [] => True
  | s, l :: ls =>
    match sys.step s l with
    | none => True
    | some s' => P s l s' ∧ sys.Along P s' ls

variable {P Q : S → L → S → Prop}

theorem along_iff (reachable : sys.Reachable Any s)
    (agree : ∀ s l s', sys.Reachable Any s → sys.step s l = some s' → (P s l s' ↔ Q s l s'))
    (ls : List L) : sys.Along P s ls ↔ sys.Along Q s ls := by
  induction ls generalizing s with
  | nil => exact Iff.rfl
  | cons l ls ih =>
    cases step : sys.step s l with
    | none => simp [Along, step]
    | some s' =>
      have next := reachable.run ((Run.refl s).tail trivial step)
      simp only [Along, step]
      exact and_congr (agree s l s' reachable step) (ih next)

theorem Along.keeps
    (all : sys.Along P s ls) (keeps : ∀ s l s', I s → sys.step s l = some s' → P s l s' → I s')
    (holds : I s) (run : sys.exec Any s ls = some s') : I s' := by
  induction ls generalizing s with
  | nil =>
    cases run
    exact holds
  | cons l ls ih =>
    rw [exec, if_pos (show Any s l from trivial)] at run
    obtain ⟨next, step, rest⟩ := Option.bind_eq_some_iff.mp run
    rw [Along, step] at all
    exact ih all.2 (keeps s l next holds step all.1) rest

theorem along_of_forall (all : ∀ s l s', sys.step s l = some s' → P s l s')
    (s : S) (ls : List L) : sys.Along P s ls := by
  induction ls generalizing s with
  | nil => trivial
  | cons l ls ih =>
    cases step : sys.step s l with
    | none => simp [Along, step]
    | some s' =>
      simp only [Along, step]
      exact ⟨all s l s' step, ih s'⟩

theorem Along.drop {more : List L} (all : sys.Along P s (ls ++ more))
    (run : sys.exec Any s ls = some s') : sys.Along P s' more := by
  induction ls generalizing s with
  | nil =>
    cases run
    exact all
  | cons l ls ih =>
    rw [exec, if_pos (show Any s l from trivial)] at run
    obtain ⟨next, step, rest⟩ := Option.bind_eq_some_iff.mp run
    rw [cons_append, Along, step] at all
    exact ih all.2 rest

/-- Steps of `P` are steps of `Q` as long as an invariant holds that they keep. -/
theorem Along.mono (all : sys.Along P s ls)
    (keeps : ∀ s l s', I s → sys.step s l = some s' → P s l s' → Q s l s' ∧ I s')
    (holds : I s) : sys.Along Q s ls := by
  induction ls generalizing s with
  | nil => trivial
  | cons l ls ih =>
    cases step : sys.step s l with
    | none => simp [Along, step]
    | some s' =>
      simp only [Along, step] at all ⊢
      obtain ⟨here, next⟩ := keeps s l s' holds step all.1
      exact ⟨here, ih all.2 next⟩

instance decidableAlong {P : S → L → S → Prop} [∀ s l s', Decidable (P s l s')] :
    (s : S) → (ls : List L) → Decidable (sys.Along P s ls)
  | _, [] => .isTrue trivial
  | s, l :: ls =>
    match step : sys.step s l with
    | none => .isTrue (by simp only [Along, step])
    | some s' =>
      have := decidableAlong (P := P) s' ls
      decidable_of_iff (P s l s' ∧ sys.Along P s' ls) (by simp only [Along, step])

theorem exists_reachable [∀ s l, Decidable (ok s l)] {P : S → Prop} [DecidablePred P]
    (ls : List L) (start : sys.init s) (run : (sys.exec ok s ls).any (P ·) = true) :
    ∃ s', sys.Reachable ok s' ∧ P s' := by
  cases done : sys.exec ok s ls with
  | none => simp [done] at run
  | some s' =>
    rw [done] at run
    exact ⟨s', ⟨s, start, run_of_exec done⟩, of_decide_eq_true run⟩

end System

/-! ## Sums over a list of threads

A step changes one thread; a sum over all threads changes by that thread's share. -/

section

variable {α : Type} {xs : List α} {i : Nat} {old new : α}

theorem getElem?_set_of_some (at_ : xs[i]? = some old) (j : Nat) :
    (xs.set i new)[j]? = if j = i then some new else xs[j]? := by
  obtain ⟨inside, -⟩ := List.getElem?_eq_some_iff.mp at_
  rw [List.getElem?_set]
  by_cases same : j = i
  · simp [same, inside]
  · simp [same, Ne.symm same]

variable {j : Nat} {x : α}

theorem getElem?_set_cases (at_ : (xs.set i new)[j]? = some x) :
    j = i ∧ x = new ∨ j ≠ i ∧ xs[j]? = some x := by
  rw [List.getElem?_set] at at_
  by_cases same : i = j
  · rw [if_pos same] at at_
    split at at_
    · exact .inl ⟨same.symm, (Option.some.inj at_).symm⟩
    · cases at_
  · rw [if_neg same] at at_
    exact .inr ⟨Ne.symm same, at_⟩

theorem getElem?_set_here (at_ : xs[i]? = some old) (new : α) : (xs.set i new)[i]? = some new := by
  rw [getElem?_set_of_some at_, if_pos rfl]

/-- A thread behind a new one has been added is an old one or the new one. -/
theorem getElem?_append_one (at_ : (xs ++ [new])[j]? = some x) : xs[j]? = some x ∨ x = new := by
  rw [List.getElem?_append] at at_
  split at at_
  · exact .inl at_
  · exact .inr (mem_singleton.mp (mem_of_getElem? at_))

variable {P : α → Prop}

/-- What one of the threads has, one of them still has after a thread has moved that did
not have it. -/
theorem exists_mem_set (at_ : xs[i]? = some old) (new : α)
    (found : ∃ x ∈ xs, P x) : P old ∨ ∃ x ∈ xs.set i new, P x := by
  obtain ⟨x, inside, holds⟩ := found
  obtain ⟨j, at_j⟩ := mem_iff_getElem?.mp inside
  by_cases same : j = i
  · subst same
    rw [at_j, Option.some.injEq] at at_
    exact .inl (at_ ▸ holds)
  · refine .inr ⟨x, mem_iff_getElem?.mpr ⟨j, ?_⟩, holds⟩
    rw [getElem?_set_of_some at_, if_neg same]
    exact at_j

theorem mem_set_of_some (at_ : xs[i]? = some old) (new : α) : new ∈ xs.set i new := by
  apply mem_iff_getElem?.mpr
  exact ⟨i, getElem?_set_here at_ new⟩

theorem forall_mem_set (all : ∀ x ∈ xs, P x) (moved : P new) : ∀ x ∈ xs.set i new, P x := by
  intro x inside
  rcases mem_or_eq_of_mem_set inside with old | rfl
  · exact all x old
  · exact moved

theorem forall_mem_set_iff {P : α → Prop} (at_ : xs[i]? = some old) (before : P old) :
    (∀ x ∈ xs.set i new, P x) ↔ (∀ x ∈ xs, P x) ∧ P new := by
  refine ⟨fun all => ⟨fun x inside => ?_, all new (mem_set_of_some at_ new)⟩,
    fun both => forall_mem_set both.1 both.2⟩
  rcases exists_mem_set at_ new ⟨x, inside, rfl⟩ with same | ⟨y, there, same⟩
  · exact same ▸ before
  · exact same ▸ all y there

theorem sum_map_set (f : α → Nat) (at_ : xs[i]? = some old) (new : α) :
    ((xs.set i new).map f).sum + f old = (xs.map f).sum + f new := by
  induction xs generalizing i with
  | nil => simp at at_
  | cons x xs ih =>
    cases i with
    | zero =>
      obtain rfl : x = old := by simpa using at_
      simp only [set_cons_zero, map_cons, sum_cons]
      omega
    | succ =>
      have := ih (by simpa using at_)
      simp only [set_cons_succ, map_cons, sum_cons]
      omega

variable {f : α → β} {β : Type}

theorem map_set_of_eq (at_ : xs[i]? = some old) (same : f new = f old) :
    (xs.set i new).map f = xs.map f := by
  apply ext_getElem?
  intro j
  rw [List.getElem?_map, List.getElem?_map, List.getElem?_set]
  by_cases here : i = j
  · obtain ⟨inside, rfl⟩ := List.getElem?_eq_some_iff.mp at_
    subst j
    simp [inside, same]
  · simp [here]

theorem set_self (at_ : xs[i]? = some old) : xs.set i old = xs := by
  apply ext_getElem?
  intro j
  rw [getElem?_set_of_some at_]
  by_cases here : j = i
  · rw [if_pos here, here, at_]
  · rw [if_neg here]

theorem modify_eq_set {f : α → α} (at_ : xs[i]? = some old) : xs.modify i f = xs.set i (f old) := by
  apply ext_getElem?
  intro j
  rw [List.getElem?_modify, getElem?_set_of_some at_]
  by_cases here : i = j
  · subst here
    simp [at_]
  · simp [here, Ne.symm here]

theorem map_modify_of_eq {g : α → α} (same : ∀ x, f (g x) = f x) :
    (xs.modify i g).map f = xs.map f := by
  apply ext_getElem?
  intro j
  rw [List.getElem?_map, List.getElem?_map, List.getElem?_modify]
  cases xs[j]? with
  | none => rfl
  | some => by_cases here : i = j <;> simp [here, same]

theorem le_sum_map (f : α → Nat) (at_ : xs[i]? = some old) : f old ≤ (xs.map f).sum :=
  le_sum_of_mem (mem_map_of_mem (mem_of_getElem? at_))

theorem add_le_sum_map {other : α} (f : α → Nat) (at_ : xs[i]? = some old)
    (there : xs[j]? = some other) (distinct : i ≠ j) : f old + f other ≤ (xs.map f).sum := by
  have first : (xs.map f)[i]? = some (f old) := by simp [at_]
  have second : ((xs.map f).set i 0)[j]? = some (f other) := by
    simp [getElem?_set_of_some first, Ne.symm distinct, there]
  have sum := sum_map_set id first 0
  have le := le_sum_map id second
  simp only [map_id, id] at sum le
  omega

end

end Soil
