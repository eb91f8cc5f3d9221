import Mathlib.Data.List.Basic

/-!
# Layers around a core

A function is wrapped in layers.  A layer looks at what comes in: it answers by itself, or
it changes it, hands it to what is inside, and changes what comes back.
-/

namespace Soil

open List

structure Layer (C O : Type) where
  stop : C → Option O := fun _ => none
  enter : C → C := id
  leave : O → O := id

namespace Layer

variable {C O : Type}

def around (l : Layer C O) (next : C → O) : C → O := fun c =>
  match l.stop c with
  | some o => o
  | none => l.leave (next (l.enter c))

structure Approach (C O : Type) where
  passed : List (Layer C O) := []
  input : C
  stopped : Option O := none

def approach : List (Layer C O) → C → Approach C O
  | [], c => { input := c }
  | l :: ls, c =>
    match l.stop c with
    | some o => { input := c, stopped := some o }
    | none =>
      let rest := approach ls (l.enter c)
      { rest with passed := l :: rest.passed }

def unwind (ls : List (Layer C O)) (o : O) : O := ls.foldr leave o

theorem around_eq (ls : List (Layer C O)) (core : C → O) (c : C) : ls.foldr around core c =
      unwind (approach ls c).passed
        ((approach ls c).stopped.getD (core (approach ls c).input)) := by
  induction ls generalizing c with
  | nil => rfl
  | cons l ls ih =>
    rw [foldr_cons, around, approach]
    cases stop : l.stop c with
    | some => rfl
    | none =>
      rw [ih]
      rfl

variable {ls : List (Layer C O)} {c : C}

theorem approach_induct {P : C → Prop} (keeps : ∀ l ∈ ls, ∀ c, P c → P (l.enter c)) (start : P c) :
    P (approach ls c).input := by
  induction ls generalizing c with
  | nil => exact start
  | cons l ls ih =>
    rw [approach]
    cases l.stop c with
    | some => exact start
    | none =>
      apply ih
      · exact fun l' inside => keeps l' (mem_cons_of_mem _ inside)
      · exact keeps l mem_cons_self c start

theorem approach_stopped {o : O} (stopped : (approach ls c).stopped = some o) :
    ∃ l ∈ ls, l.stop (approach ls c).input = some o := by
  induction ls generalizing c with
  | nil => cases stopped
  | cons l ls ih =>
    rw [approach] at stopped ⊢
    cases stop : l.stop c with rw [stop] at stopped
    | some =>
      exact ⟨l, mem_cons_self, by rw [stop]; exact stopped⟩
    | none =>
      obtain ⟨l', inside, answer⟩ := ih stopped
      exact ⟨l', mem_cons_of_mem _ inside, answer⟩

theorem approach_passed (ls : List (Layer C O)) (c : C) : (approach ls c).passed ⊆ ls := by
  induction ls generalizing c with
  | nil => exact List.Subset.refl _
  | cons l ls ih =>
    rw [approach]
    cases l.stop c with
    | some => exact nil_subset _
    | none => exact cons_subset_cons l (ih _)

/-- An input that no layer stops passes the first one and is stopped by none of the rest. -/
theorem approach_cons_free {l : Layer C O} (free : (approach (l :: ls) c).stopped = none) :
    l.stop c = none ∧ (approach ls (l.enter c)).stopped = none ∧
      (approach (l :: ls) c).passed = l :: (approach ls (l.enter c)).passed ∧
      (approach (l :: ls) c).input = (approach ls (l.enter c)).input := by
  rw [approach] at free ⊢
  cases stop : l.stop c with
  | some =>
    rw [stop] at free
    cases free
  | none =>
    rw [stop] at free
    exact ⟨rfl, free, rfl, rfl⟩

theorem approach_through (free : (approach ls c).stopped = none) : (approach ls c).passed = ls := by
  induction ls generalizing c with
  | nil => rfl
  | cons l ls ih =>
    obtain ⟨-, rest, passed, -⟩ := approach_cons_free free
    rw [passed, ih rest]

theorem unwind_induct {Q : O → Prop}
    (keeps : ∀ l ∈ ls, ∀ o, Q o → Q (l.leave o)) {o : O} (start : Q o) : Q (unwind ls o) := by
  induction ls with
  | nil => exact start
  | cons l ls ih =>
    apply keeps l mem_cons_self
    exact ih fun l' inside => keeps l' (mem_cons_of_mem _ inside)

end Layer

end Soil
