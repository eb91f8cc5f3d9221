import Soil.System

/-!
# Components behind a mutex

Any number of goroutines share data behind one mutex.  A goroutine is either inside the
mutex, where it takes the steps of a section one by one, or outside, where it touches
only what may be touched without the mutex; taking the mutex is the step `enter`.  The
environment changes the data between any two steps.
-/

namespace Soil

open Option

structure Monitor (D Sec Out Act Env : Type) where
  enter : D → Nat → Out → Option (D × (Sec ⊕ Out))
  inside : D → Nat → Sec → D × (Sec ⊕ Out)
  outside : D → Nat → Out → Act → Option (D × Out)
  environment : D → Env → Option D

namespace Monitor

variable {D Sec Out Act Env : Type}

structure State (D Sec Out : Type) where
  data : D
  mutex : Option Nat := none
  threads : List (Sec ⊕ Out)
  deriving DecidableEq

inductive Label (Act Env : Type) where
  | lock (t : Nat)
  | go (t : Nat)
  | run (t : Nat) (act : Act)
  | environment (e : Env)
  deriving DecidableEq

def State.land (s : State D Sec Out) (t : Nat) (d : D) (next : Sec ⊕ Out) : State D Sec Out where
  data := d
  mutex := if next.isLeft then some t else none
  threads := s.threads.set t next

def step (m : Monitor D Sec Out Act Env) (s : State D Sec Out) : Label Act Env → Option (State D
    Sec Out)
  | .lock t =>
    match s.mutex, s.threads[t]? with
    | none, some (.inr pc) => (m.enter s.data t pc).map fun r => s.land t r.1 r.2
    | _, _ => none
  | .go t =>
    match s.threads[t]? with
    | some (.inl sec) => some (s.land t (m.inside s.data t sec).1 (m.inside s.data t sec).2)
    | _ => none
  | .run t act =>
    match s.threads[t]? with
    | some (.inr pc) => (m.outside s.data t pc act).map fun r =>
      { s with data := r.1, threads := s.threads.set t (.inr r.2) }
    | _ => none
  | .environment e => (m.environment s.data e).map fun d => { s with data := d }

def system (m : Monitor D Sec Out Act Env) (start : D → List Out → Prop) :
    System (State D Sec Out) (Label Act Env) where
  init s := ∃ d pcs, start d pcs ∧ s = { data := d, threads := pcs.map .inr }
  step := m.step

/-! ## What a step can do -/

inductive Step (m : Monitor D Sec Out Act Env) (s : State D Sec Out) :
    Label Act Env → State D Sec Out → Prop
  | enter {t : Nat} {pc : Out} {d : D} {next : Sec ⊕ Out} : s.mutex = none →
      s.threads[t]? = some (.inr pc) → m.enter s.data t pc = some (d, next) →
      Step m s (.lock t) (s.land t d next)
  | inside {t : Nat} {sec : Sec} {d : D} {next : Sec ⊕ Out} :
      s.threads[t]? = some (.inl sec) → m.inside s.data t sec = (d, next) →
      Step m s (.go t) (s.land t d next)
  | outside {t : Nat} {pc : Out} {act : Act} {d : D} {next : Out} :
      s.threads[t]? = some (.inr pc) → m.outside s.data t pc act = some (d, next) →
      Step m s (.run t act) { s with data := d, threads := s.threads.set t (.inr next) }
  | environment {e : Env} {d : D} : m.environment s.data e = some d →
      Step m s (.environment e) { s with data := d }

variable {m : Monitor D Sec Out Act Env} {s s' : State D Sec Out} {l : Label Act Env}
  {start : D → List Out → Prop} {ok : State D Sec Out → Label Act Env → Prop}

theorem step_cases (step : m.step s l = some s') : Step m s l s' := by
  cases l with rw [Monitor.step] at step
  | lock t =>
    split at step
    · rename_i pc free at_
      obtain ⟨r, entered, rfl⟩ := map_eq_some_iff.mp step
      exact .enter free at_ entered
    · cases step
  | go t =>
    split at step
    · rename_i sec at_
      cases step
      exact .inside at_ rfl
    · cases step
  | run t act =>
    split at step
    · rename_i pc at_
      obtain ⟨r, moved, rfl⟩ := map_eq_some_iff.mp step
      exact .outside at_ moved
    · cases step
  | environment =>
    obtain ⟨d, changed, rfl⟩ := map_eq_some_iff.mp step
    exact .environment changed

/-- Invariants, step by step; what is known of reachable states may be used. -/
theorem induct {I : State D Sec Out → Prop}
    (initial : ∀ d pcs, start d pcs → I { data := d, threads := pcs.map .inr })
    (keeps : ∀ s l s', (m.system start).Reachable ok s → I s → ok s l → Step m s l s' → I s')
    (reachable : (m.system start).Reachable ok s) : I s := by
  have both : (m.system start).Reachable ok s ∧ I s := by
    apply reachable.induct (I := fun s => (m.system start).Reachable ok s ∧ I s)
    · rintro s ⟨d, pcs, starts, rfl⟩
      exact ⟨⟨_, ⟨d, pcs, starts, rfl⟩, .refl _⟩, initial d pcs starts⟩
    · rintro s l s' ⟨there, holds⟩ meets step
      exact ⟨there.run (.tail (.refl s) meets step), keeps s l s' there holds meets (step_cases
        step)⟩
  exact both.2

/-! ## The goroutine inside -/

def Exclusive (s : State D Sec Out) : Prop :=
  ∀ t sec, s.threads[t]? = some (.inl sec) → s.mutex = some t

variable {t j : Nat} {sec : Sec} {next : Sec ⊕ Out}

theorem Exclusive.alone (exclusive : Exclusive s) (at_ : s.threads[t]? = some (.inl sec)) (j : Nat)
    (held : s.mutex = some j) : j = t := by
  rw [exclusive t sec at_, some.injEq] at held
  exact held.symm

/-- Behind a step under the mutex nobody else is inside. -/
theorem Exclusive.landed (exclusive : Exclusive s) (alone : ∀ j, s.mutex = some j → j = t)
    (there : (s.threads.set t next)[j]? = some (.inl sec)) : j = t ∧ next = .inl sec := by
  rcases getElem?_set_cases there with ⟨same, here⟩ | ⟨other, there⟩
  · exact ⟨same, here.symm⟩
  · exact absurd (alone j (exclusive j sec there)) other

theorem Exclusive.land (exclusive : Exclusive s) (d : D)
    (alone : ∀ j, s.mutex = some j → j = t) : Exclusive (s.land t d next) := by
  intro j sec there
  obtain ⟨rfl, rfl⟩ := exclusive.landed alone there
  simp [State.land]

theorem inside_of_set {pc : Out} (there : (s.threads.set t (.inr pc))[j]? = some (.inl sec)) :
    s.threads[j]? = some (.inl sec) := by
  rcases getElem?_set_cases there with ⟨-, no⟩ | ⟨-, there⟩
  · cases no
  · exact there

theorem Step.exclusive (exclusive : Exclusive s) (step : Step m s l s') : Exclusive s' := by
  cases step with
  | enter free at_ _ => exact exclusive.land _ (by simp [free])
  | inside at_ _ => exact exclusive.land _ (exclusive.alone at_)
  | outside => exact fun j sec there => exclusive j sec (inside_of_set there)
  | environment => exact exclusive

theorem exclusion (reachable : (m.system start).Reachable ok s) : Exclusive s := by
  refine induct (I := Exclusive) ?_ (fun s l s' _ holds _ step => step.exclusive holds) reachable
  intro d pcs _ t sec there
  rw [List.getElem?_map, map_eq_some_iff] at there
  obtain ⟨pc, -, no⟩ := there
  cases no

theorem sections {Q : D → Nat → Sec → Prop}
    (enter : ∀ d t pc d' sec, m.enter d t pc = some (d', .inl sec) → Q d' t sec)
    (inside : ∀ d t sec d' sec', Q d t sec → m.inside d t sec = (d', .inl sec') → Q d' t sec')
    (outside : ∀ d t pc act d' pc' j sec, m.outside d t pc act = some (d', pc') → Q d j sec →
      Q d' j sec)
    (environment : ∀ d e d' j sec, m.environment d e = some d' → Q d j sec → Q d' j sec)
    (reachable : (m.system start).Reachable ok s) :
    ∀ t sec, s.threads[t]? = some (.inl sec) → Q s.data t sec := by
  refine induct (I := fun s => ∀ t sec, s.threads[t]? = some (.inl sec) → Q s.data t sec)
    ?_ ?_ reachable
  · intro d pcs _ t sec there
    rw [List.getElem?_map, map_eq_some_iff] at there
    obtain ⟨pc, -, no⟩ := there
    cases no
  · intro s l s' there holds _ step j sec' at_j
    have exclusive := exclusion there
    cases step with
    | enter free at_ entered =>
      obtain ⟨rfl, rfl⟩ := exclusive.landed (by simp [free]) at_j
      exact enter _ _ _ _ _ entered
    | inside at_ moved =>
      obtain ⟨rfl, rfl⟩ := exclusive.landed (exclusive.alone at_) at_j
      exact inside _ _ _ _ _ (holds _ _ at_) moved
    | outside at_ moved =>
      exact outside _ _ _ _ _ _ _ _ moved (holds j sec' (inside_of_set at_j))
    | environment changed => exact environment _ _ _ _ _ changed (holds j sec' at_j)

end Monitor

end Soil
