import Soil.System

/-!
# Frames written to a shared connection

Several writers put whole frames on one connection.  A mutex is held while a frame
is being written, the connection may accept it piece by piece, and a write may fail
after some of its pieces.  A frame that failed part-way leaves the connection `torn`.
-/

namespace Soil

structure Writing (α : Type) where
  owner : Nat
  done : List α
  rest : List α
  deriving DecidableEq, Repr

structure Wire (α : Type) where
  out : List α := []
  cur : Option (Writing α) := none
  torn : Bool := false
  closed : Bool := false
  deriving DecidableEq, Repr

namespace Wire

variable {α : Type}

/-! ## Operations -/

def start (w : Wire α) (t : Nat) (bs : List α) : Option (Wire α) :=
  match w.cur with
  | none => some { w with cur := some ⟨t, [], bs⟩ }
  | some _ => none

def accept (w : Wire α) (t n : Nat) : Option (Wire α) :=
  match w.cur with
  | none => none
  | some c =>
    if c.owner = t ∧ w.closed = false ∧ 0 < n ∧ n ≤ c.rest.length then
      some { w with
        out := w.out ++ c.rest.take n
        cur := some ⟨t, c.done ++ c.rest.take n, c.rest.drop n⟩ }
    else none

def finish (w : Wire α) (t : Nat) : Option (Wire α) :=
  match w.cur with
  | none => none
  | some c => if c.owner = t ∧ c.rest = [] then some { w with cur := none } else none

def fail [DecidableEq α] (w : Wire α) (t : Nat) : Option (Wire α) :=
  match w.cur with
  | none => none
  | some c =>
    if c.owner = t ∧ c.rest ≠ [] then
      some { w with cur := none, torn := w.torn || c.done ≠ [] }
    else none

def close (w : Wire α) : Wire α := { w with closed := true }

def MayStart (w : Wire α) : Prop := w.torn = true → w.closed = true

instance (w : Wire α) : Decidable w.MayStart :=
  inferInstanceAs (Decidable (w.torn = true → w.closed = true))

/-! ## What a step can do -/

inductive Step (isFrame : List α → Prop) (w : Wire α) : Wire α → Prop
  | start {t : Nat} {bs : List α} : w.MayStart → isFrame bs → w.cur = none →
      Step isFrame w { w with cur := some ⟨t, [], bs⟩ }
  | accept {t : Nat} {done more rest : List α} : w.closed = false →
      w.cur = some ⟨t, done, more ++ rest⟩ →
      Step isFrame w { w with out := w.out ++ more, cur := some ⟨t, done ++ more, rest⟩ }
  | finish {t : Nat} {done : List α} : w.cur = some ⟨t, done, []⟩ →
      Step isFrame w { w with cur := none }
  | fail {t : Nat} {done rest : List α} (torn : Bool) : w.cur = some ⟨t, done, rest⟩ →
      rest ≠ [] → (torn = true ↔ w.torn = true ∨ done ≠ []) →
      Step isFrame w { w with cur := none, torn }
  | close : Step isFrame w w.close

variable {isFrame : List α → Prop} {w w' : Wire α} {t n : Nat} {bs : List α}

theorem start_inv (run : w.start t bs = some w') :
    w.cur = none ∧ w' = { w with cur := some ⟨t, [], bs⟩ } := by
  unfold start at run
  split at run
  · cases run
    exact ⟨‹_›, rfl⟩
  · cases run

theorem accept_inv (run : w.accept t n = some w') : ∃ done more rest,
    w.cur = some ⟨t, done, more ++ rest⟩ ∧ w.closed = false ∧
      w' = { w with out := w.out ++ more, cur := some ⟨t, done ++ more, rest⟩ } := by
  unfold accept at run
  split at run
  · cases run
  rename_i c current
  split at run
  · rename_i enabled
    cases run
    refine ⟨c.done, c.rest.take n, c.rest.drop n, ?_, enabled.2.1, rfl⟩
    rw [current, List.take_append_drop, ← enabled.1]
  · cases run

theorem finish_inv (run : w.finish t = some w') : ∃ done,
    w.cur = some ⟨t, done, []⟩ ∧ w' = { w with cur := none } := by
  unfold finish at run
  split at run
  · cases run
  · rename_i c current
    split at run
    · rename_i enabled
      cases run
      refine ⟨c.done, ?_, rfl⟩
      rw [current, ← enabled.1, ← enabled.2]
    · cases run

theorem fail_inv [DecidableEq α] (run : w.fail t = some w') : ∃ c torn,
    w.cur = some c ∧ c.rest ≠ [] ∧ (torn = true ↔ w.torn = true ∨ c.done ≠ []) ∧
      w' = { w with cur := none, torn } := by
  unfold fail at run
  split at run
  · cases run
  · rename_i c current
    split at run
    · rename_i enabled
      cases run
      exact ⟨c, _, current, enabled.2, by simp, rfl⟩
    · cases run

theorem step_of_start (may : w.MayStart) (frame : isFrame bs) (run : w.start t bs = some w') :
    Step isFrame w w' := by
  obtain ⟨free, rfl⟩ := start_inv run
  exact .start may frame free

theorem step_of_accept (run : w.accept t n = some w') : Step isFrame w w' := by
  obtain ⟨done, more, rest, current, opened, rfl⟩ := accept_inv run
  exact .accept opened current

theorem step_of_finish (run : w.finish t = some w') : Step isFrame w w' := by
  obtain ⟨done, current, rfl⟩ := finish_inv run
  exact .finish current

theorem step_of_fail [DecidableEq α] (run : w.fail t = some w') : Step isFrame w w' := by
  obtain ⟨c, torn, current, left, tears, rfl⟩ := fail_inv run
  exact .fail torn current left tears

/-! ## Soundness -/

/-- The connection carries whole frames, followed by the accepted part of the frame being
written or, once torn, by an incomplete frame behind which a writer can only have started
on a closed connection. -/
inductive Sound (isFrame : List α → Prop) (w : Wire α) : Prop
  | idle {fs : List (List α)} : (∀ f ∈ fs, isFrame f) → w.out = fs.flatten → w.cur = none →
      w.torn = false → Sound isFrame w
  | writing {fs : List (List α)} {c : Writing α} : (∀ f ∈ fs, isFrame f) →
      w.out = fs.flatten ++ c.done → w.cur = some c → isFrame (c.done ++ c.rest) →
      w.torn = false → Sound isFrame w
  | torn {fs : List (List α)} {tail rest : List α} : (∀ f ∈ fs, isFrame f) →
      w.out = fs.flatten ++ tail → tail ≠ [] → rest ≠ [] → isFrame (tail ++ rest) →
      w.torn = true → (∀ c ∈ w.cur, w.closed = true ∧ c.done = []) → Sound isFrame w

section

variable (sound : Sound isFrame w)
include sound

theorem Sound.step (step : Step isFrame w w') : Sound isFrame w' := by
  cases sound with
  | idle frames out free whole =>
    cases step with
    | start _ frame =>
      exact .writing frames (by simpa using out) rfl (by simpa using frame) whole
    | accept _ current | finish current | fail _ current => rw [free] at current; cases current
    | close => exact .idle frames out free whole
  | @writing fs c frames out current frame whole =>
    cases step with
    | start _ _ free => rw [free] at current; cases current
    | accept _ current' =>
      rw [current'] at current
      cases current
      refine .writing frames (by simp [out]) rfl ?_ whole
      simpa using frame
    | finish current' =>
      rw [current'] at current
      cases current
      refine @Sound.idle _ _ _ (fs ++ [_]) (fun f mem => ?_) (by simpa using out) rfl whole
      rcases List.mem_append.mp mem with mem | mem
      · exact frames f mem
      · rw [List.mem_singleton.mp mem]
        simpa using frame
    | @fail t done rest torn current' left tears =>
      rw [current'] at current
      cases current
      by_cases empty : done = []
      · have whole' : torn = false := by simpa [whole, empty] using tears
        exact .idle frames (by simpa [empty] using out) rfl whole'
      · exact .torn frames out empty left frame (tears.mpr (.inr empty)) (by simp)
    | close => exact .writing frames out current frame whole
  | torn frames out begun left frame torn blocked =>
    cases step with
    | start may _ _ =>
      refine .torn frames out begun left frame torn fun c mem => ?_
      cases mem
      exact ⟨may torn, rfl⟩
    | accept opened current =>
      have shut := (blocked _ current).1
      rw [opened] at shut
      cases shut
    | finish => exact .torn frames out begun left frame torn (by simp)
    | fail _ _ _ tears =>
      exact .torn frames out begun left frame (tears.mpr (.inl torn)) (by simp)
    | close =>
      exact .torn frames out begun left frame torn fun c mem => ⟨rfl, (blocked c mem).2⟩

theorem Sound.frozen_step (torn : w.torn = true)
    (step : Step isFrame w w') : w'.out = w.out ∧ w'.torn = true := by
  cases step with
  | accept opened current =>
    cases sound with
    | idle _ _ _ whole | writing _ _ _ _ whole => rw [torn] at whole; cases whole
    | torn _ _ _ _ _ _ blocked =>
      have shut := (blocked _ current).1
      rw [opened] at shut
      cases shut
  | fail _ _ _ tears => exact ⟨rfl, tears.mpr (.inl torn)⟩
  | start | finish | close => exact ⟨rfl, torn⟩

theorem Sound.steps (steps : Relation.ReflTransGen (Step isFrame) w w') : Sound isFrame w' := by
  induction steps with
  | refl => exact sound
  | tail _ step ih => exact ih.step step

theorem Sound.frozen (torn : w.torn = true)
    (steps : Relation.ReflTransGen (Step isFrame) w w') : w'.out = w.out := by
  suffices w'.out = w.out ∧ w'.torn = true from this.1
  induction steps with
  | refl => exact ⟨rfl, torn⟩
  | tail before step ih =>
    obtain ⟨same, torn'⟩ := (sound.steps before).frozen_step ih.2 step
    exact ⟨same.trans ih.1, torn'⟩

theorem Sound.framed :
    ∃ (fs : List (List α)) (tail : List α), (∀ f ∈ fs, isFrame f) ∧ w.out = fs.flatten ++ tail ∧
      (tail = [] ∨ ∃ rest, rest ≠ [] ∧ isFrame (tail ++ rest) ∧
        ((∃ t, w.cur = some ⟨t, tail, rest⟩) ∨ w.torn = true)) := by
  cases sound with
  | @idle fs frames out => exact ⟨fs, [], frames, by simpa using out, .inl rfl⟩
  | @writing fs c frames out current frame _ =>
    by_cases complete : c.rest = []
    · refine ⟨fs ++ [c.done], [], fun f mem => ?_, by simpa using out, .inl rfl⟩
      rcases List.mem_append.mp mem with mem | mem
      · exact frames f mem
      · rw [List.mem_singleton.mp mem]
        simpa [complete] using frame
    · exact ⟨fs, c.done, frames, out, .inr ⟨c.rest, complete, frame, .inl ⟨c.owner, current⟩⟩⟩
  | @torn fs tail rest frames out _ left frame torn =>
    exact ⟨fs, tail, frames, out, .inr ⟨rest, left, frame, .inr torn⟩⟩

end

end Wire

/-! ## Systems that write to a connection -/

section

variable {S L α : Type}

/-- The connection of state `s` carries whole frames, followed by at most one incomplete
frame, which is being written or behind which no run writes anything. -/
def WellFramed (sys : System S L) (ok : S → L → Prop) (wire : S → Wire α)
    (isFrame : List α → Prop) (s : S) : Prop :=
  ∃ (fs : List (List α)) (tail : List α),
    (∀ f ∈ fs, isFrame f) ∧ (wire s).out = fs.flatten ++ tail ∧
      (tail = [] ∨ ∃ rest, rest ≠ [] ∧ isFrame (tail ++ rest) ∧
        ((∃ t, (wire s).cur = some ⟨t, tail, rest⟩) ∨
          ∀ s', sys.Run ok s s' → (wire s').out = (wire s).out))

variable {sys : System S L} {ok : S → L → Prop} {wire : S → Wire α} {isFrame : List α → Prop}

theorem wellFramed_of_steps (start : ∀ s, sys.init s → (wire s).Sound isFrame)
    (moves : ∀ s l s', ok s l → sys.step s l = some s' →
      wire s' = wire s ∨ Wire.Step isFrame (wire s) (wire s'))
    {s : S} (reachable : sys.Reachable ok s) : WellFramed sys ok wire isFrame s := by
  have steps {s s' : S} (run : sys.Run ok s s') :
      Relation.ReflTransGen (Wire.Step isFrame) (wire s) (wire s') :=
    run.simulate (I := fun _ => True) (fun _ _ _ _ _ _ => trivial)
      (fun s l s' _ meets step => moves s l s' meets step) trivial
  obtain ⟨s₀, initial, run⟩ := reachable
  have sound := (start s₀ initial).steps (steps run)
  obtain ⟨fs, tail, frames, out, complete | ⟨rest, left, frame, current⟩⟩ := sound.framed
  · exact ⟨fs, tail, frames, out, .inl complete⟩
  · refine ⟨fs, tail, frames, out, .inr ⟨rest, left, frame, current.imp id fun torn => ?_⟩⟩
    intro s' run'
    exact sound.frozen torn (steps run')

end

end Soil
