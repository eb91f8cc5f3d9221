import Soil.System

/-!
# Calls of the client

`Client.invoke` of `client.go`, called any number of times.  Every call has a context, a channel
with room for one element and a worker that runs `doInvoke`, assigns its result to variables the
caller reads, and sends; the caller waits for the channel or the context, and closes the channel
when it returns.  A send on a closed channel panics, which ends the process.
-/

namespace Soil.Rpc.Invoke

open List Option Bool

open Soil.System

-- the results of doInvoke and the errors of contexts
variable {R E : Type}

inductive Worker (R : Type) where
  | idle
  | running
  | finished (result : R)
  | sent (result : R)
  deriving DecidableEq

inductive Outcome (R E : Type) where
  | vars (result : Option R)
  | ctxErr (err : E)
  deriving DecidableEq

inductive Caller (R E : Type) where
  | start
  | select
  | closing (outcome : Outcome R E)
  | returned (outcome : Outcome R E)
  deriving DecidableEq

structure Call (R E : Type) where
  caller : Caller R E := .start
  worker : Worker R := .idle
  ctx : Option E := none
  vars : Option R := none
  full : Bool := false
  closed : Bool := false
  deriving DecidableEq

inductive Act (R E : Type) where
  | cancel (err : E)
  | check
  | finish (result : R)
  | send
  | recv
  | ctxDone
  | close
  deriving DecidableEq

def Call.step (c : Call R E) : Act R E → Option (Call R E × Bool)
  | .cancel err => if c.ctx.isNone then some ({ c with ctx := some err }, false) else none
  | .check =>
    match c.caller, c.ctx with
    | .start, some err => some ({ c with caller := .returned (.ctxErr err) }, false)
    | .start, none => some ({ c with caller := .select, worker := .running }, false)
    | _, _ => none
  | .finish result =>
    match c.worker with
    | .running => some ({ c with worker := .finished result, vars := some result }, false)
    | _ => none
  | .send =>
    match c.worker with
    | .finished result =>
      if c.closed then some (c, true)
      else if c.full then none
      else some ({ c with worker := .sent result, full := true }, false)
    | _ => none
  | .recv =>
    match c.caller with
    | .select =>
      if c.full then some ({ c with caller := .closing (.vars c.vars), full := false }, false)
      else none
    | _ => none
  | .ctxDone =>
    match c.caller, c.ctx with
    | .select, some err => some ({ c with caller := .closing (.ctxErr err) }, false)
    | _, _ => none
  | .close =>
    match c.caller with
    | .closing outcome =>
      if c.closed then some (c, true)
      else some ({ c with caller := .returned outcome, closed := true }, false)
    | _ => none

structure State (R E : Type) where
  calls : List (Call R E) := []
  panicked : Bool := false
  deriving DecidableEq

inductive Label (R E : Type) where
  | invoke
  | call (i : Nat) (act : Act R E)
  deriving DecidableEq

def State.step (s : State R E) (l : Label R E) : Option (State R E) :=
  if s.panicked then none
  else
    match l with
    | .invoke => some { s with calls := s.calls ++ [{}] }
    | .call i act => (s.calls[i]?).bind fun c => (c.step act).map fun (c', panicked) =>
      { calls := s.calls.set i c', panicked }

def client (R E : Type) : System (State R E) (Label R E) where
  init s := s = {}
  step := State.step

def Patient (s : State R E) : Label R E → Prop
  | .call i .ctxDone => (s.calls[i]?).all (·.full) = true
  | _ => True

instance (s : State R E) (l : Label R E) : Decidable (Patient s l) := by
  unfold Patient
  split <;> infer_instance

def Call.Answers (c : Call R E) : Outcome R E → Prop
  | .vars result => ∃ own, c.worker = .sent own ∧ result = some own
  | .ctxErr err => c.ctx = some err

/-! ## One call -/

structure Call.Inv (c : Call R E) : Prop where
  start : c.caller = .start → c.worker = .idle
  select : c.caller = .select → c.worker ≠ .idle ∧ ∀ own, c.worker = .sent own → c.full = true
  vars : ∀ own, c.worker = .finished own ∨ c.worker = .sent own → c.vars = some own
  full : c.full = true → ∃ own, c.worker = .sent own
  closed : c.closed = true → ∃ outcome, c.caller = .returned outcome
  answers : ∀ outcome, c.caller = .closing outcome ∨ c.caller = .returned outcome →
    c.Answers outcome

variable {c c' : Call R E} {act : Act R E} {panicked : Bool}

theorem Call.Inv.new : ({} : Call R E).Inv where
  start _ := rfl
  select := nofun
  vars := nofun
  full := nofun
  closed := nofun
  answers := nofun

inductive Call.Step (c : Call R E) : Act R E → Call R E → Bool → Prop
  | cancel (err : E) (alive : c.ctx = none) :
      Step c (.cancel err) { c with ctx := some err } false
  | refuse (err : E) (at_ : c.caller = .start) (done : c.ctx = some err) :
      Step c .check { c with caller := .returned (.ctxErr err) } false
  | spawn (at_ : c.caller = .start) (alive : c.ctx = none) :
      Step c .check { c with caller := .select, worker := .running } false
  | finish (result : R) (at_ : c.worker = .running) :
      Step c (.finish result) { c with worker := .finished result, vars := some result } false
  | panic (result : R) (at_ : c.worker = .finished result) (closed : c.closed = true) :
      Step c .send c true
  | send (result : R) (at_ : c.worker = .finished result) (open_ : c.closed = false)
      (empty : c.full = false) :
      Step c .send { c with worker := .sent result, full := true } false
  | recv (at_ : c.caller = .select) (full : c.full = true) :
      Step c .recv { c with caller := .closing (.vars c.vars), full := false } false
  | ctxDone (err : E) (at_ : c.caller = .select) (done : c.ctx = some err) :
      Step c .ctxDone { c with caller := .closing (.ctxErr err) } false
  | again (outcome : Outcome R E) (at_ : c.caller = .closing outcome) (closed : c.closed = true) :
      Step c .close c true
  | close (outcome : Outcome R E) (at_ : c.caller = .closing outcome) (open_ : c.closed = false) :
      Step c .close { c with caller := .returned outcome, closed := true } false

theorem Call.step_cases (step : c.step act = some (c', panicked)) : c.Step act c' panicked := by
  cases act <;> simp only [Call.step] at step <;> (repeat' split at step) <;> cases step
  · exact .cancel _ (isNone_iff_eq_none.mp ‹_›)
  · exact .refuse _ ‹_› ‹_›
  · exact .spawn ‹_› ‹_›
  · exact .finish _ ‹_›
  · exact .panic _ ‹_› ‹_›
  · exact .send _ ‹_› (not_eq_true _ ▸ ‹¬ c.closed = true›) (not_eq_true _ ▸ ‹¬ c.full = true›)
  · exact .recv ‹_› ‹_›
  · exact .ctxDone _ ‹_› ‹_›
  · exact .again _ ‹_› ‹_›
  · exact .close _ ‹_› (not_eq_true _ ▸ ‹¬ c.closed = true›)

theorem Call.Inv.keeps (inv : c.Inv) (step : c.Step act c' panicked) : c'.Inv := by
  obtain ⟨start, select, assigned, filled, shut, answers⟩ := inv
  cases step with
  | cancel err alive =>
    refine ⟨start, select, assigned, filled, shut, ?_⟩
    intro outcome left
    have before := answers outcome left
    cases outcome with
    | vars => exact before
    | ctxErr => cases alive.symm.trans before
  | refuse err at_ done =>
    refine ⟨nofun, nofun, assigned, filled, fun _ => ⟨_, rfl⟩, ?_⟩
    intro outcome left
    cases left.resolve_left nofun
    exact done
  | spawn at_ =>
    have idle := start at_
    refine ⟨nofun, fun _ => ⟨nofun, nofun⟩, nofun, ?_, ?_, nofun⟩
    · intro full
      obtain ⟨own, sent⟩ := filled full
      cases idle.symm.trans sent
    · intro closed
      obtain ⟨outcome, returned⟩ := shut closed
      cases at_.symm.trans returned
  | finish result at_ =>
    have unsent (own : R) : c.worker ≠ .sent own := by simp [at_]
    refine ⟨?_, fun selecting => ⟨nofun, nofun⟩, ?_, ?_, shut, ?_⟩
    · intro begins
      cases at_.symm.trans (start begins)
    · intro own now
      cases now.resolve_right nofun
      rfl
    · intro full
      obtain ⟨own, sent⟩ := filled full
      exact (unsent own sent).elim
    · intro outcome left
      have before := answers outcome left
      cases outcome with
      | vars =>
        obtain ⟨own, sent, -⟩ := before
        exact (unsent own sent).elim
      | ctxErr => exact before
  | panic | again => exact ⟨start, select, assigned, filled, shut, answers⟩
  | send result at_ =>
    refine ⟨?_, fun _ => ⟨nofun, fun _ _ => rfl⟩, ?_, fun _ => ⟨_, rfl⟩, shut, ?_⟩
    · intro begins
      cases at_.symm.trans (start begins)
    · intro own now
      cases now.resolve_left nofun
      exact assigned result (.inl at_)
    intro outcome left
    have before := answers outcome left
    cases outcome with
    | vars =>
      obtain ⟨own, sent, -⟩ := before
      cases at_.symm.trans sent
    | ctxErr => exact before
  | recv at_ full =>
    obtain ⟨own, sent⟩ := filled full
    refine ⟨nofun, nofun, assigned, nofun, ?_, ?_⟩
    · intro closed
      obtain ⟨outcome, returned⟩ := shut closed
      cases at_.symm.trans returned
    · intro outcome left
      cases left.resolve_right nofun
      exact ⟨own, sent, assigned own (.inr sent)⟩
  | ctxDone err at_ done =>
    refine ⟨nofun, nofun, assigned, filled, ?_, ?_⟩
    · intro closed
      obtain ⟨outcome, returned⟩ := shut closed
      cases at_.symm.trans returned
    · intro outcome left
      cases left.resolve_right nofun
      exact done
  | close outcome at_ =>
    refine ⟨nofun, nofun, assigned, filled, fun _ => ⟨_, rfl⟩, ?_⟩
    intro other left
    cases left.resolve_left nofun
    exact answers outcome (.inl at_)

structure Call.Calm (c : Call R E) : Prop where
  closing : ∀ outcome, c.caller = .closing outcome → ∃ own, c.worker = .sent own
  closed : c.closed = true → ∃ own, c.worker = .sent own

theorem Call.Calm.keeps (inv : c.Inv) (calm : c.Calm) (patient : act = .ctxDone → c.full = true)
    (step : c.Step act c' panicked) : c'.Calm ∧ panicked = false := by
  obtain ⟨closing, closed⟩ := calm
  have unfinished {result : R} (at_ : c.worker = .finished result) (own : R) :
      c.worker ≠ .sent own := by simp [at_]
  cases step with
  | cancel => exact ⟨⟨closing, closed⟩, rfl⟩
  | refuse => exact ⟨⟨nofun, closed⟩, rfl⟩
  | spawn at_ =>
    refine ⟨⟨nofun, ?_⟩, rfl⟩
    intro shut
    obtain ⟨own, sent⟩ := closed shut
    cases (inv.start at_).symm.trans sent
  | finish result at_ =>
    have unsent (own : R) : c.worker ≠ .sent own := by simp [at_]
    refine ⟨⟨?_, ?_⟩, rfl⟩
    · intro outcome leaving
      obtain ⟨own, sent⟩ := closing outcome leaving
      exact (unsent own sent).elim
    · intro shut
      obtain ⟨own, sent⟩ := closed shut
      exact (unsent own sent).elim
  | panic result at_ shut =>
    obtain ⟨own, sent⟩ := closed shut
    exact (unfinished at_ own sent).elim
  | send => exact ⟨⟨fun _ _ => ⟨_, rfl⟩, fun _ => ⟨_, rfl⟩⟩, rfl⟩
  | recv at_ full => exact ⟨⟨fun _ _ => inv.full full, closed⟩, rfl⟩
  | ctxDone => exact ⟨⟨fun _ _ => inv.full (patient rfl), closed⟩, rfl⟩
  | again outcome at_ shut =>
    obtain ⟨other, returned⟩ := inv.closed shut
    cases at_.symm.trans returned
  | close outcome at_ => exact ⟨⟨nofun, fun _ => closing outcome at_⟩, rfl⟩

/-! ## All calls -/

variable {s s' : State R E} {l : Label R E} {i : Nat}

theorem step_call (step : s.step (.call i act) = some s') : ∃ c c' panicked,
    s.calls[i]? = some c ∧ c.Step act c' panicked ∧ s' = ⟨s.calls.set i c', panicked⟩ := by
  rw [State.step] at step
  split at step
  · cases step
  · obtain ⟨c, at_, step⟩ := bind_eq_some_iff.mp step
    obtain ⟨⟨c', panicked⟩, moves, rfl⟩ := map_eq_some_iff.mp step
    exact ⟨c, c', panicked, at_, Call.step_cases moves, rfl⟩

theorem step_invoke (step : s.step .invoke = some s') :
    s' = { calls := s.calls ++ [({} : Call R E)], panicked := false } := by
  rw [State.step] at step
  split at step
  · cases step
  · rename_i alive
    rw [not_eq_true] at alive
    rw [← some.inj step, alive]

theorem inv_of_reachable (reachable : (client R E).Reachable Any s) : ∀ c ∈ s.calls, c.Inv := by
  apply reachable.induct (I := fun s => ∀ c ∈ s.calls, c.Inv)
  · intro s start
    rw [start]
    exact forall_mem_nil _
  intro s l s' inv _ step
  cases l with
  | invoke =>
    rw [step_invoke step]
    exact forall_mem_append.mpr ⟨inv, forall_mem_singleton.mpr .new⟩
  | call =>
    obtain ⟨c, c', panicked, at_, moves, rfl⟩ := step_call step
    exact forall_mem_set inv ((inv c (mem_of_getElem? at_)).keeps moves)

theorem calm_of_reachable (reachable : (client R E).Reachable Patient s) :
    (∀ c ∈ s.calls, c.Inv ∧ c.Calm) ∧ s.panicked = false := by
  apply reachable.induct (I := fun s => (∀ c ∈ s.calls, c.Inv ∧ c.Calm) ∧ s.panicked = false)
  · intro s start
    rw [start]
    exact ⟨forall_mem_nil _, rfl⟩
  · intro s l s' ⟨calm, _⟩ patient step
    cases l with
    | invoke =>
      rw [step_invoke step]
      exact ⟨forall_mem_append.mpr ⟨calm, forall_mem_singleton.mpr ⟨.new, nofun, nofun⟩⟩, rfl⟩
    | call i act =>
      obtain ⟨c, c', panicked, at_, moves, rfl⟩ := step_call step
      obtain ⟨inv, quiet⟩ := calm c (mem_of_getElem? at_)
      have waits : act = .ctxDone → c.full = true := by
        rintro rfl
        simpa [Patient, at_] using patient
      obtain ⟨quiet', alive⟩ := quiet.keeps inv waits moves
      exact ⟨forall_mem_set calm ⟨inv.keeps moves, quiet'⟩, alive⟩

variable {calls : List (Call R E)}

theorem exec_call {ls : List (Label R E)}
    (at_ : calls[i]? = some c) (moves : c.step act = some (c', panicked)) :
    (client R E).exec Any ⟨calls, false⟩ (.call i act :: ls) =
      (client R E).exec Any ⟨calls.set i c', panicked⟩ ls := by
  have step : (client R E).step ⟨calls, false⟩ (.call i act) =
      some ⟨calls.set i c', panicked⟩ := by
    simp [client, State.step, at_, moves]
  rw [exec, if_pos (show Any _ _ from trivial), step, bind_some]

variable {outcome : Outcome R E}

theorem panic_of_finished {result : R}
    (at_ : calls[i]? = some c) (leaving : c.caller = .closing outcome)
    (finished : c.worker = .finished result) (open_ : c.closed = false) :
    ∃ s', (client R E).exec Any ⟨calls, false⟩ [.call i .close, .call i .send] = some s' ∧
      s'.panicked = true := by
  have close : c.step .close =
      some ({ c with caller := .returned outcome, closed := true }, false) := by
    simp [Call.step, leaving, open_]
  have send : Call.step { c with caller := .returned outcome, closed := true } .send =
      some ({ c with caller := .returned outcome, closed := true }, true) := by
    simp [Call.step, finished]
  rw [exec_call at_ close, exec_call (getElem?_set_here at_ _) send]
  exact ⟨_, rfl, rfl⟩

theorem panic_of_leaving [Inhabited R]
    (at_ : calls[i]? = some c) (leaving : c.caller = .closing outcome) (open_ : c.closed = false)
    (unsent : c.worker = .running ∨ ∃ result, c.worker = .finished result) :
    ∃ ls s', (client R E).exec Any ⟨calls, false⟩ ls = some s' ∧ s'.panicked = true := by
  rcases unsent with running | ⟨result, finished⟩
  · have finish : c.step (.finish default) =
        some ({ c with worker := .finished default, vars := some default }, false) := by
      simp [Call.step, running]
    refine ⟨[.call i (.finish default), .call i .close, .call i .send], ?_⟩
    rw [exec_call at_ finish]
    exact panic_of_finished (getElem?_set_here at_ _) leaving rfl open_
  · exact ⟨_, panic_of_finished at_ leaving finished open_⟩

theorem panic_of_impatient [Inhabited R] (reachable : (client R E).Reachable Any s)
    (step : s.step l = some s') (impatient : ¬ Patient s l) :
    ∃ ls s'', (client R E).exec Any s' ls = some s'' ∧ s''.panicked = true := by
  unfold Patient at impatient
  split at impatient
  · obtain ⟨c, c', panicked, at_, moves, rfl⟩ := step_call step
    have inv := inv_of_reachable reachable c (mem_of_getElem? at_)
    simp only [at_, all_some, not_eq_true] at impatient
    cases moves with
    | ctxDone err selecting =>
      obtain ⟨busy, sends⟩ := inv.select selecting
      have open_ : c.closed = false := by
        by_contra shut
        obtain ⟨outcome, returned⟩ := inv.closed (not_eq_false _ ▸ shut)
        cases selecting.symm.trans returned
      apply panic_of_leaving (getElem?_set_here at_ { c with caller := .closing (.ctxErr err) })
        rfl open_
      cases worker : c.worker with
      | idle => exact (busy worker).elim
      | running => exact .inl rfl
      | finished result => exact .inr ⟨result, rfl⟩
      | sent own =>
        rw [sends own worker] at impatient
        cases impatient
  · exact (impatient trivial).elim

/-- Every call returns the result of its own worker or the error of its context.  Nothing panics
as long as callers leave for their context only when their worker has sent; when one leaves
before, a panic can follow. -/
theorem invoke_protocol [Inhabited R] :
    (∀ s : State R E, (client R E).Reachable Any s → ∀ c ∈ s.calls, ∀ outcome,
      c.caller = .returned outcome → c.Answers outcome) ∧
    (∀ s : State R E, (client R E).Reachable Patient s → s.panicked = false) ∧
    ∀ (s s' : State R E) (l : Label R E), (client R E).Reachable Any s → s.step l = some s' →
      ¬ Patient s l → ∃ ls s'', (client R E).exec Any s' ls = some s'' ∧ s''.panicked = true := by
  refine ⟨?_, fun s reachable => (calm_of_reachable reachable).2, ?_⟩
  · intro s reachable c inside outcome returned
    exact (inv_of_reachable reachable c inside).answers outcome (.inr returned)
  · intro s s' l reachable step impatient
    exact panic_of_impatient reachable step impatient

example : ((client Nat Nat).exec Patient {} [.invoke, .call 0 .check, .call 0 (.finish 7),
    .call 0 .send, .call 0 (.cancel 1), .call 0 .recv, .call 0 .close]).map
      (fun s => s.calls.map (·.caller)) = some [.returned (.vars (some 7))] := by
  decide +kernel

/-- The context is cancelled while the worker is busy; the caller leaves and closes the channel;
then the worker finishes and sends. -/
theorem late_send_panics : ∃ s, (client Nat Nat).Reachable Any s ∧ s.panicked = true := by
  apply exists_reachable [.invoke, .call 0 .check, .call 0 (.cancel 1), .call 0 .ctxDone,
    .call 0 .close, .call 0 (.finish 7), .call 0 .send] rfl
  decide +kernel

end Soil.Rpc.Invoke
