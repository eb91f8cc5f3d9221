import Soil.Net.Server

/-!
# Shutting the server down

The server as a whole: the accept loop of `Start`, `Shutdown`, and any number of
connections, each with its `handleConn` and requests.  `Shutdown` promises to let the
requests in flight finish before their contexts are cancelled and their connections are
closed, as long as its own context lasts.
-/

namespace Soil.Net.Shutdown

open List Option

open Server (PC Act)

/-! ## States -/

inductive ConnCtx where
  | unset
  | live
  | cancelled
  deriving DecidableEq, Repr

structure Slot where
  conn : Server.State
  ctx : ConnCtx := .unset
  deriving DecidableEq, Repr

inductive Phase where
  | serving
  | closing
  | draining
  | waiting
  | finished
  | expired
  deriving DecidableEq, Repr

structure State where
  phase : Phase := .serving
  accepted : Bool := false
  ended : Bool := false
  done : Bool := false
  cancelled : Bool := false
  slots : List Slot := []
  deriving DecidableEq, Repr

inductive Label where
  | accept
  | serve
  | shutdown
  | closeListener
  | drain (i : Nat)
  | drained
  | wait
  | finish
  | expire
  | force (i : Nat)
  | endCtx
  | cancel (i : Nat)
  | run (i t : Nat) (act : Act)
  deriving DecidableEq, Repr

/-! ## Steps -/

variable (lim : Limits) (maxConns : Nat)

def Slot.run (c : Slot) (t : Nat) (act : Act) : Option Slot :=
  if c.conn.threads[t]? = some .exit ∧ c.ctx = .live then none
  else (c.conn.step lim (.run t act)).map fun conn =>
    { conn, ctx := if c.conn.threads[t]? = some .start ∧ c.conn.closed = false then .live
                   else c.ctx }

def Slot.cancel (c : Slot) : Option Slot :=
  if c.conn.threads[0]? = some .exit ∧ c.ctx = .live then some { c with ctx := .cancelled }
  else none

def Slot.signal (l : Server.Label) (c : Slot) : Option Slot :=
  (c.conn.step lim l).map fun conn => { c with conn }

def Slot.over (c : Slot) : Bool := c.conn.threads.all (· = .done)

def Slot.passed (c : Slot) : Bool :=
  c.conn.draining || c.conn.threads[0]? = some .start || c.conn.threads[0]? = some .done

def State.closed (s : State) : Bool := s.phase ≠ .serving

def State.taken (s : State) : Nat := s.slots.countP fun c => c.conn.threads[0]? ≠ some .done

def State.onSlot (s : State) (i : Nat) (f : Slot → Option Slot) : Option State :=
  (s.slots[i]?).bind fun c => (f c).map fun c' => { s with slots := s.slots.set i c' }

def State.step (s : State) : Label → Option State
  | .accept =>
    if s.accepted = false ∧ (s.phase = .serving ∨ s.phase = .closing) then
      some { s with accepted := true }
    else none
  | .serve =>
    if s.accepted then
      -- without a place in `sem` the connection is closed at once
      if s.taken < maxConns then
        some { s with
          accepted := false, slots := s.slots ++ [{ conn := { closed := s.closed } }] }
      else some { s with accepted := false }
    else none
  | .shutdown =>
    if s.phase = .serving then
      some { s with
        phase := .closing
        slots := s.slots.map fun c => { c with conn := { c.conn with closed := true } } }
    else none
  | .closeListener => if s.phase = .closing then some { s with phase := .draining } else none
  | .drain i => if s.phase = .draining then s.onSlot i (Slot.signal lim .drain) else none
  | .drained =>
    if s.phase = .draining ∧ s.slots.all Slot.passed then some { s with phase := .waiting }
    else none
  | .wait =>
    if (s.phase = .waiting ∨ s.phase = .expired) ∧ s.slots.all Slot.over then
      some { s with done := true }
    else none
  | .finish =>
    if s.phase = .waiting ∧ s.done then some { s with phase := .finished, cancelled := true }
    else none
  | .expire =>
    if s.phase = .waiting ∧ s.ended then some { s with phase := .expired, cancelled := true }
    else none
  | .force i => if s.phase = .expired then s.onSlot i (Slot.signal lim .force) else none
  | .endCtx => some { s with ended := true }
  | .cancel i => s.onSlot i Slot.cancel
  | .run i t act => s.onSlot i fun c => c.run lim t act

def server : System State Label where
  init s := s = {}
  step := State.step lim maxConns

/-! ## What is promised -/

def handling : PC → Bool
  | .handle _ => true
  | _ => false

def answering : PC → Bool
  | .handle _ | .lock .response _ | .writing .response _ => true
  | _ => false

def State.Graceful (s : State) : Prop := s.phase ≠ .serving ∧ s.ended = false

def State.ctxDone (s : State) (c : Slot) : Bool := s.cancelled || c.ctx = .cancelled

def Spared (s s' : State) (c c' : Slot) : Prop :=
  (∀ pc ∈ c.conn.threads, handling pc = true → s'.ctxDone c' = true → s.ctxDone c = true) ∧
  ∀ pc ∈ c'.conn.threads, answering pc = true → c'.conn.wire.closed = true →
    c.conn.wire.closed = true

instance (s s' : State) (c c' : Slot) : Decidable (Spared s s' c c') :=
  inferInstanceAs (Decidable (_ ∧ _))

def Gentle (s : State) (_ : Label) (s' : State) : Prop :=
  s.Graceful → ∀ p ∈ s.slots.zip s'.slots, Spared s s' p.1 p.2

def Idle (s : State) (l : Label) (_ : State) : Prop :=
  s.Graceful → ∀ (i : Nat) (c : Slot), l = .cancel i → s.slots[i]? = some c →
    ∀ pc ∈ c.conn.threads, handling pc = false

instance (s : State) : Decidable s.Graceful := inferInstanceAs (Decidable (_ ∧ _))

instance (s : State) (l : Label) (s' : State) : Decidable (Gentle s l s') :=
  inferInstanceAs (Decidable (_ → _))

/-! ## What a step can do -/

inductive State.Step (s : State) : Label → State → Prop
  | accept : Step s .accept { s with accepted := true }
  | serve : Step s .serve { s with
      accepted := false, slots := s.slots ++ [{ conn := { closed := s.closed } }] }
  | reject : Step s .serve { s with accepted := false }
  | shutdown : s.phase = .serving → Step s .shutdown { s with
      phase := .closing
      slots := s.slots.map fun c => { c with conn := { c.conn with closed := true } } }
  | closeListener : s.phase = .closing → Step s .closeListener { s with phase := .draining }
  | drain {i : Nat} {c : Slot} : s.slots[i]? = some c →
      Step s (.drain i) { s with
        slots := s.slots.set i { c with conn := { c.conn with draining := true } } }
  | drained : s.phase = .draining → Step s .drained { s with phase := .waiting }
  | wait : s.phase ≠ .serving → (∀ c ∈ s.slots, c.over = true) →
      Step s .wait { s with done := true }
  | finish : s.phase = .waiting → s.done = true →
      Step s .finish { s with phase := .finished, cancelled := true }
  | expire : s.phase = .waiting → s.ended = true →
      Step s .expire { s with phase := .expired, cancelled := true }
  | force {i : Nat} {c : Slot} : s.phase = .expired → s.slots[i]? = some c →
      Step s (.force i) { s with
        slots := s.slots.set i { c with conn := { c.conn with wire := c.conn.wire.close } } }
  | endCtx : Step s .endCtx { s with ended := true }
  | cancel {i : Nat} {c : Slot} : s.slots[i]? = some c → c.ctx = .live →
      Step s (.cancel i) { s with slots := s.slots.set i { c with ctx := .cancelled } }
  | run {i t : Nat} {act : Act} {c c' : Slot} : s.slots[i]? = some c →
      c.run lim t act = some c' → Step s (.run i t act) { s with slots := s.slots.set i c' }

variable {lim : Limits} {maxConns : Nat} {s s' : State} {l : Label} {c c' : Slot} {t i : Nat}
  {act : Act}

theorem State.onSlot_inv {f : Slot → Option Slot} (step : s.onSlot i f = some s') :
    ∃ c c', s.slots[i]? = some c ∧ f c = some c' ∧ s' = { s with slots := s.slots.set i c' } := by
  obtain ⟨c, found, moved⟩ := bind_eq_some_iff.mp step
  obtain ⟨c', run, rfl⟩ := map_eq_some_iff.mp moved
  exact ⟨c, c', found, run, rfl⟩

theorem State.step_cases (step : s.step lim maxConns l = some s') : s.Step lim l s' := by
  cases l with dsimp only [State.step] at step
  | accept =>
    split at step
    · cases step
      exact .accept
    · cases step
  | serve =>
    split at step
    · split at step
      · cases step
        exact .serve
      · cases step
        exact .reject
    · cases step
  | shutdown =>
    split at step
    · cases step
      exact .shutdown ‹_›
    · cases step
  | closeListener =>
    split at step
    · cases step
      exact .closeListener ‹_›
    · cases step
  | drain =>
    split at step
    · obtain ⟨c, c', found, signal, rfl⟩ := State.onSlot_inv step
      obtain ⟨conn, drain, rfl⟩ := map_eq_some_iff.mp signal
      cases Server.State.step_cases drain
      exact .drain found
    · cases step
  | drained =>
    split at step
    · rename_i enabled
      cases step
      exact .drained enabled.1
    · cases step
  | wait =>
    split at step
    · rename_i enabled
      cases step
      refine .wait ?_ (all_eq_true.mp enabled.2)
      rcases enabled.1 with phase | phase <;> simp [phase]
    · cases step
  | finish =>
    split at step
    · rename_i enabled
      cases step
      exact .finish enabled.1 enabled.2
    · cases step
  | expire =>
    split at step
    · rename_i enabled
      cases step
      exact .expire enabled.1 enabled.2
    · cases step
  | force =>
    split at step
    · obtain ⟨c, c', found, signal, rfl⟩ := State.onSlot_inv step
      obtain ⟨conn, force, rfl⟩ := map_eq_some_iff.mp signal
      cases Server.State.step_cases force
      exact .force ‹_› found
    · cases step
  | endCtx =>
    cases step
    exact .endCtx
  | cancel i =>
    obtain ⟨c, c', found, cancel, rfl⟩ := State.onSlot_inv step
    unfold Slot.cancel at cancel
    split at cancel
    · rename_i enabled
      cases cancel
      exact .cancel found enabled.2
    · cases cancel
  | run =>
    obtain ⟨c, c', found, run, rfl⟩ := State.onSlot_inv step
    exact .run found run

/-! ## What a goroutine does to its connection -/

theorem conn_closed {conn conn' : Server.State} (step : conn.Step lim (.run t act) conn') :
    conn'.closed = conn.closed := by
  cases step <;> rfl

theorem conn_open {conn conn' : Server.State} (step : conn.Step lim (.run t act) conn') {pc : PC}
    (inside : pc ∈ conn'.threads) (unwritten : answering pc = true)
    (closed : conn'.wire.closed = true) : conn.wire.closed = true := by
  cases step with
  | start _ _ start =>
    obtain ⟨-, rfl⟩ := Wire.start_inv start
    exact closed
  | accept _ accept =>
    obtain ⟨_, _, _, -, -, rfl⟩ := Wire.accept_inv accept
    exact closed
  | finish _ finish =>
    obtain ⟨_, -, rfl⟩ := Wire.finish_inv finish
    exact closed
  | fail _ fail =>
    obtain ⟨_, _, -, -, -, rfl⟩ := Wire.fail_inv fail
    exact closed
  | exit found idle =>
    obtain ⟨u, found'⟩ := List.getElem?_of_mem (show pc ∈ conn.threads.set t .done from inside)
    rcases getElem?_set_cases found' with ⟨-, rfl⟩ | ⟨_, found'⟩
    · cases unwritten
    · rw [idle pc (mem_eraseIdx_iff_getElem?.mpr ⟨u, ‹_›, found'⟩)] at unwritten
      cases unwritten
  | _ => exact closed

def Slot.Ending (c : Slot) : Prop :=
  c.conn.closed = true ∧ ∀ pc ∈ c.conn.threads, pc = .start ∨ pc = .exit ∨ pc = .done

theorem Slot.Ending.not_handling (ending : c.Ending) {pc : PC} (inside : pc ∈ c.conn.threads) :
    handling pc = false := by
  rcases ending.2 pc inside with rfl | rfl | rfl <;> rfl

theorem Slot.run_inv (run : c.run lim t act = some c') :
    ∃ conn, c.conn.step lim (.run t act) = some conn ∧ c'.conn = conn ∧
      (c'.ctx = .cancelled → c.ctx = .cancelled) := by
  unfold Slot.run at run
  split at run
  · cases run
  obtain ⟨conn, step, rfl⟩ := map_eq_some_iff.mp run
  refine ⟨conn, step, rfl, ?_⟩
  intro cancelled
  split at cancelled
  · cases cancelled
  · exact cancelled

theorem Slot.Ending.run (ending : c.Ending) (run : c.run lim t act = some c') : c'.Ending := by
  obtain ⟨conn, step, same, -⟩ := Slot.run_inv run
  unfold Slot.Ending
  rw [same]
  refine ⟨(conn_closed (Server.State.step_cases step)).trans ending.1, ?_⟩
  obtain ⟨pc, found, moved⟩ := bind_eq_some_iff.mp step
  have threads : ∃ next, (next = PC.exit ∨ next = .done) ∧
      conn.threads = c.conn.threads.set t next := by
    rcases ending.2 pc (mem_of_getElem? found) with rfl | rfl | rfl
    · cases act with
      | go =>
        rw [Server.State.run, if_pos ending.1] at moved
        cases moved
        exact ⟨.exit, .inl rfl, rfl⟩
      | _ => cases moved
    · cases act with
      | go =>
        rw [Server.State.run] at moved
        split at moved
        · cases moved
          exact ⟨.done, .inr rfl, rfl⟩
        · cases moved
      | _ => cases moved
    · cases act <;> cases moved
  obtain ⟨next, last, eq⟩ := threads
  rw [eq]
  exact forall_mem_set ending.2 (.inr last)

/-! ## Whole runs -/

structure State.Inv (s : State) : Prop where
  cancelled : s.cancelled = true → s.phase = .finished ∨ s.phase = .expired
  expired : s.phase = .expired → s.ended = true
  finished : s.phase = .finished → s.done = true
  closed : s.phase ≠ .serving → ∀ c ∈ s.slots, c.conn.closed = true
  done : s.done = true → s.phase ≠ .serving ∧ ∀ c ∈ s.slots, c.Ending

theorem Slot.Ending.of_over (closed : c.conn.closed = true) (settled : c.over = true) : c.Ending :=
    by
  refine ⟨closed, ?_⟩
  intro pc inside
  have done := all_eq_true.mp settled pc inside
  exact .inr (.inr (of_decide_eq_true done))

theorem State.Inv.advance (inv : s.Inv) {phase : Phase} (called : s.phase ≠ .serving)
    (before : s.phase ≠ .finished ∧ s.phase ≠ .expired)
    (after : phase ≠ .serving ∧ phase ≠ .finished ∧ phase ≠ .expired) :
    State.Inv { s with phase } := by
  refine ⟨?_, ?_, ?_, ?_, ?_⟩
  · intro cancelled
    rcases inv.cancelled cancelled with finished | expired
    · exact absurd finished before.1
    · exact absurd expired before.2
  · intro expired
    exact absurd expired after.2.2
  · intro finished
    exact absurd finished after.2.1
  · intro _
    exact inv.closed called
  · intro settled
    exact ⟨after.1, (inv.done settled).2⟩

theorem State.Inv.set (inv : s.Inv) (found : s.slots[i]? = some c)
    (closed : c.conn.closed = true → c'.conn.closed = true) (ending : c.Ending → c'.Ending) :
    State.Inv { s with slots := s.slots.set i c' } := by
  have inside := mem_of_getElem? found
  refine ⟨inv.cancelled, inv.expired, inv.finished, ?_, ?_⟩
  · intro called
    exact forall_mem_set (inv.closed called) (closed (inv.closed called c inside))
  · intro settled
    have ⟨called, all⟩ := inv.done settled
    exact ⟨called, forall_mem_set all (ending (all c inside))⟩

theorem State.Inv.serve (inv : s.Inv) : State.Inv { s with
    accepted := false, slots := s.slots ++ [{ conn := { closed := s.closed } }] } := by
  have new (called : s.phase ≠ .serving) : Slot.Ending { conn := { closed := s.closed } } := by
    refine ⟨decide_eq_true called, ?_⟩
    intro pc only
    exact .inl (mem_singleton.mp only)
  refine ⟨inv.cancelled, inv.expired, inv.finished, ?_, ?_⟩
  · intro called
    exact forall_mem_append.mpr ⟨inv.closed called, forall_mem_singleton.mpr (new called).1⟩
  · intro settled
    have ⟨called, all⟩ := inv.done settled
    exact ⟨called, forall_mem_append.mpr ⟨all, forall_mem_singleton.mpr (new called)⟩⟩

theorem State.Inv.step (inv : s.Inv) (step : s.Step lim l s') : s'.Inv := by
  cases step with
  | accept | reject => exact ⟨inv.cancelled, inv.expired, inv.finished, inv.closed, inv.done⟩
  | serve => exact inv.serve
  | shutdown serving =>
    refine ⟨?_, nofun, nofun, ?_, ?_⟩
    · intro cancelled
      rcases inv.cancelled cancelled with phase | phase <;> simp [serving] at phase
    · intro _ c inside
      obtain ⟨-, -, rfl⟩ := mem_map.mp inside
      rfl
    · intro settled
      exact absurd serving (inv.done settled).1
  | closeListener phase | drained phase =>
    exact inv.advance (by simp [phase]) (by simp [phase]) (by simp)
  | wait called settled =>
    refine ⟨inv.cancelled, inv.expired, fun _ => rfl, inv.closed, ?_⟩
    intro _
    exact ⟨called, fun c inside => .of_over (inv.closed called c inside) (settled c inside)⟩
  | finish phase settled =>
    refine ⟨fun _ => .inl rfl, nofun, fun _ => settled, ?_, ?_⟩
    · intro _
      exact inv.closed (by simp [phase])
    · intro _
      exact ⟨nofun, (inv.done settled).2⟩
  | expire phase ended =>
    refine ⟨fun _ => .inr rfl, fun _ => ended, nofun, ?_, ?_⟩
    · intro _
      exact inv.closed (by simp [phase])
    · intro settled
      exact ⟨nofun, (inv.done settled).2⟩
  | endCtx => exact ⟨inv.cancelled, fun _ => rfl, inv.finished, inv.closed, inv.done⟩
  | drain found | force _ found | cancel found =>
    apply inv.set found
    · intro closed
      exact closed
    · intro ending
      exact ending
  | run found run =>
    apply inv.set found
    · intro closed
      obtain ⟨conn, step, same, -⟩ := Slot.run_inv run
      rw [same, conn_closed (Server.State.step_cases step)]
      exact closed
    · intro ending
      exact ending.run run

theorem reachable_inv (reachable : (server lim maxConns).Reachable System.Any s) : s.Inv := by
  apply reachable.induct
  · intro s start
    cases start
    exact ⟨nofun, nofun, nofun, nofun, nofun⟩
  · intro s l s' inv _ step
    exact inv.step (State.step_cases step)

/-! ## Cut handlers -/

theorem gentle_of_slots (spared : s.Graceful → ∀ (i : Nat) (c c' : Slot),
    s.slots[i]? = some c → s'.slots[i]? = some c' → Spared s s' c c') : Gentle s l s' := by
  intro graceful p inside
  obtain ⟨i, at_⟩ := List.getElem?_of_mem inside
  obtain ⟨before, after⟩ := List.getElem?_zip_eq_some.mp at_
  exact spared graceful i p.1 p.2 before after

theorem Spared.of_eq (base : s'.cancelled = s.cancelled) (ctx : c'.ctx = c.ctx)
    (wire : c'.conn.wire = c.conn.wire) : Spared s s' c c' := by
  refine ⟨?_, ?_⟩
  · intro _ _ _ done
    rw [State.ctxDone, base, ctx] at done
    exact done
  · intro _ _ _ closed
    rw [wire] at closed
    exact closed

theorem gentle_of_set (found : s.slots[i]? = some c)
    (spared : s.Graceful → Spared s { s with slots := s.slots.set i c' } c c') :
    Gentle s l { s with slots := s.slots.set i c' } := by
  apply gentle_of_slots
  intro graceful j d d' before after
  rcases getElem?_set_cases after with ⟨rfl, rfl⟩ | ⟨-, after⟩
  · rw [found] at before
    cases before
    exact spared graceful
  · rw [before] at after
    cases after
    exact .of_eq rfl rfl rfl

theorem spared_run (run : c.run lim t act = some c') :
    Spared s { s with slots := s.slots.set i c' } c c' := by
  obtain ⟨conn, step, same, ctx⟩ := Slot.run_inv run
  refine ⟨?_, ?_⟩
  · intro _ _ _ done
    rcases Bool.or_eq_true_iff.mp done with base | cancelled
    · exact Bool.or_eq_true_iff.mpr (.inl base)
    · have before := ctx (of_decide_eq_true cancelled)
      exact Bool.or_eq_true_iff.mpr (.inr (decide_eq_true before))
  · intro pc inside unwritten closed
    rw [same] at inside closed
    exact conn_open (Server.State.step_cases step) inside unwritten closed

theorem gentle_of_step (inv : s.Inv) (step : s.Step lim l s') (other : ∀ i, l ≠ .cancel i) :
    Gentle s l s' := by
  cases step with
  | accept | reject | closeListener | drained | wait | endCtx =>
    apply gentle_of_slots
    intro _ i c c' before after
    cases before.symm.trans after
    exact .of_eq rfl rfl rfl
  | serve =>
    apply gentle_of_slots
    intro _ i c c' before after
    rw [List.getElem?_append_left (List.getElem?_eq_some_iff.mp before).1, before] at after
    cases after
    exact .of_eq rfl rfl rfl
  | shutdown serving =>
    intro graceful
    exact absurd serving graceful.1
  | finish _ settled =>
    apply gentle_of_slots
    intro _ i c c' before after
    cases before.symm.trans after
    have ending := (inv.done settled).2 c (mem_of_getElem? before)
    refine ⟨?_, fun _ _ _ closed => closed⟩
    intro pc inside running
    rw [ending.not_handling inside] at running
    cases running
  | expire _ ended =>
    intro graceful
    cases graceful.2.symm.trans ended
  | force expired =>
    intro graceful
    cases graceful.2.symm.trans (inv.expired expired)
  | drain found =>
    apply gentle_of_set found
    intro _
    exact .of_eq rfl rfl rfl
  | cancel => exact absurd rfl (other _)
  | run found run =>
    apply gentle_of_set found
    intro _
    exact spared_run run

theorem gentle_cancel_iff (inv : s.Inv) (found : s.slots[i]? = some c) (live : c.ctx = .live) :
    Gentle s (.cancel i) { s with slots := s.slots.set i { c with ctx := .cancelled } } ↔
      (s.Graceful → ∀ pc ∈ c.conn.threads, handling pc = false) := by
  refine ⟨?_, ?_⟩
  · intro gentle graceful pc inside
    by_contra running
    rw [Bool.not_eq_false] at running
    have pair : (c, { c with ctx := .cancelled }) ∈
        s.slots.zip (s.slots.set i { c with ctx := .cancelled }) := by
      apply mem_of_getElem? (i := i)
      exact List.getElem?_zip_eq_some.mpr ⟨found, by rw [getElem?_set_of_some found, if_pos rfl]⟩
    have before := (gentle graceful _ pair).1 pc inside running (by simp [State.ctxDone])
    -- `connCtx` was live, so `baseCtx` was cancelled, with everything over by then
    have base : s.cancelled = true := by simpa [State.ctxDone, live] using before
    rcases inv.cancelled base with finished | expired
    · have ending := (inv.done (inv.finished finished)).2 c (mem_of_getElem? found)
      rw [ending.not_handling inside] at running
      cases running
    · cases graceful.2.symm.trans (inv.expired expired)
  · intro idle
    apply gentle_of_set found
    intro graceful
    refine ⟨?_, fun _ _ _ closed => closed⟩
    intro pc inside running
    rw [idle graceful pc inside] at running
    cases running

/-- Shutting down gracefully spares every handler and every response exactly as long as the
loops that end have no handler running. -/
theorem gentle_iff_idle (lim : Limits) (maxConns : Nat) (ls : List Label) :
    (server lim maxConns).Along Gentle {} ls ↔ (server lim maxConns).Along Idle {} ls := by
  have start : (server lim maxConns).Reachable System.Any {} := ⟨{}, rfl, .refl _⟩
  apply System.along_iff start
  intro s l s' reachable step
  have inv := reachable_inv reachable
  have step := State.step_cases step
  by_cases cancel : ∃ i, l = .cancel i
  · obtain ⟨i, rfl⟩ := cancel
    cases step with
    | cancel found live =>
      rw [gentle_cancel_iff inv found live]
      refine ⟨?_, ?_⟩
      · intro none graceful j d here at_
        cases here
        cases found.symm.trans at_
        exact none graceful
      · intro idle graceful
        exact idle graceful i _ rfl found
  · have other : ∀ i, l ≠ .cancel i := fun i here => cancel ⟨i, here⟩
    refine ⟨?_, ?_⟩
    · intro _ _ i c here
      exact absurd here (other i)
    · intro _
      exact gentle_of_step inv step other

def servingRun : List Label :=
  [.accept, .serve, .run 0 0 .go, .run 0 0 .go,
    .run 0 0 (.recv (newFrame messageTypeRequest 1 [] [])), .run 0 0 .go, .run 0 0 (.allow true),
    .shutdown, .closeListener, .drain 0]

/-- The loop ends at once and cancels the context of the handler. -/
theorem draining_loop_cancels_handler :
    ¬ (server {} 1).Along Gentle {} (servingRun ++ [.run 0 0 .go, .cancel 0]) := by
  decide +kernel

example : (server {} 1).Along Gentle {} (servingRun ++
      [.run 0 1 (.outcome (.returns none none)), .run 0 0 .go, .cancel 0]) ∧
    ((server {} 1).exec System.Any {} (servingRun ++
      [.run 0 1 (.outcome (.returns none none)), .run 0 0 .go, .cancel 0])).isSome = true := by
  decide +kernel

end Soil.Net.Shutdown
