import Soil.Net.Endpoint
import Soil.Net.StreamSafety

/-!
# Calls that fail before they write

A call that fails before a byte of its frame is written says nothing about the
connection: its context is done, its id is taken, or its frame is over the limits.  Here
a stream stands next to the endpoint it belongs to, and every `Call` that returns is
counted there by `doCall`.
-/

namespace Soil.Net.Isolation

open List Thread

/-! ## A stream and its endpoint -/

structure Shared where
  stream : State
  node : EndpointNode
  deriving DecidableEq

def outcome : Ret → Option Outcome
  | .response r => some (.ok (.ok r))
  | .err e => some (.ok (.error e))
  | .pong | .ended => none

def returned (th : Thread) : Option Outcome :=
  match th.kind, th.pc with
  | .call _, .done ret => outcome ret
  | _, _ => none

def count (o : HealthOptions) (now : Nat) (node : EndpointNode) (s : State) (t : Nat) :
    EndpointNode :=
  match (s.threads[t]?).bind returned with
  | some out => (node.doCall o now out).1
  | none => node

def Shared.step (lim : Limits) (o : HealthOptions) (s : Shared) :
    Label × Nat → Option Shared
  | (.cancel t, _) => (s.stream.step lim (.cancel t)).map fun stream => { s with stream }
  | (.run t act, now) => (s.stream.step lim (.run t act)).map fun stream =>
    { stream, node := count o now s.node stream t }

def shared (lim : Limits) (o : HealthOptions) (ops : List Kind) : System Shared (Label × Nat) where
  init s := s.stream = newStream ops
  step := Shared.step lim o

/-! ## What is promised -/

def rest (s : State) (t : Nat) : State :=
  { s with pending := s.pending.filter (·.2 ≠ t), threads := s.threads.eraseIdx t }

def Taken (s : State) (req : Request) : Prop :=
  s.closed = false ∧ ∃ p ∈ s.pending, p.1 = req.requestID

def Refused (lim : Limits) (s : State) (th : Thread) (req : Request) : Prop :=
  match th.pc with
  | .start => th.ctxDone = true
  | .alive | .done _ => False
  | .register _ => Taken s req
  | _ => ∃ e, req.frame.validate lim = .error e

def Isolated (lim : Limits) (t : Nat) (s : Shared) (l : Label × Nat) (s' : Shared) : Prop :=
  ∀ act th req, l.1 = .run t act → s.stream.threads[t]? = some th → th.kind = .call req →
    Refused lim s.stream th req →
    rest s'.stream t = rest s.stream t ∧ s'.node.fails ≠ s.node.fails + 1

/-- If goroutine `t` is a call that moves, then its id is free when it registers, its
context is done when its frame has been refused, and it leaves with nobody else waiting
under its id. -/
def Excused (lim : Limits) (t : Nat) (s : Shared) (l : Label × Nat) (_ : Shared) : Prop :=
  ∀ act th req, l.1 = .run t act → s.stream.threads[t]? = some th → th.kind = .call req →
    match th.pc with
    | .register _ => ¬ Taken s.stream req
    | .wrote _ => (∃ e, req.frame.validate lim = .error e) → th.ctxDone = true
    | .unregister _ => (∃ e, req.frame.validate lim = .error e) →
        ∀ p ∈ s.stream.pending, p.1 = req.requestID → p.2 = t
    | _ => True

/-! ## What a refused call does -/

variable {lim : Limits} {o : HealthOptions} {s s' : State} {t : Nat} {th : Thread} {act : Act}
  {req : Request} {e : FrameErr} {l : Label × Nat}

def Proper (req : Request) (e : FrameErr) : PC → Prop
  | .start | .alive | .done _ => True
  | .register f | .lock f => f = req.frame
  | .wrote err => err = some (.frame e)
  | .unregister ret => ret = .err .ctx
  | _ => False

inductive Refuses (s : State) (t : Nat) (th : Thread) (req : Request) (e : FrameErr) :
    State → Prop
  | begin : th.pc = .start → Refuses s t th req e (s.setThread t (th.goto th.begin))
  | alive : th.pc = .alive →
      Refuses s t th req e (s.setThread t (th.goto (th.afterAlive s.closed)))
  | closed {f : Frame} {err : StreamErr} : th.pc = .register f → s.closed = true →
      Refuses s t th req e (s.setThread t (th.goto (.done (.err err))))
  | duplicate {f : Frame} : th.pc = .register f → Taken s req →
      Refuses s t th req e (s.setThread t (th.goto (.done (.err .duplicate))))
  | register {f : Frame} : th.pc = .register f → ¬ Taken s req → Refuses s t th req e
      { s.setThread t (th.goto (.lock f)) with pending := (req.requestID, t) :: s.pending }
  | refuse {f : Frame} : th.pc = .lock f →
      Refuses s t th req e (s.setThread t (th.goto (.wrote (some (.frame e)))))
  | excuse {err : Option StreamErr} : th.pc = .wrote err → th.ctxDone = true →
      Refuses s t th req e (s.setThread t (th.goto (th.kind.leave (.err .ctx))))
  | blame {err : Option StreamErr} : th.pc = .wrote err → th.ctxDone = false →
      Refuses s t th req e (s.setThread t (th.goto (.failLock (.frame e))))
  | leave {ret : Ret} : th.pc = .unregister ret →
      Refuses s t th req e ((s.setThread t (th.goto (.done ret))).erase req.requestID)

theorem waitID_call {id : UInt64} (waits : (Kind.call req).waitID = some id) :
    id = req.requestID := by
  dsimp only [Kind.waitID] at waits
  split at waits
  · cases waits
  · cases waits
    rfl

theorem refuses_of_run (call : th.kind = .call req) (invalid : req.frame.validate lim = .error e)
    (proper : Proper req e th.pc) (run : s.run lim t th act = some s') :
    Refuses s t th req e s' := by
  cases act with
  | go =>
    cases pc : th.pc with simp only [State.run, pc, Option.map_eq_some_iff] at run
    | start =>
      simp only [State.run, pc, Option.some.injEq] at run
      subst run
      exact .begin pc
    | alive =>
      simp only [State.run, pc, Option.some.injEq] at run
      subst run
      exact .alive pc
    | register f =>
      obtain ⟨id, waits, rfl⟩ := run
      rw [call] at waits
      obtain rfl := waitID_call waits
      split
      · exact .closed pc ‹_›
      rename_i opened
      have opened : s.closed = false := by simpa using opened
      split
      · rename_i dup
        obtain ⟨p, inside, same⟩ := any_eq_true.mp dup
        exact .duplicate pc ⟨opened, p, inside, of_decide_eq_true same⟩
      · rename_i fresh
        refine .register pc ?_
        intro taken
        obtain ⟨-, p, inside, same⟩ := taken
        exact fresh (any_eq_true.mpr ⟨p, inside, decide_eq_true same⟩)
    | lock f =>
      rw [pc] at proper
      obtain rfl : f = req.frame := proper
      simp only [State.run, pc, invalid] at run
      split at run
      · cases run
        exact .refuse pc
      · cases run
    | wrote err =>
      rw [pc] at proper
      obtain rfl : err = some (.frame e) := proper
      simp only [State.run, pc, Option.some.injEq, afterWrite, call] at run
      subst run
      cases ctx : th.ctxDone with
      | true =>
        rw [if_pos rfl, ← call]
        exact .excuse pc ctx
      | false =>
        rw [if_neg Bool.false_ne_true]
        exact .blame pc ctx
    | unregister =>
      obtain ⟨id, waits, rfl⟩ := run
      rw [call] at waits
      obtain rfl := waitID_call waits
      exact .leave pc
    | done => simp [State.run, pc] at run
    | _ =>
      rw [pc] at proper
      exact proper.elim
  | _ =>
    dsimp only [State.run] at run
    split at run
    all_goals first
      | (rename_i pc; rw [pc] at proper; exact proper.elim)
      | cases run

theorem proper_leave (kind : Kind) : Proper req e (kind.leave (.err .ctx)) := by
  unfold Kind.leave
  split
  · exact rfl
  · trivial

theorem Refuses.proper (call : th.kind = .call req) (at_ : Proper req e th.pc)
    (refuses : Refuses s t th req e s') (found : s.threads[t]? = some th) :
    ∃ pc, s'.threads[t]? = some (th.goto pc) ∧
      (Proper req e pc ∨ ∃ err, th.pc = .wrote err ∧ th.ctxDone = false ∧
        pc = .failLock (.frame e)) := by
  have moved (pc : PC) : (s.setThread t (th.goto pc)).threads[t]? = some (th.goto pc) := by
    rw [setThread_get found, if_pos rfl]
  cases refuses with
  | begin =>
    refine ⟨_, moved _, .inl ?_⟩
    unfold Thread.begin
    rw [call]
    dsimp only
    split <;> trivial
  | alive =>
    refine ⟨_, moved _, .inl ?_⟩
    unfold Thread.afterAlive
    rw [call]
    dsimp only
    split
    · trivial
    · split <;> exact rfl
  | closed | duplicate | leave => exact ⟨_, moved _, .inl trivial⟩
  | register pc =>
    rw [pc] at at_
    exact ⟨_, moved _, .inl at_⟩
  | refuse => exact ⟨_, moved _, .inl rfl⟩
  | excuse => exact ⟨_, moved _, .inl (proper_leave _)⟩
  | blame pc ctx => exact ⟨_, moved _, .inr ⟨_, pc, ctx, rfl⟩⟩

theorem rest_setThread (x : Thread) : rest (s.setThread t x) t = rest s t := by
  simp [rest, eraseIdx_set_eq]

theorem rest_erase_iff (x : Thread) (id : UInt64) :
    rest ((s.setThread t x).erase id) t = rest s t ↔ ∀ p ∈ s.pending, p.1 = id → p.2 = t := by
  refine ⟨?_, ?_⟩
  · intro same p inside key
    by_contra other
    have kept : p ∈ (rest s t).pending :=
      mem_filter.mpr ⟨inside, decide_eq_true other⟩
    rw [← same] at kept
    have erased := (mem_filter.mp (mem_filter.mp kept).1).2
    exact of_decide_eq_true erased key
  · intro own
    have pending : (s.pending.filter (·.1 ≠ id)).filter (·.2 ≠ t) = s.pending.filter (·.2 ≠ t) := by
      rw [filter_filter]
      apply filter_congr
      intro p inside
      by_cases other : p.2 = t
      · simp [other]
      · have fresh : p.1 ≠ id := fun key => other (own p inside key)
        simp [fresh]
    calc rest ((s.setThread t x).erase id) t
        = { rest (s.setThread t x) t with
            pending := (s.pending.filter (·.1 ≠ id)).filter (·.2 ≠ t) } := rfl
      _ = rest (s.setThread t x) t := by rw [pending]; rfl
      _ = rest s t := rest_setThread x

/-! ## What is counted -/

variable {now : Nat} {node : EndpointNode}

theorem fails_ne_add_one (n : Int32) : n ≠ n + 1 := by
  intro same
  have bits := congrArg Int32.toBitVec same
  rw [Int32.toBitVec_add] at bits
  have : Int32.toBitVec 1 = 1#32 := rfl
  bv_omega

theorem count_of_none {pc : PC} (found : s'.threads[t]? = some (th.goto pc))
    (goes_on : ∀ ret, pc ≠ .done ret) : count o now node s' t = node := by
  have none : returned (th.goto pc) = none := by
    unfold returned
    split
    · exact absurd ‹_› (goes_on _)
    · rfl
  simp [count, found, none]

theorem count_of_ctx (call : th.kind = .call req)
    (found : s'.threads[t]? = some (th.goto (.done (.err .ctx)))) :
    count o now node s' t = node := by
  have ctx : returned (th.goto (.done (.err .ctx))) = some (.ok (.error .ctx)) := by
    simp [returned, call, outcome]
  simp only [count, found, Option.bind_some, ctx]
  rfl

variable {err : StreamErr}

theorem count_of_blamed (call : th.kind = .call req)
    (blamed : err = .duplicate ∨ ∃ e, err = .frame e)
    (found : s'.threads[t]? = some (th.goto (.done (.err err)))) :
    (count o now node s' t).fails = node.fails + 1 := by
  have returns : returned (th.goto (.done (.err err))) = some (.ok (.error err)) := by
    simp [returned, call, outcome]
  have marked : (node.doCall o now (.ok (.error err))).1 = node.markFailure o now := by
    rcases blamed with rfl | ⟨-, rfl⟩ <;> rfl
  simp only [count, found, Option.bind_some, returns, marked]
  unfold EndpointNode.markFailure
  dsimp only
  split <;> rfl

/-! ## Steps of the stream and its endpoint -/

variable {u u' : Shared}

def OnCourse (lim : Limits) (t : Nat) (s : Shared) : Prop :=
  ∀ th req e, s.stream.threads[t]? = some th → th.kind = .call req →
    req.frame.validate lim = .error e → Proper req e th.pc

def Doomed (lim : Limits) (t : Nat) (s : Shared) : Prop :=
  ∃ th req e, s.stream.threads[t]? = some th ∧ th.kind = .call req ∧
    req.frame.validate lim = .error e ∧
    (th.pc = .failLock (.frame e) ∨ th.pc = .unregister (.err (.frame e)))

def place (th : Thread) : Kind × PC := (th.kind, th.pc)

theorem place_of_other {w : Nat} {pc : PC} {label : Label} (other : t ≠ w)
    (found : s.threads[w]? = some th) (step : s.Step lim w th label pc s') :
    s'.threads[t]?.map place = s.threads[t]?.map place := by
  obtain ⟨x, threads | ⟨d, threads⟩, -⟩ := step.threads_eq
  · rw [threads, setThread_get found, if_neg other]
  rw [threads, State.deliver_threads, List.getElem?_modify, setThread_get found, if_neg other]
  cases s.threads[t]? with
  | none => rfl
  | some =>
    by_cases here : d.waiter = t
    · simp [here, place]
    · simp [here]

theorem step_cases (t : Nat) (step : u.step lim o l = some u') :
    u'.stream.threads[t]?.map place = u.stream.threads[t]?.map place ∧ (∀ act, l.1 ≠ .run t act) ∨
      ∃ act th, l.1 = .run t act ∧ u.stream.threads[t]? = some th ∧
        u.stream.run lim t th act = some u'.stream ∧ u'.node = count o l.2 u.node u'.stream t := by
  obtain ⟨label, now⟩ := l
  cases label with obtain ⟨stream, moved, rfl⟩ := Option.map_eq_some_iff.mp step
  | cancel w =>
    obtain ⟨th, found, rfl⟩ := Option.map_eq_some_iff.mp moved
    refine .inl ⟨?_, nofun⟩
    rw [setThread_get found]
    split
    · rename_i here
      rw [here, found]
      rfl
    · rfl
  | run w act =>
    obtain ⟨th, found, run⟩ := Option.bind_eq_some_iff.mp moved
    by_cases here : t = w
    · subst here
      exact .inr ⟨act, th, rfl, found, run, rfl⟩
    refine .inl ⟨?_, ?_⟩
    · obtain ⟨pc, step⟩ := State.run_cases run
      exact place_of_other here found step
    · intro act' same
      cases same
      exact here rfl

theorem OnCourse.of_place (course : OnCourse lim t u)
    (same : u'.stream.threads[t]?.map place = u.stream.threads[t]?.map place) :
    OnCourse lim t u' := by
  intro th' req e found' call invalid
  rw [found'] at same
  obtain ⟨th, found, eq⟩ := Option.map_eq_some_iff.mp same.symm
  obtain ⟨kind, pc⟩ := Prod.mk.injEq .. ▸ eq
  rw [← pc]
  exact course th req e found (kind.trans call) invalid

theorem Doomed.of_place (doomed : Doomed lim t u)
    (same : u'.stream.threads[t]?.map place = u.stream.threads[t]?.map place) :
    Doomed lim t u' := by
  obtain ⟨th, req, e, found, call, invalid, at_⟩ := doomed
  rw [found] at same
  obtain ⟨th', found', eq⟩ := Option.map_eq_some_iff.mp same
  obtain ⟨kind, pc⟩ := Prod.mk.injEq .. ▸ eq
  exact ⟨th', req, e, found', kind.trans call, invalid, pc ▸ at_⟩

theorem begin_of_run (pc : th.pc = .start) (run : s.run lim t th act = some s') :
    s' = s.setThread t (th.goto th.begin) := by
  cases act with
  | go =>
    simp only [State.run, pc, Option.some.injEq] at run
    exact run.symm
  | _ => simp [State.run, pc] at run

theorem duplicate_of_run {f : Frame} (pc : th.pc = .register f) (call : th.kind = .call req)
    (taken : Taken s req) (run : s.run lim t th act = some s') :
    s' = s.setThread t (th.goto (.done (.err .duplicate))) := by
  cases act with
  | go =>
    simp only [State.run, pc, Option.map_eq_some_iff] at run
    obtain ⟨id, waits, rfl⟩ := run
    rw [call] at waits
    obtain rfl := waitID_call waits
    obtain ⟨opened, p, inside, same⟩ := taken
    rw [if_neg (by simp [opened]), if_pos]
    exact any_eq_true.mpr ⟨p, inside, decide_eq_true same⟩
  | _ => simp [State.run, pc] at run

variable {ret : Ret}

theorem leave_of_run (pc : th.pc = .unregister ret) (call : th.kind = .call req)
    (run : s.run lim t th act = some s') :
    s' = (s.setThread t (th.goto (.done ret))).erase req.requestID := by
  cases act with
  | go =>
    simp only [State.run, pc, Option.map_eq_some_iff] at run
    obtain ⟨id, waits, rfl⟩ := run
    rw [call] at waits
    rw [waitID_call waits]
  | _ => simp [State.run, pc] at run

theorem blame_of_run (pc : th.pc = .wrote (some err)) (call : th.kind = .call req)
    (late : th.ctxDone = false) (run : s.run lim t th act = some s') :
    s' = s.setThread t (th.goto (.failLock err)) := by
  cases act with
  | go =>
    simp only [State.run, pc, Option.some.injEq, afterWrite, call, late] at run
    exact run.symm
  | _ => simp [State.run, pc] at run

theorem kind_of_run {th' : Thread} (found : s.threads[t]? = some th)
    (run : s.run lim t th act = some s') (found' : s'.threads[t]? = some th') :
    th'.kind = th.kind := by
  obtain ⟨pc, step⟩ := State.run_cases run
  obtain ⟨old, before, kind, -⟩ := step.thread found found'
  cases found.symm.trans before
  exact kind

theorem isolated_begin (call : th.kind = .call req) (found : s.threads[t]? = some th)
    (ctx : th.ctxDone = true) : rest (s.setThread t (th.goto th.begin)) t = rest s t ∧
      count o now node (s.setThread t (th.goto th.begin)) t = node := by
  have begins : th.begin = .done (.err .ctx) := by
    simp [begin, call, ctx]
  rw [begins]
  refine ⟨rest_setThread _, count_of_ctx call ?_⟩
  rw [setThread_get found, if_pos rfl]

theorem isolated_refuses (call : th.kind = .call req) (at_ : Proper req e th.pc)
    (found : s.threads[t]? = some th) (refuses : Refuses s t th req e s')
    (refused : Refused lim s th req) (free : ∀ f, th.pc = .register f → ¬ Taken s req)
    (ctx : ∀ err, th.pc = .wrote err → th.ctxDone = true)
    (own : ∀ ret, th.pc = .unregister ret → ∀ p ∈ s.pending, p.1 = req.requestID → p.2 = t) :
    rest s' t = rest s t ∧ count o now node s' t = node := by
  have moved (pc : PC) : (s.setThread t (th.goto pc)).threads[t]? = some (th.goto pc) := by
    rw [setThread_get found, if_pos rfl]
  cases refuses with
  | begin pc =>
    simp only [Refused, pc] at refused
    exact isolated_begin call found refused
  | alive pc =>
    simp [Refused, pc] at refused
  | closed pc closed =>
    simp only [Refused, pc] at refused
    cases closed.symm.trans refused.1
  | duplicate pc taken => exact absurd taken (free _ pc)
  | register pc free =>
    simp only [Refused, pc] at refused
    exact absurd refused free
  | refuse => exact ⟨rest_setThread _, count_of_none (moved _) nofun⟩
  | excuse =>
    refine ⟨rest_setThread _, ?_⟩
    have there := moved (th.kind.leave (.err .ctx))
    revert there
    unfold Kind.leave
    split
    · intro there
      exact count_of_none there nofun
    · intro there
      exact count_of_ctx call there
  | blame pc late => cases late.symm.trans (ctx _ pc)
  | leave pc =>
    rw [pc] at at_
    obtain rfl := at_
    exact ⟨(rest_erase_iff _ _).mpr (own _ pc), count_of_ctx call (moved _)⟩

theorem excused_step (course : OnCourse lim t u) (step : u.step lim o l = some u')
    (excused : Excused lim t u l u') : Isolated lim t u l u' ∧ OnCourse lim t u' := by
  rcases step_cases t step with ⟨same, other⟩ | ⟨act, th, moves, found, run, node⟩
  · refine ⟨?_, course.of_place same⟩
    intro act _ _ moves
    exact absurd moves (other act)
  have excuse (req) (call : th.kind = .call req) := excused act th req moves found call
  refine ⟨?_, ?_⟩
  · intro _ _ req _ found' call refused
    cases found.symm.trans found'
    have excuse := excuse req call
    have spared : rest u'.stream t = rest u.stream t ∧ u'.node = u.node := by
      rw [node]
      by_cases start : th.pc = .start
      · simp only [Refused, start] at refused
        rw [begin_of_run start run]
        exact isolated_begin call found refused
      have invalid : ∃ e, req.frame.validate lim = .error e := by
        unfold Refused at refused
        split at refused
        · exact absurd ‹_› start
        · exact refused.elim
        · exact refused.elim
        · rename_i pc
          rw [pc] at excuse
          exact absurd refused excuse
        · exact refused
      obtain ⟨e, invalid⟩ := invalid
      have at_ := course th req e found call invalid
      have refuses := refuses_of_run call invalid at_ run
      refine isolated_refuses call at_ found refuses refused ?_ ?_ ?_
      · intro f pc
        rw [pc] at excuse
        exact excuse
      · intro err pc
        rw [pc] at excuse
        exact excuse ⟨e, invalid⟩
      · intro ret pc
        rw [pc] at excuse
        exact excuse ⟨e, invalid⟩
    refine ⟨spared.1, ?_⟩
    rw [spared.2]
    exact fails_ne_add_one _
  · intro th' req e found' call invalid
    have call : th.kind = .call req := (kind_of_run found run found').symm.trans call
    have at_ := course th req e found call invalid
    obtain ⟨pc, there, proper | ⟨err, wrote, late, -⟩⟩ :=
      (refuses_of_run call invalid at_ run).proper call at_ found
    · cases there.symm.trans found'
      exact proper
    · have excuse := excuse req call
      rw [wrote] at excuse
      cases late.symm.trans (excuse ⟨e, invalid⟩)

theorem isolated_step (course : OnCourse lim t u) (step : u.step lim o l = some u')
    (isolated : Isolated lim t u l u') : Excused lim t u l u' ∨ Doomed lim t u' := by
  rcases step_cases t step with ⟨-, other⟩ | ⟨act, th, moves, found, run, node⟩
  · left
    intro act _ _ moves
    exact absurd moves (other act)
  by_cases late : ∃ err req e, th.pc = .wrote err ∧ th.kind = .call req ∧
      req.frame.validate lim = .error e ∧ th.ctxDone = false
  · right
    obtain ⟨err, req, e, wrote, call, invalid, late⟩ := late
    have at_ := course th req e found call invalid
    rw [wrote] at at_
    obtain rfl : err = some (.frame e) := at_
    have blame := blame_of_run wrote call late run
    refine ⟨th.goto (.failLock (.frame e)), req, e, ?_, call, invalid, .inl rfl⟩
    rw [blame, setThread_get found, if_pos rfl]
  · left
    intro _ _ req _ found' call
    cases found.symm.trans found'
    have isolated := isolated act th req moves found call
    cases pc : th.pc with
    | register =>
      intro taken
      have dup := duplicate_of_run pc call taken run
      have there : u'.stream.threads[t]? = some (th.goto (.done (.err .duplicate))) := by
        rw [dup, setThread_get found, if_pos rfl]
      apply (isolated (by simpa only [Refused, pc] using taken)).2
      rw [node]
      exact count_of_blamed call (.inl rfl) there
    | wrote err =>
      intro invalid
      obtain ⟨e, invalid⟩ := invalid
      by_contra open_
      exact late ⟨err, req, e, pc, call, invalid, by simpa using open_⟩
    | unregister =>
      intro invalid
      have spared := (isolated (by simpa only [Refused, pc] using invalid)).1
      rw [leave_of_run pc call run] at spared
      exact (rest_erase_iff _ _).mp spared
    | _ => trivial

theorem doomed_step (doomed : Doomed lim t u) (step : u.step lim o l = some u')
    (isolated : Isolated lim t u l u') : Doomed lim t u' := by
  rcases step_cases t step with ⟨same, -⟩ | ⟨act, th, moves, found, run, node⟩
  · exact doomed.of_place same
  obtain ⟨th₀, req, e, found₀, call, invalid, at_⟩ := doomed
  cases found.symm.trans found₀
  have moved (pc : PC) :
      (u.stream.setThread t (th.goto pc)).threads[t]? = some (th.goto pc) := by
    rw [setThread_get found, if_pos rfl]
  have isolated := isolated act th req moves found call
  rw [node] at isolated
  rcases at_ with pc | pc
  · have spared := isolated (by simpa only [Refused, pc] using ⟨e, invalid⟩)
    cases act with
    | go =>
      simp only [State.run, pc] at run
      split at run
      · have ends : th.kind.afterFail (.frame e) = th.kind.leave (.err (.frame e)) := by
          rw [call]
          rfl
        rw [ends, Option.some.injEq] at run
        have there := moved (th.kind.leave (.err (.frame e)))
        rw [run] at there
        unfold Kind.leave at there
        split at there
        · exact ⟨_, req, e, there, call, invalid, .inr rfl⟩
        · exact absurd (count_of_blamed call (.inr ⟨e, rfl⟩) there) spared.2
      · rename_i opened
        rw [Option.some.injEq] at run
        have same : (rest u'.stream t).closed = (rest u.stream t).closed := by rw [spared.1]
        rw [← run] at same
        exact absurd same.symm opened
    | _ => simp [State.run, pc] at run
  · have spared := isolated (by simpa only [Refused, pc] using ⟨e, invalid⟩)
    have left := leave_of_run pc call run
    have there : u'.stream.threads[t]? = some (th.goto (.done (.err (.frame e)))) := by
      rw [left]
      exact moved _
    exact absurd (count_of_blamed call (.inr ⟨e, rfl⟩) there) spared.2

/-! ## Whole runs -/

variable {ops : List Kind}

theorem onCourse_start (start : u.stream = newStream ops) : OnCourse lim t u := by
  intro th req e found _ _
  rw [start] at found
  rw [(newStream_thread found).1]
  trivial

def Ended (t : Nat) (s : Shared) : Prop :=
  ∃ th ∈ s.stream.threads[t]?, ∃ ret, th.pc = .done ret

theorem Doomed.not_ended (doomed : Doomed lim t u) : ¬ Ended t u := by
  intro ended
  obtain ⟨th, req, e, found, -, -, at_⟩ := doomed
  obtain ⟨th', found', ret, done⟩ := ended
  cases found.symm.trans found'
  rw [done] at at_
  rcases at_ with at_ | at_ <;> cases at_

theorem excused_of_isolated {ls : List (Label × Nat)}
    (course : OnCourse lim t u) (run : (shared lim o ops).exec System.Any u ls = some u')
    (ended : Ended t u') (all : (shared lim o ops).Along (Isolated lim t) u ls) :
    (shared lim o ops).Along (Excused lim t) u ls := by
  induction ls generalizing u with
  | nil => trivial
  | cons l ls ih =>
    rw [System.exec, if_pos (show System.Any u l from trivial)] at run
    obtain ⟨next, step, rest⟩ := Option.bind_eq_some_iff.mp run
    rw [System.Along, step] at all ⊢
    rcases isolated_step course step all.1 with excused | doomed
    · exact ⟨excused, ih (excused_step course step excused).2 rest all.2⟩
    · have still := all.2.keeps (fun _ _ _ => doomed_step) doomed rest
      exact absurd ended still.not_ended

/-- A call that fails before it writes leaves the stream, its waiters and the counter of
the endpoint alone exactly if its id is free when it registers, its context is done when its
frame is refused and nobody else waits under its id when it leaves. -/
theorem isolated_iff_excused (lim : Limits) (o : HealthOptions) (ops : List Kind)
    (node : EndpointNode) (ls : List (Label × Nat)) (t : Nat) (s : Shared)
    (run : (shared lim o ops).exec System.Any ⟨newStream ops, node⟩ ls = some s)
    (ended : Ended t s) :
    (shared lim o ops).Along (Isolated lim t) ⟨newStream ops, node⟩ ls ↔
      (shared lim o ops).Along (Excused lim t) ⟨newStream ops, node⟩ ls := by
  have course : OnCourse lim t ⟨newStream ops, node⟩ := onCourse_start rfl
  refine ⟨?_, ?_⟩
  · exact excused_of_isolated course run ended
  · intro all
    exact all.mono (fun _ _ _ => excused_step) course

def noBody : Limits := { maxBody := 0 }

def health : HealthOptions := ⟨2, 0⟩

def twoCalls : List Kind := [.call { requestID := 1 }, .call { requestID := 2, body := [0] }]

def idle : Shared := ⟨newStream twoCalls, { ep := ⟨"a", 1⟩ }⟩

def refusedRun : List (Label × Nat) :=
  [(.run 1 .go, 0), (.run 1 .go, 0), (.run 1 .go, 0), (.run 1 .go, 0), (.run 1 (.accept 22), 0),
    (.run 1 .go, 0), (.run 1 .go, 0), (.run 2 .go, 0), (.run 2 .go, 0), (.run 2 .go, 0),
    (.run 2 .go, 0)]

def excusedRun : List (Label × Nat) := [(.cancel 2, 0), (.run 2 .go, 0), (.run 2 .go, 0)]

def blamedRun : List (Label × Nat) :=
  [(.run 2 .go, 0), (.run 2 .go, 0), (.run 2 .go, 0), (.run 2 (.send 0), 0),
    (.run 2 (.send 0), 0), (.run 2 .go, 0), (.run 2 .go, 0), (.run 1 .takeChan, 0),
    (.run 1 .go, 0)]

theorem ended_of_place (place : u.stream.threads[t]?.map pc = some (.done ret)) : Ended t u := by
  obtain ⟨th, found, pc⟩ := Option.map_eq_some_iff.mp place
  exact ⟨th, found, ret, pc⟩

theorem isolated_iff_excused_context_done : ∃ s,
    (shared noBody health twoCalls).exec System.Any idle (refusedRun ++ excusedRun) = some s ∧
    Ended 2 s ∧
    ((shared noBody health twoCalls).Along (Isolated noBody 2) idle (refusedRun ++ excusedRun) ↔
      (shared noBody health twoCalls).Along (Excused noBody 2) idle
        (refusedRun ++ excusedRun)) := by
  have evaluated : ∃ s,
      (shared noBody health twoCalls).exec System.Any idle (refusedRun ++ excusedRun) = some s ∧
      s.stream.threads[2]?.map pc = some (.done (.err .ctx)) := by
    decide +kernel
  obtain ⟨s, run, place⟩ := evaluated
  have ended := ended_of_place place
  exact ⟨s, run, ended, isolated_iff_excused noBody health twoCalls _ _ 2 s run ended⟩

/-- A body over the limit closes the stream, fails the call that waits on it, and both are
counted as failures of the endpoint. -/
theorem large_body_fails_waiter :
    ¬ (shared noBody health twoCalls).Along (Isolated noBody 2) idle (refusedRun ++ blamedRun) ∧
    ∃ s, (shared noBody health twoCalls).exec System.Any idle (refusedRun ++ blamedRun) = some s ∧
      s.stream.closed = true ∧ s.node.fails = 2 ∧
      s.stream.threads[1]?.map Thread.pc = some (.done (.err (.frame (.largeBody 1 0)))) := by
  refine ⟨?_, by decide +kernel⟩
  intro all
  have begun : ∃ s, (shared noBody health twoCalls).exec System.Any idle (refusedRun ++
        [(.run 2 .go, 0)]) = some s ∧
      s.stream.threads[2]?.map place = some (.call { requestID := 2, body := [0] },
        .failLock (.frame (.largeBody 1 0))) ∧
      ∃ s', (shared noBody health twoCalls).exec System.Any s blamedRun.tail = some s' ∧
        s'.stream.threads[2]?.map pc = some (.done (.err (.frame (.largeBody 1 0)))) := by
    decide +kernel
  obtain ⟨s, run, at_, s', rest, done⟩ := begun
  obtain ⟨th, found, eq⟩ := Option.map_eq_some_iff.mp at_
  obtain ⟨kind, pc⟩ := Prod.mk.injEq .. ▸ eq
  have doomed : Doomed noBody 2 s := ⟨th, _, _, found, kind, rfl, .inl pc⟩
  have later : (shared noBody health twoCalls).Along (Isolated noBody 2) s blamedRun.tail := by
    apply System.Along.drop _ run
    exact all
  have still := later.keeps (fun _ _ _ => doomed_step) doomed rest
  exact still.not_ended (ended_of_place done)

end Soil.Net.Isolation
