import Soil.Net.Frame
import Soil.Wire

/-!
# A client stream

`stream` of the network client: one connection shared by any number of concurrent
`Call`, `Ping` and `Close` operations and the goroutine of `readLoop`.  Each section
under `stream.mu` is one step; `writeMu` is held exactly while a frame is being
written (`Wire.cur`) and released as `writeFrame` returns.  A label names the
goroutine that moves and what its environment does: how much of a write the
connection accepts, which frame arrives, which case a `select` takes.
-/

namespace Soil.Net

open Option

/-! ## Operations and results -/

structure Request where
  requestID : UInt64
  header : List Byte := []
  body : List Byte := []
  oneWay : Bool := false
  deriving DecidableEq, Repr

structure Response where
  requestID : UInt64
  header : List Byte := []
  body : List Byte := []
  deriving DecidableEq, Repr

inductive StreamErr where
  | ctx
  | connClosed
  | duplicate
  | frame (e : FrameErr)
  | write
  | read
  | rateLimited
  | handlerPanic
  | remote (requestID : UInt64) (message : List Byte)
  | unexpected
  deriving DecidableEq, Repr

def remoteErrorFromFrame (f : Frame) : StreamErr :=
  if f.body = textBytes "rate limited" then .rateLimited
  else if f.body = textBytes "handler panic" then .handlerPanic
  else .remote f.requestID f.body

inductive Result where
  | frame (f : Frame)
  | err (e : StreamErr)
  deriving DecidableEq, Repr

inductive Ret where
  | response (r : Response)
  | pong
  | err (e : StreamErr)
  | ended
  deriving DecidableEq, Repr

inductive Kind where
  | call (req : Request)
  | ping (id : UInt64)
  | close
  | readLoop
  deriving DecidableEq, Repr

def Kind.waitID : Kind → Option UInt64
  | .call req => if req.oneWay then none else some req.requestID
  | .ping id => some id
  | .close | .readLoop => none

def Request.frame (req : Request) : Frame :=
  { newFrame messageTypeRequest req.requestID req.header req.body with
    flags := if req.oneWay then flagOneWay else 0 }

/-! ## States -/

inductive PC where
  | start
  | alive
  | register (f : Frame)
  | lock (f : Frame)
  | writing (f : Frame)
  | wrote (err : Option StreamErr)
  | failLock (err : StreamErr)
  | failClose (err : StreamErr) (waiters : List Nat)
  | failSend (err : StreamErr) (waiters : List Nat)
  | wait
  | unregister (ret : Ret)
  | read
  | dispatch (f : Frame) (arrival : Nat)
  | send (f : Frame) (arrival : Nat) (waiter : Nat)
  | done (ret : Ret)
  deriving DecidableEq, Repr

structure Thread where
  kind : Kind
  pc : PC := .start
  ctxDone : Bool := false
  chan : Option Result := none
  deriving DecidableEq, Repr

structure Delivery where
  waiter : Nat
  arrival : Option Nat
  result : Result
  deriving DecidableEq, Repr

structure State where
  closed : Bool := false
  closeErr : Option StreamErr := none
  pending : List (UInt64 × Nat) := []
  wire : Wire Byte := {}
  threads : List Thread
  received : List Frame := []
  log : List Delivery := []
  failed : List Nat := []
  deriving DecidableEq, Repr

inductive Act where
  | go
  | accept (n : Nat)
  | fail
  | recv (f : Frame)
  | takeCtx
  | takeChan
  | send (i : Nat)
  deriving DecidableEq, Repr

inductive Label where
  | cancel (t : Nat)
  | run (t : Nat) (act : Act)
  deriving DecidableEq, Repr

@[simps] def State.setThread (s : State) (t : Nat) (th : Thread) : State :=
  { s with threads := s.threads.set t th }

@[simps] def Thread.goto (th : Thread) (pc : PC) : Thread := { th with pc }

/-! ## Steps -/

@[simps] def State.deliver (s : State) (d : Delivery) : State :=
  { s with
    threads := s.threads.modify d.waiter fun th => { th with chan := th.chan.or (some d.result) }
    log := if (s.threads[d.waiter]?).any (·.chan.isNone) then s.log ++ [d] else s.log }

@[simps] def State.erase (s : State) (id : UInt64) : State :=
  { s with pending := s.pending.filter (·.1 ≠ id) }

def Kind.leave (kind : Kind) (ret : Ret) : PC :=
  match kind.waitID with
  | some _ => .unregister ret
  | none => .done ret

def Kind.afterFail (kind : Kind) (err : StreamErr) : PC :=
  match kind with
  | .call _ | .ping _ => kind.leave (.err err)
  | .close | .readLoop => .done .ended

def Thread.afterWrite (th : Thread) (err : Option StreamErr) : PC :=
  match th.kind, err with
  | .readLoop, _ => .read
  | .close, _ => .done .ended
  | .ping _, none => .wait
  | .ping _, some e => .failLock e
  | .call req, none =>
    if req.oneWay then .done (.response { requestID := req.requestID }) else .wait
  | .call _, some e => if th.ctxDone then th.kind.leave (.err .ctx) else .failLock e

def Thread.receive (th : Thread) : Result → Ret
  | .err e => match th.kind with
      | .call _ => .err (if th.ctxDone then .ctx else e)
      | _ => .err e
  | .frame f => match th.kind with
      | .call _ =>
        if f.isError then .err (remoteErrorFromFrame f)
        else .response { requestID := f.requestID, header := f.header, body := f.body }
      | _ => if f.msgType ≠ messageTypePong then .err .unexpected else .pong

def onFrame (f : Frame) (arrival : Nat) : PC :=
  if f.msgType = messageTypePong then .dispatch f arrival
  else if f.msgType = messageTypeHeartbeat then
    if f.requestID ≠ 0 then .dispatch f arrival else .read
  else if f.msgType = messageTypeResponse then .dispatch f arrival
  else if f.msgType = messageTypePing then .lock (newFrame messageTypePong f.requestID [] [])
  else .read

def Thread.begin (th : Thread) : PC :=
  match th.kind with
  | .call _ => if th.ctxDone then .done (.err .ctx) else .alive
  | .ping id =>
    if th.ctxDone then .done (.err .ctx) else .register (newFrame messageTypePing id [] [])
  | .close => .failLock .connClosed
  | .readLoop => .read

def Thread.afterAlive (th : Thread) (closed : Bool) : PC :=
  match th.kind with
  | .call req =>
    if closed then .done (.err .connClosed)
    else if req.oneWay then .lock req.frame
    else .register req.frame
  | _ => th.pc

def State.run (lim : Limits) (s : State) (t : Nat) (th : Thread) : Act → Option State
  | .go =>
    match th.pc with
    | .start => some (s.setThread t (th.goto th.begin))
    | .alive => some (s.setThread t (th.goto (th.afterAlive s.closed)))
    | .register f => th.kind.waitID.map fun id =>
      if s.closed then
        s.setThread t (th.goto (.done (.err (s.closeErr.getD .connClosed))))
      else if s.pending.any (·.1 = id) then
        s.setThread t (th.goto (.done (.err .duplicate)))
      else
        { s.setThread t (th.goto (.lock f)) with pending := (id, t) :: s.pending }
    | .lock f =>
      match f.validate lim with
      | .error e =>
        if s.wire.cur = none then some (s.setThread t (th.goto (.wrote (some (.frame e)))))
        else none
      | .ok () => (s.wire.start t f.bytes).map fun wire =>
        { s.setThread t (th.goto (.writing f)) with wire }
    | .writing _ => (s.wire.finish t).map fun wire =>
      { s.setThread t (th.goto (.wrote none)) with wire }
    | .wrote err => some (s.setThread t (th.goto (th.afterWrite err)))
    | .failLock err =>
      if s.closed then some (s.setThread t (th.goto (th.kind.afterFail err)))
      else
        let waiters := s.pending.map Prod.snd
        some { s.setThread t (th.goto (.failClose err waiters)) with
          closed := true, closeErr := some err, pending := [], failed := waiters }
    | .failClose err waiters =>
      some { s.setThread t (th.goto (.failSend err waiters)) with wire := s.wire.close }
    | .failSend err [] => some (s.setThread t (th.goto (th.kind.afterFail err)))
    | .unregister ret => th.kind.waitID.map fun id =>
      (s.setThread t (th.goto (.done ret))).erase id
    | .dispatch f arrival =>
      match s.pending.lookup f.requestID with
      | none => some (s.setThread t (th.goto .read))
      | some waiter =>
        some ((s.setThread t (th.goto (.send f arrival waiter))).erase f.requestID)
    | .send f arrival waiter =>
      some ((s.setThread t (th.goto .read)).deliver ⟨waiter, some arrival, .frame f⟩)
    | _ => none
  | .accept n =>
    match th.pc with
    | .writing f => (s.wire.accept t n).map fun wire =>
      { s.setThread t (th.goto (.writing f)) with wire }
    | _ => none
  | .fail =>
    match th.pc with
    | .writing _ => (s.wire.fail t).map fun wire =>
      { s.setThread t (th.goto (.wrote (some .write))) with wire }
    | .read => some (s.setThread t (th.goto (.failLock .read)))
    | _ => none
  | .recv f =>
    match th.pc with
    | .read => some { s.setThread t (th.goto (onFrame f s.received.length)) with
        received := s.received ++ [f] }
    | _ => none
  | .takeCtx =>
    match th.pc with
    | .wait =>
      if th.ctxDone then some (s.setThread t (th.goto (.unregister (.err .ctx)))) else none
    | _ => none
  | .takeChan =>
    match th.pc with
    | .wait => th.chan.map fun r =>
      s.setThread t { th with pc := .unregister (th.receive r), chan := none }
    | _ => none
  | .send i =>
    match th.pc with
    | .failSend err waiters => (waiters[i]?).map fun waiter =>
      (s.setThread t (th.goto (.failSend err (waiters.eraseIdx i)))).deliver
        ⟨waiter, none, .err err⟩
    | _ => none

def State.step (lim : Limits) (s : State) : Label → Option State
  | .cancel t => (s.threads[t]?).map fun th => s.setThread t { th with ctxDone := true }
  | .run t act => (s.threads[t]?).bind fun th => s.run lim t th act

def newStream (ops : List Kind) : State :=
  { threads := (Kind.readLoop :: ops).map fun kind => { kind } }

def stream (lim : Limits) (ops : List Kind) : System State Label where
  init s := s = newStream ops
  step := State.step lim

/-! ## What a step can do -/

inductive Thread.Goes (lim : Limits) (s : State) (th : Thread) : PC → Prop
  | begin : th.pc = .start → Goes lim s th th.begin
  | alive : th.pc = .alive → Goes lim s th (th.afterAlive s.closed)
  | refuse {f : Frame} {err : StreamErr} : th.pc = .register f → Goes lim s th (.done (.err err))
  | invalid {f : Frame} {err : FrameErr} : th.pc = .lock f →
      Goes lim s th (.wrote (some (.frame err)))
  | wrote {err : Option StreamErr} : th.pc = .wrote err → Goes lim s th (th.afterWrite err)
  | failed {err : StreamErr} : th.pc = .failLock err ∨ th.pc = .failSend err [] →
      Goes lim s th (th.kind.afterFail err)
  | expire : th.pc = .wait → Goes lim s th (.unregister (.err .ctx))
  | unmatched {f : Frame} {arrival : Nat} : th.pc = .dispatch f arrival → Goes lim s th .read
  | broken : th.pc = .read → Goes lim s th (.failLock .read)

inductive Writes (lim : Limits) (w : Wire Byte) (t : Nat) : Act → PC → PC → Wire Byte → Prop
  | start {f : Frame} {w' : Wire Byte} : f.validate lim = .ok () → w.start t f.bytes = some w' →
      Writes lim w t .go (.lock f) (.writing f) w'
  | accept {f : Frame} {n : Nat} {w' : Wire Byte} : w.accept t n = some w' →
      Writes lim w t (.accept n) (.writing f) (.writing f) w'
  | finish {f : Frame} {w' : Wire Byte} : w.finish t = some w' →
      Writes lim w t .go (.writing f) (.wrote none) w'
  | fail {f : Frame} {w' : Wire Byte} : w.fail t = some w' →
      Writes lim w t .fail (.writing f) (.wrote (some .write)) w'

inductive State.Step (lim : Limits) (s : State) (t : Nat) (th : Thread) :
    Label → PC → State → Prop
  | cancel : Step lim s t th (.cancel t) th.pc (s.setThread t { th with ctxDone := true })
  | goes {act : Act} {pc : PC} : th.Goes lim s pc →
      Step lim s t th (.run t act) pc (s.setThread t (th.goto pc))
  | writes {act : Act} {pc : PC} {wire : Wire Byte} : Writes lim s.wire t act th.pc pc wire →
      Step lim s t th (.run t act) pc { s.setThread t (th.goto pc) with wire }
  | register {f : Frame} {id : UInt64} : th.pc = .register f → th.kind.waitID = some id →
      s.closed = false → (∀ p ∈ s.pending, p.1 ≠ id) →
      Step lim s t th (.run t .go) (.lock f)
        { s.setThread t (th.goto (.lock f)) with pending := (id, t) :: s.pending }
  | fail {err : StreamErr} : th.pc = .failLock err → s.closed = false →
      Step lim s t th (.run t .go) (.failClose err (s.pending.map Prod.snd))
        { s.setThread t (th.goto (.failClose err (s.pending.map Prod.snd))) with
          closed := true, closeErr := some err, pending := [], failed := s.pending.map Prod.snd }
  | close {err : StreamErr} {waiters : List Nat} : th.pc = .failClose err waiters →
      Step lim s t th (.run t .go) (.failSend err waiters)
        { s.setThread t (th.goto (.failSend err waiters)) with wire := s.wire.close }
  | failSend {err : StreamErr} {waiters : List Nat} {i waiter : Nat} :
      th.pc = .failSend err waiters → waiters[i]? = some waiter →
      Step lim s t th (.run t (.send i)) (.failSend err (waiters.eraseIdx i))
        ((s.setThread t (th.goto (.failSend err (waiters.eraseIdx i)))).deliver
          ⟨waiter, none, .err err⟩)
  | take {r : Result} : th.pc = .wait → th.chan = some r →
      Step lim s t th (.run t .takeChan) (.unregister (th.receive r))
        (s.setThread t { th with pc := .unregister (th.receive r), chan := none })
  | unregister {ret : Ret} {id : UInt64} : th.pc = .unregister ret → th.kind.waitID = some id →
      Step lim s t th (.run t .go) (.done ret) ((s.setThread t (th.goto (.done ret))).erase id)
  | recv {f : Frame} : th.pc = .read →
      Step lim s t th (.run t (.recv f)) (onFrame f s.received.length)
        { s.setThread t (th.goto (onFrame f s.received.length)) with
          received := s.received ++ [f] }
  | dispatch {f : Frame} {arrival waiter : Nat} : th.pc = .dispatch f arrival →
      s.pending.lookup f.requestID = some waiter →
      Step lim s t th (.run t .go) (.send f arrival waiter)
        ((s.setThread t (th.goto (.send f arrival waiter))).erase f.requestID)
  | send {f : Frame} {arrival waiter : Nat} : th.pc = .send f arrival waiter →
      Step lim s t th (.run t .go) .read
        ((s.setThread t (th.goto .read)).deliver ⟨waiter, some arrival, .frame f⟩)

variable {lim : Limits} {s s' : State} {t : Nat} {th : Thread}

theorem State.run_go_cases (run : s.run lim t th .go = some s') :
    ∃ pc, s.Step lim t th (.run t .go) pc s' := by
  cases pc : th.pc with simp only [State.run, pc] at run
  | start =>
    simp only [State.run, pc, some.injEq] at run
    subst run
    exact ⟨_, .goes (.begin pc)⟩
  | alive =>
    simp only [State.run, pc, some.injEq] at run
    subst run
    exact ⟨_, .goes (.alive pc)⟩
  | register f =>
    simp only [State.run, pc, map_eq_some_iff] at run
    obtain ⟨id, waits, rfl⟩ := run
    split
    · exact ⟨_, .goes (.refuse pc)⟩
    · split
      · exact ⟨_, .goes (.refuse pc)⟩
      · rename_i opened fresh
        refine ⟨_, .register pc waits (by simpa using opened) fun p mem same => fresh ?_⟩
        exact List.any_eq_true.mpr ⟨p, mem, by simpa using same⟩
  | lock f =>
    split at run
    · split at run
      · cases run
        exact ⟨_, .goes (.invalid pc)⟩
      · cases run
    · rename_i valid
      obtain ⟨wire, start, rfl⟩ := map_eq_some_iff.mp run
      exact ⟨_, .writes (pc ▸ .start valid start)⟩
  | writing =>
    simp only [State.run, pc, map_eq_some_iff] at run
    obtain ⟨wire, finish, rfl⟩ := run
    exact ⟨_, .writes (pc ▸ .finish finish)⟩
  | wrote =>
    simp only [State.run, pc, some.injEq] at run
    subst run
    exact ⟨_, .goes (.wrote pc)⟩
  | failLock err =>
    split at run
    · cases run
      exact ⟨_, .goes (.failed (.inl pc))⟩
    · rename_i opened
      cases run
      exact ⟨_, .fail pc (by simpa using opened)⟩
  | failClose =>
    simp only [State.run, pc, some.injEq] at run
    subst run
    exact ⟨_, .close pc⟩
  | failSend err waiters =>
    cases waiters with
    | nil =>
      simp only [State.run, pc, some.injEq] at run
      subst run
      exact ⟨_, .goes (.failed (.inr pc))⟩
    | cons => simp [State.run, pc] at run
  | unregister =>
    simp only [State.run, pc, map_eq_some_iff] at run
    obtain ⟨id, waits, rfl⟩ := run
    exact ⟨_, .unregister pc waits⟩
  | dispatch f arrival =>
    split at run
    · cases run
      exact ⟨_, .goes (.unmatched pc)⟩
    · rename_i waiter found
      cases run
      exact ⟨_, .dispatch pc found⟩
  | send =>
    simp only [State.run, pc, some.injEq] at run
    subst run
    exact ⟨_, .send pc⟩
  | wait | read | done => simp [State.run, pc] at run

theorem State.run_cases {act : Act} (run : s.run lim t th act = some s') :
    ∃ pc, s.Step lim t th (.run t act) pc s' := by
  cases act with dsimp only [State.run] at run
  | go => exact State.run_go_cases run
  | accept n =>
    split at run
    · rename_i f pc
      obtain ⟨wire, accept, rfl⟩ := map_eq_some_iff.mp run
      refine ⟨_, .writes ?_⟩
      rw [pc]
      exact .accept accept
    · cases run
  | fail =>
    split at run
    · rename_i f pc
      obtain ⟨wire, fail, rfl⟩ := map_eq_some_iff.mp run
      exact ⟨_, .writes (pc ▸ .fail fail)⟩
    · rename_i pc
      cases run
      exact ⟨_, .goes (.broken pc)⟩
    · cases run
  | recv f =>
    split at run
    · rename_i pc
      cases run
      exact ⟨_, .recv pc⟩
    · cases run
  | takeCtx =>
    split at run
    · rename_i pc
      split at run
      · cases run
        exact ⟨_, .goes (.expire pc)⟩
      · cases run
    · cases run
  | takeChan =>
    split at run
    · rename_i pc
      obtain ⟨r, chan, rfl⟩ := map_eq_some_iff.mp run
      exact ⟨_, .take pc chan⟩
    · cases run
  | send i =>
    split at run
    · rename_i err waiters pc
      obtain ⟨waiter, found, rfl⟩ := map_eq_some_iff.mp run
      exact ⟨_, .failSend pc found⟩
    · cases run

theorem State.step_cases {l : Label} (step : s.step lim l = some s') :
    ∃ t th pc, s.threads[t]? = some th ∧ s.Step lim t th l pc s' := by
  cases l with
  | cancel t =>
    obtain ⟨th, found, rfl⟩ := map_eq_some_iff.mp step
    exact ⟨t, th, _, found, .cancel⟩
  | run t =>
    obtain ⟨th, found, run⟩ := bind_eq_some_iff.mp step
    obtain ⟨pc, step⟩ := State.run_cases run
    exact ⟨t, th, pc, found, step⟩

end Soil.Net
