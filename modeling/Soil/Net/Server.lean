import Soil.Net.Frame
import Soil.Wire

/-!
# One connection of the server

`handleConn` and the goroutines of `handleRequest` it starts.  Goroutine 0 is the loop
of the connection; each admitted request adds one goroutine.  `sendFrame` takes
`slot.writeMu`, which is held exactly while a frame is being written (`Wire.cur`).
-/

namespace Soil.Net.Server

/-! ## Handlers -/

structure Reply where
  header : List Byte := []
  body : List Byte := []
  error : Option (List Byte) := none
  deriving DecidableEq, Repr

inductive Outcome where
  | returns (resp : Option Reply) (err : Option (List Byte))
  | panics
  deriving DecidableEq, Repr

def safeHandle : Outcome → Option Reply × Option (List Byte)
  | .returns resp err => (resp, err)
  | .panics => (none, some (textBytes "handler panic"))

def response (requestID : UInt64) (o : Outcome) : Frame :=
  match safeHandle o with
  | (_, some err) => newErrorFrame requestID (some err)
  | (none, none) => newFrame messageTypeResponse requestID [] []
  | (some resp, none) =>
    match resp.error with
    | some err => newErrorFrame requestID (some err)
    | none => newFrame messageTypeResponse requestID resp.header resp.body

/-! ## States -/

inductive Sender where
  | pong
  | draining
  | limited
  | response
  deriving DecidableEq, Repr

inductive PC where
  | start
  | check
  | read
  | request (f : Frame)
  | limit (f : Frame)
  | lock (sender : Sender) (f : Frame)
  | writing (sender : Sender) (f : Frame)
  | exit
  | handle (f : Frame)
  | done
  deriving DecidableEq, Repr

def Sender.next : Sender → Bool → PC
  | .pong, true => .check
  | .pong, false => .exit
  | .draining, _ => .exit
  | .limited, _ => .check
  | .response, _ => .done

structure State where
  closed : Bool := false
  draining : Bool := false
  wire : Wire Byte := {}
  threads : List PC := [.start]
  received : List Frame := []
  sent : List Frame := []
  deriving DecidableEq, Repr

inductive Act where
  | go
  | accept (n : Nat)
  | fail
  | recv (f : Frame)
  | allow (ok : Bool)
  | outcome (o : Outcome)
  deriving DecidableEq, Repr

inductive Label where
  | shutdown
  | drain
  | force
  | run (t : Nat) (act : Act)
  deriving DecidableEq, Repr

@[simps] def State.setThread (s : State) (t : Nat) (pc : PC) : State :=
  { s with threads := s.threads.set t pc }

/-! ## Steps -/

def onFrame (f : Frame) : PC :=
  if f.isHeartbeat then
    if f.msgType = messageTypePing ∨ f.msgType = messageTypeHeartbeat then
      .lock .pong (newFrame messageTypePong f.requestID [] [])
    else .check
  else if f.msgType ≠ messageTypeRequest then .check
  else .request f

def onOutcome (f : Frame) (o : Outcome) : PC :=
  if f.isOneWay then .done else .lock .response (response f.requestID o)

def State.run (lim : Limits) (s : State) (t : Nat) (pc : PC) : Act → Option State
  | .go =>
    match pc with
    | .start =>
      if s.closed then some { s.setThread t .exit with draining := true }
      else some (s.setThread t .check)
    | .check =>
      if s.closed || s.draining then some { s.setThread t .exit with draining := true }
      else some (s.setThread t .read)
    | .request f =>
      if s.draining || s.closed then
        some (s.setThread t (.lock .draining
          (newErrorFrame f.requestID (some (textBytes "server draining")))))
      else some (s.setThread t (.limit f))
    | .lock sender f =>
      match f.validate lim with
      | .error _ =>
        if s.wire.cur = none then some (s.setThread t (sender.next false)) else none
      | .ok () => (s.wire.start t f.bytes).map fun wire =>
        { s.setThread t (.writing sender f) with wire }
    | .writing sender f => (s.wire.finish t).map fun wire =>
      { s.setThread t (sender.next true) with wire, sent := s.sent ++ [f] }
    | .exit =>
      if ∀ pc ∈ s.threads.eraseIdx t, pc = .done then
        some { s.setThread t .done with wire := s.wire.close }
      else none
    | _ => none
  | .accept n =>
    match pc with
    | .writing _ _ => (s.wire.accept t n).map fun wire => { s with wire }
    | _ => none
  | .fail =>
    match pc with
    | .writing sender _ => (s.wire.fail t).map fun wire =>
      { s.setThread t (sender.next false) with wire }
    | .read => some (s.setThread t .exit)
    | _ => none
  | .recv f =>
    match pc with
    | .read => some { s.setThread t (onFrame f) with received := s.received ++ [f] }
    | _ => none
  | .allow ok =>
    match pc with
    | .limit f =>
      if ok then some { s with threads := s.threads.set t .check ++ [.handle f] }
      else some (s.setThread t (.lock .limited
        (newErrorFrame f.requestID (some (textBytes "rate limited")))))
    | _ => none
  | .outcome o =>
    match pc with
    | .handle f => some (s.setThread t (onOutcome f o))
    | _ => none

def State.step (lim : Limits) (s : State) : Label → Option State
  | .shutdown => some { s with closed := true }
  | .drain => if s.closed then some { s with draining := true } else none
  | .force => if s.closed then some { s with wire := s.wire.close } else none
  | .run t act => (s.threads[t]?).bind fun pc => s.run lim t pc act

def conn (lim : Limits) : System State Label where
  init s := s = { closed := s.closed }
  step := State.step lim

/-! ## What a step can do -/

inductive State.Step (lim : Limits) (s : State) : Label → State → Prop
  | shutdown : Step lim s .shutdown { s with closed := true }
  | drain : Step lim s .drain { s with draining := true }
  | force : Step lim s .force { s with wire := s.wire.close }
  | enter {t : Nat} : s.threads[t]? = some .start →
      Step lim s (.run t .go) (s.setThread t .check)
  | next {t : Nat} : s.threads[t]? = some .check →
      Step lim s (.run t .go) (s.setThread t .read)
  | leave {t : Nat} : s.threads[t]? = some .start ∨ s.threads[t]? = some .check →
      Step lim s (.run t .go) { s.setThread t .exit with draining := true }
  | recv {t : Nat} {f : Frame} : s.threads[t]? = some .read →
      Step lim s (.run t (.recv f))
        { s.setThread t (onFrame f) with received := s.received ++ [f] }
  | broken {t : Nat} : s.threads[t]? = some .read →
      Step lim s (.run t .fail) (s.setThread t .exit)
  | refuse {t : Nat} {f : Frame} : s.threads[t]? = some (.request f) →
      s.draining = true ∨ s.closed = true →
      Step lim s (.run t .go) (s.setThread t (.lock .draining
        (newErrorFrame f.requestID (some (textBytes "server draining")))))
  | pass {t : Nat} {f : Frame} : s.threads[t]? = some (.request f) →
      Step lim s (.run t .go) (s.setThread t (.limit f))
  | spawn {t : Nat} {f : Frame} : s.threads[t]? = some (.limit f) →
      Step lim s (.run t (.allow true)) { s with threads := s.threads.set t .check ++ [.handle f] }
  | deny {t : Nat} {f : Frame} : s.threads[t]? = some (.limit f) →
      Step lim s (.run t (.allow false)) (s.setThread t (.lock .limited
        (newErrorFrame f.requestID (some (textBytes "rate limited")))))
  | handled {t : Nat} {f : Frame} {o : Outcome} : s.threads[t]? = some (.handle f) →
      Step lim s (.run t (.outcome o)) (s.setThread t (onOutcome f o))
  | invalid {t : Nat} {sender : Sender} {f : Frame} {err : FrameErr} :
      s.threads[t]? = some (.lock sender f) → f.validate lim = .error err →
      Step lim s (.run t .go) (s.setThread t (sender.next false))
  | start {t : Nat} {sender : Sender} {f : Frame} {wire : Wire Byte} :
      s.threads[t]? = some (.lock sender f) → f.validate lim = .ok () →
      s.wire.start t f.bytes = some wire →
      Step lim s (.run t .go) { s.setThread t (.writing sender f) with wire }
  | accept {t n : Nat} {sender : Sender} {f : Frame} {wire : Wire Byte} :
      s.threads[t]? = some (.writing sender f) → s.wire.accept t n = some wire →
      Step lim s (.run t (.accept n)) { s with wire }
  | finish {t : Nat} {sender : Sender} {f : Frame} {wire : Wire Byte} :
      s.threads[t]? = some (.writing sender f) → s.wire.finish t = some wire →
      Step lim s (.run t .go)
        { s.setThread t (sender.next true) with wire, sent := s.sent ++ [f] }
  | fail {t : Nat} {sender : Sender} {f : Frame} {wire : Wire Byte} :
      s.threads[t]? = some (.writing sender f) → s.wire.fail t = some wire →
      Step lim s (.run t .fail) { s.setThread t (sender.next false) with wire }
  | exit {t : Nat} : s.threads[t]? = some .exit → (∀ pc ∈ s.threads.eraseIdx t, pc = .done) →
      Step lim s (.run t .go) { s.setThread t .done with wire := s.wire.close }

variable {lim : Limits} {s s' : State} {t : Nat} {pc : PC}

theorem State.run_go_cases (found : s.threads[t]? = some pc) (run : s.run lim t pc .go = some s') :
    s.Step lim (.run t .go) s' := by
  cases pc with dsimp only [State.run] at run
  | start =>
    split at run
    · cases run
      exact .leave (.inl found)
    · cases run
      exact .enter found
  | check =>
    split at run
    · cases run
      exact .leave (.inr found)
    · cases run
      exact .next found
  | request f =>
    split at run
    · rename_i ending
      cases run
      exact .refuse found (by simpa using ending)
    · cases run
      exact .pass found
  | lock sender f =>
    split at run
    · rename_i invalid
      split at run
      · cases run
        exact .invalid found invalid
      · cases run
    · rename_i valid
      obtain ⟨wire, start, rfl⟩ := Option.map_eq_some_iff.mp run
      exact .start found valid start
  | writing =>
    obtain ⟨wire, finish, rfl⟩ := Option.map_eq_some_iff.mp run
    exact .finish found finish
  | exit =>
    split at run
    · rename_i idle
      cases run
      exact .exit found idle
    · cases run
  | read | limit | handle | done => cases run

theorem State.run_cases {act : Act} (found : s.threads[t]? = some pc)
    (run : s.run lim t pc act = some s') : s.Step lim (.run t act) s' := by
  cases act with dsimp only [State.run] at run
  | go => exact State.run_go_cases found run
  | accept =>
    split at run
    · obtain ⟨wire, accept, rfl⟩ := Option.map_eq_some_iff.mp run
      exact .accept found accept
    · cases run
  | fail =>
    split at run
    · obtain ⟨wire, fail, rfl⟩ := Option.map_eq_some_iff.mp run
      exact .fail found fail
    · cases run
      exact .broken found
    · cases run
  | recv =>
    split at run
    · cases run
      exact .recv found
    · cases run
  | allow ok =>
    split at run
    · cases ok with
      | true =>
        cases run
        exact .spawn found
      | false =>
        cases run
        exact .deny found
    · cases run
  | outcome =>
    split at run
    · cases run
      exact .handled found
    · cases run

theorem State.step_cases {l : Label} (step : s.step lim l = some s') : s.Step lim l s' := by
  cases l with dsimp only [State.step] at step
  | shutdown =>
    cases step
    exact .shutdown
  | drain =>
    split at step
    · cases step
      exact .drain
    · cases step
  | force =>
    split at step
    · cases step
      exact .force
    · cases step
  | run =>
    obtain ⟨pc, found, run⟩ := Option.bind_eq_some_iff.mp step
    exact State.run_cases found run

end Soil.Net.Server
