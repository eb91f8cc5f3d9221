import Soil.Basic
import Soil.System

/-!
# Invocations of the client and the responses they return

`Client.Call` with its attempts, on any number of streams.  A stream is shared: its
`pending` table says which channel a response with a given id goes to, and a call that is
cancelled leaves while its response is still on the way.  The id of a request is drawn once
and written back into the caller's `Request`.
-/

namespace Soil.Net.Invocation

open Option

/-! ## States -/

structure Reply where
  id : UInt64
  tag : Nat
  isError : Bool := false
  deriving DecidableEq, Repr

structure Due where
  id : UInt64
  tag : Nat
  oneWay : Bool := false
  deriving DecidableEq, Repr

structure Chan where
  owner : Nat
  content : Option (Option Reply) := none
  deriving DecidableEq, Repr

structure Stream where
  closed : Bool := false
  pending : List (UInt64 × Nat) := []
  due : List Due := []
  reading : Option (Reply × Nat) := none
  deriving DecidableEq, Repr

inductive Res where
  | reply (tag : Nat)
  | remote (tag : Nat)
  | sent
  | ctx
  | failed
  deriving DecidableEq, Repr

inductive PC where
  | start
  | attempt (left : Nat)
  | register (left stream : Nat)
  | write (left stream : Nat) (chan : Option Nat)
  | wait (left stream chan : Nat)
  | unregister (left stream : Nat) (res : Res)
  | judge (left : Nat) (res : Res)
  | done (res : Res)
  deriving DecidableEq, Repr

inductive Op where
  | call (request : Nat)
  | ping (stream : Nat)
  deriving DecidableEq, Repr

structure Call where
  op : Op
  id : UInt64 := 0
  begun : Bool := false
  oneWay : Bool := false
  ctxDone : Bool := false
  pc : PC := .start
  deriving DecidableEq, Repr

structure Req where
  requestID : UInt64 := 0
  oneWay : Bool := false
  deriving DecidableEq, Repr

structure State where
  reqID : UInt64 := 0
  requests : List Req := []
  calls : List Call := []
  streams : List Stream := []
  chans : List Chan := []
  deriving DecidableEq, Repr

inductive Act where
  | go
  | pick (stream : Nat)
  | lose
  | takeCtx
  | takeChan
  deriving DecidableEq, Repr

inductive Label where
  | request (req : Req)
  | setID (request : Nat) (id : UInt64)
  | invoke (request : Nat)
  | ping (stream : Nat)
  | cancel (i : Nat)
  | dial
  | fail (stream : Nat)
  | arrive (stream k : Nat) (isError : Bool)
  | send (stream : Nat)
  | run (i : Nat) (act : Act)
  deriving DecidableEq, Repr

/-! ## Steps -/

def Chan.put (r : Option Reply) (c : Chan) : Chan := { c with content := c.content.or (some r) }

def State.failAll (s : State) (σ : Nat) (st : Stream) : State :=
  if st.closed then s
  else
    { s with
      streams := s.streams.set σ { st with closed := true, pending := [] }
      chans := s.chans.mapIdx fun k c =>
        if st.pending.any (·.2 = k) then c.put none else c }

def State.goto (s : State) (i : Nat) (c : Call) (pc : PC) : State :=
  { s with calls := s.calls.set i { c with pc } }

def State.inUse (s : State) (request : Nat) : Bool :=
  s.calls.any fun c => c.op = .call request && !(match c.pc with | .done _ => true | _ => false)

def leave (left σ : Nat) (chan : Option Nat) (res : Res) : PC :=
  match chan with
  | some _ => .unregister left σ res
  | none => .judge left res

def written (left σ : Nat) : Option Nat → PC
  | some ch => .wait left σ ch
  | none => .judge left .sent

def Call.receive (c : Call) : Option Reply → Res
  | none => match c.op with
      | .call _ => if c.ctxDone then .ctx else .failed
      | .ping _ => .failed
  | some r => if r.isError then .remote r.tag else .reply r.tag

def Call.judge (c : Call) (left : Nat) (res : Res) : PC :=
  match c.op, res with
  | .call _, .failed => if left = 0 then .done .failed else .attempt (left - 1)
  | _, _ => .done res

def State.nextID (s : State) (c : Call) : UInt64 :=
  match c.op with
  | .call request =>
    match s.requests[request]? with
    | some req => if req.requestID = 0 then s.reqID + 1 else req.requestID
    | none => 0
  | .ping _ => s.reqID + 1

def State.begin (retries : Nat) (s : State) (i : Nat) (c : Call) : Option State :=
  match c.op with
  | .call request => (s.requests[request]?).map fun req =>
    if req.requestID = 0 then
      { s with
        reqID := s.reqID + 1
        requests := s.requests.set request { req with requestID := s.reqID + 1 }
        calls := s.calls.set i
          { c with
            id := s.reqID + 1, begun := true, oneWay := req.oneWay, pc := .attempt retries } }
    else
      { s with
        calls := s.calls.set i
          { c with
            id := req.requestID, begun := true, oneWay := req.oneWay, pc := .attempt retries } }
  | .ping σ => some { s with
      reqID := s.reqID + 1
      calls := s.calls.set i { c with id := s.reqID + 1, begun := true, pc := .register 0 σ } }

def State.register (s : State) (i : Nat) (c : Call) (left σ : Nat) (st : Stream) : State :=
  if st.closed then s.goto i c (.judge left .failed)
  else if c.oneWay then s.goto i c (.write left σ none)
  else if st.pending.any (·.1 = c.id) then s.goto i c (.judge left .failed)
  else
    { s.goto i c (.write left σ (some s.chans.length)) with
      streams := s.streams.set σ { st with pending := (c.id, s.chans.length) :: st.pending }
      chans := s.chans ++ [{ owner := i }] }

def State.run (retries : Nat) (s : State) (i : Nat) (c : Call) : Act → Option State
  | .go =>
    match c.pc with
    | .start => s.begin retries i c
    | .register left σ => (s.streams[σ]?).map fun st => s.register i c left σ st
    | .write left σ chan => (s.streams[σ]?).map fun st =>
      { s.goto i c (written left σ chan) with
        streams := s.streams.set σ { st with due := st.due ++ [⟨c.id, i, c.oneWay⟩] } }
    | .unregister left σ res => (s.streams[σ]?).map fun st =>
      { s.goto i c (.judge left res) with
        streams := s.streams.set σ { st with pending := st.pending.filter (·.1 ≠ c.id) } }
    | .judge left res => some (s.goto i c (c.judge left res))
    | _ => none
  | .pick σ =>
    match c.pc with
    | .attempt left => (s.streams[σ]?).map fun _ => s.goto i c (.register left σ)
    | _ => none
  | .lose =>
    match c.pc with
    -- the client is closed
    | .start => some (s.goto i c (.done .failed))
    -- no endpoint, or `pool.Get` fails
    | .attempt left => some (s.goto i c (.judge left .failed))
    -- `writeFrame` fails; only `Call` looks at its context
    | .write left σ chan => (s.streams[σ]?).map fun st =>
      match c.op, c.ctxDone with
      | .call _, true => s.goto i c (leave left σ chan .ctx)
      | _, _ => (s.failAll σ st).goto i c (leave left σ chan .failed)
    | _ => none
  | .takeCtx =>
    if c.ctxDone then
      match c.pc with
      | .start => some (s.goto i c (.done .ctx))
      | .attempt left | .register left _ => some (s.goto i c (.judge left .ctx))
      | .wait left σ _ => some (s.goto i c (.unregister left σ .ctx))
      -- the pause before the next attempt
      | .judge (_ + 1) .failed => some (s.goto i c (.done .ctx))
      | _ => none
    else none
  | .takeChan =>
    match c.pc with
    | .wait left σ ch => ((s.chans[ch]?).bind Chan.content).map fun r =>
      s.goto i c (.unregister left σ (c.receive r))
    | _ => none

def State.step (retries : Nat) (s : State) : Label → Option State
  | .request req => some { s with requests := s.requests ++ [req] }
  | .setID request id =>
    if s.inUse request then none
    else (s.requests[request]?).map fun req =>
      { s with requests := s.requests.set request { req with requestID := id } }
  | .invoke request =>
    if s.inUse request then none
    else some { s with calls := s.calls ++ [{ op := .call request }] }
  | .ping σ => some { s with calls := s.calls ++ [{ op := .ping σ }] }
  | .cancel i => (s.calls[i]?).map fun c =>
    { s with calls := s.calls.set i { c with ctxDone := true } }
  | .dial => some { s with streams := s.streams ++ [{}] }
  | .fail σ => (s.streams[σ]?).map fun st => s.failAll σ st
  | .arrive σ k isError => (s.streams[σ]?).bind fun st => (st.due[k]?).bind fun d =>
    -- `readLoop` is behind the last frame; a one-way request is only ever refused
    if st.reading = none ∧ (d.oneWay = true → isError = true) then
      let st := { st with due := st.due.eraseIdx k }
      match st.pending.lookup d.id with
      | none => some { s with streams := s.streams.set σ st }
      | some ch => some { s with streams := s.streams.set σ { st with
          pending := st.pending.filter (·.1 ≠ d.id)
          reading := some (⟨d.id, d.tag, isError⟩, ch) } }
    else none
  | .send σ => (s.streams[σ]?).bind fun st => st.reading.map fun (r, ch) =>
    { s with
      streams := s.streams.set σ { st with reading := none }
      chans := s.chans.modify ch (Chan.put (some r)) }
  | .run i act => (s.calls[i]?).bind fun c => s.run retries i c act

def client (retries : Nat) : System State Label where
  init s := s = {}
  step := State.step retries

/-! ## What a step can do -/

def Res.tag : Res → Option Nat
  | .reply tag | .remote tag => some tag
  | .sent | .ctx | .failed => none

def PC.tag : PC → Option Nat
  | .unregister _ _ res | .judge _ res | .done res => res.tag
  | _ => none

def PC.chan : PC → Option Nat
  | .write _ _ chan => chan
  | .wait _ _ chan => some chan
  | _ => none

def PC.inside : PC → Bool
  | .start | .done _ => false
  | _ => true

structure PC.Goes (old new : PC) : Prop where
  tag : new.tag = none ∨ new.tag = old.tag
  chan : new.chan = none
  inside : new.inside = true → old.inside = true
  begun : new ≠ .start

inductive State.Step (s : State) : Label → State → Prop
  | request {req : Req} : Step s (.request req) { s with requests := s.requests ++ [req] }
  | setID {request : Nat} {id : UInt64} {requests : List Req} :
      Step s (.setID request id) { s with requests }
  | invoke {l : Label} {op : Op} : Step s l { s with calls := s.calls ++ [{ op }] }
  | cancel {i : Nat} {c : Call} : s.calls[i]? = some c →
      Step s (.cancel i) { s with calls := s.calls.set i { c with ctxDone := true } }
  | dial : Step s .dial { s with streams := s.streams ++ [{}] }
  | fail {σ : Nat} {st : Stream} : s.streams[σ]? = some st → Step s (.fail σ) (s.failAll σ st)
  | drop {σ k : Nat} {isError : Bool} {st : Stream} : s.streams[σ]? = some st →
      Step s (.arrive σ k isError)
        { s with streams := s.streams.set σ { st with due := st.due.eraseIdx k } }
  | dispatch {σ k ch : Nat} {isError : Bool} {st : Stream} {d : Due} :
      s.streams[σ]? = some st → st.due[k]? = some d → (d.id, ch) ∈ st.pending →
      Step s (.arrive σ k isError) { s with
        streams := s.streams.set σ { st with
          due := st.due.eraseIdx k
          pending := st.pending.filter (·.1 ≠ d.id)
          reading := some (⟨d.id, d.tag, isError⟩, ch) } }
  | send {σ ch : Nat} {st : Stream} {r : Reply} : s.streams[σ]? = some st →
      st.reading = some (r, ch) →
      Step s (.send σ) { s with
        streams := s.streams.set σ { st with reading := none }
        chans := s.chans.modify ch (Chan.put (some r)) }
  | begin {i : Nat} {c : Call} {id reqID : UInt64} {requests : List Req} {oneWay : Bool} {pc : PC} :
      s.calls[i]? = some c → c.pc = .start → pc.tag = none → pc.chan = none → pc.inside = true →
      id = s.nextID c →
      Step s (.run i .go) { s with
        reqID, requests, calls := s.calls.set i { c with id, begun := true, oneWay, pc } }
  | goes {i : Nat} {c : Call} {act : Act} {pc : PC} : s.calls[i]? = some c → c.pc.Goes pc →
      Step s (.run i act) (s.goto i c pc)
  | register {i left σ : Nat} {c : Call} {st : Stream} : s.calls[i]? = some c →
      c.pc = .register left σ → c.oneWay = false → s.streams[σ]? = some st →
      Step s (.run i .go)
        { s.goto i c (.write left σ (some s.chans.length)) with
          streams := s.streams.set σ { st with pending := (c.id, s.chans.length) :: st.pending }
          chans := s.chans ++ [{ owner := i }] }
  | write {i left σ : Nat} {c : Call} {chan : Option Nat} {st : Stream} : s.calls[i]? = some c →
      c.pc = .write left σ chan → s.streams[σ]? = some st →
      Step s (.run i .go)
        { s.goto i c (written left σ chan) with
          streams := s.streams.set σ { st with due := st.due ++ [⟨c.id, i, c.oneWay⟩] } }
  | broken {i σ : Nat} {c : Call} {st : Stream} {pc : PC} : s.calls[i]? = some c →
      c.pc.Goes pc → s.streams[σ]? = some st →
      Step s (.run i .lose) ((s.failAll σ st).goto i c pc)
  | take {i left σ ch : Nat} {c : Call} {chan : Chan} {r : Option Reply} : s.calls[i]? = some c →
      c.pc = .wait left σ ch → s.chans[ch]? = some chan → chan.content = some r →
      Step s (.run i .takeChan) (s.goto i c (.unregister left σ (c.receive r)))
  | unregister {i left σ : Nat} {c : Call} {res : Res} {st : Stream} : s.calls[i]? = some c →
      c.pc = .unregister left σ res → s.streams[σ]? = some st →
      Step s (.run i .go)
        { s.goto i c (.judge left res) with
          streams := s.streams.set σ { st with pending := st.pending.filter (·.1 ≠ c.id) } }

variable {retries left : Nat} {s s' : State} {i σ : Nat} {c : Call} {st : Stream} {l : Label}
  {res : Res}

theorem goes_leave {left' : Nat} {chan : Option Nat} (none : res.tag = none)
    (at_ : c.pc = .write left' σ chan) : c.pc.Goes (leave left σ chan res) := by
  rw [at_]
  cases chan with
  | none | some => exact ⟨.inl none, rfl, fun _ => rfl, nofun⟩

theorem goes_judge (at_ : c.pc = .judge left res) : c.pc.Goes (c.judge left res) := by
  rw [at_]
  unfold Call.judge
  split
  · split
    · exact ⟨.inl rfl, rfl, fun _ => rfl, nofun⟩
    · exact ⟨.inl rfl, rfl, fun _ => rfl, nofun⟩
  · exact ⟨.inr rfl, rfl, fun _ => rfl, nofun⟩

theorem State.step_begin (found : s.calls[i]? = some c) (start : c.pc = .start)
    (run : s.begin retries i c = some s') : s.Step (.run i .go) s' := by
  unfold State.begin at run
  split at run
  · rename_i request op
    obtain ⟨req, there, rfl⟩ := map_eq_some_iff.mp run
    split
    · rename_i zero
      refine .begin found start rfl rfl rfl ?_
      simp [State.nextID, op, there, if_pos zero]
    · rename_i nonzero
      refine .begin found start rfl rfl rfl ?_
      simp [State.nextID, op, there, if_neg nonzero]
  · rename_i op
    cases run
    refine .begin found start rfl rfl rfl ?_
    simp [State.nextID, op]

theorem State.step_register (found : s.calls[i]? = some c) (at_ : c.pc = .register left σ)
    (stream : s.streams[σ]? = some st) : s.Step (.run i .go) (s.register i c left σ st) := by
  have inside : c.pc.inside = true := by rw [at_]; rfl
  unfold State.register
  split
  · exact .goes found ⟨.inl rfl, rfl, fun _ => inside, nofun⟩
  split
  · exact .goes found ⟨.inl rfl, rfl, fun _ => inside, nofun⟩
  · rename_i waits
    split
    · exact .goes found ⟨.inl rfl, rfl, fun _ => inside, nofun⟩
    · exact .register found at_ (by simpa using waits) stream

theorem State.run_cases {act : Act} (found : s.calls[i]? = some c)
    (run : s.run retries i c act = some s') : s.Step (.run i act) s' := by
  cases act with dsimp only [State.run] at run
  | go =>
    split at run
    · exact State.step_begin found ‹_› run
    · obtain ⟨st, stream, rfl⟩ := map_eq_some_iff.mp run
      exact State.step_register found ‹_› stream
    · obtain ⟨st, stream, rfl⟩ := map_eq_some_iff.mp run
      exact .write found ‹_› stream
    · obtain ⟨st, stream, rfl⟩ := map_eq_some_iff.mp run
      exact .unregister found ‹_› stream
    · cases run
      exact .goes found (goes_judge ‹_›)
    · cases run
  | pick σ =>
    split at run
    · rename_i at_
      obtain ⟨st, -, rfl⟩ := map_eq_some_iff.mp run
      exact .goes found ⟨.inl rfl, rfl, fun _ => by rw [at_]; rfl, nofun⟩
    · cases run
  | lose =>
    split at run
    · cases run
      exact .goes found ⟨.inl rfl, rfl, nofun, nofun⟩
    · rename_i at_
      cases run
      exact .goes found ⟨.inl rfl, rfl, fun _ => by rw [at_]; rfl, nofun⟩
    · obtain ⟨st, stream, rfl⟩ := map_eq_some_iff.mp run
      split
      · exact .goes found (goes_leave rfl ‹_›)
      · exact .broken found (goes_leave rfl ‹_›) stream
    · cases run
  | takeCtx =>
    split at run
    · split at run
      · cases run
        exact .goes found ⟨.inl rfl, rfl, nofun, nofun⟩
      · rename_i at_
        cases run
        exact .goes found ⟨.inl rfl, rfl, fun _ => by rw [at_]; rfl, nofun⟩
      · rename_i at_
        cases run
        exact .goes found ⟨.inl rfl, rfl, fun _ => by rw [at_]; rfl, nofun⟩
      · rename_i at_
        cases run
        exact .goes found ⟨.inl rfl, rfl, fun _ => by rw [at_]; rfl, nofun⟩
      · cases run
        exact .goes found ⟨.inl rfl, rfl, nofun, nofun⟩
      · cases run
    · cases run
  | takeChan =>
    split at run
    · obtain ⟨r, received, rfl⟩ := map_eq_some_iff.mp run
      obtain ⟨chan, there, content⟩ := bind_eq_some_iff.mp received
      exact .take found ‹_› there content
    · cases run

theorem State.step_cases (step : s.step retries l = some s') : s.Step l s' := by
  cases l with
  | request =>
    cases step
    exact .request
  | setID =>
    dsimp only [State.step] at step
    split at step
    · cases step
    · obtain ⟨-, -, rfl⟩ := map_eq_some_iff.mp step
      exact .setID
  | invoke =>
    dsimp only [State.step] at step
    split at step
    · cases step
    · cases step
      exact .invoke
  | ping =>
    cases step
    exact .invoke
  | cancel =>
    obtain ⟨c, found, rfl⟩ := map_eq_some_iff.mp step
    exact .cancel found
  | dial =>
    cases step
    exact .dial
  | fail =>
    obtain ⟨st, stream, rfl⟩ := map_eq_some_iff.mp step
    exact .fail stream
  | arrive σ k isError =>
    obtain ⟨st, stream, answered⟩ := bind_eq_some_iff.mp step
    obtain ⟨d, due, read⟩ := bind_eq_some_iff.mp answered
    split at read
    · dsimp only at read
      split at read
      · cases read
        exact .drop stream
      · rename_i ch waiting
        cases read
        exact .dispatch stream due (mem_of_lookup waiting)
    · cases read
  | send =>
    obtain ⟨st, stream, sent⟩ := bind_eq_some_iff.mp step
    obtain ⟨⟨r, ch⟩, reading, rfl⟩ := map_eq_some_iff.mp sent
    exact .send stream reading
  | run =>
    obtain ⟨c, found, run⟩ := bind_eq_some_iff.mp step
    exact State.run_cases found run

end Soil.Net.Invocation
