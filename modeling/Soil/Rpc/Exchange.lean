import Soil.Rpc.RoundTrip
import Soil.Rpc.Server
import Soil.System

/-!
# Exchanges on pooled connections

`Client.sendAndReceive` of `client.go`, called any number of times concurrently: it takes a
connection from the pool, writes the request, reads the response with two calls of `Read`
unless the call is one-way, and puts the connection back, whatever has happened.  The server
runs the rounds of `handleConn` on every connection.  A caller that has left for its context
changes nothing: its exchange goes on.
-/

namespace Soil.Rpc.Exchange

/-! ## Connections -/

structure Wire where
  up : List Byte := []
  down : List Byte := []
  closed : Bool := false
  spoiled : Bool := false
  log : List (List Byte × List Byte) := []
  deriving DecidableEq

variable {Ty Val : Type}

def Wire.serve (server : Server Ty Val) (limit : Nat → Nat) (wire : Wire) : Option Wire :=
  if wire.closed then none
  else
    match receiveRequestStream ⟨wire.up, limit⟩ with
    | .error .eof => none
    | .error (.panic _) => some { wire with closed := true }
    | .ok (data, conn) =>
      match server.handleMessage data conn with
      | .panicked _ | .closed => some { wire with up := conn.bytes, closed := true }
      | .answered reply conn => some { wire with
          up := conn.bytes
          down := wire.down ++ reply
          log := wire.log ++ [(data, reply)] }
      | .oneWay conn => some { wire with up := conn.bytes }

/-! ## Calls -/

inductive CallErr where
  | pool
  | write
  | read
  | text (t : String)
  deriving DecidableEq

inductive PC where
  | get
  | write (wire since : Nat)
  | header (wire since : Nat)
  | rest (wire since : Nat) (stream : List Byte) (full : Bool)
  | put (wire since : Nat) (result : Except CallErr (List Byte)) (complete : Bool)
  | done (wire since : Nat) (result : Except CallErr (List Byte))
  | failed (err : CallErr)
  deriving DecidableEq

structure Call where
  request : Request
  bytes : List Byte
  pc : PC := .get

structure State where
  wires : List Wire
  idle : List Nat
  connCnt : Nat
  calls : List Call := []
  crashed : Bool := false

def maxIdleCnt : Nat := 10

def maxConnCap : Nat := 20

def newClient : State where
  wires := [{}]
  idle := [0]
  connCnt := 1

inductive Act where
  | get
  | dial
  | getFail
  | write (broken : Option Nat)
  | read (limit : Nat)
  | readFail
  | put
  deriving DecidableEq

def State.goTo (s : State) (i : Nat) (c : Call) (pc : PC) : State :=
  { s with calls := s.calls.set i { c with pc } }

def State.setWire (s : State) (w : Nat) (f : Wire → Wire) : State :=
  { s with wires := s.wires.modify w f }

def oneWayErr : CallErr := .text "mirco: one-way调用，不必处理结果"

def State.turn (s : State) (i : Nat) (c : Call) : Act → Option State
  | .get =>
    match c.pc, s.idle.getLast? with
    | .get, some w => (s.wires[w]?).map fun wire =>
      { s.goTo i c (.write w wire.log.length) with idle := s.idle.dropLast }
    | _, _ => none
  | .dial =>
    if c.pc = .get ∧ s.idle = [] ∧ s.connCnt < maxConnCap then
      some { s.goTo i c (.write s.wires.length 0) with
        wires := s.wires ++ [{}]
        connCnt := s.connCnt + 1 }
    else none
  | .getFail => if c.pc = .get then some (s.goTo i c (.failed .pool)) else none
  | .write none =>
    match c.pc with
    | .write w since => some <| (s.setWire w fun wire => { wire with up := wire.up ++ c.bytes
      }).goTo
        i c (if c.request.ctx.oneWay then .put w since (.error oneWayErr) true else .header w since)
    | _ => none
  | .write (some k) =>
    match c.pc with
    | .write w since => some <| (s.setWire w fun wire =>
      { wire with up := wire.up ++ c.bytes.take k }).goTo
      i c (.put w since (.error .write) false)
    | _ => none
  | .read limit =>
    match c.pc with
    | .header w since => (s.wires[w]?).bind fun wire =>
      match Conn.read ⟨wire.down, fun _ => limit⟩ 8 with
      | .error _ => none
      | .ok (bs, conn) =>
        let s := s.setWire w fun wire => { wire with down := conn.bytes }
        match startStream (padTo 8 bs) with
        | .error _ => some { s with crashed := true }
        | .ok stream => some (s.goTo i c (.rest w since stream (bs.length == 8)))
    | .rest w since stream full => (s.wires[w]?).bind fun wire =>
      match Conn.read ⟨wire.down, fun _ => limit⟩ (stream.length - 8) with
      | .error _ => none
      | .ok (bs, conn) => some <| (s.setWire w fun wire => { wire with down := conn.bytes }).goTo
          i c (.put w since (.ok (overwrite stream 8 bs)) (full && bs.length == stream.length - 8))
    | _ => none
  | .readFail =>
    match c.pc with
    | .header w since | .rest w since _ _ => some (s.goTo i c (.put w since (.error .read) false))
    | _ => none
  | .put =>
    match c.pc with
    | .put w since result complete =>
      let s := (s.setWire w fun wire =>
        { wire with spoiled := wire.spoiled || !complete }).goTo i c (.done w since result)
      if s.idle.length < maxIdleCnt then some { s with idle := s.idle ++ [w] }
      else some { s with connCnt := s.connCnt - 1 }
    | _ => none

inductive Label (Ty Val : Type) where
  | call (request : Request)
  | expire (k : Nat)
  | go (i : Nat) (act : Act)
  | serve (wire : Nat) (server : Server Ty Val) (limit : Nat → Nat)

def State.step (s : State) (l : Label Ty Val) : Option State :=
  if s.crashed then none
  else
    match l with
    | .call request =>
      match encodeRequest request with
      | .ok bytes => some { s with calls := s.calls ++ [{ request, bytes }] }
      | .error _ => none
    | .expire k =>
      if k < s.idle.length then
        some { s with idle := s.idle.eraseIdx k, connCnt := s.connCnt - 1 }
      else none
    | .go i act => (s.calls[i]?).bind fun c => s.turn i c act
    | .serve w server limit => (s.wires[w]?).bind fun wire => (wire.serve server limit).map
      fun wire =>
      { s with wires := s.wires.set w wire }

def client (Ty Val : Type) : System State (Label Ty Val) where
  init s := s = newClient
  step := State.step

def PC.wire : PC → Option Nat
  | .write w _ | .header w _ | .rest w _ _ _ | .put w _ _ _ => some w
  | _ => none

/-! ## The condition -/

def Fills (bytes : List Byte) (limit n : Nat) : Prop := n ≤ limit + 1 ∧ n ≤ bytes.length

instance (bytes : List Byte) (limit n : Nat) : Decidable (Fills bytes limit n) :=
  inferInstanceAs (Decidable (_ ∧ _))

def ServerFills (wire : Wire) (limit : Nat → Nat) : Prop :=
  Fills wire.up (limit 0) 8 ∧ announced (wire.up.take 8) ≤ wire.up.length ∧
    announced (wire.up.take 8) - 8 ≤ limit 1 + 1

def State.turnSound (s : State) (c : Call) : Act → Prop
  | .read limit =>
    match c.pc with
    | .header w _ => ∀ wire ∈ s.wires[w]?, Fills wire.down limit 8
    | .rest w _ stream _ => ∀ wire ∈ s.wires[w]?, Fills wire.down limit (stream.length - 8)
    | _ => True
  | .write (some _) | .readFail => False
  | _ => True

/-- Requests have their lengths and no stray separators; no `Write` or `Read` on a connection
fails, and every `Read`, of the client and of the server, fills its buffer. -/
def Sound (s : State) : Label Ty Val → Prop
  | .call request => request.Measured ∧ request.encodedLength < 4294967296 ∧ request.Separable
  | .go i act => ∀ c ∈ s.calls[i]?, s.turnSound c act
  | .serve w _ limit => ∀ wire ∈ s.wires[w]?, ServerFills wire limit
  | .expire _ => True

end Soil.Rpc.Exchange
