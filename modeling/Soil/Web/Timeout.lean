import Soil.System
import Soil.Web.Route

/-!
# Requests behind the timeout middleware

`HTTPServer.ServeHTTP` with the timeout middleware in its chain.  The `Context` of a
request comes from a pool, is reset, filled, handed to the chain, flushed, reset again and
put back.  The timeout middleware runs what is inside it, `serve` and the handler included,
in a goroutine of its own and leaves when the time is up, while that goroutine goes on with
its pointer to the `Context`.
-/

namespace Soil.Web.Timeout

/-! ## Contexts and responses -/

structure Req where
  owner : Nat
  method : Text
  path : Text
  timed : Bool := false
  deriving DecidableEq

structure Fields where
  pathParams : Text → Option Text := fun _ => none
  respStatusCode : Int := 0
  respData : Text := []
  respHeaders : List (Text × Text) := []
  matchedRoute : Text := []
  requestID : Text := []
  cacheQueryValues : Option Text := none
  done : Bool := false

structure Context where
  req : Option Req := none
  resp : Option Nat := none
  fields : Fields := {}

def Fields.setHeader (key value : Text) (f : Fields) : Fields :=
  { f with respHeaders := f.respHeaders.filter (·.1 ≠ key) ++ [(key, value)] }

inductive RespOp where
  | header (f : List (Text × Text) → List (Text × Text))
  | writeHeader (code : Int)
  | write (data : Text)

structure Writer where
  header : List (Text × Text) := []
  sent : Option (Int × List (Text × Text)) := none
  body : Text := []
  deriving DecidableEq

def Writer.apply (w : Writer) : RespOp → Writer
  | .header f => { w with header := f w.header }
  | .writeHeader code => { w with sent := w.sent.or (some (code, w.header)) }
  | .write data => { w with sent := w.sent.or (some (200, w.header)), body := w.body ++ data }

def Writer.applyAll (w : Writer) (ops : List RespOp) : Writer := ops.foldl Writer.apply w

def Writer.status (w : Writer) : Int := (w.sent.getD (200, w.header)).1

/-! ## Programs -/

inductive Prog where
  | ret
  | panic
  | read (next : Context → Prog)
  | write (f : Fields → Fields) (next : Prog)
  | resp (op : RespOp) (next : Prog)

def Prog.respString (code : Int) (text : Text) (next : Prog) : Prog :=
  .write (Fields.setHeader (utf8 "Content-Type") (utf8 "text/plain; charset=utf-8")) <|
    .write (fun f => { f with respStatusCode := code }) <|
      .write (fun f => { f with respData := text }) next

def Prog.serve {H : Type} (answer : Text → Text → Answer H) (handle : H → Prog) : Prog :=
  .read fun ctx =>
    match ctx.req with
    | none => .panic
    | some req =>
      match answer req.method req.path with
      | .reply status body allow =>
        .write (fun f => { f with respStatusCode := status }) <|
          .write (fun f => { f with respData := body }) <|
            match allow with
            | some methods => .write (Fields.setHeader (utf8 "Allow") methods) .ret
            | none => .ret
      | .handled h pathParams matchedRoute =>
        .write (fun f => { f with pathParams }) <|
          .write (fun f => { f with matchedRoute }) (handle h)

structure Turn where
  rest : Prog
  ctx : Context
  ops : List RespOp := []
  seen : List Context := []

def Prog.step (c : Context) : Prog → Option Turn
  | .ret | .panic => none
  | .read next => some { rest := next c, ctx := c, seen := [c] }
  | .write f next => some { rest := next, ctx := { c with fields := f c.fields } }
  | .resp op next =>
    match c.resp with
    | none => some { rest := .panic, ctx := c }
    | some _ => some { rest := next, ctx := c, ops := [op] }

/-! ## One request -/

structure Job where
  method : Text := []
  path : Text := []
  before : Prog := .ret
  inner : Prog
  after : Prog := .ret

inductive PC where
  | get
  | reset
  | bind
  | before (p : Prog)
  | arm
  | select
  | after (p : Prog)
  | flush
  | headers
  | status
  | data
  | clear
  | put
  | done

structure Local where
  main : PC := .get
  inner : Option Prog := none
  ended : Option Bool := none
  expired : Bool := false
  timedOut : Bool := false
  seen : List Context := []

inductive Act where
  | get (choice : Option Nat)
  | go
  | inner
  | expire
  | panicked
  | finished
  | timeout
  deriving DecidableEq

def answer (code : Int) (text : String) (c : Context) : Context :=
  { c with fields := { c.fields with respStatusCode := code, respData := utf8 text } }

def Local.step (q : Nat) (job : Job) (l : Local) (c : Context) :
    Act → Option (Local × Context × List RespOp)
  | .go =>
    match l.main with
    | .reset => some ({ l with main := .bind }, {}, [])
    | .bind => some ({ l with main := .before job.before },
        { c with req := some ⟨q, job.method, job.path, false⟩, resp := some q }, [])
    | .before .ret => some ({ l with main := .arm }, c, [])
    | .before .panic => some ({ l with main := .clear }, c, [])
    | .before p => (p.step c).map fun t =>
      ({ l with main := .before t.rest, seen := l.seen ++ t.seen }, t.ctx, t.ops)
    | .arm =>
      match c.req with
      | none => some ({ l with main := .clear }, c, [])
      | some req => some ({ l with main := .select, inner := some job.inner },
          { c with req := some { req with timed := true } }, [])
    | .after .ret => some ({ l with main := .flush }, c, [])
    | .after .panic => some ({ l with main := .clear }, c, [])
    | .after p => (p.step c).map fun t =>
      ({ l with main := .after t.rest, seen := l.seen ++ t.seen }, t.ctx, t.ops)
    | .flush => some ({ l with main := if c.fields.done then .clear else .headers }, c, [])
    | .headers => some ({ l with main := .status }, c,
        c.fields.respHeaders.map fun kv => .header (· ++ [kv]))
    | .status => some ({ l with main := .data }, c,
        if 0 < c.fields.respStatusCode then [.writeHeader c.fields.respStatusCode] else [])
    | .data => some ({ l with main := .clear }, c,
        if c.fields.respData ≠ [] then [.write c.fields.respData] else [])
    | .clear => some ({ l with main := .put }, {}, [])
    | _ => none
  | .inner =>
    match l.ended, l.inner with
    | none, some .ret => some ({ l with ended := some false }, c, [])
    | none, some .panic => some ({ l with ended := some true }, c, [])
    | none, some p => (p.step c).map fun t =>
      ({ l with inner := some t.rest, seen := l.seen ++ t.seen }, t.ctx, t.ops)
    | _, _ => none
  | .expire => if l.inner.isSome then some ({ l with expired := true }, c, []) else none
  | .panicked =>
    match l.main, l.ended with
    | .select, some true => some ({ l with main := .after job.after },
        answer 500 "Internal Server Error" c, [])
    | _, _ => none
  | .finished =>
    match l.main, l.ended with
    | .select, some false =>
      if l.expired then some ({ l with main := .after job.after, timedOut := true },
        answer 503 "Service Unavailable" c, [])
      else some ({ l with main := .after job.after }, c, [])
    | _, _ => none
  | .timeout =>
    match l.main, l.expired with
    | .select, true => some ({ l with main := .after job.after, timedOut := true },
        answer 503 "Service Unavailable" c, [])
    | _, _ => none
  | .get _ => none

/-! ## The server -/

structure Proc where
  local_ : Local := {}
  ptr : Option Nat := none

structure State where
  procs : List Proc
  writers : List Writer
  ctxs : List Context := []
  pool : List Nat := []

def start (jobs : List Job) : State :=
  { procs := jobs.map fun _ => {}, writers := jobs.map fun _ => {} }

def State.write (s : State) (c : Context) (ops : List RespOp) : List Writer :=
  match c.resp with
  | some r => s.writers.modify r (·.applyAll ops)
  | none => s.writers

def State.step (jobs : List Job) (s : State) (label : Nat × Act) : Option State :=
  let (q, act) := label
  (jobs[q]?).bind fun job => (s.procs[q]?).bind fun p =>
    match act, p.local_.main with
    | .get none, .get => some { s with
        ctxs := s.ctxs ++ [{}]
        procs := s.procs.set q ⟨{ p.local_ with main := .reset }, some s.ctxs.length⟩ }
    | .get (some k), .get => (s.pool[k]?).map fun a => { s with
        pool := s.pool.eraseIdx k
        procs := s.procs.set q ⟨{ p.local_ with main := .reset }, some a⟩ }
    | .go, .put => p.ptr.map fun a => { s with
        pool := s.pool ++ [a]
        procs := s.procs.set q ⟨{ p.local_ with main := .done }, some a⟩ }
    | act, _ => p.ptr.bind fun a => (s.ctxs[a]?).bind fun c =>
      (p.local_.step q job c act).map fun (l, c', ops) => { s with
        procs := s.procs.set q ⟨l, some a⟩
        ctxs := s.ctxs.set a c'
        writers := s.write c ops }

def server (jobs : List Job) : System State (Nat × Act) where
  init s := s = start jobs
  step := State.step jobs

/-! ## A request of its own -/

structure Alone where
  local_ : Local := {}
  ctx : Context := {}
  writer : Writer := {}

def Alone.step (q : Nat) (job : Job) (u : Alone) (act : Act) : Option Alone :=
  match act, u.local_.main with
  | .get _, .get => some { u with local_ := { u.local_ with main := .reset } }
  | .go, .put => some { u with local_ := { u.local_ with main := .done } }
  | act, _ => (u.local_.step q job u.ctx act).map fun (l, c, ops) =>
    { local_ := l, ctx := c, writer := u.writer.applyAll ops }

def alone (q : Nat) (job : Job) : System Alone Act where
  init u := u = {}
  step := Alone.step q job

end Soil.Web.Timeout
