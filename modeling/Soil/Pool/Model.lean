import Soil.Basic
import Soil.System

/-!
# The connection pool

`Pool` with any number of concurrent `Get`, `Put`, `Close`, `MarkUnhealthy` and `Release`
calls and the goroutine of `backgroundCleanup`.  `Lock`, `Unlock`, `cond.Wait`, `Signal` and
`Broadcast` are steps of their own.  Between them a goroutine that holds the mutex runs a
`Section` and one that does not hold it runs an `Outside` step.
-/

namespace Soil.Pool

/-! ## Connections -/

structure Config where
  maxIdleCnt : Nat
  maxConnCap : Nat
  maxIdleTime : Int
  maxConnLifetime : Int
  hasPing : Bool
  room : maxIdleCnt ≤ maxConnCap

structure PoolConn where
  conn : Option Nat := none
  createTime : Int := 0
  lastActiveTime : Int := 0
  returned : Bool := false
  deriving DecidableEq, Repr

def Config.idleTooLong (cfg : Config) (pc : PoolConn) (now : Int) : Bool :=
  pc.lastActiveTime + cfg.maxIdleTime < now

def Config.tooOld (cfg : Config) (pc : PoolConn) (now : Int) : Bool :=
  0 < cfg.maxConnLifetime && pc.createTime + cfg.maxConnLifetime < now

def Config.expired (cfg : Config) (pc : PoolConn) (now : Int) : Bool :=
  cfg.idleTooLong pc now || cfg.tooOld pc now

/-- Where the connections of a pool are.  `idleConns` is taken from and appended to at its
end, `activeConns` is a set, and `connPool` holds what was put into the `sync.Pool`.  The
objects `0, …, pcCnt - 1` of the heap `pcs` exist. -/
structure Conns where
  connCnt : Int
  idleConns : List Nat
  activeConns : List Nat := []
  pcs : Nat → PoolConn
  pcCnt : Nat
  closes : List Nat
  connPool : List Nat := []

namespace Conns

@[simps] def setPc (c : Conns) (p : Nat) (f : PoolConn → PoolConn) : Conns :=
  { c with pcs := Function.update c.pcs p (f (c.pcs p)) }

@[simps] def closeConnLocked (c : Conns) (p : Nat) : Conns :=
  { c.setPc p fun pc => { pc with conn := none } with
    closes := match (c.pcs p).conn with
      | some conn => c.closes.modify conn (· + 1)
      | none => c.closes
    connPool := p :: c.connPool
    connCnt := c.connCnt - 1 }

def connPoolGet (c : Conns) (pick : Option Nat) : Conns × Nat :=
  match pick.filter (· ∈ c.connPool) with
  | some p => ({ c with connPool := c.connPool.erase p }, p)
  | none => ({ c with pcCnt := c.pcCnt + 1 }, c.pcCnt)

def wrapConn (c : Conns) (now : Int) (pick : Option Nat) : Conns × Nat :=
  let (c', p) := c.connPoolGet pick
  ({ c'.setPc p fun _ =>
      { conn := some c.closes.length, createTime := now, lastActiveTime := now } with
      closes := c.closes ++ [0] }, p)

def setReturned (c : Conns) (p : Nat) (returned : Bool) : Conns :=
  c.setPc p fun pc => { pc with returned }

def touch (c : Conns) (p : Nat) (now : Int) : Conns :=
  c.setPc p fun pc => { pc with lastActiveTime := now }

@[simps] def activate (c : Conns) (p : Nat) : Conns :=
  { c with activeConns := c.activeConns.insert p }

@[simps] def deactivate (c : Conns) (p : Nat) : Conns :=
  { c with activeConns := c.activeConns.filter (· ≠ p) }

@[simps] def push (c : Conns) (p : Nat) : Conns :=
  { c with idleConns := c.idleConns ++ [p] }

section

variable (c : Conns) (p q : Nat)

theorem closeConnLocked_conn :
    ((c.closeConnLocked p).pcs q).conn = if q = p then none else (c.pcs q).conn := by
  by_cases same : q = p <;> simp [same]

@[simp] theorem closeConnLocked_returned :
    ((c.closeConnLocked p).pcs q).returned = (c.pcs q).returned := by
  by_cases same : q = p <;> simp [same]

@[simp] theorem setReturned_conn (returned : Bool) :
    ((c.setReturned p returned).pcs q).conn = (c.pcs q).conn := by
  by_cases same : q = p <;> simp [setReturned, same]

theorem setReturned_returned (returned : Bool) :
    ((c.setReturned p returned).pcs q).returned = if q = p then returned else (c.pcs q).returned :=
      by
  by_cases same : q = p <;> simp [setReturned, same]

@[simp] theorem touch_conn (now : Int) : ((c.touch p now).pcs q).conn = (c.pcs q).conn := by
  by_cases same : q = p <;> simp [touch, same]

@[simp] theorem touch_returned (now : Int) :
    ((c.touch p now).pcs q).returned = (c.pcs q).returned := by
  by_cases same : q = p <;> simp [touch, same]

end

end Conns

open Conns

theorem wrapConn_cases (c : Conns) (now : Int) (pick : Option Nat) :
    (∃ p, pick = some p ∧ p ∈ c.connPool ∧ (c.wrapConn now pick).2 = p ∧
      (c.wrapConn now pick).1.connPool = c.connPool.erase p ∧
      (c.wrapConn now pick).1.pcCnt = c.pcCnt) ∨
    (c.wrapConn now pick).2 = c.pcCnt ∧ (c.wrapConn now pick).1.connPool = c.connPool ∧
      (c.wrapConn now pick).1.pcCnt = c.pcCnt + 1 := by
  cases pick with
  | none => exact .inr ⟨rfl, rfl, rfl⟩
  | some p =>
    by_cases there : p ∈ c.connPool
    · refine .inl ⟨p, rfl, there, ?_⟩
      simp [wrapConn, connPoolGet, Option.filter, there]
    · refine .inr ?_
      simp [wrapConn, connPoolGet, Option.filter, there]

theorem wrapConn_lists (c : Conns) (now : Int) (pick : Option Nat) :
    (c.wrapConn now pick).1.idleConns = c.idleConns ∧
      (c.wrapConn now pick).1.activeConns = c.activeConns ∧
      (c.wrapConn now pick).1.connCnt = c.connCnt := by
  unfold wrapConn connPoolGet
  cases pick.filter (· ∈ c.connPool) <;> exact ⟨rfl, rfl, rfl⟩

theorem wrapConn_pcs (c : Conns) (now : Int) (pick : Option Nat) :
    (c.wrapConn now pick).1.closes = c.closes ++ [0] ∧
      (c.wrapConn now pick).1.pcs = Function.update c.pcs (c.wrapConn now pick).2
        { conn := some c.closes.length, createTime := now, lastActiveTime := now } := by
  unfold wrapConn connPoolGet
  cases pick.filter (· ∈ c.connPool) <;> exact ⟨rfl, rfl⟩

/-! ## Goroutines -/

inductive Err where
  | pool (text : String)
  | ctx
  | factory
  deriving DecidableEq, Repr

def errPoolClosed : Err := .pool "micro: 连接池已关闭"

inductive Ret where
  | ok (p : Nat)
  | err (err : Err)
  | void
  deriving DecidableEq, Repr

inductive Section where
  | get
  | getIdleConnLocked (now : Int)
  | getPinged (p : Nat) (ok : Bool) (now : Int)
  | getMade (p : Nat)
  | getClose (p : Nat)
  | waitWithContext
  | awake
  | stop (err : Option Err)
  | putConn (p : Nat)
  | putPinged (p : Nat) (ok : Bool)
  | putIdle (p : Nat)
  | markUnhealthy (p : Nat)
  | put
  | release
  | releaseAll
  | cleanup (now : Int)
  | cleanupClose (p : Nat) (rest : List Nat)
  deriving DecidableEq, Repr

inductive Outside where
  | getPing (p : Nat) (now : Int)
  | factory
  | factoryFailed
  | getClosing (p : Nat)
  | putPing (p : Nat)
  | closeCh
  | releaseBroadcast
  | releaseWait
  | select
  | closeAll (ps : List Nat)
  | done (ret : Ret)
  deriving DecidableEq, Repr

inductive Return where
  | putConn
  | markUnhealthy
  deriving DecidableEq, Repr

def Return.sec (p : Nat) : Return → Section
  | .putConn => .putConn p
  | .markUnhealthy => .markUnhealthy p

inductive PC where
  | returns (call : Return) (g p : Nat)
  | lock (sec : Section)
  | held (sec : Section)
  | wait
  | signal
  | broadcast
  | unlock (out : Outside)
  | free (out : Outside)
  | asleep
  deriving DecidableEq, Repr

inductive Callback where
  | none
  | registered
  | started
  deriving DecidableEq, Repr

structure Thread where
  pc : PC
  ctxDone : Bool := false
  callback : Callback := .none
  borrowed : Bool := false
  conn : Option Nat := none
  deriving DecidableEq, Repr

structure State extends Conns where
  closed : Bool := false
  released : Bool := false
  mutex : Option Nat := none
  closeCh : Bool := false
  threads : List Thread

/-- What the environment decides in a step: the time, whether a ping or the factory
succeeds (or whether `select` takes the tick), which object `sync.Pool` hands out, and whom
`Signal` wakes. -/
structure Input where
  now : Int := 0
  ok : Bool := true
  pick : Option Nat := none
  wake : Nat := 0
  deriving DecidableEq, Repr

inductive Op where
  | get
  | putConn (g : Nat)
  | markUnhealthy (g : Nat)
  | put
  | release
  deriving DecidableEq, Repr

inductive Label where
  | call (op : Op)
  | cancel (t : Nat)
  | fire (t : Nat)
  | callback (t : Nat)
  | run (t : Nat) (inp : Input)
  deriving DecidableEq, Repr

@[simps] def Thread.goto (th : Thread) (pc : PC) : Thread := { th with pc }

@[simps] def Thread.obtain (th : Thread) (p : Nat) (conn : Option Nat) : Thread :=
  { th with pc := .unlock (.done (.ok p)), borrowed := true, conn }

def Thread.wake (th : Thread) : Thread :=
  if th.pc = .asleep then th.goto (.lock .awake) else th

@[simps] def Thread.giveUp (th : Thread) : Thread := { th with borrowed := false }

@[simps toConns closed released mutex closeCh threads]
def State.setThread (s : State) (t : Nat) (th : Thread) : State :=
  { s with threads := s.threads.set t th }

@[simps toConns closed released mutex closeCh threads]
def State.wakeAll (s : State) : State := { s with threads := s.threads.map Thread.wake }

/-! ## Sections under the mutex -/

def Conns.take (c : Conns) (th : Thread) (p : Nat) : Conns × Thread :=
  ((c.setReturned p false).activate p, th.obtain p (c.pcs p).conn)

def Conns.releaseAll (c : Conns) : Conns :=
  let c := { c.idleConns.foldl closeConnLocked c with idleConns := [] }
  { c.activeConns.foldl closeConnLocked c with activeConns := [], connCnt := 0 }

def Conns.exec (cfg : Config) (closed : Bool) (c : Conns) (th : Thread) (inp : Input) :
    Section → Conns × Thread
  | .get =>
    if closed then (c, th.goto (.unlock (.done (.err errPoolClosed))))
    else (c, th.goto (.held (.getIdleConnLocked inp.now)))
  | .getIdleConnLocked now =>
    match c.idleConns.getLast? with
    | none =>
      if c.connCnt < cfg.maxConnCap then
        ({ c with connCnt := c.connCnt + 1 }, th.goto (.unlock .factory))
      else (c, th.goto (.held .waitWithContext))
    | some p =>
      let c := { c with idleConns := c.idleConns.dropLast }
      if cfg.expired (c.pcs p) now then
        (c.closeConnLocked p, th.goto (.held (.getIdleConnLocked now)))
      else if cfg.hasPing then (c, th.goto (.unlock (.getPing p now)))
      else c.take th p
  | .getPinged p ok now =>
    if closed then (c.closeConnLocked p, th.goto (.unlock (.done (.err errPoolClosed))))
    else if ok then c.take th p
    else (c.closeConnLocked p, th.goto (.held (.getIdleConnLocked now)))
  | .getMade p =>
    if closed then (c, th.goto (.unlock (.getClosing p)))
    else (c.activate p, th.obtain p (c.pcs p).conn)
  | .getClose p => (c.closeConnLocked p, th.goto (.unlock (.done (.err errPoolClosed))))
  | .waitWithContext =>
    if th.ctxDone then (c, th.goto (.unlock (.done (.err .ctx))))
    else (c, { th with pc := .wait, callback := .registered })
  | .awake =>
    if closed then (c, th.goto (.held (.stop (some errPoolClosed))))
    else if th.ctxDone then (c, th.goto (.held (.stop (some .ctx))))
    else (c, th.goto (.held (.stop none)))
  | .stop err =>
    -- a callback that has started is not taken back
    let th := if th.callback = .registered then { th with callback := .none } else th
    match err with
    | some err => (c, th.goto (.unlock (.done (.err err))))
    | none => (c, th.goto (.held (.getIdleConnLocked inp.now)))
  | .putConn p =>
    if closed then (c.closeConnLocked p, th.goto (.unlock (.done (.err errPoolClosed))))
    else
      let c := c.deactivate p
      if cfg.tooOld (c.pcs p) inp.now then (c.closeConnLocked p, th.goto .broadcast)
      else if cfg.hasPing then (c, th.goto (.unlock (.putPing p)))
      else (c, th.goto (.held (.putIdle p)))
  | .putPinged p ok =>
    if ok then (c, th.goto (.held (.putIdle p)))
    else (c.closeConnLocked p, th.goto .broadcast)
  | .putIdle p =>
    let c := c.touch p inp.now
    if c.idleConns.length < cfg.maxIdleCnt then (c.push p, th.goto .signal)
    else (c.closeConnLocked p, th.goto .broadcast)
  | .markUnhealthy p => ((c.deactivate p).closeConnLocked p, th.goto .broadcast)
  | .put =>
    if closed then
      ({ c with closes := c.closes ++ [1] }, th.goto (.unlock (.done (.err errPoolClosed))))
    else
      let (c, p) := { c with connCnt := c.connCnt + 1 }.wrapConn inp.now inp.pick
      if c.idleConns.length < cfg.maxIdleCnt then (c.push p, th.goto .signal)
      else (c.closeConnLocked p, th.goto (.unlock (.done .void)))
  | .release => (c, th.goto (.unlock (if closed then .done .void else .closeCh)))
  | .releaseAll => (c.releaseAll, th.goto (.unlock (.done .void)))
  | .cleanup now =>
    if closed then (c, th.goto (.unlock (.done .void)))
    else
      let old := c.idleConns.reverse.filter fun p => cfg.expired (c.pcs p) now
      ({ c with idleConns := c.idleConns.filter fun p => !cfg.expired (c.pcs p) now },
        th.goto (.unlock (if old = [] then .select else .closeAll old)))
  | .cleanupClose p rest => (c.closeConnLocked p, th.goto (.unlock (.closeAll rest)))

/-! ## Steps outside the mutex -/

def State.compareAndSwap (s : State) (t : Nat) (th : Thread) (call : Return) (g p : Nat) : State :=
  let s' := { s with threads := s.threads.modify g Thread.giveUp }
  if (s.pcs p).returned then s'.setThread t (th.goto (.free (.done .void)))
  else { s'.setThread t (th.goto (.lock (call.sec p))) with toConns := s.setReturned p true }

def State.outside (s : State) (t : Nat) (th : Thread) (inp : Input) : Outside → Option State
  | .getPing p now => some (s.setThread t (th.goto (.lock (.getPinged p inp.ok now))))
  | .factory =>
    if inp.ok then
      let (c, p) := s.wrapConn inp.now inp.pick
      some { s.setThread t (th.goto (.lock (.getMade p))) with toConns := c }
    else some { s.setThread t (th.goto (.free .factoryFailed)) with connCnt := s.connCnt - 1 }
  | .factoryFailed => some (s.wakeAll.setThread t (th.goto (.free (.done (.err .factory)))))
  | .getClosing p => some (s.setThread t (th.goto (.lock (.getClose p))))
  | .putPing p => some (s.setThread t (th.goto (.lock (.putPinged p inp.ok))))
  | .closeCh => some { s.setThread t (th.goto (.free .releaseBroadcast)) with closeCh := true }
  | .releaseBroadcast => some (s.wakeAll.setThread t (th.goto (.free .releaseWait)))
  | .releaseWait =>
    if (s.threads[0]?).map Thread.pc = some (.free (.done .void)) then
      some (s.setThread t (th.goto (.lock .releaseAll)))
    else none
  | .select =>
    if inp.ok then some (s.setThread t (th.goto (.lock (.cleanup inp.now))))
    else if s.closeCh then some (s.setThread t (th.goto (.free (.done .void))))
    else none
  | .closeAll [] => some (s.wakeAll.setThread t (th.goto (.free .select)))
  | .closeAll (p :: rest) => some (s.setThread t (th.goto (.lock (.cleanupClose p rest))))
  | .done _ => none

/-! ## The system -/

def State.run (cfg : Config) (s : State) (t : Nat) (th : Thread) (inp : Input) : Option State :=
  match th.pc with
  | .returns call g p => some (s.compareAndSwap t th call g p)
  | .lock sec =>
    if s.mutex = none then some { s.setThread t (th.goto (.held sec)) with mutex := some t }
    else none
  | .held sec =>
    let (c, th') := s.exec cfg s.closed th inp sec
    some { s.setThread t th' with
      toConns := c
      closed := s.closed || sec = .release
      released := s.released || sec = .releaseAll }
  | .wait => some { s.setThread t (th.goto .asleep) with mutex := none }
  | .signal =>
    match (s.threads[inp.wake]?).map Thread.pc with
    | some .asleep => some { s with
        threads := (s.threads.modify inp.wake Thread.wake).set t
          (th.goto (.unlock (.done .void))) }
    | _ =>
      -- a signal is lost only if nobody sleeps
      if s.threads.all (·.pc ≠ .asleep) then
        some (s.setThread t (th.goto (.unlock (.done .void))))
      else none
  | .broadcast => some (s.wakeAll.setThread t (th.goto (.unlock (.done .void))))
  | .unlock out => some { s.setThread t (th.goto (.free out)) with mutex := none }
  | .free out => s.outside t th inp out
  | .asleep => none

def State.begin (s : State) : Op → Option Thread
  | .get => some { pc := .lock .get }
  | .putConn g =>
    match (s.threads[g]?).map Thread.pc with
    | some (.free (.done (.ok p))) => some { pc := .returns .putConn g p }
    | _ => none
  | .markUnhealthy g =>
    match (s.threads[g]?).map Thread.pc with
    | some (.free (.done (.ok p))) => some { pc := .returns .markUnhealthy g p }
    | _ => none
  | .put => some { pc := .lock .put }
  | .release => some { pc := .lock .release }

def State.step (cfg : Config) (s : State) : Label → Option State
  | .call op => (s.begin op).map fun th => { s with threads := s.threads ++ [th] }
  | .cancel t => (s.threads[t]?).map fun th => s.setThread t { th with ctxDone := true }
  | .fire t => (s.threads[t]?).bind fun th =>
    if th.ctxDone ∧ th.callback = .registered then
      some (s.setThread t { th with callback := .started })
    else none
  | .callback t => (s.threads[t]?).bind fun th =>
    if th.callback = .started then some (s.setThread t { th with callback := .none }).wakeAll
    else none
  | .run t inp => (s.threads[t]?).bind fun th => s.run cfg t th inp

def openConns (factory : Nat → Except String Int) : Nat → Except String (Nat → PoolConn)
  | 0 => .ok fun _ => {}
  | n + 1 => do
      let pcs ← openConns factory n
      let now ← factory n
      return Function.update pcs n { conn := some n, createTime := now, lastActiveTime := now }

def newPool (initConnCnt maxIdleCnt maxConnCap maxIdleTime : Int)
    (factory : Option (Nat → Except String Int)) (hasPing : Bool) (maxConnLifetime : List Int) :
    Except String (Config × State) :=
  if sizes : initConnCnt > maxIdleCnt ∨ maxConnCap < maxIdleCnt ∨ initConnCnt < 0 then
    .error "micro: 容量设置错误"
  else
    match factory with
    | none => .error "micro: factory函数不能为nil"
    | some factory => do
        let pcs ← openConns factory initConnCnt.toNat
        let cfg : Config := {
          maxIdleCnt := maxIdleCnt.toNat
          maxConnCap := maxConnCap.toNat
          maxIdleTime
          maxConnLifetime := maxConnLifetime.headD 0
          hasPing
          room := by omega }
        return (cfg, {
          connCnt := initConnCnt
          idleConns := List.range initConnCnt.toNat
          pcs
          pcCnt := initConnCnt.toNat
          closes := List.replicate initConnCnt.toNat 0
          threads := [{ pc := .free .select }] })

def pool (cfg : Config) : System State Label where
  init s := ∃ initConnCnt maxIdleCnt maxConnCap maxIdleTime factory hasPing maxConnLifetime,
    newPool initConnCnt maxIdleCnt maxConnCap maxIdleTime factory hasPing maxConnLifetime =
      .ok (cfg, s)
  step := State.step cfg

end Soil.Pool
