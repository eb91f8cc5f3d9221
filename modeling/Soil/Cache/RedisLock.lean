import Mathlib.Logic.Function.Basic

/-!
# The Redis lock

The commands of Redis that the lock uses, the three Lua scripts, and the Go functions that
send them.  A script runs at once; a call may not arrive, and a reply may get lost on its
way back.
-/

namespace Soil.Cache

/-! ## Redis -/

structure Entry where
  value : String
  deadline : Option Int
  deriving DecidableEq, Repr

structure Redis where
  now : Int
  entries : String → Option Entry

namespace Redis

variable (r : Redis)

def get (key : String) : Option String := (r.entries key).map Entry.value

def put (key : String) (entry : Option Entry) : Redis :=
  { r with entries := Function.update r.entries key entry }

def longMax : Int := 9223372036854775807

def after (seconds : Int) : Option Int :=
  if -longMax - 1 ≤ seconds * 1000 ∧ seconds * 1000 + r.now ≤ longMax then
    some (r.now + seconds * 1000)
  else none

def notAnInteger : String := "ERR value is not an integer or out of range"

def invalidExpire (command : String) : String :=
  "ERR invalid expire time in '" ++ command ++ "' command"

def setNX (key value : String) (ttl : Option Int) : Bool × Redis :=
  match r.entries key with
  | some _ => (false, r)
  | none => (true, r.put key (some ⟨value, ttl.map (r.now + ·)⟩))

def setEX (key value : String) (seconds : Option Int) : Except String (String × Redis) :=
  match seconds with
  | none => .error notAnInteger
  | some n =>
    match r.after n with
    | none => .error (invalidExpire "set")
    | some deadline =>
      if n ≤ 0 then .error (invalidExpire "set")
      else .ok ("OK", r.put key (some ⟨value, some deadline⟩))

def expire (key : String) (seconds : Option Int) : Except String (Int × Redis) :=
  match seconds with
  | none => .error notAnInteger
  | some n =>
    match r.after n with
    | none => .error (invalidExpire "expire")
    | some deadline =>
      match r.entries key with
      | none => .ok (0, r)
      | some entry =>
        if n ≤ 0 then .ok (1, r.put key none)
        else .ok (1, r.put key (some { entry with deadline := some deadline }))

def del (key : String) : Int × Redis :=
  match r.entries key with
  | none => (0, r)
  | some _ => (1, r.put key none)

/-! ### The scripts -/

def luaLock (key val : String) (expiration : Option Int) : Except String (String × Redis) :=
  if r.get key = some val then (r.expire key expiration).map fun res => ("OK", res.2)
  else if r.get key = none then r.setEX key val expiration
  else .ok ("", r)

def luaUnlock (key val : String) : Int × Redis :=
  if r.get key = some val then r.del key else (0, r)

def luaRefresh (key val : String) (expiration : Option Int) : Except String (Int × Redis) :=
  if r.get key = some val then r.expire key expiration else .ok (0, r)

end Redis

/-! ## Calls -/

inductive LockErr where
  | redis (message : String)
  | deadlineExceeded
  | network (message : String)
  | failedToPreemptLock
  | retriesExceeded
  | lockNotHold
  | panic (message : String)
  deriving DecidableEq, Repr

def LockErr.message : LockErr → String
  | .redis message => message
  | .deadlineExceeded => "context deadline exceeded"
  | .network message => message
  | .failedToPreemptLock => "redis-lock: 抢锁失败"
  | .retriesExceeded => "redis-lock: 超出重试次数, redis-lock: 抢锁失败"
  | .lockNotHold => "redis-lock: 你没有持有锁"
  | .panic message => message

inductive Delivery where
  | reply
  | unsent (err : LockErr)
  | lost (err : LockErr)
  deriving DecidableEq, Repr

def Delivery.ran : Delivery → Bool
  | .unsent _ => false
  | _ => true

def Delivery.isLost : Delivery → Bool
  | .lost _ => true
  | _ => false

def Delivery.call {α : Type} (d : Delivery) (r : Redis)
    (command : Redis → Except String (α × Redis)) : Except LockErr α × Redis :=
  match d with
  | .unsent err => (.error err, r)
  | .lost err =>
    match command r with
    | .ok res => (.error err, res.2)
    | .error _ => (.error err, r)
  | .reply =>
    match command r with
    | .ok res => (.ok res.1, res.2)
    | .error message => (.error (.redis message), r)

abbrev Duration := Int

def second : Duration := 1000000000

structure Client where
  seconds : Duration → Option Int
  whole : ∀ n : Int, seconds (n * second) = some n

def setNXTime (timeout : Duration) : Except String (Option Int) :=
  if timeout = 0 ∨ timeout = -1 then .ok none
  else if timeout < 0 then .error (Redis.invalidExpire "set")
  else .ok (some (max 1 (timeout / 1000000)))

/-! ## The lock -/

structure Lock where
  key : String
  uuid : String
  expiration : Duration
  deriving DecidableEq, Repr

def tryLock (d : Delivery) (uuid key : String) (timeout : Duration) (r : Redis) :
    Except LockErr Lock × Redis :=
  let res := d.call r fun r => (setNXTime timeout).map (r.setNX key uuid)
  match res.1 with
  | .error err => (.error err, res.2)
  | .ok false => (.error .failedToPreemptLock, res.2)
  | .ok true => (.ok ⟨key, uuid, timeout⟩, res.2)

inductive Attempt where
  | locked (l : Lock)
  | held
  | failed (err : LockErr)
  deriving DecidableEq, Repr

def lockAttempt (d : Delivery) (uuid key : String) (expiration : Duration) (r : Redis) :
    Attempt × Redis :=
  let res := d.call r fun r => r.luaLock key uuid (some expiration)
  match res.1 with
  -- a timeout is not returned, and there is no string to compare
  | .error .deadlineExceeded =>
    (.failed (.panic "interface conversion: interface \x7b\x7d is nil, not string"), res.2)
  | .error err => (.failed err, res.2)
  | .ok reply => (if reply = "OK" then .locked ⟨key, uuid, expiration⟩ else .held, res.2)

inductive Wait where
  | refused
  | elapsed
  | done (err : LockErr)

def Wait.err : Wait → Option LockErr
  | .refused => some .retriesExceeded
  | .elapsed => none
  | .done err => some err

namespace Lock

variable (l : Lock)

def unlockEval (d : Delivery) (r : Redis) : Except LockErr Int × Redis :=
  d.call r fun r => .ok (r.luaUnlock l.key l.uuid)

def unlockReturn (closed : Bool) (res : Except LockErr Int) : Except LockErr Unit :=
  if closed then .error (.panic "close of closed channel")
  else
    match res with
    | .error err => .error err
    | .ok n => if n ≠ 1 then .error .lockNotHold else .ok ()

def refresh (c : Client) (d : Delivery) (r : Redis) : Except LockErr Unit × Redis :=
  let res := d.call r fun r => r.luaRefresh l.key l.uuid (c.seconds l.expiration)
  match res.1 with
  | .error err => (.error err, res.2)
  | .ok n => (if n ≠ 1 then .error .lockNotHold else .ok (), res.2)

end Lock

end Soil.Cache
