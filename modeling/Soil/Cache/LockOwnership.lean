import Mathlib.Data.List.Perm.Subperm
import Soil.Cache.RedisLock
import Soil.System

/-!
# Who owns the Redis lock

Any number of goroutines call `TryLock`, `Lock`, `Refresh` and `Unlock`, time passes and
keys expire, in any order.
-/

namespace Soil.Cache

open List Delivery Lock Redis Option

/-! ## The system -/

structure Pending where
  key : String
  uuid : String
  expiration : Duration

structure Unlocking where
  lock : Lock
  delivery : Delivery
  res : Except LockErr Int
  deleted : Bool
  deriving DecidableEq

structure Locks where
  redis : Redis
  uuids : List String := []
  handles : List Lock := []
  pending : List Pending := []
  unlocking : List Unlocking := []
  closed : List String := []

inductive Move where
  | tryLock (key : String) (timeout : Duration) (uuid : String) (d : Delivery)
  | lock (key : String) (expiration : Duration) (uuid : String)
  | attempt (i : Nat) (d : Delivery)
  | wait (i : Nat) (w : Wait)
  | refresh (l : Lock) (d : Delivery)
  | unlock (l : Lock) (d : Delivery)
  | unlocked (i : Nat)
  | expire (key : String)
  | pass (ms : Nat)

def Lock.owns (l : Lock) (r : Redis) : Bool := r.get l.key = some l.uuid

def Lock.deleted (l : Lock) (r r' : Redis) : Bool := l.owns r && (r'.entries l.key).isNone

namespace Locks

variable (s : Locks)

def tryLock (key : String) (timeout : Duration) (uuid : String) (d : Delivery) : Locks :=
  let res := Cache.tryLock d uuid key timeout s.redis
  { s with
    redis := res.2
    uuids := uuid :: s.uuids
    handles := res.1.toOption.toList ++ s.handles }

def attempt (i : Nat) (p : Pending) (d : Delivery) : Locks :=
  let res := lockAttempt d p.uuid p.key p.expiration s.redis
  match res.1 with
  | .locked l =>
    { s with redis := res.2, handles := l :: s.handles, pending := s.pending.eraseIdx i }
  | .held => { s with redis := res.2 }
  | .failed _ => { s with redis := res.2, pending := s.pending.eraseIdx i }

def unlock (l : Lock) (d : Delivery) : Locks :=
  let res := l.unlockEval d s.redis
  let call : Unlocking := ⟨l, d, res.1, l.deleted s.redis res.2⟩
  { s with redis := res.2, unlocking := call :: s.unlocking }

def step (c : Client) : Move → Option Locks
  | .tryLock key timeout uuid d => some (s.tryLock key timeout uuid d)
  | .lock key expiration uuid =>
    some { s with uuids := uuid :: s.uuids, pending := ⟨key, uuid, expiration⟩ :: s.pending }
  | .attempt i d => s.pending[i]?.map fun p => s.attempt i p d
  | .wait i w =>
    if i < s.pending.length then
      some (if w.err.isSome then { s with pending := s.pending.eraseIdx i } else s)
    else none
  | .refresh l d =>
    if l ∈ s.handles then some { s with redis := (l.refresh c d s.redis).2 } else none
  | .unlock l d => if l ∈ s.handles then some (s.unlock l d) else none
  | .unlocked i => s.unlocking[i]?.map fun call =>
    { s with
      unlocking := s.unlocking.eraseIdx i
      closed := call.lock.uuid :: s.closed }
  | .expire key => some { s with redis := s.redis.put key none }
  | .pass ms => some { s with redis := { s.redis with now := s.redis.now + ms } }

end Locks

def lockSystem (c : Client) : System Locks Move where
  init s := s.uuids = [] ∧ s.handles = [] ∧ s.pending = [] ∧ s.unlocking = [] ∧ s.closed = []
  step s := s.step c

def NewUuid (s : Locks) : Move → Prop
  | .tryLock _ _ uuid _ => uuid ∉ s.uuids
  | .lock _ _ uuid => uuid ∉ s.uuids
  | _ => True

instance (s : Locks) (l : Move) : Decidable (NewUuid s l) := by
  cases l <;> unfold NewUuid <;> infer_instance

/-! ## The scripts -/

variable {c : Client} {d : Delivery} {l : Lock} {r r' : Redis} {s : Locks}

@[simp] theorem Redis.put_self (key : String) (entry : Option Entry) :
    (r.put key entry).entries key = entry := by
  simp [put]

variable {key : String}

theorem Redis.put_of_ne {other : String} (entry : Option Entry) (ne : other ≠ key) :
    (r.put key entry).entries other = r.entries other := by
  simp [put, ne]

theorem Lock.owns_iff : l.owns r = true ↔ ∃ deadline, r.entries l.key = some ⟨l.uuid, deadline⟩ :=
    by
  simp only [owns, Redis.get, decide_eq_true_iff, map_eq_some_iff]
  constructor
  · rintro ⟨entry, there, same⟩
    exact ⟨entry.deadline, by rw [there, ← same]⟩
  · rintro ⟨deadline, there⟩
    exact ⟨_, there, rfl⟩

theorem Lock.stored_iff : r.get l.key = some l.uuid ↔ l.owns r = true :=
  decide_eq_true_iff.symm

theorem Redis.luaUnlock_eq :
    r.luaUnlock l.key l.uuid = if l.owns r then (1, r.put l.key none) else (0, r) := by
  simp only [luaUnlock, stored_iff]
  by_cases owns : l.owns r = true
  · obtain ⟨deadline, there⟩ := owns_iff.mp owns
    simp [del, there]
  · rw [if_neg owns, if_neg owns]

def Lock.accepted (c : Client) (l : Lock) (r : Redis) : Option (Int × Int) :=
  (c.seconds l.expiration).bind fun n => (r.after n).map fun t => (n, t)

def Lock.refreshed (l : Lock) (n t : Int) : Option Entry :=
  if n ≤ 0 then none else some ⟨l.uuid, some t⟩

theorem Redis.luaRefresh_accepted {n t : Int} (accepted : l.accepted c r = some (n, t)) :
    r.luaRefresh l.key l.uuid (c.seconds l.expiration) =
      .ok (if l.owns r then (1, r.put l.key (l.refreshed n t)) else (0, r)) := by
  obtain ⟨n', seconds, rest⟩ := bind_eq_some_iff.mp accepted
  obtain ⟨t', time, same⟩ := map_eq_some_iff.mp rest
  cases same
  simp only [luaRefresh, stored_iff]
  by_cases owns : l.owns r = true
  · obtain ⟨deadline, there⟩ := owns_iff.mp owns
    simp only [owns, if_true, seconds, expire, time, there, refreshed]
    split <;> rfl
  · rw [if_neg owns, if_neg owns]

theorem Redis.luaRefresh_refused (refused : l.accepted c r = none) :
    r.luaRefresh l.key l.uuid (c.seconds l.expiration) = .ok (0, r) ∧ l.owns r = false ∨
      ∃ message, r.luaRefresh l.key l.uuid (c.seconds l.expiration) = .error message := by
  simp only [luaRefresh, stored_iff]
  by_cases owns : l.owns r = true
  · right
    simp only [owns, if_true, expire]
    cases seconds : c.seconds l.expiration with
    | none => exact ⟨_, rfl⟩
    | some n =>
      have time : r.after n = none := by
        simpa [accepted, seconds] using refused
      simp only [time]
      exact ⟨_, rfl⟩
  · exact .inl ⟨if_neg owns, by simpa using owns⟩

/-! ## What a call changes -/

def Lock.Only (l : Lock) (r r' : Redis) : Prop :=
  ∀ key, r'.entries key ≠ r.entries key → key = l.key ∧ l.owns r = true

theorem Lock.Only.refl : l.Only r r := fun _ changed => absurd rfl changed

theorem Lock.Only.put (owns : l.owns r = true) (entry : Option Entry) :
    l.Only r (r.put l.key entry) := by
  intro key changed
  refine ⟨?_, owns⟩
  by_contra other
  exact changed (put_of_ne entry other)

theorem Delivery.only_call {α : Type} {command : Redis → Except String (α × Redis)}
    (only : ∀ res, command r = .ok res → l.Only r res.2) : l.Only r (d.call r command).2 := by
  cases d with
  | unsent => exact .refl
  | lost | reply =>
    cases ran : command r with
    | ok res => simpa only [call, ran] using only res ran
    | error => simpa only [call, ran] using Lock.Only.refl

theorem Lock.unlock_only : l.Only r (l.unlockEval d r).2 := by
  refine only_call fun res ran => ?_
  obtain rfl := Except.ok.inj ran
  rw [luaUnlock_eq]
  split
  case isTrue owns => exact .put owns none
  case isFalse => exact .refl

theorem Lock.refresh_only : l.Only r (l.refresh c d r).2 := by
  have call : (l.refresh c d r).2 =
      (d.call r fun r => r.luaRefresh l.key l.uuid (c.seconds l.expiration)).2 := by
    simp only [refresh]
    split <;> rfl
  rw [call]
  refine only_call fun res ran => ?_
  cases accepted : l.accepted c r with
  | none =>
    rcases luaRefresh_refused accepted with ⟨kept, -⟩ | ⟨message, failed⟩
    · obtain rfl := Except.ok.inj (kept.symm.trans ran)
      exact .refl
    · cases failed.symm.trans ran
  | some time =>
    obtain rfl := Except.ok.inj ((luaRefresh_accepted accepted).symm.trans ran)
    split
    case isTrue owns => exact .put owns _
    case isFalse => exact .refl

/-! ## What a call returns -/

theorem Lock.not_deleted : l.deleted r r = false := by
  unfold deleted
  cases owns : l.owns r with
  | false => rfl
  | true =>
    obtain ⟨deadline, there⟩ := owns_iff.mp owns
    simp [there]

theorem Lock.unlockEval_iff (kept : d.isLost = false) :
    l.deleted r (l.unlockEval d r).2 = true ↔ (l.unlockEval d r).1 = .ok 1 := by
  cases d with
  | lost => cases kept
  | unsent => simp [unlockEval, call, not_deleted]
  | reply =>
    simp only [unlockEval, call, luaUnlock_eq]
    by_cases owns : l.owns r = true
    · simp [owns, deleted]
    · simp [owns, not_deleted]

theorem Lock.unlockReturn_iff {closed : Bool} {res : Except LockErr Int} :
    unlockReturn closed res = .ok () ↔ closed = false ∧ res = .ok 1 := by
  unfold unlockReturn
  cases closed with
  | true => simp
  | false =>
    cases res with
    | error => simp
    | ok n => by_cases one : n = 1 <;> simp

def Lock.Extended (c : Client) (d : Delivery) (l : Lock) (r r' : Redis) : Prop :=
  d.ran = true ∧ ∃ n t deadline, l.accepted c r = some (n, t) ∧
    r.entries l.key = some ⟨l.uuid, some deadline⟩ ∧
    r'.entries l.key = some ⟨l.uuid, some t⟩ ∧ deadline ≤ t

def Lock.Refreshable (c : Client) (d : Delivery) (l : Lock) (r : Redis) : Prop :=
  d.ran = true → l.owns r = true → ∀ n t, l.accepted c r = some (n, t) →
    0 < n ∧ ∃ deadline, r.entries l.key = some ⟨l.uuid, some deadline⟩ ∧ deadline ≤ t

theorem Lock.refresh_iff (kept : d.isLost = false) :
    ((l.refresh c d r).1 = .ok () ↔ l.Extended c d r (l.refresh c d r).2) ↔
      l.Refreshable c d r := by
  cases d with
  | lost => cases kept
  | unsent => simp [refresh, call, Extended, Refreshable, ran]
  | reply =>
    simp only [Extended, Refreshable, ran, true_and, true_imp_iff]
    cases accepted : l.accepted c r with
    | none =>
      have failed : (l.refresh c .reply r).1 ≠ .ok () := by
        rcases luaRefresh_refused accepted with ⟨kept, -⟩ | ⟨message, failed⟩
        · simp [refresh, call, kept]
        · simp [refresh, call, failed]
      simp [failed]
    | some time =>
      obtain ⟨n, t⟩ := time
      have ran := luaRefresh_accepted accepted
      by_cases owns : l.owns r = true
      · have result : l.refresh c .reply r = (.ok (), r.put l.key (l.refreshed n t)) := by
          simp [refresh, call, ran, owns]
        rw [result]
        simp only [owns, true_iff, true_imp_iff, some.injEq, Prod.mk.injEq, and_imp,
          put_self, refreshed]
        by_cases positive : 0 < n
        · simp [positive]
        · simp [not_lt.mp positive]
      · have failed : (l.refresh c .reply r).1 ≠ .ok () := by
          simp [refresh, call, ran, owns]
        have other (deadline : Int) : r.entries l.key ≠ some ⟨l.uuid, some deadline⟩ :=
          fun there => owns (owns_iff.mpr ⟨_, there⟩)
        simp [failed, other, owns]

/-! ## Runs -/

namespace Locks

def names (s : Locks) : List String := s.handles.map Lock.uuid ++ s.pending.map Pending.uuid

structure Inv (s : Locks) : Prop where
  nodup : s.names.Nodup
  known : ∀ uuid ∈ s.names, uuid ∈ s.uuids
  replies : ∀ call ∈ s.unlocking, call.delivery.isLost = false →
    (call.deleted = true ↔ call.res = .ok 1)

variable {s' : Locks}

theorem nodup_of_subperm {xs ys : List String} (fewer : xs.Subperm ys) (nodup : ys.Nodup) :
    xs.Nodup := by
  obtain ⟨zs, same, sublist⟩ := fewer
  exact same.nodup_iff.mp (nodup.sublist sublist)

theorem Inv.fewer (inv : s.Inv) (names : s'.names.Subperm s.names) (uuids : s'.uuids = s.uuids)
    (unlocking : ∀ call ∈ s'.unlocking, call ∈ s.unlocking) : s'.Inv where
  nodup := nodup_of_subperm names inv.nodup
  known uuid used := uuids ▸ inv.known uuid (names.subset used)
  replies call running := inv.replies call (unlocking call running)

variable {uuid : String}

theorem Inv.fresh (inv : s.Inv) (fresh : uuid ∉ s.uuids)
    (names : s'.names.Subperm (uuid :: s.names)) (uuids : s'.uuids = uuid :: s.uuids)
    (unlocking : s'.unlocking = s.unlocking) : s'.Inv where
  nodup := nodup_of_subperm names
    (nodup_cons.mpr ⟨fun used => fresh (inv.known uuid used), inv.nodup⟩)
  known other used := by
    rw [uuids]
    rcases mem_cons.mp (names.subset used) with rfl | used
    · exact mem_cons_self ..
    · exact mem_cons_of_mem _ (inv.known other used)
  replies call running := inv.replies call (unlocking ▸ running)

theorem tryLock_ok {timeout : Duration}
    (locked : (Cache.tryLock d uuid key timeout r).1 = .ok l) : l = ⟨key, uuid, timeout⟩ := by
  simp only [Cache.tryLock] at locked
  split at locked
  · cases locked
  · cases locked
  · exact (Except.ok.inj locked).symm

theorem lockAttempt_locked {expiration : Duration}
    (locked : (lockAttempt d uuid key expiration r).1 = .locked l) :
    l = ⟨key, uuid, expiration⟩ := by
  simp only [lockAttempt] at locked
  split at locked
  · cases locked
  · cases locked
  · split at locked
    · exact (Attempt.locked.inj locked).symm
    · cases locked

theorem Inv.tryLock (inv : s.Inv) (timeout : Duration)
    (fresh : uuid ∉ s.uuids) (d : Delivery) : (s.tryLock key timeout uuid d).Inv := by
  refine inv.fresh fresh ?_ rfl rfl
  simp only [names, Locks.tryLock, map_append, append_assoc]
  cases res : (Cache.tryLock d uuid key timeout s.redis).1 with
  | error => exact (sublist_cons_self ..).subperm
  | ok =>
    obtain rfl := tryLock_ok res
    exact List.Subperm.refl _

variable {i : Nat}

theorem names_erase (s : Locks) :
    (s.handles.map Lock.uuid ++ (s.pending.eraseIdx i).map Pending.uuid).Subperm s.names :=
  (((eraseIdx_sublist s.pending i).map _).append_left _).subperm

theorem Inv.attempt {p : Pending} (inv : s.Inv) (running : s.pending[i]? = some p)
    (d : Delivery) : (s.attempt i p d).Inv := by
  cases res : (lockAttempt d p.uuid p.key p.expiration s.redis).1 with
  | held =>
    simp only [Locks.attempt, res]
    exact inv.fewer (List.Subperm.refl _) rfl fun _ running => running
  | failed =>
    simp only [Locks.attempt, res]
    exact inv.fewer s.names_erase rfl fun _ running => running
  | locked =>
    simp only [Locks.attempt, res]
    refine inv.fewer ?_ rfl fun _ running => running
    obtain rfl := lockAttempt_locked res
    -- the uuid moves from the call to the handle
    obtain ⟨inside, rfl⟩ := List.getElem?_eq_some_iff.mp running
    have moved := (getElem_cons_eraseIdx_perm inside).map Pending.uuid
    exact (perm_middle.symm.trans (moved.append_left _)).subperm

theorem Inv.step {m : Move} (inv : s.Inv) (new : NewUuid s m) (ran : s.step c m = some s') :
    s'.Inv := by
  cases m with simp only [Locks.step] at ran
  | tryLock key timeout uuid d =>
    cases ran
    exact inv.tryLock timeout new d
  | lock =>
    cases ran
    exact inv.fresh new perm_middle.subperm rfl rfl
  | attempt i d =>
    obtain ⟨p, running, rfl⟩ := map_eq_some_iff.mp ran
    exact inv.attempt running d
  | wait =>
    split at ran
    · cases ran
      split
      · exact inv.fewer s.names_erase rfl fun _ running => running
      · exact inv
    · cases ran
  | refresh =>
    split at ran
    · cases ran
      exact ⟨inv.nodup, inv.known, inv.replies⟩
    · cases ran
  | unlock =>
    split at ran
    · cases ran
      refine ⟨inv.nodup, inv.known, fun call running kept => ?_⟩
      rcases mem_cons.mp running with rfl | running
      · exact Lock.unlockEval_iff kept
      · exact inv.replies call running kept
    · cases ran
  | unlocked =>
    obtain ⟨call, running, rfl⟩ := map_eq_some_iff.mp ran
    exact ⟨inv.nodup, inv.known, fun call running =>
      inv.replies call ((eraseIdx_sublist ..).subset running)⟩
  | expire | pass =>
    cases ran
    exact ⟨inv.nodup, inv.known, inv.replies⟩

end Locks

theorem lockSystem_inv (reachable : (lockSystem c).Reachable NewUuid s) : s.Inv := by
  refine System.Reachable.induct (fun s start => ?_) (fun s l s' inv new ran => ?_) reachable
  · obtain ⟨-, handles, pending, unlocking, -⟩ := start
    exact ⟨by simp [Locks.names, handles, pending], by simp [Locks.names, handles, pending],
      by simp [unlocking]⟩
  · exact inv.step new ran

theorem Locks.Inv.index_eq (inv : s.Inv) {j : Nat} {l l' : Lock} (here : s.handles[i]? = some l)
    (there : s.handles[j]? = some l') (same : l.uuid = l'.uuid) : i = j := by
  have nodup : (s.handles.map uuid).Nodup := (nodup_append.mp inv.nodup).1
  have inside : i < (s.handles.map uuid).length := by
    rw [length_map]
    exact (List.getElem?_eq_some_iff.mp here).1
  refine (List.getElem?_inj inside nodup).mp ?_
  rw [List.getElem?_map, List.getElem?_map, here, there, map_some, map_some, same]

theorem Locks.Inv.others (inv : s.Inv) {l l' : Lock} (handle : l ∈ s.handles)
    (other : l' ∈ s.handles) (ne : l' ≠ l) (owns : l'.owns s.redis = true)
    (only : l.Only s.redis r) : r.entries l'.key = s.redis.entries l'.key := by
  by_contra changed
  obtain ⟨key, owned⟩ := only l'.key changed
  have same : l'.uuid = l.uuid := by
    have stored := stored_iff.mpr owns
    rw [key, stored_iff.mpr owned] at stored
    exact (some.inj stored).symm
  obtain ⟨i, here⟩ := mem_iff_getElem?.mp handle
  obtain ⟨j, there⟩ := mem_iff_getElem?.mp other
  obtain rfl := inv.index_eq there here same
  exact ne (some.inj (there.symm.trans here))

/-- In any interleaving, with keys that expire at any moment: a key stores the uuid of one
handle at most.  `Unlock` and `Refresh` change only the key of their handle, only while it
stores its uuid, and nothing of another handle.  If their replies are not lost: `Refresh`
returns nil exactly when it has extended the key if and only if the key can be extended by
the expiration, and `Unlock` returns nil exactly when it has deleted the key if and only if
no `Unlock` of the handle has returned before one that has. -/
theorem ownership_iff (reachable : (lockSystem c).Reachable NewUuid s) :
    (∀ (key : String) (i j : Nat) (l l' : Lock), s.handles[i]? = some l →
      s.handles[j]? = some l' → s.redis.get key = some l.uuid →
      s.redis.get key = some l'.uuid → i = j) ∧
    (∀ l ∈ s.handles, ∀ d r, r = (l.unlockEval d s.redis).2 ∨ r = (l.refresh c d s.redis).2 →
      l.Only s.redis r ∧
        ∀ l' ∈ s.handles, l' ≠ l → l'.owns s.redis = true →
          r.entries l'.key = s.redis.entries l'.key) ∧
    (∀ l ∈ s.handles, ∀ d, d.isLost = false →
      (((l.refresh c d s.redis).1 = .ok () ↔ l.Extended c d s.redis (l.refresh c d s.redis).2) ↔
        l.Refreshable c d s.redis)) ∧
    (∀ call ∈ s.unlocking, call.delivery.isLost = false →
      ((Lock.unlockReturn (call.lock.uuid ∈ s.closed) call.res = .ok () ↔ call.deleted = true) ↔
        (call.deleted = true → call.lock.uuid ∉ s.closed))) := by
  have inv := lockSystem_inv reachable
  refine ⟨fun key i j l l' here there stored stored' => ?_, fun l handle d r ran => ?_,
    fun l _ d kept => refresh_iff kept, fun call running kept => ?_⟩
  · exact inv.index_eq here there (some.inj (stored.symm.trans stored'))
  · have only : l.Only s.redis r := by
      rcases ran with rfl | rfl
      · exact unlock_only
      · exact refresh_only
    exact ⟨only, fun l' other ne owns => inv.others handle other ne owns only⟩
  · rw [unlockReturn_iff, ← inv.replies call running kept]
    by_cases closed : call.lock.uuid ∈ s.closed <;> simp

/-! ## Three runs -/

def wholeSeconds : Client where
  seconds d := if d % second = 0 then some (d / second) else none
  whole n := by simp [second]

def noLocks : Locks := { redis := ⟨0, fun _ => none⟩ }

theorem noLocks_init : (lockSystem c).init noLocks := ⟨rfl, rfl, rfl, rfl, rfl⟩

/-- A lock that was taken for ten seconds is refreshed. -/
theorem ownership_iff_try_lock : ∃ s l, (lockSystem wholeSeconds).Reachable NewUuid s ∧
    l ∈ s.handles ∧ (l.refresh wholeSeconds .reply s.redis).1 = .ok () ∧
    l.Extended wholeSeconds .reply s.redis (l.refresh wholeSeconds .reply s.redis).2 := by
  let l : Lock := ⟨"key", "a", 10 * second⟩
  obtain ⟨s, reachable, handle, result, entry, accepted⟩ : ∃ s,
      (lockSystem wholeSeconds).Reachable NewUuid s ∧ l ∈ s.handles ∧
        (l.refresh wholeSeconds .reply s.redis).1 = .ok () ∧
        s.redis.entries "key" = some ⟨"a", some 10000⟩ ∧
        l.accepted wholeSeconds s.redis = some (10, 14000) :=
    System.exists_reachable [.tryLock "key" (10 * second) "a" .reply, .pass 4000] noLocks_init
      (by decide +kernel)
  refine ⟨s, l, reachable, handle, result, ?_⟩
  refine (((ownership_iff reachable).2.2.1 l handle .reply rfl).mpr ?_).mp result
  intro _ _ n t same
  cases accepted.symm.trans same
  exact ⟨by decide, 10000, entry, by decide⟩

/-- A lock without expiration is deleted by `Refresh`, which returns nil; a lock that `Lock`
has taken, where the ten seconds are sent as nanoseconds, gets a deadline before the one it
had; and of two calls of `Unlock` the one that has deleted the key panics if the other one
returns first. -/
theorem refresh_shortens_unlock_panics :
    (∃ s l, (lockSystem wholeSeconds).Reachable NewUuid s ∧ l ∈ s.handles ∧
      l.owns s.redis = true ∧ (l.refresh wholeSeconds .reply s.redis).1 = .ok () ∧
      (l.refresh wholeSeconds .reply s.redis).2.entries l.key = none) ∧
    (∃ s l, (lockSystem wholeSeconds).Reachable NewUuid s ∧ l ∈ s.handles ∧
      s.redis.entries l.key = some ⟨l.uuid, some 10000000000000⟩ ∧
      (l.refresh wholeSeconds .reply s.redis).1 = .ok () ∧
      (l.refresh wholeSeconds .reply s.redis).2.entries l.key = some ⟨l.uuid, some 10000⟩) ∧
    (∃ s call, (lockSystem wholeSeconds).Reachable NewUuid s ∧ call ∈ s.unlocking ∧
      call.delivery = .reply ∧ call.deleted = true ∧
      Lock.unlockReturn (call.lock.uuid ∈ s.closed) call.res =
        .error (.panic "close of closed channel")) := by
  refine ⟨?_, ?_, ?_⟩
  · refine exists_comm.mp ⟨⟨"key", "a", 0⟩, ?_⟩
    exact System.exists_reachable [.tryLock "key" 0 "a" .reply] noLocks_init (by decide +kernel)
  · refine exists_comm.mp ⟨⟨"key", "a", 10 * second⟩, ?_⟩
    exact System.exists_reachable [.lock "key" (10 * second) "a", .attempt 0 .reply] noLocks_init
      (by decide +kernel)
  · let l : Lock := ⟨"key", "a", 10 * second⟩
    refine exists_comm.mp ⟨⟨l, .reply, .ok 1, true⟩, ?_⟩
    exact System.exists_reachable [.tryLock "key" (10 * second) "a" .reply, .unlock l .reply,
      .unlock l .reply, .unlocked 0] noLocks_init (by decide +kernel)

end Soil.Cache
