import Mathlib.Algebra.Order.Field.Basic
import Mathlib.Data.List.Induction
import Mathlib.Tactic.Linarith
import Soil.System

/-!
# The rate limiter

`tokenBucket` and the middleware that limits by client address, over exact arithmetic and
with times in seconds.  A bucket that has not been filled for longer than `ttl` is dropped, and
the next request gets a full one.
-/

namespace Soil.Web.Ratelimit

open List

structure TokenBucket where
  capacity : ℚ
  rate : ℚ
  tokens : ℚ
  lastTime : ℚ
  deriving DecidableEq

def newTokenBucket (rate : ℚ) (capacity : ℤ) (now : ℚ) : TokenBucket :=
  { capacity, rate, tokens := capacity, lastTime := now }

namespace TokenBucket

def fill (b : TokenBucket) (now : ℚ) : TokenBucket :=
  let elapsed := now - b.lastTime
  if 0 < elapsed then
    let tokens := b.tokens + elapsed * b.rate
    { b with tokens := if b.capacity < tokens then b.capacity else tokens, lastTime := now }
  else b

def take (b : TokenBucket) (now : ℚ) : TokenBucket × Bool × ℚ :=
  let b := b.fill now
  if 1 ≤ b.tokens then
    let b := { b with tokens := b.tokens - 1 }
    (b, true, b.tokens)
  else (b, false, b.tokens)

def run (b : TokenBucket) (nows : List ℚ) : TokenBucket :=
  nows.foldl (fun b now => (b.take now).1) b

def admitted (b : TokenBucket) : List ℚ → ℕ
  | [] => 0
  | now :: nows => (b.take now).2.1.toNat + (b.take now).1.admitted nows

/-! ## One bucket -/

/-- A bucket of the given rate and capacity, neither overdrawn nor overfull. -/
structure Level (rate capacity : ℚ) (b : TokenBucket) : Prop where
  fills : b.rate = rate
  holds : b.capacity = capacity
  nonneg : 0 ≤ b.tokens
  within : b.tokens ≤ capacity

variable {b : TokenBucket} {rate capacity now t : ℚ} {nows : List ℚ}

theorem lastTime_fill : (b.fill now).lastTime = max b.lastTime now := by
  rw [fill]
  split
  · rw [max_eq_right (by linarith)]
  · rw [max_eq_left (by linarith)]

theorem fill_eq_self (late : now ≤ b.lastTime) : b.fill now = b :=
  if_neg (by linarith)

theorem take_fill : (b.fill now).take now = b.take now := by
  rw [take, take, fill_eq_self (by simp [lastTime_fill])]

section

variable (level : b.Level rate capacity) (nonneg : 0 ≤ rate)
include level nonneg

theorem Level.fill (now : ℚ) : (b.fill now).Level rate capacity := by
  obtain ⟨rfl, rfl, tokens, within⟩ := level
  rw [TokenBucket.fill]
  split
  next later =>
    have gained := mul_nonneg later.le nonneg
    refine ⟨rfl, rfl, ?_, ?_⟩
    · dsimp only
      split <;> linarith
    · dsimp only
      split <;> linarith
  next => exact ⟨rfl, rfl, tokens, within⟩

theorem Level.take (now : ℚ) : (b.take now).1.Level rate capacity := by
  have filled := level.fill nonneg now
  rw [TokenBucket.take]
  split
  next enough => exact ⟨filled.fills, filled.holds, sub_nonneg.mpr enough,
    (sub_le_self _ zero_le_one).trans filled.within⟩
  next => exact filled

theorem Level.run (nows : List ℚ) : (b.run nows).Level rate capacity := by
  induction nows generalizing b with
  | nil => exact level
  | cons now nows ih => exact ih (level.take nonneg now)

end

theorem tokens_fill_le : (b.fill now).tokens ≤
    b.tokens + b.rate * ((b.fill now).lastTime - b.lastTime) := by
  rw [fill]
  split
  · dsimp only
    split <;> linarith
  · simp

theorem take_spec (b : TokenBucket) (now : ℚ) : (b.take now).1.lastTime = (b.fill now).lastTime ∧
    (b.take now).1.tokens + (b.take now).2.1.toNat = (b.fill now).tokens := by
  rw [take]
  split <;> simp

/-- What is admitted is paid from the tokens there are and from those that come in until `t`. -/
theorem Level.admitted_le (level : b.Level rate capacity) (nonneg : 0 ≤ rate)
    (past : ∀ now ∈ nows, now ≤ t) :
    b.admitted nows ≤ b.tokens + rate * (max b.lastTime t - b.lastTime) := by
  induction nows generalizing b with
  | nil =>
    have room : 0 ≤ max b.lastTime t - b.lastTime := sub_nonneg.mpr (le_max_left _ _)
    simpa [admitted] using add_nonneg level.nonneg (mul_nonneg nonneg room)
  | cons now nows ih =>
    have paid := ih (level.take nonneg now) fun x inside => past x (mem_cons_of_mem _ inside)
    have gained : (b.fill now).tokens ≤ b.tokens + b.rate * _ := tokens_fill_le
    have last : max (b.fill now).lastTime t = max b.lastTime t := by
      rw [lastTime_fill, max_assoc, max_eq_right (past now mem_cons_self)]
    obtain ⟨same, spent⟩ := take_spec b now
    rw [same, last] at paid
    rw [level.fills] at gained
    rw [admitted]
    push_cast
    linarith

theorem Level.window_le {s : ℚ} (level : b.Level rate capacity) (nonneg : 0 ≤ rate)
    (past : ∀ now ∈ s :: nows, now ≤ t) : b.admitted (s :: nows) ≤ capacity + rate * (t - s) := by
  have filled := level.fill nonneg s
  have paid := filled.admitted_le nonneg past
  rw [admitted, take_fill, ← admitted] at paid
  have wait : max (b.fill s).lastTime t - (b.fill s).lastTime ≤ t - s := by
    have later : s ≤ (b.fill s).lastTime := by simp [lastTime_fill]
    rcases max_choice (b.fill s).lastTime t with here | there
    · rw [here, sub_self]
      exact sub_nonneg.mpr (past s mem_cons_self)
    · rw [there]
      exact sub_le_sub_left later t
  have within := filled.within
  have more := mul_le_mul_of_nonneg_left wait nonneg
  linarith

end TokenBucket

theorem level_new {rate : ℚ} {capacity : ℤ} (room : 0 ≤ capacity) (now : ℚ) :
    (newTokenBucket rate capacity now).Level rate capacity :=
  ⟨rfl, rfl, Int.cast_nonneg room, le_rfl⟩

open TokenBucket

/-- The tokens are between zero and the capacity; calls at readings of the clock that do not
decrease from `s` to `t` are admitted at most `capacity + rate * (t - s)` times; and a call is
refused only if there is less than one token. -/
structure TokenBucket.Bounded (rate capacity : ℚ) (b : TokenBucket) : Prop where
  nonneg : 0 ≤ b.tokens
  within : b.tokens ≤ capacity
  window : ∀ window s t, window.Pairwise (· ≤ ·) → window.head? = some s →
    window.getLast? = some t → b.admitted window ≤ capacity + rate * (t - s)
  refused : ∀ now, (b.take now).2.1 = false → (b.take now).2.2 < 1

structure MiddlewareBuilder where
  rate : ℚ
  capacity : ℤ
  ttl : ℚ

namespace MiddlewareBuilder

def isBucketExpired (mb : MiddlewareBuilder) (bucket : TokenBucket) (now : ℚ) : Bool :=
  if mb.ttl ≤ 0 then false else now - bucket.lastTime > mb.ttl

def getOrCreateBucket (mb : MiddlewareBuilder) (now : ℚ) : Option TokenBucket → TokenBucket
  | none => newTokenBucket mb.rate mb.capacity now
  | some bucket =>
    if mb.isBucketExpired bucket now then newTokenBucket mb.rate mb.capacity now else bucket

def request (mb : MiddlewareBuilder) (stored : Option TokenBucket) (now : ℚ) :
    TokenBucket × Bool × ℚ :=
  (mb.getOrCreateBucket now stored).take now

def run (mb : MiddlewareBuilder) (nows : List ℚ) : Option TokenBucket :=
  nows.foldl (fun stored now => some (mb.request stored now).1) none

def admitted (mb : MiddlewareBuilder) : Option TokenBucket → List ℚ → ℕ
  | _, [] => 0
  | stored, now :: nows =>
    (mb.request stored now).2.1.toNat + mb.admitted (some (mb.request stored now).1) nows

def Limits (mb : MiddlewareBuilder) : Prop :=
  ∀ before window s T, (before ++ window).Pairwise (· ≤ ·) → 0 ≤ T →
    (∀ now ∈ window, s ≤ now ∧ now ≤ s + T) →
    mb.admitted (mb.run before) window ≤ mb.capacity + mb.rate * T

variable {mb : MiddlewareBuilder} {b : TokenBucket} {stored : Option TokenBucket} {now : ℚ}
  {nows : List ℚ}

theorem isBucketExpired_iff : mb.isBucketExpired b now ↔ 0 < mb.ttl ∧ mb.ttl < now - b.lastTime :=
    by
  rw [isBucketExpired]
  split <;> simp_all

/-- A bucket that has had time to fill is as good as a new one. -/
theorem take_getOrCreateBucket (level : b.Level mb.rate mb.capacity) (nonneg : 0 ≤ mb.rate)
    (enough : mb.ttl ≤ 0 ∨ mb.capacity ≤ mb.rate * mb.ttl) :
    (mb.getOrCreateBucket now (some b)).take now = b.take now := by
  rw [getOrCreateBucket]
  split
  next expired =>
    obtain ⟨positive, idle⟩ := isBucketExpired_iff.mp expired
    have ample := enough.resolve_left positive.not_ge
    have gained := mul_le_mul_of_nonneg_left idle.le nonneg
    have nonneg_ := level.nonneg
    have full : b.fill now = newTokenBucket mb.rate mb.capacity now := by
      rw [fill, if_pos (positive.trans idle), newTokenBucket, ← level.fills, ← level.holds]
      rw [← level.fills, ← level.holds] at *
      dsimp only
      split
      · rfl
      · congr
        linarith
    rw [← take_fill (b := b), full]
  next => rfl

theorem level_getOrCreateBucket (room : 0 ≤ mb.capacity)
    (level : ∀ b ∈ stored, b.Level mb.rate mb.capacity) (now : ℚ) :
    (mb.getOrCreateBucket now stored).Level mb.rate mb.capacity := by
  cases stored with
  | none => exact level_new room now
  | some b =>
    rw [getOrCreateBucket]
    split
    · exact level_new room now
    · exact level b rfl

theorem level_run (room : 0 ≤ mb.capacity) (nonneg : 0 ≤ mb.rate) (nows : List ℚ) :
    ∀ b ∈ mb.run nows, b.Level mb.rate mb.capacity := by
  induction nows using List.reverseRecOn with
  | nil => simp [run]
  | append_singleton nows now ih =>
    rw [run, foldl_concat]
    rintro b ⟨⟩
    exact (level_getOrCreateBucket room ih now).take nonneg now

theorem admitted_eq (level : b.Level mb.rate mb.capacity) (nonneg : 0 ≤ mb.rate)
    (enough : mb.ttl ≤ 0 ∨ mb.capacity ≤ mb.rate * mb.ttl) :
    mb.admitted (some b) nows = b.admitted nows := by
  induction nows generalizing b with
  | nil => rfl
  | cons now nows ih =>
    rw [admitted, request, take_getOrCreateBucket level nonneg enough, ih (level.take nonneg now),
      TokenBucket.admitted]

theorem limits_of_enough (nonneg : 0 ≤ mb.rate) (room : 0 ≤ mb.capacity)
    (enough : mb.ttl ≤ 0 ∨ mb.capacity ≤ mb.rate * mb.ttl) : mb.Limits := by
  intro before window s T _ length within
  cases window with
  | nil =>
    have room : (0 : ℚ) ≤ mb.capacity := Int.cast_nonneg room
    simpa [admitted] using add_nonneg room (mul_nonneg nonneg length)
  | cons first =>
    have level := level_getOrCreateBucket room (level_run room nonneg before) first
    have bound := level.window_le nonneg fun now inside => (within now inside).2
    rw [TokenBucket.admitted, ← admitted_eq (level.take nonneg first) nonneg enough] at bound
    have later := mul_le_mul_of_nonneg_left (within first mem_cons_self).1 nonneg
    rw [admitted, request]
    linarith

/-! ### Bursts -/

theorem admitted_replicate (positive : 0 < mb.ttl) (last : b.lastTime = now) {n : ℕ}
    (enough : (n : ℚ) ≤ b.tokens) (more : List ℚ) : ∃ b', b'.lastTime = now ∧
      mb.admitted (some b) (replicate n now ++ more) = n + mb.admitted (some b') more := by
  induction n generalizing b with
  | zero => exact ⟨b, last, by simp⟩
  | succ n ih =>
    push_cast at enough
    have kept : mb.isBucketExpired b now = false := by
      rw [← Bool.not_eq_true, isBucketExpired_iff]
      intro expired
      linarith [expired.2]
    have taken : mb.request (some b) now =
        ({ b with tokens := b.tokens - 1 }, true, b.tokens - 1) := by
      rw [request, getOrCreateBucket, kept, if_neg (by simp), TokenBucket.take,
        fill_eq_self last.ge,
        if_pos (by linarith [n.cast_nonneg (α := ℚ)])]
    obtain ⟨b', last', rest⟩ := ih (b := { b with tokens := b.tokens - 1 }) last
      (by dsimp only; linarith)
    refine ⟨b', last', ?_⟩
    rw [replicate_succ, cons_append, admitted, taken, rest, Bool.toNat_true]
    omega

theorem admitted_burst (now : ℚ) (stored : Option TokenBucket) (positive : 0 < mb.ttl)
    (fresh : mb.getOrCreateBucket now stored = newTokenBucket mb.rate mb.capacity now) {n : ℕ}
    (capacity : mb.capacity = n + 1) (more : List ℚ) : ∃ b', b'.lastTime = now ∧
      mb.admitted stored (replicate (n + 1) now ++ more) = n + 1 + mb.admitted (some b') more := by
  have same : mb.admitted stored (replicate (n + 1) now ++ more) = mb.admitted
      (some (newTokenBucket mb.rate mb.capacity now)) (replicate (n + 1) now ++ more) := by
    rw [replicate_succ, cons_append, admitted, admitted, request, request, fresh,
      getOrCreateBucket, ite_self]
  rw [same]
  refine admitted_replicate (b := newTokenBucket mb.rate mb.capacity now) (n := n + 1) positive rfl
    ?_ more
  simp [newTokenBucket, capacity]

theorem enough_of_limits (positive : 0 < mb.rate) (limits : mb.Limits) :
    0 ≤ mb.capacity ∧ (mb.ttl ≤ 0 ∨ mb.capacity ≤ mb.rate * mb.ttl) := by
  have room : 0 ≤ mb.capacity := by
    have empty := limits [] [] 0 0 .nil le_rfl (by simp)
    simpa [admitted] using empty
  refine ⟨room, ?_⟩
  by_contra! short
  obtain ⟨n, capacity⟩ : ∃ n : ℕ, mb.capacity = n + 1 := by
    have some_ : (0 : ℚ) < mb.capacity := (mul_pos positive short.1).trans short.2
    refine ⟨(mb.capacity - 1).toNat, ?_⟩
    have some_ : 0 < mb.capacity := by exact_mod_cast some_
    omega
  -- two bursts, the second one as soon as the first bucket has expired
  obtain ⟨e, late, soon⟩ := exists_between ((lt_div_iff₀' positive).mpr short.2)
  rw [lt_div_iff₀' positive] at soon
  obtain ⟨b, last, first⟩ := admitted_burst 0 none short.1 rfl capacity (replicate (n + 1) e ++ [])
  have expired : mb.isBucketExpired b e := isBucketExpired_iff.mpr ⟨short.1, by simpa [last]⟩
  obtain ⟨b', -, second⟩ := admitted_burst e (some b) short.1 (if_pos expired) capacity []
  have bound := limits [] (replicate (n + 1) 0 ++ (replicate (n + 1) e ++ [])) 0 e ?_ ?_ ?_
  · rw [run, foldl_nil, first, second, admitted, capacity] at bound
    rw [capacity] at soon
    push_cast at bound soon
    linarith
  · have later := (short.1.trans late).le
    simp [pairwise_append, later]
  · exact (short.1.trans late).le
  · have later := (short.1.trans late).le
    simp [later]

end MiddlewareBuilder

open MiddlewareBuilder

namespace Race

inductive PC where
  | start
  | read (bucket : Option Nat)
  | expired (bucket : Nat)
  | created (bucket : Nat)
  /-- `stored` is the bucket of the map at the end of the last locked section. -/
  | returned (bucket : Nat) (stored : Option Nat) (taken : Bool)
  deriving DecidableEq

structure State where
  now : ℚ := 0
  lastTimes : List ℚ := []
  stored : Option Nat := none
  calls : List PC := []
  deriving DecidableEq

def State.isBucketExpired (ttl : ℚ) (s : State) (bucket : Nat) : Bool :=
  (s.lastTimes[bucket]?).any fun last => if ttl ≤ 0 then false else s.now - last > ttl

def State.getOrCreateBucket (ttl : ℚ) (s : State) : PC → Option (State × PC)
  | .start => some (s, .read s.stored)
  | .read none =>
    some ({ s with lastTimes := s.lastTimes ++ [s.now] }, .created s.lastTimes.length)
  | .read (some bucket) =>
    some (s, if s.isBucketExpired ttl bucket then .expired bucket
      else .returned bucket (some bucket) false)
  | .expired bucket =>
    if s.stored = some bucket then some ({ s with stored := none }, .read none)
    else some (s, .returned bucket s.stored false)
  | .created bucket =>
    match s.stored with
    | some existing => some (s, .returned existing (some existing) false)
    | none => some ({ s with stored := some bucket }, .returned bucket (some bucket) false)
  | .returned .. => none

inductive Label where
  | request
  | go (t : Nat)
  | take (t : Nat)
  | tick (d : ℚ)
  deriving DecidableEq

def State.step (ttl : ℚ) (s : State) : Label → Option State
  | .request => some { s with calls := s.calls ++ [.start] }
  | .go t => (s.calls[t]?).bind fun pc => (s.getOrCreateBucket ttl pc).map fun r =>
    { r.1 with calls := s.calls.set t r.2 }
  | .take t =>
    match s.calls[t]? with
    | some (.returned bucket stored false) => some
      { s with
        lastTimes := s.lastTimes.modify bucket fun last => if 0 < s.now - last then s.now else last
        calls := s.calls.set t (.returned bucket stored true) }
    | _ => none
  | .tick d => some { s with now := s.now + d }

def middleware (ttl : ℚ) : System State Label where
  init s := s = {}
  step := State.step ttl

def PC.Own : PC → Prop
  | .returned bucket stored _ => stored = some bucket
  | _ => True

def Unchanged (s : State) : Label → Prop
  | .go t =>
    match s.calls[t]? with
    | some (.expired bucket) => s.stored = some bucket
    | _ => True
  | _ => True

instance (s : State) (l : Label) : Decidable (Unchanged s l) := by
  unfold Unchanged
  split
  · split <;> infer_instance
  · infer_instance

variable {ttl : ℚ} {s s' : State} {pc pc' : PC} {l : Label}

theorem getOrCreateBucket_own (moved : s.getOrCreateBucket ttl pc = some (s', pc')) :
    pc.Own ∧ (pc'.Own ↔ ∀ bucket, pc = .expired bucket → s.stored = some bucket) := by
  cases pc with
  | start =>
    cases moved
    simp [PC.Own]
  | read bucket =>
    cases bucket with
    | none =>
      cases moved
      simp [PC.Own]
    | some =>
      cases moved
      split <;> simp [PC.Own]
  | expired =>
    rw [State.getOrCreateBucket] at moved
    split at moved
    · cases moved
      simpa [PC.Own]
    · cases moved
      simp [PC.Own]
  | created =>
    rw [State.getOrCreateBucket] at moved
    split at moved
    · cases moved
      simp [PC.Own]
    · cases moved
      simp [PC.Own]
  | returned => cases moved

theorem step_own_iff (step : s.step ttl l = some s') :
    (∀ pc ∈ s'.calls, pc.Own) ↔ (∀ pc ∈ s.calls, pc.Own) ∧ Unchanged s l := by
  cases l with
  | request =>
    cases step
    simp [or_imp, forall_and, PC.Own, Unchanged]
  | go =>
    obtain ⟨pc, at_, step⟩ := Option.bind_eq_some_iff.mp step
    obtain ⟨⟨s', pc'⟩, moved, rfl⟩ := Option.map_eq_some_iff.mp step
    obtain ⟨before, own⟩ := getOrCreateBucket_own moved
    rw [forall_mem_set_iff at_ before, own, Unchanged, at_]
    cases pc <;> simp
  | take t =>
    rw [State.step] at step
    split at step
    next bucket stored at_ =>
      cases step
      simp only [Unchanged, and_true]
      constructor
      · intro all
        have own : (PC.returned bucket stored true).Own := all _ (mem_set_of_some at_ _)
        exact ((forall_mem_set_iff at_ own).mp all).1
      · intro all
        have own : (PC.returned bucket stored false).Own := all _ (mem_of_getElem? at_)
        exact forall_mem_set all own
    next => cases step
  | tick =>
    cases step
    simp [Unchanged]

end Race

open Soil.System Race

end Soil.Web.Ratelimit
