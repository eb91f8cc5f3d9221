import Mathlib.Data.List.Nodup
import Soil.Net.StreamPool

/-!
# The connection metrics of a pool

`dialAddr` reports `ConnectionOpened` for every connection it has made.  A stream leaves
the pool in several ways, and each is to report `ConnectionClosed` once: `Get` closes a
stream it has no room for, `maintain` those that are old or idle, `pingOne` one that does
not answer, `Close` the rest.  `compactLocked` drops dead streams without a report, and so
does `Get` with the stream it has dialled for a pool that was closed in the meantime;
`pingOne` reports its stream before it takes it out of the list.
-/

namespace Soil.Net.StreamPool

open List StreamPool Option

open Monitor (Step Exclusive inside_of_set)

/-! ## Reports -/

def reports : Exit → List Nat
  | .inl (.full x) => [x]
  | .inr (.closing (x :: _) _) => [x]
  | .inr (.pingFailed x _) => [x]
  | .inr (.taken (x :: _)) => [x]
  | _ => []

def reported (s : Monitor.State Pool Section PC) : Monitor.Label Act Env → List Nat
  | .go t | .run t _ => (s.threads[t]?).elim [] reports
  | .lock _ | .environment _ => []

structure Node where
  pool : Monitor.State Pool Section PC
  events : List Nat := []
  deriving DecidableEq

def Node.new (callers : Nat) : Node where
  pool := { data := {}, threads := List.replicate (callers + 2) (.inr (.done none)) }

def Node.step (cfg : Config) (node : Node) (l : Monitor.Label Act Env) : Option Node :=
  ((monitor cfg).step node.pool l).map fun pool =>
    { pool, events := node.events ++ reported node.pool l }

def Node.call (node : Node) (t : Nat) (op : Op) : Node :=
  { node with pool := { node.pool with threads := node.pool.threads.set t (.inr (.start op)) } }

/-! ## Tracked steps -/

def failed : Exit → Option Nat
  | .inr (.pingFailed x _) | .inr (.remove x _) => some x
  | _ => none

/-- `Get` finds the pool open behind its dial; no stream that `Close` takes has just failed
its `Ping`; a stream that `compactLocked` or `maintain` finds dead has; and a `Ping` fails
while the pool is open. -/
def Tracked (s : Monitor.State Pool Section PC) : Monitor.Label Act Env → Prop
  | .lock t =>
    match s.threads[t]? with
    | some (.inr (.dialed (some _))) => s.data.closed = false
    | some (.inr (.start .close)) =>
      s.data.closed = true ∨ ∀ th ∈ s.threads, ∀ x ∈ failed th, x ∉ s.data.streams
    | _ => True
  | .go t =>
    match s.threads[t]? with
    | some (.inl (.compact _ _ (x :: _))) | some (.inl (.sweep _ _ _ _ (x :: _))) =>
      s.data.alive x = true ∨ ∃ th ∈ s.threads, failed th = some x
    | _ => True
  | .run _ (.ping false) => s.data.closed = false
  | _ => True

instance (s : Monitor.State Pool Section PC) (l : Monitor.Label Act Env) :
    Decidable (Tracked s l) := by
  unfold Tracked
  split
  · split <;> infer_instance
  · split <;> infer_instance
  · infer_instance
  · infer_instance

/-! ## Whose stream it is -/

def owes : Exit → List Nat
  | .inl (.compact (.landed x) _ _) => [x]
  | .inl (.full x) => [x]
  | .inr (.dialed (some x)) => [x]
  | .inr (.closing toClose _) => toClose
  | .inr (.pingFailed x _) => [x]
  | .inr (.taken streams) => streams
  | _ => []

def listed (w : Option Nat) (p : Pool) (x : Nat) : Nat :=
  if w = some x then 0 else p.streams.count x

def Maintains : Exit → Prop
  | .inl (.compact (.maintain _) _ _) | .inl (.sweep ..) | .inr (.start .maintain)
  | .inr (.maintain _) | .inr (.closing ..) | .inr (.pings _) | .inr (.pinging ..)
  | .inr (.pingFailed ..) | .inr (.remove ..) | .inr (.removed _) => True
  | _ => False

def pending : Exit → List Nat
  | .inr (.closing _ toPing) | .inr (.pings toPing) | .inr (.removed toPing)
  | .inr (.pingFailed _ toPing) | .inr (.remove _ toPing) => toPing
  | .inr (.pinging x toPing) => x :: toPing
  | _ => []

def Counts (p : Pool) (w : Option Nat) : Section → Prop
  | .compact next kept todo =>
    (∀ x, (kept ++ todo).count x ≤ p.streams.count x) ∧
      (∀ x, w ≠ some x → (kept ++ todo).count x = p.streams.count x) ∧
      ∀ y, next = .landed y → p.closed = false
  | .sweep _ alive toClose toPing todo =>
    (∀ x, (alive ++ toClose ++ todo).count x = p.streams.count x) ∧ toPing.Sublist alive
  | _ => True

def Turn (old next : Exit) (w w' : Option Nat) : Prop :=
  (w' = w ∧ failed old = none ∧ failed next = none) ∨ (w = failed old ∧ w' = failed next)

structure Conserves (w w' : Option Nat) (p q : Pool) (old next : Exit) (out : List Nat) :
    Prop where
  streams : ∀ x, out.count x + listed w' q x + (owes next).count x +
    (if x < p.table.length then 1 else 0) =
      listed w p x + (owes old).count x + (if x < q.table.length then 1 else 0)
  opened : q.opened + p.table.length = p.opened + q.table.length
  closedEvents : q.closedEvents = p.closedEvents + out.length

section

variable {p q : Pool} {cfg : Config} {t x : Nat} {sec sec' : Section} {pc : PC}
  {old next : Exit} {w w' : Option Nat} {out : List Nat}

theorem Turn.same (turn : Turn old next w w') (before : failed old = none)
    (behind : failed next = none) : w' = w := by
  rcases turn with ⟨same, -⟩ | ⟨first, second⟩
  · exact same
  · rw [first, second, before, behind]

theorem Conserves.of_count (length : q.table.length = p.table.length) (opened : q.opened = p.opened)
    (events : q.closedEvents = p.closedEvents + out.length)
    (count : ∀ x, out.count x + listed w' q x + (owes next).count x =
      listed w p x + (owes old).count x) : Conserves w w' p q old next out := by
  refine ⟨fun x => ?_, by omega, events⟩
  rw [length, count x]

theorem Conserves.of_eq (streams : q.streams = p.streams) (owed : owes old = out ++ owes next)
    (length : q.table.length = p.table.length) (opened : q.opened = p.opened)
    (events : q.closedEvents = p.closedEvents + out.length) : Conserves w w p q old next out := by
  apply Conserves.of_count length opened events
  intro x
  have count := congrArg (List.count x) owed
  rw [count_append] at count
  simp only [listed, streams]
  omega

theorem Enter.conserves (turn : Turn (.inr pc) next w w')
    (inTime : ∀ y, pc = .dialed (some y) → p.closed = false)
    (untouched : pc = .start .close → p.closed = false → ∀ y, w = some y → y ∉ p.streams)
    (step : Enter p pc q next) : Conserves w w' p q (.inr pc) next [] := by
  cases step with
  | close open_ =>
    obtain rfl := turn.same rfl rfl
    refine .of_count rfl rfl rfl fun y => ?_
    have gone := untouched rfl open_ y
    by_cases here : w' = some y
    · have none_ := count_eq_zero_of_not_mem (gone here)
      simp [listed, owes, none_]
    · simp [listed, owes, here]
  | @late y closed =>
    rw [inTime y rfl] at closed
    cases closed
  | @remove y =>
    rcases turn with ⟨-, no, -⟩ | ⟨rfl, rfl⟩
    · cases no
    refine .of_count rfl rfl rfl fun z => ?_
    by_cases same : z = y
    · have gone : y ∉ p.streams.filter (· ≠ y) := by simp
      have none_ := count_eq_zero_of_not_mem gone
      simp only [listed, failed, owes, same, none_, reduceCtorEq, if_true, if_false, count_nil]
    · simp [listed, failed, owes, same, Ne.symm same]
  | _ =>
    obtain rfl := turn.same rfl rfl
    exact .of_eq rfl rfl rfl rfl rfl

theorem Counts.listed {next : Cont} {kept : List Nat} (counts : Counts p w (.compact next kept []))
    (same : q.streams = kept) (y : Nat) : listed w q y = listed w p y := by
  rw [StreamPool.listed, StreamPool.listed, same]
  split
  · rfl
  · rename_i other
    simpa using counts.2.1 y other

theorem Inside.conserves (turn : Turn (.inl sec) next w w') (counts : Counts p w sec)
    (own : ∀ y ∈ owes (.inl sec), w ≠ some y) (solo : Maintains (.inl sec) → w = Option.none)
    (step : Inside cfg p t sec q next) :
    Conserves w w' p q (.inl sec) next (reports (.inl sec)) := by
  cases step with obtain rfl := turn.same rfl rfl
  | compacted | maintain | stats | noRoom _ =>
    refine .of_count rfl rfl rfl fun y => ?_
    rw [Counts.listed counts rfl y]
    simp [reports, owes]
  | @landed z kept _ =>
    refine .of_count rfl rfl rfl fun y => ?_
    have before := counts.2.1 y
    have fresh := own z (by simp [owes])
    by_cases here : w' = some y
    · have other : z ≠ y := fun same => fresh (same ▸ here)
      simp [listed, reports, owes, here, other]
    · have kept_ := before here
      rw [append_nil] at kept_
      simp [listed, reports, owes, here, kept_]
  | swept =>
    obtain rfl := solo trivial
    refine .of_count rfl rfl rfl fun y => ?_
    have kept := counts.1 y
    rw [append_nil, count_append] at kept
    simp only [listed, reports, owes, reduceCtorEq, if_false, count_nil]
    omega
  | full =>
    exact .of_eq rfl rfl (Pool.length_update _ _) rfl rfl
  | @keep next | @drop next =>
    cases next <;> exact .of_eq rfl rfl rfl rfl rfl
  | _ =>
    exact .of_eq rfl rfl rfl rfl rfl

theorem Outside.conserves {next : PC} (turn : Turn (.inr pc) (.inr next) w w')
    (there : ∀ y toPing, pc = .pinging y toPing → next = .pingFailed y toPing →
      p.streams.count y = 1)
    (step : Outside p pc q next) :
    Conserves w w' p q (.inr pc) (.inr next) (reports (.inr pc)) := by
  cases step with
  | dialed =>
    obtain rfl := turn.same rfl rfl
    refine ⟨fun y => ?_, ?_, rfl⟩
    · have length : p.newStream.table.length = p.table.length + 1 := by simp [Pool.newStream]
      rw [length]
      simp only [listed, reports, owes, Pool.newStream, count_nil, count_singleton, beq_iff_eq]
      split <;> split <;> split <;> split <;> omega
    · simp only [Pool.newStream, length_append, length_singleton]
      omega
  | @unanswered y toPing =>
    rcases turn with ⟨-, -, no⟩ | ⟨rfl, rfl⟩
    · cases no
    have once := there y toPing rfl rfl
    refine .of_count rfl rfl rfl fun z => ?_
    by_cases same : y = z
    · subst same
      simp [listed, failed, reports, owes, once]
    · simp [listed, failed, reports, owes, same]
  | @pingFailed =>
    have same : w' = w := by
      rcases turn with ⟨same, -⟩ | ⟨rfl, rfl⟩
      · exact same
      · rfl
    obtain rfl := same
    exact .of_eq rfl rfl (Pool.length_update _ _) rfl rfl
  | close | take | raise | touch | returns | pinged =>
    obtain rfl := turn.same rfl rfl
    exact .of_eq rfl rfl (Pool.length_update _ _) rfl rfl
  | _ =>
    obtain rfl := turn.same rfl rfl
    exact .of_eq rfl rfl rfl rfl rfl

/-! ### The goroutine of `background` -/

theorem Enter.maintains (step : Enter p pc q next) (maintains : Maintains next) :
    Maintains (.inr pc) := by
  cases step <;> trivial

theorem Inside.maintains (step : Inside cfg p t sec q next) (maintains : Maintains next) :
    Maintains (.inl sec) := by
  cases step with
  | @keep next | @drop next => cases next <;> trivial
  | _ => trivial

theorem Outside.maintains {next : PC} (step : Outside p pc q next)
    (maintains : Maintains (.inr next)) : Maintains (.inr pc) := by
  cases step <;> trivial

theorem maintains_of_failed {e : Exit} (here : failed e ≠ none) : Maintains e := by
  rcases e with sec | pc
  · exact absurd rfl here
  · cases pc with
    | pingFailed => trivial
    | remove => trivial
    | _ => exact absurd rfl here

/-! ### The lists under the mutex -/

def looks : Section → List Nat
  | .compact _ _ (x :: _) | .sweep _ _ _ _ (x :: _) => [x]
  | _ => []

theorem Enter.counts (step : Enter p pc q (.inl sec)) : Counts q w sec := by
  cases step with
  | dialed open_ => exact ⟨fun _ => le_rfl, fun _ _ => rfl, fun _ _ => open_⟩
  | stats | maintain _ => exact ⟨fun _ => le_rfl, fun _ _ => rfl, fun _ no => by cases no⟩
  | _ => trivial

theorem Inside.counts (counts : Counts p w sec)
    (vouched : ∀ x ∈ looks sec, p.alive x = false → w = some x)
    (solo : Maintains (.inl sec) → w = Option.none) (step : Inside cfg p t sec q (.inl sec')) :
    Counts q w sec' := by
  cases step with
  | check => exact ⟨fun _ => le_rfl, fun _ _ => rfl, fun _ no => by cases no⟩
  | keep => simpa [Counts] using counts
  | @drop next y kept todo dead =>
    obtain ⟨within, all, landing⟩ := counts
    refine ⟨fun z => ?_, fun z other => ?_, landing⟩
    · have bound := within z
      simp only [count_append, count_cons] at bound ⊢
      omega
    have same := all z other
    have apart : y ≠ z := by
      rintro rfl
      exact other (vouched y (by simp [looks]) dead)
    simp only [count_append, count_cons, beq_iff_eq, if_neg apart] at same ⊢
    exact same
  | maintain => exact ⟨fun _ => rfl, .refl _⟩
  | sweepDead dead =>
    have no := vouched _ (by simp [looks]) dead
    rw [solo trivial] at no
    cases no
  | @sweepDue now y alive toClose toPing todo i _ _ _ =>
    refine ⟨fun z => ?_, counts.2⟩
    have same := counts.1 z
    simp only [count_append, count_cons, count_nil] at same ⊢
    omega
  | @sweepStay now y alive toClose toPing toPing' todo pings =>
    refine ⟨fun z => ?_, ?_⟩
    · have same := counts.1 z
      simp only [count_append, count_cons, count_nil] at same ⊢
      omega
    · rcases pings with rfl | rfl
      · exact counts.2.trans (sublist_append_left _ _)
      · exact counts.2.append (.refl _)
  | _ => trivial

theorem Counts.apart (streams : q.streams = p.streams) (closed : q.closed = p.closed)
    (fails : w' = w ∨ w = none) (counts : Counts p w sec) : Counts q w' sec := by
  cases sec with
  | compact =>
    refine ⟨fun x => streams ▸ counts.1 x, fun x other => ?_, closed ▸ counts.2.2⟩
    rw [streams]
    apply counts.2.1
    rcases fails with rfl | rfl
    · exact other
    · simp
  | sweep => exact ⟨fun x => streams ▸ counts.1 x, counts.2⟩
  | _ => trivial

/-! ### The list -/

theorem Enter.stays (other : ¬ Maintains (.inr pc)) (open_ : q.closed = false)
    (step : Enter p pc q next) : q.streams = p.streams := by
  cases step with
  | close => cases open_
  | remove => exact absurd trivial other
  | _ => rfl

theorem Inside.stays (counts : Counts p w sec) (other : ¬ Maintains (.inl sec))
    (unfailed : w ≠ some x) (there : x ∈ p.streams) (step : Inside cfg p t sec q next) :
    x ∈ q.streams := by
  have kept : ∀ next kept, sec = .compact next kept [] → x ∈ kept := by
    rintro next kept rfl
    have same := counts.2.1 x unfailed
    rw [append_nil] at same
    exact count_pos_iff.mp (same ▸ count_pos_iff.mpr there)
  cases step with
  | compacted | noRoom _ | stats => exact kept _ _ rfl
  | landed _ => exact mem_append_left _ (kept _ _ rfl)
  | maintain | swept => exact absurd trivial other
  | _ => exact there

theorem eq_nil_of_count_le {xs ys : List Nat} (within : ∀ x, xs.count x ≤ ys.count x)
    (empty : ys = []) : xs = [] := by
  apply eq_nil_iff_forall_not_mem.mpr
  intro x there
  have bound := within x
  have some_ := count_pos_iff.mpr there
  rw [empty, count_nil] at bound
  omega

theorem Enter.shut (shut : p.closed = true → p.streams = []) (step : Enter p pc q next)
    (closed : q.closed = true) : q.streams = [] := by
  cases step with
  | close => rfl
  | remove =>
    have empty := shut closed
    simp [empty]
  | _ => exact shut closed

theorem Inside.shut (counts : Counts p w sec) (shut : p.closed = true → p.streams = [])
    (step : Inside cfg p t sec q next) (closed : q.closed = true) : q.streams = [] := by
  have kept : ∀ next kept, sec = .compact next kept [] → p.closed = true → kept = [] := by
    rintro next kept rfl closed
    apply eq_nil_of_count_le (fun x => ?_) (shut closed)
    simpa using counts.1 x
  cases step with
  | compacted | noRoom _ | stats | maintain => exact kept _ _ rfl closed
  | landed _ =>
    have open_ : p.closed = false := counts.2.2 _ rfl
    rw [show p.closed = true from closed] at open_
    cases open_
  | @swept now alive =>
    apply eq_nil_of_count_le (fun x => ?_) (shut closed)
    have same := counts.1 x
    simp only [count_append] at same
    change alive.count x ≤ _
    omega
  | _ => exact shut closed

/-! ### Streams to be pinged -/

def Queued (e : Exit) : Prop := (pending e).Nodup ∧ ∀ x ∈ failed e, x ∉ pending e

theorem Enter.queued (queued : Queued (.inr pc)) (step : Enter p pc q next) : Queued next := by
  cases step with
  | remove => exact ⟨queued.1, by simp [failed]⟩
  | _ => exact ⟨nodup_nil, by simp [failed]⟩

theorem Enter.pending (queued : Queued (.inr pc))
    (listed : p.closed = false → ∀ x ∈ pending (.inr pc), x ∈ p.streams)
    (step : Enter p pc q next) (open_ : q.closed = false) : ∀ x ∈ pending next, x ∈ q.streams := by
  cases step with
  | @remove y =>
    intro x here
    have other : x ≠ y := by
      rintro rfl
      exact queued.2 x rfl here
    exact mem_filter.mpr ⟨listed open_ x here, by simpa using other⟩
  | _ => simp [pending]

theorem Inside.queued (counts : Counts p w sec) (once : ∀ x, p.streams.count x ≤ 1)
    (step : Inside cfg p t sec q next) : Queued next := by
  cases step with
  | @swept now alive =>
    refine ⟨?_, by simp [failed]⟩
    have distinct : alive.Nodup := by
      apply nodup_iff_count_le_one.mpr
      intro x
      have same := counts.1 x
      have bound := once x
      simp only [count_append] at same
      omega
    exact distinct.sublist counts.2
  | _ => exact ⟨nodup_nil, by simp [failed]⟩

theorem Inside.pending (counts : Counts p w sec) (step : Inside cfg p t sec q next) :
    ∀ x ∈ pending next, x ∈ q.streams := by
  cases step with
  | swept => exact fun x here => counts.2.subset here
  | _ => simp [pending]

theorem Outside.pending {next : PC} (step : Outside p pc q next) :
    (pending (.inr next)).Sublist (pending (.inr pc)) := by
  cases step with
  | skip | pinged | unanswered => exact sublist_cons_self _ _
  | _ => exact .refl _

theorem Outside.queued {next : PC} (queued : Queued (.inr pc)) (step : Outside p pc q next) :
    Queued (.inr next) := by
  refine ⟨queued.1.sublist step.pending, ?_⟩
  cases step with
  | unanswered =>
    rintro x ⟨rfl⟩
    exact (nodup_cons.mp queued.1).1
  | pingFailed => exact queued.2
  | _ => simp [failed]

theorem Outside.failed {next : PC} (step : Outside p pc q next) :
    failed (.inr pc) = none ∨
      failed (.inr next) = failed (.inr pc) := by
  cases step with
  | pingFailed => exact .inr rfl
  | _ => exact .inl rfl

end

/-! ## The balance of a pool -/

def failedAt (s : Monitor.State Pool Section PC) : Option Nat := (s.threads[0]?).bind failed

structure Balanced (node : Node) : Prop where
  exclusive : Exclusive node.pool
  solo : ∀ t e, node.pool.threads[t]? = some e → Maintains e → t = 0
  account : ∀ x, node.events.count x + listed (failedAt node.pool) node.pool.data x +
    (node.pool.threads.map fun e => (owes e).count x).sum =
      if x < node.pool.data.table.length then 1 else 0
  sections : ∀ (t : Nat) (sec : Section), node.pool.threads[t]? = some (.inl sec) →
    Counts node.pool.data (failedAt node.pool) sec
  queued : ∀ e, node.pool.threads[0]? = some e → Queued e
  pings : node.pool.data.closed = false → ∀ e, node.pool.threads[0]? = some e →
    ∀ x ∈ pending e, x ∈ node.pool.data.streams
  reported : ∀ e x, node.pool.threads[0]? = some e → failed e = some x →
    x ∈ owes e ∨ x ∈ node.events
  shut : node.pool.data.closed = true → node.pool.data.streams = []
  opened : node.pool.data.opened = node.pool.data.table.length
  closedEvents : node.pool.data.closedEvents = node.events.length

section

variable {node : Node} {cfg : Config} {t x : Nat} {old next : Exit} {d : Pool} {out : List Nat}
  {mutex : Option Nat}

section

variable (at_ : node.pool.threads[t]? = some old)
include at_

theorem failedAt_set (next : Exit) :
    failedAt { node.pool with data := d, mutex := mutex, threads := node.pool.threads.set t next } =
      if t = 0 then failed next else failedAt node.pool := by
  rw [failedAt, getElem?_set_of_some at_]
  by_cases first : t = 0
  · simp [first]
  · simp [first, Ne.symm first, failedAt]

structure Ready (node : Node) (d : Pool) (next : Exit) (out : List Nat) : Prop where
  queued : Queued next
  pings : d.closed = false → ∀ x ∈ pending next, x ∈ d.streams
  reported : ∀ x, failed next = some x → x ∈ owes next ∨ x ∈ node.events ++ out

theorem Balanced.move (balanced : Balanced node) {after : Monitor.State Pool Section PC}
    (moved : after = { data := d, mutex := mutex, threads := node.pool.threads.set t next })
    (exclusive : Exclusive after) (maintains : Maintains next → t = 0)
    (conserves : Conserves (failedAt node.pool) (failedAt after) node.pool.data d old next out)
    (sections : ∀ (j : Nat) (sec : Section), after.threads[j]? = some (.inl sec) →
      Counts d (failedAt after) sec)
    (ready : t = 0 → Ready node d next out)
    (opens : d.closed = false → node.pool.data.closed = false)
    (stays : t ≠ 0 → d.closed = false → ∀ x ∈ node.pool.data.streams,
      failedAt node.pool ≠ some x → x ∈ d.streams)
    (shut : d.closed = true → d.streams = []) :
    Balanced { pool := after, events := node.events ++ out } := by
  subst moved
  refine ⟨exclusive, ?_, ?_, sections, ?_, ?_, ?_, shut, ?_, ?_⟩
  · intro j e at_j here
    rcases getElem?_set_cases at_j with ⟨rfl, rfl⟩ | ⟨-, at_j⟩
    · exact maintains here
    · exact balanced.solo j e at_j here
  · intro x
    have before := balanced.account x
    have own := conserves.streams x
    have sum := sum_map_set (fun e => (owes e).count x) at_ next
    simp only [count_append] at sum ⊢
    omega
  · intro e here
    -- the goroutine of `background` has moved itself or is where it was
    rcases getElem?_set_cases here with ⟨zero, rfl⟩ | ⟨-, there⟩
    · exact (ready zero.symm).queued
    · exact balanced.queued e there
  · intro open_ e here
    rcases getElem?_set_cases here with ⟨zero, rfl⟩ | ⟨other, there⟩
    · exact (ready zero.symm).pings open_
    · intro x waits
      apply stays other.symm open_ x (balanced.pings (opens open_) e there x waits)
      intro fails
      rw [failedAt, there, bind_some] at fails
      exact (balanced.queued e there).2 x fails waits
  · intro e x here fails
    rcases getElem?_set_cases here with ⟨zero, rfl⟩ | ⟨-, there⟩
    · exact (ready zero.symm).reported x fails
    · rcases balanced.reported e x there fails with own | before
      · exact .inl own
      · exact .inr (mem_append_left _ before)
  · have before := balanced.opened
    have own := conserves.opened
    change d.opened = d.table.length
    omega
  · have before := balanced.closedEvents
    have own := conserves.closedEvents
    change d.closedEvents = (node.events ++ out).length
    rw [length_append]
    omega

theorem Balanced.turn (balanced : Balanced node) (maintains : Maintains next → t = 0) :
    Turn old next (failedAt node.pool)
      (failedAt { node.pool with data := d, mutex := mutex,
                                 threads := node.pool.threads.set t next }) := by
  rw [failedAt_set at_]
  by_cases first : t = 0
  · subst first
    exact .inr ⟨by rw [failedAt, at_]; rfl, if_pos rfl⟩
  · refine .inl ⟨if_neg first, ?_, ?_⟩
    · by_contra here
      exact first (balanced.solo t old at_ (maintains_of_failed here))
    · by_contra here
      exact first (maintains (maintains_of_failed here))

theorem Balanced.unfailed (balanced : Balanced node)
    (other : t ≠ 0) (owed : x ∈ owes old) : failedAt node.pool ≠ some x := by
  intro fails
  obtain ⟨e, there, fails⟩ := bind_eq_some_iff.mp fails
  have total := balanced.account x
  have mine := count_pos_iff.mpr owed
  have bound : (if x < node.pool.data.table.length then 1 else 0) ≤ 1 := by
    split <;> omega
  rcases balanced.reported e x there fails with owed' | before
  · have both := add_le_sum_map (fun e => (owes e).count x) at_ there other
    have his := count_pos_iff.mpr owed'
    omega
  · have share := le_sum_map (fun e => (owes e).count x) at_
    have his := count_pos_iff.mpr before
    omega

end

theorem Balanced.once (balanced : Balanced node) (none_ : failedAt node.pool = none) (x : Nat) :
    node.pool.data.streams.count x ≤ 1 := by
  have total := balanced.account x
  have bound : (if x < node.pool.data.table.length then 1 else 0) ≤ 1 := by
    split <;> omega
  rw [none_] at total
  simp only [listed, reduceCtorEq, if_false] at total
  omega

variable {sec : Section}

section

variable (balanced : Balanced node)
include balanced

theorem Balanced.failedAt_inside
    (at_ : node.pool.threads[t]? = some (.inl sec)) (maintains : Maintains (.inl sec)) :
    failedAt node.pool = none := by
  obtain rfl := balanced.solo t _ at_ maintains
  rw [failedAt, at_]
  rfl

theorem Balanced.failedAt_of_mem {th : Exit}
    (there : th ∈ node.pool.threads) (fails : failed th = some x) :
    failedAt node.pool = some x := by
  obtain ⟨j, at_j⟩ := mem_iff_getElem?.mp there
  obtain rfl := balanced.solo j th at_j (maintains_of_failed (by simp [fails]))
  rw [failedAt, at_j]
  exact fails

/-! ### Steps of the pool -/

theorem Balanced.enter {pc : PC} (tracked : Tracked node.pool (.lock t))
    (free : node.pool.mutex = none) (at_ : node.pool.threads[t]? = some (.inr pc))
    (entered : enter node.pool.data t pc = some (d, next)) :
    Balanced { pool := node.pool.land t d next, events := node.events ++ [] } := by
  have step := enter_cases entered
  have maintains : Maintains next → t = 0 := fun here => balanced.solo t _ at_ (step.maintains here)
  have alone : ∀ j, node.pool.mutex = some j → j = t := by simp [free]
  rw [Tracked, at_] at tracked
  have conserves : Conserves (failedAt node.pool) (failedAt (node.pool.land t d next))
      node.pool.data d (.inr pc) next [] := by
    apply step.conserves (balanced.turn at_ maintains)
    · rintro y rfl
      exact tracked
    rintro rfl open_ y fails
    rcases tracked with closed | untouched
    · rw [open_] at closed
      cases closed
    · obtain ⟨e, there, fails⟩ := bind_eq_some_iff.mp fails
      exact untouched e (mem_of_getElem? there) y fails
  refine balanced.move at_ rfl (balanced.exclusive.land d alone) maintains conserves ?_ ?_ ?_ ?_
    (step.shut balanced.shut)
  · intro j sec at_j
    obtain ⟨-, rfl⟩ := balanced.exclusive.landed alone at_j
    exact step.counts
  · rintro rfl
    refine ⟨step.queued (balanced.queued _ at_),
      step.pending (balanced.queued _ at_) fun open_ => balanced.pings open_ _ at_, ?_⟩
    intro x fails
    cases step <;> cases fails
  · intro open_
    cases step with
    | close => cases open_
    | _ => exact open_
  · intro other open_ x there _
    rw [step.stays (fun here => other (balanced.solo t _ at_ here)) open_]
    exact there

theorem Balanced.inside (tracked : Tracked node.pool (.go t))
    (at_ : node.pool.threads[t]? = some (.inl sec))
    (moved : inside cfg node.pool.data t sec = (d, next)) :
    Balanced { pool := node.pool.land t d next, events := node.events ++ reports (.inl sec) } := by
  have step := inside_cases moved
  have maintains : Maintains next → t = 0 := fun here => balanced.solo t _ at_ (step.maintains here)
  have counts := balanced.sections t sec at_
  have alone := balanced.exclusive.alone at_
  have vouched : ∀ x ∈ looks sec, node.pool.data.alive x = false →
      failedAt node.pool = some x := by
    intro x here dead
    have known : node.pool.data.alive x = true ∨ ∃ th ∈ node.pool.threads, failed th = some x := by
      rw [Tracked, at_] at tracked
      unfold looks at here
      split at here
      · exact mem_singleton.mp here ▸ tracked
      · exact mem_singleton.mp here ▸ tracked
      · cases here
    rcases known with alive | ⟨th, there, fails⟩
    · rw [dead] at alive
      cases alive
    · exact balanced.failedAt_of_mem there fails
  have turn : Turn (.inl sec) next (failedAt node.pool) (failedAt (node.pool.land t d next)) :=
    balanced.turn at_ maintains
  have same : failedAt (node.pool.land t d next) = failedAt node.pool := by
    apply turn.same rfl
    cases step <;> rfl
  have conserves := step.conserves turn counts (fun y owed => ?_) (balanced.failedAt_inside at_)
  · refine balanced.move at_ rfl (balanced.exclusive.land d alone) maintains conserves
      ?_ ?_ ?_ ?_ (step.shut counts balanced.shut)
    · intro j sec' at_j
      obtain ⟨-, rfl⟩ := balanced.exclusive.landed alone at_j
      rw [same]
      exact step.counts counts vouched (balanced.failedAt_inside at_)
    · rintro rfl
      have none_ : failedAt node.pool = none := by
        rw [failedAt, at_]
        rfl
      refine ⟨step.queued counts (balanced.once none_), fun _ => step.pending counts, ?_⟩
      intro x fails
      cases step <;> cases fails
    · intro open_
      cases step <;> exact open_
    · intro other _ x there unfailed
      exact step.stays counts (fun here => other (balanced.solo t _ at_ here)) unfailed there
  · by_cases first : t = 0
    · subst first
      rw [failedAt, at_]
      simp [failed]
    · exact balanced.unfailed at_ first owed

theorem Balanced.outside (cfg : Config) {pc next : PC} {act : Act}
    (tracked : Tracked node.pool (.run t act)) (at_ : node.pool.threads[t]? = some (.inr pc))
    (moved : outside node.pool.data t pc act = some (d, next)) :
    Balanced { pool := { node.pool with data := d, threads := node.pool.threads.set t (.inr next) },
               events := node.events ++ reports (.inr pc) } := by
  have step := outside_cases moved
  have maintains : Maintains (.inr next) → t = 0 := fun here =>
    balanced.solo t _ at_ (step.maintains here)
  have apart := step.apart
  have exclusive : Exclusive
      { node.pool with data := d, threads := node.pool.threads.set t (.inr next) } :=
    (Step.outside (m := monitor cfg) at_ moved).exclusive balanced.exclusive
  have turn : Turn (.inr pc) (.inr next) (failedAt node.pool) (failedAt
      { node.pool with data := d, threads := node.pool.threads.set t (.inr next) }) :=
    balanced.turn at_ maintains
  have conserves := step.conserves turn fun y toPing here failing => ?_
  · refine balanced.move at_ rfl exclusive maintains conserves ?_ ?_ ?_ ?_ ?_
    · intro j sec at_j
      apply (balanced.sections j sec (inside_of_set at_j)).apart apart.streams apart.closed
      rcases turn with ⟨same, -⟩ | ⟨before, behind⟩
      · exact .inl same
      · rcases step.failed with none_ | same
        · exact .inr (before.trans none_)
        · exact .inl (behind.trans (same.trans before.symm))
    · rintro rfl
      refine ⟨step.queued (balanced.queued _ at_), fun open_ x here => ?_, fun x fails => ?_⟩
      · rw [apart.streams]
        exact balanced.pings (apart.closed ▸ open_) _ at_ x (step.pending.subset here)
      cases step with cases fails
      | unanswered =>
        simp [owes]
      | pingFailed =>
        simp [reports]
      | _ => cases fails
    · exact fun open_ => apart.closed ▸ open_
    · exact fun _ _ x there _ => apart.streams ▸ there
    · exact fun closed => apart.streams ▸ balanced.shut (apart.closed ▸ closed)
  · -- the pool is open, so that the stream is still in the list
    subst here failing
    obtain rfl := balanced.solo t _ at_ trivial
    have open_ : node.pool.data.closed = false := by
      cases act with
      | ping ok =>
        cases ok with
        | true => cases moved
        | false => exact tracked
      | _ => cases moved
    have there := balanced.pings open_ _ at_ y (by simp [pending])
    have atLeast := count_pos_iff.mpr there
    have atMost := balanced.once (by rw [failedAt, at_]; rfl) y
    omega

end

theorem environment_counters {p q : Pool} {e : Env} (changed : environment p e = some q) :
    q.opened = p.opened ∧ q.closedEvents = p.closedEvents := by
  rcases environment_cases changed with ⟨_, _, _, rfl⟩ | ⟨x, rfl | rfl⟩ <;> exact ⟨rfl, rfl⟩

theorem Balanced.environment {e : Env} (balanced : Balanced node)
    (changed : environment node.pool.data e = some d) :
    Balanced { pool := { node.pool with data := d }, events := node.events ++ [] } := by
  have apart := environment_apart changed
  obtain ⟨opened, closedEvents⟩ := environment_counters changed
  have length := environment_length changed
  refine ⟨balanced.exclusive, balanced.solo, fun x => ?_, fun j sec at_j => ?_, balanced.queued,
    fun open_ e at_ x here => ?_, fun e x at_ fails => ?_, fun closed => ?_, ?_, ?_⟩
  · have before := balanced.account x
    simp only [listed, length, apart.streams, append_nil] at before ⊢
    exact before
  · exact (balanced.sections j sec at_j).apart apart.streams apart.closed (.inl rfl)
  · exact apart.streams ▸ balanced.pings (apart.closed ▸ open_) e at_ x here
  · simpa using balanced.reported e x at_ fails
  · exact apart.streams ▸ balanced.shut (apart.closed ▸ closed)
  · exact opened.trans (balanced.opened.trans length.symm)
  · simpa using closedEvents.trans balanced.closedEvents

theorem Balanced.step {node' : Node} {l : Monitor.Label Act Env} (balanced : Balanced node)
    (tracked : Tracked node.pool l) (step : node.step cfg l = some node') : Balanced node' := by
  obtain ⟨pool, stepped, rfl⟩ := map_eq_some_iff.mp step
  have kind := Monitor.step_cases stepped
  cases kind with
  | enter free at_ entered => exact balanced.enter tracked free at_ entered
  | inside at_ moved =>
    simp only [StreamPool.reported, at_, elim_some]
    exact balanced.inside tracked at_ moved
  | outside at_ moved =>
    simp only [StreamPool.reported, at_, elim_some]
    exact balanced.outside cfg tracked at_ moved
  | environment changed => exact balanced.environment changed

theorem Balanced.call (balanced : Balanced node) {err : Option GetErr} {op : Op}
    (idle : node.pool.threads[t]? = some (.inr (.done err))) (ticker : op = .maintain → t = 0) :
    Balanced (node.call t op) := by
  have maintains : Maintains (.inr (.start op)) → t = 0 := by
    intro here
    cases op with
    | maintain => exact ticker rfl
    | _ => cases here
  have exclusive : Exclusive (node.call t op).pool :=
    fun j sec at_j => balanced.exclusive j sec (inside_of_set at_j)
  have same : failedAt (node.call t op).pool = failedAt node.pool :=
    (balanced.turn idle maintains).same rfl rfl
  have conserves : Conserves (failedAt node.pool) (failedAt (node.call t op).pool) node.pool.data
      node.pool.data (.inr (.done err)) (.inr (.start op)) [] := by
    rw [same]
    exact .of_eq rfl rfl rfl rfl rfl
  have moved := balanced.move idle rfl exclusive maintains conserves ?_ ?_ id
    (fun _ _ x there _ => there) balanced.shut
  · rw [append_nil] at moved
    exact moved
  · intro j sec at_j
    exact (balanced.sections j sec (inside_of_set at_j)).apart rfl rfl (.inl same)
  · intro _
    exact ⟨⟨nodup_nil, by simp [failed]⟩, by simp [pending], by simp [failed]⟩

/-! ### What the balance says of the reports -/

theorem Balanced.new (callers : Nat) : Balanced (Node.new callers) := by
  have idle : ∀ (t : Nat) (e : Exit), (Node.new callers).pool.threads[t]? = some e →
      e = .inr (.done none) := fun t e at_ => eq_of_mem_replicate (mem_of_getElem? at_)
  have first : failedAt (Node.new callers).pool = none := rfl
  refine ⟨fun t sec at_ => ?_, fun t e at_ here => ?_, fun x => ?_, fun t sec at_ => ?_,
    fun e at_ => ?_, fun _ e at_ => ?_, fun e x at_ fails => ?_, fun _ => rfl, rfl, rfl⟩
  · cases idle t _ at_
  · cases idle t e at_
    cases here
  · have none_ : ((Node.new callers).pool.threads.map fun e => (owes e).count x).sum = 0 := by
      simp [Node.new, owes]
    rw [none_, first]
    simp [Node.new, listed]
  · cases idle t _ at_
  · cases idle 0 e at_
    exact ⟨nodup_nil, by simp [failed]⟩
  · cases idle 0 e at_
    simp [pending]
  · cases idle 0 e at_
    cases fails

theorem Balanced.count_events (balanced : Balanced node) (x : Nat) :
    node.events.count x ≤ if x < node.pool.data.table.length then 1 else 0 := by
  have total := balanced.account x
  omega

theorem Balanced.length_le (balanced : Balanced node) :
    node.events.length ≤ node.pool.data.table.length := by
  have distinct : node.events.Nodup := by
    apply nodup_iff_count_le_one.mpr
    intro x
    have bound := balanced.count_events x
    split at bound <;> omega
  have within : node.events ⊆ List.range node.pool.data.table.length := by
    intro x there
    have bound := balanced.count_events x
    have some_ := count_pos_iff.mpr there
    apply mem_range.mpr
    by_contra beyond
    rw [if_neg beyond] at bound
    omega
  simpa using (subperm_of_subset distinct within).length_le

theorem Balanced.length_events (balanced : Balanced node) (closed : node.pool.data.closed = true)
    (idle : ∀ th ∈ node.pool.threads, ∃ err, th = .inr (.done err)) :
    node.events.length = node.pool.data.table.length := by
  have all : ∀ x, node.events.count x = (List.range node.pool.data.table.length).count x := by
    intro x
    have total := balanced.account x
    have none_ : (node.pool.threads.map fun e => (owes e).count x).sum = 0 := by
      apply sum_eq_zero
      intro n there
      obtain ⟨e, inside, rfl⟩ := mem_map.mp there
      obtain ⟨-, rfl⟩ := idle e inside
      rfl
    have unlisted : listed (failedAt node.pool) node.pool.data x = 0 := by
      rw [listed, balanced.shut closed]
      split <;> rfl
    rw [none_, unlisted] at total
    rw [count_range]
    exact total
  simpa using (perm_iff_count.mpr all).length_eq

end

end Soil.Net.StreamPool
