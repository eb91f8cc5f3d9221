import Soil.Monitor
import Soil.Net.Endpoint

/-!
# The pool of streams of an endpoint

`streamPool`: `Get` hands out the stream with the lowest load, dials a new one as long
as there is room, or waits; `maintain` closes streams that are old or idle and pings
others; `Close` closes the rest.  What happens under `p.mu` are the sections below, with
one step for every read of another goroutine's atomics; the mutex is free during a dial,
while the waiting of `cond.Wait` lasts and between the sections of `maintain`.  Streams
are known by their numbers, in the order in which they were dialled; they die and become
active whenever the environment says so.
-/

namespace Soil.Net.StreamPool

open List StreamPool

structure Config where
  maxOpenConns : Int
  idleTimeout : Int
  maxLifetime : Int
  heartbeatInterval : Int
  deriving DecidableEq, Repr

def Config.maxOpen (cfg : Config) : Int := if cfg.maxOpenConns ≤ 0 then 1 else cfg.maxOpenConns

structure Info where
  alive : Bool := true
  inflight : Int := 0
  createdAt : Nat
  lastActive : Nat
  deriving DecidableEq, Repr

/-- The pool with the streams it has dialled.  `opened` and `closedEvents` count the
metrics `ConnectionOpened` and `ConnectionClosed`, `waiting` are the goroutines in
`cond.Wait`, `cancelled` those whose context has ended, `maintaining` the runs of
`maintain` in progress. -/
structure Pool where
  closed : Bool := false
  streams : List Nat := []
  dialing : Int := 0
  table : List Info := []
  clock : Nat := 0
  waiting : List Nat := []
  cancelled : List Nat := []
  maintaining : Nat := 0
  opened : Nat := 0
  closedEvents : Nat := 0
  deriving DecidableEq, Repr

namespace Pool

def alive (p : Pool) (x : Nat) : Bool := (p.table[x]?).all Info.alive

def inflight (p : Pool) (x : Nat) : Int := (p.table[x]?).elim 0 Info.inflight

def update (p : Pool) (x : Nat) (f : Info → Info) : Pool := { p with table := p.table.modify x f }

def closeStream (p : Pool) (x : Nat) : Pool := p.update x fun i => { i with alive := false }

def touch (p : Pool) (x : Nat) : Pool := p.update x fun i => { i with lastActive := p.clock }

def addInflight (p : Pool) (x : Nat) (n : Int) : Pool :=
  p.update x fun i => { i with inflight := i.inflight + n }

def closeCounted (p : Pool) (x : Nat) : Pool :=
  { p.closeStream x with closedEvents := p.closedEvents + 1 }

def newStream (p : Pool) : Pool :=
  let s : Info := { createdAt := p.clock, lastActive := p.clock }
  { p with table := p.table ++ [s], opened := p.opened + 1 }

def broadcast (p : Pool) : Pool := { p with waiting := [] }

end Pool

inductive Op where
  | call
  | maintain
  | stats
  | close
  deriving DecidableEq, Repr

inductive Cont where
  | get
  | landed (x : Nat)
  | maintain (now : Nat)
  | stats
  deriving DecidableEq, Repr

inductive Look where
  | first
  | last
  | full
  deriving DecidableEq, Repr

inductive Section where
  | check
  | compact (next : Cont) (kept todo : List Nat)
  | pick (look : Look) (best : Option (Nat × Int)) (todo : List Nat)
  | load (look : Look) (best : Option (Nat × Int)) (x : Nat) (todo : List Nat)
  | wait
  | full (x : Nat)
  | sweep (now : Nat) (alive toClose toPing todo : List Nat)
  deriving DecidableEq, Repr

inductive PC where
  | start (op : Op)
  | maintain (now : Nat)
  | waiting
  | dial
  | dialed (x : Option Nat)
  | got (x : Nat)
  | live (x : Nat)
  | raise (x : Nat)
  | touch (x : Nat)
  | calling (x : Nat)
  | closing (toClose toPing : List Nat)
  | pings (toPing : List Nat)
  | pinging (x : Nat) (toPing : List Nat)
  | pingFailed (x : Nat) (toPing : List Nat)
  | remove (x : Nat) (toPing : List Nat)
  | removed (toPing : List Nat)
  | taken (streams : List Nat)
  | background
  | done (err : Option GetErr)
  deriving DecidableEq, Repr

abbrev Exit := Section ⊕ PC

inductive Act where
  | go
  | dial (ok : Bool)
  | ping (ok : Bool)
  deriving DecidableEq, Repr

inductive Env where
  | tick (n : Nat)
  | cancel (t : Nat)
  | afterFunc (t : Nat)
  | die (x : Nat)
  | active (x : Nat)
  deriving DecidableEq, Repr

/-! ## Under the mutex -/

def Pool.compacted (cfg : Config) (p : Pool) (kept : List Nat) : Cont → Pool × Exit
  | .get => ({ p with streams := kept }, .inl (.pick .first none kept))
  | .landed x =>
    if cfg.maxOpen ≤ kept.length then ({ p with streams := kept }, .inl (.full x))
    else ({ p with streams := kept ++ [x] }, .inr (.got x))
  | .maintain now => ({ p with streams := kept }, .inl (.sweep now [] [] [] kept))
  | .stats => ({ p with streams := kept }, .inr (.done none))

def Pool.dialOrLook (cfg : Config) (p : Pool) : Pool × Exit :=
  if p.streams.length + p.dialing < cfg.maxOpen then
    ({ p with dialing := p.dialing + 1 }, .inr .dial)
  else (p, .inl (.pick .last none p.streams))

def Pool.picked (cfg : Config) (p : Pool) : Look → Option (Nat × Int) → Pool × Exit
  | .first, some (x, _) =>
    if cfg.maxOpen ≤ p.streams.length + p.dialing ∨ p.inflight x < 32 then (p, .inr (.got x))
    else p.dialOrLook cfg
  | .first, none => p.dialOrLook cfg
  | .last, some (x, _) => (p, .inr (.got x))
  | .last, none => (p, .inl .wait)
  | .full, some (x, _) => (p, .inr (.got x))
  | .full, none => (p, .inl .check)

def Config.Due (cfg : Config) (now : Nat) (i : Info) : Prop :=
  (0 < cfg.maxLifetime ∧ cfg.maxLifetime < (now : Int) - i.createdAt ∧ i.inflight = 0) ∨
    (0 < cfg.idleTimeout ∧ i.inflight = 0 ∧ cfg.idleTimeout < (now : Int) - i.lastActive)

instance (cfg : Config) (now : Nat) (i : Info) : Decidable (cfg.Due now i) :=
  inferInstanceAs (Decidable (_ ∨ _))

def Pool.sweepOne (cfg : Config) (p : Pool) (now : Nat) (alive toClose toPing : List Nat) (x : Nat)
    (todo : List Nat) : Section :=
  match p.table[x]? with
  | none => .sweep now (alive ++ [x]) toClose toPing todo
  | some i =>
    if i.alive = false then .sweep now alive toClose toPing todo
    else if cfg.Due now i then .sweep now alive (toClose ++ [x]) toPing todo
    else if 0 < cfg.heartbeatInterval ∧ cfg.heartbeatInterval ≤ (now : Int) - i.lastActive then
      .sweep now (alive ++ [x]) toClose (toPing ++ [x]) todo
    else .sweep now (alive ++ [x]) toClose toPing todo

def inside (cfg : Config) (p : Pool) (t : Nat) : Section → Pool × Exit
  | .check =>
    if p.closed then (p, .inr (.done (some .poolClosed)))
    else if t ∈ p.cancelled then (p, .inr (.done (some .ctx)))
    else (p, .inl (.compact .get [] p.streams))
  | .compact next kept (x :: todo) =>
    (p, .inl (.compact next (if p.alive x then kept ++ [x] else kept) todo))
  | .compact next kept [] => p.compacted cfg kept next
  | .pick look best (x :: todo) =>
    (p, .inl (if p.alive x then .load look best x todo else .pick look best todo))
  | .load look best x todo =>
    let load := p.inflight x
    (p, .inl (.pick look (if best.all fun b => load < b.2 then some (x, load) else best) todo))
  | .pick look best [] => p.picked cfg look best
  | .wait =>
    if t ∈ p.cancelled then (p, .inr (.done (some .ctx)))
    else ({ p with waiting := t :: p.waiting }, .inr .waiting)
  | .full x => (p.closeCounted x, .inl (.pick .full none p.streams))
  | .sweep now alive toClose toPing (x :: todo) =>
    (p, .inl (p.sweepOne cfg now alive toClose toPing x todo))
  | .sweep _ alive toClose toPing [] => ({ p with streams := alive }, .inr (.closing toClose
    toPing))

def enter (p : Pool) (t : Nat) : PC → Option (Pool × Exit)
  | .start .call => some (p, .inl .check)
  | .start .stats => some (p, .inl (.compact .stats [] p.streams))
  | .start .close =>
    if p.closed then some (p, .inr (.done none))
    else some ({ p.broadcast with closed := true, streams := [] }, .inr (.taken p.streams))
  | .maintain now =>
    if p.closed then some ({ p with maintaining := p.maintaining - 1 }, .inr (.done none))
    else some (p, .inl (.compact (.maintain now) [] p.streams))
  | .waiting =>
    if t ∈ p.waiting then none
    else if p.closed then some (p, .inr (.done (some .poolClosed)))
    else if t ∈ p.cancelled then some (p, .inr (.done (some .ctx)))
    else some (p, .inl .check)
  | .dialed none =>
    some ({ p.broadcast with dialing := p.dialing - 1 }, .inr (.done (some .dial)))
  | .dialed (some x) =>
    let q := { p.broadcast with dialing := p.dialing - 1 }
    if p.closed then some (q.closeStream x, .inr (.done (some .poolClosed)))
    else some (q, .inl (.compact (.landed x) [] p.streams))
  | .remove x toPing =>
    some ({ p with streams := p.streams.filter (· ≠ x) }, .inr (.removed toPing))
  | _ => none

/-! ## Outside the mutex -/

def outside (p : Pool) (t : Nat) : PC → Act → Option (Pool × PC)
  | .start .maintain, .go =>
    some ({ p with maintaining := p.maintaining + 1 }, .maintain p.clock)
  | .dial, .dial true => some (p.newStream, .dialed (some p.table.length))
  | .dial, .dial false => some (p, .dialed none)
  | .got x, .go => some (p, if t ∈ p.cancelled then .done (some .ctx) else .live x)
  | .live x, .go => some (p, if p.alive x then .raise x else .done none)
  | .raise x, .go => some (p.addInflight x 1, .touch x)
  | .touch x, .go => some (p.touch x, .calling x)
  -- the rest of `stream.Call` takes as long as it takes
  | .calling x, .go => some (p.addInflight x (-1), .done none)
  | .closing (x :: toClose) toPing, .go => some (p.closeCounted x, .closing toClose toPing)
  | .closing [] toPing, .go => some (p.broadcast, .pings toPing)
  | .pings (x :: toPing), .go => some (p, if p.alive x then .pinging x toPing else .pings toPing)
  | .pings [], .go => some ({ p with maintaining := p.maintaining - 1 }, .done none)
  | .pinging x toPing, .ping true => some (p.touch x, .pings toPing)
  | .pinging x toPing, .ping false => some (p, .pingFailed x toPing)
  | .pingFailed x toPing, .go => some (p.closeCounted x, .remove x toPing)
  | .removed toPing, .go => some (p.broadcast, .pings toPing)
  | .taken (x :: streams), .go => some (p.closeCounted x, .taken streams)
  | .taken [], .go => some (p, .background)
  | .background, .go => if p.maintaining = 0 then some (p, .done none) else none
  | _, _ => none

def environment (p : Pool) : Env → Option Pool
  | .tick n => some { p with clock := p.clock + n }
  | .cancel t => some { p with cancelled := t :: p.cancelled }
  | .afterFunc t => if t ∈ p.cancelled then some p.broadcast else none
  | .die x => some (p.closeStream x)
  | .active x => some (p.touch x)

def monitor (cfg : Config) : Monitor Pool Section PC Act Env where
  enter := enter
  inside := inside cfg
  outside := outside
  environment := environment

def pool (cfg : Config) (ops : List Op) :
    System (Monitor.State Pool Section PC) (Monitor.Label Act Env) :=
  (monitor cfg).system fun p pcs => p = {} ∧ pcs = ops.map .start

/-! ## Streams that are closed -/

open Pool

section

variable {p q : Pool} {x : Nat}

def Pool.Fades (p q : Pool) : Prop := ∀ x, p.alive x = false → q.alive x = false

theorem alive_eq_false : p.alive x = false ↔ ∃ i, p.table[x]? = some i ∧ i.alive = false := by
  rw [alive]
  cases p.table[x]? with
  | none => simp
  | some => simp

theorem Pool.fades_update {f : Info → Info} (keeps : ∀ i, i.alive = false → (f i).alive = false)
    (y : Nat) : p.Fades (p.update y f) := by
  intro x dead
  obtain ⟨i, at_, closed⟩ := alive_eq_false.mp dead
  apply alive_eq_false.mpr
  rw [update, List.getElem?_modify, at_]
  by_cases same : y = x
  · exact ⟨f i, by simp [same], keeps i closed⟩
  · exact ⟨i, by simp [same], closed⟩

theorem Pool.fades_newStream : p.Fades p.newStream := by
  intro x dead
  obtain ⟨i, at_, closed⟩ := alive_eq_false.mp dead
  obtain ⟨inside, -⟩ := List.getElem?_eq_some_iff.mp at_
  refine alive_eq_false.mpr ⟨i, ?_, closed⟩
  rw [newStream, List.getElem?_append_left inside, at_]

theorem closeStream_alive (inside : x < p.table.length) : (p.closeStream x).alive x = false := by
  apply alive_eq_false.mpr
  rw [closeStream, update, List.getElem?_modify, List.getElem?_eq_getElem inside]
  simp

end

/-! ## Steps outside the mutex -/

inductive Outside (p : Pool) : PC → Pool → PC → Prop
  | maintain : Outside p (.start .maintain) { p with maintaining := p.maintaining + 1 }
      (.maintain p.clock)
  | dialed : Outside p .dial p.newStream (.dialed (some p.table.length))
  | undialed : Outside p .dial p (.dialed none)
  | cancelled {x : Nat} : Outside p (.got x) p (.done (some .ctx))
  | call {x : Nat} : Outside p (.got x) p (.live x)
  | live {x : Nat} : Outside p (.live x) p (.raise x)
  | dead {x : Nat} : p.alive x = false → Outside p (.live x) p (.done none)
  | raise {x : Nat} : Outside p (.raise x) (p.addInflight x 1) (.touch x)
  | touch {x : Nat} : Outside p (.touch x) (p.touch x) (.calling x)
  | returns {x : Nat} : Outside p (.calling x) (p.addInflight x (-1)) (.done none)
  | close {x : Nat} {toClose toPing : List Nat} :
      Outside p (.closing (x :: toClose) toPing) (p.closeCounted x) (.closing toClose toPing)
  | closed {toPing : List Nat} : Outside p (.closing [] toPing) p.broadcast (.pings toPing)
  | ping {x : Nat} {toPing : List Nat} : Outside p (.pings (x :: toPing)) p (.pinging x toPing)
  | skip {x : Nat} {toPing : List Nat} : Outside p (.pings (x :: toPing)) p (.pings toPing)
  | pinged {x : Nat} {toPing : List Nat} : Outside p (.pinging x toPing) (p.touch x) (.pings toPing)
  | unanswered {x : Nat} {toPing : List Nat} :
      Outside p (.pinging x toPing) p (.pingFailed x toPing)
  | pingFailed {x : Nat} {toPing : List Nat} :
      Outside p (.pingFailed x toPing) (p.closeCounted x) (.remove x toPing)
  | removed {toPing : List Nat} : Outside p (.removed toPing) p.broadcast (.pings toPing)
  | maintained : Outside p (.pings []) { p with maintaining := p.maintaining - 1 } (.done none)
  | take {x : Nat} {streams : List Nat} :
      Outside p (.taken (x :: streams)) (p.closeCounted x) (.taken streams)
  | taken : Outside p (.taken []) p .background
  | background : Outside p .background p (.done none)

section

variable {p q : Pool} {t : Nat} {pc next : PC} {act : Act} {e : Env}

theorem outside_cases (moved : outside p t pc act = some (q, next)) : Outside p pc q next := by
  unfold outside at moved
  split at moved
  all_goals
    try split at moved
    all_goals
      cases moved
      try split
      all_goals first
        | exact .dead (eq_false_of_ne_true (by assumption))
        | constructor

structure Pool.Apart (p q : Pool) : Prop where
  streams : q.streams = p.streams
  dialing : q.dialing = p.dialing
  closed : q.closed = p.closed
  fades : p.Fades q

theorem Pool.Apart.update {f : Info → Info} (keeps : ∀ i, i.alive = false → (f i).alive = false)
    (x : Nat) : p.Apart (p.update x f) :=
  ⟨rfl, rfl, rfl, fades_update keeps x⟩

theorem Pool.Apart.touch (x : Nat) : p.Apart (p.touch x) := by
  apply Pool.Apart.update
  intro i dead
  exact dead

theorem Pool.Apart.addInflight (x : Nat) (n : Int) : p.Apart (p.addInflight x n) := by
  apply Pool.Apart.update
  intro i dead
  exact dead

theorem Pool.Apart.closeCounted (x : Nat) : p.Apart (p.closeCounted x) :=
  ⟨rfl, rfl, rfl, fades_update (fun _ _ => rfl) x⟩

theorem Outside.apart (step : Outside p pc q next) : p.Apart q := by
  cases step with
  | dialed => exact ⟨rfl, rfl, rfl, fades_newStream⟩
  | raise | returns => exact .addInflight _ _
  | touch | pinged => exact .touch _
  | close | pingFailed | take => exact .closeCounted _
  | _ => exact ⟨rfl, rfl, rfl, fun _ dead => dead⟩

theorem environment_cases (changed : environment p e = some q) :
    (∃ clock cancelled waiting, q = { p with clock, cancelled, waiting }) ∨
      ∃ x, q = p.closeStream x ∨ q = p.touch x := by
  cases e with
  | tick | cancel =>
    cases changed
    exact .inl ⟨_, _, _, rfl⟩
  | afterFunc =>
    rw [environment] at changed
    split at changed
    · cases changed
      exact .inl ⟨_, _, _, rfl⟩
    · cases changed
  | die x =>
    cases changed
    exact .inr ⟨x, .inl rfl⟩
  | active x =>
    cases changed
    exact .inr ⟨x, .inr rfl⟩

theorem environment_apart (changed : environment p e = some q) : p.Apart q := by
  rcases environment_cases changed with ⟨_, _, _, rfl⟩ | ⟨x, rfl | rfl⟩
  · exact ⟨rfl, rfl, rfl, fun _ dead => dead⟩
  · exact .update (fun _ _ => rfl) x
  · exact .touch x

end

/-! ## Steps under the mutex -/

inductive Enter (p : Pool) : PC → Pool → Exit → Prop
  | call : Enter p (.start .call) p (.inl .check)
  | stats : Enter p (.start .stats) p (.inl (.compact .stats [] p.streams))
  | close : p.closed = false → Enter p (.start .close)
      { p.broadcast with closed := true, streams := [] } (.inr (.taken p.streams))
  | closed : p.closed = true → Enter p (.start .close) p (.inr (.done none))
  | maintain {now : Nat} : p.closed = false →
      Enter p (.maintain now) p (.inl (.compact (.maintain now) [] p.streams))
  | ended {now : Nat} : p.closed = true →
      Enter p (.maintain now) { p with maintaining := p.maintaining - 1 } (.inr (.done none))
  | woken : Enter p .waiting p (.inl .check)
  | gaveUp {err : Option GetErr} : Enter p .waiting p (.inr (.done err))
  | undialed : Enter p (.dialed none) { p.broadcast with dialing := p.dialing - 1 }
      (.inr (.done (some .dial)))
  | dialed {x : Nat} : p.closed = false →
      Enter p (.dialed (some x)) { p.broadcast with dialing := p.dialing - 1 }
        (.inl (.compact (.landed x) [] p.streams))
  | late {x : Nat} : p.closed = true →
      Enter p (.dialed (some x))
        (({ p.broadcast with dialing := p.dialing - 1 } : Pool).closeStream x)
        (.inr (.done (some .poolClosed)))
  | remove {x : Nat} {toPing : List Nat} :
      Enter p (.remove x toPing) { p with streams := p.streams.filter (· ≠ x) }
        (.inr (.removed toPing))

inductive Inside (cfg : Config) (p : Pool) (t : Nat) : Section → Pool → Exit → Prop
  | refused {err : Option GetErr} : Inside cfg p t .check p (.inr (.done err))
  | check : Inside cfg p t .check p (.inl (.compact .get [] p.streams))
  | keep {next : Cont} {x : Nat} {kept todo : List Nat} :
      Inside cfg p t (.compact next kept (x :: todo)) p (.inl (.compact next (kept ++ [x]) todo))
  | drop {next : Cont} {x : Nat} {kept todo : List Nat} : p.alive x = false →
      Inside cfg p t (.compact next kept (x :: todo)) p (.inl (.compact next kept todo))
  | compacted {kept : List Nat} : Inside cfg p t (.compact .get kept []) { p with streams := kept }
      (.inl (.pick .first none kept))
  | landed {x : Nat} {kept : List Nat} : kept.length < cfg.maxOpen →
      Inside cfg p t (.compact (.landed x) kept []) { p with streams := kept ++ [x] }
        (.inr (.got x))
  | noRoom {x : Nat} {kept : List Nat} : cfg.maxOpen ≤ kept.length →
      Inside cfg p t (.compact (.landed x) kept []) { p with streams := kept } (.inl (.full x))
  | maintain {now : Nat} {kept : List Nat} :
      Inside cfg p t (.compact (.maintain now) kept []) { p with streams := kept }
        (.inl (.sweep now [] [] [] kept))
  | stats {kept : List Nat} : Inside cfg p t (.compact .stats kept []) { p with streams := kept }
      (.inr (.done none))
  | look {look : Look} {best : Option (Nat × Int)} {x : Nat} {todo : List Nat} :
      Inside cfg p t (.pick look best (x :: todo)) p (.inl (.load look best x todo))
  | pass {look : Look} {best : Option (Nat × Int)} {x : Nat} {todo : List Nat} :
      Inside cfg p t (.pick look best (x :: todo)) p (.inl (.pick look best todo))
  | better {look : Look} {best : Option (Nat × Int)} {x : Nat} {n : Int} {todo : List Nat} :
      Inside cfg p t (.load look best x todo) p (.inl (.pick look (some (x, n)) todo))
  | worse {look : Look} {best : Option (Nat × Int)} {x : Nat} {todo : List Nat} :
      Inside cfg p t (.load look best x todo) p (.inl (.pick look best todo))
  | found {look : Look} {x : Nat} {n : Int} :
      Inside cfg p t (.pick look (some (x, n)) []) p (.inr (.got x))
  | dial {best : Option (Nat × Int)} : p.streams.length + p.dialing < cfg.maxOpen →
      Inside cfg p t (.pick .first best []) { p with dialing := p.dialing + 1 } (.inr .dial)
  | lookAgain {best : Option (Nat × Int)} :
      Inside cfg p t (.pick .first best []) p (.inl (.pick .last none p.streams))
  | none : Inside cfg p t (.pick .last none []) p (.inl .wait)
  | noneFull : Inside cfg p t (.pick .full none []) p (.inl .check)
  | wait : Inside cfg p t .wait { p with waiting := t :: p.waiting } (.inr .waiting)
  | cancelled : Inside cfg p t .wait p (.inr (.done (some .ctx)))
  | full {x : Nat} :
      Inside cfg p t (.full x) (p.closeCounted x) (.inl (.pick .full none p.streams))
  | sweepDead {now x : Nat} {alive toClose toPing todo : List Nat} : p.alive x = false →
      Inside cfg p t (.sweep now alive toClose toPing (x :: todo)) p
        (.inl (.sweep now alive toClose toPing todo))
  | sweepDue {now x : Nat} {alive toClose toPing todo : List Nat} {i : Info} :
      p.table[x]? = some i → i.alive = true → cfg.Due now i →
      Inside cfg p t (.sweep now alive toClose toPing (x :: todo)) p
        (.inl (.sweep now alive (toClose ++ [x]) toPing todo))
  | sweepStay {now x : Nat} {alive toClose toPing toPing' todo : List Nat} :
      toPing' = toPing ∨ toPing' = toPing ++ [x] →
      Inside cfg p t (.sweep now alive toClose toPing (x :: todo)) p
        (.inl (.sweep now (alive ++ [x]) toClose toPing' todo))
  | swept {now : Nat} {alive toClose toPing : List Nat} :
      Inside cfg p t (.sweep now alive toClose toPing []) { p with streams := alive }
        (.inr (.closing toClose toPing))

section

variable {p q : Pool} {cfg : Config} {t : Nat} {sec : Section} {pc : PC} {next : Exit}

theorem enter_cases (entered : enter p t pc = some (q, next)) : Enter p pc q next := by
  cases pc with
  | start op =>
    cases op with
    | call =>
      cases entered
      exact .call
    | maintain => cases entered
    | stats =>
      cases entered
      exact .stats
    | close =>
      rw [enter] at entered
      split at entered
      · rename_i closed
        cases entered
        exact .closed closed
      · rename_i closed
        cases entered
        exact .close (eq_false_of_ne_true closed)
  | maintain now =>
    rw [enter] at entered
    split at entered
    · rename_i closed
      cases entered
      exact .ended closed
    · rename_i closed
      cases entered
      exact .maintain (eq_false_of_ne_true closed)
  | waiting =>
    rw [enter] at entered
    split at entered
    · cases entered
    split at entered
    · cases entered
      exact .gaveUp
    · split at entered
      · cases entered
        exact .gaveUp
      · cases entered
        exact .woken
  | dialed x =>
    cases x with
    | none =>
      cases entered
      exact .undialed
    | some x =>
      rw [enter] at entered
      split at entered
      · rename_i closed
        cases entered
        exact .late closed
      · rename_i closed
        cases entered
        exact .dialed (eq_false_of_ne_true closed)
  | remove =>
    cases entered
    exact .remove
  | _ => cases entered

theorem sweepOne_inside (cfg : Config) (p : Pool) (t now : Nat) (alive toClose toPing : List Nat)
    (x : Nat) (todo : List Nat) : Inside cfg p t (.sweep now alive toClose toPing (x :: todo)) p
      (.inl (p.sweepOne cfg now alive toClose toPing x todo)) := by
  rw [sweepOne]
  cases found : p.table[x]? with
  | none => exact .sweepStay (.inl rfl)
  | some i =>
    by_cases dead : i.alive = false
    · simp only [if_pos dead]
      exact .sweepDead (alive_eq_false.mpr ⟨i, found, dead⟩)
    by_cases due : cfg.Due now i
    · simp only [if_neg dead, if_pos due]
      exact .sweepDue found (Bool.eq_true_of_not_eq_false dead) due
    · simp only [if_neg dead, if_neg due]
      split
      · exact .sweepStay (.inr rfl)
      · exact .sweepStay (.inl rfl)

theorem picked_inside (cfg : Config) (p : Pool) (t : Nat) (look : Look) (best : Option (Nat × Int))
    :
    Inside cfg p t (.pick look best []) (p.picked cfg look best).1 (p.picked cfg look best).2 := by
  have dials : Inside cfg p t (.pick .first best []) (p.dialOrLook cfg).1 (p.dialOrLook cfg).2 := by
    rw [dialOrLook]
    split
    · rename_i room
      exact .dial room
    · exact .lookAgain
  cases look with
  | first =>
    cases best with
    | none => exact dials
    | some =>
      rw [picked]
      split
      · exact .found
      · exact dials
  | last =>
    cases best with
    | none => exact .none
    | some => exact .found
  | full =>
    cases best with
    | none => exact .noneFull
    | some => exact .found

theorem inside_cases (moved : inside cfg p t sec = (q, next)) : Inside cfg p t sec q next := by
  cases sec with
  | check =>
    rw [inside] at moved
    split at moved
    · cases moved
      exact .refused
    · split at moved
      · cases moved
        exact .refused
      · cases moved
        exact .check
  | compact cont kept todo =>
    cases todo with rw [inside] at moved
    | cons x todo =>
      cases moved
      split
      · exact .keep
      · rename_i dead
        exact .drop (eq_false_of_ne_true dead)
    | nil =>
      cases cont with
      | get =>
        cases moved
        exact .compacted
      | landed x =>
        rw [compacted] at moved
        split at moved
        · rename_i room
          cases moved
          exact .noRoom room
        · cases moved
          exact .landed (by omega)
      | maintain =>
        cases moved
        exact .maintain
      | stats =>
        cases moved
        exact .stats
  | pick look best todo =>
    cases todo with rw [inside] at moved
    | cons =>
      cases moved
      split
      · exact .look
      · exact .pass
    | nil =>
      have step := picked_inside cfg p t look best
      rw [moved] at step
      exact step
  | load =>
    cases moved
    split
    · exact .better
    · exact .worse
  | wait =>
    rw [inside] at moved
    split at moved
    · cases moved
      exact .cancelled
    · cases moved
      exact .wait
  | full =>
    cases moved
    exact .full
  | sweep now alive toClose toPing todo =>
    cases todo with
    | cons x todo =>
      cases moved
      exact sweepOne_inside cfg p t now alive toClose toPing x todo
    | nil =>
      cases moved
      exact .swept

theorem Enter.fades (step : Enter p pc q next) : p.Fades q := by
  cases step with
  | late _ => exact fades_update (fun _ _ => rfl) _
  | _ => exact fun _ dead => dead

theorem Inside.fades (step : Inside cfg p t sec q next) : p.Fades q := by
  cases step with
  | full => exact fades_update (fun _ _ => rfl) _
  | _ => exact fun _ dead => dead

end

/-! ## Numbers of streams -/

def Cont.names : Cont → List Nat
  | .landed x => [x]
  | .get | .maintain _ | .stats => []

def Section.names : Section → List Nat
  | .check | .wait => []
  | .compact next kept todo => next.names ++ (kept ++ todo)
  | .pick _ best todo => best.toList.map Prod.fst ++ todo
  | .load _ best x todo => best.toList.map Prod.fst ++ x :: todo
  | .full x => [x]
  | .sweep _ alive toClose toPing todo => alive ++ (toClose ++ (toPing ++ todo))

def PC.names : PC → List Nat
  | .dialed x => x.toList
  | .got x | .live x | .raise x | .touch x | .calling x => [x]
  | .closing toClose toPing => toClose ++ toPing
  | .pings toPing | .removed toPing => toPing
  | .pinging x toPing | .pingFailed x toPing | .remove x toPing => x :: toPing
  | .taken streams => streams
  | .start _ | .maintain _ | .waiting | .dial | .background | .done _ => []

def names : Exit → List Nat := Sum.elim Section.names PC.names

section

variable {p q : Pool} {cfg : Config} {t x : Nat} {sec : Section} {pc : PC} {next : Exit}

theorem Enter.names (step : Enter p pc q next) (known : x ∈ q.streams ∨ x ∈ names next) :
    x ∈ p.streams ∨ x ∈ pc.names := by
  revert known
  cases step with
  | remove =>
    simp only [names, Sum.elim_inr, PC.names, mem_cons, mem_filter]
    tauto
  | _ =>
    simp only [names, Sum.elim_inl, Sum.elim_inr, Section.names, PC.names, Cont.names,
      broadcast, closeStream, update, Option.toList, mem_cons,
      mem_append, not_mem_nil, false_or, or_false]
    tauto

theorem Inside.names (step : Inside cfg p t sec q next) (known : x ∈ q.streams ∨ x ∈ names next) :
    x ∈ p.streams ∨ x ∈ sec.names := by
  revert known
  cases step with
  | sweepStay pings =>
    rcases pings with rfl | rfl
    all_goals
      simp only [names, Sum.elim_inl, Section.names, mem_append, mem_cons, not_mem_nil, or_false]
      tauto
  | _ =>
    simp only [names, Sum.elim_inl, Sum.elim_inr, Section.names, PC.names, Cont.names,
      closeCounted, closeStream, update, Option.toList, map_cons,
      map_nil, mem_cons, mem_append, not_mem_nil, false_or, or_false]
    tauto

theorem Outside.names {next : PC} (step : Outside p pc q next) (known : x ∈ next.names) :
    x ∈ pc.names ∨ x = p.table.length ∧ q.table.length = p.table.length + 1 := by
  revert known
  cases step with
  | dialed => simp [PC.names, Pool.newStream]
  | _ =>
    tauto

theorem Pool.length_update (f : Info → Info) (x : Nat) :
    (p.update x f).table.length = p.table.length := length_modify _ _ _

theorem Enter.length (step : Enter p pc q next) : q.table.length = p.table.length := by
  cases step with
  | late _ => exact length_update _ _
  | _ => rfl

theorem Inside.length (step : Inside cfg p t sec q next) : q.table.length = p.table.length := by
  cases step with
  | full => exact length_update _ _
  | _ => rfl

theorem Outside.length_cases {next : PC} (step : Outside p pc q next) :
    q.table.length = p.table.length ∨
      next = .dialed (some p.table.length) ∧ q.table.length = p.table.length + 1 := by
  cases step with
  | dialed => exact .inr ⟨rfl, by simp [Pool.newStream]⟩
  | raise | touch | returns | close | pinged | pingFailed | take =>
    exact .inl (Pool.length_update _ _)
  | _ => exact .inl rfl

theorem Outside.length {next : PC} (step : Outside p pc q next) :
    p.table.length ≤ q.table.length := by
  rcases step.length_cases with same | ⟨-, longer⟩ <;> omega

theorem environment_length {e : Env} (changed : environment p e = some q) :
    q.table.length = p.table.length := by
  rcases environment_cases changed with ⟨_, _, _, rfl⟩ | ⟨-, rfl | rfl⟩
  · rfl
  · exact length_update _ _
  · exact length_update _ _

end

structure Known (s : Monitor.State Pool Section PC) : Prop where
  streams : ∀ x ∈ s.data.streams, x < s.data.table.length
  threads : ∀ th ∈ s.threads, ∀ x ∈ names th, x < s.data.table.length

variable {s : Monitor.State Pool Section PC}

theorem Known.land (known : Known s) {t : Nat} {old next : Exit}
    {d : Pool} (at_ : s.threads[t]? = some old) (length : d.table.length = s.data.table.length)
    (learns : ∀ x, x ∈ d.streams ∨ x ∈ names next → x ∈ s.data.streams ∨ x ∈ names old) :
    Known (s.land t d next) := by
  have within : ∀ x, x ∈ d.streams ∨ x ∈ names next → x < d.table.length := by
    intro x learnt
    rw [length]
    rcases learns x learnt with listed | named
    · exact known.streams x listed
    · exact known.threads _ (mem_of_getElem? at_) x named
  refine ⟨fun x inside => within x (.inl inside), ?_⟩
  apply forall_mem_set
  · intro th inside x named
    exact length ▸ known.threads th inside x named
  · exact fun x named => within x (.inr named)

theorem known {cfg : Config} {ops : List Op}
    {ok : Monitor.State Pool Section PC → Monitor.Label Act Env → Prop}
    (reachable : (pool cfg ops).Reachable ok s) : Known s := by
  refine Monitor.induct (I := Known) ?_ ?_ reachable
  · rintro d pcs ⟨rfl, rfl⟩
    refine ⟨by simp, fun th inside x named => ?_⟩
    obtain ⟨pc, there, rfl⟩ := mem_map.mp inside
    obtain ⟨op, -, rfl⟩ := mem_map.mp there
    cases named
  · intro s l s' _ holds _ step
    cases step with
    | enter _ at_ entered =>
      have step := enter_cases entered
      exact holds.land at_ step.length fun x => step.names
    | inside at_ moved =>
      have step := inside_cases moved
      exact holds.land at_ step.length fun x => step.names
    | @outside t pc act d next at_ moved =>
      have step := outside_cases moved
      have longer := step.length
      refine ⟨fun x inside => ?_, ?_⟩
      · have listed := step.apart.streams ▸ inside
        exact (holds.streams x listed).trans_le longer
      apply forall_mem_set
      · exact fun th inside x named => (holds.threads th inside x named).trans_le longer
      · intro x named
        rcases step.names named with before | ⟨rfl, grown⟩
        · exact (holds.threads _ (mem_of_getElem? at_) x before).trans_le longer
        · change s.data.table.length < d.table.length
          omega
    | environment changed =>
      have same := environment_length changed
      refine ⟨fun x inside => ?_, fun th inside x named => ?_⟩
      · exact same ▸ holds.streams x ((environment_apart changed).streams ▸ inside)
      · exact same ▸ holds.threads th inside x named

end Soil.Net.StreamPool
