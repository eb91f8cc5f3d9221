import Soil.Net.Endpoint

/-!
# Resolving and closing a client

`Resolve`, `Close` and `Call` of the network client, as far as they deal with the list
of nodes and the stream pools behind it.  A node is known by the number of its pool.
`Resolve` looks at the closed flag, builds new nodes and swaps them in under `nodesMu`;
`Close` sets the flag, takes the list under `nodesMu`, and both close the pools they
took.  `closed` of the state is the flag, `pools` says of every pool that was ever made
whether it has been closed.
-/

namespace Soil.Net.Client

open List

inductive Op where
  | call (retryAttempts : Nat)
  | resolve
  | close
  deriving DecidableEq, Repr

inductive Err where
  | poolClosed
  | noEndpoint
  | endpoints
  | attempt
  deriving DecidableEq, Repr

inductive PC where
  | start
  | attempt (left : Nat)
  | trying (left : Nat) (pool : Nat)
  | building
  | swapping (nodes : List Nat)
  | sweeping
  | closing (pools : List Nat)
  | done (err : Option Err)
  deriving DecidableEq, Repr

structure Thread where
  op : Op
  pc : PC := .start
  deriving DecidableEq, Repr

structure State where
  closed : Bool := false
  nodes : List Nat
  pools : List Bool
  threads : List Thread
  deriving DecidableEq, Repr

inductive Act where
  | go
  | build (eps : Option (List Endpoint))
  | pick (i : Nat)
  | outcome (ok : Bool)
  deriving DecidableEq, Repr

structure Label where
  thread : Nat
  act : Act
  deriving DecidableEq, Repr

def State.goto (s : State) (t : Nat) (th : Thread) (pc : PC) : State :=
  { s with threads := s.threads.set t { th with pc } }

def State.begin (s : State) (t : Nat) (th : Thread) : State :=
  match th.op with
  | .call retryAttempts =>
    s.goto t th (if s.closed then .done (some .poolClosed) else .attempt retryAttempts)
  | .resolve => s.goto t th (if s.closed then .done (some .poolClosed) else .building)
  | .close =>
    if s.closed then s.goto t th (.done none)
    else { s.goto t th .sweeping with closed := true }

def afterFailure (err : Err) : Nat → PC
  | 0 => .done (some err)
  | left + 1 => .attempt left

def State.newNodes (s : State) (eps : List Endpoint) : List Nat :=
  List.range' s.pools.length eps.length

def State.run (s : State) (t : Nat) (th : Thread) : Act → Option State
  | .go =>
    match th.pc with
    | .start => some (s.begin t th)
    | .attempt left =>
      if s.nodes = [] then some (s.goto t th (afterFailure .noEndpoint left)) else none
    | .swapping nodes => some { s.goto t th (.closing s.nodes) with nodes }
    | .sweeping => some { s.goto t th (.closing s.nodes) with nodes := [] }
    | .closing [] => some (s.goto t th (.done none))
    | .closing (pool :: pools) =>
      some { s.goto t th (.closing pools) with pools := s.pools.set pool true }
    | _ => none
  | .build none =>
    match th.pc with
    | .building => some (s.goto t th (.done (some .endpoints)))
    | _ => none
  -- `buildEndpoints` fails rather than returning no endpoint
  | .build (some eps) =>
    match th.pc with
    | .building =>
      if eps = [] then none
      else some { s.goto t th (.swapping (s.newNodes eps)) with
        pools := s.pools ++ List.replicate eps.length false }
    | _ => none
  | .pick i =>
    match th.pc with
    | .attempt left => (s.nodes[i]?).map fun pool => s.goto t th (.trying left pool)
    | _ => none
  | .outcome ok =>
    match th.pc with
    | .trying left _ => some (s.goto t th (if ok then .done none else afterFailure .attempt left))
    | _ => none

def State.step (s : State) (l : Label) : Option State :=
  (s.threads[l.thread]?).bind fun th => s.run l.thread th l.act

def newClient (eps : Nat) (ops : List Op) : State :=
  { nodes := List.range eps, pools := List.replicate eps false,
    threads := ops.map fun op => { op } }

def client (eps : Nat) (ops : List Op) : System State Label where
  init s := s = newClient eps ops
  step := State.step

/-! ## What a step can do -/

inductive Thread.Goes (s : State) (th : Thread) : PC → Prop
  | refused {err : Option Err} : th.pc = .start → s.closed = true → Goes s th (.done err)
  | call {left : Nat} : th.pc = .start → th.op ≠ .close → Goes s th (.attempt left)
  | resolve : th.pc = .start → th.op ≠ .close → Goes s th .building
  | attempted {left : Nat} {pc : PC} : th.pc = .attempt left ∨ (∃ pool, th.pc = .trying left pool) →
      pc = .done none ∨ (∃ err, pc = afterFailure err left) ∨ (∃ pool, pc = .trying left pool) →
      Goes s th pc
  | unresolved : th.pc = .building → Goes s th (.done (some .endpoints))
  | finished : th.pc = .closing [] → Goes s th (.done none)

inductive State.Step (s : State) (t : Nat) (th : Thread) : State → Prop
  | goes {pc : PC} : th.Goes s pc → Step s t th (s.goto t th pc)
  | mark : th.pc = .start → th.op = .close → s.closed = false →
      Step s t th { s.goto t th .sweeping with closed := true }
  | build {eps : List Endpoint} : th.pc = .building → eps ≠ [] →
      Step s t th { s.goto t th (.swapping (s.newNodes eps)) with
        pools := s.pools ++ List.replicate eps.length false }
  | swap {nodes : List Nat} : th.pc = .swapping nodes →
      Step s t th { s.goto t th (.closing s.nodes) with nodes }
  | sweep : th.pc = .sweeping → Step s t th { s.goto t th (.closing s.nodes) with nodes := [] }
  | close {pool : Nat} {pools : List Nat} : th.pc = .closing (pool :: pools) →
      Step s t th { s.goto t th (.closing pools) with pools := s.pools.set pool true }

variable {s s' : State} {l : Label}

theorem State.step_cases (step : s.step l = some s') :
    ∃ th, s.threads[l.thread]? = some th ∧ s.Step l.thread th s' := by
  obtain ⟨t, act⟩ := l
  obtain ⟨th, at_, run⟩ := Option.bind_eq_some_iff.mp step
  refine ⟨th, at_, ?_⟩
  cases act with
  | go =>
    rw [State.run] at run
    split at run
    · rename_i pc
      cases run
      rw [State.begin]
      cases kind : th.op with
      | call =>
        by_cases closed : s.closed = true
        · simp only [closed, if_true]
          exact .goes (.refused pc closed)
        · simp only [closed]
          exact .goes (.call pc (by simp [kind]))
      | resolve =>
        by_cases closed : s.closed = true
        · simp only [closed, if_true]
          exact .goes (.refused pc closed)
        · simp only [closed]
          exact .goes (.resolve pc (by simp [kind]))
      | close =>
        by_cases closed : s.closed = true
        · simp only [closed, if_true]
          exact .goes (.refused pc closed)
        · simp only [closed]
          exact .mark pc kind (by simpa using closed)
    · rename_i left pc
      split at run
      · cases run
        exact .goes (.attempted (.inl pc) (.inr (.inl ⟨_, rfl⟩)))
      · cases run
    · rename_i nodes pc
      cases run
      exact .swap pc
    · rename_i pc
      cases run
      exact .sweep pc
    · rename_i pc
      cases run
      exact .goes (.finished pc)
    · rename_i pool pools pc
      cases run
      exact .close pc
    · cases run
  | build eps =>
    cases eps with rw [State.run] at run
    | none =>
      split at run
      · rename_i pc
        cases run
        exact .goes (.unresolved pc)
      · cases run
    | some eps =>
      split at run
      · rename_i pc
        split at run
        · cases run
        · rename_i some_
          cases run
          exact .build pc some_
      · cases run
  | pick i =>
    rw [State.run] at run
    split at run
    · rename_i left pc
      obtain ⟨pool, -, rfl⟩ := Option.map_eq_some_iff.mp run
      exact .goes (.attempted (.inl pc) (.inr (.inr ⟨pool, rfl⟩)))
    · cases run
  | outcome ok =>
    rw [State.run] at run
    split at run
    · rename_i left pool pc
      cases run
      refine .goes (.attempted (.inr ⟨pool, pc⟩) ?_)
      cases ok with
      | true => exact .inl rfl
      | false => exact .inr (.inl ⟨_, rfl⟩)
    · cases run

/-! ## What becomes of a pool -/

def PC.holds : PC → List Nat
  | .swapping nodes => nodes
  | .closing pools => pools
  | _ => []

def Covered (s : State) : Prop :=
  ∀ p < s.pools.length, s.pools[p]? = some true ∨ p ∈ s.nodes ∨ ∃ th ∈ s.threads, p ∈ th.pc.holds

variable {pc : PC}

theorem Thread.Goes.holds {th : Thread} (goes : th.Goes s pc) : th.pc.holds = [] := by
  cases goes with
  | refused at_ | call at_ | resolve at_ | unresolved at_ | finished at_ => rw [at_]; rfl
  | attempted at_ =>
    rcases at_ with at_ | ⟨pool, at_⟩
    · rw [at_]; rfl
    · rw [at_]; rfl

section

variable {t : Nat} {th : Thread}

theorem State.Step.covered (covered : Covered s) (at_ : s.threads[t]? = some th)
    (step : s.Step t th s') : Covered s' := by
  -- a pool that was in the hands of another goroutine stays there
  have others : ∀ p pc, (∃ th ∈ s.threads, p ∈ th.pc.holds) → p ∈ th.pc.holds ∨
      ∃ th' ∈ s.threads.set t { th with pc }, p ∈ th'.pc.holds :=
    fun p pc => exists_mem_set at_ { th with pc }
  have own : ∀ pc, { th with pc } ∈ s.threads.set t { th with pc } :=
    fun pc => mem_set_of_some at_ { th with pc }
  intro p inside
  cases step with
  | goes goes =>
    rcases covered p inside with closed | listed | held
    · exact .inl closed
    · exact .inr (.inl listed)
    · rcases others p _ held with mine | rest
      · rw [goes.holds] at mine
        cases mine
      · exact .inr (.inr rest)
  | mark start =>
    rcases covered p inside with closed | listed | held
    · exact .inl closed
    · exact .inr (.inl listed)
    · rcases others p .sweeping held with mine | rest
      · rw [start] at mine
        cases mine
      · exact .inr (.inr rest)
  | @build eps building _ =>
    by_cases old : p < s.pools.length
    · rcases covered p old with closed | listed | held
      · exact .inl ((List.getElem?_append_left old).trans closed)
      · exact .inr (.inl listed)
      · rcases others p (.swapping (s.newNodes eps)) held with mine | rest
        · rw [building] at mine
          cases mine
        · exact .inr (.inr rest)
    · refine .inr (.inr ⟨_, own (.swapping (s.newNodes eps)), ?_⟩)
      have bound : p < s.pools.length + eps.length := by simpa using inside
      exact mem_range'_1.mpr ⟨by omega, bound⟩
  | @swap nodes swapping =>
    rcases covered p inside with closed | listed | held
    · exact .inl closed
    · exact .inr (.inr ⟨_, own (.closing s.nodes), listed⟩)
    · rcases others p (.closing s.nodes) held with mine | rest
      · rw [swapping] at mine
        exact .inr (.inl mine)
      · exact .inr (.inr rest)
  | sweep sweeping =>
    rcases covered p inside with closed | listed | held
    · exact .inl closed
    · exact .inr (.inr ⟨_, own (.closing s.nodes), listed⟩)
    · rcases others p (.closing s.nodes) held with mine | rest
      · rw [sweeping] at mine
        cases mine
      · exact .inr (.inr rest)
  | @close pool pools closing =>
    have bound : p < s.pools.length := by simpa using inside
    by_cases same : p = pool
    · subst same
      left
      simp [bound]
    rcases covered p bound with closed | listed | held
    · left
      rw [List.getElem?_set_ne (Ne.symm same)]
      exact closed
    · exact .inr (.inl listed)
    rcases others p (.closing pools) held with mine | rest
    · rw [closing] at mine
      rcases mem_cons.mp mine with equal | mine
      · exact absurd equal same
      · exact .inr (.inr ⟨_, own (.closing pools), mine⟩)
    · exact .inr (.inr rest)

end

/-! ## Runs in which no `Resolve` is late -/

def Unswept (s : State) : Prop := s.closed = false ∨ ∃ th ∈ s.threads, th.pc = .sweeping

instance (s : State) : Decidable (Unswept s) :=
  inferInstanceAs (Decidable (_ ∨ ∃ th ∈ s.threads, th.pc = .sweeping))

def Timely (s : State) (l : Label) : Prop :=
  match s.threads[l.thread]? with
  | some ⟨_, .swapping _⟩ => Unswept s
  | _ => True

instance (s : State) (l : Label) : Decidable (Timely s l) := by
  unfold Timely
  split <;> infer_instance

def Released (s : State) : Prop := s.nodes = [] ∧ ∀ closed ∈ s.pools, closed = true

structure Quiet (s : State) : Prop where
  closed : ∃ th ∈ s.threads, th.op = .close ∧ ∃ err, th.pc = .done err
  idle : ∀ th ∈ s.threads, th.pc = .start ∨ ∃ err, th.pc = .done err

section

variable {t : Nat} {th : Thread}

theorem Thread.Goes.ne_sweeping (goes : th.Goes s pc) : th.pc ≠ .sweeping := by
  cases goes with
  | refused at_ => simp [at_]
  | call at_ => simp [at_]
  | resolve at_ => simp [at_]
  | attempted at_ => rcases at_ with at_ | ⟨pool, at_⟩ <;> simp [at_]
  | unresolved at_ => simp [at_]
  | finished at_ => simp [at_]

theorem Unswept.goto (unswept : Unswept s) (at_ : s.threads[t]? = some th)
    (other : th.pc ≠ .sweeping) (pc : PC) : Unswept (s.goto t th pc) := by
  rcases unswept with open_ | sweeping
  · exact .inl open_
  · rcases exists_mem_set at_ { th with pc } sweeping with mine | rest
    · exact absurd mine other
    · exact .inr rest

theorem State.Step.swept (swept : Unswept s ∨ s.nodes = []) (at_ : s.threads[t]? = some th)
    (timely : ∀ nodes, th.pc = .swapping nodes → Unswept s) (step : s.Step t th s') :
    Unswept s' ∨ s'.nodes = [] := by
  cases step with
  | goes goes => exact swept.imp_left fun unswept => unswept.goto at_ goes.ne_sweeping _
  | mark _ _ _ => exact .inl (.inr ⟨_, mem_set_of_some at_ _, rfl⟩)
  | build building _ => exact swept.imp_left fun unswept => unswept.goto at_ (by simp [building]) _
  | swap swapping => exact .inl ((timely _ swapping).goto at_ (by simp [swapping]) _)
  | sweep => exact .inr rfl
  | close closing => exact swept.imp_left fun unswept => unswept.goto at_ (by simp [closing]) _

def Marked (s : State) : Prop :=
  ∀ th ∈ s.threads, th.op = .close → th.pc ≠ .start → s.closed = true

theorem State.Step.marked (marked : Marked s) (at_ : s.threads[t]? = some th)
    (step : s.Step t th s') : Marked s' := by
  have moved : ∀ pc, (th.op = .close → s.closed = true) → Marked (s.goto t th pc) := by
    intro pc set_
    apply forall_mem_set
    · exact marked
    · exact fun close _ => set_ close
  have begun : th.pc ≠ .start → th.op = .close → s.closed = true := fun begun close =>
    marked th (mem_of_getElem? at_) close begun
  cases step with
  | goes goes =>
    apply moved
    cases goes with
    | refused _ closed => exact fun _ => closed
    | call _ other | resolve _ other => exact fun close => absurd close other
    | attempted at_ => exact begun (by rcases at_ with at_ | ⟨pool, at_⟩ <;> simp [at_])
    | unresolved at_ | finished at_ => exact begun (by simp [at_])
  | mark _ _ _ => exact fun _ _ _ _ => rfl
  | build building _ => exact moved _ (begun (by simp [building]))
  | swap swapping => exact moved _ (begun (by simp [swapping]))
  | sweep sweeping => exact moved _ (begun (by simp [sweeping]))
  | close closing => exact moved _ (begun (by simp [closing]))

theorem timely_swapping (at_ : s.threads[l.thread]? = some th) (timely : Timely s l)
    (nodes : List Nat) (swapping : th.pc = .swapping nodes) : Unswept s := by
  obtain ⟨op, pc⟩ := th
  cases swapping
  rw [Timely, at_] at timely
  exact timely

variable {eps : Nat} {ops : List Op}

theorem newClient_start : ∀ th ∈ (newClient eps ops).threads, th.pc = .start := by
  intro th inside
  obtain ⟨op, -, rfl⟩ := mem_map.mp inside
  rfl

theorem released_of_timely (reachable : (client eps ops).Reachable Timely s) (quiet : Quiet s) :
    Released s := by
  have invariant : Covered s ∧ (Unswept s ∨ s.nodes = []) ∧ Marked s := by
    refine reachable.induct (I := fun s => Covered s ∧ (Unswept s ∨ s.nodes = []) ∧ Marked s) ?_ ?_
    · rintro s rfl
      refine ⟨?_, .inl (.inl rfl), ?_⟩
      · intro p inside
        have bound : p < eps := by simpa [newClient] using inside
        exact .inr (.inl (mem_range.mpr bound))
      · intro th inside _ begun
        exact absurd (newClient_start th inside) begun
    · rintro s l s' ⟨covered, swept, marked⟩ timely step
      obtain ⟨th, at_, moved⟩ := State.step_cases step
      exact ⟨moved.covered covered at_, moved.swept swept at_ (timely_swapping at_ timely),
        moved.marked marked at_⟩
  obtain ⟨covered, swept, marked⟩ := invariant
  obtain ⟨close, inside, kind, err, done⟩ := quiet.closed
  have closed : s.closed = true := marked close inside kind (by simp [done])
  have empty : s.nodes = [] := by
    rcases swept with (open_ | ⟨th, there, sweeping⟩) | empty
    · simp [closed] at open_
    · rcases quiet.idle th there with at_ | ⟨err, at_⟩ <;> simp [at_] at sweeping
    · exact empty
  refine ⟨empty, fun flag there => ?_⟩
  obtain ⟨p, at_p⟩ := mem_iff_getElem?.mp there
  obtain ⟨bound, -⟩ := List.getElem?_eq_some_iff.mp at_p
  rcases covered p bound with isClosed | listed | ⟨th, running, holds⟩
  · rw [at_p, Option.some.injEq] at isClosed
    exact isClosed
  · simp [empty] at listed
  · rcases quiet.idle th running with at_ | ⟨err, at_⟩ <;> simp [at_, PC.holds] at holds

/-! ## What a late `Resolve` leaves -/

def Loaded (s : State) : Prop := ∀ th ∈ s.threads, ∀ nodes, th.pc = .swapping nodes → nodes ≠ []

theorem State.Step.loaded (loaded : Loaded s) (step : s.Step t th s') : Loaded s' := by
  have moved : ∀ pc, (∀ nodes, pc = .swapping nodes → nodes ≠ []) →
      ∀ th' ∈ s.threads.set t { th with pc }, ∀ nodes, th'.pc = .swapping nodes → nodes ≠ [] :=
    fun pc ends => forall_mem_set loaded ends
  cases step with
  | goes goes =>
    apply moved
    intro nodes swapping
    cases goes with
    | attempted _ next =>
      rcases next with rfl | ⟨err, rfl⟩ | ⟨pool, rfl⟩
      · cases swapping
      · rename_i left _
        cases left <;> cases swapping
      · cases swapping
    | _ => cases swapping
  | mark _ _ _ | swap _ | sweep _ | close _ => exact moved _ (by simp)
  | @build eps _ some_ =>
    apply moved
    rintro nodes ⟨rfl⟩
    intro none_
    apply some_
    simpa [State.newNodes] using none_

structure Late (s : State) : Prop where
  swept : ¬ Unswept s
  nodes : s.nodes ≠ []
  loaded : Loaded s

theorem unswept_goto (next : pc ≠ .sweeping) (swept : ¬ Unswept s) :
    ¬ Unswept (s.goto t th pc) := by
  rintro (open_ | ⟨th', inside, sweeping⟩)
  · exact swept (.inl open_)
  · rcases mem_or_eq_of_mem_set inside with old | rfl
    · exact swept (.inr ⟨th', old, sweeping⟩)
    · exact next sweeping

theorem Thread.Goes.next_ne_sweeping (goes : th.Goes s pc) : pc ≠ .sweeping := by
  cases goes with
  | attempted _ next =>
    rcases next with rfl | ⟨err, rfl⟩ | ⟨pool, rfl⟩
    · simp
    · rename_i left _
      cases left <;> simp [afterFailure]
    · simp
  | _ => simp

theorem Late.step (late : Late s) (at_ : s.threads[t]? = some th) (step : s.Step t th s') :
    Late s' := by
  have loaded := step.loaded late.loaded
  cases step with
  | goes goes => exact ⟨unswept_goto goes.next_ne_sweeping late.swept, late.nodes, loaded⟩
  | mark _ _ open_ => exact absurd (.inl open_) late.swept
  | build | close => exact ⟨unswept_goto (by simp) late.swept, late.nodes, loaded⟩
  | swap swapping =>
    exact ⟨unswept_goto (by simp) late.swept,
      late.loaded th (mem_of_getElem? at_) _ swapping, loaded⟩
  | sweep sweeping => exact absurd (.inr ⟨th, mem_of_getElem? at_, sweeping⟩) late.swept

theorem late_of_not_timely (loaded : Loaded s) (untimely : ¬ Timely s l)
    (step : s.step l = some s') : Late s' := by
  obtain ⟨th, at_, moved⟩ := State.step_cases step
  rw [Timely, at_] at untimely
  obtain ⟨op, pc⟩ := th
  cases pc with
  | swapping nodes =>
    have after := moved.loaded loaded
    cases moved with
    | goes goes => exact absurd goes.holds (loaded _ (mem_of_getElem? at_) nodes rfl)
    | @swap other same =>
      cases same
      exact ⟨unswept_goto (by simp) untimely, loaded _ (mem_of_getElem? at_) _ rfl, after⟩
    | mark same => cases same
    | build same => cases same
    | sweep same => cases same
    | close same => cases same
  | _ => exact absurd trivial untimely

end

/-- When `Close` has returned and nothing else runs, no node and no open pool is left if
and only if no `Resolve` has swapped nodes in behind the moment at which `Close` took
the list. -/
theorem released_iff_timely (eps : Nat) (ops : List Op) (ls : List Label) (s : State)
    (run : (client eps ops).exec System.Any (newClient eps ops) ls = some s) (quiet : Quiet s) :
    Released s ↔ (client eps ops).exec Timely (newClient eps ops) ls = some s := by
  constructor
  · intro released
    rcases System.exec_or_violates Timely run with
      timely | ⟨mid, l, next, before, untimely, step, after⟩
    · exact timely
    exfalso
    have loaded : Loaded mid := by
      refine before.keeps (I := Loaded) ?_ ?_
      · intro s l s' loaded _ step
        obtain ⟨th, -, moved⟩ := State.step_cases step
        exact moved.loaded loaded
      · intro th inside nodes swapping
        simp [newClient_start th inside] at swapping
    have late : Late s := by
      refine after.keeps (I := Late) ?_ (late_of_not_timely loaded untimely step)
      intro s l s' late _ step
      obtain ⟨th, at_, moved⟩ := State.step_cases step
      exact late.step at_ moved
    exact late.nodes released.1
  · intro timely
    exact released_of_timely ⟨_, rfl, System.run_of_exec timely⟩ quiet

/-- A `Resolve` that is over before `Close` begins. -/
theorem released_iff_timely_resolve_first :
    let ls : List Label := [⟨0, .go⟩, ⟨0, .build (some [⟨"127.0.0.1:8081", 1⟩])⟩, ⟨0, .go⟩,
      ⟨0, .go⟩, ⟨0, .go⟩, ⟨1, .go⟩, ⟨1, .go⟩, ⟨1, .go⟩, ⟨1, .go⟩]
    let ops : List Op := [.resolve, .close]
    ∃ s, (client 1 ops).exec System.Any (newClient 1 ops) ls = some s ∧ Quiet s ∧ Released s := by
  intro ls ops
  refine ⟨⟨true, [], [true, true], [⟨.resolve, .done none⟩, ⟨.close, .done none⟩]⟩, ?_, ?_, ?_⟩
  · decide +kernel
  · exact ⟨⟨⟨.close, .done none⟩, by simp, rfl, none, rfl⟩, by simp⟩
  · apply (released_iff_timely 1 ops ls _ (by decide +kernel) ?_).mpr
    · decide +kernel
    exact ⟨⟨⟨.close, .done none⟩, by simp, rfl, none, rfl⟩, by simp⟩

/-- `Close` runs between the moment at which `Resolve` looks at the closed flag and the
swap: the new pool stays open. -/
theorem resolve_behind_close :
    let ls : List Label := [⟨0, .go⟩, ⟨1, .go⟩, ⟨1, .go⟩, ⟨1, .go⟩, ⟨1, .go⟩,
      ⟨0, .build (some [⟨"127.0.0.1:8081", 1⟩])⟩, ⟨0, .go⟩, ⟨0, .go⟩]
    let ops : List Op := [.resolve, .close]
    ∃ s, (client 1 ops).exec System.Any (newClient 1 ops) ls = some s ∧ Quiet s ∧ ¬ Released s := by
  refine ⟨⟨true, [1], [true, false], [⟨.resolve, .done none⟩, ⟨.close, .done none⟩]⟩, ?_, ?_, ?_⟩
  · decide +kernel
  · exact ⟨⟨⟨.close, .done none⟩, by simp, rfl, none, rfl⟩, by simp⟩
  · rintro ⟨empty, -⟩
    simp at empty

end Soil.Net.Client
