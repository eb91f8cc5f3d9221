import Soil.Net.Lifecycle
import Soil.Net.Metrics

/-!
# The connection metrics of a client

The client of `Soil.Net.Lifecycle` with the pools of its nodes: where a goroutine of the
client closes a pool or tries a call, it is in `Close` or `Get` of that pool, with the
steps of the pool.  Goroutine `t` of the client is goroutine `t + 2` of every pool; a pool
has two goroutines of its own, one that its ticker sends into `maintain` and one for
`Stats`.
-/

namespace Soil.Net.ClientMetrics

open List Option StreamPool Node

open Soil.System
open Soil.Net.StreamPool (Node Config Op Balanced Tracked)

structure State where
  client : Client.State
  pools : List Node
  deriving DecidableEq

inductive Label where
  | client (l : Client.Label)
  | pool (k : Nat) (l : Monitor.Label StreamPool.Act StreamPool.Env)
  | ticker (k : Nat)
  | stats (k : Nat)
  deriving DecidableEq

def callee : Client.PC → Option (Nat × Op)
  | .trying _ k => some (k, .call)
  | .closing (k :: _) => some (k, .close)
  | _ => none

def State.returned (s : State) (t : Nat) (pc : Client.PC) (act : Client.Act) : Bool :=
  match callee pc with
  | none => true
  | some (k, _) =>
    match (s.pools[k]?).bind (·.pool.threads[t + 2]?) with
    | some (.inr (.done err)) => act ≠ .outcome true ∨ err = none
    | _ => false

def enterPool (pools : List Node) (t : Nat) : Option (Nat × Op) → List Node
  | none => pools
  | some (k, op) => pools.modify k (·.call (t + 2) op)

def State.follow (s : State) (t : Nat) (c : Client.State) : State :=
  let fresh := List.replicate (c.pools.length - s.client.pools.length)
    (Node.new s.client.threads.length)
  { client := c
    pools := enterPool (s.pools ++ fresh) t ((c.threads[t]?).bind fun th => callee th.pc) }

def State.begin (s : State) (k t : Nat) (op : Op) : Option State :=
  (s.pools[k]?).bind fun node =>
    match node.pool.threads[t]? with
    | some (.inr (.done _)) => some { s with pools := s.pools.set k (node.call t op) }
    | _ => none

def State.step (cfg : Config) (s : State) : Label → Option State
  | .client l =>
    (s.client.threads[l.thread]?).bind fun th =>
      if s.returned l.thread th.pc l.act then
        (s.client.step l).map (s.follow l.thread)
      else none
  | .pool k l =>
    (s.pools[k]?).bind fun node => (node.step cfg l).map fun node =>
      { s with pools := s.pools.set k node }
  | .ticker k => s.begin k 0 .maintain
  | .stats k => s.begin k 1 .stats

def newClient (eps : Nat) (ops : List Client.Op) : State where
  client := Client.newClient eps ops
  pools := List.replicate eps (Node.new ops.length)

def client (cfg : Config) (eps : Nat) (ops : List Client.Op) : System State Label where
  init s := s = newClient eps ops
  step := State.step cfg

def State.connectionOpened (s : State) : Nat := (s.pools.map (·.pool.data.opened)).sum

def State.connectionClosed (s : State) : Nat := (s.pools.map (·.pool.data.closedEvents)).sum

structure State.Quiet (s : State) : Prop where
  client : Client.Quiet s.client
  pools : ∀ node ∈ s.pools, ∀ th ∈ node.pool.threads, ∃ err, th = .inr (.done err)

instance (pc : Client.PC) : Decidable (∃ err, pc = .done err) :=
  match pc with
  | .done err => .isTrue ⟨err, rfl⟩
  | .start | .attempt _ | .trying .. | .building | .swapping _ | .sweeping | .closing _ =>
    .isFalse (by simp)

instance (th : StreamPool.Exit) : Decidable (∃ err, th = .inr (.done err)) :=
  decidable_of_iff ((match th with | .inr (.done _) => true | _ => false) = true) (by
    split
    · simp
    · rename_i other
      simpa using fun err => other err)

instance (s : State) : Decidable s.Quiet :=
  decidable_of_iff
    (((∃ th ∈ s.client.threads, th.op = .close ∧ ∃ err, th.pc = .done err) ∧
      ∀ th ∈ s.client.threads, th.pc = .start ∨ ∃ err, th.pc = .done err) ∧
      ∀ node ∈ s.pools, ∀ th ∈ node.pool.threads, ∃ err, th = .inr (.done err))
    ⟨fun quiet => ⟨⟨quiet.1.1, quiet.1.2⟩, quiet.2⟩,
      fun quiet => ⟨⟨quiet.client.closed, quiet.client.idle⟩, quiet.pools⟩⟩

def Sound (s : State) : Label → Prop
  | .client l => Client.Timely s.client l
  | .pool k l => ∀ node ∈ s.pools[k]?, Tracked node.pool l
  | .ticker _ | .stats _ => True

instance (s : State) (l : Label) : Decidable (Sound s l) := by
  cases l with
  | client l => exact inferInstanceAs (Decidable (Client.Timely s.client l))
  | pool k l => exact inferInstanceAs (Decidable (∀ node ∈ s.pools[k]?, Tracked node.pool l))
  | ticker => exact .isTrue trivial
  | stats => exact .isTrue trivial

/-! ## A goroutine of the client in a pool -/

section

variable {cfg : Config} {node node' : Node} {t : Nat}
  {l : Monitor.Label StreamPool.Act StreamPool.Env} {err : Option GetErr}

theorem step_done (step : node.step cfg l = some node')
    (done : node.pool.threads[t]? = some (.inr (.done err))) :
    node'.pool.threads[t]? = some (.inr (.done err)) := by
  obtain ⟨pool, stepped, rfl⟩ := map_eq_some_iff.mp step
  have stays : ∀ {j : Nat} {old next : StreamPool.Exit}, node.pool.threads[j]? = some old →
      old ≠ .inr (.done err) → (node.pool.threads.set j next)[t]? = some (.inr (.done err)) := by
    intro j old next at_ other
    rw [getElem?_set_of_some at_]
    by_cases same : t = j
    · rw [same, at_, some.injEq] at done
      exact absurd done other
    · rw [if_neg same]
      exact done
  have kind := Monitor.step_cases stepped
  cases kind with
  | enter _ at_ entered =>
    apply stays at_
    intro same
    cases same
    cases entered
  | inside at_ => exact stays at_ (by simp)
  | outside at_ moved =>
    apply stays at_
    intro same
    cases same
    cases moved
  | environment => exact done

theorem step_closed (step : node.step cfg l = some node') (closed : node.pool.data.closed = true) :
    node'.pool.data.closed = true := by
  obtain ⟨pool, stepped, rfl⟩ := map_eq_some_iff.mp step
  have kind := Monitor.step_cases stepped
  cases kind with
  | enter _ _ entered =>
    have kind := enter_cases entered
    cases kind <;> first | exact closed | rfl
  | inside _ moved =>
    have kind := inside_cases moved
    cases kind <;> exact closed
  | outside _ moved => exact (outside_cases moved).apart.closed.trans closed
  | environment changed => exact (environment_apart changed).closed.trans closed

def Shutting (node : Node) (t : Nat) : Prop :=
  node.pool.threads[t]? = some (.inr (.start .close)) ∨ node.pool.data.closed = true

theorem Shutting.step (shutting : Shutting node t) (step : node.step cfg l = some node') :
    Shutting node' t := by
  rcases shutting with called | closed
  · obtain ⟨pool, stepped, rfl⟩ := map_eq_some_iff.mp step
    have stays : ∀ {j : Nat} {old next : StreamPool.Exit}, node.pool.threads[j]? = some old →
        t ≠ j → (node.pool.threads.set j next)[t]? = some (.inr (.start .close)) := by
      intro j old next at_ other
      rw [getElem?_set_of_some at_, if_neg other]
      exact called
    have kind := Monitor.step_cases stepped
    cases kind with
    | @enter j pc d next _ at_ entered =>
      by_cases same : t = j
      · subst same
        rw [called, some.injEq] at at_
        cases at_
        have entered : enter node.pool.data t (.start .close) = some (d, next) :=
          entered
        have kind := enter_cases entered
        cases kind with
        | close => exact .inr rfl
        | closed closed => exact .inr closed
      · exact .inl (stays at_ same)
    | @inside j sec d next at_ =>
      apply Or.inl
      apply stays at_
      rintro rfl
      rw [called] at at_
      cases at_
    | @outside j pc act d next at_ moved =>
      apply Or.inl
      apply stays at_
      rintro rfl
      rw [called] at at_
      cases at_
      cases moved
    | environment => exact .inl called
  · exact .inr (step_closed step closed)

variable {j : Nat}

theorem Shutting.call (shutting : Shutting node t) (other : t ≠ j) (op : Op) :
    Shutting (node.call j op) t := by
  rcases shutting with called | closed
  · left
    rw [Node.call, List.getElem?_set_ne (Ne.symm other)]
    exact called
  · exact .inr closed

theorem call_done (done : node.pool.threads[t]? = some (.inr (.done err)))
    (other : t ≠ j) (op : Op) : (node.call j op).pool.threads[t]? = some (.inr (.done err)) := by
  rw [call, List.getElem?_set_ne (Ne.symm other)]
  exact done

end

/-! ## The client -/

section

variable {c c' : Client.State} {t : Nat} {th : Client.Thread}

structure Numbered (c : Client.State) : Prop where
  nodes : ∀ k ∈ c.nodes, k < c.pools.length
  holds : ∀ th ∈ c.threads, ∀ k ∈ th.pc.holds, k < c.pools.length

theorem holds_afterFailure (err : Client.Err) (left : Nat) :
    (Client.afterFailure err left).holds = [] := by
  cases left <;> rfl

theorem goes_holds {pc : Client.PC} (goes : th.Goes c pc) : pc.holds = [] := by
  cases goes with
  | attempted _ next =>
    rcases next with rfl | ⟨-, rfl⟩ | ⟨-, rfl⟩
    · rfl
    · exact holds_afterFailure _ _
    · rfl
  | _ => rfl

theorem Numbered.step (numbered : Numbered c) (at_ : c.threads[t]? = some th)
    (step : c.Step t th c') : Numbered c' := by
  have own := numbered.holds th (mem_of_getElem? at_)
  cases step with
  | goes goes =>
    refine ⟨numbered.nodes, forall_mem_set numbered.holds ?_⟩
    rw [goes_holds goes]
    simp
  | mark => exact ⟨numbered.nodes, forall_mem_set numbered.holds (by simp [Client.PC.holds])⟩
  | @build eps _ _ =>
    have longer : (c.pools ++ List.replicate eps.length false).length =
        c.pools.length + eps.length := by simp
    refine ⟨fun k inside => ?_, forall_mem_set (fun th inside k here => ?_) fun k here => ?_⟩
    · exact longer ▸ Nat.lt_add_right _ (numbered.nodes k inside)
    · exact longer ▸ Nat.lt_add_right _ (numbered.holds th inside k here)
    · exact longer ▸ (mem_range'_1.mp here).2
  | swap swapping =>
    rw [swapping] at own
    exact ⟨own, forall_mem_set numbered.holds numbered.nodes⟩
  | sweep => exact ⟨by simp, forall_mem_set numbered.holds numbered.nodes⟩
  | @close pool pools closing =>
    rw [closing] at own
    have same : (c.pools.set pool true).length = c.pools.length := by simp
    refine ⟨fun k inside => same ▸ numbered.nodes k inside,
      forall_mem_set (fun th inside k here => same ▸ numbered.holds th inside k here)
        fun k here => same ▸ own k (mem_cons_of_mem _ here)⟩

theorem client_moves (step : c.Step t th c') : ∃ pc, c'.threads = c.threads.set t { th with pc } ∧
      ((∃ n, c'.pools = c.pools ++ List.replicate n false) ∨
        ∃ k pools, th.pc = .closing (k :: pools) ∧ c'.pools = c.pools.set k true) := by
  cases step with
  | goes _ | mark _ _ _ | swap _ | sweep _ => exact ⟨_, rfl, .inl ⟨0, (append_nil _).symm⟩⟩
  | build _ _ => exact ⟨_, rfl, .inl ⟨_, rfl⟩⟩
  | close closing => exact ⟨_, rfl, .inr ⟨_, _, closing, rfl⟩⟩

end

/-! ## The client and its pools -/

structure Linked (c : Client.State) (pools : List Node) : Prop where
  numbered : Numbered c
  balanced : ∀ node ∈ pools, Balanced node
  idle : ∀ (k : Nat) node, pools[k]? = some node → ∀ (t : Nat) th,
    c.threads[t]? = some th → (∀ op, callee th.pc ≠ some (k, op)) →
      ∃ err, node.pool.threads[t + 2]? = some (.inr (.done err))
  closing : ∀ (k : Nat) node, pools[k]? = some node → ∀ (t : Nat) th rest,
    c.threads[t]? = some th → th.pc = .closing (k :: rest) → Shutting node (t + 2)
  closed : ∀ (k : Nat) node, pools[k]? = some node → c.pools[k]? = some true →
    node.pool.data.closed = true

def Free (pools : List Node) (t : Nat) : Prop :=
  ∀ (k : Nat) node, pools[k]? = some node →
    ∃ err, node.pool.threads[t + 2]? = some (.inr (.done err))

structure Connected (s : State) : Prop where
  linked : Linked s.client s.pools
  length : s.pools.length = s.client.pools.length

section

variable {cfg : Config} {c c' : Client.State} {pools : List Node} {k t : Nat} {node node' : Node}
  {th : Client.Thread}

theorem Linked.setPool (linked : Linked c pools) (at_ : pools[k]? = some node)
    (balanced : Balanced node')
    (done : ∀ (t : Nat) err, node.pool.threads[t + 2]? = some (.inr (.done err)) →
      node'.pool.threads[t + 2]? = some (.inr (.done err)))
    (shutting : ∀ t, Shutting node (t + 2) → Shutting node' (t + 2))
    (closed : node.pool.data.closed = true → node'.pool.data.closed = true) :
    Linked c (pools.set k node') := by
  refine ⟨linked.numbered, forall_mem_set linked.balanced balanced, ?_, ?_, ?_⟩
  · intro j new at_j t th there other
    -- the pool that has moved, or another one
    rcases getElem?_set_cases at_j with ⟨rfl, rfl⟩ | ⟨-, before⟩
    · obtain ⟨err, returned⟩ := linked.idle j node at_ t th there other
      exact ⟨err, done t err returned⟩
    · exact linked.idle j new before t th there other
  · intro j new at_j t th pools there pc
    rcases getElem?_set_cases at_j with ⟨rfl, rfl⟩ | ⟨-, before⟩
    · exact shutting t (linked.closing j node at_ t th pools there pc)
    · exact linked.closing j new before t th pools there pc
  · intro j new at_j flag
    rcases getElem?_set_cases at_j with ⟨rfl, rfl⟩ | ⟨-, before⟩
    · exact closed (linked.closed j node at_ flag)
    · exact linked.closed j new before flag

theorem Linked.call {op : Op} {err : Option GetErr} (linked : Linked c pools) (own : t < 2)
    (ticker : op = .maintain → t = 0) (at_ : pools[k]? = some node)
    (idle : node.pool.threads[t]? = some (.inr (.done err))) :
    Linked c (pools.set k (node.call t op)) := by
  have balanced := (linked.balanced node (mem_of_getElem? at_)).call idle ticker
  apply linked.setPool at_ balanced
  · exact fun j err done => call_done done (by omega) op
  · exact fun j shutting => shutting.call (by omega) op
  · exact id

theorem Linked.pool {l : Monitor.Label StreamPool.Act StreamPool.Env} (linked : Linked c pools)
    (at_ : pools[k]? = some node) (tracked : Tracked node.pool l)
    (step : node.step cfg l = some node') : Linked c (pools.set k node') := by
  have balanced := (linked.balanced node (mem_of_getElem? at_)).step tracked step
  apply linked.setPool at_ balanced
  · exact fun _ _ done => step_done step done
  · exact fun _ shutting => shutting.step step
  · exact step_closed step

theorem new_idle (there : c.threads[t]? = some th) :
    (new c.threads.length).pool.threads[t + 2]? = some (.inr (.done none)) := by
  obtain ⟨bound, -⟩ := List.getElem?_eq_some_iff.mp there
  simp [new, bound]

theorem getElem?_append_new {n : Nat} {new : Node}
    (there : (pools ++ List.replicate n new)[k]? = some node) :
    pools[k]? = some node ∨ (pools.length ≤ k ∧ node = new) := by
  rw [List.getElem?_append] at there
  split at there
  · exact .inl there
  · exact .inr ⟨by omega, eq_of_mem_replicate (mem_of_getElem? there)⟩

theorem Linked.extend (linked : Linked c pools) (enough : c.pools.length ≤ pools.length) (n : Nat) :
    Linked c (pools ++ List.replicate n (new c.threads.length)) := by
  refine ⟨linked.numbered, ?_, ?_, ?_, ?_⟩
  · intro node inside
    rcases mem_append.mp inside with old | new
    · exact linked.balanced node old
    · obtain rfl := eq_of_mem_replicate new
      exact .new _
  · intro k node at_ t th there other
    rcases getElem?_append_new at_ with old | ⟨-, rfl⟩
    · exact linked.idle k node old t th there other
    · exact ⟨none, new_idle there⟩
  · intro k node at_ t th rest there closing
    rcases getElem?_append_new at_ with old | ⟨beyond, -⟩
    · exact linked.closing k node old t th rest there closing
    · have known := linked.numbered.holds th (mem_of_getElem? there) k
        (by simp [closing, Client.PC.holds])
      omega
  · intro k node at_ flag
    rcases getElem?_append_new at_ with old | ⟨beyond, -⟩
    · exact linked.closed k node old flag
    · have known := (List.getElem?_eq_some_iff.mp flag).1
      omega

theorem Free.extend (free : Free pools t) (there : c.threads[t]? = some th) (n : Nat) :
    Free (pools ++ List.replicate n (new c.threads.length)) t := by
  intro k node at_
  rcases getElem?_append_new at_ with old | ⟨-, rfl⟩
  · exact free k node old
  · exact ⟨none, new_idle there⟩

theorem enterPool_cases {target : Option (Nat × Op)}
    (at_ : (enterPool pools t target)[k]? = some node) :
    (pools[k]? = some node ∧ ∀ op, target ≠ some (k, op)) ∨
      ∃ old op, pools[k]? = some old ∧ target = some (k, op) ∧ node = old.call (t + 2) op := by
  cases target with
  | none => exact .inl ⟨at_, by simp⟩
  | some target =>
    obtain ⟨j, op⟩ := target
    rw [enterPool, List.getElem?_modify] at at_
    by_cases same : j = k
    · subst same
      obtain ⟨old, there, new⟩ := map_eq_some_iff.mp at_
      exact .inr ⟨old, op, there, rfl, by simpa using new.symm⟩
    · exact .inl ⟨by simpa [same] using at_, by simp [same]⟩

theorem length_enterPool (target : Option (Nat × Op)) :
    (enterPool pools t target).length = pools.length := by
  cases target with
  | none => rfl
  | some => simp [enterPool]

theorem callee_ne_maintain {pc : Client.PC} {op : Op} (called : callee pc = some (k, op)) :
    op ≠ .maintain := by
  unfold callee at called
  split at called
  · cases called
    simp
  · cases called
    simp
  · cases called

theorem Linked.closed_step (linked : Linked c pools) (free : Free pools t)
    (at_ : c.threads[t]? = some th) (step : c.Step t th c') (there : pools[k]? = some node)
    (flag : c'.pools[k]? = some true) : node.pool.data.closed = true := by
  obtain ⟨pc, -, ⟨n, same⟩ | ⟨pool, rest, closing, same⟩⟩ := client_moves step
  · rw [same, List.getElem?_append] at flag
    split at flag
    · exact linked.closed k node there flag
    · have no := eq_of_mem_replicate (mem_of_getElem? flag)
      cases no
  · by_cases here : pool = k
    · -- `Close` of this pool has returned
      subst here
      obtain ⟨err, done⟩ := free pool node there
      rcases linked.closing pool node there t th rest at_ closing with called | closed
      · rw [done] at called
        cases called
      · exact closed
    · rw [same, List.getElem?_set_ne here] at flag
      exact linked.closed k node there flag

theorem Linked.step (linked : Linked c pools) (free : Free pools t)
    (at_ : c.threads[t]? = some th) (step : c.Step t th c') :
    Linked c' (enterPool pools t ((c'.threads[t]?).bind fun th => callee th.pc)) := by
  obtain ⟨pc, threads, -⟩ := client_moves step
  have target : (c'.threads[t]?).bind (fun th => callee th.pc) = callee pc := by
    rw [threads, getElem?_set_here at_]
    rfl
  rw [target]
  refine ⟨linked.numbered.step at_ step, ?_, ?_, ?_, ?_⟩
  · intro node inside
    obtain ⟨j, there⟩ := mem_iff_getElem?.mp inside
    rcases enterPool_cases there with ⟨same, -⟩ | ⟨old, op, before, called, rfl⟩
    · exact linked.balanced node (mem_of_getElem? same)
    · obtain ⟨err, done⟩ := free j old before
      exact (linked.balanced old (mem_of_getElem? before)).call done fun no =>
        absurd no (callee_ne_maintain called)
  · intro j node there i th' at_i other
    -- the goroutines of the client are where they were, but for `t`
    rcases getElem?_set_cases (threads ▸ at_i) with ⟨rfl, rfl⟩ | ⟨apart, before⟩
    · rcases enterPool_cases there with ⟨same, -⟩ | ⟨old, op, -, called, -⟩
      · exact free j node same
      · exact absurd called (other op)
    · rcases enterPool_cases there with ⟨same, -⟩ | ⟨old, op, same, -, rfl⟩
      · exact linked.idle j node same i th' before other
      · obtain ⟨err, done⟩ := linked.idle j old same i th' before other
        exact ⟨err, call_done done (by omega) op⟩
  · intro j node there i th' rest at_i closing
    rcases getElem?_set_cases (threads ▸ at_i) with ⟨rfl, rfl⟩ | ⟨apart, before⟩
    · have called : callee pc = some (j, .close) := by
        change pc = .closing (j :: rest) at closing
        rw [closing]
        rfl
      rcases enterPool_cases there with ⟨-, other⟩ | ⟨old, op, same, called', rfl⟩
      · exact absurd called (other .close)
      · obtain ⟨err, done⟩ := free j old same
        rw [called, some.injEq, Prod.mk.injEq] at called'
        obtain ⟨-, rfl⟩ := called'
        exact .inl (getElem?_set_here done _)
    · rcases enterPool_cases there with ⟨same, -⟩ | ⟨old, op, same, -, rfl⟩
      · exact linked.closing j node same i th' rest before closing
      · exact (linked.closing j old same i th' rest before closing).call (by omega) op
  · intro j node there flag
    rcases enterPool_cases there with ⟨same, -⟩ | ⟨old, -, same, -, rfl⟩
    · exact linked.closed_step free at_ step same flag
    · have closed : old.pool.data.closed = true := linked.closed_step free at_ step same flag
      exact closed

end

section

variable {s s' : State} {k t : Nat} {th : Client.Thread}

theorem Connected.begin {op : Op} (connected : Connected s) (own : t < 2)
    (ticker : op = .maintain → t = 0) (step : s.begin k t op = some s') : Connected s' := by
  obtain ⟨node, at_, step⟩ := bind_eq_some_iff.mp step
  split at step
  · rename_i err idle
    cases step
    exact ⟨connected.linked.call own ticker at_ idle, by simpa using connected.length⟩
  · cases step

variable {act : Client.Act}

theorem Connected.free (connected : Connected s) (at_ : s.client.threads[t]? = some th)
    (returned : s.returned t th.pc act = true) : Free s.pools t := by
  intro k node there
  by_cases inside : ∃ op, callee th.pc = some (k, op)
  · obtain ⟨op, called⟩ := inside
    rw [State.returned, called] at returned
    simp only [there, bind_some] at returned
    split at returned
    · rename_i err at_
      exact ⟨err, at_⟩
    · cases returned
  · exact connected.linked.idle k node there t th at_ fun op called => inside ⟨op, called⟩

theorem Connected.follow {c : Client.State} (connected : Connected s)
    (at_ : s.client.threads[t]? = some th) (returned : s.returned t th.pc act = true)
    (step : s.client.Step t th c) : Connected (s.follow t c) := by
  have free := connected.free at_ returned
  have linked := connected.linked.extend (by rw [connected.length])
    (c.pools.length - s.client.pools.length)
  refine ⟨linked.step (free.extend at_ _) at_ step, ?_⟩
  have longer : s.client.pools.length ≤ c.pools.length := by
    obtain ⟨pc, -, ⟨n, same⟩ | ⟨pool, rest, -, same⟩⟩ := client_moves step
    · simp [same]
    · simp [same]
  have before := connected.length
  rw [State.follow]
  simp only [length_enterPool, length_append, length_replicate]
  omega

end

/-! ## Runs -/

section

variable {cfg : Config} {eps : Nat} {ops : List Client.Op} {s : State}

theorem connected_newClient (eps : Nat) (ops : List Client.Op) : Connected (newClient eps ops) := by
  have fresh : ∀ (k : Nat) node, (newClient eps ops).pools[k]? = some node →
      node = new ops.length := fun k node there =>
    eq_of_mem_replicate (mem_of_getElem? there)
  refine ⟨⟨⟨?_, ?_⟩, ?_, ?_, ?_, ?_⟩, by simp [newClient, Client.newClient]⟩
  · intro k inside
    simpa [newClient, Client.newClient] using inside
  · intro th inside k here
    rw [Client.newClient_start th inside] at here
    cases here
  · intro node inside
    obtain rfl := eq_of_mem_replicate inside
    exact .new _
  · intro k node there t th at_ _
    obtain rfl := fresh k node there
    obtain ⟨bound, -⟩ := List.getElem?_eq_some_iff.mp at_
    have bound : t < ops.length := by simpa [newClient, Client.newClient] using bound
    exact ⟨none, by simp [new, bound]⟩
  · intro k node there t th pools at_ closing
    rw [Client.newClient_start th (mem_of_getElem? at_)] at closing
    cases closing
  · intro k node there flag
    have no := eq_of_mem_replicate (mem_of_getElem? flag)
    cases no

theorem connected (reachable : (client cfg eps ops).Reachable Sound s) : Connected s := by
  refine reachable.induct (I := Connected) ?_ ?_
  · rintro s rfl
    exact connected_newClient eps ops
  intro s l s' connected sound step
  cases l with
  | client l =>
    obtain ⟨th, at_, step⟩ := bind_eq_some_iff.mp step
    split at step
    · rename_i returned
      obtain ⟨c, moved, rfl⟩ := map_eq_some_iff.mp step
      obtain ⟨th', at_', kind⟩ := Client.State.step_cases moved
      rw [at_, some.injEq] at at_'
      subst at_'
      exact connected.follow at_ returned kind
    · cases step
  | pool =>
    obtain ⟨node, at_, step⟩ := bind_eq_some_iff.mp step
    obtain ⟨node', moved, rfl⟩ := map_eq_some_iff.mp step
    exact ⟨connected.linked.pool at_ (sound node at_) moved, by simpa using connected.length⟩
  | ticker => exact connected.begin (by omega) (fun _ => rfl) step
  | stats => exact connected.begin (by omega) (by simp) step

theorem timely (reachable : (client cfg eps ops).Reachable Sound s) :
    (Client.client eps ops).Reachable Client.Timely s.client := by
  refine reachable.induct
    (I := fun s => (Client.client eps ops).Reachable Client.Timely s.client) ?_ ?_
  · rintro s rfl
    exact ⟨_, rfl, .refl _⟩
  intro s l s' before sound step
  cases l with
  | client =>
    obtain ⟨th, -, step⟩ := bind_eq_some_iff.mp step
    split at step
    · obtain ⟨c, moved, rfl⟩ := map_eq_some_iff.mp step
      exact before.run (.tail (.refl _) sound moved)
    · cases step
  | pool =>
    obtain ⟨node, -, step⟩ := bind_eq_some_iff.mp step
    obtain ⟨node', -, rfl⟩ := map_eq_some_iff.mp step
    exact before
  | ticker | stats =>
    obtain ⟨node, -, step⟩ := bind_eq_some_iff.mp step
    split at step
    · cases step
      exact before
    · cases step

end

/-- In runs in which dead streams are dropped only behind a failed `Ping`, no dial and no
failed `Ping` meets `Close`, and no `Resolve` is late, no more connections are reported
closed than opened, none twice, and all of them when `Close` has returned and nothing is in
progress. -/
theorem connection_metrics (cfg : Config) (eps : Nat) (ops : List Client.Op) (s : State)
    (reachable : (client cfg eps ops).Reachable Sound s) :
    s.connectionClosed ≤ s.connectionOpened ∧
      (∀ node ∈ s.pools, ∀ x, node.events.count x ≤ 1) ∧
      (s.Quiet → s.connectionClosed = s.connectionOpened) := by
  have connected := connected reachable
  refine ⟨?_, fun node inside x => ?_, fun quiet => ?_⟩
  · apply sum_le_sum
    intro node inside
    have balanced := connected.linked.balanced node inside
    rw [balanced.closedEvents, balanced.opened]
    exact balanced.length_le
  · have bound := (connected.linked.balanced node inside).count_events x
    split at bound <;> omega
  · have released := Client.released_of_timely (timely reachable) quiet.client
    apply congrArg List.sum
    apply map_congr_left
    intro node inside
    have balanced := connected.linked.balanced node inside
    obtain ⟨k, there⟩ := mem_iff_getElem?.mp inside
    have closed : node.pool.data.closed = true := by
      have bound := (List.getElem?_eq_some_iff.mp there).1
      rw [connected.length] at bound
      apply connected.linked.closed k node there
      rw [List.getElem?_eq_getElem bound, released.2 _ (getElem_mem bound)]
    rw [balanced.closedEvents, balanced.opened]
    exact balanced.length_events closed (quiet.pools node inside)

def firstCall : List Label :=
  [.client ⟨0, .go⟩, .client ⟨0, .pick 0⟩, .pool 0 (.lock 2), .pool 0 (.go 2), .pool 0 (.go 2),
    .pool 0 (.go 2), .pool 0 (.run 2 (.dial true)), .pool 0 (.lock 2), .pool 0 (.go 2),
    .pool 0 (.run 2 .go), .pool 0 (.run 2 .go), .pool 0 (.run 2 .go), .pool 0 (.run 2 .go),
    .pool 0 (.run 2 .go), .client ⟨0, .outcome true⟩]

/-- A call, then `Close`. -/
theorem connection_metrics_close :
    ∃ s, (client ⟨1, 0, 0, 0⟩ 1 [.call 0, .close]).Reachable Sound s ∧ s.Quiet ∧
      s.connectionOpened = 1 ∧ s.connectionClosed = s.connectionOpened := by
  obtain ⟨s, reachable, quiet, one⟩ : ∃ s, (client ⟨1, 0, 0, 0⟩ 1 [.call 0, .close]).Reachable
    Sound s ∧
      s.Quiet ∧ s.connectionOpened = 1 :=
    exists_reachable (firstCall ++ [.client ⟨1, .go⟩, .client ⟨1, .go⟩, .pool 0 (.lock 3),
      .pool 0 (.run 3 .go), .pool 0 (.run 3 .go), .pool 0 (.run 3 .go), .client ⟨1, .go⟩,
      .client ⟨1, .go⟩]) rfl (by decide +kernel)
  exact ⟨s, reachable, quiet, one, (connection_metrics _ _ _ s reachable).2.2 quiet⟩

/-- `Close` closes and reports a stream that is being pinged, so that its `Ping` fails and
`pingOne` reports it once more; and a dead stream that `Stats` drops from the list is never
reported. -/
theorem close_reports_twice :
    (∃ s, (client ⟨1, 0, 0, 1⟩ 1 [.call 0, .close]).Reachable Any s ∧
      s.connectionOpened = 1 ∧ s.connectionClosed = 2 ∧
        ∃ node ∈ s.pools, node.events.count 0 = 2) ∧
      ∃ s, (client ⟨1, 0, 0, 0⟩ 1 [.call 0, .close]).Reachable Any s ∧ s.Quiet ∧
        s.connectionOpened = 1 ∧ s.connectionClosed = 0 := by
  constructor
  · exact exists_reachable (firstCall ++ [.pool 0 (.environment (.tick 1)), .ticker 0, .pool 0
      (.run 0 .go),
          .pool 0 (.lock 0), .pool 0 (.go 0), .pool 0 (.go 0), .pool 0 (.go 0), .pool 0 (.go 0),
          .pool 0 (.run 0 .go), .pool 0 (.run 0 .go), .client ⟨1, .go⟩, .client ⟨1, .go⟩,
          .pool 0 (.lock 3), .pool 0 (.run 3 .go), .pool 0 (.run 0 (.ping false)),
          .pool 0 (.run 0 .go)]) rfl (by decide +kernel)
  · exact exists_reachable (firstCall ++ [.pool 0 (.environment (.die 0)), .stats 0, .pool 0 (.lock
      1),
          .pool 0 (.go 1), .pool 0 (.go 1), .client ⟨1, .go⟩, .client ⟨1, .go⟩,
          .pool 0 (.lock 3), .pool 0 (.run 3 .go), .pool 0 (.run 3 .go), .client ⟨1, .go⟩,
          .client ⟨1, .go⟩]) rfl (by decide +kernel)

end Soil.Net.ClientMetrics
