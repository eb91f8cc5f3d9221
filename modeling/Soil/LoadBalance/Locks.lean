import Soil.LoadBalance.SmoothWeightedRR

/-!
# The locks of the smooth weighted balancer

Any number of `Pick` calls and `Done` callbacks of `smooth_weight_rr.go` that run concurrently.
A step takes the mutex of a connection, or does what is done under it and releases it.  `Done`
returns at the limits of `efficientWeight` without releasing it.
-/

namespace Soil.LoadBalance

open List Option WeightConn

open Soil.System

variable {SC : Type}

def WeightConn.atLimit (failed : Bool) (c : WeightConn SC) : Bool :=
  if failed then c.efficientWeight == 0 else c.efficientWeight == 4294967295

def WeightConn.adjust (failed : Bool) (c : WeightConn SC) : WeightConn SC :=
  { c with efficientWeight := if failed then c.efficientWeight - 1 else c.efficientWeight + 1 }

namespace Locks

inductive Op where
  | scan (i : Nat) (acc : Acc)
  | visit (i : Nat) (acc : Acc)
  | charge (res : Nat) (totalWeight : UInt32)
  | pay (res : Nat) (totalWeight : UInt32)
  | picked (res : Option Nat)
  | done (res : Nat) (failed : Bool)
  | settle (res : Nat) (failed : Bool)
  | returned
  deriving DecidableEq

inductive Action (SC : Type) where
  | lock (i : Nat) (next : Op)
  | unlock (i : Nat) (connections : List (WeightConn SC)) (next : Op)
  | skip (next : Op)

def Op.next (connections : List (WeightConn SC)) : Op → Option (Action SC)
  | .scan i acc =>
    if i < connections.length then some (.lock i (.visit i acc))
    else
      match acc.res with
      | none => some (.skip (.picked none))
      | some res => some (.skip (.charge res acc.totalWeight))
  | .visit i acc =>
    let (connections, acc) := LoadBalance.visit connections acc i
    some (.unlock i connections (.scan (i + 1) acc))
  | .charge res totalWeight => some (.lock res (.pay res totalWeight))
  | .pay res totalWeight =>
    some (.unlock res (connections.modify res (WeightConn.pay totalWeight)) (.picked (some res)))
  | .done res failed => some (.lock res (.settle res failed))
  | .settle res failed => (connections[res]?).map fun c =>
    if c.atLimit failed then .skip .returned
    else .unlock res (connections.modify res (WeightConn.adjust failed)) .returned
  | .picked _ | .returned => none

structure State (SC : Type) where
  connections : List (WeightConn SC)
  mutexes : List Bool
  ops : List Op := []
  deriving DecidableEq

def State.act (s : State SC) (t : Nat) : Action SC → Option (State SC)
  | .lock i next =>
    if s.mutexes[i]? = some false then
      some { s with mutexes := s.mutexes.set i true, ops := s.ops.set t next }
    else none
  | .unlock i connections next =>
    some { connections, mutexes := s.mutexes.set i false, ops := s.ops.set t next }
  | .skip next => some { s with ops := s.ops.set t next }

inductive Label where
  | pick
  | done (t : Nat) (failed : Bool)
  | go (t : Nat)
  deriving DecidableEq

def State.step (s : State SC) : Label → Option (State SC)
  | .pick => some { s with ops := s.ops ++ [.scan 0 {}] }
  | .done t failed =>
    match s.ops[t]? with
    | some (.picked (some res)) => some { s with ops := s.ops ++ [.done res failed] }
    | _ => none
  | .go t => (s.ops[t]?).bind fun op => (op.next s.connections).bind (s.act t)

def fresh (connections : List (WeightConn SC)) : State SC where
  connections := connections
  mutexes := connections.map fun _ => false

def balancer (connections : List (WeightConn SC)) : System (State SC) Label where
  init s := s = fresh connections
  step := State.step

def Op.inProgress : Op → Bool
  | .picked _ | .returned => false
  | _ => true

def State.Quiet (s : State SC) : Prop := ∀ op ∈ s.ops, op.inProgress = false

def Op.holds : Op → Option Nat
  | .visit i _ | .pay i _ | .settle i _ => some i
  | _ => none

def Op.hitsLimit (connections : List (WeightConn SC)) : Op → Bool
  | .settle res failed => (connections[res]?).any (·.atLimit failed)
  | _ => false

def State.hitsLimit (s : State SC) : Label → Bool
  | .go t => (s.ops[t]?).any (Op.hitsLimit s.connections)
  | _ => false

def WithinLimits (s : State SC) (l : Label) : Prop := s.hitsLimit l = false

instance (s : State SC) (l : Label) : Decidable (WithinLimits s l) :=
  inferInstanceAs (Decidable (_ = _))

/-! ## Who has locked a mutex -/

def State.locked (s : State SC) (i : Nat) : Nat := if s.mutexes[i]? = some true then 1 else 0

def Op.has (i : Nat) (op : Op) : Nat := if op.holds = some i then 1 else 0

def State.held (s : State SC) (i : Nat) : Nat := (s.ops.map (Op.has i)).sum

variable {s s' : State SC} {l : Label} {connections : List (WeightConn SC)}

inductive Owner (connections : List (WeightConn SC)) (op : Op) : Action SC → Prop
  | lock (i : Nat) (op' : Op) (free : op.holds = none) (takes : op'.holds = some i)
      (within : op.hitsLimit connections = false) : Owner connections op (.lock i op')
  | unlock (i : Nat) (cs : List (WeightConn SC)) (op' : Op) (has : op.holds = some i)
      (leaves : op'.holds = none) (within : op.hitsLimit connections = false) :
      Owner connections op (.unlock i cs op')
  | skip (op' : Op) (free : op.holds = none) (free' : op'.holds = none)
      (within : op.hitsLimit connections = false) : Owner connections op (.skip op')
  | keep (i : Nat) (op' : Op) (has : op.holds = some i) (leaves : op'.holds = none)
      (limit : op.hitsLimit connections = true) : Owner connections op (.skip op')

variable {op : Op} {action : Action SC}

theorem next_owner (next : op.next connections = some action) : Owner connections op action := by
  cases op with
  | scan =>
    rw [Op.next] at next
    split at next
    · cases next
      exact .lock _ _ rfl rfl rfl
    · split at next <;> cases next <;> exact .skip _ rfl rfl rfl
  | visit | pay =>
    cases next
    exact .unlock _ _ _ rfl rfl rfl
  | charge | done =>
    cases next
    exact .lock _ _ rfl rfl rfl
  | settle res failed =>
    obtain ⟨c, here, rfl⟩ := map_eq_some_iff.mp next
    have limit : (Op.settle res failed).hitsLimit connections = c.atLimit failed := by
      rw [Op.hitsLimit, here, any_some]
    split
    · rename_i hits
      exact .keep _ _ rfl rfl (limit.trans hits)
    · rename_i within
      exact .unlock _ _ _ rfl rfl (limit.trans (Bool.not_eq_true _ ▸ within))
  | picked | returned => cases next

variable {i : Nat}

theorem has_of_holds (holds : op.holds = some i) (j : Nat) : op.has j = if j = i then 1 else 0 := by
  simp [Op.has, holds, eq_comm]

theorem has_of_free (free : op.holds = none) (j : Nat) : op.has j = 0 := by
  simp [Op.has, free]

open State

theorem locked_set {old new : Bool} (at_ : s.mutexes[i]? = some old)
    (mutexes : s'.mutexes = s.mutexes.set i new) (j : Nat) :
    s'.locked j = if j = i then new.toNat else s.locked j := by
  rw [locked, mutexes, getElem?_set_of_some at_]
  by_cases here : j = i
  · cases new <;> simp [here]
  · simp [here, locked]

variable {t : Nat}

theorem held_set {op' : Op} (at_ : s.ops[t]? = some op)
    (ops : s'.ops = s.ops.set t op') (i : Nat) : s'.held i + op.has i = s.held i + op'.has i := by
  rw [held, ops]
  exact sum_map_set (Op.has i) at_ op'

theorem locked_of_held (owned : s.held i ≤ s.locked i)
    (at_ : s.ops[t]? = some op) (holds : op.holds = some i) : s.mutexes[i]? = some true := by
  have share : op.has i ≤ s.held i := le_sum_map (Op.has i) at_
  rw [has_of_holds holds, if_pos rfl] at share
  by_contra free
  rw [locked, if_neg free] at owned
  omega

inductive Slack (s : State SC) (l : Label) (s' : State SC) : Prop
  | even (within : s.hitsLimit l = false)
      (same : ∀ i, s'.locked i + s.held i = s.locked i + s'.held i)
  | kept (i : Nat) (limit : s.hitsLimit l = true) (locked : ∀ j, s'.locked j = s.locked j)
      (left : s.held i = s'.held i + 1) (fewer : ∀ j, s'.held j ≤ s.held j)

theorem locked_eq (mutexes : s'.mutexes = s.mutexes) (i : Nat) : s'.locked i = s.locked i := by
  rw [locked, locked, mutexes]

theorem Slack.of_append (within : s.hitsLimit l = false) (free : op.holds = none)
    (ops : s'.ops = s.ops ++ [op]) (mutexes : s'.mutexes = s.mutexes) : Slack s l s' := by
  refine .even within fun i => ?_
  have held : s'.held i = s.held i := by
    rw [held, ops]
    simp [held, has_of_free free]
  rw [held, locked_eq mutexes]

theorem step_slack (owned : ∀ i, s.held i ≤ s.locked i) (step : s.step l = some s') :
    Slack s l s' := by
  cases l with
  | pick =>
    have new := some.inj step
    exact .of_append rfl rfl (show s'.ops = s.ops ++ [.scan 0 {}] by rw [← new]) (by rw [← new])
  | done t failed =>
    rw [State.step] at step
    split at step
    · rename_i res _
      have new := some.inj step
      exact .of_append rfl rfl (show s'.ops = s.ops ++ [.done res failed] by rw [← new])
        (by rw [← new])
    · cases step
  | go t =>
    obtain ⟨op, at_, step⟩ := bind_eq_some_iff.mp step
    obtain ⟨action, next, step⟩ := bind_eq_some_iff.mp step
    have limit : s.hitsLimit (.go t) = op.hitsLimit s.connections := by
      rw [State.hitsLimit, at_, any_some]
    cases next_owner next with
    | lock i op' free takes within =>
      rw [State.act] at step
      split at step
      · rename_i unlocked
        have new := some.inj step
        refine .even (limit.trans within) fun j => ?_
        have held := held_set at_ (show s'.ops = s.ops.set t op' by rw [← new]) j
        have locked := locked_set unlocked (show s'.mutexes = s.mutexes.set i true by rw [← new]) j
        rw [has_of_free free, has_of_holds takes] at held
        by_cases here : j = i
        · have zero : s.locked i = 0 := by simp [State.locked, unlocked]
          subst here
          simp only [if_true, Bool.toNat_true] at held locked
          omega
        · simp only [here, if_false] at held locked
          omega
      · cases step
    | unlock i cs op' has leaves within =>
      have taken := locked_of_held (owned i) at_ has
      have new := some.inj step
      refine .even (limit.trans within) fun j => ?_
      have held := held_set at_ (show s'.ops = s.ops.set t op' by rw [← new]) j
      have locked := locked_set taken (show s'.mutexes = s.mutexes.set i false by rw [← new]) j
      rw [has_of_holds has, has_of_free leaves] at held
      by_cases here : j = i
      · have one : s.locked i = 1 := by simp [State.locked, taken]
        subst here
        simp only [if_true, Bool.toNat_false] at held locked
        omega
      · simp only [here, if_false] at held locked
        omega
    | skip op' free free' within =>
      have new := some.inj step
      refine .even (limit.trans within) fun j => ?_
      have held := held_set at_ (show s'.ops = s.ops.set t op' by rw [← new]) j
      have locked : s'.locked j = s.locked j := locked_eq (by rw [← new]) j
      rw [has_of_free free, has_of_free free'] at held
      omega
    | keep i op' has leaves hits =>
      have new := some.inj step
      have held (j : Nat) := held_set at_ (show s'.ops = s.ops.set t op' by rw [← new]) j
      refine .kept i (limit.trans hits) (locked_eq (by rw [← new])) ?_ ?_
      · have here := held i
        rw [has_of_holds has, if_pos rfl, has_of_free leaves] at here
        omega
      · intro j
        have there := held j
        rw [has_of_free leaves] at there
        omega

/-! ## Runs -/

theorem Slack.owned (slack : Slack s l s') (owned : ∀ i, s.held i ≤ s.locked i) (i : Nat) :
    s'.held i ≤ s'.locked i := by
  have before := owned i
  cases slack with
  | even within same =>
    have := same i
    omega
  | kept j limit locked left fewer =>
    rw [locked]
    exact (fewer i).trans before

theorem Slack.exact_ (slack : Slack s l s') (within : WithinLimits s l)
    (exact_ : ∀ i, s.held i = s.locked i) (i : Nat) : s'.held i = s'.locked i := by
  cases slack with
  | even _ same =>
    have := same i
    have := exact_ i
    omega
  | kept j limit =>
    rw [WithinLimits, limit] at within
    cases within

theorem Slack.leaked (slack : Slack s l s') (leaked : s.held i < s.locked i) :
    s'.held i < s'.locked i := by
  cases slack with
  | even _ same =>
    have := same i
    omega
  | kept j limit locked left fewer =>
    rw [locked]
    exact (fewer i).trans_lt leaked

theorem fresh_exact (i : Nat) : (fresh connections).held i = (fresh connections).locked i := by
  have unlocked : ¬ (fresh connections).mutexes[i]? = some true := by
    rw [fresh, List.getElem?_map]
    cases connections[i]? <;> simp
  rw [locked, if_neg unlocked]
  rfl

def Op.Valid (n : Nat) : Op → Prop
  | .scan _ acc => ∀ res, acc.res = some res → res < n
  | .visit i acc => i < n ∧ ∀ res, acc.res = some res → res < n
  | .picked res => ∀ r, res = some r → r < n
  | .charge res _ | .pay res _ | .done res _ | .settle res _ => res < n
  | .returned => True

structure Inv (n : Nat) (s : State SC) : Prop where
  owned : ∀ i, s.held i ≤ s.locked i
  connections : s.connections.length = n
  mutexes : s.mutexes.length = n
  valid : ∀ op ∈ s.ops, op.Valid n

theorem visit_length (connections : List (WeightConn SC)) (acc : Acc) (i : Nat) :
    (visit connections acc i).1.length = connections.length := by
  unfold visit
  split <;> simp

theorem visit_weights (connections : List (WeightConn SC)) (acc : Acc) (i : Nat) :
    (visit connections acc i).1.map (·.efficientWeight) = connections.map (·.efficientWeight) := by
  unfold visit
  split
  · rfl
  · rename_i c here
    have same : c.gain.efficientWeight = c.efficientWeight := rfl
    exact map_set_of_eq here same

theorem visit_res {acc : Acc} {res : Nat} (found : (visit connections acc i).2.res = some res) :
    res = i ∨ acc.res = some res := by
  unfold visit at found
  split at found
  · exact .inr found
  · dsimp only at found
    split at found
    · exact .inl (some.inj found).symm
    · exact .inr found

def Action.next : Action SC → Op
  | .lock _ op | .unlock _ _ op | .skip op => op

def Action.after (connections : List (WeightConn SC)) : Action SC → List (WeightConn SC)
  | .unlock _ cs _ => cs
  | _ => connections

theorem act_spec (act : s.act t action = some s') :
    s'.connections = action.after s.connections ∧ s'.ops = s.ops.set t action.next ∧
      s'.mutexes.length = s.mutexes.length := by
  cases action with
  | lock =>
    rw [State.act] at act
    split at act
    · cases act
      exact ⟨rfl, rfl, length_set⟩
    · cases act
  | unlock =>
    cases act
    exact ⟨rfl, rfl, length_set⟩
  | skip =>
    cases act
    exact ⟨rfl, rfl, rfl⟩

theorem next_valid (valid : op.Valid connections.length)
    (next : op.next connections = some action) : action.next.Valid connections.length ∧
      (action.after connections).length = connections.length := by
  cases op with
  | scan =>
    rw [Op.next] at next
    split at next
    · cases next
      exact ⟨⟨‹_›, valid⟩, rfl⟩
    · split at next <;> cases next
      · exact ⟨nofun, rfl⟩
      · exact ⟨valid _ ‹_›, rfl⟩
  | visit =>
    cases next
    refine ⟨?_, visit_length _ _ _⟩
    intro res found
    rcases visit_res found with rfl | old
    · exact valid.1
    · exact valid.2 res old
  | charge | done =>
    cases next
    exact ⟨valid, rfl⟩
  | pay =>
    cases next
    refine ⟨?_, length_modify ..⟩
    intro r same
    cases same
    exact valid
  | settle =>
    obtain ⟨-, -, rfl⟩ := map_eq_some_iff.mp next
    split
    · exact ⟨trivial, rfl⟩
    · exact ⟨trivial, length_modify ..⟩
  | picked | returned => cases next

variable {n : Nat}

theorem Inv.keeps (inv : Inv n s) (step : s.step l = some s') : Inv n s' := by
  have owned := (step_slack inv.owned step).owned inv.owned
  cases l with
  | pick =>
    cases step
    exact ⟨owned, inv.connections, inv.mutexes,
      forall_mem_append.mpr ⟨inv.valid, forall_mem_singleton.mpr nofun⟩⟩
  | done t failed =>
    rw [State.step] at step
    split at step
    · rename_i res at_
      cases step
      have valid := inv.valid _ (mem_of_getElem? at_) res rfl
      exact ⟨owned, inv.connections, inv.mutexes,
        forall_mem_append.mpr ⟨inv.valid, forall_mem_singleton.mpr valid⟩⟩
    · cases step
  | go =>
    obtain ⟨op, at_, step⟩ := bind_eq_some_iff.mp step
    obtain ⟨action, next, act⟩ := bind_eq_some_iff.mp step
    obtain ⟨cs, ops, mutexes⟩ := act_spec act
    have valid := inv.valid op (mem_of_getElem? at_)
    rw [← inv.connections] at valid
    obtain ⟨valid', length⟩ := next_valid valid next
    rw [inv.connections] at valid' length
    refine ⟨owned, by rw [cs, length], by rw [mutexes, inv.mutexes], ?_⟩
    rw [ops]
    exact forall_mem_set inv.valid valid'

theorem fresh_inv (connections : List (WeightConn SC)) :
    Inv connections.length (fresh connections) :=
  ⟨fun i => le_of_eq (fresh_exact i), rfl, length_map _, nofun⟩

/-! ## Nothing blocks -/

def State.Waits (s : State SC) (t u : Nat) : Prop :=
  ∃ op i op' other, s.ops[t]? = some op ∧ Op.next s.connections op = some (.lock i op') ∧
    s.ops[u]? = some other ∧ other.holds = some i

theorem step_go (at_ : s.ops[t]? = some op) :
    s.step (.go t) = (op.next s.connections).bind (s.act t) := by
  rw [State.step, at_, bind_some]

theorem next_isSome (valid : op.Valid connections.length)
    (running : op.inProgress = true) : ∃ action, op.next connections = some action := by
  cases op with
  | scan =>
    rw [Op.next]
    split
    · exact ⟨_, rfl⟩
    · split <;> exact ⟨_, rfl⟩
  | visit | charge | pay | done => exact ⟨_, rfl⟩
  | settle =>
    rw [Op.next, List.getElem?_eq_getElem valid]
    exact ⟨_, rfl⟩
  | picked | returned => cases running

theorem holder_goes (inv : Inv n s) (at_ : s.ops[t]? = some op)
    (holds : op.holds = some i) : (s.step (.go t)).isSome := by
  have valid := inv.valid op (mem_of_getElem? at_)
  rw [← inv.connections] at valid
  have running : op.inProgress = true := by
    cases op <;> first | rfl | cases holds
  obtain ⟨action, next⟩ := next_isSome valid running
  rw [step_go at_, next, bind_some]
  cases next_owner next with
  | lock _ _ free => simp [free] at holds
  | unlock | skip | keep => rfl

theorem Op.Valid.holds_lt (valid : op.Valid n) (holds : op.holds = some i) : i < n := by
  cases op with
  | visit => exact some.inj holds ▸ valid.1
  | pay | settle => exact some.inj holds ▸ valid
  | scan | charge | picked | done | returned => cases holds

theorem goes_or_waits (inv : Inv n s) (exact_ : ∀ i, s.held i = s.locked i)
    (at_ : s.ops[t]? = some op) (running : op.inProgress = true) :
    (s.step (.go t)).isSome ∨ ∃ u, s.Waits t u ∧ (s.step (.go u)).isSome := by
  have valid := inv.valid op (mem_of_getElem? at_)
  rw [← inv.connections] at valid
  obtain ⟨action, next⟩ := next_isSome valid running
  cases next_owner next with
  | unlock | skip | keep =>
    left
    rw [step_go at_, next, bind_some]
    rfl
  | lock i op' free takes =>
    have inside : i < s.mutexes.length := by
      rw [inv.mutexes, ← inv.connections]
      exact (next_valid valid next).1.holds_lt takes
    cases free : s.mutexes[i] with
    | false =>
      left
      rw [step_go at_, next, bind_some, act, if_pos]
      · rfl
      · rw [List.getElem?_eq_getElem inside, free]
    | true =>
      right
      have one : s.held i = 1 := by
        rw [exact_, locked, if_pos]
        rw [List.getElem?_eq_getElem inside, free]
      obtain ⟨other, present, holds⟩ : ∃ other ∈ s.ops, other.holds = some i := by
        by_contra nobody
        have zero : s.held i = 0 := by
          apply sum_eq_zero
          intro x inside
          obtain ⟨other, present, rfl⟩ := mem_map.mp inside
          exact if_neg fun holds => nobody ⟨other, present, holds⟩
        omega
      obtain ⟨u, there⟩ := mem_iff_getElem?.mp present
      exact ⟨u, ⟨op, i, op', other, at_, next, there, holds⟩, holder_goes inv there holds⟩

/-! ## Weights -/

def Near (c c' : WeightConn SC) : Prop :=
  c'.efficientWeight.toNat ≤ c.efficientWeight.toNat + 1 ∧
    c.efficientWeight.toNat ≤ c'.efficientWeight.toNat + 1

theorem Near.of_eq {c c' : WeightConn SC} (same : c'.efficientWeight = c.efficientWeight) :
    Near c c' := by
  rw [Near, same]
  omega

theorem adjust_near {failed : Bool} {c : WeightConn SC} (within : c.atLimit failed = false) :
    Near c (c.adjust failed) := by
  have small := c.efficientWeight.toNat_lt
  cases failed with
  | true =>
    have some_ : c.efficientWeight.toNat ≠ 0 := by
      intro zero
      have same : c.efficientWeight = 0 := UInt32.toNat_inj.mp zero
      simp [atLimit, same] at within
    have less : (1 : UInt32) ≤ c.efficientWeight := by
      rw [UInt32.le_iff_toNat_le]
      change 1 ≤ c.efficientWeight.toNat
      omega
    simp only [Near, adjust, if_true, UInt32.toNat_sub_of_le _ _ less]
    change c.efficientWeight.toNat - 1 ≤ _ ∧ _ ≤ c.efficientWeight.toNat - 1 + 1
    omega
  | false =>
    have room : c.efficientWeight.toNat ≠ 4294967295 := by
      intro largest
      have same : c.efficientWeight = 4294967295 := UInt32.toNat_inj.mp largest
      simp [atLimit, same] at within
    have next : (c.efficientWeight + 1).toNat = c.efficientWeight.toNat + 1 := by
      rw [UInt32.toNat_add]
      apply Nat.mod_eq_of_lt
      change c.efficientWeight.toNat + 1 < 4294967296
      omega
    simp only [Near, adjust, Bool.false_eq_true, if_false, next]
    omega

theorem Near.of_map {cs cs' : List (WeightConn SC)}
    (same : cs'.map (·.efficientWeight) = cs.map (·.efficientWeight))
    {c c' : WeightConn SC} (before : cs[i]? = some c) (after : cs'[i]? = some c') : Near c c' := by
  have here := congrArg (·[i]?) same
  simp only [List.getElem?_map, before, after, map_some, some.injEq] at here
  exact .of_eq here

theorem next_near (next : op.next connections = some action)
    {c c' : WeightConn SC} (before : connections[i]? = some c)
    (after : (action.after connections)[i]? = some c') : Near c c' := by
  cases op with
  | scan =>
    rw [Op.next] at next
    split at next
    · cases next
      exact .of_map rfl before after
    · split at next <;> cases next <;> exact .of_map rfl before after
  | visit j acc =>
    cases next
    exact .of_map (visit_weights connections acc j) before after
  | charge | done =>
    cases next
    exact .of_map rfl before after
  | pay res total =>
    cases next
    have same : ∀ d : WeightConn SC, (d.pay total).efficientWeight = d.efficientWeight :=
      fun _ => rfl
    exact .of_map (map_modify_of_eq same) before after
  | settle res failed =>
    obtain ⟨d, here, rfl⟩ := map_eq_some_iff.mp next
    split at after
    · exact .of_map rfl before after
    rename_i within
    rw [Action.after, List.getElem?_modify, before] at after
    by_cases same : res = i
    · obtain rfl : d = c := some.inj (here.symm.trans (same ▸ before))
      obtain rfl : d.adjust failed = c' := by simpa [same] using after
      exact adjust_near (Bool.not_eq_true _ ▸ within)
    · obtain rfl : c = c' := by simpa [same] using after
      exact .of_eq rfl
  | picked | returned => cases next

def State.Near (s s' : State SC) : Prop :=
  ∀ (i : Nat) (c c' : WeightConn SC), s.connections[i]? = some c →
    s'.connections[i]? = some c' → Locks.Near c c'

theorem step_near (step : s.step l = some s') : s.Near s' := by
  intro i c c' before after
  cases l with
  | pick =>
    cases step
    exact .of_map rfl before after
  | done =>
    rw [State.step] at step
    split at step
    · cases step
      exact .of_map rfl before after
    · cases step
  | go t =>
    obtain ⟨op, at_, step⟩ := bind_eq_some_iff.mp step
    obtain ⟨action, next, act⟩ := bind_eq_some_iff.mp step
    rw [(act_spec act).1] at after
    exact next_near next before after

/-! ## The balancer -/

theorem State.Quiet.held_eq (quiet : s.Quiet) (i : Nat) : s.held i = 0 := by
  apply sum_eq_zero
  intro x inside
  obtain ⟨op, present, rfl⟩ := mem_map.mp inside
  have idle := quiet op present
  apply has_of_free
  cases op <;> first | rfl | cases idle

def State.Free (s : State SC) : Prop := ∀ locked ∈ s.mutexes, locked = false

theorem State.free_iff : s.Free ↔ ∀ i, s.locked i = 0 := by
  constructor
  · intro free i
    apply if_neg
    intro taken
    cases free true (mem_of_getElem? taken)
  · intro zero locked inside
    obtain ⟨i, at_⟩ := mem_iff_getElem?.mp inside
    cases locked with
    | false => rfl
    | true =>
      have := zero i
      simp [locked, at_] at this

section

variable {ls : List Label}

theorem exact_of_within
    (run : (balancer connections).exec WithinLimits (fresh connections) ls = some s) :
    Inv connections.length s ∧ ∀ i, s.held i = s.locked i := by
  apply (run_of_exec run).keeps
    (I := fun s => Inv connections.length s ∧ ∀ i, s.held i = s.locked i)
  · intro s l s' ⟨inv, exact_⟩ within step
    exact ⟨inv.keeps step, (step_slack inv.owned step).exact_ within exact_⟩
  · exact ⟨fresh_inv connections, fresh_exact⟩

theorem leaked_of_limit {mid next : State SC}
    (before : (balancer connections).Run Any (fresh connections) mid)
    (limit : ¬ WithinLimits mid l) (step : mid.step l = some next)
    (after : (balancer connections).Run Any next s) : ∃ i, s.held i < s.locked i := by
  have inv : Inv connections.length mid :=
    before.keeps (I := Inv connections.length) (fun _ _ _ inv _ step => inv.keeps step)
      (fresh_inv connections)
  cases step_slack inv.owned step with
  | even within => exact (limit within).elim
  | kept i hits locked =>
    refine ⟨i, ?_⟩
    have leaked : next.held i < next.locked i := by
      have := inv.owned i
      have := locked i
      omega
    apply (after.keeps (I := fun s => Inv connections.length s ∧ s.held i < s.locked i) _
      ⟨inv.keeps step, leaked⟩).2
    intro s l s' ⟨inv, leaked⟩ _ step
    exact ⟨inv.keeps step, (step_slack inv.owned step).leaked leaked⟩

/-- Whenever no operation is in progress, every mutex is free exactly if no `Done` has found a
limit; until then every operation can go on or waits for one that can; and in no step an
effective weight wraps around. -/
theorem locks_released_iff (run : (balancer connections).exec Any (fresh connections) ls = some s) :
    (s.Quiet →
      (s.Free ↔ (balancer connections).exec WithinLimits (fresh connections) ls = some s)) ∧
    ((balancer connections).exec WithinLimits (fresh connections) ls = some s →
      ∀ t op, s.ops[t]? = some op → op.inProgress = true →
        (s.step (.go t)).isSome ∨ ∃ u, s.Waits t u ∧ (s.step (.go u)).isSome) ∧
    (balancer connections).Along (fun s _ s' => s.Near s') (fresh connections) ls := by
  refine ⟨?_, ?_, along_of_forall (fun _ _ _ step => step_near step) _ _⟩
  · intro quiet
    rw [free_iff]
    constructor
    · intro free
      rcases exec_or_violates WithinLimits run with
        done | ⟨mid, l, next, before, limit, step, after⟩
      · exact done
      · obtain ⟨i, leaked⟩ := leaked_of_limit before limit step after
        rw [free i] at leaked
        cases leaked
    · intro within i
      rw [← (exact_of_within within).2, quiet.held_eq]
  · intro within t op at_ running
    obtain ⟨inv, exact_⟩ := exact_of_within within
    exact goes_or_waits inv exact_ at_ running

end

instance (s : State SC) : Decidable s.Quiet := inferInstanceAs (Decidable (∀ _ ∈ _, _))

instance (s : State SC) : Decidable s.Free := inferInstanceAs (Decidable (∀ _ ∈ _, _))

def failing (t : Nat) : List Label :=
  [.pick, .go t, .go t, .go t, .go t, .go t, .done t true, .go (t + 1), .go (t + 1)]

theorem locks_released_iff_one : ∃ s : State Nat, s.Quiet ∧ s.Free := by
  obtain ⟨s, run, within, quiet⟩ : ∃ s,
      (balancer [newWeightConn 0 1]).exec Any (fresh [newWeightConn 0 1]) (failing 0) = some s ∧
        (balancer [newWeightConn 0 1]).exec WithinLimits (fresh [newWeightConn 0 1])
          (failing 0) = some s ∧ s.Quiet := by
    decide +kernel
  exact ⟨s, quiet, ((locks_released_iff run).1 quiet).mpr within⟩

/-- After two errors on a connection of weight one its mutex is locked for good: the next
`Pick` cannot take its first step. -/
theorem done_keeps_lock :
    let connections := [newWeightConn 0 1]
    ∃ s, (balancer connections).Reachable Any s ∧ s.Quiet ∧ ¬ s.Free ∧
      ∃ s', s.step .pick = some s' ∧ s'.step (.go 4) = none := by
  intro connections
  obtain ⟨s, run, quiet, taken, blocked⟩ : ∃ s,
      (balancer connections).exec Any (fresh connections) (failing 0 ++ failing 2) = some s ∧
        s.Quiet ∧ ¬ s.Free ∧ ∃ s', s.step .pick = some s' ∧ s'.step (.go 4) = none := by
    decide +kernel
  exact ⟨s, ⟨_, rfl, run_of_exec run⟩, quiet, taken, blocked⟩

end Locks

end Soil.LoadBalance
