import Soil.Pool.Step

/-!
# Moving connections

Every operation handles connections in a few ways: it takes objects from the idle list,
pushes, lends, closes or wraps them.  `Hand` is what a goroutine has taken out of the pool's
lists, and `Move` is one such act on the lists and the hand.  Invariants about connections
are proved move by move.
-/

namespace Soil.Pool

open List Thread Conns

/-! ## Hands -/

/-- What a goroutine has in hand: the number of connections it is making, the objects it
took out of the lists, those of them that nobody can have returned, the objects it borrowed
with their connections, those it has won the right to return, and those it knows. -/
@[ext] structure Hand where
  making : Nat := 0
  ptrs : List Nat := []
  fresh : List Nat := []
  lent : List (Nat × Option Nat) := []
  claims : List Nat := []
  known : List Nat := []

def Section.hand : Section → Hand
  | .getPinged p _ _ | .getClose p | .putPinged p _ | .putIdle p => { ptrs := [p] }
  | .getMade p => { ptrs := [p], fresh := [p] }
  | .putConn p | .markUnhealthy p => { claims := [p] }
  | .cleanupClose p rest => { ptrs := p :: rest }
  | _ => {}

def Outside.hand (borrowed : Bool) (conn : Option Nat) : Outside → Hand
  | .getPing p _ | .getClosing p | .putPing p => { ptrs := [p] }
  | .factory => { making := 1 }
  | .closeAll ps => { ptrs := ps }
  | .done (.ok p) => { lent := if borrowed then [(p, conn)] else [], known := [p] }
  | _ => {}

def Thread.hand (th : Thread) : Hand :=
  match th.pc with
  | .returns _ _ p => { known := [p] }
  | .lock sec | .held sec => sec.hand
  | .unlock out | .free out => out.hand th.borrowed th.conn
  | .wait | .signal | .broadcast | .asleep => {}

def State.hands (s : State) : List Hand := s.threads.map Thread.hand

def Hand.giveUp (h : Hand) : Hand := { h with lent := [] }

theorem hand_giveUp (th : Thread) : th.giveUp.hand = th.hand.giveUp := by
  have outside (out : Outside) : out.hand false th.conn = (out.hand th.borrowed th.conn).giveUp :=
    by
    cases out with
    | done ret => cases ret <;> cases th.borrowed <;> rfl
    | _ => rfl
  have inside (sec : Section) : sec.hand = sec.hand.giveUp := by cases sec <;> rfl
  cases pc : th.pc with
  | lock sec | held sec => simpa only [hand, giveUp, pc] using inside sec
  | unlock out | free out => simpa only [hand, giveUp, pc] using outside out
  | _ => simp [hand, Hand.giveUp, pc]

theorem hand_wake (th : Thread) : th.wake.hand = th.hand := by
  unfold wake
  split
  · simp only [hand, goto, *]
    rfl
  · rfl

/-! ## Moves -/

def Conns.Empties (c : Conns) (pick : Option Nat) : Prop :=
  ∀ p, pick = some p → p ∈ c.connPool → p < c.pcCnt ∧ (c.pcs p).conn = none

inductive Move (cfg : Config) (closed strict : Bool) : Conns × Hand → Conns × Hand → Prop
  | scan {c : Conns} {h : Hand} (ps idle : List Nat) (split : c.idleConns.Perm (ps ++ idle)) :
      Move cfg closed strict (c, h)
        ({ c with idleConns := idle }, { h with ptrs := ps ++ h.ptrs })
  | push {c : Conns} {h : Hand} {p : Nat} {ps : List Nat} (first : h.ptrs = p :: ps)
      (settled : h.fresh = []) (room : c.idleConns.length < cfg.maxIdleCnt) :
      Move cfg closed strict (c, h) (c.push p, { h with ptrs := ps })
  | close {c : Conns} {h : Hand} {p : Nat} {ps : List Nat} (first : h.ptrs = p :: ps)
      (settled : h.fresh = []) :
      Move cfg closed strict (c, h) (c.closeConnLocked p, { h with ptrs := ps })
  | touch {c : Conns} {h : Hand} (p : Nat) (now : Int) :
      Move cfg closed strict (c, h) (c.touch p now, h)
  | lend {c : Conns} {h : Hand} {p : Nat} (there : p ∈ h.ptrs) :
      Move cfg closed strict (c, h) (c.setReturned p false, { h with fresh := p :: h.fresh })
  | forget {c : Conns} {h : Hand} : Move cfg closed strict (c, h) (c, { h with fresh := [] })
  | activate {c : Conns} {h : Hand} {p : Nat} {ps : List Nat} (first : h.ptrs = p :: ps)
      (fresh : h.fresh = [p]) :
      Move cfg closed strict (c, h)
        (c.activate p, { h with
            ptrs := ps
            fresh := []
            lent := (p, (c.pcs p).conn) :: h.lent
            known := p :: h.known })
  | deactivate {c : Conns} {h : Hand} {p : Nat} {ks : List Nat} (claim : h.claims = p :: ks)
      (active : strict = true → p ∈ c.activeConns) :
      Move cfg closed strict (c, h)
        (c.deactivate p, { h with ptrs := p :: h.ptrs, claims := ks })
  | drop {c : Conns} {h : Hand} {p : Nat} {ks : List Nat} (lax : strict = false)
      (claim : h.claims = p :: ks) :
      Move cfg closed strict (c, h) (c.closeConnLocked p, { h with claims := ks })
  | reserve {c : Conns} {h : Hand} :
      Move cfg closed strict (c, h)
        ({ c with connCnt := c.connCnt + 1 }, { h with making := h.making + 1 })
  | unreserve {c : Conns} {h : Hand} {n : Nat} (one : h.making = n + 1) :
      Move cfg closed strict (c, h)
        ({ c with connCnt := c.connCnt - 1 }, { h with making := n })
  | wrap {c : Conns} {h : Hand} {n : Nat} (now : Int) {pick : Option Nat}
      (one : h.making = n + 1) (empties : c.Empties pick) :
      Move cfg closed strict (c, h)
        ((c.wrapConn now pick).1, { h with
            making := n
            ptrs := (c.wrapConn now pick).2 :: h.ptrs
            fresh := (c.wrapConn now pick).2 :: h.fresh })
  | refuse {c : Conns} {h : Hand} :
      Move cfg closed strict (c, h) ({ c with closes := c.closes ++ [1] }, h)
  | release {c : Conns} {h : Hand} (ended : closed = true) :
      Move cfg closed strict (c, h)
        ({ c with activeConns := [] }, { h with ptrs := c.activeConns ++ h.ptrs })

abbrev Moves (cfg : Config) (closed strict : Bool) : Conns × Hand → Conns × Hand → Prop :=
  Relation.ReflTransGen (Move cfg closed strict)

section

variable {cfg : Config} {closed strict : Bool} {x y : Conns × Hand}

theorem Moves.keeps {I : Conns × Hand → Prop}
    (keeps : ∀ x y, Move cfg closed strict x y → I x → I y)
    (moves : Moves cfg closed strict x y) (holds : I x) : I y := by
  induction moves with
  | refl => exact holds
  | tail _ move ih => exact keeps _ _ move ih

def Section.Fair (strict closed : Bool) (c : Conns) (pick : Option Nat) : Section → Prop
  | .putConn p => strict = true → closed = false ∧ p ∈ c.activeConns
  | .markUnhealthy p => strict = true → p ∈ c.activeConns
  | .put => closed = false → c.Empties pick
  | .releaseAll => closed = true
  | _ => True

variable {c : Conns} {th : Thread} {inp : Input}

theorem take_moves (p : Nat) : Moves cfg closed strict (c, { ptrs := [p] })
      ((c.take th p).1, (c.take th p).2.hand) := by
  have lent : Move cfg closed strict (c, { ptrs := [p] })
      (c.setReturned p false, { ptrs := [p], fresh := [p] }) := .lend (mem_singleton_self p)
  refine (Relation.ReflTransGen.single lent).tail ?_
  have same : (c.pcs p).conn = ((c.setReturned p false).pcs p).conn := by simp
  simp only [Conns.take, hand, obtain, Outside.hand, if_true, same]
  exact .activate rfl rfl

theorem getIdle_moves (now : Int) : Moves cfg closed strict (c, {})
      ((c.exec cfg closed th inp (.getIdleConnLocked now)).1,
        (c.exec cfg closed th inp (.getIdleConnLocked now)).2.hand) := by
  cases last : c.idleConns.getLast? with
  | none =>
    simp only [exec, last]
    split
    · exact .single .reserve
    · exact .refl
  | some p =>
    have split : c.idleConns.Perm ([p] ++ c.idleConns.dropLast) := by
      conv_lhs => rw [← dropLast_append_getLast? p last]
      exact perm_append_comm
    have popped : Moves cfg closed strict (c, {})
        ({ c with idleConns := c.idleConns.dropLast }, { ptrs := [p] }) :=
      .single (.scan [p] _ split)
    simp only [exec, last]
    split
    · exact popped.tail (.close rfl rfl)
    · split
      · exact popped
      · exact popped.trans (take_moves p)

theorem cleanup_moves (now : Int) : Moves cfg closed strict (c, {})
      ((c.exec cfg closed th inp (.cleanup now)).1,
        (c.exec cfg closed th inp (.cleanup now)).2.hand) := by
  simp only [exec]
  split
  · exact .refl
  generalize found : List.filter _ c.idleConns.reverse = old
  have split : c.idleConns.Perm
      (old ++ c.idleConns.filter fun p => !cfg.expired (c.pcs p) now) := by
    rw [← found, filter_reverse]
    exact ((filter_append_perm _ _).symm).trans ((reverse_perm _).symm.append_right _)
  have scan : Move cfg closed strict (c, {})
      ({ c with idleConns := c.idleConns.filter fun p => !cfg.expired (c.pcs p) now },
        { ptrs := old ++ [] }) := .scan old _ split
  have scanned := Relation.ReflTransGen.single scan
  simp only [append_nil] at scanned
  by_cases none : old = []
  · subst none
    exact scanned
  · rw [if_neg none]
    exact scanned

theorem exec_moves {sec : Section} (fair : sec.Fair strict closed c inp.pick)
    (other : sec ≠ .releaseAll) : Moves cfg closed strict (c, sec.hand)
      ((c.exec cfg closed th inp sec).1, (c.exec cfg closed th inp sec).2.hand) := by
  cases sec with
  | getIdleConnLocked now => exact getIdle_moves now
  | getPinged p =>
    simp only [exec]
    split
    · exact .single (.close rfl rfl)
    · split
      · exact take_moves p
      · exact .single (.close rfl rfl)
  | getMade =>
    simp only [exec]
    split
    · exact .single .forget
    · exact .single (.activate rfl rfl)
  | putConn p =>
    simp only [exec]
    split
    · have lax : strict = false := by
        cases strict with
        | false => rfl
        | true => simp_all [Section.Fair]
      exact .single (.drop lax rfl)
    · have active : strict = true → p ∈ c.activeConns := fun on => (fair on).2
      have taken : Moves cfg closed strict (c, { claims := [p] })
          (c.deactivate p, { ptrs := [p] }) := .single (.deactivate rfl active)
      split
      · exact taken.tail (.close rfl rfl)
      · split <;> exact taken
  | putIdle p =>
    have touched : Moves cfg closed strict (c, { ptrs := [p] })
        (c.touch p inp.now, { ptrs := [p] }) := .single (.touch p inp.now)
    simp only [exec]
    split
    · exact touched.tail (.push rfl rfl ‹_›)
    · exact touched.tail (.close rfl rfl)
  | markUnhealthy p =>
    have taken : Moves cfg closed strict (c, { claims := [p] })
        (c.deactivate p, { ptrs := [p] }) := .single (.deactivate rfl fair)
    exact taken.tail (.close rfl rfl)
  | put =>
    simp only [exec]
    split
    · exact .single .refuse
    have reserved : Moves cfg closed strict (c, {})
        ({ c with connCnt := c.connCnt + 1 }, { making := 1 }) := .single .reserve
    have empties : { c with connCnt := c.connCnt + 1 }.Empties inp.pick :=
      fair (by simpa using ‹¬closed = true›)
    have wrapped := (reserved.tail (.wrap inp.now rfl empties)).tail .forget
    split
    · exact wrapped.tail (.push rfl rfl ‹_›)
    · exact wrapped.tail (.close rfl rfl)
  | releaseAll => exact absurd rfl other
  | cleanup now => exact cleanup_moves now
  | _ =>
    -- a section that closes the object in hand or moves nothing
    simp only [exec]
    repeat' (first | exact .refl | exact .single (.close rfl rfl) | split)

/-! ## The last section of `Release` -/

theorem closeAll_moves (ps : List Nat) :
    Moves cfg closed strict (c, { ptrs := ps }) (ps.foldl closeConnLocked c, {}) := by
  induction ps generalizing c with
  | nil => exact .refl
  | cons p ps ih => exact .head (.close rfl rfl) ih

theorem releaseAll_idle (c : Conns) : c.releaseAll.idleConns = [] := by
  have kept (ps : List Nat) (c : Conns) :
      (ps.foldl closeConnLocked c).idleConns = c.idleConns := by
    induction ps generalizing c with
    | nil => rfl
    | cons p ps ih => exact ih _
  exact kept _ _

theorem releaseAll_moves (ended : closed = true) :
    ∃ n, Moves cfg closed strict (c, {}) ({ c.releaseAll with connCnt := n }, {}) := by
  -- the section closes the objects first and empties the lists then
  let c₁ := c.idleConns.foldl closeConnLocked { c with idleConns := [] }
  let c₂ := c₁.activeConns.foldl closeConnLocked { c₁ with activeConns := [] }
  have idle : { c.idleConns.foldl closeConnLocked c with idleConns := [] } = c₁ :=
    (foldl_hom (fun c : Conns => { c with idleConns := [] }) fun _ _ => rfl).symm
  have active : { c₁.activeConns.foldl closeConnLocked c₁ with activeConns := [] } = c₂ :=
    (foldl_hom (fun c : Conns => { c with activeConns := [] }) fun _ _ => rfl).symm
  have released : c.releaseAll = { c₂ with connCnt := 0 } :=
    (congrArg (fun c : Conns => { c.activeConns.foldl closeConnLocked c with
      activeConns := [], connCnt := 0 }) idle).trans
      (congrArg (fun c : Conns => { c with connCnt := 0 }) active)
  have first : Moves cfg closed strict (c, {}) (c₁, {}) := by
    have scan : Move cfg closed strict (c, {})
        ({ c with idleConns := [] }, { ptrs := c.idleConns ++ [] }) := .scan _ [] (by simp)
    rw [append_nil] at scan
    exact (Relation.ReflTransGen.single scan).trans (closeAll_moves _)
  have second : Moves cfg closed strict (c₁, {}) (c₂, {}) := by
    have empty : Move cfg closed strict (c₁, {})
        ({ c₁ with activeConns := [] }, { ptrs := c₁.activeConns ++ [] }) := .release ended
    rw [append_nil] at empty
    exact (Relation.ReflTransGen.single empty).trans (closeAll_moves _)
  rw [released]
  exact ⟨c₂.connCnt, first.trans second⟩

end

/-! ## Steps -/

def State.Fair (strict : Bool) (s : State) : Label → Prop
  | .run t inp => ∀ th, s.threads[t]? = some th →
      (∀ sec, th.pc = .held sec → sec.Fair strict s.closed s.toConns inp.pick) ∧
        (th.pc = .free .factory → inp.ok = true → s.Empties inp.pick)
  | _ => True

inductive State.Effect (cfg : Config) (strict : Bool) (s s' : State) : Label → Prop
  | call {l : Label} {known : List Nat} (conns : s'.toConns = s.toConns)
      (hands : s'.hands = s.hands ++ [{ known := known }])
      (source : ∀ p ∈ known, ∃ h ∈ s.hands, p ∈ h.known) : Effect cfg strict s s' l
  | moves {l : Label} {t : Nat} {h h' : Hand} (found : s.hands[t]? = some h)
      (hands : s'.hands = s.hands.set t h')
      (moves : Moves cfg s.closed strict (s.toConns, h) (s'.toConns, h')) :
      Effect cfg strict s s' l
  | releaseAll {t : Nat} {inp : Input} {n : Int} {th : Thread} (found : s.threads[t]? = some th)
      (pc : th.pc = .held .releaseAll) (hands : s'.hands = s.hands) (zero : s'.connCnt = 0)
      (idle : s'.idleConns = []) (active : s'.activeConns = [])
      (moves : Moves cfg s.closed strict (s.toConns, {}) ({ s'.toConns with connCnt := n }, {})) :
      Effect cfg strict s s' (.run t inp)
  | returns {t : Nat} {inp : Input} {call : Return} {g p : Nat} {th : Thread} (won : Bool)
      (found : s.threads[t]? = some th) (pc : th.pc = .returns call g p)
      (hand : s.hands[t]? = some { known := [p] })
      (flag : (s.pcs p).returned = !won)
      (conns : s'.toConns = if won then s.setReturned p true else s.toConns)
      (hands : s'.hands =
        (s.hands.modify g Hand.giveUp).set t { claims := if won then [p] else [] }) :
      Effect cfg strict s s' (.run t inp)

section

variable {cfg : Config} {strict : Bool} {s s' : State} {l : Label} {t : Nat} {th th' : Thread}

theorem hands_getElem? (found : s.threads[t]? = some th) : s.hands[t]? = some th.hand := by
  simp [State.hands, found]

theorem hands_set {ths : List Thread} (same : ths.map hand = s.hands) :
    (ths.set t th').map hand = s.hands.set t th'.hand := by
  rw [map_set, same]

theorem hands_wakeAll : s.wakeAll.hands = s.hands := by
  simp [State.hands, hand_wake]

theorem hands_giveUp {g : Nat} :
    (s.threads.modify g giveUp).map hand = s.hands.modify g Hand.giveUp := by
  apply ext_getElem?
  intro j
  rw [State.hands, List.getElem?_map, List.getElem?_modify, List.getElem?_modify, List.getElem?_map]
  cases s.threads[j]? with
  | none => rfl
  | some => by_cases here : g = j <;> simp [here, hand_giveUp]

theorem State.Effect.quiet (found : s.threads[t]? = some th) (same : th'.hand = th.hand)
    (conns : s'.toConns = s.toConns) (hands : s'.hands = s.hands.set t th'.hand) :
    s.Effect cfg strict s' l := by
  refine .moves (hands_getElem? found) hands ?_
  rw [conns, same]

theorem Outside.Goes.hand_eq {out : Outside} {next : PC} (goes : out.Goes next)
    (pc : th.pc = .free out) : (th.goto next).hand = th.hand := by
  cases goes <;> simp [Thread.hand, pc, Outside.hand, Section.hand]

theorem Outside.Wakes.hand_eq {out next : Outside} (wakes : out.Wakes next)
    (pc : th.pc = .free out) : (th.goto (.free next)).hand = th.hand := by
  cases wakes <;> simp [Thread.hand, pc, Outside.hand]

theorem begin_hand {op : Op} (begins : s.begin op = some th) :
    ∃ known, th.hand = { known := known } ∧ ∀ p ∈ known, ∃ h ∈ s.hands, p ∈ h.known := by
  have borrowed {g p : Nat} (done : (s.threads[g]?).map pc = some (.free (.done (.ok p)))) :
      ∀ q ∈ [p], ∃ h ∈ s.hands, q ∈ h.known := by
    obtain ⟨borrower, found, pc⟩ := Option.map_eq_some_iff.mp done
    rintro q (_ | ⟨_, ⟨⟩⟩)
    refine ⟨borrower.hand, mem_of_getElem? (hands_getElem? found), ?_⟩
    simp [hand, pc, Outside.hand]
  cases op with
  | get | put | release =>
    cases begins
    exact ⟨[], rfl, nofun⟩
  | putConn | markUnhealthy =>
    simp only [State.begin] at begins
    split at begins
    · cases begins
      exact ⟨_, rfl, borrowed ‹_›⟩
    · cases begins

theorem step_effect (step : s.Step cfg l s') (fair : s.Fair strict l) :
    s.Effect cfg strict s' l := by
  cases step with
  | call begins =>
    obtain ⟨known, hand, source⟩ := begin_hand begins
    exact .call rfl (by simp [State.hands, hand]) source
  | cancel found | fire found => exact .quiet found rfl rfl (hands_set rfl)
  | callback found => exact .quiet found rfl rfl (hands_wakeAll.trans (hands_set rfl))
  | lock found pc =>
    exact .quiet found (by simp [hand, pc]) rfl (hands_set rfl)
  | @exec t inp th sec found pc =>
    obtain ⟨fair, -⟩ := fair th found
    by_cases last : sec = .releaseAll
    · subst last
      have ended : s.closed = true := fair _ pc
      obtain ⟨n, moves⟩ : ∃ n, Moves cfg s.closed strict (s.toConns, {})
          ({ s.releaseAll with connCnt := n }, {}) := releaseAll_moves ended
      have same : (th.goto (.unlock (.done .void))).hand = th.hand := by
        simp [hand, pc, Outside.hand, Section.hand]
      exact .releaseAll found pc (map_set_of_eq found same) rfl (releaseAll_idle _) rfl moves
    · have moves : Moves cfg s.closed strict (s.toConns, sec.hand)
          ((s.exec cfg s.closed th inp sec).1, (s.exec cfg s.closed th inp sec).2.hand) :=
        exec_moves (fair sec pc) last
      have hand : th.hand = sec.hand := by simp [hand, pc]
      exact .moves (hands_getElem? found) (hands_set rfl) (hand ▸ moves)
  | wait found pc | unlock found pc =>
    exact .quiet found (by simp [hand, pc]) rfl (hands_set rfl)
  | signal found pc =>
    refine .quiet found ?_ rfl (hands_set (map_modify_of_eq hand_wake))
    simp [hand, pc, Outside.hand]
  | signalNobody found pc =>
    exact .quiet found (by simp [hand, pc, Outside.hand]) rfl (hands_set rfl)
  | broadcast found pc =>
    exact .quiet found (by simp [hand, pc, Outside.hand]) rfl (hands_set hands_wakeAll)
  | goto found pc goes => exact .quiet found (goes.hand_eq pc) rfl (hands_set rfl)
  | wakes found pc wakes => exact .quiet found (wakes.hand_eq pc) rfl (hands_set hands_wakeAll)
  | @factory t inp th found pc ok =>
    obtain ⟨-, empties⟩ := fair th found
    have hand : th.hand = { making := 1 } := by simp [hand, pc, Outside.hand]
    refine .moves (hands_getElem? found) (hands_set rfl) ?_
    rw [hand]
    exact .single (.wrap inp.now rfl (empties pc ok))
  | @factoryErr t inp th found pc =>
    have hand : th.hand = { making := 1 } := by simp [hand, pc, Outside.hand]
    refine .moves (hands_getElem? found) (hands_set rfl) ?_
    rw [hand]
    exact .single (.unreserve rfl)
  | @lost t inp th call g p found pc returned =>
    have hand : th.hand = { known := [p] } := by simp [hand, pc]
    refine .returns false found pc (hand ▸ hands_getElem? found) returned rfl ?_
    exact (map_set ..).trans (congrArg (List.set · t _) hands_giveUp)
  | @won t inp th call g p found pc lent =>
    have hand : th.hand = { known := [p] } := by simp [hand, pc]
    refine .returns true found pc (hand ▸ hands_getElem? found) lent rfl ?_
    have claims : (th.goto (.lock (call.sec p))).hand = { claims := [p] } := by
      cases call <;> rfl
    exact (map_set ..).trans (congrArg₂ (List.set · t ·) hands_giveUp claims)

end

end Soil.Pool
