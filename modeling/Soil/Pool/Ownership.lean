import Soil.Pool.Places

/-!
# Exclusive ownership

While the pool is open, a connection is held by at most one borrower, and it is neither idle
nor closed as long as it is held.  This needs that a repeated call on an object does not
find it lent to somebody else: the object is the same, and its `returned` flag is down again.
-/

namespace Soil.Pool

open List Conns Hand

def State.Holds (s : State) (g n : Nat) : Prop :=
  ∃ th p, s.threads[g]? = some th ∧ th.pc = .free (.done (.ok p)) ∧ th.borrowed = true ∧
    th.conn = some n

structure Exclusive (s : State) : Prop where
  single (g g' n : Nat) : s.Holds g n → s.Holds g' n → g = g'
  notIdle (g n : Nat) : s.Holds g n → ∀ p ∈ s.idleConns, (s.pcs p).conn ≠ some n
  notClosed (g n : Nat) : s.Holds g n → s.closes[n]? = some 0

/-! ## Owners -/

def Hand.owns (h : Hand) : List Nat := h.claims ++ h.lent.map Prod.fst

structure Owned (c : Conns) (hs : List Hand) : Prop where
  placed : Placed c hs
  sound : c.Sound
  owners (p : Nat) : (hs.map (·.owns.count p)).sum ≤ c.activeConns.count p
  fresh : ∀ h ∈ hs, ∀ p ∈ h.fresh, p ∈ h.ptrs ∧ (c.pcs p).returned = false
  lent : ∀ h ∈ hs, ∀ x ∈ h.lent, (c.pcs x.1).returned = false ∧ (c.pcs x.1).conn = x.2

section

variable {cfg : Config} {c c' : Conns} {h h' : Hand} {hs hs' : List Hand} {p q : Nat}

theorem Owned.perm (perm : hs.Perm hs') (owned : Owned c hs) : Owned c hs' where
  placed := owned.placed.congr (perm.map _)
  sound := owned.sound
  owners p := by
    rw [← (perm.map fun h : Hand => h.owns.count p).sum_eq]
    exact owned.owners p
  fresh h there := owned.fresh h (perm.mem_iff.mpr there)
  lent h there := owned.lent h (perm.mem_iff.mpr there)

theorem Owned.active_of_owns (owned : Owned c hs) (there : h ∈ hs) (owns : p ∈ h.owns) :
    0 < c.activeConns.count p := by
  have one : 0 < h.owns.count p := count_pos_iff.mpr owns
  have part : h.owns.count p ≤ (hs.map (·.owns.count p)).sum :=
    le_sum_of_mem (mem_map_of_mem there)
  have := owned.owners p
  omega

theorem Owned.active_of_lent (owned : Owned c hs) (there : h ∈ hs) {x : Nat × Option Nat}
    (lent : x ∈ h.lent) : 0 < c.activeConns.count x.1 :=
  owned.active_of_owns there (mem_append_right _ (mem_map_of_mem lent))

theorem Placed.active_only (placed : Placed c hs) (active : 0 < c.activeConns.count p) :
    p ∉ c.idleConns ∧ p ∉ c.connPool ∧ p < c.pcCnt ∧ c.activeConns.count p = 1 ∧
      ∀ h ∈ hs, p ∉ h.ptrs := by
  have once := placed.once p
  unfold places unmade at once
  have made : p < c.pcCnt := by
    by_contra outside
    rw [if_neg outside] at once
    omega
  refine ⟨fun idle => ?_, fun pool => ?_, made, by omega, fun h there ptr => ?_⟩
  · have := count_pos_iff.mpr idle
    omega
  · have := count_pos_iff.mpr pool
    omega
  · have : 0 < h.ptrs.count p := count_pos_iff.mpr ptr
    have part : h.ptrs.count p ≤ (hs.map (·.ptrs.count p)).sum :=
      le_sum_of_mem (mem_map_of_mem there)
    omega

theorem Owned.lent_kept (owned : Owned c hs)
    (flags : ∀ p, (c.pcs p).returned = false → (c'.pcs p).returned = false)
    (conns : ∀ p, 0 < c.activeConns.count p → (c'.pcs p).conn = (c.pcs p).conn)
    (there : h ∈ hs) (x : Nat × Option Nat) (lent : x ∈ h.lent) :
    (c'.pcs x.1).returned = false ∧ (c'.pcs x.1).conn = x.2 := by
  obtain ⟨flag, conn⟩ := owned.lent h there x lent
  exact ⟨flags _ flag, (conns _ (owned.active_of_lent there lent)).trans conn⟩

variable {closed : Bool}

theorem Move.flags {strict : Bool} {x y : Conns × Hand} (move : Move cfg closed strict x y)
    (p : Nat) (down : (x.1.pcs p).returned = false) : (y.1.pcs p).returned = false := by
  cases move with
  | close | drop => rwa [closeConnLocked_returned]
  | touch => rwa [touch_returned]
  | lend =>
    rw [setReturned_returned]
    split
    · rfl
    · exact down
  | @wrap c h n now pick =>
    rw [(wrapConn_pcs c now pick).2]
    by_cases same : p = (c.wrapConn now pick).2
    · simp [same]
    · rwa [Function.update_of_ne same]
  | _ => exact down

theorem Move.conns (move : Move cfg closed true (c, h) (c', h')) (placed : Placed c (h :: hs))
    (active : 0 < c.activeConns.count p) : (c'.pcs p).conn = (c.pcs p).conn := by
  obtain ⟨-, pool, made, -, ptrs⟩ := placed.active_only active
  have ptr := ptrs h (mem_cons_self ..)
  cases move with
  | @close _ _ q ps first =>
    rw [closeConnLocked_conn, if_neg]
    rintro rfl
    exact ptr (first ▸ mem_cons_self ..)
  | drop lax => cases lax
  | touch => rw [touch_conn]
  | lend => rw [setReturned_conn]
  | @wrap _ _ n now pick =>
    rw [(wrapConn_pcs c now pick).2, Function.update_of_ne]
    rcases wrapConn_cases c now pick with ⟨q, -, there, same, -⟩ | ⟨same, -⟩
    · rw [same]
      rintro rfl
      exact pool there
    · rw [same]
      omega
  | _ => rfl

theorem Move.owners (move : Move cfg false true (c, h) (c', h')) (placed : Placed c (h :: hs)) :
    h'.owns.count q + c.activeConns.count q ≤ h.owns.count q + c'.activeConns.count q := by
  cases move with
  | @activate _ _ p ps first =>
    have inactive : p ∉ c.activeConns := fun active =>
      (placed.active_only (count_pos_iff.mpr active)).2.2.2.2 h (mem_cons_self ..)
        (first ▸ mem_cons_self ..)
    simp only [owns, Conns.activate, insert_of_not_mem inactive, map_cons, count_append, count_cons]
    omega
  | @deactivate _ _ p ks claim active =>
    have one := (placed.active_only (count_pos_iff.mpr (active rfl))).2.2.2.1
    simp only [owns, claim, Conns.deactivate, count_append, count_cons]
    by_cases same : p = q
    · subst same
      rw [one, if_pos (beq_self_eq_true p)]
      omega
    · rw [count_filter (by simpa using Ne.symm same)]
      omega
  | drop lax => cases lax
  | wrap now =>
    rw [(wrapConn_lists c now _).2.1]
    exact Nat.le_refl _
  | release ended => cases ended
  | _ => exact Nat.le_refl _

theorem Move.fresh (move : Move cfg closed true (c, h) (c', h'))
    (fresh : ∀ p ∈ h.fresh, p ∈ h.ptrs ∧ (c.pcs p).returned = false) :
    ∀ p ∈ h'.fresh, p ∈ h'.ptrs ∧ (c'.pcs p).returned = false := by
  have down := move.flags
  cases move with
  | scan | release =>
    intro p there
    exact ⟨mem_append_right _ (fresh p there).1, (fresh p there).2⟩
  | push first settled | close first settled => simp [settled]
  | @lend _ _ p inHand =>
    simp only [forall_mem_cons]
    refine ⟨⟨inHand, ?_⟩, fun q there => ⟨(fresh q there).1, down q (fresh q there).2⟩⟩
    rw [setReturned_returned, if_pos rfl]
  | deactivate =>
    intro p there
    exact ⟨mem_cons_of_mem _ (fresh p there).1, (fresh p there).2⟩
  | @wrap _ _ n now pick =>
    simp only [forall_mem_cons]
    refine ⟨⟨mem_cons_self .., ?_⟩, fun q there =>
      ⟨mem_cons_of_mem _ (fresh q there).1, down q (fresh q there).2⟩⟩
    rw [(wrapConn_pcs c now pick).2]
    simp
  | drop lax => cases lax
  | touch => exact fun p there => ⟨(fresh p there).1, down p (fresh p there).2⟩
  | forget | activate => nofun
  | reserve | unreserve | refuse => exact fresh

theorem Move.owned (move : Move cfg false true (c, h) (c', h')) (owned : Owned c (h :: hs)) :
    Owned c' (h' :: hs) := by
  have kept {h₁ : Hand} (there : h₁ ∈ h :: hs) :=
    owned.lent_kept move.flags (fun p => move.conns owned.placed) there
  obtain ⟨placed, sound, owners, fresh, -⟩ := owned
  obtain ⟨ownFresh, otherFresh⟩ := forall_mem_cons.mp fresh
  refine ⟨move.placed placed, move.sound sound, fun p => ?_, forall_mem_cons.mpr ⟨?_, ?_⟩,
    forall_mem_cons.mpr ⟨?_, ?_⟩⟩
  · have before := owners p
    have change := move.owners (q := p) placed
    simp only [map_cons, sum_cons] at *
    omega
  · exact move.fresh ownFresh
  · exact fun h₁ there p new => ⟨(otherFresh h₁ there p new).1,
      move.flags p (otherFresh h₁ there p new).2⟩
  · have own := kept (mem_cons_self ..)
    cases move with
    | @activate _ _ p ps first new =>
      refine forall_mem_cons.mpr ⟨⟨?_, rfl⟩, own⟩
      exact (ownFresh p (new ▸ mem_cons_self ..)).2
    | _ => exact own
  · exact fun h₁ there => kept (mem_cons_of_mem _ there)

end

/-! ## Calls and their borrowers -/

def State.Linked (s : State) : Prop :=
  ∀ (t : Nat) (th : Thread) (call : Return) (g p : Nat), s.threads[t]? = some th →
    th.pc = .returns call g p → ∃ b, s.threads[g]? = some b ∧ b.pc = .free (.done (.ok p))

section

variable {cfg : Config} {s s' : State} {l : Label} {t g p : Nat} {th : Thread} {call : Return}

theorem begin_linked {op : Op} (begins : s.begin op = some th) (pc : th.pc = .returns call g p) :
    ∃ b, s.threads[g]? = some b ∧ b.pc = .free (.done (.ok p)) := by
  cases op with
  | get | put | release =>
    cases begins
    cases pc
  | putConn g' | markUnhealthy g' =>
    simp only [State.begin] at begins
    split at begins
    · rename_i q done
      cases begins
      cases pc
      exact Option.map_eq_some_iff.mp done
    · cases begins

theorem State.Goes.not_returns {old new : Thread} (goes : s.Goes cfg s' t old new)
    (pc : new.pc = .returns call g p) : old.pc = .returns call g p := by
  rcases goes.arrives (by simp [pc]) (by rw [pc]; rfl) (by simp [pc]) with same | ⟨-, asleep⟩
  · exact same.symm.trans pc
  · rw [pc] at asleep
    cases asleep

theorem linked_step (step : s.Step cfg l s') (linked : s.Linked) : s'.Linked := by
  intro t th call g p found pc
  cases step_turn step with
  | @call op first begins new =>
    subst new
    have earlier (link : ∃ b, s.threads[g]? = some b ∧ b.pc = .free (.done (.ok p))) :
        ∃ b, (s.threads ++ [first])[g]? = some b ∧ b.pc = .free (.done (.ok p)) := by
      obtain ⟨b, there, done⟩ := link
      refine ⟨b, ?_, done⟩
      rw [List.getElem?_append_left (List.getElem?_eq_some_iff.mp there).1, there]
    rw [List.getElem?_append] at found
    split at found
    · exact earlier (linked t th call g p found pc)
    · obtain rfl := mem_singleton.mp (mem_of_getElem? found)
      exact earlier (begin_linked begins pc)
  | @turn u old new target before after others length goes =>
    -- the call was there before, and its borrower is done for good
    have link : ∃ b, s.threads[g]? = some b ∧ b.pc = .free (.done (.ok p)) := by
      by_cases here : t = u
      · subst here
        rw [after] at found
        cases found
        exact linked t old call g p before (goes.not_returns pc)
      · obtain ⟨th₀, found₀, kept⟩ := others t th here found
        rcases kept with same | ⟨-, woken⟩
        · exact linked t th₀ call g p found₀ (same.symm.trans pc)
        · rw [woken] at pc
          cases pc
    obtain ⟨b, there, done⟩ := link
    by_cases here : g = u
    · subst here
      rw [before] at there
      cases there
      exact ⟨new, after, goes.done done⟩
    · obtain ⟨b', there', kept⟩ := others.forward length here there
      rcases kept with same | ⟨asleep, -⟩
      · exact ⟨b', there', same.trans done⟩
      · rw [done] at asleep
        cases asleep

end

/-! ## `CompareAndSwap` -/

section

variable {c : Conns} {h : Hand} {hs : List Hand} {t g p : Nat}

theorem owns_giveUp (h : Hand) (q : Nat) : h.giveUp.owns.count q ≤ h.owns.count q := by
  simp only [owns, giveUp, map_nil, append_nil, count_append]
  omega

theorem sum_owns_giveUp (q : Nat) :
    ((hs.modify g giveUp).map (·.owns.count q)).sum ≤ (hs.map (·.owns.count q)).sum := by
  cases found : hs[g]? with
  | none =>
    rw [modify_eq_self (List.getElem?_eq_none_iff.mp found)]
  | some h =>
    have sum := sum_map_set (·.owns.count q) found h.giveUp
    have := owns_giveUp h q
    rw [modify_eq_set found]
    omega

theorem returned_hand (g : Nat) (found : hs[t]? = some { known := [p] }) :
    (hs.modify g giveUp)[t]? = some { known := [p] } := by
  rw [List.getElem?_modify, found]
  by_cases here : g = t <;> simp [giveUp]

theorem Owned.lose (owned : Owned c hs) (found : hs[t]? = some { known := [p] }) :
    Owned c ((hs.modify g giveUp).set t {}) := by
  refine ⟨owned.placed.congr (by rw [work_giveUp found]), owned.sound, fun q => ?_,
    fun h there q fresh => ?_, fun h there x lent => ?_⟩
  · have sum := sum_map_set (·.owns.count q) (returned_hand g found) {}
    have le : ((hs.modify g giveUp).map (·.owns.count q)).sum ≤ _ := sum_owns_giveUp q
    have before := owned.owners q
    simp only [owns, map_nil, append_nil, count_nil] at *
    omega
  · rcases mem_returned there with rfl | ⟨i, h₀, at_, ⟨rfl, -⟩ | rfl⟩
    · cases fresh
    · exact owned.fresh h (mem_of_getElem? at_) q fresh
    · exact owned.fresh h₀ (mem_of_getElem? at_) q fresh
  · rcases mem_returned there with rfl | ⟨i, h₀, at_, ⟨rfl, -⟩ | rfl⟩
    · cases lent
    · exact owned.lent h (mem_of_getElem? at_) x lent
    · cases lent

theorem Owned.win {conn : Option Nat} (owned : Owned c hs) (found : hs[t]? = some { known := [p] })
    (borrower : hs[g]? = some { lent := [(p, conn)], known := [p] }) :
    Owned (c.setReturned p true) ((hs.modify g giveUp).set t { claims := [p] }) := by
  have active : 0 < c.activeConns.count p :=
    owned.active_of_lent (x := (p, conn)) (mem_of_getElem? borrower) (mem_cons_self ..)
  obtain ⟨-, -, -, one, notPtr⟩ := owned.placed.active_only active
  have down {q : Nat} (other : q ≠ p) (flag : (c.pcs q).returned = false) :
      ((c.setReturned p true).pcs q).returned = false := by
    rw [setReturned_returned, if_neg other, flag]
  have placed : Placed c ((hs.modify g giveUp).set t { claims := [p] }) :=
    owned.placed.congr (by rw [work_giveUp found])
  refine ⟨⟨placed.once, fun q there => ?_⟩, owned.sound.congr rfl rfl fun q => ?_, fun q => ?_,
    fun h there q fresh => ?_, fun h there x lent => ?_⟩
  · rw [setReturned_conn]
    exact placed.empty q there
  · rw [setReturned_conn]
  · have first := sum_map_set (·.owns.count q) (returned_hand g found) { claims := [p] }
    have second := sum_map_set (·.owns.count q) borrower
      (giveUp { lent := [(p, conn)], known := [p] })
    have before := owned.owners q
    rw [← modify_eq_set borrower] at second
    simp only [owns, giveUp, map_nil, append_nil, nil_append, map_cons, count_nil] at *
    change _ ≤ c.activeConns.count q
    omega
  · have old : ∃ h₀ ∈ hs, q ∈ h₀.fresh ∧ h.ptrs = h₀.ptrs := by
      rcases mem_returned there with rfl | ⟨i, h₀, at_, ⟨rfl, -⟩ | rfl⟩
      · cases fresh
      · exact ⟨h, mem_of_getElem? at_, fresh, rfl⟩
      · exact ⟨h₀, mem_of_getElem? at_, fresh, rfl⟩
    obtain ⟨h₀, there₀, fresh, ptrs⟩ := old
    obtain ⟨inHand, flag⟩ := owned.fresh h₀ there₀ q fresh
    refine ⟨ptrs ▸ inHand, down ?_ flag⟩
    rintro rfl
    exact notPtr h₀ there₀ inHand
  · rcases mem_returned there with rfl | ⟨i, h₀, at_, ⟨rfl, other⟩ | rfl⟩
    · cases lent
    · obtain ⟨flag, same⟩ := owned.lent h (mem_of_getElem? at_) x lent
      refine ⟨down ?_ flag, (setReturned_conn ..).trans same⟩
      -- otherwise the object would have two owners
      rintro rfl
      have two := add_le_sum_map (·.owns.count x.1) at_ borrower other
      have before := owned.owners x.1
      have own : 0 < h.owns.count x.1 :=
        count_pos_iff.mpr (mem_append_right _ (mem_map_of_mem lent))
      simp only [owns, map_cons, map_nil, nil_append, count_singleton_self] at *
      omega
    · cases lent

end

/-! ## Runs -/

def current (s : State) : Label → Bool
  | .run t _ =>
    match (s.threads[t]?).map Thread.pc with
    | some (.returns _ g p) => (s.pcs p).returned || (s.threads[g]?).any Thread.borrowed
    | _ => true
  | _ => true

def Current (s : State) (l : Label) : Prop := current s l = true

instance (s : State) (l : Label) : Decidable (Current s l) :=
  inferInstanceAs (Decidable (current s l = true))

structure Lending (s : State) : Prop where
  guarded : s.Guarded
  linked : s.Linked
  owned : s.closed = false → Owned s.toConns s.hands

section

variable {cfg : Config} {s s' : State} {l : Label}

theorem fair_of_owned (owned : Owned s.toConns s.hands) (guarded : s.Guarded)
    (opened : s.closed = false) : s.Fair true l := by
  cases l with
  | run t =>
    intro th found
    refine ⟨fun sec pc => ?_, fun _ _ => owned.placed.empties _⟩
    have active {p : Nat} (claims : sec.hand.claims = [p]) : p ∈ s.activeConns := by
      have hand : th.hand = sec.hand := by simp [Thread.hand, pc]
      refine count_pos_iff.mp (owned.active_of_owns
        (mem_of_getElem? (hands_getElem? found)) (mem_append_left _ ?_))
      rw [hand, claims]
      exact mem_cons_self ..
    cases sec with
    | putConn => exact fun _ => ⟨opened, active rfl⟩
    | markUnhealthy => exact fun _ => active rfl
    | put => exact fun _ => owned.placed.empties _
    | releaseAll => exact (guarded t th found).closing (by rw [pc]; rfl)
    | _ => trivial
  | _ => trivial

theorem owned_step (step : s.Step cfg l s') (current : Current s l) (lending : Lending s)
    (opened : s.closed = false) : Owned s'.toConns s'.hands := by
  obtain ⟨guarded, linked, owned⟩ := lending
  have owned := owned opened
  cases step_effect step (fair_of_owned owned guarded opened) with
  | call conns hands =>
    rw [conns, hands]
    refine .perm (perm_append_singleton _ _).symm ?_
    obtain ⟨placed, sound, owners, fresh, lent⟩ := owned
    refine ⟨⟨fun p => ?_, placed.empty⟩, sound, fun p => ?_, ?_, ?_⟩
    · simpa using placed.once p
    · simpa [owns] using owners p
    · simpa using fresh
    · simpa using lent
  | moves found hands moves =>
    rw [hands]
    rw [opened] at moves
    exact keeps_moves (I := Owned) (fun _ _ _ => Owned.perm) (fun _ _ _ => Move.owned) found moves
      owned
  | @releaseAll t inp n th found pc =>
    have ended := (guarded t th found).closing (by rw [pc]; rfl)
    rw [opened] at ended
    cases ended
  | @returns t inp call g p th won found pc hand flag conns hands =>
    rw [conns, hands]
    cases won with
    | false => exact owned.lose hand
    | true =>
      obtain ⟨b, there, done⟩ := linked t th call g p found pc
      have borrowed : b.borrowed = true := by
        simpa [Current, Pool.current, found, pc, flag, there] using current
      have borrower : b.hand = { lent := [(p, b.conn)], known := [p] } := by
        simp [Thread.hand, done, Outside.hand, borrowed]
      exact owned.win hand (borrower ▸ hands_getElem? there)

theorem lending_init (start : (pool cfg).init s) : Lending s := by
  obtain ⟨n, new⟩ := pool_init start
  refine ⟨guarded_init start, fun t th call g p found pc => ?_, fun _ =>
    ⟨placed_init start, sound_init start, ?_, ?_, ?_⟩⟩
  · rw [new.threads] at found
    obtain rfl := mem_singleton.mp (mem_of_getElem? found)
    cases pc
  · simp [hands_init start, owns]
  · simp [hands_init start]
  · simp [hands_init start]

theorem lending_step (lending : Lending s) (current : Current s l)
    (step : (pool cfg).step s l = some s') : Lending s' where
  guarded := guarded_step (step_cases step) lending.guarded
  linked := linked_step (step_cases step) lending.linked
  owned opened := by
    refine owned_step (step_cases step) current lending ?_
    by_contra ended
    rw [closed_mono (step_cases step) (by simpa using ended)] at opened
    cases opened

theorem State.Holds.lent {g n : Nat} (holds : s.Holds g n) :
    ∃ h p, s.hands[g]? = some h ∧ (p, some n) ∈ h.lent := by
  obtain ⟨th, p, found, pc, borrowed, conn⟩ := holds
  refine ⟨th.hand, p, hands_getElem? found, ?_⟩
  simp [Thread.hand, pc, Outside.hand, borrowed, conn]

/-- Ownership is exclusive as long as only current borrowers win their objects. -/
theorem pool_exclusive (reachable : (pool cfg).Reachable Current s) (opened : s.closed = false) :
    Exclusive s := by
  have lending : Lending s := reachable.induct (fun _ => lending_init) fun _ _ _ => lending_step
  have owned := lending.owned opened
  constructor
  · intro g g' n holds holds'
    obtain ⟨h, p, found, lent⟩ := holds.lent
    obtain ⟨h', p', found', lent'⟩ := holds'.lent
    have there := mem_of_getElem? found
    have there' := mem_of_getElem? found'
    have same := owned.sound.single p p' n (owned.lent h there _ lent).2
      (owned.lent h' there' _ lent').2
    subst same
    by_contra distinct
    -- an active object has one owner
    have two := add_le_sum_map (·.owns.count p) found found' distinct
    have one : s.activeConns.count p = 1 :=
      (owned.placed.active_only (owned.active_of_lent there lent)).2.2.2.1
    have owners := owned.owners p
    have first : 0 < h.owns.count p :=
      count_pos_iff.mpr (mem_append_right _ (mem_map_of_mem lent))
    have second : 0 < h'.owns.count p :=
      count_pos_iff.mpr (mem_append_right _ (mem_map_of_mem lent'))
    omega
  · intro g n holds p idle conn
    obtain ⟨h, q, found, lent⟩ := holds.lent
    have there := mem_of_getElem? found
    have same := owned.sound.single p q n conn (owned.lent h there _ lent).2
    subst same
    exact (owned.placed.active_only (owned.active_of_lent there lent)).1 idle
  · intro g n holds
    obtain ⟨h, p, found, lent⟩ := holds.lent
    exact owned.sound.opened p n (owned.lent h (mem_of_getElem? found) _ lent).2

end

/-! ## Two borrowers -/

def borrower : Thread :=
  { pc := .free (.done (.ok 0)), borrowed := true, conn := some 0 }

theorem holds_of_borrower {s : State} {g : Nat} (found : s.threads[g]? = some borrower) :
    s.Holds g 0 := ⟨borrower, 0, found, rfl, rfl, rfl⟩

def lentAgainRun : List Label :=
  getRun ++ .call (.putConn 1) :: steps 2 6 ++ .call (.putConn 1) :: steps 3 1 ++
    .call .get :: steps 4 4

theorem pool_exclusive_again : ∃ s, (pool (smallConfig false)).Reachable Current s ∧
    s.closed = false ∧ s.Holds 4 0 ∧ Exclusive s := by
  obtain ⟨s, reachable, opened, found⟩ : ∃ s, (pool (smallConfig false)).Reachable Current s ∧
      s.closed = false ∧ s.threads[4]? = some borrower :=
    System.exists_reachable lentAgainRun (smallPool_init false) (by decide)
  exact ⟨s, reachable, opened, holds_of_borrower found, pool_exclusive reachable opened⟩

def sharedRun : List Label :=
  getRun ++ .call (.putConn 1) :: steps 2 6 ++ .call .get :: steps 3 4 ++
    .call (.putConn 1) :: steps 4 6 ++ .call .get :: steps 5 4

/-- Two borrowers hold one connection. -/
theorem connection_shared : ∃ s, (pool (smallConfig false)).Reachable System.Any s ∧
    s.closed = false ∧ s.Holds 3 0 ∧ s.Holds 5 0 := by
  obtain ⟨s, reachable, opened, second, third⟩ : ∃ s,
      (pool (smallConfig false)).Reachable System.Any s ∧ s.closed = false ∧
        s.threads[3]? = some borrower ∧ s.threads[5]? = some borrower :=
    System.exists_reachable sharedRun (smallPool_init false) (by decide)
  exact ⟨s, reachable, opened, holds_of_borrower second, holds_of_borrower third⟩

/-! ## Borrowed connections -/

/-- `Read`, `Write` and the `SetDeadline` methods call the method of `pc.conn`. -/
def PoolConn.call (pc : PoolConn) : Except String Nat :=
  pc.conn.elim (.error "nil pointer dereference") .ok

structure Alive (s : State) : Prop where
  acts : ∀ (g : Nat) (th : Thread) (p : Nat), s.threads[g]? = some th →
    th.pc = .free (.done (.ok p)) → th.borrowed = true →
      ∃ n, th.conn = some n ∧ (s.pcs p).call = .ok n
  pings : ∀ th ∈ s.threads, ∀ p, th.pc = .free (.putPing p) → ∃ n, (s.pcs p).call = .ok n

def Conns.Filled (c : Conns) : Prop := ∀ p < c.pcCnt, p ∉ c.connPool → (c.pcs p).conn ≠ none

section

variable {cfg : Config} {s s' : State} {l : Label}

theorem Move.filled {closed strict : Bool} {x y : Conns × Hand}
    (move : Move cfg closed strict x y) (filled : x.1.Filled) : y.1.Filled := by
  cases move with
  | @close | @drop =>
    intro q made outside
    simp only [closeConnLocked_connPool, mem_cons, not_or] at outside
    rw [closeConnLocked_conn, if_neg outside.1]
    exact filled q made outside.2
  | touch =>
    intro q made outside
    rw [touch_conn]
    exact filled q made outside
  | lend =>
    intro q made outside
    rw [setReturned_conn]
    exact filled q made outside
  | @wrap c h n now pick =>
    intro q made outside
    rw [(wrapConn_pcs c now pick).2]
    by_cases same : q = (c.wrapConn now pick).2
    · simp [same]
    rw [Function.update_of_ne same]
    rcases wrapConn_cases c now pick with ⟨p, -, -, taken, pool, count⟩ | ⟨new, pool, count⟩
    · rw [pool, mem_erase_of_ne (taken ▸ same)] at outside
      exact filled q (count ▸ made) outside
    · have made : q < c.pcCnt + 1 := count ▸ made
      exact filled q (by omega : q < c.pcCnt) (pool ▸ outside)
  | _ => exact filled

theorem filled_step (step : s.Step cfg l s') (lending : Lending s) (opened : s.closed = false)
    (filled : s.Filled) : s'.Filled := by
  cases step_effect step (fair_of_owned (lending.owned opened) lending.guarded opened) with
  | call conns => rwa [conns]
  | moves found hands moves =>
    exact moves.keeps (I := fun x => x.1.Filled) (fun _ _ => Move.filled) filled
  | @releaseAll t inp n th found pc =>
    have ended := (lending.guarded t th found).closing (by rw [pc]; rfl)
    rw [opened] at ended
    cases ended
  | @returns t inp call g p th won found pc hand flag conns =>
    rw [conns]
    cases won with
    | false => exact filled
    | true =>
      intro q made outside
      rw [if_pos rfl, setReturned_conn]
      exact filled q made outside

theorem Placed.made {c : Conns} {h : Hand} {hs : List Hand} {p : Nat} (placed : Placed c hs)
    (there : h ∈ hs) (ptr : p ∈ h.ptrs) : p < c.pcCnt ∧ p ∉ c.connPool := by
  have once := placed.once p
  have one : 0 < h.ptrs.count p := count_pos_iff.mpr ptr
  have part : h.ptrs.count p ≤ (hs.map (·.ptrs.count p)).sum := le_sum_of_mem (mem_map_of_mem there)
  unfold places unmade at once
  constructor
  · by_contra outside
    rw [if_neg outside] at once
    omega
  · intro pool
    have := count_pos_iff.mpr pool
    omega

end

end Soil.Pool
