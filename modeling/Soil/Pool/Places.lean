import Soil.Pool.Moves

/-!
# Where objects and connections are
-/

namespace Soil.Pool

open List Conns Hand

/-! ## From moves to steps -/

def Hand.work (h : Hand) : Nat × List Nat := (h.making, h.ptrs)

section

variable {cfg : Config} {closed strict : Bool} {s s' : State} {t : Nat} {h h' : Hand}
variable {I : Conns → List Hand → Prop} {hs : List Hand}

theorem keeps_moves (perm : ∀ c hs hs', hs.Perm hs' → I c hs → I c hs')
    (move : ∀ x y others, Move cfg closed strict x y → I x.1 (x.2 :: others) →
      I y.1 (y.2 :: others)) {c c' : Conns} (found : hs[t]? = some h)
    (moves : Moves cfg closed strict (c, h) (c', h')) (holds : I c hs) : I c' (hs.set t h') := by
  obtain ⟨inside, rfl⟩ := List.getElem?_eq_some_iff.mp found
  have before := perm _ _ _ (getElem_cons_eraseIdx_perm inside).symm holds
  have after := moves.keeps (I := fun x => I x.1 (x.2 :: hs.eraseIdx t))
    (fun x y => move x y _) before
  exact perm _ _ _ (set_perm_cons_eraseIdx inside h').symm after

theorem keeps_releaseAll (perm : ∀ c hs hs', hs.Perm hs' → I c hs → I c hs')
    (move : ∀ x y others, Move cfg closed strict x y → I x.1 (x.2 :: others) →
      I y.1 (y.2 :: others))
    {c' : Conns} {th : Thread} (found : s.threads[t]? = some th) (pc : th.pc = .held .releaseAll)
    (moves : Moves cfg closed strict (s.toConns, {}) (c', {})) (holds : I s.toConns s.hands) :
    I c' s.hands := by
  have empty : s.hands[t]? = some {} := by
    rw [hands_getElem? found]
    simp [Thread.hand, pc, Section.hand]
  have same : s.hands.set t {} = s.hands := by
    obtain ⟨inside, value⟩ := List.getElem?_eq_some_iff.mp empty
    rw [← value, set_getElem_self]
  exact same ▸ keeps_moves perm move empty moves holds

theorem work_giveUp {g : Nat} {claims known : List Nat} (found : hs[t]? = some { known := known }) :
    ((hs.modify g giveUp).set t { claims := claims }).map work = hs.map work := by
  have same : (hs.modify g giveUp).map work = hs.map work :=
    map_modify_of_eq fun _ => rfl
  have here : (hs.map work)[t]? = some (0, []) := by simp [found, work]
  obtain ⟨inside, value⟩ := List.getElem?_eq_some_iff.mp here
  rw [map_set, same]
  change (hs.map work).set t (0, []) = _
  rw [← value, set_getElem_self]

theorem mem_returned {g : Nat} {claims : List Nat}
    (there : h' ∈ (hs.modify g giveUp).set t { claims := claims }) :
    h' = { claims := claims } ∨
      ∃ (i : Nat) (h : Hand), hs[i]? = some h ∧ (h' = h ∧ i ≠ g ∨ h' = h.giveUp) := by
  obtain ⟨i, found⟩ := mem_iff_getElem?.mp there
  rcases getElem?_set_cases found with ⟨-, rfl⟩ | ⟨-, found⟩
  · exact .inl rfl
  rw [List.getElem?_modify] at found
  obtain ⟨h, at_, rfl⟩ := Option.map_eq_some_iff.mp found
  refine .inr ⟨i, h, at_, ?_⟩
  by_cases here : g = i
  · exact .inr (if_pos here)
  · exact .inl ⟨if_neg here, Ne.symm here⟩

theorem State.Effect.keeps_work {l : Label} (effect : s.Effect cfg strict s' l)
    (congr : ∀ c hs hs', (hs.map work).Perm (hs'.map work) → I c hs → I c hs')
    (move : ∀ x y others, Move cfg s.closed strict x y → I x.1 (x.2 :: others) →
      I y.1 (y.2 :: others)) (call : ∀ c hs, I c hs → ∀ h : Hand, h.work = (0, []) → I c (h :: hs))
    (flag : ∀ c hs p, I c hs → I (c.setReturned p true) hs)
    (reset : ∀ (t : Nat) (inp : Input) (th : Thread) (n : Int), l = .run t inp →
      s.threads[t]? = some th → th.pc = .held .releaseAll →
      I { s'.toConns with connCnt := n } s.hands → s'.connCnt = 0 → s'.idleConns = [] →
      s'.activeConns = [] → I s'.toConns s.hands)
    (holds : I s.toConns s.hands) : I s'.toConns s'.hands := by
  have perm (c : Conns) (hs hs' : List Hand) (perm : hs.Perm hs') : I c hs → I c hs' :=
    congr c hs hs' (perm.map _)
  cases effect with
  | call conns hands =>
    rw [conns, hands]
    exact perm _ _ _ (perm_append_singleton _ _).symm (call _ _ holds _ rfl)
  | moves found hands moves =>
    rw [hands]
    exact keeps_moves perm move found moves holds
  | @releaseAll t inp n th found pc hands zero idle active moves =>
    have emptied := keeps_releaseAll perm move found pc moves holds
    rw [hands]
    exact reset t inp th n rfl found pc emptied zero idle active
  | @returns t inp call g p th won found pc hand same conns hands =>
    have work := congr s.toConns s.hands s'.hands (by rw [hands, work_giveUp hand]) holds
    rw [conns]
    cases won with
    | true => exact flag _ _ p work
    | false => exact work

end

/-! ## One place for each object -/

def unmade (pcCnt p : Nat) : Nat := if p < pcCnt then 0 else 1

def Conns.places (c : Conns) (p : Nat) : Nat :=
  c.idleConns.count p + c.activeConns.count p + c.connPool.count p + unmade c.pcCnt p

structure Placed (c : Conns) (hs : List Hand) : Prop where
  once (p : Nat) : c.places p + (hs.map (·.ptrs.count p)).sum ≤ 1
  empty : ∀ p ∈ c.connPool, (c.pcs p).conn = none

section

variable {cfg : Config} {closed strict : Bool} {c c' : Conns} {h h' : Hand} {hs hs' : List Hand}
  {pick : Option Nat}

theorem mem_wrapConn_connPool {now : Int} {q : Nat}
    (there : q ∈ (c.wrapConn now pick).1.connPool) : q ∈ c.connPool := by
  rcases wrapConn_cases c now pick with ⟨p, -, -, -, pool, -⟩ | ⟨-, pool, -⟩
  · exact mem_of_mem_erase (pool ▸ there)
  · exact pool ▸ there

theorem wrapConn_made (now : Int) (empties : c.Empties pick) :
    c.pcCnt ≤ (c.wrapConn now pick).1.pcCnt ∧
      (c.wrapConn now pick).2 < (c.wrapConn now pick).1.pcCnt := by
  rcases wrapConn_cases c now pick with ⟨p, picked, there, same, -, count⟩ | ⟨same, -, count⟩
  · have made := (empties p picked there).1
    omega
  · omega

theorem Move.places_le (move : Move cfg closed true (c, h) (c', h')) (q : Nat) :
    c'.places q + h'.ptrs.count q ≤ c.places q + h.ptrs.count q := by
  cases move with
  | scan ps idle split =>
    have := split.count_eq q
    simp only [Conns.places, count_append] at *
    omega
  | push first =>
    simp only [first, Conns.places, Conns.push, count_append, count_cons, count_nil]
    omega
  | close first =>
    simp only [first, Conns.places, Conns.closeConnLocked, Conns.setPc, count_cons]
    omega
  | touch | lend | forget | reserve | unreserve | refuse => exact Nat.le_refl _
  | @activate _ _ p ps first =>
    simp only [first, Conns.places, Conns.activate, count_cons]
    by_cases there : p ∈ c.activeConns
    · rw [insert_of_mem there]
      omega
    · rw [insert_of_not_mem there, count_cons]
      omega
  | @deactivate _ _ p ks claim active =>
    have there : 0 < c.activeConns.count p := count_pos_iff.mpr (active rfl)
    simp only [Conns.places, Conns.deactivate, count_cons]
    by_cases same : q = p
    · subst same
      have gone : (c.activeConns.filter (· ≠ q)).count q = 0 :=
        count_eq_zero.mpr (by simp)
      simp only [gone, beq_self_eq_true, if_true]
      omega
    · rw [count_filter (by simpa using same)]
      simp only [beq_iff_eq, Ne.symm same, if_false]
      omega
  | drop lax => cases lax
  | @wrap _ _ n now pick =>
    obtain ⟨idle, active, -⟩ := wrapConn_lists c now pick
    simp only [Conns.places, count_cons, idle, active]
    rcases wrapConn_cases c now pick with ⟨p, rfl, there, same, pool, count⟩ | ⟨same, pool, count⟩
    · have taken := (perm_cons_erase there).count_eq q
      rw [count_cons] at taken
      rw [same, pool, count]
      omega
    · have made : unmade (c.pcCnt + 1) q + (if c.pcCnt == q then 1 else 0) = unmade c.pcCnt q := by
        rcases Nat.lt_trichotomy q c.pcCnt with lt | rfl | gt
        · simp [unmade, lt, Nat.lt_succ_of_lt lt, Nat.ne_of_gt lt]
        · simp [unmade]
        · simp [unmade, Nat.not_lt.mpr gt, Nat.not_lt.mpr (Nat.le_of_lt gt), Nat.ne_of_lt gt]
      rw [same, pool, count]
      omega
  | release =>
    simp only [Conns.places, count_append, count_nil]
    omega

theorem Placed.congr (same : (hs.map work).Perm (hs'.map work))
    (placed : Placed c hs) : Placed c hs' := by
  refine ⟨fun p => ?_, placed.empty⟩
  have sums := (same.map fun work => work.2.count p).sum_eq
  simp only [map_map] at sums
  exact sums ▸ placed.once p

theorem Placed.empties (placed : Placed c hs) (pick : Option Nat) : c.Empties pick := by
  intro p _ there
  refine ⟨?_, placed.empty p there⟩
  have once := placed.once p
  have : 0 < c.connPool.count p := count_pos_iff.mpr there
  unfold places unmade at once
  by_contra outside
  rw [if_neg outside] at once
  omega

theorem Move.placed {x y : Conns × Hand} (move : Move cfg closed true x y)
    (placed : Placed x.1 (x.2 :: hs)) : Placed y.1 (y.2 :: hs) := by
  have once (p : Nat) : y.1.places p + ((y.2 :: hs).map (·.ptrs.count p)).sum ≤ 1 := by
    have kept := move.places_le p
    have before := placed.once p
    simp only [map_cons, sum_cons] at *
    omega
  refine ⟨once, ?_⟩
  have empty := placed.empty
  cases move with
  | @close =>
    intro q there
    rw [closeConnLocked_conn]
    split
    · rfl
    · rcases mem_cons.mp there with rfl | there
      · contradiction
      · exact empty q there
  | @drop c h p ks lax => cases lax
  | @touch =>
    intro q there
    rw [touch_conn]
    exact empty q there
  | @lend =>
    intro q there
    rw [setReturned_conn]
    exact empty q there
  | @wrap c h n now pick =>
    -- the object that was taken is in no other place
    have other (q : Nat) (there : q ∈ (c.wrapConn now pick).1.connPool) :
        q ≠ (c.wrapConn now pick).2 := by
      rintro rfl
      have before := once (c.wrapConn now pick).2
      have : 0 < (c.wrapConn now pick).1.connPool.count (c.wrapConn now pick).2 :=
        count_pos_iff.mpr there
      simp only [places, map_cons, count_cons_self, sum_cons] at before
      omega
    intro q there
    rw [(wrapConn_pcs c now pick).2, Function.update_of_ne (other q there)]
    exact empty q (mem_wrapConn_connPool there)
  | _ => exact empty

/-! ## One object for each connection -/

structure Conns.Sound (c : Conns) : Prop where
  unmade (p : Nat) : c.pcCnt ≤ p → (c.pcs p).conn = none
  opened (p n : Nat) : (c.pcs p).conn = some n → c.closes[n]? = some 0
  single (p q n : Nat) : (c.pcs p).conn = some n → (c.pcs q).conn = some n → p = q
  closed (n k : Nat) : c.closes[n]? = some k → k = 1 ∨ ∃ p, (c.pcs p).conn = some n

theorem Conns.Sound.congr (sound : c.Sound) (count : c'.pcCnt = c.pcCnt)
    (closes : c'.closes = c.closes) (conn : ∀ p, (c'.pcs p).conn = (c.pcs p).conn) : c'.Sound where
  unmade p := by
    rw [conn, count]
    exact sound.unmade p
  opened p n := by
    rw [conn, closes]
    exact sound.opened p n
  single p q n := by
    rw [conn, conn]
    exact sound.single p q n
  closed n k := by
    simp only [conn, closes]
    exact sound.closed n k

theorem Conns.Sound.close (sound : c.Sound) (p : Nat) : (c.closeConnLocked p).Sound := by
  cases here : (c.pcs p).conn with
  | none =>
    refine sound.congr rfl (by simp [here]) fun q => ?_
    rw [closeConnLocked_conn]
    split
    · simp [*]
    · rfl
  | some m =>
    have closes (n : Nat) : (c.closeConnLocked p).closes[n]? =
        if n = m then some 1 else c.closes[n]? := by
      simp only [closeConnLocked, here, List.getElem?_modify]
      by_cases same : m = n
      · subst same
        simp [sound.opened p m here]
      · simp [same, Ne.symm same]
    constructor
    · intro q outside
      rw [closeConnLocked_conn]
      split
      · rfl
      · exact sound.unmade q outside
    · intro q n
      rw [closeConnLocked_conn, closes]
      split
      · nofun
      · intro conn
        rw [if_neg, sound.opened q n conn]
        rintro rfl
        exact absurd (sound.single q p n conn here) ‹_›
    · intro q r n
      rw [closeConnLocked_conn, closeConnLocked_conn]
      split
      · nofun
      · split
        · nofun
        · exact sound.single q r n
    · intro n k
      rw [closes]
      split
      · intro one
        cases one
        exact .inl rfl
      intro count
      rcases sound.closed n k count with one | ⟨q, conn⟩
      · exact .inl one
      refine .inr ⟨q, ?_⟩
      rw [closeConnLocked_conn, if_neg, conn]
      rintro rfl
      rw [here] at conn
      cases conn
      contradiction

theorem Conns.Sound.wrap (sound : c.Sound) (now : Int)
    (empties : c.Empties pick) : (c.wrapConn now pick).1.Sound := by
  obtain ⟨closes, pcs⟩ := wrapConn_pcs c now pick
  obtain ⟨grows, made⟩ := wrapConn_made now empties
  generalize found : (c.wrapConn now pick).2 = p at pcs made
  have fresh : (c.pcs p).conn = none := by
    rcases wrapConn_cases c now pick with ⟨q, picked, there, same, -, -⟩ | ⟨same, -, -⟩
    · obtain rfl : q = p := same.symm.trans found
      exact (empties q picked there).2
    · rw [← found, same]
      exact sound.unmade c.pcCnt (Nat.le_refl _)
  have conn (q : Nat) : ((c.wrapConn now pick).1.pcs q).conn =
      if q = p then some c.closes.length else (c.pcs q).conn := by
    rw [pcs]
    by_cases same : q = p <;> simp [same]
  -- no object has the connection that is new
  have new (q : Nat) : (c.pcs q).conn ≠ some c.closes.length := by
    intro old
    simpa using sound.opened q _ old
  constructor
  · intro q outside
    rw [conn, if_neg (by omega)]
    exact sound.unmade q (by omega)
  · intro q n
    rw [conn, closes]
    split
    · rintro ⟨⟩
      simp
    · intro old
      have count := sound.opened q n old
      rw [List.getElem?_append_left (List.getElem?_eq_some_iff.mp count).1, count]
  · intro q r n
    rw [conn, conn]
    split <;> split
    · simp [*]
    · rintro ⟨⟩ old
      exact absurd old (new r)
    · rintro old ⟨⟩
      exact absurd old (new q)
    · exact sound.single q r n
  · intro n k
    rw [closes, List.getElem?_append]
    split
    · intro count
      rcases sound.closed n k count with one | ⟨q, old⟩
      · exact .inl one
      · refine .inr ⟨q, ?_⟩
        rw [conn, if_neg, old]
        rintro rfl
        rw [fresh] at old
        cases old
    · intro last
      refine .inr ⟨p, ?_⟩
      have : n = c.closes.length := by
        have := (List.getElem?_eq_some_iff.mp last).1
        simp at this
        omega
      rw [conn, if_pos rfl, this]

theorem Conns.Sound.refuse (sound : c.Sound) : { c with closes := c.closes ++ [1] }.Sound where
  unmade := sound.unmade
  opened p n conn := by
    have count := sound.opened p n conn
    exact (List.getElem?_append_left (List.getElem?_eq_some_iff.mp count).1).trans count
  single := sound.single
  closed n k count := by
    rw [List.getElem?_append] at count
    split at count
    · exact sound.closed n k count
    · exact .inl (mem_singleton.mp (mem_of_getElem? count))

theorem Move.sound {x y : Conns × Hand} (move : Move cfg closed strict x y)
    (sound : x.1.Sound) : y.1.Sound := by
  cases move with
  | close | drop => exact sound.close _
  | touch => exact sound.congr rfl rfl fun q => touch_conn ..
  | lend => exact sound.congr rfl rfl fun q => setReturned_conn ..
  | wrap now one empties => exact sound.wrap now empties
  | refuse => exact sound.refuse
  | _ => exact sound.congr rfl rfl fun _ => rfl

/-! ## Addresses -/

structure Ranged (c : Conns) (hs : List Hand) : Prop where
  idle : ∀ p ∈ c.idleConns, p < c.pcCnt
  active : ∀ p ∈ c.activeConns, p < c.pcCnt
  pool : ∀ p ∈ c.connPool, p < c.pcCnt
  hands : ∀ h ∈ hs, ∀ p ∈ h.ptrs ++ h.claims ++ h.known, p < c.pcCnt

theorem Ranged.perm (perm : hs.Perm hs') (ranged : Ranged c hs) : Ranged c hs' :=
  { ranged with hands := fun h there => ranged.hands h (perm.mem_iff.mpr there) }

theorem Ranged.cons (idle : ∀ p ∈ c.idleConns, p < c.pcCnt)
    (active : ∀ p ∈ c.activeConns, p < c.pcCnt) (pool : ∀ p ∈ c.connPool, p < c.pcCnt)
    (ptrs : ∀ p ∈ h.ptrs, p < c.pcCnt) (claims : ∀ p ∈ h.claims, p < c.pcCnt)
    (known : ∀ p ∈ h.known, p < c.pcCnt)
    (others : ∀ h ∈ hs, ∀ p ∈ h.ptrs ++ h.claims ++ h.known, p < c.pcCnt) : Ranged c (h :: hs) := by
  refine ⟨idle, active, pool, forall_mem_cons.mpr ⟨?_, others⟩⟩
  simp only [forall_mem_append]
  exact ⟨⟨ptrs, claims⟩, known⟩

theorem Move.ranged {x y : Conns × Hand} (move : Move cfg closed strict x y)
    (ranged : Ranged x.1 (x.2 :: hs)) : Ranged y.1 (y.2 :: hs) := by
  obtain ⟨idle, active, pool, hands⟩ := ranged
  obtain ⟨own, others⟩ := forall_mem_cons.mp hands
  simp only [forall_mem_append] at own
  obtain ⟨⟨ptrs, claims⟩, known⟩ := own
  cases move with
  | scan ps rest split =>
    have both := fun p there => idle p (split.mem_iff.mpr there)
    simp only [forall_mem_append] at both
    refine .cons both.2 active pool ?_ claims known others
    simp only [forall_mem_append]
    exact ⟨both.1, ptrs⟩
  | push first =>
    simp only [first, forall_mem_cons] at ptrs
    refine .cons ?_ active pool ptrs.2 claims known others
    simp only [Conns.push, forall_mem_append, forall_mem_singleton]
    exact ⟨idle, ptrs.1⟩
  | close first =>
    simp only [first, forall_mem_cons] at ptrs
    refine .cons idle active ?_ ptrs.2 claims known others
    simp only [Conns.closeConnLocked, forall_mem_cons]
    exact ⟨ptrs.1, pool⟩
  | @activate c h p ps first =>
    simp only [first, forall_mem_cons] at ptrs
    refine .cons idle ?_ pool ptrs.2 claims ?_ others
    · simp only [Conns.activate, mem_insert_iff]
      rintro q (rfl | there)
      · exact ptrs.1
      · exact active q there
    · simp only [forall_mem_cons]
      exact ⟨ptrs.1, known⟩
  | deactivate claim =>
    simp only [claim, forall_mem_cons] at claims
    refine .cons idle (fun q there => active q (mem_of_mem_filter there)) pool ?_ claims.2
      known others
    simp only [forall_mem_cons]
    exact ⟨claims.1, ptrs⟩
  | drop lax claim =>
    simp only [claim, forall_mem_cons] at claims
    refine .cons idle active ?_ ptrs claims.2 known others
    simp only [Conns.closeConnLocked, forall_mem_cons]
    exact ⟨claims.1, pool⟩
  | @wrap c h n now pick one empties =>
    obtain ⟨grows, made⟩ := wrapConn_made now empties
    obtain ⟨sameIdle, sameActive, -⟩ := wrapConn_lists c now pick
    have later {ps : List Nat} (below : ∀ p ∈ ps, p < c.pcCnt) :
        ∀ p ∈ ps, p < (c.wrapConn now pick).1.pcCnt :=
      fun p there => Nat.lt_of_lt_of_le (below p there) grows
    refine .cons ?_ ?_ (fun q there => later pool q (mem_wrapConn_connPool there)) ?_
      (later claims) (later known) fun h there => later (others h there)
    · rw [sameIdle]
      exact later idle
    · rw [sameActive]
      exact later active
    · simp only [forall_mem_cons]
      exact ⟨made, later ptrs⟩
  | release =>
    refine .cons idle nofun pool ?_ claims known others
    simp only [forall_mem_append]
    exact ⟨active, ptrs⟩
  | touch | lend | forget | reserve | unreserve | refuse =>
    exact .cons idle active pool ptrs claims known others

theorem ranged_effect {s s' : State} {l : Label} (effect : s.Effect cfg strict s' l)
    (ranged : Ranged s.toConns s.hands) : Ranged s'.toConns s'.hands := by
  have perm (c : Conns) (hs hs' : List Hand) (perm : hs.Perm hs') : Ranged c hs → Ranged c hs' :=
    Ranged.perm perm
  cases effect with
  | call conns hands source =>
    rw [conns, hands]
    refine perm _ _ _ (perm_append_singleton _ _).symm
      (.cons ranged.idle ranged.active ranged.pool nofun nofun (fun p there => ?_) ranged.hands)
    obtain ⟨h, caller, known⟩ := source p there
    exact ranged.hands h caller p (mem_append_right _ known)
  | moves found hands moves =>
    rw [hands]
    exact keeps_moves perm (fun _ _ _ => Move.ranged) found moves ranged
  | @releaseAll t inp n th found pc hands zero idle active moves =>
    rw [hands]
    obtain ⟨idle, active, pool, hands⟩ :=
      keeps_releaseAll perm (fun _ _ _ => Move.ranged) found pc moves ranged
    exact ⟨idle, active, pool, hands⟩
  | @returns t inp call g p th won found pc hand same conns hands =>
    have later : Ranged s.toConns s'.hands := by
      refine ⟨ranged.idle, ranged.active, ranged.pool, fun h there q ref => ?_⟩
      rw [hands] at there
      rcases mem_returned there with rfl | ⟨i, h₀, at_, ⟨rfl, -⟩ | rfl⟩
      · refine ranged.hands _ (mem_of_getElem? hand) q ?_
        cases won with
        | true => simpa using ref
        | false => simp at ref
      · exact ranged.hands h (mem_of_getElem? at_) q ref
      · exact ranged.hands h₀ (mem_of_getElem? at_) q ref
    rw [conns]
    cases won with
    | true => exact ⟨later.idle, later.active, later.pool, later.hands⟩
    | false => exact later

end

/-! ## New pools -/

section

variable {cfg : Config} {s : State}

theorem hands_init (start : (pool cfg).init s) : s.hands = [{}] := by
  obtain ⟨n, new⟩ := pool_init start
  rw [State.hands, new.threads]
  rfl

theorem placed_init (start : (pool cfg).init s) : Placed s.toConns s.hands := by
  obtain ⟨n, new⟩ := pool_init start
  refine ⟨fun p => ?_, by simp [new.connPool]⟩
  rw [hands_init start, places, new.idleConns, new.activeConns, new.connPool, new.pcCnt, unmade]
  by_cases lt : p < n <;> simp [lt]

theorem sound_init (start : (pool cfg).init s) : s.Sound := by
  obtain ⟨n, new⟩ := pool_init start
  constructor
  · intro p outside
    rw [new.conn, if_neg (by rw [new.pcCnt] at outside; omega)]
  · intro p m conn
    rw [new.conn] at conn
    split at conn
    · cases conn
      simp [new.closes, *]
    · cases conn
  · intro p q m first second
    rw [new.conn] at first second
    split at first
    · split at second
      · cases first
        cases second
        rfl
      · cases second
    · cases first
  · intro m k count
    rw [new.closes, List.getElem?_replicate] at count
    split at count
    · exact .inr ⟨m, by rw [new.conn, if_pos ‹_›]⟩
    · cases count

end

end Soil.Pool
