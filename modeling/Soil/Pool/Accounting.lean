import Soil.Pool.Places

/-!
# Accounting

`connCnt` counts the idle connections, the active ones and those that operations in
progress are making, pinging or closing; it stays within `maxConnCap`, and the idle list
within `maxIdleCnt`.
-/

namespace Soil.Pool

open List Hand System

def Hand.size (h : Hand) : Nat := h.making + h.ptrs.length

def State.inProgress (s : State) : Nat := (s.hands.map Hand.size).sum

structure Accounted (cfg : Config) (s : State) : Prop where
  total : s.connCnt = s.idleConns.length + s.activeConns.length + s.inProgress
  nonneg : 0 ≤ s.connCnt
  withinCap : s.connCnt ≤ cfg.maxConnCap
  withinIdle : s.idleConns.length ≤ cfg.maxIdleCnt

instance (cfg : Config) (s : State) : Decidable (Accounted cfg s) :=
  decidable_of_iff
    (s.connCnt = s.idleConns.length + s.activeConns.length + s.inProgress ∧ 0 ≤ s.connCnt ∧
      s.connCnt ≤ cfg.maxConnCap ∧ s.idleConns.length ≤ cfg.maxIdleCnt)
    ⟨fun ⟨total, nonneg, cap, idle⟩ => ⟨total, nonneg, cap, idle⟩,
      fun ⟨total, nonneg, cap, idle⟩ => ⟨total, nonneg, cap, idle⟩⟩

/-! ## The balance, move by move -/

structure Balanced (cfg : Config) (c : Conns) (hs : List Hand) : Prop where
  placed : Placed c hs
  total : c.connCnt = c.idleConns.length + c.activeConns.length + (hs.map Hand.size).sum
  idle : c.idleConns.length ≤ cfg.maxIdleCnt

section

variable {cfg : Config} {closed : Bool} {c c' : Conns} {h h' : Hand} {hs hs' : List Hand} {p : Nat}

theorem Balanced.congr (same : (hs.map work).Perm (hs'.map work))
    (balanced : Balanced cfg c hs) : Balanced cfg c hs' := by
  refine ⟨balanced.placed.congr same, ?_, balanced.idle⟩
  have sums := (same.map fun work => work.1 + work.2.length).sum_eq
  simp only [map_map] at sums
  rw [balanced.total]
  exact congrArg (fun n : Nat => (_ + _ + n : Int)) sums

theorem Placed.not_active {ps : List Nat} (placed : Placed c (h :: hs))
    (first : h.ptrs = p :: ps) : p ∉ c.activeConns := by
  intro active
  have once := placed.once p
  have : 0 < c.activeConns.count p := count_pos_iff.mpr active
  simp only [Conns.places, map_cons, sum_cons, first, count_cons_self] at once
  omega

theorem length_deactivate (placed : Placed c hs) (active : p ∈ c.activeConns) :
    (c.deactivate p).activeConns.length + 1 = c.activeConns.length := by
  have once : c.activeConns.count p = 1 := by
    have := placed.once p
    have : 0 < c.activeConns.count p := count_pos_iff.mpr active
    unfold Conns.places at *
    omega
  have split := length_eq_length_filter_add (l := c.activeConns) (· ≠ p)
  have equal : c.activeConns.filter (fun q => !decide (q ≠ p)) = c.activeConns.filter (· == p) := by
    apply filter_congr
    intro q _
    by_cases same : q = p <;> simp [same]
  rw [equal, ← count_eq_length_filter, once] at split
  exact split.symm

theorem Move.counts (move : Move cfg closed true (c, h) (c', h')) (placed : Placed c (h :: hs)) :
    c'.connCnt + c.idleConns.length + c.activeConns.length + h.size =
      c.connCnt + c'.idleConns.length + c'.activeConns.length + h'.size := by
  cases move with
  | scan ps rest split =>
    have length := split.length_eq
    simp only [size, length_append] at *
    omega
  | push first =>
    simp only [size, Conns.push, length_append, first, length_cons, length_nil]
    omega
  | close first =>
    simp only [size, Conns.closeConnLocked, Conns.setPc, first, length_cons]
    omega
  | touch | lend | forget | refuse => rfl
  | activate first =>
    simp only [size, Conns.activate, first, length_cons,
      length_insert_of_not_mem (placed.not_active first)]
    omega
  | deactivate claim active =>
    have length := length_deactivate placed (active rfl)
    simp only [size, length_cons, Conns.deactivate_connCnt, Conns.deactivate_idleConns]
    omega
  | drop lax => cases lax
  | reserve =>
    simp only [size]
    omega
  | unreserve one =>
    simp only [size, one]
    omega
  | @wrap _ _ n now pick one =>
    obtain ⟨idle, active, count⟩ := wrapConn_lists c now pick
    simp only [size, idle, active, count, one, length_cons]
    omega
  | release =>
    simp only [size, length_append, length_nil]
    omega

theorem Move.balanced (move : Move cfg closed true (c, h) (c', h'))
    (balanced : Balanced cfg c (h :: hs)) : Balanced cfg c' (h' :: hs) := by
  obtain ⟨placed, total, idle⟩ := balanced
  refine ⟨move.placed placed, ?_, ?_⟩
  · have counts := move.counts placed
    simp only [map_cons, sum_cons] at *
    omega
  cases move with
  | scan ps rest split =>
    have length := split.length_eq
    rw [length_append] at length
    show rest.length ≤ _
    omega
  | push =>
    simp only [Conns.push, length_append, length_cons, length_nil]
    omega
  | wrap now =>
    rw [(wrapConn_lists c now _).1]
    exact idle
  | _ => exact idle

/-! ## Steps -/

theorem exec_connCnt_le {th : Thread} {inp : Input} {sec : Section}
    (within : c.connCnt ≤ cfg.maxConnCap)
    (room : sec = .put → closed = true ∨ c.connCnt < cfg.maxConnCap ∨
      cfg.maxIdleCnt ≤ c.idleConns.length) :
    (c.exec cfg closed th inp sec).1.connCnt ≤ cfg.maxConnCap := by
  have close (c : Conns) (p : Nat) (same : c.connCnt ≤ cfg.maxConnCap) :
      (c.closeConnLocked p).connCnt ≤ cfg.maxConnCap := by
    rw [Conns.closeConnLocked_connCnt]
    omega
  cases sec with
  | getIdleConnLocked =>
    simp only [Conns.exec]
    split
    · split
      · show c.connCnt + 1 ≤ _
        omega
      · exact within
    · split
      · exact close _ _ within
      · split <;> exact within
  | put =>
    obtain ⟨idle, -, count⟩ := wrapConn_lists { c with connCnt := c.connCnt + 1 } inp.now inp.pick
    simp only [Conns.exec]
    split
    · exact within
    rename_i opened
    rw [idle]
    split
    · rename_i space
      have room : c.connCnt < cfg.maxConnCap := by
        rcases room rfl with ended | room | full
        · exact absurd ended opened
        · exact room
        · exact absurd full (Nat.not_le.mpr space)
      rw [Conns.push_connCnt, count]
      exact room
    · rw [Conns.closeConnLocked_connCnt, count]
      exact (Int.add_sub_cancel c.connCnt 1).symm ▸ within
  | releaseAll => exact Int.natCast_nonneg _
  | _ =>
    -- a section that closes an object or leaves the counter alone
    simp only [Conns.exec, Conns.take]
    repeat' (first | exact within | exact close _ _ within | split)

end

/-! ## Runs -/

/-- Steps that keep the books: a foreign connection finds room or is closed at once, an
object that is returned is lent and the pool is open, and at the end of `Release` nothing
is in progress. -/
def accountable (cfg : Config) (s : State) : Label → Bool
  | .run t _ =>
    match (s.threads[t]?).map Thread.pc with
    | some (.held .put) =>
      s.closed || s.connCnt < cfg.maxConnCap || cfg.maxIdleCnt ≤ s.idleConns.length
    | some (.held (.putConn p)) => !s.closed && p ∈ s.activeConns
    | some (.held (.markUnhealthy p)) => p ∈ s.activeConns
    | some (.held .releaseAll) => s.inProgress = 0
    | _ => true
  | _ => true

def Accountable (cfg : Config) (s : State) (l : Label) : Prop := accountable cfg s l = true

instance (cfg : Config) (s : State) (l : Label) : Decidable (Accountable cfg s l) :=
  inferInstanceAs (Decidable (accountable cfg s l = true))

section

variable {cfg : Config} {s s' : State} {l : Label}

theorem fair_of_accountable (guarded : s.Guarded) (placed : Placed s.toConns s.hands)
    (accountable : Accountable cfg s l) : s.Fair true l := by
  cases l with
  | run t =>
    intro th found
    refine ⟨fun sec pc => ?_, fun _ _ => placed.empties _⟩
    simp only [Accountable, Pool.accountable, found, Option.map_some, pc] at accountable
    cases sec with
    | putConn | markUnhealthy => exact fun _ => by simpa using accountable
    | put => exact fun _ => placed.empties _
    | releaseAll => exact (guarded t th found).closing (by rw [pc]; rfl)
    | _ => trivial
  | _ => trivial

theorem connCnt_le_step (step : s.Step cfg l s') (accountable : Accountable cfg s l)
    (within : s.connCnt ≤ cfg.maxConnCap) : s'.connCnt ≤ cfg.maxConnCap := by
  cases step with
  | @exec t inp th sec found pc =>
    refine exec_connCnt_le within ?_
    rintro rfl
    simpa [Accountable, Pool.accountable, found, pc, or_assoc] using accountable
  | @factory t inp =>
    exact ((wrapConn_lists s.toConns inp.now inp.pick).2.2 ▸ within :)
  | factoryErr =>
    show s.connCnt - 1 ≤ _
    omega
  | _ => exact within

theorem balanced_step (step : s.Step cfg l s') (guarded : s.Guarded)
    (accountable : Accountable cfg s l) (balanced : Balanced cfg s.toConns s.hands) :
    Balanced cfg s'.toConns s'.hands := by
  have effect := step_effect step (fair_of_accountable guarded balanced.placed accountable)
  refine effect.keeps_work (fun _ _ _ same => .congr same) (fun _ _ _ => Move.balanced) ?_ ?_ ?_
    balanced
  · rintro c hs ⟨placed, total, idle⟩ h empty
    obtain ⟨making, ptrs⟩ : h.making = 0 ∧ h.ptrs = [] := by simpa [work] using empty
    refine ⟨⟨fun p => ?_, placed.empty⟩, ?_, idle⟩
    · simpa [ptrs] using placed.once p
    · simpa [size, making, ptrs] using total
  · rintro c hs p ⟨placed, total, idle⟩
    refine ⟨⟨placed.once, fun q there => ?_⟩, total, idle⟩
    rw [Conns.setReturned_conn]
    exact placed.empty q there
  · rintro t inp th n rfl found pc ⟨placed, -, idle⟩ zero noIdle noActive
    -- nothing is left to count, so that the counter is reset to what it is
    have none : s.inProgress = 0 := by
      simpa [Accountable, Pool.accountable, found, pc] using accountable
    refine ⟨⟨placed.once, placed.empty⟩, ?_, idle⟩
    rw [State.inProgress] at none
    simp [zero, noIdle, noActive, none]

structure Books (cfg : Config) (s : State) : Prop where
  guarded : s.Guarded
  balanced : Balanced cfg s.toConns s.hands
  within : s.connCnt ≤ cfg.maxConnCap

theorem books_init (start : (pool cfg).init s) : Books cfg s := by
  obtain ⟨n, new⟩ := pool_init start
  refine ⟨guarded_init start, ⟨placed_init start, ?_, ?_⟩, ?_⟩
  · simp [new.connCnt, new.idleConns, new.activeConns, hands_init start, size]
  · simpa [new.idleConns] using new.fits
  · have := new.fits
    have := cfg.room
    rw [new.connCnt]
    omega

theorem books_step (books : Books cfg s) (accountable : Accountable cfg s l)
    (step : (pool cfg).step s l = some s') : Books cfg s' where
  guarded := guarded_step (step_cases step) books.guarded
  balanced := balanced_step (step_cases step) books.guarded accountable books.balanced
  within := connCnt_le_step (step_cases step) accountable books.within

/-- The books are right in every run of accountable steps. -/
theorem pool_accounted (reachable : (pool cfg).Reachable (Accountable cfg) s) :
    Accounted cfg s := by
  have books : Books cfg s :=
    reachable.induct (fun _ => books_init) fun _ _ _ => books_step
  have total := books.balanced.total
  refine ⟨total, ?_, books.within, books.balanced.idle⟩
  rw [total]
  omega

end

/-! ## Runs of a small pool -/

def lifeRun : List Label := getRun ++ .call (.putConn 1) :: steps 2 10 ++ releaseRun 3

theorem pool_accounted_life : ∃ s,
    (pool (smallConfig true)).Reachable (Accountable (smallConfig true)) s ∧
      s.released = true ∧ Accounted (smallConfig true) s := by
  obtain ⟨s, reachable, released⟩ : ∃ s, (pool (smallConfig true)).Reachable
      (Accountable (smallConfig true)) s ∧ s.released = true :=
    exists_reachable lifeRun (smallPool_init true) (by decide)
  exact ⟨s, reachable, released, pool_accounted reachable⟩

def foreignRun : List Label := getRun ++ .call .put :: steps 2 4

def lateReturnRun : List Label :=
  getRun ++ .call .release :: steps 2 3 ++ .call (.putConn 1) :: steps 3 4

def lateGetRun : List Label := .call .get :: steps 1 4 ++ releaseRun 2

def staleRun : List Label :=
  getRun ++ .call (.markUnhealthy 1) :: steps 2 5 ++
    .call .get :: steps 3 4 ++ .run 3 { pick := some 0 } :: .call (.putConn 1) :: steps 4 6

/-- With the mutex free, two connections are counted in a pool of one, an active connection
is not counted, one that is being made is not counted, and one is counted once that is idle
and in the hands of a `Get`. -/
theorem accounting_broken :
    (∃ s, (pool (smallConfig false)).Reachable System.Any s ∧ s.mutex = none ∧
      ¬ Accounted (smallConfig false) s ∧ s.connCnt = 2) ∧
    (∃ s, (pool (smallConfig false)).Reachable System.Any s ∧ s.mutex = none ∧
      ¬ Accounted (smallConfig false) s ∧ s.connCnt = 0 ∧ s.activeConns = [0]) ∧
    (∃ s, (pool (smallConfig false)).Reachable System.Any s ∧ s.mutex = none ∧
      ¬ Accounted (smallConfig false) s ∧ s.connCnt = 0 ∧ s.inProgress = 1) ∧
    (∃ s, (pool (smallConfig false)).Reachable System.Any s ∧ s.mutex = none ∧
      ¬ Accounted (smallConfig false) s ∧ s.connCnt = 1 ∧ s.idleConns = [0] ∧
        s.inProgress = 1) := by
  refine ⟨?_, ?_, ?_, ?_⟩
  · exact exists_reachable foreignRun (smallPool_init false) (by decide)
  · exact exists_reachable lateReturnRun (smallPool_init false) (by decide)
  · exact exists_reachable lateGetRun (smallPool_init false) (by decide)
  · exact exists_reachable staleRun (smallPool_init false) (by decide)

end Soil.Pool
