import Soil.Pool.Sleep

/-!
# No lost wake-ups

When no goroutine and no callback has anything left to do, a `Get` that sleeps in `cond.Wait`
has a live context, the pool is open, nothing is idle and there is no room for another
connection.  Three things may not happen: the callback of a context broadcasts between its
registration and the sleep, a factory that failed broadcasts while a `Get` that saw no room
is about to sleep, and a `Get` that was signalled gives up without its callback.
-/

namespace Soil.Pool

open List Thread State

/-! ## What is claimed -/

def PC.rests : PC → Bool
  | .free (.done _) | .free .select | .asleep => true
  | _ => false

def Thread.rests (th : Thread) : Bool :=
  th.pc.rests && th.callback ≠ .started && !th.due

structure Waits (cfg : Config) (s : State) (th : Thread) : Prop where
  alive : th.ctxDone = false
  opened : s.closed = false
  noIdle : s.idleConns = []
  full : cfg.maxConnCap ≤ s.connCnt
section

variable {cfg : Config} {s s' : State} {l : Label}

/-! ## A closed pool wakes up everyone -/

def PC.announcing : PC → Bool
  | .unlock .closeCh | .free .closeCh | .free .releaseBroadcast => true
  | _ => false

def State.Announced (s : State) : Prop :=
  s.closed = true → (∃ th ∈ s.threads, th.pc = .asleep) →
    ∃ th ∈ s.threads, th.pc.announcing = true

variable {t : Nat} {new old : Thread}

theorem State.Goes.announcing (goes : s.Goes cfg s' t old new) (on : old.pc.announcing = true) :
    new.pc.announcing = true ∨ ∀ th ∈ s'.threads, th.pc ≠ .asleep := by
  cases goes with
  | stays kept =>
    rcases kept with same | ⟨asleep, -⟩
    · exact .inl (same ▸ on)
    · rw [asleep] at on
      cases on
  | @unlocks out pc next =>
    rw [pc] at on
    cases out with
    | closeCh => exact .inl (next ▸ rfl)
    | _ => cases on
  | goes pc goes =>
    rw [pc] at on
    generalize new.pc = next at goes
    cases goes with
    | closeCh => exact .inl rfl
    | _ => cases on
  | wakes pc wakes next awake => exact .inr awake
  | notifies pc => rcases pc with pc | pc <;> rw [pc] at on <;> cases on
  | locks pc | execs pc | waits pc | makes pc | returns pc =>
    rw [pc] at on
    cases on

theorem State.Goes.asleep (goes : s.Goes cfg s' t old new)
    (asleep : new.pc = .asleep) : old.pc = .asleep ∨ old.pc = .wait := by
  rcases goes.arrives (by simp [asleep]) (by rw [asleep]; rfl) (by simp [asleep]) with same | ⟨pc,
    -⟩
  · exact .inl (same.symm.trans asleep)
  · exact .inr pc

theorem announced_step (step : s.Step cfg l s') (guarded : s.Guarded) (announced : s.Announced) :
    s'.Announced := by
  rintro ended ⟨sleeper, there, asleep⟩
  cases step_turn step with
  | call begins new =>
    subst new
    rcases mem_append.mp there with there | last
    · obtain ⟨th, inside, on⟩ := announced ended ⟨sleeper, there, asleep⟩
      exact ⟨th, mem_append_left _ inside, on⟩
    · rw [mem_singleton.mp last] at asleep
      exact absurd asleep (begin_awake begins).2
  | @turn t old new target before after others length goes =>
    have here := mem_of_getElem? after
    cases was : s.closed with
    | false => exact ⟨new, here, by rw [goes.shuts was ended]; rfl⟩
    | true =>
      -- nobody falls asleep in a closed pool
      have slept : ∃ th ∈ s.threads, th.pc = .asleep := by
        obtain ⟨u, found⟩ := mem_iff_getElem?.mp there
        by_cases mover : u = t
        · subst mover
          rw [after] at found
          cases found
          rcases goes.asleep asleep with slept | pc
          · exact ⟨old, mem_of_getElem? before, slept⟩
          · have opened := (guarded u old before).opened (by rw [pc]; rfl)
            rw [was] at opened
            cases opened
        · obtain ⟨th, found, same | ⟨slept, -⟩⟩ := others u sleeper mover found
          · exact ⟨th, mem_of_getElem? found, same ▸ asleep⟩
          · exact ⟨th, mem_of_getElem? found, slept⟩
      rcases others.exists_pc (P := (·.announcing = true)) length before nofun (announced was slept)
        with on | others
      · rcases goes.announcing on with on | awake
        · exact ⟨new, here, on⟩
        · exact absurd asleep (awake sleeper there)
      · exact others

/-! ## Nobody is forgotten -/

variable {th : Thread}

theorem seats_getElem? (found : s.threads[t]? = some th) : s.seats[t]? = some th.seat :=
    by simp [seats, found]

variable {n : Nat}

theorem served_of_awake (awake : ∀ th ∈ s.threads, th.pc ≠ .asleep) : Served n s.seats := by
  refine .of_awake fun seat there => ?_
  obtain ⟨th, inside, rfl⟩ := mem_map.mp there
  simpa [seat] using awake th inside

theorem served_set (served : Served n s.seats)
    (found : s.threads[t]? = some th) (awake : new.pc = .asleep → th.pc = .asleep)
    (keeps : th.broadcasts = true → new.broadcasts = true)
    (looks : new.broadcasts = true ∨ th.looks ≤ new.looks) :
    Served n ((s.threads.set t new).map seat) := by
  rw [map_set]
  refine served.set (seats_getElem? found) (by simpa [seat] using awake) keeps ?_
  rcases looks with broadcasts | looks
  · exact .inr (.inl broadcasts)
  · exact .inr (.inr (Nat.add_le_add_left looks n))

theorem served_goto {pc : PC} (served : Served n s.seats) (found : s.threads[t]? = some th)
    (awake : pc ≠ .asleep) (keeps : th.pc.broadcasts th.due = true → pc.broadcasts th.due = true)
    (looks : th.pc.looks th.ctxDone ≤ pc.looks th.ctxDone) :
    Served n ((s.threads.set t (th.goto pc)).map seat) :=
  served_set served found (fun asleep => absurd asleep awake) (broadcasts_goto keeps) (.inr looks)

theorem PC.broadcasts_mono {pc : PC} {due due' : Bool} (more : due = true → due' = true)
    (pending : pc.broadcasts due = true) : pc.broadcasts due' = true := by
  cases due with
  | true => exact more rfl ▸ pending
  | false =>
    unfold PC.broadcasts at pending ⊢
    split at pending
    all_goals first | rfl | exact pending | cases pending

theorem Thread.Fine.cancel (fine : th.Fine) :
    (th.broadcasts = true → Thread.broadcasts { th with ctxDone := true } = true) ∧
      (Thread.broadcasts { th with ctxDone := true } = true ∨
        th.looks ≤ Thread.looks { th with ctxDone := true }) := by
  constructor
  · intro pending
    simp only [Thread.broadcasts, Bool.or_eq_true] at pending ⊢
    refine pending.imp_right (PC.broadcasts_mono fun due => ?_)
    simp only [Thread.due, Bool.and_eq_true] at due
    simpa [Thread.due] using due.2
  · cases done : th.ctxDone with
    | true => exact .inr (by simp [Thread.looks, done])
    | false =>
      by_cases woken : th.pc = .lock .awake ∨ th.pc = .held .awake
      · left
        -- its callback has not been taken back, or its context would have been done
        have kept : th.callback ≠ .none := fun none => by
          rw [fine.woken woken none] at done
          cases done
        cases callback : th.callback with
        | none => exact absurd callback kept
        | started => exact broadcasts_of_started rfl
        | registered =>
          rcases woken with pc | pc <;> simp [Thread.broadcasts, Thread.due, PC.broadcasts, pc]
      · right
        have same : th.pc.looks false = th.pc.looks true := by
          unfold PC.looks
          split <;> simp_all
        rw [Thread.looks, done, same]
        exact Nat.le_refl _

variable {sec : Section}

theorem served_exec {inp : Input}
    (attentive : Attentive cfg s (.run t inp)) (fine : th.Fine) (found : s.threads[t]? = some th)
    (pc : th.pc = .held sec) (running : sec.closing = false) (opened : s.closed = false)
    (served : Served (s.supply cfg) s.seats) :
    Served ((s.afterSection cfg t th inp sec).supply cfg) (s.afterSection cfg t th inp
      sec).seats := by
  have awake : (s.exec cfg s.closed th inp sec).2.pc ≠ .asleep := fun asleep => by
    have locks : (s.exec cfg s.closed th inp sec).2.pc.locks = true := exec_locks
    rw [asleep] at locks
    cases locks
  by_cases stays : ∀ err, sec = .stop (some err) → th.callback ≠ .registered
  · simp only [seats, afterSection_threads, afterSection_toConns, setThread_threads, map_set]
    refine served.set (seats_getElem? found) ?_ ?_ ?_
    · simp [seat, awake]
    · exact fun pending => exec_broadcasts fine pc pending stays
    · rw [opened]
      exact exec_supply pc running
  · -- a `Get` gives up and takes its callback back
    push Not at stays
    obtain ⟨err, rfl, registered⟩ := stays
    have quiet : (∀ th ∈ s.threads, th.pc ≠ .asleep) ∨ s.supply cfg = 0 := by
      simpa [Attentive, Pool.attentive, found, pc, opened, registered] using attentive
    rcases quiet with nobody | none
    · refine served_of_awake fun th' there => ?_
      rcases mem_or_eq_of_mem_set there with there | rfl
      · exact nobody th' there
      · exact awake
    · have same : (s.afterSection cfg t th inp (.stop (some err))).supply cfg = s.supply cfg := rfl
      rw [same, none]
      exact .of_zero

theorem served_signal {u : Nat} {sleeper : Thread} (fine : sleeper.Fine)
    (found : s.threads[t]? = some th) (pc : th.pc = .signal) (sleeps : s.threads[u]? = some sleeper)
    (asleep : sleeper.pc = .asleep) (served : Served n s.seats) :
    Served n (((s.threads.modify u wake).set t (th.goto (.unlock (.done .void)))).map seat) := by
  have distinct : u ≠ t := by
    rintro rfl
    rw [sleeps] at found
    cases found
    rw [asleep] at pc
    cases pc
  have woken : sleeper.wake = sleeper.goto (.lock .awake) := if_pos asleep
  rw [modify_eq_set sleeps, map_set, map_set, woken]
  refine served.signal (seats_getElem? found) (seats_getElem? sleeps) distinct ?_ ?_ ?_ ?_ ?_ ?_
  · simp [seat]
  · exact broadcasts_goto (by rw [asleep]; exact id)
  · cases done : sleeper.ctxDone with
    | false =>
      right
      simp [seat, looks, PC.looks, asleep, done]
    | true =>
      left
      have kept := fine.sleeps (.inr asleep)
      cases callback : sleeper.callback with
      | none => exact absurd callback kept
      | started => exact broadcasts_of_started callback
      | registered => exact broadcasts_of_pc (by simp [PC.broadcasts, due, done, callback])
  · simp [seat]
  · exact broadcasts_goto (by simp [pc, PC.broadcasts])
  · simp [seat, looks, PC.looks, pc]

theorem served_wait (falling : s.Falling cfg)
    (found : s.threads[t]? = some th) (pc : th.pc = .wait) :
    Served (s.supply cfg) ((s.threads.set t (th.goto .asleep)).map seat) := by
  obtain ⟨none, room | ⟨other, there, failed⟩⟩ :=
    falling th (mem_of_getElem? found) (by rw [pc]; rfl)
  · have zero : s.supply cfg = 0 := by
      simp only [Conns.supply, none, length_nil]
      omega
    rw [zero]
    exact .of_zero
  · obtain ⟨u, at_⟩ := mem_iff_getElem?.mp there
    have distinct : u ≠ t := by
      rintro rfl
      rw [at_] at found
      cases found
      rw [failed] at pc
      cases pc
    have inside : other ∈ s.threads.set t (th.goto .asleep) := by
      apply mem_of_getElem?
      rw [getElem?_set_of_some found, if_neg distinct, at_]
    refine .of_broadcast (mem_map_of_mem inside) ?_
    simp [seat, broadcasts, failed, PC.broadcasts, Outside.broadcasts]

theorem PC.broadcasts_held {due : Bool}
    (pending : (PC.lock sec).broadcasts due = true) : (PC.held sec).broadcasts due = true := by
  cases sec with
  | awake => exact pending
  | cleanupClose => rfl
  | _ => cases pending

theorem PC.looks_held (done : Bool) (sec : Section) :
    (PC.lock sec).looks done ≤ (PC.held sec).looks done := by
  cases sec with
  | get | awake => exact Nat.le_refl _
  | _ => exact Nat.zero_le _

theorem seats_giveUp {g : Nat} : ((s.threads.modify g giveUp).set t th).map seat =
      (s.threads.set t th).map seat := by
  have same : (s.threads.modify g giveUp).map seat = s.threads.map seat :=
    map_modify_of_eq fun _ => rfl
  rw [map_set, map_set, same]

theorem served_step (step : s.Step cfg l s') (attentive : Attentive cfg s l)
    (guarded : s.Guarded) (fine : s.Fine) (falling : s.Falling cfg) (opened : s'.closed = false)
    (served : s.closed = false → Served (s.supply cfg) s.seats) :
    Served (s'.supply cfg) s'.seats := by
  have before : s.closed = false := by
    by_contra ended
    rw [closed_mono step (by simpa using ended)] at opened
    cases opened
  have served := served before
  have here {t : Nat} {th : Thread} (found : s.threads[t]? = some th) : th.Fine :=
    fine th (mem_of_getElem? found)
  cases step with
  | call begins =>
    rw [seats, map_append]
    exact served.append (by simpa [seat] using (begin_awake begins).2)
  | cancel found =>
    obtain ⟨keeps, looks⟩ := (here found).cancel
    exact served_set served found id keeps looks
  | fire found =>
    exact served_set served found id (fun _ => broadcasts_of_started rfl)
      (.inl (broadcasts_of_started rfl))
  | callback =>
    refine served_of_awake fun th there => ?_
    obtain ⟨th₀, -, rfl⟩ := mem_map.mp there
    exact th₀.wake_awake
  | @lock t inp th sec found pc =>
    refine served_goto served found (by simp) ?_ ?_ <;> rw [pc]
    · exact PC.broadcasts_held
    · exact PC.looks_held _ sec
  | @exec t inp th sec found pc =>
    have running : sec.closing = false := by
      by_contra closing
      have ended := (guarded t th found).closing (by simpa [pc, PC.closing] using closing)
      rw [before] at ended
      cases ended
    exact served_exec attentive (here found) found pc running before served
  | wait found pc => exact served_wait falling found pc
  | signal found pc sleeps asleep => exact served_signal (here sleeps) found pc sleeps asleep served
  | signalNobody found pc nobody =>
    refine served_of_awake fun th there => ?_
    rcases mem_or_eq_of_mem_set there with there | rfl
    · exact nobody th there
    · simp
  | broadcast | wakes => exact served_of_awake (awake_wakeAll (by simp))
  | unlock found pc =>
    exact served_goto served found (by simp) (by rw [pc]; exact id)
      (by rw [pc]; exact Nat.zero_le _)
  | goto found pc goes =>
    refine served_goto served found (by cases goes <;> simp) ?_ (by rw [pc]; exact Nat.zero_le _)
    rw [pc]
    cases goes with
    | closeNext => exact id
    | _ => simp [PC.broadcasts, Outside.broadcasts]
  | @factory t inp th found pc =>
    have same : (s.wrapConn inp.now inp.pick).1.supply cfg = s.supply cfg := supply_wrapConn ..
    rw [same]
    exact served_goto served found (by simp)
      (by simp [pc, PC.broadcasts, Outside.broadcasts]) (by rw [pc]; exact Nat.zero_le _)
  | @factoryErr t inp th found =>
    have broadcasts : (th.goto (.free .factoryFailed)).broadcasts = true := broadcasts_of_pc rfl
    have inside := mem_set (List.getElem?_eq_some_iff.mp found).1 (th.goto (.free .factoryFailed))
    exact .of_broadcast (mem_map_of_mem inside) broadcasts
  | @lost t inp th call g p found pc | @won t inp th call g p found pc =>
    rw [seats, setThread_threads, seats_giveUp]
    exact served_goto served found (by simp) (by simp [pc, PC.broadcasts])
      (by rw [pc]; exact Nat.zero_le _)

end

/-! ## Runs -/

structure Watched (cfg : Config) (s : State) : Prop where
  guarded : s.Guarded
  fine : s.Fine
  falling : s.Falling cfg
  announced : s.Announced
  served : s.closed = false → Served (s.supply cfg) s.seats

section

variable {cfg : Config} {s s' : State} {l : Label}

theorem watched_step (watched : Watched cfg s) (attentive : Attentive cfg s l)
    (step : (pool cfg).step s l = some s') : Watched cfg s' := by
  have step := step_cases step
  obtain ⟨guarded, fine, falling, announced, served⟩ := watched
  exact ⟨guarded_step step guarded, fine_step step attentive fine,
    falling_step step attentive guarded falling, announced_step step guarded announced,
    fun opened => served_step step attentive guarded fine falling opened served⟩

theorem watched_init (start : (pool cfg).init s) : Watched cfg s := by
  obtain ⟨n, new⟩ := pool_init start
  have only (th : Thread) (there : th ∈ s.threads) : th = { pc := .free .select } := by
    simpa [new.threads] using there
  refine ⟨guarded_init start, ?_, ?_, ?_, ?_⟩
  · intro th there
    rw [only th there]
    exact ⟨by simp, by simp, by simp⟩
  · intro th there falls
    rw [only th there] at falls
    cases falls
  · intro closed
    rw [new.closed] at closed
    cases closed
  · refine fun _ => served_of_awake fun th there => ?_
    rw [only th there]
    simp

theorem Thread.rests_seat {th : Thread} (rests : th.rests = true) :
    th.broadcasts = false ∧ th.looks = 0 ∧ th.due = false ∧ th.pc.announcing = false := by
  simp only [Thread.rests, Bool.and_eq_true, decide_eq_true_eq, Bool.not_eq_true'] at rests
  obtain ⟨⟨pc, callback⟩, due⟩ := rests
  rw [Thread.broadcasts, Thread.looks, due]
  unfold PC.rests at pc
  split at pc <;> simp_all [PC.broadcasts, PC.looks, Outside.broadcasts, PC.announcing]

/-- No wake-up is lost in attentive runs. -/
theorem pool_watched (reachable : (pool cfg).Reachable (Attentive cfg) s)
    (quiet : ∀ th ∈ s.threads, th.rests = true) {th : Thread} (there : th ∈ s.threads)
    (asleep : th.pc = .asleep) : Waits cfg s th := by
  have watched : Watched cfg s := reachable.induct (fun _ => watched_init) fun _ _ _ => watched_step
  have sleeper : ∃ th ∈ s.threads, th.pc = .asleep := ⟨th, there, asleep⟩
  have opened : s.closed = false := by
    by_contra closed
    obtain ⟨other, inside, announcing⟩ := watched.announced (by simpa using closed) sleeper
    rw [(Thread.rests_seat (quiet other inside)).2.2.2] at announcing
    cases announcing
  have alive : th.ctxDone = false := by
    obtain ⟨silent, -, due, -⟩ := Thread.rests_seat (quiet th there)
    have kept := (watched.fine th there).sleeps (.inr asleep)
    cases callback : th.callback with
    | none => exact absurd callback kept
    | started =>
      rw [broadcasts_of_started callback] at silent
      cases silent
    | registered => simpa [Thread.due, callback] using due
  have empty : s.supply cfg = 0 := by
    refine (watched.served opened).quiet ⟨th.seat, mem_map_of_mem there, ?_⟩ ?_ ?_
    · simp [Thread.seat, asleep]
    all_goals
      intro seat sits
      obtain ⟨other, inside, rfl⟩ := mem_map.mp sits
      obtain ⟨silent, none, -, -⟩ := Thread.rests_seat (quiet other inside)
      first | exact silent | exact none
  simp only [Conns.supply, Nat.add_eq_zero_iff, length_eq_zero_iff] at empty
  exact ⟨alive, opened, empty.1, by omega⟩

end

/-! ## Lost wake-ups -/

def Sleeps (P : State → Thread → Bool) (s : State) : Prop :=
  (∀ th ∈ s.threads, th.rests = true) ∧ ∃ th ∈ s.threads, th.pc = .asleep ∧ P s th = true

instance (P : State → Thread → Bool) (s : State) : Decidable (Sleeps P s) :=
  inferInstanceAs (Decidable (_ ∧ _))

def waitingRun : List Label := getRun ++ .call .get :: steps 2 5

theorem pool_watched_waiting : ∃ s th, (pool (smallConfig false)).Reachable
    (Attentive (smallConfig false)) s ∧ th ∈ s.threads ∧ th.pc = .asleep ∧
    Waits (smallConfig false) s th := by
  obtain ⟨s, reachable, quiet, th, there, asleep, -⟩ : ∃ s, (pool (smallConfig false)).Reachable
      (Attentive (smallConfig false)) s ∧ Sleeps (fun _ _ => true) s :=
    System.exists_reachable waitingRun (smallPool_init false) (by decide)
  exact ⟨s, th, reachable, there, asleep, pool_watched reachable quiet there asleep⟩

def cancelledRun : List Label :=
  getRun ++ .call .get :: steps 2 4 ++ [.cancel 2, .fire 2, .callback 2] ++ steps 2 1

def failedRun : List Label :=
  .call .get :: steps 1 4 ++ .call .get :: steps 2 4 ++ [.run 1 { ok := false }] ++
    steps 1 1 ++ steps 2 1

def abandonedRun : List Label :=
  getRun ++ .call .get :: steps 2 5 ++ .call .get :: steps 3 5 ++
    .call (.putConn 1) :: steps 4 4 ++ [.run 4 { wake := 2 }] ++ steps 4 1 ++
    .cancel 2 :: steps 2 4

/-- A `Get` sleeps for ever with its context done, with room for a connection, or with an
idle connection. -/
theorem wakeup_lost :
    (∃ s, (pool (smallConfig false)).Reachable System.Any s ∧ Sleeps (fun _ th => th.ctxDone) s) ∧
    (∃ s, (pool (smallConfig false)).Reachable System.Any s ∧
      Sleeps (fun s th => !th.ctxDone && s.connCnt < (smallConfig false).maxConnCap) s) ∧
    (∃ s, (pool (smallConfig false)).Reachable System.Any s ∧
      Sleeps (fun s th => !th.ctxDone && s.idleConns ≠ []) s) := by
  refine ⟨?_, ?_, ?_⟩
  · exact System.exists_reachable cancelledRun (smallPool_init false) (by decide)
  · exact System.exists_reachable failedRun (smallPool_init false) (by decide)
  · exact System.exists_reachable abandonedRun (smallPool_init false) (by decide)

end Soil.Pool
