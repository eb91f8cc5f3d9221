import Soil.Pool.Step
import Soil.Waiting

/-!
# Sleepers and their callbacks

What the wake-ups of a pool rest on: which sections look at the pool and who broadcasts,
that the callback of a context is registered before its `Get` sleeps, and that who goes to
sleep saw no room.
-/

namespace Soil.Pool

open List Conns Thread Nat Bool State

/-! ## Looks and broadcasts -/

def Thread.due (th : Thread) : Bool := th.ctxDone && th.callback = .registered

def Outside.broadcasts : Outside → Bool
  | .factoryFailed | .closeAll _ => true
  | _ => false

def PC.broadcasts (due : Bool) : PC → Bool
  | .broadcast | .lock (.cleanupClose ..) | .held (.cleanupClose ..) => true
  | .unlock out | .free out => out.broadcasts
  | .asleep | .lock .awake | .held .awake | .held (.stop (some _)) => due
  | _ => false

def Thread.broadcasts (th : Thread) : Bool :=
  th.callback = .started || th.pc.broadcasts th.due

def PC.looks (ctxDone : Bool) : PC → Nat
  | .lock .get | .held .get | .held (.getIdleConnLocked _) | .held (.stop none) | .signal => 1
  | .lock .awake | .held .awake => if ctxDone then 0 else 1
  | _ => 0

def Thread.looks (th : Thread) : Nat := th.pc.looks th.ctxDone

def Thread.seat (th : Thread) : Seat where
  sleeps := th.pc = .asleep
  broadcasts := th.broadcasts
  looks := th.looks

def State.seats (s : State) : List Seat := s.threads.map Thread.seat

def Conns.supply (cfg : Config) (c : Conns) : Nat :=
  c.idleConns.length + (cfg.maxConnCap - c.connCnt).toNat

/-! ## Callbacks -/

structure Thread.Fine (th : Thread) : Prop where
  started : th.callback = .started → th.ctxDone = true
  sleeps : th.pc = .wait ∨ th.pc = .asleep → th.callback ≠ .none
  woken : th.pc = .lock .awake ∨ th.pc = .held .awake → th.callback = .none → th.ctxDone = true

def PC.plain (pc : PC) : Bool :=
  pc ≠ .wait && pc ≠ .asleep && pc ≠ .lock .awake && pc ≠ .held .awake

section

variable {cfg : Config} {closed : Bool} {c : Conns} {th : Thread} {inp : Input} {sec : Section}
  {pc : PC}

theorem Thread.Fine.goto (fine : th.Fine) (plain : pc.plain = true) : (th.goto pc).Fine := by
  simp only [PC.plain, and_eq_true, decide_eq_true_eq] at plain
  obtain ⟨⟨⟨wait, asleep⟩, lock⟩, held⟩ := plain
  refine ⟨fine.started, ?_, ?_⟩
  · rintro (same | same)
    · exact absurd same wait
    · exact absurd same asleep
  · rintro (same | same)
    · exact absurd same lock
    · exact absurd same held

theorem Thread.Fine.obtain (fine : th.Fine) {p : Nat} {conn : Option Nat} :
    (th.obtain p conn).Fine := ⟨fine.started, by simp, by simp⟩

theorem Thread.Fine.wake (fine : th.Fine) : th.wake.Fine := by
  unfold Thread.wake
  split
  · refine ⟨fine.started, by simp, fun _ none => ?_⟩
    exact absurd none (fine.sleeps (.inr ‹_›))
  · exact fine

theorem Thread.Fine.giveUp (fine : th.Fine) : th.giveUp.Fine :=
  ⟨fine.started, fine.sleeps, fine.woken⟩

theorem Thread.Fine.lock (fine : th.Fine) (pc : th.pc = .lock sec) :
    (th.goto (.held sec)).Fine := by
  refine ⟨fine.started, by simp, ?_⟩
  rintro (same | same)
  · cases same
  · cases same
    exact fine.woken (.inl pc)

theorem exec_fine (fine : th.Fine) (pc : th.pc = .held sec) :
    (c.exec cfg closed th inp sec).2.Fine := by
  cases sec with
  | waitWithContext =>
    simp only [Conns.exec]
    split
    · exact fine.goto rfl
    · exact ⟨by simp, by simp, by simp⟩
  | stop err =>
    have stopped : (if th.callback = .registered then { th with callback := .none } else
      th).Fine := by
      split
      · exact ⟨by simp, by simp [pc], by simp [pc]⟩
      · exact fine
    cases err <;> exact stopped.goto rfl
  | _ =>
    simp only [Conns.exec, Conns.take]
    repeat' (first | exact fine.goto rfl | exact fine.obtain | split)

/-! ## Sections -/

theorem broadcasts_of_started (started : th.callback = .started) : th.broadcasts = true := by
  simp [broadcasts, started]

theorem exec_started (fine : th.Fine) (started : th.callback = .started) :
    (c.exec cfg closed th inp sec).2.callback = .started := by
  have done := fine.started started
  cases sec with
  | waitWithContext =>
    simp only [Conns.exec, done, if_true]
    exact started
  | stop err => cases err <;> simp [Conns.exec, started]
  | _ =>
    simp only [Conns.exec, Conns.take]
    repeat' (first | exact started | split)

theorem broadcasts_of_pc (pending : pc.broadcasts th.due = true) :
    (th.goto pc).broadcasts = true := by
  rw [broadcasts, or_eq_true]
  exact .inr pending

theorem broadcasts_goto (keeps : th.pc.broadcasts th.due = true → pc.broadcasts th.due = true)
    (pending : th.broadcasts = true) : (th.goto pc).broadcasts = true := by
  by_cases started : th.callback = .started
  · exact broadcasts_of_started started
  · exact broadcasts_of_pc (keeps (by simpa [broadcasts, started] using pending))

theorem exec_broadcasts (fine : th.Fine) (pc : th.pc = .held sec) (pending : th.broadcasts = true)
    (stays : ∀ err, sec = .stop (some err) → th.callback ≠ .registered) :
    (c.exec cfg closed th inp sec).2.broadcasts = true := by
  by_cases started : th.callback = .started
  · exact broadcasts_of_started (exec_started fine started)
  simp only [broadcasts, started, decide_false, Bool.false_or, pc] at pending
  cases sec with
  | awake =>
    have due : th.due = true := pending
    have done : th.ctxDone = true := (Bool.and_eq_true _ _ ▸ due :).1
    simp only [exec, done, if_true]
    split <;> exact broadcasts_of_pc due
  | stop err =>
    cases err with
    | none => cases pending
    | some err =>
      obtain ⟨-, registered⟩ : th.ctxDone = true ∧ th.callback = .registered := by
        simpa [PC.broadcasts, due] using pending
      exact absurd registered (stays err rfl)
  | cleanupClose => exact broadcasts_of_pc rfl
  | _ => cases pending

theorem supply_reserve (room : c.connCnt < cfg.maxConnCap) :
    { c with connCnt := c.connCnt + 1 }.supply cfg + 1 ≤ c.supply cfg := by
  simp only [supply]
  omega

theorem supply_pop {p : Nat} (last : c.idleConns.getLast? = some p) :
    { c with idleConns := c.idleConns.dropLast }.supply cfg + 1 ≤ c.supply cfg := by
  have length := congrArg List.length (dropLast_append_getLast? p last)
  rw [length_append, length_singleton] at length
  simp only [supply]
  omega

theorem supply_close (p : Nat) : (c.closeConnLocked p).supply cfg ≤ c.supply cfg + 1 := by
  simp only [supply, closeConnLocked_idleConns, setPc_idleConns, closeConnLocked_connCnt]
  omega

theorem supply_push (p : Nat) : (c.push p).supply cfg = c.supply cfg + 1 := by
  simp only [supply, push, length_append, length_singleton]
  omega

theorem supply_wrapConn (now : Int) (pick : Option Nat) :
    (c.wrapConn now pick).1.supply cfg = c.supply cfg := by
  obtain ⟨idle, -, count⟩ := wrapConn_lists c now pick
  rw [supply, idle, count, supply]

theorem exec_supply (pc : th.pc = .held sec) (running : sec.closing = false) :
    (c.exec cfg false th inp sec).1.supply cfg = 0 ∨
      (c.exec cfg false th inp sec).2.broadcasts = true ∨
      (c.exec cfg false th inp sec).1.supply cfg + th.looks ≤
        c.supply cfg + (c.exec cfg false th inp sec).2.looks := by
  have looks : th.looks = (PC.held sec).looks th.ctxDone := by rw [Thread.looks, pc]
  have broadcast {c' : Conns} : c'.supply cfg = 0 ∨ (th.goto .broadcast).broadcasts = true ∨
      c'.supply cfg + th.looks ≤ c.supply cfg + (th.goto .broadcast).looks :=
    .inr (.inl (broadcasts_of_pc rfl))
  have same {th' : Thread} (kept : (PC.held sec).looks th.ctxDone ≤ th'.looks) :
      c.supply cfg = 0 ∨ th'.broadcasts = true ∨
        c.supply cfg + th.looks ≤ c.supply cfg + th'.looks := .inr (.inr (by omega))
  cases sec with
  | get => exact same (le_refl 1)
  | getIdleConnLocked =>
    cases last : c.idleConns.getLast? with
    | none =>
      have none : c.idleConns = [] := List.getLast?_eq_none_iff.mp last
      simp only [exec, last]
      split
      · exact .inr (.inr (by rw [looks]; exact supply_reserve ‹_›))
      · refine .inl ?_
        rw [supply, none]
        simp only [length_nil]
        omega
    | some p =>
      have popped : { c with idleConns := c.idleConns.dropLast }.supply cfg + 1 ≤ c.supply cfg :=
        supply_pop last
      simp only [exec, last]
      split
      · refine .inr (.inr ?_)
        rw [looks]
        exact succ_le_succ (le_trans (supply_close p) popped)
      · split <;> exact .inr (.inr (by rw [looks]; exact popped))
  | getPinged p ok =>
    cases ok with
    | true => exact same (zero_le _)
    | false => exact .inr (.inr (by rw [looks]; exact supply_close p))
  | getMade | release => exact same (zero_le _)
  | getClose | releaseAll => cases running
  | waitWithContext =>
    simp only [exec]
    split <;> exact same (zero_le _)
  | awake =>
    simp only [exec, false_eq_true, if_false]
    split
    · exact same (by simp [PC.looks, *])
    · exact same (by simp [PC.looks, Thread.looks, *])
  | stop err =>
    cases err with
    | none => exact same (le_refl 1)
    | some => exact same (zero_le _)
  | putConn =>
    simp only [exec, false_eq_true, if_false]
    split
    · exact broadcast
    · split <;> exact same (zero_le _)
  | putPinged p ok =>
    cases ok with
    | true => exact same (zero_le _)
    | false => exact broadcast
  | putIdle p =>
    simp only [exec]
    split
    · exact .inr (.inr (by rw [looks]; exact le_of_eq (supply_push p)))
    · exact broadcast
  | markUnhealthy => exact broadcast
  | put =>
    obtain ⟨idle, -, count⟩ := wrapConn_lists { c with connCnt := c.connCnt + 1 } inp.now inp.pick
    refine .inr (.inr ?_)
    rw [looks]
    simp only [exec, false_eq_true, if_false]
    split
    · have less : { c with connCnt := c.connCnt + 1 }.supply cfg ≤ c.supply cfg := by
        simp only [supply]
        omega
      rw [supply_push, supply_wrapConn]
      exact succ_le_succ less
    · refine le_of_eq ?_
      simp only [supply, closeConnLocked_idleConns, setPc_idleConns,
        closeConnLocked_connCnt, idle, count, Int.add_sub_cancel]
      rfl
  | cleanup now =>
    refine .inr (.inr ?_)
    rw [looks]
    have less := length_filter_le (fun p => !cfg.expired (c.pcs p) now) c.idleConns
    refine le_trans (?_ : _ ≤ c.supply cfg) (le_add_right _ _)
    simp only [exec, false_eq_true, if_false, supply, PC.looks]
    omega
  | cleanupClose =>
    exact .inr (.inl (broadcasts_of_pc rfl))

end

/-! ## Attentive steps -/

def PC.falling : PC → Bool
  | .held .waitWithContext | .wait => true
  | _ => false

/-- Steps that forget nobody: a callback broadcasts only when its goroutine is not between
registering it and sleeping; a factory that failed broadcasts only when nobody who saw no
room is about to sleep, or there is none; and a `Get` that gives up takes its callback back
only when the pool is closed, nobody sleeps or there is nothing to take. -/
def attentive (cfg : Config) (s : State) : Label → Bool
  | .callback t => (s.threads[t]?).all fun th => th.pc ≠ .wait
  | .run t _ => (s.threads[t]?).all fun th =>
    match th.pc with
    | .free .factoryFailed =>
      cfg.maxConnCap ≤ s.connCnt || s.threads.all fun th => !th.pc.falling
    | .held (.stop (some _)) =>
      s.closed || th.callback ≠ .registered || (s.threads.all fun th => th.pc ≠ .asleep) ||
        s.supply cfg = 0
    | _ => true
  | _ => true

def Attentive (cfg : Config) (s : State) (l : Label) : Prop := attentive cfg s l = true

instance (cfg : Config) (s : State) (l : Label) : Decidable (Attentive cfg s l) :=
  inferInstanceAs (Decidable (attentive cfg s l = true))

/-! ## Callbacks along a run -/

section

variable {cfg : Config} {s s' : State} {l : Label}

def State.Fine (s : State) : Prop := ∀ th ∈ s.threads, th.Fine

variable {th : Thread} {ths : List Thread} {t : Nat}

theorem fine_modify {i : Nat} {f : Thread → Thread} (keeps : ∀ th : Thread, th.Fine → (f th).Fine)
    (fine : ∀ th ∈ ths, th.Fine) : ∀ th' ∈ ths.modify i f, th'.Fine := by
  intro th' there
  obtain ⟨u, found⟩ := mem_iff_getElem?.mp there
  rw [List.getElem?_modify] at found
  obtain ⟨th, at_, rfl⟩ := Option.map_eq_some_iff.mp found
  have before := fine th (mem_of_getElem? at_)
  split
  · exact keeps th before
  · exact before

variable {op : Op}

theorem fine_begin (begins : s.begin op = some th) : th.Fine := by
  have resting : Thread.Fine { pc := .free .select } := ⟨by simp, by simp, by simp⟩
  have fresh {pc : PC} (plain : pc.plain = true) : Thread.Fine { pc := pc } := resting.goto plain
  cases op with
  | get | put | release =>
    cases begins
    exact fresh rfl
  | putConn | markUnhealthy =>
    simp only [begin] at begins
    split at begins
    · cases begins
      exact fresh rfl
    · cases begins

theorem Thread.Fine.called (fine : th.Fine) (started : th.callback = .started)
    (apart : th.pc ≠ .wait) : Thread.Fine (Thread.wake { th with callback := .none }) := by
  have done := fine.started started
  unfold Thread.wake
  split
  · exact ⟨by simp, by simp, fun _ _ => done⟩
  · rename_i awake
    refine ⟨by simp, ?_, fun _ _ => done⟩
    rintro (wait | asleep)
    · exact absurd wait apart
    · exact absurd asleep awake

theorem fine_step (step : s.Step cfg l s') (attentive : Attentive cfg s l) (fine : s.Fine) :
    s'.Fine := by
  have here {t : Nat} {th : Thread} (found : s.threads[t]? = some th) : th.Fine :=
    fine th (mem_of_getElem? found)
  cases step with
  | call begins =>
    intro th there
    rcases mem_append.mp there with there | last
    · exact fine th there
    · rw [mem_singleton.mp last]
      exact fine_begin begins
  | cancel found =>
    exact forall_mem_set fine ⟨fun _ => rfl, (here found).sleeps, fun _ _ => rfl⟩
  | fire found done =>
    exact forall_mem_set fine ⟨fun _ => done, by simp, by simp⟩
  | @callback t th found started =>
    have apart : th.pc ≠ .wait := by simpa [Attentive, Pool.attentive, found] using attentive
    simp only [State.Fine, wakeAll_threads, setThread_threads, map_set]
    exact forall_mem_set (forall_mem_map.mpr fun _ there => (fine _ there).wake) ((here
      found).called started apart)
  | lock found pc => exact forall_mem_set fine ((here found).lock pc)
  | exec found pc => exact forall_mem_set fine (exec_fine (here found) pc)
  | wait found pc =>
    have registered := (here found).sleeps (.inl pc)
    exact forall_mem_set fine ⟨(here found).started, fun _ => registered, by simp⟩
  | signal found =>
    exact forall_mem_set (fine_modify (fun th => Thread.Fine.wake) fine) ((here found).goto rfl)
  | signalNobody found | unlock found | factory found | factoryErr found =>
    exact forall_mem_set fine ((here found).goto rfl)
  | broadcast found | wakes found =>
    exact forall_mem_set (forall_mem_map.mpr fun _ there => (fine _ there).wake) ((here found).goto
      rfl)
  | goto found pc goes =>
    exact forall_mem_set fine ((here found).goto (by cases goes <;> rfl))
  | lost found =>
    exact forall_mem_set (fine_modify (fun th => Thread.Fine.giveUp) fine) ((here found).goto rfl)
  | @won t inp th call g p found =>
    exact forall_mem_set (fine_modify (fun th => Thread.Fine.giveUp) fine)
      ((here found).goto (by cases call <;> rfl))

/-! ## Falling asleep -/

def State.Failed (s : State) : Prop := ∃ th ∈ s.threads, th.pc = .free .factoryFailed

def State.Falling (cfg : Config) (s : State) : Prop :=
  ∀ th ∈ s.threads, th.pc.falling = true →
    s.idleConns = [] ∧ (cfg.maxConnCap ≤ s.connCnt ∨ s.Failed)

theorem exec_falling {c : Conns} {closed : Bool} {inp : Input} {sec : Section}
    (falls : (c.exec cfg closed th inp sec).2.pc.falling = true) :
    (c.exec cfg closed th inp sec).1 = c ∧
      (c.idleConns = [] ∧ cfg.maxConnCap ≤ c.connCnt ∨ sec = .waitWithContext) := by
  cases sec with
  | getIdleConnLocked now =>
    simp only [Conns.exec] at falls ⊢
    split at falls
    · split at falls
      · cases falls
      · rename_i none full
        rw [if_neg full]
        exact ⟨rfl, .inl ⟨List.getLast?_eq_none_iff.mp none, by omega⟩⟩
    · split at falls
      · cases falls
      · split at falls <;> cases falls
  | waitWithContext =>
    refine ⟨?_, .inr rfl⟩
    simp only [Conns.exec]
    split <;> rfl
  | stop err => cases err <;> cases falls
  | _ =>
    simp only [Conns.exec, Conns.take] at falls
    repeat' (first | cases falls | split at falls)

theorem kept_of_not_run {old new : Thread} (step : s.Step cfg l s')
    (still : ∀ t inp, l ≠ .run t inp) (target : l.target = some t)
    (before : s.threads[t]? = some old) (after : s'.threads[t]? = some new) : old.Kept new := by
  cases step with
  | call => cases target
  | cancel found | fire found =>
    cases target
    cases before.symm.trans found
    rw [setThread_threads, getElem?_set_here found] at after
    cases after
    exact .inl rfl
  | callback found =>
    cases target
    cases before.symm.trans found
    rw [wakeAll_threads, List.getElem?_map, setThread_threads, getElem?_set_here found] at after
    cases after
    exact kept_wake { old with callback := .none }
  | _ => exact absurd rfl (still _ _)

theorem failed_step (step : s.Step cfg l s') (failed : s.Failed) :
    s'.Failed ∨ ∃ t inp th, l = .run t inp ∧ s.threads[t]? = some th ∧
      th.pc = .free .factoryFailed := by
  cases step_turn step with
  | call begins new =>
    subst new
    obtain ⟨th, there, pc⟩ := failed
    exact .inl ⟨th, mem_append_left _ there, pc⟩
  | @turn t old new target before after others length =>
    rcases others.exists_pc (P := (· = .free .factoryFailed)) length before nofun failed with pc
      | there
    · by_cases runs : ∃ t inp, l = .run t inp
      · obtain ⟨u, inp, rfl⟩ := runs
        cases target
        exact .inr ⟨_, inp, old, rfl, before, pc⟩
      · have kept := kept_of_not_run step (fun t inp same => runs ⟨t, inp, same⟩) target before
          after
        refine .inl ⟨new, mem_of_getElem? after, (kept.resolve_right ?_).trans pc⟩
        simp [pc]
    · exact .inl there

theorem begin_awake (begins : s.begin op = some th) : th.pc.falling = false ∧ th.pc ≠ .asleep := by
  cases op with
  | get | put | release =>
    cases begins
    exact ⟨rfl, by simp⟩
  | putConn | markUnhealthy =>
    simp only [begin] at begins
    split at begins
    · cases begins
      exact ⟨rfl, by simp⟩
    · cases begins

theorem PC.falling_locks {pc : PC} (falls : pc.falling = true) : pc.locks = true := by
  unfold PC.falling at falls
  split at falls
  · rfl
  · rfl
  · cases falls

theorem State.Goes.falling {old new : Thread} (goes : s.Goes cfg s' t old new)
    (guard : old.pc.Guard s t) (falls : new.pc.falling = true) : s.SameLists s' ∧
      (old.pc.falling = true ∨ s.idleConns = [] ∧ cfg.maxConnCap ≤ s.connCnt) := by
  cases goes with
  | stays kept mutex closed released lists =>
    rcases kept with same | ⟨-, woken⟩
    · exact ⟨lists, .inl (same ▸ falls)⟩
    · rw [woken] at falls
      cases falls
  | @locks sec pc next =>
    have fresh := guard.enters sec pc
    rw [next] at falls
    cases sec with
    | waitWithContext => cases fresh
    | _ => cases falls
  | execs pc next mutex closed released conns =>
    rw [next] at falls
    obtain ⟨same, found⟩ := exec_falling falls
    refine ⟨⟨by rw [conns, same], by rw [conns, same]⟩, ?_⟩
    rcases found with full | rfl
    · exact .inr full
    · exact .inl (pc ▸ rfl)
  | goes pc goes =>
    generalize new.pc = next at goes falls
    cases goes <;> cases falls
  | makes pc next =>
    rcases next with ⟨next, -⟩ | next <;> rw [next] at falls <;> cases falls
  | returns pc next =>
    rcases next with next | next <;> rw [next] at falls <;> cases falls
  | waits pc next | notifies pc next | unlocks pc next | wakes pc wakes next =>
    rw [next] at falls
    cases falls

theorem State.Goes.full {old new : Thread} (goes : s.Goes cfg s' t old new)
    (held : s.mutex ≠ none) (outside : old.pc.locks = false) :
    s'.idleConns = s.idleConns ∧ (s'.connCnt = s.connCnt ∨ new.pc = .free .factoryFailed) := by
  cases goes with
  | locks pc next unlocked => exact absurd unlocked held
  | execs pc | waits pc | unlocks pc =>
    rw [pc] at outside
    cases outside
  | notifies pc => rcases pc with pc | pc <;> rw [pc] at outside <;> cases outside
  | makes pc next mutex closed released idle => exact ⟨idle, next.imp And.right id⟩
  | _ => exact (‹s.SameLists s'›).imp_right .inl

theorem falling_step (step : s.Step cfg l s') (attentive : Attentive cfg s l)
    (guarded : s.Guarded) (falling : s.Falling cfg) : s'.Falling cfg := by
  -- what a sleeper-to-be saw before the step
  have full {th : Thread} (there : th ∈ s.threads) (falls : th.pc.falling = true) :
      s.idleConns = [] ∧ (cfg.maxConnCap ≤ s.connCnt ∨ s'.Failed) := by
    obtain ⟨none, room | failed⟩ := falling th there falls
    · exact ⟨none, .inl room⟩
    refine ⟨none, ?_⟩
    rcases failed_step step failed with failed | ⟨t, inp, old, rfl, found, pc⟩
    · exact .inr failed
    left
    simp only [Attentive, Pool.attentive, found, Option.all_some, pc, or_eq_true,
      decide_eq_true_eq, all_eq_true] at attentive
    rcases attentive with room | nobody
    · exact room
    · have awake := nobody th there
      rw [falls] at awake
      cases awake
  intro th there falls
  cases step_turn step with
  | call begins new =>
    subst new
    rcases mem_append.mp there with there | last
    · exact full there falls
    · rw [mem_singleton.mp last, (begin_awake begins).1] at falls
      cases falls
  | @turn t old new target before after others length goes =>
    have guard := guarded t old before
    obtain ⟨u, found⟩ := mem_iff_getElem?.mp there
    by_cases mover : u = t
    · subst mover
      rw [after] at found
      cases found
      obtain ⟨⟨idle, count⟩, falls | ⟨none, room⟩⟩ := goes.falling guard falls
      · rw [idle, count]
        exact full (mem_of_getElem? before) falls
      · rw [idle, count]
        exact ⟨none, .inl room⟩
    · obtain ⟨th₀, found₀, same | ⟨-, woken⟩⟩ := others u th mover found
      · rw [same] at falls
        have held := (guarded u th₀ found₀).exclusive (PC.falling_locks falls)
        have outside : old.pc.locks = false := by
          by_contra locks
          rw [guard.exclusive (by simpa using locks)] at held
          cases held
          exact mover rfl
        obtain ⟨idle, count⟩ := goes.full (by simp [held]) outside
        obtain ⟨none, room⟩ := full (mem_of_getElem? found₀) falls
        refine ⟨idle.trans none, ?_⟩
        rcases count with count | failed
        · rw [count]
          exact room
        · exact .inr ⟨new, mem_of_getElem? after, failed⟩
      · rw [woken] at falls
        cases falls
end

end Soil.Pool
