import Soil.Pool.Model

/-!
# The steps of a pool
-/

namespace Soil.Pool

open List Thread Option Conns

/-! ## What a step does -/

inductive Outside.Goes : Outside → PC → Prop
  | getPing (p : Nat) (now : Int) (ok : Bool) :
      Goes (.getPing p now) (.lock (.getPinged p ok now))
  | getClosing (p : Nat) : Goes (.getClosing p) (.lock (.getClose p))
  | putPing (p : Nat) (ok : Bool) : Goes (.putPing p) (.lock (.putPinged p ok))
  | closeCh : Goes .closeCh (.free .releaseBroadcast)
  | releaseWait : Goes .releaseWait (.lock .releaseAll)
  | tick (now : Int) : Goes .select (.lock (.cleanup now))
  | exit : Goes .select (.free (.done .void))
  | closeNext (p : Nat) (rest : List Nat) :
      Goes (.closeAll (p :: rest)) (.lock (.cleanupClose p rest))

inductive Outside.Wakes : Outside → Outside → Prop
  | factoryFailed : Wakes .factoryFailed (.done (.err .factory))
  | releaseBroadcast : Wakes .releaseBroadcast .releaseWait
  | closeAll : Wakes (.closeAll []) .select

@[simps toConns closed released mutex closeCh threads]
def State.afterSection (cfg : Config) (s : State) (t : Nat) (th : Thread) (inp : Input)
    (sec : Section) : State :=
  { s.setThread t (s.exec cfg s.closed th inp sec).2 with
    toConns := (s.exec cfg s.closed th inp sec).1
    closed := s.closed || sec = .release
    released := s.released || sec = .releaseAll }

inductive State.Step (cfg : Config) (s : State) : Label → State → Prop
  | call {op : Op} {th : Thread} (begins : s.begin op = some th) :
      Step cfg s (.call op) { s with threads := s.threads ++ [th] }
  | cancel {t : Nat} {th : Thread} (found : s.threads[t]? = some th) :
      Step cfg s (.cancel t) (s.setThread t { th with ctxDone := true })
  | fire {t : Nat} {th : Thread} (found : s.threads[t]? = some th) (done : th.ctxDone = true)
      (registered : th.callback = .registered) :
      Step cfg s (.fire t) (s.setThread t { th with callback := .started })
  | callback {t : Nat} {th : Thread} (found : s.threads[t]? = some th)
      (started : th.callback = .started) :
      Step cfg s (.callback t) (s.setThread t { th with callback := .none }).wakeAll
  | lock {t : Nat} {inp : Input} {th : Thread} {sec : Section} (found : s.threads[t]? = some th)
      (pc : th.pc = .lock sec) (unlocked : s.mutex = none) :
      Step cfg s (.run t inp) { s.setThread t (th.goto (.held sec)) with mutex := some t }
  | exec {t : Nat} {inp : Input} {th : Thread} {sec : Section} (found : s.threads[t]? = some th)
      (pc : th.pc = .held sec) : Step cfg s (.run t inp) (s.afterSection cfg t th inp sec)
  | wait {t : Nat} {inp : Input} {th : Thread} (found : s.threads[t]? = some th)
      (pc : th.pc = .wait) :
      Step cfg s (.run t inp) { s.setThread t (th.goto .asleep) with mutex := none }
  | signal {t : Nat} {inp : Input} {th sleeper : Thread} (found : s.threads[t]? = some th)
      (pc : th.pc = .signal) (sleeps : s.threads[inp.wake]? = some sleeper)
      (asleep : sleeper.pc = .asleep) :
      Step cfg s (.run t inp) { s with
        threads := (s.threads.modify inp.wake Thread.wake).set t
          (th.goto (.unlock (.done .void))) }
  | signalNobody {t : Nat} {inp : Input} {th : Thread} (found : s.threads[t]? = some th)
      (pc : th.pc = .signal) (nobody : ∀ th ∈ s.threads, th.pc ≠ .asleep) :
      Step cfg s (.run t inp) (s.setThread t (th.goto (.unlock (.done .void))))
  | broadcast {t : Nat} {inp : Input} {th : Thread} (found : s.threads[t]? = some th)
      (pc : th.pc = .broadcast) :
      Step cfg s (.run t inp) (s.wakeAll.setThread t (th.goto (.unlock (.done .void))))
  | unlock {t : Nat} {inp : Input} {th : Thread} {out : Outside}
      (found : s.threads[t]? = some th) (pc : th.pc = .unlock out) :
      Step cfg s (.run t inp) { s.setThread t (th.goto (.free out)) with mutex := none }
  | goto {t : Nat} {inp : Input} {th : Thread} {out : Outside} {next : PC}
      (found : s.threads[t]? = some th) (pc : th.pc = .free out) (goes : out.Goes next)
      (closeCh : Bool) :
      Step cfg s (.run t inp) { s.setThread t (th.goto next) with closeCh }
  | wakes {t : Nat} {inp : Input} {th : Thread} {out next : Outside}
      (found : s.threads[t]? = some th) (pc : th.pc = .free out) (wakes : out.Wakes next) :
      Step cfg s (.run t inp) (s.wakeAll.setThread t (th.goto (.free next)))
  | factory {t : Nat} {inp : Input} {th : Thread} (found : s.threads[t]? = some th)
      (pc : th.pc = .free .factory) (ok : inp.ok = true) :
      Step cfg s (.run t inp)
        { s.setThread t (th.goto (.lock (.getMade (s.wrapConn inp.now inp.pick).2))) with
          toConns := (s.wrapConn inp.now inp.pick).1 }
  | factoryErr {t : Nat} {inp : Input} {th : Thread} (found : s.threads[t]? = some th)
      (pc : th.pc = .free .factory) :
      Step cfg s (.run t inp)
        { s.setThread t (th.goto (.free .factoryFailed)) with connCnt := s.connCnt - 1 }
  | lost {t : Nat} {inp : Input} {th : Thread} {call : Return} {g p : Nat}
      (found : s.threads[t]? = some th) (pc : th.pc = .returns call g p)
      (returned : (s.pcs p).returned = true) :
      Step cfg s (.run t inp)
        ({ s with threads := s.threads.modify g Thread.giveUp }.setThread t
          (th.goto (.free (.done .void))))
  | won {t : Nat} {inp : Input} {th : Thread} {call : Return} {g p : Nat}
      (found : s.threads[t]? = some th) (pc : th.pc = .returns call g p)
      (lent : (s.pcs p).returned = false) :
      Step cfg s (.run t inp)
        { { s with threads := s.threads.modify g Thread.giveUp }.setThread t
            (th.goto (.lock (call.sec p))) with toConns := s.setReturned p true }

section

variable {cfg : Config} {s s' : State} {t g p : Nat} {th : Thread} {inp : Input}

section

variable (found : s.threads[t]? = some th)
include found

theorem compareAndSwap_cases {call : Return} (pc : th.pc = .returns call g p) :
    s.Step cfg (.run t inp) (s.compareAndSwap t th call g p) := by
  cases flag : (s.pcs p).returned with
  | true =>
    rw [State.compareAndSwap, if_pos flag]
    exact .lost found pc flag
  | false =>
    rw [State.compareAndSwap, if_neg (by simp [flag])]
    exact .won found pc flag

theorem outside_cases {out : Outside} (pc : th.pc = .free out)
    (step : s.outside t th inp out = some s') : s.Step cfg (.run t inp) s' := by
  unfold State.outside at step
  split at step
  next p now =>
    cases step
    exact .goto found pc (.getPing p now inp.ok) s.closeCh
  next =>
    split at step
    · cases step
      exact .factory found pc ‹_›
    · cases step
      exact .factoryErr found pc
  next =>
    cases step
    exact .wakes found pc .factoryFailed
  next p =>
    cases step
    exact .goto found pc (.getClosing p) s.closeCh
  next p =>
    cases step
    exact .goto found pc (.putPing p inp.ok) s.closeCh
  next =>
    cases step
    exact .goto found pc .closeCh true
  next =>
    cases step
    exact .wakes found pc .releaseBroadcast
  next =>
    split at step
    · cases step
      exact .goto found pc .releaseWait s.closeCh
    · cases step
  next =>
    split at step
    · cases step
      exact .goto found pc (.tick inp.now) s.closeCh
    · split at step
      · cases step
        exact .goto found pc .exit s.closeCh
      · cases step
  next =>
    cases step
    exact .wakes found pc .closeAll
  next p rest =>
    cases step
    exact .goto found pc (.closeNext p rest) s.closeCh
  next => cases step

theorem run_cases (step : s.run cfg t th inp = some s') : s.Step cfg (.run t inp) s' := by
  unfold State.run at step
  split at step
  · cases step
    exact compareAndSwap_cases found ‹_›
  · split at step
    · cases step
      exact .lock found ‹_› ‹_›
    · cases step
  · cases step
    exact .exec found ‹_›
  · cases step
    exact .wait found ‹_›
  · split at step
    next sleeping =>
      obtain ⟨sleeper, sleeps, asleep⟩ := map_eq_some_iff.mp sleeping
      cases step
      exact .signal found ‹_› sleeps asleep
    next =>
      split at step
      next nobody =>
        cases step
        exact .signalNobody found ‹_› (by simpa using nobody)
      next => cases step
  · cases step
    exact .broadcast found ‹_›
  · cases step
    exact .unlock found ‹_›
  · exact outside_cases found ‹_› step
  · cases step

end

theorem step_cases {l : Label} (step : (pool cfg).step s l = some s') : s.Step cfg l s' := by
  cases l with
  | call =>
    obtain ⟨th, begins, rfl⟩ := map_eq_some_iff.mp step
    exact .call begins
  | cancel =>
    obtain ⟨th, found, rfl⟩ := map_eq_some_iff.mp step
    exact .cancel found
  | fire =>
    obtain ⟨th, found, step⟩ := bind_eq_some_iff.mp step
    split at step
    · cases step
      exact .fire found (‹_ ∧ _›).1 (‹_ ∧ _›).2
    · cases step
  | callback =>
    obtain ⟨th, found, step⟩ := bind_eq_some_iff.mp step
    split at step
    · cases step
      exact .callback found ‹_›
    · cases step
  | run =>
    obtain ⟨th, found, step⟩ := bind_eq_some_iff.mp step
    exact run_cases found step

end

structure State.New (cfg : Config) (s : State) (n : Nat) : Prop where
  fits : n ≤ cfg.maxIdleCnt
  connCnt : s.connCnt = n
  idleConns : s.idleConns = List.range n
  activeConns : s.activeConns = []
  pcCnt : s.pcCnt = n
  conn (p : Nat) : (s.pcs p).conn = if p < n then some p else none
  closes : s.closes = List.replicate n 0
  connPool : s.connPool = []
  closed : s.closed = false
  released : s.released = false
  mutex : s.mutex = none
  threads : s.threads = [{ pc := .free .select }]

theorem openConns_ok {factory : Nat → Except String Int} {n : Nat} {pcs : Nat → PoolConn}
    (opened : openConns factory n = .ok pcs) (p : Nat) :
    (pcs p).conn = if p < n then some p else none := by
  induction n generalizing pcs with
  | zero =>
    cases opened
    rfl
  | succ n ih =>
    obtain ⟨before, first, opened⟩ := bind_eq_ok.mp opened
    obtain ⟨now, -, opened⟩ := bind_eq_ok.mp opened
    cases opened
    rcases Nat.lt_trichotomy p n with lt | rfl | gt
    · rw [Function.update_of_ne (by omega), ih first, if_pos lt, if_pos (by omega)]
    · simp
    · rw [Function.update_of_ne (by omega), ih first, if_neg (by omega), if_neg (by omega)]

theorem pool_init {cfg : Config} {s : State} (start : (pool cfg).init s) : ∃ n, s.New cfg n := by
  obtain ⟨initConnCnt, maxIdleCnt, maxConnCap, maxIdleTime, factory, hasPing, life, made⟩ := start
  unfold newPool at made
  split at made
  · cases made
  cases factory with
  | none => cases made
  | some =>
    obtain ⟨pcs, opened, made⟩ := bind_eq_ok.mp made
    cases made
    refine ⟨initConnCnt.toNat, ?_⟩
    constructor <;> first | rfl | exact openConns_ok opened | skip
    all_goals dsimp only; omega

/-! ## Where goroutines are -/

def Thread.Kept (old new : Thread) : Prop :=
  new.pc = old.pc ∨ old.pc = .asleep ∧ new.pc = .lock .awake

theorem Thread.kept_wake (th : Thread) : th.Kept th.wake := by
  unfold wake
  split
  · exact .inr ⟨‹_›, rfl⟩
  · exact .inl rfl

theorem Thread.kept_giveUp (th : Thread) : th.Kept th.giveUp := .inl rfl

def State.Others (s s' : State) (t : Nat) : Prop :=
  ∀ (u : Nat) (new : Thread), u ≠ t → s'.threads[u]? = some new → ∃ old, s.threads[u]? = some old ∧
    old.Kept new

section

variable {cfg : Config} {s s' : State} {l : Label} {t : Nat} {old new : Thread}

theorem others_set {ths : List Thread} (threads : s'.threads = ths.set t new)
    (kept : ∀ (u : Nat) (th : Thread), ths[u]? = some th → ∃ old, s.threads[u]? = some old ∧
      old.Kept th) : s.Others s' t := by
  intro u th other found
  rw [threads, List.getElem?_set_ne (Ne.symm other)] at found
  exact kept u th found

variable {f : Thread → Thread}

theorem kept_map (kept : ∀ th : Thread, th.Kept (f th)) (u : Nat) (th : Thread)
    (found : (s.threads.map f)[u]? = some th) : ∃ old, s.threads[u]? = some old ∧ old.Kept th := by
  rw [List.getElem?_map] at found
  obtain ⟨old, at_, rfl⟩ := map_eq_some_iff.mp found
  exact ⟨old, at_, kept old⟩

theorem kept_modify (kept : ∀ th : Thread, th.Kept (f th)) (i u : Nat) (th : Thread)
    (found : (s.threads.modify i f)[u]? = some th) :
    ∃ old, s.threads[u]? = some old ∧ old.Kept th := by
  rw [List.getElem?_modify] at found
  obtain ⟨old, at_, rfl⟩ := map_eq_some_iff.mp found
  refine ⟨old, at_, ?_⟩
  split
  · exact kept old
  · exact .inl rfl

def State.SameLists (s s' : State) : Prop :=
  s'.idleConns = s.idleConns ∧ s'.connCnt = s.connCnt

inductive State.Goes (cfg : Config) (s s' : State) (t : Nat) (old new : Thread) : Prop
  | stays (kept : old.Kept new) (mutex : s'.mutex = s.mutex) (closed : s'.closed = s.closed)
      (released : s'.released = s.released) (lists : s.SameLists s')
  | locks {sec : Section} (pc : old.pc = .lock sec) (next : new.pc = .held sec)
      (unlocked : s.mutex = none) (mutex : s'.mutex = some t) (closed : s'.closed = s.closed)
      (released : s'.released = s.released) (lists : s.SameLists s')
  | execs {sec : Section} {inp : Input} (pc : old.pc = .held sec)
      (next : new = (s.exec cfg s.closed old inp sec).2) (mutex : s'.mutex = s.mutex)
      (closed : s'.closed = (s.closed || sec = .release))
      (released : s'.released = (s.released || sec = .releaseAll))
      (conns : s'.toConns = (s.exec cfg s.closed old inp sec).1)
  | waits (pc : old.pc = .wait) (next : new.pc = .asleep) (mutex : s'.mutex = none)
      (closed : s'.closed = s.closed) (released : s'.released = s.released)
      (lists : s.SameLists s')
  | notifies (pc : old.pc = .signal ∨ old.pc = .broadcast)
      (next : new.pc = .unlock (.done .void)) (mutex : s'.mutex = s.mutex)
      (closed : s'.closed = s.closed) (released : s'.released = s.released)
      (lists : s.SameLists s')
  | unlocks {out : Outside} (pc : old.pc = .unlock out) (next : new.pc = .free out)
      (mutex : s'.mutex = none) (closed : s'.closed = s.closed)
      (released : s'.released = s.released) (lists : s.SameLists s')
  | goes {out : Outside} (pc : old.pc = .free out) (goes : out.Goes new.pc)
      (mutex : s'.mutex = s.mutex) (closed : s'.closed = s.closed)
      (released : s'.released = s.released) (lists : s.SameLists s')
  | wakes {out next : Outside} (pc : old.pc = .free out) (wakes : out.Wakes next)
      (goes : new.pc = .free next) (awake : ∀ th ∈ s'.threads, th.pc ≠ .asleep)
      (mutex : s'.mutex = s.mutex) (closed : s'.closed = s.closed)
      (released : s'.released = s.released) (lists : s.SameLists s')
  | makes {p : Nat} (pc : old.pc = .free .factory)
      (next : new.pc = .lock (.getMade p) ∧ s'.connCnt = s.connCnt ∨ new.pc = .free .factoryFailed)
      (mutex : s'.mutex = s.mutex) (closed : s'.closed = s.closed)
      (released : s'.released = s.released) (idle : s'.idleConns = s.idleConns)
  | returns {call : Return} {g p : Nat} (pc : old.pc = .returns call g p)
      (next : new.pc = .lock (call.sec p) ∨ new.pc = .free (.done .void))
      (mutex : s'.mutex = s.mutex) (closed : s'.closed = s.closed)
      (released : s'.released = s.released) (lists : s.SameLists s')

def Label.target : Label → Option Nat
  | .call _ => none
  | .cancel t | .fire t | .callback t | .run t _ => some t

inductive State.Turn (cfg : Config) (s : State) (l : Label) (s' : State) : Prop
  | call {op : Op} {th : Thread} (begins : s.begin op = some th)
      (new : s' = { s with threads := s.threads ++ [th] })
  | turn {t : Nat} {old new : Thread} (target : l.target = some t) (found : s.threads[t]? = some
    old)
      (found' : s'.threads[t]? = some new) (others : s.Others s' t)
      (length : s'.threads.length = s.threads.length) (goes : s.Goes cfg s' t old new)

theorem turn_of_set (target : l.target = some t) (found : s.threads[t]? = some old)
    (threads : s'.threads = s.threads.set t new) (goes : s.Goes cfg s' t old new) : s.Turn cfg l
      s' := by
  refine .turn target found ?_ (others_set threads fun u th at_ => ⟨th, at_, .inl rfl⟩) (by
    simp [threads])
    goes
  rw [threads, getElem?_set_of_some found, if_pos rfl]

theorem turn_of_wakeAll (target : l.target = some t) (found : s.threads[t]? = some old)
    (threads : s'.threads = (s.threads.map wake).set t new)
    (goes : s.Goes cfg s' t old new) : s.Turn cfg l s' := by
  refine .turn target found ?_ (others_set threads (kept_map kept_wake)) (by simp [threads])
    goes
  have there : (s.threads.map wake)[t]? = some old.wake := by simp [found]
  rw [threads, getElem?_set_of_some there, if_pos rfl]

theorem turn_of_modify {i : Nat} (kept : ∀ th : Thread, th.Kept (f th))
    (target : l.target = some t) (found : s.threads[t]? = some old)
    (threads : s'.threads = (s.threads.modify i f).set t new) (goes : s.Goes cfg s' t old new) :
      s.Turn cfg l s' := by
  refine .turn target found ?_ (others_set threads (kept_modify kept i)) (by simp [threads]) goes
  obtain ⟨inside, -⟩ := List.getElem?_eq_some_iff.mp found
  rw [threads, List.getElem?_set_self (by simpa using inside)]

theorem Thread.wake_awake (th : Thread) : th.wake.pc ≠ .asleep := by
  unfold wake
  split
  · nofun
  · assumption

theorem awake_wakeAll (awake : new.pc ≠ .asleep) :
    ∀ th ∈ (s.wakeAll.setThread t new).threads, th.pc ≠ .asleep := by
  intro th there
  rcases mem_or_eq_of_mem_set there with there | rfl
  · obtain ⟨th₀, -, rfl⟩ := mem_map.mp there
    exact th₀.wake_awake
  · exact awake

theorem step_turn (step : s.Step cfg l s') : s.Turn cfg l s' := by
  cases step with
  | call begins => exact .call begins rfl
  | cancel found | fire found =>
    exact turn_of_set rfl found rfl (.stays (.inl rfl) rfl rfl rfl ⟨rfl, rfl⟩)
  | @callback t th found =>
    have kept : th.Kept (wake { th with callback := .none }) :=
      kept_wake { th with callback := .none }
    exact turn_of_wakeAll rfl found (by simp) (.stays kept rfl rfl rfl ⟨rfl, rfl⟩)
  | lock found pc unlocked =>
    exact turn_of_set rfl found rfl (.locks pc rfl unlocked rfl rfl rfl ⟨rfl, rfl⟩)
  | exec found pc => exact turn_of_set rfl found rfl (.execs pc rfl rfl rfl rfl rfl)
  | wait found pc => exact turn_of_set rfl found rfl (.waits pc rfl rfl rfl rfl ⟨rfl, rfl⟩)
  | signal found pc =>
    exact turn_of_modify kept_wake rfl found rfl (.notifies (.inl pc) rfl rfl rfl rfl ⟨rfl, rfl⟩)
  | signalNobody found pc =>
    exact turn_of_set rfl found rfl (.notifies (.inl pc) rfl rfl rfl rfl ⟨rfl, rfl⟩)
  | broadcast found pc =>
    exact turn_of_wakeAll rfl found rfl (.notifies (.inr pc) rfl rfl rfl rfl ⟨rfl, rfl⟩)
  | unlock found pc => exact turn_of_set rfl found rfl (.unlocks pc rfl rfl rfl rfl ⟨rfl, rfl⟩)
  | goto found pc goes =>
    exact turn_of_set rfl found rfl (.goes pc goes rfl rfl rfl ⟨rfl, rfl⟩)
  | wakes found pc wakes =>
    exact turn_of_wakeAll rfl found rfl (.wakes pc wakes rfl (awake_wakeAll nofun) rfl rfl rfl
      ⟨rfl, rfl⟩)
  | @factory t inp th found pc =>
    obtain ⟨idle, -, count⟩ := wrapConn_lists s.toConns inp.now inp.pick
    exact turn_of_set rfl found rfl (.makes pc (.inl ⟨rfl, count⟩) rfl rfl rfl idle)
  | factoryErr found pc =>
    exact turn_of_set rfl found rfl (.makes (p := 0) pc (.inr rfl) rfl rfl rfl rfl)
  | lost found pc =>
    exact turn_of_modify kept_giveUp rfl found rfl (.returns pc (.inr rfl) rfl rfl rfl ⟨rfl, rfl⟩)
  | won found pc =>
    exact turn_of_modify kept_giveUp rfl found rfl (.returns pc (.inl rfl) rfl rfl rfl ⟨rfl, rfl⟩)

theorem State.Others.forward (others : s.Others s' t)
    (length : s'.threads.length = s.threads.length) {u : Nat} (other : u ≠ t)
    (found : s.threads[u]? = some old) : ∃ new, s'.threads[u]? = some new ∧ old.Kept new := by
  have inside : u < s'.threads.length := by
    rw [length]
    exact (List.getElem?_eq_some_iff.mp found).1
  obtain ⟨th, there, kept⟩ := others u _ other (List.getElem?_eq_getElem inside)
  rw [found] at there
  cases there
  exact ⟨_, List.getElem?_eq_getElem inside, kept⟩

/-- What one of the goroutines is at, one is still at after a turn, unless the mover was. -/
theorem State.Others.exists_pc {P : PC → Prop} (others : s.Others s' t)
    (length : s'.threads.length = s.threads.length) (before : s.threads[t]? = some old)
    (awake : ¬ P .asleep) (there : ∃ th ∈ s.threads, P th.pc) :
    P old.pc ∨ ∃ th ∈ s'.threads, P th.pc := by
  obtain ⟨th, inside, holds⟩ := there
  obtain ⟨u, found⟩ := mem_iff_getElem?.mp inside
  by_cases mover : u = t
  · subst mover
    cases before.symm.trans found
    exact .inl holds
  · obtain ⟨th', there', same | ⟨asleep, -⟩⟩ := others.forward length mover found
    · exact .inr ⟨th', mem_of_getElem? there', same ▸ holds⟩
    · exact absurd (asleep ▸ holds) awake

theorem State.Goes.done {ret : Ret} (goes : s.Goes cfg s' t old new)
    (pc : old.pc = .free (.done ret)) : new.pc = .free (.done ret) := by
  cases goes with
  | stays kept =>
    rcases kept with same | ⟨asleep, -⟩
    · exact same.trans pc
    · rw [pc] at asleep
      cases asleep
  | goes here goes =>
    rw [pc] at here
    cases here
    cases goes
  | wakes here wakes =>
    rw [pc] at here
    cases here
    cases wakes
  | notifies here => rcases here with here | here <;> rw [pc] at here <;> cases here
  | locks here | execs here | waits here | unlocks here | makes here | returns here =>
    rw [pc] at here
    cases here

end

/-! ## The mutex and `closed` -/

def PC.locks : PC → Bool
  | .held _ | .wait | .signal | .broadcast | .unlock _ => true
  | .returns .. | .lock _ | .free _ | .asleep => false

def PC.opened : PC → Bool
  | .held (.getIdleConnLocked _) | .held .waitWithContext | .held (.stop none) | .wait => true
  | _ => false

def Section.closing : Section → Bool
  | .getClose _ | .releaseAll => true
  | _ => false

def Outside.closing : Outside → Bool
  | .getClosing _ | .closeCh | .releaseBroadcast | .releaseWait => true
  | _ => false

def PC.closing : PC → Bool
  | .lock sec | .held sec => sec.closing
  | .unlock out | .free out => out.closing
  | _ => false

structure PC.Guard (s : State) (t : Nat) (pc : PC) : Prop where
  exclusive : pc.locks = true → s.mutex = some t
  opened : pc.opened = true → s.closed = false
  closing : pc.closing = true → s.closed = true
  enters : ∀ sec, pc = .lock sec → (PC.held sec).opened = false

def State.Guarded (s : State) : Prop :=
  ∀ (t : Nat) (th : Thread), s.threads[t]? = some th → th.pc.Guard s t

section

variable {cfg : Config} {s s' : State} {t u : Nat} {pc : PC}

theorem PC.opened_locks (opened : pc.opened = true) : pc.locks = true := by
  cases pc with
  | returns | lock | free | asleep => cases opened
  | held | wait | signal | broadcast | unlock => rfl

theorem PC.Guard.of_free (free : pc.locks = false) (closing : pc.closing = true → s.closed = true)
    (enters : ∀ sec, pc = .lock sec → (PC.held sec).opened = false) : pc.Guard s t where
  exclusive held := by simp [free] at held
  opened opened := by simp [PC.opened_locks opened] at free
  closing := closing
  enters := enters

variable {th : Thread} {sec : Section} {inp : Input} {c : Conns}

theorem exec_locks {closed : Bool} : (c.exec cfg closed th inp sec).2.pc.locks = true := by
  cases sec <;> simp [exec] <;> repeat' (first | rfl | split)

theorem guard_exec (guard : (PC.held sec).Guard s t) (mutex : s'.mutex = s.mutex)
    (closed : s'.closed = (s.closed || sec = .release)) :
    (c.exec cfg s.closed th inp sec).2.pc.Guard s' t := by
  have exclusive : s'.mutex = some t := mutex.trans (guard.exclusive rfl)
  have locked {pc : PC} (locks : pc.locks = true) (sec : Section) (enters : pc = .lock sec) :
      (PC.held sec).opened = false := by simp [enters, PC.locks] at locks
  -- a place that relies on nothing but the mutex
  have plain {pc : PC} (locks : pc.locks = true) (not_opened : pc.opened = false)
      (not_closing : pc.closing = false) : pc.Guard s' t :=
    ⟨fun _ => exclusive, by simp [not_opened], by simp [not_closing], locked locks⟩
  have looks {pc : PC} (opened : s.closed = false) (other : sec ≠ .release)
      (locks : pc.locks = true) (not_closing : pc.closing = false) : pc.Guard s' t :=
    ⟨fun _ => exclusive, by simp [closed, opened, other], by simp [not_closing], locked locks⟩
  cases sec with
  | get =>
    cases isClosed : s.closed with
    | true => exact plain rfl rfl rfl
    | false => exact looks isClosed nofun rfl rfl
  | getIdleConnLocked =>
    have opened := guard.opened rfl
    simp only [exec]
    split
    · split
      · exact plain rfl rfl rfl
      · exact looks opened nofun rfl rfl
    · split
      · exact looks opened nofun rfl rfl
      · split <;> exact plain rfl rfl rfl
  | getPinged p ok =>
    cases isClosed : s.closed with
    | true => exact plain rfl rfl rfl
    | false =>
      cases ok with
      | true => exact plain rfl rfl rfl
      | false => exact looks isClosed nofun rfl rfl
  | getMade =>
    cases isClosed : s.closed with
    | true => exact ⟨fun _ => exclusive, nofun, fun _ => by simp [closed, isClosed], nofun⟩
    | false => exact plain rfl rfl rfl
  | waitWithContext =>
    simp only [exec]
    split
    · exact plain rfl rfl rfl
    · exact looks (guard.opened rfl) nofun rfl rfl
  | awake =>
    cases isClosed : s.closed with
    | true => exact plain rfl rfl rfl
    | false =>
      simp only [exec]
      split
      · contradiction
      · split
        · exact plain rfl rfl rfl
        · exact looks isClosed nofun rfl rfl
  | stop err =>
    cases err with
    | none => exact looks (guard.opened rfl) nofun rfl rfl
    | some => exact plain rfl rfl rfl
  | release =>
    cases isClosed : s.closed with
    | true => exact plain rfl rfl rfl
    | false => exact ⟨fun _ => exclusive, nofun, fun _ => by simp [closed], nofun⟩
  | _ =>
    simp only [exec]
    repeat' (first | exact plain rfl rfl rfl | split)

theorem guard_begin {op : Op} (begins : s.begin op = some th) : th.pc.Guard s t := by
  have locks {sec : Section} (other : sec.closing = false) (fresh : (PC.held sec).opened = false) :
      (PC.lock sec).Guard s t :=
    .of_free rfl (by simp [PC.closing, other]) (fun _ same => by cases same; exact fresh)
  cases op with
  | get | put | release =>
    cases begins
    exact locks rfl rfl
  | putConn | markUnhealthy =>
    simp only [State.begin] at begins
    split at begins
    · cases begins
      exact .of_free rfl nofun nofun
    · cases begins

theorem guard_goes {old new : Thread} (guard : old.pc.Guard s t) (goes : s.Goes cfg s' t old new) :
    new.pc.Guard s' t := by
  -- the places behind a step outside the mutex
  have outside {out : Outside} (closing : out.closing = true → s'.closed = true) :
      (PC.free out).Guard s' t := .of_free rfl closing nofun
  have locks {sec : Section} (closing : sec.closing = true → s'.closed = true)
      (fresh : (PC.held sec).opened = false) : (PC.lock sec).Guard s' t :=
    .of_free rfl closing (fun _ same => by cases same; exact fresh)
  cases goes with
  | stays kept mutex closed =>
    rcases kept with same | ⟨-, woken⟩
    · rw [same]
      exact ⟨mutex ▸ guard.exclusive, closed ▸ guard.opened, closed ▸ guard.closing, guard.enters⟩
    · rw [woken]
      exact locks nofun rfl
  | @locks sec pc next unlocked mutex closed =>
    rw [pc] at guard
    rw [next]
    have fresh := guard.enters sec rfl
    exact ⟨fun _ => mutex, by simp [fresh], closed ▸ guard.closing, nofun⟩
  | execs pc next mutex closed =>
    subst next
    exact guard_exec (pc ▸ guard) mutex closed
  | waits pc next =>
    rw [next]
    exact .of_free rfl nofun nofun
  | notifies pc next mutex =>
    rw [next]
    have held : s.mutex = some t := by
      apply guard.exclusive
      rcases pc with pc | pc <;> rw [pc] <;> rfl
    exact ⟨fun _ => mutex.trans held, nofun, nofun, nofun⟩
  | unlocks pc next mutex closed =>
    rw [pc] at guard
    rw [next]
    exact outside (closed ▸ guard.closing)
  | goes pc goes mutex closed released =>
    rw [pc] at guard
    generalize new.pc = next at goes
    cases goes with
    | getPing | putPing | tick | closeNext => exact locks nofun rfl
    | getClosing | releaseWait => exact locks (fun _ => closed ▸ guard.closing rfl) rfl
    | closeCh => exact outside fun _ => closed ▸ guard.closing rfl
    | exit => exact outside nofun
  | wakes pc wakes goes awake mutex closed =>
    rw [pc] at guard
    rw [goes]
    cases wakes with
    | factoryFailed | closeAll => exact outside nofun
    | releaseBroadcast => exact outside fun _ => closed ▸ guard.closing rfl
  | makes pc next mutex closed released =>
    rcases next with ⟨next, -⟩ | next <;> rw [next]
    · exact locks nofun rfl
    · exact outside nofun
  | @returns call g p pc next mutex closed released =>
    rcases next with next | next <;> rw [next]
    · cases call <;> exact locks nofun rfl
    · exact outside nofun

theorem State.Goes.holder {old new : Thread} (goes : s.Goes cfg s' t old new) :
    s'.mutex = s.mutex ∧ s'.closed = s.closed ∨ s.mutex = none ∨ old.pc.locks = true := by
  cases goes with
  | locks pc next unlocked => exact .inr (.inl unlocked)
  | execs pc | waits pc | unlocks pc => exact .inr (.inr (by rw [pc]; rfl))
  | _ => exact .inl ⟨‹s'.mutex = s.mutex›, ‹s'.closed = s.closed›⟩

theorem State.Goes.closed_mono {old new : Thread} (goes : s.Goes cfg s' t old new)
    (ended : s.closed = true) : s'.closed = true := by
  cases goes with
  | execs pc next mutex closed => simp [closed, ended]
  | _ => rw [‹s'.closed = s.closed›, ended]

theorem State.Goes.shuts {old new : Thread} (goes : s.Goes cfg s' t old new)
    (opened : s.closed = false) (ended : s'.closed = true) : new.pc = .unlock .closeCh := by
  cases goes with
  | @execs sec inp pc next mutex closed =>
    obtain rfl : sec = .release := by simpa [closed, opened] using ended
    subst next
    simp [exec, opened]
  | _ =>
    rw [‹s'.closed = s.closed›, opened] at ended
    cases ended

/-- Who is neither at the mutex nor outside of it was there before or has just fallen asleep. -/
theorem State.Goes.arrives {old new : Thread} (goes : s.Goes cfg s' t old new)
    (entering : ∀ sec, new.pc ≠ .lock sec) (inside : new.pc.locks = false)
    (outside : ∀ out, new.pc ≠ .free out) :
    new.pc = old.pc ∨ old.pc = .wait ∧ new.pc = .asleep := by
  cases goes with
  | stays kept => exact .inl (kept.resolve_right fun woken => entering _ woken.2)
  | execs pc next =>
    have locks : new.pc.locks = true := next ▸ exec_locks
    rw [inside] at locks
    cases locks
  | waits pc next => exact .inr ⟨pc, next⟩
  | goes pc goes =>
    generalize new.pc = next at *
    cases goes <;> first | exact absurd rfl (entering _) | exact absurd rfl (outside _)
  | locks pc next | notifies pc next =>
    rw [next] at inside
    cases inside
  | unlocks pc next | wakes pc wakes next => exact absurd next (outside _)
  | makes pc next => exact (next.elim (fun both => entering _ both.1) (outside _)).elim
  | returns pc next => exact (next.elim (entering _) (outside _)).elim

variable {l : Label}

theorem closed_mono (step : s.Step cfg l s') (ended : s.closed = true) : s'.closed = true := by
  cases step_turn step with
  | call begins new =>
    subst new
    exact ended
  | turn target before after others length goes => exact goes.closed_mono ended

theorem PC.Guard.other {old new : Thread} (holder : old.pc.Guard s t)
    (goes : s.Goes cfg s' t old new) (other : u ≠ t) (guard : pc.Guard s u) : pc.Guard s' u := by
  have kept (locks : pc.locks = true) : s'.mutex = s.mutex ∧ s'.closed = s.closed := by
    have held := guard.exclusive locks
    rcases goes.holder with same | unlocked | locks
    · exact same
    · rw [held] at unlocked
      cases unlocked
    · rw [holder.exclusive locks] at held
      cases held
      exact absurd rfl other
  refine ⟨fun locks => ?_, fun opened => ?_, fun closing => ?_, guard.enters⟩
  · rw [(kept locks).1]
    exact guard.exclusive locks
  · rw [(kept (PC.opened_locks opened)).2]
    exact guard.opened opened
  · exact goes.closed_mono (guard.closing closing)

theorem guarded_step (step : s.Step cfg l s') (guarded : s.Guarded) : s'.Guarded := by
  intro u th found
  cases step_turn step with
  | @call op first begins new =>
    subst new
    rw [List.getElem?_append] at found
    split at found
    · obtain ⟨exclusive, opened, closing, enters⟩ := guarded u th found
      exact ⟨exclusive, opened, closing, enters⟩
    · obtain rfl := mem_singleton.mp (mem_of_getElem? found)
      obtain ⟨exclusive, opened, closing, enters⟩ := guard_begin (t := u) begins
      exact ⟨exclusive, opened, closing, enters⟩
  | @turn t old new target before after others length goes =>
    have holder := guarded t old before
    by_cases here : u = t
    · subst here
      rw [after] at found
      cases found
      exact guard_goes holder goes
    · obtain ⟨th₀, found₀, kept⟩ := others u th here found
      rcases kept with same | ⟨-, woken⟩
      · rw [same]
        exact holder.other goes here (guarded u th₀ found₀)
      · rw [woken]
        exact .of_free rfl nofun (fun _ same => by cases same; rfl)

theorem guarded_init (start : (pool cfg).init s) : s.Guarded := by
  intro t th found
  obtain ⟨n, new⟩ := pool_init start
  rw [new.threads] at found
  obtain rfl := mem_singleton.mp (mem_of_getElem? found)
  exact .of_free rfl nofun nofun

end

/-! ## A small pool -/

def smallConfig (hasPing : Bool) : Config where
  maxIdleCnt := 1
  maxConnCap := 1
  maxIdleTime := 100
  maxConnLifetime := 0
  hasPing := hasPing
  room := Nat.le_refl 1

def smallPool : State where
  connCnt := 0
  idleConns := []
  pcs _ := {}
  pcCnt := 0
  closes := []
  threads := [{ pc := .free .select }]

theorem smallPool_init (hasPing : Bool) : (pool (smallConfig hasPing)).init smallPool :=
  ⟨0, 1, 1, 100, some fun _ => .ok 0, hasPing, [], rfl⟩

def steps (t n : Nat) : List Label := List.replicate n (.run t {})

def getRun : List Label := .call .get :: steps 1 8

def releaseRun (t : Nat) : List Label :=
  .call .release :: steps t 5 ++ [.run 0 { ok := false }] ++ steps t 4

end Soil.Pool
