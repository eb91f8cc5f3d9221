import Soil.Net.StreamTokens

/-!
# The invariant of a client stream
-/

namespace Soil.Net

open List State Kind

section

variable {lim : Limits} {s s' : State} {t w : Nat} {th th' x : Thread} {pc : PC} {d : Delivery}
  {l : Label}

/-! ## Registration behind a step -/

theorem Thread.Goes.phase (goes : th.Goes lim s pc) (fits : s.Fits t th.kind th.pc) :
    (pc.Inside → th.kind.waitID = none ∨ th.pc.Inside) ∧ (pc.Early → th.pc.Early) := by
  cases goes with
  | begin at_ =>
    rw [at_]
    refine ⟨fun inside => .inl ?_, fun _ => trivial⟩
    unfold Thread.begin at inside
    split at inside
    · split at inside <;> exact inside.elim
    · split at inside <;> exact inside.elim
    · rename_i kind
      rw [kind]
      rfl
    · exact inside.elim
  | alive at_ =>
    rw [at_]
    refine ⟨fun inside => .inl ?_, fun _ => trivial⟩
    unfold Thread.afterAlive at inside
    split at inside
    · split at inside
      · exact inside.elim
      · split at inside
        · simp [waitID, *]
        · exact inside.elim
    · rw [at_] at inside
      exact inside.elim
  | wrote at_ =>
    rw [at_]
    refine ⟨fun _ => .inr trivial, fun early => ?_⟩
    unfold Thread.afterWrite leave at early
    split at early <;> first
      | exact early.elim
      | (split at early <;> first | exact early.elim | (split at early <;> exact early.elim))
  | failed at_ =>
    refine ⟨fun _ => .inr ?_, fun early => ?_⟩
    · rcases at_ with at_ | at_ <;> rw [at_] <;> trivial
    · unfold afterFail leave at early
      split at early <;> first | exact early.elim | (split at early <;> exact early.elim)
  | broken at_ =>
    rw [at_] at fits
    refine ⟨fun _ => .inl ?_, fun early => early.elim⟩
    rw [fits]
    rfl
  | refuse | unmatched => exact ⟨fun inside => inside.elim, fun early => early.elim⟩
  | invalid at_ | expire at_ =>
    rw [at_]
    exact ⟨fun _ => .inr trivial, fun early => early.elim⟩

theorem Thread.Goes.inside (goes : th.Goes lim s pc) (within : th.pc.Inside)
    (waits : th.kind.waitID ≠ none) : pc.Inside := by
  have leave (ret : Ret) : (th.kind.leave ret).Inside := by
    unfold leave
    split
    · trivial
    · exact absurd ‹_› waits
  cases goes with
  | wrote at_ =>
    unfold Thread.afterWrite
    split
    · rename_i kind
      exact absurd (by rw [kind]; rfl) waits
    · rename_i kind
      exact absurd (by rw [kind]; rfl) waits
    · trivial
    · trivial
    · split
      · exact absurd (by simp [waitID, *]) waits
      · trivial
    · split
      · exact leave _
      · trivial
  | failed at_ =>
    unfold afterFail
    split
    · exact leave _
    · exact leave _
    · rename_i kind
      exact absurd (by rw [kind]; rfl) waits
    · rename_i kind
      exact absurd (by rw [kind]; rfl) waits
  | invalid | expire | broken => trivial
  | begin at_ | alive at_ | refuse at_ | unmatched at_ =>
    rw [at_] at within
    exact within.elim

variable {id : UInt64}

theorem State.Step.inside (step : s.Step lim t th l pc s') (within : th.pc.Inside)
    (waits : th.kind.waitID = some id) : pc.Inside ∨ s'.pending = s.pending.filter (·.1 ≠ id) := by
  cases step with
  | cancel => exact .inl within
  | goes goes => exact .inl (goes.inside within (by simp [waits]))
  | writes writes =>
    generalize th.pc = old at writes
    cases writes <;> exact .inl trivial
  | unregister at_ waits' =>
    cases waits.symm.trans waits'
    exact .inr rfl
  | register | fail | close | failSend | take => exact .inl trivial
  | recv at_ | dispatch at_ | send at_ =>
    rw [at_] at within
    exact within.elim

theorem onFrame_early (f : Frame) (n : Nat) : ¬ (onFrame f n).Early := by
  unfold onFrame
  repeat' split
  all_goals exact id

theorem State.Step.phase (step : s.Step lim t th l pc s') (fits : s.Fits t th.kind th.pc) :
    (pc.Inside → th.pc.registers pc = true ∨ th.kind.waitID = none ∨ th.pc.Inside) ∧
      (pc.Early → th.pc.Early) := by
  cases step with
  | cancel => exact ⟨fun inside => .inr (.inr inside), id⟩
  | goes goes => exact ⟨fun inside => .inr ((goes.phase fits).1 inside), (goes.phase fits).2⟩
  | writes writes =>
    generalize th.pc = old at writes
    cases writes <;> exact ⟨fun _ => .inr (.inr trivial), fun early => early.elim⟩
  | register at_ =>
    rw [at_]
    exact ⟨fun _ => .inl rfl, fun early => early.elim⟩
  | fail at_ | close at_ | failSend at_ | take at_ =>
    rw [at_]
    exact ⟨fun _ => .inr (.inr trivial), fun early => early.elim⟩
  | unregister | dispatch | send => exact ⟨fun inside => inside.elim, fun early => early.elim⟩
  | recv at_ =>
    rw [at_] at fits
    refine ⟨fun _ => .inr (.inl ?_), fun early => (onFrame_early _ _ early).elim⟩
    rw [fits]
    rfl

theorem State.Step.registers_waits (step : s.Step lim t th l pc s')
    (registers : th.pc.registers pc = true) : th.kind.waitID ≠ none := by
  cases step with
  | register at_ waits => simp [waits]
  | goes goes =>
    rw [goes.plain.2] at registers
    cases registers
  | writes writes =>
    generalize th.pc = old at writes registers
    cases writes <;> cases registers
  | cancel => cases at_ : th.pc <;> rw [at_] at registers <;> cases registers
  | fail at_ | close at_ | failSend at_ | take at_ | unregister at_ | dispatch at_ | send at_
  | recv at_ =>
    rw [at_] at registers
    cases registers

theorem PC.early_of_registers {old new : PC} (registers : old.registers new = true) :
    old.Early ∧ ¬ old.Inside ∧ ¬ new.Early := by
  cases old with
  | register =>
    cases new with
    | lock => exact ⟨trivial, id, id⟩
    | _ => cases registers
  | _ => cases registers

section

variable (inv : s.Inv) (found : s.threads[t]? = some th) (step : s.Step lim t th l pc s')
include inv found step

theorem State.Inv.account_self :
    s'.tokens t ≤ 1 ∧ (th.kind.waitID = none ∨ pc.Early → s'.tokens t = 0) ∧
      (∀ id, th.kind.waitID = some id → pc.Inside → s'.tokens t = 1) := by
  obtain ⟨inside, early⟩ := step.phase (inv.fits found)
  rcases inv.tokens_step found step t with ⟨stays, eq⟩ | ⟨registers, eq⟩ | ⟨⟨ret, rfl⟩, fewer, -⟩
  · rw [eq]
    refine ⟨inv.tokens t, fun fresh => inv.fresh found (fresh.imp id early), ?_⟩
    intro id waits within
    have within' : th.pc.Inside := by simpa [stays, waits] using inside within
    exact inv.registered found ⟨waits, within'⟩
  · obtain ⟨early', -, late⟩ := PC.early_of_registers registers
    have zero := inv.fresh found (.inr early')
    rw [if_pos rfl, zero] at eq
    refine ⟨by omega, ?_, fun _ _ _ => by omega⟩
    rintro (never | early)
    · exact absurd never (step.registers_waits registers)
    · exact absurd early late
  · refine ⟨fewer.trans (inv.tokens t), fun fresh => ?_, fun _ _ within => within.elim⟩
    have zero := inv.fresh found (fresh.imp id early)
    omega

theorem State.Inv.tokens_other (other : w ≠ t) : s'.tokens w = s.tokens w := by
  rcases inv.tokens_step found step w with ⟨-, eq⟩ | ⟨-, eq⟩ | ⟨-, -, eq⟩
  · exact eq
  · simpa [other] using eq
  · exact eq other

theorem State.Inv.account_step (found' : s'.threads[w]? = some th') :
    s'.tokens w ≤ 1 ∧ (th'.Fresh → s'.tokens w = 0) ∧
      (∀ id, th'.Registered id → s'.tokens w = 1) := by
  obtain ⟨old, before, kind, pc'⟩ := step.thread found found'
  by_cases self : w = t
  · subst self
    cases found.symm.trans before
    rw [if_pos rfl] at pc'
    obtain ⟨bound, fresh, registered⟩ := inv.account_self found step
    refine ⟨bound, fun fresh' => fresh ?_, fun id registered' => registered id ?_ ?_⟩
    · simpa [Thread.Fresh, kind, pc'] using fresh'
    · rw [← kind, registered'.1]
    · rw [← pc']
      exact registered'.2
  · rw [if_neg self] at pc'
    rw [inv.tokens_other found step self]
    refine ⟨inv.tokens w, fun fresh => inv.fresh before ?_, fun id registered => ?_⟩
    · simpa [Thread.Fresh, kind, pc'] using fresh
    · have registered' : old.Registered id := by
        simpa [Thread.Registered, kind, pc'] using registered
      exact inv.registered before registered'

end

/-! ## Frames behind a step -/

theorem onFrame_carries (f : Frame) (k n : Nat) :
    (onFrame f k).carries n ≤ if k = n then 1 else 0 := by
  unfold onFrame
  repeat' split
  all_goals simp [PC.carries, *]

def State.arrivals (s : State) (n : Nat) : Nat := s.log.countP (·.arrival = some n)

theorem State.Step.copies_le (step : s.Step lim t th l pc s') (found : s.threads[t]? = some th)
    (n more : Nat) (local_ : pc.carries n + s'.arrivals n ≤ th.pc.carries n + s.arrivals n + more) :
    s'.copies n ≤ s.copies n + more := by
  have sum := step.sum found (PC.carries n)
  unfold copies
  unfold arrivals at local_
  omega

theorem State.Inv.copies_step (inv : s.Inv) (found : s.threads[t]? = some th)
    (step : s.Step lim t th l pc s') (n : Nat) :
    s'.copies n ≤ s.copies n ∧ s'.received.length = s.received.length ∨
      s'.copies n ≤ s.copies n + (if s.received.length = n then 1 else 0) ∧
        s'.received.length = s.received.length + 1 := by
  have whole := step
  cases step with
  | @recv f at_ =>
    refine .inr ⟨whole.copies_le found n _ ?_, by simp⟩
    have new := onFrame_carries f s.received.length n
    rw [at_]
    change _ + s.arrivals n ≤ 0 + s.arrivals n + _
    omega
  | failSend at_ taken =>
    refine .inl ⟨whole.copies_le found n 0 ?_, rfl⟩
    unfold arrivals
    rw [inv.deliver_log found (holds_of_taken at_ taken), at_, countP_append]
    simp [PC.carries]
  | send at_ =>
    refine .inl ⟨whole.copies_le found n 0 ?_, rfl⟩
    unfold arrivals
    rw [inv.deliver_log found (holds_of_send at_), at_, countP_append, countP_singleton]
    simp [PC.carries]
    omega
  | goes goes =>
    refine .inl ⟨whole.copies_le found n 0 ?_, rfl⟩
    rw [goes.plain.1.carries]
    exact Nat.add_le_add_right (Nat.zero_le _) _
  | writes writes =>
    refine .inl ⟨whole.copies_le found n 0 ?_, rfl⟩
    rw [writes.plain.2.1.carries]
    exact Nat.add_le_add_right (Nat.zero_le _) _
  | cancel => exact .inl ⟨whole.copies_le found n 0 le_rfl, rfl⟩
  | register at_ | fail at_ | close at_ | take at_ | unregister at_ | dispatch at_ =>
    refine .inl ⟨whole.copies_le found n 0 ?_, rfl⟩
    rw [at_]
    exact le_rfl

/-! ## Places, results and entries behind a step -/

theorem Thread.Goes.fits (goes : th.Goes lim s pc) (fits : s.Fits t th.kind th.pc) :
    s.Fits t th.kind pc := by
  cases goes with
  | begin at_ =>
    unfold Thread.begin
    split
    · split <;> simp [State.Fits]
    · rename_i kind
      split <;> simp [State.Fits, kind, waitID]
    · trivial
    · rename_i kind
      exact kind
  | alive at_ =>
    unfold Thread.afterAlive
    split
    · rename_i req kind
      split
      · simp [State.Fits]
      · split
        · trivial
        · rw [kind]
          simpa [State.Fits, waitID] using ‹¬ req.oneWay = true›
    · rw [at_]
      trivial
  | wrote at_ =>
    unfold Thread.afterWrite
    split
    · rename_i kind
      exact kind
    · simp [State.Fits]
    · trivial
    · trivial
    · rename_i req kind
      split
      · intro r eq
        cases eq
        exact ⟨req, kind, by simp [*]⟩
      · trivial
    · split
      · unfold leave
        split <;> simp [State.Fits]
      · trivial
  | failed =>
    unfold afterFail leave
    split
    · split <;> simp [State.Fits]
    · split <;> simp [State.Fits]
    · simp [State.Fits]
    · simp [State.Fits]
  | unmatched at_ =>
    rw [at_] at fits
    exact fits.1
  | refuse | expire => simp [State.Fits]
  | invalid | broken => trivial

theorem onFrame_fits {f : Frame} {n : Nat} (arrived : s.received[n]? = some f) :
    s.Fits t .readLoop (onFrame f n) := by
  unfold onFrame
  repeat' split
  all_goals first | exact ⟨rfl, arrived⟩ | exact rfl | trivial

section

variable (found : s.threads[t]? = some th)
include found

theorem State.Inv.receive_fits (inv : s.Inv) {r : Result}
    (full : th.chan = some r) {resp : Response} (returned : th.receive r = .response resp) :
    s.Returns t th.kind resp := by
  obtain ⟨a, mem⟩ := inv.chan _ _ _ found full
  have genuine := inv.genuine mem
  unfold Thread.receive at returned
  split at returned
  · split at returned <;> cases returned
  rename_i f
  split at returned
  · rename_i req kind
    split at returned
    · cases returned
    cases returned
    refine ⟨req, kind, ?_⟩
    cases a with
    | none => exact genuine.elim
    | some n =>
      have waits : req.oneWay = false := by
        have waits := genuine.2
        simp only [State.waits, found, Option.bind_some, kind, waitID] at waits
        by_contra oneWay
        simp [oneWay] at waits
      rw [if_neg (by simp [waits])]
      exact ⟨n, f, mem, rfl⟩
  · split at returned <;> cases returned

theorem State.Inv.fits_step (inv : s.Inv)
    (step : s.Step lim t th l pc s') : s'.Fits t th.kind pc := by
  have later := step.later found
  have fits := inv.fits found
  cases step with
  | cancel => exact fits.later later
  | goes goes => exact (goes.fits fits).later later
  | writes writes =>
    generalize th.pc = old at writes
    cases writes <;> trivial
  | register => trivial
  | fail => exact ⟨rfl, rfl, fun w mem => mem⟩
  | close at_ =>
    rw [at_] at fits
    exact fits
  | failSend at_ =>
    rw [at_] at fits
    obtain ⟨closed, err, failed⟩ := fits
    exact ⟨closed, err, fun w mem => failed w (mem_of_mem_eraseIdx mem)⟩
  | take at_ full => exact fun r returned => (inv.receive_fits found full returned).later later
  | unregister at_ =>
    rw [at_] at fits
    exact fun r eq => (fits r eq).later later
  | recv at_ =>
    rw [at_] at fits
    rw [fits]
    apply onFrame_fits
    simp
  | dispatch at_ lookup =>
    rw [at_] at fits
    exact ⟨fits.1, fits.2, (later.waits _).trans (inv.waits_of_pending (mem_of_lookup lookup))⟩
  | send at_ =>
    rw [at_] at fits
    exact fits.1

theorem State.Inv.genuine_step (inv : s.Inv)
    (step : s.Step lim t th l pc s') (mem : d ∈ s'.log) : s'.Genuine d := by
  have later := step.later found
  have fits := inv.fits found
  cases step with
  | failSend at_ taken =>
    rw [inv.deliver_log found (holds_of_taken at_ taken)] at mem
    rcases mem_append.mp mem with mem | new
    · exact (inv.genuine mem).later later
    · rw [mem_singleton.mp new]
      rw [at_] at fits
      exact ⟨fits.1, fits.2.1, fits.2.2 _ (mem_of_getElem? taken)⟩
  | send at_ =>
    rw [inv.deliver_log found (holds_of_send at_)] at mem
    rcases mem_append.mp mem with mem | new
    · exact (inv.genuine mem).later later
    · rw [mem_singleton.mp new]
      rw [at_] at fits
      exact ⟨fits.2.1, (later.waits _).trans fits.2.2⟩
  | _ => exact (inv.genuine mem).later later

theorem State.Logged.setThread (logged : s.Logged)
    (chan : x.chan = th.chan ∨ x.chan = none) : (s.setThread t x).Logged := by
  intro w th' r found' full
  rcases setThread_thread found found' with ⟨rfl, rfl⟩ | ⟨-, found'⟩
  · rcases chan with same | empty
    · exact logged _ _ _ found (same ▸ full)
    · rw [empty] at full
      cases full
  · exact logged _ _ _ found' full

end

theorem State.Logged.deliver (logged : s.Logged) : (s.deliver d).Logged := by
  intro w th' r found' full
  obtain ⟨old, found, -, -, same | ⟨rfl, empty, new⟩⟩ := deliver_thread found'
  · rw [same] at full
    obtain ⟨a, mem⟩ := logged _ _ _ found full
    exact ⟨a, deliver_log_subset _ mem⟩
  · rw [new] at full
    cases full
    refine ⟨d.arrival, ?_⟩
    rw [deliver_log, if_pos (by simp [found, empty])]
    simp

theorem State.Inv.chan_step (inv : s.Inv) (found : s.threads[t]? = some th)
    (step : s.Step lim t th l pc s') : s'.Logged := by
  have goto (pc : PC) : (s.setThread t (th.goto pc)).Logged := inv.chan.setThread found (.inl rfl)
  cases step with
  | cancel =>
    apply inv.chan.setThread found
    exact .inl rfl
  | take =>
    apply inv.chan.setThread found
    exact .inr rfl
  | failSend | send =>
    apply State.Logged.deliver
    exact goto _
  | _ => exact goto _

theorem State.Inv.keys_step (inv : s.Inv) (step : s.Step lim t th l pc s') :
    (s'.pending.map Prod.fst).Nodup := by
  have keys := inv.keys
  cases step with
  | register _ _ _ unused =>
    refine nodup_cons.mpr ⟨fun mem => ?_, keys⟩
    obtain ⟨p, mem, eq⟩ := mem_map.mp mem
    exact unused p mem eq
  | fail => exact nodup_nil
  | unregister | dispatch => exact keys.sublist (filter_sublist.map Prod.fst)
  | _ => exact keys

variable {p : UInt64 × Nat}

theorem State.Step.pending_cases (step : s.Step lim t th l pc s') (mem : p ∈ s'.pending) :
    p ∈ s.pending ∨ p.2 = t ∧ th.kind.waitID = some p.1 ∧ pc.Inside := by
  cases step with
  | register _ waits =>
    rcases mem_cons.mp mem with rfl | mem
    · exact .inr ⟨rfl, waits, trivial⟩
    · exact .inl mem
  | fail => cases mem
  | unregister | dispatch => exact .inl (mem_of_mem_filter mem)
  | _ => exact .inl mem

theorem State.Step.exists_thread (step : s.Step lim t th l pc s') (found : s.threads[t]? = some th)
    {old : Thread} (before : s.threads[w]? = some old) : ∃ th', s'.threads[w]? = some th' ∧
      th'.kind = old.kind ∧ th'.pc = if w = t then pc else old.pc := by
  cases found' : s'.threads[w]? with
  | none =>
    rw [List.getElem?_eq_none_iff, step.length, ← List.getElem?_eq_none_iff, before] at found'
    cases found'
  | some th' =>
    obtain ⟨_, before', kind, pc'⟩ := step.thread found found'
    cases before.symm.trans before'
    exact ⟨th', rfl, kind, pc'⟩

theorem State.Inv.owned_step (inv : s.Inv) (found : s.threads[t]? = some th)
    (step : s.Step lim t th l pc s') (mem : p ∈ s'.pending) :
    ∃ th', s'.threads[p.2]? = some th' ∧ th'.Registered p.1 := by
  rcases step.pending_cases mem with old | ⟨self, waits, within⟩
  · obtain ⟨th₀, before, waits, within⟩ := inv.owned old
    obtain ⟨th', found', kind, pc'⟩ := step.exists_thread found before
    refine ⟨th', found', kind ▸ waits, ?_⟩
    rw [pc']
    split
    · rename_i self
      rw [self] at before
      cases found.symm.trans before
      rcases step.inside within waits with within | erased
      · exact within
      · rw [erased] at mem
        simp at mem
    · exact within
  · obtain ⟨th', found', kind, pc'⟩ := step.exists_thread found found
    refine ⟨th', self ▸ found', kind ▸ waits, ?_⟩
    rw [pc', if_pos rfl]
    exact within

theorem State.Inv.ended_step (inv : s.Inv) (step : s.Step lim t th l pc s')
    (closed : s'.closed = true) : s'.pending = [] := by
  cases step with
  | register _ _ opened =>
    rw [show s.closed = true from closed] at opened
    cases opened
  | fail => rfl
  | unregister | dispatch =>
    rw [erase_pending, setThread_pending, inv.ended closed]
    rfl
  | _ => exact inv.ended closed

theorem State.Inv.failed_step (inv : s.Inv) (found : s.threads[t]? = some th)
    (step : s.Step lim t th l pc s') (mem : w ∈ s'.failed) :
    s'.closed = true ∧ (0 < s'.failing w ∨ ∃ e, ⟨w, none, .err e⟩ ∈ s'.log) := by
  have later := step.later found
  have sum : s'.failing w + th.pc.fails w = s.failing w + pc.fails w := step.sum found (PC.fails w)
  have kept (old : w ∈ s.failed) (more : th.pc.fails w ≤ pc.fails w) :
      s'.closed = true ∧ (0 < s'.failing w ∨ ∃ e, ⟨w, none, .err e⟩ ∈ s'.log) := by
    obtain ⟨closed, held | ⟨e, mem⟩⟩ := inv.failed old
    · exact ⟨(later.ended closed).1, .inl (by omega)⟩
    · exact ⟨(later.ended closed).1, .inr ⟨e, later.log _ mem⟩⟩
  cases step with
  | @fail err at_ =>
    have taken : 0 < PC.fails w (.failClose err (s.pending.map Prod.snd)) :=
      count_pos_iff.mpr mem
    have none : th.pc.fails w = 0 := by
      rw [at_]
      rfl
    exact ⟨rfl, .inl (by omega)⟩
  | @failSend err waiters i waiter at_ taken =>
    by_cases sent : waiter = w
    · refine ⟨(inv.failed mem).1, .inr ⟨err, ?_⟩⟩
      rw [inv.deliver_log found (holds_of_taken at_ taken), sent]
      simp
    · refine kept mem ?_
      have count := count_eraseIdx taken w
      rw [if_neg sent] at count
      rw [at_]
      exact count.le
  | goes goes => exact kept mem (by rw [(goes.holds w).2]; exact Nat.zero_le _)
  | writes writes => exact kept mem (by rw [(writes.plain.1.holds w).2]; exact Nat.zero_le _)
  | cancel => exact kept mem le_rfl
  | register at_ | close at_ | take at_ | unregister at_ | recv at_ | dispatch at_ | send at_ =>
    refine kept mem ?_
    rw [at_]
    first | exact le_rfl | exact Nat.zero_le _

theorem State.Inv.step (inv : s.Inv) (found : s.threads[t]? = some th)
    (step : s.Step lim t th l pc s') : s'.Inv where
  distinct := by
    intro i j id first second
    rw [step.waits found] at first second
    exact inv.distinct first second
  fits := by
    intro w th' found'
    obtain ⟨old, before, kind, pc'⟩ := step.thread found found'
    rw [kind, pc']
    split
    · subst w
      cases found.symm.trans before
      exact inv.fits_step found step
    · exact (inv.fits before).later (step.later found)
  genuine := inv.genuine_step found step
  chan := inv.chan_step found step
  keys := inv.keys_step step
  owned := inv.owned_step found step
  ended := inv.ended_step step
  tokens := by
    intro w
    by_cases self : w = t
    · rw [self]
      exact (inv.account_self found step).1
    · rw [inv.tokens_other found step self]
      exact inv.tokens w
  missing := by
    intro w missing
    have missing' : s.threads[w]? = none := by
      rw [List.getElem?_eq_none_iff] at missing ⊢
      rw [← step.length]
      exact missing
    rw [inv.tokens_other found step fun self => by simp [← self, missing'] at found]
    exact inv.missing missing'
  fresh := fun found' => (inv.account_step found step found').2.1
  registered := fun found' => (inv.account_step found step found').2.2 _
  copies := by
    intro n
    rcases inv.copies_step found step n with ⟨fewer, -⟩ | ⟨more, -⟩
    · exact fewer.trans (inv.copies n)
    · split at more
      · have := inv.later (n := n) (by omega)
        omega
      · exact more.trans (inv.copies n)
  later := by
    intro n late
    rcases inv.copies_step found step n with ⟨fewer, same⟩ | ⟨more, new⟩
    · have := inv.later (n := n) (by omega)
      omega
    · have := inv.later (n := n) (by omega)
      rw [if_neg (by omega)] at more
      omega
  failed := inv.failed_step found step

/-! ## Initial states -/

variable {ops : List Kind}

theorem newStream_waits (waits : (newStream ops).waits t = some id) :
    ∃ i kind, t = i + 1 ∧ ops[i]? = some kind ∧ kind.waitID = some id := by
  cases t with
  | zero => simp [State.waits, newStream, waitID] at waits
  | succ i =>
    refine ⟨i, ?_⟩
    cases kind : ops[i]? with
    | none => simp [State.waits, newStream, kind] at waits
    | some kind' =>
      refine ⟨kind', rfl, rfl, ?_⟩
      simpa [State.waits, newStream, kind] using waits

theorem newStream_distinct (distinct : (ops.filterMap waitID).Nodup)
    {i j : Nat} (first : (newStream ops).waits i = some id)
    (second : (newStream ops).waits j = some id) : i = j := by
  obtain ⟨i, kind, rfl, at_, waits⟩ := newStream_waits first
  obtain ⟨j, kind', rfl, at_', waits'⟩ := newStream_waits second
  obtain ⟨inside, rfl⟩ := List.getElem?_eq_some_iff.mp at_
  obtain ⟨inside', rfl⟩ := List.getElem?_eq_some_iff.mp at_'
  have apart := pairwise_iff_getElem.mp (pairwise_filterMap.mp distinct)
  rcases Nat.lt_trichotomy i j with less | rfl | more
  · exact absurd rfl (apart i j inside inside' less id waits id waits')
  · rfl
  · exact absurd rfl (apart j i inside' inside more id waits' id waits)

theorem newStream_thread (found : (newStream ops).threads[t]? = some th) :
    th.pc = .start ∧ th.chan = none := by
  obtain ⟨-, -, rfl⟩ := mem_map.mp (mem_of_getElem? found)
  exact ⟨rfl, rfl⟩

theorem newStream_sum {f : PC → Nat} (zero : f .start = 0) :
    ((newStream ops).threads.map (f ·.pc)).sum = 0 := by
  apply sum_eq_zero
  intro k mem
  obtain ⟨th, started, rfl⟩ := mem_map.mp mem
  obtain ⟨-, -, rfl⟩ := mem_map.mp started
  exact zero

theorem newStream_inv (distinct : (ops.filterMap waitID).Nodup) : (newStream ops).Inv := by
  have tokens (w : Nat) : (newStream ops).tokens w = 0 := by
    unfold tokens held
    rw [newStream_sum (f := PC.holds w) rfl]
    rfl
  have copies (n : Nat) : (newStream ops).copies n = 0 := by
    unfold copies
    rw [newStream_sum (f := PC.carries n) rfl]
    rfl
  constructor
  case distinct => exact newStream_distinct distinct
  case fits =>
      intro t th found
      rw [(newStream_thread found).1]
      trivial
  case chan =>
      intro t th r found full
      rw [(newStream_thread found).2] at full
      cases full
  case registered =>
      intro w th id found registered
      have inside := registered.2
      rw [(newStream_thread found).1] at inside
      exact inside.elim
  case tokens => exact fun w => (tokens w).le.trans (Nat.zero_le 1)
  case copies => exact fun n => (copies n).le.trans (Nat.zero_le 1)
  case missing => exact fun _ => tokens _
  case fresh => exact fun _ _ => tokens _
  case later => exact fun _ => copies _
  case keys => exact nodup_nil
  case ended => exact fun _ => rfl
  case genuine => exact fun mem => nomatch mem
  case owned => exact fun mem => nomatch mem
  case failed => exact fun mem => nomatch mem

theorem stream_inv (distinct : (ops.filterMap waitID).Nodup)
    (reachable : (stream lim ops).Reachable System.Any s) : s.Inv := by
  apply reachable.induct
  · rintro s rfl
    exact newStream_inv distinct
  · intro s l s' inv _ step
    obtain ⟨t, th, pc, found, step⟩ := step_cases step
    exact inv.step found step
end

end Soil.Net
