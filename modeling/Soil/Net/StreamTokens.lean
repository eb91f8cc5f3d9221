import Soil.Basic
import Soil.Net.Stream

/-!
# Tokens of a client stream

Every registered waiter owns one token: its entry in `pending`, its place among the
channels `dispatch` or `failAll` have taken out of `pending` and not yet sent to, or the
result in its channel.  Steps move tokens and never copy them; the same holds of the
frames that arrived.  `State.Inv` says who has how many.
-/

namespace Soil.Net

open List State PC

/-! ## Waiters and their tokens -/

def State.waits (s : State) (t : Nat) : Option UInt64 := (s.threads[t]?).bind (·.kind.waitID)

def PC.fails (w : Nat) : PC → Nat
  | .failClose _ waiters | .failSend _ waiters => waiters.count w
  | _ => 0

def PC.holds (w : Nat) : PC → Nat
  | .send _ _ waiter => if waiter = w then 1 else 0
  | pc => pc.fails w

def PC.carries (n : Nat) : PC → Nat
  | .dispatch _ arrival | .send _ arrival _ => if arrival = n then 1 else 0
  | _ => 0

def State.failing (s : State) (w : Nat) : Nat := (s.threads.map (·.pc.fails w)).sum

def State.held (s : State) (w : Nat) : Nat := (s.threads.map (·.pc.holds w)).sum

def State.results (s : State) (w : Nat) : Nat := s.log.countP (·.waiter = w)

def State.tokens (s : State) (w : Nat) : Nat :=
  s.pending.countP (·.2 = w) + s.held w + s.results w

def State.copies (s : State) (n : Nat) : Nat :=
  (s.threads.map (·.pc.carries n)).sum + s.log.countP (·.arrival = some n)

def PC.Early : PC → Prop
  | .start | .alive | .register _ => True
  | _ => False

def PC.Inside : PC → Prop
  | .lock _ | .writing _ | .wrote _ | .failLock _ | .failClose _ _ | .failSend _ _ | .wait
  | .unregister _ => True
  | _ => False

def PC.Plain : PC → Prop
  | .failClose _ _ | .failSend _ _ | .dispatch _ _ | .send _ _ _ => False
  | _ => True

def PC.registers : PC → PC → Bool
  | .register _, .lock _ => true
  | _, _ => false

def Thread.Registered (th : Thread) (id : UInt64) : Prop :=
  th.kind.waitID = some id ∧ th.pc.Inside

def Thread.Fresh (th : Thread) : Prop := th.kind.waitID = none ∨ th.pc.Early

/-! ## The threads behind a step -/

section

variable {lim : Limits} {s s' : State} {t w : Nat} {th th' x : Thread} {pc : PC} {d : Delivery}
  {l : Label}

theorem setThread_get (found : s.threads[t]? = some th) :
    (s.setThread t x).threads[w]? = if w = t then some x else s.threads[w]? :=
  getElem?_set_of_some found w

theorem setThread_thread (found : s.threads[t]? = some th)
    (found' : (s.setThread t x).threads[w]? = some th') :
    w = t ∧ th' = x ∨ w ≠ t ∧ s.threads[w]? = some th' := by
  rw [setThread_get found] at found'
  split at found'
  · cases found'
    exact .inl ⟨‹_›, rfl⟩
  · exact .inr ⟨‹_›, found'⟩

theorem deliver_thread (found' : (s.deliver d).threads[w]? = some th') :
    ∃ old, s.threads[w]? = some old ∧ th'.kind = old.kind ∧ th'.pc = old.pc ∧
      (th'.chan = old.chan ∨ w = d.waiter ∧ old.chan = none ∧ th'.chan = some d.result) := by
  rw [deliver_threads, List.getElem?_modify] at found'
  obtain ⟨old, found, rfl⟩ := Option.map_eq_some_iff.mp found'
  refine ⟨old, found, ?_⟩
  by_cases here : d.waiter = w
  · cases chan : old.chan <;> simp [here]
  · simp [here]

section

variable (step : s.Step lim t th l pc s')
include step

theorem State.Step.threads_eq : ∃ x, (s'.threads = (s.setThread t x).threads ∨
        ∃ d, s'.threads = ((s.setThread t x).deliver d).threads) ∧
      x.kind = th.kind ∧ x.pc = pc ∧ (x.chan = th.chan ∨ x.chan = none) := by
  cases step with
  | failSend | send => exact ⟨_, .inr ⟨_, rfl⟩, rfl, rfl, .inl rfl⟩
  | take => exact ⟨_, .inl rfl, rfl, rfl, .inr rfl⟩
  | _ => exact ⟨_, .inl rfl, rfl, rfl, .inl rfl⟩

theorem State.Step.thread (found : s.threads[t]? = some th) (found' : s'.threads[w]? = some th') :
    ∃ old, s.threads[w]? = some old ∧ th'.kind = old.kind ∧
      th'.pc = if w = t then pc else old.pc := by
  obtain ⟨x, threads | ⟨d, threads⟩, kind, rfl, -⟩ := step.threads_eq
  · rw [threads] at found'
    rcases setThread_thread found found' with ⟨rfl, rfl⟩ | ⟨other, found'⟩
    · exact ⟨th, found, kind, by simp⟩
    · exact ⟨th', found', rfl, by simp [other]⟩
  · rw [threads] at found'
    obtain ⟨mid, found', kind', pc', -⟩ := deliver_thread found'
    rcases setThread_thread found found' with ⟨rfl, rfl⟩ | ⟨other, found'⟩
    · exact ⟨th, found, kind'.trans kind, by simp [pc']⟩
    · exact ⟨mid, found', kind', by simp [other, pc']⟩

theorem State.Step.length : s'.threads.length = s.threads.length := by
  obtain ⟨x, threads | ⟨d, threads⟩, -⟩ := step.threads_eq <;> simp [threads]

theorem State.Step.sum (found : s.threads[t]? = some th) (f : PC → Nat) :
    (s'.threads.map (f ·.pc)).sum + f th.pc = (s.threads.map (f ·.pc)).sum + f pc := by
  obtain ⟨x, threads | ⟨d, threads⟩, -, rfl, -⟩ := step.threads_eq
  · rw [threads]
    exact sum_map_set (fun th => f th.pc) found _
  · have unseen : ((s.setThread t x).deliver d).threads.map (f ·.pc) =
        (s.setThread t x).threads.map (f ·.pc) := map_modify_of_eq fun _ => rfl
    rw [threads, unseen]
    exact sum_map_set (fun th => f th.pc) found _

theorem State.Step.waits (found : s.threads[t]? = some th) (w : Nat) : s'.waits w = s.waits w := by
  have kinds : s'.threads.map Thread.kind = s.threads.map Thread.kind := by
    obtain ⟨x, threads | ⟨d, threads⟩, kind, -, -⟩ := step.threads_eq
    · rw [threads]
      exact map_set_of_eq found kind
    · have unseen : ((s.setThread t x).deliver d).threads.map Thread.kind =
          (s.setThread t x).threads.map Thread.kind := map_modify_of_eq fun _ => rfl
      rw [threads, unseen]
      exact map_set_of_eq found kind
  have waits (u : State) : u.waits w = ((u.threads.map Thread.kind)[w]?).bind Kind.waitID := by
    simp [State.waits, Option.bind_map]
  rw [waits, waits, kinds]

end

/-! ## What never changes back -/

structure State.Later (s s' : State) : Prop where
  waits : ∀ w, s'.waits w = s.waits w
  received : s.received <+: s'.received
  log : ∀ d ∈ s.log, d ∈ s'.log
  ended : s.closed = true →
    s'.closed = true ∧ s'.closeErr = s.closeErr ∧ s'.failed = s.failed

theorem deliver_log_subset : ∀ e ∈ s.log, e ∈ (s.deliver d).log := by
  intro e mem
  rw [deliver_log]
  split
  · exact mem_append_left _ mem
  · exact mem

theorem State.Step.later (step : s.Step lim t th l pc s') (found : s.threads[t]? = some th) :
    s.Later s' := by
  have waits := step.waits found
  cases step with
  | fail pc opened =>
    refine ⟨waits, prefix_rfl, fun _ mem => mem, fun closed => ?_⟩
    rw [opened] at closed
    cases closed
  | failSend | send =>
    refine ⟨waits, prefix_rfl, fun e mem => ?_, fun closed => ⟨closed, rfl, rfl⟩⟩
    apply deliver_log_subset
    exact mem
  | recv =>
    exact ⟨waits, prefix_append _ _, fun _ mem => mem, fun closed => ⟨closed, rfl, rfl⟩⟩
  | _ => exact ⟨waits, prefix_rfl, fun _ mem => mem, fun closed => ⟨closed, rfl, rfl⟩⟩

variable {f : Frame}

theorem State.Later.arrived (later : s.Later s') {n : Nat}
    (arrived : s.received[n]? = some f) : s'.received[n]? = some f := by
  obtain ⟨more, eq⟩ := later.received
  obtain ⟨inside, -⟩ := List.getElem?_eq_some_iff.mp arrived
  rw [← eq, List.getElem?_append_left inside, arrived]

/-! ## Where goroutines are, and what they hold -/

def State.Returns (s : State) (t : Nat) (kind : Kind) (r : Response) : Prop :=
  ∃ req, kind = .call req ∧
    if req.oneWay then r = { requestID := req.requestID }
    else ∃ n f, ⟨t, some n, .frame f⟩ ∈ s.log ∧ r = ⟨f.requestID, f.header, f.body⟩

def State.Fits (s : State) (t : Nat) (kind : Kind) : PC → Prop
  | .register _ => kind.waitID ≠ none
  | .read => kind = .readLoop
  | .dispatch f n => kind = .readLoop ∧ s.received[n]? = some f
  | .send f n w => kind = .readLoop ∧ s.received[n]? = some f ∧ s.waits w = some f.requestID
  | .failClose e ws | .failSend e ws =>
    s.closed = true ∧ s.closeErr = some e ∧ ∀ w ∈ ws, w ∈ s.failed
  | .unregister ret | .done ret => ∀ r, ret = .response r → s.Returns t kind r
  | _ => True

def State.Genuine (s : State) : Delivery → Prop
  | ⟨w, some n, .frame f⟩ => s.received[n]? = some f ∧ s.waits w = some f.requestID
  | ⟨w, none, .err e⟩ => s.closed = true ∧ s.closeErr = some e ∧ w ∈ s.failed
  | _ => False

variable {kind : Kind}

theorem State.Returns.later {r : Response} (returns : s.Returns t kind r)
    (later : s.Later s') : s'.Returns t kind r := by
  obtain ⟨req, call, from_⟩ := returns
  refine ⟨req, call, ?_⟩
  split at from_
  · rw [if_pos ‹_›]
    exact from_
  · rw [if_neg ‹_›]
    obtain ⟨n, f, mem, eq⟩ := from_
    exact ⟨n, f, later.log _ mem, eq⟩

theorem State.Fits.later (fits : s.Fits t kind pc) (later : s.Later s') : s'.Fits t kind pc := by
  cases pc with
  | dispatch => exact ⟨fits.1, later.arrived fits.2⟩
  | send f n w => exact ⟨fits.1, later.arrived fits.2.1, (later.waits w).trans fits.2.2⟩
  | failClose | failSend =>
    obtain ⟨closed, err, failed⟩ := fits
    obtain ⟨closed', err', failed'⟩ := later.ended closed
    exact ⟨closed', err'.trans err, fun w mem => failed' ▸ failed w mem⟩
  | unregister | done => exact fun r eq => (fits r eq).later later
  | _ => exact fits

theorem State.Genuine.later (genuine : s.Genuine d) (later : s.Later s') : s'.Genuine d := by
  obtain ⟨w, arrival, result⟩ := d
  cases arrival with
  | some =>
    cases result with
    | frame => exact ⟨later.arrived genuine.1, (later.waits w).trans genuine.2⟩
    | err => exact genuine.elim
  | none =>
    cases result with
    | frame => exact genuine.elim
    | err =>
      obtain ⟨closed, err, failed⟩ := genuine
      obtain ⟨closed', err', failed'⟩ := later.ended closed
      exact ⟨closed', err'.trans err, failed' ▸ failed⟩

def State.Logged (s : State) : Prop :=
  ∀ t th r, s.threads[t]? = some th → th.chan = some r → ∃ a, ⟨t, a, r⟩ ∈ s.log

/-! ## The invariant -/

structure State.Inv (s : State) : Prop where
  distinct : ∀ {i j id}, s.waits i = some id → s.waits j = some id → i = j
  fits : ∀ {t th}, s.threads[t]? = some th → s.Fits t th.kind th.pc
  genuine : ∀ {d}, d ∈ s.log → s.Genuine d
  chan : s.Logged
  keys : (s.pending.map Prod.fst).Nodup
  owned : ∀ {p}, p ∈ s.pending → ∃ th, s.threads[p.2]? = some th ∧ th.Registered p.1
  ended : s.closed = true → s.pending = []
  tokens : ∀ w, s.tokens w ≤ 1
  missing : ∀ {w}, s.threads[w]? = none → s.tokens w = 0
  fresh : ∀ {w th}, s.threads[w]? = some th → th.Fresh → s.tokens w = 0
  registered : ∀ {w th id}, s.threads[w]? = some th → th.Registered id → s.tokens w = 1
  copies : ∀ n, s.copies n ≤ 1
  later : ∀ {n}, s.received.length ≤ n → s.copies n = 0
  failed : ∀ {w}, w ∈ s.failed →
    s.closed = true ∧ (0 < s.failing w ∨ ∃ e, ⟨w, none, .err e⟩ ∈ s.log)

theorem State.Inv.waits_of_pending (inv : s.Inv) {p : UInt64 × Nat} (mem : p ∈ s.pending) :
    s.waits p.2 = some p.1 := by
  obtain ⟨th, found, registered⟩ := inv.owned mem
  simp [waits, found, registered.1]

theorem State.Inv.accepts (inv : s.Inv) (found : s.threads[t]? = some th)
    (holds : 0 < th.pc.holds w) : ∃ old, s.threads[w]? = some old ∧ old.chan = none := by
  have share : th.pc.holds w ≤ s.held w := le_sum_map (fun th => th.pc.holds w) found
  have bound := inv.tokens w
  unfold State.tokens at bound
  cases waiter : s.threads[w]? with
  | none =>
    have none := inv.missing waiter
    unfold State.tokens at none
    omega
  | some old =>
    refine ⟨old, rfl, ?_⟩
    by_contra full
    obtain ⟨r, full⟩ := Option.ne_none_iff_exists'.mp full
    obtain ⟨a, mem⟩ := inv.chan _ _ _ waiter full
    have counted : 0 < s.results w := countP_pos_iff.mpr ⟨_, mem, by simp⟩
    omega

theorem State.Inv.deliver_log (inv : s.Inv) (found : s.threads[t]? = some th)
    (holds : 0 < th.pc.holds w) {arrival : Option Nat} {result : Result} :
    ((s.setThread t (th.goto pc)).deliver ⟨w, arrival, result⟩).log =
      s.log ++ [⟨w, arrival, result⟩] := by
  obtain ⟨old, waiter, empty⟩ := inv.accepts found holds
  rw [State.deliver_log, if_pos, State.setThread_log]
  rw [setThread_get found]
  split
  · rename_i self
    subst self
    cases found.symm.trans waiter
    simp [empty]
  · simp [waiter, empty]

/-! ## Tokens behind a step -/

theorem PC.Plain.holds (plain : pc.Plain) (w : Nat) : pc.holds w = 0 ∧ pc.fails w = 0 := by
  cases pc <;> first | exact ⟨rfl, rfl⟩ | exact plain.elim

theorem PC.Plain.carries (plain : pc.Plain) (n : Nat) : pc.carries n = 0 := by
  cases pc <;> first | rfl | exact plain.elim

theorem PC.registers_self (pc : PC) : pc.registers pc = false := by
  cases pc <;> rfl

theorem Thread.Goes.plain (goes : th.Goes lim s pc) : pc.Plain ∧ th.pc.registers pc = false := by
  cases goes with
  | begin at_ =>
    rw [at_]
    unfold Thread.begin
    split <;> [split; split; skip; skip] <;> exact ⟨trivial, rfl⟩
  | alive at_ =>
    unfold Thread.afterAlive
    rw [at_]
    split <;> [(split <;> [skip; split]); skip] <;> exact ⟨trivial, rfl⟩
  | wrote at_ =>
    rw [at_]
    unfold Thread.afterWrite Kind.leave
    split <;> first
      | exact ⟨trivial, rfl⟩
      | (split <;> first | exact ⟨trivial, rfl⟩ | (split <;> exact ⟨trivial, rfl⟩))
  | failed at_ =>
    unfold Kind.afterFail Kind.leave
    rcases at_ with at_ | at_ <;> rw [at_] <;> split <;> first
      | exact ⟨trivial, rfl⟩
      | (split <;> exact ⟨trivial, rfl⟩)
  | refuse at_ | invalid at_ | expire at_ | unmatched at_ | broken at_ =>
    rw [at_]
    exact ⟨trivial, rfl⟩

theorem Thread.Goes.holds (goes : th.Goes lim s pc) (w : Nat) :
    th.pc.holds w = 0 ∧ th.pc.fails w = 0 := by
  cases goes with
  | failed at_ => rcases at_ with at_ | at_ <;> rw [at_] <;> exact ⟨rfl, rfl⟩
  | begin at_ | alive at_ | wrote at_ | refuse at_ | invalid at_ | expire at_ | unmatched at_
  | broken at_ =>
    rw [at_]
    exact ⟨rfl, rfl⟩

theorem Writes.plain {w w' : Wire Byte} {act : Act} {old : PC}
    (writes : Writes lim w t act old pc w') : old.Plain ∧ pc.Plain ∧ old.registers pc = false := by
  cases writes <;> exact ⟨trivial, trivial, rfl⟩

theorem onFrame_holds (f : Frame) (n w : Nat) : (onFrame f n).holds w = 0 := by
  unfold onFrame
  repeat' split
  all_goals rfl

theorem countP_erase_lookup {α : Type} {xs : List (UInt64 × α)} (keys : (xs.map Prod.fst).Nodup)
    {k : UInt64} {v : α} (found : xs.lookup k = some v) (p : UInt64 × α → Bool) :
    xs.countP p = (xs.filter (·.1 ≠ k)).countP p + if p (k, v) then 1 else 0 := by
  induction xs with
  | nil => simp at found
  | cons x xs ih =>
    obtain ⟨key, value⟩ := x
    simp only [map_cons, nodup_cons] at keys
    by_cases here : k = key
    · subst here
      have same : value = v := by simpa using found
      have rest : xs.filter (·.1 ≠ k) = xs := by
        apply filter_eq_self.mpr
        intro x mem
        refine decide_eq_true fun same => keys.1 ?_
        rw [← same]
        exact mem_map_of_mem mem
      rw [filter_cons_of_neg (by simp), rest, countP_cons, same]
    · have found' : xs.lookup k = some v := by
        simpa [lookup_cons, beq_eq_false_iff_ne.mpr here] using found
      rw [filter_cons_of_pos (by simpa using Ne.symm here), countP_cons,
        countP_cons, ih keys.2 found']
      omega

theorem count_eraseIdx {xs : List Nat} {i a : Nat} (at_ : xs[i]? = some a) (w : Nat) :
    xs.count w = (xs.eraseIdx i).count w + if a = w then 1 else 0 := by
  induction xs generalizing i with
  | nil => simp at at_
  | cons x xs ih =>
    cases i with
    | zero =>
      obtain rfl : x = a := by simpa using at_
      simp [count_cons]
    | succ =>
      have := ih (by simpa using at_)
      simp only [eraseIdx_cons_succ, count_cons]
      omega

theorem State.Inv.countP_erase (inv : s.Inv) (found : s.threads[t]? = some th) {id : UInt64}
    (waits : th.kind.waitID = some id) (other : w ≠ t) :
    (s.pending.filter (·.1 ≠ id)).countP (·.2 = w) = s.pending.countP (·.2 = w) := by
  rw [countP_filter]
  apply countP_congr
  intro p mem
  have self : s.waits t = some id := by simp [State.waits, found, waits]
  simp only [Bool.and_eq_true, decide_eq_true_eq, and_iff_left_iff_imp]
  rintro rfl same
  have owner := inv.waits_of_pending mem
  rw [same] at owner
  exact other (inv.distinct owner self)

def State.share (s : State) (pc : PC) (w : Nat) : Nat :=
  s.pending.countP (·.2 = w) + pc.holds w + s.results w

theorem State.Step.tokens_share (step : s.Step lim t th l pc s') (found : s.threads[t]? = some th)
    (w : Nat) : s'.tokens w + s.share th.pc w = s.tokens w + s'.share pc w := by
  have sum : s'.held w + th.pc.holds w = s.held w + pc.holds w := step.sum found (holds w)
  unfold tokens share
  omega

theorem State.share_sent {pc' : PC} (pending : s'.pending = s.pending)
    (log : s'.log = s.log ++ [d]) (holds : pc.holds w = pc'.holds w + if d.waiter = w then 1 else
      0) : s'.share pc' w = s.share pc w := by
  unfold share results
  rw [pending, log, countP_append, countP_singleton]
  simp only [decide_eq_true_eq]
  omega

theorem holds_of_taken {err : StreamErr} {waiters : List Nat} {i waiter : Nat}
    (at_ : th.pc = .failSend err waiters) (taken : waiters[i]? = some waiter) :
    0 < th.pc.holds waiter := by
  rw [at_]
  exact count_pos_iff.mpr (mem_of_getElem? taken)

theorem holds_of_send {arrival waiter : Nat} (at_ : th.pc = .send f arrival waiter) :
    0 < th.pc.holds waiter := by
  rw [at_]
  simp [holds]

theorem State.Inv.share_step (inv : s.Inv) (found : s.threads[t]? = some th)
    (step : s.Step lim t th l pc s') (w : Nat) :
    th.pc.registers pc = false ∧ s'.share pc w = s.share th.pc w ∨
      th.pc.registers pc = true ∧ s'.share pc w = s.share th.pc w + (if w = t then 1 else 0) ∨
      (∃ ret, pc = .done ret) ∧ s'.share pc w ≤ s.share th.pc w ∧
        (w ≠ t → s'.share pc w = s.share th.pc w) := by
  cases step with
  | cancel => exact .inl ⟨th.pc.registers_self, rfl⟩
  | goes goes =>
    refine .inl ⟨goes.plain.2, ?_⟩
    unfold share
    rw [(goes.plain.1.holds w).1, (goes.holds w).1]
    rfl
  | writes writes =>
    obtain ⟨old, new, stays⟩ := writes.plain
    refine .inl ⟨stays, ?_⟩
    unfold share
    rw [(old.holds w).1, (new.holds w).1]
    rfl
  | close at_ | take at_ =>
    rw [at_]
    exact .inl ⟨rfl, rfl⟩
  | recv at_ =>
    rw [at_]
    refine .inl ⟨rfl, ?_⟩
    unfold share
    rw [onFrame_holds]
    rfl
  | fail at_ =>
    rw [at_]
    refine .inl ⟨rfl, ?_⟩
    have taken : (s.pending.map Prod.snd).count w = s.pending.countP (·.2 = w) := by
      rw [List.count, countP_map]
      rfl
    simp [share, results, holds, fails, taken]
  | dispatch at_ lookup =>
    rw [at_]
    refine .inl ⟨rfl, ?_⟩
    have erased := countP_erase_lookup inv.keys lookup (·.2 = w)
    simp only [share, results, erase_pending, erase_log, setThread_pending, setThread_log, erased]
    simp [holds, fails]
  | failSend at_ taken =>
    refine .inl ⟨by rw [at_]; rfl, ?_⟩
    refine share_sent rfl (inv.deliver_log found (holds_of_taken at_ taken)) ?_
    rw [at_]
    exact count_eraseIdx taken w
  | send at_ =>
    refine .inl ⟨by rw [at_]; rfl, ?_⟩
    refine share_sent rfl (inv.deliver_log found (holds_of_send at_)) ?_
    simp [at_, holds, fails]
  | register at_ =>
    rw [at_]
    refine .inr (.inl ⟨rfl, ?_⟩)
    simp only [share, results, countP_cons, decide_eq_true_eq, eq_comm (a := t)]
    simp only [holds, fails, setThread_log]
    omega
  | @unregister ret id at_ waits =>
    rw [at_]
    refine .inr (.inr ⟨⟨ret, rfl⟩, ?_⟩)
    simp only [share, results, erase_pending, erase_log,
      setThread_pending, setThread_log, holds, fails]
    have fewer : (s.pending.filter (·.1 ≠ id)).countP (·.2 = w) ≤ s.pending.countP (·.2 = w) :=
      filter_sublist.countP_le
    exact ⟨by omega, fun other => by rw [inv.countP_erase found waits other]⟩

theorem State.Inv.tokens_step (inv : s.Inv) (found : s.threads[t]? = some th)
    (step : s.Step lim t th l pc s') (w : Nat) :
    th.pc.registers pc = false ∧ s'.tokens w = s.tokens w ∨
      th.pc.registers pc = true ∧ s'.tokens w = s.tokens w + (if w = t then 1 else 0) ∨
      (∃ ret, pc = .done ret) ∧ s'.tokens w ≤ s.tokens w ∧ (w ≠ t → s'.tokens w = s.tokens w) := by
  have change := step.tokens_share found w
  rcases inv.share_step found step w with ⟨stays, eq⟩ | ⟨registers, eq⟩ | ⟨returns, fewer, eq⟩
  · exact .inl ⟨stays, by omega⟩
  · exact .inr (.inl ⟨registers, by omega⟩)
  · refine .inr (.inr ⟨returns, by omega, fun other => ?_⟩)
    have := eq other
    omega
end

end Soil.Net
