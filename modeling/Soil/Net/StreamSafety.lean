import Soil.Net.StreamInvariant

/-!
# Multiplexing safety of a client stream

What callers see of the tokens: a `Call` returns the frame that was delivered to it, under
its own id, and nothing is delivered twice or to two waiters.
-/

namespace Soil.Net

open List State Option

section

variable {lim : Limits} {s s' : State} {t w : Nat} {th : Thread} {pc : PC} {d : Delivery}
  {l : Label}

/-! ## `failAll` finishes -/

def PC.sends : PC → Nat
  | .failClose _ waiters => waiters.length + 1
  | .failSend _ waiters => waiters.length
  | _ => 0

def State.sends (s : State) : Nat := (s.threads.map (·.pc.sends)).sum

theorem State.failing_of_sends (none : s.sends = 0) (w : Nat) : s.failing w = 0 := by
  apply sum_eq_zero
  intro k mem
  obtain ⟨th, running, rfl⟩ := mem_map.mp mem
  have zero : th.pc.sends = 0 := sum_eq_zero_iff.mp none _ (mem_map_of_mem running)
  cases pc : th.pc with
  | failClose => simp [pc, PC.sends] at zero
  | failSend =>
    rw [pc] at zero
    simp [PC.fails, length_eq_zero_iff.mp zero]
  | _ => rfl

theorem State.exists_send (some_ : s.sends ≠ 0) (lim : Limits) :
    ∃ l s', s.step lim l = some s' ∧ s'.sends < s.sends := by
  obtain ⟨k, mem, positive⟩ : ∃ k ∈ s.threads.map (·.pc.sends), k ≠ 0 := by
    by_contra none
    push Not at none
    exact some_ (sum_eq_zero none)
  obtain ⟨th, running, rfl⟩ := mem_map.mp mem
  obtain ⟨t, found⟩ := List.getElem?_of_mem running
  have less {l : Label} {pc : PC} {s' : State} (step : s.Step lim t th l pc s')
      (fewer : pc.sends < th.pc.sends) :
      s'.sends < s.sends := by
    have sum : s'.sends + th.pc.sends = s.sends + pc.sends := step.sum found PC.sends
    omega
  cases at_ : th.pc with
  | failClose =>
    refine ⟨.run t .go, _, ?_, less (.close at_) ?_⟩
    · simp [step, found, run, at_]
    · simp [at_, PC.sends]
  | failSend err waiters =>
    cases waiters with
    | nil => simp [at_, PC.sends] at positive
    | cons =>
      refine ⟨.run t (.send 0), _, ?_, less (.failSend at_ (i := 0) rfl) ?_⟩
      · simp only [step, found, bind_some, run, at_]
        rfl
      · simp [at_, PC.sends]
  | _ => simp [at_, PC.sends] at positive

variable {ops : List Kind}

theorem failAll_finishes (s : State) :
    ∃ s', (stream lim ops).Run System.Any s s' ∧ s'.sends = 0 := by
  induction size : s.sends using Nat.strong_induction_on generalizing s with
  | _ n ih =>
    by_cases none : s.sends = 0
    · exact ⟨s, .refl s, none⟩
    · obtain ⟨l, next, step, less⟩ := exists_send none lim
      obtain ⟨s', run, done⟩ := ih next.sends (size ▸ less) next rfl
      exact ⟨s', ((System.Run.refl s).tail trivial step).trans run, done⟩

/-! ## Multiplexing safety -/

def State.Received (s : State) (t : Nat) : Prop := ∃ d ∈ s.log, d.waiter = t

def State.Taken (s : State) (t : Nat) : Prop := ∃ th ∈ s.threads, 0 < th.pc.holds t

structure State.Multiplexed (lim : Limits) (ops : List Kind) (s : State) : Prop where
  response : ∀ t th req r, s.threads[t]? = some th → th.kind = .call req →
    th.pc = .done (.response r) → r.requestID = req.requestID ∧
      (req.oneWay = false → ∃ n f, s.received[n]? = some f ∧ ⟨t, some n, .frame f⟩ ∈ s.log ∧
        f.requestID = req.requestID ∧ r = ⟨f.requestID, f.header, f.body⟩)
  frame_once : ∀ n, s.log.countP (·.arrival = some n) ≤ 1
  waiter_once : ∀ t, s.log.countP (·.waiter = t) ≤ 1
  pending_iff : ∀ id t, (id, t) ∈ s.pending ↔
    ∃ th, s.threads[t]? = some th ∧ th.Registered id ∧ ¬ s.Received t ∧ ¬ s.Taken t
  closed : s.closed = true → s.pending = [] ∧ ∀ t th f, s.threads[t]? = some th →
    th.pc = .register f → s.step lim (.run t .go) =
      some (s.setThread t (th.goto (.done (.err (s.closeErr.getD .connClosed)))))
  failed : ∀ w ∈ s.failed, (∃ th ∈ s.threads, 0 < th.pc.fails w) ∨
    ∃ e, s.closeErr = some e ∧ ⟨w, none, .err e⟩ ∈ s.log
  finishes : ∃ s', (stream lim ops).Run System.Any s s' ∧
    ∀ w ∈ s.failed, ∃ e, s.closeErr = some e ∧ ⟨w, none, .err e⟩ ∈ s'.log

theorem State.held_pos_iff : 0 < s.held w ↔ s.Taken w := by
  unfold held State.Taken
  rw [Nat.pos_iff_ne_zero, ne_eq, sum_eq_zero_iff]
  simp [Nat.pos_iff_ne_zero]

theorem State.failing_pos_iff : 0 < s.failing w ↔ ∃ th ∈ s.threads, 0 < th.pc.fails w := by
  unfold failing
  rw [Nat.pos_iff_ne_zero, ne_eq, sum_eq_zero_iff]
  simp [Nat.pos_iff_ne_zero]

theorem State.results_pos_iff : 0 < s.results w ↔ s.Received w := by
  unfold results State.Received
  rw [countP_pos_iff]
  simp

theorem State.Inv.pending_iff (inv : s.Inv) {id : UInt64} : (id, t) ∈ s.pending ↔
    ∃ th, s.threads[t]? = some th ∧ th.Registered id ∧ ¬ s.Received t ∧ ¬ s.Taken t := by
  rw [← State.held_pos_iff, ← State.results_pos_iff]
  constructor
  · intro mem
    obtain ⟨th, found, registered⟩ := inv.owned mem
    have counted : 0 < s.pending.countP (·.2 = t) := countP_pos_iff.mpr ⟨_, mem, by simp⟩
    have one : s.tokens t = 1 := inv.registered found registered
    unfold State.tokens at one
    exact ⟨th, found, registered, by omega, by omega⟩
  · rintro ⟨th, found, registered, noResult, notTaken⟩
    have one := inv.registered found registered
    unfold State.tokens at one
    have counted : 0 < s.pending.countP (·.2 = t) := by omega
    obtain ⟨p, mem, self⟩ := countP_pos_iff.mp counted
    have self : p.2 = t := by simpa using self
    have waits := inv.waits_of_pending mem
    simp only [State.waits, self, found, bind_some, registered.1, some.injEq] at waits
    rw [waits, ← self]
    exact mem

theorem State.Inv.response (inv : s.Inv) {req : Request} {r : Response}
    (found : s.threads[t]? = some th) (kind : th.kind = .call req)
    (returned : th.pc = .done (.response r)) : r.requestID = req.requestID ∧
      (req.oneWay = false → ∃ n f, s.received[n]? = some f ∧ ⟨t, some n, .frame f⟩ ∈ s.log ∧
        f.requestID = req.requestID ∧ r = ⟨f.requestID, f.header, f.body⟩) := by
  have fits := inv.fits found
  rw [returned] at fits
  obtain ⟨req', kind', from_⟩ := fits r rfl
  cases kind.symm.trans kind'
  cases oneWay : req.oneWay with
  | true =>
    rw [if_pos oneWay] at from_
    exact ⟨by rw [from_], fun contra => by cases contra⟩
  | false =>
    rw [if_neg (by simp [oneWay])] at from_
    obtain ⟨n, f, mem, rfl⟩ := from_
    obtain ⟨arrived, waits⟩ := inv.genuine mem
    simp only [State.waits, found, bind_some, kind, Kind.waitID, oneWay, Bool.false_eq_true,
      if_false, some.injEq] at waits
    exact ⟨waits.symm, fun _ => ⟨n, f, arrived, mem, waits.symm, rfl⟩⟩

theorem State.Inv.error (inv : s.Inv) {e : StreamErr} (mem : ⟨w, none, .err e⟩ ∈ s.log) :
    s.closeErr = some e := by
  have genuine : s.closed = true ∧ s.closeErr = some e ∧ w ∈ s.failed := inv.genuine mem
  exact genuine.2.1

theorem stream_closed (run : (stream lim ops).Run System.Any s s') (closed : s.closed = true) :
    s'.closed = true ∧ s'.closeErr = s.closeErr ∧ s'.failed = s.failed := by
  refine run.keeps (I := fun u => u.closed = true ∧ u.closeErr = s.closeErr ∧ u.failed = s.failed)
    ?_ ⟨closed, rfl, rfl⟩
  rintro u l u' ⟨closed, err, failed⟩ _ step
  obtain ⟨t, th, pc, found, step⟩ := step_cases step
  obtain ⟨closed', err', failed'⟩ := (step.later found).ended closed
  exact ⟨closed', err'.trans err, failed'.trans failed⟩

theorem stream_multiplexed {lim : Limits} {ops : List Kind} {s : State}
    (distinct : (ops.filterMap Kind.waitID).Nodup)
    (reachable : (stream lim ops).Reachable System.Any s) : s.Multiplexed lim ops := by
  have inv := stream_inv distinct reachable
  constructor
  case response => exact fun t th req r found kind returned => inv.response found kind returned
  case frame_once =>
      intro n
      have bound := inv.copies n
      unfold copies at bound
      omega
  case waiter_once =>
      intro t
      have bound := inv.tokens t
      unfold tokens results at bound
      omega
  case pending_iff => exact fun id t => inv.pending_iff
  case closed =>
      intro closed
      refine ⟨inv.ended closed, fun t th f found at_ => ?_⟩
      have fits := inv.fits found
      rw [at_] at fits
      obtain ⟨id, waits⟩ := ne_none_iff_exists'.mp fits
      simp [step, found, run, at_, waits, closed]
  case failed =>
      intro w mem
      obtain ⟨-, held | ⟨e, sent⟩⟩ := inv.failed mem
      · exact .inl (failing_pos_iff.mp held)
      · exact .inr ⟨e, inv.error sent, sent⟩
  case finishes =>
      obtain ⟨s', run, done⟩ := @failAll_finishes lim ops s
      have inv' := stream_inv distinct (reachable.run run)
      refine ⟨s', run, fun w mem => ?_⟩
      obtain ⟨-, err, failed⟩ := stream_closed run (inv.failed mem).1
      obtain ⟨-, held | ⟨e, sent⟩⟩ := inv'.failed (failed ▸ mem)
      · rw [failing_of_sends done] at held
        cases held
      · exact ⟨e, err ▸ inv'.error sent, sent⟩

end

/-! ## Runs of two operations -/

def callAndPing : List Kind := [.call { requestID := 7 }, .ping 8]

def dispatchRun : List Label :=
  [.run 0 .go, .run 1 .go, .run 1 .go, .run 1 .go, .run 1 .go, .run 1 (.accept 22), .run 1 .go,
    .run 1 .go, .run 0 (.recv (newFrame messageTypeResponse 7 [] [])), .run 0 .go]

theorem stream_multiplexed_answered : ∃ s, (stream {} callAndPing).Reachable System.Any s ∧
    s.log ≠ [] ∧ s.Multiplexed {} callAndPing := by
  obtain ⟨s, reachable, sent⟩ : ∃ s, (stream {} callAndPing).Reachable System.Any s ∧ s.log ≠ [] :=
    System.exists_reachable (dispatchRun ++ [.run 0 .go]) rfl (by decide)
  exact ⟨s, reachable, sent, stream_multiplexed (by decide) reachable⟩

/-- Between the two halves of `dispatch` a registered waiter has no result and is no longer in
`pending`. -/
theorem dispatch_leaves_waiter : ∃ s, (stream {} callAndPing).Reachable System.Any s ∧
    ¬ ∀ id t, (id, t) ∈ s.pending ↔
      ∃ th, s.threads[t]? = some th ∧ th.Registered id ∧ ¬ s.Received t := by
  obtain ⟨s, reachable, pending, log, waiting⟩ : ∃ s,
      (stream {} callAndPing).Reachable System.Any s ∧ s.pending = [] ∧ s.log = [] ∧
        s.threads[1]? = some { kind := .call { requestID := 7 }, pc := .wait } :=
    System.exists_reachable dispatchRun rfl (by decide)
  refine ⟨s, reachable, fun exact_ => ?_⟩
  have entry := (exact_ 7 1).mpr ⟨_, waiting, ⟨rfl, trivial⟩, by simp [State.Received, log]⟩
  rw [pending] at entry
  cases entry

end Soil.Net
