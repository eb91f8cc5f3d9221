import Soil.Net.Server

/-!
# The replies of the server

Every frame the loop reads asks for the replies `expects` names.  A goroutine that is to
answer a frame owes the reply until it has written it; a step passes the debt on, and a
finished write settles it.
-/

namespace Soil.Net.Server

open List State PC

/-! ## Replies asked for and owed -/

def key (f : Frame) : MessageType × UInt64 := (f.msgType, f.requestID)

def expects (f : Frame) : List (MessageType × UInt64) :=
  if f.msgType = messageTypePing ∨ f.msgType = messageTypeHeartbeat then
    [(messageTypePong, f.requestID)]
  else if f.msgType = messageTypeRequest ∧ f.isOneWay = false then
    [(messageTypeResponse, f.requestID)]
  else []

def PC.owes : PC → List (MessageType × UInt64)
  | .request f | .limit f | .handle f =>
    if f.isOneWay then [] else [(messageTypeResponse, f.requestID)]
  | .lock _ f | .writing _ f => [key f]
  | _ => []

def State.owed (s : State) : List (MessageType × UInt64) := s.threads.flatMap PC.owes

/-! ## Runs that answer -/

def State.steady (s : State) : Label → Bool
  | .force => false
  | .run t .fail => match s.threads[t]? with
      | some (.writing _ _) => false
      | _ => true
  | _ => true

def bodyFits (lim : Limits) (bs : List Byte) : Bool := UInt32.ofNat bs.length ≤ lim.maxBody

def Outcome.fits (lim : Limits) : Outcome → Bool
  | .panics | .returns none none => true
  | .returns _ (some err) => bodyFits lim err
  | .returns (some resp) none =>
    match resp.error with
    | some err => bodyFits lim err
    | none => UInt32.ofNat resp.header.length ≤ lim.maxHeader && bodyFits lim resp.body

def State.admissible (lim : Limits) (s : State) : Label → Bool
  | .run t .go => match s.threads[t]? with
      | some (.request f) => !(s.draining || s.closed) || !f.isOneWay
      | _ => true
  | .run t (.allow false) => match s.threads[t]? with
      | some (.limit f) => !f.isOneWay
      | _ => true
  | .run t (.outcome o) => match s.threads[t]? with
      | some (.handle f) => f.isOneWay || o.fits lim
      | _ => true
  | _ => true

def Steady (s : State) (l : Label) : Prop := s.steady l = true

def Answers (lim : Limits) (s : State) (l : Label) : Prop :=
  s.steady l = true ∧ s.admissible lim l = true

instance (s : State) (l : Label) : Decidable (Steady s l) :=
  inferInstanceAs (Decidable (s.steady l = true))

instance (lim : Limits) (s : State) (l : Label) : Decidable (Answers lim s l) :=
  inferInstanceAs (Decidable (s.steady l = true ∧ s.admissible lim l = true))

/-! ## Frames that pass the check -/

section

variable {lim : Limits} {id : UInt64}

theorem validate_newFrame {msgType : MessageType} {flags : UInt8} {header body : List Byte}
    (headerFits : UInt32.ofNat header.length ≤ lim.maxHeader) (fits : bodyFits lim body = true) :
    Frame.validate { newFrame msgType id header body with flags } lim = .ok () := by
  have fits : UInt32.ofNat body.length ≤ lim.maxBody := by simpa [bodyFits] using fits
  simp [Frame.validate, newFrame, UInt32.not_lt.mpr headerFits, UInt32.not_lt.mpr fits]

theorem validate_newErrorFrame {err : List Byte} (fits : bodyFits lim err = true) :
    (newErrorFrame id (some err)).validate lim = .ok () :=
  validate_newFrame (UInt32.zero_le) fits

theorem validate_pong : (newFrame messageTypePong id [] []).validate lim = .ok () :=
  validate_newFrame UInt32.zero_le (by simp [bodyFits])

theorem bodyFits_text (texts : 15 ≤ lim.maxBody.toNat) {bs : List Byte} (short : bs.length ≤ 15) :
    bodyFits lim bs = true := by
  simp only [bodyFits, decide_eq_true_eq, UInt32.le_iff_toNat_le, UInt32.toNat_ofNat']
  omega

theorem validate_response (texts : 15 ≤ lim.maxBody.toNat) {o : Outcome}
    (fits : o.fits lim = true) : (response id o).validate lim = .ok () := by
  cases o with
  | panics => exact validate_newErrorFrame (bodyFits_text texts (by decide))
  | returns resp err =>
    cases err with
    | some =>
      cases resp <;> exact validate_newErrorFrame fits
    | none =>
      cases resp with
      | none => exact validate_newFrame UInt32.zero_le (by simp [bodyFits])
      | some resp =>
        obtain ⟨header, body, error⟩ := resp
        cases error with
        | some => exact validate_newErrorFrame fits
        | none =>
          simp only [Outcome.fits, Bool.and_eq_true, decide_eq_true_eq] at fits
          exact validate_newFrame fits.1 fits.2

end

/-! ## Debts behind a step -/

theorem owes_onFrame (f : Frame) : (onFrame f).owes = expects f := by
  unfold onFrame expects
  by_cases beat : f.msgType = messageTypePing ∨ f.msgType = messageTypeHeartbeat
  · have heartbeat : f.isHeartbeat = true := by
      rcases beat with beat | beat <;> simp [Frame.isHeartbeat, beat]
    simp only [heartbeat, beat, if_true]
    rfl
  · by_cases pong : f.msgType = messageTypePong
    · have heartbeat : f.isHeartbeat = true := by simp [Frame.isHeartbeat, pong]
      have other : f.msgType ≠ messageTypeRequest := by
        rw [pong]
        decide
      simp only [heartbeat, beat, other, if_true, if_false, false_and]
      rfl
    · have heartbeat : f.isHeartbeat = false := by
        rw [not_or] at beat
        simp [Frame.isHeartbeat, beat, pong]
      by_cases request : f.msgType = messageTypeRequest
      · rw [if_neg (by simp [heartbeat]), if_neg (by simpa using request), if_neg beat]
        cases oneWay : f.isOneWay <;> simp [request, oneWay, owes]
      · simp [beat, request, owes]

theorem key_response (id : UInt64) (o : Outcome) :
    key (response id o) = (messageTypeResponse, id) := by
  unfold response
  split
  · rfl
  · rfl
  · split <;> rfl

theorem owes_onOutcome (f : Frame) (o : Outcome) : (onOutcome f o).owes = (handle f).owes := by
  unfold onOutcome
  split
  · simp [owes, *]
  · simp [owes, key_response, *]

theorem owes_next (sender : Sender) (ok : Bool) : (sender.next ok).owes = [] := by
  cases sender <;> cases ok <;> rfl

section

variable {lim : Limits} {s s' : State} {t : Nat} {old new : PC} {l : Label}

def State.Balanced (s : State) : Prop := ∀ k, (s.sent.map key).count k +
  (s.threads.map (·.owes.count k)).sum = (s.received.flatMap expects).count k

theorem State.Balanced.move (balanced : s.Balanced) (found : s.threads[t]? = some old)
    (threads : s'.threads = s.threads.set t new)
    (change : ∀ k, (s'.sent.map key).count k + new.owes.count k +
      (s.received.flatMap expects).count k = (s.sent.map key).count k + old.owes.count k +
        (s'.received.flatMap expects).count k) : s'.Balanced := by
  intro k
  have sum : ((s.threads.set t new).map (·.owes.count k)).sum + old.owes.count k =
      (s.threads.map (·.owes.count k)).sum + new.owes.count k :=
    sum_map_set (fun pc => pc.owes.count k) found _
  have before := balanced k
  have local_ := change k
  rw [threads]
  omega

theorem State.Balanced.pass (balanced : s.Balanced) (found : s.threads[t]? = some old)
    (threads : s'.threads = s.threads.set t new) (received : s'.received = s.received)
    (sent : s'.sent = s.sent) (same : new.owes = old.owes) : s'.Balanced := by
  refine balanced.move found threads fun k => ?_
  rw [received, sent, same]

def State.Checked (lim : Limits) (s : State) : Prop :=
  ∀ (t : Nat) sender f, s.threads[t]? = some (.lock sender f) → f.validate lim = .ok ()

theorem State.Step.balanced (step : s.Step lim l s') (answers : Answers lim s l)
    (checked : s.Checked lim) (balanced : s.Balanced) : s'.Balanced := by
  obtain ⟨steady, admissible⟩ := answers
  cases step with
  | shutdown | drain | accept => exact balanced
  | force => cases steady
  | enter found | next found | broken found | pass found | start found | exit found =>
    exact balanced.pass found rfl rfl rfl rfl
  | leave found => rcases found with found | found <;> exact balanced.pass found rfl rfl rfl rfl
  | recv found =>
    refine balanced.move found rfl fun k => ?_
    rw [owes_onFrame]
    simp [owes]
    omega
  | @refuse t f found ending =>
    have answered : f.isOneWay = false := by
      rcases ending with ending | ending <;>
        simpa [State.admissible, found, ending] using admissible
    refine balanced.pass found rfl rfl rfl ?_
    simp [owes, answered, key, newErrorFrame, newFrame]
  | @deny t f found =>
    have answered : f.isOneWay = false := by simpa [State.admissible, found] using admissible
    refine balanced.pass found rfl rfl rfl ?_
    simp [owes, answered, key, newErrorFrame, newFrame]
  | @spawn t f found =>
    intro k
    have sum : ((s.threads.set t .check).map (·.owes.count k)).sum + (limit f).owes.count k =
        (s.threads.map (·.owes.count k)).sum + 0 :=
      sum_map_set (fun pc => pc.owes.count k) found _
    have before := balanced k
    change (s.sent.map key).count k + ((s.threads.set t .check ++ [handle f]).map _).sum =
      (s.received.flatMap expects).count k
    rw [map_append, sum_append]
    have same : (([.handle f] : List PC).map (·.owes.count k)).sum = (limit f).owes.count k := by
      simp [owes]
    omega
  | handled found => exact balanced.pass found rfl rfl rfl (owes_onOutcome _ _)
  | invalid found invalid =>
    rw [checked _ _ _ found] at invalid
    cases invalid
  | finish found =>
    refine balanced.move found rfl fun k => ?_
    rw [owes_next]
    simp [owes]
  | fail found => simp [State.steady, found] at steady

/-! ## Frames about to be written -/

theorem State.Checked.move (checked : s.Checked lim) (threads : s'.threads = s.threads.set t new)
    (valid : ∀ sender f, new = .lock sender f → f.validate lim = .ok ()) : s'.Checked lim := by
  intro u sender f found'
  rw [threads] at found'
  rcases getElem?_set_cases found' with ⟨-, rfl⟩ | ⟨-, found'⟩
  · exact valid sender f rfl
  · exact checked u sender f found'

theorem next_ne_lock (sender sender' : Sender) (ok : Bool) (f : Frame) :
    sender.next ok ≠ .lock sender' f := by
  cases sender <;> cases ok <;> simp [Sender.next]

variable {sender : Sender} {f : Frame}

theorem validate_of_onFrame {out : Frame} (lock : onFrame f = .lock sender out) :
    out.validate lim = .ok () := by
  unfold onFrame at lock
  split at lock
  · split at lock
    · cases lock
      exact validate_pong
    · cases lock
  · split at lock <;> cases lock

theorem State.Step.checked (step : s.Step lim l s') (texts : 15 ≤ lim.maxBody.toNat)
    (answers : Answers lim s l) (checked : s.Checked lim) : s'.Checked lim := by
  obtain ⟨-, admissible⟩ := answers
  cases step with
  | shutdown | drain | force | accept => exact checked
  | enter | next | broken | pass | start | exit =>
    exact checked.move rfl fun _ _ lock => by cases lock
  | leave found =>
    rcases found with found | found <;> exact checked.move rfl fun _ _ lock => by cases lock
  | recv => exact checked.move rfl fun _ _ lock => validate_of_onFrame lock
  | refuse | deny =>
    refine checked.move rfl fun _ _ lock => ?_
    cases lock
    exact validate_newErrorFrame (bodyFits_text texts (by decide))
  | @handled t f o found =>
    refine checked.move rfl fun _ _ lock => ?_
    unfold onOutcome at lock
    split at lock
    · cases lock
    · cases lock
      refine validate_response texts ?_
      simpa [State.admissible, *] using admissible
  | invalid | finish | fail =>
    exact checked.move rfl fun _ _ lock => absurd lock (next_ne_lock _ _ _ _)
  | @spawn t f found =>
    intro u sender out found'
    rcases Nat.lt_or_ge u (s.threads.set t .check).length with inside | outside
    · rw [List.getElem?_append_left inside, getElem?_set_of_some found] at found'
      split at found'
      · cases found'
      · exact checked u sender out found'
    · rw [List.getElem?_append_right outside] at found'
      have := mem_of_getElem? found'
      simp at this

/-! ## The frame being written -/

def PC.isWriting : PC → Bool
  | .writing _ _ => true
  | _ => false

structure State.Sending (s : State) : Prop where
  owner : ∀ {c}, s.wire.cur = some c → ∃ sender f,
    s.threads[c.owner]? = some (.writing sender f) ∧ c.done ++ c.rest = f.bytes
  writer : ∀ {t sender f}, s.threads[t]? = some (PC.writing sender f) →
    ∃ c, s.wire.cur = some c ∧ c.owner = t
  out : s.wire.out = (s.sent.map Frame.bytes).flatten ++ (s.wire.cur.map Writing.done).getD []
  closed : s.wire.closed = true → ∀ pc ∈ s.threads, pc = .done

theorem next_not_writing (sender : Sender) (ok : Bool) : (sender.next ok).isWriting = false := by
  cases sender <;> cases ok <;> rfl

theorem State.Sending.not_closed (sending : s.Sending) (found : s.threads[t]? = some old)
    (running : old ≠ .done) : s.wire.closed = false := by
  by_contra closed
  exact running (sending.closed (by simpa using closed) old (mem_of_getElem? found))

theorem State.Sending.move (sending : s.Sending) (found : s.threads[t]? = some old)
    (threads : s'.threads = s.threads.set t new) (wire : s'.wire = s.wire) (sent : s'.sent = s.sent)
    (before : old.isWriting = false) (running : old ≠ .done) (after : new.isWriting = false) :
    s'.Sending where
  owner := by
    intro c current
    rw [wire] at current
    obtain ⟨sender, f, writing, bytes⟩ := sending.owner current
    refine ⟨sender, f, ?_, bytes⟩
    rw [threads, getElem?_set_of_some found]
    split
    · rename_i self
      rw [self, found] at writing
      cases writing
      cases before
    · exact writing
  writer := by
    intro u sender f writing
    rw [threads] at writing
    rcases getElem?_set_cases writing with ⟨-, rfl⟩ | ⟨-, writing⟩
    · cases after
    · rw [wire]
      exact sending.writer writing
  out := by rw [wire, sent, sending.out]
  closed := by
    intro closed
    rw [wire, sending.not_closed found running] at closed
    cases closed

theorem State.Sending.append (sending : s.Sending) (opened : s.wire.closed = false)
    (after : new.isWriting = false) : State.Sending { s with threads := s.threads ++ [new] } where
  owner := by
    intro c current
    obtain ⟨sender, f, writing, bytes⟩ := sending.owner current
    refine ⟨sender, f, ?_, bytes⟩
    obtain ⟨inside, -⟩ := List.getElem?_eq_some_iff.mp writing
    rw [List.getElem?_append_left inside, writing]
  writer := by
    intro u sender f writing
    rcases Nat.lt_or_ge u s.threads.length with inside | outside
    · rw [List.getElem?_append_left inside] at writing
      exact sending.writer writing
    · rw [List.getElem?_append_right outside] at writing
      rw [← mem_singleton.mp (mem_of_getElem? writing)] at after
      cases after
  out := sending.out
  closed := by
    intro closed
    rw [opened] at closed
    cases closed

variable {wire : Wire Byte}

theorem State.Sending.start (sending : s.Sending)
    (found : s.threads[t]? = some (.lock sender f)) (start : s.wire.start t f.bytes = some wire) :
    State.Sending { s.setThread t (.writing sender f) with wire } := by
  obtain ⟨free, rfl⟩ := Wire.start_inv start
  constructor
  case owner =>
      rintro c ⟨⟩
      refine ⟨sender, f, ?_, by simp⟩
      exact (getElem?_set_of_some found t).trans (if_pos rfl)
  case writer =>
      intro u sender' f' writing
      refine ⟨_, rfl, ?_⟩
      by_contra other
      have before : s.threads[u]? = some (.writing sender' f') :=
        ((getElem?_set_of_some found u).trans (if_neg (Ne.symm other))).symm.trans writing
      obtain ⟨c, current, -⟩ := sending.writer before
      rw [free] at current
      cases current
  case out =>
      have out := sending.out
      rw [free] at out
      exact out
  case closed =>
      intro closed
      rw [show s.wire.closed = false from sending.not_closed found (by simp)] at closed
      cases closed

theorem State.Sending.accept (sending : s.Sending) {n : Nat}
    (accept : s.wire.accept t n = some wire) : State.Sending { s with wire } := by
  obtain ⟨done, more, rest, current, -, rfl⟩ := Wire.accept_inv accept
  obtain ⟨sender, f, writing, bytes⟩ := sending.owner current
  constructor
  case owner =>
      rintro c ⟨⟩
      exact ⟨sender, f, writing, by simpa using bytes⟩
  case writer =>
      intro u sender' f' writing'
      obtain ⟨c, current', owner⟩ := sending.writer writing'
      cases current.symm.trans current'
      exact ⟨_, rfl, owner⟩
  case out => simp [sending.out, current]
  case closed => exact sending.closed

theorem State.Sending.finish (sending : s.Sending)
    (found : s.threads[t]? = some (.writing sender f)) (finish : s.wire.finish t = some wire) :
    State.Sending { s.setThread t (sender.next true) with wire, sent := s.sent ++ [f] } := by
  obtain ⟨done, current, rfl⟩ := Wire.finish_inv finish
  obtain ⟨sender', f', writing, bytes⟩ := sending.owner current
  cases found.symm.trans writing
  constructor
  case owner => rintro c ⟨⟩
  case writer =>
      intro u sender' f' writing'
      have set := (getElem?_set_of_some found u).symm.trans writing'
      split at set
      · have still : (sender.next true).isWriting = true := by
          rw [Option.some.inj set]
          rfl
        rw [next_not_writing] at still
        cases still
      · rename_i other
        obtain ⟨c, current', owner⟩ := sending.writer set
        cases current.symm.trans current'
        exact absurd owner.symm other
  case out => simpa [sending.out, current] using bytes
  case closed =>
      intro closed
      rw [show s.wire.closed = false from sending.not_closed found (by simp)] at closed
      cases closed

theorem State.Sending.exit (sending : s.Sending) (found : s.threads[t]? = some .exit)
    (idle : ∀ pc ∈ s.threads.eraseIdx t, pc = .done) :
    State.Sending { s.setThread t .done with wire := s.wire.close } := by
  have done {u : Nat} {pc : PC} (found' : (s.threads.set t .done)[u]? = some pc) : pc = .done := by
    rcases getElem?_set_cases found' with ⟨-, rfl⟩ | ⟨_, found'⟩
    · rfl
    · exact idle pc (mem_eraseIdx_iff_getElem?.mpr ⟨u, ‹_›, found'⟩)
  have stopped : s.wire.cur = none := by
    by_contra busy
    obtain ⟨c, current⟩ := Option.ne_none_iff_exists'.mp busy
    obtain ⟨sender, f, writing, -⟩ := sending.owner current
    by_cases self : c.owner = t
    · rw [self, found] at writing
      cases writing
    · cases idle _ (mem_eraseIdx_iff_getElem?.mpr ⟨_, self, writing⟩)
  constructor
  case owner =>
      intro c current
      rw [show s.wire.cur = some c from current] at stopped
      cases stopped
  case writer =>
      intro u sender f writing
      cases done writing
  case out => exact sending.out
  case closed =>
      intro _ pc mem
      obtain ⟨u, found'⟩ := List.getElem?_of_mem mem
      exact done found'

theorem State.Step.sending (step : s.Step lim l s') (steady : Steady s l) (sending : s.Sending) :
    s'.Sending := by
  cases step with
  | shutdown | drain => exact ⟨sending.owner, sending.writer, sending.out, sending.closed⟩
  | force => cases steady
  | enter found | next found | broken found | pass found | refuse found | deny found =>
    exact sending.move found rfl rfl rfl rfl (by simp) rfl
  | leave found =>
    rcases found with found | found <;> exact sending.move found rfl rfl rfl rfl (by simp) rfl
  | @recv t f found =>
    refine sending.move found rfl rfl rfl rfl (by simp) ?_
    unfold onFrame
    split <;> split <;> rfl
  | @handled t f o found =>
    refine sending.move found rfl rfl rfl rfl (by simp) ?_
    unfold onOutcome
    split <;> rfl
  | invalid found => exact sending.move found rfl rfl rfl rfl (by simp) (next_not_writing _ _)
  | fail found => simp [Steady, State.steady, found] at steady
  | @spawn t f found =>
    have moved : (s.setThread t .check).Sending :=
      sending.move found rfl rfl rfl rfl (by simp) rfl
    exact moved.append (sending.not_closed found (by simp)) rfl
  | start found _ start => exact sending.start found start
  | accept _ accept => exact sending.accept accept
  | finish found finish => exact sending.finish found finish
  | exit found idle => exact sending.exit found idle

/-! ## Runs -/

structure State.Inv (lim : Limits) (s : State) : Prop where
  balanced : s.Balanced
  checked : s.Checked lim
  sending : s.Sending

theorem conn_init_inv (initial : (conn lim).init s) : s.Inv lim := by
  rw [show s = { closed := s.closed } from initial]
  have start {t : Nat} {pc : PC} (found : [start][t]? = some pc) : pc = .start :=
    mem_singleton.mp (mem_of_getElem? found)
  refine ⟨fun k => rfl, fun t sender f found => ?_, ⟨?_, ?_, rfl, ?_⟩⟩
  · cases start found
  · rintro c ⟨⟩
  · intro t sender f found
    cases start found
  · rintro ⟨⟩

theorem conn_inv_step (texts : 15 ≤ lim.maxBody.toNat) (inv : s.Inv lim) (answers : Answers lim s l)
    (step : s.step lim l = some s') : s'.Inv lim := by
  have step := step_cases step
  exact ⟨step.balanced answers inv.checked inv.balanced, step.checked texts answers inv.checked,
    step.sending answers.1 inv.sending⟩

theorem conn_inv (texts : 15 ≤ lim.maxBody.toNat)
    (reachable : (conn lim).Reachable (Answers lim) s) : s.Inv lim :=
  reachable.induct (fun _ => conn_init_inv) fun _ _ _ => conn_inv_step texts

/-! ## Every debt can be settled -/

def PC.todo : PC → Nat
  | .request f => if f.isOneWay then 0 else 5
  | .limit f => if f.isOneWay then 0 else 4
  | .handle f => if f.isOneWay then 0 else 3
  | .lock _ _ => 2
  | .writing _ _ => 1
  | _ => 0

def State.todo (s : State) : Nat := (s.threads.map PC.todo).sum

theorem owed_of_todo (none : s.todo = 0) (k : MessageType × UInt64) :
    (s.threads.map (·.owes.count k)).sum = 0 := by
  apply sum_eq_zero
  intro n mem
  obtain ⟨pc, running, rfl⟩ := mem_map.mp mem
  have zero : pc.todo = 0 := sum_eq_zero_iff.mp none _ (mem_map_of_mem running)
  cases pc with
  | request f | limit f | handle f =>
    have oneWay : f.isOneWay = true := by
      by_contra other
      simp [PC.todo, other] at zero
    simp [PC.owes, oneWay]
  | lock | writing => cases zero
  | _ => rfl

theorem todo_next (sender : Sender) (ok : Bool) : (sender.next ok).todo = 0 := by
  cases sender <;> cases ok <;> rfl

theorem State.todo_lt (found : s.threads[t]? = some old)
    (threads : s'.threads = s.threads.set t new) (less : new.todo < old.todo) :
    s'.todo < s.todo := by
  have sum : ((s.threads.set t new).map PC.todo).sum + old.todo =
      (s.threads.map PC.todo).sum + new.todo := sum_map_set PC.todo found _
  unfold todo
  rw [threads]
  omega

theorem State.closer (step : s.step lim l = some s') (answers : Answers lim s l)
    (less : s'.todo < s.todo) (same : s'.received = s.received) :
    ∃ s', (conn lim).Run (Answers lim) s s' ∧ s'.todo < s.todo ∧ s'.received = s.received :=
  ⟨s', (System.Run.refl s).tail answers step, less, same⟩

theorem State.can_finish {done : List Byte} (writing : s.threads[t]? = some (.writing sender f))
    (current : s.wire.cur = some ⟨t, done, []⟩) :
    ∃ s', (conn lim).Run (Answers lim) s s' ∧ s'.todo < s.todo ∧ s'.received = s.received := by
  have step : s.step lim (.run t .go) = some { s.setThread t (sender.next true) with
      wire := { s.wire with cur := none }, sent := s.sent ++ [f] } := by
    simp [step, writing, run, Wire.finish, current]
  have less : (sender.next true).todo < (PC.writing sender f).todo := by
    rw [todo_next]
    exact Nat.one_pos
  exact closer step ⟨rfl, by simp [admissible, writing]⟩
    (todo_lt writing rfl less) rfl

theorem State.Inv.can_write (inv : s.Inv lim) {c : Writing Byte} (current : s.wire.cur = some c) :
    ∃ s', (conn lim).Run (Answers lim) s s' ∧ s'.todo < s.todo ∧ s'.received = s.received := by
  obtain ⟨sender, f, writing, -⟩ := inv.sending.owner current
  obtain ⟨owner, done, rest⟩ := c
  cases rest with
  | nil => exact can_finish writing current
  | cons b rest =>
    have opened := inv.sending.not_closed writing (by simp)
    let wire : Wire Byte := { s.wire with
      out := s.wire.out ++ b :: rest, cur := some ⟨owner, done ++ b :: rest, []⟩ }
    have step : s.step lim (.run owner (.accept (b :: rest).length)) =
        some { s with wire := wire } := by
      simp [step, writing, run, Wire.accept, current, opened, wire]
    have answers : Answers lim s (.run owner (.accept (b :: rest).length)) := ⟨rfl, rfl⟩
    have accepted : todo { s with wire := wire } = s.todo := rfl
    obtain ⟨s', run, less, same⟩ : ∃ s', (conn lim).Run (Answers lim) { s with wire := wire } s' ∧
        s'.todo < s.todo ∧ s'.received = s.received := can_finish writing rfl
    exact ⟨s', ((System.Run.refl s).tail answers step).trans run, less, same⟩

theorem State.Inv.can_move (inv : s.Inv lim) (free : s.wire.cur = none)
    (found : s.threads[t]? = some old) (todo : old.todo ≠ 0) :
    ∃ s', (conn lim).Run (Answers lim) s s' ∧ s'.todo < s.todo ∧ s'.received = s.received := by
  have twoWay {f : Frame} {n : Nat} (todo : (if f.isOneWay then 0 else n) ≠ 0) :
      f.isOneWay = false := by
    by_contra oneWay
    simp [oneWay] at todo
  cases old with
  | request f =>
    have twoWay := twoWay todo
    have answers : Answers lim s (.run t .go) := ⟨rfl, by simp [admissible, found, twoWay]⟩
    by_cases ending : (s.draining || s.closed) = true
    · have step : s.step lim (.run t .go) = some (s.setThread t (.lock .draining
          (newErrorFrame f.requestID (some (textBytes "server draining"))))) := by
        simp [step, found, run, ending]
      exact closer step answers (todo_lt found rfl (by simp [PC.todo, twoWay])) rfl
    · have step : s.step lim (.run t .go) = some (s.setThread t (.limit f)) := by
        simp only [step, found, Option.bind_some, run, ending]
        rfl
      exact closer step answers (todo_lt found rfl (by simp [PC.todo, twoWay])) rfl
  | limit f =>
    have twoWay := twoWay todo
    have step : s.step lim (.run t (.allow true)) =
        some { s with threads := s.threads.set t .check ++ [.handle f] } := by
      simp [step, found, run]
    refine closer step ⟨rfl, rfl⟩ ?_ rfl
    have moved : ((s.threads.set t .check).map PC.todo).sum + (PC.limit f).todo = s.todo + 0 :=
      sum_map_set PC.todo found _
    change ((s.threads.set t .check ++ [PC.handle f]).map PC.todo).sum < s.todo
    rw [map_append, sum_append]
    have limit : (PC.limit f).todo = 4 := by simp [PC.todo, twoWay]
    have handle : ([PC.handle f].map PC.todo).sum = 3 := by simp [PC.todo, twoWay]
    omega
  | handle f =>
    have twoWay := twoWay todo
    have step : s.step lim (.run t (.outcome (.returns none none))) =
        some (s.setThread t (onOutcome f (.returns none none))) := by
      simp [step, found, run]
    have less : (onOutcome f (.returns none none)).todo < (PC.handle f).todo := by
      simp [onOutcome, PC.todo, twoWay]
    exact closer step ⟨rfl, by simp [admissible, found, Outcome.fits]⟩
      (todo_lt found rfl less) rfl
  | lock sender f =>
    have valid := inv.checked t sender f found
    have step : s.step lim (.run t .go) = some { s.setThread t (.writing sender f) with
        wire := { s.wire with cur := some ⟨t, [], f.bytes⟩ } } := by
      simp [step, found, run, valid, Wire.start, free]
    exact closer step ⟨rfl, by simp [admissible, found]⟩
      (todo_lt found rfl (by simp [PC.todo])) rfl
  | writing =>
    obtain ⟨c, current, -⟩ := inv.sending.writer found
    rw [free] at current
    cases current
  | start | check | read | exit | done => exact absurd rfl todo

theorem State.Inv.can_settle (inv : s.Inv lim) (texts : 15 ≤ lim.maxBody.toNat) :
    ∃ s', (conn lim).Run (Answers lim) s s' ∧ s'.todo = 0 ∧ s'.received = s.received := by
  induction size : s.todo using Nat.strong_induction_on generalizing s with
  | _ n ih =>
    by_cases none : s.todo = 0
    · exact ⟨s, .refl s, none, rfl⟩
    have progress : ∃ s', (conn lim).Run (Answers lim) s s' ∧ s'.todo < s.todo ∧
        s'.received = s.received := by
      cases current : s.wire.cur with
      | some => exact inv.can_write current
      | none =>
        obtain ⟨k, mem, positive⟩ : ∃ k ∈ s.threads.map PC.todo, k ≠ 0 := by
          by_contra all
          push Not at all
          exact none (sum_eq_zero all)
        obtain ⟨pc, running, rfl⟩ := mem_map.mp mem
        obtain ⟨t, found⟩ := List.getElem?_of_mem running
        exact inv.can_move current found positive
    obtain ⟨next, run, less, same⟩ := progress
    have inv' : next.Inv lim := run.keeps (fun _ _ _ => conn_inv_step texts) inv
    obtain ⟨s', run', done, same'⟩ := ih next.todo (size ▸ less) inv' rfl
    exact ⟨s', run.trans run', done, same'.trans same⟩

/-! ## The replies of a connection -/

structure State.Replied (lim : Limits) (s : State) : Prop where
  replies : (s.sent.map key ++ s.owed).Perm (s.received.flatMap expects)
  out : s.wire.out = (s.sent.map Frame.bytes).flatten ++ (s.wire.cur.map Writing.done).getD []
  settles : ∃ s', (conn lim).Run (Answers lim) s s' ∧ s'.received = s.received ∧
    (s'.sent.map key).Perm (s.received.flatMap expects) ∧
    s'.wire.out = (s'.sent.map Frame.bytes).flatten

theorem count_owed (k : MessageType × UInt64) :
    s.owed.count k = (s.threads.map (·.owes.count k)).sum := by
  rw [owed, count_flatMap]
  rfl

/-- With room for its own error texts, the server answers as it should in every run in which
no one-way request is refused and every result of a handler fits into a frame. -/
theorem conn_replied {lim : Limits} {s : State} (texts : 15 ≤ lim.maxBody.toNat)
    (reachable : (conn lim).Reachable (Answers lim) s) : s.Replied lim := by
  have inv := conn_inv texts reachable
  constructor
  case replies =>
      rw [perm_iff_count]
      intro k
      rw [count_append, count_owed]
      exact inv.balanced k
  case out => exact inv.sending.out
  case settles =>
      obtain ⟨s', run, done, same⟩ := inv.can_settle texts
      have inv' := conn_inv texts (reachable.run run)
      refine ⟨s', run, same, ?_, ?_⟩
      · rw [perm_iff_count]
        intro k
        have balanced := inv'.balanced k
        rw [owed_of_todo done, same] at balanced
        exact balanced
      · have free : s'.wire.cur = none := by
          by_contra busy
          obtain ⟨c, current⟩ := Option.ne_none_iff_exists'.mp busy
          obtain ⟨sender, f, writing, -⟩ := inv'.sending.owner current
          have share : 1 ≤ s'.todo := le_sum_map PC.todo writing
          omega
        simpa [free] using inv'.sending.out

end

/-! ## Replies kept and broken -/

def answeredRun : List Label :=
  [.run 0 .go, .run 0 .go, .run 0 (.recv (newFrame messageTypeRequest 6 [] [])), .run 0 .go,
    .run 0 (.allow true), .run 1 (.outcome .panics), .run 1 .go, .run 1 (.accept 35), .run 1 .go]

theorem conn_replied_panic : ∃ s, (conn {}).Reachable (Answers {}) s ∧
    s.sent.map key = [(messageTypeResponse, 6)] ∧ s.Replied {} := by
  obtain ⟨s, reachable, sent⟩ : ∃ s, (conn {}).Reachable (Answers {}) s ∧
      s.sent.map key = [(messageTypeResponse, 6)] :=
    System.exists_reachable (s := ({} : State)) answeredRun rfl (by decide)
  exact ⟨s, reachable, sent, conn_replied (by decide) reachable⟩

def deniedRun : List Label :=
  [.run 0 .go, .run 0 .go,
    .run 0 (.recv { newFrame messageTypeRequest 5 [] [] with flags := flagOneWay }), .run 0 .go,
    .run 0 (.allow false), .run 0 .go, .run 0 (.accept 34), .run 0 .go]

def largeRun : List Label :=
  [.run 0 .go, .run 0 .go, .run 0 (.recv (newFrame messageTypeRequest 6 [] [])), .run 0 .go,
    .run 0 (.allow true),
    .run 1 (.outcome (.returns (some { body := List.replicate 17 0 }) none)), .run 1 .go]

/-- On a writable connection that is not forced closed, a one-way request can be answered and
another request can stay without an answer, though no goroutine owes one any more. -/
theorem replies_broken :
    (∃ s, (conn {}).Reachable Steady s ∧ s.owed = [] ∧
      s.received.flatMap expects = [] ∧ s.sent.map key = [(messageTypeResponse, 5)]) ∧
    (∃ s, (conn { maxBody := 16 }).Reachable Steady s ∧ s.owed = [] ∧
      s.received.flatMap expects = [(messageTypeResponse, 6)] ∧ s.sent.map key = []) := by
  constructor
  · exact System.exists_reachable (s := ({} : State)) deniedRun rfl (by decide)
  · exact System.exists_reachable (s := ({} : State)) largeRun rfl (by decide)

end Soil.Net.Server
