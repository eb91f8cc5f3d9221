import Soil.Web.Contexts

/-!
# Requests that share contexts

Contexts are reused, and the goroutine of a request that timed out keeps its pointer.  A
request is `Undisturbed` if it has gone as on a server of its own: the run of its own steps
alone leaves it in the same state, with the same response, its code has read nothing of
another request, and if it timed out it is answered with 503.
-/

namespace Soil.Web.Timeout

open Writer Local

open Soil.System

variable {q : Nat} {job : Job} {jobs : List Job} {l l' : Local} {c c' : Context} {act : Act}
  {ops : List RespOp} {s s' : State} {label : Nat × Act} {u : Alone} {w : Writer}

/-! ## Answers that are kept -/

def unavailable : Text := utf8 "Service Unavailable"

structure Fields.Unavailable (f : Fields) : Prop where
  status : f.respStatusCode = 503
  data : f.respData = unavailable
  done : f.done = false

def PC.Answered (c : Context) (w : Writer) : PC → Prop
  | .after _ | .flush | .headers | .status => c.fields.Unavailable ∧ w.sent = none
  | .data => c.fields.Unavailable ∧ (∃ header, w.sent = some (503, header)) ∧ w.body = []
  | .clear | .put | .done => (∃ header, w.sent = some (503, header)) ∧ w.body = unavailable
  | _ => False

variable {main : PC}

theorem PC.Answered.keeps (answered : main.Answered c w)
    (fields : c.fields.Unavailable → c'.fields.Unavailable) : main.Answered c' w := by
  cases main with
  | after | flush | headers | status | data => exact ⟨fields answered.1, answered.2⟩
  | get | reset | bind | before | arm | select | clear | put | done => exact answered

def Local.Timed (l : Local) (c : Context) (w : Writer) : Prop :=
  l.timedOut = true → l.main.Answered c w

theorem Local.Timed.answered (timed : l.Timed c w) (late : l.timedOut = true)
    (at_ : l.main = main) : main.Answered c w :=
  at_ ▸ timed late

def Prog.Spares (c : Context) : Prog → Prop
  | .write f _ => (f c.fields).respStatusCode = c.fields.respStatusCode ∧
      (f c.fields).respData = c.fields.respData ∧ (f c.fields).done = c.fields.done
  | .resp _ _ => False
  | _ => True

def PC.Spares (c : Context) : PC → Prop
  | .after .panic => False
  | .after p => p.Spares c
  | _ => True

def Local.Keeps (l : Local) (c : Context) (w : Writer) : Act → Prop
  | .inner => l.timedOut = true → ∀ p ∈ l.inner, p.Spares c
  | .go => l.timedOut = true → l.main.Spares c
  | .timeout | .finished => l.expired = true → c.fields.done = false ∧ w.sent = none
  | _ => True

def Writer.Ordered (w : Writer) : Prop := w.sent = none → w.body = []

theorem Writer.Ordered.applyAll (ordered : w.Ordered) (ops : List RespOp) :
    (w.applyAll ops).Ordered := by
  induction ops generalizing w with
  | nil => exact ordered
  | cons op ops ih =>
    apply ih
    cases op with
    | header => exact ordered
    | writeHeader | write =>
      intro none
      simp [apply] at none

theorem Writer.applyAll_headers (w : Writer) (kvs : List (Text × Text)) :
    (w.applyAll (kvs.map fun kv => .header (· ++ [kv]))).sent = w.sent ∧
      (w.applyAll (kvs.map fun kv => .header (· ++ [kv]))).body = w.body := by
  induction kvs generalizing w with
  | nil => exact ⟨rfl, rfl⟩
  | cons kv kvs ih => exact ih (w.apply (.header (· ++ [kv])))

variable {p : Prog} {t : Turn}

theorem Fields.Unavailable.spared (answer : c.fields.Unavailable)
    (spares : p.Spares c) (turn : p.step c = some t) : t.ctx.fields.Unavailable := by
  cases p with
  | ret | panic => cases turn
  | read =>
    cases turn
    exact answer
  | write =>
    cases turn
    obtain ⟨status, data, done⟩ := spares
    exact ⟨status.trans answer.status, data.trans answer.data, done.trans answer.done⟩
  | resp => exact spares.elim

theorem Prog.ops_of_spares (spares : p.Spares c) (turn : p.step c = some t) : t.ops = [] := by
  cases p with
  | ret | panic => cases turn
  | read | write =>
    cases turn
    rfl
  | resp => exact spares.elim

theorem Local.Moves.timed (moves : l.Moves q job c act l' c' ops) (timed : l.Timed c w)
    (ordered : w.Ordered) (keeps : l.Keeps c w act) : l'.Timed c' (w.applyAll ops) := by
  intro late
  cases moves with
  | reset at_ | bind at_ | begun at_ | before at_ | arm at_ | unarmed at_ | panicked at_
  | finished at_ =>
    exact False.elim (timed.answered late at_)
  | aborted at_ =>
    rcases at_ with at_ | at_
    · exact False.elim (timed.answered late at_)
    · have spares := keeps late
      rw [at_] at spares
      exact spares.elim
  | @after p t at_ turn =>
    have answer := timed.answered late at_
    have spares : p.Spares c := by
      have spares := keeps late
      rw [at_] at spares
      cases p with
      | ret | panic => cases turn
      | read | write | resp => exact spares
    refine ⟨answer.1.spared spares turn, ?_⟩
    rw [Prog.ops_of_spares spares turn]
    exact answer.2
  | returned at_ =>
    have answer := timed.answered late at_
    exact answer
  | flush at_ =>
    have answer := timed.answered late at_
    rw [answer.1.done]
    exact answer
  | headers at_ =>
    have answer := timed.answered late at_
    exact ⟨answer.1, (w.applyAll_headers _).1.trans answer.2⟩
  | status at_ =>
    have answer := timed.answered late at_
    rw [answer.1.status, if_pos (by decide)]
    refine ⟨answer.1, ⟨w.header, ?_⟩, ordered answer.2⟩
    simp [applyAll, apply, answer.2]
  | data at_ =>
    obtain ⟨fields, ⟨header, sent⟩, body⟩ := timed.answered late at_
    rw [fields.data, if_pos (by decide)]
    refine ⟨⟨header, ?_⟩, ?_⟩
    · simp [applyAll, apply, sent]
    · simp [applyAll, apply, body]
  | clear at_ =>
    have answer := timed.answered late at_
    exact answer
  | @inner p t at_ turn =>
    have spares := keeps late p at_
    rw [Prog.ops_of_spares spares turn]
    exact PC.Answered.keeps (timed late) fun answer => answer.spared spares turn
  | ends | expire => exact timed late
  | timeout at_ expired act =>
    have fresh : c.fields.done = false ∧ w.sent = none := by
      rcases act with rfl | rfl
      · exact keeps expired
      · exact keeps expired
    exact ⟨⟨rfl, rfl, fresh.1⟩, fresh.2⟩

instance (p : Prog) : Decidable (p.Spares c) :=
  match p with
  | .write _ _ => inferInstanceAs (Decidable (_ ∧ _ ∧ _))
  | .resp _ _ => .isFalse id
  | .ret | .panic | .read _ => .isTrue trivial

instance (main : PC) : Decidable (main.Spares c) :=
  match main with
  | .after .panic => .isFalse id
  | .after .ret => .isTrue trivial
  | .after (.read _) => .isTrue trivial
  | .after (.write f next) => inferInstanceAs (Decidable ((Prog.write f next).Spares c))
  | .after (.resp _ _) => .isFalse id
  | .get | .reset | .bind | .before _ | .arm | .select | .flush | .headers | .status | .data
  | .clear | .put | .done => .isTrue trivial

instance : Decidable (l.Keeps c w act) :=
  match act with
  | .inner => inferInstanceAs (Decidable (l.timedOut = true → ∀ p ∈ l.inner, p.Spares c))
  | .go => inferInstanceAs (Decidable (l.timedOut = true → l.main.Spares c))
  | .timeout | .finished =>
    inferInstanceAs (Decidable (l.expired = true → c.fields.done = false ∧ w.sent = none))
  | .get _ | .expire | .panicked => .isTrue trivial

/-! ## Requests side by side -/

/-- A step in which the goroutine of the timeout middleware does not touch the context once
the deferred reset has run, and the answer of a request that timed out is kept. -/
def Tame (s : State) (label : Nat × Act) (_ : State) : Prop :=
  ∀ p ∈ s.procs[label.1]?,
    (p.local_.touches label.2 = true → p.local_.main.bound = true) ∧
    ∀ a ∈ p.ptr, ∀ c ∈ s.ctxs[a]?, ∀ w ∈ s.writers[label.1]?, p.local_.Keeps c w label.2

instance : Decidable (Tame s label s') :=
  inferInstanceAs (Decidable (∀ p ∈ s.procs[label.1]?, _ ∧ ∀ a ∈ p.ptr, ∀ c ∈ s.ctxs[a]?,
    ∀ w ∈ s.writers[label.1]?, p.local_.Keeps c w label.2))

theorem State.Inv.step (inv : s.Inv) (step : s.Step jobs label s') (tame : Tame s label s') :
    s'.Inv := by
  cases step with
  | new found => exact inv.new found
  | reuse found _ there => exact inv.reuse found there
  | put found at_ ptr => exact inv.put found at_ ptr
  | moves _ found ptr there moved =>
    exact inv.keep found ptr there (Local.step_cases moved) (tame _ found).1

structure Same (s : State) (q : Nat) (u : Alone) : Prop where
  proc : ∃ p, s.procs[q]? = some p ∧ p.local_ = u.local_ ∧
    (p.local_.main.holds = true → p.local_.main ≠ .reset →
      ∃ a, p.ptr = some a ∧ s.ctxs[a]? = some u.ctx)
  writer : s.writers[q]? = some u.writer
  ordered : u.writer.Ordered
  timed : u.local_.Timed u.ctx u.writer

theorem Same.other (same : Same s q u) (inv : s.Inv) (step : s.Step jobs label s')
    (tame : Tame s label s') (other : q ≠ label.1) : Same s' q u := by
  obtain ⟨p, found, local_, held⟩ := same.proc
  cases step with
  | new found' =>
    refine ⟨⟨p, ?_, local_, ?_⟩, same.writer, same.ordered, same.timed⟩
    · rw [getElem?_set_of_some found', if_neg other, found]
    · intro holds ready
      obtain ⟨a, ptr, there⟩ := held holds ready
      refine ⟨a, ptr, ?_⟩
      rw [List.getElem?_append_left (List.getElem?_eq_some_iff.mp there).1]
      exact there
  | reuse found' | put found' =>
    refine ⟨⟨p, ?_, local_, held⟩, same.writer, same.ordered, same.timed⟩
    rw [getElem?_set_of_some found', if_neg other, found]
  | moves _ found' ptr' there' moved =>
    have moves := step_cases moved
    have late := (tame _ found').1
    refine ⟨⟨p, ?_, local_, ?_⟩, ?_, same.ordered, same.timed⟩
    · rw [getElem?_set_of_some found', if_neg other, found]
    · intro holds ready
      obtain ⟨a, ptr, there⟩ := held holds ready
      refine ⟨a, ptr, ?_⟩
      rw [inv.others found' ptr' there' moves late other ⟨p, found, holds, ptr⟩]
      exact there
    · rw [inv.writers found' ptr' there' moves late same.writer, if_neg other]

theorem Local.step_free (moved : l.step q job c act = some (l', c', ops))
    (late : l.touches act = true → l.main.bound = true)
    (free : l.main.holds = false ∨ l.main = .reset) (d : Context) :
    ∃ d', l.step q job d act = some (l', d', ops) ∧ l'.timedOut = l.timedOut ∧
      (l.main = .reset ∧ d' = c' ∨ l'.main = l.main ∧ d' = d ∧ ops = []) := by
  have notBound (bound : l.main.bound = true) : False := by
    rcases free with idle | at_
    · rw [PC.holds_of_bound bound] at idle
      cases idle
    · rw [at_] at bound
      cases bound
  have notSelect (at_ : l.main = .select) : False := notBound (by rw [at_]; rfl)
  cases act with
  | get => cases moved
  | go =>
    rcases free with idle | at_
    · cases at_ : l.main with
      | get | done => simp [step, at_] at moved
      | _ =>
        rw [at_] at idle
        cases idle
    · simp only [step, at_, Option.some.injEq, Prod.mk.injEq] at moved ⊢
      obtain ⟨rfl, rfl, rfl⟩ := moved
      exact ⟨_, ⟨rfl, rfl, rfl⟩, rfl, .inl ⟨trivial, rfl⟩⟩
  | inner =>
    dsimp only [step] at moved ⊢
    split at moved
    · cases moved
      exact ⟨d, rfl, rfl, .inr ⟨rfl, rfl, rfl⟩⟩
    · cases moved
      exact ⟨d, rfl, rfl, .inr ⟨rfl, rfl, rfl⟩⟩
    · obtain ⟨t, turn, -⟩ := Option.map_eq_some_iff.mp moved
      exact (notBound (late (touches_inner ‹_› turn))).elim
    · cases moved
  | expire =>
    dsimp only [step] at moved ⊢
    split at moved
    · cases moved
      exact ⟨d, if_pos ‹_›, rfl, .inr ⟨rfl, rfl, rfl⟩⟩
    · cases moved
  | panicked | finished | timeout =>
    dsimp only [step] at moved
    split at moved
    · exact (notSelect ‹_›).elim
    · cases moved

theorem Same.own (same : Same s q u) (inv : s.Inv) (work : jobs[q]? = some job)
    (step : s.Step jobs (q, act) s') (tame : Tame s (q, act) s') :
    ∃ u', u.step q job act = some u' ∧ Same s' q u' := by
  obtain ⟨p, found, local_, held⟩ := same.proc
  have timed := same.timed
  have proc (p' : Proc) : (s.procs.set q p')[q]? = some p' := by
    rw [getElem?_set_of_some found, if_pos rfl]
  cases step with cases found.symm.trans found'
  | new found' at_ | reuse found' at_ =>
    rw [local_] at at_
    refine ⟨_, Alone.step_get at_ _, ⟨_, proc _, ?_, ?_⟩, same.writer, same.ordered, ?_⟩
    · rw [local_]
    · intro _ ready
      exact absurd rfl ready
    · intro late
      exact False.elim (timed.answered late at_)
  | put found' at_ =>
    rw [local_] at at_
    refine ⟨_, Alone.step_put at_, ⟨_, proc _, ?_, nofun⟩, same.writer, same.ordered, ?_⟩
    · rw [local_]
    · intro late
      have answer := timed.answered late at_
      exact answer
  | @moves _ a _ job' c c' l ops _ work' found' ptr there moved =>
    cases work.symm.trans work'
    obtain ⟨late, keeps⟩ := tame p found
    have moves := step_cases moved
    have writer := inv.writers found ptr there moves late same.writer
    rw [if_pos rfl] at writer
    have ordered := same.ordered.applyAll ops
    have ctx : (s.ctxs.set a c')[a]? = some c' := by
      rw [getElem?_set_of_some there, if_pos rfl]
    by_cases free : p.local_.main.holds = false ∨ p.local_.main = .reset
    · obtain ⟨d', moved', timedOut, outcome⟩ := step_free moved late free u.ctx
      rw [local_] at moved' timedOut outcome free
      refine ⟨_, Alone.step_of moved', ⟨_, proc _, rfl, ?_⟩, writer, ordered, ?_⟩
      · intro holds ready
        rcases outcome with ⟨-, rfl⟩ | ⟨main, -⟩
        · exact ⟨a, rfl, ctx⟩
        · rw [main] at holds ready
          rcases free with idle | reset
          · rw [idle] at holds
            cases holds
          · exact absurd reset ready
      · intro late
        have answer := timed (timedOut.symm.trans late)
        rcases outcome with ⟨at_, -⟩ | ⟨main, rfl, rfl⟩
        · rw [at_] at answer
          exact answer.elim
        · rw [main]
          exact answer
    · obtain ⟨holds, ready⟩ := not_or.mp free
      obtain ⟨b, ptr', there'⟩ := held (by simpa using holds) ready
      cases ptr.symm.trans ptr'
      cases there.symm.trans there'
      rw [local_] at moved moves keeps
      refine ⟨_, Alone.step_of moved, ⟨_, proc _, rfl, fun _ _ => ⟨a, rfl, ctx⟩⟩, writer, ordered,
        moves.timed timed same.ordered (keeps a ptr u.ctx there u.writer same.writer)⟩

/-! ## Whole runs -/

def own (q : Nat) (ls : List (Nat × Act)) : List Act :=
  ls.filterMap fun (q', act) => if q' = q then some act else none

theorem start_inv (jobs : List Job) : (start jobs).Inv := by
  have idle (q : Nat) (p : Proc) (found : (start jobs).procs[q]? = some p) : p = {} := by
    simp only [start, List.getElem?_map, Option.map_eq_some_iff] at found
    obtain ⟨_, -, rfl⟩ := found
    rfl
  have nobody (q a : Nat) : ¬ (start jobs).Holds q a := by
    intro held
    obtain ⟨p, found, holds, -⟩ := held
    rw [idle q p found] at holds
    cases holds
  refine ⟨?_, ?_, ?_, List.nodup_nil, nofun, ?_⟩
  · intro q p found holds
    rw [idle q p found] at holds
    cases holds
  · intro q q' a holds
    exact absurd holds (nobody q a)
  · intro q a holds
    exact absurd holds (nobody q a)
  · intro q p found v inside
    rw [idle q p found] at inside
    cases inside

theorem start_same (work : jobs[q]? = some job) : Same (start jobs) q {} := by
  refine ⟨⟨{}, ?_, rfl, nofun⟩, ?_, fun _ => rfl, nofun⟩
  · rw [start, List.getElem?_map, work]
    rfl
  · rw [start, List.getElem?_map, work]
    rfl

theorem same_along {ls : List (Nat × Act)} (work : jobs[q]? = some job)
    (run : (server jobs).exec Any s ls = some s') (tame : (server jobs).Along Tame s ls)
    (inv : s.Inv) (same : Same s q u) :
    s'.Inv ∧ ∃ u', (alone q job).exec Any u (own q ls) = some u' ∧ Same s' q u' := by
  induction ls generalizing s u with
  | nil =>
    cases run
    exact ⟨inv, u, rfl, same⟩
  | cons label ls ih =>
    rw [exec, if_pos (show Any s label from trivial)] at run
    obtain ⟨next, step, rest⟩ := Option.bind_eq_some_iff.mp run
    rw [Along, step] at tame
    have moves := State.step_cases step
    have inv' := inv.step moves tame.1
    obtain ⟨q', act⟩ := label
    by_cases mine : q' = q
    · subst mine
      obtain ⟨u', alone_, same'⟩ := same.own inv work moves tame.1
      have more : own q' ((q', act) :: ls) = act :: own q' ls := by simp [own]
      rw [more, exec, if_pos (show Any u act from trivial)]
      rw [show (alone q' job).step u act = some u' from alone_]
      exact ih rest tame.2 inv' same'
    · have more : own q ((q', act) :: ls) = own q ls := by simp [own, mine]
      rw [more]
      exact ih rest tame.2 inv' (same.other inv moves tame.1 (Ne.symm mine))

structure Undisturbed (job : Job) (ls : List (Nat × Act)) (s : State) (q : Nat) : Prop where
  same : ∃ u p, (alone q job).exec Any {} (own q ls) = some u ∧ s.procs[q]? = some p ∧
    p.local_ = u.local_ ∧ s.writers[q]? = some u.writer
  seen : ∀ p ∈ s.procs[q]?, ∀ v ∈ p.local_.seen, v.Of q
  timedOut : ∀ p ∈ s.procs[q]?, ∀ w ∈ s.writers[q]?,
    p.local_.timedOut = true → p.local_.main = .done →
      w.status = 503 ∧ w.body = utf8 "Service Unavailable"

/-- **Requests do not interfere.**  Every run of tame steps leaves every request
undisturbed. -/
theorem requests_undisturbed (jobs : List Job) (ls : List (Nat × Act)) (s : State)
    (run : (server jobs).exec Any (start jobs) ls = some s)
    (tame : (server jobs).Along Tame (start jobs) ls) :
    ∀ q job, jobs[q]? = some job → Undisturbed job ls s q := by
  intro q job work
  obtain ⟨inv, u, alone_, same⟩ := same_along work run tame (start_inv jobs) (start_same work)
  obtain ⟨p, found, local_, -⟩ := same.proc
  refine ⟨⟨u, p, alone_, found, local_, same.writer⟩, inv.seen q, ?_⟩
  intro p' found' w at_ late done
  cases found.symm.trans found'
  cases same.writer.symm.trans at_
  rw [local_] at late done
  obtain ⟨⟨header, sent⟩, body⟩ := same.timed.answered late done
  exact ⟨by rw [status, sent]; rfl, body⟩

def slow : Job :=
  { inner := .write (fun f => { f with respStatusCode := 200 }) <|
      .read fun _ => .write (fun f => { f with respData := utf8 "zero" }) .ret }

def quick : Job := { inner := .respString 200 (utf8 "one") .ret }

def reusing : List (Nat × Act) :=
  [(0, .get none), (0, .go), (0, .go), (0, .go), (0, .go), (0, .expire), (0, .timeout),
    (0, .go), (0, .go), (0, .go), (0, .go), (0, .go), (0, .go), (0, .go),
    (1, .get (some 0)), (1, .go), (1, .go), (1, .go), (1, .go), (1, .inner), (1, .inner),
    (1, .inner), (1, .inner), (1, .finished), (1, .go), (1, .go), (1, .go), (1, .go), (1, .go),
    (1, .go), (1, .go)]

def disturbing : List (Nat × Act) :=
  reusing.take 7 ++ [(0, .inner)] ++ (reusing.drop 7).take 16 ++ [(0, .inner), (0, .inner)] ++
    reusing.drop 23

theorem requests_undisturbed_reusing :
    ∃ s, (server [slow, quick]).exec Any (start [slow, quick]) reusing = some s ∧
      Undisturbed slow reusing s 0 ∧ Undisturbed quick reusing s 1 := by
  obtain ⟨s, run, -⟩ : ∃ s, (server [slow, quick]).exec Any (start [slow, quick]) reusing =
    some s ∧ True := by decide +kernel
  have all := requests_undisturbed [slow, quick] reusing s run (by decide +kernel)
  exact ⟨s, run, all 0 slow rfl, all 1 quick rfl⟩

/-- An abandoned handler reads the second request and writes its answer, and its own request
is not answered with 503. -/
theorem abandoned_handler_disturbs :
    (∃ s, (server [slow, quick]).exec Any (start [slow, quick]) disturbing = some s ∧
      (s.procs[0]?.map fun p => (p.local_.timedOut, p.local_.seen.map (·.req.map (·.owner)))) =
        some (true, [some 1]) ∧
      (s.writers.map fun w => (w.status, w.body)) =
        [(200, utf8 "Service Unavailable"), (200, utf8 "zero")]) ∧
    ∃ u, (alone 1 quick).exec Any {} (own 1 disturbing) = some u ∧
      u.writer.body = utf8 "one" := by
  constructor
  · decide +kernel
  · decide +kernel

end Soil.Web.Timeout
