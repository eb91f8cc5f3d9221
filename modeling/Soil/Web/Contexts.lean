import Soil.Web.Timeout

/-!
# Who has which context

A request is bound to its context from the moment it is filled until the deferred reset.  As
long as no goroutine touches a context outside this time, requests that hold contexts hold
different ones, and what their code reads and writes is their own.
-/

namespace Soil.Web.Timeout

open List Option

/-! ## What a step of a request can do -/

def PC.holds : PC → Bool
  | .get | .done => false
  | _ => true

def PC.bound : PC → Bool
  | .get | .reset | .bind | .put | .done => false
  | _ => true

inductive Local.Moves (q : Nat) (job : Job) (l : Local) (c : Context) :
    Act → Local → Context → List RespOp → Prop
  | reset : l.main = .reset → Moves q job l c .go { l with main := .bind } {} []
  | bind : l.main = .bind → Moves q job l c .go { l with main := .before job.before }
      { c with req := some ⟨q, job.method, job.path, false⟩, resp := some q } []
  | begun : l.main = .before .ret → Moves q job l c .go { l with main := .arm } c []
  | aborted : l.main = .before .panic ∨ l.main = .after .panic →
      Moves q job l c .go { l with main := .clear } c []
  | before {p : Prog} {t : Turn} : l.main = .before p → p.step c = some t →
      Moves q job l c .go { l with main := .before t.rest, seen := l.seen ++ t.seen } t.ctx t.ops
  | arm {req : Req} : l.main = .arm → c.req = some req →
      Moves q job l c .go { l with main := .select, inner := some job.inner }
        { c with req := some { req with timed := true } } []
  | unarmed : l.main = .arm → c.req = none → Moves q job l c .go { l with main := .clear } c []
  | after {p : Prog} {t : Turn} : l.main = .after p → p.step c = some t →
      Moves q job l c .go { l with main := .after t.rest, seen := l.seen ++ t.seen } t.ctx t.ops
  | returned : l.main = .after .ret → Moves q job l c .go { l with main := .flush } c []
  | flush : l.main = .flush →
      Moves q job l c .go { l with main := if c.fields.done then .clear else .headers } c []
  | headers : l.main = .headers → Moves q job l c .go { l with main := .status } c
      (c.fields.respHeaders.map fun kv => .header (· ++ [kv]))
  | status : l.main = .status → Moves q job l c .go { l with main := .data } c
      (if 0 < c.fields.respStatusCode then [.writeHeader c.fields.respStatusCode] else [])
  | data : l.main = .data → Moves q job l c .go { l with main := .clear } c
      (if c.fields.respData ≠ [] then [.write c.fields.respData] else [])
  | clear : l.main = .clear → Moves q job l c .go { l with main := .put } {} []
  | inner {p : Prog} {t : Turn} : l.inner = some p → p.step c = some t →
      Moves q job l c .inner { l with inner := some t.rest, seen := l.seen ++ t.seen } t.ctx t.ops
  | ends {panicked : Bool} : Moves q job l c .inner { l with ended := some panicked } c []
  | expire : Moves q job l c .expire { l with expired := true } c []
  | panicked : l.main = .select → Moves q job l c .panicked { l with main := .after job.after }
      (answer 500 "Internal Server Error" c) []
  | finished : l.main = .select → l.expired = false →
      Moves q job l c .finished { l with main := .after job.after } c []
  | timeout {act : Act} : l.main = .select → l.expired = true → act = .timeout ∨ act = .finished →
      Moves q job l c act { l with main := .after job.after, timedOut := true }
        (answer 503 "Service Unavailable" c) []

variable {q : Nat} {job : Job} {l l' : Local} {c c' : Context} {ops : List RespOp} {act : Act}

theorem Local.go_cases (step : l.step q job c .go = some (l', c', ops)) :
    l.Moves q job c .go l' c' ops := by
  dsimp only [Local.step] at step
  split at step
  · cases step
    exact .reset ‹_›
  · cases step
    exact .bind ‹_›
  · cases step
    exact .begun ‹_›
  · cases step
    exact .aborted (.inl ‹_›)
  · obtain ⟨t, turn, moved⟩ := map_eq_some_iff.mp step
    cases moved
    exact .before ‹_› turn
  · split at step
    · cases step
      exact .unarmed ‹_› ‹_›
    · cases step
      exact .arm ‹_› ‹_›
  · cases step
    exact .returned ‹_›
  · cases step
    exact .aborted (.inr ‹_›)
  · obtain ⟨t, turn, moved⟩ := map_eq_some_iff.mp step
    cases moved
    exact .after ‹_› turn
  · cases step
    exact .flush ‹_›
  · cases step
    exact .headers ‹_›
  · cases step
    exact .status ‹_›
  · cases step
    exact .data ‹_›
  · cases step
    exact .clear ‹_›
  · cases step

theorem Local.step_cases (step : l.step q job c act = some (l', c', ops)) :
    l.Moves q job c act l' c' ops := by
  cases act with dsimp only [Local.step] at step
  | get => cases step
  | go => exact Local.go_cases step
  | inner =>
    split at step
    · cases step
      exact .ends
    · cases step
      exact .ends
    · obtain ⟨t, turn, moved⟩ := map_eq_some_iff.mp step
      cases moved
      exact .inner ‹_› turn
    · cases step
  | expire =>
    split at step
    · cases step
      exact .expire
    · cases step
  | panicked =>
    split at step
    · cases step
      exact .panicked ‹_›
    · cases step
  | finished =>
    split at step
    · split at step
      · cases step
        exact .timeout ‹_› ‹_› (.inr rfl)
      · rename_i inTime
        cases step
        exact .finished ‹_› (by simpa using inTime)
    · cases step
  | timeout =>
    split at step
    · cases step
      exact .timeout ‹_› ‹_› (.inl rfl)
    · cases step

/-! ## A request with its own context -/

def Context.Of (q : Nat) (c : Context) : Prop :=
  c.resp = some q ∧ ∃ req, c.req = some req ∧ req.owner = q

variable {t : Turn}

theorem Prog.step_of {p : Prog} (turn : p.step c = some t) (own : c.Of q) :
    t.ctx.Of q ∧ ∀ v ∈ t.seen, v.Of q := by
  cases p with
  | ret | panic => cases turn
  | read =>
    cases turn
    exact ⟨own, fun v inside => mem_singleton.mp inside ▸ own⟩
  | write =>
    cases turn
    exact ⟨own, nofun⟩
  | resp =>
    dsimp only [Prog.step] at turn
    split at turn
    · cases turn
      exact ⟨own, nofun⟩
    · cases turn
      exact ⟨own, nofun⟩

def Prog.touches : Prog → Bool
  | .ret | .panic => false
  | _ => true

def Local.touches (l : Local) (act : Act) : Bool := act == .inner && l.inner.any Prog.touches

theorem Local.touches_inner {p : Prog} (at_ : l.inner = some p)
    (turn : p.step c = some t) : l.touches .inner = true := by
  cases p with
  | ret | panic => cases turn
  | read | write | resp => simp [Local.touches, at_, Prog.touches]

theorem Local.Moves.holds (moves : l.Moves q job c act l' c' ops) :
    l'.main.holds = l.main.holds := by
  cases moves with
  | ends | expire | inner => rfl
  | aborted at_ => rcases at_ with at_ | at_ <;> rw [at_] <;> rfl
  | flush at_ =>
    rw [at_]
    split <;> rfl
  | reset at_ | bind at_ | begun at_ | before at_ | arm at_ | unarmed at_ | after at_
  | returned at_ | headers at_ | status at_ | data at_ | clear at_ | panicked at_ | finished at_
  | timeout at_ =>
    rw [at_]
    rfl

theorem Local.Moves.idle (moves : l.Moves q job c act l' c' ops)
    (late : l.touches act = true → l.main.bound = true) (idle : l.main.holds = false) :
    c' = c ∧ ops = [] := by
  have busy (bound : l.main.bound = true) : False := by
    cases at_ : l.main <;> rw [at_] at bound idle <;> cases bound <;> cases idle
  cases moves with
  | reset at_ | bind at_ =>
    rw [at_] at idle
    cases idle
  | inner at_ turn => exact (busy (late (touches_inner at_ turn))).elim
  | ends | expire => exact ⟨rfl, rfl⟩
  | aborted at_ => exact (busy (by rcases at_ with at_ | at_ <;> rw [at_] <;> rfl)).elim
  | begun at_ | before at_ | arm at_ | unarmed at_ | after at_ | returned at_ | flush at_
  | headers at_ | status at_ | data at_ | clear at_ | panicked at_ | finished at_ | timeout at_ =>
    exact (busy (by rw [at_]; rfl)).elim

section

variable (moves : l.Moves q job c act l' c' ops) (own : l.main.bound = true → c.Of q)
  (late : l.touches act = true → l.main.bound = true)

include moves own late

theorem Local.Moves.of (bound : l'.main.bound = true) : c'.Of q := by
  cases moves with
  | reset | clear => cases bound
  | bind => exact ⟨rfl, _, rfl, rfl⟩
  | aborted at_ => exact own (by rcases at_ with at_ | at_ <;> rw [at_] <;> rfl)
  | before at_ turn | after at_ turn => exact (Prog.step_of turn (own (by rw [at_]; rfl))).1
  | arm at_ req =>
    obtain ⟨resp, r, same, owner⟩ := own (by rw [at_]; rfl)
    cases req.symm.trans same
    exact ⟨resp, _, rfl, owner⟩
  | inner at_ turn => exact (Prog.step_of turn (own (late (touches_inner at_ turn)))).1
  | ends | expire => exact own bound
  | begun at_ | unarmed at_ | returned at_ | flush at_ | headers at_ | status at_ | data at_
  | panicked at_ | finished at_ | timeout at_ => exact own (by rw [at_]; rfl)

theorem Local.Moves.seen {v : Context} (inside : v ∈ l'.seen) : v ∈ l.seen ∨ v.Of q := by
  have more {p : Prog} {t : Turn} (turn : p.step c = some t) (bound : l.main.bound = true)
      (inside : v ∈ l.seen ++ t.seen) : v ∈ l.seen ∨ v.Of q := by
    rcases mem_append.mp inside with before | now
    · exact .inl before
    · exact .inr ((Prog.step_of turn (own bound)).2 v now)
  cases moves with
  | before at_ turn | after at_ turn => exact more turn (by rw [at_]; rfl) inside
  | inner at_ turn => exact more turn (late (touches_inner at_ turn)) inside
  | _ => exact .inl inside

theorem Local.Moves.writes : ops = [] ∨ c.resp = some q := by
  cases moves with
  | before at_ | after at_ | headers at_ | status at_ | data at_ =>
    exact .inr (own (by rw [at_]; rfl)).1
  | inner at_ turn => exact .inr (own (late (touches_inner at_ turn))).1
  | _ => exact .inl rfl

end

/-! ## What a step of the server can do -/

inductive State.Step (jobs : List Job) (s : State) : Nat × Act → State → Prop
  | new {q : Nat} {p : Proc} : s.procs[q]? = some p → p.local_.main = .get →
      Step jobs s (q, .get none) { s with
        ctxs := s.ctxs ++ [{}]
        procs := s.procs.set q ⟨{ p.local_ with main := .reset }, some s.ctxs.length⟩ }
  | reuse {q k a : Nat} {p : Proc} : s.procs[q]? = some p → p.local_.main = .get →
      s.pool[k]? = some a →
      Step jobs s (q, .get (some k)) { s with
        pool := s.pool.eraseIdx k
        procs := s.procs.set q ⟨{ p.local_ with main := .reset }, some a⟩ }
  | put {q a : Nat} {p : Proc} : s.procs[q]? = some p → p.local_.main = .put → p.ptr = some a →
      Step jobs s (q, .go) { s with
        pool := s.pool ++ [a]
        procs := s.procs.set q ⟨{ p.local_ with main := .done }, some a⟩ }
  | moves {q a : Nat} {p : Proc} {job : Job} {c c' : Context} {l : Local} {ops : List RespOp}
      {act : Act} : jobs[q]? = some job → s.procs[q]? = some p → p.ptr = some a →
      s.ctxs[a]? = some c → p.local_.step q job c act = some (l, c', ops) →
      Step jobs s (q, act) { s with
        procs := s.procs.set q ⟨l, some a⟩
        ctxs := s.ctxs.set a c'
        writers := s.write c ops }

variable {jobs : List Job} {s s' : State} {p : Proc} {label : Nat × Act} {a : Nat} {u : Alone}
  {w : Writer}

theorem State.step_cases (step : s.step jobs label = some s') : s.Step jobs label s' := by
  obtain ⟨q, act⟩ := label
  obtain ⟨job, work, rest⟩ := bind_eq_some_iff.mp step
  obtain ⟨p, found, moved⟩ := bind_eq_some_iff.mp rest
  split at moved
  · cases moved
    exact .new found ‹_›
  · obtain ⟨a, there, rfl⟩ := map_eq_some_iff.mp moved
    exact .reuse found ‹_› there
  · obtain ⟨a, ptr, rfl⟩ := map_eq_some_iff.mp moved
    exact .put found ‹_› ptr
  · obtain ⟨a, ptr, more⟩ := bind_eq_some_iff.mp moved
    obtain ⟨c, there, last⟩ := bind_eq_some_iff.mp more
    obtain ⟨⟨l, c', ops⟩, local_, rfl⟩ := map_eq_some_iff.mp last
    exact .moves work found ptr there local_

theorem Alone.step_of (moved : u.local_.step q job u.ctx act = some (l, c, ops)) :
    u.step q job act = some ⟨l, c, u.writer.applyAll ops⟩ := by
  unfold Alone.step
  split
  · cases moved
  · rename_i put
    simp [Local.step, put] at moved
  · rw [moved]
    rfl

theorem Alone.step_get (at_ : u.local_.main = .get) (choice : Option Nat) :
    u.step q job (.get choice) = some { u with local_ := { u.local_ with main := .reset } } := by
  simp [Alone.step, at_]

theorem Alone.step_put (at_ : u.local_.main = .put) :
    u.step q job .go = some { u with local_ := { u.local_ with main := .done } } := by
  simp [Alone.step, at_]

/-! ## Contexts in use -/

def State.Holds (s : State) (q a : Nat) : Prop :=
  ∃ p, s.procs[q]? = some p ∧ p.local_.main.holds = true ∧ p.ptr = some a

structure State.Inv (s : State) : Prop where
  held : ∀ (q : Nat) (p : Proc), s.procs[q]? = some p → p.local_.main.holds = true →
    ∃ a c, p.ptr = some a ∧ s.ctxs[a]? = some c ∧ (p.local_.main.bound = true → c.Of q)
  apart : ∀ q q' a, s.Holds q a → s.Holds q' a → q = q'
  outside : ∀ q a, s.Holds q a → a ∉ s.pool
  pool : s.pool.Nodup
  known : ∀ a ∈ s.pool, a < s.ctxs.length
  seen : ∀ (q : Nat) (p : Proc), s.procs[q]? = some p → ∀ v ∈ p.local_.seen, v.Of q

theorem State.Inv.lt (inv : s.Inv) (holds : s.Holds q a) : a < s.ctxs.length := by
  obtain ⟨p, found, held, ptr⟩ := holds
  obtain ⟨b, c, ptr', there, -⟩ := inv.held q p found held
  cases ptr.symm.trans ptr'
  exact (List.getElem?_eq_some_iff.mp there).1

variable {p' : Proc}

theorem State.Holds.of_set {q' b : Nat}
    (procs : s'.procs = s.procs.set q p') (holds : s'.Holds q' b) :
    q' = q ∧ p'.local_.main.holds = true ∧ p'.ptr = some b ∨ q' ≠ q ∧ s.Holds q' b := by
  obtain ⟨p₁, found', held, ptr⟩ := holds
  rw [procs] at found'
  rcases getElem?_set_cases found' with ⟨same, rfl⟩ | ⟨other, found'⟩
  · exact .inl ⟨same, held, ptr⟩
  · exact .inr ⟨other, p₁, found', held, ptr⟩

section

variable (inv : s.Inv) (found : s.procs[q]? = some p)
include inv found

/-- One request has gone on: what it holds is in its context list and held by nobody else, and
what is new in the pool it has given back. -/
theorem State.Inv.set (procs : s'.procs = s.procs.set q p')
    (kept : ∀ q' b c, q' ≠ q → s.Holds q' b → s.ctxs[b]? = some c → s'.ctxs[b]? = some c)
    (grown : s.ctxs.length ≤ s'.ctxs.length)
    (held : p'.local_.main.holds = true → ∃ a c, p'.ptr = some a ∧ s'.ctxs[a]? = some c ∧
      (p'.local_.main.bound = true → c.Of q) ∧ a ∉ s'.pool ∧ ∀ q', s.Holds q' a → q' = q)
    (pool : s'.pool.Nodup) (back : ∀ b ∈ s'.pool, b ∈ s.pool ∨ s.Holds q b)
    (seen : ∀ v ∈ p'.local_.seen, v ∈ p.local_.seen ∨ v.Of q) : s'.Inv := by
  have alone {q' b : Nat} (mine : p'.local_.main.holds = true ∧ p'.ptr = some b)
      (holds : s.Holds q' b) : q' = q := by
    obtain ⟨a, c, ptr, -, -, -, only⟩ := held mine.1
    cases mine.2.symm.trans ptr
    exact only q' holds
  refine ⟨?_, ?_, ?_, pool, ?_, ?_⟩
  · intro q' p₁ found' holds
    rw [procs] at found'
    rcases getElem?_set_cases found' with ⟨rfl, rfl⟩ | ⟨other, found'⟩
    · obtain ⟨a, c, ptr, there, own, -⟩ := held holds
      exact ⟨a, c, ptr, there, own⟩
    · obtain ⟨a, c, ptr, there, own⟩ := inv.held q' p₁ found' holds
      exact ⟨a, c, ptr, kept q' a c other ⟨p₁, found', holds, ptr⟩ there, own⟩
  · intro q₁ q₂ b first second
    rcases first.of_set procs with ⟨rfl, mine⟩ | ⟨-, old⟩
    · rcases second.of_set procs with ⟨rfl, -⟩ | ⟨-, old⟩
      · rfl
      · exact (alone mine old).symm
    · rcases second.of_set procs with ⟨rfl, mine⟩ | ⟨-, old'⟩
      · exact alone mine old
      · exact inv.apart q₁ q₂ b old old'
  · intro q' b holds inside
    rcases holds.of_set procs with ⟨-, holds, ptr⟩ | ⟨other, old⟩
    · obtain ⟨a, c, ptr', -, -, out, -⟩ := held holds
      cases ptr.symm.trans ptr'
      exact out inside
    · rcases back b inside with before | mine
      · exact inv.outside q' b old before
      · exact other (inv.apart q' q b old mine)
  · intro b inside
    rcases back b inside with before | mine
    · exact (inv.known b before).trans_le grown
    · exact (inv.lt mine).trans_le grown
  · intro q' p₁ found' v inside
    rw [procs] at found'
    rcases getElem?_set_cases found' with ⟨rfl, rfl⟩ | ⟨-, found'⟩
    · exact (seen v inside).elim (inv.seen _ p found v) id
    · exact inv.seen q' p₁ found' v inside

theorem State.Inv.new : State.Inv { s with
      ctxs := s.ctxs ++ [{}]
      procs := s.procs.set q ⟨{ p.local_ with main := .reset }, some s.ctxs.length⟩ } := by
  refine inv.set found rfl (fun q' b c _ _ there => ?_) (by simp) (fun _ => ?_) inv.pool
    (fun _ => .inl) fun _ => .inl
  · exact (List.getElem?_append_left (List.getElem?_eq_some_iff.mp there).1).trans there
  · exact ⟨_, {}, rfl, by simp, nofun, fun inside => (inv.known _ inside).false,
      fun q' holds => (inv.lt holds).false.elim⟩

theorem State.Inv.reuse {k : Nat} (there : s.pool[k]? = some a) : State.Inv { s with
      pool := s.pool.eraseIdx k
      procs := s.procs.set q ⟨{ p.local_ with main := .reset }, some a⟩ } := by
  have pooled := mem_of_getElem? there
  refine inv.set found rfl (fun _ _ _ _ _ => id) le_rfl (fun _ => ?_) (inv.pool.eraseIdx k)
    (fun _ inside => .inl (mem_of_mem_eraseIdx inside)) fun _ => .inl
  refine ⟨a, _, rfl, List.getElem?_eq_getElem (inv.known a pooled), nofun, fun still => ?_,
    fun q' holds => absurd pooled (inv.outside q' a holds)⟩
  obtain ⟨j, other, there'⟩ := mem_eraseIdx_iff_getElem?.mp still
  have small := (List.getElem?_eq_some_iff.mp there').1
  exact other ((List.getElem?_inj small inv.pool).mp (there'.trans there.symm))

theorem State.Inv.put (at_ : p.local_.main = .put) (ptr : p.ptr = some a) : State.Inv { s with
      pool := s.pool ++ [a]
      procs := s.procs.set q ⟨{ p.local_ with main := .done }, some a⟩ } := by
  have self : s.Holds q a := ⟨p, found, by rw [at_]; rfl, ptr⟩
  refine inv.set found rfl (fun _ _ _ _ _ => id) le_rfl nofun ?_ (fun b inside => ?_) fun _ => .inl
  · rw [nodup_append_comm, singleton_append, nodup_cons]
    exact ⟨inv.outside q a self, inv.pool⟩
  · rcases mem_append.mp inside with before | here
    · exact .inl before
    · exact .inr (mem_singleton.mp here ▸ self)

end

theorem PC.holds_of_bound {main : PC} (bound : main.bound = true) : main.holds = true := by
  cases main <;> first | rfl | cases bound

theorem State.Inv.own (inv : s.Inv) (found : s.procs[q]? = some p) (ptr : p.ptr = some a)
    (there : s.ctxs[a]? = some c) (bound : p.local_.main.bound = true) : c.Of q := by
  obtain ⟨b, d, ptr', there', own⟩ := inv.held q p found (PC.holds_of_bound bound)
  cases ptr.symm.trans ptr'
  cases there.symm.trans there'
  exact own bound

section

variable (inv : s.Inv) (found : s.procs[q]? = some p) (ptr : p.ptr = some a)
  (there : s.ctxs[a]? = some c) (moves : p.local_.Moves q job c act l c' ops)
  (late : p.local_.touches act = true → p.local_.main.bound = true)

include inv found ptr there moves late

theorem State.Inv.others {q' b : Nat} (other : q' ≠ q) (holds : s.Holds q' b) :
    (s.ctxs.set a c')[b]? = s.ctxs[b]? := by
  rw [getElem?_set_of_some there]
  split
  · rename_i here
    subst here
    -- two requests with one context: one of them does not hold it
    cases held : p.local_.main.holds with
    | true => exact absurd (inv.apart q' q b holds ⟨p, found, held, ptr⟩) other
    | false => rw [(moves.idle late held).1, there]
  · rfl

theorem State.Inv.keep : State.Inv { s with
    procs := s.procs.set q ⟨l, some a⟩
    ctxs := s.ctxs.set a c'
    writers := s.write c ops } := by
  have own := inv.own found ptr there
  refine inv.set found rfl (fun q' b d other holds there' => ?_) (by simp) (fun holds => ?_)
    inv.pool (fun _ => .inl) fun v => moves.seen own late
  · exact (inv.others found ptr there moves late other holds).trans there'
  · have self : s.Holds q a := ⟨p, found, moves.holds.symm.trans holds, ptr⟩
    refine ⟨a, c', rfl, ?_, moves.of own late, inv.outside q a self,
      fun q' holds => inv.apart q' q a holds self⟩
    rw [getElem?_set_of_some there, if_pos rfl]

theorem State.Inv.writers {q' : Nat} (at_ : s.writers[q']? = some w) :
    (s.write c ops)[q']? = some (if q' = q then w.applyAll ops else w) := by
  rcases moves.writes (inv.own found ptr there) late with rfl | resp
  · have same : (s.write c [])[q']? = some w := by
      unfold State.write
      split
      · rw [List.getElem?_modify, at_]
        split <;> rfl
      · exact at_
    rw [same]
    split <;> rfl
  · simp only [State.write, resp, List.getElem?_modify, at_]
    by_cases here : q' = q
    · simp [here]
    · simp [here, Ne.symm here]

end

end Soil.Web.Timeout
