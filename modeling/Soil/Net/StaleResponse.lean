import Soil.Net.Invocation

/-!
# Stale responses

Whether the response a call returns is its own: a response that comes late finds whoever
waits under its id by then.
-/

namespace Soil.Net.Invocation

open List State Option

variable {retries : Nat} {s s' : State} {i σ : Nat} {c : Call} {st : Stream} {l : Label}

/-! ## Whose channel, whose response -/

def State.owner (s : State) (ch : Nat) : Option Nat := (s.chans[ch]?).map Chan.owner

structure Stream.Good (owner : Nat → Option Nat) (st : Stream) : Prop where
  matched : ∀ p ∈ st.pending, ∀ d ∈ st.due, p.1 = d.id → owner p.2 = some d.tag
  held : ∀ r ch, st.reading = some (r, ch) → owner ch = some r.tag

structure Call.Good (owner : Nat → Option Nat) (i : Nat) (c : Call) : Prop where
  chan : ∀ ch, c.pc.chan = some ch → owner ch = some i
  tag : ∀ tag, c.pc.tag = some tag → tag = i

def Chan.Good (ch : Chan) : Prop := ∀ r, ch.content = some (some r) → r.tag = ch.owner

structure State.Inv (s : State) : Prop where
  streams : ∀ st ∈ s.streams, st.Good s.owner
  calls : ∀ (i : Nat) (c : Call), s.calls[i]? = some c → c.Good s.owner i
  chans : ∀ ch ∈ s.chans, ch.Good

def Label.goes : Label → Option Nat
  | .run i .go => some i
  | _ => none

/-- When a call registers, nothing of another invocation is due on the stream under its id,
and when it writes, no other invocation waits there under its id. -/
def Clear (s : State) (l : Label) : Prop :=
  ∀ i ∈ l.goes, ∀ c ∈ s.calls[i]?,
    match c.pc with
    | .register _ σ => c.oneWay = false → ∀ st ∈ s.streams[σ]?,
        ∀ d ∈ st.due, d.id = c.id → d.tag = i
    | .write _ σ _ => ∀ st ∈ s.streams[σ]?, ∀ p ∈ st.pending, p.1 = c.id → s.owner p.2 = some i
    | _ => True

instance (s : State) (l : Label) : Decidable (Clear s l) := by
  unfold Clear
  have (i : Nat) (c : Call) : Decidable (match c.pc with
      | .register _ σ => c.oneWay = false → ∀ st ∈ s.streams[σ]?,
          ∀ d ∈ st.due, d.id = c.id → d.tag = i
      | .write _ σ _ => ∀ st ∈ s.streams[σ]?, ∀ p ∈ st.pending, p.1 = c.id → s.owner p.2 = some i
      | _ => True) := by
    split <;> infer_instance
  infer_instance

section

variable {o o' : Nat → Option Nat}

theorem Stream.Good.mono (good : st.Good o) (later : ∀ ch i, o ch = some i → o' ch = some i) :
    st.Good o' where
  matched p waiting d due same := later _ _ (good.matched p waiting d due same)
  held r ch reading := later _ _ (good.held r ch reading)

theorem Call.Good.mono (good : c.Good o i) (later : ∀ ch i, o ch = some i → o' ch = some i) :
    c.Good o' i where
  chan ch at_ := later _ _ (good.chan ch at_)
  tag := good.tag

variable {pc : PC}

theorem Call.Good.goes (good : c.Good o i) (goes : c.pc.Goes pc) : Call.Good o i { c with pc } where
  chan ch at_ := by
    rw [show pc.chan = none from goes.chan] at at_
    cases at_
  tag tag at_ := by
    rcases goes.tag with none | same
    · rw [show pc.tag = some tag from at_] at none
      cases none
    · exact good.tag tag (same.symm.trans at_)

variable {st' : Stream}

theorem Stream.Good.less (good : st.Good o)
    (pending : ∀ p ∈ st'.pending, p ∈ st.pending) (due : ∀ d ∈ st'.due, d ∈ st.due)
    (held : ∀ r ch, st'.reading = some (r, ch) → o ch = some r.tag) : st'.Good o where
  matched p waiting d here same := good.matched p (pending p waiting) d (due d here) same
  held := held

end

variable {r : Option Reply}

theorem Chan.Good.put {ch : Chan} (good : ch.Good)
    (own : ∀ reply, r = some reply → reply.tag = ch.owner) : (ch.put r).Good := by
  intro reply content
  unfold Chan.put at content
  cases held : ch.content with
  | none =>
    rw [held] at content
    exact own reply (by simpa using content)
  | some =>
    rw [held] at content
    exact good reply (held.trans (by simpa using content))

/-! ## The invariant step by step -/

theorem State.Inv.goto (inv : s.Inv) (found : s.calls[i]? = some c)
    (goes : c.pc.Goes pc) : (s.goto i c pc).Inv where
  streams := inv.streams
  calls := by
    intro j d at_
    rcases getElem?_set_cases at_ with ⟨rfl, rfl⟩ | ⟨-, at_⟩
    · exact (inv.calls _ c found).goes goes
    · exact inv.calls j d at_
  chans := inv.chans

theorem State.Inv.stream (inv : s.Inv) (good : st'.Good s.owner) :
    State.Inv { s with streams := s.streams.set σ st' } where
  streams := forall_mem_set inv.streams good
  calls := inv.calls
  chans := inv.chans

theorem owner_failAll (ch : Nat) : (s.failAll σ st).owner ch = s.owner ch := by
  unfold failAll
  split
  · rfl
  · simp only [owner, List.getElem?_mapIdx, Option.map_map]
    cases s.chans[ch]? with
    | none => rfl
    | some =>
      split <;> rfl

theorem owner_put (k ch : Nat) (r : Option Reply) :
    ((s.chans.modify k (Chan.put r))[ch]?).map Chan.owner = s.owner ch := by
  rw [owner, List.getElem?_modify]
  cases s.chans[ch]? with
  | none => rfl
  | some =>
    split <;> rfl

variable {ch j : Nat}

theorem owner_append {new : Chan} (own : s.owner ch = some j) :
    ((s.chans ++ [new])[ch]?).map Chan.owner = some j := by
  obtain ⟨chan, there, rfl⟩ := map_eq_some_iff.mp own
  rw [List.getElem?_append_left (List.getElem?_eq_some_iff.mp there).1, there]
  rfl

theorem State.Inv.failAll (inv : s.Inv) (stream : s.streams[σ]? = some st) :
    (s.failAll σ st).Inv := by
  have owner : (s.failAll σ st).owner = s.owner := funext owner_failAll
  refine ⟨?_, ?_, ?_⟩
  · rw [owner]
    unfold State.failAll
    split
    · exact inv.streams
    · apply forall_mem_set inv.streams
      have good := inv.streams st (mem_of_getElem? stream)
      exact good.less (fun _ none => nomatch none) (fun _ due => due) good.held
  · rw [owner]
    intro j d at_
    apply inv.calls j d
    unfold State.failAll at at_
    split at at_
    · exact at_
    · exact at_
  · unfold State.failAll
    split
    · exact inv.chans
    intro ch inside
    obtain ⟨-, small, rfl⟩ := mem_mapIdx.mp inside
    have good := inv.chans _ (getElem_mem small)
    split
    · exact good.put nofun
    · exact good

theorem State.Inv.send (inv : s.Inv) (stream : s.streams[σ]? = some st) {r : Reply}
    (reading : st.reading = some (r, ch)) : State.Inv { s with
      streams := s.streams.set σ { st with reading := none }
      chans := s.chans.modify ch (Chan.put (some r)) } := by
  have good := inv.streams st (mem_of_getElem? stream)
  have own := good.held r ch reading
  have owner : State.owner { s with
      streams := s.streams.set σ { st with reading := none }
      chans := s.chans.modify ch (Chan.put (some r)) } = s.owner := by
    funext k
    exact owner_put ch k (some r)
  refine ⟨?_, ?_, ?_⟩
  · rw [owner]
    apply forall_mem_set inv.streams
    exact good.less (fun _ waiting => waiting) (fun _ due => due) nofun
  · rw [owner]
    exact inv.calls
  intro chan inside
  obtain ⟨k, at_⟩ := List.getElem?_of_mem inside
  rw [List.getElem?_modify] at at_
  obtain ⟨old, there, rfl⟩ := map_eq_some_iff.mp at_
  have good := inv.chans old (mem_of_getElem? there)
  split
  · rename_i here
    subst here
    apply good.put
    intro reply same
    cases same
    rw [State.owner, there] at own
    exact (some.inj own).symm
  · exact good

variable {left : Nat}

section

variable (inv : s.Inv) (found : s.calls[i]? = some c)
include inv found

theorem State.Inv.register
    (stream : s.streams[σ]? = some st) (clear : ∀ d ∈ st.due, d.id = c.id → d.tag = i) :
    State.Inv { s.goto i c (.write left σ (some s.chans.length)) with
      streams := s.streams.set σ { st with pending := (c.id, s.chans.length) :: st.pending }
      chans := s.chans ++ [{ owner := i }] } := by
  have later : ∀ ch j, s.owner ch = some j →
      ((s.chans ++ [{ owner := i }])[ch]?).map Chan.owner = some j :=
    fun _ _ own => owner_append own
  have new : ((s.chans ++ [{ owner := i }])[s.chans.length]?).map Chan.owner = some i := by
    simp
  refine ⟨?_, ?_, ?_⟩
  · have good := inv.streams st (mem_of_getElem? stream)
    apply forall_mem_set
    · intro st' inside
      exact (inv.streams st' inside).mono later
    refine ⟨?_, ?_⟩
    · intro p waiting d due same
      rcases mem_cons.mp waiting with rfl | old
      · rw [clear d due same.symm]
        exact new
      · exact later _ _ (good.matched p old d due same)
    · intro r ch reading
      exact later _ _ (good.held r ch reading)
  · intro j d at_
    rcases getElem?_set_cases at_ with ⟨rfl, rfl⟩ | ⟨-, at_⟩
    · refine ⟨?_, nofun⟩
      intro ch same
      cases same
      exact new
    · exact (inv.calls j d at_).mono later
  · intro ch inside
    rcases mem_append.mp inside with old | new
    · exact inv.chans ch old
    · rw [mem_singleton.mp new]
      exact nofun

theorem State.Inv.write
    {chan : Option Nat} (at_ : c.pc = .write left σ chan) (stream : s.streams[σ]? = some st)
    (clear : ∀ p ∈ st.pending, p.1 = c.id → s.owner p.2 = some i) :
    State.Inv { s.goto i c (written left σ chan) with
      streams := s.streams.set σ { st with due := st.due ++ [⟨c.id, i, c.oneWay⟩] } } := by
  have good := inv.streams st (mem_of_getElem? stream)
  have self := inv.calls i c found
  refine ⟨?_, ?_, inv.chans⟩
  · apply forall_mem_set inv.streams
    refine ⟨?_, good.held⟩
    intro p waiting d due same
    rcases mem_append.mp due with old | new
    · exact good.matched p waiting d old same
    · rw [mem_singleton.mp new] at same ⊢
      exact clear p waiting same
  · intro j d there
    rcases getElem?_set_cases there with ⟨rfl, rfl⟩ | ⟨-, there⟩
    · cases chan with
      | none => exact ⟨nofun, nofun⟩
      | some =>
        refine ⟨?_, nofun⟩
        intro ch' same
        cases same
        apply self.chan
        rw [at_]
        rfl
    · exact inv.calls j d there

theorem State.Inv.take {chan : Chan}
    (at_ : c.pc = .wait left σ ch) (there : s.chans[ch]? = some chan)
    (content : chan.content = some r) : (s.goto i c (.unregister left σ (c.receive r))).Inv := by
  have own : s.owner ch = some i := by
    apply (inv.calls i c found).chan
    rw [at_]
    rfl
  have owner : chan.owner = i := by
    rw [owner, there] at own
    exact some.inj own
  refine ⟨inv.streams, ?_, inv.chans⟩
  intro j d at_
  rcases getElem?_set_cases at_ with ⟨rfl, rfl⟩ | ⟨-, at_⟩
  · refine ⟨nofun, ?_⟩
    intro tag same
    cases r with
    | none =>
      simp only [PC.tag, Call.receive] at same
      repeat' split at same
      all_goals cases same
    | some reply =>
      have mine := inv.chans chan (mem_of_getElem? there) reply content
      simp only [PC.tag, Call.receive] at same
      split at same
      · cases same
        exact mine.trans owner
      · cases same
        exact mine.trans owner
  · exact inv.calls j d at_

end

theorem calls_failAll : (s.failAll σ st).calls = s.calls := by
  unfold failAll
  split <;> rfl

theorem State.Inv.step (inv : s.Inv) (step : s.Step l s') (clear : Clear s l) : s'.Inv := by
  cases step with
  | request | setID => exact ⟨inv.streams, inv.calls, inv.chans⟩
  | invoke =>
    refine ⟨inv.streams, ?_, inv.chans⟩
    intro i c at_
    rcases getElem?_append_one at_ with old | rfl
    · exact inv.calls i c old
    · exact ⟨nofun, nofun⟩
  | @cancel i c found =>
    refine ⟨inv.streams, ?_, inv.chans⟩
    intro j d at_
    rcases getElem?_set_cases at_ with ⟨rfl, rfl⟩ | ⟨-, at_⟩
    · exact ⟨(inv.calls _ c found).chan, (inv.calls _ c found).tag⟩
    · exact inv.calls j d at_
  | dial =>
    refine ⟨?_, inv.calls, inv.chans⟩
    intro st inside
    rcases mem_append.mp inside with old | new
    · exact inv.streams st old
    · rw [mem_singleton.mp new]
      exact ⟨nofun, nofun⟩
  | fail stream => exact inv.failAll stream
  | @drop σ k isError st stream =>
    have good := inv.streams st (mem_of_getElem? stream)
    apply inv.stream
    exact good.less (fun _ waiting => waiting) (fun _ => mem_of_mem_eraseIdx) good.held
  | @dispatch σ k ch isError st d stream due waiting =>
    have good := inv.streams st (mem_of_getElem? stream)
    have own := good.matched _ waiting d (mem_of_getElem? due) rfl
    apply inv.stream
    refine good.less (fun _ => mem_of_mem_filter) (fun _ => mem_of_mem_eraseIdx) ?_
    intro r ch' reading
    cases reading
    exact own
  | send stream reading => exact inv.send stream reading
  | begin found _ tag chan =>
    refine ⟨inv.streams, ?_, inv.chans⟩
    intro j d at_
    rcases getElem?_set_cases at_ with ⟨-, rfl⟩ | ⟨-, at_⟩
    · refine ⟨?_, ?_⟩
      · intro ch same
        cases chan.symm.trans same
      · intro tag' same
        cases tag.symm.trans same
    · exact inv.calls j d at_
  | goes found goes => exact inv.goto found goes
  | @register i left σ c st found at_ waits stream =>
    have clear := clear i rfl c found
    rw [at_] at clear
    exact inv.register found stream (clear waits st stream)
  | @write i left σ c chan st found at_ stream =>
    have clear := clear i rfl c found
    rw [at_] at clear
    exact inv.write found at_ stream (clear st stream)
  | broken found goes stream =>
    apply (inv.failAll stream).goto
    · rw [calls_failAll]
      exact found
    · exact goes
  | take found at_ there content => exact inv.take found at_ there content
  | @unregister i left σ c res st found at_ stream =>
    have good := inv.streams st (mem_of_getElem? stream)
    have goes : c.pc.Goes (.judge left res) := by
      rw [at_]
      exact ⟨.inr rfl, rfl, fun _ => rfl, nofun⟩
    apply (inv.goto found goes).stream
    exact good.less (fun _ => mem_of_mem_filter) (fun _ due => due) good.held

/-! ## No stale response -/

def NoStale (s : State) : Prop :=
  ∀ (i : Nat) (c : Call) (res : Res) (tag : Nat), s.calls[i]? = some c → c.pc = .done res →
    res.tag = some tag → tag = i

/-- Where nothing of another invocation is due under the id of a call that registers, and
nobody else waits under the id of a call that writes, no call returns a response that was
produced for another one. -/
theorem no_stale_response (retries : Nat) (s : State)
    (reachable : (client retries).Reachable Clear s) : NoStale s := by
  have inv : s.Inv := by
    apply reachable.induct
    · intro s start
      cases start
      exact ⟨nofun, nofun, nofun⟩
    · intro s l s' inv clear step
      exact inv.step (step_cases step) clear
  intro i c res tag found done returned
  apply (inv.calls i c found).tag
  rw [done]
  exact returned

def answered : List Label :=
  [.request {}, .dial, .invoke 0, .run 0 .go, .run 0 (.pick 0), .run 0 .go, .run 0 .go,
    .arrive 0 0 false, .send 0, .run 0 .takeChan, .run 0 .go, .run 0 .go]

theorem no_stale_response_answered : ∃ s, (client 0).Reachable Clear s ∧
    s.calls.map Call.pc = [.done (.reply 0)] ∧ NoStale s := by
  obtain ⟨s, reachable, done⟩ : ∃ s, (client 0).Reachable Clear s ∧
      s.calls.map Call.pc = [.done (.reply 0)] :=
    System.exists_reachable answered rfl (by decide +kernel)
  exact ⟨s, reachable, done, no_stale_response 0 s reachable⟩

def calledTwice : List Label :=
  [.request {}, .dial, .invoke 0, .run 0 .go, .run 0 (.pick 0), .run 0 .go, .run 0 .go, .cancel 0,
    .run 0 .takeCtx, .run 0 .go, .run 0 .go, .invoke 0, .run 1 .go, .run 1 (.pick 0)]

def lateResponse : List Label :=
  [.run 1 .go, .run 1 .go, .arrive 0 0 false, .send 0, .run 1 .takeChan, .run 1 .go, .run 1 .go]

/-- The second call has the id of the first and returns its response. -/
theorem reused_request_returns_late_response :
    ∃ s, (client 0).Reachable System.Any s ∧ ¬ NoStale s := by
  obtain ⟨s, reachable, done⟩ : ∃ s, (client 0).Reachable System.Any s ∧
      s.calls[1]?.map Call.pc = some (.done (.reply 0)) :=
    System.exists_reachable (calledTwice ++ lateResponse) rfl (by decide +kernel)
  refine ⟨s, reachable, ?_⟩
  intro fine
  obtain ⟨c, found, pc⟩ := map_eq_some_iff.mp done
  cases fine 1 c (.reply 0) 0 found pc rfl

end Soil.Net.Invocation
