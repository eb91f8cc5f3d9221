import Soil.Pool.Places

/-!
# No leaks after `Release`

Once `Release` has returned and nothing is in progress, every connection has been closed
exactly once and none is idle.  This needs that no `putConn` that was pinging during
`Release` appends its object to the idle list afterwards, and that `wrapConn` gets no object
from the `sync.Pool` that still has a connection (objects are put there twice when they are
returned to a closed pool).
-/

namespace Soil.Pool

open List

structure Tidied (s : State) : Prop where
  idle : s.idleConns = []
  closes : ∀ k ∈ s.closes, k = 1

def PC.isDone : PC → Bool
  | .free (.done _) => true
  | _ => false

theorem PC.isDone_iff {pc : PC} : pc.isDone = true ↔ ∃ ret, pc = .free (.done ret) := by
  constructor
  · intro done
    unfold PC.isDone at done
    split at done
    · exact ⟨_, rfl⟩
    · cases done
  · rintro ⟨-, rfl⟩
    rfl

def Finished (s : State) : Prop := s.closed = true ∧ ∀ th ∈ s.threads, th.pc.isDone = true

instance (s : State) : Decidable (Finished s) :=
  inferInstanceAs (Decidable (s.closed = true ∧ ∀ th ∈ s.threads, th.pc.isDone = true))

/-! ## Connections do not get lost -/

def Kept (c : Conns) (hs : List Hand) : Prop :=
  ∀ p, (c.pcs p).conn ≠ none → p ∈ c.idleConns ∨ p ∈ c.activeConns ∨ ∃ h ∈ hs, p ∈ h.ptrs

section

variable {cfg : Config} {closed strict : Bool} {c c' : Conns} {h h' : Hand} {hs hs' : List Hand}

theorem Kept.congr (same : (hs.map Hand.work).Perm (hs'.map Hand.work)) (kept : Kept c hs) :
    Kept c hs' := by
  intro p conn
  refine (kept p conn).imp id (Or.imp id fun ⟨h, there, ptr⟩ => ?_)
  obtain ⟨h', there', work⟩ := mem_map.mp (same.mem_iff.mp (mem_map_of_mem there))
  exact ⟨h', there', (Prod.mk.inj work).2 ▸ ptr⟩

theorem Kept.move (kept : Kept c (h :: hs))
    (conns : ∀ p, (c'.pcs p).conn ≠ none → (c.pcs p).conn ≠ none ∨ p ∈ h'.ptrs)
    (places : ∀ p, (c'.pcs p).conn ≠ none → p ∈ c.idleConns ∨ p ∈ c.activeConns ∨ p ∈ h.ptrs →
      p ∈ c'.idleConns ∨ p ∈ c'.activeConns ∨ p ∈ h'.ptrs) : Kept c' (h' :: hs) := by
  intro p conn
  have here (place : p ∈ c'.idleConns ∨ p ∈ c'.activeConns ∨ p ∈ h'.ptrs) :
      p ∈ c'.idleConns ∨ p ∈ c'.activeConns ∨ ∃ h ∈ h' :: hs, p ∈ h.ptrs :=
    place.imp id (Or.imp id fun ptr => ⟨h', mem_cons_self .., ptr⟩)
  rcases conns p conn with old | new
  · rcases kept p old with idle | active | ⟨h₁, there, ptr⟩
    · exact here (places p conn (.inl idle))
    · exact here (places p conn (.inr (.inl active)))
    · rcases mem_cons.mp there with rfl | there
      · exact here (places p conn (.inr (.inr ptr)))
      · exact .inr (.inr ⟨h₁, mem_cons_of_mem _ there, ptr⟩)
  · exact here (.inr (.inr new))

theorem Move.kept (move : Move cfg closed strict (c, h) (c', h')) (kept : Kept c (h :: hs)) :
    Kept c' (h' :: hs) := by
  have closes (q p : Nat) (conn : ((c.closeConnLocked q).pcs p).conn ≠ none) :
      p ≠ q ∧ (c.pcs p).conn ≠ none := by
    rw [Conns.closeConnLocked_conn] at conn
    split at conn
    · exact absurd rfl conn
    · exact ⟨‹_›, conn⟩
  cases move with
  | scan ps rest split =>
    refine kept.move (fun p => .inl) fun p _ place => ?_
    rcases place with idle | active | ptr
    · rcases mem_append.mp (split.mem_iff.mp idle) with taken | left
      · exact .inr (.inr (mem_append_left _ taken))
      · exact .inl left
    · exact .inr (.inl active)
    · exact .inr (.inr (mem_append_right _ ptr))
  | push first =>
    refine kept.move (fun p => .inl) fun p _ place => ?_
    simp only [first, mem_cons, Conns.push, mem_append, not_mem_nil] at *
    tauto
  | @close _ _ q ps first =>
    refine kept.move (fun p conn => .inl (closes q p conn).2) fun p conn place => ?_
    have other := (closes q p conn).1
    simp only [first, mem_cons, Conns.closeConnLocked] at *
    tauto
  | touch =>
    exact kept.move (fun p conn => .inl (Conns.touch_conn .. ▸ conn)) fun p _ place => place
  | lend =>
    exact kept.move (fun p conn => .inl (Conns.setReturned_conn .. ▸ conn)) fun p _ place => place
  | @activate _ _ q ps first =>
    refine kept.move (fun p => .inl) fun p _ place => ?_
    simp only [first, mem_cons, Conns.activate, mem_insert_iff] at *
    tauto
  | @deactivate _ _ q ks claim active =>
    refine kept.move (fun p => .inl) fun p _ place => ?_
    by_cases same : p = q
    · exact .inr (.inr (same ▸ mem_cons_self ..))
    · rcases place with idle | active | ptr
      · exact .inl idle
      · exact .inr (.inl (mem_filter.mpr ⟨active, by simpa using same⟩))
      · exact .inr (.inr (mem_cons_of_mem _ ptr))
  | @drop _ _ q =>
    exact kept.move (fun p conn => .inl (closes q p conn).2) fun p _ place => place
  | @wrap _ _ n now pick =>
    obtain ⟨idle, active, -⟩ := wrapConn_lists c now pick
    refine kept.move (fun p conn => ?_) fun p _ place => ?_
    · rw [(wrapConn_pcs c now pick).2] at conn
      by_cases same : p = (c.wrapConn now pick).2
      · exact .inr (same ▸ mem_cons_self ..)
      · rw [Function.update_of_ne same] at conn
        exact .inl conn
    · rw [idle, active]
      exact place.imp id (Or.imp id (mem_cons_of_mem _))
  | release =>
    refine kept.move (fun p => .inl) fun p _ place => ?_
    simp only [mem_append] at *
    tauto
  | forget | reserve | unreserve | refuse =>
    exact kept.move (fun p => .inl) fun p _ place => place

end

/-! ## A closed pool gets released -/

def Section.releasing : Section → Bool
  | .releaseAll => true
  | _ => false

def Outside.releasing : Outside → Bool
  | .closeCh | .releaseBroadcast | .releaseWait => true
  | _ => false

def PC.releasing : PC → Bool
  | .lock sec | .held sec => sec.releasing
  | .unlock out | .free out => out.releasing
  | _ => false

def State.Closing (s : State) : Prop :=
  s.closed = true → s.released = true ∨ ∃ th ∈ s.threads, th.pc.releasing = true

section

variable {cfg : Config} {s s' : State} {l : Label} {t : Nat} {old new : Thread}

theorem State.Goes.releasing (goes : s.Goes cfg s' t old new) (on : old.pc.releasing = true) :
    s'.released = true ∨ new.pc.releasing = true := by
  cases goes with
  | stays kept =>
    rcases kept with same | ⟨asleep, -⟩
    · exact .inr (same ▸ on)
    · rw [asleep] at on
      cases on
  | locks pc next | unlocks pc next =>
    rw [pc] at on
    exact .inr (next ▸ on)
  | @execs sec inp pc next mutex closed released =>
    rw [pc] at on
    cases sec with
    | releaseAll => exact .inl (by simp [released])
    | _ => cases on
  | goes pc goes =>
    rw [pc] at on
    generalize new.pc = next at goes
    cases goes with
    | closeCh | releaseWait => exact .inr rfl
    | _ => cases on
  | wakes pc wakes next =>
    rw [pc] at on
    cases wakes with
    | releaseBroadcast => exact .inr (next ▸ rfl)
    | _ => cases on
  | notifies pc => rcases pc with pc | pc <;> rw [pc] at on <;> cases on
  | waits pc | makes pc | returns pc =>
    rw [pc] at on
    cases on

theorem State.Goes.released_mono (goes : s.Goes cfg s' t old new) (ended : s.released = true) :
    s'.released = true := by
  cases goes with
  | execs pc next mutex closed released => simp [released, ended]
  | _ => rw [‹s'.released = s.released›, ended]

theorem closing_step (step : s.Step cfg l s') (closing : s.Closing) : s'.Closing := by
  intro ended
  cases step_turn step with
  | call begins new =>
    subst new
    rcases closing ended with released | ⟨th, there, releasing⟩
    · exact .inl released
    · exact .inr ⟨th, mem_append_left _ there, releasing⟩
  | @turn t old new target before after others length goes =>
    have here (releasing : new.pc.releasing = true) :
        s'.released = true ∨ ∃ th ∈ s'.threads, th.pc.releasing = true :=
      .inr ⟨new, mem_of_getElem? after, releasing⟩
    cases was : s.closed with
    | false => exact here (by rw [goes.shuts was ended]; rfl)
    | true =>
      rcases closing was with released | releasing
      · exact .inl (goes.released_mono released)
      · rcases others.exists_pc (P := (·.releasing = true)) length before nofun releasing with mine
          | others
        · exact (goes.releasing mine).elim .inl here
        · exact .inr others

/-! ## Nothing comes back -/

theorem exec_released {c : Conns} {th : Thread} {inp : Input} {sec : Section}
    (idle : c.idleConns = []) (active : c.activeConns = [])
    (closed : (PC.held sec).opened = false) (full : ∀ p, sec = .putIdle p → cfg.maxIdleCnt = 0) :
    (c.exec cfg true th inp sec).1.idleConns = [] ∧
      (c.exec cfg true th inp sec).1.activeConns = [] := by
  cases sec with
  | getIdleConnLocked | waitWithContext => cases closed
  | stop err => cases err <;> exact ⟨idle, active⟩
  | putPinged p ok => cases ok <;> exact ⟨idle, active⟩
  | putIdle p =>
    simp only [Conns.exec, full p rfl, Nat.not_lt_zero, if_false]
    exact ⟨idle, active⟩
  | markUnhealthy => exact ⟨idle, by simp [Conns.exec, active]⟩
  | releaseAll => exact ⟨releaseAll_idle c, rfl⟩
  | get | getPinged | getMade | getClose | awake | putConn | put | release | cleanup
  | cleanupClose => exact ⟨idle, active⟩

end

/-! ## Runs -/

def Conns.spare (c : Conns) (pick : Option Nat) : Bool :=
  pick.all fun p => p ∉ c.connPool || (c.pcs p).conn.isNone

def tidy (cfg : Config) (s : State) : Label → Bool
  | .run t inp =>
    match (s.threads[t]?).map Thread.pc with
    | some (.held (.putIdle _)) => !s.released || cfg.maxIdleCnt ≤ s.idleConns.length
    | some (.held .put) => s.closed || s.spare inp.pick
    | some (.free .factory) => !inp.ok || s.spare inp.pick
    | _ => true
  | _ => true

def Tidy (cfg : Config) (s : State) (l : Label) : Prop := tidy cfg s l = true

instance (cfg : Config) (s : State) (l : Label) : Decidable (Tidy cfg s l) :=
  inferInstanceAs (Decidable (tidy cfg s l = true))

structure Clean (s : State) : Prop where
  guarded : s.Guarded
  ranged : Ranged s.toConns s.hands
  sound : s.Sound
  kept : Kept s.toConns s.hands
  closing : s.Closing
  emptied : s.released = true → s.closed = true ∧ s.idleConns = [] ∧ s.activeConns = []

section

variable {cfg : Config} {s s' : State} {l : Label}

theorem empties_of_spare {c : Conns} {hs : List Hand} {pick : Option Nat} (ranged : Ranged c hs)
    (spare : c.spare pick = true) : c.Empties pick := by
  rintro p rfl there
  refine ⟨ranged.pool p there, ?_⟩
  simpa [Conns.spare, there] using spare

theorem fair_of_tidy (clean : Clean s) (tidy : Tidy cfg s l) : s.Fair false l := by
  cases l with
  | run t =>
    intro th found
    simp only [Tidy, Pool.tidy, found, Option.map_some] at tidy
    refine ⟨fun sec pc => ?_, fun pc ok => ?_⟩
    · rw [pc] at tidy
      cases sec with
      | putConn | markUnhealthy => exact nofun
      | put =>
        intro opened
        exact empties_of_spare clean.ranged (by simpa [opened] using tidy)
      | releaseAll => exact (clean.guarded t th found).closing (by rw [pc]; rfl)
      | _ => trivial
    · rw [pc] at tidy
      exact empties_of_spare clean.ranged (by simpa [ok] using tidy)
  | _ => trivial

theorem emptied_step (step : s.Step cfg l s') (clean : Clean s) (tidy : Tidy cfg s l)
    (released : s'.released = true) :
    s'.closed = true ∧ s'.idleConns = [] ∧ s'.activeConns = [] := by
  cases step with
  | @exec t inp th sec found pc =>
    have guard := clean.guarded t th found
    rw [pc] at guard
    by_cases last : sec = .releaseAll
    · subst last
      refine ⟨?_, releaseAll_idle s.toConns, rfl⟩
      simp [guard.closing rfl]
    obtain ⟨closed, idle, active⟩ := clean.emptied (by simpa [last] using released)
    refine ⟨by simp [closed], ?_⟩
    rw [State.afterSection_toConns, closed]
    refine exec_released idle active ?_ fun p put => ?_
    · by_contra opened
      rw [guard.opened (by simpa using opened)] at closed
      cases closed
    · have ended : s.released = true := by simpa [last] using released
      simpa [Tidy, Pool.tidy, found, pc, put, ended, idle] using tidy
  | @factory t inp =>
    obtain ⟨closed, idle, active⟩ := clean.emptied released
    obtain ⟨sameIdle, sameActive, -⟩ := wrapConn_lists s.toConns inp.now inp.pick
    exact ⟨closed, sameIdle.trans idle, sameActive.trans active⟩
  | _ => exact clean.emptied released

theorem clean_step (clean : Clean s) (tidy : Tidy cfg s l)
    (step : (pool cfg).step s l = some s') : Clean s' := by
  have step := step_cases step
  have effect := step_effect step (fair_of_tidy clean tidy)
  refine ⟨guarded_step step clean.guarded, ranged_effect effect clean.ranged, ?_, ?_,
    closing_step step clean.closing, emptied_step step clean tidy⟩
  · refine effect.keeps_work (I := fun c _ => c.Sound) (fun _ _ _ _ => id)
      (fun _ _ _ => Move.sound) (fun _ _ sound _ _ => sound) (fun c _ p sound => ?_)
      (fun _ _ _ _ _ _ _ sound _ _ _ => ?_) clean.sound
    · exact sound.congr rfl rfl fun q => Conns.setReturned_conn ..
    · exact sound.congr rfl rfl fun _ => rfl
  · refine effect.keeps_work (I := Kept) (fun _ _ _ => Kept.congr) (fun _ _ _ => Move.kept)
      (fun c hs kept h empty => ?_) (fun c hs p kept q conn => ?_)
      (fun _ _ _ _ _ _ _ kept _ _ _ => kept) clean.kept
    · intro p conn
      exact (kept p conn).imp id (Or.imp id fun ⟨h', there, ptr⟩ =>
        ⟨h', mem_cons_of_mem _ there, ptr⟩)
    · rw [Conns.setReturned_conn] at conn
      exact kept q conn

theorem clean_init (start : (pool cfg).init s) : Clean s := by
  obtain ⟨n, new⟩ := pool_init start
  refine ⟨guarded_init start, ⟨?_, ?_, ?_, ?_⟩, sound_init start, ?_, ?_, ?_⟩
  · simp [new.idleConns, new.pcCnt]
  · simp [new.activeConns]
  · simp [new.connPool]
  · simp [hands_init start]
  · intro p conn
    rw [new.conn] at conn
    split at conn
    · exact .inl (by simpa [new.idleConns] using ‹p < n›)
    · exact absurd rfl conn
  · intro closed
    rw [new.closed] at closed
    cases closed
  · intro released
    rw [new.released] at released
    cases released

end

/-! ## Leaks -/

def wideConfig : Config where
  maxIdleCnt := 1
  maxConnCap := 3
  maxIdleTime := 100
  maxConnLifetime := 0
  hasPing := true
  room := by decide

theorem wideConfig_init : (pool wideConfig).init smallPool :=
  ⟨0, 1, 3, 100, some fun _ => .ok 0, true, [], rfl⟩

def overtakenRun : List Label :=
  getRun ++ .call .get :: steps 2 4 ++ releaseRun 3 ++ steps 2 8 ++
    .call (.putConn 1) :: steps 4 4

def pingedRun : List Label := getRun ++ .call (.putConn 1) :: steps 2 4 ++ releaseRun 3 ++ steps 2 6

def twiceRun : List Label :=
  getRun ++ .call .get :: steps 2 4 ++ .call .get :: steps 3 4 ++
    .call .release :: steps 4 5 ++ .call (.putConn 1) :: steps 5 4 ++
    .run 0 { ok := false } :: steps 4 4 ++
    .run 2 { pick := some 0 } :: .run 3 { pick := some 0 } :: steps 2 7 ++ steps 3 7

end Soil.Pool
