import Soil.Net.Server
import Soil.Net.Stream

/-!
# What a connection carries

Client and server write frames to a shared connection under a mutex, and a write may
fail part-way.  As long as nobody takes the mutex of a connection that is torn and not
yet closed, the connection carries whole frames and at most one incomplete frame at its
end (`connections_wellFramed`).  Nothing in the code sees to that (`torn_connections`):
`Call` returns without `failAll` when its context is done, `readLoop` ignores the error
of a Pong, `failAll` closes the connection only after `writeMu` was released, and the
server only logs the error of a response.
-/

namespace Soil.Net

open Server Wire

/-! ## The client -/

def State.acquires (s : State) : Label → Bool
  | .run t .go => (s.threads[t]?).any fun th => match th.pc with
      | .lock _ => true
      | _ => false
  | _ => false

def Orderly (s : State) (l : Label) : Prop := s.acquires l = true → s.wire.MayStart

instance (s : State) (l : Label) : Decidable (Orderly s l) :=
  inferInstanceAs (Decidable (s.acquires l = true → s.wire.MayStart))

variable {lim : Limits} {l : Label}

theorem State.step_wire {s s' : State} (orderly : Orderly s l)
    (step : s.step lim l = some s') : s'.wire = s.wire ∨ Wire.Step IsFrame s.wire s'.wire := by
  obtain ⟨t, th, pc, found, step⟩ := State.step_cases step
  cases step with
  | writes writes =>
    generalize at_ : th.pc = old at writes
    refine .inr ?_
    cases writes with
    | start valid start =>
      have may : s.wire.MayStart := orderly (by simp [State.acquires, found, at_])
      exact step_of_start may (isFrame_of_validate valid) start
    | accept accept => exact step_of_accept accept
    | finish finish => exact step_of_finish finish
    | fail fail => exact step_of_fail fail
  | close => exact .inr .close
  | _ => exact .inl rfl

/-! ## The server -/

namespace Server

def State.acquires (s : State) : Label → Bool
  | .run t .go => (s.threads[t]?).any fun pc => match pc with
      | .lock _ _ => true
      | _ => false
  | _ => false

def Orderly (s : State) (l : Label) : Prop := s.acquires l = true → s.wire.MayStart

instance (s : State) (l : Label) : Decidable (Orderly s l) :=
  inferInstanceAs (Decidable (s.acquires l = true → s.wire.MayStart))

theorem State.step_wire {s s' : State} (orderly : Orderly s l)
    (step : s.step lim l = some s') : s'.wire = s.wire ∨ Wire.Step IsFrame s.wire s'.wire := by
  cases State.step_cases step with
  | start found valid start =>
    have may : s.wire.MayStart := orderly (by simp [State.acquires, found])
    exact .inr (step_of_start may (isFrame_of_validate valid) start)
  | accept _ accept => exact .inr (step_of_accept accept)
  | finish _ finish => exact .inr (step_of_finish finish)
  | fail _ fail => exact .inr (step_of_fail fail)
  | force | exit => exact .inr .close
  | _ => exact .inl rfl

end Server

/-! ## Both -/

theorem sound_empty : Wire.Sound IsFrame ({} : Wire Byte) :=
  @Wire.Sound.idle _ _ _ [] (by simp) rfl rfl rfl

/-- On both sides the connection is well framed in every orderly run. -/
theorem connections_wellFramed (lim : Limits) :
    (∀ ops s, (stream lim ops).Reachable Orderly s →
      WellFramed (stream lim ops) Orderly State.wire IsFrame s) ∧
    (∀ s, (Server.conn lim).Reachable Server.Orderly s →
      WellFramed (Server.conn lim) Server.Orderly Server.State.wire IsFrame s) := by
  constructor
  · intro ops s reachable
    refine wellFramed_of_steps ?_ (fun s l s' => State.step_wire) reachable
    rintro s rfl
    exact sound_empty
  · intro s reachable
    refine wellFramed_of_steps ?_ (fun s l s' => Server.State.step_wire) reachable
    intro s initial
    rw [show s = { closed := s.closed } from initial]
    exact sound_empty

/-! ## Orderly and torn connections -/

def callRun : List Label :=
  [.run 1 .go, .run 1 .go, .run 1 .go, .run 1 .go, .run 1 (.accept 22), .run 1 .go]

def pingFrame : Frame := newFrame messageTypePing 3 [] []

def Server.pingRun : List Server.Label :=
  [.run 0 .go, .run 0 .go, .run 0 (.recv pingFrame), .run 0 .go, .run 0 (.accept 22)]

theorem connections_wellFramed_whole :
    (∃ s, (stream {} [.call { requestID := 1 }]).Reachable Orderly s ∧ s.wire.out.length = 22 ∧
      WellFramed (stream {} [.call { requestID := 1 }]) Orderly State.wire IsFrame s) ∧
    (∃ s, (conn {}).Reachable Server.Orderly s ∧ s.wire.out.length = 22 ∧
      WellFramed (conn {}) Server.Orderly Server.State.wire IsFrame s) := by
  constructor
  · obtain ⟨s, reachable, whole⟩ : ∃ s, (stream {} [.call { requestID := 1 }]).Reachable Orderly s ∧
        s.wire.out.length = 22 := System.exists_reachable callRun rfl (by decide)
    exact ⟨s, reachable, whole, (connections_wellFramed {}).1 _ s reachable⟩
  · obtain ⟨s, reachable, whole⟩ : ∃ s, (conn {}).Reachable Server.Orderly s ∧
        s.wire.out.length = 22 := System.exists_reachable (s := ({} : Server.State)) pingRun
          rfl (by decide)
    exact ⟨s, reachable, whole, (connections_wellFramed {}).2 s reachable⟩

theorem not_wellFramed {S L : Type} {sys : System S L} {ok : S → L → Prop} {wire : S → Wire Byte}
    {s : S} (out : (wire s).out.take 2 = [0x4D, 0x4D]) : ¬ WellFramed sys ok wire IsFrame s := by
  have noFrame {bs : List Byte} (frame : IsFrame bs) (more : List Byte) :
      (bs ++ more).take 2 ≠ [0x4D, 0x4D] := by
    have length := frame.length
    rw [List.take_append_of_le_length (by unfold frameHeaderLen at length; omega)]
    rcases frame.magic with magic | magic <;> simp [magic]
  rintro ⟨fs, tail, frames, eq, end_⟩
  rw [eq] at out
  cases fs with
  | cons f =>
    rw [List.flatten_cons, List.append_assoc] at out
    exact noFrame (frames f (by simp)) _ out
  | nil =>
    rcases end_ with rfl | ⟨rest, -, frame, -⟩
    · simp at out
    have longer : (tail ++ rest).take 2 = [0x4D, 0x4D] := by
      have two : 2 ≤ tail.length := by
        have := congrArg List.length out
        simp at this
        omega
      rw [List.take_append_of_le_length two]
      exact out
    refine noFrame frame [] ?_
    simpa using longer

def cancelledRun : List Label :=
  [.run 1 .go, .run 1 .go, .run 1 .go, .run 1 .go, .run 1 (.accept 1), .cancel 1, .run 1 .fail,
    .run 1 .go, .run 1 .go, .run 2 .go, .run 2 .go, .run 2 .go, .run 2 .go, .run 2 (.accept 22)]

def Server.failedRun : List Server.Label :=
  [.run 0 .go, .run 0 .go, .run 0 (.recv (newFrame messageTypeRequest 1 [] [])), .run 0 .go,
    .run 0 (.allow true), .run 0 .go, .run 0 (.recv (newFrame messageTypeRequest 2 [] [])),
    .run 0 .go, .run 0 (.allow true), .run 1 (.outcome (.returns none none)), .run 1 .go,
    .run 1 (.accept 1), .run 1 .fail, .run 2 (.outcome (.returns none none)), .run 2 .go,
    .run 2 (.accept 22)]

/-- On both sides a frame can follow an incomplete frame. -/
theorem torn_connections :
    (∃ ops s, (stream {} ops).Reachable System.Any s ∧
      ¬ WellFramed (stream {} ops) System.Any State.wire IsFrame s) ∧
    (∃ s, (Server.conn {}).Reachable System.Any s ∧
      ¬ WellFramed (Server.conn {}) System.Any Server.State.wire IsFrame s) := by
  constructor
  · obtain ⟨s, reachable, torn⟩ : ∃ s,
        (stream {} [.call { requestID := 1 }, .call { requestID := 2 }]).Reachable System.Any s ∧
          s.wire.out.take 2 = [0x4D, 0x4D] := System.exists_reachable cancelledRun rfl (by decide)
    exact ⟨_, s, reachable, not_wellFramed torn⟩
  · obtain ⟨s, reachable, torn⟩ : ∃ s, (conn {}).Reachable System.Any s ∧
        s.wire.out.take 2 = [0x4D, 0x4D] :=
      System.exists_reachable (s := ({} : Server.State)) failedRun rfl (by decide)
    exact ⟨s, reachable, not_wellFramed torn⟩

end Soil.Net
