import Soil.System

/-!
# Sleepers on a condition variable

A thread that finds nothing to take goes to sleep; who adds to the supply signals one
sleeper or broadcasts to all.  No sleeper is forgotten as long as a broadcast is still to
come, or the supply is no larger than the number of threads that are going to look at it.
`Served` is that invariant over what each thread contributes, its `Seat`.
-/

namespace Soil

open List

structure Seat where
  sleeps : Bool
  broadcasts : Bool
  looks : Nat

def Served (supply : Nat) (seats : List Seat) : Prop :=
  (∃ seat ∈ seats, seat.sleeps = true) →
    (∃ seat ∈ seats, seat.broadcasts = true) ∨ supply ≤ (seats.map Seat.looks).sum

section

variable {supply supply' t u : Nat} {seats : List Seat} {old new : Seat}

theorem Served.of_awake (awake : ∀ seat ∈ seats, seat.sleeps = false) : Served supply seats := by
  rintro ⟨seat, there, sleeps⟩
  rw [awake seat there] at sleeps
  cases sleeps

theorem Served.of_broadcast (there : new ∈ seats) (broadcasts : new.broadcasts = true) :
    Served supply seats := fun _ => .inl ⟨new, there, broadcasts⟩

theorem Served.of_zero : Served 0 seats := fun _ => .inr (Nat.zero_le _)

section

variable (served : Served supply seats)
include served

theorem Served.append (awake : new.sleeps = false) : Served supply (seats ++ [new]) := by
  rintro ⟨seat, there, sleeps⟩
  rcases mem_append.mp there with there | last
  · rcases served ⟨seat, there, sleeps⟩ with ⟨other, there, broadcasts⟩ | enough
    · exact .inl ⟨other, mem_append_left _ there, broadcasts⟩
    · refine .inr ?_
      rw [map_append, sum_append]
      omega
  · rw [mem_singleton.mp last, awake] at sleeps
    cases sleeps

/-- A thread takes from the supply no more than its look, or adds no more than new looks,
unless it is going to broadcast. -/
theorem Served.set (found : seats[t]? = some old) (sleeps : new.sleeps = true → old.sleeps = true)
    (broadcasts : old.broadcasts = true → new.broadcasts = true)
    (moved : supply' = 0 ∨ new.broadcasts = true ∨ supply' + old.looks ≤ supply + new.looks) :
    Served supply' (seats.set t new) := by
  have here : new ∈ seats.set t new :=
    mem_set (List.getElem?_eq_some_iff.mp found).1 new
  rcases moved with rfl | broadcasting | moved
  · exact .of_zero
  · exact .of_broadcast here broadcasting
  have elsewhere {u : Nat} {seat : Seat} (at_ : seats[u]? = some seat) (other : u ≠ t) :
      seat ∈ seats.set t new := by
    apply mem_of_getElem?
    rw [getElem?_set_of_some found, if_neg other, at_]
  rintro ⟨seat, there, asleep⟩
  have before : ∃ seat ∈ seats, seat.sleeps = true := by
    rcases mem_or_eq_of_mem_set there with there | rfl
    · exact ⟨seat, there, asleep⟩
    · exact ⟨old, mem_of_getElem? found, sleeps asleep⟩
  rcases served before with ⟨other, there, pending⟩ | enough
  · obtain ⟨u, at_⟩ := mem_iff_getElem?.mp there
    by_cases same : u = t
    · subst same
      rw [found] at at_
      cases at_
      exact .inl ⟨new, here, broadcasts pending⟩
    · exact .inl ⟨other, elsewhere at_ same, pending⟩
  · have sum := sum_map_set Seat.looks found new
    exact .inr (by omega)

/-- A thread wakes up a sleeper, who looks in its place or has a broadcast to come. -/
theorem Served.signal {sleeper woken : Seat}
    (found : seats[t]? = some old) (sleeps : seats[u]? = some sleeper) (distinct : u ≠ t)
    (awake : woken.sleeps = false) (keeps : sleeper.broadcasts = true → woken.broadcasts = true)
    (looks : woken.broadcasts = true ∨ sleeper.looks + 1 ≤ woken.looks)
    (rests : new.sleeps = false) (kept : old.broadcasts = true → new.broadcasts = true)
    (passes : old.looks ≤ new.looks + 1) : Served supply ((seats.set u woken).set t new) := by
  have more : Served (supply + 1) (seats.set u woken) := by
    refine served.set sleeps (by simp [awake]) keeps ?_
    rcases looks with broadcasts | looks
    · exact .inr (.inl broadcasts)
    · exact .inr (.inr (by omega))
  have there : (seats.set u woken)[t]? = some old := by
    rw [getElem?_set_of_some sleeps, if_neg (Ne.symm distinct), found]
  exact more.set there (by simp [rests]) kept (.inr (.inr (by omega)))

theorem Served.quiet (sleeper : ∃ seat ∈ seats, seat.sleeps = true)
    (silent : ∀ seat ∈ seats, seat.broadcasts = false) (idle : ∀ seat ∈ seats, seat.looks = 0) :
    supply = 0 := by
  rcases served sleeper with ⟨seat, there, broadcasts⟩ | enough
  · rw [silent seat there] at broadcasts
    cases broadcasts
  · have zero : (seats.map Seat.looks).sum = 0 :=
      sum_eq_zero fun n there => by
        obtain ⟨seat, inside, rfl⟩ := mem_map.mp there
        exact idle seat inside
    omega

end

end

end Soil
