import Mathlib.Data.List.Infix
import Soil.Net.Endpoint

/-!
# The circuit breaker of an endpoint

`Streak` is the abstract breaker: of a sequence of judged outcomes it keeps the
failures behind the last success, and outcomes that say nothing about the endpoint
are passed over.  The client and the description of the breaker judge outcomes
differently in one case, a context that ends while `pool.Get` waits for a stream.
-/

namespace Soil.Net

open List EndpointNode

/-! ## Streaks of failures -/

inductive Verdict where
  | good
  | bad
  | neutral
  deriving DecidableEq

section

variable {α : Type} (judge : α → Verdict)

def streak (history : List α) : List α :=
  ((history.filter fun e => judge e ≠ .neutral).reverse).takeWhile fun e => judge e = .bad

theorem streak_append_singleton (history : List α) (e : α) :
    streak judge (history ++ [e]) = match judge e with
      | .good => []
      | .bad => e :: streak judge history
      | .neutral => streak judge history := by
  cases verdict : judge e <;> simp [streak, verdict]

theorem mem_of_mem_streak {history : List α} {e : α} (inside : e ∈ streak judge history) :
    e ∈ history := by
  have kept := (takeWhile_subset _) inside
  rw [mem_reverse] at kept
  exact mem_of_mem_filter kept

end

/-! ## The breaker -/

structure Attempt where
  time : Nat
  outcome : Outcome

/-- What the breaker should make of an outcome: the end of the caller's context says
nothing about the endpoint, an answer of the other side that it works. -/
def Outcome.blame : Outcome → Verdict
  | .error .ctx => .neutral
  | .error _ => .bad
  | .ok (.error e) => if e.isRemote then .good else if e = .ctx then .neutral else .bad
  | .ok (.ok _) => .good

def Outcome.mark : Outcome → Verdict
  | .error _ => .bad
  | .ok (.error e) => if e.isRemote then .good else if e = .ctx then .neutral else .bad
  | .ok (.ok _) => .good

def failures (judge : Outcome → Verdict) (history : List Attempt) : List Attempt :=
  streak (fun a => judge a.outcome) history

def Open (o : HealthOptions) (history : List Attempt) (t : Nat) : Prop :=
  o.effectiveThreshold ≤ (failures Outcome.blame history).length ∧
    ∃ last, (failures Outcome.blame history).head? = some last ∧
      t < last.time + o.effectiveCooldown

def lastTrip (enough : Nat → Bool) : List Attempt → Option Nat
  | [] => none
  | a :: older => if enough (older.length + 1) then some a.time else lastTrip enough older

def HealthOptions.reached (o : HealthOptions) (count : Nat) : Bool :=
  o.effectiveThreshold ≤ count

def HealthOptions.counterReached (o : HealthOptions) (count : Nat) : Bool :=
  o.effectiveThreshold ≤ (Int32.ofNat count).toInt

def nodeAfter (o : HealthOptions) (n : EndpointNode) (history : List Attempt) : EndpointNode :=
  history.foldl (fun n a => (n.doCall o a.time a.outcome).1) n

theorem HealthOptions.effectiveThreshold_pos (o : HealthOptions) : 0 < o.effectiveThreshold := by
  unfold effectiveThreshold
  split <;> omega

theorem HealthOptions.effectiveCooldown_pos (o : HealthOptions) : 0 < o.effectiveCooldown := by
  unfold effectiveCooldown
  split <;> omega

variable {enough : Nat → Bool} {t : Nat}

theorem exists_of_lastTrip {attempts : List Attempt}
    (tripped : lastTrip enough attempts = some t) : ∃ a ∈ attempts, a.time = t := by
  induction attempts with
  | nil => cases tripped
  | cons a older ih =>
    rw [lastTrip] at tripped
    split at tripped
    · exact ⟨a, by simp, by simpa using tripped⟩
    · obtain ⟨b, inside, time⟩ := ih tripped
      exact ⟨b, by simp [inside], time⟩

theorem lastTrip_reached (o : HealthOptions) (attempts : List Attempt) :
    lastTrip o.reached attempts =
      if o.effectiveThreshold ≤ attempts.length then attempts.head?.map Attempt.time else none := by
  have positive := o.effectiveThreshold_pos
  induction attempts with
  | nil =>
    rw [lastTrip, if_neg]
    simpa using positive
  | cons a older ih =>
    rw [lastTrip, HealthOptions.reached, length_cons]
    by_cases enough : o.effectiveThreshold ≤ ((older.length + 1 : Nat) : Int)
    · rw [if_pos enough, if_pos (by simpa using enough)]
      rfl
    · have few : ¬ o.effectiveThreshold ≤ older.length := by omega
      rw [if_neg enough, if_neg (by simpa using enough), ih, if_neg few]

open Outcome

theorem open_iff {o : HealthOptions} {history : List Attempt} : Open o history t ↔
      ∃ z, lastTrip o.reached (failures blame history) = some z ∧ t < z + o.effectiveCooldown := by
  rw [lastTrip_reached, Open]
  by_cases enough : o.effectiveThreshold ≤ (failures blame history).length
  · simp [enough]
  · simp [enough]

/-! ## What a node counts -/

section

variable {o : HealthOptions} {n : EndpointNode} {history : List Attempt} {a : Attempt}

theorem EndpointNode.doCall_fst (n : EndpointNode) (now : Nat) (outcome : Outcome) :
    (n.doCall o now outcome).1 = match outcome.mark with
      | .good => n.markSuccess
      | .bad => n.markFailure o now
      | .neutral => n := by
  rcases outcome with _ | e | _
  · rfl
  · rw [doCall, mark]
    split_ifs <;> rfl
  · rfl

theorem nodeAfter_eq (fresh : n.fails = 0 ∧ n.downUntil = 0) (history : List Attempt) :
    (nodeAfter o n history).fails = Int32.ofNat (failures mark history).length ∧
      (nodeAfter o n history).downUntil = (lastTrip o.counterReached (failures mark history)).elim 0
          fun y => y + o.effectiveCooldown := by
  induction history using List.reverseRecOn with
  | nil => exact fresh
  | append_singleton history a ih =>
    rw [nodeAfter, foldl_append, foldl_cons, foldl_nil, ← nodeAfter,
      doCall_fst, failures, streak_append_singleton]
    cases a.outcome.mark with
    | good => exact ⟨rfl, rfl⟩
    | bad =>
      have count : (nodeAfter o n history).fails + 1 =
          Int32.ofNat ((failures mark history).length + 1) := by
        rw [ih.1, Int32.ofNat_add]
        rfl
      change (markFailure o a.time _).fails = _ ∧
        (markFailure o a.time _).downUntil =
          Option.elim (if o.counterReached ((failures mark history).length + 1) then _
            else lastTrip o.counterReached (failures mark history)) _ _
      rw [markFailure, HealthOptions.counterReached, count]
      by_cases enough : o.effectiveThreshold ≤
          (Int32.ofNat ((failures mark history).length + 1)).toInt
      · rw [if_pos enough, if_pos (by simpa using enough)]
        exact ⟨rfl, rfl⟩
      · rw [if_neg enough, if_neg (by simpa using enough)]
        exact ⟨rfl, ih.2⟩
    | neutral => exact ih

theorem down_iff (fresh : n.fails = 0 ∧ n.downUntil = 0) :
    (nodeAfter o n history).healthy t = false ↔
      ∃ y, lastTrip o.counterReached (failures mark history) = some y ∧
        t < y + o.effectiveCooldown := by
  have cool := o.effectiveCooldown_pos
  rw [healthy, (nodeAfter_eq fresh history).2]
  cases lastTrip o.counterReached (failures mark history) with
  | none => simp
  | some y =>
    have later : (y : Int) + o.effectiveCooldown ≠ 0 := by omega
    rw [Option.elim_some, if_neg later, decide_eq_false_iff_not, Int.not_le]
    simp

end

/-! ## The node against the breaker -/

section

variable {o : HealthOptions} {n : EndpointNode} {history : List Attempt} {a : Attempt}

def Agrees (o : HealthOptions) (n : EndpointNode) (history : List Attempt) : Prop :=
  ∀ t, (∀ a ∈ history, a.time ≤ t) →
    ((nodeAfter o n history).healthy t = false ↔ Open o history t)

def Undisturbed (o : HealthOptions) (history : List Attempt) : Prop :=
  lastTrip o.counterReached (failures Outcome.mark history) =
    lastTrip o.reached (failures Outcome.blame history)

instance (o : HealthOptions) (history : List Attempt) : Decidable (Undisturbed o history) :=
  inferInstanceAs (Decidable (_ = _))

theorem Undisturbed.agrees (fresh : n.fails = 0 ∧ n.downUntil = 0)
    (undisturbed : Undisturbed o history) : Agrees o n history := by
  intro t _
  rw [down_iff fresh, open_iff, undisturbed]

variable {judge : Outcome → Verdict} {x : Nat}

theorem lastTrip_le {y : Nat} (before : ∀ a ∈ history, a.time ≤ x)
    (tripped : lastTrip enough (failures judge history) = some y) : y ≤ x := by
  obtain ⟨a, inside, rfl⟩ := exists_of_lastTrip tripped
  exact before a (mem_of_mem_streak _ inside)

variable {cool : Int}

theorem trip_eq {trip : Option Nat} (positive : 0 < cool) (before : ∀ y, trip = some y → y ≤ x)
    (same : ∀ t : Nat, x ≤ t → (t < x + cool ↔ ∃ y, trip = some y ∧ t < y + cool)) :
    trip = some x := by
  have last : ((x + (cool - 1).toNat : Nat) : Int) < x + cool := by omega
  rcases (same (x + (cool - 1).toNat) (by omega)).mp last with ⟨y, at_, later⟩
  have upper := before y at_
  obtain rfl : y = x := by omega
  exact at_

theorem trips_eq {trip left right : Option Nat} (positive : 0 < cool)
    (before : ∀ y, trip = some y → y ≤ x) (movedLeft : left = some x ∨ left = trip)
    (movedRight : right = some x ∨ right = trip) (same : ∀ t : Nat, x ≤ t →
      ((∃ y, left = some y ∧ t < y + cool) ↔ ∃ y, right = some y ∧ t < y + cool)) :
    left = right := by
  rcases movedLeft with rfl | rfl
  · rcases movedRight with rfl | rfl
    · rfl
    · symm
      apply trip_eq positive before
      simpa using same
  · rcases movedRight with rfl | rfl
    · apply trip_eq positive before
      intro t later
      simpa using (same t later).symm
    · rfl

theorem Outcome.blame_eq (outcome : Outcome) :
    outcome.blame = outcome.mark ∨ outcome.mark = .bad ∧ outcome.blame = .neutral := by
  rcases outcome with (_ | _ | _) | _ | _
  · exact .inl rfl
  · exact .inr ⟨rfl, rfl⟩
  · exact .inl rfl
  · exact .inl rfl
  · exact .inl rfl

theorem lastTrip_append_bad (enough : Nat → Bool)
    (history : List Attempt) (verdict : judge a.outcome = .bad) :
    lastTrip enough (failures judge (history ++ [a])) = some a.time ∨
      lastTrip enough (failures judge (history ++ [a])) =
        lastTrip enough (failures judge history) := by
  rw [failures, streak_append_singleton, verdict]
  rw [lastTrip]
  split
  · exact .inl rfl
  · exact .inr rfl

theorem failures_append_neutral (verdict : judge a.outcome = .neutral) :
    failures judge (history ++ [a]) = failures judge history := by
  rw [failures, streak_append_singleton, verdict]
  rfl

theorem Agrees.undisturbed_append (fresh : n.fails = 0 ∧ n.downUntil = 0)
    (undisturbed : Undisturbed o history) (before : ∀ b ∈ history, b.time ≤ a.time)
    (agrees : Agrees o n (history ++ [a])) : Undisturbed o (history ++ [a]) := by
  have same : ∀ t : Nat, a.time ≤ t →
      ((∃ y, lastTrip o.counterReached (failures mark (history ++ [a])) = some y ∧
          t < y + o.effectiveCooldown) ↔
        ∃ y, lastTrip o.reached (failures blame (history ++ [a])) = some y ∧
          t < y + o.effectiveCooldown) := by
    intro t later
    rw [← down_iff fresh, ← open_iff]
    apply agrees t
    intro b inside
    rcases mem_append.mp inside with old | new
    · exact (before b old).trans later
    · obtain rfl := mem_singleton.mp new
      exact later
  have moved : ∀ y, lastTrip o.counterReached (failures mark history) = some y →
      y ≤ a.time := fun y => lastTrip_le before
  rcases blame_eq a.outcome with equal | ⟨counted, passed⟩
  · cases verdict : a.outcome.mark with
    | good =>
      rw [Undisturbed, failures, failures, streak_append_singleton, streak_append_singleton,
        equal, verdict]
      rfl
    | bad =>
      have right := lastTrip_append_bad o.reached history (equal.trans verdict)
      rw [← undisturbed] at right
      exact trips_eq o.effectiveCooldown_pos moved (lastTrip_append_bad _ _ verdict) right same
    | neutral =>
      rw [Undisturbed, failures_append_neutral verdict,
        failures_append_neutral (equal.trans verdict)]
      exact undisturbed
  · have right : lastTrip o.reached (failures blame (history ++ [a])) =
        lastTrip o.counterReached (failures mark history) := by
      rw [failures_append_neutral passed, undisturbed]
    exact trips_eq o.effectiveCooldown_pos moved (lastTrip_append_bad _ _ counted) (.inr right) same

theorem agrees_iff_undisturbed (fresh : n.fails = 0 ∧ n.downUntil = 0)
    (ordered : history.Pairwise fun a b => a.time ≤ b.time) :
    (∀ p, p <+: history → Agrees o n p) ↔ ∀ p, p <+: history → Undisturbed o p := by
  refine ⟨fun agrees => ?_, fun undisturbed p inside => (undisturbed p inside).agrees fresh⟩
  induction history using List.reverseRecOn with
  | nil =>
    intro p inside
    rw [prefix_nil.mp inside]
    rfl
  | append_singleton history a ih =>
    rw [pairwise_append] at ordered
    have earlier : ∀ p, p <+: history → Undisturbed o p :=
      ih ordered.1 fun p inside => agrees p (inside.trans (prefix_append _ _))
    intro p inside
    rcases prefix_concat_iff.mp inside with whole | inside
    · subst whole
      exact (agrees _ (prefix_refl _)).undisturbed_append fresh
        (earlier history (prefix_refl _)) fun b old => ordered.2.2 b old a (by simp)
    · exact earlier p inside

end

/-! ## Candidates -/

theorem healthyNodes_eq (clock : Nat → Nat) (i : Nat) (nodes : List EndpointNode) :
    healthyNodes clock i nodes =
      ((nodes.zipIdx i).filter fun p => p.1.healthy (clock p.2)).map Prod.fst := by
  induction nodes generalizing i with
  | nil => rfl
  | cons n nodes ih =>
    rw [healthyNodes, zipIdx_cons, filter_cons]
    split
    · rw [map_cons, ih]
    · rw [ih]

def healthyAmong (clock : Nat → Nat) (nodes : List EndpointNode) : List EndpointNode :=
  (nodes.zipIdx.filter fun p => p.1.healthy (clock p.2)).map Prod.fst

end Soil.Net
