import Soil.Bytes
import Mathlib.Algebra.Order.BigOperators.Group.List

/-!
# The random weighted balancer for gRPC

`weight_random.go`: `Build` sums up the weights and forgets the sum, and `Pick` draws a number
below a sum that is always zero.  The loop of `Pick` waits for an unsigned number to become
negative.
-/

namespace Soil.LoadBalance.WeightRandom

variable {SC : Type}

structure WeightConn (SC : Type) where
  conn : SC
  weight : UInt32

structure Balancer (SC : Type) where
  connections : List (WeightConn SC)
  totalWeight : UInt32 := 0

inductive PickResult (SC : Type) where
  | picked (subConn : SC)
  | errNoSubConnAvailable
  | panics (message : Text)
  deriving DecidableEq

inductive Picker (SC : Type) where
  | errPicker
  | balancer (b : Balancer SC)

/-! ## Build and Pick -/

def collect (readySCs : List (SC × UInt32)) : UInt32 × List (WeightConn SC) :=
  readySCs.foldl (fun (totalWeight, connections) (sc, weight) =>
    (totalWeight + weight, connections ++ [{ conn := sc, weight }])) (0, [])

def build (readySCs : List (SC × UInt32)) : Picker SC :=
  if readySCs.length = 0 then .errPicker
  else
    let (_, connections) := collect readySCs
    .balancer { connections }

def uint32N (draw n : UInt32) : Option UInt32 := if n = 0 then none else some (draw % n)

namespace Balancer

def scan : UInt32 → List (WeightConn SC) → Option SC
  | _, [] => none
  | randWeight, sc :: rest =>
    let randWeight := randWeight - sc.weight
    if randWeight < 0 then some sc.conn else scan randWeight rest

def pick (b : Balancer SC) (draw : UInt32) : PickResult SC :=
  match uint32N draw b.totalWeight with
  | none => .panics (utf8 "invalid argument to Uint32N")
  | some randWeight =>
    match scan randWeight b.connections with
    | some conn => .picked conn
    | none => .errNoSubConnAvailable

theorem scan_eq_none (randWeight : UInt32) (connections : List (WeightConn SC)) :
    scan randWeight connections = none := by
  induction connections generalizing randWeight with
  | nil => rfl
  | cons sc rest ih =>
    rw [scan, if_neg UInt32.not_lt_zero]
    exact ih _

theorem pick_ne_picked (b : Balancer SC) (draw : UInt32) (sc : SC) : b.pick draw ≠ .picked sc := by
  rw [pick]
  split
  · simp
  next randWeight drawn =>
    rw [scan_eq_none]
    simp

end Balancer

def Picker.pick (p : Picker SC) (draw : UInt32) : PickResult SC :=
  match p with
  | .errPicker => .errNoSubConnAvailable
  | .balancer b => b.pick draw

theorem Picker.pick_ne_picked (p : Picker SC) (draw : UInt32) (sc : SC) :
    p.pick draw ≠ .picked sc := by
  cases p with
  | errPicker => simp [Picker.pick]
  | balancer b => exact b.pick_ne_picked draw sc

variable {readySCs : List (SC × UInt32)}

theorem build_panics (some_ : readySCs ≠ []) (draw : UInt32) :
    (build readySCs).pick draw = .panics (utf8 "invalid argument to Uint32N") := by
  have length : readySCs.length ≠ 0 := by simpa using some_
  rw [build, if_neg length]
  rfl

/-! ## Weighted selection -/

def sumWeights (readySCs : List (SC × UInt32)) : Nat :=
  (readySCs.map fun (_, weight) => weight.toNat).sum

/-- Every draw below the sum of the weights selects the connection in whose interval it lies;
a connection is selected by as many draws as its weight says. -/
structure Selects [DecidableEq SC] (readySCs : List (SC × UInt32)) : Prop where
  interval : ∀ r < sumWeights readySCs, ∃ i sc weight, readySCs[i]? = some (sc, weight) ∧
    sumWeights (readySCs.take i) ≤ r ∧ r < sumWeights (readySCs.take i) + weight.toNat ∧
    (build readySCs).pick (.ofNat r) = .picked sc
  share : ∀ sc weight, (sc, weight) ∈ readySCs →
    ((List.range (sumWeights readySCs)).countP fun r =>
      (build readySCs).pick (.ofNat r) = .picked sc) = weight.toNat

theorem le_sumWeights {sc : SC} {weight : UInt32}
    (inside : (sc, weight) ∈ readySCs) : weight.toNat ≤ sumWeights readySCs :=
  List.le_sum_of_mem (List.mem_map_of_mem inside)

/-- The selection is the weighted one if and only if all weights are zero, where no draw is
possible. -/
theorem selects_iff [DecidableEq SC] (readySCs : List (SC × UInt32)) :
    Selects readySCs ↔ sumWeights readySCs = 0 := by
  constructor
  · intro selects
    by_contra positive
    obtain ⟨i, sc, weight, -, -, -, picked⟩ := selects.interval 0 (Nat.pos_of_ne_zero positive)
    exact Picker.pick_ne_picked _ _ _ picked
  · intro zero
    refine ⟨fun r below => ?_, fun sc weight inside => ?_⟩
    · omega
    · have least := le_sumWeights inside
      rw [zero] at least ⊢
      simp only [List.range_zero, List.countP_nil]
      omega

/-- With one connection of weight 1 there is one draw, and it panics. -/
theorem single_connection_panics :
    sumWeights [((), (1 : UInt32))] = 1 ∧
      (build [((), (1 : UInt32))]).pick 0 = .panics (utf8 "invalid argument to Uint32N") ∧
      ¬ Selects [((), (1 : UInt32))] := by
  have positive : sumWeights [((), (1 : UInt32))] = 1 := by decide
  refine ⟨positive, build_panics (by simp) 0, fun selects => ?_⟩
  rcases selects.interval 0 (by omega) with ⟨i, sc, weight, -, -, -, picked⟩
  exact Picker.pick_ne_picked _ _ _ picked

end Soil.LoadBalance.WeightRandom
