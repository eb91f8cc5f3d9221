import Soil.System

/-! # The least active connection

`least_active.go`: `Pick` counts itself at a connection with a small counter and `Done` uncounts
it.  Each access of a counter is a step of one of any number of goroutines. -/

namespace Soil.LoadBalance.LeastActive

open List

/-- Where a call is; `none` is the `activeConn` without a connection that `Pick` starts with. -/
inductive PC where
  | load (res : Option Nat) (sc : Nat)
  | compare (res : Option Nat) (cnt : UInt32) (sc : Nat)
  | add (res : Option Nat)
  | picked (res : Option Nat)
  | done
  deriving DecidableEq

structure State where
  cnts : List UInt32
  calls : List PC

inductive Label where
  | pick
  | go (t : Nat)

def cntOf (cnts : List UInt32) : Option Nat → UInt32
  | none => 4294967295
  | some i => cnts.getD i 0

def addUint32 (cnts : List UInt32) (delta : UInt32) : Option Nat → List UInt32
  | none => cnts
  | some i => cnts.modify i (· + delta)

def State.step (s : State) : Label → Option State
  | .pick => some { s with calls := s.calls ++ [.load none 0] }
  | .go t =>
    match s.calls[t]? with
    | some (.load res sc) =>
      let pc := if sc < s.cnts.length then .compare res (cntOf s.cnts res) sc else .add res
      some { s with calls := s.calls.set t pc }
    | some (.compare res cnt sc) =>
      let res := if cnt > cntOf s.cnts (some sc) then some sc else res
      some { s with calls := s.calls.set t (.load res (sc + 1)) }
    | some (.add res) => some ⟨addUint32 s.cnts 1 res, s.calls.set t (.picked res)⟩
    -- `Done`
    | some (.picked res) => some ⟨addUint32 s.cnts (~~~0) res, s.calls.set t .done⟩
    | _ => none

def balancer : System State Label where
  init s := s.calls = [] ∧ ∀ cnt ∈ s.cnts, cnt = 0
  step := State.step

def Counted (s : State) : Prop :=
  ∀ i cnt, s.cnts[i]? = some cnt → cnt = UInt32.ofNat (s.calls.count (.picked (some i)))

variable {s s' : State} {l : Label}

theorem count_moved {calls : List PC} {t : Nat} {pc : PC} (at_ : calls[t]? = some pc)
    (pc' x : PC) : UInt32.ofNat ((calls.set t pc').count x) + (if pc = x then 1 else 0) =
      .ofNat (calls.count x) + if pc' = x then 1 else 0 := by
  have moved : (calls.set t pc').count x + (if pc = x then 1 else 0) =
      calls.count x + if pc' = x then 1 else 0 := by grind
  simpa [apply_ite UInt32.ofNat] using congrArg UInt32.ofNat moved

theorem Counted.step (counted : Counted s) (step : s.step l = some s') : Counted s' := by
  intro i cnt at_
  have minus : ~~~0 = (-1 : UInt32) := by decide
  revert step
  fun_cases State.step s l <;> intro step <;> cases step
  case case1 => simpa using counted i cnt at_
  case case4 _ res _ | case5 _ res _ => cases res <;> grind [Counted, count_moved, addUint32]
  all_goals grind [Counted, count_moved]

/-- No addition is lost: a counter is the number of calls counted there and not done, modulo its
width. -/
theorem counts_active (reachable : balancer.Reachable System.Any s) (i : Nat) (cnt : UInt32)
    (at_ : s.cnts[i]? = some cnt) : cnt = .ofNat (s.calls.count (.picked (some i))) := by
  refine reachable.induct (I := Counted) (fun s start i cnt at_ => ?_)
    (fun s l s' counted _ => counted.step) i cnt at_
  rw [start.1]
  exact start.2 cnt (mem_of_getElem? at_)

theorem counts_active_twice : ∃ s, balancer.Reachable System.Any s ∧
    s.cnts[0]? = some (.ofNat (s.calls.count (.picked (some 0)))) := by
  obtain ⟨s, reachable, at_⟩ : ∃ s, balancer.Reachable System.Any s ∧ s.cnts[0]? = some 2 :=
    System.exists_reachable [.pick, .pick, .go 0, .go 1, .go 0, .go 1, .go 0, .go 1, .go 0, .go 1]
      (s := ⟨[0], []⟩) ⟨rfl, by simp⟩ (by decide)
  exact ⟨s, reachable, counts_active reachable 0 2 at_ ▸ at_⟩

end Soil.LoadBalance.LeastActive
