import Soil.Bytes
import Mathlib.Data.List.Nodup
import Mathlib.Data.List.Perm.Basic

/-!
# Group routing

The round-robin balancer of package `route` and the filter of `GroupFilterBuilder`.  The
filter says yes to an address of the caller's group; `Pick` skips the addresses it says yes
to.
-/

namespace Soil.Route

open List

variable {SC : Type}

structure Address where
  group : Option Text

structure PickInfo where
  group : Option Text

abbrev Filter := PickInfo → Address → Option Bool

def groupFilter : Filter := fun info address => do
  let clientTag ← info.group
  let serviceTag ← address.group
  return serviceTag == clientTag

structure AttributeConn (SC : Type) where
  conn : SC
  addr : Address

inductive PickPanic where
  | interfaceConversion
  | integerDivideByZero
  deriving DecidableEq

inductive PickResult (SC : Type) where
  | picked (subConn : SC)
  | errNoSubConnAvailable
  | panics (p : PickPanic)
  deriving DecidableEq

structure Balancer (SC : Type) where
  connections : List (AttributeConn SC)
  next : UInt64
  filter : Option Filter

inductive Picker (SC : Type) where
  | errPicker
  | balancer (b : Balancer SC)

/-! ## Build and Pick -/

def collect (readySCs : List (SC × Address)) : List (AttributeConn SC) :=
  readySCs.map fun (conn, addr) => ⟨conn, addr⟩

def build (filter : Option Filter) (readySCs : List (SC × Address)) (next : UInt64) : Picker SC :=
  if readySCs.length = 0 then .errPicker
  else .balancer { connections := collect readySCs, next, filter }

def candidates (filter : Option Filter) (info : PickInfo) :
    List (AttributeConn SC) → Option (List (AttributeConn SC))
  | [] => some []
  | conn :: rest => do
    let skipped ← match filter with
      | none => some false
      | some filter => filter info conn.addr
    let others ← candidates filter info rest
    return if skipped then others else conn :: others

def Balancer.pick (b : Balancer SC) (info : PickInfo) : PickResult SC × Balancer SC :=
  match candidates b.filter info b.connections with
  | none => (.panics .interfaceConversion, b)
  | some candidates =>
    match candidates[b.next.toNat % candidates.length]? with
    -- the remainder is an index unless the list is empty
    | none => (.panics .integerDivideByZero, b)
    | some subConn => (.picked subConn.conn, { b with next := b.next + 1 })

def Picker.pick (p : Picker SC) (info : PickInfo) : PickResult SC × Picker SC :=
  match p with
  | .errPicker => (.errNoSubConnAvailable, .errPicker)
  | .balancer b => ((b.pick info).1, .balancer (b.pick info).2)

def Picker.after (p : Picker SC) (info : PickInfo) : Nat → Picker SC
  | 0 => p
  | t + 1 => ((p.after info t).pick info).2

def Picker.block (p : Picker SC) (info : PickInfo) (s n : Nat) : List (PickResult SC) :=
  (List.range' s n).map fun t => ((p.after info t).pick info).1

/-! ## What a pick does -/

abbrev Groups (SC : Type) := List (SC × Text)

namespace Groups

def readySCs (groups : Groups SC) : List (SC × Address) :=
  groups.map fun (conn, group) => (conn, ⟨some group⟩)

def members (groups : Groups SC) (tag : Text) : List SC :=
  (groups.filter (·.2 = tag)).map Prod.fst

def strangers (groups : Groups SC) (tag : Text) : List SC :=
  (groups.filter (·.2 ≠ tag)).map Prod.fst

def picker (groups : Groups SC) (next : UInt64) : Picker SC :=
  build (some groupFilter) groups.readySCs next

end Groups

open Groups

theorem candidates_groupFilter (groups : Groups SC) (tag : Text) :
    candidates (some groupFilter) ⟨some tag⟩ (collect groups.readySCs) =
      some ((groups.filter (·.2 ≠ tag)).map fun (conn, group) => ⟨conn, ⟨some group⟩⟩) := by
  induction groups with
  | nil => rfl
  | cons first rest ih =>
    simp only [collect, readySCs, map_cons, map_map] at ih ⊢
    by_cases same : first.2 = tag
    · simp [candidates, groupFilter, same, ih]
    · simp [candidates, groupFilter, same, ih]

theorem Balancer.pick_spec (groups : Groups SC) (tag : Text) (next : UInt64) :
    (Balancer.pick ⟨collect groups.readySCs, next, some groupFilter⟩ ⟨some tag⟩).1 =
      match (groups.strangers tag)[next.toNat % (groups.strangers tag).length]? with
      | none => .panics .integerDivideByZero
      | some subConn => .picked subConn := by
  rw [Balancer.pick, candidates_groupFilter, strangers]
  simp only [length_map, List.getElem?_map]
  cases (groups.filter (·.2 ≠ tag))[next.toNat % (groups.filter (·.2 ≠ tag)).length]? <;> rfl

/-! ## Routing by group -/

/-- Successive picks for a caller of the group: each block of as many picks as the group has
members visits each of them once; without members there is the error. -/
structure Routes (groups : Groups SC) (tag : Text) (next : UInt64) : Prop where
  visits : groups.members tag ≠ [] → ∀ s, ∃ conns : List SC, conns.Perm (groups.members tag) ∧
    (groups.picker next).block ⟨some tag⟩ s (groups.members tag).length = conns.map .picked
  refuses : groups.members tag = [] → ∀ t,
    (((groups.picker next).after ⟨some tag⟩ t).pick ⟨some tag⟩).1 = .errNoSubConnAvailable

variable {groups : Groups SC} {tag : Text} {next : UInt64}

theorem Groups.not_mem_both (distinct : (groups.map Prod.fst).Nodup) {sc : SC}
    (member : sc ∈ groups.members tag) : sc ∉ groups.strangers tag := by
  intro stranger
  obtain ⟨⟨_, own⟩, here, rfl⟩ := mem_map.mp member
  obtain ⟨⟨_, other⟩, there, same⟩ := mem_map.mp stranger
  obtain ⟨here, ofTag⟩ := mem_filter.mp here
  obtain ⟨there, notOfTag⟩ := mem_filter.mp there
  obtain rfl : other = own := (Prod.mk.inj (inj_on_of_nodup_map distinct there here same)).2
  simp only [decide_eq_true_eq] at ofTag notOfTag
  exact notOfTag ofTag

theorem Groups.first_pick (tag : Text) (next : UInt64) (some_ : groups ≠ []) :
    ((groups.picker next).pick ⟨some tag⟩).1 = .panics .integerDivideByZero ∨
      ∃ sc ∈ groups.strangers tag, ((groups.picker next).pick ⟨some tag⟩).1 = .picked sc := by
  have length : groups.readySCs.length ≠ 0 := by simpa [readySCs] using some_
  rw [picker, build, if_neg length, Picker.pick, Balancer.pick_spec]
  split
  · exact .inl rfl
  next sc at_ => exact .inr ⟨sc, mem_of_getElem? at_, rfl⟩

/-- For connections that are distinct, any counter and any group of the caller: picks are
routed by the group if and only if no connection is ready. -/
theorem routes_iff (groups : Groups SC) (distinct : (groups.map Prod.fst).Nodup) (tag : Text)
    (next : UInt64) : Routes groups tag next ↔ groups = [] := by
  constructor
  · intro routes
    by_contra some_
    have first := first_pick tag next some_
    by_cases alone : groups.members tag = []
    · have refused := routes.refuses alone 0
      rw [Picker.after] at refused
      simp [refused] at first
    obtain ⟨conns, same, results⟩ := routes.visits alone 0
    obtain ⟨sc, rest, members⟩ := exists_cons_of_ne_nil alone
    have begins : ((groups.picker next).pick ⟨some tag⟩).1 ∈ conns.map .picked := by
      rw [← results, members]
      simp [Picker.block, List.range'_succ, Picker.after]
    obtain ⟨picked, inside, first_⟩ := mem_map.mp begins
    rw [← first_] at first
    rcases first with panics | ⟨stranger, other, equal⟩
    · contradiction
    · obtain rfl : picked = stranger := PickResult.picked.inj equal
      exact not_mem_both distinct (same.mem_iff.mp inside) other
  · intro empty
    subst empty
    refine ⟨fun members => absurd rfl members, fun _ t => ?_⟩
    have kept : ((picker [] next).after ⟨some tag⟩ t : Picker SC) = .errPicker := by
      induction t with
      | zero => rfl
      | succ t ih => rw [Picker.after, ih]; rfl
    rw [kept]
    rfl

/-- Two connections, of which one is in the group of the caller: the other one is picked. -/
theorem routes_iff_two : ¬ Routes [(0, utf8 "a"), (1, utf8 "b")] (utf8 "a") 0 := by
  rw [routes_iff _ (by decide)]
  simp

/-- The pick for a caller of group `a` goes to the connection of group `b`, and with group `a`
alone it divides by zero. -/
theorem pick_leaves_group :
    ((Groups.picker [(0, utf8 "a"), (1, utf8 "b")] 0).pick ⟨some (utf8 "a")⟩).1 = .picked 1 ∧
      ((Groups.picker [(0, utf8 "a")] 0).pick ⟨some (utf8 "a")⟩).1 =
        .panics .integerDivideByZero := by
  decide

end Soil.Route
