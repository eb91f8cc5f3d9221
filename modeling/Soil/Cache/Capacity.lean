import Soil.Cache.LocalList
import Mathlib.Algebra.Order.BigOperators.Group.List

/-!
# The capacity of the local cache

What `Set` should do: end without a fault and without an overflow, keep what is stored within
the capacity, and store the value.
-/

namespace Soil.Cache

open List UInt32 AList Nat

variable {V : Type}

def addWraps (a b : UInt32) : Bool := 2 ^ 32 ≤ a.toNat + b.toNat

def subWraps (a b : UInt32) : Bool := a.toNat < b.toNat

def Item.measure (sizes : Sizes V) (i : Item V) : Nat :=
  match sizes.key i.key, sizes.value i.value with
  | .ok keySize, .ok valSize => keySize.toNat + valSize.toNat
  | _, _ => 0

namespace BuildInMapCache

def evictWraps (pairSize : UInt32) : Nat → Option Ref → UInt32 → BuildInMapCache V → Bool
  | 0, _, _, _ => false
  | fuel + 1, p, margin, c =>
    if margin < pairSize then
      match p with
      | none => false
      | some p =>
        addWraps margin (c.items p).size ||
          match c.removeTail with
          | .error _ => false
          | .ok (n, c) =>
            subWraps c.size (c.items p).size ||
              let c' :=
                { c with
                  data := c.data.erase (c.items n).key
                  size := c.size - (c.items p).size }
              evictWraps pairSize fuel (c'.links.prev p) (margin + (c.items p).size) c'
    else false

def setWraps (sizes : Sizes V) (c : BuildInMapCache V) (key : Text) (val : Option V) : Bool :=
  match sizes.key key, sizes.value val with
  | .ok keySize, .ok valSize =>
    let pairSize := keySize + valSize
    addWraps keySize valSize || addWraps c.size pairSize ||
      match c.data.lookup key with
      | some _ => false
      | none =>
        if c.capacity < c.size + pairSize then
          subWraps c.capacity c.size ||
            evictWraps pairSize (c.allocated + 1) (c.links.prev tail) (c.capacity - c.size) c ||
            addWraps (c.evict pairSize (c.allocated + 1) (c.links.prev tail)
              (c.capacity - c.size)).1.size pairSize
        else false
  | _, _ => false

def stored (sizes : Sizes V) (c : BuildInMapCache V) (data : AList fun _ : Text => Ref) : Nat :=
  (data.entries.map fun e => (c.items e.2).measure sizes).sum

structure Exact (sizes : Sizes V) (c : BuildInMapCache V) (xs : List Ref) : Prop
    extends c.Tracked sizes xs where
  total : c.size.toNat = c.bytes xs
  measured : ∀ key r, c.data.lookup key = some r →
    (c.items r).measure sizes = (c.items r).size.toNat

variable {sizes : Sizes V} {c c' : BuildInMapCache V} {xs ys : List Ref} {i : Item V}

theorem exact_new (capacity : UInt32) : (newBuildInMapCache V capacity).Exact sizes [] where
  toTracked := tracked_new capacity
  total := rfl
  measured key r found := by simp [newBuildInMapCache] at found

/-! ## What is stored -/

variable {e : Sigma fun _ : Text => Ref}

theorem lookup_of_mem_erase {key : Text}
    (inside : e ∈ (c.data.erase key).entries) : e.1 ≠ key ∧ c.data.lookup e.1 = some e.2 := by
  have found : (c.data.erase key).lookup e.1 = some e.2 := mem_lookup_iff.mpr inside
  have other : e.1 ≠ key := by
    intro own
    rw [own, lookup_erase] at found
    contradiction
  rw [lookup_erase_ne other] at found
  exact ⟨other, found⟩

theorem lookup_of_mem_entries (inside : e ∈ c.data.entries) : c.data.lookup e.1 = some e.2 :=
  mem_lookup_iff.mpr inside

theorem Tracked.nodup_refs (tracked : c.Tracked sizes xs) :
    (c.data.entries.map Sigma.snd).Nodup := by
  have keys : (c.data.entries.map Sigma.snd).map (fun r => (c.items r).key) = c.data.keys := by
    rw [map_map]
    refine map_congr_left fun e inside => ?_
    exact (tracked.held e.1 e.2 (lookup_of_mem_entries inside)).2.1
  apply List.Nodup.of_map fun r => (c.items r).key
  rw [keys]
  exact c.data.nodupKeys

theorem Tracked.refs_subset (tracked : c.Tracked sizes xs) : c.data.entries.map Sigma.snd ⊆ xs := by
  intro r there
  obtain ⟨e, inside, rfl⟩ := mem_map.mp there
  exact (tracked.held e.1 e.2 (lookup_of_mem_entries inside)).1

theorem Exact.stored_le (exact_ : c.Exact sizes xs) : c.stored sizes c.data ≤ c.bytes xs := by
  have sized : (c.data.entries.map fun e => (c.items e.2).measure sizes) =
      (c.data.entries.map Sigma.snd).map fun r => (c.items r).size.toNat := by
    rw [map_map]
    refine map_congr_left fun e inside => ?_
    exact exact_.measured e.1 e.2 (lookup_of_mem_entries inside)
  obtain ⟨rs, same, sub⟩ := subperm_of_subset exact_.nodup_refs exact_.refs_subset
  rw [stored, sized, ← (same.map _).sum_nat, bytes]
  exact (sub.map _).sum_le_sum fun _ _ => zero_le _

theorem Exact.stored_erase_le (exact_ : c.Exact sizes xs) (key : Text) :
    c.stored sizes (c.data.erase key) ≤ c.size.toNat := by
  rw [exact_.total]
  have less : c.stored sizes (c.data.erase key) ≤ c.stored sizes c.data :=
    ((kerase_sublist key c.data.entries).map _).sum_le_sum fun _ _ => zero_le _
  exact less.trans exact_.stored_le

section

variable (adds : Adds sizes c xs i ys c')
include adds

theorem Adds.lookup_of_ne {key : Text} (other : key ≠ i.key) :
    c'.data.lookup key = c.data.lookup key := by
  rw [adds.data, lookup_insert_ne other]

theorem Adds.lookup_self : c'.data.lookup i.key = some c.allocated := by
  rw [adds.data, lookup_insert]

theorem Adds.map_entries {β : Type} (tracked : c.Tracked sizes xs) (f : Item V → β) :
    (c'.data.entries.map fun e => f (c'.items e.2)) =
      f i :: (c.data.erase i.key).entries.map fun e => f (c.items e.2) := by
  rw [adds.data, entries_insert, map_cons, adds.item]
  refine congrArg _ (map_congr_left fun e inside => ?_)
  obtain ⟨other, found⟩ := lookup_of_mem_erase inside
  obtain ⟨there, own, -⟩ := tracked.held e.1 e.2 found
  rw [adds.others e.2 there (own.trans_ne other)]

theorem Adds.stored (tracked : c.Tracked sizes xs) :
    c'.stored sizes c'.data = i.measure sizes + c.stored sizes (c.data.erase i.key) := by
  rw [BuildInMapCache.stored, adds.map_entries tracked, sum_cons, BuildInMapCache.stored]

theorem Adds.exact (exact_ : c.Exact sizes xs)
    (sized : i.measure sizes = i.size.toNat) (fits : c.size.toNat + i.size.toNat < 2 ^ 32) :
    c'.Exact sizes (c.allocated :: ys) := by
  refine ⟨adds.tracked, ?_, fun key r found => ?_⟩
  · rw [adds.size, adds.bytes, UInt32.toNat_add, mod_eq_of_lt fits, exact_.total, add_comm]
  by_cases own : key = i.key
  · subst own
    obtain rfl : c.allocated = r := Option.some.inj (adds.lookup_self.symm.trans found)
    rw [adds.item, sized]
  · rw [adds.lookup_of_ne own] at found
    obtain ⟨inside, key_, -⟩ := exact_.held key r found
    rw [adds.others r inside (key_.trans_ne own)]
    exact exact_.measured key r found

end

/-! ## Making room -/

variable {margin : UInt32}

theorem grown_toNat {items : Ref → Item V} {out : List Ref}
    (small : margin.toNat + (out.map fun r => (items r).size.toNat).sum < 2 ^ 32) :
    (grown items margin out).toNat =
      margin.toNat + (out.map fun r => (items r).size.toNat).sum := by
  induction out generalizing margin with
  | nil => rfl
  | cons r out ih =>
    rw [map_cons, sum_cons] at small ⊢
    have first : (margin + (items r).size).toNat = margin.toNat + (items r).size.toNat := by
      rw [UInt32.toNat_add, mod_eq_of_lt (by omega)]
    have rest : (grown items (margin + (items r).size) out).toNat = _ := ih (by omega)
    rw [grown, foldl_cons, ← grown, rest]
    omega

theorem bytes_append : c.bytes (xs ++ ys) = c.bytes xs + c.bytes ys := by
  rw [bytes, map_append, sum_append, ← bytes, ← bytes]

theorem bytes_reverse : c.bytes xs.reverse = c.bytes xs := by
  rw [bytes, bytes, map_reverse, sum_reverse]

theorem Exact.sub_last {z : Ref} (exact_ : c.Exact sizes (ys ++ [z])) :
    (c.items z).size.toNat ≤ c.size.toNat ∧
      (c.size - (c.items z).size).toNat = c.size.toNat - (c.items z).size.toNat := by
  have small : (c.items z).size.toNat ≤ c.size.toNat := by
    rw [exact_.total, bytes_append, bytes_cons]
    omega
  exact ⟨small, UInt32.toNat_sub_of_le _ _ (UInt32.le_iff_toNat_le.mpr small)⟩

theorem Exact.shed_last {z : Ref} {links : Links Ref} (exact_ : c.Exact sizes (ys ++ [z]))
    (spans : links.Spans head tail ys) :
    BuildInMapCache.Exact sizes
      { c with
        links
        data := c.data.erase (c.items z).key
        size := c.size - (c.items z).size } ys where
  toTracked := exact_.toTracked.shed_last spans
  total := by
    have total := exact_.total
    rw [bytes_append, bytes_cons] at total
    simp only [exact_.sub_last.2]
    exact Nat.sub_eq_of_eq_add total
  measured key r found := by
    obtain ⟨-, found⟩ := lookup_of_mem_erase (mem_lookup_iff.mp found)
    exact exact_.measured key r found

theorem Exact.evictWraps {fuel : Nat} {p : Option Ref} {pairSize : UInt32}
    (exact_ : c.Exact sizes xs) (at_ : p = some (xs.getLast?.getD head))
    (fits : pairSize.toNat ≤ c.capacity.toNat)
    (rest : margin.toNat + c.size.toNat = c.capacity.toNat) :
    c.evictWraps pairSize fuel p margin = false := by
  induction fuel generalizing c xs p margin with
  | zero => rfl
  | succ fuel ih =>
    subst at_
    rw [BuildInMapCache.evictWraps]
    split
    next short =>
      have short := UInt32.lt_iff_toNat_lt.mp short
      rcases eq_nil_or_concat' xs with rfl | ⟨ys, z, rfl⟩
      · -- with an empty list the margin is the capacity
        have empty : c.size.toNat = 0 := exact_.total
        omega
      obtain ⟨links, takes, spans, next⟩ := removeTail_eq exact_.spans
      obtain ⟨small, less⟩ := exact_.sub_last
      have limit := c.capacity.toNat_lt
      have grown : (margin + (c.items z).size).toNat =
          margin.toNat + (c.items z).size.toNat := by
        rw [UInt32.toNat_add, mod_eq_of_lt (by omega)]
      have later : BuildInMapCache.evictWraps pairSize fuel _ (margin + (c.items z).size) _ =
          false := ih (exact_.shed_last spans) next fits (by simp; omega)
      have adds : addWraps margin (c.items z).size = false := by
        simp only [addWraps, decide_eq_false_iff_not]
        omega
      have subs : subWraps c.size (c.items z).size = false := by
        simp only [subWraps, decide_eq_false_iff_not]
        omega
      simp [takes, adds, subs, later]
    next => rfl

section

variable {kept : List Ref} {made : BuildInMapCache V} {fault : Option (Result V)}
  {pairSize : UInt32} (within : c.size.toNat ≤ c.capacity.toNat)
  (split_ : xs.reverse = shed c.items pairSize (c.capacity - c.size) xs.reverse ++ kept.reverse)
include within split_

theorem grown_shed (total : c.size.toNat = c.bytes xs) : c.bytes kept ≤ c.capacity.toNat ∧
      (grown c.items (c.capacity - c.size)
        (shed c.items pairSize (c.capacity - c.size) xs.reverse)).toNat =
        c.capacity.toNat - c.bytes kept := by
  have margin : (c.capacity - c.size).toNat = c.capacity.toNat - c.size.toNat :=
    UInt32.toNat_sub_of_le _ _ (UInt32.le_iff_toNat_le.mpr within)
  have parts : c.bytes xs =
      c.bytes (shed c.items pairSize (c.capacity - c.size) xs.reverse) + c.bytes kept := by
    have both := congrArg c.bytes split_
    rwa [bytes_append, bytes_reverse, bytes_reverse] at both
  have limit := c.capacity.toNat_lt
  refine ⟨by omega, ?_⟩
  rw [grown_toNat (by rw [← bytes]; omega), ← bytes]
  omega

theorem Shed.counted (total : c.size.toNat = c.bytes xs)
    (sheds : Shed sizes c pairSize (c.capacity - c.size) kept
      (shed c.items pairSize (c.capacity - c.size) xs.reverse) (made, fault)) :
    made.size.toNat = made.bytes kept ∧ made.size.toNat ≤ c.capacity.toNat ∧
      (fault = none → made.size.toNat + pairSize.toNat ≤ c.capacity.toNat) := by
  obtain ⟨less, margin⟩ := grown_shed within split_ total
  have limit := c.capacity.toNat_lt
  have items : made.items = c.items := sheds.items
  have same : made.bytes kept = c.bytes kept := by
    rw [bytes, bytes, items]
  have counted : made.size.toNat = c.bytes kept := by
    rw [sheds.tracked.sum, same, mod_eq_of_lt (by omega)]
  refine ⟨counted.trans same.symm, by omega, fun ends => ?_⟩
  rcases sheds.ends with ⟨-, -, fault_⟩ | ⟨wide, -⟩
  · have fault_ : fault = some .nilDereference := fault_
    rw [ends] at fault_
    contradiction
  · rw [lt_iff_toNat_lt, margin] at wide
    omega

theorem Exact.shed_fault_iff (exact_ : c.Exact sizes xs)
    (sheds : Shed sizes c pairSize (c.capacity - c.size) kept
      (shed c.items pairSize (c.capacity - c.size) xs.reverse) (made, fault)) :
    fault = none ↔ pairSize.toNat ≤ c.capacity.toNat := by
  obtain ⟨-, margin⟩ := grown_shed within split_ exact_.total
  rcases sheds.ends with ⟨short, rfl, fault_⟩ | ⟨wide, none_⟩
  · -- the list is empty, and the margin is the capacity
    have fault_ : fault = some .nilDereference := fault_
    rw [lt_iff_toNat_lt, margin, bytes, map_nil, sum_nil] at short
    exact iff_of_false (by simp [fault_]) (by omega)
  · rw [lt_iff_toNat_lt, margin] at wide
    exact iff_of_true none_ (by omega)

theorem Exact.room (exact_ : c.Exact sizes xs)
    (sheds : Shed sizes c pairSize (c.capacity - c.size) kept
      (shed c.items pairSize (c.capacity - c.size) xs.reverse) (made, none)) :
    made.Exact sizes kept ∧ made.size.toNat + pairSize.toNat ≤ c.capacity.toNat := by
  obtain ⟨counted, -, room⟩ := sheds.counted within split_ exact_.total
  have items : made.items = c.items := sheds.items
  refine ⟨⟨sheds.tracked, counted, fun key r found => ?_⟩, room rfl⟩
  rw [sheds.lookup] at found
  split at found
  · contradiction
  · rw [items]
    exact exact_.measured key r found

end

/-! ## Lists without forgotten items -/

def Live (c : BuildInMapCache V) (xs : List Ref) : Prop :=
  ∀ r ∈ xs, c.data.lookup (c.items r).key = some r

section

variable (live : c.Live xs)
include live

theorem Live.perm_refs (tracked : c.Tracked sizes xs) : (c.data.entries.map Sigma.snd).Perm xs := by
  refine (perm_ext_iff_of_nodup tracked.nodup_refs tracked.nodup).mpr fun r =>
    ⟨fun inside => tracked.refs_subset inside, fun inside => ?_⟩
  exact mem_map.mpr ⟨⟨_, r⟩, mem_lookup_iff.mp (live r inside), rfl⟩

theorem Live.key_ne {r s : Ref} (here : r ∈ xs) (there : s ∈ xs)
    (other : r ≠ s) : (c.items r).key ≠ (c.items s).key := by
  intro same
  have found := live r here
  rw [same, live s there] at found
  exact other (Option.some.inj found).symm

theorem Live.other {r : Ref} {key : Text} (absent : c.data.lookup key = none)
    (inside : r ∈ xs) : (c.items r).key ≠ key := by
  intro same
  have found := live r inside
  rw [same, absent] at found
  contradiction

theorem Live.adds (adds : Adds sizes c xs i xs c')
    (absent : c.data.lookup i.key = none) : c'.Live (c.allocated :: xs) := by
  intro r inside
  rcases mem_cons.mp inside with rfl | inside
  · rw [adds.item, adds.lookup_self]
  · have other := live.other absent inside
    rw [adds.others r inside other, adds.lookup_of_ne other]
    exact live r inside

theorem Live.shed {kept : List Ref} {pairSize : UInt32}
    {result : BuildInMapCache V × Option (Result V)} (tracked : c.Tracked sizes xs)
    (split_ : xs.reverse = BuildInMapCache.shed c.items pairSize margin xs.reverse ++ kept.reverse)
    (sheds : Shed sizes c pairSize margin kept
      (BuildInMapCache.shed c.items pairSize margin xs.reverse) result) : result.1.Live kept := by
  -- the keys of the items that are kept are not among those taken out
  intro r inside
  have nodup := nodup_reverse.mpr tracked.nodup
  rw [split_, nodup_append] at nodup
  have there : r ∈ xs := by
    rw [← mem_reverse, split_]
    exact mem_append_right _ (mem_reverse.mpr inside)
  have stays : (c.items r).key ∉
      (BuildInMapCache.shed c.items pairSize margin xs.reverse).map fun r => (c.items r).key := by
    intro out
    obtain ⟨s, gone, same⟩ := mem_map.mp out
    have before : s ∈ xs := by
      rw [← mem_reverse, split_]
      exact mem_append_left _ gone
    exact live.key_ne before there (nodup.2.2 s gone r (mem_reverse.mpr inside)) same
  rw [sheds.items, sheds.lookup, if_neg stays]
  exact live r there

end

/-! ## `Set` -/

section

variable {key : Text} {val : Option V} {keySize valSize : UInt32} (expiration now : Int)

theorem measure_newItem (keyed : sizes.key key = .ok keySize)
    (valued : sizes.value val = .ok valSize) :
    (newItem key val expiration now (keySize + valSize)).measure sizes =
      keySize.toNat + valSize.toNat := by
  simp [Item.measure, newItem, keyed, valued]

theorem toNat_pair (counted : c.size.toNat + (keySize.toNat + valSize.toNat) < 2 ^ 32) :
    (keySize + valSize).toNat = keySize.toNat + valSize.toNat := by
  rw [UInt32.toNat_add, mod_eq_of_lt (by omega)]

theorem full_iff (counted : c.size.toNat + (keySize.toNat + valSize.toNat) < 2 ^ 32) :
    c.capacity < c.size + (keySize + valSize) ↔
      c.capacity.toNat < c.size.toNat + (keySize.toNat + valSize.toNat) := by
  rw [UInt32.lt_iff_toNat_lt, UInt32.toNat_add, toNat_pair counted, mod_eq_of_lt counted]

theorem Adds.exact_newItem
    (adds : Adds sizes c xs (newItem key val expiration now (keySize + valSize)) ys c')
    (exact_ : c.Exact sizes xs) (keyed : sizes.key key = .ok keySize)
    (valued : sizes.value val = .ok valSize)
    (counted : c.size.toNat + (keySize.toNat + valSize.toNat) < 2 ^ 32) :
    c'.Exact sizes (c.allocated :: ys) := by
  have pair := toNat_pair counted
  refine adds.exact exact_ ?_ ?_
  · rw [measure_newItem expiration now keyed valued, newItem, pair]
  · rw [newItem, pair]
    exact counted

theorem Adds.getRead {pairSize : UInt32} {t : Int}
    (adds : Adds sizes c xs (newItem key val expiration now pairSize) ys c')
    (fresh : 0 < expiration → t ≤ now + expiration) : c'.getRead key t = some (.value val) := by
  have found : c'.data.lookup key = some c.allocated := adds.lookup_self
  have alive : (newItem key val expiration now pairSize).deadlineBefore t = false := by
    rw [Item.deadlineBefore, newItem]
    split
    next positive => simpa using fresh positive
    next => rfl
  simp only [BuildInMapCache.getRead, found, adds.item, alive]
  rfl

/-- What `Set` should do: end without a fault and without a wrap, leave no more than the capacity
stored, and store its value if the pair can be stored at all. -/
structure Bounded (sizes : Sizes V) (c : BuildInMapCache V) (key : Text) (val : Option V)
    (expiration now : Int) (pair : Nat) : Prop where
  ends : (c.set sizes key val expiration now).2 = .done
  exact_ : c.setWraps sizes key val = false
  within : (c.set sizes key val expiration now).1.stored sizes
    (c.set sizes key val expiration now).1.data ≤ c.capacity.toNat
  returned : pair ≤ c.capacity.toNat → ∀ t, (0 < expiration → t ≤ now + expiration) →
    (c.set sizes key val expiration now).1.getRead key t = some (.value val)

/-- The counter can take the pair, and so can the capacity: all of it if the key is new and the
counter is within it, what the other entries leave if the key is present. -/
def Fits (sizes : Sizes V) (c : BuildInMapCache V) (key : Text) (pair : Nat) : Prop :=
  c.size.toNat + pair < 2 ^ 32 ∧
    match c.data.lookup key with
    | none => c.size.toNat ≤ c.capacity.toNat ∧ pair ≤ c.capacity.toNat
    | some _ => c.stored sizes (c.data.erase key) + pair ≤ c.capacity.toNat

theorem lt_of_setWraps (keyed : sizes.key key = .ok keySize)
    (valued : sizes.value val = .ok valSize) (exact_ : c.setWraps sizes key val = false) :
    c.size.toNat + (keySize.toNat + valSize.toNat) < 2 ^ 32 := by
  simp only [setWraps, keyed, valued, Bool.or_eq_false_iff, addWraps, decide_eq_false_iff_not,
    not_le] at exact_
  obtain ⟨⟨pair, total⟩, -⟩ := exact_
  rwa [UInt32.toNat_add, mod_eq_of_lt pair] at total

section

variable (exact_ : c.Exact sizes xs)
  (keyed : sizes.key key = .ok keySize) (valued : sizes.value val = .ok valSize)
include exact_ keyed valued

theorem Adds.stored_newItem
    (adds : Adds sizes c xs (newItem key val expiration now (keySize + valSize)) ys c') :
    c'.stored sizes c'.data =
      keySize.toNat + valSize.toNat + c.stored sizes (c.data.erase key) := by
  rw [adds.stored exact_.toTracked, measure_newItem expiration now keyed valued, newItem]

theorem Exact.fits_of_bounded
    (bounded : c.Bounded sizes key val expiration now (keySize.toNat + valSize.toNat)) :
    c.Fits sizes key (keySize.toNat + valSize.toNat) := by
  have counted := lt_of_setWraps keyed valued bounded.exact_
  refine ⟨counted, ?_⟩
  cases there : c.data.lookup key with
  | some node =>
    obtain ⟨ys, c', adds, stored⟩ := exact_.set_present expiration now keyed valued there
    have within := bounded.within
    rw [stored] at within
    simp only [adds.stored_newItem expiration now exact_ keyed valued] at within ⊢
    omega
  | none =>
    by_cases full : c.capacity < c.size + (keySize + valSize)
    · have within : c.size.toNat ≤ c.capacity.toNat := by
        have wraps := bounded.exact_
        simp only [setWraps, keyed, valued, there, if_pos full, Bool.or_eq_false_iff, subWraps,
          decide_eq_false_iff_not] at wraps
        omega
      refine ⟨within, ?_⟩
      obtain ⟨kept, made, fault, -, split_, sheds, ⟨-, fails⟩ | ⟨none_, -⟩⟩ :=
        exact_.set_full expiration now keyed valued there full
      · have ends := bounded.ends
        rw [fails] at ends
        contradiction
      · rw [← toNat_pair counted]
        exact (exact_.shed_fault_iff within split_ sheds).mp none_
    · rw [full_iff counted] at full
      omega

theorem Exact.set_fits (fits : c.Fits sizes key (keySize.toNat + valSize.toNat)) :
    ∃ made zs ys c', made.Exact sizes zs ∧
      Adds sizes made zs (newItem key val expiration now (keySize + valSize)) ys c' ∧
      c.set sizes key val expiration now = (c', .done) ∧ c.setWraps sizes key val = false ∧
      made.size.toNat + (keySize.toNat + valSize.toNat) < 2 ^ 32 ∧
      made.stored sizes (made.data.erase key) + (keySize.toNat + valSize.toNat) ≤
        c.capacity.toNat := by
  obtain ⟨counted, fits⟩ := fits
  have pair := toNat_pair counted
  have wraps : addWraps keySize valSize = false ∧ addWraps c.size (keySize + valSize) = false := by
    simp only [addWraps, pair, decide_eq_false_iff_not]
    omega
  cases there : c.data.lookup key with
  | some =>
    rw [there] at fits
    obtain ⟨ys, c', adds, stored⟩ := exact_.set_present expiration now keyed valued there
    refine ⟨c, xs, ys, c', exact_, adds, stored, ?_, counted, fits⟩
    simp [setWraps, keyed, valued, there, wraps]
  | none =>
    rw [there] at fits
    obtain ⟨within, fits⟩ := fits
    by_cases full : c.capacity < c.size + (keySize + valSize)
    · obtain ⟨kept, made, fault, evicted, split_, sheds, ends⟩ :=
        exact_.set_full expiration now keyed valued there full
      obtain rfl : fault = none := (exact_.shed_fault_iff within split_ sheds).mpr (by omega)
      obtain ⟨exact', room⟩ := exact_.room within split_ sheds
      rcases ends with ⟨fault_, -⟩ | ⟨-, c', adds, stored⟩
      · contradiction
      have limit := c.capacity.toNat_lt
      have less := exact'.stored_erase_le key
      refine ⟨made, kept, kept, c', exact', adds, stored, ?_, by omega, by omega⟩
      have margin : (c.capacity - c.size).toNat = c.capacity.toNat - c.size.toNat :=
        UInt32.toNat_sub_of_le _ _ (UInt32.le_iff_toNat_le.mpr within)
      have loop : c.evictWraps (keySize + valSize) (c.allocated + 1) (c.links.prev tail)
          (c.capacity - c.size) = false :=
        exact_.evictWraps exact_.spans.prev_last (by omega) (by omega)
      have first : subWraps c.capacity c.size = false := by
        simp only [subWraps, decide_eq_false_iff_not]
        omega
      have last : addWraps made.size (keySize + valSize) = false := by
        simp only [addWraps, decide_eq_false_iff_not]
        omega
      simp [setWraps, keyed, valued, there, wraps, first, loop, evicted, last]
    · obtain ⟨c', adds, stored⟩ := exact_.set_room expiration now keyed valued there full
      have less := exact_.stored_erase_le key
      have room := mt (full_iff counted).mpr full
      refine ⟨c, xs, xs, c', exact_, adds, stored, ?_, counted, by omega⟩
      simp [setWraps, keyed, valued, there, if_neg full, wraps]

theorem Exact.set_bounded_iff :
    c.Bounded sizes key val expiration now (keySize.toNat + valSize.toNat) ↔
      c.Fits sizes key (keySize.toNat + valSize.toNat) := by
  refine ⟨exact_.fits_of_bounded expiration now keyed valued, fun fits => ?_⟩
  obtain ⟨made, zs, ys, c', exact', adds, stored, wraps, -, within⟩ :=
    exact_.set_fits expiration now keyed valued fits
  refine ⟨by rw [stored], wraps, ?_, fun _ t fresh => ?_⟩
  · rw [stored]
    simp only [adds.stored_newItem expiration now exact' keyed valued]
    omega
  · rw [stored]
    exact adds.getRead expiration now fresh

theorem Exact.set_exact (fits : c.Fits sizes key (keySize.toNat + valSize.toNat)) :
    ∃ ys, (c.set sizes key val expiration now).1.Exact sizes ys := by
  obtain ⟨made, zs, ys, c', exact', adds, stored, -, counted, -⟩ :=
    exact_.set_fits expiration now keyed valued fits
  rw [stored]
  exact ⟨_, adds.exact_newItem expiration now exact' keyed valued counted⟩

end

end

theorem Exact.moveToHead {node : Ref} {before after : List Ref}
    (exact_ : c.Exact sizes (before ++ node :: after)) :
    ∃ links, c.moveToHead node = .ok { c with links } ∧
      BuildInMapCache.Exact sizes { c with links } (node :: (before ++ after)) := by
  obtain ⟨links, moved, tracked⟩ := exact_.toTracked.moveToHead
  have same : (before ++ node :: after).Perm (node :: (before ++ after)) := perm_middle
  exact ⟨links, moved, tracked, exact_.total.trans (same.map _).sum_nat, exact_.measured⟩

theorem Exact.deleteItem (exact_ : c.Exact sizes xs) (key : Text) :
    (c.deleteItem key).Exact sizes xs := by
  have tracked := exact_.toTracked.deleteItem key
  rw [BuildInMapCache.deleteItem] at tracked ⊢
  split
  · exact exact_
  next node present =>
    rw [present] at tracked
    refine ⟨tracked, exact_.total, fun other r found => ?_⟩
    obtain ⟨-, found⟩ := lookup_of_mem_erase (mem_lookup_iff.mp found)
    exact exact_.measured other r found

end BuildInMapCache

/-! ## Runs -/

open BuildInMapCache

def Op.Bounded (sizes : Sizes V) (c : BuildInMapCache V) : Op V → Prop
  | .set key val expiration now => ∀ keySize valSize, sizes.key key = .ok keySize →
      sizes.value val = .ok valSize →
      c.Bounded sizes key val expiration now (keySize.toNat + valSize.toNat)
  | _ => True

def Op.Fits (sizes : Sizes V) (c : BuildInMapCache V) : Op V → Prop
  | .set key val _ _ => ∀ keySize valSize, sizes.key key = .ok keySize →
      sizes.value val = .ok valSize → c.Fits sizes key (keySize.toNat + valSize.toNat)
  | _ => True

variable {sizes : Sizes V} {c : BuildInMapCache V} {xs : List Ref}

theorem Op.bounded_iff_fits (exact_ : c.Exact sizes xs) (op : Op V) :
    op.Bounded sizes c ↔ op.Fits sizes c := by
  cases op with
  | set key val expiration now =>
    exact forall₄_congr fun _ _ keyed valued => exact_.set_bounded_iff expiration now keyed valued
  | getRead | getLocked | delete | sweep => exact Iff.rfl

theorem Op.run_exact (exact_ : c.Exact sizes xs) (op : Op V) (fits : op.Fits sizes c) :
    ∃ ys, (op.run sizes c).Exact sizes ys := by
  cases op with
  | getRead => exact ⟨xs, exact_⟩
  | set key val expiration now =>
    rw [run]
    rcases measured_or sizes key val with ⟨keySize, valSize, keyed, valued⟩ | fails
    · exact exact_.set_exact expiration now keyed valued (fits keySize valSize keyed valued)
    · rw [set_error fails]
      exact ⟨xs, exact_⟩
  | getLocked key now =>
    rw [run, BuildInMapCache.getLocked]
    split
    · exact ⟨xs, exact_⟩
    next node present =>
      split
      · exact ⟨xs, exact_.deleteItem key⟩
      · obtain ⟨before, after, rfl⟩ := append_of_mem (exact_.held key node present).1
        obtain ⟨links, moved, kept⟩ := exact_.moveToHead
        rw [moved]
        exact ⟨_, kept⟩
  | delete key =>
    rw [run, BuildInMapCache.delete]
    split
    · exact ⟨xs, exact_⟩
    · exact ⟨xs, exact_.deleteItem key⟩
  | sweep t visited =>
    exact ⟨xs, sweep_keeps (P := fun c => c.Exact sizes xs) t _
      (fun _ key exact_ => exact_.deleteItem key) exact_⟩

/-- Along every run of a new cache: all calls of `Set` that can measure their key and value end
without a fault and without a wrap, leave no more than the capacity stored and store their value
if and only if the pair of each of them fits. -/
theorem bounded_iff (sizes : Sizes V) (capacity : UInt32) (ops : List (Op V)) :
    (∀ before op, before ++ [op] <+: ops →
      op.Bounded sizes (exec sizes (newBuildInMapCache V capacity) before)) ↔
    ∀ before op, before ++ [op] <+: ops →
      op.Fits sizes (exec sizes (newBuildInMapCache V capacity) before) := by
  have agree (c : BuildInMapCache V) (op : Op V) (exact_ : ∃ xs, c.Exact sizes xs) :
      op.Bounded sizes c ↔ op.Fits sizes c := by
    obtain ⟨xs, exact_⟩ := exact_
    exact Op.bounded_iff_fits exact_ op
  have keeps (c : BuildInMapCache V) (op : Op V) (exact_ : ∃ xs, c.Exact sizes xs)
      (fits : op.Fits sizes c) : ∃ ys, (op.run sizes c).Exact sizes ys := by
    obtain ⟨xs, exact_⟩ := exact_
    exact Op.run_exact exact_ op fits
  exact forall_step_iff agree keeps ⟨[], exact_new capacity⟩ ops

/-- A pair that is larger than the capacity runs past the head of the list; a longer value for a
key that is present is stored without a look at the capacity; and three values for one key are
counted three times, so that the margin wraps when another key comes. -/
theorem set_unbounded :
    let sizes : Sizes Nat := ⟨fun key => .ok (16 + ofNat key.length),
      fun val => .ok (ofNat (val.getD 0))⟩
    let c := newBuildInMapCache Nat 60
    let once := exec sizes c [.set (utf8 "k") (some 8) 0 0]
    let thrice := exec sizes once [.set (utf8 "k") (some 8) 0 0, .set (utf8 "k") (some 8) 0 0]
    ¬ Op.Bounded sizes c (.set (utf8 "k") (some 50) 0 0) ∧
      ¬ Op.Bounded sizes once (.set (utf8 "k") (some 50) 0 0) ∧
      ¬ Op.Bounded sizes thrice (.set (utf8 "j") (some 8) 0 0) := by
  intro sizes c once thrice
  refine ⟨fun bounded => ?_, fun bounded => ?_, fun bounded => ?_⟩
  · have ends := (bounded 17 50 rfl rfl).ends
    revert ends
    decide +kernel
  · have within := (bounded 17 50 rfl rfl).within
    revert within
    decide +kernel
  · have wraps := (bounded 17 8 rfl rfl).exact_
    revert wraps
    decide +kernel

end Soil.Cache
