import Soil.Cache.LocalInvariant

/-!
# Every state of the local cache

Overwrites and deletions leave items in the list that the map does not know.  `Tracked` is
what holds all the same: the list spans its items, the entries of the map are among them, and
the counter is the sum of their sizes as far as 32 bits go.
-/

namespace Soil.Cache

open List Function BuildInMapCache

variable {V : Type}

def Item.Measured (sizes : Sizes V) (i : Item V) : Prop :=
  ∃ keySize valSize, sizes.key i.key = .ok keySize ∧ sizes.value i.value = .ok valSize ∧
    i.size = keySize + valSize

namespace BuildInMapCache

structure Tracked (sizes : Sizes V) (c : BuildInMapCache V) (xs : List Ref) : Prop where
  spans : c.links.Spans head tail xs
  allocated : ∀ r ∈ head :: (xs ++ [tail]), r < c.allocated
  held : ∀ key r, c.data.lookup key = some r →
    r ∈ xs ∧ (c.items r).key = key ∧ (c.items r).Measured sizes
  sum : c.size.toNat = c.bytes xs % 2 ^ 32

variable {sizes : Sizes V} {c : BuildInMapCache V} {xs : List Ref}

theorem tracked_new (capacity : UInt32) : (newBuildInMapCache V capacity).Tracked sizes [] where
  spans := by
    refine ⟨by decide, ?_, rfl, rfl⟩
    exact isChain_pair.mpr ⟨rfl, rfl⟩
  allocated := by simp [newBuildInMapCache, head, tail]
  held key r found := by simp [newBuildInMapCache] at found
  sum := rfl

theorem Tracked.nodup (tracked : c.Tracked sizes xs) : xs.Nodup :=
  (nodup_append.mp (nodup_cons.mp tracked.spans.nodup).2).1

theorem Tracked.lt_allocated (tracked : c.Tracked sizes xs) {r : Ref} (inside : r ∈ xs) :
    r < c.allocated :=
  tracked.allocated r (by simp [inside])

/-! ## A new item -/

def newItem (key : Text) (val : Option V) (expiration now : Int) (pairSize : UInt32) : Item V where
  key := key
  value := val
  size := pairSize
  deadline := if expiration > 0 then some (now + expiration) else none

/-- A new item has been added to a cache with the items `xs`.  They come in the order `ys` behind
it, with the sizes they had; those of other keys are as they were. -/
structure Adds (sizes : Sizes V) (c : BuildInMapCache V) (xs : List Ref) (i : Item V)
    (ys : List Ref) (c' : BuildInMapCache V) : Prop where
  tracked : c'.Tracked sizes (c.allocated :: ys)
  same : ys.Perm xs
  item : c'.items c.allocated = i
  sized : ∀ r ∈ xs, (c'.items r).size = (c.items r).size
  others : ∀ r ∈ xs, (c.items r).key ≠ i.key → c'.items r = c.items r
  data : c'.data = c.data.insert i.key c.allocated
  size : c'.size = c.size + i.size
  capacity : c'.capacity = c.capacity
  evicted : c'.evicted = c.evicted

theorem bytes_cons (r : Ref) : c.bytes (r :: xs) = (c.items r).size.toNat + c.bytes xs := by
  rw [bytes, map_cons, sum_cons, bytes]

variable {ys : List Ref} {i : Item V} {c' : BuildInMapCache V}

theorem bytes_added (same : ys.Perm xs)
    (item : c'.items c.allocated = i) (sized : ∀ r ∈ xs, (c'.items r).size = (c.items r).size) :
    c'.bytes (c.allocated :: ys) = i.size.toNat + c.bytes xs := by
  rw [bytes_cons, item, bytes, bytes, (same.map _).sum_nat]
  have equal : (xs.map fun r => (c'.items r).size.toNat) = xs.map fun r => (c.items r).size.toNat :=
    map_congr_left fun r inside => by rw [sized r inside]
  rw [equal]

theorem Adds.bytes
    (adds : Adds sizes c xs i ys c') : c'.bytes (c.allocated :: ys) = i.size.toNat + c.bytes xs :=
  bytes_added adds.same adds.item adds.sized

variable {links : Links Ref} {items : Ref → Item V}

theorem Tracked.adds (tracked : c.Tracked sizes xs) (same : ys.Perm xs)
    (spans : links.Spans head tail (c.allocated :: ys)) (measured : i.Measured sizes)
    (sized : ∀ r ∈ xs, (items r).size = (c.items r).size)
    (others : ∀ r ∈ xs, (c.items r).key ≠ i.key → items r = c.items r) :
    Adds sizes c xs i ys
      { c with
        items := Function.update items c.allocated i
        data := c.data.insert i.key c.allocated
        allocated := c.allocated + 1
        links
        size := c.size + i.size } := by
  have update {r : Ref} (inside : r ∈ xs) : Function.update items c.allocated i r = items r :=
    Function.update_of_ne (tracked.lt_allocated inside).ne i items
  have item : Function.update items c.allocated i c.allocated = i := Function.update_self ..
  have sized' : ∀ r ∈ xs, (Function.update items c.allocated i r).size = (c.items r).size :=
    fun r inside => by rw [update inside, sized r inside]
  have others' : ∀ r ∈ xs, (c.items r).key ≠ i.key →
      Function.update items c.allocated i r = c.items r :=
    fun r inside other => by rw [update inside, others r inside other]
  refine ⟨⟨spans, fun r inside => ?_, fun key r found => ?_, ?_⟩, same, item, sized', others', rfl,
    rfl, rfl, rfl⟩
  · have inside : r = c.allocated ∨ r ∈ head :: (xs ++ [tail]) := by
      simp only [cons_append, mem_cons, mem_append, same.mem_iff] at inside ⊢
      tauto
    rcases inside with rfl | old
    · exact Nat.lt_succ_self _
    · exact Nat.lt_succ_of_lt (tracked.allocated r old)
  · by_cases own : key = i.key
    · subst own
      obtain rfl : c.allocated = r := by simpa using found
      simpa using measured
    · rw [AList.lookup_insert_ne own] at found
      obtain ⟨inside, key_, measured'⟩ := tracked.held key r found
      simp only [others' r inside (key_.trans_ne own)]
      exact ⟨by simp [same.mem_iff, inside], key_, measured'⟩
  · rw [bytes_added same item sized']
    have sum := tracked.sum
    simp only [UInt32.toNat_add]
    omega

theorem Tracked.setItem_adds {key : Text}
    {val : Option V} {pairSize : UInt32} (expiration now : Int) (tracked : c.Tracked sizes xs)
    (same : ys.Perm xs) (spans : links.Spans head tail ys)
    (measured : (newItem key val expiration now pairSize).Measured sizes)
    (sized : ∀ r ∈ xs, (items r).size = (c.items r).size)
    (others : ∀ r ∈ xs, (c.items r).key ≠ key → items r = c.items r) :
    ∃ c', Adds sizes c xs (newItem key val expiration now pairSize) ys c' ∧
      setItem { c with items, links } key val expiration now pairSize = (c', .done) := by
  have allocated : ∀ r ∈ head :: (ys ++ [tail]), r < c.allocated := by
    intro r inside
    refine tracked.allocated r ?_
    simpa only [mem_cons, mem_append, same.mem_iff] using inside
  rcases setItem_eq (c := { c with items, links }) spans allocated key val expiration now pairSize
    with ⟨links', spans', stored⟩
  exact ⟨_, tracked.adds same spans' measured sized others, stored⟩

/-! ## Making room -/

def shed (items : Ref → Item V) (pairSize : UInt32) : UInt32 → List Ref → List Ref
  | _, [] => []
  | margin, z :: rest =>
    if margin < pairSize then z :: shed items pairSize (margin + (items z).size) rest else []

def grown (items : Ref → Item V) (margin : UInt32) (out : List Ref) : UInt32 :=
  out.foldl (fun m r => m + (items r).size) margin

/-- How making room ends: the items `out` are taken from the list, their keys from the map,
and their sizes from the counter; with room enough or, when the list is empty, in a nil
pointer. -/
structure Shed (sizes : Sizes V) (c : BuildInMapCache V) (pairSize margin : UInt32)
    (kept out : List Ref) (result : BuildInMapCache V × Option (Result V)) : Prop where
  tracked : result.1.Tracked sizes kept
  items : result.1.items = c.items
  allocated : result.1.allocated = c.allocated
  capacity : result.1.capacity = c.capacity
  evicted : result.1.evicted = c.evicted
  lookup : ∀ key, result.1.data.lookup key =
    if key ∈ out.map (fun r => (c.items r).key) then none else c.data.lookup key
  ends : grown c.items margin out < pairSize ∧ kept = [] ∧ result.2 = some .nilDereference ∨
    ¬ grown c.items margin out < pairSize ∧ result.2 = none

theorem Tracked.shed_last {z : Ref} (tracked : c.Tracked sizes (ys ++ [z]))
    (spans : links.Spans head tail ys) :
    Tracked sizes
      { c with
        links
        data := c.data.erase (c.items z).key
        size := c.size - (c.items z).size } ys := by
  refine ⟨spans, fun r inside => tracked.allocated r ?_, fun key r found => ?_, ?_⟩
  · simp only [mem_cons, mem_append] at inside ⊢
    tauto
  · have other : key ≠ (c.items z).key := by
      intro own
      rw [own, AList.lookup_erase] at found
      contradiction
    rw [AList.lookup_erase_ne other] at found
    obtain ⟨inside, key_, measured⟩ := tracked.held key r found
    refine ⟨?_, key_, measured⟩
    rcases mem_append.mp inside with inside | last
    · exact inside
    · rw [mem_singleton.mp last] at key_
      exact absurd key_.symm other
  · have sum := tracked.sum
    have small := (c.items z).size.toNat_lt
    simp only [bytes, map_append, sum_append, map_cons, map_nil, sum_cons,
      sum_nil, Nat.add_zero, UInt32.toNat_sub] at sum ⊢
    omega

theorem Tracked.evict {fuel : Nat} {p : Option Ref} (pairSize margin : UInt32)
    (tracked : c.Tracked sizes xs) (enough : xs.length < fuel)
    (at_ : p = some (xs.getLast?.getD head)) :
    ∃ kept, xs.reverse = shed c.items pairSize margin xs.reverse ++ kept.reverse ∧
      Shed sizes c pairSize margin kept (shed c.items pairSize margin xs.reverse)
        (c.evict pairSize fuel p margin) := by
  induction fuel generalizing c xs p margin with
  | zero => omega
  | succ fuel ih =>
    subst at_
    rw [evict]
    by_cases short : margin < pairSize
    · rw [if_pos short]
      rcases eq_nil_or_concat' xs with rfl | ⟨ys, z, rfl⟩
      · refine ⟨[], rfl, ?_⟩
        simp only [removeTail_empty tracked.spans]
        exact ⟨tracked, rfl, rfl, rfl, rfl, fun _ => by simp [shed], .inl ⟨short, rfl, rfl⟩⟩
      obtain ⟨links, takes, spans, next⟩ := removeTail_eq tracked.spans
      have shorter := tracked.shed_last spans
      rcases ih (margin + (c.items z).size) shorter (by simpa using enough) next with
        ⟨kept, split_, ends⟩
      refine ⟨kept, ?_, ?_⟩
      · rw [reverse_concat, shed, if_pos short, cons_append, ← split_]
      rw [reverse_concat, shed, if_pos short]
      simp only [List.getLast?_concat, Option.getD_some, takes]
      refine ⟨ends.tracked, ends.items, ends.allocated, ends.capacity, ends.evicted,
        fun key => ?_, ends.ends⟩
      rw [ends.lookup]
      by_cases own : key = (c.items z).key
      · subst own
        simp
      · simp [own]
    · have none_ : shed c.items pairSize margin xs.reverse = [] := by
        cases xs.reverse <;> simp [shed, short]
      rw [if_neg short, none_]
      exact ⟨xs, rfl, tracked, rfl, rfl, rfl, rfl, fun _ => by simp, .inr ⟨short, rfl⟩⟩

/-! ## The operations -/

theorem Tracked.length_lt (tracked : c.Tracked sizes xs) : xs.length < c.allocated + 1 := by
  have inside : head :: (xs ++ [tail]) ⊆ List.range c.allocated := fun r there =>
    mem_range.mpr (tracked.allocated r there)
  have shorter := (subperm_of_subset tracked.spans.nodup inside).length_le
  simp at shorter
  omega

section

variable {key : Text} {val : Option V} {keySize valSize : UInt32} (expiration now : Int)

theorem newItem_measured (keyed : sizes.key key = .ok keySize)
    (valued : sizes.value val = .ok valSize) :
    (newItem key val expiration now (keySize + valSize)).Measured sizes :=
  ⟨keySize, valSize, keyed, valued, rfl⟩

variable {node : Ref}

section

variable (tracked : c.Tracked sizes xs) (keyed : sizes.key key = .ok keySize)
  (valued : sizes.value val = .ok valSize)
include tracked keyed valued

theorem Tracked.set_present (present : c.data.lookup key = some node) :
    ∃ ys c', Adds sizes c xs (newItem key val expiration now (keySize + valSize)) ys c' ∧
      c.set sizes key val expiration now = (c', .done) := by
  obtain ⟨inside, own, -⟩ := tracked.held key node present
  obtain ⟨before, after, rfl⟩ := append_of_mem inside
  rcases moveToHead_eq (c := { c with
    items := update c.items node { c.items node with value := val } }) tracked.spans with
    ⟨links, moved, spans⟩
  have sized : ∀ r ∈ before ++ node :: after,
      (update c.items node { c.items node with value := val } r).size =
        (c.items r).size := by
    intro r _
    by_cases here : r = node
    · rw [here, update_self]
    · rw [update_of_ne here]
  have others : ∀ r ∈ before ++ node :: after, (c.items r).key ≠ key →
      update c.items node { c.items node with value := val } r = c.items r := by
    intro r _ other
    apply update_of_ne
    intro here
    exact other (here ▸ own)
  rcases tracked.setItem_adds expiration now perm_middle.symm spans
    (newItem_measured expiration now keyed valued) sized others with ⟨c', adds, stored⟩
  refine ⟨_, c', adds, ?_⟩
  simp only [set, keyed, valued, present, moved]
  exact stored

theorem Tracked.setItem :
    ∃ c', Adds sizes c xs (newItem key val expiration now (keySize + valSize)) xs c' ∧
      c.setItem key val expiration now (keySize + valSize) = (c', .done) :=
  tracked.setItem_adds expiration now (.refl _) tracked.spans
    (newItem_measured expiration now keyed valued) (fun _ _ => rfl) (fun _ _ _ => rfl)

theorem Tracked.set_room (absent : c.data.lookup key = none)
    (room : ¬ c.capacity < c.size + (keySize + valSize)) :
    ∃ c', Adds sizes c xs (newItem key val expiration now (keySize + valSize)) xs c' ∧
      c.set sizes key val expiration now = (c', .done) := by
  simp only [set, keyed, valued, absent, if_neg room]
  exact tracked.setItem expiration now keyed valued

theorem Tracked.set_full (absent : c.data.lookup key = none)
    (full : c.capacity < c.size + (keySize + valSize)) : ∃ kept made fault,
      c.evict (keySize + valSize) (c.allocated + 1) (c.links.prev tail) (c.capacity - c.size) =
        (made, fault) ∧
      xs.reverse = shed c.items (keySize + valSize) (c.capacity - c.size) xs.reverse ++
        kept.reverse ∧ Shed sizes c (keySize + valSize) (c.capacity - c.size) kept
        (shed c.items (keySize + valSize) (c.capacity - c.size) xs.reverse) (made, fault) ∧
      (fault = some .nilDereference ∧ c.set sizes key val expiration now = (made, .nilDereference) ∨
        fault = none ∧ ∃ c',
          Adds sizes made kept (newItem key val expiration now (keySize + valSize)) kept c' ∧
          c.set sizes key val expiration now = (c', .done)) := by
  rcases tracked.evict (keySize + valSize) (c.capacity - c.size) tracked.length_lt
    tracked.spans.prev_last with ⟨kept, split_, ends⟩
  cases evicted : c.evict (keySize + valSize) (c.allocated + 1) (c.links.prev tail)
    (c.capacity - c.size) with
  | mk made fault =>
    rw [evicted] at ends
    refine ⟨kept, made, fault, rfl, split_, ends, ?_⟩
    simp only [set, keyed, valued, absent, if_pos full, evicted]
    rcases ends.ends with ⟨-, -, fault_⟩ | ⟨-, fault_⟩
    · cases fault_
      exact .inl ⟨rfl, rfl⟩
    · cases fault_
      exact .inr ⟨rfl, ends.tracked.setItem expiration now keyed valued⟩

end

end

theorem set_error {key : Text} {val : Option V} {expiration now : Int}
    (unmeasured : ∀ keySize valSize, sizes.key key = .ok keySize →
      sizes.value val ≠ .ok valSize) : (c.set sizes key val expiration now).1 = c := by
  rw [set]
  split
  · rfl
  · rfl
  next keySize valSize keyed valued => exact absurd valued (unmeasured keySize valSize keyed)

theorem Tracked.moveToHead {before after : List Ref}
    (tracked : c.Tracked sizes (before ++ node :: after)) :
    ∃ links, c.moveToHead node = .ok { c with links } ∧
      BuildInMapCache.Tracked sizes { c with links } (node :: (before ++ after)) := by
  obtain ⟨links, moved, spans⟩ := moveToHead_eq tracked.spans
  have same : (node :: (before ++ after)).Perm (before ++ node :: after) := perm_middle.symm
  refine ⟨links, moved, spans, fun r inside => tracked.allocated r ?_, fun key r found => ?_, ?_⟩
  · simpa only [mem_cons, mem_append, same.mem_iff] using inside
  · obtain ⟨inside, held⟩ := tracked.held key r found
    exact ⟨same.mem_iff.mpr inside, held⟩
  · exact tracked.sum.trans (congrArg (· % 2 ^ 32) (same.symm.map _).sum_nat)

theorem Tracked.deleteItem (tracked : c.Tracked sizes xs) (key : Text) :
    (c.deleteItem key).Tracked sizes xs := by
  rw [BuildInMapCache.deleteItem]
  split
  · exact tracked
  refine ⟨tracked.spans, tracked.allocated, fun other r found => tracked.held other r ?_,
    tracked.sum⟩
  by_cases own : other = key
  · subst own
    simp at found
  · simpa [AList.lookup_erase_ne own] using found

theorem deleteItem_capacity (key : Text) : (c.deleteItem key).capacity = c.capacity := by
  rw [deleteItem]
  split <;> rfl

theorem Tracked.sweep (tracked : c.Tracked sizes xs) (t : Int) (visited : List Text) :
    (c.sweep t visited).Tracked sizes xs :=
  sweep_keeps (P := fun c => c.Tracked sizes xs) t visited
    (fun _ key tracked => tracked.deleteItem key) tracked

end BuildInMapCache

/-! ## Runs -/

open BuildInMapCache

variable {sizes : Sizes V} {c : BuildInMapCache V} {xs : List Ref}

theorem measured_or (sizes : Sizes V) (key : Text) (val : Option V) :
    (∃ keySize valSize, sizes.key key = .ok keySize ∧ sizes.value val = .ok valSize) ∨
      ∀ keySize valSize, sizes.key key = .ok keySize → sizes.value val ≠ .ok valSize := by
  apply or_iff_not_imp_left.mpr
  intro none_ keySize valSize keyed valued
  exact none_ ⟨keySize, valSize, keyed, valued⟩

theorem Op.run_tracked (tracked : c.Tracked sizes xs) (op : Op V) :
    (∃ ys, (op.run sizes c).Tracked sizes ys) ∧ (op.run sizes c).capacity = c.capacity := by
  cases op with
  | getRead => exact ⟨⟨xs, tracked⟩, rfl⟩
  | set key val expiration now =>
    rw [run]
    rcases measured_or sizes key val with ⟨keySize, valSize, keyed, valued⟩ | fails
    · cases there : c.data.lookup key with
      | some =>
        obtain ⟨ys, c', adds, stored⟩ := tracked.set_present expiration now keyed valued there
        rw [stored]
        exact ⟨⟨_, adds.tracked⟩, adds.capacity⟩
      | none =>
        by_cases full : c.capacity < c.size + (keySize + valSize)
        · obtain ⟨kept, made, fault, -, -, sheds, ⟨-, fails⟩ | ⟨-, c', adds, stored⟩⟩ :=
            tracked.set_full expiration now keyed valued there full
          · rw [fails]
            exact ⟨⟨kept, sheds.tracked⟩, sheds.capacity⟩
          · rw [stored]
            exact ⟨⟨_, adds.tracked⟩, adds.capacity.trans sheds.capacity⟩
        · obtain ⟨c', adds, stored⟩ := tracked.set_room expiration now keyed valued there full
          rw [stored]
          exact ⟨⟨_, adds.tracked⟩, adds.capacity⟩
    · rw [set_error fails]
      exact ⟨⟨xs, tracked⟩, rfl⟩
  | getLocked key now =>
    rw [run, BuildInMapCache.getLocked]
    split
    · exact ⟨⟨xs, tracked⟩, rfl⟩
    next node present =>
      split
      · exact ⟨⟨xs, tracked.deleteItem key⟩, deleteItem_capacity key⟩
      · obtain ⟨before, after, rfl⟩ := append_of_mem (tracked.held key node present).1
        obtain ⟨links, moved, kept⟩ := tracked.moveToHead
        rw [moved]
        exact ⟨⟨_, kept⟩, rfl⟩
  | delete key =>
    rw [run, BuildInMapCache.delete]
    split
    · exact ⟨⟨xs, tracked⟩, rfl⟩
    · exact ⟨⟨xs, tracked.deleteItem key⟩, deleteItem_capacity key⟩
  | sweep t =>
    exact ⟨⟨xs, tracked.sweep t _⟩, sweep_keeps (P := fun c' => c'.capacity = c.capacity) t _
      (fun _ key same => (deleteItem_capacity key).trans same) rfl⟩

theorem exec_tracked (sizes : Sizes V) (capacity : UInt32) (ops : List (Op V)) :
    (∃ xs, (exec sizes (newBuildInMapCache V capacity) ops).Tracked sizes xs) ∧
      (exec sizes (newBuildInMapCache V capacity) ops).capacity = capacity := by
  induction ops using List.reverseRecOn with
  | nil => exact ⟨⟨[], tracked_new capacity⟩, rfl⟩
  | append_singleton ops op ih =>
    obtain ⟨⟨xs, tracked⟩, same⟩ := ih
    rw [exec, foldl_concat]
    obtain ⟨next, same'⟩ := Op.run_tracked tracked op
    exact ⟨next, same'.trans same⟩

end Soil.Cache
