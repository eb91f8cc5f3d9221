import Soil.Cache.Capacity
import Soil.Lru

/-!
# Least recently used eviction in the local cache

The local cache should hold what a cache of the least recently used kind holds.  Its list is in
the order of use only in part: `Get` does not move the item it returns, except on the path that
has taken the write lock, and an item that was overwritten, deleted or found past its deadline
stays in the list.
-/

namespace Soil.Cache

open List Lru Op

variable {V : Type}

abbrev CacheEntry (V : Type) := Lru.Entry Text (Option V × Option Int)

def late (t : Int) (e : CacheEntry V) : Bool := e.val.2.any (· < t)

def Item.entry (sizes : Sizes V) (i : Item V) : CacheEntry V :=
  ⟨i.key, (i.value, i.deadline), i.measure sizes⟩

def Op.lru (sizes : Sizes V) (capacity : Nat) (es : List (CacheEntry V)) : Op V → List (CacheEntry
    V)
  | .set key val expiration now =>
    match sizes.key key, sizes.value val with
    | .ok keySize, .ok valSize =>
      let deadline := if expiration > 0 then some (now + expiration) else none
      Lru.put capacity ⟨key, (val, deadline), keySize.toNat + valSize.toNat⟩ es
    | _, _ => es
  | .getRead key now =>
    if ∃ e ∈ es, e.key = key ∧ late now e then es else Lru.use key es
  | .getLocked key now =>
    if ∃ e ∈ es, e.key = key ∧ late now e then Lru.remove key es else Lru.use key es
  | .delete key => Lru.remove key es
  | .sweep t visited => es.filter fun e => ¬ (e.key ∈ visited.take 1001 ∧ late t e)

def lru (sizes : Sizes V) (capacity : Nat) (ops : List (Op V)) : List (CacheEntry V) :=
  ops.foldl (Op.lru sizes capacity) []

namespace BuildInMapCache

def contents (sizes : Sizes V) (c : BuildInMapCache V) (data : AList fun _ : Text => Ref) :
    List (CacheEntry V) :=
  data.entries.map fun e => (c.items e.2).entry sizes

def Holds (sizes : Sizes V) (c : BuildInMapCache V) (es : List (CacheEntry V)) : Prop :=
  (c.contents sizes c.data).Perm es

variable {sizes : Sizes V} {c c' : BuildInMapCache V} {xs ys : List Ref} {es : List (CacheEntry V)}
  {i : Item V} {key : Text}

/-! ## The entries of the map -/

theorem total_contents (data : AList fun _ : Text => Ref) :
    total (c.contents sizes data) = c.stored sizes data := by
  rw [total, contents, map_map, stored]
  rfl

variable {e : CacheEntry V}

section

variable (tracked : c.Tracked sizes xs)
include tracked

theorem Tracked.mem_contents : e ∈ c.contents sizes c.data ↔
      ∃ r, c.data.lookup e.key = some r ∧ (c.items r).entry sizes = e := by
  constructor
  · intro inside
    obtain ⟨⟨key, r⟩, there, rfl⟩ := mem_map.mp inside
    have found : c.data.lookup key = some r := lookup_of_mem_entries there
    have own : (c.items r).key = key := (tracked.held key r found).2.1
    exact ⟨r, own ▸ found, rfl⟩
  · intro ⟨r, found, same⟩
    exact mem_map.mpr ⟨⟨e.key, r⟩, AList.mem_lookup_iff.mp found, same⟩

theorem Tracked.contents_erase (key : Text) :
    c.contents sizes (c.data.erase key) = remove key (c.contents sizes c.data) := by
  rw [contents, entries_erase_eq_filter, remove, contents, filter_map]
  refine congrArg _ (filter_congr fun e inside => ?_)
  have own := (tracked.held e.1 e.2 (lookup_of_mem_entries inside)).2.1
  simp [Item.entry, own]

theorem Adds.contents (adds : Adds sizes c xs i ys c') :
    c'.contents sizes c'.data = i.entry sizes :: c.contents sizes (c.data.erase i.key) :=
  adds.map_entries tracked (Item.entry sizes)

section

variable (holds : c.Holds sizes es)
include holds

theorem Holds.mem_iff : e ∈ es ↔ ∃ r, c.data.lookup e.key = some r ∧ (c.items r).entry sizes = e :=
  List.Perm.mem_iff holds |>.symm.trans tracked.mem_contents

theorem Holds.exists_iff {Q : CacheEntry V → Prop} : (∃ e ∈ es, e.key = key ∧ Q e) ↔
      ∃ r, c.data.lookup key = some r ∧ Q ((c.items r).entry sizes) := by
  constructor
  · intro ⟨e, inside, own, meets⟩
    obtain ⟨r, found, rfl⟩ := (holds.mem_iff tracked).mp inside
    exact ⟨r, own ▸ found, meets⟩
  · intro ⟨r, found, meets⟩
    have own : ((c.items r).entry sizes).key = key := (tracked.held key r found).2.1
    exact ⟨_, (holds.mem_iff tracked).mpr ⟨r, own ▸ found, rfl⟩, own, meets⟩

theorem Holds.has_iff : (∃ e ∈ es, e.key = key) ↔ c.data.lookup key ≠ none := by
  simpa [Option.ne_none_iff_exists'] using holds.exists_iff (Q := fun _ => True) tracked

theorem Holds.late_iff {now : Int} : (∃ e ∈ es, e.key = key ∧ late now e) ↔ c.Expired key now :=
  holds.exists_iff tracked

theorem Holds.absent (absent : c.data.lookup key = none) : ∀ e ∈ es, e.key ≠ key := by
  intro e inside own
  exact (holds.has_iff tracked).mp ⟨e, inside, own⟩ absent

end

/-! ## Deletions -/

theorem Tracked.contents_deleteItem (key : Text) :
    (c.deleteItem key).contents sizes (c.deleteItem key).data =
      remove key (c.contents sizes c.data) := by
  rw [BuildInMapCache.deleteItem]
  split
  next absent =>
    have holds : c.Holds sizes (c.contents sizes c.data) := .refl _
    exact (remove_eq_self (holds.absent tracked absent)).symm
  next => exact tracked.contents_erase key

theorem Holds.deleteItem (holds : c.Holds sizes es) (key : Text) :
    (c.deleteItem key).Holds sizes (remove key es) := by
  rw [Holds, tracked.contents_deleteItem]
  exact List.Perm.filter _ holds

theorem Tracked.sweep_cons (t : Int) (key : Text) (rest : List Text) :
    ∃ c' : BuildInMapCache V, c'.Tracked sizes xs ∧ c.sweep t (key :: rest) = c'.sweep t rest ∧
      c'.contents sizes c'.data =
        (c.contents sizes c.data).filter fun e => ¬ (e.key = key ∧ late t e) := by
  have holds : c.Holds sizes (c.contents sizes c.data) := .refl _
  have kept (alive : ¬ c.Expired key t) : c.contents sizes c.data =
      (c.contents sizes c.data).filter fun e => ¬ (e.key = key ∧ late t e) := by
    refine (filter_eq_self.mpr fun e inside => ?_).symm
    have stays : ¬ (e.key = key ∧ late t e) := fun both =>
      alive ((holds.late_iff tracked).mp ⟨e, inside, both⟩)
    exact decide_eq_true stays
  cases there : c.data.lookup key with
  | none =>
    refine ⟨c, tracked, by rw [BuildInMapCache.sweep, there], kept fun expired => ?_⟩
    obtain ⟨r, found, -⟩ := expired
    rw [there] at found
    contradiction
  | some r =>
    by_cases past : (c.items r).deadlineBefore t
    · refine ⟨c.deleteItem key, tracked.deleteItem key, ?_, ?_⟩
      · rw [BuildInMapCache.sweep, there]
        simp [if_pos past]
      rw [tracked.contents_deleteItem, remove]
      refine filter_congr fun e inside => ?_
      obtain ⟨r', found, rfl⟩ := tracked.mem_contents.mp inside
      by_cases own : ((c.items r').entry sizes).key = key
      · rw [own, there] at found
        obtain rfl := Option.some.inj found
        have past : late t ((c.items r).entry sizes) = true := past
        simp [past]
      · simp [own]
    · refine ⟨c, tracked, ?_, kept fun expired => ?_⟩
      · rw [BuildInMapCache.sweep, there]
        simp [if_neg past]
      · obtain ⟨r', found, past'⟩ := expired
        obtain rfl := Option.some.inj (there.symm.trans found)
        contradiction

theorem Tracked.contents_sweep (t : Int) (visited : List Text) :
    (c.sweep t visited).contents sizes (c.sweep t visited).data =
      (c.contents sizes c.data).filter fun e => ¬ (e.key ∈ visited ∧ late t e) := by
  induction visited generalizing c with
  | nil => simp [BuildInMapCache.sweep]
  | cons key rest ih =>
    obtain ⟨c', tracked', same, contents⟩ := tracked.sweep_cons t key rest
    rw [same, ih tracked', contents, filter_filter]
    refine filter_congr fun e _ => ?_
    by_cases own : e.key = key
    · by_cases past : late t e
      · simp [own, past]
      · simp [past]
    · simp [own]

end

/-! ## `Set` -/

theorem entry_newItem {val : Option V} {keySize valSize : UInt32} (expiration now : Int)
    (keyed : sizes.key key = .ok keySize) (valued : sizes.value val = .ok valSize) :
    (newItem key val expiration now (keySize + valSize)).entry sizes =
      ⟨key, (val, if expiration > 0 then some (now + expiration) else none),
        keySize.toNat + valSize.toNat⟩ := by
  rw [Item.entry, measure_newItem expiration now keyed valued]
  rfl

theorem Adds.holds (adds : Adds sizes c xs i ys c') (tracked : c.Tracked sizes xs)
    (holds : c.Holds sizes es) : c'.Holds sizes (remove i.key es ++ [i.entry sizes]) := by
  rw [Holds, adds.contents tracked, tracked.contents_erase]
  have others : (remove i.key (c.contents sizes c.data)).Perm (remove i.key es) :=
    List.Perm.filter _ holds
  exact (others.cons _).trans (perm_append_singleton _ _).symm

theorem Exact.total_le (exact_ : c.Exact sizes xs) (holds : c.Holds sizes es) :
    Lru.total es ≤ c.size.toNat := by
  rw [exact_.total, Lru.total, ← (List.Perm.map Lru.Entry.weight holds).sum_nat, ← Lru.total,
    total_contents]
  exact exact_.stored_le

/-! ## The list in order -/

structure Tidy (sizes : Sizes V) (c : BuildInMapCache V) (xs : List Ref) (es : List (CacheEntry V))
    :
    Prop where
  live : ∀ r ∈ xs, c.data.lookup (c.items r).key = some r
  order : es = xs.reverse.map fun r => (c.items r).entry sizes
  within : c.size.toNat ≤ c.capacity.toNat

theorem Tidy.holds (tidy : c.Tidy sizes xs es) (tracked : c.Tracked sizes xs) :
    c.Holds sizes es := by
  have same := (Live.perm_refs tidy.live tracked).trans (reverse_perm xs).symm
  have mapped := same.map fun r => (c.items r).entry sizes
  rwa [map_map, ← tidy.order] at mapped

theorem Tidy.use_eq {node : Ref} {before after : List Ref}
    (tidy : c.Tidy sizes (before ++ node :: after) es) (nodup : (before ++ node :: after).Nodup) :
    use (c.items node).key es =
      (node :: (before ++ after)).reverse.map fun r => (c.items r).entry sizes := by
  have order : es = after.reverse.map (fun r => (c.items r).entry sizes) ++
      (c.items node).entry sizes :: before.reverse.map (fun r => (c.items r).entry sizes) := by
    rw [tidy.order]
    simp
  have others : ∀ o ∈ after.reverse.map (fun r => (c.items r).entry sizes) ++
      before.reverse.map (fun r => (c.items r).entry sizes),
      o.key ≠ ((c.items node).entry sizes).key := by
    intro o inside
    rw [← map_append, ← reverse_append] at inside
    obtain ⟨r, there, rfl⟩ := mem_map.mp inside
    have inside : r ∈ before ++ after := mem_reverse.mp there
    have out : node ∉ before ++ after := (nodup_middle.mp nodup |> nodup_cons.mp).1
    refine Live.key_ne tidy.live ?_ (by simp) (fun same => out (same ▸ inside))
    simp only [mem_append, mem_cons] at inside ⊢
    tauto
  rw [order]
  refine (use_middle others).trans ?_
  simp

theorem Tidy.adds (tidy : c.Tidy sizes xs es) (adds : Adds sizes c xs i xs c')
    (absent : c.data.lookup i.key = none) (room : c.size.toNat + i.size.toNat ≤ c.capacity.toNat) :
    c'.Tidy sizes (c.allocated :: xs) (es ++ [i.entry sizes]) := by
  refine ⟨Live.adds tidy.live adds absent, ?_, ?_⟩
  · rw [reverse_cons, map_append, map_singleton, adds.item, tidy.order]
    refine congrArg (· ++ _) (map_congr_left fun r inside => ?_)
    have inside := mem_reverse.mp inside
    rw [adds.others r inside (Live.other tidy.live absent inside)]
  · have limit := c.capacity.toNat_lt
    rw [adds.size, adds.capacity, UInt32.toNat_add, Nat.mod_eq_of_lt (by omega)]
    exact room

/-! ## Making room -/

variable {pairSize : UInt32}

theorem makeRoom_shed {items : Ref → Item V} {margin : UInt32} {rs kept : List Ref}
    {capacity : Nat} (small : capacity < 2 ^ 32)
    (rest : margin.toNat + (rs.map fun r => (items r).size.toNat).sum = capacity)
    (sized : ∀ r ∈ rs, (items r).measure sizes = (items r).size.toNat)
    (split_ : rs = shed items pairSize margin rs ++ kept) :
    makeRoom capacity pairSize.toNat (rs.map fun r => (items r).entry sizes) =
      kept.map fun r => (items r).entry sizes := by
  induction rs generalizing margin with
  | nil =>
    obtain rfl : kept = [] := (append_eq_nil_iff.mp split_.symm).2
    rfl
  | cons z rs ih =>
    have total : total ((items z).entry sizes :: rs.map fun r => (items r).entry sizes) =
        (items z).size.toNat + (rs.map fun r => (items r).size.toNat).sum := by
      rw [total, map_cons, sum_cons, map_map, Item.entry, sized z mem_cons_self]
      refine congrArg (_ + List.sum ·) (map_congr_left fun r inside => ?_)
      exact sized r (mem_cons_of_mem z inside)
    rw [map_cons, sum_cons] at rest
    rw [map_cons, makeRoom, total]
    rw [shed] at split_
    by_cases short : margin < pairSize
    · have grown : (margin + (items z).size).toNat = margin.toNat + (items z).size.toNat := by
        rw [UInt32.toNat_add, Nat.mod_eq_of_lt (by omega)]
      rw [if_pos short, cons_append, List.cons.injEq] at split_
      rw [if_pos (by rw [UInt32.lt_iff_toNat_lt] at short; omega)]
      exact ih (by omega) (fun r inside => sized r (mem_cons_of_mem z inside)) split_.2
    · rw [if_neg short, nil_append] at split_
      rw [if_neg (by rw [UInt32.lt_iff_toNat_lt] at short; omega), ← split_, map_cons]

theorem Tidy.shed {kept : List Ref} {made : BuildInMapCache V}
    (tidy : c.Tidy sizes xs es) (exact_ : c.Exact sizes xs) (split_ : xs.reverse =
      BuildInMapCache.shed c.items pairSize (c.capacity - c.size) xs.reverse ++ kept.reverse)
    (sheds : Shed sizes c pairSize (c.capacity - c.size) kept
      (BuildInMapCache.shed c.items pairSize (c.capacity - c.size) xs.reverse) (made, none)) :
    made.Tidy sizes kept (makeRoom c.capacity.toNat pairSize.toNat es) := by
  have items : made.items = c.items := sheds.items
  have capacity : made.capacity = c.capacity := sheds.capacity
  refine ⟨Live.shed tidy.live exact_.toTracked split_ sheds, ?_, ?_⟩
  · have margin : (c.capacity - c.size).toNat = c.capacity.toNat - c.size.toNat :=
      UInt32.toNat_sub_of_le _ _ (UInt32.le_iff_toNat_le.mpr tidy.within)
    have total := exact_.total
    have within := tidy.within
    rw [← bytes_reverse, bytes] at total
    rw [tidy.order, items]
    refine makeRoom_shed c.capacity.toNat_lt (by omega) (fun r inside => ?_) split_
    have there := mem_reverse.mp inside
    exact exact_.measured _ r (tidy.live r there)
  · rw [capacity]
    exact (Nat.le_add_right _ _).trans (exact_.room tidy.within split_ sheds).2

end BuildInMapCache

/-! ## Operations -/

open BuildInMapCache

def Op.Counted (sizes : Sizes V) (c : BuildInMapCache V) : Op V → Prop
  | .set key val _ _ => ∀ keySize valSize, sizes.key key = .ok keySize →
      sizes.value val = .ok valSize → c.size.toNat + (keySize.toNat + valSize.toNat) < 2 ^ 32
  | _ => True

def Op.FindsFull (sizes : Sizes V) (c : BuildInMapCache V) : Op V → Prop
  | .set key val _ _ => ∃ keySize valSize, sizes.key key = .ok keySize ∧
      sizes.value val = .ok valSize ∧ c.data.lookup key = none ∧
      c.capacity < c.size + (keySize + valSize)
  | _ => False

def Op.Storable (sizes : Sizes V) (capacity : UInt32) : Op V → Prop
  | .set key val _ _ => ∀ keySize valSize, sizes.key key = .ok keySize →
      sizes.value val = .ok valSize → keySize.toNat + valSize.toNat ≤ capacity.toNat
  | _ => True

/-- The operation leaves the list in the order of use: no `Set` of a key that is present, no
`Get` that returns the value of an item other than the first without moving it, and nothing to
delete. -/
def Op.Orderly (sizes : Sizes V) (c : BuildInMapCache V) : Op V → Prop
  | .set key val _ _ => ∀ keySize valSize, sizes.key key = .ok keySize →
      sizes.value val = .ok valSize → c.data.lookup key = none
  | .getRead key now => ∀ r, c.data.lookup key = some r → ¬ (c.items r).deadlineBefore now →
      c.links.next head = some r
  | .getLocked key now => ¬ c.Expired key now
  | .delete key => c.data.lookup key = none
  | .sweep t visited => ∀ key ∈ visited.take 1001, ¬ c.Expired key t

variable {sizes : Sizes V} {c : BuildInMapCache V} {xs : List Ref} {es : List (CacheEntry V)}
  {key : Text} {val : Option V} {keySize valSize : UInt32} {expiration now : Int}

theorem Op.lru_set {capacity : Nat} (keyed : sizes.key key = .ok keySize)
    (valued : sizes.value val = .ok valSize) : (set key val expiration now).lru sizes capacity es =
      put capacity ((newItem key val expiration now (keySize + valSize)).entry sizes) es := by
  rw [entry_newItem expiration now keyed valued]
  simp [lru, keyed, valued]

theorem Op.lru_set_error {capacity : Nat}
    (unmeasured : ∀ keySize valSize, sizes.key key = .ok keySize → sizes.value val ≠ .ok valSize) :
    (set key val expiration now).lru sizes capacity es = es := by
  rw [lru]
  split
  next keySize valSize keyed valued => exact absurd valued (unmeasured keySize valSize keyed)
  next => rfl

theorem set_holds (exact_ : c.Exact sizes xs) (holds : c.Holds sizes es)
    (keyed : sizes.key key = .ok keySize) (valued : sizes.value val = .ok valSize)
    (counted : c.size.toNat + (keySize.toNat + valSize.toNat) < 2 ^ 32)
    (room : c.data.lookup key = none → ¬ c.capacity < c.size + (keySize + valSize)) :
    ∃ ys, (c.set sizes key val expiration now).1.Exact sizes ys ∧
      (c.set sizes key val expiration now).1.Holds sizes
        ((set key val expiration now).lru sizes c.capacity.toNat es) := by
  rw [lru_set keyed valued, Lru.put]
  have own : ((newItem key val expiration now (keySize + valSize)).entry sizes).key = key := rfl
  rw [own]
  cases there : c.data.lookup key with
  | some =>
    obtain ⟨ys, c', adds, stored⟩ := exact_.set_present expiration now keyed valued there
    rw [stored, if_pos ((holds.has_iff exact_.toTracked).mpr (by simp [there]))]
    exact ⟨_, adds.exact_newItem expiration now exact_ keyed valued counted,
      adds.holds exact_.toTracked holds⟩
  | none =>
    obtain ⟨c', adds, stored⟩ := exact_.set_room expiration now keyed valued there (room there)
    have total := exact_.total_le holds
    have light := mt (full_iff counted).mpr (room there)
    have absent := holds.absent exact_.toTracked there
    have after := adds.holds exact_.toTracked holds
    rw [newItem, Lru.remove_eq_self absent] at after
    rw [stored, if_neg (by simpa using absent), Lru.makeRoom_eq_self]
    · exact ⟨_, adds.exact_newItem expiration now exact_ keyed valued counted, after⟩
    · rw [entry_newItem expiration now keyed valued]
      simp only
      omega

variable {op : Op V}

theorem Op.run_holds (exact_ : c.Exact sizes xs) (holds : c.Holds sizes es)
    (counted : op.Counted sizes c) (room : ¬ op.FindsFull sizes c) :
    ∃ ys, (op.run sizes c).Exact sizes ys ∧
      (op.run sizes c).Holds sizes (op.lru sizes c.capacity.toNat es) := by
  have tracked := exact_.toTracked
  cases op with
  | set key val =>
    rcases measured_or sizes key val with ⟨keySize, valSize, keyed, valued⟩ | fails
    · exact set_holds exact_ holds keyed valued (counted keySize valSize keyed valued)
        fun absent full => room ⟨keySize, valSize, keyed, valued, absent, full⟩
    · rw [run, set_error fails, lru_set_error fails]
      exact ⟨xs, exact_, holds⟩
  | getRead key =>
    refine ⟨xs, exact_, ?_⟩
    rw [lru]
    split
    · exact holds
    · exact List.Perm.trans holds (use_perm key es).symm
  | getLocked key now =>
    obtain ⟨ys, exact'⟩ := run_exact exact_ (.getLocked key now) trivial
    refine ⟨ys, exact', ?_⟩
    rw [run, BuildInMapCache.getLocked, lru]
    split
    next absent =>
      have alive : ¬ c.Expired key now := by
        rintro ⟨r, found, -⟩
        rw [absent] at found
        contradiction
      rw [if_neg (mt (holds.late_iff tracked).mp alive), use_eq_self (holds.absent tracked absent)]
      exact holds
    next node present =>
      by_cases past : (c.items node).deadlineBefore now
      · rw [if_pos past, if_pos ((holds.late_iff tracked).mpr ⟨node, present, past⟩)]
        exact holds.deleteItem tracked key
      obtain ⟨before, after, rfl⟩ := append_of_mem (tracked.held key node present).1
      obtain ⟨links, moved, -⟩ := tracked.moveToHead
      have alive : ¬ c.Expired key now := by
        rintro ⟨r, found, past'⟩
        obtain rfl := Option.some.inj (present.symm.trans found)
        contradiction
      rw [if_neg past, if_neg (mt (holds.late_iff tracked).mp alive), moved]
      exact List.Perm.trans holds (use_perm key es).symm
  | delete key =>
    obtain ⟨ys, exact'⟩ := run_exact exact_ (.delete key) trivial
    refine ⟨ys, exact', ?_⟩
    rw [run, BuildInMapCache.delete, lru]
    split
    next absent =>
      rw [remove_eq_self (holds.absent tracked absent)]
      exact holds
    next => exact holds.deleteItem tracked key
  | sweep t visited =>
    obtain ⟨ys, exact'⟩ := run_exact exact_ (.sweep t visited) trivial
    refine ⟨ys, exact', ?_⟩
    rw [run, Holds, tracked.contents_sweep, lru]
    exact List.Perm.filter _ holds

theorem set_tidy (exact_ : c.Exact sizes xs) (tidy : c.Tidy sizes xs es)
    (keyed : sizes.key key = .ok keySize) (valued : sizes.value val = .ok valSize)
    (counted : c.size.toNat + (keySize.toNat + valSize.toNat) < 2 ^ 32)
    (absent : c.data.lookup key = none) (fits : keySize.toNat + valSize.toNat ≤ c.capacity.toNat) :
    ∃ ys, (c.set sizes key val expiration now).1.Exact sizes ys ∧
      (c.set sizes key val expiration now).1.Tidy sizes ys
        ((set key val expiration now).lru sizes c.capacity.toNat es) := by
  have holds := tidy.holds exact_.toTracked
  have pair := toNat_pair counted
  have weight : ((newItem key val expiration now (keySize + valSize)).entry sizes).weight =
      (keySize + valSize).toNat := by
    rw [entry_newItem expiration now keyed valued, pair]
  have new : ¬ ∃ old ∈ es,
      old.key = ((newItem key val expiration now (keySize + valSize)).entry sizes).key :=
    fun ⟨old, inside, own⟩ => holds.absent exact_.toTracked absent old inside own
  rw [lru_set keyed valued, Lru.put, if_neg new, weight]
  by_cases full : c.capacity < c.size + (keySize + valSize)
  · obtain ⟨kept, made, fault, -, split_, sheds, ends⟩ :=
      exact_.set_full expiration now keyed valued absent full
    obtain rfl : fault = none := (exact_.shed_fault_iff tidy.within split_ sheds).mpr (by omega)
    obtain ⟨exact', room⟩ := exact_.room tidy.within split_ sheds
    rcases ends with ⟨fault_, -⟩ | ⟨-, c', adds, stored⟩
    · contradiction
    have limit := c.capacity.toNat_lt
    have capacity : made.capacity = c.capacity := sheds.capacity
    have absent' : made.data.lookup key = none := by
      rw [sheds.lookup]
      split
      · rfl
      · exact absent
    rw [stored]
    exact ⟨_, adds.exact_newItem expiration now exact' keyed valued (by omega),
      (tidy.shed exact_ split_ sheds).adds adds absent' (by rw [capacity]; exact room)⟩
  · obtain ⟨c', adds, stored⟩ := exact_.set_room expiration now keyed valued absent full
    have total := exact_.total_le holds
    have light := mt (full_iff counted).mpr full
    rw [stored, Lru.makeRoom_eq_self (by omega)]
    refine ⟨_, adds.exact_newItem expiration now exact_ keyed valued counted,
      tidy.adds adds absent ?_⟩
    rw [newItem, pair]
    omega

theorem Op.run_tidy (exact_ : c.Exact sizes xs) (tidy : c.Tidy sizes xs es)
    (counted : op.Counted sizes c) (storable : op.FindsFull sizes c → op.Storable sizes c.capacity)
    (orderly : op.Orderly sizes c) : ∃ ys, (op.run sizes c).Exact sizes ys ∧
      (op.run sizes c).Tidy sizes ys (op.lru sizes c.capacity.toNat es) := by
  have tracked := exact_.toTracked
  have holds := tidy.holds tracked
  have nodup := tracked.nodup
  cases op with
  | set key val =>
    rcases measured_or sizes key val with ⟨keySize, valSize, keyed, valued⟩ | fails
    · have counted := counted keySize valSize keyed valued
      have absent := orderly keySize valSize keyed valued
      refine set_tidy exact_ tidy keyed valued counted absent ?_
      by_cases full : c.capacity < c.size + (keySize + valSize)
      · exact storable ⟨keySize, valSize, keyed, valued, absent, full⟩ keySize valSize keyed valued
      · rw [full_iff counted] at full
        omega
    · rw [run, set_error fails, lru_set_error fails]
      exact ⟨xs, exact_, tidy⟩
  | getRead key now =>
    refine ⟨xs, exact_, ?_⟩
    rw [run, lru]
    split
    next => exact tidy
    next alive =>
      rw [holds.late_iff tracked] at alive
      cases there : c.data.lookup key with
      | none =>
        rw [use_eq_self (holds.absent tracked there)]
        exact tidy
      | some r =>
        -- the item is the first of the list already
        have first : c.links.next head = some r :=
          orderly r there fun past => alive ⟨r, there, past⟩
        obtain ⟨inside, own, -⟩ := tracked.held key r there
        obtain ⟨rest, rfl⟩ := tracked.spans.eq_cons first inside
        have whole : c.Tidy sizes ([] ++ r :: rest) es := tidy
        rw [← own, whole.use_eq nodup]
        exact ⟨tidy.live, rfl, tidy.within⟩
  | getLocked key now =>
    have alive : ¬ c.Expired key now := orderly
    rw [run, BuildInMapCache.getLocked, lru, if_neg (mt (holds.late_iff tracked).mp alive)]
    split
    next absent =>
      rw [use_eq_self (holds.absent tracked absent)]
      exact ⟨xs, exact_, tidy⟩
    next node present =>
      have young : ¬ (c.items node).deadlineBefore now := fun past => alive ⟨node, present, past⟩
      obtain ⟨inside, own, -⟩ := tracked.held key node present
      obtain ⟨before, after, rfl⟩ := append_of_mem inside
      obtain ⟨links, moved, exact'⟩ := exact_.moveToHead
      rw [if_neg young, moved, ← own, tidy.use_eq nodup]
      refine ⟨_, exact', fun r there => tidy.live r ?_, rfl, tidy.within⟩
      exact perm_middle.symm.mem_iff.mp there
  | delete key =>
    have absent : c.data.lookup key = none := orderly
    rw [run, BuildInMapCache.delete, absent, lru, remove_eq_self (holds.absent tracked absent)]
    exact ⟨xs, exact_, tidy⟩
  | sweep t visited =>
    have stay : es.filter (fun e => ¬ (e.key ∈ visited.take 1001 ∧ late t e)) = es := by
      refine filter_eq_self.mpr fun e inside => ?_
      have stays : ¬ (e.key ∈ visited.take 1001 ∧ late t e) := by
        rintro ⟨comes, past⟩
        exact orderly e.key comes ((holds.late_iff tracked).mp ⟨e, inside, rfl, past⟩)
      exact decide_eq_true stays
    rw [run, sweep_eq_self orderly, lru, stay]
    exact ⟨xs, exact_, tidy⟩

/-! ## Runs -/

structure Follows (sizes : Sizes V) (c : BuildInMapCache V) (xs : List Ref) (es : List (CacheEntry
    V))
    (orderly : Prop) : Prop where
  exact_ : c.Exact sizes xs
  holds : c.Holds sizes es
  tidy : orderly → c.Tidy sizes xs es

theorem Op.FindsFull.orderly (full : op.FindsFull sizes c) : op.Orderly sizes c := by
  cases op with
  | set =>
    obtain ⟨_, _, _, _, absent, _⟩ := full
    exact fun _ _ _ _ => absent
  | getRead | getLocked | delete | sweep => contradiction

theorem Op.run_follows {orderly : Prop} (follows : Follows sizes c xs es orderly)
    (counted : op.Counted sizes c)
    (fair : op.FindsFull sizes c → op.Storable sizes c.capacity ∧ orderly) :
    ∃ ys, Follows sizes (op.run sizes c) ys (op.lru sizes c.capacity.toNat es)
      (orderly ∧ op.Orderly sizes c) := by
  by_cases both : orderly ∧ op.Orderly sizes c
  · obtain ⟨all, here⟩ := both
    obtain ⟨ys, exact_, tidy⟩ :=
      run_tidy follows.exact_ (follows.tidy all) counted (fun full => (fair full).1) here
    exact ⟨ys, exact_, tidy.holds exact_.toTracked, fun _ => tidy⟩
  · have room : ¬ op.FindsFull sizes c := fun full => both ⟨(fair full).2, full.orderly⟩
    obtain ⟨ys, exact_, holds⟩ := run_holds follows.exact_ follows.holds counted room
    exact ⟨ys, exact_, holds, fun all => absurd all both⟩

def OrderlyRun (sizes : Sizes V) (capacity : UInt32) (ops : List (Op V)) : Prop :=
  ∀ before op, before ++ [op] <+: ops →
    op.Orderly sizes (exec sizes (newBuildInMapCache V capacity) before)

/-- After a run of a new cache: a `Set` does not overflow the counter, and one that finds the cache
full has a pair that is not larger than the capacity and comes after `Orderly` operations only. -/
def Op.Fair (sizes : Sizes V) (capacity : UInt32) (before : List (Op V)) (op : Op V) : Prop :=
  op.Counted sizes (exec sizes (newBuildInMapCache V capacity) before) ∧
    (op.FindsFull sizes (exec sizes (newBuildInMapCache V capacity) before) →
      op.Storable sizes capacity ∧ OrderlyRun sizes capacity before)

theorem OrderlyRun.concat {capacity : UInt32} {ops : List (Op V)}
    (all : OrderlyRun sizes capacity (ops ++ [op])) : OrderlyRun sizes capacity ops ∧
      op.Orderly sizes (exec sizes (newBuildInMapCache V capacity) ops) :=
  ⟨fun before op' inside => all before op' (inside.trans (prefix_append ops [op])),
    all ops op prefix_rfl⟩

theorem exec_follows (sizes : Sizes V) (capacity : UInt32) (ops : List (Op V))
    (fair : ∀ before op, before ++ [op] <+: ops → op.Fair sizes capacity before) :
    ∃ xs, Follows sizes (exec sizes (newBuildInMapCache V capacity) ops) xs
      (lru sizes capacity.toNat ops) (OrderlyRun sizes capacity ops) := by
  induction ops using List.reverseRecOn with
  | nil =>
    refine ⟨[], exact_new capacity, .refl _, fun _ => ⟨fun r inside => ?_, rfl, Nat.zero_le _⟩⟩
    contradiction
  | append_singleton ops op ih =>
    have earlier := fun before op' inside =>
      fair before op' (List.IsPrefix.trans inside (prefix_append ops [op]))
    obtain ⟨xs, follows⟩ := ih earlier
    obtain ⟨counted, fair⟩ := fair ops op prefix_rfl
    have same := (exec_tracked sizes capacity ops).2
    obtain ⟨ys, next⟩ := run_follows follows counted fun full => same.symm ▸ fair full
    rw [same] at next
    rw [exec, foldl_concat, ← exec, lru, foldl_concat, ← lru]
    exact ⟨ys, next.exact_, next.holds, fun all => next.tidy all.concat⟩

/-- In every run of a new cache whose steps are `Fair`: in every state the cache holds what a
least recently used cache holds, and a `Set` of a new key makes room for its pair by taking out the
fewest entries, the least recently used first. -/
theorem evicts_least_recent (sizes : Sizes V) (capacity : UInt32) (ops : List (Op V))
    (fair : ∀ before op, before ++ [op] <+: ops → op.Fair sizes capacity before) :
    (∀ before, before <+: ops → (exec sizes (newBuildInMapCache V capacity) before).Holds sizes
        (lru sizes capacity.toNat before)) ∧
    ∀ before key val expiration now keySize valSize,
      before ++ [.set key val expiration now] <+: ops →
      sizes.key key = .ok keySize → sizes.value val = .ok valSize →
      (exec sizes (newBuildInMapCache V capacity) before).data.lookup key = none →
      ∃ kept,
        Lru.Fewest capacity.toNat (keySize.toNat + valSize.toNat)
          (lru sizes capacity.toNat before) kept ∧
        (exec sizes (newBuildInMapCache V capacity)
          (before ++ [.set key val expiration now])).Holds sizes
          (kept ++ [(newItem key val expiration now (keySize + valSize)).entry sizes]) := by
  have states (before : List (Op V)) (inside : before <+: ops) :=
    exec_follows sizes capacity before fun earlier op there => fair earlier op (there.trans inside)
  constructor
  · intro before inside
    obtain ⟨xs, follows⟩ := states before inside
    exact follows.holds
  intro before key val expiration now keySize valSize inside keyed valued absent
  obtain ⟨xs, follows⟩ := states before ((prefix_append _ _).trans inside)
  obtain ⟨ys, after⟩ := states _ inside
  obtain ⟨counted, fair⟩ := fair before _ inside
  have fits : keySize.toNat + valSize.toNat ≤ capacity.toNat := by
    by_cases full : (exec sizes (newBuildInMapCache V capacity) before).capacity <
        (exec sizes (newBuildInMapCache V capacity) before).size + (keySize + valSize)
    · exact (fair ⟨keySize, valSize, keyed, valued, absent, full⟩).1 _ _ keyed valued
    · rw [full_iff (counted _ _ keyed valued), (exec_tracked sizes capacity before).2] at full
      omega
  refine ⟨_, makeRoom_fewest fits _, ?_⟩
  have new : ¬ ∃ old ∈ lru sizes capacity.toNat before,
      old.key = ((newItem key val expiration now (keySize + valSize)).entry sizes).key :=
    fun ⟨old, there, own⟩ => follows.holds.absent follows.exact_.toTracked absent old there own
  have weight : ((newItem key val expiration now (keySize + valSize)).entry sizes).weight =
      keySize.toNat + valSize.toNat := by
    rw [entry_newItem expiration now keyed valued]
  have holds := after.holds
  rwa [lru, foldl_concat, ← lru, lru_set keyed valued, put, if_neg new, weight] at holds

theorem evicts_least_recent_three :
    let sizes : Sizes Nat := ⟨fun key => .ok (16 + UInt32.ofNat key.length), fun _ => .ok 8⟩
    (exec sizes (newBuildInMapCache Nat 60)
      [.set (utf8 "a") (some 1) 0 0, .set (utf8 "b") (some 2) 0 0,
        .set (utf8 "c") (some 3) 0 0]).Holds sizes
      [⟨utf8 "b", (some 2, none), 25⟩, ⟨utf8 "c", (some 3, none), 25⟩] := by
  intro sizes
  refine (evicts_least_recent sizes 60 _ ?_).1 _ prefix_rfl
  have fair (before : List (Op Nat)) (key : Text) (val : Option Nat) (short : key.length = 1)
      (small : (exec sizes (newBuildInMapCache Nat 60) before).size.toNat ≤ 60)
      (orderly : OrderlyRun sizes 60 before) : (set key val 0 0).Fair sizes 60 before := by
    have measured (keySize valSize : UInt32) (keyed : sizes.key key = .ok keySize)
        (valued : sizes.value val = .ok valSize) : keySize.toNat + valSize.toNat = 25 := by
      obtain rfl := Except.ok.inj keyed
      obtain rfl := Except.ok.inj valued
      rw [short]
      rfl
    refine ⟨fun keySize valSize keyed valued => ?_, fun _ => ⟨fun keySize valSize keyed valued =>
      ?_,
      orderly⟩⟩
    · have pair := measured keySize valSize keyed valued
      omega
    · rw [measured keySize valSize keyed valued]
      decide
  have two : OrderlyRun sizes 60
      [.set (utf8 "a") (some 1) 0 0, .set (utf8 "b") (some 2) 0 0] := by
    rw [OrderlyRun, forall_step_cons_iff, forall_step_cons_iff]
    exact ⟨fun _ _ _ _ => by decide +kernel, fun _ _ _ _ => by decide +kernel, by simp⟩
  have one : OrderlyRun sizes 60 [.set (utf8 "a") (some 1) 0 0] := two.concat.1
  rw [forall_step_cons_iff, forall_step_cons_iff, forall_step_cons_iff]
  exact ⟨fair _ _ _ rfl (by decide +kernel) one.concat.1, fair _ _ _ rfl (by decide +kernel) one,
    fair _ _ _ rfl (by decide +kernel) two, by simp⟩

/-- With room for two pairs: a `Get` of the first key does not keep it from being taken out for the
third; and a key that was set twice is taken out for the second, although there is room for
both. -/
theorem least_recent_kept :
    let sizes : Sizes Nat := ⟨fun key => .ok (16 + UInt32.ofNat key.length), fun _ => .ok 8⟩
    let read : List (Op Nat) := [.set (utf8 "a") (some 1) 0 0, .set (utf8 "b") (some 2) 0 0,
      .getRead (utf8 "a") 0, .set (utf8 "c") (some 3) 0 0]
    let twice : List (Op Nat) := [.set (utf8 "a") (some 1) 0 0, .set (utf8 "a") (some 2) 0 0,
      .set (utf8 "b") (some 3) 0 0]
    ¬ (exec sizes (newBuildInMapCache Nat 60) read).Holds sizes (lru sizes 60 read) ∧
      ¬ (exec sizes (newBuildInMapCache Nat 60) twice).Holds sizes (lru sizes 60 twice) := by
  intro sizes read twice
  have first : (exec sizes (newBuildInMapCache Nat 60) read).contents sizes
      (exec sizes (newBuildInMapCache Nat 60) read).data =
      [⟨utf8 "c", (some 3, none), 25⟩, ⟨utf8 "b", (some 2, none), 25⟩] := by decide +kernel
  have second : (exec sizes (newBuildInMapCache Nat 60) twice).contents sizes
      (exec sizes (newBuildInMapCache Nat 60) twice).data =
      [⟨utf8 "b", (some 3, none), 25⟩] := by decide +kernel
  constructor
  · rw [Holds, first]
    decide +kernel
  · rw [Holds, second]
    decide +kernel

end Soil.Cache
