import Soil.Cache.Capacity

/-!
# When the local cache is consistent

`Set` on a key that is present leaves the old item in the list, and every deletion takes an
item out of the map only; so list, map and counter agree exactly as long as no operation does
either and the counter does not overflow.
-/

namespace Soil.Cache

open List

variable {V : Type} {sizes : Sizes V} {c : BuildInMapCache V} {xs : List Ref}

namespace BuildInMapCache

theorem Tracked.consistent_iff (tracked : c.Tracked sizes xs) :
    c.Consistent ↔ c.Live xs ∧ c.size.toNat = c.bytes xs := by
  constructor
  · intro ⟨ys, agrees⟩
    obtain rfl := agrees.spans.unique tracked.spans
    refine ⟨fun r inside => AList.mem_lookup_iff.mpr ?_, agrees.sum⟩
    exact agrees.entries.mem_iff.mp (mem_map_of_mem inside)
  · intro ⟨live, total⟩
    have keyed : (c.data.entries.map Sigma.snd).map c.entry = c.data.entries := by
      rw [map_map]
      refine (map_congr_left fun e inside => ?_).trans (map_id _)
      have own := (tracked.held e.1 e.2 (lookup_of_mem_entries inside)).2.1
      simp [entry, own]
    have entries := (live.perm_refs tracked).map c.entry
    rw [keyed] at entries
    exact ⟨xs, tracked.spans, entries.symm, total⟩

structure Sound (sizes : Sizes V) (c : BuildInMapCache V) (xs : List Ref) : Prop
    extends c.Tracked sizes xs where
  live : c.Live xs
  total : c.size.toNat = c.bytes xs
  within : c.size.toNat ≤ c.capacity.toNat

theorem sound_new (capacity : UInt32) : (newBuildInMapCache V capacity).Sound sizes [] :=
  ⟨tracked_new capacity, nofun, rfl, Nat.zero_le _⟩

theorem Sound.length (sound : c.Sound sizes xs) : c.data.keys.length = xs.length := by
  rw [AList.keys, keys, length_map, ← (sound.live.perm_refs sound.toTracked).length_eq, length_map]

variable {c' : BuildInMapCache V}

theorem Sound.adds {i : Item V} (sound : c.Sound sizes xs) (adds : Adds sizes c xs i xs c')
    (absent : c.data.lookup i.key = none) (room : c.size.toNat + i.size.toNat ≤ c.capacity.toNat) :
    c'.Sound sizes (c.allocated :: xs) := by
  have limit := c.capacity.toNat_lt
  have sum : c'.size.toNat = c.size.toNat + i.size.toNat := by
    rw [adds.size, UInt32.toNat_add, Nat.mod_eq_of_lt (by omega)]
  refine ⟨adds.tracked, sound.live.adds adds absent, ?_, ?_⟩
  · rw [sum, adds.bytes, sound.total, Nat.add_comm]
  · rw [sum, adds.capacity]
    exact room

section

variable {key : Text} {val : Option V} {expiration now : Int} {keySize valSize : UInt32}

section

variable (sound : c.Sound sizes xs) (keyed : sizes.key key = .ok keySize)
  (valued : sizes.value val = .ok valSize)
include sound keyed valued

theorem Sound.set_new (absent : c.data.lookup key = none)
    (fits : c.size.toNat + (keySize + valSize).toNat < 2 ^ 32) :
    ∃ ys, (c.set sizes key val expiration now).1.Sound sizes ys := by
  by_cases full : c.capacity < c.size + (keySize + valSize)
  · obtain ⟨kept, made, fault, -, split_, sheds, ends⟩ :=
      sound.set_full expiration now keyed valued absent full
    obtain ⟨total, within, room⟩ := sheds.counted sound.within split_ sound.total
    have capacity : made.capacity = c.capacity := sheds.capacity
    rw [← capacity] at within room
    have kept : made.Sound sizes kept :=
      ⟨sheds.tracked, sound.live.shed sound.toTracked split_ sheds, total, within⟩
    rcases ends with ⟨-, fails⟩ | ⟨none_, c', adds, stored⟩
    · rw [fails]
      exact ⟨_, kept⟩
    rw [stored]
    refine ⟨_, kept.adds adds ?_ (room none_)⟩
    change made.data.lookup key = none
    rw [sheds.lookup]
    split
    · rfl
    · exact absent
  · obtain ⟨c', adds, stored⟩ := sound.set_room expiration now keyed valued absent full
    rw [UInt32.lt_iff_toNat_lt, UInt32.toNat_add, Nat.mod_eq_of_lt fits] at full
    rw [stored]
    exact ⟨_, sound.adds adds absent (Nat.not_lt.mp full)⟩

theorem Sound.set_present {node : Ref} (present : c.data.lookup key = some node) :
    ¬ (c.set sizes key val expiration now).1.Consistent := by
  obtain ⟨ys, c', adds, stored⟩ := sound.toTracked.set_present expiration now keyed valued present
  rw [stored]
  refine not_consistent_of_length adds.tracked.spans ?_
  have data : c'.data = c.data.insert key c.allocated := adds.data
  have replaced := length_keys_insert_of_lookup present c.allocated
  rw [data, replaced, sound.length, length_cons, adds.same.length_eq]
  exact Nat.ne_of_lt (Nat.lt_succ_self _)

theorem Sound.set_overflow (absent : c.data.lookup key = none)
    (overflows : 2 ^ 32 ≤ c.size.toNat + (keySize + valSize).toNat) :
    ¬ (c.set sizes key val expiration now).1.Consistent := by
  have within := sound.within
  have held := c.size.toNat_lt
  have small := (keySize + valSize).toNat_lt
  have total : (c.size + (keySize + valSize)).toNat =
      c.size.toNat + (keySize + valSize).toNat - 2 ^ 32 := by
    rw [UInt32.toNat_add]
    omega
  have room : ¬ c.capacity < c.size + (keySize + valSize) := by
    rw [UInt32.lt_iff_toNat_lt]
    omega
  obtain ⟨c', adds, stored⟩ := sound.set_room expiration now keyed valued absent room
  rw [stored, adds.tracked.consistent_iff, adds.bytes, adds.size, ← sound.total]
  simp only [newItem, total]
  omega

end

end

theorem Sound.not_consistent_of_lost (sound : c.Sound sizes xs) (links : c'.links = c.links)
    (lost : c'.data.keys.length < c.data.keys.length) : ¬ c'.Consistent := by
  refine not_consistent_of_length (links ▸ sound.spans) ?_
  rw [← sound.length]
  exact Nat.ne_of_lt lost

end BuildInMapCache

/-! ## Runs -/

open BuildInMapCache

variable {op : Op V}

theorem Op.run_sound (sound : c.Sound sizes xs) (keeps : op.Keeps sizes c) :
    ∃ ys, (op.run sizes c).Sound sizes ys := by
  cases op with
  | getRead => exact ⟨xs, sound⟩
  | set key val =>
    rw [run]
    rcases measured_or sizes key val with ⟨keySize, valSize, keyed, valued⟩ | fails
    · obtain ⟨absent, fits⟩ := keeps keySize valSize keyed valued
      exact sound.set_new keyed valued absent fits
    · rw [set_error fails]
      exact ⟨xs, sound⟩
  | getLocked key now =>
    rw [run, BuildInMapCache.getLocked]
    split
    · exact ⟨xs, sound⟩
    next node present =>
      have alive : ¬ (c.items node).deadlineBefore now := fun late => keeps ⟨node, present, late⟩
      obtain ⟨before, after, rfl⟩ := append_of_mem (sound.held key node present).1
      obtain ⟨links, moved, tracked⟩ := sound.toTracked.moveToHead
      have same : (before ++ node :: after).Perm (node :: (before ++ after)) := perm_middle
      rw [if_neg alive, moved]
      exact ⟨_, tracked, fun r inside => sound.live r (same.mem_iff.mpr inside),
        sound.total.trans (same.map _).sum_nat, sound.within⟩
  | delete key =>
    have absent : c.data.lookup key = none := keeps
    rw [run, BuildInMapCache.delete, absent]
    exact ⟨xs, sound⟩
  | sweep =>
    rw [run, sweep_eq_self keeps]
    exact ⟨xs, sound⟩

theorem Op.run_not_consistent (sound : c.Sound sizes xs) (fails : ¬ op.Keeps sizes c) :
    ¬ (op.run sizes c).Consistent := by
  cases op with
  | getRead => exact absurd trivial fails
  | set key =>
    simp only [Keeps, not_forall] at fails
    obtain ⟨keySize, valSize, keyed, valued, fails⟩ := fails
    cases there : c.data.lookup key with
    | some => exact sound.set_present keyed valued there
    | none =>
      have overflows : 2 ^ 32 ≤ c.size.toNat + (keySize + valSize).toNat := by
        simpa [there] using fails
      exact sound.set_overflow keyed valued there overflows
  | getLocked key =>
    obtain ⟨node, present, late⟩ := not_not.mp fails
    rw [run, BuildInMapCache.getLocked, present]
    simp only [late, if_true]
    exact sound.not_consistent_of_lost (deleteItem_links key) (deleteItem_length present)
  | delete key =>
    obtain ⟨node, present⟩ := Option.ne_none_iff_exists'.mp fails
    rw [run, BuildInMapCache.delete, present]
    exact sound.not_consistent_of_lost (deleteItem_links key) (deleteItem_length present)
  | sweep t =>
    simp only [Keeps, not_forall, not_not] at fails
    obtain ⟨key, inside, late⟩ := fails
    exact sound.not_consistent_of_lost (sweep_links t _) (sweep_length_lt inside late)

theorem exec_consistent_iff (sound : c.Sound sizes xs) (ops : List (Op V)) :
    (∀ before, before <+: ops → (exec sizes c before).Consistent) ↔
      ∀ before op, before ++ [op] <+: ops → op.Keeps sizes (exec sizes c before) := by
  have start : c.Consistent := sound.consistent_iff.mpr ⟨sound.live, sound.total⟩
  have agree (c : BuildInMapCache V) (op : Op V) (sound : ∃ xs, c.Sound sizes xs) :
      (op.run sizes c).Consistent ↔ op.Keeps sizes c := by
    obtain ⟨xs, sound⟩ := sound
    constructor
    · intro consistent
      by_contra fails
      exact Op.run_not_consistent sound fails consistent
    · intro keeps
      obtain ⟨ys, kept⟩ := Op.run_sound sound keeps
      exact kept.consistent_iff.mpr ⟨kept.live, kept.total⟩
  have keeps (c : BuildInMapCache V) (op : Op V) (sound : ∃ xs, c.Sound sizes xs)
      (meets : op.Keeps sizes c) : ∃ ys, (op.run sizes c).Sound sizes ys := by
    obtain ⟨xs, sound⟩ := sound
    exact Op.run_sound sound meets
  exact (forall_prefix_iff start).trans (forall_step_iff agree keeps ⟨xs, sound⟩ ops)

/-- Along every run of a new cache: the list, the map and the counter agree in all its
states if and only if no operation sets a key that is present, overflows the counter
or comes to an entry it deletes. -/
theorem cache_consistent_iff (sizes : Sizes V) (capacity : UInt32) (ops : List (Op V)) :
    (∀ before, before <+: ops → (exec sizes (newBuildInMapCache V capacity) before).Consistent) ↔
    ∀ before op, before ++ [op] <+: ops →
      op.Keeps sizes (exec sizes (newBuildInMapCache V capacity) before) :=
  exec_consistent_iff (sound_new capacity) ops

/-- Two calls of `Set` with one key leave two items in the list and one in the map. -/
theorem set_twice_inconsistent :
    ¬ (exec ⟨fun key => .ok (16 + UInt32.ofNat key.length), fun _ => .ok 8⟩
      (newBuildInMapCache Nat 60)
      [.set (utf8 "k") (some 1) 0 0, .set (utf8 "k") (some 2) 0 0]).Consistent := by
  have keeps : Op.Keeps ⟨fun key => .ok (16 + UInt32.ofNat key.length), fun _ => .ok 8⟩
      (newBuildInMapCache Nat 60) (.set (utf8 "k") (some 1) 0 0) := by
    intro keySize valSize keyed valued
    injection keyed with keyed
    injection valued with valued
    subst keyed valued
    exact ⟨by decide, by decide⟩
  obtain ⟨ys, sound⟩ := Op.run_sound (sound_new 60) keeps
  rw [exec, foldl_cons, foldl_cons, foldl_nil]
  refine Op.run_not_consistent sound fun again => ?_
  have absent := (again _ _ rfl rfl).1
  exact absurd absent (by decide)

end Soil.Cache
