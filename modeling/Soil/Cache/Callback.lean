import Soil.Cache.LocalList

/-!
# The eviction callback

`delete` calls `onEvicted` for the entry it takes out of the map; the loop of `Set` that
makes room takes entries out of the map itself and calls nothing.
-/

namespace Soil.Cache

open List

variable {V : Type}

namespace BuildInMapCache

def departed (c c' : BuildInMapCache V) : List (Text × Option V) :=
  (c.data.entries.filter fun e => (c'.data.lookup e.1).isNone).map fun e =>
    (e.1, (c.items e.2).value)

def Reported (c c' : BuildInMapCache V) : Prop :=
  ∃ calls, c'.evicted = c.evicted ++ calls ∧ calls.Perm (c.departed c')

variable {c c' : BuildInMapCache V}

theorem mem_departed {key : Text} {v : Option V} : (key, v) ∈ c.departed c' ↔
      ∃ r, c.data.lookup key = some r ∧ c'.data.lookup key = none ∧ (c.items r).value = v := by
  simp only [departed, mem_map, mem_filter, Option.isNone_iff_eq_none]
  constructor
  · intro ⟨⟨key', r⟩, ⟨inside, gone⟩, same⟩
    obtain ⟨rfl, held⟩ := Prod.mk.inj same
    exact ⟨r, AList.mem_lookup_iff.mpr inside, gone, held⟩
  · intro ⟨r, present, gone, held⟩
    exact ⟨⟨key, r⟩, ⟨AList.mem_lookup_iff.mp present, gone⟩, by rw [held]⟩

theorem nodup_departed : (c.departed c').Nodup := by
  apply List.Nodup.of_map Prod.fst
  rw [departed, map_map]
  have keys : (c.data.entries.map Sigma.fst).Nodup := c.data.nodupKeys
  exact keys.sublist (filter_sublist.map Sigma.fst)

theorem departed_eq_nil_iff :
    c.departed c' = [] ↔ ∀ key, c'.data.lookup key = none → c.data.lookup key = none := by
  constructor
  · intro nothing key gone
    by_contra present
    obtain ⟨r, present⟩ := Option.ne_none_iff_exists'.mp present
    have left : (key, (c.items r).value) ∈ c.departed c' := mem_departed.mpr ⟨r, present, gone, rfl⟩
    rw [nothing] at left
    contradiction
  · intro stays
    apply eq_nil_iff_forall_not_mem.mpr
    intro (key, v) left
    obtain ⟨r, present, gone, -⟩ := mem_departed.mp left
    rw [stays key gone] at present
    contradiction

theorem reported_iff_of_evicted (silent : c'.evicted = c.evicted) :
    c.Reported c' ↔ ∀ key, c'.data.lookup key = none → c.data.lookup key = none := by
  rw [← departed_eq_nil_iff]
  constructor
  · intro ⟨calls, made, same⟩
    obtain rfl : calls = [] := by simpa [silent] using made
    exact same.symm.eq_nil
  · intro nothing
    exact ⟨[], by simp [silent], by simp [nothing]⟩

theorem Reported.refl (c : BuildInMapCache V) : c.Reported c :=
  (reported_iff_of_evicted rfl).mpr fun _ gone => gone

/-! ## Deletions -/

structure Shrinks (c c' : BuildInMapCache V) : Prop where
  items : c'.items = c.items
  lookup : ∀ key r, c'.data.lookup key = some r → c.data.lookup key = some r

theorem Shrinks.refl (c : BuildInMapCache V) : c.Shrinks c := ⟨rfl, fun _ _ found => found⟩

theorem Shrinks.departed_erase {key : Text} {node : Ref} {c'' : BuildInMapCache V}
    (shrinks : c.Shrinks c') (present : c'.data.lookup key = some node)
    (erased : c''.data = c'.data.erase key) :
    (c.departed c' ++ [(key, (c'.items node).value)]).Perm (c.departed c'') := by
  have new : (key, (c'.items node).value) ∉ c.departed c' := by
    intro left
    obtain ⟨-, -, gone, -⟩ := mem_departed.mp left
    rw [present] at gone
    contradiction
  have once : (c.departed c' ++ [(key, (c'.items node).value)]).Nodup :=
    nodup_departed.append (nodup_singleton _) (by simpa using new)
  refine (perm_ext_iff_of_nodup once nodup_departed).mpr fun (other, v) => ?_
  rw [mem_append, mem_singleton, mem_departed, mem_departed, erased, Prod.mk.injEq]
  by_cases own : other = key
  · subst own
    simp [shrinks.lookup other node present, shrinks.items, eq_comm]
  · simp [own]

theorem Shrinks.deleteItem (shrinks : c.Shrinks c') (key : Text) :
    c.Shrinks (c'.deleteItem key) := by
  rw [BuildInMapCache.deleteItem]
  split
  · exact shrinks
  · refine ⟨shrinks.items, fun other r found => shrinks.lookup other r ?_⟩
    by_cases own : other = key
    · subst own
      simp at found
    · simpa [AList.lookup_erase_ne own] using found

theorem Shrinks.deleteItem_reported (shrinks : c.Shrinks c') (reported : c.Reported c')
    (key : Text) : c.Reported (c'.deleteItem key) := by
  rw [BuildInMapCache.deleteItem]
  split
  · exact reported
  next node present =>
    obtain ⟨calls, made, same⟩ := reported
    refine ⟨calls ++ [(key, (c'.items node).value)], by simp [made], ?_⟩
    exact (same.append_right _).trans (shrinks.departed_erase present rfl)

theorem deleteItem_reported (c : BuildInMapCache V) (key : Text) : c.Reported (c.deleteItem key) :=
  (Shrinks.refl c).deleteItem_reported (.refl c) key

theorem sweep_reported (c : BuildInMapCache V) (t : Int) (visited : List Text) :
    c.Reported (c.sweep t visited) := by
  have both : c.Shrinks (c.sweep t visited) ∧ c.Reported (c.sweep t visited) :=
    sweep_keeps (P := fun c' => c.Shrinks c' ∧ c.Reported c') t visited
      (fun _ key ⟨shrinks, reported⟩ =>
        ⟨shrinks.deleteItem key, shrinks.deleteItem_reported reported key⟩) ⟨.refl c, .refl c⟩
  exact both.2

theorem getLocked_reported {sizes : Sizes V} {xs : List Ref} (tracked : c.Tracked sizes xs)
    (key : Text) (now : Int) : c.Reported (c.getLocked key now).1 := by
  rw [BuildInMapCache.getLocked]
  split
  · exact .refl c
  next node present =>
    split
    · exact deleteItem_reported c key
    · obtain ⟨before, after, rfl⟩ := append_of_mem (tracked.held key node present).1
      obtain ⟨links, moved, -⟩ := tracked.moveToHead
      rw [moved]
      exact (reported_iff_of_evicted rfl).mpr fun _ gone => gone

theorem delete_reported (c : BuildInMapCache V) (key : Text) : c.Reported (c.delete key).1 := by
  rw [BuildInMapCache.delete]
  split
  · exact .refl c
  · exact deleteItem_reported c key

/-! ## `Set` -/

variable {i : Item V}

theorem Adds.absent_iff {sizes : Sizes V} {xs ys : List Ref} {key : Text}
    (adds : Adds sizes c xs i ys c') :
    c'.data.lookup key = none ↔ key ≠ i.key ∧ c.data.lookup key = none := by
  rw [adds.data]
  by_cases own : key = i.key
  · simp
  · simp [own]

theorem Adds.reported {sizes : Sizes V} {xs ys : List Ref}
    (adds : Adds sizes c xs i ys c') : c.Reported c' :=
  (reported_iff_of_evicted adds.evicted).mpr fun _ gone => (adds.absent_iff.mp gone).2

def SparesKeys (c : BuildInMapCache V) (pairSize : UInt32) : Prop :=
  ∀ xs, c.links.Spans head tail xs →
    ∀ r ∈ shed c.items pairSize (c.capacity - c.size) xs.reverse,
      c.data.lookup (c.items r).key = none

section

variable {sizes : Sizes V} {xs : List Ref} {key : Text} {val : Option V} {keySize valSize : UInt32}

theorem Tracked.set_full_reported_iff (expiration now : Int) (tracked : c.Tracked sizes xs)
    (keyed : sizes.key key = .ok keySize) (valued : sizes.value val = .ok valSize)
    (absent : c.data.lookup key = none) (full : c.capacity < c.size + (keySize + valSize)) :
    c.Reported (c.set sizes key val expiration now).1 ↔ c.SparesKeys (keySize + valSize) := by
  obtain ⟨kept, made, fault, -, -, sheds, ends⟩ :=
    tracked.set_full expiration now keyed valued absent full
  have silent : (c.set sizes key val expiration now).1.evicted = c.evicted := by
    rcases ends with ⟨-, fails⟩ | ⟨-, c', adds, stored⟩
    · rw [fails]
      exact sheds.evicted
    · rw [stored]
      exact adds.evicted.trans sheds.evicted
  have missing (other : Text) (present : c.data.lookup other ≠ none) :
      (c.set sizes key val expiration now).1.data.lookup other = none ↔
        made.data.lookup other = none := by
    rcases ends with ⟨-, fails⟩ | ⟨-, c', adds, stored⟩
    · rw [fails]
    · have different : other ≠ key := fun own => present (own ▸ absent)
      rw [stored, adds.absent_iff]
      exact and_iff_right different
  rw [reported_iff_of_evicted silent]
  constructor
  · intro stays ys spans r inside
    obtain rfl := spans.unique tracked.spans
    by_contra present
    refine present (stays _ ((missing _ present).mpr ?_))
    rw [sheds.lookup, if_pos (mem_map_of_mem inside)]
  · intro spares other gone
    by_contra present
    have gone := (missing other present).mp gone
    rw [sheds.lookup] at gone
    split at gone
    next out =>
      obtain ⟨r, inside, rfl⟩ := mem_map.mp out
      exact present (spares xs tracked.spans r inside)
    next => exact present gone

theorem Tracked.set_reported_iff (expiration now : Int) (tracked : c.Tracked sizes xs)
    (keyed : sizes.key key = .ok keySize) (valued : sizes.value val = .ok valSize) :
    c.Reported (c.set sizes key val expiration now).1 ↔
      (c.data.lookup key = none → c.capacity < c.size + (keySize + valSize) →
        c.SparesKeys (keySize + valSize)) := by
  cases there : c.data.lookup key with
  | some =>
    obtain ⟨ys, c', adds, stored⟩ := tracked.set_present expiration now keyed valued there
    rw [stored]
    exact iff_of_true adds.reported fun none_ => nomatch none_
  | none =>
    by_cases full : c.capacity < c.size + (keySize + valSize)
    · rw [tracked.set_full_reported_iff expiration now keyed valued there full]
      exact ⟨fun spares _ _ => spares, fun spares => spares rfl full⟩
    · obtain ⟨c', adds, stored⟩ := tracked.set_room expiration now keyed valued there full
      rw [stored]
      exact iff_of_true adds.reported fun _ full_ => absurd full_ full

end

end BuildInMapCache

/-! ## Runs -/

open BuildInMapCache

def Op.Reports (sizes : Sizes V) (c : BuildInMapCache V) (op : Op V) : Prop :=
  c.Reported (op.run sizes c)

def Op.Quiet (sizes : Sizes V) (c : BuildInMapCache V) : Op V → Prop
  | .set key val _ _ => ∀ keySize valSize, sizes.key key = .ok keySize →
      sizes.value val = .ok valSize → c.data.lookup key = none →
      c.capacity < c.size + (keySize + valSize) → c.SparesKeys (keySize + valSize)
  | _ => True

variable {sizes : Sizes V} {c : BuildInMapCache V} {xs : List Ref}

theorem Op.reports_iff_quiet (tracked : c.Tracked sizes xs) (op : Op V) :
    op.Reports sizes c ↔ op.Quiet sizes c := by
  cases op with
  | getRead => exact iff_of_true (.refl c) trivial
  | getLocked key now => exact iff_of_true (getLocked_reported tracked key now) trivial
  | delete key => exact iff_of_true (delete_reported c key) trivial
  | sweep t => exact iff_of_true (sweep_reported c t _) trivial
  | set key val expiration now =>
    rw [Reports, run, Quiet]
    rcases measured_or sizes key val with ⟨keySize, valSize, keyed, valued⟩ | fails
    · rw [tracked.set_reported_iff expiration now keyed valued]
      constructor
      · intro spares keySize' valSize' keyed' valued'
        obtain rfl := Except.ok.inj (keyed.symm.trans keyed')
        obtain rfl := Except.ok.inj (valued.symm.trans valued')
        exact spares
      · intro spares
        exact spares keySize valSize keyed valued
    · rw [set_error fails]
      exact iff_of_true (.refl c) fun keySize valSize keyed valued =>
        absurd valued (fails keySize valSize keyed)

/-- After every run of a new cache: the next step calls `onEvicted` for exactly the entries that
leave the cache in it if and only if it is not a `Set` that takes entries out to make room. -/
theorem reports_iff (sizes : Sizes V) (capacity : UInt32) (ops : List (Op V)) (op : Op V) :
    op.Reports sizes (exec sizes (newBuildInMapCache V capacity) ops) ↔
      op.Quiet sizes (exec sizes (newBuildInMapCache V capacity) ops) := by
  obtain ⟨⟨xs, tracked⟩, -⟩ := exec_tracked sizes capacity ops
  exact Op.reports_iff_quiet tracked op

/-- With room for two pairs, the third `Set` takes the first key out, and nobody is told. -/
theorem room_made_unreported :
    let sizes : Sizes Nat := ⟨fun key => .ok (16 + UInt32.ofNat key.length), fun _ => .ok 8⟩
    let c := exec sizes (newBuildInMapCache Nat 60)
      [.set (utf8 "a") (some 1) 0 0, .set (utf8 "b") (some 2) 0 0]
    let op : Op Nat := .set (utf8 "c") (some 3) 0 0
    c.departed (op.run sizes c) = [(utf8 "a", some 1)] ∧ (op.run sizes c).evicted = [] ∧
      ¬ op.Reports sizes c := by
  intro sizes c op
  have leaves : c.departed (op.run sizes c) = [(utf8 "a", some 1)] := by decide +kernel
  have silent : (op.run sizes c).evicted = [] := by decide +kernel
  refine ⟨leaves, silent, ?_⟩
  intro ⟨calls, made, same⟩
  rw [silent] at made
  obtain rfl : calls = [] := (append_eq_nil_iff.mp made.symm).2
  rw [leaves] at same
  exact not_perm_nil_cons _ _ same

end Soil.Cache
