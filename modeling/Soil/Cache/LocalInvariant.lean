import Soil.Basic
import Soil.Cache.Local

/-!
# What the local cache maintains

`Consistent` is the agreement of list, map and counter.  `Set` on a key that is
present leaves the old item in the list, and every deletion takes an item out of the
map only; so the agreement lasts exactly as long as no operation does either and the
counter does not overflow.
-/

namespace Soil.Cache

open List

variable {V : Type}

namespace BuildInMapCache

def entry (c : BuildInMapCache V) (r : Ref) : Sigma fun _ : Text => Ref := ⟨(c.items r).key, r⟩

def bytes (c : BuildInMapCache V) (xs : List Ref) : Nat :=
  (xs.map fun r => (c.items r).size.toNat).sum

structure Agrees (c : BuildInMapCache V) (xs : List Ref) : Prop where
  spans : c.links.Spans head tail xs
  entries : (xs.map c.entry).Perm c.data.entries
  sum : c.size.toNat = c.bytes xs

def Consistent (c : BuildInMapCache V) : Prop := ∃ xs, c.Agrees xs

variable {c : BuildInMapCache V} {xs : List Ref}

theorem Agrees.length (agrees : c.Agrees xs) : c.data.keys.length = xs.length := by
  rw [AList.keys, List.keys, length_map, ← agrees.entries.length_eq, length_map]

theorem not_consistent_of_length (spans : c.links.Spans head tail xs)
    (other : c.data.keys.length ≠ xs.length) : ¬ c.Consistent := by
  rintro ⟨ys, agrees⟩
  obtain rfl := agrees.spans.unique spans
  exact other agrees.length

/-! ## The list operations -/

variable {node : Ref}

theorem moveToHead_eq {ys zs : List Ref} (spans : c.links.Spans head tail (ys ++ node :: zs)) :
    ∃ links, c.moveToHead node = .ok { c with links } ∧
      links.Spans head tail (node :: (ys ++ zs)) := by
  obtain ⟨out, removed, others, -⟩ := spans.remove
  obtain ⟨links, inserted, moved⟩ := others.insertAfter spans.notMem_others
  refine ⟨links, ?_, moved⟩
  simp [BuildInMapCache.moveToHead, removeNode, addToHead, withLinks, removed, inserted, bind,
    Except.bind]

theorem removeTail_empty (spans : c.links.Spans head tail []) : c.removeTail = .error c := by
  have first : c.links.remove head = .error c.links := spans.remove_first
  simp [removeTail, spans.prev_last, removeNode, first, withLinks]

theorem removeTail_eq {z : Ref} (spans : c.links.Spans head tail (xs ++ [z])) :
    ∃ links, c.removeTail = .ok (z, { c with links }) ∧ links.Spans head tail xs ∧
      links.prev z = some (xs.getLast?.getD head) := by
  obtain ⟨links, removed, others, prev⟩ := spans.remove
  rw [append_nil] at others
  refine ⟨links, ?_, others, prev.trans spans.prev_cell⟩
  simp [removeTail, spans.prev_last, removeNode, removed, withLinks, bind, Except.bind, pure,
    Except.pure]

theorem setItem_eq (spans : c.links.Spans head tail xs)
    (allocated : ∀ r ∈ head :: (xs ++ [tail]), r < c.allocated) (key : Text) (val : Option V)
    (expiration now : Int) (pairSize : UInt32) :
    ∃ links, links.Spans head tail (c.allocated :: xs) ∧
      c.setItem key val expiration now pairSize =
        ({ c with
            items := Function.update c.items c.allocated
              { key, value := val, size := pairSize
                deadline := if expiration > 0 then some (now + expiration) else none }
            data := c.data.insert key c.allocated
            allocated := c.allocated + 1
            links
            size := c.size + pairSize }, .done) := by
  have fresh : c.allocated ∉ head :: (xs ++ [tail]) := fun inside => by
    exact absurd (allocated _ inside) (Nat.lt_irrefl _)
  obtain ⟨links, inserted, spans⟩ := spans.insertAfter fresh
  refine ⟨links, spans, ?_⟩
  simp [setItem, addToHead, withLinks, inserted]

/-! ## Deletions -/

variable {key : Text}

theorem deleteItem_length (present : c.data.lookup key = some node) :
    (c.deleteItem key).data.keys.length < c.data.keys.length := by
  have shorter := length_keys_erase_of_lookup present
  simp only [deleteItem, present]
  omega

theorem deleteItem_links (key : Text) : (c.deleteItem key).links = c.links := by
  rw [deleteItem]
  split <;> rfl

def Expired (c : BuildInMapCache V) (key : Text) (t : Int) : Prop :=
  ∃ r, c.data.lookup key = some r ∧ (c.items r).deadlineBefore t

variable {visited : List Text} {t : Int}

theorem sweep_eq_self (fresh : ∀ key ∈ visited, ¬ c.Expired key t) : c.sweep t visited = c := by
  induction visited with
  | nil => rfl
  | cons key rest ih =>
    have later := ih fun k inside => fresh k (mem_cons_of_mem key inside)
    rw [sweep]
    split
    · exact later
    next r present =>
      have alive : ¬ (c.items r).deadlineBefore t := fun late =>
        fresh key mem_cons_self ⟨r, present, late⟩
      rw [if_neg alive]
      exact later

theorem sweep_keeps {P : BuildInMapCache V → Prop} (t : Int) (visited : List Text)
    (deletes : ∀ c key, P c → P (c.deleteItem key)) (before : P c) : P (c.sweep t visited) := by
  induction visited generalizing c with
  | nil => exact before
  | cons key rest ih =>
    rw [sweep]
    split
    · exact ih before
    · apply ih
      split
      · exact deletes c key before
      · exact before

theorem sweep_links (t : Int) (visited : List Text) : (c.sweep t visited).links = c.links :=
  sweep_keeps (P := fun c' => c'.links = c.links) t visited
    (fun _ key same => (deleteItem_links key).trans same) rfl

theorem sweep_length_le (t : Int) (visited : List Text) :
    (c.sweep t visited).data.keys.length ≤ c.data.keys.length := by
  refine sweep_keeps (P := fun c' => c'.data.keys.length ≤ c.data.keys.length) t visited
    (fun c' key less => ?_) (Nat.le_refl _)
  cases present : c'.data.lookup key with
  | none => simpa only [deleteItem, present] using less
  | some => exact (deleteItem_length present).le.trans less

theorem sweep_length_lt (inside : key ∈ visited)
    (late : c.Expired key t) : (c.sweep t visited).data.keys.length < c.data.keys.length := by
  induction visited generalizing c with
  | nil => contradiction
  | cons first rest ih =>
    rw [sweep]
    split
    next absent =>
      rcases mem_cons.mp inside with rfl | inside
      · obtain ⟨r, present, -⟩ := late
        simp [absent] at present
      · exact ih inside late
    next r present =>
      split
      next gone => exact (sweep_length_le t rest).trans_lt (deleteItem_length present)
      next alive =>
        rcases mem_cons.mp inside with rfl | inside
        · obtain ⟨r', present', late⟩ := late
          obtain rfl := Option.some.inj (present.symm.trans present')
          contradiction
        · exact ih inside late

end BuildInMapCache

/-! ## Runs -/

open BuildInMapCache

def Op.Keeps (sizes : Sizes V) (c : BuildInMapCache V) : Op V → Prop
  | .set key val _ _ => ∀ keySize valSize, sizes.key key = .ok keySize →
      sizes.value val = .ok valSize →
      c.data.lookup key = none ∧ c.size.toNat + (keySize + valSize).toNat < 2 ^ 32
  | .getRead _ _ => True
  | .getLocked key now => ¬ c.Expired key now
  | .delete key => c.data.lookup key = none
  | .sweep t visited => ∀ key ∈ visited.take 1001, ¬ c.Expired key t

end Soil.Cache
