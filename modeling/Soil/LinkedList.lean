import Mathlib.Data.List.Chain
import Mathlib.Data.List.Nodup

/-!
# Doubly linked lists

The `next` and `prev` pointers of a set of cells, and the assignments that link a
cell in behind another one or take it out.  A nil pointer that is followed stops an
operation; what it had assigned before stays assigned.
-/

namespace Soil

open List Option

structure Links (α : Type) where
  next : α → Option α
  prev : α → Option α

namespace Links

variable {α : Type}

section

variable [DecidableEq α]

def setNext (l : Links α) (a : α) (to_ : Option α) : Links α :=
  { l with next := Function.update l.next a to_ }

def setPrev (l : Links α) (a : α) (to_ : Option α) : Links α :=
  { l with prev := Function.update l.prev a to_ }

variable (l : Links α)

@[simp] theorem setNext_prev (a : α) (to_ : Option α) : (l.setNext a to_).prev = l.prev := rfl

@[simp] theorem setPrev_next (a : α) (to_ : Option α) : (l.setPrev a to_).next = l.next := rfl

theorem setNext_next (a b : α) (to_ : Option α) :
    (l.setNext a to_).next b = if b = a then to_ else l.next b :=
  Function.update_apply l.next a to_ b

theorem setPrev_prev (a b : α) (to_ : Option α) :
    (l.setPrev a to_).prev b = if b = a then to_ else l.prev b :=
  Function.update_apply l.prev a to_ b

def insertAfter (l : Links α) (h a : α) : Except (Links α) (Links α) :=
  let l := (l.setNext a (l.next h)).setPrev a (some h)
  match l.next h with
  | none => .error l
  | some n => .ok ((l.setPrev n (some a)).setNext h (some a))

def remove (l : Links α) (a : α) : Except (Links α) (Links α) :=
  match l.prev a with
  | none => .error l
  | some p =>
    let l := l.setNext p (l.next a)
    match l.next a with
    | none => .error l
    | some n => .ok (l.setPrev n (l.prev a))

end

/-! ## Spanned lists -/

def Linked (l : Links α) (a b : α) : Prop := l.next a = some b ∧ l.prev b = some a

structure Spans (l : Links α) (h t : α) (xs : List α) : Prop where
  nodup : (h :: (xs ++ [t])).Nodup
  chain : (h :: (xs ++ [t])).IsChain l.Linked
  first : l.prev h = none
  last : l.next t = none

variable {l l' : Links α} {h t a b : α} {xs ys zs : List α}

theorem isChain_of_agree (chain : xs.IsChain l.Linked)
    (next : ∀ a b, a ∈ xs → b ∈ xs → l.next a = some b → l'.next a = l.next a)
    (prev : ∀ a b, a ∈ xs → b ∈ xs → l.prev b = some a → l'.prev b = l.prev b) :
    xs.IsChain l'.Linked := by
  refine chain.imp_of_mem_imp fun a b ina inb linked => ?_
  exact ⟨(next a b ina inb linked.1).trans linked.1, (prev a b ina inb linked.2).trans linked.2⟩

theorem chain_unique (one : (a :: xs).IsChain l.Linked) (two : (a :: ys).IsChain l.Linked)
    (endOne : ∀ z ∈ (a :: xs).getLast?, l.next z = none)
    (endTwo : ∀ z ∈ (a :: ys).getLast?, l.next z = none) : xs = ys := by
  induction xs generalizing a ys with
  | nil =>
    cases ys with
    | nil => rfl
    | cons =>
      have goes := (isChain_cons_cons.mp two).1.1
      simp [endOne a (by simp)] at goes
  | cons b xs ih =>
    obtain ⟨ab, restOne⟩ := isChain_cons_cons.mp one
    cases ys with
    | nil =>
      have goes := ab.1
      simp [endTwo a (by simp)] at goes
    | cons c =>
      obtain ⟨ac, restTwo⟩ := isChain_cons_cons.mp two
      obtain rfl : b = c := some.inj (ab.1.symm.trans ac.1)
      rw [ih restOne restTwo (by simpa using endOne) (by simpa using endTwo)]

theorem Spans.unique (one : l.Spans h t xs) (two : l.Spans h t ys) : xs = ys := by
  have same : xs ++ [t] = ys ++ [t] :=
    chain_unique one.chain two.chain (by simp [List.getLast?_cons, one.last])
      (by simp [List.getLast?_cons, two.last])
  exact append_cancel_right same

theorem prev_of_chain (chain : (h :: (ys ++ a :: zs)).IsChain l.Linked) :
    l.prev a = some (ys.getLast?.getD h) := by
  rcases eq_nil_or_concat' ys with rfl | ⟨ys, z, rfl⟩
  · exact (isChain_cons_cons.mp chain).1.2
  · rw [append_assoc, singleton_append, ← cons_append, isChain_append_cons_cons] at chain
    simpa using chain.2.1.2

theorem Spans.prev_last (spans : l.Spans h t xs) : l.prev t = some (xs.getLast?.getD h) :=
  prev_of_chain spans.chain

theorem Spans.eq_cons (spans : l.Spans h t xs) (next : l.next h = some a) (inside : a ∈ xs) :
    ∃ rest, xs = a :: rest := by
  cases xs with
  | nil => contradiction
  | cons b rest =>
    have linked : l.Linked h b := (isChain_cons_cons.mp spans.chain).1
    obtain rfl : b = a := some.inj (linked.1.symm.trans next)
    exact ⟨rest, rfl⟩

theorem Spans.prev_cell (spans : l.Spans h t (ys ++ a :: zs)) :
    l.prev a = some (ys.getLast?.getD h) := by
  have chain := spans.chain
  rw [append_assoc, cons_append] at chain
  exact prev_of_chain chain

theorem Spans.notMem_others (spans : l.Spans h t (ys ++ a :: zs)) : a ∉ h :: (ys ++ zs ++ [t]) := by
  have nodup := spans.nodup
  rw [append_assoc, cons_append, ← cons_append, perm_middle.nodup_iff] at nodup
  simpa using (nodup_cons.mp nodup).1

section

variable [DecidableEq α]

theorem Spans.insertAfter (spans : l.Spans h t xs) (fresh : a ∉ h :: (xs ++ [t])) :
    ∃ l', l.insertAfter h a = .ok l' ∧ l'.Spans h t (a :: xs) := by
  obtain ⟨n, rest, cells⟩ :=
    exists_cons_of_ne_nil (append_ne_nil_of_right_ne_nil xs (cons_ne_nil t []))
  have nodup := spans.nodup
  have chain := spans.chain
  have end_ : t ∈ n :: rest := by simp [← cells]
  rw [cells] at nodup chain fresh
  obtain ⟨⟨next, prev⟩, chain⟩ := isChain_cons_cons.mp chain
  have ah : a ≠ h := fun same => fresh (by simp [same])
  have an : a ∉ n :: rest := fun inside => fresh (mem_cons_of_mem h inside)
  have hn : h ∉ n :: rest := (nodup_cons.mp nodup).1
  have other {x : α} (inside : x ∈ n :: rest) : x ≠ a ∧ x ≠ h :=
    ⟨fun same => an (same ▸ inside), fun same => hn (same ▸ inside)⟩
  have step : l.insertAfter h a = .ok ((((l.setNext a (some n)).setPrev a (some h)).setPrev n
      (some a)).setNext h (some a)) := by
    simp [Links.insertAfter, setNext_next, next]
  refine ⟨_, step, ?_, ?_, ?_, ?_⟩
  · rw [cons_append, cells, nodup_cons, nodup_cons, mem_cons, not_or]
    exact ⟨⟨Ne.symm ah, hn⟩, an, (nodup_cons.mp nodup).2⟩
  · rw [cons_append, cells, isChain_cons_cons, isChain_cons_cons]
    refine ⟨⟨?_, ?_⟩, ⟨?_, ?_⟩, isChain_of_agree chain (fun x y inx _ _ => ?_)
      (fun x y inx iny back => ?_)⟩
    · simp [setNext_next]
    · simp [setPrev_prev, (other mem_cons_self).1.symm]
    · simp [setNext_next, ah]
    · simp [setPrev_prev]
    · simp [setNext_next, other inx]
    · have late : y ≠ n := by
        intro same
        rw [same, prev] at back
        exact (other inx).2 (some.inj back).symm
      simp [setPrev_prev, late, other iny]
  · simp [setPrev_prev, Ne.symm ah, (other mem_cons_self).2.symm, spans.first]
  · simp [setNext_next, other end_, spans.last]

theorem Spans.remove (spans : l.Spans h t (ys ++ a :: zs)) :
    ∃ l', l.remove a = .ok l' ∧ l'.Spans h t (ys ++ zs) ∧ l'.prev a = l.prev a := by
  -- `p` comes before the cell and `n` after it
  rcases eq_nil_or_concat' (h :: ys) with nil | ⟨front, p, before⟩
  · contradiction
  obtain ⟨n, back, after⟩ :=
    exists_cons_of_ne_nil (append_ne_nil_of_right_ne_nil zs (cons_ne_nil t []))
  have first : h ∈ front ++ [p] := by simp [← before]
  have last : t ∈ n :: back := by simp [← after]
  have cells : h :: (ys ++ a :: zs ++ [t]) = (front ++ [p]) ++ a :: n :: back := by
    rw [append_assoc, cons_append, after, ← cons_append, before]
  have chain := spans.chain
  have nodup := spans.nodup
  rw [cells] at chain nodup
  rw [append_assoc, singleton_append, isChain_append_cons_cons, isChain_cons_cons] at chain
  obtain ⟨left, ⟨pa, ap⟩, ⟨an, na⟩, right⟩ := chain
  obtain ⟨-, tail, apart⟩ := nodup_append.mp nodup
  have aRight : a ∉ n :: back := (nodup_cons.mp tail).1
  have leftA {x : α} (inside : x ∈ front ++ [p]) : x ≠ a := apart x inside a (by simp)
  have leftRight {x y : α} (inx : x ∈ front ++ [p]) (iny : y ∈ n :: back) : x ≠ y :=
    apart x inx y (mem_cons_of_mem a iny)
  have pLeft : p ∈ front ++ [p] := by simp
  have nRight : n ∈ n :: back := mem_cons_self
  have step : l.remove a = .ok ((l.setNext p (some n)).setPrev n (some p)) := by
    simp [Links.remove, ap, an, setNext_next]
  have rest : h :: (ys ++ zs ++ [t]) = front ++ p :: n :: back := by
    rw [append_assoc, after, ← cons_append, before]
    simp
  refine ⟨_, step, ⟨?_, ?_, ?_, ?_⟩, ?_⟩
  · rw [rest]
    refine nodup.sublist ?_
    rw [append_assoc, singleton_append]
    exact (List.Sublist.refl _).append (cons_sublist_cons.mpr (sublist_cons_self a _))
  · rw [rest, isChain_append_cons_cons]
    refine ⟨isChain_of_agree left (fun x y _ iny goes => ?_) (fun x y _ iny _ => ?_), ⟨?_, ?_⟩,
      isChain_of_agree right (fun x y inx _ _ => ?_) (fun x y inx _ goes => ?_)⟩
    · have early : x ≠ p := by
        intro same
        rw [same, pa] at goes
        exact leftA iny (some.inj goes).symm
      simp [setNext_next, early]
    · simp [setPrev_prev, leftRight iny nRight]
    · simp [setNext_next]
    · simp [setPrev_prev]
    · simp [setNext_next, (leftRight pLeft inx).symm]
    · have late : y ≠ n := by
        intro same
        rw [same, na] at goes
        obtain rfl := some.inj goes
        exact aRight inx
      simp [setPrev_prev, late]
  · simp [setPrev_prev, leftRight first nRight, spans.first]
  · simp [setNext_next, (leftRight pLeft last).symm, spans.last]
  · have an' : a ≠ n := fun same => aRight (same ▸ nRight)
    simp [setPrev_prev, an']

theorem Spans.remove_first (spans : l.Spans h t xs) : l.remove h = .error l := by
  rw [Links.remove, spans.first]

end

end Links

end Soil
