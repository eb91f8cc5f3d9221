import Mathlib.Data.List.Basic
import Mathlib.Tactic.Ring

/-!
# Byte strings

Big-endian numbers of any width and slice expressions that check their bounds.
Machine numbers are natural numbers here; a field of `w` bytes holds a number
modulo `256 ^ w`.
-/

namespace Soil

open List Nat

abbrev Byte := UInt8

abbrev Text := List Byte

instance : LawfulBEq Text := inferInstanceAs (LawfulBEq (List Byte))

def utf8 (s : String) : Text := s.toList.flatMap String.utf8EncodeChar

/-! ## Big-endian numbers -/

def putBE : Nat → Nat → List Byte
  | 0, _ => []
  | w + 1, n => UInt8.ofNat (n / 256 ^ w) :: putBE w n

def getBE : List Byte → Nat
  | [] => 0
  | b :: bs => b.toNat * 256 ^ bs.length + getBE bs

@[simp] theorem putBE_length (w n : Nat) : (putBE w n).length = w := by
  induction w with
  | zero => rfl
  | succ w ih => simp [putBE, ih]

theorem getBE_lt (bs : List Byte) : getBE bs < 256 ^ bs.length := by
  induction bs with
  | nil => simp [getBE]
  | cons b bs =>
    have digit : b.toNat < 256 := b.toNat_lt
    rw [getBE, length_cons, pow_succ]
    have : b.toNat * 256 ^ bs.length ≤ 255 * 256 ^ bs.length :=
      mul_le_mul_right _ (by omega)
    omega

theorem getBE_putBE (w n : Nat) : getBE (putBE w n) = n % 256 ^ w := by
  induction w with
  | zero => simp [putBE, getBE, mod_one]
  | succ w ih =>
    have digit : (UInt8.ofNat (n / 256 ^ w)).toNat = n / 256 ^ w % 256 := by simp
    rw [putBE, getBE, putBE_length, ih, digit, pow_succ, mod_mul, mul_comm, add_comm]

variable {n : Nat}

theorem getBE_putBE_of_lt {w : Nat} (fits : n < 256 ^ w) : getBE (putBE w n) = n := by
  rw [getBE_putBE, mod_eq_of_lt fits]

theorem putBE_add_mul (w n k : Nat) : putBE w (n + k * 256 ^ w) = putBE w n := by
  induction w generalizing k with
  | zero => rfl
  | succ w ih =>
    have shift : n + k * 256 ^ (w + 1) = n + k * 256 * 256 ^ w := by ring
    have digit : (n + k * 256 * 256 ^ w) / 256 ^ w = n / 256 ^ w + k * 256 :=
      Nat.add_mul_div_right n (k * 256) (Nat.pow_pos (by omega))
    have wraps : UInt8.ofNat (n / 256 ^ w + k * 256) = UInt8.ofNat (n / 256 ^ w) := by
      apply UInt8.toNat_inj.mp
      simp
    rw [putBE, putBE, shift, digit, wraps, ih]

theorem putBE_getBE (bs : List Byte) : putBE bs.length (getBE bs) = bs := by
  induction bs with
  | nil => rfl
  | cons b bs ih =>
    have digit : (getBE bs + b.toNat * 256 ^ bs.length) / 256 ^ bs.length = b.toNat := by
      rw [Nat.add_mul_div_right _ _ (Nat.pow_pos (by omega)), Nat.div_eq_of_lt (getBE_lt bs),
        Nat.zero_add]
    rw [length_cons, putBE, getBE, Nat.add_comm, digit, putBE_add_mul, ih, UInt8.ofNat_toNat]

/-! ## Buffers -/

def padTo (n : Nat) (bs : List Byte) : List Byte := bs ++ List.replicate (n - bs.length) 0

variable {bs : List Byte}

theorem padTo_length (fits : bs.length ≤ n) : (padTo n bs).length = n := by
  simp only [padTo, length_append, length_replicate]
  omega

theorem padTo_of_length (full : bs.length = n) : padTo n bs = bs := by
  simp [padTo, full]

def overwrite (buf : List Byte) (pos : Nat) (data : List Byte) : List Byte :=
  buf.take pos ++ data ++ buf.drop (pos + data.length)

/-! ## Searching -/

def indexByte (bs : List Byte) (c : Byte) : Int :=
  match bs.findIdx? (· == c) with
  | some i => i
  | none => -1

def cut (c : Byte) : List Byte → Option (List Byte × List Byte)
  | [] => none
  | b :: bs => if b = c then some ([], bs) else (cut c bs).map fun (x, y) => (b :: x, y)

variable {c : Byte} {x y : List Byte}

theorem cut_eq_some : cut c bs = some (x, y) ↔ bs = x ++ c :: y ∧ c ∉ x := by
  induction bs generalizing x with
  | nil => simp [cut]
  | cons b bs ih =>
    by_cases found : b = c
    · subst found
      cases x with
      | nil => simp [cut]
      | cons => simp [cut]; tauto
    · cases x with
      | nil => simp [cut, found]
      | cons d x =>
        simp only [cut, found, if_false, Option.map_eq_some_iff, Prod.exists, Prod.mk.injEq,
          List.cons.injEq, cons_append, mem_cons, not_or]
        constructor
        · rintro ⟨x', y', split, ⟨rfl, rfl⟩, rfl⟩
          obtain ⟨rfl, free⟩ := ih.mp split
          exact ⟨⟨rfl, rfl⟩, fun same => found same.symm, free⟩
        · rintro ⟨⟨rfl, rfl⟩, -, free⟩
          exact ⟨x, y, ih.mpr ⟨rfl, free⟩, ⟨rfl, rfl⟩, rfl⟩

theorem cut_eq_none : cut c bs = none ↔ c ∉ bs := by
  induction bs with
  | nil => simp [cut]
  | cons b bs ih =>
    by_cases found : b = c
    · simp [cut, found]
    · simp [cut, found, ih, Ne.symm found]

theorem cut_length (split : cut c bs = some (x, y)) : y.length < bs.length := by
  obtain ⟨rfl, -⟩ := cut_eq_some.mp split
  simp only [length_append, length_cons]
  omega

def closedLines (c : Byte) : List Byte → List (List Byte)
  | [] => []
  | b :: bs =>
    if b = c then [] :: closedLines c bs
    else match closedLines c bs with
      | [] => []
      | line :: lines => (b :: line) :: lines

theorem closedLines_of_cut (split : cut c bs = some (x, y)) :
    closedLines c bs = x :: closedLines c y := by
  obtain ⟨rfl, free⟩ := cut_eq_some.mp split
  clear split
  induction x with
  | nil => simp [closedLines]
  | cons b x ih =>
    simp only [mem_cons, not_or] at free
    simp [closedLines, Ne.symm free.1, ih free.2]

theorem closedLines_of_not_mem (absent : c ∉ bs) : closedLines c bs = [] := by
  induction bs with
  | nil => rfl
  | cons b bs ih =>
    simp only [mem_cons, not_or] at absent
    simp [closedLines, Ne.symm absent.1, ih absent.2]

theorem cut_of_closedLines {line : List Byte} {lines : List (List Byte)}
    (eq : closedLines c bs = line :: lines) :
    ∃ rest, cut c bs = some (line, rest) ∧ closedLines c rest = lines := by
  cases split : cut c bs with
  | none =>
    rw [closedLines_of_not_mem (cut_eq_none.mp split)] at eq
    cases eq
  | some parts =>
    obtain ⟨x, y⟩ := parts
    rw [closedLines_of_cut split] at eq
    obtain ⟨rfl, rfl⟩ := List.cons.inj eq
    exact ⟨y, rfl, rfl⟩

/-! ## Slice expressions

Indices are integers: a search that failed hands `-1` to the slice expression
that follows it. -/

inductive Panic where
  | sliceBounds
  | index
  | nilDereference
  | typeAssertion
  | reflect
  | user
  deriving DecidableEq, Repr

def slice (bs : List Byte) (lo hi : Int) : Except Panic (List Byte) :=
  if 0 ≤ lo ∧ lo ≤ hi ∧ hi ≤ bs.length then .ok ((bs.take hi.toNat).drop lo.toNat)
  else .error .sliceBounds

def index (bs : List Byte) (i : Nat) : Except Panic Byte :=
  match bs[i]? with
  | some b => .ok b
  | none => .error .index

theorem slice_of_le (bs : List Byte) {lo hi : Nat} (ordered : lo ≤ hi)
    (fits : hi ≤ bs.length) : slice bs lo hi = .ok ((bs.take hi).drop lo) := by
  rw [slice, if_pos (by omega)]
  rfl

theorem slice_eq_ok {out : List Byte} {lo hi : Nat} (run : slice bs lo hi = .ok out) :
    lo ≤ hi ∧ hi ≤ bs.length ∧ out = (bs.take hi).drop lo := by
  unfold slice at run
  split at run
  · cases run
    exact ⟨by omega, by omega, rfl⟩
  · cases run

variable {i : Nat}

theorem index_of_lt (inside : i < bs.length) : index bs i = .ok (bs.getD i 0) := by
  simp [index, List.getElem?_eq_getElem inside]

variable {b : Byte}

theorem index_eq_ok (run : index bs i = .ok b) : i < bs.length := by
  unfold index at run
  split at run
  · exact (List.getElem?_eq_some_iff.mp ‹_›).1
  · cases run

def copyTo (buf : List Byte) (lo hi : Nat) (data : List Byte) : Except Panic (List Byte) :=
  if lo ≤ hi ∧ hi ≤ buf.length then .ok (overwrite buf lo (data.take (hi - lo)))
  else .error .sliceBounds

def store (buf : List Byte) (i : Nat) (b : Byte) : Except Panic (List Byte) :=
  if i < buf.length then .ok (overwrite buf i [b]) else .error .index

theorem indexByte_append (free : c ∉ x) : indexByte (x ++ c :: y) c = x.length := by
  have found : (x ++ c :: y).findIdx? (· == c) = some x.length := by
    rw [List.findIdx?_append]
    have none : x.findIdx? (· == c) = none := by
      rw [List.findIdx?_eq_none_iff]
      intro b mem
      simpa using fun same : b = c => free (same ▸ mem)
    simp [none, List.findIdx?_cons]
  simp [indexByte, found]

theorem indexByte_of_not_mem (absent : c ∉ bs) : indexByte bs c = -1 := by
  have none : bs.findIdx? (· == c) = none := by
    rw [List.findIdx?_eq_none_iff]
    intro b mem
    simpa using fun same : b = c => absent (same ▸ mem)
  simp [indexByte, none]

theorem indexByte_of_cut (split : cut c bs = some (x, y)) : indexByte bs c ≠ -1 := by
  obtain ⟨rfl, free⟩ := cut_eq_some.mp split
  rw [indexByte_append free]
  omega

theorem slice_cut (split : cut c bs = some (x, y)) : slice bs 0 (indexByte bs c) = .ok x ∧
      slice bs (indexByte bs c + 1) bs.length = .ok y := by
  obtain ⟨rfl, free⟩ := cut_eq_some.mp split
  rw [indexByte_append free]
  constructor
  · rw [slice, if_pos (by simp; omega)]
    simp
  · rw [slice, if_pos (by simp; omega)]
    have start : ((x.length : Int) + 1).toNat = (x ++ [c]).length := by simp
    rw [Int.toNat_natCast, take_length, start, append_cons x c y, drop_left]

theorem slice_cut_none (absent : cut c bs = none) :
    slice bs 0 (indexByte bs c) = .error .sliceBounds := by
  rw [indexByte_of_not_mem (cut_eq_none.mp absent), slice, if_neg (by omega)]

/-- A line and what is left, when the first slice expression around it succeeds. -/
theorem exists_cut (run : slice bs 0 (indexByte bs c) = .ok x) : ∃ y, cut c bs = some (x, y) := by
  cases split : cut c bs with
  | none =>
    rw [slice_cut_none split] at run
    cases run
  | some parts =>
    obtain ⟨x', y⟩ := parts
    rw [(slice_cut split).1] at run
    exact ⟨y, by rw [Except.ok.inj run]⟩

/-! ## Filling a fresh buffer

A buffer made by `make` is zero behind the part that has been written; the next
write starts at the frontier `done`. -/

section

variable {done data : List Byte} {k : Nat}

theorem overwrite_frontier : overwrite (done ++ List.replicate k 0) done.length data =
    done ++ data ++ List.replicate (k - data.length) 0 := by
  rw [overwrite, take_left, drop_append, drop_replicate]
  have past : done.drop (done.length + data.length) = [] := drop_eq_nil_of_le (by omega)
  rw [past, nil_append, Nat.add_sub_cancel_left]

theorem copyTo_frontier {lo hi : Nat} (start : lo = done.length) (stop : hi = lo + data.length) :
    copyTo (done ++ List.replicate k 0) lo hi data =
      if data.length ≤ k then .ok ((done ++ data) ++ List.replicate (k - data.length) 0)
      else .error .sliceBounds := by
  subst start stop
  rw [copyTo, Nat.add_sub_cancel_left, take_length, overwrite_frontier]
  simp only [length_append, length_replicate]
  congr 1
  exact propext ⟨fun bounds => by omega, fun fits => by omega⟩

theorem store_frontier (start : i = done.length) : store (done ++ List.replicate k 0) i b =
      if 1 ≤ k then .ok ((done ++ [b]) ++ List.replicate (k - 1) 0) else .error .index := by
  subst start
  rw [store, overwrite_frontier]
  simp only [length_append, length_replicate, length_singleton]
  congr 1
  exact propext ⟨fun bounds => by omega, fun fits => by omega⟩

variable {buf : List Byte}

theorem copyTo_frontier_ok {lo hi : Nat} (start : lo = done.length) (stop : hi = lo + data.length)
    (run : copyTo (done ++ List.replicate k 0) lo hi data = .ok buf) :
    data.length ≤ k ∧ buf = (done ++ data) ++ List.replicate (k - data.length) 0 := by
  rw [copyTo_frontier start stop] at run
  split at run
  · exact ⟨‹_›, (Except.ok.inj run).symm⟩
  · cases run

theorem store_frontier_ok (start : i = done.length)
    (run : store (done ++ List.replicate k 0) i b = .ok buf) :
    1 ≤ k ∧ buf = (done ++ [b]) ++ List.replicate (k - 1) 0 := by
  rw [store_frontier start] at run
  split at run
  · exact ⟨‹_›, (Except.ok.inj run).symm⟩
  · cases run

end

end Soil
