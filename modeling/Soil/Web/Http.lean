import Mathlib.Data.List.Nodup
import Soil.Bytes

/-!
# Headers and response writers

What the web server uses of package `net/http`, as it is documented: header maps with their
canonical keys, and the `ResponseWriter` of a request.  The status line and the headers are
sent with the first `WriteHeader` of a final status; a status outside 100 to 999 panics, a
1xx status other than 101 is informational; bytes are dropped where the method or the status
does not permit a body, or where more are written than `Content-Length` declares.
-/

namespace Soil.Web.Http

open List

/-! ## Texts and keys -/

def toUpper (b : Byte) : Byte := if 97 ≤ b ∧ b ≤ 122 then b - 32 else b

def toLower (b : Byte) : Byte := if 65 ≤ b ∧ b ≤ 90 then b + 32 else b

def hyphen : Byte := 45

def isToken (b : Byte) : Bool :=
  (97 ≤ b ∧ b ≤ 122) ∨ (65 ≤ b ∧ b ≤ 90) ∨ (48 ≤ b ∧ b ≤ 57) ∨
    b ∈ utf8 "!#$%&*+-.^_|~" ∨ b = 39 ∨ b = 96

def capitalize : Bool → Text → Text
  | _, [] => []
  | upper, b :: bs => (if upper then toUpper b else toLower b) :: capitalize (b == hyphen) bs

def canonicalKey (s : Text) : Text := if s.all isToken then capitalize true s else s

def isSpace (b : Byte) : Bool := b = 32 ∨ (9 ≤ b ∧ b ≤ 13)

def trimSpace (s : Text) : Text := ((s.dropWhile isSpace).reverse.dropWhile isSpace).reverse

section

theorem byte_induct {P : Byte → Prop} (all : ∀ n : Fin 256, P (UInt8.ofFin n)) (b : Byte) :
    P b := by
  simpa using all b.toFin

theorem isToken_toUpper : ∀ b, isToken b = true → isToken (toUpper b) = true :=
  byte_induct (by decide +kernel)

theorem isToken_toLower : ∀ b, isToken b = true → isToken (toLower b) = true :=
  byte_induct (by decide +kernel)

theorem toUpper_idem : ∀ b, toUpper (toUpper b) = toUpper b := byte_induct (by decide +kernel)

theorem toLower_idem : ∀ b, toLower (toLower b) = toLower b := byte_induct (by decide +kernel)

theorem toUpper_hyphen : ∀ b, (toUpper b == hyphen) = (b == hyphen) :=
  byte_induct (by decide +kernel)

theorem toLower_hyphen : ∀ b, (toLower b == hyphen) = (b == hyphen) :=
  byte_induct (by decide +kernel)

theorem capitalize_tokens (upper : Bool) (s : Text) (tokens : s.all isToken = true) :
    (capitalize upper s).all isToken = true := by
  induction s generalizing upper with
  | nil => rfl
  | cons b bs ih =>
    rw [all_cons, Bool.and_eq_true] at tokens
    rw [capitalize, all_cons, Bool.and_eq_true]
    refine ⟨?_, ih _ tokens.2⟩
    cases upper with
    | true => exact isToken_toUpper b tokens.1
    | false => exact isToken_toLower b tokens.1

theorem capitalize_idem (upper : Bool) (s : Text) :
    capitalize upper (capitalize upper s) = capitalize upper s := by
  induction s generalizing upper with
  | nil => rfl
  | cons b bs ih =>
    rw [capitalize, capitalize]
    cases upper with
    | true =>
      simp only [if_true, toUpper_hyphen, toUpper_idem]
      rw [ih]
    | false =>
      simp only [Bool.false_eq_true, if_false, toLower_hyphen, toLower_idem]
      rw [ih]

theorem canonicalKey_idem (s : Text) : canonicalKey (canonicalKey s) = canonicalKey s := by
  by_cases tokens : s.all isToken = true
  · have again := capitalize_tokens true s tokens
    rw [canonicalKey, canonicalKey, if_pos tokens, if_pos again, capitalize_idem]
  · have same : canonicalKey s = s := by rw [canonicalKey, if_neg tokens]
    rw [same, same]

end

/-! ## Headers -/

abbrev Header := List (Text × Text)

namespace Header

def values (h : Header) (key : Text) : List Text := (h.filter (·.1 = key)).map Prod.snd

def get (h : Header) (name : Text) : Text := (h.values (canonicalKey name)).headD []

def set (h : Header) (name value : Text) : Header :=
  h.filter (·.1 ≠ canonicalKey name) ++ [(canonicalKey name, value)]

def add (h : Header) (name value : Text) : Header := h ++ [(canonicalKey name, value)]

def del (h : Header) (name : Text) : Header := h.filter (·.1 ≠ canonicalKey name)

variable {h h' : Header} {key name value : Text}

theorem values_append : values (h ++ h') key = h.values key ++ h'.values key := by
  simp [values]

theorem values_filter (name : Text) :
    values (h.filter (·.1 ≠ name)) key = if key = name then [] else h.values key := by
  rw [values, filter_filter]
  by_cases same : key = name
  · subst same
    rw [if_pos rfl, map_eq_nil_iff, filter_eq_nil_iff]
    simp
  rw [if_neg same]
  apply congrArg (List.map Prod.snd)
  apply filter_congr
  intro kv _
  by_cases here : kv.1 = key
  · simp [here, same]
  · simp [here]

theorem values_singleton : values [(name, value)] key = if key = name then [value] else [] := by
  by_cases same : key = name
  · simp [values, same]
  · simp [values, same, Ne.symm same]

theorem values_set :
    (h.set name value).values key = if key = canonicalKey name then [value] else h.values key := by
  rw [set, values_append, values_filter, values_singleton]
  by_cases same : key = canonicalKey name
  · simp [same]
  · simp [same]

theorem values_del :
    (h.del name).values key = if key = canonicalKey name then [] else h.values key :=
  values_filter _

theorem values_eq_nil : h.values key = [] ↔ ∀ kv ∈ h, kv.1 ≠ key := by
  simp [values]

end Header

structure Fields where
  entries : Header := []
  distinct : (entries.map Prod.fst).Nodup := by exact List.nodup_nil
  canonical : ∀ kv ∈ entries, canonicalKey kv.1 = kv.1 := by simp
  deriving DecidableEq

namespace Fields

variable {f : Fields} {name value : Text}

def set (f : Fields) (name value : Text) : Fields where
  entries := Header.set f.entries name value
  distinct := by
    rw [Header.set, map_append, map_singleton]
    apply nodup_append.mpr
    refine ⟨f.distinct.sublist (filter_sublist.map _), nodup_singleton _, ?_⟩
    intro k there k' new
    rw [mem_singleton] at new
    obtain ⟨kv, inside, rfl⟩ := mem_map.mp there
    rw [new]
    simpa using (mem_filter.mp inside).2
  canonical := by
    intro kv inside
    rcases mem_append.mp inside with old | new
    · exact f.canonical kv (mem_of_mem_filter old)
    · rw [mem_singleton] at new
      rw [new]
      exact canonicalKey_idem name

def del (f : Fields) (name : Text) : Fields where
  entries := Header.del f.entries name
  distinct := f.distinct.sublist (filter_sublist.map _)
  canonical := fun kv inside => f.canonical kv (mem_of_mem_filter inside)

def get (f : Fields) (name : Text) : Text := Header.get f.entries name

open Header

theorem values_of_mem {kv : Text × Text} (inside : kv ∈ f.entries) :
    values f.entries kv.1 = [kv.2] := by
  obtain ⟨entries, distinct, canonical⟩ := f
  simp only at inside ⊢
  clear canonical
  induction entries with
  | nil => cases inside
  | cons head tail ih =>
    rw [map_cons, nodup_cons] at distinct
    rcases mem_cons.mp inside with rfl | inside
    · have others : values tail kv.1 = [] := by
        apply values_eq_nil.mpr
        intro other there same
        exact distinct.1 (same ▸ mem_map_of_mem there)
      change values ([kv] ++ tail) kv.1 = _
      rw [values_append, others, append_nil]
      simp [values]
    · have other : head.1 ≠ kv.1 := by
        intro same
        exact distinct.1 (same ▸ mem_map_of_mem inside)
      change values ([head] ++ tail) kv.1 = _
      rw [values_append, ih distinct.2 inside]
      simp [values, other]

end Fields

/-! ## The response writer -/

def contentLengthKey : Text := utf8 "Content-Length"

def decimal (s : Text) : Option Nat :=
  if s ≠ [] ∧ s.all (fun b => 48 ≤ b ∧ b ≤ 57) then
    some (s.foldl (fun n b => 10 * n + (b.toNat - 48)) 0)
  else none

def parseLength (s : Text) : Option Nat :=
  let number := match s with
    | 43 :: digits => decimal digits
    | 45 :: digits => (decimal digits).filter (· = 0)
    | digits => decimal digits
  number.filter (· ≤ 9223372036854775807)

def Header.contentLength (h : Header) : Option Nat :=
  (h.values contentLengthKey).head?.bind parseLength

def Header.sane (h : Header) : Header :=
  if h.contentLength = none then h.del contentLengthKey else h

def Final (code : Int) : Prop := code = 101 ∨ (200 ≤ code ∧ code ≤ 999)

instance (code : Int) : Decidable (Final code) := inferInstanceAs (Decidable (_ ∨ _))

def bodyAllowed (code : Int) : Bool :=
  ¬ (100 ≤ code ∧ code ≤ 199) ∧ code ≠ 204 ∧ code ≠ 304

structure Writer where
  header : Header := []
  sent : Option (Int × Header) := none
  body : Text := []
  deriving DecidableEq

structure Response where
  status : Int
  header : Header
  body : Text
  deriving DecidableEq

namespace Writer

def writeHeader (w : Writer) (code : Int) : Option Writer :=
  if w.sent.isSome then some w
  else if code < 100 ∨ 999 < code then none
  else if Final code then some { w with sent := some (code, w.header.sane) }
  else some w

def statusLine (w : Writer) : Int × Header := w.sent.getD (200, w.header.sane)

def write (head : Bool) (w : Writer) (data : Text) : Writer :=
  let (code, header) := w.statusLine
  let w := { w with sent := some (code, header) }
  if data = [] ∨ bodyAllowed code = false ∨ head = true ∨
      ∃ n ∈ header.contentLength, n < w.body.length + data.length then w
  else { w with body := w.body ++ data }

def received (head : Bool) (w : Writer) : Option Response :=
  let (code, header) := w.statusLine
  if head = false ∧ bodyAllowed code = true ∧
      ∃ n ∈ header.contentLength, n ≠ w.body.length then none
  else some ⟨code, header, w.body⟩

def send (head : Bool) (code : Int) (data : Text) (w : Writer) : Option Writer :=
  (if 0 < code then w.writeHeader code else some w).map fun w =>
    if data = [] then w else w.write head data

end Writer

def through (head : Bool) (code : Int) (header : Header) (data : Text) : Text :=
  if bodyAllowed code = false ∨ head = true ∨ ∃ n ∈ header.contentLength, n < data.length then []
  else data

def Complete (head : Bool) (code : Int) (header : Header) (body : Text) : Prop :=
  head = false → bodyAllowed code = true → ∀ n ∈ header.contentLength, n = body.length

def statusOf (code : Int) : Int := if code = 0 then 200 else code

section

variable {head : Bool} {code : Int} {data : Text} {w w' : Writer} {h : Header}

theorem Header.contentLength_sane : h.sane.contentLength = h.contentLength := by
  rw [sane]
  split
  · rename_i none_
    have gone : (h.del contentLengthKey).values contentLengthKey = [] := by
      rw [values_del, if_pos (by decide)]
    rw [none_, contentLength, gone]
    rfl
  · rfl

theorem Header.values_sane (h : Header) (key : Text) : h.sane.values key =
      if key = contentLengthKey ∧ h.contentLength = none then [] else h.values key := by
  rw [sane]
  by_cases bad : h.contentLength = none
  · rw [if_pos bad, values_del]
    have same : canonicalKey contentLengthKey = contentLengthKey := by decide
    simp [same, bad]
  · simp [bad]

variable {h' : Header}

theorem through_congr (same : h.contentLength = h'.contentLength) :
    through head code h data = through head code h' data := by
  rw [through, through, same]

theorem complete_congr (same : h.contentLength = h'.contentLength) :
    Complete head code h data ↔ Complete head code h' data := by
  rw [Complete, Complete, same]

variable {r : Response}

theorem received_eq_some : w.received head = some r ↔
    Complete head w.statusLine.1 w.statusLine.2 w.body ∧
      r = ⟨w.statusLine.1, w.statusLine.2, w.body⟩ := by
  rw [Writer.received]
  by_cases short : head = false ∧ bodyAllowed w.statusLine.1 = true ∧
      ∃ n ∈ w.statusLine.2.contentLength, n ≠ w.body.length
  · simp only [if_pos short, reduceCtorEq, false_iff, not_and]
    intro complete
    obtain ⟨get, allowed, n, declared, wrong⟩ := short
    exact absurd (complete get allowed n declared) wrong
  · have complete : Complete head w.statusLine.1 w.statusLine.2 w.body := by
      intro get allowed n declared
      by_contra wrong
      exact short ⟨get, allowed, n, declared, wrong⟩
    simp only [if_neg short, Option.some.injEq, complete, true_and]
    exact eq_comm

theorem write_once (head : Bool) (data : Text) (empty : w.body = []) :
    (if data = [] then w else w.write head data).statusLine = w.statusLine ∧
      (if data = [] then w else w.write head data).body =
        through head w.statusLine.1 w.statusLine.2 data := by
  by_cases none_ : data = []
  · subst none_
    refine ⟨rfl, ?_⟩
    simp [through, empty]
  simp only [Writer.write, none_, empty, length_nil, Nat.zero_add, false_or,
    nil_append, if_false, through]
  by_cases lost : bodyAllowed w.statusLine.1 = false ∨ head = true ∨
      ∃ n ∈ w.statusLine.2.contentLength, n < data.length
  · simp only [if_pos lost]
    exact ⟨rfl, trivial⟩
  · simp only [if_neg lost]
    exact ⟨rfl, trivial⟩

theorem writeHeader_of_final (fresh : w.sent = none) (final : Final code) :
    w.writeHeader code = some { w with sent := some (code, w.header.sane) } := by
  have valid : ¬ (code < 100 ∨ 999 < code) := by
    rcases final with rfl | inside <;> omega
  rw [Writer.writeHeader, fresh, if_neg (by simp), if_neg valid, if_pos final]

def sentStatus (code : Int) : Option Int :=
  if code ≤ 0 then some 200
  else if code < 100 ∨ 999 < code then none
  else if Final code then some code
  else some 200

theorem sentStatus_eq_statusOf :
    sentStatus code = some (statusOf code) ↔ Final (statusOf code) := by
  rw [sentStatus, statusOf]
  by_cases zero : code = 0
  · simp [zero, Final]
  rw [if_neg zero]
  by_cases final : Final code
  · have positive : ¬ code ≤ 0 ∧ ¬ (code < 100 ∨ 999 < code) := by
      rcases final with here | here <;> omega
    rw [if_neg positive.1, if_neg positive.2, if_pos final]
    simp [final]
  · have other : (200 : Int) ≠ code := by
      intro same
      exact final (.inr (by omega))
    simp only [final, if_false, iff_false]
    split
    · simp [other]
    · split <;> simp [other]

theorem received_send (head : Bool) (code : Int) (data : Text) (fresh : w.sent = none)
    (empty : w.body = []) : (∃ w', w.send head code data = some w' ∧ w'.received head = some r) ↔
      ∃ status, sentStatus code = some status ∧
        Complete head status w.header (through head status w.header data) ∧
        r = ⟨status, w.header.sane, through head status w.header data⟩ := by
  -- behind the call of `WriteHeader`, if there is one
  have rest : ∀ w₁ : Writer, w₁.body = [] → ∀ status, w₁.statusLine = (status, w.header.sane) →
      ((∃ w', (some w₁).map (fun w => if data = [] then w else w.write head data) = some w' ∧
        w'.received head = some r) ↔
        Complete head status w.header (through head status w.header data) ∧
          r = ⟨status, w.header.sane, through head status w.header data⟩) := by
    intro w₁ empty status same
    obtain ⟨line, body⟩ := write_once head data empty
    simp only [Option.map_some, Option.some.injEq, exists_eq_left', received_eq_some]
    rw [line, body, same]
    simp [through, Complete, Header.contentLength_sane]
  have unsent : w.statusLine = (200, w.header.sane) := by
    rw [Writer.statusLine, fresh]
    rfl
  rw [Writer.send, sentStatus]
  by_cases positive : 0 < code
  · rw [if_pos positive, if_neg (Int.not_le.mpr positive), Writer.writeHeader, fresh,
      if_neg (by simp)]
    by_cases panics : code < 100 ∨ 999 < code
    · simp [panics]
    rw [if_neg panics, if_neg panics]
    by_cases final : Final code
    · simp only [if_pos final, Option.some.injEq, exists_eq_left']
      exact rest { w with sent := some (code, w.header.sane) } empty code rfl
    · simp only [if_neg final, Option.some.injEq, exists_eq_left']
      exact rest w empty 200 unsent
  · rw [if_neg positive, if_pos (Int.not_lt.mp positive)]
    simp only [Option.some.injEq, exists_eq_left']
    exact rest w empty 200 unsent

theorem received_statusOf (head : Bool) (code : Int) (data : Text) (fresh : w.sent = none)
    (empty : w.body = []) (Q : Header → Text → Prop) :
    (∃ w', w.send head code data = some w' ∧ ∃ r, w'.received head = some r ∧
      r.status = statusOf code ∧ Q r.header r.body) ↔ Final (statusOf code) ∧
        Complete head (statusOf code) w.header (through head (statusOf code) w.header data) ∧
        Q w.header.sane (through head (statusOf code) w.header data) := by
  constructor
  · rintro ⟨w', sends, r, received, same, holds⟩
    obtain ⟨status, sent, complete, rfl⟩ :=
      (received_send head code data fresh empty).mp ⟨w', sends, received⟩
    subst same
    exact ⟨sentStatus_eq_statusOf.mp sent, complete, holds⟩
  · rintro ⟨final, complete, holds⟩
    obtain ⟨w', sends, received⟩ := (received_send head code data fresh empty).mpr
      ⟨_, sentStatus_eq_statusOf.mpr final, complete, rfl⟩
    exact ⟨w', sends, _, received, rfl, holds⟩

end

end Soil.Web.Http
