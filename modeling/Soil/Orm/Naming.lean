import Soil.Orm.Struct

/-!
# Names, tags and managed fields

What the registry reads off a struct type: column names made of field names, the entries of
an `orm` tag, and the four fields that the statements fill or check by themselves.
-/

namespace Soil.Orm.Struct

open List

/-! ## Names -/

structure Unicode.Lawful (u : Unicode) : Prop where
  underscore : u.isUpper '_' = false ∧ u.toLower '_' = '_'
  fixed : ∀ c, u.toLower (u.toLower c) = u.toLower c
  letter : ∀ c, u.isUpper c = true → u.toLower c ≠ '_'

section

variable (u : Unicode)

/-- Whether an upper-case character between `prev` and `rest` begins a word. -/
def begins (prev : Char) (rest : List Char) : Bool := !u.isUpper prev || rest.head?.any u.isLower

/-- The same, read off the bytes before and after the first byte of `r`. -/
def beginsBytes (prev r : Char) (rest : List Char) : Bool :=
  (String.utf8EncodeChar prev).getLast?.any fun before => !u.isUpper (rune before) ||
    ((r :: rest).flatMap String.utf8EncodeChar)[1]?.any fun after => u.isLower (rune after)

def snakeFrom : Option Char → List Char → List Char
  | _, [] => []
  | before, r :: rest =>
    (if before.any fun prev => u.isUpper r && begins u prev rest then ['_'] else []) ++
      u.toLower r :: snakeFrom (some r) rest

structure Converts (str : String) : Prop where
  exact_ : camel2Case u str = String.ofList (snakeFrom u none str.toList)
  lower : ∀ c ∈ (camel2Case u str).toList, u.isUpper c = false
  again : camel2Case u (camel2Case u str) = camel2Case u str

def Agree : List Char → Prop
  | prev :: r :: rest =>
    (u.isUpper r = true → beginsBytes u prev r rest = begins u prev rest) ∧ Agree (r :: rest)
  | _ => True

variable {u}

theorem marked_eq_iff (lawful : u.Lawful) {r : Char} {m m' : Bool} {xs ys : List Char}
    (upper : m = true ∨ m' = true → u.isUpper r = true) :
    (if m then ['_'] else []) ++ u.toLower r :: xs =
      (if m' then ['_'] else []) ++ u.toLower r :: ys ↔ m = m' ∧ xs = ys := by
  cases m with
  | false =>
    cases m' with
    | false => simp
    | true =>
      have letter := lawful.letter r (upper (.inr rfl))
      simp [letter]
  | true =>
    have letter := lawful.letter r (upper (.inl rfl))
    cases m' <;> simp [letter.symm]

theorem camel2CaseFrom_eq_iff (lawful : u.Lawful) (prev : Char) (cs : List Char) :
    camel2CaseFrom u (String.utf8EncodeChar prev).getLast? cs = snakeFrom u (some prev) cs ↔
      Agree u (prev :: cs) := by
  induction cs generalizing prev with
  | nil => simp [camel2CaseFrom, snakeFrom, Agree]
  | cons r rest ih =>
    rw [camel2CaseFrom, snakeFrom, Agree, ← ih r]
    rw [marked_eq_iff lawful]
    · refine and_congr_left fun _ => ?_
      cases u.isUpper r <;> simp [beginsBytes]
    · simp only [Option.any_some, Option.any_eq_true, Bool.and_eq_true]
      rintro (⟨b, -, upper, -⟩ | ⟨upper, -⟩) <;> exact upper

theorem mem_camel2CaseFrom {before : Option UInt8} {cs : List Char} {c : Char}
    (inside : c ∈ camel2CaseFrom u before cs) : c = '_' ∨ ∃ r ∈ cs, c = u.toLower r := by
  induction cs generalizing before with
  | nil => simp [camel2CaseFrom] at inside
  | cons r rest ih =>
    rw [camel2CaseFrom, mem_append, mem_cons] at inside
    rcases inside with mark | rfl | later
    · split at mark
      · exact .inl (mem_singleton.mp mark)
      · cases mark
    · exact .inr ⟨r, by simp, rfl⟩
    · rcases ih later with mark | ⟨s, there, same⟩
      · exact .inl mark
      · exact .inr ⟨s, by simp [there], same⟩

theorem toLower_mem {before : Option UInt8} {cs : List Char} {r : Char} (inside : r ∈ cs) :
    u.toLower r ∈ camel2CaseFrom u before cs := by
  induction cs generalizing before with
  | nil => cases inside
  | cons s rest ih =>
    rw [camel2CaseFrom, mem_append, mem_cons]
    rcases mem_cons.mp inside with rfl | later
    · exact .inr (.inl rfl)
    · exact .inr (.inr (ih later))

theorem camel2CaseFrom_lower {before : Option UInt8} {cs : List Char}
    (lower : ∀ c ∈ cs, u.isUpper c = false) (fixed : ∀ c ∈ cs, u.toLower c = c) :
    camel2CaseFrom u before cs = cs := by
  induction cs generalizing before with
  | nil => rfl
  | cons r rest ih =>
    rw [forall_mem_cons] at lower fixed
    rw [camel2CaseFrom, ih lower.2 fixed.2, lower.1, fixed.1]
    simp

/-- `Camel2Case` converts a name iff the bytes around each upper-case character are of the kind
of the characters around it, and lower-case forms are not upper case. -/
theorem camel2Case_converts_iff (lawful : u.Lawful) (str : String) :
    Converts u str ↔
      Agree u str.toList ∧ ∀ c ∈ str.toList, u.isUpper (u.toLower c) = false := by
  have exact_ : camel2Case u str = String.ofList (snakeFrom u none str.toList) ↔
      Agree u str.toList := by
    rw [camel2Case, String.ofList_inj]
    cases str.toList with
    | nil => simp [camel2CaseFrom, snakeFrom, Agree]
    | cons r rest => simpa [camel2CaseFrom, snakeFrom] using camel2CaseFrom_eq_iff lawful r rest
  have output : (camel2Case u str).toList = camel2CaseFrom u none str.toList :=
    String.toList_ofList
  constructor
  · intro converts
    refine ⟨exact_.mp converts.exact_, fun c inside => ?_⟩
    exact converts.lower _ (output ▸ toLower_mem inside)
  rintro ⟨agree, lowers⟩
  have lower : ∀ c ∈ camel2CaseFrom u none str.toList, u.isUpper c = false := by
    intro c inside
    rcases mem_camel2CaseFrom inside with rfl | ⟨r, there, rfl⟩
    · exact lawful.underscore.1
    · exact lowers r there
  refine ⟨exact_.mpr agree, output ▸ lower, ?_⟩
  have fixed : ∀ c ∈ camel2CaseFrom u none str.toList, u.toLower c = c := by
    intro c inside
    rcases mem_camel2CaseFrom inside with rfl | ⟨r, -, rfl⟩
    · exact lawful.underscore.2
    · exact lawful.fixed r
  rw [camel2Case, output, camel2CaseFrom_lower lower fixed]
  rfl

end

def latin : Unicode where
  isUpper c := c ∈ ['N', 'Ä', 'Ö', '𝐀']
  isLower c := c ∈ ['m', 'y', 'a', 'e']
  toLower c := if c = 'N' then 'n' else if c = 'Ä' then 'ä' else if c = 'Ö' then 'ö' else c

theorem latin_lawful : latin.Lawful := by
  refine ⟨by decide, fun c => ?_, fun c upper => ?_⟩
  · simp only [latin]
    split_ifs <;> simp_all
  · have named : c = 'N' ∨ c = 'Ä' ∨ c = 'Ö' ∨ c = '𝐀' := by simpa [latin] using upper
    rcases named with rfl | rfl | rfl | rfl <;> decide

theorem camel2Case_converts_iff_name : camel2Case latin "myName" = "my_name" ∧
    camel2Case latin "my_name" = "my_name" := by
  have converts : Converts latin "myName" :=
    (camel2Case_converts_iff latin_lawful "myName").mpr
      ⟨by simp [Agree]; decide +kernel, by simp [latin]⟩
  have first : camel2Case latin "myName" = "my_name" := converts.exact_.trans (by decide +kernel)
  exact ⟨first, by rw [← first]; exact converts.again⟩

/-- The byte before the second letter is not an upper-case character, and the third letter has
no lower-case form. -/
theorem camel2Case_splits : camel2Case latin "ÄÖ" = "ä_ö" ∧
    String.ofList (snakeFrom latin none "ÄÖ".toList) = "äö" ∧
    camel2Case latin "a𝐀" = "a_𝐀" ∧ camel2Case latin "a_𝐀" = "a__𝐀" := by
  decide

/-! ## The grammar of tags -/

/-- The key and the value of one segment. -/
structure Pair where
  key : List Char
  value : List Char

namespace Pair

def text (pair : Pair) : List Char := pair.key ++ '(' :: (pair.value ++ [')'])

def entry (pair : Pair) : String × String := (String.ofList pair.key, String.ofList pair.value)

def render (pairs : List Pair) : String := String.ofList ([';'].intercalate (pairs.map text))

def Free (c : Char) (pair : Pair) : Prop := c ∉ pair.key ∧ c ∉ pair.value

variable {pair : Pair} {pairs : List Pair} {tags tags' : Tags}

theorem parseSegment_text (free : pair.Free '(') : parseSegment pair.text = .ok pair.entry := by
  have value : '(' ∉ pair.value ++ [')'] := by simp [free.2]
  have ends : pair.text.getLast? = some ')' := by
    rw [text, ← cons_append, ← append_assoc, getLast?_concat]
  rw [parseSegment, if_neg (not_not.mpr ends), text, splitOn_append_cons_self_of_not_mem free.1,
    splitOn_eq_singleton value]
  simp [entry]

theorem text_of_parseSegment {seg : List Char} {parsed : String × String}
    (ok : parseSegment seg = .ok parsed) : ∃ pair : Pair, seg = pair.text ∧ pair.Free '(' := by
  rw [parseSegment] at ok
  split at ok
  · cases ok
  next ends =>
    split at ok
    next key value cut =>
      have whole : ['('].intercalate (seg.splitOn '(') = seg := intercalate_splitOn '('
      replace whole : key ++ '(' :: value = seg := by simpa [cut] using whole
      have free : '(' ∉ value := notMem_of_mem_splitOn (s := seg) (by simp [cut])
      rcases eq_nil_or_concat' value with rfl | ⟨front, last, rfl⟩
      · simp [← whole] at ends
      · obtain rfl : last = ')' := by
          rw [← whole, ← cons_append, ← append_assoc, getLast?_concat] at ends
          simpa using ends
        exact ⟨⟨key, front⟩, whole.symm, notMem_of_mem_splitOn (s := seg) (by simp [cut]),
          fun inside => free (by simp [inside])⟩
    · cases ok

def addSegment (res : Tags) (seg : List Char) : Except Err Tags := do
  let pair ← parseSegment seg
  .ok (res.insert pair.1 pair.2)

theorem text_of_addSegments {segs : List (List Char)}
    (ok : segs.foldlM addSegment tags = .ok tags') :
    ∃ pairs : List Pair, segs = pairs.map text ∧ ∀ pair ∈ pairs, pair.Free '(' := by
  induction segs generalizing tags with
  | nil => exact ⟨[], rfl, by simp⟩
  | cons seg segs ih =>
    rw [foldlM_cons] at ok
    obtain ⟨between, first, rest⟩ := bind_eq_ok.mp ok
    obtain ⟨parsed, first, -⟩ := bind_eq_ok.mp first
    obtain ⟨pair, rfl, free⟩ := text_of_parseSegment first
    obtain ⟨pairs, rfl, later⟩ := ih rest
    exact ⟨pair :: pairs, rfl, forall_mem_cons.mpr ⟨free, later⟩⟩

theorem addSegments_text (tags : Tags) (free : ∀ pair ∈ pairs, pair.Free '(') :
    ∃ tags', (pairs.map text).foldlM addSegment tags = .ok tags' ∧
      ∀ key, tags'.lookup key = ((pairs.map entry).reverse.lookup key).or (tags.lookup key) := by
  induction pairs generalizing tags with
  | nil => exact ⟨tags, rfl, by simp⟩
  | cons pair pairs ih =>
    rw [forall_mem_cons] at free
    obtain ⟨tags', rest, last⟩ := ih (tags.insert pair.entry.1 pair.entry.2) free.2
    refine ⟨tags', ?_, fun key => ?_⟩
    · rw [map_cons, foldlM_cons, addSegment, parseSegment_text free.1]
      exact rest
    rw [last, map_cons, reverse_cons, lookup_append, Option.or_assoc]
    by_cases same : key = pair.entry.1
    · rw [same, AList.lookup_insert]
      simp [entry]
    · have other : (key == String.ofList pair.key) = false := by simpa [entry] using same
      rw [AList.lookup_insert_ne same]
      simp [List.lookup_cons, entry, other]

/-- `parseTag` accepts the renderings of non-empty lists of pairs, and the last pair of a key
gives its value. -/
theorem parseTag_grammar :
    (∀ val, (∃ tags, parseTag (some val) = .ok tags) ↔
      ∃ pairs : List Pair, pairs ≠ [] ∧ (∀ pair ∈ pairs, pair.Free '(' ∧ pair.Free ';') ∧
        val = render pairs) ∧
    ∀ pairs : List Pair, pairs ≠ [] → (∀ pair ∈ pairs, pair.Free '(' ∧ pair.Free ';') →
      ∃ tags, parseTag (some (render pairs)) = .ok tags ∧
        ∀ key, tags.lookup key = (pairs.map entry).reverse.lookup key := by
  have parses {pairs : List Pair} (some_ : pairs ≠ [])
      (free : ∀ pair ∈ pairs, pair.Free '(' ∧ pair.Free ';') :
      ∃ tags, parseTag (some (render pairs)) = .ok tags ∧
        ∀ key, tags.lookup key = (pairs.map entry).reverse.lookup key := by
    have cut : (render pairs).toList.splitOn ';' = pairs.map text := by
      rw [render, String.toList_ofList]
      refine splitOn_intercalate ';' (fun seg inside => ?_) (by simpa using some_)
      obtain ⟨pair, there, rfl⟩ := mem_map.mp inside
      simp [text, (free pair there).2.1, (free pair there).2.2]
    obtain ⟨tags, parsed, last⟩ :=
      addSegments_text ∅ fun pair inside => (free pair inside).1
    refine ⟨tags, ?_, fun key => by simpa using last key⟩
    rw [← parsed, ← cut]
    rfl
  refine ⟨fun val => ⟨fun ⟨tags, ok⟩ => ?_, ?_⟩, fun pairs => parses⟩
  · obtain ⟨pairs, cut, free⟩ := text_of_addSegments ok
    have whole : [';'].intercalate (val.toList.splitOn ';') = val.toList := intercalate_splitOn ';'
    rw [cut] at whole
    refine ⟨pairs, ?_, fun pair inside => ⟨free pair inside, ?_⟩, ?_⟩
    · rintro rfl
      exact splitOn_ne_nil _ _ cut
    · have segment : ';' ∉ pair.text :=
        notMem_of_mem_splitOn (cut ▸ mem_map_of_mem inside)
      simp only [text, mem_append, mem_cons, not_or] at segment
      exact ⟨segment.1, segment.2.2.1⟩
    · rw [render, whole, String.ofList_toList]
  · rintro ⟨pairs, some_, free, rfl⟩
    obtain ⟨tags, parsed, -⟩ := parses some_ free
    exact ⟨tags, parsed⟩

end Pair
/-! ## Managed fields -/

inductive Role where
  | createdAt
  | updatedAt
  | deletedAt
  | version

/-- Only the blank name can be given to two fields of a struct. -/
def StructType.Named {T : Type} (typ : StructType T) : Prop :=
  ∀ (i j : Nat) (f g : StructField T), typ.fields[i]? = some f → typ.fields[j]? = some g →
    f.name = g.name → f.name ≠ "_" → i = j

namespace Role

variable {T : Type} (integer : T → Bool) (role : Role)

def tag : Role → String
  | .createdAt => "created_at"
  | .updatedAt => "updated_at"
  | .deletedAt => "deleted_at"
  | .version => "version"

def name : Role → String
  | .createdAt => "CreatedAt"
  | .updatedAt => "UpdatedAt"
  | .deletedAt => "DeletedAt"
  | .version => "Version"

def field (m : Model T) : Role → Option Nat
  | .createdAt => m.createdAtField
  | .updatedAt => m.updatedAtField
  | .deletedAt => m.deletedAtField
  | .version => m.versionField

def fits (f : StructField T) : Role → Bool
  | .version => integer f.typ
  | _ => true

def tagged (f : StructField T) : Bool :=
  match parseTag f.tag with
  | .ok tags => (tags.lookup role.tag).isSome
  | .error _ => false

def takes (f : StructField T) : Bool :=
  (role.tagged f || f.name == role.name) && role.fits integer f

variable {integer role} {u : Unicode} {m m' : Model T} {f : StructField T}
  {fs done : List (StructField T)}

theorem field_addField {tags : Tags} (parsed : parseTag f.tag = .ok tags) :
    role.field (m.addField u integer f tags) =
      if role.takes integer f then some m.fields.length else role.field m := by
  cases role <;> simp [field, Model.addField, takes, tagged, parsed, tag, name, fits]

def Last (p : StructField T → Bool) (fs : List (StructField T)) (i : Nat) : Prop :=
  (∃ f, fs[i]? = some f ∧ p f = true) ∧ ∀ j f, i < j → fs[j]? = some f → p f = false

theorem last_concat {p : StructField T → Bool} {i : Nat} :
    Last p (done ++ [f]) i ↔ if p f then i = done.length else Last p done i := by
  have at_ (j : Nat) (g : StructField T) : (done ++ [f])[j]? = some g ↔
      done[j]? = some g ∨ j = done.length ∧ f = g := by
    grind
  simp only [Last, at_]
  split <;> grind

theorem field_addFields (length : m.fields.length = done.length)
    (last : ∀ i, role.field m = some i ↔ Last (role.takes integer) done i)
    (parsed : m.addFields u integer fs = .ok m') (i : Nat) :
    role.field m' = some i ↔ Last (role.takes integer) (done ++ fs) i := by
  induction fs generalizing m done with
  | nil =>
    cases parsed
    rw [append_nil]
    exact last i
  | cons f fs ih =>
    obtain ⟨tags, tag, rest⟩ := bind_eq_ok.mp parsed
    rw [append_cons]
    refine ih ?_ (fun i => ?_) rest
    · simp [Model.addField, length]
    · rw [field_addField tag, last_concat, length]
      split
      · rw [Option.some.injEq, eq_comm]
      · exact last i

structure Tagged (integer : T → Bool) (role : Role) (fs : List (StructField T)) (i : Nat) :
    Prop where
  here : ∃ f, fs[i]? = some f ∧ role.tagged f = true ∧ role.fits integer f = true
  alone : ∀ j f, fs[j]? = some f → role.tagged f = true → role.fits integer f = true → j = i

structure Selects (integer : T → Bool) (role : Role) (fs : List (StructField T))
    (m : Model T) : Prop where
  tagged : ∀ i, Tagged integer role fs i → role.field m = some i
  named : (∀ f ∈ fs, role.tagged f = false) → ∀ i, role.field m = some i ↔
    ∃ f, fs[i]? = some f ∧ f.name = role.name ∧ role.fits integer f = true

/-- The field with the tag of a role is selected iff no field after it has the default name. -/
theorem parseModel_selects_iff (role : Role) {typ : StructType T} {tableName : Option String}
    (named : typ.Named)
    (parsed : parseModel u integer (.pointer typ tableName) = .ok m) :
    Selects integer role typ.fields m ↔
      ∀ i, Tagged integer role typ.fields i → ∀ j f, i < j → typ.fields[j]? = some f →
        f.name = role.name → role.fits integer f = false := by
  have last (i : Nat) : role.field m = some i ↔ Last (role.takes integer) typ.fields i := by
    obtain ⟨m₁, fields, rest⟩ := bind_eq_ok.mp parsed
    cases rest
    have empty (i : Nat) : role.field ({} : Model T) = some i ↔
        Last (role.takes integer) [] i := by
      cases role <;> simp [field, Last]
    cases role <;> exact field_addFields rfl empty fields i
  constructor
  · intro selects i here j f later at_ name
    have after := ((last i).mp (selects.tagged i here)).2 j f later at_
    simpa [takes, name] using after
  intro clear
  refine ⟨fun i here => (last i).mpr ⟨?_, fun j g later at_ => ?_⟩, fun untagged i => ?_⟩
  · obtain ⟨f, at_, tag, fit⟩ := here.here
    exact ⟨f, at_, by simp [takes, tag, fit]⟩
  · by_contra takes_
    simp only [takes, Bool.not_eq_false, Bool.and_eq_true, Bool.or_eq_true, beq_iff_eq] at takes_
    obtain ⟨tag | name, fit⟩ := takes_
    · have := here.alone j g at_ tag fit
      omega
    · rw [clear i here j g later at_ name] at fit
      cases fit
  · have takes_eq {g : StructField T} (inside : g ∈ typ.fields) :
        role.takes integer g = true ↔ g.name = role.name ∧ role.fits integer g = true := by
      simp [takes, untagged g inside]
    rw [last]
    constructor
    · rintro ⟨⟨f, at_, takes_⟩, -⟩
      exact ⟨f, at_, (takes_eq (mem_of_getElem? at_)).mp takes_⟩
    rintro ⟨f, at_, name, fit⟩
    have here := (takes_eq (mem_of_getElem? at_)).mpr ⟨name, fit⟩
    refine ⟨⟨f, at_, here⟩, fun j g later there => ?_⟩
    by_contra takes_
    have other := ((takes_eq (mem_of_getElem? there)).mp (by simpa using takes_)).1
    have same := named i j f g at_ there (name.trans other.symm)
      (by rw [name]; cases role <;> decide)
    omega

def stamped : StructField Unit := ⟨"Made", (), 0, some "created_at()"⟩

theorem parseModel_selects_iff_alone : ∃ m : Model Unit,
    parseModel latin (fun _ => true) (.pointer ⟨"User", [stamped]⟩) = .ok m ∧
      m.createdAtField = some 0 := by
  obtain ⟨m, parsed⟩ : ∃ m : Model Unit,
      parseModel latin (fun _ => true) (.pointer ⟨"User", [stamped]⟩) = .ok m := ⟨_, rfl⟩
  have first {i : Nat} {f : StructField Unit} (at_ : [stamped][i]? = some f) : i = 0 := by
    simpa using (List.getElem?_eq_some_iff.mp at_).1
  have selects := (parseModel_selects_iff createdAt
    (fun i j f g at_ there _ _ => (first at_).trans (first there).symm) parsed).mpr
      fun i _ j f later at_ => absurd (first at_) (by omega)
  exact ⟨m, parsed, selects.tagged 0 ⟨⟨stamped, rfl, rfl, rfl⟩, fun j f at_ _ _ => first at_⟩⟩

/-- The field after the tagged one has the default name. -/
theorem parseModel_ignores_tag :
    (parseModel latin (fun _ => true)
      (.pointer ⟨"User", [stamped, ⟨"CreatedAt", (), 8, none⟩]⟩)).toOption.map
        Model.createdAtField = some (some 1) ∧ createdAt.tagged stamped = true := by
  decide +kernel

end Role

end Soil.Orm.Struct
