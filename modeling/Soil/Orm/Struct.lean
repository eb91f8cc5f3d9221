import Soil.Basic
import Soil.System

/-!
# Struct types and their models

The registry of `internal/model`: a model is read off a struct type with its `orm` tags, and
options then rename its table and columns.  The maps of a model share their `*Field`s with
its list, so here they hold positions in that list.
-/

namespace Soil.Orm.Struct

open List AList Option

inductive Err where
  | pointerOnly
  | invalidTagContent (pair : String)
  | unknownField (field : String)
  | unknownColumn (column : String)
  | tooManyReturnedColumns
  | nilAddr (field : String)
  | rows (cause : String)
  | scan (index : Nat) (column cause : String)
  deriving DecidableEq, Repr

def Err.message : Err → String
  | .pointerOnly => "orm: 只支持一级指针作为输入，例如*User"
  | .invalidTagContent pair => "orm: 非法标签值 " ++ pair
  | .unknownField field => "orm: 未知字段 " ++ field
  | .unknownColumn column => "orm: 未知列 " ++ column
  | .tooManyReturnedColumns => "orm: 查询返回的列数比接收的列数多"
  | .nilAddr field => "orm: 获取字段 " ++ field ++ " 的值失败，底层指针为 nil"
  | .rows cause => cause
  | .scan index column cause =>
    "sql: Scan error on column index " ++ toString index ++ ", name \"" ++ column ++ "\": " ++ cause

/-! ## Names and tags -/

structure Unicode where
  isUpper : Char → Bool
  isLower : Char → Bool
  toLower : Char → Char

def rune (b : UInt8) : Char := Char.ofNat b.toNat

def camel2CaseFrom (u : Unicode) : Option UInt8 → List Char → List Char
  | _, [] => []
  | before, r :: rest =>
    -- `str[i+1]` is the second byte of `r` itself when `r` has several
    let next := ((r :: rest).flatMap String.utf8EncodeChar)[1]?
    let marked := before.any fun prev => u.isUpper r &&
      (!u.isUpper (rune prev) || next.any fun b => u.isLower (rune b))
    (if marked then ['_'] else []) ++
      u.toLower r :: camel2CaseFrom u (String.utf8EncodeChar r).getLast? rest

def camel2Case (u : Unicode) (str : String) : String :=
  String.ofList (camel2CaseFrom u none str.toList)

abbrev Tags := AList fun _ : String => String

def parseSegment (seg : List Char) : Except Err (String × String) :=
  if seg.getLast? ≠ some ')' then .error (.invalidTagContent (String.ofList seg))
  else
    match seg.splitOn '(' with
    | [key, value] => .ok (String.ofList key, String.ofList value.dropLast)
    | _ => .error (.invalidTagContent (String.ofList seg))

def parseTag : Option String → Except Err Tags
  | none => .ok ∅
  | some val => (val.toList.splitOn ';').foldlM (fun res seg => do
      let pair ← parseSegment seg
      .ok (res.insert pair.1 pair.2)) ∅

/-! ## Models -/

structure StructField (T : Type) where
  name : String
  typ : T
  offset : Nat
  tag : Option String := none

structure StructType (T : Type) where
  name : String
  fields : List (StructField T)

inductive Entity (T : Type) where
  | pointer (typ : StructType T) (tableName : Option String := none)
  | other

structure Field (T : Type) where
  colName : String
  goName : String
  typ : T
  offset : Nat

abbrev Positions := AList fun _ : String => Nat

structure Model (T : Type) where
  tableName : String := ""
  fieldMap : Positions := ∅
  columnMap : Positions := ∅
  fields : List (Field T) := []
  createdAtField : Option Nat := none
  updatedAtField : Option Nat := none
  deletedAtField : Option Nat := none
  versionField : Option Nat := none

def Model.field {T : Type} (m : Model T) (name : String) : Option (Field T) :=
  (m.fieldMap.lookup name).bind fun i => m.fields[i]?

def Model.column {T : Type} (m : Model T) (name : String) : Option (Field T) :=
  (m.columnMap.lookup name).bind fun i => m.fields[i]?

section

variable {T : Type} (u : Unicode) (isIntegerKind : T → Bool)

def Model.addField (m : Model T) (f : StructField T) (tags : Tags) : Model T :=
  let i := m.fields.length
  let column := (tags.lookup "column").getD ""
  let colName := if column = "" then camel2Case u f.name else column
  let marks (key name : String) : Bool := (tags.lookup key).isSome || f.name == name
  { m with
    fields := m.fields ++ [⟨colName, f.name, f.typ, f.offset⟩]
    fieldMap := m.fieldMap.insert f.name i
    columnMap := m.columnMap.insert colName i
    createdAtField := if marks "created_at" "CreatedAt" then some i else m.createdAtField
    updatedAtField := if marks "updated_at" "UpdatedAt" then some i else m.updatedAtField
    deletedAtField := if marks "deleted_at" "DeletedAt" then some i else m.deletedAtField
    versionField := if marks "version" "Version" && isIntegerKind f.typ then some i
      else m.versionField }

def Model.addFields (m : Model T) : List (StructField T) → Except Err (Model T)
  | [] => .ok m
  | f :: fs => do
      let tags ← parseTag f.tag
      (m.addField u isIntegerKind f tags).addFields fs

def parseModel : Entity T → Except Err (Model T)
  | .other => .error .pointerOnly
  | .pointer typ tableName => do
      let m ← Model.addFields u isIntegerKind {} typ.fields
      let tableName := tableName.getD ""
      .ok { m with tableName := if tableName = "" then camel2Case u typ.name else tableName }

inductive ModelOpt where
  | withTableName (tableName : String)
  | withColumName (field colName : String)

def Model.rename (m : Model T) (i : Nat) (colName : String) : Model T :=
  { m with fields := m.fields.modify i fun f => { f with colName } }

def ModelOpt.apply (m : Model T) : ModelOpt → Except Err (Model T)
  | .withTableName tableName => .ok { m with tableName }
  | .withColumName field colName =>
    match m.fieldMap.lookup field, m.field field with
    | some i, some fd =>
      match m.columnMap.lookup fd.colName with
      | none => .error (.unknownColumn field)
      -- the field under the old name of the column need not be `fd`
      | some j => .ok (Model.rename { m with
          columnMap := (m.columnMap.erase fd.colName).insert colName j } j colName
        |>.rename i colName)
    | _, _ => .error (.unknownField field)

def registry (val : Entity T) (opts : List ModelOpt) : Except Err (Model T) := do
  let m ← parseModel u isIntegerKind val
  opts.foldlM ModelOpt.apply m

end

/-! ## Models of struct types -/

structure Exported (T : Type) extends StructType T where
  distinct : (fields.map (·.name)).Nodup

def StructType.fieldByName {T : Type} (typ : StructType T) (name : String) :
    Option (StructField T) :=
  typ.fields.find? (·.name == name)

section

variable {T : Type} {u : Unicode} {isIntegerKind : T → Bool} {m m' : Model T}
  {f : StructField T} {fs gs : List (StructField T)}

def Field.shape (f : Field T) : String × T × Nat := (f.goName, f.typ, f.offset)

def StructField.shape (f : StructField T) : String × T × Nat := (f.name, f.typ, f.offset)

structure Model.Describes (m : Model T) (fs : List (StructField T)) : Prop where
  fields : m.fields.map Field.shape = fs.map StructField.shape
  fieldMap : ∀ name i, m.fieldMap.lookup name = some i ↔ ∃ f, fs[i]? = some f ∧ f.name = name
  columnMap : ∀ column i, m.columnMap.lookup column = some i → i < fs.length

theorem Model.Describes.length (describes : m.Describes fs) : m.fields.length = fs.length := by
  simpa using congrArg List.length describes.fields

theorem Model.Describes.getElem? (describes : m.Describes fs) (i : Nat) :
    m.fields[i]?.map Field.shape = fs[i]?.map StructField.shape := by
  rw [← List.getElem?_map, describes.fields, List.getElem?_map]

theorem lookup_insert_cases {map : Positions} {key key' : String} {i j : Nat}
    (found : (map.insert key i).lookup key' = some j) : j = i ∨ map.lookup key' = some j := by
  by_cases same : key' = key
  · subst same
    rw [lookup_insert] at found
    exact .inl (some.inj found).symm
  · rw [lookup_insert_ne same] at found
    exact .inr found

theorem Model.Describes.addField (describes : m.Describes fs) (tags : Tags)
    (new : ∀ g ∈ fs, g.name ≠ f.name) :
    (m.addField u isIntegerKind f tags).Describes (fs ++ [f]) := by
  have length := describes.length
  refine ⟨?_, ?_, ?_⟩
  · simp only [Model.addField, map_append, describes.fields]
    rfl
  · intro name i
    by_cases same : name = f.name
    · subst same
      simp only [Model.addField, lookup_insert, some.injEq, length]
      constructor
      · intro here
        subst here
        exact ⟨f, by simp, rfl⟩
      intro ⟨g, at_, named⟩
      by_contra other
      have small := (List.getElem?_eq_some_iff.mp at_).1
      rw [length_append, length_singleton] at small
      rw [List.getElem?_append_left (by omega)] at at_
      exact new g (mem_of_getElem? at_) named
    · simp only [Model.addField, lookup_insert_ne same]
      rw [describes.fieldMap]
      constructor
      · intro ⟨g, at_, named⟩
        refine ⟨g, ?_, named⟩
        rw [List.getElem?_append_left (List.getElem?_eq_some_iff.mp at_).1]
        exact at_
      · intro ⟨g, at_, named⟩
        rcases getElem?_append_one at_ with old | here
        · exact ⟨g, old, named⟩
        · rw [here] at named
          exact absurd named.symm same
  · intro column i found
    rw [length_append, length_singleton]
    rcases lookup_insert_cases found with here | old
    · omega
    · have := describes.columnMap column i old
      omega

theorem Model.Describes.addFields (describes : m.Describes fs)
    (distinct : ((fs ++ gs).map (·.name)).Nodup)
    (parsed : m.addFields u isIntegerKind gs = .ok m') : m'.Describes (fs ++ gs) := by
  induction gs generalizing m fs with
  | nil =>
    cases parsed
    rw [append_nil]
    exact describes
  | cons g gs ih =>
    obtain ⟨tags, -, rest⟩ := bind_eq_ok.mp parsed
    have new : ∀ f ∈ fs, f.name ≠ g.name := by
      intro f inside
      rw [map_append, nodup_append] at distinct
      exact distinct.2.2 f.name (mem_map_of_mem inside) g.name (by simp)
    rw [append_cons] at distinct ⊢
    exact ih (describes.addField tags new) distinct rest

variable {typ : StructType T} {tableName : Option String}

theorem parseModel_describes (distinct : (typ.fields.map (·.name)).Nodup)
    (parsed : parseModel u isIntegerKind (.pointer typ tableName) = .ok m) :
    m.Describes typ.fields := by
  obtain ⟨m₁, fields, named⟩ := bind_eq_ok.mp parsed
  cases named
  have empty : Model.Describes ({} : Model T) [] := ⟨rfl, by simp, by simp⟩
  have describes := empty.addFields (by simpa using distinct) fields
  exact ⟨describes.fields, describes.fieldMap, describes.columnMap⟩

theorem Model.Describes.rename (describes : m.Describes fs) (i : Nat) (colName : String) :
    (m.rename i colName).Describes fs := by
  refine ⟨?_, describes.fieldMap, describes.columnMap⟩
  rw [← describes.fields]
  apply map_modify_of_eq
  intro f
  rfl

theorem Model.Describes.apply {opt : ModelOpt} (describes : m.Describes fs)
    (applied : opt.apply m = .ok m') : m'.Describes fs := by
  cases opt with
  | withTableName =>
    cases applied
    exact ⟨describes.fields, describes.fieldMap, describes.columnMap⟩
  | withColumName field colName =>
    simp only [ModelOpt.apply] at applied
    split at applied
    · split at applied
      · cases applied
      rename_i fd _ _ _ j old
      cases applied
      apply rename
      apply rename
      refine ⟨describes.fields, describes.fieldMap, ?_⟩
      intro column k found
      rcases lookup_insert_cases found with here | other
      · rw [here]
        exact describes.columnMap _ j old
      · by_cases same : column = fd.colName
        · rw [same, lookup_erase] at other
          cases other
        · rw [lookup_erase_ne same] at other
          exact describes.columnMap column k other
    · cases applied

theorem registry_describes {typ : Exported T} {opts : List ModelOpt}
    (registered : registry u isIntegerKind (.pointer typ.toStructType tableName) opts = .ok m) :
    m.Describes typ.fields := by
  obtain ⟨m₁, parsed, applied⟩ := bind_eq_ok.mp registered
  have describes := parseModel_describes typ.distinct parsed
  clear parsed registered
  induction opts generalizing m₁ with
  | nil =>
    cases applied
    exact describes
  | cons opt opts ih =>
    rw [foldlM_cons] at applied
    obtain ⟨m₂, first, rest⟩ := bind_eq_ok.mp applied
    exact ih m₂ rest (describes.apply first)

theorem Model.Describes.find (describes : m.Describes fs) {i : Nat} (at_ : fs[i]? = some f) :
    fs.find? (·.name == f.name) = some f := by
  cases found : fs.find? (·.name == f.name) with
  | none =>
    have other := List.find?_eq_none.mp found f (mem_of_getElem? at_)
    exact absurd (beq_self_eq_true f.name) other
  | some g =>
    obtain ⟨j, at_'⟩ := mem_iff_getElem?.mp (mem_of_find?_eq_some found)
    have named : g.name = f.name := by simpa using List.find?_some found
    -- both positions are the one in the map
    have first := (describes.fieldMap f.name i).mpr ⟨f, at_, rfl⟩
    have second := (describes.fieldMap f.name j).mpr ⟨g, at_', named⟩
    cases first.symm.trans second
    exact at_'.symm.trans at_

theorem Model.Describes.field (describes : m.Describes typ.fields) (name : String) :
    (m.field name).map Field.shape = (typ.fieldByName name).map StructField.shape := by
  rw [Model.field, StructType.fieldByName]
  cases known : m.fieldMap.lookup name with
  | some i =>
    obtain ⟨f, at_, rfl⟩ := (describes.fieldMap name i).mp known
    rw [describes.find at_, bind_some, describes.getElem?, at_]
  | none =>
    have absent : typ.fields.find? (·.name == name) = none := by
      apply List.find?_eq_none.mpr
      intro f inside named
      obtain ⟨i, at_⟩ := mem_iff_getElem?.mp inside
      have found := (describes.fieldMap name i).mpr ⟨f, at_, by simpa using named⟩
      rw [known] at found
      cases found
    rw [absent]
    rfl

theorem Model.Describes.column {fd : Field T} {column : String}
    (describes : m.Describes typ.fields) (found : m.column column = some fd) :
    ∃ f, typ.fieldByName fd.goName = some f ∧ f.typ = fd.typ ∧ f.offset = fd.offset := by
  obtain ⟨i, -, at_⟩ := bind_eq_some_iff.mp found
  have same := describes.getElem? i
  rw [at_] at same
  obtain ⟨f, at_', shape⟩ := map_eq_some_iff.mp same.symm
  simp only [StructField.shape, Field.shape, Prod.mk.injEq] at shape
  obtain ⟨name, typ_, offset⟩ := shape
  refine ⟨f, ?_, typ_, offset⟩
  rw [← name]
  exact describes.find at_'

end

end Soil.Orm.Struct
