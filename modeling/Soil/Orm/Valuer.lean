import Mathlib.Data.List.Induction
import Soil.Orm.Statement
import Soil.Orm.Struct

/-!
# The two valuers

`unsafeValue` reads and writes the fields of a struct through their addresses, `reflectValue`
through `reflect`, and an option of the `DB` chooses between them.  `SetColumns` of the first
lets `Scan` store into the fields themselves; that of the second lets it store into new cells
and copies these when all of them are filled.
-/

namespace Soil.Orm.Struct

open List Option

/-! ## Structs in memory -/

abbrev Mem (T V : Type) := Nat → T → V

inductive Result (α : Type) where
  | ok (a : α)
  | error (e : Err)
  | panic
  deriving DecidableEq

variable {T V R S : Type}

def Mem.set [DecidableEq T] (m : Mem T V) (offset : Nat) (typ : T) (v : V) : Mem T V :=
  fun o t => if o = offset ∧ t = typ then v else m o t

def Mem.setAll [DecidableEq T] (m : Mem T V) (cells : List (Field T × V)) : Mem T V :=
  cells.foldl (fun m c => m.set c.1.offset c.1.typ c.2) m

/-! ## `database/sql` -/

inductive Stored (S : Type) where
  | stored (s : S)
  | refused
  | fault

/-- What `Scan` does with a raw value: conversion to the type of its destination, and a store
through a pointer that lies in a nil struct, at this offset. -/
structure Sql (T V R : Type) where
  convert : T → R → Except String V
  wild : T → Nat → V → Stored Unit

structure Rows (R : Type) where
  row : List (String × R)
  closed : Option String := none

def Rows.columns (rows : Rows R) : Except Err (List String) :=
  match rows.closed with
  | some cause => .error (.rows cause)
  | none => .ok (rows.row.map (·.1))

def scan (sql : Sql T V R) (store : S → Field T → V → Stored S) :
    Nat → S → List (Field T × String × R) → Result Unit × S
  | _, s, [] => (.ok (), s)
  | i, s, (dest, column, raw) :: rest =>
    match sql.convert dest.typ raw with
    | .error cause => (.error (.scan i column cause), s)
    | .ok v =>
      match store s dest v with
      | .stored s => scan sql store (i + 1) s rest
      | .refused => (.error (.scan i column "destination pointer is nil"), s)
      | .fault => (.panic, s)

/-! ## The valuers -/

def destinations (meta_ : Model T) (columns : List String) : Except Err (List (Field T)) :=
  columns.mapM fun column =>
    match meta_.column column with
    | none => .error (.unknownColumn column)
    | some fd => .ok fd

structure UnsafeValue (T V : Type) where
  addr : Option (Mem T V)
  meta_ : Model T

def UnsafeValue.setColumns [DecidableEq T] (sql : Sql T V R) (u : UnsafeValue T V)
    (rows : Rows R) : Result Unit × Option (Mem T V) :=
  match rows.columns with
  | .error e => (.error e, u.addr)
  | .ok colNames =>
    if u.meta_.columnMap.keys.length < colNames.length then
      (.error .tooManyReturnedColumns, u.addr)
    else
      match destinations u.meta_ colNames with
      | .error e => (.error e, u.addr)
      | .ok dests =>
        match u.addr with
        | some m =>
          let (res, m) := scan sql (fun m fd v => .stored (m.set fd.offset fd.typ v)) 0 m
            (dests.zip rows.row)
          (res, some m)
        | none =>
          let (res, _) := scan sql (fun _ fd v => sql.wild fd.typ fd.offset v) 0 ()
            (dests.zip rows.row)
          (res, none)

def UnsafeValue.getFieldValue (u : UnsafeValue T V) (name : String) : Result V :=
  match u.meta_.field name with
  | none => .error (.unknownField name)
  | some fd =>
    match u.addr with
    | none => .error (.nilAddr name)
    | some m => .ok (m fd.offset fd.typ)

structure ReflectValue (T V : Type) where
  typ : StructType T
  val : Option (Mem T V)
  meta_ : Model T

def setFields [DecidableEq T] (typ : StructType T) :
    Mem T V → List (Field T × V) → Result Unit × Mem T V
  | m, [] => (.ok (), m)
  | m, (fd, v) :: rest =>
    match typ.fieldByName fd.goName with
    | none => (.panic, m)
    | some f =>
      if f.typ = fd.typ then setFields typ (m.set f.offset f.typ v) rest else (.panic, m)

def ReflectValue.setColumns [DecidableEq T] (sql : Sql T V R) (r : ReflectValue T V)
    (rows : Rows R) : Result Unit × Option (Mem T V) :=
  match rows.columns with
  | .error e => (.error e, r.val)
  | .ok columns =>
    match destinations r.meta_ columns with
    | .error e => (.error e, r.val)
    | .ok dests =>
      match scan sql (fun vals _ v => .stored (vals ++ [v])) 0 [] (dests.zip rows.row) with
      | (.ok (), vals) =>
        match r.val, dests.zip vals with
        | some m, cells =>
          let (res, m) := setFields r.typ m cells
          (res, some m)
        | none, [] => (.ok (), none)
        | none, _ :: _ => (.panic, none)
      | (res, _) => (res, r.val)

def ReflectValue.getFieldValue (r : ReflectValue T V) (name : String) : Result V :=
  match r.val with
  | none => .panic
  | some m =>
    match r.typ.fieldByName name with
    | none => .error (.unknownField name)
    | some f => .ok (m f.offset f.typ)

/-! ## Memory -/

section

variable [DecidableEq T]

def lastFor (cells : List (Field T × V)) (offset : Nat) (typ : T) : Option V :=
  (cells.reverse.find? fun c => c.1.offset = offset ∧ c.1.typ = typ).map (·.2)

theorem Mem.setAll_apply (m : Mem T V) (cells : List (Field T × V)) (offset : Nat) (typ : T) :
    m.setAll cells offset typ = (lastFor cells offset typ).getD (m offset typ) := by
  induction cells using List.reverseRecOn with
  | nil => rfl
  | append_singleton cells c ih =>
    rw [Mem.setAll, foldl_append, foldl_cons, foldl_nil, Mem.set, lastFor,
      reverse_append, reverse_singleton, singleton_append, List.find?_cons]
    by_cases here : c.1.offset = offset ∧ c.1.typ = typ
    · simp [here]
    · have elsewhere : ¬(offset = c.1.offset ∧ typ = c.1.typ) := fun same =>
        here ⟨same.1.symm, same.2.symm⟩
      simp only [here, elsewhere, decide_false, if_false]
      exact ih

theorem Mem.setAll_eq_self (m : Mem T V) (cells : List (Field T × V)) :
    m.setAll cells = m ↔ ∀ offset typ v, lastFor cells offset typ = some v → m offset typ = v := by
  constructor
  · intro same offset typ v last
    have there := m.setAll_apply cells offset typ
    rw [same, last] at there
    exact there
  · intro held
    funext offset typ
    rw [m.setAll_apply]
    cases last : lastFor cells offset typ with
    | none => rfl
    | some v => exact (held offset typ v last).symm

end

/-! ## What `Scan` leaves -/

section

variable (sql : Sql T V R)

def Fails (c : Field T × String × R) : Prop := (sql.convert c.1.typ c.2.2).isOk = false

instance : DecidablePred (Fails sql) := fun _ => inferInstanceAs (Decidable (_ = false))

variable {sql} in
theorem fails_of_error {c : Field T × String × R} {cause : String}
    (conversion : sql.convert c.1.typ c.2.2 = .error cause) : Fails sql c := by
  rw [Fails, conversion]
  rfl

variable {sql} in
theorem not_fails_of_ok {c : Field T × String × R} {v : V}
    (conversion : sql.convert c.1.typ c.2.2 = .ok v) : ¬ Fails sql c := by
  rw [Fails, conversion]
  nofun

def converted : List (Field T × String × R) → List (Field T × V)
  | [] => []
  | c :: rest =>
    match sql.convert c.1.typ c.2.2 with
    | .ok v => (c.1, v) :: converted rest
    | .error _ => []

theorem scan_stores (put : S → Field T → V → S) (cells : List (Field T × String × R)) (i : Nat)
    (s : S) : (scan sql (fun s fd v => .stored (put s fd v)) i s cells).2 =
        (converted sql cells).foldl (fun s c => put s c.1 c.2) s ∧ ((∃ c ∈ cells, Fails sql c) →
        ∃ e, (scan sql (fun s fd v => .stored (put s fd v)) i s cells).1 = .error e) ∧
      ((¬ ∃ c ∈ cells, Fails sql c) →
        (scan sql (fun s fd v => .stored (put s fd v)) i s cells).1 = .ok ()) := by
  induction cells generalizing i s with
  | nil => exact ⟨rfl, by simp, fun _ => rfl⟩
  | cons c rest ih =>
    obtain ⟨fd, column, raw⟩ := c
    cases conversion : sql.convert fd.typ raw with
    | error =>
      have fails : Fails sql (fd, column, raw) := fails_of_error conversion
      simp only [scan, converted, conversion]
      exact ⟨rfl, fun _ => ⟨_, rfl⟩, fun none => absurd ⟨_, mem_cons_self, fails⟩ none⟩
    | ok v =>
      have converts : ¬ Fails sql (fd, column, raw) := not_fails_of_ok conversion
      simp only [scan, converted, conversion, foldl_cons, exists_mem_cons_iff, converts, false_or]
      exact ih (i + 1) (put s fd v)

def stops (c : Field T × String × R) : Bool :=
  match sql.convert c.1.typ c.2.2 with
  | .error _ => true
  | .ok v =>
    match sql.wild c.1.typ c.1.offset v with
    | .stored _ => false
    | .refused | .fault => true

def refuses (c : Field T × String × R) : Bool :=
  match sql.convert c.1.typ c.2.2 with
  | .error _ => true
  | .ok v =>
    match sql.wild c.1.typ c.1.offset v with
    | .refused => true
    | .stored _ | .fault => false

variable {sql} in
theorem stops_of_fails {c : Field T × String × R} (fails : Fails sql c) : stops sql c = true := by
  cases conversion : sql.convert c.1.typ c.2.2 with
  | error => simp [stops, conversion]
  | ok => exact absurd fails (not_fails_of_ok conversion)

theorem scan_wild (cells : List (Field T × String × R)) (i : Nat) (s : Unit) :
    match cells.find? (stops sql) with
    | none => (scan sql (fun _ fd v => sql.wild fd.typ fd.offset v) i s cells).1 = .ok ()
    | some c =>
      if refuses sql c then
        ∃ e, (scan sql (fun _ fd v => sql.wild fd.typ fd.offset v) i s cells).1 = .error e
      else (scan sql (fun _ fd v => sql.wild fd.typ fd.offset v) i s cells).1 = .panic := by
  induction cells generalizing i s with
  | nil => rfl
  | cons c rest ih =>
    obtain ⟨fd, -, raw⟩ := c
    cases conversion : sql.convert fd.typ raw with
    | error =>
      simp only [List.find?_cons, stops, refuses, scan, conversion, if_true]
      exact ⟨_, rfl⟩
    | ok v =>
      cases store : sql.wild fd.typ fd.offset v with
      | stored s' =>
        simp only [List.find?_cons, stops, scan, conversion, store]
        exact ih (i + 1) s'
      | refused =>
        simp only [List.find?_cons, stops, refuses, scan, conversion, store, if_true]
        exact ⟨_, rfl⟩
      | fault => simp [stops, refuses, scan, conversion, store]

variable {cells : List (Field T × String × R)}

theorem converted_zip (all : ¬ ∃ c ∈ cells, Fails sql c) :
    (cells.map (·.1)).zip ((converted sql cells).map (·.2)) = converted sql cells := by
  induction cells with
  | nil => rfl
  | cons c rest ih =>
    rw [exists_mem_cons_iff, not_or] at all
    cases conversion : sql.convert c.1.typ c.2.2 with
    | error => exact absurd (fails_of_error conversion) all.1
    | ok => simp [converted, conversion, ih all.2]

theorem mem_of_converted {c : Field T × V}
    (inside : c ∈ converted sql cells) : c.1 ∈ cells.map (·.1) := by
  induction cells with
  | nil => cases inside
  | cons d rest ih =>
    rw [converted] at inside
    split at inside
    · rcases mem_cons.mp inside with rfl | later
      · exact mem_cons_self
      · exact mem_cons_of_mem _ (ih later)
    · cases inside

end

/-! ## Agreement -/

inductive Result.Agree {α : Type} : Result α → Result α → Prop
  | ok (a : α) : Agree (.ok a) (.ok a)
  | error (e e' : Err) : Agree (.error e) (.error e')
  | panic : Agree .panic .panic

def SetAlike [DecidableEq T] (sql : Sql T V R) (typ : Exported T) (meta_ : Model T)
    (val : Option (Mem T V)) (rows : Rows R) : Prop :=
  (UnsafeValue.setColumns sql ⟨val, meta_⟩ rows).1.Agree
      (ReflectValue.setColumns sql ⟨typ.toStructType, val, meta_⟩ rows).1 ∧
    (UnsafeValue.setColumns sql ⟨val, meta_⟩ rows).2 =
      (ReflectValue.setColumns sql ⟨typ.toStructType, val, meta_⟩ rows).2

def HarmlessCells [DecidableEq T] (sql : Sql T V R) (n : Nat) (val : Option (Mem T V))
    (cells : List (Field T × String × R)) : Prop :=
  if n < cells.length then ∃ c ∈ cells, Fails sql c
  else
    match val with
    -- a failure comes behind columns whose values the struct holds already
    | some m => (∃ c ∈ cells, Fails sql c) → ∀ offset typ v,
        lastFor (converted sql cells) offset typ = some v → m offset typ = v
    -- the first column that stops `Scan` is refused if and only if some column fails
    | none => cells = [] ∨ ∃ c, cells.find? (stops sql) = some c ∧
        (refuses sql c = true ↔ ∃ d ∈ cells, Fails sql d)

def Harmless [DecidableEq T] (sql : Sql T V R) (meta_ : Model T) (val : Option (Mem T V))
    (rows : Rows R) : Prop :=
  ∀ columns dests, rows.columns = .ok columns → destinations meta_ columns = .ok dests →
    HarmlessCells sql meta_.columnMap.keys.length val (dests.zip rows.row)

open UnsafeValue

section

variable {typ : Exported T} {meta_ : Model T}
  {rows : Rows R} {columns : List String} {dests : List (Field T)}

theorem getFieldValue_agree_iff (describes : meta_.Describes typ.fields)
    (val : Option (Mem T V)) (name : String) : (UnsafeValue.getFieldValue ⟨val, meta_⟩ name).Agree
        (ReflectValue.getFieldValue ⟨typ.toStructType, val, meta_⟩ name) ↔ val.isSome := by
  have same : (meta_.field name).map Field.shape =
    (typ.fieldByName name).map StructField.shape := describes.field name
  cases val with
  | none =>
    constructor
    · intro agree
      unfold UnsafeValue.getFieldValue at agree
      split at agree <;> cases agree
    · nofun
  | some =>
    simp only [UnsafeValue.getFieldValue, ReflectValue.getFieldValue, isSome_some, iff_true]
    cases found : meta_.field name with rw [found] at same
    | none =>
      rw [map_eq_none_iff.mp same.symm]
      exact .error _ _
    | some =>
      obtain ⟨f, there, shape⟩ := map_eq_some_iff.mp same.symm
      simp only [StructField.shape, Field.shape, Prod.mk.injEq] at shape
      rw [there]
      dsimp only
      rw [shape.2.1, shape.2.2]
      exact .ok _

theorem length_columns (named : rows.columns = .ok columns) : columns.length = rows.row.length := by
  unfold Rows.columns at named
  split at named
  · cases named
  · cases named
    exact length_map _

theorem destinations_ok (all : destinations meta_ columns = .ok dests) :
    dests.length = columns.length ∧ ∀ fd ∈ dests, ∃ column, meta_.column column = some fd := by
  induction columns generalizing dests with
  | nil =>
    cases all
    exact ⟨rfl, nofun⟩
  | cons column columns ih =>
    rw [destinations, mapM_cons] at all
    obtain ⟨fd, first, more⟩ := bind_eq_ok.mp all
    obtain ⟨rest, others, last⟩ := bind_eq_ok.mp more
    cases last
    obtain ⟨length, known⟩ := ih others
    refine ⟨by simp [length], forall_mem_cons.mpr ⟨⟨column, ?_⟩, known⟩⟩
    split at first
    · cases first
    · cases first
      assumption

variable [DecidableEq T]

theorem setFields_eq (describes : meta_.Describes typ.fields) {cells : List (Field T × V)}
    (known : ∀ c ∈ cells, ∃ column, meta_.column column = some c.1) (m : Mem T V) :
    setFields typ.toStructType m cells = (.ok (), m.setAll cells) := by
  induction cells generalizing m with
  | nil => rfl
  | cons c rest ih =>
    obtain ⟨fd, v⟩ := c
    rw [forall_mem_cons] at known
    obtain ⟨column, found⟩ := known.1
    obtain ⟨f, there, same, offset⟩ := describes.column found
    rw [setFields, there]
    dsimp only
    rw [if_pos same, same, offset]
    exact ih known.2 _

variable (sql : Sql T V R)

section

variable (named : rows.columns = .ok columns) (known : destinations meta_ columns = .ok dests)
include named known

theorem reflect_setColumns (describes : meta_.Describes typ.fields) (val : Option (Mem T V)) :
    ((∃ c ∈ dests.zip rows.row, Fails sql c) → ∃ e, ReflectValue.setColumns sql
        ⟨typ.toStructType, val, meta_⟩ rows = (.error e, val)) ∧
      ((¬ ∃ c ∈ dests.zip rows.row, Fails sql c) → ReflectValue.setColumns sql
        ⟨typ.toStructType, val, meta_⟩ rows =
          match val with
          | some m => (.ok (), some (m.setAll (converted sql (dests.zip rows.row))))
          | none => (if dests.zip rows.row = [] then .ok () else .panic, none)) := by
  obtain ⟨state, fails, succeeds⟩ := scan_stores sql (fun vals _ v => vals ++ [v])
    (dests.zip rows.row) 0 ([] : List V)
  obtain ⟨length, found⟩ := destinations_ok known
  have fields : (dests.zip rows.row).map (·.1) = dests := by
    apply map_fst_zip
    rw [length, length_columns named]
  unfold ReflectValue.setColumns
  simp only [named, known]
  generalize scan sql _ 0 ([] : List V) (dests.zip rows.row) = result at state fails succeeds ⊢
  obtain ⟨res, vals⟩ := result
  dsimp only at state fails succeeds
  constructor
  · intro some_
    obtain ⟨e, rfl⟩ := fails some_
    exact ⟨e, rfl⟩
  intro all
  have pairs : dests.zip vals = converted sql (dests.zip rows.row) := by
    have vals_eq : vals = (converted sql (dests.zip rows.row)).map (·.2) := by
      rw [state, foldl_append_eq_append, nil_append, ← flatMap_def]
      exact map_eq_flatMap.symm
    have whole := converted_zip sql all
    rw [fields] at whole
    rw [vals_eq, whole]
  rw [succeeds all]
  dsimp only
  rw [pairs]
  cases val with
  | some =>
    dsimp only
    rw [setFields_eq describes]
    intro c inside
    have there := mem_of_converted sql inside
    rw [fields] at there
    exact found c.1 there
  | none =>
    cases cells : dests.zip rows.row with
    | nil => rfl
    | cons c =>
      rw [cells, exists_mem_cons_iff, not_or] at all
      cases conversion : sql.convert c.1.typ c.2.2 with
      | error => exact absurd (fails_of_error conversion) all.1
      | ok =>
        simp only [converted, conversion]
        rfl

theorem unsafe_setColumns (m : Mem T V) (few : ¬ meta_.columnMap.keys.length < columns.length) :
    ∃ res, setColumns sql ⟨some m, meta_⟩ rows =
        (res, some (m.setAll (converted sql (dests.zip rows.row)))) ∧
      ((∃ c ∈ dests.zip rows.row, Fails sql c) → ∃ e, res = .error e) ∧
      ((¬ ∃ c ∈ dests.zip rows.row, Fails sql c) → res = .ok ()) := by
  obtain ⟨state, fails, succeeds⟩ := scan_stores sql
    (fun (m : Mem T V) fd v => m.set fd.offset fd.typ v) (dests.zip rows.row) 0 m
  unfold setColumns
  simp only [named, known, if_neg few]
  refine ⟨_, ?_, fails, succeeds⟩
  rw [state]
  rfl

section

variable (describes : meta_.Describes typ.fields)
include describes

theorem setColumns_alike_some_iff (m : Mem T V)
    (few : ¬ meta_.columnMap.keys.length < columns.length) : SetAlike sql typ meta_ (some m) rows ↔
      ((∃ c ∈ dests.zip rows.row, Fails sql c) → ∀ offset typ v,
        lastFor (converted sql (dests.zip rows.row)) offset typ = some v → m offset typ = v) := by
  obtain ⟨res, unsafe_, fails, succeeds⟩ := unsafe_setColumns sql named known m few
  obtain ⟨failed, whole⟩ := reflect_setColumns sql named known describes (some m)
  rw [← Mem.setAll_eq_self, SetAlike, unsafe_]
  by_cases some_ : ∃ c ∈ dests.zip rows.row, Fails sql c
  · obtain ⟨e, rfl⟩ := fails some_
    obtain ⟨e', reflect⟩ := failed some_
    rw [reflect]
    simp only [some_, some.injEq, true_imp_iff]
    exact ⟨And.right, fun same => ⟨.error e e', same⟩⟩
  · rw [whole some_, succeeds some_]
    simp only [some_, false_imp_iff, iff_true]
    exact ⟨.ok (), trivial⟩

theorem setColumns_alike_none_iff (few : ¬ meta_.columnMap.keys.length < columns.length) :
    SetAlike sql typ meta_ none rows ↔
      (dests.zip rows.row = [] ∨ ∃ c, (dests.zip rows.row).find? (stops sql) = some c ∧
        (refuses sql c = true ↔ ∃ d ∈ dests.zip rows.row, Fails sql d)) := by
  have wild := scan_wild sql (dests.zip rows.row) 0 ()
  obtain ⟨failed, whole⟩ := reflect_setColumns sql named known describes (none : Option (Mem T V))
  have unsafe_ : setColumns sql ⟨none, meta_⟩ rows =
      ((scan sql (fun _ fd v => sql.wild fd.typ fd.offset v) 0 () (dests.zip rows.row)).1,
        none) := by
    unfold setColumns
    simp [named, known, if_neg few]
  rw [SetAlike, unsafe_]
  generalize (scan sql (fun _ fd v => sql.wild fd.typ fd.offset v) 0 ()
    (dests.zip rows.row)).1 = res at wild
  by_cases empty : dests.zip rows.row = []
  · rw [empty] at wild whole ⊢
    rw [whole (by simp), show res = .ok () from wild]
    simp only [if_true, true_or, iff_true]
    exact ⟨.ok (), trivial⟩
  · simp only [empty, false_or]
    cases stop : (dests.zip rows.row).find? (stops sql) with
    | none =>
      have all : ¬ ∃ c ∈ dests.zip rows.row, Fails sql c := by
        intro some_
        obtain ⟨c, inside, fails⟩ := some_
        exact List.find?_eq_none.mp stop c inside (stops_of_fails fails)
      rw [stop] at wild
      rw [whole all, if_neg empty, show res = .ok () from wild]
      constructor
      · intro alike
        cases alike.1
      · nofun
    | some c =>
      rw [stop] at wild
      simp only [some.injEq, exists_eq_left']
      by_cases some_ : ∃ d ∈ dests.zip rows.row, Fails sql d
      · obtain ⟨e, reflect⟩ := failed some_
        rw [reflect]
        simp only [some_, iff_true, and_true]
        cases refused : refuses sql c with
        | true =>
          obtain ⟨e', rfl⟩ := (if_pos refused).mp wild
          exact ⟨fun _ => rfl, fun _ => .error e' e⟩
        | false =>
          have faults : res = .panic := by simpa [refused] using wild
          rw [faults]
          exact ⟨nofun, nofun⟩
      · rw [whole some_, if_neg empty]
        simp only [some_, iff_false, and_true]
        cases refused : refuses sql c with
        | true =>
          obtain ⟨-, rfl⟩ := (if_pos refused).mp wild
          exact ⟨nofun, fun no => absurd rfl no⟩
        | false =>
          have faults : res = .panic := by simpa [refused] using wild
          rw [faults]
          exact ⟨fun _ => nofun, fun _ => .panic⟩

theorem setColumns_alike_many_iff (val : Option (Mem T V))
    (many : meta_.columnMap.keys.length < columns.length) :
    SetAlike sql typ meta_ val rows ↔ ∃ c ∈ dests.zip rows.row, Fails sql c := by
  obtain ⟨failed, whole⟩ := reflect_setColumns sql named known describes val
  have unsafe_ : setColumns sql ⟨val, meta_⟩ rows =
      (.error .tooManyReturnedColumns, val) := by
    unfold setColumns
    simp [named, if_pos many]
  rw [SetAlike, unsafe_]
  by_cases some_ : ∃ c ∈ dests.zip rows.row, Fails sql c
  · obtain ⟨e, reflect⟩ := failed some_
    rw [reflect]
    exact ⟨fun _ => some_, fun _ => ⟨.error _ e, rfl⟩⟩
  rw [whole some_]
  refine ⟨?_, fun some' => absurd some' some_⟩
  intro alike
  have ends := alike.1
  cases val with
  | some => cases ends
  | none =>
    dsimp only at ends
    split at ends <;> cases ends

end

theorem harmless_iff (val : Option (Mem T V)) : Harmless sql meta_ val rows ↔
    HarmlessCells sql meta_.columnMap.keys.length val (dests.zip rows.row) := by
  constructor
  · intro harmless
    exact harmless columns dests named known
  · intro harmless columns' dests' named' known'
    cases named.symm.trans named'
    cases known.symm.trans known'
    exact harmless

end

theorem setColumns_alike_iff (describes : meta_.Describes typ.fields) (val : Option (Mem T V)) :
    SetAlike sql typ meta_ val rows ↔ Harmless sql meta_ val rows := by
  cases named : rows.columns with
  | error e =>
    have both : SetAlike sql typ meta_ val rows := by
      simp only [SetAlike, setColumns, ReflectValue.setColumns, named]
      exact ⟨.error e e, trivial⟩
    refine ⟨fun _ => ?_, fun _ => both⟩
    intro columns dests named'
    rw [named] at named'
    cases named'
  | ok columns =>
    cases known : destinations meta_ columns with
    | error e =>
      have both : SetAlike sql typ meta_ val rows := by
        simp only [SetAlike, setColumns, ReflectValue.setColumns, named, known]
        split
        · exact ⟨.error _ e, rfl⟩
        · exact ⟨.error e e, rfl⟩
      refine ⟨fun _ => ?_, fun _ => both⟩
      intro columns' dests named' known'
      rw [named] at named'
      cases named'
      rw [known] at known'
      cases known'
    | ok dests =>
      have length : (dests.zip rows.row).length = columns.length := by
        rw [length_zip, (destinations_ok known).1, length_columns named, Nat.min_self]
      rw [harmless_iff sql named known val]
      unfold HarmlessCells
      rw [length]
      by_cases many : meta_.columnMap.keys.length < columns.length
      · rw [if_pos many]
        exact setColumns_alike_many_iff sql named known describes val many
      · rw [if_neg many]
        cases val with
        | some m => exact setColumns_alike_some_iff sql named known describes m many
        | none => exact setColumns_alike_none_iff sql named known describes many

end

/-- **The two valuers.**  For the model of a struct type, whatever the options, they read a
field alike if and only if the struct is not nil, and set a row alike if and only if it is
harmless. -/
theorem valuers_agree_iff [DecidableEq T] (u : Unicode) (isIntegerKind : T → Bool)
    (typ : Exported T) (tableName : Option String) (opts : List ModelOpt) (meta_ : Model T)
    (registered : registry u isIntegerKind (.pointer typ.toStructType tableName) opts = .ok meta_)
    (sql : Sql T V R) (val : Option (Mem T V)) (name : String) (rows : Rows R) :
    ((UnsafeValue.getFieldValue ⟨val, meta_⟩ name).Agree
        (ReflectValue.getFieldValue ⟨typ.toStructType, val, meta_⟩ name) ↔ val.isSome) ∧
      (SetAlike sql typ meta_ val rows ↔ Harmless sql meta_ val rows) := by
  have describes := registry_describes registered
  exact ⟨getFieldValue_agree_iff describes val name, setColumns_alike_iff sql describes val⟩

def user : Exported Unit where
  name := "User"
  fields := [⟨"Id", (), 0, none⟩, ⟨"Age", (), 8, none⟩]
  distinct := by decide

def ascii : Unicode := ⟨Char.isUpper, Char.isLower, Char.toLower⟩

def scanInt : Sql Unit Int (Option Int) where
  convert
    | _, some n => .ok n
    | _, none => .error "converting NULL to int is unsupported"
  wild _ offset _ := if offset = 0 then .refused else .fault

def registerUser : Except Err (Model Unit) :=
  registry ascii (fun _ => true) (.pointer user.toStructType) []

/-- A row that does not convert, but stores nothing new before. -/
theorem valuers_agree_iff_user :
    ∃ meta_, registerUser = .ok meta_ ∧
      ((UnsafeValue.getFieldValue ⟨some fun _ _ => (1 : Int), meta_⟩ "Age").Agree
          (ReflectValue.getFieldValue ⟨user.toStructType, some fun _ _ => 1, meta_⟩ "Age") ↔
        true) ∧
      (SetAlike scanInt user meta_ (some fun _ _ => 1) ⟨[("id", some 1), ("age", none)], none⟩ ↔
        Harmless scanInt meta_ (some fun _ _ => 1) ⟨[("id", some 1), ("age", none)], none⟩) := by
  have parses : registerUser.isOk = true := by decide +kernel
  cases registered : registerUser with
  | error =>
    rw [registered] at parses
    cases parses
  | ok meta_ =>
    exact ⟨meta_, rfl, valuers_agree_iff ascii (fun _ => true) user none [] meta_ registered
      scanInt (some fun _ _ => 1) "Age" ⟨[("id", some 1), ("age", none)], none⟩⟩

def outcome (call : Result Unit × Option (Mem Unit Int)) : Result Unit × Option Int :=
  (call.1, call.2.map (· 0 ()))

def outcomes (row : List (String × Option Int)) (meta_ : Model Unit) :
    (Result Unit × Option Int) × (Result Unit × Option Int) :=
  (outcome (UnsafeValue.setColumns scanInt ⟨some fun _ _ => 0, meta_⟩ ⟨row, none⟩),
    outcome (ReflectValue.setColumns scanInt ⟨user.toStructType, some fun _ _ => 0, meta_⟩
      ⟨row, none⟩))

/-- A nil pointer, a column that fails behind one that does not, and a column that comes
twice. -/
theorem valuers_disagree :
    (registerUser.toOption.map fun meta_ =>
      (UnsafeValue.getFieldValue ⟨(none : Option (Mem Unit Int)), meta_⟩ "Id",
        ReflectValue.getFieldValue ⟨user.toStructType, (none : Option (Mem Unit Int)), meta_⟩
          "Id")) = some (.error (.nilAddr "Id"), .panic) ∧
    registerUser.toOption.map (outcomes [("id", some 1), ("age", none)]) =
      some ((.error (.scan 1 "age" "converting NULL to int is unsupported"), some 1),
        (.error (.scan 1 "age" "converting NULL to int is unsupported"), some 0)) ∧
    registerUser.toOption.map (outcomes [("id", some 1), ("age", some 2), ("id", some 3)]) =
      some ((.error .tooManyReturnedColumns, some 0), (.ok (), some 3)) := by
  refine ⟨?_, ?_, ?_⟩
  · decide +kernel
  · decide +kernel
  · decide +kernel

/-! ## What the builders read -/

end Soil.Orm.Struct
