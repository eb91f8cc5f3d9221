import Mathlib.Data.List.TakeWhile
import Soil.Orm.BuildSpec
import Soil.Orm.Valuer

/-!
# Reading the rows of a query

`Selector.Get` and `RawQuerier.Query` walk over the rows of a result with `Next`, which
returns false at the end of the rows and at an error alike; only `Err` tells the two apart.
-/

namespace Soil.Orm.Struct

open List

/-! ## Results -/

structure Cursor (R : Type) where
  rows : List (Rows R)
  err : Option String := none

inductive QueryErr where
  | build (err : OrmErr)
  | session (cause : String)
  | hook (cause : String)
  | registry (err : Err)
  | target
  | noRows
  | tooManyRows
  | valuer (err : Err)
  | iteration (cause : String)
  deriving DecidableEq

inductive Fetched (α : Type) where
  | ok (a : α)
  | error (err : QueryErr)
  | panic
  deriving DecidableEq

variable {T V R : Type}

def setColumns [DecidableEq T] (sql : Sql T V R) (typ : StructType T) (meta_ : Model T)
    (creator : ValCreator) (m : Mem T V) (rows : Rows R) : Result Unit × Mem T V :=
  let set := match creator with
    | .unsafeValue => UnsafeValue.setColumns sql ⟨some m, meta_⟩ rows
    | .reflectValue => ReflectValue.setColumns sql ⟨typ, some m, meta_⟩ rows
  (set.1, set.2.getD m)

/-! ## `Selector.Get` -/

structure QueryHooks (T V : Type) where
  beforeQuery : Option String := none
  afterQuery : Mem T V → Except String (Mem T V) := .ok

def getHandler (hooks : QueryHooks T V) (set : Mem T V → Rows R → Result Unit × Mem T V)
    (zero : Mem T V) (query : Except OrmErr Query) (session : Query → Except String (Cursor R)) :
    Fetched (Mem T V) :=
  match hooks.beforeQuery with
  | some cause => .error (.hook cause)
  | none =>
    match query with
    | .error err => .error (.build err)
    | .ok query =>
      match session query with
      | .error cause => .error (.session cause)
      | .ok cursor =>
        match cursor.rows with
        | [] => .error .noRows
        | row :: rest =>
          match set zero row with
          | (.error err, _) => .error (.valuer err)
          | (.panic, _) => .panic
          | (.ok (), retVal) =>
            if rest ≠ [] then .error .tooManyRows
            else
              match hooks.afterQuery retVal with
              | .error cause => .error (.hook cause)
              | .ok retVal => .ok retVal

def get (hooks : QueryHooks T V) (set : Mem T V → Rows R → Result Unit × Mem T V) (zero : Mem T V)
    (s : Selector) (session : Query → Except String (Cursor R)) : Fetched (Mem T V) :=
  getHandler hooks set zero ((Statement.selector s).build 0).1 session

/-- What the rows and their end say. -/
def Cursor.single (set : Mem T V → Rows R → Result Unit × Mem T V) (zero : Mem T V)
    (cursor : Cursor R) : Fetched (Mem T V) :=
  match cursor.rows, cursor.err with
  | [], none => .error .noRows
  | [], some cause => .error (.iteration cause)
  | row :: rest, err =>
    match set zero row with
    | (.error err, _) => .error (.valuer err)
    | (.panic, _) => .panic
    | (.ok (), retVal) =>
      match rest, err with
      | _ :: _, _ => .error .tooManyRows
      | [], some cause => .error (.iteration cause)
      | [], none => .ok retVal

/-- `Get` says what its rows say, unless they end with an error before a second row. -/
theorem get_classifies_iff [DecidableEq T] (sql : Sql T V R) (typ : StructType T)
    (meta_ : Model T) (creator : ValCreator) (zero : Mem T V) (s : Selector)
    (session : Query → Except String (Cursor R)) (query : Query) (cursor : Cursor R)
    (built : ((Statement.selector s).build 0).1 = .ok query)
    (answered : session query = .ok cursor) :
    get {} (setColumns sql typ meta_ creator) zero s session =
        cursor.single (setColumns sql typ meta_ creator) zero ↔
      cursor.err = none ∨ 2 ≤ cursor.rows.length ∨
        ∃ row ∈ cursor.rows.head?, (setColumns sql typ meta_ creator zero row).1 ≠ .ok () := by
  obtain ⟨rows, err⟩ := cursor
  simp only [get, getHandler, built, answered, Cursor.single]
  cases rows with
  | nil => cases err <;> simp
  | cons row rest =>
    rcases outcome : setColumns sql typ meta_ creator zero row with ⟨res, retVal⟩
    cases res with
    | error => simp [outcome]
    | panic => simp [outcome]
    | ok => cases rest <;> cases err <;> simp [outcome]

def selectUsers : Selector where
  builder :=
    { r := fun _ => .ok ⟨"user", fun _ => none, [], none, none, none, none⟩, quoter := 'q' }
  entity := "User"

def getUser (rows : List (Rows (Option Int))) (err : Option String) : Fetched (Mem Unit Int) :=
  get {} (setColumns scanInt user.toStructType {} .unsafeValue) (fun _ _ => 0) selectUsers
    fun _ => .ok ⟨rows, err⟩

theorem get_classifies_iff_row :
    getUser [⟨[], none⟩] none = Cursor.single (setColumns scanInt user.toStructType {} .unsafeValue)
      (fun _ _ => 0) ⟨[⟨[], none⟩], none⟩ :=
  (get_classifies_iff scanInt user.toStructType {} .unsafeValue (fun _ _ => 0) selectUsers _ _ _
    rfl rfl).mpr (.inl rfl)

/-- The rows end with an error. -/
theorem get_misses_error :
    getUser [] (some "driver: bad connection") = .error .noRows ∧
      getUser [⟨[], none⟩] (some "driver: bad connection") = .ok fun _ _ => 0 :=
  ⟨rfl, rfl⟩

/-! ## `RawQuerier.Query` -/

inductive Target (T V : Type) where
  | struct (m : Mem T V)
  | slice (elem : List (Mem T V))
  | other

section

variable (set : Mem T V → Rows R → Result Unit × Mem T V) (zero : Mem T V)

/-- After one `Next` that has found a row, `Err` is nil. -/
def queryStruct (m : Mem T V) (cursor : Cursor R) : Fetched Unit × Mem T V :=
  match cursor.rows, cursor.err with
  | [], some cause => (.error (.iteration cause), m)
  | [], none => (.error .noRows, m)
  | row :: _, _ =>
    match set m row with
    | (.ok (), m) => (.ok (), m)
    | (.error err, m) => (.error (.valuer err), m)
    | (.panic, m) => (.panic, m)

def querySlice (err : Option String) (elem : List (Mem T V)) :
    List (Rows R) → Fetched Unit × List (Mem T V)
  | [] => (err.elim (.ok ()) fun cause => .error (.iteration cause), elem)
  | row :: rows =>
    match set zero row with
    | (.ok (), newVal) => querySlice err (elem ++ [newVal]) rows
    | (.error e, _) => (.error (.valuer e), elem)
    | (.panic, _) => (.panic, elem)

def query (registered : Except Err (Model T)) (session : Except String (Cursor R))
    (set : Model T → Mem T V → Rows R → Result Unit × Mem T V) (zero : Mem T V) :
    Target T V → Fetched Unit × Target T V
  | .other => (.error .target, .other)
  | target =>
    match registered, session with
    | .error err, _ => (.error (.registry err), target)
    | .ok _, .error cause => (.error (.session cause), target)
    | .ok meta_, .ok cursor =>
      match target with
      | .struct m => (queryStruct (set meta_) m cursor).map id .struct
      | .slice elem => (querySlice (set meta_) zero cursor.err elem cursor.rows).map id .slice
      | .other => (.error .target, .other)

end

/-- `Scan` fails, if at all, behind columns whose values the struct holds already. -/
def Spared [DecidableEq T] (sql : Sql T V R) (meta_ : Model T) (m : Mem T V) (rows : Rows R) :
    Prop :=
  ∀ columns dests, rows.columns = .ok columns → destinations meta_ columns = .ok dests →
    ¬ meta_.columnMap.keys.length < columns.length → (∃ c ∈ dests.zip rows.row, Fails sql c) →
      ∀ offset typ v, lastFor (converted sql (dests.zip rows.row)) offset typ = some v →
        m offset typ = v

section

variable [DecidableEq T] {sql : Sql T V R} {typ : Exported T} {meta_ : Model T} {m : Mem T V}
  {rows : Rows R}

theorem unsafe_cases (sql : Sql T V R) (meta_ : Model T) (m : Mem T V) (rows : Rows R) :
    (∃ e, UnsafeValue.setColumns sql ⟨some m, meta_⟩ rows = (.error e, some m)) ∨
      ∃ columns dests, rows.columns = .ok columns ∧ destinations meta_ columns = .ok dests ∧
        ¬ meta_.columnMap.keys.length < columns.length := by
  cases named : rows.columns with
  | error => simp [UnsafeValue.setColumns, named]
  | ok columns =>
    by_cases many : meta_.columnMap.keys.length < columns.length
    · simp [UnsafeValue.setColumns, named, many]
    · cases known : destinations meta_ columns with
      | error => simp [UnsafeValue.setColumns, named, many, known]
      | ok dests => exact .inr ⟨columns, dests, rfl, known, many⟩

theorem unsafe_spares_iff : (UnsafeValue.setColumns sql ⟨some m, meta_⟩ rows).1 ≠ .panic ∧
      ((∀ e, (UnsafeValue.setColumns sql ⟨some m, meta_⟩ rows).1 = .error e →
        (UnsafeValue.setColumns sql ⟨some m, meta_⟩ rows).2.getD m = m) ↔
          Spared sql meta_ m rows) := by
  rcases unsafe_cases sql meta_ m rows with
    ⟨e, run⟩ | ⟨columns, dests, named, known, few⟩
  · refine ⟨by simp [run], fun _ columns dests named known few failing => ?_, by simp [run]⟩
    obtain ⟨res, run', -, -⟩ := unsafe_setColumns sql named known m few
    rw [run, Prod.mk.injEq, Option.some.injEq] at run'
    exact (m.setAll_eq_self _).mp run'.2.symm
  · obtain ⟨res, run, fails, succeeds⟩ := unsafe_setColumns sql named known m few
    have spared : Spared sql meta_ m rows ↔ ((∃ c ∈ dests.zip rows.row, Fails sql c) →
        m.setAll (converted sql (dests.zip rows.row)) = m) := by
      simp only [Spared, named, Except.ok.injEq, Mem.setAll_eq_self]
      constructor
      · exact fun spared => spared columns dests rfl known few
      · rintro spared _ _ rfl known' -
        cases known.symm.trans known'
        exact spared
    rw [run, spared]
    by_cases failing : ∃ c ∈ dests.zip rows.row, Fails sql c
    · obtain ⟨e, rfl⟩ := fails failing
      simp only [failing, forall_const, Option.getD_some]
      exact ⟨by simp, fun spares => spares e rfl, fun same _ _ => same⟩
    · rw [succeeds failing]
      exact ⟨by simp, fun _ here => absurd here failing, by simp⟩

theorem reflect_spares (describes : meta_.Describes typ.fields) :
    (ReflectValue.setColumns sql ⟨typ.toStructType, some m, meta_⟩ rows).1 ≠ .panic ∧
      ∀ e, (ReflectValue.setColumns sql ⟨typ.toStructType, some m, meta_⟩ rows).1 = .error e →
        (ReflectValue.setColumns sql ⟨typ.toStructType, some m, meta_⟩ rows).2.getD m = m := by
  cases named : rows.columns with
  | error => simp [ReflectValue.setColumns, named]
  | ok columns =>
    cases known : destinations meta_ columns with
    | error => simp [ReflectValue.setColumns, named, known]
    | ok dests =>
      obtain ⟨fails, succeeds⟩ := reflect_setColumns sql named known describes (some m)
      by_cases failing : ∃ c ∈ dests.zip rows.row, Fails sql c
      · obtain ⟨e, run⟩ := fails failing
        simp [run]
      · simp [succeeds failing]

end

structure Spares (set : Mem T V → Rows R → Result Unit × Mem T V) (zero : Mem T V)
    (cursor : Cursor R) (target : Target T V) (out : Fetched Unit × Target T V) : Prop where
  error : ∀ e, out.1 = .error e → out.2 = target
  rows : out.1 = .ok () → ∀ elem, target = .slice elem →
    out.2 = .slice (elem ++ cursor.rows.map fun row => (set zero row).2)

section

variable {set : Mem T V → Rows R → Result Unit × Mem T V} {zero : Mem T V}

theorem querySlice_eq (safe : ∀ row, (set zero row).1 ≠ .panic) (err : Option String)
    (elem : List (Mem T V)) (rows : List (Rows R)) : (querySlice set zero err elem rows).2 = elem ++
        (rows.takeWhile fun row => (set zero row).1 = .ok ()).map (fun row => (set zero row).2) ∧
      (querySlice set zero err elem rows).1 ≠ .panic ∧
      ((querySlice set zero err elem rows).1 = .ok () ↔
        err = none ∧ ∀ row ∈ rows, (set zero row).1 = .ok ()) := by
  induction rows generalizing elem with
  | nil => cases err <;> simp [querySlice]
  | cons row rows ih =>
    have safe := safe row
    rcases outcome : set zero row with ⟨res, newVal⟩
    rw [outcome] at safe
    cases res with
    | ok => simpa [querySlice, outcome] using ih (elem ++ [newVal])
    | error => simp [querySlice, outcome]
    | panic => exact absurd rfl safe

theorem querySlice_spares_iff (safe : ∀ row, (set zero row).1 ≠ .panic) (cursor : Cursor R)
    (elem : List (Mem T V)) : Spares set zero cursor (.slice elem)
        ((querySlice set zero cursor.err elem cursor.rows).map id .slice) ↔
      (∀ row ∈ cursor.rows.head?, (set zero row).1 ≠ .ok ()) ∨
        cursor.err = none ∧ ∀ row ∈ cursor.rows, (set zero row).1 = .ok () := by
  obtain ⟨appended, calm, succeeds⟩ := querySlice_eq safe cursor.err elem cursor.rows
  have first : cursor.rows.takeWhile (fun row => (set zero row).1 = .ok ()) = [] ↔
      ∀ row ∈ cursor.rows.head?, (set zero row).1 ≠ .ok () := by
    cases cursor.rows <;> simp
  rw [← first, ← succeeds]
  constructor
  · intro spares
    cases res : (querySlice set zero cursor.err elem cursor.rows).1 with
    | ok => exact .inr rfl
    | panic => exact absurd res calm
    | error e =>
      have same := appended.symm.trans (Target.slice.inj (spares.error e res))
      exact .inl (by simpa using same)
  · intro spareable
    refine ⟨fun e res => ?_, fun ok _ same => ?_⟩
    · rcases spareable with none_ | ok
      · rw [none_, map_nil, append_nil] at appended
        exact congrArg _ appended
      · cases ok.symm.trans res
    · cases same
      have all : cursor.rows.takeWhile (fun row => (set zero row).1 = .ok ()) = cursor.rows :=
        takeWhile_eq_self_iff.mpr fun row inside => by simp [(succeeds.mp ok).2 row inside]
      rw [all] at appended
      exact congrArg _ appended

theorem queryStruct_spares_iff (safe : ∀ m row, (set m row).1 ≠ .panic) (cursor : Cursor R)
    (m : Mem T V) : Spares set zero cursor (.struct m) ((queryStruct set m cursor).map id .struct) ↔
      ∀ row ∈ cursor.rows.head?, ∀ e, (set m row).1 = .error e → (set m row).2 = m := by
  obtain ⟨rows, err⟩ := cursor
  cases rows with
  | nil => exact ⟨fun _ => by simp, fun _ => ⟨fun _ _ => by cases err <;> rfl, by simp⟩⟩
  | cons row =>
    have safe := safe m row
    simp only [queryStruct, head?_cons, Option.mem_def, Option.some.injEq, forall_eq']
    rcases outcome : set m row with ⟨res, m'⟩
    rw [outcome] at safe
    cases res with
    | ok => exact ⟨by simp, fun _ => ⟨by simp, by simp⟩⟩
    | error e =>
      exact ⟨fun spares _ _ => Target.struct.inj (spares.error _ rfl),
        fun same => ⟨fun _ _ => congrArg _ (same e rfl), by simp⟩⟩
    | panic => exact absurd rfl safe

end

def Spareable [DecidableEq T] (sql : Sql T V R) (meta_ : Model T) (creator : ValCreator)
    (set : Mem T V → Rows R → Result Unit × Mem T V) (zero : Mem T V) (cursor : Cursor R) :
    Target T V → Prop
  | .struct m => creator = .reflectValue ∨ ∀ row ∈ cursor.rows.head?, Spared sql meta_ m row
  | .slice _ => (∀ row ∈ cursor.rows.head?, (set zero row).1 ≠ .ok ()) ∨
      cursor.err = none ∧ ∀ row ∈ cursor.rows, (set zero row).1 = .ok ()
  | .other => True

def queryUsers (creator : ValCreator) (rows : List (List (String × Option Int)))
    (target : Target Unit Int) : Option (Fetched Unit × Target Unit Int) :=
  registerUser.toOption.map fun meta_ => query (.ok meta_) (.ok ⟨rows.map (⟨·, none⟩), none⟩)
    (fun meta_ => setColumns scanInt user.toStructType meta_ creator) (fun _ _ => 0) target

def Target.ids : Target Unit Int → List Int
  | .struct m => [m 0 ()]
  | .slice elem => elem.map (· 0 ())
  | .other => []

end Soil.Orm.Struct

namespace Soil.Orm

open List

/-! ## Pages -/

def Selector.withLimit (s : Selector) (limit : Int) : Selector := { s with limit }

def Selector.withOffset (s : Selector) (offset : Int) : Selector := { s with offset }

def Selector.paginate (s : Selector) (page size : Int) : Selector :=
  let page := if page < 1 then 1 else page
  let size := if size ≤ 0 then 10 else size
  { s with limit := size, offset := ((page - 1) * size).bmod (2 ^ 64) }

/-- The rows that the end of a query leaves of those before it. -/
def window {α : Type} (query : List Tok) (rows : List α) : List α :=
  match query.reverse with
  | .kw .semicolon :: .ph (.int offset) :: .kw .offset :: .ph (.int limit) :: .kw .limit :: _ =>
    (rows.drop offset.toNat).take limit.toNat
  | .kw .semicolon :: .ph (.int limit) :: .kw .limit :: _ => rows.take limit.toNat
  | .kw .semicolon :: .ph (.int offset) :: .kw .offset :: .kw .limitMax :: _ =>
    (rows.drop offset.toNat).take 18446744073709551615
  | _ => rows

theorem Selector.window_tokens {α : Type} (s : Selector) (limited : 0 < s.limit)
    (start : List Tok) (r : Registry) (m : Model) (rows : List α) :
    window (start ++ s.tokens r m) rows = (rows.drop s.offset.toNat).take s.limit.toNat := by
  by_cases offset : 0 < s.offset
  · simp [window, tokens, tailTokens, limitTokens, offsetTokens, limited, offset]
  · have none_ : s.offset.toNat = 0 := by omega
    simp [window, tokens, tailTokens, limitTokens, offsetTokens, limited, offset, none_]

def pageNumber (page : Int) : Int := Max.max page 1

def pageSize (size : Int) : Int := if 0 < size then size else 10

/-- A page is the one asked for if its offset is an `int`. -/
theorem Selector.paginate_selects_iff (s : Selector) (page size : Int) (b : Builder)
    (built : (s.paginate page size).build = .ok b) :
    ((∀ (α : Type) (rows : List α), window b.sql rows =
        (rows.drop ((pageNumber page - 1) * pageSize size).toNat).take (pageSize size).toNat) ∧
      ((pageNumber page - 1) * pageSize size < 2 ^ 63 → (s.paginate page size).build =
        ((s.withLimit (pageSize size)).withOffset ((pageNumber page - 1) * pageSize size)).build)) ↔
      (pageNumber page - 1) * pageSize size < 2 ^ 63 := by
  have number : (if page < 1 then 1 else page) = pageNumber page := by
    unfold pageNumber
    split <;> omega
  have length : (if size ≤ 0 then 10 else size) = pageSize size := by
    unfold pageSize
    split <;> split <;> omega
  have positive : 0 < pageSize size := by
    unfold pageSize
    split <;> omega
  have first : 0 ≤ (pageNumber page - 1) * pageSize size :=
    Int.mul_nonneg (by unfold pageNumber; omega) positive.le
  have paged : s.paginate page size = (s.withLimit (pageSize size)).withOffset
      (((pageNumber page - 1) * pageSize size).bmod (2 ^ 64)) := by
    rw [← number, ← length]
    rfl
  replace built : (Statement.selector (s.paginate page size)).run 0 = .ok b := built
  obtain ⟨m, -, -, rfl⟩ := Statement.run_eq_ok _ built
  have selected (α : Type) (rows : List α) :=
    (s.paginate page size).window_tokens (by rw [paged]; exact positive) s.builder.sql
      s.builder.r m rows
  generalize (pageNumber page - 1) * pageSize size = offset at *
  constructor
  · rintro ⟨right, -⟩
    by_contra wide
    have bound := Int.bmod_lt (x := offset) (m := 2 ^ 64) (by decide)
    have wrong := (selected Unit (replicate ((offset.bmod (2 ^ 64)).toNat + 1) ())).symm.trans
      (right Unit _)
    rw [paged] at wrong
    have lengths := congrArg List.length wrong
    generalize offset.bmod (2 ^ 64) = wrapped at bound lengths
    simp only [withLimit, withOffset, length_take, length_drop, length_replicate] at lengths
    omega
  · intro small
    have same : offset.bmod (2 ^ 64) = offset := by
      rw [Int.bmod_eq_of_le] <;> omega
    rw [same] at paged
    refine ⟨fun α rows => ?_, fun _ => by rw [paged]⟩
    rw [paged] at selected
    exact paged ▸ selected α rows

theorem Selector.paginate_selects_iff_second :
    ∃ b, (Struct.selectUsers.paginate 2 10).build = .ok b ∧
      ∀ (α : Type) (rows : List α), window b.sql rows = (rows.drop 10).take 10 :=
  ⟨_, rfl, ((Selector.paginate_selects_iff Struct.selectUsers 2 10 _ rfl).mpr (by decide)).1⟩

/-- The offset of this page is 2 ^ 64, and its rows are those of the first. -/
theorem Selector.paginate_wraps :
    ∃ b, (Struct.selectUsers.paginate (2 ^ 62 + 1) 4).build = .ok b ∧
      window b.sql [0, 1] = [0, 1] :=
  ⟨_, rfl, by decide⟩

end Soil.Orm
