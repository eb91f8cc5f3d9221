import Soil.Orm.Denotation
import Soil.Orm.Exec

/-!
# What the statement builders write

`known` and `tokens` of the four statement builders, assembled from those of their
parts, and what `Build` does in terms of them.
-/

namespace Soil.Orm

open List Appends Except

open Sql

variable {r : Registry} {m : Model} {b : Builder}

/-! ## SELECT -/

namespace Selector

variable (s : Selector)

def limitTokens : List Tok :=
  if 0 < s.limit then [.kw .limit, .ph (.int s.limit)]
  else if 0 < s.offset then [.kw .limitMax]
  else []

def offsetTokens : List Tok :=
  if 0 < s.offset then [.kw .offset, .ph (.int s.offset)] else []

theorem buildLimit_eq_emit (b : Builder) : s.buildLimit b = emit b s.limitTokens := by
  unfold buildLimit limitTokens
  split
  · exact addArgs_eq_emit rfl b
  · split
    · exact write_eq_emit rfl b
    · exact (emit_nil b).symm

theorem buildOffset_eq_emit (b : Builder) : s.buildOffset b = emit b s.offsetTokens := by
  unfold buildOffset offsetTokens
  split
  · exact addArgs_eq_emit rfl b
  · exact (emit_nil b).symm

def known (r : Registry) (m : Model) : Bool :=
  s.columns.all (Selectable.known r m) && s.table.known r m && clauseKnown r m s.where_ &&
    s.groupBy.all (Column.known r m) && clauseKnown r m s.having &&
    s.orderBy.all fun o => (col o.col).known r m

def tailTokens (r : Registry) (m : Model) : List Tok :=
  (if s.groupBy ≠ [] then
    [.kw .groupBy] ++ sepTokens [.kw .comma] (Column.tokens r m) s.groupBy else []) ++
  clauseTokens r m .having s.having ++
  (if s.orderBy ≠ [] then
    [.kw .orderBy] ++ sepTokens [.kw .comma] (OrderBy.tokens r m) s.orderBy else []) ++
  s.limitTokens ++ s.offsetTokens ++ [.kw .semicolon]

def tokens (r : Registry) (m : Model) : List Tok :=
  [.kw .select] ++ columnsTokens r m s.columns ++ [.kw .from_] ++ s.table.tokens r m ++
    softDeleteTokens r m s.where_ ++ s.tailTokens r m

theorem buildTail_writes :
    Writes r m (s.groupBy.all (Column.known r m) && (clauseKnown r m s.having &&
      s.orderBy.all fun o => (col o.col).known r m)) s.buildTail (s.tailTokens r m) := by
  have groupBy := buildIf_writes (c := s.groupBy ≠ []) fun _ =>
    (buildSep_writes (r := r) (m := m) [.kw .comma] rfl buildColumn_writes
      s.groupBy).after [.kw .groupBy] rfl
  have orderBy := buildIf_writes (c := s.orderBy ≠ []) fun _ =>
    (buildOrderBy_writes (r := r) (m := m) s.orderBy).after [.kw .orderBy] rfl
  have last (b : Builder) : (s.buildOffset (s.buildLimit b)).write [.kw .semicolon] =
      emit b (s.limitTokens ++ s.offsetTokens ++ [.kw .semicolon]) := by
    rw [buildLimit_eq_emit, buildOffset_eq_emit, write_eq_emit rfl, emit_append, emit_append]
  have whole := groupBy.bind ((buildClause_writes .having s.having).bind (before orderBy last))
  refine cast (congr whole fun b _ => rfl) ?_ ?_
  · rw [all_of_ne_nil, all_of_ne_nil]
  · simp [tailTokens]

theorem body_writes : Writes r m (s.known r m)
      (fun b => s.buildHead b >>= fun b => buildWhereWithSoftDelete b s.where_ >>= s.buildTail)
      (s.tokens r m) := by
  have head := ((buildColumns_writes s.columns).after [.kw .select] rfl).bind
    ((buildTable_writes (r := r) (m := m) s.table).after [.kw .from_] rfl)
  have whole := head.bind ((buildWhere_writes s.where_).bind s.buildTail_writes)
  refine cast whole ?_ ?_
  · simp [known, Bool.and_assoc]
  · simp [tokens]

end Selector

/-! ## UPDATE -/

def fieldOf (val : Option Instance) (name : String) : Option GoAny := val.bind (·.field name)

variable {val : Option Instance} {v : ValCreator} {name : String}

theorem getFieldValue_ok {x : GoAny}
    (found : fieldOf val name = some x) : getFieldValue v val m name = .ok x := by
  cases val with
  | none => cases found
  | some inst => cases v <;> simp [getFieldValue, show inst.field name = some x from found]

theorem getFieldValue_error
    (absent : fieldOf val name = none) : ∃ e, getFieldValue v val m name = .error e := by
  cases val with
  | none => cases v <;> exact ⟨_, rfl⟩
  | some inst =>
    refine ⟨.unknownField name, ?_⟩
    cases v <;> simp [getFieldValue, show inst.field name = none from absent]

def valueOf (val : Option Instance) (name : String) : GoAny := (fieldOf val name).getD .nil

theorem readField_ok (found : (fieldOf val name).isSome = true) :
    getFieldValue v val m name = .ok (valueOf val name) := by
  obtain ⟨x, found⟩ := Option.isSome_iff_exists.mp found
  rw [getFieldValue_ok found, valueOf, found]
  rfl

theorem readField_error
    (absent : (fieldOf val name).isSome = false) : ∃ e, getFieldValue v val m name = .error e :=
  getFieldValue_error (by simpa using absent)

namespace Updater

variable (u : Updater)

def assignKnown (r : Registry) (m : Model) : Assignable → Bool
  | .assignment column val => assignmentKnown r m column val
  | .column c => (fieldOf u.val c.name).isSome && (col c.name).known r m

def assignTokens (r : Registry) (m : Model) : Assignable → List Tok
  | .assignment column val => assignmentTokens r m column val
  | .column c => (col c.name).tokens r m ++ [.eqSign, .ph (valueOf u.val c.name)]

theorem buildAssign_writes (a : Assignable) :
    Writes r m (u.assignKnown r m a) (fun b => u.buildAssign m b a) (u.assignTokens r m a) := by
  cases a with
  | assignment column val => exact buildAssignment_writes column val
  | column c =>
    refine liftErr_writes id (fun _ within => within) readField_ok readField_error ?_
    exact before (buildColumn_writes (col c.name)) (addArgs_eq_emit rfl)

def setFields (m : Model) (fields : List Field) : List Field :=
  fields.filter fun field => m.versionField.map Field.goName ≠ some field.goName

variable {field : Field}

theorem setFields_cons_version (rest : List Field)
    (skipped : m.versionField.map Field.goName = some field.goName) :
    setFields m (field :: rest) = setFields m rest := by
  simp [setFields, skipped]

theorem setFields_cons (rest : List Field)
    (other : m.versionField.map Field.goName ≠ some field.goName) :
    setFields m (field :: rest) = field :: setFields m rest :=
  filter_cons_of_pos (by simpa using other)

def fieldKnown (r : Registry) (m : Model) (field : Field) : Bool :=
  (col field.goName).known r m && (fieldOf u.val field.goName).isSome

def fieldTokens (r : Registry) (m : Model) (field : Field) : List Tok :=
  (col field.goName).tokens r m ++ [.eqSign, .ph (valueOf u.val field.goName)]

def writeField (m : Model) (field : Field) (b : Builder) : Build := do
  let b ← buildColumn b (col field.goName)
  let v ← liftErr (b.write [.eqSign, .ph .nil]) (getFieldValue u.valCreator u.val m field.goName)
  .ok ((b.write [.eqSign, .ph v]).addArgs [v])

theorem writeField_writes (field : Field) :
    Writes r m (u.fieldKnown r m field) (u.writeField m field) (u.fieldTokens r m field) := by
  refine (buildColumn_writes (col field.goName)).bind ?_
  refine cast (liftErr_writes (fun b => b.write [.eqSign, .ph .nil])
    (fun b within => within.write _) readField_ok readField_error
    (emits fun b => ?_)) (Bool.and_true _) rfl
  exact congrArg _ (addArgs_eq_emit rfl b)

theorem buildField_eq (b : Builder) (first : Bool) (field : Field) :
    u.buildField m (b, first) field =
      if m.versionField.map Field.goName = some field.goName then .ok (b, first)
      else u.writeField m field (if first then b else b.write [.kw .comma]) >>=
        fun b => .ok (b, false) := by
  simp only [buildField, writeField, bind_assoc]
  rfl

def restTokens (r : Registry) (m : Model) (first : Bool) (fields : List Field) : List Tok :=
  if first then sepTokens [.kw .comma] (u.fieldTokens r m) fields
  else fields.flatMap fun field => [.kw .comma] ++ u.fieldTokens r m field

theorem restTokens_cons (first : Bool) (field : Field) (rest : List Field) :
    u.restTokens r m first (field :: rest) =
      (if first then [] else [.kw .comma]) ++ u.fieldTokens r m field ++
        u.restTokens r m false rest := by
  cases first <;> simp [restTokens, sepTokens]

theorem buildFields_ok (fields : List Field) (first : Bool) (within : Within r m b)
    (known : (setFields m fields).all (u.fieldKnown r m) = true) :
    fields.foldlM (u.buildField m) (b, first) =
      .ok (emit b (u.restTokens r m first (setFields m fields)),
        first && (setFields m fields).isEmpty) := by
  induction fields generalizing b first with
  | nil => cases first <;> simp [setFields, restTokens, sepTokens, pure, Except.pure]
  | cons field rest ih =>
    rw [foldlM_cons, buildField_eq]
    by_cases skipped : m.versionField.map Field.goName = some field.goName
    · rw [setFields_cons_version rest skipped] at known ⊢
      rw [if_pos skipped]
      exact ih first within known
    · rw [setFields_cons rest skipped, all_cons, Bool.and_eq_true] at known
      rw [setFields_cons rest skipped, if_neg skipped, restTokens_cons, separator_eq_emit,
        (u.writeField_writes field).ok known.1 (within_stable _ _ within), emit_append, emit_append]
      refine (ih false (within_stable _ _ (within_stable _ _ within)) known.2).trans ?_
      simp

theorem buildFields_fails (fields : List Field) (first : Bool)
    (within : Within r m b) (unknown : (setFields m fields).all (u.fieldKnown r m) = false) :
    ∃ e b', fields.foldlM (u.buildField m) (b, first) = .error (e, b') ∧ Within r m b' := by
  induction fields generalizing b first with
  | nil => cases unknown
  | cons field rest ih =>
    rw [foldlM_cons, buildField_eq]
    by_cases skipped : m.versionField.map Field.goName = some field.goName
    · rw [setFields_cons_version rest skipped] at unknown
      rw [if_pos skipped]
      exact ih first within unknown
    have inside := within_stable b (if first then [] else [.kw .comma]) within
    rw [if_neg skipped, separator_eq_emit]
    cases known : u.fieldKnown r m field with
    | false =>
      obtain ⟨e, b', failed, kept⟩ := (u.writeField_writes field).fails known inside
      exact ⟨e, b', by rw [failed]; rfl, kept⟩
    | true =>
      rw [setFields_cons rest skipped, all_cons, known, Bool.true_and] at unknown
      rw [(u.writeField_writes field).ok known inside]
      exact ih false (within_stable _ _ inside) unknown

def incrementTokens (m : Model) : List Tok :=
  match m.versionField with
  | none => []
  | some version =>
    if u.val.isSome ∧ !u.versionColumnExplicitlySet version then
      .kw .comma :: incrementVersion version
    else []

def fullIncrementTokens (m : Model) : List Tok :=
  match m.versionField with
  | none => []
  | some version =>
    (if (setFields m m.fields).isEmpty then [] else [.kw .comma]) ++ incrementVersion version

def setKnown (r : Registry) (m : Model) : Bool :=
  if u.assigns ≠ [] then u.assigns.all (u.assignKnown r m)
  else u.val.isSome && (setFields m m.fields).all (u.fieldKnown r m)

def setTokens (r : Registry) (m : Model) : List Tok :=
  if u.assigns ≠ [] then
    [.kw .set] ++ sepTokens [.kw .comma] (u.assignTokens r m) u.assigns ++ u.incrementTokens m
  else
    [.kw .set] ++ sepTokens [.kw .comma] (u.fieldTokens r m) (setFields m m.fields) ++
      fullIncrementTokens m

theorem writeIncrement_eq_emit (m : Model) (b : Builder) :
    (match m.versionField with
      | some version =>
        if u.val.isSome ∧ !u.versionColumnExplicitlySet version then
          ok (b.write (.kw .comma :: incrementVersion version))
        else .ok b
      | none => .ok b : Build) = .ok (emit b (u.incrementTokens m)) := by
  unfold incrementTokens
  cases m.versionField with
  | none => exact congrArg _ (emit_nil b).symm
  | some =>
    dsimp only
    split
    · exact congrArg _ (write_eq_emit rfl b)
    · exact congrArg _ (emit_nil b).symm

theorem writeFullIncrement_eq_emit (m : Model) (b : Builder) :
    (match m.versionField with
      | some version =>
        ok (b.write ((if (setFields m m.fields).isEmpty then [] else [.kw .comma]) ++
          incrementVersion version))
      | none => .ok b : Build) = .ok (emit b (fullIncrementTokens m)) := by
  unfold fullIncrementTokens
  cases m.versionField with
  | none => exact congrArg _ (emit_nil b).symm
  | some =>
    refine congrArg _ (write_eq_emit ?_ b)
    split <;> rfl

theorem buildSet_writes : Writes r m (u.setKnown r m) (u.buildSet m) (u.setTokens r m) := by
  unfold setKnown setTokens
  split
  case isTrue some_ =>
    have assigns := (buildSep_writes [.kw .comma] rfl (u.buildAssign_writes (r := r) (m := m))
      u.assigns).after [.kw .set] rfl
    refine cast (congr (assigns.bind
      (emits (u.writeIncrement_eq_emit m))) fun b _ => ?_) (Bool.and_true _) rfl
    exact if_pos some_
  case isFalse none_ =>
    have none_ : u.assigns = [] := not_not.mp none_
    cases given : u.val with
    | none =>
      refine failure fun b within => ⟨.noUpdate, b, ?_, within⟩
      simp [buildSet, none_, given]
    | some =>
      have run (b : Builder) : u.buildSet m b =
          m.fields.foldlM (u.buildField m) (b.write [.kw .set], true) >>= fun state =>
            match m.versionField with
            | some version =>
              .ok (state.1.write ((if state.2 then [] else [.kw .comma]) ++
                incrementVersion version))
            | none => .ok state.1 := by
        exact (if_neg (not_not.mpr none_)).trans (if_neg (by simp [given]))
      refine ⟨fun known b within => ?_, fun unknown b within => ?_⟩
      · rw [run, u.buildFields_ok m.fields true (within.write _) known]
        refine (writeFullIncrement_eq_emit m _).trans ?_
        rw [write_eq_emit rfl, ← emit_append, ← emit_append]
        rfl
      · obtain ⟨e, b', failed, kept⟩ :=
          u.buildFields_fails m.fields true (within.write [.kw .set]) unknown
        exact ⟨e, b', by rw [run, failed]; rfl, kept⟩

end Updater

def versionKnown (val : Instance) (field : Field) : Bool :=
  match val.field field.goName with
  | some (.int _) => true
  | some (.uint _) => true
  | _ => false

def versionOf (val : Instance) (field : Field) : Int :=
  match val.field field.goName with
  | some (.int i) => i
  | some (.uint n) => toInt64 n
  | _ => 0

theorem readVersion_ok {val : Instance} (known : versionKnown val field = true) :
    readVersionFromVal val field = .ok (versionOf val field) := by
  unfold versionKnown at known
  split at known
  case h_1 i found => simp [readVersionFromVal, versionOf, found]
  case h_2 n found => simp [readVersionFromVal, versionOf, found]
  case h_3 => cases known

theorem readVersion_error {val : Instance}
    (unknown : versionKnown val field = false) : ∃ e, readVersionFromVal val field = .error e := by
  unfold versionKnown at unknown
  unfold readVersionFromVal
  split
  · exact ⟨_, rfl⟩
  · simp_all
  · simp_all
  · exact ⟨_, rfl⟩

namespace Updater

variable (u : Updater)

def guardKnown (m : Model) : Bool :=
  match m.versionField, u.val with
  | some version, some val => versionKnown val version
  | _, _ => true

def guardTokens (m : Model) : List Tok :=
  match m.versionField, u.val with
  | some version, some val =>
    [if m.deletedAtField.isSome ∨ u.where_ ≠ [] then .and else .kw .where_,
      .ident version.colName, .eqSign, .ph (.int (versionOf val version))]
  | _, _ => []

theorem buildVersionGuard_writes :
    Writes r m (u.guardKnown m) (u.buildVersionGuard m) (u.guardTokens m) := by
  unfold guardKnown guardTokens
  cases version : m.versionField with
  | none =>
    refine emits fun b => ?_
    rw [buildVersionGuard, version, emit_nil]
  | some field =>
    cases given : u.val with
    | none =>
      refine emits fun b => ?_
      rw [buildVersionGuard, version, given, emit_nil]
    | some val =>
      let sep : Tok := if m.deletedAtField.isSome ∨ u.where_ ≠ [] then .and else .kw .where_
      have plain : [sep].flatMap tokArgs = [] := by
        simp only [sep]
        split <;> rfl
      have check : Writes r m (versionKnown val field && true)
          (fun b => liftErr (b.write [.ident field.colName, .eqSign, .ph .nil])
            (readVersionFromVal val field) >>= fun v =>
              .ok ((b.write [.ident field.colName, .eqSign, .ph (.int v)]).addArgs [.int v]))
          [.ident field.colName, .eqSign, .ph (.int (versionOf val field))] :=
        liftErr_writes _ (fun b within => within.write _) readVersion_ok readVersion_error
          (emits fun b => congrArg _ (addArgs_eq_emit rfl b))
      refine cast (congr (check.after [sep] plain) fun b _ => ?_) (Bool.and_true _) rfl
      simp only [buildVersionGuard, version, given]
      rfl

def known (r : Registry) (m : Model) : Bool :=
  u.setKnown r m && clauseKnown r m u.where_ && u.guardKnown m

def tokens (r : Registry) (m : Model) : List Tok :=
  [.kw .update, .ident m.tableName] ++ u.setTokens r m ++ softDeleteTokens r m u.where_ ++
    u.guardTokens m ++ [.kw .semicolon]

theorem body_writes : Writes r m (u.known r m)
      (fun b => u.buildSet m (b.write [.kw .update, .ident m.tableName]) >>= fun b =>
        buildWhereWithSoftDelete b u.where_ >>= fun b =>
          u.buildVersionGuard m b >>= fun b => .ok (b.write [.kw .semicolon])) (u.tokens r m) := by
  have set := u.buildSet_writes (r := r) (m := m) |>.after [.kw .update, .ident m.tableName] rfl
  have whole := set.bind ((buildWhere_writes u.where_).bind
    (u.buildVersionGuard_writes.before [.kw .semicolon] rfl))
  refine cast whole ?_ ?_
  · simp [known, Bool.and_assoc]
  · simp [tokens]

end Updater

/-! ## DELETE -/

namespace Deleter

variable (d : Deleter)

def tokens (r : Registry) (m : Model) (now : Int) : List Tok :=
  match m.deletedAtField with
  | some deletedAt =>
    .kw .update :: d.tableTokens m ++
      [.kw .set, .ident deletedAt.colName, .eqSign, .ph (.time now)] ++
      softDeleteTokens r m d.where_ ++ [.kw .semicolon]
  | none =>
    .kw .deleteFrom :: d.tableTokens m ++ clauseTokens r m .where_ d.where_ ++ [.kw .semicolon]

theorem tableTokens_args (m : Model) : (d.tableTokens m).flatMap tokArgs = [] := by
  unfold tableTokens
  split <;> rfl

theorem softDelete_writes (deletedAt : Field) (now : Int) :
    Writes r m (clauseKnown r m d.where_) (d.buildSoftDelete m deletedAt now)
      (.kw .update :: d.tableTokens m ++
        [.kw .set, .ident deletedAt.colName, .eqSign, .ph (.time now)] ++
        softDeleteTokens r m d.where_ ++ [.kw .semicolon]) := by
  have bound : (.kw .update :: d.tableTokens m ++
      [.kw .set, .ident deletedAt.colName, .eqSign, .ph (.time now)] : List Tok).flatMap tokArgs =
      [.time now] := by
    simp [d.tableTokens_args, tokArgs]
  exact before
    (after within_stable (addArgs_eq_emit bound) (buildWhere_writes d.where_))
    (write_eq_emit rfl)

theorem hardDelete_writes : Writes r m (clauseKnown r m d.where_)
      (fun b => buildIf (d.where_ ≠ []) (fun b => buildPredicates (b.write [.kw .where_]) d.where_)
        (b.write (.kw .deleteFrom :: d.tableTokens m)) >>= fun b => .ok (b.write [.kw .semicolon]))
      (.kw .deleteFrom :: d.tableTokens m ++ clauseTokens r m .where_ d.where_ ++
        [.kw .semicolon]) :=
  ((buildClause_writes .where_ d.where_).after (.kw .deleteFrom :: d.tableTokens m)
    (by simp [d.tableTokens_args, tokArgs])).before [.kw .semicolon] rfl

end Deleter

/-! ## INSERT -/

namespace Dialect

variable (d : Dialect)

def assignsKnown (r : Registry) (m : Model) : List Assignable → Bool
  | [] => true
  | .assignment column val :: _ => assignmentKnown r m column val
  | .column c :: rest => (m.fieldMap c.name).isSome && assignsKnown r m rest

def assignsTokens (r : Registry) (m : Model) : Bool → List Assignable → List Tok
  | _, [] => []
  | first, .assignment column val :: _ =>
    (if first then [] else [.kw .comma]) ++ assignmentTokens r m column val
  | first, .column c :: rest =>
    (if first then [] else [.kw .comma]) ++
      (match m.fieldMap c.name with
        | none => []
        | some field => d.columnTokens field) ++ assignsTokens r m false rest

theorem columnTokens_args (field : Field) : (d.columnTokens field).flatMap tokArgs = [] := by
  cases d <;> rfl

theorem buildAssigns_writes (first : Bool) (assigns : List Assignable) :
    Writes r m (assignsKnown r m assigns) (fun b => d.buildAssigns first b assigns)
      (d.assignsTokens r m first assigns) := by
  induction assigns generalizing first with
  | nil => exact skip
  | cons assign rest ih =>
    cases assign with
    | assignment column val =>
      exact after within_stable (separator_eq_emit first) (buildAssignment_writes column val)
    | column c =>
      rw [assignsKnown, assignsTokens, append_assoc]
      cases found : m.fieldMap c.name with
      | none =>
        refine failure fun b within => ⟨.unknownField c.name, _, ?_,
          within_stable b (if first then [] else [.kw .comma]) within⟩
        simp [buildAssigns, separator_eq_emit, within.model, found]
      | some field =>
        have step := (ih false).after (d.columnTokens field) (d.columnTokens_args field)
        refine congr (after within_stable (separator_eq_emit first) step) fun b within => ?_
        simp [buildAssigns, separator_eq_emit, within.model, found]

def upsertKnown (r : Registry) (m : Model) (upsert : Upsert) : Bool :=
  match d with
  | .mysql => assignsKnown r m upsert.assigns
  | .sqlite =>
    (upsert.conflictColumns.map col).all (Column.known r m) && assignsKnown r m upsert.assigns

def upsertTokens (r : Registry) (m : Model) (upsert : Upsert) : List Tok :=
  match d with
  | .mysql => [.kw .onDuplicateKey] ++ d.assignsTokens r m true upsert.assigns
  | .sqlite =>
    [.kw .onConflict, .lpar] ++
      sepTokens [.kw .comma] (Column.tokens r m) (upsert.conflictColumns.map col) ++
      ([.rpar, .kw .doUpdateSet] ++ d.assignsTokens r m true upsert.assigns)

theorem buildUpsert_writes (upsert : Upsert) :
    Writes r m (d.upsertKnown r m upsert) (fun b => d.buildUpsert b upsert)
      (d.upsertTokens r m upsert) := by
  cases d with
  | mysql => exact (Dialect.mysql.buildAssigns_writes true upsert.assigns).after _ rfl
  | sqlite =>
    have columns := buildSep_writes (r := r) (m := m) [.kw .comma] rfl buildColumn_writes
      (upsert.conflictColumns.map col)
    exact (columns.after [.kw .onConflict, .lpar] rfl).bind
      ((Dialect.sqlite.buildAssigns_writes true upsert.assigns).after [.rpar, .kw .doUpdateSet] rfl)

/-! ### Every assignment -/

def assignTokens (r : Registry) (m : Model) : Assignable → List Tok
  | .assignment column val => assignmentTokens r m column val
  | .column c =>
    match m.fieldMap c.name with
    | none => []
    | some field => d.columnTokens field

def clauseStart (r : Registry) (m : Model) (upsert : Upsert) : List Tok :=
  match d with
  | .mysql => [.kw .onDuplicateKey]
  | .sqlite =>
    [.kw .onConflict, .lpar] ++
      sepTokens [.kw .comma] (Column.tokens r m) (upsert.conflictColumns.map col) ++
      [.rpar, .kw .doUpdateSet]

def isColumn : Assignable → Bool
  | .assignment .. => false
  | .column _ => true

theorem assignsTokens_eq_iff (first : Bool) (assign : Assignable) (rest : List Assignable) :
    d.assignsTokens r m first (assign :: rest) = (if first then [] else [.kw .comma]) ++
        d.assignTokens r m assign ++ rest.flatMap ([.kw .comma] ++ d.assignTokens r m ·) ↔
      ∀ a ∈ (assign :: rest).dropLast, isColumn a = true := by
  induction rest generalizing first assign with
  | nil => cases assign <;> simp [assignsTokens, assignTokens]
  | cons next rest ih =>
    cases assign with
    | assignment column val => simp [assignsTokens, assignTokens, isColumn]
    | column c =>
      have later := ih false next
      simp only [if_false, Bool.false_eq_true] at later
      rw [assignsTokens, dropLast_cons_cons, forall_mem_cons, ← later, flatMap_cons]
      simp [assignTokens, isColumn]

/-- The clause has all assignments of the list iff only the last is an `Assignment`. -/
theorem upsert_complete_iff (d : Dialect) (r : Registry) (m : Model) (upsert : Upsert)
    (known : d.upsertKnown r m upsert = true) (b : Builder) (within : Within r m b) :
    d.buildUpsert b upsert = .ok (emit b (d.clauseStart r m upsert ++
        sepTokens [.kw .comma] (d.assignTokens r m) upsert.assigns)) ↔
      ∀ a ∈ upsert.assigns.dropLast, isColumn a = true := by
  have written := (d.buildUpsert_writes upsert).ok known within
  have tokens : d.upsertTokens r m upsert =
      d.clauseStart r m upsert ++ d.assignsTokens r m true upsert.assigns := by
    cases d <;> simp [upsertTokens, clauseStart]
  rw [written, tokens, ok.injEq]
  have cancel {ts us : List Tok} : emit b ts = emit b us ↔ ts = us := by
    refine ⟨fun same => ?_, fun same => by rw [same]⟩
    exact append_cancel_left (congrArg Builder.sql same)
  rw [cancel, append_cancel_left_eq]
  cases upsert.assigns with
  | nil => simp [assignsTokens, sepTokens]
  | cons assign rest => simpa [sepTokens] using d.assignsTokens_eq_iff true assign rest

def userModel : Model :=
  ⟨"user", fun name => some ⟨name, name⟩, [], none, none, none, none⟩

def userBuilder : Builder := { r := fun _ => .ok userModel, model := some userModel, quoter := 'q' }

def setName : Assignable := .assignment "Name" (.value (.str "Tom"))

theorem upsert_complete_iff_last : Dialect.mysql.buildUpsert userBuilder
    { assigns := [.column (col "Id"), setName] } = .ok (emit userBuilder
      [.kw .onDuplicateKey, .ident "Id", .eqSign, .kw .valuesOf, .lpar, .ident "Id", .rpar,
        .kw .comma, .ident "Name", .eqSign, .ph (.str "Tom")]) :=
  (upsert_complete_iff .mysql _ userModel _ rfl userBuilder ⟨rfl, rfl⟩).mpr (by decide)

/-- The second column is not updated. -/
theorem upsert_drops : ∃ b c,
    Dialect.mysql.buildUpsert userBuilder { assigns := [setName, .column (col "Id")] } = .ok b ∧
    Dialect.sqlite.buildUpsert userBuilder { assigns := [setName, .column (col "Id")] } = .ok c ∧
    .ident "Id" ∉ b.sql ++ c.sql :=
  ⟨_, _, rfl, rfl, by decide⟩

end Dialect

namespace Inserter

variable (i : Inserter)

def insertFields (m : Model) : List Field :=
  if i.columns ≠ [] then i.columns.filterMap m.fieldMap else m.fields

def fieldsKnown (m : Model) : Bool := i.columns.all fun column => (m.fieldMap column).isSome

def rowKnown (m : Model) (val : Option Instance) : Bool :=
  (i.insertFields m).all fun field => (fieldOf val field.goName).isSome

def rowTokens (m : Model) (val : Option Instance) : List Tok :=
  [.lpar] ++ sepTokens [.kw .comma] (fun field => [.ph (valueOf val field.goName)])
    (i.insertFields m) ++ [.rpar]

def upsertKnown (r : Registry) (m : Model) : Bool :=
  match i.upsert with
  | none => true
  | some upsert => i.dialect.upsertKnown r m upsert

def upsertTokens (r : Registry) (m : Model) : List Tok :=
  match i.upsert with
  | none => []
  | some upsert => i.dialect.upsertTokens r m upsert

def known (r : Registry) (m : Model) : Bool :=
  !i.values.isEmpty && i.fieldsKnown m && i.values.all (i.rowKnown m) && i.upsertKnown r m

def headTokens (m : Model) : List Tok :=
  [.kw .insertInto, .ident m.tableName, .lpar] ++
    sepTokens [.kw .comma] (fun field : Field => [.ident field.colName]) (i.insertFields m) ++
    [.rpar, .kw .values]

def rowsTokens (r : Registry) (m : Model) : List Tok :=
  sepTokens [.kw .comma] (i.rowTokens m) i.values ++ i.upsertTokens r m ++ [.kw .semicolon]

def tokens (r : Registry) (m : Model) : List Tok := i.headTokens m ++ i.rowsTokens r m

variable {columns : List String}

theorem mapM_fields_ok (b : Builder)
    (known : (columns.all fun column => (m.fieldMap column).isSome) = true) :
    columns.mapM (findField m b) = .ok (columns.filterMap m.fieldMap) := by
  induction columns with
  | nil => rfl
  | cons column rest ih =>
    rw [all_cons, Bool.and_eq_true] at known
    obtain ⟨field, found⟩ := Option.isSome_iff_exists.mp known.1
    rw [mapM_cons, ih known.2, filterMap_cons, findField, found]
    rfl

theorem mapM_fields_error (b : Builder)
    (unknown : (columns.all fun column => (m.fieldMap column).isSome) = false) :
    ∃ e, columns.mapM (findField m b) = .error (e, b) := by
  induction columns with
  | nil => cases unknown
  | cons column rest ih =>
    rw [mapM_cons, findField]
    cases found : m.fieldMap column with
    | none => exact ⟨.unknownField column, rfl⟩
    | some =>
      rw [all_cons, found, Option.isSome_some, Bool.true_and] at unknown
      obtain ⟨e, failed⟩ := ih unknown
      exact ⟨e, by rw [failed]; rfl⟩

theorem fields_ok (b : Builder) (known : i.fieldsKnown m = true) :
    i.fields m b = .ok (i.insertFields m) := by
  unfold fields insertFields
  split
  · exact mapM_fields_ok b known
  · rfl

theorem fields_error (b : Builder) (unknown : i.fieldsKnown m = false) :
    ∃ e, i.fields m b = .error (e, b) := by
  unfold fields
  split
  · exact mapM_fields_error b unknown
  case isFalse none_ => simp [fieldsKnown, not_not.mp none_] at unknown

theorem buildNames_writes (fields : List Field) : Writes r m true (buildNames fields)
      (sepTokens [.kw .comma] (fun field : Field => [.ident field.colName]) fields) := by
  have name (field : Field) : Writes r m true (fun b => .ok (b.write [.ident field.colName]))
      [.ident field.colName] :=
    emits fun b => congrArg _ (write_eq_emit rfl b)
  exact cast (buildSep_writes [.kw .comma] rfl name fields) (by simp) rfl

theorem buildRow_writes (val : Option Instance) :
    Writes r m (i.rowKnown m val) (fun b => i.buildRow m (i.insertFields m) b val)
      (i.rowTokens m val) := by
  have value (field : Field) : Writes r m (fieldOf val field.goName).isSome
      (fun b => i.buildValue m val b field) [.ph (valueOf val field.goName)] :=
    cast (liftErr_writes (fun b => b.write [.ph .nil]) (fun b within => within.write _)
      readField_ok readField_error (emits fun b => congrArg _ (addArgs_eq_emit rfl b)))
      (Bool.and_true _) rfl
  exact ((buildSep_writes [.kw .comma] rfl value (i.insertFields m)).after [.lpar] rfl).before
    [.rpar] rfl

theorem rows_writes : Writes r m (i.values.all (i.rowKnown m) && i.upsertKnown r m)
      (fun b => buildSep [.kw .comma] (i.buildRow m (i.insertFields m)) b i.values >>= fun b =>
        i.buildUpsert b >>= fun b => .ok (b.write [.kw .semicolon])) (i.rowsTokens r m) := by
  have upsert : Writes r m (i.upsertKnown r m) i.buildUpsert (i.upsertTokens r m) := by
    unfold upsertKnown upsertTokens buildUpsert
    cases i.upsert with
    | none => exact skip
    | some upsert => exact i.dialect.buildUpsert_writes upsert
  have whole := (buildSep_writes [.kw .comma] rfl i.buildRow_writes i.values).bind
    (upsert.before [.kw .semicolon] rfl)
  refine cast whole rfl ?_
  rw [rowsTokens, append_assoc]

theorem headTokens_args (m : Model) : (i.headTokens m).flatMap tokArgs = [] := by
  have names (fields : List Field) : (sepTokens [.kw .comma]
      (fun field : Field => [.ident field.colName]) fields).flatMap tokArgs = [] := by
    cases fields with
    | nil => rfl
    | cons => simp [sepTokens, tokArgs, flatMap_assoc]
  simp [headTokens, names, tokArgs]

def cleared (m : Model) : Builder := { i.builder with model := some m, args := [] }

theorem build_eq (some_ : i.values ≠ []) (model : i.builder.r i.entity = .ok m)
    (known : i.fieldsKnown m = true) :
    i.build = i.buildRows m (i.insertFields m) (emit (i.cleared m) (i.headTokens m)) := by
  let loaded : Builder := { i.builder with model := some m }
  have within : Within i.builder.r m loaded := ⟨rfl, rfl⟩
  have names := ((buildNames_writes (i.insertFields m)).after
    [.kw .insertInto, .ident m.tableName, .lpar] rfl).ok rfl within
  calc i.build
      = buildNames (i.insertFields m)
          (loaded.write [.kw .insertInto, .ident m.tableName, .lpar]) >>= fun b =>
            i.buildRows m (i.insertFields m) (b.write [.rpar, .kw .values]) := by
        simp only [build, some_, if_false, model]
        rw [i.fields_ok _ known]
        rfl
    _ = i.buildRows m (i.insertFields m) (emit loaded (i.headTokens m)) := by
        rw [names, headTokens, emit_append loaded _ [.rpar, .kw .values]]
        exact congrArg (i.buildRows m (i.insertFields m)) (write_eq_emit rfl _)
    _ = i.buildRows m (i.insertFields m) (emit (i.cleared m) (i.headTokens m)) := rfl

theorem build_ok (model : i.builder.r i.entity = .ok m) (known : i.known i.builder.r m = true) :
    i.build = .ok (emit (i.cleared m) (i.tokens i.builder.r m)) := by
  simp only [Inserter.known, Bool.and_eq_true, and_assoc] at known
  obtain ⟨some_, fields, rows⟩ := known
  have within : Within i.builder.r m (emit (i.cleared m) (i.headTokens m)) := ⟨rfl, rfl⟩
  have clear : ({ emit (i.cleared m) (i.headTokens m) with args := [] } : Builder) =
      emit (i.cleared m) (i.headTokens m) := by
    simp [emit, cleared, i.headTokens_args]
  rw [i.build_eq (by simpa using some_) model fields, tokens, emit_append, buildRows, clear]
  exact i.rows_writes.ok (by simpa using rows) within

theorem build_fails (model : i.builder.r i.entity = .ok m)
    (unknown : i.known i.builder.r m = false) :
    ∃ e b', i.build = .error (e, b') ∧ b'.r = i.builder.r := by
  by_cases none_ : i.values = []
  · exact ⟨.insertZeroRow, i.builder, by simp [build, none_], rfl⟩
  cases fields : i.fieldsKnown m with
  | false =>
    let loaded : Builder := { i.builder with model := some m }
    let b := loaded.write [.kw .insertInto, .ident m.tableName, .lpar]
    obtain ⟨e, failed⟩ := i.fields_error b fields
    refine ⟨e, b, ?_, rfl⟩
    simp only [build, none_, if_false, model]
    rw [failed]
    rfl
  | true =>
    have rows : (i.values.all (i.rowKnown m) && i.upsertKnown i.builder.r m) = false := by
      simpa [Inserter.known, fields, none_] using unknown
    let cleared : Builder := { emit (i.cleared m) (i.headTokens m) with args := [] }
    have within : Within i.builder.r m cleared := ⟨rfl, rfl⟩
    obtain ⟨e, b', failed, kept⟩ := i.rows_writes.fails rows within
    refine ⟨e, b', ?_, kept.registry⟩
    rw [i.build_eq none_ model fields, buildRows]
    exact failed

end Inserter

/-! ## Statements -/

namespace Statement

variable (st : Statement)

def start (m : Model) : Builder :=
  match st with
  | .inserter i => i.cleared m
  | st => { st.builder with model := some m }

theorem start_within (m : Model) : Within st.builder.r m (st.start m) := by
  cases st <;> exact ⟨rfl, rfl⟩

def known (m : Model) : Bool :=
  match st with
  | .selector s => s.known s.builder.r m
  | .updater u => u.known u.builder.r m
  | .deleter d => clauseKnown d.builder.r m d.where_
  | .inserter i => i.known i.builder.r m

def tokens (m : Model) (now : Int) : List Tok :=
  match st with
  | .selector s => s.tokens s.builder.r m
  | .updater u => u.tokens u.builder.r m
  | .deleter d => d.tokens d.builder.r m now
  | .inserter i => i.tokens i.builder.r m

def buildable : Bool :=
  match st.builder.r st.entity with
  | .ok m => st.known m
  | .error _ => false

def body (m : Model) (now : Int) : Builder → Build :=
  match st with
  | .selector s => fun b =>
    s.buildHead b >>= fun b => buildWhereWithSoftDelete b s.where_ >>= s.buildTail
  | .updater u => fun b =>
    u.buildSet m (b.write [.kw .update, .ident m.tableName]) >>= fun b =>
      buildWhereWithSoftDelete b u.where_ >>= fun b =>
        u.buildVersionGuard m b >>= fun b => .ok (b.write [.kw .semicolon])
  | .deleter d =>
    match m.deletedAtField with
    | some deletedAt => d.buildSoftDelete m deletedAt now
    | none => fun b =>
      buildIf (d.where_ ≠ []) (fun b => buildPredicates (b.write [.kw .where_]) d.where_)
        (b.write (.kw .deleteFrom :: d.tableTokens m)) >>= fun b =>
          .ok (b.write [.kw .semicolon])
  | .inserter _ => .ok

theorem body_writes (m : Model) (now : Int) (kind : ∀ i, st ≠ .inserter i) :
    Writes st.builder.r m (st.known m) (st.body m now) (st.tokens m now) := by
  cases st with
  | selector s => exact s.body_writes
  | updater u => exact u.body_writes
  | deleter d =>
    simp only [known, body, tokens, Deleter.tokens]
    cases m.deletedAtField with
    | some deletedAt => exact d.softDelete_writes deletedAt now
    | none => exact d.hardDelete_writes
  | inserter i => exact absurd rfl (kind i)

theorem run_eq_body (now : Int) (model : st.builder.r st.entity = .ok m)
    (kind : ∀ i, st ≠ .inserter i) : st.run now = st.body m now (st.start m) := by
  cases st with
  | selector s =>
    simp only [run, Selector.build, Builder.loadModel, show s.builder.r s.entity = .ok m from model]
    rfl
  | updater u =>
    simp only [run, Updater.build, show u.builder.r u.entity = .ok m from model]
    rfl
  | deleter d =>
    simp only [run, Deleter.build, body, show d.builder.r d.entity = .ok m from model]
    cases m.deletedAtField <;> rfl
  | inserter i => exact absurd rfl (kind i)

theorem run_ok (now : Int) (model : st.builder.r st.entity = .ok m)
    (known : st.known m = true) : st.run now = .ok (emit (st.start m) (st.tokens m now)) := by
  cases st with
  | inserter i => exact i.build_ok model known
  | _ =>
    rw [run_eq_body _ now model (by simp)]
    exact (body_writes _ m now (by simp)).ok known (start_within _ m)

theorem exists_model_of_buildable (can : st.buildable = true) :
    ∃ m, st.builder.r st.entity = .ok m ∧ st.known m = true := by
  unfold buildable at can
  split at can
  case h_1 m model => exact ⟨m, model, can⟩
  case h_2 => cases can

theorem run_fails (now : Int) (unknown : st.buildable = false) :
    ∃ e b', st.run now = .error (e, b') ∧ b'.r = st.builder.r := by
  unfold buildable at unknown
  cases model : st.builder.r st.entity with
  | ok m =>
    rw [model] at unknown
    cases st with
    | inserter i => exact i.build_fails model unknown
    | _ =>
      rw [run_eq_body _ now model (by simp)]
      rcases (body_writes _ m now (by simp)).fails unknown (start_within _ m) with
        ⟨e, b', failed, kept⟩
      exact ⟨e, b', failed, kept.registry⟩
  | error e =>
    cases st with
    | selector s =>
      refine ⟨e, { s.builder with model := none }, ?_, rfl⟩
      simp only [run, Selector.build, Builder.loadModel, show s.builder.r s.entity = _ from model]
      rfl
    | updater u =>
      refine ⟨e, { u.builder with model := none }, ?_, rfl⟩
      simp [run, Updater.build, show u.builder.r u.entity = _ from model]
    | deleter d =>
      refine ⟨e, { d.builder with model := none }, ?_, rfl⟩
      simp [run, Deleter.build, show d.builder.r d.entity = _ from model]
    | inserter i =>
      by_cases none_ : i.values = []
      · exact ⟨.insertZeroRow, i.builder, by simp [run, Inserter.build, none_], rfl⟩
      · refine ⟨e, { i.builder with model := none }, ?_, rfl⟩
        simp [run, Inserter.build, none_, show i.builder.r i.entity = _ from model]

variable {now : Int}

theorem run_eq_ok (built : st.run now = .ok b) :
    ∃ m, st.builder.r st.entity = .ok m ∧ st.known m = true ∧
      b = emit (st.start m) (st.tokens m now) := by
  cases can : st.buildable with
  | true =>
    obtain ⟨m, model, known⟩ := st.exists_model_of_buildable can
    rw [st.run_ok now model known] at built
    exact ⟨m, model, known, (ok.inj built).symm⟩
  | false =>
    obtain ⟨e, b', failed, -⟩ := st.run_fails now can
    rw [failed] at built
    cases built

theorem build_eq_ok {query : Query} (built : (st.build now).1 = .ok query) :
    ∃ m, st.builder.r st.entity = .ok m ∧
      (st.build now).2.builder = emit (st.start m) (st.tokens m now) ∧
      query = ⟨(st.build now).2.builder.text, (st.build now).2.builder.args⟩ := by
  unfold build at built ⊢
  cases result : st.run now with
  | ok =>
    obtain ⟨m, model, -, written⟩ := st.run_eq_ok result
    rw [result] at built
    exact ⟨m, model, by rw [withBuilder_builder, written], by
      rw [withBuilder_builder]
      exact (ok.inj built).symm⟩
  | error =>
    rw [result] at built
    cases built

end Statement

end Soil.Orm
