import Mathlib.Algebra.Order.BigOperators.Group.List
import Mathlib.Algebra.Order.Ring.Nat
import Soil.Orm.Arguments

/-!
# Placeholders and arguments

The text and the arguments of a statement are appended separately.  That the `?` of the
text stand for the arguments in order comes down to the tokens: each token has as many
`?` in its text as it binds arguments (`Tok.Fair`), quoted names aside.
-/

namespace Soil.Orm

open List Statement Expression

open Sql

variable {r : Registry} {m : Model}

/-! ## What the exported constructors make -/

def questionMarks (text : String) : Nat := text.toList.count '?'

def Aggregate.Exported (a : Aggregate) : Prop := a.fn ∈ ["AVG", "COUNT", "SUM", "MAX", "MIN"]

def Expression.Fair : Expression → Prop
  | .aggregate a => a.Exported
  | .raw text args => questionMarks text = args.length
  | .predicate left _ right => left.Fair ∧ right.Fair
  | _ => True

def Predicate.Fair (p : Predicate) : Prop := p.expr.Fair

def Selectable.Fair : Selectable → Prop
  | .column _ => True
  | .aggregate a => a.Exported
  | .raw text args => questionMarks text = args.length

def TableReference.Fair : TableReference → Prop
  | .join left typ right on _ =>
    left.Fair ∧ typ ∈ ["JOIN", "LEFT JOIN", "RIGHT JOIN"] ∧ right.Fair ∧ ∀ p ∈ on, p.Fair
  | _ => True

def OrderBy.Exported (o : OrderBy) : Prop := o.order ∈ ["ASC", "DESC"]

structure Selector.Fair (s : Selector) : Prop where
  columns : ∀ c ∈ s.columns, c.Fair
  table : s.table.Fair
  where_ : ∀ p ∈ s.where_, p.Fair
  having : ∀ p ∈ s.having, p.Fair
  orderBy : ∀ o ∈ s.orderBy, o.Exported

def Assignable.Fair : Assignable → Prop
  | .assignment _ val => val.Fair
  | .column _ => True

structure Updater.Fair (u : Updater) : Prop where
  assigns : ∀ a ∈ u.assigns, a.Fair
  where_ : ∀ p ∈ u.where_, p.Fair

structure Deleter.Fair (d : Deleter) : Prop where
  tableName : questionMarks d.tableName = 0
  where_ : ∀ p ∈ d.where_, p.Fair

def Inserter.Fair (i : Inserter) : Prop := ∀ upsert ∈ i.upsert, ∀ a ∈ upsert.assigns, a.Fair

def Statement.Fair : Statement → Prop
  | .selector s => s.Fair
  | .updater u => u.Fair
  | .deleter d => d.Fair
  | .inserter i => i.Fair

/-! ## Fair tokens -/

def Tok.marks : Tok → Nat
  | .ident _ => 0
  | t => questionMarks (Tok.text '`' t)

def Tok.isText : Tok → Bool
  | .ident _ => false
  | .raw _ _ => false
  | _ => true

structure Tok.Fair (t : Tok) : Prop where
  marks : Tok.marks t = (tokArgs t).length
  unquoted : Tok.isText t = true → '`' ∉ (Tok.text '`' t).toList

def AllFair (ts : List Tok) : Prop := ∀ t ∈ ts, Tok.Fair t

@[simp] theorem allFair_nil : AllFair [] := by simp [AllFair]

variable {ts : List Tok} {t : Tok}

@[simp] theorem allFair_cons : AllFair (t :: ts) ↔ Tok.Fair t ∧ AllFair ts :=
  forall_mem_cons

@[simp] theorem allFair_append {us : List Tok} : AllFair (ts ++ us) ↔ AllFair ts ∧ AllFair us :=
  forall_mem_append

@[reducible] def Tok.plain : Tok → Bool
  | .raw _ _ => false
  | .func _ => false
  | .kw (.order _) => false
  | .kw (.join _) => false
  | .kw (.arith _) => false
  | _ => true

variable {text : String}

theorem fair_text (written : ∀ q, Tok.text q t = text) (unbound : tokArgs t = [])
    (unmarked : questionMarks text = 0) (unquoted : '`' ∉ text.toList)
    (own : ∀ name, t ≠ .ident name) : Tok.Fair t where
  marks := by
    rw [unbound, length_nil, ← unmarked, ← written '`']
    cases t with
    | ident name => exact absurd rfl (own name)
    | _ => rfl
  unquoted _ := by rwa [written]

theorem fair_raw {args : List GoAny} (fair : questionMarks text = args.length) :
    Tok.Fair (.raw text args) :=
  ⟨fair, fun own => (by cases own)⟩

theorem fair_ident (name : String) : Tok.Fair (.ident name) := ⟨rfl, fun own => (by cases own)⟩

theorem fair_ph (v : GoAny) : Tok.Fair (.ph v) :=
  ⟨show questionMarks "?" = 1 by decide, fun _ => show '`' ∉ "?".toList by decide⟩

@[simp] theorem fair_of_plain (plain : Tok.plain t = true) : Tok.Fair t := by
  cases t with
  | kw k =>
    cases k with
    | order | join | arith => cases plain
    | _ => exact fair_text (fun _ => rfl) rfl (by decide) (by decide) (by simp)
  | raw | func => cases plain
  | ident name => exact fair_ident name
  | ph v => exact fair_ph v
  | cmp op =>
    cases op <;> exact fair_text (fun _ => rfl) rfl (by decide) (by decide) (by simp)
  | _ => exact fair_text (fun _ => rfl) rfl (by decide) (by decide) (by simp)

theorem allFair_ite {c : Prop} [Decidable c] {us : List Tok} (yes : AllFair ts) (no : AllFair us) :
    AllFair (if c then ts else us) := by
  split
  · exact yes
  · exact no

@[simp] theorem fair_op (op : Op) : AllFair op.tokens := by
  cases op with
  | add | sub | multi | div =>
    refine forall_mem_singleton.mpr ?_
    exact fair_text (fun _ => rfl) rfl (by decide) (by decide) (by simp)
  | _ => simp [Op.tokens]

theorem fair_sepTokens {α : Type} {sep : List Tok} {out : α → List Tok} {xs : List α}
    (between : AllFair sep) (each : ∀ x ∈ xs, AllFair (out x)) :
    AllFair (sepTokens sep out xs) := by
  cases xs with
  | nil => exact allFair_nil
  | cons x =>
    refine allFair_append.mpr ⟨each x (by simp), fun t inside => ?_⟩
    obtain ⟨y, among, inside⟩ := mem_flatMap.mp inside
    exact allFair_append.mpr ⟨between, each y (by simp [among])⟩ t inside

@[simp] theorem fair_aliasTokens (name : String) : AllFair (aliasTokens name) :=
  allFair_ite (by simp) allFair_nil

@[simp] theorem fair_column (c : Column) : AllFair (c.tokens r m) := by
  unfold Column.tokens
  split <;> simp

theorem fair_aggregate {a : Aggregate} (exported : a.Exported) : AllFair (a.tokens r m) := by
  have fn : Tok.Fair (.func a.fn) := by
    simp only [Aggregate.Exported, mem_cons, not_mem_nil, or_false] at exported
    rcases exported with named | named | named | named | named <;> rw [named] <;>
      exact fair_text (fun _ => rfl) rfl (by decide) (by decide) (by simp)
  simp [Aggregate.tokens, fn]

variable {e : Expression}

theorem fair_operand (fair : e.Fair) : AllFair (e.operandTokens r m) := by
  cases e with
  | column => exact fair_column _
  | aggregate => exact fair_aggregate fair
  | raw => simp [operandTokens, fair_raw fair]
  | _ => simp [operandTokens]

theorem fair_subTokens (fair : e.Fair) : AllFair (e.subTokens r m) := by
  induction e with
  | predicate left op right hl hr =>
    simp [subTokens, hl fair.1, hr fair.2]
  | _ =>
    rw [subTokens]
    · exact fair_operand fair
    · simp

theorem fair_expression (fair : e.Fair) : AllFair (e.tokens r m) := by
  cases e with
  | predicate =>
    simp [Expression.tokens, fair_subTokens fair.1, fair_subTokens fair.2]
  | _ =>
    rw [Expression.tokens]
    · exact fair_operand fair
    · simp

variable {ps : List Predicate}

theorem fair_foldl {p : Predicate} (fair : ∀ p' ∈ p :: ps, p'.Fair) :
    (ps.foldl Predicate.and p).expr.Fair := by
  induction ps generalizing p with
  | nil => exact fair p (by simp)
  | cons next ps ih =>
    refine ih fun p' inside => ?_
    rcases mem_cons.mp inside with rfl | inside
    · exact ⟨fair p (by simp), fair next (by simp)⟩
    · exact fair p' (by simp [inside])

theorem fair_predicates (fair : ∀ p ∈ ps, p.Fair) : AllFair (predicatesTokens r m ps) := by
  cases ps with
  | nil => exact allFair_nil
  | cons => exact fair_expression (fair_foldl fair)

theorem fair_clause {k : Keyword} (plain : Tok.plain (.kw k) = true)
    (fair : ∀ p ∈ ps, p.Fair) : AllFair (clauseTokens r m k ps) :=
  allFair_ite (by simp [plain, fair_predicates fair]) allFair_nil

theorem fair_where (fair : ∀ p ∈ ps, p.Fair) : AllFair (softDeleteTokens r m ps) := by
  unfold softDeleteTokens
  split
  · exact fair_clause rfl fair
  · simp [allFair_ite, fair_predicates fair]

theorem fair_assignment (column : String) {val : Expression} (fair : val.Fair) :
    AllFair (assignmentTokens r m column val) := by
  simp [assignmentTokens, fair_expression fair]

theorem fair_selectable {s : Selectable} (fair : s.Fair) : AllFair (s.tokens r m) := by
  cases s with
  | column c => exact fair_column c
  | aggregate => exact fair_aggregate fair
  | raw => simp [Selectable.tokens, fair_raw fair]

theorem fair_columns {columns : List Selectable} (fair : ∀ c ∈ columns, c.Fair) :
    AllFair (columnsTokens r m columns) :=
  allFair_ite (by simp) (fair_sepTokens (by simp) fun c inside => fair_selectable (fair c inside))

theorem fair_using (using_ : List String) : AllFair (usingTokens r m using_) := by
  simp [usingTokens, fair_sepTokens]

theorem fair_table {t : TableReference} (fair : t.Fair) : AllFair (t.tokens r m) := by
  induction t with
  | table =>
    unfold TableReference.tokens
    split <;> simp
  | join left typ right on using_ hl hr =>
    obtain ⟨left, exported, right, on⟩ := fair
    have join : Tok.Fair (.kw (.join typ)) := by
      simp only [mem_cons, not_mem_nil, or_false] at exported
      rcases exported with rfl | rfl | rfl <;>
        exact fair_text (fun _ => rfl) rfl (by decide) (by decide) (by simp)
    have condition := fair_clause (r := r) (m := m) (k := .on) rfl on
    simp [TableReference.tokens, hl left, join, hr right, allFair_ite, fair_using, condition]
  | nil | other => simp [TableReference.tokens]

theorem fair_orderBy {o : OrderBy} (exported : o.Exported) : AllFair (o.tokens r m) := by
  have order : Tok.Fair (.kw (.order o.order)) := by
    simp only [OrderBy.Exported, mem_cons, not_mem_nil, or_false] at exported
    rcases exported with named | named <;> rw [named] <;>
      exact fair_text (fun _ => rfl) rfl (by decide) (by decide) (by simp)
  simp [OrderBy.tokens, order]

variable {s : Selector}

theorem Selector.fair_tail (fair : s.Fair) : AllFair (s.tailTokens r m) := by
  have groupBy : AllFair (sepTokens [.kw .comma] (Column.tokens r m) s.groupBy) := by
    simp [fair_sepTokens]
  have having := fair_clause (r := r) (m := m) (k := .having) rfl fair.having
  have orderBy : AllFair (sepTokens [.kw .comma] (OrderBy.tokens r m) s.orderBy) :=
    fair_sepTokens (by simp) fun o inside => fair_orderBy (fair.orderBy o inside)
  have limit : AllFair s.limitTokens := allFair_ite (by simp) (by simp [allFair_ite])
  simp [tailTokens, offsetTokens, allFair_ite, groupBy, having, orderBy, limit]

theorem Selector.fair_tokens (fair : s.Fair) : AllFair (s.tokens r m) := by
  simp [tokens, fair_columns fair.columns, fair_table fair.table, fair_where fair.where_,
    fair_tail fair]

variable {u : Updater}

theorem Updater.fair_set (fair : u.Fair) : AllFair (u.setTokens r m) := by
  have assigns : AllFair (sepTokens [.kw .comma] (u.assignTokens r m) u.assigns) := by
    refine fair_sepTokens (by simp) fun a inside => ?_
    cases a with
    | assignment column => exact fair_assignment column (fair.assigns _ inside)
    | column => simp [assignTokens]
  have increment : AllFair (u.incrementTokens m) := by
    unfold incrementTokens
    split <;> simp [allFair_ite, incrementVersion]
  have fullIncrement : AllFair (fullIncrementTokens m) := by
    unfold fullIncrementTokens
    split <;> simp [allFair_ite, incrementVersion]
  have field (f : Field) : AllFair (u.fieldTokens r m f) := by simp [fieldTokens]
  exact allFair_ite (by simp [assigns, increment]) (by simp [fair_sepTokens, field, fullIncrement])

theorem Updater.fair_tokens (fair : u.Fair) : AllFair (u.tokens r m) := by
  have guard : AllFair (u.guardTokens m) := by
    unfold guardTokens
    split
    · split <;> simp
    · simp
  simp [tokens, fair_set fair, fair_where fair.where_, guard]

theorem Deleter.fair_tokens {d : Deleter} (fair : d.Fair) (now : Int) :
    AllFair (d.tokens r m now) := by
  have table : AllFair (d.tableTokens m) :=
    allFair_ite (by simp) (forall_mem_singleton.mpr (fair_raw fair.tableName))
  have clause := fair_clause (r := r) (m := m) (k := .where_) rfl fair.where_
  unfold tokens
  split <;> simp [table, fair_where fair.where_, clause]

theorem Dialect.fair_assigns (d : Dialect) (first : Bool) {assigns : List Assignable}
    (fair : ∀ a ∈ assigns, a.Fair) : AllFair (d.assignsTokens r m first assigns) := by
  induction assigns generalizing first with
  | nil => simp [assignsTokens]
  | cons assign rest ih =>
    have head := fair assign (by simp)
    cases assign with
    | assignment column => simp [assignsTokens, allFair_ite, fair_assignment column head]
    | column =>
      have rest := ih false fun a inside => fair a (by simp [inside])
      simp only [assignsTokens, allFair_append]
      refine ⟨⟨allFair_ite (by simp) (by simp), ?_⟩, rest⟩
      split
      · simp
      · cases d <;> simp [columnTokens]

theorem Inserter.fair_tokens {i : Inserter} (fair : i.Fair) : AllFair (i.tokens r m) := by
  have upsert : AllFair (i.upsertTokens r m) := by
    unfold upsertTokens
    split
    · exact allFair_nil
    case h_2 upsert given =>
      have assigns (d : Dialect) : AllFair (d.assignsTokens r m true upsert.assigns) :=
        d.fair_assigns true (fair upsert given)
      unfold Dialect.upsertTokens
      split <;> simp [assigns, fair_sepTokens]
  have row (val : Option Instance) : AllFair (i.rowTokens m val) := by
    simp [rowTokens, fair_sepTokens]
  simp [tokens, headTokens, rowsTokens, fair_sepTokens, row, upsert]

variable {st : Statement}

theorem Statement.fair_tokens (fair : st.Fair) (m : Model) (now : Int) :
    AllFair (st.tokens m now) := by
  cases st with
  | selector => exact Selector.fair_tokens fair
  | updater => exact Updater.fair_tokens fair
  | deleter => exact Deleter.fair_tokens fair now
  | inserter => exact Inserter.fair_tokens fair

/-! ## Counting in the text -/

def between (q : Char) : Bool → List Char → Bool
  | inside, [] => inside
  | inside, c :: cs => between q (if c = q then !inside else inside) cs

def outside (q : Char) : Bool → List Char → Nat
  | _, [] => 0
  | inside, c :: cs =>
    (if c = '?' ∧ !inside then 1 else 0) + outside q (if c = q then !inside else inside) cs

variable {q : Char}

theorem between_append (inside : Bool) (cs ds : List Char) :
    between q inside (cs ++ ds) = between q (between q inside cs) ds := by
  induction cs generalizing inside with
  | nil => rfl
  | cons c cs ih => exact ih _

theorem outside_append (inside : Bool) (cs ds : List Char) :
    outside q inside (cs ++ ds) = outside q inside cs + outside q (between q inside cs) ds := by
  induction cs generalizing inside with
  | nil => simp [outside, between]
  | cons c cs ih =>
    simp only [cons_append, outside, between, ih]
    omega

structure Closed (q : Char) (text : String) : Prop where
  closes : between q false text.toList = false
  marks : outside q false text.toList = questionMarks text

theorem closed_of_notMem (free : q ∉ text.toList) : Closed q text := by
  have scan (cs : List Char) (free : q ∉ cs) :
      between q false cs = false ∧ outside q false cs = cs.count '?' := by
    induction cs with
    | nil => exact ⟨rfl, rfl⟩
    | cons c cs ih =>
      have other : c ≠ q := fun same => free (by simp [same])
      have later := ih fun inside => free (by simp [inside])
      simp only [between, outside, other, if_false, later, count_cons]
      by_cases mark : c = '?' <;> simp [Nat.add_comm]
  exact ⟨(scan _ free).1, (scan _ free).2⟩

theorem scan_doubled (other : q ≠ '?') (cs : List Char) :
    between q true (cs.flatMap fun c => if c = q then [c, c] else [c]) = true ∧
      outside q true (cs.flatMap fun c => if c = q then [c, c] else [c]) = 0 := by
  induction cs with
  | nil => exact ⟨rfl, rfl⟩
  | cons c cs ih =>
    rw [flatMap_cons]
    by_cases same : c = q
    · subst same
      simp [between, outside, other, ih]
    · simp [between, outside, same, ih]

theorem scan_quote (other : q ≠ '?') (name : String) :
    between q false (quote q name).toList = false ∧ outside q false (quote q name).toList = 0 := by
  obtain ⟨inside, none_⟩ := scan_doubled other name.toList
  rw [quote, String.toList_ofList]
  simp [between, outside, between_append, outside_append, inside, none_, other]

def RawClosed (ts : List Tok) : Prop := ∀ text args, .raw text args ∈ ts → Closed '`' text

theorem scan_token (fair : Tok.Fair t) (closed : RawClosed [t]) :
    between '`' false (Tok.text '`' t).toList = false ∧
      outside '`' false (Tok.text '`' t).toList = Tok.marks t := by
  cases t with
  | ident name => exact scan_quote (by decide) name
  | raw text args =>
    have closed := closed text args (by simp)
    exact ⟨closed.closes, closed.marks⟩
  | _ =>
    have closed := closed_of_notMem (fair.unquoted rfl)
    exact ⟨closed.closes, closed.marks⟩

def marksOf (ts : List Tok) : Nat := (ts.map Tok.marks).sum

theorem outside_text (fair : AllFair ts) (closed : RawClosed ts) :
    outside '`' false (String.join (ts.map (Tok.text '`'))).toList = marksOf ts := by
  induction ts with
  | nil => rfl
  | cons t ts ih =>
    obtain ⟨head, tail⟩ := allFair_cons.mp fair
    have scanned := scan_token head fun text args inside =>
      closed text args (mem_cons.mpr (.inl (mem_singleton.mp inside)))
    have rest := ih tail fun text args inside => closed text args (mem_cons_of_mem t inside)
    rw [map_cons, String.join_cons, String.toList_append, outside_append, scanned.1,
      scanned.2, rest, marksOf, marksOf, map_cons, sum_cons]

/-! ## Alignment -/

theorem marksOf_eq_length (fair : AllFair ts) : marksOf ts = (argsOf ts).length := by
  induction ts with
  | nil => rfl
  | cons t ts ih =>
    obtain ⟨head, tail⟩ := allFair_cons.mp fair
    rw [argsOf_cons, length_append, ← ih tail, ← head.marks, marksOf, map_cons, sum_cons, marksOf]

def newBuilder (r : Registry) (d : Dialect) : Builder := { r, quoter := d.quoter }

theorem start_of_new {d : Dialect} (new : st.builder = newBuilder r d) (m : Model) :
    (st.start m).sql = [] ∧ (st.start m).args = [] ∧ (st.start m).quoter = '`' := by
  have quoter : d.quoter = '`' := by cases d <;> rfl
  cases st <;>
    · simp only [builder] at new
      simp [start, builder, Inserter.cleared, new, newBuilder, quoter]

theorem take_args {before after : List Tok} (fair : AllFair (before ++ t :: after)) :
    ((argsOf (before ++ t :: after)).drop (marksOf before)).take (Tok.marks t) = tokArgs t := by
  obtain ⟨earlier, rest⟩ := allFair_append.mp fair
  rw [argsOf_append, argsOf_cons, marksOf_eq_length earlier, (allFair_cons.mp rest).1.marks,
    drop_left, take_left]

/-- The query that the first `Build` of a new statement returns, and the tokens it is
written in: the `?` outside quoted names are as many as the arguments; the arguments are
those of the statement in order; the `?` of each token stand for the arguments of that
token; and counting in the text itself gives the same, if the raw texts close the quotes
they open. -/
theorem Statement.placeholders_align {st : Statement} {d : Dialect} {now : Int} {query : Query}
    (new : st.builder = newBuilder r d) (fair : st.Fair) (built : (st.build now).1 = .ok query) :
    query.sql = String.join ((st.build now).2.builder.sql.map (Tok.text '`')) ∧
      marksOf (st.build now).2.builder.sql = query.args.length ∧
      (∃ m, r st.entity = .ok m ∧ query.args = st.arguments m now) ∧
      (∀ before t after, (st.build now).2.builder.sql = before ++ t :: after →
        (query.args.drop (marksOf before)).take (Tok.marks t) = tokArgs t) ∧
      (RawClosed (st.build now).2.builder.sql →
        outside '`' false query.sql.toList = query.args.length) := by
  obtain ⟨m, model, left, returned⟩ := st.build_eq_ok built
  obtain ⟨sql, args, quoter⟩ := start_of_new new m
  have tokens : AllFair (st.tokens m now) := fair_tokens fair m now
  have written : (st.build now).2.builder.sql = st.tokens m now := by
    rw [left, emit_sql, sql, nil_append]
  have text : query.sql = String.join ((st.tokens m now).map (Tok.text '`')) := by
    rw [returned, Builder.text, left, emit_sql, emit_quoter, sql, quoter, nil_append]
  have bound : query.args = argsOf (st.tokens m now) := by
    rw [returned, left, emit_args, args, nil_append, argsOf]
  have counted : marksOf (st.tokens m now) = query.args.length := by
    rw [bound, marksOf_eq_length tokens]
  rw [written]
  refine ⟨text, counted, ⟨m, by rw [← model, new, newBuilder], ?_⟩, ?_, ?_⟩
  · rw [bound, st.argsOf_tokens]
  · intro before t after split
    rw [bound, split]
    exact take_args (split ▸ tokens)
  · intro closed
    rw [text, outside_text tokens closed, counted]

def accountModel : Model where
  tableName := "account"
  fieldMap name :=
    if name = "Id" then some ⟨"id", "Id"⟩ else if name = "Name" then some ⟨"name", "Name"⟩ else none
  fields := [⟨"id", "Id"⟩, ⟨"name", "Name"⟩]
  deletedAtField := none
  versionField := none

def upsertAccount : Inserter where
  builder := newBuilder (fun _ => .ok accountModel) .mysql
  entity := "Account"
  dialect := .mysql
  values := [some { field := fun name => if name = "Id" then some (.int 1) else some (.str "tom") }]
  upsert := some { assigns := [.assignment "Name" (.raw "CONCAT(`name`, ?)" [.str "!"])] }

theorem placeholders_align_upsert :
    marksOf ((Statement.inserter upsertAccount).build 0).2.builder.sql = 3 ∧
      outside '`' false ("INSERT INTO `account`(`id`,`name`) VALUES (?,?)" ++
        " ON DUPLICATE KEY UPDATE `name`=(CONCAT(`name`, ?));").toList = 3 := by
  have built : ((inserter upsertAccount).build 0).1 =
      .ok ⟨"INSERT INTO `account`(`id`,`name`) VALUES (?,?)" ++
        " ON DUPLICATE KEY UPDATE `name`=(CONCAT(`name`, ?));", [.int 1, .str "tom", .str "!"]⟩ :=
          by
    decide
  have fair : (inserter upsertAccount).Fair := by
    intro upsert given a inside
    cases given
    obtain rfl := mem_singleton.mp inside
    exact show questionMarks "CONCAT(`name`, ?)" = 1 by decide
  have tokens : ((inserter upsertAccount).build 0).2.builder.sql =
      [.kw .insertInto, .ident "account", .lpar, .ident "id", .kw .comma, .ident "name", .rpar,
        .kw .values, .lpar, .ph (.int 1), .kw .comma, .ph (.str "tom"), .rpar,
        .kw .onDuplicateKey, .ident "name", .eqSign, .lpar,
        .raw "CONCAT(`name`, ?)" [.str "!"], .rpar, .kw .semicolon] := by
    decide
  have aligned := placeholders_align rfl fair built
  refine ⟨aligned.2.1, aligned.2.2.2.2 fun text args inside => ?_⟩
  rw [tokens] at inside
  obtain ⟨rfl, rfl⟩ : text = "CONCAT(`name`, ?)" ∧ args = [.str "!"] := by simpa using inside
  exact ⟨by decide, by decide⟩

end Soil.Orm
