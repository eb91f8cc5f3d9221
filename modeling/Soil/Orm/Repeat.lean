import Soil.Orm.BuildSpec

/-!
# Calling `Build` more than once

The builders append to a text that lives as long as the statement, and no `Build` resets
it: a statement that can be built is written once more with every call.  The middlewares
that log the query before it is sent call `Build` for it, and what is sent is what the
call after theirs returns.
-/

namespace Soil.Orm

open List Statement Middleware

open Sql

/-! ## One call -/

theorem length_text_emit (b : Builder) (ts : List Tok) : (emit b ts).text.length =
      b.text.length + (String.join (ts.map (Tok.text b.quoter))).length := by
  simp [Builder.text]

theorem length_text_lt {ts : List Tok} (b : Builder) (ends : .kw .semicolon ∈ ts) :
    b.text.length < (emit b ts).text.length := by
  obtain ⟨-, -, rfl⟩ := append_of_mem ends
  rw [length_text_emit, map_append, map_cons, String.join_append, String.join_cons,
    String.length_append, String.length_append]
  have written : (Tok.text b.quoter (.kw .semicolon)).length = 1 := by
    rw [Tok.text, Keyword.text]
    decide
  omega

namespace Statement

variable {st : Statement} {b : Builder} {m : Model}

theorem buildable_withBuilder (same : b.r = st.builder.r) :
    (st.withBuilder b).buildable = st.buildable := by
  have known (m : Model) : (st.withBuilder b).known m = st.known m := by
    cases st <;> simp [withBuilder, known, same] <;> rfl
  simp [buildable, same, known]

theorem semicolon_mem_tokens (m : Model) (now : Int) : .kw .semicolon ∈ st.tokens m now := by
  cases st with
  | selector => simp [tokens, Selector.tokens, Selector.tailTokens]
  | updater => simp [tokens, Updater.tokens]
  | deleter =>
    rw [tokens, Deleter.tokens]
    cases m.deletedAtField <;> simp
  | inserter => simp [tokens, Inserter.tokens, Inserter.rowsTokens]

theorem start_text (m : Model) : (st.start m).text = st.builder.text := by
  cases st <;> rfl

theorem build_buildable (can : st.buildable = true) (now : Int) :
    ∃ b, b.r = st.builder.r ∧ st.builder.text.length < b.text.length ∧
      st.build now = (.ok ⟨b.text, b.args⟩, st.withBuilder b) := by
  obtain ⟨m, model, known⟩ := st.exists_model_of_buildable can
  refine ⟨emit (st.start m) (st.tokens m now), (st.start_within m).registry, ?_, ?_⟩
  · rw [← st.start_text m]
    exact length_text_lt _ (semicolon_mem_tokens m now)
  · rw [build, st.run_ok now model known]

theorem build_unbuildable (cannot : st.buildable = false) (now : Int) :
    ∃ e b, b.r = st.builder.r ∧ st.build now = (.error e, st.withBuilder b) := by
  obtain ⟨e, b, failed, same⟩ := st.run_fails now cannot
  exact ⟨e, b, same, by rw [build, failed]⟩

theorem buildable_build (now : Int) : (st.build now).2.buildable = st.buildable := by
  cases can : st.buildable with
  | true =>
    obtain ⟨b, same, -, built⟩ := build_buildable can now
    rw [built, ← can]
    exact buildable_withBuilder same
  | false =>
    obtain ⟨e, b, same, built⟩ := build_unbuildable can now
    rw [built, ← can]
    exact buildable_withBuilder same

/-! ## Calls in a row -/

def after (clock : Nat → Int) (st : Statement) : Nat → Statement
  | 0 => st
  | k + 1 => ((st.after clock k).build (clock k)).2

def query (clock : Nat → Int) (st : Statement) (k : Nat) : Option Query :=
  ((st.after clock k).build (clock k)).1.toOption

variable (clock : Nat → Int)

theorem buildable_after (k : Nat) : (st.after clock k).buildable = st.buildable := by
  induction k with
  | zero => rfl
  | succ k ih => exact (buildable_build (clock k)).trans ih

theorem query_unbuildable (cannot : st.buildable = false) (k : Nat) : st.query clock k = none := by
  have cannot : (st.after clock k).buildable = false := (buildable_after clock k).trans cannot
  obtain ⟨e, b, -, built⟩ := build_unbuildable cannot (clock k)
  rw [query, built]
  rfl

theorem query_buildable (can : st.buildable = true) (k : Nat) :
    ∃ args, st.query clock k = some ⟨(st.after clock (k + 1)).builder.text, args⟩ := by
  have can : (st.after clock k).buildable = true := (buildable_after clock k).trans can
  obtain ⟨b, -, -, built⟩ := build_buildable can (clock k)
  refine ⟨b.args, ?_⟩
  rw [query, after, built, withBuilder_builder]
  rfl

theorem text_after_lt (can : st.buildable = true) (k : Nat) :
    (st.after clock k).builder.text.length < (st.after clock (k + 1)).builder.text.length := by
  have can : (st.after clock k).buildable = true := (buildable_after clock k).trans can
  obtain ⟨b, -, longer, built⟩ := build_buildable can (clock k)
  rw [after, built, withBuilder_builder]
  exact longer

theorem text_after_strictMono (can : st.buildable = true) :
    StrictMono fun k => (st.after clock k).builder.text.length :=
  strictMono_nat_of_lt_succ (text_after_lt clock can)

end Statement

/-! ## The same query -/

def SameArg (x y : GoAny) : Prop := x = y ∨ ∃ s t, x = .time s ∧ y = .time t

structure SameQuery (q q' : Query) : Prop where
  sql : q.sql = q'.sql
  args : List.Forall₂ SameArg q.args q'.args

theorem SameQuery.refl (q : Query) : SameQuery q q where
  sql := rfl
  args := forall₂_same.mpr fun _ _ => .inl rfl

theorem Statement.query_same_iff (st : Statement) (clock : Nat → Int) (k : Nat) :
    Option.Rel SameQuery (st.query clock k) (st.query clock 0) ↔ k = 0 ∨ st.buildable = false := by
  cases can : st.buildable with
  | false =>
    rw [query_unbuildable clock can, query_unbuildable clock can]
    simp
  | true =>
    obtain ⟨args, later⟩ := query_buildable clock can k
    obtain ⟨args', first⟩ := query_buildable clock can 0
    constructor
    · intro same
      rw [later, first] at same
      cases same with
      | some same =>
        have lengths := congrArg String.length same.sql
        have := (text_after_strictMono clock can).injective lengths
        exact .inl (by omega)
    · rintro (rfl | impossible)
      · rw [first]
        exact .some (.refl _)
      · cases impossible

/-! ## Chains of middlewares -/

def Middleware.buildsFirst : Middleware → Bool
  | .queryLog => true
  | .slowQuery _ => false
  | .openTelemetry => true

variable {env : Env} {middlewares : List Middleware} {root : Handler} {w : World}

inductive World.Holds (can : Bool) : World → Prop
  | intro {st : Statement} {sent : List Query} {builds : Nat} :
      st.buildable = can → World.Holds can ⟨.statement st, sent, builds⟩

def World.textLength (w : World) : Nat :=
  match w.queryBuilder with
  | .statement st => st.builder.text.length
  | .chunk query => query.sql.length

theorem World.build_sent (env : Env) (w : World) : (w.build env).2.sent = w.sent := rfl

theorem World.Holds.build {can : Bool} (holds : w.Holds can) : (w.build env).2.Holds can := by
  cases holds with
  | intro can => exact .intro ((buildable_build _).trans can)

theorem World.Holds.build_ok (env : Env) (holds : w.Holds true) :
    ∃ query, (w.build env).1 = .ok query ∧ query.sql.length = (w.build env).2.textLength ∧
      w.textLength < (w.build env).2.textLength := by
  cases holds with
  | @intro st sent builds can =>
    obtain ⟨b, -, longer, built⟩ := build_buildable can (env.clock builds)
    refine ⟨⟨b.text, b.args⟩, ?_, ?_, ?_⟩
    · simp [World.build, QueryBuilder.build, built]
    · simp [World.build, QueryBuilder.build, built, World.textLength]
    · simpa only [World.build, QueryBuilder.build, built, World.textLength,
        withBuilder_builder] using longer

theorem World.Holds.build_error (holds : w.Holds false) : ∃ e, (w.build env).1 = .error e := by
  cases holds with
  | @intro st sent builds cannot =>
    obtain ⟨e, b, -, built⟩ := build_unbuildable cannot (env.clock builds)
    exact ⟨e, by simp [World.build, QueryBuilder.build, built]⟩

variable {query : Query}

theorem wrap_queryLog_ok (built : (w.build env).1 = .ok query) :
    queryLog.wrap env root w = root (w.build env).2 := by
  simp only [wrap]
  split
  case h_1 failed => rw [failed] at built; cases built
  case h_2 built => rw [built]

variable {err : OrmErr}

theorem wrap_queryLog_error (failed : (w.build env).1 = .error err) :
    queryLog.wrap env root w = (.error (.orm err), (w.build env).2) := by
  simp only [wrap]
  split
  case h_1 failed' => rw [failed'] at failed ⊢; cases failed; rfl
  case h_2 built => rw [built] at failed; cases failed

theorem chain_transparent (later : middlewares.any buildsFirst = false) (w : World) :
    (chain env middlewares root w).1 = (root w).1 ∧
      (chain env middlewares root w).2.sent = (root w).2.sent := by
  induction middlewares with
  | nil => exact ⟨rfl, rfl⟩
  | cons middleware rest ih =>
    rw [any_cons, Bool.or_eq_false_iff] at later
    cases middleware with
    | queryLog | openTelemetry => cases later.1
    | slowQuery slow =>
      cases slow with
      | true | false => exact ih later.2

theorem chain_quiet {C : World → Prop} (closed : ∀ w, C w → C (w.build env).2)
    (quiet : ∀ w, C w → (root w).2.sent = w.sent) (start : C w) :
    (chain env middlewares root w).2.sent = w.sent := by
  induction middlewares generalizing w with
  | nil => exact quiet w start
  | cons middleware rest ih =>
    cases middleware with
    | queryLog =>
      rw [chain, foldr_cons]
      cases built : (w.build env).1 with
      | error => rw [wrap_queryLog_error built, World.build_sent]
      | ok =>
        rw [wrap_queryLog_ok built]
        exact ih (closed w start)
    | openTelemetry => exact ih (closed w start)
    | slowQuery slow =>
      refine Eq.trans ?_ (ih start)
      cases slow <;> rfl

def Sends (env : Env) (root : Handler) : Prop :=
  ∀ w : World, w.Holds true → ∃ query, (root w).2.sent = w.sent ++ [query] ∧
    query.sql.length = (w.build env).2.textLength

theorem chain_sends (middlewares : List Middleware) (sends : Sends env root)
    (holds : w.Holds true) : ∃ query, (chain env middlewares root w).2.sent = w.sent ++ [query] ∧
      w.textLength < query.sql.length ∧
      (middlewares.any buildsFirst = true → (w.build env).2.textLength < query.sql.length) := by
  induction middlewares generalizing w with
  | nil =>
    obtain ⟨query, sent, length⟩ := sends w holds
    obtain ⟨_, -, -, longer⟩ := holds.build_ok env
    exact ⟨query, sent, by omega, fun impossible => by cases impossible⟩
  | cons middleware rest ih =>
    -- the calls of `Build` so far have written the text of this world
    have built : ∃ query,
        (chain env rest root (w.build env).2).2.sent = w.sent ++ [query] ∧
        w.textLength < query.sql.length ∧ (w.build env).2.textLength < query.sql.length := by
      obtain ⟨query, sent, longer, -⟩ := ih holds.build
      obtain ⟨_, -, -, grown⟩ := holds.build_ok env
      exact ⟨query, sent, by omega, longer⟩
    obtain ⟨query, sent, longer, later⟩ := built
    cases middleware with
    | queryLog =>
      obtain ⟨_, built, -⟩ := holds.build_ok env
      refine ⟨query, ?_, longer, fun _ => later⟩
      rw [chain, foldr_cons, wrap_queryLog_ok built]
      exact sent
    | openTelemetry => exact ⟨query, sent, longer, fun _ => later⟩
    | slowQuery slow =>
      obtain ⟨query, sent, longer, later⟩ := ih holds
      refine ⟨query, Eq.trans ?_ sent, longer, later⟩
      cases slow <;> rfl

theorem execHandler_ok (built : (w.build env).1 = .ok query) :
    (execHandler env w).2.sent = w.sent ++ [query] := by
  simp only [execHandler]
  split
  case h_1 failed => rw [failed] at built; cases built
  case h_2 query' w' result =>
    rw [result] at built
    cases built
    rw [← World.build_sent env w, result]

theorem execHandler_error (failed : (w.build env).1 = .error err) :
    (execHandler env w).2.sent = w.sent := by
  simp only [execHandler]
  split
  case h_1 result => rw [← World.build_sent env w, result]
  case h_2 result => rw [result] at failed; cases failed

theorem execHandler_sends : Sends env (execHandler env) := by
  intro w holds
  obtain ⟨query, built, length, -⟩ := holds.build_ok env
  exact ⟨query, execHandler_ok built, length⟩

theorem handle_same_iff (st : Statement) (sends : Sends env root)
    (quiet : ∀ w : World, w.Holds false → (root w).2.sent = w.sent) :
    List.Forall₂ SameQuery (st.handle env middlewares root).2 (st.handle env [] root).2 ↔
      middlewares.any buildsFirst = false ∨ st.buildable = false := by
  cases can : st.buildable with
  | false =>
    have holds : World.Holds false { queryBuilder := .statement st } := .intro can
    have sent (middlewares : List Middleware) : (st.handle env middlewares root).2 = [] :=
      chain_quiet (fun _ holds => holds.build) quiet holds
    rw [sent, sent]
    simp
  | true =>
    have holds : World.Holds true { queryBuilder := .statement st } := .intro can
    obtain ⟨query, sent, -, later⟩ := chain_sends middlewares sends holds
    obtain ⟨query', alone, length⟩ := sends _ holds
    constructor
    · intro same
      have through : (st.handle env middlewares root).2 = [query] := sent
      have direct : (st.handle env [] root).2 = [query'] := alone
      rw [through, direct] at same
      have lengths := congrArg String.length (forall₂_cons.mp same).1.sql
      refine .inl (Bool.eq_false_iff.mpr fun first => ?_)
      have := later first
      omega
    · rintro (transparent | impossible)
      · rw [handle, (chain_transparent transparent _).2]
        exact forall₂_same.mpr fun query _ => .refl query
      · cases impossible

/-! ## Chunks -/

theorem chain_chunk (env : Env) (middlewares : List Middleware) (query : Query)
    (sent : List Query) (builds : Nat) :
    (chain env middlewares (execHandler env) ⟨.chunk query, sent, builds⟩).1 =
        (env.session (sent ++ [query])).mapError .session ∧
      (chain env middlewares (execHandler env) ⟨.chunk query, sent, builds⟩).2.sent =
        sent ++ [query] := by
  induction middlewares generalizing builds with
  | nil => exact ⟨rfl, rfl⟩
  | cons middleware rest ih =>
    cases middleware with
    | queryLog | openTelemetry => exact ih (builds + 1)
    | slowQuery slow =>
      cases slow with
      | true | false => exact ih builds

theorem execChunked_same (middlewares : List Middleware) (chunks : List (List (Option Instance)))
    (i : Inserter) (sent : List Query) (rows : Nat) :
    i.execChunked env middlewares chunks sent rows = i.execChunked env [] chunks sent rows := by
  induction chunks generalizing i sent rows with
  | nil => rfl
  | cons chunk rest ih =>
    simp [Inserter.execChunked, chain_chunk, ih]

/-! ## `Exec` and `Get` -/

def Statement.sendsWhole (env : Env) (now : Int) : Statement → Bool
  | .selector s => env.hooks.beforeQuery.isOk && (Statement.selector s).buildable
  | .deleter d => (Statement.deleter d).buildable
  | .updater u =>
    match u.prepare env.hooks now with
    | .error _ => false
    | .ok u => (Statement.updater u).buildable
  | .inserter i =>
    match i.prepare env.hooks now with
    | .error _ => false
    | .ok i =>
      !decide (0 < i.chunkSize ∧ i.chunkSize < i.values.length) &&
        (Statement.inserter i).buildable

theorem exec_handler_same_iff (st : Statement) :
    List.Forall₂ SameQuery (st.handle env middlewares (execHandler env)).2
        (st.handle env [] (execHandler env)).2 ↔
      middlewares.any buildsFirst = false ∨ st.buildable = false := by
  refine handle_same_iff st execHandler_sends fun w holds => ?_
  obtain ⟨e, failed⟩ := holds.build_error
  exact execHandler_error failed

theorem get_handler_same_iff (st : Statement) :
    List.Forall₂ SameQuery (st.handle env middlewares (getHandler env)).2
        (st.handle env [] (getHandler env)).2 ↔ middlewares.any buildsFirst = false ∨
        (env.hooks.beforeQuery.isOk && st.buildable) = false := by
  cases hook : env.hooks.beforeQuery with
  | error =>
    have quiet (w : World) : (getHandler env w).2.sent = w.sent := by
      simp [getHandler, hook]
    have sent (middlewares : List Middleware) : (st.handle env middlewares (getHandler env)).2 =
      [] :=
      chain_quiet (C := fun _ => True) (fun _ _ => trivial) (fun w _ => quiet w) trivial
    rw [sent, sent]
    simp [Except.toBool]
  | ok =>
    have same : getHandler env = execHandler env := by
      funext w
      simp [getHandler, hook]
    rw [same]
    exact exec_handler_same_iff st

theorem exec_same_iff (st : Statement) (now : Int) :
    List.Forall₂ SameQuery (st.exec env middlewares now).2 (st.exec env [] now).2 ↔
      middlewares.any buildsFirst = false ∨ st.sendsWhole env now = false := by
  have nothing : List.Forall₂ SameQuery [] [] := .nil
  cases st with
  | selector s =>
    cases model : s.builder.r s.entity with
    | error =>
      have cannot : (selector s).buildable = false := by
        simp [buildable, builder, entity, model]
      simp only [exec, model, sendsWhole, cannot, Bool.and_false, or_true, iff_true]
      exact nothing
    | ok m =>
      have same : ((selector s).withBuilder
          { s.builder with model := some m }).buildable = (selector s).buildable :=
        buildable_withBuilder rfl
      simp only [exec, model, sendsWhole]
      rw [get_handler_same_iff, ← same]
      rfl
  | deleter d =>
    cases model : d.builder.r d.entity with
    | error =>
      have cannot : (deleter d).buildable = false := by
        simp [buildable, builder, entity, model]
      simp only [exec, model, sendsWhole, cannot, or_true, iff_true]
      exact nothing
    | ok m =>
      have same : ((deleter d).withBuilder
          { d.builder with model := some m }).buildable = (deleter d).buildable :=
        buildable_withBuilder rfl
      simp only [exec, model, sendsWhole]
      rw [exec_handler_same_iff, ← same]
      rfl
  | updater u =>
    cases prepared : u.prepare env.hooks now with
    | error =>
      simp only [exec, prepared, sendsWhole, or_true, iff_true]
      exact nothing
    | ok =>
      simp only [exec, prepared, sendsWhole]
      exact exec_handler_same_iff _
  | inserter i =>
    cases prepared : i.prepare env.hooks now with
    | error =>
      simp only [exec, prepared, sendsWhole, or_true, iff_true]
      exact nothing
    | ok i =>
      simp only [exec, prepared, sendsWhole]
      by_cases chunked : 0 < i.chunkSize ∧ i.chunkSize < i.values.length
      · simp only [chunked, and_self, if_true, execChunked_same middlewares, decide_true,
          Bool.not_true, Bool.false_and, or_true, iff_true]
        exact forall₂_same.mpr fun query _ => .refl query
      · simp only [chunked, if_false, decide_false, Bool.not_false, Bool.true_and]
        exact exec_handler_same_iff _

/-- The call number `k` of `Build` returns what the first returns, and the middlewares change
nothing in what `Exec` or `Get` sends, if and only if it is the first call or the statement
cannot be built, and no middleware builds before the query is sent or the statement is not
sent whole. -/
theorem Statement.repeats_iff (st : Statement) (env : Env) (middlewares : List Middleware)
    (now : Int) (k : Nat) :
    Option.Rel SameQuery (st.query env.clock k) (st.query env.clock 0) ∧
        List.Forall₂ SameQuery (st.exec env middlewares now).2 (st.exec env [] now).2 ↔
      (k = 0 ∨ st.buildable = false) ∧
        (middlewares.any Middleware.buildsFirst = false ∨ st.sendsWhole env now = false) :=
  and_congr (st.query_same_iff env.clock k) (exec_same_iff st now)

def userModel : Model where
  tableName := "user"
  fieldMap name := if name = "Id" then some ⟨"id", "Id"⟩ else none
  fields := [⟨"id", "Id"⟩]
  deletedAtField := none
  versionField := none

def deleteUser : Deleter where
  builder := { r := fun _ => .ok userModel, quoter := '`' }
  entity := "User"
  where_ := [(col "Id").eq (.plain (.int 1))]

/-- The second call of `Build` returns the statement twice, and with the query log in the
chain this is what is sent. -/
theorem delete_not_repeatable :
    (Statement.deleter deleteUser).query (fun _ => 0) 0 =
        some ⟨"DELETE FROM `user` WHERE `id` = ?;", [.int 1]⟩ ∧
      (Statement.deleter deleteUser).query (fun _ => 0) 1 =
        some ⟨"DELETE FROM `user` WHERE `id` = ?;DELETE FROM `user` WHERE `id` = ?;",
          [.int 1, .int 1]⟩ ∧
      ((Statement.deleter deleteUser).exec ⟨fun _ => .ok 1, fun _ => 0, {}⟩ [] 0).2 =
        [⟨"DELETE FROM `user` WHERE `id` = ?;", [.int 1]⟩] ∧
      ((Statement.deleter deleteUser).exec ⟨fun _ => .ok 1, fun _ => 0, {}⟩ [.queryLog] 0).2 =
        [⟨"DELETE FROM `user` WHERE `id` = ?;DELETE FROM `user` WHERE `id` = ?;",
          [.int 1, .int 1]⟩] := by
  decide

end Soil.Orm
