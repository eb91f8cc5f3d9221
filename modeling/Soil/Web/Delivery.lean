import Soil.Web.Chain

/-!
# Delivery of responses

What a client gets of the response that middlewares and handlers have put into the
`Context`.  `flashResp` adds the headers of the context to those of the writer and is left
out for a context that is done; a middleware that rejects a request writes its answer
itself.
-/

namespace Soil.Web.Chain

open List Middleware Context Layer Outcome

open Soil.Web.Http

def Outcome.Delivered (req : Request) (o : Outcome) : Prop :=
  ∃ ctx, o = .returned ctx ∧ ∃ r, ctx.resp.received req.isHead = some r ∧ r.body = ctx.respData ∧
    r.status = statusOf ctx.respStatusCode ∧
    ∀ kv ∈ ctx.respHeaders.entries, r.header.values kv.1 = [kv.2]

instance (req : Request) : (o : Outcome) → Decidable (o.Delivered req)
  | .panicked _ => .isFalse fun ⟨_, same, _⟩ => by cases same
  | .returned ctx => decidable_of_iff
      (∃ r ∈ ctx.resp.received req.isHead, r.body = ctx.respData ∧
        r.status = statusOf ctx.respStatusCode ∧
        ∀ kv ∈ ctx.respHeaders.entries, r.header.values kv.1 = [kv.2])
      ⟨fun arrives => ⟨ctx, rfl, arrives⟩, fun ⟨_, same, arrives⟩ => by cases same; exact arrives⟩

def Route.aborts : Route → Bool
  | .handled handler | .grouped _ handler => handler.aborts
  | .notFound | .methodNotAllowed _ => false

/-! ## The ways in and out -/

structure Context.Unwritten (ctx : Context) : Prop where
  sent : ctx.resp.sent = none
  body : ctx.resp.body = []
  done : ctx.done = false

section

variable {s : Setting} {m : Middleware} {ctx : Context} {o : Outcome}

theorem Cors.announce_resp (mb : Cors) (allowOrigin : Text) (ctx : Context) :
    (mb.announce allowOrigin ctx).resp = ctx.resp ∧
      (mb.announce allowOrigin ctx).done = ctx.done := by
  simp only [Cors.announce]
  split <;> split <;> exact ⟨rfl, rfl⟩

theorem Middleware.enter_unwritten (unwritten : ctx.Unwritten) :
    ((m.layer s).enter ctx).Unwritten := by
  cases m with
  | requestid | ratelimit => exact ⟨unwritten.sent, unwritten.body, unwritten.done⟩
  | cors mb =>
    simp only [layer]
    split
    · obtain ⟨resp, done⟩ := mb.announce_resp (mb.allowOrigin s.req) ctx
      exact ⟨resp ▸ unwritten.sent, resp ▸ unwritten.body, done ▸ unwritten.done⟩
    · exact unwritten
  | _ => exact unwritten

structure Outcome.Kept (o o' : Outcome) : Prop where
  resp : o'.ctx.resp = o.ctx.resp
  done : o'.ctx.done = o.ctx.done
  returned : ∀ ctx, o = .returned ctx →
    ∃ ctx', o' = .returned ctx' ∧ ctx'.respStatusCode = ctx.respStatusCode

theorem Outcome.Kept.refl (o : Outcome) : o.Kept o :=
  ⟨rfl, rfl, fun ctx same => ⟨ctx, same, rfl⟩⟩

theorem Outcome.Kept.trans {o o' o'' : Outcome} (first : o.Kept o') (second : o'.Kept o'') :
    o.Kept o'' := by
  refine ⟨second.resp.trans first.resp, second.done.trans first.done, fun ctx same => ?_⟩
  obtain ⟨ctx', same', status⟩ := first.returned ctx same
  obtain ⟨ctx'', same'', status'⟩ := second.returned ctx' same'
  exact ⟨ctx'', same'', status'.trans status⟩

theorem Gzip.shrink_keeps (mb : Gzip) (compress : Int → Text → Text) :
    (mb.shrink compress ctx).resp = ctx.resp ∧ (mb.shrink compress ctx).done = ctx.done ∧
      (mb.shrink compress ctx).respStatusCode = ctx.respStatusCode := by
  rw [Gzip.shrink]
  split
  · exact ⟨rfl, rfl, rfl⟩
  · split
    · exact ⟨rfl, rfl, rfl⟩
    · split <;> exact ⟨rfl, rfl, rfl⟩

theorem Outcome.kept_map {f : Context → Context}
    (keeps : ∀ ctx, (f ctx).resp = ctx.resp ∧ (f ctx).done = ctx.done ∧
      (f ctx).respStatusCode = ctx.respStatusCode) : o.Kept (o.map f) := by
  cases o with
  | returned ctx =>
    obtain ⟨resp, done, status⟩ := keeps ctx
    exact ⟨resp, done, fun _ same => ⟨_, rfl, by cases same; exact status⟩⟩
  | panicked => exact ⟨rfl, rfl, fun _ same => by cases same⟩

theorem Middleware.leave_kept : o.Kept ((m.layer s).leave o) := by
  cases m with
  | recovery =>
    cases o with
    | returned => exact .refl _
    | panicked => exact ⟨rfl, rfl, fun _ same => by cases same⟩
  | gzip mb =>
    apply kept_map
    intro ctx
    split
    · exact mb.shrink_keeps s.compress
    · exact ⟨rfl, rfl, rfl⟩
  | errhdl =>
    apply kept_map
    intro ctx
    exact ⟨rfl, rfl, rfl⟩
  | _ => exact .refl _

structure Context.Rejected (ctx : Context) (req : Request) : Prop where
  final : Final ctx.respStatusCode
  done : ctx.done = true
  written : ∃ w : Writer, w.sent = none ∧ w.body = [] ∧ w.header = ctx.resp.header ∧
    w.send req.isHead ctx.respStatusCode ctx.respData = some ctx.resp

theorem send_of_final (head : Bool) {code : Int} (data : Text) {w : Writer} (fresh : w.sent = none)
    (final : Final code) : ∃ w', w.send head code data = some w' ∧ w'.header = w.header := by
  have positive : 0 < code := by
    rcases final with rfl | inside <;> omega
  rw [Writer.send, if_pos positive, writeHeader_of_final fresh final]
  refine ⟨_, rfl, ?_⟩
  simp only [Writer.write]
  split
  · rfl
  · split <;> rfl

theorem Context.rejected_answer (code : Int) (data : Text) (unwritten : ctx.Unwritten)
    (final : Final code) : ((ctx.answer s.req code data).abort code data).Rejected s.req := by
  obtain ⟨w', sends, same⟩ := send_of_final s.req.isHead data unwritten.sent final
  have resp : (ctx.answer s.req code data).resp = w' := by rw [answer, sends]; rfl
  refine ⟨final, rfl, ctx.resp, unwritten.sent, unwritten.body, ?_, ?_⟩
  · change ctx.resp.header = (ctx.answer s.req code data).resp.header
    rw [resp, same]
  · change ctx.resp.send s.req.isHead code data = some (ctx.answer s.req code data).resp
    rw [resp, sends]

theorem Middleware.stop_rejected (unwritten : ctx.Unwritten)
    (stopped : (m.layer s).stop ctx = some o) :
    ∃ ctx', o = .returned ctx' ∧ ctx'.Rejected s.req := by
  cases m with simp only [layer] at stopped
  | cors =>
    split at stopped
    · cases stopped
      refine ⟨_, rfl, ?_⟩
      rw [Cors.noContent]
      split
      · exact rejected_answer _ _ ⟨unwritten.sent, unwritten.body, unwritten.done⟩ (.inr (by omega))
      · exact rejected_answer _ _ unwritten (.inr (by omega))
    · cases stopped
  | ratelimit allowed =>
    cases allowed with
    | true => cases stopped
    | false =>
      cases stopped
      exact ⟨_, rfl, rejected_answer _ _
        ⟨unwritten.sent, unwritten.body, unwritten.done⟩ (.inr (by omega))⟩
  | bodysize =>
    split at stopped
    · cases stopped
      exact ⟨_, rfl, rejected_answer 413 _ unwritten (.inr (by omega))⟩
    · cases stopped
  | _ => cases stopped

theorem Call.run_resp (call : Call) : (call.run ctx).resp = ctx.resp := by
  cases call with
  | respJson code val => cases val <;> rfl
  | _ => rfl

theorem Handler.run_resp (h : Handler) : (h.run ctx).ctx.resp = ctx.resp := by
  have calls : (h.calls.foldl Call.run ctx).resp = ctx.resp := by
    induction h.calls generalizing ctx with
    | nil => rfl
    | cons call calls ih =>
      rw [foldl_cons, ih]
      exact call.run_resp
  rw [Handler.run]
  split <;> exact calls

theorem Handler.run_done (h : Handler) : (h.run ctx).ctx.done = (ctx.done || h.aborts) := by
  have calls : (h.calls.foldl Call.run ctx).done = (ctx.done || h.aborts) := by
    rw [Handler.aborts]
    induction h.calls generalizing ctx with
    | nil => simp
    | cons call calls ih =>
      rw [foldl_cons, ih, any_cons, ← Bool.or_assoc]
      congr 1
      cases call with
      | respJson code val => cases val <;> simp [Call.run, respond, setHeader]
      | _ => simp [Call.run, respond, setHeader, abort]
  rw [Handler.run]
  split <;> exact calls

theorem Route.core_keeps (route : Route) (ctx : Context) : (route.core ctx).ctx.resp = ctx.resp ∧
      (route.core ctx).ctx.done = (ctx.done || route.aborts) := by
  cases route with
  | handled h | grouped rg h => exact ⟨h.run_resp, h.run_done⟩
  | notFound | methodNotAllowed => exact ⟨rfl, (Bool.or_false _).symm⟩

end

/-! ## The headers of the writer -/

def requestIDs (mdls : List Middleware) : List Text := mdls.filterMap fun m =>
  match m with
  | .requestid headerName _ => some (canonicalKey headerName)
  | _ => none

open Header

section

variable {s : Setting} {ctx : Context} {key : Text}

theorem Middleware.enter_header (m : Middleware) :
    ((m.layer s).enter ctx).resp.header.values key = [] ↔
      ctx.resp.header.values key = [] ∧ key ∉ requestIDs [m] := by
  cases m with
  | requestid headerName uuid =>
    have values : (((requestid headerName uuid).layer s).enter ctx).resp.header.values
        key = if key = canonicalKey headerName then
          [if s.req.header.get headerName = [] then uuid else s.req.header.get headerName]
        else ctx.resp.header.values key := values_set
    rw [values]
    by_cases same : key = canonicalKey headerName
    · simp [requestIDs, same]
    · simp [requestIDs, same]
  | cors mb =>
    have same : (((cors mb).layer s).enter ctx).resp = ctx.resp := by
      simp only [layer]
      split
      · exact (mb.announce_resp _ ctx).1
      · rfl
    rw [same]
    simp [requestIDs]
  | _ => simp [requestIDs, layer, setHeader]

theorem requestIDs_cons (m : Middleware) (mdls : List Middleware) :
    key ∈ requestIDs (m :: mdls) ↔ key ∈ requestIDs [m] ∨ key ∈ requestIDs mdls := by
  rw [requestIDs, requestIDs, requestIDs, ← mem_append, ← filterMap_append]
  rfl

theorem approach_header (mdls : List Middleware)
    (free : (approach (mdls.map (layer s)) ctx).stopped = none) :
    (approach (mdls.map (layer s)) ctx).input.resp.header.values key = [] ↔
      ctx.resp.header.values key = [] ∧ key ∉ requestIDs mdls := by
  induction mdls generalizing ctx with
  | nil => simp [approach, requestIDs]
  | cons m mdls ih =>
    rw [map_cons] at free ⊢
    obtain ⟨-, rest, -, input⟩ := approach_cons_free free
    rw [input, ih rest, m.enter_header, requestIDs_cons m mdls, not_or, and_assoc]

theorem foldl_add {entries : Header} (canonical : ∀ kv ∈ entries, canonicalKey kv.1 = kv.1)
    (h : Header) : entries.foldl (fun h kv => h.add kv.1 kv.2) h = h ++ entries := by
  induction entries generalizing h with
  | nil => simp
  | cons kv entries ih =>
    rw [foldl_cons, ih fun kv' inside => canonical kv' (mem_cons_of_mem _ inside),
      add, canonical kv mem_cons_self]
    simp

theorem sent_once {f : Fields} {h : Header} :
    (∀ kv ∈ f.entries, values (sane (h ++ f.entries)) kv.1 = [kv.2]) ↔
      ∀ kv ∈ f.entries, h.values kv.1 = [] ∧
        (kv.1 = contentLengthKey → parseLength kv.2 ≠ none) := by
  have both : ∀ kv ∈ f.entries, values (h ++ f.entries) kv.1 = h.values kv.1 ++ [kv.2] :=
    fun kv inside => by rw [values_append, Fields.values_of_mem inside]
  constructor
  · intro once kv inside
    have here := once kv inside
    rw [values_sane] at here
    split at here
    · cases here
    rename_i kept
    rw [both kv inside] at here
    have none_ : h.values kv.1 = [] := by simpa using here
    refine ⟨none_, fun same bad => kept ⟨same, ?_⟩⟩
    rw [contentLength, ← same, both kv inside, none_]
    exact bad
  · intro fresh kv inside
    obtain ⟨none_, number⟩ := fresh kv inside
    rw [values_sane, both kv inside, none_]
    split
    · rename_i bad
      exfalso
      apply number bad.1
      have declared := bad.2
      rw [contentLength, ← bad.1, both kv inside, none_] at declared
      exact declared
    · rfl

end

/-! ## Who answers -/

section

variable {s : Setting} {mdls : List Middleware} {route : Route}

theorem way_unwritten (s : Setting) (mdls : List Middleware) (route : Route) :
    (way s mdls route).input.Unwritten := by
  apply approach_induct (P := Context.Unwritten)
  · intro l inside ctx unwritten
    obtain ⟨m, -, rfl⟩ := mem_map.mp inside
    exact m.enter_unwritten unwritten
  · exact ⟨rfl, rfl, rfl⟩

theorem way_kept (s : Setting) (mdls : List Middleware) (route : Route) (o : Outcome) :
    o.Kept (unwind (way s mdls route).passed o) := by
  apply unwind_induct (Q := fun o' => o.Kept o')
  · intro l inside o' kept
    obtain ⟨m, -, rfl⟩ := mem_map.mp (approach_passed _ _ inside)
    exact kept.trans m.leave_kept
  · exact .refl o

theorem way_rejected {o : Outcome} (stopped : (way s mdls route).stopped = some o) :
    ∃ ctx, o = .returned ctx ∧ ctx.Rejected s.req := by
  obtain ⟨l, inside, answer⟩ := approach_stopped stopped
  obtain ⟨m, -, rfl⟩ := mem_map.mp inside
  exact m.stop_rejected (way_unwritten s mdls route) answer

end

/-! ## What is delivered -/

def Mirrored (req : Request) (answer ctx : Context) : Prop :=
  let body := through req.isHead answer.respStatusCode answer.resp.header answer.respData
  ctx.respData = body ∧ Complete req.isHead answer.respStatusCode answer.resp.header body ∧
    ∀ kv ∈ ctx.respHeaders.entries, answer.resp.header.sane.values kv.1 = [kv.2]

def Blank (req : Request) (ctx : Context) : Prop :=
  statusOf ctx.respStatusCode = 200 ∧ ctx.respData = [] ∧
    Complete req.isHead 200 ctx.resp.header [] ∧
    ∀ kv ∈ ctx.respHeaders.entries, ctx.resp.header.sane.values kv.1 = [kv.2]

def Sendable (req : Request) (written : List Text) (ctx : Context) : Prop :=
  let status := statusOf ctx.respStatusCode
  let header := ctx.resp.header ++ ctx.respHeaders.entries
  Final status ∧ through req.isHead status header ctx.respData = ctx.respData ∧
    Complete req.isHead status header ctx.respData ∧
    ∀ kv ∈ ctx.respHeaders.entries, kv.1 ∉ written ∧
      (kv.1 = contentLengthKey → parseLength kv.2 ≠ none)

section

variable {req : Request} {ctx answer : Context}

theorem delivered_returned : (returned ctx).Delivered req ↔
    ∃ r, ctx.resp.received req.isHead = some r ∧ r.body = ctx.respData ∧
      r.status = statusOf ctx.respStatusCode ∧
      ∀ kv ∈ ctx.respHeaders.entries, r.header.values kv.1 = [kv.2] := by
  constructor
  · rintro ⟨ctx, ⟨rfl⟩, arrives⟩
    exact arrives
  · intro arrives
    exact ⟨ctx, rfl, arrives⟩

theorem Context.Rejected.delivered_mirrored (rejected : answer.Rejected req)
    (resp : ctx.resp = answer.resp) (status : ctx.respStatusCode = answer.respStatusCode) :
    (returned ctx).Delivered req ↔ Mirrored req answer ctx := by
  obtain ⟨w, fresh, empty, header, sends⟩ := rejected.written
  have same : statusOf answer.respStatusCode = answer.respStatusCode := by
    apply if_neg
    rintro zero
    rcases rejected.final with no | no <;> omega
  have arrives := received_statusOf req.isHead answer.respStatusCode answer.respData fresh empty
    fun h body => body = ctx.respData ∧ ∀ kv ∈ ctx.respHeaders.entries, h.values kv.1 = [kv.2]
  rw [sends, header, same] at arrives
  simp only [Option.some.injEq, exists_eq_left', rejected.final, true_and] at arrives
  rw [delivered_returned, resp, status, same, Mirrored]
  constructor
  · rintro ⟨r, received, body, code, headers⟩
    obtain ⟨complete, data, all⟩ := arrives.mp ⟨r, received, code, body, headers⟩
    exact ⟨data.symm, complete, all⟩
  · rintro ⟨data, complete, all⟩
    obtain ⟨r, received, code, body, headers⟩ := arrives.mpr ⟨complete, data.symm, all⟩
    exact ⟨r, received, body, code, headers⟩

theorem delivered_unwritten (fresh : ctx.resp.sent = none) (empty : ctx.resp.body = []) :
    (returned ctx).Delivered req ↔ Blank req ctx := by
  have line : ctx.resp.statusLine = (200, ctx.resp.header.sane) := by
    rw [Writer.statusLine, fresh]
    rfl
  rw [delivered_returned, Blank]
  simp only [received_eq_some, line, empty, Complete, contentLength_sane]
  constructor
  · rintro ⟨-, ⟨complete, rfl⟩, data, status, headers⟩
    exact ⟨status.symm, data.symm, complete, headers⟩
  · rintro ⟨status, data, complete, headers⟩
    exact ⟨_, ⟨complete, rfl⟩, data.symm, status.symm, headers⟩

theorem flashResp_delivered {written : List Text} (fresh : ctx.resp.sent = none)
    (empty : ctx.resp.body = []) (names : ∀ key, ctx.resp.header.values key = [] ↔ key ∉ written) :
    (flashResp req ctx).Delivered req ↔ Sendable req written ctx := by
  have arrives := received_statusOf (w := { ctx.resp with
      header := ctx.resp.header ++ ctx.respHeaders.entries })
    req.isHead ctx.respStatusCode ctx.respData fresh empty
    fun h body => body = ctx.respData ∧ ∀ kv ∈ ctx.respHeaders.entries, h.values kv.1 = [kv.2]
  have flash : (flashResp req ctx).Delivered req ↔ ∃ w', ({ ctx.resp with
      header := ctx.resp.header ++ ctx.respHeaders.entries } : Writer).send req.isHead
        ctx.respStatusCode ctx.respData = some w' ∧ ∃ r, w'.received req.isHead = some r ∧
          r.status = statusOf ctx.respStatusCode ∧ r.body = ctx.respData ∧
          ∀ kv ∈ ctx.respHeaders.entries, r.header.values kv.1 = [kv.2] := by
    rw [flashResp]
    simp only [mapHeader, foldl_add ctx.respHeaders.canonical]
    split
    · rename_i w' sends
      rw [delivered_returned, sends]
      simp only [Option.some.injEq, exists_eq_left']
      tauto
    · rename_i panics
      rw [panics]
      simp [Outcome.Delivered]
  rw [flash, arrives, Sendable]
  simp only [sent_once, names]
  constructor
  · rintro ⟨final, complete, data, headers⟩
    rw [data] at complete
    exact ⟨final, data, complete, headers⟩
  · rintro ⟨final, data, complete, headers⟩
    rw [data]
    exact ⟨final, complete, rfl, headers⟩

end

/-- How the response of a request is delivered.  A middleware that rejects the request has
sent what the context says in the end.  A handler that aborts says no more than what is
sent in any case.  Otherwise a panic is recovered, the response can be sent, and none of
its headers is one of a requestid middleware. -/
def Deliverable (s : Setting) (mdls : List Middleware) (route : Route) : Prop :=
  let way := way s mdls route
  match way.stopped with
  | some answer => Mirrored s.req answer.ctx (Layer.unwind way.passed answer).ctx
  | none =>
    match Layer.unwind way.passed (route.core way.input) with
    | .panicked _ => False
    | .returned ctx =>
      if route.aborts then Blank s.req ctx
      else Sendable s.req (requestIDs (mdls ++ route.middlewares)) ctx

end Soil.Web.Chain
