import Soil.Web.CompressedChain

/-!
# Transparent compression

Whether a client that undoes the codings of a response has the response of the handler, and
whether it is told all the request headers on which the response depends.
-/

namespace Soil.Web.Chain

open List Context Outcome

open Soil.Web.Http

def Outcome.response (req : Request) : Outcome → Option Response
  | .returned ctx => ctx.resp.received req.isHead
  | .panicked _ => none

def Permitted (req : Request) (status : Int) : Prop :=
  req.isHead = false ∧ bodyAllowed status = true

instance (req : Request) (status : Int) : Decidable (Permitted req status) :=
  inferInstanceAs (Decidable (_ ∧ _))

/-- The codings of the response that is sent, undone from the last to the first, give what
the codings of the handler's own response give, where the handler has answered; and the
response names in `Vary` all that gzip and cors middlewares have declared. -/
def Transparent (c : Codec) (req : Request) (mdls : List Middleware) (route : Route)
    (own : Context) : Prop :=
  let s : Setting := { compress := c.compress, req }
  ∀ r, (serveHTTP s mdls route).response req = some r →
    ((way s mdls route).stopped = none → Permitted req r.status → c.decode r.header.codings r.body =
        c.decode (Header.codings own.respHeaders.entries) own.respData) ∧
    ∀ field ∈ declared s route.core (mdls ++ route.middlewares) .fresh,
      field.map toLower ∈ r.header.varies

instance (c : Codec) (req : Request) (mdls : List Middleware) (route : Route) (own : Context) :
    Decidable (Transparent c req mdls route own) :=
  inferInstanceAs (Decidable (∀ r ∈ Outcome.response req _, (_ → _ → _) ∧ ∀ field ∈ _, _))

/-- Compression and cors do no harm to the handler's own response: one that it aborts with
has nothing to lose; one that is compressed is not encoded already, is compressed once, and
no cors middleware has declared anything; in one that is not, the handler declares no
`Content-Length` that suppresses the body, and keeps the `Vary` of cors middlewares. -/
def Harmless (req : Request) (ms : List Middleware) (own : Context) : Prop :=
  let header := own.respHeaders.entries
  if own.done then
    (req.isHead = false → Header.codings header = [] ∧ own.respData = []) ∧
      announced req ms = false ∧ ¬ Compresses req ms own
  else
    ∀ status, sentStatus own.respStatusCode = some status →
      if Compresses req ms own then
        (Permitted req status →
          Header.codings header = [] ∧ Single (gzips ms) own.respData.length) ∧
        announced req ms = false
      else
        let body := through req.isHead status header own.respData
        Complete req.isHead status header body →
          (Permitted req status → body = own.respData) ∧
          (announced req ms = true →
            Header.values header varyKey = [] ∨ utf8 "origin" ∈ Header.varies header)

/-! ## Responses that are flushed -/

open Header

section

variable {req : Request} {ctx : Context} {r : Response}

structure Context.Clear (ctx : Context) : Prop where
  sent : ctx.resp.sent = none
  body : ctx.resp.body = []
  writer : ∀ key ∈ headerKeys, ctx.resp.header.values key = []

def Context.sentHeader (ctx : Context) : Header :=
  Header.sane (ctx.resp.header ++ ctx.respHeaders.entries)

theorem Context.Clear.of_resp {ctx' : Context} (clear : ctx.Clear) (same : ctx'.resp = ctx.resp) :
    ctx'.Clear :=
  ⟨same ▸ clear.sent, same ▸ clear.body, same ▸ clear.writer⟩

variable {key : Text}

section

variable (clear : ctx.Clear)
include clear

theorem Context.Clear.values (inside : key ∈ headerKeys) :
    values (ctx.resp.header ++ ctx.respHeaders.entries) key =
      values ctx.respHeaders.entries key := by
  rw [values_append, clear.writer key inside, nil_append]

theorem Context.Clear.sent_values (inside : key ∈ headerKeys) (other : key ≠ contentLengthKey) :
    ctx.sentHeader.values key = Header.values ctx.respHeaders.entries key := by
  rw [sentHeader, Header.values_sane, if_neg fun both => other both.1, clear.values inside]

theorem Context.Clear.codings : ctx.sentHeader.codings = Header.codings ctx.respHeaders.entries :=
  Header.codings_congr (clear.sent_values (by decide +kernel) (by decide +kernel))

theorem Context.Clear.varies : ctx.sentHeader.varies = Header.varies ctx.respHeaders.entries :=
  Header.varies_congr (clear.sent_values (by decide +kernel) (by decide +kernel))

theorem Context.Clear.contentLength :
    Header.contentLength (ctx.resp.header ++ ctx.respHeaders.entries) =
      Header.contentLength ctx.respHeaders.entries := by
  rw [Header.contentLength, Header.contentLength, clear.values (by decide +kernel)]

theorem flashResp_response : (flashResp req ctx).response req = some r ↔
      ∃ status, sentStatus ctx.respStatusCode = some status ∧
        Complete req.isHead status ctx.respHeaders.entries
          (through req.isHead status ctx.respHeaders.entries ctx.respData) ∧
        r = ⟨status, ctx.sentHeader,
          through req.isHead status ctx.respHeaders.entries ctx.respData⟩ := by
  have arrives := received_send (w := { ctx.resp with
      header := ctx.resp.header ++ ctx.respHeaders.entries })
    req.isHead ctx.respStatusCode ctx.respData clear.sent clear.body (r := r)
  simp only [through, Complete, clear.contentLength] at arrives ⊢
  rw [← sentHeader] at arrives
  rw [← arrives, flashResp]
  simp only [mapHeader, foldl_add ctx.respHeaders.canonical]
  split
  · rename_i w' sends
    simp [response, sends]
  · rename_i panics
    simp [response, panics]

theorem unwritten_response :
    (returned ctx).response req = some r ↔ r = ⟨200, ctx.resp.header.sane, []⟩ := by
  have undeclared : ctx.resp.header.contentLength = none := by
    rw [contentLength, clear.writer _ (by decide +kernel)]
    rfl
  have line : ctx.resp.statusLine = (200, ctx.resp.header.sane) := by
    rw [Writer.statusLine, clear.sent]
    rfl
  rw [response, received_eq_some, line, clear.body]
  simp [Complete, contentLength_sane, undeclared]

end

end

/-! ## Requests that reach the handler -/

structure Context.Produced (req : Request) (ms : List Middleware) (own produced : Context) :
    Prop where
  status : produced.respStatusCode = own.respStatusCode
  data : produced.respData = own.respData
  done : produced.done = own.done
  clear : produced.Clear
  fields : ∀ key ∈ headerKeys, Header.values produced.respHeaders.entries key =
    if Header.values own.respHeaders.entries key = [] then
      if key = varyKey ∧ announced req ms = true then [utf8 "Origin"] else []
    else Header.values own.respHeaders.entries key

section

variable {req : Request} {ms : List Middleware} {own produced : Context}

section

variable (made : own.Produced req ms produced)
include made

theorem Context.Produced.same {key : Text} (inside : key ∈ headerKeys) (other : key ≠ varyKey) :
    values produced.respHeaders.entries key = values own.respHeaders.entries key := by
  rw [made.fields key inside]
  split
  · rename_i none_
    rw [if_neg fun both => other both.1, none_]
  · rfl

theorem Context.Produced.codings :
    codings produced.respHeaders.entries = codings own.respHeaders.entries :=
  codings_congr (made.same (by decide +kernel) (by decide +kernel))

theorem Context.Produced.contentType :
    produced.respHeaders.get contentTypeKey = own.respHeaders.get contentTypeKey := by
  have key : canonicalKey contentTypeKey = contentTypeKey := by decide +kernel
  rw [Fields.get, Fields.get, Header.get, Header.get, key,
    made.same (by decide +kernel) (by decide +kernel)]

theorem Context.Produced.contentLength : Header.contentLength produced.respHeaders.entries =
      Header.contentLength own.respHeaders.entries := by
  rw [Header.contentLength, Header.contentLength, made.same (by decide +kernel) (by decide +kernel)]

theorem Context.Produced.compresses_iff : Compresses req ms produced ↔ Compresses req ms own := by
  simp [Compresses, Gzip.takes_congr made.data made.contentType]

theorem Context.Produced.origin_mem_varies (announces : announced req ms = true) :
    utf8 "origin" ∈ Header.varies produced.respHeaders.entries ↔
      Header.values own.respHeaders.entries varyKey = [] ∨
        utf8 "origin" ∈ Header.varies own.respHeaders.entries := by
  have values := made.fields varyKey (by decide +kernel)
  by_cases none_ : Header.values own.respHeaders.entries varyKey = []
  · rw [if_pos none_, if_pos ⟨rfl, announces⟩] at values
    have tokens : utf8 "origin" ∈ [utf8 "Origin"].flatMap tokens := by decide +kernel
    simp only [none_, true_or, iff_true]
    rw [Header.varies, ← varyKey, values]
    exact tokens
  · rw [if_neg none_] at values
    rw [Header.varies_congr values]
    simp [none_]

end

end

section

variable {s : Setting} {mdls : List Middleware} {route : Route} {own : Context}

theorem serveHTTP_produced (returned : route.core {} = .returned own)
    (bystanders : ∀ m ∈ mdls ++ route.middlewares, m.Bystander s.req own.respStatusCode)
    (free : (way s mdls route).stopped = none) :
    ∃ produced, own.Produced s.req (mdls ++ route.middlewares) produced ∧ serveHTTP s mdls route =
        (if own.done then .returned (squeezed s (mdls ++ route.middlewares) produced)
        else flashResp s.req (squeezed s (mdls ++ route.middlewares) produced)) ∧ ∀ P : Text → Prop,
        (∀ field ∈ declared s route.core (mdls ++ route.middlewares) {}, P field) ↔
          (announced s.req (mdls ++ route.middlewares) = true → P (utf8 "Origin")) ∧
          (Compresses s.req (mdls ++ route.middlewares) own → P (utf8 "Accept-Encoding")) := by
  have unwritten := way_unwritten s mdls route
  have entered := approach_entered bystanders free
  have untouched : (way s mdls route).input.Over {} (way s mdls route).input := by
    refine ⟨entered.status, entered.data, unwritten.done, fun key => ?_⟩
    rw [if_pos]
    rfl
  obtain ⟨produced, answers, over_⟩ := Route.core_over untouched returned
  obtain ⟨resp, -⟩ := route.core_keeps (way s mdls route).input
  rw [answers] at resp
  have made : own.Produced s.req (mdls ++ route.middlewares) produced := by
    refine ⟨over_.status, over_.data, over_.done, ⟨?_, ?_, ?_⟩, ?_⟩
    · exact resp ▸ unwritten.sent
    · exact resp ▸ unwritten.body
    · intro key inside
      rw [show produced.resp = _ from resp]
      exact entered.writer key inside
    · intro key inside
      rw [over_.fields key]
      exact congrArg (ite _ · _) (entered.fields key inside)
  have others : ∀ m ∈ mdls ++ route.middlewares, m.Bystander s.req produced.respStatusCode :=
    made.status ▸ bystanders
  refine ⟨produced, made, ?_, fun P => ?_⟩
  · have passed : (way s mdls route).passed =
        (mdls ++ route.middlewares).map (Middleware.layer s) := Layer.approach_through free
    rw [serveHTTP, chain_serve, passed, free, Option.getD_none, answers, unwind_squeezed others]
    simp [(squeezed_keeps s _ produced).2.1, made.done]
  · simp [mem_declared free answers others, made.compresses_iff, or_imp, forall_and]

theorem Cors.noContent_header {mb : Cors} {req : Request} {ctx : Context}
    (allowed : mb.allowOrigin req ≠ []) (fresh : ctx.resp.sent = none) :
    (mb.noContent req ctx).resp.header = mb.preflight (mb.allowOrigin req) ctx.resp.header := by
  obtain ⟨w', sends, same⟩ := send_of_final req.isHead []
    (w := (ctx.mapHeader (mb.preflight (mb.allowOrigin req))).resp) fresh
    (.inr (by omega) : Final 204)
  rw [Cors.noContent, if_pos allowed]
  simp only [abort, answer, sends]
  exact same

theorem Cors.origin_mem_varies (mb : Cors) (allowOrigin : Text) (h : Header) :
    (utf8 "Origin").map toLower ∈ (mb.preflight allowOrigin h).sane.varies := by
  have other : utf8 "Vary" ≠ contentLengthKey := by decide +kernel
  have key : canonicalKey (utf8 "Vary") = utf8 "Vary" := by decide +kernel
  have tokens : (utf8 "Origin").map toLower ∈ tokens (utf8 "Origin") := by decide +kernel
  rw [varies, values_sane, if_neg fun both => other both.1, Cors.preflight,
    add, values_append, key, values_singleton, if_pos rfl]
  exact mem_flatMap.mpr ⟨_, mem_append_right _ mem_cons_self, tokens⟩

theorem preflight_declares {r : Response} {status : Int} {field : Text}
    (bystanders : ∀ m ∈ mdls ++ route.middlewares, m.Bystander s.req status)
    {o : Outcome} (stopped : (way s mdls route).stopped = some o)
    (arrives : (serveHTTP s mdls route).response s.req = some r)
    (inside : field ∈ declared s route.core (mdls ++ route.middlewares) {}) :
    field.map toLower ∈ r.header.varies := by
  obtain ⟨rfl, mb, allowed, rfl⟩ := declared_preflight bystanders rfl stopped inside
  obtain ⟨answer, same, rejected⟩ := way_rejected stopped
  obtain ⟨resp, done, returns⟩ := way_kept s mdls route (.returned answer)
  obtain ⟨ctx, returned, -⟩ := returns answer rfl
  rw [returned] at resp done
  have isDone : ctx.done = true := done.trans rejected.done
  rw [serveHTTP, chain_serve, stopped, Option.getD_some, same, returned] at arrives
  simp only [isDone, if_true, response, show ctx.resp = _ from resp] at arrives
  obtain ⟨w, fresh, empty, header, sends⟩ := rejected.written
  obtain ⟨status, -, -, rfl⟩ := (received_send _ _ _ fresh empty).mp ⟨_, sends, arrives⟩
  cases same
  simp only [header]
  have unsent := (way_unwritten s mdls route).sent
  rw [way] at unsent
  rw [Cors.noContent_header allowed unsent]
  exact mb.origin_mem_varies _ _

end

/-! ## One codec -/

section

variable {c : Codec} {req : Request} {mdls : List Middleware} {route : Route} {own : Context}
  (returned : route.core {} = .returned own)
  (bystanders : ∀ m ∈ mdls ++ route.middlewares, m.Bystander req own.respStatusCode)
  (reaches : ¬ Preflight req (mdls ++ route.middlewares))

include returned bystanders reaches

theorem transparent_aborted (aborted : own.done = true) : Transparent c req mdls route own ↔
      (req.isHead = false → some [] = c.decode (codings own.respHeaders.entries) own.respData) ∧
      announced req (mdls ++ route.middlewares) = false ∧
      ¬ Compresses req (mdls ++ route.middlewares) own := by
  have free : (way { compress := c.compress, req } mdls route).stopped = none :=
    (approach_free_iff bystanders).mpr reaches
  obtain ⟨produced, made, served, fields⟩ := serveHTTP_produced returned bystanders free
  obtain ⟨-, -, resp⟩ :=
    squeezed_keeps { compress := c.compress, req } (mdls ++ route.middlewares) produced
  have blank : ∀ key ∈ headerKeys, key ≠ contentLengthKey →
      produced.resp.header.sane.values key = [] := by
    intro key inside other
    rw [values_sane, if_neg fun both => other both.1, made.clear.writer key inside]
  have codings : produced.resp.header.sane.codings = [] := by
    rw [codings, ← contentEncodingKey, blank _ (by decide +kernel) (by decide +kernel)]
    rfl
  have varies : produced.resp.header.sane.varies = [] := by
    rw [varies, ← varyKey, blank _ (by decide +kernel) (by decide +kernel)]
    rfl
  have allowed : bodyAllowed 200 = true := by decide
  simp only [Transparent, served, aborted, if_true, unwritten_response (made.clear.of_resp resp),
    resp, forall_eq, free, forall_true_left, codings, varies, Codec.decode_nil, not_mem_nil,
    Permitted, allowed, and_true]
  rw [fields fun _ => False, imp_false, imp_false, Bool.not_eq_true]

theorem transparent_flushed (flushed : own.done = false) :
    ∃ produced, own.Produced req (mdls ++ route.middlewares) produced ∧ ∀ final header,
      squeezed { compress := c.compress, req } (mdls ++ route.middlewares) produced = final →
      final.respHeaders.entries = header →
      (Transparent c req mdls route own ↔ ∀ status, sentStatus own.respStatusCode = some status →
          Complete req.isHead status header (through req.isHead status header final.respData) →
          (Permitted req status →
            c.decode (codings header) (through req.isHead status header final.respData) =
              c.decode (codings own.respHeaders.entries) own.respData) ∧
          (announced req (mdls ++ route.middlewares) = true → utf8 "origin" ∈ varies header) ∧
          (Compresses req (mdls ++ route.middlewares) own →
            utf8 "accept-encoding" ∈ varies header)) := by
  have free : (way { compress := c.compress, req } mdls route).stopped = none :=
    (approach_free_iff bystanders).mpr reaches
  obtain ⟨produced, made, served, fields⟩ := serveHTTP_produced returned bystanders free
  refine ⟨produced, made, ?_⟩
  rintro final header squeezes rfl
  obtain ⟨status, -, resp⟩ :=
    squeezed_keeps { compress := c.compress, req } (mdls ++ route.middlewares) produced
  rw [squeezes] at served status resp
  have clear : final.Clear := made.clear.of_resp resp
  have same : final.respStatusCode = own.respStatusCode := status.trans made.status
  have lower : (utf8 "Origin").map toLower = utf8 "origin" ∧
      (utf8 "Accept-Encoding").map toLower = utf8 "accept-encoding" := by decide +kernel
  rw [flushed, if_neg Bool.false_ne_true] at served
  have declares := fields fun field =>
    field.map toLower ∈ varies final.respHeaders.entries
  rw [lower.1, lower.2] at declares
  rw [← same]
  constructor
  · intro transparent status sent complete
    obtain ⟨body, vary⟩ := transparent _ (by
      rw [served]
      exact (flashResp_response clear).mpr ⟨status, sent, complete, rfl⟩)
    simp only [clear.codings, clear.varies] at body vary
    exact ⟨body free, declares.mp vary⟩
  · intro holds r arrives
    rw [served] at arrives
    obtain ⟨status, sent, complete, rfl⟩ := (flashResp_response clear).mp arrives
    obtain ⟨body, vary⟩ := holds status sent complete
    simp only [clear.codings, clear.varies]
    exact ⟨fun _ => body, declares.mpr vary⟩

theorem transparent_plain (flushed : own.done = false)
    (plain : ¬ Compresses req (mdls ++ route.middlewares) own) :
    let header := own.respHeaders.entries
    Transparent c req mdls route own ↔
      ∀ status, sentStatus own.respStatusCode = some status →
        Complete req.isHead status header (through req.isHead status header own.respData) →
        (Permitted req status →
          c.decode (codings header) (through req.isHead status header own.respData) =
            c.decode (codings header) own.respData) ∧
        (announced req (mdls ++ route.middlewares) = true →
          values header varyKey = [] ∨ utf8 "origin" ∈ varies header) := by
  intro header
  obtain ⟨produced, made, transparent⟩ :=
    transparent_flushed (c := c) returned bystanders reaches flushed
  have leaves : squeezed { compress := c.compress, req } (mdls ++ route.middlewares) produced =
      produced := squeezed_of_not_compresses (made.compresses_iff.not.mpr plain)
  rw [transparent produced _ leaves rfl]
  simp only [made.codings, made.data, through_congr made.contentLength,
    complete_congr made.contentLength, plain, false_imp_iff, and_true]
  apply forall_congr'
  intro status
  apply imp_congr_right
  intro sent
  apply imp_congr_right
  intro complete
  apply and_congr_right
  intro body
  exact imp_congr_right made.origin_mem_varies

theorem transparent_compressed (flushed : own.done = false)
    (compresses : Compresses req (mdls ++ route.middlewares) own) :
    Transparent c req mdls route own ↔ ∀ status, sentStatus own.respStatusCode = some status →
        (Permitted req status → c.decode [utf8 "gzip"]
              (squeeze c.compress (gzips (mdls ++ route.middlewares)) own).respData =
            c.decode (codings own.respHeaders.entries) own.respData) ∧
        announced req (mdls ++ route.middlewares) = false := by
  obtain ⟨produced, made, transparent⟩ :=
    transparent_flushed (c := c) returned bystanders reaches flushed
  have again := made.compresses_iff.mpr compresses
  have final : squeezed { compress := c.compress, req } (mdls ++ route.middlewares) produced =
      squeeze c.compress (gzips (mdls ++ route.middlewares)) produced :=
    squeezed_of_compresses again
  have packed := squeeze_packed c.compress again.2
  have data := (squeeze_congr c.compress (gzips (mdls ++ route.middlewares)) made.data
    made.contentType).1
  have none_ : utf8 "origin" ∉ [utf8 "accept-encoding"] := by decide +kernel
  rw [transparent _ _ final rfl]
  simp only [Complete, through, packed.contentLength, packed.codings, packed.varies, data,
    compresses, forall_true_left, none_, imp_false, Bool.not_eq_true, mem_singleton, and_true,
    Option.not_mem_none, false_imp_iff, implies_true, false_and, exists_false, or_false]
  apply forall_congr'
  intro status
  apply imp_congr_right
  intro sent
  apply and_congr_left'
  apply imp_congr_right
  rintro ⟨get, allowed⟩
  rw [if_neg (by simp [get, allowed])]

end

/-! ## Every codec -/

/-- Compression is transparent with every codec if and only if a cors middleware answers the
request, or gzip and cors middlewares do no harm to the response of the handler. -/
theorem transparent_iff (req : Request) (mdls : List Middleware) (route : Route) (own : Context)
    (returned : route.core {} = .returned own)
    (bystanders : ∀ m ∈ mdls ++ route.middlewares, m.Bystander req own.respStatusCode) :
    (∀ c, Transparent c req mdls route own) ↔
      Preflight req (mdls ++ route.middlewares) ∨ Harmless req (mdls ++ route.middlewares) own := by
  by_cases preflight : Preflight req (mdls ++ route.middlewares)
  · simp only [preflight, true_or, iff_true]
    intro c r arrives
    have stopped : (way { compress := c.compress, req } mdls route).stopped ≠ none :=
      fun free => (approach_free_iff bystanders).mp free preflight
    obtain ⟨o, stopped⟩ := Option.ne_none_iff_exists'.mp stopped
    constructor
    · intro free
      rw [stopped] at free
      cases free
    · intro field inside
      exact preflight_declares bystanders stopped arrives inside
  · simp only [preflight, false_or, Harmless]
    cases done : own.done with
    | true =>
      rw [if_pos rfl]
      simp only [transparent_aborted returned bystanders preflight done]
      rw [forall_and, forall_const, forall_comm]
      simp [decode_all_blank_iff]
    | false =>
      rw [if_neg Bool.false_ne_true]
      by_cases compresses : Compresses req (mdls ++ route.middlewares) own
      · simp only [if_pos compresses]
        simp only [transparent_compressed returned bystanders preflight done compresses]
        rw [forall_comm]
        apply forall_congr'
        intro status
        rw [forall_comm]
        apply imp_congr_right
        intro sent
        rw [forall_and, forall_const, forall_comm]
        simp [decode_all_squeeze_iff compresses.2]
      · simp only [if_neg compresses]
        simp only [transparent_plain returned bystanders preflight done compresses]
        rw [forall_comm]
        apply forall_congr'
        intro status
        rw [forall_comm]
        apply imp_congr_right
        intro sent
        rw [forall_comm]
        apply imp_congr_right
        intro complete
        rw [forall_and, forall_const, forall_comm]
        simp [decode_all_eq_iff]

theorem transparent_page :
    let req : Request := { method := utf8 "GET", header := [(utf8 "Accept-Encoding", utf8 "gzip")] }
    let page : Handler := { calls := [.respString 200 (utf8 "page")] }
    let group : RouterGroup := .root [.gzip { minSize := 1 }]
    ∀ c, Transparent c req [.accesslog, .gzip { level := 10 }] (.grouped group page)
      (page.run {}).ctx := by
  intro req page group
  refine (transparent_iff req [.accesslog, .gzip { level := 10 }] (.grouped group page)
    (page.run {}).ctx rfl ?_).mpr (.inr ?_)
  · intro m inside
    simp only [group, Route.middlewares, RouterGroup.allMiddlewares, cons_append,
      nil_append, mem_cons, not_mem_nil, or_false] at inside
    rcases inside with rfl | rfl | rfl <;> trivial
  · rw [Harmless, if_neg (by decide)]
    intro status sent
    rw [if_pos (by decide +kernel)]
    exact ⟨fun _ => by decide +kernel, rfl⟩

/-- Two gzip middlewares compress a response twice and name one coding; a response that is
encoded already loses the name of its coding; and the `Vary` of gzip replaces that of cors. -/
theorem compression_not_transparent :
    let accept := [(utf8 "Accept-Encoding", utf8 "gzip"), (utf8 "Origin", utf8 "o")]
    let req : Request := { method := utf8 "GET", header := accept }
    let page : Handler := { calls := [.respString 200 (utf8 "page")] }
    let encoded : Handler := { calls := [.respString 200 (utf8 "page"),
      .setHeader (utf8 "Content-Encoding") (utf8 "br")] }
    let gzip : Middleware := .gzip { minSize := 1 }
    let cors : Middleware := .cors { allowOrigins := [utf8 "o"] }
    let c := Codec.padded (utf8 "gz:") fun _ => none
    ¬ Transparent c req [gzip] (.grouped (.root [gzip]) page) (page.run {}).ctx ∧
      ¬ Transparent c req [gzip] (.handled encoded) (encoded.run {}).ctx ∧
      ¬ Transparent c req [cors, gzip] (.handled page) (page.run {}).ctx ∧
      ¬ Transparent c req [gzip, cors] (.handled page) (page.run {}).ctx := by
  decide +kernel

end Soil.Web.Chain
