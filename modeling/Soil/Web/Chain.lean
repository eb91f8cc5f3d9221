import Soil.Onion
import Soil.Web.Http

/-!
# Middlewares around a handler

The middlewares of the web server that work on the response, and `ServeHTTP` with the chain
they form: those of the server, those of the groups of the route from the parent to the
child, and the handler.  A middleware is a function from what comes next to a function on
the `Context`; a call can panic.  What middlewares and handlers only read of the request is
in `Request`; which token bucket says what, and the identifier that `uuid.New` makes, are
given with the middleware.
-/

namespace Soil.Web.Chain

open Layer

open Soil.Web.Http

/-! ## Requests and contexts -/

structure Request where
  method : Text
  header : Header := []
  contentLength : Int := 0
  deriving DecidableEq

def Request.isHead (req : Request) : Bool := req.method = utf8 "HEAD"

structure Context where
  respStatusCode : Int := 0
  respData : Text := []
  respHeaders : Fields := {}
  requestID : Text := []
  done : Bool := false
  resp : Writer := {}
  deriving DecidableEq

namespace Context

abbrev fresh : Context := {}

def setHeader (ctx : Context) (key value : Text) : Context :=
  { ctx with respHeaders := ctx.respHeaders.set key value }

def mapHeader (ctx : Context) (f : Header → Header) : Context :=
  { ctx with resp := { ctx.resp with header := f ctx.resp.header } }

def abort (ctx : Context) (code : Int) (msg : Text) : Context :=
  { ctx with done := true, respStatusCode := code, respData := msg }

def respond (ctx : Context) (contentType : String) (code : Int) (data : Text) : Context :=
  { ctx.setHeader (utf8 "Content-Type") (utf8 contentType) with
    respStatusCode := code, respData := data }

end Context

inductive Outcome where
  | returned (ctx : Context)
  | panicked (ctx : Context)
  deriving DecidableEq

def Outcome.ctx : Outcome → Context
  | .returned ctx | .panicked ctx => ctx

abbrev HandleFunc := Context → Outcome

/-! ## Handlers -/

inductive Call where
  | respJson (code : Int) (val : Option Text)
  | respString (code : Int) (text : Text)
  | respHTML (code : Int) (html : Text)
  | setHeader (key value : Text)
  | abort (code : Int) (msg : Text)
  deriving DecidableEq

def Call.run (ctx : Context) : Call → Context
  | .respJson code (some bs) => ctx.respond "application/json; charset=utf-8" code bs
  | .respJson _ none => ctx
  | .respString code text => ctx.respond "text/plain; charset=utf-8" code text
  | .respHTML code html => ctx.respond "text/html; charset=utf-8" code html
  | .setHeader key value => ctx.setHeader key value
  | .abort code msg => ctx.abort code msg

structure Handler where
  calls : List Call
  panics : Bool := false
  deriving DecidableEq

def Handler.run (h : Handler) : HandleFunc := fun ctx =>
  let ctx := h.calls.foldl Call.run ctx
  if h.panics then .panicked ctx else .returned ctx

def Handler.aborts (h : Handler) : Bool := h.calls.any fun call =>
  match call with
  | .abort .. => true
  | _ => false

/-! ## Middlewares -/

def join (s : List Text) : Text := (utf8 ", ").intercalate s

def itoa (n : Int) : Text := utf8 (toString n)

def recovery (next : HandleFunc) : HandleFunc := fun ctx =>
  match next ctx with
  | .returned ctx => .returned ctx
  | .panicked ctx => .returned
      { ctx with respStatusCode := 500, respData := utf8 "Internal Server Error" }

def Context.identify (ctx : Context) (req : Request) (headerName uuid : Text) : Context :=
  let given := req.header.get headerName
  let requestID := if given = [] then uuid else given
  let ctx := { ctx with requestID }
  let ctx := ctx.setHeader headerName requestID
  ctx.mapHeader (·.set headerName requestID)

def requestid (req : Request) (headerName uuid : Text) (next : HandleFunc) : HandleFunc :=
  fun ctx => next (ctx.identify req headerName uuid)

def accesslog (next : HandleFunc) : HandleFunc := next

structure Cors where
  allowOrigins : List Text := []
  allowMethods : List Text := ["GET", "POST", "PUT", "DELETE", "PATCH", "OPTIONS", "HEAD"].map utf8
  allowHeaders : List Text := []
  exposeHeaders : List Text := []
  allowCredentials : Bool := false
  maxAge : Int := 43200
  exclusive : ¬ (utf8 "*" ∈ allowOrigins ∧ allowCredentials = true) := by decide
  deriving DecidableEq

def Cors.matchOrigin (mb : Cors) (origin : Text) : Text :=
  if origin = [] then []
  else
    match mb.allowOrigins.find? fun o => o = utf8 "*" ∨ o = origin with
    | some o => if o = utf8 "*" then utf8 "*" else origin
    | none => []

def Cors.preflight (mb : Cors) (allowOrigin : Text) (h : Header) : Header :=
  let h := h.set (utf8 "Access-Control-Allow-Origin") allowOrigin
  let h := if mb.allowCredentials then h.set (utf8 "Access-Control-Allow-Credentials") (utf8 "true")
    else h
  let h := if 0 < mb.allowMethods.length then
      h.set (utf8 "Access-Control-Allow-Methods") (join mb.allowMethods)
    else h
  let h := if 0 < mb.allowHeaders.length then
      h.set (utf8 "Access-Control-Allow-Headers") (join mb.allowHeaders)
    else h
  let h := if 0 < mb.maxAge then h.set (utf8 "Access-Control-Max-Age") (itoa mb.maxAge) else h
  h.add (utf8 "Vary") (utf8 "Origin")

def Cors.announce (mb : Cors) (allowOrigin : Text) (ctx : Context) : Context :=
  let ctx := ctx.setHeader (utf8 "Access-Control-Allow-Origin") allowOrigin
  let ctx := if mb.allowCredentials then
      ctx.setHeader (utf8 "Access-Control-Allow-Credentials") (utf8 "true")
    else ctx
  let ctx := if 0 < mb.exposeHeaders.length then
      ctx.setHeader (utf8 "Access-Control-Expose-Headers") (join mb.exposeHeaders)
    else ctx
  ctx.setHeader (utf8 "Vary") (utf8 "Origin")

def Context.answer (ctx : Context) (req : Request) (code : Int) (data : Text) : Context :=
  { ctx with resp := (ctx.resp.send req.isHead code data).getD ctx.resp }

def Cors.allowOrigin (mb : Cors) (req : Request) : Text :=
  mb.matchOrigin (req.header.get (utf8 "Origin"))

def Cors.noContent (mb : Cors) (req : Request) (ctx : Context) : Context :=
  let ctx := if mb.allowOrigin req ≠ [] then ctx.mapHeader (mb.preflight (mb.allowOrigin req))
    else ctx
  let ctx := ctx.answer req 204 []
  ctx.abort 204 []

def cors (req : Request) (mb : Cors) (next : HandleFunc) : HandleFunc := fun ctx =>
  if req.method = utf8 "OPTIONS" then .returned (mb.noContent req ctx)
  else next (if mb.allowOrigin req ≠ [] then mb.announce (mb.allowOrigin req) ctx else ctx)

def Context.tooManyRequests (ctx : Context) (req : Request) : Context :=
  let ctx := ctx.mapHeader (·.set (utf8 "X-RateLimit-Remaining") (utf8 "0"))
  let ctx := ctx.answer req 429 (utf8 "Too Many Requests")
  ctx.abort 429 (utf8 "Too Many Requests")

def ratelimit (req : Request) (allowed : Bool) (remaining : Int) (next : HandleFunc) : HandleFunc :=
  fun ctx =>
    if allowed then next (ctx.setHeader (utf8 "X-RateLimit-Remaining") (itoa remaining))
    else .returned (ctx.tooManyRequests req)

def Context.tooLarge (ctx : Context) (req : Request) : Context :=
  let ctx := ctx.abort 413 (utf8 "Request Entity Too Large")
  ctx.answer req 413 (utf8 "Request Entity Too Large")

def bodysize (req : Request) (maxBytes : Int) (next : HandleFunc) : HandleFunc := fun ctx =>
  if maxBytes < req.contentLength then .returned (ctx.tooLarge req) else next ctx

def shouldCompress (contentType : Text) : Bool :=
  let mediaType := trimSpace ((contentType.takeWhile (· ≠ 59)).map toLower)
  if mediaType = [] then false
  else if (utf8 "text/").isPrefixOf mediaType then true
  else mediaType ∈ ["application/json", "application/javascript", "application/x-javascript",
    "text/javascript", "application/xml", "text/xml", "application/xhtml+xml",
    "application/atom+xml", "application/rss+xml", "application/ld+json",
    "application/manifest+json", "application/x-www-form-urlencoded", "image/svg+xml"].map utf8

structure Gzip where
  minSize : Int := 1024
  level : Int := -1
  deriving DecidableEq

def Gzip.validLevel (mb : Gzip) : Prop := -2 ≤ mb.level ∧ mb.level ≤ 9

instance (mb : Gzip) : Decidable mb.validLevel := inferInstanceAs (Decidable (_ ∧ _))

def Request.acceptsGzip (req : Request) : Prop :=
  utf8 "gzip" <:+: req.header.get (utf8 "Accept-Encoding")

instance (req : Request) : Decidable req.acceptsGzip :=
  inferInstanceAs (Decidable (_ <:+: _))

def Gzip.shrink (mb : Gzip) (compress : Int → Text → Text) (ctx : Context) : Context :=
  if ctx.respData.length < mb.minSize then ctx
  else if shouldCompress (ctx.respHeaders.get (utf8 "Content-Type")) = false then ctx
  else if mb.validLevel then
    let ctx := { ctx with respData := compress mb.level ctx.respData }
    let ctx := ctx.setHeader (utf8 "Content-Encoding") (utf8 "gzip")
    let ctx := ctx.setHeader (utf8 "Vary") (utf8 "Accept-Encoding")
    { ctx with respHeaders := ctx.respHeaders.del (utf8 "Content-Length") }
  else ctx

def gzip (compress : Int → Text → Text) (req : Request) (mb : Gzip) (next : HandleFunc) :
    HandleFunc := fun ctx =>
  if req.acceptsGzip then
    match next ctx with
    | .returned ctx => .returned (mb.shrink compress ctx)
    | .panicked ctx => .panicked ctx
  else next ctx

def errhdl (resp : Int → Option Text) (next : HandleFunc) : HandleFunc := fun ctx =>
  match next ctx with
  | .returned ctx =>
    match resp ctx.respStatusCode with
    | some data => .returned { ctx with respData := data }
    | none => .returned ctx
  | .panicked ctx => .panicked ctx

inductive Middleware where
  | recovery
  | requestid (headerName uuid : Text)
  | accesslog
  | cors (mb : Cors)
  | ratelimit (allowed : Bool) (remaining : Int)
  | bodysize (maxBytes : Int)
  | gzip (mb : Gzip)
  | errhdl (resp : Int → Option Text)

structure Setting where
  compress : Int → Text → Text
  req : Request

def Middleware.build (s : Setting) : Middleware → HandleFunc → HandleFunc
  | .recovery => Chain.recovery
  | .requestid headerName uuid => Chain.requestid s.req headerName uuid
  | .accesslog => Chain.accesslog
  | .cors mb => Chain.cors s.req mb
  | .ratelimit allowed remaining => Chain.ratelimit s.req allowed remaining
  | .bodysize maxBytes => Chain.bodysize s.req maxBytes
  | .gzip mb => Chain.gzip s.compress s.req mb
  | .errhdl resp => Chain.errhdl resp

/-! ## Groups and the server -/

inductive RouterGroup where
  | root (mdls : List Middleware)
  | sub (parent : RouterGroup) (mdls : List Middleware)

def RouterGroup.allMiddlewares : RouterGroup → List Middleware
  | .root mdls => mdls
  | .sub parent mdls => parent.allMiddlewares ++ mdls

def chain (s : Setting) (mdls : List Middleware) (next : HandleFunc) : HandleFunc :=
  mdls.foldr (Middleware.build s) next

def RouterGroup.wrap (s : Setting) (rg : RouterGroup) (handler : HandleFunc) : HandleFunc :=
  chain s rg.allMiddlewares handler

inductive Route where
  | notFound
  | methodNotAllowed (allowedMethods : List Text)
  | handled (handler : Handler)
  | grouped (rg : RouterGroup) (handler : Handler)

def serve (s : Setting) : Route → HandleFunc
  | .notFound => fun ctx => .returned
      { ctx with respStatusCode := 404, respData := utf8 "404 page not found" }
  | .methodNotAllowed allowedMethods => fun ctx => .returned
      (({ ctx with respStatusCode := 405, respData := utf8 "405 method not allowed" } : Context)
        |>.setHeader (utf8 "Allow") (join allowedMethods))
  | .handled handler => handler.run
  | .grouped rg handler => rg.wrap s handler.run

def flashResp (req : Request) (ctx : Context) : Outcome :=
  let ctx := ctx.mapHeader fun h =>
    ctx.respHeaders.entries.foldl (fun h kv => h.add kv.1 kv.2) h
  match ctx.resp.send req.isHead ctx.respStatusCode ctx.respData with
  | some resp => .returned { ctx with resp }
  | none => .panicked ctx

def serveHTTP (s : Setting) (mdls : List Middleware) (route : Route) : Outcome :=
  match chain s mdls (serve s route) {} with
  | .returned ctx => if ctx.done then .returned ctx else flashResp s.req ctx
  | .panicked ctx => .panicked ctx

/-! ## Layers -/

def Outcome.map (f : Context → Context) : Outcome → Outcome
  | .returned ctx => .returned (f ctx)
  | .panicked ctx => .panicked ctx

def Outcome.recover : Outcome → Outcome
  | .returned ctx => .returned ctx
  | .panicked ctx => .returned
      { ctx with respStatusCode := 500, respData := utf8 "Internal Server Error" }

def Middleware.layer (s : Setting) : Middleware → Layer Context Outcome
  | .recovery => { leave := Outcome.recover }
  | .requestid headerName uuid => { enter := fun ctx => ctx.identify s.req headerName uuid }
  | .accesslog => {}
  | .cors mb =>
    { stop := fun ctx =>
        if s.req.method = utf8 "OPTIONS" then some (.returned (mb.noContent s.req ctx)) else none
      enter := fun ctx =>
        if mb.allowOrigin s.req ≠ [] then mb.announce (mb.allowOrigin s.req) ctx else ctx }
  | .ratelimit allowed remaining =>
    { stop := fun ctx => if allowed then none else some (.returned (ctx.tooManyRequests s.req))
      enter := fun ctx => ctx.setHeader (utf8 "X-RateLimit-Remaining") (itoa remaining) }
  | .bodysize maxBytes =>
    { stop := fun ctx =>
        if maxBytes < s.req.contentLength then some (.returned (ctx.tooLarge s.req)) else none }
  | .gzip mb =>
    { leave := Outcome.map fun ctx =>
        if s.req.acceptsGzip then mb.shrink s.compress ctx else ctx }
  | .errhdl resp =>
    { leave := Outcome.map fun ctx =>
        { ctx with respData := (resp ctx.respStatusCode).getD ctx.respData } }

section

variable {s : Setting} {next : HandleFunc}

theorem Middleware.build_eq (m : Middleware) : m.build s next = (m.layer s).around next := by
  funext ctx
  cases m with
  | recovery =>
    cases next ctx <;> rfl
  | requestid => rfl
  | accesslog => rfl
  | cors =>
    simp only [Middleware.build, Chain.cors, Middleware.layer, around]
    split <;> rfl
  | ratelimit allowed =>
    cases allowed <;> rfl
  | bodysize =>
    simp only [Middleware.build, Chain.bodysize, Middleware.layer, around]
    split <;> rfl
  | gzip mb =>
    simp only [Middleware.build, Chain.gzip, Middleware.layer, around, id]
    by_cases accepts : s.req.acceptsGzip
    · simp only [if_pos accepts]
      cases next ctx <;> rfl
    · simp only [if_neg accepts]
      cases next ctx <;> rfl
  | errhdl resp =>
    simp only [Middleware.build, Chain.errhdl, Middleware.layer, around, id]
    cases next ctx with
    | returned ctx =>
      simp only [Outcome.map]
      cases resp ctx.respStatusCode <;> rfl
    | panicked => rfl

theorem chain_eq (mdls : List Middleware) :
    chain s mdls next = (mdls.map (Middleware.layer s)).foldr around next := by
  induction mdls with
  | nil => rfl
  | cons m mdls ih =>
    rw [chain, List.foldr_cons, List.map_cons, List.foldr_cons, ← ih, Middleware.build_eq]
    rfl

def Route.middlewares : Route → List Middleware
  | .grouped rg _ => rg.allMiddlewares
  | _ => []

def Route.core : Route → HandleFunc
  | .handled handler | .grouped _ handler => handler.run
  | .notFound => fun ctx => .returned
      { ctx with respStatusCode := 404, respData := utf8 "404 page not found" }
  | .methodNotAllowed allowedMethods => fun ctx => .returned
      (({ ctx with respStatusCode := 405, respData := utf8 "405 method not allowed" } : Context)
        |>.setHeader (utf8 "Allow") (join allowedMethods))

theorem serve_eq (route : Route) : serve s route = chain s route.middlewares route.core := by
  cases route <;> rfl

def way (s : Setting) (mdls : List Middleware) (route : Route) : Layer.Approach Context Outcome :=
  Layer.approach ((mdls ++ route.middlewares).map (Middleware.layer s)) {}

theorem chain_serve (mdls : List Middleware) (route : Route) : chain s mdls (serve s route) {} =
      unwind (way s mdls route).passed
        ((way s mdls route).stopped.getD (route.core (way s mdls route).input)) := by
  have joined : chain s mdls (serve s route) = chain s (mdls ++ route.middlewares) route.core := by
    rw [serve_eq, chain, chain, chain, List.foldr_append]
  rw [joined, chain_eq, around_eq]
  rfl

end

end Soil.Web.Chain
