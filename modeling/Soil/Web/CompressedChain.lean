import Soil.Web.Compression
import Soil.Web.Delivery

/-!
# Chains with gzip and cors middlewares

Any number of gzip and cors middlewares around a handler, in any order, among others that
let the request through and leave the body and the headers in question alone.
-/

namespace Soil.Web.Chain

open List Middleware Layer

open Soil.Web.Http

/-! ## Chains -/

def headerKeys : List Text := [contentTypeKey, contentEncodingKey, contentLengthKey, varyKey]

def Middleware.Bystander (req : Request) (status : Int) : Middleware → Prop
  | .requestid headerName _ => canonicalKey headerName ∉ headerKeys
  | .ratelimit allowed _ => allowed = true
  | .bodysize maxBytes => req.contentLength ≤ maxBytes
  | .errhdl resp => resp status = none
  | .recovery | .accesslog | .cors _ | .gzip _ => True

def gzips (ms : List Middleware) : List Gzip := ms.filterMap fun m =>
  match m with
  | .gzip mb => some mb
  | _ => none

def Middleware.announces (req : Request) : Middleware → Bool
  | .cors mb => mb.allowOrigin req ≠ []
  | _ => false

def announced (req : Request) (ms : List Middleware) : Bool := ms.any (Middleware.announces req)

structure Context.Entered (vary : Bool) (ctx ctx' : Context) : Prop where
  status : ctx'.respStatusCode = ctx.respStatusCode
  data : ctx'.respData = ctx.respData
  fields : ∀ key ∈ headerKeys, Header.values ctx'.respHeaders.entries key =
    if key = varyKey ∧ vary = true then [utf8 "Origin"]
    else Header.values ctx.respHeaders.entries key
  writer : ∀ key ∈ headerKeys, ctx'.resp.header.values key = ctx.resp.header.values key

open Header

section

variable {s : Setting} {status : Int} {ctx ctx' : Context} {ms : List Middleware}

theorem Context.Entered.refl (ctx : Context) : ctx.Entered false ctx :=
  ⟨rfl, rfl, fun key _ => by simp, fun _ _ => rfl⟩

theorem Context.Entered.trans {ctx'' : Context} {first second : Bool}
    (before : ctx.Entered first ctx') (behind : ctx'.Entered second ctx'') :
    ctx.Entered (first || second) ctx'' := by
  refine ⟨behind.status.trans before.status, behind.data.trans before.data, ?_, ?_⟩
  · intro key inside
    rw [behind.fields key inside, before.fields key inside]
    by_cases isVary : key = varyKey
    · cases first <;> cases second <;> simp [isVary]
    · simp [isVary]
  · intro key inside
    rw [behind.writer key inside, before.writer key inside]

theorem Context.Entered.ite {p : Prop} [Decidable p] (entered : ctx.Entered false ctx') :
    ctx.Entered false (if p then ctx' else ctx) := by
  split
  · exact entered
  · exact .refl ctx

theorem values_set_other {h : Header} {key name value : Text} (inside : key ∈ headerKeys)
    (other : canonicalKey name ∉ headerKeys) : (h.set name value).values key = h.values key := by
  rw [values_set]
  apply if_neg
  intro same
  exact other (same ▸ inside)

theorem Context.setHeader_other (ctx : Context) {name : Text} (value : Text)
    (other : canonicalKey name ∉ headerKeys) : ctx.Entered false (ctx.setHeader name value) := by
  refine ⟨rfl, rfl, fun key inside => ?_, fun _ _ => rfl⟩
  rw [if_neg (by simp)]
  exact values_set_other inside other

theorem Context.setHeader_vary :
    ctx.Entered true (ctx.setHeader (utf8 "Vary") (utf8 "Origin")) := by
  refine ⟨rfl, rfl, fun key inside => ?_, fun _ _ => rfl⟩
  change Header.values (Header.set _ _ _) key = _
  have same : canonicalKey (utf8 "Vary") = varyKey := by decide +kernel
  rw [Header.values_set, same]
  simp

theorem Cors.announce_entered (mb : Cors) (allowOrigin : Text) :
    ctx.Entered true (mb.announce allowOrigin ctx) := by
  have others : ∀ name ∈ ["Access-Control-Allow-Origin", "Access-Control-Allow-Credentials",
      "Access-Control-Expose-Headers"], canonicalKey (utf8 name) ∉ headerKeys := by decide +kernel
  rw [Cors.announce]
  have origin := ctx.setHeader_other allowOrigin (others "Access-Control-Allow-Origin" (by simp))
  have credentials := origin.trans <| .ite (p := mb.allowCredentials = true) <|
    Context.setHeader_other _ (utf8 "true") (others "Access-Control-Allow-Credentials" (by simp))
  have expose := credentials.trans <| .ite (p := 0 < mb.exposeHeaders.length) <|
    Context.setHeader_other _ (join mb.exposeHeaders)
      (others "Access-Control-Expose-Headers" (by simp))
  exact expose.trans Context.setHeader_vary

theorem Middleware.enter_entered {m : Middleware} (bystander : m.Bystander s.req status) :
    ctx.Entered (m.announces s.req) ((m.layer s).enter ctx) := by
  cases m with
  | requestid =>
    refine ⟨rfl, rfl, fun key inside => ?_, fun key inside => values_set_other inside bystander⟩
    rw [if_neg (by simp [announces])]
    exact values_set_other inside bystander
  | ratelimit =>
    exact ctx.setHeader_other _ (by decide +kernel)
  | cors mb =>
    simp only [layer, announces]
    by_cases none_ : mb.allowOrigin s.req = []
    · simp only [none_, ne_eq, not_true_eq_false, if_false, decide_false]
      exact .refl ctx
    · simp only [none_, ne_eq, not_false_eq_true, if_true, decide_true]
      exact mb.announce_entered _
  | _ => exact .refl ctx

theorem approach_entered (bystanders : ∀ m ∈ ms, m.Bystander s.req status)
    (free : (approach (ms.map (layer s)) ctx).stopped = none) :
    ctx.Entered (announced s.req ms) (approach (ms.map (layer s)) ctx).input := by
  induction ms generalizing ctx with
  | nil => exact .refl ctx
  | cons m ms ih =>
    rw [map_cons] at free ⊢
    obtain ⟨first, others⟩ := forall_mem_cons.mp bystanders
    obtain ⟨-, rest, -, input⟩ := approach_cons_free free
    rw [input]
    exact (enter_entered first).trans (ih others rest)

end

structure Context.Over (base own produced : Context) : Prop where
  status : produced.respStatusCode = own.respStatusCode
  data : produced.respData = own.respData
  done : produced.done = own.done
  fields : ∀ key, Header.values produced.respHeaders.entries key =
    if Header.values own.respHeaders.entries key = [] then
      Header.values base.respHeaders.entries key
    else Header.values own.respHeaders.entries key

section

variable {base own produced : Context}

section

variable (over_ : base.Over own produced)
include over_

theorem Context.Over.setHeader (key value : Text) :
    base.Over (own.setHeader key value) (produced.setHeader key value) := by
  refine ⟨over_.status, over_.data, over_.done, fun key' => ?_⟩
  change Header.values (Header.set _ _ _) key' = if Header.values (Header.set _ _ _) key' = [] then
    _ else Header.values (Header.set _ _ _) key'
  rw [Header.values_set, Header.values_set]
  by_cases same : key' = canonicalKey key
  · simp [same]
  · rw [if_neg same, if_neg same]
    exact over_.fields key'

theorem Context.Over.respond (contentType : String) (code : Int) (data : Text) :
    base.Over (own.respond contentType code data) (produced.respond contentType code data) := by
  obtain ⟨-, -, done, fields⟩ := over_.setHeader (utf8 "Content-Type") (utf8 contentType)
  exact ⟨rfl, rfl, done, fields⟩

theorem Call.run_over (call : Call) : base.Over (call.run own) (call.run produced) := by
  cases call with
  | respJson code val =>
    cases val with
    | none => exact over_
    | some => exact over_.respond _ _ _
  | respString | respHTML => exact over_.respond _ _ _
  | setHeader key value => exact over_.setHeader key value
  | abort => exact ⟨rfl, rfl, rfl, over_.fields⟩

theorem Handler.run_over (h : Handler) :
    base.Over (h.calls.foldl Call.run own) (h.calls.foldl Call.run produced) := by
  induction h.calls generalizing own produced with
  | nil => exact over_
  | cons call calls ih => exact ih (call.run_over over_)

end

theorem Route.core_over {route : Route} (untouched : base.Over {} base)
    (returned : route.core {} = .returned own) :
    ∃ produced, route.core base = .returned produced ∧ base.Over own produced := by
  have handled : ∀ h : Handler, h.run {} = .returned own →
      ∃ produced, h.run base = .returned produced ∧ base.Over own produced := by
    intro h returned
    have run := h.run_over untouched
    rw [Handler.run] at returned ⊢
    cases panics : h.panics with
    | true => simp [panics] at returned
    | false =>
      simp only [panics, Bool.false_eq_true, if_false, Outcome.returned.injEq] at returned ⊢
      subst returned
      exact ⟨_, rfl, run⟩
  cases route with
  | handled h | grouped rg h => exact handled h returned
  | notFound =>
    cases returned
    exact ⟨_, rfl, rfl, rfl, untouched.done, untouched.fields⟩
  | methodNotAllowed allowedMethods =>
    cases returned
    obtain ⟨-, -, done, fields⟩ := untouched.setHeader (utf8 "Allow") (join allowedMethods)
    exact ⟨_, rfl, rfl, rfl, done, fields⟩

end

def squeezed (s : Setting) (ms : List Middleware) (ctx : Context) : Context :=
  if s.req.acceptsGzip then squeeze s.compress (gzips ms) ctx else ctx

section

variable {s : Setting} {status : Int} {ctx produced : Context} {ms : List Middleware}

theorem squeezed_keeps (s : Setting) (ms : List Middleware) (ctx : Context) :
    (squeezed s ms ctx).respStatusCode = ctx.respStatusCode ∧
    (squeezed s ms ctx).done = ctx.done ∧ (squeezed s ms ctx).resp = ctx.resp := by
  rw [squeezed]
  split
  · by_cases takes : ∃ mb ∈ gzips ms, mb.Takes ctx
    · obtain ⟨status, done, resp, -⟩ := squeeze_packed s.compress takes
      exact ⟨status, done, resp⟩
    · push Not at takes
      rw [squeeze_of_not_takes takes]
      exact ⟨rfl, rfl, rfl⟩
  · exact ⟨rfl, rfl, rfl⟩

theorem squeezed_cons (m : Middleware) (bystander : m.Bystander s.req produced.respStatusCode) :
    (m.layer s).leave (.returned (squeezed s ms produced)) =
      .returned (squeezed s (m :: ms) produced) := by
  cases m with
  | gzip =>
    simp only [layer, Outcome.map, squeezed]
    split <;> rfl
  | errhdl resp =>
    have same : resp (squeezed s ms produced).respStatusCode = none := by
      rw [(squeezed_keeps s ms produced).1]
      exact bystander
    simp only [layer, Outcome.map, same]
    rfl
  | _ => rfl

theorem unwind_squeezed (bystanders : ∀ m ∈ ms, m.Bystander s.req produced.respStatusCode) :
    unwind (ms.map (layer s)) (.returned produced) = .returned (squeezed s ms produced) := by
  induction ms with
  | nil =>
    rw [squeezed]
    split <;> rfl
  | cons m ms ih =>
    rw [map_cons, unwind, foldr_cons, ← unwind,
      ih fun m' inside => bystanders m' (mem_cons_of_mem _ inside)]
    exact squeezed_cons m (bystanders m mem_cons_self)

theorem chain_squeezes {core : HandleFunc} (free : (approach (ms.map (layer s)) ctx).stopped = none)
    (returned : core (approach (ms.map (layer s)) ctx).input = .returned produced)
    (bystanders : ∀ m ∈ ms, m.Bystander s.req produced.respStatusCode) :
    chain s ms core ctx = .returned (squeezed s ms produced) := by
  rw [chain_eq, around_eq, approach_through free, free, Option.getD_none, returned]
  exact unwind_squeezed bystanders

end

/-! ## What is declared -/

def Middleware.declares (s : Setting) (next : HandleFunc) (ctx : Context) : Middleware → List Text
  | .cors mb => if mb.allowOrigin s.req ≠ [] then [utf8 "Origin"] else []
  | .gzip mb =>
    match next ctx with
    | .returned ctx =>
      if s.req.acceptsGzip ∧ mb.Takes ctx then [utf8 "Accept-Encoding"] else []
    | .panicked _ => []
  | _ => []

def declared (s : Setting) (core : HandleFunc) : List Middleware → Context → List Text
  | [], _ => []
  | m :: ms, ctx => m.declares s (chain s ms core) ctx ++
      match (m.layer s).stop ctx with
      | some _ => []
      | none => declared s core ms ((m.layer s).enter ctx)

def Compresses (req : Request) (ms : List Middleware) (ctx : Context) : Prop :=
  req.acceptsGzip ∧ ∃ mb ∈ gzips ms, mb.Takes ctx

instance (req : Request) (ms : List Middleware) (ctx : Context) :
    Decidable (Compresses req ms ctx) := inferInstanceAs (Decidable (_ ∧ _))

section

variable {s : Setting} {core : HandleFunc} {ctx produced : Context} {ms : List Middleware}

theorem squeezed_of_not_compresses (leave : ¬ Compresses s.req ms ctx) :
    squeezed s ms ctx = ctx := by
  rw [squeezed]
  split
  · rename_i accepts
    apply squeeze_of_not_takes
    intro mb inside takes
    exact leave ⟨accepts, mb, inside, takes⟩
  · rfl

theorem squeezed_of_compresses (compresses : Compresses s.req ms ctx) :
    squeezed s ms ctx = squeeze s.compress (gzips ms) ctx :=
  if_pos compresses.1

theorem compresses_cons (mb : Gzip) : Compresses s.req (.gzip mb :: ms) ctx ↔
    (s.req.acceptsGzip ∧ mb.Takes ctx) ∨ Compresses s.req ms ctx := by
  have list : gzips (.gzip mb :: ms) = mb :: gzips ms := rfl
  simp only [Compresses, list, mem_cons, exists_eq_or_imp]
  tauto

theorem mem_declared {field : Text} (free : (approach (ms.map (layer s)) ctx).stopped = none)
    (returned : core (approach (ms.map (layer s)) ctx).input = .returned produced)
    (bystanders : ∀ m ∈ ms, m.Bystander s.req produced.respStatusCode) :
    field ∈ declared s core ms ctx ↔ (field = utf8 "Origin" ∧ announced s.req ms = true) ∨
        (field = utf8 "Accept-Encoding" ∧ Compresses s.req ms produced) := by
  induction ms generalizing ctx with
  | nil => simp [declared, announced, Compresses, gzips]
  | cons m ms ih =>
    rw [map_cons] at free returned
    obtain ⟨stop, rest, -, input⟩ := approach_cons_free free
    rw [input] at returned
    obtain ⟨-, others⟩ := forall_mem_cons.mp bystanders
    rw [declared, stop, mem_append]
    rw [ih rest returned others]
    cases m with
    | cors mb =>
      have same : Compresses s.req (.cors mb :: ms) produced ↔
          Compresses s.req ms produced := Iff.rfl
      have first : announced s.req (.cors mb :: ms) = true ↔
          mb.allowOrigin s.req ≠ [] ∨ announced s.req ms = true := by
        simp [announced, announces]
      rw [same, first, and_or_left, or_assoc]
      simp only [declares, mem_ite_nil_right, mem_singleton]
      rw [and_comm (a := mb.allowOrigin s.req ≠ [])]
    | gzip mb =>
      have result : chain s ms core ctx = .returned (squeezed s ms produced) :=
        chain_squeezes rest returned others
      have same : announced s.req (.gzip mb :: ms) = announced s.req ms := rfl
      rw [compresses_cons, same]
      simp only [declares, result, mem_ite_nil_right, mem_singleton]
      by_cases compresses : Compresses s.req ms produced
      · simp only [compresses, or_true, and_true]
        constructor
        · rintro (⟨-, accept⟩ | either)
          · exact .inr accept
          · exact either
        · exact .inr
      · rw [squeezed_of_not_compresses compresses]
        simp only [compresses, or_false, and_false]
        rw [or_comm, and_comm (b := field = utf8 "Accept-Encoding")]
    | _ => simp [declares, announced, announces, Compresses, gzips]

end

/-! ## Preflight requests -/

def Preflight (req : Request) (ms : List Middleware) : Prop :=
  req.method = utf8 "OPTIONS" ∧ ∃ mb, Middleware.cors mb ∈ ms

section

variable {s : Setting} {core : HandleFunc} {status : Int} {ctx : Context} {o : Outcome}
  {m : Middleware} {ms : List Middleware}

theorem Middleware.stop_bystander (bystander : m.Bystander s.req status) (ctx : Context) :
    (m.layer s).stop ctx = some o ↔ ∃ mb, m = .cors mb ∧ s.req.method = utf8 "OPTIONS" ∧
        o = .returned (mb.noContent s.req ctx) := by
  cases m with
  | cors mb =>
    simp only [layer, cors.injEq, exists_eq_left']
    split
    · rename_i options
      simp only [Option.some.injEq, options, true_and]
      exact eq_comm
    · rename_i other
      simp [other]
  | ratelimit allowed =>
    have allowed : allowed = true := bystander
    simp [layer, allowed]
  | bodysize maxBytes =>
    have fits : s.req.contentLength ≤ maxBytes := bystander
    simp [layer, fits]
  | _ => simp [layer]

theorem approach_free_iff (bystanders : ∀ m ∈ ms, m.Bystander s.req status) :
    (approach (ms.map (layer s)) ctx).stopped = none ↔ ¬ Preflight s.req ms := by
  induction ms generalizing ctx with
  | nil => simp [approach, Preflight]
  | cons m ms ih =>
    rw [map_cons, approach]
    cases stop : (m.layer s).stop ctx with
    | some =>
      obtain ⟨mb, rfl, options, -⟩ :=
        (stop_bystander (bystanders m mem_cons_self) ctx).mp stop
      simp only [reduceCtorEq, false_iff, not_not]
      exact ⟨options, mb, mem_cons_self⟩
    | none =>
      rw [ih fun m' inside => bystanders m' (mem_cons_of_mem _ inside), not_iff_not]
      constructor
      · rintro ⟨options, mb, inside⟩
        exact ⟨options, mb, mem_cons_of_mem _ inside⟩
      rintro ⟨options, mb, inside⟩
      rcases mem_cons.mp inside with rfl | inside
      · have stops := (stop_bystander (bystanders _ mem_cons_self) ctx).mpr ⟨mb, rfl, options, rfl⟩
        rw [stop] at stops
        cases stops
      · exact ⟨options, mb, inside⟩

theorem Gzip.not_takes_of_no_contentType {mb : Gzip}
    (none_ : Header.values ctx.respHeaders.entries contentTypeKey = []) : ¬ mb.Takes ctx := by
  rintro ⟨-, text, -⟩
  have key : canonicalKey contentTypeKey = contentTypeKey := by decide +kernel
  have no : shouldCompress [] = false := by decide +kernel
  rw [Fields.get, Header.get, key, none_, headD_nil, no] at text
  cases text

theorem Middleware.leave_contentType
    (none_ : values o.ctx.respHeaders.entries contentTypeKey = []) :
    values ((m.layer s).leave o).ctx.respHeaders.entries contentTypeKey = [] := by
  cases m with
  | recovery | errhdl => cases o <;> exact none_
  | gzip mb =>
    cases o with
    | panicked => exact none_
    | returned ctx =>
      simp only [layer, Outcome.map]
      have leaves : ¬ mb.Takes ctx := Gzip.not_takes_of_no_contentType none_
      rw [Gzip.shrink_of_not_takes leaves, ite_self]
      exact none_
  | _ => exact none_

theorem Middleware.enter_contentType (bystander : m.Bystander s.req status)
    (none_ : values ctx.respHeaders.entries contentTypeKey = []) :
    values ((m.layer s).enter ctx).respHeaders.entries contentTypeKey = [] := by
  have other : contentTypeKey ≠ varyKey := by decide +kernel
  rw [(enter_entered bystander).fields _ mem_cons_self, if_neg fun both => other both.1]
  exact none_

theorem Cors.noContent_respHeaders (mb : Cors) :
    (mb.noContent s.req ctx).respHeaders = ctx.respHeaders := by
  rw [Cors.noContent]
  split <;> rfl

theorem chain_contentType (core : HandleFunc) (bystanders : ∀ m ∈ ms, m.Bystander s.req status)
    (none_ : values ctx.respHeaders.entries contentTypeKey = [])
    (stopped : (approach (ms.map (layer s)) ctx).stopped = some o) :
    values (chain s ms core ctx).ctx.respHeaders.entries contentTypeKey = [] := by
  obtain ⟨l, listed, answer⟩ := approach_stopped stopped
  obtain ⟨m, inside, rfl⟩ := mem_map.mp listed
  obtain ⟨mb, -, -, rfl⟩ := (stop_bystander (bystanders m inside) _).mp answer
  rw [chain_eq, around_eq, stopped, Option.getD_some]
  apply unwind_induct (Q := fun o : Outcome =>
    values o.ctx.respHeaders.entries contentTypeKey = [])
  · intro l passed o none_
    obtain ⟨m, -, rfl⟩ := mem_map.mp (approach_passed _ _ passed)
    exact leave_contentType none_
  simp only [Outcome.ctx, Cors.noContent_respHeaders]
  apply approach_induct (P := fun ctx : Context =>
    values ctx.respHeaders.entries contentTypeKey = [])
  · intro l listed ctx none_
    obtain ⟨m, inside, rfl⟩ := mem_map.mp listed
    exact enter_contentType (bystanders m inside) none_
  · exact none_

theorem declared_preflight {field : Text} (bystanders : ∀ m ∈ ms, m.Bystander s.req status)
    (none_ : values ctx.respHeaders.entries contentTypeKey = [])
    (stopped : (approach (ms.map (layer s)) ctx).stopped = some o)
    (inside : field ∈ declared s core ms ctx) :
    field = utf8 "Origin" ∧ ∃ mb : Cors, mb.allowOrigin s.req ≠ [] ∧ o = .returned
        (mb.noContent s.req (approach (ms.map (layer s)) ctx).input) := by
  induction ms generalizing ctx with
  | nil => cases stopped
  | cons m ms ih =>
    have bystander := bystanders m mem_cons_self
    have others : ∀ m' ∈ ms, m'.Bystander s.req status :=
      fun m' inside => bystanders m' (mem_cons_of_mem _ inside)
    rw [map_cons, approach] at stopped ⊢
    rw [declared, mem_append] at inside
    cases stop : (m.layer s).stop ctx with rw [stop] at stopped inside
    | some =>
      obtain ⟨mb, rfl, -, rfl⟩ := (stop_bystander bystander ctx).mp stop
      cases stopped
      simp only [declares, not_mem_nil, or_false, mem_ite_nil_right, mem_singleton] at inside
      exact ⟨inside.2, mb, inside.1, rfl⟩
    | none =>
      rcases inside with here | inside
      · cases m with
        | cors mb =>
          -- the middleware would have answered, as the one that does so inside it
          obtain ⟨l, listed, answer⟩ := approach_stopped stopped
          obtain ⟨m', inside, rfl⟩ := mem_map.mp listed
          obtain ⟨-, -, options, -⟩ :=
            (stop_bystander (others m' inside) _).mp answer
          have stops := (stop_bystander bystander ctx).mpr ⟨mb, rfl, options, rfl⟩
          rw [stop] at stops
          cases stops
        | gzip mb =>
          have blank := chain_contentType core others none_ stopped
          simp only [declares] at here
          cases result : chain s ms core ctx with
          | panicked => simp [result] at here
          | returned ctx' =>
            rw [result] at blank here
            have leaves : ¬ mb.Takes ctx' := Gzip.not_takes_of_no_contentType blank
            simp [leaves] at here
        | _ => simp [declares] at here
      · exact ih others (enter_contentType bystander none_) stopped inside

end

end Soil.Web.Chain
