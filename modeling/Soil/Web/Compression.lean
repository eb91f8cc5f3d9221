import Soil.Web.Chain
import Soil.Web.Codings

/-!
# Stacks of gzip middlewares

Every gzip middleware looks at the data it finds on the way out, so that one of them can
compress what another one has compressed already, and all of them set `Content-Encoding` and
`Vary` anew.
-/

namespace Soil.Web.Chain

open List Gzip

open Soil.Web.Http

/-! ## One middleware -/

def contentEncodingKey : Text := utf8 "Content-Encoding"

def contentTypeKey : Text := utf8 "Content-Type"

def varyKey : Text := utf8 "Vary"

def Gzip.Takes (mb : Gzip) (ctx : Context) : Prop :=
  mb.minSize ≤ ctx.respData.length ∧
    shouldCompress (ctx.respHeaders.get contentTypeKey) = true ∧ mb.validLevel

instance (mb : Gzip) (ctx : Context) : Decidable (mb.Takes ctx) :=
  inferInstanceAs (Decidable (_ ∧ _ ∧ _))

structure Context.Packed (ctx ctx' : Context) : Prop where
  status : ctx'.respStatusCode = ctx.respStatusCode
  done : ctx'.done = ctx.done
  resp : ctx'.resp = ctx.resp
  values : ∀ key, Header.values ctx'.respHeaders.entries key =
    if key = contentEncodingKey then [utf8 "gzip"]
    else if key = varyKey then [utf8 "Accept-Encoding"]
    else if key = contentLengthKey then []
    else Header.values ctx.respHeaders.entries key

open Codec

section

variable {compress : Int → Text → Text} {mb : Gzip} {gs : List Gzip} {ctx ctx' : Context}

theorem Gzip.shrink_of_not_takes (leaves : ¬ mb.Takes ctx) : mb.shrink compress ctx = ctx := by
  rw [shrink]
  split
  · rfl
  rename_i long
  split
  · rfl
  · rename_i text
    apply if_neg
    intro valid
    exact leaves ⟨Int.not_lt.mp long, Bool.not_eq_false _ ▸ text, valid⟩

theorem Gzip.shrink_of_takes (compress : Int → Text → Text) (takes : mb.Takes ctx) :
    (mb.shrink compress ctx).respData = compress mb.level ctx.respData ∧
      ctx.Packed (mb.shrink compress ctx) := by
  obtain ⟨long, text, valid⟩ := takes
  rw [shrink, if_neg (Int.not_lt.mpr long), if_neg (by rw [← contentTypeKey, text]; simp),
    if_pos valid]
  refine ⟨rfl, rfl, rfl, rfl, ?_⟩
  intro key
  change Header.values (Header.del (Header.set (Header.set _ _ _) _ _) _) key = _
  rw [Header.values_del, Header.values_set, Header.values_set]
  have keys : canonicalKey (utf8 "Content-Length") = contentLengthKey ∧
      canonicalKey (utf8 "Vary") = varyKey ∧
      canonicalKey (utf8 "Content-Encoding") = contentEncodingKey := by decide +kernel
  rw [keys.1, keys.2.1, keys.2.2]
  have differ : contentLengthKey ≠ varyKey ∧ contentLengthKey ≠ contentEncodingKey ∧
      varyKey ≠ contentEncodingKey := by decide +kernel
  by_cases isLength : key = contentLengthKey
  · subst isLength
    simp [differ]
  · by_cases isVary : key = varyKey
    · subst isVary
      simp [differ, isLength]
    · simp [isLength, isVary]

theorem Context.Packed.trans {ctx'' : Context} (first : ctx.Packed ctx')
    (second : ctx'.Packed ctx'') : ctx.Packed ctx'' := by
  refine ⟨second.status.trans first.status, second.done.trans first.done,
    second.resp.trans first.resp, fun key => ?_⟩
  rw [second.values, first.values]
  split
  · rfl
  · split
    · rfl
    · split <;> rfl

section

variable (packed : ctx.Packed ctx')
include packed

theorem Context.Packed.codings : Header.codings ctx'.respHeaders.entries = [utf8 "gzip"] := by
  have same : utf8 "Content-Encoding" = contentEncodingKey := rfl
  rw [Header.codings, packed.values, if_pos same]
  decide +kernel

theorem Context.Packed.varies :
    Header.varies ctx'.respHeaders.entries = [utf8 "accept-encoding"] := by
  have same : utf8 "Vary" = varyKey := rfl
  have other : utf8 "Vary" ≠ contentEncodingKey := by decide +kernel
  rw [Header.varies, packed.values, if_neg other, if_pos same]
  decide +kernel

theorem Context.Packed.contentLength : Header.contentLength ctx'.respHeaders.entries = none := by
  have other : contentLengthKey ≠ contentEncodingKey ∧ contentLengthKey ≠ varyKey := by
    decide +kernel
  rw [Header.contentLength, packed.values, if_neg other.1, if_neg other.2, if_pos rfl]
  rfl

theorem Context.Packed.contentType :
    ctx'.respHeaders.get contentTypeKey = ctx.respHeaders.get contentTypeKey := by
  have differ : canonicalKey contentTypeKey ≠ contentEncodingKey ∧
      canonicalKey contentTypeKey ≠ varyKey ∧
      canonicalKey contentTypeKey ≠ contentLengthKey := by decide +kernel
  rw [Fields.get, Fields.get, Header.get, Header.get, packed.values, if_neg differ.1,
    if_neg differ.2.1, if_neg differ.2.2]

end

/-! ## Many of them -/

def squeeze (compress : Int → Text → Text) (gs : List Gzip) (ctx : Context) : Context :=
  gs.foldr (fun mb ctx => mb.shrink compress ctx) ctx

theorem squeeze_cons :
    squeeze compress (mb :: gs) ctx = mb.shrink compress (squeeze compress gs ctx) := rfl

theorem squeeze_of_not_takes (leave : ∀ mb ∈ gs, ¬ mb.Takes ctx) :
    squeeze compress gs ctx = ctx := by
  induction gs with
  | nil => rfl
  | cons mb gs ih =>
    rw [squeeze_cons, ih fun mb' inside => leave mb' (mem_cons_of_mem _ inside)]
    exact shrink_of_not_takes (leave mb mem_cons_self)

theorem squeeze_packed (compress : Int → Text → Text) (takes : ∃ mb ∈ gs, mb.Takes ctx) :
    ctx.Packed (squeeze compress gs ctx) := by
  induction gs with
  | nil => simp at takes
  | cons mb gs ih =>
    rw [squeeze_cons]
    by_cases inner : ∃ mb' ∈ gs, mb'.Takes ctx
    · have packed := ih inner
      by_cases again : mb.Takes (squeeze compress gs ctx)
      · exact packed.trans (shrink_of_takes _ again).2
      · rw [shrink_of_not_takes again]
        exact packed
    · push Not at inner
      rw [squeeze_of_not_takes inner]
      obtain ⟨mb', inside, takes'⟩ := takes
      rcases mem_cons.mp inside with rfl | inside
      · exact (shrink_of_takes _ takes').2
      · exact absurd takes' (inner mb' inside)

def Single (gs : List Gzip) (length : Nat) : Prop :=
  ∀ mb ∈ (gs.filter (·.validLevel)).tail, length < mb.minSize

instance (gs : List Gzip) (length : Nat) : Decidable (Single gs length) :=
  inferInstanceAs (Decidable (∀ mb ∈ _, _))

theorem single_of_invalid {length : Nat} (invalid : ¬ mb.validLevel) :
    Single (mb :: gs) length ↔ Single gs length := by
  rw [Single, Single, filter_cons_of_neg (by simpa using invalid)]

theorem single_of_valid (valid : mb.validLevel)
    (text : shouldCompress (ctx.respHeaders.get contentTypeKey) = true) :
    Single (mb :: gs) ctx.respData.length ↔ ∀ mb' ∈ gs, ¬ mb'.Takes ctx := by
  rw [Single, filter_cons_of_pos (by simpa using valid), tail_cons]
  constructor
  · intro single mb' inside takes
    have short := single mb' (mem_filter.mpr ⟨inside, by simpa using takes.2.2⟩)
    have := takes.1
    omega
  · intro leave mb' inside
    obtain ⟨inside, valid'⟩ := mem_filter.mp inside
    by_contra long
    exact leave mb' inside ⟨Int.not_lt.mp long, text, by simpa using valid'⟩

theorem squeeze_single (compress : Int → Text → Text) (takes : ∃ mb ∈ gs, mb.Takes ctx)
    (single : Single gs ctx.respData.length) :
    ∃ level, (squeeze compress gs ctx).respData = compress level ctx.respData := by
  induction gs with
  | nil => simp at takes
  | cons mb gs ih =>
    rw [squeeze_cons]
    obtain ⟨mb', inside, takes'⟩ := takes
    by_cases valid : mb.validLevel
    · have inner := (single_of_valid valid takes'.2.1).mp single
      rw [squeeze_of_not_takes inner]
      rcases mem_cons.mp inside with rfl | inside
      · exact ⟨_, (shrink_of_takes _ takes').1⟩
      · exact absurd takes' (inner mb' inside)
    · rw [shrink_of_not_takes fun takes => valid takes.2.2]
      rcases mem_cons.mp inside with rfl | inside
      · exact absurd takes'.2.2 valid
      · exact ih ⟨mb', inside, takes'⟩ ((single_of_invalid valid).mp single)

theorem squeeze_padded {pad : Text} (other : Text → Option Text)
    (enough : ∀ mb ∈ gs, mb.minSize ≤ pad.length) (some_ : pad ≠ [])
    (takes : ∃ mb ∈ gs, mb.Takes ctx) :
    ∃ rest, (squeeze (padded pad other).compress gs ctx).respData = pad ++ rest ∧
      (rest = ctx.respData → Single gs ctx.respData.length) ∧
      ctx.respData.length ≤ rest.length := by
  induction gs with
  | nil => simp at takes
  | cons mb gs ih =>
    have ih := ih fun mb' inside => enough mb' (mem_cons_of_mem _ inside)
    rw [squeeze_cons]
    by_cases inner : ∃ mb' ∈ gs, mb'.Takes ctx
    · obtain ⟨rest, data, single, longer⟩ := ih inner
      by_cases valid : mb.validLevel
      · have again : mb.Takes (squeeze (padded pad other).compress gs ctx) := by
          obtain ⟨mb', inside, takes'⟩ := inner
          refine ⟨?_, ?_, valid⟩
          · have := enough mb mem_cons_self
            rw [data, length_append]
            omega
          · rw [(squeeze_packed _ ⟨mb', inside, takes'⟩).contentType]
            exact takes'.2.1
        refine ⟨pad ++ rest, ?_, fun same => ?_, ?_⟩
        · rw [(shrink_of_takes _ again).1, data]
          rfl
        · have lengths := congrArg List.length same
          have := length_pos_iff.mpr some_
          rw [length_append] at lengths
          omega
        · rw [length_append]
          omega
      · rw [shrink_of_not_takes fun takes => valid takes.2.2]
        exact ⟨rest, data, fun same => (single_of_invalid valid).mpr (single same), longer⟩
    · push Not at inner
      obtain ⟨mb', inside, takes'⟩ := takes
      rcases mem_cons.mp inside with rfl | inside
      · rw [squeeze_of_not_takes inner]
        refine ⟨ctx.respData, (shrink_of_takes _ takes').1, fun _ => ?_, le_rfl⟩
        exact (single_of_valid takes'.2.2 takes'.2.1).mpr inner
      · exact absurd takes' (inner mb' inside)

theorem Gzip.takes_congr (data : ctx.respData = ctx'.respData)
    (contentType : ctx.respHeaders.get contentTypeKey = ctx'.respHeaders.get contentTypeKey) :
    mb.Takes ctx ↔ mb.Takes ctx' := by
  rw [Gzip.Takes, Gzip.Takes, data, contentType]

theorem squeeze_congr (compress : Int → Text → Text) (gs : List Gzip)
    (data : ctx.respData = ctx'.respData)
    (contentType : ctx.respHeaders.get contentTypeKey = ctx'.respHeaders.get contentTypeKey) :
    (squeeze compress gs ctx).respData = (squeeze compress gs ctx').respData ∧
      (squeeze compress gs ctx).respHeaders.get contentTypeKey =
        (squeeze compress gs ctx').respHeaders.get contentTypeKey := by
  induction gs with
  | nil => exact ⟨data, contentType⟩
  | cons mb gs ih =>
    obtain ⟨sameData, sameType⟩ := ih
    rw [squeeze_cons, squeeze_cons]
    by_cases takes : mb.Takes (squeeze compress gs ctx)
    · obtain ⟨left, leftPacked⟩ := shrink_of_takes compress takes
      obtain ⟨right, rightPacked⟩ := shrink_of_takes compress
        ((takes_congr sameData sameType).mp takes)
      rw [left, right, leftPacked.contentType, rightPacked.contentType, sameData]
      exact ⟨rfl, sameType⟩
    · rw [shrink_of_not_takes takes, shrink_of_not_takes
        fun takes' => takes ((takes_congr sameData sameType).mpr takes')]
      exact ⟨sameData, sameType⟩

end

/-! ## What codecs make of it -/

section

variable {codings : List Text} {gs : List Gzip} {ctx : Context}

theorem exists_padding (gs : List Gzip) (length : Nat) : ∃ pad : Text,
    length < pad.length ∧ pad ≠ [] ∧ ∀ mb ∈ gs, mb.minSize ≤ pad.length := by
  induction gs with
  | nil => exact ⟨List.replicate (length + 1) 0, by simp, by simp, by simp⟩
  | cons mb gs ih =>
    obtain ⟨pad, longer, some_, enough⟩ := ih
    refine ⟨pad ++ List.replicate mb.minSize.toNat 0, ?_, by simp [some_], ?_⟩
    · rw [length_append]
      omega
    intro mb' inside
    rw [length_append, length_replicate]
    rcases mem_cons.mp inside with rfl | inside
    · omega
    · have := enough mb' inside
      omega

theorem decode_all_eq_iff {a b : Text} :
    (∀ c : Codec, c.decode codings a = c.decode codings b) ↔ a = b := by
  constructor
  · intro same
    obtain ⟨pad, longer, -, -⟩ := exists_padding [] (a.length + b.length)
    have here := same (padded pad some)
    rw [decode_eq_some (padded_undo (by omega)), decode_eq_some (padded_undo (by omega))] at here
    exact Option.some.inj here
  · intro same c
    rw [same]

theorem decode_all_blank_iff {data : Text} :
    (∀ c : Codec, some [] = c.decode codings data) ↔ codings = [] ∧ data = [] := by
  constructor
  · intro same
    obtain ⟨pad, longer, -, -⟩ := exists_padding [] data.length
    have plain : codings = [] := by
      by_contra some_
      have here := same (padded pad fun _ => none)
      rw [decode_eq_none (padded_undo longer) some_] at here
      cases here
    have here := same (padded pad some)
    rw [plain, decode_nil] at here
    exact ⟨plain, (Option.some.inj here).symm⟩
  · rintro ⟨rfl, rfl⟩ c
    rfl

theorem decode_all_squeeze_iff (takes : ∃ mb ∈ gs, mb.Takes ctx) :
    (∀ c : Codec, c.decode [utf8 "gzip"] (squeeze c.compress gs ctx).respData =
      c.decode codings ctx.respData) ↔ codings = [] ∧ Single gs ctx.respData.length := by
  constructor
  · intro same
    obtain ⟨pad, longer, some_, enough⟩ := exists_padding gs ctx.respData.length
    obtain ⟨rest, data, single, -⟩ :=
      squeeze_padded (fun _ => none) enough some_ takes
    have here := same (padded pad fun _ => none)
    rw [data] at here
    have undone : (padded pad fun _ => none).decode [utf8 "gzip"] (pad ++ rest) = some rest :=
      decode_compress 0
    rw [undone] at here
    have plain : codings = [] := by
      by_contra listed
      rw [decode_eq_none (padded_undo longer) listed] at here
      cases here
    rw [plain, decode_nil] at here
    exact ⟨plain, single (Option.some.inj here)⟩
  · rintro ⟨rfl, single⟩ c
    obtain ⟨level, data⟩ := squeeze_single c.compress takes single
    rw [data, decode_compress, decode_nil]

end

end Soil.Web.Chain
