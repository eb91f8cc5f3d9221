import Soil.Web.Http

/-!
# Content codings

What a client makes of the `Content-Encoding` and `Vary` headers of a response: the codings
a body was put into, in the order in which they were applied, and the request headers that
the response depends on.  A codec is a compression with what undoes it, and says nothing
about other codings.
-/

namespace Soil.Web.Http

def tokens (value : Text) : List Text :=
  ((value.splitOn 44).map fun t => (trimSpace t).map toLower).filter (· ≠ [])

def Header.codings (h : Header) : List Text :=
  ((h.values (utf8 "Content-Encoding")).flatMap tokens).filter (· ≠ utf8 "identity")

def Header.varies (h : Header) : List Text := (h.values (utf8 "Vary")).flatMap tokens

theorem Header.codings_congr {h h' : Header}
    (same : h.values (utf8 "Content-Encoding") = h'.values (utf8 "Content-Encoding")) :
    h.codings = h'.codings := by
  rw [codings, codings, same]

theorem Header.varies_congr {h h' : Header}
    (same : h.values (utf8 "Vary") = h'.values (utf8 "Vary")) : h.varies = h'.varies := by
  rw [varies, varies, same]

/-! ## Codecs -/

structure Codec where
  compress : Int → Text → Text
  undo : Text → Text → Option Text
  gunzip : ∀ level data, undo (utf8 "gzip") (compress level data) = some data

namespace Codec

variable {c : Codec} {codings : List Text} {body : Text}

def decode (c : Codec) (codings : List Text) (body : Text) : Option Text :=
  codings.foldr (fun coding body => body.bind (c.undo coding)) (some body)

theorem decode_nil : c.decode [] body = some body := rfl

theorem decode_compress (level : Int) :
    c.decode [utf8 "gzip"] (c.compress level body) = some body :=
  c.gunzip level body

theorem decode_eq_none (refuses : ∀ coding, c.undo coding body = none) (some_ : codings ≠ []) :
    c.decode codings body = none := by
  induction codings with
  | nil => exact absurd rfl some_
  | cons coding codings ih =>
    change (c.decode codings body).bind (c.undo coding) = none
    cases codings with
    | nil => exact refuses coding
    | cons => rw [ih (List.cons_ne_nil _ _), Option.bind_none]

theorem decode_eq_some (leaves : ∀ coding, c.undo coding body = some body) :
    c.decode codings body = some body := by
  induction codings with
  | nil => rfl
  | cons coding codings ih =>
    change (c.decode codings body).bind (c.undo coding) = some body
    rw [ih, Option.bind_some, leaves]

def padded (pad : Text) (other : Text → Option Text) : Codec where
  compress _ data := pad ++ data
  undo coding body :=
    if coding = utf8 "gzip" ∧ pad <+: body then some (body.drop pad.length) else other body
  gunzip := by
    intro _ data
    rw [if_pos ⟨rfl, List.prefix_append pad data⟩, List.drop_left]

instance : Inhabited Codec := ⟨padded [] some⟩

variable {pad : Text} {other : Text → Option Text}

theorem padded_undo (short : body.length < pad.length) (coding : Text) :
    (padded pad other).undo coding body = other body := by
  apply if_neg
  rintro ⟨-, begins⟩
  have := begins.length_le
  omega

end Codec

end Soil.Web.Http
