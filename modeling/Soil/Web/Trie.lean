import Soil.Basic
import Soil.Web.Pattern

/-!
# Route trees

A node is found by its address, the list of pattern segments that lead to it.  A
route tree is well formed when every node of it is: its children carry the data of
the segments they stand for, and at most one of them is not static.
-/

namespace Soil.Web

open Option

variable {H : Type} {re : Regexp}

/-! ## Addresses -/

namespace Node

def child (n : Node H) (segment : Text) : Option (Node H) :=
  match kind segment with
  | .static => n.children segment
  | .any => n.starChild
  | .param => n.paramChild.filter (·.path = segment)
  | .reg => n.regexChild.filter (·.path = segment)

def get : List Text → Node H → Option (Node H)
  | [], n => some n
  | segment :: rest, n => (n.child segment).bind (get rest)

theorem get_append (n : Node H) (way rest : List Text) :
    n.get (way ++ rest) = (n.get way).bind (get rest) := by
  induction way generalizing n with
  | nil => rfl
  | cons segment way ih => simp [get, bind_assoc, ih]

theorem get_concat_isSome {n : Node H} {way : List Text} {s : Text} :
    (n.get (way ++ [s])).isSome ↔ ∃ c, n.get way = some c ∧ (c.child s).isSome := by
  rw [get_append]
  cases n.get way with
  | none => simp
  | some c => cases found : c.child s <;> simp [get]

def handlerAt (n : Node H) (address : List Text) : Option H := (n.get address).bind (·.handler)

def ofSegment (segment : Text) : Node H :=
  { typ := kind segment, path := segment, paramName := nameOf segment, regExpr := exprOf segment }

def placeOf (segment : Text) : Place :=
  match kind segment with
  | .static => .static segment
  | .any => .star
  | .param => .param
  | .reg => .regex

/-! ## Well-formed trees -/

structure Tagged (segment : Text) (n : Node H) : Prop where
  typ : n.typ = kind segment
  path : n.path = segment
  name : n.paramName = nameOf segment
  expr : n.regExpr = exprOf segment

structure Local (n : Node H) : Prop where
  static : ∀ key c, n.children key = some c → kind key = .static ∧ Tagged key c
  star : ∀ c, n.starChild = some c → Tagged [asterisk] c
  param : ∀ c, n.paramChild = some c → kind c.path = .param ∧ Tagged c.path c
  regex : ∀ c, n.regexChild = some c → kind c.path = .reg ∧ Tagged c.path c
  starAlone : n.starChild.isSome → n.paramChild = none ∧ n.regexChild = none
  paramAlone : n.paramChild.isSome → n.regexChild = none

def WellFormed (n : Node H) : Prop := ∀ address c, n.get address = some c → c.Local

theorem wellFormed_iff {n : Node H} :
    n.WellFormed ↔ n.Local ∧ ∀ segment c, n.child segment = some c → c.WellFormed := by
  constructor
  · intro formed
    refine ⟨formed [] n rfl, fun segment c there address d found => ?_⟩
    exact formed (segment :: address) d (by simp [get, there, found])
  intro parts address c found
  cases address with
  | nil =>
    obtain rfl : n = c := by simpa [get] using found
    exact parts.1
  | cons segment rest =>
    obtain ⟨d, there, found⟩ := bind_eq_some_iff.mp found
    exact parts.2 segment d there rest c found

theorem tagged_ofSegment (segment : Text) : Tagged segment (ofSegment (H := H) segment) :=
  ⟨rfl, rfl, rfl, rfl⟩

def Fresh (n : Node H) : Prop := n.regExpr.isSome → n.regexChild = none

/-! ## Making room for a segment -/

structure Fits (n : Node H) (segment : Text) : Prop where
  star : n.starChild.isSome → kind segment = .static ∨ kind segment = .any
  param : ∀ c, n.paramChild = some c →
    kind segment = .static ∨ kind segment = .param ∧ c.path = segment
  regex : n.regexChild.isSome → kind segment = .static

variable {segment : Text}

theorem Fits.noStar {n : Node H} (fits : n.Fits segment)
    (static : kind segment ≠ .static) (any : kind segment ≠ .any) : n.starChild = none := by
  by_contra there
  rcases fits.star (isSome_iff_ne_none.mpr there) with sort | sort
  · exact static sort
  · exact any sort

theorem Fits.noParam {n : Node H} (fits : n.Fits segment)
    (static : kind segment ≠ .static) (param : kind segment ≠ .param) : n.paramChild = none := by
  by_contra there
  obtain ⟨c, there⟩ := ne_none_iff_exists'.mp there
  rcases fits.param c there with sort | ⟨sort, -⟩
  · exact static sort
  · exact param sort

theorem Fits.noRegex {n : Node H} (fits : n.Fits segment)
    (static : kind segment ≠ .static) : n.regexChild = none := by
  by_contra there
  exact static (fits.regex (isSome_iff_ne_none.mpr there))

structure Lets (re : Regexp) (n : Node H) (segment : Text) : Prop where
  some_ : segment ≠ []
  compiles : Compiles re segment
  fits : n.Fits segment

theorem compiles_of_kind (sort : kind segment ≠ .reg) : Compiles re segment := by
  intro exp expr
  rw [exprOf] at expr
  cases kind_ : kind segment <;> simp [kind_] at sort expr

theorem childOrCreateParam_cases (n : Node H) (paramName : Text) (sort : kind segment = .param) :
    n.Fits segment ∧ n.childOrCreateParam segment paramName = .ok (.param,
        (n.paramChild.filter (·.path = segment)).getD
          { path := segment, paramName, typ := .param }) ∨
      ¬ n.Fits segment ∧ ∃ p, n.childOrCreateParam segment paramName = .error p := by
  rw [childOrCreateParam]
  split
  next star =>
    refine .inr ⟨fun fits => ?_, _, rfl⟩
    simp [fits.noStar (by simp [sort]) (by simp [sort])] at star
  split
  next regex =>
    refine .inr ⟨fun fits => ?_, _, rfl⟩
    simp [fits.noRegex (by simp [sort])] at regex
  next star regex =>
  have fits (same : ∀ c, n.paramChild = some c → c.path = segment) : n.Fits segment :=
    ⟨by simp [star], fun c there => .inr ⟨sort, same c there⟩, by simp [regex]⟩
  split
  next none_ => exact .inl ⟨fits (by simp [none_]), by simp [none_]⟩
  next c there =>
    split
    next other =>
      refine .inr ⟨fun fits => ?_, _, rfl⟩
      rcases fits.param c there with static | ⟨-, same⟩
      · simp [sort] at static
      · exact other same
    next same =>
      have same : c.path = segment := by simpa using same
      exact .inl ⟨fits (by simp [there, same]), by simp [there, same, Option.filter]⟩

theorem childOrCreateRegex_cases (re : Regexp) {n : Node H} (fresh : n.Fresh)
    (exp paramName : Text) (sort : kind segment = .reg) :
    (n.Fits segment ∧ re.compileError exp = none) ∧ n.regexChild = none ∧
        n.childOrCreateRegex re segment exp paramName =
          .ok (.regex, { path := segment, paramName, regExpr := some exp, typ := .reg }) ∨
      ¬ (n.Fits segment ∧ re.compileError exp = none) ∧
        ∃ p, n.childOrCreateRegex re segment exp paramName = .error p := by
  rw [childOrCreateRegex]
  split
  next star =>
    refine .inr ⟨fun both => ?_, _, rfl⟩
    simp [both.1.noStar (by simp [sort]) (by simp [sort])] at star
  split
  next param =>
    refine .inr ⟨fun both => ?_, _, rfl⟩
    simp [both.1.noParam (by simp [sort]) (by simp [sort])] at param
  next star param =>
  split
  next none_ =>
    split
    next err compiled => exact .inr ⟨fun both => by simp [compiled] at both, _, rfl⟩
    next compiled =>
      have fits : n.Fits segment :=
        ⟨by simp [star], fun c there => by simp [there] at param, by simp [none_]⟩
      exact .inl ⟨⟨fits, compiled⟩, none_, rfl⟩
  next c there =>
    split
    next => exact .inr ⟨fun both => by simp [both.1.noRegex (by simp [sort])] at there, _, rfl⟩
    next own expr => simp [fresh (by simp [expr])] at there

/-- The child for a segment is made or found exactly where the segment may stand. -/
theorem childOrCreate_cases (re : Regexp) {n : Node H} (fresh : n.Fresh) (segment : Text) :
    n.Lets re segment ∧ n.childOrCreate re segment =
        .ok (placeOf segment, (n.child segment).getD (ofSegment segment)) ∨
      ¬ n.Lets re segment ∧ ∃ p, n.childOrCreate re segment = .error p := by
  rw [childOrCreate]
  split
  next star =>
    have sort : kind segment = .any := if_pos star
    split
    next param =>
      refine .inr ⟨fun lets => ?_, _, rfl⟩
      simp [lets.fits.noParam (by simp [sort]) (by simp [sort])] at param
    split
    next regex =>
      refine .inr ⟨fun lets => ?_, _, rfl⟩
      simp [lets.fits.noRegex (by simp [sort])] at regex
    next param regex =>
    have fits : n.Fits segment := ⟨fun _ => .inr sort, fun c there => by simp [there] at param,
      fun there => absurd there regex⟩
    exact .inl ⟨⟨by simp [star], compiles_of_kind (by simp [sort]), fits⟩,
      by simp [placeOf, child, ofSegment, sort, nameOf, exprOf]⟩
  next star =>
    split
    next head => exact .inr ⟨fun lets => lets.some_ (List.head?_eq_none_iff.mp head), _, rfl⟩
    next first head =>
    have some_ : segment ≠ [] := fun empty => by simp [empty] at head
    split
    next colon_ =>
      subst colon_
      split
      next name _ parsed =>
        have sort : kind segment = .param := by simp [kind, star, head, parsed]
        rcases childOrCreateParam_cases n name sort with ⟨fits, goes⟩ | ⟨misfits, panics⟩
        · exact .inl ⟨⟨some_, compiles_of_kind (by simp [sort]), fits⟩,
            by simp [goes, placeOf, child, ofSegment, sort, nameOf, exprOf, parsed]⟩
        · exact .inr ⟨fun lets => misfits lets.fits, panics⟩
      next name exp parsed =>
        have sort : kind segment = .reg := by simp [kind, star, head, parsed]
        have expr : exprOf segment = some exp := by simp [exprOf, sort, parsed]
        rcases childOrCreateRegex_cases re fresh exp name sort with
          ⟨⟨fits, compiled⟩, none_, goes⟩ | ⟨fails, panics⟩
        · exact .inl ⟨⟨some_, by simp [Compiles, expr, compiled], fits⟩,
            by simp [goes, placeOf, child, ofSegment, sort, nameOf, expr, parsed, none_]⟩
        · exact .inr ⟨fun lets => fails ⟨lets.fits, lets.compiles exp expr⟩, panics⟩
    next static =>
      have sort : kind segment = .static := by simp [kind, star, head, static]
      exact .inl ⟨⟨some_, compiles_of_kind (by simp [sort]),
        ⟨fun _ => .inl sort, fun _ _ => .inl sort, fun _ => sort⟩⟩,
        by simp [placeOf, child, ofSegment, sort, nameOf, exprOf]⟩

theorem Local.tagged {n c : Node H} (ok : n.Local)
    (there : n.child segment = some c) : Tagged segment c := by
  rw [child] at there
  cases sort : kind segment with
  | static =>
    rw [sort] at there
    exact (ok.static segment c there).2
  | any =>
    obtain rfl := kind_eq_any.mp sort
    rw [sort] at there
    exact ok.star c there
  | param =>
    rw [sort] at there
    obtain ⟨kept, same⟩ := filter_eq_some_iff.mp there
    obtain rfl : c.path = segment := by simpa using same
    exact (ok.param c kept).2
  | reg =>
    rw [sort] at there
    obtain ⟨kept, same⟩ := filter_eq_some_iff.mp there
    obtain rfl : c.path = segment := by simpa using same
    exact (ok.regex c kept).2

theorem Local.tagged_getD {n : Node H} (ok : n.Local) (segment : Text) :
    Tagged segment ((n.child segment).getD (ofSegment segment)) := by
  cases there : n.child segment with
  | none => exact tagged_ofSegment segment
  | some => exact ok.tagged there

theorem Fits.fresh {n : Node H} (fits : n.Fits segment) (ok : n.Local) :
    ((n.child segment).getD (ofSegment segment)).Fresh := by
  intro expr
  by_cases regex : kind segment = .reg
  · -- a regex child is only handed out when it is new
    have noRegex : n.regexChild = none := fits.noRegex (by simp [regex])
    simp [child, regex, noRegex, ofSegment]
  · rw [(ok.tagged_getD segment).expr, exprOf] at expr
    cases sort : kind segment <;> simp [sort] at regex expr

variable {other : Text}

theorem child_put {n c : Node H} (fits : n.Fits segment) (same : c.path = segment) :
    (n.put (placeOf segment) c).child other = if other = segment then some c else n.child other :=
      by
  by_cases here : other = segment
  · subst here
    rw [if_pos rfl, placeOf]
    cases sort : kind other <;> simp [child, put, sort, same]
  rw [if_neg here]
  cases sort : kind segment with
  | static => cases kind_ : kind other <;> simp [child, put, placeOf, sort, here]
  | any =>
    have other_ : kind other ≠ .any := fun any =>
      here ((kind_eq_any.mp any).trans (kind_eq_any.mp sort).symm)
    cases kind_ : kind other <;> simp [child, put, placeOf, sort, kind_] at other_ ⊢
  | param =>
    cases kind_ : kind other <;> simp [child, put, placeOf, sort, kind_]
    -- a parameter that was there has the path of the segment
    have gone : n.paramChild.filter (·.path = other) = none := by
      refine Option.filter_eq_none_iff.mpr fun d there => ?_
      rcases fits.param d there with static | ⟨-, path⟩
      · simp [sort] at static
      · simpa [path] using Ne.symm here
    simpa [same, Ne.symm here, Option.filter] using gone.symm
  | reg =>
    cases kind_ : kind other <;> simp [child, put, placeOf, sort, kind_]
    have gone : n.regexChild = none := fits.noRegex (by simp [sort])
    simp [gone, same, Ne.symm here]

variable {place : Place}

theorem tagged_put {n c : Node H} (tag : Tagged segment n) : Tagged segment (n.put place c) := by
  cases place <;> exact ⟨tag.typ, tag.path, tag.name, tag.expr⟩

theorem local_put {n c : Node H} (ok : n.Local) (fits : n.Fits segment)
    (tag : Tagged segment c) : (n.put (placeOf segment) c).Local := by
  cases sort : kind segment with
  | static =>
    simp only [placeOf, sort, put]
    refine ⟨fun key d there => ?_, ok.star, ok.param, ok.regex, ok.starAlone, ok.paramAlone⟩
    by_cases here : key = segment
    · subst here
      obtain rfl : c = d := by simpa using there
      exact ⟨sort, tag⟩
    · exact ok.static key d (by simpa [here] using there)
  | any =>
    have noParam : n.paramChild = none := fits.noParam (by simp [sort]) (by simp [sort])
    have noRegex : n.regexChild = none := fits.noRegex (by simp [sort])
    obtain rfl := kind_eq_any.mp sort
    simp only [placeOf, sort, put]
    refine ⟨ok.static, fun d there => ?_, ok.param, ok.regex, fun _ => ⟨noParam, noRegex⟩,
      ok.paramAlone⟩
    obtain rfl : c = d := by simpa using there
    exact tag
  | param =>
    have noStar : n.starChild = none := fits.noStar (by simp [sort]) (by simp [sort])
    have noRegex : n.regexChild = none := fits.noRegex (by simp [sort])
    simp only [placeOf, sort, put]
    refine ⟨ok.static, ok.star, fun d there => ?_, ok.regex, by simp [noStar], fun _ => noRegex⟩
    obtain rfl : c = d := by simpa using there
    rw [tag.path]
    exact ⟨sort, tag⟩
  | reg =>
    have noStar : n.starChild = none := fits.noStar (by simp [sort]) (by simp [sort])
    have noParam : n.paramChild = none := fits.noParam (by simp [sort]) (by simp [sort])
    simp only [placeOf, sort, put]
    refine ⟨ok.static, ok.star, ok.param, fun d there => ?_, by simp [noStar], by simp [noParam]⟩
    obtain rfl : c = d := by simpa using there
    rw [tag.path]
    exact ⟨sort, tag⟩

/-! ## Registration in a tree -/

/-- What `addSegments` does: at the end of the route the node keeps or gets a handler; on
the way there it goes on in a child it has made room for, or panics. -/
inductive Adds (handler : Option H) : List Text → Node H → Node H → Option RoutePanic → Prop
  | taken {n : Node H} {p : RoutePanic} : Adds handler [] n n (some p)
  | set {n : Node H} (free : n.handler = none) : Adds handler [] n { n with handler } none
  | refused {segment : Text} {rest : List Text} {n : Node H} {p : RoutePanic} :
      Adds handler (segment :: rest) n n (some p)
  | down {segment : Text} {rest : List Text} {n c : Node H} {outcome : Option RoutePanic}
      (fits : n.Fits segment)
      (below : Adds handler rest ((n.child segment).getD (ofSegment segment)) c outcome) :
      Adds handler (segment :: rest) n (n.put (placeOf segment) c) outcome

theorem child_ofSegment (segment other : Text) : (ofSegment (H := H) segment).child other = none :=
    by
  cases sort : kind other <;> simp [child, ofSegment, sort]

theorem wellFormed_ofSegment (segment : Text) : (ofSegment (H := H) segment).WellFormed := by
  refine wellFormed_iff.mpr ⟨?_, fun other c there => ?_⟩
  · constructor <;> simp [ofSegment]
  · simp [child_ofSegment] at there

theorem WellFormed.getD {n : Node H} (formed : n.WellFormed) (segment : Text) :
    ((n.child segment).getD (ofSegment segment)).WellFormed := by
  cases there : n.child segment with
  | none => exact wellFormed_ofSegment segment
  | some c => exact (wellFormed_iff.mp formed).2 segment c there

theorem handlerAt_getD (n : Node H) (segment : Text) (address : List Text) :
    ((n.child segment).getD (ofSegment segment)).handlerAt address =
      n.handlerAt (segment :: address) := by
  cases there : n.child segment with
  | some => simp [handlerAt, get, there]
  | none =>
    cases address with
    | nil => simp [handlerAt, get, there, ofSegment]
    | cons => simp [handlerAt, get, there, child_ofSegment]

theorem get_getD_isSome (n : Node H) (segment : Text) (address : List Text) :
    (((n.child segment).getD (ofSegment segment)).get address).isSome ↔
      (n.get (segment :: address)).isSome ∨ address = [] := by
  cases there : n.child segment with
  | some =>
    cases address with
    | nil | cons => simp [get, there]
  | none =>
    cases address with
    | nil => simp [get]
    | cons => simp [get, there, child_ofSegment]

theorem get_put {n c : Node H} {rest : List Text} (fits : n.Fits segment)
    (same : c.path = segment) : (n.put (placeOf segment) c).get (other :: rest) =
      if other = segment then c.get rest else n.get (other :: rest) := by
  rw [get, get, child_put fits same]
  split
  · rfl
  · rfl

@[simp] theorem handler_put {n c : Node H} : (n.put place c).handler = n.handler := by
  cases place <;> rfl

theorem addSegments_cons (re : Regexp) {n : Node H} (fresh : n.Fresh) (path conflict : Text)
    (handler : Option H) (segment : Text) (rest : List Text) : n.Lets re segment ∧
        n.addSegments re path conflict handler (segment :: rest) = (n.put (placeOf segment)
            (((n.child segment).getD (ofSegment segment)).addSegments re path conflict handler
              rest).1,
            (((n.child segment).getD (ofSegment segment)).addSegments re path conflict handler
              rest).2) ∨ ¬ n.Lets re segment ∧
        ∃ p, n.addSegments re path conflict handler (segment :: rest) = (n, some p) := by
  rw [addSegments]
  by_cases empty : segment = []
  · exact .inr ⟨fun lets => lets.some_ empty, by simp [empty]⟩
  rw [if_neg empty]
  rcases childOrCreate_cases re fresh segment with ⟨lets, created⟩ | ⟨stops, p, created⟩
  · exact .inl ⟨lets, by rw [created]⟩
  · exact .inr ⟨stops, p, by rw [created]⟩

theorem adds {path conflict : Text} {handler : Option H} {segments : List Text} {n : Node H}
    (formed : n.WellFormed) (fresh : n.Fresh) :
    Adds handler segments n (n.addSegments re path conflict handler segments).1
      (n.addSegments re path conflict handler segments).2 := by
  induction segments generalizing n with
  | nil =>
    rw [addSegments]
    split
    next taken => exact .taken
    next free => exact .set (by simpa using free)
  | cons segment rest ih =>
    rcases addSegments_cons re fresh path conflict handler segment rest with
      ⟨lets, goes⟩ | ⟨-, p, panics⟩
    · rw [goes]
      exact .down lets.fits (ih (formed.getD segment) (lets.fits.fresh (wellFormed_iff.mp formed).1))
    · rw [panics]
      exact .refused

section

variable {handler : Option H} {segments : List Text} {n m : Node H} {outcome : Option RoutePanic}

theorem Adds.tagged (added : Adds handler segments n m outcome)
    (tag : Tagged segment n) : Tagged segment m := by
  cases added with
  | taken | refused => exact tag
  | set => exact ⟨tag.typ, tag.path, tag.name, tag.expr⟩
  | down => exact tagged_put tag

theorem Adds.wellFormed (added : Adds handler segments n m outcome) (formed : n.WellFormed) :
    m.WellFormed := by
  induction added with obtain ⟨ok, below⟩ := wellFormed_iff.mp formed
  | taken | refused => exact formed
  | set =>
    exact wellFormed_iff.mpr ⟨⟨ok.static, ok.star, ok.param, ok.regex, ok.starAlone,
      ok.paramAlone⟩, below⟩
  | @down segment rest n c outcome fits added ih =>
    have tag : Tagged segment c := added.tagged (ok.tagged_getD segment)
    refine wellFormed_iff.mpr ⟨local_put ok fits tag, fun other d there => ?_⟩
    rw [child_put fits tag.path] at there
    split at there
    · obtain rfl : c = d := by simpa using there
      exact ih (formed.getD segment)
    · exact below other d there

theorem Adds.free (added : Adds handler segments n m none) : n.handlerAt segments = none := by
  generalize ended : (none : Option RoutePanic) = outcome at added
  induction added with
  | taken | refused => contradiction
  | set free => simpa [Node.handlerAt, get] using free
  | @down segment rest n c outcome fits added ih =>
    rw [← handlerAt_getD]
    exact ih ended

theorem Adds.handlerAt (added : Adds handler segments n m outcome) (formed : n.WellFormed)
    (address : List Text) : m.handlerAt address =
      if outcome = none ∧ address = segments then handler else n.handlerAt address := by
  induction added generalizing address with
  | taken | refused => simp
  | @set =>
    cases address with
    | nil => simp [Node.handlerAt, get]
    | cons => simp [Node.handlerAt, get, child]
  | @down segment rest n c outcome fits added ih =>
    have tag : Tagged segment c := added.tagged ((wellFormed_iff.mp formed).1.tagged_getD segment)
    cases address with
    | nil => simp [Node.handlerAt, get]
    | cons other =>
      rw [Node.handlerAt, get_put fits tag.path]
      by_cases here : other = segment
      · subst here
        rw [if_pos rfl, ← Node.handlerAt, ih (formed.getD other), handlerAt_getD]
        simp
      · simp [here, Node.handlerAt]

theorem Adds.get_isSome (added : Adds handler segments n m none) (formed : n.WellFormed)
    (address : List Text) :
    (m.get address).isSome ↔ (n.get address).isSome ∨ address <+: segments := by
  generalize ended : (none : Option RoutePanic) = outcome at added
  induction added generalizing address with
  | taken | refused => contradiction
  | @set =>
    cases address with
    | nil => simp [get]
    | cons => simp [get, child]
  | @down segment rest n c outcome fits added ih =>
    have tag : Tagged segment c := added.tagged ((wellFormed_iff.mp formed).1.tagged_getD segment)
    cases address with
    | nil => simp [get]
    | cons other address =>
      rw [get_put fits tag.path, List.cons_prefix_cons]
      by_cases here : other = segment
      · subst here
        rw [if_pos rfl, ih (formed.getD other) address ended, get_getD_isSome]
        by_cases nil : address = []
        · simp [nil]
        · simp [nil]
      · simp [here]

end

end Node
end Soil.Web
