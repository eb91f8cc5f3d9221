import Soil.Web.Dispatch

/-!
# Which routes are accepted

A call of `addRoute` returns when each of its segments finds room at the node in its
place and the last node has no handler.
-/

namespace Soil.Web

open List Option Node

variable {H : Type} {re : Regexp}

/-! ## Kinds of segments -/

theorem parseParam_cases (first : Byte) (rest : Text) :
    parseParam (first :: rest) = (rest, [], false) ∨
      ∃ name exp, rest = name ++ openParen :: (exp ++ [closeParen]) ∧
        parseParam (first :: rest) = (name, exp, true) := by
  have whole : rest.takeWhile (· != openParen) ++ rest.dropWhile (· != openParen) = rest :=
    takeWhile_append_dropWhile
  rw [parseParam, drop_one, tail_cons]
  cases after : rest.dropWhile (· != openParen) with
  | nil => exact .inl rfl
  | cons paren exp =>
    have paren_ : paren = openParen := by
      simpa [after] using List.head?_dropWhile_not (· != openParen) rest
    subst paren_
    by_cases closed : exp.getLast? = some closeParen
    · refine .inr ⟨rest.takeWhile (· != openParen), exp.dropLast, ?_, by simp [closed]⟩
      rw [dropLast_append_getLast? closeParen closed, ← after, whole]
    · exact .inl (by simp [closed])

theorem eq_of_kind {s t : Text} (special : kind s ≠ .static) (sort : kind s = kind t)
    (name : nameOf s = nameOf t) (expr : exprOf s = exprOf t) : s = t := by
  -- a segment that is not static and not `*` begins with a colon
  have written {s : Text} (special : kind s ≠ .static) (named : kind s ≠ .any) :
      kind s = .param ∧ s = colon :: nameOf s ∨
        kind s = .reg ∧ ∃ exp, exprOf s = some exp ∧
          s = colon :: (nameOf s ++ openParen :: (exp ++ [closeParen])) := by
    have star : s ≠ [asterisk] := fun star => named (kind_eq_any.mpr star)
    have begins : s.head? = some colon := by
      by_contra other
      exact special (by rw [kind, if_neg star, if_neg other])
    cases s with
    | nil => simp at begins
    | cons first rest =>
      obtain rfl : first = colon := by simpa using begins
      rcases parseParam_cases colon rest with parsed | ⟨name, exp, rfl, parsed⟩
      · have sort : kind (colon :: rest) = .param := by
          rw [kind, if_neg star, if_pos begins, parsed]
          rfl
        exact .inl ⟨sort, by simp [nameOf, sort, parsed]⟩
      · have sort : kind (colon :: (name ++ openParen :: (exp ++ [closeParen]))) = .reg := by
          rw [kind, if_neg star, if_pos begins, parsed]
          rfl
        exact .inr ⟨sort, exp, by simp [exprOf, sort, parsed], by simp [nameOf, sort, parsed]⟩
  by_cases any : kind s = .any
  · exact (kind_eq_any.mp any).trans (kind_eq_any.mp (sort.symm.trans any)).symm
  rcases written special any with ⟨kind_, here⟩ | ⟨kind_, exp, expr_, here⟩
  · rcases written (sort ▸ special) (sort ▸ any) with ⟨-, there⟩ | ⟨other, -⟩
    · rw [here, there, name]
    · rw [← sort, kind_] at other
      contradiction
  · rcases written (sort ▸ special) (sort ▸ any) with ⟨other, -⟩ | ⟨-, exp', expr', there⟩
    · rw [← sort, kind_] at other
      contradiction
    · obtain rfl : exp = exp' := by simpa [expr_, expr'] using expr
      rw [here, there, name]

namespace Node

/-! ## Room for a segment -/

variable {segment : Text}

theorem fits_iff {n : Node H} (ok : n.Local) :
    n.Fits segment ↔ ∀ other, (n.child other).isSome → kind other ≠ .static →
      kind segment ≠ .static → other = segment ∧ kind segment ≠ .reg := by
  constructor
  · intro fits other there special special'
    cases sort : kind other with simp only [child, sort] at there
    | static => exact absurd sort special
    | any =>
      rcases fits.star there with static | any
      · exact absurd static special'
      · rw [kind_eq_any.mp sort, kind_eq_any.mp any]
        exact ⟨rfl, by decide⟩
    | param =>
      obtain ⟨c, there⟩ := isSome_iff_exists.mp there
      obtain ⟨there, path⟩ := filter_eq_some_iff.mp there
      rcases fits.param c there with static | ⟨param, same⟩
      · exact absurd static special'
      · have path : c.path = other := by simpa using path
        exact ⟨path.symm.trans same, by simp [param]⟩
    | reg =>
      obtain ⟨c, there⟩ := isSome_iff_exists.mp there
      have regex := (filter_eq_some_iff.mp there).1
      exact absurd (fits.regex (by simp [regex])) special'
  · intro alone
    refine ⟨fun star => ?_, fun c param => ?_, fun regex => ?_⟩
    · by_cases static : kind segment = .static
      · exact .inl static
      · have any : kind [asterisk] = .any := kind_eq_any.mpr rfl
        have same := (alone [asterisk] (by simpa [child, any] using star) (by simp [any]) static).1
        exact .inr (by rw [← same, any])
    · by_cases static : kind segment = .static
      · exact .inl static
      · have sort := (ok.param c param).1
        have same := (alone c.path (by simp [child, sort, param]) (by simp [sort])
          static).1
        exact .inr ⟨by rw [← same, sort], same⟩
    · by_contra static
      obtain ⟨c, regex⟩ := isSome_iff_exists.mp regex
      have sort := (ok.regex c regex).1
      rcases alone c.path (by simp [child, sort, regex]) (by simp [sort]) static with
        ⟨same, other⟩
      rw [← same, sort] at other
      exact other rfl

theorem fits_ofSegment (segment other : Text) : (ofSegment (H := H) segment).Fits other := by
  constructor <;> simp [ofSegment]

/-! ## Passing through a tree -/

def Passes (re : Regexp) (n : Node H) (segments : List Text) : Prop :=
  ∀ (k : Nat) (segment : Text), segments[k]? = some segment → segment ≠ [] ∧ Compiles re segment ∧
    ∀ c, n.get (segments.take k) = some c → c.Fits segment

theorem passes_nil {n : Node H} : n.Passes re [] := by
  intro k segment at_
  simp at at_

variable {rest : List Text}

theorem passes_ofSegment : (ofSegment (H := H) segment).Passes re rest ↔
      ∀ (k : Nat) (s : Text), rest[k]? = some s → s ≠ [] ∧ Compiles re s := by
  constructor
  · intro passes k s at_
    exact ⟨(passes k s at_).1, (passes k s at_).2.1⟩
  intro good k s at_
  refine ⟨(good k s at_).1, (good k s at_).2, fun c there => ?_⟩
  cases prior : rest.take k with
  | nil =>
    obtain rfl : ofSegment segment = c := by simpa [prior, get] using there
    exact fits_ofSegment segment s
  | cons => simp [prior, get, child_ofSegment] at there

theorem passes_cons {n : Node H} : n.Passes re (segment :: rest) ↔
      n.Lets re segment ∧ ((n.child segment).getD (ofSegment segment)).Passes re rest := by
  constructor
  · intro passes
    have first := passes 0 segment rfl
    refine ⟨⟨first.1, first.2.1, first.2.2 n rfl⟩, ?_⟩
    cases there : n.child segment with
    | none =>
      rw [getD_none, passes_ofSegment]
      intro k s at_
      have later := passes (k + 1) s at_
      exact ⟨later.1, later.2.1⟩
    | some =>
      intro k s at_
      have later := passes (k + 1) s at_
      refine ⟨later.1, later.2.1, fun d below => later.2.2 d ?_⟩
      simpa [get, there] using below
  · intro both k s at_
    obtain ⟨lets, below⟩ := both
    cases k with
    | zero =>
      obtain rfl : segment = s := by simpa using at_
      refine ⟨lets.some_, lets.compiles, fun c here => ?_⟩
      obtain rfl : n = c := by simpa [get] using here
      exact lets.fits
    | succ k =>
      have later := below k s (by simpa using at_)
      refine ⟨later.1, later.2.1, fun d there => later.2.2 d ?_⟩
      rw [take_succ_cons, get] at there
      obtain ⟨c, child_, there⟩ := bind_eq_some_iff.mp there
      rw [child_]
      exact there

theorem Passes.of_start {n : Node H} {way segments : List Text} (passes : n.Passes re segments)
    (begins : way <+: segments) : n.Passes re way := by
  intro k segment at_
  have inside : k < way.length := (List.getElem?_eq_some_iff.mp at_).1
  have same : way.take k = segments.take k := by
    obtain ⟨rest, rfl⟩ := begins
    rw [take_append_of_le_length inside.le]
  rw [same]
  refine passes k segment ?_
  obtain ⟨-, rfl⟩ := begins
  rw [List.getElem?_append_left inside, at_]

theorem passes_concat {n : Node H} {way : List Text} :
    n.Passes re (way ++ [segment]) ↔ n.Passes re way ∧ segment ≠ [] ∧ Compiles re segment ∧
      ∀ c, n.get way = some c → c.Fits segment := by
  constructor
  · intro passes
    refine ⟨passes.of_start (prefix_append _ _), ?_⟩
    simpa using passes way.length segment (by simp)
  intro both k s at_
  rcases Nat.lt_trichotomy k way.length with inside | rfl | outside
  · rw [List.getElem?_append_left inside] at at_
    rw [take_append_of_le_length inside.le]
    exact both.1 k s at_
  · obtain rfl : segment = s := by simpa using at_
    simpa using both.2
  · have long : (way ++ [segment]).length ≤ k := by simpa using Nat.succ_le_of_lt outside
    rw [List.getElem?_eq_none long] at at_
    contradiction

section

variable {path conflict : Text} {handler : Option H} {segments : List Text} {n : Node H}

theorem addSegments_returns_iff (formed : n.WellFormed) (fresh : n.Fresh) :
    (n.addSegments re path conflict handler segments).2 = none ↔
      n.Passes re segments ∧ n.handlerAt segments = none := by
  induction segments generalizing n with
  | nil =>
    rw [addSegments, and_iff_right passes_nil]
    cases taken : n.handler <;> simp [handlerAt, get, taken]
  | cons segment rest ih =>
    rw [passes_cons, and_assoc]
    rcases addSegments_cons re fresh path conflict handler segment rest with
      ⟨lets, goes⟩ | ⟨stops, p, panics⟩
    · rw [goes, ih (formed.getD segment) (lets.fits.fresh (wellFormed_iff.mp formed).1),
        handlerAt_getD, and_iff_right lets]
    · simp [panics, stops]

theorem addSegments_get_isSome (formed : n.WellFormed) (fresh : n.Fresh) (address : List Text) :
    ((n.addSegments re path conflict handler segments).1.get address).isSome ↔
      (n.get address).isSome ∨ address <+: segments ∧ n.Passes re address := by
  induction segments generalizing n address with
  | nil =>
    have same : ∀ m, ((n.addSegments re path conflict handler []).1.get m).isSome =
        (n.get m).isSome := by
      intro m
      rw [addSegments]
      split
      · rfl
      · cases m with
        | nil => rfl
        | cons => simp [get, child]
    rw [same]
    constructor
    · exact .inl
    · rintro (there | ⟨begins, -⟩)
      · exact there
      · simp [prefix_nil.mp begins, get]
  | cons segment rest ih =>
    cases address with
    | nil => simp [get]
    | cons other =>
      rw [cons_prefix_cons, passes_cons]
      rcases addSegments_cons re fresh path conflict handler segment rest with
        ⟨lets, goes⟩ | ⟨stops, p, panics⟩
      · have ok := (wellFormed_iff.mp formed).1
        have fresh' := lets.fits.fresh ok
        have formed' := formed.getD segment
        have tag : Tagged segment (addSegments re path conflict handler rest
            ((n.child segment).getD (ofSegment segment))).1 :=
          (adds formed' fresh').tagged (ok.tagged_getD segment)
        rw [goes, get_put lets.fits tag.path]
        by_cases here : other = segment
        · subst here
          rw [if_pos rfl, ih formed' fresh', get_getD_isSome, and_iff_right lets, and_iff_right rfl]
          constructor
          · rintro ((old | rfl) | new)
            · exact .inl old
            · exact .inr ⟨ nil_prefix, passes_nil⟩
            · exact .inr new
          · rintro (old | new)
            · exact .inl (.inl old)
            · exact .inr new
        · simp [here]
      · rw [panics]
        constructor
        · exact .inl
        · rintro (there | ⟨⟨rfl, -⟩, lets, -⟩)
          · exact there
          · exact absurd lets stops

end

end Node

/-! ## `addRoute` -/

theorem shaped_pathOf {pattern : List Text} (plain : ∀ segment ∈ pattern, slash ∉ segment)
    (last : pattern.getLast? ≠ some []) : Shaped (pathOf pattern) := by
  by_cases none_ : pattern = []
  · exact ⟨by simp [pathOf, none_], .inl (by simp [pathOf, none_])⟩
  · refine ⟨?_, .inr ?_⟩
    · rw [pathOf, if_neg none_, flatMap_slash_eq_intercalate none_, List.head?_cons]
    · rw [pathOf, if_neg none_]
      exact mt (getLast?_flatMap none_ plain).mp last

namespace Router

variable {r : Router H} {routes : List (Route H)} {method path : Text} {handler : Option H}

theorem addRoute_shaped (re : Regexp) (r : Router H) (method : Text) (handler : Option H)
    (shaped : Shaped path) : ∃ conflict, r.addRoute re method path handler =
      ({ trees := r.trees.insert method
          ((r.rootOf method).addSegments re path conflict handler (patternOf path)).1 },
        ((r.rootOf method).addSegments re path conflict handler (patternOf path)).2) := by
  rcases addRoute_cases re r method path handler with ⟨misshapen, -⟩ | ⟨-, worked⟩
  · exact absurd shaped misshapen
  · exact worked

theorem Holds.addRoute_returns_iff (held : r.Holds routes) :
    (r.addRoute re method path handler).2 = none ↔
      Shaped path ∧ (r.rootOf method).Passes re (patternOf path) ∧
        (r.rootOf method).handlerAt (patternOf path) = none := by
  rcases addRoute_cases re r method path handler with
    ⟨misshapen, p, refused⟩ | ⟨shaped, conflict, worked⟩
  · simp [refused, misshapen]
  · rw [worked, addSegments_returns_iff (held.formed method) (held.fresh method),
      and_iff_right shaped]

theorem Holds.addRoute_begins (held : r.Holds routes) (other : Text) (address : List Text) :
    (r.addRoute re method path handler).1.Begins other address ↔
      r.Begins other address ∨ Shaped path ∧ other = method ∧ address <+: patternOf path ∧
        (r.rootOf method).Passes re address := by
  rcases addRoute_cases re r method path handler with
    ⟨misshapen, p, refused⟩ | ⟨shaped, conflict, worked⟩
  · simp [refused, misshapen]
  rw [worked, begins_insert, and_iff_right shaped]
  by_cases here : other = method
  · subst here
    rw [if_pos rfl, and_iff_right rfl,
      addSegments_get_isSome (held.formed other) (held.fresh other), rootOf_get_isSome]
    constructor
    · rintro ((old | rfl) | new)
      · exact .inl old
      · exact .inr ⟨ nil_prefix, passes_nil⟩
      · exact .inr new
    · rintro (old | new)
      · exact .inl (.inl old)
      · exact .inr new
  · simp [here]

theorem Holds.addRoute_handlerAt (held : r.Holds routes) (other : Text) (address : List Text) :
    ((r.addRoute re method path handler).1.rootOf other).handlerAt address =
      if (r.addRoute re method path handler).2 = none ∧ other = method ∧ address = patternOf path
      then handler else (r.rootOf other).handlerAt address := by
  rcases addRoute_cases re r method path handler with ⟨-, p, refused⟩ | ⟨-, conflict, worked⟩
  · simp [refused]
  have added := held.adds re method path conflict handler (patternOf path)
  rw [worked, rootOf_insert]
  by_cases here : other = method
  · subst here
    rw [if_pos rfl, added.handlerAt (held.formed other)]
    simp
  · simp [here]

end Router

/-! ## Conflicts -/

def Clashes (s t : Text) : Prop :=
  kind s ≠ kind t ∨ nameOf s ≠ nameOf t ∨ exprOf s ≠ exprOf t

theorem clashes_iff {s t : Text} (special : kind s ≠ .static) : Clashes s t ↔ s ≠ t := by
  constructor
  · intro clash same
    simp [Clashes, same] at clash
  · intro other
    by_contra agree
    simp only [Clashes, not_or, not_not] at agree
    exact other (eq_of_kind special agree.1 agree.2.1 agree.2.2)

/-- Why a route is not accepted beside the others: its path has the wrong shape, its
pattern has a handler, or a segment that is not static comes to a place where another such
segment is. -/
inductive Conflicts (routes : List (Route H)) (method path : Text) : Prop
  | emptyPath (empty : path = [])
  | noSlash (begins : path.head? ≠ some slash)
  | trailingSlash (long : path ≠ [slash]) (ends : path.getLast? = some slash)
  | emptySegment (inside : [] ∈ patternOf path)
  | handler (registered : Registered routes method (patternOf path))
  | sibling (k : Nat) (s t : Text) (at_ : (patternOf path)[k]? = some s)
      (special : kind s ≠ .static) (other : kind t ≠ .static) (clash : Clashes s t)
      (there : Beginning routes method ((patternOf path).take k ++ [t]))

def RepeatsRegex (routes : List (Route H)) (method path : Text) : Prop :=
  ∃ k s, (patternOf path)[k]? = some s ∧ kind s = .reg ∧
    Beginning routes method ((patternOf path).take k ++ [s])

theorem Conflicts.of_misshapen {routes : List (Route H)} {method path : Text}
    (misshapen : ¬ Shaped path) : Conflicts routes method path := by
  by_cases begins : path.head? = some slash
  · have ends : ¬ (path = [slash] ∨ path.getLast? ≠ some slash) := fun ends =>
      misshapen ⟨begins, ends⟩
    rw [not_or, not_not] at ends
    exact .trailingSlash ends.1 ends.2
  · exact .noSlash begins

section

variable {calls : List (Route H)} {method path : Text}

theorem not_passes_iff (returned : (register re calls).2 = calls) {segments : List Text}
    (compiles : ∀ s ∈ segments, Compiles re s) :
    ¬ ((register re calls).1.rootOf method).Passes re segments ↔
      [] ∈ segments ∨ ∃ k s t, segments[k]? = some s ∧ kind s ≠ .static ∧ kind t ≠ .static ∧
        (t ≠ s ∨ kind s = .reg) ∧ Beginning calls method (segments.take k ++ [t]) := by
  have held := register_holds re calls
  -- the node at the address of a segment has another child that is not static
  have child {way : List Text} {t : Text} :
      (((register re calls).1.rootOf method).get (way ++ [t])).isSome ↔
        Beginning calls method (way ++ [t]) := by
    rw [Router.rootOf_get_isSome, begins_eq_beginning returned]
    simp
  constructor
  · intro stops
    simp only [Node.Passes, not_forall, not_and, exists_prop] at stops
    obtain ⟨k, s, at_, stops⟩ := stops
    by_cases empty : s = []
    · exact .inl (empty ▸ mem_of_getElem? at_)
    obtain ⟨c, there, fails⟩ := stops empty (compiles s (mem_of_getElem? at_))
    rw [fits_iff (held.formed method _ c there)] at fails
    simp only [not_forall, not_and, not_not] at fails
    obtain ⟨t, some_, other, special, clash⟩ := fails
    refine .inr ⟨k, s, t, at_, special, other, ?_, child.mp ?_⟩
    · by_cases same : t = s
      · exact .inr (clash same)
      · exact .inl same
    · exact get_concat_isSome.mpr ⟨c, there, some_⟩
  · intro reasons passes
    rcases reasons with empty | ⟨k, s, t, at_, special, other, clash, begun⟩
    · obtain ⟨k, at_⟩ := List.getElem?_of_mem empty
      exact (passes k [] at_).1 rfl
    obtain ⟨c, there, some_⟩ := get_concat_isSome.mp (child.mpr begun)
    have fits := (passes k s at_).2.2 c there
    rw [fits_iff (held.formed method _ c there)] at fits
    obtain ⟨same, notRegex⟩ := fits t some_ other special
    rcases clash with differs | regex
    · exact differs same
    · exact notRegex regex

/-- After calls that all returned, a call with a handler and with expressions that compile
panics exactly if the route is in conflict or repeats a regex segment. -/
theorem panics_iff (returned : (register re calls).2 = calls) (h : H)
    (compiles : ∀ s ∈ patternOf path, Compiles re s) :
    ((register re calls).1.addRoute re method path (some h)).2.isSome ↔
      Conflicts calls method path ∨ RepeatsRegex calls method path := by
  have held := register_holds re calls
  rw [← not_iff_not, Bool.not_eq_true, isSome_eq_false_iff, isNone_iff_eq_none,
    held.addRoute_returns_iff, not_or]
  have free : ((register re calls).1.rootOf method).handlerAt (patternOf path) = none ↔
      ¬ Registered calls method (patternOf path) := by
    rw [← handlerAt_isSome returned]
    simp
  rw [free]
  constructor
  · rintro ⟨shaped, passes, free⟩
    have stops := mt (not_passes_iff returned compiles).mpr (not_not.mpr passes)
    refine ⟨fun conflict => ?_, fun repeats => ?_⟩
    · cases conflict with
      | emptyPath empty => simpa [empty] using shaped.begins
      | noSlash begins => exact begins shaped.begins
      | trailingSlash long ends => exact shaped.ends.elim long (· ends)
      | emptySegment inside => exact stops (.inl inside)
      | handler registered => exact free registered
      | sibling k s t at_ special other clash there =>
        have differs := Ne.symm ((clashes_iff special).mp clash)
        exact stops (.inr ⟨k, s, t, at_, special, other, .inl differs, there⟩)
    · obtain ⟨k, s, at_, regex, there⟩ := repeats
      exact stops (.inr ⟨k, s, s, at_, by simp [regex], by simp [regex], .inr regex, there⟩)
  · rintro ⟨peaceful, new⟩
    have shaped : Shaped path := by
      by_contra misshapen
      exact peaceful (.of_misshapen misshapen)
    refine ⟨shaped, ?_, fun registered => peaceful (.handler registered)⟩
    by_contra stops
    rcases (not_passes_iff returned compiles).mp stops with
      inside | ⟨k, s, t, at_, special, other, clash, there⟩
    · exact peaceful (.emptySegment inside)
    by_cases same : t = s
    · subst same
      have regex : kind t = .reg := clash.resolve_left (by simp)
      exact new ⟨k, t, at_, regex, there⟩
    · exact peaceful (.sibling k s t at_ special other ((clashes_iff special).mpr (Ne.symm same))
        there)

end

/-- A router reached by calls that all returned, a route with a handler, and expressions
that compile: `addRoute` panics exactly for the routes in conflict if and only if the route,
unless it is in conflict, has no regex segment that is there already. -/
theorem accepts_iff (re : Regexp) (calls : List (Route H))
    (returned : (register re calls).2 = calls) (method path : Text) (h : H)
    (compiles : ∀ s ∈ patternOf path, Compiles re s) :
    (((register re calls).1.addRoute re method path (some h)).2.isSome ↔
        Conflicts calls method path) ↔
      (RepeatsRegex calls method path → Conflicts calls method path) := by
  rw [panics_iff returned h compiles]
  constructor
  · intro exact_ repeats
    exact exact_.mp (.inr repeats)
  · intro harmless
    exact ⟨fun either => either.elim id harmless, .inl⟩

/-- A parameter beside a static segment is accepted. -/
theorem accepts_iff_param :
    ((register ⟨fun _ => none, fun _ _ => false⟩
        [⟨utf8 "GET", utf8 "/user/home", some 1⟩]).1.addRoute ⟨fun _ => none, fun _ _ => false⟩
          (utf8 "GET") (utf8 "/user/:id") (some 2)).2.isSome ↔
      Conflicts [⟨utf8 "GET", utf8 "/user/home", some 1⟩] (utf8 "GET") (utf8 "/user/:id") := by
  refine (accepts_iff _ _ (by decide) _ _ 2 (fun _ _ _ _ => rfl)).mpr fun repeats => ?_
  obtain ⟨k, s, at_, regex, -⟩ := repeats
  have inside := mem_of_getElem? at_
  have pattern : patternOf (utf8 "/user/:id") = [utf8 "user", utf8 ":id"] := by decide
  rw [pattern, mem_pair] at inside
  rcases inside with rfl | rfl
  · exact absurd regex (by decide)
  · exact absurd regex (by decide)

/-- After `/a/:id([0-9]+)/x` the route `/a/:id([0-9]+)/y` is not in conflict with it, and
its registration follows a nil pointer. -/
theorem regex_repeated_panics :
    (register ⟨fun _ => none, fun _ _ => true⟩ [⟨utf8 "GET", utf8 "/a/:id([0-9]+)/x", some 1⟩]).2 =
      [⟨utf8 "GET", utf8 "/a/:id([0-9]+)/x", some 1⟩] ∧
    ((register ⟨fun _ => none, fun _ _ => true⟩
        [⟨utf8 "GET", utf8 "/a/:id([0-9]+)/x", some 1⟩]).1.addRoute
          ⟨fun _ => none, fun _ _ => true⟩ (utf8 "GET") (utf8 "/a/:id([0-9]+)/y") (some 2)).2 =
      some .nilDereference ∧
    ¬ Conflicts [⟨utf8 "GET", utf8 "/a/:id([0-9]+)/x", some 1⟩] (utf8 "GET")
        (utf8 "/a/:id([0-9]+)/y") := by
  refine ⟨by decide, by decide, fun conflict => ?_⟩
  cases conflict with
  | emptyPath empty => exact absurd empty (by decide)
  | noSlash begins => exact absurd begins (by decide)
  | trailingSlash long ends => exact absurd ends (by decide)
  | emptySegment inside => exact absurd inside (by decide)
  | handler registered =>
    revert registered
    unfold Registered
    decide
  | sibling k s t at_ special other clash there =>
    obtain ⟨route, inside, -, begins⟩ := there
    obtain rfl := mem_singleton.mp inside
    have new : patternOf (utf8 "/a/:id([0-9]+)/y") = [utf8 "a", utf8 ":id([0-9]+)", utf8 "y"] := by
      decide
    have old : patternOf (utf8 "/a/:id([0-9]+)/x") = [utf8 "a", utf8 ":id([0-9]+)", utf8 "x"] := by
      decide
    rw [new] at at_ begins
    rw [old] at begins
    match k with
    | 0 =>
      obtain rfl : utf8 "a" = s := by simpa using at_
      exact special (by decide)
    | 1 =>
      obtain rfl : utf8 ":id([0-9]+)" = s := by simpa using at_
      obtain rfl : t = utf8 ":id([0-9]+)" := by simpa using begins
      exact (clashes_iff special).mp clash rfl
    | 2 =>
      obtain rfl : utf8 "y" = s := by simpa using at_
      exact special (by decide)
    | k + 3 => simp at at_

end Soil.Web
