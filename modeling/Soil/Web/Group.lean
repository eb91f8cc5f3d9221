import Soil.Web.Acceptance
import Mathlib.Data.List.Infix

/-!
# Paths of route groups

`RouterGroup.fullPath` writes the prefixes of a group and its ancestors and a route path
one after the other, with a slash put before each that has none and one slash taken from
the end of each prefix.
-/

namespace Soil.Web.Group

open List Router

inductive RouterGroup where
  | root (pathPrefix : Text)
  | group (parent : RouterGroup) (pathPrefix : Text)

def withSlash (s : Text) : Text := if s.head? = some slash then s else slash :: s

def trimSuffix (s : Text) : Text := if s.getLast? = some slash then s.dropLast else s

namespace RouterGroup

def fullPath : RouterGroup → Text → Text
  | .root pathPrefix, path => trimSuffix (withSlash pathPrefix) ++ withSlash path
  | .group parent pathPrefix, path =>
    trimSuffix (withSlash (parent.fullPath pathPrefix)) ++ withSlash path

def prefixes : RouterGroup → List Text
  | .root pathPrefix => [pathPrefix]
  | .group parent pathPrefix => parent.prefixes ++ [pathPrefix]

end RouterGroup

/-! ## Segments -/

def parts (s : Text) : List Text := splitSlash (if s.head? = some slash then s.drop 1 else s)

theorem parts_ne_nil (s : Text) : parts s ≠ [] := splitOn_ne_nil _ _

variable {s segment : Text}

theorem parts_plain (inside : segment ∈ parts s) : slash ∉ segment :=
  slash_notMem inside

theorem withSlash_eq (s : Text) : withSlash s = (parts s).flatMap (slash :: ·) := by
  rw [flatMap_slash_eq_intercalate (parts_ne_nil s), parts, splitSlash, intercalate_splitOn,
    withSlash]
  split
  next begins =>
    cases s with
    | nil => simp at begins
    | cons first =>
      obtain rfl : first = slash := by simpa using begins
      rfl
  · rfl

def kept (s : Text) : List Text :=
  if (parts s).getLast? = some [] then (parts s).dropLast else parts s

theorem trimSuffix_withSlash (s : Text) :
    trimSuffix (withSlash s) = (kept s).flatMap (slash :: ·) := by
  rw [withSlash_eq, trimSuffix, kept]
  simp only [getLast?_flatMap (parts_ne_nil s) fun _ => parts_plain]
  split
  next empty =>
    rcases eq_nil_or_concat' (parts s) with none_ | ⟨front, last, whole⟩
    · exact absurd none_ (parts_ne_nil s)
    · obtain rfl : last = [] := by simpa [whole] using empty
      rw [whole, flatMap_append]
      simp
  · rfl

def RouterGroup.segments (g : RouterGroup) (path : Text) : List Text :=
  g.prefixes.flatMap kept ++ parts path

variable {t : Text}

theorem trimSuffix_append (some_ : t ≠ []) : trimSuffix (s ++ t) = s ++ trimSuffix t := by
  rw [trimSuffix, trimSuffix, List.getLast?_append_of_ne_nil _ some_]
  split
  · rw [dropLast_append_of_ne_nil some_]
  · rfl

theorem withSlash_ne_nil (s : Text) : withSlash s ≠ [] := by
  rw [withSlash]
  split
  next begins =>
    intro empty
    simp [empty] at begins
  · exact cons_ne_nil _ _

theorem head?_withSlash (s : Text) : (withSlash s).head? = some slash := by
  rw [withSlash]
  split
  next begins => exact begins
  · rfl

namespace RouterGroup

theorem fullPath_eq (g : RouterGroup) (path : Text) :
    g.fullPath path = (g.segments path).flatMap (slash :: ·) := by
  induction g generalizing path with
  | root =>
    rw [fullPath, trimSuffix_withSlash, withSlash_eq, ← flatMap_append, segments, prefixes]
    simp
  | group parent pathPrefix ih =>
    -- the path of the parent begins with a slash, and its own prefixes are trimmed already
    have begins : withSlash (parent.fullPath pathPrefix) =
        (parent.prefixes.flatMap kept).flatMap (slash :: ·) ++ withSlash pathPrefix := by
      have whole : parent.fullPath pathPrefix =
          (parent.prefixes.flatMap kept).flatMap (slash :: ·) ++ withSlash pathPrefix := by
        rw [ih, segments, flatMap_append, withSlash_eq]
      have head : (parent.fullPath pathPrefix).head? = some slash := by
        rw [whole]
        cases (parent.prefixes.flatMap kept) with
        | nil => exact head?_withSlash pathPrefix
        | cons => simp
      rw [withSlash, if_pos head, whole]
    rw [fullPath, begins, trimSuffix_append (withSlash_ne_nil pathPrefix), trimSuffix_withSlash,
      withSlash_eq, ← flatMap_append, ← flatMap_append, segments, prefixes]
    simp

end RouterGroup

/-! ## The path that is meant -/

def components (s : Text) : List Text := (splitSlash s).filter (· ≠ [])

def RouterGroup.joined (g : RouterGroup) (path : Text) : Text :=
  slash :: [slash].intercalate ((g.prefixes ++ [path]).flatMap components)

theorem filter_parts (s : Text) : (parts s).filter (· ≠ []) = components s := by
  rw [parts, components]
  split
  next begins =>
    cases s with
    | nil => simp at begins
    | cons first =>
      obtain rfl : first = slash := by simpa using begins
      rw [drop_one, tail_cons, splitSlash, splitSlash,
        splitOn_cons_eq_if_modifyHead, if_pos (beq_self_eq_true slash)]
      simp
  · rfl

theorem filter_kept (s : Text) : (kept s).filter (· ≠ []) = components s := by
  rw [← filter_parts, kept]
  split
  next empty =>
    rcases eq_nil_or_concat' (parts s) with none_ | ⟨front, last, whole⟩
    · exact absurd none_ (parts_ne_nil s)
    · obtain rfl : last = [] := by simpa [whole] using empty
      simp [whole]
  · rfl

theorem RouterGroup.filter_segments (g : RouterGroup) (path : Text) :
    (g.segments path).filter (· ≠ []) = (g.prefixes ++ [path]).flatMap components := by
  have each : (fun s => (kept s).filter (· ≠ [])) = components := funext filter_kept
  rw [segments, filter_append, filter_flatMap, flatMap_append, filter_parts, each]
  simp

open RouterGroup

section

variable {g : RouterGroup} {path : Text}

theorem RouterGroup.segments_ne_nil : g.segments path ≠ [] := by
  simp [segments, parts_ne_nil]

theorem kept_subset (inside : segment ∈ kept s) : segment ∈ parts s := by
  rw [kept] at inside
  split at inside
  · exact mem_of_mem_dropLast inside
  · exact inside

theorem RouterGroup.segments_plain (inside : segment ∈ g.segments path) : slash ∉ segment := by
  rcases mem_append.mp inside with before | own
  · obtain ⟨s, -, inside⟩ := mem_flatMap.mp before
    exact parts_plain (kept_subset inside)
  · exact parts_plain own

theorem fullPath_eq_joined_iff :
    g.fullPath path = g.joined path ↔ [] ∉ g.segments path ∨ g.segments path = [[]] := by
  have plain : ∀ segment ∈ g.segments path, slash ∉ segment := fun _ => g.segments_plain
  have cut := splitOn_intercalate slash plain segments_ne_nil
  rw [g.fullPath_eq, flatMap_slash_eq_intercalate segments_ne_nil, joined, ← g.filter_segments]
  generalize g.segments path = segments at plain cut ⊢
  constructor
  · intro same
    rw [(List.cons.inj same).2] at cut
    by_cases none_ : segments.filter (· ≠ []) = []
    · rw [none_, intercalate_nil, splitOn_nil] at cut
      exact .inr cut.symm
    have plain' : ∀ segment ∈ segments.filter (· ≠ []), slash ∉ segment := fun s inside =>
      plain s (mem_of_mem_filter inside)
    rw [splitOn_intercalate slash plain' none_] at cut
    refine .inl fun empty => ?_
    rw [← cut] at empty
    simp at empty
  · rintro (full | rfl)
    · have whole : segments.filter (· ≠ []) = segments :=
        filter_eq_self.mpr fun s inside => by
          simp only [ne_eq, decide_eq_true_eq]
          exact fun empty => full (empty ▸ inside)
      rw [whole]
    · simp

end

/-! ## Double slashes -/

def Doubled (s : Text) : Prop := [slash, slash] <:+: s

theorem doubled_slash_cons : Doubled (slash :: s) ↔ s.head? = some slash ∨ Doubled s := by
  rw [Doubled, Doubled, infix_cons_iff]
  refine or_congr ?_ Iff.rfl
  cases s with
  | nil => simp
  | cons => simp [eq_comm]

theorem doubled_append (plain : slash ∉ s) : Doubled (s ++ t) ↔ Doubled t := by
  induction s with
  | nil => rfl
  | cons first rest ih =>
    rw [mem_cons, not_or] at plain
    rw [cons_append, Doubled, infix_cons_iff, ← Doubled, ih plain.2]
    simp [plain.1]

theorem doubled_flatMap {segments : List Text} (plain : ∀ segment ∈ segments, slash ∉ segment) :
    Doubled (segments.flatMap (slash :: ·)) ↔ [] ∈ segments.dropLast := by
  induction segments with
  | nil => simp [Doubled]
  | cons first rest ih =>
    have ih := ih fun s inside => plain s (mem_cons_of_mem first inside)
    have own := plain first mem_cons_self
    rw [flatMap_cons, cons_append, doubled_slash_cons, doubled_append own, ih]
    cases rest with
    | nil =>
      cases first with
      | nil => simp
      | cons byte =>
        have other : byte ≠ slash := fun same => own (by simp [same])
        simp [other]
    | cons =>
      rw [dropLast_cons_cons, mem_cons]
      refine or_congr ?_ Iff.rfl
      cases first with
      | nil => simp
      | cons byte =>
        have other : byte ≠ slash := fun same => own (by simp [same])
        simp [other]

theorem doubled_iff : Doubled s ↔ [] ∈ (parts s).dropLast := by
  rw [← doubled_flatMap fun _ => parts_plain, ← withSlash_eq, withSlash]
  split
  · rfl
  next begins => rw [doubled_slash_cons, or_iff_right begins]

/-! ## Prefixes and paths that are joined -/

theorem nil_mem_kept : [] ∈ kept s ↔ Doubled s := by
  rw [doubled_iff, kept]
  split
  · rfl
  next full =>
    rcases eq_nil_or_concat' (parts s) with none_ | ⟨front, last, whole⟩
    · exact absurd none_ (parts_ne_nil s)
    · have last_ : last ≠ [] := by simpa [whole] using full
      simp [whole, Ne.symm last_]

theorem getLast?_parts : (parts s).getLast? = some [] ↔ s = [] ∨ s.getLast? = some slash := by
  rw [← getLast?_flatMap (parts_ne_nil s) fun _ => parts_plain, ← withSlash_eq, withSlash]
  split
  next begins =>
    have some_ : s ≠ [] := fun empty => by simp [empty] at begins
    simp [some_]
  · cases s with
    | nil => simp
    | cons => simp

theorem nil_mem_parts : [] ∈ parts s ↔ Doubled s ∨ s = [] ∨ s.getLast? = some slash := by
  rw [doubled_iff, ← getLast?_parts]
  rcases eq_nil_or_concat' (parts s) with none_ | ⟨front, last, whole⟩
  · exact absurd none_ (parts_ne_nil s)
  · simp [whole]

theorem parts_eq_single : parts s = [[]] ↔ s = [] ∨ s = [slash] := by
  constructor
  · intro single
    have whole := withSlash_eq s
    rw [single, withSlash] at whole
    split at whole
    · exact .inr (by simpa using whole)
    · exact .inl (by simpa using whole)
  · rintro (rfl | rfl)
    · decide
    · decide

theorem kept_eq_nil : kept s = [] ↔ s = [] ∨ s = [slash] := by
  rw [← parts_eq_single, kept]
  rcases eq_nil_or_concat' (parts s) with none_ | ⟨front, last, whole⟩
  · exact absurd none_ (parts_ne_nil s)
  · by_cases empty : last = []
    · simp [whole, empty]
    · rw [whole]
      simp [empty, append_eq_singleton_iff]

structure Clean (g : RouterGroup) (path : Text) : Prop where
  single : ∀ s ∈ g.prefixes ++ [path], ¬ Doubled s
  ends : path ≠ [] ∧ path.getLast? ≠ some slash ∨
    ∀ s ∈ g.prefixes ++ [path], s = [] ∨ s = [slash]

variable {g : RouterGroup} {path : Text}

theorem clean_iff : Clean g path ↔ [] ∉ g.segments path ∨ g.segments path = [[]] := by
  have full : [] ∉ g.segments path ↔ (∀ s ∈ g.prefixes ++ [path], ¬ Doubled s) ∧
      path ≠ [] ∧ path.getLast? ≠ some slash := by
    rw [segments, mem_append, not_or, nil_mem_parts]
    simp only [mem_flatMap, nil_mem_kept, forall_mem_append, forall_mem_singleton]
    push Not
    tauto
  have blank : g.segments path = [[]] ↔ ∀ s ∈ g.prefixes ++ [path], s = [] ∨ s = [slash] := by
    constructor
    · intro single
      rcases append_eq_singleton_iff.mp single with ⟨none_, own⟩ | ⟨-, none_⟩
      · rw [forall_mem_append, forall_mem_singleton]
        refine ⟨fun s inside => kept_eq_nil.mp ?_, parts_eq_single.mp own⟩
        exact flatMap_eq_nil_iff.mp none_ s inside
      · exact absurd none_ (parts_ne_nil path)
    · intro all
      have none_ : g.prefixes.flatMap kept = [] := flatMap_eq_nil_iff.mpr fun s inside =>
        kept_eq_nil.mpr (all s (by simp [inside]))
      rw [segments, none_, nil_append]
      exact parts_eq_single.mpr (all path (by simp))
  rw [full, blank]
  constructor
  · intro clean
    rcases clean.ends with ends | all
    · exact .inl ⟨clean.single, ends⟩
    · exact .inr all
  · rintro (⟨single, ends⟩ | all)
    · exact ⟨single, .inl ends⟩
    · refine ⟨fun s inside => ?_, .inr all⟩
      rcases all s inside with rfl | rfl
      · simp [Doubled]
      · simp [Doubled, infix_cons_iff]

structure Joins (g : RouterGroup) (path : Text) : Prop where
  joined : g.fullPath path = g.joined path
  begins : (g.fullPath path).head? = some slash
  single : ¬ Doubled (g.fullPath path)
  accepted : ∀ (H : Type) (re : Regexp) (method : Text) (handler : Option H),
    (∀ s ∈ patternOf (g.fullPath path), Compiles re s) →
      (Router.addRoute re {} method (g.fullPath path) handler).2 = none

theorem RouterGroup.head?_fullPath (g : RouterGroup) (path : Text) :
    (g.fullPath path).head? = some slash := by
  rw [fullPath_eq, flatMap_slash_eq_intercalate segments_ne_nil, List.head?_cons]

theorem accepted_of_segments {H : Type} {re : Regexp} {method : Text} {handler : Option H}
    (good : [] ∉ g.segments path ∨ g.segments path = [[]])
    (compiles : ∀ s ∈ patternOf (g.fullPath path), Compiles re s) :
    (addRoute re {} method (g.fullPath path) handler).2 = none := by
  have plain : ∀ segment ∈ g.segments path, slash ∉ segment := fun _ => g.segments_plain
  have ends := getLast?_flatMap segments_ne_nil plain
  rw [← g.fullPath_eq] at ends
  refine holds_nil.addRoute_returns_iff.mpr ⟨⟨g.head?_fullPath path, ?_⟩, ?_, ?_⟩
  · rcases good with full | blank
    · refine .inr fun last => full ?_
      exact mem_of_getLast? (ends.mp last)
    · exact .inl (by rw [g.fullPath_eq, blank]; rfl)
  · have new : rootOf (H := H) {} method = Node.ofSegment [slash] := rfl
    rw [new, Node.passes_ofSegment]
    intro k s at_
    have inside := mem_of_getElem? at_
    refine ⟨fun empty => ?_, compiles s inside⟩
    subst empty
    rw [patternOf] at inside
    split at inside
    · contradiction
    next long =>
      rw [g.fullPath_eq] at inside long
      rw [splitSlash_flatMap segments_ne_nil plain] at inside
      rcases good with full | blank
      · exact full inside
      · exact long (by rw [blank]; rfl)
  · cases found : ((rootOf {} method).handlerAt (patternOf (g.fullPath path))) with
    | none => rfl
    | some => simpa using (holds_nil.handlers _ _ _).mp found

/-- For every group and every route path: the full path is the joined one if and only if the
prefixes and the path are clean. -/
theorem joins_iff (g : RouterGroup) (path : Text) : Joins g path ↔ Clean g path := by
  rw [clean_iff]
  constructor
  · intro joins
    exact fullPath_eq_joined_iff.mp joins.joined
  intro good
  refine ⟨fullPath_eq_joined_iff.mpr good, g.head?_fullPath path, ?_, fun _ _ _ _ compiles =>
    accepted_of_segments good compiles⟩
  rw [g.fullPath_eq, doubled_flatMap fun _ => g.segments_plain]
  rcases good with full | blank
  · exact fun empty => full (mem_of_mem_dropLast empty)
  · simp [blank]

/-- The route `/` of the group `/api` is registered as `/api/`, which `addRoute` refuses, and
the prefix `//` makes a double slash. -/
theorem group_root_refused :
    (RouterGroup.root (utf8 "/api")).fullPath (utf8 "/") = utf8 "/api/" ∧
      (Router.addRoute (H := Nat) ⟨fun _ => none, fun _ _ => false⟩ {} (utf8 "GET")
        ((root (utf8 "/api")).fullPath (utf8 "/")) (some 1)).2 =
          some (.text (utf8 "web: path must not end with '/'")) ∧
      (root (utf8 "//")).fullPath (utf8 "/x") = utf8 "//x" ∧
      ¬ Joins (.root (utf8 "/api")) (utf8 "/") := by
  refine ⟨by decide, by decide, by decide, fun joins => ?_⟩
  exact absurd joins.joined (by decide)

end Soil.Web.Group
