import Soil.Basic
import Soil.Web.Route

/-!
# Route patterns

What a route pattern means, in terms of patterns and paths only: which values a
segment admits, which paths a pattern matches, which values its parameters take,
and when a search that prefers static segments is diverted from it.
-/

namespace Soil.Web

open List

def patternOf (path : Text) : List Text :=
  if path = [slash] then [] else splitSlash (path.drop 1)

def segmentsOf (path : Text) : List Text :=
  if path = [slash] then [] else splitSlash (trimSlash path)

def pathOf (pattern : List Text) : Text :=
  if pattern = [] then [slash] else pattern.flatMap (slash :: ·)

variable {pattern : List Text}

theorem flatMap_slash_eq_intercalate (nonempty : pattern ≠ []) :
    pattern.flatMap (slash :: ·) = slash :: [slash].intercalate pattern := by
  induction pattern with
  | nil => contradiction
  | cons segment rest ih =>
    cases rest with
    | nil => simp
    | cons => rw [flatMap_cons, ih (by simp), intercalate_cons_cons]; simp

variable {path : Text}

theorem pathOf_patternOf (begins : path.head? = some slash) : pathOf (patternOf path) = path := by
  by_cases root : path = [slash]
  · simp [patternOf, pathOf, root]
  cases path with
  | nil => simp at begins
  | cons first rest =>
    obtain rfl : first = slash := by simpa using begins
    have parts : splitSlash rest ≠ [] := splitOnP_ne_nil _ _
    rw [patternOf, if_neg root, drop_one, tail_cons, pathOf, if_neg parts,
      flatMap_slash_eq_intercalate parts, splitSlash, intercalate_splitOn]

variable {segment : Text}

theorem slash_notMem {s : Text} (inside : segment ∈ splitSlash s) : slash ∉ segment :=
  notMem_of_mem_splitOn inside

theorem slash_notMem_patternOf (inside : segment ∈ patternOf path) : slash ∉ segment := by
  rw [patternOf] at inside
  split at inside
  · contradiction
  · exact slash_notMem inside

theorem splitSlash_flatMap (some_ : pattern ≠ []) (plain : ∀ segment ∈ pattern, slash ∉ segment) :
    splitSlash ((pattern.flatMap (slash :: ·)).drop 1) = pattern := by
  rw [flatMap_slash_eq_intercalate some_, drop_one, tail_cons, splitSlash,
    splitOn_intercalate _ plain some_]

theorem patternOf_pathOf (plain : ∀ segment ∈ pattern, slash ∉ segment)
    (other : pattern ≠ [[]]) : patternOf (pathOf pattern) = pattern := by
  by_cases none_ : pattern = []
  · simp [none_, pathOf, patternOf]
  have cut := splitSlash_flatMap none_ plain
  rw [pathOf, if_neg none_, patternOf, if_neg]
  · exact cut
  · intro root
    rw [root] at cut
    exact other cut.symm

theorem getLast?_flatMap (some_ : pattern ≠ []) (plain : ∀ segment ∈ pattern, slash ∉ segment) :
    (pattern.flatMap (slash :: ·)).getLast? = some slash ↔ pattern.getLast? = some [] := by
  rcases eq_nil_or_concat' pattern with rfl | ⟨front, last, rfl⟩
  · contradiction
  rw [flatMap_append, List.getLast?_concat]
  simp only [flatMap_cons, flatMap_nil, append_nil]
  rcases eq_nil_or_concat' last with rfl | ⟨start, byte, rfl⟩
  · simp
  · have other : slash ≠ byte := by
      intro same
      exact plain (start ++ [byte]) (by simp) (by simp [same])
    rw [← cons_append, ← append_assoc, List.getLast?_concat]
    simp [Ne.symm other]

/-! ## Paths of requests -/

theorem head?_trimSlash (s : Text) : (trimSlash s).head? ≠ some slash := by
  intro begins
  have first := List.head?_dropWhile_not (· == slash) s
  obtain ⟨bs, whole⟩ := List.head?_eq_some_iff.mp begins
  have prior : trimSlash s <+: s.dropWhile (· == slash) := rdropWhile_prefix _ _
  rw [whole] at prior
  obtain ⟨rest, same⟩ := prior
  simp [← same] at first

variable {values : List Text}

theorem segmentsOf_flatMap (some_ : values ≠ [])
    (plain : ∀ value ∈ values, slash ∉ value) (first : values.head? ≠ some [])
    (last : values.getLast? ≠ some []) : segmentsOf (values.flatMap (slash :: ·)) = values := by
  have ends := mt (getLast?_flatMap some_ plain).mp last
  have cut := splitSlash_flatMap some_ plain
  cases values with
  | nil => contradiction
  | cons value rest =>
    cases value with
    | nil => simp at first
    | cons byte bytes =>
      have other : byte ≠ slash := fun same => plain _ mem_cons_self (by simp [same])
      rw [flatMap_cons, cons_append, drop_one, tail_cons] at cut
      rw [flatMap_cons, cons_append] at ends ⊢
      have trimmed : trimSlash (slash :: (byte :: bytes ++ rest.flatMap (slash :: ·))) =
          byte :: bytes ++ rest.flatMap (slash :: ·) := by
        rw [trimSlash]
        simp only [cons_append, dropWhile_cons, beq_self_eq_true, if_true, other,
          beq_iff_eq, if_false]
        rw [rdropWhile_eq_self_iff]
        intro some_
        simpa [List.getLast?_eq_some_getLast some_] using ends
      rw [segmentsOf, if_neg (by simp), trimmed, cut]

variable {value : Text}

theorem segmentsOf_prefix {rest : List Text} (some_ : value ≠ [])
    (cut : segmentsOf path = values ++ value :: rest) :
    segmentsOf ((values ++ [value]).flatMap (slash :: ·)) = values ++ [value] := by
  have long : path ≠ [slash] := by
    intro root
    simp [segmentsOf, root] at cut
  rw [segmentsOf, if_neg long] at cut
  refine segmentsOf_flatMap (by simp) (fun v inside => ?_) ?_ (by simpa using some_)
  · refine slash_notMem (s := trimSlash path) ?_
    rw [cut]
    simp only [mem_append, mem_cons] at inside ⊢
    tauto
  · cases values with
    | nil => simpa using some_
    | cons first others =>
      intro empty
      obtain rfl : first = [] := by simpa using empty
      -- the trimmed path would begin with a slash
      have begins : (trimSlash path).head? = some slash := by
        have whole : [slash].intercalate (splitSlash (trimSlash path)) = trimSlash path :=
          intercalate_splitOn slash
        rw [← whole, cut]
        cases others <;> simp
      exact head?_trimSlash path begins

/-! ## Segments -/

def kind (segment : Text) : NodeType :=
  if segment = [asterisk] then .any
  else if segment.head? = some colon then
    if (Node.parseParam segment).2.2 then .reg else .param
  else .static

theorem kind_eq_any : kind segment = .any ↔ segment = [asterisk] := by
  constructor
  · intro sort
    by_contra other
    rw [kind, if_neg other] at sort
    split at sort
    · split at sort <;> contradiction
    · contradiction
  · intro star
    exact if_pos star

def nameOf (segment : Text) : Text :=
  match kind segment with
  | .param | .reg => (Node.parseParam segment).1
  | .static | .any => []

def exprOf (segment : Text) : Option Text :=
  match kind segment with
  | .reg => some (Node.parseParam segment).2.1
  | .static | .param | .any => none

def Compiles (re : Regexp) (segment : Text) : Prop :=
  ∀ exp, exprOf segment = some exp → re.compileError exp = none

def Admits (re : Regexp) (segment value : Text) : Prop :=
  match kind segment with
  | .static => segment = value
  | .reg => (exprOf segment).any (re.matchString · value)
  | .param | .any => True

inductive Matches (re : Regexp) (handled : Prop) : List Text → List Text → Prop
  | nil : Matches re handled [] []
  | cons {segment value : Text} {rest values : List Text} (first : Admits re segment value)
      (others : Matches re handled rest values) :
      Matches re handled (segment :: rest) (value :: values)
  | star {value : Text} {values : List Text} (handler : handled) :
      Matches re handled [[asterisk]] (value :: values)

variable {re : Regexp} {handled : Prop}

theorem Matches.length_le
    (matched : Matches re handled pattern values) : pattern.length ≤ values.length := by
  induction matched with
  | nil => exact Nat.le_refl _
  | cons first others ih => simpa using ih
  | star => simp

theorem Matches.mono {handled' : Prop} (matched : Matches re handled pattern values)
    (more : handled → handled') : Matches re handled' pattern values := by
  induction matched with
  | nil => exact .nil
  | cons first others ih => exact .cons first ih
  | star handler => exact .star (more handler)

/-! ## Parameters -/

def ParamValue (pattern values : List Text) (name value : Text) : Prop :=
  name ≠ [] ∧ ∃ k : Nat, (pattern.map nameOf)[k]? = some name ∧ values[k]? = some value ∧
    name ∉ (pattern.map nameOf).drop (k + 1)

def bindParams : List Text → List Text → (Text → Option Text) → Text → Option Text
  | segment :: pattern, value :: values, params =>
    bindParams pattern values
      (if nameOf segment ≠ [] then Function.update params (nameOf segment) (some value) else params)
  | _, _, params => params

theorem paramValue_cons {name v : Text} : ParamValue (segment :: pattern) (value :: values) name v ↔
      ParamValue pattern values name v ∨
        (name ≠ [] ∧ nameOf segment = name ∧ value = v ∧ name ∉ pattern.map nameOf) := by
  constructor
  · rintro ⟨named, k, at_, value_, last⟩
    cases k with
    | zero =>
      exact .inr ⟨named, by simpa using at_, by simpa using value_, by simpa using last⟩
    | succ k =>
      exact .inl ⟨named, k, by simpa using at_, by simpa using value_, by simpa using last⟩
  · rintro (⟨named, k, at_, value_, last⟩ | ⟨named, rfl, rfl, last⟩)
    · exact ⟨named, k + 1, by simpa using at_, by simpa using value_, by simpa using last⟩
    · exact ⟨named, 0, by simp, by simp, by simpa using last⟩

theorem bindParams_eq_some {params : Text → Option Text}
    {name v : Text} (enough : pattern.length ≤ values.length) :
    bindParams pattern values params name = some v ↔ ParamValue pattern values name v ∨
        ((name = [] ∨ name ∉ pattern.map nameOf) ∧ params name = some v) := by
  induction pattern generalizing values params with
  | nil => simp [bindParams, ParamValue]
  | cons segment pattern ih =>
    cases values with
    | nil => simp at enough
    | cons =>
      rw [bindParams, ih (by simpa using enough), paramValue_cons]
      by_cases unnamed : name = []
      · subst unnamed
        by_cases blank : nameOf segment = [] <;> simp [blank]
      by_cases here : nameOf segment = name
      · subst here
        simp [unnamed]
        tauto
      · by_cases blank : nameOf segment = [] <;>
          simp [blank, here, unnamed, Ne.symm here]

/-! ## Priority -/

/-- A search of the path that prefers a static segment is led away from the pattern: at
some place where the pattern is not static, a route that has come the same way goes on
with a static segment equal to the value there. -/
def Diverted (begins : List Text → Prop) (pattern values : List Text) : Prop :=
  ∃ k value, k < pattern.length ∧ values[k]? = some value ∧ pattern[k]? ≠ some value ∧
    kind value = .static ∧ begins (pattern.take k ++ [value])

variable {begins : List Text → Prop}

theorem not_diverted_nil : ¬ Diverted begins [] values := by
  rintro ⟨k, value, inside, -⟩
  simp at inside

theorem diverted_cons : Diverted begins (segment :: pattern) (value :: values) ↔
      (segment ≠ value ∧ kind value = .static ∧ begins [value]) ∨
        Diverted (fun rest => begins (segment :: rest)) pattern values := by
  constructor
  · rintro ⟨k, v, inside, at_, other, static, begun⟩
    cases k with
    | zero =>
      obtain rfl : value = v := by simpa using at_
      exact .inl ⟨by simpa using other, static, begun⟩
    | succ k =>
      refine .inr ⟨k, v, by simpa using inside, by simpa using at_, by simpa using other, static,
        ?_⟩
      simpa using begun
  · rintro (⟨other, static, begun⟩ | ⟨k, v, inside, at_, other, static, begun⟩)
    · exact ⟨0, value, by simp, by simp, by simpa using other, static, begun⟩
    · exact ⟨k + 1, v, by simpa using inside, by simpa using at_, by simpa using other, static,
        by simpa using begun⟩

end Soil.Web
