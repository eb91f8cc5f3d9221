import Soil.Web.Registration

/-!
# Searching a route tree

`findInTree` walks down a tree and never turns back.  `Node.walk` is its way alone:
the address of the node it ends in.
-/

namespace Soil.Web

open Option MatchInfo Node

variable {H : Type} {re : Regexp}

namespace Node

/-! ## One step down -/

variable {value : Text}

theorem childOfNonStatic_eq_some {n c : Node H} (ok : n.Local)
    (found : n.childOfNonStatic re value = some c) :
    n.child c.path = some c ∧ Admits re c.path value := by
  -- a parameter or a wildcard admits every value
  have other (found : n.paramChild.or n.starChild = some c) :
      n.child c.path = some c ∧ Admits re c.path value := by
    rcases Option.or_eq_some_iff.mp found with param | ⟨-, star⟩
    · have sort := (ok.param c param).1
      exact ⟨by simp [child, sort, param], by simp [Admits, sort]⟩
    · have sort : kind c.path = .any := kind_eq_any.mpr (ok.star c star).path
      exact ⟨by simp [child, sort, star], by simp [Admits, sort]⟩
  rw [childOfNonStatic] at found
  split at found
  next d regex =>
    split at found
    next admits =>
      obtain rfl : d = c := by simpa using found
      obtain ⟨sort, tag⟩ := ok.regex d regex
      rw [tag.expr] at admits
      exact ⟨by simp [child, sort, regex], by simpa only [Admits, sort] using admits⟩
    · exact other found
  · exact other found

theorem childOf_eq_some {n c : Node H} (ok : n.Local) (found : n.childOf re value = some c) :
    n.child c.path = some c ∧ Admits re c.path value ∧
      (c.path ≠ value → kind value = .static → n.child value = none) := by
  rw [childOf] at found
  split at found
  next noStatic =>
    obtain ⟨there, admits⟩ := childOfNonStatic_eq_some ok found
    exact ⟨there, admits, fun _ static => by simp [child, static, noStatic]⟩
  next d static =>
    obtain rfl : d = c := by simpa using found
    obtain ⟨sort, tag⟩ := ok.static value d static
    rw [tag.path]
    exact ⟨by simp [child, sort, static], by simp [Admits, sort], by simp⟩

theorem childOf_of_admits {n c : Node H} {segment : Text} (ok : n.Local)
    (there : n.child segment = some c) (admits : Admits re segment value)
    (straight : ¬ (segment ≠ value ∧ kind value = .static ∧ (n.get [value]).isSome)) :
    n.childOf re value = some c := by
  by_cases static : kind segment = .static
  · obtain rfl : segment = value := by simpa [Admits, static] using admits
    simp only [child, static] at there
    simp [childOf, there]
  have noStatic : n.children value = none := by
    by_contra some_
    obtain ⟨d, at_⟩ := ne_none_iff_exists'.mp some_
    have sort := (ok.static value d at_).1
    have other : segment ≠ value := fun same => static (same ▸ sort)
    exact straight ⟨other, sort, by simp [get, child, sort, at_]⟩
  rw [childOf, noStatic, childOfNonStatic]
  cases sort : kind segment with
  | static => exact absurd sort static
  | any =>
    simp only [child, sort] at there
    rcases ok.starAlone (by simp [there]) with ⟨noParam, noRegex⟩
    simp [noRegex, noParam, there]
  | param =>
    simp only [child, sort] at there
    obtain ⟨there, -⟩ := filter_eq_some_iff.mp there
    have noRegex := ok.paramAlone (by simp [there])
    simp [noRegex, there]
  | reg =>
    have tag := ok.tagged there
    simp only [child, sort] at there
    obtain ⟨there, -⟩ := filter_eq_some_iff.mp there
    simp only [Admits, sort, ← tag.expr] at admits
    simp [there, admits]

/-! ## The walk -/

def walk (re : Regexp) : List Text → Node H → Option (List Text × Node H)
  | [], n => some ([], n)
  | value :: rest, n =>
    match n.childOf re value with
    | none => none
    | some c =>
      if c.typ = .any ∧ c.handler.isSome then some ([c.path], c)
      else (walk re rest c).map fun found => (c.path :: found.1, found.2)

variable {values address : List Text}

theorem walk_eq_some {n c : Node H} (formed : n.WellFormed)
    (walked : n.walk re values = some (address, c)) :
    n.get address = some c ∧ Matches re c.handler.isSome address values ∧
      ¬ Diverted (fun way => (n.get way).isSome) address values := by
  induction values generalizing n address with
  | nil =>
    obtain ⟨rfl, rfl⟩ := Prod.mk.inj (some.inj walked)
    exact ⟨rfl, .nil, not_diverted_nil⟩
  | cons value values ih =>
    obtain ⟨ok, below⟩ := wellFormed_iff.mp formed
    rw [walk] at walked
    split at walked
    · contradiction
    next d found =>
    obtain ⟨there, admits, alone⟩ := childOf_eq_some ok found
    have straight : ¬ (d.path ≠ value ∧ kind value = .static ∧ (n.get [value]).isSome) := by
      rintro ⟨other, static, begun⟩
      simp [get, alone other static] at begun
    split at walked
    next stops =>
      obtain ⟨rfl, rfl⟩ := Prod.mk.inj (some.inj walked)
      have star : d.path = [asterisk] :=
        kind_eq_any.mp ((ok.tagged there).typ.symm.trans stops.1)
      refine ⟨by simp [get, there], ?_, ?_⟩
      · rw [star]
        exact .star stops.2
      · rw [diverted_cons]
        rintro (here | later)
        · exact straight here
        · exact not_diverted_nil later
    next goes =>
      obtain ⟨⟨rest, e⟩, onwards, ends⟩ := map_eq_some_iff.mp walked
      obtain ⟨rfl, rfl⟩ := Prod.mk.inj ends
      obtain ⟨reached, matched, undiverted⟩ := ih (below d.path d there) onwards
      refine ⟨by simp [get, there, reached], .cons admits matched, ?_⟩
      rw [diverted_cons]
      rintro (here | later)
      · exact straight here
      · apply undiverted
        simpa [get, there] using later

theorem exists_walk {handled : Prop} {n c : Node H}
    (formed : n.WellFormed) (there : n.get address = some c)
    (matched : Matches re handled address values) (handles : handled → c.handler.isSome)
    (straight : ¬ Diverted (fun way => (n.get way).isSome) address values) :
    ∃ found, n.walk re values = some found ∧ (c.handler.isSome → found.2.handler.isSome) := by
  induction matched generalizing n with
  | nil =>
    obtain rfl : n = c := by simpa [get] using there
    exact ⟨([], n), rfl, id⟩
  | @cons segment value rest values first others ih =>
    obtain ⟨ok, below⟩ := wellFormed_iff.mp formed
    obtain ⟨d, child_, there⟩ := bind_eq_some_iff.mp there
    rw [diverted_cons, not_or] at straight
    have step : n.childOf re value = some d := childOf_of_admits ok child_ first straight.1
    rw [walk, step]
    by_cases stops : d.typ = .any ∧ d.handler.isSome
    · exact ⟨_, if_pos stops, fun _ => stops.2⟩
    · rcases ih (below segment d child_) there (by simpa [get, child_] using straight.2) with
        ⟨found, walked, handler⟩
      exact ⟨(d.path :: found.1, found.2), by simp [stops, walked], handler⟩
  | @star value values handler =>
    obtain ⟨ok, -⟩ := wellFormed_iff.mp formed
    obtain ⟨d, child_, there⟩ := bind_eq_some_iff.mp there
    obtain rfl : d = c := by simpa [get] using there
    rw [diverted_cons, not_or] at straight
    have sort : kind [asterisk] = .any := if_pos rfl
    have step : n.childOf re value = some d :=
      childOf_of_admits ok child_ (by simp [Admits, sort]) straight.1
    have stops : d.typ = .any ∧ d.handler.isSome :=
      ⟨(ok.tagged child_).typ.trans sort, handles handler⟩
    rw [walk, step]
    exact ⟨_, if_pos stops, fun _ => stops.2⟩

theorem walk_address_ne_nil {n c : Node H}
    (walked : n.walk re (value :: values) = some (address, c)) : address ≠ [] := by
  rw [walk] at walked
  split at walked
  · contradiction
  split at walked
  · obtain ⟨rfl, -⟩ := Prod.mk.inj (some.inj walked)
    simp
  · obtain ⟨found, -, ends⟩ := map_eq_some_iff.mp walked
    obtain ⟨rfl, -⟩ := Prod.mk.inj ends
    simp

end Node

/-! ## What the search reports -/

def MatchInfo.along (mi : MatchInfo H) (values : List Text) (found : List Text × Node H) :
    MatchInfo H :=
  { mi with
    node := some found.2
    matchedPath := mi.matchedPath ++ found.1.flatMap (slash :: ·)
    paramPath := bindParams found.1 values mi.paramPath }

variable {mi : MatchInfo H} {i : Nat}

theorem MatchInfo.extend_eq {path : Text} (start : i = 0 → mi.matchedPath = []) :
    mi.extend i path = { mi with matchedPath := mi.matchedPath ++ slash :: path } := by
  by_cases first : i = 0
  · simp [extend, start first]
  · simp [extend, first]

theorem childOf_eq_none {n : Node H} (none_ : n.childOf re value = none) : n.starChild = none := by
  rw [childOf] at none_
  split at none_
  · rw [childOfNonStatic] at none_
    split at none_
    · split at none_
      · contradiction
      · exact (or_eq_none_iff.mp none_).2
    · exact (or_eq_none_iff.mp none_).2
  · contradiction

theorem MatchInfo.collect_eq {c : Node H}
    (start : i = 0 → mi.matchedPath = []) (name : c.paramName = nameOf c.path) :
    (if c.paramName ≠ [] then (mi.extend i c.path).addValue c.paramName value
      else mi.extend i c.path) =
      { mi with
        matchedPath := mi.matchedPath ++ slash :: c.path
        paramPath := if nameOf c.path ≠ [] then
          Function.update mi.paramPath (nameOf c.path) (some value) else mi.paramPath } := by
  rw [extend_eq start, name]
  split <;> rfl

theorem findSegments_eq {n : Node H} (formed : n.WellFormed) (start : i = 0 → mi.matchedPath = []) :
    findSegments re i values n mi = (n.walk re values).map (mi.along values) := by
  induction values generalizing i n mi with
  | nil => simp [findSegments, walk, along, bindParams]
  | cons value values ih =>
    obtain ⟨ok, below⟩ := wellFormed_iff.mp formed
    rw [findSegments, walk]
    cases found : n.childOf re value with
    | none => simp [childOf_eq_none found]
    | some d =>
      have tag := ok.tagged (childOf_eq_some ok found).1
      have formed' := below d.path d (childOf_eq_some ok found).1
      simp only [collect_eq start tag.name]
      split
      · simp [along, bindParams]
      · rw [ih formed' (by simp), map_map]
        congr 1
        funext onwards
        simp [along, bindParams]

variable {root : Node H}

theorem findInTree_eq {path : Text} (formed : root.WellFormed) :
    findInTree re root path = (root.walk re (segmentsOf path)).map fun found =>
      { node := some found.2
        matchedPath := pathOf found.1
        paramPath := bindParams found.1 (segmentsOf path) fun _ => none } := by
  by_cases whole : path = [slash]
  · simp [findInTree, segmentsOf, whole, walk, pathOf, bindParams]
  rw [findInTree, if_neg whole, findSegments_eq formed (by simp), segmentsOf, if_neg whole]
  have parts : splitSlash (trimSlash path) ≠ [] := List.splitOnP_ne_nil _ _
  obtain ⟨value, values, cut⟩ := List.exists_cons_of_ne_nil parts
  rw [cut]
  apply Option.map_congr
  intro found walked
  have way : found.1 ≠ [] := walk_address_ne_nil walked
  simp [along, pathOf, way]

/-! ## `findRoute` -/

namespace Router

def walk (re : Regexp) (r : Router H) (method : Text) (values : List Text) :
    Option (List Text × Node H) :=
  (r.trees.lookup method).bind (Node.walk re values)

def Hit (re : Regexp) (r : Router H) (order : Trees H) (method path : Text) (mi : MatchInfo H)
    (h : H) : Prop :=
  r.findRoute re order method path = some mi ∧ mi.methodNotAllowed = false ∧
    mi.node.bind (·.handler) = some h

variable {r : Router H} {routes : List (Route H)} {method path : Text}

theorem Holds.formed_of_lookup (held : r.Holds routes)
    (tree : r.trees.lookup method = some root) : root.WellFormed := by
  simpa [rootOf, tree] using held.formed method

theorem begins_of_lookup (tree : r.trees.lookup method = some root) :
    r.Begins method = fun way => (root.get way).isSome = true := by
  funext way
  simp [Begins, tree]

theorem Holds.findInTree_eq (held : r.Holds routes) :
    (r.trees.lookup method).bind (findInTree re · path) =
      (r.walk re method (segmentsOf path)).map fun found =>
        { node := some found.2
          matchedPath := pathOf found.1
          paramPath := bindParams found.1 (segmentsOf path) fun _ => none } := by
  rw [walk]
  cases tree : r.trees.lookup method with
  | none => rfl
  | some => exact Web.findInTree_eq (held.formed_of_lookup tree)

theorem Holds.walk_eq_some {address : List Text} {c : Node H} (held : r.Holds routes)
    (walked : r.walk re method values = some (address, c)) :
    (r.rootOf method).handlerAt address = c.handler ∧ r.Begins method address ∧
      Matches re c.handler.isSome address values ∧
      ¬ Diverted (r.Begins method) address values := by
  obtain ⟨root, tree, walked⟩ := bind_eq_some_iff.mp walked
  obtain ⟨there, matched, straight⟩ := Node.walk_eq_some (held.formed_of_lookup tree) walked
  rw [begins_of_lookup tree]
  exact ⟨by simp [rootOf, tree, Node.handlerAt, there], by simp [there], matched, straight⟩

theorem Holds.hit_walk {order : Trees H} {h : H} (held : r.Holds routes)
    (hit : r.Hit re order method path mi h) :
    ∃ address c, r.walk re method (segmentsOf path) = some (address, c) ∧ c.handler = some h ∧
      mi.matchedPath = pathOf address ∧
      mi.paramPath = bindParams address (segmentsOf path) fun _ => none := by
  obtain ⟨found, allowed, handler⟩ := hit
  rw [findRoute, held.findInTree_eq] at found
  cases walked : r.walk re method (segmentsOf path) with
  | none =>
    simp only [walked, map_none] at found
    split at found
    · obtain rfl := some.inj found
      simp at allowed
    · contradiction
  | some way =>
    simp only [walked, map_some] at found
    obtain rfl := some.inj found
    exact ⟨way.1, way.2, rfl, by simpa using handler, rfl, rfl⟩

end Router

/-- Whatever was registered, and whichever calls panicked: the handler found is the one
registered for the matched path, which matches the path of the request, and the path
parameters are those of the matched path. -/
theorem router_sound (re : Regexp) (calls : List (Route H)) (order : Trees H) (method path : Text)
    (mi : MatchInfo H) (h : H) (hit : (register re calls).1.Hit re order method path mi h) :
    (⟨method, mi.matchedPath, some h⟩ ∈ (register re calls).2 ∧
      ∀ h', ⟨method, mi.matchedPath, some h'⟩ ∈ (register re calls).2 → h' = h) ∧
    Matches re True (patternOf mi.matchedPath) (segmentsOf path) ∧
    ∀ name value, mi.paramPath name = some value ↔
      ParamValue (patternOf mi.matchedPath) (segmentsOf path) name value := by
  have held := register_holds re calls
  obtain ⟨address, c, walked, handler, matchedPath, paramPath⟩ := held.hit_walk hit
  obtain ⟨there, -, matched, -⟩ := held.walk_eq_some walked
  rw [handler] at there
  obtain ⟨route, inside, rfl, rfl, handler'⟩ := (held.handlers method address h).mp there
  have written : mi.matchedPath = route.path :=
    matchedPath.trans (pathOf_patternOf (held.paths route inside))
  rw [written]
  refine ⟨⟨?_, fun h' other => ?_⟩, matched.mono fun _ => trivial, fun name value => ?_⟩
  · rwa [← handler']
  · have again := (held.handlers route.method (patternOf route.path) h').mpr
      ⟨_, other, rfl, rfl, rfl⟩
    exact some.inj (again.symm.trans there)
  · rw [paramPath, bindParams_eq_some matched.length_le]
    simp

/-- `GET /user/7` finds the handler of `/user/:id`, registered beside `/user/*` in vain. -/
theorem router_sound_user :
    ∃ mi : MatchInfo Nat,
      mi.matchedPath = utf8 "/user/:id" ∧ mi.paramPath (utf8 "id") = some (utf8 "7") ∧
      (⟨utf8 "GET", mi.matchedPath, some 1⟩ ∈
        (register ⟨fun _ => none, fun _ _ => false⟩
          [⟨utf8 "GET", utf8 "/user/*", some 2⟩, ⟨utf8 "GET", utf8 "/user/:id", some 1⟩]).2) := by
  refine ⟨((register ⟨fun _ => none, fun _ _ => false⟩
    [⟨utf8 "GET", utf8 "/user/*", some 2⟩, ⟨utf8 "GET", utf8 "/user/:id", some 1⟩]).1.findRoute
      ⟨fun _ => none, fun _ _ => false⟩ ∅ (utf8 "GET") (utf8 "/user/7")).get (by decide),
    by decide, by decide, ?_⟩
  exact (router_sound _ _ ∅ _ (utf8 "/user/7") _ 1
    ⟨(some_get _).symm, by decide, by decide⟩).1.1

end Soil.Web
