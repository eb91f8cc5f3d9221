import Soil.Web.Likeness

/-!
# What a rejected route leaves behind

`addRoute` makes the tree of the method and the nodes of the route while it goes along the
segments; when it panics at a later one, what it has made stays.
-/

namespace Soil.Web

open List Node Option Router

variable {H : Type} {re : Regexp}

namespace Router

/-- The call leaves no trace: the path is refused before the tree is looked at, or the tree
is there, and each node the call makes is static and no search comes to it. -/
def Traceless (re : Regexp) (r : Router H) (method path : Text) : Prop :=
  Shaped path → (r.trees.lookup method).isSome ∧
    ∀ way s, way ++ [s] <+: patternOf path → (r.rootOf method).Passes re (way ++ [s]) →
      ¬ ((r.rootOf method).get (way ++ [s])).isSome →
      kind s = .static ∧ ∀ values rest c, Node.Searched (values ++ s :: rest) →
        ¬ (r.rootOf method).Arrives re values way c

variable {r : Router H} {routes : List (Route H)} {route : Route H}

theorem Holds.addRoute_get (held : r.Holds routes) (shaped : Shaped route.path) (way : List Text) :
    (((r.addRoute re route.method route.path route.handler).1.rootOf route.method).get way).isSome ↔
      ((r.rootOf route.method).get way).isSome ∨ way <+: patternOf route.path ∧
        (r.rootOf route.method).Passes re way := by
  obtain ⟨conflict, worked⟩ := addRoute_shaped re r route.method route.handler shaped
  rw [worked, rootOf_insert, if_pos rfl,
    addSegments_get_isSome (held.formed route.method) (held.fresh route.method)]

variable {method : Text}

theorem rootOf_addRoute_ne (other : method ≠ route.method) :
    (r.addRoute re route.method route.path route.handler).1.rootOf method = r.rootOf method := by
  rcases addRoute_cases re r route.method route.path route.handler with
    ⟨-, p, refused⟩ | ⟨-, conflict, worked⟩
  · rw [refused]
  · rw [worked, rootOf_insert, if_neg other]

theorem extends_addRoute (held : r.Holds routes)
    (panics : (r.addRoute re route.method route.path route.handler).2 ≠ none)
    (traceless : Traceless re r route.method route.path) :
    r.Extends re (r.addRoute re route.method route.path route.handler).1 := by
  rcases addRoute_cases re r route.method route.path route.handler with
    ⟨-, p, refused⟩ | ⟨shaped, conflict, worked⟩
  · rw [refused]
    exact ⟨fun _ => rfl, fun _ => Node.Extends.refl _⟩
  obtain ⟨tree, blank⟩ := traceless shaped
  refine ⟨fun method => ?_, fun method => ?_⟩
  · rw [worked]
    by_cases here : method = route.method
    · subst here
      simp [tree]
    · simp [AList.lookup_insert_ne here]
  · by_cases here : method = route.method
    · subst here
      refine ⟨fun way old => (held.addRoute_get shaped way).mpr (.inl old), fun way => ?_,
        fun way s there special => ?_, fun values s rest way c searched arrives there => ?_⟩
      · rw [held.addRoute_handlerAt, if_neg fun both => panics both.1]
      · rcases (held.addRoute_get shaped _).mp there with old | ⟨begins, passes⟩
        · exact old
        · by_contra missing
          exact special (blank way s begins passes missing).1
      · rcases (held.addRoute_get shaped _).mp there with old | ⟨begins, passes⟩
        · exact old
        · by_contra missing
          exact (blank way s begins passes missing).2 values rest c searched arrives
    · rw [rootOf_addRoute_ne here]
      exact Node.Extends.refl _

/-! ## What is seen later -/

theorem Alike.finds {r' : Router H} (alike : Alike re r r') : Finds re r r' := (alike []).2

theorem alike_lookup (route : Route H) (shaped : Shaped route.path)
    (alike : Alike re r (r.addRoute re route.method route.path route.handler).1) :
    (r.trees.lookup route.method).isSome := by
  by_contra missing
  rw [not_isSome_iff_eq_none] at missing
  obtain ⟨conflict, worked⟩ := addRoute_shaped re r route.method route.handler shaped
  have same := alike.finds r.trees _ route.method [slash] (.refl _) (.refl _)
  rw [worked, findRoute, findRoute, AList.lookup_insert, missing] at same
  simp only [bind_none, bind_some, findInTree, if_true] at same
  split at same
  · simp [SameFound] at same
  · exact same

def rival (s : Text) : Text := if kind s = .any then [colon, asterisk] else [asterisk]

theorem rival_spec (s : Text) : rival s ≠ s ∧ kind (rival s) ≠ .static ∧ exprOf (rival s) = none ∧
    rival s ≠ [] ∧ slash ∉ rival s := by
  rw [rival]
  split
  next any =>
    obtain rfl := kind_eq_any.mp any
    decide
  next other =>
    refine ⟨fun same => other (kind_eq_any.mpr same.symm), ?_⟩
    decide

variable {way : List Text} {s : Text}

theorem alike_static (held : r.Holds routes) (shaped : Shaped route.path)
    (alike : Alike re r (r.addRoute re route.method route.path route.handler).1)
    (begins : way ++ [s] <+: patternOf route.path)
    (passes : (r.rootOf route.method).Passes re (way ++ [s]))
    (missing : ¬ ((r.rootOf route.method).get (way ++ [s])).isSome) : kind s = .static := by
  by_contra special
  obtain ⟨other, special', plainExpr, some_, plain⟩ := rival_spec s
  obtain ⟨routes', held'⟩ := held.addRoute re route
  obtain ⟨before, -, -, fits⟩ := passes_concat.mp passes
  have plain' : ∀ t ∈ way ++ [rival s], slash ∉ t := by
    intro t inside
    rcases mem_append.mp inside with early | last
    · exact slash_notMem_patternOf (begins.subset (by simp [early]))
    · rw [mem_singleton.mp last]
      exact plain
  have segments : patternOf (pathOf (way ++ [rival s])) = way ++ [rival s] := by
    refine patternOf_pathOf plain' fun blank => ?_
    rcases append_eq_singleton_iff.mp blank with ⟨-, single⟩ | ⟨-, none_⟩
    · exact some_ (by simpa using single)
    · simp at none_
  have shaped' : Shaped (pathOf (way ++ [rival s])) := shaped_pathOf plain' (by simpa using some_)
  -- the node in its place, if it is there, has only static children
  have free {c : Node H} (there : (r.rootOf route.method).get way = some c) {t : Text}
      (child_ : (c.child t).isSome) : kind t = .static := by
    by_contra sort
    have own := (fits_iff (held.formed _ _ c there)).mp (fits c there) t child_ sort special
    rw [get_concat there, ← own.1] at missing
    exact missing child_
  -- so without the new node the rival is accepted
  have returns : (r.addRoute re route.method (pathOf (way ++ [rival s])) route.handler).2 = none :=
    by
    rw [held.addRoute_returns_iff, segments]
    refine ⟨shaped', passes_concat.mpr ⟨before, some_, by simp [Compiles, plainExpr],
      fun c there => ?_⟩, ?_⟩
    · rw [fits_iff (held.formed _ _ c there)]
      intro t child_ sort
      exact absurd (free there child_) sort
    · cases found : (r.rootOf route.method).get (way ++ [rival s]) with
      | none => simp [handlerAt, found]
      | some =>
        obtain ⟨c, there, child_⟩ := get_concat_isSome.mp (isSome_of_eq_some found)
        exact absurd (free there child_) special'
  -- and with it there is no room
  have panics : ((r.addRoute re route.method route.path route.handler).1.addRoute re route.method
      (pathOf (way ++ [rival s])) route.handler).2 ≠ none := by
    intro returns'
    rw [held'.addRoute_returns_iff, segments] at returns'
    have fits' := (passes_concat.mp returns'.2.1).2.2.2
    have new := (held.addRoute_get shaped (way ++ [s])).mpr (.inr ⟨begins, passes⟩)
    obtain ⟨c, there, child_⟩ := get_concat_isSome.mp new
    have own := (fits_iff (held'.formed _ _ c there)).mp (fits' c there) s child_ special special'
    exact other own.1.symm
  have same := (alike [⟨route.method, pathOf (way ++ [rival s]), route.handler⟩]).1
  simp only [addRoutes, returns, List.cons.injEq, and_true, isSome_none] at same
  refine panics (not_isSome_iff_eq_none.mp ?_)
  rw [← same]
  simp

theorem walk_rootOf (tree : (r.trees.lookup method).isSome)
    (values : List Text) : r.walk re method values = (r.rootOf method).walk re values := by
  obtain ⟨root, tree⟩ := isSome_iff_exists.mp tree
  rw [walk, rootOf, tree]
  rfl

variable {c : Node H}

theorem Holds.arrives_new (held : r.Holds routes) (shaped : Shaped route.path)
    (panics : (r.addRoute re route.method route.path route.handler).2 ≠ none)
    {values : List Text} (begins : way ++ [s] <+: patternOf route.path)
    (passes : (r.rootOf route.method).Passes re (way ++ [s])) (static : kind s = .static)
    (arrives : (r.rootOf route.method).Arrives re values way c) :
    ∃ e, ((r.addRoute re route.method route.path route.handler).1.rootOf route.method).walk re
      (values ++ [s]) = some (way ++ [s], e) := by
  obtain ⟨routes', held'⟩ := held.addRoute re route
  have formed := held.formed route.method
  have formed' := held'.formed route.method
  have present := isSome_of_eq_some (arrives.get formed)
  have new := (held.addRoute_get shaped (way ++ [s])).mpr (.inr ⟨begins, passes⟩)
  -- the new nodes are below the place where the search has come
  have above : ∀ front t value, front ++ [t] <+: way →
      (((r.addRoute re route.method route.path route.handler).1.rootOf route.method).get
        (front ++ [value])).isSome →
      ((r.rootOf route.method).get (front ++ [value])).isSome := by
    intro front t value inside there
    rcases (held.addRoute_get shaped _).mp there with old | ⟨begins', -⟩
    · exact old
    · refine Node.get_isSome_of_start ?_ present
      refine prefix_of_prefix_length_le begins' ((prefix_append way [s]).trans begins) ?_
      simpa using inside.length_le
  rcases arrives.transfer formed formed' ((held.addRoute_get shaped way).mpr (.inl present)) above
    (fun front => by rw [held.addRoute_handlerAt, if_neg fun both => panics both.1]; exact id) with
    ⟨d, arrives'⟩
  obtain ⟨d', there, child_⟩ := Node.get_concat_isSome.mp new
  obtain rfl : d = d' := some.inj ((arrives'.get formed').symm.trans there)
  obtain ⟨e, child_⟩ := isSome_iff_exists.mp child_
  have ok := formed' _ d there
  have found : d.childOf re s = some e :=
    Node.childOf_of_admits ok child_ (by simp [Admits, static]) (by simp)
  have tag := ok.tagged child_
  refine ⟨e, ?_⟩
  rw [arrives'.walk, Node.walk, found]
  simp [Node.walk, tag.path]

theorem alike_unreached (held : r.Holds routes) (shaped : Shaped route.path)
    (panics : (r.addRoute re route.method route.path route.handler).2 ≠ none)
    (alike : Alike re r (r.addRoute re route.method route.path route.handler).1)
    (begins : way ++ [s] <+: patternOf route.path)
    (passes : (r.rootOf route.method).Passes re (way ++ [s]))
    (missing : ¬ ((r.rootOf route.method).get (way ++ [s])).isSome) (static : kind s = .static)
    {values rest : List Text} (searched : Node.Searched (values ++ s :: rest)) :
    ¬ (r.rootOf route.method).Arrives re values way c := by
  intro arrives
  obtain ⟨routes', held'⟩ := held.addRoute re route
  obtain ⟨path, cut⟩ := searched
  have some_ : s ≠ [] := (Node.passes_concat.mp passes).2.1
  have cut := segmentsOf_prefix some_ cut
  obtain ⟨e, walked'⟩ := held.arrives_new shaped panics begins passes static arrives
  have tree := alike_lookup route shaped alike
  have tree' : ((r.addRoute re route.method route.path route.handler).1.trees.lookup
      route.method).isSome := by
    obtain ⟨conflict, worked⟩ := addRoute_shaped re r route.method route.handler shaped
    rw [worked]
    simp
  have same := alike.finds r.trees _ route.method ((values ++ [s]).flatMap (slash :: ·)) (.refl _)
    (.refl _)
  rw [findRoute, findRoute, held.findInTree_eq, held'.findInTree_eq, cut, walk_rootOf tree,
    walk_rootOf tree', walked', arrives.walk] at same
  cases found : c.childOf re s with
  | none =>
    have ends : c.walk re [s] = none := by rw [Node.walk, found]
    simp only [ends, map_none, map_some] at same
    split at same
    · simp [SameFound] at same
    · exact same
  | some d =>
    have child_ := (Node.childOf_eq_some (held.formed _ _ _ (arrives.get (held.formed _))) found).1
    -- the search without the new node ends at another address
    have other : d.path ≠ s := by
      intro same
      refine missing (Node.get_concat_isSome.mpr ⟨c, arrives.get (held.formed _), ?_⟩)
      rw [← same, child_]
      rfl
    have ends : c.walk re [s] = some ([d.path], d) := by
      rw [Node.walk, found]
      simp [Node.walk]
    simp only [ends, map_some, SameFound] at same
    have path := same.2.1
    simp only [pathOf, append_eq_nil_iff, cons_ne_self, and_false, if_false,
      flatMap_append, flatMap_cons, flatMap_nil, append_nil,
      append_cancel_left_eq, List.cons.injEq, true_and] at path
    exact other path

end Router

/-- For every router reached by calls of `addRoute`, recovered panics included, and every call
that panics: nothing that comes later shows that the call was made if and only if the call is
without trace. -/
theorem rejected_iff (re : Regexp) (calls : List (Route H)) (route : Route H)
    (panics : ((register re calls).1.addRoute re route.method route.path route.handler).2 ≠ none) :
    Router.Alike re (register re calls).1
        ((register re calls).1.addRoute re route.method route.path route.handler).1 ↔
      Router.Traceless re (register re calls).1 route.method route.path := by
  have held := register_holds re calls
  constructor
  · intro alike shaped
    refine ⟨alike_lookup route shaped alike, fun way s begins passes missing => ?_⟩
    have static := alike_static held shaped alike begins passes missing
    exact ⟨static, fun values rest c searched =>
      alike_unreached held shaped panics alike begins passes missing static searched⟩
  · intro traceless
    obtain ⟨routes', held'⟩ := held.addRoute re route
    exact (extends_addRoute held panics traceless).alike held held'

/-- A second handler for `/a` is refused without trace. -/
theorem rejected_iff_conflict :
    Router.Alike ⟨fun _ => none, fun _ _ => false⟩
      (register ⟨fun _ => none, fun _ _ => false⟩ [⟨utf8 "GET", utf8 "/a", some 1⟩]).1
      ((register ⟨fun _ => none, fun _ _ => false⟩ [⟨utf8 "GET", utf8 "/a", some 1⟩]).1.addRoute
        ⟨fun _ => none, fun _ _ => false⟩ (utf8 "GET") (utf8 "/a") (some 2)).1 := by
  refine (rejected_iff _ _ ⟨utf8 "GET", utf8 "/a", some 2⟩ (by decide)).mpr fun _ => ?_
  refine ⟨by decide, fun way s begins _ missing => absurd ?_ missing⟩
  have pattern : patternOf (utf8 "/a") = [utf8 "a"] := by decide
  rw [pattern, ← nil_append [utf8 "a"], prefix_concat_iff] at begins
  rcases begins with whole | none_
  · rw [whole]
    decide
  · simp at none_

/-- The route `/a//b` is refused, and afterwards `GET /a` is found. -/
theorem refused_route_found :
    ((register ⟨fun _ => none, fun _ _ => false⟩ []).1.addRoute ⟨fun _ => none, fun _ _ => false⟩
        (utf8 "GET") (utf8 "/a//b") (some 1)).2.isSome ∧
    ((register (H := Nat) ⟨fun _ => none, fun _ _ => false⟩ []).1.findRoute
        ⟨fun _ => none, fun _ _ => false⟩ ∅ (utf8 "GET") (utf8 "/a")).isSome = false ∧
    (((register ⟨fun _ => none, fun _ _ => false⟩ []).1.addRoute ⟨fun _ => none, fun _ _ => false⟩
        (utf8 "GET") (utf8 "/a//b") (some 1)).1.findRoute ⟨fun _ => none, fun _ _ => false⟩ ∅
          (utf8 "GET") (utf8 "/a")).isSome = true ∧
    ¬ Router.Alike ⟨fun _ => none, fun _ _ => false⟩
      (register ⟨fun _ => none, fun _ _ => false⟩ []).1
      ((register ⟨fun _ => none, fun _ _ => false⟩ []).1.addRoute
        ⟨fun _ => none, fun _ _ => false⟩ (utf8 "GET") (utf8 "/a//b") (some 1)).1 := by
  refine ⟨by decide, by decide, by decide, fun alike => ?_⟩
  have tree := alike_lookup ⟨utf8 "GET", utf8 "/a//b", some 1⟩ ⟨by decide, .inr (by decide)⟩ alike
  simp [register] at tree

/-! ## The nodes that stay -/

inductive Node.Below (root : Node H) : Node H → Prop
  | root : Below root root
  | static {n c : Node H} {key : Text} : Below root n → n.children key = some c → Below root c
  | star {n c : Node H} : Below root n → n.starChild = some c → Below root c
  | param {n c : Node H} : Below root n → n.paramChild = some c → Below root c
  | regex {n c : Node H} : Below root n → n.regexChild = some c → Below root c

structure Node.Exclusive (re : Regexp) (n : Node H) : Prop where
  alone : [n.starChild, n.paramChild, n.regexChild].countP (·.isSome) ≤ 1
  static : ∀ key c, n.children key = some c → c.path = key ∧ key ≠ [] ∧ slash ∉ key
  regex : ∀ c, n.regexChild = some c → ∃ exp, c.regExpr = some exp ∧ re.compileError exp = none

variable {root n c : Node H} {segment : Text}

theorem child_of_static (ok : n.Local) (there : n.children segment = some c) :
    n.child segment = some c := by
  rw [child, (ok.static segment c there).1]
  exact there

theorem child_of_regex (ok : n.Local) (there : n.regexChild = some c) : n.child c.path = some c := by
  rw [child, (ok.regex c there).1]
  simp [there]

theorem Node.Below.get (below : root.Below n) (formed : root.WellFormed) :
    ∃ way, root.get way = some n := by
  induction below with
  | root => exact ⟨[], rfl⟩
  | static _ there ih =>
    obtain ⟨way, at_⟩ := ih
    exact ⟨_, (get_concat at_ _).trans (child_of_static (formed _ _ at_) there)⟩
  | star _ there ih =>
    obtain ⟨way, at_⟩ := ih
    exact ⟨_, (get_concat at_ [asterisk]).trans there⟩
  | param _ there ih =>
    obtain ⟨way, at_⟩ := ih
    have sort := ((formed _ _ at_).param _ there).1
    exact ⟨_, (get_concat at_ _).trans (by rw [child, sort]; simp [there])⟩
  | regex _ there ih =>
    obtain ⟨way, at_⟩ := ih
    exact ⟨_, (get_concat at_ _).trans (child_of_regex (formed _ _ at_) there)⟩

theorem register_plain {calls : List (Route H)} {method : Text} {way : List Text}
    (inside : segment ∈ way) (begins : (register re calls).1.Begins method way) :
    segment ≠ [] ∧ slash ∉ segment ∧ Compiles re segment := by
  induction calls with
  | nil => simp [register, Begins] at begins
  | cons route earlier ih =>
    have after : (register re (route :: earlier)).1 =
        ((register re earlier).1.addRoute re route.method route.path route.handler).1 := by
      rw [register]
      split <;> simp [*]
    rw [after, (register_holds re earlier).addRoute_begins] at begins
    rcases begins with old | ⟨-, -, start, passes⟩
    · exact ih old
    · obtain ⟨k, at_⟩ := mem_iff_getElem?.mp inside
      have good := passes k segment at_
      exact ⟨good.1, slash_notMem_patternOf (start.subset inside), good.2.1⟩

theorem register_exclusive (re : Regexp) (calls : List (Route H)) (method : Text) {root n : Node H}
    (tree : (register re calls).1.trees.lookup method = some root) (below : root.Below n) :
    n.Exclusive re := by
  have formed := (register_holds re calls).formed method
  rw [rootOf, tree] at formed
  obtain ⟨way, at_⟩ := below.get formed
  have ok := formed way n at_
  have plain {c : Node H} {segment : Text} (there : n.child segment = some c) :
      segment ≠ [] ∧ slash ∉ segment ∧ Compiles re segment :=
    register_plain (mem_append_right way mem_cons_self)
      ⟨root, tree, by rw [get_concat at_, there]; rfl⟩
  refine ⟨?_, fun key c there => ?_, fun c there => ?_⟩
  · cases star : n.starChild with
    | some => simp [ok.starAlone (by simp [star])]
    | none =>
      cases param : n.paramChild with
      | some => simp [ok.paramAlone (by simp [param])]
      | none => cases n.regexChild <;> simp
  · have good := plain (child_of_static ok there)
    exact ⟨(ok.static key c there).2.path, good.1, good.2.1⟩
  · obtain ⟨sort, tag⟩ := ok.regex c there
    have expr : exprOf c.path = some (parseParam c.path).2.1 := by rw [exprOf, sort]
    exact ⟨_, tag.expr.trans expr, (plain (child_of_regex ok there)).2.2 _ expr⟩

theorem register_exclusive_regex : ∃ root : Node Nat, (register ⟨fun _ => none, fun _ _ => true⟩
      [⟨utf8 "GET", utf8 "/:id(x)", none⟩]).1.trees.lookup (utf8 "GET") = some root ∧
    root.Exclusive ⟨fun _ => none, fun _ _ => true⟩ := by
  refine (isSome_iff_exists.mp ?_).imp fun _ tree => ⟨tree, register_exclusive _ _ _ tree .root⟩
  decide

end Soil.Web
