import Soil.Web.Trie

/-!
# Registered routes

The trees of a router against the calls of `addRoute` that returned.
-/

namespace Soil.Web

variable {H : Type} {re : Regexp}

structure Shaped (path : Text) : Prop where
  begins : path.head? = some slash
  ends : path = [slash] ∨ path.getLast? ≠ some slash

namespace Router

def rootOf (r : Router H) (method : Text) : Node H :=
  (r.trees.lookup method).getD { path := [slash] }

def Begins (r : Router H) (method : Text) (address : List Text) : Prop :=
  ∃ root, r.trees.lookup method = some root ∧ (root.get address).isSome

variable {r : Router H} {method other : Text} {root : Node H}

theorem rootOf_insert : rootOf { trees := r.trees.insert method root } other =
      if other = method then root else r.rootOf other := by
  by_cases same : other = method
  · subst same
    simp [rootOf]
  · simp [rootOf, same]

variable {address : List Text}

theorem begins_insert : Begins { trees := r.trees.insert method root } other address ↔
      if other = method then (root.get address).isSome = true else r.Begins other address := by
  by_cases same : other = method
  · subst same
    simp [Begins]
  · simp [Begins, same]

theorem rootOf_get_isSome :
    ((r.rootOf method).get address).isSome ↔ r.Begins method address ∨ address = [] := by
  cases tree : r.trees.lookup method with
  | some =>
    cases address with
    | nil => simp [Node.get]
    | cons => simp [rootOf, tree, Begins]
  | none =>
    cases address with
    | nil => simp [Node.get]
    | cons segment =>
      have none_ : (r.rootOf method).child segment = none := by
        rw [rootOf, tree]
        exact Node.child_ofSegment [slash] segment
      simp [Node.get, none_, Begins, tree]

theorem addRoute_cases (re : Regexp) (r : Router H) (method path : Text) (handler : Option H) :
    (¬ Shaped path ∧ ∃ p, r.addRoute re method path handler = (r, some p)) ∨
      Shaped path ∧ ∃ conflict, r.addRoute re method path handler =
          ({ trees := r.trees.insert method
              ((r.rootOf method).addSegments re path conflict handler (patternOf path)).1 },
            ((r.rootOf method).addSegments re path conflict handler (patternOf path)).2) := by
  rw [addRoute]
  split
  next empty => exact .inl ⟨fun shaped => by simpa [empty] using shaped.begins, _, rfl⟩
  split
  next other => exact .inl ⟨fun shaped => other shaped.begins, _, rfl⟩
  next begins =>
  split
  next ends => exact .inl ⟨fun shaped => shaped.ends.elim ends.1 (absurd ends.2), _, rfl⟩
  next ends =>
  have begins : path.head? = some slash := by simpa using begins
  by_cases root : path = [slash]
  · exact .inr ⟨⟨begins, .inl root⟩, utf8 "web: root already has a handler",
      by simp [root, patternOf, rootOf]⟩
  · exact .inr ⟨⟨begins, .inr (by simpa [root] using ends)⟩, utf8 "web: routing conflict",
      by simp [root, patternOf, rootOf]⟩

/-! ## What a router holds -/

structure Holds (r : Router H) (routes : List (Route H)) : Prop where
  formed : ∀ method, (r.rootOf method).WellFormed
  rooted : ∀ method, (r.rootOf method).Tagged [slash]
  handlers : ∀ method address h, (r.rootOf method).handlerAt address = some h ↔
    ∃ route ∈ routes, route.method = method ∧ patternOf route.path = address ∧
      route.handler = some h
  paths : ∀ route ∈ routes, route.path.head? = some slash

theorem holds_nil : Holds (H := H) {} [] where
  formed _ := Node.wellFormed_ofSegment [slash]
  rooted _ := Node.tagged_ofSegment [slash]
  handlers method address h := by
    cases address with
    | nil => simp [rootOf, Node.handlerAt, Node.get]
    | cons segment =>
      have none_ : (rootOf (H := H) {} method).child segment = none :=
        Node.child_ofSegment [slash] segment
      simp [Node.handlerAt, Node.get, none_]
  paths := by simp

variable {routes : List (Route H)}

theorem Holds.fresh (held : r.Holds routes) (method : Text) : (r.rootOf method).Fresh := by
  intro expr
  rw [(held.rooted method).expr] at expr
  exact absurd expr (by decide)

theorem Holds.adds (held : r.Holds routes)
    (re : Regexp) (method path conflict : Text) (handler : Option H) (segments : List Text) :
    Node.Adds handler segments (r.rootOf method)
      ((r.rootOf method).addSegments re path conflict handler segments).1
      ((r.rootOf method).addSegments re path conflict handler segments).2 :=
  Node.adds (held.formed method) (held.fresh method)

variable {handler : Option H}

theorem Holds.insert (held : r.Holds routes) {segments : List Text} {outcome : Option RoutePanic}
    (added : Node.Adds handler segments (r.rootOf method) root outcome) (other : Text) :
    (rootOf { trees := r.trees.insert method root } other).WellFormed ∧
      (rootOf { trees := r.trees.insert method root } other).Tagged [slash] := by
  rw [rootOf_insert]
  split
  · exact ⟨added.wellFormed (held.formed method), added.tagged (held.rooted method)⟩
  · exact ⟨held.formed other, held.rooted other⟩

variable {r' : Router H}

theorem Holds.addRoute_panics {path : Text} {p : RoutePanic} (held : r.Holds routes)
    (call : r.addRoute re method path handler = (r', some p)) : r'.Holds routes := by
  rcases addRoute_cases re r method path handler with ⟨-, q, same⟩ | ⟨-, conflict, worked⟩
  · rw [same] at call
    obtain rfl : r = r' := (Prod.mk.inj call).1
    exact held
  rw [worked] at call
  obtain ⟨rfl, panics⟩ := Prod.mk.inj call
  have added := held.adds re method path conflict handler (patternOf path)
  rw [panics] at added
  refine ⟨fun other => (held.insert added other).1, fun other => (held.insert added other).2,
    fun other address h => ?_, held.paths⟩
  rw [rootOf_insert]
  split
  next here =>
    subst here
    rw [added.handlerAt (held.formed other), if_neg (by simp), held.handlers]
  · exact held.handlers other address h

variable {route : Route H}

theorem Holds.addRoute_returns (held : r.Holds routes)
    (call : r.addRoute re route.method route.path route.handler = (r', none)) :
    r'.Holds (route :: routes) := by
  rcases addRoute_cases re r route.method route.path route.handler with
    ⟨-, q, same⟩ | ⟨shaped, conflict, worked⟩
  · simp [same] at call
  rw [worked] at call
  obtain ⟨rfl, returns⟩ := Prod.mk.inj call
  have added := held.adds re route.method route.path conflict route.handler (patternOf route.path)
  rw [returns] at added
  refine ⟨fun other => (held.insert added other).1, fun other => (held.insert added other).2,
    fun other address h => ?_, by simpa [shaped.begins] using held.paths⟩
  rw [rootOf_insert]
  split
  next here =>
    subst here
    rw [added.handlerAt (held.formed route.method)]
    by_cases place : address = patternOf route.path
    · -- no earlier route has a handler there
      subst place
      have free := added.free
      have before := held.handlers route.method (patternOf route.path) h
      rw [free] at before
      simp only [reduceCtorEq, false_iff] at before
      simp [before]
    · rw [if_neg (by simp [place]), held.handlers]
      simp [Ne.symm place]
  next here =>
    rw [held.handlers]
    simp [Ne.symm here]

end Router

/-! ## Sequences of calls -/

theorem register_holds (re : Regexp) (calls : List (Route H)) :
    (register re calls).1.Holds (register re calls).2 := by
  induction calls with
  | nil => exact Router.holds_nil
  | cons route earlier ih =>
    rw [register]
    split
    next r call => exact ih.addRoute_returns call
    next r p call => exact ih.addRoute_panics call

theorem register_length_le (re : Regexp) (calls : List (Route H)) :
    (register re calls).2.length ≤ calls.length := by
  induction calls with
  | nil => simp [register]
  | cons route earlier ih =>
    rw [register]
    split
    · simpa using ih
    · exact Nat.le_succ_of_le ih

theorem register_cons_returned {earlier : List (Route H)}
    (returned : (register re (route :: earlier)).2 = route :: earlier) :
    (register re earlier).2 = earlier ∧
      (register re earlier).1.addRoute re route.method route.path route.handler =
        ((register re (route :: earlier)).1, none) := by
  rw [register] at returned ⊢
  split at returned
  next r call => exact ⟨(List.cons.inj returned).2, by rw [call]⟩
  next r p call =>
    have short := register_length_le re earlier
    rw [returned] at short
    simp at short

theorem register_begins {calls : List (Route H)} (returned : (register re calls).2 = calls)
    (method : Text) (address : List Text) : (register re calls).1.Begins method address ↔
      ∃ route ∈ calls, route.method = method ∧ address <+: patternOf route.path := by
  induction calls with
  | nil => simp [register, Router.Begins]
  | cons route earlier ih =>
    obtain ⟨returned', call⟩ := register_cons_returned returned
    have held := register_holds re earlier
    rcases Router.addRoute_cases re (register re earlier).1 route.method route.path
      route.handler with ⟨-, q, same⟩ | ⟨-, conflict, worked⟩
    · simp [same] at call
    rw [worked] at call
    obtain ⟨after, returns⟩ := Prod.mk.inj call
    have added := held.adds re route.method route.path conflict route.handler (patternOf route.path)
    rw [returns] at added
    rw [← after, Router.begins_insert]
    by_cases here : method = route.method
    · subst here
      rw [if_pos rfl, added.get_isSome (held.formed route.method), Router.rootOf_get_isSome,
        ih returned']
      simp only [List.mem_cons, exists_eq_or_imp, true_and]
      constructor
      · rintro ((old | rfl) | new)
        · exact .inr old
        · exact .inl List.nil_prefix
        · exact .inl new
      · rintro (new | old)
        · exact .inr new
        · exact .inl (.inl old)
    · rw [if_neg here, ih returned']
      simp [Ne.symm here]

end Soil.Web
