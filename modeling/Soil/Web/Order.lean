import Soil.Web.Likeness
import Mathlib.Data.List.Perm.Basic

/-!
# The order of registrations
-/

namespace Soil.Web

open List Option Router

variable {H : Type} {re : Regexp}

/-! ## Compatible routes -/

def Blocks (p q : List Text) : Prop :=
  ∃ k s t, q[k]? = some s ∧ kind s ≠ .static ∧ kind t ≠ .static ∧ (t ≠ s ∨ kind s = .reg) ∧
    q.take k ++ [t] <+: p

theorem Blocks.symm {p q : List Text} (blocks : Blocks p q) : Blocks q p := by
  obtain ⟨k, s, t, at_, special, special', clash, begins⟩ := blocks
  obtain ⟨-, rfl⟩ := begins
  have inside : k < q.length := (List.getElem?_eq_some_iff.mp at_).1
  have length : (q.take k).length = k := by rw [length_take, Nat.min_eq_left inside.le]
  refine ⟨k, t, s, ?_, special', special, ?_, ?_⟩
  · rw [append_assoc, List.getElem?_append_right length.le, length]
    simp
  · rcases clash with differ | regex
    · exact .inl (Ne.symm differ)
    · by_cases same : s = t
      · exact .inr (same ▸ regex)
      · exact .inl same
  · have next : q.take k ++ [s] = q.take (k + 1) := by
      rw [take_add_one, at_]
      rfl
    rw [append_assoc, take_append_of_le_length length.ge, take_take, Nat.min_self,
      next]
    exact take_prefix _ _

structure Admissible (re : Regexp) (route : Route H) : Prop where
  shaped : Shaped route.path
  segments : ∀ s ∈ patternOf route.path, s ≠ [] ∧ Compiles re s

def Follows (later earlier : Route H) : Prop :=
  earlier.method = later.method →
    ¬ Blocks (patternOf earlier.path) (patternOf later.path) ∧
      (earlier.handler.isSome → patternOf earlier.path ≠ patternOf later.path)

variable {calls : List (Route H)}

theorem passes_iff_follows (returned : (register re calls).2 = calls)
    (method : Text) (segments : List Text) :
    ((register re calls).1.rootOf method).Passes re segments ↔
      (∀ s ∈ segments, s ≠ [] ∧ Compiles re s) ∧
        ∀ route ∈ calls, route.method = method → ¬ Blocks (patternOf route.path) segments := by
  by_cases compiles : ∀ s ∈ segments, Compiles re s
  · rw [← not_iff_not, not_passes_iff returned compiles, not_and_or]
    refine or_congr ?_ ?_
    · constructor
      · intro empty all
        exact (all [] empty).1 rfl
      · intro fails
        by_contra full
        refine fails fun s inside => ⟨fun empty => full (empty ▸ inside), compiles s inside⟩
    · constructor
      · intro stops all
        obtain ⟨k, s, t, at_, special, other, clash, route, inside, method_, begins⟩ := stops
        exact all route inside method_ ⟨k, s, t, at_, special, other, clash, begins⟩
      · intro fails
        simp only [not_forall, not_not] at fails
        obtain ⟨route, inside, method_, k, s, t, at_, special, other, clash, begins⟩ := fails
        exact ⟨k, s, t, at_, special, other, clash, route, inside, method_, begins⟩
  · refine iff_of_false (fun passes => compiles fun s inside => ?_)
      (fun both => compiles fun s inside => (both.1 s inside).2)
    obtain ⟨k, at_⟩ := List.getElem?_of_mem inside
    exact (passes k s at_).2.1

theorem returns_iff_follows (returned : (register re calls).2 = calls) (route : Route H) :
    ((register re calls).1.addRoute re route.method route.path route.handler).2 = none ↔
      Admissible re route ∧ ∀ earlier ∈ calls, Follows route earlier := by
  have free : ((register re calls).1.rootOf route.method).handlerAt (patternOf route.path) = none ↔
      ¬ Registered calls route.method (patternOf route.path) := by
    rw [← handlerAt_isSome returned]
    simp
  rw [(register_holds re calls).addRoute_returns_iff, passes_iff_follows returned, free]
  constructor
  · rintro ⟨shaped, ⟨segments, room⟩, free⟩
    refine ⟨⟨shaped, segments⟩, fun earlier inside method_ => ⟨room earlier inside method_, ?_⟩⟩
    intro some_ same
    exact free ⟨earlier, inside, method_, same, some_⟩
  · rintro ⟨admissible, follows⟩
    refine ⟨admissible.shaped, ⟨admissible.segments, fun earlier inside method_ =>
      (follows earlier inside method_).1⟩, fun registered => ?_⟩
    obtain ⟨earlier, inside, method_, same, some_⟩ := registered
    exact (follows earlier inside method_).2 some_ same

theorem register_returned_iff (re : Regexp) (calls : List (Route H)) :
    (register re calls).2 = calls ↔
      (∀ route ∈ calls, Admissible re route) ∧ calls.Pairwise Follows := by
  induction calls with
  | nil => simp [register]
  | cons route earlier ih =>
    rw [forall_mem_cons, pairwise_cons]
    constructor
    · intro returned
      obtain ⟨returned', call⟩ := register_cons_returned returned
      have returns := (returns_iff_follows returned' route).mp (by rw [call])
      obtain ⟨admissible, pairs⟩ := ih.mp returned'
      exact ⟨⟨returns.1, admissible⟩, returns.2, pairs⟩
    · rintro ⟨⟨own, admissible⟩, follows, pairs⟩
      have returned' := ih.mpr ⟨admissible, pairs⟩
      have returns := (returns_iff_follows returned' route).mpr ⟨own, follows⟩
      rw [register]
      split
      next r call => rw [returned']
      next r p call =>
        rw [call] at returns
        contradiction

/-! ## Orders -/

def Unmixed (calls : List (Route H)) : Prop :=
  ∀ a ∈ calls, ∀ b ∈ calls, a.method = b.method → a.path = b.path →
    (a.handler.isSome ↔ b.handler.isSome)

theorem Router.begins_nil {r : Router H} {method : Text} :
    r.Begins method [] ↔ (r.trees.lookup method).isSome := by
  rw [isSome_iff_exists]
  exact exists_congr fun root => and_iff_left rfl

theorem finds_of_perm {calls' : List (Route H)} (returned : (register re calls).2 = calls)
    (returned' : (register re calls').2 = calls') (same : calls'.Perm calls) :
    Router.Finds re (register re calls).1 (register re calls').1 := by
  have held := register_holds re calls
  have held' := register_holds re calls'
  have begins (method : Text) (address : List Text) :
      (register re calls').1.Begins method address ↔ (register re calls).1.Begins method address :=
        by
    rw [register_begins returned, register_begins returned']
    simp [same.mem_iff]
  have nodes (method : Text) (way : List Text) :
      (((register re calls').1.rootOf method).get way).isSome ↔
        (((register re calls).1.rootOf method).get way).isSome := by
    rw [rootOf_get_isSome, rootOf_get_isSome, begins]
  have extends_ : (register re calls).1.Extends re (register re calls').1 := by
    refine ⟨fun method => ?_, fun method => ⟨fun way => (nodes method way).mpr, fun way => ?_,
      fun way s there _ => (nodes method _).mp there,
      fun _ _ _ _ _ _ _ there => (nodes method _).mp there⟩⟩
    · rw [Bool.eq_iff_iff, ← begins_nil, ← begins_nil]
      exact begins method []
    · refine ext fun h => ?_
      rw [held.handlers, held'.handlers, returned, returned']
      simp [same.mem_iff]
  exact held.finds held' (extends_.walk_eq held held')

theorem Follows.symm_of_unmixed {a b : Route H} (follows : Follows a b)
    (begins : a.path.head? = some slash) (begins' : b.path.head? = some slash)
    (unmixed : a.method = b.method → a.path = b.path → (a.handler.isSome ↔ b.handler.isSome)) :
    Follows b a := by
  intro method_
  obtain ⟨room, free⟩ := follows method_.symm
  refine ⟨fun blocks => room blocks.symm, fun some_ same => ?_⟩
  have path : a.path = b.path := by
    rw [← pathOf_patternOf begins, ← pathOf_patternOf begins', same]
  exact free ((unmixed method_ path).mp some_) same.symm

/-- Every order of routes that can be registered in one order can be registered, and gives
the same searches, if and only if no path comes both with a nil handler and with another. -/
theorem order_iff (re : Regexp) (calls : List (Route H))
    (returned : (register re calls).2 = calls) :
    (∀ calls' : List (Route H), calls'.Perm calls → (register re calls').2 = calls' ∧
      Router.Finds re (register re calls).1 (register re calls').1) ↔ Unmixed calls := by
  obtain ⟨admissible, pairs⟩ := (register_returned_iff re calls).mp returned
  constructor
  · intro every
    -- the route with a nil handler comes last
    have handled {a b : Route H} (ina : a ∈ calls) (inb : b ∈ calls) (method_ : a.method = b.method)
        (path : a.path = b.path) (some_ : b.handler.isSome) : a.handler.isSome := by
      by_contra nil
      have differ : b ≠ a := fun same => nil (same ▸ some_)
      obtain ⟨front, back, rfl⟩ := append_of_mem ina
      have last := (every (a :: (front ++ back)) perm_middle.symm).1
      have follows := (pairwise_cons.mp ((register_returned_iff re _).mp last).2).1
      have inside : b ∈ front ++ back := by
        simp only [mem_append, mem_cons, differ, false_or] at inb ⊢
        exact inb
      exact (follows b inside method_.symm).2 some_ (by rw [path])
    intro a ina b inb method_ path
    exact ⟨handled inb ina method_.symm path.symm, handled ina inb method_ path⟩
  · intro unmixed calls' same
    have both : calls.Pairwise fun a b => Follows a b ∧ Follows b a := by
      refine pairs.imp_of_mem fun ina inb follows => ⟨follows, ?_⟩
      exact follows.symm_of_unmixed (admissible _ ina).shaped.begins
        (admissible _ inb).shaped.begins (unmixed _ ina _ inb)
    have pairs' := (same.symm.pairwise_iff fun {a b} both => both.symm).mp both
    have returned' : (register re calls').2 = calls' :=
      (register_returned_iff re calls').mpr
        ⟨fun route inside => admissible route (same.mem_iff.mp inside), pairs'.imp And.left⟩
    exact ⟨returned', finds_of_perm returned returned' same⟩

/-- Two routes with handlers, in either order. -/
theorem order_iff_two :
    (register ⟨fun _ => none, fun _ _ => false⟩
      [⟨utf8 "GET", utf8 "/a", some 1⟩, ⟨utf8 "GET", utf8 "/:x", some 2⟩]).2 =
        [⟨utf8 "GET", utf8 "/a", some 1⟩, ⟨utf8 "GET", utf8 "/:x", some 2⟩] ∧
    Router.Finds ⟨fun _ => none, fun _ _ => false⟩
      (register ⟨fun _ => none, fun _ _ => false⟩
        [⟨utf8 "GET", utf8 "/:x", some 2⟩, ⟨utf8 "GET", utf8 "/a", some 1⟩]).1
      (register ⟨fun _ => none, fun _ _ => false⟩
        [⟨utf8 "GET", utf8 "/a", some 1⟩, ⟨utf8 "GET", utf8 "/:x", some 2⟩]).1 :=
  (order_iff _ [⟨utf8 "GET", utf8 "/:x", some 2⟩, ⟨utf8 "GET", utf8 "/a", some 1⟩]
    (by decide)).mpr (by unfold Unmixed; decide) _ (.swap _ _ _)

/-- A nil handler is replaced by a later one, and does not replace an earlier one. -/
theorem nil_handler_order :
    (register ⟨fun _ => none, fun _ _ => false⟩
      [⟨utf8 "GET", utf8 "/a", some 1⟩, ⟨utf8 "GET", utf8 "/a", none⟩]).2 =
        [⟨utf8 "GET", utf8 "/a", some 1⟩, ⟨utf8 "GET", utf8 "/a", none⟩] ∧
    (register ⟨fun _ => none, fun _ _ => false⟩
      [⟨utf8 "GET", utf8 "/a", none⟩, ⟨utf8 "GET", utf8 "/a", some 1⟩]).2 =
        [⟨utf8 "GET", utf8 "/a", some 1⟩] := by
  decide

/-! ## Static routes -/

theorem Node.walk_static {n c : Node H} {address : List Text} (formed : n.WellFormed)
    (static : ∀ s ∈ address, kind s = .static) (there : n.get address = some c) :
    n.walk re address = some (address, c) := by
  induction address generalizing n with
  | nil =>
    obtain rfl : n = c := by simpa [get] using there
    rfl
  | cons segment rest ih =>
    obtain ⟨ok, below⟩ := wellFormed_iff.mp formed
    obtain ⟨d, child_, there⟩ := bind_eq_some_iff.mp there
    have sort := static segment mem_cons_self
    have found : n.childOf re segment = some d :=
      childOf_of_admits ok child_ (by simp [Admits, sort]) (by simp)
    have tag := ok.tagged child_
    have onwards := ih (below segment d child_) (fun s inside => static s (by simp [inside])) there
    rw [walk, found]
    simp [tag.typ, sort, tag.path, onwards]

variable {route : Route H}

theorem register_admissible (inside : route ∈ (register re calls).2) :
    Admissible re route ∧ (register re calls).1.Begins route.method (patternOf route.path) := by
  induction calls with
  | nil => simp [register] at inside
  | cons last earlier ih =>
    have held := register_holds re earlier
    have kept (known : Admissible re route ∧
        (register re earlier).1.Begins route.method (patternOf route.path)) :
        Admissible re route ∧
          ((register re earlier).1.addRoute re last.method last.path last.handler).1.Begins
            route.method (patternOf route.path) :=
      ⟨known.1, (held.addRoute_begins _ _).mpr (.inl known.2)⟩
    rw [register] at inside ⊢
    split at inside
    next r call =>
      rw [call] at kept
      rcases mem_cons.mp inside with rfl | inside
      · have returns := held.addRoute_returns_iff.mp (congrArg Prod.snd call)
        refine ⟨⟨returns.1, fun s inside => ?_⟩, ?_⟩
        · obtain ⟨k, at_⟩ := List.getElem?_of_mem inside
          have passes := returns.2.1 k s at_
          exact ⟨passes.1, passes.2.1⟩
        · have begins : ((register re earlier).1.addRoute re route.method route.path
              route.handler).1.Begins route.method (patternOf route.path) :=
            (held.addRoute_begins _ _).mpr (.inr ⟨returns.1, rfl, prefix_rfl, returns.2.1⟩)
          rwa [call] at begins
      · exact kept (ih inside)
    next r p call =>
      rw [call] at kept
      exact kept (ih inside)

theorem Admissible.segmentsOf_eq (admissible : Admissible re route) :
    segmentsOf route.path = patternOf route.path := by
  by_cases root : route.path = [slash]
  · rw [segmentsOf, patternOf, if_pos root, if_pos root]
  have written := pathOf_patternOf admissible.shaped.begins
  have some_ : patternOf route.path ≠ [] := by
    rw [patternOf, if_neg root]
    exact splitOn_ne_nil _ _
  rw [pathOf, if_neg some_] at written
  conv_lhs => rw [← written]
  refine segmentsOf_flatMap some_ (fun _ => slash_notMem_patternOf) (fun empty => ?_)
    (fun empty => ?_)
  · exact (admissible.segments [] (mem_of_head? empty)).1 rfl
  · exact (admissible.segments [] (mem_of_getLast? empty)).1 rfl

theorem bindParams_static {pattern values : List Text} {params : Text → Option Text}
    (static : ∀ s ∈ pattern, kind s = .static) : bindParams pattern values params = params := by
  induction pattern generalizing values params with
  | nil => rfl
  | cons segment rest ih =>
    cases values with
    | nil => rfl
    | cons =>
      have unnamed : nameOf segment = [] := by simp [nameOf, static segment mem_cons_self]
      rw [bindParams, ih fun s inside => static s (mem_cons_of_mem segment inside)]
      simp [unnamed]

/-- Whatever was registered, and whichever calls panicked: a search for the path of a static
route returns ok, not `methodNotAllowed`, the path as matched path and no parameters; and the
handler of the route if and only if that is not nil or no other route has given the path a
handler. -/
theorem static_iff (re : Regexp) (calls : List (Route H)) (route : Route H)
    (inside : route ∈ (register re calls).2)
    (static : ∀ s ∈ patternOf route.path, kind s = .static) (order : Trees H) :
    ∃ mi, (register re calls).1.findRoute re order route.method route.path = some mi ∧
      mi.methodNotAllowed = false ∧ mi.matchedPath = route.path ∧ (∀ name, mi.paramPath name =
        none) ∧
      (mi.node.bind (·.handler) = route.handler ↔
        (route.handler = none → ∀ other ∈ (register re calls).2, other.method = route.method →
          other.path = route.path → other.handler = none)) := by
  have held := register_holds re calls
  obtain ⟨admissible, root, tree, there⟩ := register_admissible inside
  obtain ⟨c, there⟩ := isSome_iff_exists.mp there
  have begins := admissible.shaped.begins
  have walked : (register re calls).1.walk re route.method (segmentsOf route.path) =
      some (patternOf route.path, c) := by
    rw [admissible.segmentsOf_eq, walk, tree, bind_some]
    exact Node.walk_static (held.formed_of_lookup tree) static there
  have handlers := held.handlers route.method (patternOf route.path)
  simp only [rootOf, tree, getD_some, Node.handlerAt_of_get there] at handlers
  refine ⟨{ node := some c
            matchedPath := pathOf (patternOf route.path)
            paramPath := bindParams (patternOf route.path) (segmentsOf route.path) fun _ => none },
    ?_, rfl, pathOf_patternOf begins, fun name => ?_, ?_⟩
  · rw [findRoute, held.findInTree_eq, walked]
    rfl
  · rw [bindParams_static static]
  rw [bind_some]
  constructor
  · intro same nil other there method_ path
    by_contra some_
    obtain ⟨h, some_⟩ := ne_none_iff_exists'.mp some_
    have set := (handlers h).mpr ⟨other, there, method_, by rw [path], some_⟩
    rw [same, nil] at set
    contradiction
  · intro free
    cases own : route.handler with
    | some h => exact (handlers h).mpr ⟨route, inside, rfl, rfl, own⟩
    | none =>
      by_contra some_
      obtain ⟨h, some_⟩ := ne_none_iff_exists'.mp some_
      obtain ⟨other, there, method_, pattern, set⟩ := (handlers h).mp some_
      have path : other.path = route.path := by
        rw [← pathOf_patternOf begins, ← pathOf_patternOf (held.paths other there), pattern]
      rw [free own other there method_ path] at set
      contradiction

/-- The path `/user/home` finds its own handler beside `/user/:id`. -/
theorem static_iff_home :
    ∃ mi, (register ⟨fun _ => none, fun _ _ => false⟩
      [⟨utf8 "GET", utf8 "/user/:id", some 2⟩, ⟨utf8 "GET", utf8 "/user/home", some 1⟩]).1.findRoute
        ⟨fun _ => none, fun _ _ => false⟩ ∅ (utf8 "GET") (utf8 "/user/home") = some mi ∧
      mi.node.bind (·.handler) = some 1 := by
  rcases static_iff ⟨fun _ => none, fun _ _ => false⟩
    [⟨utf8 "GET", utf8 "/user/:id", some 2⟩, ⟨utf8 "GET", utf8 "/user/home", some 1⟩]
    ⟨utf8 "GET", utf8 "/user/home", some 1⟩ (by decide) (by decide) ∅ with
    ⟨mi, found, -, -, -, handler⟩
  exact ⟨mi, found, handler.mpr (by simp)⟩

/-- A route with a nil handler is found with the handler of a later one. -/
theorem nil_handler_replaced :
    (⟨utf8 "GET", utf8 "/a", none⟩ : Route Nat) ∈ (register ⟨fun _ => none, fun _ _ => false⟩
      [⟨utf8 "GET", utf8 "/a", some 1⟩, ⟨utf8 "GET", utf8 "/a", none⟩]).2 ∧
    ((register ⟨fun _ => none, fun _ _ => false⟩
      [⟨utf8 "GET", utf8 "/a", some 1⟩, ⟨utf8 "GET", utf8 "/a", none⟩]).1.findRoute
        ⟨fun _ => none, fun _ _ => false⟩ ∅ (utf8 "GET") (utf8 "/a")).bind
          (fun mi => mi.node.bind (·.handler)) = some 1 := by
  decide

end Soil.Web
