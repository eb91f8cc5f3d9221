import Soil.Web.Search

/-!
# Which request is answered how

The search takes the first child that admits a segment and never turns back, and a
node that was only made on the way to another counts as found.  Both show in what
`findRoute` and `serve` answer.
-/

namespace Soil.Web

open List

variable {H : Type} {re : Regexp}

/-! ## Routes in sight -/

section

variable (re : Regexp) (routes : List (Route H)) (path method : Text)

def Beginning (address : List Text) : Prop :=
  ∃ route ∈ routes, route.method = method ∧ address <+: patternOf route.path

def Registered (address : List Text) : Prop :=
  ∃ route ∈ routes, route.method = method ∧ patternOf route.path = address ∧ route.handler.isSome

def InSight (address : List Text) : Prop :=
  ¬ Diverted (Beginning routes method) address (segmentsOf path)

def HasRoute : Prop :=
  ∃ address, Registered routes method address ∧ Matches re True address (segmentsOf path)

def HasRouteInSight : Prop :=
  ∃ address, Registered routes method address ∧ Matches re True address (segmentsOf path) ∧
    InSight routes path method address

def HasNodeInSight : Prop :=
  ∃ address, Beginning routes method address ∧
    Matches re (Registered routes method address) address (segmentsOf path) ∧
    InSight routes path method address

end

variable {address : List Text}

theorem Registered.beginning {routes : List (Route H)} {method : Text}
    (registered : Registered routes method address) : Beginning routes method address := by
  obtain ⟨route, inside, method_, rfl, -⟩ := registered
  exact ⟨route, inside, method_, prefix_rfl⟩

theorem HasRouteInSight.hasRoute {routes : List (Route H)} {path method : Text}
    (sight : HasRouteInSight re routes path method) : HasRoute re routes path method := by
  obtain ⟨address, registered, matched, -⟩ := sight
  exact ⟨address, registered, matched⟩

/-! ## The walk and the routes -/

section

variable {calls : List (Route H)} {path method : Text}

section

variable (returned : (register re calls).2 = calls)
include returned

theorem begins_eq_beginning : (register re calls).1.Begins method = Beginning calls method := by
  funext address
  exact propext (register_begins returned method address)

theorem handlerAt_isSome : (((register re calls).1.rootOf method).handlerAt address).isSome ↔
      Registered calls method address := by
  have held := register_holds re calls
  rw [returned] at held
  rw [Option.isSome_iff_exists]
  constructor
  · rintro ⟨h, found⟩
    obtain ⟨route, inside, method_, pattern, handler⟩ := (held.handlers method address h).mp found
    exact ⟨route, inside, method_, pattern, by simp [handler]⟩
  · rintro ⟨route, inside, method_, pattern, handler⟩
    obtain ⟨h, handler⟩ := Option.isSome_iff_exists.mp handler
    exact ⟨h, (held.handlers method address h).mpr ⟨route, inside, method_, pattern, handler⟩⟩

theorem walk_inSight {c : Node H}
    (walked : (register re calls).1.walk re method (segmentsOf path) = some (address, c)) :
    (c.handler.isSome ↔ Registered calls method address) ∧ Beginning calls method address ∧
      Matches re c.handler.isSome address (segmentsOf path) ∧
      InSight calls path method address := by
  obtain ⟨handler, begins, matched, straight⟩ := (register_holds re calls).walk_eq_some walked
  rw [begins_eq_beginning returned] at begins straight
  rw [← handlerAt_isSome returned, handler]
  exact ⟨Iff.rfl, begins, matched, straight⟩

theorem exists_walk_of_inSight (begins : Beginning calls method address)
    (matched : Matches re (Registered calls method address) address (segmentsOf path))
    (sight : InSight calls path method address) :
    ∃ address' c, (register re calls).1.walk re method (segmentsOf path) = some (address', c) ∧
      (Registered calls method address → c.handler.isSome) := by
  rw [InSight, ← begins_eq_beginning returned] at sight
  rw [← begins_eq_beginning returned] at begins
  obtain ⟨root, tree, there⟩ := begins
  obtain ⟨c, there⟩ := Option.isSome_iff_exists.mp there
  have handler : c.handler.isSome ↔ Registered calls method address := by
    rw [← handlerAt_isSome returned]
    simp [Router.rootOf, tree, Node.handlerAt, there]
  rw [Router.begins_of_lookup tree] at sight
  rcases Node.exists_walk ((register_holds re calls).formed_of_lookup tree) there matched
    handler.mpr sight with ⟨found, walked, kept⟩
  refine ⟨found.1, found.2, ?_, fun registered => kept (handler.mpr registered)⟩
  rw [Router.walk, tree]
  exact walked

theorem walk_isSome_iff : ((register re calls).1.walk re method (segmentsOf path)).isSome ↔
      HasNodeInSight re calls path method := by
  constructor
  · intro found
    obtain ⟨⟨address, c⟩, walked⟩ := Option.isSome_iff_exists.mp found
    obtain ⟨handler, begins, matched, sight⟩ := walk_inSight returned walked
    exact ⟨address, begins, matched.mono handler.mp, sight⟩
  · rintro ⟨address, begins, matched, sight⟩
    obtain ⟨address', c, walked, -⟩ := exists_walk_of_inSight returned begins matched sight
    simp [walked]

theorem walk_handler_iff :
    (∃ address c, (register re calls).1.walk re method (segmentsOf path) = some (address, c) ∧
      c.handler.isSome) ↔ HasRouteInSight re calls path method := by
  constructor
  · rintro ⟨address, c, walked, handler⟩
    obtain ⟨registered, -, matched, sight⟩ := walk_inSight returned walked
    exact ⟨address, registered.mp handler, matched.mono fun _ => trivial, sight⟩
  · rintro ⟨address, registered, matched, sight⟩
    obtain ⟨address', c, walked, kept⟩ :=
      exists_walk_of_inSight returned registered.beginning (matched.mono fun _ => registered) sight
    exact ⟨address', c, walked, kept registered⟩

end

end

/-! ## The answers -/

namespace Router

variable {r : Router H} {routes : List (Route H)} {order : Trees H} {method path : Text}

inductive Answers (re : Regexp) (r : Router H) (method path : Text) :
    Option (MatchInfo H) → Answer H → Prop
  | handled {mi : MatchInfo H} {address : List Text} {c : Node H} {h : H}
      (walked : r.walk re method (segmentsOf path) = some (address, c)) (handler : c.handler = some
        h)
      (allowed : mi.methodNotAllowed = false) (node : mi.node = some c) :
      Answers re r method path (some mi) (.handled h mi.paramPath mi.matchedPath)
  -- the walk has ended in a node that no route has a handler for
  | blank {mi : MatchInfo H} {address : List Text} {c : Node H}
      (walked : r.walk re method (segmentsOf path) = some (address, c)) (handler : c.handler = none)
      (allowed : mi.methodNotAllowed = false) (node : mi.node = some c) :
      Answers re r method path (some mi) (.reply 404 (utf8 "404 page not found") none)
  | notAllowed {mi : MatchInfo H} (nowhere : r.walk re method (segmentsOf path) = none)
      (refused : mi.methodNotAllowed = true) (some_ : mi.allowedMethods ≠ [])
      (once : mi.allowedMethods.Nodup)
      (others : ∀ m, m ∈ mi.allowedMethods ↔
        m ≠ method ∧ (r.walk re m (segmentsOf path)).isSome) :
      Answers re r method path (some mi)
        (.reply 405 (utf8 "405 method not allowed") (some (joinComma mi.allowedMethods)))
  | notFound (nowhere : ∀ m, r.walk re m (segmentsOf path) = none) :
      Answers re r method path none (.reply 404 (utf8 "404 page not found") none)

theorem Holds.mem_allowed (held : r.Holds routes) (same : order.entries.Perm r.trees.entries)
    {m : Text} : m ∈ (order.entries.filter fun tree =>
        tree.1 ≠ method ∧ (findInTree re tree.2 path).isSome).map Sigma.fst ↔
      m ≠ method ∧ (r.walk re m (segmentsOf path)).isSome := by
  have searched : (r.walk re m (segmentsOf path)).isSome =
      ((r.trees.lookup m).bind (findInTree re · path)).isSome := by
    simp [held.findInTree_eq]
  rw [searched, mem_map]
  constructor
  · rintro ⟨⟨m, tree⟩, inside, rfl⟩
    obtain ⟨inside, other⟩ := mem_filter.mp inside
    have found : r.trees.lookup m = some tree :=
      AList.mem_lookup_iff.mpr (same.mem_iff.mp inside)
    simpa [found] using other
  · rintro ⟨other, found⟩
    cases tree : r.trees.lookup m with
    | none => simp [tree] at found
    | some root =>
      have inside : (⟨m, root⟩ : Sigma fun _ : Text => Node H) ∈ order.entries :=
        same.mem_iff.mpr (AList.mem_lookup_iff.mp tree)
      exact ⟨⟨m, root⟩, mem_filter.mpr ⟨inside, by simpa [tree, other] using found⟩, rfl⟩

theorem Holds.answers (held : r.Holds routes) (same : order.entries.Perm r.trees.entries) :
    Answers re r method path (r.findRoute re order method path) (serve re r order method path) := by
  rw [serve, findRoute, held.findInTree_eq]
  cases walked : r.walk re method (segmentsOf path) with
  | some found =>
    cases handler : found.2.handler with
    | some =>
      simp only [Option.map_some, Option.bind_some, handler]
      exact .handled walked handler rfl rfl
    | none =>
      simp only [Option.map_some, Option.bind_some, handler, Bool.false_eq_true, if_false]
      exact .blank walked handler rfl rfl
  | none =>
    by_cases none_ : (order.entries.filter fun tree =>
        tree.1 ≠ method ∧ (findInTree re tree.2 path).isSome).map Sigma.fst = []
    · simp only [none_, ne_eq, not_true_eq_false, if_false]
      refine .notFound fun m => ?_
      by_cases own : m = method
      · rw [own, walked]
      · by_contra found
        have inside := (held.mem_allowed same).mpr
          ⟨own, Option.isSome_iff_ne_none.mpr found⟩
        rw [none_] at inside
        contradiction
    · simp only [none_, ne_eq, not_false_eq_true, if_true]
      refine .notAllowed walked rfl none_ ?_ fun m => held.mem_allowed same
      exact (order.keys_nodup).sublist (filter_sublist.map _)

end Router

theorem hit_iff {calls : List (Route H)} (returned : (register re calls).2 = calls)
    (order : Trees H) (method path : Text) :
    (∃ mi h, (register re calls).1.Hit re order method path mi h) ↔
      HasRouteInSight re calls path method := by
  have held := register_holds re calls
  rw [← walk_handler_iff returned]
  constructor
  · rintro ⟨mi, h, hit⟩
    obtain ⟨address, c, walked, handler, -⟩ := held.hit_walk hit
    exact ⟨address, c, walked, by simp [handler]⟩
  rintro ⟨address, c, walked, handler⟩
  obtain ⟨h, handler⟩ := Option.isSome_iff_exists.mp handler
  refine ⟨{ node := some c
            matchedPath := pathOf address
            paramPath := bindParams address (segmentsOf path) fun _ => none }, h, ?_, rfl,
              handler⟩
  rw [Router.findRoute, held.findInTree_eq, walked]
  rfl

/-- When all calls returned: a request that a registered route matches finds a handler if
and only if one of the matching routes with a handler is in sight. -/
theorem router_complete_iff (re : Regexp) (calls : List (Route H))
    (returned : (register re calls).2 = calls) (order : Trees H) (method path : Text) :
    ((∃ route ∈ calls, route.method = method ∧
        Matches re route.handler.isSome (patternOf route.path) (segmentsOf path)) →
      ∃ mi h, (register re calls).1.Hit re order method path mi h) ↔
    ((∃ route ∈ calls, route.method = method ∧
        Matches re route.handler.isSome (patternOf route.path) (segmentsOf path)) →
      HasRouteInSight re calls path method) := by
  rw [hit_iff returned]

theorem user_matches (re : Regexp) (handled : Prop) :
    Matches re handled (patternOf (utf8 "/user/:id")) (segmentsOf (utf8 "/user/7")) := by
  have segments : segmentsOf (utf8 "/user/7") = [utf8 "user", utf8 "7"] := by decide
  have pattern : patternOf (utf8 "/user/:id") = [utf8 "user", utf8 ":id"] := by decide
  have static : kind (utf8 "user") = .static := by decide
  have param : kind (utf8 ":id") = .param := by decide
  rw [segments, pattern]
  exact .cons (by simp [Admits, static]) (.cons (by simp [Admits, param]) .nil)

theorem user_inSight : HasRouteInSight ⟨fun _ => none, fun _ _ => false⟩
      [⟨utf8 "GET", utf8 "/user/home", some 2⟩, ⟨utf8 "GET", utf8 "/user/:id", some 1⟩]
      (utf8 "/user/7") (utf8 "GET") := by
  refine ⟨patternOf (utf8 "/user/:id"), by unfold Registered; decide, user_matches _ _, ?_⟩
  have segments : segmentsOf (utf8 "/user/7") = [utf8 "user", utf8 "7"] := by decide
  have pattern : patternOf (utf8 "/user/:id") = [utf8 "user", utf8 ":id"] := by decide
  rw [InSight, segments, pattern, diverted_cons, diverted_cons]
  rintro (⟨other, -⟩ | ⟨-, -, begun⟩ | later)
  · exact other rfl
  · revert begun
    unfold Beginning
    decide
  · exact not_diverted_nil later

theorem router_complete_iff_user :
    ∃ mi h, (register ⟨fun _ => none, fun _ _ => false⟩
      [⟨utf8 "GET", utf8 "/user/home", some 2⟩, ⟨utf8 "GET", utf8 "/user/:id", some 1⟩]).1.Hit
        ⟨fun _ => none, fun _ _ => false⟩ ∅ (utf8 "GET") (utf8 "/user/7") mi h :=
  (router_complete_iff _ _ (by decide) ∅ _ _).mpr (fun _ => user_inSight)
    ⟨⟨utf8 "GET", utf8 "/user/:id", some 1⟩, by simp, rfl, user_matches _ _⟩

/-- `/a/c` matches `/:x/c`, but the search has gone the way of `/a/b` and finds nothing. -/
theorem router_incomplete :
    (register ⟨fun _ => none, fun _ _ => false⟩
      [⟨utf8 "GET", utf8 "/:x/c", some 2⟩, ⟨utf8 "GET", utf8 "/a/b", some 1⟩]).2 =
        [⟨utf8 "GET", utf8 "/:x/c", some 2⟩, ⟨utf8 "GET", utf8 "/a/b", some 1⟩] ∧
    Matches ⟨fun _ => none, fun _ _ => false⟩ True (patternOf (utf8 "/:x/c"))
      (segmentsOf (utf8 "/a/c")) ∧
    ((register ⟨fun _ => none, fun _ _ => false⟩
      [⟨utf8 "GET", utf8 "/:x/c", some 2⟩, ⟨utf8 "GET", utf8 "/a/b", some 1⟩]).1.findRoute
        ⟨fun _ => none, fun _ _ => false⟩ ∅ (utf8 "GET") (utf8 "/a/c")).isNone := by
  refine ⟨by decide, ?_, by decide⟩
  have segments : segmentsOf (utf8 "/a/c") = [utf8 "a", utf8 "c"] := by decide
  have pattern : patternOf (utf8 "/:x/c") = [utf8 ":x", utf8 "c"] := by decide
  rw [segments, pattern]
  have param : kind (utf8 ":x") = .param := by decide
  have static : kind (utf8 "c") = .static := by decide
  exact .cons (by simp [Admits, param]) (.cons (by simp [Admits, static]) .nil)

/-! ## Classification -/

/-- The answers to a request are right: 405 with the other methods that have a route for
the path when its own method has none, 404 when no method has one, and never a node
without a handler for a hit. -/
structure Classified (re : Regexp) (routes : List (Route H)) (r : Router H) (order : Trees H)
    (method path : Text) : Prop where
  notAllowed : (∃ body allow, serve re r order method path = .reply 405 body allow) ↔
    ¬ HasRoute re routes path method ∧ ∃ m, m ≠ method ∧ HasRoute re routes path m
  allow : ∀ body allow, serve re r order method path = .reply 405 body allow →
    ∃ mi, r.findRoute re order method path = some mi ∧
      allow = some (joinComma mi.allowedMethods) ∧ mi.allowedMethods.Nodup ∧
      ∀ m, m ∈ mi.allowedMethods ↔ m ≠ method ∧ HasRoute re routes path m
  notFound : (∃ body allow, serve re r order method path = .reply 404 body allow) ↔
    ∀ m, ¬ HasRoute re routes path m
  hit : ∀ mi, r.findRoute re order method path = some mi → mi.methodNotAllowed = false →
    (mi.node.bind (·.handler)).isSome

section

variable {calls : List (Route H)} {order : Trees H} {method path : Text}

theorem HasRouteInSight.hasNodeInSight (sight : HasRouteInSight re calls path method) :
    HasNodeInSight re calls path method := by
  obtain ⟨address, registered, matched, sight⟩ := sight
  exact ⟨address, registered.beginning, matched.mono fun _ => registered, sight⟩

theorem not_hasNodeInSight (returned : (register re calls).2 = calls) {m : Text}
    (nowhere : (register re calls).1.walk re m (segmentsOf path) = none) :
    ¬ HasNodeInSight re calls path m := by
  rw [← walk_isSome_iff returned, nowhere]
  simp

variable {r : Router H} {mi : MatchInfo H}

theorem classified_of_handled {h : H} (found : r.findRoute re order method path = some mi)
    (answered : serve re r order method path = .handled h mi.paramPath mi.matchedPath)
    (node : (mi.node.bind (·.handler)).isSome) (route : HasRoute re calls path method) :
    Classified re calls r order method path where
  notAllowed := by simp [answered, route]
  allow := by simp [answered]
  notFound := by
    rw [answered]
    refine iff_of_false (by simp) fun none_ => none_ method route
  hit other found' _ := by
    rw [found] at found'
    obtain rfl := Option.some.inj found'
    exact node

theorem classified_notAllowed_iff (found : r.findRoute re order method path = some mi)
    (answered : serve re r order method path = .reply 405 (utf8 "405 method not allowed")
      (some (joinComma mi.allowedMethods)))
    (refused : mi.methodNotAllowed = true) (some_ : mi.allowedMethods ≠ [])
    (once : mi.allowedMethods.Nodup) : Classified re calls r order method path ↔
      ¬ HasRoute re calls path method ∧
        ∀ m, m ∈ mi.allowedMethods ↔ m ≠ method ∧ HasRoute re calls path m := by
  constructor
  · intro classified
    obtain ⟨own, -⟩ := classified.notAllowed.mp ⟨_, _, answered⟩
    obtain ⟨other, found', -, -, listed⟩ := classified.allow _ _ answered
    rw [found] at found'
    obtain rfl := Option.some.inj found'
    exact ⟨own, listed⟩
  · rintro ⟨own, listed⟩
    obtain ⟨m, inside⟩ := exists_mem_of_ne_nil _ some_
    have other := (listed m).mp inside
    refine ⟨?_, fun body allow reply => ?_, ?_, fun mi' found' allowed => ?_⟩
    · exact iff_of_true ⟨_, _, answered⟩ ⟨own, m, other⟩
    · rw [answered] at reply
      injection reply with _ _ listed_
      exact ⟨mi, found, listed_.symm, once, listed⟩
    · rw [answered]
      exact iff_of_false (by simp) fun none_ => none_ m other.2
    · rw [found] at found'
      obtain rfl := Option.some.inj found'
      simp [refused] at allowed

theorem classified_notFound_iff (found : r.findRoute re order method path = none)
    (answered : serve re r order method path = .reply 404 (utf8 "404 page not found") none) :
    Classified re calls r order method path ↔ ∀ m, ¬ HasRoute re calls path m := by
  constructor
  · intro classified
    exact classified.notFound.mp ⟨_, _, answered⟩
  · intro none_
    refine ⟨?_, by simp [answered], iff_of_true ⟨_, _, answered⟩ none_, by simp [found]⟩
    rw [answered]
    exact iff_of_false (by simp) fun other => none_ _ other.2.choose_spec.2

end

/-- When all calls returned, whatever the order of the trees: the answers are right if and
only if the method has a route in sight, or it has no route and no node in sight and for
every other method a node is in sight exactly when it has a route. -/
theorem serve_classifies_iff (re : Regexp) (calls : List (Route H))
    (returned : (register re calls).2 = calls) (order : Trees H)
    (same : order.entries.Perm (register re calls).1.trees.entries) (method path : Text) :
    Classified re calls (register re calls).1 order method path ↔
      HasRouteInSight re calls path method ∨
        ¬ HasNodeInSight re calls path method ∧ ¬ HasRoute re calls path method ∧
          ∀ m, m ≠ method → (HasNodeInSight re calls path m ↔ HasRoute re calls path m) := by
  have answers : Router.Answers re (register re calls).1 method path _ _ :=
    (register_holds re calls).answers same
  generalize found : (register re calls).1.findRoute re order method path = result at answers
  generalize answered : serve re (register re calls).1 order method path = answer at answers
  cases answers with
  | @handled mi address c h walked handler allowed node =>
    have sight := (walk_handler_iff returned).mp ⟨address, c, walked, by simp [handler]⟩
    exact iff_of_true
      (classified_of_handled found answered (by simp [node, handler]) sight.hasRoute) (.inl sight)
  | @blank mi address c walked handler allowed node =>
    refine iff_of_false (fun classified => ?_) (fun cases_ => ?_)
    · have hit := classified.hit mi found allowed
      simp [node, handler] at hit
    rcases cases_ with sight | ⟨hidden, -⟩
    · obtain ⟨address', c', walked', handler'⟩ := (walk_handler_iff returned).mpr sight
      rw [walked] at walked'
      obtain rfl := (Prod.mk.inj (Option.some.inj walked')).2
      simp [handler] at handler'
    · exact hidden ((walk_isSome_iff returned).mp (by simp [walked]))
  | @notAllowed mi nowhere refused some_ once others =>
    have hidden := not_hasNodeInSight returned nowhere
    rw [classified_notAllowed_iff found answered refused some_ once]
    simp only [others, walk_isSome_iff returned]
    constructor
    · intro right
      exact .inr ⟨hidden, right.1, fun m other => by simpa [other] using right.2 m⟩
    · rintro (sight | ⟨-, own, right⟩)
      · exact absurd sight.hasNodeInSight hidden
      · exact ⟨own, fun m => and_congr_right fun other => right m other⟩
  | notFound nowhere =>
    have hidden m := not_hasNodeInSight returned (nowhere m)
    rw [classified_notFound_iff found answered]
    constructor
    · intro none_
      exact .inr ⟨hidden method, none_ method, fun m _ => iff_of_false (hidden m) (none_ m)⟩
    rintro (sight | ⟨-, own, right⟩)
    · exact absurd sight.hasNodeInSight (hidden method)
    · intro m route
      by_cases mine : m = method
      · exact own (mine ▸ route)
      · exact hidden m ((right m mine).mpr route)

theorem serve_classifies_iff_user :
    Classified ⟨fun _ => none, fun _ _ => false⟩
      [⟨utf8 "GET", utf8 "/user/home", some 2⟩, ⟨utf8 "GET", utf8 "/user/:id", some 1⟩]
      (register ⟨fun _ => none, fun _ _ => false⟩
        [⟨utf8 "GET", utf8 "/user/home", some 2⟩, ⟨utf8 "GET", utf8 "/user/:id", some 1⟩]).1
      (register ⟨fun _ => none, fun _ _ => false⟩
        [⟨utf8 "GET", utf8 "/user/home", some 2⟩, ⟨utf8 "GET", utf8 "/user/:id", some 1⟩]).1.trees
      (utf8 "GET") (utf8 "/user/7") :=
  (serve_classifies_iff _ _ (by decide) _ (.refl _) _ _).mpr (.inl user_inSight)

/-- With `GET /a/b` and `POST /a` the request `GET /a` ends in the node between and is
answered 404, where `POST` is allowed. -/
theorem serve_misclassifies :
    (register ⟨fun _ => none, fun _ _ => false⟩
      [⟨utf8 "POST", utf8 "/a", some 2⟩, ⟨utf8 "GET", utf8 "/a/b", some 1⟩]).2 =
        [⟨utf8 "POST", utf8 "/a", some 2⟩, ⟨utf8 "GET", utf8 "/a/b", some 1⟩] ∧
    ¬ Classified ⟨fun _ => none, fun _ _ => false⟩
      [⟨utf8 "POST", utf8 "/a", some 2⟩, ⟨utf8 "GET", utf8 "/a/b", some 1⟩]
      (register ⟨fun _ => none, fun _ _ => false⟩
        [⟨utf8 "POST", utf8 "/a", some 2⟩, ⟨utf8 "GET", utf8 "/a/b", some 1⟩]).1
      (register ⟨fun _ => none, fun _ _ => false⟩
        [⟨utf8 "POST", utf8 "/a", some 2⟩, ⟨utf8 "GET", utf8 "/a/b", some 1⟩]).1.trees
      (utf8 "GET") (utf8 "/a") := by
  refine ⟨by decide, fun classified => ?_⟩
  have hit := classified.hit _ (Option.some_get (by decide)).symm (by decide)
  exact absurd hit (by decide)

end Soil.Web
