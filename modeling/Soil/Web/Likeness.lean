import Soil.Web.Acceptance

/-!
# Routers that cannot be told apart

A tree may have nodes that no search comes to, and a static node without a handler is no
obstacle to a registration.  `Node.Extends n m` says that `m` is `n` with such nodes only.
-/

namespace Soil.Web

open List Option Node

variable {H : Type} {re : Regexp}

namespace Node

/-! ## Nodes on the way of a search -/

inductive Arrives (re : Regexp) (root : Node H) : List Text → List Text → Node H → Prop
  | root : Arrives re root [] [] root
  | down {values way : List Text} {value : Text} {c d : Node H}
      (before : Arrives re root values way c) (found : c.childOf re value = some d)
      (goes : ¬ (d.typ = .any ∧ d.handler.isSome)) :
      Arrives re root (values ++ [value]) (way ++ [d.path]) d

variable {way : List Text} {root c : Node H} {d : Node H} {s : Text}

theorem get_concat (there : root.get way = some c) (s : Text) :
    root.get (way ++ [s]) = c.child s := by
  rw [get_append, there, bind_some, get]
  cases c.child s <;> rfl

variable {values : List Text}

theorem Arrives.get (arrives : root.Arrives re values way c)
    (formed : root.WellFormed) : root.get way = some c := by
  induction arrives with
  | root => rfl
  | down before found goes ih =>
    rw [get_concat ih]
    exact (childOf_eq_some (formed _ _ ih) found).1

variable {front : List Text}

theorem Arrives.before {e : Node H} (arrives : root.Arrives re values way e)
    (inside : front ++ [s] <+: way) :
    ∃ values' value c d, values' ++ [value] <+: values ∧ root.Arrives re values' front c ∧
      c.childOf re value = some d ∧ d.path = s := by
  induction arrives with
  | root => simp at inside
  | @down values way value c d before found goes ih =>
    rcases prefix_concat_iff.mp inside with whole | earlier
    · obtain ⟨rfl, last⟩ := append_inj' whole rfl
      exact ⟨values, value, c, d, prefix_rfl, before, found, by simpa using last.symm⟩
    · obtain ⟨values', value', c', d', begins, there⟩ := ih earlier
      exact ⟨values', value', c', d', begins.trans (prefix_append _ _), there⟩

variable {value : Text}

theorem childOf_like {c' : Node H} (ok : c.Local) (ok' : d.Local)
    (found : c.childOf re value = some c') (there : (d.child c'.path).isSome)
    (alone : (d.child value).isSome → (c.child value).isSome) :
    ∃ d', d.childOf re value = some d' ∧ d.child c'.path = some d' := by
  obtain ⟨-, admits, first⟩ := childOf_eq_some ok found
  obtain ⟨d', there⟩ := isSome_iff_exists.mp there
  refine ⟨d', childOf_of_admits ok' there admits fun turned => ?_, there⟩
  obtain ⟨other, static, begun⟩ := turned
  have own := alone (by cases gone : d.child value <;> simp [gone, get] at begun ⊢)
  simp [first other static] at own

theorem handlerAt_of_get {n : Node H} (there : n.get way = some c) :
    n.handlerAt way = c.handler := by
  rw [handlerAt, there]
  rfl

theorem get_isSome_of_start {n : Node H} (inside : front <+: way)
    (there : (n.get way).isSome) : (n.get front).isSome := by
  obtain ⟨rest, rfl⟩ := inside
  rw [get_append] at there
  cases found : n.get front with
  | none => simp [found] at there
  | some => rfl

theorem Arrives.transfer {n m : Node H} (formed : n.WellFormed)
    (formed' : m.WellFormed) (arrives : n.Arrives re values way c) (there : (m.get way).isSome)
    (nodes : ∀ front s value, front ++ [s] <+: way → (m.get (front ++ [value])).isSome →
      (n.get (front ++ [value])).isSome)
    (handlers : ∀ front, (m.handlerAt front).isSome → (n.handlerAt front).isSome) :
    ∃ d, m.Arrives re values way d := by
  induction arrives with
  | root => exact ⟨m, .root⟩
  | @down values way value c c' before found goes ih =>
    have shorter : way <+: way ++ [c'.path] := prefix_append _ _
    rcases ih (get_isSome_of_start shorter there)
      (fun front s v inside => nodes front s v (inside.trans shorter)) with ⟨d, before'⟩
    have at_ := before.get formed
    have at' := before'.get formed'
    rw [get_concat at'] at there
    have alone := nodes way c'.path value prefix_rfl
    rw [get_concat at_, get_concat at'] at alone
    obtain ⟨d', found', child'⟩ := childOf_like (formed _ _ at_) (formed' _ _ at') found there alone
    have child_ := (childOf_eq_some (formed _ _ at_) found).1
    have tag := (formed' _ _ at').tagged child'
    have goes' : ¬ (d'.typ = .any ∧ d'.handler.isSome) := by
      intro stops
      refine goes ⟨((formed _ _ at_).tagged child_).typ.trans (tag.typ.symm.trans stops.1), ?_⟩
      have kept := handlers (way ++ [c'.path])
      rw [handlerAt_of_get ((get_concat at' _).trans child'),
        handlerAt_of_get ((get_concat at_ _).trans child_)] at kept
      exact kept stops.2
    have down := Arrives.down before' found' goes'
    rw [tag.path] at down
    exact ⟨d', down⟩

theorem Arrives.walk (arrives : root.Arrives re values way c) (rest : List Text) :
    root.walk re (values ++ rest) = (c.walk re rest).map fun found => (way ++ found.1, found.2) :=
      by
  induction arrives generalizing rest with
  | root => simp
  | @down values way value c d before found goes ih =>
    rw [append_assoc, ih, singleton_append, Node.walk, found]
    simp [goes, Function.comp_def]

/-! ## Trees that grow -/

structure Grows (n m : Node H) : Prop where
  nodes : ∀ way, (n.get way).isSome → (m.get way).isSome
  handlers : ∀ way, (n.handlerAt way).isSome → (m.handlerAt way).isSome

theorem Grows.arrives {n m : Node H} (grows : n.Grows m)
    (formed : n.WellFormed) (formed' : m.WellFormed) (arrives : m.Arrives re values way c)
    (there : (n.get way).isSome) : ∃ c', n.Arrives re values way c' :=
  arrives.transfer formed' formed there (fun _ _ _ _ => grows.nodes _) grows.handlers

/-! ## Trees with nodes that no search comes to -/

def Searched (values : List Text) : Prop := ∃ path, segmentsOf path = values

structure Extends (re : Regexp) (n m : Node H) : Prop where
  nodes : ∀ way, (n.get way).isSome → (m.get way).isSome
  handlers : ∀ way, m.handlerAt way = n.handlerAt way
  special : ∀ way s, (m.get (way ++ [s])).isSome → kind s ≠ .static → (n.get (way ++ [s])).isSome
  hidden : ∀ values s rest way c, Searched (values ++ s :: rest) → n.Arrives re values way c →
    (m.get (way ++ [s])).isSome → (n.get (way ++ [s])).isSome

theorem Extends.refl (n : Node H) : n.Extends re n :=
  ⟨fun _ => id, fun _ => rfl, fun _ _ there _ => there, fun _ _ _ _ _ _ _ there => there⟩

def sight (found : List Text × Node H) : List Text × Option H := (found.1, found.2.handler)

section

variable {n m : Node H} {rest : List Text}

section

variable (extends_ : n.Extends re m) (formed : n.WellFormed) (formed' : m.WellFormed)
include extends_ formed formed'

theorem Extends.childOf
    (searched : Searched (values ++ value :: rest)) (arrives : n.Arrives re values way c)
    (there : m.get way = some d) : c.childOf re value = none ∧ d.childOf re value = none ∨
      ∃ c' d', c.childOf re value = some c' ∧ d.childOf re value = some d' ∧ d'.path = c'.path := by
  have at_ := arrives.get formed
  have below (s : Text) : (c.child s).isSome → (d.child s).isSome := by
    rw [← get_concat at_, ← get_concat there]
    exact extends_.nodes _
  have hidden : (d.child value).isSome → (c.child value).isSome := by
    rw [← get_concat at_, ← get_concat there]
    exact extends_.hidden values value rest way c searched arrives
  have special (s : Text) (sort : kind s ≠ .static) : (d.child s).isSome → (c.child s).isSome := by
    rw [← get_concat at_, ← get_concat there]
    exact fun more => extends_.special way s more sort
  cases found : c.childOf re value with
  | some c' =>
    have child_ := (childOf_eq_some (formed _ _ at_) found).1
    rcases childOf_like (formed _ _ at_) (formed' _ _ there) found
      (below c'.path (by simp [child_])) hidden with ⟨d', found', child'⟩
    exact .inr ⟨c', d', rfl, found', ((formed' _ _ there).tagged child').path⟩
  | none =>
    cases found' : d.childOf re value with
    | none => exact .inl ⟨rfl, rfl⟩
    | some d' =>
      obtain ⟨child', admits, -⟩ := childOf_eq_some (formed' _ _ there) found'
      have own : (c.child d'.path).isSome := by
        by_cases static : kind d'.path = .static
        · have same : d'.path = value := by simpa [Admits, static] using admits
          rw [same] at child' ⊢
          exact hidden (by simp [child'])
        · exact special d'.path static (by simp [child'])
      obtain ⟨c', found_, -⟩ :=
        childOf_like (formed' _ _ there) (formed _ _ at_) found' own (below value)
      rw [found] at found_
      contradiction

theorem Extends.walk_eq (searched : Searched (values ++ rest)) (arrives : n.Arrives re values way c)
    (there : m.get way = some d) : (d.walk re rest).map sight = (c.walk re rest).map sight := by
  have at_ := arrives.get formed
  induction rest generalizing values way c d with
  | nil =>
    have same := extends_.handlers way
    rw [handlerAt_of_get there, handlerAt_of_get at_] at same
    simp [walk, sight, same]
  | cons value rest ih =>
    rw [walk, walk]
    rcases extends_.childOf formed formed' searched arrives there with
      ⟨none_, none'⟩ | ⟨c', d', found, found', path⟩
    · rw [none_, none']
    have child_ := (childOf_eq_some (formed _ _ at_) found).1
    have child' := (childOf_eq_some (formed' _ _ there) found').1
    have below : n.get (way ++ [c'.path]) = some c' := (get_concat at_ _).trans child_
    have below' : m.get (way ++ [c'.path]) = some d' := by
      rw [← path]
      exact (get_concat there _).trans child'
    have typ : d'.typ = c'.typ := by
      rw [((formed' _ _ there).tagged child').typ, ((formed _ _ at_).tagged child_).typ, path]
    have handler : d'.handler = c'.handler := by
      have same := extends_.handlers (way ++ [c'.path])
      rwa [handlerAt_of_get below', handlerAt_of_get below] at same
    simp only [found, found', typ, handler]
    by_cases stops : c'.typ = .any ∧ c'.handler.isSome
    · simp [stops, sight, path, handler]
    have onwards : (d'.walk re rest).map sight = (c'.walk re rest).map sight :=
      ih (by simpa using searched) (.down arrives found stops) below' below
    have shifted (e : Node H) (found : Option (List Text × Node H)) :
        (found.map fun f => (e.path :: f.1, f.2)).map sight =
          (found.map sight).map fun f => (e.path :: f.1, f.2) := by
      cases found <;> rfl
    rw [if_neg stops, if_neg stops, shifted, shifted, onwards, path]

theorem Extends.passes_iff (segments : List Text) :
    m.Passes re segments ↔ n.Passes re segments := by
  refine forall_congr' fun k => forall_congr' fun s => imp_congr_right fun _ =>
    and_congr_right fun _ => and_congr_right fun _ => ?_
  constructor
  · intro fits c there
    have present : (n.get (segments.take k)).isSome := by simp [there]
    obtain ⟨d, there'⟩ := isSome_iff_exists.mp (extends_.nodes _ present)
    rw [fits_iff (formed _ _ there)]
    intro other below
    refine (fits_iff (formed' _ _ there')).mp (fits d there') other ?_
    rw [← get_concat there']
    exact extends_.nodes _ (by rwa [get_concat there])
  · intro fits d there'
    rw [fits_iff (formed' _ _ there')]
    intro other below special
    rw [← get_concat there'] at below
    obtain ⟨c, there, below⟩ := get_concat_isSome.mp (extends_.special _ _ below special)
    exact (fits_iff (formed _ _ there)).mp (fits c there) other below special

end

theorem exists_first_missing (missing : ¬ (n.get way).isSome) :
    ∃ front s, front ++ [s] <+: way ∧ (n.get front).isSome ∧ ¬ (n.get (front ++ [s])).isSome := by
  induction way using List.reverseRecOn with
  | nil => simp [get] at missing
  | append_singleton way s ih =>
    by_cases there : (n.get way).isSome
    · exact ⟨way, s, prefix_rfl, there, missing⟩
    · obtain ⟨front, t, inside, parts⟩ := ih there
      exact ⟨front, t, inside.trans (prefix_append _ _), parts⟩

theorem Extends.added {n' m' : Node H} {news : List Text → Prop} (extends_ : n.Extends re m)
    (formed : n.WellFormed) (formed' : n'.WellFormed)
    (nodes : ∀ way, (n'.get way).isSome ↔ (n.get way).isSome ∨ news way)
    (nodes' : ∀ way, (m'.get way).isSome ↔ (m.get way).isSome ∨ news way)
    (handlers : ∀ way, m'.handlerAt way = n'.handlerAt way)
    (kept : ∀ way, (n.handlerAt way).isSome → (n'.handlerAt way).isSome) : n'.Extends re m' := by
  have grows : n.Grows n' := ⟨fun way old => (nodes way).mpr (.inl old), kept⟩
  refine ⟨fun way there => ?_, handlers, fun way s there special => ?_,
    fun values s rest way c searched arrives there => ?_⟩
  · rcases (nodes way).mp there with old | new
    · exact (nodes' way).mpr (.inl (extends_.nodes way old))
    · exact (nodes' way).mpr (.inr new)
  · rcases (nodes' _).mp there with old | new
    · exact (nodes _).mpr (.inl (extends_.special way s old special))
    · exact (nodes _).mpr (.inr new)
  rcases (nodes' _).mp there with old | new
  · by_contra missing
    have notOld : ¬ (n.get (way ++ [s])).isSome := fun old => missing ((nodes _).mpr (.inl old))
    -- a search of `n` comes to the place where the way leaves the tree
    obtain ⟨front, t, inside, present, absent⟩ := exists_first_missing notOld
    have extra : (m.get (front ++ [t])).isSome := get_isSome_of_start inside old
    refine absent ?_
    rcases prefix_concat_iff.mp inside with whole | earlier
    · obtain ⟨rfl, last⟩ := append_inj' whole rfl
      obtain rfl : t = s := by simpa using last
      obtain ⟨c', arrives'⟩ := grows.arrives formed formed' arrives present
      exact extends_.hidden values t rest front c' searched arrives' extra
    · obtain ⟨values', value, e, d, begins, arrives', found, rfl⟩ := arrives.before earlier
      have static : kind d.path = .static := by
        by_contra special
        exact absent (extends_.special _ _ extra special)
      have admits := (childOf_eq_some (formed' _ _ (arrives'.get formed')) found).2.1
      obtain rfl : d.path = value := by simpa [Admits, static] using admits
      obtain ⟨others, rfl⟩ := begins
      obtain ⟨c', arrives''⟩ := grows.arrives formed formed' arrives' present
      exact extends_.hidden values' d.path (others ++ s :: rest) front c'
        (by simpa using searched) arrives'' extra
  · exact (nodes _).mpr (.inr new)

variable {segments : List Text} {handler : Option H}

theorem Extends.returns_iff {path conflict path' conflict' : Text} (extends_ : n.Extends re m)
    (formed : n.WellFormed) (formed' : m.WellFormed) (fresh : n.Fresh) (fresh' : m.Fresh) :
    (m.addSegments re path' conflict' handler segments).2 = none ↔
      (n.addSegments re path conflict handler segments).2 = none := by
  rw [addSegments_returns_iff formed fresh, addSegments_returns_iff formed' fresh',
    extends_.passes_iff formed formed', extends_.handlers]

theorem Extends.addSegments {path conflict path' conflict' : Text} (extends_ : n.Extends re m)
    (formed : n.WellFormed) (formed' : m.WellFormed) (fresh : n.Fresh) (fresh' : m.Fresh) :
    Extends re (n.addSegments re path conflict handler segments).1
      (m.addSegments re path' conflict' handler segments).1 := by
  have added : Adds handler segments n (n.addSegments re path conflict handler segments).1
      (n.addSegments re path conflict handler segments).2 := adds formed fresh
  have added' : Adds handler segments m (m.addSegments re path' conflict' handler segments).1
      (m.addSegments re path' conflict' handler segments).2 := adds formed' fresh'
  refine extends_.added formed (added.wellFormed formed) (addSegments_get_isSome formed fresh)
    (fun way => ?_) (fun way => ?_) (fun way some_ => ?_)
  · rw [addSegments_get_isSome formed' fresh', extends_.passes_iff formed formed']
  · have same : (m.addSegments re path' conflict' handler segments).2 = none ↔
        (n.addSegments re path conflict handler segments).2 = none :=
      extends_.returns_iff formed formed' fresh fresh'
    rw [added.handlerAt formed, added'.handlerAt formed', extends_.handlers]
    simp [same]
  · rw [added.handlerAt formed]
    split
    next here =>
      -- a call that returns has found no handler in its place
      rw [here.1] at added
      rw [here.2, added.free] at some_
      contradiction
    · exact some_

end

end Node

/-! ## Searches and calls -/

def SameFound : Option (MatchInfo H) → Option (MatchInfo H) → Prop
  | none, none => True
  | some a, some b =>
    a.node.bind (·.handler) = b.node.bind (·.handler) ∧ a.matchedPath = b.matchedPath ∧
      a.paramPath = b.paramPath ∧ a.methodNotAllowed = b.methodNotAllowed ∧
      ∀ m, m ∈ a.allowedMethods ↔ m ∈ b.allowedMethods
  | _, _ => False

namespace Router

def addRoutes (re : Regexp) (r : Router H) : List (Route H) → Router H × List Bool
  | [] => (r, [])
  | route :: later =>
    let (r, outcome) := r.addRoute re route.method route.path route.handler
    let (r, outcomes) := addRoutes re r later
    (r, outcome.isSome :: outcomes)

def Finds (re : Regexp) (r r' : Router H) : Prop :=
  ∀ (order order' : Trees H) (method path : Text), order.entries.Perm r.trees.entries →
    order'.entries.Perm r'.trees.entries →
    SameFound (r.findRoute re order method path) (r'.findRoute re order' method path)

def Alike (re : Regexp) (r r' : Router H) : Prop :=
  ∀ later : List (Route H), (r.addRoutes re later).2 = (r'.addRoutes re later).2 ∧
    Finds re (r.addRoutes re later).1 (r'.addRoutes re later).1

variable {r r' : Router H} {routes routes' : List (Route H)}

theorem Holds.finds (held : r.Holds routes) (held' : r'.Holds routes')
    (walks : ∀ method path, (r'.walk re method (segmentsOf path)).map sight =
      (r.walk re method (segmentsOf path)).map sight) : Finds re r r' := by
  intro order order' method path same same'
  have own := walks method path
  have others (m : Text) : (r'.walk re m (segmentsOf path)).isSome =
      (r.walk re m (segmentsOf path)).isSome := by
    have both := congrArg isSome (walks m path)
    simpa using both
  rw [findRoute, findRoute, held.findInTree_eq, held'.findInTree_eq]
  cases walked : r.walk re method (segmentsOf path) with
  | some =>
    rw [walked, map_some] at own
    obtain ⟨found', walked', sight⟩ := map_eq_some_iff.mp own
    obtain ⟨address, handler⟩ := Prod.mk.inj sight
    simp [walked', SameFound, address, handler]
  | none =>
    rw [walked, map_none, map_eq_none_iff] at own
    simp only [own, map_none]
    have allowed : ∀ m, m ∈ (order.entries.filter fun tree =>
          tree.1 ≠ method ∧ (findInTree re tree.2 path).isSome).map Sigma.fst ↔
        m ∈ (order'.entries.filter fun tree =>
          tree.1 ≠ method ∧ (findInTree re tree.2 path).isSome).map Sigma.fst := by
      intro m
      rw [held.mem_allowed same, held'.mem_allowed same', others]
    generalize (order.entries.filter _).map Sigma.fst = methods at allowed ⊢
    generalize (order'.entries.filter _).map Sigma.fst = methods' at allowed ⊢
    by_cases none_ : methods = []
    · have none' : methods' = [] := by
        rw [eq_nil_iff_forall_not_mem]
        intro m inside
        simp [none_] at allowed
        exact allowed m inside
      simp [none_, none', SameFound]
    · have some' : methods' ≠ [] := by
        intro none'
        obtain ⟨m, inside⟩ := exists_mem_of_ne_nil _ none_
        simpa [none'] using (allowed m).mp inside
      simp only [none_, some', ne_eq, not_false_eq_true, if_true, SameFound, true_and]
      exact allowed

structure Extends (re : Regexp) (r r' : Router H) : Prop where
  trees : ∀ method, (r'.trees.lookup method).isSome = (r.trees.lookup method).isSome
  roots : ∀ method, (r.rootOf method).Extends re (r'.rootOf method)

theorem Extends.walk_eq (extends_ : r.Extends re r') (held : r.Holds routes)
    (held' : r'.Holds routes') (method path : Text) :
    (r'.walk re method (segmentsOf path)).map sight =
      (r.walk re method (segmentsOf path)).map sight := by
  have trees := extends_.trees method
  have roots := extends_.roots method
  have formed := held.formed method
  have formed' := held'.formed method
  rw [walk, walk]
  cases tree : r.trees.lookup method with
  | none =>
    rw [tree, isSome_none, isSome_eq_false_iff, isNone_iff_eq_none] at trees
    rw [trees]
  | some root =>
    rw [tree, isSome_some, isSome_iff_exists] at trees
    obtain ⟨root', tree'⟩ := trees
    rw [rootOf, tree, getD_some] at roots formed
    rw [rootOf, tree', getD_some] at roots formed'
    rw [tree']
    exact roots.walk_eq formed formed' ⟨path, rfl⟩ .root rfl

theorem Holds.addRoute (held : r.Holds routes) (re : Regexp) (route : Route H) :
    ∃ routes', (r.addRoute re route.method route.path route.handler).1.Holds routes' := by
  cases outcome : (r.addRoute re route.method route.path route.handler).2 with
  | none => exact ⟨route :: routes, held.addRoute_returns (Prod.ext rfl outcome)⟩
  | some => exact ⟨routes, held.addRoute_panics (Prod.ext rfl outcome)⟩

theorem Extends.addRoute (extends_ : r.Extends re r') (held : r.Holds routes)
    (held' : r'.Holds routes') (route : Route H) :
    (r.addRoute re route.method route.path route.handler).1.Extends re
        (r'.addRoute re route.method route.path route.handler).1 ∧
      (r.addRoute re route.method route.path route.handler).2.isSome =
        (r'.addRoute re route.method route.path route.handler).2.isSome := by
  have roots := extends_.roots route.method
  have formed := held.formed route.method
  have formed' := held'.formed route.method
  have same : (r.addRoute re route.method route.path route.handler).2 = none ↔
      (r'.addRoute re route.method route.path route.handler).2 = none := by
    rw [held.addRoute_returns_iff, held'.addRoute_returns_iff, roots.passes_iff formed formed',
      roots.handlers]
  refine ⟨?_, ?_⟩
  · rcases addRoute_cases re r route.method route.path route.handler with
      ⟨misshapen, p, refused⟩ | ⟨shaped, conflict, worked⟩
    · obtain ⟨-, p', refused'⟩ := (addRoute_cases re r' route.method route.path
        route.handler).resolve_right fun other => misshapen other.1
      rw [refused, refused']
      exact extends_
    · obtain ⟨conflict', worked'⟩ := addRoute_shaped re r' route.method route.handler shaped
      rw [worked, worked']
      refine ⟨fun method => ?_, fun method => ?_⟩
      · by_cases here : method = route.method
        · subst here
          simp
        · simp [AList.lookup_insert_ne here, extends_.trees]
      · rw [rootOf_insert, rootOf_insert]
        split
        · exact roots.addSegments formed formed' (held.fresh _) (held'.fresh _)
        · exact extends_.roots method
  · rw [Bool.eq_iff_iff, isSome_iff_ne_none, isSome_iff_ne_none]
    exact not_congr same

theorem Extends.alike (extends_ : r.Extends re r') (held : r.Holds routes)
    (held' : r'.Holds routes') : Alike re r r' := by
  intro later
  induction later generalizing r r' routes routes' with
  | nil => exact ⟨rfl, held.finds held' (extends_.walk_eq held held')⟩
  | cons route later ih =>
    obtain ⟨after, same⟩ := extends_.addRoute held held' route
    obtain ⟨routes₁, held₁⟩ := held.addRoute re route
    obtain ⟨routes₂, held₂⟩ := held'.addRoute re route
    obtain ⟨outcomes, finds⟩ := ih after held₁ held₂
    exact ⟨congrArg₂ List.cons same outcomes, finds⟩

end Router

end Soil.Web
