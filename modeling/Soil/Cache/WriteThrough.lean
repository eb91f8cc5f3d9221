import Soil.System

/-!
# Writing through the cache

`WriteThroughCache` of `write_through.go`: any number of `Set`, `SemiAsyncSet` and `AsyncSet` calls.
`storeFunc` and `Cache.Set` are steps of their own that may fail; a store that fails leaves the
database, and `log.Fatalln` ends the process.
-/

namespace Soil.Cache.WriteThrough

open Soil.System

-- keys, values and errors
variable {K V E : Type}

inductive Kind where
  | set
  | semiAsync
  | async
  deriving DecidableEq

inductive Caller (E : Type) where
  | store
  | cache
  | ret
  | returned (err : Option E)
  deriving DecidableEq

inductive Worker where
  | none
  | store
  | cache
  | done
  deriving DecidableEq

structure Call (K V E : Type) where
  kind : Kind
  key : K
  val : V
  caller : Caller E
  worker : Worker := .none
  err : Option E := none
  deriving DecidableEq

def newCall (kind : Kind) (key : K) (val : V) : Call K V E :=
  match kind with
  | .set | .semiAsync => { kind, key, val, caller := .store }
  | .async => { kind, key, val, caller := .ret, worker := .store }

inductive Act (E : Type) where
  | store (err : Option E)
  | cache (err : Option E)
  | ret
  deriving DecidableEq

def Call.step (c : Call K V E) : Act E → Option (Call K V E × Bool)
  | .store err =>
    match c.kind, c.caller, c.worker with
    | .set, .store, _ =>
      match err with
      | some e => some ({ c with caller := .returned (some e) }, false)
      | none => some ({ c with caller := .cache }, false)
    | .semiAsync, .store, _ => some ({ c with caller := .ret, worker := .cache, err }, false)
    | .async, _, .store =>
      match err with
      | some _ => some ({ c with worker := .done }, true)
      | none => some ({ c with worker := .cache }, false)
    | _, _, _ => none
  | .cache err =>
    match c.kind, c.caller, c.worker with
    | .set, .cache, _ => some ({ c with caller := .returned err }, false)
    | .semiAsync, _, .cache => some ({ c with worker := .done, err }, err.isSome)
    | .async, _, .cache => some ({ c with worker := .done }, err.isSome)
    | _, _, _ => none
  | .ret =>
    match c.caller with
    | .ret => some ({ c with caller := .returned c.err }, false)
    | _ => none

structure State (K V E : Type) where
  db : K → Option V
  cache : K → Option V
  calls : List (Call K V E) := []
  exited : Bool := false

inductive Label (K V E : Type) where
  | call (kind : Kind) (key : K) (val : V)
  | go (i : Nat) (act : Act E)
  deriving DecidableEq

variable [DecidableEq K]

def State.stored (s : State K V E) (c : Call K V E) : Act E → K → Option V
  | .store none => Function.update s.db c.key (some c.val)
  | _ => s.db

def State.cached (s : State K V E) (c : Call K V E) : Act E → K → Option V
  | .cache none => Function.update s.cache c.key (some c.val)
  | _ => s.cache

def State.step (s : State K V E) (l : Label K V E) : Option (State K V E) :=
  if s.exited then none
  else
    match l with
    | .call kind key val => some { s with calls := s.calls ++ [newCall kind key val] }
    | .go i act => (s.calls[i]?).bind fun c => (c.step act).map fun (c', exited) =>
      { db := s.stored c act, cache := s.cached c act, calls := s.calls.set i c', exited }

def State.Agrees (s : State K V E) : Prop := ∀ k v, s.cache k = some v → s.db k = some v

def writeThrough (K V E : Type) [DecidableEq K] : System (State K V E) (Label K V E) where
  init s := s.calls = [] ∧ s.exited = false ∧ s.Agrees
  step := State.step

def Call.finished (c : Call K V E) : Bool :=
  match c.caller, c.worker with
  | .returned _, .none | .returned _, .done => true
  | _, _ => false

def State.Quiet (s : State K V E) : Prop := ∀ c ∈ s.calls, c.finished = true

def Fresh (s : State K V E) : Label K V E → Prop
  | .go i (.cache err) =>
    err = none ∧ ∀ c ∈ s.calls[i]?, s.db c.key = some c.val
  | _ => True

instance [DecidableEq V] [DecidableEq E] (s : State K V E) (l : Label K V E) :
    Decidable (Fresh s l) := by
  unfold Fresh
  split <;> infer_instance

/-! ## One step -/

def Call.Pending (c : Call K V E) : Prop := c.caller = .cache ∨ c.worker = .cache

variable {c c' : Call K V E} {act : Act E} {exited : Bool}

omit [DecidableEq K] in
theorem Call.not_pending (finished : c.finished = true) : ¬ c.Pending := by
  unfold Call.finished at finished
  split at finished
  · simp_all [Call.Pending]
  · simp_all [Call.Pending]
  · cases finished

omit [DecidableEq K] in
theorem Call.step_spec (step : c.step act = some (c', exited)) :
    c'.key = c.key ∧ c'.val = c.val ∧ (act = .store none → c'.Pending) ∧
      ((∀ err, act ≠ .cache err) → c.Pending → c'.Pending) := by
  cases act with simp only [Call.step] at step
  | store =>
    (repeat' split at step) <;> cases step <;> simp_all [Call.Pending]
  | cache =>
    (repeat' split at step) <;> cases step <;> simp
  | ret =>
    split at step
    · cases step
      simp_all [Call.Pending]
    · cases step

/-! ## Runs -/

variable {s s' : State K V E} {l : Label K V E}

def State.Inv (s : State K V E) : Prop :=
  ∀ k v, s.cache k = some v →
    s.db k = some v ∨ ∃ c ∈ s.calls, c.Pending ∧ c.key = k ∧ s.db k = some c.val

theorem step_go {i : Nat} (step : s.step (.go i act) = some s') : ∃ c c' exited,
    s.calls[i]? = some c ∧ c.step act = some (c', exited) ∧
      s' = ⟨s.stored c act, s.cached c act, s.calls.set i c', exited⟩ := by
  rw [State.step] at step
  split at step
  · cases step
  · obtain ⟨c, at_, step⟩ := Option.bind_eq_some_iff.mp step
    obtain ⟨⟨c', exited⟩, moves, rfl⟩ := Option.map_eq_some_iff.mp step
    exact ⟨c, c', exited, at_, moves, rfl⟩

omit [DecidableEq K] in
theorem State.Inv.others {i : Nat} (inv : s.Inv) (at_ : s.calls[i]? = some c) (c' : Call K V E)
    {k : K} {v : V} (cached : s.cache k = some v) :
    s.db k = some v ∨ (c.Pending ∧ c.key = k ∧ s.db k = some c.val) ∨
      ∃ c ∈ s.calls.set i c', c.Pending ∧ c.key = k ∧ s.db k = some c.val := by
  rcases inv k v cached with agrees | other
  · exact .inl agrees
  · exact .inr (exists_mem_set at_ c' other)

theorem State.Inv.keeps (inv : s.Inv) (fresh : Fresh s l) (step : s.step l = some s') : s'.Inv := by
  cases l with
  | call =>
    rw [State.step] at step
    split at step
    · cases step
    · cases step
      intro k v cached
      rcases inv k v cached with agrees | ⟨c, inside, pending⟩
      · exact .inl agrees
      · exact .inr ⟨c, List.mem_append_left _ inside, pending⟩
  | go i act =>
    obtain ⟨c, c', exited, at_, moves, rfl⟩ := step_go step
    obtain ⟨key, val, stores, stays⟩ := Call.step_spec moves
    have there : c' ∈ s.calls.set i c' := mem_set_of_some at_ c'
    intro k v cached
    match act with
    | .store none =>
      by_cases here : k = c.key
      · subst here
        refine .inr ⟨c', there, stores rfl, key, ?_⟩
        rw [val]
        exact Function.update_self ..
      · have same : s.stored c (.store none) k = s.db k := Function.update_of_ne here ..
        rcases inv.others at_ c' cached with agrees | ⟨-, same', -⟩ | other
        · exact .inl (same.trans agrees)
        · exact (here same'.symm).elim
        · rw [← same] at other
          exact .inr other
    | .store (some e) | .ret =>
      rcases inv.others at_ c' cached with agrees | ⟨pending, same, value⟩ | other
      · exact .inl agrees
      · exact .inr ⟨c', there, stays nofun pending, key.trans same, val ▸ value⟩
      · exact .inr other
    | .cache none =>
      by_cases here : k = c.key
      · subst here
        left
        have value : s.cached c (.cache none) c.key = some c.val := Function.update_self ..
        rw [← Option.some.inj (value.symm.trans cached)]
        exact fresh.2 c at_
      · have same : s.cached c (.cache none) k = s.cache k := Function.update_of_ne here ..
        rcases inv.others at_ c' (same.symm.trans cached) with agrees | ⟨-, same', -⟩ | other
        · exact .inl agrees
        · exact (here same'.symm).elim
        · exact .inr other
    | .cache (some e) => cases fresh.1

/-- If every `Cache.Set` succeeds and puts what the database has at that moment, then the cache
agrees with the database once all calls and goroutines have finished. -/
theorem write_through_agrees (reachable : (writeThrough K V E).Reachable Fresh s)
    (quiet : s.Quiet) : s.Agrees := by
  have inv : s.Inv := by
    apply reachable.induct (I := State.Inv)
    · intro s ⟨_, _, agrees⟩ k v cached
      exact .inl (agrees k v cached)
    · intro s l s' inv fresh step
      exact inv.keeps fresh step
  intro k v cached
  rcases inv k v cached with agrees | ⟨c, inside, pending, -⟩
  · exact agrees
  · exact (Call.not_pending (quiet c inside) pending).elim

def empty : State Nat Nat Nat where
  db _ := none
  cache _ := none

theorem empty_init : (writeThrough Nat Nat Nat).init empty := ⟨rfl, rfl, nofun⟩

/-- Two calls that do not overtake each other, and one whose store fails. -/
theorem write_through_agrees_two : ∃ s : State Nat Nat Nat, s.cache 0 = some 2 ∧ s.Agrees := by
  obtain ⟨s, reachable, cached, quiet⟩ : ∃ s, (writeThrough Nat Nat Nat).Reachable Fresh s ∧
      s.cache 0 = some 2 ∧ ∀ c ∈ s.calls, c.finished :=
    exists_reachable [.call .set 0 1, .call .semiAsync 0 2, .call .set 0 3, .go 0 (.store none),
      .go 0 (.cache none), .go 1 (.store none), .go 1 .ret, .go 2 (.store (some 7)),
      .go 1 (.cache none)] empty_init (by decide +kernel)
  exact ⟨s, cached, write_through_agrees reachable quiet⟩

/-- `SemiAsyncSet` caches a value whose store has failed; and of two `Set` calls the one that
stores first caches last. -/
theorem write_through_diverges :
    (∃ s : State Nat Nat Nat, (writeThrough Nat Nat Nat).Reachable Any s ∧ s.Quiet ∧
      s.cache 0 = some 5 ∧ s.db 0 = none) ∧
    ∃ s : State Nat Nat Nat, (writeThrough Nat Nat Nat).Reachable Any s ∧ s.Quiet ∧
      s.cache 0 = some 1 ∧ s.db 0 = some 2 := by
  unfold State.Quiet
  constructor
  · exact exists_reachable [.call .semiAsync 0 5, .go 0 (.store (some 9)), .go 0 .ret,
      .go 0 (.cache none)] empty_init (by decide +kernel)
  · exact exists_reachable [.call .set 0 1, .call .set 0 2, .go 0 (.store none),
      .go 1 (.store none), .go 1 (.cache none), .go 0 (.cache none)] empty_init (by decide +kernel)

end Soil.Cache.WriteThrough
