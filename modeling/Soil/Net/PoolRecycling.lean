import Mathlib.Data.List.Nodup
import Soil.Net.PoolCapacity

/-!
# Recycling and the callers of a stream

`maintain` closes a stream for its age or for idleness when it reads an in-flight counter
of zero.  The counter is raised in `stream.Call`, not in `Get`, so that a stream can be
handed out and not yet counted.
-/

namespace Soil.Net.StreamPool

open List Pool StreamPool Monitor

open Monitor (Step Exclusive)

/-! ## The in-flight counter -/

def raised (x : Nat) : Exit → Nat
  | .inr (.touch y) => if y = x then 1 else 0
  | .inr (.calling y) => if y = x then 1 else 0
  | _ => 0

section

variable {p q : Pool} {cfg : Config} {t x : Nat} {sec : Section} {pc : PC} {next : Exit}

theorem inflight_update {f : Info → Info} (keeps : ∀ i, (f i).inflight = i.inflight) (y : Nat) :
    (p.update y f).inflight x = p.inflight x := by
  rw [inflight, inflight, update, List.getElem?_modify]
  cases p.table[x]? with
  | none => rfl
  | some =>
    by_cases same : y = x
    · simp [same, keeps]
    · simp [same]

theorem inflight_addInflight {y : Nat} (known : y < p.table.length) (n : Int) :
    (p.addInflight y n).inflight x = p.inflight x + if y = x then n else 0 := by
  rw [inflight, inflight, addInflight, update, List.getElem?_modify]
  by_cases same : y = x
  · subst same
    simp [List.getElem?_eq_getElem known]
  · simp [same]

theorem inflight_newStream : p.newStream.inflight x = p.inflight x := by
  rw [Pool.inflight, Pool.inflight, Pool.newStream, List.getElem?_append]
  split
  · rfl
  · have unknown : p.table[x]? = none := List.getElem?_eq_none (by omega)
    rw [unknown]
    cases x - p.table.length <;> rfl

theorem inflight_closeStream (y : Nat) : (p.closeStream y).inflight x = p.inflight x := by
  apply inflight_update
  intro i
  rfl

theorem inflight_touch (y : Nat) : (p.touch y).inflight x = p.inflight x := by
  apply inflight_update
  intro i
  rfl

theorem Enter.inflight (step : Enter p pc q next) :
    q.inflight x + raised x (.inr pc) = p.inflight x + raised x next := by
  cases step with
  | late _ => exact congrArg (· + (0 : Int)) (inflight_closeStream _)
  | _ => rfl

theorem Inside.inflight (step : Inside cfg p t sec q next) :
    q.inflight x + raised x (.inl sec) = p.inflight x + raised x next := by
  cases step with
  | full => exact congrArg (· + (0 : Int)) (inflight_closeStream _)
  | _ => rfl

theorem Outside.inflight {next : PC} (known : ∀ y ∈ pc.names, y < p.table.length)
    (step : Outside p pc q next) :
    q.inflight x + raised x (.inr pc) = p.inflight x + raised x (.inr next) := by
  cases step with
  | dialed => exact congrArg (· + (0 : Int)) inflight_newStream
  | @raise y | @returns y =>
    rw [inflight_addInflight (known y (by simp [PC.names]))]
    simp only [raised]
    split <;> simp
  | @touch y => exact congrArg (· + _) (inflight_touch y)
  | close | pingFailed | take => exact congrArg (· + (0 : Int)) (inflight_closeStream _)
  | pinged => exact congrArg (· + (0 : Int)) (inflight_touch _)
  | _ => rfl

theorem environment_inflight {e : Env} (changed : environment p e = some q) :
    q.inflight x = p.inflight x := by
  rcases environment_cases changed with ⟨_, _, _, rfl⟩ | ⟨y, rfl | rfl⟩
  · rfl
  · exact inflight_closeStream y
  · exact inflight_touch y

end

section

variable {cfg : Config} {ops : List Op} {s s' : Monitor.State Pool Section PC}
  {ok : Monitor.State Pool Section PC → Monitor.Label Act Env → Prop}

def Tallied (x : Nat) (s : Monitor.State Pool Section PC) : Prop :=
  s.data.inflight x = (s.threads.map (raised x)).sum

theorem tallied (x : Nat) (reachable : (pool cfg ops).Reachable ok s) : Tallied x s := by
  refine induct (I := Tallied x) ?_ ?_ reachable
  · rintro d pcs ⟨rfl, rfl⟩
    have none_ : (((ops.map PC.start).map Sum.inr : List Exit).map (raised x)).sum = 0 := by
      rw [map_map, map_map]
      exact sum_eq_zero (by simp [raised])
    change (0 : Int) = _
    rw [none_]
    rfl
  · intro s l s' there holds _ step
    have before : s.data.inflight x = _ := holds
    cases step with
    | @enter t pc d next _ at_ entered =>
      have own := (enter_cases entered).inflight (x := x)
      have sum := sum_map_set (raised x) at_ next
      change d.inflight x = ((s.threads.set t next).map (raised x)).sum
      omega
    | @inside t sec d next at_ moved =>
      have own := (inside_cases moved).inflight (x := x)
      have sum := sum_map_set (raised x) at_ next
      change d.inflight x = ((s.threads.set t next).map (raised x)).sum
      omega
    | @outside t pc act d next at_ moved =>
      have named := (known there).threads _ (mem_of_getElem? at_)
      have own := (outside_cases moved).inflight (x := x) named
      have sum := sum_map_set (raised x) at_ (.inr next)
      change d.inflight x = ((s.threads.set t (.inr next)).map (raised x)).sum
      omega
    | environment changed => exact (environment_inflight changed).trans holds

end

/-! ## No stream twice -/

def landing : Exit → List Nat
  | .inl (.compact (.landed x) _ _) => [x]
  | .inr (.dialed (some x)) => [x]
  | _ => []

def Picks (p : Pool) (_ : Nat) : Section → Prop
  | .pick look best todo => ∀ x ∈ (Section.pick look best todo).names, x ∈ p.streams
  | .load look best y todo => ∀ x ∈ (Section.load look best y todo).names, x ∈ p.streams
  | _ => True

section

variable {p q : Pool} {cfg : Config} {t x : Nat} {sec sec' : Section} {pc : PC} {next : Exit}

theorem Inside.picks (picks : Picks p t sec) (step : Inside cfg p t sec q (.inl sec')) :
    Picks q t sec' := by
  cases step with
  | compacted | lookAgain => simp [Picks, Section.names]
  | full => simp [Picks, Section.names, closeCounted, closeStream, update]
  | look => exact picks
  | pass | worse =>
    intro y named
    apply picks
    simp only [Section.names, mem_append, mem_cons] at named ⊢
    tauto
  | better =>
    intro y named
    apply picks
    simp only [Section.names, Option.toList, map_cons, map_nil, mem_append,
      mem_cons, not_mem_nil, or_false] at named ⊢
    tauto
  | _ => trivial

theorem picks_apart (apart : p.Apart q) (picks : Picks p t sec) : Picks q t sec := by
  cases sec with
  | pick | load =>
    exact fun x named => apart.streams ▸ picks x named
  | _ => trivial

theorem Enter.picks (step : Enter p pc q (.inl sec)) : Picks q t sec := by
  cases step <;> trivial

theorem landing_subset_names {e : Exit} (here : x ∈ landing e) : x ∈ names e := by
  rcases e with sec | pc
  · cases sec with
    | compact next kept todo =>
      cases next with
      | landed => simp_all [landing, names, Section.names, Cont.names]
      | _ => cases here
    | _ => cases here
  · cases pc with
    | dialed y =>
      cases y with
      | none => cases here
      | some => exact here
    | _ => cases here

theorem Enter.streams (step : Enter p pc q next) :
    q.streams.Sublist p.streams ∧ (∀ x ∈ landing next, x ∈ landing (.inr pc)) := by
  cases step with
  | close _ => exact ⟨nil_sublist _, by simp [landing]⟩
  | remove => exact ⟨filter_sublist, by simp [landing]⟩
  | dialed _ => exact ⟨.refl _, fun x here => here⟩
  | _ => exact ⟨.refl _, by simp [landing]⟩

theorem Inside.streams (good : Good p t sec) (step : Inside cfg p t sec q next) :
    (q.streams.Sublist p.streams ∧ ∀ x ∈ landing next, x ∈ landing (.inl sec)) ∨
      ∃ x kept, kept.Sublist p.streams ∧ q.streams = kept ++ [x] ∧ next = .inr (.got x) ∧
        x ∈ landing (.inl sec) := by
  cases step with
  | landed _ => exact .inr ⟨_, _, by simpa using good.1, rfl, rfl, by simp [landing]⟩
  | @keep next _ _ _ | @drop next _ _ _ _ => cases next <;> exact .inl ⟨.refl _, fun x here => here⟩
  | compacted | noRoom | maintain | stats | swept =>
    exact .inl ⟨by simpa using good.1, by simp [landing]⟩
  | _ => exact .inl ⟨.refl _, by simp [landing]⟩

theorem Outside.landing {next : PC} (step : Outside p pc q next)
    (here : x ∈ landing (.inr next)) : x = p.table.length := by
  cases step with
  | dialed => simpa [landing] using here
  | _ => simp [landing] at here

end

section

variable {cfg : Config} {ops : List Op} {s s' : Monitor.State Pool Section PC}
  {ok : Monitor.State Pool Section PC → Monitor.Label Act Env → Prop}

theorem picks (reachable : (pool cfg ops).Reachable ok s) :
    ∀ t sec, s.threads[t]? = some (.inl sec) → Picks s.data t sec := by
  apply sections (Q := Picks) _ _ _ _ reachable
  · exact fun d t pc d' sec entered => (enter_cases entered).picks
  · exact fun d t sec d' sec' holds moved => (inside_cases moved).picks holds
  · exact fun d t pc act d' pc' j sec moved holds => picks_apart (outside_cases moved).apart holds
  · exact fun d e d' j sec changed holds => picks_apart (environment_apart changed) holds

def Fresh (s : Monitor.State Pool Section PC) (t x : Nat) : Prop :=
  x ∉ s.data.streams ∧ ∀ j th, s.threads[j]? = some th → j ≠ t → x ∉ names th

structure Distinct (s : Monitor.State Pool Section PC) : Prop where
  streams : s.data.streams.Nodup
  fresh : ∀ t th, s.threads[t]? = some th → ∀ x ∈ landing th, Fresh s t x

theorem Distinct.land (distinct : Distinct s) {t : Nat} {old next : Exit} {d : Pool}
    (at_ : s.threads[t]? = some old) (nodup : d.streams.Nodup)
    (learns : ∀ x, x ∈ d.streams ∨ x ∈ names next → x ∈ s.data.streams ∨ x ∈ names old)
    (own : ∀ x ∈ landing next, x ∈ landing old ∧ x ∉ d.streams) : Distinct (s.land t d next) := by
  refine ⟨nodup, fun i th at_i x here => ?_⟩
  rcases getElem?_set_cases at_i with ⟨rfl, rfl⟩ | ⟨mine, at_i⟩
  · obtain ⟨before, unlisted⟩ := own x here
    refine ⟨unlisted, fun j th' at_j other => ?_⟩
    rw [Monitor.State.land, getElem?_set_of_some at_, if_neg other] at at_j
    exact (distinct.fresh i old at_ x before).2 j th' at_j other
  · have before := distinct.fresh i th at_i x here
    have unknown : x ∉ names old := before.2 t old at_ (Ne.symm mine)
    have unlearnt : ¬ (x ∈ d.streams ∨ x ∈ names next) := by
      intro learnt
      rcases learns x learnt with listed | named
      · exact before.1 listed
      · exact unknown named
    refine ⟨fun listed => unlearnt (.inl listed), fun j th' at_j other => ?_⟩
    rcases getElem?_set_cases at_j with ⟨-, rfl⟩ | ⟨-, at_j⟩
    · exact fun named => unlearnt (.inr named)
    · exact before.2 j th' at_j other

theorem distinct (reachable : (pool cfg ops).Reachable ok s) : Distinct s := by
  refine induct (I := Distinct) ?_ ?_ reachable
  · rintro d pcs ⟨rfl, rfl⟩
    refine ⟨nodup_nil, fun t th at_ x here => ?_⟩
    rw [List.getElem?_map, Option.map_eq_some_iff] at at_
    obtain ⟨pc, at_, rfl⟩ := at_
    rw [List.getElem?_map, Option.map_eq_some_iff] at at_
    obtain ⟨op, -, rfl⟩ := at_
    cases here
  · intro s l s' there holds _ step
    cases step with
    | @enter t pc d next _ at_ entered =>
      have step := enter_cases entered
      obtain ⟨sub, own⟩ := step.streams
      apply holds.land at_ (holds.streams.sublist sub) fun x => step.names
      exact fun x here => ⟨own x here, fun listed =>
        (holds.fresh t _ at_ x (own x here)).1 (sub.subset listed)⟩
    | @inside t sec d next at_ moved =>
      have step := inside_cases moved
      rcases step.streams (good there t sec at_) with ⟨sub, own⟩ | ⟨x, kept, sub, same, rfl, mine⟩
      · apply holds.land at_ (holds.streams.sublist sub) fun x => step.names
        exact fun x here => ⟨own x here, fun listed =>
          (holds.fresh t _ at_ x (own x here)).1 (sub.subset listed)⟩
      have new : x ∉ kept := fun listed =>
        (holds.fresh t _ at_ x mine).1 (sub.subset listed)
      apply holds.land at_ _ (fun y => step.names) (by simp [landing])
      rw [same]
      refine nodup_append.mpr ⟨holds.streams.sublist sub, nodup_singleton x, ?_⟩
      rintro y listed z new' rfl
      exact new (mem_singleton.mp new' ▸ listed)
    | @outside t pc act d next at_ moved =>
      have step := outside_cases moved
      have numbers := known there
      have listed := step.apart.streams
      refine ⟨listed ▸ holds.streams, fun i th at_i x here => ?_⟩
      rcases getElem?_set_cases at_i with ⟨rfl, rfl⟩ | ⟨mine, at_i⟩
      · -- the stream has just been dialled, so nobody knows its number
        have new := step.landing here
        refine ⟨fun inside => ?_, fun j th' at_j other named => ?_⟩
        · have bound := numbers.streams x (listed ▸ inside)
          omega
        · rw [getElem?_set_of_some at_, if_neg other] at at_j
          have bound := numbers.threads th' (mem_of_getElem? at_j) x named
          omega
      · have before := holds.fresh i th at_i x here
        refine ⟨fun inside => before.1 (listed ▸ inside), fun j th' at_j other named => ?_⟩
        rcases getElem?_set_cases at_j with ⟨-, rfl⟩ | ⟨-, at_j⟩
        · rcases step.names named with old | ⟨new, -⟩
          · exact before.2 t _ at_ (Ne.symm mine) old
          · have bound := numbers.threads th (mem_of_getElem? at_i) x (landing_subset_names here)
            omega
        · exact before.2 j th' at_j other named
    | environment changed =>
      have apart := environment_apart changed
      refine ⟨apart.streams ▸ holds.streams, fun t th at_ x here => ?_⟩
      have before := holds.fresh t th at_ x here
      exact ⟨fun listed => before.1 (apart.streams ▸ listed), before.2⟩

end

/-! ## Streams in use -/

def user : Exit → List Nat
  | .inr (.got x) | .inr (.live x) | .inr (.raise x) | .inr (.touch x) | .inr (.calling x) => [x]
  | _ => []

def handed : Exit → List Nat
  | .inr (.got x) | .inr (.live x) | .inr (.raise x) => [x]
  | _ => []

def doomed : Exit → List Nat
  | .inl (.sweep _ _ toClose _ _) => toClose
  | .inr (.closing toClose _) => toClose
  | _ => []

def takesOut (cfg : Config) (s : Monitor.State Pool Section PC) : Monitor.Label Act Env → Option Nat
  | .go t =>
    match s.threads[t]? with
    | some (.inl (.sweep now _ _ _ (x :: _))) =>
      if (s.data.table[x]?).any fun i => i.alive ∧ cfg.Due now i then some x else none
    | _ => none
  | _ => none

def Unhanded (cfg : Config) (s : Monitor.State Pool Section PC) (l : Monitor.Label Act Env) :
    Prop :=
  ∀ x ∈ takesOut cfg s l, ∀ th ∈ s.threads, x ∉ handed th

instance (cfg : Config) (s : Monitor.State Pool Section PC) (l : Monitor.Label Act Env) :
    Decidable (Unhanded cfg s l) :=
  inferInstanceAs (Decidable (∀ x ∈ takesOut cfg s l, ∀ th ∈ s.threads, x ∉ handed th))

variable {l : Monitor.Label Act Env}

theorem takesOut_eq_some {cfg : Config} {s : Monitor.State Pool Section PC} {x : Nat} :
    takesOut cfg s l = some x ↔ ∃ t now alive toClose toPing todo i, l = .go t ∧
        s.threads[t]? = some (.inl (.sweep now alive toClose toPing (x :: todo))) ∧
        s.data.table[x]? = some i ∧ i.alive = true ∧ cfg.Due now i := by
  constructor
  · intro takes
    unfold takesOut at takes
    split at takes
    · split at takes
      · rename_i t _ now alive toClose toPing y todo at_
        split at takes
        · rename_i due
          cases takes
          cases found : s.data.table[x]? with
          | none => simp [found] at due
          | some i =>
            rw [found, Option.any_some, decide_eq_true_eq] at due
            exact ⟨t, now, alive, toClose, toPing, todo, i, rfl, at_, rfl, due.1, due.2⟩
        · cases takes
      · cases takes
    · cases takes
  · rintro ⟨t, now, alive, toClose, toPing, todo, i, rfl, at_, found, live, due⟩
    simp [takesOut, at_, found, live, due]

section

variable {p q : Pool} {cfg : Config} {t x : Nat} {sec : Section} {pc : PC} {next : Exit}

theorem user_cases {e : Exit} (uses : x ∈ user e) : x ∈ handed e ∨ raised x e = 1 := by
  rcases e with sec | pc
  · cases uses
  · cases pc with
    | touch | calling => simp_all [user, raised]
    | got | live | raise => exact .inl uses
    | _ => cases uses

theorem Enter.user (step : Enter p pc q next) : user next = [] ∧ doomed next = [] := by
  cases step <;> exact ⟨rfl, rfl⟩

theorem Inside.user (picks : Picks p t sec) (step : Inside cfg p t sec q next)
    (uses : x ∈ user next) : x ∈ p.streams ∨ x ∈ landing (.inl sec) := by
  cases step with
  | found =>
    obtain rfl := mem_singleton.mp uses
    exact .inl (picks _ (by simp [Section.names]))
  | landed =>
    obtain rfl := mem_singleton.mp uses
    exact .inr (by simp [landing])
  | _ => cases uses

theorem Outside.user {next : PC} (step : Outside p pc q next) :
    (∀ x ∈ user (.inr next), x ∈ user (.inr pc)) ∧
      ∀ x ∈ doomed (.inr next), x ∈ doomed (.inr pc) := by
  cases step with
  | close => exact ⟨by simp [user], fun x inside => mem_cons_of_mem _ inside⟩
  | call | live | raise | touch => exact ⟨fun x uses => uses, by simp [doomed]⟩
  | _ => exact ⟨by simp [user], by simp [doomed]⟩

theorem Inside.doomed (step : Inside cfg p t sec q next) (dooms : x ∈ doomed next) :
    x ∈ doomed (.inl sec) ∨
      ∃ now alive toClose toPing todo i, sec = .sweep now alive toClose toPing (x :: todo) ∧
        p.table[x]? = some i ∧ i.alive = true ∧ cfg.Due now i := by
  cases step with
  | sweepDead | sweepStay | swept => exact .inl dooms
  | @sweepDue now y alive toClose toPing todo i found live due =>
    rcases mem_append.mp dooms with old | new
    · exact .inl old
    · obtain rfl := mem_singleton.mp new
      exact .inr ⟨now, alive, toClose, toPing, todo, i, rfl, found, live, due⟩
  | _ => cases dooms

end

section

variable {cfg : Config} {ops : List Op} {s s' : Monitor.State Pool Section PC}

structure Spared (s : Monitor.State Pool Section PC) : Prop where
  idle : ∀ th ∈ s.threads, ∀ x ∈ doomed th, ∀ th' ∈ s.threads, x ∉ user th'
  swept : ∀ th ∈ s.threads, ∀ now alive toClose toPing todo,
    th = .inl (.sweep now alive toClose toPing todo) → ∀ x ∈ toClose, x ∉ alive ∧ x ∉ todo
  closing : ∀ th ∈ s.threads, ∀ toClose toPing, th = .inr (.closing toClose toPing) →
    ∀ x ∈ toClose, x ∉ s.data.streams

variable {x : Nat} {i : Info}

theorem not_user_of_unhanded (reachable : (pool cfg ops).Reachable (Unhanded cfg) s)
    (found : s.data.table[x]? = some i) (zero : i.inflight = 0)
    (unhanded : ∀ th ∈ s.threads, x ∉ handed th) : ∀ th ∈ s.threads, x ∉ user th := by
  intro th inside uses
  rcases user_cases uses with given | counted
  · exact unhanded th inside given
  · have total : s.data.inflight x = _ := tallied x reachable
    obtain ⟨j, at_⟩ := mem_iff_getElem?.mp inside
    have one := le_sum_map (raised x) at_
    rw [inflight, found, Option.elim_some, zero] at total
    omega

variable {now : Nat}

theorem Config.Due.inflight (due : cfg.Due now i) : i.inflight = 0 := by
  rcases due with old | idle
  · exact old.2.2
  · exact idle.2.1

theorem Spared.set (spared : Spared s) {t : Nat} {next : Exit} {d : Pool} {mutex : Option Nat}
    (dooms : ∀ x ∈ doomed next, x ∉ user next ∧ ∀ th ∈ s.threads, x ∉ user th)
    (uses : ∀ x ∈ user next, ∀ th ∈ s.threads, x ∉ doomed th)
    (swept : ∀ now alive toClose toPing todo, next = .inl (.sweep now alive toClose toPing todo) →
      ∀ x ∈ toClose, x ∉ alive ∧ x ∉ todo)
    (closing : ∀ toClose toPing, next = .inr (.closing toClose toPing) →
      ∀ x ∈ toClose, x ∉ d.streams)
    (unlisted : ∀ th ∈ s.threads, ∀ toClose toPing, th = .inr (.closing toClose toPing) →
      ∀ x ∈ toClose, x ∉ d.streams) :
    Spared { data := d, mutex, threads := s.threads.set t next } := by
  refine ⟨fun th inside x dead th' inside' => ?_, forall_mem_set spared.swept swept,
    forall_mem_set unlisted closing⟩
  rcases mem_or_eq_of_mem_set inside with old | rfl
  · rcases mem_or_eq_of_mem_set inside' with old' | rfl
    · exact spared.idle th old x dead th' old'
    · exact fun used => uses x used th old dead
  · rcases mem_or_eq_of_mem_set inside' with old' | rfl
    · exact (dooms x dead).2 th' old'
    · exact (dooms x dead).1

variable {e : Exit}

theorem doomed_subset_names (dead : x ∈ doomed e) : x ∈ names e := by
  rcases e with sec | pc
  · cases sec with
    | sweep => simp_all [doomed, names, Section.names]
    | _ => cases dead
  · cases pc with
    | closing => simp_all [doomed, names, PC.names]
    | _ => cases dead

theorem user_of_doomed (dead : x ∈ doomed e) : user e = [] := by
  rcases e with sec | pc
  · rfl
  · cases pc with
    | closing => rfl
    | _ => cases dead

theorem Inside.keepsApart {p q : Pool} {t : Nat} {sec : Section}
    {alive toClose toPing todo : List Nat} (nodup : p.streams.Nodup) (sound : Good p t sec)
    (before : ∀ now alive toClose toPing todo, sec = .sweep now alive toClose toPing todo →
      ∀ x ∈ toClose, x ∉ alive ∧ x ∉ todo)
    (step : Inside cfg p t sec q (.inl (.sweep now alive toClose toPing todo))) :
    ∀ x ∈ toClose, x ∉ alive ∧ x ∉ todo := by
  intro x dead
  cases step with
  | maintain => cases dead
  | sweepDead _ =>
    have old := before _ _ _ _ _ rfl x dead
    exact ⟨old.1, fun later => old.2 (mem_cons_of_mem _ later)⟩
  | @sweepDue _ y _ toClose _ _ i _ _ _ =>
    rcases mem_append.mp dead with earlier | new
    · have old := before _ _ _ _ _ rfl x earlier
      exact ⟨old.1, fun later => old.2 (mem_cons_of_mem _ later)⟩
    · obtain rfl := mem_singleton.mp new
      have once := nodup_append.mp (nodup.sublist sound.1)
      refine ⟨fun kept => once.2.2 x kept x (by simp) rfl, ?_⟩
      exact (nodup_cons.mp once.2.1).1
  | @sweepStay _ y alive _ _ _ _ _ =>
    have old := before _ _ _ _ _ rfl x dead
    refine ⟨fun kept => ?_, fun later => old.2 (mem_cons_of_mem _ later)⟩
    rcases mem_append.mp kept with earlier | new
    · exact old.1 earlier
    · obtain rfl := mem_singleton.mp new
      exact old.2 (by simp)

theorem spared (reachable : (pool cfg ops).Reachable (Unhanded cfg) s) : Spared s := by
  refine induct (I := Spared) ?_ ?_ reachable
  · rintro d pcs ⟨rfl, rfl⟩
    have started : ∀ th ∈ ((ops.map PC.start).map Sum.inr : List Exit),
        ∃ op, th = .inr (.start op) := by
      intro th inside
      obtain ⟨pc, there, rfl⟩ := mem_map.mp inside
      obtain ⟨op, -, rfl⟩ := mem_map.mp there
      exact ⟨op, rfl⟩
    refine ⟨fun th inside x dooms => ?_, ?_, ?_⟩
    · obtain ⟨op, rfl⟩ := started th inside
      cases dooms
    · rintro th inside now alive toClose toPing todo rfl
      obtain ⟨op, no⟩ := started _ inside
      cases no
    · rintro th inside toClose toPing rfl
      obtain ⟨op, no⟩ := started _ inside
      cases no
  · intro s l s' there holds unhanded step
    cases step with
    | @enter t pc d next _ at_ entered =>
      have step := enter_cases entered
      apply holds.set
      · simp [step.user.2]
      · simp [step.user.1]
      · rintro now alive toClose toPing todo rfl
        cases step
      · rintro toClose toPing rfl
        cases step
      · intro th inside toClose toPing closing x dead listed
        exact holds.closing th inside toClose toPing closing x dead (step.streams.1.subset listed)
    | @inside t sec d next at_ moved =>
      have step := inside_cases moved
      have inside := mem_of_getElem? at_
      have sound := good there t sec at_
      have fresh := (distinct there).fresh t _ at_
      -- a stream that the goroutine has dialled is doomed by nobody
      have young : ∀ x ∈ landing (.inl sec), ∀ th ∈ s.threads, x ∉ doomed th := by
        intro x mine th other dead
        obtain ⟨j, at_j⟩ := mem_iff_getElem?.mp other
        by_cases same : j = t
        · subst same
          rw [at_j, Option.some.injEq] at at_
          cases sec <;> simp_all [landing, doomed]
        · exact (fresh x mine).2 j th at_j same (doomed_subset_names dead)
      apply holds.set
      · intro x dead
        refine ⟨by simp [user_of_doomed dead], ?_⟩
        rcases step.doomed dead with
          old | ⟨now, alive, toClose, toPing, todo, i, rfl, found, live, due⟩
        · exact holds.idle _ inside x old
        · apply not_user_of_unhanded there found due.inflight
          exact unhanded x (takesOut_eq_some.mpr
            ⟨t, now, alive, toClose, toPing, todo, i, rfl, at_, found, live, due⟩)
      · intro x used th other dead
        rcases step.user (picks there t sec at_) used with listed | mine
        · rcases th with sec' | pc
          · -- the goroutine under the mutex is the one that moves, and it hands out a stream
            obtain ⟨j, at_j⟩ := mem_iff_getElem?.mp other
            have held := exclusion there t sec at_
            rw [exclusion there j sec' at_j, Option.some.injEq] at held
            subst held
            rw [at_j, Option.some.injEq, Sum.inl.injEq] at at_
            cases step <;> simp_all [doomed, user]
          · cases pc with
            | closing => exact holds.closing _ other _ _ rfl x dead listed
            | _ => cases dead
        · exact young x mine th other dead
      · rintro now alive toClose toPing todo rfl
        apply step.keepsApart (distinct there).streams sound
        intro now alive toClose toPing todo same
        exact holds.swept _ inside now alive toClose toPing todo (by rw [same])
      · rintro toClose toPing rfl
        cases step with
        | swept => exact fun x dead => (holds.swept _ inside _ _ _ _ _ rfl x dead).1
      · intro th other toClose toPing closing x dead listed
        rcases step.streams sound with ⟨sub, -⟩ | ⟨y, kept, sub, same, -, mine⟩
        · exact holds.closing th other toClose toPing closing x dead (sub.subset listed)
        · rw [same] at listed
          rcases mem_append.mp listed with old | new
          · exact holds.closing th other toClose toPing closing x dead (sub.subset old)
          · obtain rfl := mem_singleton.mp new
            exact young x mine th other (by rw [closing]; exact dead)
    | @outside t pc act d next at_ moved =>
      have step := outside_cases moved
      have inside := mem_of_getElem? at_
      have fewer := step.user
      apply holds.set
      · intro x dead
        have before := holds.idle _ inside x (fewer.2 x dead)
        exact ⟨fun used => before _ inside (fewer.1 x used), before⟩
      · exact fun x used th other dead => holds.idle th other x dead _ inside (fewer.1 x used)
      · rintro now alive toClose toPing todo ⟨⟩
      · intro toClose toPing closing x dead
        cases closing
        cases step with
        | close =>
          exact holds.closing _ inside _ _ rfl x (mem_cons_of_mem _ dead)
      · intro th other toClose toPing closing x dead listed
        exact holds.closing th other toClose toPing closing x dead (step.apart.streams ▸ listed)
    | environment changed =>
      have apart := environment_apart changed
      refine ⟨holds.idle, holds.swept, fun th inside toClose toPing closing x dead listed => ?_⟩
      exact holds.closing th inside toClose toPing closing x dead (apart.streams ▸ listed)

end

theorem doomed_of_not_unhanded {cfg : Config} {s s' : Monitor.State Pool Section PC}
    (handedOut : ¬ Unhanded cfg s l) (step : (monitor cfg).step s l = some s') :
    ∃ th ∈ s'.threads, ∃ x ∈ doomed th, ∃ caller ∈ s'.threads, x ∈ user caller := by
  rw [Unhanded] at handedOut
  push Not at handedOut
  obtain ⟨x, takes, caller, there, given⟩ := handedOut
  obtain ⟨t, now, alive, toClose, toPing, todo, i, rfl, at_, found, live, due⟩ :=
    takesOut_eq_some.mp takes
  have next : inside cfg s.data t (.sweep now alive toClose toPing (x :: todo)) =
      (s.data, .inl (.sweep now alive (toClose ++ [x]) toPing todo)) := by
    simp [inside, sweepOne, found, live, due]
  have after : s' = s.land t s.data (.inl (.sweep now alive (toClose ++ [x]) toPing todo)) := by
    simpa [Monitor.step, monitor, at_, next] using step.symm
  subst after
  refine ⟨_, mem_set_of_some at_ _, x, by simp [doomed], ?_⟩
  have uses : x ∈ user caller := by
    rcases caller with sec | pc
    · cases given
    · cases pc <;> first | exact given | cases given
  rcases exists_mem_set at_ (.inl (.sweep now alive (toClose ++ [x]) toPing todo))
      (P := fun th => x ∈ user th) ⟨caller, there, uses⟩ with no | still
  · cases no
  · exact still

end Soil.Net.StreamPool
