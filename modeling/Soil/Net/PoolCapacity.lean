import Soil.Net.StreamPool

/-!
# The bound on the streams of a pool

A goroutine that is about to dial has a slot, and keeps it until its stream is in the
list or the dial has failed.  Streams and slots together never exceed `maxOpen`.
-/

namespace Soil.Net.StreamPool

open List Monitor

open Monitor (Step Exclusive)

/-! ## The loops over the list -/

def Pool.Listed (p : Pool) (xs : List Nat) : Prop := ∀ x ∈ p.streams, x ∈ xs ∨ p.alive x = false

def Good (p : Pool) (_ : Nat) : Section → Prop
  | .compact _ kept todo => (kept ++ todo).Sublist p.streams ∧ p.Listed (kept ++ todo)
  | .sweep _ alive toClose _ todo =>
    (alive ++ todo).Sublist p.streams ∧ p.Listed (alive ++ toClose ++ todo)
  | _ => True

section

variable {p q : Pool} {cfg : Config} {t : Nat} {sec sec' : Section} {pc : PC}

theorem Pool.Listed.mono {xs ys : List Nat} (listed : p.Listed xs)
    (covers : ∀ x ∈ xs, x ∈ ys ∨ p.alive x = false) : p.Listed ys := by
  intro x inside
  rcases listed x inside with here | dead
  · exact covers x here
  · exact .inr dead

theorem good_start (next : Cont) : Good p t (.compact next [] p.streams) :=
  ⟨.refl _, fun _ inside => .inl inside⟩

theorem good_apart (apart : p.Apart q) (good : Good p t sec) : Good q t sec := by
  have listed : ∀ xs, p.Listed xs → q.Listed xs := by
    intro xs holds x inside
    rw [apart.streams] at inside
    exact (holds x inside).imp_right (apart.fades x)
  cases sec with
  | compact | sweep =>
    rw [Good, apart.streams]
    exact ⟨good.1, listed _ good.2⟩
  | _ => trivial

theorem Enter.good (step : Enter p pc q (.inl sec)) : Good q t sec := by
  cases step with
  | call => trivial
  | woken => trivial
  | stats | maintain _ | dialed _ => exact good_start _

theorem Inside.good (good : Good p t sec) (step : Inside cfg p t sec q (.inl sec')) :
    Good q t sec' := by
  cases step with
  | check => exact good_start _
  | keep => exact ⟨by simpa using good.1, good.2.mono fun y inside => .inl (by simpa using inside)⟩
  | @drop next x kept todo dead =>
    refine ⟨((List.Sublist.refl kept).append (sublist_cons_self x todo)).trans good.1, ?_⟩
    apply good.2.mono
    intro y inside
    by_cases equal : y = x
    · exact .inr (equal ▸ dead)
    · left
      simpa [equal] using inside
  | maintain => exact ⟨.refl _, fun x inside => .inl (by simpa using inside)⟩
  | @sweepDead now x alive toClose toPing todo dead =>
    refine ⟨((List.Sublist.refl alive).append (sublist_cons_self x todo)).trans good.1, ?_⟩
    apply good.2.mono
    intro y inside
    by_cases equal : y = x
    · exact .inr (equal ▸ dead)
    · left
      simpa [equal] using inside
  | @sweepDue now x alive toClose toPing todo i _ _ _ =>
    refine ⟨((List.Sublist.refl alive).append (sublist_cons_self x todo)).trans good.1, ?_⟩
    exact good.2.mono fun y inside => .inl (by simpa using inside)
  | @sweepStay =>
    refine ⟨by simpa using good.1, good.2.mono fun y inside => .inl ?_⟩
    simp only [mem_append, mem_cons, not_mem_nil, or_false] at inside ⊢
    tauto
  | _ => trivial

end

/-! ## Slots -/

def dialSlot : Exit → Nat
  | .inr .dial => 1
  | .inr (.dialed _) => 1
  | _ => 0

def slot : Exit → Nat
  | .inl (.compact (.landed _) _ _) => 1
  | .inl (.full _) => 1
  | .inl _ => 0
  | .inr pc => dialSlot (.inr pc)

section

variable {p q : Pool} {cfg : Config} {t : Nat} {sec : Section} {pc : PC} {next : Exit}

theorem dialSlot_le_slot (e : Exit) : dialSlot e ≤ slot e := by
  rcases e with sec | pc
  · exact Nat.zero_le _
  · exact Nat.le_refl _

theorem Enter.slots (step : Enter p pc q next) :
    q.dialing + dialSlot (.inr pc) = p.dialing + dialSlot next ∧
      q.streams.length + slot next ≤ p.streams.length + slot (.inr pc) := by
  cases step with
  | remove => exact ⟨rfl, length_filter_le _ _⟩
  | _ => simp [dialSlot, slot, Pool.broadcast, Pool.closeStream, Pool.update]

theorem Outside.slots {next : PC} (step : Outside p pc q next) :
    slot (.inr next) = slot (.inr pc) ∧ dialSlot (.inr next) = dialSlot (.inr pc) := by
  cases step <;> exact ⟨rfl, rfl⟩

theorem Inside.slots (good : Good p t sec) (step : Inside cfg p t sec q next) :
    q.dialing + dialSlot (.inl sec) = p.dialing + dialSlot next ∧
      (q.streams.length + slot next ≤ p.streams.length + slot (.inl sec) ∨
        slot (.inl sec) = 0 ∧ slot next = 1 ∧ q.streams = p.streams ∧
          p.streams.length + p.dialing < cfg.maxOpen) := by
  cases step with
  | dial room => exact ⟨by simp [dialSlot], .inr ⟨rfl, rfl, rfl, room⟩⟩
  | landed _ =>
    have shorter := good.1.length_le
    refine ⟨rfl, .inl ?_⟩
    simpa [slot, dialSlot] using shorter
  | @compacted | noRoom | maintain =>
    have shorter := good.1.length_le
    exact ⟨rfl, .inl (by simpa [slot] using shorter)⟩
  | stats | swept =>
    have shorter := good.1.length_le
    exact ⟨rfl, .inl (by simpa [slot, dialSlot] using shorter)⟩
  | @keep next _ _ _ | @drop next _ _ _ _ => cases next <;> exact ⟨rfl, .inl (Nat.le_refl _)⟩
  | full => exact ⟨rfl, .inl (Nat.le_succ _)⟩
  | _ => exact ⟨rfl, .inl (Nat.le_refl _)⟩

end

/-! ## The whereabouts of the streams -/

def holds : Exit → List Nat
  | .inl (.compact (.landed x) _ _) => [x]
  | .inl (.full x) => [x]
  | .inr (.dialed (some x)) => [x]
  | .inr (.closing toClose _) => toClose
  | .inr (.taken streams) => streams
  | _ => []

def Pool.Placed (p : Pool) (x : Nat) (held : List Nat) : Prop :=
  p.alive x = false ∨ x ∈ p.streams ∨ x ∈ held

section

variable {p q : Pool} {cfg : Config} {t x : Nat} {sec : Section} {pc : PC} {next : Exit}

theorem Pool.Placed.apart (apart : p.Apart q) {held : List Nat} (placed : p.Placed x held) :
    q.Placed x held := by
  rcases placed with dead | listed | mine
  · exact .inl (apart.fades x dead)
  · exact .inr (.inl (apart.streams ▸ listed))
  · exact .inr (.inr mine)

theorem Enter.placed (known : x < p.table.length)
    (removing : ∀ y toPing, pc = .remove y toPing → p.alive y = false)
    (placed : p.Placed x (holds (.inr pc))) (step : Enter p pc q next) :
    q.Placed x (holds next) := by
  cases step with
  | close =>
    rcases placed with dead | listed | mine
    · exact .inl dead
    · exact .inr (.inr listed)
    · cases mine
  | @late y _ =>
    rcases placed with dead | listed | mine
    · exact .inl (Pool.fades_update (fun _ _ => rfl) y x dead)
    · exact .inr (.inl listed)
    · obtain rfl := mem_singleton.mp mine
      exact .inl (closeStream_alive known)
  | @remove y toPing =>
    rcases placed with dead | listed | mine
    · exact .inl dead
    · by_cases same : x = y
      · exact .inl (same ▸ removing y toPing rfl)
      · exact .inr (.inl (by simpa [same] using listed))
    · cases mine
  | _ => exact placed

theorem Inside.placed (known : x < p.table.length) (good : Good p t sec)
    (placed : p.Placed x (holds (.inl sec))) (step : Inside cfg p t sec q next) :
    q.Placed x (holds next) := by
  -- a list that accounts for the streams takes their place
  have relisted : ∀ xs ys, p.Listed xs → (∀ y ∈ xs, y ∈ ys ∨ y ∈ holds next) →
      holds (.inl sec) = [] → ({ p with streams := ys } : Pool).Placed x (holds next) := by
    intro xs ys listed covers none_
    rcases placed with dead | inside | mine
    · exact .inl dead
    · rcases listed x inside with kept | dead
      · exact .inr (covers x kept)
      · exact .inl dead
    · rw [none_] at mine
      cases mine
  cases step with
  | @keep next | @drop next => cases next <;> exact placed
  | compacted | maintain | stats =>
    exact relisted _ _ good.2 (fun y inside => .inl (by simpa using inside)) rfl
  | swept => exact relisted _ _ good.2 (fun y inside => by simpa [holds] using inside) rfl
  | landed =>
    rcases placed with dead | listed | mine
    · exact .inl dead
    · rcases good.2 x listed with kept | dead
      · exact .inr (.inl (by simp_all))
      · exact .inl dead
    · exact .inr (.inl (by simp_all [holds]))
  | noRoom =>
    rcases placed with dead | listed | mine
    · exact .inl dead
    · rcases good.2 x listed with kept | dead
      · exact .inr (.inl (by simpa using kept))
      · exact .inl dead
    · exact .inr (.inr mine)
  | @full y =>
    rcases placed with dead | listed | mine
    · exact .inl (Pool.fades_update (fun _ _ => rfl) y x dead)
    · exact .inr (.inl listed)
    · obtain rfl := mem_singleton.mp mine
      exact .inl (closeStream_alive known)
  | _ => exact placed

theorem Outside.placed {next : PC} (known : x < p.table.length)
    (placed : p.Placed x (holds (.inr pc))) (step : Outside p pc q next) :
    q.Placed x (holds (.inr next)) := by
  have later := placed.apart step.apart
  cases step with
  | @close | @take =>
    rcases later with dead | listed | mine
    · exact .inl dead
    · exact .inr (.inl listed)
    · rcases mem_cons.mp mine with rfl | rest
      · exact .inl (closeStream_alive known)
      · exact .inr (.inr rest)
  | dialed =>
    rcases later with dead | listed | mine
    · exact .inl dead
    · exact .inr (.inl listed)
    · cases mine
  | _ => exact later

end

/-! ## Runs -/

section

variable {cfg : Config} {ops : List Op} {s s' : Monitor.State Pool Section PC}
  {ok : Monitor.State Pool Section PC → Monitor.Label Act Env → Prop}

theorem good (reachable : (pool cfg ops).Reachable ok s) :
    ∀ t sec, s.threads[t]? = some (.inl sec) → Good s.data t sec := by
  apply sections (Q := Good) _ _ _ _ reachable
  · exact fun d t pc d' sec entered => (enter_cases entered).good
  · exact fun d t sec d' sec' holds moved => (inside_cases moved).good holds
  · exact fun d t pc act d' pc' j sec moved holds => good_apart (outside_cases moved).apart holds
  · exact fun d e d' j sec changed holds => good_apart (environment_apart changed) holds

structure Slotted (cfg : Config) (s : Monitor.State Pool Section PC) : Prop where
  dialing : s.data.dialing = (s.threads.map dialSlot).sum
  bound : s.data.streams.length + (s.threads.map slot).sum ≤ cfg.maxOpen

variable {t : Nat}

theorem Slotted.land (slotted : Slotted cfg s) {old next : Exit} {d : Pool}
    (at_ : s.threads[t]? = some old)
    (dialing : d.dialing + dialSlot old = s.data.dialing + dialSlot next)
    (bound : d.streams.length + slot next ≤ s.data.streams.length + slot old) :
    Slotted cfg (s.land t d next) := by
  have dials := sum_map_set dialSlot at_ next
  have slots := sum_map_set slot at_ next
  have before := slotted.dialing
  have within := slotted.bound
  constructor
  · change d.dialing = ((s.threads.set t next).map dialSlot).sum
    omega
  · change (d.streams.length : Int) + ((s.threads.set t next).map slot).sum ≤ cfg.maxOpen
    omega

theorem slots_eq_dials (exclusive : Exclusive s) {sec : Section}
    (at_ : s.threads[t]? = some (.inl sec)) (none_ : slot (.inl sec) = 0) :
    s.threads.map slot = s.threads.map dialSlot := by
  apply map_congr_left
  intro th inside
  obtain ⟨j, at_j⟩ := mem_iff_getElem?.mp inside
  rcases th with other | pc
  · have mine := exclusive t sec at_
    rw [exclusive j other at_j, Option.some.injEq] at mine
    subst mine
    rw [at_j, Option.some.injEq] at at_
    rw [at_, none_]
    rfl
  · rfl

section

variable (reachable : (pool cfg ops).Reachable ok s)
include reachable

theorem slotted : Slotted cfg s := by
  refine induct (I := Slotted cfg) ?_ ?_ reachable
  · rintro d pcs ⟨rfl, rfl⟩
    have none_ : ∀ f : Exit → Nat, (∀ op, f (.inr (.start op)) = 0) →
        (((ops.map PC.start).map Sum.inr : List Exit).map f).sum = 0 := by
      intro f zero
      rw [map_map, map_map]
      exact sum_eq_zero (by simp [zero])
    constructor
    · rw [none_ dialSlot fun _ => rfl]
      rfl
    · change ((0 : Nat) : Int) + _ ≤ cfg.maxOpen
      rw [none_ slot fun _ => rfl, Config.maxOpen]
      split <;> omega
  · intro s l s' there holds _ step
    cases step with
    | enter _ at_ entered =>
      have slots := (enter_cases entered).slots
      exact holds.land at_ slots.1 slots.2
    | @inside t sec d next at_ moved =>
      obtain ⟨dialing, kept | ⟨none_, one, same, room⟩⟩ :=
        (inside_cases moved).slots (good there t sec at_)
      · exact holds.land at_ dialing kept
      have dials := sum_map_set dialSlot at_ next
      have slots := sum_map_set slot at_ next
      have equal := slots_eq_dials (exclusion there) at_ none_
      have before := holds.dialing
      rw [equal] at slots
      constructor
      · change d.dialing = ((s.threads.set t next).map dialSlot).sum
        omega
      · change (d.streams.length : Int) + ((s.threads.set t next).map slot).sum ≤ cfg.maxOpen
        rw [same]
        omega
    | @outside t pc act d next at_ moved =>
      have step := outside_cases moved
      have dials := sum_map_set dialSlot at_ (.inr next)
      have slots := sum_map_set slot at_ (.inr next)
      have same := step.slots
      have before := holds.dialing
      have within := holds.bound
      have apart := step.apart
      constructor
      · change d.dialing = ((s.threads.set t (.inr next)).map dialSlot).sum
        rw [apart.dialing]
        omega
      · change (d.streams.length : Int) + ((s.threads.set t (.inr next)).map slot).sum ≤ _
        rw [apart.streams]
        omega
    | environment changed =>
      have apart := environment_apart changed
      exact ⟨apart.dialing.trans holds.dialing, by simpa [apart.streams] using holds.bound⟩

theorem not_full : ∀ th ∈ s.threads, ∀ x, th ≠ .inl (.full x) := by
  refine induct (I := fun s => ∀ th ∈ s.threads, ∀ x, th ≠ .inl (.full x)) ?_ ?_ reachable
  · rintro d pcs ⟨rfl, rfl⟩ th inside x full
    obtain ⟨pc, -, rfl⟩ := mem_map.mp inside
    cases full
  intro s l s' there holds _ step
  cases step with
  | enter _ _ entered =>
    apply forall_mem_set holds
    rintro x rfl
    cases enter_cases entered
  | @inside t sec d next at_ moved =>
    apply forall_mem_set holds
    rintro x rfl
    have fits := (good there t sec at_)
    have mine := le_sum_map slot at_
    have within := (slotted there).bound
    cases inside_cases moved with
    | noRoom =>
      have shorter := fits.1.length_le
      simp only [slot, append_nil] at mine shorter
      omega
  | outside =>
    apply forall_mem_set holds
    intro x full
    cases full
  | environment => exact holds

theorem removing :
    ∀ th ∈ s.threads, ∀ x toPing, th = .inr (.remove x toPing) → s.data.alive x = false := by
  refine induct (I := fun s => ∀ th ∈ s.threads, ∀ x toPing,
    th = .inr (.remove x toPing) → s.data.alive x = false) ?_ ?_ reachable
  · rintro d pcs ⟨rfl, rfl⟩ th inside x toPing remove
    obtain ⟨pc, there, rfl⟩ := mem_map.mp inside
    obtain ⟨op, -, rfl⟩ := mem_map.mp there
    cases remove
  · intro s l s' there holds _ step
    cases step with
    | enter _ _ entered =>
      have step := enter_cases entered
      apply forall_mem_set
      · exact fun th inside x toPing remove => step.fades x (holds th inside x toPing remove)
      · rintro x toPing rfl
        cases step
    | inside _ moved =>
      have step := inside_cases moved
      apply forall_mem_set
      · exact fun th inside x toPing remove => step.fades x (holds th inside x toPing remove)
      · rintro x toPing rfl
        cases step
    | outside at_ moved =>
      have step := outside_cases moved
      apply forall_mem_set
      · exact fun th inside x toPing remove =>
          step.apart.fades x (holds th inside x toPing remove)
      intro x toPing remove
      cases remove
      cases step with
      | pingFailed =>
        apply closeStream_alive
        exact (known there).threads _ (mem_of_getElem? at_) x (by simp [names, PC.names])
    | environment changed =>
      exact fun th inside x toPing remove =>
        (environment_apart changed).fades x (holds th inside x toPing remove)

end

def Accounted (s : Monitor.State Pool Section PC) : Prop :=
  ∀ x < s.data.table.length,
    s.data.alive x = false ∨ x ∈ s.data.streams ∨ ∃ th ∈ s.threads, x ∈ holds th

theorem accounted_set {x : Nat} {old next : Exit} {p q : Pool} {threads : List Exit}
    (at_ : threads[t]? = some old) (fades : p.Fades q)
    (own : p.Placed x (holds old) → q.Placed x (holds next))
    (before : p.alive x = false ∨ x ∈ p.streams ∨ ∃ th ∈ threads, x ∈ holds th) :
    q.alive x = false ∨ x ∈ q.streams ∨ ∃ th ∈ threads.set t next, x ∈ holds th := by
  have mine : q.Placed x (holds next) →
      q.alive x = false ∨ x ∈ q.streams ∨ ∃ th ∈ threads.set t next, x ∈ holds th := by
    rintro (dead | listed | held)
    · exact .inl dead
    · exact .inr (.inl listed)
    · exact .inr (.inr ⟨next, mem_set_of_some at_ next, held⟩)
  rcases before with dead | listed | held
  · exact .inl (fades x dead)
  · exact mine (own (.inr (.inl listed)))
  · rcases exists_mem_set at_ next held with here | there
    · exact mine (own (.inr (.inr here)))
    · exact .inr (.inr there)

theorem accounted (reachable : (pool cfg ops).Reachable ok s) : Accounted s := by
  refine induct (I := Accounted) ?_ ?_ reachable
  · rintro d pcs ⟨rfl, rfl⟩ x inside
    simp at inside
  intro s l s' there holds _ step x inside
  cases step with
  | @enter t pc d next _ at_ entered =>
    have step := enter_cases entered
    have within : x < s.data.table.length := step.length ▸ inside
    refine accounted_set at_ step.fades (fun placed => ?_) (holds x within)
    apply step.placed within _ placed
    rintro y toPing rfl
    exact removing there _ (mem_of_getElem? at_) y toPing rfl
  | @inside t sec d next at_ moved =>
    have step := inside_cases moved
    have within : x < s.data.table.length := step.length ▸ inside
    refine accounted_set at_ step.fades (fun placed => ?_) (holds x within)
    exact step.placed within (good there t sec at_) placed
  | @outside t pc act d next at_ moved =>
    have step := outside_cases moved
    by_cases within : x < s.data.table.length
    · exact accounted_set at_ step.apart.fades (fun placed => step.placed within placed)
        (holds x within)
    -- the stream has just been dialled
    change x < d.table.length at inside
    rcases step.length_cases with same | ⟨mine, longer⟩
    · omega
    · obtain rfl : x = s.data.table.length := by omega
      refine .inr (.inr ⟨_, mem_set_of_some at_ _, ?_⟩)
      simp [mine, StreamPool.holds]
  | environment changed =>
    have apart := environment_apart changed
    rcases holds x (environment_length changed ▸ inside) with dead | listed | held
    · exact .inl (apart.fades x dead)
    · exact .inr (.inl (apart.streams ▸ listed))
    · exact .inr (.inr held)

end

/-- In every state of a pool: with the mutex free the streams and the dials under way are
within the bound; no goroutine is in the branch for a pool that is full behind a dial; and
every stream ever dialled is in the list, closed, or in the hands of a goroutine that is
about to put it into the list or to close it. -/
theorem capacity (cfg : Config) (ops : List Op) (s : Monitor.State Pool Section PC)
    (reachable : (pool cfg ops).Reachable System.Any s) :
    (s.mutex = none → s.data.streams.length + s.data.dialing ≤ cfg.maxOpen) ∧
      (∀ th ∈ s.threads, ∀ x, th ≠ .inl (.full x)) ∧
      ∀ x < s.data.table.length,
        x ∈ s.data.streams ∨ s.data.alive x = false ∨ ∃ th ∈ s.threads, x ∈ holds th := by
  refine ⟨fun _ => ?_, not_full reachable, fun x inside => ?_⟩
  · have slotted := slotted reachable
    have fewer : (s.threads.map dialSlot).sum ≤ (s.threads.map slot).sum :=
      sum_le_sum fun th _ => dialSlot_le_slot th
    have dialing := slotted.dialing
    have bound := slotted.bound
    omega
  · rcases accounted reachable x inside with dead | listed | held
    · exact .inr (.inl dead)
    · exact .inl listed
    · exact .inr (.inr held)

/-- Two calls on a pool with room for one stream: the first dials, the second waits and
is given the same stream. -/
theorem capacity_one_stream :
    let cfg : Config := ⟨1, 0, 0, 0⟩
    ∃ s, (pool cfg [.call, .call]).Reachable System.Any s ∧ s.mutex = none ∧
      s.threads = [.inr (.got 0), .inr (.got 0)] ∧
      s.data.streams.length + s.data.dialing ≤ cfg.maxOpen := by
  intro cfg
  obtain ⟨s, reachable, free, got⟩ : ∃ s, (pool cfg [.call, .call]).Reachable System.Any s ∧
      s.mutex = none ∧ s.threads = [.inr (.got 0), .inr (.got 0)] :=
    System.exists_reachable [.lock 0, .go 0, .go 0, .go 0, .lock 1, .go 1, .go 1, .go 1, .go 1,
        .go 1, .run 0 (.dial true), .lock 0, .go 0,
        .lock 1, .go 1, .go 1, .go 1, .go 1, .go 1, .go 1]
      ⟨{}, [.start .call, .start .call], ⟨rfl, rfl⟩, rfl⟩ (by decide +kernel)
  exact ⟨s, reachable, free, got, (capacity cfg _ s reachable).1 free⟩

end Soil.Net.StreamPool
