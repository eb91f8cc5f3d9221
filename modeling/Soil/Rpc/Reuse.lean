import Soil.Rpc.Exchange

/-!
# Reusing connections

As long as nothing fails and every `Read` fills its buffer, the connections in the pool are
clean: nothing is left to read for the client, and at most one-way requests for the server.
-/

namespace Soil.Rpc.Exchange

open List Call Option Conn

open Soil.System

variable {Ty Val : Type}

/-! ## The server -/

structure OneWay (m : List Byte) : Prop where
  framed : Framed m
  silent : ∀ r, decodeRequest m = .ok r → r.ctx.oneWay = true

inductive Served (m rest : List Byte) (wire : Wire) : Wire → Prop
  | closed : Served m rest wire { wire with up := rest, closed := true }
  | silent (r : Request) (decoded : decodeRequest m = .ok r) (oneWay : r.ctx.oneWay = true) :
      Served m rest wire { wire with up := rest }
  | answered (r : Request) (reply : List Byte) (decoded : decodeRequest m = .ok r)
      (twoWay : r.ctx.oneWay = false) (framed : Framed reply) :
      Served m rest wire
        { wire with up := rest, down := wire.down ++ reply, log := wire.log ++ [(m, reply)] }

variable {server : Server Ty Val} {limit : Nat → Nat} {wire wire' : Wire} {m rest : List Byte}

theorem reply_framed {r : Request} {reply : List Byte} (run : server.reply r = .ok reply) :
    Framed reply := by
  obtain ⟨⟨response, err⟩, -, run⟩ := bind_eq_ok.mp run
  obtain ⟨errorInfo, -, run⟩ := bind_eq_ok.mp run
  exact encodeResponse_framed run

theorem handleMessage_cases (server : Server Ty Val) (m : List Byte) (conn : Conn) :
    (∃ p, server.handleMessage m conn = .panicked p) ∨ server.handleMessage m conn = .closed ∨
    (∃ r, decodeRequest m = .ok r ∧ r.ctx.oneWay = true ∧
      server.handleMessage m conn = .oneWay conn) ∨
    ∃ r reply, decodeRequest m = .ok r ∧ r.ctx.oneWay = false ∧ Framed reply ∧
      server.handleMessage m conn = .answered reply conn := by
  unfold Server.handleMessage
  cases decoded : decodeRequest m with
  | error p => exact .inl ⟨p, rfl⟩
  | ok r =>
    dsimp only
    unfold Server.handleRequest
    split
    · rename_i oneWay
      cases server.runOneWay r with
      | error p => exact .inl ⟨p, rfl⟩
      | ok => exact .inr (.inr (.inl ⟨r, rfl, oneWay, rfl⟩))
    · rename_i twoWay
      cases run : server.reply r with
      | error p => exact .inl ⟨p, rfl⟩
      | ok reply =>
        dsimp only
        split
        · exact .inr (.inr (.inr ⟨r, reply, rfl, Bool.not_eq_true _ ▸ twoWay, reply_framed run,
            rfl⟩))
        · exact .inr (.inl rfl)

theorem served (framed : Framed m) (up : wire.up = m ++ rest) (fills : ServerFills wire limit)
    (serve : wire.serve server limit = some wire') : Served m rest wire wire' := by
  obtain ⟨⟨first, -⟩, -, second⟩ := fills
  have long := framed.long
  have front : wire.up.take 8 = m.take 8 := by
    rw [up, take_append_of_le_length (by omega)]
  rw [front, announced_of_framed framed] at second
  have received : receiveRequestStream ⟨wire.up, limit⟩ =
      .ok (m, ⟨rest, fun i => limit (i + 2)⟩) :=
    receiveStream_of_full framed up first second
  rw [Wire.serve] at serve
  split at serve
  · cases serve
  rw [received] at serve
  dsimp only at serve
  rcases handleMessage_cases server m ⟨rest, fun i => limit (i + 2)⟩ with
    ⟨p, outcome⟩ | outcome | ⟨r, decoded, oneWay, outcome⟩ |
      ⟨r, reply, decoded, twoWay, framed', outcome⟩
  · rw [outcome] at serve
    cases serve
    exact .closed
  · rw [outcome] at serve
    cases serve
    exact .closed
  · rw [outcome] at serve
    cases serve
    exact .silent r decoded oneWay
  · rw [outcome] at serve
    cases serve
    exact .answered r reply decoded twoWay framed'

theorem not_fills_nil (empty : wire.up = []) : ¬ ServerFills wire limit := by
  rintro ⟨⟨-, enough⟩, -⟩
  rw [empty] at enough
  simp at enough

/-! ## Clean connections -/

structure Wire.Clean (wire : Wire) : Prop where
  up : ∃ ones : List (List Byte), wire.up = ones.flatten ∧ ∀ m ∈ ones, OneWay m
  down : wire.down = []
  spoiled : wire.spoiled = false

theorem Wire.Clean.serve (clean : wire.Clean) (fills : ServerFills wire limit)
    (serve : wire.serve server limit = some wire') : wire'.Clean ∧ wire'.log = wire.log := by
  obtain ⟨⟨ones, up, oneWays⟩, down, spoiled⟩ := clean
  cases ones with
  | nil => exact (not_fills_nil up fills).elim
  | cons m ones =>
    have first := oneWays m (mem_cons_self ..)
    have others : ∀ m ∈ ones, OneWay m :=
      fun m inside => oneWays m (mem_cons_of_mem _ inside)
    cases served first.framed up fills serve with
    | closed | silent => exact ⟨⟨⟨ones, rfl, others⟩, down, spoiled⟩, rfl⟩
    | answered r reply decoded twoWay =>
      cases (first.silent r decoded).symm.trans twoWay

/-! ## The phases of an exchange -/

structure Call.Good (c : Call) : Prop where
  framed : Framed c.bytes
  kind : ∀ r, decodeRequest c.bytes = .ok r → r.ctx.oneWay = c.request.ctx.oneWay

structure Asked (bytes : List Byte) (wire : Wire) (since : Nat) : Prop where
  up : ∃ ones : List (List Byte), wire.up = ones.flatten ++ bytes ∧ ∀ m ∈ ones, OneWay m
  down : wire.down = []
  log : since = wire.log.length

def Phase (c : Call) (wire : Wire) : PC → Prop
  | .write _ since => wire.Clean ∧ since = wire.log.length
  | .header _ since => c.request.ctx.oneWay = false ∧ wire.spoiled = false ∧
      (Asked c.bytes wire since ∨
        (wire.up = [] ∧ Framed wire.down ∧ wire.log[since]? = some (c.bytes, wire.down)) ∨
        wire.closed = true ∧ wire.down = [])
  | .rest _ since stream full => wire.spoiled = false ∧ wire.up = [] ∧ full = true ∧
      ∃ reply, Framed reply ∧ wire.down = reply.drop 8 ∧
        stream = reply.take 8 ++ List.replicate (reply.length - 8) 0 ∧
        wire.log[since]? = some (c.bytes, reply)
  | .put _ since result complete => complete = true ∧ wire.Clean ∧
      ∀ response, result = .ok response → wire.log[since]? = some (c.bytes, response)
  | .done _ since result =>
    ∀ response, result = .ok response → wire.log[since]? = some (c.bytes, response)
  | _ => True

theorem getElem?_append_of_some {α : Type} {xs ys : List α} {i : Nat} {x : α}
    (at_ : xs[i]? = some x) : (xs ++ ys)[i]? = some x := by
  rw [List.getElem?_append_left (List.getElem?_eq_some_iff.mp at_).1, at_]

theorem serve_log (serve : wire.serve server limit = some wire') :
    ∃ more, wire'.log = wire.log ++ more := by
  unfold Wire.serve at serve
  (repeat' split at serve) <;> cases serve <;>
    first | exact ⟨[], (append_nil _).symm⟩ | exact ⟨_, rfl⟩

theorem serve_closed (closed : wire.closed = true) : wire.serve server limit = none := by
  rw [Wire.serve, if_pos closed]

variable {since : Nat}

theorem Asked.serve {c : Call} (good : c.Good)
    (twoWay : c.request.ctx.oneWay = false) (asked : Asked c.bytes wire since)
    (fills : ServerFills wire limit) (serve : wire.serve server limit = some wire') :
    wire'.spoiled = wire.spoiled ∧ (Asked c.bytes wire' since ∨
      (wire'.up = [] ∧ Framed wire'.down ∧ wire'.log[since]? = some (c.bytes, wire'.down)) ∨
      wire'.closed = true ∧ wire'.down = []) := by
  obtain ⟨⟨ones, up, oneWays⟩, down, log⟩ := asked
  cases ones with
  | nil =>
    rw [flatten_nil, nil_append, ← append_nil c.bytes] at up
    cases served good.framed up fills serve with
    | closed => exact ⟨rfl, .inr (.inr ⟨rfl, down⟩)⟩
    | silent r decoded oneWay =>
      cases oneWay.symm.trans ((good.kind r decoded).trans twoWay)
    | answered r reply decoded _ framed =>
      refine ⟨rfl, .inr (.inl ⟨rfl, ?_, ?_⟩)⟩
      · rw [down]
        exact framed
      · rw [log, down]
        exact List.getElem?_concat_length
  | cons m ones =>
    have first := oneWays m (mem_cons_self ..)
    have others : ∀ m ∈ ones, OneWay m :=
      fun m inside => oneWays m (mem_cons_of_mem _ inside)
    rw [flatten_cons, append_assoc] at up
    cases served first.framed up fills serve with
    | closed | silent => exact ⟨rfl, .inl ⟨⟨ones, rfl, others⟩, down, log⟩⟩
    | answered r reply decoded twoWay' =>
      cases (first.silent r decoded).symm.trans twoWay'

variable {pc : PC}

theorem Phase.serve {c : Call} (good : c.Good) (phase : Phase c wire pc)
    (fills : ServerFills wire limit) (serve : wire.serve server limit = some wire') :
    Phase c wire' pc := by
  obtain ⟨more, grows⟩ := serve_log serve
  cases pc with
  | get | failed => trivial
  | write =>
    obtain ⟨clean, log⟩ := phase
    obtain ⟨clean', same⟩ := clean.serve fills serve
    exact ⟨clean', same ▸ log⟩
  | header =>
    obtain ⟨twoWay, spoiled, asked | ⟨up, -⟩ | ⟨closed, -⟩⟩ := phase
    · obtain ⟨same, next⟩ := asked.serve good twoWay fills serve
      exact ⟨twoWay, same.trans spoiled, next⟩
    · exact (not_fills_nil up fills).elim
    · rw [serve_closed closed] at serve
      cases serve
  | rest => exact (not_fills_nil phase.2.1 fills).elim
  | put =>
    obtain ⟨whole, clean, answer⟩ := phase
    obtain ⟨clean', same⟩ := clean.serve fills serve
    exact ⟨whole, clean', same ▸ answer⟩
  | done =>
    intro response ok
    rw [grows]
    exact getElem?_append_of_some (phase response ok)

theorem Phase.unspoiled {c : Call} {w : Nat} (phase : Phase c wire pc)
    (holds : pc.wire = some w) : wire.spoiled = false := by
  cases pc with
  | write => exact phase.1.spoiled
  | header => exact phase.2.1
  | rest => exact phase.1
  | put => exact phase.2.1.spoiled
  | get | done | failed => cases holds

theorem Phase.read_header {c : Call} {w k : Nat} (phase : Phase c wire (.header w since))
    (fills : Fills wire.down k 8) : ∃ stream bs conn,
      read ⟨wire.down, fun _ => k⟩ 8 = .ok (bs, conn) ∧ startStream (padTo 8 bs) = .ok stream ∧
      Phase c { wire with down := conn.bytes } (.rest w since stream (bs.length == 8)) := by
  obtain ⟨-, spoiled, asked | ⟨up, framed, log⟩ | ⟨-, down⟩⟩ := phase
  · simp [Fills, asked.down] at fills
  · have long := framed.long
    have eight : (wire.down.take 8).length = 8 := by
      rw [length_take]
      omega
    have length := announced_of_framed framed
    have read : read ⟨wire.down, fun _ => k⟩ 8 = .ok (wire.down.take 8, ⟨_, _⟩) :=
      read_full (take_append_drop 8 wire.down).symm eight (by omega) fills.1
    have stream : startStream (padTo 8 (wire.down.take 8)) =
        .ok (wire.down.take 8 ++ List.replicate (wire.down.length - 8) 0) := by
      rw [padTo_of_length eight, startStream_eq eight, length, if_pos (by omega)]
    refine ⟨_, _, _, read, stream, spoiled, up, ?_, _, framed, rfl, rfl, log⟩
    rw [eight]
    rfl
  · simp [Fills, down] at fills

theorem Phase.read_rest {c : Call} {w k : Nat} {stream : List Byte} {full : Bool}
    (phase : Phase c wire (.rest w since stream full))
    (fills : Fills wire.down k (stream.length - 8)) : ∃ bs conn,
      read ⟨wire.down, fun _ => k⟩ (stream.length - 8) = .ok (bs, conn) ∧
      Phase c { wire with down := conn.bytes } (.put w since (.ok (overwrite stream 8 bs))
        (full && bs.length == stream.length - 8)) := by
  obtain ⟨spoiled, up, rfl, reply, framed, down, rfl, log⟩ := phase
  have long := framed.long
  have eight : (reply.take 8).length = 8 := by
    rw [length_take]
    omega
  have size : (reply.take 8 ++ List.replicate (reply.length - 8) 0).length - 8 =
      (reply.drop 8).length := by
    rw [length_append, eight, length_replicate, length_drop]
    omega
  rw [size] at fills ⊢
  have read : read ⟨wire.down, fun _ => k⟩ (reply.drop 8).length =
      .ok (reply.drop 8, ⟨[], fun _ => k⟩) := by
    apply read_full _ rfl _ fills.1
    · rw [append_nil]
      exact down
    · rw [length_drop]
      omega
  refine ⟨_, _, read, ?_, ⟨⟨[], up, nofun⟩, rfl, spoiled⟩, ?_⟩
  · simp
  intro response same
  cases same
  have whole : overwrite (reply.take 8 ++ List.replicate (reply.length - 8) 0) 8 (reply.drop 8) =
      reply := by
    have frontier : overwrite (reply.take 8 ++ List.replicate (reply.length - 8) 0)
        (reply.take 8).length (reply.drop 8) = _ := overwrite_frontier
    rw [eight, take_append_drop, length_drop, Nat.sub_self] at frontier
    simpa using frontier
  rw [whole]
  exact log

/-! ## All connections -/

def PC.on : PC → Option Nat
  | .write w _ | .header w _ | .rest w _ _ _ | .put w _ _ _ | .done w _ _ => some w
  | _ => none

def Call.has (w : Nat) (c : Call) : Nat := if c.pc.wire = some w then 1 else 0

structure Inv (s : State) : Prop where
  users : ∀ w, s.idle.count w + (s.calls.map (Call.has w)).sum ≤ 1
  good : ∀ c ∈ s.calls, c.Good
  phase : ∀ c ∈ s.calls, ∀ w, c.pc.on = some w →
    ∃ wire, s.wires[w]? = some wire ∧ Phase c wire c.pc
  idle : ∀ w ∈ s.idle, ∃ wire, s.wires[w]? = some wire ∧ wire.Clean

variable {s s' : State} {i w : Nat} {c : Call}

theorem PC.on_of_wire (holds : pc.wire = some w) : pc.on = some w := by
  cases pc <;> first | exact holds | cases holds

theorem PC.done_of_on (on : pc.on = some w) :
    pc.wire = some w ∨ ∃ since result, pc = .done w since result := by
  cases pc with
  | done v since result =>
    cases on
    exact .inr ⟨since, result, rfl⟩
  | write | header | rest | put => exact .inl on
  | get | failed => cases on

theorem has_of_holds (holds : c.pc.wire = some w) (v : Nat) : c.has v = if v = w then 1 else 0 := by
  simp [has, holds, eq_comm]

theorem has_of_none (free : c.pc.wire = none) (v : Nat) : c.has v = 0 := by
  simp [has, free]

namespace Inv

variable (inv : Inv s) (at_ : s.calls[i]? = some c)

include inv at_

theorem not_idle (holds : c.pc.wire = some w) : w ∉ s.idle := by
  intro inside
  have one := count_pos_iff.mpr inside
  have share : c.has w ≤ _ := le_sum_map (has w) at_
  rw [has_of_holds holds, if_pos rfl] at share
  have := inv.users w
  omega

variable {d : Call} {j : Nat}

theorem alone (holds : c.pc.wire = some w) (there : s.calls[j]? = some d)
    (other : j ≠ i) : d.pc.wire ≠ some w := by
  intro holds'
  have shares := add_le_sum_map (has w) at_ there other.symm
  rw [has_of_holds holds, has_of_holds holds', if_pos rfl] at shares
  have := inv.users w
  omega

theorem others (holds : c.pc.wire = some w) (here : s.wires[w]? = some wire)
    (log : wire'.log = wire.log) (there : s.calls[j]? = some d)
    (other : j ≠ i) {v : Nat} (on : d.pc.on = some v) :
    ∃ wire, (s.wires.set w wire')[v]? = some wire ∧ Phase d wire d.pc := by
  obtain ⟨before, at_v, phase⟩ := inv.phase d (mem_of_getElem? there) v on
  by_cases same : v = w
  · subst same
    obtain rfl : before = wire := some.inj (at_v.symm.trans here)
    refine ⟨wire', getElem?_set_here here wire', ?_⟩
    rcases PC.done_of_on on with holds' | ⟨since, result, done⟩
    · exact (inv.alone at_ holds there other holds').elim
    · rw [done] at phase ⊢
      intro response ok
      rw [log]
      exact phase response ok
  · refine ⟨before, ?_, phase⟩
    rw [getElem?_set_of_some here, if_neg same]
    exact at_v

theorem users_of_le (calls : s'.calls = s.calls.set i { c with pc })
    (le : ∀ v, s'.idle.count v + has v { c with pc } ≤ s.idle.count v + c.has v) (v : Nat) :
    s'.idle.count v + (s'.calls.map (has v)).sum ≤ 1 := by
  have sum := sum_map_set (has v) at_ { c with pc }
  have before := inv.users v
  have now := le v
  rw [calls]
  omega

theorem of_turn (calls : s'.calls = s.calls.set i { c with pc })
    (users : ∀ v, s'.idle.count v + (s'.calls.map (has v)).sum ≤ 1)
    (others : ∀ j d, s.calls[j]? = some d → j ≠ i → ∀ v, d.pc.on = some v →
      ∃ wire, s'.wires[v]? = some wire ∧ Phase d wire d.pc)
    (phase : ∀ v, pc.on = some v → ∃ wire, s'.wires[v]? = some wire ∧ Phase c wire pc)
    (idle : ∀ v ∈ s'.idle, ∃ wire, s'.wires[v]? = some wire ∧ wire.Clean) : Inv s' := by
  refine ⟨users, ?_, ?_, idle⟩
  · rw [calls]
    have good := inv.good c (mem_of_getElem? at_)
    exact forall_mem_set inv.good ⟨good.framed, good.kind⟩
  rw [calls]
  intro d inside v on
  obtain ⟨j, there⟩ := mem_iff_getElem?.mp inside
  rcases getElem?_set_cases there with ⟨-, rfl⟩ | ⟨same, there⟩
  · exact phase v on
  · exact others j d there same v on

theorem hold (holds : c.pc.wire = some w) (here : s.wires[w]? = some wire)
    (phase : Phase c wire' pc) (log : wire'.log = wire.log) (holds' : pc.wire = some w)
    (calls : s'.calls = s.calls.set i { c with pc }) (wires : s'.wires = s.wires.set w wire')
    (idle : s'.idle = s.idle) : Inv s' := by
  apply inv.of_turn at_ calls
  · apply inv.users_of_le at_ calls
    intro v
    rw [idle, has_of_holds holds, has_of_holds holds']
  · intro j d there other v on
    rw [wires]
    exact inv.others at_ holds here log there other on
  · intro v on
    cases (PC.on_of_wire holds').symm.trans on
    rw [wires]
    exact ⟨wire', getElem?_set_here here wire', phase⟩
  · intro v inside
    rw [idle] at inside
    obtain ⟨other, there, clean⟩ := inv.idle v inside
    have apart : v ≠ w := by
      intro same
      exact inv.not_idle at_ holds (same ▸ inside)
    refine ⟨other, ?_, clean⟩
    rw [wires, getElem?_set_of_some here, if_neg apart]
    exact there

theorem release (holds : c.pc.wire = some w) (here : s.wires[w]? = some wire) (clean : wire.Clean)
    {result : Except CallErr (List Byte)} (phase : Phase c wire (.done w since result))
    (calls : s'.calls = s.calls.set i { c with pc := .done w since result })
    (wires : s'.wires = s.wires) (idle : s'.idle = s.idle ++ [w] ∨ s'.idle = s.idle) : Inv s' := by
  apply inv.of_turn at_ calls
  · apply inv.users_of_le at_ calls
    intro v
    rw [has_of_none rfl, has_of_holds holds]
    rcases idle with put | dropped
    · rw [put, count_append, count_singleton]
      by_cases same : v = w
      · simp [same]
      · simp [Ne.symm same]
    · rw [dropped]
      omega
  · intro j d there other v on
    rw [wires]
    exact inv.phase d (mem_of_getElem? there) v on
  · intro v on
    cases on
    rw [wires]
    exact ⟨wire, here, phase⟩
  · intro v inside
    rw [wires]
    rcases idle with put | dropped
    · rw [put] at inside
      rcases mem_append.mp inside with old | new
      · exact inv.idle v old
      · rw [mem_singleton.mp new]
        exact ⟨wire, here, clean⟩
    · rw [dropped] at inside
      exact inv.idle v inside

theorem take (free : c.pc = .get) (last : s.idle.getLast? = some w) (here : s.wires[w]? = some wire)
    (calls : s'.calls = s.calls.set i { c with pc := .write w wire.log.length })
    (wires : s'.wires = s.wires) (idle : s'.idle = s.idle.dropLast) : Inv s' := by
  have split_ : s.idle = s.idle.dropLast ++ [w] := (dropLast_append_getLast? w last).symm
  have clean : wire.Clean := by
    obtain ⟨wire', here', clean⟩ := inv.idle w (split_ ▸ mem_append_right _ (by simp))
    cases here.symm.trans here'
    exact clean
  apply inv.of_turn at_ calls
  · apply inv.users_of_le at_ calls
    intro v
    have unheld : c.pc.wire = none := by
      rw [free]
      rfl
    have counts := congrArg (List.count v) split_
    rw [count_append, count_singleton] at counts
    rw [has_of_none unheld, has_of_holds (w := w) rfl, idle]
    by_cases same : v = w
    · simp only [same, beq_self_eq_true, if_true] at counts ⊢
      omega
    · simp only [if_neg same]
      omega
  · intro j d there other v on
    rw [wires]
    exact inv.phase d (mem_of_getElem? there) v on
  · intro v on
    cases on
    rw [wires]
    exact ⟨wire, here, clean, rfl⟩
  · intro v inside
    rw [idle] at inside
    rw [wires]
    exact inv.idle v (dropLast_subset _ inside)

theorem dial (free : c.pc = .get)
    (calls : s'.calls = s.calls.set i { c with pc := .write s.wires.length 0 })
    (wires : s'.wires = s.wires ++ [({} : Wire)]) (idle : s'.idle = s.idle) : Inv s' := by
  have unheld : c.pc.wire = none := by
    rw [free]
    rfl
  have old {v : Nat} {wire : Wire} (there : s.wires[v]? = some wire) :
      s'.wires[v]? = some wire := by
    rw [wires]
    exact getElem?_append_of_some there
  -- nobody has the new connection yet
  have unused : s.idle.count s.wires.length = 0 ∧
      (s.calls.map (has s.wires.length)).sum = 0 := by
    constructor
    · apply count_eq_zero.mpr
      intro inside
      obtain ⟨wire, there, -⟩ := inv.idle _ inside
      simp at there
    · apply sum_eq_zero
      intro x inside
      obtain ⟨d, present, rfl⟩ := mem_map.mp inside
      apply if_neg
      intro holds
      obtain ⟨wire, there, -⟩ := inv.phase d present _ (PC.on_of_wire holds)
      simp at there
  apply inv.of_turn at_ calls
  · intro v
    have sum := sum_map_set (has v) at_ { c with pc := .write s.wires.length 0 }
    have before := inv.users v
    rw [has_of_none unheld, has_of_holds (w := s.wires.length) rfl] at sum
    rw [calls, idle]
    by_cases same : v = s.wires.length
    · subst same
      simp only [if_true] at sum
      omega
    · simp only [if_neg same] at sum
      omega
  · intro j d there other v on
    obtain ⟨wire, at_v, phase⟩ := inv.phase d (mem_of_getElem? there) v on
    exact ⟨wire, old at_v, phase⟩
  · intro v on
    cases on
    refine ⟨{}, ?_, ⟨⟨[], rfl, nofun⟩, rfl, rfl⟩, rfl⟩
    rw [wires]
    exact List.getElem?_concat_length
  · intro v inside
    rw [idle] at inside
    obtain ⟨wire, there, clean⟩ := inv.idle v inside
    exact ⟨wire, old there, clean⟩

theorem fail {err : CallErr} (calls : s'.calls = s.calls.set i { c with pc := .failed err })
    (wires : s'.wires = s.wires) (idle : s'.idle = s.idle) : Inv s' := by
  apply inv.of_turn at_ calls
  · apply inv.users_of_le at_ calls
    intro v
    rw [idle, has_of_none rfl]
    omega
  · intro j d there other v on
    rw [wires]
    exact inv.phase d (mem_of_getElem? there) v on
  · nofun
  · rw [idle, wires]
    exact inv.idle

end Inv

/-! ## Steps and runs -/

theorem Wire.Clean.write (w : Nat) (clean : wire.Clean) (good : c.Good)
    (log : since = wire.log.length) :
    (c.request.ctx.oneWay = true → Phase c { wire with up := wire.up ++ c.bytes }
      (.put w since (.error oneWayErr) true)) ∧
    (c.request.ctx.oneWay = false → Phase c { wire with up := wire.up ++ c.bytes }
      (.header w since)) := by
  obtain ⟨⟨ones, up, oneWays⟩, down, spoiled⟩ := clean
  constructor
  · intro oneWay
    refine ⟨rfl, ⟨⟨ones ++ [c.bytes], ?_, ?_⟩, down, spoiled⟩, nofun⟩
    · rw [up]
      simp
    · have last : OneWay c.bytes :=
        ⟨good.framed, fun r decoded => (good.kind r decoded).trans oneWay⟩
      exact forall_mem_append.mpr ⟨oneWays, forall_mem_singleton.mpr last⟩
  · intro twoWay
    exact ⟨twoWay, spoiled, .inl ⟨⟨ones, by rw [up], oneWays⟩, down, log⟩⟩

theorem Inv.turn {act : Act} (inv : Inv s) (at_ : s.calls[i]? = some c)
    (sound : s.turnSound c act) (step : s.turn i c act = some s') : Inv s' := by
  have phase := inv.phase c (mem_of_getElem? at_)
  have good := inv.good c (mem_of_getElem? at_)
  cases act with simp only [State.turn] at step
  | get =>
    split at step
    · rename_i w free last
      obtain ⟨wire, here, rfl⟩ := map_eq_some_iff.mp step
      exact inv.take at_ free last here rfl rfl rfl
    · cases step
  | dial =>
    split at step
    · rename_i ready
      cases step
      exact inv.dial at_ ready.1 rfl rfl rfl
    · cases step
  | getFail =>
    split at step
    · cases step
      exact inv.fail at_ rfl rfl rfl
    · cases step
  | write broken =>
    cases broken with
    | some => exact sound.elim
    | none =>
      simp only [State.turn] at step
      split at step
      · rename_i w since pc
        cases step
        rw [pc] at phase
        obtain ⟨wire, here, clean, log⟩ := phase w rfl
        have holds : c.pc.wire = some w := by
          rw [pc]
          rfl
        have written := clean.write w good log
        split
        · rename_i oneWay
          exact inv.hold at_ holds here (written.1 oneWay) rfl rfl rfl (modify_eq_set here) rfl
        · rename_i twoWay
          exact inv.hold at_ holds here (written.2 (Bool.not_eq_true _ ▸ twoWay)) rfl rfl rfl
            (modify_eq_set here) rfl
      · cases step
  | read limit =>
    split at step
    · rename_i w since pc
      rw [pc] at phase
      obtain ⟨wire, here, before⟩ := phase w rfl
      have holds : c.pc.wire = some w := by
        rw [pc]
        rfl
      simp only [State.turnSound, pc] at sound
      obtain ⟨stream, bs, conn, read, start, after⟩ := before.read_header (sound wire here)
      rw [here, bind_some, read] at step
      simp only [start] at step
      cases step
      exact inv.hold at_ holds here after rfl rfl rfl (modify_eq_set here) rfl
    · rename_i w since stream full pc
      rw [pc] at phase
      obtain ⟨wire, here, before⟩ := phase w rfl
      have holds : c.pc.wire = some w := by
        rw [pc]
        rfl
      simp only [State.turnSound, pc] at sound
      obtain ⟨bs, conn, read, after⟩ := before.read_rest (sound wire here)
      rw [here, bind_some, read] at step
      cases step
      exact inv.hold at_ holds here after rfl rfl rfl (modify_eq_set here) rfl
    · cases step
  | readFail => exact sound.elim
  | put =>
    split at step
    · rename_i w since result complete pc
      rw [pc] at phase
      obtain ⟨wire, here, rfl, clean, answer⟩ := phase w rfl
      have holds : c.pc.wire = some w := by
        rw [pc]
        rfl
      have wires : s.wires.modify w (fun wire => { wire with spoiled := wire.spoiled || !true }) =
          s.wires := by
        rw [modify_eq_set here, Bool.not_true, Bool.or_false]
        exact set_self here
      split at step <;> cases step
      · exact inv.release at_ holds here clean answer rfl wires (.inl rfl)
      · exact inv.release at_ holds here clean answer rfl wires (.inr rfl)
    · cases step

theorem good_of_encoded {request : Request} {bytes : List Byte} (measured : request.Measured)
    (small : request.encodedLength < 4294967296) (separable : request.Separable)
    (encoded : encodeRequest request = .ok bytes) : Call.Good { request, bytes } := by
  refine ⟨encodeRequest_framed encoded, ?_⟩
  rw [encodeRequest_eq measured (by omega)] at encoded
  cases encoded
  intro r decoded
  obtain ⟨r', decoded', -, -, -, entries, -⟩ := decodeRequest_encoded measured separable
  cases decoded.symm.trans decoded'
  have same (key : List Byte) : r.meta_.get key = request.meta_.get key := by
    rw [Meta.get, Meta.get, entries]
  simp [Request.ctx, same]

theorem Inv.serve {w : Nat} (inv : Inv s) (here : s.wires[w]? = some wire)
    (fills : ServerFills wire limit) (serve : wire.serve server limit = some wire') :
    Inv { s with wires := s.wires.set w wire' } := by
  have at_ (v : Nat) : (s.wires.set w wire')[v]? = if v = w then some wire' else s.wires[v]? :=
    getElem?_set_of_some here v
  refine ⟨inv.users, inv.good, ?_, ?_⟩
  · intro c inside v on
    obtain ⟨before, there, phase⟩ := inv.phase c inside v on
    by_cases same : v = w
    · subst same
      cases here.symm.trans there
      exact ⟨wire', by rw [at_, if_pos rfl], phase.serve (inv.good c inside) fills serve⟩
    · exact ⟨before, by rw [at_, if_neg same, there], phase⟩
  · intro v inside
    obtain ⟨before, there, clean⟩ := inv.idle v inside
    by_cases same : v = w
    · subst same
      cases here.symm.trans there
      exact ⟨wire', by rw [at_, if_pos rfl], (clean.serve fills serve).1⟩
    · exact ⟨before, by rw [at_, if_neg same, there], clean⟩

theorem Inv.keeps {l : Label Ty Val} (inv : Inv s) (sound : Sound s l)
    (step : s.step l = some s') : Inv s' := by
  unfold State.step at step
  split at step
  · cases step
  cases l with
  | call request =>
    dsimp only at step
    split at step
    · rename_i bytes encoded
      cases step
      have good := good_of_encoded sound.1 sound.2.1 sound.2.2 encoded
      refine ⟨?_, ?_, ?_, inv.idle⟩
      · intro w
        have before := inv.users w
        rw [map_append, sum_append]
        simpa [has, PC.wire] using before
      · exact forall_mem_append.mpr ⟨inv.good, forall_mem_singleton.mpr good⟩
      · exact forall_mem_append.mpr ⟨inv.phase, forall_mem_singleton.mpr nofun⟩
    · cases step
  | expire k =>
    dsimp only at step
    split at step
    · cases step
      refine ⟨?_, inv.good, inv.phase, ?_⟩
      · intro w
        have fewer := (eraseIdx_sublist s.idle k).count_le w
        exact (Nat.add_le_add_right fewer _).trans (inv.users w)
      · intro w inside
        exact inv.idle w ((eraseIdx_sublist s.idle k).subset inside)
    · cases step
  | go =>
    obtain ⟨c, at_, turn⟩ := bind_eq_some_iff.mp step
    exact inv.turn at_ (sound c at_) turn
  | serve =>
    obtain ⟨wire, here, step⟩ := bind_eq_some_iff.mp step
    obtain ⟨wire', serve, rfl⟩ := map_eq_some_iff.mp step
    exact inv.serve here (sound wire here) serve

theorem newClient_inv : Inv newClient := by
  refine ⟨?_, nofun, nofun, ?_⟩
  · intro w
    by_cases zero : 0 = w <;> simp [newClient, zero]
  · intro w inside
    obtain rfl : w = 0 := by simpa [newClient] using inside
    exact ⟨{}, rfl, ⟨[], rfl, nofun⟩, rfl, rfl⟩

/-- If nothing fails and every `Read` fills its buffer, then a connection that a call has taken
has seen complete exchanges only, and a call returns the first answer the server has given on
its connection since, which is the answer to its request. -/
theorem connection_reuse (reachable : (client Ty Val).Reachable Sound s) :
    (∀ c ∈ s.calls, ∀ w, c.pc.wire = some w →
      ∃ wire, s.wires[w]? = some wire ∧ wire.spoiled = false) ∧
    ∀ c ∈ s.calls, ∀ w since response, c.pc = .done w since (.ok response) →
      ∃ wire, s.wires[w]? = some wire ∧ wire.log[since]? = some (c.bytes, response) := by
  have inv : Inv s := by
    apply reachable.induct (I := Inv)
    · intro s start
      rw [start]
      exact newClient_inv
    · intro s l s' inv sound step
      exact inv.keeps sound step
  constructor
  · intro c inside w holds
    obtain ⟨wire, here, phase⟩ := inv.phase c inside w (PC.on_of_wire holds)
    exact ⟨wire, here, phase.unspoiled holds⟩
  · intro c inside w since response done
    obtain ⟨wire, here, phase⟩ := inv.phase c inside w (by rw [done]; rfl)
    rw [done] at phase
    exact ⟨wire, here, phase response rfl⟩

/-! ## Two runs -/

instance (r : Request) : Decidable r.Measured :=
  decidable_of_iff (_ ∧ _) ⟨fun ⟨head, body⟩ => ⟨head, body⟩, fun h => ⟨h.head, h.body⟩⟩

instance (r : Request) : Decidable r.Separable :=
  decidable_of_iff (_ ∧ _ ∧ _ ∧ _) ⟨fun ⟨service, method, keys, values⟩ =>
    ⟨service, method, keys, values⟩, fun h => ⟨h.serviceName, h.methodName, h.keys, h.values⟩⟩

instance (s : State) (c : Call) (act : Act) : Decidable (s.turnSound c act) := by
  unfold State.turnSound
  split
  · split <;> infer_instance
  all_goals infer_instance

instance (wire : Wire) (limit : Nat → Nat) : Decidable (ServerFills wire limit) :=
  inferInstanceAs (Decidable (_ ∧ _))

instance (s : State) (l : Label Ty Val) : Decidable (Sound s l) := by
  cases l <;> unfold Sound <;> infer_instance

def noService : Server Unit Unit where
  services _ := none

def emptyReply : List Byte := [0, 0, 0, 15, 0, 0, 0, 0, 0, 0, 0, 0, 0, 0, 0]

def oddRequest : Request :=
  Request.calculateBodyLength (Request.calculateHeadLength
    { serviceName := emptyReply, methodName := [113] })

/-- A call that gets its answer. -/
theorem connection_reuse_ping : ∃ s : State, ∃ c ∈ s.calls, ∃ response,
    c.bytes = pingBytes ∧ c.pc = .done 0 0 (.ok response) ∧
      ∃ wire, s.wires[0]? = some wire ∧ wire.log[0]? = some (pingBytes, response) := by
  obtain ⟨s, reachable, c, inside, bytes, response, -, done⟩ : ∃ s, (client Unit Unit).Reachable
      Sound s ∧ ∃ c ∈ s.calls, c.bytes = pingBytes ∧ ∃ response ∈ s.wires.head?.bind
        fun wire => wire.log.head?.map Prod.snd, c.pc = .done 0 0 (.ok response) :=
    exists_reachable [.call pingRequest, .go 0 .get, .go 0 (.write none),
      .serve 0 noService (fun _ => 99), .go 0 (.read 99), .go 0 (.read 99), .go 0 .put] rfl
      (by decide +kernel)
  obtain ⟨wire, here, log⟩ := (connection_reuse reachable).2 c inside 0 0 response done
  exact ⟨s, c, inside, response, bytes, done, wire, here, bytes ▸ log⟩

def shortRead : List (Label Unit Unit) :=
  [.call oddRequest, .go 0 .get, .go 0 (.write none), .serve 0 noService (fun _ => 99),
    .go 0 (.read 7), .go 0 (.read 20), .go 0 .put, .call pingRequest, .go 1 .get]

/-- The connection is taken after an exchange that did not run to completion, and before the
server has answered the second call, that call takes what was left for its response. -/
theorem short_read_reused :
    (∃ s, (client Unit Unit).Reachable Any s ∧ ∃ c ∈ s.calls, ∃ wire,
      c.pc.wire = some 0 ∧ s.wires[0]? = some wire ∧ wire.spoiled = true) ∧
    ∃ s, (client Unit Unit).Reachable Any s ∧ ∃ c ∈ s.calls, ∃ wire,
      c.pc = .done 0 1 (.ok emptyReply) ∧ s.wires[0]? = some wire ∧ wire.log[1]? = none := by
  constructor
  · obtain ⟨s, reachable, c, inside, wire, here, taken, spoiled⟩ : ∃ s,
        (client Unit Unit).Reachable Any s ∧ ∃ c ∈ s.calls, ∃ wire ∈ s.wires[0]?,
          c.pc.wire = some 0 ∧ wire.spoiled = true :=
      exists_reachable shortRead rfl (by decide +kernel)
    exact ⟨s, reachable, c, inside, wire, taken, here, spoiled⟩
  · obtain ⟨s, reachable, c, inside, wire, here, done, none⟩ : ∃ s,
        (client Unit Unit).Reachable Any s ∧ ∃ c ∈ s.calls, ∃ wire ∈ s.wires[0]?,
          c.pc = .done 0 1 (.ok emptyReply) ∧ wire.log[1]? = none :=
      exists_reachable (shortRead ++
        [.go 1 (.write none), .go 1 (.read 7), .go 1 (.read 6), .go 1 .put]) rfl (by decide +kernel)
    exact ⟨s, reachable, c, inside, wire, done, here, none⟩

end Soil.Rpc.Exchange
