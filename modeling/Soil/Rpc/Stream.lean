import Soil.Rpc.Message

/-!
# Receiving messages from a connection

`ReceiveRequestStream` and `ReceiveResponseStream` call `conn.Read` once for the
eight length bytes and once for the rest, and use the buffers as if `Read` had
filled them.
-/

namespace Soil.Rpc

open List

/-! ## Connections -/

/-- The reading side of a connection: the bytes still to come, after which the peer
closes, and how many bytes at most each further `Read` returns, beyond the first. -/
structure Conn where
  bytes : List Byte
  limit : Nat → Nat

inductive Fault where
  | eof
  | panic (p : Panic)
  deriving DecidableEq, Repr

def Conn.read (conn : Conn) (n : Nat) : Except Fault (List Byte × Conn) :=
  if n = 0 then .ok ([], conn)
  else if conn.bytes = [] then .error .eof
  else
    let k := min n (conn.limit 0 + 1)
    .ok (conn.bytes.take k, ⟨conn.bytes.drop k, fun i => conn.limit (i + 1)⟩)

def orPanic {α : Type} : Except Panic α → Except Fault α
  | .ok a => .ok a
  | .error p => .error (.panic p)

def announced (length : List Byte) : Nat :=
  (UInt32.ofNat (getBE (length.take 4)) + UInt32.ofNat (getBE (length.drop 4))).toNat

def startStream (length : List Byte) : Except Panic (List Byte) := do
  let stream ← copyTo (List.replicate (announced length) 0) 0 4 (length.take 4)
  copyTo stream 4 8 (length.drop 4)

def receiveStream (conn : Conn) : Except Fault (List Byte × Conn) := do
  let (bs, conn) ← conn.read 8
  -- the count `Read` returned is ignored: the bytes it did not fill are zero
  let stream ← orPanic (startStream (padTo 8 bs))
  let (bs, conn) ← conn.read (stream.length - 8)
  .ok (overwrite stream 8 bs, conn)

def receiveRequestStream (conn : Conn) : Except Fault (List Byte × Conn) := receiveStream conn

def receiveResponseStream (conn : Conn) : Except Fault (List Byte × Conn) := receiveStream conn

def receiveN (receive : Conn → Except Fault (List Byte × Conn)) :
    Nat → Conn → Except Fault (List (List Byte) × Conn)
  | 0, conn => .ok ([], conn)
  | n + 1, conn => do
      let (m, conn) ← receive conn
      let (ms, conn) ← receiveN receive n conn
      .ok (m :: ms, conn)

/-! ## One call -/

variable {n : Nat} {bs : List Byte}

theorem Conn.read_eq_ok {conn conn' : Conn} (run : conn.read n = .ok (bs, conn')) :
    conn.bytes = bs ++ conn'.bytes ∧ bs.length ≤ n ∧
      (0 < n → bs.length = min (min n (conn.limit 0 + 1)) conn.bytes.length ∧
        conn'.limit = fun i => conn.limit (i + 1)) := by
  unfold Conn.read at run
  split at run
  · cases run
    exact ⟨rfl, by simp, by omega⟩
  split at run
  · cases run
  · cases run
    refine ⟨(take_append_drop _ _).symm, ?_, fun _ => ⟨length_take, rfl⟩⟩
    rw [length_take]
    omega

theorem Conn.read_eq_error {conn : Conn} {e : Fault} (run : conn.read n = .error e) : e = .eof := by
  unfold Conn.read at run
  split at run
  · cases run
  · split at run
    · cases run
      rfl
    · cases run

variable {rest : List Byte}

theorem Conn.read_full {conn : Conn} (bytes : conn.bytes = bs ++ rest) (length : bs.length = n)
    (some_ : 0 < n) (full : n ≤ conn.limit 0 + 1) :
    conn.read n = .ok (bs, ⟨rest, fun i => conn.limit (i + 1)⟩) := by
  have nonempty : conn.bytes ≠ [] := by
    intro empty
    have total := congrArg List.length bytes
    simp only [empty, length_nil, length_append] at total
    omega
  subst length
  rw [Conn.read, if_neg (Nat.ne_of_gt some_), if_neg nonempty, Nat.min_eq_left full, bytes]
  simp

theorem announced_eq (length : List Byte) :
    announced length = (getBE (length.take 4) + getBE (length.drop 4)) % 2 ^ 32 := by
  simp [announced]

theorem startStream_eq {length : List Byte} (eight : length.length = 8) : startStream length =
      if 8 ≤ announced length then .ok (length ++ List.replicate (announced length - 8) 0)
      else .error .sliceBounds := by
  have head : (length.take 4).length = 4 := by rw [length_take]; omega
  have tail : (length.drop 4).length = 4 := by rw [length_drop]; omega
  unfold startStream
  generalize announced length = n
  have start : (0 : Nat) = ([] : List Byte).length := rfl
  rw [← nil_append (List.replicate n 0), copyTo_frontier start (by omega)]
  by_cases short : 4 ≤ n
  · rw [head, if_pos short]
    simp only [bind, Except.bind, nil_append]
    rw [copyTo_frontier (by omega) (by omega), tail, take_append_drop, Nat.sub_sub]
    congr 1
    exact propext ⟨fun fits => by omega, fun fits => by omega⟩
  · rw [head, if_neg short, if_neg (by omega)]
    rfl

theorem receiveStream_eq (conn : Conn) :
    receiveStream conn = (do
      let (bs, conn) ← conn.read 8
      let n := announced (padTo 8 bs)
      if 8 ≤ n then do
        let (rest, conn) ← conn.read (n - 8)
        .ok (padTo 8 bs ++ padTo (n - 8) rest, conn)
      else .error (.panic .sliceBounds)) := by
  unfold receiveStream
  cases first : conn.read 8 with
  | error => rfl
  | ok out =>
    obtain ⟨bs, conn₁⟩ := out
    have eight : (padTo 8 bs).length = 8 := padTo_length (Conn.read_eq_ok first).2.1
    simp only [bind, Except.bind, startStream_eq eight]
    generalize padTo 8 bs = length at eight
    by_cases room : 8 ≤ announced length
    · simp only [if_pos room, orPanic, length_append, length_replicate, eight,
        Nat.add_sub_cancel_left]
      cases conn₁.read (announced length - 8) with
      | error => rfl
      | ok =>
        dsimp only
        rw [← eight, overwrite_frontier, padTo, append_assoc]
    · simp [if_neg room, orPanic]

theorem receiveStream_eq_ok {conn conn' : Conn} {m : List Byte}
    (run : receiveStream conn = .ok (m, conn')) :
    ∃ bs conn₁ rest, conn.read 8 = .ok (bs, conn₁) ∧ 8 ≤ announced (padTo 8 bs) ∧
      conn₁.read (announced (padTo 8 bs) - 8) = .ok (rest, conn') ∧
      m = padTo 8 bs ++ padTo (announced (padTo 8 bs) - 8) rest := by
  rw [receiveStream_eq] at run
  obtain ⟨⟨bs, conn₁⟩, first, run⟩ := bind_eq_ok.mp run
  dsimp only at run
  split at run
  · obtain ⟨⟨rest, conn₂⟩, second, run⟩ := bind_eq_ok.mp run
    cases run
    exact ⟨bs, conn₁, rest, first, ‹_›, second, rfl⟩
  · cases run

/-! ## Repeated calls -/

def Delivers (receive : Conn → Except Fault (List Byte × Conn)) (conn : Conn)
    (ms : List (List Byte)) : Prop :=
  ∀ k ≤ ms.length, ∃ conn', receiveN receive k conn = .ok (ms.take k, conn') ∧
    conn'.bytes = (ms.drop k).flatten

def FullReads (limit : Nat → Nat) (ms : List (List Byte)) : Prop :=
  ∀ i m, ms[i]? = some m → 8 ≤ limit (2 * i) + 1 ∧ m.length - 8 ≤ limit (2 * i + 1) + 1

variable {m : List Byte} {ms : List (List Byte)} {conn conn' : Conn} {limit : Nat → Nat}

theorem fullReads_cons : FullReads limit (m :: ms) ↔
    (8 ≤ limit 0 + 1 ∧ m.length - 8 ≤ limit 1 + 1) ∧ FullReads (fun i => limit (i + 2)) ms := by
  constructor
  · intro full
    refine ⟨full 0 m rfl, fun i m' found => ?_⟩
    have := full (i + 1) m' (by simpa using found)
    simpa [Nat.mul_add] using this
  · rintro ⟨head, tail⟩ i m' found
    cases i with
    | zero =>
      cases found
      exact head
    | succ i =>
      have := tail i m' (by simpa using found)
      simpa [Nat.mul_add] using this

theorem announced_of_framed (framed : Framed m) : announced (m.take 8) = m.length := by
  rw [announced_eq, framed.announced, take_take, drop_take]
  rfl

theorem receiveStream_of_full (framed : Framed m) (bytes : conn.bytes = m ++ rest)
    (first : 8 ≤ conn.limit 0 + 1) (second : m.length - 8 ≤ conn.limit 1 + 1) :
    receiveStream conn = .ok (m, ⟨rest, fun i => conn.limit (i + 2)⟩) := by
  have long := framed.long
  have eight : (m.take 8).length = 8 := by rw [length_take]; omega
  have left : (m.drop 8).length = m.length - 8 := length_drop
  have split : conn.bytes = m.take 8 ++ (m.drop 8 ++ rest) := by
    rw [← append_assoc, take_append_drop, bytes]
  have head := Conn.read_full split eight (by omega) first
  have tail : (⟨m.drop 8 ++ rest, fun i => conn.limit (i + 1)⟩ : Conn).read (m.length - 8) =
      .ok (m.drop 8, ⟨rest, fun i => conn.limit (i + 2)⟩) :=
    Conn.read_full rfl left (by omega) second
  rw [receiveStream_eq, head]
  simp only [bind, Except.bind, padTo_of_length eight, announced_of_framed framed, tail,
    padTo_of_length left, take_append_drop]
  rw [if_pos (by omega)]

theorem full_of_receiveStream (framed : Framed m)
    (bytes : conn.bytes = m ++ rest) (run : receiveStream conn = .ok (m, conn'))
    (taken : conn'.bytes = rest) : 8 ≤ conn.limit 0 + 1 ∧ m.length - 8 ≤ conn.limit 1 + 1 := by
  obtain ⟨bs, conn₁, more, first, room, second, built⟩ := receiveStream_eq_ok run
  obtain ⟨split, short, exact₁⟩ := Conn.read_eq_ok first
  obtain ⟨split', short', exact₂⟩ := Conn.read_eq_ok second
  have length : m.length = announced (padTo 8 bs) := by
    rw [built, length_append, padTo_length short, padTo_length short']
    omega
  have total : bs.length + more.length = m.length := by
    have := congrArg List.length (bytes.symm.trans split)
    rw [split', taken] at this
    simp only [length_append] at this
    omega
  have long := framed.long
  obtain ⟨-, shift⟩ := exact₁ (by omega)
  obtain ⟨count', -⟩ := exact₂ (by omega)
  simp only [shift, Nat.zero_add] at count'
  omega

variable {receive : Conn → Except Fault (List Byte × Conn)}

theorem receiveN_succ {k : Nat} {out : List (List Byte)} :
    receiveN receive (k + 1) conn = .ok (out, conn') ↔ ∃ m conn₁ rest,
      receive conn = .ok (m, conn₁) ∧ receiveN receive k conn₁ = .ok (rest, conn') ∧
        out = m :: rest := by
  constructor
  · intro run
    obtain ⟨⟨m, conn₁⟩, call, run⟩ := bind_eq_ok.mp run
    obtain ⟨⟨rest, conn₂⟩, calls, run⟩ := bind_eq_ok.mp run
    cases run
    exact ⟨m, conn₁, rest, call, calls, rfl⟩
  · rintro ⟨m, conn₁, rest, call, calls, rfl⟩
    exact bind_eq_ok.mpr ⟨_, call, bind_eq_ok.mpr ⟨_, calls, rfl⟩⟩

theorem delivers_cons (bytes : conn.bytes = (m :: ms).flatten) : Delivers receive conn (m :: ms) ↔
      ∃ conn₁, receive conn = .ok (m, conn₁) ∧ conn₁.bytes = ms.flatten ∧
        Delivers receive conn₁ ms := by
  constructor
  · intro delivers
    obtain ⟨conn', run, taken⟩ := delivers 1 (by simp)
    obtain ⟨m', conn₁, rest, call, calls, out⟩ := receiveN_succ.mp run
    cases calls
    cases out
    refine ⟨conn', call, taken, fun k short => ?_⟩
    obtain ⟨last, run, taken⟩ := delivers (k + 1) (by simpa using short)
    obtain ⟨m', conn₂, rest, call', calls, out⟩ := receiveN_succ.mp run
    rw [call] at call'
    cases call'
    cases out
    exact ⟨last, calls, by simpa using taken⟩
  · rintro ⟨conn₁, call, taken, delivers⟩ k short
    cases k with
    | zero => exact ⟨conn, rfl, bytes⟩
    | succ k =>
      obtain ⟨last, run, taken⟩ := delivers k (by simpa using short)
      exact ⟨last, receiveN_succ.mpr ⟨m, conn₁, _, call, run, rfl⟩, by simpa using taken⟩

theorem delivers_iff_fullReads (framed : ∀ m ∈ ms, Framed m) (bytes : conn.bytes = ms.flatten) :
    Delivers receiveStream conn ms ↔ FullReads conn.limit ms := by
  induction ms generalizing conn with
  | nil =>
    refine iff_of_true (fun k short => ?_) (by simp [FullReads])
    obtain rfl : k = 0 := by simpa using short
    exact ⟨conn, rfl, bytes⟩
  | cons m ms ih =>
    have head : Framed m := framed m (by simp)
    have later : ∀ m ∈ ms, Framed m := fun m mem => framed m (by simp [mem])
    rw [fullReads_cons, delivers_cons bytes]
    constructor
    · rintro ⟨conn₁, call, taken, delivers⟩
      have full := full_of_receiveStream head bytes call taken
      rw [receiveStream_of_full head bytes full.1 full.2] at call
      cases call
      exact ⟨full, (ih later rfl).mp delivers⟩
    · rintro ⟨⟨first, second⟩, tail⟩
      exact ⟨_, receiveStream_of_full head bytes first second, rfl, (ih later rfl).mpr tail⟩

/-- Requests, and likewise responses, written back to back: repeated calls return the
encoded messages in order, each without touching the next, exactly when every `Read`
fills its buffer. -/
theorem receive_iff_fullReads (ms : List (List Byte)) (limit : Nat → Nat) :
    ((∀ m ∈ ms, ∃ r, encodeRequest r = .ok m) →
      (Delivers receiveRequestStream ⟨ms.flatten, limit⟩ ms ↔ FullReads limit ms)) ∧
    ((∀ m ∈ ms, ∃ r, encodeResponse r = .ok m) →
      (Delivers receiveResponseStream ⟨ms.flatten, limit⟩ ms ↔ FullReads limit ms)) := by
  refine ⟨fun encoded => ?_, fun encoded => ?_⟩
  · refine delivers_iff_fullReads (fun m mem => ?_) rfl
    obtain ⟨r, run⟩ := encoded m mem
    exact encodeRequest_framed run
  · refine delivers_iff_fullReads (fun m mem => ?_) rfl
    obtain ⟨r, run⟩ := encoded m mem
    exact encodeResponse_framed run

/-! ## Two messages on the wire -/

def pingRequest : Request :=
  Request.calculateBodyLength (Request.calculateHeadLength
    { serviceName := [112], methodName := [113], data := [1] })

def pingBytes : List Byte :=
  [0, 0, 0, 19, 0, 0, 0, 1, 0, 0, 0, 0, 0, 0, 0, 112, 10, 113, 10, 1]

def pongResponse : Response :=
  Response.calculateBodyLength (Response.calculateHeadLength { errorInfo := [33], data := [2, 3] })

def pongBytes : List Byte := [0, 0, 0, 16, 0, 0, 0, 2, 0, 0, 0, 0, 0, 0, 0, 33, 2, 3]

theorem encodeRequest_ping : encodeRequest pingRequest = .ok pingBytes := by decide

theorem encodeResponse_pong : encodeResponse pongResponse = .ok pongBytes := by decide

theorem receive_iff_fullReads_hundred :
    Delivers receiveRequestStream ⟨[pingBytes, pingBytes].flatten, fun _ => 99⟩
      [pingBytes, pingBytes] ∧
    Delivers receiveResponseStream ⟨[pongBytes, pongBytes].flatten, fun _ => 99⟩
      [pongBytes, pongBytes] := by
  constructor
  · refine ((receive_iff_fullReads _ _).1 fun m mem => ⟨pingRequest, ?_⟩).mpr fun i m found => ?_
    · simp only [mem_cons, not_mem_nil, or_false, or_self] at mem
      rw [mem, encodeRequest_ping]
    · obtain rfl : m = pingBytes := by simpa using mem_of_getElem? found
      decide
  · refine ((receive_iff_fullReads _ _).2 fun m mem => ⟨pongResponse, ?_⟩).mpr fun i m found => ?_
    · simp only [mem_cons, not_mem_nil, or_false, or_self] at mem
      rw [mem, encodeResponse_pong]
    · obtain rfl : m = pongBytes := by simpa using mem_of_getElem? found
      decide

/-- Reads of four bytes: the second half of the length is taken for the start of the
message, and the call returns other bytes than were sent. -/
theorem receive_four_byte_reads : (∃ r, encodeRequest r = .ok pingBytes) ∧
    ¬ Delivers receiveRequestStream ⟨[pingBytes].flatten, fun _ => 3⟩ [pingBytes] := by
  refine ⟨⟨pingRequest, encodeRequest_ping⟩, fun delivers => ?_⟩
  obtain ⟨conn', run, -⟩ := delivers 1 (by decide)
  have returned : (receiveN receiveRequestStream 1
      ⟨[pingBytes].flatten, fun _ => 3⟩).toOption.map Prod.fst = some [pingBytes] := by
    rw [run]
    rfl
  exact absurd returned (by decide)

end Soil.Rpc
