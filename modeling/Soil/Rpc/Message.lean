import Soil.Basic
import Soil.Bytes

/-!
# RPC messages

`message.Request` and `message.Response` with their encoders and decoders.  A
message starts with fifteen fixed bytes; the two lengths in it are 32-bit numbers
whose sum wraps.  Every slice and index expression of the code checks its bounds
and panics outside them.
-/

namespace Soil.Rpc

open List Cursor

def bytesOf (s : String) : List Byte := utf8 s

def newline : Byte := 10

def carriage : Byte := 13

/-! ## Messages -/

structure Fixed where
  headLength : UInt32 := 0
  bodyLength : UInt32 := 0
  messageID : UInt32 := 0
  version : Byte := 0
  compressor : Byte := 0
  serializer : Byte := 0
  deriving DecidableEq, Repr

structure Meta where
  entries : List (List Byte × List Byte)
  nodup : (entries.map Prod.fst).Nodup

def Meta.empty : Meta := ⟨[], nodup_nil⟩

def Meta.get (m : Meta) (key : List Byte) : Option (List Byte) := m.entries.lookup key

def Meta.insert (m : Meta) (key value : List Byte) : Meta where
  entries := m.entries.filter (·.1 ≠ key) ++ [(key, value)]
  nodup := by
    rw [map_append, nodup_append]
    refine ⟨m.nodup.sublist (filter_sublist.map Prod.fst), by simp, ?_⟩
    intro k mem k' mem' same
    obtain ⟨entry, kept, rfl⟩ := mem_map.mp mem
    have other : entry.1 ≠ key := by simpa using (mem_filter.mp kept).2
    exact other (same.trans (by simpa using mem'))

structure Request extends Fixed where
  serviceName : List Byte := []
  methodName : List Byte := []
  meta_ : Meta := Meta.empty
  data : List Byte := []

structure Response extends Fixed where
  errorInfo : List Byte := []
  data : List Byte := []

def Request.calculateHeadLength (r : Request) : Request :=
  { r with
    headLength := r.meta_.entries.foldl
      (fun n e => n + UInt32.ofNat (e.1.length + 1 + e.2.length + 1))
      (UInt32.ofNat (15 + r.serviceName.length + 1 + r.methodName.length + 1)) }

def Request.calculateBodyLength (r : Request) : Request :=
  { r with bodyLength := UInt32.ofNat r.data.length }

def Response.calculateHeadLength (r : Response) : Response :=
  { r with headLength := UInt32.ofNat (15 + r.errorInfo.length) }

def Response.calculateBodyLength (r : Response) : Response :=
  { r with bodyLength := UInt32.ofNat r.data.length }

/-! ## Encoding -/

structure Cursor where
  buf : List Byte
  pos : Nat

def Cursor.copyAll (c : Cursor) (data : List Byte) : Except Panic Cursor := do
  let buf ← copyTo c.buf c.pos (c.pos + data.length) data
  .ok { c with buf }

def Cursor.advance (c : Cursor) (n : Nat) : Except Panic Cursor :=
  if c.pos + n ≤ c.buf.length then .ok { c with pos := c.pos + n } else .error .sliceBounds

def Cursor.push (c : Cursor) (b : Byte) : Except Panic Cursor := do
  let buf ← store c.buf c.pos b
  Cursor.advance { c with buf } 1

def Cursor.copyRest (c : Cursor) (data : List Byte) : Cursor :=
  { c with buf := overwrite c.buf c.pos (data.take (c.buf.length - c.pos)) }

def moveForward (c : Cursor) (offset : Nat) : Except Panic Cursor := do
  let c ← c.advance offset
  c.push newline

def Fixed.encode (h : Fixed) : Except Panic Cursor := do
  let buf := List.replicate (h.headLength + h.bodyLength).toNat 0
  let buf ← copyTo buf 0 4 (putBE 4 h.headLength.toNat)
  let buf ← copyTo buf 4 8 (putBE 4 h.bodyLength.toNat)
  let buf ← copyTo buf 8 12 (putBE 4 h.messageID.toNat)
  let buf ← store buf 12 h.version
  let buf ← store buf 13 h.compressor
  let buf ← store buf 14 h.serializer
  Cursor.advance ⟨buf, 0⟩ 15

def encodeMeta (c : Cursor) : List (List Byte × List Byte) → Except Panic Cursor
  | [] => .ok c
  | (key, value) :: rest => do
      let c ← c.copyAll key
      let c ← c.advance key.length
      let c ← c.push carriage
      let c ← c.copyAll value
      let c ← moveForward c value.length
      encodeMeta c rest

def encodeRequest (r : Request) : Except Panic (List Byte) := do
  let c ← r.toFixed.encode
  let c ← c.copyAll r.serviceName
  let c ← moveForward c r.serviceName.length
  let c ← c.copyAll r.methodName
  let c ← moveForward c r.methodName.length
  let c ← encodeMeta c r.meta_.entries
  .ok (if 0 < r.bodyLength then c.copyRest r.data else c).buf

def encodeResponse (r : Response) : Except Panic (List Byte) := do
  let c ← r.toFixed.encode
  let c ← c.copyAll r.errorInfo
  let c ← c.advance r.errorInfo.length
  .ok (c.copyRest r.data).buf

/-! ## Decoding -/

def Fixed.decode (data : List Byte) : Except Panic Fixed := do
  let head ← slice data 0 4
  let body ← slice data 4 8
  let id ← slice data 8 12
  let version ← index data 12
  let compressor ← index data 13
  let serializer ← index data 14
  .ok
    { headLength := UInt32.ofNat (getBE head), bodyLength := UInt32.ofNat (getBE body),
      messageID := UInt32.ofNat (getBE id), version, compressor, serializer }

def decodeMeta : Nat → List Byte → Meta → Except Panic Meta
  | 0, _, m => .ok m
  | fuel + 1, header, m =>
    let i := indexByte header newline
    if i = -1 then .ok m
    else do
      let pair ← slice header 0 i
      let pairSeparate := indexByte pair carriage
      let key ← slice pair 0 pairSeparate
      let value ← slice pair (pairSeparate + 1) pair.length
      let header ← slice header (i + 1) header.length
      decodeMeta fuel header (m.insert key value)

def Fixed.body (fixed : Fixed) (data : List Byte) : Except Panic (List Byte) :=
  if 0 < fixed.bodyLength then slice data fixed.headLength.toNat data.length else .ok []

def decodeRequest (data : List Byte) : Except Panic Request := do
  let fixed ← Fixed.decode data
  let header ← slice data 15 fixed.headLength.toNat
  let i := indexByte header newline
  let serviceName ← slice header 0 i
  let header ← slice header (i + 1) header.length
  let i := indexByte header newline
  let methodName ← slice header 0 i
  let header ← slice header (i + 1) header.length
  let meta_ ← decodeMeta header.length header Meta.empty
  let body ← fixed.body data
  .ok { fixed with serviceName, methodName, meta_, data := body }

def decodeResponse (data : List Byte) : Except Panic Response := do
  let fixed ← Fixed.decode data
  let header ← slice data 15 fixed.headLength.toNat
  let body ← fixed.body data
  .ok { fixed with errorInfo := header, data := body }

/-! ## What an encoder writes

The writes of an encoder stay at the frontier between what it has written and the
zero bytes of its fresh buffer. -/

def Cursor.frontier (done : List Byte) (k : Nat) : Cursor :=
  ⟨done ++ List.replicate k 0, done.length⟩

open Cursor

open Fixed

section

variable {done data : List Byte} {k : Nat} {c : Cursor}

theorem Cursor.advance_eq_ok {n : Nat} {c' : Cursor} (run : c.advance n = .ok c') :
    c' = ⟨c.buf, c.pos + n⟩ := by
  unfold advance at run
  split at run
  · cases run; rfl
  · cases run

theorem Cursor.copyAll_advance_frontier
    (run : (do let c ← (Cursor.frontier done k).copyAll data; c.advance data.length) = .ok c) :
    data.length ≤ k ∧ c = Cursor.frontier (done ++ data) (k - data.length) := by
  obtain ⟨c₁, copied, moved⟩ := bind_eq_ok.mp run
  obtain ⟨buf, written, made⟩ := bind_eq_ok.mp copied
  cases made
  obtain ⟨fits, rfl⟩ := copyTo_frontier_ok rfl rfl written
  rw [advance_eq_ok moved]
  exact ⟨fits, by simp [Cursor.frontier]⟩

theorem Cursor.push_frontier {b : Byte} (run : (Cursor.frontier done k).push b = .ok c) :
    1 ≤ k ∧ c = Cursor.frontier (done ++ [b]) (k - 1) := by
  obtain ⟨buf, written, moved⟩ := bind_eq_ok.mp run
  obtain ⟨room, rfl⟩ := store_frontier_ok rfl written
  rw [advance_eq_ok moved]
  exact ⟨room, by simp [Cursor.frontier]⟩

theorem Cursor.part_frontier
    (run : (do let c ← (Cursor.frontier done k).copyAll data; moveForward c data.length) = .ok c) :
    data.length + 1 ≤ k ∧
      c = Cursor.frontier (done ++ (data ++ [newline])) (k - (data.length + 1)) := by
  obtain ⟨c₁, copied, moved⟩ := bind_eq_ok.mp run
  obtain ⟨c₂, moved, pushed⟩ := bind_eq_ok.mp moved
  obtain ⟨fits, rfl⟩ := copyAll_advance_frontier (bind_eq_ok.mpr ⟨c₁, copied, moved⟩)
  obtain ⟨room, rfl⟩ := push_frontier pushed
  refine ⟨by omega, ?_⟩
  rw [append_assoc, Nat.sub_sub]

theorem encodeMeta_frontier {entries : List (List Byte × List Byte)}
    (run : encodeMeta (Cursor.frontier done k) entries = .ok c) :
    ∃ more k', c = Cursor.frontier (done ++ more) k' ∧ k = more.length + k' := by
  induction entries generalizing done k with
  | nil =>
    cases run
    exact ⟨[], k, by simp, by simp⟩
  | cons entry rest ih =>
    obtain ⟨key, value⟩ := entry
    obtain ⟨c₁, copied, run⟩ := bind_eq_ok.mp run
    obtain ⟨c₂, moved, run⟩ := bind_eq_ok.mp run
    obtain ⟨c₃, pushed, run⟩ := bind_eq_ok.mp run
    obtain ⟨c₄, copied', run⟩ := bind_eq_ok.mp run
    obtain ⟨c₅, moved', run⟩ := bind_eq_ok.mp run
    obtain ⟨fits, rfl⟩ := copyAll_advance_frontier (bind_eq_ok.mpr ⟨c₁, copied, moved⟩)
    obtain ⟨room, rfl⟩ := push_frontier pushed
    obtain ⟨fits', rfl⟩ := part_frontier (bind_eq_ok.mpr ⟨c₄, copied', moved'⟩)
    obtain ⟨more, k', rfl, total⟩ := ih run
    refine ⟨key ++ [carriage] ++ (value ++ [newline]) ++ more, k', by simp, ?_⟩
    simp only [length_append, length_singleton]
    omega

def Fixed.bytes (h : Fixed) : List Byte :=
  putBE 4 h.headLength.toNat ++ putBE 4 h.bodyLength.toNat ++ putBE 4 h.messageID.toNat ++
    [h.version] ++ [h.compressor] ++ [h.serializer]

variable {h : Fixed}

theorem Fixed.encode_frontier (run : h.encode = .ok c) : 15 ≤ (h.headLength + h.bodyLength).toNat ∧
      c = Cursor.frontier h.bytes ((h.headLength + h.bodyLength).toNat - 15) := by
  obtain ⟨b₁, head, run⟩ := bind_eq_ok.mp run
  obtain ⟨b₂, body, run⟩ := bind_eq_ok.mp run
  obtain ⟨b₃, id, run⟩ := bind_eq_ok.mp run
  obtain ⟨b₄, version, run⟩ := bind_eq_ok.mp run
  obtain ⟨b₅, compressor, run⟩ := bind_eq_ok.mp run
  obtain ⟨b₆, serializer, run⟩ := bind_eq_ok.mp run
  rw [← nil_append (List.replicate _ _)] at head
  obtain ⟨_, rfl⟩ := copyTo_frontier_ok rfl (by simp) head
  obtain ⟨_, rfl⟩ := copyTo_frontier_ok (by simp) (by simp) body
  obtain ⟨_, rfl⟩ := copyTo_frontier_ok (by simp) (by simp) id
  obtain ⟨_, rfl⟩ := store_frontier_ok (by simp) version
  obtain ⟨_, rfl⟩ := store_frontier_ok (by simp) compressor
  obtain ⟨_, rfl⟩ := store_frontier_ok (by simp) serializer
  simp only [putBE_length] at *
  rw [Cursor.advance_eq_ok run]
  refine ⟨by omega, ?_⟩
  simp only [Cursor.frontier, bytes, nil_append, Cursor.mk.injEq]
  exact ⟨by congr 2, by simp⟩

theorem Cursor.copyAll_frontier_of_le (done : List Byte) (fits : data.length ≤ k) :
    (do let c ← (Cursor.frontier done k).copyAll data; c.advance data.length) =
      .ok (Cursor.frontier (done ++ data) (k - data.length)) := by
  have copied : copyTo (done ++ List.replicate k 0) done.length (done.length + data.length) data =
      .ok ((done ++ data) ++ List.replicate (k - data.length) 0) := by
    rw [copyTo_frontier rfl rfl, if_pos fits]
  simp [copyAll, advance, Cursor.frontier, copied, bind, Except.bind]

theorem Fixed.encode_of_le (long : 15 ≤ (h.headLength + h.bodyLength).toNat) :
    h.encode = .ok (Cursor.frontier h.bytes ((h.headLength + h.bodyLength).toNat - 15)) := by
  have copied (done : List Byte) {data : List Byte} {k lo hi : Nat} (start : lo = done.length)
      (stop : hi = lo + data.length) (fits : data.length ≤ k) :
      copyTo (done ++ List.replicate k 0) lo hi data =
        .ok ((done ++ data) ++ List.replicate (k - data.length) 0) := by
    rw [copyTo_frontier start stop, if_pos fits]
  have stored {done : List Byte} {k i : Nat} {b : Byte} (start : i = done.length) (fits : 1 ≤ k) :
      store (done ++ List.replicate k 0) i b =
        .ok ((done ++ [b]) ++ List.replicate (k - 1) 0) := by
    rw [store_frontier start, if_pos fits]
  refine bind_eq_ok.mpr ⟨_, copied [] rfl (by simp) (by simp only [putBE_length]; omega), ?_⟩
  refine bind_eq_ok.mpr ⟨_, copied _ (by simp) (by simp) (by simp only [putBE_length]; omega), ?_⟩
  refine bind_eq_ok.mpr ⟨_, copied _ (by simp) (by simp) (by simp only [putBE_length]; omega), ?_⟩
  refine bind_eq_ok.mpr ⟨_, stored (by simp) (by simp only [putBE_length]; omega), ?_⟩
  refine bind_eq_ok.mpr ⟨_, stored (by simp) (by simp only [putBE_length]; omega), ?_⟩
  refine bind_eq_ok.mpr ⟨_, stored (by simp) (by simp only [putBE_length]; omega), ?_⟩
  have size : (h.headLength + h.bodyLength).toNat - 4 - 4 - 4 - 1 - 1 - 1 =
      (h.headLength + h.bodyLength).toNat - 15 := by omega
  simp only [putBE_length, size, advance, Cursor.frontier, bytes, nil_append]
  rw [if_pos]
  · simp
  · simp only [length_append, putBE_length, length_singleton, length_replicate]
    omega

end

/-! ## Framing -/

structure Framed (bs : List Byte) : Prop where
  long : 15 ≤ bs.length
  announced : bs.length = (getBE (bs.take 4) + getBE ((bs.drop 4).take 4)) % 2 ^ 32

theorem framed_of_bytes {h : Fixed} {more : List Byte}
    (size : 15 + more.length = (h.headLength + h.bodyLength).toNat) : Framed (h.bytes ++ more) := by
  have length : (h.bytes ++ more).length = 15 + more.length := by
    simp only [bytes, length_append, putBE_length, length_singleton]
  have head : (h.bytes ++ more).take 4 = putBE 4 h.headLength.toNat := by simp [bytes]
  have body : ((h.bytes ++ more).drop 4).take 4 = putBE 4 h.bodyLength.toNat := by
    simp [bytes]
  refine ⟨by omega, ?_⟩
  rw [length, head, body, getBE_putBE_of_lt h.headLength.toNat_lt,
    getBE_putBE_of_lt h.bodyLength.toNat_lt, size, UInt32.toNat_add]

theorem Cursor.copyRest_frontier (done data : List Byte) (k : Nat) :
    ∃ more, ((Cursor.frontier done k).copyRest data).buf = done ++ more ∧ more.length = k := by
  refine ⟨data.take k ++ List.replicate (k - (data.take k).length) 0, ?_, ?_⟩
  · simp [copyRest, Cursor.frontier, overwrite_frontier]
  · simp only [length_append, length_take, length_replicate]
    omega

variable {r : Request} {bs : List Byte}

theorem encodeRequest_framed (run : encodeRequest r = .ok bs) : Framed bs := by
  obtain ⟨c₀, fixed, run⟩ := bind_eq_ok.mp run
  obtain ⟨c₁, copied, run⟩ := bind_eq_ok.mp run
  obtain ⟨c₂, moved, run⟩ := bind_eq_ok.mp run
  obtain ⟨c₃, copied', run⟩ := bind_eq_ok.mp run
  obtain ⟨c₄, moved', run⟩ := bind_eq_ok.mp run
  obtain ⟨c₅, entries, run⟩ := bind_eq_ok.mp run
  cases run
  obtain ⟨-, rfl⟩ := encode_frontier fixed
  obtain ⟨-, rfl⟩ := part_frontier (bind_eq_ok.mpr ⟨c₁, copied, moved⟩)
  obtain ⟨room', rfl⟩ := part_frontier (bind_eq_ok.mpr ⟨c₃, copied', moved'⟩)
  obtain ⟨more, k, rfl, total⟩ := encodeMeta_frontier entries
  split
  · obtain ⟨rest, written, size⟩ := copyRest_frontier
      (r.toFixed.bytes ++ (r.serviceName ++ [newline]) ++ (r.methodName ++ [newline]) ++ more)
      r.data k
    rw [written, append_assoc, append_assoc, append_assoc]
    refine framed_of_bytes ?_
    simp only [length_append, length_singleton]
    omega
  · simp only [Cursor.frontier, append_assoc]
    refine framed_of_bytes ?_
    simp only [length_append, length_singleton, length_replicate]
    omega

theorem encodeResponse_framed {r : Response} (run : encodeResponse r = .ok bs) : Framed bs := by
  obtain ⟨c₀, fixed, run⟩ := bind_eq_ok.mp run
  obtain ⟨c₁, copied, run⟩ := bind_eq_ok.mp run
  obtain ⟨c₂, moved, run⟩ := bind_eq_ok.mp run
  cases run
  obtain ⟨long, rfl⟩ := encode_frontier fixed
  obtain ⟨room, rfl⟩ := copyAll_advance_frontier (bind_eq_ok.mpr ⟨c₁, copied, moved⟩)
  obtain ⟨rest, written, size⟩ := copyRest_frontier (r.toFixed.bytes ++ r.errorInfo)
    r.data ((r.headLength + r.bodyLength).toNat - 15 - r.errorInfo.length)
  rw [written, append_assoc]
  refine framed_of_bytes ?_
  simp only [length_append]
  omega

/-! ## What a decoder accepts -/

def fixedOf (data : List Byte) : Fixed where
  headLength := UInt32.ofNat (getBE (data.take 4))
  bodyLength := UInt32.ofNat (getBE ((data.drop 4).take 4))
  messageID := UInt32.ofNat (getBE ((data.drop 8).take 4))
  version := data.getD 12 0
  compressor := data.getD 13 0
  serializer := data.getD 14 0

def headerOf (data : List Byte) : List Byte :=
  (data.take (fixedOf data).headLength.toNat).drop 15

structure WellFormed (data : List Byte) : Prop where
  long : 15 ≤ data.length
  lower : 15 ≤ (fixedOf data).headLength.toNat
  upper : (fixedOf data).headLength.toNat ≤ data.length
  names : 2 ≤ (closedLines newline (headerOf data)).length
  pairs : ∀ line ∈ (closedLines newline (headerOf data)).drop 2, carriage ∈ line

def Meta.addLine (m : Meta) (line : List Byte) : Meta :=
  match cut carriage line with
  | some (key, value) => m.insert key value
  | none => m

def requestOf (data : List Byte) : Request :=
  let lines := closedLines newline (headerOf data)
  { fixedOf data with
    serviceName := lines.getD 0 []
    methodName := lines.getD 1 []
    meta_ := (lines.drop 2).foldl Meta.addLine Meta.empty
    data := if 0 < (fixedOf data).bodyLength then data.drop (fixedOf data).headLength.toNat
      else [] }

variable {data : List Byte}

theorem Fixed.decode_of_long (long : 15 ≤ data.length) : decode data = .ok (fixedOf data) := by
  have head := slice_of_le data (Nat.zero_le 4) (by omega)
  have body := slice_of_le data (show 4 ≤ 8 by omega) (by omega)
  have id := slice_of_le data (show 8 ≤ 12 by omega) (by omega)
  simp only [Nat.cast_zero, Nat.cast_ofNat] at head body id
  simp only [decode, head, body, id, index_of_lt (show 12 < data.length by omega),
    index_of_lt (show 13 < data.length by omega), index_of_lt (show 14 < data.length by omega)]
  simp [bind, Except.bind, fixedOf, drop_take]

variable {fixed : Fixed}

theorem Fixed.decode_eq_ok
    (run : decode data = .ok fixed) : 15 ≤ data.length ∧ fixed = fixedOf data := by
  obtain ⟨_, _, rest⟩ := bind_eq_ok.mp run
  obtain ⟨_, _, rest⟩ := bind_eq_ok.mp rest
  obtain ⟨_, _, rest⟩ := bind_eq_ok.mp rest
  obtain ⟨_, _, rest⟩ := bind_eq_ok.mp rest
  obtain ⟨_, _, rest⟩ := bind_eq_ok.mp rest
  obtain ⟨_, last, _⟩ := bind_eq_ok.mp rest
  have long : 15 ≤ data.length := index_eq_ok last
  rw [decode_of_long long] at run
  exact ⟨long, (Except.ok.inj run).symm⟩

theorem decodeMeta_eq {fuel : Nat} {header : List Byte} {m : Meta} (enough : header.length ≤ fuel) :
    decodeMeta fuel header m = if ∀ line ∈ closedLines newline header, carriage ∈ line then
        .ok ((closedLines newline header).foldl Meta.addLine m) else .error .sliceBounds := by
  induction fuel generalizing header m with
  | zero =>
    obtain rfl : header = [] := eq_nil_of_length_eq_zero (by omega)
    simp [decodeMeta, closedLines]
  | succ fuel ih =>
    cases split : cut newline header with
    | none =>
      have absent := cut_eq_none.mp split
      simp [decodeMeta, indexByte_of_not_mem absent, closedLines_of_not_mem absent]
    | some parts =>
      obtain ⟨line, rest⟩ := parts
      obtain ⟨first, second⟩ := slice_cut split
      have shorter : rest.length ≤ fuel := by
        have := cut_length split
        omega
      rw [decodeMeta, if_neg (indexByte_of_cut split), closedLines_of_cut split]
      simp only [first, second, bind, Except.bind]
      cases pair : cut carriage line with
      | none =>
        have unpaired : ¬ carriage ∈ line := cut_eq_none.mp pair
        simp [slice_cut_none pair, unpaired]
      | some parts =>
        obtain ⟨key, value⟩ := parts
        obtain ⟨left, right⟩ := slice_cut pair
        have paired : carriage ∈ line := by
          by_contra absent
          rw [cut_eq_none.mpr absent] at pair
          cases pair
        simp [left, right, ih shorter, paired, Meta.addLine, pair]

theorem Fixed.body_of_le (upper : fixed.headLength.toNat ≤ data.length) : fixed.body data =
      .ok (if 0 < fixed.bodyLength then data.drop fixed.headLength.toNat else []) := by
  unfold body
  split
  · rw [slice_of_le data upper le_rfl, take_length]
  · rfl

theorem wellFormed_of_decodeRequest (run : decodeRequest data = .ok r) : WellFormed data := by
  obtain ⟨fixed, decoded, run⟩ := bind_eq_ok.mp run
  obtain ⟨long, rfl⟩ := decode_eq_ok decoded
  obtain ⟨header, inside, run⟩ := bind_eq_ok.mp run
  obtain ⟨lower, upper, rfl⟩ := slice_eq_ok inside
  obtain ⟨service, first, run⟩ := bind_eq_ok.mp run
  obtain ⟨rest, second, run⟩ := bind_eq_ok.mp run
  obtain ⟨method, third, run⟩ := bind_eq_ok.mp run
  obtain ⟨tail, fourth, run⟩ := bind_eq_ok.mp run
  obtain ⟨meta_, loop, run⟩ := bind_eq_ok.mp run
  obtain ⟨rest', split⟩ := exists_cut first
  obtain rfl : rest' = rest := Except.ok.inj ((slice_cut split).2.symm.trans second)
  obtain ⟨tail', split'⟩ := exists_cut third
  obtain rfl : tail' = tail := Except.ok.inj ((slice_cut split').2.symm.trans fourth)
  have lines : closedLines newline (headerOf data) =
      service :: method :: closedLines newline tail' := by
    rw [headerOf, closedLines_of_cut split, closedLines_of_cut split']
  refine ⟨long, lower, upper, by simp [lines], ?_⟩
  rw [decodeMeta_eq le_rfl] at loop
  split at loop
  · simpa [lines]
  · cases loop

theorem decodeRequest_of_wellFormed (good : WellFormed data) :
    decodeRequest data = .ok (requestOf data) := by
  obtain ⟨long, lower, upper, names, pairs⟩ := good
  rcases lines : closedLines newline (headerOf data) with _ | ⟨service, _ | ⟨method, tail⟩⟩
  · simp [lines] at names
  · simp [lines] at names
  obtain ⟨rest, split, lines'⟩ := cut_of_closedLines lines
  obtain ⟨last, split', closed⟩ := cut_of_closedLines lines'
  have inside : slice data 15 (fixedOf data).headLength.toNat = .ok (headerOf data) :=
    slice_of_le data lower upper
  obtain ⟨first, second⟩ := slice_cut split
  obtain ⟨third, fourth⟩ := slice_cut split'
  have paired : ∀ line ∈ closedLines newline last, carriage ∈ line := by
    simpa [lines, closed] using pairs
  have loop := decodeMeta_eq (m := Meta.empty) (le_refl last.length)
  rw [if_pos paired] at loop
  simp only [decodeRequest, decode_of_long long, inside, first, second, third, fourth,
    loop, body_of_le upper, bind, Except.bind, requestOf, lines, closed]
  rfl

theorem decodeRequest_eq_ok :
    decodeRequest data = .ok r ↔ WellFormed data ∧ r = requestOf data := by
  constructor
  · intro run
    have good := wellFormed_of_decodeRequest run
    rw [decodeRequest_of_wellFormed good] at run
    exact ⟨good, (Except.ok.inj run).symm⟩
  · rintro ⟨good, rfl⟩
    exact decodeRequest_of_wellFormed good

end Soil.Rpc
