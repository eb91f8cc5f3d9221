import Soil.Rpc.Message

/-!
# Messages survive encoding and decoding

A request whose names and metadata do not contain the separators, and any response, is
read back as it was written, whatever order the two traversals of the metadata take.
-/

namespace Soil.Rpc

open List Cursor Request UInt32 Fixed

/-! ## The bytes of a message -/

def entryLine (entry : List Byte × List Byte) : List Byte := entry.1 ++ carriage :: entry.2

def Request.header (r : Request) : List Byte :=
  r.serviceName ++ [newline] ++ (r.methodName ++ [newline]) ++
    r.meta_.entries.flatMap fun entry => entryLine entry ++ [newline]

def Request.encodedLength (r : Request) : Nat := 15 + r.header.length + r.data.length

def Response.encodedLength (r : Response) : Nat := 15 + r.errorInfo.length + r.data.length

structure Request.Separable (r : Request) : Prop where
  serviceName : newline ∉ r.serviceName
  methodName : newline ∉ r.methodName
  keys : ∀ entry ∈ r.meta_.entries, carriage ∉ entry.1 ∧ newline ∉ entry.1
  values : ∀ entry ∈ r.meta_.entries, newline ∉ entry.2

def Meta.SameMap (m m' : Meta) : Prop := m.entries.Perm m'.entries

/-! ## Encoding -/

section

variable {done data : List Byte} {k : Nat}

theorem Cursor.push_of_pos {b : Byte} (room : 1 ≤ k) :
    (Cursor.frontier done k).push b = .ok (Cursor.frontier (done ++ [b]) (k - 1)) := by
  have stored : store (done ++ List.replicate k 0) done.length b =
      .ok ((done ++ [b]) ++ List.replicate (k - 1) 0) := by
    rw [store_frontier rfl, if_pos room]
  refine bind_eq_ok.mpr ⟨_, stored, ?_⟩
  simp [advance, Cursor.frontier]

theorem Cursor.part_of_le (done : List Byte) (fits : data.length + 1 ≤ k) :
    (do let c ← (Cursor.frontier done k).copyAll data; moveForward c data.length) =
      .ok (Cursor.frontier (done ++ (data ++ [newline])) (k - (data.length + 1))) := by
  have whole := copyAll_frontier_of_le done (show data.length ≤ k by omega)
  obtain ⟨c, copied, moved⟩ := bind_eq_ok.mp whole
  refine bind_eq_ok.mpr ⟨c, copied, bind_eq_ok.mpr ⟨_, moved, ?_⟩⟩
  rw [push_of_pos (by omega), append_assoc, Nat.sub_sub]

theorem encodeMeta_of_le {entries : List (List Byte × List Byte)}
    (fits : (entries.flatMap fun entry => entryLine entry ++ [newline]).length ≤ k) :
    encodeMeta (Cursor.frontier done k) entries =
      .ok (Cursor.frontier (done ++ entries.flatMap fun entry => entryLine entry ++ [newline])
        (k - (entries.flatMap fun entry => entryLine entry ++ [newline]).length)) := by
  induction entries generalizing done k with
  | nil => simp [encodeMeta]
  | cons entry rest ih =>
    obtain ⟨key, value⟩ := entry
    simp only [flatMap_cons, entryLine, length_append, length_cons, length_nil] at fits
    have first := copyAll_frontier_of_le done (show key.length ≤ k by omega)
    obtain ⟨c, copied, moved⟩ := bind_eq_ok.mp first
    refine bind_eq_ok.mpr ⟨c, copied, bind_eq_ok.mpr ⟨_, moved, ?_⟩⟩
    refine bind_eq_ok.mpr ⟨_, push_of_pos (by omega), ?_⟩
    have second := part_of_le (done ++ key ++ [carriage])
      (show value.length + 1 ≤ k - key.length - 1 by omega)
    obtain ⟨c', copied', moved'⟩ := bind_eq_ok.mp second
    refine bind_eq_ok.mpr ⟨c', copied', bind_eq_ok.mpr ⟨_, moved', ?_⟩⟩
    rw [ih (by simp only [entryLine]; omega)]
    simp only [flatMap_cons, entryLine, length_append, length_cons,
      append_assoc, cons_append, nil_append]
    congr 2
    omega

theorem Cursor.copyRest_full (full : data.length = k) :
    ((Cursor.frontier done k).copyRest data).buf = done ++ data := by
  subst full
  simp [copyRest, Cursor.frontier, overwrite_frontier]

end

structure Request.Measured (r : Request) : Prop where
  head : r.headLength.toNat = 15 + r.header.length
  body : r.bodyLength.toNat = r.data.length

structure Response.Measured (r : Response) : Prop where
  head : r.headLength.toNat = 15 + r.errorInfo.length
  body : r.bodyLength.toNat = r.data.length

theorem data_eq_nil {data : List Byte} {length : UInt32} (measured : length.toNat = data.length)
    (zero : ¬ 0 < length) : data = [] := by
  apply eq_nil_of_length_eq_zero
  rw [← measured]
  simpa [lt_iff_toNat_lt] using zero

theorem encodeRequest_eq {r : Request} (measured : r.Measured) (small : r.encodedLength < 2 ^ 32) :
    encodeRequest r = .ok (r.toFixed.bytes ++ r.header ++ r.data) := by
  obtain ⟨head, body⟩ := measured
  have size : (r.headLength + r.bodyLength).toNat = r.encodedLength := by
    rw [UInt32.toNat_add, head, body]
    exact Nat.mod_eq_of_lt small
  simp only [encodedLength, header, length_append, length_singleton] at size
  refine bind_eq_ok.mpr ⟨_, encode_of_le (by omega), ?_⟩
  have service := part_of_le r.toFixed.bytes
    (show r.serviceName.length + 1 ≤ (r.headLength + r.bodyLength).toNat - 15 by omega)
  obtain ⟨c, copied, moved⟩ := bind_eq_ok.mp service
  refine bind_eq_ok.mpr ⟨c, copied, bind_eq_ok.mpr ⟨_, moved, ?_⟩⟩
  have method := part_of_le (r.toFixed.bytes ++ (r.serviceName ++ [newline]))
    (show r.methodName.length + 1 ≤
      (r.headLength + r.bodyLength).toNat - 15 - (r.serviceName.length + 1) by omega)
  obtain ⟨c', copied', moved'⟩ := bind_eq_ok.mp method
  refine bind_eq_ok.mpr ⟨c', copied', bind_eq_ok.mpr ⟨_, moved', ?_⟩⟩
  refine bind_eq_ok.mpr ⟨_, encodeMeta_of_le (by omega), ?_⟩
  have rest : (r.headLength + r.bodyLength).toNat - 15 - (r.serviceName.length + 1) -
      (r.methodName.length + 1) -
      (r.meta_.entries.flatMap fun entry => entryLine entry ++ [newline]).length =
      r.data.length := by omega
  rw [rest]
  split
  · rw [copyRest_full rfl]
    simp [header]
  · -- nothing is written when there is no body
    simp [header, Cursor.frontier, data_eq_nil body ‹_›]

variable {r : Response}

theorem encodeResponse_eq (measured : r.Measured) (small : r.encodedLength < 2 ^ 32) :
    encodeResponse r = .ok (r.toFixed.bytes ++ r.errorInfo ++ r.data) := by
  obtain ⟨head, body⟩ := measured
  have size : (r.headLength + r.bodyLength).toNat = r.encodedLength := by
    rw [UInt32.toNat_add, head, body]
    exact Nat.mod_eq_of_lt small
  simp only [Response.encodedLength] at size
  refine bind_eq_ok.mpr ⟨_, encode_of_le (by omega), ?_⟩
  have error := copyAll_frontier_of_le r.toFixed.bytes
    (show r.errorInfo.length ≤ (r.headLength + r.bodyLength).toNat - 15 by omega)
  obtain ⟨c, copied, moved⟩ := bind_eq_ok.mp error
  refine bind_eq_ok.mpr ⟨c, copied, bind_eq_ok.mpr ⟨_, moved, ?_⟩⟩
  rw [copyRest_full (by omega)]

/-! ## Decoding -/

theorem fixedOf_bytes (h : Fixed) (more : List Byte) : fixedOf (h.bytes ++ more) = h := by
  have head : getBE (putBE 4 h.headLength.toNat) = h.headLength.toNat :=
    getBE_putBE_of_lt h.headLength.toNat_lt
  have body : getBE (putBE 4 h.bodyLength.toNat) = h.bodyLength.toNat :=
    getBE_putBE_of_lt h.bodyLength.toNat_lt
  have id : getBE (putBE 4 h.messageID.toNat) = h.messageID.toNat :=
    getBE_putBE_of_lt h.messageID.toNat_lt
  have past : (putBE 4 h.headLength.toNat).drop 8 = [] := drop_eq_nil_of_le (by simp)
  simp [fixedOf, bytes, head, body, id, drop_append, past, List.getElem?_append]

theorem headerOf_bytes {h : Fixed} {header data : List Byte}
    (length : h.headLength.toNat = 15 + header.length) :
    headerOf (h.bytes ++ header ++ data) = header := by
  have size : h.bytes.length = 15 := by
    simp [bytes]
  rw [headerOf, append_assoc, fixedOf_bytes, length, ← append_assoc]
  have whole : (h.bytes ++ header).length = 15 + header.length := by simp [size]
  rw [← whole, take_left, ← size, drop_left]

theorem closedLines_append {line rest : List Byte} (free : newline ∉ line) :
    closedLines newline (line ++ [newline] ++ rest) = line :: closedLines newline rest := by
  apply closedLines_of_cut
  exact cut_eq_some.mpr ⟨by simp, free⟩

variable {entry : List Byte × List Byte}

theorem newline_not_mem_entryLine (key : newline ∉ entry.1)
    (value : newline ∉ entry.2) : newline ∉ entryLine entry := by
  simp only [entryLine, mem_append, mem_cons, not_or]
  exact ⟨key, by decide, value⟩

theorem closedLines_entries {entries : List (List Byte × List Byte)}
    (free : ∀ entry ∈ entries, newline ∉ entryLine entry) :
    closedLines newline (entries.flatMap fun entry => entryLine entry ++ [newline]) =
      entries.map entryLine := by
  induction entries with
  | nil => rfl
  | cons entry rest ih =>
    obtain ⟨first, others⟩ := forall_mem_cons.mp free
    rw [flatMap_cons, closedLines_append first, ih others, map_cons]

theorem addLine_entryLine (m : Meta) (free : carriage ∉ entry.1) :
    m.addLine (entryLine entry) = m.insert entry.1 entry.2 := by
  have split : cut carriage (entryLine entry) = some entry := cut_eq_some.mpr ⟨rfl, free⟩
  rw [Meta.addLine, split]

theorem foldl_addLine {entries : List (List Byte × List Byte)} {m : Meta}
    (keys : ((m.entries ++ entries).map Prod.fst).Nodup)
    (free : ∀ entry ∈ entries, carriage ∉ entry.1) :
    ((entries.map entryLine).foldl Meta.addLine m).entries = m.entries ++ entries := by
  induction entries generalizing m with
  | nil => simp
  | cons entry rest ih =>
    obtain ⟨first, others⟩ := forall_mem_cons.mp free
    have kept : m.entries.filter (·.1 ≠ entry.1) = m.entries := by
      apply filter_eq_self.mpr
      intro other there
      refine decide_eq_true fun same => ?_
      rw [map_append, nodup_append] at keys
      exact keys.2.2 other.1 (mem_map_of_mem there) entry.1 (by simp) same
    have inserted : (m.insert entry.1 entry.2).entries = m.entries ++ [entry] := by
      show m.entries.filter (·.1 ≠ entry.1) ++ [entry] = m.entries ++ [entry]
      rw [kept]
    rw [map_cons, foldl_cons, addLine_entryLine m first,
      ih (by simpa [inserted] using keys) others, inserted, append_assoc,
      singleton_append]

theorem decodeRequest_encoded {r : Request} (measured : r.Measured) (separable : r.Separable) :
    ∃ r', decodeRequest (r.toFixed.bytes ++ r.header ++ r.data) = .ok r' ∧
      r'.toFixed = r.toFixed ∧ r'.serviceName = r.serviceName ∧ r'.methodName = r.methodName ∧
      r'.meta_.entries = r.meta_.entries ∧ r'.data = r.data := by
  obtain ⟨head, body⟩ := measured
  have fixed : fixedOf (r.toFixed.bytes ++ r.header ++ r.data) = r.toFixed := by
    rw [append_assoc, fixedOf_bytes]
  have header : headerOf (r.toFixed.bytes ++ r.header ++ r.data) = r.header := headerOf_bytes head
  have lines : closedLines newline r.header =
      r.serviceName :: r.methodName :: r.meta_.entries.map entryLine := by
    have free (entry) (there : entry ∈ r.meta_.entries) : newline ∉ entryLine entry :=
      newline_not_mem_entryLine (separable.keys entry there).2 (separable.values entry there)
    rw [Request.header, append_assoc, closedLines_append separable.serviceName,
      closedLines_append separable.methodName, closedLines_entries free]
  have length : (r.toFixed.bytes ++ r.header).length = r.headLength.toNat := by
    rw [head]
    simp only [bytes, length_append, putBE_length, length_singleton]
  have good : WellFormed (r.toFixed.bytes ++ r.header ++ r.data) := by
    refine ⟨?_, ?_, ?_, ?_, ?_⟩
    · rw [length_append, length, head]
      omega
    · rw [fixed, head]
      omega
    · rw [fixed, length_append, length]
      omega
    · rw [header, lines]
      simp
    · rw [header, lines]
      intro line there
      obtain ⟨entry, -, rfl⟩ := mem_map.mp there
      simp [entryLine]
  refine ⟨_, decodeRequest_of_wellFormed good, fixed, ?_, ?_, ?_, ?_⟩
  · simp only [requestOf, header, lines]
    rfl
  · simp only [requestOf, header, lines]
    rfl
  · have entries := foldl_addLine (m := Meta.empty) r.meta_.nodup
      fun entry there => (separable.keys entry there).1
    simp only [requestOf, header, lines, drop_succ_cons, drop_zero]
    exact entries
  · simp only [requestOf, fixed]
    split
    · rw [← length, drop_left]
    · exact (data_eq_nil body ‹_›).symm

theorem decodeResponse_encoded (measured : r.Measured) :
    decodeResponse (r.toFixed.bytes ++ r.errorInfo ++ r.data) = .ok r := by
  obtain ⟨head, body⟩ := measured
  have fixed : fixedOf (r.toFixed.bytes ++ r.errorInfo ++ r.data) = r.toFixed := by
    rw [append_assoc, fixedOf_bytes]
  have header : headerOf (r.toFixed.bytes ++ r.errorInfo ++ r.data) = r.errorInfo :=
    headerOf_bytes head
  have length : (r.toFixed.bytes ++ r.errorInfo).length = r.headLength.toNat := by
    rw [head]
    simp only [bytes, length_append, putBE_length, length_singleton]
  have upper : r.headLength.toNat ≤ (r.toFixed.bytes ++ r.errorInfo ++ r.data).length := by
    rw [length_append, length]
    omega
  have long : 15 ≤ (r.toFixed.bytes ++ r.errorInfo ++ r.data).length := by omega
  have inside : slice (r.toFixed.bytes ++ r.errorInfo ++ r.data) 15 r.headLength.toNat =
      .ok r.errorInfo := by
    have sliced := slice_of_le (r.toFixed.bytes ++ r.errorInfo ++ r.data)
      (show 15 ≤ r.headLength.toNat by omega) upper
    rw [headerOf, fixed] at header
    rw [header] at sliced
    exact sliced
  have rest : (if 0 < r.bodyLength then
      (r.toFixed.bytes ++ r.errorInfo ++ r.data).drop r.headLength.toNat else []) = r.data := by
    split
    · rw [← length, drop_left]
    · exact (data_eq_nil body ‹_›).symm
  refine bind_eq_ok.mpr ⟨_, decode_of_long long, ?_⟩
  rw [fixed]
  refine bind_eq_ok.mpr ⟨_, inside, bind_eq_ok.mpr ⟨_, body_of_le upper, ?_⟩⟩
  rw [rest]

/-! ## Lengths -/

theorem foldl_add_ofNat {α : Type} (f : α → Nat) (xs : List α) (n : Nat) :
    xs.foldl (fun m x => m + ofNat (f x)) (ofNat n) = ofNat (n + (xs.map f).sum) := by
  induction xs generalizing n with
  | nil => simp
  | cons x xs ih =>
    rw [foldl_cons, ← ofNat_add, ih, map_cons, sum_cons, Nat.add_assoc]

theorem header_length (r : Request) : r.header.length =
    r.serviceName.length + 1 + r.methodName.length + 1 +
      (r.meta_.entries.map fun entry => entry.1.length + 1 + entry.2.length + 1).sum := by
  have entry (e : List Byte × List Byte) : (entryLine e ++ [newline]).length =
      e.1.length + 1 + e.2.length + 1 := by
    simp only [entryLine, length_append, length_cons, length_nil]
    omega
  rw [header, length_append, length_append, length_append, length_append, length_flatMap]
  simp only [entry, length_singleton]
  omega

theorem calculateHeadLength_eq (r : Request) :
    r.calculateHeadLength.headLength = ofNat (15 + r.header.length) := by
  rw [calculateHeadLength, foldl_add_ofNat, header_length]
  simp [Nat.add_assoc]

variable {order : Meta}

theorem header_length_perm (r : Request) (same : order.SameMap r.meta_) :
    (header { r with meta_ := order }).length = r.header.length := by
  have entries : (order.entries.map fun entry => entry.1.length + 1 + entry.2.length + 1).sum =
      (r.meta_.entries.map fun entry => entry.1.length + 1 + entry.2.length + 1).sum :=
    (same.map _).sum_nat
  rw [header_length, header_length, entries]

theorem calculated_measured (r : Request) (small : r.encodedLength < 2 ^ 32)
    (same : order.SameMap r.meta_) :
    Request.Measured { r.calculateHeadLength.calculateBodyLength with meta_ := order } := by
  have length := header_length_perm r same
  rw [encodedLength] at small
  have head : 15 + r.header.length < 2 ^ 32 := by omega
  have body : r.data.length < 2 ^ 32 := by omega
  constructor
  · show r.calculateHeadLength.headLength.toNat =
      15 + (header { r with meta_ := order }).length
    rw [calculateHeadLength_eq, length, toNat_ofNat_of_lt' head]
  · exact toNat_ofNat_of_lt' body

/-! ## Round trips -/

/-- Requests without stray separators and all responses of less than `2 ^ 32` bytes survive
encoding and decoding.  `CalculateHeadLength` and `EncodeRequest` may traverse the metadata in
different orders. -/
theorem message_roundTrip :
    (∀ (r : Request) (order : Meta), r.Separable → r.encodedLength < 2 ^ 32 →
      order.SameMap r.meta_ →
      ∃ bs r', encodeRequest { r.calculateHeadLength.calculateBodyLength with meta_ := order } =
          .ok bs ∧
        decodeRequest bs = .ok r' ∧
        r'.toFixed = r.calculateHeadLength.calculateBodyLength.toFixed ∧
        r'.serviceName = r.serviceName ∧ r'.methodName = r.methodName ∧
        (∀ key, r'.meta_.get key = r.meta_.get key) ∧ r'.data = r.data) ∧
    (∀ r : Response, r.encodedLength < 2 ^ 32 →
      ∃ bs, encodeResponse r.calculateHeadLength.calculateBodyLength = .ok bs ∧
        decodeResponse bs = .ok r.calculateHeadLength.calculateBodyLength) := by
  constructor
  · intro r order separable small same
    have measured := calculated_measured r small same
    have length : (header { r with meta_ := order }).length = r.header.length :=
      header_length_perm r same
    have encoded := encodeRequest_eq measured (by
      rw [encodedLength] at small ⊢
      show 15 + (header { r with meta_ := order }).length + r.data.length < 2 ^ 32
      omega)
    have separable' : Request.Separable
        { r.calculateHeadLength.calculateBodyLength with meta_ := order } :=
      ⟨separable.serviceName, separable.methodName,
        fun entry there => separable.keys entry (same.mem_iff.mp there),
        fun entry there => separable.values entry (same.mem_iff.mp there)⟩
    obtain ⟨r', decoded, fixed, service, method, entries, data⟩ :=
      decodeRequest_encoded measured separable'
    refine ⟨_, r', encoded, decoded, fixed, service, method, fun key => ?_, data⟩
    rw [Meta.get, entries]
    exact lookup_perm same order.nodup
  · intro r small
    have measured : Response.Measured r.calculateHeadLength.calculateBodyLength := by
      rw [Response.encodedLength] at small
      have head : 15 + r.errorInfo.length < 2 ^ 32 := by omega
      have body : r.data.length < 2 ^ 32 := by omega
      exact ⟨toNat_ofNat_of_lt' head, toNat_ofNat_of_lt' body⟩
    exact ⟨_, encodeResponse_eq measured small, decodeResponse_encoded measured⟩

def taggedRequest : Request where
  serviceName := [117, 115, 101, 114]
  methodName := [71, 101, 116]
  meta_ := ⟨[([97], [49, carriage, 50]), ([98], [])], by decide⟩
  data := [newline, carriage]

def taggedReversed : Meta := ⟨[([98], []), ([97], [49, carriage, 50])], by decide⟩

theorem message_roundTrip_tagged :
    (∃ bs r', encodeRequest { taggedRequest.calculateHeadLength.calculateBodyLength with
          meta_ := taggedReversed } = .ok bs ∧
        decodeRequest bs = .ok r' ∧ r'.meta_.get [97] = some [49, carriage, 50] ∧
        r'.data = [newline, carriage]) ∧
    (∃ bs, encodeResponse (Response.calculateBodyLength
        (Response.calculateHeadLength { errorInfo := [newline], data := [7] })) = .ok bs ∧
      decodeResponse bs = .ok (Response.calculateBodyLength
        (Response.calculateHeadLength { errorInfo := [newline], data := [7] }))) := by
  have separable : taggedRequest.Separable :=
    ⟨by decide, by decide, by decide, by decide⟩
  have same : taggedReversed.SameMap taggedRequest.meta_ := List.Perm.swap _ _ _
  rcases message_roundTrip.1 taggedRequest taggedReversed separable (by decide) same with
    ⟨bs, r', encoded, decoded, -, -, -, entries, data⟩
  exact ⟨⟨bs, r', encoded, decoded, entries [97], data⟩, message_roundTrip.2 _ (by decide)⟩

end Soil.Rpc
