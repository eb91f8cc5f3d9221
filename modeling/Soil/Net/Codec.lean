import Soil.Basic
import Soil.Net.Frame

/-!
# Encoding and decoding frames

`writeFrame` on a writer that may take any part of what it is offered, and
`DecodeFrameWithLimits` on any source of bytes.
-/

namespace Soil.Net

open List UInt32 Frame

/-! ## Writing -/

inductive WriteErr (ε : Type) where
  | shortWrite
  | other (err : ε)
  deriving DecidableEq, Repr

structure Writer (ε : Type) where
  out : List Byte := []
  calls : Nat := 0
  answer : Nat → Nat → Nat × Option ε

def Writer.write {ε : Type} (w : Writer ε) (data : List Byte) : (Nat × Option ε) × Writer ε :=
  let (n, err) := w.answer w.calls data.length
  ((min n data.length, err), { w with out := w.out ++ data.take n, calls := w.calls + 1 })

def writeLoop {ε : Type} : Nat → Writer ε → List Byte → Except (WriteErr ε) Unit × Writer ε
  | 0, w, _ => (.ok (), w)
  | fuel + 1, w, data =>
    if data = [] then (.ok (), w)
    else
      match w.write data with
      | ((_, some err), w) => (.error (.other err), w)
      | ((0, none), w) => (.error .shortWrite, w)
      | ((n, none), w) => writeLoop fuel w (data.drop n)

def writeFull {ε : Type} (w : Writer ε) (data : List Byte) : Except (WriteErr ε) Unit × Writer ε :=
  writeLoop data.length w data

def writeSegments {ε : Type} (w : Writer ε) :
    List (List Byte) → Except (WriteErr ε) Unit × Writer ε
  | [] => (.ok (), w)
  | data :: rest =>
    match writeFull w data with
    | (.error err, w) => (.error err, w)
    | (.ok (), w) => writeSegments w rest

def writeFrame {ε : Type} (w : Writer ε) (f : Frame) (lim : Limits) :
    Except (FrameErr ⊕ WriteErr ε) Unit × Writer ε :=
  match f.validate lim with
  | .error err => (.error (.inl err), w)
  | .ok () =>
    match writeSegments w f.segments with
    | (.error err, w) => (.error (.inr err), w)
    | (.ok (), w) => (.ok (), w)

/-! ## Reading -/

inductive DecodeErr (ε : Type) where
  | read (err : ε)
  | invalidMagic (magic : UInt16)
  | unknownVersion (version : UInt8)
  | largeHeader (length : UInt32)
  | largeBody (length : UInt32)
  deriving DecidableEq, Repr

def DecodeErr.message {ε : Type} (read : ε → String) : DecodeErr ε → String
  | .read err => read err
  | .invalidMagic magic => "invalid frame magic: 0x" ++ hex4 magic.toNat
  | .unknownVersion version => "unsupported protocol version: " ++ toString version.toNat
  | .largeHeader length => "header too large: " ++ toString length.toNat
  | .largeBody length => "body too large: " ++ toString length.toNat

section

variable {σ ε : Type} (readFull : Nat → σ → Except ε (List Byte × σ))

def readPart (n : UInt32) (s : σ) : Except (DecodeErr ε) (List Byte × σ) :=
  if 0 < n then (readFull n.toNat s).mapError .read else .ok ([], s)

def decodeFrameWithLimits (lim : Limits) (s : σ) : Except (DecodeErr ε) (Frame × σ) := do
  let (header, s) ← (readFull frameHeaderLen s).mapError .read
  let magic := UInt16.ofNat (getBE (header.take 2))
  let version := header.getD 2 0
  let msgType := header.getD 3 0
  let flags := header.getD 4 0
  let headerLen := UInt32.ofNat (getBE ((header.drop 6).take 4))
  let bodyLen := UInt32.ofNat (getBE ((header.drop 10).take 4))
  let requestID := UInt64.ofNat (getBE ((header.drop 14).take 8))
  if magic ≠ frameMagic then .error (.invalidMagic magic)
  else if version ≠ frameVersion then .error (.unknownVersion version)
  else if lim.maxHeader < headerLen then .error (.largeHeader headerLen)
  else if lim.maxBody < bodyLen then .error (.largeBody bodyLen)
  else do
    let (header, s) ← readPart readFull headerLen s
    let (body, s) ← readPart readFull bodyLen s
    .ok ({ magic, version, msgType, flags, requestID, header, body }, s)

end

inductive ReadErr where
  | eof
  | unexpectedEOF
  deriving DecidableEq, Repr

def readFull (n : Nat) (bs : List Byte) : Except ReadErr (List Byte × List Byte) :=
  if n ≤ bs.length then .ok (bs.take n, bs.drop n)
  else .error (if bs = [] then .eof else .unexpectedEOF)

def readFrame (bs : List Byte) (lim : Limits) : Except (DecodeErr ReadErr) (Frame × List Byte) :=
  decodeFrameWithLimits readFull lim bs

/-! ## What is written -/

def Writer.Accepts {ε : Type} (w : Writer ε) : Prop :=
  ∀ i n, 0 < n → 0 < (w.answer i n).1 ∧ (w.answer i n).1 ≤ n ∧ (w.answer i n).2 = none

section

variable {ε : Type} {w : Writer ε} {data : List Byte}

theorem writeLoop_accepting {fuel : Nat} (accepts : w.Accepts) (enough : data.length ≤ fuel) :
    ∃ w', writeLoop fuel w data = (.ok (), w') ∧ w'.out = w.out ++ data ∧ w'.answer = w.answer := by
  induction fuel generalizing w data with
  | zero =>
    have none : data = [] := eq_nil_of_length_eq_zero (by omega)
    exact ⟨w, rfl, by simp [none], rfl⟩
  | succ fuel ih =>
    rw [writeLoop]
    split
    · exact ⟨w, rfl, by simp [*], rfl⟩
    rename_i more
    have some : 0 < data.length := length_pos_iff.mpr more
    rcases answer : w.answer w.calls data.length with ⟨n, err⟩
    have taken := accepts w.calls data.length some
    rw [answer] at taken
    obtain ⟨positive, fits, none⟩ := taken
    subst none
    obtain ⟨m, rfl⟩ := Nat.exists_eq_succ_of_ne_zero (Nat.ne_of_gt positive)
    have small : min (m + 1) data.length = m + 1 := Nat.min_eq_left fits
    simp only [Writer.write, answer, small]
    have rest : (data.drop (m + 1)).length ≤ fuel := by
      rw [length_drop]
      omega
    rcases ih (w := { w with out := w.out ++ data.take (m + 1), calls := w.calls + 1 })
      accepts rest with ⟨w', written, out, same⟩
    refine ⟨w', written, ?_, same⟩
    rw [out, append_assoc, take_append_drop]

theorem writeSegments_accepting (segments : List (List Byte)) (accepts : w.Accepts) :
    ∃ w', writeSegments w segments = (.ok (), w') ∧ w'.out = w.out ++ segments.flatten := by
  induction segments generalizing w with
  | nil => exact ⟨w, rfl, by simp⟩
  | cons data rest ih =>
    obtain ⟨w', written, out, same⟩ := writeLoop_accepting accepts (Nat.le_refl data.length)
    have again : w'.Accepts := by
      rw [Writer.Accepts, same]
      exact accepts
    obtain ⟨w'', written', out'⟩ := ih again
    refine ⟨w'', ?_, ?_⟩
    · rw [writeSegments, writeFull, written]
      exact written'
    · rw [out', out, append_assoc, flatten_cons]

variable {lim : Limits} {f : Frame}

theorem writeFrame_ok (accepts : w.Accepts) :
    (writeFrame w f lim).1 = .ok () ↔ f.validate lim = .ok () := by
  obtain ⟨w', written, -⟩ := writeSegments_accepting f.segments accepts
  unfold writeFrame
  cases f.validate lim with
  | error => simp
  | ok => simp [written]

theorem writeFrame_out (accepts : w.Accepts)
    (valid : f.validate lim = .ok ()) : (writeFrame w f lim).2.out = w.out ++ f.bytes := by
  obtain ⟨w', written, out⟩ := writeSegments_accepting f.segments accepts
  rw [segments_flatten] at out
  simp [writeFrame, valid, written, out]

end

/-! ## What is read -/

variable {rest x : List Byte}

theorem readFull_append : readFull x.length (x ++ rest) = .ok (x, rest) := by
  simp [readFull]

variable {bs : List Byte}

theorem readFull_eq_ok {n : Nat} (run : readFull n bs = .ok (x, rest)) :
    x.length = n ∧ bs = x ++ rest := by
  unfold readFull at run
  split at run
  · cases run
    exact ⟨by simp; omega, by simp⟩
  · cases run

theorem readPart_append (small : data.length < 2 ^ 32) :
    readPart readFull (ofNat data.length) (data ++ rest) = .ok (data, rest) := by
  have length : (ofNat data.length).toNat = data.length := toNat_ofNat_of_lt' small
  unfold readPart
  split
  · rw [length, readFull_append]
    rfl
  rename_i zero
  have none : data = [] := by
    apply eq_nil_of_length_eq_zero
    rw [← length]
    simpa [lt_iff_toNat_lt] using zero
  simp [none]

theorem readPart_eq_ok {n : UInt32}
    (run : readPart readFull n bs = .ok (x, rest)) : x.length = n.toNat ∧ bs = x ++ rest := by
  unfold readPart at run
  split at run
  · cases read : readFull n.toNat bs with
    | error =>
      rw [read] at run
      cases run
    | ok =>
      rw [read] at run
      cases run
      exact readFull_eq_ok read
  · rename_i zero
    cases run
    refine ⟨?_, rfl⟩
    simpa [lt_iff_toNat_lt, eq_comm] using zero

structure Frame.Sendable (f : Frame) : Prop where
  magic : f.magic = frameMagic
  version : f.version = frameVersion
  header : f.header.length < 2 ^ 32
  body : f.body.length < 2 ^ 32

theorem writeHeaderFields_length (f : Frame) : f.writeHeaderFields.length = frameHeaderLen := by
  simp [writeHeaderFields, frameHeaderLen]

theorem writeHeaderFields_numbers (f : Frame) :
    UInt16.ofNat (getBE (f.writeHeaderFields.take 2)) = f.magic ∧
      UInt32.ofNat (getBE ((f.writeHeaderFields.drop 6).take 4)) = UInt32.ofNat (f.header.length) ∧
      UInt32.ofNat (getBE ((f.writeHeaderFields.drop 10).take 4)) = UInt32.ofNat f.body.length ∧
      UInt64.ofNat (getBE ((f.writeHeaderFields.drop 14).take 8)) = f.requestID := by
  have magic : getBE (putBE 2 f.magic.toNat) = f.magic.toNat := getBE_putBE_of_lt f.magic.toNat_lt
  have id : getBE (putBE 8 f.requestID.toNat) = f.requestID.toNat :=
    getBE_putBE_of_lt f.requestID.toNat_lt
  have wraps (n : Nat) : UInt32.ofNat (getBE (putBE 4 n)) = UInt32.ofNat n := by
    rw [getBE_putBE]
    apply UInt32.toNat_inj.mp
    simp
  have gone {k : Nat} (past : 2 ≤ k) : (putBE 2 f.magic.toNat).drop k = [] :=
    drop_eq_nil_of_le (by simpa using past)
  have gone' {k n : Nat} (past : 4 ≤ k) : (putBE 4 n).drop k = [] :=
    drop_eq_nil_of_le (by simpa using past)
  have whole : (putBE 8 f.requestID.toNat).take 8 = putBE 8 f.requestID.toNat :=
    take_of_length_le (by simp)
  refine ⟨?_, ?_, ?_, ?_⟩ <;>
    simp [writeHeaderFields, drop_append, gone, gone', magic, id, wraps, whole]

theorem writeHeaderFields_bytes (f : Frame) :
    f.writeHeaderFields.getD 2 0 = f.version ∧ f.writeHeaderFields.getD 3 0 = f.msgType ∧
      f.writeHeaderFields.getD 4 0 = f.flags := by
  refine ⟨?_, ?_, ?_⟩ <;> simp [writeHeaderFields]

theorem readFrame_bytes (sendable : f.Sendable)
    (valid : f.validate lim = .ok ()) : readFrame (f.bytes ++ rest) lim = .ok (f, rest) := by
  have first : readFull frameHeaderLen (f.bytes ++ rest) =
      .ok (f.writeHeaderFields, f.header ++ (f.body ++ rest)) := by
    rw [← writeHeaderFields_length f, bytes, append_assoc, append_assoc]
    exact readFull_append
  obtain ⟨magic, headerLen, bodyLen, requestID⟩ := writeHeaderFields_numbers f
  obtain ⟨version, msgType, flags⟩ := writeHeaderFields_bytes f
  obtain ⟨-, -, header, body⟩ := validate_eq_ok.mp valid
  have second : readPart readFull (ofNat f.header.length) (f.header ++ (f.body ++ rest)) =
      .ok (f.header, f.body ++ rest) := readPart_append sendable.header
  have third : readPart readFull (ofNat f.body.length) (f.body ++ rest) =
      .ok (f.body, rest) := readPart_append sendable.body
  refine bind_eq_ok.mpr ⟨_, by rw [first]; rfl, ?_⟩
  simp only [magic, version, msgType, flags, headerLen, bodyLen, requestID]
  rw [if_neg (not_not.mpr sendable.magic), if_neg (not_not.mpr sendable.version), if_neg header,
    if_neg body]
  exact bind_eq_ok.mpr ⟨_, second, bind_eq_ok.mpr ⟨_, third, rfl⟩⟩

theorem exists_fields {header : List Byte} (length : header.length = frameHeaderLen) : ∃ reserved,
      header = header.take 2 ++ [header.getD 2 0, header.getD 3 0, header.getD 4 0, reserved] ++
        (header.drop 6).take 4 ++ (header.drop 10).take 4 ++ (header.drop 14).take 8 := by
  rw [frameHeaderLen] at length
  have four : ((header.drop 2).take 4).length = 4 := by simp [length]
  obtain ⟨version, msgType, flags, reserved, bytes⟩ := length_eq_four.mp four
  have byte (i : Nat) (inside : i < 4) :
      header.getD (2 + i) 0 = [version, msgType, flags, reserved].getD i 0 := by
    rw [← bytes]
    simp [inside]
  have last : (header.drop 14).take 8 = header.drop 14 := take_of_length_le (by simp [length])
  refine ⟨reserved, ?_⟩
  rw [byte 0 (by omega), byte 1 (by omega), byte 2 (by omega), last]
  show header = header.take 2 ++ [version, msgType, flags, reserved] ++ _ ++ _ ++ _
  rw [← bytes, ← take_add, ← take_add, ← take_add, take_append_drop]

theorem mapError_eq_ok {ε ε' α : Type} {x : Except ε α} {g : ε → ε'} {a : α}
    (run : x.mapError g = .ok a) : x = .ok a := by
  cases x with
  | error => cases run
  | ok =>
    cases run
    rfl

theorem putBE_getBE_of_length {w : Nat} (length : bs.length = w) :
    getBE bs < 256 ^ w ∧ putBE w (getBE bs) = bs := by
  subst length
  exact ⟨getBE_lt bs, putBE_getBE bs⟩

theorem readFrame_eq_ok (run : readFrame bs lim = .ok (f, rest)) :
    f.Sendable ∧ f.validate lim = .ok () ∧
      ∃ consumed, bs = consumed ++ rest ∧ f.bytes = consumed.set 5 0 := by
  obtain ⟨⟨header, bs₁⟩, first, checks⟩ := bind_eq_ok.mp run
  obtain ⟨length, rfl⟩ := readFull_eq_ok (mapError_eq_ok first)
  obtain ⟨reserved, fields⟩ := exists_fields length
  have part {w k : Nat} (inside : k + w ≤ 22) : ((header.drop k).take w).length = w := by
    rw [length_take, length_drop, length, frameHeaderLen]
    omega
  have field₁ := putBE_getBE_of_length (w := 2)
    (show (header.take 2).length = 2 from part (k := 0) (by omega))
  have field₂ := putBE_getBE_of_length (part (w := 4) (k := 6) (by omega))
  have field₃ := putBE_getBE_of_length (part (w := 4) (k := 10) (by omega))
  have field₄ := putBE_getBE_of_length (part (w := 8) (k := 14) (by omega))
  dsimp only at checks
  generalize header.take 2 = magic, header.getD 2 0 = version, header.getD 3 0 = msgType,
    header.getD 4 0 = flags, (header.drop 6).take 4 = headerLen,
    (header.drop 10).take 4 = bodyLen, (header.drop 14).take 8 = requestID at *
  split at checks
  · cases checks
  split at checks
  · cases checks
  split at checks
  · cases checks
  split at checks
  · cases checks
  rename_i known known' small small'
  obtain ⟨⟨x, bs₂⟩, second, checks₂⟩ := bind_eq_ok.mp checks
  obtain ⟨⟨y, bs₃⟩, third, made⟩ := bind_eq_ok.mp checks₂
  obtain ⟨size, rfl⟩ := readPart_eq_ok second
  obtain ⟨size', rfl⟩ := readPart_eq_ok third
  cases made
  rw [toNat_ofNat_of_lt' field₂.1] at size
  rw [toNat_ofNat_of_lt' field₃.1] at size'
  refine ⟨⟨not_not.mp known, not_not.mp known', size ▸ field₂.1, size' ▸ field₃.1⟩, ?_, ?_⟩
  · rw [validate_eq_ok]
    refine ⟨.inr (not_not.mp known), .inr (not_not.mp known'), ?_, ?_⟩
    · simpa [size] using small
    · simpa [size'] using small'
  · refine ⟨header ++ x ++ y, by simp, ?_⟩
    have two : magic.length = 2 := by rw [← field₁.2, putBE_length]
    have same₁ : (UInt16.ofNat (getBE magic)).toNat = getBE magic :=
      UInt16.toNat_ofNat_of_lt' field₁.1
    have same₄ : (UInt64.ofNat (getBE requestID)).toNat = getBE requestID :=
      UInt64.toNat_ofNat_of_lt' field₄.1
    rw [fields, bytes, writeHeaderFields]
    simp only [same₁, same₄, size, size', field₁.2, field₂.2, field₃.2, field₄.2]
    obtain ⟨-, -, rfl⟩ := length_eq_two.mp two
    rfl

/-! ## Round trips -/

/-- For all limits: `writeFrame` writes what `EncodeWithLimits` returns; the frame is read back
exactly if it is sendable; and a frame that was read is encoded as it was, but for the
reserved byte. -/
theorem frame_codec {ε : Type} (lim : Limits) :
    (∀ (f : Frame) (w : Writer ε), w.Accepts →
      ((writeFrame w f lim).1 = .ok () ↔ ∃ bs, f.encodeWithLimits lim = .ok bs)) ∧
    (∀ (f : Frame) (w : Writer ε) (bs rest : List Byte), w.Accepts →
      f.encodeWithLimits lim = .ok bs →
      (writeFrame w f lim).2.out = w.out ++ bs ∧
        (readFrame (bs ++ rest) lim = .ok (f, rest) ↔ f.Sendable)) ∧
    (∀ (f : Frame) (bs rest : List Byte), readFrame bs lim = .ok (f, rest) →
      ∃ consumed, bs = consumed ++ rest ∧
        f.encodeWithLimits lim = .ok (consumed.set 5 0)) := by
  refine ⟨fun f w accepts => ?_, fun f w bs rest accepts encoded => ?_, fun f bs rest run => ?_⟩
  · rw [writeFrame_ok accepts]
    simp [encodeWithLimits_eq_ok]
  · obtain ⟨valid, rfl⟩ := encodeWithLimits_eq_ok.mp encoded
    refine ⟨writeFrame_out accepts valid, fun run => ?_, fun sendable => ?_⟩
    · exact (readFrame_eq_ok run).1
    · exact readFrame_bytes sendable valid
  · obtain ⟨-, valid, consumed, split, bytes⟩ := readFrame_eq_ok run
    exact ⟨consumed, split, encodeWithLimits_eq_ok.mpr ⟨valid, bytes⟩⟩

def drip : Writer Unit where
  answer _ _ := (1, none)

theorem frame_codec_ping :
    (writeFrame drip (newFrame messageTypePing 7 [] [1, 2]) {}).2.out =
        (newFrame messageTypePing 7 [] [1, 2]).bytes ∧
      readFrame ((newFrame messageTypePing 7 [] [1, 2]).bytes ++ [0]) {} =
        .ok (newFrame messageTypePing 7 [] [1, 2], [0]) := by
  have accepts : drip.Accepts := fun _ _ some => ⟨Nat.one_pos, some, rfl⟩
  have encoded : (newFrame messageTypePing 7 [] [1, 2]).encodeWithLimits {} =
      .ok (newFrame messageTypePing 7 [] [1, 2]).bytes := by decide
  have sendable : (newFrame messageTypePing 7 [] [1, 2]).Sendable :=
    ⟨rfl, rfl, by decide, by decide⟩
  obtain ⟨out, decodes⟩ := (frame_codec {}).2.1 _ drip _ [0] accepts encoded
  exact ⟨out, decodes.mpr sendable⟩

/-- A frame whose magic number was not set is encoded, but not decoded. -/
theorem unset_magic_refused :
    Frame.encodeWithLimits { magic := 0, msgType := messageTypePing, requestID := 1 } {} =
        .ok (bytes { magic := 0, msgType := messageTypePing, requestID := 1 }) ∧
      readFrame (bytes { magic := 0, msgType := messageTypePing, requestID := 1 }) {} =
        .error (.invalidMagic 0) := by
  decide

end Soil.Net
