import Soil.Bytes

/-!
# Frames of the multiplexed protocol

`Frame`, the checks that guard its encoding and the bytes it is written as: a
fixed header of 22 bytes, then the header and the body.
-/

namespace Soil.Net

/-! ## Constants -/

abbrev MessageType := UInt8

def messageTypeRequest : MessageType := 1
def messageTypeResponse : MessageType := 2
def messageTypeHeartbeat : MessageType := 3
def messageTypePing : MessageType := 4
def messageTypePong : MessageType := 5

def frameMagic : UInt16 := 0x4D4E
def frameVersion : UInt8 := 1
def frameHeaderLen : Nat := 22

def flagOneWay : UInt8 := 1
def flagError : UInt8 := 2

structure Limits where
  maxHeader : UInt32 := 64 * 1024
  maxBody : UInt32 := 16 * 1024 * 1024
  deriving DecidableEq, Repr

/-! ## Frames -/

structure Frame where
  magic : UInt16 := frameMagic
  version : UInt8 := frameVersion
  msgType : MessageType
  flags : UInt8 := 0
  requestID : UInt64
  header : List Byte := []
  body : List Byte := []
  deriving DecidableEq, Repr

def newFrame (msgType : MessageType) (requestID : UInt64) (header body : List Byte) : Frame :=
  { msgType, requestID, header, body }

def textBytes (s : String) : List Byte := utf8 s

def newErrorFrame (requestID : UInt64) (err : Option (List Byte)) : Frame :=
  { newFrame messageTypeResponse requestID [] (err.getD (textBytes "unknown error")) with
    flags := flagError }

def Frame.isOneWay (f : Frame) : Bool := f.flags &&& flagOneWay != 0

def Frame.isError (f : Frame) : Bool := f.flags &&& flagError != 0

def Frame.isHeartbeat (f : Frame) : Bool :=
  f.msgType == messageTypeHeartbeat || f.msgType == messageTypePing ||
    f.msgType == messageTypePong

/-! ## Encoding -/

inductive FrameErr where
  | invalidMagic (magic : UInt16)
  | unknownVersion (version : UInt8)
  | largeHeader (length : Nat) (max : UInt32)
  | largeBody (length : Nat) (max : UInt32)
  deriving DecidableEq, Repr

def hex4 (n : Nat) : String :=
  let digit (d : Nat) : Char := if d < 10 then Char.ofNat (48 + d) else Char.ofNat (55 + d)
  String.ofList [digit (n / 4096 % 16), digit (n / 256 % 16), digit (n / 16 % 16), digit (n % 16)]

def FrameErr.message : FrameErr → String
  | .invalidMagic magic => "invalid frame magic: 0x" ++ hex4 magic.toNat
  | .unknownVersion version => "unsupported protocol version: " ++ toString version.toNat
  | .largeHeader length max =>
    "header too large: " ++ toString length ++ " > " ++ toString max.toNat
  | .largeBody length max => "body too large: " ++ toString length ++ " > " ++ toString max.toNat

def Frame.validate (f : Frame) (lim : Limits) : Except FrameErr Unit :=
  if f.magic ≠ 0 ∧ f.magic ≠ frameMagic then .error (.invalidMagic f.magic)
  else if f.version ≠ 0 ∧ f.version ≠ frameVersion then .error (.unknownVersion f.version)
  else if lim.maxHeader < UInt32.ofNat f.header.length then
    .error (.largeHeader f.header.length lim.maxHeader)
  else if lim.maxBody < UInt32.ofNat f.body.length then
    .error (.largeBody f.body.length lim.maxBody)
  else .ok ()

variable {lim : Limits} {f : Frame}

theorem validate_eq_ok : f.validate lim = .ok () ↔
      (f.magic = 0 ∨ f.magic = frameMagic) ∧ (f.version = 0 ∨ f.version = frameVersion) ∧
      ¬ lim.maxHeader < UInt32.ofNat f.header.length ∧
      ¬ lim.maxBody < UInt32.ofNat f.body.length := by
  have known {α : Type} {x a b : α} : ¬ (x ≠ a ∧ x ≠ b) ↔ x = a ∨ x = b := by tauto
  unfold Frame.validate
  rw [← known, ← known (x := f.version)]
  split
  · simp [*]
  · split
    · simp [*]
    · split
      · simp [*]
      · split <;> simp [*]

def Frame.writeHeaderFields (f : Frame) : List Byte :=
  putBE 2 f.magic.toNat ++ [f.version, f.msgType, f.flags, 0] ++ putBE 4 f.header.length ++
    putBE 4 f.body.length ++ putBE 8 f.requestID.toNat

def Frame.bytes (f : Frame) : List Byte := f.writeHeaderFields ++ f.header ++ f.body

def Frame.encodeWithLimits (f : Frame) (lim : Limits) : Except FrameErr (List Byte) :=
  match f.validate lim with
  | .error e => .error e
  | .ok () => .ok f.bytes

variable {bs : List Byte}

theorem encodeWithLimits_eq_ok :
    f.encodeWithLimits lim = .ok bs ↔ f.validate lim = .ok () ∧ f.bytes = bs := by
  unfold Frame.encodeWithLimits
  cases f.validate lim <;> simp

def Frame.segments (f : Frame) : List (List Byte) :=
  f.writeHeaderFields :: (if f.header = [] then [] else [f.header]) ++
    (if f.body = [] then [] else [f.body])

theorem Frame.segments_flatten (f : Frame) : f.segments.flatten = f.bytes := by
  unfold Frame.segments Frame.bytes
  by_cases header : f.header = [] <;> by_cases body : f.body = [] <;> simp [header, body]

def IsFrame (bs : List Byte) : Prop := ∃ f lim, Frame.encodeWithLimits f lim = .ok bs

theorem isFrame_of_validate (valid : f.validate lim = .ok ()) : IsFrame f.bytes :=
  ⟨f, lim, encodeWithLimits_eq_ok.mpr ⟨valid, rfl⟩⟩

theorem IsFrame.magic (frame : IsFrame bs) : bs.take 2 = [0x4D, 0x4E] ∨ bs.take 2 = [0, 0] := by
  obtain ⟨f, lim, encoded⟩ := frame
  obtain ⟨valid, rfl⟩ := encodeWithLimits_eq_ok.mp encoded
  have start : f.bytes.take 2 = putBE 2 f.magic.toNat := by
    simp [Frame.bytes, Frame.writeHeaderFields]
  rw [start]
  rcases (validate_eq_ok.mp valid).1 with zero | magic
  · right
    rw [zero]
    decide
  · left
    rw [magic]
    decide

theorem IsFrame.length (frame : IsFrame bs) : frameHeaderLen ≤ bs.length := by
  obtain ⟨f, lim, encoded⟩ := frame
  obtain ⟨-, rfl⟩ := encodeWithLimits_eq_ok.mp encoded
  simp only [Frame.bytes, Frame.writeHeaderFields, List.length_append, putBE_length,
    List.length_cons, List.length_nil, frameHeaderLen]
  omega

end Soil.Net
