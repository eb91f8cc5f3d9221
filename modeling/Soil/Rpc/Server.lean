import Soil.Rpc.Stream

/-!
# The connection loop of the RPC server

`Server.handleConn` reads a message, decodes it, calls the method it names by
reflection and writes the encoded response.  Nothing recovers from a panic on the
way.  The reflected facts the code depends on (how many parameters a method has,
whether a result can be nil) are data of the registered services.
-/

namespace Soil.Rpc

open Response UInt32

/-! ## Registered services -/

structure GoError where
  text : Option (List Byte)

structure Ctx where
  deadline : Option Int
  oneWay : Bool

structure Result (Val : Type) where
  isNil : Option Bool
  nilInterface : Bool
  asError : Option GoError
  val : Val

structure Method (Ty Val : Type) where
  numIn : Nat
  elem : Option Ty
  assignable : Bool
  call : Ctx → Val → Option (List (Result Val))

structure Serializer (Ty Val : Type) where
  decode : Ty → List Byte → Except GoError Val
  encode : Val → Except GoError (List Byte)

structure Compressor where
  decompress : List Byte → Except GoError (List Byte)

structure Stub (Ty Val : Type) where
  methodByName : List Byte → Option (Method Ty Val)
  serializers : Byte → Option (Serializer Ty Val)
  compressors : Byte → Option Compressor

structure Server (Ty Val : Type) where
  services : List Byte → Option (Stub Ty Val)
  writable : Bool := true

variable {Ty Val : Type}

/-! ## A reflective call -/

def Stub.requestData (stub : Stub Ty Val) (req : Request) : Except GoError (List Byte) :=
  match stub.compressors req.compressor with
  | some compress => compress.decompress req.data
  | none => .ok req.data

def resultError (r : Result Val) : Except Panic (Option GoError) :=
  if r.nilInterface then .ok none
  else match r.asError with
    | some e => .ok (some e)
    | none => .error .typeAssertion

def Method.reflectCall (method : Method Ty Val) (ctx : Ctx) (arg : Val) :
    Except Panic (List (Result Val)) :=
  if method.numIn = 2 ∧ method.assignable then
    match method.call ctx arg with
    | some results => .ok results
    | none => .error .user
  else .error .reflect

def encodeResults (serializer : Serializer Ty Val) :
    List (Result Val) → Except Panic (List Byte × Option GoError)
  | r₀ :: r₁ :: _ => do
      let err ← resultError r₁
      match r₀.isNil with
      | none => .error .reflect
      | some true => .ok ([], err)
      | some false =>
        match serializer.encode r₀.val with
        | .error e => .ok ([], some e)
        | .ok data => .ok (data, err)
  | _ => .error .index

def Stub.invoke (stub : Stub Ty Val) (ctx : Ctx) (req : Request) :
    Except Panic (List Byte × Option GoError) :=
  match stub.methodByName req.methodName with
  | none => .error .reflect
  | some method =>
    if method.numIn < 2 then .error .index
    else match method.elem with
      | none => .error .reflect
      | some elem =>
        match stub.requestData req with
        | .error e => .ok ([], some e)
        | .ok data =>
          match stub.serializers req.serializer with
          | none => .error .nilDereference
          | some serializer =>
            match serializer.decode elem data with
            | .error e => .ok ([], some e)
            | .ok arg => do
                let results ← method.reflectCall ctx arg
                encodeResults serializer results

/-! ## The loop -/

def parseInt (s : List Byte) : Option Int :=
  let (sign, digits) : Int × List Byte := match s with
    | 45 :: rest => (-1, rest)
    | 43 :: rest => (1, rest)
    | _ => (1, s)
  if digits = [] ∨ digits.any (fun b => b < 48 || 57 < b) then none
  else
    let n := sign * (digits.foldl (fun n b => n * 10 + (b.toNat - 48)) 0 : Nat)
    if -2 ^ 63 ≤ n ∧ n < 2 ^ 63 then some n else none

def Request.ctx (req : Request) : Ctx where
  deadline := (req.meta_.get (bytesOf "deadline")).bind parseInt
  oneWay := req.meta_.get (bytesOf "one-way") = some (bytesOf "true")

def unknownService (name : List Byte) : List Byte :=
  bytesOf "micro: 服务[" ++ name ++ bytesOf "]不存在"

def Server.invoke (s : Server Ty Val) (req : Request) : Except Panic (Response × Option GoError) :=
  let resp : Response :=
    { messageID := req.messageID, version := req.version, compressor := req.compressor,
      serializer := req.serializer }
  match s.services req.serviceName with
  | none => .ok (resp, some ⟨some (unknownService req.serviceName)⟩)
  | some stub => do
      let (data, err) ← stub.invoke req.ctx req
      .ok ({ resp with data }, err)

def errorText : Option GoError → Except Panic (List Byte)
  | none => .ok []
  | some e =>
    match e.text with
    | some text => .ok text
    | none => .error .user

def Server.reply (s : Server Ty Val) (req : Request) : Except Panic (List Byte) := do
  let (response, err) ← s.invoke req
  let errorInfo ← errorText err
  encodeResponse (Response.calculateHeadLength (Response.calculateBodyLength
    { response with errorInfo }))

def Server.runOneWay (s : Server Ty Val) (req : Request) : Except Panic Unit :=
  match s.services req.serviceName with
  | none => .ok ()
  | some stub => do
      let _ ← stub.invoke req.ctx req
      .ok ()

inductive Outcome where
  | panicked (p : Panic)
  | closed
  | answered (reply : List Byte) (conn : Conn)
  | oneWay (conn : Conn)

def Server.handleRequest (s : Server Ty Val) (req : Request) (conn : Conn) : Outcome :=
  if req.ctx.oneWay then
    match s.runOneWay req with
    | .error p => .panicked p
    | .ok _ => .oneWay conn
  else match s.reply req with
    | .error p => .panicked p
    | .ok reply => if s.writable then .answered reply conn else .closed

def Server.handleMessage (s : Server Ty Val) (data : List Byte) (conn : Conn) : Outcome :=
  match decodeRequest data with
  | .error p => .panicked p
  | .ok req => s.handleRequest req conn

def Server.serve (s : Server Ty Val) (conn : Conn) : Outcome :=
  match receiveRequestStream conn with
  | .error .eof => .closed
  | .error (.panic p) => .panicked p
  | .ok (data, conn) => s.handleMessage data conn

inductive Status where
  | running (replies : List (List Byte)) (conn : Conn)
  | closed (replies : List (List Byte))
  | panicked (p : Panic)

def handleConn (server : Nat → Server Ty Val) (conn : Conn) : Nat → Status
  | 0 => .running [] conn
  | n + 1 =>
    match handleConn server conn n with
    | .running replies conn =>
      match (server n).serve conn with
      | .panicked p => .panicked p
      | .closed => .closed replies
      | .answered reply conn => .running (replies ++ [reply]) conn
      | .oneWay conn => .running replies conn
    | status => status

/-! ## When a call answers -/

inductive ErrorOf (r : Result Val) : Option GoError → Prop
  | none : r.nilInterface = true → ErrorOf r none
  | some {e : GoError} : r.nilInterface = false → r.asError = some e → ErrorOf r (some e)

inductive Returns (serializer : Serializer Ty Val) (r₀ r₁ : Result Val) :
    List Byte → Option GoError → Prop
  | nil {err : Option GoError} : ErrorOf r₁ err → r₀.isNil = some true →
      Returns serializer r₀ r₁ [] err
  | unencodable {err : Option GoError} {e : GoError} : ErrorOf r₁ err → r₀.isNil = some false →
      serializer.encode r₀.val = .error e → Returns serializer r₀ r₁ [] (some e)
  | encoded {err : Option GoError} {data : List Byte} : ErrorOf r₁ err → r₀.isNil = some false →
      serializer.encode r₀.val = .ok data → Returns serializer r₀ r₁ data err

inductive Stub.MethodAnswers (stub : Stub Ty Val) (ctx : Ctx) (req : Request)
    (method : Method Ty Val) (elem : Ty) : List Byte → Option GoError → Prop
  | corrupt {e : GoError} : stub.requestData req = .error e →
      MethodAnswers stub ctx req method elem [] (some e)
  | undecodable {data : List Byte} {serializer : Serializer Ty Val} {e : GoError} :
      stub.requestData req = .ok data → stub.serializers req.serializer = some serializer →
      serializer.decode elem data = .error e → MethodAnswers stub ctx req method elem [] (some e)
  | called {data out : List Byte} {serializer : Serializer Ty Val} {arg : Val}
      {r₀ r₁ : Result Val} {rest : List (Result Val)} {err : Option GoError} :
      stub.requestData req = .ok data → stub.serializers req.serializer = some serializer →
      serializer.decode elem data = .ok arg → method.numIn = 2 ∧ method.assignable = true →
      method.call ctx arg = some (r₀ :: r₁ :: rest) → Returns serializer r₀ r₁ out err →
      MethodAnswers stub ctx req method elem out err

def Stub.Answers (stub : Stub Ty Val) (ctx : Ctx) (req : Request) (out : List Byte)
    (err : Option GoError) : Prop :=
  ∃ method elem, stub.methodByName req.methodName = some method ∧ 2 ≤ method.numIn ∧
    method.elem = some elem ∧ stub.MethodAnswers ctx req method elem out err

variable {err : Option GoError}

theorem resultError_eq_ok {r : Result Val} : resultError r = .ok err ↔ ErrorOf r err := by
  unfold resultError
  constructor
  · intro run
    split at run
    · cases run
      exact .none ‹_›
    · split at run
      · cases run
        exact .some (by simpa using ‹¬ r.nilInterface = true›) ‹_›
      · cases run
  · intro err
    cases err with
    | none nil => rw [if_pos nil]
    | some nil found => simp [nil, found]

variable {results : List (Result Val)} {out : List Byte}

theorem encodeResults_eq_ok {serializer : Serializer Ty Val}
    : encodeResults serializer results = .ok (out, err) ↔
      ∃ r₀ r₁ rest, results = r₀ :: r₁ :: rest ∧ Returns serializer r₀ r₁ out err := by
  rcases results with _ | ⟨r₀, _ | ⟨r₁, rest⟩⟩
  · simp [encodeResults]
  · simp [encodeResults]
  constructor
  · intro run
    refine ⟨r₀, r₁, rest, rfl, ?_⟩
    obtain ⟨err', checked, run⟩ := bind_eq_ok.mp run
    have checked := resultError_eq_ok.mp checked
    split at run
    · cases run
    · cases run
      exact .nil checked ‹_›
    · split at run
      · cases run
        exact .unencodable checked ‹_› ‹_›
      · cases run
        exact .encoded checked ‹_› ‹_›
  · rintro ⟨_, _, _, ⟨⟩, returns⟩
    cases returns with
    | nil checked nil =>
      exact bind_eq_ok.mpr ⟨_, resultError_eq_ok.mpr checked, by simp [nil]⟩
    | unencodable checked nil encoded | encoded checked nil encoded =>
      exact bind_eq_ok.mpr ⟨_, resultError_eq_ok.mpr checked, by simp [nil, encoded]⟩

variable {ctx : Ctx}

theorem Method.reflectCall_eq_ok {method : Method Ty Val} {arg : Val}
    : method.reflectCall ctx arg = .ok results ↔
      (method.numIn = 2 ∧ method.assignable = true) ∧ method.call ctx arg = some results := by
  unfold Method.reflectCall
  split
  · rename_i fits
    cases method.call ctx arg <;> simp [fits]
  · rename_i unfit
    simp [unfit]

variable {req : Request}

theorem Stub.invoke_eq_ok {stub : Stub Ty Val}
    : stub.invoke ctx req = .ok (out, err) ↔ stub.Answers ctx req out err := by
  constructor
  · intro run
    unfold Stub.invoke at run
    split at run
    · cases run
    rename_i method found
    split at run
    · cases run
    split at run
    · cases run
    rename_i elem pointer
    refine ⟨method, elem, found, by omega, pointer, ?_⟩
    split at run
    · cases run
      exact .corrupt ‹_›
    rename_i data fetched
    split at run
    · cases run
    rename_i serializer known
    split at run
    · cases run
      exact .undecodable fetched known ‹_›
    · rename_i arg decoded
      obtain ⟨results, called, run⟩ := bind_eq_ok.mp run
      obtain ⟨fits, called⟩ := Method.reflectCall_eq_ok.mp called
      obtain ⟨r₀, r₁, rest, rfl, returns⟩ := encodeResults_eq_ok.mp run
      exact .called fetched known decoded fits called returns
  · rintro ⟨method, elem, found, enough, pointer, answers⟩
    have enough : ¬ method.numIn < 2 := by omega
    cases answers with
    | corrupt fetched => simp [Stub.invoke, found, enough, pointer, fetched]
    | undecodable fetched known decoded =>
      simp [Stub.invoke, found, enough, pointer, fetched, known, decoded]
    | called fetched known decoded fits called returns =>
      simp only [Stub.invoke, found, if_neg enough, pointer, fetched, known, decoded]
      exact bind_eq_ok.mpr ⟨_, Method.reflectCall_eq_ok.mpr ⟨fits, called⟩,
        encodeResults_eq_ok.mpr ⟨_, _, _, rfl, returns⟩⟩

/-! ## When a response can be encoded -/

def ReplyFits (errorInfo data : Nat) : Prop := 15 + errorInfo ≤ (15 + errorInfo + data) % 2 ^ 32

theorem encodeResponse_ok_iff {r : Response} :
    (∃ bs, encodeResponse (calculateHeadLength (calculateBodyLength r)) =
      .ok bs) ↔ ReplyFits r.errorInfo.length r.data.length := by
  have size : (ofNat (15 + r.errorInfo.length) + ofNat r.data.length).toNat =
      (15 + r.errorInfo.length + r.data.length) % 2 ^ 32 := by simp
  unfold ReplyFits
  rw [← size]
  constructor
  · rintro ⟨bs, run⟩
    obtain ⟨c₀, fixed, run⟩ := bind_eq_ok.mp run
    obtain ⟨c₁, copied, run⟩ := bind_eq_ok.mp run
    obtain ⟨c₂, moved, -⟩ := bind_eq_ok.mp run
    obtain ⟨long, rfl⟩ := Fixed.encode_frontier fixed
    obtain ⟨room, -⟩ := Cursor.copyAll_advance_frontier (bind_eq_ok.mpr ⟨c₁, copied, moved⟩)
    simp only [calculateHeadLength, calculateBodyLength] at long room
    omega
  · intro fits
    let reply := calculateHeadLength (calculateBodyLength r)
    have fixed : reply.toFixed.encode = .ok _ :=
      Fixed.encode_of_le (show 15 ≤ (ofNat (15 + r.errorInfo.length) +
        ofNat r.data.length).toNat by omega)
    have room : r.errorInfo.length ≤ (ofNat (15 + r.errorInfo.length) +
        ofNat r.data.length).toNat - 15 := by omega
    obtain ⟨c₁, copied, moved⟩ :=
      bind_eq_ok.mp (Cursor.copyAll_frontier_of_le reply.toFixed.bytes room)
    exact ⟨_, bind_eq_ok.mpr ⟨_, fixed, bind_eq_ok.mpr ⟨c₁, copied,
      bind_eq_ok.mpr ⟨_, moved, rfl⟩⟩⟩⟩

inductive ErrorText : Option GoError → List Byte → Prop
  | none : ErrorText none []
  | some {e : GoError} {text : List Byte} : e.text = some text → ErrorText (some e) text

theorem errorText_eq_ok {text : List Byte} : errorText err = .ok text ↔ ErrorText err text := by
  cases err with
  | none =>
    constructor
    · rintro ⟨⟩
      exact .none
    · rintro ⟨⟩
      rfl
  | some =>
    constructor
    · intro run
      rw [errorText] at run
      split at run
      · cases run
        exact .some ‹_›
      · cases run
    · intro known
      cases known with
      | some known => simp [errorText, known]

/-! ## When a round does not panic -/

def Server.Serves (s : Server Ty Val) (req : Request) : Prop :=
  match s.services req.serviceName with
  | none => req.ctx.oneWay ∨ ReplyFits (unknownService req.serviceName).length 0
  | some stub => ∃ data err, stub.Answers req.ctx req data err ∧
      (req.ctx.oneWay ∨ ∃ text, ErrorText err text ∧ ReplyFits text.length data.length)

/-- The next message announces at least the eight bytes already read and, when the rest of
it arrives, is well formed and asks for something the server can serve.  What a `Read` did
not fill counts as zero bytes. -/
def Server.Acceptable (s : Server Ty Val) (conn : Conn) : Prop :=
  ∀ bs conn₁, conn.read 8 = .ok (bs, conn₁) → 8 ≤ announced (padTo 8 bs) ∧
    ∀ rest conn₂, conn₁.read (announced (padTo 8 bs) - 8) = .ok (rest, conn₂) →
      let data := padTo 8 bs ++ padTo (announced (padTo 8 bs) - 8) rest
      WellFormed data ∧ s.Serves (requestOf data)

variable {s : Server Ty Val}

open Server

theorem Server.runOneWay_ok_iff : (∃ u, s.runOneWay req = .ok u) ↔
      ∀ stub, s.services req.serviceName = some stub →
        ∃ data err, stub.Answers req.ctx req data err := by
  unfold runOneWay
  cases s.services req.serviceName with
  | none => simp
  | some stub =>
    constructor
    · rintro ⟨u, run⟩ _ ⟨⟩
      obtain ⟨⟨data, err⟩, invoked, -⟩ := bind_eq_ok.mp run
      exact ⟨data, err, Stub.invoke_eq_ok.mp invoked⟩
    · intro answers
      obtain ⟨data, err, answers⟩ := answers stub rfl
      exact ⟨(), bind_eq_ok.mpr ⟨_, Stub.invoke_eq_ok.mpr answers, rfl⟩⟩

theorem Server.reply_ok_iff : (∃ bs, s.reply req = .ok bs) ↔
      match s.services req.serviceName with
      | none => ReplyFits (unknownService req.serviceName).length 0
      | some stub => ∃ data err, stub.Answers req.ctx req data err ∧
          ∃ text, ErrorText err text ∧ ReplyFits text.length data.length := by
  unfold reply invoke
  cases s.services req.serviceName with
  | none => exact encodeResponse_ok_iff
  | some =>
    constructor
    · rintro ⟨bs, run⟩
      obtain ⟨⟨response, err⟩, invoked, run⟩ := bind_eq_ok.mp run
      obtain ⟨⟨data, err'⟩, called, invoked⟩ := bind_eq_ok.mp invoked
      cases invoked
      obtain ⟨text, described, run⟩ := bind_eq_ok.mp run
      exact ⟨data, err, Stub.invoke_eq_ok.mp called, text, errorText_eq_ok.mp described,
        encodeResponse_ok_iff.mp ⟨bs, run⟩⟩
    · rintro ⟨data, err, answers, text, described, fits⟩
      let response : Response :=
        { messageID := req.messageID, version := req.version, compressor := req.compressor,
          serializer := req.serializer, data := data, errorInfo := text }
      obtain ⟨bs, encoded⟩ := (encodeResponse_ok_iff (r := response)).mpr fits
      exact ⟨bs, bind_eq_ok.mpr ⟨_, bind_eq_ok.mpr ⟨_, Stub.invoke_eq_ok.mpr answers, rfl⟩,
        bind_eq_ok.mpr ⟨_, errorText_eq_ok.mpr described, encoded⟩⟩⟩

variable {conn : Conn}

theorem Server.handleRequest_panics_iff :
    (∀ p, s.handleRequest req conn ≠ .panicked p) ↔ s.Serves req := by
  unfold handleRequest
  by_cases oneWay : req.ctx.oneWay
  · have served : s.Serves req ↔ ∃ u, s.runOneWay req = .ok u := by
      rw [runOneWay_ok_iff, Server.Serves]
      cases s.services req.serviceName <;> simp [oneWay]
    rw [served, if_pos oneWay]
    cases s.runOneWay req <;> simp
  · have served : s.Serves req ↔ ∃ bs, s.reply req = .ok bs := by
      rw [reply_ok_iff, Server.Serves]
      simp [oneWay]
    rw [served, if_neg oneWay]
    cases s.reply req with
    | error => simp
    | ok =>
      dsimp only
      split <;> simp

theorem Server.handleMessage_panics_iff {data : List Byte} :
    (∀ p, s.handleMessage data conn ≠ .panicked p) ↔
      WellFormed data ∧ s.Serves (requestOf data) := by
  unfold handleMessage
  cases decoded : decodeRequest data with
  | error =>
    have bad : ¬ WellFormed data := by
      intro good
      rw [decodeRequest_of_wellFormed good] at decoded
      cases decoded
    simp [bad]
  | ok =>
    obtain ⟨good, rfl⟩ := decodeRequest_eq_ok.mp decoded
    simp only [good, true_and]
    exact handleRequest_panics_iff

theorem Server.serve_panics_iff : (∀ p, s.serve conn ≠ .panicked p) ↔ s.Acceptable conn := by
  unfold serve Server.Acceptable receiveRequestStream
  rw [receiveStream_eq]
  cases first : conn.read 8 with
  | error =>
    obtain rfl := Conn.read_eq_error first
    simp [bind, Except.bind]
  | ok out =>
    obtain ⟨bs, conn₁⟩ := out
    by_cases room : 8 ≤ announced (padTo 8 bs)
    · cases second : conn₁.read (announced (padTo 8 bs) - 8) with
      | error =>
        obtain rfl := Conn.read_eq_error second
        simp [bind, Except.bind, room, second]
      | ok out =>
        obtain ⟨rest, conn₂⟩ := out
        simpa [bind, Except.bind, room, second] using handleMessage_panics_iff
    · simp [bind, Except.bind, room]

/-! ## The whole loop -/

/-- The loop never panics exactly when every message it comes to is acceptable to the
server as it then is: each is answered, or the loop returns an error and the connection is
closed. -/
theorem handleConn_robust_iff (server : Nat → Server Ty Val) (conn : Conn) :
    (∀ n p, handleConn server conn n ≠ .panicked p) ↔
      ∀ n replies conn', handleConn server conn n = .running replies conn' →
        (server n).Acceptable conn' := by
  constructor
  · intro robust n replies conn' run
    refine serve_panics_iff.mp fun p panics => robust (n + 1) p ?_
    simp [handleConn, run, panics]
  intro acceptable n p
  induction n with
  | zero => simp [handleConn]
  | succ n ih =>
    cases run : handleConn server conn n with
    | running replies conn' =>
      have safe := serve_panics_iff.mpr (acceptable n replies conn' run)
      simp only [handleConn, run]
      cases served : (server n).serve conn' with
      | panicked q => exact absurd served (safe q)
      | _ => simp
    | closed => simp [handleConn, run]
    | panicked =>
      intro same
      simp only [handleConn, run] at same
      exact ih (run.trans same)

def oneService : Server Unit Unit where
  services name := if name = [112] then
      some
        { methodByName := fun name => if name = bytesOf "Name" then
            some ⟨0, none, true, fun _ _ => none⟩ else none
          serializers := fun _ => none
          compressors := fun _ => none }
    else none

/-- Eight zero bytes, and a request for a method that does not exist, each end in a panic. -/
theorem handleConn_panics :
    handleConn (fun _ => oneService) ⟨List.replicate 8 0, fun _ => 99⟩ 1 =
      .panicked .sliceBounds ∧
    handleConn (fun _ => oneService) ⟨pingBytes, fun _ => 99⟩ 1 = .panicked .reflect :=
  ⟨rfl, rfl⟩

end Soil.Rpc
