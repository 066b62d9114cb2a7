import SipfClient.Loops
import SipfClient.CommandText
import SipfClient.ObjectUpload
import SipfClient.Xmodem
set_option autoImplicit false

/-!
`$$FPUT`: a file comes in from the host in XMODEM blocks and goes out as the body
of an HTTP request. The command receives the first block, the payload callback of
the request sends it and receives the others; both use one static block buffer.
-/

namespace SipfClient.Xmodem
open ByteMem HexText Loops Http Command

variable {ρ : Type}

def int32 (n : Int) : Int := n.bmod (2 ^ 32)

theorem int32_small {n : Nat} (h : n < 2 ^ 31) : int32 n = n := by
  rw [int32,Int.bmod_eq_of_le_mul_two] <;> omega

def uint32 (n : Int) : Int := n % 2 ^ 32

def SendRet.value : SendRet → Int
  | .taken n _ => n
  | .failed errno _ => -errno

def sendChunkedData (block : Mem) (io : Io ρ) : Int × Io ρ :=
  let r := io.sends.headD .full
  (r.value, { io with sends := io.sends.tail }.log (.send (block.read 3 128) r))

def sendChunkedEnd : Int := 0

structure FputLoop (ρ : Type) where
  io : Io ρ
  bn : UInt8
  block : Mem
  cntRetry : Nat
  totalSent : Int

abbrev Receiver (ρ : Type) := UInt8 → Mem → Io ρ → Recv ρ

def receive (recv : Receiver ρ) (bn : UInt8) (block : Mem) (io : Io ρ) : Recv ρ :=
  let r := recv bn block io
  { r with io := r.io.log (.received r.ret (r.block.read 0 132)) }

/-- One round of the loop in `cmdFputSendCb`: the loop is left by `break` (no value)
or by `return` (with its value). -/
def fputBody (recv : Receiver ρ) (s : FputLoop ρ) : FputLoop ρ ⊕ (Option Int × FputLoop ρ) :=
  let r := receive recv s.bn s.block s.io
  let s := { s with io := r.io, bn := r.bn, block := r.block }
  match r.ret with
  | .ok =>
    let (ret, io) := sendChunkedData s.block s.io
    if ret < 0 then .inr (some ret, { s with io := (xmodemTransmitCancel io).2 })
    else .inl { s with
      io := (xmodemReceiveReqNextBlock io).2, totalSent := int32 (s.totalSent + ret), cntRetry := 0 }
  | .finished => .inr (none, s)
  | .retry =>
    if 10 < s.cntRetry then
      .inr (some (-1), { s with io := (xmodemTransmitCancel s.io).2, cntRetry := s.cntRetry + 1 })
    else .inl { s with
      io := (xmodemReceiveReqCurrentBlock s.io).2, cntRetry := s.cntRetry + 1 }
  | .canceled => .inr (none, s)
  -- DUP, FAILED and what is not in the enumeration: the loop goes round again
  | _ => .inl s

structure FputCb (ρ : Type) where
  ret : Int
  block : Mem
  io : Io ρ

def fputFinish (szFputFile : UInt32) (s : FputLoop ρ) : FputCb ρ :=
  let totalSent := int32 (s.totalSent + sendChunkedEnd)
  if sendChunkedEnd < 0 then ⟨sendChunkedEnd, s.block, s.io⟩
  else if uint32 totalSent < szFputFile.toNat then ⟨totalSent, s.block, s.io.log .close⟩
  else ⟨totalSent, s.block, s.io⟩

/-- The callback over any receiver. Rounds without anything left to receive are
bounded by the retries; `none` is a loop that has not ended within the bound. -/
def cmdFputSendCbWith (recv : Receiver ρ) (szFputFile : UInt32) (block : Mem) (io : Io ρ) :
    Option (FputCb ρ) :=
  let (ret, io) := sendChunkedData block io
  if ret < 0 then some ⟨-ret, block, io⟩
  else do
    let io := (xmodemReceiveReqNextBlock io).2
    let (out, s) ← loop (fputBody recv) (io.rx.length + 13) ⟨io, 1, block, 0, int32 ret⟩
    match out with
    | some ret => some ⟨ret, s.block, s.io⟩
    | none => some (fputFinish szFputFile s)

def cmdFputSendCb (szFputFile : UInt32) (block : Mem) (io : Io RxEvent) : Option (FputCb RxEvent) :=
  cmdFputSendCbWith xmodemReceiveBlock szFputFile block io

def httpRequestCb (ur resp : HttpResponse) : HttpResponse := if 0 < resp.dataLen then resp else ur

structure UploadTarget where
  host : String
  path : String
  tls : Bool
  deriving DecidableEq, Repr

/-- What the server and the network make of one upload: the request for its URL (or
the negative result it or the URL came to), the upload request, whether the HTTP
client gets as far as the payload, and the result of the completion notice. -/
structure UploadCourse where
  target : Except Int UploadTarget
  net : NetOutcome
  httpRes : HttpResponse
  headSent : Bool
  complete : Int

def contentLengthHeader (contentLength : Int) : String :=
  "Content-Length: " ++ toString contentLength ++ "\r\n"

def uploadRequest (t : UploadTarget) (contentLength : Int) : HttpRequest :=
  ⟨.put, t.path, t.host,
    ["Content-Type: application/octet-stream\r\n",contentLengthHeader contentLength], []⟩

structure Upload (ρ : Type) where
  ret : Int
  request : Option HttpRequest
  called : Bool
  block : Mem
  io : Io ρ

instance (net : NetOutcome) (tls : Bool) : Decidable (net.Connects tls) :=
  decidable_of_iff (net.getaddrinfo = 0 ∧ 0 ≤ net.socket ∧ (tls = true → net.tlsSetup = 0) ∧
      net.connect = 0)
    ⟨fun h => ⟨h.1,h.2.1,h.2.2.1,h.2.2.2⟩,fun h => ⟨h.getaddrinfo,h.socket,h.tlsSetup,h.connect⟩⟩

def uploadResult (t : UploadTarget) (course : UploadCourse) (net : NetOutcome) : Int :=
  let run := sipfClientHttpRunRequest httpRequestCb net t.tls course.httpRes
  if run.ret < 0 then run.ret else if run.httpRes.httpStatus ≠ "OK" then -1 else run.ret

/-- The HTTP client sends the head of the request and calls the payload callback; a
negative result of the callback is its own. -/
def sipfFileCallbackUploadRequest (t : UploadTarget) (course : UploadCourse)
    (payloadCb : Mem → Io ρ → Option (FputCb ρ)) (contentLength : Int) (block : Mem) (io : Io ρ) :
    Option (Upload ρ) :=
  let req := uploadRequest t contentLength
  if course.net.Connects t.tls ∧ course.headSent = true then do
    let cb ← payloadCb block io
    let net := if cb.ret < 0 then
      { course.net with client := { course.net.client with ret := cb.ret } } else course.net
    some ⟨uploadResult t course net, some req, true, cb.block, cb.io⟩
  else some ⟨uploadResult t course course.net, some req, false, block, io⟩

def sipfFileUpload (course : UploadCourse) (payloadCb : Mem → Io ρ → Option (FputCb ρ))
    (szPayload : Int) (block : Mem) (io : Io ρ) : Option (Upload ρ) :=
  match course.target with
  | .error e => some ⟨e, none, false, block, io⟩
  | .ok t => do
    let up ← sipfFileCallbackUploadRequest t course payloadCb szPayload block io
    if up.ret < 0 then some up else some { up with ret := course.complete }

structure FputArgs where
  fileId : List UInt8
  fileSize : UInt32
  deriving DecidableEq, Repr

/-- `none` is the illegal parameter. The spaces behind the first are overwritten with
NULs, so the id ends at the first of them. -/
def fputArgs (inBuff : Mem) (inLen : UInt16) : Option FputArgs :=
  if inBuff 0 ≠ 0x20 then none
  else if inLen < 2 then none
  else
    let spaces := (List.range inLen.toNat).filter fun i => 1 ≤ i ∧ inBuff i = 0x20
    let cut : Mem := fun i => if i ∈ spaces then 0 else inBuff i
    match spaces.getLast? with
    | none => none
    | some last =>
      let size := cut.shift (last + 1)
      -- `strlen` of the digits is 8
      if (List.range 8).all (fun i => size i ≠ 0) ∧ size 8 = 0 then
        let (b3, e3) := hexToUint8 size
        let (b2, e2) := hexToUint8 (size.shift 2)
        let (b1, e1) := hexToUint8 (size.shift 4)
        let (b0, e0) := hexToUint8 (size.shift 6)
        if e3 ≠ 0 ∨ e2 ≠ 0 ∨ e1 ≠ 0 ∨ e0 ≠ 0 then none
        else some ⟨(cut.read 1 inLen.toNat).takeWhile (· ≠ 0),
          (b3.toUInt32 <<< 24) + (b2.toUInt32 <<< 16) + (b1.toUInt32 <<< 8) + b0.toUInt32⟩
      else none

def cmdFputOkRes (fileSize : UInt32) : List UInt8 :=
  hex8 fileSize ++ ascii "\r\nOK\r\n"

inductive FirstBlock
  | received
  | retryOver
  | other (ret : XmodemRecvRet)
  deriving DecidableEq, Repr

def firstBody (recv : Receiver ρ) (s : FputLoop ρ) : FputLoop ρ ⊕ (FirstBlock × FputLoop ρ) :=
  let r := receive recv s.bn s.block s.io
  let s := { s with io := r.io, bn := r.bn, block := r.block }
  match r.ret with
  | .ok => .inr (.received, s)
  | .retry =>
    if s.cntRetry < 10 then .inl { s with
      io := (xmodemReceiveReqCurrentBlock s.io).2, cntRetry := s.cntRetry + 1 }
    else .inr (.retryOver, { s with io := (xmodemTransmitCancel s.io).2, cntRetry := s.cntRetry + 1 })
  | ret => .inr (.other ret, s)

/-- A negative value is returned without a response. -/
structure FputRun (ρ : Type) where
  ret : Except Int (List UInt8)
  upload : Option (Upload ρ)
  io : Io ρ

/-- The session behind the parameter checks, from `XmodemBegin` on. `block` is what
an earlier session left in the static buffer. -/
def fputSession (recv : Receiver ρ) (args : FputArgs) (course : UploadCourse) (block : Mem)
    (io : Io ρ) : Option (FputRun ρ) :=
  let (ret, io) := xmodemReceiveStart (xmodemBegin io)
  if ret < 0 then some ⟨.error ret, none, io⟩
  else do
    let (first, s) ← loop (firstBody recv) 12 ⟨io, 0, block, 0, 0⟩
    match first with
    | .received =>
      let up ← sipfFileUpload course (cmdFputSendCbWith recv args.fileSize)
        (int32 args.fileSize.toNat) s.block s.io
      some ⟨.ok (if up.ret < 0 then cmdCreateResNg else cmdFputOkRes args.fileSize), some up,
        xmodemEnd up.io⟩
    | _ => some ⟨.ok cmdCreateResNg, none, xmodemEnd s.io⟩

/-- What the server makes of an upload may depend on the file id. -/
def cmdAsciiCmdFput (inBuff : Mem) (inLen : UInt16) (course : List UInt8 → UploadCourse)
    (block : Mem) (io : Io RxEvent) : Option (FputRun RxEvent) :=
  match fputArgs inBuff inLen with
  | none => some ⟨.ok cmdCreateResIllParam, none, io⟩
  | some args => fputSession xmodemReceiveBlock args (course args.fileId) block io

end SipfClient.Xmodem
