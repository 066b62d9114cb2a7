import SipfClient.ObjectWire
import SipfClient.ObjectUpload
import SipfClient.CommandText
set_option autoImplicit false

/-!
`SipfObjClientObjDown` and the `$$RX` command. The body of the response is memory
behind `body_frag_start`; object pointers are offsets in it. The offsets of the
body bytes the download reads are kept beside its result.
-/

namespace SipfClient.Object
open ByteMem Http HexText Command

structure DownOut where
  otid : List UInt8
  remains : UInt8
  objqty : UInt8
  pObjs : List Nat
  pUserSendDatetime : Nat
  pRecvDatetime : Nat
  deriving DecidableEq, Repr

structure DownRead where
  ret : Int
  out : DownOut
  reads : List Nat
  deriving DecidableEq, Repr

structure Down extends DownRead where
  request : Option HttpRequest
  deriving DecidableEq, Repr

structure DownArgs where
  otid : Bool
  objqty : Bool
  pUserSendDatetime : Bool
  pRecvDatetime : Bool
  deriving DecidableEq, Repr

def DownArgs.given : DownArgs := ⟨true, true, true, true⟩

/-- The loop over the objects, `n` slots of `p_objs` being left: the offsets it
lists and the offsets of the length bytes it reads, both in the payload. -/
def objLoop (payload : Mem) (limit : Nat) : Nat → Nat → List Nat × List Nat
  | 0, _ => ([], [])
  | 1, idx => ([idx], [])
  | n + 2, idx =>
    let next := idx + (3 + (payload (idx + 2)).toNat)
    if limit ≤ next then ([idx], [idx + 2])
    else
      let rest := objLoop payload limit (n + 1) next
      (idx :: rest.1, (idx + 2) :: rest.2)

/-- The body offsets read before the objects: command, result, OTID, REMAINS. -/
def fixedReads : List Nat := [0,12] ++ (List.range 16).map (13 + ·) ++ [45]

/-- The tail of `SipfObjClientObjDown`, from the check of the status on. -/
def readObjectsDown (r : HttpResponse) (body : Mem) (out : DownOut) : DownRead :=
  if r.httpStatus ≠ "OK" then
    if r.httpStatus = "Unauthorized" then ⟨-401, out, []⟩ else ⟨-1, out, []⟩
  else if r.contentLength < 12 ∨ 12 + buffSz ≤ r.contentLength then ⟨-1, out, []⟩
  else if body 0 ≠ objectsDown then ⟨-1, out, [0]⟩
  else if body 12 ≠ 0x00 then ⟨-1, out, [0,12]⟩
  else
    let fixed : DownOut := ⟨body.read 13 16, body 45, 0, [], 29, 37⟩
    if r.contentLength = 12 + 35 then ⟨0, fixed, fixedReads⟩
    else
      let objs := objLoop (body.shift 12) (r.contentLength - 12) objMaxCnt 35
      ⟨0, { fixed with objqty := UInt8.ofNat objs.1.length, pObjs := objs.1.map (12 + ·) },
        fixedReads ++ objs.2.map (12 + ·)⟩

def objectsDownRequestBytes : List UInt8 := commandHeader objectsDownRequest ++ [0x00,0x01,0x00]

/-- The record of the response is cleared before the request. -/
def sipfObjClientObjDown (cfg : Connector) (args : DownArgs) (net : NetOutcome) (out : DownOut) :
    Down :=
  if !args.otid ∨ !args.objqty ∨ !args.pUserSendDatetime ∨ !args.pRecvDatetime then
    ⟨⟨-1, out, []⟩, none⟩
  else
    let req := connectorRequest cfg objectsDownRequestBytes
    let run := runConnectorHttpRequest cfg net HttpResponse.zero
    if run.ret < 0 then ⟨⟨run.ret, out, []⟩, some req⟩
    else ⟨readObjectsDown run.httpRes (net.client.bodyOf run.httpRes) out, some req⟩

def downBody (cfg : Connector) (net : NetOutcome) : Mem :=
  net.client.bodyOf (runConnectorHttpRequest cfg net HttpResponse.zero).httpRes

def rxObjectLine (o : SipfObjectObject) : List UInt8 :=
  hex2 o.objTagid ++ [0x20] ++ hex2 o.objType ++ [0x20] ++ hex2 o.valueLen ++ [0x20] ++
    hexOf o.bytes ++ crlf

/-- The loop over the listed objects; `none` is the NG answer to a failed parse. -/
def rxObjects (body : Mem) : List Nat → Option (List UInt8)
  | [] => some []
  | p :: ps => do
    let o ← sipfObjectParse (some (body.shift p)) 256 (some ())
    let rest ← rxObjects body ps
    pure (rxObjectLine o ++ rest)

/-- `out` is what the uninitialised locals hold. Text that does not fit in
`outBuffLen` bytes with its NUL is written outside `out_buff`. -/
def cmdAsciiCmdRx (cfg : Connector) (net : NetOutcome) (out : DownOut) (inLen : UInt16)
    (outBuffLen : Nat) : Except OutOfBounds (List UInt8) :=
  if inLen ≠ 0 then .ok cmdCreateResIllParam
  else
    let down := sipfObjClientObjDown cfg DownArgs.given net out
    let body := downBody cfg net
    let err := UInt8.ofInt down.ret
    if err ≠ 0 then .ok cmdCreateResNg
    else if down.out.objqty = 0 then .ok cmdCreateResOk
    else
      match rxObjects body (down.out.pObjs.take down.out.objqty.toNat) with
      | none => .ok cmdCreateResNg
      | some objs =>
        let text := hexOf down.out.otid ++ crlf ++
          hexOf (body.read down.out.pUserSendDatetime 8) ++ crlf ++
          hexOf (body.read down.out.pRecvDatetime 8) ++ crlf ++
          hex2 down.out.remains ++ crlf ++ hex2 down.out.objqty ++ crlf ++ objs ++ ascii "OK\r\n"
        if text.length + 1 ≤ outBuffLen then .ok text else .error ⟨0, text.length + 1, outBuffLen⟩

theorem objLoop_walk (payload : Mem) (limit n idx : Nat) :
    (objLoop payload limit n idx).1 =
      LengthRecords.walk (fun o => o + 3 + (payload (o + 2)).toNat) limit n idx := by
  induction n generalizing idx with
  | zero => rfl
  | succ n ih =>
    cases n with
    | zero => simp [objLoop,LengthRecords.walk]
    | succ n =>
      simp only [objLoop,LengthRecords.walk] at ih ⊢
      by_cases h : limit ≤ idx + (3 + (payload (idx + 2)).toNat)
      · rw [if_pos h,if_neg (by omega)]
      · rw [if_neg h,if_pos (by omega)]
        simp only [List.cons.injEq,true_and]
        rw [ih,Nat.add_assoc idx 3]

theorem objLoop_reads (payload : Mem) (limit n idx : Nat) :
    ∀ i ∈ (objLoop payload limit n idx).2, ∃ o ∈ (objLoop payload limit n idx).1, i = o + 2 := by
  induction n generalizing idx with
  | zero => simp [objLoop]
  | succ n ih =>
    cases n with
    | zero => simp [objLoop]
    | succ n =>
      simp only [objLoop]
      split_ifs with h
      · simp
      · intro i hi
        simp only [List.mem_cons] at hi
        rcases hi with rfl | hi
        · exact ⟨idx,by simp,rfl⟩
        · obtain ⟨o,ho,rfl⟩ := ih _ i hi
          exact ⟨o,by simp [ho],rfl⟩

end SipfClient.Object
