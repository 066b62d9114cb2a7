import SipfClient.Loops
import SipfClient.CommandText
import SipfClient.ObjectUpload
set_option autoImplicit false

namespace SipfClient.Command
open ByteMem HexText Loops Object Http

def checkTypeLen (typeId : UInt8) (len : UInt16) : Bool :=
  if typeId = objTypeUint8 ∨ typeId = objTypeInt8 then len = 1
  else if typeId = objTypeUint16 ∨ typeId = objTypeInt16 then len = 2
  else if typeId = objTypeUint32 ∨ typeId = objTypeInt32 ∨ typeId = objTypeFloat32 then len = 4
  else if typeId = objTypeUint64 ∨ typeId = objTypeInt64 ∨ typeId = objTypeFloat64 then len = 8
  else if typeId = objTypeBin ∨ typeId = objTypeStrUtf8 then len ≤ 1000
  else false

def txBuffSz : Nat := 1024

inductive TxState
  | begin
  | tagId
  | type
  | value
  | done
  deriving DecidableEq, Repr

/-- The locals of `cmdAsciiCmdTx` with the two buffers. The indexes are 16 bits
wide and `valueLen` is 8 bits wide. -/
structure TxParse where
  parseState : TxState
  inBuff : Mem
  txBuff : Mem
  idxInBuff : Nat
  idxTxBuff : Nat
  idxValueLen : Nat
  tagId : UInt8
  typeId : UInt8
  valueLen : UInt8

inductive TxEnd
  | illParam
  | parsed (txBuff : Mem) (idxTxBuff : UInt16)

def u16 (n : Nat) : Nat := n % 65536

abbrev TxNext := TxParse ⊕ Except OutOfBounds TxEnd

def refuse : TxNext := .inr (.ok .illParam)

def goOn : Except OutOfBounds TxParse → TxNext
  | .ok s => .inl s
  | .error e => .inr (.error e)

def stBegin (s : TxParse) : TxNext :=
  if s.inBuff s.idxInBuff = 0x20 then
    .inl { s with idxInBuff := u16 (s.idxInBuff + 1), parseState := .tagId }
  else refuse

def stTagId (s : TxParse) : TxNext :=
  if s.inBuff (s.idxInBuff + 2) = 0x20 then
    let inBuff := s.inBuff.set (s.idxInBuff + 2) 0
    let (tagId, err) := hexToUint8 (inBuff.shift s.idxInBuff)
    if err ≠ 0 then refuse
    else .inl { s with
      inBuff := inBuff, tagId := tagId, idxInBuff := u16 (s.idxInBuff + 3), parseState := .type }
  else refuse

/-- The length byte is only reserved here and filled in behind the value. -/
def stType (s : TxParse) : TxNext :=
  if s.inBuff (s.idxInBuff + 2) = 0x20 then
    let inBuff := s.inBuff.set (s.idxInBuff + 2) 0
    let (typeId, err) := hexToUint8 (inBuff.shift s.idxInBuff)
    if err ≠ 0 then refuse
    else goOn do
      let txBuff ← s.txBuff.store txBuffSz s.idxTxBuff [typeId]
      let txBuff ← txBuff.store txBuffSz (u16 (s.idxTxBuff + 1)) [s.tagId]
      pure { s with
        inBuff := inBuff, typeId := typeId, idxInBuff := u16 (s.idxInBuff + 3), txBuff := txBuff
        idxValueLen := u16 (s.idxTxBuff + 2), idxTxBuff := u16 (s.idxTxBuff + 3), valueLen := 0
        parseState := .value }
  else refuse

def closeValue (s : TxParse) (next : TxState) (idxInBuff : Nat) : TxNext :=
  if checkTypeLen s.typeId s.valueLen.toUInt16 = false then refuse
  else goOn do
    let txBuff ← s.txBuff.store txBuffSz s.idxValueLen [s.valueLen]
    pure { s with txBuff := txBuff, parseState := next, idxInBuff := idxInBuff }

def stValue (inLen : Nat) (s : TxParse) : TxNext :=
  if inLen ≤ s.idxInBuff then closeValue s .done s.idxInBuff
  else if s.inBuff s.idxInBuff = 0x20 then closeValue s .tagId (u16 (s.idxInBuff + 1))
  else
    let (b, err) := hexToUint8 (s.inBuff.shift s.idxInBuff)
    match s.txBuff.store txBuffSz s.idxTxBuff [b] with
    | .error e => .inr (.error e)
    | .ok txBuff =>
      if err ≠ 0 then refuse
      else .inl { s with
        txBuff := txBuff, idxTxBuff := u16 (s.idxTxBuff + 1)
        valueLen := s.valueLen + 1, idxInBuff := u16 (s.idxInBuff + 2) }

def txBody (inLen : Nat) (s : TxParse) : TxNext :=
  match s.parseState with
  | .begin => stBegin s
  | .tagId => stTagId s
  | .type => stType s
  | .value => stValue inLen s
  | .done => .inr (.ok (.parsed s.txBuff (UInt16.ofNat s.idxTxBuff)))

/-- The loop starts on a zeroed `tx_buff`; `tag_id`, `type_id` and `idx_value_len`
are set before they are read. -/
def TxParse.init (inBuff : Mem) : TxParse := ⟨.begin, inBuff, Mem.zero, 0, 0, 0, 0, 0, 0⟩

structure TxRun where
  response : List UInt8
  /-- `payload_buffer` and `size` of the call of `SipfObjClientObjUpRaw`. -/
  upload : Option (Mem × UInt16)

/-- Every round but the last moves the index into `in_buff` on, which bounds them:
`none` is a loop that has not ended within the bound. -/
def cmdAsciiCmdTx (cfg : Connector) (httpRes : HttpResponse) (reqBuff inBuff : Mem)
    (inLen : UInt16) (net : NetOutcome) : Option (Except OutOfBounds TxRun) :=
  if inLen < 8 then some (.ok ⟨cmdCreateResIllParam, none⟩)
  else do
    let r ← loop (txBody inLen.toNat) (inLen.toNat + 10) (TxParse.init inBuff)
    some (do
      match ← r with
      | .illParam => pure ⟨cmdCreateResIllParam, none⟩
      | .parsed txBuff size =>
        let up ← sipfObjClientObjUpRaw cfg httpRes reqBuff txBuff size net
        let err := UInt8.ofInt up.ret
        if err = 0 then
          pure ⟨hexOf (up.otid.getD []) ++ ascii "\r\nOK\r\n", some (txBuff, size)⟩
        else pure ⟨cmdCreateResNg, some (txBuff, size)⟩)

end SipfClient.Command
