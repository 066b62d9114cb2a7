import SipfClient.CommandText
import SipfClient.Xmodem
set_option autoImplicit false

/-!
`$$FGET`: the fragments of a download are handed to `cmdFgetCb`, which sends them
to the host in XMODEM blocks. The block number lives across the fragments.
-/

namespace SipfClient.Xmodem
open ByteMem HexText Command

def fputBlockSendRetry : Nat := 3

def payloadLen (len idx : Nat) : Nat :=
  if len - idx < xmodemSzBlock then len % xmodemSzBlock else xmodemSzBlock

/-- The tries for one block: the value returned from inside the loop, if any. After
the last try the loop is left as after an ACK, with the block number as it was. -/
def fgetTry : Nat → UInt8 → List UInt8 → Io RxEvent → Option Int × UInt8 × Io RxEvent
  | 0, bn, _, io => (none, bn, io)
  | n + 1, bn, payload, io =>
    match xmodemSendBlock bn payload io with
    | (.failed, io) => (some (-1), bn, io)
    | (.timeout, io) => fgetTry n bn payload io
    | (.retry, io) => fgetTry n bn payload io
    | (.canceled, io) => (some (-2), bn, io)
    | (.ok, io) => (none, bn + 1, io)

def fgetBlocks (buff : List UInt8) : Nat → Nat → UInt8 → Io RxEvent → Int × UInt8 × Io RxEvent
  | 0, _, bn, io => (0, bn, io)
  | n + 1, idx, bn, io =>
    if idx < buff.length then
      match fgetTry fputBlockSendRetry bn ((buff.drop idx).take (payloadLen buff.length idx)) io with
      | (some ret, bn, io) => (ret, bn, io)
      | (none, bn, io) => fgetBlocks buff n (idx + xmodemSzBlock) bn io
    else (0, bn, io)

def cmdFgetCb (bn : UInt8) (buff : List UInt8) (io : Io RxEvent) : Int × UInt8 × Io RxEvent :=
  fgetBlocks buff (buff.length / xmodemSzBlock + 1) 0 bn io

def fgetFragments : List (List UInt8) → UInt8 → Io RxEvent → Int × UInt8 × Io RxEvent
  | [], bn, io => (0, bn, io)
  | f :: fs, bn, io =>
    let (ret, bn, io) := cmdFgetCb bn f io
    if ret < 0 then (ret, bn, io) else fgetFragments fs bn io

/-- What `SipfFileDownload` comes to apart from the callback: an error before the
first fragment (0 if there is none), the fragments, and its result behind them. -/
structure DownloadCourse where
  start : Int
  fragments : List (List UInt8)
  finish : Int

def sipfFileDownload (course : DownloadCourse) (bn : UInt8) (io : Io RxEvent) :
    Int × UInt8 × Io RxEvent :=
  if course.start < 0 then (course.start, bn, io)
  else
    let (ret, bn, io) := fgetFragments course.fragments bn io
    (if ret < 0 then ret else course.finish, bn, io)

def cmdFgetOkRes (fileSize : Int) : List UInt8 :=
  crlf ++ hex8 (UInt32.ofInt fileSize) ++ ascii "\r\nOK\r\n"

def cmdFgetNgRes : List UInt8 := ascii "\r\nNG\r\n"

def fgetSession (course : DownloadCourse) (io : Io RxEvent) : List UInt8 × Io RxEvent :=
  let io := xmodemBegin io
  match xmodemSendWaitRequest io with
  | (.ok, io) =>
    let (ret, _, io) := sipfFileDownload course 1 io
    if ret < 0 then (cmdFgetNgRes, xmodemEnd (xmodemTransmitCancel io).2)
    else
      match xmodemSendEnd io with
      | (.timeout, io) => (cmdFgetNgRes, xmodemEnd (xmodemTransmitCancel io).2)
      | (.failed, io) => (cmdFgetNgRes, xmodemEnd (xmodemTransmitCancel io).2)
      | (_, io) => (cmdFgetOkRes ret, xmodemEnd io)
  | (_, io) => (cmdFgetNgRes, xmodemEnd (xmodemTransmitCancel io).2)

def cmdAsciiCmdFget (inBuff : Mem) (inLen : UInt16) (course : List UInt8 → DownloadCourse)
    (io : Io RxEvent) : List UInt8 × Io RxEvent :=
  if inBuff 0 ≠ 0x20 then (cmdCreateResIllParam, io)
  else if inLen < 2 then (cmdCreateResIllParam, io)
  else fgetSession (course ((inBuff.read 1 cmdBuffSz).takeWhile (· ≠ 0))) io

end SipfClient.Xmodem
