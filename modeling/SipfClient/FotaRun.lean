import SipfClient.FileUrl
import SipfClient.Semaphores
set_option autoImplicit false

/-!
`fota_http.c`: `FotaHttpRun` in the main thread and `fota_dl_event_handler` in the thread of
the download library. They share a semaphore and the UART. Each party has a list of what it
has still to do, and a move of the system is the next item of one of the lists.
-/

namespace SipfClient.Fota
open ByteMem HexText Http File Semaphores

def imageUrlLen : Nat := 256

inductive FotaDownloadEvt
  | error
  | progress (percent : Nat)
  | finished
  | other
  deriving DecidableEq, Repr

inductive FotaMsg
  | downloadFile
  | fileName (file : List UInt8)
  | newLine
  | start
  | failed
  | progress (percent : Nat)
  | finished
  | reboot
  deriving DecidableEq, Repr

def printPadded (n : Nat) : List UInt8 :=
  let digits := CText.printU 1 n
  List.replicate (3 - digits.length) 0x20 ++ digits

def FotaMsg.text : FotaMsg → List UInt8
  | .downloadFile => ascii "DOWNLOAD FILE: "
  | .fileName file => file
  | .newLine => ascii "\r\n"
  | .start => ascii "FOTA DOWNLOAD START\r\n"
  | .failed => ascii "FOTA DOWNLOAD FAILED\r\n"
  | .progress percent => printPadded percent ++ ascii "% DOWNLOADED\r\n"
  | .finished => ascii "FOTA DOWNLOAD FINISHED\r\n"
  | .reboot => ascii "REBOOT & RUN UPDATE\r\n"

/-- `UartBrokerPrint` formats in `char msg[140]`. -/
theorem FotaMsg.progress_fits {percent : Nat} (h : percent < 2 ^ 31) :
    (FotaMsg.progress percent).text.length < 140 := by
  have hdigits : (CText.printU 1 percent).length ≤ 10 :=
    CText.printU_length (by omega) (Nat.lt_trans h (by norm_num))
  have hlabel : (ascii "% DOWNLOADED\r\n").length = 14 := by decide
  simp only [FotaMsg.text,printPadded,List.length_append,List.length_replicate,hlabel]
  omega

/-- What `fota_download_start` is called with; a tag of -1 is no TLS. -/
structure FotaTarget where
  host : List UInt8
  path : List UInt8
  secTag : Int
  deriving DecidableEq, Repr

/-- `init` and `start` are `fota_download_init` and `fota_download_start` with their results. -/
inductive FotaAction
  | puts (msg : FotaMsg)
  | init (ret : Int)
  | start (target : FotaTarget) (ret : Int)
  | give
  | take
  | reboot
  | ret (ret : Int)
  deriving DecidableEq, Repr

structure FotaCall where
  fileNameSuffix : List UInt8
  net : NetOutcome
  init : Int
  start : Int

def startActions (start : Int) : List FotaAction :=
  if start ≠ 0 then [.ret start] else [.puts .start,.take,.ret (-1)]

def secTagOf (protocol : List UInt8) : Option Int :=
  if protocol = ascii "https" then some 42
  else if protocol = ascii "http" then some (-1)
  else none

/-- `image_url` is a static of this file, the record of the request one of `sipf_file.c`. -/
def fotaHttpRun (cfg : FileConfig) (st : FileState) (c : FotaCall) :
    Except OutOfBounds (FileState × List FotaAction) := do
  let r := sipfFileRequestURL cfg .download c.fileNameSuffix st.imageUrl imageUrlLen st.httpRes c.net
  if r.ret < 0 then pure (⟨r.url, r.httpRes⟩, [.ret (-1)])
  else do
    let p ← sipfClientHttpParseURL imageUrlLen r.url r.ret.toNat
    let st : FileState := ⟨p.url, r.httpRes⟩
    if p.ret ≠ 0 then pure (st, [.ret (-1)])
    else
      match p.host, p.path with
      | some host, some path => do
        let protocol ← strIn imageUrlLen p.url 0
        match secTagOf protocol with
        | none => pure (st, [.ret (-1)])
        | some secTag =>
          if c.init ≠ 0 then pure (st, [.init c.init,.ret c.init])
          else do
            let host ← strIn imageUrlLen p.url host
            let path ← strIn imageUrlLen p.url path
            pure (st, [.init 0,.puts .downloadFile,.puts (.fileName c.fileNameSuffix),.puts .newLine,
              .start ⟨host, path, secTag⟩ c.start] ++ startActions c.start)
      | _, _ => pure (st, [.ret (-1)])

def fotaDlEventHandler : FotaDownloadEvt → List FotaAction
  | .error => [.puts .failed,.give]
  | .progress percent => [.puts (.progress percent)]
  | .finished => [.puts .finished,.puts .reboot,.reboot]
  | .other => []

inductive FotaRecord
  | called (file : List UInt8)
  | event (e : FotaDownloadEvt)
  | main (a : FotaAction)
  | handler (a : FotaAction)
  deriving DecidableEq, Repr

/-- `semDownloadFailed` counts to 1. Nothing follows a reboot. -/
structure FotaState where
  semDownloadFailed : Nat
  main : List FotaAction
  handler : List FotaAction
  handlerSet : Bool
  rebooted : Bool
  files : FileState
  log : List FotaRecord

namespace FotaState

def boot : FotaState := ⟨0, [], [], false, false, .boot, []⟩

def record (s : FotaState) (r : FotaRecord) : FotaState := { s with log := s.log ++ [r] }

/-- `k_sem_take` with `K_FOREVER` waits for the semaphore. -/
def perform (s : FotaState) : FotaAction → Option FotaState
  | .give => some { s with semDownloadFailed := giveSem 1 s.semDownloadFailed }
  | .take => (takeSem s.semDownloadFailed).map fun n => { s with semDownloadFailed := n }
  | .init ret => some { s with handlerSet := s.handlerSet || ret = 0 }
  | .reboot => some { s with rebooted := true }
  | .puts _ => some s
  | .start _ _ => some s
  | .ret _ => some s

end FotaState

inductive FotaMove
  | call (c : FotaCall)
  | event (e : FotaDownloadEvt)
  | main
  | handler

/-- The library delivers its events one after the other, and none before it is given the
handler. A call that leaves its buffer is the end of a run. -/
def FotaState.step (cfg : FileConfig) (s : FotaState) (m : FotaMove) : Option FotaState :=
  if s.rebooted then none
  else
    match m with
    | .call c =>
      match s.main, fotaHttpRun cfg s.files c with
      | [], .ok (files, todo) =>
        some ({ s with files := files, main := todo }.record (.called c.fileNameSuffix))
      | _, _ => none
    | .event e =>
      match s.handler with
      | [] =>
        if s.handlerSet then some ({ s with handler := fotaDlEventHandler e }.record (.event e))
        else none
      | _ :: _ => none
    | .main =>
      match s.main with
      | [] => none
      | a :: todo => ({ s with main := todo }.perform a).map fun s' : FotaState => s'.record (.main a)
    | .handler =>
      match s.handler with
      | [] => none
      | a :: todo => ({ s with handler := todo }.perform a).map fun s' : FotaState => s'.record (.handler a)

end SipfClient.Fota
