import SipfClient.FileUrl
import SipfClient.Runs
set_option autoImplicit false

/-!
`SipfFileDownload` and `download_client_callback`, which runs on another thread. They
share a semaphore, an error variable and the pointer to the fragment callback, and so do
all downloads. A move of the system is one access of one party to what they share.
-/

namespace SipfClient.File
open Runs

/-- `DOWNLOAD_CLIENT_EVT_*`: a fragment with what its callback returns, if one is called,
and the end with `dc.file_size`. -/
inductive DownloadClientEvt
  | fragment (cbRet : Int)
  | done (fileSize : UInt32)
  | error
  | other
  deriving DecidableEq, Repr

/-- `dl_cb_err = err` and `k_sem_give(&sem_dl_finish)` -/
inductive CbAction
  | setErr (err : Int)
  | give
  deriving DecidableEq, Repr

def einval : Int := 22

def downloadClientCallback (dlCb : Bool) : Option DownloadClientEvt → List CbAction × Int
  | none => ([], -einval)
  | some (.fragment ret) =>
    if dlCb then
      if ret < 0 then ([.setErr ret,.give], ret) else ([], 0)
    else ([], 0)
  | some (.done _) => ([.setErr 0,.give], 0)
  | some .error => ([.setErr (-1),.give], -1)
  | some .other => ([], 0)

def doneSize : Option DownloadClientEvt → Option UInt32
  | some (.done fileSize) => some fileSize
  | _ => none

/-- A call: whether a fragment callback is given, what comes of the URL, and the results
of `download_client_init`, `download_client_set_host` and `download_client_start`. -/
structure DownloadCall where
  cb : Bool
  target : Except Int Transfer
  init : Int
  setHost : Int
  start : Int

/-- Where the calling thread is: outside, in front of the first access, behind
`dl_cb = cb`, at `k_sem_take` with download `k` started, or behind it. -/
inductive Caller
  | idle
  | called (c : DownloadCall)
  | configured (c : DownloadCall)
  | waiting (k : Nat)
  | woken (k : Nat)

/-- The thread of a download: it delivers nothing before the start and at the end; a
callback has actions left, and its event may have been the last one. -/
inductive Client
  | silent
  | ready
  | running (done : Bool) (todo : List CbAction) (ret : Int)
  deriving DecidableEq, Repr

abbrev Delivered := Bool × Option DownloadClientEvt

inductive DownloadRecord
  | refused (ret : Int)
  | started (k : Nat)
  | event (k : Nat) (e : Delivered)
  | returned (k : Nat) (ret : Int)
  deriving DecidableEq, Repr

structure DownloadState where
  semDlFinish : Nat
  dlCbErr : Int
  dlCb : Bool
  /-- `dc.file_size` -/
  fileSize : UInt32
  caller : Caller
  started : Nat
  clients : Nat → Client
  log : List DownloadRecord

namespace DownloadState

def boot : DownloadState := ⟨0, 0, false, 0, .idle, 0, fun _ => .silent, []⟩

def record (s : DownloadState) (x : DownloadRecord) : DownloadState := { s with log := s.log ++ [x] }

def setClient (s : DownloadState) (k : Nat) (c : Client) : DownloadState :=
  { s with clients := Function.update s.clients k c }

def refuse (s : DownloadState) (ret : Int) : DownloadState :=
  { s with caller := .idle }.record (.refused ret)

/-- The number of the new download is the count of those before it. -/
def downloadClientStart (s : DownloadState) : DownloadState :=
  { s with caller := .waiting s.started, started := s.started + 1 }.setClient s.started .ready
    |>.record (.started s.started)

/-- The size is a `size_t` and goes into an `int`. -/
def result (s : DownloadState) : Int :=
  if s.dlCbErr = 0 then Xmodem.int32 s.fileSize.toNat else s.dlCbErr

/-- `k_sem_take` with `K_FOREVER` comes back only with the semaphore taken. -/
def callerStep (s : DownloadState) : Option DownloadState :=
  match s.caller with
  | .idle => none
  | .called c =>
    match c.target with
    | .error ret => some (s.refuse ret)
    | .ok _ => some { s with fileSize := 0, dlCb := c.cb, caller := .configured c }
  | .configured c =>
    if c.init ≠ 0 then some (s.refuse c.init)
    else if c.setHost ≠ 0 then some (s.refuse c.setHost)
    else if c.start ≠ 0 then some (s.refuse c.start)
    else some s.downloadClientStart
  | .waiting k =>
    if s.semDlFinish = 0 then none
    else some { s with semDlFinish := s.semDlFinish - 1, caller := .woken k }
  | .woken k => some ({ s with caller := .idle }.record (.returned k s.result))

/-- The semaphore counts to 1. -/
def act (s : DownloadState) : CbAction → DownloadState
  | .setErr err => { s with dlCbErr := err }
  | .give => { s with semDlFinish := min (s.semDlFinish + 1) 1 }

section Act

variable (s : DownloadState) (a : CbAction)

@[simp] theorem act_caller : (s.act a).caller = s.caller := by cases a <;> rfl

@[simp] theorem act_started : (s.act a).started = s.started := by cases a <;> rfl

@[simp] theorem act_clients : (s.act a).clients = s.clients := by cases a <;> rfl

@[simp] theorem act_log : (s.act a).log = s.log := by cases a <;> rfl

end Act

/-- Where the download is done `dc.file_size` is the size of the file. -/
def deliver (s : DownloadState) (k : Nat) (evt : Option DownloadClientEvt) : DownloadState :=
  let (todo, ret) := downloadClientCallback s.dlCb evt
  { s with fileSize := (doneSize evt).getD s.fileSize }.setClient k
    (.running (doneSize evt).isSome todo ret) |>.record (.event k (s.dlCb, evt))

/-- Nothing more is delivered behind the last event and behind a callback that has not
returned 0. -/
def clientStep (s : DownloadState) (k : Nat) : Option DownloadState :=
  match s.clients k with
  | .running done (a :: todo) ret => some ((s.act a).setClient k (.running done todo ret))
  | .running done [] ret => some (s.setClient k (if done ∨ ret ≠ 0 then .silent else .ready))
  | _ => none

end DownloadState

inductive DownloadMove
  | call (c : DownloadCall)
  | caller
  | deliver (k : Nat) (evt : Option DownloadClientEvt)
  | client (k : Nat)

def DownloadState.step (s : DownloadState) : DownloadMove → Option DownloadState
  | .call c =>
    match s.caller with
    | .idle => some { s with caller := .called c }
    | _ => none
  | .caller => s.callerStep
  | .deliver k evt => if s.clients k = .ready then some (s.deliver k evt) else none
  | .client k => s.clientStep k

def downloadEvent (k : Nat) : DownloadRecord → Option Delivered
  | .event j e => if j = k then some e else none
  | _ => none

def eventsOf (k : Nat) (log : List DownloadRecord) : List Delivered := log.filterMap (downloadEvent k)

end SipfClient.File
