import SipfClient.MainLoop
import SipfClient.Semaphores
set_option autoImplicit false

/-!
`main` up to its loop. The main thread sets the modem up, tries to attach to the network and
authenticates; `lte_handler` runs in the thread of the link controller. They share the
semaphore `lte_connected` and the UART.
-/

namespace SipfClient.Lte
open ByteMem HexText Command Semaphores

def registerTry : Nat := 3

inductive NwRegStatus
  | searching
  | registeredHome
  | registeredRoaming
  | other
  deriving DecidableEq, Repr

/-- The other events are only logged. -/
inductive LteLcEvt
  | nwRegStatus (status : NwRegStatus)
  | other
  deriving DecidableEq, Repr

inductive BootMsg
  | searching
  | registerd
  | trying
  | timeout
  | iccid (value : List UInt8)
  | gnssFailed
  | authFailed
  | ready
  deriving DecidableEq, Repr

def BootMsg.text : BootMsg → List UInt8
  | .searching => ascii "SEARCHING\r\n"
  | .registerd => ascii "REGISTERD\r\n"
  | .trying => ascii "Trying to attach to LTE network (TIMEOUT: 120000 ms)\r\n"
  | .timeout => ascii "TIMEOUT\r\n"
  | .iccid value => ascii "ICCID: " ++ value ++ ascii "\r\n"
  | .gnssFailed => ascii "Failed to initialize GNSS peripheral\r\n"
  | .authFailed => ascii "Set AuthMode to `SIM Auth' faild...(Retry after 10s)\r\n"
  | .ready => ascii "+++ Ready +++\r\n"

/-- `UartBrokerPrint` formats in `char msg[140]`. -/
theorem BootMsg.text_fits {m : BootMsg} (h : ∀ value, m = .iccid value → value.length ≤ 130) :
    m.text.length < 140 := by
  cases m with
  | iccid value =>
    have hle := h value rfl
    simp only [BootMsg.text,List.length_append]
    have hlabel : (ascii "ICCID: ").length = 7 ∧ (ascii "\r\n").length = 2 := by decide
    omega
  | _ => decide

/-- What a party does, with the results of its calls. `confirm` is `boot_write_img_confirmed`,
`offline` is `lte_lc_offline` and `lte_lc_deinit`. -/
inductive BootAction
  | puts (msg : BootMsg)
  | setup (err : Int)
  | lteInit (err : Int)
  | connect (err : Int)
  | take
  | give
  | offline
  | confirm
  | authRequest (err : Int)
  | setAuthInfo (err : Int)
  | ret (err : Int)
  deriving DecidableEq, Repr

/-- The result of calls that are made one after the other up to the first error. -/
def firstError (errs : List Int) : Int := (errs.find? fun err => err ≠ 0).getD 0

structure ModemSetup where
  modemLibInit : Int
  certExists : Int
  certWrite : Int
  systemModeSet : Int
  xmagpio : Int
  xcoex0 : Int
  pdnCtxCreate : Int
  pdnCtxConfigure : Int

/-- A certificate that cannot be deleted is written over. -/
def certProvision (certExists certWrite : Int) : Int := firstError [certExists,certWrite]

def ModemSetup.err (m : ModemSetup) : Int :=
  firstError [m.modemLibInit,certProvision m.certExists m.certWrite,m.systemModeSet,m.xmagpio,
    m.xcoex0,m.pdnCtxCreate,m.pdnCtxConfigure]

structure ModemInfo where
  init : Int
  paramsInit : Int
  paramsGet : Int
  iccid : List UInt8

def ModemInfo.msgs (i : ModemInfo) : List BootMsg :=
  if i.init = 0 ∧ i.paramsInit = 0 ∧ i.paramsGet = 0 then [.iccid i.iccid] else []

structure GnssSetup where
  eventHandlerSet : Int
  fixRetrySet : Int
  fixIntervalSet : Int
  nmeaMaskSet : Int

def gnssInit (g : GnssSetup) : Int :=
  if g.eventHandlerSet ≠ 0 then -1
  else if g.fixRetrySet ≠ 0 then -1
  else if g.fixIntervalSet ≠ 0 then -1
  else if g.nmeaMaskSet ≠ 0 then -1
  else 0

inductive BootPoint
  | setup
  | lteInit (i : Nat)
  | connect (i : Nat)
  | wait (i : Nat)
  | offline (i : Nat)
  | attached
  | gnss
  | auth
  | authInfo
  | running
  | stopped
  deriving DecidableEq, Repr

def lteHandler : LteLcEvt → List BootAction
  | .nwRegStatus .searching => [.puts .searching]
  | .nwRegStatus .registeredHome => [.puts .registerd,.give]
  | .nwRegStatus .registeredRoaming => [.puts .registerd,.give]
  | .nwRegStatus .other => []
  | .other => []

inductive BootRecord
  | event (e : LteLcEvt)
  | main (a : BootAction)
  | handler (a : BootAction)
  deriving DecidableEq, Repr

/-- `lte_connected` counts to 1. -/
structure BootState where
  point : BootPoint
  lteConnected : Nat
  handlerSet : Bool
  handler : List BootAction
  registers : Registers
  led2 : Bool
  led3 : Bool
  log : List BootRecord

namespace BootState

/-- Behind the reset of the registers and `led_on(2)`. -/
def boot (v : Version) : BootState :=
  ⟨.setup, 0, false, [], registersReset (.boot v), true, false, []⟩

def record (s : BootState) (rs : List BootRecord) : BootState := { s with log := s.log ++ rs }

def goto (s : BootState) (point : BootPoint) (acts : List BootAction) : BootState :=
  { s with point := point }.record (acts.map .main)

/-- `init_modem_and_lte` returns `err`, and `main` gives up. -/
def stop (s : BootState) (acts : List BootAction) (err : Int) : BootState :=
  { s with led2 := false }.goto .stopped (acts ++ [BootAction.ret err])

def setMode (s : BootState) (value : UInt8) : BootState :=
  { s with registers := s.registers.setMode value }

end BootState

/-- The moves of the main thread come with what its next call returns; `timeout` is the
`-EAGAIN` of `k_sem_take`. -/
inductive BootMove
  | setup (m : ModemSetup)
  | lteInit (err : Int)
  | connect (err : Int)
  | take
  | timeout
  | offline
  | attached (info : ModemInfo)
  | gnss (g : GnssSetup)
  | auth (err : Int)
  | authInfo (err : Int)
  | event (e : LteLcEvt)
  | handler

/-- The link controller knows the handler from the first attempt to connect on, and may
call it at any time, also behind a timeout. -/
def BootState.step (s : BootState) (move : BootMove) : Option BootState :=
  match move, s.point with
  | .setup m, .setup =>
    if m.err ≠ 0 then some (s.stop [.setup m.err] m.err)
    else some (s.goto (.lteInit 0) [.setup 0])
  | .lteInit err, .lteInit i =>
    if err ≠ 0 then some (s.stop [.lteInit err] err)
    else some (s.goto (.connect i) [.lteInit 0,.puts .trying])
  | .connect err, .connect i =>
    let s := { s with handlerSet := true }
    if err ≠ 0 then some (s.stop [.connect err] err) else some (s.goto (.wait i) [.connect 0])
  | .take, .wait _ =>
    (takeSem s.lteConnected).map fun n => { s with lteConnected := n }.goto .attached [.take]
  | .timeout, .wait i =>
    if s.lteConnected = 0 then some (s.goto (.offline i) [.puts .timeout]) else none
  | .offline, .offline i =>
    if i + 1 < registerTry then some (s.goto (.lteInit (i + 1)) [.offline])
    else some (s.stop [.offline] (-1))
  | .attached info, .attached => some (s.goto .gnss (info.msgs.map .puts))
  | .gnss g, .gnss =>
    let failed := if gnssInit g ≠ 0 then [.puts .gnssFailed] else []
    some ((s.setMode 0x01).goto .auth (failed ++ [.confirm]))
  | .auth err, .auth =>
    if err < 0 then some ((s.setMode 0x00).goto .auth [.authRequest err,.puts .authFailed])
    else some (s.goto .authInfo [.authRequest err])
  | .authInfo err, .authInfo =>
    let s := if err < 0 then s.setMode 0x00 else s
    some ({ s with led3 := true }.goto .running [.setAuthInfo err,.puts .ready])
  | .event e, _ =>
    match s.handler with
    | [] =>
      if s.handlerSet then some ({ s with handler := lteHandler e }.record [.event e]) else none
    | _ :: _ => none
  | .handler, _ =>
    match s.handler with
    | [] => none
    | .give :: todo =>
      some ({ s with lteConnected := giveSem 1 s.lteConnected, handler := todo }.record
        [.handler .give])
    | a :: todo => some ({ s with handler := todo }.record [.handler a])
  | _, _ => none

end SipfClient.Lte
