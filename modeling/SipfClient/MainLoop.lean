import SipfClient.HandlerLaws
set_option autoImplicit false

/-!
`main`, from the registers on: the authentication at boot, and the loop that drains
the receive queue and looks for a change of the mode register.
-/

namespace SipfClient
open ByteMem HexText Command

/-- What `SipfAuthRequest` and `SipfClientHttpSetAuthInfo` return. -/
structure Attempt where
  request : Int
  setAuthInfo : Int
  deriving DecidableEq, Repr

def Attempt.succeeded (a : Attempt) : Bool := 0 ≤ a.request ∧ 0 ≤ a.setAuthInfo

/-- One round of the main loop: the bytes it finds in the queue, and what comes of an
authentication if it makes one. -/
structure Iteration where
  input : List (UInt8 × World)
  attempt : Attempt

structure Main where
  device : Device
  prevAuthMode : UInt8

def Main.mode (m : Main) : UInt8 := m.device.registers.mode

structure Turn where
  steps : List Step
  attempt : Option Attempt
  main : Main

/-- The retries at boot; `none` is a device that is still waiting for its first success. -/
def bootAuth (r : Registers) : List Int → Option Registers
  | [] => none
  | err :: errs => if err < 0 then bootAuth (r.setMode 0x00) errs else some r

/-- A success does not set the register again. -/
def boot (v : Version) (errs : List Int) (setAuthInfo : Int) : Option Main := do
  let r ← bootAuth ((registersReset (.boot v)).setMode 0x01) errs
  let r := if setAuthInfo < 0 then r.setMode 0x00 else r
  some ⟨.init r, 0x01⟩

def drain (d : Device) : List (UInt8 × World) → Except Fault (List Step × Device)
  | [] => .ok ([], d)
  | (b, w) :: input => do
    let s ← deviceStep d b w
    let (steps, d) ← drain s.device input
    pure (s :: steps, d)

def mainTurn (m : Main) (it : Iteration) : Except Fault Turn := do
  let (steps, d) ← drain m.device it.input
  if d.registers.mode = 0x01 ∧ m.prevAuthMode = 0x00 then
    let r := if it.attempt.request < 0 then d.registers.setMode 0x00 else d.registers
    let r := if it.attempt.setAuthInfo < 0 then r.setMode 0x00 else r
    pure ⟨steps, some it.attempt, ⟨{ d with registers := r }, r.mode⟩⟩
  else pure ⟨steps, none, ⟨d, d.registers.mode⟩⟩

def mainRun (m : Main) : List Iteration → List Turn
  | [] => []
  | it :: its =>
    match mainTurn m it with
    | .error _ => []
    | .ok t => t :: mainRun t.main its

def modeWrites (es : List Effect) : List UInt8 :=
  es.filterMap fun
    | .registersWrite addr value ret => if addr = 0 ∧ 0 ≤ ret then some value else none
    | .fotaHttpRun _ => none

def Turn.writes (t : Turn) : List UInt8 := modeWrites (t.steps.flatMap Step.effects)

theorem getLastD_append {α : Type} (a b : List α) (x : α) :
    (a ++ b).getLastD x = b.getLastD (a.getLastD x) := by
  cases b with
  | nil => simp
  | cons y b => simp [List.getLastD_eq_getLast?,List.getLast?_append]

theorem modeWrites_append (a b : List Effect) : modeWrites (a ++ b) = modeWrites a ++ modeWrites b :=
  List.filterMap_append

theorem does_mode {d : Device} {c : CmdCall} {r : Handled} (h : Does d c r) :
    r.registers.mode = (modeWrites r.effects).getLastD d.registers.mode := by
  cases h with
  | answers hc ret => rfl
  | updates hc text file runs => cases file <;> rfl
  | unlocks hc => rfl
  | locks hc ret => rfl
  | writes hc addr value text =>
    simp only [registersWrite_mode,modeWrites]
    by_cases ha : addr = 0
    · subst ha
      simp [registersWrite_mode_ret]
    · simp [ha]

theorem drain_mode {d d' : Device} {input : List (UInt8 × World)} {steps : List Step}
    (h : drain d input = .ok (steps, d')) : d'.registers.mode =
      (modeWrites (steps.flatMap Step.effects)).getLastD d.registers.mode := by
  induction input generalizing d steps with
  | nil =>
    cases h
    rfl
  | cons x input ih =>
    obtain ⟨b,w⟩ := x
    obtain ⟨s,hs,h⟩ := bind_ok h
    obtain ⟨⟨rest,d''⟩,hrest,h⟩ := bind_ok h
    cases h
    have hstep : s.device.registers.mode = (modeWrites s.effects).getLastD d.registers.mode := by
      rcases deviceStep_does hs with ⟨-,-,hreg,heff⟩ | ⟨c,p,r,-,hdoes,-,hreg,heff⟩
      · rw [hreg,heff]
        rfl
      · rw [hreg,heff]
        exact @does_mode ⟨p, d.isUnlocked, d.registers⟩ c r hdoes
    rw [ih hrest,hstep,List.flatMap_cons,modeWrites_append,getLastD_append]

section Turns

variable {m : Main} {it : Iteration} {t : Turn}

theorem mainTurn_prev (h : mainTurn m it = .ok t) : t.main.prevAuthMode = t.main.mode := by
  obtain ⟨⟨steps,d⟩,-,h⟩ := bind_ok h
  simp only at h
  split_ifs at h <;> cases h <;> rfl

/-- The authentication in a round: it is made if the drain ends at 0x01 and the round
before ended at 0x00, and it leaves the register telling how it went. -/
theorem mainTurn_attempt (h : mainTurn m it = .ok t) :
    (t.writes.getLastD m.mode = 0x01 ∧ m.prevAuthMode = 0x00 ∧ t.attempt = some it.attempt ∧
        t.main.mode = if it.attempt.succeeded then 0x01 else 0x00) ∨
      ¬ (t.writes.getLastD m.mode = 0x01 ∧ m.prevAuthMode = 0x00) ∧ t.attempt = none ∧
        t.main.mode = t.writes.getLastD m.mode := by
  obtain ⟨⟨steps,d⟩,hdrain,h⟩ := bind_ok h
  have hmode := drain_mode hdrain
  simp only at h
  split_ifs at h with hc hreq hset hset
  all_goals cases h
  · refine .inl ⟨hmode.symm.trans hc.1,hc.2,rfl,?_⟩
    simp [Main.mode,Attempt.succeeded,Int.not_le.2 hset]
  · refine .inl ⟨hmode.symm.trans hc.1,hc.2,rfl,?_⟩
    simp [Main.mode,Attempt.succeeded,Int.not_le.2 hreq]
  · refine .inl ⟨hmode.symm.trans hc.1,hc.2,rfl,?_⟩
    simp [Main.mode,Attempt.succeeded,Int.not_le.2 hset]
  · refine .inl ⟨hmode.symm.trans hc.1,hc.2,rfl,?_⟩
    simp [Main.mode,Attempt.succeeded,Int.not_lt.1 hreq,Int.not_lt.1 hset,hc.1]
  · exact .inr ⟨fun hn => hc ⟨hmode.trans hn.1,hn.2⟩,rfl,hmode⟩

end Turns

end SipfClient
