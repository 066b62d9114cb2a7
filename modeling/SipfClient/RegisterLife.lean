import SipfClient.MainLoop
import SipfClient.RegisterStore
import SipfClient.ParameterGrammar
set_option autoImplicit false

namespace SipfClient
open ByteMem HexText Command Stores

def effectOps : Effect → List RegisterOp
  | .registersWrite addr value _ => [.write addr value]
  | .fotaHttpRun _ => []

def stepOps (s : Step) : List RegisterOp := s.effects.flatMap effectOps

/-- `*REG_00_MODE = 0x00`, where a call has failed. -/
def failedOps (err : Int) : List RegisterOp := if err < 0 then [.write 0x00 0x00] else []

def Attempt.ops (a : Attempt) : List RegisterOp := failedOps a.request ++ failedOps a.setAuthInfo

def turnOps (t : Turn) : List RegisterOp :=
  t.steps.flatMap stepOps ++ t.attempt.toList.flatMap Attempt.ops

def bootOps (errs : List Int) (setAuthInfo : Int) : List RegisterOp :=
  .reset :: .write 0x00 0x01 :: (errs.takeWhile (· < 0)).flatMap failedOps ++ failedOps setAuthInfo

@[simp] theorem runOps_append (r : Registers) (ops more : List RegisterOp) :
    r.runOps (ops ++ more) = (r.runOps ops).runOps more := List.foldl_append

theorem setMode_runOps (r : Registers) (value : UInt8) :
    r.setMode value = r.runOps [.write 0x00 value] := by
  have hlow : (0x00 : UInt8).toNat < 0xf0 := by decide
  simp only [Registers.runOps,List.foldl_cons,List.foldl_nil,RegisterOp.run,
    registersWrite_bank r value hlow]
  rfl

theorem failed_runOps (r : Registers) (err : Int) :
    (if err < 0 then r.setMode 0x00 else r) = r.runOps (failedOps err) := by
  unfold failedOps
  split_ifs
  · exact setMode_runOps r 0x00
  · rfl

theorem bootAuth_runOps {r r' : Registers} {errs : List Int} (h : bootAuth r errs = some r') :
    r' = r.runOps ((errs.takeWhile (· < 0)).flatMap failedOps) := by
  induction errs generalizing r with
  | nil => cases h
  | cons err errs ih =>
    simp only [bootAuth] at h
    split_ifs at h with herr
    · rw [ih h,List.takeWhile_cons_of_pos (by simpa using herr),List.flatMap_cons,runOps_append,
        ← failed_runOps,if_pos herr]
    · cases h
      rw [List.takeWhile_cons_of_neg (by simpa using herr)]
      rfl

theorem boot_runOps {v : Version} {errs : List Int} {setAuthInfo : Int} {m : Main}
    (h : boot v errs setAuthInfo = some m) :
    m.device.registers = (Registers.boot v).runOps (bootOps errs setAuthInfo) := by
  simp only [boot,bind,Option.bind_eq_some_iff] at h
  obtain ⟨r,hr,hm⟩ := h
  cases hm
  rw [Device.init,failed_runOps,bootAuth_runOps hr,setMode_runOps]
  simp only [bootOps,List.cons_append,← runOps_append]
  rfl

theorem does_runOps {d : Device} {c : CmdCall} {r : Handled} (h : Does d c r) :
    r.registers = d.registers.runOps (r.effects.flatMap effectOps) := by
  cases h with
  | answers hc ret => rfl
  | updates hc text file runs => cases file <;> rfl
  | unlocks hc => rfl
  | locks hc ret => rfl
  | writes hc addr value text => rfl

theorem deviceStep_runOps {d : Device} {b : UInt8} {w : World} {s : Step}
    (h : deviceStep d b w = .ok s) : s.device.registers = d.registers.runOps (stepOps s) := by
  rcases deviceStep_does h with ⟨-,-,hreg,heff⟩ | ⟨c,p,r,-,hdoes,-,hreg,heff⟩
  · rw [hreg,stepOps,heff]
    rfl
  · rw [hreg,stepOps,heff]
    exact @does_runOps ⟨p, d.isUnlocked, d.registers⟩ c r hdoes

theorem drain_runOps {d d' : Device} {input : List (UInt8 × World)} {steps : List Step}
    (h : drain d input = .ok (steps, d')) :
    d'.registers = d.registers.runOps (steps.flatMap stepOps) ∧
      ∀ before s after, steps = before ++ s :: after → ∃ d₁ b w,
        d₁.registers = d.registers.runOps (before.flatMap stepOps) ∧ deviceStep d₁ b w = .ok s := by
  induction input generalizing d steps with
  | nil =>
    cases h
    exact ⟨rfl,fun before s after hsplit => by simp at hsplit⟩
  | cons x input ih =>
    obtain ⟨b,w⟩ := x
    obtain ⟨s,hs,h⟩ := bind_ok h
    obtain ⟨⟨rest,d''⟩,hrest,h⟩ := bind_ok h
    cases h
    obtain ⟨hend,hsteps⟩ := ih hrest
    have hfirst := deviceStep_runOps hs
    refine ⟨by rw [hend,hfirst,List.flatMap_cons,runOps_append],fun before s' after hsplit => ?_⟩
    cases before with
    | nil =>
      cases hsplit
      exact ⟨d,b,w,rfl,hs⟩
    | cons y before =>
      obtain ⟨rfl,hrest⟩ := List.cons.inj hsplit
      obtain ⟨d₁,b₁,w₁,hreg,hstep⟩ := hsteps before s' after hrest
      exact ⟨d₁,b₁,w₁,by rw [hreg,hfirst,List.flatMap_cons,runOps_append],hstep⟩

section Turns

variable {m : Main} {it : Iteration} {t : Turn}

theorem mainTurn_runOps (h : mainTurn m it = .ok t) :
    t.main.device.registers = m.device.registers.runOps (turnOps t) ∧
      ∀ before s after, t.steps = before ++ s :: after → ∃ d b w,
        d.registers = m.device.registers.runOps (before.flatMap stepOps) ∧
          deviceStep d b w = .ok s := by
  obtain ⟨⟨steps,d⟩,hdrain,h⟩ := bind_ok h
  obtain ⟨hend,hsteps⟩ := drain_runOps hdrain
  simp only at h
  split at h
  · cases h
    refine ⟨?_,hsteps⟩
    simp only [turnOps,Option.toList_some,List.flatMap_cons,List.flatMap_nil,List.append_nil,
      Attempt.ops,runOps_append,← failed_runOps,hend]
  · cases h
    exact ⟨by simp [turnOps,hend],hsteps⟩

theorem mainRun_runOps {its : List Iteration} :
    ∀ before t after, mainRun m its = before ++ t :: after → ∃ m₁ it,
      m₁.device.registers = m.device.registers.runOps (before.flatMap turnOps) ∧
        mainTurn m₁ it = .ok t := by
  induction its generalizing m with
  | nil =>
    intro before t after hsplit
    simp [mainRun] at hsplit
  | cons it its ih =>
    intro before t after hsplit
    rw [mainRun] at hsplit
    cases ht : mainTurn m it with
    | error e => simp [ht] at hsplit
    | ok first =>
      simp only [ht] at hsplit
      cases before with
      | nil =>
        cases hsplit
        exact ⟨m,it,rfl,ht⟩
      | cons y before =>
        obtain ⟨rfl,hrest⟩ := List.cons.inj hsplit
        obtain ⟨m₁,it₁,hreg,hturn⟩ := ih before t after hrest
        exact ⟨m₁,it₁,by rw [hreg,(mainTurn_runOps ht).1,List.flatMap_cons,runOps_append],hturn⟩

end Turns

def registerValue (v : Version) (ops : List RegisterOp) (addr : UInt8) : UInt8 :=
  if addr.toNat < 0xf0 then lastWrite 0 addr ops.reverse else (v.common[addr.toNat - 0xf0]?).getD 0

theorem registersRead_bankReg (r : Registers) : registersRead r 0xff = some 0 := by
  have hbank : r.regCommon.get 15 = 0 := bankOf_isSome r.selected
  have hread : registersRead r 0xff = some (r.regCommon.get 15) := rfl
  rw [hread,hbank]

theorem registersRead_value (v : Version) (ops : List RegisterOp) (addr : UInt8) :
    registersRead ((Registers.boot v).runOps ops) addr = some (registerValue v ops addr) := by
  have h := holds_runOps v ops
  unfold registerValue
  split_ifs with hlow
  · rw [h.bank addr hlow,run_lastWrite]
  · have hhigh := Nat.not_lt.1 hlow
    by_cases hbank : addr = 0xff
    · subst hbank
      have hnone : v.common[(0xff : UInt8).toNat - 0xf0]? = none := by simp [Version.common]
      rw [registersRead_bankReg,hnone,Option.getD_none]
    · rw [h.builtIn hhigh hbank]
      have hlen : v.common.length = 15 := rfl
      have hlt := addr.toNat_lt
      have hne : addr.toNat ≠ 255 := fun he => hbank (UInt8.toNat_inj.1 he)
      rw [List.getElem?_eq_getElem (by omega),Option.getD_some]

def Asks (s : Step) (addr : UInt8) : Prop :=
  ∃ c, s.call = some c ∧ c.cmd.cmdFunc = .cmdAsciiCmdR ∧ readAddr c.inBuff c.inLen = some addr

theorem asks_answered {d : Device} {b : UInt8} {w : World} {s : Step} {addr value : UInt8}
    (h : deviceStep d b w = .ok s) (hs : Asks s addr)
    (hread : registersRead d.registers addr = some value) :
    s.response = some (hex2 value ++ ascii "\r\nOK\r\n") := by
  obtain ⟨c,hc,hfunc,haddr⟩ := hs
  obtain ⟨⟨p,e⟩,-,h⟩ := bind_ok h
  cases e with
  | none =>
    cases h
    cases hc
  | bufferFull =>
    cases h
    cases hc
  | parsed n call =>
    cases call with
    | none =>
      cases h
      cases hc
    | some c' =>
      obtain ⟨r,hr,h⟩ := bind_ok h
      cases h
      obtain rfl : c' = c := by simpa [Step.call,CmdEvent.call] using hc
      simp only [callHandler,hfunc] at hr
      cases hr
      rw [Device.lockAndAnswer,cmdR_eq,haddr,Option.elim_some,hread,Option.elim_some]
      rfl

/-- In every round each `$$R` line is answered with what its address holds behind the boot,
the rounds before and the lines before. -/
def AnswersReads (v : Version) (errs : List Int) (setAuthInfo : Int) (turns : List Turn) : Prop :=
  ∀ before t after pre s post addr, turns = before ++ t :: after → t.steps = pre ++ s :: post →
    Asks s addr → s.response = some (hex2 (registerValue v
      (bootOps errs setAuthInfo ++ before.flatMap turnOps ++ pre.flatMap stepOps) addr) ++
        ascii "\r\nOK\r\n")

theorem reads_last_write {v : Version} {errs : List Int} {setAuthInfo : Int} {m : Main}
    (h : boot v errs setAuthInfo = some m) (its : List Iteration) :
    AnswersReads v errs setAuthInfo (mainRun m its) := by
  intro before t after pre s post addr hturns hsteps hasks
  obtain ⟨m₁,it,hreg,hturn⟩ := mainRun_runOps before t after hturns
  obtain ⟨d,b,w,hd,hstep⟩ := (mainTurn_runOps hturn).2 pre s post hsteps
  refine asks_answered hstep hasks ?_
  rw [hd,hreg,boot_runOps h,← runOps_append,← runOps_append,← List.append_assoc]
  exact registersRead_value v _ addr

def modeReadBack : List Iteration :=
  [⟨typed .quiet (ascii "$W 05 7f\r$W 00 00\r"),⟨0, 0⟩⟩,
    ⟨typed .quiet (ascii "$W 00 01\r$R 00\r"),⟨-1, 0⟩⟩,
    ⟨typed .quiet (ascii "$R 00\r$R 05\r$R F1\r"),⟨0, 0⟩⟩]

theorem reads_last_write_mode : ∃ m, boot ⟨1, 2, 3, 4⟩ [-1,0] 0 = some m ∧
    AnswersReads ⟨1, 2, 3, 4⟩ [-1,0] 0 (mainRun m modeReadBack) ∧
    (mainRun m modeReadBack).flatMap (fun t => t.steps.filterMap Step.response) =
      [ascii "OK\r\n",ascii "OK\r\n",ascii "OK\r\n",ascii "01\r\nOK\r\n",ascii "00\r\nOK\r\n",
        ascii "7F\r\nOK\r\n",ascii "02\r\nOK\r\n"] :=
  ⟨_,rfl,reads_last_write rfl _,by decide +kernel⟩

end SipfClient
