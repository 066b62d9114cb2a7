import SipfClient.Device
set_option autoImplicit false

/-!
What a command can do to the device: five things, according to its handler and its
parameters. Everything about the lock and the registers over whole runs is derived
from these five.
-/

namespace SipfClient
open ByteMem HexText Command Object Http Xmodem

/-- The handlers that never assign `is_unlocked`; the update only reads it. -/
def leavesLock : CmdFunc → Bool
  | .cmdAsciiCmdTx | .cmdAsciiCmdRx | .cmdAsciiCmdFput | .cmdAsciiCmdFget => true
  | .cmdAsciiCmdGnssEnable | .cmdAsciiCmdGnssLocation | .cmdAsciiCmdGnssNmea
  | .cmdAsciiCmdGnssStatus => true
  | _ => false

def IsUpdate (c : CmdCall) : Prop := c.cmd.cmdFunc = .cmdAsciiCmdUpdate

instance decidableIsUpdate (c : CmdCall) : Decidable (IsUpdate c) :=
  inferInstanceAs (Decidable (c.cmd.cmdFunc = .cmdAsciiCmdUpdate))

structure ValidUnlock (c : CmdCall) : Prop where
  func : c.cmd.cmdFunc = .cmdAsciiCmdUnlock
  length : c.inLen = 7
  text : c.inBuff.read 0 7 = ascii " UNLOCK"

/-- A command other than the update that leaves the lock as it is: the handler does
not know the lock, or it is `$$UNLOCK` and returns before it gets to it. -/
def Forgetful (c : CmdCall) : Prop :=
  leavesLock c.cmd.cmdFunc = true ∨
    c.cmd.cmdFunc = .cmdAsciiCmdUnlock ∧ (c.inBuff 0 ≠ 0x20 ∨ c.inLen ≠ 7)

def UpdateRuns (c : CmdCall) : Prop :=
  IsUpdate c ∧ (c.inLen = 7 ∧ c.inBuff.read 0 7 = ascii " UPDATE" ∨
    10 ≤ c.inLen ∧ c.inBuff.read 0 9 = ascii " VERSION ")

structure Locks (c : CmdCall) : Prop where
  notUpdate : ¬ IsUpdate c
  notUnlock : ¬ ValidUnlock c
  notForgetful : ¬ Forgetful c

inductive Does (d : Device) (c : CmdCall) : Handled → Prop
  | answers (h : Forgetful c) (ret : Except Int (List UInt8)) : Does d c (d.answer ret)
  | updates (h : IsUpdate c) (text : List UInt8) (file : Option (List UInt8))
      (runs : file.isSome ↔ UpdateRuns c ∧ d.isUnlocked = true) :
      Does d c ⟨.ok text, d.isUnlocked, d.registers, file.toList.map .fotaHttpRun⟩
  | unlocks (h : ValidUnlock c) : Does d c ⟨.ok cmdCreateResOk, true, d.registers, []⟩
  | locks (h : Locks c) (ret : Except Int (List UInt8)) : Does d c ⟨ret, false, d.registers, []⟩
  | writes (h : Locks c) (addr value : UInt8) (text : List UInt8) :
      Does d c ⟨.ok text, false, (registersWrite d.registers addr value).2,
        [.registersWrite addr value (registersWrite d.registers addr value).1]⟩

theorem bind_ok {ε α β : Type} {x : Except ε α} {f : α → Except ε β} {b : β}
    (h : x.bind f = .ok b) : ∃ a, x = .ok a ∧ f a = .ok b := by
  cases x with
  | error e => cases h
  | ok a => exact ⟨a,rfl,h⟩

theorem inBounds_ok {α : Type} {x : Except OutOfBounds α} {a : α} (h : inBounds x = .ok a) :
    x = .ok a := by
  cases x with
  | error e => cases h
  | ok a' =>
    cases h
    rfl

section Handlers

variable {w : World} {d : Device} {c : CmdCall}

theorem locks_of_func {f : CmdFunc} (hf : c.cmd.cmdFunc = f) (hc : f ≠ .cmdAsciiCmdUpdate)
    (hu : f ≠ .cmdAsciiCmdUnlock) (hl : leavesLock f = false) : Locks c := by
  subst hf
  exact ⟨hc,fun h => hu h.func,fun h => h.elim (fun hf => by simp [hl] at hf) fun hf => hu hf.1⟩

theorem forgetful_of_func {f : CmdFunc} (hf : c.cmd.cmdFunc = f) (hl : leavesLock f = true) :
    Forgetful c := .inl (hf ▸ hl)

theorem cmdW_does (hc : Locks c) : Does d c (cmdAsciiCmdW c.inBuff c.inLen d.registers) := by
  simp only [cmdAsciiCmdW]
  split_ifs
  all_goals first
    | exact .locks hc _
    | exact .writes hc _ _ _

theorem cmdUnlock_does (hc : c.cmd.cmdFunc = .cmdAsciiCmdUnlock) :
    Does d c ⟨.ok (cmdAsciiCmdUnlock c.inBuff c.inLen d.isUnlocked).1,
      (cmdAsciiCmdUnlock c.inBuff c.inLen d.isUnlocked).2, d.registers, []⟩ := by
  have hleaves : leavesLock c.cmd.cmdFunc = false := by rw [hc]; rfl
  simp only [cmdAsciiCmdUnlock]
  split_ifs with hspace hlen htext
  · exact .answers (.inr ⟨hc,.inl hspace⟩) _
  · exact .answers (.inr ⟨hc,.inr hlen⟩) _
  · exact .unlocks ⟨hc,by simpa using hlen,htext⟩
  · refine .locks ⟨?_,fun h => htext h.text,?_⟩ _
    · simp [IsUpdate,hc]
    · rintro (hf | ⟨_,hf | hf⟩)
      · simp [hleaves] at hf
      · exact hspace hf
      · exact hlen hf

theorem cmdUpdate_runs {size : Nat} {text : List UInt8} {file : Option (List UInt8)}
    (hc : IsUpdate c) (h : cmdAsciiCmdUpdate size c.inBuff c.inLen d.isUnlocked w.fotaHttpRun =
      .ok (text, file)) : file.isSome ↔ UpdateRuns c ∧ d.isUnlocked = true := by
  have hdiff : ∀ m : Mem, m.read 0 7 = ascii " UPDATE" → m.read 0 9 ≠ ascii " VERSION " := by
    intro m h7 h9
    have hu : m 1 = 0x55 := (Mem.read_eq_iff m 0 (ascii " UPDATE")).1 h7 1 (by decide)
    have hv : m 1 = 0x56 := (Mem.read_eq_iff m 0 (ascii " VERSION ")).1 h9 1 (by decide)
    rw [hu] at hv
    cases hv
  have hruns : UpdateRuns c ↔ c.inLen = 7 ∧ c.inBuff.read 0 7 = ascii " UPDATE" ∨
      10 ≤ c.inLen ∧ c.inBuff.read 0 9 = ascii " VERSION " := and_iff_right hc
  rw [hruns]
  simp only [cmdAsciiCmdUpdate] at h
  split_ifs at h with hlocked hshort hupdate hlen hversion hsuffix
  · cases h
    simp [hlocked]
  · cases h
    have hne : c.inLen ≠ 7 := by rintro he; rw [he] at hshort; exact absurd hshort (by decide)
    have hlt : ¬ 10 ≤ c.inLen := by
      intro hle
      exact absurd (UInt16.lt_of_le_of_lt hle hshort) (by decide)
    simp [hne,hlt]
  · cases h
    simp [hlen,hdiff _ hupdate]
  · cases h
    simp only [ne_eq,not_not] at hlen
    simp [hlen,hupdate,hlocked]
  · cases h
    have hlt : ¬ 10 ≤ c.inLen := UInt16.not_le.2 hsuffix
    simp [hlt,hupdate]
  · obtain ⟨m,_,hrun⟩ := bind_ok h
    cases hrun
    simp [UInt16.not_lt.1 hsuffix,hversion,hlocked]
  · cases h
    simp [hupdate,hversion]

theorem callHandler_does {r : Handled} (h : callHandler w d c = .ok r) : Does d c r := by
  unfold callHandler at h
  cases hf : c.cmd.cmdFunc with
  | cmdAsciiCmdW =>
    simp only [hf] at h
    cases h
    exact cmdW_does (locks_of_func hf (by decide) (by decide) rfl)
  | cmdAsciiCmdR =>
    simp only [hf] at h
    cases h
    exact .locks (locks_of_func hf (by decide) (by decide) rfl) _
  | cmdAsciiCmdTxRaw =>
    simp only [hf] at h
    obtain ⟨text,_,hr⟩ := bind_ok h
    cases hr
    exact .locks (locks_of_func hf (by decide) (by decide) rfl) _
  | cmdAsciiCmdUnlock =>
    simp only [hf] at h
    cases h
    exact cmdUnlock_does hf
  | cmdAsciiCmdUpdate =>
    simp only [hf] at h
    obtain ⟨⟨text,file⟩,hu,hr⟩ := bind_ok h
    cases hr
    exact .updates hf text file (cmdUpdate_runs hf (inBounds_ok hu))
  | cmdAsciiCmdTx =>
    simp only [hf] at h
    obtain ⟨run,_,hrun⟩ := bind_ok h
    obtain ⟨run',_,hr⟩ := bind_ok hrun
    cases hr
    exact .answers (forgetful_of_func hf rfl) _
  | cmdAsciiCmdRx =>
    simp only [hf] at h
    obtain ⟨text,_,hr⟩ := bind_ok h
    cases hr
    exact .answers (forgetful_of_func hf rfl) _
  | cmdAsciiCmdFput =>
    simp only [hf] at h
    obtain ⟨run,_,hr⟩ := bind_ok h
    cases hr
    exact .answers (forgetful_of_func hf rfl) _
  | cmdAsciiCmdFget | cmdAsciiCmdGnssEnable | cmdAsciiCmdGnssLocation | cmdAsciiCmdGnssNmea
  | cmdAsciiCmdGnssStatus =>
    simp only [hf] at h
    cases h
    exact .answers (forgetful_of_func hf rfl) _

end Handlers

theorem deviceStep_does {d : Device} {b : UInt8} {w : World} {s : Step} (h : deviceStep d b w = .ok s) :
    s.call = none ∧ s.device.isUnlocked = d.isUnlocked ∧ s.device.registers = d.registers ∧
        s.effects = [] ∨
      ∃ c p r, s.call = some c ∧ Does ⟨p, d.isUnlocked, d.registers⟩ c r ∧
        s.device.isUnlocked = r.isUnlocked ∧ s.device.registers = r.registers ∧
        s.effects = r.effects := by
  obtain ⟨⟨p,e⟩,_,h⟩ := bind_ok h
  cases e with
  | none =>
    cases h
    exact .inl ⟨rfl,rfl,rfl,rfl⟩
  | bufferFull =>
    cases h
    exact .inl ⟨rfl,rfl,rfl,rfl⟩
  | parsed n c =>
    cases c with
    | none =>
      cases h
      exact .inl ⟨rfl,rfl,rfl,rfl⟩
    | some c =>
      obtain ⟨r,hr,h⟩ := bind_ok h
      cases h
      exact .inr ⟨c,p,r,rfl,callHandler_does hr,rfl,rfl,rfl⟩

end SipfClient
