import SipfClient.MainLoop
set_option autoImplicit false

namespace SipfClient
open ByteMem HexText Command

inductive ModeEvent
  | attempt (succeeded : Bool)
  | hostWrite (value : UInt8)
  deriving DecidableEq, Repr

/-- At boot each failure of `SipfAuthRequest` is an attempt that failed, and the
attempt that ends the retries succeeds with the second step. -/
def bootEvents (errs : List Int) (setAuthInfo : Int) : List ModeEvent :=
  (errs.takeWhile (· < 0)).map (fun _ => .attempt false) ++ [.attempt (0 ≤ setAuthInfo)]

def Turn.events (t : Turn) : List ModeEvent :=
  t.writes.map .hostWrite ++ t.attempt.toList.map fun a => .attempt a.succeeded

/-- The register tells how the latest attempt went, unless the host has written it since. -/
def Told (log : List ModeEvent) (mode : UInt8) : Prop :=
  ∀ succeeded, log.getLast? = some (.attempt succeeded) → mode = if succeeded then 0x01 else 0x00

def Truthful (log : List ModeEvent) : List Turn → Prop
  | [] => True
  | t :: ts => Told (log ++ t.events) t.main.mode ∧ Truthful (log ++ t.events) ts

theorem told_attempt (log : List ModeEvent) (succeeded : Bool) (mode : UInt8) :
    Told (log ++ [.attempt succeeded]) mode ↔ mode = if succeeded then 0x01 else 0x00 := by
  simp [Told]

section Turns

variable {m : Main} {it : Iteration} {t : Turn} {log : List ModeEvent}

theorem told_turn (h : mainTurn m it = .ok t) (hlog : Told log m.mode ∨ t.writes ≠ []) :
    Told (log ++ t.events) t.main.mode := by
  rcases mainTurn_attempt h with ⟨-,-,hatt,hmode⟩ | ⟨-,hatt,hmode⟩
  · have hev : log ++ t.events = (log ++ t.writes.map .hostWrite) ++ [.attempt it.attempt.succeeded] := by
      simp [Turn.events,hatt]
    rw [hev]
    exact (told_attempt _ _ _).2 hmode
  · have hev : t.events = t.writes.map .hostWrite := by simp [Turn.events,hatt]
    by_cases hw : t.writes = []
    · rw [hev,hw,List.map_nil,List.append_nil,hmode,hw]
      exact hlog.resolve_right (not_not.2 hw)
    · intro succeeded hlast
      rw [hev,List.getLast?_append_of_ne_nil _ (by simpa using hw),List.getLast?_map,
        List.getLast?_eq_some_getLast hw] at hlast
      cases hlast

theorem truthful_run {its : List Iteration} (hlog : Told log m.mode) : Truthful log (mainRun m its) := by
  induction its generalizing m log with
  | nil => exact trivial
  | cons it its ih =>
    cases ht : mainTurn m it with
    | error f =>
      rw [mainRun,ht]
      exact trivial
    | ok t =>
      rw [mainRun,ht]
      exact ⟨told_turn ht (.inl hlog),ih (told_turn ht (.inl hlog))⟩

/-- A register that tells nothing of the boot does so until the host writes it, as no
attempt can be made in the first round. -/
theorem truthful_untold {its : List Iteration} (hlog : ¬ Told log m.mode)
    (hprev : m.prevAuthMode = 0x01) :
    Truthful log (mainRun m its) ↔ ∀ t ∈ (mainRun m its).head?, t.writes ≠ [] := by
  cases its with
  | nil => simp [mainRun,Truthful]
  | cons it its =>
    cases ht : mainTurn m it with
    | error f => simp [mainRun,ht,Truthful]
    | ok t =>
      have hrun : mainRun m (it :: its) = t :: mainRun t.main its := by rw [mainRun,ht]
      rw [hrun]
      simp only [List.head?_cons,Option.mem_def,Option.some.injEq,forall_eq']
      constructor
      · rintro ⟨htold,-⟩ hw
        rcases mainTurn_attempt ht with ⟨-,hp,-,-⟩ | ⟨-,hatt,hmode⟩
        · rw [hprev] at hp
          cases hp
        · have hev : t.events = [] := by simp [Turn.events,hatt,hw]
          rw [hev,List.append_nil,hmode,hw] at htold
          exact hlog htold
      · intro hw
        exact ⟨told_turn ht (.inr hw),truthful_run (told_turn ht (.inr hw))⟩

end Turns

theorem bootAuth_mode {r r' : Registers} {errs : List Int} (h : bootAuth r errs = some r') :
    r'.mode = if errs.takeWhile (· < 0) = [] then r.mode else 0x00 := by
  induction errs generalizing r with
  | nil => cases h
  | cons err errs ih =>
    simp only [bootAuth] at h
    split_ifs at h with herr
    · have hne : (err :: errs).takeWhile (· < 0) ≠ [] := by simp [herr]
      have hset : (r.setMode 0x00).mode = 0x00 := r.setMode_mode 0x00
      rw [ih h,if_neg hne,hset,ite_self]
    · cases h
      simp [herr]

section Boot

variable {v : Version} {errs : List Int} {setAuthInfo : Int} {m : Main}

theorem boot_mode (h : boot v errs setAuthInfo = some m) : m.prevAuthMode = 0x01 ∧
    m.mode = if errs.takeWhile (· < 0) = [] ∧ 0 ≤ setAuthInfo then 0x01 else 0x00 := by
  simp only [boot,bind,Option.bind_eq_some_iff] at h
  obtain ⟨r,hr,hm⟩ := h
  cases hm
  refine ⟨rfl,?_⟩
  have hmode := bootAuth_mode hr
  rw [Registers.setMode_mode] at hmode
  by_cases hs : setAuthInfo < 0
  · simp only [Main.mode,Device.init,if_pos hs,Registers.setMode_mode]
    simp [Int.not_le.2 hs]
  · simp only [Main.mode,Device.init,if_neg hs,hmode]
    simp [Int.not_lt.1 hs]

theorem boot_told (h : boot v errs setAuthInfo = some m) :
    Told (bootEvents errs setAuthInfo) m.mode ↔ errs.takeWhile (· < 0) = [] ∨ setAuthInfo < 0 := by
  rw [bootEvents,told_attempt,(boot_mode h).2]
  by_cases hs : setAuthInfo < 0
  · simp [hs,Int.not_le.2 hs]
  · simp [hs,Int.not_lt.1 hs]

/-- Over every run the register tells the truth exactly if the first request at boot
succeeds, or its second step fails, or the host writes the register in the first round. -/
theorem mode_truthful_iff (h : boot v errs setAuthInfo = some m) (its : List Iteration) :
    Truthful (bootEvents errs setAuthInfo) (mainRun m its) ↔
      (∀ err ∈ errs.head?, 0 ≤ err) ∨ setAuthInfo < 0 ∨
        ∀ t ∈ (mainRun m its).head?, t.writes ≠ [] := by
  have hfirst : errs.takeWhile (· < 0) = [] ↔ ∀ err ∈ errs.head?, 0 ≤ err := by
    cases errs <;> simp [List.takeWhile_cons]
  by_cases htold : Told (bootEvents errs setAuthInfo) m.mode
  · refine iff_of_true (truthful_run htold) ?_
    rw [boot_told h,hfirst] at htold
    rw [← or_assoc]
    exact .inl htold
  · rw [truthful_untold htold (boot_mode h).1,← or_assoc]
    rw [boot_told h,hfirst] at htold
    exact (or_iff_right htold).symm

end Boot

theorem mode_truthful_iff_retried : ∃ m, boot ⟨0, 0, 0, 0⟩ [-1,0] 0 = some m ∧
    (Truthful (bootEvents [-1,0] 0) (mainRun m [⟨typed .quiet (ascii "$W 00 00\r"),⟨0, 0⟩⟩]) ↔
      (∀ err ∈ [(-1 : Int),0].head?, 0 ≤ err) ∨ (0 : Int) < 0 ∨
        ∀ t ∈ (mainRun m [⟨typed .quiet (ascii "$W 00 00\r"),⟨0, 0⟩⟩]).head?, t.writes ≠ []) :=
  ⟨_,rfl,mode_truthful_iff rfl _⟩

/-- The first request fails, its retry and the second step succeed: the register is
still 0x00. -/
theorem mode_lies_after_retry : ∃ m, boot ⟨0, 0, 0, 0⟩ [-1,0] 0 = some m ∧
    ¬ Truthful (bootEvents [-1,0] 0) (mainRun m [⟨[],⟨0, 0⟩⟩]) := by
  refine ⟨_,rfl,fun htrue => ?_⟩
  have htold := htrue.1 true (by decide)
  exact absurd htold (by decide +kernel)

def Switches (mode : UInt8) (writes : List UInt8) : Prop :=
  ∃ pre post, writes = pre ++ 0x01 :: post ∧ pre.getLastD mode = 0x00

/-- Every switch is followed by an authentication in its own round. -/
def NoSwitchLost (mode : UInt8) : List Turn → Prop
  | [] => True
  | t :: ts => (Switches mode t.writes → t.attempt.isSome) ∧ NoSwitchLost t.main.mode ts

/-- Every round with a switch starts where `prev_auth_mode` is 0x00 and ends its
writes with 0x01. -/
def SwitchesSeen (prevAuthMode mode : UInt8) : List Turn → Prop
  | [] => True
  | t :: ts => (Switches mode t.writes → prevAuthMode = 0x00 ∧ t.writes.getLast? = some 0x01) ∧
      SwitchesSeen t.main.mode t.main.mode ts

theorem turn_switch_seen {m : Main} {it : Iteration} {t : Turn} (h : mainTurn m it = .ok t)
    (hs : Switches m.mode t.writes) :
    t.attempt.isSome ↔ m.prevAuthMode = 0x00 ∧ t.writes.getLast? = some 0x01 := by
  obtain ⟨pre,post,hw,-⟩ := hs
  have hne : t.writes ≠ [] := by simp [hw]
  have hlast : t.writes.getLastD m.mode = 0x01 ↔ t.writes.getLast? = some 0x01 := by
    rw [List.getLastD_eq_getLast?,List.getLast?_eq_some_getLast hne]
    simp
  rcases mainTurn_attempt h with ⟨hl,hp,hatt,-⟩ | ⟨hn,hatt,-⟩
  · exact iff_of_true (by rw [hatt]; rfl) ⟨hp,hlast.1 hl⟩
  · exact iff_of_false (by simp [hatt]) fun hc => hn ⟨hlast.2 hc.2,hc.1⟩

theorem switches_run (m : Main) (its : List Iteration) :
    NoSwitchLost m.mode (mainRun m its) ↔ SwitchesSeen m.prevAuthMode m.mode (mainRun m its) := by
  induction its generalizing m with
  | nil => simp [mainRun,NoSwitchLost,SwitchesSeen]
  | cons it its ih =>
    cases ht : mainTurn m it with
    | error f => simp [mainRun,ht,NoSwitchLost,SwitchesSeen]
    | ok t =>
      have hrest := ih t.main
      rw [mainTurn_prev ht] at hrest
      have hrun : mainRun m (it :: its) = t :: mainRun t.main its := by rw [mainRun,ht]
      rw [hrun,NoSwitchLost,SwitchesSeen,hrest]
      exact and_congr_left fun _ => forall_congr' fun hs => turn_switch_seen ht hs

/-- In every run from boot no switch is lost exactly if every one of them is seen by the
two samples of its round; at boot `prev_auth_mode` is 0x01. -/
theorem no_switch_lost_iff {v : Version} {errs : List Int} {setAuthInfo : Int} {m : Main}
    (h : boot v errs setAuthInfo = some m) (its : List Iteration) :
    NoSwitchLost m.mode (mainRun m its) ↔ SwitchesSeen 0x01 m.mode (mainRun m its) := by
  rw [switches_run,(boot_mode h).1]

def offAndOn : List Iteration := [⟨typed .quiet (ascii "$W 00 00\r$W 00 01\r"),⟨0, 0⟩⟩]

theorem no_switch_lost_iff_off_and_on : ∃ m, boot ⟨0, 0, 0, 0⟩ [0] 0 = some m ∧
    (NoSwitchLost m.mode (mainRun m offAndOn) ↔ SwitchesSeen 0x01 m.mode (mainRun m offAndOn)) :=
  ⟨_,rfl,@no_switch_lost_iff ⟨0, 0, 0, 0⟩ [0] 0 _ rfl _⟩

theorem lost_of_round {m : Main} {its : List Iteration} {pre post : List UInt8}
    (h : (mainRun m its).map (fun t => (t.writes, t.attempt.isSome)) = [(pre ++ 0x01 :: post, false)])
    (hpre : pre.getLastD m.mode = 0x00) : ¬ NoSwitchLost m.mode (mainRun m its) := by
  obtain ⟨t,ts,hts,ht,-⟩ := List.map_eq_cons_iff.1 h
  obtain ⟨hw,hatt⟩ := Prod.mk.inj ht
  rw [hts]
  intro hlost
  have hseen := hlost.1 ⟨pre,post,hw,hpre⟩
  rw [hatt] at hseen
  cases hseen

def switchOn : List Iteration := [⟨typed .quiet (ascii "$W 00 01\r"),⟨0, 0⟩⟩]

/-- The second step fails at boot, so that the register is 0x00, and the host switches
it to 0x01: no authentication is made. Nor is one if the host writes 0x00 and 0x01 in
one drain. -/
theorem switches_lost :
    (∃ m, boot ⟨0, 0, 0, 0⟩ [0] (-1) = some m ∧ ¬ NoSwitchLost m.mode (mainRun m switchOn)) ∧
      ∃ m, boot ⟨0, 0, 0, 0⟩ [0] 0 = some m ∧ ¬ NoSwitchLost m.mode (mainRun m offAndOn) := by
  refine ⟨⟨_,rfl,@lost_of_round _ _ [] [] ?_ ?_⟩,⟨_,rfl,@lost_of_round _ _ [0x00] [] ?_ rfl⟩⟩
  · decide +kernel
  · rfl
  · decide +kernel

end SipfClient
