import SipfClient.LteBoot
set_option autoImplicit false

namespace SipfClient.Lte
open Command Runs

inductive MainStep : BootPoint → List BootAction → BootPoint → Prop
  | setupFails (err : Int) (herr : err ≠ 0) : MainStep .setup [.setup err,.ret err] .stopped
  | setupDone : MainStep .setup [.setup 0] (.lteInit 0)
  | initFails (i : Nat) (err : Int) (herr : err ≠ 0) :
      MainStep (.lteInit i) [.lteInit err,.ret err] .stopped
  | initDone (i : Nat) : MainStep (.lteInit i) [.lteInit 0,.puts .trying] (.connect i)
  | connectFails (i : Nat) (err : Int) (herr : err ≠ 0) :
      MainStep (.connect i) [.connect err,.ret err] .stopped
  | connectDone (i : Nat) : MainStep (.connect i) [.connect 0] (.wait i)
  | takes (i : Nat) : MainStep (.wait i) [.take] .attached
  | timesOut (i : Nat) : MainStep (.wait i) [.puts .timeout] (.offline i)
  | retries (i : Nat) (hi : i + 1 < registerTry) : MainStep (.offline i) [.offline] (.lteInit (i + 1))
  | givesUp (i : Nat) (hi : registerTry ≤ i + 1) : MainStep (.offline i) [.offline,.ret (-1)] .stopped
  | informs (info : ModemInfo) : MainStep .attached (info.msgs.map .puts) .gnss
  | confirms (g : GnssSetup) : MainStep .gnss
      ((if gnssInit g ≠ 0 then [.puts .gnssFailed] else []) ++ [.confirm]) .auth
  | authFails (err : Int) (herr : err < 0) : MainStep .auth [.authRequest err,.puts .authFailed] .auth
  | authDone (err : Int) (herr : 0 ≤ err) : MainStep .auth [.authRequest err] .authInfo
  | ready (err : Int) : MainStep .authInfo [.setAuthInfo err,.puts .ready] .running

inductive Course : List BootAction → BootPoint → Prop
  | start : Course [] .setup
  | snoc {acts more : List BootAction} {p q : BootPoint} (h : Course acts p) (hs : MainStep p more q) :
      Course (acts ++ more) q

def actRegisters (r : Registers) : BootAction → Registers
  | .confirm => r.setMode 0x01
  | .authRequest err => if err < 0 then r.setMode 0x00 else r
  | .setAuthInfo err => if err < 0 then r.setMode 0x00 else r
  | _ => r

theorem informs_acts (info : ModemInfo) :
    info.msgs.map BootAction.puts = [] ∨ ∃ v, info.msgs.map BootAction.puts = [.puts (.iccid v)] := by
  unfold ModemInfo.msgs
  split_ifs
  · exact .inr ⟨info.iccid,rfl⟩
  · exact .inl rfl

def timeouts (acts : List BootAction) : Nat := acts.count (.puts .timeout)

def authOf : BootAction → Option Int
  | .authRequest err => some err
  | _ => none

def auths (acts : List BootAction) : List Int := acts.filterMap authOf

@[simp] theorem auths_nil : auths [] = [] := rfl

@[simp] theorem auths_cons (a : BootAction) (acts : List BootAction) :
    auths (a :: acts) = (authOf a).toList ++ auths acts := by
  cases a <;> rfl

@[simp] theorem timeouts_append (acts more : List BootAction) :
    timeouts (acts ++ more) = timeouts acts + timeouts more := List.count_append

@[simp] theorem auths_append (acts more : List BootAction) :
    auths (acts ++ more) = auths acts ++ auths more := List.filterMap_append

def Told (before : List BootAction) : BootAction → Prop
  | .puts .timeout => .take ∉ before ∧ timeouts before < registerTry
  | .take => .take ∉ before
  | .confirm => .take ∈ before ∧ .confirm ∉ before
  | .puts .ready => .confirm ∈ before ∧ ∃ err, (auths before).getLast? = some err ∧ 0 ≤ err
  | .ret err => err ≠ 0 ∧ .take ∉ before ∧
      ((∃ a, before.getLast? = some a ∧ a ∈ [.setup err,.lteInit err,.connect err]) ∨
        err = -1 ∧ timeouts before = registerTry)
  | _ => True

structure Stands (acts : List BootAction) (p : BootPoint) : Prop where
  take : .take ∈ acts ↔ p ∈ [.attached,.gnss,.auth,.authInfo,.running]
  confirm : .confirm ∈ acts ↔ p ∈ [.auth,.authInfo,.running]
  ready : .puts .ready ∈ acts ↔ p = .running
  ret : (∃ err, .ret err ∈ acts) ↔ p = .stopped
  turn : ∀ i, p ∈ [.lteInit i,.connect i,.wait i] → i < registerTry ∧ timeouts acts = i
  offline : ∀ i, p = .offline i → i < registerTry ∧ timeouts acts = i + 1
  setup : p = .setup → timeouts acts = 0
  auth : p = .authInfo → ∃ err, (auths acts).getLast? = some err ∧ 0 ≤ err

theorem course_stands {acts : List BootAction} {p : BootPoint} (h : Course acts p) :
    Stands acts p := by
  induction h with
  | start => constructor <;> simp [timeouts]
  | snoc h hs ih =>
    obtain ⟨htake,hconfirm,hready,hret,hturn,hoffline,hsetup,hauth⟩ := ih
    cases hs with
    | informs info =>
      rcases informs_acts info with hi | ⟨v,hi⟩ <;> rw [hi] <;> constructor <;> simp_all
    | confirms g =>
      split_ifs <;> constructor <;> simp_all
    | timesOut i =>
      constructor <;> simp_all [timeouts]
    | retries i hi =>
      constructor <;> simp_all [timeouts]
    | authFails err herr =>
      constructor <;> simp_all [timeouts,authOf]
    | authDone err herr =>
      constructor <;> simp_all [timeouts,authOf]
    | _ => constructor <;> simp_all [timeouts,registerTry]

theorem told_two {acts : List BootAction} {a b : BootAction} (h : Justified Told acts)
    (ha : Told acts a) (hb : Told (acts ++ [a]) b) : Justified Told (acts ++ [a,b]) := by
  rw [← List.singleton_append,← List.append_assoc]
  exact justified_snoc (justified_snoc h ha) hb

theorem told_fails {acts : List BootAction} {a : BootAction} {err : Int} (h : Justified Told acts)
    (hfails : a ∈ [.setup err,.lteInit err,.connect err]) (herr : err ≠ 0) (htake : .take ∉ acts) :
    Justified Told (acts ++ [a,.ret err]) := by
  have ha : Told acts a ∧ a ≠ .take := by
    simp only [List.mem_cons,List.not_mem_nil,or_false] at hfails
    rcases hfails with rfl | rfl | rfl <;> exact ⟨trivial,by simp⟩
  refine told_two h ha.1 ⟨herr,?_,.inl ⟨a,by simp,hfails⟩⟩
  simp [htake,ha.2.symm]

theorem course_told {acts : List BootAction} {p : BootPoint} (h : Course acts p) :
    Justified Told acts := by
  induction h with
  | start => exact justified_nil _
  | @snoc acts more p q h hs ih =>
    have hst := course_stands h
    cases hs with
    | setupFails err herr => exact told_fails ih (by simp) herr (by simp [hst.take])
    | setupDone => exact justified_snoc ih trivial
    | initFails i err herr => exact told_fails ih (by simp) herr (by simp [hst.take])
    | initDone i => exact told_two ih trivial trivial
    | connectFails i err herr => exact told_fails ih (by simp) herr (by simp [hst.take])
    | connectDone i => exact justified_snoc ih trivial
    | takes i => exact justified_snoc ih (mt hst.take.1 (by simp))
    | timesOut i =>
      obtain ⟨hi,htimes⟩ := hst.turn i (by simp)
      exact justified_snoc ih ⟨mt hst.take.1 (by simp),htimes ▸ hi⟩
    | retries i hi => exact justified_snoc ih trivial
    | givesUp i hi =>
      obtain ⟨hlt,htimes⟩ := hst.offline i rfl
      refine told_two ih trivial ⟨by simp,by simp [hst.take],.inr ⟨rfl,?_⟩⟩
      have hoff : timeouts [.offline] = 0 := rfl
      rw [timeouts_append,htimes,hoff]
      omega
    | informs info =>
      rcases informs_acts info with hi | ⟨v,hi⟩ <;> rw [hi]
      · rwa [List.append_nil]
      · exact justified_snoc ih trivial
    | confirms g =>
      have hconfirm : Told acts .confirm := ⟨hst.take.2 (by simp),mt hst.confirm.1 (by simp)⟩
      split_ifs
      · exact told_two ih trivial ⟨by simp [hconfirm.1],by simp [hconfirm.2]⟩
      · exact justified_snoc ih hconfirm
    | authFails err herr => exact told_two ih trivial trivial
    | authDone err herr => exact justified_snoc ih trivial
    | ready err =>
      obtain ⟨ret,hret,hge⟩ := hst.auth rfl
      refine told_two ih trivial ⟨?_,ret,?_,hge⟩
      · simp [hst.confirm]
      · simpa [authOf] using hret

/-- Before its last action the main thread has neither returned nor got ready. -/
def Open (acts : List BootAction) : Prop := (∀ err, .ret err ∉ acts) ∧ .puts .ready ∉ acts

theorem mainStep_shape {p q : BootPoint} {more : List BootAction} (h : MainStep p more q) :
    p ≠ .stopped ∧ p ≠ .running ∧
      (more = [] ∨ (∃ a, more = [a]) ∨ ∃ a b, more = [a,b] ∧ Open [a]) := by
  cases h with
  | informs info => rcases informs_acts info with hi | ⟨v,hi⟩ <;> simp [hi]
  | confirms g => split_ifs <;> simp [Open]
  | _ => simp [Open]

theorem course_open {acts : List BootAction} {p : BootPoint} (h : Course acts p) :
    Justified (fun before _ => Open before) acts := by
  induction h with
  | start => exact justified_nil _
  | @snoc acts more p q h hs ih =>
    have hst := course_stands h
    obtain ⟨hstop,hrun,hmore⟩ := mainStep_shape hs
    have hopen : Open acts :=
      ⟨fun err hmem => hstop (hst.ret.1 ⟨err,hmem⟩),fun hmem => hrun (hst.ready.1 hmem)⟩
    rcases hmore with rfl | ⟨a,rfl⟩ | ⟨a,b,rfl,ha⟩
    · rwa [List.append_nil]
    · exact justified_snoc ih hopen
    · rw [← List.singleton_append,← List.append_assoc]
      refine justified_snoc (justified_snoc ih hopen) ⟨fun err => ?_,?_⟩
      · simp [hopen.1 err,ha.1 err]
      · simp [hopen.2,ha.2]

section Registers

variable (v : Version)

def registersOf (acts : List BootAction) : Registers :=
  acts.foldl actRegisters (registersReset (.boot v))

@[simp] theorem registersOf_append (acts more : List BootAction) :
    registersOf v (acts ++ more) = more.foldl actRegisters (registersOf v acts) := List.foldl_append

def Retries (acts : List BootAction) : BootPoint → Prop
  | .auth => ∀ errs, bootAuth ((registersReset (.boot v)).setMode 0x01) (auths acts ++ errs) =
      bootAuth (registersOf v acts) errs
  | .authInfo => bootAuth ((registersReset (.boot v)).setMode 0x01) (auths acts) =
      some (registersOf v acts)
  | .running => ∃ info, .setAuthInfo info ∈ acts ∧
      boot v (auths acts) info = some ⟨.init (registersOf v acts), 0x01⟩
  | _ => auths acts = [] ∧ registersOf v acts = registersReset (.boot v)

theorem course_retries {acts : List BootAction} {p : BootPoint} (h : Course acts p) :
    Retries v acts p := by
  induction h with
  | start => exact ⟨rfl,rfl⟩
  | @snoc acts more p q h hs ih =>
    cases hs with
    | informs info =>
      rcases informs_acts info with hi | ⟨w,hi⟩ <;> rw [hi] <;>
        simpa [Retries,authOf,actRegisters] using ih
    | confirms g =>
      obtain ⟨hnone,hr⟩ := ih
      intro errs
      split_ifs <;> simp [hnone,hr,authOf,actRegisters]
    | authFails err herr =>
      intro errs
      have hold := ih (err :: errs)
      simpa [authOf,actRegisters,bootAuth,herr] using hold
    | authDone err herr =>
      have hold := ih [err]
      simpa [Retries,authOf,actRegisters,bootAuth,Int.not_lt.2 herr] using hold
    | ready err =>
      have hold : bootAuth _ (auths acts) = some (registersOf v acts) := ih
      refine ⟨err,by simp,?_⟩
      have hsame : auths (acts ++ [.setAuthInfo err,.puts .ready]) = auths acts := by simp [authOf]
      simp [boot,hsame,hold,actRegisters]
    | _ => simpa [Retries,authOf,actRegisters] using ih

end Registers

end SipfClient.Lte
