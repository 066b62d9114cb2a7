import SipfClient.HandlerLaws
set_option autoImplicit false

namespace SipfClient
open ByteMem HexText Command

def calls (steps : List Step) : List CmdCall := steps.filterMap Step.call

def FotaCalled (s : Step) : Prop := ∃ file, Effect.fotaHttpRun file ∈ s.effects

def lastOther (cs : List CmdCall) : Option CmdCall := (cs.filter fun c => ¬ IsUpdate c).getLast?

/-- The update is run only if the last line before it was the right `$$UNLOCK`. -/
def LockObeyed (steps : List Step) : Prop :=
  ∀ pre s post, steps = pre ++ s :: post → FotaCalled s →
    ∃ u, lastOther (calls pre) = some u ∧ ValidUnlock u

/-- The lock as it was meant: the update is run only behind the right `$$UNLOCK`, and every
other line that is handed to a command closes the lock. -/
structure LockKept (steps : List Step) : Prop where
  obeyed : LockObeyed steps
  relocks : ∀ pre s post c, steps = pre ++ s :: post → s.call = some c →
    ¬ IsUpdate c → ¬ ValidUnlock c → s.device.isUnlocked = false

/-- `mid` leaves the lock as the unlock `u` before it has set it. -/
structure OpenSince (u : CmdCall) (mid : List CmdCall) : Prop where
  unlock : ValidUnlock u
  kept : ∀ c ∈ mid, IsUpdate c ∨ Forgetful c

def Open (cs : List CmdCall) : Prop := ∃ a u mid, cs = a ++ u :: mid ∧ OpenSince u mid

def Forgotten (cs : List CmdCall) : Prop := ∃ pre c post, cs = pre ++ c :: post ∧ Open pre ∧ Forgetful c

theorem open_snoc (cs : List CmdCall) (c : CmdCall) :
    Open (cs ++ [c]) ↔ ValidUnlock c ∨ (IsUpdate c ∨ Forgetful c) ∧ Open cs := by
  constructor
  · rintro ⟨a,u,mid,hcs,hopen⟩
    rcases List.eq_nil_or_concat mid with rfl | ⟨mid,c',rfl⟩
    · obtain ⟨-,hc⟩ := List.append_inj' hcs rfl
      cases hc
      exact .inl hopen.unlock
    · rw [List.concat_eq_append] at hcs hopen
      rw [← List.cons_append,← List.append_assoc] at hcs
      obtain ⟨hpre,hc⟩ := List.append_inj' hcs rfl
      cases hc
      exact .inr ⟨hopen.kept c (by simp),a,u,mid,hpre,hopen.unlock,
        fun c' hc' => hopen.kept c' (by simp [hc'])⟩
  · rintro (hc | ⟨hc,a,u,mid,rfl,hopen⟩)
    · exact ⟨cs,c,[],rfl,hc,by simp⟩
    · refine ⟨a,u,mid ++ [c],by simp,hopen.unlock,fun c' hc' => ?_⟩
      rcases List.mem_append.1 hc' with hm | hm
      · exact hopen.kept c' hm
      · rw [List.mem_singleton.1 hm]
        exact hc

theorem Forgetful.not_update {c : CmdCall} (h : Forgetful c) : ¬ IsUpdate c := by
  intro hu
  have hf : c.cmd.cmdFunc = .cmdAsciiCmdUpdate := hu
  rcases h with h | ⟨h,-⟩
  · simp [hf,leavesLock] at h
  · simp [hf] at h

theorem Forgetful.not_unlock {c : CmdCall} (h : Forgetful c) : ¬ ValidUnlock c := by
  intro hu
  rcases h with h | ⟨-,h | h⟩
  · simp [hu.func,leavesLock] at h
  · exact h ((Mem.read_eq_iff c.inBuff 0 (ascii " UNLOCK")).1 hu.text 0 (by decide))
  · exact h hu.length

theorem ValidUnlock.not_update {c : CmdCall} (h : ValidUnlock c) : ¬ IsUpdate c := by
  simp [IsUpdate,h.func]

theorem lastOther_unlock {a mid : List CmdCall} {u : CmdCall} (hu : ValidUnlock u)
    (hmid : ∀ c ∈ mid, IsUpdate c) : lastOther (a ++ u :: mid) = some u := by
  have hnone : mid.filter (fun c => !decide (IsUpdate c)) = [] := by
    simpa [List.filter_eq_nil_iff] using hmid
  simp [lastOther,List.filter_append,hu.not_update,hnone]

theorem OpenSince.updates {a mid post : List CmdCall} {u : CmdCall} (h : OpenSince u mid)
    (hkept : ¬ Forgotten (a ++ u :: mid ++ post)) : ∀ c ∈ mid, IsUpdate c := by
  intro c hc
  refine (h.kept c hc).resolve_right fun hf => hkept ?_
  obtain ⟨before,after,rfl⟩ := List.append_of_mem hc
  exact ⟨a ++ u :: before,c,after ++ post,by simp,
    ⟨a,u,before,rfl,h.unlock,fun c' hc' => h.kept c' (by simp [hc'])⟩,hf⟩

theorem does_unlocked {d : Device} {c : CmdCall} {r : Handled} (h : Does d c r) :
    r.isUnlocked = true ↔ ValidUnlock c ∨ (IsUpdate c ∨ Forgetful c) ∧ d.isUnlocked = true := by
  cases h with
  | answers hc ret => simp [Device.answer,hc,hc.not_unlock]
  | updates hc text file runs =>
    have hn : ¬ ValidUnlock c := fun hu => hu.not_update hc
    simp [hc,hn]
  | unlocks hc => simp [hc]
  | locks hc ret => simp [hc.notUpdate,hc.notUnlock,hc.notForgetful]
  | writes hc addr value text => simp [hc.notUpdate,hc.notUnlock,hc.notForgetful]

theorem does_fota {d : Device} {c : CmdCall} {r : Handled} (h : Does d c r) :
    (∃ file, Effect.fotaHttpRun file ∈ r.effects) ↔ UpdateRuns c ∧ d.isUnlocked = true := by
  cases h with
  | answers hc ret => simp [Device.answer,UpdateRuns,hc.not_update]
  | updates hc text file runs =>
    rw [← runs]
    cases file <;> simp
  | unlocks hc => simp [UpdateRuns,hc.not_update]
  | locks hc ret => simp [UpdateRuns,hc.notUpdate]
  | writes hc addr value text => simp [UpdateRuns,hc.notUpdate]

theorem step_unlocked {d : Device} {b : UInt8} {w : World} {s : Step} {cs : List CmdCall}
    (h : deviceStep d b w = .ok s) (hd : d.isUnlocked = true ↔ Open cs) :
    s.device.isUnlocked = true ↔ Open (cs ++ calls [s]) := by
  rcases deviceStep_does h with ⟨hcall,hun,-,-⟩ | ⟨c,p,r,hcall,hdoes,hun,-,-⟩
  · simp [calls,hcall,hun,hd]
  · have hcalls : calls [s] = [c] := by simp [calls,hcall]
    rw [hun,does_unlocked hdoes,hcalls,open_snoc,hd]

theorem run_unlocked {d : Device} {input : List (UInt8 × World)} {cs : List CmdCall}
    {pre post : List Step} {s : Step} (hd : d.isUnlocked = true ↔ Open cs)
    (h : deviceRun d input = pre ++ s :: post) : ∃ d' b w, deviceStep d' b w = .ok s ∧
      (d'.isUnlocked = true ↔ Open (cs ++ calls pre)) := by
  induction input generalizing d cs pre with
  | nil => simp [deviceRun] at h
  | cons x input ih =>
    obtain ⟨b,w⟩ := x
    cases hs : deviceStep d b w with
    | error f => simp [deviceRun,hs] at h
    | ok s' =>
      simp only [deviceRun,hs] at h
      cases pre with
      | nil =>
        obtain ⟨rfl,-⟩ := List.cons.inj h
        exact ⟨d,b,w,hs,by simpa [calls] using hd⟩
      | cons s'' pre =>
        obtain ⟨rfl,hrest⟩ := List.cons.inj h
        obtain ⟨d',b',w',hstep,hopen⟩ := ih (step_unlocked hs hd) hrest
        refine ⟨d',b',w',hstep,hopen.trans ?_⟩
        rw [List.append_assoc,calls,calls,calls,← List.filterMap_append]
        rfl

theorem init_unlocked (r : Registers) : (Device.init r).isUnlocked = true ↔ Open [] := by
  simp [Device.init,Open]

section Boot

variable {r : Registers} {input : List (UInt8 × World)} {pre post : List Step} {s : Step}

theorem fota_called_iff (h : deviceRun (Device.init r) input = pre ++ s :: post) :
    FotaCalled s ↔ ∃ c, s.call = some c ∧ UpdateRuns c ∧ Open (calls pre) := by
  obtain ⟨d,b,w,hs,hopen⟩ := run_unlocked (init_unlocked r) h
  rw [List.nil_append] at hopen
  rcases deviceStep_does hs with ⟨hcall,-,-,heff⟩ | ⟨c,p,r',hcall,hdoes,-,-,heff⟩
  · simp [FotaCalled,heff,hcall]
  · have hf := does_fota hdoes
    rw [FotaCalled,heff,hf,hcall]
    simp [hopen]

theorem calls_split (h : deviceRun (Device.init r) input = pre ++ s :: post) {c : CmdCall}
    (hcall : s.call = some c) :
    calls (deviceRun (Device.init r) input) = calls pre ++ c :: calls post := by
  rw [h,calls,List.filterMap_append,List.filterMap_cons_some hcall]
  rfl

theorem obeyed_of_kept (hkept : ¬ Forgotten (calls (deviceRun (Device.init r) input))) :
    LockObeyed (deviceRun (Device.init r) input) := by
  intro pre s post hrun hfota
  obtain ⟨upd,hcall,-,a,u,mid,hcs,hopen⟩ := (fota_called_iff hrun).1 hfota
  rw [calls_split hrun hcall,hcs] at hkept
  exact ⟨u,by rw [hcs]; exact lastOther_unlock hopen.unlock (hopen.updates hkept),hopen.unlock⟩

theorem other_unlocked_iff (h : deviceRun (Device.init r) input = pre ++ s :: post) {c : CmdCall}
    (hcall : s.call = some c) (hupdate : ¬ IsUpdate c) (hunlock : ¬ ValidUnlock c) :
    s.device.isUnlocked = true ↔ Open (calls pre) ∧ Forgetful c := by
  obtain ⟨d,b,w,hs,hopen⟩ := run_unlocked (init_unlocked r) h
  rw [List.nil_append] at hopen
  have hcalls : calls [s] = [c] := by simp [calls,hcall]
  rw [step_unlocked hs hopen,hcalls,open_snoc]
  simp [hupdate,hunlock,and_comm]

/-- In every run from boot the lock is kept exactly if no line forgets to close it while it
is open. -/
theorem lock_kept_iff (r : Registers) (input : List (UInt8 × World)) :
    LockKept (deviceRun (Device.init r) input) ↔
      ¬ Forgotten (calls (deviceRun (Device.init r) input)) := by
  constructor
  · rintro hkept ⟨cs,c,cs',hcs,hopen,hforgets⟩
    obtain ⟨pre,rest,hsplit,hpre,hrest⟩ := List.filterMap_eq_append_iff.1 hcs
    obtain ⟨none,s,tail,hsplit',hnone,hcall,-⟩ := List.filterMap_eq_cons_iff.1 hrest
    have hcalls : calls (pre ++ none) = cs := by
      rw [calls,List.filterMap_append,hpre,List.filterMap_eq_nil_iff.2 hnone,List.append_nil]
    have hrun : deviceRun (Device.init r) input = (pre ++ none) ++ s :: tail := by
      rw [hsplit,hsplit',List.append_assoc]
    have hun := (other_unlocked_iff hrun hcall hforgets.not_update hforgets.not_unlock).2
      ⟨by rw [hcalls]; exact hopen,hforgets⟩
    have hclosed := hkept.relocks _ _ _ c hrun hcall hforgets.not_update hforgets.not_unlock
    rw [hun] at hclosed
    cases hclosed
  · intro hkept
    refine ⟨obeyed_of_kept hkept,fun pre s post c hrun hcall hupdate hunlock => ?_⟩
    refine Bool.eq_false_iff.2 fun hun => hkept ?_
    obtain ⟨hopen,hforgets⟩ := (other_unlocked_iff hrun hcall hupdate hunlock).1 hun
    exact ⟨calls pre,c,calls post,calls_split hrun hcall,hopen,hforgets⟩

end Boot

def rxBetween : List UInt8 := ascii "$$UNLOCK UNLOCK\r$$RX x\r$$UPDATE UPDATE\r"

/-- `$$RX` does not close the lock: the update behind it is run. -/
theorem update_runs_after_rx :
    ¬ LockKept (deviceRun (Device.init (.boot ⟨0, 0, 0, 0⟩)) (typed .quiet rxBetween)) := by
  have hrun : ((deviceRun (Device.init (.boot ⟨0, 0, 0, 0⟩)) (typed .quiet rxBetween)).map
      Step.effects)[38]? = some [.fotaHttpRun (ascii "app_update.bin")] := by decide +kernel
  have hlast : (lastOther (calls ((deviceRun (Device.init (.boot ⟨0, 0, 0, 0⟩))
      (typed .quiet rxBetween)).take 38))).map (fun c => c.cmd.cmdFunc) = some .cmdAsciiCmdRx := by
    decide +kernel
  generalize deviceRun (Device.init (.boot ⟨0, 0, 0, 0⟩)) (typed .quiet rxBetween) = steps at hrun hlast ⊢
  intro hkept
  simp only [List.getElem?_map,Option.map_eq_some_iff] at hrun
  obtain ⟨s,hs,heff⟩ := hrun
  obtain ⟨hlt,hget⟩ := List.getElem?_eq_some_iff.1 hs
  have hsplit : steps = steps.take 38 ++ s :: steps.drop 39 := by
    rw [← hget,List.getElem_cons_drop,List.take_append_drop]
  obtain ⟨u,hu,hvalid⟩ := hkept.obeyed _ _ _ hsplit ⟨_,by rw [heff]; exact List.mem_singleton_self _⟩
  rw [hu,Option.map_some,hvalid.func] at hlast
  cases hlast

end SipfClient
