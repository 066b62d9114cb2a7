import SipfClient.DownloadEvents
import SipfClient.FgetCommand
set_option autoImplicit false

namespace SipfClient.File
open Runs

inductive Terminal : Delivered → Prop
  | done (cb : Bool) (fileSize : UInt32) : Terminal (cb, some (.done fileSize))
  | error (cb : Bool) : Terminal (cb, some .error)
  | failed {ret : Int} (h : ret < 0) : Terminal (true, some (.fragment ret))

def Quiet (evs : List Delivered) : Prop := ∀ e ∈ evs, ¬ Terminal e

structure Completed (evs : List Delivered) (fileSize : UInt32) : Prop where
  done : ∃ cb, evs.getLast? = some (cb, some (.done fileSize))
  clean : ∀ ret, (true, some (.fragment ret)) ∈ evs → 0 ≤ ret

structure Matched (evs : List Delivered) (ret : Int) : Prop where
  terminal : ∃ e, evs.getLast? = some e ∧ Terminal e
  size : ∀ fileSize : UInt32, fileSize.toNat < 2 ^ 31 →
    (ret = fileSize.toNat ↔ Completed evs fileSize)
  wrapped : ∀ fileSize, Completed evs fileSize → ret = Xmodem.int32 fileSize.toNat
  failed : ∀ r, (true, some (.fragment r)) ∈ evs → r < 0 → ret = r
  error : ∀ cb, (cb, some .error) ∈ evs → ret < 0

/-- The events of a download that has come to its end, with what the end leaves in
`dl_cb_err` and `dc.file_size`. -/
inductive Closed : List Delivered → Int → UInt32 → Prop
  | done {evs : List Delivered} (hq : Quiet evs) (cb : Bool) (fileSize : UInt32) :
      Closed (evs ++ [(cb, some (.done fileSize))]) 0 fileSize
  | error {evs : List Delivered} (hq : Quiet evs) (cb : Bool) (size : UInt32) :
      Closed (evs ++ [(cb, some .error)]) (-1) size
  | failed {evs : List Delivered} (hq : Quiet evs) {ret : Int} (h : ret < 0) (size : UInt32) :
      Closed (evs ++ [(true, some (.fragment ret))]) ret size

section Quiet

variable {evs : List Delivered} {e : Delivered}

theorem quiet_nil : Quiet [] := by simp [Quiet]

theorem quiet_snoc (hq : Quiet evs) (he : ¬ Terminal e) : Quiet (evs ++ [e]) := by
  intro x hx
  rcases List.mem_append.1 hx with h | h
  · exact hq x h
  · obtain rfl := List.mem_singleton.1 h
    exact he

theorem terminal_last (hq : Quiet evs) {x : Delivered} (hx : x ∈ evs ++ [e]) (ht : Terminal x) :
    x = e := by
  rcases List.mem_append.1 hx with h | h
  · exact absurd ht (hq x h)
  · exact List.mem_singleton.1 h

end Quiet

theorem int32_size {a b : UInt32} (hb : b.toNat < 2 ^ 31) (h : Xmodem.int32 a.toNat = b.toNat) :
    a = b := by
  have ha := a.toNat_lt
  rw [Xmodem.int32,Int.bmod_def] at h
  split_ifs at h <;> exact UInt32.toNat_inj.1 (by omega)

section Judged

variable {evs : List Delivered}

theorem matched_done (hq : Quiet evs) (cb : Bool) (size : UInt32) :
    Matched (evs ++ [(cb, some (.done size))]) (Xmodem.int32 size.toNat) := by
  have hclean : ∀ r, (true, some (.fragment r)) ∈ evs ++ [(cb, some (.done size))] → 0 ≤ r := by
    intro r hr
    by_contra hneg
    cases terminal_last hq hr (.failed (Int.not_le.1 hneg))
  have hsame : ∀ n, Completed (evs ++ [(cb, some (.done size))]) n → n = size := by
    rintro n ⟨⟨cb',hlast⟩,-⟩
    rw [List.getLast?_concat] at hlast
    cases hlast
    rfl
  refine ⟨⟨_,List.getLast?_concat,.done cb size⟩,?_,?_,?_,?_⟩
  · intro n hn
    constructor
    · intro hret
      obtain rfl := int32_size hn hret
      exact ⟨⟨cb,List.getLast?_concat⟩,hclean⟩
    · intro hc
      obtain rfl := hsame n hc
      exact Xmodem.int32_small hn
  · intro n hc
    rw [hsame n hc]
  · intro r hr hneg
    exact absurd (hclean r hr) (Int.not_le.2 hneg)
  · intro cb' hmem
    cases terminal_last hq hmem (.error cb')

theorem matched_negative {e : Delivered} (hq : Quiet evs) (ht : Terminal e)
    (hdone : doneSize e.2 = none) {err : Int} (herr : err < 0)
    (hfailed : ∀ r, e = (true, some (.fragment r)) → err = r) : Matched (evs ++ [e]) err := by
  have hnot : ∀ n, ¬ Completed (evs ++ [e]) n := by
    rintro n ⟨⟨cb,hlast⟩,-⟩
    rw [List.getLast?_concat] at hlast
    cases hlast
    cases hdone
  refine ⟨⟨e,List.getLast?_concat,ht⟩,?_,?_,?_,fun _ _ => herr⟩
  · intro n _
    exact iff_of_false (by omega) (hnot n)
  · intro n hc
    exact absurd hc (hnot n)
  · intro r hr hneg
    exact hfailed r (terminal_last hq hr (.failed hneg)).symm

end Judged

theorem Closed.matched {evs : List Delivered} {err : Int} {size : UInt32} (h : Closed evs err size) :
    Matched evs (if err = 0 then Xmodem.int32 size.toNat else err) := by
  cases h with
  | done hq cb size =>
    rw [if_pos rfl]
    exact matched_done hq cb _
  | error hq cb size =>
    rw [if_neg (by decide)]
    exact matched_negative hq (.error cb) rfl (by decide) fun r hr => by cases hr
  | failed hq hneg size =>
    rw [if_neg (Int.ne_of_lt hneg)]
    refine matched_negative hq (.failed hneg) rfl hneg fun r hr => ?_
    cases hr
    rfl

inductive Spent : Client → Prop
  | silent : Spent .silent
  | returning {done : Bool} {ret : Int} (h : done = true ∨ ret ≠ 0) : Spent (.running done [] ret)

/-- How far a download is, from its start until the waiting thread takes the semaphore:
its thread, its events, the semaphore, `dl_cb_err` and `dc.file_size`. -/
inductive Course : Client → List Delivered → Nat → Int → UInt32 → Prop
  | ready {evs : List Delivered} (hq : Quiet evs) (err : Int) (size : UInt32) :
      Course .ready evs 0 err size
  | delivered {evs : List Delivered} (hq : Quiet evs) (err : Int) (size : UInt32) :
      Course (.running false [] 0) evs 0 err size
  /-- The callback was called without an event: nothing more is delivered. -/
  | stuck {c : Client} (hc : Spent c) {evs : List Delivered} (hq : Quiet evs) (err : Int)
      (size : UInt32) : Course c evs 0 err size
  | judging {done : Bool} {ret : Int} (h : done = true ∨ ret ≠ 0) {evs : List Delivered} {v : Int}
      {size : UInt32} (hend : Closed evs v size) (err : Int) :
      Course (.running done [.setErr v,.give] ret) evs 0 err size
  | giving {done : Bool} {ret : Int} (h : done = true ∨ ret ≠ 0) {evs : List Delivered} {err : Int}
      {size : UInt32} (hend : Closed evs err size) :
      Course (.running done [.give] ret) evs 0 err size
  | given {c : Client} (hc : Spent c) {evs : List Delivered} {err : Int} {size : UInt32}
      (hend : Closed evs err size) : Course c evs 1 err size

theorem course_deliver {evs : List Delivered} (hq : Quiet evs) (cb : Bool)
    (evt : Option DownloadClientEvt) (err : Int) (size : UInt32) :
    Course (.running (doneSize evt).isSome (downloadClientCallback cb evt).1
      (downloadClientCallback cb evt).2) (evs ++ [(cb, evt)]) 0 err ((doneSize evt).getD size) := by
  cases evt with
  | none =>
    have hret : -einval ≠ 0 := by decide
    exact .stuck (.returning (.inr hret)) (quiet_snoc hq (by rintro ⟨⟩)) err size
  | some evt =>
    cases evt with
    | done n => exact .judging (.inl rfl) (.done hq cb n) err
    | error =>
      have hret : (-1 : Int) ≠ 0 := by decide
      exact .judging (.inr hret) (.error hq cb size) err
    | other => exact .delivered (quiet_snoc hq (by rintro ⟨⟩)) err size
    | fragment ret =>
      cases cb with
      | false => exact .delivered (quiet_snoc hq (by rintro ⟨⟩)) err size
      | true =>
        by_cases hneg : ret < 0
        · simp only [downloadClientCallback,if_true,if_pos hneg]
          exact .judging (.inr (Int.ne_of_lt hneg)) (.failed hq hneg size) err
        · simp only [downloadClientCallback,if_true,if_neg hneg]
          refine .delivered (quiet_snoc hq ?_) err size
          intro ht
          cases ht with
          | failed h => exact hneg h

section Course

variable {c : Client} {evs : List Delivered} {sem : Nat} {err : Int} {size : UInt32}

theorem Course.quiet (h : Course .ready evs sem err size) : Quiet evs ∧ sem = 0 := by
  cases h with
  | ready hq => exact ⟨hq,rfl⟩
  | stuck hc => cases hc
  | given hc => cases hc

theorem Course.taken (h : Course c evs sem err size) (hsem : sem ≠ 0) :
    sem = 1 ∧ Spent c ∧ Closed evs err size := by
  cases h with
  | given hc hend => exact ⟨rfl,hc,hend⟩
  | ready => exact absurd rfl hsem
  | delivered => exact absurd rfl hsem
  | stuck => exact absurd rfl hsem
  | judging => exact absurd rfl hsem
  | giving => exact absurd rfl hsem

theorem Spent.back {done : Bool} {ret : Int} (h : Spent (.running done [] ret)) :
    done = true ∨ ret ≠ 0 := by
  cases h with
  | returning h => exact h

theorem Course.back {done : Bool} {ret : Int} (h : Course (.running done [] ret) evs sem err size) :
    Course (if done = true ∨ ret ≠ 0 then .silent else .ready) evs sem err size := by
  cases h with
  | delivered hq => exact .ready hq err size
  | stuck hc hq =>
    rw [if_pos hc.back]
    exact .stuck .silent hq err size
  | given hc hend =>
    rw [if_pos hc.back]
    exact .given .silent hend

theorem course_act {s : DownloadState} {done : Bool} {a : CbAction} {todo : List CbAction} {ret : Int}
    (h : Course (.running done (a :: todo) ret) evs s.semDlFinish s.dlCbErr s.fileSize) :
    Course (.running done todo ret) evs (s.act a).semDlFinish (s.act a).dlCbErr
      (s.act a).fileSize := by
  obtain ⟨sem,err,dlCb,size,caller,started,clients,log⟩ := s
  cases h with
  | stuck hc => cases hc
  | given hc => cases hc
  | judging hlast hend => exact .giving hlast hend
  | giving hlast hend => exact .given (.returning hlast) hend

end Course

def Ongoing (k : Nat) (log : List DownloadRecord) : Prop :=
  ∃ before since, log = before ++ .started k :: since ∧ ∀ x ∈ since, ∃ j e, x = .event j e

/-- A call that has come back has been judged by the events of its own download. -/
def Judged (before : List DownloadRecord) (x : DownloadRecord) : Prop :=
  ∀ k ret, x = .returned k ret → Ongoing k before ∧ Matched (eventsOf k before) ret

def Phase (s : DownloadState) : Prop :=
  match s.caller with
  | .waiting k => Ongoing k s.log ∧ k < s.started ∧
      Course (s.clients k) (eventsOf k s.log) s.semDlFinish s.dlCbErr s.fileSize
  | .woken k => Ongoing k s.log ∧ s.semDlFinish = 0 ∧
      Closed (eventsOf k s.log) s.dlCbErr s.fileSize
  | _ => s.semDlFinish = 0

/-- Only the download that is waited for has anything to tell. -/
structure Inv (s : DownloadState) : Prop where
  fresh : ∀ k, s.started ≤ k → eventsOf k s.log = []
  spent : ∀ k, s.caller ≠ .waiting k → Spent (s.clients k)
  phase : Phase s
  judged : Justified Judged s.log

section Log

variable {log : List DownloadRecord} {x : DownloadRecord}

theorem eventsOf_snoc (k : Nat) (log : List DownloadRecord) (x : DownloadRecord) :
    eventsOf k (log ++ [x]) = eventsOf k log ++ (downloadEvent k x).toList := by
  rw [eventsOf,List.filterMap_append]
  cases hx : downloadEvent k x <;> simp [eventsOf,hx]

theorem ongoing_started (k : Nat) (log : List DownloadRecord) : Ongoing k (log ++ [.started k]) :=
  ⟨log,[],rfl,by simp⟩

theorem Ongoing.event {k : Nat} (h : Ongoing k log) (j : Nat) (e : Delivered) :
    Ongoing k (log ++ [.event j e]) := by
  obtain ⟨before,since,rfl,hsince⟩ := h
  refine ⟨before,since ++ [.event j e],by simp,?_⟩
  intro x hx
  rcases List.mem_append.1 hx with h | h
  · exact hsince x h
  · exact ⟨j,e,List.mem_singleton.1 h⟩

theorem judged_snoc (h : Justified Judged log) (hx : ∀ k ret, x ≠ .returned k ret) :
    Justified Judged (log ++ [x]) :=
  justified_snoc h fun k ret he => absurd he (hx k ret)

end Log

theorem inv_boot : Inv .boot where
  fresh _ _ := rfl
  spent _ _ := .silent
  phase := rfl
  judged := justified_nil Judged

section Moves

variable {s s' : DownloadState} {k : Nat}

theorem Inv.away (h : Inv s) (hc : ∀ k, s.caller ≠ .waiting k) (hphase : Phase s')
    (hstarted : s'.started = s.started) (hclients : s'.clients = s.clients)
    (hevents : ∀ k, eventsOf k s'.log = eventsOf k s.log) (hjudged : Justified Judged s'.log) :
    Inv s' where
  fresh k hk := by
    rw [hevents]
    exact h.fresh k (by omega)
  spent k _ := by
    rw [hclients]
    exact h.spent k (hc k)
  phase := hphase
  judged := hjudged

theorem inv_refuse (h : Inv s) (hc : ∀ k, s.caller ≠ .waiting k) (hsem : s.semDlFinish = 0)
    (ret : Int) : Inv (s.refuse ret) := by
  refine h.away hc hsem rfl rfl ?_ (judged_snoc h.judged (by simp))
  intro k
  exact (eventsOf_snoc k s.log _).trans (List.append_nil _)

theorem inv_start (h : Inv s) (hc : ∀ k, s.caller ≠ .waiting k) (hsem : s.semDlFinish = 0) :
    Inv s.downloadClientStart := by
  have hevents : ∀ k, eventsOf k s.downloadClientStart.log = eventsOf k s.log := fun k =>
    (eventsOf_snoc k s.log _).trans (List.append_nil _)
  refine ⟨?_,?_,?_,judged_snoc h.judged (by simp)⟩
  · intro k hk
    rw [hevents]
    exact h.fresh k (Nat.le_of_succ_le hk)
  · intro k hk
    have hne : k ≠ s.started := fun he => hk (by rw [he]; rfl)
    have hsame : s.downloadClientStart.clients k = s.clients k := Function.update_of_ne hne ..
    rw [hsame]
    exact h.spent k (hc k)
  · refine ⟨ongoing_started s.started s.log,Nat.lt_succ_self _,?_⟩
    have hready : s.downloadClientStart.clients s.started = .ready := Function.update_self ..
    rw [hevents,h.fresh s.started (Nat.le_refl _),hready]
    have hsem' : s.downloadClientStart.semDlFinish = 0 := hsem
    rw [hsem']
    exact .ready quiet_nil _ _

theorem inv_caller (h : Inv s) (hs : s.callerStep = some s') : Inv s' := by
  have hphase := h.phase
  cases hc : s.caller with
  | idle => simp [DownloadState.callerStep,hc] at hs
  | called c =>
    simp only [Phase,hc] at hphase
    simp only [DownloadState.callerStep,hc] at hs
    cases ht : c.target with
    | error ret =>
      simp only [ht,Option.some.injEq] at hs
      subst hs
      exact inv_refuse h (by simp [hc]) hphase ret
    | ok t =>
      simp only [ht,Option.some.injEq] at hs
      subst hs
      exact h.away (by simp [hc]) hphase rfl rfl (fun _ => rfl) h.judged
  | configured c =>
    simp only [Phase,hc] at hphase
    simp only [DownloadState.callerStep,hc] at hs
    split_ifs at hs <;> obtain rfl := Option.some.inj hs
    · exact inv_refuse h (by simp [hc]) hphase c.init
    · exact inv_refuse h (by simp [hc]) hphase c.setHost
    · exact inv_refuse h (by simp [hc]) hphase c.start
    · exact inv_start h (by simp [hc]) hphase
  | waiting k =>
    simp only [Phase,hc] at hphase
    obtain ⟨hstarted,hlt,hcourse⟩ := hphase
    simp only [DownloadState.callerStep,hc] at hs
    split_ifs at hs with hsem
    obtain rfl := Option.some.inj hs
    obtain ⟨hone,hspent,hclosed⟩ := hcourse.taken hsem
    refine ⟨h.fresh,?_,⟨hstarted,by simp [hone],hclosed⟩,h.judged⟩
    intro j _
    by_cases hj : j = k
    · subst hj
      exact hspent
    · exact h.spent j (by simp [hc,Ne.symm hj])
  | woken k =>
    simp only [Phase,hc] at hphase
    obtain ⟨hstarted,hsem,hclosed⟩ := hphase
    simp only [DownloadState.callerStep,hc,Option.some.injEq] at hs
    subst hs
    refine h.away (by simp [hc]) hsem rfl rfl ?_ ?_
    · intro k
      exact (eventsOf_snoc k s.log _).trans (List.append_nil _)
    · refine justified_snoc h.judged ?_
      rintro j ret ⟨⟩
      exact ⟨hstarted,hclosed.matched⟩

theorem Inv.live (h : Inv s) (hk : s.caller = .waiting k) (hcaller : s'.caller = s.caller)
    (hstarted : s'.started = s.started) (hclients : ∀ j, j ≠ k → s'.clients j = s.clients j)
    (hevents : ∀ j, j ≠ k → eventsOf j s'.log = eventsOf j s.log) (hlog : Ongoing k s'.log)
    (hcourse : Course (s'.clients k) (eventsOf k s'.log) s'.semDlFinish s'.dlCbErr s'.fileSize)
    (hjudged : Justified Judged s'.log) : Inv s' := by
  have hphase := h.phase
  simp only [Phase,hk] at hphase
  obtain ⟨-,hlt,-⟩ := hphase
  refine ⟨?_,?_,?_,hjudged⟩
  · intro j hj
    rw [hstarted] at hj
    rw [hevents j (by omega)]
    exact h.fresh j hj
  · intro j hj
    rw [hcaller,hk] at hj
    have hne : j ≠ k := fun he => hj (by rw [he])
    rw [hclients j hne]
    exact h.spent j (by rw [hk]; exact hj)
  · rw [Phase,hcaller,hk]
    exact ⟨hlog,by omega,hcourse⟩

theorem Inv.course (h : Inv s) (hc : s.caller = .waiting k) : Ongoing k s.log ∧
    Course (s.clients k) (eventsOf k s.log) s.semDlFinish s.dlCbErr s.fileSize := by
  have hphase := h.phase
  simp only [Phase,hc] at hphase
  exact ⟨hphase.1,hphase.2.2⟩

theorem Inv.waited (h : Inv s) (hk : ¬ Spent (s.clients k)) : s.caller = .waiting k := by
  by_contra hne
  exact hk (h.spent k hne)

theorem inv_deliver (h : Inv s) (hk : s.clients k = .ready) (evt : Option DownloadClientEvt) :
    Inv (s.deliver k evt) := by
  have hc := h.waited (k := k) (by rw [hk]; rintro ⟨⟩)
  obtain ⟨hlog,hcourse⟩ := h.course hc
  rw [hk] at hcourse
  obtain ⟨hq,hsem⟩ := hcourse.quiet
  have hclient : (s.deliver k evt).clients k = .running (doneSize evt).isSome
      (downloadClientCallback s.dlCb evt).1 (downloadClientCallback s.dlCb evt).2 :=
    Function.update_self ..
  have hevents : ∀ j, eventsOf j (s.deliver k evt).log =
      eventsOf j s.log ++ if k = j then [(s.dlCb, evt)] else [] := by
    intro j
    refine (eventsOf_snoc j s.log _).trans ?_
    by_cases hj : k = j <;> simp [downloadEvent,hj]
  refine h.live hc rfl rfl (fun j hj => Function.update_of_ne hj ..) ?_
    (hlog.event ..) ?_ (judged_snoc h.judged (by simp))
  · intro j hj
    rw [hevents,if_neg (Ne.symm hj),List.append_nil]
  · rw [hclient,hevents,if_pos rfl]
    have hsem' : (s.deliver k evt).semDlFinish = 0 := hsem
    rw [hsem']
    exact course_deliver hq s.dlCb evt _ _

theorem Inv.back (h : Inv s) (hk : s.caller ≠ .waiting k) : Inv (s.setClient k .silent) where
  fresh := h.fresh
  spent j hj := by
    by_cases he : j = k
    · subst he
      have hsilent : (s.setClient j .silent).clients j = .silent := Function.update_self ..
      rw [hsilent]
      exact .silent
    · have hsame : (s.setClient k .silent).clients j = s.clients j := Function.update_of_ne he ..
      rw [hsame]
      exact h.spent j hj
  phase := by
    have hphase := h.phase
    cases hc : s.caller with
    | waiting j =>
      have hne : j ≠ k := fun he => hk (by rw [hc,he])
      have hsame : (s.setClient k .silent).clients j = s.clients j := Function.update_of_ne hne ..
      simpa [Phase,DownloadState.setClient,hc,hsame,Function.update_of_ne hne] using hphase
    | _ => simpa [Phase,DownloadState.setClient,hc] using hphase
  judged := h.judged

theorem inv_client (h : Inv s) (hs : s.clientStep k = some s') : Inv s' := by
  cases hk : s.clients k with
  | silent => simp [DownloadState.clientStep,hk] at hs
  | ready => simp [DownloadState.clientStep,hk] at hs
  | running done todo ret =>
    simp only [DownloadState.clientStep,hk] at hs
    cases todo with
    | nil =>
      obtain rfl := Option.some.inj hs
      by_cases hc : s.caller = .waiting k
      · obtain ⟨hlog,hcourse⟩ := h.course hc
        rw [hk] at hcourse
        refine h.live hc rfl rfl (fun j hj => Function.update_of_ne hj ..) (fun _ _ => rfl)
          hlog ?_ h.judged
        simpa [DownloadState.setClient] using hcourse.back
      · have hspent := h.spent k hc
        rw [hk] at hspent
        rw [if_pos hspent.back]
        exact h.back hc
    | cons a todo =>
      obtain rfl := Option.some.inj hs
      have hc := h.waited (k := k) (by rw [hk]; rintro ⟨⟩)
      obtain ⟨hlog,hcourse⟩ := h.course hc
      rw [hk] at hcourse
      refine h.live hc (s.act_caller a) (s.act_started a) ?_ ?_ ?_ ?_ ?_
      · intro j hj
        refine (Function.update_of_ne hj ..).trans ?_
        rw [DownloadState.act_clients]
      · intro j _
        exact congrArg (eventsOf j) (s.act_log a)
      · simpa [DownloadState.setClient] using hlog
      · simpa [DownloadState.setClient] using course_act hcourse
      · simpa [DownloadState.setClient] using h.judged

theorem inv_step (s : DownloadState) (move : DownloadMove) (s' : DownloadState) (h : Inv s)
    (hs : s.step move = some s') : Inv s' := by
  cases move with
  | call c =>
    simp only [DownloadState.step] at hs
    split at hs
    · rename_i hc
      obtain rfl := Option.some.inj hs
      have hphase := h.phase
      simp only [Phase,hc] at hphase
      exact h.away (by simp [hc]) hphase rfl rfl (fun _ => rfl) h.judged
    · cases hs
  | caller => exact inv_caller h hs
  | deliver k evt =>
    simp only [DownloadState.step] at hs
    split_ifs at hs with hk
    obtain rfl := Option.some.inj hs
    exact inv_deliver h hk evt
  | client k => exact inv_client h hs

end Moves

theorem inv_run {moves : List DownloadMove} {s : DownloadState}
    (h : run DownloadState.step .boot moves = some s) : Inv s :=
  run_inv Inv inv_step inv_boot h

/-- A call returns what the events of the download it has started come to; no call in between
finds the semaphore given; and behind a terminal event the call can go on. -/
structure DownloadsMatched (s : DownloadState) : Prop where
  judged : ∀ before k ret after, s.log = before ++ .returned k ret :: after →
    Ongoing k before ∧ Matched (eventsOf k before) ret
  semaphore : s.caller = .idle → s.semDlFinish = 0
  wakes : ∀ k, s.caller = .waiting k → s.clients k = .silent →
    (∃ e ∈ eventsOf k s.log, Terminal e) → s.semDlFinish = 1

theorem Course.wakes {evs : List Delivered} {sem : Nat} {err : Int} {size : UInt32}
    (h : Course .silent evs sem err size) {e : Delivered} (he : e ∈ evs) (ht : Terminal e) :
    sem = 1 := by
  cases h with
  | stuck hc hq => exact absurd ht (hq e he)
  | given hc hend => rfl

/-- Over all sequences of calls, all events and all interleavings. -/
theorem download_matched {moves : List DownloadMove} {s : DownloadState}
    (h : run DownloadState.step .boot moves = some s) : DownloadsMatched s := by
  have hinv := inv_run h
  refine ⟨?_,?_,?_⟩
  · intro before k ret after hlog
    exact hinv.judged before _ after hlog k ret rfl
  · intro hc
    have hphase := hinv.phase
    simp only [Phase,hc] at hphase
    exact hphase
  · rintro k hc hk ⟨e,he,ht⟩
    obtain ⟨-,hcourse⟩ := hinv.course hc
    rw [hk] at hcourse
    exact hcourse.wakes he ht

section Fget
open Xmodem

def fgetResults : List (List UInt8) → UInt8 → Io RxEvent → List Int
  | [], _, _ => []
  | f :: fs, bn, io =>
    let (ret, bn, io) := cmdFgetCb bn f io
    ret :: if ret < 0 then [] else fgetResults fs bn io

/-- The events of a download of `$$FGET`: a fragment for each of these results, and DONE
behind the last one if none has failed. -/
def fgetEvents (fs : List (List UInt8)) (bn : UInt8) (io : Io RxEvent) (size : UInt32) :
    List Delivered :=
  (fgetResults fs bn io).map (fun ret => (true, some (.fragment ret))) ++
    if (fgetFragments fs bn io).1 < 0 then [] else [(true, some (.done size))]

theorem fgetResults_failed {fs : List (List UInt8)} {bn : UInt8} {io : Io RxEvent}
    (h : (fgetFragments fs bn io).1 < 0) : (fgetFragments fs bn io).1 ∈ fgetResults fs bn io := by
  induction fs generalizing bn io with
  | nil => exact absurd h (by simp [fgetFragments])
  | cons f fs ih =>
    simp only [fgetFragments,fgetResults] at h ⊢
    split_ifs at h ⊢ with hneg
    · exact List.mem_cons_self
    · exact List.mem_cons_of_mem _ (ih h)

theorem fgetResults_clean {fs : List (List UInt8)} {bn : UInt8} {io : Io RxEvent}
    (h : ¬ (fgetFragments fs bn io).1 < 0) : ∀ ret ∈ fgetResults fs bn io, 0 ≤ ret := by
  induction fs generalizing bn io with
  | nil => simp [fgetResults]
  | cons f fs ih =>
    simp only [fgetFragments,fgetResults] at h ⊢
    split_ifs at h ⊢ with hneg
    · exact absurd hneg h
    · intro ret hret
      rcases List.mem_cons.1 hret with rfl | hmem
      · exact Int.not_lt.1 hneg
      · exact ih h ret hmem

/-- The download of `$$FGET`, taken as one thread, returns what it returns on two. -/
theorem fget_download_runs {moves : List DownloadMove} {s : DownloadState}
    (h : run DownloadState.step .boot moves = some s) {before after : List DownloadRecord} {k : Nat}
    {ret : Int} (hlog : s.log = before ++ .returned k ret :: after) {fs : List (List UInt8)}
    {bn : UInt8} {io : Io RxEvent} {size : UInt32}
    (hevents : eventsOf k before = fgetEvents fs bn io size) :
    ret = (sipfFileDownload ⟨0, fs, int32 size.toNat⟩ bn io).1 := by
  obtain ⟨-,hmatched⟩ := (inv_run h).judged before _ after hlog k ret rfl
  rw [hevents] at hmatched
  have hstart : ¬ (0 : Int) < 0 := by decide
  simp only [sipfFileDownload,if_neg hstart]
  by_cases hneg : (fgetFragments fs bn io).1 < 0
  · rw [if_pos hneg]
    refine hmatched.failed _ ?_ hneg
    exact List.mem_append_left _ (List.mem_map_of_mem (fgetResults_failed hneg))
  · rw [if_neg hneg]
    rw [fgetEvents,if_neg hneg] at hmatched
    refine hmatched.wrapped size ⟨⟨true,List.getLast?_concat⟩,?_⟩
    intro r hr
    rcases List.mem_append.1 hr with hmem | hmem
    · obtain ⟨r',hr',he⟩ := List.mem_map.1 hmem
      cases he
      exact fgetResults_clean hneg r hr'
    · cases List.mem_singleton.1 hmem

end Fget

def goodCall : DownloadCall :=
  ⟨true, .ok ⟨HexText.ascii "http", HexText.ascii "h", HexText.ascii "f"⟩, 0, 0, 0⟩

/-- The fragment callback of the first download fails, and `download_client_callback` has not
returned when the second download is done. -/
def overlapping : List DownloadMove :=
  [.call goodCall,.caller,.caller,.deliver 0 (some (.fragment 0)),.client 0,
    .deliver 0 (some (.fragment (-2))),.client 0,.client 0,.caller,.caller,
    .call goodCall,.caller,.caller,.deliver 1 (some (.done 100)),.client 1,.client 0,.client 1,
    .caller,.caller]

theorem overlapping_runs : (run DownloadState.step .boot overlapping).isSome := by decide +kernel

theorem download_matched_overlapping :
    (run DownloadState.step .boot overlapping).map (fun s => s.log) =
      some [.started 0,.event 0 (true, some (.fragment 0)),.event 0 (true, some (.fragment (-2))),
        .returned 0 (-2),.started 1,.event 1 (true, some (.done 100)),.returned 1 100] ∧
    DownloadsMatched ((run DownloadState.step .boot overlapping).get overlapping_runs) :=
  ⟨by decide +kernel,download_matched (Option.some_get overlapping_runs).symm⟩

def acknowledged : Xmodem.Io Xmodem.RxEvent :=
  ⟨[.byte Xmodem.ack,.byte Xmodem.ack], [], [], []⟩

def fetching : List DownloadMove :=
  [.call goodCall,.caller,.caller,.deliver 0 (some (.fragment 0)),.client 0,
    .deliver 0 (some (.fragment 0)),.client 0,.deliver 0 (some (.done 129)),.client 0,.client 0,
    .caller,.caller]

theorem fetching_runs : (run DownloadState.step .boot fetching).isSome := by decide +kernel

theorem fget_download_runs_fetching :
    (129 : Int) = (Xmodem.sipfFileDownload ⟨0, [List.replicate 128 0x41,[0x42]], Xmodem.int32 129⟩ 1
      acknowledged).1 := by
  have hlog : ((run DownloadState.step .boot fetching).get fetching_runs).log =
      [.started 0,.event 0 (true, some (.fragment 0)),.event 0 (true, some (.fragment 0)),
        .event 0 (true, some (.done 129))] ++ .returned 0 129 :: [] := by decide +kernel
  exact @fget_download_runs fetching _ (Option.some_get fetching_runs).symm _ [] 0 129 hlog
    [List.replicate 128 0x41,[0x42]] 1 acknowledged 129 (by decide +kernel)

def largeDownload : List DownloadMove :=
  [.call goodCall,.caller,.caller,.deliver 0 (some (.done 0x80000000)),.client 0,.client 0,.caller,
    .caller]

/-- A size of 2^31 comes back as a negative number. -/
theorem download_size_wraps :
    (run DownloadState.step .boot largeDownload).map (fun s => s.log) =
      some [.started 0,.event 0 (true, some (.done 0x80000000)),.returned 0 (-2147483648)] ∧
    ¬ ((-2147483648 : Int) = (0x80000000 : UInt32).toNat ↔
      Completed [(true, some (.done 0x80000000))] 0x80000000) := by
  refine ⟨by decide +kernel,fun h => ?_⟩
  have hcompleted : Completed [(true, some (.done 0x80000000))] 0x80000000 :=
    ⟨⟨true,rfl⟩,by simp⟩
  exact absurd (h.2 hcompleted) (by decide)

end SipfClient.File
