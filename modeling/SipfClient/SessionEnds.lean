import SipfClient.FgetCommand
import SipfClient.FputReports
set_option autoImplicit false

namespace SipfClient.Xmodem
open ByteMem Loops Http HexText Command

def Grows {ρ : Type} (io io' : Io ρ) : Prop := ∃ ev, Extends io io' ev

section Growth

variable {ρ : Type}

theorem Grows.refl (io : Io ρ) : Grows io io := ⟨[],Extends.refl io⟩

theorem Grows.trans {io io' io'' : Io ρ} (h : Grows io io') (h' : Grows io' io'') : Grows io io'' := by
  obtain ⟨a,ha⟩ := h
  obtain ⟨b,hb⟩ := h'
  exact ⟨a ++ b,ha.trans hb⟩

theorem grows_put (b : UInt8) (io : Io ρ) : Grows io (uartBrokerPutByte b io).2 :=
  ⟨_,extends_put b io⟩

theorem grows_get (io : Io RxEvent) : Grows io (uartBrokerGetByteTm io).2 :=
  ⟨[],(List.append_nil _).symm,(Extends.refl io).queued⟩

theorem grows_putAll (bs : List UInt8) (io : Io ρ) : Grows io (uartBrokerPut bs io).2 := by
  induction bs generalizing io with
  | nil => exact Grows.refl io
  | cons b bs ih =>
    have hput := grows_put b io
    simp only [uartBrokerPut]
    split_ifs
    · exact hput.trans (ih _)
    · exact hput

end Growth

theorem grows_waitRequest (n : Nat) (io : Io RxEvent) : Grows io (sendWaitRequest n io).2 := by
  induction n generalizing io with
  | zero => exact Grows.refl io
  | succ n ih =>
    have hget := grows_get io
    simp only [sendWaitRequest]
    generalize uartBrokerGetByteTm io = r at hget ⊢
    obtain ⟨e,io'⟩ := r
    cases e with
    | timeout => exact hget.trans (ih io')
    | fail errno ne => exact hget
    | byte b =>
      simp only
      split_ifs
      · exact hget
      · exact hget
      · exact hget.trans (ih io')

theorem grows_sendBlock (bn : UInt8) (payload : List UInt8) (io : Io RxEvent) :
    Grows io (xmodemSendBlock bn payload io).2 := by
  simp only [xmodemSendBlock]
  split_ifs
  · exact Grows.refl io
  · exact (grows_putAll _ io).trans ((grows_get _).trans ⟨_,extends_log _ (by simp)⟩)

theorem grows_fgetTry (n : Nat) (bn : UInt8) (payload : List UInt8) (io : Io RxEvent) :
    Grows io (fgetTry n bn payload io).2.2 := by
  induction n generalizing io with
  | zero => exact Grows.refl io
  | succ n ih =>
    have hsend := grows_sendBlock bn payload io
    simp only [fgetTry]
    generalize xmodemSendBlock bn payload io = r at hsend ⊢
    obtain ⟨ret,io'⟩ := r
    cases ret with
    | timeout => exact hsend.trans (ih io')
    | retry => exact hsend.trans (ih io')
    | ok => exact hsend
    | canceled => exact hsend
    | failed => exact hsend

theorem grows_fgetBlocks (buff : List UInt8) (n idx : Nat) (bn : UInt8) (io : Io RxEvent) :
    Grows io (fgetBlocks buff n idx bn io).2.2 := by
  induction n generalizing idx bn io with
  | zero => exact Grows.refl io
  | succ n ih =>
    simp only [fgetBlocks]
    split_ifs
    · have htry := grows_fgetTry fputBlockSendRetry bn
        ((buff.drop idx).take (payloadLen buff.length idx)) io
      generalize fgetTry _ _ _ io = r at htry ⊢
      obtain ⟨ret,bn',io'⟩ := r
      cases ret with
      | none => exact htry.trans (ih _ _ _)
      | some ret => exact htry
    · exact Grows.refl io

theorem grows_fragments (fs : List (List UInt8)) (bn : UInt8) (io : Io RxEvent) :
    Grows io (fgetFragments fs bn io).2.2 := by
  induction fs generalizing bn io with
  | nil => exact Grows.refl io
  | cons f fs ih =>
    have hcb : Grows io (cmdFgetCb bn f io).2.2 := grows_fgetBlocks f _ 0 bn io
    simp only [fgetFragments]
    split_ifs
    · exact hcb
    · exact hcb.trans (ih _ _)

theorem grows_download (course : DownloadCourse) (bn : UInt8) (io : Io RxEvent) :
    Grows io (sipfFileDownload course bn io).2.2 := by
  simp only [sipfFileDownload]
  split_ifs
  · exact Grows.refl io
  all_goals exact grows_fragments _ _ _

theorem grows_sendEnd (io : Io RxEvent) : Grows io (xmodemSendEnd io).2 := by
  have hput := grows_put eot io
  simp only [xmodemSendEnd]
  generalize uartBrokerPutByte eot io = r at hput ⊢
  obtain ⟨ok,io'⟩ := r
  cases ok with
  | false => exact hput
  | true =>
    have hget := hput.trans (grows_get io')
    simp only [Bool.not_true,Bool.false_eq_true,if_false]
    generalize uartBrokerGetByteTm io' = r at hget ⊢
    obtain ⟨e,io''⟩ := r
    cases e with
    | timeout => exact hget
    | fail errno ne => exact hget
    | byte b => exact hget

theorem fgetOkRes_ne (n : Int) : cmdFgetOkRes n ≠ cmdFgetNgRes := by
  intro h
  have hlen := congrArg List.length h
  have hok : (ascii "\r\nOK\r\n").length = 6 := by rfl
  have hng : cmdFgetNgRes.length = 6 := by rfl
  rw [cmdFgetOkRes,List.length_append,List.length_append,hex8_length,hok,hng] at hlen
  omega

theorem fgetSession_course (course : DownloadCourse) (io : Io RxEvent) :
    ∃ io', Grows (xmodemBegin io) io' ∧
      (fgetSession course io = (cmdFgetNgRes, xmodemEnd (xmodemTransmitCancel io').2) ∨
        (fgetSession course io).1 ≠ cmdFgetNgRes ∧ (fgetSession course io).2 = xmodemEnd io') := by
  have hwait : Grows (xmodemBegin io) (xmodemSendWaitRequest (xmodemBegin io)).2 :=
    grows_waitRequest 10 _
  simp only [fgetSession]
  generalize xmodemSendWaitRequest (xmodemBegin io) = r at hwait ⊢
  obtain ⟨ret,io1⟩ := r
  cases ret with
  | ok =>
    have hload := hwait.trans (grows_download course 1 io1)
    simp only
    generalize sipfFileDownload course 1 io1 = d at hload ⊢
    obtain ⟨len,bn,io2⟩ := d
    simp only at hload ⊢
    split_ifs
    · exact ⟨io2,hload,.inl rfl⟩
    · have hend := hload.trans (grows_sendEnd io2)
      generalize xmodemSendEnd io2 = e at hend ⊢
      obtain ⟨ret,io3⟩ := e
      cases ret with
      | timeout | failed => exact ⟨io3,hend,.inl rfl⟩
      | ok | retry | canceled => exact ⟨io3,hend,.inr ⟨fgetOkRes_ne len,rfl⟩⟩
  | retry | canceled | failed | timeout => exact ⟨io1,hwait,.inl rfl⟩

theorem fput_session {inBuff : Mem} {inLen : UInt16} {args : FputArgs}
    (h : fputArgs inBuff inLen = some args) (course : List UInt8 → UploadCourse) (block : Mem)
    (io : Io RxEvent) : cmdAsciiCmdFput inBuff inLen course block io =
      fputSession xmodemReceiveBlock args (course args.fileId) block io := by
  simp only [cmdAsciiCmdFput,h]

theorem fput_illParam {inBuff : Mem} {inLen : UInt16} (h : fputArgs inBuff inLen = none)
    (course : List UInt8 → UploadCourse) (block : Mem) (io : Io RxEvent) :
    cmdAsciiCmdFput inBuff inLen course block io = some ⟨.ok cmdCreateResIllParam, none, io⟩ := by
  simp only [cmdAsciiCmdFput,h]

section Echo

def echoed : IoEvent → Option Bool
  | .echo on => some on
  | _ => none

def EchoRestored (trace : List IoEvent) : Prop :=
  .echo false ∈ trace → (trace.filterMap echoed).getLast? = some true

theorem echoRestored_last (trace : List IoEvent) : EchoRestored (trace ++ [IoEvent.echo true]) := by
  intro _
  rw [List.filterMap_append]
  exact List.getLast?_concat

theorem SessionCourse.echo {fileSize : UInt32} {course : UploadCourse} {puts : List Bool}
    {sends : List SendRet} {ret : Except Int (List UInt8)} {ev : List IoEvent}
    (h : SessionCourse fileSize course puts sends ret ev) :
    EchoRestored ev ↔ puts.headD true = true := by
  cases h with
  | noStart hput =>
    have hoff : ((startRecord puts).filterMap echoed).getLast? = some false := rfl
    rw [hput]
    refine ⟨fun h => ?_,fun h => by cases h⟩
    have hon := h List.mem_cons_self
    rw [hoff] at hon
    cases hon
  | @refused first ev hput hfirst hev =>
    rw [← List.append_assoc]
    exact ⟨fun _ => hput,fun _ => echoRestored_last _⟩
  | @uploaded ret ev ev' hput hev hup =>
    rw [← List.append_assoc,← List.append_assoc]
    exact ⟨fun _ => hput,fun _ => echoRestored_last _⟩

/-- `$$FPUT` leaves the echo off exactly if the NAK that starts the session cannot be
queued; `$$FGET` never does. -/
theorem echo_restored_iff (inBuff : Mem) (inLen : UInt16) (upload : List UInt8 → UploadCourse)
    (download : List UInt8 → DownloadCourse) (block : Mem) (rx : List RxEvent) (puts : List Bool)
    (sends : List SendRet) :
    (∃ run, cmdAsciiCmdFput inBuff inLen upload block ⟨rx, puts, sends, []⟩ = some run ∧
      (EchoRestored run.io.trace ↔ fputArgs inBuff inLen = none ∨ puts.headD true = true)) ∧
    EchoRestored (cmdAsciiCmdFget inBuff inLen download ⟨rx, puts, sends, []⟩).2.trace := by
  constructor
  · cases hargs : fputArgs inBuff inLen with
    | none =>
      refine ⟨_,fput_illParam hargs upload block _,?_⟩
      exact ⟨fun _ => .inl rfl,fun _ hmem => absurd hmem List.not_mem_nil⟩
    | some args =>
      obtain ⟨run,ev,hrun,hext,hcourse⟩ := session_course args (upload args.fileId) block rx puts sends
      refine ⟨run,(fput_session hargs upload block _).trans hrun,?_⟩
      rw [hext.trace,List.nil_append,hcourse.echo]
      simp
  · simp only [cmdAsciiCmdFget]
    split_ifs
    · exact fun hmem => absurd hmem List.not_mem_nil
    · exact fun hmem => absurd hmem List.not_mem_nil
    · obtain ⟨io',-,hend | ⟨-,hend⟩⟩ := fgetSession_course
        (download ((inBuff.read 1 cmdBuffSz).takeWhile (· ≠ 0))) ⟨rx, puts, sends, []⟩
      · rw [hend]
        exact echoRestored_last _
      · rw [hend]
        exact echoRestored_last _

/-- A transmit queue that is full when the session starts. -/
theorem full_queue_silences_console : ∃ run,
    cmdAsciiCmdFput (Mem.ofList (ascii " a 00000001")) 11 (fun _ => noUrl) Mem.zero
        ⟨[], [false], [], []⟩ = some run ∧
      run.io.trace = [.echo false,.clearReceiveQueue,.put nak false] ∧
      ¬ EchoRestored run.io.trace := by
  refine ⟨_,rfl,rfl,fun h => ?_⟩
  exact absurd (h (by decide)) (by decide)

end Echo

section Told

def Told (trace : List IoEvent) : Prop := [IoEvent.put can true,.put can true] <:+: trace

def PeerSilent (trace : List IoEvent) : Prop := .header eot ∉ trace ∧ .header can ∉ trace

theorem not_told {trace : List IoEvent} (h : NoCan trace) : ¬ Told trace :=
  fun htold => h true (htold.subset List.mem_cons_self)

theorem NoCan.append {a b : List IoEvent} (ha : NoCan a) (hb : NoCan b) : NoCan (a ++ b) :=
  fun ok hmem => (List.mem_append.1 hmem).elim (ha ok) (hb ok)

theorem NoneLost.of_append {a b : List IoEvent} (h : NoneLost (a ++ b)) : NoneLost a ∧ NoneLost b :=
  ⟨fun c ok hmem => h c ok (List.mem_append_left b hmem),
    fun c ok hmem => h c ok (List.mem_append_right a hmem)⟩

theorem cancelRecord_queued {puts : List Bool} (h : NoneLost (cancelRecord puts)) :
    cancelRecord puts = [.put can true,.put can true] := by
  rw [cancelRecord] at h ⊢
  split_ifs at h ⊢ with hput
  · rw [h can _ (List.mem_cons_of_mem _ List.mem_cons_self)]
  · exact absurd (h can false List.mem_cons_self) (by decide)

theorem EndsWithCancel.told {ev : List IoEvent} (h : EndsWithCancel ev) (hq : NoneLost ev)
    (before behind : List IoEvent) : Told (before ++ (ev ++ behind)) := by
  obtain ⟨pre,puts,rfl⟩ := h
  rw [cancelRecord_queued hq.of_append.2]
  exact ⟨before ++ pre,behind,by simp⟩

theorem noCan_start (puts : List Bool) : NoCan (startRecord puts) := by
  intro ok hmem
  simp [startRecord,can,nak] at hmem

theorem noCan_echo : NoCan [.echo true] := fun ok hmem => by simp at hmem

/-- What a session that has not been cancelled can tell from the wait for its first block. -/
def firstAnswer (results : List XmodemRecvRet) : Option XmodemRecvRet :=
  results.find? fun ret => ret ≠ .retry

theorem firstAnswer_again (results : List XmodemRecvRet) :
    firstAnswer (.retry :: results) = firstAnswer results := List.find?_cons_of_neg (by simp)

theorem firstAnswer_other {ret : XmodemRecvRet} (h : ret ≠ .retry) (results : List XmodemRecvRet) :
    firstAnswer (ret :: results) = some ret := List.find?_cons_of_pos (by simpa using h)

theorem firstAnswer_append (a b : List XmodemRecvRet) :
    firstAnswer (a ++ b) = (firstAnswer a).or (firstAnswer b) := List.find?_append

theorem FirstCourse.answer {first : FirstBlock} {ev : List IoEvent} (h : FirstCourse first ev) :
    first = .retryOver ∧ EndsWithCancel ev ∧ firstAnswer (outcomes ev) = none ∨
      NoCan ev ∧ ∃ ret, firstAnswer (outcomes ev) = some ret ∧ (ret = .ok ↔ first = .received) := by
  induction h with
  | @received q frame hq =>
    refine .inr ⟨noCan_ending hq noCan_nil _ frame,.ok,?_,by simp⟩
    rw [outcomes_ending hq]
    exact firstAnswer_other (by simp) _
  | @retryOver q frame puts hq =>
    refine .inl ⟨rfl,⟨q ++ ending .retry frame [],puts,by simp [ending]⟩,?_⟩
    rw [outcomes_ending hq,cancelRecord_outcomes]
    exact firstAnswer_again []
  | @other q ret frame hq hok hretry =>
    refine .inr ⟨noCan_ending hq noCan_nil _ frame,ret,?_,by simp [hok]⟩
    rw [outcomes_ending hq]
    exact firstAnswer_other hretry _
  | @again q ev first frame ok hq h ih =>
    have hresults : outcomes (q ++ ending .retry frame (.put nak ok :: ev)) =
        .retry :: outcomes ev := outcomes_ending hq .retry frame _
    rw [hresults,firstAnswer_again]
    rcases ih with ⟨hover,⟨pre,puts,hev⟩,hnone⟩ | ⟨hcan,hans⟩
    · exact .inl ⟨hover,⟨q ++ ending .retry frame (.put nak ok :: pre),puts,
        by simp [ending,hev]⟩,hnone⟩
    · exact .inr ⟨noCan_ending hq (noCan_cons (by simp [nak,can]) hcan) _ frame,hans⟩

/-- The wait for the first block runs out of retries; or the block comes in, the upload gets
as far as the payload and the first `send` does not fail. -/
def CancelSent (course : UploadCourse) (sends : List SendRet) (results : List XmodemRecvRet) : Prop :=
  ∀ ret, firstAnswer results = some ret →
    ret = .ok ∧ Reaches course ∧ ¬ ∃ errno pos, sends.headD .full = .failed errno pos

theorem upload_told {fileSize : UInt32} {course : UploadCourse} {sends : List SendRet}
    {ev : List IoEvent} (h : UploadCourses fileSize course sends ev) (hq : NoneLost ev)
    (hsilent : PeerSilent ev) {before : List IoEvent} (hbefore : NoCan before)
    (behind : List IoEvent) (hbehind : NoCan behind) :
    Told (before ++ (ev ++ behind)) ↔
      Reaches course ∧ ¬ ∃ errno pos, sends.headD .full = .failed errno pos := by
  cases h with
  | unreached hnot =>
    exact ⟨fun h => absurd h (not_told (hbefore.append (noCan_nil.append hbehind))),
      fun h => absurd h.1 hnot⟩
  | @reached ret ev hreach hcb =>
    cases hcb with
    | @firstFails errno pos data hs =>
      refine ⟨fun h => absurd h (not_told (hbefore.append (NoCan.append ?_ hbehind))),
        fun h => absurd ⟨errno,pos,hs⟩ h.2⟩
      exact noCan_cons (by simp) noCan_nil
    | @leaves n le data v ev ok hs hev h =>
      refine ⟨fun _ => ⟨hreach,taken_not_failed hs⟩,fun _ => ?_⟩
      exact EndsWithCancel.told (h.cancel.behind [.send data (.taken n le),.put ack ok]) hq before behind
    | @ends n le data ev ok hs hev h hbytes =>
      obtain ⟨r,-,hended⟩ := h.last
      rcases hended with ⟨-,hmem⟩ | ⟨-,hmem⟩
      · exact absurd (by simp [hmem]) hsilent.1
      · exact absurd (by simp [hmem]) hsilent.2

theorem start_outcomes (puts : List Bool) (ev : List IoEvent) :
    outcomes (startRecord puts ++ ev) = outcomes ev := outcomes_append _ _

theorem SessionCourse.told {fileSize : UInt32} {course : UploadCourse} {puts : List Bool}
    {sends : List SendRet} {ret : Except Int (List UInt8)} {ev : List IoEvent}
    (h : SessionCourse fileSize course puts sends ret ev) (hputs : AllQueued puts)
    (hq : NoneLost ev) (hsilent : PeerSilent ev) :
    Told ev ↔ CancelSent course sends (outcomes ev) := by
  cases h with
  | noStart hput =>
    rw [hputs.head] at hput
    cases hput
  | @refused first ev hput hfirst hev =>
    have hout : outcomes (startRecord puts ++ (ev ++ [IoEvent.echo true])) = outcomes ev := by
      rw [start_outcomes,outcomes_append]
      exact List.append_nil _
    rw [hout]
    rcases hev.answer with ⟨-,hcancel,hnone⟩ | ⟨hcan,r,hr,hok⟩
    · refine ⟨fun _ r hr => ?_,fun _ => hcancel.told hq.of_append.2.of_append.1 _ _⟩
      rw [hnone] at hr
      cases hr
    · refine ⟨fun h => absurd h (not_told ?_),fun h => absurd (hok.1 (h r hr).1) hfirst⟩
      exact (noCan_start puts).append (hcan.append noCan_echo)
  | @uploaded ret ev ev' hput hev hup =>
    have hout : outcomes (startRecord puts ++ (ev ++ (ev' ++ [IoEvent.echo true]))) =
        outcomes ev ++ outcomes ev' := by
      rw [start_outcomes,outcomes_append,outcomes_append]
      exact congrArg (outcomes ev ++ ·) (List.append_nil _)
    rcases hev.answer with ⟨hover,-⟩ | ⟨hcan,r,hr,hok⟩
    · cases hover
    · have hr' : r = .ok := hok.2 rfl
      subst hr'
      have hq' : NoneLost ev' := hq.of_append.2.of_append.2.of_append.1
      have hsilent' : PeerSilent ev' := ⟨fun h => hsilent.1 (by simp [h]),fun h => hsilent.2 (by simp [h])⟩
      have htold := upload_told hup hq' hsilent' ((noCan_start puts).append hcan) [.echo true]
        noCan_echo
      rw [List.append_assoc] at htold
      rw [htold,hout,CancelSent,firstAnswer_append,hr]
      constructor
      · intro h r hr
        cases hr
        exact ⟨rfl,h⟩
      · intro h
        exact (h .ok rfl).2

/-- With room in the transmit queue, the peer of a `$$FPUT` that fails by itself is told
exactly if the session was given up where it cancels; that of an `$$FGET` is told always. -/
theorem peer_told_iff {puts : List Bool} (hputs : AllQueued puts) :
    (∀ (inBuff : Mem) (inLen : UInt16) (course : List UInt8 → UploadCourse) (block : Mem)
        (rx : List RxEvent) (sends : List SendRet), ∃ run,
      cmdAsciiCmdFput inBuff inLen course block ⟨rx, puts, sends, []⟩ = some run ∧
        (run.ret = .ok cmdCreateResNg → PeerSilent run.io.trace → ∀ args,
          fputArgs inBuff inLen = some args →
          (Told run.io.trace ↔ CancelSent (course args.fileId) sends (outcomes run.io.trace)))) ∧
    ∀ (inBuff : Mem) (inLen : UInt16) (course : List UInt8 → DownloadCourse) (rx : List RxEvent)
        (sends : List SendRet),
      (cmdAsciiCmdFget inBuff inLen course ⟨rx, puts, sends, []⟩).1 = cmdFgetNgRes →
        Told (cmdAsciiCmdFget inBuff inLen course ⟨rx, puts, sends, []⟩).2.trace := by
  refine ⟨fun inBuff inLen course block rx sends => ?_,fun inBuff inLen course rx sends hng => ?_⟩
  · cases hargs : fputArgs inBuff inLen with
    | none =>
      exact ⟨_,fput_illParam hargs course block _,fun _ _ args h => by cases h⟩
    | some args =>
      obtain ⟨run,ev,hrun,hext,hcourse⟩ := session_course args (course args.fileId) block rx puts sends
      refine ⟨run,(fput_session hargs course block _).trans hrun,fun _ hsilent args' h => ?_⟩
      cases h
      rw [hext.trace,List.nil_append] at hsilent ⊢
      exact hcourse.told hputs (hext.queued hputs).2 hsilent
  · have hill : cmdCreateResIllParam ≠ cmdFgetNgRes := by decide
    simp only [cmdAsciiCmdFget] at hng ⊢
    split_ifs at hng ⊢ with h1 h2
    · exact absurd hng hill
    · exact absurd hng hill
    · obtain ⟨io',⟨ev,hext⟩,hend | ⟨hne,-⟩⟩ := fgetSession_course
        (course ((inBuff.read 1 cmdBuffSz).takeWhile (· ≠ 0))) ⟨rx, puts, sends, []⟩
      · have hputs' : AllQueued io'.puts := (hext.queued hputs).1
        have hcancel := extends_cancel io'
        rw [hend]
        simp only [xmodemEnd,uartBrokerSetEcho,Io.log_trace]
        rw [hcancel.trace,cancelRecord_queued (hcancel.queued hputs').2]
        exact ⟨io'.trace,[.echo true],rfl⟩
      · exact absurd hng hne

/-- Nothing comes in, and the wait for the first block is given up. -/
theorem peer_told_iff_silent_line : ∃ run,
    cmdAsciiCmdFput (Mem.ofList (ascii " a 00000001")) 11 (fun _ => noUrl) Mem.zero
      ⟨[], [], [], []⟩ = some run ∧ Told run.io.trace := by
  have hputs : AllQueued [] := fun _ h => absurd h List.not_mem_nil
  obtain ⟨run,hrun,htold⟩ := (peer_told_iff hputs).1 (Mem.ofList (ascii " a 00000001")) 11
    (fun _ => noUrl) Mem.zero [] []
  refine ⟨run,hrun,?_⟩
  cases hrun
  refine (htold rfl ⟨by decide,by decide⟩ ⟨ascii "a", 1⟩ rfl).2 ?_
  intro ret hret
  have hnone : none = some ret := hret
  cases hnone

def firstFrame : List UInt8 := xmodemFrame 1 (List.replicate 128 0x41)

/-- The first block is in, and the request for the URL fails. -/
theorem failed_url_leaves_peer_waiting : ∃ run,
    cmdAsciiCmdFput (Mem.ofList (ascii " a 00000001")) 11 (fun _ => noUrl) Mem.zero
        ⟨bytes firstFrame, [], [], []⟩ = some run ∧
      run.ret = .ok cmdCreateResNg ∧ PeerSilent run.io.trace ∧ ¬ Told run.io.trace := by
  obtain ⟨args,hargs⟩ : ∃ args, fputArgs (Mem.ofList (ascii " a 00000001")) 11 = some args := ⟨_,rfl⟩
  have hframe : IsFrame (0 + 1) firstFrame := isFrame_frame 1 List.length_replicate
  have hround := firstRound_frame hframe [] [] [] (startRecord []) Mem.zero 0 0
  rw [List.append_nil] at hround
  have hloop : loop (firstBody xmodemReceiveBlock) 12
      (sessionStart Mem.zero (bytes firstFrame) [] []) = _ := loop_exit hround
  have hrun := fputSession_received args noUrl Mem.zero (bytes firstFrame) [] rfl hloop rfl
  refine ⟨_,(fput_session hargs _ _ _).trans hrun,rfl,⟨?_,?_⟩,not_told fun ok => ?_⟩
  · simp [xmodemEnd,uartBrokerSetEcho,startRecord,soh,eot]
  · simp [xmodemEnd,uartBrokerSetEcho,startRecord,soh,can]
  · simp [xmodemEnd,uartBrokerSetEcho,startRecord,nak,can]

end Told

end SipfClient.Xmodem
