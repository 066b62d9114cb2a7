import SipfClient.HandlerLaws
import SipfClient.TxOverflow
import SipfClient.FputOrderLaws
set_option autoImplicit false

namespace SipfClient
open ByteMem HexText CText Command Object Http Xmodem

def LastLine (text : List UInt8) : Prop :=
  ∃ pre verdict eol, text = pre ++ verdict ++ eol ∧ (pre = [] ∨ pre.getLast? = some 0x0a) ∧
    (verdict = ascii "OK" ∨ verdict = ascii "NG") ∧ (eol = crlf ∨ eol = [0x0a])

structure Answer (text : List UInt8) : Prop where
  pos : 0 < text.length
  fits : text.length ≤ cmdBuffSz
  last : LastLine text

theorem answer_ok : Answer cmdCreateResOk :=
  ⟨by decide,by decide,[],_,_,rfl,.inl rfl,.inl rfl,.inl rfl⟩

theorem answer_ng : Answer cmdCreateResNg :=
  ⟨by decide,by decide,[],_,_,rfl,.inl rfl,.inr rfl,.inl rfl⟩

theorem answer_illParam : Answer cmdCreateResIllParam :=
  ⟨by decide +kernel,by decide +kernel,ascii "ILLIGAL PARAMETER\r\n",_,_,rfl,.inr (by decide +kernel),
    .inr rfl,.inl rfl⟩

theorem answer_fgetNg : Answer cmdFgetNgRes :=
  ⟨by decide,by decide,crlf,_,_,rfl,.inr rfl,.inr rfl,.inl rfl⟩

theorem getLast?_crlf (a : List UInt8) : (a ++ crlf).getLast? = some 0x0a := by simp [crlf]

theorem getLast?_lines {first rest : List UInt8} (hfirst : first.getLast? = some 0x0a)
    (hrest : rest = [] ∨ rest.getLast? = some 0x0a) : (first ++ rest).getLast? = some 0x0a := by
  rcases hrest with rfl | hrest
  · rw [List.append_nil]
    exact hfirst
  · rw [List.getLast?_append,hrest]
    rfl

theorem answer_ends {lines eol : List UInt8} (heol : eol = crlf ∨ eol = [0x0a])
    (hlines : lines.getLast? = some 0x0a) (hlen : lines.length + 4 ≤ cmdBuffSz) :
    Answer (lines ++ (ascii "OK" ++ eol)) := by
  have hok : (ascii "OK" ++ eol).length ≤ 4 := by
    rcases heol with rfl | rfl <;> decide
  refine ⟨?_,?_,lines,ascii "OK",eol,(List.append_assoc _ _ _).symm,.inr hlines,.inl rfl,heol⟩
  · rw [List.length_append,List.length_append]
    exact Nat.lt_add_left _ (Nat.lt_add_right _ (by decide))
  · rw [List.length_append]
    omega

theorem answer_below {text : List UInt8} (h : text.length ≤ 4000) : Answer (text ++ ascii "\r\nOK\r\n") := by
  have hline : ascii "\r\nOK\r\n" = crlf ++ (ascii "OK" ++ crlf) := by decide
  have hcrlf : crlf.length = 2 := rfl
  rw [hline,← List.append_assoc]
  refine answer_ends (.inl rfl) (getLast?_crlf text) ?_
  rw [List.length_append,hcrlf,cmdBuffSz]
  omega

theorem answer_verdict {p : Prop} [Decidable p] :
    Answer (if p then cmdCreateResNg else cmdCreateResOk) := by
  split_ifs
  · exact answer_ng
  · exact answer_ok

section Upload

variable {cfg : Connector} {httpRes : HttpResponse} {reqBuff payload : Mem} {size : UInt16}
  {net : NetOutcome}

theorem readNotification_otid (r : HttpResponse) (body : Mem) :
    ((readNotification r body).2.getD []).length ≤ 16 := by
  simp only [readNotification]
  split_ifs <;> simp

theorem upRaw_fits (h : size.toNat ≤ txBuffSz + 1) :
    ∃ up, sipfObjClientObjUpRaw cfg httpRes reqBuff payload size net = .ok up ∧ Answer (txAnswer up) := by
  have hanswer : ∀ up : UpRaw, (up.otid.getD []).length ≤ 16 → Answer (txAnswer up) := by
    intro up hotid
    rw [txAnswer]
    split_ifs
    · exact answer_below (by rw [hexOf_length]; omega)
    · exact answer_ng
  have hp : (12 + size).toNat = 12 + size.toNat := by
    rw [szPacket_toNat]
    simp only [txBuffSz] at h
    omega
  simp only [sipfObjClientObjUpRaw,hp]
  rw [if_neg (by simp only [buffSz,txBuffSz] at h ⊢; omega),
    Mem.store_ok (by rw [objectsUpHeader_length,buffSz]; omega)]
  simp only [bind,Except.bind]
  rw [Mem.store_ok (by simp only [Mem.read_length,buffSz,txBuffSz] at h ⊢; omega)]
  dsimp only
  split_ifs
  · exact ⟨_,rfl,hanswer _ (Nat.zero_le 16)⟩
  · exact ⟨_,rfl,hanswer _ (readNotification_otid _ _)⟩

end Upload

def rxSize (body : Mem) (ps : List Nat) : Nat := (ps.map fun p => 11 + 2 * (body (p + 2)).toNat).sum

def RxFits (w : World) : Prop :=
  let down := sipfObjClientObjDown w.cfg DownArgs.given w.net w.downOut
  UInt8.ofInt down.ret = 0 → down.out.objqty ≠ 0 → 2 * down.out.otid.length + 50 +
    rxSize (downBody w.cfg w.net) (down.out.pObjs.take down.out.objqty.toNat) < cmdBuffSz

def FputStarts (w : World) (c : CmdCall) : Prop :=
  fputArgs c.inBuff c.inLen = none ∨ w.puts.headD true = true

/-- `in_len` is what is left of the line behind the name. It wraps around for a line
that is shorter than the name and matches it through erased bytes. -/
def InLine (c : CmdCall) : Prop := c.cmd.cmdName.length + c.inLen.toNat < cmdBuffSz

instance (c : CmdCall) : Decidable (InLine c) := inferInstanceAs (Decidable (_ < cmdBuffSz))

/-- The command ends with a response. The file id of `$$FGET` is a string: it has to end in
the buffer. -/
def Answerable (w : World) (d : Device) (c : CmdCall) : Prop :=
  match c.cmd.cmdFunc with
  | .cmdAsciiCmdTx => InLine c ∧ (8 ≤ c.inLen → ¬ TxLeaves c.inBuff c.inLen.toNat)
  | .cmdAsciiCmdRx => c.inLen = 0 → RxFits w
  | .cmdAsciiCmdFput => InLine c ∧ FputStarts w c
  | .cmdAsciiCmdFget => d.parser.inBuffIdx < cmdBuffSz
  | .cmdAsciiCmdUpdate => d.isUnlocked = true → UpdateRuns c → InLine c
  | _ => True

theorem rxObjects_text (body : Mem) (ps : List Nat) : ∃ objs, rxObjects body ps = some objs ∧
    objs.length = rxSize body ps ∧ (objs = [] ∨ objs.getLast? = some 0x0a) := by
  induction ps with
  | nil => exact ⟨[],rfl,rfl,.inl rfl⟩
  | cons p ps ih =>
    obtain ⟨objs,hobjs,hlen,hlast⟩ := ih
    have hsmall : ¬ ((256 : UInt16) < 4 ∨ (256 : UInt16) < 256) := by decide
    simp only [rxObjects,bind,Option.bind,sipfObjectParse_given _ hsmall,hobjs]
    refine ⟨_,rfl,?_,.inr ?_⟩
    · simp only [rxObjectLine,List.length_append,hexOf_length,SipfObjectObject.bytes_length,hlen,rxSize,
        List.map_cons,List.sum_cons,Mem.shift_apply]
      simp [hex2,crlf]
      omega
    · exact getLast?_lines (getLast?_crlf _) hlast

theorem rx_answers {w : World} {inLen : UInt16} (h : inLen = 0 → RxFits w) :
    ∃ text, cmdAsciiCmdRx w.cfg w.net w.downOut inLen cmdBuffSz = .ok text ∧ Answer text := by
  by_cases hlen : inLen = 0
  swap
  · exact ⟨_,by simp only [cmdAsciiCmdRx,if_pos hlen],answer_illParam⟩
  have hfits := h hlen
  simp only [RxFits] at hfits
  simp only [cmdAsciiCmdRx,hlen,ne_eq,not_true_eq_false,if_false]
  generalize sipfObjClientObjDown w.cfg DownArgs.given w.net w.downOut = down at hfits ⊢
  by_cases herr : UInt8.ofInt down.ret = 0
  swap
  · exact ⟨_,by rw [if_pos herr],answer_ng⟩
  rw [if_neg (not_not.2 herr)]
  by_cases hqty : down.out.objqty = 0
  · exact ⟨_,by rw [if_pos hqty],answer_ok⟩
  have hfits := hfits herr hqty
  rw [if_neg hqty]
  obtain ⟨objs,hobjs,hsize,hlast⟩ := rxObjects_text (downBody w.cfg w.net)
    (down.out.pObjs.take down.out.objqty.toNat)
  rw [hobjs]
  dsimp only
  rw [← hsize] at hfits
  have hok : (ascii "OK\r\n").length = 4 := rfl
  rw [if_pos (by
    simp only [List.length_append,hexOf_length,Mem.read_length,crlf,hex2,hok,List.length_cons,
      List.length_nil]
    omega)]
  have hline : ascii "OK\r\n" = ascii "OK" ++ crlf := by decide
  refine ⟨_,rfl, ?_⟩
  rw [hline]
  refine answer_ends (.inl rfl) (getLast?_lines (getLast?_crlf _) hlast) ?_
  simp only [List.length_append,hexOf_length,Mem.read_length,crlf,hex2,List.length_cons,
    List.length_nil]
  omega

theorem tx_answers {w : World} {c : CmdCall}
    (hfit : 8 ≤ c.inLen → ¬ TxLeaves c.inBuff c.inLen.toNat) :
    ∃ run, cmdAsciiCmdTx w.cfg w.httpRes w.reqBuff c.inBuff c.inLen w.net = some (.ok run) ∧
      Answer run.response := by
  simp only [cmdAsciiCmdTx]
  split_ifs with hshort
  · exact ⟨_,rfl,answer_illParam⟩
  · have hge : 8 ≤ c.inLen := UInt16.not_lt.1 hshort
    have hpos : 8 ≤ c.inLen.toNat := UInt16.le_iff_toNat_le.1 hge
    obtain ⟨r,hloop,hsize⟩ := txLoop_fits (by omega) (hfit hge)
    rw [hloop]
    cases r with
    | illParam => exact ⟨_,rfl,answer_illParam⟩
    | parsed buf size =>
      obtain ⟨up,hup,hanswer⟩ := @upRaw_fits w.cfg w.httpRes w.reqBuff buf size w.net
        (hsize buf size rfl)
      refine ⟨⟨txAnswer up, some (buf, size)⟩,?_,hanswer⟩
      simp only [Option.bind_some,bind,Except.bind,pure,Except.pure,hup,txAnswer]
      split_ifs <;> rfl

theorem txRaw_answers (w : World) (c : CmdCall) :
    ∃ text, cmdAsciiCmdTxRaw w.cfg w.httpRes w.reqBuff c.inBuff c.inLen w.net = .ok text ∧
      Answer text := by
  simp only [cmdAsciiCmdTxRaw]
  split_ifs
  · exact ⟨_,rfl,answer_illParam⟩
  · exact ⟨_,rfl,answer_illParam⟩
  · exact ⟨_,rfl,answer_illParam⟩
  · split
    · exact ⟨_,rfl,answer_illParam⟩
    · obtain ⟨up,hup,hanswer⟩ := @upRaw_fits w.cfg w.httpRes w.reqBuff (Mem.ofList _)
        (UInt8.ofInt _).toUInt16 w.net (by
          rw [UInt8.toNat_toUInt16]
          exact (UInt8.toNat_lt _).le.trans (by decide))
      rw [hup]
      exact ⟨_,rfl,hanswer⟩

theorem fget_answers (w : World) (c : CmdCall) :
    Answer (cmdAsciiCmdFget c.inBuff c.inLen w.download w.io).1 := by
  have hok : ∀ n, Answer (cmdFgetOkRes n) := fun n => answer_below (by
    rw [List.length_append,hex8_length]
    decide)
  have hsession : ∀ course io, Answer (fgetSession course io).1 := by
    intro course io
    simp only [fgetSession]
    split
    · split_ifs
      · exact answer_fgetNg
      · split
        · exact answer_fgetNg
        · exact answer_fgetNg
        · exact hok _
    · exact answer_fgetNg
  simp only [cmdAsciiCmdFget]
  split_ifs
  · exact answer_illParam
  · exact answer_illParam
  · exact hsession _ _

theorem fput_answers {w : World} {c : CmdCall} (h : FputStarts w c) :
    ∃ run text, cmdAsciiCmdFput c.inBuff c.inLen w.upload w.block w.io = some run ∧
      run.ret = .ok text ∧ Answer text := by
  simp only [cmdAsciiCmdFput]
  cases hargs : fputArgs c.inBuff c.inLen with
  | none => exact ⟨_,_,rfl,rfl,answer_illParam⟩
  | some args =>
    have hput := h.resolve_left (by simp [hargs])
    have hstart : FirstInv w.rx (sessionStart w.block w.rx w.puts w.sends) :=
      ⟨⟨fun i h => absurd h (Nat.not_lt_zero i),⟨[],rfl,trivial⟩,
        ackBound_none (by simp [sessionStart,startRecord,isAck,nak,Xmodem.ack])⟩,rfl,rfl,rfl⟩
    obtain ⟨⟨first,s⟩,hloop,-⟩ := first_run hstart rfl
    by_cases hfirst : first = .received
    · subst hfirst
      obtain ⟨cb,hcb⟩ := cmdFputSendCb_total args.fileSize s.block s.io
      obtain ⟨up,hup,-⟩ := sipfFileUpload_cases (w.upload args.fileId) (int32 args.fileSize.toNat) hcb
      refine ⟨_,_,fputSession_received args _ w.block w.rx w.sends hput hloop hup,rfl,?_⟩
      split_ifs
      · exact answer_ng
      · exact answer_below (by rw [hex8_length]; decide)
    · exact ⟨_,_,fputSession_refused args _ w.block w.rx w.sends hput hloop hfirst,rfl,answer_ng⟩

theorem statusLine_length (name : String) (flag : Bool) :
    (statusLine name flag).length ≤ (ascii name).length + 8 := by
  cases flag <;> simp [statusLine,ascii]

theorem gnssStatus_answers (inLen : UInt16) (g : Gnss) : Answer (cmdAsciiCmdGnssStatus inLen g) := by
  simp only [cmdAsciiCmdGnssStatus]
  split_ifs
  · exact answer_illParam
  have hline : ascii "OK\n" = ascii "OK" ++ [0x0a] := by decide
  rw [hline]
  refine answer_ends (.inr rfl) ?_ ?_
  · rw [List.getLast?_append,statusLine,List.getLast?_append]
    rfl
  · have h1 := statusLine_length "Fix valid" (gnssGetData g).2.fixValid
    have h2 := statusLine_length "Leap second valid" (gnssGetData g).2.leapSecondValid
    have h3 := statusLine_length "Sleep between PVT" (gnssGetData g).2.sleepBetweenPvt
    have h4 := statusLine_length "Deadline missed" (gnssGetData g).2.deadlineMissed
    have h5 := statusLine_length "Insuf. time window" (gnssGetData g).2.notEnoughWindowTime
    have h6 := statusLine_length "Velocity estimate valid" (gnssGetData g).2.velocityValid
    simp only [ascii_length,show "Fix valid".toList.length = 9 from rfl,
      show "Leap second valid".toList.length = 17 from rfl,
      show "Sleep between PVT".toList.length = 17 from rfl,
      show "Deadline missed".toList.length = 15 from rfl,
      show "Insuf. time window".toList.length = 18 from rfl,
      show "Velocity estimate valid".toList.length = 23 from rfl] at h1 h2 h3 h4 h5 h6
    simp only [List.length_append,cmdBuffSz]
    omega

theorem dateTime_length (pvt : PvtData) : (dateTime pvt).length ≤ 26 := by
  have h8 : ∀ b : UInt8, (printU 2 b.toNat).length ≤ 3 := fun b =>
    printU_length (by decide) (b.toNat_lt.trans (by decide))
  have h16 : (printU 4 pvt.year.toNat).length ≤ 5 :=
    printU_length (by decide) (pvt.year.toNat_lt.trans (by decide))
  have h1 := h8 pvt.month
  have h2 := h8 pvt.day
  have h3 := h8 pvt.hour
  have h4 := h8 pvt.minute
  have h5 := h8 pvt.seconds
  simp only [dateTime,List.length_append,ascii_length,show "-".toList.length = 1 from rfl,
    show "T".toList.length = 1 from rfl,show ":".toList.length = 1 from rfl,
    show "Z".toList.length = 1 from rfl]
  omega

theorem gnssLocation_answers (inLen : UInt16) (g : Gnss) :
    Answer (cmdAsciiCmdGnssLocation inLen g) := by
  simp only [cmdAsciiCmdGnssLocation]
  by_cases hlen : inLen ≠ 0
  · rw [if_pos hlen]
    exact answer_illParam
  rw [if_neg hlen]
  refine answer_below ?_
  have hfix : (ascii (if (gnssGetData g).1 then "A," else "V,")).length = 2 := by
    split_ifs <;> rfl
  have hcomma : (ascii ",").length = 1 := rfl
  have h1 := (gnssGetData g).2.longitude.short
  have h2 := (gnssGetData g).2.latitude.short
  have h3 := (gnssGetData g).2.altitude.short
  have h4 := (gnssGetData g).2.speed.short
  have h5 := (gnssGetData g).2.heading.short
  have h6 := dateTime_length (gnssGetData g).2
  simp only [List.length_append,hfix,hcomma]
  omega

theorem flatten_length_le {n : Nat} (ss : List (List UInt8)) (h : ∀ s ∈ ss, s.length ≤ n) :
    ss.flatten.length ≤ n * ss.length := by
  induction ss with
  | nil => simp
  | cons s ss ih =>
    have hs := h s (by simp)
    have hss := ih fun t ht => h t (by simp [ht])
    simp only [List.flatten_cons,List.length_append,List.length_cons,Nat.mul_succ]
    omega

theorem gnssNmea_answers (inLen : UInt16) (g : Gnss) : Answer (cmdAsciiCmdGnssNmea inLen g) := by
  simp only [cmdAsciiCmdGnssNmea]
  split_ifs
  · exact answer_illParam
  have hfit := flatten_length_le g.nmea.strings fun s hs => Nat.le_of_lt_succ (g.nmea.fit s hs)
  have hcount := g.nmea.count
  refine answer_below ?_
  rw [gnssStrcpyNmea]
  omega

theorem gnssEnable_answers (inBuff : Mem) (inLen : UInt16) (g : Gnss) :
    Answer (cmdAsciiCmdGnssEnable inBuff inLen g) := by
  simp only [cmdAsciiCmdGnssEnable]
  split_ifs
  all_goals first
    | exact answer_illParam
    | exact answer_ng
    | exact answer_ok

theorem unlock_answers (inBuff : Mem) (inLen : UInt16) (isUnlocked : Bool) :
    Answer (cmdAsciiCmdUnlock inBuff inLen isUnlocked).1 := by
  simp only [cmdAsciiCmdUnlock]
  split_ifs
  all_goals first
    | exact answer_illParam
    | exact answer_ok

theorem update_answers {w : World} {d : Device} {c : CmdCall} (hc : IsUpdate c)
    (h : d.isUnlocked = true → UpdateRuns c → InLine c) : ∃ text file,
      cmdAsciiCmdUpdate (cmdBuffSz - c.cmd.cmdName.length) c.inBuff c.inLen d.isUnlocked
        w.fotaHttpRun = .ok (text, file) ∧ Answer text := by
  simp only [cmdAsciiCmdUpdate]
  split_ifs with hlocked _ _ _ hversion hsuffix
  · exact ⟨_,_,rfl,answer_ng⟩
  · exact ⟨_,_,rfl,answer_illParam⟩
  · exact ⟨_,_,rfl,answer_illParam⟩
  · exact ⟨_,_,rfl,answer_verdict⟩
  · exact ⟨_,_,rfl,answer_illParam⟩
  · have hin := h (by simpa using hlocked) ⟨hc,.inr ⟨UInt16.not_lt.1 hsuffix,hversion⟩⟩
    rw [Mem.store_ok (by simp only [InLine] at hin; rw [List.length_singleton]; omega)]
    exact ⟨_,_,rfl,answer_verdict⟩
  · exact ⟨_,_,rfl,answer_illParam⟩

theorem r_answers (inBuff : Mem) (inLen : UInt16) (r : Registers) :
    Answer (cmdAsciiCmdR inBuff inLen r) := by
  simp only [cmdAsciiCmdR]
  split_ifs
  · exact answer_illParam
  · exact answer_illParam
  · exact answer_illParam
  · split
    · exact answer_illParam
    · exact answer_below (by simp [hex2])

/-- The one result of `W` that is no response needs a line that no dispatch hands over. -/
theorem w_answers {inBuff : Mem} {inLen : UInt16} (r : Registers) (h : inLen = 0 ∨ inBuff 0 = 0x20) :
    ∃ text, (cmdAsciiCmdW inBuff inLen r).ret = .ok text ∧ Answer text := by
  simp only [cmdAsciiCmdW]
  split_ifs with hlen _ hspace
  · exact ⟨_,rfl,answer_illParam⟩
  · exact ⟨_,rfl,answer_illParam⟩
  · rcases h with rfl | h
    · exact absurd (show ¬ (0 : UInt16) ≠ 6 from hlen) (by decide)
    · exact absurd h hspace
  · exact ⟨_,rfl,answer_illParam⟩
  · exact ⟨_,rfl,answer_illParam⟩
  · exact ⟨_,rfl,answer_ng⟩
  · exact ⟨_,rfl,answer_ok⟩

theorem callHandler_answers {w : World} {d : Device} {c : CmdCall} (h : Answerable w d c)
    (hsep : c.inLen = 0 ∨ c.inBuff 0 = 0x20) :
    ∃ r text, callHandler w d c = .ok r ∧ r.ret = .ok text ∧ Answer text := by
  unfold callHandler
  cases hf : c.cmd.cmdFunc with
  | cmdAsciiCmdW =>
    obtain ⟨text,hret,hanswer⟩ := w_answers d.registers hsep
    exact ⟨_,text,rfl,hret,hanswer⟩
  | cmdAsciiCmdR => exact ⟨_,_,rfl,rfl,r_answers _ _ _⟩
  | cmdAsciiCmdTxRaw =>
    obtain ⟨text,htext,hanswer⟩ := txRaw_answers w c
    simp only [htext]
    exact ⟨_,_,rfl,rfl,hanswer⟩
  | cmdAsciiCmdTx =>
    simp only [Answerable,hf] at h
    obtain ⟨run,hrun,hanswer⟩ := @tx_answers w c h.2
    simp only [hrun]
    exact ⟨_,_,rfl,rfl,hanswer⟩
  | cmdAsciiCmdRx =>
    simp only [Answerable,hf] at h
    obtain ⟨text,htext,hanswer⟩ := rx_answers h
    simp only [htext]
    exact ⟨_,_,rfl,rfl,hanswer⟩
  | cmdAsciiCmdFput =>
    simp only [Answerable,hf] at h
    obtain ⟨run,text,hrun,hret,hanswer⟩ := fput_answers h.2
    simp only [hrun]
    exact ⟨_,text,rfl,hret,hanswer⟩
  | cmdAsciiCmdFget => exact ⟨_,_,rfl,rfl,fget_answers w c⟩
  | cmdAsciiCmdUnlock => exact ⟨_,_,rfl,rfl,unlock_answers _ _ _⟩
  | cmdAsciiCmdUpdate =>
    simp only [Answerable,hf] at h
    obtain ⟨text,file,hrun,hanswer⟩ := @update_answers w d c hf h
    simp only [hrun]
    exact ⟨_,_,rfl,rfl,hanswer⟩
  | cmdAsciiCmdGnssEnable => exact ⟨_,_,rfl,rfl,gnssEnable_answers _ _ _⟩
  | cmdAsciiCmdGnssLocation => exact ⟨_,_,rfl,rfl,gnssLocation_answers _ _⟩
  | cmdAsciiCmdGnssNmea => exact ⟨_,_,rfl,rfl,gnssNmea_answers _ _⟩
  | cmdAsciiCmdGnssStatus => exact ⟨_,_,rfl,rfl,gnssStatus_answers _ _⟩

end SipfClient
