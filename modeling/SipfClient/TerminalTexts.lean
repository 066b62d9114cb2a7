import SipfClient.TxRendering
import SipfClient.RxOutput
set_option autoImplicit false

namespace SipfClient.Command
open ByteMem HexText CText Loops LengthRecords Object Http

def TxObject.printed (o : TxObject) : List UInt8 :=
  o.tag.map upper ++ 0x20 :: o.type.map upper ++
    0x20 :: hex2 (UInt8.ofNat (o.digits.length / 2)) ++ 0x20 :: o.digits.map upper ++ crlf

theorem Writes.printed {o : TxObject} {r : Record} (h : Writes o r) : rxRecordLine r = o.printed := by
  have htag : hex2 r.tag = o.tag.map upper := by rw [← hexOf_written h.tag]; simp [hexOf]
  have hkind : hex2 r.kind = o.type.map upper := by rw [← hexOf_written h.kind]; simp [hexOf]
  have hlen : r.len = UInt8.ofNat (o.digits.length / 2) := by
    rw [bytesOf_length h.value,Nat.mul_div_cancel_left _ (by decide)]
    rfl
  simp [rxRecordLine,TxObject.printed,htag,hkind,hlen,hexOf_written h.value]

theorem records_printed {os : List TxObject} {rs : List Record} (h : List.Forall₂ Writes os rs) :
    rs.flatMap rxRecordLine = os.flatMap TxObject.printed := by
  induction h with
  | nil => rfl
  | cons hw _ ih => rw [List.flatMap_cons,List.flatMap_cons,hw.printed,ih]

theorem rxRecordLine_length (r : Record) : (rxRecordLine r).length = 11 + 2 * r.value.length := by
  simp [rxRecordLine,hex2,crlf,hexOf_length]
  omega

theorem rxText_length (m : DownMessage) :
    m.rxText.length = 82 + 11 * m.objs.length + 2 * valueBytes m.objs := by
  have hlines : ∀ rs : List Record,
      (rs.flatMap rxRecordLine).length = 11 * rs.length + 2 * valueBytes rs := by
    intro rs
    induction rs with
    | nil => rfl
    | cons r rs ih =>
      rw [List.flatMap_cons,List.length_append,ih,rxRecordLine_length]
      simp only [valueBytes,List.map_cons,List.sum_cons,List.length_cons]
      omega
  have hok : (ascii "OK\r\n").length = 4 := rfl
  simp only [DownMessage.rxText,List.length_append,hexOf_length,m.otid_length,m.userSend_length,
    m.recv_length,hlines,hok,crlf,hex2,List.length_cons,List.length_nil]
  omega

theorem message_printed {cfg : Connector} {net : NetOutcome} {m : DownMessage} {r : HttpResponse}
    (h : Delivers cfg net m r) (out : DownOut) (hne : m.objs ≠ [])
    (hfit : 11 * m.objs.length + 2 * valueBytes m.objs ≤ 4013) :
    cmdAsciiCmdRx cfg net out 0 cmdBuffSz = .ok m.rxText := by
  obtain ⟨hdown,hbody⟩ := objDown_answers h.answers out
  have hheld := DownMessage.held_of_read h.body
  have hsmall := m.small
  obtain ⟨hret,hotid,hrem,hsend,hrecv,hobjs,hqty,-⟩ := readObjectsDown_whole out h.status
    (by rw [h.length,m.bytes_length]; exact hsmall) hheld.command hheld.result
    (by rw [h.length,m.bytes_length]) hheld.objs
  rw [List.take_of_length_le (by rw [starts_length]; exact m.count)] at hobjs
  rw [Nat.min_eq_right m.count] at hqty
  have hparse : List.Forall₂ (ParsesTo (net.client.bodyOf r)) (starts 47 m.objs) m.objs :=
    (at_starts hheld.objs).imp fun _ _ hat => parsesTo_of_at hat
  have hobjqty : (readObjectsDown r (net.client.bodyOf r) out).out.objqty =
      UInt8.ofNat m.objs.length := by
    rw [← hqty,UInt8.ofNat_toNat]
  have hzero : ¬ UInt8.ofNat m.objs.length = 0 := by
    intro h0
    rw [hobjqty,h0] at hqty
    exact hne (List.length_eq_zero_iff.1 hqty.symm)
  have hroom : m.rxText.length + 1 ≤ cmdBuffSz := by
    rw [rxText_length,cmdBuffSz]
    omega
  have herr : ¬ UInt8.ofInt 0 ≠ 0 := by decide
  simp only [cmdAsciiCmdRx,ne_eq,not_true_eq_false,if_false]
  rw [hdown,hbody,hret,if_neg herr,hobjqty,if_neg hzero,hobjs,← hobjqty,hqty,
    List.take_of_length_le (Nat.le_of_eq (starts_length 47 m.objs)),rxObjects_parses hparse]
  simp only [hotid,hheld.otid,hsend,hrecv,hheld.userSend,hheld.recv,hrem,hheld.remains,hobjqty]
  exact if_pos hroom

def rxHead (m : DownMessage) : List UInt8 :=
  hexOf m.otid ++ crlf ++ hexOf m.userSend ++ crlf ++ hexOf m.recv ++ crlf ++ hex2 m.remains ++
    crlf ++ hex2 (UInt8.ofNat m.objs.length) ++ crlf

theorem dispatches_bare {c : CmdAsciiCmd} (hc : c ∈ cmdfunc) {e : UInt8} (he : EndsLine e) :
    dispatches (0x24 :: (c.cmdName ++ [e])) =
      .ok [(UInt16.ofNat c.cmdName.length,some ⟨c, Mem.ofList [], 0⟩)] := by
  have hplain := cmdName_plain hc
  have hread : Reading ([] ++ 0x24 :: (c.cmdName ++ e :: [])) [c.cmdName] [] :=
    .line (by simp) (fun b hb => (hplain b hb).1) he (.idle (by simp))
  have hno : (0x08 : UInt8) ∉ 0x24 :: (c.cmdName ++ [e]) := by
    intro hm
    rcases List.mem_cons.1 hm with hm | hm
    · exact absurd hm (by decide)
    rcases List.mem_append.1 hm with hm | hm
    · exact (hplain _ hm).2 rfl
    · obtain rfl := List.mem_singleton.1 hm
      exact absurd he (by decide)
  have hlen := cmdName_length c hc
  have hline := hread.dispatches hno (by simp; omega) (by simp)
  rw [List.map_singleton] at hline
  refine hline.trans ?_
  have hword : firstWord c.cmdName = c.cmdName := by
    have happend := @firstWord_append c.cmdName [] (cmdName_spaceless c hc) (.inl rfl)
    rwa [List.append_nil] at happend
  rw [readLine,named,hword,cmdName_finds c hc]
  simp

def twoMessage : DownMessage :=
  { letterMessage with
    objs := twoRecords
    count := by decide
    small := by decide }

end SipfClient.Command
