import SipfClient.Answers
import SipfClient.DownloadLaws
set_option autoImplicit false

/-!
How long the text of `$$RX` gets. An object takes eleven characters and two more for each
byte of its value, against three bytes and the value in the response, and only the bytes
and the number of objects are bounded.
-/

namespace SipfClient
open ByteMem HexText Command Object Http LengthRecords

def valueTotal (body : Mem) (ps : List Nat) : Nat := (ps.map fun p => (body (p + 2)).toNat).sum

theorem rxSize_eq (body : Mem) (ps : List Nat) :
    rxSize body ps = 11 * ps.length + 2 * valueTotal body ps := by
  induction ps with
  | nil => rfl
  | cons p ps ih =>
    simp only [rxSize,valueTotal,List.map_cons,List.sum_cons,List.length_cons] at ih ⊢
    omega

theorem objLoop_length (payload : Mem) (limit n idx : Nat) :
    (objLoop payload limit n idx).1.length ≤ n := by
  induction n generalizing idx with
  | zero => exact Nat.le_refl 0
  | succ n ih =>
    cases n with
    | zero => exact Nat.le_refl 1
    | succ n =>
      simp only [objLoop]
      split_ifs
      · exact Nat.succ_le_succ (Nat.zero_le _)
      · exact Nat.succ_le_succ (ih _)

/-- Where the objects of a response lie, by their lengths alone. -/
def objectStarts (body : Mem) (contentLength : Nat) : List Nat :=
  if contentLength = 12 + 35 then []
  else walk (fun o => o + 3 + (body (o + 2)).toNat) contentLength objMaxCnt 47

def downResponse (cfg : Connector) (net : NetOutcome) : HttpResponse :=
  (runConnectorHttpRequest cfg net HttpResponse.zero).httpRes

/-- What is accepted has the whole OTID, and counts the objects it lists. -/
structure Listed (r : HttpResponse) (body : Mem) (out : DownOut) : Prop where
  otid : out.otid.length = 16
  objqty : out.objqty.toNat = out.pObjs.length
  starts : out.pObjs = objectStarts body r.contentLength

theorem readObjectsDown_listed {r : HttpResponse} {body : Mem} {out : DownOut}
    (h : (readObjectsDown r body out).ret = 0) : Listed r body (readObjectsDown r body out).out := by
  simp only [readObjectsDown] at h ⊢
  split_ifs at h ⊢ with hst hu hrange hcmd hres h47
  · simp at h
  · simp at h
  · simp at h
  · simp at h
  · simp at h
  · exact ⟨Mem.read_length body 13 16,rfl,(if_pos h47).symm⟩
  · have hle := objLoop_length (body.shift 12) (r.contentLength - 12) objMaxCnt 35
    have hbody := @objLoop_body body r.contentLength objMaxCnt (by omega)
    refine ⟨Mem.read_length body 13 16,?_,hbody.trans (if_neg h47).symm⟩
    simp only [List.length_map]
    rw [UInt8.toNat_ofNat',Nat.mod_eq_of_lt (Nat.lt_of_le_of_lt hle (by decide))]

theorem down_listed {cfg : Connector} {net : NetOutcome} {out : DownOut}
    (h : (sipfObjClientObjDown cfg DownArgs.given net out).ret = 0) :
    Listed (downResponse cfg net) (downBody cfg net)
      (sipfObjClientObjDown cfg DownArgs.given net out).out := by
  simp only [sipfObjClientObjDown] at h ⊢
  split_ifs at h ⊢ with hargs hrun
  · exact absurd hargs (by decide)
  · exact absurd h (Int.ne_of_lt hrun)
  · exact readObjectsDown_listed h

section Accepted

variable {cfg : Connector} {net : NetOutcome} {out : DownOut} {ps : List Nat}

theorem rx_text (outBuffLen : Nat) (h : (sipfObjClientObjDown cfg DownArgs.given net out).ret = 0)
    (hps : objectStarts (downBody cfg net) (downResponse cfg net).contentLength = ps) (hne : ps ≠ []) :
    ∃ text : List UInt8, cmdAsciiCmdRx cfg net out 0 outBuffLen =
        (if text.length + 1 ≤ outBuffLen then .ok text
          else .error ⟨0, text.length + 1, outBuffLen⟩) ∧
      text.length = 82 + rxSize (downBody cfg net) ps := by
  obtain ⟨hotid,hqty,hstarts⟩ := down_listed h
  rw [hps] at hstarts
  rw [hstarts] at hqty
  have herr : ¬ UInt8.ofInt (sipfObjClientObjDown cfg DownArgs.given net out).ret ≠ 0 := by
    rw [h]
    decide
  have hzero : ¬ (sipfObjClientObjDown cfg DownArgs.given net out).out.objqty = 0 := by
    intro h0
    rw [h0] at hqty
    exact hne (List.length_eq_zero_iff.1 hqty.symm)
  obtain ⟨objs,hobjs,hsize,-⟩ := rxObjects_text (downBody cfg net) ps
  simp only [cmdAsciiCmdRx,ne_eq,not_true_eq_false,if_false]
  rw [if_neg herr,if_neg hzero,hstarts,hqty,List.take_length,hobjs]
  refine ⟨_,rfl,?_⟩
  have hok : (ascii "OK\r\n").length = 4 := rfl
  simp only [List.length_append,hexOf_length,Mem.read_length,crlf,hex2,hok,List.length_cons,
    List.length_nil,hotid,hsize]
  omega

theorem rx_text_nil (outBuffLen : Nat)
    (h : (sipfObjClientObjDown cfg DownArgs.given net out).ret = 0)
    (hps : objectStarts (downBody cfg net) (downResponse cfg net).contentLength = []) :
    cmdAsciiCmdRx cfg net out 0 outBuffLen = .ok cmdCreateResOk := by
  obtain ⟨-,hqty,hstarts⟩ := down_listed h
  have hzero : (sipfObjClientObjDown cfg DownArgs.given net out).out.objqty = 0 :=
    UInt8.toNat_inj.1 (by rw [hqty,hstarts,hps]; rfl)
  have herr : ¬ UInt8.ofInt (sipfObjClientObjDown cfg DownArgs.given net out).ret ≠ 0 := by
    rw [h]
    decide
  simp only [cmdAsciiCmdRx,ne_eq,not_true_eq_false,if_false]
  rw [if_neg herr,if_pos hzero]

/-- The text of an accepted response fits in `out_buff` exactly if eleven characters for
each of its objects and two for each byte of their values are no more than 4013. -/
theorem rx_output_fits_iff (h : (sipfObjClientObjDown cfg DownArgs.given net out).ret = 0) :
    (∃ text, cmdAsciiCmdRx cfg net out 0 cmdBuffSz = .ok text ∧ text.length + 1 ≤ cmdBuffSz) ↔
      11 * (objectStarts (downBody cfg net) (downResponse cfg net).contentLength).length +
        2 * valueTotal (downBody cfg net)
          (objectStarts (downBody cfg net) (downResponse cfg net).contentLength) ≤ 4013 := by
  generalize hps : objectStarts (downBody cfg net) (downResponse cfg net).contentLength = ps
  by_cases hne : ps = []
  · subst hne
    exact ⟨fun _ => by simp [valueTotal],fun _ => ⟨_,rx_text_nil cmdBuffSz h hps,by decide⟩⟩
  · obtain ⟨text,hrun,hlen⟩ := rx_text cmdBuffSz h hps hne
    rw [rxSize_eq] at hlen
    rw [hrun]
    by_cases hfit : text.length + 1 ≤ cmdBuffSz
    · rw [if_pos hfit]
      refine ⟨fun _ => ?_,fun _ => ⟨text,rfl,hfit⟩⟩
      rw [cmdBuffSz] at hfit
      omega
    · rw [if_neg hfit]
      refine ⟨fun hrun => ?_,fun hle => absurd ?_ hfit⟩
      · obtain ⟨_,herr,-⟩ := hrun
        cases herr
      rw [cmdBuffSz]
      omega

end Accepted

section Messages

def valueBytes (rs : List Record) : Nat := (rs.map fun r => r.value.length).sum

theorem totalSize_eq (rs : List Record) : totalSize rs = 3 * rs.length + valueBytes rs := by
  induction rs with
  | nil => rfl
  | cons r rs ih =>
    simp only [totalSize_cons,Record.size,valueBytes,List.map_cons,List.sum_cons,
      List.length_cons] at ih ⊢
    omega

theorem valueTotal_at {body : Mem} {ps : List Nat} {rs : List Record}
    (h : List.Forall₂ (At body) ps rs) : valueTotal body ps = valueBytes rs := by
  induction h with
  | nil => rfl
  | @cons p r ps rs hat _ ih =>
    simp only [valueTotal,valueBytes,List.map_cons,List.sum_cons] at ih ⊢
    rw [hat.len,Record.len_toNat,ih]

theorem message_listed {cfg : Connector} {net : NetOutcome} {m : DownMessage} {r : HttpResponse}
    (h : Delivers cfg net m r) (out : DownOut) :
    (sipfObjClientObjDown cfg DownArgs.given net out).ret = 0 ∧
      (objectStarts (downBody cfg net) (downResponse cfg net).contentLength).length =
        m.objs.length ∧
      valueTotal (downBody cfg net)
        (objectStarts (downBody cfg net) (downResponse cfg net).contentLength) =
          valueBytes m.objs := by
  obtain ⟨hdown,hbody⟩ := objDown_answers h.answers out
  have hheld := DownMessage.held_of_read h.body
  have hlen : 47 + totalSize m.objs = r.contentLength := by rw [h.length,m.bytes_length]
  have hsmall := m.small
  obtain ⟨hret,-,-,-,-,hobjs,-⟩ := readObjectsDown_whole out h.status (by omega) hheld.command
    hheld.result hlen hheld.objs
  rw [← hdown] at hret hobjs
  have htake : (starts 47 m.objs).take 255 = starts 47 m.objs :=
    List.take_of_length_le (by rw [starts_length]; exact m.count)
  rw [← (down_listed hret).starts,hobjs,htake,hbody]
  exact ⟨hret,starts_length 47 m.objs,valueTotal_at (at_starts hheld.objs)⟩

theorem few_objects_fit {cfg : Connector} {net : NetOutcome} {m : DownMessage} {r : HttpResponse}
    (h : Delivers cfg net m r) (hfew : m.objs.length ≤ 217) :
    11 * (objectStarts (downBody cfg net) (downResponse cfg net).contentLength).length +
      2 * valueTotal (downBody cfg net)
        (objectStarts (downBody cfg net) (downResponse cfg net).contentLength) ≤ 4013 := by
  obtain ⟨-,hcount,htotal⟩ := message_listed h emptyOut
  have hsmall := m.small
  rw [totalSize_eq,buffSz] at hsmall
  omega

def behindHead (m : DownMessage) (head : List UInt8) : HttpResponse :=
  ⟨"OK", 200, m.bytes.length, (head ++ m.bytes).length, head.length⟩

theorem delivered_behind (cfg : Connector) (m : DownMessage) (head : List UInt8) :
    Delivers cfg (answering (behindHead m head) (Mem.ofList (head ++ m.bytes))) m
      (behindHead m head) := by
  have hpos : 0 < (head ++ m.bytes).length := by
    rw [List.length_append,m.bytes_length]
    omega
  refine ⟨answering_answers _ hpos cfg.ssl,rfl,rfl,?_⟩
  have hwhole := Mem.read_ofList (head ++ m.bytes)
  rw [List.length_append,Mem.read_add,Nat.zero_add] at hwhole
  have hbody := (List.append_inj hwhole (Mem.read_length _ 0 head.length)).2
  show ((Mem.ofList (head ++ m.bytes)).shift head.length).read 0 m.bytes.length = m.bytes
  rwa [Mem.read_shift,Nat.add_zero]

end Messages

def threeLetters : Record := ⟨objTypeStrUtf8, 1, [0x41,0x42,0x43], by decide⟩

def twoLetters : Record := ⟨objTypeStrUtf8, 1, [0x41,0x42], by decide⟩

def manyLetters : List Record := List.replicate 130 threeLetters ++ List.replicate 125 twoLetters

theorem manyLetters_length : manyLetters.length = 255 := by
  rw [manyLetters,List.length_append,List.length_replicate,List.length_replicate]

theorem manyLetters_values : valueBytes manyLetters = 640 := by
  rw [valueBytes,manyLetters,List.map_append,List.map_replicate,List.map_replicate,List.sum_append,
    List.sum_replicate,List.sum_replicate]
  rfl

theorem manyLetters_small : 47 + totalSize manyLetters < 12 + buffSz := by
  rw [totalSize_eq,manyLetters_length,manyLetters_values]
  decide

/-- 255 objects with 640 bytes of values, which fit in the receive buffer behind their head. -/
def smallObjects : DownMessage :=
  { letterMessage with
    objs := manyLetters
    count := le_of_eq manyLetters_length
    small := manyLetters_small }

def smallObjectsHead : List UInt8 := ascii "HTTP/1.1 200 OK\r\nContent-Length: 1452\r\n\r\n"

def smallObjectsNet : NetOutcome :=
  answering (behindHead smallObjects smallObjectsHead)
    (Mem.ofList (smallObjectsHead ++ smallObjects.bytes))

theorem small_objects_overflow :
    (smallObjectsHead ++ smallObjects.bytes).length ≤ buffSz ∧
      smallObjects.bytes.length = 1452 ∧
      (sipfObjClientObjDown defaultConnector DownArgs.given smallObjectsNet emptyOut).ret = 0 ∧
      ∃ err, cmdAsciiCmdRx defaultConnector smallObjectsNet emptyOut 0 cmdBuffSz = .error err := by
  have hobjs : smallObjects.objs = manyLetters := rfl
  have hsize : smallObjects.bytes.length = 1452 := by
    rw [DownMessage.bytes_length,hobjs,totalSize_eq,manyLetters_length,manyLetters_values]
  have hhead : smallObjectsHead.length = 41 := by decide
  have hdelivers := delivered_behind defaultConnector smallObjects smallObjectsHead
  obtain ⟨hret,hcount,htotal⟩ := message_listed hdelivers emptyOut
  rw [hobjs,manyLetters_length] at hcount
  rw [hobjs,manyLetters_values] at htotal
  obtain ⟨text,hrun,htext⟩ := rx_text cmdBuffSz hret rfl fun hnil => by
    rw [hnil] at hcount
    cases hcount
  rw [rxSize_eq,hcount,htotal] at htext
  refine ⟨by rw [List.length_append,hhead,hsize]; decide,hsize,hret,_,hrun.trans (if_neg ?_)⟩
  rw [htext]
  decide

theorem rx_output_fits_iff_letter :
    ∃ text, cmdAsciiCmdRx defaultConnector
      (answering letterMessage.response (Mem.ofList letterMessage.bytes)) emptyOut 0 cmdBuffSz =
        .ok text ∧ text.length + 1 ≤ cmdBuffSz := by
  obtain ⟨hret,-⟩ := message_listed (letterMessage.delivered defaultConnector) emptyOut
  exact (rx_output_fits_iff hret).2 (few_objects_fit (letterMessage.delivered defaultConnector)
    (by decide))

end SipfClient
