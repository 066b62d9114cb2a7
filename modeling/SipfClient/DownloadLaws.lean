import SipfClient.ObjectDownload
import SipfClient.UploadLaws
set_option autoImplicit false

namespace SipfClient.Object
open ByteMem Http HexText Command LengthRecords

def WholeObjects (body : Mem) (contentLength : Nat) : Prop :=
  ∃ rs : List Record, 47 + totalSize rs = contentLength ∧
    body.read 47 (totalSize rs) = encode rs

structure ReadsInside (r : HttpResponse) (body : Mem) (d : DownRead) : Prop where
  reads : ∀ i ∈ d.reads, i < r.contentLength
  fixedPart : d.ret = 0 → 47 ≤ r.contentLength
  listed : d.ret = 0 → d.out.objqty.toNat = d.out.pObjs.length ∧ Consecutive body 47 d.out.pObjs ∧
    ∀ p ∈ d.out.pObjs, p + 3 + (body (p + 2)).toNat ≤ r.contentLength
  parsed : d.ret = 0 → ∀ p ∈ d.out.pObjs, ∀ i ∈ sipfObjectParseReads (body.shift p),
    p + i < r.contentLength
  rejects : r.contentLength < 47 ∨ ¬ WholeObjects body r.contentLength → d.ret ≠ 0

/-- The responses that are refused before anything past their end is looked at,
or that hold a whole message. -/
def DownloadSafe (r : HttpResponse) (body : Mem) : Prop :=
  r.httpStatus ≠ "OK" ∨ r.contentLength < 12 ∨ 12 + buffSz ≤ r.contentLength ∨
    body 0 ≠ objectsDown ∨ (13 ≤ r.contentLength ∧ body 12 ≠ 0x00) ∨
    (47 ≤ r.contentLength ∧ WholeObjects body r.contentLength)

theorem readObjectsDown_congr {r s : HttpResponse} (hs : r.httpStatus = s.httpStatus)
    (hl : r.contentLength = s.contentLength) (body : Mem) (out : DownOut) :
    readObjectsDown r body out = readObjectsDown s body out := by
  simp only [readObjectsDown,hs,hl]

theorem objDown_answers {cfg : Connector} {net : NetOutcome} {r : HttpResponse}
    (h : net.Answers cfg.ssl r) (out : DownOut) :
    (sipfObjClientObjDown cfg DownArgs.given net out).toDownRead =
      readObjectsDown r (net.client.bodyOf r) out ∧
    downBody cfg net = net.client.bodyOf r := by
  have hrun := runConnector_answers h HttpResponse.zero
  have hs := foldl_cb_fresh (u := HttpResponse.zero) rfl h.called h.data h.own
  have hret : ¬ net.client.ret < 0 := by have := h.success; omega
  have hbody : net.client.bodyOf (net.client.deliveries.foldl httpResponseCb HttpResponse.zero) =
      net.client.bodyOf r := by simp only [ClientRun.bodyOf,hs.body]
  constructor
  · rw [← hbody,← readObjectsDown_congr hs.status hs.length]
    simp [sipfObjClientObjDown,DownArgs.given,hrun,hret]
  · rw [downBody,hrun,hbody]

theorem fixedReads_lt {i : Nat} (h : i ∈ fixedReads) : i < 46 := by
  revert i
  decide

section Accepted

variable {r : HttpResponse} {body : Mem} (out : DownOut)

theorem readObjectsDown_accepts (hst : r.httpStatus = "OK") (hlo : 12 ≤ r.contentLength)
    (hhi : r.contentLength < 12 + buffSz) (hcmd : body 0 = objectsDown) (hres : body 12 = 0x00)
    (hne : r.contentLength ≠ 47) :
    readObjectsDown r body out =
      ⟨0, ⟨body.read 13 16, body 45,
          UInt8.ofNat (objLoop (body.shift 12) (r.contentLength - 12) objMaxCnt 35).1.length,
          (objLoop (body.shift 12) (r.contentLength - 12) objMaxCnt 35).1.map (12 + ·), 29, 37⟩,
        fixedReads ++ (objLoop (body.shift 12) (r.contentLength - 12) objMaxCnt 35).2.map
          (12 + ·)⟩ := by
  have h1 : ¬ (r.contentLength < 12 ∨ 12 + buffSz ≤ r.contentLength) := by omega
  simp [readObjectsDown,hst,h1,hcmd,hres,hne]

theorem readObjectsDown_empty (hst : r.httpStatus = "OK") (hcmd : body 0 = objectsDown)
    (hres : body 12 = 0x00) (hlen : r.contentLength = 47) :
    readObjectsDown r body out =
      ⟨0, ⟨body.read 13 16, body 45, 0, [], 29, 37⟩, fixedReads⟩ := by
  simp [readObjectsDown,hst,hcmd,hres,hlen,buffSz]

theorem objLoop_body (cl n : Nat) (hcl : 12 ≤ cl) :
    (objLoop (body.shift 12) (cl - 12) n 35).1.map (12 + ·) =
      walk (fun o => o + 3 + (body (o + 2)).toNat) cl n 47 := by
  have hshift := @walk_shift (fun o => o + 3 + ((body.shift 12) (o + 2)).toNat)
    (fun o => o + 3 + (body (o + 2)).toNat) 12
    (fun o => by simp only [Mem.shift_apply,Nat.add_assoc]) (cl - 12) n 35
  rw [objLoop_walk,hshift]
  congr 1
  omega

theorem readObjectsDown_whole (hst : r.httpStatus = "OK") (hhi : r.contentLength < 12 + buffSz)
    (hcmd : body 0 = objectsDown) (hres : body 12 = 0x00) {rs : List Record}
    (hlen : 47 + totalSize rs = r.contentLength)
    (hbody : body.read 47 (totalSize rs) = encode rs) :
    (readObjectsDown r body out).ret = 0 ∧
    (readObjectsDown r body out).out.otid = body.read 13 16 ∧
    (readObjectsDown r body out).out.remains = body 45 ∧
    (readObjectsDown r body out).out.pUserSendDatetime = 29 ∧
    (readObjectsDown r body out).out.pRecvDatetime = 37 ∧
    (readObjectsDown r body out).out.pObjs = (starts 47 rs).take 255 ∧
    (readObjectsDown r body out).out.objqty.toNat = min 255 rs.length ∧
    ∀ i ∈ (readObjectsDown r body out).reads, i < r.contentLength := by
  by_cases hrs : rs = []
  · subst hrs
    have h47 : r.contentLength = 47 := by simpa using hlen.symm
    rw [readObjectsDown_empty out hst hcmd hres h47]
    refine ⟨rfl,rfl,rfl,rfl,rfl,rfl,rfl,fun i hi => ?_⟩
    have hlt := fixedReads_lt hi
    omega
  · have hpos : 0 < totalSize rs := by
      cases rs with
      | nil => exact absurd rfl hrs
      | cons s ss => simp [Record.size]
    rw [readObjectsDown_accepts out hst (by omega) hhi hcmd hres (by omega)]
    have hwalk := @objLoop_body body r.contentLength objMaxCnt (by omega)
    rw [← hlen,walk_encode (fun _ => rfl) hrs hbody,hlen] at hwalk
    have hcount : (objLoop (body.shift 12) (r.contentLength - 12) objMaxCnt 35).1.length =
        min 255 rs.length := by
      have hl := congrArg List.length hwalk
      simpa [objMaxCnt] using hl
    refine ⟨rfl,rfl,rfl,rfl,rfl,hwalk,?_,fun i hi => ?_⟩
    · show (UInt8.ofNat _).toNat = _
      rw [hcount,UInt8.toNat_ofNat']
      omega
    · simp only [List.mem_append,List.mem_map] at hi
      rcases hi with hi | ⟨j,hj,rfl⟩
      · have hlt := fixedReads_lt hi
        omega
      · obtain ⟨o,ho,rfl⟩ := objLoop_reads _ _ _ _ j hj
        have hmem : 12 + o ∈ starts 47 rs := by
          apply List.mem_of_mem_take (i := objMaxCnt)
          rw [← hwalk]
          exact List.mem_map.mpr ⟨o,ho,rfl⟩
        have hin := starts_inside hbody _ hmem
        omega

end Accepted

theorem starts_take_consecutive {m : Mem} {o : Nat} {rs : List Record}
    (h : m.read o (totalSize rs) = encode rs) (n : Nat) :
    Consecutive m o ((starts o rs).take n) := by
  by_cases hrs : rs = []
  · subst hrs
    simp [starts,Consecutive]
  · have hw := @walk_consecutive m (fun o => o + 3 + (m (o + 2)).toNat)
      (fun _ => rfl) (o + totalSize rs) n o
    rwa [walk_encode (fun _ => rfl) hrs h] at hw

theorem readsInside_whole {r : HttpResponse} {body : Mem} (out : DownOut)
    (hst : r.httpStatus = "OK") (hhi : r.contentLength < 12 + buffSz)
    (hcmd : body 0 = objectsDown) (hres : body 12 = 0x00)
    (hwhole : WholeObjects body r.contentLength) :
    ReadsInside r body (readObjectsDown r body out) := by
  obtain ⟨rs,hlen,hbody⟩ := hwhole
  obtain ⟨_,_,_,_,_,hobjs,hqty,hreads⟩ := readObjectsDown_whole out hst hhi hcmd hres hlen hbody
  have hin : ∀ p ∈ (readObjectsDown r body out).out.pObjs,
      p + 3 + (body (p + 2)).toNat ≤ r.contentLength := by
    intro p hp
    rw [hobjs] at hp
    have hi := starts_inside hbody p (List.mem_of_mem_take hp)
    omega
  refine ⟨hreads,fun _ => by omega,fun _ => ⟨?_,?_,hin⟩,fun _ p hp i hi => ?_,fun hbad => ?_⟩
  · rw [hqty,hobjs,List.length_take,starts_length]
  · rw [hobjs]
    exact starts_take_consecutive hbody 255
  · have hp' := hin p hp
    simp only [sipfObjectParseReads,List.mem_range,Mem.shift_apply] at hi
    omega
  · rcases hbad with hshort | hn
    · omega
    · exact absurd ⟨rs,hlen,hbody⟩ hn

theorem readsInside_refused {r : HttpResponse} {body : Mem} {d : DownRead} (hret : d.ret ≠ 0)
    (hreads : ∀ i ∈ d.reads, i < r.contentLength) : ReadsInside r body d :=
  ⟨hreads,fun h => absurd h hret,fun h => absurd h hret,fun h => absurd h hret,fun _ => hret⟩

theorem readObjectsDown_reads_result {r : HttpResponse} {body : Mem} (out : DownOut)
    (hst : r.httpStatus = "OK") (hlo : 12 ≤ r.contentLength)
    (hhi : r.contentLength < 12 + buffSz) (hcmd : body 0 = objectsDown) :
    12 ∈ (readObjectsDown r body out).reads := by
  have h1 : ¬ (r.contentLength < 12 ∨ 12 + buffSz ≤ r.contentLength) := by omega
  by_cases hres : body 12 = 0x00
  · by_cases h47 : r.contentLength = 47
    · rw [readObjectsDown_empty out hst hcmd hres h47]
      simp [fixedReads]
    · rw [readObjectsDown_accepts out hst hlo hhi hcmd hres h47]
      simp [fixedReads]
  · simp [readObjectsDown,hst,h1,hcmd,hres]

theorem readObjectsDown_ret_zero {r : HttpResponse} {body : Mem} (out : DownOut)
    (hst : r.httpStatus = "OK") (hlo : 12 ≤ r.contentLength)
    (hhi : r.contentLength < 12 + buffSz) (hcmd : body 0 = objectsDown) (hres : body 12 = 0x00) :
    (readObjectsDown r body out).ret = 0 := by
  by_cases h47 : r.contentLength = 47
  · rw [readObjectsDown_empty out hst hcmd hres h47]
  · rw [readObjectsDown_accepts out hst hlo hhi hcmd hres h47]

theorem readsInside_iff (r : HttpResponse) (body : Mem) (out : DownOut) :
    ReadsInside r body (readObjectsDown r body out) ↔ DownloadSafe r body := by
  by_cases hst : r.httpStatus = "OK"
  case neg =>
    refine ⟨fun _ => .inl hst,fun _ => ?_⟩
    by_cases hu : r.httpStatus = "Unauthorized"
    · exact readsInside_refused (by simp [readObjectsDown,hu]) (by simp [readObjectsDown,hu])
    · exact readsInside_refused (by simp [readObjectsDown,hst,hu])
        (by simp [readObjectsDown,hst,hu])
  by_cases hrange : r.contentLength < 12 ∨ 12 + buffSz ≤ r.contentLength
  · refine ⟨fun _ => .inr (hrange.elim .inl fun h => .inr (.inl h)),fun _ => ?_⟩
    exact readsInside_refused (by simp [readObjectsDown,hst,hrange])
      (by simp [readObjectsDown,hst,hrange])
  have hlo : 12 ≤ r.contentLength := by omega
  have hhi : r.contentLength < 12 + buffSz := by omega
  by_cases hcmd : body 0 = objectsDown
  case neg =>
    refine ⟨fun _ => .inr (.inr (.inr (.inl hcmd))),fun _ => ?_⟩
    exact readsInside_refused (by simp [readObjectsDown,hst,hrange,hcmd])
      (by simp [readObjectsDown,hst,hrange,hcmd]; omega)
  have hmem := readObjectsDown_reads_result out hst hlo hhi hcmd
  by_cases hres : body 12 = 0x00
  · have hret := readObjectsDown_ret_zero out hst hlo hhi hcmd hres
    constructor
    · intro h
      refine .inr (.inr (.inr (.inr (.inr ⟨h.fixedPart hret,?_⟩))))
      by_contra hn
      exact h.rejects (.inr hn) hret
    · rintro (h | h | h | h | h | h)
      · exact absurd hst h
      · omega
      · omega
      · exact absurd hcmd h
      · exact absurd hres h.2
      · exact readsInside_whole out hst hhi hcmd hres h.2
  · constructor
    · intro h
      have h13 := h.reads 12 hmem
      exact .inr (.inr (.inr (.inr (.inl ⟨h13,hres⟩))))
    · intro h
      have h13 : 13 ≤ r.contentLength := by
        rcases h with h | h | h | h | h | h
        · exact absurd hst h
        · omega
        · omega
        · exact absurd hcmd h
        · exact h.1
        · omega
      exact readsInside_refused (by simp [readObjectsDown,hst,hrange,hcmd,hres])
        (by simp [readObjectsDown,hst,hrange,hcmd,hres]; omega)

def emptyOut : DownOut := ⟨[], 0, 0, [], 0, 0⟩

def truncatedDown : HttpResponse := ⟨"OK", 200, 50, 1, 0⟩

def truncatedBody : Mem := ((Mem.zero.set 0 objectsDown).set 47 objTypeBin).set 49 5

/-- A message as the server builds it: a 12-byte header, the 35-byte fixed part
with result 0, and the objects. -/
structure DownMessage where
  head : List UInt8
  otid : List UInt8
  userSend : List UInt8
  recv : List UInt8
  remains : UInt8
  reserved : UInt8
  objs : List Record
  head_length : head.length = 11
  otid_length : otid.length = 16
  userSend_length : userSend.length = 8
  recv_length : recv.length = 8
  count : objs.length ≤ 255
  small : 47 + totalSize objs < 12 + buffSz

namespace DownMessage

def bytes (m : DownMessage) : List UInt8 :=
  (objectsDown :: m.head) ++ ((0x00 :: m.otid) ++ m.userSend ++ m.recv ++ [m.remains,m.reserved]) ++
    encode m.objs

theorem bytes_length (m : DownMessage) : m.bytes.length = 47 + totalSize m.objs := by
  simp [bytes,m.head_length,m.otid_length,m.userSend_length,m.recv_length,encode_length]
  omega

structure Held (m : DownMessage) (body : Mem) : Prop where
  command : body 0 = objectsDown
  result : body 12 = 0x00
  otid : body.read 13 16 = m.otid
  userSend : body.read 29 8 = m.userSend
  recv : body.read 37 8 = m.recv
  remains : body 45 = m.remains
  objs : body.read 47 (totalSize m.objs) = encode m.objs

theorem held_of_read {m : DownMessage} {body : Mem}
    (h : body.read 0 m.bytes.length = m.bytes) : m.Held body := by
  have hsum : m.bytes.length = 12 + ((1 + 16 + 8 + 8 + 2) + totalSize m.objs) := by
    rw [bytes_length]; omega
  rw [hsum,Mem.read_add,Mem.read_add,bytes,List.append_assoc] at h
  obtain ⟨hhead,hrest⟩ := List.append_inj h (by simp [m.head_length])
  obtain ⟨hfixed,hobjs⟩ := List.append_inj hrest
    (by simp [m.otid_length,m.userSend_length,m.recv_length])
  rw [Mem.read_add] at hfixed
  obtain ⟨hf,hlast⟩ := List.append_inj hfixed
    (by simp [m.otid_length,m.userSend_length,m.recv_length])
  rw [Mem.read_add] at hf
  obtain ⟨hf,hrecv⟩ := List.append_inj hf (by simp [m.otid_length,m.userSend_length])
  rw [Mem.read_add] at hf
  obtain ⟨hf,hsend⟩ := List.append_inj hf (by simp [m.otid_length])
  rw [Nat.add_comm 1 16,Mem.read_succ,List.cons.injEq] at hf
  rw [Mem.read_succ,List.cons.injEq] at hhead
  rw [Mem.read_succ,List.cons.injEq] at hlast
  exact ⟨hhead.1,hf.1,hf.2,hsend,hrecv,hlast.1,hobjs⟩

end DownMessage

def rxRecordLine (r : Record) : List UInt8 :=
  hex2 r.tag ++ [0x20] ++ hex2 r.kind ++ [0x20] ++ hex2 r.len ++ [0x20] ++ hexOf r.value ++ crlf

def DownMessage.rxText (m : DownMessage) : List UInt8 :=
  hexOf m.otid ++ crlf ++ hexOf m.userSend ++ crlf ++ hexOf m.recv ++ crlf ++ hex2 m.remains ++
    crlf ++ hex2 (UInt8.ofNat m.objs.length) ++ crlf ++ m.objs.flatMap rxRecordLine ++
    ascii "OK\r\n"

def ParsesTo (body : Mem) (p : Nat) (r : Record) : Prop :=
  ∃ o, sipfObjectParse (some (body.shift p)) 256 (some ()) = some o ∧
    o.objType = r.kind ∧ o.objTagid = r.tag ∧ o.valueLen = r.len ∧ o.bytes = r.value

theorem parsesTo_of_at {body : Mem} {p : Nat} {r : Record} (h : At body p r) :
    ParsesTo body p r := by
  have hlen : ((body.shift p) 2).toNat = r.value.length := by
    rw [Mem.shift_apply,h.len,Record.len_toNat]
  have hsmall : ¬ ((256 : UInt16) < 4 ∨ (256 : UInt16) < 256) := by decide
  have hval : (body.shift p).read 3 ((body.shift p) 2).toNat = r.value := by
    rw [hlen,Mem.read_shift,h.value]
  refine ⟨_,sipfObjectParse_given _ hsmall,?_,?_,?_,?_⟩
  · exact h.kind
  · exact h.tag
  · exact h.len
  · show ((body.shift p).read 3 ((body.shift p) 2).toNat).take ((body.shift p) 2).toNat = r.value
    rw [hval,hlen,List.take_length]

theorem rxObjects_parses {body : Mem} {ps : List Nat} {rs : List Record}
    (h : List.Forall₂ (ParsesTo body) ps rs) :
    rxObjects body ps = some (rs.flatMap rxRecordLine) := by
  induction h with
  | nil => rfl
  | @cons p r ps rs hp _ ih =>
    obtain ⟨o,ho,hk,ht,hl,hv⟩ := hp
    have hline : rxObjectLine o = rxRecordLine r := by
      simp only [rxObjectLine,rxRecordLine,hk,ht,hl,hv]
    simp [rxObjects,ho,ih,hline]

/-- A message delivered to the client: 200 OK, with exactly the bytes of `m`. -/
structure Delivers (cfg : Connector) (net : NetOutcome) (m : DownMessage) (r : HttpResponse) :
    Prop where
  answers : net.Answers cfg.ssl r
  status : r.httpStatus = "OK"
  length : r.contentLength = m.bytes.length
  body : (net.client.bodyOf r).read 0 m.bytes.length = m.bytes

/-- From a message to the fields, the objects and the text of `$$RX`. -/
theorem objDown_round_trip {cfg : Connector} {net : NetOutcome} {m : DownMessage}
    {r : HttpResponse} (h : Delivers cfg net m r) (out : DownOut) :
    (sipfObjClientObjDown cfg DownArgs.given net out).ret = 0 ∧
    (sipfObjClientObjDown cfg DownArgs.given net out).out.otid = m.otid ∧
    (downBody cfg net).read
      (sipfObjClientObjDown cfg DownArgs.given net out).out.pUserSendDatetime 8 = m.userSend ∧
    (downBody cfg net).read
      (sipfObjClientObjDown cfg DownArgs.given net out).out.pRecvDatetime 8 = m.recv ∧
    (sipfObjClientObjDown cfg DownArgs.given net out).out.remains = m.remains ∧
    (sipfObjClientObjDown cfg DownArgs.given net out).out.objqty.toNat = m.objs.length ∧
    List.Forall₂ (ParsesTo (downBody cfg net))
      (sipfObjClientObjDown cfg DownArgs.given net out).out.pObjs m.objs ∧
    (m.objs ≠ [] → ∀ outBuffLen, m.rxText.length + 1 ≤ outBuffLen →
      cmdAsciiCmdRx cfg net out 0 outBuffLen = .ok m.rxText) := by
  obtain ⟨hdown,hbody⟩ := objDown_answers h.answers out
  have hheld := DownMessage.held_of_read h.body
  have hlen : 47 + totalSize m.objs = r.contentLength := by rw [h.length,m.bytes_length]
  obtain ⟨hret,hotid,hrem,hsend,hrecv,hobjs,hqty,_⟩ := readObjectsDown_whole out h.status
    (by have := m.small; omega) hheld.command hheld.result hlen hheld.objs
  rw [← hdown] at hret hotid hrem hsend hrecv hobjs hqty
  have htake : (starts 47 m.objs).take 255 = starts 47 m.objs :=
    List.take_of_length_le (by rw [starts_length]; exact m.count)
  rw [htake] at hobjs
  have hcount : min 255 m.objs.length = m.objs.length := Nat.min_eq_right m.count
  rw [hcount] at hqty
  have hparse : List.Forall₂ (ParsesTo (downBody cfg net)) (starts 47 m.objs) m.objs := by
    rw [hbody]
    exact (at_starts hheld.objs).imp fun _ _ hat => parsesTo_of_at hat
  refine ⟨hret,by rw [hotid,hheld.otid],by rw [hsend,hbody,hheld.userSend],
    by rw [hrecv,hbody,hheld.recv],by rw [hrem,hheld.remains],hqty,by rw [hobjs]; exact hparse,?_⟩
  intro hne outBuffLen hfit
  have hpos : 0 < m.objs.length := List.length_pos_iff.mpr hne
  have herr : ¬ UInt8.ofInt (sipfObjClientObjDown cfg DownArgs.given net out).ret ≠ 0 := by
    rw [hret]; decide
  have hzero : ¬ (sipfObjClientObjDown cfg DownArgs.given net out).out.objqty = 0 := by
    intro h0
    rw [h0] at hqty
    simp at hqty
    omega
  have hqty' : (sipfObjClientObjDown cfg DownArgs.given net out).out.objqty =
      UInt8.ofNat m.objs.length := by rw [← hqty,UInt8.ofNat_toNat]
  have hlist : (starts 47 m.objs).take m.objs.length = starts 47 m.objs :=
    List.take_of_length_le (by rw [starts_length])
  simp only [cmdAsciiCmdRx,ne_eq,not_true_eq_false,if_false]
  rw [if_neg herr,if_neg hzero,hqty,hobjs,hlist,rxObjects_parses hparse]
  simp only [hotid,hheld.otid,hsend,hrecv,hbody,hheld.userSend,hheld.recv,hrem,hheld.remains,hqty']
  exact if_pos hfit

def DownMessage.response (m : DownMessage) : HttpResponse := ⟨"OK", 200, m.bytes.length, 1, 0⟩

theorem DownMessage.delivered (cfg : Connector) (m : DownMessage) :
    Delivers cfg (answering m.response (Mem.ofList m.bytes)) m m.response := by
  refine ⟨answering_answers _ Nat.one_pos cfg.ssl,rfl,rfl,?_⟩
  show ((Mem.ofList m.bytes).shift 0).read 0 m.bytes.length = m.bytes
  rw [Mem.read_shift,Mem.read_ofList]

def letterMessage : DownMessage where
  head := List.replicate 11 0
  otid := List.replicate 16 0x5a
  userSend := List.replicate 8 1
  recv := List.replicate 8 2
  remains := 3
  reserved := 0
  objs := [⟨objTypeStrUtf8, 1, [0x41], by decide⟩]
  head_length := rfl
  otid_length := rfl
  userSend_length := rfl
  recv_length := rfl
  count := by decide
  small := by decide

theorem objDown_round_trip_letter :
    (sipfObjClientObjDown defaultConnector DownArgs.given
      (answering letterMessage.response (Mem.ofList letterMessage.bytes)) emptyOut).ret = 0 ∧
    cmdAsciiCmdRx defaultConnector
      (answering letterMessage.response (Mem.ofList letterMessage.bytes)) emptyOut 0 cmdBuffSz =
      .ok letterMessage.rxText := by
  have h := objDown_round_trip (letterMessage.delivered defaultConnector) emptyOut
  exact ⟨h.1,h.2.2.2.2.2.2.2 (by decide) cmdBuffSz (by decide)⟩

end SipfClient.Object
