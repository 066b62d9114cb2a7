import SipfClient.ObjectUpload
set_option autoImplicit false

namespace SipfClient.Object
open ByteMem Http

/-- A payload of `size` bytes is refused with nothing sent, or sent whole. A
negative size is the encoder's error result. -/
def UploadLaw (cfg : Connector) (payload : Mem) (size : Int) (out : Except OutOfBounds UpRaw) :
    Prop :=
  ∃ res, out = .ok res ∧
    (size < 0 ∨ buffSz ≤ 12 + size → res.ret < 0 ∧ res.request = none) ∧
    (0 ≤ size ∧ 12 + size < buffSz → res.request = some (connectorRequest cfg
      (objectsUp :: List.replicate 9 0 ++
        [UInt8.ofNat (size.toNat / 256),UInt8.ofNat (size.toNat % 256)] ++
        payload.read 0 size.toNat)))

def ObjUpLaw (cfg : Connector) (payload work : Mem) (up : SipfObjectUp)
    (out : Except OutOfBounds UpRaw) : Prop :=
  (up.objs = none → ∃ res, out = .ok res ∧ res.ret < 0 ∧ res.request = none) ∧
  (up.objs ≠ none → ∃ size m,
    sipfObjectCreateObjUpPayload (some payload) szObjUpPayload up.list work = .ok (size, m) ∧
    UploadLaw cfg m size out)

theorem objectsUpHeader_eq (size : UInt16) : objectsUpHeader size =
    objectsUp :: List.replicate 9 0 ++
      [UInt8.ofNat (size.toNat / 256),UInt8.ofNat (size.toNat % 256)] := by
  have h1 : (size >>> 8).toUInt8 = UInt8.ofNat (size.toNat / 256) := by
    apply UInt8.toNat_inj.mp
    simp [Nat.shiftRight_eq_div_pow]
  have h2 : (size &&& 0xff).toUInt8 = UInt8.ofNat (size.toNat % 256) := by
    apply UInt8.toNat_inj.mp
    have h := Nat.and_two_pow_sub_one_eq_mod (size.toNat % 256) 8
    simp only [Nat.mod_mod] at h
    simpa using h
  rw [objectsUpHeader,commandHeader,h1,h2]

theorem uploadLaw_iff (cfg : Connector) (httpRes : HttpResponse) (reqBuff payload : Mem)
    (size : UInt16) (net : NetOutcome) :
    UploadLaw cfg payload size.toNat (sipfObjClientObjUpRaw cfg httpRes reqBuff payload size net) ↔
      size.toNat < 65524 := by
  constructor
  · rintro ⟨res,hres,_,_⟩
    by_contra hw
    rw [upRaw_wraps cfg httpRes reqBuff payload net (by omega)] at hres
    cases hres
  · intro hw
    by_cases hfit : 12 + size.toNat < buffSz
    · obtain ⟨res,hres,hreq,_⟩ := upRaw_issues cfg httpRes reqBuff payload net hfit
      refine ⟨res,hres,fun h => ?_,fun _ => ?_⟩
      · omega
      · rw [hreq,objectsUpHeader_eq,Int.toNat_natCast]
    · refine ⟨_,upRaw_tooBig cfg httpRes reqBuff payload net (by omega) hw,fun _ => ⟨?_,rfl⟩,?_⟩
      · show (-1 : Int) < 0
        decide
      · intro h; omega

theorem szObjUpPayload_toNat : szObjUpPayload.toNat = 512 := rfl

theorem createPayload_encodes {objs : List SipfObjectObject} (h : ∀ o ∈ objs, Encodable o)
    (hfit : encodedSize objs ≤ 512) (payload work : Mem) :
    ∃ m, sipfObjectCreateObjUpPayload (some payload) szObjUpPayload objs work =
        .ok ((encodedSize objs : Nat), m) ∧
      m.read 0 (encodedSize objs) = LengthRecords.encode (objs.map wireObject) := by
  obtain ⟨m,hm,hr⟩ := createLoop_encodes h
    (payload.copy 0 (List.replicate szObjUpPayload.toNat 0)) work
    (show 0 + encodedSize objs ≤ szObjUpPayload.toNat by rw [szObjUpPayload_toNat]; omega)
  rw [Nat.zero_add] at hm hr
  exact ⟨m,hm,by simpa using hr⟩

theorem createPayload_unencodable {objs : List SipfObjectObject} (payload work : Mem)
    (h : ¬ ((∀ o ∈ objs, Encodable o) ∧ encodedSize objs ≤ 512)) :
    (∃ m, sipfObjectCreateObjUpPayload (some payload) szObjUpPayload objs work = .ok (-1, m)) ∨
      ∃ e, sipfObjectCreateObjUpPayload (some payload) szObjUpPayload objs work = .error e := by
  by_cases hall : ∀ o ∈ objs, Encodable o
  · refine .inr (createLoop_overflows hall _ work (Nat.zero_le szObjUpPayload.toNat) ?_)
    rw [szObjUpPayload_toNat]
    have hsize : ¬ encodedSize objs ≤ 512 := fun hh => h ⟨hall,hh⟩
    omega
  · exact createLoop_negative hall _ work 0

theorem objUpLaw_iff (cfg : Connector) (httpRes : HttpResponse) (reqBuff payload work : Mem)
    (up : SipfObjectUp) (net : NetOutcome) :
    ObjUpLaw cfg payload work up
        (sipfObjClientObjUp cfg httpRes reqBuff payload work up net) ↔
      (up.objs ≠ none → (∀ o ∈ up.list, Encodable o) ∧ encodedSize up.list ≤ 512) := by
  cases hobjs : up.objs with
  | none =>
    have hout : sipfObjClientObjUp cfg httpRes reqBuff payload work up net =
        .ok ⟨-1, none, none, httpRes⟩ := by simp [sipfObjClientObjUp,hobjs]
    refine ⟨fun _ hn => absurd rfl hn,fun _ => ⟨fun _ => ⟨_,hout,?_,rfl⟩,fun hn => ?_⟩⟩
    · show (-1 : Int) < 0
      decide
    · exact absurd hobjs hn
  | some l =>
    have hout : sipfObjClientObjUp cfg httpRes reqBuff payload work up net =
        (sipfObjectCreateObjUpPayload (some payload) szObjUpPayload up.list work).bind fun p =>
          sipfObjClientObjUpRaw cfg httpRes reqBuff p.2 (UInt16.ofInt p.1) net := by
      simp [sipfObjClientObjUp,hobjs,bind]
    constructor
    · rintro ⟨_,hlaw⟩ _
      obtain ⟨size,m,henc,hup⟩ := hlaw (by simp [hobjs])
      by_contra hbad
      rcases createPayload_unencodable payload work hbad with ⟨m',hm⟩ | ⟨e,he⟩
      · rw [hm] at henc
        cases henc
        obtain ⟨res,hres,_⟩ := hup
        rw [hout,hm,Except.bind] at hres
        have hw : 65524 ≤ (UInt16.ofInt (-1)).toNat := by decide
        rw [upRaw_wraps cfg httpRes reqBuff m net hw] at hres
        cases hres
      · rw [he] at henc
        cases henc
    · intro h
      obtain ⟨hall,hfit⟩ := h (by simp)
      obtain ⟨m,hm,_⟩ := createPayload_encodes hall hfit payload work
      refine ⟨fun hn => by simp [hobjs] at hn,fun _ => ⟨_,m,hm,?_⟩⟩
      rw [hout,hm,Except.bind]
      have hsize : (UInt16.ofInt (encodedSize up.list : Nat)).toNat = encodedSize up.list := by
        simp only [UInt16.ofInt,UInt16.toNat_ofNat']
        omega
      have hlaw := (uploadLaw_iff cfg httpRes reqBuff m
        (UInt16.ofInt (encodedSize up.list : Nat)) net).2 (by rw [hsize]; omega)
      rwa [hsize] at hlaw

/-- Exactly when an upload keeps the size law. Sizes from 65524 on wrap in
`sz_packet`; an object list the encoder refuses is such a size (-1 is 65535), and
one that encodes to more than the local 512 bytes is written past them. -/
theorem upload_lawful_iff (cfg : Connector) (httpRes : HttpResponse) (reqBuff payload work : Mem)
    (net : NetOutcome) :
    (∀ size : UInt16, UploadLaw cfg payload size.toNat
        (sipfObjClientObjUpRaw cfg httpRes reqBuff payload size net) ↔ size.toNat < 65524) ∧
    (∀ up : SipfObjectUp, ObjUpLaw cfg payload work up
        (sipfObjClientObjUp cfg httpRes reqBuff payload work up net) ↔
      (up.objs ≠ none → (∀ o ∈ up.list, Encodable o) ∧ encodedSize up.list ≤ 512)) :=
  ⟨fun size => uploadLaw_iff cfg httpRes reqBuff payload size net,
    fun up => objUpLaw_iff cfg httpRes reqBuff payload work up net⟩

def defaultConnector : Connector := ⟨"/v0", "connector.sipf.iot.sakura.ad.jp", "", true⟩

def connected (c : ClientRun) : NetOutcome := ⟨0, 3, 0, 0, 0, c⟩

def oddUp : SipfObjectUp :=
  ⟨1, some [⟨objTypeUint16, 0x01, 1, [0x00], by decide⟩], by simp⟩

theorem oddUp_unlawful :
    ¬ ObjUpLaw defaultConnector Mem.zero Mem.zero oddUp
      (sipfObjClientObjUp defaultConnector HttpResponse.zero Mem.zero Mem.zero Mem.zero oddUp
        (connected ⟨0, [], Mem.zero⟩)) := by
  rw [objUpLaw_iff]
  intro h
  have henc := (h (by simp [oddUp])).1 ⟨objTypeUint16, 0x01, 1, [0x00], by decide⟩
    (by simp [SipfObjectUp.list,oddUp])
  exact absurd (henc.even rfl) (by decide)

section Runs

variable (cfg : Connector)

structure UploadCall where
  reqBuff : Mem
  payload : Mem
  size : UInt16
  net : NetOutcome

def UploadCall.run (c : UploadCall) (httpRes : HttpResponse) : Except OutOfBounds UpRaw :=
  sipfObjClientObjUpRaw cfg httpRes c.reqBuff c.payload c.size c.net

/-- Calls one after another; each finds the static record as the last one left it. -/
def uploadRun : HttpResponse → List UploadCall → Except OutOfBounds (List UpRaw)
  | _, [] => .ok []
  | httpRes, c :: cs => do
    let r ← c.run cfg httpRes
    let rs ← uploadRun r.httpRes cs
    .ok (r :: rs)

def Notifies (r : HttpResponse) (body : Mem) : Prop :=
  r.httpStatus = "OK" ∧ r.contentLength = 30 ∧ body 0 = objidNotification ∧ body 12 = 0x00

namespace UploadCall

def exchange (c : UploadCall) : Int := (runConnectorHttpRequest cfg c.net .zero).ret

def delivered (c : UploadCall) : List HttpResponse :=
  c.net.client.deliveries.filter fun d => 0 < d.dataLen

structure Receives (c : UploadCall) (r : HttpResponse) : Prop where
  sends : 12 + c.size.toNat < buffSz
  connects : c.net.Connects cfg.ssl
  success : 0 ≤ c.net.client.ret
  called : c.delivered ≠ []
  own : ∀ d ∈ c.delivered, d.Same r

/-- Nothing was asked, or the exchange has failed or has delivered no data. -/
def Unanswered (c : UploadCall) : Prop :=
  buffSz ≤ 12 + c.size.toNat ∨ ¬ c.net.Connects cfg.ssl ∨ c.net.client.ret < 0 ∨ c.delivered = []

def failure (c : UploadCall) : Int :=
  if 12 + c.size.toNat < buffSz ∧ c.exchange cfg < 0 then c.exchange cfg else -1

def recordAfter (c : UploadCall) (httpRes : HttpResponse) : HttpResponse :=
  if 12 + c.size.toNat < buffSz then (runConnectorHttpRequest cfg c.net httpRes).httpRes else httpRes

end UploadCall

/-- The result of a call is the reading of the response to its own request, and without a
response it is a failure that no other response has a part in. -/
structure Judged (c : UploadCall) (res : UpRaw) : Prop where
  own : ∀ r, c.Receives cfg r →
    (res.ret,res.otid) = readNotification r (c.net.client.bodyOf r)
  success : ∀ r, c.Receives cfg r →
    (res.ret = 0 ↔ Notifies r (c.net.client.bodyOf r))
  otid : ∀ r, c.Receives cfg r → res.ret = 0 →
    res.otid = some ((c.net.client.bodyOf r).read 14 16)
  unauthorized : ∀ r, c.Receives cfg r →
    (res.ret = -401 ↔ r.httpStatus = "Unauthorized")
  unanswered : c.Unanswered cfg → (res.ret,res.otid) = (c.failure cfg,none)

/-- A stale record `u` stands for the response `r` that comes. -/
structure Alike (run : ClientRun) (u r : HttpResponse) : Prop where
  unauthorized : u.httpStatus = "Unauthorized" ↔ r.httpStatus = "Unauthorized"
  notifies : Notifies u (run.bodyOf u) ↔ Notifies r (run.bodyOf r)
  otid : Notifies r (run.bodyOf r) → (run.bodyOf u).read 14 16 = (run.bodyOf r).read 14 16

/-- The record a call finds cannot mislead it. Where a response comes, it is still empty or
stands for this response; where an exchange ends without one, it tells neither of a refusal
nor of a notification. -/
structure Unmisled (httpRes : HttpResponse) (c : UploadCall) : Prop where
  answered : ∀ r, c.Receives cfg r →
    httpRes.httpStatusCode = 0 ∨ Alike c.net.client httpRes r
  unanswered : 12 + c.size.toNat < buffSz → c.Unanswered cfg → 0 ≤ c.exchange cfg →
    httpRes.httpStatus ≠ "Unauthorized" ∧ ¬ Notifies httpRes (c.net.client.bodyOf httpRes)

def RunUnmisled : HttpResponse → List UploadCall → Prop
  | _, [] => True
  | httpRes, c :: cs => c.size.toNat < 65524 ∧ Unmisled cfg httpRes c ∧
      RunUnmisled (c.recordAfter cfg httpRes) cs

theorem readNotification_cases (r : HttpResponse) (body : Mem) :
    readNotification r body ∈ [(-401,none),(-1,none),(0,some (body.read 14 16))] := by
  unfold readNotification
  split_ifs <;> simp

theorem readNotification_zero (r : HttpResponse) (body : Mem) :
    (readNotification r body).1 = 0 ↔ Notifies r body := by
  unfold readNotification Notifies
  split_ifs <;> simp_all

theorem readNotification_otid {r : HttpResponse} {body : Mem}
    (h : (readNotification r body).1 = 0) :
    (readNotification r body).2 = some (body.read 14 16) := by
  obtain ⟨h1,h2,h3,h4⟩ := (readNotification_zero r body).1 h
  simp [readNotification,h1,h2,h3,h4]

theorem readNotification_unauthorized (r : HttpResponse) (body : Mem) :
    (readNotification r body).1 = -401 ↔ r.httpStatus = "Unauthorized" := by
  unfold readNotification
  split_ifs <;> simp_all

theorem readNotification_silent (r : HttpResponse) (body : Mem) :
    readNotification r body = (-1,none) ↔
      r.httpStatus ≠ "Unauthorized" ∧ ¬ Notifies r body := by
  rw [Ne,← readNotification_unauthorized r body,← readNotification_zero r body]
  have hcases := readNotification_cases r body
  simp only [List.mem_cons,List.not_mem_nil,or_false] at hcases
  rcases hcases with h | h | h <;> simp [h]

theorem readNotification_congr {r s : HttpResponse} (hs : r.httpStatus = s.httpStatus)
    (hl : r.contentLength = s.contentLength) (body : Mem) :
    readNotification r body = readNotification s body := by
  simp [readNotification,hs,hl]

theorem readNotification_same {u r : HttpResponse} (h : u.Same r) (run : ClientRun) :
    readNotification u (run.bodyOf u) = readNotification r (run.bodyOf r) := by
  rw [readNotification_congr h.status h.length,ClientRun.bodyOf,h.body]
  rfl

theorem readNotification_alike (run : ClientRun) (u r : HttpResponse) :
    readNotification u (run.bodyOf u) = readNotification r (run.bodyOf r) ↔ Alike run u r := by
  constructor
  · intro h
    refine ⟨?_,?_,fun hr => ?_⟩
    · rw [← readNotification_unauthorized u (run.bodyOf u),h,readNotification_unauthorized]
    · rw [← readNotification_zero,h,readNotification_zero]
    · have hz := (readNotification_zero r (run.bodyOf r)).2 hr
      have hread := readNotification_otid (h ▸ hz)
      rw [h,readNotification_otid hz] at hread
      exact (Option.some.inj hread).symm
  · rintro ⟨hunauthorized,hnotifies,hotid⟩
    rw [← readNotification_unauthorized u (run.bodyOf u),
      ← readNotification_unauthorized r (run.bodyOf r)] at hunauthorized
    rw [← readNotification_zero,← readNotification_zero] at hnotifies
    rw [← readNotification_zero] at hotid
    have hu := readNotification_cases u (run.bodyOf u)
    have hr := readNotification_cases r (run.bodyOf r)
    simp only [List.mem_cons,List.not_mem_nil,or_false] at hu hr
    rcases hu with hu | hu | hu <;> rcases hr with hr | hr | hr <;>
      simp_all

theorem runConnector_ret (net : NetOutcome) (httpRes : HttpResponse) :
    (runConnectorHttpRequest cfg net httpRes).ret = (runConnectorHttpRequest cfg net .zero).ret := by
  simp only [runConnectorHttpRequest,sipfClientHttpRunRequest]
  split_ifs <;> rfl

theorem foldl_cb_data (ds : List HttpResponse) (u : HttpResponse) :
    ds.foldl httpResponseCb u = (ds.filter fun d => 0 < d.dataLen).foldl httpResponseCb u := by
  induction ds generalizing u with
  | nil => rfl
  | cons d ds ih =>
    by_cases hd : 0 < d.dataLen
    · rw [List.filter_cons_of_pos (by simpa using hd),List.foldl_cons,List.foldl_cons,ih]
    · have hcb : httpResponseCb u d = u := by simp [httpResponseCb,hd]
      rw [List.filter_cons_of_neg (by simpa using hd),List.foldl_cons,hcb,ih]

theorem runConnector_silent {c : UploadCall} (httpRes : HttpResponse)
    (h : ¬ c.net.Connects cfg.ssl ∨ c.delivered = []) :
    (runConnectorHttpRequest cfg c.net httpRes).httpRes = httpRes := by
  by_cases hc : c.net.Connects cfg.ssl
  · have hnone := h.resolve_left (not_not.2 hc)
    rw [UploadCall.delivered] at hnone
    rw [runConnectorHttpRequest,runRequest_connects httpRes hc,foldl_cb_data,hnone]
    rfl
  · exact (runRequest_unconnected httpResponseCb httpRes hc).2

section Calls

variable {cfg : Connector} {c : UploadCall} {httpRes : HttpResponse} {res : UpRaw}

theorem judged_iff : Judged cfg c res ↔
    (∀ r, c.Receives cfg r → (res.ret,res.otid) = readNotification r (c.net.client.bodyOf r)) ∧
      (c.Unanswered cfg → (res.ret,res.otid) = (c.failure cfg,none)) := by
  refine ⟨fun h => ⟨h.own,h.unanswered⟩,fun h => ⟨h.1,fun r hr => ?_,fun r hr h0 => ?_,fun r hr => ?_,h.2⟩⟩
  · rw [← readNotification_zero,← h.1 r hr]
  · have hz : (readNotification r (c.net.client.bodyOf r)).1 = 0 := by rw [← h.1 r hr]; exact h0
    rw [← readNotification_otid hz,← h.1 r hr]
  · rw [← readNotification_unauthorized r (c.net.client.bodyOf r),← h.1 r hr]

theorem call_reads (hsends : 12 + c.size.toNat < buffSz) (hrun : c.run cfg httpRes = .ok res) :
    res.httpRes = (runConnectorHttpRequest cfg c.net httpRes).httpRes ∧
    (res.ret,res.otid) = if c.exchange cfg < 0 then (c.exchange cfg,none)
      else readNotification res.httpRes (c.net.client.bodyOf res.httpRes) := by
  obtain ⟨res',hres,-,hrec,hread⟩ := upRaw_issues cfg httpRes c.reqBuff c.payload c.net hsends
  rw [UploadCall.run,hres] at hrun
  cases hrun
  rw [runConnector_ret cfg c.net httpRes] at hread
  exact ⟨hrec,hread⟩

theorem answers_received {r : HttpResponse} (hsends : 12 + c.size.toNat < buffSz)
    (h : c.net.Answers cfg.ssl r) : c.Receives cfg r := by
  have hall : c.delivered = c.net.client.deliveries :=
    List.filter_eq_self.2 fun d hd => by simpa using h.data d hd
  exact ⟨hsends,h.connects,h.success,hall ▸ h.called,hall ▸ h.own⟩

theorem connected_exchange (h : c.net.Connects cfg.ssl) : c.exchange cfg = c.net.client.ret := by
  rw [UploadCall.exchange,runConnectorHttpRequest,runRequest_connects .zero h]

theorem answered_record {r : HttpResponse} (h : c.Receives cfg r) :
    ((runConnectorHttpRequest cfg c.net httpRes).httpRes).Same
      (if httpRes.httpStatusCode = 0 then r else httpRes) := by
  rw [runConnectorHttpRequest,runRequest_connects httpRes h.connects,foldl_cb_data]
  by_cases hz : httpRes.httpStatusCode = 0
  · rw [if_pos hz]
    have hdata : ∀ d ∈ c.delivered, 0 < d.dataLen := fun d hd => by
      simpa using (List.mem_filter.1 hd).2
    exact foldl_cb_fresh hz h.called hdata h.own
  · rw [if_neg hz]
    exact foldl_cb_stale hz _

theorem received_judged_iff (hrun : c.run cfg httpRes = .ok res) {r : HttpResponse}
    (hr : c.Receives cfg r) :
    (res.ret,res.otid) = readNotification r (c.net.client.bodyOf r) ↔
      httpRes.httpStatusCode = 0 ∨ Alike c.net.client httpRes r := by
  obtain ⟨hrec,hread⟩ := call_reads hr.sends hrun
  have hex : ¬ c.exchange cfg < 0 := by
    rw [connected_exchange hr.connects]
    exact not_lt.2 hr.success
  have hsame := @answered_record cfg c httpRes r hr
  rw [← hrec] at hsame
  rw [hread,if_neg hex,readNotification_same hsame]
  by_cases hz : httpRes.httpStatusCode = 0
  · simp [hz]
  · simp only [hz,false_or]
    exact readNotification_alike c.net.client httpRes r

theorem unanswered_judged_iff (hsends : 12 + c.size.toNat < buffSz) (hun : c.Unanswered cfg)
    (hrun : c.run cfg httpRes = .ok res) :
    (res.ret,res.otid) = (c.failure cfg,none) ↔ (0 ≤ c.exchange cfg →
      httpRes.httpStatus ≠ "Unauthorized" ∧ ¬ Notifies httpRes (c.net.client.bodyOf httpRes)) := by
  obtain ⟨hrec,hread⟩ := call_reads hsends hrun
  rw [hread,UploadCall.failure]
  by_cases hex : c.exchange cfg < 0
  · rw [if_pos hex,if_pos ⟨hsends,hex⟩]
    exact ⟨fun _ h0 => absurd hex (not_lt.2 h0),fun _ => rfl⟩
  · have hsilent : ¬ c.net.Connects cfg.ssl ∨ c.delivered = [] := by
      rcases hun with h | h | h | h
      · omega
      · exact .inl h
      · refine .inl fun hc => hex ?_
        rw [connected_exchange hc]
        exact h
      · exact .inr h
    rw [if_neg hex,if_neg (fun h => hex h.2),hrec,runConnector_silent cfg httpRes hsilent,
      readNotification_silent]
    exact ⟨fun h _ => h,fun h => h (not_lt.1 hex)⟩

/-- A call is judged by its own response exactly if its record cannot mislead it. -/
theorem call_judged_iff (hsize : c.size.toNat < 65524) (hrun : c.run cfg httpRes = .ok res) :
    Judged cfg c res ↔ Unmisled cfg httpRes c := by
  rw [judged_iff]
  by_cases hsends : 12 + c.size.toNat < buffSz
  · constructor
    · intro h
      exact ⟨fun r hr => (received_judged_iff hrun hr).1 (h.1 r hr),
        fun _ hun => (unanswered_judged_iff hsends hun hrun).1 (h.2 hun)⟩
    · intro h
      exact ⟨fun r hr => (received_judged_iff hrun hr).2 (h.answered r hr),
        fun hun => (unanswered_judged_iff hsends hun hrun).2 (h.unanswered hsends hun)⟩
  · have hres := upRaw_tooBig cfg httpRes c.reqBuff c.payload c.net (not_lt.1 hsends) hsize
    rw [UploadCall.run,hres] at hrun
    cases hrun
    refine ⟨fun _ => ⟨fun r hr => absurd hr.sends hsends,fun h => absurd h hsends⟩,fun _ => ?_⟩
    refine ⟨fun r hr => absurd hr.sends hsends,fun _ => ?_⟩
    rw [UploadCall.failure,if_neg fun h => hsends h.1]

theorem call_returns (hsize : c.size.toNat < 65524) (httpRes : HttpResponse) :
    ∃ res, c.run cfg httpRes = .ok res ∧ res.httpRes = c.recordAfter cfg httpRes := by
  rw [UploadCall.recordAfter]
  by_cases hsends : 12 + c.size.toNat < buffSz
  · obtain ⟨res,hres,-,hrec,-⟩ := upRaw_issues cfg httpRes c.reqBuff c.payload c.net hsends
    exact ⟨res,hres,by rw [if_pos hsends,hrec]⟩
  · exact ⟨_,upRaw_tooBig cfg httpRes c.reqBuff c.payload c.net (not_lt.1 hsends) hsize,
      by rw [if_neg hsends]⟩

theorem call_size (hrun : c.run cfg httpRes = .ok res) : c.size.toNat < 65524 := by
  by_contra hwraps
  rw [UploadCall.run,upRaw_wraps cfg httpRes c.reqBuff c.payload c.net (not_lt.1 hwraps)] at hrun
  cases hrun

end Calls

theorem uploadRun_cons {httpRes : HttpResponse} {c : UploadCall} {cs : List UploadCall}
    {rs : List UpRaw} (h : uploadRun cfg httpRes (c :: cs) = .ok rs) :
    ∃ res rest, rs = res :: rest ∧ c.run cfg httpRes = .ok res ∧
      uploadRun cfg res.httpRes cs = .ok rest := by
  cases hres : c.run cfg httpRes with
  | error e => simp [uploadRun,hres,bind,Except.bind] at h
  | ok res =>
    cases hrest : uploadRun cfg res.httpRes cs with
    | error e => simp [uploadRun,hres,hrest,bind,Except.bind] at h
    | ok rest =>
      simp only [uploadRun,hres,hrest,bind,Except.bind,Except.ok.injEq] at h
      exact ⟨res,rest,h.symm,rfl,hrest⟩

theorem uploadRun_judged_iff (httpRes : HttpResponse) (cs : List UploadCall) :
    (∃ rs, uploadRun cfg httpRes cs = .ok rs ∧ List.Forall₂ (Judged cfg) cs rs) ↔
      RunUnmisled cfg httpRes cs := by
  induction cs generalizing httpRes with
  | nil => exact ⟨fun _ => trivial,fun _ => ⟨[],rfl,.nil⟩⟩
  | cons c cs ih =>
    constructor
    · rintro ⟨rs,hrs,hall⟩
      obtain ⟨res,rest,rfl,hres,hrest⟩ := uploadRun_cons cfg hrs
      obtain ⟨hjudged,hjs⟩ := List.forall₂_cons.1 hall
      have hsize := call_size hres
      obtain ⟨res',hres',hrec⟩ := @call_returns cfg c hsize httpRes
      rw [hres] at hres'
      cases hres'
      exact ⟨hsize,(call_judged_iff hsize hres).1 hjudged,hrec ▸ (ih res.httpRes).1 ⟨rest,hrest,hjs⟩⟩
    · rintro ⟨hsize,hun,hrun⟩
      obtain ⟨res,hres,hrec⟩ := @call_returns cfg c hsize httpRes
      rw [← hrec] at hrun
      obtain ⟨rest,hrest,hjs⟩ := (ih res.httpRes).2 hrun
      refine ⟨res :: rest,?_,.cons ((call_judged_iff hsize hres).2 hun) hjs⟩
      simp [uploadRun,hres,hrest,bind,Except.bind]

def answering (r : HttpResponse) (buf : Mem) : NetOutcome := connected ⟨0, [r], buf⟩

theorem answering_answers {r : HttpResponse} (buf : Mem) (hr : 0 < r.dataLen) (tls : Bool) :
    (answering r buf).Answers tls r :=
  ⟨⟨rfl,by simp [answering,connected],fun _ => rfl,rfl⟩,by simp [answering,connected],
    by simp [answering,connected],by simpa [answering,connected] using hr,
    by simpa [answering,connected] using ⟨rfl,rfl,rfl,rfl⟩⟩

def silent (buf : Mem) : NetOutcome := connected ⟨0, [], buf⟩

def emptyUpload (net : NetOutcome) : UploadCall := ⟨Mem.zero, Mem.zero, 0, net⟩

theorem emptyUpload_receives {r : HttpResponse} (buf : Mem) (hr : 0 < r.dataLen) :
    (emptyUpload (answering r buf)).Receives cfg r :=
  answers_received (show 12 + (0 : UInt16).toNat < buffSz by decide)
    (answering_answers buf hr cfg.ssl)

/-- The head of this response is 48 bytes, and it has no body. -/
def unauthorized : HttpResponse := ⟨"Unauthorized", 401, 0, 48, 48⟩

def notified : HttpResponse := ⟨"OK", 200, 30, 69, 39⟩

def notificationBody : Mem := Mem.zero.set 39 objidNotification

/-- A record that misleads no call: it is still empty, and tells of nothing. -/
structure TellsNothing (httpRes : HttpResponse) : Prop where
  code : httpRes.httpStatusCode = 0
  authorized : httpRes.httpStatus ≠ "Unauthorized"
  noNotification : ¬ (httpRes.httpStatus = "OK" ∧ httpRes.contentLength = 30)

example : TellsNothing .zero := ⟨rfl,by decide,by decide⟩

theorem tellsNothing_iff (httpRes : HttpResponse) :
    TellsNothing httpRes ↔ ∀ c : UploadCall, Unmisled cfg httpRes c := by
  constructor
  · intro h c
    exact ⟨fun _ _ => .inl h.code,fun _ _ _ =>
      ⟨h.authorized,fun hn => h.noNotification ⟨hn.1,hn.2.1⟩⟩⟩
  · intro h
    -- a silent exchange over a body that would be a notification
    have hsilent := (h (emptyUpload (silent (Mem.zero.set httpRes.bodyFragStart
      objidNotification)))).unanswered (show 12 + (0 : UInt16).toNat < buffSz by decide)
        (.inr (.inr (.inr rfl))) (by
          simp [UploadCall.exchange,emptyUpload,silent,connected,runConnectorHttpRequest,
            sipfClientHttpRunRequest])
    have hno : ¬ (httpRes.httpStatus = "OK" ∧ httpRes.contentLength = 30) := by
      rintro ⟨hok,hlen⟩
      refine hsilent.2 ⟨hok,hlen,?_,?_⟩ <;>
        simp [emptyUpload,silent,connected,ClientRun.bodyOf,Mem.shift_apply,Mem.set,Mem.zero]
    refine ⟨?_,hsilent.1,hno⟩
    by_contra hz
    have hfirst := ((h (emptyUpload (answering unauthorized Mem.zero))).answered unauthorized
      (emptyUpload_receives cfg Mem.zero (by decide))).resolve_left hz
    exact hsilent.1 (hfirst.unauthorized.2 rfl)

end Runs

end SipfClient.Object
