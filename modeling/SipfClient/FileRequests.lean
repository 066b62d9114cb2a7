import SipfClient.UrlLeftovers
set_option autoImplicit false

/-!
The requests of `sipf_file.c` next to each other. Each function keeps the record of its
response in a static of its own that nothing clears, and judges by it whatever the
exchange has delivered.
-/

namespace SipfClient.File
open ByteMem HexText CText Http Xmodem

/-- The static `http_res` of each function that makes a request. -/
structure FileRecords where
  url : HttpResponse
  complete : HttpResponse
  upload : HttpResponse
  callback : HttpResponse

def FileRecords.boot : FileRecords := ⟨.zero, .zero, .zero, .zero⟩

structure FileReply where
  ret : Int
  request : Option HttpRequest
  httpRes : HttpResponse

/-- What the functions without a result of their own share: the request, the check of its
outcome and of the status, and `done` for the rest. -/
def fileRequest (req : HttpRequest) (tls : Bool) (done : Int → Int) (httpRes : HttpResponse)
    (net : NetOutcome) : FileReply :=
  let run := sipfClientHttpRunRequest httpRequestCb net tls httpRes
  ⟨if run.ret < 0 then run.ret else if run.httpRes.httpStatus ≠ "OK" then -1 else done run.ret,
    some req, run.httpRes⟩

def completePath (cfg : FileConfig) (fileId : List UInt8) : List UInt8 :=
  cfg.pathHead ++ fileId ++ cfg.pathTail ++ ascii "complete/"

def completeRequest (cfg : FileConfig) (fileId : List UInt8) : HttpRequest :=
  ⟨.put, textOf (completePath cfg fileId), cfg.host,
    ["Connection: Close\r\n","Content-Type: text/plain\r\n",cfg.authHeader], []⟩

/-- The length check counts the four bytes of the pointer `file_id`, not what it points at. -/
def sipfFileUploadComplete (cfg : FileConfig) (fileId : List UInt8) (httpRes : HttpResponse)
    (net : NetOutcome) : Except OutOfBounds FileReply :=
  if pathEndpointSz < (cfg.pathHead.length + 2 + cfg.pathTail.length) + 4 then
    .ok ⟨-1, none, httpRes⟩
  else do
    let _ ← Mem.zero.store pathEndpointSz 0 (completePath cfg fileId ++ [0])
    pure (fileRequest (completeRequest cfg fileId) cfg.ssl (fun _ => 0) httpRes net)

def bufferRequest (t : UploadTarget) (buff : List UInt8) : HttpRequest :=
  ⟨.put, t.path, t.host,
    ["Connection: Close\r\n","Content-Type: application/octet-stream\r\n"], buff⟩

def sipfFileUploadRequest (t : UploadTarget) (buff : List UInt8) (httpRes : HttpResponse)
    (net : NetOutcome) : FileReply :=
  fileRequest (bufferRequest t buff) t.tls id httpRes net

/-- `sipfFileCallbackUploadRequest` as far as its record and its result go: what the
payload callback makes of the exchange is in the outcome of the client. -/
def callbackUploadReply (t : UploadTarget) (contentLength : Int) (httpRes : HttpResponse)
    (net : NetOutcome) : FileReply :=
  fileRequest (uploadRequest t contentLength) t.tls id httpRes net

theorem uploadResult_eq (t : UploadTarget) (course : UploadCourse) (net : NetOutcome)
    (contentLength : Int) :
    uploadResult t course net = (callbackUploadReply t contentLength course.httpRes net).ret := rfl

inductive FileCall
  | requestURL (reqType : ReqUrlType) (fileId : List UInt8) (url : Mem) (szUrl : Nat)
      (net : NetOutcome)
  | uploadComplete (fileId : List UInt8) (net : NetOutcome)
  | uploadRequest (t : UploadTarget) (buff : List UInt8) (net : NetOutcome)
  | callbackUploadRequest (t : UploadTarget) (contentLength : Int) (net : NetOutcome)

structure FileDone where
  ret : Int
  request : Option HttpRequest
  url : Mem
  records : FileRecords

def FileCall.run (cfg : FileConfig) (rs : FileRecords) : FileCall → Except OutOfBounds FileDone
  | .requestURL reqType fileId url szUrl net =>
    let r := sipfFileRequestURL cfg reqType fileId url szUrl rs.url net
    .ok ⟨r.ret, r.request, r.url, { rs with url := r.httpRes }⟩
  | .uploadComplete fileId net => do
    let r ← sipfFileUploadComplete cfg fileId rs.complete net
    pure ⟨r.ret, r.request, Mem.zero, { rs with complete := r.httpRes }⟩
  | .uploadRequest t buff net =>
    let r := sipfFileUploadRequest t buff rs.upload net
    .ok ⟨r.ret, r.request, Mem.zero, { rs with upload := r.httpRes }⟩
  | .callbackUploadRequest t contentLength net =>
    let r := callbackUploadReply t contentLength rs.callback net
    .ok ⟨r.ret, r.request, Mem.zero, { rs with callback := r.httpRes }⟩

def FileCall.net : FileCall → NetOutcome
  | .requestURL _ _ _ _ net => net
  | .uploadComplete _ net => net
  | .uploadRequest _ _ net => net
  | .callbackUploadRequest _ _ net => net

def FileCall.tls (cfg : FileConfig) : FileCall → Bool
  | .requestURL _ _ _ _ _ => cfg.ssl
  | .uploadComplete _ _ => cfg.ssl
  | .uploadRequest t _ _ => t.tls
  | .callbackUploadRequest t _ _ => t.tls

def FileCall.record (rs : FileRecords) : FileCall → HttpResponse
  | .requestURL _ _ _ _ _ => rs.url
  | .uploadComplete _ _ => rs.complete
  | .uploadRequest _ _ _ => rs.upload
  | .callbackUploadRequest _ _ _ => rs.callback

def lastDelivered (net : NetOutcome) (tls : Bool) : Option HttpResponse :=
  if net.Connects tls then (net.client.deliveries.filter fun d => 0 < d.dataLen).getLast? else none

theorem foldl_requestCb (r : HttpResponse) (ds : List HttpResponse) :
    ds.foldl httpRequestCb r = ((ds.filter fun d => 0 < d.dataLen).getLast?).getD r := by
  induction ds generalizing r with
  | nil => rfl
  | cons d ds ih =>
    rw [List.foldl_cons,ih]
    by_cases hd : 0 < d.dataLen
    · rw [List.filter_cons_of_pos (by simpa using hd),List.getLast?_cons]
      simp [httpRequestCb,hd]
    · rw [List.filter_cons_of_neg (by simpa using hd)]
      simp [httpRequestCb,hd]

theorem runRequest_record (net : NetOutcome) (tls : Bool) (httpRes : HttpResponse) :
    (sipfClientHttpRunRequest httpRequestCb net tls httpRes).httpRes =
      (lastDelivered net tls).getD httpRes := by
  by_cases hc : net.Connects tls
  · rw [runRequest_connects httpRes hc,lastDelivered,if_pos hc]
    exact foldl_requestCb httpRes _
  · rw [lastDelivered,if_neg hc,Option.getD_none]
    exact (runRequest_unconnected httpRequestCb httpRes hc).2

section Calls

variable (cfg : FileConfig)

def FileCall.Sends : FileCall → Prop
  | .requestURL _ fileId _ _ _ =>
    (cfg.pathHead.length + 2 + cfg.pathTail.length) + fileId.length ≤ pathEndpointSz
  | .uploadComplete _ _ => (cfg.pathHead.length + 2 + cfg.pathTail.length) + 4 ≤ pathEndpointSz
  | .uploadRequest _ _ _ => True
  | .callbackUploadRequest _ _ _ => True

def FileCall.result (c : FileCall) (rs : FileRecords) : Int :=
  (sipfClientHttpRunRequest httpRequestCb c.net (c.tls cfg) (c.record rs)).ret

def FileCall.Room (d : HttpResponse) : FileCall → Prop
  | .requestURL _ _ _ szUrl _ => d.contentLength ≤ szUrl
  | _ => True

def FileCall.Whole (d : HttpResponse) : FileCall → Prop
  | .requestURL _ _ _ _ _ => d.bodyFragStart + d.contentLength ≤ d.dataLen
  | _ => True

def FileCall.UrlOf (d : HttpResponse) (done : FileDone) : FileCall → Prop
  | .requestURL _ _ _ _ net => done.ret = d.contentLength ∧
      done.url.read 0 d.contentLength = strncpy (net.client.bodyOf d) d.contentLength
  | _ => True

/-- A call that succeeds has been answered OK while it ran, and what it returns is from
that answer. -/
def FileCall.Judged (c : FileCall) (done : FileDone) : Prop :=
  0 ≤ done.ret → ∃ d, lastDelivered c.net (c.tls cfg) = some d ∧ d.httpStatus = "OK" ∧
    c.Whole d ∧ c.UrlOf d done

/-- An exchange that does not fail delivers a response with data, or the record of an
earlier one is not an OK to be taken for it; and a URL has arrived to its end. -/
def FileCall.Answered (rs : FileRecords) (c : FileCall) : Prop :=
  c.Sends cfg → 0 ≤ c.result cfg rs →
    (lastDelivered c.net (c.tls cfg) = none →
      ¬ ((c.record rs).httpStatus = "OK" ∧ c.Room (c.record rs))) ∧
    ∀ d, lastDelivered c.net (c.tls cfg) = some d → d.httpStatus = "OK" → c.Room d → c.Whole d

variable {cfg}

theorem strncpy_length (src : Mem) (n : Nat) : (strncpy src n).length = n := by
  have hle := cString_length_le src 0 n
  simp only [strncpy,List.length_append,List.length_replicate]
  omega

theorem fileRequest_nonneg {req : HttpRequest} {tls : Bool} {done : Int → Int} (hdone : ∀ i, 0 ≤ i → 0 ≤ done i)
    (httpRes : HttpResponse) (net : NetOutcome) :
    0 ≤ (fileRequest req tls done httpRes net).ret ↔
      0 ≤ (sipfClientHttpRunRequest httpRequestCb net tls httpRes).ret ∧
        ((lastDelivered net tls).getD httpRes).httpStatus = "OK" := by
  rw [← runRequest_record]
  simp only [fileRequest]
  split_ifs with h1 h2
  · exact ⟨fun h => absurd h (by omega),fun h => absurd h.1 (by omega)⟩
  · exact ⟨fun h => absurd h (by decide),fun h => absurd h.2 h2⟩
  · exact ⟨fun _ => ⟨by omega,not_not.1 h2⟩,fun h => hdone _ h.1⟩

theorem run_nonneg {rs : FileRecords} {c : FileCall} {done : FileDone}
    (h : c.run cfg rs = .ok done) :
    0 ≤ done.ret ↔ c.Sends cfg ∧ 0 ≤ c.result cfg rs ∧
      ((lastDelivered c.net (c.tls cfg)).getD (c.record rs)).httpStatus = "OK" ∧
      c.Room ((lastDelivered c.net (c.tls cfg)).getD (c.record rs)) := by
  have hneg : ¬ (0 : Int) ≤ -1 := by decide
  cases c with
  | requestURL reqType fileId url szUrl net =>
    simp only [FileCall.run,Except.ok.injEq] at h
    subst h
    simp only [sipfFileRequestURL,FileCall.Sends,FileCall.result,FileCall.Room,FileCall.net,
      FileCall.tls,FileCall.record,← runRequest_record]
    split_ifs with h1 h2 h3 h4
    · exact ⟨fun h => absurd h hneg,fun h => absurd h.1 (not_le.2 h1)⟩
    · exact ⟨fun h => absurd h (not_le.2 h2),fun h => absurd h.2.1 (not_le.2 h2)⟩
    · exact ⟨fun h => absurd h hneg,fun h => absurd h.2.2.1 h3⟩
    · exact ⟨fun h => absurd h hneg,fun h => absurd h.2.2.2 (not_le.2 h4)⟩
    · exact ⟨fun _ => ⟨not_lt.1 h1,not_lt.1 h2,not_not.1 h3,not_lt.1 h4⟩,
        fun _ => Int.natCast_nonneg _⟩
  | uploadComplete fileId net =>
    simp only [FileCall.run,sipfFileUploadComplete] at h
    split_ifs at h with h1
    · cases h
      exact ⟨fun h => absurd h hneg,fun h => absurd h.1 (not_le.2 h1)⟩
    · cases hs : Mem.zero.store pathEndpointSz 0 (completePath cfg fileId ++ [0]) with
      | error e => simp [hs,bind,Except.bind] at h
      | ok m =>
        simp only [hs,bind,Except.bind,pure,Except.pure,Except.ok.injEq] at h
        subst h
        refine (@fileRequest_nonneg (completeRequest cfg fileId) _ _ (fun _ _ => le_rfl) rs.complete
          net).trans ?_
        exact ⟨fun h => ⟨not_lt.1 h1,h.1,h.2,trivial⟩,fun h => ⟨h.2.1,h.2.2.1⟩⟩
  | uploadRequest t buff net =>
    simp only [FileCall.run,sipfFileUploadRequest,Except.ok.injEq] at h
    subst h
    refine (@fileRequest_nonneg (bufferRequest t buff) _ id (fun _ h => h) rs.upload net).trans ?_
    exact ⟨fun h => ⟨trivial,h.1,h.2,trivial⟩,fun h => ⟨h.2.1,h.2.2.1⟩⟩
  | callbackUploadRequest t contentLength net =>
    simp only [FileCall.run,callbackUploadReply,Except.ok.injEq] at h
    subst h
    refine (@fileRequest_nonneg (uploadRequest t contentLength) _ id (fun _ h => h) rs.callback
      net).trans ?_
    exact ⟨fun h => ⟨trivial,h.1,h.2,trivial⟩,fun h => ⟨h.2.1,h.2.2.1⟩⟩

theorem run_url {rs : FileRecords} {c : FileCall} {done : FileDone} (h : c.run cfg rs = .ok done)
    (hret : 0 ≤ done.ret) : c.UrlOf ((lastDelivered c.net (c.tls cfg)).getD (c.record rs)) done := by
  have hneg : ¬ (0 : Int) ≤ -1 := by decide
  cases c with
  | requestURL reqType fileId url szUrl net =>
    simp only [FileCall.run,Except.ok.injEq] at h
    subst h
    simp only [FileCall.UrlOf,FileCall.net,FileCall.tls,FileCall.record,← runRequest_record]
    simp only [sipfFileRequestURL] at hret ⊢
    split_ifs at hret ⊢ with h1 h2 h3 h4
    · exact absurd hret hneg
    · exact absurd hret (not_le.2 h2)
    · exact absurd hret hneg
    · exact absurd hret hneg
    · have hcopy := Mem.read_copy url 0 (strncpy (net.client.bodyOf
        (sipfClientHttpRunRequest httpRequestCb net cfg.ssl rs.url).httpRes)
        (sipfClientHttpRunRequest httpRequestCb net cfg.ssl rs.url).httpRes.contentLength)
      rw [strncpy_length] at hcopy
      exact ⟨rfl,hcopy⟩
  | uploadComplete fileId net => trivial
  | uploadRequest t buff net => trivial
  | callbackUploadRequest t contentLength net => trivial

theorem call_judged_iff {rs : FileRecords} {c : FileCall} {done : FileDone}
    (h : c.run cfg rs = .ok done) : c.Judged cfg done ↔ c.Answered cfg rs := by
  have hnonneg := run_nonneg h
  have hurl := run_url h
  cases hl : lastDelivered c.net (c.tls cfg) with
  | none =>
    rw [hl,Option.getD_none] at hnonneg
    rw [FileCall.Judged,FileCall.Answered,hl,hnonneg]
    constructor
    · intro hj hs hr
      refine ⟨fun _ ⟨hok,hroom⟩ => ?_,fun d hd => by cases hd⟩
      obtain ⟨d,hd,-⟩ := hj ⟨hs,hr,hok,hroom⟩
      cases hd
    · rintro ha ⟨hs,hr,hok,hroom⟩
      exact absurd ⟨hok,hroom⟩ ((ha hs hr).1 rfl)
  | some d =>
    rw [hl,Option.getD_some] at hnonneg hurl
    rw [FileCall.Judged,FileCall.Answered,hl]
    constructor
    · intro hj hs hr
      refine ⟨fun h0 => (by cases h0),fun e he hok hroom => ?_⟩
      cases he
      obtain ⟨e,he,-,hwhole,-⟩ := hj (hnonneg.2 ⟨hs,hr,hok,hroom⟩)
      cases he
      exact hwhole
    · intro ha hret
      obtain ⟨hs,hr,hok,hroom⟩ := hnonneg.1 hret
      exact ⟨d,rfl,hok,(ha hs hr).2 d rfl hok hroom,hurl hret⟩

end Calls

section Runs

variable (cfg : FileConfig)

/-- Calls one after another, each on the records the last one left; nothing is said about
what comes behind a fault. -/
def AllJudged : FileRecords → List FileCall → Prop
  | _, [] => True
  | rs, c :: cs => ∀ done, c.run cfg rs = .ok done →
      c.Judged cfg done ∧ AllJudged done.records cs

def AllAnswered : FileRecords → List FileCall → Prop
  | _, [] => True
  | rs, c :: cs => ∀ done, c.run cfg rs = .ok done →
      c.Answered cfg rs ∧ AllAnswered done.records cs

theorem run_judged_iff (rs : FileRecords) (cs : List FileCall) :
    AllJudged cfg rs cs ↔ AllAnswered cfg rs cs := by
  induction cs generalizing rs with
  | nil => exact Iff.rfl
  | cons c cs ih =>
    refine forall_congr' fun done => imp_congr_right fun hrun => ?_
    exact and_congr (call_judged_iff hrun) (ih done.records)

/-- `buff` with its size, or the callback with the length it will send. -/
inductive UploadPayload
  | buffer (buff : List UInt8)
  | callback (contentLength : Int)

def UploadPayload.call (t : UploadTarget) (net : NetOutcome) : UploadPayload → FileCall
  | .buffer buff => .uploadRequest t buff net
  | .callback contentLength => .callbackUploadRequest t contentLength net

structure UploadNets where
  url : NetOutcome
  upload : NetOutcome
  complete : NetOutcome

structure FileUploaded where
  ret : Int
  /-- What was uploaded to, if it came to that. -/
  target : Option UploadTarget
  notice : Option HttpRequest
  records : FileRecords

def sipfFileUploadRequests (fileId : List UInt8) (payload : UploadPayload) (imageUrl : Mem)
    (rs : FileRecords) (nets : UploadNets) : Except OutOfBounds FileUploaded := do
  let (st, target) ← sipfFileUploadTarget cfg fileId ⟨imageUrl, rs.url⟩ nets.url
  let rs := { rs with url := st.httpRes }
  match target with
  | .error ret => pure ⟨ret, none, none, rs⟩
  | .ok t => do
    let up ← (payload.call t.uploadTarget nets.upload).run cfg rs
    if up.ret < 0 then pure ⟨up.ret, some t.uploadTarget, none, up.records⟩
    else do
      let done ← (FileCall.uploadComplete fileId nets.complete).run cfg up.records
      pure ⟨done.ret, some t.uploadTarget, done.request, done.records⟩

def UploadOk (nets : UploadNets) (t : UploadTarget) : Prop :=
  ∃ d, lastDelivered nets.upload t.tls = some d ∧ d.httpStatus = "OK"

theorem payload_call_judged {payload : UploadPayload} {t : UploadTarget} {net : NetOutcome}
    {done : FileDone} : (payload.call t net).Judged cfg done ↔
      (0 ≤ done.ret → ∃ d, lastDelivered net t.tls = some d ∧ d.httpStatus = "OK") := by
  cases payload <;>
    simp [FileCall.Judged,UploadPayload.call,FileCall.net,FileCall.tls,FileCall.Whole,FileCall.UrlOf]

theorem payload_call_answered {payload : UploadPayload} {t : UploadTarget} {net : NetOutcome}
    (rs : FileRecords) (r : HttpResponse) :
    (payload.call t net).Answered cfg { rs with url := r } ↔
      (payload.call t net).Answered cfg rs := by
  cases payload <;> rfl

theorem notice_sent {fileId : List UInt8} {payload : UploadPayload} {imageUrl : Mem}
    {rs : FileRecords} {nets : UploadNets} {res : FileUploaded}
    (h : sipfFileUploadRequests cfg fileId payload imageUrl rs nets = .ok res)
    (hnotice : res.notice ≠ none) :
    ∃ t r up, res.target = some t ∧
      (payload.call t nets.upload).run cfg { rs with url := r } = .ok up ∧ 0 ≤ up.ret := by
  simp only [sipfFileUploadRequests,bind,Except.bind] at h
  cases htarget : sipfFileUploadTarget cfg fileId ⟨imageUrl, rs.url⟩ nets.url with
  | error e => simp [htarget] at h
  | ok p =>
    obtain ⟨st,target⟩ := p
    simp only [htarget] at h
    cases target with
    | error ret =>
      simp only [pure,Except.pure,Except.ok.injEq] at h
      subst h
      exact absurd rfl hnotice
    | ok t =>
      simp only at h
      cases hup : (payload.call t.uploadTarget nets.upload).run cfg { rs with url := st.httpRes } with
      | error e => simp [hup] at h
      | ok up =>
        simp only [hup] at h
        split_ifs at h with hneg
        · simp only [pure,Except.pure,Except.ok.injEq] at h
          subst h
          exact absurd rfl hnotice
        · cases hdone : (FileCall.uploadComplete fileId nets.complete).run cfg up.records with
          | error e => simp [hdone] at h
          | ok done =>
            simp only [hdone,pure,Except.pure,Except.ok.injEq] at h
            subst h
            exact ⟨_,_,up,rfl,hup,not_lt.1 hneg⟩

/-- Calls are judged by their own responses in exactly the runs in which every exchange
that does not fail has delivered one, or found no OK to be taken for it; and of the
uploads with a completion notice, exactly those that meet this were answered OK. -/
theorem requests_judged_by_own_response :
    (∀ (rs : FileRecords) (cs : List FileCall), AllJudged cfg rs cs ↔ AllAnswered cfg rs cs) ∧
    ∀ (fileId : List UInt8) (payload : UploadPayload) (imageUrl : Mem) (rs : FileRecords)
        (nets : UploadNets) (res : FileUploaded),
      sipfFileUploadRequests cfg fileId payload imageUrl rs nets = .ok res → res.notice ≠ none →
      ∃ t, res.target = some t ∧
        (UploadOk nets t ↔ (payload.call t nets.upload).Answered cfg rs) := by
  refine ⟨run_judged_iff cfg,fun fileId payload imageUrl rs nets res h hnotice => ?_⟩
  obtain ⟨t,r,up,htarget,hup,hret⟩ := notice_sent cfg h hnotice
  refine ⟨t,htarget,?_⟩
  rw [← payload_call_answered cfg rs r,← call_judged_iff hup,payload_call_judged cfg]
  exact ⟨fun hok _ => hok,fun hj => hj hret⟩

end Runs

section Stale

def stored : UploadTarget := ⟨"h", "/f", true⟩

def okRecord : HttpResponse := ⟨"OK", 200, 0, 1, 0⟩

def answeredUpload : FileCall := .uploadRequest stored [0x61] ⟨0, 3, 0, 0, 0, ⟨0, [okRecord], Mem.zero⟩⟩

def droppedUpload : FileCall := .uploadRequest stored [0x62] ⟨0, 3, 0, 0, 0, ⟨0, [], Mem.zero⟩⟩

def servedNets : UploadNets :=
  ⟨⟨0, 3, 0, 0, 0, ⟨0, [okResponse longUrl], Mem.ofList longUrl.text⟩⟩, answeredUpload.net,
    answeredUpload.net⟩

theorem requests_judged_by_own_response_served :
    ∃ res, sipfFileUploadRequests defaultConfig (ascii "1") (.callback 1) Mem.zero .boot servedNets =
        .ok res ∧
      ∃ t, res.target = some t ∧ (UploadOk servedNets t ↔
        (UploadPayload.call t servedNets.upload (.callback 1)).Answered defaultConfig .boot) := by
  have hsent : (sipfFileUploadRequests defaultConfig (ascii "1") (.callback 1) Mem.zero .boot
      servedNets).map (fun r => r.notice.isSome) = .ok true := by rfl
  cases h : sipfFileUploadRequests defaultConfig (ascii "1") (.callback 1) Mem.zero .boot servedNets with
  | error e => simp [h,Except.map] at hsent
  | ok res =>
    simp only [h,Except.map,Except.ok.injEq] at hsent
    exact ⟨res,rfl,(requests_judged_by_own_response defaultConfig).2 _ _ _ _ _ res h
      (Option.isSome_iff_ne_none.1 hsent)⟩

/-- The second upload succeeds on the answer to the first. -/
theorem dropped_upload_succeeds :
    (∃ first second, answeredUpload.run defaultConfig .boot = .ok first ∧
      droppedUpload.run defaultConfig first.records = .ok second ∧ second.ret = 0 ∧
      lastDelivered droppedUpload.net (droppedUpload.tls defaultConfig) = none) ∧
    ¬ AllJudged defaultConfig .boot [answeredUpload,droppedUpload] := by
  have hnone : lastDelivered droppedUpload.net (droppedUpload.tls defaultConfig) = none := by decide
  refine ⟨⟨_,_,rfl,rfl,by decide,hnone⟩,fun h => ?_⟩
  obtain ⟨d,hd,-⟩ := ((h _ rfl).2 _ rfl).1 (by decide)
  rw [hnone] at hd
  cases hd

end Stale

end SipfClient.File
