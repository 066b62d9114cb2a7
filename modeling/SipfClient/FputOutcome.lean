import SipfClient.FileCopy
import SipfClient.FileRequests
import SipfClient.EndpointPaths
import SipfClient.HandlerLaws
set_option autoImplicit false

namespace SipfClient.File
open ByteMem HexText CText Http Command Xmodem

structure FputNets where
  nets : UploadNets
  headSent : Bool

def fputCourse (cfg : FileConfig) (imageUrl : Mem) (rs : FileRecords) (n : FputNets)
    (fileId : List UInt8) : Except OutOfBounds UploadCourse := do
  let (_, target) ← sipfFileUploadTarget cfg fileId ⟨imageUrl, rs.url⟩ n.nets.url
  let done ← sipfFileUploadComplete cfg fileId rs.complete n.nets.complete
  pure ⟨target.map Transfer.uploadTarget, n.nets.upload, rs.callback, n.headSent, done.ret⟩

/-- A call that fails sets `errno`, and an exchange that does not fail delivers a response
with data. -/
structure Honest (net : NetOutcome) (tls : Bool) : Prop where
  errno : ¬ net.Connects tls → 0 < net.errno
  replies : net.Connects tls → 0 ≤ net.client.ret → lastDelivered net tls ≠ none

/-- The exchange has come back with its own "200 OK". -/
structure Confirmed (net : NetOutcome) (tls : Bool) : Prop where
  connects : net.Connects tls
  success : 0 ≤ net.client.ret
  answer : ∃ d, lastDelivered net tls = some d ∧ d.httpStatus = "OK"

section Requests

variable {net : NetOutcome} {tls : Bool}

theorem runRequest_nonneg (cb : HttpResponse → HttpResponse → HttpResponse) (h : Honest net tls)
    (httpRes : HttpResponse) (hret : 0 ≤ (sipfClientHttpRunRequest cb net tls httpRes).ret) :
    net.Connects tls ∧ 0 ≤ net.client.ret := by
  by_cases hcon : net.Connects tls
  · rw [runRequest_connects httpRes hcon] at hret
    exact ⟨hcon,hret⟩
  · have herrno := h.errno hcon
    rw [(runRequest_unconnected cb httpRes hcon).1] at hret
    omega

theorem confirmed_of (h : Honest net tls) {httpRes : HttpResponse}
    (hret : 0 ≤ (sipfClientHttpRunRequest httpRequestCb net tls httpRes).ret)
    (hok : (sipfClientHttpRunRequest httpRequestCb net tls httpRes).httpRes.httpStatus = "OK") :
    Confirmed net tls := by
  obtain ⟨hcon,hsuc⟩ := runRequest_nonneg httpRequestCb h httpRes hret
  rw [runRequest_record] at hok
  cases hlast : lastDelivered net tls with
  | none => exact absurd hlast (h.replies hcon hsuc)
  | some d =>
    rw [hlast,Option.getD_some] at hok
    exact ⟨hcon,hsuc,d,hlast,hok⟩

theorem request_confirmed (h : Confirmed net tls) (httpRes : HttpResponse) :
    0 ≤ (sipfClientHttpRunRequest httpRequestCb net tls httpRes).ret ∧
      (sipfClientHttpRunRequest httpRequestCb net tls httpRes).httpRes.httpStatus = "OK" := by
  obtain ⟨d,hlast,hok⟩ := h.answer
  have hrec := runRequest_record net tls httpRes
  rw [hlast,Option.getD_some] at hrec
  refine ⟨?_,hrec ▸ hok⟩
  rw [runRequest_connects httpRes h.connects]
  exact h.success

variable {cfg : FileConfig} {fileId : List UInt8} {st : FileState}

theorem target_requested {st' : FileState} {t : Transfer}
    (h : sipfFileUploadTarget cfg fileId st net = .ok (st', .ok t)) :
    0 ≤ (sipfClientHttpRunRequest httpRequestCb net cfg.ssl st.httpRes).ret ∧
      (sipfClientHttpRunRequest httpRequestCb net cfg.ssl st.httpRes).httpRes.httpStatus = "OK" := by
  have hret :
      0 ≤ (sipfFileRequestURL cfg .upload fileId st.imageUrl imageUrlSz st.httpRes net).ret := by
    by_contra hneg
    simp only [sipfFileUploadTarget,requestAndSplit,if_pos (not_le.1 hneg)] at h
    cases h
  have hneg : ¬ (0 : Int) ≤ -1 := by decide
  simp only [sipfFileRequestURL] at hret
  split_ifs at hret with h1 h2 h3 h4
  · exact absurd hret hneg
  · exact absurd hret (not_le.2 h2)
  · exact absurd hret hneg
  · exact absurd hret hneg
  · exact ⟨not_lt.1 h2,not_not.1 h3⟩

theorem complete_requested {httpRes : HttpResponse} {r : FileReply}
    (h : sipfFileUploadComplete cfg fileId httpRes net = .ok r) (hret : 0 ≤ r.ret) :
    0 ≤ (sipfClientHttpRunRequest httpRequestCb net cfg.ssl httpRes).ret ∧
      (sipfClientHttpRunRequest httpRequestCb net cfg.ssl httpRes).httpRes.httpStatus = "OK" := by
  have hneg : ¬ (0 : Int) ≤ -1 := by decide
  simp only [sipfFileUploadComplete] at h
  split_ifs at h with hfull
  · cases h
    exact absurd hret hneg
  · cases hs : Mem.zero.store pathEndpointSz 0 (completePath cfg fileId ++ [0]) with
    | error e => simp [hs,bind,Except.bind] at h
    | ok m =>
      simp only [hs,bind,Except.bind,pure,Except.pure,Except.ok.injEq] at h
      subst h
      simp only [fileRequest] at hret
      split_ifs at hret with h1 h2
      · exact absurd hret (not_le.2 h1)
      · exact absurd hret hneg
      · exact ⟨not_lt.1 h1,not_not.1 h2⟩

theorem fputCourse_parts {imageUrl : Mem} {rs : FileRecords} {n : FputNets} {course : UploadCourse}
    (h : fputCourse cfg imageUrl rs n fileId = .ok course) : ∃ st' target done,
      sipfFileUploadTarget cfg fileId ⟨imageUrl, rs.url⟩ n.nets.url = .ok (st', target) ∧
      sipfFileUploadComplete cfg fileId rs.complete n.nets.complete = .ok done ∧
      course = ⟨target.map Transfer.uploadTarget, n.nets.upload, rs.callback, n.headSent, done.ret⟩ := by
  simp only [fputCourse,bind,Except.bind] at h
  cases htarget : sipfFileUploadTarget cfg fileId ⟨imageUrl, rs.url⟩ n.nets.url with
  | error e => simp [htarget] at h
  | ok p =>
    cases hdone : sipfFileUploadComplete cfg fileId rs.complete n.nets.complete with
    | error e => simp [htarget,hdone] at h
    | ok done =>
      simp only [htarget,hdone,pure,Except.pure,Except.ok.injEq] at h
      exact ⟨p.1,p.2,done,rfl,rfl,h.symm⟩

end Requests

section Answers

theorem okRes_ne_ng (fileSize : UInt32) : cmdFputOkRes fileSize ≠ cmdCreateResNg := by
  intro h
  have hlen := congrArg List.length h
  rw [cmdFputOkRes,List.length_append,hex8_length] at hlen
  exact absurd hlen (by decide +kernel)

theorem okRes_uploaded {args : FputArgs} {course : UploadCourse} {block : Mem} {io : Io RxEvent}
    {run : FputRun RxEvent} (h : fputSession xmodemReceiveBlock args course block io = some run)
    (hok : run.ret = .ok (cmdFputOkRes args.fileSize)) : ∃ up block' io',
      run.upload = some up ∧ 0 ≤ up.ret ∧
      sipfFileUpload course (cmdFputSendCb args.fileSize) (int32 args.fileSize.toNat) block' io' =
        some up := by
  have hng : (.ok cmdCreateResNg : Except Int (List UInt8)) ≠ .ok (cmdFputOkRes args.fileSize) :=
    fun heq => okRes_ne_ng args.fileSize (Except.ok.inj heq).symm
  simp only [fputSession] at h
  split_ifs at h with hstart
  · cases h
    cases hok
  · obtain ⟨⟨first,s⟩,-,h⟩ := Option.bind_eq_some_iff.1 h
    cases first with
    | received =>
      obtain ⟨up,hup,h⟩ := Option.bind_eq_some_iff.1 h
      cases h
      refine ⟨up,s.block,s.io,rfl,?_,hup⟩
      by_contra hneg
      simp only [if_pos (not_le.1 hneg)] at hok
      exact hng hok
    | retryOver =>
      cases h
      exact absurd hok hng
    | other ret =>
      cases h
      exact absurd hok hng

theorem uploadResult_failed {t : UploadTarget} {course : UploadCourse} {cbRet : Int}
    (hcon : course.net.Connects t.tls) (hneg : cbRet < 0) :
    uploadResult t course { course.net with client := { course.net.client with ret := cbRet } } < 0 := by
  have hcon' : NetOutcome.Connects
      { course.net with client := { course.net.client with ret := cbRet } } t.tls :=
    ⟨hcon.getaddrinfo,hcon.socket,hcon.tlsSetup,hcon.connect⟩
  simp only [uploadResult,runRequest_connects course.httpRes hcon',if_pos hneg]
  exact hneg

theorem upload_went_well {course : UploadCourse} {payloadCb : Mem → Io RxEvent → Option (FputCb RxEvent)}
    {size : Int} {block : Mem} {io : Io RxEvent} {up : Upload RxEvent}
    (h : sipfFileUpload course payloadCb size block io = some up) (hret : 0 ≤ up.ret)
    (herror : ∀ e, course.target = .error e → e < 0) :
    ∃ t, course.target = .ok t ∧ up.request = some (uploadRequest t size) ∧
      0 ≤ uploadResult t course course.net ∧ 0 ≤ course.complete := by
  simp only [sipfFileUpload] at h
  cases htarget : course.target with
  | error e =>
    simp only [htarget] at h
    cases h
    exact absurd hret (not_le.2 (herror e htarget))
  | ok t =>
    simp only [htarget] at h
    obtain ⟨sent,hsent,h⟩ := Option.bind_eq_some_iff.1 h
    split_ifs at h with hneg
    · cases h
      exact absurd hret (not_le.2 hneg)
    · cases h
      refine ⟨t,rfl,?_,?_,hret⟩
      all_goals
        simp only [sipfFileCallbackUploadRequest] at hsent
        split_ifs at hsent with hcall
      · obtain ⟨cb,-,hsent⟩ := Option.bind_eq_some_iff.1 hsent
        cases hsent
        rfl
      · cases hsent
        rfl
      · obtain ⟨cb,-,hsent⟩ := Option.bind_eq_some_iff.1 hsent
        cases hsent
        by_cases hcb : cb.ret < 0
        · simp only [if_pos hcb] at hneg
          exact absurd (uploadResult_failed hcall.1 hcb) hneg
        · simp only [if_neg hcb] at hneg
          exact not_lt.1 hneg
      · cases hsent
        exact not_lt.1 hneg

theorem target_error_neg {cfg : FileConfig} {fileId : List UInt8} {st st' : FileState}
    {net : NetOutcome} {e : Int}
    (h : sipfFileUploadTarget cfg fileId st net = .ok (st', .error e)) : e < 0 := by
  have hminus : (-1 : Int) < 0 := by decide
  obtain ⟨⟨st1,split⟩,hsplit,h⟩ := bind_ok h
  cases split with
  | error ret =>
    cases h
    simp only [requestAndSplit] at hsplit
    split_ifs at hsplit with hneg
    · cases hsplit
      exact hneg
    · obtain ⟨p,-,hsplit⟩ := bind_ok hsplit
      split_ifs at hsplit with hp
      · cases hsplit
        exact hminus
      · split at hsplit
        · cases hsplit
        · cases hsplit
          exact hminus
  | ok places =>
    obtain ⟨protocol,-,h⟩ := bind_ok h
    split_ifs at h with hs
    · obtain ⟨text,-,h⟩ := bind_ok h
      obtain ⟨url,-,h⟩ := bind_ok h
      obtain ⟨url',-,h⟩ := bind_ok h
      obtain ⟨host,-,h⟩ := bind_ok h
      obtain ⟨path,-,h⟩ := bind_ok h
      cases h
    · cases h
      exact hminus

theorem upload_confirmed {t : UploadTarget} {course : UploadCourse} (hn : Honest course.net t.tls)
    (h : 0 ≤ uploadResult t course course.net) : Confirmed course.net t.tls := by
  have hneg : ¬ (0 : Int) ≤ -1 := by decide
  simp only [uploadResult] at h
  split_ifs at h with h1 h2
  · exact absurd h (not_le.2 h1)
  · exact absurd h hneg
  · exact confirmed_of hn (not_lt.1 h1) (not_not.1 h2)

end Answers

/-- Whatever is left of earlier commands and whatever the host sends: if the answer is OK, the
server has granted a URL, accepted the upload to it and accepted the notice, each with a "200 OK"
of its own. -/
theorem fput_ok_confirmed {cfg : FileConfig} {inBuff : Mem} {inLen : UInt16} {args : FputArgs}
    (hargs : fputArgs inBuff inLen = some args) {imageUrl : Mem} {rs : FileRecords} {n : FputNets}
    (hurl : Honest n.nets.url cfg.ssl) (hupload : ∀ tls, Honest n.nets.upload tls)
    (hcomplete : Honest n.nets.complete cfg.ssl) {course : UploadCourse}
    (hcourse : fputCourse cfg imageUrl rs n args.fileId = .ok course) {block : Mem} {io : Io RxEvent}
    {run : FputRun RxEvent} (hrun : cmdAsciiCmdFput inBuff inLen (fun _ => course) block io = some run)
    (hok : run.ret = .ok (cmdFputOkRes args.fileSize)) :
    ∃ t up, course.target = .ok t ∧ run.upload = some up ∧
      up.request = some (uploadRequest t (int32 args.fileSize.toNat)) ∧
      Confirmed n.nets.url cfg.ssl ∧ Confirmed n.nets.upload t.tls ∧
      Confirmed n.nets.complete cfg.ssl := by
  simp only [cmdAsciiCmdFput,hargs] at hrun
  obtain ⟨up,block',io',hup,hret,hran⟩ := okRes_uploaded hrun hok
  obtain ⟨st',target,done,htarget,hdone,rfl⟩ := fputCourse_parts hcourse
  cases target with
  | error e =>
    obtain ⟨t,ht,-⟩ := upload_went_well hran hret fun e' he => by
      cases he
      exact target_error_neg htarget
    cases ht
  | ok tr =>
    obtain ⟨t,ht,hrequest,hwell,hdoneRet⟩ := upload_went_well hran hret fun e he => by cases he
    obtain ⟨hasked,hgranted⟩ := target_requested htarget
    obtain ⟨hsent,haccepted⟩ := complete_requested hdone hdoneRet
    exact ⟨t,up,ht,hup,hrequest,confirmed_of hurl hasked hgranted,upload_confirmed (hupload _) hwell,
      confirmed_of hcomplete hsent haccepted⟩

section Success

variable {cfg : FileConfig} {fileId : List UInt8}

theorem complete_confirmed (hpath : cfg.pathHead.length + cfg.pathTail.length + fileId.length ≤ 118)
    {net : NetOutcome} (h : Confirmed net cfg.ssl) (httpRes : HttpResponse) :
    ∃ done, sipfFileUploadComplete cfg fileId httpRes net = .ok done ∧ done.ret = 0 := by
  obtain ⟨hret,hok⟩ := request_confirmed h httpRes
  have hlen := @completePath_length cfg fileId
  rw [sipfFileUploadComplete,if_neg (by rw [pathEndpointSz]; omega),
    Mem.store_ok (by rw [hlen,pathEndpointSz]; omega)]
  refine ⟨_,rfl,?_⟩
  simp only [fileRequest,if_neg (not_lt.2 hret),if_neg (not_not.2 hok)]

theorem uploadRet_confirmed {t : UploadTarget} {course : UploadCourse} (h : Confirmed course.net t.tls)
    (hcomplete : course.complete = 0) {cbRet : Int} (hcb : 0 ≤ cbRet) :
    uploadRet course t cbRet = 0 := by
  obtain ⟨hret,hok⟩ := request_confirmed h course.httpRes
  have hres : ¬ uploadResult t course course.net < 0 := by
    simp only [uploadResult,if_neg (not_lt.2 hret),if_neg (not_not.2 hok)]
    exact not_lt.2 hret
  simp only [uploadRet,if_neg (not_lt.2 hcb),if_neg hres,hcomplete]

theorem fputCourse_served (op : FileOp cfg) (hid : op.fileId = fileId) (hop : op.reqType = .upload)
    (hs : supported op.url.protocol) {imageUrl : Mem} (hfresh : op.Fresh imageUrl) (rs : FileRecords)
    {n : FputNets} (hurl : n.nets.url = op.net) (hcomplete : Confirmed n.nets.complete cfg.ssl)
    (hpath : cfg.pathHead.length + cfg.pathTail.length + fileId.length ≤ 118) :
    ∃ course, fputCourse cfg imageUrl rs n fileId = .ok course ∧
      course.target = .ok ⟨textOf op.url.host, textOf (0x2f :: op.url.path),
        op.url.protocol = ascii "https"⟩ ∧
      course.net = n.nets.upload ∧ course.headSent = n.headSent ∧ course.complete = 0 := by
  obtain ⟨done,hdone,hzero⟩ := complete_confirmed hpath hcomplete rs.complete
  obtain ⟨st',target,htarget,hexact⟩ := @upload_course_exact cfg op ⟨imageUrl, rs.url⟩ hfresh hop hs
    ⟨.error 0, n.nets.upload, rs.callback, n.headSent, done.ret⟩
  rw [FileOp.run,hop,hid,← hurl] at htarget
  have hrequest : sipfFileUploadTarget cfg fileId ⟨imageUrl, rs.url⟩ n.nets.url = .ok (st', target) :=
    htarget
  refine ⟨⟨target.map Transfer.uploadTarget, n.nets.upload, rs.callback, n.headSent, done.ret⟩,?_,
    hexact,rfl,rfl,hzero⟩
  simp only [fputCourse,hrequest,hdone,bind,Except.bind]
  rfl

theorem served_answers {inBuff : Mem} {inLen : UInt16} {args : FputArgs}
    (hargs : fputArgs inBuff inLen = some args) {course : UploadCourse} {t : UploadTarget}
    (ht : course.target = .ok t) (hnet : Confirmed course.net t.tls) (hhead : course.headSent = true)
    (hdone : course.complete = 0) (block : Mem) {d : Delivery} {ds : List Delivery}
    (hd : d.Arriving true 1) (hds : ArrivingFrom 2 ds) (hsmall : 128 * (ds.length + 1) < 2 ^ 31) :
    ∃ run up,
      cmdAsciiCmdFput inBuff inLen (fun _ => course) block ⟨lineOf (d :: ds), [], [], []⟩ = some run ∧
      run.ret = .ok (cmdFputOkRes args.fileSize) ∧ run.upload = some up ∧
      up.request = some (uploadRequest t (int32 args.fileSize.toNat)) ∧
      socketBytes run.io.trace = (d :: ds).flatMap Delivery.data := by
  obtain ⟨run,up,hrun,hup,hreq,hbytes⟩ := session_stores args ht hnet.connects hhead block hd hds hsmall
  obtain ⟨run',hrun',-,hret⟩ := @session_recovers args course t ht hnet.connects hhead block [] (by
    simp [Taking]) d ds hd hds
  rw [hrun] at hrun'
  cases hrun'
  have htotal : int32 (totals [] ds.length (int32 (([] : List SendRet).headD .full).count)) =
      (128 * (ds.length + 1) : Nat) :=
    (congrArg int32 (@totals_full ds.length 1 hsmall)).trans (int32_small hsmall)
  have hpositive : 0 ≤ int32 (totals [] ds.length (int32 (([] : List SendRet).headD .full).count)) := by
    rw [htotal]
    exact Int.natCast_nonneg _
  refine ⟨run,up,by simp only [cmdAsciiCmdFput,hargs,hrun],?_,hup,hreq,hbytes⟩
  rw [hret,transferRet,List.tail_nil,uploadRet_confirmed hnet hdone hpositive]
  rfl

/-- A file whose blocks each arrive after at most ten damages the receiver recovers from goes,
with the padding of its last block, to the place the server has named for it, and the answer is
OK. -/
theorem fput_stores {inBuff : Mem} {inLen : UInt16} {args : FputArgs}
    (hargs : fputArgs inBuff inLen = some args) (op : FileOp cfg) (hid : op.fileId = args.fileId)
    (hop : op.reqType = .upload) (hs : supported op.url.protocol) {imageUrl : Mem}
    (hfresh : op.Fresh imageUrl) (rs : FileRecords) {n : FputNets} (hurl : n.nets.url = op.net)
    (hhead : n.headSent = true)
    (hupload : Confirmed n.nets.upload (op.url.protocol = ascii "https"))
    (hcomplete : Confirmed n.nets.complete cfg.ssl)
    (hpath : cfg.pathHead.length + cfg.pathTail.length + args.fileId.length ≤ 118) (block : Mem)
    {d : Delivery} {ds : List Delivery} (hd : d.Arriving true 1) (hds : ArrivingFrom 2 ds)
    (hsmall : 128 * (ds.length + 1) < 2 ^ 31) :
    ∃ course run up, fputCourse cfg imageUrl rs n args.fileId = .ok course ∧
      cmdAsciiCmdFput inBuff inLen (fun _ => course) block ⟨lineOf (d :: ds), [], [], []⟩ = some run ∧
      run.ret = .ok (cmdFputOkRes args.fileSize) ∧ run.upload = some up ∧
      up.request = some (uploadRequest ⟨textOf op.url.host, textOf (0x2f :: op.url.path),
        op.url.protocol = ascii "https"⟩ (int32 args.fileSize.toNat)) ∧
      socketBytes run.io.trace = (d :: ds).flatMap Delivery.data := by
  obtain ⟨course,hcourse,htarget,hnet,hsent,hdone⟩ :=
    fputCourse_served op hid hop hs hfresh rs hurl hcomplete hpath
  rw [← hnet] at hupload
  obtain ⟨run,up,hrun,hret,hup,hreq,hbytes⟩ := served_answers hargs htarget hupload (hsent.trans hhead)
    hdone block hd hds hsmall
  exact ⟨course,run,up,hcourse,hrun,hret,hup,hreq,hbytes⟩

end Success

section Served

def longUpload : FileOp defaultConfig := { longDownload with reqType := .upload }

theorem longUpload_fresh : longUpload.Fresh Mem.zero :=
  ⟨.inr ⟨longUpload.body.length,Nat.le_refl _,by decide +kernel,.inl rfl⟩,fun _ _ => .inl rfl,
    fun _ _ => by decide +kernel⟩

def storedNets : FputNets := ⟨⟨longUpload.net, answeredUpload.net, answeredUpload.net⟩, true⟩

theorem answered_confirmed (tls : Bool) : Confirmed answeredUpload.net tls := by
  have hcon : answeredUpload.net.Connects tls := ⟨rfl,by decide,fun _ => rfl,rfl⟩
  exact ⟨hcon,by decide,okRecord,by rw [lastDelivered,if_pos hcon]; rfl,rfl⟩

theorem answered_honest (tls : Bool) : Honest answeredUpload.net tls := by
  obtain ⟨hcon,-,d,hlast,-⟩ := answered_confirmed tls
  exact ⟨fun hno => absurd hcon hno,fun _ _ => by rw [hlast]; simp⟩

theorem longUpload_honest : Honest longUpload.net true := by
  have hcon : longUpload.net.Connects true := ⟨rfl,by decide,fun _ => rfl,rfl⟩
  refine ⟨fun hno => absurd hcon hno,fun _ _ => ?_⟩
  rw [lastDelivered,if_pos hcon]
  decide +kernel

theorem storedLine : fputArgs (Mem.ofList (ascii " 1 00000080")) 11 = some ⟨[0x31], 0x80⟩ := by
  decide +kernel

theorem blockA_arriving : Delivery.Arriving true 1 ⟨blockA, [.cut 0]⟩ :=
  ⟨by decide +kernel,by decide,by decide +kernel⟩

theorem fput_stores_block : ∃ course run,
    fputCourse defaultConfig Mem.zero .boot storedNets [0x31] = .ok course ∧
    cmdAsciiCmdFput (Mem.ofList (ascii " 1 00000080")) 11 (fun _ => course) Mem.zero
      ⟨lineOf [⟨blockA, [.cut 0]⟩], [], [], []⟩ = some run ∧
    run.ret = .ok (cmdFputOkRes 0x80) ∧ socketBytes run.io.trace = blockA := by
  obtain ⟨course,run,up,hcourse,hrun,hret,-,-,hbytes⟩ := @fput_stores defaultConfig _ _ _ storedLine
    longUpload rfl rfl (by decide +kernel) _ longUpload_fresh .boot storedNets rfl rfl
    (answered_confirmed _) (answered_confirmed _) (by decide) Mem.zero _ [] blockA_arriving trivial
    (by decide)
  exact ⟨course,run,hcourse,hrun,hret,by simpa using hbytes⟩

theorem fput_ok_confirmed_block : ∃ course,
    fputCourse defaultConfig Mem.zero .boot storedNets [0x31] = .ok course ∧
    ∃ t, course.target = .ok t ∧ Confirmed longUpload.net true ∧
      Confirmed answeredUpload.net t.tls ∧ Confirmed answeredUpload.net true := by
  obtain ⟨course,hcourse,htarget,hnet,hsent,hdone⟩ := @fputCourse_served defaultConfig [0x31] longUpload
    rfl rfl (by decide +kernel) _ longUpload_fresh .boot storedNets rfl (answered_confirmed _) (by decide)
  obtain ⟨run,up,hrun,hret,-⟩ := @served_answers _ _ _ storedLine course _ htarget
    (by rw [hnet]; exact answered_confirmed _) hsent hdone Mem.zero _ [] blockA_arriving trivial
    (by decide)
  obtain ⟨t,up',ht,-,-,hurl,hupload,hcomplete⟩ := fput_ok_confirmed storedLine longUpload_honest
    (fun tls => answered_honest tls) (answered_honest _) hcourse hrun hret
  exact ⟨course,hcourse,t,ht,hurl,hupload,hcomplete⟩

end Served

end SipfClient.File
