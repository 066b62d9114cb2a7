import SipfClient.FileUrlLaws
set_option autoImplicit false

/-!
What is left in `image_url` of earlier URLs, and when it gets into a transfer: the copy
has no terminator, so the end of the URL is where a line end or a leftover puts it.
-/

namespace SipfClient.File
open ByteMem HexText CText Http Xmodem

/-- A call of `SipfFileUpload` or `SipfFileDownload` and the answer to its URL request:
the URL, in a body that fits. -/
structure FileOp (cfg : FileConfig) where
  reqType : ReqUrlType
  fileId : List UInt8
  url : Url
  term : LineEnd
  net : NetOutcome
  resp : HttpResponse
  idFits : ¬ pathEndpointSz < (cfg.pathHead.length + 2 + cfg.pathTail.length) + fileId.length
  answered : net.Answers cfg.ssl resp
  status : resp.httpStatus = "OK"
  length : resp.contentLength = (url.body term).length
  content : (net.client.bodyOf resp).read 0 (url.body term).length = url.body term
  fits : (url.body term).length ≤ imageUrlSz

namespace FileOp

variable {cfg : FileConfig}

def body (op : FileOp cfg) : List UInt8 := op.url.body op.term

def run (op : FileOp cfg) (st : FileState) : Except OutOfBounds (FileState × Except Int Transfer) :=
  fileTarget cfg op.reqType op.fileId st op.net

def pathSent (op : FileOp cfg) : List UInt8 :=
  match op.reqType with
  | .download => op.url.path
  | .upload => 0x2f :: op.url.path

/-- There is no transfer with another protocol. -/
def expected (op : FileOp cfg) : Except Int Transfer :=
  if supported op.url.protocol then .ok ⟨op.url.protocol, op.url.host, op.pathSent⟩ else .error (-1)

/-- What the buffer has to hold before the call: a NUL or CR somewhere behind a body
without CR, and right at the end of a URL without a line end. -/
structure Fresh (op : FileOp cfg) (old : Mem) : Prop where
  ended : 0x0d ∈ op.term.bytes ∨ ∃ i, op.body.length ≤ i ∧ i < imageUrlSz ∧ ends (old i)
  leftover : supported op.url.protocol → op.term = .none → ends (old op.url.text.length)
  room : supported op.url.protocol → op.reqType = .upload → op.url.text.length + 2 ≤ imageUrlSz

end FileOp

/-- Every transfer of the run is made with the pieces of its own URL, inside the buffer. -/
def AllExact {cfg : FileConfig} : FileState → List (FileOp cfg) → Prop
  | _, [] => True
  | st, op :: ops => ∃ st', op.run st = .ok (st', op.expected) ∧ AllExact st' ops

def AllFresh {cfg : FileConfig} : FileState → List (FileOp cfg) → Prop
  | _, [] => True
  | st, op :: ops => op.Fresh st.imageUrl ∧ ∀ st' ret, op.run st = .ok (st', ret) → AllFresh st' ops

theorem foldl_requestCb_last (r : HttpResponse) {ds : List HttpResponse} (hne : ds ≠ [])
    (hdata : ∀ d ∈ ds, 0 < d.dataLen) : ds.foldl httpRequestCb r ∈ ds := by
  induction ds generalizing r with
  | nil => exact absurd rfl hne
  | cons d ds ih =>
    have hd : httpRequestCb r d = d := if_pos (hdata d List.mem_cons_self)
    rw [List.foldl_cons,hd]
    cases ds with
    | nil => exact List.mem_cons_self
    | cons e ds =>
      exact List.mem_cons_of_mem _
        (ih d (List.cons_ne_nil _ _) fun x hx => hdata x (List.mem_cons_of_mem _ hx))

theorem strncpy_whole {m : Mem} {s : List UInt8} (hread : m.read 0 s.length = s)
    (hs : ∀ c ∈ s, c ≠ 0) : strncpy m s.length = s := by
  have hc : cString m 0 s.length = s := by
    rw [cString,hread]
    exact List.takeWhile_eq_self_iff.2 fun c hc => by simpa using hs c hc
  simp [strncpy,hc]

/-- A URL in a body that fits is copied as it is, without a terminator. -/
theorem url_answered {cfg : FileConfig} {reqType : ReqUrlType} {fileId : List UInt8} {net : NetOutcome}
    {resp : HttpResponse} {u : Url} {t : LineEnd} {size : Nat}
    (hid : ¬ pathEndpointSz < (cfg.pathHead.length + 2 + cfg.pathTail.length) + fileId.length)
    (hans : net.Answers cfg.ssl resp) (hstatus : resp.httpStatus = "OK")
    (hlen : resp.contentLength = (u.body t).length)
    (hcontent : (net.client.bodyOf resp).read 0 (u.body t).length = u.body t)
    (hfits : (u.body t).length ≤ size) (url : Mem) (httpRes : HttpResponse) :
    ∃ res, sipfFileRequestURL cfg reqType fileId url size httpRes net =
      ⟨(u.body t).length, url.copy 0 (u.body t), some (urlRequest cfg reqType fileId), res⟩ := by
  have hmem := foldl_requestCb_last httpRes hans.called hans.data
  refine ⟨net.client.deliveries.foldl httpRequestCb httpRes,?_⟩
  simp only [sipfFileRequestURL,runRequest_connects httpRes hans.connects]
  generalize net.client.deliveries.foldl httpRequestCb httpRes = res at hmem
  have hsame := hans.own res hmem
  have hbody : strncpy (net.client.bodyOf res) (u.body t).length = u.body t := by
    rw [ClientRun.bodyOf,hsame.body]
    exact strncpy_whole hcontent (u.body_nonzero t)
  rw [if_neg hid,if_neg (not_lt.2 hans.success),if_neg (by simpa using hsame.status.trans hstatus),
    hsame.length.trans hlen,if_neg (not_lt.2 hfits),hbody]

/-- The end of a URL in the buffer before the call is looked at only without a line end. -/
theorem end_copied {u : Url} {t : LineEnd} (old : Mem) :
    t ≠ .none ∨ ends (old.copy 0 (u.body t) u.text.length) ↔
      (t = .none → ends (old u.text.length)) := by
  by_cases ht : t = .none
  · subst ht
    have hlen : (u.body .none).length = u.text.length := by simp [Url.body,LineEnd.bytes]
    rw [Mem.copy_after _ _ _ (by omega)]
    simp
  · simp [ht]

theorem request_served {cfg : FileConfig} (op : FileOp cfg) (url : Mem) (httpRes : HttpResponse) :
    ∃ res, sipfFileRequestURL cfg op.reqType op.fileId url imageUrlSz httpRes op.net =
      ⟨op.body.length, url.copy 0 op.body, some (urlRequest cfg op.reqType op.fileId), res⟩ :=
  url_answered op.idFits op.answered op.status op.length op.content op.fits url httpRes

section Served

variable {cfg : FileConfig} (op : FileOp cfg) (st : FileState)

theorem body_copied (old : Mem) : (old.copy 0 op.body).read 0 (op.url.body op.term).length =
    op.url.body op.term := Mem.read_copy old 0 op.body

theorem ended_iff (old : Mem) : (∃ i, i < imageUrlSz ∧ ends (old.copy 0 op.body i)) ↔
    (0x0d ∈ op.term.bytes ∨ ∃ i, op.body.length ≤ i ∧ i < imageUrlSz ∧ ends (old i)) := by
  have hlen : op.body.length = op.url.text.length + op.term.bytes.length :=
    op.url.body_length op.term
  have hfits : op.body.length ≤ imageUrlSz := op.fits
  have hterm := (body_read (body_copied op old)).2
  constructor
  · rintro ⟨i,hi,he⟩
    rcases Nat.lt_or_ge i op.body.length with hin | hout
    · have hafter : op.url.text.length ≤ i := by
        by_contra hlt
        exact text_not_ends (body_copied op old) (by omega) he
      obtain ⟨j,rfl⟩ : ∃ j, i = op.url.text.length + j := ⟨i - op.url.text.length, by omega⟩
      have hj : j < op.term.bytes.length := by omega
      have hbyte := (Mem.read_eq_iff _ _ _).1 hterm j hj
      have hmem : op.term.bytes[j] ∈ op.term.bytes := List.getElem_mem hj
      rw [← hbyte] at hmem
      rcases he with he | he
      · rw [he] at hmem
        exact absurd rfl (op.url.body_nonzero op.term 0 (List.mem_append_right _ hmem))
      · exact .inl (he ▸ hmem)
    · rw [Mem.copy_after _ _ _ (by omega)] at he
      exact .inr ⟨i,hout,hi,he⟩
  · rintro (hcr | ⟨i,hout,hi,he⟩)
    · obtain ⟨j,hj,hbyte⟩ := List.getElem_of_mem hcr
      have hat := (Mem.read_eq_iff _ _ _).1 hterm j hj
      exact ⟨op.url.text.length + j, by omega,.inr (hat.trans hbyte)⟩
    · refine ⟨i,hi, ?_⟩
      rwa [Mem.copy_after _ _ _ (by omega)]

theorem split_served {i : Nat} (hi : i < imageUrlSz)
    (he : ends (st.imageUrl.copy 0 op.body i)) :
    ∃ v res, requestAndSplit cfg op.reqType op.fileId st op.net =
        .ok (⟨v, res⟩, .ok (op.url.hostAt, op.url.pathAt)) ∧ Split v op.url ∧
      op.url.text.length < imageUrlSz ∧ (v op.url.text.length = 0 ↔
        (op.term = .none → ends (st.imageUrl op.url.text.length))) := by
  obtain ⟨res,hreq⟩ := request_served op st.imageUrl st.httpRes
  obtain ⟨v,hparse,hsplit,hlt,hend⟩ := parse_body (body_copied op st.imageUrl) hi he
  refine ⟨v,res, ?_,hsplit,hlt,hend.trans (end_copied st.imageUrl)⟩
  rw [requestAndSplit,hreq]
  have hret : ¬ ((op.body.length : Nat) : Int) < 0 := by omega
  show (if ((op.body.length : Nat) : Int) < 0 then _ else _) = _
  rw [if_neg hret,Int.toNat_natCast]
  have hparse : sipfClientHttpParseURL imageUrlSz (st.imageUrl.copy 0 op.body) op.body.length =
    .ok ⟨0, v, some op.url.hostAt, some op.url.pathAt⟩ := hparse
  rw [hparse]
  rfl

theorem split_out (h : ∀ i < imageUrlSz, ¬ ends (st.imageUrl.copy 0 op.body i)) :
    ∃ e, requestAndSplit cfg op.reqType op.fileId st op.net = .error e := by
  obtain ⟨res,hreq⟩ := request_served op st.imageUrl st.httpRes
  obtain ⟨e,he⟩ := parse_out (n := op.body.length) h
  refine ⟨e, ?_⟩
  rw [requestAndSplit,hreq]
  have hret : ¬ ((op.body.length : Nat) : Int) < 0 := by omega
  show (if ((op.body.length : Nat) : Int) < 0 then _ else _) = _
  rw [if_neg hret,Int.toNat_natCast,he]
  rfl

end Served

section Strings

variable {v : Mem} {u : Url}

theorem path_shifted (h : Split v u) {s : List UInt8}
    (hs : strIn imageUrlSz v u.pathAt = .ok s) (hroom : u.pathAt + s.length + 2 ≤ imageUrlSz) :
    ∃ w w', shiftRight imageUrlSz u.pathAt s.length v = .ok w ∧
      w.store imageUrlSz u.pathAt [0x2f] = .ok w' ∧
      strIn imageUrlSz w' u.hostAt = .ok u.host ∧
      strIn imageUrlSz w' u.pathAt = .ok (0x2f :: s) := by
  obtain ⟨hnonzero,hread,_,hend⟩ := strIn_ok hs
  have hmoved : v.read u.pathAt (s.length + 1) = s ++ [0] := by
    have hlast : v.read (u.pathAt + s.length) 1 = [v (u.pathAt + s.length)] := rfl
    rw [Mem.read_add,hread,hlast,hend]
  have hslash : (v.copy (u.pathAt + 1) (s ++ [0])).copy u.pathAt [0x2f] =
      v.copy u.pathAt (0x2f :: s ++ [0]) := copy_append v u.pathAt [0x2f] (s ++ [0])
  have hfit : u.pathAt + [(0x2f : UInt8)].length ≤ imageUrlSz := by
    rw [List.length_singleton]
    omega
  refine ⟨_,_,shiftRight_ok hroom,Mem.store_ok hfit, ?_, ?_⟩
  · rw [hmoved,hslash]
    have hat : u.hostAt + u.host.length < u.pathAt := Nat.lt_succ_self _
    rw [strIn_iff (fun c hc => (u.hostClean c hc).2.1)]
    · refine ⟨by omega, ?_⟩
      rw [Mem.copy_before _ _ _ hat]
      exact h.hostEnd
    · rw [Mem.read_congr fun i hi => Mem.copy_before v _ _ (by omega)]
      exact h.host
  · rw [hmoved,hslash]
    obtain ⟨hpath,hnul⟩ := read_append (a := 0x2f :: s) (b := [0])
      (Mem.read_copy v u.pathAt (0x2f :: s ++ [0]))
    rw [strIn_iff _ hpath]
    · exact ⟨by simp only [List.length_cons]; omega,(read_cons hnul).1⟩
    · intro c hc
      rcases List.mem_cons.1 hc with rfl | hc
      · decide
      · exact hnonzero c hc

end Strings

section Exact

variable {cfg : FileConfig} (op : FileOp cfg) (st : FileState)

theorem download_exact_iff {v : Mem} {res : HttpResponse} (hop : op.reqType = .download)
    (hsplit : requestAndSplit cfg .download op.fileId st op.net =
      .ok (⟨v, res⟩, .ok (op.url.hostAt, op.url.pathAt)))
    (h : Split v op.url) (hlt : op.url.text.length < imageUrlSz) :
    (∃ st', op.run st = .ok (st', op.expected)) ↔
      (supported op.url.protocol → v op.url.text.length = 0) := by
  have hrun : op.run st = sipfFileDownloadTarget cfg op.fileId st op.net := by
    rw [FileOp.run,hop]
    rfl
  rw [hrun,sipfFileDownloadTarget,hsplit]
  simp only [bind,Except.bind,protocol_read h hlt,FileOp.expected,FileOp.pathSent,hop,
    host_read h hlt]
  by_cases hs : supported op.url.protocol
  · simp only [hs,if_true,forall_const,← path_read_iff h hlt]
    constructor
    · rintro ⟨st',hst⟩
      cases hpath : strIn imageUrlSz v op.url.pathAt with
      | error e =>
        rw [hpath] at hst
        cases hst
      | ok s =>
        rw [hpath] at hst
        simp only [pure,Except.pure,Except.ok.injEq,Prod.mk.injEq,Transfer.mk.injEq] at hst
        rw [hst.2.2.2]
    · intro hpath
      rw [hpath]
      exact ⟨_,rfl⟩
  · simp only [hs,if_false,false_imp_iff,iff_true]
    exact ⟨_,rfl⟩

theorem upload_exact_iff {v : Mem} {res : HttpResponse} (hop : op.reqType = .upload)
    (hsplit : requestAndSplit cfg .upload op.fileId st op.net =
      .ok (⟨v, res⟩, .ok (op.url.hostAt, op.url.pathAt)))
    (h : Split v op.url) (hlt : op.url.text.length < imageUrlSz) :
    (∃ st', op.run st = .ok (st', op.expected)) ↔
      (supported op.url.protocol → v op.url.text.length = 0 ∧
        op.url.text.length + 2 ≤ imageUrlSz) := by
  have hrun : op.run st = sipfFileUploadTarget cfg op.fileId st op.net := by
    rw [FileOp.run,hop]
    rfl
  rw [hrun,sipfFileUploadTarget,hsplit]
  simp only [bind,Except.bind,protocol_read h hlt,FileOp.expected,FileOp.pathSent,hop]
  by_cases hs : supported op.url.protocol
  · simp only [hs,if_true,forall_const,← path_read_iff h hlt]
    constructor
    · rintro ⟨st',hst⟩
      cases hpath : strIn imageUrlSz v op.url.pathAt with
      | error e =>
        rw [hpath] at hst
        cases hst
      | ok s =>
        rw [hpath] at hst
        rcases Nat.lt_or_ge imageUrlSz (op.url.pathAt + s.length + 2) with hout | hroom
        · obtain ⟨e,he⟩ := shiftRight_out (m := v) hout
          simp only [he] at hst
          cases hst
        · obtain ⟨w,w',hw,hw',hhost,hsent⟩ := path_shifted h hpath hroom
          simp only [hw,hw',hhost,hsent,pure,Except.pure,Except.ok.injEq,Prod.mk.injEq,
            Transfer.mk.injEq,List.cons.injEq,true_and] at hst
          rw [op.url.text_length,← hst.2]
          exact ⟨rfl,hroom⟩
    · rintro ⟨hpath,hroom⟩
      rw [op.url.text_length] at hroom
      obtain ⟨w,w',hw,hw',hhost,hsent⟩ := path_shifted h hpath hroom
      rw [hpath]
      simp only [hw,hw',hhost,hsent]
      exact ⟨_,rfl⟩
  · simp only [hs,if_false,false_imp_iff,iff_true]
    exact ⟨_,rfl⟩

theorem op_exact_iff : (∃ st', op.run st = .ok (st', op.expected)) ↔ op.Fresh st.imageUrl := by
  by_cases hbound : ∃ i, i < imageUrlSz ∧ ends (st.imageUrl.copy 0 op.body i)
  · obtain ⟨i,hi,he⟩ := hbound
    have hended := (ended_iff op st.imageUrl).1 ⟨i,hi,he⟩
    obtain ⟨v,res,hrun,hsplit,hlt,hend⟩ := split_served op st hi he
    cases hop : op.reqType with
    | download =>
      rw [hop] at hrun
      rw [download_exact_iff op st hop hrun hsplit hlt,hend]
      exact ⟨fun h => ⟨hended,h,fun _ hup => by rw [hop] at hup; cases hup⟩,fun h => h.leftover⟩
    | upload =>
      rw [hop] at hrun
      rw [upload_exact_iff op st hop hrun hsplit hlt,hend]
      exact ⟨fun h => ⟨hended,fun hs => (h hs).1,fun hs _ => (h hs).2⟩,
        fun h hs => ⟨h.leftover hs,h.room hs hop⟩⟩
  · constructor
    · rintro ⟨st',hst⟩
      obtain ⟨e,he⟩ := split_out op st fun i hi hends => hbound ⟨i,hi,hends⟩
      have hout : op.run st = .error e := by
        rw [FileOp.run]
        cases hop : op.reqType <;>
        · rw [hop] at he
          simp only [fileTarget,sipfFileDownloadTarget,sipfFileUploadTarget,he]
          rfl
      rw [hout] at hst
      cases hst
    · intro h
      exact absurd ((ended_iff op st.imageUrl).2 h.ended) hbound

end Exact

section Runs

variable {cfg : FileConfig}

theorem upload_course_exact {op : FileOp cfg} {st : FileState} (h : op.Fresh st.imageUrl)
    (hop : op.reqType = .upload) (hs : supported op.url.protocol) (course : UploadCourse) :
    ∃ st' target, op.run st = .ok (st', target) ∧ (uploadCourse course target).target =
      .ok ⟨textOf op.url.host, textOf (0x2f :: op.url.path), op.url.protocol = ascii "https"⟩ := by
  obtain ⟨st',hrun⟩ := (op_exact_iff op st).2 h
  refine ⟨st',_,hrun, ?_⟩
  simp [uploadCourse,FileOp.expected,FileOp.pathSent,if_pos hs,hop,Transfer.uploadTarget,Except.map]

end Runs

section Leftover

def defaultConfig : FileConfig :=
  ⟨ascii "/v1/files/", ascii "/", "file.sipf.iot.sakura.ad.jp", "", true⟩

def shortUrl : Url :=
  ⟨ascii "http", ascii "h", ascii "xy", by decide +kernel, by decide +kernel, by decide +kernel⟩

def longUrl : Url :=
  ⟨ascii "http", ascii "h", ascii "abcdef", by decide +kernel, by decide +kernel, by decide +kernel⟩

def okResponse (u : Url) : HttpResponse := ⟨"OK", 200, u.text.length, u.text.length, 0⟩

def bareDownload (u : Url) (hpos : 0 < u.text.length) (hfits : u.text.length ≤ imageUrlSz) :
    FileOp defaultConfig where
  reqType := .download
  fileId := ascii "1"
  url := u
  term := .none
  net := ⟨0, 0, 0, 0, 0, ⟨0, [okResponse u], Mem.ofList u.text⟩⟩
  resp := okResponse u
  idFits := by decide
  answered := ⟨⟨rfl,le_rfl,fun _ => rfl,rfl⟩,le_rfl,List.cons_ne_nil _ _,by simpa [okResponse] using hpos,
    by simpa using ⟨rfl,rfl,rfl,rfl⟩⟩
  status := rfl
  length := by simp [Url.body,LineEnd.bytes,okResponse]
  content := by
    simpa [Url.body,LineEnd.bytes,ClientRun.bodyOf,okResponse,Mem.read_shift] using
      Mem.read_ofList u.text
  fits := by simpa [Url.body,LineEnd.bytes] using hfits

def longDownload : FileOp defaultConfig := bareDownload longUrl (by decide) (by decide)

def shortDownload : FileOp defaultConfig := bareDownload shortUrl (by decide) (by decide)

end Leftover

end SipfClient.File
