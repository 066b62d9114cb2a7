import SipfClient.ObjectWire
set_option autoImplicit false

namespace SipfClient.Object
open ByteMem Http

/-- The response callback. It copies the record of the first data it sees and
afterwards only counts. -/
def httpResponseCb (ur resp : HttpResponse) : HttpResponse :=
  if 0 < resp.dataLen then
    if ur.httpStatusCode = 0 then resp else { ur with dataLen := ur.dataLen + resp.dataLen }
  else ur

structure Connector where
  path : String
  host : String
  authHeader : String
  ssl : Bool

def connectorRequest (cfg : Connector) (payload : List UInt8) : HttpRequest :=
  ⟨.post, cfg.path, cfg.host,
    ["Connection: Close\r\n","Content-Type: application/octet-stream\r\n",cfg.authHeader], payload⟩

def runConnectorHttpRequest (cfg : Connector) (net : NetOutcome) (httpRes : HttpResponse) :
    RunRequest :=
  sipfClientHttpRunRequest httpResponseCb net cfg.ssl httpRes

def commandHeader (commandType : UInt8) : List UInt8 := commandType :: List.replicate 9 0

def objectsUpHeader (size : UInt16) : List UInt8 :=
  commandHeader objectsUp ++ [(size >>> 8).toUInt8,(size &&& 0xff).toUInt8]

structure UpRaw where
  ret : Int
  otid : Option (List UInt8)
  request : Option HttpRequest
  httpRes : HttpResponse
  deriving DecidableEq, Repr

/-- The tail of `SipfObjClientObjUpRaw`: `body` is `http_res.body_frag_start`. -/
def readNotification (r : HttpResponse) (body : Mem) : Int × Option (List UInt8) :=
  if r.httpStatus ≠ "OK" then
    if r.httpStatus = "Unauthorized" then (-401, none) else (-1, none)
  else if r.contentLength ≠ 30 then (-1, none)
  else if body 0 ≠ objidNotification then (-1, none)
  else if body 12 ≠ 0x00 then (-1, none)
  else (0, some (body.read 14 16))

def sipfObjClientObjUpRaw (cfg : Connector) (httpRes : HttpResponse) (reqBuff payloadBuffer : Mem)
    (size : UInt16) (net : NetOutcome) : Except OutOfBounds UpRaw :=
  -- `uint16_t sz_packet = 12 + size`
  let szPacket : UInt16 := 12 + size
  if buffSz ≤ szPacket.toNat then .ok ⟨-1, none, none, httpRes⟩
  else do
    let buff ← reqBuff.store buffSz 0 (objectsUpHeader size)
    let buff ← buff.store buffSz 12 (payloadBuffer.read 0 size.toNat)
    let req := connectorRequest cfg (buff.read 0 szPacket.toNat)
    let run := runConnectorHttpRequest cfg net httpRes
    if run.ret < 0 then .ok ⟨run.ret, none, some req, run.httpRes⟩
    else
      let res := readNotification run.httpRes (net.client.bodyOf run.httpRes)
      .ok ⟨res.1, res.2, some req, run.httpRes⟩

/-- `SipfObjectUp`, with `obj_qty` objects readable behind a given `objs`. -/
structure SipfObjectUp where
  objQty : UInt8
  objs : Option (List SipfObjectObject)
  readable : ∀ l ∈ objs, objQty.toNat ≤ l.length

def SipfObjectUp.list (u : SipfObjectUp) : List SipfObjectObject :=
  (u.objs.getD []).take u.objQty.toNat

def szObjUpPayload : UInt16 := 512

/-- `payload` and `work` are the contents of the two local buffers before the call. -/
def sipfObjClientObjUp (cfg : Connector) (httpRes : HttpResponse) (reqBuff payload work : Mem)
    (up : SipfObjectUp) (net : NetOutcome) : Except OutOfBounds UpRaw :=
  match up.objs with
  | none => .ok ⟨-1, none, none, httpRes⟩
  | some _ => do
    let (size,payload) ← sipfObjectCreateObjUpPayload (some payload) szObjUpPayload up.list work
    sipfObjClientObjUpRaw cfg httpRes reqBuff payload (UInt16.ofInt size) net

theorem foldl_cb_stale {u : HttpResponse} (hu : u.httpStatusCode ≠ 0) (ds : List HttpResponse) :
    (ds.foldl httpResponseCb u).Same u := by
  induction ds generalizing u with
  | nil => exact ⟨rfl,rfl,rfl,rfl⟩
  | cons d ds ih =>
    rw [List.foldl_cons]
    have hcb : (httpResponseCb u d).Same u := by
      unfold httpResponseCb
      split_ifs <;> exact ⟨rfl,rfl,rfl,rfl⟩
    obtain ⟨h1,h2,h3,h4⟩ := ih (u := httpResponseCb u d) (by rw [hcb.code]; exact hu)
    exact ⟨h1.trans hcb.status,h2.trans hcb.code,h3.trans hcb.length,h4.trans hcb.body⟩

theorem foldl_cb_fresh {u r : HttpResponse} (hu : u.httpStatusCode = 0) {ds : List HttpResponse}
    (hne : ds ≠ []) (hdata : ∀ d ∈ ds, 0 < d.dataLen) (hown : ∀ d ∈ ds, d.Same r) :
    (ds.foldl httpResponseCb u).Same r := by
  induction ds generalizing u with
  | nil => exact absurd rfl hne
  | cons d ds ih =>
    have hd := hown d (by simp)
    have hcb : httpResponseCb u d = d := by simp [httpResponseCb,hu,hdata d (by simp)]
    rw [List.foldl_cons,hcb]
    by_cases hc : d.httpStatusCode = 0
    · by_cases hds : ds = []
      · subst hds; exact hd
      · exact ih hc hds (fun e he => hdata e (by simp [he])) (fun e he => hown e (by simp [he]))
    · obtain ⟨h1,h2,h3,h4⟩ := foldl_cb_stale hc ds
      exact ⟨h1.trans hd.status,h2.trans hd.code,h3.trans hd.length,h4.trans hd.body⟩

theorem runConnector_answers {cfg : Connector} {net : NetOutcome} {r : HttpResponse}
    (h : net.Answers cfg.ssl r) (httpRes : HttpResponse) : runConnectorHttpRequest cfg net httpRes =
      ⟨net.client.ret, net.client.deliveries.foldl httpResponseCb httpRes,
        [.freeaddrinfo, .close]⟩ :=
  runRequest_connects httpRes h.connects

theorem szPacket_toNat (size : UInt16) : (12 + size).toNat = (12 + size.toNat) % 65536 := by
  simp

theorem objectsUpHeader_length (size : UInt16) : (objectsUpHeader size).length = 12 := rfl

theorem upRaw_issues (cfg : Connector) (httpRes : HttpResponse) (reqBuff payloadBuffer : Mem)
    {size : UInt16} (net : NetOutcome) (h : 12 + size.toNat < buffSz) :
    ∃ res, sipfObjClientObjUpRaw cfg httpRes reqBuff payloadBuffer size net = .ok res ∧
      res.request = some (connectorRequest cfg
        (objectsUpHeader size ++ payloadBuffer.read 0 size.toNat)) ∧
      res.httpRes = (runConnectorHttpRequest cfg net httpRes).httpRes ∧
      (res.ret,res.otid) = if (runConnectorHttpRequest cfg net httpRes).ret < 0 then
          ((runConnectorHttpRequest cfg net httpRes).ret,none)
        else readNotification res.httpRes (net.client.bodyOf res.httpRes) := by
  have hp : (12 + size).toNat = 12 + size.toNat := by
    rw [szPacket_toNat]; simp only [buffSz] at h; omega
  have hbuff : ((reqBuff.copy 0 (objectsUpHeader size)).copy 12
      (payloadBuffer.read 0 size.toNat)).read 0 (12 + size.toNat) =
      objectsUpHeader size ++ payloadBuffer.read 0 size.toNat := by
    have hh := Mem.read_copy_append (reqBuff.copy 0 (objectsUpHeader size)) 12
      (payloadBuffer.read 0 size.toNat)
    rw [Mem.read_length] at hh
    have h0 : (reqBuff.copy 0 (objectsUpHeader size)).read 0 12 = objectsUpHeader size :=
      Mem.read_copy reqBuff 0 (objectsUpHeader size)
    rw [hh,h0]
  simp only [sipfObjClientObjUpRaw,hp]
  rw [if_neg (by omega),Mem.store_ok (by rw [objectsUpHeader_length,buffSz]; omega)]
  simp only [bind,Except.bind]
  rw [Mem.store_ok (by rw [Mem.read_length]; omega)]
  simp only [hbuff]
  by_cases hr : (runConnectorHttpRequest cfg net httpRes).ret < 0
  · rw [if_pos hr]
    exact ⟨_,rfl,rfl,rfl,by rw [if_pos hr]⟩
  · rw [if_neg hr]
    exact ⟨_,rfl,rfl,rfl,by rw [if_neg hr]⟩

theorem upRaw_tooBig (cfg : Connector) (httpRes : HttpResponse) (reqBuff payloadBuffer : Mem)
    {size : UInt16} (net : NetOutcome) (h : buffSz ≤ 12 + size.toNat) (hw : size.toNat < 65524) :
    sipfObjClientObjUpRaw cfg httpRes reqBuff payloadBuffer size net =
      .ok ⟨-1, none, none, httpRes⟩ := by
  have hp : (12 + size).toNat = 12 + size.toNat := by rw [szPacket_toNat]; omega
  simp only [sipfObjClientObjUpRaw,hp]
  rw [if_pos h]

/-- The sum of 12 and the size wraps: the packet looks small and the payload is
copied far past the request buffer. -/
theorem upRaw_wraps (cfg : Connector) (httpRes : HttpResponse) (reqBuff payloadBuffer : Mem)
    {size : UInt16} (net : NetOutcome) (h : 65524 ≤ size.toNat) :
    sipfObjClientObjUpRaw cfg httpRes reqBuff payloadBuffer size net =
      .error ⟨12, size.toNat, buffSz⟩ := by
  have hs := size.toNat_lt
  have hp : (12 + size).toNat = size.toNat - 65524 := by rw [szPacket_toNat]; omega
  simp only [sipfObjClientObjUpRaw,hp]
  rw [if_neg (by rw [buffSz]; omega),Mem.store_ok (by rw [objectsUpHeader_length,buffSz]; omega)]
  simp only [bind,Except.bind]
  rw [Mem.store_error (by rw [Mem.read_length,buffSz]; omega),Mem.read_length]

end SipfClient.Object
