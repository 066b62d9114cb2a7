import SipfClient.CText
import SipfClient.FputCommand
set_option autoImplicit false

/-!
`sipf_file.c` and the URL parser of `sipf_client_http.c`: the server names the place of
a file with a URL, which is copied into `image_url`, split there by overwriting its
delimiters, and for an upload shifted there to make room for a '/'.
-/

namespace SipfClient.File
open ByteMem HexText CText Http Xmodem

def imageUrlSz : Nat := 400

def pathEndpointSz : Nat := 128

/-- `CONFIG_SIPF_FILE_REQ_URL_PATH` around its `%s`, `CONFIG_SIPF_FILE_REQ_URL_HOST`, the
Authorization header and whether SSL is used. -/
structure FileConfig where
  pathHead : List UInt8
  pathTail : List UInt8
  host : String
  authHeader : String
  ssl : Bool

inductive ReqUrlType
  | download
  | upload
  deriving DecidableEq, Repr

def ReqUrlType.method : ReqUrlType → HttpMethod
  | .download => .get
  | .upload => .put

def textOf (bs : List UInt8) : String := String.ofList (bs.map fun b => Char.ofNat b.toNat)

def urlRequest (cfg : FileConfig) (reqType : ReqUrlType) (fileId : List UInt8) : HttpRequest :=
  ⟨reqType.method, textOf (cfg.pathHead ++ fileId ++ cfg.pathTail), cfg.host,
    ["Connection: Close\r\n",cfg.authHeader], []⟩

/-- `strncpy`: up to the first NUL, and zeros up to `n`. -/
def strncpy (src : Mem) (n : Nat) : List UInt8 :=
  cString src 0 n ++ List.replicate (n - (cString src 0 n).length) 0

structure RequestUrl where
  ret : Int
  url : Mem
  request : Option HttpRequest
  httpRes : HttpResponse

/-- As many bytes as the response has are copied, and no NUL behind them. -/
def sipfFileRequestURL (cfg : FileConfig) (reqType : ReqUrlType) (fileId : List UInt8) (url : Mem)
    (szUrl : Nat) (httpRes : HttpResponse) (net : NetOutcome) : RequestUrl :=
  -- the `%s` of the format counts as two characters of it
  if pathEndpointSz < (cfg.pathHead.length + 2 + cfg.pathTail.length) + fileId.length then
    ⟨-1, url, none, httpRes⟩
  else
    let req := urlRequest cfg reqType fileId
    let run := sipfClientHttpRunRequest httpRequestCb net cfg.ssl httpRes
    if run.ret < 0 then ⟨run.ret, url, some req, run.httpRes⟩
    else if run.httpRes.httpStatus ≠ "OK" then ⟨-1, url, some req, run.httpRes⟩
    else if szUrl < run.httpRes.contentLength then ⟨-1, url, some req, run.httpRes⟩
    else ⟨run.httpRes.contentLength,
      url.copy 0 (strncpy (net.client.bodyOf run.httpRes) run.httpRes.contentLength), some req,
      run.httpRes⟩

/-- `strstr(url, "\r")`: it ends at a CR or a NUL, wherever that is. -/
def strstrCr (size : Nat) (url : Mem) : Except OutOfBounds (Option Nat) :=
  match (List.range size).find? fun i => url i = 0 ∨ url i = 0x0d with
  | none => .error ⟨size, 1, size⟩
  | some i => .ok (if url i = 0x0d then some i else none)

inductive UrlDelim
  | protocolEnd
  | root1
  | root2
  | hostEnd
  | pathEnd
  deriving DecidableEq, Repr

/-- The URL being split; `host` and `path` are NULL or positions in it. -/
structure UrlParse where
  url : Mem
  st : UrlDelim
  host : Option Nat
  path : Option Nat

def urlStep (p : UrlParse) (i : Nat) : UrlParse :=
  match p.st with
  | .protocolEnd => if p.url i = 0x3a then { p with url := p.url.set i 0, st := .root1 } else p
  | .root1 => if p.url i = 0x2f then { p with url := p.url.set i 0, st := .root2 } else p
  | .root2 =>
    if p.url i = 0x2f then { p with url := p.url.set i 0, host := some (i + 1), st := .hostEnd } else p
  | .hostEnd =>
    if p.url i = 0x2f then { p with url := p.url.set i 0, path := some (i + 1), st := .pathEnd } else p
  | .pathEnd => p

/-- The rest of the loop, `n` rounds from `i` on; a line end behind the path leaves it. -/
def urlLoop : Nat → Nat → UrlParse → UrlParse
  | 0, _, p => p
  | n + 1, i, p =>
    if p.st = .pathEnd ∧ (p.url i = 0x0d ∨ p.url i = 0x0a) then { p with url := p.url.set i 0 }
    else urlLoop n (i + 1) (urlStep p i)

structure ParsedUrl where
  ret : Int
  url : Mem
  host : Option Nat
  path : Option Nat

def sipfClientHttpParseURL (size : Nat) (url : Mem) (urlLen : Nat) : Except OutOfBounds ParsedUrl := do
  let cr ← strstrCr size url
  let url := match cr with
    | some i => url.set i 0
    | none => url
  let p := urlLoop urlLen 0 ⟨url, .protocolEnd, none, none⟩
  pure ⟨if p.st ≠ .pathEnd then -1 else 0, p.url, p.host, p.path⟩

def strIn (size : Nat) (m : Mem) (off : Nat) : Except OutOfBounds (List UInt8) :=
  let s := cString m off (size - off)
  if off + s.length < size then .ok s else .error ⟨size, 1, size⟩

def shiftRight (size path : Nat) : Nat → Mem → Except OutOfBounds Mem
  | 0, url => url.store size (path + 1) [url path]
  | i + 1, url => do
    let url ← url.store size (path + (i + 1) + 1) [url (path + (i + 1))]
    shiftRight size path i url

structure FileState where
  imageUrl : Mem
  httpRes : HttpResponse

def FileState.boot : FileState := ⟨Mem.zero, .zero⟩

structure Transfer where
  protocol : List UInt8
  host : List UInt8
  path : List UInt8
  deriving DecidableEq, Repr

/-- The part that uploads and downloads share: the positions of host and path. -/
def requestAndSplit (cfg : FileConfig) (reqType : ReqUrlType) (fileId : List UInt8) (st : FileState)
    (net : NetOutcome) : Except OutOfBounds (FileState × Except Int (Nat × Nat)) := do
  let r := sipfFileRequestURL cfg reqType fileId st.imageUrl imageUrlSz st.httpRes net
  if r.ret < 0 then pure (⟨r.url, r.httpRes⟩, .error r.ret)
  else
    let p ← sipfClientHttpParseURL imageUrlSz r.url r.ret.toNat
    if p.ret < 0 then pure (⟨p.url, r.httpRes⟩, .error (-1))
    else
      match p.host, p.path with
      | some host, some path => pure (⟨p.url, r.httpRes⟩, .ok (host, path))
      | _, _ => pure (⟨p.url, r.httpRes⟩, .error (-1))

def supported (protocol : List UInt8) : Prop := protocol = ascii "https" ∨ protocol = ascii "http"

instance decidableSupported (protocol : List UInt8) : Decidable (supported protocol) :=
  inferInstanceAs (Decidable (protocol = ascii "https" ∨ protocol = ascii "http"))

def sipfFileUploadTarget (cfg : FileConfig) (fileId : List UInt8) (st : FileState) (net : NetOutcome) :
    Except OutOfBounds (FileState × Except Int Transfer) := do
  let (st, split) ← requestAndSplit cfg .upload fileId st net
  match split with
  | .error ret => pure (st, .error ret)
  | .ok (host, path) => do
    let protocol ← strIn imageUrlSz st.imageUrl 0
    if supported protocol then do
      let text ← strIn imageUrlSz st.imageUrl path
      let url ← shiftRight imageUrlSz path text.length st.imageUrl
      let url ← url.store imageUrlSz path [0x2f]
      let host ← strIn imageUrlSz url host
      let path ← strIn imageUrlSz url path
      pure (⟨url, st.httpRes⟩, .ok ⟨protocol, host, path⟩)
    else pure (st, .error (-1))

def sipfFileDownloadTarget (cfg : FileConfig) (fileId : List UInt8) (st : FileState)
    (net : NetOutcome) : Except OutOfBounds (FileState × Except Int Transfer) := do
  let (st, split) ← requestAndSplit cfg .download fileId st net
  match split with
  | .error ret => pure (st, .error ret)
  | .ok (host, path) => do
    let protocol ← strIn imageUrlSz st.imageUrl 0
    if supported protocol then do
      let host ← strIn imageUrlSz st.imageUrl host
      let path ← strIn imageUrlSz st.imageUrl path
      pure (st, .ok ⟨protocol, host, path⟩)
    else pure (st, .error (-1))

def fileTarget (cfg : FileConfig) : ReqUrlType → List UInt8 → FileState → NetOutcome →
    Except OutOfBounds (FileState × Except Int Transfer)
  | .download => sipfFileDownloadTarget cfg
  | .upload => sipfFileUploadTarget cfg

def Transfer.uploadTarget (t : Transfer) : UploadTarget :=
  ⟨textOf t.host, textOf t.path, t.protocol = ascii "https"⟩

def uploadCourse (course : UploadCourse) (target : Except Int Transfer) : UploadCourse :=
  { course with target := target.map Transfer.uploadTarget }

end SipfClient.File
