import SipfClient.Base64
import SipfClient.FileRequests
import SipfClient.MainLoop
set_option autoImplicit false

/-!
`sipf_auth.c` and the Authorization header of `sipf_client_http.c`: the server answers
with a user name and a password, a line each, which are copied into two buffers of
`main` and from there into the header of every later request.
-/

namespace SipfClient.Auth
open ByteMem HexText CText Http File

structure AuthConfig where
  ssl : Bool

/-- `http_response_cb`: a response with data replaces the record. -/
def httpResponseCb (userData resp : HttpResponse) : HttpResponse :=
  if 0 < resp.dataLen then resp else userData

def runGetSessionKeyHttpRequest (cfg : AuthConfig) (httpRes : HttpResponse) (net : NetOutcome) :
    RunRequest :=
  sipfClientHttpRunRequest httpResponseCb net cfg.ssl httpRes

/-- The body with its newlines overwritten so far, and what is behind the first of them. -/
structure BodyScan where
  body : Mem
  p : Option Nat

def scanStep (s : BodyScan) (i : Nat) : BodyScan :=
  if s.body i = 0x0a then ⟨s.body.set i 0, some (s.p.getD (i + 1))⟩ else s

def scanBody (contentLength : Nat) (body : Mem) : BodyScan :=
  (List.range contentLength).foldl scanStep ⟨body, none⟩

def storeField (dst : Mem) (sz : UInt8) (src : Mem) : Mem :=
  (dst.copy 0 (List.replicate sz.toNat 0)).copy 0 (strncpy src sz.toNat)

structure AuthReply where
  ret : Int
  userName : Mem
  password : Mem
  httpRes : HttpResponse
  body : Mem

/-- The sizes are not 0. A field that was too long stays in its buffer. -/
def sipfAuthRequest (cfg : AuthConfig) (userName : Mem) (szUserName : UInt8) (password : Mem)
    (szPassword : UInt8) (httpRes : HttpResponse) (net : NetOutcome) : AuthReply :=
  let run := runGetSessionKeyHttpRequest cfg httpRes net
  let httpRes := run.httpRes
  let body := net.client.bodyOf httpRes
  if run.ret < 0 then ⟨run.ret, userName, password, httpRes, body⟩
  else if httpRes.httpStatus ≠ "OK" then ⟨-1, userName, password, httpRes, body⟩
  else
    let s := scanBody httpRes.contentLength body
    match s.p with
    | some p =>
      let userName := storeField userName szUserName s.body
      if userName (szUserName.toNat - 1) ≠ 0 then ⟨-1, userName, password, httpRes, s.body⟩
      else
        let password := storeField password szPassword (s.body.shift p)
        if password (szPassword.toNat - 1) ≠ 0 then ⟨-1, userName, password, httpRes, s.body⟩
        else ⟨0, userName, password, httpRes, s.body⟩
    | none => ⟨-1, userName, password, httpRes, s.body⟩

/-- `SZ_USER_NAME`; `main` passes it for the password as well, whose buffer is as large. -/
def szUserName : UInt8 := 255

def tmpSz : Nat := 128

def reqAuthHeaderSz : Nat := 256

/-- `base64_encode` into a buffer of some size: the digits, or nothing on failure. A NUL
stands behind the digits. -/
abbrev Encoder := Nat → List UInt8 → Option (List UInt8)

/-- It encodes what fits, with its NUL, and fails on the rest. -/
structure Encodes (base64Encode : Encoder) : Prop where
  fits : ∀ dlen src, (Base64.encode src).length < dlen →
    base64Encode dlen src = some (Base64.encode src)
  fails : ∀ dlen src, dlen ≤ (Base64.encode src).length → base64Encode dlen src = none

structure HeaderSet where
  ret : Int
  reqAuthHeader : Mem

def authHeader (digits : List UInt8) : List UInt8 :=
  ascii "Authorization: BASIC " ++ digits ++ crlf

/-- Both strings are read from the buffers of `main`, in which they have to end. -/
def sipfClientHttpSetAuthInfo (base64Encode : Encoder) (userName passwd reqAuthHeader : Mem) :
    Except OutOfBounds HeaderSet := do
  let userName ← strIn szUserName.toNat userName 0
  let passwd ← strIn szUserName.toNat passwd 0
  let text := userName ++ 0x3a :: passwd
  let _ ← Mem.zero.store tmpSz 0 (text ++ [0])
  match base64Encode tmpSz text with
  | none => pure ⟨-1, reqAuthHeader⟩
  | some digits => do
    let _ ← Mem.zero.store tmpSz 0 (digits ++ [0])
    let header ← reqAuthHeader.store reqAuthHeaderSz 0 (authHeader digits ++ [0])
    pure ⟨(authHeader digits).length, header⟩

/-- What `main` and the two functions keep between authentications. -/
structure AuthState where
  userName : Mem
  password : Mem
  reqAuthHeader : Mem
  httpRes : HttpResponse

def AuthState.request (cfg : AuthConfig) (s : AuthState) (net : NetOutcome) : AuthReply :=
  sipfAuthRequest cfg s.userName szUserName s.password szUserName s.httpRes net

/-- The authentication in the loop of `main`: the header is set whatever the request has
come to. -/
def authAttempt (base64Encode : Encoder) (cfg : AuthConfig) (s : AuthState) (net : NetOutcome) :
    Except OutOfBounds (Attempt × AuthState) := do
  let a := s.request cfg net
  let h ← sipfClientHttpSetAuthInfo base64Encode a.userName a.password s.reqAuthHeader
  pure (⟨a.ret, h.ret⟩, ⟨a.userName, a.password, h.reqAuthHeader, a.httpRes⟩)

end SipfClient.Auth
