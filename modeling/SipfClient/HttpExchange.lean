import SipfClient.Memory
set_option autoImplicit false

/-!
`sipf_client_http.c`: one HTTP request over a fresh socket. What the network does
to a request (name resolution, socket, TLS, connect, the HTTP client library) is
an outcome chosen by the environment; the code decides what to make of it.
-/

namespace SipfClient.Http
open ByteMem

def buffSz : Nat := 1500

/-- The fields of `struct http_response` the client reads. `bodyFragStart` is the
position of the body in `httpc_res_buff`. -/
structure HttpResponse where
  httpStatus : String
  httpStatusCode : UInt16
  contentLength : Nat
  dataLen : Nat
  bodyFragStart : Nat
  deriving DecidableEq, Repr

def HttpResponse.zero : HttpResponse := ⟨"", 0, 0, 0, 0⟩

/-- Two records describe the same parsed response: they may differ only in how
much data has been delivered. -/
structure HttpResponse.Same (r s : HttpResponse) : Prop where
  status : r.httpStatus = s.httpStatus
  code : r.httpStatusCode = s.httpStatusCode
  length : r.contentLength = s.contentLength
  body : r.bodyFragStart = s.bodyFragStart

inductive HttpMethod where
  | get | put | post
  deriving DecidableEq, Repr

structure HttpRequest where
  method : HttpMethod
  url : String
  host : String
  headerFields : List String
  payload : List UInt8
  deriving DecidableEq, Repr

/-- One run of `http_client_req`: its result, the records it passes to the
response callback in order, and `httpc_res_buff` when it returns. -/
structure ClientRun where
  ret : Int
  deliveries : List HttpResponse
  resBuff : Mem

/-- What the network stack answers to the calls of one request. A failing call
sets `errno`. -/
structure NetOutcome where
  getaddrinfo : Int
  socket : Int
  tlsSetup : Int
  connect : Int
  errno : Nat
  client : ClientRun

inductive SockOp where
  | freeaddrinfo
  | close
  deriving DecidableEq, Repr

structure RunRequest where
  ret : Int
  httpRes : HttpResponse
  ops : List SockOp
  deriving DecidableEq, Repr

/-- `cb` is the response callback of the request, `httpRes` its user data. -/
def sipfClientHttpRunRequest (cb : HttpResponse → HttpResponse → HttpResponse)
    (net : NetOutcome) (tls : Bool) (httpRes : HttpResponse) : RunRequest :=
  if net.getaddrinfo ≠ 0 then ⟨-net.errno, httpRes, []⟩
  else if net.socket < 0 then ⟨-net.errno, httpRes, [.freeaddrinfo]⟩
  else if tls ∧ net.tlsSetup ≠ 0 then ⟨-net.errno, httpRes, [.freeaddrinfo, .close]⟩
  else if net.connect ≠ 0 then ⟨-net.errno, httpRes, [.freeaddrinfo, .close]⟩
  else ⟨net.client.ret, net.client.deliveries.foldl cb httpRes, [.freeaddrinfo, .close]⟩

structure NetOutcome.Connects (net : NetOutcome) (tls : Bool) : Prop where
  getaddrinfo : net.getaddrinfo = 0
  socket : 0 ≤ net.socket
  tlsSetup : tls = true → net.tlsSetup = 0
  connect : net.connect = 0

theorem runRequest_connects {cb : HttpResponse → HttpResponse → HttpResponse}
    {net : NetOutcome} {tls : Bool} (httpRes : HttpResponse) (h : net.Connects tls) :
    sipfClientHttpRunRequest cb net tls httpRes =
      ⟨net.client.ret, net.client.deliveries.foldl cb httpRes, [.freeaddrinfo, .close]⟩ := by
  have hs : ¬ net.socket < 0 := by have := h.socket; omega
  have ht : ¬ (tls = true ∧ net.tlsSetup ≠ 0) := fun hh => hh.2 (h.tlsSetup hh.1)
  simp [sipfClientHttpRunRequest,h.getaddrinfo,hs,ht,h.connect]

theorem runRequest_unconnected (cb : HttpResponse → HttpResponse → HttpResponse)
    {net : NetOutcome} {tls : Bool} (httpRes : HttpResponse) (h : ¬ net.Connects tls) :
    (sipfClientHttpRunRequest cb net tls httpRes).ret = -net.errno ∧
      (sipfClientHttpRunRequest cb net tls httpRes).httpRes = httpRes := by
  simp only [sipfClientHttpRunRequest]
  split_ifs with h1 h2 h3 h4
  · exact ⟨rfl,rfl⟩
  · exact ⟨rfl,rfl⟩
  · exact ⟨rfl,rfl⟩
  · exact ⟨rfl,rfl⟩
  · exact absurd ⟨not_not.1 h1,not_lt.1 h2,fun ht => not_not.1 fun hn => h3 ⟨ht,hn⟩,not_not.1 h4⟩ h

/-- The response `r` arrives: the request succeeds and the callback is called at
least once, each time with data and with that response's own record. -/
structure NetOutcome.Answers (net : NetOutcome) (tls : Bool) (r : HttpResponse) : Prop where
  connects : net.Connects tls
  success : 0 ≤ net.client.ret
  called : net.client.deliveries ≠ []
  data : ∀ d ∈ net.client.deliveries, 0 < d.dataLen
  own : ∀ d ∈ net.client.deliveries, d.Same r

def ClientRun.bodyOf (c : ClientRun) (r : HttpResponse) : Mem := c.resBuff.shift r.bodyFragStart

end SipfClient.Http
