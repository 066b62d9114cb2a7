import SipfClient.FputCourse
set_option autoImplicit false

namespace SipfClient.Xmodem
open ByteMem Http

def socketOp : IoEvent → Option SockOp
  | .close => some .close
  | _ => none

def socketOps (ev : List IoEvent) : List SockOp := ev.filterMap socketOp

/-- What is obtained is released once, and nothing else is. -/
structure ReleasedOnce (net : NetOutcome) (ops : List SockOp) : Prop where
  addrinfo : ops.count .freeaddrinfo = if net.getaddrinfo = 0 then 1 else 0
  socket : ops.count .close = if net.getaddrinfo = 0 ∧ 0 ≤ net.socket then 1 else 0

theorem runRequest_released (cb : HttpResponse → HttpResponse → HttpResponse) (net : NetOutcome)
    (tls : Bool) (httpRes : HttpResponse) :
    ReleasedOnce net (sipfClientHttpRunRequest cb net tls httpRes).ops := by
  simp only [sipfClientHttpRunRequest]
  split_ifs with hname hsock htls hconnect
  · exact ⟨by rw [if_neg hname]; rfl,by rw [if_neg fun h => hname h.1]; rfl⟩
  · rw [not_not] at hname
    exact ⟨by rw [if_pos hname]; rfl,by rw [if_neg fun h => not_le.2 hsock h.2]; rfl⟩
  all_goals
    rw [not_not] at hname
    exact ⟨by rw [if_pos hname]; rfl,by rw [if_pos ⟨hname,not_lt.1 hsock⟩]; rfl⟩

/-- An upload request: the callback runs while the client has the socket. -/
def uploadOps (t : UploadTarget) (course : UploadCourse) (ev : List IoEvent) : List SockOp :=
  socketOps ev ++ (sipfClientHttpRunRequest httpRequestCb course.net t.tls course.httpRes).ops

/-- The peer ends the transfer, and what the socket has taken, counted in 32 bits, is less
than the file. -/
def EndsShort (fileSize : UInt32) (sends : List SendRet) (results : List XmodemRecvRet) : Prop :=
  PeerEnds results ∧ takenTotal sends results % 2 ^ 32 < fileSize.toNat

theorem socketOps_ofCallback {ev : List IoEvent} (h : OfCallback ev) : socketOps ev = [] := by
  refine List.filterMap_eq_nil_iff.2 fun x hx => ?_
  have hx' := h x hx
  cases x <;> first | rfl | cases hx'

theorem socketOps_append (a b : List IoEvent) : socketOps (a ++ b) = socketOps a ++ socketOps b :=
  List.filterMap_append

theorem cbCourse_closes {fileSize : UInt32} {sends : List SendRet} {ret : Int} {ev : List IoEvent}
    (h : CbCourse fileSize sends ret ev) :
    EndsShort fileSize sends (outcomes ev) ∧ socketOps ev = [.close] ∨
      ¬ EndsShort fileSize sends (outcomes ev) ∧ socketOps ev = [] := by
  cases h with
  | firstFails data hs => exact .inr ⟨fun h => absurd h.1 not_peerEnds_nil,rfl⟩
  | @leaves n le data v ev ok hs hev h =>
    have hops : socketOps (.send data (.taken n le) :: .put ack ok :: ev) = [] :=
      socketOps_ofCallback (ofCallback_cons rfl (ofCallback_cons rfl hev))
    have hlast : outcomes (.send data (.taken n le) :: .put ack ok :: ev) = outcomes ev := rfl
    refine .inr ⟨fun hshort => ?_,hops⟩
    rw [hlast] at hshort
    exact h.not_peerEnds hshort.1
  | @ends n le data ev ok hs hev h hbytes =>
    have hops : socketOps (.send data (.taken n le) :: .put ack ok :: ev) = [] :=
      socketOps_ofCallback (ofCallback_cons rfl (ofCallback_cons rfl hev))
    have hpeer := h.peerEnds
    rw [outcomes_ends,socketOps_append,hops]
    by_cases hc : takenTotal sends (outcomes ev) % 2 ^ 32 < fileSize.toNat
    · rw [if_pos hc]
      exact .inl ⟨⟨hpeer,hc⟩,rfl⟩
    · rw [if_neg hc]
      exact .inr ⟨fun h => hc h.2,rfl⟩

theorem callbackRequest_course (fileSize : UInt32) (t : UploadTarget) (course : UploadCourse)
    (size : Int) (block : Mem) (io : Io RxEvent) : ∃ up ev,
    sipfFileCallbackUploadRequest t course (cmdFputSendCb fileSize) size block io = some up ∧
      Extends io up.io ev ∧ (ev = [] ∨ course.net.Connects t.tls ∧
        ∃ ret, CbCourse fileSize io.sends ret ev) := by
  obtain ⟨cb,ev,hcb,hext,hcourse⟩ := callback_course fileSize block io
  by_cases hcall : course.net.Connects t.tls ∧ course.headSent = true
  · simp only [sipfFileCallbackUploadRequest,if_pos hcall,hcb,Option.bind_eq_bind,Option.bind_some]
    exact ⟨_,ev,rfl,hext,.inr ⟨hcall.1,_,hcourse⟩⟩
  · simp only [sipfFileCallbackUploadRequest,if_neg hcall]
    exact ⟨_,[],rfl,Extends.refl io,.inl rfl⟩

/-- Every request releases what it has obtained once; an upload request of `$$FPUT` does
exactly if its transfer does not end short of the file. -/
theorem sockets_released_once_iff (cb : HttpResponse → HttpResponse → HttpResponse) (net : NetOutcome)
    (tls : Bool) (httpRes : HttpResponse) (fileSize : UInt32) (t : UploadTarget)
    (course : UploadCourse) (size : Int) (block : Mem) (io : Io RxEvent) :
    ReleasedOnce net (sipfClientHttpRunRequest cb net tls httpRes).ops ∧ ∃ up ev,
      sipfFileCallbackUploadRequest t course (cmdFputSendCb fileSize) size block io = some up ∧
        up.io.trace = io.trace ++ ev ∧
        (ReleasedOnce course.net (uploadOps t course ev) ↔
          ¬ EndsShort fileSize io.sends (outcomes ev)) := by
  refine ⟨runRequest_released cb net tls httpRes,?_⟩
  obtain ⟨up,ev,hup,hext,hev⟩ := callbackRequest_course fileSize t course size block io
  refine ⟨up,ev,hup,hext.trace,?_⟩
  have hreq := runRequest_released httpRequestCb course.net t.tls course.httpRes
  rcases hev with rfl | ⟨hconn,ret,hcb⟩
  · exact ⟨fun _ h => absurd h.1 not_peerEnds_nil,fun _ => hreq⟩
  · rcases cbCourse_closes hcb with ⟨hshort,hops⟩ | ⟨hshort,hops⟩
    · refine ⟨fun h => ?_,fun h => absurd hshort h⟩
      have hclose := h.socket
      rw [uploadOps,hops,runRequest_connects _ hconn,if_pos ⟨hconn.getaddrinfo,hconn.socket⟩] at hclose
      have htwo : [SockOp.close,.freeaddrinfo,.close].count .close = 1 := hclose
      exact absurd htwo (by decide)
    · rw [uploadOps,hops]
      exact ⟨fun _ => hshort,fun _ => hreq⟩

def openNet : NetOutcome := ⟨0, 3, 0, 0, 0, ⟨0, [], Mem.zero⟩⟩

def shortUpload : UploadCourse := ⟨.ok ⟨"h", "/f", false⟩, openNet, .zero, true, 0⟩

def shortRecord : List IoEvent :=
  (cmdFputSendCb 256 paddedBlock eotOnly).elim [] fun cb => cb.io.trace

/-- EOT behind the first block of a file of two: the callback closes the socket and the
request closes it again. -/
theorem short_upload_closes_twice : ∃ up ev,
    sipfFileCallbackUploadRequest ⟨"h", "/f", false⟩ shortUpload (cmdFputSendCb 256) 256 paddedBlock
      eotOnly = some up ∧ up.io.trace = eotOnly.trace ++ ev ∧
    uploadOps ⟨"h", "/f", false⟩ shortUpload ev = [.close,.freeaddrinfo,.close] ∧
    ¬ ReleasedOnce shortUpload.net (uploadOps ⟨"h", "/f", false⟩ shortUpload ev) := by
  have hops : uploadOps ⟨"h", "/f", false⟩ shortUpload shortRecord = [.close,.freeaddrinfo,.close] := by
    decide
  refine ⟨_,shortRecord,rfl,rfl,hops,fun h => ?_⟩
  rw [hops] at h
  exact absurd h.socket (by decide)

end SipfClient.Xmodem
