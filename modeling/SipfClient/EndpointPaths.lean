import SipfClient.FileRequests
set_option autoImplicit false

namespace SipfClient.File
open ByteMem HexText CText Http Xmodem

def requestPath (cfg : FileConfig) (fileId : List UInt8) : List UInt8 :=
  cfg.pathHead ++ fileId ++ cfg.pathTail

/-- What `sipfFileRequestURL` makes of `path_endpoint`; `none` is the error before it formats. -/
def requestEndpoint (cfg : FileConfig) (fileId : List UInt8) (pathEndpoint : Mem) :
    Option (Except OutOfBounds Mem) :=
  if pathEndpointSz < (cfg.pathHead.length + 2 + cfg.pathTail.length) + fileId.length then none
  else some (pathEndpoint.store pathEndpointSz 0 (requestPath cfg fileId ++ [0]))

section Checks

variable {cfg : FileConfig} {fileId : List UInt8}

/-- The request goes out exactly if the path was formatted. -/
theorem request_formatted (reqType : ReqUrlType) (pathEndpoint url : Mem) (szUrl : Nat)
    (httpRes : HttpResponse) (net : NetOutcome) :
    (sipfFileRequestURL cfg reqType fileId url szUrl httpRes net).request =
      (requestEndpoint cfg fileId pathEndpoint).map fun _ => urlRequest cfg reqType fileId := by
  simp only [sipfFileRequestURL,requestEndpoint]
  split
  · rfl
  · simp only [Option.map_some]
    split_ifs <;> rfl

/-- The `%s` that the check counts is more than the NUL it forgets. -/
theorem requestEndpoint_fits (h : cfg.pathHead.length + 2 + cfg.pathTail.length + fileId.length ≤ 128)
    (pathEndpoint : Mem) : requestEndpoint cfg fileId pathEndpoint =
      some (.ok (pathEndpoint.copy 0 (requestPath cfg fileId ++ [0]))) := by
  have hlen : (requestPath cfg fileId ++ [0]).length =
      cfg.pathHead.length + cfg.pathTail.length + fileId.length + 1 := by
    simp only [requestPath,List.length_append,List.length_singleton]
    omega
  rw [requestEndpoint,if_neg (by rw [pathEndpointSz]; omega),
    Mem.store_ok (by rw [hlen,pathEndpointSz]; omega)]

theorem completePath_length : (completePath cfg fileId ++ [0]).length =
    cfg.pathHead.length + cfg.pathTail.length + fileId.length + 10 := by
  simp only [completePath,List.length_append,List.length_singleton,ascii_length]
  simp
  omega

theorem complete_overflows (h : cfg.pathHead.length + cfg.pathTail.length ≤ 122)
    (hlong : 118 < cfg.pathHead.length + cfg.pathTail.length + fileId.length)
    (httpRes : HttpResponse) (net : NetOutcome) : sipfFileUploadComplete cfg fileId httpRes net =
      .error ⟨0, cfg.pathHead.length + cfg.pathTail.length + fileId.length + 10, 128⟩ := by
  rw [sipfFileUploadComplete,if_neg (by rw [pathEndpointSz]; omega),
    Mem.store_error (by rw [completePath_length,pathEndpointSz]; omega),completePath_length]
  rfl

theorem complete_formatted_iff (h : cfg.pathHead.length + cfg.pathTail.length ≤ 122)
    (httpRes : HttpResponse) (net : NetOutcome) :
    (∃ r, sipfFileUploadComplete cfg fileId httpRes net = .ok r) ↔
      cfg.pathHead.length + cfg.pathTail.length + fileId.length ≤ 118 := by
  constructor
  · rintro ⟨r,hr⟩
    by_contra hlong
    rw [complete_overflows h (by omega)] at hr
    cases hr
  · intro hfit
    rw [sipfFileUploadComplete,if_neg (by rw [pathEndpointSz]; omega),
      Mem.store_ok (by rw [completePath_length,pathEndpointSz]; omega)]
    exact ⟨_,rfl⟩

theorem complete_sends (h : cfg.pathHead.length + cfg.pathTail.length ≤ 122) {httpRes : HttpResponse}
    {net : NetOutcome} {r : FileReply} (hr : sipfFileUploadComplete cfg fileId httpRes net = .ok r) :
    r.request = some (completeRequest cfg fileId) := by
  rw [sipfFileUploadComplete,if_neg (by rw [pathEndpointSz]; omega)] at hr
  cases hstore : Mem.zero.store pathEndpointSz 0 (completePath cfg fileId ++ [0]) with
  | error e =>
    rw [hstore] at hr
    cases hr
  | ok m =>
    rw [hstore] at hr
    cases hr
    rfl

end Checks

def defaultPath (host authHeader : String) (ssl : Bool) : FileConfig :=
  ⟨ascii "/v1/files/", ascii "/", host, authHeader, ssl⟩

/-- Neither function writes past `path_endpoint`, and what the URL request lets through goes
out in the completion notice too. -/
structure PathsFit (cfg : FileConfig) (fileId : List UInt8) : Prop where
  request : ∀ pathEndpoint, requestEndpoint cfg fileId pathEndpoint = none ∨
    ∃ m, requestEndpoint cfg fileId pathEndpoint = some (.ok m)
  complete : ∀ httpRes net, ∃ r, sipfFileUploadComplete cfg fileId httpRes net = .ok r
  accepted : ∀ url szUrl httpRes net,
    (sipfFileRequestURL cfg .upload fileId url szUrl httpRes net).request ≠ none →
    ∀ httpRes net, ∃ r, sipfFileUploadComplete cfg fileId httpRes net = .ok r ∧
      r.request = some (completeRequest cfg fileId)

theorem paths_fit_iff (host authHeader : String) (ssl : Bool) (fileId : List UInt8) :
    PathsFit (defaultPath host authHeader ssl) fileId ↔ fileId.length ≤ 107 := by
  have hhead : (defaultPath host authHeader ssl).pathHead.length = 10 := rfl
  have htail : (defaultPath host authHeader ssl).pathTail.length = 1 := rfl
  have hcomplete := fun httpRes net => @complete_formatted_iff (defaultPath host authHeader ssl) fileId
    (by omega) httpRes net
  constructor
  · intro hfit
    have hlen := (hcomplete .zero ⟨0, 0, 0, 0, 0, ⟨0, [], Mem.zero⟩⟩).1 (hfit.complete _ _)
    omega
  · intro hlen
    have hok : ∀ httpRes net, ∃ r, sipfFileUploadComplete (defaultPath host authHeader ssl) fileId
        httpRes net = .ok r := fun httpRes net => (hcomplete httpRes net).2 (by omega)
    refine ⟨fun m => .inr ⟨_,requestEndpoint_fits (by omega) m⟩,hok,fun _ _ _ _ _ httpRes net => ?_⟩
    obtain ⟨r,hr⟩ := hok httpRes net
    exact ⟨r,hr,complete_sends (by omega) hr⟩

/-- An id of 108 bytes passes the check of the URL request, and the notice of its upload
writes 129 bytes. -/
theorem long_id_overflows_notice :
    requestEndpoint defaultConfig (List.replicate 108 0x61) Mem.zero ≠ none ∧
    (∀ httpRes net, sipfFileUploadComplete defaultConfig (List.replicate 108 0x61) httpRes net =
      .error ⟨0, 129, 128⟩) ∧
    ¬ PathsFit defaultConfig (List.replicate 108 0x61) := by
  have hover : ∀ httpRes net, sipfFileUploadComplete defaultConfig (List.replicate 108 0x61) httpRes
      net = .error ⟨0, 129, 128⟩ := by
    have hhead : defaultConfig.pathHead.length = 10 := rfl
    have htail : defaultConfig.pathTail.length = 1 := rfl
    intro httpRes net
    rw [complete_overflows (by omega) (by rw [List.length_replicate]; omega),List.length_replicate,
      hhead,htail]
  refine ⟨by rw [requestEndpoint_fits (by decide)]; simp,hover,fun hfit => ?_⟩
  obtain ⟨r,hr⟩ := hfit.complete .zero ⟨0, 0, 0, 0, 0, ⟨0, [], Mem.zero⟩⟩
  rw [hover] at hr
  cases hr

end SipfClient.File
