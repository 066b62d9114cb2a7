import SipfClient.CredentialLaws
set_option autoImplicit false

namespace SipfClient.Auth
open ByteMem HexText CText Http File

variable (base64Encode : Encoder) (cfg : AuthConfig) (s : AuthState) (net : NetOutcome)

/-- After a failure the buffers are as before the call, and the header is built from them as
it would have been before. -/
def Kept : Prop :=
  (s.request cfg net).ret < 0 →
    (s.request cfg net).userName = s.userName ∧ (s.request cfg net).password = s.password ∧
    sipfClientHttpSetAuthInfo base64Encode (s.request cfg net).userName (s.request cfg net).password
      s.reqAuthHeader =
    sipfClientHttpSetAuthInfo base64Encode s.userName s.password s.reqAuthHeader

/-- A text that is too long has gone into its buffer, or has come after one that fits, and
a buffer that was written to had something else in it. -/
def Overwrites (n : Nat) (body : Mem) : Prop :=
  ∃ i, firstNewline n body = some i ∧
    ((cString (cutNewlines n body) 0 szUserName.toNat).length = szUserName.toNat ∧
      s.userName.read 0 szUserName.toNat ≠ strncpy (cutNewlines n body) szUserName.toNat ∨
    (cString (cutNewlines n body) 0 szUserName.toNat).length < szUserName.toNat ∧
      (cString (cutNewlines n body) (i + 1) szUserName.toNat).length = szUserName.toNat ∧
      (s.userName.read 0 szUserName.toNat ≠ strncpy (cutNewlines n body) szUserName.toNat ∨
        s.password.read 0 szUserName.toNat ≠
          strncpy ((cutNewlines n body).shift (i + 1)) szUserName.toNat))

theorem kept_outcome {o : Int × Mem × Mem} (h : (s.request cfg net).outcome = o) :
    Kept base64Encode cfg s net ↔ (o.1 < 0 → o.2.1 = s.userName ∧ o.2.2 = s.password) := by
  subst h
  refine forall_congr' fun hneg => ⟨fun hkept => ⟨hkept.1,hkept.2.1⟩,fun hsame => ?_⟩
  have hname : (s.request cfg net).userName = s.userName := hsame.1
  have hpass : (s.request cfg net).password = s.password := hsame.2
  exact ⟨hname,hpass,by rw [hname,hpass]⟩

theorem takeFields_keeps_iff (n : Nat) (body : Mem) :
    ((takeFields s.userName szUserName s.password szUserName n body).1 < 0 →
      (takeFields s.userName szUserName s.password szUserName n body).2.1 = s.userName ∧
      (takeFields s.userName szUserName s.password szUserName n body).2.2 = s.password) ↔
    ¬ Overwrites s n body := by
  cases hfirst : firstNewline n body with
  | none => simp [takeFields,Overwrites,hfirst]
  | some i =>
    have hu := cString_length_le (cutNewlines n body) 0 szUserName.toNat
    have hp := cString_length_le (cutNewlines n body) (i + 1) szUserName.toNat
    by_cases hfitu : (cString (cutNewlines n body) 0 szUserName.toNat).length < szUserName.toNat
    · by_cases hfitp :
          (cString (cutNewlines n body) (i + 1) szUserName.toNat).length < szUserName.toNat
      · simp [takeFields,Overwrites,hfirst,hfitu,hfitp,hfitu.ne,hfitp.ne]
      · have hfull : (cString (cutNewlines n body) (i + 1) szUserName.toNat).length =
            szUserName.toNat := by omega
        simp [takeFields,Overwrites,hfirst,hfitu,hfull,hfitu.ne,storeField_same_iff]
    · have hfull : (cString (cutNewlines n body) 0 szUserName.toNat).length = szUserName.toNat := by
        omega
      simp [takeFields,Overwrites,hfirst,hfull,storeField_same_iff]

theorem credentials_kept_iff : Kept base64Encode cfg s net ↔
    ¬ (StatusOk cfg s.httpRes net ∧
      Overwrites s (runGetSessionKeyHttpRequest cfg s.httpRes net).httpRes.contentLength
        (net.client.bodyOf (runGetSessionKeyHttpRequest cfg s.httpRes net).httpRes)) := by
  by_cases hok : StatusOk cfg s.httpRes net
  · rw [kept_outcome base64Encode cfg s net (request_ok cfg _ _ hok (by decide) (by decide)),
      takeFields_keeps_iff,and_iff_right hok]
  · obtain ⟨ret,-,hout⟩ := @request_failed cfg s.userName szUserName s.password szUserName
      s.httpRes net hok
    rw [kept_outcome base64Encode cfg s net hout]
    exact ⟨fun _ h => hok h.1,fun _ _ => ⟨rfl,rfl⟩⟩

/-- What the loop of `main` keeps after a request that failed, if the buffers are kept: the
credentials, and the header they give. -/
theorem attempt_keeps (hkept : Kept base64Encode cfg s net) {a : Attempt} {s' : AuthState}
    (hattempt : authAttempt base64Encode cfg s net = .ok (a, s')) (hneg : a.request < 0) :
    s'.userName = s.userName ∧ s'.password = s.password ∧
    ∃ h, sipfClientHttpSetAuthInfo base64Encode s.userName s.password s.reqAuthHeader = .ok h ∧
      s'.reqAuthHeader = h.reqAuthHeader := by
  simp only [authAttempt,bind,Except.bind] at hattempt
  cases hset : sipfClientHttpSetAuthInfo base64Encode (s.request cfg net).userName
      (s.request cfg net).password s.reqAuthHeader with
  | error e => simp [hset] at hattempt
  | ok h =>
    simp only [hset] at hattempt
    cases hattempt
    obtain ⟨hname,hpass,hheader⟩ := hkept hneg
    exact ⟨hname,hpass,h,hheader.symm.trans hset,rfl⟩

def joined (user pass : List UInt8) : List UInt8 := user ++ 0x3a :: pass

def Safe (user pass : List UInt8) (reqAuthHeader : Mem) (r : Except OutOfBounds HeaderSet) : Prop :=
  ∃ h, r = .ok h ∧ (h.ret = -1 ∧ h.reqAuthHeader = reqAuthHeader ∨
    h.ret = (authHeader (Base64.encode (joined user pass))).length ∧
    h.reqAuthHeader = reqAuthHeader.copy 0 (authHeader (Base64.encode (joined user pass)) ++ [0]))

section Header

variable {base64Encode} {userName passwd : Mem} {user pass : List UInt8}
  (hu : strIn szUserName.toNat userName 0 = .ok user)
  (hp : strIn szUserName.toNat passwd 0 = .ok pass)
include hu hp

theorem setAuthInfo_overflows (h : 126 < user.length + pass.length) (reqAuthHeader : Mem) :
    sipfClientHttpSetAuthInfo base64Encode userName passwd reqAuthHeader =
      .error ⟨0, user.length + pass.length + 2, tmpSz⟩ := by
  have hlen : (user ++ 0x3a :: pass ++ [0]).length = user.length + pass.length + 2 := by
    simp only [List.length_append,List.length_cons,List.length_nil]
    omega
  have hstore : Mem.store tmpSz Mem.zero 0 (user ++ 0x3a :: pass ++ [0]) =
      .error ⟨0, (user ++ 0x3a :: pass ++ [0]).length, tmpSz⟩ :=
    Mem.store_error (by rw [hlen,tmpSz]; omega)
  simp only [sipfClientHttpSetAuthInfo,hu,hp,bind,Except.bind,hstore,hlen]

theorem setAuthInfo_fits (henc : Encodes base64Encode) (h : user.length + pass.length ≤ 126)
    (reqAuthHeader : Mem) :
    sipfClientHttpSetAuthInfo base64Encode userName passwd reqAuthHeader =
      .ok (if user.length + pass.length ≤ 92 then
        ⟨(authHeader (Base64.encode (joined user pass))).length,
          reqAuthHeader.copy 0 (authHeader (Base64.encode (joined user pass)) ++ [0])⟩
      else ⟨-1, reqAuthHeader⟩) := by
  have hlen : (user ++ 0x3a :: pass ++ [0]).length = user.length + pass.length + 2 := by
    simp only [List.length_append,List.length_cons,List.length_nil]
    omega
  have hdigits : (Base64.encode (user ++ 0x3a :: pass)).length =
      4 * ((user.length + pass.length + 3) / 3) := by
    rw [Base64.encode_length,List.length_append,List.length_cons]
    omega
  have hstore : Mem.store tmpSz Mem.zero 0 (user ++ 0x3a :: pass ++ [0]) =
      .ok (Mem.zero.copy 0 (user ++ 0x3a :: pass ++ [0])) :=
    Mem.store_ok (by rw [hlen,tmpSz]; omega)
  by_cases hfit : user.length + pass.length ≤ 92
  · have hshort : (Base64.encode (user ++ 0x3a :: pass)).length < tmpSz := by
      rw [hdigits,tmpSz]
      omega
    have hheader : (authHeader (Base64.encode (user ++ 0x3a :: pass)) ++ [0]).length =
        (Base64.encode (user ++ 0x3a :: pass)).length + 24 := by
      simp only [authHeader,List.length_append,ascii_length]
      simp [crlf]
      omega
    have hencoded : Mem.store tmpSz Mem.zero 0 (Base64.encode (user ++ 0x3a :: pass) ++ [0]) =
        .ok (Mem.zero.copy 0 (Base64.encode (user ++ 0x3a :: pass) ++ [0])) :=
      Mem.store_ok (by rw [List.length_append,List.length_singleton]; omega)
    have hset : Mem.store reqAuthHeaderSz reqAuthHeader 0
          (authHeader (Base64.encode (user ++ 0x3a :: pass)) ++ [0]) =
        .ok (reqAuthHeader.copy 0 (authHeader (Base64.encode (user ++ 0x3a :: pass)) ++ [0])) :=
      Mem.store_ok (by
        rw [hheader,reqAuthHeaderSz]
        simp only [tmpSz] at hshort
        omega)
    simp only [sipfClientHttpSetAuthInfo,hu,hp,bind,Except.bind,hstore,henc.fits _ _ hshort,hencoded,
      hset,if_pos hfit,joined]
    rfl
  · have hlong : tmpSz ≤ (Base64.encode (user ++ 0x3a :: pass)).length := by
      rw [hdigits,tmpSz]
      omega
    simp only [sipfClientHttpSetAuthInfo,hu,hp,bind,Except.bind,hstore,henc.fails _ _ hlong,
      if_neg hfit]
    rfl

theorem setAuthInfo_safe_iff (henc : Encodes base64Encode) (reqAuthHeader : Mem) :
    Safe user pass reqAuthHeader (sipfClientHttpSetAuthInfo base64Encode userName passwd reqAuthHeader) ↔
      user.length + pass.length ≤ 126 := by
  constructor
  · rintro ⟨h,hok,-⟩
    by_contra hlong
    rw [setAuthInfo_overflows hu hp (by omega)] at hok
    cases hok
  · intro hfit
    refine ⟨_,setAuthInfo_fits hu hp henc hfit reqAuthHeader,?_⟩
    split
    · exact .inr ⟨rfl,rfl⟩
    · exact .inl ⟨rfl,rfl⟩

end Header

theorem takeFields_accepts {userName password : Mem} {sz sz' : UInt8} {n : Nat} {body : Mem}
    (h : (takeFields userName sz password sz' n body).1 = 0) : ∃ user pass,
      strIn sz.toNat (takeFields userName sz password sz' n body).2.1 0 = .ok user ∧
      strIn sz'.toNat (takeFields userName sz password sz' n body).2.2 0 = .ok pass := by
  cases hfirst : firstNewline n body with
  | none => simp [takeFields,hfirst] at h
  | some i =>
    simp only [takeFields,hfirst] at h ⊢
    split_ifs at h ⊢ with hu hp
    · rw [← cString_shift] at hp
      exact ⟨_,_,storeField_string hu,storeField_string hp⟩
    · exact absurd h (by simp)
    · exact absurd h (by simp)

theorem request_accepts (hok : (s.request cfg net).ret = 0) : ∃ user pass,
    strIn szUserName.toNat (s.request cfg net).userName 0 = .ok user ∧
    strIn szUserName.toNat (s.request cfg net).password 0 = .ok pass := by
  by_cases hstatus : StatusOk cfg s.httpRes net
  · have hout := @request_ok cfg s.userName szUserName s.password szUserName _ net hstatus
      (by decide) (by decide)
    obtain ⟨hret,hbuffers⟩ := Prod.mk.inj hout
    obtain ⟨hname,hpass⟩ := Prod.mk.inj hbuffers
    obtain ⟨user,pass,hu,hp⟩ := takeFields_accepts (hret.symm.trans hok)
    exact ⟨user,pass,hname ▸ hu,hpass ▸ hp⟩
  · obtain ⟨ret,hneg,hout⟩ := @request_failed cfg s.userName szUserName s.password szUserName _ net
      hstatus
    have hret : (s.request cfg net).ret = ret := congrArg Prod.fst hout
    omega

theorem auth_header_safe_iff (henc : Encodes base64Encode) (hok : (s.request cfg net).ret = 0) :
    ∃ user pass, strIn szUserName.toNat (s.request cfg net).userName 0 = .ok user ∧
      strIn szUserName.toNat (s.request cfg net).password 0 = .ok pass ∧
      (Safe user pass s.reqAuthHeader (sipfClientHttpSetAuthInfo base64Encode
        (s.request cfg net).userName (s.request cfg net).password s.reqAuthHeader) ↔
      user.length + pass.length ≤ 126) := by
  obtain ⟨user,pass,hu,hp⟩ := request_accepts cfg s net hok
  exact ⟨user,pass,hu,hp,setAuthInfo_safe_iff hu hp henc s.reqAuthHeader⟩

theorem request_lines {user pass : List UInt8} (hu : 0x0a ∉ user) (hp : 0x0a ∉ pass)
    {r : HttpResponse} (hstatus : r.httpStatus = "OK")
    (hlen : r.contentLength = (credentialBody user pass).length)
    (hrec : Received cfg r (credentialBody user pass) net) :
    (s.request cfg net).outcome =
      takeTexts s.userName szUserName s.password szUserName user pass := by
  have htwo : TwoFields (credentialBody user pass) user pass := ⟨⟨[],rfl⟩,hu,hp⟩
  obtain ⟨hnl,huser,hpass⟩ := htwo.texts
  have hout : (s.request cfg net).outcome = takeTexts s.userName szUserName s.password szUserName
      (firstField (credentialBody user pass)) (firstField (behindFirst (credentialBody user pass))) :=
    received_texts (by decide) (by decide) hstatus hlen hrec (by simp [credentialBody])
      fun _ => .inl hnl
  rw [hout,huser,hpass]

theorem texts_accepted {user pass : List UInt8} (hu : user.length ≤ 254) (hp : pass.length ≤ 254)
    (hcleanu : 0 ∉ user ∧ 0x0a ∉ user) (hcleanp : 0 ∉ pass ∧ 0x0a ∉ pass) {r : HttpResponse}
    (hstatus : r.httpStatus = "OK") (hlen : r.contentLength = (credentialBody user pass).length)
    (hrec : Received cfg r (credentialBody user pass) net) : (s.request cfg net).ret = 0 ∧
      strIn szUserName.toNat (s.request cfg net).userName 0 = .ok user ∧
      strIn szUserName.toNat (s.request cfg net).password 0 = .ok pass := by
  have hfits : ∀ t : List UInt8, t.length ≤ 254 → Fits szUserName t := fun t ht => by
    have hle := (List.takeWhile_sublist (l := t) fun c => decide (c ≠ 0)).length_le
    have hsz : szUserName.toNat = 255 := rfl
    simp only [Fits,copied,List.length_take,hsz]
    omega
  have hout := request_lines cfg s net hcleanu.2 hcleanp.2 hstatus hlen hrec
  rw [takeTexts_fit _ _ (hfits user hu) (hfits pass hp)] at hout
  obtain ⟨hret,hbuffers⟩ := Prod.mk.inj hout
  obtain ⟨hname,hword⟩ := Prod.mk.inj hbuffers
  refine ⟨hret,?_,?_⟩
  · rw [hname,stored_text (hfits user hu),copied_clean hcleanu.1 (hfits user hu)]
  · rw [hword,stored_text (hfits pass hp),copied_clean hcleanp.1 (hfits pass hp)]

def encoder : Encoder := fun dlen src =>
  if (Base64.encode src).length < dlen then some (Base64.encode src) else none

theorem encoder_encodes : Encodes encoder :=
  ⟨fun _ _ h => if_pos h,fun _ _ h => if_neg (not_lt.2 h)⟩

def answer (user pass : List UInt8) : NetOutcome :=
  clearedBehind (okCredentials (credentialBody user pass)) (credentialBody user pass)

def booted : AuthState := ⟨Mem.zero, Mem.zero, Mem.zero, .zero⟩

theorem answer_received (user pass : List UInt8) : Received defaultAuth
    (okCredentials (credentialBody user pass)) (credentialBody user pass) (answer user pass) :=
  clearedBehind_received _ _ _

theorem auth_header_safe_short : ∃ user pass,
    strIn szUserName.toNat (booted.request defaultAuth (answer [0x6d] [0x70])).userName 0 = .ok user ∧
    strIn szUserName.toNat (booted.request defaultAuth (answer [0x6d] [0x70])).password 0 = .ok pass ∧
    (Safe user pass booted.reqAuthHeader (sipfClientHttpSetAuthInfo encoder
      (booted.request defaultAuth (answer [0x6d] [0x70])).userName
      (booted.request defaultAuth (answer [0x6d] [0x70])).password booted.reqAuthHeader) ↔
    user.length + pass.length ≤ 126) :=
  auth_header_safe_iff encoder defaultAuth booted (answer [0x6d] [0x70]) encoder_encodes
    (texts_accepted defaultAuth booted _ (by decide) (by decide) (by decide) (by decide) rfl rfl
      (answer_received [0x6d] [0x70])).1

def name64 : List UInt8 := List.replicate 64 0x41

def word63 : List UInt8 := List.replicate 63 0x42

/-- 64 and 63 bytes are accepted, and 129 are written to the first work buffer. -/
theorem accepted_header_overflows :
    (booted.request defaultAuth (answer name64 word63)).ret = 0 ∧
    sipfClientHttpSetAuthInfo encoder (booted.request defaultAuth (answer name64 word63)).userName
      (booted.request defaultAuth (answer name64 word63)).password booted.reqAuthHeader =
      .error ⟨0, 129, 128⟩ ∧
    ¬ Safe name64 word63 booted.reqAuthHeader (sipfClientHttpSetAuthInfo encoder
      (booted.request defaultAuth (answer name64 word63)).userName
      (booted.request defaultAuth (answer name64 word63)).password booted.reqAuthHeader) := by
  obtain ⟨hret,hu,hp⟩ := @texts_accepted defaultAuth booted _ name64 word63 (by decide) (by decide)
    (by decide) (by decide) _ rfl rfl (answer_received name64 word63)
  have hover := @setAuthInfo_overflows encoder _ _ _ _ hu hp (by decide) booted.reqAuthHeader
  refine ⟨hret,hover,?_⟩
  rintro ⟨h,hok,-⟩
  rw [hover] at hok
  cases hok

/-- A name of 255 bytes is refused after it has gone over the one before. -/
theorem refused_name_stays :
    (booted.request defaultAuth (answer (List.replicate 255 0x41) [0x70])).ret = -1 ∧
    ¬ Kept encoder defaultAuth booted (answer (List.replicate 255 0x41) [0x70]) := by
  have hout := request_lines defaultAuth booted _ (by decide) (by decide) rfl rfl
    (answer_received (List.replicate 255 0x41) [0x70])
  have hlong : ¬ Fits szUserName (List.replicate 255 0x41) := by decide +kernel
  rw [takeTexts,if_neg hlong] at hout
  obtain ⟨hret,hbuffers⟩ := Prod.mk.inj hout
  refine ⟨hret,fun hkept => ?_⟩
  have hname := (hkept (by rw [hret]; decide)).1
  rw [(Prod.mk.inj hbuffers).1] at hname
  exact absurd (congrFun hname 0) (by decide +kernel)

end SipfClient.Auth
