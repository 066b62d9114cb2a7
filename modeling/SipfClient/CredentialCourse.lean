import SipfClient.AuthHeaderLaws
import SipfClient.Runs
set_option autoImplicit false

/-!
The Authorization header over all authentications since boot. The loop at boot sets it after
its first success only, the loop of `main` after every request. Whatever comes in between,
a server reads the last credentials in it that were granted and have had room.
-/

namespace SipfClient.Auth
open ByteMem HexText CText Http File Runs

def authScheme : List UInt8 := ascii "Authorization: BASIC "

/-- What a server makes of the header: a user name up to the first colon, and a password. -/
def readHeader (header : List UInt8) : Option (List UInt8 × List UInt8) :=
  if header.take authScheme.length = authScheme then do
    let text ← Base64.decode ((header.drop authScheme.length).takeWhile (· ≠ 0x0d))
    if 0x3a ∈ text then some (text.takeWhile (· ≠ 0x3a), (text.dropWhile (· ≠ 0x3a)).tail) else none
  else none

def AuthState.getAuthInfo (s : AuthState) : List UInt8 := cString s.reqAuthHeader 0 reqAuthHeaderSz

structure LoginState where
  ready : Bool
  auth : AuthState

def LoginState.boot : LoginState := ⟨false, ⟨Mem.zero, Mem.zero, Mem.zero, .zero⟩⟩

/-- One authentication: of the loop at boot, which goes on as long as it fails, or of the loop
of `main` behind it. -/
def LoginState.step (base64Encode : Encoder) (cfg : AuthConfig) (s : LoginState) (net : NetOutcome) :
    Option LoginState :=
  let a := s.auth.request cfg net
  if s.ready = false ∧ a.ret < 0 then
    some ⟨false, ⟨a.userName, a.password, s.auth.reqAuthHeader, a.httpRes⟩⟩
  else
    match authAttempt base64Encode cfg s.auth net with
    | .ok (_, auth) => some ⟨true, auth⟩
    | .error _ => none

/-- Two lines a body can grant, with room for both, a colon and a NUL in the work buffer. -/
structure Credentials where
  user : List UInt8
  pass : List UInt8
  userLine : 0 ∉ user ∧ 0x0a ∉ user
  passLine : 0 ∉ pass ∧ 0x0a ∉ pass
  room : user.length + pass.length ≤ 126

def Credentials.Short (c : Credentials) : Prop := c.user.length + c.pass.length ≤ 92

instance (c : Credentials) : Decidable c.Short := inferInstanceAs (Decidable (_ ≤ 92))

def Credentials.header (c : Credentials) : List UInt8 :=
  authHeader (Base64.encode (joined c.user c.pass))

/-- What an exchange comes to: credentials, a body without a line, or no "200 OK", whatever
record an earlier exchange has left. -/
inductive Told (cfg : AuthConfig) : NetOutcome → Option Credentials → Prop
  | granted {net : NetOutcome} {r : HttpResponse} (c : Credentials) (status : r.httpStatus = "OK")
      (length : r.contentLength = (credentialBody c.user c.pass).length)
      (received : Received cfg r (credentialBody c.user c.pass) net) : Told cfg net (some c)
  | lineless {net : NetOutcome} {r : HttpResponse} {body : List UInt8} (status : r.httpStatus = "OK")
      (length : r.contentLength = body.length) (received : Received cfg r body net)
      (line : 0x0a ∉ body) : Told cfg net none
  | refused {net : NetOutcome} (h : ∀ httpRes, ¬ StatusOk cfg httpRes net) : Told cfg net none

def lastShort (cs : List Credentials) : Option Credentials :=
  (cs.filter fun c => decide c.Short).getLast?

theorem lastShort_snoc (cs : List Credentials) (c : Credentials) :
    lastShort (cs ++ [c]) = if c.Short then some c else lastShort cs := by
  by_cases hc : c.Short
  · simp [lastShort,hc]
  · simp [lastShort,hc]

section Reading

theorem digit_plain (n : Nat) : Base64.digit n ≠ 0 ∧ Base64.digit n ≠ 0x0d := by
  have hall : ∀ k : Fin 64, Base64.digit k ≠ 0 ∧ Base64.digit k ≠ 0x0d := by decide +kernel
  have hk := hall ⟨n % 64,Nat.mod_lt _ (by decide)⟩
  rwa [Base64.digit_mod] at hk

theorem encode_plain (bs : List UInt8) : ∀ d ∈ Base64.encode bs, d ≠ 0 ∧ d ≠ 0x0d := by
  have hpad : Base64.pad ≠ 0 ∧ Base64.pad ≠ 0x0d := by decide
  induction bs using Base64.encode.induct with
  | case1 => simp [Base64.encode]
  | case2 a => simp [Base64.encode,digit_plain,hpad]
  | case3 a b => simp [Base64.encode,digit_plain,hpad]
  | case4 a b c rest ih =>
    intro d hd
    rw [Base64.encode,List.mem_append] at hd
    rcases hd with hd | hd
    · simp only [List.mem_cons,List.not_mem_nil,or_false] at hd
      rcases hd with rfl | rfl | rfl | rfl <;> exact digit_plain _
    · exact ih d hd

theorem header_take (digits : List UInt8) :
    (authHeader digits).take authScheme.length = authScheme := by
  rw [authHeader,List.append_assoc]
  exact List.take_left' rfl

theorem header_digits {digits : List UInt8} (h : ∀ d ∈ digits, d ≠ 0 ∧ d ≠ 0x0d) :
    ((authHeader digits).drop authScheme.length).takeWhile (· ≠ 0x0d) = digits := by
  have hdrop : (authHeader digits).drop authScheme.length = digits ++ crlf := by
    rw [authHeader,List.append_assoc]
    exact List.drop_left' rfl
  rw [hdrop,crlf,takeWhile_before (by decide),takeWhile_ne fun hm => (h _ hm).2 rfl]

theorem readHeader_iff (user pass : List UInt8) :
    readHeader (authHeader (Base64.encode (joined user pass))) = some (user, pass) ↔ 0x3a ∉ user := by
  have hcolon : 0x3a ∈ joined user pass := by simp [joined]
  rw [readHeader,if_pos (header_take _),header_digits (encode_plain _),Base64.decode_encode]
  simp only [bind,Option.bind_some,if_pos hcolon,Option.some.injEq,Prod.mk.injEq]
  constructor
  · rintro ⟨huser,-⟩ hmem
    rw [← huser] at hmem
    simpa using List.mem_takeWhile_imp hmem
  · intro hno
    have htake : (joined user pass).takeWhile (· ≠ 0x3a) = user := by
      rw [joined,takeWhile_before (by decide),takeWhile_ne hno]
    refine ⟨htake,?_⟩
    have hsplit := List.takeWhile_append_dropWhile (p := fun b : UInt8 => decide (b ≠ 0x3a))
      (l := joined user pass)
    rw [htake] at hsplit
    rw [List.append_cancel_left hsplit,List.tail_cons]

end Reading

section Setting

variable {base64Encode : Encoder} {cfg : AuthConfig} {s : LoginState} {net : NetOutcome}

theorem header_length (c : Credentials) (h : c.Short) : c.header.length < reqAuthHeaderSz := by
  have hshort : c.user.length + c.pass.length ≤ 92 := h
  simp only [Credentials.header,authHeader,List.length_append,Base64.encode_length,joined,
    List.length_cons,ascii_length,reqAuthHeaderSz]
  simp [crlf]
  omega

theorem header_text (c : Credentials) (h : c.Short) (m : Mem) :
    cString (m.copy 0 (c.header ++ [0])) 0 reqAuthHeaderSz = c.header := by
  have hread : (m.copy 0 (c.header ++ [0])).read 0 (c.header ++ [0]).length = c.header ++ [0] :=
    Mem.read_copy m 0 _
  rw [List.length_append,List.length_singleton,Mem.read_add,Nat.zero_add] at hread
  obtain ⟨htext,hend⟩ := List.append_inj hread (Mem.read_length _ _ _)
  have hscheme : (ascii "Authorization: BASIC ").all (· ≠ 0) := by decide +kernel
  refine cString_eq ?_ htext ?_ (header_length c h)
  · intro b hb
    rcases List.mem_append.1 hb with hb | hb
    · rcases List.mem_append.1 hb with hb | hb
      · simpa using List.all_eq_true.1 hscheme b hb
      · exact (encode_plain _ b hb).1
    · rcases List.mem_cons.1 hb with rfl | hb
      · decide
      · cases List.mem_singleton.1 hb
        decide
  · rw [Nat.zero_add]
    exact (List.cons.inj hend).1

structure Speaks (cs : List Credentials) (s : LoginState) : Prop where
  ready : s.ready = true ↔ cs ≠ []
  held : ∀ c, cs.getLast? = some c → strIn szUserName.toNat s.auth.userName 0 = .ok c.user ∧
    strIn szUserName.toNat s.auth.password 0 = .ok c.pass
  header : s.auth.getAuthInfo = (lastShort cs).elim [] Credentials.header

theorem attempt_sets (henc : Encodes base64Encode) {c : Credentials}
    (hu : strIn szUserName.toNat (s.auth.request cfg net).userName 0 = .ok c.user)
    (hp : strIn szUserName.toNat (s.auth.request cfg net).password 0 = .ok c.pass) :
    ∃ a auth, authAttempt base64Encode cfg s.auth net = .ok (a, auth) ∧
      auth.userName = (s.auth.request cfg net).userName ∧
      auth.password = (s.auth.request cfg net).password ∧
      auth.getAuthInfo = if c.Short then c.header else s.auth.getAuthInfo := by
  have hset := setAuthInfo_fits hu hp henc c.room s.auth.reqAuthHeader
  simp only [authAttempt,hset,bind,Except.bind]
  refine ⟨_,_,rfl,rfl,rfl,?_⟩
  by_cases hc : c.Short
  · have hle : c.user.length + c.pass.length ≤ 92 := hc
    rw [if_pos hc]
    simp only [AuthState.getAuthInfo,if_pos hle]
    exact header_text c hc s.auth.reqAuthHeader
  · have hle : ¬ c.user.length + c.pass.length ≤ 92 := hc
    rw [if_neg hc]
    simp only [AuthState.getAuthInfo,if_neg hle]

end Setting

section Course

variable {base64Encode : Encoder} {cfg : AuthConfig} {s : LoginState} {net : NetOutcome}
  {cs : List Credentials}

theorem speaks_boot : Speaks [] LoginState.boot :=
  ⟨by simp [LoginState.boot],by simp,rfl⟩

theorem granted_speaks (henc : Encodes base64Encode) (h : Speaks cs s) {c : Credentials}
    (htold : Told cfg net (some c)) :
    ∃ s', s.step base64Encode cfg net = some s' ∧ Speaks (cs ++ [c]) s' := by
  cases htold with
  | granted _ status length received =>
    have hroom := c.room
    obtain ⟨hret,hu,hp⟩ := texts_accepted cfg s.auth net (by omega) (by omega) c.userLine c.passLine
      status length received
    obtain ⟨a,auth,hattempt,hname,hpass,hheader⟩ := attempt_sets henc hu hp
    have hgo : ¬ (s.ready = false ∧ (s.auth.request cfg net).ret < 0) := fun hn => by
      have hneg := hn.2
      omega
    refine ⟨⟨true, auth⟩,?_,⟨by simp,?_,?_⟩⟩
    · simp only [LoginState.step,if_neg hgo,hattempt]
    · intro c' hc'
      rw [List.getLast?_concat] at hc'
      cases hc'
      exact ⟨hname ▸ hu,hpass ▸ hp⟩
    · rw [hheader,lastShort_snoc,h.header]
      split_ifs <;> rfl

theorem untold_keeps (auth : AuthState) (h : Told cfg net none) : (auth.request cfg net).ret < 0 ∧
    (auth.request cfg net).userName = auth.userName ∧
    (auth.request cfg net).password = auth.password := by
  have hkeeps : ∀ {ret : Int}, ret < 0 →
      (auth.request cfg net).outcome = (ret, auth.userName, auth.password) →
      (auth.request cfg net).ret < 0 ∧ (auth.request cfg net).userName = auth.userName ∧
        (auth.request cfg net).password = auth.password := by
    intro ret hneg hout
    obtain ⟨hret,hbuffers⟩ := Prod.mk.inj hout
    obtain ⟨hname,hpass⟩ := Prod.mk.inj hbuffers
    exact ⟨hret ▸ hneg,hname,hpass⟩
  cases h with
  | lineless status length received line =>
    exact hkeeps (by decide) (received_none (by decide) (by decide) status length received line)
  | refused hno =>
    obtain ⟨ret,hneg,hout⟩ := @request_failed cfg auth.userName szUserName auth.password szUserName
      auth.httpRes net (hno auth.httpRes)
    exact hkeeps hneg hout

theorem untold_speaks (henc : Encodes base64Encode) (h : Speaks cs s) (htold : Told cfg net none) :
    ∃ s', s.step base64Encode cfg net = some s' ∧ Speaks cs s' := by
  obtain ⟨hneg,hname,hpass⟩ := untold_keeps s.auth htold
  cases hlast : cs.getLast? with
  | none =>
    -- still at boot: the header is left alone
    have hnil := List.getLast?_eq_none_iff.1 hlast
    have hready : s.ready = false := by
      rw [← Bool.not_eq_true,h.ready]
      exact not_not.2 hnil
    exact ⟨⟨false, ⟨(s.auth.request cfg net).userName, (s.auth.request cfg net).password,
      s.auth.reqAuthHeader, (s.auth.request cfg net).httpRes⟩⟩,if_pos ⟨hready,hneg⟩,
      ⟨by simp [hnil],by simp [hnil],h.header⟩⟩
  | some c =>
    have hready : s.ready = true := h.ready.2 fun hnil => by simp [hnil] at hlast
    obtain ⟨hu,hp⟩ := h.held c hlast
    obtain ⟨a,auth,hattempt,hname',hpass',hheader⟩ :=
      @attempt_sets base64Encode cfg s net henc c (hname ▸ hu) (hpass ▸ hp)
    have hgo : ¬ (s.ready = false ∧ (s.auth.request cfg net).ret < 0) := fun hn => by
      rw [hready] at hn
      exact absurd hn.1 (by decide)
    refine ⟨⟨true, auth⟩,?_,⟨by simp [← h.ready,hready],?_,?_⟩⟩
    · simp only [LoginState.step,if_neg hgo,hattempt]
    · intro c' hc'
      rw [hlast] at hc'
      cases hc'
      exact ⟨by rw [hname',hname]; exact hu,by rw [hpass',hpass]; exact hp⟩
    · obtain ⟨front,rfl⟩ : ∃ front, cs = front ++ [c] := by
        obtain ⟨front,hfront⟩ := List.getLast?_eq_some_iff.1 hlast
        exact ⟨front,hfront⟩
      rw [hheader,h.header,lastShort_snoc]
      split_ifs <;> rfl

theorem told_speaks (henc : Encodes base64Encode) {nets : List NetOutcome}
    {told : List (Option Credentials)} (h : List.Forall₂ (Told cfg) nets told) (hs : Speaks cs s) :
    ∃ s', run (LoginState.step base64Encode cfg) s nets = some s' ∧
      Speaks (cs ++ told.reduceOption) s' := by
  induction h generalizing cs s with
  | nil => exact ⟨s,rfl,by simpa using hs⟩
  | @cons net told nets rest htold _ ih =>
    cases told with
    | none =>
      obtain ⟨s',hstep,hs'⟩ := untold_speaks henc hs htold
      obtain ⟨s'',hrun,hs''⟩ := ih hs'
      exact ⟨s'',by rw [run,hstep]; exact hrun,by simpa using hs''⟩
    | some c =>
      obtain ⟨s',hstep,hs'⟩ := granted_speaks henc hs htold
      obtain ⟨s'',hrun,hs''⟩ := ih hs'
      exact ⟨s'',by rw [run,hstep]; exact hrun,by simpa using hs''⟩

/-- Over every course of such grants and failures from boot on: none of them writes outside a
buffer, the device is ready from the first grant on, and the header is empty or that of the last
grant that was short, from which its name and password are read exactly if the name has no colon. -/
theorem header_speaks_last (henc : Encodes base64Encode) {nets : List NetOutcome}
    {told : List (Option Credentials)} (h : List.Forall₂ (Told cfg) nets told) :
    ∃ s, run (LoginState.step base64Encode cfg) .boot nets = some s ∧
      (s.ready = true ↔ told.reduceOption ≠ []) ∧
      s.auth.getAuthInfo = (lastShort told.reduceOption).elim [] Credentials.header ∧
      ∀ c, lastShort told.reduceOption = some c →
        (readHeader s.auth.getAuthInfo = some (c.user, c.pass) ↔ 0x3a ∉ c.user) := by
  obtain ⟨s,hrun,hs⟩ := told_speaks henc h speaks_boot
  rw [List.nil_append] at hs
  refine ⟨s,hrun,hs.ready,hs.header,fun c hc => ?_⟩
  rw [hs.header,hc]
  exact readHeader_iff c.user c.pass

end Course

def unresolved : NetOutcome := ⟨-2, 0, 0, 0, 2, ⟨0, [], Mem.zero⟩⟩

theorem unresolved_told (cfg : AuthConfig) : Told cfg unresolved none := by
  refine .refused fun httpRes h => ?_
  have hret : (runGetSessionKeyHttpRequest cfg httpRes unresolved).ret = -2 := rfl
  have hok := h.1
  rw [hret] at hok
  exact absurd hok (by decide)

def oneLetterEach : Credentials := ⟨[0x6d], [0x70], by decide, by decide, by decide⟩

/-- A failure at boot, a grant, and a failure in the loop of `main`. -/
theorem header_speaks_last_retry : ∃ s,
    run (LoginState.step encoder defaultAuth) .boot [unresolved,answer [0x6d] [0x70],unresolved] =
      some s ∧ s.ready = true ∧ s.auth.getAuthInfo = oneLetterEach.header ∧
    readHeader s.auth.getAuthInfo = some ([0x6d], [0x70]) := by
  have htold : List.Forall₂ (Told defaultAuth) [unresolved,answer [0x6d] [0x70],unresolved]
      [none,some oneLetterEach,none] :=
    .cons (unresolved_told _) (.cons (.granted oneLetterEach rfl rfl (answer_received [0x6d] [0x70]))
      (.cons (unresolved_told _) .nil))
  obtain ⟨s,hrun,hready,hheader,hreads⟩ := header_speaks_last encoder_encodes htold
  exact ⟨s,hrun,hready.2 (by simp),hheader,(hreads oneLetterEach rfl).2 (by decide)⟩

end SipfClient.Auth
