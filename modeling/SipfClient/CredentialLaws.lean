import SipfClient.Credentials
set_option autoImplicit false

namespace SipfClient.Auth
open ByteMem HexText CText Http File

theorem cString_take {m : Mem} {off n : Nat} {s : List UInt8} (hread : m.read off s.length = s)
    (hend : n ≤ s.length ∨ m (off + s.length) = 0) :
    cString m off n = (s.takeWhile (· ≠ 0)).take n := by
  rw [cString,List.take_takeWhile]
  rcases Nat.lt_or_ge s.length n with hlt | hge
  · obtain ⟨k,rfl⟩ : ∃ k, n = s.length + (k + 1) := ⟨n - s.length - 1, by omega⟩
    have hnul : m (off + s.length) = 0 := hend.resolve_left (by omega)
    rw [Mem.read_add,hread,Mem.read_succ,hnul,List.take_of_length_le (by omega),
      takeWhile_before (by decide)]
  · obtain ⟨k,hk⟩ : ∃ k, s.length = n + k := ⟨s.length - n, by omega⟩
    rw [hk,Mem.read_add] at hread
    rw [← hread,List.take_left' (Mem.read_length _ _ _)]

section Scan

variable {n i : Nat} {body : Mem}

/-- The first `n` bytes with a NUL in the place of every newline. -/
def cutNewlines (n : Nat) (body : Mem) : Mem :=
  fun i => if i < n ∧ body i = 0x0a then 0 else body i

def firstNewline (n : Nat) (body : Mem) : Option Nat := (List.range n).find? fun i => body i = 0x0a

theorem cutNewlines_zero (body : Mem) : cutNewlines 0 body = body := by
  funext i
  simp [cutNewlines]

theorem cutNewlines_succ (n : Nat) (body : Mem) : cutNewlines (n + 1) body =
    if body n = 0x0a then (cutNewlines n body).set n 0 else cutNewlines n body := by
  funext j
  by_cases hj : j = n
  · subst hj
    by_cases hb : body j = 0x0a <;> simp [cutNewlines,hb]
  · have hlt : j < n + 1 ↔ j < n := by omega
    by_cases hb : body n = 0x0a <;> simp [cutNewlines,hb,hlt,Mem.set_other,hj]

theorem firstNewline_succ (n : Nat) (body : Mem) : firstNewline (n + 1) body =
    (firstNewline n body).or (if body n = 0x0a then some n else none) := by
  by_cases hb : body n = 0x0a <;> simp [firstNewline,List.range_succ,hb]

theorem scanBody_eq (n : Nat) (body : Mem) :
    scanBody n body = ⟨cutNewlines n body, (firstNewline n body).map (· + 1)⟩ := by
  induction n with
  | zero => simp [scanBody,firstNewline,cutNewlines_zero]
  | succ n ih =>
    have hstep : scanBody (n + 1) body = scanStep (scanBody n body) n := by
      simp [scanBody,List.range_succ]
    have hkeep : cutNewlines n body n = body n := by simp [cutNewlines]
    rw [hstep,ih,cutNewlines_succ,firstNewline_succ]
    by_cases hb : body n = 0x0a
    · simp only [scanStep,hkeep,if_pos hb]
      cases firstNewline n body <;> rfl
    · simp only [scanStep,hkeep,if_neg hb,Option.or_none]

theorem cut_newline (h : i < n) (hb : body i = 0x0a) : cutNewlines n body i = 0 := by
  simp [cutNewlines,h,hb]

theorem cut_read {off : Nat} {s : List UInt8} (hread : body.read off s.length = s)
    (hs : 0x0a ∉ s) : (cutNewlines n body).read off s.length = s := by
  conv_rhs => rw [← hread]
  refine Mem.read_congr fun i hi => ?_
  have hmem : body (off + i) ∈ s := by
    rw [(Mem.read_eq_iff _ _ _).1 hread i hi]
    exact List.getElem_mem hi
  have hne : body (off + i) ≠ 0x0a := fun h => hs (by rwa [h] at hmem)
  simp [cutNewlines,hne]

theorem firstNewline_none (h : 0x0a ∉ body.read 0 n) : firstNewline n body = none := by
  rw [firstNewline,List.find?_eq_none]
  intro i hi hb
  refine h ?_
  have hlt := List.mem_range.1 hi
  rw [← of_decide_eq_true hb,← Nat.zero_add i,← Mem.read_getElem body 0 n i (by simpa using hlt)]
  exact List.getElem_mem _

theorem firstNewline_at {s : List UInt8} (hread : body.read 0 s.length = s) (hs : 0x0a ∉ s)
    (hlt : s.length < n) (hb : body s.length = 0x0a) : firstNewline n body = some s.length := by
  rw [firstNewline,List.find?_range_eq_some]
  refine ⟨by simpa using hb,List.mem_range.2 hlt,fun j hj => ?_⟩
  have hj' : body (0 + j) = s[j] := (Mem.read_eq_iff _ _ _).1 hread j hj
  rw [Nat.zero_add] at hj'
  have hne : s[j] ≠ 0x0a := fun h => hs (h ▸ List.getElem_mem hj)
  simpa [hj'] using hne

end Scan

section Fields

variable {dst src : Mem} {sz : UInt8}

theorem storeField_eq (dst : Mem) (sz : UInt8) (src : Mem) :
    storeField dst sz src = dst.copy 0 (strncpy src sz.toNat) := by
  funext j
  by_cases hj : j < sz.toNat <;> simp [storeField,Mem.copy,strncpy_length,hj]

theorem storeField_congr {src' : Mem} (h : cString src 0 sz.toNat = cString src' 0 sz.toNat)
    (dst : Mem) : storeField dst sz src = storeField dst sz src' := by
  rw [storeField_eq,storeField_eq,strncpy,strncpy,h]

theorem storeField_same_iff :
    storeField dst sz src = dst ↔ dst.read 0 sz.toNat = strncpy src sz.toNat := by
  have hlen := strncpy_length src sz.toNat
  rw [storeField_eq]
  constructor
  · intro h
    have hread := Mem.read_copy dst 0 (strncpy src sz.toNat)
    rwa [h,hlen] at hread
  · intro h
    have hread : dst.read 0 (strncpy src sz.toNat).length = strncpy src sz.toNat := by rw [hlen,h]
    funext j
    by_cases hj : j < (strncpy src sz.toNat).length
    · have hinside := Mem.copy_inside dst 0 (strncpy src sz.toNat) hj
      rw [Nat.zero_add] at hinside
      have hdst := (Mem.read_eq_iff _ _ _).1 hread j hj
      rw [hinside,← hdst,Nat.zero_add]
    · exact Mem.copy_after dst 0 _ (by omega)

theorem storeField_last (hsz : 0 < sz) :
    storeField dst sz src (sz.toNat - 1) = 0 ↔ (cString src 0 sz.toNat).length < sz.toNat := by
  have hpos : 0 < sz.toNat := UInt8.lt_iff_toNat_lt.1 hsz
  have hle := cString_length_le src 0 sz.toNat
  have hlt : sz.toNat - 1 < (strncpy src sz.toNat).length := by rw [strncpy_length]; omega
  have hinside := Mem.copy_inside dst 0 (strncpy src sz.toNat) hlt
  rw [Nat.zero_add] at hinside
  rw [storeField_eq,hinside]
  simp only [strncpy]
  rcases Nat.lt_or_ge (cString src 0 sz.toNat).length sz.toNat with h | h
  · rw [List.getElem_append_right (by omega)]
    simp [h]
  · rw [List.getElem_append_left (by omega)]
    have hne := cString_nonzero _ (List.getElem_mem (l := cString src 0 sz.toNat)
      (show sz.toNat - 1 < (cString src 0 sz.toNat).length by omega))
    exact ⟨fun h0 => absurd h0 hne,fun h0 => by omega⟩

theorem storeField_string (h : (cString src 0 sz.toNat).length < sz.toNat) :
    strIn sz.toNat (storeField dst sz src) 0 = .ok (cString src 0 sz.toNat) := by
  have hread := Mem.read_copy dst 0 (strncpy src sz.toNat)
  rw [strncpy_length] at hread
  obtain ⟨k,hk⟩ : ∃ k, sz.toNat = (cString src 0 sz.toNat).length + (k + 1) :=
    ⟨sz.toNat - (cString src 0 sz.toNat).length - 1, by omega⟩
  have hsplit : (dst.copy 0 (strncpy src sz.toNat)).read 0 sz.toNat =
      cString src 0 sz.toNat ++ 0 :: List.replicate k 0 := by
    rw [hread,strncpy,← List.replicate_succ]
    congr 2
    omega
  generalize hc : cString src 0 sz.toNat = c at h hk hsplit ⊢
  rw [hk,Mem.read_add,Mem.read_succ] at hsplit
  obtain ⟨hfront,hback⟩ := List.append_inj hsplit (Mem.read_length _ _ _)
  obtain ⟨hend,-⟩ := List.cons.inj hback
  rw [storeField_eq,strIn_iff (fun b hb => cString_nonzero b (by rw [hc]; exact hb))]
  · exact ⟨by omega,by rw [hk]; exact hend⟩
  · rw [hk]
    exact hfront

end Fields

def StatusOk (cfg : AuthConfig) (httpRes : HttpResponse) (net : NetOutcome) : Prop :=
  0 ≤ (runGetSessionKeyHttpRequest cfg httpRes net).ret ∧
    (runGetSessionKeyHttpRequest cfg httpRes net).httpRes.httpStatus = "OK"

def takeFields (userName : Mem) (szUserName : UInt8) (password : Mem) (szPassword : UInt8) (n : Nat)
    (body : Mem) : Int × Mem × Mem :=
  match firstNewline n body with
  | none => (-1, userName, password)
  | some i =>
    let cut := cutNewlines n body
    let userName := storeField userName szUserName cut
    if (cString cut 0 szUserName.toNat).length < szUserName.toNat then
      ((if (cString cut (i + 1) szPassword.toNat).length < szPassword.toNat then 0 else -1), userName,
        storeField password szPassword (cut.shift (i + 1)))
    else (-1, userName, password)

def AuthReply.outcome (a : AuthReply) : Int × Mem × Mem := (a.ret, a.userName, a.password)

section Request

variable (cfg : AuthConfig) (userName : Mem) {szUserName : UInt8} (password : Mem)
  {szPassword : UInt8} {httpRes : HttpResponse} {net : NetOutcome}

theorem cString_shift (m : Mem) (k n : Nat) : cString (m.shift k) 0 n = cString m k n := by
  rw [cString,cString,Mem.read_shift,Nat.add_zero]

theorem request_failed (h : ¬ StatusOk cfg httpRes net) :
    ∃ ret, ret < 0 ∧ (sipfAuthRequest cfg userName szUserName password szPassword httpRes
      net).outcome = (ret, userName, password) := by
  simp only [sipfAuthRequest]
  by_cases hret : (runGetSessionKeyHttpRequest cfg httpRes net).ret < 0
  · rw [if_pos hret]
    exact ⟨_,hret,rfl⟩
  · rw [if_neg hret,if_pos fun hok => h ⟨not_lt.1 hret,hok⟩]
    exact ⟨-1,by decide,rfl⟩

theorem request_ok (h : StatusOk cfg httpRes net) (hu : 0 < szUserName) (hp : 0 < szPassword) :
    (sipfAuthRequest cfg userName szUserName password szPassword httpRes net).outcome =
      takeFields userName szUserName password szPassword
        (runGetSessionKeyHttpRequest cfg httpRes net).httpRes.contentLength
        (net.client.bodyOf (runGetSessionKeyHttpRequest cfg httpRes net).httpRes) := by
  simp only [sipfAuthRequest,takeFields,if_neg (not_lt.2 h.1),if_neg (not_not.2 h.2),scanBody_eq]
  cases firstNewline (runGetSessionKeyHttpRequest cfg httpRes net).httpRes.contentLength
    (net.client.bodyOf (runGetSessionKeyHttpRequest cfg httpRes net).httpRes) with
  | none => rfl
  | some i =>
    simp only [Option.map_some,ne_eq,storeField_last hu,storeField_last hp,ite_not,cString_shift]
    split_ifs <;> rfl

end Request

/-- The server answers with `r` and the body `body`; what is behind the body in the receive
buffer is anything. -/
structure Received (cfg : AuthConfig) (r : HttpResponse) (body : List UInt8) (net : NetOutcome) :
    Prop where
  answers : net.Answers cfg.ssl r
  body : (net.client.bodyOf r).read 0 body.length = body

structure TwoFields (body user pass : List UInt8) : Prop where
  lines : ∃ rest, body = user ++ 0x0a :: (pass ++ 0x0a :: rest)
  user : 0x0a ∉ user
  pass : 0x0a ∉ pass

def firstField (body : List UInt8) : List UInt8 := body.takeWhile (· ≠ 0x0a)

def behindFirst (body : List UInt8) : List UInt8 := (body.dropWhile (· ≠ 0x0a)).tail

/-- What is copied of a text: up to a NUL in it, and no more than the buffer takes. -/
def copied (sz : UInt8) (s : List UInt8) : List UInt8 := (s.takeWhile (· ≠ 0)).take sz.toNat

abbrev Fits (sz : UInt8) (s : List UInt8) : Prop := (copied sz s).length < sz.toNat

theorem split_first {body : List UInt8} (h : 0x0a ∈ body) :
    body = firstField body ++ 0x0a :: behindFirst body := by
  have hsplit := List.takeWhile_append_dropWhile (p := (· ≠ (0x0a : UInt8))) (l := body)
  have hne : body.dropWhile (· ≠ 0x0a) ≠ [] := fun hnil => by
    have hall := List.dropWhile_eq_nil_iff.1 hnil 0x0a h
    simp at hall
  have hhead : (body.dropWhile (· ≠ 0x0a)).head hne = 0x0a := by
    simpa using List.head_dropWhile_not (· ≠ (0x0a : UInt8)) hne
  conv_lhs => rw [← hsplit,← List.cons_head_tail hne,hhead]
  rfl

theorem firstField_clean (body : List UInt8) : 0x0a ∉ firstField body := fun h => by
  simpa using List.mem_takeWhile_imp h

theorem firstField_append {s rest : List UInt8} (hs : 0x0a ∉ s) :
    firstField (s ++ 0x0a :: rest) = s := by
  rw [firstField,takeWhile_before (by decide)]
  exact takeWhile_ne hs

theorem behindFirst_append {s rest : List UInt8} (hs : 0x0a ∉ s) :
    behindFirst (s ++ 0x0a :: rest) = rest := by
  have hall : ∀ c ∈ s, (decide (c ≠ (0x0a : UInt8))) = true := fun c hc => by
    simpa using ne_of_mem_of_not_mem hc hs
  rw [behindFirst,List.dropWhile_append_of_pos hall]
  simp

theorem firstField_whole {s : List UInt8} (hs : 0x0a ∉ s) : firstField s = s :=
  takeWhile_ne hs

theorem copied_clean {sz : UInt8} {s : List UInt8} (hs : 0 ∉ s) (hfit : Fits sz s) :
    copied sz s = s := by
  have hwhole : s.takeWhile (· ≠ 0) = s := takeWhile_ne hs
  simp only [Fits,copied,hwhole,List.length_take] at hfit ⊢
  exact List.take_of_length_le (by omega)

theorem copied_ofList (sz : UInt8) (s : List UInt8) :
    cString (Mem.ofList s) 0 sz.toNat = copied sz s :=
  cString_take (Mem.read_ofList s) (.inr (by rw [Nat.zero_add]; exact Mem.ofList_ge s le_rfl))

def takeTexts (userName : Mem) (szUserName : UInt8) (password : Mem) (szPassword : UInt8)
    (user pass : List UInt8) : Int × Mem × Mem :=
  let userName := storeField userName szUserName (Mem.ofList user)
  if Fits szUserName user then
    ((if Fits szPassword pass then 0 else -1), userName,
      storeField password szPassword (Mem.ofList pass))
  else (-1, userName, password)

/-- The text behind the first newline ends at a newline, or where the buffer is full, or at a
NUL that happens to stand behind the body. -/
theorem cString_second {m : Mem} {sz : UInt8} {n off : Nat} {tail : List UInt8}
    (hn : n = off + tail.length) (hread : m.read off tail.length = tail)
    (hend : 0x0a ∈ tail ∨ ¬ Fits sz tail ∨ m n = 0) :
    cString (cutNewlines n m) off sz.toNat = copied sz (firstField tail) := by
  by_cases h : 0x0a ∈ tail
  · have hclean := firstField_clean tail
    have hsplit := split_first h
    generalize firstField tail = pass at hclean hsplit ⊢
    generalize behindFirst tail = rest at hsplit
    subst hsplit
    obtain ⟨hpass,hnl,-⟩ := read_parts hread
    simp only [List.length_append,List.length_cons] at hn
    exact cString_take (cut_read hpass hclean) (.inr (cut_newline (by omega) hnl))
  · rw [firstField_whole h]
    refine cString_take (cut_read hread h) ?_
    rcases (or_iff_right h).1 hend with hfull | hnul
    · left
      have hle := (List.takeWhile_sublist (l := tail) fun c => decide (c ≠ 0)).length_le
      simp only [Fits,copied,List.length_take] at hfull
      omega
    · right
      rw [← hn]
      simp [cutNewlines,hnul]

section Texts

variable {body : List UInt8} {m : Mem} (userName : Mem) {szUserName : UInt8} (password : Mem)
  {szPassword : UInt8}

theorem takeFields_none (hread : m.read 0 body.length = body) (h : 0x0a ∉ body) :
    takeFields userName szUserName password szPassword body.length m = (-1, userName, password) := by
  simp only [takeFields,firstNewline_none (hread.symm ▸ h)]

theorem takeFields_texts (hread : m.read 0 body.length = body) (h : 0x0a ∈ body)
    (hend : Fits szUserName (firstField body) → 0x0a ∈ behindFirst body ∨
      ¬ Fits szPassword (behindFirst body) ∨ m body.length = 0) :
    takeFields userName szUserName password szPassword body.length m =
      takeTexts userName szUserName password szPassword (firstField body)
        (firstField (behindFirst body)) := by
  have hclean := firstField_clean body
  have hbody := split_first h
  generalize firstField body = user at hclean hbody hend ⊢
  generalize behindFirst body = tail at hbody hend ⊢
  subst hbody
  obtain ⟨huser,hnl,htail⟩ := read_parts hread
  simp only [Nat.zero_add] at hnl htail
  have hlen : (user ++ 0x0a :: tail).length = user.length + 1 + tail.length := by
    simp only [List.length_append,List.length_cons]
    omega
  have hcut : cString (cutNewlines (user ++ 0x0a :: tail).length m) 0 szUserName.toNat =
      copied szUserName user :=
    cString_take (cut_read huser hclean) (.inr (by
      rw [Nat.zero_add]
      exact cut_newline (by omega) hnl))
  have hname := storeField_congr (hcut.trans (copied_ofList szUserName user).symm) userName
  have hfirst : firstNewline (user ++ 0x0a :: tail).length m = some user.length :=
    firstNewline_at huser hclean (by omega) hnl
  simp only [takeFields,hfirst,hcut,takeTexts,hname]
  by_cases hfit : Fits szUserName user
  · have hpass : cString (cutNewlines (user ++ 0x0a :: tail).length m) (user.length + 1)
        szPassword.toNat = copied szPassword (firstField tail) :=
      cString_second hlen htail (hend hfit)
    have hstore := storeField_congr ((cString_shift _ _ _).trans
      (hpass.trans (copied_ofList szPassword (firstField tail)).symm)) password
    rw [if_pos hfit,if_pos hfit,hstore,hpass]
  · rw [if_neg hfit,if_neg hfit]

theorem takeTexts_refuses {user pass : List UInt8}
    (h : ¬ (Fits szUserName user ∧ Fits szPassword pass)) :
    (takeTexts userName szUserName password szPassword user pass).1 < 0 := by
  simp only [takeTexts]
  split_ifs with hu hp
  · exact absurd ⟨hu,hp⟩ h
  · exact (by decide : (-1 : Int) < 0)
  · exact (by decide : (-1 : Int) < 0)

theorem takeTexts_accepts {user pass : List UInt8}
    (h : (takeTexts userName szUserName password szPassword user pass).1 = 0) :
    Fits szUserName user ∧ Fits szPassword pass := by
  by_contra hn
  have hneg := takeTexts_refuses userName password hn
  omega

theorem takeTexts_fit {user pass : List UInt8} (hu : Fits szUserName user)
    (hp : Fits szPassword pass) :
    takeTexts userName szUserName password szPassword user pass =
      (0, storeField userName szUserName (Mem.ofList user),
        storeField password szPassword (Mem.ofList pass)) := by
  simp only [takeTexts,if_pos hu,if_pos hp]

end Texts

theorem stored_text {sz : UInt8} {s : List UInt8} (h : Fits sz s) (dst : Mem) :
    strIn sz.toNat (storeField dst sz (Mem.ofList s)) 0 = .ok (copied sz s) := by
  have hcopied := copied_ofList sz s
  rw [storeField_string (by rw [hcopied]; exact h),hcopied]

theorem TwoFields.texts {body user pass : List UInt8} (h : TwoFields body user pass) :
    0x0a ∈ behindFirst body ∧ firstField body = user ∧ firstField (behindFirst body) = pass := by
  obtain ⟨⟨rest,rfl⟩,hu,hp⟩ := h
  rw [firstField_append hu,behindFirst_append hu,firstField_append hp]
  exact ⟨by simp,rfl,rfl⟩

theorem twoFields_of {body : List UInt8} (h : 0x0a ∈ behindFirst body) :
    TwoFields body (firstField body) (firstField (behindFirst body)) := by
  have hin : 0x0a ∈ body :=
    (List.dropWhile_sublist _).subset (List.mem_of_mem_tail h)
  refine ⟨⟨behindFirst (behindFirst body),?_⟩,firstField_clean _,firstField_clean _⟩
  rw [← split_first h]
  exact split_first hin

section Received

variable {cfg : AuthConfig} {userName : Mem} {szUserName : UInt8} {password : Mem}
  {szPassword : UInt8} {httpRes r : HttpResponse} {body : List UInt8} {net : NetOutcome}

variable (hu : 0 < szUserName) (hp : 0 < szPassword) (hok : r.httpStatus = "OK")
  (hlen : r.contentLength = body.length)
include hu hp hok hlen

theorem received_outcome (h : Received cfg r body net) :
    (sipfAuthRequest cfg userName szUserName password szPassword httpRes net).outcome =
      takeFields userName szUserName password szPassword body.length (net.client.bodyOf r) := by
  have hans := h.answers
  have hrun : sipfClientHttpRunRequest httpResponseCb net cfg.ssl httpRes =
      ⟨net.client.ret, net.client.deliveries.foldl httpResponseCb httpRes, [.freeaddrinfo, .close]⟩ :=
    runRequest_connects httpRes hans.connects
  have hsame : (net.client.deliveries.foldl httpResponseCb httpRes).Same r :=
    hans.own _ (foldl_requestCb_last httpRes hans.called hans.data)
  have hstatus : StatusOk cfg httpRes net := by
    simp only [StatusOk,runGetSessionKeyHttpRequest,hrun]
    exact ⟨hans.success,hsame.status.trans hok⟩
  rw [request_ok cfg userName password hstatus hu hp]
  simp only [runGetSessionKeyHttpRequest,hrun,ClientRun.bodyOf]
  rw [← hlen,← hsame.length,← hsame.body]

theorem received_none (h : Received cfg r body net) (hin : 0x0a ∉ body) :
    (sipfAuthRequest cfg userName szUserName password szPassword httpRes net).outcome =
      (-1, userName, password) :=
  (received_outcome hu hp hok hlen h).trans (takeFields_none userName password h.body hin)

theorem received_texts (h : Received cfg r body net) (hin : 0x0a ∈ body)
    (hend : Fits szUserName (firstField body) → 0x0a ∈ behindFirst body ∨
      ¬ Fits szPassword (behindFirst body) ∨ net.client.bodyOf r body.length = 0) :
    (sipfAuthRequest cfg userName szUserName password szPassword httpRes net).outcome =
      takeTexts userName szUserName password szPassword (firstField body)
        (firstField (behindFirst body)) :=
  (received_outcome hu hp hok hlen h).trans (takeFields_texts userName password h.body hin hend)

end Received

/-- What is behind the body has no influence; what is accepted are the two lines of the body,
and a body without two lines is not. -/
structure FromBody (cfg : AuthConfig) (userName : Mem) (szUserName : UInt8) (password : Mem)
    (szPassword : UInt8) (httpRes r : HttpResponse) (body : List UInt8) : Prop where
  same : ∀ net net', Received cfg r body net → Received cfg r body net' →
    (sipfAuthRequest cfg userName szUserName password szPassword httpRes net).outcome =
      (sipfAuthRequest cfg userName szUserName password szPassword httpRes net').outcome
  fields : ∀ net, Received cfg r body net →
    (sipfAuthRequest cfg userName szUserName password szPassword httpRes net).ret = 0 →
    ∃ user pass, TwoFields body user pass ∧
      strIn szUserName.toNat (sipfAuthRequest cfg userName szUserName password szPassword httpRes
        net).userName 0 = .ok user ∧
      strIn szPassword.toNat (sipfAuthRequest cfg userName szUserName password szPassword httpRes
        net).password 0 = .ok pass
  rejected : ∀ net, Received cfg r body net → (∀ user pass, ¬ TwoFields body user pass) →
    (sipfAuthRequest cfg userName szUserName password szPassword httpRes net).ret < 0

/-- The bodies that come out as the format has it: without a newline, with a text that is too
long, or with two lines that have no NUL in them. -/
def WellSeparated (szUserName szPassword : UInt8) (body : List UInt8) : Prop :=
  0x0a ∉ body ∨ ¬ Fits szUserName (firstField body) ∨
    ¬ Fits szPassword (firstField (behindFirst body)) ∨
    0x0a ∈ behindFirst body ∧ 0 ∉ firstField body ∧ 0 ∉ firstField (behindFirst body)

def clearedBehind (r : HttpResponse) (body : List UInt8) : NetOutcome :=
  ⟨0, 0, 0, 0, 0, ⟨0, [{ r with dataLen := 1 }], Mem.zero.copy r.bodyFragStart body⟩⟩

theorem clearedBehind_received (cfg : AuthConfig) (r : HttpResponse) (body : List UInt8) :
    Received cfg r body (clearedBehind r body) where
  answers := by
    refine ⟨⟨rfl,le_rfl,fun _ => rfl,rfl⟩,le_rfl,List.cons_ne_nil _ _,fun d hd => ?_,fun d hd => ?_⟩
    · rw [List.mem_singleton.1 hd]
      exact Nat.one_pos
    · rw [List.mem_singleton.1 hd]
      exact ⟨rfl,rfl,rfl,rfl⟩
  body := by
    rw [ClientRun.bodyOf,Mem.read_shift,Nat.add_zero]
    exact Mem.read_copy _ _ _

theorem clearedBehind_nul (r : HttpResponse) (body : List UInt8) :
    (clearedBehind r body).client.bodyOf r body.length = 0 :=
  Mem.copy_after _ _ _ le_rfl

section Separation

variable (cfg : AuthConfig) (userName : Mem) {szUserName : UInt8} (hu : 0 < szUserName)
  (password : Mem) {szPassword : UInt8} (hp : 0 < szPassword) (httpRes : HttpResponse)
  {r : HttpResponse} {body : List UInt8} (hok : r.httpStatus = "OK")
  (hlen : r.contentLength = body.length)
include hu hp hok hlen

theorem fromBody_none (hin : 0x0a ∉ body) :
    FromBody cfg userName szUserName password szPassword httpRes r body := by
  have hall : ∀ net, Received cfg r body net →
      (sipfAuthRequest cfg userName szUserName password szPassword httpRes net).outcome =
        (-1, userName, password) := fun net hrec => received_none hu hp hok hlen hrec hin
  have hneg : ∀ net, Received cfg r body net →
      (sipfAuthRequest cfg userName szUserName password szPassword httpRes net).ret = -1 :=
    fun net hrec => congrArg Prod.fst (hall net hrec)
  refine ⟨fun net net' h h' => (hall net h).trans (hall net' h').symm,fun net h hret => ?_,
    fun net h _ => ?_⟩
  · rw [hneg net h] at hret
    exact absurd hret (by decide)
  · rw [hneg net h]
    decide

theorem separated_texts (hsep : WellSeparated szUserName szPassword body) (hin : 0x0a ∈ body)
    {net : NetOutcome} (hrec : Received cfg r body net) :
    (sipfAuthRequest cfg userName szUserName password szPassword httpRes net).outcome =
      takeTexts userName szUserName password szPassword (firstField body)
        (firstField (behindFirst body)) := by
  refine received_texts hu hp hok hlen hrec hin fun hfitu => ?_
  by_cases hnl : 0x0a ∈ behindFirst body
  · exact .inl hnl
  · have hrest := (hsep.resolve_left (not_not.2 hin)).resolve_left (not_not.2 hfitu)
    rw [firstField_whole hnl] at hrest
    exact .inr (.inl (hrest.resolve_right fun h => hnl h.1))

theorem fromBody_separated (hsep : WellSeparated szUserName szPassword body) (hin : 0x0a ∈ body) :
    FromBody cfg userName szUserName password szPassword httpRes r body := by
  have hall : ∀ net, Received cfg r body net →
      (sipfAuthRequest cfg userName szUserName password szPassword httpRes net).outcome =
        takeTexts userName szUserName password szPassword (firstField body)
          (firstField (behindFirst body)) := fun net hrec =>
    separated_texts cfg userName hu password hp httpRes hok hlen hsep hin hrec
  have hlines : Fits szUserName (firstField body) → Fits szPassword (firstField (behindFirst body)) →
      0x0a ∈ behindFirst body ∧ 0 ∉ firstField body ∧ 0 ∉ firstField (behindFirst body) :=
    fun hfitu hfitp => ((hsep.resolve_left (not_not.2 hin)).resolve_left
      (not_not.2 hfitu)).resolve_left (not_not.2 hfitp)
  refine ⟨fun net net' h h' => (hall net h).trans (hall net' h').symm,fun net h hret => ?_,
    fun net h hno => ?_⟩
  · have hout := hall net h
    obtain ⟨hfitu,hfitp⟩ :=
      takeTexts_accepts userName password ((congrArg Prod.fst hout).symm.trans hret)
    obtain ⟨hnl,h0u,h0p⟩ := hlines hfitu hfitp
    rw [takeTexts_fit userName password hfitu hfitp] at hout
    simp only [AuthReply.outcome,Prod.mk.injEq] at hout
    refine ⟨_,_,twoFields_of hnl,?_,?_⟩
    · rw [hout.2.1,stored_text hfitu,copied_clean h0u hfitu]
    · rw [hout.2.2,stored_text hfitp,copied_clean h0p hfitp]
  · refine lt_of_eq_of_lt (congrArg Prod.fst (hall net h))
      (takeTexts_refuses userName password fun hfit => ?_)
    exact hno _ _ (twoFields_of (hlines hfit.1 hfit.2).1)

/-- Behind a body that is not so separated, a NUL is enough for credentials that are none of
its lines. -/
theorem separated_of_fromBody
    (hfrom : FromBody cfg userName szUserName password szPassword httpRes r body) :
    WellSeparated szUserName szPassword body := by
  by_contra hsep
  simp only [WellSeparated,not_or,not_not] at hsep
  obtain ⟨hin,hfitu,hfitp,hbad⟩ := hsep
  have hrec := clearedBehind_received cfg r body
  have hout : (sipfAuthRequest cfg userName szUserName password szPassword httpRes
      (clearedBehind r body)).outcome = takeTexts userName szUserName password szPassword
        (firstField body) (firstField (behindFirst body)) :=
    received_texts hu hp hok hlen hrec hin fun _ => .inr (.inr (clearedBehind_nul r body))
  rw [takeTexts_fit userName password hfitu hfitp] at hout
  obtain ⟨user,pass,htwo,hname,hpass⟩ := hfrom.fields _ hrec (congrArg Prod.fst hout)
  obtain ⟨hnl,rfl,rfl⟩ := htwo.texts
  refine hbad ⟨hnl,fun h0 => ?_,fun h0 => ?_⟩
  · exact (strIn_ok hname).1 0 h0 rfl
  · exact (strIn_ok hpass).1 0 h0 rfl

end Separation

theorem credentials_from_body_iff (cfg : AuthConfig) (userName : Mem) {szUserName : UInt8}
    (hu : 0 < szUserName) (password : Mem) {szPassword : UInt8} (hp : 0 < szPassword)
    (httpRes : HttpResponse) {r : HttpResponse} {body : List UInt8} (hok : r.httpStatus = "OK")
    (hlen : r.contentLength = body.length) :
    FromBody cfg userName szUserName password szPassword httpRes r body ↔
      WellSeparated szUserName szPassword body := by
  refine ⟨separated_of_fromBody cfg userName hu password hp httpRes hok hlen,fun hsep => ?_⟩
  by_cases hin : 0x0a ∈ body
  · exact fromBody_separated cfg userName hu password hp httpRes hok hlen hsep hin
  · exact fromBody_none cfg userName hu password hp httpRes hok hlen hin

def defaultAuth : AuthConfig := ⟨true⟩

def credentialBody (user pass : List UInt8) : List UInt8 := user ++ 0x0a :: (pass ++ [0x0a])

def okCredentials (body : List UInt8) : HttpResponse := ⟨"OK", 200, body.length, 1, 0⟩

theorem credentials_from_two_lines :
    FromBody defaultAuth Mem.zero szUserName Mem.zero szUserName .zero
      (okCredentials (credentialBody (ascii "me") (ascii "pw"))) (credentialBody (ascii "me") (ascii "pw")) ↔
    WellSeparated szUserName szUserName (credentialBody (ascii "me") (ascii "pw")) :=
  credentials_from_body_iff defaultAuth Mem.zero (by decide) Mem.zero (by decide) .zero rfl rfl

def oneLine : List UInt8 := [0x6d,0x65,0x0a,0x70,0x77]

def oneLineNet : NetOutcome :=
  ⟨0, 0, 0, 0, 0, ⟨0, [okCredentials oneLine], Mem.ofList (oneLine ++ [0x6f,0x6c,0x64])⟩⟩

theorem one_line_reads_on :
    ¬ FromBody defaultAuth Mem.zero szUserName Mem.zero szUserName .zero (okCredentials oneLine) oneLine ∧
    (sipfAuthRequest defaultAuth Mem.zero szUserName Mem.zero szUserName .zero oneLineNet).ret = 0 ∧
    (sipfAuthRequest defaultAuth Mem.zero szUserName Mem.zero szUserName .zero
      oneLineNet).password.read 0 6 = [0x70,0x77,0x6f,0x6c,0x64,0] := by
  refine ⟨fun hfrom => ?_,by decide +kernel,by decide +kernel⟩
  obtain ⟨user,pass,htwo,-⟩ := hfrom.fields _
    (clearedBehind_received defaultAuth (okCredentials oneLine) oneLine) (by decide +kernel)
  exact absurd htwo.texts.1 (by decide)

end SipfClient.Auth
