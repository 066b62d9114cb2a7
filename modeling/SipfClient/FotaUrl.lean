import SipfClient.FotaLaws
set_option autoImplicit false

namespace SipfClient.Fota
open ByteMem HexText Http File Xmodem

/-- The answer to the URL request of a call: a URL in a body that fits. -/
structure Answered (cfg : FileConfig) (c : FotaCall) (u : Url) (t : LineEnd) (resp : HttpResponse) :
    Prop where
  nameFits : ¬ pathEndpointSz <
    (cfg.pathHead.length + 2 + cfg.pathTail.length) + c.fileNameSuffix.length
  answers : c.net.Answers cfg.ssl resp
  status : resp.httpStatus = "OK"
  length : resp.contentLength = (u.body t).length
  content : (c.net.client.bodyOf resp).read 0 (u.body t).length = u.body t
  fits : (u.body t).length ≤ imageUrlLen

def courseFor (c : FotaCall) (u : Url) : List FotaAction :=
  match secTagOf u.protocol with
  | none => [.ret (-1)]
  | some secTag =>
    if c.init ≠ 0 then [.init c.init,.ret c.init]
    else [.init 0,.puts .downloadFile,.puts (.fileName c.fileNameSuffix),.puts .newLine,
      .start ⟨u.host, u.path, secTag⟩ c.start] ++ startActions c.start

/-- What the buffer has to hold before the call: an end for the search of a CR, and where the
path is used and the URL has no line end, one right behind it. -/
structure Fresh (c : FotaCall) (u : Url) (t : LineEnd) (old : Mem) : Prop where
  ended : ∃ i, i < imageUrlLen ∧ ends (old.copy 0 (u.body t) i)
  leftover : c.init = 0 → (secTagOf u.protocol).isSome → t = .none → ends (old u.text.length)

section Exact

variable {cfg : FileConfig} {c : FotaCall} {u : Url} {t : LineEnd} {resp : HttpResponse}

theorem fota_url_exact_iff (h : Answered cfg c u t resp) (st : FileState) :
    (∃ st', fotaHttpRun cfg st c = .ok (st', courseFor c u)) ↔ Fresh c u t st.imageUrl := by
  obtain ⟨res,hreq⟩ := @url_answered cfg .download _ _ _ _ _ _ h.nameFits h.answers h.status h.length
    h.content h.fits st.imageUrl st.httpRes
  have hnonneg : ¬ (((u.body t).length : Nat) : Int) < 0 := by omega
  have hcopied := Mem.read_copy st.imageUrl 0 (u.body t)
  by_cases hbound : ∃ i, i < imageUrlLen ∧ ends (st.imageUrl.copy 0 (u.body t) i)
  · obtain ⟨i,hi,he⟩ := hbound
    obtain ⟨v,hparse,hsplit,hlt,hend⟩ := parse_body hcopied hi he
    have hpath := path_read_iff hsplit hlt
    have hfresh : Fresh c u t st.imageUrl ↔
        (c.init = 0 → (secTagOf u.protocol).isSome → v u.text.length = 0) := by
      rw [hend,end_copied]
      exact ⟨fun hf => hf.leftover,fun hl => ⟨⟨i,hi,he⟩,hl⟩⟩
    rw [hfresh,fotaHttpRun,hreq]
    simp only [if_neg hnonneg,Int.toNat_natCast,hparse,bind,Except.bind,ne_eq,not_true_eq_false,
      if_false,protocol_read hsplit hlt,courseFor]
    cases htag : secTagOf u.protocol with
    | none =>
      simp only [Option.isSome_none,Bool.false_eq_true,false_imp_iff,imp_true_iff,iff_true]
      exact ⟨_,rfl⟩
    | some secTag =>
      by_cases hinit : c.init = 0
      · simp only [hinit,not_true_eq_false,if_false,host_read hsplit hlt,Option.isSome_some,forall_const,← hpath]
        constructor
        · rintro ⟨st',hst⟩
          cases hp : strIn imageUrlLen v u.pathAt with
          | error e =>
            rw [hp] at hst
            cases hst
          | ok s =>
            rw [hp] at hst
            simp only [pure,Except.pure,Except.ok.injEq,Prod.mk.injEq,List.cons_append,List.cons.injEq,
              FotaAction.start.injEq,FotaTarget.mk.injEq,true_and] at hst
            rw [hst.2.1.1.1]
        · intro hp
          rw [hp]
          exact ⟨_,rfl⟩
      · simp only [hinit,not_false_eq_true,if_true,false_imp_iff,iff_true]
        exact ⟨_,rfl⟩
  · constructor
    · rintro ⟨st',hst⟩
      obtain ⟨e,he⟩ := parse_out (n := (u.body t).length) fun i hi hends => hbound ⟨i,hi,hends⟩
      rw [fotaHttpRun,hreq] at hst
      simp only [if_neg hnonneg,Int.toNat_natCast,he,bind,Except.bind] at hst
      cases hst
    · intro hf
      exact absurd hf.ended hbound

end Exact

section Update

theorem update_answered : Answered defaultConfig updateCall updateUrl .crlf updateResponse where
  nameFits := by decide +kernel
  answers := ⟨⟨rfl,le_rfl,fun _ => rfl,rfl⟩,le_rfl,List.cons_ne_nil _ _,by decide +kernel,
    by simp only [updateCall,List.mem_singleton,forall_eq]; exact ⟨rfl,rfl,rfl,rfl⟩⟩
  status := rfl
  length := rfl
  content := (Mem.read_shift _ 0 0 _).trans (Mem.read_ofList _)
  fits := by decide +kernel

theorem fota_url_exact_update : courseFor updateCall updateUrl =
      [.init 0,.puts .downloadFile,.puts (.fileName (ascii "app_update.bin")),.puts .newLine,
        .start ⟨ascii "h", ascii "xy", 42⟩ 0,.puts .start,.take,.ret (-1)] ∧
    ((∃ st', fotaHttpRun defaultConfig .boot updateCall = .ok (st', courseFor updateCall updateUrl)) ↔
      Fresh updateCall updateUrl .crlf FileState.boot.imageUrl) :=
  ⟨by decide +kernel,fota_url_exact_iff update_answered .boot⟩

end Update

end SipfClient.Fota
