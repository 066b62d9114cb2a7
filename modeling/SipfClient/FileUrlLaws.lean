import SipfClient.FileUrl
set_option autoImplicit false

namespace SipfClient.File
open ByteMem HexText CText Http Xmodem

structure Url where
  protocol : List UInt8
  host : List UInt8
  path : List UInt8
  protocolClean : ∀ c ∈ protocol, c ≠ 0x3a ∧ c ≠ 0 ∧ c ≠ 0x0d
  hostClean : ∀ c ∈ host, c ≠ 0x2f ∧ c ≠ 0 ∧ c ≠ 0x0d
  pathClean : ∀ c ∈ path, c ≠ 0 ∧ c ≠ 0x0d ∧ c ≠ 0x0a

namespace Url

def text (u : Url) : List UInt8 := u.protocol ++ ([0x3a,0x2f,0x2f] ++ (u.host ++ (0x2f :: u.path)))

def hostAt (u : Url) : Nat := u.protocol.length + 3

def hostEnd (u : Url) : Nat := u.hostAt + u.host.length

def pathAt (u : Url) : Nat := u.hostEnd + 1

def rootMem (u : Url) (m : Mem) : Mem :=
  ((m.set u.protocol.length 0).set (u.protocol.length + 1) 0).set (u.protocol.length + 2) 0

def splitMem (u : Url) (m : Mem) : Mem := (u.rootMem m).set u.hostEnd 0

theorem rootMem_other (u : Url) (m : Mem) {j : Nat} (hj : j < u.protocol.length ∨ u.hostAt ≤ j) :
    u.rootMem m j = m j := by
  simp only [hostAt] at hj
  rw [rootMem,Mem.set_other _ _ (by omega),Mem.set_other _ _ (by omega),Mem.set_other _ _ (by omega)]

theorem splitMem_other (u : Url) (m : Mem) {j : Nat}
    (hj : j < u.protocol.length ∨ u.hostAt ≤ j ∧ j ≠ u.hostEnd) : u.splitMem m j = m j := by
  have hne : j ≠ u.hostEnd := by
    simp only [hostEnd,hostAt] at hj ⊢
    omega
  rw [splitMem,Mem.set_other _ _ hne,rootMem_other u m (hj.imp_right And.left)]

theorem splitMem_protocolEnd (u : Url) (m : Mem) : u.splitMem m u.protocol.length = 0 := by
  have hne : u.protocol.length ≠ u.hostEnd := by
    simp only [hostEnd,hostAt]
    omega
  rw [splitMem,Mem.set_other _ _ hne,rootMem,Mem.set_other _ _ (by omega),
    Mem.set_other _ _ (by omega),Mem.set_same]

theorem splitMem_hostEnd (u : Url) (m : Mem) : u.splitMem m u.hostEnd = 0 := Mem.set_same _ _ _

theorem text_length (u : Url) : u.text.length = u.pathAt + u.path.length := by
  simp only [text,pathAt,hostEnd,hostAt,List.length_append,List.length_cons,List.length_nil]
  omega

theorem text_clean (u : Url) : ∀ c ∈ u.text, c ≠ 0 ∧ c ≠ 0x0d := by
  have hprotocol := u.protocolClean
  have hhost := u.hostClean
  have hpath := u.pathClean
  intro c hc
  simp only [text,List.mem_append,List.mem_cons,List.not_mem_nil,or_false] at hc
  rcases hc with hc | (rfl | rfl | rfl) | hc | rfl | hc
  · exact (hprotocol c hc).2
  · decide
  · decide
  · decide
  · exact (hhost c hc).2
  · decide
  · exact ⟨(hpath c hc).1,(hpath c hc).2.1⟩

end Url

structure Holds (m : Mem) (u : Url) : Prop where
  protocol : m.read 0 u.protocol.length = u.protocol
  colon : m u.protocol.length = 0x3a
  slash1 : m (u.protocol.length + 1) = 0x2f
  slash2 : m (u.protocol.length + 2) = 0x2f
  host : m.read u.hostAt u.host.length = u.host
  slash3 : m u.hostEnd = 0x2f
  path : m.read u.pathAt u.path.length = u.path

theorem read_append {m : Mem} {off : Nat} {a b : List UInt8}
    (h : m.read off (a ++ b).length = a ++ b) :
    m.read off a.length = a ∧ m.read (off + a.length) b.length = b := by
  rw [List.length_append,Mem.read_add] at h
  exact List.append_inj h (Mem.read_length _ _ _)

theorem read_cons {m : Mem} {off : Nat} {b : UInt8} {bs : List UInt8}
    (h : m.read off (b :: bs).length = b :: bs) : m off = b ∧ m.read (off + 1) bs.length = bs := by
  rw [List.length_cons,Mem.read_succ] at h
  exact List.cons.inj h

theorem read_parts {m : Mem} {off : Nat} {s t : List UInt8} {c : UInt8}
    (h : m.read off (s ++ c :: t).length = s ++ c :: t) : m.read off s.length = s ∧
      m (off + s.length) = c ∧ m.read (off + s.length + 1) t.length = t := by
  rw [List.length_append,List.length_cons,Mem.read_add,Mem.read_succ] at h
  obtain ⟨hs,hct⟩ := List.append_inj h (Mem.read_length _ _ _)
  obtain ⟨hc,ht⟩ := List.cons.inj hct
  exact ⟨hs,hc,ht⟩

theorem holds_of_text {m : Mem} {u : Url} (h : m.read 0 u.text.length = u.text) : Holds m u := by
  rw [Url.text] at h
  obtain ⟨hprotocol,h⟩ := read_append h
  obtain ⟨hcolon,h⟩ := read_cons h
  obtain ⟨hslash1,h⟩ := read_cons h
  obtain ⟨hslash2,h⟩ := read_cons h
  obtain ⟨hhost,h⟩ := read_append (a := u.host) (b := 0x2f :: u.path) h
  obtain ⟨hslash3,hpath⟩ := read_cons h
  simp only [Nat.zero_add] at *
  exact ⟨hprotocol,hcolon,hslash1,hslash2,hhost,hslash3,hpath⟩

section Loop

variable {p : UrlParse} {i k n : Nat}

theorem urlLoop_skip (h : ∀ j < k, urlStep p (i + j) = p)
    (hend : p.st = .pathEnd → ∀ j < k, p.url (i + j) ≠ 0x0d ∧ p.url (i + j) ≠ 0x0a) :
    urlLoop (k + n) i p = urlLoop n (i + k) p := by
  induction k generalizing i with
  | zero => simp
  | succ k ih =>
    have hstay : ¬ (p.st = .pathEnd ∧ (p.url i = 0x0d ∨ p.url i = 0x0a)) := by
      rintro ⟨hst,he⟩
      have hne := hend hst 0 (Nat.succ_pos k)
      exact he.elim hne.1 hne.2
    have hstep : urlStep p i = p := h 0 (Nat.succ_pos k)
    rw [Nat.add_right_comm,urlLoop,if_neg hstay,hstep,ih]
    · congr 1
      omega
    · intro j hj
      rw [Nat.add_assoc,Nat.add_comm 1]
      exact h (j + 1) (by omega)
    · intro hst j hj
      rw [Nat.add_assoc,Nat.add_comm 1]
      exact hend hst (j + 1) (by omega)

theorem urlLoop_delim (h : p.st ≠ .pathEnd) :
    urlLoop (n + 1) i p = urlLoop n (i + 1) (urlStep p i) := by
  rw [urlLoop,if_neg fun hc => h hc.1]

end Loop

theorem read_get {m : Mem} {off : Nat} {s : List UInt8} (h : m.read off s.length = s) {P : UInt8 → Prop}
    (hs : ∀ c ∈ s, P c) {j : Nat} (hj : j < s.length) : P (m (off + j)) := by
  rw [(Mem.read_eq_iff m off s).1 h j hj]
  exact hs _ (List.getElem_mem hj)

theorem urlLoop_root {m : Mem} {u : Url} (h : Holds m u) (n : Nat) :
    urlLoop (u.protocol.length + (n + 1 + 1 + 1)) 0 ⟨m, .protocolEnd, none, none⟩ =
      urlLoop n u.hostAt ⟨u.rootMem m, .hostEnd, some u.hostAt, none⟩ := by
  have hprotocol : ∀ j < u.protocol.length, m j ≠ 0x3a := by
    intro j hj
    rw [← Nat.zero_add j]
    exact read_get h.protocol (fun c hc => (u.protocolClean c hc).1) hj
  -- the second slash, in the memory as it is when it is read
  have hslash2 : ((m.set u.protocol.length 0).set (u.protocol.length + 1) 0)
      (u.protocol.length + 1 + 1) = 0x2f := by
    rw [Mem.set_other _ _ (by omega),Mem.set_other _ _ (by omega)]
    exact h.slash2
  rw [urlLoop_skip (fun j hj => by simp [urlStep,hprotocol j hj]) (by simp),Nat.zero_add,
    urlLoop_delim (by simp)]
  simp only [urlStep,h.colon,if_true]
  rw [urlLoop_delim (by simp)]
  simp only [urlStep,Mem.set_other m 0 (show u.protocol.length + 1 ≠ u.protocol.length by omega),
    h.slash1,if_true]
  rw [urlLoop_delim (by simp)]
  simp only [urlStep,hslash2,if_true]
  rfl

theorem urlLoop_split {m : Mem} {u : Url} (h : Holds m u) (t : Nat) :
    urlLoop (u.text.length + t) 0 ⟨m, .protocolEnd, none, none⟩ =
      urlLoop t u.text.length ⟨u.splitMem m, .pathEnd, some u.hostAt, some u.pathAt⟩ := by
  have hlen : u.text.length + t =
      u.protocol.length + (u.host.length + (u.path.length + t + 1) + 1 + 1 + 1) := by
    rw [u.text_length]
    simp only [Url.pathAt,Url.hostEnd,Url.hostAt]
    omega
  have hhost : ∀ j < u.host.length, u.rootMem m (u.hostAt + j) ≠ 0x2f := by
    intro j hj
    rw [u.rootMem_other m (.inr (Nat.le_add_right _ _))]
    exact read_get h.host (fun c hc => (u.hostClean c hc).1) hj
  have hslash : u.rootMem m u.hostEnd = 0x2f :=
    (u.rootMem_other m (.inr (Nat.le_add_right _ _))).trans h.slash3
  have hpath : ∀ j < u.path.length, u.splitMem m (u.pathAt + j) ≠ 0x0d ∧
      u.splitMem m (u.pathAt + j) ≠ 0x0a := by
    intro j hj
    rw [u.splitMem_other m (.inr (by simp only [Url.pathAt,Url.hostEnd]; omega))]
    exact read_get h.path (fun c hc => (u.pathClean c hc).2) hj
  rw [hlen,urlLoop_root h,urlLoop_skip (fun j hj => by simp [urlStep,hhost j hj]) (by simp),
    urlLoop_delim (by simp)]
  simp only [urlStep,show u.hostAt + u.host.length = u.hostEnd from rfl,hslash,if_true]
  have hmem : (u.rootMem m).set u.hostEnd 0 = u.splitMem m := rfl
  rw [hmem,show u.hostEnd + 1 = u.pathAt from rfl,
    urlLoop_skip (fun j _ => by simp [urlStep]) (fun _ j hj => hpath j hj),← u.text_length]

inductive LineEnd
  | none
  | cr
  | lf
  | crlf
  deriving DecidableEq, Repr

def LineEnd.bytes : LineEnd → List UInt8
  | .none => []
  | .cr => [0x0d]
  | .lf => [0x0a]
  | .crlf => [0x0d,0x0a]

def Url.body (u : Url) (t : LineEnd) : List UInt8 := u.text ++ t.bytes

theorem Url.body_length (u : Url) (t : LineEnd) :
    (u.body t).length = u.text.length + t.bytes.length := by
  rw [Url.body,List.length_append]

theorem Url.body_nonzero (u : Url) (t : LineEnd) : ∀ c ∈ u.body t, c ≠ 0 := by
  intro c hc
  rcases List.mem_append.1 hc with hc | hc
  · exact (u.text_clean c hc).1
  · rintro rfl
    cases t <;> simp [LineEnd.bytes] at hc

/-- A byte that ends a string, or that the parser makes one of those. -/
def ends (b : UInt8) : Prop := b = 0 ∨ b = 0x0d

instance decidableEnds (b : UInt8) : Decidable (ends b) :=
  inferInstanceAs (Decidable (b = 0 ∨ b = 0x0d))

structure Split (m : Mem) (u : Url) : Prop where
  protocol : m.read 0 u.protocol.length = u.protocol
  protocolEnd : m u.protocol.length = 0
  host : m.read u.hostAt u.host.length = u.host
  hostEnd : m u.hostEnd = 0
  path : m.read u.pathAt u.path.length = u.path

section Strings

variable {size off : Nat} {m : Mem} {s : List UInt8}

theorem strIn_iff (hs : ∀ c ∈ s, c ≠ 0) (hread : m.read off s.length = s) :
    strIn size m off = .ok s ↔ off + s.length < size ∧ m (off + s.length) = 0 := by
  constructor
  · intro h
    simp only [strIn] at h
    split_ifs at h with hlt
    have hs : cString m off (size - off) = s := by simpa using h
    have hend := @cString_end m off (size - off) (by omega)
    rw [hs] at hlt hend
    exact ⟨hlt,hend⟩
  · rintro ⟨hlt,hend⟩
    have hc : cString m off (size - off) = s := cString_eq hs hread hend (by omega)
    simp only [strIn,hc]
    rw [if_pos hlt]

theorem strIn_ok (h : strIn size m off = .ok s) :
    (∀ c ∈ s, c ≠ 0) ∧ m.read off s.length = s ∧ off + s.length < size ∧ m (off + s.length) = 0 := by
  have heq := h
  simp only [strIn] at heq
  split_ifs at heq
  have hs : cString m off (size - off) = s := by simpa using heq
  have hnonzero : ∀ c ∈ s, c ≠ 0 := hs ▸ cString_nonzero
  have hread : m.read off s.length = s := hs ▸ cString_read
  exact ⟨hnonzero,hread,(strIn_iff hnonzero hread).1 h⟩

end Strings

/-! Of the strings of a split URL only the end of the path may have gone wrong. -/

section Pieces

variable {size : Nat} {v : Mem} {u : Url}

theorem protocol_read (h : Split v u) (hlt : u.text.length < size) :
    strIn size v 0 = .ok u.protocol := by
  have hlen := u.text_length
  simp only [Url.pathAt,Url.hostEnd,Url.hostAt] at hlen
  rw [strIn_iff (fun c hc => (u.protocolClean c hc).2.1) h.protocol,Nat.zero_add]
  exact ⟨by omega,h.protocolEnd⟩

theorem host_read (h : Split v u) (hlt : u.text.length < size) :
    strIn size v u.hostAt = .ok u.host := by
  have hlen := u.text_length
  simp only [Url.pathAt,Url.hostEnd] at hlen
  rw [strIn_iff (fun c hc => (u.hostClean c hc).2.1) h.host]
  exact ⟨by omega,h.hostEnd⟩

theorem path_read_iff (h : Split v u) (hlt : u.text.length < size) :
    strIn size v u.pathAt = .ok u.path ↔ v u.text.length = 0 := by
  rw [strIn_iff (fun c hc => (u.pathClean c hc).1) h.path,← u.text_length]
  exact ⟨fun hh => hh.2,fun hz => ⟨hlt,hz⟩⟩

end Pieces

section Shift

variable {size path i : Nat} {m : Mem}

theorem copy_append (m : Mem) (off : Nat) (a b : List UInt8) :
    (m.copy (off + a.length) b).copy off a = m.copy off (a ++ b) := by
  funext j
  by_cases ha : off ≤ j ∧ j < off + a.length
  · obtain ⟨k,rfl⟩ : ∃ k, j = off + k := ⟨j - off, by omega⟩
    have hk : k < a.length := by omega
    rw [Mem.copy_inside _ _ _ hk,Mem.copy_inside _ _ _ (by simp; omega),List.getElem_append_left hk]
  · rcases Nat.lt_or_ge j off with hj | hj
    · rw [Mem.copy_before _ _ _ hj,Mem.copy_before _ _ _ (by omega),Mem.copy_before _ _ _ hj]
    · rw [Mem.copy_after _ _ _ (by omega)]
      by_cases hb : j < off + (a ++ b).length
      · rw [List.length_append] at hb
        obtain ⟨k,rfl⟩ : ∃ k, j = off + a.length + k := ⟨j - (off + a.length), by omega⟩
        have hk : k < b.length := by omega
        rw [Mem.copy_inside _ _ _ hk,Nat.add_assoc,Mem.copy_inside _ _ _ (by simp; omega),
          List.getElem_append_right (by omega)]
        simp
      · rw [Mem.copy_after _ _ _ (by simp at hb; omega),Mem.copy_after _ _ _ (by omega)]

/-- From the end down, so that no byte is overwritten before it is copied. -/
theorem shiftRight_ok (h : path + i + 2 ≤ size) :
    shiftRight size path i m = .ok (m.copy (path + 1) (m.read path (i + 1))) := by
  induction i generalizing m with
  | zero => exact Mem.store_ok (by simp; omega)
  | succ i ih =>
    have hkeep : (m.copy (path + (i + 1) + 1) [m (path + (i + 1))]).read path (i + 1) =
        m.read path (i + 1) := Mem.read_congr fun j hj => Mem.copy_before _ _ _ (by omega)
    have hat : path + (i + 1) + 1 = path + 1 + (m.read path (i + 1)).length := by
      rw [Mem.read_length]
      omega
    have hlast : m.read (path + (i + 1)) 1 = [m (path + (i + 1))] := rfl
    rw [shiftRight,Mem.store_ok (by simp; omega)]
    show shiftRight size path i _ = _
    rw [ih (by omega),hkeep,hat,copy_append,Mem.read_add m path (i + 1) 1,hlast]

theorem shiftRight_out (h : size < path + i + 2) : ∃ e, shiftRight size path i m = .error e := by
  cases i with
  | zero => exact ⟨_,Mem.store_error (by simp; omega)⟩
  | succ i =>
    rw [shiftRight,Mem.store_error (by simp; omega)]
    exact ⟨_,rfl⟩

end Shift

section Parse

variable {m : Mem} {u : Url} {t : LineEnd} {i n : Nat}

theorem parse_cut {size : Nat} (hi : i < size) (hend : ends (m i)) (hfirst : ∀ j < i, ¬ ends (m j)) :
    sipfClientHttpParseURL size m n =
      let p := urlLoop n 0 ⟨m.set i 0, .protocolEnd, none, none⟩
      .ok ⟨if p.st ≠ .pathEnd then -1 else 0, p.url, p.host, p.path⟩ := by
  have hfind : (List.range size).find? (fun i => decide (m i = 0 ∨ m i = 0x0d)) = some i := by
    rw [List.find?_range_eq_some]
    exact ⟨decide_eq_true hend,List.mem_range.2 hi,fun j hj => by simpa [ends] using hfirst j hj⟩
  have hcr : strstrCr size m = .ok (if m i = 0x0d then some i else none) := by
    rw [strstrCr,hfind]
  rw [sipfClientHttpParseURL,hcr]
  by_cases hm : m i = 0x0d
  · rw [if_pos hm]
    rfl
  · have hzero : m i = 0 := hend.resolve_right hm
    have hset : m.set i 0 = m := by
      funext j
      by_cases hj : j = i
      · rw [hj,Mem.set_same,hzero]
      · rw [Mem.set_other _ _ hj]
    rw [if_neg hm,hset]
    rfl

theorem parse_out {size : Nat} (h : ∀ j < size, ¬ ends (m j)) :
    ∃ e, sipfClientHttpParseURL size m n = .error e := by
  have hfind : (List.range size).find? (fun i => decide (m i = 0 ∨ m i = 0x0d)) = none := by
    rw [List.find?_range_eq_none]
    exact fun j hj => by simpa [ends] using h j hj
  refine ⟨⟨size, 1, size⟩, ?_⟩
  rw [sipfClientHttpParseURL,strstrCr,hfind]
  rfl

theorem urlLoop_end (w : Mem) (host path : Option Nat) :
    ∃ v, urlLoop n i ⟨w, .pathEnd, host, path⟩ = ⟨v, .pathEnd, host, path⟩ ∧
      (∀ j < i, v j = w j) ∧ v i = if 0 < n ∧ (w i = 0x0d ∨ w i = 0x0a) then 0 else w i := by
  induction n generalizing i with
  | zero => exact ⟨w,rfl,fun _ _ => rfl,by simp⟩
  | succ n ih =>
    by_cases he : w i = 0x0d ∨ w i = 0x0a
    · refine ⟨w.set i 0, ?_,fun j hj => Mem.set_other _ _ (by omega), ?_⟩
      · rw [urlLoop,if_pos ⟨rfl,he⟩]
      · rw [if_pos ⟨Nat.succ_pos n,he⟩,Mem.set_same]
    · obtain ⟨v,hv,hbefore,_⟩ := ih (i := i + 1)
      refine ⟨v, ?_,fun j hj => hbefore j (by omega), ?_⟩
      · rw [urlLoop,if_neg fun hc => he hc.2]
        exact hv
      · rw [if_neg fun hc => he hc.2]
        exact hbefore i (by omega)

theorem splitMem_behind {j : Nat} (hj : u.pathAt ≤ j) : u.splitMem m j = m j := by
  apply u.splitMem_other
  simp only [Url.pathAt,Url.hostEnd] at hj ⊢
  omega

theorem split_of_holds {v : Mem} (h : Holds m u) (hv : ∀ j < u.text.length, v j = u.splitMem m j) :
    Split v u := by
  have hlen := u.text_length
  have hprotocol : u.protocol.length < u.hostEnd := by
    simp only [Url.hostEnd,Url.hostAt]
    omega
  have hat : u.hostAt + u.host.length = u.hostEnd := rfl
  have hpathAt : u.pathAt = u.hostEnd + 1 := rfl
  refine ⟨?_, ?_, ?_, ?_, ?_⟩
  · refine (Mem.read_congr fun j hj => ?_).trans h.protocol
    rw [hv _ (by omega),u.splitMem_other m (.inl (by omega))]
  · rw [hv _ (by omega),u.splitMem_protocolEnd]
  · refine (Mem.read_congr fun j hj => ?_).trans h.host
    rw [hv _ (by omega),u.splitMem_other m (.inr (by omega))]
  · rw [hv _ (by omega),u.splitMem_hostEnd]
  · refine (Mem.read_congr fun j hj => ?_).trans h.path
    rw [hv _ (by omega),splitMem_behind (Nat.le_add_right _ _)]

theorem body_read (hm : m.read 0 (u.body t).length = u.body t) :
    m.read 0 u.text.length = u.text ∧ m.read u.text.length t.bytes.length = t.bytes := by
  have h := read_append (a := u.text) (b := t.bytes) hm
  rwa [Nat.zero_add] at h

theorem text_not_ends (hm : m.read 0 (u.body t).length = u.body t) {j : Nat}
    (hj : j < u.text.length) : ¬ ends (m j) := by
  have hclean := read_get (body_read hm).1 (fun c hc => u.text_clean c hc) hj
  rw [Nat.zero_add] at hclean
  exact fun he => he.elim hclean.1 hclean.2

theorem lineEnd_first (hm : m.read 0 (u.body t).length = u.body t) (ht : t ≠ .none) :
    0 < t.bytes.length ∧ (m u.text.length = 0x0d ∨ m u.text.length = 0x0a) := by
  have hread := (body_read hm).2
  cases t with
  | none => exact absurd rfl ht
  | cr => exact ⟨Nat.one_pos,.inl (read_cons hread).1⟩
  | lf => exact ⟨Nat.one_pos,.inr (read_cons hread).1⟩
  | crlf => exact ⟨Nat.two_pos,.inl (read_cons hread).1⟩

theorem first_end {size : Nat} (hi : i < size) (hend : ends (m i)) :
    ∃ k, k ≤ i ∧ k < size ∧ ends (m k) ∧ ∀ j < k, ¬ ends (m j) := by
  have hex : ∃ k, ends (m k) := ⟨i,hend⟩
  classical
  have hle : Nat.find hex ≤ i := Nat.find_le hend
  exact ⟨Nat.find hex,hle,by omega,Nat.find_spec hex,fun j hj => Nat.find_min hex hj⟩

/-- `k` more bytes than the URL are looked at: of these only a line feed right behind it
makes a difference. -/
theorem parse_text {size : Nat} (hm : m.read 0 u.text.length = u.text) (hi : i < size)
    (hend : ends (m i)) (k : Nat) :
    ∃ v, sipfClientHttpParseURL size m (u.text.length + k) =
        .ok ⟨0, v, some u.hostAt, some u.pathAt⟩ ∧ Split v u ∧ u.text.length < size ∧
      (v u.text.length = 0 ↔ ends (m u.text.length) ∨ 0 < k ∧ m u.text.length = 0x0a) := by
  obtain ⟨e,-,he,heend,hfirst⟩ := first_end hi hend
  have hafter : u.text.length ≤ e := by
    by_contra hlt
    have hclean := read_get hm (fun c hc => u.text_clean c hc) (show e < u.text.length by omega)
    rw [Nat.zero_add] at hclean
    exact heend.elim hclean.1 hclean.2
  have htext : (m.set e 0).read 0 u.text.length = u.text := by
    conv_rhs => rw [← hm]
    exact Mem.read_congr fun j hj => Mem.set_other _ _ (by omega)
  have hholds := holds_of_text htext
  obtain ⟨v,hv,hbefore,hat⟩ := urlLoop_end (i := u.text.length) (n := k)
    (u.splitMem (m.set e 0)) (some u.hostAt) (some u.pathAt)
  refine ⟨v, ?_,split_of_holds hholds hbefore,by omega, ?_⟩
  · rw [parse_cut he heend hfirst,urlLoop_split hholds,hv]
    rfl
  · rw [splitMem_behind (by rw [u.text_length]; omega)] at hat
    by_cases hke : u.text.length = e
    · rw [hke,Mem.set_same,ite_self] at hat
      rw [hke]
      exact iff_of_true hat (.inl heend)
    · have hnot : ¬ ends (m u.text.length) := hfirst _ (by omega)
      obtain ⟨hzero,hcr⟩ := not_or.1 hnot
      rw [Mem.set_other _ _ hke] at hat
      rw [hat,or_iff_right hnot]
      simp [hzero,hcr]

/-- The split URL: only its end may have gone wrong. -/
theorem parse_body {size : Nat} (hm : m.read 0 (u.body t).length = u.body t) (hi : i < size)
    (hend : ends (m i)) :
    ∃ v, sipfClientHttpParseURL size m (u.body t).length =
        .ok ⟨0, v, some u.hostAt, some u.pathAt⟩ ∧ Split v u ∧ u.text.length < size ∧
      (v u.text.length = 0 ↔ t ≠ .none ∨ ends (m u.text.length)) := by
  obtain ⟨v,hv,hsplit,hlt,hzero⟩ := parse_text (body_read hm).1 hi hend t.bytes.length
  refine ⟨v,by rw [u.body_length,hv],hsplit,hlt,hzero.trans ?_⟩
  by_cases ht : t = .none
  · simp [ht,LineEnd.bytes]
  · obtain ⟨hpos,hbyte⟩ := lineEnd_first hm ht
    rcases hbyte with hcr | hlf
    · exact iff_of_true (.inl (.inr hcr)) (.inl ht)
    · exact iff_of_true (.inr ⟨hpos,hlf⟩) (.inl ht)

end Parse

end SipfClient.File
