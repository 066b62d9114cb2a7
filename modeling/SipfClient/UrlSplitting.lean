import SipfClient.FileUrlLaws
set_option autoImplicit false

namespace SipfClient.File
open ByteMem HexText CText Http Xmodem

structure Outputs (size : Nat) (out : ParsedUrl) (protocol host path : List UInt8) : Prop where
  ret : out.ret = 0
  protocol : strIn size out.url 0 = .ok protocol
  host : ∃ at', out.host = some at' ∧ strIn size out.url at' = .ok host
  path : ∃ at', out.path = some at' ∧ strIn size out.url at' = .ok path

/-- A URL with a line end behind it, whatever follows in the buffer, as long as a NUL does. -/
theorem url_splits (u : Url) {t : LineEnd} (ht : t ≠ .none) {size i : Nat} {m : Mem}
    (hm : m.read 0 (u.body t).length = u.body t) (hi : i < size) (hnul : m i = 0) {urlLen : Nat}
    (hlen : (u.body t).length ≤ urlLen) :
    ∃ out, sipfClientHttpParseURL size m urlLen = .ok out ∧
      Outputs size out u.protocol u.host u.path := by
  obtain ⟨hpos,hbyte⟩ := lineEnd_first hm ht
  obtain ⟨k,rfl⟩ : ∃ k, urlLen = u.text.length + (t.bytes.length + k) :=
    ⟨urlLen - (u.text.length + t.bytes.length),by rw [u.body_length] at hlen; omega⟩
  obtain ⟨v,hv,hsplit,hlt,hzero⟩ := parse_text (body_read hm).1 hi (.inl hnul) (t.bytes.length + k)
  have hend : v u.text.length = 0 := hzero.2 (by
    rcases hbyte with hcr | hlf
    · exact .inl (.inr hcr)
    · exact .inr ⟨by omega,hlf⟩)
  exact ⟨_,hv,rfl,protocol_read hsplit hlt,⟨_,rfl,host_read hsplit hlt⟩,
    ⟨_,rfl,(path_read_iff hsplit hlt).2 hend⟩⟩

/-- A path with a slash and a colon, and old bytes behind the line end. -/
theorem url_splits_nested : ∃ out, sipfClientHttpParseURL 20
      (Mem.ofList (ascii "http://h.a/f/1:2\n/x")) 18 = .ok out ∧
    Outputs 20 out (ascii "http") (ascii "h.a") (ascii "f/1:2") :=
  url_splits ⟨ascii "http", ascii "h.a", ascii "f/1:2", by decide +kernel, by decide +kernel,
      by decide +kernel⟩
    (show LineEnd.lf ≠ .none by decide) (show Mem.read _ 0 17 = _ by decide)
    (show 19 < 20 by decide) rfl (by decide)

def delimOf : UrlDelim → UInt8
  | .protocolEnd => 0x3a
  | _ => 0x2f

def UrlParse.advance (p : UrlParse) (i : Nat) : UrlParse :=
  match p.st with
  | .protocolEnd => { p with url := p.url.set i 0, st := .root1 }
  | .root1 => { p with url := p.url.set i 0, st := .root2 }
  | .root2 => { p with url := p.url.set i 0, host := some (i + 1), st := .hostEnd }
  | .hostEnd => { p with url := p.url.set i 0, path := some (i + 1), st := .pathEnd }
  | .pathEnd => p

section Scan

variable {p : UrlParse} {i k n : Nat}

theorem urlStep_other (h : p.url i ≠ delimOf p.st) : urlStep p i = p := by
  obtain ⟨url,st,host,path⟩ := p
  cases st <;> simp_all [urlStep,delimOf]

theorem urlStep_delim (h : p.url i = delimOf p.st) : urlStep p i = p.advance i := by
  obtain ⟨url,st,host,path⟩ := p
  cases st <;> simp_all [urlStep,delimOf,UrlParse.advance]

theorem urlLoop_finds (hst : p.st ≠ .pathEnd) (hfree : ∀ j < k, p.url (i + j) ≠ delimOf p.st)
    (hat : p.url (i + k) = delimOf p.st) :
    urlLoop (k + (n + 1)) i p = urlLoop n (i + k + 1) (p.advance (i + k)) := by
  rw [urlLoop_skip (fun j hj => urlStep_other (hfree j hj)) (fun h => absurd h hst),
    urlLoop_delim hst,urlStep_delim hat]

theorem urlLoop_lost (hst : p.st ≠ .pathEnd) (hfree : ∀ j < n, p.url (i + j) ≠ delimOf p.st) :
    urlLoop n i p = p :=
  urlLoop_skip (n := 0) (fun j hj => urlStep_other (hfree j hj)) (fun h => absurd h hst)

end Scan

/-- A text in which the parser finds its delimiters, whatever is between them. -/
structure UrlText (text protocol root1 root2 host rest : List UInt8) : Prop where
  text : text = protocol ++ 0x3a :: (root1 ++ 0x2f :: (root2 ++ 0x2f :: (host ++ 0x2f :: rest)))
  protocol : 0x3a ∉ protocol
  root1 : 0x2f ∉ root1
  root2 : 0x2f ∉ root2
  host : 0x2f ∉ host

/-- A string of `len` bytes whose first CR, or its NUL, is at `cut`. -/
structure CutText (m : Mem) (len cut : Nat) : Prop where
  text : ∀ j < len, m j ≠ 0
  nul : m len = 0
  inside : cut ≤ len
  atCut : ends (m cut)
  first : ∀ j < cut, ¬ ends (m j)

/-- A piece of the text that has become a string: it ends at the first CR of the text, if
that is not in front of it. -/
def upto (before s : List UInt8) : List UInt8 :=
  if 0x0d ∈ before then s else s.takeWhile (· ≠ 0x0d)

/-- The path ends at its line end; where the parser has seen none, it goes on to the end of
the text. -/
def pathOf (before rest behind : List UInt8) : List UInt8 :=
  if 0x0d ∈ rest ∨ 0x0a ∈ rest then rest.takeWhile fun c => c ≠ 0x0d ∧ c ≠ 0x0a
  else upto before (rest ++ behind)

section Cut

variable {m v : Mem} {size len cut off : Nat} {s : List UInt8} (h : CutText m len cut)
include h

theorem CutText.same {d : UInt8} (hd : d ≠ 0 ∧ d ≠ 0x0d) (j : Nat) : (m.set cut 0) j = d ↔ m j = d := by
  by_cases hj : j = cut
  · subst hj
    rw [Mem.set_same]
    refine iff_of_false (fun h0 => hd.1 h0.symm) fun hmd => ?_
    rcases h.atCut with h0 | hcr
    · exact hd.1 (hmd.symm.trans h0)
    · exact hd.2 (hmd.symm.trans hcr)
  · rw [Mem.set_other _ _ hj]

theorem CutText.cr (hlt : cut < len) : m cut = 0x0d := h.atCut.resolve_left (h.text cut hlt)

theorem CutText.first_cr {j : Nat} (hj : m j = 0x0d) : cut ≤ j := by
  by_contra hlt
  exact h.first j (by omega) (.inr hj)

theorem CutText.before_iff (hoff : off ≤ len) : 0x0d ∈ m.read 0 off ↔ cut < off := by
  simp only [Mem.read,List.mem_map,List.mem_range,Nat.zero_add]
  constructor
  · rintro ⟨j,hj,hcr⟩
    have hle := h.first_cr hcr
    omega
  · exact fun hlt => ⟨cut,hlt,h.cr (by omega)⟩

omit h in
theorem piece_read (hs : m.read off s.length = s) (hcut : cut < off ∨ off + s.length ≤ cut)
    (hv : ∀ j, off ≤ j → j < off + s.length → v j = (m.set cut 0) j) : v.read off s.length = s := by
  conv_rhs => rw [← hs]
  refine Mem.read_congr fun j hj => ?_
  rw [hv _ (by omega) (by omega),Mem.set_other _ _ (by omega)]

theorem CutText.clean (hs : m.read off s.length = s) (hin : off + s.length ≤ len) :
    ∀ c ∈ s, c ≠ 0 := fun c hc => by
  obtain ⟨j,hj,rfl⟩ := List.getElem_of_mem hc
  rw [← (Mem.read_eq_iff m off s).1 hs j hj]
  exact h.text _ (by omega)

theorem CutText.in_front (hs : m.read off s.length = s) (hin : off + s.length ≤ len)
    (hoff : off ≤ cut) (hcr : 0x0d ∉ s) : off + s.length ≤ cut := by
  by_contra hlt
  refine hcr ?_
  have hget := (Mem.read_eq_iff m off s).1 hs (cut - off) (by omega)
  rw [show off + (cut - off) = cut by omega,h.cr (by omega)] at hget
  rw [hget]
  exact List.getElem_mem _

theorem CutText.string (hsize : len < size) (hs : m.read off s.length = s)
    (hin : off + s.length ≤ len)
    (hv : ∀ j, off ≤ j → j < off + s.length → v j = (m.set cut 0) j)
    (hend : v (off + s.length) = 0) : strIn size v off = .ok (upto (m.read 0 off) s) := by
  have hclean := h.clean hs hin
  rw [upto]
  by_cases hbefore : 0x0d ∈ m.read 0 off
  · rw [if_pos hbefore]
    rw [h.before_iff (by omega)] at hbefore
    rw [strIn_iff hclean (piece_read hs (.inl hbefore) hv)]
    exact ⟨by omega,hend⟩
  · rw [if_neg hbefore]
    rw [h.before_iff (by omega)] at hbefore
    by_cases hcr : 0x0d ∈ s
    · obtain ⟨s1,s2,rfl,hs1⟩ := List.eq_append_cons_of_mem hcr
      obtain ⟨hread,hat,-⟩ := read_parts hs
      rw [List.length_append,List.length_cons] at hin hv
      have hcut : off + s1.length = cut :=
        le_antisymm (h.in_front hread (by omega) (by omega) hs1) (h.first_cr hat)
      have hpiece := piece_read hread (.inr hcut.le) fun j hj hlt => hv j hj (by omega)
      rw [takeWhile_before (by decide),takeWhile_ne hs1,
        strIn_iff (fun c hc => hclean c (List.mem_append_left _ hc)) hpiece]
      refine ⟨by omega,?_⟩
      rw [hv _ (by omega) (by omega),hcut,Mem.set_same]
    · have hcut := h.in_front hs hin (by omega) hcr
      rw [takeWhile_ne hcr,strIn_iff hclean (piece_read hs (.inr hcut) hv)]
      exact ⟨by omega,hend⟩

end Cut

theorem split_unique {d : UInt8} {a b s t : List UInt8} (h : a ++ d :: s = b ++ d :: t)
    (ha : d ∉ a) (hb : d ∉ b) : a = b ∧ s = t := by
  induction a generalizing b with
  | nil =>
    cases b with
    | nil => exact ⟨rfl,(List.cons.inj h).2⟩
    | cons c b => exact absurd (by rw [(List.cons.inj h).1]; exact List.mem_cons_self) hb
  | cons c a ih =>
    cases b with
    | nil => exact absurd (by rw [(List.cons.inj h).1]; exact List.mem_cons_self) ha
    | cons c' b =>
      obtain ⟨rfl,htail⟩ := List.cons.inj h
      obtain ⟨rfl,hst⟩ := ih htail (fun hm => ha (List.mem_cons_of_mem _ hm))
        (fun hm => hb (List.mem_cons_of_mem _ hm))
      exact ⟨rfl,hst⟩

theorem upto_clean {before t : List UInt8} (ht : 0x0d ∉ t) : upto before t = t := by
  rw [upto]
  split
  · rfl
  · exact takeWhile_ne ht

theorem first_lineEnd {s : List UInt8} (h : 0x0d ∈ s ∨ 0x0a ∈ s) : ∃ a c t, s = a ++ c :: t ∧
    (c = 0x0d ∨ c = 0x0a) ∧ ∀ x ∈ a, x ≠ 0x0d ∧ x ≠ 0x0a := by
  induction s with
  | nil => simp at h
  | cons b s ih =>
    by_cases hb : b = 0x0d ∨ b = 0x0a
    · exact ⟨[],b,s,rfl,hb,by simp⟩
    · obtain ⟨hcr,hlf⟩ := not_or.1 hb
      simp only [List.mem_cons,Ne.symm hcr,Ne.symm hlf,false_or] at h
      obtain ⟨a,c,t,rfl,hc,ha⟩ := ih h
      exact ⟨b :: a,c,t,rfl,hc,by simpa using ⟨⟨hcr,hlf⟩,ha⟩⟩

section Stages

variable {m : Mem} {len cut : Nat} (h : CutText m len cut) {p : UrlParse} {i : Nat}
  {s : List UInt8}

theorem advance_url (hst : p.st ≠ .pathEnd) (i : Nat) : (p.advance i).url = p.url.set i 0 := by
  obtain ⟨url,st,host,path⟩ := p
  cases st with
  | pathEnd => exact absurd rfl hst
  | protocolEnd | root1 | root2 | hostEnd => rfl

include h

theorem urlLoop_stage (hs : m.read i s.length = s) (hst : p.st ≠ .pathEnd)
    (hmem : ∀ j, i ≤ j → p.url j = (m.set cut 0) j) :
    delimOf p.st ∉ s ∧ urlLoop s.length i p = p ∨
    ∃ a t, s = a ++ delimOf p.st :: t ∧ delimOf p.st ∉ a ∧
      m.read (i + a.length + 1) t.length = t ∧
      urlLoop s.length i p = urlLoop t.length (i + a.length + 1) (p.advance (i + a.length)) ∧
      ∀ j, i + a.length + 1 ≤ j → (p.advance (i + a.length)).url j = (m.set cut 0) j := by
  have hdelim : delimOf p.st ≠ 0 ∧ delimOf p.st ≠ 0x0d := by cases p.st <;> decide
  have hat : ∀ j, i ≤ j → (p.url j = delimOf p.st ↔ m j = delimOf p.st) := fun j hj => by
    rw [hmem j hj,h.same hdelim]
  have hfree : ∀ a : List UInt8, m.read i a.length = a → delimOf p.st ∉ a →
      ∀ j < a.length, p.url (i + j) ≠ delimOf p.st := by
    intro a ha hnot j hj heq
    rw [hat _ (by omega),(Mem.read_eq_iff m i a).1 ha j hj] at heq
    exact hnot (heq ▸ List.getElem_mem hj)
  by_cases hin : delimOf p.st ∈ s
  · right
    obtain ⟨a,t,rfl,ha⟩ := List.eq_append_cons_of_mem hin
    obtain ⟨hread,hd,ht⟩ := read_parts hs
    refine ⟨a,t,rfl,ha,ht,?_,fun j hj => ?_⟩
    · rw [List.length_append,List.length_cons]
      exact urlLoop_finds hst (hfree a hread ha) ((hat _ (by omega)).2 hd)
    · rw [advance_url hst,Mem.set_other _ _ (by omega),hmem j (by omega)]
  · exact .inl ⟨hin,urlLoop_lost hst (hfree s hs hin)⟩

theorem urlLoop_text (hs : m.read 0 s.length = s) :
    (∃ a x y b r, UrlText s a x y b r ∧ ∃ w : Mem,
      (∀ j, (j < a.length ∨ a.length + x.length + y.length + 3 ≤ j ∧
        j ≠ a.length + x.length + y.length + b.length + 3) → w j = (m.set cut 0) j) ∧
      w a.length = 0 ∧ w (a.length + x.length + y.length + b.length + 3) = 0 ∧
      urlLoop s.length 0 ⟨m.set cut 0, .protocolEnd, none, none⟩ =
        urlLoop r.length (a.length + x.length + y.length + b.length + 4)
          ⟨w, .pathEnd, some (a.length + x.length + y.length + 3),
            some (a.length + x.length + y.length + b.length + 4)⟩) ∨
    (urlLoop s.length 0 ⟨m.set cut 0, .protocolEnd, none, none⟩).st ≠ .pathEnd ∧
      ∀ a x y b r, ¬ UrlText s a x y b r := by
  rcases urlLoop_stage h (p := ⟨m.set cut 0, .protocolEnd, none, none⟩) hs (by simp) (fun _ _ => rfl)
    with ⟨hno,hloop⟩ | ⟨a,s1,hcut1,ha,hs1,hloop1,hmem1⟩
  · right
    rw [hloop]
    refine ⟨by simp,fun a x y b r ht => hno ?_⟩
    rw [ht.text]
    simp [delimOf]
  simp only [delimOf] at hcut1 ha
  rcases urlLoop_stage h hs1 (by simp [UrlParse.advance]) hmem1
    with ⟨hno,hloop⟩ | ⟨x,s2,hcut2,hx,hs2,hloop2,hmem2⟩
  · right
    rw [hloop1,hloop]
    refine ⟨by simp [UrlParse.advance],fun a' x y b r ht => hno ?_⟩
    obtain ⟨-,rfl⟩ := split_unique (hcut1.symm.trans ht.text) ha ht.protocol
    simp [delimOf,UrlParse.advance]
  simp only [delimOf,UrlParse.advance] at hcut2 hx
  rcases urlLoop_stage h hs2 (by simp [UrlParse.advance]) hmem2
    with ⟨hno,hloop⟩ | ⟨y,s3,hcut3,hy,hs3,hloop3,hmem3⟩
  · right
    rw [hloop1,hloop2,hloop]
    refine ⟨by simp [UrlParse.advance],fun a' x' y b r ht => hno ?_⟩
    obtain ⟨-,hrest⟩ := split_unique (hcut1.symm.trans ht.text) ha ht.protocol
    obtain ⟨-,rfl⟩ := split_unique (hcut2.symm.trans hrest) hx ht.root1
    simp [delimOf,UrlParse.advance]
  simp only [delimOf,UrlParse.advance] at hcut3 hy
  rcases urlLoop_stage h hs3 (by simp [UrlParse.advance]) hmem3
    with ⟨hno,hloop⟩ | ⟨b,r,hcut4,hb,-,hloop4,hmem4⟩
  · right
    rw [hloop1,hloop2,hloop3,hloop]
    refine ⟨by simp [UrlParse.advance],fun a' x' y' b r ht => hno ?_⟩
    obtain ⟨-,hrest⟩ := split_unique (hcut1.symm.trans ht.text) ha ht.protocol
    obtain ⟨-,hrest⟩ := split_unique (hcut2.symm.trans hrest) hx ht.root1
    obtain ⟨-,rfl⟩ := split_unique (hcut3.symm.trans hrest) hy ht.root2
    simp [delimOf,UrlParse.advance]
  simp only [delimOf,UrlParse.advance] at hcut4 hb
  have hat2 : a.length + 1 + x.length = a.length + x.length + 1 := by omega
  have hat3 : a.length + x.length + 1 + 1 + y.length = a.length + x.length + y.length + 2 := by omega
  have hat4 : a.length + x.length + y.length + 2 + 1 + b.length =
      a.length + x.length + y.length + b.length + 3 := by omega
  left
  refine ⟨a,x,y,b,r,⟨by rw [hcut1,hcut2,hcut3,hcut4],ha,hx,hy,hb⟩,
    ((((m.set cut 0).set a.length 0).set (a.length + x.length + 1) 0).set
      (a.length + x.length + y.length + 2) 0).set (a.length + x.length + y.length + b.length + 3) 0,
    fun j hj => ?_,?_,Mem.set_same _ _ _,?_⟩
  · rw [Mem.set_other _ _ (by omega),Mem.set_other _ _ (by omega),Mem.set_other _ _ (by omega),
      Mem.set_other _ _ (by omega)]
  · rw [Mem.set_other _ _ (by omega),Mem.set_other _ _ (by omega),Mem.set_other _ _ (by omega),
      Mem.set_same]
  · rw [hloop1,hloop2,hloop3,hloop4]
    simp only [UrlParse.advance,hat2,hat3,hat4,Nat.zero_add]

section Path

variable {size at' : Nat} {w : Mem} {r : List UInt8} (hmem : ∀ j, at' ≤ j → w j = (m.set cut 0) j)
include hmem

omit h in
theorem path_byte {j : Nat} (hj : at' ≤ j) : w j = 0 ∨ w j = m j := by
  rw [hmem j hj]
  by_cases hc : j = cut
  · exact .inl (by rw [hc,Mem.set_same])
  · exact .inr (Mem.set_other _ _ hc)

omit h in
theorem path_free {a : List UInt8} (ha : m.read at' a.length = a)
    (hall : ∀ c ∈ a, c ≠ 0x0d ∧ c ≠ 0x0a) :
    ∀ j < a.length, w (at' + j) ≠ 0x0d ∧ w (at' + j) ≠ 0x0a := by
  intro j hj
  rcases path_byte hmem (Nat.le_add_right at' j) with h0 | hm
  · rw [h0]
    decide
  · rw [hm]
    exact read_get ha hall hj

theorem path_ends (hsize : len < size) (hr : m.read at' r.length = r) (hin : at' + r.length ≤ len)
    (hend : 0x0d ∈ r ∨ 0x0a ∈ r) (host path : Option Nat) :
    ∃ v, urlLoop r.length at' ⟨w, .pathEnd, host, path⟩ = ⟨v, .pathEnd, host, path⟩ ∧
      (∀ j < at', v j = w j) ∧
      strIn size v at' = .ok (r.takeWhile fun c => c ≠ 0x0d ∧ c ≠ 0x0a) := by
  obtain ⟨a,c,t,rfl,hc,ha⟩ := first_lineEnd hend
  obtain ⟨hread,hat,-⟩ := read_parts hr
  obtain ⟨v,hv,hbefore,hvat⟩ := urlLoop_end (i := at' + a.length) (n := t.length + 1) w host path
  have hzero : v (at' + a.length) = 0 := by
    rw [hvat]
    split
    · rfl
    · rename_i hno
      refine (path_byte hmem (Nat.le_add_right at' a.length)).resolve_right fun hm => hno ?_
      rw [hm,hat]
      exact ⟨Nat.succ_pos _,hc⟩
  have htake : (a ++ c :: t).takeWhile (fun c => c ≠ 0x0d ∧ c ≠ 0x0a) = a := by
    rw [takeWhile_before (by rcases hc with rfl | rfl <;> decide)]
    exact List.takeWhile_eq_self_iff.2 fun x hx => by simpa using ha x hx
  rw [List.length_append,List.length_cons] at hin
  refine ⟨v,?_,fun j hj => hbefore j (by omega),?_⟩
  · rw [List.length_append,List.length_cons,
      urlLoop_skip (fun j _ => rfl) fun _ => path_free hmem hread ha]
    exact hv
  · rw [htake,h.string hsize hread (by omega) (fun j hj hlt => ?_) hzero,
      upto_clean fun hcr => (ha _ hcr).1 rfl]
    rw [hbefore j hlt,hmem j hj]

theorem path_goes_on (hsize : len < size) (hr : m.read at' r.length = r)
    (hin : at' + r.length ≤ len) (hend : ¬ (0x0d ∈ r ∨ 0x0a ∈ r)) (host path : Option Nat) :
    urlLoop r.length at' ⟨w, .pathEnd, host, path⟩ = ⟨w, .pathEnd, host, path⟩ ∧
      strIn size w at' =
        .ok (upto (m.read 0 at') (r ++ m.read (at' + r.length) (len - (at' + r.length)))) := by
  have hall : ∀ c ∈ r, c ≠ 0x0d ∧ c ≠ 0x0a := fun c hc =>
    ⟨fun h0 => hend (.inl (h0 ▸ hc)),fun h0 => hend (.inr (h0 ▸ hc))⟩
  have hwhole : m.read at' (len - at') = r ++ m.read (at' + r.length) (len - (at' + r.length)) := by
    conv_lhs => rw [show len - at' = r.length + (len - (at' + r.length)) by omega,Mem.read_add,hr]
  constructor
  · have hskip := urlLoop_skip (n := 0) (k := r.length) (i := at')
      (p := ⟨w, .pathEnd, host, path⟩) (fun j _ => rfl) fun _ => path_free hmem hr hall
    exact hskip
  · rw [← hwhole]
    refine h.string hsize (by rw [Mem.read_length]) (by rw [Mem.read_length]; omega)
      (fun j hj _ => hmem j hj) ?_
    rw [Mem.read_length,show at' + (len - at') = len by omega,hmem len (by omega)]
    by_cases hc : len = cut
    · rw [← hc,Mem.set_same]
    · rw [Mem.set_other _ _ hc,h.nul]

theorem path_reads (hsize : len < size) (hr : m.read at' r.length = r) (hin : at' + r.length ≤ len)
    (host path : Option Nat) :
    ∃ v, urlLoop r.length at' ⟨w, .pathEnd, host, path⟩ = ⟨v, .pathEnd, host, path⟩ ∧
      (∀ j < at', v j = w j) ∧ strIn size v at' =
        .ok (pathOf (m.read 0 at') r (m.read (at' + r.length) (len - (at' + r.length)))) := by
  rw [pathOf]
  by_cases hend : 0x0d ∈ r ∨ 0x0a ∈ r
  · rw [if_pos hend]
    exact path_ends h hmem hsize hr hin hend host path
  · rw [if_neg hend]
    obtain ⟨hloop,hstr⟩ := path_goes_on h hmem hsize hr hin hend host path
    exact ⟨w,hloop,fun _ _ => rfl,hstr⟩

end Path

end Stages

theorem upto_congr {before before' : List UInt8} (h : 0x0d ∈ before ↔ 0x0d ∈ before')
    (s : List UInt8) : upto before s = upto before' s := by
  simp only [upto,h]

theorem pathOf_congr {before before' : List UInt8} (h : 0x0d ∈ before ↔ 0x0d ∈ before')
    (rest behind : List UInt8) : pathOf before rest behind = pathOf before' rest behind := by
  simp only [pathOf,upto_congr h]

theorem UrlText.reads {m : Mem} {s a x y b r : List UInt8} (ht : UrlText s a x y b r)
    (hs : m.read 0 s.length = s) :
    m.read 0 a.length = a ∧
    m.read 0 (a.length + x.length + y.length + 3) = a ++ 0x3a :: (x ++ 0x2f :: (y ++ [0x2f])) ∧
    m.read (a.length + x.length + y.length + 3) b.length = b ∧
    m.read 0 (a.length + x.length + y.length + b.length + 4) =
      a ++ 0x3a :: (x ++ 0x2f :: (y ++ 0x2f :: (b ++ [0x2f]))) ∧
    m.read (a.length + x.length + y.length + b.length + 4) r.length = r := by
  have hroot : s = (a ++ 0x3a :: (x ++ 0x2f :: (y ++ [0x2f]))) ++ (b ++ 0x2f :: r) := by
    simp [ht.text]
  have hall : s = (a ++ 0x3a :: (x ++ 0x2f :: (y ++ 0x2f :: (b ++ [0x2f])))) ++ r := by
    simp [ht.text]
  have hlen3 : (a ++ 0x3a :: (x ++ 0x2f :: (y ++ [0x2f]))).length =
      a.length + x.length + y.length + 3 := by
    simp only [List.length_append,List.length_cons,List.length_nil]
    omega
  have hlen4 : (a ++ 0x3a :: (x ++ 0x2f :: (y ++ 0x2f :: (b ++ [0x2f])))).length =
      a.length + x.length + y.length + b.length + 4 := by
    simp only [List.length_append,List.length_cons,List.length_nil]
    omega
  have hwhole : ∀ pre post, s = pre ++ post →
      m.read 0 pre.length = pre ∧ m.read (0 + pre.length) post.length = post := fun pre post h => by
    rw [h] at hs
    exact read_append hs
  have hread3 := hwhole _ _ hroot
  have hread4 := hwhole _ _ hall
  rw [hlen3,Nat.zero_add] at hread3
  rw [hlen4,Nat.zero_add] at hread4
  exact ⟨(hwhole _ _ ht.text).1,hread3.1,(read_parts hread3.2).1,hread4.1,hread4.2⟩

theorem parse_text_cases {m : Mem} {len cut : Nat} (h : CutText m len cut) {size : Nat}
    (hsize : len < size) {s : List UInt8} (hs : m.read 0 s.length = s) (hlen : s.length ≤ len) :
    ∃ out, sipfClientHttpParseURL size m s.length = .ok out ∧
      ((∃ protocol root1 root2 host rest, UrlText s protocol root1 root2 host rest ∧
        Outputs size out (upto [] protocol) (upto (protocol ++ root1 ++ root2) host)
          (pathOf (protocol ++ root1 ++ root2 ++ host) rest (m.read s.length (len - s.length)))) ∨
      out.ret = -1 ∧ ∀ protocol root1 root2 host rest, ¬ UrlText s protocol root1 root2 host rest) := by
  rw [parse_cut (lt_of_le_of_lt h.inside hsize) h.atCut h.first]
  rcases urlLoop_text h hs with ⟨a,x,y,b,r,ht,w,hw,hw0,hw3,hrun⟩ | ⟨hst,hno⟩
  · obtain ⟨hreada,hread3,hreadb,hread4,hreadr⟩ := ht.reads hs
    have hlength : s.length = a.length + x.length + y.length + b.length + 4 + r.length := by
      have hl := congrArg List.length ht.text
      simp only [List.length_append,List.length_cons] at hl
      omega
    obtain ⟨v,hv,hbefore,hpath⟩ := path_reads h (fun j hj => hw j (.inr ⟨by omega,by omega⟩)) hsize
      hreadr (by omega) (some (a.length + x.length + y.length + 3))
      (some (a.length + x.length + y.length + b.length + 4))
    have hprotocol : strIn size v 0 = .ok (upto [] a) := by
      refine h.string hsize hreada (by omega) (fun j _ hj => ?_) ?_
      · rw [hbefore j (by omega),hw j (.inl (by omega))]
      · rw [Nat.zero_add,hbefore _ (by omega),hw0]
    have hhost : strIn size v (a.length + x.length + y.length + 3) = .ok (upto (a ++ x ++ y) b) := by
      have hend : v (a.length + x.length + y.length + 3 + b.length) = 0 := by
        rw [show a.length + x.length + y.length + 3 + b.length =
          a.length + x.length + y.length + b.length + 3 by omega,hbefore _ (by omega),hw3]
      rw [h.string hsize hreadb (by omega) (fun j hj hlt => ?_) hend,hread3]
      · exact congrArg Except.ok (upto_congr (by simp) b)
      · rw [hbefore j (by omega),hw j (.inr ⟨hj,by omega⟩)]
    rw [hread4,← hlength,pathOf_congr (show _ ↔ 0x0d ∈ a ++ x ++ y ++ b by simp)] at hpath
    rw [hrun,hv]
    exact ⟨_,rfl,.inl ⟨a,x,y,b,r,ht,rfl,hprotocol,⟨_,rfl,hhost⟩,⟨_,rfl,hpath⟩⟩⟩
  · exact ⟨_,rfl,.inr ⟨if_pos hst,hno⟩⟩

/-- Exactly the texts with the delimiters in this order are accepted, and their pieces are the
strings that come out. -/
theorem parse_accepts {m : Mem} {len : Nat} (htext : ∀ j < len, m j ≠ 0) (hnul : m len = 0)
    {size : Nat} (hsize : len < size) {urlLen : Nat} (hlen : urlLen ≤ len) :
    ∃ out, sipfClientHttpParseURL size m urlLen = .ok out ∧
      ((∃ protocol root1 root2 host rest,
        UrlText (m.read 0 urlLen) protocol root1 root2 host rest ∧
        Outputs size out (upto [] protocol) (upto (protocol ++ root1 ++ root2) host)
          (pathOf (protocol ++ root1 ++ root2 ++ host) rest (m.read urlLen (len - urlLen)))) ∨
      out.ret = -1 ∧ ∀ protocol root1 root2 host rest,
        ¬ UrlText (m.read 0 urlLen) protocol root1 root2 host rest) := by
  obtain ⟨cut,hcut,-,hend,hfirst⟩ := first_end hsize (.inl hnul)
  have hcases := parse_text_cases ⟨htext,hnul,hcut,hend,hfirst⟩ hsize
    (show m.read 0 (m.read 0 urlLen).length = m.read 0 urlLen by rw [Mem.read_length])
    (by rw [Mem.read_length]; exact hlen)
  rwa [Mem.read_length] at hcases

def strayText : List UInt8 := [0x68,0x3a,0x61,0x2f,0x62,0x2f,0x63,0x2f,0x64]

theorem parse_accepts_stray : ∃ out, sipfClientHttpParseURL 10 (Mem.ofList strayText) 9 = .ok out ∧
    ((∃ protocol root1 root2 host rest,
      UrlText ((Mem.ofList strayText).read 0 9) protocol root1 root2 host rest ∧
      Outputs 10 out (upto [] protocol) (upto (protocol ++ root1 ++ root2) host)
        (pathOf (protocol ++ root1 ++ root2 ++ host) rest ((Mem.ofList strayText).read 9 (9 - 9)))) ∨
    out.ret = -1 ∧ ∀ protocol root1 root2 host rest,
      ¬ UrlText ((Mem.ofList strayText).read 0 9) protocol root1 root2 host rest) :=
  parse_accepts (show ∀ j < 9, Mem.ofList strayText j ≠ 0 by decide) rfl (show 9 < 10 by decide) le_rfl

/-- A colon and three slashes are accepted, although they make no URL. -/
theorem stray_bytes_accepted :
    (sipfClientHttpParseURL 10 (Mem.ofList strayText) 9).toOption.map (fun out => out.ret) = some 0 ∧
    ∀ protocol host path, 0x3a ∉ protocol →
      strayText ≠ protocol ++ [0x3a,0x2f,0x2f] ++ host ++ 0x2f :: path := by
  refine ⟨by decide +kernel,fun protocol host path hp heq => ?_⟩
  have hcut : [0x68] ++ 0x3a :: strayText.drop 2 =
      protocol ++ 0x3a :: (0x2f :: 0x2f :: (host ++ 0x2f :: path)) := by
    simpa [strayText] using heq
  obtain ⟨-,hrest⟩ := split_unique hcut (by decide) hp
  exact absurd (List.cons.inj hrest).1 (by decide)

end SipfClient.File
