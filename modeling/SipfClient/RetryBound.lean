import SipfClient.LostAck
set_option autoImplicit false

/-!
How many results other than OK the loop of the payload callback puts up with in a
row. Only RETRY is counted: DUP, FAILED, TIMEOUT and the codes outside the
enumeration send it round again as it was.
-/

namespace SipfClient.Xmodem
open ByteMem HexText Loops Command

section
variable {ρ : Type} {recv : Receiver ρ}

def Returns (recv : Receiver ρ) : FputLoop ρ → List XmodemRecvRet → Prop
  | _, [] => True
  | s, ret :: results => (recv s.bn s.block s.io).ret = ret ∧
      ∀ s', fputBody recv s = .inl s' → Returns recv s' results

/-- No twelve results in a row, none of them OK, with the loop going round on each. -/
def GivesUp (recv : Receiver ρ) (start : FputLoop ρ) (results : List XmodemRecvRet) : Prop :=
  ∀ before row behind, results = before ++ row ++ behind → row.length = 12 → .ok ∉ row →
    ¬ ∃ s, Rounds (fputBody recv) (before.length + 12) start s

/-- Every row the loop gets to from an OK or from its start has a result that ends the
transfer, or is made of RETRY alone. -/
def Counted (recv : Receiver ρ) (start : FputLoop ρ) (results : List XmodemRecvRet) : Prop :=
  ∀ before row behind, results = before ++ row ++ behind → row.length = 12 → .ok ∉ row →
    (before = [] ∨ before.getLast? = some .ok) →
    (∃ s, Rounds (fputBody recv) before.length start s) →
    .finished ∈ row ∨ .canceled ∈ row ∨ row = List.replicate 12 .retry

theorem round_stays_iff {s : FputLoop ρ} {ret : XmodemRecvRet}
    (hret : (recv s.bn s.block s.io).ret = ret) (hok : ret ≠ .ok) :
    (∃ s', fputBody recv s = .inl s') ↔
      ret ≠ .finished ∧ ret ≠ .canceled ∧ (ret = .retry → s.cntRetry ≤ 10) := by
  have hsame : (receive recv s.bn s.block s.io).ret = ret := hret
  cases ret with
  | ok => exact absurd rfl hok
  | finished | canceled => simp [fputBody,hsame]
  | retry =>
    by_cases hc : 10 < s.cntRetry
    · have hlt : ¬ s.cntRetry ≤ 10 := by omega
      simp [fputBody,hsame,hc,hlt]
    · have hle : s.cntRetry ≤ 10 := by omega
      simp [fputBody,hsame,hc,hle]
  | dup | failed | timeout | other e => simp [fputBody,hsame]

theorem round_counts {s s' : FputLoop ρ} {ret : XmodemRecvRet}
    (hret : (recv s.bn s.block s.io).ret = ret) (hok : ret ≠ .ok) (h : fputBody recv s = .inl s') :
    s'.cntRetry = s.cntRetry + [ret].count .retry := by
  have hsame : (receive recv s.bn s.block s.io).ret = ret := hret
  cases ret with
  | ok => exact absurd rfl hok
  | finished | canceled => simp [fputBody,hsame] at h
  | retry =>
    simp only [fputBody,hsame] at h
    split at h
    · cases h
    · cases h
      rfl
  | dup | failed | timeout | other e =>
    simp only [fputBody,hsame] at h
    cases h
    rfl

theorem round_bounded {s s' : FputLoop ρ} {ret : XmodemRecvRet}
    (hret : (recv s.bn s.block s.io).ret = ret) (hok : ret ≠ .ok) (hcnt : s.cntRetry ≤ 11)
    (h : fputBody recv s = .inl s') : s'.cntRetry ≤ 11 := by
  rw [round_counts hret hok h]
  by_cases hr : ret = .retry
  · have hle := ((round_stays_iff hret hok).1 ⟨s',h⟩).2.2 hr
    rw [hr,List.count_singleton_self]
    omega
  · rw [List.count_eq_zero_of_not_mem (by simpa using Ne.symm hr)]
    exact hcnt

theorem round_restarts {s s' : FputLoop ρ} (hret : (recv s.bn s.block s.io).ret = .ok)
    (h : fputBody recv s = .inl s') : s'.cntRetry = 0 := by
  have hsame : (receive recv s.bn s.block s.io).ret = .ok := hret
  simp only [fputBody,hsame] at h
  split at h
  · cases h
  · cases h
    rfl

theorem Returns.append {s : FputLoop ρ} {before rest : List XmodemRecvRet}
    (h : Returns recv s (before ++ rest)) {s' : FputLoop ρ}
    (hs : Rounds (fputBody recv) before.length s s') : Returns recv s' rest := by
  induction before generalizing s with
  | nil =>
    cases hs
    exact h
  | cons ret before ih =>
    cases hs with
    | next hb hs => exact ih (h.2 _ hb) hs

theorem Returns.head {s : FputLoop ρ} {results rest : List XmodemRecvRet}
    (h : Returns recv s (results ++ rest)) : Returns recv s results := by
  induction results generalizing s with
  | nil => exact trivial
  | cons ret results ih => exact ⟨h.1,fun s' hs => ih (h.2 s' hs)⟩

theorem Returns.last {s s' : FputLoop ρ} {before rest : List XmodemRecvRet}
    (h : Returns recv s (before ++ rest)) (hlast : before.getLast? = some .ok)
    (hs : Rounds (fputBody recv) before.length s s') : s'.cntRetry = 0 := by
  obtain ⟨init,rfl⟩ := List.getLast?_eq_some_iff.1 hlast
  rw [List.append_assoc] at h
  rw [List.length_append] at hs
  obtain ⟨s1,hinit,hone⟩ := hs.split
  cases hone with
  | next hb hs =>
    cases hs
    exact round_restarts (h.append hinit).1 hb

/-- The loop outlasts a row without an OK exactly if nothing in it ends the transfer and
the retries, those counted before included, stay below twelve. -/
theorem row_outlasted_iff {s : FputLoop ρ} {row : List XmodemRecvRet} (h : Returns recv s row)
    (hok : .ok ∉ row) (hcnt : s.cntRetry ≤ 11) :
    (∃ s', Rounds (fputBody recv) row.length s s') ↔
      .finished ∉ row ∧ .canceled ∉ row ∧ s.cntRetry + row.count .retry ≤ 11 := by
  induction row generalizing s with
  | nil => exact ⟨fun _ => ⟨by simp,by simp,by simpa using hcnt⟩,fun _ => ⟨s,.refl s⟩⟩
  | cons ret row ih =>
    obtain ⟨hret,hrest⟩ := h
    simp only [List.mem_cons,not_or] at hok ⊢
    have hne := Ne.symm hok.1
    have hcount : (ret :: row).count .retry = [ret].count .retry + row.count .retry :=
      @List.count_append _ _ .retry [ret] row
    rw [hcount,← Nat.add_assoc]
    constructor
    · rintro ⟨s',hs⟩
      cases hs with
      | next hb hs =>
        obtain ⟨hf,hk,hc⟩ := (round_stays_iff hret hne).1 ⟨_,hb⟩
        have hcnt' := round_bounded hret hne hcnt hb
        obtain ⟨hf',hk',hn⟩ := (ih (hrest _ hb) hok.2 hcnt').1 ⟨s',hs⟩
        rw [round_counts hret hne hb] at hn
        exact ⟨⟨hf.symm,hf'⟩,⟨hk.symm,hk'⟩,hn⟩
    · rintro ⟨hf,hk,hn⟩
      have hretry : ret = .retry → s.cntRetry ≤ 10 := by
        rintro rfl
        rw [List.count_singleton_self] at hn
        omega
      obtain ⟨s1,hb⟩ := (round_stays_iff hret hne).2 ⟨Ne.symm hf.1,Ne.symm hk.1,hretry⟩
      rw [← round_counts hret hne hb] at hn
      obtain ⟨s',hs⟩ := (ih (hrest _ hb) hok.2 (by omega)).2 ⟨hf.2,hk.2,hn⟩
      exact ⟨s',.next hb hs⟩

theorem row_left_iff {s : FputLoop ρ} {row : List XmodemRecvRet} (h : Returns recv s row)
    (hok : .ok ∉ row) (hlen : row.length = 12) (hcnt : s.cntRetry = 0) :
    (¬ ∃ s', Rounds (fputBody recv) 12 s s') ↔
      .finished ∈ row ∨ .canceled ∈ row ∨ row = List.replicate 12 .retry := by
  have hall : 12 ≤ row.count .retry ↔ row = List.replicate 12 .retry := by
    constructor
    · intro hn
      have hle := List.count_le_length (a := XmodemRecvRet.retry) (l := row)
      have heach := List.count_eq_length.1 (show row.count .retry = row.length by omega)
      exact List.eq_replicate_iff.2 ⟨hlen,fun r hr => (heach r hr).symm⟩
    · rintro rfl
      exact le_of_eq List.count_replicate_self.symm
  have hout := row_outlasted_iff h hok (by omega)
  rw [hlen,hcnt] at hout
  have hmany : 12 ≤ row.count .retry ↔ ¬ 0 + row.count .retry ≤ 11 := by omega
  rw [hout,← hall,hmany]
  tauto

theorem since_last_ok (results : List XmodemRecvRet) : ∃ before row, results = before ++ row ∧
    .ok ∉ row ∧ (before = [] ∨ before.getLast? = some .ok) := by
  induction results using List.reverseRecOn with
  | nil => exact ⟨[],[],rfl,by simp,.inl rfl⟩
  | append_singleton results ret ih =>
    by_cases hret : ret = .ok
    · exact ⟨results ++ [ret],[],by simp,by simp,.inr (by simp [hret])⟩
    · obtain ⟨before,row,rfl,hrow,hbefore⟩ := ih
      exact ⟨before,row ++ [ret],by simp,by simpa [hrow] using Ne.symm hret,hbefore⟩

/-- In any run from the start of the loop, over any receiver. -/
theorem gives_up_iff {start : FputLoop ρ} {results : List XmodemRecvRet}
    (h : Returns recv start results) (hcnt : start.cntRetry = 0) :
    GivesUp recv start results ↔ Counted recv start results := by
  have hfresh : ∀ {before rest : List XmodemRecvRet} {s : FputLoop ρ}, results = before ++ rest →
      (before = [] ∨ before.getLast? = some .ok) → Rounds (fputBody recv) before.length start s →
      Returns recv s rest ∧ s.cntRetry = 0 := by
    rintro before rest s rfl hbefore hs
    refine ⟨h.append hs,?_⟩
    rcases hbefore with rfl | hlast
    · cases hs
      exact hcnt
    · exact h.last hlast hs
  constructor
  · rintro hgives before row behind heq hlen hok hbefore ⟨s,hs⟩
    rw [List.append_assoc] at heq
    obtain ⟨hrest,hzero⟩ := hfresh heq hbefore hs
    refine (row_left_iff hrest.head hok hlen hzero).1 ?_
    rintro ⟨s',hs'⟩
    exact hgives before row behind (by rw [heq,List.append_assoc]) hlen hok ⟨s',hs.trans hs'⟩
  · rintro hcounted before row behind heq hlen hok ⟨s',hs'⟩
    -- the row may begin in the middle of a longer one, which the loop outlasts as well
    obtain ⟨first,more,rfl,hmore,hfirst⟩ := since_last_ok before
    have hrow : (more ++ row).take 12 ++ ((more ++ row).drop 12 ++ behind) = more ++ row ++ behind := by
      rw [← List.append_assoc,List.take_append_drop]
    have hlen' : ((more ++ row).take 12).length = 12 := by simp [hlen]
    have hok' : .ok ∉ (more ++ row).take 12 := fun hmem =>
      (List.mem_append.1 (List.mem_of_mem_take hmem)).elim hmore hok
    have heq' : results = first ++ ((more ++ row).take 12 ++ ((more ++ row).drop 12 ++ behind)) := by
      rw [hrow,heq]
      simp only [List.append_assoc]
    rw [List.length_append,show first.length + more.length + 12 = first.length + (12 + more.length) by
      omega] at hs'
    obtain ⟨s,hs,hrounds⟩ := hs'.split
    obtain ⟨s1,hrounds,-⟩ := hrounds.split
    obtain ⟨hrest,hzero⟩ := hfresh heq' hfirst hs
    exact (row_left_iff hrest.head hok' hlen' hzero).2
      (hcounted _ _ _ (by rw [heq',List.append_assoc]) hlen' hok' hfirst ⟨s,hs⟩) ⟨s1,hrounds⟩

theorem gives_up_of_branches {start : FputLoop ρ} {results : List XmodemRecvRet}
    (h : Returns recv start results) (hcnt : start.cntRetry = 0)
    (hall : ∀ ret ∈ results, ret ∈ [.ok,.finished,.canceled,.retry]) :
    GivesUp recv start results := by
  rintro before row behind heq hlen hok ⟨s',hs'⟩
  obtain ⟨first,more,rfl,hmore,hfirst⟩ := since_last_ok before
  have hsplit : results = first ++ ((more ++ row) ++ behind) := by rw [heq]; simp
  rw [hsplit] at h
  rw [List.length_append,Nat.add_assoc,← hlen,← List.length_append] at hs'
  obtain ⟨s,hs,hrounds⟩ := hs'.split
  have hzero : s.cntRetry = 0 := by
    rcases hfirst with rfl | hlast
    · cases hs
      exact hcnt
    · exact h.last hlast hs
  have hnone : .ok ∉ more ++ row := fun hmem => (List.mem_append.1 hmem).elim hmore hok
  obtain ⟨hf,hk,hle⟩ := (row_outlasted_iff (h.append hs).head hnone (by omega)).1 ⟨s',hrounds⟩
  have hretry : ∀ ret ∈ row, ret = .retry := by
    intro ret hret
    have hmem := hall ret (by rw [hsplit]; simp [hret])
    simp only [List.mem_cons,List.not_mem_nil,or_false] at hmem
    rcases hmem with rfl | rfl | rfl | rfl
    · exact absurd hret hok
    · exact absurd (List.mem_append_right more hret) hf
    · exact absurd (List.mem_append_right more hret) hk
    · rfl
  have hcount : row.count .retry = row.length := List.count_eq_length.2 fun ret hret => (hretry ret hret).symm
  rw [List.count_append,hcount,hlen] at hle
  omega

end

def repeated (frame : List UInt8) (n : Nat) : List RxEvent := (List.replicate n (bytes frame)).flatten

theorem duplicates_go_on {bn : UInt8} {frame : List UInt8} (hf : IsFrame bn frame) (n : Nat)
    (puts : List Bool) (sends : List SendRet) (trace : List IoEvent) (block : Mem) (cnt : Nat)
    (total : Int) :
    Returns xmodemReceiveBlock ⟨⟨repeated frame n, puts, sends, trace⟩, bn, block, cnt, total⟩
      (List.replicate n .dup) ∧
    ∃ s, Rounds (fputBody xmodemReceiveBlock) n
      ⟨⟨repeated frame n, puts, sends, trace⟩, bn, block, cnt, total⟩ s := by
  induction n generalizing trace block with
  | zero => exact ⟨trivial,_,.refl _⟩
  | succ n ih =>
    have hline : repeated frame (n + 1) = bytes frame ++ repeated frame n := rfl
    have hround := round_duplicate hf (repeated frame n) puts sends trace block cnt total
    obtain ⟨hreturns,s,hs⟩ := ih (trace ++ [IoEvent.header soh,.received .dup frame])
      (block.copy 0 frame)
    rw [hline]
    refine ⟨⟨?_,fun s' hs' => ?_⟩,s,.next hround hs⟩
    · rw [receive_duplicate hf]
    · rw [hround] at hs'
      cases hs'
      exact hreturns

theorem silence_returns {bn : UInt8} (n : Nat) (puts : List Bool) (sends : List SendRet)
    (trace : List IoEvent) (block : Mem) (cnt : Nat) (total : Int) : Returns xmodemReceiveBlock
      ⟨⟨List.replicate n .timeout, puts, sends, trace⟩, bn, block, cnt, total⟩
      (List.replicate n .retry) := by
  induction n generalizing puts trace cnt with
  | zero => exact trivial
  | succ n ih =>
    refine ⟨by rw [List.replicate_succ,receive_timeout],fun s hs => ?_⟩
    rcases Nat.lt_or_ge 10 cnt with hc | hc
    · obtain ⟨e,he⟩ := @round_gives_up bn (List.replicate n .timeout) puts sends trace block cnt hc total
      rw [List.replicate_succ,he] at hs
      cases hs
    · rw [List.replicate_succ,round_silence _ _ _ _ _ hc] at hs
      cases hs
      exact ih _ _ _

def awaiting (line : List RxEvent) : CbState := ⟨⟨line, [], [], []⟩, 1, Mem.zero, 0, 128⟩

theorem gives_up_silent : GivesUp xmodemReceiveBlock (awaiting (List.replicate 20 .timeout))
      (List.replicate 20 .retry) ↔
    Counted xmodemReceiveBlock (awaiting (List.replicate 20 .timeout)) (List.replicate 20 .retry) :=
  gives_up_iff (silence_returns 20 [] [] [] Mem.zero 0 128) rfl

theorem duplicates_outlast_limit :
    Returns xmodemReceiveBlock (awaiting (repeated (xmodemFrame 1 blockA) 12))
      (List.replicate 12 .dup) ∧
    ¬ GivesUp xmodemReceiveBlock (awaiting (repeated (xmodemFrame 1 blockA) 12))
      (List.replicate 12 .dup) := by
  obtain ⟨hreturns,s,hs⟩ := duplicates_go_on (isFrame_frame 1 (List.length_replicate ..)) 12 [] [] []
    Mem.zero 0 128
  refine ⟨hreturns,fun hgives => ?_⟩
  exact hgives [] (List.replicate 12 .dup) [] (by simp) List.length_replicate (by decide) ⟨s,hs⟩

end SipfClient.Xmodem
