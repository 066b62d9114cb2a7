import SipfClient.LineDamage
set_option autoImplicit false

/-!
The ACK for a block is lost and the sender sends the block again, the receiver
having waited in vain some times before. The payload callback recognises the
duplicate and does not send its data on, but it has no branch for it: nothing is
answered, the sender never learns that the block has arrived, and every further
wait counts against the same retries.
-/

namespace SipfClient.Xmodem
open ByteMem HexText Loops Command

theorem blockValidation_duplicate {bn : UInt8} {block : Mem} (h : IsFrame bn (block.read 0 132)) :
    xmodemBlockValidation block bn = -2 := by
  have hn : block 1 = bn := by rw [← h.number,read_getD block (by omega)]
  have hc : block 2 = ~~~(block 1) := by rw [hn,← h.complement,read_getD block (by omega)]
  rw [xmodemBlockValidation,if_neg (by rw [not_not,complement_iff]; exact hc),if_pos hn.symm]

theorem receive_duplicate {bn : UInt8} {frame : List UInt8} (h : IsFrame bn frame) (block : Mem)
    (rx : List RxEvent) (puts : List Bool) (sends : List SendRet) (trace : List IoEvent) :
    xmodemReceiveBlock bn block ⟨bytes frame ++ rx, puts, sends, trace⟩ =
      ⟨.dup, bn, block.copy 0 frame, ⟨rx, puts, sends, trace ++ [IoEvent.header soh]⟩⟩ := by
  obtain ⟨bs,rfl,hbs⟩ := isFrame_cons h
  have hread := read_copy_all block (show (soh :: bs).length = 132 by simpa using hbs)
  have hv := @blockValidation_duplicate _ (block.copy 0 (soh :: bs)) (by rw [hread]; exact h)
  rw [receive_whole bn block hbs,acceptBlock,hv]
  rfl

def resent (frame : List UInt8) (waits : List Nat) : List RxEvent :=
  waits.flatMap fun w => List.replicate w .timeout ++ bytes frame

def lossLine (frame next : List UInt8) (waits : List Nat) (last : Nat) (rest : List RxEvent) :
    List RxEvent :=
  resent frame waits ++ (List.replicate last .timeout ++ (bytes next ++ rest))

/-- The loss does no harm: the loop goes round once for each wait and each block, a NAK
is given for a wait and an ACK for a block, the next block is accepted, and nothing but
its data is sent on. -/
def Harmless (s : CbState) (next : List UInt8) (waits : List Nat) (last : Nat) : Prop :=
  ∃ s' ev, Rounds (fputBody xmodemReceiveBlock) (waits.sum + waits.length + (last + 1)) s s' ∧
    s'.io.trace = s.io.trace ++ ev ∧
    answers ev = waits.flatMap (fun w => List.replicate w nak ++ [ack]) ++
      (List.replicate last nak ++ [ack]) ∧
    acceptedFrames ev = [next] ∧ handed ev = [frameData next] ∧ s'.bn = s.bn + 1

theorem answers_append (a b : List IoEvent) : answers (a ++ b) = answers a ++ answers b :=
  List.filterMap_append

section
variable {bn : UInt8} {frame next : List UInt8}

theorem round_duplicate (hf : IsFrame bn frame) (rest : List RxEvent) (puts : List Bool)
    (sends : List SendRet) (trace : List IoEvent) (block : Mem) (cnt : Nat) (total : Int) :
    fputBody xmodemReceiveBlock ⟨⟨bytes frame ++ rest, puts, sends, trace⟩, bn, block, cnt, total⟩ =
      .inl ⟨⟨rest, puts, sends, trace ++ [IoEvent.header soh,.received .dup frame]⟩, bn,
        block.copy 0 frame, cnt, total⟩ := by
  simp only [fputBody,receive,receive_duplicate hf,Io.log,read_copy_all block hf.length,
    List.append_assoc]
  rfl

theorem round_silence (rest : List RxEvent) (puts : List Bool) (sends : List SendRet)
    (trace : List IoEvent) (block : Mem) {cnt : Nat} (hc : cnt ≤ 10) (total : Int) :
    fputBody xmodemReceiveBlock ⟨⟨.timeout :: rest, puts, sends, trace⟩, bn, block, cnt, total⟩ =
      .inl ⟨⟨rest, puts.tail, sends, trace ++ [IoEvent.received .retry (block.read 0 132),
        .put nak (puts.headD true)]⟩, bn, block, cnt + 1, total⟩ := by
  have hlt : ¬ 10 < cnt := by omega
  simp only [fputBody,receive,receive_timeout,Io.log,if_neg hlt,xmodemReceiveReqCurrentBlock,
    xmodemSendNak,putByte_eq,List.append_assoc]
  rfl

theorem round_gives_up (rest : List RxEvent) (puts : List Bool) (sends : List SendRet)
    (trace : List IoEvent) (block : Mem) {cnt : Nat} (hc : 10 < cnt) (total : Int) :
    ∃ s, fputBody xmodemReceiveBlock ⟨⟨.timeout :: rest, puts, sends, trace⟩, bn, block, cnt, total⟩ =
      .inr (some (-1), s) := by
  obtain ⟨puts',e,_,hcancel⟩ := transmitCancel_eq puts
  simp only [fputBody,receive,receive_timeout,Io.log,if_pos hc,hcancel]
  exact ⟨_,rfl⟩

end

structure Waited (s s' : CbState) (rest : List RxEvent) (w : Nat) (naks : List UInt8) : Prop where
  line : s'.io.rx = rest
  sends : s'.io.sends = s.io.sends
  bn : s'.bn = s.bn
  retries : s'.cntRetry = s.cntRetry + w
  record : ∃ ev, s'.io.trace = s.io.trace ++ ev ∧ answers ev = naks ∧ acceptedFrames ev = [] ∧
    handed ev = []

theorem Waited.trans {s s1 s2 : CbState} {rest rest' : List RxEvent} {w w' : Nat}
    {naks naks' : List UInt8} (h : Waited s s1 rest w naks) (h' : Waited s1 s2 rest' w' naks') :
    Waited s s2 rest' (w + w') (naks ++ naks') where
  line := h'.line
  sends := h'.sends.trans h.sends
  bn := h'.bn.trans h.bn
  retries := by rw [h'.retries,h.retries,Nat.add_assoc]
  record := by
    obtain ⟨ev,htr,ha,hf,hh⟩ := h.record
    obtain ⟨ev',htr',ha',hf',hh'⟩ := h'.record
    refine ⟨ev ++ ev',by rw [htr',htr,List.append_assoc],?_,?_,?_⟩
    · rw [answers_append,ha,ha']
    · rw [acceptedFrames_append,hf,hf',List.append_nil]
    · rw [handed_append,hh,hh',List.append_nil]

theorem Waited.refl {s : CbState} {rest : List RxEvent} (h : s.io.rx = rest) :
    Waited s s rest 0 [] :=
  ⟨h,rfl,rfl,rfl,[],by simp,rfl,rfl,rfl⟩

theorem waited_timeout {s s' : CbState} {rest : List RxEvent} (hrx : s.io.rx = .timeout :: rest)
    (h : Rounds (fputBody xmodemReceiveBlock) 1 s s') :
    Waited s s' rest 1 [nak] ∧ s.cntRetry ≤ 10 := by
  obtain ⟨⟨rx,puts,sends,trace⟩,bn,block,cnt,total⟩ := s
  obtain rfl : rx = .timeout :: rest := hrx
  cases h with
  | next hb hs =>
    cases hs
    rcases Nat.lt_or_ge 10 cnt with hc | hc
    · obtain ⟨e,he⟩ := @round_gives_up bn rest puts sends trace block cnt hc total
      rw [he] at hb
      cases hb
    · rw [round_silence _ _ _ _ _ hc] at hb
      cases hb
      exact ⟨⟨rfl,rfl,rfl,rfl,_,rfl,rfl,rfl,rfl⟩,hc⟩

theorem waited_silence {w : Nat} {s s' : CbState} {rest : List RxEvent}
    (hrx : s.io.rx = List.replicate w RxEvent.timeout ++ rest)
    (h : Rounds (fputBody xmodemReceiveBlock) w s s') :
    Waited s s' rest w (List.replicate w nak) ∧ (w = 0 ∨ s.cntRetry + w ≤ 11) := by
  induction w generalizing s with
  | zero =>
    cases h
    exact ⟨.refl (by simpa using hrx),.inl rfl⟩
  | succ w ih =>
    rw [Nat.add_comm w 1] at h ⊢
    obtain ⟨s1,h1,h2⟩ := h.split
    obtain ⟨hone,hc⟩ := @waited_timeout _ _ (List.replicate w RxEvent.timeout ++ rest)
      (by simpa [List.replicate_succ] using hrx) h1
    obtain ⟨hw,hcnt⟩ := ih hone.line h2
    have hboth := hone.trans hw
    rw [← List.replicate_one,← List.replicate_add] at hboth
    have hretries := hone.retries
    refine ⟨hboth,.inr ?_⟩
    rcases hcnt with rfl | hcnt <;> omega

section
variable {bn : UInt8} {frame next : List UInt8}

theorem waited_duplicate (hf : IsFrame bn frame) {s s' : CbState} {rest : List RxEvent}
    (hbn : s.bn = bn) (hrx : s.io.rx = bytes frame ++ rest)
    (h : Rounds (fputBody xmodemReceiveBlock) 1 s s') : Waited s s' rest 0 [] := by
  obtain ⟨⟨rx,puts,sends,trace⟩,_,block,cnt,total⟩ := s
  obtain rfl : _ = bn := hbn
  obtain rfl : rx = bytes frame ++ rest := hrx
  cases h with
  | next hb hs =>
    rw [round_duplicate hf] at hb
    cases hb
    cases hs
    exact ⟨rfl,rfl,rfl,rfl,_,rfl,rfl,rfl,rfl⟩

/-- Every duplicate is passed over without an answer. -/
theorem waited_resent (hf : IsFrame bn frame) {waits : List Nat} {s s' : CbState}
    {rest : List RxEvent} (hbn : s.bn = bn) (hrx : s.io.rx = resent frame waits ++ rest)
    (h : Rounds (fputBody xmodemReceiveBlock) (waits.sum + waits.length) s s') :
    Waited s s' rest waits.sum (waits.flatMap fun w => List.replicate w nak) := by
  induction waits generalizing s with
  | nil =>
    cases h
    exact .refl hrx
  | cons w waits ih =>
    have hn : (w :: waits).sum + (w :: waits).length = w + (1 + (waits.sum + waits.length)) := by
      simp only [List.sum_cons,List.length_cons]
      omega
    rw [hn] at h
    obtain ⟨s1,h1,h⟩ := h.split
    obtain ⟨s2,h2,h3⟩ := h.split
    have hline : s.io.rx =
        List.replicate w RxEvent.timeout ++ (bytes frame ++ (resent frame waits ++ rest)) := by
      simpa [resent] using hrx
    have hw1 := (waited_silence hline h1).1
    have hw2 := waited_duplicate hf (hw1.bn.trans hbn) hw1.line h2
    have hw3 := ih (hw2.bn.trans (hw1.bn.trans hbn)) hw2.line h3
    have htotal := (hw1.trans hw2).trans hw3
    simpa using htotal

theorem acks_missing (waits : List Nat) :
    (waits.flatMap fun w => List.replicate w nak ++ [ack]).length =
      (waits.flatMap fun w => List.replicate w nak).length + waits.length := by
  induction waits with
  | nil => rfl
  | cons w waits ih =>
    simp only [List.flatMap_cons,List.length_append,List.length_cons,List.length_nil,ih]
    omega

theorem silences (last : Nat) (rest : List RxEvent) (puts : List Bool) (sends : List SendRet)
    (trace : List IoEvent) (block : Mem) {cnt : Nat} (hc : cnt + last ≤ 11) (total : Int) :
    ∃ puts' ev, Rounds (fputBody xmodemReceiveBlock) last
      ⟨⟨List.replicate last RxEvent.timeout ++ rest, puts, sends, trace⟩, bn, block, cnt, total⟩
      ⟨⟨rest, puts', sends, trace ++ ev⟩, bn, block, cnt + last, total⟩ := by
  induction last generalizing puts trace cnt with
  | zero => exact ⟨puts,[],by simpa using Rounds.refl _⟩
  | succ last ih =>
    have hround := @round_silence bn (List.replicate last RxEvent.timeout ++ rest) puts sends trace
      block cnt (by omega) total
    obtain ⟨puts',ev,hrounds⟩ := ih puts.tail (trace ++ [IoEvent.received .retry (block.read 0 132),
      .put nak (puts.headD true)]) (show cnt + 1 + last ≤ 11 by omega)
    refine ⟨puts',[IoEvent.received .retry (block.read 0 132),.put nak (puts.headD true)] ++ ev,?_⟩
    rw [← List.append_assoc,show cnt + (last + 1) = cnt + 1 + last by omega]
    exact .next hround hrounds

theorem acks_of_next (hn : IsFrame (bn + 1) next) {s s' : CbState} {rest : List RxEvent} {n : Nat}
    {le : n ≤ 128} (hbn : s.bn = bn) (hrx : s.io.rx = bytes next ++ rest)
    (hs : s.io.sends.headD .full = .taken n le)
    (h : Rounds (fputBody xmodemReceiveBlock) 1 s s') :
    s'.bn = bn + 1 ∧ ∃ ev, s'.io.trace = s.io.trace ++ ev ∧ answers ev = [ack] ∧
      acceptedFrames ev = [next] ∧ handed ev = [frameData next] := by
  obtain ⟨⟨rx,puts,sends,trace⟩,_,block,cnt,total⟩ := s
  obtain rfl : _ = bn := hbn
  obtain rfl : rx = bytes next ++ rest := hrx
  cases h with
  | next hb hs' =>
    rw [round_taken hn hs] at hb
    cases hb
    cases hs'
    exact ⟨rfl,_,rfl,rfl,rfl,rfl⟩

/-- In any state in which block `bn` was accepted last, the loss of its ACK does no harm
exactly if the sender does not send the block again (and does not keep silent for too
long before the next one). -/
theorem lost_ack_harmless_iff (hf : IsFrame bn frame) (hn : IsFrame (bn + 1) next)
    (waits : List Nat) (last : Nat) (rest : List RxEvent) (puts : List Bool) {sends : List SendRet}
    {n : Nat} {le : n ≤ 128} (hs : sends.headD .full = .taken n le) (trace : List IoEvent)
    (block : Mem) {cnt : Nat} (hc : cnt ≤ 11) (total : Int) :
    Harmless ⟨⟨lossLine frame next waits last rest, puts, sends, trace⟩, bn, block, cnt, total⟩ next
      waits last ↔ waits = [] ∧ cnt + last ≤ 11 := by
  constructor
  · rintro ⟨s',ev,hrounds,htrace,hanswers,-,-,-⟩
    obtain ⟨s1,h1,h⟩ := hrounds.split
    obtain ⟨s2,h2,h3⟩ := h.split
    have hw1 := waited_resent hf rfl rfl h1
    obtain ⟨hw2,hcnt⟩ := waited_silence hw1.line h2
    have hw := hw1.trans hw2
    obtain ⟨-,ev3,htrace3,hack,-⟩ := acks_of_next hn hw.bn hw2.line (by rw [hw.sends]; exact hs) h3
    obtain ⟨ev2,htrace2,hnaks,-⟩ := hw.record
    have hev : ev = ev2 ++ ev3 := by
      rw [htrace3,htrace2,List.append_assoc] at htrace
      exact (List.append_cancel_left htrace).symm
    have hlen := congrArg List.length hanswers
    simp only [hev,answers_append,hnaks,hack,List.length_append,acks_missing] at hlen
    have hnil : waits.length = 0 := by omega
    obtain rfl := List.length_eq_zero_iff.1 hnil
    have hretries : s1.cntRetry = cnt + 0 := hw1.retries
    refine ⟨rfl,?_⟩
    rcases hcnt with rfl | hcnt <;> omega
  · rintro ⟨rfl,hlast⟩
    obtain ⟨puts',ev,hrounds⟩ := @silences bn last (bytes next ++ rest) puts sends trace block cnt hlast total
    have hround := round_taken hn hs rest puts' (trace ++ ev) block (cnt + last) total
    have hall := hrounds.trans (.next hround (.refl _))
    have hw := (waited_silence rfl hrounds).1
    obtain ⟨ev',htrace,hnaks,hframes,hhanded⟩ := hw.record
    obtain rfl : ev = ev' := List.append_cancel_left htrace
    have hcount : ([] : List Nat).sum + ([] : List Nat).length + (last + 1) = last + (0 + 1) := by simp
    refine ⟨_,ev ++ roundRecord next (.taken n le) (puts'.headD true),by rw [hcount]; exact hall,
      List.append_assoc trace ev _,?_,?_,?_,rfl⟩
    · rw [answers_append,hnaks]
      rfl
    · rw [acceptedFrames_append,hframes]
      rfl
    · rw [handed_append,hhanded]
      rfl

theorem lost_ack_harmless_iff_twice :
    Harmless ⟨⟨lossLine (xmodemFrame 1 blockA) (xmodemFrame 2 blockA) [1, 0] 0 [.byte eot], [], [], []⟩,
      1, Mem.zero, 0, 128⟩ (xmodemFrame 2 blockA) [1, 0] 0 ↔ [1, 0] = [] ∧ 0 + 0 ≤ 11 :=
  @lost_ack_harmless_iff 1 (xmodemFrame 1 blockA) (xmodemFrame 2 blockA)
    (isFrame_frame 1 List.length_replicate) (isFrame_frame 2 List.length_replicate) [1, 0] 0 [.byte eot] [] [] 128 (Nat.le_refl _) rfl [] Mem.zero 0
    (by decide) 128

/-- A sender that repeats the block whenever it is asked to is cut off, although every
one of its frames has arrived intact. -/
theorem lost_ack_cancels (hf : IsFrame bn frame) {waits : List Nat} (rest : List RxEvent)
    (puts : List Bool) (sends : List SendRet) (trace : List IoEvent) (block : Mem) {cnt : Nat}
    (hc : cnt ≤ 11) (hw : 12 ≤ cnt + waits.sum) (total : Int) :
    ∃ k s, loop (fputBody xmodemReceiveBlock) k
      ⟨⟨resent frame waits ++ rest, puts, sends, trace⟩, bn, block, cnt, total⟩ = some (some (-1), s) := by
  induction waits generalizing puts trace block cnt with
  | nil =>
    simp only [List.sum_nil] at hw
    omega
  | cons w waits ih =>
    have hline : resent frame (w :: waits) ++ rest =
        List.replicate w RxEvent.timeout ++ (bytes frame ++ (resent frame waits ++ rest)) := by
      simp [resent]
    simp only [List.sum_cons] at hw
    rw [hline]
    rcases Nat.lt_or_ge 11 (cnt + w) with hover | hroom
    · -- the waits before this repetition are one too many
      obtain ⟨k,rfl⟩ : ∃ k, w = (11 - cnt) + (k + 1) := ⟨cnt + w - 12,by omega⟩
      rw [List.replicate_add,List.append_assoc]
      obtain ⟨puts',ev,hrounds⟩ := @silences bn (11 - cnt) (List.replicate (k + 1) RxEvent.timeout ++
        (bytes frame ++ (resent frame waits ++ rest))) puts sends trace block cnt (by omega) total
      obtain ⟨s,hs⟩ := @round_gives_up bn (List.replicate k RxEvent.timeout ++
        (bytes frame ++ (resent frame waits ++ rest))) puts' sends (trace ++ ev) block
        (cnt + (11 - cnt)) (by omega) total
      exact ⟨_,s,hrounds.exit hs⟩
    · obtain ⟨puts',ev,hrounds⟩ := @silences bn w (bytes frame ++ (resent frame waits ++ rest)) puts
        sends trace block cnt hroom total
      have hround := round_duplicate hf (resent frame waits ++ rest) puts' sends (trace ++ ev) block
        (cnt + w) total
      obtain ⟨k,s,hloop⟩ := ih puts' (trace ++ ev ++ _) (block.copy 0 frame) hroom (by omega)
      exact ⟨_,s,hrounds.append (by rw [loop_next hround]; exact hloop)⟩

end

/-- Block 1 comes twice: it is answered once, and the duplicate not at all. -/
theorem fput_ignores_duplicate :
    (cmdAsciiCmdFput (Mem.ofList (ascii " a 00000100")) 11 (fun _ => goodCourse) Mem.zero
      ⟨bytes (xmodemFrame 1 blockA ++ xmodemFrame 1 blockA ++ xmodemFrame 2 blockA ++ [eot]), [], [],
        []⟩).map (fun run => (answers run.io.trace, outcomes run.io.trace)) =
      some ([nak,ack,ack,ack], [.ok,.dup,.ok,.finished]) := by
  decide +kernel

end SipfClient.Xmodem
