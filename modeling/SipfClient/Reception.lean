import SipfClient.Xmodem
set_option autoImplicit false

/-!
What one reception takes from the line, and what it makes of it: a whole frame that
is accepted, or something else. What it makes of it does not depend on what earlier
receptions left in the block buffer, nor on what follows on the line.
-/

namespace SipfClient.Xmodem
open ByteMem

def bytes (bs : List UInt8) : List RxEvent := bs.map .byte

theorem bytes_cons (b : UInt8) (bs : List UInt8) : bytes (b :: bs) = .byte b :: bytes bs := rfl

theorem bytes_length (bs : List UInt8) : (bytes bs).length = bs.length := by simp [bytes]

def frameData (frame : List UInt8) : List UInt8 := (frame.drop 3).take 128

structure IsFrame (bn : UInt8) (frame : List UInt8) : Prop where
  length : frame.length = 132
  header : frame.getD 0 0 = soh
  number : frame.getD 1 0 = bn
  complement : frame.getD 2 0 = ~~~bn
  sum : frame.getD 131 0 = checksum (frameData frame)

theorem pad_full {d : List UInt8} (h : d.length = 128) : pad d = d := by
  simp [pad,xmodemSzBlock,h]

theorem xmodemFrame_full {d : List UInt8} (bn : UInt8) (h : d.length = 128) :
    xmodemFrame bn d = soh :: bn :: ~~~bn :: (d ++ [checksum d]) := by
  simp [xmodemFrame,pad_full h]

theorem frameData_frame {d : List UInt8} (bn : UInt8) (h : d.length = 128) :
    frameData (xmodemFrame bn d) = d := by
  rw [xmodemFrame_full bn h]
  simp [frameData,← h]

theorem isFrame_frame {d : List UInt8} (bn : UInt8) (h : d.length = 128) :
    IsFrame bn (xmodemFrame bn d) where
  length := by simp [xmodemFrame_full bn h,h]
  header := by simp [xmodemFrame_full bn h]
  number := by simp [xmodemFrame_full bn h]
  complement := by simp [xmodemFrame_full bn h]
  sum := by
    rw [frameData_frame bn h,xmodemFrame_full bn h]
    simp [← h]

theorem complement_iff (a b : UInt8) : a.toNat + b.toNat = 0xff ↔ b = ~~~a := by
  rw [← UInt8.toNat_inj,UInt8.toNat_not]
  have := a.toNat_lt
  have := b.toNat_lt
  simp [UInt8.size]
  omega

namespace IsFrame

theorem data_length {bn : UInt8} {frame : List UInt8} (h : IsFrame bn frame) :
    (frameData frame).length = 128 := by
  simp [frameData,h.length]

end IsFrame

theorem read_data (block : Mem) : frameData (block.read 0 132) = block.read 3 128 := by
  apply List.ext_getElem (by simp [frameData])
  intro i hi hi'
  simp [frameData]

theorem read_getD (block : Mem) {i : Nat} (h : i < 132) : (block.read 0 132).getD i 0 = block i := by
  simp [h]

theorem number_ne_succ (bn : UInt8) : bn ≠ bn + 1 := by
  intro he
  have h := congrArg UInt8.toNat he
  rw [UInt8.toNat_add] at h
  have := bn.toNat_lt
  simp at *

/-- A number is returned exactly for the frames of the next block. -/
theorem blockValidation_frame {bn : UInt8} {block : Mem} (h : IsFrame (bn + 1) (block.read 0 132)) :
    xmodemBlockValidation block bn = (bn + 1).toNat := by
  have hn : block 1 = bn + 1 := by rw [← h.number,read_getD block (by omega)]
  have hc : block 2 = ~~~(block 1) := by rw [hn,← h.complement,read_getD block (by omega)]
  have hs : block 131 = checksum (block.read 3 128) := by
    rw [← read_data,← h.sum,read_getD block (by omega)]
  have hne : bn ≠ block 1 := by
    rw [hn]
    exact number_ne_succ bn
  rw [xmodemBlockValidation,if_neg (by rw [not_not,complement_iff]; exact hc),if_neg hne,
    if_neg (by rw [hn]; simp),if_pos hs.symm,hn]

theorem blockValidation_other {bn : UInt8} {block : Mem} (h0 : block 0 = soh)
    (h : ¬ IsFrame (bn + 1) (block.read 0 132)) :
    xmodemBlockValidation block bn = -1 ∨ xmodemBlockValidation block bn = -2 := by
  simp only [xmodemBlockValidation]
  split_ifs with hc hd hn hs
  · exact .inl rfl
  · exact .inr rfl
  · exact .inl rfl
  · exfalso
    simp only [ne_eq,not_not] at hc hn
    refine h ⟨by simp,?_,?_,?_,?_⟩
    · rw [read_getD block (by omega),h0]
    · rw [read_getD block (by omega),hn]
    · rw [read_getD block (by omega),hn,(complement_iff _ _).1 hc]
    · rw [read_getD block (by omega),read_data,hs]
  · exact .inl rfl

theorem blockValidation_congr {block block' : Mem} (bn : UInt8)
    (h : block.read 0 132 = block'.read 0 132) :
    xmodemBlockValidation block bn = xmodemBlockValidation block' bn := by
  have hat : ∀ i, i < 132 → block i = block' i := by
    intro i hi
    rw [← read_getD block hi,h,read_getD block' hi]
  have hd : block.read 3 128 = block'.read 3 128 := by rw [← read_data,h,read_data]
  simp only [xmodemBlockValidation]
  rw [hat 1 (by omega),hat 2 (by omega),hat 131 (by omega),hd]

variable {ρ : Type}

theorem acceptBlock_frame {bn : UInt8} {block : Mem} (io : Io ρ)
    (h : IsFrame (bn + 1) (block.read 0 132)) :
    acceptBlock bn block io = ⟨.ok, bn + 1, block, io⟩ := by
  have hv := blockValidation_frame h
  simp only [acceptBlock,hv]
  rw [if_neg (by omega),if_neg (by omega),ofInt_toNat]

theorem acceptBlock_other {bn : UInt8} {block : Mem} (h0 : block 0 = soh)
    (h : ¬ IsFrame (bn + 1) (block.read 0 132)) :
    ∃ ret, (ret = .retry ∨ ret = .dup) ∧ ∀ (block' : Mem) (io : Io ρ),
      block'.read 0 132 = block.read 0 132 → acceptBlock bn block' io = ⟨ret, bn, block', io⟩ := by
  rcases blockValidation_other h0 h with hv | hv
  · refine ⟨.retry,.inl rfl,?_⟩
    intro block' io he
    simp [acceptBlock,blockValidation_congr bn he,hv]
  · refine ⟨.dup,.inr rfl,?_⟩
    intro block' io he
    simp [acceptBlock,blockValidation_congr bn he,hv]

theorem set_copy (block : Mem) (i : Nat) (b : UInt8) (bs : List UInt8) :
    (block.set i b).copy (i + 1) bs = block.copy i (b :: bs) := by
  rw [Mem.copy_cons]
  congr 1
  funext j
  by_cases h : j = i
  · simp [h,Mem.copy]
  · rw [Mem.set_other block b h,Mem.copy,if_neg (by simp; omega)]

theorem receiveRest_bytes (bs : List UInt8) (idx : Nat) (block : Mem) (rx : List RxEvent)
    (puts : List Bool) (sends : List SendRet) (trace : List IoEvent) :
    receiveRest bs.length idx block ⟨bytes bs ++ rx, puts, sends, trace⟩ =
      (none, block.copy idx bs, ⟨rx, puts, sends, trace⟩) := by
  induction bs generalizing idx block with
  | nil => simp [receiveRest,bytes]
  | cons b bs ih =>
    rw [← set_copy]
    exact ih (idx + 1) (block.set idx b)

def Stops (rx : List RxEvent) : Prop := ∀ b, rx.headD .timeout ≠ .byte b

def stopRet (rx : List RxEvent) : Int :=
  match rx.headD .timeout with
  | .fail errno _ => -errno
  | _ => -eagain

theorem receiveRest_cut (bs : List UInt8) {n : Nat} (hn : bs.length < n) (idx : Nat) (block : Mem)
    {rx : List RxEvent} (hrx : Stops rx) (puts : List Bool) (sends : List SendRet)
    (trace : List IoEvent) :
    receiveRest n idx block ⟨bytes bs ++ rx, puts, sends, trace⟩ =
      (some (stopRet rx), block.copy idx bs, ⟨rx.tail, puts, sends, trace⟩) := by
  induction bs generalizing n idx block with
  | nil =>
    obtain ⟨n, rfl⟩ : ∃ k, n = k + 1 := ⟨n - 1, by simp at hn; omega⟩
    cases rx with
    | nil => simp [receiveRest,bytes,uartBrokerGetByteTm,stopRet]
    | cons e rx =>
      cases e with
      | byte b => exact absurd rfl (hrx b)
      | timeout => simp [receiveRest,bytes,uartBrokerGetByteTm,stopRet]
      | fail errno ne => simp [receiveRest,bytes,uartBrokerGetByteTm,stopRet]
  | cons b bs ih =>
    obtain ⟨n, rfl⟩ : ∃ k, n = k + 1 := ⟨n - 1, by simp at hn; omega⟩
    rw [← set_copy]
    exact ih (by simpa using hn) (idx + 1) (block.set idx b)

theorem rx_split (n : Nat) (rx : List RxEvent) :
    ∃ bs tail, rx = bytes bs ++ tail ∧ (bs.length = n ∨ bs.length < n ∧ Stops tail) := by
  induction n generalizing rx with
  | zero => exact ⟨[],rx,rfl,.inl rfl⟩
  | succ n ih =>
    cases rx with
    | nil => exact ⟨[],[],rfl,.inr ⟨by simp,fun b => by simp⟩⟩
    | cons e rx =>
      cases e with
      | byte b =>
        obtain ⟨bs,tail,rfl,h⟩ := ih rx
        refine ⟨b :: bs,tail,rfl,?_⟩
        simpa using h
      | timeout => exact ⟨[],_,rfl,.inr ⟨by simp,fun b => by simp⟩⟩
      | fail errno ne => exact ⟨[],_,rfl,.inr ⟨by simp,fun b => by simp⟩⟩

theorem receive_whole (bn : UInt8) (block : Mem) {bs : List UInt8} (hbs : bs.length = 131)
    (rx : List RxEvent) (puts : List Bool) (sends : List SendRet) (trace : List IoEvent) :
    xmodemReceiveBlock bn block ⟨bytes (soh :: bs) ++ rx, puts, sends, trace⟩ =
      acceptBlock bn (block.copy 0 (soh :: bs)) ⟨rx, puts, sends, trace ++ [IoEvent.header soh]⟩ := by
  have hrest := receiveRest_bytes bs 1 (block.set 0 soh) rx puts sends (trace ++ [IoEvent.header soh])
  rw [hbs,set_copy] at hrest
  simp only [xmodemReceiveBlock,bytes_cons,List.cons_append,uartBrokerGetByteTm,List.headD_cons,
    List.tail_cons,Io.log,if_pos]
  rw [hrest]

theorem receive_cut (bn : UInt8) (block : Mem) {bs : List UInt8} (hbs : bs.length < 131)
    {rx : List RxEvent} (hrx : Stops rx) (puts : List Bool) (sends : List SendRet)
    (trace : List IoEvent) :
    xmodemReceiveBlock bn block ⟨bytes (soh :: bs) ++ rx, puts, sends, trace⟩ =
      ⟨.other (stopRet rx), bn, block.copy 0 (soh :: bs),
        ⟨rx.tail, puts, sends, trace ++ [IoEvent.header soh]⟩⟩ := by
  have hrest := receiveRest_cut bs hbs 1 (block.set 0 soh) hrx puts sends
    (trace ++ [IoEvent.header soh])
  rw [set_copy] at hrest
  simp only [xmodemReceiveBlock,bytes_cons,List.cons_append,uartBrokerGetByteTm,List.headD_cons,
    List.tail_cons,Io.log,if_pos]
  rw [hrest]

theorem read_copy_all (block : Mem) {bs : List UInt8} (h : bs.length = 132) :
    (block.copy 0 bs).read 0 132 = bs := by
  have := Mem.read_copy block 0 bs
  rwa [h] at this

theorem isFrame_cons {bn : UInt8} {frame : List UInt8} (h : IsFrame bn frame) :
    ∃ bs, frame = soh :: bs ∧ bs.length = 131 := by
  cases frame with
  | nil => exact absurd h.length (by simp)
  | cons b bs =>
    have hb := h.header
    have hl := h.length
    simp at hb hl
    exact ⟨bs,by rw [hb],hl⟩

theorem receive_frame {bn : UInt8} {frame : List UInt8} (h : IsFrame (bn + 1) frame) (block : Mem)
    (rx : List RxEvent) (puts : List Bool) (sends : List SendRet) (trace : List IoEvent) :
    xmodemReceiveBlock bn block ⟨bytes frame ++ rx, puts, sends, trace⟩ =
      ⟨.ok, bn + 1, block.copy 0 frame, ⟨rx, puts, sends, trace ++ [IoEvent.header soh]⟩⟩ := by
  obtain ⟨bs,rfl,hbs⟩ := isFrame_cons h
  rw [receive_whole bn block hbs]
  apply acceptBlock_frame
  rw [read_copy_all block (by simpa using hbs)]
  exact h

/-- What comes in as `seg`, with `rest` behind it, is no frame of the next block: the
result and the record `q` of the reception. -/
structure Rejects (bn : UInt8) (puts : List Bool) (seg rest : List RxEvent) (ret : XmodemRecvRet)
    (puts' : List Bool) (q : List IoEvent) : Prop where
  notOk : ret ≠ .ok
  silent : seg = [] → rest = [] ∧ ret = .retry
  record : q = [] ∨ (∃ b, q = [.header b]) ∨ ∃ ok, q = [.header eot,.put ack ok]
  run : ∀ (block : Mem) (rest' : List RxEvent) (sends : List SendRet) (trace : List IoEvent),
    (rest = [] → rest' = []) → ∃ block', xmodemReceiveBlock bn block
      ⟨seg ++ rest', puts, sends, trace⟩ = ⟨ret, bn, block', ⟨rest', puts', sends, trace ++ q⟩⟩

theorem rejects_silence (bn : UInt8) (puts : List Bool) : Rejects bn puts [] [] .retry puts [] where
  notOk := by simp
  silent _ := ⟨rfl,rfl⟩
  record := .inl rfl
  run block rest' sends trace h := by
    rw [h rfl]
    exact ⟨block,by simp [xmodemReceiveBlock,uartBrokerGetByteTm]⟩

theorem receive_timeout (bn : UInt8) (block : Mem) (rx : List RxEvent) (puts : List Bool)
    (sends : List SendRet) (trace : List IoEvent) :
    xmodemReceiveBlock bn block ⟨.timeout :: rx, puts, sends, trace⟩ =
      ⟨.retry, bn, block, ⟨rx, puts, sends, trace⟩⟩ := by
  simp [xmodemReceiveBlock,uartBrokerGetByteTm]

theorem rejects_timeout (bn : UInt8) (puts : List Bool) (rest : List RxEvent) :
    Rejects bn puts [.timeout] rest .retry puts [] where
  notOk := by simp
  silent h := by simp at h
  record := .inl rfl
  run block rest' sends trace _ := ⟨block,by
    rw [List.append_nil]
    exact receive_timeout bn block rest' puts sends trace⟩

theorem rejects_fail (bn : UInt8) (puts : List Bool) (rest : List RxEvent) (errno : Nat)
    (ne : errno ≠ 0 ∧ errno ≠ eagain) :
    Rejects bn puts [.fail errno ne] rest (.other (-errno)) puts [] where
  notOk := by simp
  silent h := by simp at h
  record := .inl rfl
  run block rest' sends trace _ := ⟨block,by simp [xmodemReceiveBlock,uartBrokerGetByteTm]⟩

/-- EOT is acknowledged; the transfer has ended if the queue took the ACK. -/
theorem receive_eot (bn : UInt8) (block : Mem) (rx : List RxEvent) (puts : List Bool)
    (sends : List SendRet) (trace : List IoEvent) :
    xmodemReceiveBlock bn block ⟨.byte eot :: rx, puts, sends, trace⟩ =
      ⟨if puts.headD true then .finished else .failed, bn, block,
        ⟨rx, puts.tail, sends, trace ++ [IoEvent.header eot,.put ack (puts.headD true)]⟩⟩ := by
  have hne : eot ≠ soh := by decide
  cases hp : puts.headD true with
  | false =>
    simp only [xmodemReceiveBlock,uartBrokerGetByteTm,List.headD_cons,List.tail_cons,if_neg hne,
      if_pos,xmodemSendAck,uartBrokerPutByte,Io.log,hp]
    simp
  | true =>
    simp only [xmodemReceiveBlock,uartBrokerGetByteTm,List.headD_cons,List.tail_cons,if_neg hne,
      if_pos,xmodemSendAck,uartBrokerPutByte,Io.log,hp]
    simp

theorem receive_noise (bn : UInt8) {b : UInt8} (hs : b ≠ soh) (he : b ≠ eot) (block : Mem)
    (rx : List RxEvent) (puts : List Bool) (sends : List SendRet) (trace : List IoEvent) :
    xmodemReceiveBlock bn block ⟨.byte b :: rx, puts, sends, trace⟩ =
      ⟨if b = can then .canceled else .retry, bn, block,
        ⟨rx, puts, sends, trace ++ [IoEvent.header b]⟩⟩ := by
  simp only [xmodemReceiveBlock,uartBrokerGetByteTm,List.headD_cons,List.tail_cons,if_neg hs,
    if_neg he,Io.log]
  split_ifs <;> rfl

theorem rejects_eot (bn : UInt8) (puts : List Bool) (rest : List RxEvent) :
    Rejects bn puts [.byte eot] rest (if puts.headD true then .finished else .failed) puts.tail
      [.header eot,.put ack (puts.headD true)] where
  notOk := by split_ifs <;> simp
  silent h := by simp at h
  record := .inr (.inr ⟨_,rfl⟩)
  run block rest' sends trace _ := ⟨block,receive_eot bn block rest' puts sends trace⟩

theorem rejects_noise (bn : UInt8) (puts : List Bool) (rest : List RxEvent) {b : UInt8}
    (hs : b ≠ soh) (he : b ≠ eot) :
    Rejects bn puts [.byte b] rest (if b = can then .canceled else .retry) puts [.header b] where
  notOk := by split_ifs <;> simp
  silent h := by simp at h
  record := .inr (.inl ⟨b,rfl⟩)
  run block rest' sends trace _ := ⟨block,receive_noise bn hs he block rest' puts sends trace⟩

theorem rejects_whole (bn : UInt8) (puts : List Bool) (rest : List RxEvent) {bs : List UInt8}
    (hbs : bs.length = 131) (h : ¬ IsFrame (bn + 1) (soh :: bs)) :
    ∃ ret, Rejects bn puts (bytes (soh :: bs)) rest ret puts [.header soh] := by
  have hread : ∀ block : Mem, (block.copy 0 (soh :: bs)).read 0 132 = soh :: bs :=
    fun block => read_copy_all block (by simpa using hbs)
  obtain ⟨ret,hret,hrun⟩ := @acceptBlock_other RxEvent bn (Mem.zero.copy 0 (soh :: bs)) rfl
    (by rw [hread]; exact h)
  refine ⟨ret,by rcases hret with rfl | rfl <;> simp,by simp [bytes_cons],.inr (.inl ⟨_,rfl⟩),?_⟩
  intro block rest' sends trace _
  exact ⟨_,by rw [receive_whole bn block hbs,hrun _ _ (by rw [hread,hread])]⟩

theorem rejects_cut (bn : UInt8) (puts : List Bool) {bs : List UInt8} (hbs : bs.length < 131)
    {rx : List RxEvent} (hrx : Stops rx) : ∃ seg rest ret,
      bytes (soh :: bs) ++ rx = seg ++ rest ∧ Rejects bn puts seg rest ret puts [.header soh] := by
  cases rx with
  | nil =>
    refine ⟨bytes (soh :: bs),[],.other (stopRet []),rfl,by simp,by simp [bytes_cons],
      .inr (.inl ⟨_,rfl⟩),?_⟩
    intro block rest' sends trace h
    rw [h rfl]
    exact ⟨_,receive_cut bn block hbs hrx puts sends trace⟩
  | cons e rx =>
    refine ⟨bytes (soh :: bs) ++ [e],rx,.other (stopRet (e :: rx)),by simp,by simp,
      by simp [bytes_cons],.inr (.inl ⟨_,rfl⟩),?_⟩
    intro block rest' sends trace _
    have hrx' : Stops (e :: rest') := hrx
    rw [List.append_assoc,List.singleton_append]
    exact ⟨_,receive_cut bn block hbs hrx' puts sends trace⟩

theorem receive_cases (bn : UInt8) (puts : List Bool) (rx : List RxEvent) :
    (∃ frame rest, rx = bytes frame ++ rest ∧ IsFrame (bn + 1) frame) ∨
      ∃ seg rest ret puts' q, rx = seg ++ rest ∧ Rejects bn puts seg rest ret puts' q := by
  cases rx with
  | nil => exact .inr ⟨_,_,_,_,_,rfl,rejects_silence bn puts⟩
  | cons e rx =>
    cases e with
    | timeout => exact .inr ⟨_,_,_,_,_,rfl,rejects_timeout bn puts rx⟩
    | fail errno ne => exact .inr ⟨_,_,_,_,_,rfl,rejects_fail bn puts rx errno ne⟩
    | byte b =>
      by_cases hb : b = soh
      · subst hb
        obtain ⟨bs,tail,rfl,hbs | ⟨hbs,hstop⟩⟩ := rx_split 131 rx
        · by_cases hf : IsFrame (bn + 1) (soh :: bs)
          · exact .inl ⟨soh :: bs,tail,rfl,hf⟩
          · obtain ⟨ret,hr⟩ := rejects_whole bn puts tail hbs hf
            exact .inr ⟨_,_,_,_,_,rfl,hr⟩
        · obtain ⟨seg,rest,ret,heq,hr⟩ := rejects_cut bn puts hbs hstop
          exact .inr ⟨_,_,_,_,_,heq,hr⟩
      · by_cases he : b = eot
        · exact .inr ⟨[.byte b],rx,_,_,_,rfl,he ▸ rejects_eot bn puts rx⟩
        · exact .inr ⟨[.byte b],rx,_,_,_,rfl,rejects_noise bn puts rx hb he⟩

end SipfClient.Xmodem
