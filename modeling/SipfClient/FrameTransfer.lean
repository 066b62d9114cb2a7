import SipfClient.FgetLaws
import SipfClient.Reception
set_option autoImplicit false

namespace SipfClient.Xmodem
open ByteMem

abbrev Payload := { p : List UInt8 // p.length ≤ xmodemSzBlock }

/-- The sum over `block[3..130]` is built up in `block[131]` itself. -/
def addSum (block : Mem) : Nat → Mem
  | 0 => block.set 131 0
  | n + 1 => (addSum block n).set 131 (addSum block n 131 + addSum block n (3 + n))

def padding : Mem := fun _ => 0x1a

def sendHeader (bn : UInt8) : Mem := ((padding.set 0 soh).set 1 bn).set 2 (~~~bn)

/-- The static buffer of `XmodemSendBlock`: filled with 0x1A and then written over. -/
def sendBuffer (bn : UInt8) (payload : List UInt8) : Mem := addSum ((sendHeader bn).copy 3 payload) 128

def sendFrame (bn : UInt8) (payload : List UInt8) : List UInt8 :=
  (sendBuffer bn payload).read 0 132

theorem addSum_other (block : Mem) (n : Nat) {j : Nat} (h : j ≠ 131) : addSum block n j = block j := by
  induction n with
  | zero => rw [addSum,Mem.set_other _ _ h]
  | succ n ih => rw [addSum,Mem.set_other _ _ h,ih]

theorem addSum_sum (block : Mem) {n : Nat} (hn : n ≤ 128) :
    addSum block n 131 = checksum (block.read 3 n) := by
  induction n with
  | zero => simp [addSum,checksum]
  | succ n ih =>
    rw [addSum,Mem.set_same,ih (by omega),addSum_other block n (by omega),Mem.read_add]
    simp [checksum,Mem.read]

theorem sendFrame_eq (bn : UInt8) (p : Payload) : sendFrame bn p.1 = xmodemFrame bn p.1 := by
  obtain ⟨p,hp⟩ := p
  have hpad := pad_length hp
  simp only [xmodemSzBlock] at hp hpad
  have hdata : ((sendHeader bn).copy 3 p).read 3 128 = pad p := by
    apply List.ext_getElem (by rw [Mem.read_length,hpad])
    intro i hi hi'
    rw [Mem.read_getElem]
    rcases Nat.lt_or_ge i p.length with h | h
    · rw [Mem.copy_inside _ 3 p h]
      simp [pad,List.getElem_append_left h]
    · rw [Mem.copy_after _ 3 p (by omega),sendHeader,Mem.set_other _ _ (by omega),
        Mem.set_other _ _ (by omega),Mem.set_other _ _ (by omega)]
      simp [pad,padding,List.getElem_append_right h]
  have hread : (sendBuffer bn p).read 3 128 = pad p := by
    rw [← hdata]
    exact Mem.read_congr fun i hi => addSum_other _ _ (by omega)
  have hsum : sendBuffer bn p 131 = checksum (pad p) := by
    rw [← hdata]
    exact addSum_sum _ (Nat.le_refl _)
  have hhead : ∀ j < 3, sendBuffer bn p j = sendHeader bn j := by
    intro j hj
    rw [sendBuffer,addSum_other _ _ (by omega),Mem.copy_before _ 3 p hj]
  have hsplit : (132 : Nat) = 3 + (128 + 1) := rfl
  rw [sendFrame,hsplit,Mem.read_add,Mem.read_add,Nat.zero_add,hread]
  simp only [Mem.read_succ,Mem.read_zero,hhead 0 (by omega),hhead 1 (by omega),hhead 2 (by omega),hsum]
  rfl

def sendBlocks : UInt8 → List Payload → Io RxEvent → Io RxEvent
  | _, [], io => io
  | bn, p :: ps, io => sendBlocks (bn + 1) ps (xmodemSendBlock bn p.1 io).2

def sendFrames : UInt8 → List Payload → List (List UInt8)
  | _, [] => []
  | bn, p :: ps => sendFrame bn p.1 :: sendFrames (bn + 1) ps

def receiveBlocks : Nat → UInt8 → Mem → Io RxEvent → List (Recv RxEvent)
  | 0, _, _, _ => []
  | n + 1, bn, block, io =>
    let r := xmodemReceiveBlock bn block io
    r :: receiveBlocks n r.bn r.block r.io

theorem sendBlocks_frames (bn : UInt8) (ps : List Payload) (io : Io RxEvent) :
    ∃ ts, transmissions (sendBlocks bn ps io).trace = transmissions io.trace ++ ts ∧
      ts.map Transmission.frame = sendFrames bn ps := by
  induction ps generalizing bn io with
  | nil => exact ⟨[],by simp [sendBlocks],rfl⟩
  | cons p ps ih =>
    obtain ⟨queued,reply,io1,hsend,-,htrace⟩ := sendBlock_transmits bn p.2 io
    obtain ⟨ts,hts,hframes⟩ := ih (bn + 1) io1
    refine ⟨⟨xmodemFrame bn p.1, queued, reply⟩ :: ts,?_,?_⟩
    · rw [sendBlocks,hsend,hts,htrace,List.append_assoc]
      rfl
    · rw [List.map_cons,hframes,sendFrames,sendFrame_eq]

theorem sendFrame_padded (bn : UInt8) (p : Payload) : sendFrame bn p.1 = xmodemFrame bn (pad p.1) := by
  have hpad : (pad p.1).length = 128 := pad_length p.2
  rw [sendFrame_eq,xmodemFrame,xmodemFrame,pad_full hpad]

theorem isFrame_sendFrame (bn : UInt8) (p : Payload) : IsFrame bn (sendFrame bn p.1) := by
  rw [sendFrame_padded]
  exact isFrame_frame bn (pad_length p.2)

theorem frameData_sendFrame (bn : UInt8) (p : Payload) : frameData (sendFrame bn p.1) = pad p.1 := by
  rw [sendFrame_padded]
  exact frameData_frame bn (pad_length p.2)

structure AllAccepted (bn : UInt8) (ps : List Payload) (rs : List (Recv RxEvent)) : Prop where
  length : rs.length = ps.length
  accepted : ∀ (i : Nat) (h : i < rs.length), rs[i].ret = .ok
  number : ∀ (i : Nat) (h : i < rs.length), rs[i].bn = bn + UInt8.ofNat (i + 1)
  data : ∀ (i : Nat) (h : i < rs.length) (h' : i < ps.length),
    rs[i].block.read 3 128 = pad ps[i].1

theorem AllAccepted.cons {bn : UInt8} {p : Payload} {ps : List Payload} {r : Recv RxEvent}
    {rs : List (Recv RxEvent)} (hret : r.ret = .ok) (hbn : r.bn = bn + 1)
    (hdata : r.block.read 3 128 = pad p.1) (h : AllAccepted (bn + 1) ps rs) :
    AllAccepted bn (p :: ps) (r :: rs) where
  length := by simp [h.length]
  accepted i hi := by
    cases i with
    | zero => exact hret
    | succ i => exact h.accepted i (by simpa using hi)
  number i hi := by
    cases i with
    | zero => exact hbn
    | succ i =>
      have hone : UInt8.ofNat (1 + (i + 1)) = 1 + UInt8.ofNat (i + 1) := UInt8.ofNat_add ..
      rw [List.getElem_cons_succ,h.number i (by simpa using hi),UInt8.add_assoc,
        Nat.add_comm (i + 1) 1,hone]
  data i hi hi' := by
    cases i with
    | zero => exact hdata
    | succ i => exact h.data i (by simpa using hi) (by simpa using hi')

theorem receiveBlocks_accept (bn : UInt8) (ps : List Payload) (block : Mem) (rest : List RxEvent)
    (puts : List Bool) (sends : List SendRet) (trace : List IoEvent) :
    AllAccepted bn ps (receiveBlocks ps.length bn block
      ⟨bytes (sendFrames (bn + 1) ps).flatten ++ rest, puts, sends, trace⟩) := by
  induction ps generalizing bn block trace with
  | nil => exact ⟨rfl,fun i h => absurd h (by simp [receiveBlocks]),
      fun i h => absurd h (by simp [receiveBlocks]),fun i h => absurd h (by simp [receiveBlocks])⟩
  | cons p ps ih =>
    have hf := isFrame_sendFrame (bn + 1) p
    have hline : bytes (sendFrames (bn + 1) (p :: ps)).flatten ++ rest =
        bytes (sendFrame (bn + 1) p.1) ++ (bytes (sendFrames (bn + 1 + 1) ps).flatten ++ rest) := by
      simp [sendFrames,bytes]
    rw [hline,List.length_cons,receiveBlocks,receive_frame hf]
    refine .cons rfl rfl ?_ (ih (bn + 1) (block.copy 0 (sendFrame (bn + 1) p.1)) _)
    have hread := read_copy_all block hf.length
    rw [← read_data,hread,frameData_sendFrame]

/-- Whatever list of payloads is sent, with any replies and any state of the queues: the
frames the sender builds, fed to a receiver that starts at 0, are all accepted. -/
theorem sender_receiver_agree (ps : List Payload) (sender : Io RxEvent) (block : Mem)
    (rest : List RxEvent) (puts : List Bool) (sends : List SendRet) (trace : List IoEvent) :
    ∃ ts, transmissions (sendBlocks 1 ps sender).trace = transmissions sender.trace ++ ts ∧
      ts.map Transmission.frame = sendFrames 1 ps ∧ (∀ t ∈ ts, t.frame.length = 132) ∧
      AllAccepted 0 ps (receiveBlocks ps.length 0 block
        ⟨bytes (ts.map Transmission.frame).flatten ++ rest, puts, sends, trace⟩) := by
  obtain ⟨ts,htrace,hframes⟩ := sendBlocks_frames 1 ps sender
  refine ⟨ts,htrace,hframes,?_,?_⟩
  · intro t ht
    have hlen : ∀ (bn : UInt8) (qs : List Payload), ∀ f ∈ sendFrames bn qs, f.length = 132 := by
      intro bn qs
      induction qs generalizing bn with
      | nil => simp [sendFrames]
      | cons q qs ih =>
        intro f hf
        rcases List.mem_cons.1 hf with rfl | hf
        · exact (isFrame_sendFrame bn q).length
        · exact ih (bn + 1) f hf
    exact hlen 1 ps _ (hframes ▸ List.mem_map_of_mem ht)
  · rw [hframes]
    exact receiveBlocks_accept 0 ps block rest puts sends trace

end SipfClient.Xmodem
