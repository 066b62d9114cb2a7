import SipfClient.Chunks
import SipfClient.FgetCommand
set_option autoImplicit false

namespace SipfClient.Xmodem
open ByteMem Chunks

structure Transmission where
  frame : List UInt8
  queued : Nat
  reply : RxEvent
  deriving DecidableEq, Repr

def transmission : IoEvent → Option Transmission
  | .sent frame queued reply => some ⟨frame, queued, reply⟩
  | _ => none

def transmissions (trace : List IoEvent) : List Transmission := trace.filterMap transmission

theorem transmissions_append (a b : List IoEvent) :
    transmissions (a ++ b) = transmissions a ++ transmissions b := List.filterMap_append

def Transmission.wire (t : Transmission) : List UInt8 := t.frame.take t.queued

def Transmission.number (t : Transmission) : UInt8 := t.frame.getD 1 0

abbrev Transmission.Acked (t : Transmission) : Prop := t.reply = .byte ack

abbrev Transmission.Lost (t : Transmission) : Prop := t.reply = .byte nak ∨ t.reply = .timeout

def Refused (reply : RxEvent) : Prop :=
  reply ≠ .timeout ∧ reply ≠ .byte ack ∧ reply ≠ .byte nak ∧ reply ≠ .byte can

def Means (reply : RxEvent) : XmodemSendRet → Prop
  | .ok => reply = .byte ack
  | .retry => reply = .byte nak
  | .canceled => reply = .byte can
  | .timeout => reply = .timeout
  | .failed => Refused reply

theorem means_sendRet (reply : RxEvent) : Means reply (sendRet reply) := by
  cases reply with
  | timeout => rfl
  | fail n ne => simp [sendRet,Means,Refused]
  | byte b =>
    simp only [sendRet]
    split_ifs with hack hnak hcan
    · rw [Means,hack]
    · rw [Means,hnak]
    · rw [Means,hcan]
    · simp [Means,Refused,hack,hnak,hcan]

theorem sendRet_means {reply : RxEvent} {ret : XmodemSendRet} (h : sendRet reply = ret) :
    Means reply ret := h ▸ means_sendRet reply

theorem pad_length {p : List UInt8} (h : p.length ≤ xmodemSzBlock) :
    (pad p).length = xmodemSzBlock := by
  simp [pad]; omega

theorem frame_length (bn : UInt8) {p : List UInt8} (h : p.length ≤ xmodemSzBlock) :
    (xmodemFrame bn p).length = 132 := by
  simp [xmodemFrame,pad_length h,xmodemSzBlock]

theorem uartBrokerPut_quiet {ρ : Type} (bs : List UInt8) (io : Io ρ) :
    (uartBrokerPut bs io).1 ≤ bs.length ∧
      transmissions (uartBrokerPut bs io).2.trace = transmissions io.trace := by
  induction bs generalizing io with
  | nil => exact ⟨Nat.le_refl _,rfl⟩
  | cons b bs ih =>
    have hone : transmissions (uartBrokerPutByte b io).2.trace = transmissions io.trace := by
      simp [uartBrokerPutByte,transmissions,transmission]
    simp only [uartBrokerPut]
    obtain ⟨hle,htr⟩ := ih (uartBrokerPutByte b io).2
    split_ifs
    · exact ⟨by simpa using hle,htr.trans hone⟩
    · exact ⟨Nat.zero_le _,hone⟩

theorem sendBlock_transmits (bn : UInt8) {p : List UInt8} (hp : p.length ≤ xmodemSzBlock)
    (io : Io RxEvent) :
    ∃ queued reply io', xmodemSendBlock bn p io = (sendRet reply, io') ∧ queued ≤ 132 ∧
      transmissions io'.trace = transmissions io.trace ++ [⟨xmodemFrame bn p, queued, reply⟩] := by
  obtain ⟨hle,htr⟩ := uartBrokerPut_quiet (xmodemFrame bn p) io
  rw [frame_length bn hp] at hle
  have hget : ∀ io1 : Io RxEvent, (uartBrokerGetByteTm io1).2.trace = io1.trace := fun _ => rfl
  refine ⟨_,_,_,by rw [xmodemSendBlock,if_neg (by omega)],hle,?_⟩
  simp only [Io.log_trace,transmissions_append,hget,htr]
  rfl

/-- The tries for one piece: lost ones and then one that is answered with ACK, or `n`
lost ones and nothing more. -/
inductive Tried (n : Nat) (bn : UInt8) (p : List UInt8) : List Transmission → UInt8 → Prop
  | acked (ls : List Transmission) (t : Transmission) (hn : ls.length < n)
      (hls : ∀ l ∈ ls, l.frame = xmodemFrame bn p ∧ l.Lost) (ht : t.frame = xmodemFrame bn p)
      (hq : t.queued ≤ 132) (hack : t.Acked) : Tried n bn p (ls ++ [t]) (bn + 1)
  | skipped (ls : List Transmission) (hn : ls.length = n)
      (hls : ∀ l ∈ ls, l.frame = xmodemFrame bn p ∧ l.Lost) : Tried n bn p ls bn

theorem Tried.more {n : Nat} {bn bn' : UInt8} {p : List UInt8} {ts : List Transmission}
    (h : Tried n bn p ts bn') {l : Transmission} (hf : l.frame = xmodemFrame bn p) (hl : l.Lost) :
    Tried (n + 1) bn p (l :: ts) bn' := by
  have hall : ∀ ls : List Transmission, (∀ x ∈ ls, x.frame = xmodemFrame bn p ∧ x.Lost) →
      ∀ x ∈ l :: ls, x.frame = xmodemFrame bn p ∧ x.Lost := by
    intro ls hls x hx
    rcases List.mem_cons.1 hx with rfl | hx
    · exact ⟨hf,hl⟩
    · exact hls x hx
  cases h with
  | acked ls t hn hls ht hq hack =>
    exact .acked (l :: ls) t (by simpa using hn) (hall ls hls) ht hq hack
  | skipped _ hn hls => exact .skipped (l :: ts) (by simpa using hn) (hall ts hls)

theorem fgetTry_tried {n : Nat} {bn bn' : UInt8} {p : List UInt8} (hp : p.length ≤ xmodemSzBlock)
    {io io' : Io RxEvent} (h : fgetTry n bn p io = (none, bn', io')) :
    ∃ ts, transmissions io'.trace = transmissions io.trace ++ ts ∧ Tried n bn p ts bn' := by
  induction n generalizing io with
  | zero =>
    cases h
    exact ⟨[],by simp,.skipped [] rfl (by simp)⟩
  | succ n ih =>
    obtain ⟨q,reply,io1,hsend,hq,htr⟩ := sendBlock_transmits bn hp io
    simp only [fgetTry,hsend] at h
    have hlost : ∀ hl : (⟨xmodemFrame bn p, q, reply⟩ : Transmission).Lost,
        fgetTry n bn p io1 = (none, bn', io') →
        ∃ ts, transmissions io'.trace = transmissions io.trace ++ ts ∧ Tried (n + 1) bn p ts bn' := by
      intro hl hrest
      obtain ⟨ts,hts,htried⟩ := ih hrest
      exact ⟨_ :: ts,by rw [hts,htr]; simp,htried.more rfl hl⟩
    cases hr : sendRet reply with
    | ok =>
      simp only [hr,Prod.mk.injEq,true_and] at h
      obtain ⟨rfl,rfl⟩ := h
      exact ⟨[_],htr,.acked [] _ (by simp) (by simp) rfl hq (sendRet_means hr)⟩
    | retry =>
      simp only [hr] at h
      exact hlost (.inl (sendRet_means hr)) h
    | timeout =>
      simp only [hr] at h
      exact hlost (.inr (sendRet_means hr)) h
    | canceled => simp [hr] at h
    | failed => simp [hr] at h

inductive SendLog : UInt8 → List (List UInt8) → List Transmission → UInt8 → Prop
  | nil (bn : UInt8) : SendLog bn [] [] bn
  | cons {bn bn1 bn2 : UInt8} {p : List UInt8} {ps : List (List UInt8)} {ts ts' : List Transmission}
      (first : Tried fputBlockSendRetry bn p ts bn1) (rest : SendLog bn1 ps ts' bn2) :
      SendLog bn (p :: ps) (ts ++ ts') bn2

theorem SendLog.append {bn bn1 bn2 : UInt8} {ps qs : List (List UInt8)} {ts us : List Transmission}
    (h : SendLog bn ps ts bn1) (h' : SendLog bn1 qs us bn2) :
    SendLog bn (ps ++ qs) (ts ++ us) bn2 := by
  induction h with
  | nil => exact h'
  | cons first _ ih =>
    rw [List.append_assoc]
    exact .cons first (ih h')

theorem payload_eq {buff : List UInt8} {idx : Nat} (hidx : idx < buff.length)
    (hmul : xmodemSzBlock ∣ idx) :
    (buff.drop idx).take (payloadLen buff.length idx) = (buff.drop idx).take xmodemSzBlock := by
  simp only [payloadLen]
  split_ifs with htail
  · obtain ⟨k,rfl⟩ := hmul
    have hmod : buff.length % xmodemSzBlock = buff.length - xmodemSzBlock * k := by
      simp only [xmodemSzBlock] at htail hidx ⊢
      omega
    rw [hmod,List.take_of_length_le (by simp),
      List.take_of_length_le (by rw [List.length_drop]; omega)]
  · rfl

theorem fgetTry_neg {n : Nat} {bn bn' : UInt8} {p : List UInt8} {io io' : Io RxEvent} {ret : Int}
    (h : fgetTry n bn p io = (some ret, bn', io')) : ret < 0 := by
  induction n generalizing io with
  | zero => simp [fgetTry] at h
  | succ n ih =>
    simp only [fgetTry] at h
    split at h
    · cases h; decide
    · exact ih h
    · exact ih h
    · cases h; decide
    · cases h

theorem sendLog_end {buff : List UInt8} {idx : Nat} (h : buff.length ≤ idx) (bn : UInt8) :
    SendLog bn (chunks xmodemSzBlock (buff.drop idx)) [] bn := by
  rw [List.drop_eq_nil_of_le h,chunks_nil (by decide)]
  exact .nil bn

theorem fgetBlocks_log {buff : List UInt8} {n idx : Nat} {bn bn' : UInt8} {io io' : Io RxEvent}
    (hmul : xmodemSzBlock ∣ idx) (hn : buff.length ≤ idx + xmodemSzBlock * n)
    (h : fgetBlocks buff n idx bn io = (0, bn', io')) :
    ∃ ts, transmissions io'.trace = transmissions io.trace ++ ts ∧
      SendLog bn (chunks xmodemSzBlock (buff.drop idx)) ts bn' := by
  induction n generalizing idx bn io with
  | zero =>
    cases h
    exact ⟨[],by simp,sendLog_end (by simpa using hn) _⟩
  | succ n ih =>
    simp only [fgetBlocks] at h
    split_ifs at h with hidx
    · rw [payload_eq hidx hmul] at h
      cases htry : fgetTry fputBlockSendRetry bn ((buff.drop idx).take xmodemSzBlock) io with
      | mk out rest =>
        obtain ⟨bn1,io1⟩ := rest
        rw [htry] at h
        cases out with
        | some ret =>
          have hneg := fgetTry_neg htry
          simp only [Prod.mk.injEq] at h
          omega
        | none =>
          obtain ⟨ts,hts,htried⟩ := fgetTry_tried (List.length_take_le _ _) htry
          have hmul' : xmodemSzBlock ∣ idx + xmodemSzBlock := (Nat.dvd_add_self_right).2 hmul
          obtain ⟨ts',hts',hlog⟩ := ih hmul' (by rw [Nat.mul_succ] at hn; omega) h
          refine ⟨ts ++ ts',by rw [hts',hts,List.append_assoc],?_⟩
          rw [chunks_cons (by decide) (by simpa using hidx),List.drop_drop]
          exact .cons htried hlog
    · cases h
      exact ⟨[],by simp,sendLog_end (by omega) _⟩

theorem fgetBlocks_le (buff : List UInt8) (n idx : Nat) (bn : UInt8) (io : Io RxEvent) :
    (fgetBlocks buff n idx bn io).1 ≤ 0 := by
  induction n generalizing idx bn io with
  | zero => exact Int.le_refl 0
  | succ n ih =>
    simp only [fgetBlocks]
    split_ifs
    · split
      · rename_i htry
        have hneg := fgetTry_neg htry
        simp only
        omega
      · exact ih _ _ _
    · exact Int.le_refl 0

theorem cmdFgetCb_log {f : List UInt8} {bn bn' : UInt8} {io io' : Io RxEvent}
    (h : cmdFgetCb bn f io = (0, bn', io')) :
    ∃ ts, transmissions io'.trace = transmissions io.trace ++ ts ∧
      SendLog bn (chunks xmodemSzBlock f) ts bn' := by
  have hlog := fgetBlocks_log (Nat.dvd_zero _) (by simp only [xmodemSzBlock]; omega) h
  rwa [List.drop_zero] at hlog

def WholeButLast (fs : List (List UInt8)) : Prop := ∀ f ∈ fs.dropLast, xmodemSzBlock ∣ f.length

theorem chunks_fragments {f : List UInt8} {fs : List (List UInt8)} (h : WholeButLast (f :: fs)) :
    chunks xmodemSzBlock (f :: fs).flatten =
      chunks xmodemSzBlock f ++ chunks xmodemSzBlock fs.flatten := by
  cases fs with
  | nil => simp [chunks_nil (show 0 < xmodemSzBlock by decide)]
  | cons g gs =>
    rw [List.flatten_cons,chunks_append (by decide)]
    exact h f (by simp)

theorem fgetFragments_log {fs : List (List UInt8)} (hwhole : WholeButLast fs) {bn bn' : UInt8}
    {io io' : Io RxEvent} (h : fgetFragments fs bn io = (0, bn', io')) :
    ∃ ts, transmissions io'.trace = transmissions io.trace ++ ts ∧
      SendLog bn (chunks xmodemSzBlock fs.flatten) ts bn' := by
  induction fs generalizing bn io with
  | nil =>
    cases h
    refine ⟨[],by simp,?_⟩
    rw [List.flatten_nil,chunks_nil (by decide)]
    exact .nil _
  | cons f fs ih =>
    cases hcb : cmdFgetCb bn f io with
    | mk ret rest =>
      obtain ⟨bn1,io1⟩ := rest
      simp only [fgetFragments,hcb] at h
      split_ifs at h with hneg
      · simp only [Prod.mk.injEq] at h
        omega
      · have hle : ret ≤ 0 := by
          have h0 := fgetBlocks_le f (f.length / xmodemSzBlock + 1) 0 bn io
          rw [cmdFgetCb] at hcb
          rwa [hcb] at h0
        obtain rfl : ret = 0 := by omega
        obtain ⟨ts,hts,hlog⟩ := cmdFgetCb_log hcb
        obtain ⟨ts',hts',hlog'⟩ := ih (fun g hg => hwhole g (by
          cases fs with
          | nil => simp at hg
          | cons _ _ => simp [hg])) h
        rw [chunks_fragments hwhole]
        exact ⟨ts ++ ts',by rw [hts',hts,List.append_assoc],hlog.append hlog'⟩

def framesFrom : UInt8 → List (List UInt8) → List (List UInt8)
  | _, [] => []
  | bn, p :: ps => xmodemFrame bn p :: framesFrom (bn + 1) ps

theorem framesFrom_length (bn : UInt8) (ps : List (List UInt8)) :
    (framesFrom bn ps).length = ps.length := by
  induction ps generalizing bn with
  | nil => rfl
  | cons p ps ih => simp [framesFrom,ih]

def ackedBlocks (ts : List Transmission) : List Transmission := ts.filter fun t => t.reply = .byte ack

def Transmission.data (t : Transmission) : List UInt8 := (t.wire.drop 3).take xmodemSzBlock

/-- The file has arrived: one block for each piece in order, numbered from 1, its
data fields the file and its padding; and a number that is sent twice in a row is
sent with the same piece. -/
structure Delivered (file : List UInt8) (ts : List Transmission) : Prop where
  blocks : (ackedBlocks ts).map Transmission.wire = framesFrom 1 (chunks xmodemSzBlock file)
  data : (ackedBlocks ts).flatMap Transmission.data =
    file ++ List.replicate ((xmodemSzBlock - file.length % xmodemSzBlock) % xmodemSzBlock) 0x1a
  steady : ts.IsChain fun t t' => t.number = t'.number → t.frame = t'.frame

/-- Fewer than three replies in a row are lost, `r` having been lost before. -/
def FewLost : Nat → List Transmission → Prop
  | _, [] => True
  | r, t :: ts => if t.Lost then r + 1 < fputBlockSendRetry ∧ FewLost (r + 1) ts else FewLost 0 ts

def QueuedWhole (ts : List Transmission) : Prop := ∀ t ∈ ts, t.Acked → t.queued = 132

inductive AckLog : UInt8 → List (List UInt8) → List Transmission → Prop
  | nil (bn : UInt8) : AckLog bn [] []
  | cons {bn : UInt8} {p : List UInt8} {ps : List (List UInt8)} {ls ts : List Transmission}
      {t : Transmission} (hn : ls.length < fputBlockSendRetry)
      (hls : ∀ l ∈ ls, l.frame = xmodemFrame bn p ∧ l.Lost) (ht : t.frame = xmodemFrame bn p)
      (hq : t.queued ≤ 132) (hack : t.Acked) (rest : AckLog (bn + 1) ps ts) :
      AckLog bn (p :: ps) (ls ++ t :: ts)

theorem acked_not_lost {t : Transmission} (h : t.Acked) : ¬ t.Lost := by
  rintro (hl | hl) <;> rw [h] at hl
  · exact absurd hl (by decide)
  · cases hl

theorem ackedBlocks_lost {ls : List Transmission} (h : ∀ l ∈ ls, l.Lost) (ts : List Transmission) :
    ackedBlocks (ls ++ ts) = ackedBlocks ts := by
  have hnone : ls.filter (fun t => t.reply = .byte ack) = [] := by
    rw [List.filter_eq_nil_iff]
    intro l hl hack
    exact acked_not_lost (by simpa using hack) (h l hl)
  rw [ackedBlocks,ackedBlocks,List.filter_append,hnone,List.nil_append]

theorem ackedBlocks_cons {t : Transmission} (h : t.Acked) (ts : List Transmission) :
    ackedBlocks (t :: ts) = t :: ackedBlocks ts := by
  simp [ackedBlocks,h]

theorem fewLost_lost {ls : List Transmission} (h : ∀ l ∈ ls, l.Lost) (r : Nat)
    (ts : List Transmission) (hr : r < fputBlockSendRetry) :
    FewLost r (ls ++ ts) ↔ r + ls.length < fputBlockSendRetry ∧ FewLost (r + ls.length) ts := by
  induction ls generalizing r with
  | nil => simp [hr]
  | cons l ls ih =>
    have hl : l.Lost := h l (by simp)
    rw [List.cons_append,FewLost,if_pos hl,List.length_cons]
    constructor
    · rintro ⟨h1,h2⟩
      have h3 := (ih (fun x hx => h x (by simp [hx])) (r + 1) h1).1 h2
      rwa [show r + (ls.length + 1) = r + 1 + ls.length by omega]
    · intro h1
      have hr1 : r + 1 < fputBlockSendRetry := by omega
      refine ⟨hr1,(ih (fun x hx => h x (by simp [hx])) (r + 1) hr1).2 ?_⟩
      rwa [show r + 1 + ls.length = r + (ls.length + 1) by omega]

theorem fewLost_acked {t : Transmission} (h : t.Acked) (r : Nat) (ts : List Transmission) :
    FewLost r (t :: ts) ↔ FewLost 0 ts := by
  rw [FewLost,if_neg (acked_not_lost h)]

theorem SendLog.ackLog_of_few {bn bn' : UInt8} {ps : List (List UInt8)} {ts : List Transmission}
    (h : SendLog bn ps ts bn') (hfew : FewLost 0 ts) : AckLog bn ps ts := by
  induction h with
  | nil bn => exact .nil bn
  | cons first rest ih =>
    cases first with
    | acked ls t hn hls ht hq hack =>
      rw [List.append_assoc,List.singleton_append] at hfew ⊢
      have hfew' := (fewLost_lost (fun l hl => (hls l hl).2) 0 _ (by decide)).1 hfew
      exact .cons hn hls ht hq hack (ih ((fewLost_acked hack _ _).1 hfew'.2))
    | skipped _ hn hls =>
      have hfew' := (fewLost_lost (fun l hl => (hls l hl).2) 0 _ (by decide)).1 hfew
      omega

/-- A record with as many ACKs as pieces has no skipped piece. -/
theorem SendLog.ackLog_of_count {bn bn' : UInt8} {ps : List (List UInt8)} {ts : List Transmission}
    (h : SendLog bn ps ts bn') :
    (ackedBlocks ts).length ≤ ps.length ∧
      ((ackedBlocks ts).length = ps.length → AckLog bn ps ts) := by
  induction h with
  | nil bn => exact ⟨by simp [ackedBlocks],fun _ => .nil bn⟩
  | cons first rest ih =>
    obtain ⟨hle,hlog⟩ := ih
    cases first with
    | acked ls t hn hls ht hq hack =>
      rw [List.append_assoc,List.singleton_append,ackedBlocks_lost fun l hl => (hls l hl).2,
        ackedBlocks_cons hack,List.length_cons,List.length_cons]
      exact ⟨by omega,fun heq => .cons hn hls ht hq hack (hlog (by omega))⟩
    | skipped _ hn hls =>
      rw [ackedBlocks_lost fun l hl => (hls l hl).2,List.length_cons]
      exact ⟨by omega,fun heq => by omega⟩

theorem AckLog.few {bn : UInt8} {ps : List (List UInt8)} {ts : List Transmission}
    (h : AckLog bn ps ts) : FewLost 0 ts := by
  induction h with
  | nil => trivial
  | cons hn hls ht hq hack _ ih =>
    rw [fewLost_lost (fun l hl => (hls l hl).2) 0 _ (by decide),fewLost_acked hack]
    exact ⟨by omega,ih⟩

theorem wire_whole {t : Transmission} {bn : UInt8} {p : List UInt8} (hp : p.length ≤ xmodemSzBlock)
    (ht : t.frame = xmodemFrame bn p) (hq : t.queued ≤ 132) :
    t.wire = xmodemFrame bn p ↔ t.queued = 132 := by
  rw [Transmission.wire,ht]
  constructor
  · intro h
    have hl := congrArg List.length h
    rw [List.length_take,frame_length bn hp] at hl
    omega
  · intro h
    rw [h,← frame_length bn hp,List.take_length]

/-- Where no piece is skipped, the blocks are right exactly if they went out whole. -/
theorem AckLog.blocks_iff {bn : UInt8} {ps : List (List UInt8)} {ts : List Transmission}
    (h : AckLog bn ps ts) (hps : ∀ p ∈ ps, p.length ≤ xmodemSzBlock) :
    (ackedBlocks ts).map Transmission.wire = framesFrom bn ps ↔ QueuedWhole ts := by
  induction h with
  | nil => simp [ackedBlocks,framesFrom,QueuedWhole]
  | @cons bn p ps ls ts t hn hls ht hq hack _ ih =>
    have hlost : ∀ l ∈ ls, l.Lost := fun l hl => (hls l hl).2
    rw [ackedBlocks_lost hlost,ackedBlocks_cons hack,framesFrom,List.map_cons,List.cons.injEq,
      ih fun q hq => hps q (by simp [hq]),wire_whole (hps p (by simp)) ht hq]
    constructor
    · rintro ⟨ht,hts⟩ u hu hua
      rcases List.mem_append.1 hu with hu | hu
      · exact absurd (hlost u hu) (acked_not_lost hua)
      · rcases List.mem_cons.1 hu with rfl | hu
        · exact ht
        · exact hts u hu hua
    · intro hall
      exact ⟨hall t (by simp) hack,fun u hu => hall u (by simp [hu])⟩

theorem frame_number (bn : UInt8) (p : List UInt8) : (xmodemFrame bn p).getD 1 0 = bn := rfl

theorem AckLog.head_number {bn : UInt8} {ps : List (List UInt8)} {ts : List Transmission}
    (h : AckLog bn ps ts) : ∀ t ∈ ts.head?, t.number = bn := by
  cases h with
  | nil => simp
  | @cons _ p ps ls ts t hn hls ht hq hack rest =>
    intro u hu
    cases ls with
    | nil =>
      obtain rfl : t = u := by simpa using hu
      rw [Transmission.number,ht,frame_number]
    | cons l ls =>
      obtain rfl : l = u := by simpa using hu
      rw [Transmission.number,(hls l (by simp)).1,frame_number]

theorem AckLog.steady {bn : UInt8} {ps : List (List UInt8)} {ts : List Transmission}
    (h : AckLog bn ps ts) : ts.IsChain fun t t' => t.number = t'.number → t.frame = t'.frame := by
  induction h with
  | nil => exact .nil
  | @cons bn p ps ls ts t hn hls ht hq hack rest ih =>
    have hnext : (t :: ts).IsChain fun t t' => t.number = t'.number → t.frame = t'.frame := by
      cases ts with
      | nil => exact .singleton t
      | cons u us =>
        refine .cons_cons (fun heq => ?_) ih
        rw [rest.head_number u (by simp),Transmission.number,ht,frame_number] at heq
        have hne : bn ≠ bn + 1 := by
          intro hc
          have hc' := congrArg UInt8.toNat hc
          rw [UInt8.toNat_add] at hc'
          have hlt := bn.toNat_lt
          simp at hc'
          omega
        exact absurd heq hne
    have hframes : ∀ l ∈ ls, l.frame = xmodemFrame bn p := fun l hl => (hls l hl).1
    clear hls hn rest ih
    induction ls with
    | nil => exact hnext
    | cons l ls ihl =>
      have hl := hframes l (by simp)
      have hrest := ihl fun x hx => hframes x (by simp [hx])
      cases ls with
      | nil => exact .cons_cons (fun _ => by rw [hl,ht]) hrest
      | cons m ms => exact .cons_cons (fun _ => by rw [hl,hframes m (by simp)]) hrest

theorem frame_data (bn : UInt8) {p : List UInt8} (hp : p.length ≤ xmodemSzBlock) :
    ((xmodemFrame bn p).drop 3).take xmodemSzBlock = pad p := by
  rw [xmodemFrame,List.cons_append,List.cons_append,List.cons_append]
  exact List.take_left' (pad_length hp)

theorem framesFrom_data (bn : UInt8) {ps : List (List UInt8)}
    (hps : ∀ p ∈ ps, p.length ≤ xmodemSzBlock) :
    ((framesFrom bn ps).flatMap fun w => (w.drop 3).take xmodemSzBlock) = ps.flatMap pad := by
  induction ps generalizing bn with
  | nil => rfl
  | cons p ps ih =>
    rw [framesFrom,List.flatMap_cons,List.flatMap_cons,frame_data bn (hps p (by simp)),
      ih (bn + 1) fun q hq => hps q (by simp [hq])]

theorem pieces_padded (file : List UInt8) :
    (chunks xmodemSzBlock file).flatMap pad =
      file ++ List.replicate ((xmodemSzBlock - file.length % xmodemSzBlock) % xmodemSzBlock) 0x1a := by
  induction hlen : file.length using Nat.strong_induction_on generalizing file with
  | _ n ih =>
    subst hlen
    by_cases hnil : file = []
    · subst hnil
      rw [chunks_nil (by decide)]
      rfl
    have hpos := List.length_pos_iff.2 hnil
    rw [chunks_cons (by decide) hnil,List.flatMap_cons]
    by_cases hle : xmodemSzBlock ≤ file.length
    · rw [ih (file.drop xmodemSzBlock).length (by simp only [List.length_drop,xmodemSzBlock]; omega)
        _ rfl,List.length_drop,← Nat.mod_eq_sub_mod hle,pad,List.length_take_of_le hle,Nat.sub_self,
        List.replicate_zero,List.append_nil,← List.append_assoc,List.take_append_drop]
    · have hlt : file.length < xmodemSzBlock := by omega
      rw [List.drop_eq_nil_of_le (by omega),chunks_nil (by decide),
        List.take_of_length_le (by omega),Nat.mod_eq_of_lt hlt,
        Nat.mod_eq_of_lt (by simp only [xmodemSzBlock]; omega)]
      simp [pad]

theorem delivered_iff {file : List UInt8} {ts : List Transmission} {bn' : UInt8}
    (h : SendLog 1 (chunks xmodemSzBlock file) ts bn') :
    Delivered file ts ↔ FewLost 0 ts ∧ QueuedWhole ts := by
  have hps : ∀ p ∈ chunks xmodemSzBlock file, p.length ≤ xmodemSzBlock :=
    fun p hp => length_of_mem_chunks hp
  constructor
  · intro hd
    have hcount := congrArg List.length hd.blocks
    rw [List.length_map,framesFrom_length] at hcount
    have hlog := h.ackLog_of_count.2 hcount
    exact ⟨hlog.few,(hlog.blocks_iff hps).1 hd.blocks⟩
  · rintro ⟨hfew,hqueued⟩
    have hlog := h.ackLog_of_few hfew
    have hblocks := (hlog.blocks_iff hps).2 hqueued
    refine ⟨hblocks,?_,hlog.steady⟩
    rw [← pieces_padded,← framesFrom_data 1 hps,← hblocks,List.flatMap_map]
    rfl

/-- When every call of the callback returns 0, the file has been delivered exactly if
no block was lost three times in a row and every acknowledged one was queued whole. -/
theorem fget_delivers_iff {fs : List (List UInt8)} (hwhole : WholeButLast fs) {bn' : UInt8}
    {io io' : Io RxEvent} (h : fgetFragments fs 1 io = (0, bn', io')) :
    ∃ ts, transmissions io'.trace = transmissions io.trace ++ ts ∧
      (Delivered fs.flatten ts ↔ FewLost 0 ts ∧ QueuedWhole ts) := by
  obtain ⟨ts,hts,hlog⟩ := fgetFragments_log hwhole h
  exact ⟨ts,hts,delivered_iff hlog⟩

theorem triple_eq {α β γ : Type} {x : α × β × γ} {a : α} {b : β} (ha : x.1 = a) (hb : x.2.1 = b) :
    x = (a, b, x.2.2) := by
  subst ha hb
  rfl

def peer (replies : List RxEvent) : Io RxEvent := ⟨replies, [], [], []⟩

theorem fget_delivers_iff_third_try :
    ∃ io', fgetFragments [[0x41]] 1 (peer [.byte nak,.timeout,.byte ack]) = (0, 2, io') ∧
      ∃ ts, transmissions io'.trace =
          transmissions (peer [.byte nak,.timeout,.byte ack]).trace ++ ts ∧
        (Delivered [[(0x41 : UInt8)]].flatten ts ↔ FewLost 0 ts ∧ QueuedWhole ts) := by
  have hrun : fgetFragments [[0x41]] 1 (peer [.byte nak,.timeout,.byte ack]) =
      (0, 2, (fgetFragments [[0x41]] 1 (peer [.byte nak,.timeout,.byte ack])).2.2) :=
    triple_eq (by decide +kernel) (by decide +kernel)
  exact ⟨_,hrun,fget_delivers_iff (by simp [WholeButLast]) hrun⟩

/-- Three NAKs: the only block of the file is never acknowledged, and the call still
returns 0. -/
theorem fget_skips_block :
    ¬ ∀ (fs : List (List UInt8)) (bn' : UInt8) (io io' : Io RxEvent), WholeButLast fs →
      transmissions io.trace = [] → fgetFragments fs 1 io = (0, bn', io') →
      Delivered fs.flatten (transmissions io'.trace) := by
  intro hall
  have hd := hall [[0x41]] _ (peer [.byte nak,.byte nak,.byte nak])
    (fgetFragments [[0x41]] 1 (peer [.byte nak,.byte nak,.byte nak])).2.2
    (by simp [WholeButLast]) rfl
    (triple_eq (b := 1) (by decide +kernel) (by decide +kernel))
  have hcount := congrArg List.length hd.blocks
  rw [framesFrom_length] at hcount
  revert hcount
  decide +kernel

end SipfClient.Xmodem
