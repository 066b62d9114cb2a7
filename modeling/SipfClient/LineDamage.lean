import SipfClient.FputRounds
set_option autoImplicit false

/-!
A sender that repeats each block until it arrives intact, over a line that damages
frames, and what the two loops of `$$FPUT` answer. A frame whose header arrives and
that has one changed byte behind it is answered with one NAK, and so is silence. A
frame that is cut short ends the wait for the first block, and in the payload
callback is answered only after another time-out.
-/

namespace SipfClient.Xmodem
open ByteMem HexText Loops Http Command

/-- How a frame is damaged: the byte at `i` arrives as `b`, or only the first `k`
bytes arrive, and the sender waits for an answer. -/
inductive Damage
  | changed (i : Nat) (b : UInt8)
  | cut (k : Nat)
  deriving DecidableEq, Repr

/-- What arrives. A get for the rest of the frame and one for the next header time out
behind a frame that is cut short. -/
def arrives (frame : List UInt8) : Damage → List RxEvent
  | .changed i b => bytes (frame.set i b)
  | .cut k => bytes (frame.take k) ++ List.replicate (if k = 0 then 1 else 2) .timeout

def Recoverable (first : Bool) (frame : List UInt8) : Damage → Prop
  | .changed i b => 1 ≤ i ∧ i < 132 ∧ b ≠ frame.getD i 0
  | .cut k => k < 132 ∧ (first = true → k = 0)

instance (first : Bool) (frame : List UInt8) (d : Damage) : Decidable (Recoverable first frame d) :=
  match d with
  | .changed i b => inferInstanceAs (Decidable (1 ≤ i ∧ i < 132 ∧ b ≠ frame.getD i 0))
  | .cut k => inferInstanceAs (Decidable (k < 132 ∧ (first = true → k = 0)))

structure Delivery where
  data : List UInt8
  damages : List Damage
  deriving DecidableEq, Repr

def Delivery.line (d : Delivery) (bn : UInt8) : List RxEvent :=
  d.damages.flatMap (arrives (xmodemFrame bn d.data)) ++ bytes (xmodemFrame bn d.data)

/-- A block the receiver can get: at most ten damaged transmissions in a row. -/
structure Delivery.Arriving (first : Bool) (bn : UInt8) (d : Delivery) : Prop where
  size : d.data.length = 128
  retries : d.damages.length ≤ 10
  recoverable : ∀ x ∈ d.damages, Recoverable first (xmodemFrame bn d.data) x

def lineFrom : UInt8 → List Delivery → List RxEvent
  | _, [] => []
  | bn, d :: ds => d.line bn ++ lineFrom (bn + 1) ds

def lineOf (ds : List Delivery) : List RxEvent := lineFrom 1 ds ++ [RxEvent.byte eot]

def ArrivingFrom : UInt8 → List Delivery → Prop
  | _, [] => True
  | bn, d :: ds => d.Arriving false bn ∧ ArrivingFrom (bn + 1) ds

def frameList : UInt8 → List Delivery → List (List UInt8)
  | _, [] => []
  | bn, d :: ds => xmodemFrame bn d.data :: frameList (bn + 1) ds

def Delivery.answers (d : Delivery) : List UInt8 := d.damages.map (fun _ => nak) ++ [ack]

theorem checksum_eq_sum (d : List UInt8) : checksum d = d.sum := (List.sum_eq_foldl ..).symm

theorem checksum_set {d : List UInt8} {j : Nat} (hj : j < d.length) {b : UInt8} (hb : b ≠ d[j]) :
    checksum (d.set j b) ≠ checksum d := by
  rw [checksum_eq_sum,checksum_eq_sum,List.sum_set',dif_pos hj]
  intro h
  have hzero : -d[j] + b = 0 := by
    have := congrArg (fun x => -d.sum + x) h
    simpa [← add_assoc] using this
  exact hb (neg_add_eq_zero.1 hzero).symm

theorem frameData_set_inside (frame : List UInt8) {i : Nat} (h3 : 3 ≤ i) (b : UInt8) :
    frameData (frame.set i b) = (frameData frame).set (i - 3) b := by
  rw [frameData,List.drop_set,if_neg (by omega),List.take_set]
  rfl

theorem frameData_set_outside (frame : List UInt8) {i : Nat} (h : 131 ≤ i) (b : UInt8) :
    frameData (frame.set i b) = frameData frame := by
  rw [frameData_set_inside frame (by omega)]
  exact List.set_eq_of_length_le (by simp [frameData]; omega)

theorem blockValidation_number {bn : UInt8} {block : Mem} (h : block 2 ≠ ~~~(block 1)) :
    xmodemBlockValidation block bn = -1 := by
  rw [xmodemBlockValidation,if_pos]
  rwa [ne_eq,complement_iff]

theorem blockValidation_sum {bn : UInt8} {block : Mem} (hn : block 1 = bn + 1)
    (h : checksum (block.read 3 128) ≠ block 131) : xmodemBlockValidation block bn = -1 := by
  have hdup : bn ≠ block 1 := by
    rw [hn]
    exact number_ne_succ bn
  simp only [xmodemBlockValidation,if_neg hdup,if_neg h]
  split_ifs <;> rfl

theorem getD_set_same {l : List UInt8} {i : Nat} (h : i < l.length) (b : UInt8) :
    (l.set i b).getD i 0 = b := by
  simp [h]

theorem getD_set_other (l : List UInt8) {i j : Nat} (h : i ≠ j) (b : UInt8) :
    (l.set i b).getD j 0 = l.getD j 0 := by
  simp [h]

/-- A frame with one changed byte behind the header is no duplicate and is not accepted. -/
theorem blockValidation_changed {bn : UInt8} {frame : List UInt8} (hf : IsFrame (bn + 1) frame)
    {i : Nat} (h1 : 1 ≤ i) (h2 : i < 132) {b : UInt8} (hb : b ≠ frame.getD i 0) {block : Mem}
    (hblock : block.read 0 132 = frame.set i b) : xmodemBlockValidation block bn = -1 := by
  have hlen : i < frame.length := by rw [hf.length]; exact h2
  have hat : ∀ j, j < 132 → block j = (frame.set i b).getD j 0 := by
    intro j hj
    rw [← read_getD block hj,hblock]
  have hsame : block i = b := (hat i h2).trans (getD_set_same hlen b)
  have hother : ∀ j, j < 132 → i ≠ j → block j = frame.getD j 0 := fun j hj hij =>
    (hat j hj).trans (getD_set_other frame hij b)
  have hdata : block.read 3 128 = frameData (frame.set i b) := by rw [← read_data,hblock]
  rcases Nat.lt_or_ge i 3 with hi | hi
  · -- the number or its complement
    apply blockValidation_number
    intro hc
    obtain rfl | rfl : i = 1 ∨ i = 2 := by omega
    · rw [hsame,hother 2 (by omega) (by omega),hf.complement] at hc
      rw [hf.number] at hb
      exact hb (UInt8.not_inj.1 hc).symm
    · rw [hsame,hother 1 (by omega) (by omega),hf.number] at hc
      rw [hf.complement] at hb
      exact hb hc
  · apply blockValidation_sum
    · rw [hother 1 (by omega) (by omega),hf.number]
    · rw [hdata]
      rcases Nat.lt_or_ge i 131 with hi' | hi'
      · have hj : i - 3 < (frameData frame).length := by rw [hf.data_length]; omega
        have hget : (frameData frame)[i - 3] = frame.getD i 0 := by
          have hi3 : 3 + (i - 3) = i := by omega
          simp [frameData,hi3,hlen]
        rw [hother 131 (by omega) (by omega),hf.sum,frameData_set_inside frame hi]
        exact checksum_set hj (by rwa [hget])
      · obtain rfl : i = 131 := by omega
        rw [hsame,frameData_set_outside frame (by omega),← hf.sum]
        exact hb.symm

theorem receive_changed {bn : UInt8} {frame : List UInt8} (hf : IsFrame (bn + 1) frame) {i : Nat}
    (h1 : 1 ≤ i) (h2 : i < 132) {b : UInt8} (hb : b ≠ frame.getD i 0) (block : Mem)
    (rx : List RxEvent) (puts : List Bool) (sends : List SendRet) (trace : List IoEvent) :
    xmodemReceiveBlock bn block ⟨bytes (frame.set i b) ++ rx, puts, sends, trace⟩ =
      ⟨.retry, bn, block.copy 0 (frame.set i b),
        ⟨rx, puts, sends, trace ++ [IoEvent.header soh]⟩⟩ := by
  obtain ⟨bs,rfl,hbs⟩ := isFrame_cons hf
  obtain ⟨i,rfl⟩ : ∃ j, i = j + 1 := ⟨i - 1,by omega⟩
  have hset : (bs.set i b).length = 131 := by simpa using hbs
  have hread : (block.copy 0 ((soh :: bs).set (i + 1) b)).read 0 132 = (soh :: bs).set (i + 1) b :=
    read_copy_all block (by simp [hbs])
  rw [List.set_cons_succ] at hread ⊢
  rw [receive_whole bn block hset,acceptBlock,
    blockValidation_changed hf h1 h2 hb (by rw [hread,List.set_cons_succ])]
  rfl

def answer : IoEvent → Option UInt8
  | .put b _ => some b
  | _ => none

def answers (trace : List IoEvent) : List UInt8 := trace.filterMap answer

structure Shows (ev : List IoEvent) (bs : List UInt8) (frames : List (List UInt8)) : Prop where
  answers : answers ev = bs
  frames : acceptedFrames ev = frames
  goesOn : ∀ r ∈ outcomes ev, r ≠ .finished ∧ r ≠ .canceled ∧ r ≠ .failed

theorem Shows.append {ev ev' : List IoEvent} {bs bs' : List UInt8} {fs fs' : List (List UInt8)}
    (h : Shows ev bs fs) (h' : Shows ev' bs' fs') : Shows (ev ++ ev') (bs ++ bs') (fs ++ fs') where
  answers := by
    rw [← h.answers,← h'.answers]
    exact List.filterMap_append
  frames := by rw [acceptedFrames_append,h.frames,h'.frames]
  goesOn r hr := by
    rw [outcomes_append] at hr
    exact (List.mem_append.1 hr).elim (h.goesOn r) (h'.goesOn r)

theorem shows_nil : Shows [] [] [] := ⟨rfl,rfl,by simp [outcomes]⟩

def AsksAgain {ρ : Type} (body : FputLoop RxEvent → FputLoop RxEvent ⊕ ρ) (limit : Nat) : Prop :=
  ∀ (bn : UInt8) (block block' : Mem) (cnt : Nat) (total : Int) (rx rest : List RxEvent)
    (sends : List SendRet) (trace trace' : List IoEvent), cnt ≤ limit →
    xmodemReceiveBlock bn block ⟨rx, [], sends, trace⟩ =
      ⟨.retry, bn, block', ⟨rest, [], sends, trace'⟩⟩ →
    body ⟨⟨rx, [], sends, trace⟩, bn, block, cnt, total⟩ =
      .inl ⟨⟨rest, [], sends, trace' ++ [IoEvent.received .retry (block'.read 0 132),.put nak true]⟩,
        bn, block', cnt + 1, total⟩

theorem fputBody_asksAgain : AsksAgain (fputBody xmodemReceiveBlock) 10 := by
  intro bn block block' cnt total rx rest sends trace trace' hc h
  simp only [fputBody,receive,h,Io.log,if_neg (not_lt.2 hc),xmodemReceiveReqCurrentBlock,
    xmodemSendNak,putByte_eq,List.append_assoc]
  rfl

theorem firstBody_asksAgain : AsksAgain (firstBody xmodemReceiveBlock) 9 := by
  intro bn block block' cnt total rx rest sends trace trace' hc h
  have hlt : cnt < 10 := Nat.lt_succ_of_le hc
  simp only [firstBody,receive,h,Io.log,if_pos hlt,xmodemReceiveReqCurrentBlock,xmodemSendNak,
    putByte_eq,List.append_assoc]
  rfl

theorem fputBody_other {bn : UInt8} {block block' : Mem} {cnt : Nat} {total : Int}
    {rx rest : List RxEvent} {sends : List SendRet} {trace trace' : List IoEvent} {e : Int}
    (h : xmodemReceiveBlock bn block ⟨rx, [], sends, trace⟩ =
      ⟨.other e, bn, block', ⟨rest, [], sends, trace'⟩⟩) :
    fputBody xmodemReceiveBlock ⟨⟨rx, [], sends, trace⟩, bn, block, cnt, total⟩ =
      .inl ⟨⟨rest, [], sends, trace' ++ [IoEvent.received (.other e) (block'.read 0 132)]⟩, bn, block',
        cnt, total⟩ := by
  simp only [fputBody,receive,h,Io.log]

theorem shows_retry (frame : List UInt8) {q : List IoEvent} (hq : q = [] ∨ ∃ b, q = [.header b]) :
    Shows (q ++ [IoEvent.received .retry frame,.put nak true]) [nak] [] := by
  rcases hq with rfl | ⟨b,rfl⟩ <;>
    exact ⟨rfl,rfl,by simp [outcomes,outcome,List.filterMap_cons]⟩

section
variable {bn : UInt8} {frame : List UInt8} (rest : List RxEvent) (sends : List SendRet)
  (trace : List IoEvent) (block : Mem) (total : Int)

theorem receive_damaged (hf : IsFrame (bn + 1) frame) {d : Damage}
    (hd : Recoverable true frame d) : ∃ block' q, (q = [] ∨ ∃ b, q = [.header b]) ∧
      xmodemReceiveBlock bn block ⟨arrives frame d ++ rest, [], sends, trace⟩ =
        ⟨.retry, bn, block', ⟨rest, [], sends, trace ++ q⟩⟩ := by
  cases d with
  | changed i b =>
    obtain ⟨h1,h2,hb⟩ := hd
    exact ⟨_,[.header soh],.inr ⟨soh,rfl⟩,receive_changed hf h1 h2 hb block rest [] sends trace⟩
  | cut k =>
    obtain ⟨_,hk⟩ := hd
    obtain rfl := hk rfl
    refine ⟨block,[],.inl rfl,?_⟩
    rw [List.append_nil]
    exact receive_timeout bn block rest [] sends trace

theorem callback_silence {cnt : Nat} (hc : cnt ≤ 10) : fputBody xmodemReceiveBlock
    ⟨⟨.timeout :: rest, [], sends, trace⟩, bn, block, cnt, total⟩ =
      .inl ⟨⟨rest, [], sends, trace ++ [IoEvent.received .retry (block.read 0 132),.put nak true]⟩, bn,
        block, cnt + 1, total⟩ :=
  fputBody_asksAgain bn block block cnt total _ rest sends trace trace hc
    (receive_timeout bn block rest [] sends trace)

theorem callback_cut {bs : List UInt8} (hbs : bs.length < 131) {cnt : Nat} (hc : cnt ≤ 10) :
    ∃ block' ev, Rounds (fputBody xmodemReceiveBlock) 2
      ⟨⟨bytes (soh :: bs) ++ (.timeout :: .timeout :: rest), [], sends, trace⟩, bn, block, cnt, total⟩
      ⟨⟨rest, [], sends, trace ++ ev⟩, bn, block', cnt + 1, total⟩ ∧ Shows ev [nak] [] := by
  have hstop : Stops (.timeout :: .timeout :: rest) := fun b => by simp
  have hround := @fputBody_other bn block _ cnt total _ _ sends trace _ _
    (receive_cut bn block hbs hstop [] sends trace)
  have hrounds := Rounds.next hround
    (.next (callback_silence rest sends _ (block.copy 0 (soh :: bs)) total hc) (.refl _))
  simp only [List.append_assoc] at hrounds
  exact ⟨_,_,hrounds,rfl,rfl,by simp [outcomes,outcome,List.filterMap_cons]⟩

end

section Damages

variable {ρ : Type} {body : FputLoop RxEvent → FputLoop RxEvent ⊕ ρ} {w limit : Nat} {bn : UInt8}
  {frame : List UInt8}

/-- A damage that takes at most `w` rounds, one NAK and one of the retries. -/
def Absorbs (body : FputLoop RxEvent → FputLoop RxEvent ⊕ ρ) (w limit : Nat) (bn : UInt8)
    (frame : List UInt8) (d : Damage) : Prop :=
  ∀ (rest : List RxEvent) (sends : List SendRet) (total : Int) (trace : List IoEvent) (block : Mem)
    (cnt : Nat), cnt ≤ limit → ∃ k block' ev, k ≤ w ∧ Rounds body k
      ⟨⟨arrives frame d ++ rest, [], sends, trace⟩, bn, block, cnt, total⟩
      ⟨⟨rest, [], sends, trace ++ ev⟩, bn, block', cnt + 1, total⟩ ∧ Shows ev [nak] []

theorem damage_absorbed (hbody : AsksAgain body limit) (hw : 1 ≤ w) (hf : IsFrame (bn + 1) frame)
    {d : Damage} (hd : Recoverable true frame d) : Absorbs body w limit bn frame d := by
  intro rest sends total trace block cnt hc
  obtain ⟨block',q,hq,hr⟩ := receive_damaged rest sends trace block hf hd
  refine ⟨1,block',_,hw,.next ?_ (.refl _),shows_retry (block'.read 0 132) hq⟩
  rw [hbody bn block block' cnt total _ rest sends trace _ hc hr,List.append_assoc]

theorem callback_absorbs (hf : IsFrame (bn + 1) frame) {d : Damage} (hd : Recoverable false frame d) :
    Absorbs (fputBody xmodemReceiveBlock) 2 10 bn frame d := by
  by_cases hfirst : Recoverable true frame d
  · exact damage_absorbed fputBody_asksAgain (by decide) hf hfirst
  · intro rest sends total trace block cnt hc
    cases d with
    | changed i b => exact absurd hd hfirst
    | cut k =>
      obtain ⟨hk,_⟩ := hd
      have hpos : k ≠ 0 := fun h => hfirst ⟨hk,fun _ => h⟩
      obtain ⟨bs,rfl,hbs⟩ := isFrame_cons hf
      obtain ⟨k,rfl⟩ : ∃ j, k = j + 1 := ⟨k - 1,by omega⟩
      have hlen : (bs.take k).length < 131 := by simp; omega
      obtain ⟨block',ev,hrounds,hshows⟩ := callback_cut rest sends trace block total hlen hc
      refine ⟨2,block',ev,Nat.le_refl 2,?_,hshows⟩
      simpa [arrives,List.replicate] using hrounds

theorem damages_absorbed {ds : List Damage} (h : ∀ d ∈ ds, Absorbs body w limit bn frame d)
    (rest : List RxEvent) (sends : List SendRet) (total : Int) (trace : List IoEvent) (block : Mem)
    {cnt : Nat} (hc : cnt + ds.length ≤ limit + 1) : ∃ k block' ev, k ≤ w * ds.length ∧ Rounds body k
      ⟨⟨ds.flatMap (arrives frame) ++ rest, [], sends, trace⟩, bn, block, cnt, total⟩
      ⟨⟨rest, [], sends, trace ++ ev⟩, bn, block', cnt + ds.length, total⟩ ∧
      Shows ev (ds.map fun _ => nak) [] := by
  induction ds generalizing trace block cnt with
  | nil => exact ⟨0,block,[],Nat.zero_le _,by simpa using Rounds.refl _,shows_nil⟩
  | cons d ds ih =>
    simp only [List.length_cons] at hc
    obtain ⟨k1,block1,ev1,hk1,hround,hshows1⟩ := h d List.mem_cons_self
      (ds.flatMap (arrives frame) ++ rest) sends total trace block cnt (by omega)
    obtain ⟨k2,block2,ev2,hk2,hrounds,hshows2⟩ := ih (fun x hx => h x (List.mem_cons_of_mem d hx))
      (trace ++ ev1) block1 (show cnt + 1 + ds.length ≤ limit + 1 by omega)
    refine ⟨k1 + k2,block2,ev1 ++ ev2,?_,?_,hshows1.append hshows2⟩
    · rw [List.length_cons,Nat.mul_succ]
      omega
    have hcnt : cnt + 1 + ds.length = cnt + (d :: ds).length := by simp; omega
    rw [hcnt,List.append_assoc] at hrounds
    rw [List.flatMap_cons,List.append_assoc]
    exact hround.trans hrounds

theorem first_damages {bn : UInt8} {frame : List UInt8} (hf : IsFrame (bn + 1) frame)
    {ds : List Damage} (hds : ∀ d ∈ ds, Recoverable true frame d) (rest : List RxEvent)
    (sends : List SendRet) (total : Int) (trace : List IoEvent) (block : Mem) {cnt : Nat}
    (hc : cnt + ds.length ≤ 10) : ∃ k block' ev, k ≤ ds.length ∧
      Rounds (firstBody xmodemReceiveBlock) k
        ⟨⟨ds.flatMap (arrives frame) ++ rest, [], sends, trace⟩, bn, block, cnt, total⟩
        ⟨⟨rest, [], sends, trace ++ ev⟩, bn, block', cnt + ds.length, total⟩ ∧
      Shows ev (ds.map fun _ => nak) [] := by
  have h := damages_absorbed (fun d hd => damage_absorbed firstBody_asksAgain (Nat.le_refl 1) hf (hds d hd))
    rest sends total trace block hc
  rwa [Nat.one_mul] at h

end Damages

def Taking (sends : List SendRet) : Prop := ∀ r ∈ sends, ∃ n le, r = .taken n le

theorem Taking.head {sends : List SendRet} (h : Taking sends) :
    ∃ n le, sends.headD .full = .taken n le := by
  cases sends with
  | nil => exact ⟨128,Nat.le_refl _,rfl⟩
  | cons r sends => exact h r List.mem_cons_self

theorem Taking.tail {sends : List SendRet} (h : Taking sends) : Taking sends.tail :=
  fun r hr => h r (List.mem_of_mem_tail hr)

def totals : List SendRet → Nat → Int → Int
  | _, 0, total => total
  | sends, n + 1, total => totals sends.tail n (int32 (total + (sends.headD .full).count))

theorem callback_deliveries {bn : UInt8} {ds : List Delivery} (hds : ArrivingFrom (bn + 1) ds)
    (rest : List RxEvent) {sends : List SendRet} (hs : Taking sends) (trace : List IoEvent)
    (block : Mem) (total : Int) : ∃ k sends' bn' block' ev, Rounds (fputBody xmodemReceiveBlock) k
      ⟨⟨lineFrom (bn + 1) ds ++ rest, [], sends, trace⟩, bn, block, 0, total⟩
      ⟨⟨rest, [], sends', trace ++ ev⟩, bn', block', 0, totals sends ds.length total⟩ ∧
      Shows ev (ds.flatMap Delivery.answers) (frameList (bn + 1) ds) := by
  induction ds generalizing bn sends trace block total with
  | nil => exact ⟨0,sends,bn,block,[],by simpa [lineFrom,totals] using Rounds.refl _,shows_nil⟩
  | cons d ds ih =>
    obtain ⟨hd,hds⟩ := hds
    obtain ⟨n,le,hsend⟩ := hs.head
    have hf := isFrame_frame (bn + 1) hd.size
    obtain ⟨k1,block1,ev1,-,hrounds1,hshows1⟩ := damages_absorbed
      (fun x hx => callback_absorbs hf (hd.recoverable x hx))
      (bytes (xmodemFrame (bn + 1) d.data) ++ (lineFrom (bn + 1 + 1) ds ++ rest)) sends total trace
      block (show 0 + d.damages.length ≤ 10 + 1 by have := hd.retries; omega)
    obtain ⟨k2,sends',bn',block2,ev2,hrounds2,hshows2⟩ := ih hds hs.tail
      (trace ++ ev1 ++ roundRecord (xmodemFrame (bn + 1) d.data) (.taken n le) true)
      (block1.copy 0 (xmodemFrame (bn + 1) d.data)) (int32 (total + n))
    have hround := round_taken hf hsend (lineFrom (bn + 1 + 1) ds ++ rest) [] (trace ++ ev1) block1
      (0 + d.damages.length) total
    have hshows : Shows (roundRecord (xmodemFrame (bn + 1) d.data) (.taken n le) true) [ack]
        [xmodemFrame (bn + 1) d.data] :=
      ⟨rfl,rfl,by simp [outcomes,outcome,roundRecord,List.filterMap_cons]⟩
    refine ⟨k1 + (k2 + 1),sends',bn',block2,
      (ev1 ++ roundRecord (xmodemFrame (bn + 1) d.data) (.taken n le) true) ++ ev2,?_,?_⟩
    · have hline : lineFrom (bn + 1) (d :: ds) ++ rest = d.damages.flatMap
          (arrives (xmodemFrame (bn + 1) d.data)) ++ (bytes (xmodemFrame (bn + 1) d.data) ++
            (lineFrom (bn + 1 + 1) ds ++ rest)) := by
        simp only [lineFrom,Delivery.line,List.append_assoc]
      have htotal : totals sends (d :: ds).length total =
          totals sends.tail ds.length (int32 (total + n)) := by
        simp only [List.length_cons,totals,hsend,SendRet.count]
      have htrace : trace ++ ((ev1 ++ roundRecord (xmodemFrame (bn + 1) d.data) (.taken n le) true) ++
          ev2) = trace ++ ev1 ++ roundRecord (xmodemFrame (bn + 1) d.data) (.taken n le) true ++ ev2 := by
        simp only [List.append_assoc]
      rw [hline,htotal,htrace]
      exact hrounds1.trans (.next hround hrounds2)
    · exact (hshows1.append hshows).append hshows2

structure Finishes (ev : List IoEvent) (bs : List UInt8) (frames : List (List UInt8)) : Prop where
  answers : answers ev = bs
  frames : acceptedFrames ev = frames
  finished : ∃ rs, outcomes ev = rs ++ [.finished] ∧
    ∀ r ∈ rs, r ≠ .finished ∧ r ≠ .canceled ∧ r ≠ .failed

theorem Shows.finishes {ev ev' : List IoEvent} {bs bs' : List UInt8} {fs fs' : List (List UInt8)}
    (h : Shows ev bs fs) (h' : Finishes ev' bs' fs') :
    Finishes (ev ++ ev') (bs ++ bs') (fs ++ fs') where
  answers := by
    rw [← h.answers,← h'.answers]
    exact List.filterMap_append
  frames := by rw [acceptedFrames_append,h.frames,h'.frames]
  finished := by
    obtain ⟨rs,hrs,hall⟩ := h'.finished
    refine ⟨outcomes ev ++ rs,by rw [outcomes_append,hrs,List.append_assoc],?_⟩
    intro r hr
    exact (List.mem_append.1 hr).elim (h.goesOn r) (hall r)

def endRecord (frame : List UInt8) : List IoEvent :=
  [.header eot,.put ack true,.received .finished frame]

theorem finishes_eot (frame : List UInt8) {tail : List IoEvent} (ha : answers tail = [])
    (hf : acceptedFrames tail = []) (ho : outcomes tail = []) :
    Finishes (endRecord frame ++ tail) [ack] [] where
  answers := by
    rw [Xmodem.answers,List.filterMap_append]
    exact congrArg ([ack] ++ ·) ha
  frames := by
    rw [acceptedFrames_append,hf]
    rfl
  finished := by
    refine ⟨[],?_,by simp⟩
    rw [outcomes_append,ho]
    rfl

theorem callback_eot (sends : List SendRet) (trace : List IoEvent) (bn : UInt8) (block : Mem)
    (cnt : Nat) (total : Int) :
    fputBody xmodemReceiveBlock ⟨⟨[RxEvent.byte eot], [], sends, trace⟩, bn, block, cnt, total⟩ =
      .inr (none, ⟨⟨[], [], sends, trace ++ endRecord (block.read 0 132)⟩, bn, block, cnt, total⟩) := by
  simp only [fputBody,receive,receive_eot,Io.log,List.headD_nil,if_pos,List.tail_nil,List.append_assoc]
  rfl

theorem finish_trace (fileSize : UInt32) (e : CbState) :
    (fputFinish fileSize e).ret = int32 e.totalSent ∧ ∃ tail, (tail = [] ∨ tail = [.close]) ∧
      (fputFinish fileSize e).io.trace = e.io.trace ++ tail := by
  rw [finish_eq]
  split_ifs
  · exact ⟨rfl,[.close],.inr rfl,rfl⟩
  · exact ⟨rfl,[],.inl rfl,(List.append_nil _).symm⟩

/-- The payload callback gets all blocks behind the first, and its result does not depend
on the damage. -/
theorem callback_arrives (fileSize : UInt32) {ds : List Delivery} (hds : ArrivingFrom 2 ds)
    {sends : List SendRet} (hs : Taking sends) (trace : List IoEvent) (block : Mem) :
    ∃ cb ev frame tail, cmdFputSendCb fileSize block
      ⟨lineFrom 2 ds ++ [RxEvent.byte eot], [], sends, trace⟩ = some cb ∧
      cb.ret = int32 (totals sends.tail ds.length (int32 (sends.headD .full).count)) ∧
      (tail = [] ∨ tail = [.close]) ∧
      cb.io.trace = trace ++ (ev ++ (endRecord frame ++ tail)) ∧
      Shows ev (ack :: ds.flatMap Delivery.answers) (frameList 2 ds) := by
  obtain ⟨n,le,hsend⟩ := hs.head
  have hnumber : (1 : UInt8) + 1 = 2 := by decide
  rw [← hnumber] at hds ⊢
  obtain ⟨k,sends',bn',block',ev,hrounds,hshows⟩ := callback_deliveries hds [RxEvent.byte eot] hs.tail
    (trace ++ firstRecord block sends []) block
    (int32 (sends.headD .full).count)
  have hloop := hrounds.exit (callback_eot sends' _ bn' block' 0 _)
  obtain ⟨r,hr⟩ := cbStart_total block (lineFrom (1 + 1) ds ++ [RxEvent.byte eot]) [] sends trace
  have hunique := loop_unique hr hloop
  have hcb := callback_taken fileSize block (lineFrom (1 + 1) ds ++ [RxEvent.byte eot]) [] hsend trace
  rw [hr,hunique] at hcb
  simp only [Option.map_some,cbEnd] at hcb
  obtain ⟨hret,tail,htail,htrace⟩ := finish_trace fileSize ⟨⟨[], [], sends',
    trace ++ firstRecord block sends [] ++ ev ++ endRecord (block'.read 0 132)⟩, bn', block', 0,
    totals sends.tail ds.length (int32 (sends.headD .full).count)⟩
  refine ⟨_,firstRecord block sends [] ++ ev,block'.read 0 132,tail,hcb,hret,htail,?_,?_⟩
  · rw [htrace]
    simp only [List.append_assoc]
  · have hfirst : Shows (firstRecord block sends []) [ack] [] :=
      ⟨rfl,rfl,by simp [firstRecord,outcomes,outcome,List.filterMap_cons]⟩
    exact hfirst.append hshows

def uploadRet (course : UploadCourse) (t : UploadTarget) (cbRet : Int) : Int :=
  let ret := uploadResult t course (if cbRet < 0 then
    { course.net with client := { course.net.client with ret := cbRet } } else course.net)
  if ret < 0 then ret else course.complete

theorem upload_called {course : UploadCourse} {t : UploadTarget} (ht : course.target = .ok t)
    (hnet : course.net.Connects t.tls) (hhead : course.headSent = true)
    {payloadCb : Mem → Io RxEvent → Option (FputCb RxEvent)} (size : Int) {block : Mem}
    {io : Io RxEvent} {cb : FputCb RxEvent} (hcb : payloadCb block io = some cb) :
    sipfFileUpload course payloadCb size block io =
      some ⟨uploadRet course t cb.ret, some (uploadRequest t size), true, cb.block, cb.io⟩ := by
  have hcall : course.net.Connects t.tls ∧ course.headSent = true := ⟨hnet,hhead⟩
  simp only [sipfFileUpload,ht,sipfFileCallbackUploadRequest,if_pos hcall,hcb,Option.bind_eq_bind,
    Option.bind_some,uploadRet]
  split_ifs <;> rfl

/-- A session has recovered from all damage: one answer for each transmission, NAK for a
damaged one and ACK for an intact one, between the NAK that starts the transfer and the ACK
for EOT; every block accepted; no reception that ends the transfer before EOT. -/
structure Recovered (ds : List Delivery) (run : FputRun RxEvent) : Prop where
  answers : answers run.io.trace = nak :: (ds.flatMap Delivery.answers ++ [ack])
  accepted : acceptedFrames run.io.trace = frameList 1 ds
  finished : ∃ rs, outcomes run.io.trace = rs ++ [.finished] ∧
    ∀ r ∈ rs, r ≠ .finished ∧ r ≠ .canceled ∧ r ≠ .failed

def transferRet (args : FputArgs) (course : UploadCourse) (t : UploadTarget) (sends : List SendRet)
    (n : Nat) : Except Int (List UInt8) :=
  .ok (if uploadRet course t (int32 (totals sends.tail n (int32 (sends.headD .full).count))) < 0 then
    cmdCreateResNg else cmdFputOkRes args.fileSize)

theorem session_recovers (args : FputArgs) {course : UploadCourse} {t : UploadTarget}
    (ht : course.target = .ok t) (hnet : course.net.Connects t.tls) (hhead : course.headSent = true)
    (block : Mem) {sends : List SendRet} (hs : Taking sends) {d : Delivery} {ds : List Delivery}
    (hd : d.Arriving true 1) (hds : ArrivingFrom 2 ds) :
    ∃ run, fputSession xmodemReceiveBlock args course block
        ⟨lineOf (d :: ds), [], sends, []⟩ = some run ∧
      Recovered (d :: ds) run ∧ run.ret = transferRet args course t sends ds.length := by
  have hnumber : (0 : UInt8) + 1 = 1 := by decide
  have hnext : (1 : UInt8) + 1 = 2 := by decide
  have hf : IsFrame (0 + 1) (xmodemFrame 1 d.data) := by
    rw [hnumber]
    exact isFrame_frame 1 hd.size
  have hretries := hd.retries
  obtain ⟨k,block1,ev1,hk,hrounds,hshows1⟩ := first_damages hf hd.recoverable
    (bytes (xmodemFrame 1 d.data) ++ (lineFrom 2 ds ++ [RxEvent.byte eot])) sends 0 (startRecord []) block
    (show 0 + d.damages.length ≤ 10 by omega)
  have hround := @firstRound_frame (xmodemFrame 1 d.data) 0 hf (lineFrom 2 ds ++ [RxEvent.byte eot]) [] sends
    (startRecord [] ++ ev1) block1 (0 + d.damages.length) 0
  have hloop := loop_mono (hrounds.exit hround) (show k + 1 ≤ 12 by omega)
  rw [← List.append_assoc] at hloop
  have hline : lineOf (d :: ds) = (d.damages.flatMap (arrives (xmodemFrame 1 d.data)) ++
      bytes (xmodemFrame 1 d.data)) ++ (lineFrom 2 ds ++ [RxEvent.byte eot]) := by
    simp only [lineOf,lineFrom,Delivery.line,hnext,List.append_assoc]
  rw [← hline] at hloop
  obtain ⟨cb,ev,frame,tail,hcb,hret,htail,htrace,hshows⟩ := callback_arrives args.fileSize hds hs
    (startRecord [] ++ ev1 ++ [IoEvent.header soh,.received .ok (xmodemFrame 1 d.data)])
    (block1.copy 0 (xmodemFrame 1 d.data))
  have hup := upload_called ht hnet hhead (int32 args.fileSize.toNat) hcb
  have hrun := @fputSession_received args course block _ [] sends rfl _ hloop _ hup
  refine ⟨_,hrun,?_,by rw [transferRet,hret]⟩
  have hstart : Shows (startRecord []) [nak] [] := ⟨rfl,rfl,by simp [startRecord,outcomes,outcome]⟩
  have hfirst : Shows [.header soh,.received .ok (xmodemFrame 1 d.data)] [] [xmodemFrame 1 d.data] :=
    ⟨rfl,rfl,by simp [outcomes,outcome,List.filterMap_cons]⟩
  have hend : Finishes (endRecord frame ++ (tail ++ [IoEvent.echo true])) [ack] [] := by
    rcases htail with rfl | rfl <;> exact finishes_eot frame rfl rfl rfl
  obtain ⟨hanswers,hframes,hfinished⟩ :=
    (((hstart.append hshows1).append hfirst).append hshows).finishes hend
  have htrace' : (xmodemEnd cb.io).trace = startRecord [] ++ ev1 ++ [IoEvent.header soh,
      .received .ok (xmodemFrame 1 d.data)] ++ ev ++
        (endRecord frame ++ (tail ++ [IoEvent.echo true])) := by
    rw [xmodemEnd,uartBrokerSetEcho,Io.log_trace,htrace]
    simp only [List.append_assoc]
  refine ⟨?_,?_,?_⟩
  · refine (congrArg answers htrace').trans (hanswers.trans ?_)
    simp [Delivery.answers]
  · refine (congrArg acceptedFrames htrace').trans (hframes.trans ?_)
    simp [frameList,hnext]
  · rw [← htrace'] at hfinished
    exact hfinished

def Delivery.undamaged (d : Delivery) : Delivery := { d with damages := [] }

theorem undamaged_arriving {first : Bool} {bn : UInt8} {d : Delivery} (h : d.Arriving first bn) :
    d.undamaged.Arriving first bn :=
  ⟨h.size,by simp [Delivery.undamaged],by simp [Delivery.undamaged]⟩

theorem undamaged_arrivingFrom {bn : UInt8} {ds : List Delivery} (h : ArrivingFrom bn ds) :
    ArrivingFrom bn (ds.map Delivery.undamaged) := by
  induction ds generalizing bn with
  | nil => trivial
  | cons d ds ih => exact ⟨undamaged_arriving h.1,ih h.2⟩

/-- A file whose blocks each arrive intact after at most ten damaged transmissions in a
row is received whole, and the command answers as if the line had not damaged anything. -/
theorem fput_recovers {inBuff : Mem} {inLen : UInt16} {args : FputArgs}
    (hargs : fputArgs inBuff inLen = some args) {course : List UInt8 → UploadCourse}
    {t : UploadTarget} (ht : (course args.fileId).target = .ok t)
    (hnet : (course args.fileId).net.Connects t.tls)
    (hhead : (course args.fileId).headSent = true) (block : Mem) {sends : List SendRet}
    (hs : Taking sends) {d : Delivery} {ds : List Delivery} (hd : d.Arriving true 1)
    (hds : ArrivingFrom 2 ds) :
    ∃ run clean, cmdAsciiCmdFput inBuff inLen course block
        ⟨lineOf (d :: ds), [], sends, []⟩ = some run ∧
      Recovered (d :: ds) run ∧
      cmdAsciiCmdFput inBuff inLen course block
        ⟨lineOf ((d :: ds).map Delivery.undamaged), [], sends, []⟩ = some clean ∧
      run.ret = clean.ret := by
  obtain ⟨run,hrun,hrecovered,hret⟩ := session_recovers args ht hnet hhead block hs hd hds
  obtain ⟨clean,hclean,-,hret'⟩ := session_recovers args ht hnet hhead block hs
    (undamaged_arriving hd) (undamaged_arrivingFrom hds)
  refine ⟨run,clean,?_,hrecovered,?_,?_⟩
  · simp only [cmdAsciiCmdFput,hargs,hrun]
  · simp only [cmdAsciiCmdFput,hargs,List.map_cons,hclean]
  · rw [hret,hret',List.length_map]

def goodCourse : UploadCourse :=
  ⟨.ok ⟨"h", "/f", false⟩, ⟨0, 0, 0, 0, 0, ⟨0, [⟨"OK", 200, 0, 1, 0⟩], Mem.zero⟩⟩, .zero, true, 0⟩

def blockA : List UInt8 := List.replicate 128 0x41

theorem fput_recovers_two : ∃ run clean,
    cmdAsciiCmdFput (Mem.ofList (ascii " a 00000100")) 11 (fun _ => goodCourse) Mem.zero
      ⟨lineOf [⟨blockA, [.changed 5 0, .cut 0]⟩,⟨blockA, [.cut 7]⟩], [], [], []⟩ = some run ∧
    Recovered [⟨blockA, [.changed 5 0, .cut 0]⟩,⟨blockA, [.cut 7]⟩] run ∧
    cmdAsciiCmdFput (Mem.ofList (ascii " a 00000100")) 11 (fun _ => goodCourse) Mem.zero
      ⟨lineOf [⟨blockA, []⟩,⟨blockA, []⟩], [], [], []⟩ = some clean ∧ run.ret = clean.ret :=
  @fput_recovers (Mem.ofList (ascii " a 00000100")) 11 ⟨[0x61], 0x100⟩ (by decide +kernel)
    (fun _ => goodCourse) ⟨"h", "/f", false⟩ rfl (by decide) rfl Mem.zero [] (by simp [Taking])
    ⟨blockA, [.changed 5 0, .cut 0]⟩ [⟨blockA, [.cut 7]⟩]
    ⟨by decide +kernel,by decide,by decide +kernel⟩
    ⟨⟨by decide +kernel,by decide,by decide +kernel⟩,trivial⟩

/-- The header of the first transmission arrives as EOT: it is acknowledged, and the
transfer ends without a block. -/
theorem fput_header_damage :
    (cmdAsciiCmdFput (Mem.ofList (ascii " a 00000080")) 11 (fun _ => goodCourse) Mem.zero
      ⟨lineOf [⟨blockA, [.changed 0 eot]⟩], [], [], []⟩).map
        (fun run => (run.ret.toOption, answers run.io.trace, acceptedFrames run.io.trace)) =
      some (some cmdCreateResNg, [nak,ack], []) := by
  decide +kernel

end SipfClient.Xmodem
