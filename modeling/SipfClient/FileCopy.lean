import SipfClient.FgetLaws
import SipfClient.LineDamage
import SipfClient.FputBodyLaws
import SipfClient.FputOrderLaws
set_option autoImplicit false

namespace SipfClient.Xmodem
open ByteMem HexText Loops Http Command Chunks ShortWrites

theorem written_full {k : Nat} {ts : List Nat} (h : ∀ t ∈ ts, t = k) {ds : List (List UInt8)}
    (hds : Pieces k ts.length ds) : written ts ds = ds.flatten := by
  induction ts generalizing ds with
  | nil =>
    obtain rfl := List.length_eq_zero_iff.1 hds.count
    rfl
  | cons t ts ih =>
    cases ds with
    | nil => exact absurd hds.count (by simp)
    | cons d ds =>
      obtain ⟨hd,hds⟩ := hds.head
      rw [written_cons,ih (fun x hx => h x (by simp [hx])) hds,h t (by simp),← hd,List.take_length,
        List.flatten_cons]

theorem counts_full (n : Nat) : ∀ t ∈ counts [] n, t = 128 := by
  intro t ht
  obtain ⟨i,-,rfl⟩ := List.mem_map.1 ht
  rfl

theorem totals_full {n k : Nat} (h : 128 * (n + k) < 2 ^ 31) :
    totals [] n (128 * k : Nat) = (128 * (n + k) : Nat) := by
  induction n generalizing k with
  | zero => rw [Nat.zero_add]; rfl
  | succ n ih =>
    have hcount : (([] : List SendRet).headD .full).count = 128 := rfl
    have hsum : ((128 * k : Nat) : Int) + (128 : Nat) = (128 * (k + 1) : Nat) := by push_cast; ring
    rw [totals,hcount,hsum,int32_small (by omega),List.tail_nil,ih (by omega)]
    congr 2
    omega

theorem frameList_data {bn : UInt8} {ds : List Delivery} (h : ArrivingFrom bn ds) :
    (frameList bn ds).map frameData = ds.map Delivery.data := by
  induction ds generalizing bn with
  | nil => rfl
  | cons d ds ih => rw [frameList,List.map_cons,List.map_cons,frameData_frame bn h.1.size,ih h.2]

theorem unhanded_bytes {trace : List IoEvent} (h : handed trace = []) : socketBytes trace = [] := by
  refine List.flatMap_eq_nil_iff.2 fun x hx => ?_
  cases x with
  | send data ret =>
    have hmem : data ∈ handed trace := List.mem_filterMap.2 ⟨_,hx,rfl⟩
    rw [h] at hmem
    exact absurd hmem List.not_mem_nil
  | _ => rfl

theorem finish_bytes (fileSize : UInt32) (e : CbState) :
    socketBytes (fputFinish fileSize e).io.trace = socketBytes e.io.trace ∧
      acceptedFrames (fputFinish fileSize e).io.trace = acceptedFrames e.io.trace := by
  obtain ⟨-,tail,htail,htrace⟩ := finish_trace fileSize e
  rw [htrace,socketBytes_append,acceptedFrames_append]
  rcases htail with rfl | rfl <;> simp [socketBytes,takenBytes,acceptedFrames,acceptedFrame]

theorem callback_stores (fileSize : UInt32) {ds : List Delivery} (hds : ArrivingFrom 2 ds)
    (hsmall : 128 * (ds.length + 1) < 2 ^ 31) (trace : List IoEvent) (block : Mem) :
    ∃ cb, cmdFputSendCb fileSize block ⟨lineFrom 2 ds ++ [RxEvent.byte eot], [], [], trace⟩ = some cb ∧
      cb.ret = (128 * (ds.length + 1) : Nat) ∧
      socketBytes cb.io.trace = socketBytes trace ++ (block.read 3 128 ++ ds.flatMap Delivery.data) := by
  obtain ⟨cb,ev,frame,tail,hcb,hret,htail,htrace,hshows⟩ :=
    @callback_arrives fileSize ds hds [] (by simp [Taking]) trace block
  have htotal : cb.ret = (128 * (ds.length + 1) : Nat) := by
    rw [hret]
    exact (congrArg int32 (@totals_full ds.length 1 hsmall)).trans (int32_small hsmall)
  refine ⟨cb,hcb,htotal,?_⟩
  have hcall := @callback_taken fileSize block (lineFrom 2 ds ++ [RxEvent.byte eot]) [] [] 128
    (Nat.le_refl 128) rfl trace
  rw [hcb] at hcall
  obtain ⟨⟨out,e⟩,hloop,hend⟩ := Option.map_eq_some_iff.1 hcall.symm
  cases out with
  | some v =>
    have hneg := callbackLoop_negative hloop
    subst hend
    simp only [cbEnd] at htotal
    omega
  | none =>
    obtain ⟨ev',htrace',hsent,-,-⟩ := callback_run hloop
    have hstart : (cbStart block (lineFrom 2 ds ++ [RxEvent.byte eot]) [] [] trace).io.trace =
      trace ++ firstRecord block [] [] := rfl
    have hfinish : fputFinish fileSize e = cb := hend
    obtain ⟨hbytes,hframes⟩ := finish_bytes fileSize e
    rw [hfinish,htrace',hstart,List.append_assoc] at hbytes hframes
    have hacc : acceptedFrames ev' = frameList 2 ds := by
      have hplain : acceptedFrames (endRecord frame) ++ acceptedFrames tail = [] := by
        rcases htail with rfl | rfl <;> rfl
      have hfirst : acceptedFrames (firstRecord block [] []) = [] := rfl
      simp only [htrace,acceptedFrames_append,hshows.frames,hplain,hfirst,List.append_nil,
        List.nil_append] at hframes
      exact (List.append_cancel_left hframes).symm
    have hdata : acceptedData ev' = ds.map Delivery.data := by
      rw [acceptedData,hacc,frameList_data hds]
    have hbody := @Sent.body block [] [] ev' hsent
    rw [written_full (counts_full _) (@Sent.all block [] ev' hsent),hdata] at hbody
    rw [hbytes,socketBytes_append,hbody,List.flatten_cons,← List.flatMap_def]

theorem session_stores (args : FputArgs) {course : UploadCourse} {t : UploadTarget}
    (ht : course.target = .ok t) (hnet : course.net.Connects t.tls) (hhead : course.headSent = true)
    (block : Mem) {d : Delivery} {ds : List Delivery} (hd : d.Arriving true 1)
    (hds : ArrivingFrom 2 ds) (hsmall : 128 * (ds.length + 1) < 2 ^ 31) :
    ∃ run up,
      fputSession xmodemReceiveBlock args course block ⟨lineOf (d :: ds), [], [], []⟩ = some run ∧
      run.upload = some up ∧ up.request = some (uploadRequest t (int32 args.fileSize.toNat)) ∧
      socketBytes run.io.trace = (d :: ds).flatMap Delivery.data := by
  have hnext : (1 : UInt8) + 1 = 2 := by decide
  have hf : IsFrame (0 + 1) (xmodemFrame 1 d.data) := isFrame_frame 1 hd.size
  have hretries := hd.retries
  obtain ⟨k,block1,ev1,hk,hrounds,hshows1⟩ := first_damages hf hd.recoverable
    (bytes (xmodemFrame 1 d.data) ++ (lineFrom 2 ds ++ [RxEvent.byte eot])) [] 0 (startRecord []) block
    (show 0 + d.damages.length ≤ 10 by omega)
  have hround := @firstRound_frame (xmodemFrame 1 d.data) 0 hf (lineFrom 2 ds ++ [RxEvent.byte eot]) []
    [] (startRecord [] ++ ev1) block1 (0 + d.damages.length) 0
  have hloop := loop_mono (hrounds.exit hround) (show k + 1 ≤ 12 by omega)
  rw [← List.append_assoc] at hloop
  have hline : lineOf (d :: ds) = (d.damages.flatMap (arrives (xmodemFrame 1 d.data)) ++
      bytes (xmodemFrame 1 d.data)) ++ (lineFrom 2 ds ++ [RxEvent.byte eot]) := by
    simp only [lineOf,lineFrom,Delivery.line,hnext,List.append_assoc]
  rw [← hline] at hloop
  obtain ⟨r,hr,hend⟩ := @first_run (lineOf (d :: ds)) (sessionStart block (lineOf (d :: ds)) [] [])
    ⟨⟨fun i h => absurd h (Nat.not_lt_zero i),⟨[],rfl,trivial⟩,
      ackBound_none (by simp [sessionStart,startRecord,isAck,nak,ack])⟩,rfl,rfl,rfl⟩ rfl
  obtain rfl := loop_unique hr hloop
  have hnone := unhanded_bytes hend.unhanded
  obtain ⟨cb,hcb,-,hbytes⟩ := callback_stores args.fileSize hds hsmall
    (startRecord [] ++ ev1 ++ [IoEvent.header soh,.received .ok (xmodemFrame 1 d.data)])
    (block1.copy 0 (xmodemFrame 1 d.data))
  have hup := upload_called ht hnet hhead (int32 args.fileSize.toNat) hcb
  have hrun := @fputSession_received args course block _ [] [] rfl _ hloop _ hup
  refine ⟨_,_,hrun,rfl,rfl,?_⟩
  have hfirst : (block1.copy 0 (xmodemFrame 1 d.data)).read 3 128 = d.data := by
    rw [← read_data,read_copy_all block1 hf.length,frameData_frame 1 hd.size]
  have hecho : socketBytes [IoEvent.echo true] = [] := rfl
  rw [xmodemEnd,uartBrokerSetEcho,Io.log_trace,socketBytes_append,hbytes,hecho,hfirst,
    List.append_nil,List.flatMap_cons]
  exact congrArg (· ++ _) hnone

theorem arriving_length {bn : UInt8} {ds : List Delivery} (h : ArrivingFrom bn ds) :
    (ds.flatMap Delivery.data).length = 128 * ds.length := by
  induction ds generalizing bn with
  | nil => rfl
  | cons d ds ih =>
    rw [List.flatMap_cons,List.length_append,h.1.size,ih h.2,List.length_cons]
    omega

/-- What the host gets of a download and puts again, over a line that loses at most two replies
in a row and one whose damages the receiver recovers from. -/
theorem file_copied {fs : List (List UInt8)} (hwhole : WholeButLast fs) {bn' : UInt8}
    {io io' : Io RxEvent} (hnew : transmissions io.trace = [])
    (hget : fgetFragments fs 1 io = (0, bn', io')) (hfew : FewLost 0 (transmissions io'.trace))
    (hqueued : QueuedWhole (transmissions io'.trace)) (hsmall : fs.flatten.length ≤ 2 ^ 31 - 128)
    {d : Delivery} {ds : List Delivery} (hd : d.Arriving true 1) (hds : ArrivingFrom 2 ds)
    (hblocks :
      (d :: ds).map Delivery.data = (ackedBlocks (transmissions io'.trace)).map Transmission.data)
    {args : FputArgs} (hsize : args.fileSize.toNat = fs.flatten.length) {course : UploadCourse}
    {t : UploadTarget} (ht : course.target = .ok t) (hnet : course.net.Connects t.tls)
    (hhead : course.headSent = true) (block : Mem) :
    ∃ run up,
      fputSession xmodemReceiveBlock args course block ⟨lineOf (d :: ds), [], [], []⟩ = some run ∧
      run.upload = some up ∧ up.request = some (uploadRequest t fs.flatten.length) ∧
      socketBytes run.io.trace =
        fs.flatten ++ List.replicate ((128 - fs.flatten.length % 128) % 128) 0x1a := by
  obtain ⟨ts,hts,hlog⟩ := fgetFragments_log hwhole hget
  rw [hnew,List.nil_append] at hts
  subst hts
  have hdata := ((delivered_iff hlog).2 ⟨hfew,hqueued⟩).data
  rw [List.flatMap_def,← hblocks,← List.flatMap_def] at hdata
  have hlen := congrArg List.length hdata
  rw [List.flatMap_cons,List.length_append,hd.size,arriving_length hds,List.length_append,
    List.length_replicate,xmodemSzBlock] at hlen
  have hroom : 128 * (ds.length + 1) < 2 ^ 31 := by
    have hmod := Nat.mod_lt (128 - fs.flatten.length % 128) (show 0 < 128 by decide)
    omega
  obtain ⟨run,up,hrun,hup,hreq,hbytes⟩ := session_stores args ht hnet hhead block hd hds hroom
  refine ⟨run,up,hrun,hup,?_,hbytes.trans hdata⟩
  rw [hreq,hsize,int32_small (by omega)]

def fetchReplies : Io RxEvent := peer [.timeout,.byte nak,.byte ack]

theorem fetch_gets : ∃ io', fgetFragments [[0x42,0x43]] 1 fetchReplies = (0, 2, io') ∧
    transmissions io'.trace = [⟨xmodemFrame 1 [0x42,0x43], 132, .timeout⟩,
      ⟨xmodemFrame 1 [0x42,0x43], 132, .byte nak⟩,⟨xmodemFrame 1 [0x42,0x43], 132, .byte ack⟩] :=
  ⟨_,triple_eq (by decide +kernel) (by decide +kernel),by decide +kernel⟩

theorem file_copied_short : ∃ run up,
    fputSession xmodemReceiveBlock ⟨[0x61], 2⟩ goodCourse Mem.zero
      ⟨lineOf [⟨pad [0x42,0x43], [.changed 5 0,.cut 0]⟩], [], [], []⟩ = some run ∧
    run.upload = some up ∧ up.request = some (uploadRequest ⟨"h", "/f", false⟩ 2) ∧
    socketBytes run.io.trace = [0x42,0x43] ++ List.replicate 126 0x1a := by
  obtain ⟨io',hget,hsent⟩ := fetch_gets
  have hfew : FewLost 0 (transmissions io'.trace) := by
    rw [hsent]
    simp [FewLost,Transmission.Lost,fputBlockSendRetry]
    decide
  have hqueued : QueuedWhole (transmissions io'.trace) := by
    rw [hsent]
    simp [QueuedWhole]
  have hblocks :
      [pad [0x42,0x43]] = (ackedBlocks (transmissions io'.trace)).map Transmission.data := by
    rw [hsent]
    decide +kernel
  exact @file_copied [[0x42,0x43]] (by simp [WholeButLast]) 2 fetchReplies io' rfl hget hfew hqueued
    (by decide) ⟨pad [0x42,0x43], [.changed 5 0,.cut 0]⟩ []
    ⟨by decide +kernel,by decide,by decide +kernel⟩ trivial hblocks ⟨[0x61], 2⟩ rfl goodCourse
    ⟨"h", "/f", false⟩ rfl (by decide) rfl Mem.zero

end SipfClient.Xmodem
