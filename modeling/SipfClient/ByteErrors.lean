import SipfClient.FputOrderLaws
import SipfClient.LineDamage
import SipfClient.FrameTransfer
set_option autoImplicit false

namespace SipfClient.Xmodem
open ByteMem HexText Http Command

section Changed

variable {m n : UInt8} {frame : List UInt8} {i : Nat} {b : UInt8}

/-- The number and its complement cannot both tell another number. -/
theorem changed_number (hf : IsFrame m frame) (h : IsFrame n (frame.set i b)) : n = m := by
  by_cases hi : i = 1
  · subst hi
    have hc := h.complement
    rw [getD_set_other frame (by omega),hf.complement] at hc
    exact (UInt8.not_inj.1 hc).symm
  · have hn := h.number
    rw [getD_set_other frame hi,hf.number] at hn
    exact hn.symm

theorem changed_not_frame (hf : IsFrame m frame) (h1 : 1 ≤ i) (h2 : i < 132)
    (hb : b ≠ frame.getD i 0) : ¬ IsFrame n (frame.set i b) := by
  intro h
  obtain rfl := changed_number hf h
  have hnext : n - 1 + 1 = n := sub_add_cancel n 1
  have hread : (Mem.zero.copy 0 (frame.set i b)).read 0 132 = frame.set i b :=
    read_copy_all Mem.zero (by rw [List.length_set,hf.length])
  have hframe : IsFrame (n - 1 + 1) ((Mem.zero.copy 0 (frame.set i b)).read 0 132) := by
    rwa [hnext,hread]
  rw [← hnext] at hf
  have hbad := blockValidation_changed hf h1 h2 hb hread
  have hgood := blockValidation_frame hframe
  rw [hgood] at hbad
  omega

end Changed

theorem Numbered.frame {frames : List (List UInt8)} (h : Numbered frames) {frame : List UInt8}
    (hmem : frame ∈ frames) : ∃ n, IsFrame n frame := by
  obtain ⟨i,hi,rfl⟩ := List.getElem_of_mem hmem
  exact ⟨_,h i hi⟩

theorem SessionInOrder.handed_accepted {rx : List RxEvent} {run : FputRun RxEvent}
    (h : SessionInOrder rx run) {data : List UInt8} (hd : data ∈ Xmodem.handed run.io.trace) :
    ∃ frame ∈ acceptedFrames run.io.trace, data = frameData frame := by
  by_cases hcalled : CallbackCalled run
  · rw [h.handed hcalled] at hd
    obtain ⟨frame,hmem,rfl⟩ := List.mem_map.1 hd
    exact ⟨frame,hmem,rfl⟩
  · rw [h.unhanded hcalled] at hd
    exact absurd hd (by simp)

/-- The validation against the predecessor's number is negative, the reception asks for the
block again, and in no session is the changed frame among those whose data are handed on. -/
theorem byte_error_caught (bn : UInt8) {data : List UInt8} (hd : data.length = 128) {i : Nat}
    (h1 : 1 ≤ i) (h2 : i < 132) {b : UInt8} (hb : b ≠ (sendFrame bn data).getD i 0) :
    (∀ block : Mem, block.read 0 132 = (sendFrame bn data).set i b →
      xmodemBlockValidation block (bn - 1) < 0) ∧
    (∀ (block : Mem) (rx : List RxEvent) (puts : List Bool) (sends : List SendRet)
      (trace : List IoEvent), (xmodemReceiveBlock (bn - 1) block
        ⟨bytes ((sendFrame bn data).set i b) ++ rx, puts, sends, trace⟩).ret = .retry) ∧
    ∀ (args : FputArgs) (course : UploadCourse) (block : Mem) (rx : List RxEvent) (puts : List Bool)
      (sends : List SendRet), ∃ run,
        fputSession xmodemReceiveBlock args course block ⟨rx, puts, sends, []⟩ = some run ∧
        (sendFrame bn data).set i b ∉ acceptedFrames run.io.trace ∧
        ∀ d ∈ handed run.io.trace, ∃ frame ∈ acceptedFrames run.io.trace, d = frameData frame := by
  have hf : IsFrame bn (sendFrame bn data) := isFrame_sendFrame bn ⟨data,hd.le⟩
  have hprev : IsFrame (bn - 1 + 1) (sendFrame bn data) := by rwa [sub_add_cancel]
  refine ⟨?_,?_,?_⟩
  · intro block hblock
    rw [blockValidation_changed hprev h1 h2 hb hblock]
    decide
  · intro block rx puts sends trace
    rw [receive_changed hprev h1 h2 hb]
  · intro args course block rx puts sends
    obtain ⟨run,hrun,horder⟩ := fputSession_inOrder args course block rx puts sends
    refine ⟨run,hrun,?_,fun d hd => horder.handed_accepted hd⟩
    intro hmem
    obtain ⟨n,hn⟩ := horder.numbered.frame hmem
    exact changed_not_frame hf h1 h2 hb hn

theorem byte_error_caught_sum :
    (∀ block : Mem, block.read 0 132 = (sendFrame 0 blockA).set 131 0 →
      xmodemBlockValidation block (0 - 1) < 0) ∧
    (∀ (block : Mem) (rx : List RxEvent) (puts : List Bool) (sends : List SendRet)
      (trace : List IoEvent), (xmodemReceiveBlock (0 - 1) block
        ⟨bytes ((sendFrame 0 blockA).set 131 0) ++ rx, puts, sends, trace⟩).ret = .retry) ∧
    ∀ (args : FputArgs) (course : UploadCourse) (block : Mem) (rx : List RxEvent) (puts : List Bool)
      (sends : List SendRet), ∃ run,
        fputSession xmodemReceiveBlock args course block ⟨rx, puts, sends, []⟩ = some run ∧
        (sendFrame 0 blockA).set 131 0 ∉ acceptedFrames run.io.trace ∧
        ∀ d ∈ handed run.io.trace, ∃ frame ∈ acceptedFrames run.io.trace, d = frameData frame :=
  byte_error_caught 0 (by decide +kernel) (by decide) (by decide) (by decide +kernel)

end SipfClient.Xmodem
