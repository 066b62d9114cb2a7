import SipfClient.TxBounds
import SipfClient.LineLimits
set_option autoImplicit false

namespace SipfClient
open ByteMem HexText Command Object Http Xmodem

/-- No byte is typed behind a line that has grown to 4096 bytes. -/
def NeverOverrun : Option Line → List UInt8 → Prop
  | _, [] => True
  | o, b :: bs => (∀ l ∈ o, 4096 ≤ l.held.length → b = 0x08 ∨ EndsLine b) ∧
      NeverOverrun (lineNext o b) bs

/-- The command the byte leads to, if it ends a line that names one. -/
def endedCall (d : Device) (b : UInt8) : Option CmdCall :=
  if d.parser.state = .bufferingAscii ∧ EndsLine b then
    cmdAsciiParse d.parser.inBuff (UInt16.ofInt d.parser.inBuffIdx)
  else none

def AllAnswerable (d : Device) : List (UInt8 × World) → Prop
  | [] => True
  | (b, w) :: input => (∀ c ∈ endedCall d b, Answerable w d c) ∧
      ∀ s, deviceStep d b w = .ok s → AllAnswerable s.device input

/-- No step of the run faults, and every CR or LF that ends a buffered line makes
`CmdParse` return one response: not empty, no longer than `out_buff`, and with OK or NG
as its last line. -/
def AllAnswered (d : Device) : List (UInt8 × World) → Prop
  | [] => True
  | (b, w) :: input => ∃ s, deviceStep d b w = .ok s ∧
      (d.parser.state = .bufferingAscii → EndsLine b → ∃ text, s.response = some text ∧ Answer text) ∧
      AllAnswered s.device input

theorem searchCmd_separated {m : Mem} {n : UInt16} {cs : List CmdAsciiCmd} {c : CmdCall}
    (h : searchCmd m n cs = some c) : c.inLen = 0 ∨ c.inBuff 0 = 0x20 := by
  rw [searchCmd_eq_find] at h
  obtain ⟨cmd,hfind,rfl⟩ := Option.map_eq_some_iff.1 h
  have hmatch : Matches m n cmd := by simpa using List.find?_some hfind
  rcases hmatch.2 with hlen | hspace
  · left
    have hn : n = UInt16.ofNat cmd.cmdName.length := by rw [← hlen,UInt16.ofNat_toNat]
    simp [callOf,hn]
  · right
    simpa [callOf] using hspace

theorem deviceStep_quiet {d : Device} {b : UInt8} {p : CmdParser} {e : CmdEvent}
    (h : cmdParse d.parser b = .ok (p, e)) (he : e.line = none) (w : World) :
    ∃ s, deviceStep d b w = .ok s ∧ s.device.parser = p := by
  simp only [deviceStep,h,inBounds]
  cases e with
  | none => exact ⟨_,rfl,rfl⟩
  | bufferFull => exact ⟨_,rfl,rfl⟩
  | parsed n c => cases he

theorem deviceStep_line {d : Device} {b : UInt8} (hst : d.parser.state = .bufferingAscii)
    (he : EndsLine b) {w : World} (h : ∀ c ∈ endedCall d b, Answerable w d c) :
    ∃ s, deviceStep d b w = .ok s ∧ s.device.parser.state = .wait ∧
      ∃ text, s.response = some text ∧ Answer text := by
  have hparse : cmdParse d.parser b = .ok ({ d.parser with state := .wait },
      .parsed (UInt16.ofInt d.parser.inBuffIdx) (endedCall d b)) := by
    rw [cmdParse,hst,stateBufferingAscii,if_pos he,endedCall,if_pos ⟨hst,he⟩]
  have hsep : ∀ c ∈ endedCall d b, c.inLen = 0 ∨ c.inBuff 0 = 0x20 := by
    intro c hc
    rw [endedCall,if_pos ⟨hst,he⟩] at hc
    exact searchCmd_separated hc
  simp only [deviceStep,hparse,inBounds]
  cases hcall : endedCall d b with
  | none => exact ⟨_,rfl,rfl,_,rfl,answer_ng⟩
  | some c =>
    obtain ⟨r,text,hr,hret,hanswer⟩ := callHandler_answers
      (d := { d with parser := { d.parser with state := .wait } }) (h c hcall) (hsep c hcall)
    simp only [bind,Except.bind,hr]
    refine ⟨_,rfl,rfl,text,?_,hanswer⟩
    rw [hret]
    exact if_pos hanswer.pos

theorem answered_run {d : Device} {o : Option Line} {input : List (UInt8 × World)}
    (h : Tracks d.parser o) (hheld : ∀ l ∈ o, l.held.length ≤ 4096)
    (hfull : NeverOverrun o (input.map Prod.fst)) (hlines : AllAnswerable d input) :
    AllAnswered d input := by
  induction input generalizing d o with
  | nil => exact trivial
  | cons x input ih =>
    obtain ⟨b,w⟩ := x
    obtain ⟨hnow,hrest⟩ := hfull
    obtain ⟨hcall,hnext⟩ := hlines
    obtain ⟨p',e,hparse,htracks,hline⟩ := cmdParse_tracks h b (by
      rintro l rfl he hb
      by_contra hlt
      exact (hnow l rfl (by omega)).elim hb he)
    have hheld' := lineNext_held hheld hnow
    by_cases hend : d.parser.state = .bufferingAscii ∧ EndsLine b
    · obtain ⟨s,hs,hwait,hanswer⟩ := deviceStep_line hend.1 hend.2 hcall
      have hidle : lineNext o b = none := by
        cases o with
        | none => exact absurd (hend.1.symm.trans (show d.parser.state = .wait from h)) (by decide)
        | some l => simp [lineNext,Line.next,hend.2]
      rw [hidle] at hrest
      exact ⟨s,hs,fun _ _ => hanswer,ih (o := none) hwait (by simp) hrest (hnext s hs)⟩
    · have hquiet : e.line = none := by
        rw [hline]
        split_ifs with he
        · cases o with
          | none => rfl
          | some l =>
            have hp : d.parser = ⟨.bufferingAscii, Mem.ofList l.bytes, l.held.length⟩ := h
            exact absurd ⟨by rw [hp],he⟩ hend
        · rfl
      obtain ⟨s,hs,hp⟩ := deviceStep_quiet hparse hquiet w
      exact ⟨s,hs,fun hst he => absurd ⟨hst,he⟩ hend,ih (hp ▸ htracks) hheld' hrest (hnext s hs)⟩

/-- In every run from boot in which nothing is typed behind a line of 4096 bytes and every line
is one its command can answer, every line is answered. -/
theorem every_line_answered (r : Registers) {input : List (UInt8 × World)}
    (hfull : NeverOverrun none (input.map Prod.fst)) (hlines : AllAnswerable (Device.init r) input) :
    AllAnswered (Device.init r) input :=
  @answered_run (Device.init r) none input rfl (by simp) hfull hlines

theorem allAnswerable_cons {d : Device} {b : UInt8} {w : World} {s : Step} {input : List (UInt8 × World)}
    (hs : deviceStep d b w = .ok s) (hc : ∀ c ∈ endedCall d b, Answerable w d c)
    (h : AllAnswerable s.device input) : AllAnswerable d ((b, w) :: input) :=
  ⟨hc,fun s' hs' => by rw [hs] at hs'; cases hs'; exact h⟩

/-- An object and a file, in a world without network and with room for the first NAK. -/
theorem every_line_answered_sent : AllAnswered (Device.init (.boot ⟨0, 0, 0, 0⟩))
    (typed .quiet (ascii "$$TX 01 04 41\r$$FPUT A 00000080\r")) := by
  refine every_line_answered _ ?_ ?_
  · simp [typed,ascii,NeverOverrun,lineNext,Line.next,EndsLine,Line.typed]
  · iterate 13
      refine allAnswerable_cons rfl (fun c hc => ?_) ?_
      · cases hc
    refine allAnswerable_cons rfl (fun c hc => ?_) ?_
    · cases hc
      exact ⟨by decide,fun _ h => absurd h.long (by decide)⟩
    iterate 17
      refine allAnswerable_cons rfl (fun c hc => ?_) ?_
      · cases hc
    refine ⟨fun c hc => ?_,fun s _ => trivial⟩
    cases hc
    exact ⟨by decide,.inr rfl⟩

theorem parsed_ends {p p' : CmdParser} {b : UInt8} {e : CmdEvent} (h : cmdParse p b = .ok (p', e))
    (he : e.line ≠ none) : p.state = .bufferingAscii ∧ EndsLine b := by
  cases hst : p.state with
  | wait =>
    simp only [cmdParse,hst,stateWait] at h
    split_ifs at h <;> cases h <;> exact absurd rfl he
  | bufferingAscii =>
    refine ⟨rfl,?_⟩
    by_contra hb
    simp only [cmdParse,hst,stateBufferingAscii] at h
    rw [if_neg hb] at h
    by_cases hbs : b = 0x08
    · rw [if_pos hbs] at h
      cases h
      exact he rfl
    · rw [if_neg hbs] at h
      obtain ⟨m,-,h⟩ := bind_ok h
      split_ifs at h <;> cases h <;> exact he rfl

theorem answered_response {d : Device} {input : List (UInt8 × World)} (h : AllAnswered d input) :
    ∀ s ∈ deviceRun d input, s.event.line ≠ none → s.response ≠ none := by
  induction input generalizing d with
  | nil => simp [deviceRun]
  | cons x input ih =>
    obtain ⟨b,w⟩ := x
    obtain ⟨s,hs,hanswer,hrest⟩ := h
    intro s' hs' hline
    rw [deviceRun,hs] at hs'
    rcases List.mem_cons.1 hs' with rfl | hm
    · obtain ⟨⟨p,e⟩,hparse,hstep⟩ := bind_ok hs
      have hevent : s'.event = e := by
        cases e with
        | none => cases hstep; rfl
        | bufferFull => cases hstep; rfl
        | parsed n c =>
          cases c with
          | none => cases hstep; rfl
          | some c =>
            obtain ⟨r,-,hstep⟩ := bind_ok hstep
            cases hstep
            rfl
      rw [hevent] at hline
      obtain ⟨hst,he⟩ := parsed_ends (inBounds_ok hparse) hline
      obtain ⟨text,htext,-⟩ := hanswer hst he
      rw [htext]
      exact Option.some_ne_none text
    · exact ih hrest s' hm hline

def World.congested : World := { World.quiet with puts := [false] }

def fputLine : List UInt8 := ascii "$$FPUT A 00000080\r"

/-- `$$FPUT` ends without a response if its first NAK cannot be queued. -/
theorem fput_unanswered :
    ¬ AllAnswered (Device.init (.boot ⟨0, 0, 0, 0⟩)) (typed .congested fputLine) := by
  intro h
  have hrun : ((deviceRun (Device.init (.boot ⟨0, 0, 0, 0⟩)) (typed .congested fputLine)).map
      fun s => (s.event.line.isSome, s.response.isSome))[17]? = some (true, false) := by decide +kernel
  simp only [List.getElem?_map,Option.map_eq_some_iff,Prod.mk.injEq] at hrun
  obtain ⟨s,hs,hline,hresponse⟩ := hrun
  refine answered_response h s (List.mem_of_getElem? hs) ?_ ?_
  · intro hn
    rw [hn] at hline
    cases hline
  · simpa using hresponse

end SipfClient
