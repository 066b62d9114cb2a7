import SipfClient.FotaRun
import SipfClient.UrlLeftovers
import SipfClient.HandlerLaws
set_option autoImplicit false

namespace SipfClient.Fota
open ByteMem HexText Http File Command Semaphores Runs

inductive Course : List FotaAction → Prop
  | refused : Course [.ret (-1)]
  | initFails (ret : Int) (hret : ret ≠ 0) : Course [.init ret,.ret ret]
  | startFails (file : List UInt8) (t : FotaTarget) (ret : Int) (hret : ret ≠ 0) :
      Course [.init 0,.puts .downloadFile,.puts (.fileName file),.puts .newLine,.start t ret,.ret ret]
  | waits (file : List UInt8) (t : FotaTarget) :
      Course [.init 0,.puts .downloadFile,.puts (.fileName file),.puts .newLine,.start t 0,
        .puts .start,.take,.ret (-1)]

theorem fotaHttpRun_course {cfg : FileConfig} {st st' : FileState} {c : FotaCall}
    {todo : List FotaAction} (h : fotaHttpRun cfg st c = .ok (st', todo)) : Course todo := by
  simp only [fotaHttpRun] at h
  generalize sipfFileRequestURL cfg .download c.fileNameSuffix st.imageUrl imageUrlLen st.httpRes
    c.net = r at h
  split at h
  · cases h
    exact .refused
  · obtain ⟨p,-,h⟩ := bind_ok h
    split at h
    · cases h
      exact .refused
    · split at h
      · obtain ⟨protocol,-,h⟩ := bind_ok h
        split at h
        · cases h
          exact .refused
        · split at h
          · rename_i hinit
            cases h
            exact .initFails c.init hinit
          · obtain ⟨host,-,h⟩ := bind_ok h
            obtain ⟨path,-,h⟩ := bind_ok h
            cases h
            unfold startActions
            split
            · rename_i hstart
              exact .startFails _ _ _ hstart
            · rename_i hstart
              rw [not_not.1 hstart]
              exact .waits _ _
      · cases h
        exact .refused

def actOp : FotaAction → List SemOp
  | .give => [.give]
  | .take => [.take]
  | _ => []

def opsOf : FotaRecord → List SemOp
  | .main a => actOp a
  | .handler a => actOp a
  | _ => []

def startsDownload : FotaAction → Bool
  | .start _ ret => ret = 0
  | _ => false

def started : FotaRecord → Bool
  | .main a => startsDownload a
  | _ => false

def starts (log : List FotaRecord) : Nat := log.countP started

def fails (log : List FotaRecord) : Nat := log.countP fun r => r = .handler (.puts .failed)

def errors (log : List FotaRecord) : Nat := log.countP fun r => r = .event .error

def ops (log : List FotaRecord) : List SemOp := log.flatMap opsOf

def startsIn (todo : List FotaAction) : Nat := todo.countP startsDownload

def failsIn (todo : List FotaAction) : Nat := todo.countP fun a => a = .puts .failed

def opsIn (todo : List FotaAction) : List SemOp := todo.flatMap actOp

section Counting

variable (log : List FotaRecord) (r : FotaRecord) (a : FotaAction) (todo : List FotaAction)

@[simp] theorem starts_snoc : starts (log ++ [r]) = starts log + if started r then 1 else 0 := by
  simp [starts,List.countP_append,List.countP_singleton]

@[simp] theorem fails_snoc :
    fails (log ++ [r]) = fails log + if r = .handler (.puts .failed) then 1 else 0 := by
  simp [fails,List.countP_append,List.countP_singleton]

@[simp] theorem errors_snoc :
    errors (log ++ [r]) = errors log + if r = .event .error then 1 else 0 := by
  simp [errors,List.countP_append,List.countP_singleton]

@[simp] theorem ops_snoc : ops (log ++ [r]) = ops log ++ opsOf r := by
  simp [ops]

@[simp] theorem startsIn_cons :
    startsIn (a :: todo) = startsIn todo + if startsDownload a then 1 else 0 :=
  List.countP_cons

@[simp] theorem failsIn_cons :
    failsIn (a :: todo) = failsIn todo + if a = .puts .failed then 1 else 0 := by
  simp [failsIn,List.countP_cons]

@[simp] theorem opsIn_cons : opsIn (a :: todo) = actOp a ++ opsIn todo := List.flatMap_cons

end Counting

/-- What is left of a call: a download that is still to be started is still to be waited for. -/
structure MainRest (todo : List FotaAction) : Prop where
  waits : ∀ rest, rest <:+ todo → startsIn rest ≤ takes (opsIn rest)
  once : takes (opsIn todo) ≤ 1
  quiet : ∀ a ∈ todo, a ≠ .give ∧ a ≠ .reboot ∧ ∀ ret, a = .ret ret → ret ≠ 0

/-- What is left of an event: a message of a failure is followed by its `give`. -/
structure HandlerRest (todo : List FotaAction) : Prop where
  told : ∀ rest, rest <:+ todo → failsIn rest ≤ gives (opsIn rest)
  quiet : ∀ a ∈ todo, a ≠ .take ∧ startsDownload a = false

theorem MainRest.tail {a : FotaAction} {todo : List FotaAction} (h : MainRest (a :: todo)) :
    MainRest todo := by
  refine ⟨fun rest hrest => h.waits rest (hrest.trans (List.suffix_cons a todo)),?_,
    fun b hb => h.quiet b (List.mem_cons_of_mem a hb)⟩
  have honce := h.once
  rw [opsIn_cons,takes_append] at honce
  omega

theorem HandlerRest.tail {a : FotaAction} {todo : List FotaAction} (h : HandlerRest (a :: todo)) :
    HandlerRest todo :=
  ⟨fun rest hrest => h.told rest (hrest.trans (List.suffix_cons a todo)),
    fun b hb => h.quiet b (List.mem_cons_of_mem a hb)⟩

theorem suffixes {α : Type} {P : List α → Prop} {l : List α} (h : ∀ rest ∈ l.tails, P rest) :
    ∀ rest, rest <:+ l → P rest :=
  fun rest hrest => h rest ((List.mem_tails rest l).2 hrest)

theorem course_rest {todo : List FotaAction} (h : Course todo) : MainRest todo := by
  cases h with
  | refused =>
    refine ⟨suffixes ?_,by simp [opsIn,actOp,takes],by simp⟩
    simp [startsIn,opsIn,actOp,startsDownload,takes]
  | initFails ret hret =>
    refine ⟨suffixes ?_,by simp [opsIn,actOp,takes],by simpa using hret⟩
    simp [startsIn,opsIn,actOp,startsDownload,takes]
  | startFails file t ret hret =>
    refine ⟨suffixes ?_,by simp [opsIn,actOp,takes],by simpa using hret⟩
    simp [startsIn,opsIn,actOp,startsDownload,takes,hret]
  | waits file t =>
    refine ⟨suffixes ?_,by simp [opsIn,actOp,takes],by simp⟩
    simp [startsIn,opsIn,actOp,startsDownload,takes]

theorem event_rest (e : FotaDownloadEvt) : HandlerRest (fotaDlEventHandler e) := by
  cases e <;>
  · refine ⟨suffixes ?_,by simp [fotaDlEventHandler,startsDownload]⟩
    simp [fotaDlEventHandler,failsIn,opsIn,actOp,gives]

theorem course_balance {todo : List FotaAction} (h : Course todo) :
    startsIn todo = takes (opsIn todo) := by
  cases h <;> simp_all [startsIn,opsIn,actOp,startsDownload,takes]

theorem event_balance (e : FotaDownloadEvt) :
    gives (opsIn (fotaDlEventHandler e)) = (if e = .error then 1 else 0) ∧
      failsIn (fotaDlEventHandler e) = (if e = .error then 1 else 0) ∧
      (.reboot ∈ fotaDlEventHandler e → e = .finished) := by
  cases e <;> simp [fotaDlEventHandler,opsIn,actOp,gives,failsIn]

inductive Transition (s : FotaState) : FotaState → Prop
  | called (c : FotaCall) (files : FileState) (todo : List FotaAction) (idle : s.main = [])
      (course : Course todo) :
      Transition s ({ s with files := files, main := todo }.record (.called c.fileNameSuffix))
  | event (e : FotaDownloadEvt) (idle : s.handler = []) :
      Transition s ({ s with handler := fotaDlEventHandler e }.record (.event e))
  | main (a : FotaAction) (todo : List FotaAction) (s' : FotaState) (next : s.main = a :: todo)
      (acts : { s with main := todo }.perform a = some s') : Transition s (s'.record (.main a))
  | handler (a : FotaAction) (todo : List FotaAction) (s' : FotaState) (next : s.handler = a :: todo)
      (acts : { s with handler := todo }.perform a = some s') :
      Transition s (s'.record (.handler a))

theorem step_transition {cfg : FileConfig} {s s' : FotaState} {m : FotaMove}
    (h : s.step cfg m = some s') : Transition s s' := by
  unfold FotaState.step at h
  split at h
  · cases h
  · cases m with
    | call c =>
      simp only at h
      split at h
      · rename_i files todo hidle hrun
        cases h
        exact .called c files todo hidle (fotaHttpRun_course hrun)
      · cases h
    | event e =>
      simp only at h
      split at h
      · rename_i hidle
        split at h
        · cases h
          exact .event e hidle
        · cases h
      · cases h
    | main =>
      simp only at h
      split at h
      · cases h
      · rename_i a todo hnext
        obtain ⟨t,hacts,rfl⟩ := Option.map_eq_some_iff.1 h
        exact .main a todo t hnext hacts
    | handler =>
      simp only at h
      split at h
      · cases h
      · rename_i a todo hnext
        obtain ⟨t,hacts,rfl⟩ := Option.map_eq_some_iff.1 h
        exact .handler a todo t hnext hacts

structure Performed (s : FotaState) (a : FotaAction) (s' : FotaState) : Prop where
  main : s'.main = s.main
  handler : s'.handler = s.handler
  log : s'.log = s.log
  rebooted : s'.rebooted = true → s.rebooted = true ∨ a = .reboot
  sem : ∀ os, Semaphores.Counts os s.semDownloadFailed → Counts (os ++ actOp a) s'.semDownloadFailed
  backed : ∀ os, Semaphores.Counts os s.semDownloadFailed → a = .take → os.getLast? = some .give

theorem perform_performed {s s' : FotaState} {a : FotaAction} (h : s.perform a = some s') :
    Performed s a s' := by
  cases a with
  | give =>
    cases h
    exact ⟨rfl,rfl,rfl,.inl,fun os hc => hc.give,by simp⟩
  | take =>
    obtain ⟨n,hn,rfl⟩ := Option.map_eq_some_iff.1 h
    exact ⟨rfl,rfl,rfl,.inl,fun os hc => (hc.take hn).2,fun os hc _ => (hc.take hn).1⟩
  | reboot =>
    cases h
    exact ⟨rfl,rfl,rfl,fun _ => .inr rfl,fun os hc => by simpa [actOp] using hc,by simp⟩
  | _ =>
    cases h
    exact ⟨rfl,rfl,rfl,.inl,fun os hc => by simpa [actOp] using hc,by simp⟩

/-- A wait ends behind a `give`; and when a download is started all those before it have
been waited for. -/
def Explained (before : List FotaRecord) : FotaRecord → Prop
  | .main a =>
    (a = .take → (ops before).getLast? = some .give) ∧
    (startsDownload a = true →
      starts before = takes (ops before) ∧ gives (ops before) ≤ errors before ∧ Backed (ops before))
  | _ => True

structure Inv (s : FotaState) : Prop where
  sem : Semaphores.Counts (ops s.log) s.semDownloadFailed
  main : MainRest s.main
  handler : HandlerRest s.handler
  waited : starts s.log + startsIn s.main = takes (ops s.log) + takes (opsIn s.main)
  given : errors s.log = gives (ops s.log) + gives (opsIn s.handler)
  told : errors s.log = fails s.log + failsIn s.handler
  reboot : .reboot ∈ s.handler ∨ s.rebooted = true → .event .finished ∈ s.log
  acts : ∀ a, .main a ∈ s.log → a ≠ .give ∧ ∀ ret, a = .ret ret → ret ≠ 0
  log : Justified Explained s.log

theorem inv_boot : Inv .boot where
  sem := counts_nil
  main := ⟨suffixes (by simp [startsIn,FotaState.boot]),by simp [FotaState.boot,opsIn,takes],
    by simp [FotaState.boot]⟩
  handler := ⟨suffixes (by simp [failsIn,FotaState.boot]),by simp [FotaState.boot]⟩
  waited := rfl
  given := rfl
  told := rfl
  reboot := by simp [FotaState.boot]
  acts := by simp [FotaState.boot]
  log := justified_nil _

section Steps

variable {s : FotaState}

theorem inv_called (hi : Inv s) (c : FotaCall) (files : FileState) {todo : List FotaAction}
    (hidle : s.main = []) (hc : Course todo) :
    Inv ({ s with files := files, main := todo }.record (.called c.fileNameSuffix)) where
  sem := by simpa [FotaState.record,opsOf] using hi.sem
  main := course_rest hc
  handler := hi.handler
  waited := by
    have hold := hi.waited
    rw [hidle] at hold
    have hbal := course_balance hc
    simp only [FotaState.record,starts_snoc,ops_snoc,opsOf,started,List.append_nil,hbal]
    simpa [startsIn,opsIn,takes] using hold
  given := by simpa [FotaState.record,opsOf] using hi.given
  told := by simpa [FotaState.record] using hi.told
  reboot := fun h => List.mem_append_left _ (hi.reboot h)
  acts := by
    intro a ha
    exact hi.acts a (by simpa [FotaState.record] using ha)
  log := justified_snoc hi.log trivial

theorem inv_event (hi : Inv s) (e : FotaDownloadEvt) (hidle : s.handler = []) :
    Inv ({ s with handler := fotaDlEventHandler e }.record (.event e)) where
  sem := by simpa [FotaState.record,opsOf] using hi.sem
  main := hi.main
  handler := event_rest e
  waited := by simpa [FotaState.record,opsOf,started] using hi.waited
  given := by
    have hold := hi.given
    rw [hidle] at hold
    simp only [FotaState.record,errors_snoc,ops_snoc,opsOf,List.append_nil,(event_balance e).1,hold]
    simp [opsIn,gives]
  told := by
    have hold := hi.told
    rw [hidle] at hold
    simp only [FotaState.record,errors_snoc,fails_snoc,(event_balance e).2.1,hold]
    simp [failsIn]
  reboot := by
    rintro (h | h)
    · rw [(event_balance e).2.2 h]
      simp [FotaState.record]
    · exact List.mem_append_left _ (hi.reboot (.inr h))
  acts := by
    intro a ha
    exact hi.acts a (by simpa [FotaState.record] using ha)
  log := justified_snoc hi.log trivial

theorem inv_main {s' : FotaState} (hi : Inv s) {a : FotaAction} {todo : List FotaAction}
    (hnext : s.main = a :: todo) (hp : Performed { s with main := todo } a s') :
    Inv (s'.record (.main a)) := by
  have hrest := hi.main
  have hbal := hi.waited
  rw [hnext] at hrest hbal
  obtain ⟨hgive,hreboot,hret⟩ := hrest.quiet a List.mem_cons_self
  have hnogive : gives (actOp a) = 0 := by cases a <;> simp_all [actOp,gives]
  have hlog : (s'.record (.main a)).log = s.log ++ [.main a] := by
    rw [FotaState.record,hp.log]
  refine ⟨?_,?_,?_,?_,?_,?_,?_,?_,?_⟩
  · rw [hlog,ops_snoc]
    exact hp.sem _ hi.sem
  · exact hp.main ▸ hrest.tail
  · exact hp.handler ▸ hi.handler
  · change starts (s'.record (.main a)).log + startsIn s'.main = _ + takes (opsIn s'.main)
    have hact : started (.main a) = startsDownload a := rfl
    rw [hlog,hp.main,starts_snoc,ops_snoc,hact]
    simp only [opsOf,startsIn_cons,opsIn_cons,takes_append] at hbal ⊢
    omega
  · change _ = _ + gives (opsIn s'.handler)
    rw [hlog,hp.handler,errors_snoc,ops_snoc,gives_append]
    simpa [opsOf,hnogive] using hi.given
  · change _ = _ + failsIn s'.handler
    rw [hlog,hp.handler,errors_snoc,fails_snoc]
    simpa using hi.told
  · rw [hlog]
    rintro (h | h)
    · have hmem : .reboot ∈ s'.handler := h
      rw [hp.handler] at hmem
      exact List.mem_append_left _ (hi.reboot (.inl hmem))
    · rcases hp.rebooted h with h | h
      · exact List.mem_append_left _ (hi.reboot (.inr h))
      · exact absurd h hreboot
  · rw [hlog]
    intro b hmem
    rcases List.mem_append.1 hmem with hmem | hmem
    · exact hi.acts b hmem
    · obtain rfl : b = a := by simpa using hmem
      exact ⟨hgive,hret⟩
  · rw [hlog]
    refine justified_snoc hi.log ⟨fun ht => hp.backed _ hi.sem ht,fun hstart => ?_⟩
    have hwaits := hrest.waits _ List.suffix_rfl
    have honce := hrest.once
    have herr := hi.given
    rw [startsIn_cons,if_pos hstart] at hwaits hbal
    exact ⟨by omega,by omega,hi.sem.backed⟩

theorem inv_handler {s' : FotaState} (hi : Inv s) {a : FotaAction} {todo : List FotaAction}
    (hnext : s.handler = a :: todo) (hp : Performed { s with handler := todo } a s') :
    Inv (s'.record (.handler a)) := by
  have hrest := hi.handler
  have herr := hi.given
  have hfail := hi.told
  rw [hnext] at hrest herr hfail
  obtain ⟨htake,hstart⟩ := hrest.quiet a List.mem_cons_self
  have hnotake : takes (actOp a) = 0 := by cases a <;> simp_all [actOp,takes]
  have hlog : (s'.record (.handler a)).log = s.log ++ [.handler a] := by
    rw [FotaState.record,hp.log]
  refine ⟨?_,?_,?_,?_,?_,?_,?_,?_,?_⟩
  · rw [hlog,ops_snoc]
    exact hp.sem _ hi.sem
  · exact hp.main ▸ hi.main
  · exact hp.handler ▸ hrest.tail
  · change starts (s'.record (.handler a)).log + startsIn s'.main = _ + takes (opsIn s'.main)
    rw [hlog,hp.main,starts_snoc,ops_snoc,takes_append]
    simpa [started,opsOf,hnotake] using hi.waited
  · change _ = _ + gives (opsIn s'.handler)
    rw [hlog,hp.handler,errors_snoc,ops_snoc,gives_append]
    simp only [opsOf,opsIn_cons,gives_append,reduceCtorEq,if_false] at herr ⊢
    omega
  · change _ = _ + failsIn s'.handler
    rw [hlog,hp.handler,errors_snoc,fails_snoc]
    simp only [failsIn_cons,reduceCtorEq,if_false,FotaRecord.handler.injEq] at hfail ⊢
    omega
  · rw [hlog]
    have hfin : .reboot ∈ s.handler → FotaRecord.event .finished ∈ s.log :=
      fun h => hi.reboot (.inl h)
    rintro (h | h)
    · have hmem : .reboot ∈ s'.handler := h
      rw [hp.handler] at hmem
      exact List.mem_append_left _ (hfin (by rw [hnext]; exact List.mem_cons_of_mem a hmem))
    · rcases hp.rebooted h with h | rfl
      · exact List.mem_append_left _ (hi.reboot (.inr h))
      · exact List.mem_append_left _ (hfin (by rw [hnext]; exact List.mem_cons_self))
  · rw [hlog]
    intro b hmem
    exact hi.acts b (by simpa using hmem)
  · rw [hlog]
    exact justified_snoc hi.log trivial

theorem inv_step {s' : FotaState} (hi : Inv s) (h : Transition s s') : Inv s' := by
  cases h with
  | called c files todo idle course => exact inv_called hi c files idle course
  | event e idle => exact inv_event hi e idle
  | main a todo t next acts => exact inv_main hi next (perform_performed acts)
  | handler a todo t next acts => exact inv_handler hi next (perform_performed acts)

end Steps

theorem inv_run {cfg : FileConfig} {moves : List FotaMove} {s : FotaState}
    (h : run (FotaState.step cfg) .boot moves = some s) : Inv s :=
  run_inv Inv (fun _ _ _ hi hstep => inv_step hi (step_transition hstep)) inv_boot h

def NeverOk (ret : Int) : Prop :=
  ∀ size inBuff inLen isUnlocked text file,
    cmdAsciiCmdUpdate size inBuff inLen isUnlocked (fun _ => ret) = .ok (text, file) →
      text ≠ cmdCreateResOk

theorem neverOk_of_ne {ret : Int} (h : ret ≠ 0) : NeverOk ret := by
  intro size inBuff inLen isUnlocked text file hrun
  have hng : cmdCreateResNg ≠ cmdCreateResOk := by decide
  have hill : cmdCreateResIllParam ≠ cmdCreateResOk := by decide
  have hanswer : ∀ f, fotaAnswer (fun _ => ret) f = (cmdCreateResNg, some f) := fun f => by
    simp [fotaAnswer,h]
  simp only [cmdAsciiCmdUpdate,hanswer] at hrun
  split_ifs at hrun
  any_goals
    cases hrun
    assumption
  obtain ⟨m,-,hrun⟩ := bind_ok hrun
  cases hrun
  exact hng

/-- No call is answered with OK, a download is given up only with a message of a failure for
it, and the device reboots only after an event that says that a download has finished. -/
def Reported (s : FotaState) : Prop :=
  (∀ ret, .main (.ret ret) ∈ s.log → NeverOk ret) ∧
  starts s.log ≤ fails s.log + 1 ∧ (s.main = [] → starts s.log ≤ fails s.log) ∧
  (s.rebooted = true → .event .finished ∈ s.log)

theorem downloads_reported {cfg : FileConfig} {moves : List FotaMove} {s : FotaState}
    (h : run (FotaState.step cfg) .boot moves = some s) : Reported s := by
  have hi := inv_run h
  have hgives := hi.sem.backed.takes_le
  have hwaited := hi.waited
  have honce := hi.main.once
  have hgiven := hi.given
  have htold := hi.told
  have hhandler := hi.handler.told _ List.suffix_rfl
  refine ⟨fun ret hret => neverOk_of_ne ((hi.acts _ hret).2 ret rfl),by omega,fun hidle => ?_,
    fun hr => hi.reboot (.inr hr)⟩
  rw [hidle] at hwaited
  have hnil : takes (opsIn []) = 0 := rfl
  omega

theorem https_clean : ∀ c ∈ ascii "https", c ≠ 0x3a ∧ c ≠ 0 ∧ c ≠ 0x0d := by decide +kernel

def updateUrl : Url :=
  { shortUrl with protocol := ascii "https", protocolClean := https_clean }

def updateResponse : HttpResponse :=
  ⟨"OK", 200, (updateUrl.body .crlf).length, (updateUrl.body .crlf).length, 0⟩

def updateCall : FotaCall :=
  ⟨ascii "app_update.bin",
    ⟨0, 0, 0, 0, 0, ⟨0, [updateResponse], Mem.ofList (updateUrl.body .crlf)⟩⟩, 0, 0⟩

def failedUpdate : List FotaMove :=
  .call updateCall :: List.replicate 5 .main ++
    [.event (.progress 10),.handler,.event .error,.handler,.main,.handler,.main,.main]

theorem failedUpdate_runs : (run (FotaState.step defaultConfig) .boot failedUpdate).isSome := by
  decide +kernel

theorem downloads_reported_failed :
    (run (FotaState.step defaultConfig) .boot failedUpdate).map (fun s => s.log.drop 5) =
      some [.main (.start ⟨ascii "h", ascii "xy", 42⟩ 0),.event (.progress 10),
        .handler (.puts (.progress 10)),.event .error,.handler (.puts .failed),.main (.puts .start),
        .handler .give,.main .take,.main (.ret (-1))] ∧
    Reported ((run (FotaState.step defaultConfig) .boot failedUpdate).get failedUpdate_runs) :=
  ⟨by decide +kernel,downloads_reported (Option.some_get failedUpdate_runs).symm⟩

/-- Behind the start of a download the error that ends the wait for it. -/
def EndedByOwnError (s : FotaState) : Prop :=
  ∀ before t mid after, s.log = before ++ .main (.start t 0) :: (mid ++ .main .take :: after) →
    .handler .give ∈ mid

theorem wait_ends_with_own_error {cfg : FileConfig} {moves : List FotaMove} {s : FotaState}
    (h : run (FotaState.step cfg) .boot moves = some s)
    (hlib : ∀ before, before <+: s.log → errors before ≤ starts before) : EndedByOwnError s := by
  have hi := inv_run h
  intro before t mid after hlog
  obtain ⟨-,hstart⟩ := hi.log before _ _ hlog
  obtain ⟨hwaited,hgives,hbacked⟩ := hstart rfl
  have hfew := hlib before ⟨_,hlog.symm⟩
  have htake := hi.log (before ++ .main (.start t 0) :: mid) (.main .take) after (by simp [hlog])
  have hlast := htake.1 rfl
  have hops : ops (before ++ .main (.start t 0) :: mid) = ops before ++ ops mid := by
    simp [ops,opsOf,actOp]
  rw [hops] at hlast
  have hone := hbacked.fresh (by omega) hlast
  obtain ⟨op,hop,hgive⟩ := List.countP_pos_iff.1 hone
  obtain rfl : op = .give := by simpa using hgive
  obtain ⟨r,hr,hrop⟩ := List.mem_flatMap.1 hop
  have hlogmem : r ∈ s.log := by
    rw [hlog]
    simp [hr]
  cases r with
  | main a =>
    have hact : a = .give := by cases a <;> simp_all [opsOf,actOp]
    exact absurd hact (hi.acts a hlogmem).1
  | handler a =>
    have hact : a = .give := by cases a <;> simp_all [opsOf,actOp]
    exact hact ▸ hr
  | called file => simp [opsOf] at hrop
  | event e => simp [opsOf] at hrop

theorem failedUpdate_errors :
    ∀ before, before <+: ((run (FotaState.step defaultConfig) .boot failedUpdate).get failedUpdate_runs).log →
      errors before ≤ starts before := by
  have hall : ∀ before ∈ ((run (FotaState.step defaultConfig) .boot failedUpdate).get
      failedUpdate_runs).log.inits, errors before ≤ starts before := by decide +kernel
  exact fun before hpre => hall before ((List.mem_inits _ _).2 hpre)

theorem wait_ends_failed :
    EndedByOwnError ((run (FotaState.step defaultConfig) .boot failedUpdate).get failedUpdate_runs) :=
  wait_ends_with_own_error (Option.some_get failedUpdate_runs).symm failedUpdate_errors

end SipfClient.Fota
