import SipfClient.LteCourse
set_option autoImplicit false

namespace SipfClient.Lte
open ByteMem HexText Command Semaphores Runs

def mainAct : BootRecord → Option BootAction
  | .main a => some a
  | _ => none

def mainActs (log : List BootRecord) : List BootAction := log.filterMap mainAct

@[simp] theorem mainActs_append (log log' : List BootRecord) :
    mainActs (log ++ log') = mainActs log ++ mainActs log' := List.filterMap_append

@[simp] theorem mainActs_main (acts : List BootAction) : mainActs (acts.map .main) = acts := by
  simp [mainActs,List.filterMap_map,Function.comp_def,mainAct]

@[simp] theorem mainActs_event (e : LteLcEvt) : mainActs [.event e] = [] := rfl

@[simp] theorem mainActs_handler (a : BootAction) : mainActs [.handler a] = [] := rfl

inductive Transition (s : BootState) : BootState → Prop
  | main (s' : BootState) (acts : List BootAction) (course : MainStep s.point acts s'.point)
      (log : s'.log = s.log ++ acts.map .main) (handler : s'.handler = s.handler)
      (sem : acts = [.take] ∧ takeSem s.lteConnected = some s'.lteConnected ∨
        .take ∉ acts ∧ s'.lteConnected = s.lteConnected)
      (quiet : .puts .timeout ∈ acts → s.lteConnected = 0)
      (registers : s'.registers = acts.foldl actRegisters s.registers)
      (leds : s'.led2 = (s.led2 && s'.point != .stopped) ∧ s'.led3 = (s.led3 || s'.point == .running)) :
      Transition s s'
  | event (e : LteLcEvt) (idle : s.handler = []) :
      Transition s ({ s with handler := lteHandler e }.record [.event e])
  | give (todo : List BootAction) (next : s.handler = .give :: todo) :
      Transition s ({ s with lteConnected := giveSem 1 s.lteConnected, handler := todo }.record
        [.handler .give])
  | handler (a : BootAction) (todo : List BootAction) (ha : a ≠ .give) (next : s.handler = a :: todo) :
      Transition s ({ s with handler := todo }.record [.handler a])

theorem goto_transition {s s₁ : BootState} {acts : List BootAction} {p : BootPoint}
    (hs : MainStep s.point acts p) (hlog : s₁.log = s.log) (hh : s₁.handler = s.handler)
    (hsem : s₁.lteConnected = s.lteConnected) (htake : .take ∉ acts)
    (hquiet : .puts .timeout ∈ acts → s.lteConnected = 0)
    (hr : s₁.registers = acts.foldl actRegisters s.registers)
    (hled : s₁.led2 = (s.led2 && p != .stopped) ∧ s₁.led3 = (s.led3 || p == .running)) :
    Transition s (s₁.goto p acts) :=
  .main _ acts hs (by rw [← hlog]; rfl) hh (.inr ⟨htake,hsem⟩) hquiet hr hled

theorem step_transition {s s' : BootState} {move : BootMove} (h : s.step move = some s') :
    Transition s s' := by
  unfold BootState.step at h
  split at h
  · rename_i m hp
    split_ifs at h with herr <;> cases h
    · refine goto_transition ?_ rfl rfl rfl (by simp) (by simp) rfl (by simp)
      exact hp ▸ .setupFails m.err herr
    · refine goto_transition ?_ rfl rfl rfl (by simp) (by simp) rfl (by simp)
      exact hp ▸ .setupDone
  · rename_i err i hp
    split_ifs at h with herr <;> cases h
    · refine goto_transition ?_ rfl rfl rfl (by simp) (by simp) rfl (by simp)
      exact hp ▸ .initFails i err herr
    · refine goto_transition ?_ rfl rfl rfl (by simp) (by simp) rfl (by simp)
      exact hp ▸ .initDone i
  · rename_i err i hp
    simp only at h
    split_ifs at h with herr <;> cases h
    · refine goto_transition ?_ rfl rfl rfl (by simp) (by simp) rfl (by simp)
      exact hp ▸ .connectFails i err herr
    · refine goto_transition ?_ rfl rfl rfl (by simp) (by simp) rfl (by simp)
      exact hp ▸ .connectDone i
  · rename_i i hp
    obtain ⟨n,hn,rfl⟩ := Option.map_eq_some_iff.1 h
    refine .main _ [.take] (hp ▸ .takes i) rfl rfl (.inl ⟨rfl,hn⟩) (by simp) rfl ?_
    simp [BootState.goto,BootState.record]
  · rename_i i hp
    split_ifs at h with hzero
    cases h
    refine goto_transition ?_ rfl rfl rfl (by simp) (fun _ => hzero) rfl (by simp)
    exact hp ▸ .timesOut i
  · rename_i i hp
    split_ifs at h with hi <;> cases h
    · refine goto_transition ?_ rfl rfl rfl (by simp) (by simp) rfl (by simp)
      exact hp ▸ .retries i hi
    · refine goto_transition ?_ rfl rfl rfl (by simp) (by simp) rfl (by simp)
      exact hp ▸ .givesUp i (Nat.not_lt.1 hi)
  · rename_i info hp
    cases h
    refine goto_transition ?_ rfl rfl rfl ?_ ?_ ?_ (by simp)
    · exact hp ▸ .informs info
    all_goals
      rcases informs_acts info with h | ⟨v,h⟩ <;> rw [h] <;> simp [actRegisters]
  · rename_i g hp
    cases h
    refine goto_transition ?_ rfl rfl rfl ?_ ?_ ?_ (by simp [BootState.setMode])
    · exact hp ▸ .confirms g
    all_goals
      split_ifs <;> simp [actRegisters,BootState.setMode]
  · rename_i err hp
    split_ifs at h with herr <;> cases h
    · refine goto_transition ?_ rfl rfl rfl (by simp) (by simp) ?_ (by simp [BootState.setMode])
      · exact hp ▸ .authFails err herr
      · simp [actRegisters,herr,BootState.setMode]
    · refine goto_transition ?_ rfl rfl rfl (by simp) (by simp) ?_ (by simp)
      · exact hp ▸ .authDone err (Int.not_lt.1 herr)
      · simp [actRegisters,herr]
  · rename_i err hp
    cases h
    refine goto_transition (hp ▸ .ready err) ?_ ?_ ?_ (by simp) (by simp) ?_ ?_ <;>
      split_ifs <;> simp_all [BootState.setMode,actRegisters]
  · split at h
    · rename_i hidle
      split_ifs at h
      cases h
      exact .event _ hidle
    · cases h
  · split at h
    · cases h
    · rename_i todo hnext
      cases h
      exact .give todo hnext
    · rename_i a todo hne hnext
      cases h
      exact .handler a todo (fun ha => hne ha) hnext
  · cases h

def opsOf : BootRecord → List SemOp
  | .main .take => [.take]
  | .handler .give => [.give]
  | _ => []

def ops (log : List BootRecord) : List SemOp := log.flatMap opsOf

def registereds (log : List BootRecord) : Nat := log.count (.handler (.puts .registerd))

/-- What an entry of the log tells of those before it. A message of a registration may be
out before its `give` is. -/
def Certified (before : List BootRecord) : BootRecord → Prop
  | .main a => Open (mainActs before) ∧ Told (mainActs before) a ∧
      (a = .take → 0 < registereds before) ∧
      (a = .puts .timeout → gives (ops before) = 0 ∧ registereds before ≤ 1)
  | _ => True

structure Inv (v : Version) (s : BootState) : Prop where
  course : Course (mainActs s.log) s.point
  registers : s.registers = registersOf v (mainActs s.log)
  leds : (s.led2 = true ↔ s.point ≠ .stopped) ∧ (s.led3 = true ↔ s.point = .running)
  sem : Semaphores.Counts (ops s.log) s.lteConnected
  taken : takes (ops s.log) = (mainActs s.log).count .take
  handler : s.handler ∈ [[],[.puts .searching],[.puts .registerd,.give],[.give]]
  told : registereds s.log = gives (ops s.log) + if s.handler = [.give] then 1 else 0
  log : Justified Certified s.log

theorem inv_boot (v : Version) : Inv v (.boot v) where
  course := .start
  registers := rfl
  leds := by simp [BootState.boot]
  sem := counts_nil
  taken := rfl
  handler := by simp [BootState.boot]
  told := rfl
  log := justified_nil _

@[simp] theorem ops_append (log log' : List BootRecord) : ops (log ++ log') = ops log ++ ops log' := by
  simp [ops]

@[simp] theorem registereds_append (log log' : List BootRecord) :
    registereds (log ++ log') = registereds log + registereds log' := List.count_append

theorem ops_main {acts : List BootAction} (h : .take ∉ acts) : ops (acts.map .main) = [] := by
  induction acts with
  | nil => rfl
  | cons a acts ih =>
    have ha : opsOf (.main a) = [] := by
      cases a <;> first | rfl | exact absurd List.mem_cons_self h
    have hrest := ih fun hmem => h (List.mem_cons_of_mem a hmem)
    simp only [ops,List.map_cons,List.flatMap_cons,ha,List.nil_append]
    exact hrest

theorem gives_main (acts : List BootAction) : gives (ops (acts.map .main)) = 0 := by
  induction acts with
  | nil => rfl
  | cons a acts ih =>
    have ha : gives (opsOf (.main a)) = 0 := by cases a <;> rfl
    rw [List.map_cons,← List.singleton_append,ops_append,gives_append,ih]
    simpa [ops] using ha

theorem registereds_main (acts : List BootAction) : registereds (acts.map .main) = 0 := by
  simp [registereds,List.count_eq_zero]

section Steps

variable {v : Version} {s s' : BootState}

theorem certified_main {log : List BootRecord} {acts : List BootAction} (h : Justified Certified log)
    (hacts : Justified (fun before a => Certified (log ++ before.map .main) (.main a)) acts) :
    Justified Certified (log ++ acts.map .main) := by
  refine justified_append h ?_
  intro before x after hsplit
  obtain ⟨front,rest,rfl,rfl,hrest⟩ := List.map_eq_append_iff.1 hsplit
  obtain ⟨a,back,rfl,rfl,rfl⟩ := List.map_eq_cons_iff.1 hrest
  exact hacts front a back rfl

theorem inv_main (hi : Inv v s) {acts : List BootAction} (hs : MainStep s.point acts s'.point)
    (hlog : s'.log = s.log ++ acts.map .main) (hh : s'.handler = s.handler)
    (hsem : acts = [.take] ∧ takeSem s.lteConnected = some s'.lteConnected ∨
      .take ∉ acts ∧ s'.lteConnected = s.lteConnected)
    (hquiet : .puts .timeout ∈ acts → s.lteConnected = 0)
    (hr : s'.registers = acts.foldl actRegisters s.registers)
    (hled : s'.led2 = (s.led2 && s'.point != .stopped) ∧ s'.led3 = (s.led3 || s'.point == .running)) :
    Inv v s' := by
  have hcourse : Course (mainActs s'.log) s'.point := by
    rw [hlog,mainActs_append,mainActs_main]
    exact hi.course.snoc hs
  obtain ⟨hstop,hrun,-⟩ := mainStep_shape hs
  have hgives : gives (ops s'.log) = gives (ops s.log) := by
    rw [hlog,ops_append,gives_append,gives_main,Nat.add_zero]
  have hcount : Semaphores.Counts (ops s'.log) s'.lteConnected ∧
      (acts = [.take] → 0 < gives (ops s.log)) := by
    rw [hlog,ops_append]
    rcases hsem with ⟨rfl,htake⟩ | ⟨htake,hsame⟩
    · obtain ⟨hlast,hc⟩ := hi.sem.take htake
      exact ⟨hc,fun _ => List.countP_pos_iff.2 ⟨.give,List.mem_of_getLast? hlast,rfl⟩⟩
    · rw [ops_main htake,List.append_nil,hsame]
      exact ⟨hi.sem,fun heq => absurd (heq ▸ List.mem_singleton_self _) htake⟩
  refine ⟨hcourse,?_,?_,hcount.1,?_,hh ▸ hi.handler,?_,?_⟩
  · rw [hr,hi.registers,hlog,mainActs_append,mainActs_main,registersOf_append]
  · rw [hled.1,hled.2]
    simp [hi.leds,hstop,hrun]
  · rw [hlog,ops_append,mainActs_append,mainActs_main,takes_append,List.count_append,hi.taken]
    rcases hsem with ⟨rfl,-⟩ | ⟨htake,-⟩
    · rfl
    · rw [ops_main htake,List.count_eq_zero.2 htake]
      rfl
  · rw [hgives,hlog,registereds_append,registereds_main,hh,hi.told,Nat.add_zero]
  · rw [hlog]
    refine certified_main hi.log ?_
    intro before a after hsplit
    have hmine : mainActs s'.log = (mainActs s.log ++ before) ++ a :: after := by
      rw [hlog,mainActs_append,mainActs_main,hsplit,List.append_assoc]
    have htold := course_told hcourse _ a after hmine
    have hfront : mainActs (s.log ++ before.map .main) = mainActs s.log ++ before := by simp
    have hnews : registereds (s.log ++ before.map .main) = registereds s.log ∧
        gives (ops (s.log ++ before.map .main)) = gives (ops s.log) := by
      simp [registereds_main,gives_main]
    refine ⟨hfront ▸ course_open hcourse _ a after hmine,hfront ▸ htold,?_,?_⟩
    · rintro rfl
      rw [hnews.1,hi.told]
      have hacts : acts = [.take] := by
        rcases hsem with h | h
        · exact h.1
        · exact absurd (hsplit ▸ List.mem_append_right before List.mem_cons_self) h.1
      exact Nat.lt_of_lt_of_le (hcount.2 hacts) (Nat.le_add_right _ _)
    · rintro rfl
      have hfree : s.lteConnected = 0 :=
        hquiet (hsplit ▸ List.mem_append_right before List.mem_cons_self)
      have hnone : takes (ops s.log) = 0 := by
        rw [hi.taken,List.count_eq_zero]
        exact fun hmem => htold.1 (List.mem_append_left before hmem)
      have hzero : gives (ops s.log) = 0 := (hfree ▸ hi.sem).unsignalled hnone
      rw [hnews.1,hnews.2,hi.told,hzero]
      exact ⟨rfl,by split_ifs <;> simp⟩

theorem inv_event (hi : Inv v s) (e : LteLcEvt) (hidle : s.handler = []) :
    Inv v ({ s with handler := lteHandler e }.record [.event e]) where
  course := by simpa [BootState.record] using hi.course
  registers := by simpa [BootState.record] using hi.registers
  leds := hi.leds
  sem := by simpa [BootState.record,ops,opsOf] using hi.sem
  taken := by simpa [BootState.record,ops,opsOf] using hi.taken
  handler := by
    simp only [BootState.record]
    unfold lteHandler
    split <;> simp
  told := by
    have hnone : lteHandler e ≠ [.give] := by
      unfold lteHandler
      split <;> simp
    have hold := hi.told
    rw [hidle,if_neg (by simp)] at hold
    simpa [BootState.record,ops,opsOf,registereds,hnone] using hold
  log := justified_snoc hi.log trivial

theorem inv_give (hi : Inv v s) {todo : List BootAction} (hnext : s.handler = .give :: todo) :
    Inv v ({ s with lteConnected := giveSem 1 s.lteConnected, handler := todo }.record
      [.handler .give]) := by
  have hh := hi.handler
  rw [hnext] at hh
  obtain rfl : todo = [] := by simpa using hh
  exact {
    course := by simpa [BootState.record] using hi.course
    registers := by simpa [BootState.record] using hi.registers
    leds := hi.leds
    sem := by simpa [BootState.record,ops,opsOf] using hi.sem.give
    taken := by simpa [BootState.record,ops,opsOf,takes] using hi.taken
    handler := by simp [BootState.record]
    told := by simpa [BootState.record,ops,opsOf,hnext,registereds,gives] using hi.told
    log := justified_snoc hi.log trivial }

theorem inv_handler (hi : Inv v s) {a : BootAction} {todo : List BootAction} (ha : a ≠ .give)
    (hnext : s.handler = a :: todo) : Inv v ({ s with handler := todo }.record [.handler a]) := by
  have hh := hi.handler
  have htold := hi.told
  rw [hnext] at hh htold
  have hrest : a = .puts .searching ∧ todo = [] ∨ a = .puts .registerd ∧ todo = [.give] := by
    simpa [ha] using hh
  have hops : opsOf (.handler a) = [] := by
    rcases hrest with ⟨rfl,-⟩ | ⟨rfl,-⟩ <;> rfl
  exact {
    course := by simpa [BootState.record] using hi.course
    registers := by simpa [BootState.record] using hi.registers
    leds := hi.leds
    sem := by simpa [BootState.record,ops,hops] using hi.sem
    taken := by simpa [BootState.record,ops,hops] using hi.taken
    handler := by rcases hrest with ⟨-,rfl⟩ | ⟨-,rfl⟩ <;> simp [BootState.record]
    told := by
      rcases hrest with ⟨rfl,rfl⟩ | ⟨rfl,rfl⟩ <;>
        simpa [BootState.record,ops,opsOf,registereds] using htold
    log := justified_snoc hi.log trivial }

theorem inv_step {move : BootMove} (hi : Inv v s) (h : s.step move = some s') : Inv v s' := by
  cases step_transition h with
  | main s' acts hs hlog hh hsem hquiet hr hled => exact inv_main hi hs hlog hh hsem hquiet hr hled
  | event e hidle => exact inv_event hi e hidle
  | give todo hnext => exact inv_give hi hnext
  | handler a todo ha hnext => exact inv_handler hi ha hnext

end Steps

theorem inv_run {v : Version} {moves : List BootMove} {s : BootState}
    (h : run BootState.step (.boot v) moves = some s) : Inv v s :=
  run_inv (Inv v) (fun _ _ _ hi hstep => inv_step hi hstep) (inv_boot v) h

def lateRegistration : List BootMove :=
  [.setup ⟨0, 0, 0, 0, 0, 0, 0, 0⟩,.lteInit 0,.connect 0,.event (.nwRegStatus .searching),.handler,
    .timeout,.event (.nwRegStatus .registeredHome),.handler,.offline,.lteInit 0,.handler,.connect 0,
    .take,.attached ⟨0, 0, -5, ascii "8981"⟩,.gnss ⟨0, 0, -1, 0⟩,.auth (-1),.auth 0,.authInfo 0]

def version : Version := ⟨1, 0, 5, 0⟩

theorem lateRegistration_runs : (run BootState.step (.boot version) lateRegistration).isSome := by
  decide +kernel

def lateState : BootState :=
  (run BootState.step (.boot version) lateRegistration).get lateRegistration_runs

theorem lateState_reached : run BootState.step (.boot version) lateRegistration = some lateState :=
  (Option.some_get lateRegistration_runs).symm

section Boots

variable {v : Version} {moves : List BootMove} {s : BootState}

theorem boot_certified (h : run BootState.step (.boot v) moves = some s) : Justified Certified s.log :=
  (inv_run h).log

theorem boot_certified_late : Justified Certified lateState.log := boot_certified lateState_reached

structure BootsAs (v : Version) (s : BootState) : Prop where
  running : s.point = .running → ∃ info, .main (.setAuthInfo info) ∈ s.log ∧
    boot v (auths (mainActs s.log)) info = some ⟨.init s.registers, 0x01⟩
  waiting : s.point ∉ [.authInfo,.running] → ∀ info, boot v (auths (mainActs s.log)) info = none
  untouched : s.point ∉ [.auth,.authInfo,.running] → s.registers = registersReset (.boot v)
  led2 : s.led2 = true ↔ s.point ≠ .stopped
  led3 : s.led3 = true ↔ s.point = .running

theorem mem_mainActs {log : List BootRecord} {a : BootAction} (h : a ∈ mainActs log) :
    .main a ∈ log := by
  obtain ⟨r,hr,ha⟩ := List.mem_filterMap.1 h
  cases r with
  | main b =>
    cases ha
    exact hr
  | _ => cases ha

theorem boots_sequentially (h : run BootState.step (.boot v) moves = some s) : BootsAs v s := by
  have hi := inv_run h
  have hr := course_retries v hi.course
  refine ⟨fun hp => ?_,fun hp info => ?_,fun hp => ?_,hi.leds.1,hi.leds.2⟩
  · rw [hp] at hr
    obtain ⟨info,hmem,hboot⟩ := hr
    exact ⟨info,mem_mainActs hmem,hi.registers ▸ hboot⟩
  · by_cases hauth : s.point = .auth
    · rw [hauth] at hr
      have hnone := hr []
      rw [List.append_nil] at hnone
      simp [boot,hnone,bootAuth]
    · have hnone : auths (mainActs s.log) = [] := by
        cases hq : s.point <;> rw [hq] at hr <;> simp_all [Retries]
      simp [boot,hnone,bootAuth]
  · rw [hi.registers]
    cases hq : s.point <;> rw [hq] at hr <;> simp_all [Retries]

theorem boots_sequentially_late : BootsAs version lateState := boots_sequentially lateState_reached

/-- The moves of the main thread that are still to come, failed requests aside. -/
def BootPoint.left : BootPoint → Nat
  | .setup => 16
  | .lteInit i => 7 + 4 * (2 - i)
  | .connect i => 6 + 4 * (2 - i)
  | .wait i => 5 + 4 * (2 - i)
  | .offline i => 4 + 4 * (2 - i)
  | .attached => 4
  | .gnss => 3
  | .auth => 2
  | .authInfo => 1
  | .running => 0
  | .stopped => 0

def BootMove.isMain : BootMove → Bool
  | .event _ => false
  | .handler => false
  | _ => true

def BootMove.counted : BootMove → Bool
  | .auth err => 0 ≤ err
  | move => move.isMain

@[simp] theorem goto_point (s : BootState) (p : BootPoint) (acts : List BootAction) :
    (s.goto p acts).point = p := rfl

@[simp] theorem stop_point (s : BootState) (acts : List BootAction) (err : Int) :
    (s.stop acts err).point = .stopped := rfl

theorem step_left {s s' : BootState} {move : BootMove} (h : s.step move = some s') :
    s'.point.left + (if move.counted then 1 else 0) ≤ s.point.left := by
  unfold BootState.step at h
  split at h
  · rename_i m hp
    split_ifs at h <;> cases h <;> simp [hp,BootPoint.left,BootMove.counted,BootMove.isMain]
  · rename_i err i hp
    split_ifs at h <;> cases h
    · simp [hp,BootPoint.left,BootMove.counted,BootMove.isMain]
      omega
    · simp [hp,BootPoint.left,BootMove.counted,BootMove.isMain]
  · rename_i err i hp
    simp only at h
    split_ifs at h <;> cases h
    · simp [hp,BootPoint.left,BootMove.counted,BootMove.isMain]
      omega
    · simp [hp,BootPoint.left,BootMove.counted,BootMove.isMain]
  · rename_i i hp
    obtain ⟨n,-,rfl⟩ := Option.map_eq_some_iff.1 h
    simp [hp,BootPoint.left,BootMove.counted,BootMove.isMain]
  · rename_i i hp
    split_ifs at h
    cases h
    simp [hp,BootPoint.left,BootMove.counted,BootMove.isMain]
  · rename_i i hp
    split_ifs at h with hi <;> cases h
    · rw [registerTry] at hi
      simp [hp,BootPoint.left,BootMove.counted,BootMove.isMain]
      omega
    · simp [hp,BootPoint.left,BootMove.counted,BootMove.isMain]
      omega
  · rename_i info hp
    cases h
    simp [hp,BootPoint.left,BootMove.counted,BootMove.isMain]
  · rename_i g hp
    cases h
    simp [hp,BootPoint.left,BootMove.counted,BootMove.isMain]
  · rename_i err hp
    split_ifs at h with herr <;> cases h
    · simp [hp,BootPoint.left,BootMove.counted,Int.not_le.2 herr]
    · simp [hp,BootPoint.left,BootMove.counted,Int.not_lt.1 herr]
  · rename_i err hp
    cases h
    simp [hp,BootPoint.left,BootMove.counted,BootMove.isMain]
  · split at h
    · split_ifs at h
      cases h
      exact Nat.le_refl _
    · cases h
  · split at h
    · cases h
    · cases h
      exact Nat.le_refl _
    · cases h
      exact Nat.le_refl _
  · cases h

/-- Only requests that fail keep the device from an end, and up to it the main thread has a
move. -/
def Ends (moves : List BootMove) (s : BootState) : Prop :=
  moves.countP BootMove.counted ≤ 16 ∧
    (s.point = .running ∨ s.point = .stopped ∨ ∃ move, move.isMain = true ∧ (s.step move).isSome)

theorem main_enabled (s : BootState) : s.point = .running ∨ s.point = .stopped ∨
    ∃ move, move.isMain = true ∧ (s.step move).isSome := by
  cases hp : s.point with
  | setup =>
    refine .inr (.inr ⟨.setup ⟨0, 0, 0, 0, 0, 0, 0, 0⟩,rfl,?_⟩)
    simp only [BootState.step,hp]
    split_ifs <;> rfl
  | lteInit i => exact .inr (.inr ⟨.lteInit 0,rfl,by simp [BootState.step,hp]⟩)
  | connect i => exact .inr (.inr ⟨.connect 0,rfl,by simp [BootState.step,hp]⟩)
  | wait i =>
    cases hn : s.lteConnected with
    | zero => exact .inr (.inr ⟨.timeout,rfl,by simp [BootState.step,hp,hn]⟩)
    | succ n => exact .inr (.inr ⟨.take,rfl,by simp [BootState.step,hp,hn,takeSem]⟩)
  | offline i =>
    refine .inr (.inr ⟨.offline,rfl,?_⟩)
    simp only [BootState.step,hp]
    split_ifs <;> rfl
  | attached => exact .inr (.inr ⟨.attached ⟨0, 0, 0, []⟩,rfl,by simp [BootState.step,hp]⟩)
  | gnss => exact .inr (.inr ⟨.gnss ⟨0, 0, 0, 0⟩,rfl,by simp [BootState.step,hp]⟩)
  | auth => exact .inr (.inr ⟨.auth 0,rfl,by simp [BootState.step,hp]⟩)
  | authInfo => exact .inr (.inr ⟨.authInfo 0,rfl,by simp [BootState.step,hp]⟩)
  | running => exact .inl rfl
  | stopped => exact .inr (.inl rfl)

theorem boot_ends (h : run BootState.step (.boot v) moves = some s) : Ends moves s := by
  have hspent := run_spends (fun _ => True) (fun _ => True) BootMove.counted
    (fun s : BootState => s.point.left) (fun _ _ _ _ _ hstep => ⟨trivial,step_left hstep⟩) trivial
    (fun _ _ => trivial) h
  exact ⟨Nat.le_trans (Nat.le_add_right _ _) hspent,main_enabled s⟩

theorem boot_ends_late : Ends lateRegistration lateState := boot_ends lateState_reached

end Boots

end SipfClient.Lte
