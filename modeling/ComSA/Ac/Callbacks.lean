import ComSA.Ac.Availability
import Mathlib.Data.List.Count

/-!
# What a callback does

What AMF has asked for is with COM, or in the queue, or with the thread, or it is settled. `Does` tells what a
callback may do, and what is due for it: all that is proved about the callbacks goes through it.
-/

namespace ComSA.Availability

inductive Due where
  | response (inv : Nat)
  | quiescingComplete (inv : Nat)
  | termination
  | errorReport
  deriving DecidableEq, Repr

def dueOf (event_type : CoremwEventType) (inv flags : Nat) : List Due :=
  match event_type with
  | .terminate => []
  | .haModeAssumed => if flags = 1 then [.quiescingComplete inv] else [.response inv]
  | .healthCheckReport => if flags = 0 then [.response inv] else [.errorReport]
  | .prepareTerminationResponse => [.response inv, .termination]

def CoremwEvent.due (e : CoremwEvent) : List Due := dueOf e.event_type e.saf_invokation e.flags

def Call.settles : Call → List Due
  | .saAmfResponse inv _ => [.response inv]
  | .saAmfCSIQuiescingComplete inv _ => [.quiescingComplete inv]
  | .saAmfComponentErrorReport _ => [.errorReport]
  | .terminateProcess => [.termination]
  | _ => []

namespace State

def batch (s : State) : List CoremwEvent :=
  match s.amf_pthread with
  | .handling eventq => eventq
  | _ => []

/-- The events that COM has answered, in the order in which they are handled. -/
def line (s : State) : List CoremwEvent := s.batch ++ s.eventq.items

def pending (s : State) : List CoremwEvent := s.held ++ s.line

def settled (s : State) : List Due := s.calls.flatMap Call.settles

def balance (s : State) (d : Due) : Nat := s.settled.count d + (s.pending.flatMap CoremwEvent.due).count d

end State

/-! ## What callbacks do -/

def Accepts (answers : Answers) : Prop :=
  State.SAF_API_CALL answers.saAmfResponse State.AMF_MAX_TRIES 0 = .ok ∧ answers.saAmfCSIQuiescingComplete = .ok ∧
    answers.saAmfComponentErrorReport = .ok

instance (answers : Answers) : Decidable (Accepts answers) := inferInstanceAs (Decidable (_ ∧ _ ∧ _))

/-- A callback goes from one state to another, and has brought what is due. The process only ends when AMF does not
take what it is told, and `m` is the mode that COM is asked for. -/
inductive Does (accepts : Prop) (m : HaMode) : List Due → State → State → Prop
  | refl (s : State) : Does accepts m [] s s
  | call {ds : List Due} {s t : State} (c : Call) (hmode : ∀ a n r, c ≠ .setHaMode a n r)
      (h : Does accepts m ds (s.call c) t) : Does accepts m (c.settles ++ ds) s t
  | setHaMode {ds : List Due} {s t : State} (inv flags : Nat) (reason : HaReason)
      (hcallbacks : s.maf_acCallbacks = true) (hmode : s.maf_new_com_ha_state = m) (hother : s.maf_com_ha_state ≠ m)
      (h : Does accepts m ds (s.setHaMode inv flags reason) t) :
      Does accepts m (dueOf .haModeAssumed inv flags ++ ds) s t
  | healthCheck {ds : List Due} {s t : State} (inv : Nat) (hcallbacks : s.maf_acCallbacks = true)
      (h : Does accepts m ds (s.healthCheck inv) t) : Does accepts m (dueOf .healthCheckReport inv 0 ++ ds) s t
  | prepareTermination {ds : List Due} {s t : State} (inv : Nat) (hcallbacks : s.maf_acCallbacks = true)
      (h : Does accepts m ds (s.prepareTermination inv) t) :
      Does accepts m (dueOf .prepareTerminationResponse inv 0 ++ ds) s t
  | newMode {ds : List Due} {s t : State} (h : Does accepts m ds { s with maf_new_com_ha_state := m } t) :
      Does accepts m ds s t
  | alarm {ds : List Due} {s t : State} (h : Does accepts m ds { s with alertalarm := true } t) :
      Does accepts m ds s t
  | ended {ds : List Due} {s : State} (e : Ending) (hends : ¬ accepts) : Does accepts m ds s (s.endWith e)

structure Frame (s t : State) : Prop where
  maf_acCallbacks : t.maf_acCallbacks = s.maf_acCallbacks
  maf_com_ha_state : t.maf_com_ha_state = s.maf_com_ha_state
  eventq : t.eventq = s.eventq
  amf_pthread : t.amf_pthread = s.amf_pthread
  stop_thread : t.stop_thread = s.stop_thread
  amf_pthread_isrunning : t.amf_pthread_isrunning = s.amf_pthread_isrunning
  joining : t.joining = s.joining

theorem Frame.refl (s : State) : Frame s s := ⟨rfl, rfl, rfl, rfl, rfl, rfl, rfl⟩

theorem Frame.trans {s t u : State} (h : Frame s t) (h' : Frame t u) : Frame s u :=
  ⟨h'.1.trans h.1, h'.2.trans h.2, h'.3.trans h.3, h'.4.trans h.4, h'.5.trans h.5, h'.6.trans h.6, h'.7.trans h.7⟩

theorem Frame.line {s t : State} (h : Frame s t) : t.line = s.line := by
  rw [State.line, State.line, State.batch, State.batch, h.eventq, h.amf_pthread]

namespace State

theorem ask_eq {s : State} (hcallbacks : s.maf_acCallbacks = true) (event_type : CoremwEventType) (inv flags : Nat)
    (c : Nat → Call) :
    s.ask event_type inv flags c =
      { s with
        nextAddress := s.nextAddress + 1
        held := s.held ++ [⟨s.nextAddress, event_type, inv, flags, none, none⟩]
        calls := s.calls ++ [c s.nextAddress] } := by
  rw [ask, if_pos hcallbacks]
  rfl

theorem ask_frame {s : State} (hcallbacks : s.maf_acCallbacks = true) (event_type : CoremwEventType) (inv flags : Nat)
    (c : Nat → Call) : Frame s (s.ask event_type inv flags c) := by
  rw [ask_eq hcallbacks]
  exact ⟨rfl, rfl, rfl, rfl, rfl, rfl, rfl⟩

theorem ask_ended {s : State} (hcallbacks : s.maf_acCallbacks = true) (event_type : CoremwEventType) (inv flags : Nat)
    (c : Nat → Call) : (s.ask event_type inv flags c).ended = s.ended := by
  rw [ask_eq hcallbacks]

theorem call_balance (s : State) (c : Call) (d : Due) : (s.call c).balance d = s.balance d + c.settles.count d := by
  unfold balance settled pending line batch call
  simp only [List.flatMap_append, List.flatMap_cons, List.flatMap_nil, List.append_nil, List.count_append]
  omega

theorem ask_balance {s : State} (hcallbacks : s.maf_acCallbacks = true) (event_type : CoremwEventType)
    (inv flags : Nat) {c : Nat → Call} (hc : ∀ a, (c a).settles = []) (d : Due) :
    (s.ask event_type inv flags c).balance d = s.balance d + (dueOf event_type inv flags).count d := by
  rw [ask_eq hcallbacks]
  unfold balance settled pending line batch
  simp only [List.flatMap_append, List.flatMap_cons, List.flatMap_nil, List.append_nil, List.count_append, hc,
    CoremwEvent.due]
  omega

end State

namespace Does

variable {accepts : Prop} {m : HaMode} {ds ds' : List Due} {s t u : State}

theorem trans (h : Does accepts m ds s t) (h' : Does accepts m ds' t u) (ht : t.ended = none) :
    Does accepts m (ds ++ ds') s u := by
  induction h with
  | refl s => exact h'
  | call c hmode _ ih =>
    rw [List.append_assoc]
    exact .call c hmode (ih h' ht)
  | setHaMode inv flags reason hcallbacks hmode hother _ ih =>
    rw [List.append_assoc]
    exact .setHaMode inv flags reason hcallbacks hmode hother (ih h' ht)
  | healthCheck inv hcallbacks _ ih =>
    rw [List.append_assoc]
    exact .healthCheck inv hcallbacks (ih h' ht)
  | prepareTermination inv hcallbacks _ ih =>
    rw [List.append_assoc]
    exact .prepareTermination inv hcallbacks (ih h' ht)
  | newMode _ ih => exact .newMode (ih h' ht)
  | alarm _ ih => exact .alarm (ih h' ht)
  | ended e hends => cases ht

theorem more (h : Does accepts m ds s t) (hs : s.ended = none) (ht : t.ended ≠ none) :
    Does accepts m (ds ++ ds') s t := by
  induction h with
  | refl s => exact absurd hs ht
  | call c hmode _ ih =>
    rw [List.append_assoc]
    exact .call c hmode (ih hs ht)
  | setHaMode inv flags reason hcallbacks hmode hother _ ih =>
    rw [List.append_assoc]
    exact .setHaMode inv flags reason hcallbacks hmode hother (ih ((State.ask_ended hcallbacks _ _ _ _).trans hs) ht)
  | healthCheck inv hcallbacks _ ih =>
    rw [List.append_assoc]
    exact .healthCheck inv hcallbacks (ih ((State.ask_ended hcallbacks _ _ _ _).trans hs) ht)
  | prepareTermination inv hcallbacks _ ih =>
    rw [List.append_assoc]
    exact .prepareTermination inv hcallbacks (ih ((State.ask_ended hcallbacks _ _ _ _).trans hs) ht)
  | newMode _ ih => exact .newMode (ih hs ht)
  | alarm _ ih => exact .alarm (ih hs ht)
  | ended e hends => exact .ended e hends

theorem frame (h : Does accepts m ds s t) : Frame s t := by
  induction h with
  | refl s => exact .refl s
  | call c hmode _ ih =>
    refine .trans ?_ ih
    exact ⟨rfl, rfl, rfl, rfl, rfl, rfl, rfl⟩
  | setHaMode inv flags reason hcallbacks hmode hother _ ih => exact (State.ask_frame hcallbacks _ _ _ _).trans ih
  | healthCheck inv hcallbacks _ ih => exact (State.ask_frame hcallbacks _ _ _ _).trans ih
  | prepareTermination inv hcallbacks _ ih => exact (State.ask_frame hcallbacks _ _ _ _).trans ih
  | newMode _ ih =>
    refine .trans ?_ ih
    exact ⟨rfl, rfl, rfl, rfl, rfl, rfl, rfl⟩
  | alarm _ ih =>
    refine .trans ?_ ih
    exact ⟨rfl, rfl, rfl, rfl, rfl, rfl, rfl⟩
  | ended e hends => exact ⟨rfl, rfl, rfl, rfl, rfl, rfl, rfl⟩

theorem andThen (h : Does accepts m ds s t) (hs : s.ended = none) {f : State → State}
    (hf : t.ended = none → Does accepts m ds' t (f t)) : Does accepts m (ds ++ ds') s (t.andThen f) := by
  unfold State.andThen
  by_cases ht : t.ended = none
  · rw [if_pos ht]
    exact h.trans (hf ht) ht
  · rw [if_neg ht]
    exact h.more hs ht

theorem mode (h : Does accepts m ds s t) (hm : s.maf_new_com_ha_state = m) : t.maf_new_com_ha_state = m := by
  induction h with
  | refl s => exact hm
  | call c hmode _ ih => exact ih hm
  | setHaMode inv flags reason hcallbacks hmode hother _ ih =>
    refine ih ?_
    rw [State.setHaMode, State.ask_eq hcallbacks]
    exact hm
  | healthCheck inv hcallbacks _ ih =>
    refine ih ?_
    rw [State.healthCheck, State.ask_eq hcallbacks]
    exact hm
  | prepareTermination inv hcallbacks _ ih =>
    refine ih ?_
    rw [State.prepareTermination, State.ask_eq hcallbacks]
    exact hm
  | newMode _ ih => exact ih rfl
  | alarm _ ih => exact ih hm
  | ended e hends => exact hm

theorem balance (h : Does accepts m ds s t) (ht : t.ended = none) (d : Due) :
    t.balance d = s.balance d + ds.count d := by
  induction h with
  | refl s => simp
  | call c hmode _ ih =>
    rw [ih ht, State.call_balance, List.count_append]
    omega
  | setHaMode inv flags reason hcallbacks hmode hother _ ih =>
    rw [ih ht, State.setHaMode, State.ask_balance hcallbacks _ _ _ fun _ => rfl, List.count_append]
    omega
  | healthCheck inv hcallbacks _ ih =>
    rw [ih ht, State.healthCheck, State.ask_balance hcallbacks _ _ _ fun _ => rfl, List.count_append]
    omega
  | prepareTermination inv hcallbacks _ ih =>
    rw [ih ht, State.prepareTermination, State.ask_balance hcallbacks _ _ _ fun _ => rfl, List.count_append]
    omega
  | newMode _ ih => exact ih ht
  | alarm _ ih => exact ih ht
  | ended e hends => cases ht

theorem goesOn (h : Does accepts m ds s t) (hs : s.ended = none) (haccepts : accepts) : t.ended = none := by
  induction h with
  | refl s => exact hs
  | call c hmode _ ih => exact ih hs
  | setHaMode inv flags reason hcallbacks hmode hother _ ih =>
    exact ih ((State.ask_ended hcallbacks _ _ _ _).trans hs)
  | healthCheck inv hcallbacks _ ih => exact ih ((State.ask_ended hcallbacks _ _ _ _).trans hs)
  | prepareTermination inv hcallbacks _ ih => exact ih ((State.ask_ended hcallbacks _ _ _ _).trans hs)
  | newMode _ ih => exact ih hs
  | alarm _ ih => exact ih hs
  | ended e hends => exact absurd haccepts hends

end Does

namespace State

variable {answers : Answers} {m : HaMode} {s : State} {inv : Nat}

theorem saAmfResponse_wrapper_does (error : SaAisError) :
    Does (Accepts answers) m [.response inv] s (s.saAmfResponse_wrapper answers inv error) := by
  unfold saAmfResponse_wrapper
  by_cases hok : SAF_API_CALL answers.saAmfResponse AMF_MAX_TRIES 0 = .ok
  · rw [if_pos hok]
    exact .call (.saAmfResponse inv error) (fun _ _ _ => Call.noConfusion) (.refl _)
  · rw [if_neg hok]
    exact .ended .errQuit fun h => hok h.1

theorem saAmfCSIQuiescingComplete_does (error : SaAisError) :
    Does (Accepts answers) m [.quiescingComplete inv] s (s.saAmfCSIQuiescingComplete answers inv error) := by
  unfold saAmfCSIQuiescingComplete
  by_cases hok : answers.saAmfCSIQuiescingComplete = .ok
  · rw [if_pos hok]
    exact .call (.saAmfCSIQuiescingComplete inv error) (fun _ _ _ => Call.noConfusion) (.refl _)
  · rw [if_neg hok]
    exact .ended .errQuit fun h => hok h.2.1

def assignDue (answers : Answers) (inv : Nat) : HaState → List Due
  | .active => if answers.objImpInit = .MafFailure then [.response inv, .termination] else []
  | _ => []

theorem removeSecretAttrFile_does (ccName : String) :
    Does (Accepts answers) m [] s (if ccName = "com" then s.call .removeSecretAttrFile else s) := by
  by_cases hcom : ccName = "com"
  · rw [if_pos hcom]
    exact .call .removeSecretAttrFile (fun _ _ _ => Call.noConfusion) (.refl _)
  · rw [if_neg hcom]
    exact .refl s

theorem removeSecretAttrFile_ended (ccName : String) :
    (if ccName = "com" then s.call .removeSecretAttrFile else s).ended = s.ended := by
  split <;> rfl

theorem alarm_does (ccName : String) :
    Does (Accepts answers) m [] s
      (if ccName ≠ "lm" ∧ s.alertalarm = false then { s with alertalarm := true }.call .logServicesOpen else s) := by
  by_cases hopen : ccName ≠ "lm" ∧ s.alertalarm = false
  · rw [if_pos hopen]
    exact .alarm (.call .logServicesOpen (fun _ _ _ => Call.noConfusion) (.refl _))
  · rw [if_neg hopen]
    exact .refl s

theorem assign_active_does (ccName : String) (hs : s.ended = none) (hcallbacks : s.maf_acCallbacks = true) :
    Does (Accepts answers) .active (assignDue answers inv .active) { s with maf_new_com_ha_state := .active }
      (s.assign ccName answers inv .active) := by
  have hfailed : Does (Accepts answers) .active (dueOf .prepareTerminationResponse inv 0 ++ [])
      { s with maf_new_com_ha_state := .active }
      (prepareTermination inv { s with maf_new_com_ha_state := .active }) :=
    .prepareTermination inv hcallbacks (.refl _)
  have hnew : Does (Accepts answers) .active [] { s with maf_new_com_ha_state := .active }
      { s with maf_new_com_ha_state := .active } := .refl _
  rw [← List.append_nil (assignDue answers inv .active)]
  unfold assignDue assign
  by_cases hinit : answers.objImpInit = .MafFailure
  · simp only [if_pos hinit]
    exact hfailed.andThen hs fun _ => alarm_does ccName
  · simp only [if_neg hinit]
    exact hnew.andThen hs fun _ => alarm_does ccName

theorem assign_does (ccName : String) (ha_state : HaState) (hs : s.ended = none)
    (hcallbacks : s.maf_acCallbacks = true) :
    Does (Accepts answers) (newHaMode ha_state) (assignDue answers inv ha_state) s
      (s.assign ccName answers inv ha_state) := by
  have hended := (removeSecretAttrFile_ended (s := s) ccName).trans hs
  cases ha_state with
  | active => exact .newMode (assign_active_does ccName hs hcallbacks)
  | standby => exact (removeSecretAttrFile_does ccName).trans (.newMode (.refl _)) hended
  | quiesced => exact (removeSecretAttrFile_does ccName).trans (.newMode (.refl _)) hended
  | quiescing => exact (removeSecretAttrFile_does ccName).trans (.newMode (.refl _)) hended

theorem assign_mode (ccName : String) (answers : Answers) (inv : Nat) (ha_state : HaState) (hs : s.ended = none)
    (hcallbacks : s.maf_acCallbacks = true) :
    (s.assign ccName answers inv ha_state).maf_new_com_ha_state = newHaMode ha_state := by
  cases ha_state with
  | active => exact (assign_active_does ccName hs hcallbacks).mode rfl
  | standby => rfl
  | quiesced => rfl
  | quiescing => rfl

def setDue (answers : Answers) (inv : Nat) (ha_state : HaState) : List Due :=
  assignDue answers inv ha_state ++
    if ha_state = .quiescing then [.response inv, .quiescingComplete inv] else [.response inv]

theorem maf_amf_csi_set_callback_does (ccName : String) (ha_state : HaState) (transition : Transition)
    (hs : s.ended = none) (hcallbacks : s.maf_acCallbacks = true) :
    Does (Accepts answers) (newHaMode ha_state) (setDue answers inv ha_state) s
      (s.maf_amf_csi_set_callback ccName answers inv ha_state transition) := by
  have hassign : Does (Accepts answers) (newHaMode ha_state) (assignDue answers inv ha_state) s
      (s.assign ccName answers inv ha_state) := assign_does ccName ha_state hs hcallbacks
  unfold maf_amf_csi_set_callback setDue
  refine hassign.andThen hs fun ht => ?_
  have hmode := assign_mode ccName answers inv ha_state hs hcallbacks
  have hknown : (s.assign ccName answers inv ha_state).maf_acCallbacks = true :=
    hassign.frame.maf_acCallbacks.trans hcallbacks
  generalize s.assign ccName answers inv ha_state = t at ht hmode hknown ⊢
  have hanswer : Does (Accepts answers) (newHaMode ha_state) [.response inv] t
      (t.saAmfResponse_wrapper answers inv .ok) := saAmfResponse_wrapper_does .ok
  by_cases hsame : t.maf_acCallbacks = false ∨ t.maf_com_ha_state = t.maf_new_com_ha_state
  · rw [if_pos hsame]
    by_cases hquiescing : ha_state = .quiescing
    · rw [if_pos hquiescing]
      simp only [if_pos hquiescing]
      exact hanswer.andThen ht fun _ => saAmfCSIQuiescingComplete_does .ok
    · rw [if_neg hquiescing]
      simp only [if_neg hquiescing]
      exact hanswer.andThen ht fun _ => .refl _
  · have hother : t.maf_com_ha_state ≠ newHaMode ha_state := fun h => hsame (.inr (h.trans hmode.symm))
    rw [if_neg hsame]
    by_cases hquiescing : ha_state = .quiescing
    · rw [if_pos hquiescing, if_pos hquiescing]
      refine hanswer.andThen ht fun _ => ?_
      refine .setHaMode inv 1 _ (hanswer.frame.maf_acCallbacks.trans hknown) (hanswer.mode hmode) ?_ (.refl _)
      rw [hanswer.frame.maf_com_ha_state]
      exact hother
    · rw [if_neg hquiescing, if_neg hquiescing]
      exact .setHaMode inv 0 _ hknown hmode hother (.refl _)

theorem maf_amf_csi_remove_callback_does (ccName : String) (hs : s.ended = none)
    (hcallbacks : s.maf_acCallbacks = true) :
    Does (Accepts answers) .unassigned [.response inv] s (s.maf_amf_csi_remove_callback ccName answers inv) := by
  unfold maf_amf_csi_remove_callback
  by_cases hunassigned : s.maf_com_ha_state = .unassigned
  · rw [if_pos hunassigned]
    exact saAmfResponse_wrapper_does .ok
  · rw [if_neg hunassigned]
    exact maf_amf_csi_set_callback_does ccName .quiesced .newAssign hs hcallbacks

theorem maf_amf_healthcheck_callback_does (hcallbacks : s.maf_acCallbacks = true) :
    Does (Accepts answers) m [.response inv] s (s.maf_amf_healthcheck_callback answers inv) := by
  unfold maf_amf_healthcheck_callback
  rw [if_neg (by rw [hcallbacks]; decide)]
  exact .healthCheck inv hcallbacks (.refl _)

theorem maf_amf_comp_terminate_callback_does (hcallbacks : s.maf_acCallbacks = true) :
    Does (Accepts answers) m [.response inv, .termination] s (s.maf_amf_comp_terminate_callback answers inv) := by
  unfold maf_amf_comp_terminate_callback
  rw [if_neg (by rw [hcallbacks]; decide)]
  exact .prepareTermination inv hcallbacks (.refl _)

/-! ## What events do -/

def Dropped (answers : Answers) (e : CoremwEvent) (s : State) : Prop :=
  e.event_type = .haModeAssumed ∧ e.error = some .MafOk ∧ s.maf_new_com_ha_state = .active ∧
    (answers.ntfAttrInit = false ∨ answers.ntfThreadCreate = false)

instance (answers : Answers) (e : CoremwEvent) (s : State) : Decidable (Dropped answers e s) :=
  inferInstanceAs (Decidable (_ ∧ _ ∧ _ ∧ (_ ∨ _)))

def noted (answers : Answers) (e : CoremwEvent) (s : State) : State :=
  match e.event_type with
  | .terminate => { s with stop_thread := true }
  | .haModeAssumed =>
    if e.error = some .MafOk then
      { s with
        maf_com_ha_state := s.maf_new_com_ha_state
        ntf_pthread_isrunning :=
          if s.maf_new_com_ha_state = .active ∧ answers.ntfAttrInit = true ∧ answers.ntfThreadCreate = true then true
          else s.ntf_pthread_isrunning }
    else s
  | _ => s

def answerMode (answers : Answers) (e : CoremwEvent) (s : State) : State :=
  if e.flags = 1 then s.saAmfCSIQuiescingComplete answers e.saf_invokation (response e)
  else s.saAmfResponse_wrapper answers e.saf_invokation (response e)

theorem answerMode_does (e : CoremwEvent) :
    Does (Accepts answers) m (dueOf .haModeAssumed e.saf_invokation e.flags) s (s.answerMode answers e) := by
  unfold answerMode dueOf
  by_cases hflags : e.flags = 1
  · rw [if_pos hflags]
    simp only [if_pos hflags]
    exact saAmfCSIQuiescingComplete_does _
  · rw [if_neg hflags]
    simp only [if_neg hflags]
    exact saAmfResponse_wrapper_does _

theorem maf_coremw_haModeAssumed_event_eq {e : CoremwEvent} (htype : e.event_type = .haModeAssumed) :
    s.maf_coremw_haModeAssumed_event answers e =
      if Dropped answers e s then s.noted answers e else (s.noted answers e).answerMode answers e := by
  unfold maf_coremw_haModeAssumed_event noted Dropped answerMode
  by_cases herror : e.error = some .MafOk
  · by_cases hactive : s.maf_new_com_ha_state = .active
    · by_cases hinit : answers.ntfAttrInit = false
      · simp [htype, herror, hactive, hinit]
      · by_cases hcreate : answers.ntfThreadCreate = false
        · simp [htype, herror, hactive, hcreate]
        · simp [htype, herror, hactive, hinit, hcreate]
    · simp [htype, herror, hactive]
  · simp [htype, herror]

theorem handleEvent_dropped {e : CoremwEvent} (h : Dropped answers e s) :
    s.handleEvent answers e = s.noted answers e := by
  rw [handleEvent, h.1, maf_coremw_haModeAssumed_event_eq h.1, if_pos h]

theorem handleEvent_does {e : CoremwEvent} (hcallbacks : s.maf_acCallbacks = true) (hs : s.ended = none)
    (h : ¬ Dropped answers e s) :
    Does (Accepts answers) m e.due (s.noted answers e) (s.handleEvent answers e) := by
  unfold CoremwEvent.due handleEvent
  cases htype : e.event_type with
  | terminate =>
    simp only [noted, htype]
    exact .refl _
  | haModeAssumed =>
    simp only []
    rw [maf_coremw_haModeAssumed_event_eq htype, if_neg h]
    exact answerMode_does e
  | healthCheckReport =>
    simp only [noted, htype]
    unfold maf_coremw_healthCheckReport_event dueOf
    by_cases hflags : e.flags = 0
    · simp only [if_pos hflags]
      exact saAmfResponse_wrapper_does _
    · simp only [if_neg hflags]
      by_cases hok : answers.saAmfComponentErrorReport = .ok
      · rw [if_pos hok]
        exact .call (.saAmfComponentErrorReport _) (fun _ _ _ => Call.noConfusion) (.refl _)
      · rw [if_neg hok]
        exact .ended .errQuit fun haccepts => hok haccepts.2.2
  | prepareTerminationResponse =>
    simp only [noted, htype]
    have hanswer : Does (Accepts answers) m [.response e.saf_invokation] s
        (s.saAmfResponse_wrapper answers e.saf_invokation (response e)) := saAmfResponse_wrapper_does _
    refine hanswer.andThen hs fun _ => ?_
    simp only [hanswer.frame.maf_acCallbacks.trans hcallbacks, if_true]
    exact .call .terminateProcess (fun _ _ _ => Call.noConfusion) (.refl _)

end State

end ComSA.Availability
