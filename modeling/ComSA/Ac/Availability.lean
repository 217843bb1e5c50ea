import ComSA.Lib.Run
import ComSA.Lib.WakeQueue

/-!
# The availability controller

AMF tells the component what to do, in a thread of the support agent, and COM is asked to do it. COM answers from
threads of its own: the answer is an event that comes into a queue, and the thread handles it later and answers AMF.
-/

namespace ComSA.Availability

/-! ## What is said between AMF, the support agent and COM -/

inductive MafReturn where
  | MafOk
  | MafTryAgain
  | MafNotActive
  | MafFailure
  | MafNotExist
  | MafAlreadyExist
  | MafAborted
  | MafObjectLocked
  | MafPrepareFailed
  | MafCommitFailed
  | MafInvalidArgument
  | MafValidationFailed
  | MafNoResources
  | MafTimeOut
  deriving DecidableEq, Repr

inductive SaAisError where
  | ok
  | tryAgain
  | failedOperation
  | other (code : Nat)
  deriving DecidableEq, Repr

inductive HaMode where
  | unassigned
  | active
  | standby
  deriving DecidableEq, Repr

inductive HaReason where
  | init
  | fail
  | switchover
  deriving DecidableEq, Repr

inductive HaState where
  | active
  | standby
  | quiesced
  | quiescing
  deriving DecidableEq, Repr

inductive Transition where
  | newAssign
  | quiesced
  | notQuiesced
  | stillActive
  deriving DecidableEq, Repr

inductive Recovery where
  | restart
  | failover
  deriving DecidableEq, Repr

inductive CoremwEventType where
  | terminate
  | healthCheckReport
  | haModeAssumed
  | prepareTerminationResponse
  deriving DecidableEq, Repr

/-- COM gets the address of the event, and gives it back with its answer: then the last two fields are written. -/
structure CoremwEvent where
  address : Nat
  event_type : CoremwEventType
  saf_invokation : Nat
  flags : Nat
  error : Option MafReturn := none
  recommendedRecovery : Option Recovery := none
  deriving DecidableEq, Repr

inductive Call where
  | saAmfResponse (inv : Nat) (error : SaAisError)
  | saAmfCSIQuiescingComplete (inv : Nat) (error : SaAisError)
  | saAmfComponentErrorReport (recovery : Recovery)
  | setHaMode (invocation : Nat) (haMode : HaMode) (haReason : HaReason)
  | healthCheck (invocation : Nat)
  | prepareTermination (invocation : Nat)
  | terminateProcess
  | logServicesOpen
  | removeSecretAttrFile
  deriving DecidableEq, Repr

inductive Ending where
  | errQuit
  | assertFailed
  | fault
  deriving DecidableEq, Repr

structure Answers where
  saAmfResponse : Nat → SaAisError := fun _ => .ok
  saAmfCSIQuiescingComplete : SaAisError := .ok
  saAmfComponentErrorReport : SaAisError := .ok
  objImpInit : MafReturn := .MafOk
  ntfAttrInit : Bool := true
  ntfThreadCreate : Bool := true
  attrInit : Bool := true
  threadCreate : Bool := true

inductive Thread where
  | notStarted
  | polling
  /-- The events that it took from the queue and has not handled yet. -/
  | handling (eventq : List CoremwEvent)
  | left
  deriving DecidableEq, Repr

structure State where
  maf_acCallbacks : Bool := false
  maf_com_ha_state : HaMode := .unassigned
  maf_new_com_ha_state : HaMode := .unassigned
  eventq : WakeQueue CoremwEvent := .empty
  amf_pthread : Thread := .notStarted
  stop_thread : Bool := false
  amf_pthread_isrunning : Bool := false
  ntf_pthread_isrunning : Bool := false
  alertalarm : Bool := false
  /-- COM is in `maf_coremw_stop`, and waits for the thread. -/
  joining : Bool := false
  /-- The events whose addresses COM has and has not given back. -/
  held : List CoremwEvent := []
  nextAddress : Nat := 1
  calls : List Call := []
  ended : Option Ending := none
  deriving DecidableEq

namespace State

def andThen (s : State) (f : State → State) : State := if s.ended = none then f s else s

def call (c : Call) (s : State) : State := { s with calls := s.calls ++ [c] }

def endWith (e : Ending) (s : State) : State := { s with ended := some e }

/-! ## Events -/

def AMF_MAX_TRIES : Nat := 10

def SAF_API_CALL (f : Nat → SaAisError) : Nat → Nat → SaAisError
  | 0, i => f i
  | left + 1, i => if f i = .tryAgain then SAF_API_CALL f left (i + 1) else f i

def saAmfResponse_wrapper (answers : Answers) (inv : Nat) (error : SaAisError) (s : State) : State :=
  if SAF_API_CALL answers.saAmfResponse AMF_MAX_TRIES 0 = .ok then s.call (.saAmfResponse inv error)
  else s.endWith .errQuit

def saAmfCSIQuiescingComplete (answers : Answers) (inv : Nat) (error : SaAisError) (s : State) : State :=
  if answers.saAmfCSIQuiescingComplete = .ok then s.call (.saAmfCSIQuiescingComplete inv error) else s.endWith .errQuit

def maf_new_event (event_type : CoremwEventType) (saf_invokation flags : Nat) (s : State) : CoremwEvent × State :=
  ({ address := s.nextAddress, event_type := event_type, saf_invokation := saf_invokation, flags := flags },
    { s with nextAddress := s.nextAddress + 1 })

def maf_event_add (event : CoremwEvent) (s : State) : State := { s with eventq := s.eventq.put event }

/-- The read from the pipe takes up to 16 bytes. -/
def maf_event_getq (s : State) : List CoremwEvent × State :=
  let taken := s.eventq.drain 16
  (taken.1, { s with eventq := taken.2 })

def ask (event_type : CoremwEventType) (saf_invokation flags : Nat) (c : Nat → Call) (s : State) : State :=
  if s.maf_acCallbacks then
    let new := maf_new_event event_type saf_invokation flags s
    { new.2 with held := new.2.held ++ [new.1], calls := new.2.calls ++ [c new.1.address] }
  else s.endWith .fault

def setHaMode (inv flags : Nat) (reason : HaReason) (s : State) : State :=
  s.ask .haModeAssumed inv flags fun invocation => .setHaMode invocation s.maf_new_com_ha_state reason

def healthCheck (inv : Nat) (s : State) : State := s.ask .healthCheckReport inv 0 .healthCheck

def prepareTermination (inv : Nat) (s : State) : State :=
  s.ask .prepareTerminationResponse inv 0 .prepareTermination

/-! ## COM calls -/

def maf_coremw_acInitialize (answers : Answers) (acCallbacks : Bool) (s : State) : State :=
  let s := { s with maf_acCallbacks := acCallbacks }
  if answers.attrInit = false then s
  else if answers.threadCreate = false then s
  else { s with amf_pthread := .polling, amf_pthread_isrunning := true }

def maf_coremw_stop (s : State) : State :=
  let s := { s with ntf_pthread_isrunning := false }
  if s.amf_pthread_isrunning then
    let new := s.maf_new_event .terminate 0 0
    { new.2.maf_event_add new.1 with joining := true }
  else { s with maf_acCallbacks := false }

/-- `maf_coremw_stop` goes on when the thread has come to its end. -/
def maf_coremw_stop_joined (s : State) : State :=
  { s with joining := false, amf_pthread_isrunning := false, maf_acCallbacks := false }

/-- COM answers with the event at an address; the event must be of the type that the answer is for. -/
def answered (event_type : CoremwEventType) (event : CoremwEvent) (error : MafReturn) (recovery : Option Recovery)
    (s : State) : State :=
  if event.event_type ≠ event_type then s.endWith .errQuit
  else s.maf_event_add { event with error := some error, recommendedRecovery := recovery }

def giveBack (invocation : Nat) (f : CoremwEvent → State → State) (s : State) : State :=
  match s.held.find? fun e => e.address = invocation with
  | some event => f event { s with held := s.held.erase event }
  | none => s.endWith .fault

def COM_INITIATED_INVOCATION : Nat := 0

def maf_coremw_healthCheckReport (invocation : Nat) (healthReport : MafReturn) (recovery : Recovery) (s : State) :
    State :=
  if invocation = COM_INITIATED_INVOCATION then
    let new := s.maf_new_event .healthCheckReport 0 1
    new.2.answered .healthCheckReport new.1 healthReport (some recovery)
  else s.giveBack invocation fun event s => s.answered .healthCheckReport event healthReport (some recovery)

def maf_coremw_haModeAssumed (invocation : Nat) (error : MafReturn) (s : State) : State :=
  s.giveBack invocation fun event s => s.answered .haModeAssumed event error event.recommendedRecovery

def maf_coremw_prepareTerminationResponse (invocation : Nat) (error : MafReturn) (s : State) : State :=
  s.giveBack invocation fun event s => s.answered .prepareTerminationResponse event error event.recommendedRecovery

/-! ## AMF calls -/

def newHaMode : HaState → HaMode
  | .active => .active
  | .standby => .standby
  | .quiesced => .unassigned
  | .quiescing => .unassigned

def haReason : HaState → Transition → HaReason
  | .active, .newAssign => .init
  | .active, .notQuiesced => .fail
  | .active, _ => .switchover
  | .standby, _ => .init
  | .quiesced, _ => .switchover
  | .quiescing, _ => .switchover

def assign (ccName : String) (answers : Answers) (inv : Nat) (ha_state : HaState) (s : State) : State :=
  match ha_state with
  | .active =>
    let s := { s with maf_new_com_ha_state := .active }
    let s := if answers.objImpInit = .MafFailure then s.prepareTermination inv else s
    s.andThen fun s =>
      if ccName ≠ "lm" ∧ s.alertalarm = false then { s with alertalarm := true }.call .logServicesOpen else s
  | .standby =>
    let s := if ccName = "com" then s.call .removeSecretAttrFile else s
    { s with maf_new_com_ha_state := .standby }
  | .quiesced =>
    let s := if ccName = "com" then s.call .removeSecretAttrFile else s
    { s with maf_new_com_ha_state := .unassigned }
  | .quiescing =>
    let s := if ccName = "com" then s.call .removeSecretAttrFile else s
    { s with maf_new_com_ha_state := .unassigned }

/-- COM is asked to go to another mode; where it is in that mode, AMF is answered at once. For `quiescing` AMF is
answered at once in any case, and told later that COM is ready. -/
def maf_amf_csi_set_callback (ccName : String) (answers : Answers) (inv : Nat) (ha_state : HaState)
    (transition : Transition) (s : State) : State :=
  (s.assign ccName answers inv ha_state).andThen fun s =>
    if s.maf_acCallbacks = false ∨ s.maf_com_ha_state = s.maf_new_com_ha_state then
      (s.saAmfResponse_wrapper answers inv .ok).andThen fun s =>
        if ha_state = .quiescing then s.saAmfCSIQuiescingComplete answers inv .ok else s
    else if ha_state = .quiescing then
      (s.saAmfResponse_wrapper answers inv .ok).andThen fun s => s.setHaMode inv 1 (haReason ha_state transition)
    else s.setHaMode inv 0 (haReason ha_state transition)

def maf_amf_csi_remove_callback (ccName : String) (answers : Answers) (inv : Nat) (s : State) : State :=
  if s.maf_com_ha_state = .unassigned then s.saAmfResponse_wrapper answers inv .ok
  else s.maf_amf_csi_set_callback ccName answers inv .quiesced .newAssign

def maf_amf_healthcheck_callback (answers : Answers) (inv : Nat) (s : State) : State :=
  if s.maf_acCallbacks = false then s.saAmfResponse_wrapper answers inv .ok else s.healthCheck inv

def maf_amf_comp_terminate_callback (answers : Answers) (inv : Nat) (s : State) : State :=
  if s.maf_acCallbacks = false then (s.saAmfResponse_wrapper answers inv .ok).andThen (endWith .errQuit)
  else s.prepareTermination inv

/-! ## The thread handles events -/

def response (event : CoremwEvent) : SaAisError := if event.error = some .MafOk then .ok else .failedOperation

def maf_coremw_haModeAssumed_event (answers : Answers) (event : CoremwEvent) (s : State) : State :=
  let answer := fun s : State =>
    if event.flags = 1 then s.saAmfCSIQuiescingComplete answers event.saf_invokation (response event)
    else s.saAmfResponse_wrapper answers event.saf_invokation (response event)
  if event.error = some .MafOk then
    let s := { s with maf_com_ha_state := s.maf_new_com_ha_state }
    if s.maf_new_com_ha_state = .active then
      if answers.ntfAttrInit = false then s
      else if answers.ntfThreadCreate = false then s
      else answer { s with ntf_pthread_isrunning := true }
    else answer s
  else answer s

def maf_coremw_healthCheckReport_event (answers : Answers) (event : CoremwEvent) (s : State) : State :=
  if event.flags = 0 then s.saAmfResponse_wrapper answers event.saf_invokation (response event)
  else
    let recover := if event.recommendedRecovery = some .failover then Recovery.failover else .restart
    if answers.saAmfComponentErrorReport = .ok then s.call (.saAmfComponentErrorReport recover)
    else s.endWith .errQuit

def maf_coremw_prepareTerminationResponse_event (answers : Answers) (event : CoremwEvent) (s : State) : State :=
  (s.saAmfResponse_wrapper answers event.saf_invokation (response event)).andThen fun s =>
    if s.maf_acCallbacks then s.call .terminateProcess else s.endWith .assertFailed

def handleEvent (answers : Answers) (event : CoremwEvent) (s : State) : State :=
  match event.event_type with
  | .terminate => { s with stop_thread := true }
  | .haModeAssumed => s.maf_coremw_haModeAssumed_event answers event
  | .healthCheckReport => s.maf_coremw_healthCheckReport_event answers event
  | .prepareTerminationResponse => s.maf_coremw_prepareTerminationResponse_event answers event

def maf_handle_events (s : State) : State :=
  let taken := s.maf_event_getq
  { taken.2 with amf_pthread := .handling taken.1 }

def maf_handle_events_next (answers : Answers) (s : State) : State :=
  match s.amf_pthread with
  | .handling (event :: rest) => { s with amf_pthread := .handling rest }.handleEvent answers event
  | .handling [] => { s with amf_pthread := .polling }
  | _ => s

end State

/-! ## Runs -/

inductive Input where
  | acInitialize (acCallbacks : Bool)
  | stop
  | joined
  | csiSet (inv : Nat) (ha_state : HaState) (transition : Transition)
  | csiRemove (inv : Nat)
  | healthcheck (inv : Nat)
  | compTerminate (inv : Nat)
  | healthCheckReport (invocation : Nat) (healthReport : MafReturn) (recovery : Recovery)
  | haModeAssumed (invocation : Nat) (error : MafReturn)
  | prepareTerminationResponse (invocation : Nat) (error : MafReturn)
  | takeEvents
  | nextEvent
  | leave
  deriving DecidableEq, Repr

open State in
def act (ccName : String) (answers : Answers) (s : State) : Input → State
  | .acInitialize acCallbacks => s.maf_coremw_acInitialize answers acCallbacks
  | .stop => s.maf_coremw_stop
  | .joined => s.maf_coremw_stop_joined
  | .csiSet inv ha_state transition => s.maf_amf_csi_set_callback ccName answers inv ha_state transition
  | .csiRemove inv => s.maf_amf_csi_remove_callback ccName answers inv
  | .healthcheck inv => s.maf_amf_healthcheck_callback answers inv
  | .compTerminate inv => s.maf_amf_comp_terminate_callback answers inv
  | .healthCheckReport invocation report recovery => s.maf_coremw_healthCheckReport invocation report recovery
  | .haModeAssumed invocation error => s.maf_coremw_haModeAssumed invocation error
  | .prepareTerminationResponse invocation error => s.maf_coremw_prepareTerminationResponse invocation error
  | .takeEvents => s.maf_handle_events
  | .nextEvent => s.maf_handle_events_next answers
  | .leave => { s with amf_pthread := .left }

def step (ccName : String) (s : State) (i : Answers × Input) : State := s.andThen fun s => act ccName i.1 s i.2

def State.Polling (s : State) : Prop := s.amf_pthread = .polling ∧ s.stop_thread = false

/-- COM answers with an event that it has, and that was for this answer. -/
def State.MayAnswer (event_type : CoremwEventType) (invocation : Nat) (s : State) : Prop :=
  ∃ e ∈ s.held, e.address = invocation ∧ e.event_type = event_type

/-- Who makes a call may make it. AMF calls in the thread; COM initializes the component when its thread is not there,
and stops it once at a time. -/
def Legal (s : State) : Input → Prop
  | .acInitialize acCallbacks => acCallbacks = true ∧ s.amf_pthread_isrunning = false
  | .stop => s.joining = false
  | .joined => s.joining = true ∧ s.amf_pthread = .left
  | .csiSet _ _ _ => s.Polling
  | .csiRemove _ => s.Polling
  | .healthcheck _ => s.Polling
  | .compTerminate _ => s.Polling
  | .healthCheckReport invocation _ _ =>
    invocation = State.COM_INITIATED_INVOCATION ∨ s.MayAnswer .healthCheckReport invocation
  | .haModeAssumed invocation _ => s.MayAnswer .haModeAssumed invocation
  | .prepareTerminationResponse invocation _ => s.MayAnswer .prepareTerminationResponse invocation
  | .takeEvents => s.Polling ∧ 0 < s.eventq.bytes
  | .nextEvent => ∃ eventq, s.amf_pthread = .handling eventq
  | .leave => s.amf_pthread = .polling ∧ s.stop_thread = true

instance (s : State) : Decidable s.Polling := inferInstanceAs (Decidable (_ ∧ _))

instance (event_type : CoremwEventType) (invocation : Nat) (s : State) :
    Decidable (s.MayAnswer event_type invocation) :=
  inferInstanceAs (Decidable (∃ e ∈ s.held, e.address = invocation ∧ e.event_type = event_type))

instance Thread.decidableHandling : (t : Thread) → Decidable (∃ eventq, t = .handling eventq)
  | .handling eventq => .isTrue ⟨eventq, rfl⟩
  | .notStarted => .isFalse fun ⟨_, h⟩ => Thread.noConfusion h
  | .polling => .isFalse fun ⟨_, h⟩ => Thread.noConfusion h
  | .left => .isFalse fun ⟨_, h⟩ => Thread.noConfusion h

instance (s : State) : (i : Input) → Decidable (Legal s i)
  | .acInitialize _ => inferInstanceAs (Decidable (_ ∧ _))
  | .stop => inferInstanceAs (Decidable (_ = _))
  | .joined => inferInstanceAs (Decidable (_ ∧ _))
  | .csiSet _ _ _ => inferInstanceAs (Decidable s.Polling)
  | .csiRemove _ => inferInstanceAs (Decidable s.Polling)
  | .healthcheck _ => inferInstanceAs (Decidable s.Polling)
  | .compTerminate _ => inferInstanceAs (Decidable s.Polling)
  | .healthCheckReport _ _ _ => inferInstanceAs (Decidable (_ ∨ _))
  | .haModeAssumed invocation _ => inferInstanceAs (Decidable (s.MayAnswer .haModeAssumed invocation))
  | .prepareTerminationResponse invocation _ =>
    inferInstanceAs (Decidable (s.MayAnswer .prepareTerminationResponse invocation))
  | .takeEvents => inferInstanceAs (Decidable (_ ∧ _))
  | .nextEvent => Thread.decidableHandling s.amf_pthread
  | .leave => inferInstanceAs (Decidable (_ ∧ _))

end ComSA.Availability
