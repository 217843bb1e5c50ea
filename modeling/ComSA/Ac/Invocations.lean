import ComSA.Ac.Callbacks
import ComSA.Lib.Ledger
import Mathlib.Data.List.Nodup

/-!
# Every invocation is answered once

`Acts` tells what a step does. No wake-up is lost, the events are handled in the order in which they came, and what
is due for a call of AMF is settled once, or COM has it, or it waits.
-/

namespace ComSA.Availability

/-! ## What a step does -/

def Thread.Runs : Thread → Prop
  | .notStarted => False
  | .polling => True
  | .handling _ => True
  | .left => False

def Input.mode : Input → Option HaMode
  | .csiSet _ ha_state _ => some (State.newHaMode ha_state)
  | .csiRemove _ => some .unassigned
  | _ => none

def Input.due (answers : Answers) : Input → List Due
  | .csiSet inv ha_state _ => State.setDue answers inv ha_state
  | .csiRemove inv => [.response inv]
  | .healthcheck inv => [.response inv]
  | .compTerminate inv => [.response inv, .termination]
  | .healthCheckReport invocation _ _ => if invocation = State.COM_INITIATED_INVOCATION then [.errorReport] else []
  | _ => []

def Input.answer : Input → Option (CoremwEventType × Nat × MafReturn)
  | .healthCheckReport invocation report _ => some (.healthCheckReport, invocation, report)
  | .haModeAssumed invocation error => some (.haModeAssumed, invocation, error)
  | .prepareTerminationResponse invocation error => some (.prepareTerminationResponse, invocation, error)
  | _ => none

def State.terminateEvent (s : State) : CoremwEvent := ⟨s.nextAddress, .terminate, 0, 0, none, none⟩

def State.reportEvent (s : State) (report : MafReturn) (recovery : Recovery) : CoremwEvent :=
  ⟨s.nextAddress, .healthCheckReport, 0, 1, some report, some recovery⟩

def State.givenBack (s : State) (invocation : Nat) (error : MafReturn) (recovery : CoremwEvent → Option Recovery) :
    List CoremwEvent :=
  (s.held.find? fun e => e.address = invocation).toList.map fun e =>
    { e with error := some error, recommendedRecovery := recovery e }

def State.entered (s : State) : Input → List CoremwEvent
  | .stop => if s.amf_pthread_isrunning then [s.terminateEvent] else []
  | .healthCheckReport invocation report recovery =>
    if invocation = State.COM_INITIATED_INVOCATION then [s.reportEvent report recovery]
    else s.givenBack invocation report fun _ => some recovery
  | .haModeAssumed invocation error => s.givenBack invocation error CoremwEvent.recommendedRecovery
  | .prepareTerminationResponse invocation error => s.givenBack invocation error CoremwEvent.recommendedRecovery
  | _ => []

inductive Acts (answers : Answers) (s : State) : Input → State → Prop
  | initialized (hrunning : s.amf_pthread_isrunning = false) :
      Acts answers s (.acInitialize true)
        { s with maf_acCallbacks := true, amf_pthread := .polling, amf_pthread_isrunning := true }
  | notInitialized (hrunning : s.amf_pthread_isrunning = false) :
      Acts answers s (.acInitialize true) { s with maf_acCallbacks := true }
  | stops (hrunning : s.amf_pthread_isrunning = true) :
      Acts answers s .stop
        { s with
          ntf_pthread_isrunning := false
          nextAddress := s.nextAddress + 1
          eventq := s.eventq.put s.terminateEvent
          joining := true }
  | stopped (hrunning : s.amf_pthread_isrunning = false) :
      Acts answers s .stop { s with ntf_pthread_isrunning := false, maf_acCallbacks := false }
  | joined (hleft : s.amf_pthread = .left) : Acts answers s .joined s.maf_coremw_stop_joined
  | called {i : Input} {t : State} (hanswer : i.answer = none) (hentered : s.entered i = []) (hpolling : s.Polling)
      (h : ∀ m, (∀ m', i.mode = some m' → m = m') → Does (Accepts answers) m (i.due answers) s t) : Acts answers s i t
  | answered {i : Input} {e : CoremwEvent} {error : MafReturn} (recovery : Option Recovery)
      (hi : i.answer = some (e.event_type, e.address, error)) (hdue : i.due answers = []) (he : e ∈ s.held)
      (hentered : s.entered i = [{ e with error := some error, recommendedRecovery := recovery }]) :
      Acts answers s i
        { s with
          held := s.held.erase e
          eventq := s.eventq.put { e with error := some error, recommendedRecovery := recovery } }
  | reported (report : MafReturn) (recovery : Recovery) :
      Acts answers s (.healthCheckReport State.COM_INITIATED_INVOCATION report recovery)
        { s with nextAddress := s.nextAddress + 1, eventq := s.eventq.put (s.reportEvent report recovery) }
  | taken (hpolling : s.Polling) :
      Acts answers s .takeEvents
        { s with eventq := (s.eventq.drain 16).2, amf_pthread := .handling s.eventq.items }
  | handled {e : CoremwEvent} {rest : List CoremwEvent} (hthread : s.amf_pthread = .handling (e :: rest)) :
      Acts answers s .nextEvent (State.handleEvent answers e { s with amf_pthread := .handling rest })
  | handledAll (hthread : s.amf_pthread = .handling []) :
      Acts answers s .nextEvent { s with amf_pthread := .polling }
  | left (hthread : s.amf_pthread = .polling) : Acts answers s .leave { s with amf_pthread := .left }

theorem Input.exists_mode (i : Input) : ∃ m, ∀ m', i.mode = some m' → m = m' := by
  cases h : i.mode with
  | none => exact ⟨.unassigned, by simp⟩
  | some m => exact ⟨m, fun _ h' => Option.some.inj h'⟩

structure Kept (s : State) : Prop where
  callbacks : s.amf_pthread.Runs → s.maf_acCallbacks = true
  running : s.amf_pthread.Runs → s.amf_pthread_isrunning = true
  woken : s.eventq.Woken
  below : ∀ e ∈ s.held, e.address < s.nextAddress
  distinct : (s.held.map CoremwEvent.address).Nodup

theorem kept_start : Kept {} :=
  ⟨fun h => h.elim, fun h => h.elim, WakeQueue.empty_woken, fun _ he => absurd he List.not_mem_nil, List.nodup_nil⟩

theorem Kept.find {s : State} (h : Kept s) {e : CoremwEvent} (he : e ∈ s.held) :
    (s.held.find? fun e' => e'.address = e.address) = some e := by
  cases hfound : s.held.find? fun e' => e'.address = e.address with
  | none => exact absurd (decide_eq_true rfl) (List.find?_eq_none.mp hfound e he)
  | some e' =>
    have he' := List.mem_of_find?_eq_some hfound
    have haddress : e'.address = e.address := by simpa using List.find?_some hfound
    rw [List.inj_on_of_nodup_map h.distinct he' he haddress]

theorem Kept.givenBack {s : State} (h : Kept s) {e : CoremwEvent} (he : e ∈ s.held) (error : MafReturn)
    (recovery : CoremwEvent → Option Recovery) :
    s.givenBack e.address error recovery =
      [{ e with error := some error, recommendedRecovery := recovery e }] := by
  rw [State.givenBack, h.find he]
  rfl

theorem Kept.giveBack {s : State} (h : Kept s) {e : CoremwEvent} (he : e ∈ s.held) {event_type : CoremwEventType}
    (htype : e.event_type = event_type) (error : MafReturn) (recovery : CoremwEvent → Option Recovery) :
    (s.giveBack e.address fun event s => s.answered event_type event error (recovery event)) =
      { s with
        held := s.held.erase e
        eventq := s.eventq.put { e with error := some error, recommendedRecovery := recovery e } } := by
  unfold State.giveBack
  rw [h.find he]
  simp only [State.answered, htype, ne_eq, not_true_eq_false, if_false]
  rfl

theorem State.maf_coremw_acInitialize_acts {answers : Answers} {s : State}
    (hrunning : s.amf_pthread_isrunning = false) :
    Acts answers s (.acInitialize true) (s.maf_coremw_acInitialize answers true) := by
  unfold maf_coremw_acInitialize
  dsimp only
  split
  · exact .notInitialized hrunning
  · split
    · exact .notInitialized hrunning
    · exact .initialized hrunning

theorem State.maf_coremw_stop_acts {answers : Answers} {s : State} :
    Acts answers s .stop s.maf_coremw_stop := by
  unfold maf_coremw_stop
  dsimp only
  by_cases hrunning : s.amf_pthread_isrunning = true
  · rw [if_pos hrunning]
    exact .stops hrunning
  · rw [if_neg hrunning]
    exact .stopped (eq_false_of_ne_true hrunning)

theorem act_acts {ccName : String} {answers : Answers} {s : State} {i : Input} (h : Kept s) (hs : s.ended = none)
    (hlegal : Legal s i) : Acts answers s i (act ccName answers s i) := by
  cases i with
  | acInitialize acCallbacks =>
    obtain ⟨rfl, hrunning⟩ := hlegal
    exact State.maf_coremw_acInitialize_acts hrunning
  | stop => exact State.maf_coremw_stop_acts
  | joined => exact .joined hlegal.2
  | csiSet inv ha_state transition =>
    have hcallbacks := h.callbacks (by rw [hlegal.1]; trivial)
    refine .called rfl rfl hlegal fun m hm => ?_
    rw [hm _ rfl]
    exact State.maf_amf_csi_set_callback_does ccName ha_state transition hs hcallbacks
  | csiRemove inv =>
    have hcallbacks := h.callbacks (by rw [hlegal.1]; trivial)
    refine .called rfl rfl hlegal fun m hm => ?_
    rw [hm _ rfl]
    exact State.maf_amf_csi_remove_callback_does ccName hs hcallbacks
  | healthcheck inv =>
    have hcallbacks := h.callbacks (by rw [hlegal.1]; trivial)
    exact .called rfl rfl hlegal fun _ _ => State.maf_amf_healthcheck_callback_does hcallbacks
  | compTerminate inv =>
    have hcallbacks := h.callbacks (by rw [hlegal.1]; trivial)
    exact .called rfl rfl hlegal fun _ _ => State.maf_amf_comp_terminate_callback_does hcallbacks
  | healthCheckReport invocation report recovery =>
    by_cases hown : invocation = State.COM_INITIATED_INVOCATION
    · rw [hown]
      exact .reported report recovery
    · obtain ⟨e, he, rfl, htype⟩ := hlegal.resolve_left hown
      have hanswer : (Input.healthCheckReport e.address report recovery).answer =
          some (e.event_type, e.address, report) := by
        rw [htype]
        rfl
      have hdue : (Input.healthCheckReport e.address report recovery).due answers = [] := if_neg hown
      simp only [act, State.maf_coremw_healthCheckReport, if_neg hown,
        h.giveBack he htype report fun _ => some recovery]
      refine .answered _ hanswer hdue he ?_
      rw [State.entered, if_neg hown]
      exact h.givenBack he report fun _ => some recovery
  | haModeAssumed invocation error =>
    obtain ⟨e, he, rfl, htype⟩ := hlegal
    have hanswer : (Input.haModeAssumed e.address error).answer = some (e.event_type, e.address, error) := by
      rw [htype]
      rfl
    simp only [act, State.maf_coremw_haModeAssumed, h.giveBack he htype error CoremwEvent.recommendedRecovery]
    exact .answered _ hanswer rfl he (h.givenBack he error CoremwEvent.recommendedRecovery)
  | prepareTerminationResponse invocation error =>
    obtain ⟨e, he, rfl, htype⟩ := hlegal
    have hanswer : (Input.prepareTerminationResponse e.address error).answer =
        some (e.event_type, e.address, error) := by
      rw [htype]
      rfl
    simp only [act, State.maf_coremw_prepareTerminationResponse,
      h.giveBack he htype error CoremwEvent.recommendedRecovery]
    exact .answered _ hanswer rfl he (h.givenBack he error CoremwEvent.recommendedRecovery)
  | takeEvents => exact .taken hlegal.1
  | nextEvent =>
    obtain ⟨eventq, hthread⟩ := hlegal
    unfold act State.maf_handle_events_next
    cases eventq with
    | nil =>
      rw [hthread]
      exact .handledAll hthread
    | cons e rest =>
      rw [hthread]
      exact .handled hthread
  | leave => exact .left hlegal.1

/-! ## What every step keeps -/

theorem State.ask_kept {s : State} (h : Kept s) (hcallbacks : s.maf_acCallbacks = true)
    (event_type : CoremwEventType) (inv flags : Nat) (c : Nat → Call) : Kept (s.ask event_type inv flags c) := by
  rw [State.ask_eq hcallbacks]
  refine ⟨h.callbacks, h.running, h.woken, fun e he => ?_, ?_⟩
  · rcases List.mem_append.mp he with he | he
    · exact Nat.lt_succ_of_lt (h.below e he)
    · rw [List.mem_singleton.mp he]
      exact Nat.lt_succ_self _
  · rw [List.map_append]
    refine List.nodup_append'.mpr ⟨h.distinct, List.nodup_singleton _, fun a ha ha' => ?_⟩
    obtain ⟨e, he, rfl⟩ := List.mem_map.mp ha
    exact Nat.lt_irrefl _ (List.mem_singleton.mp ha' ▸ h.below e he)

theorem Does.kept {accepts : Prop} {m : HaMode} {ds : List Due} {s t : State} (h : Does accepts m ds s t)
    (hs : Kept s) : Kept t := by
  induction h with
  | refl s => exact hs
  | call c hmode _ ih => exact ih ⟨hs.callbacks, hs.running, hs.woken, hs.below, hs.distinct⟩
  | setHaMode inv flags reason hcallbacks hmode hother _ ih => exact ih (State.ask_kept hs hcallbacks _ _ _ _)
  | healthCheck inv hcallbacks _ ih => exact ih (State.ask_kept hs hcallbacks _ _ _ _)
  | prepareTermination inv hcallbacks _ ih => exact ih (State.ask_kept hs hcallbacks _ _ _ _)
  | newMode _ ih => exact ih ⟨hs.callbacks, hs.running, hs.woken, hs.below, hs.distinct⟩
  | alarm _ ih => exact ih ⟨hs.callbacks, hs.running, hs.woken, hs.below, hs.distinct⟩
  | ended e hends => exact ⟨hs.callbacks, hs.running, hs.woken, hs.below, hs.distinct⟩

theorem State.noted_eq (answers : Answers) (e : CoremwEvent) (s : State) :
    ∃ m n b, s.noted answers e =
      { s with maf_com_ha_state := m, ntf_pthread_isrunning := n, stop_thread := b } := by
  unfold noted
  cases e.event_type with
  | terminate => exact ⟨_, _, _, rfl⟩
  | haModeAssumed =>
    dsimp only
    split
    · exact ⟨_, _, _, rfl⟩
    · exact ⟨s.maf_com_ha_state, s.ntf_pthread_isrunning, s.stop_thread, rfl⟩
  | healthCheckReport => exact ⟨s.maf_com_ha_state, s.ntf_pthread_isrunning, s.stop_thread, rfl⟩
  | prepareTerminationResponse => exact ⟨s.maf_com_ha_state, s.ntf_pthread_isrunning, s.stop_thread, rfl⟩

theorem State.noted_kept {answers : Answers} {e : CoremwEvent} {s : State} (h : Kept s) :
    Kept (s.noted answers e) := by
  obtain ⟨m, n, b, heq⟩ := State.noted_eq answers e s
  rw [heq]
  exact ⟨h.callbacks, h.running, h.woken, h.below, h.distinct⟩

theorem State.noted_balance (answers : Answers) (e : CoremwEvent) (s : State) (d : Due) :
    (s.noted answers e).balance d = s.balance d := by
  obtain ⟨m, n, b, heq⟩ := State.noted_eq answers e s
  rw [heq]
  rfl

theorem State.noted_line (answers : Answers) (e : CoremwEvent) (s : State) : (s.noted answers e).line = s.line := by
  obtain ⟨m, n, b, heq⟩ := State.noted_eq answers e s
  rw [heq]
  rfl

theorem State.noted_ended (answers : Answers) (e : CoremwEvent) (s : State) :
    (s.noted answers e).ended = s.ended := by
  obtain ⟨m, n, b, heq⟩ := State.noted_eq answers e s
  rw [heq]

theorem State.handleEvent_kept {answers : Answers} {e : CoremwEvent} {s : State} (h : Kept s)
    (hcallbacks : s.maf_acCallbacks = true) (hs : s.ended = none) : Kept (s.handleEvent answers e) := by
  by_cases hdropped : Dropped answers e s
  · rw [State.handleEvent_dropped hdropped]
    exact State.noted_kept h
  · have hdoes : Does (Accepts answers) .unassigned e.due (s.noted answers e) (s.handleEvent answers e) :=
      State.handleEvent_does hcallbacks hs hdropped
    exact hdoes.kept (State.noted_kept h)

theorem Acts.kept {answers : Answers} {s t : State} {i : Input} (h : Acts answers s i t) (hs : Kept s)
    (hended : s.ended = none) : Kept t := by
  cases h with
  | initialized hrunning => exact ⟨fun _ => rfl, fun _ => rfl, hs.woken, hs.below, hs.distinct⟩
  | notInitialized hrunning => exact ⟨fun _ => rfl, hs.running, hs.woken, hs.below, hs.distinct⟩
  | stops hrunning =>
    exact ⟨hs.callbacks, hs.running, hs.woken.put _, fun e he => Nat.lt_succ_of_lt (hs.below e he), hs.distinct⟩
  | stopped hrunning =>
    refine ⟨fun hruns => ?_, hs.running, hs.woken, hs.below, hs.distinct⟩
    exact absurd ((hs.running hruns).symm.trans hrunning) (by decide)
  | joined hleft =>
    have hruns : ¬ s.maf_coremw_stop_joined.amf_pthread.Runs := by
      show ¬ s.amf_pthread.Runs
      rw [hleft]
      exact id
    exact ⟨fun h => absurd h hruns, fun h => absurd h hruns, hs.woken, hs.below, hs.distinct⟩
  | called hanswer hentered hpolling h =>
    obtain ⟨m, hm⟩ := i.exists_mode
    exact (h m hm).kept hs
  | answered recovery hi hdue he hentered =>
    refine ⟨hs.callbacks, hs.running, hs.woken.put _, fun e' he' => hs.below e' (List.mem_of_mem_erase he'), ?_⟩
    exact hs.distinct.sublist (List.erase_sublist.map _)
  | reported report recovery =>
    exact ⟨hs.callbacks, hs.running, hs.woken.put _, fun e he => Nat.lt_succ_of_lt (hs.below e he), hs.distinct⟩
  | taken hpolling =>
    have hruns : s.amf_pthread.Runs := by
      rw [hpolling.1]
      trivial
    exact ⟨fun _ => hs.callbacks hruns, fun _ => hs.running hruns, hs.woken.drain (by decide), hs.below, hs.distinct⟩
  | handled hthread =>
    have hruns : s.amf_pthread.Runs := by
      rw [hthread]
      trivial
    refine State.handleEvent_kept ⟨fun _ => hs.callbacks hruns, fun _ => hs.running hruns, hs.woken, hs.below,
      hs.distinct⟩ (hs.callbacks hruns) hended
  | handledAll hthread =>
    have hruns : s.amf_pthread.Runs := by
      rw [hthread]
      trivial
    exact ⟨fun _ => hs.callbacks hruns, fun _ => hs.running hruns, hs.woken, hs.below, hs.distinct⟩
  | left hthread => exact ⟨fun h => h.elim, fun h => h.elim, hs.woken, hs.below, hs.distinct⟩

/-! ## What is due -/

namespace State

def droppedDue (s : State) (i : Answers × Input) : List Due :=
  match i.2, s.amf_pthread with
  | .nextEvent, .handling (e :: _) => if Dropped i.1 e s then e.due else []
  | _, _ => []

theorem droppedDue_of_ne {s : State} {answers : Answers} {i : Input} (h : i ≠ .nextEvent) :
    s.droppedDue (answers, i) = [] := by
  cases i with
  | nextEvent => exact absurd rfl h
  | _ => rfl

theorem droppedDue_of_polling {s : State} {answers : Answers} {i : Input} (h : s.amf_pthread = .polling) :
    s.droppedDue (answers, i) = [] := by
  unfold droppedDue
  rw [h]
  cases i <;> rfl

theorem batch_handling {s : State} {es : List CoremwEvent} (h : s.amf_pthread = .handling es) : s.batch = es := by
  rw [batch, h]

theorem batch_polling {s : State} (h : s.amf_pthread = .polling) : s.batch = [] := by
  rw [batch, h]

theorem balance_congr {s t : State} {d : Due} (hcalls : t.calls = s.calls) (hpending : t.pending.Perm s.pending) :
    t.balance d = s.balance d := by
  rw [balance, balance, settled, settled, hcalls, (hpending.flatMap_right _).count_eq]

theorem balance_add {s t : State} {e : CoremwEvent} {d : Due} (hcalls : t.calls = s.calls)
    (hpending : t.pending.Perm (e :: s.pending)) : t.balance d = s.balance d + e.due.count d := by
  rw [balance, balance, settled, settled, hcalls, (hpending.flatMap_right _).count_eq, List.flatMap_cons,
    List.count_append]
  omega

end State

theorem pending_put {s t : State} {e : CoremwEvent} (hheld : t.held = s.held) (hthread : t.amf_pthread = s.amf_pthread)
    (heventq : t.eventq = s.eventq.put e) : t.pending.Perm (e :: s.pending) := by
  have hbatch : t.batch = s.batch := by rw [State.batch, State.batch, hthread]
  have hall : t.pending = s.pending ++ [e] := by
    rw [State.pending, State.line, hheld, hbatch, heventq, WakeQueue.put_items, State.pending, State.line,
      List.append_assoc, List.append_assoc]
  rw [hall]
  exact List.perm_append_singleton e s.pending

theorem State.batch_of_not_runs {s : State} (h : ¬ s.amf_pthread.Runs) : s.batch = [] := by
  unfold batch
  split
  · next hthread => exact absurd (by rw [hthread]; trivial) h
  · rfl

theorem balance_moved {answers : Answers} {s t : State} {i : Input} {d : Due}
    (hdropped : s.droppedDue (answers, i) = []) (hdue : i.due answers = []) (hcalls : t.calls = s.calls)
    (hpending : t.pending.Perm s.pending) :
    t.balance d + (s.droppedDue (answers, i)).count d = s.balance d + (i.due answers).count d := by
  rw [hdropped, hdue, State.balance_congr hcalls hpending]

theorem balance_put {answers : Answers} {s t : State} {i : Input} {d : Due} {e : CoremwEvent}
    (hdropped : s.droppedDue (answers, i) = []) (hdue : i.due answers = e.due) (hcalls : t.calls = s.calls)
    (hheld : t.held = s.held) (hthread : t.amf_pthread = s.amf_pthread) (heventq : t.eventq = s.eventq.put e) :
    t.balance d + (s.droppedDue (answers, i)).count d = s.balance d + (i.due answers).count d := by
  rw [hdropped, hdue, State.balance_add hcalls (pending_put hheld hthread heventq), List.count_nil, Nat.add_zero]

theorem State.handleEvent_balance {answers : Answers} {e : CoremwEvent} {s : State}
    {d : Due} (hcallbacks : s.maf_acCallbacks = true) (hs : s.ended = none)
    (ht : (s.handleEvent answers e).ended = none) :
    (s.handleEvent answers e).balance d + (if Dropped answers e s then e.due else []).count d =
      s.balance d + e.due.count d := by
  by_cases hdropped : Dropped answers e s
  · rw [if_pos hdropped, State.handleEvent_dropped hdropped, State.noted_balance]
  · have hdoes : Does (Accepts answers) .unassigned e.due (s.noted answers e) (s.handleEvent answers e) :=
      State.handleEvent_does hcallbacks hs hdropped
    rw [if_neg hdropped, hdoes.balance ht, State.noted_balance, List.count_nil, Nat.add_zero]

theorem Acts.balance {answers : Answers} {s t : State} {i : Input} (h : Acts answers s i t) (hs : Kept s)
    (hended : s.ended = none) (ht : t.ended = none) (d : Due) :
    t.balance d + (s.droppedDue (answers, i)).count d = s.balance d + (i.due answers).count d := by
  cases h with
  | initialized hrunning =>
    have hbatch : s.batch = [] := State.batch_of_not_runs fun hruns =>
      absurd ((hs.running hruns).symm.trans hrunning) (by decide)
    refine balance_moved rfl rfl rfl (List.Perm.of_eq ?_)
    rw [State.pending, State.pending, State.line, State.line, hbatch]
    rfl
  | notInitialized hrunning => rfl
  | stops hrunning => exact balance_put rfl rfl rfl rfl rfl rfl
  | stopped hrunning => rfl
  | joined hleft => rfl
  | called hanswer hentered hpolling h =>
    obtain ⟨m, hm⟩ := i.exists_mode
    rw [State.droppedDue_of_polling hpolling.1, (h m hm).balance ht, List.count_nil, Nat.add_zero]
  | @answered i e error recovery hi hdue he hentered =>
    have hnext : i ≠ .nextEvent := by
      rintro rfl
      cases hi
    let given : State := { s with held := s.held.erase e }
    have hgiven : s.balance d = given.balance d + e.due.count d :=
      State.balance_add rfl ((List.perm_cons_erase he).append_right _)
    let answer : CoremwEvent := { e with error := some error, recommendedRecovery := recovery }
    have hsame : answer.due = e.due := rfl
    rw [State.droppedDue_of_ne hnext, hdue, hgiven, List.count_nil, Nat.add_zero, Nat.add_zero, ← hsame]
    exact State.balance_add rfl (pending_put (s := given) rfl rfl rfl)
  | reported report recovery => exact balance_put rfl rfl rfl rfl rfl rfl
  | taken hpolling =>
    refine balance_moved rfl rfl rfl (List.Perm.of_eq ?_)
    rw [State.pending, State.pending, State.line, State.line, State.batch_polling hpolling.1]
    simp [State.batch]
  | @handled e rest hthread =>
    let taken : State := { s with amf_pthread := .handling rest }
    have hcallbacks := hs.callbacks (by rw [hthread]; trivial)
    have hrest : s.balance d = taken.balance d + e.due.count d := by
      refine State.balance_add rfl ?_
      rw [State.pending, State.pending, State.line, State.line, State.batch_handling hthread, List.cons_append]
      exact List.perm_middle
    have hdropped : s.droppedDue (answers, .nextEvent) = if State.Dropped answers e taken then e.due else [] := by
      unfold State.droppedDue
      rw [hthread]
      rfl
    rw [hdropped, hrest]
    exact State.handleEvent_balance hcallbacks hended ht
  | handledAll hthread =>
    have hdropped : s.droppedDue (answers, .nextEvent) = [] := by
      unfold State.droppedDue
      rw [hthread]
    refine balance_moved hdropped rfl rfl (List.Perm.of_eq ?_)
    rw [State.pending, State.pending, State.line, State.line, State.batch_handling hthread]
    rfl
  | left hthread =>
    refine balance_moved rfl rfl rfl (List.Perm.of_eq ?_)
    rw [State.pending, State.pending, State.line, State.line, State.batch_polling hthread]
    rfl

/-! ## The order of events -/

def State.handledBy (s : State) (i : Input) : List CoremwEvent :=
  match i, s.amf_pthread with
  | .nextEvent, .handling (e :: _) => [e]
  | _, _ => []

theorem State.handledBy_of_polling {s : State} {i : Input} (h : s.amf_pthread = .polling) : s.handledBy i = [] := by
  unfold handledBy
  rw [h]
  cases i <;> rfl

theorem State.handledBy_of_ne {s : State} {i : Input} (h : i ≠ .nextEvent) : s.handledBy i = [] := by
  cases i with
  | nextEvent => exact absurd rfl h
  | _ => rfl

theorem State.handleEvent_line {answers : Answers} {e : CoremwEvent} {s : State} (hcallbacks : s.maf_acCallbacks = true)
    (hs : s.ended = none) : (s.handleEvent answers e).line = s.line := by
  by_cases hdropped : Dropped answers e s
  · rw [State.handleEvent_dropped hdropped, State.noted_line]
  · have hdoes : Does (Accepts answers) .unassigned e.due (s.noted answers e) (s.handleEvent answers e) :=
      State.handleEvent_does hcallbacks hs hdropped
    rw [hdoes.frame.line, State.noted_line]

theorem line_put {s t : State} {e : CoremwEvent} (hthread : t.amf_pthread = s.amf_pthread)
    (heventq : t.eventq = s.eventq.put e) : t.line = s.line ++ [e] := by
  have hbatch : t.batch = s.batch := by rw [State.batch, State.batch, hthread]
  rw [State.line, State.line, hbatch, heventq, WakeQueue.put_items, List.append_assoc]

theorem line_moved {s t : State} {i : Input} (hhandled : s.handledBy i = []) (hentered : s.entered i = [])
    (hline : t.line = s.line) : s.handledBy i ++ t.line = s.line ++ s.entered i := by
  rw [hhandled, hentered, hline, List.nil_append, List.append_nil]

theorem Acts.line {answers : Answers} {s t : State} {i : Input} (h : Acts answers s i t) (hs : Kept s)
    (hended : s.ended = none) : s.handledBy i ++ t.line = s.line ++ s.entered i := by
  cases h with
  | initialized hrunning =>
    have hbatch : s.batch = [] := State.batch_of_not_runs fun hruns =>
      absurd ((hs.running hruns).symm.trans hrunning) (by decide)
    refine line_moved rfl rfl ?_
    rw [State.line, State.line, hbatch]
    rfl
  | notInitialized hrunning => exact (List.append_nil _).symm
  | stops hrunning =>
    rw [State.entered, if_pos hrunning]
    exact line_put rfl rfl
  | stopped hrunning =>
    rw [State.entered, if_neg (by rw [hrunning]; exact Bool.false_ne_true), List.append_nil]
    rfl
  | joined hleft => exact (List.append_nil _).symm
  | called hanswer hentered hpolling h =>
    obtain ⟨m, hm⟩ := i.exists_mode
    rw [State.handledBy_of_polling hpolling.1, hentered, (h m hm).frame.line, List.nil_append, List.append_nil]
  | @answered i e error recovery hi hdue he hentered =>
    have hnext : i ≠ .nextEvent := by
      rintro rfl
      cases hi
    rw [State.handledBy_of_ne hnext, hentered, List.nil_append]
    exact line_put rfl rfl
  | reported report recovery =>
    rw [State.entered, if_pos rfl]
    exact line_put rfl rfl
  | taken hpolling =>
    refine line_moved rfl rfl ?_
    rw [State.line, State.line, State.batch_polling hpolling.1]
    exact List.append_nil _
  | @handled e rest hthread =>
    have hcallbacks := hs.callbacks (by rw [hthread]; trivial)
    have hhandled : s.handledBy .nextEvent = [e] := by
      unfold State.handledBy
      rw [hthread]
    have hline : (State.handleEvent answers e { s with amf_pthread := .handling rest }).line =
        rest ++ s.eventq.items := State.handleEvent_line hcallbacks hended
    have hentered : s.entered .nextEvent = [] := rfl
    rw [hhandled, hline, hentered, List.append_nil, State.line, State.batch_handling hthread]
    rfl
  | handledAll hthread =>
    have hhandled : s.handledBy .nextEvent = [] := by
      unfold State.handledBy
      rw [hthread]
    refine line_moved hhandled rfl ?_
    rw [State.line, State.line, State.batch_handling hthread]
    rfl
  | left hthread =>
    refine line_moved rfl rfl ?_
    rw [State.line, State.line, State.batch_polling hthread]
    rfl

/-! ## Runs -/

section
variable (ccName : String)

def Fine (s : State) (i : Answers × Input) : Prop := Legal s i.2 ∧ (step ccName s i).ended = none

def Alive (s : State) : Prop := Kept s ∧ s.ended = none

theorem alive_start : Alive {} := ⟨kept_start, rfl⟩

variable {ccName}

theorem step_eq {s : State} (hs : s.ended = none) (i : Answers × Input) :
    step ccName s i = act ccName i.1 s i.2 := if_pos hs

theorem Alive.acts {s : State} {i : Answers × Input} (h : Alive s) (hlegal : Legal s i.2) :
    Acts i.1 s i.2 (step ccName s i) := by
  rw [step_eq h.2]
  exact act_acts h.1 h.2 hlegal

theorem Alive.step {s : State} {i : Answers × Input} (h : Alive s) (hfine : Fine ccName s i) :
    Alive (step ccName s i) := ⟨(h.acts hfine.1).kept h.1 h.2, hfine.2⟩

theorem step_ended {s : State} {i : Answers × Input} (h : (step ccName s i).ended = none) : s.ended = none := by
  by_contra hs
  rw [step, State.andThen, if_neg hs] at h
  exact hs h

theorem fine_of_legal {s : State} {is : List (Answers × Input)} (h : Along (step ccName) (fun s i => Legal s i.2) s is)
    (hlast : (is.foldl (step ccName) s).ended = none) : Along (step ccName) (Fine ccName) s is :=
  h.and_next (I := fun s : State => s.ended = none) (fun _ _ => step_ended) hlast

theorem Acts.goesOn {answers : Answers} {s t : State} {i : Input} (h : Acts answers s i t) (hs : Kept s)
    (hended : s.ended = none) (haccepts : Accepts answers) : t.ended = none := by
  cases h with
  | called hanswer hentered hpolling h =>
    obtain ⟨m, hm⟩ := i.exists_mode
    exact (h m hm).goesOn hended haccepts
  | @handled e rest hthread =>
    let taken : State := { s with amf_pthread := .handling rest }
    have hcallbacks := hs.callbacks (by rw [hthread]; trivial)
    by_cases hdropped : State.Dropped answers e taken
    · rw [State.handleEvent_dropped hdropped, State.noted_ended]
      exact hended
    · have hdoes : Does (Accepts answers) .unassigned e.due (taken.noted answers e) (taken.handleEvent answers e) :=
        State.handleEvent_does hcallbacks hended hdropped
      exact hdoes.goesOn ((State.noted_ended _ _ _).trans hended) haccepts
  | _ => exact hended

variable (ccName) in
theorem Alive.goesOn {s : State} {i : Answers × Input} (h : Alive s) (hlegal : Legal s i.2)
    (haccepts : Accepts i.1) : Alive (ComSA.Availability.step ccName s i) :=
  h.step ⟨hlegal, (h.acts hlegal).goesOn h.1 h.2 haccepts⟩

theorem State.handleEvent_frame {answers : Answers} {e : CoremwEvent} {s : State}
    (hcallbacks : s.maf_acCallbacks = true) (hs : s.ended = none) :
    (s.handleEvent answers e).amf_pthread = s.amf_pthread ∧ (s.handleEvent answers e).eventq = s.eventq := by
  obtain ⟨m, n, b, heq⟩ := State.noted_eq answers e s
  by_cases hdropped : Dropped answers e s
  · rw [State.handleEvent_dropped hdropped, heq]
    exact ⟨rfl, rfl⟩
  · have hdoes : Does (Accepts answers) .unassigned e.due (s.noted answers e) (s.handleEvent answers e) :=
      State.handleEvent_does hcallbacks hs hdropped
    rw [hdoes.frame.amf_pthread, hdoes.frame.eventq, heq]
    exact ⟨rfl, rfl⟩

/-- By induction on the events that the thread has: it handles them and comes back to the poll. -/
theorem Alive.handles {s : State} {es : List CoremwEvent} (h : Alive s) (hthread : s.amf_pthread = .handling es)
    {as : List Answers} (hlength : as.length = es.length + 1) (haccepts : ∀ a ∈ as, Accepts a) :
    let is := as.map fun a => (a, Input.nextEvent)
    Along (ComSA.Availability.step ccName) (fun s i => Legal s i.2) s is ∧
      Alive (is.foldl (ComSA.Availability.step ccName) s) ∧
      (is.foldl (ComSA.Availability.step ccName) s).amf_pthread = .polling ∧
      (is.foldl (ComSA.Availability.step ccName) s).eventq = s.eventq := by
  induction es generalizing s as with
  | nil =>
    obtain ⟨a, rfl⟩ := List.length_eq_one_iff.mp hlength
    have hlegal : Legal s .nextEvent := ⟨[], hthread⟩
    have hnext : ComSA.Availability.step ccName s (a, .nextEvent) = { s with amf_pthread := .polling } := by
      rw [step_eq h.2, act, State.maf_handle_events_next, hthread]
    refine ⟨⟨hlegal, trivial⟩, h.goesOn ccName (i := (a, .nextEvent)) hlegal (haccepts a List.mem_cons_self), ?_, ?_⟩
    · rw [List.map_cons, List.map_nil, List.foldl_cons, List.foldl_nil, hnext]
    · rw [List.map_cons, List.map_nil, List.foldl_cons, List.foldl_nil, hnext]
  | cons e rest ih =>
    obtain ⟨a, as, rfl⟩ := List.exists_cons_of_length_pos (by omega : 0 < as.length)
    have hlegal : Legal s .nextEvent := ⟨e :: rest, hthread⟩
    have hcallbacks := h.1.callbacks (by rw [hthread]; trivial)
    have hnext : ComSA.Availability.step ccName s (a, .nextEvent) =
        State.handleEvent a e { s with amf_pthread := .handling rest } := by
      rw [step_eq h.2, act, State.maf_handle_events_next, hthread]
    have hframe : (State.handleEvent a e { s with amf_pthread := .handling rest }).amf_pthread = .handling rest ∧
        (State.handleEvent a e { s with amf_pthread := .handling rest }).eventq = s.eventq :=
      State.handleEvent_frame hcallbacks h.2
    rw [← hnext] at hframe
    have halive := h.goesOn ccName (i := (a, .nextEvent)) hlegal (haccepts a List.mem_cons_self)
    obtain ⟨halong, hlast, hpolling, heventq⟩ := ih halive hframe.1 (by simpa using hlength)
      fun a ha => haccepts a (List.mem_cons_of_mem _ ha)
    exact ⟨⟨hlegal, halong⟩, hlast, hpolling, heventq.trans hframe.2⟩

def State.Stopped (s : State) : Prop := s.stop_thread = true ∧ s.batch = []

instance (s : State) : Decidable s.Stopped := inferInstanceAs (Decidable (_ ∧ _))

theorem Acts.staysStopped {answers : Answers} {s t : State} {i : Input} (h : Acts answers s i t) (hstopped : s.Stopped)
    (hended : s.ended = none) : t.Stopped ∧ t.calls = s.calls ∧ t.ended = none := by
  have hpolling : ¬ s.Polling := fun h => absurd (hstopped.1.symm.trans h.2) (by decide)
  cases h with
  | initialized hrunning => exact ⟨⟨hstopped.1, rfl⟩, rfl, hended⟩
  | called hanswer hentered hpoll h => exact absurd hpoll hpolling
  | taken hpoll => exact absurd hpoll hpolling
  | handled hthread => exact absurd ((State.batch_handling hthread).symm.trans hstopped.2) (List.cons_ne_nil _ _)
  | handledAll hthread => exact ⟨⟨hstopped.1, rfl⟩, rfl, hended⟩
  | left hthread => exact ⟨⟨hstopped.1, rfl⟩, rfl, hended⟩
  | _ => exact ⟨hstopped, rfl, hended⟩

theorem alive_of_legal {is : List (Answers × Input)}
    (hlegal : Along (ComSA.Availability.step ccName) (fun s i => Legal s i.2) {} is)
    (hlast : (is.foldl (ComSA.Availability.step ccName) {}).ended = none) :
    Alive (is.foldl (ComSA.Availability.step ccName) {}) :=
  (throughout_of_along (fun _ _ h hi => Alive.step h hi) alive_start (fine_of_legal hlegal hlast)).last

/-- The object implementer fails when COM becomes active, so COM is asked to prepare for its end as well; and it
reports an error by itself. -/
def failedSwitchover : List (Answers × Input) :=
  [({}, .acInitialize true), ({ objImpInit := .MafFailure }, .csiSet 7 .active .newAssign), ({}, .healthcheck 8),
    ({}, .haModeAssumed 2 .MafOk), ({}, .healthCheckReport 0 .MafFailure .failover), ({}, .takeEvents),
    ({}, .prepareTerminationResponse 1 .MafOk), ({}, .nextEvent), ({}, .nextEvent), ({}, .nextEvent)]

/-- The events are handled in the order in which they come into the queue, each once; and the event pipe holds a
byte as long as something is in the queue. -/
theorem handled_in_order (ccName : String) (is : List (Answers × Input))
    (hlegal : Along (step ccName) (fun s i => Legal s i.2) {} is)
    (hlast : (is.foldl (step ccName) {}).ended = none) :
    gathered (step ccName) (fun s i => s.handledBy i.2) {} is ++ (is.foldl (step ccName) {}).line =
      gathered (step ccName) (fun s i => s.entered i.2) {} is ∧
    Throughout (step ccName) (fun s => s.eventq.Woken) {} is := by
  have hfine := fine_of_legal hlegal hlast
  constructor
  · exact gathered_line State.line (fun s i h hi => ⟨h.step hi, (h.acts hi.1).line h.1 h.2⟩) alive_start hfine
  · exact (throughout_of_along (fun s i h hi => Alive.step h hi) alive_start hfine).mono fun s h => h.1.woken

theorem handled_in_order_failedSwitchover :
    (gathered (step "com") (fun s i => s.entered i.2) {} failedSwitchover).map CoremwEvent.address = [2, 4, 1] ∧
      (gathered (step "com") (fun s i => s.handledBy i.2) {} failedSwitchover).map CoremwEvent.address = [2, 4] := by
  have horder := (handled_in_order "com" failedSwitchover (by decide +kernel) (by decide +kernel)).1
  have hline : ((failedSwitchover.foldl (step "com") {}).line).map CoremwEvent.address = [1] := by decide +kernel
  have hentered : (gathered (step "com") (fun s i => s.entered i.2) {} failedSwitchover).map CoremwEvent.address =
      [2, 4, 1] := by decide +kernel
  refine ⟨hentered, ?_⟩
  rw [← horder, List.map_append, hline] at hentered
  exact (List.append_left_inj [1]).mp hentered

/-- What is due is settled once, or pending, unless the response was dropped because the thread for notifications
could not be started. -/
theorem settled_once (ccName : String) (is : List (Answers × Input))
    (hlegal : Along (step ccName) (fun s i => Legal s i.2) {} is)
    (hlast : (is.foldl (step ccName) {}).ended = none) (d : Due) :
    (is.foldl (step ccName) {}).settled.count d +
        ((is.foldl (step ccName) {}).pending.flatMap CoremwEvent.due).count d +
        (gathered (step ccName) State.droppedDue {} is).count d =
      (is.flatMap fun i => i.2.due i.1).count d := by
  have hfine := fine_of_legal hlegal hlast
  have hledger := gathered_count (fun _ i => i.2.due i.1)
    (fun s i h hi => ⟨Alive.step h hi, fun d => (h.acts hi.1).balance h.1 h.2 hi.2 d⟩) alive_start hfine d
  rw [gathered_const] at hledger
  rw [← Nat.zero_add (List.count d (is.flatMap fun i => i.2.due i.1))]
  exact hledger

theorem settled_once_failedSwitchover :
    (failedSwitchover.foldl (step "com") {}).settled = [.response 7, .errorReport] ∧
      ((failedSwitchover.foldl (step "com") {}).pending.flatMap CoremwEvent.due).count (.response 7) = 1 := by
  have hsettled : (failedSwitchover.foldl (step "com") {}).settled = [.response 7, .errorReport] := by decide +kernel
  have hdropped : gathered (step "com") State.droppedDue {} failedSwitchover = [] := by decide +kernel
  have hdue : (failedSwitchover.flatMap fun i => i.2.due i.1).count (.response 7) = 2 := by decide +kernel
  have hledger := settled_once "com" failedSwitchover (by decide +kernel) (by decide +kernel) (.response 7)
  rw [hsettled, hdropped, hdue] at hledger
  have hone : List.count (Due.response 7) [.response 7, .errorReport] = 1 := by decide
  rw [hone, List.count_nil] at hledger
  exact ⟨hsettled, by omega⟩

/-- When COM has answered, the pipe wakes the thread, and the thread handles all that is in the queue. -/
theorem wake_empties (ccName : String) (is : List (Answers × Input))
    (hlegal : Along (step ccName) (fun s i => Legal s i.2) {} is)
    (hlast : (is.foldl (step ccName) {}).ended = none) (hpolling : (is.foldl (step ccName) {}).Polling)
    (hanswered : (is.foldl (step ccName) {}).line ≠ []) (a : Answers) (ha : Accepts a) (as : List Answers)
    (hlength : as.length = (is.foldl (step ccName) {}).line.length + 1) (haccepts : ∀ a ∈ as, Accepts a) :
    let wake := (a, Input.takeEvents) :: as.map fun a => (a, Input.nextEvent)
    Along (step ccName) (fun s i => Legal s i.2) (is.foldl (step ccName) {}) wake ∧
      (wake.foldl (step ccName) (is.foldl (step ccName) {})).line = [] ∧
      (wake.foldl (step ccName) (is.foldl (step ccName) {})).ended = none := by
  have halive := alive_of_legal hlegal hlast
  generalize is.foldl (step ccName) {} = s at *
  have hline : s.line = s.eventq.items := by
    rw [State.line, State.batch_polling hpolling.1]
    rfl
  rw [hline] at hanswered hlength
  have htakes : Legal s .takeEvents := ⟨hpolling, halive.1.woken.bytes_pos.mpr hanswered⟩
  have htaken : step ccName s (a, .takeEvents) =
      { s with eventq := (s.eventq.drain 16).2, amf_pthread := .handling s.eventq.items } :=
    step_eq halive.2 _
  have hthread : (step ccName s (a, .takeEvents)).amf_pthread = .handling s.eventq.items := by rw [htaken]
  obtain ⟨halong, hdone, hback, heventq⟩ :=
    (halive.goesOn ccName (i := (a, .takeEvents)) htakes ha).handles hthread hlength haccepts
  refine ⟨⟨htakes, halong⟩, ?_, hdone.2⟩
  rw [List.foldl_cons, State.line, State.batch_polling hback, heventq, htaken]
  rfl

theorem wake_empties_failedSwitchover :
    (([({}, Input.takeEvents), ({}, .nextEvent), ({}, .nextEvent)] : List (Answers × Input)).foldl (step "com")
      (failedSwitchover.foldl (step "com") {})).line = [] :=
  (wake_empties "com" failedSwitchover (by decide +kernel) (by decide +kernel) (by decide +kernel) (by decide +kernel)
    {} (by decide) [{}, {}] (by decide +kernel) (by simp; decide)).2.1

/-- The process goes on as long as AMF takes what it is told, whatever COM answers and in whatever order. -/
theorem never_ends (ccName : String) (is : List (Answers × Input))
    (hlegal : Along (step ccName) (fun s i => Legal s i.2 ∧ Accepts i.1) {} is) :
    Throughout (step ccName) (fun s => s.ended = none) {} is :=
  (throughout_of_along (fun _ _ h hi => Alive.goesOn ccName h hi.1 hi.2) alive_start hlegal).mono fun _ h => h.2

theorem never_ends_failedSwitchover :
    Throughout (step "com") (fun s => s.ended = none) {} failedSwitchover :=
  never_ends "com" failedSwitchover (by decide +kernel)

/-- Once it has been stopped the component says nothing more to anybody, even when COM initializes it again. -/
theorem stopped_for_good (ccName : String) (is js : List (Answers × Input))
    (hlegal : Along (step ccName) (fun s i => Legal s i.2) {} (is ++ js))
    (hlast : (is.foldl (step ccName) {}).ended = none) (hstopped : (is.foldl (step ccName) {}).Stopped) :
    (js.foldl (step ccName) (is.foldl (step ccName) {})).calls = (is.foldl (step ccName) {}).calls := by
  obtain ⟨hbefore, hafter⟩ := along_append.mp hlegal
  have halive := alive_of_legal hbefore hlast
  generalize is.foldl (step ccName) {} = s at *
  let still : State → Prop := fun t => Alive t ∧ t.Stopped ∧ t.calls = s.calls
  have hstep : ∀ t i, still t → Legal t i.2 → still (step ccName t i) := by
    intro t i ht hi
    obtain ⟨hstop, hcalls, hended⟩ := (ht.1.acts hi).staysStopped ht.2.1 ht.1.2
    exact ⟨ht.1.step ⟨hi, hended⟩, hstop, hcalls.trans ht.2.2⟩
  exact (throughout_of_along hstep ⟨halive, hstopped, rfl⟩ hafter).last.2.2

theorem stopped_for_good_restart :
    (([({}, Input.acInitialize true), ({}, .healthCheckReport 0 .MafFailure .restart), ({}, .leave)] :
      List (Answers × Input)).foldl (step "lm")
        (([({}, Input.acInitialize true), ({}, .stop), ({}, .takeEvents), ({}, .nextEvent), ({}, .nextEvent),
          ({}, .leave), ({}, .joined)] : List (Answers × Input)).foldl (step "lm") {})).calls = [] := by
  rw [stopped_for_good "lm" _ _ (by decide +kernel) (by decide +kernel) (by decide +kernel)]
  decide +kernel

end

end ComSA.Availability
