import ComSA.Ac.Invocations

/-!
# COM is in the mode that AMF was told

COM changes its mode when it answers, and the support agent takes note of that later. The two agree as long as AMF
waits for COM between two assignments, and then COM is never asked to go to the mode that it is in.
-/

namespace ComSA.Availability

def Call.asks (address : Nat) : Call → Option HaMode
  | .setHaMode a m _ => if a = address then some m else none
  | _ => none

def State.told (s : State) (address : Nat) : Option HaMode := s.calls.reverse.findSome? (Call.asks address)

/-- The mode of COM, which goes to the new mode when it says that it has assumed it. -/
def comMode (s : State) (mode : HaMode) (i : Input) : HaMode :=
  match i.answer with
  | some (.haModeAssumed, invocation, .MafOk) => (s.told invocation).getD mode
  | _ => mode

def modeStep (ccName : String) (p : State × HaMode) (i : Answers × Input) : State × HaMode :=
  (step ccName p.1 i, comMode p.1 p.2 i.2)

/-- AMF assigns or removes nothing while COM is still asked to change its mode. -/
def Serial (s : State) (i : Input) : Prop :=
  i.mode ≠ none → ∀ e ∈ s.pending, e.event_type ≠ .haModeAssumed

instance (s : State) (i : Input) : Decidable (Serial s i) :=
  inferInstanceAs (Decidable (i.mode ≠ none → ∀ e ∈ s.pending, e.event_type ≠ .haModeAssumed))

def newCalls (ccName : String) (s : State) (i : Answers × Input) : List Call :=
  (step ccName s i).calls.drop s.calls.length

/-! ## What COM is told -/

namespace State

theorem told_call {s : State} {c : Call} (hmode : ∀ a n r, c ≠ .setHaMode a n r) (address : Nat) :
    (s.call c).told address = s.told address := by
  have hnone : c.asks address = none := by
    cases c with
    | setHaMode a n r => exact absurd rfl (hmode a n r)
    | _ => rfl
  unfold told call
  rw [List.reverse_append, List.reverse_singleton, List.singleton_append, List.findSome?_cons, hnone]

theorem told_setHaMode {s : State} (hcallbacks : s.maf_acCallbacks = true) (inv flags : Nat) (reason : HaReason)
    (address : Nat) :
    (s.setHaMode inv flags reason).told address =
      if s.nextAddress = address then some s.maf_new_com_ha_state else s.told address := by
  rw [setHaMode, ask_eq hcallbacks, told]
  dsimp only
  rw [List.reverse_append, List.reverse_singleton, List.singleton_append, List.findSome?_cons, Call.asks]
  by_cases h : s.nextAddress = address
  · rw [if_pos h, if_pos h]
  · rw [if_neg h, if_neg h]
    rfl

theorem ask_pending {s : State} (hcallbacks : s.maf_acCallbacks = true) (event_type : CoremwEventType)
    (inv flags : Nat) (c : Nat → Call) {e : CoremwEvent} (he : e ∈ (s.ask event_type inv flags c).pending) :
    e ∈ s.pending ∨ e = ⟨s.nextAddress, event_type, inv, flags, none, none⟩ := by
  rw [ask_eq hcallbacks] at he
  rcases List.mem_append.mp he with he | he
  · rcases List.mem_append.mp he with he | he
    · exact .inl (List.mem_append_left _ he)
    · exact .inr (List.mem_singleton.mp he)
  · exact .inl (List.mem_append_right _ he)

def ToldMode (m : HaMode) (s : State) : Prop :=
  ∀ e ∈ s.pending, e.event_type = .haModeAssumed → s.told e.address = some m ∧ s.maf_new_com_ha_state = m

theorem ask_toldMode {s : State} {m : HaMode} (hcallbacks : s.maf_acCallbacks = true) {event_type : CoremwEventType}
    (htype : event_type ≠ .haModeAssumed) (inv flags : Nat) {c : Nat → Call} (hc : ∀ a b n r, c a ≠ .setHaMode b n r)
    (h : s.ToldMode m) : (s.ask event_type inv flags c).ToldMode m := by
  intro e he hmode
  have hold : e ∈ s.pending := by
    rcases ask_pending hcallbacks _ _ _ _ he with he | rfl
    · exact he
    · exact absurd hmode htype
  have htold : (s.ask event_type inv flags c).told e.address = s.told e.address := by
    rw [ask_eq hcallbacks]
    exact told_call (s := s) (hc _) _
  rw [htold, ask_eq hcallbacks]
  exact h e hold hmode

end State

namespace Does

variable {accepts : Prop} {m : HaMode} {ds : List Due} {s t : State}

theorem toldMode (h : Does accepts m ds s t) (hs : s.ToldMode m) : t.ToldMode m := by
  induction h with
  | refl s => exact hs
  | call c hmode _ ih =>
    refine ih fun e he htype => ?_
    rw [State.told_call hmode]
    exact hs e he htype
  | @setHaMode _ s t inv flags reason hcallbacks hmode hother _ ih =>
    refine ih fun e he htype => ?_
    rw [State.told_setHaMode hcallbacks]
    have hnew : (s.setHaMode inv flags reason).maf_new_com_ha_state = m := by
      rw [State.setHaMode, State.ask_eq hcallbacks]
      exact hmode
    by_cases haddress : s.nextAddress = e.address
    · rw [if_pos haddress, hmode]
      exact ⟨rfl, hnew⟩
    · rw [if_neg haddress]
      rcases State.ask_pending hcallbacks _ _ _ _ he with he | rfl
      · exact ⟨(hs e he htype).1, hnew⟩
      · exact absurd rfl haddress
  | healthCheck inv hcallbacks _ ih =>
    exact ih (State.ask_toldMode hcallbacks (by decide) _ _ (fun _ _ _ _ => Call.noConfusion) hs)
  | prepareTermination inv hcallbacks _ ih =>
    exact ih (State.ask_toldMode hcallbacks (by decide) _ _ (fun _ _ _ _ => Call.noConfusion) hs)
  | newMode _ ih => exact ih fun e he htype => ⟨(hs e he htype).1, rfl⟩
  | alarm _ ih => exact ih hs
  | ended e hends => exact hs

/-- The calls come behind the ones before, and COM is only asked for a mode other than the one that is noted. -/
def Asks (m : HaMode) (s t : State) : Prop :=
  ∃ new, t.calls = s.calls ++ new ∧ ∀ a n r, Call.setHaMode a n r ∈ new → n = m ∧ s.maf_com_ha_state ≠ m

theorem asks_cons {s u : State} {c : Call} (hcalls : u.calls = s.calls ++ [c])
    (hmode : u.maf_com_ha_state = s.maf_com_ha_state)
    (hc : ∀ a n r, c = .setHaMode a n r → n = m ∧ s.maf_com_ha_state ≠ m) (h : Asks m u t) : Asks m s t := by
  obtain ⟨new, hnew, hall⟩ := h
  refine ⟨c :: new, by rw [hnew, hcalls, List.append_assoc, List.singleton_append], fun a n r hmem => ?_⟩
  rcases List.mem_cons.mp hmem with heq | hmem
  · exact hc a n r heq.symm
  · exact hmode ▸ hall a n r hmem

theorem asks (h : Does accepts m ds s t) : Asks m s t := by
  induction h with
  | refl s => exact ⟨[], (List.append_nil _).symm, fun _ _ _ h => absurd h List.not_mem_nil⟩
  | call c hmode _ ih => exact asks_cons (u := State.call c _) rfl rfl (fun a n r hc => absurd hc (hmode a n r)) ih
  | @setHaMode _ s t inv flags reason hcallbacks hmode hother _ ih =>
    refine asks_cons (c := .setHaMode s.nextAddress m reason) ?_ ?_ (fun a n r hc => ?_) ih
    · rw [State.setHaMode, State.ask_eq hcallbacks, hmode]
    · rw [State.setHaMode, State.ask_eq hcallbacks]
    · cases hc
      exact ⟨rfl, hother⟩
  | @healthCheck _ s t inv hcallbacks _ ih =>
    refine asks_cons (c := .healthCheck s.nextAddress) ?_ ?_ (fun a n r hc => Call.noConfusion hc) ih
    · rw [State.healthCheck, State.ask_eq hcallbacks]
    · rw [State.healthCheck, State.ask_eq hcallbacks]
  | @prepareTermination _ s t inv hcallbacks _ ih =>
    refine asks_cons (c := .prepareTermination s.nextAddress) ?_ ?_ (fun a n r hc => Call.noConfusion hc) ih
    · rw [State.prepareTermination, State.ask_eq hcallbacks]
    · rw [State.prepareTermination, State.ask_eq hcallbacks]
  | newMode _ ih => exact ih
  | alarm _ ih => exact ih
  | ended e hends => exact ⟨[], (List.append_nil _).symm, fun _ _ _ h => absurd h List.not_mem_nil⟩

end Does

/-! ## Steps -/

/-- COM has said that it has assumed the new mode. -/
def CoremwEvent.Assumed (e : CoremwEvent) : Prop := e.event_type = .haModeAssumed ∧ e.error = some .MafOk

instance (e : CoremwEvent) : Decidable e.Assumed := inferInstanceAs (Decidable (_ ∧ _))

/-- The mode of COM is the noted one, or the new one when COM has said so and that is not handled yet. -/
structure Agreed (s : State) (mode : HaMode) : Prop where
  told : s.ToldMode s.maf_new_com_ha_state
  mode : mode = if ∃ e ∈ s.line, e.Assumed then s.maf_new_com_ha_state else s.maf_com_ha_state

theorem agreed_start : Agreed {} .unassigned := ⟨fun _ he => absurd he List.not_mem_nil, by simp⟩

theorem Agreed.noted {s : State} {mode : HaMode} (h : Agreed s mode)
    (hidle : ∀ e ∈ s.pending, e.event_type ≠ .haModeAssumed) : s.maf_com_ha_state = mode := by
  rw [h.mode, if_neg]
  rintro ⟨e, he, hassumed⟩
  exact hidle e (List.mem_append_right _ he) hassumed.1

theorem Agreed.congr {s t : State} {mode : HaMode} (h : Agreed s mode) (hcalls : t.calls = s.calls)
    (hnew : t.maf_new_com_ha_state = s.maf_new_com_ha_state) (hcom : t.maf_com_ha_state = s.maf_com_ha_state)
    (hline : t.line = s.line) (hheld : t.held = s.held) : Agreed t mode := by
  constructor
  · intro e he htype
    rw [State.pending, hline, hheld] at he
    rw [State.told, hcalls, hnew]
    exact h.told e he htype
  · rw [hline, hnew, hcom]
    exact h.mode

theorem Agreed.put {s t : State} {mode : HaMode} (h : Agreed s mode) {e : CoremwEvent}
    (htype : e.event_type ≠ .haModeAssumed) (hcalls : t.calls = s.calls)
    (hnew : t.maf_new_com_ha_state = s.maf_new_com_ha_state) (hcom : t.maf_com_ha_state = s.maf_com_ha_state)
    (hline : t.line = s.line ++ [e]) (hheld : ∀ e ∈ t.held, e ∈ s.held) : Agreed t mode := by
  constructor
  · intro e' he' htype'
    rw [State.told, hcalls, hnew]
    rcases List.mem_append.mp he' with he' | he'
    · exact h.told e' (List.mem_append_left _ (hheld e' he')) htype'
    · rw [hline] at he'
      rcases List.mem_append.mp he' with he' | he'
      · exact h.told e' (List.mem_append_right _ he') htype'
      · rw [List.mem_singleton.mp he'] at htype'
        exact absurd htype' htype
  · have hnot : ¬ e.Assumed := fun hassumed => htype hassumed.1
    rw [hline, hnew, hcom, h.mode]
    simp [hnot, or_and_right, exists_or]

theorem comMode_of_not {s : State} {mode : HaMode} {i : Input} {event_type : CoremwEventType} {address : Nat}
    {error : MafReturn} (hi : i.answer = some (event_type, address, error))
    (h : ¬ (event_type = .haModeAssumed ∧ error = .MafOk)) : comMode s mode i = mode := by
  unfold comMode
  rw [hi]
  split
  · next heq =>
    cases heq
    exact absurd ⟨rfl, rfl⟩ h
  · rfl

theorem Agreed.answered {s t : State} {mode : HaMode} (h : Agreed s mode) {i : Input} {e : CoremwEvent}
    {error : MafReturn} (he : e ∈ s.held) (hi : i.answer = some (e.event_type, e.address, error))
    {answer : CoremwEvent} (htype : answer.event_type = e.event_type) (haddress : answer.address = e.address)
    (herror : answer.error = some error) (hcalls : t.calls = s.calls)
    (hnew : t.maf_new_com_ha_state = s.maf_new_com_ha_state) (hcom : t.maf_com_ha_state = s.maf_com_ha_state)
    (hline : t.line = s.line ++ [answer]) (hheld : ∀ e ∈ t.held, e ∈ s.held) : Agreed t (comMode s mode i) := by
  constructor
  · intro d hd hdtype
    rw [State.told, hcalls, hnew]
    rcases List.mem_append.mp hd with hd | hd
    · exact h.told d (List.mem_append_left _ (hheld d hd)) hdtype
    · rw [hline] at hd
      rcases List.mem_append.mp hd with hd | hd
      · exact h.told d (List.mem_append_right _ hd) hdtype
      · rw [List.mem_singleton.mp hd] at hdtype ⊢
        rw [haddress]
        exact h.told e (List.mem_append_left _ he) (htype.symm.trans hdtype)
  · rw [hline, hnew, hcom]
    by_cases hassumed : answer.Assumed
    · have hmode := htype.symm.trans hassumed.1
      have hok : error = .MafOk := Option.some.inj (herror.symm.trans hassumed.2)
      rw [if_pos ⟨answer, List.mem_append_right _ (List.mem_singleton_self answer), hassumed⟩, comMode, hi, hmode, hok]
      dsimp only
      rw [(h.told e (List.mem_append_left _ he) hmode).1]
      rfl
    · have hnot : ¬ (e.event_type = .haModeAssumed ∧ error = .MafOk) := fun hok =>
        hassumed ⟨htype.trans hok.1, by rw [herror, hok.2]⟩
      rw [comMode_of_not hi hnot, h.mode]
      simp [hassumed, or_and_right, exists_or]

namespace State

theorem noted_com (answers : Answers) (e : CoremwEvent) (s : State) :
    (s.noted answers e).maf_com_ha_state =
      if e.Assumed then s.maf_new_com_ha_state else s.maf_com_ha_state := by
  obtain ⟨address, event_type, saf_invokation, flags, error, recovery⟩ := e
  unfold noted CoremwEvent.Assumed
  cases event_type with
  | haModeAssumed =>
    by_cases herror : error = some .MafOk
    · simp [herror]
    · simp [herror]
  | _ => simp

theorem noted_toldMode (answers : Answers) (e : CoremwEvent) {s : State} {m : HaMode} (h : s.ToldMode m) :
    (s.noted answers e).ToldMode m := by
  obtain ⟨c, n, b, heq⟩ := State.noted_eq answers e s
  rw [heq]
  exact h

end State

theorem Agreed.does {accepts : Prop} {ds : List Due} {s t : State} {mode : HaMode} (h : Agreed s mode)
    (hdoes : ∀ m, Does accepts m ds s t) : Agreed t mode := by
  have hnew : t.maf_new_com_ha_state = s.maf_new_com_ha_state := (hdoes s.maf_new_com_ha_state).mode rfl
  constructor
  · rw [hnew]
    exact (hdoes s.maf_new_com_ha_state).toldMode h.told
  · rw [(hdoes s.maf_com_ha_state).frame.line, (hdoes s.maf_com_ha_state).frame.maf_com_ha_state, hnew]
    exact h.mode

theorem Agreed.handled {answers : Answers} {e : CoremwEvent} {rest : List CoremwEvent} {s : State} {mode : HaMode}
    (h : Agreed s mode) (hthread : s.amf_pthread = .handling (e :: rest)) (hcallbacks : s.maf_acCallbacks = true)
    (hs : s.ended = none) :
    Agreed (State.handleEvent answers e { s with amf_pthread := .handling rest }) mode := by
  let taken : State := { s with amf_pthread := .handling rest }
  have hline : s.line = e :: taken.line := by
    rw [State.line, State.line, State.batch_handling hthread]
    rfl
  have htaken : taken.ToldMode s.maf_new_com_ha_state := by
    intro d hd htype
    refine h.told d ?_ htype
    rw [State.pending, hline]
    rcases List.mem_append.mp hd with hd | hd
    · exact List.mem_append_left _ hd
    · exact List.mem_append_right _ (List.mem_cons_of_mem _ hd)
  have hnoted : Agreed (taken.noted answers e) mode := by
    have hnew : (taken.noted answers e).maf_new_com_ha_state = s.maf_new_com_ha_state := by
      obtain ⟨c, n, b, heq⟩ := State.noted_eq answers e taken
      rw [heq]
    constructor
    · rw [hnew]
      exact State.noted_toldMode answers e htaken
    · rw [State.noted_line, State.noted_com, hnew, h.mode, hline]
      by_cases hassumed : e.Assumed
      · rw [if_pos ⟨e, List.mem_cons_self, hassumed⟩, if_pos hassumed]
        exact (ite_self _).symm
      · rw [if_neg hassumed]
        simp [hassumed]
        rfl
  by_cases hdropped : State.Dropped answers e taken
  · rw [State.handleEvent_dropped hdropped]
    exact hnoted
  · exact hnoted.does fun m => State.handleEvent_does hcallbacks hs hdropped

theorem Acts.agreed {answers : Answers} {s t : State} {i : Input} {mode : HaMode} (h : Acts answers s i t)
    (hs : Kept s) (hended : s.ended = none) (hserial : Serial s i) (hag : Agreed s mode) :
    Agreed t (comMode s mode i) := by
  cases h with
  | initialized hrunning =>
    have hbatch : s.batch = [] := State.batch_of_not_runs fun hruns =>
      absurd ((hs.running hruns).symm.trans hrunning) (by decide)
    refine hag.congr rfl rfl rfl ?_ rfl
    rw [State.line, State.line, hbatch]
    rfl
  | notInitialized hrunning => exact hag.congr rfl rfl rfl rfl rfl
  | stops hrunning =>
    exact hag.put (e := s.terminateEvent) CoremwEventType.noConfusion rfl rfl rfl (line_put rfl rfl) fun _ => id
  | stopped hrunning => exact hag.congr rfl rfl rfl rfl rfl
  | joined hleft => exact hag.congr rfl rfl rfl rfl rfl
  | called hanswer hentered hpolling h =>
    have hmode : comMode s mode i = mode := by rw [comMode, hanswer]
    rw [hmode]
    cases hi : i.mode with
    | none => exact hag.does fun m => h m fun m' hm' => absurd (hi.symm.trans hm') (Option.some_ne_none m').symm
    | some m =>
      have hdoes := h m fun m' hm' => Option.some.inj (hi.symm.trans hm')
      have hidle := hserial (by rw [hi]; exact Option.some_ne_none m)
      have htold : t.ToldMode m := hdoes.toldMode fun e he htype => absurd htype (hidle e he)
      constructor
      · intro e he htype
        have hm := htold e he htype
        exact ⟨hm.1.trans (congrArg some hm.2.symm), rfl⟩
      · rw [hdoes.frame.line, hdoes.frame.maf_com_ha_state, ← hag.noted hidle, if_neg]
        rintro ⟨e, he, hassumed⟩
        exact hidle e (List.mem_append_right _ he) hassumed.1
  | answered recovery hi hdue he hentered =>
    refine hag.answered he hi ?_ ?_ ?_ rfl rfl rfl (line_put rfl rfl) fun _ => List.mem_of_mem_erase
    · rfl
    · rfl
    · rfl
  | reported report recovery =>
    exact hag.put (e := s.reportEvent report recovery) CoremwEventType.noConfusion rfl rfl rfl (line_put rfl rfl)
      fun _ => id
  | taken hpolling =>
    refine hag.congr rfl rfl rfl ?_ rfl
    rw [State.line, State.line, State.batch_polling hpolling.1]
    exact List.append_nil _
  | handled hthread =>
    exact hag.handled hthread (hs.callbacks (by rw [hthread]; trivial)) hended
  | handledAll hthread =>
    refine hag.congr rfl rfl rfl ?_ rfl
    rw [State.line, State.line, State.batch_handling hthread]
    rfl
  | left hthread =>
    refine hag.congr rfl rfl rfl ?_ rfl
    rw [State.line, State.line, State.batch_polling hthread]
    rfl

theorem Acts.asks {answers : Answers} {s t : State} {i : Input} {mode : HaMode} (h : Acts answers s i t)
    (hs : Kept s) (hended : s.ended = none) (hserial : Serial s i) (hag : Agreed s mode) {a : Nat} {n : HaMode}
    {r : HaReason} (hasks : .setHaMode a n r ∈ t.calls.drop s.calls.length) : n ≠ mode := by
  have hnone : ∀ {u : State}, u.calls = s.calls → ¬ .setHaMode a n r ∈ u.calls.drop s.calls.length := by
    intro u hu
    rw [hu, List.drop_length]
    exact List.not_mem_nil
  have hnew : ∀ {u v : State} {m : HaMode} {accepts : Prop} {ds : List Due}, u.calls = s.calls →
      Does accepts m ds u v → .setHaMode a n r ∈ v.calls.drop s.calls.length → n = m ∧ u.maf_com_ha_state ≠ m := by
    intro u v m accepts ds hu hdoes hmem
    obtain ⟨new, hcalls, hall⟩ := hdoes.asks
    rw [hcalls, hu, List.drop_left] at hmem
    exact hall a n r hmem
  cases h with
  | called hanswer hentered hpolling h =>
    cases hi : i.mode with
    | none =>
      have hdoes := h s.maf_com_ha_state fun m' hm' => absurd (hi.symm.trans hm') (Option.some_ne_none m').symm
      exact absurd rfl (hnew rfl hdoes hasks).2
    | some m =>
      have hdoes := h m fun m' hm' => Option.some.inj (hi.symm.trans hm')
      have hidle := hserial (by rw [hi]; exact Option.some_ne_none m)
      obtain ⟨rfl, hother⟩ := hnew rfl hdoes hasks
      rw [← hag.noted hidle]
      exact hother.symm
  | @handled e rest hthread =>
    let taken : State := { s with amf_pthread := .handling rest }
    obtain ⟨c, f, b, heq⟩ := State.noted_eq answers e taken
    have hcalls : (taken.noted answers e).calls = s.calls := by rw [heq]
    by_cases hdropped : State.Dropped answers e taken
    · rw [State.handleEvent_dropped hdropped] at hasks
      exact absurd hasks (hnone hcalls)
    · have hdoes : Does (Accepts answers) (taken.noted answers e).maf_com_ha_state e.due (taken.noted answers e)
          (taken.handleEvent answers e) :=
        State.handleEvent_does (hs.callbacks (by rw [hthread]; trivial)) hended hdropped
      exact absurd rfl (hnew hcalls hdoes hasks).2
  | _ => exact absurd hasks (hnone rfl)

/-- As long as AMF waits for COM between two assignments, COM is never asked to go to the mode that it is in, and
when nothing is asked of it the mode that the support agent has noted is the mode of COM. -/
theorem modes_agree (ccName : String) (is : List (Answers × Input))
    (hlegal : Along (modeStep ccName) (fun p i => Legal p.1 i.2 ∧ Serial p.1 i.2) ({}, .unassigned) is)
    (hlast : (is.foldl (modeStep ccName) ({}, .unassigned)).1.ended = none) :
    Along (modeStep ccName) (fun p i => ∀ a m r, .setHaMode a m r ∈ newCalls ccName p.1 i → m ≠ p.2)
      ({}, .unassigned) is ∧
    Throughout (modeStep ccName)
      (fun p => (∀ e ∈ p.1.pending, e.event_type ≠ .haModeAssumed) → p.1.maf_com_ha_state = p.2)
      ({}, .unassigned) is := by
  let good : State × HaMode → Prop := fun p => Alive p.1 ∧ Agreed p.1 p.2
  have hfine := hlegal.and_next (I := fun p : State × HaMode => p.1.ended = none) (fun _ _ => step_ended) hlast
  have hstep : ∀ p i, good p → (Legal p.1 i.2 ∧ Serial p.1 i.2) ∧ (modeStep ccName p i).1.ended = none →
      good (modeStep ccName p i) := by
    intro p i hp hi
    exact ⟨hp.1.step ⟨hi.1.1, hi.2⟩, (hp.1.acts hi.1.1).agreed hp.1.1 hp.1.2 hi.1.2 hp.2⟩
  have hstart : good ({}, .unassigned) := ⟨alive_start, agreed_start⟩
  constructor
  · refine along_of_along (fun p i hp hi => ⟨?_, hstep p i hp hi⟩) hstart hfine
    intro a m r hmem
    exact (hp.1.acts hi.1.1).asks hp.1.1 hp.1.2 hi.1.2 hp.2 hmem
  · exact (throughout_of_along hstep hstart hfine).mono fun p hp hidle => hp.2.noted hidle

def loadRemoved : List (Answers × Input) :=
  [({}, .acInitialize true), ({}, .csiSet 7 .active .newAssign), ({}, .haModeAssumed 1 .MafOk), ({}, .takeEvents),
    ({}, .nextEvent), ({}, .nextEvent), ({}, .csiRemove 8), ({}, .haModeAssumed 2 .MafOk), ({}, .takeEvents),
    ({}, .nextEvent), ({}, .nextEvent), ({}, .csiSet 9 .quiesced .stillActive)]

theorem modes_agree_loadRemoved :
    (loadRemoved.foldl (modeStep "com") ({}, .unassigned)).2 = .unassigned ∧
      (loadRemoved.foldl (modeStep "com") ({}, .unassigned)).1.calls =
        [.logServicesOpen, .setHaMode 1 .active .init, .saAmfResponse 7 .ok, .removeSecretAttrFile,
          .setHaMode 2 .unassigned .switchover, .saAmfResponse 8 .ok, .removeSecretAttrFile, .saAmfResponse 9 .ok] := by
  have hagree := (modes_agree "com" loadRemoved (by decide +kernel) (by decide +kernel)).2.last (by decide +kernel)
  have hnoted : (loadRemoved.foldl (modeStep "com") ({}, .unassigned)).1.maf_com_ha_state = .unassigned := by
    decide +kernel
  exact ⟨hagree.symm.trans hnoted, by decide +kernel⟩

end ComSA.Availability
