import ComSA.Lib.Run
import ComSA.PmtSa.PmEventHandler
import ComSA.PmtSa.PmRunnable

/-!
# The subscription to the PM service

The event filters of COM, as in `pmt_sa/src/PmEventHandler.cxx`, with the thread that subscribes to the PM service
while there are any. When what the PM service has given is given back, when there is a subscription, and who is told
of a finished period.
-/

namespace ComSA.PmtSa

def ComOamSpiPmEventTypeGpReady_2 : String := "ComOamSpiPmEventTypeGpReady_2"

structure Filter where
  consumerHandle : Nat
  eventType : String
  /-- Where the names and values are. They are compared by their address. -/
  filters : Nat
  deriving DecidableEq, Repr

structure ComOamSpiPmEventValue_2 where
  gpId : UInt64
  jobId : Option String
  gpStartTimestampInNanoSeconds : UInt64
  gpEndTimestampInNanoSeconds : UInt64
  deriving DecidableEq

structure Notification where
  consumerHandle : Nat
  eventType : String
  filters : Nat
  value : ComOamSpiPmEventValue_2
  deriving DecidableEq

def GpRecord.event (copiedData : GpRecord) : ComOamSpiPmEventValue_2 where
  gpId := copiedData.jobHandler
  jobId := copiedData.jobname
  gpStartTimestampInNanoSeconds := copiedData.gpStartTimestamp
  gpEndTimestampInNanoSeconds := copiedData.gpEndTimestamp

def Filter.notification (value : ComOamSpiPmEventValue_2) (f : Filter) : Notification :=
  ⟨f.consumerHandle, ComOamSpiPmEventTypeGpReady_2, f.filters, value⟩

/-- The loop over the filters in `sendPmDataReady`, from a return code on, with what COM answers to each filter. -/
def notifyFilters (value : ComOamSpiPmEventValue_2) (notify : Filter → ComReturn) :
    ComReturn → List Filter → ComReturn × List Notification
  | rc, [] => (rc, [])
  | rc, f :: fs =>
    if rc = .ok then
      if f.eventType = ComOamSpiPmEventTypeGpReady_2 then
        let (rc, calls) := notifyFilters value notify (notify f) fs
        (rc, f.notification value :: calls)
      else
        notifyFilters value notify rc fs
    else
      (rc, [])

/-- The event handler, with the finished periods in `handler`, and the thread. -/
structure PmSystem where
  handler : PmEventHandler
  pmDataReadyFilters : List Filter
  thread : PmRunnable

namespace PmSystem

def initial : PmSystem := ⟨.start, [], .initial⟩

/-- The filters become these. No call of the PM service has failed since. -/
def changeFilters (filters : List Filter) (s : PmSystem) : PmSystem :=
  { s with pmDataReadyFilters := filters, thread := { s.thread with failed := false } }

def tell (msg : PmInternalMsg) (s : PmSystem) : PmSystem := { s with thread := s.thread.pushToInput msg }

def addFilter (consumerHandle : Nat) (eventType : String) (filters : Nat) (s : PmSystem) : ComReturn × PmSystem :=
  if ComOamSpiPmEventTypeGpReady_2 = eventType then
    let pmdFilter : Filter := ⟨consumerHandle, eventType, filters⟩
    if pmdFilter ∉ s.pmDataReadyFilters then
      (.ok, (s.changeFilters (s.pmDataReadyFilters ++ [pmdFilter])).tell .eventConsumerRegistered)
    else
      (.failure, s)
  else
    (.ok, s)

def removeFilter (consumerHandle : Nat) (eventType : String) (filters : Nat) (s : PmSystem) :
    ComReturn × PmSystem :=
  if ComOamSpiPmEventTypeGpReady_2 = eventType then
    let pmdFilter : Filter := ⟨consumerHandle, eventType, filters⟩
    if pmdFilter ∈ s.pmDataReadyFilters then
      let s := s.changeFilters (s.pmDataReadyFilters.erase pmdFilter)
      (.ok, if s.pmDataReadyFilters = [] then s.tell .eventNoConsumers else s)
    else
      (.failure, s)
  else
    (.ok, s)

def clearAll (s : PmSystem) : ComReturn × PmSystem :=
  (.ok, if s.pmDataReadyFilters = [] then s else s.changeFilters [])

def sendPmDataReady (pmCbData : SaPmCCallbackInfo) (notify : Filter → ComReturn) (s : PmSystem) :
    Except Fault (ComReturn × List Notification × PmSystem) := do
  let notified := notifyFilters (s.handler.copy pmCbData).event notify .ok s.pmDataReadyFilters
  let (rc, handler) ← s.handler.sendPmDataReady pmCbData notified.1
  return (rc, notified.2, { s with handler })

def handlePmInternalMessage (service : PmService) (s : PmSystem) : PmSystem :=
  { s with thread := s.thread.handlePmInternalMessage service }

end PmSystem

/-! ## Runs -/

/-- A call from COM or from the PM service, or a turn of the thread. -/
inductive PmCall where
  | addFilter (consumerHandle : Nat) (eventType : String) (filters : Nat)
  | removeFilter (consumerHandle : Nat) (eventType : String) (filters : Nat)
  | clearAll
  | sendPmDataReady (pmCbData : SaPmCCallbackInfo) (notify : Filter → ComReturn)
  | handlePmInternalMessage (service : PmService)

namespace PmSystem

def step (state : Except Fault PmSystem) (call : PmCall) : Except Fault PmSystem := do
  let s ← state
  match call with
  | .addFilter consumerHandle eventType filters => return (s.addFilter consumerHandle eventType filters).2
  | .removeFilter consumerHandle eventType filters => return (s.removeFilter consumerHandle eventType filters).2
  | .clearAll => return s.clearAll.2
  | .sendPmDataReady pmCbData notify => return (← s.sendPmDataReady pmCbData notify).2.2
  | .handlePmInternalMessage service => return s.handlePmInternalMessage service

/-- No handle is dropped; and when every message has been handled and no call of the PM service has failed since the
filters last changed, a handle is stored exactly if there are filters for finished periods. -/
structure Subscribed (s : PmSystem) : Prop where
  noneDropped : s.thread.NoneDropped
  stored_iff : s.thread.input = [] → s.thread.failed = false →
    (s.thread.osafPmHandle ≠ 0 ↔ ∃ f ∈ s.pmDataReadyFilters, f.eventType = ComOamSpiPmEventTypeGpReady_2)

def NotifiesAll (s : PmSystem) : PmCall → Prop
  | .sendPmDataReady pmCbData notify => ∃ rc s', s.sendPmDataReady pmCbData notify =
      .ok (rc, s.pmDataReadyFilters.map (Filter.notification (s.handler.copy pmCbData).event), s')
  | _ => True

def Fine (s : PmSystem) : PmCall → Prop
  | .addFilter _ _ _ => True
  -- the thread is not told when filters are left, so it must have been told before
  | .removeFilter consumerHandle eventType filters =>
    ⟨consumerHandle, eventType, filters⟩ ∈ s.pmDataReadyFilters → 2 ≤ s.pmDataReadyFilters.length →
      s.thread.osafPmHandle ≠ 0 ∨ s.thread.input ≠ []
  | .clearAll => s.pmDataReadyFilters = [] ∨ s.thread.osafPmHandle = 0 ∧ s.thread.input = []
  | .sendPmDataReady pmCbData notify =>
    pmCbData.gpIndex.isSome ∧ ∀ f ∈ s.pmDataReadyFilters.dropLast, notify f = .ok
  | .handlePmInternalMessage service =>
    s.thread.input.head? = some .eventConsumerRegistered → s.thread.osafPmHandle = 0 → service.Starts

end PmSystem

/-! ## One call -/

section
variable {value : ComOamSpiPmEventValue_2} {notify : Filter → ComReturn} {fs : List Filter}

theorem notifyFilters_calls (hready : ∀ f ∈ fs, f.eventType = ComOamSpiPmEventTypeGpReady_2) :
    (notifyFilters value notify .ok fs).2 = fs.map (Filter.notification value) ↔
      ∀ f ∈ fs.dropLast, notify f = .ok := by
  induction fs with
  | nil => simp [notifyFilters]
  | cons f fs ih =>
    have hf := hready f List.mem_cons_self
    have ih := ih fun g hg => hready g (List.mem_cons_of_mem f hg)
    rw [notifyFilters, if_pos rfl, if_pos hf, List.map_cons, List.cons_inj_right]
    by_cases hok : notify f = .ok
    · rw [hok, ih]
      rcases fs with - | ⟨g, fs⟩ <;> simp [hok]
    · rcases fs with - | ⟨g, fs⟩
      · simp [notifyFilters]
      · simp [notifyFilters, hok]

end

namespace PmSystem

structure Kept (s : PmSystem) : Prop where
  free : s.handler.locked = false
  ready : ∀ f ∈ s.pmDataReadyFilters, f.eventType = ComOamSpiPmEventTypeGpReady_2
  tracked : s.thread.Tracked
  told : ∀ msg ∈ s.thread.input.getLast?, msg = .eventConsumerRegistered ↔ s.pmDataReadyFilters ≠ []
  stored_iff : s.thread.input = [] → s.thread.failed = false →
    (s.thread.osafPmHandle ≠ 0 ↔ s.pmDataReadyFilters ≠ [])

variable {s : PmSystem}

theorem kept_initial : initial.Kept where
  free := rfl
  ready := by simp [initial]
  tracked := .inl rfl
  told := by simp [initial, PmRunnable.initial]
  stored_iff := by simp [initial, PmRunnable.initial]

theorem Kept.subscribed (h : s.Kept) : s.Subscribed where
  noneDropped := h.tracked.noneDropped
  stored_iff hinput hfailed := by
    rw [h.stored_iff hinput hfailed]
    constructor
    · intro hne
      obtain ⟨f, hf⟩ := List.exists_mem_of_ne_nil _ hne
      exact ⟨f, hf, h.ready f hf⟩
    · rintro ⟨f, hf, -⟩
      exact List.ne_nil_of_mem hf

theorem Kept.tell {filters : List Filter} {msg : PmInternalMsg} (h : s.Kept)
    (hready : ∀ f ∈ filters, f.eventType = ComOamSpiPmEventTypeGpReady_2)
    (hmsg : msg = .eventConsumerRegistered ↔ filters ≠ []) : ((s.changeFilters filters).tell msg).Kept where
  free := h.free
  ready := hready
  tracked := h.tracked
  told := by simpa [PmSystem.tell, changeFilters, PmRunnable.pushToInput] using hmsg
  stored_iff := by simp [PmSystem.tell, changeFilters, PmRunnable.pushToInput]

theorem Kept.addFilter (h : s.Kept) (consumerHandle : Nat) (eventType : String) (filters : Nat) :
    (s.addFilter consumerHandle eventType filters).2.Kept := by
  unfold PmSystem.addFilter
  split
  · rename_i htype
    dsimp only
    split
    · refine h.tell ?_ (by simp)
      intro f hf
      rw [List.mem_append, List.mem_singleton] at hf
      obtain hf | rfl := hf
      · exact h.ready f hf
      · exact htype.symm
    · exact h
  · exact h

theorem Kept.removeFilter {consumerHandle : Nat} {eventType : String} {filters : Nat} (h : s.Kept)
    (hfine : s.Fine (.removeFilter consumerHandle eventType filters)) :
    (s.removeFilter consumerHandle eventType filters).2.Kept := by
  unfold PmSystem.removeFilter
  split
  · dsimp only
    split
    · rename_i hmem
      have hready : ∀ f ∈ s.pmDataReadyFilters.erase ⟨consumerHandle, eventType, filters⟩,
          f.eventType = ComOamSpiPmEventTypeGpReady_2 := fun f hf => h.ready f (List.mem_of_mem_erase hf)
      dsimp only
      split
      · rename_i hnil
        exact h.tell hready ⟨(nomatch ·), fun hne => absurd hnil hne⟩
      · rename_i hleft
        have hne : s.pmDataReadyFilters ≠ [] := List.ne_nil_of_mem hmem
        have hlength : 2 ≤ s.pmDataReadyFilters.length := by
          have := List.length_erase_of_mem hmem
          have := List.length_pos_iff.mpr hleft
          simp only [changeFilters] at this
          omega
        exact {
          free := h.free
          ready := hready
          tracked := h.tracked
          told := fun msg hmsg => (h.told msg hmsg).trans ⟨fun _ => hleft, fun _ => hne⟩
          stored_iff := fun hinput _ =>
            ⟨fun _ => hleft, fun _ => (hfine hmem hlength).resolve_right (not_not.mpr hinput)⟩ }
    · exact h
  · exact h

theorem Kept.clearAll (h : s.Kept) (hfine : s.Fine .clearAll) : s.clearAll.2.Kept := by
  unfold PmSystem.clearAll
  split
  · exact h
  · rename_i hne
    obtain ⟨hhandle, hinput⟩ := hfine.resolve_left hne
    exact {
      free := h.free
      ready := by simp [changeFilters]
      tracked := h.tracked
      told := by simp [changeFilters, hinput]
      stored_iff := by simp [changeFilters, hhandle] }

theorem Kept.handlePmInternalMessage {service : PmService} (h : s.Kept)
    (hfine : s.Fine (.handlePmInternalMessage service)) : (s.handlePmInternalMessage service).Kept := by
  rcases hinput : s.thread.input with - | ⟨msg, input⟩
  · have hsame : s.handlePmInternalMessage service = s := by
      unfold PmSystem.handlePmInternalMessage PmRunnable.handlePmInternalMessage
      rw [hinput]
    rw [hsame]
    exact h
  · obtain ⟨hrest, htracked, hhandle⟩ := PmRunnable.handlePmInternalMessage_spec h.tracked hinput
      fun hmsg => hfine (by rw [hinput, hmsg]; rfl)
    have htold := h.told
    rw [hinput] at htold
    exact {
      free := h.free
      ready := h.ready
      tracked := htracked
      told := by
        intro msg' hmsg'
        simp only [PmSystem.handlePmInternalMessage, hrest] at hmsg'
        exact htold msg' (List.mem_getLast?_cons hmsg')
      stored_iff := by
        intro hnil hfailed
        simp only [PmSystem.handlePmInternalMessage, hrest] at hnil
        subst hnil
        exact (hhandle hfailed).trans (htold msg rfl) }

theorem Kept.sendPmDataReady {pmCbData : SaPmCCallbackInfo} (h : s.Kept) (hindex : pmCbData.gpIndex.isSome)
    (notify : Filter → ComReturn) : ∃ rc s', s'.Kept ∧ s.sendPmDataReady pmCbData notify =
      .ok (rc, (notifyFilters (s.handler.copy pmCbData).event notify .ok s.pmDataReadyFilters).2, s') := by
  obtain ⟨i, hindex⟩ := Option.isSome_iff_exists.mp hindex
  unfold PmSystem.sendPmDataReady
  dsimp only
  rw [PmEventHandler.sendPmDataReady_eq h.free hindex]
  refine ⟨_, _, ?_, rfl⟩
  exact ⟨h.free, h.ready, h.tracked, h.told, h.stored_iff⟩

theorem Kept.step (h : s.Kept) {call : PmCall} (hfine : s.Fine call) :
    (∃ s', PmSystem.step (.ok s) call = .ok s' ∧ s'.Kept) ∧ s.NotifiesAll call := by
  cases call with
  | addFilter consumerHandle eventType filters => exact ⟨⟨_, rfl, h.addFilter _ _ _⟩, trivial⟩
  | removeFilter consumerHandle eventType filters => exact ⟨⟨_, rfl, h.removeFilter hfine⟩, trivial⟩
  | clearAll => exact ⟨⟨_, rfl, h.clearAll hfine⟩, trivial⟩
  | handlePmInternalMessage service => exact ⟨⟨_, rfl, h.handlePmInternalMessage hfine⟩, trivial⟩
  | sendPmDataReady pmCbData notify =>
    obtain ⟨hindex, hnotify⟩ := hfine
    obtain ⟨rc, s', hs', hsend⟩ := h.sendPmDataReady hindex notify
    rw [(notifyFilters_calls h.ready).mpr hnotify] at hsend
    refine ⟨⟨s', ?_, hs'⟩, rc, s', hsend⟩
    dsimp only [PmSystem.step, Bind.bind, Except.bind]
    rw [hsend]
    rfl

end PmSystem

/-! ## Every run -/

def Holds (P : PmSystem → Prop) (state : Except Fault PmSystem) : Prop := ∃ s, state = .ok s ∧ P s

/-- As long as no consumer is lost sight of: `clearAll` does not leave a subscription behind, a filter is not removed
beside others while there is none, what the PM service has given is used, and COM takes what is sent. -/
theorem subscribed_throughout (calls : List PmCall)
    (hfine : Along PmSystem.step (fun state call => Holds (·.Fine call) state) (.ok .initial) calls) :
    Throughout PmSystem.step (Holds PmSystem.Subscribed) (.ok .initial) calls ∧
      Along PmSystem.step (fun state call => Holds (·.NotifiesAll call) state) (.ok .initial) calls := by
  have hstep : ∀ state call, Holds PmSystem.Kept state → Holds (·.Fine call) state →
      Holds (·.NotifiesAll call) state ∧ Holds PmSystem.Kept (PmSystem.step state call) := by
    rintro _ call ⟨s, rfl, hs⟩ ⟨_, h, hfine⟩
    cases h
    obtain ⟨⟨s', hs', hkept⟩, hnotifies⟩ := hs.step hfine
    exact ⟨⟨s, rfl, hnotifies⟩, s', hs', hkept⟩
  have hinitial : Holds PmSystem.Kept (.ok .initial) := ⟨_, rfl, PmSystem.kept_initial⟩
  refine ⟨?_, along_of_along hstep hinitial hfine⟩
  refine (throughout_of_along (fun state call hs h => (hstep state call hs h).2) hinitial hfine).mono ?_
  rintro _ ⟨s, rfl, hs⟩
  exact ⟨s, rfl, hs.subscribed⟩

def PmService.working (handle : Nat) : PmService := ⟨some handle, some 3, true, true, true⟩

def finishedMinute : SaPmCCallbackInfo := ⟨1, 2, some "safJob=J", 0, 60000000000⟩

def oneConsumer : List PmCall :=
  [.addFilter 1 ComOamSpiPmEventTypeGpReady_2 0, .handlePmInternalMessage (.working 5),
    .sendPmDataReady finishedMinute fun _ => .failure, .removeFilter 1 ComOamSpiPmEventTypeGpReady_2 0,
    .handlePmInternalMessage (.working 6)]

theorem subscribed_throughout_one :
    Throughout PmSystem.step (Holds PmSystem.Subscribed) (.ok .initial) oneConsumer ∧
      Along PmSystem.step (fun state call => Holds (·.NotifiesAll call) state) (.ok .initial) oneConsumer := by
  apply subscribed_throughout
  refine ⟨⟨_, rfl, trivial⟩, ⟨_, rfl, fun _ _ => by decide⟩, ⟨_, rfl, by decide, fun f hf => ?_⟩,
    ⟨_, rfl, fun _ hlength => ?_⟩, ⟨_, rfl, fun hmsg => ?_⟩, trivial⟩
  · exact absurd (show f ∈ ([] : List Filter) from hf) List.not_mem_nil
  · exact absurd hlength (by decide)
  · exact absurd hmsg (by decide)

/-- The new handle is not activated and forgotten. -/
theorem not_subscribed_throughout : ¬ ∀ calls,
    Throughout PmSystem.step (Holds PmSystem.Subscribed) (.ok .initial) calls ∧
      Along PmSystem.step (fun state call => Holds (·.NotifiesAll call) state) (.ok .initial) calls := by
  intro h
  obtain ⟨s, hs, hsubscribed⟩ := (h [.addFilter 1 ComOamSpiPmEventTypeGpReady_2 0,
    .handlePmInternalMessage { PmService.working 5 with activate := false }]).1.last
  cases hs
  have hopen := hsubscribed.noneDropped
  unfold PmRunnable.NoneDropped at hopen
  exact absurd hopen (by decide)

end ComSA.PmtSa
