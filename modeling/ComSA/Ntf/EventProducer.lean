import ComSA.Lib.RefCount
import ComSA.Lib.Run

/-!
# Event consumers and their filters

The filters that consumers have added, and the events that are pushed to them. Filters and pushes are under one
lock, and the event router gives the events back at any time.
-/

namespace ComSA.Events

/-- `MafNameValuePairT **`: the address of the array, and what it holds where there is one. -/
structure MafFilters where
  address : Nat
  pairs : Option (List (String × String))
  deriving DecidableEq, Repr

structure FilterMatcher (EventT : Type) where
  isMatch : MafFilters → EventT → Bool
  isValid : MafFilters → Bool

def matchAllFilter (EventT : Type) : FilterMatcher EventT := ⟨fun _ _ => true, fun _ => true⟩

structure Consumer where
  consumerHandle : Nat
  eventType : String
  filter : MafFilters
  deriving DecidableEq, Repr

def Consumer.equals (consumerHandle : Nat) (eventType : String) (c : Consumer) : Bool :=
  c.consumerHandle = consumerHandle && c.eventType = eventType

def Consumer.filterInstance (c : Consumer) : Nat × String × Nat := (c.consumerHandle, c.eventType, c.filter.address)

abbrev EventId := Nat

structure EventProducer where
  consumers : List Consumer
  /-- The event of the thread that has the lock in `push`, and whom it has still to notify. -/
  pushing : Option (EventId × List Consumer)
  /-- The events of the threads that are back from `push`. -/
  leaving : List EventId
  /-- What the event router has, for each consumer it was given for. -/
  outstanding : List (EventId × Consumer)
  refs : RefCounts EventId
  created : Nat
  notified : List (EventId × Consumer)

namespace EventProducer

variable {EventT : Type} (F : FilterMatcher EventT)

def initial : EventProducer := ⟨[], none, [], [], .empty, 0, []⟩

def onAddFilter (consumerHandle : Nat) (eventType : String) (aFilter : MafFilters) (s : EventProducer) :
    Bool × EventProducer :=
  if F.isValid aFilter then (true, { s with consumers := s.consumers ++ [⟨consumerHandle, eventType, aFilter⟩] })
  else (false, s)

def onRemoveFilter (consumerHandle : Nat) (eventType : String) (_filters : MafFilters) (s : EventProducer) :
    EventProducer :=
  { s with consumers := s.consumers.eraseP (Consumer.equals consumerHandle eventType) }

def onClearAll (s : EventProducer) : EventProducer := { s with consumers := [] }

def sendEvent (event : EventT) (s : EventProducer) : EventProducer :=
  { s with
    refs := s.refs.create s.created
    created := s.created + 1
    pushing := some (s.created, s.consumers.filter fun f => F.isMatch f.filter event) }

/-- One turn of the loop, with the answer of `notify` (true for `MafOk`), or the end of `push`. -/
def pushNext (answer : Bool) (s : EventProducer) : Option EventProducer :=
  match s.pushing with
  | none => some s
  | some (event, []) => some { s with pushing := none, leaving := event :: s.leaving }
  | some (event, f :: matches_) => (s.refs.addRef event).map fun refs =>
    if answer then
      { s with
        refs
        pushing := some (event, matches_)
        outstanding := (event, f) :: s.outstanding
        notified := s.notified ++ [(event, f)] }
    else { s with refs, pushing := some (event, matches_) }

def releaseRef (event : EventId) (s : EventProducer) : Option EventProducer :=
  if event ∈ s.leaving then
    (s.refs.releaseRef event).map fun refs => { s with refs, leaving := s.leaving.erase event }
  else some s

def onDoneWithValue (event : EventId) (c : Consumer) (s : EventProducer) : Option EventProducer :=
  if (event, c) ∈ s.outstanding then
    (s.refs.releaseRef event).map fun refs => { s with refs, outstanding := s.outstanding.erase (event, c) }
  else some s

def holders (s : EventProducer) : List EventId :=
  s.pushing.toList.map Prod.fst ++ (s.leaving ++ s.outstanding.map Prod.fst)

end EventProducer

inductive Call (EventT : Type) where
  | addFilter (consumerHandle : Nat) (eventType : String) (aFilter : MafFilters)
  | removeFilter (consumerHandle : Nat) (eventType : String) (filters : MafFilters)
  | clearAll
  | sendEvent (event : EventT)
  | pushNext (answer : Bool)
  | releaseRef (event : EventId)
  | doneWithValue (event : EventId) (c : Consumer)

structure Watched where
  producer : EventProducer
  active : List Consumer
  due : List (EventId × Consumer)

namespace Watched

variable {EventT : Type} (F : FilterMatcher EventT)

def initial : Watched := ⟨.initial, [], []⟩

def add (c : Consumer) (active : List Consumer) : List Consumer :=
  if c.filterInstance ∈ active.map Consumer.filterInstance then active else active ++ [c]

def remove (c : Consumer) (active : List Consumer) : List Consumer :=
  active.filter fun c' => c'.filterInstance ≠ c.filterInstance

def step (w : Watched) : Call EventT → Option Watched
  | .addFilter consumerHandle eventType aFilter => some <|
    if w.producer.pushing = none then
      { w with
        producer := (w.producer.onAddFilter F consumerHandle eventType aFilter).2
        active := if F.isValid aFilter then add ⟨consumerHandle, eventType, aFilter⟩ w.active else w.active }
    else w
  | .removeFilter consumerHandle eventType filters => some <|
    if w.producer.pushing = none then
      { w with
        producer := w.producer.onRemoveFilter consumerHandle eventType filters
        active := remove ⟨consumerHandle, eventType, filters⟩ w.active }
    else w
  | .clearAll => some <|
    if w.producer.pushing = none then { w with producer := w.producer.onClearAll, active := [] } else w
  | .sendEvent event => some <|
    if w.producer.pushing = none then
      { w with
        producer := w.producer.sendEvent F event
        due := w.due ++ (w.active.filter fun c => F.isMatch c.filter event).map fun c => (w.producer.created, c) }
    else w
  | .pushNext answer => (w.producer.pushNext answer).map fun producer => { w with producer }
  | .releaseRef event => (w.producer.releaseRef event).map fun producer => { w with producer }
  | .doneWithValue event c => (w.producer.onDoneWithValue event c).map fun producer => { w with producer }

/-- Each filter is known that is due, and once; those are notified that have to be, but for the ones a push has still
to notify; and an event is destroyed, once, when neither who pushed it nor whom it was given has it any more. -/
structure Right (w : Watched) : Prop where
  tracked : w.producer.consumers.Perm w.active
  distinct : (w.active.map Consumer.filterInstance).Nodup
  notified : (w.producer.notified ++
    w.producer.pushing.toList.flatMap fun x => x.2.map fun c => (x.1, c)).Perm w.due
  once : w.due.Nodup
  freedOnce : w.producer.refs.heap.freed.Nodup
  destroyed : ∀ event, event ∈ w.producer.refs.heap.freed ↔ event < w.producer.created ∧ event ∉ w.producer.holders

/-- No filter instance is added again while it is there; the first filter of the consumer is the one to be removed,
where it has any; and no consumer is told of that the router does not know. -/
def Fine (w : Watched) : Call EventT → Prop
  | .addFilter consumerHandle eventType aFilter => w.producer.pushing = none → F.isValid aFilter = true →
      (⟨consumerHandle, eventType, aFilter⟩ : Consumer).filterInstance ∉ w.producer.consumers.map
        Consumer.filterInstance
  | .removeFilter consumerHandle eventType filters => w.producer.pushing = none → ∀ c,
      w.producer.consumers.find? (Consumer.equals consumerHandle eventType) = some c →
        c.filter.address = filters.address
  | .pushNext answer => ∀ event f matches_, w.producer.pushing = some (event, f :: matches_) → answer = true
  | _ => True

theorem eraseP_eq_filter {p : Consumer → Bool} {l : List Consumer} (hnodup : (l.map Consumer.filterInstance).Nodup)
    {c : Consumer} (hfind : l.find? p = some c)
    (hp : ∀ c' ∈ l, c'.filterInstance = c.filterInstance → p c' = true) :
    l.eraseP p = l.filter fun c' => c'.filterInstance ≠ c.filterInstance := by
  induction l with
  | nil => cases hfind
  | cons x l ih =>
    rw [List.map_cons, List.nodup_cons] at hnodup
    obtain ⟨hx, hnodup⟩ := hnodup
    cases hpx : p x with
    | true =>
      rw [List.find?_cons_of_pos hpx] at hfind
      obtain rfl := Option.some.inj hfind
      have hrest : l.filter (fun c' => c'.filterInstance ≠ x.filterInstance) = l := by
        rw [List.filter_eq_self]
        intro c' hc'
        exact decide_eq_true fun heq => hx (heq ▸ List.mem_map_of_mem hc')
      rw [List.eraseP_cons_of_pos hpx, List.filter_cons_of_neg (by simp), hrest]
    | false =>
      have hne : x.filterInstance ≠ c.filterInstance := by
        intro heq
        rw [hp x List.mem_cons_self heq] at hpx
        cases hpx
      have hpx' : ¬ p x = true := Bool.eq_false_iff.mp hpx
      rw [List.find?_cons_of_neg hpx'] at hfind
      rw [List.eraseP_cons_of_neg hpx', List.filter_cons, if_pos (decide_eq_true hne),
        ih hnodup hfind fun c' hc' => hp c' (List.mem_cons_of_mem x hc')]

/-! ## What is kept -/

structure Kept (w : Watched) : Prop where
  consumers : w.producer.consumers = w.active
  distinct : (w.active.map Consumer.filterInstance).Nodup
  notified : (w.producer.notified ++
    w.producer.pushing.toList.flatMap fun x => x.2.map fun c => (x.1, c)).Perm w.due
  once : w.due.Nodup
  known : ∀ x ∈ w.due, x.1 < w.producer.created
  held : w.producer.refs.Held w.producer.holders
  blocks : ∀ event, event ∈ w.producer.refs.heap.blocks ↔ event < w.producer.created

section
variable {F} {w : Watched}

theorem kept_initial : Kept initial where
  consumers := rfl
  distinct := List.nodup_nil
  notified := List.Perm.nil
  once := List.nodup_nil
  known _ h := by cases h
  held := RefCounts.held_empty
  blocks _ := by simp [initial, EventProducer.initial, RefCounts.empty]

theorem Kept.right (h : Kept w) : Right w where
  tracked := List.Perm.of_eq h.consumers
  distinct := h.distinct
  notified := h.notified
  once := h.once
  freedOnce := (List.nodup_append.mp h.held.nodup).2.1
  destroyed event := by rw [h.held.mem_freed_iff, h.blocks]

theorem remove_eq_self {c : Consumer} {active : List Consumer}
    (h : ∀ c' ∈ active, c'.filterInstance ≠ c.filterInstance) :
    remove c active = active := List.filter_eq_self.mpr fun c' hc' => decide_eq_true (h c' hc')

theorem equals_of_filterInstance {c : Consumer} {consumerHandle : Nat} {eventType : String} {filters : MafFilters}
    (h : c.filterInstance = (⟨consumerHandle, eventType, filters⟩ : Consumer).filterInstance) :
    c.equals consumerHandle eventType = true := by
  obtain ⟨hhandle, htype⟩ := Prod.ext_iff.mp h
  have htype' : c.eventType = eventType := congrArg Prod.fst htype
  have hhandle' : c.consumerHandle = consumerHandle := hhandle
  simp [Consumer.equals, hhandle', htype']

theorem filterInstance_of_equals {c : Consumer} {consumerHandle : Nat} {eventType : String} {filters : MafFilters}
    (h : c.equals consumerHandle eventType = true) (haddress : c.filter.address = filters.address) :
    c.filterInstance = (⟨consumerHandle, eventType, filters⟩ : Consumer).filterInstance := by
  unfold Consumer.equals at h
  simp only [Bool.and_eq_true, decide_eq_true_eq] at h
  simp [Consumer.filterInstance, h.1, h.2, haddress]

theorem eraseP_eq_remove {consumers : List Consumer} (hnodup : (consumers.map Consumer.filterInstance).Nodup)
    {consumerHandle : Nat} {eventType : String} {filters : MafFilters}
    (hfine : ∀ c, consumers.find? (Consumer.equals consumerHandle eventType) = some c →
      c.filter.address = filters.address) :
    consumers.eraseP (Consumer.equals consumerHandle eventType) =
      remove ⟨consumerHandle, eventType, filters⟩ consumers := by
  cases hfind : consumers.find? (Consumer.equals consumerHandle eventType) with
  | none =>
    have hnone := List.find?_eq_none.mp hfind
    rw [List.eraseP_of_forall_not hnone, remove_eq_self]
    exact fun c' hc' heq => hnone c' hc' (equals_of_filterInstance heq)
  | some c =>
    have hc := filterInstance_of_equals (List.find?_some hfind) (hfine c hfind)
    rw [eraseP_eq_filter hnodup hfind fun c' _ heq => equals_of_filterInstance (heq.trans hc), hc]
    rfl

/-- Otherwise another filter is removed, which is not to be. -/
theorem not_perm_remove {consumers : List Consumer} (hnodup : consumers.Nodup) {consumerHandle : Nat}
    {eventType : String}
    {filters : MafFilters} {c : Consumer}
    (hfind : consumers.find? (Consumer.equals consumerHandle eventType) = some c)
    (hother : c.filter.address ≠ filters.address) :
    ¬ (consumers.eraseP (Consumer.equals consumerHandle eventType)).Perm
      (remove ⟨consumerHandle, eventType, filters⟩ consumers) := by
  intro hperm
  have hmem : c ∈ remove ⟨consumerHandle, eventType, filters⟩ consumers := by
    refine List.mem_filter.mpr ⟨List.mem_of_find?_eq_some hfind, decide_eq_true fun heq => hother ?_⟩
    exact congrArg (fun x : Nat × String × Nat => x.2.2) heq
  have hgone : c ∉ consumers.eraseP (Consumer.equals consumerHandle eventType) := by
    obtain ⟨hc, before, after, rfl, hbefore⟩ := List.find?_eq_some_iff_append.mp hfind
    have hnone : ∀ b ∈ before, ¬ Consumer.equals consumerHandle eventType b = true := fun b hb => by
      simpa using hbefore b hb
    rw [List.eraseP_append_right _ hnone, List.eraseP_cons_of_pos hc]
    exact (List.nodup_cons.mp (List.nodup_middle.mp hnodup)).1
  exact hgone (hperm.mem_iff.mpr hmem)

theorem Kept.locked (h : Kept w) {w' : Watched} (hunlocked : w.producer.pushing = none → Kept w') :
    Kept (if w.producer.pushing = none then w' else w) := by
  split
  · exact hunlocked ‹_›
  · exact h

theorem Kept.addFilter (h : Kept w) {consumerHandle : Nat} {eventType : String} {aFilter : MafFilters}
    (hfresh : F.isValid aFilter = true →
      (⟨consumerHandle, eventType, aFilter⟩ : Consumer).filterInstance ∉ w.producer.consumers.map
        Consumer.filterInstance) :
    Kept { w with
      producer := (w.producer.onAddFilter F consumerHandle eventType aFilter).2
      active := if F.isValid aFilter then add ⟨consumerHandle, eventType, aFilter⟩ w.active else w.active } := by
  unfold EventProducer.onAddFilter
  split
  · rename_i hvalid
    have hnone := hfresh hvalid
    rw [h.consumers] at hnone
    have hadd : add ⟨consumerHandle, eventType, aFilter⟩ w.active = w.active ++
      [⟨consumerHandle, eventType, aFilter⟩] :=
      if_neg hnone
    refine ⟨?_, ?_, h.notified, h.once, h.known, h.held, h.blocks⟩
    · dsimp only
      rw [hadd, h.consumers]
    · dsimp only
      rw [hadd, List.map_append]
      exact List.nodup_append.mpr ⟨h.distinct, List.nodup_singleton _, fun a ha b hb heq =>
        hnone (List.mem_singleton.mp hb ▸ heq ▸ ha)⟩
  · exact h

theorem Kept.removeFilter (h : Kept w) {consumerHandle : Nat} {eventType : String} {filters : MafFilters}
    (hfine : ∀ c, w.producer.consumers.find? (Consumer.equals consumerHandle eventType) = some c →
      c.filter.address = filters.address) :
    Kept { w with
      producer := w.producer.onRemoveFilter consumerHandle eventType filters
      active := remove ⟨consumerHandle, eventType, filters⟩ w.active } := by
  rw [h.consumers] at hfine
  refine ⟨?_, ?_, h.notified, h.once, h.known, h.held, h.blocks⟩
  · unfold EventProducer.onRemoveFilter
    dsimp only
    rw [h.consumers]
    exact eraseP_eq_remove h.distinct hfine
  · exact h.distinct.sublist (List.filter_sublist.map _)

theorem Kept.clearAll (h : Kept w) : Kept { w with producer := w.producer.onClearAll, active := [] } :=
  ⟨rfl, List.nodup_nil, h.notified, h.once, h.known, h.held, h.blocks⟩

theorem Kept.sendEvent (h : Kept w) (hunlocked : w.producer.pushing = none) (event : EventT) :
    Kept { w with
      producer := w.producer.sendEvent F event
      due := w.due ++
        (w.active.filter fun c => F.isMatch c.filter event).map fun c => (w.producer.created, c) } := by
  have hnotified := h.notified
  have hheld := h.held
  rw [hunlocked, Option.toList_none, List.flatMap_nil, List.append_nil] at hnotified
  unfold EventProducer.holders at hheld
  rw [hunlocked] at hheld
  have hfresh : w.producer.created ∉ w.producer.refs.heap.blocks := fun hmem =>
    Nat.lt_irrefl _ ((h.blocks _).mp hmem)
  refine ⟨h.consumers, h.distinct, ?_, ?_, ?_, ?_, ?_⟩
  · unfold EventProducer.sendEvent
    rw [h.consumers, Option.toList_some, List.flatMap_singleton]
    exact hnotified.append_right _
  · refine List.nodup_append.mpr ⟨h.once, ?_, ?_⟩
    · have hactive := (List.Nodup.of_map _ h.distinct).filter fun c => F.isMatch c.filter event
      exact hactive.map fun c c' heq => (Prod.ext_iff.mp heq).2
    · rintro x hx y hy rfl
      obtain ⟨c, -, rfl⟩ := List.mem_map.mp hy
      exact absurd (h.known _ hx) (Nat.lt_irrefl _)
  · intro x hx
    rcases List.mem_append.mp hx with hx | hx
    · exact Nat.lt_succ_of_lt (h.known x hx)
    · obtain ⟨c, -, rfl⟩ := List.mem_map.mp hx
      exact Nat.lt_succ_self _
  · exact hheld.create hfresh
  · intro id
    unfold EventProducer.sendEvent RefCounts.create
    rw [Heap.blocks_allocate, List.mem_cons, h.blocks, Nat.lt_succ_iff_lt_or_eq, or_comm]

theorem Kept.notify (h : Kept w) {event : EventId} {f : Consumer} {matches_ : List Consumer}
    (hpushing : w.producer.pushing = some (event, f :: matches_)) :
    ∃ producer, w.producer.pushNext true = some producer ∧ Kept { w with producer } := by
  have hheld := h.held
  have hnotified := h.notified
  unfold EventProducer.holders at hheld
  rw [hpushing] at hheld hnotified
  obtain ⟨refs, hrefs, hmore, hheap⟩ := hheld.addRef List.mem_cons_self
  unfold EventProducer.pushNext
  rw [hpushing]
  dsimp only
  rw [hrefs]
  have hblocks (id : EventId) : id ∈ refs.heap.blocks ↔ id < w.producer.created := by
    rw [hheap]
    exact h.blocks id
  refine ⟨_, rfl, h.consumers, h.distinct, ?_, h.once, h.known, ?_, hblocks⟩
  · rw [Option.toList_some, List.flatMap_singleton, List.map_cons] at hnotified
    simp only [if_true, Option.toList_some, List.flatMap_singleton, List.append_assoc]
    exact hnotified
  · refine hmore.perm ?_
    have hmove : (event :: (w.producer.leaving ++ w.producer.outstanding.map Prod.fst)).Perm
        (w.producer.leaving ++ event :: w.producer.outstanding.map Prod.fst) := List.perm_middle.symm
    exact hmove.cons event

theorem Kept.pushNext (h : Kept w) {answer : Bool}
    (hfine : ∀ event f matches_, w.producer.pushing = some (event, f :: matches_) → answer = true) :
    ∃ producer, w.producer.pushNext answer = some producer ∧ Kept { w with producer } := by
  cases hpushing : w.producer.pushing with
  | none =>
    unfold EventProducer.pushNext
    rw [hpushing]
    exact ⟨_, rfl, h⟩
  | some x =>
    obtain ⟨event, matches_⟩ := x
    cases matches_ with
    | nil =>
      have hheld := h.held
      have hnotified := h.notified
      unfold EventProducer.holders at hheld
      rw [hpushing] at hheld hnotified
      unfold EventProducer.pushNext
      rw [hpushing]
      exact ⟨_, rfl, h.consumers, h.distinct, hnotified, h.once, h.known, hheld, h.blocks⟩
    | cons f matches_ =>
      rw [hfine event f matches_ hpushing]
      exact h.notify hpushing

theorem Kept.releaseRef (h : Kept w) (event : EventId) :
    ∃ producer, w.producer.releaseRef event = some producer ∧ Kept { w with producer } := by
  unfold EventProducer.releaseRef
  split
  · rename_i hleaving
    have hperm : w.producer.holders.Perm (event :: (w.producer.pushing.toList.map Prod.fst ++
        (w.producer.leaving.erase event ++ w.producer.outstanding.map Prod.fst))) :=
      (((List.perm_cons_erase hleaving).append_right _).append_left _).trans List.perm_middle
    obtain ⟨refs, hrefs, hheld, hblocks⟩ := (h.held.perm hperm).releaseRef
    rw [hrefs]
    refine ⟨_, rfl, h.consumers, h.distinct, h.notified, h.once, h.known, hheld, fun id => ?_⟩
    exact hblocks.mem_iff.trans (h.blocks id)
  · exact ⟨_, rfl, h⟩

theorem Kept.doneWithValue (h : Kept w) (event : EventId) (c : Consumer) :
    ∃ producer, w.producer.onDoneWithValue event c = some producer ∧ Kept { w with producer } := by
  unfold EventProducer.onDoneWithValue
  split
  · rename_i houtstanding
    have hgiven : (w.producer.outstanding.map Prod.fst).Perm
        (event :: (w.producer.outstanding.erase (event, c)).map Prod.fst) :=
      (List.perm_cons_erase houtstanding).map Prod.fst
    have hleaving : (w.producer.leaving ++ w.producer.outstanding.map Prod.fst).Perm
        (event :: (w.producer.leaving ++ (w.producer.outstanding.erase (event, c)).map Prod.fst)) :=
      (hgiven.append_left _).trans List.perm_middle
    have hperm : w.producer.holders.Perm (event :: (w.producer.pushing.toList.map Prod.fst ++
        (w.producer.leaving ++ (w.producer.outstanding.erase (event, c)).map Prod.fst))) :=
      (hleaving.append_left _).trans List.perm_middle
    obtain ⟨refs, hrefs, hheld, hblocks⟩ := (h.held.perm hperm).releaseRef
    rw [hrefs]
    refine ⟨_, rfl, h.consumers, h.distinct, h.notified, h.once, h.known, hheld, fun id => ?_⟩
    exact hblocks.mem_iff.trans (h.blocks id)
  · exact ⟨_, rfl, h⟩

theorem Kept.step (h : Kept w) {call : Call EventT} (hfine : Fine F w call) :
    ∃ w', Watched.step F w call = some w' ∧ Kept w' := by
  cases call with
  | addFilter consumerHandle eventType aFilter =>
    exact ⟨_, rfl, h.locked fun hunlocked => h.addFilter (hfine hunlocked)⟩
  | removeFilter consumerHandle eventType filters =>
    exact ⟨_, rfl, h.locked fun hunlocked => h.removeFilter (hfine hunlocked)⟩
  | clearAll => exact ⟨_, rfl, h.locked fun _ => h.clearAll⟩
  | sendEvent event => exact ⟨_, rfl, h.locked fun hunlocked => h.sendEvent hunlocked event⟩
  | pushNext answer =>
    obtain ⟨producer, hproducer, hkept⟩ := h.pushNext hfine
    exact ⟨_, Option.map_eq_some_iff.mpr ⟨producer, hproducer, rfl⟩, hkept⟩
  | releaseRef event =>
    obtain ⟨producer, hproducer, hkept⟩ := h.releaseRef event
    exact ⟨_, Option.map_eq_some_iff.mpr ⟨producer, hproducer, rfl⟩, hkept⟩
  | doneWithValue event c =>
    obtain ⟨producer, hproducer, hkept⟩ := h.doneWithValue event c
    exact ⟨_, Option.map_eq_some_iff.mpr ⟨producer, hproducer, rfl⟩, hkept⟩

theorem Kept.fine (h : Kept w) {call : Call EventT} {w' : Watched} (hstep : Watched.step F w call = some w')
    (hright : Right w') :
    Fine F w call := by
  cases call with
  | addFilter consumerHandle eventType aFilter =>
    intro hunlocked hvalid hmem
    obtain rfl := Option.some.inj hstep
    have htracked := hright.tracked
    rw [if_pos hunlocked] at htracked
    dsimp only [EventProducer.onAddFilter] at htracked
    rw [if_pos hvalid, if_pos hvalid, ← h.consumers, add, if_pos hmem] at htracked
    have hlength := htracked.length_eq
    rw [List.length_append, List.length_singleton] at hlength
    omega
  | removeFilter consumerHandle eventType filters =>
    intro hunlocked c hfind
    obtain rfl := Option.some.inj hstep
    have htracked := hright.tracked
    rw [if_pos hunlocked] at htracked
    dsimp only [EventProducer.onRemoveFilter] at htracked
    rw [← h.consumers] at htracked
    by_contra hother
    have hnodup : w.producer.consumers.Nodup := by
      rw [h.consumers]
      exact List.Nodup.of_map _ h.distinct
    exact not_perm_remove hnodup hfind hother htracked
  | clearAll => trivial
  | sendEvent event => trivial
  | pushNext answer =>
    intro event f matches_ hpushing
    obtain ⟨producer, hproducer, rfl⟩ := Option.map_eq_some_iff.mp hstep
    by_contra hanswer
    have hbefore := h.notified.length_eq
    have hafter := hright.notified.length_eq
    unfold EventProducer.pushNext at hproducer
    rw [hpushing] at hproducer hbefore
    obtain ⟨refs, -, rfl⟩ := Option.map_eq_some_iff.mp hproducer
    rw [if_neg hanswer] at hafter
    simp only [Option.toList_some, List.flatMap_singleton, List.length_append, List.length_map,
      List.length_cons] at hbefore hafter
    omega
  | releaseRef event => trivial
  | doneWithValue event c => trivial

end

end Watched

open Watched

def Going (P : Watched → Prop) (o : Option Watched) : Prop := ∃ w, o = some w ∧ P w

/-- In every state of the run all is right, and no event that was destroyed is used. -/
theorem tracked_throughout_iff {EventT : Type} (F : FilterMatcher EventT) (calls : List (Call EventT)) :
    Throughout (fun o call => o.bind fun w => step F w call) (Going Right) (some Watched.initial) calls ↔
      Along (fun o call => o.bind fun w => step F w call) (fun o call => ∀ w, o = some w → Fine F w call)
        (some Watched.initial) calls := by
  have hlegal : Along (fun o call => o.bind fun w => step F w call) (fun _ _ => True) (some Watched.initial)
    calls :=
    along_of_split fun _ _ _ _ => trivial
  refine throughout_iff_along_of (J := Going Watched.Kept) ?_ ?_ ?_ ⟨_, rfl, kept_initial⟩ hlegal
  · rintro o ⟨w, rfl, h⟩
    exact ⟨w, rfl, h.right⟩
  · rintro o call ⟨w, rfl, h⟩ - hfine
    exact h.step (hfine w rfl)
  · rintro o call ⟨w, rfl, h⟩ - ⟨w', hstep, hright⟩ _ ⟨⟩
    exact h.fine hstep hright

end ComSA.Events
