import ComSA.OIproxy.Transactions

/-!
# The two queues

IMM queues the callbacks of the main implementer and those of the applier apart. One thread takes
them, at most one of each queue in a round and the main implementer's first, and only where the poll
that began the round saw it.
-/

namespace ComSA.OIproxy

open OIProxy

inductive CallbackKind where
  | request
  | completed
  | over
  | struct
  | structOver
  | own
  deriving DecidableEq, Repr

namespace OICallback

def kind : OICallback → CallbackKind
  | createObject .. | deleteObject .. | modification .. => .request
  | completed .. => .completed
  | apply _ | abort _ => .over
  | structCreate .. | structModification .. => .struct
  | structApply _ | structAbort _ => .structOver
  | adminOperation _ | rtAttrUpdate _ => .own

def ccb : OICallback → Option CcbId
  | createObject c _ | deleteObject c _ | modification c _ | completed c _ | apply c | abort c
  | structCreate c _ | structModification c _ | structApply c | structAbort c => some c
  | adminOperation _ | rtAttrUpdate _ => none

def structValues (c : CcbId) : OICallback → List (String × String × StructValue)
  | structCreate c' a | structModification c' a => if c' = c then a.values else []
  | _ => []

end OICallback

structure Imm where
  closed : CcbId → Bool
  ended : CcbId → Bool
  values : CcbId → List (String × String × StructValue)

namespace Imm

def initial : Imm := ⟨fun _ => false, fun _ => false, fun _ => []⟩

def queueMain (callback : OICallback) (imm : Imm) : Imm where
  closed c := imm.closed c || callback.ccb = some c && callback.kind ≠ .request
  ended c := imm.ended c || callback.ccb = some c && callback.kind = .over
  values := imm.values

def queueApplier (callback : OICallback) (imm : Imm) : Imm :=
  { imm with values := fun c => imm.values c ++ callback.structValues c }

end Imm

inductive Point where
  | poll
  | main
  | applier
  deriving DecidableEq, Repr

structure Dispatcher where
  run : OIRun
  mainQueue : List OICallback
  applierQueue : List OICallback
  mainReady : Bool
  applierReady : Bool
  next : Point
  imm : Imm

inductive Event where
  | queueMain (callback : OICallback)
  | queueApplier (callback : OICallback)
  | dispatch

namespace Dispatcher

def initial : Dispatcher := ⟨OIRun.initial, [], [], false, false, .poll, Imm.initial⟩

def waiting (c : CcbId) (d : Dispatcher) : List (String × String × StructValue) :=
  d.applierQueue.flatMap (OICallback.structValues c)

def current (d : Dispatcher) : Option OICallback :=
  match d.next with
  | .poll => none
  | .main => if d.mainReady then d.mainQueue.head? else none
  | .applier => if d.applierReady then d.applierQueue.head? else none

def dispatchToImm (answers : Nat → MafReturn) (d : Dispatcher) : Option Dispatcher :=
  match d.next with
  | .poll =>
    some { d with mainReady := !d.mainQueue.isEmpty, applierReady := !d.applierQueue.isEmpty, next := .main }
  | .main =>
    match d.current with
    | none => some { d with next := .applier }
    | some callback => (OIRun.step answers (some d.run) callback).map fun run =>
      { d with run := run, mainQueue := d.mainQueue.tail, next := .applier }
  | .applier =>
    match d.current with
    | none => some { d with next := .poll }
    | some callback => (OIRun.step answers (some d.run) callback).map fun run =>
      { d with run := run, applierQueue := d.applierQueue.tail, next := .poll }

def step (answers : Nat → MafReturn) (o : Option Dispatcher) (e : Event) : Option Dispatcher :=
  o.bind fun d =>
    match e with
    | .queueMain callback =>
      some { d with mainQueue := d.mainQueue ++ [callback], imm := d.imm.queueMain callback }
    | .queueApplier callback =>
      some { d with applierQueue := d.applierQueue ++ [callback], imm := d.imm.queueApplier callback }
    | .dispatch => d.dispatchToImm answers

end Dispatcher

/-- What IMM queues: the requests and the struct values before completed and abort, apply where completed
was answered without an error, and the end of the applier with the end of the CCB. -/
def Event.Legal (o : Option Dispatcher) (e : Event) : Prop :=
  ∀ d ∈ o,
    match e with
    | .queueMain callback =>
      match callback with
      | .createObject c _ | .deleteObject c _ | .modification c _ | .completed c _ => d.imm.closed c = false
      | .apply c => d.imm.ended c = false ∧ d.run.main c = .prepared
      | .abort c => d.imm.ended c = false
      | .adminOperation _ | .rtAttrUpdate _ => True
      | _ => False
    | .queueApplier callback =>
      match callback with
      | .structCreate c _ | .structModification c _ => d.imm.closed c = false
      | .structApply c | .structAbort c => d.imm.ended c = true
      | _ => False
    | .dispatch => True

/-- When explicit prepare is called for a CCB all struct values that were queued for it have been sent,
and none is cached when its transaction is committed. -/
def Event.Right (answers : Nat → MafReturn) (o : Option Dispatcher) (e : Event) : Prop :=
  ∀ d ∈ o, ∃ d', Dispatcher.step answers (some d) e = some d' ∧
    ∀ entry ∈ d'.run.proxy.txLog.drop d.run.proxy.txLog.length, ∀ c, entry.owner = .ccb c →
      match entry.call with
      | .explicitPrepare _ => (d.imm.values c).Sublist (sentValues c d'.run.proxy.cache)
      | .commit => d'.run.proxy.cache.inUse c = none
      | _ => True

/-- When completed is dispatched no struct value of the CCB waits for the applier, and the applier has
not forgotten an error of the CCB yet. -/
def Event.Fine (answers : Nat → MafReturn) (o : Option Dispatcher) (e : Event) : Prop :=
  ∀ d ∈ o, ∀ callback, e = .dispatch → d.current = some callback →
    match callback with
    | .completed c _ =>
      d.run.proxy.ccbApplierError c = .ok →
        d.waiting c = [] ∧ d.run.applierEnded c = false
    | .modification c a => a.Fine answers c d.run.proxy
    | _ => True

/-! ## The invariant -/

def Follows (a b : OICallback) : Prop :=
  ∀ c, a.ccb = some c → b.ccb = some c → (a.kind ≠ .request → b.kind = .over) ∧ a.kind ≠ .over

structure CcbOk (c : CcbId) (d : Dispatcher) : Prop where
  opened : d.imm.closed c = false → d.run.main c = .inProgress ∧
    ∀ callback ∈ d.mainQueue, callback.ccb = some c → callback.kind = .request
  pending : ∀ callback ∈ d.mainQueue, callback.ccb = some c → callback.kind ≠ .over →
    d.run.main c = .inProgress
  going : d.imm.ended c = false → ∀ callback ∈ d.mainQueue, callback.ccb = some c → callback.kind ≠ .over
  applied : .apply c ∈ d.mainQueue → d.run.main c = .prepared
  prepared : d.run.main c = .prepared → d.run.proxy.cache.inUse c = none ∧ d.waiting c = []
  values : ∃ handled, d.imm.values c = handled ++ d.waiting c ∧
    (d.run.main c = .inProgress → d.run.proxy.ccbApplierError c = .ok → d.run.applierEnded c = false →
      handled.Sublist (sentValues c d.run.proxy.cache ++ cachedValues c d.run.proxy.cache))

structure Dispatcher.Inv (d : Dispatcher) : Prop where
  ok : d.run.proxy.Ok
  follows : d.mainQueue.Pairwise Follows
  onMain : ∀ callback ∈ d.mainQueue, callback.kind ≠ .struct ∧ callback.kind ≠ .structOver
  onApplier : ∀ callback ∈ d.applierQueue, callback.kind = .struct ∨ callback.kind = .structOver
  ccbs : ∀ c, CcbOk c d

/-! ## What a callback does to its CCB and to the others -/

def OICallback.Own (s : OIProxy) (err : SaAisError) (s' : OIProxy) : OICallback → Prop
  | createObject c _ | deleteObject c _ | modification c _ =>
    CacheStep c [] s.cache s'.cache ∧ s'.ccbApplierError = s.ccbApplierError
  | completed c prepare => CompletedStep c prepare s err s'
  | apply c => s' = handleCcbApply c s
  | abort _ => True
  | structCreate c a | structModification c a => StructStep c a s s'
  | structApply c | structAbort c => s' = s.removeCcbApplierError c
  | adminOperation _ | rtAttrUpdate _ => True

def OICallback.Calls (callback : OICallback) (entry : TxEntry) : Prop :=
  ∀ c, entry.owner = .ccb c → callback.ccb = some c ∧
    match entry.call with
    | .explicitPrepare _ => callback.kind = .completed
    | .commit => callback = .apply c
    | _ => True

structure Effect (callback : OICallback) (s : OIProxy) (err : SaAisError) (s' : OIProxy) : Prop where
  ok : s'.Ok
  own : callback.Own s err s'
  cache : ∀ c, callback.ccb ≠ some c → s'.cache.inUse c = s.cache.inUse c ∧ callsOf c s'.cache = callsOf c s.cache
  errors : ∀ c, callback.ccb ≠ some c → s'.ccbApplierError c = s.ccbApplierError c
  calls : ∃ added, s'.txLog = s.txLog ++ added ∧ ∀ entry ∈ added, callback.Calls entry

section
variable {answers : Nat → MafReturn} {s s' : OIProxy} {c : CcbId} {callback : OICallback} {err : SaAisError}

theorem others_of_elsewhere {cache cache' : StructCache} (h : Elsewhere c cache cache')
    (hccb : callback.ccb = some c) :
    ∀ c', callback.ccb ≠ some c' → cache'.inUse c' = cache.inUse c' ∧ callsOf c' cache' = callsOf c' cache := by
  intro c' hc'
  have hc : c' ≠ c := by
    rintro rfl
    exact hc' hccb
  exact ⟨inUse_of_elsewhere h hc, (h c' hc).2⟩

theorem calls_of_opened (hccb : callback.ccb = some c) (h : Opened (.ccb c) c s s') :
    ∃ added, s'.txLog = s.txLog ++ added ∧ ∀ entry ∈ added, callback.Calls entry := by
  rcases h with rfl | ⟨_, rfl⟩
  · exact ⟨[], (List.append_nil _).symm, fun _ hentry => nomatch hentry⟩
  · refine ⟨_, rfl, fun entry hentry => ?_⟩
    rw [List.mem_singleton.mp hentry]
    intro c' hc'
    cases hc'
    exact ⟨hccb, trivial⟩

theorem effect_of_ccbStep (h : s.Ok) (hccb : callback.ccb = some c) (hstep : CcbStep c s s')
    (hown : callback.Own s err s') : Effect callback s err s' where
  ok := h.ccbStep hstep
  own := hown
  cache := others_of_elsewhere hstep.cache.elsewhere hccb
  errors c' hc' := hstep.errors c' (by
    rintro rfl
    exact hc' hccb)
  calls := by
    obtain ⟨s₁, hopened, _, _, hlog⟩ := hstep.opened
    rw [hlog]
    exact calls_of_opened hccb hopened

theorem effect_of_ownStep (owner : Owner) (howner : ∀ c, owner ≠ .ccb c) (hstep : OwnStep owner s s')
    (hown : callback.Own s err s') : Effect callback s err s' where
  ok := hstep.ok
  own := hown
  cache _ _ := by rw [hstep.cache]; exact ⟨rfl, rfl⟩
  errors _ _ := by rw [hstep.errors]
  calls := by
    obtain ⟨added, hlog, hadded⟩ := hstep.log
    refine ⟨added, hlog, fun entry hentry c hc => ?_⟩
    exact absurd ((hadded entry hentry).symm.trans hc) (howner c)

theorem effect_of_elsewhere (hccb : callback.ccb = some c) (hok : s'.Ok) (hown : callback.Own s err s')
    (helse : Elsewhere c s.cache s'.cache) (herrors : s'.ccbApplierError = s.ccbApplierError) {tx : TxHandle}
    {k : TxCall} (hlog : s'.txLog = s.txLog ++ [⟨.ccb c, tx, k⟩]) (hcalls : callback.Calls ⟨.ccb c, tx, k⟩) :
    Effect callback s err s' where
  ok := hok
  own := hown
  cache := others_of_elsewhere helse hccb
  errors _ _ := by rw [herrors]
  calls := by
    refine ⟨_, hlog, fun entry hentry => ?_⟩
    rw [List.mem_singleton.mp hentry]
    exact hcalls

theorem effect_same (h : s.Ok) (hown : callback.Own s err s) : Effect callback s err s where
  ok := h
  own := hown
  cache _ _ := ⟨rfl, rfl⟩
  errors _ _ := rfl
  calls := ⟨[], (List.append_nil _).symm, fun _ hentry => nomatch hentry⟩

theorem effect_completed (h : s.Ok) {prepare : MafReturn} (hstep : CompletedStep c prepare s err s') :
    Effect (.completed c prepare) s err s' := by
  have hcalls : ∀ tx, (OICallback.completed c prepare).Calls ⟨.ccb c, tx, .explicitPrepare prepare⟩ := by
    intro tx c' hc'
    cases hc'
    exact ⟨rfl, rfl⟩
  have hsent : ∀ {cache : StructCache}, s.ccbTxMap c ≠ none → CacheStep c [] s.cache cache →
      OIProxy.Ok { s with cache := cache } :=
    fun hopen hcache => h.ccbStep (CcbStep.of_cache (Or.inl rfl) hopen hcache)
  have hown : (OICallback.completed c prepare).Own s err s' := hstep
  cases hstep with
  | error _ => exact effect_same h hown
  | noTransaction _ _ => exact effect_same h hown
  | notSent hopen hcache =>
    exact ⟨hsent hopen hcache, hown, others_of_elsewhere hcache.elsewhere rfl, fun _ _ => rfl, [],
      (List.append_nil _).symm, fun _ hentry => nomatch hentry⟩
  | prepared _ htx hcache _ _ =>
    have hopen : s.ccbTxMap c ≠ none := by
      rw [htx]
      exact Option.some_ne_none _
    exact effect_of_elsewhere rfl ((hsent hopen hcache).call ..) hown hcache.elsewhere rfl rfl (hcalls _)
  | notPrepared _ htx hcache hnone _ =>
    exact effect_of_elsewhere rfl ((h.removed hcache.slots hcache.elsewhere hnone).call ..) hown
      hcache.elsewhere rfl rfl (hcalls _)

theorem effect_apply (h : s.Ok) (c : CcbId) (hcached : s.cache.inUse c = none) :
    Effect (.apply c) s .ok (handleCcbApply c s) := by
  unfold handleCcbApply
  cases htx : s.ccbTxMap c with
  | none =>
    refine effect_same h ?_
    rw [OICallback.Own, handleCcbApply, htx]
  | some tx =>
    refine effect_of_elsewhere rfl ((h.removed h.slots (Elsewhere.refl c _) hcached).call ..) ?_
      (Elsewhere.refl c _) rfl rfl ?_
    · rw [OICallback.Own, handleCcbApply, htx]
    · intro c' hc'
      cases hc'
      exact ⟨rfl, rfl⟩

theorem effect_abort (h : s.Ok) (c : CcbId) :
    ∃ s', handleCcbAbort c s = some s' ∧ Effect (.abort c) s .ok s' := by
  rcases abort_spec c h with ⟨_, habort⟩ | ⟨tx, cache, htx, hslots, helse, hnone, habort⟩
  · exact ⟨s, habort, effect_same h trivial⟩
  · refine ⟨_, habort, effect_of_elsewhere rfl ((h.removed hslots helse hnone).call ..) trivial helse rfl rfl ?_⟩
    intro c' hc'
    cases hc'
    exact ⟨rfl, trivial⟩

theorem effect_structOver (h : s.Ok) (hccb : callback.ccb = some c)
    (hown : callback.Own s err (s.removeCcbApplierError c)) :
    Effect callback s err (s.removeCcbApplierError c) where
  ok := h.setError .ok
  own := hown
  cache _ _ := ⟨rfl, rfl⟩
  errors c' hc' := Function.update_of_ne (by
    rintro rfl
    exact hc' hccb) ..
  calls := ⟨[], (List.append_nil _).symm, fun _ hentry => nomatch hentry⟩

variable (answers) in
theorem run_spec (h : s.Ok) (callback : OICallback)
    (happly : ∀ c, callback = .apply c → s.cache.inUse c = none)
    (hmodification : ∀ c a, callback = .modification c a → a.Fine answers c s) :
    ∃ err s', callback.run answers s = some (err, s') ∧ Effect callback s err s' := by
  cases callback with
  | createObject c a =>
    obtain ⟨err, s', hrun, hstep, herrors⟩ := createObject_spec answers (c := c) a h.slots
    exact ⟨err, s', hrun, effect_of_ccbStep h rfl hstep ⟨hstep.cache, herrors⟩⟩
  | deleteObject c a =>
    obtain ⟨err, s', hrun, hstep, herrors⟩ := deleteObject_spec answers (c := c) a h.slots
    exact ⟨err, s', hrun, effect_of_ccbStep h rfl hstep ⟨hstep.cache, herrors⟩⟩
  | modification c a =>
    obtain ⟨err, s', hrun, hstep, herrors⟩ := modification_spec a h.slots (hmodification c a rfl)
    exact ⟨err, s', hrun, effect_of_ccbStep h rfl hstep ⟨hstep.cache, herrors⟩⟩
  | completed c prepare =>
    obtain ⟨err, s', hrun, hstep⟩ := completed_spec answers h c prepare
    exact ⟨err, s', hrun, effect_completed h hstep⟩
  | apply c => exact ⟨.ok, _, rfl, effect_apply h c (happly c rfl)⟩
  | abort c =>
    obtain ⟨s', hrun, heffect⟩ := effect_abort h c
    exact ⟨.ok, s', by rw [OICallback.run, hrun, Option.map_some], heffect⟩
  | structCreate c a =>
    obtain ⟨err, s', hrun, hstep⟩ := setStruct_spec answers (c := c) .badOperation (fun h => by cases h) a h.slots
    exact ⟨err, s', hrun, effect_of_ccbStep h rfl hstep.toCcbStep hstep⟩
  | structModification c a =>
    obtain ⟨err, s', hrun, hstep⟩ := setStruct_spec answers (c := c) .failedOperation (fun h => by cases h) a h.slots
    exact ⟨err, s', hrun, effect_of_ccbStep h rfl hstep.toCcbStep hstep⟩
  | structApply c => exact ⟨.ok, _, rfl, effect_structOver h rfl rfl⟩
  | structAbort c => exact ⟨.ok, _, rfl, effect_structOver h rfl rfl⟩
  | adminOperation a =>
    obtain ⟨s', hrun, hstep⟩ := adminOperation_spec h a
    exact ⟨.ok, s', by rw [OICallback.run, hrun, Option.map_some],
      effect_of_ownStep .adminOperation (fun _ h => by cases h) hstep trivial⟩
  | rtAttrUpdate a =>
    exact ⟨.ok, _, rfl, effect_of_ownStep .rtAttrUpdate (fun _ h => by cases h) (rtAttrUpdate_spec h a) trivial⟩

end

/-! ## One CCB -/

section
variable {answers : Nat → MafReturn} {d d' : Dispatcher} {c : CcbId} {callback : OICallback}
  {err : SaAisError} {s' : OIProxy}

theorem CcbOk.frame (h : CcbOk c d) (himm : d'.imm.closed c = d.imm.closed c ∧ d'.imm.ended c = d.imm.ended c ∧
      d'.imm.values c = d.imm.values c)
    (hphase : d'.run.main c = d.run.main c ∧ d'.run.applierEnded c = d.run.applierEnded c)
    (hcache : d'.run.proxy.cache.inUse c = d.run.proxy.cache.inUse c ∧
      callsOf c d'.run.proxy.cache = callsOf c d.run.proxy.cache)
    (herror : d'.run.proxy.ccbApplierError c = d.run.proxy.ccbApplierError c)
    (hqueue : ∀ callback ∈ d'.mainQueue, callback.ccb = some c → callback ∈ d.mainQueue)
    (hwaiting : d'.waiting c = d.waiting c) : CcbOk c d' := by
  obtain ⟨hclosed, hended, hvalues⟩ := himm
  obtain ⟨hmain, happlier⟩ := hphase
  have hsent : sentValues c d'.run.proxy.cache = sentValues c d.run.proxy.cache := by
    rw [sentValues, hcache.2, sentValues]
  have hcached : cachedValues c d'.run.proxy.cache = cachedValues c d.run.proxy.cache := by
    rw [cachedValues, hcache.1, cachedValues]
  constructor
  · rw [hclosed, hmain]
    intro hopen
    exact ⟨(h.opened hopen).1, fun cb hcb hccb => (h.opened hopen).2 cb (hqueue cb hcb hccb) hccb⟩
  · rw [hmain]
    exact fun cb hcb hccb => h.pending cb (hqueue cb hcb hccb) hccb
  · rw [hended]
    exact fun hgoing cb hcb hccb => h.going hgoing cb (hqueue cb hcb hccb) hccb
  · rw [hmain]
    exact fun hcb => h.applied (hqueue _ hcb rfl)
  · rw [hmain, hcache.1, hwaiting]
    exact h.prepared
  · rw [hvalues, hwaiting, hmain, herror, happlier, hsent, hcached]
    exact h.values

/-- The state after the callback, which was the first in its queue. -/
def Dispatcher.afterMain (callback : OICallback) (err : SaAisError) (s' : OIProxy) (d : Dispatcher) : Dispatcher :=
  { d with
    run := OIRun.note callback err { d.run with proxy := s' }
    mainQueue := d.mainQueue.tail
    next := .applier }

def Dispatcher.afterApplier (callback : OICallback) (err : SaAisError) (s' : OIProxy) (d : Dispatcher) :
    Dispatcher :=
  { d with
    run := OIRun.note callback err { d.run with proxy := s' }
    applierQueue := d.applierQueue.tail
    next := .poll }

theorem note_proxy (r : OIRun) : (OIRun.note callback err r).proxy = r.proxy := by
  cases callback <;> rfl

theorem note_others (r : OIRun) (h : callback.ccb ≠ some c) :
    (OIRun.note callback err r).main c = r.main c ∧
      (OIRun.note callback err r).applierEnded c = r.applierEnded c := by
  cases callback with
  | completed c' _ | apply c' | abort c' =>
    have hc : c ≠ c' := by
      rintro rfl
      exact h rfl
    exact ⟨Function.update_of_ne hc .., rfl⟩
  | structApply c' | structAbort c' =>
    have hc : c ≠ c' := by
      rintro rfl
      exact h rfl
    exact ⟨rfl, Function.update_of_ne hc ..⟩
  | _ => exact ⟨rfl, rfl⟩

theorem CcbOk.request (h : CcbOk c d) (hpending : d.run.main c = .inProgress)
    (hnote : OIRun.note callback err { d.run with proxy := s' } = { d.run with proxy := s' })
    (hcache : CacheStep c [] d.run.proxy.cache s'.cache)
    (herrors : s'.ccbApplierError = d.run.proxy.ccbApplierError) :
    CcbOk c (d.afterMain callback err s') := by
  have hrun : (d.afterMain callback err s').run = { d.run with proxy := s' } := hnote
  constructor
  · rw [hrun]
    intro hopen
    exact ⟨hpending, fun cb hcb hccb => (h.opened hopen).2 cb (List.mem_of_mem_tail hcb) hccb⟩
  · rw [hrun]
    exact fun _ _ _ _ => hpending
  · exact fun hgoing cb hcb hccb => h.going hgoing cb (List.mem_of_mem_tail hcb) hccb
  · rw [hrun]
    exact fun hcb => h.applied (List.mem_of_mem_tail hcb)
  · rw [hrun]
    intro hprepared
    cases hpending.symm.trans hprepared
  · obtain ⟨handled, hvalues, hhandled⟩ := h.values
    refine ⟨handled, hvalues, ?_⟩
    rw [hrun]
    intro hmain herror happlier
    have hall := hcache.values
    rw [List.append_nil] at hall
    refine (hhandled hmain ?_ happlier).trans hall
    rw [← herrors]
    exact herror

theorem CcbOk.completed (h : CcbOk c d) (hok : d.run.proxy.Ok) {prepare : MafReturn} {rest : List OICallback}
    (hqueue : d.mainQueue = .completed c prepare :: rest) (hfollows : d.mainQueue.Pairwise Follows)
    (hstep : CompletedStep c prepare d.run.proxy err s')
    (hfine : d.run.proxy.ccbApplierError c = .ok → d.waiting c = [] ∧ d.run.applierEnded c = false) :
    CcbOk c (d.afterMain (.completed c prepare) err s') := by
  rw [hqueue] at hfollows
  have hmem : OICallback.completed c prepare ∈ d.mainQueue := by
    rw [hqueue]
    exact List.mem_cons_self ..
  have htail : (d.afterMain (.completed c prepare) err s').mainQueue = rest := by
    rw [Dispatcher.afterMain, hqueue]
    rfl
  have hmain : (d.afterMain (.completed c prepare) err s').run.main c = if err = .ok then .prepared else
    .rejected :=
    Function.update_self ..
  have hover : ∀ cb ∈ rest, cb.ccb = some c → cb.kind = .over := fun cb hcb hccb =>
    (List.rel_of_pairwise_cons hfollows hcb c rfl hccb).1 fun h => nomatch h
  have hphase : (d.afterMain (.completed c prepare) err s').run.main c ≠ .inProgress := by
    rw [hmain]
    split <;> exact fun h => nomatch h
  constructor
  · intro hopen
    have := (h.opened hopen).2 _ hmem rfl
    cases this
  · rw [htail]
    exact fun cb hcb hccb hnot => absurd (hover cb hcb hccb) hnot
  · rw [htail]
    intro hgoing cb hcb hccb
    refine h.going hgoing cb ?_ hccb
    rw [hqueue]
    exact List.mem_cons_of_mem _ hcb
  · rw [htail]
    intro hcb
    have happly : OICallback.apply c ∈ d.mainQueue := by
      rw [hqueue]
      exact List.mem_cons_of_mem _ hcb
    have hpending := h.pending _ hmem rfl fun h => nomatch h
    cases hpending.symm.trans (h.applied happly)
  · rw [hmain]
    intro hprepared
    have hwaits : (d.afterMain (.completed c prepare) err s').waiting c = d.waiting c := rfl
    have hproxy : (d.afterMain (.completed c prepare) err s').run.proxy = s' := rfl
    rw [hwaits, hproxy]
    cases hstep with
    | error herror =>
      rw [if_neg herror] at hprepared
      cases hprepared
    | noTransaction herror htx =>
      refine ⟨?_, (hfine herror).1⟩
      by_contra hcached
      exact hok.cached c hcached htx
    | notSent _ _ => cases hprepared
    | prepared herror _ _ hnone _ => exact ⟨hnone, (hfine herror).1⟩
    | notPrepared _ _ _ _ _ => cases hprepared
  · obtain ⟨handled, hvalues, _⟩ := h.values
    exact ⟨handled, hvalues, fun hprogress => absurd hprogress hphase⟩

theorem CcbOk.over (h : CcbOk c d) {rest : List OICallback} (hccb : callback.ccb = some c)
    (hkind : callback.kind = .over) (hqueue : d.mainQueue = callback :: rest)
    (hfollows : d.mainQueue.Pairwise Follows) : CcbOk c (d.afterMain callback err s') := by
  rw [hqueue] at hfollows
  have hmem : callback ∈ d.mainQueue := by
    rw [hqueue]
    exact List.mem_cons_self ..
  have hmain : (d.afterMain callback err s').run.main c = .ended := by
    cases callback with
    | apply _ | abort _ =>
      cases hccb
      exact Function.update_self ..
    | _ => cases hkind
  have hlast : ∀ cb ∈ (d.afterMain callback err s').mainQueue, cb.ccb ≠ some c := by
    intro cb hcb hccb'
    have hrest : cb ∈ rest := by
      rw [Dispatcher.afterMain, hqueue] at hcb
      exact hcb
    exact (List.rel_of_pairwise_cons hfollows hrest c hccb hccb').2 hkind
  constructor
  · intro hopen
    have := (h.opened hopen).2 _ hmem hccb
    rw [hkind] at this
    cases this
  · exact fun cb hcb hccb' => absurd hccb' (hlast cb hcb)
  · exact fun _ cb hcb hccb' => absurd hccb' (hlast cb hcb)
  · exact fun hcb => absurd rfl (hlast _ hcb)
  · rw [hmain]
    exact fun h => nomatch h
  · obtain ⟨handled, hvalues, _⟩ := h.values
    refine ⟨handled, hvalues, ?_⟩
    rw [hmain]
    exact fun h => nomatch h

variable (c err s') in
theorem waiting_cons {rest : List OICallback} (h : d.applierQueue = callback :: rest) :
    d.waiting c = callback.structValues c ++ (d.afterApplier callback err s').waiting c := by
  rw [Dispatcher.waiting, Dispatcher.waiting, Dispatcher.afterApplier, h]
  rfl

theorem CcbOk.struct (h : CcbOk c d) {a : StructAnswers} {rest : List OICallback}
    (hqueue : d.applierQueue = callback :: rest) (hvalues : callback.structValues c = a.values)
    (hnote : OIRun.note callback err { d.run with proxy := s' } = { d.run with proxy := s' })
    (hstep : StructStep c a d.run.proxy s') : CcbOk c (d.afterApplier callback err s') := by
  have hrun : (d.afterApplier callback err s').run = { d.run with proxy := s' } := hnote
  have hwaiting := waiting_cons c err s' hqueue
  rw [hvalues] at hwaiting
  constructor
  · rw [hrun]
    exact h.opened
  · rw [hrun]
    exact h.pending
  · exact h.going
  · rw [hrun]
    exact h.applied
  · rw [hrun]
    intro hprepared
    obtain ⟨hnone, hnothing⟩ := h.prepared hprepared
    rw [hwaiting] at hnothing
    obtain ⟨hidle, hrest⟩ := List.append_eq_nil_iff.mp hnothing
    refine ⟨?_, hrest⟩
    rw [hstep.idle hidle]
    exact hnone
  · obtain ⟨handled, hall, hhandled⟩ := h.values
    refine ⟨handled ++ a.values, ?_, ?_⟩
    · rw [List.append_assoc, ← hwaiting]
      exact hall
    · rw [hrun]
      intro hmain herror happlier
      exact ((hhandled hmain (hstep.error herror) happlier).append_right _).trans (hstep.value herror).values

theorem CcbOk.structOver (h : CcbOk c d) {rest : List OICallback} (hqueue : d.applierQueue = callback :: rest)
    (hccb : callback.ccb = some c) (hkind : callback.kind = .structOver) (hcache : s'.cache = d.run.proxy.cache) :
    CcbOk c (d.afterApplier callback err s') := by
  have hwaiting := waiting_cons c err s' hqueue
  have hphase : (d.afterApplier callback err s').run.main c = d.run.main c ∧
      (d.afterApplier callback err s').run.applierEnded c = true := by
    cases callback with
    | structApply _ | structAbort _ =>
      cases hccb
      exact ⟨rfl, Function.update_self ..⟩
    | _ => cases hkind
  have hproxy : (d.afterApplier callback err s').run.proxy = s' := note_proxy _
  have hvalues : callback.structValues c = [] := by
    cases callback with
    | structApply _ | structAbort _ => rfl
    | _ => cases hkind
  rw [hvalues, List.nil_append] at hwaiting
  constructor
  · rw [hphase.1]
    exact h.opened
  · rw [hphase.1]
    exact h.pending
  · exact h.going
  · rw [hphase.1]
    exact h.applied
  · rw [hphase.1, ← hwaiting, hproxy, hcache]
    exact h.prepared
  · obtain ⟨handled, hall, _⟩ := h.values
    refine ⟨handled, ?_, ?_⟩
    · rw [← hwaiting]
      exact hall
    · rw [hphase.2]
      exact fun _ _ h => nomatch h

/-! ## All CCBs -/

theorem CcbOk.othersMain (h : CcbOk c d) (heffect : Effect callback d.run.proxy err s')
    (hccb : callback.ccb ≠ some c) : CcbOk c (d.afterMain callback err s') := by
  have hproxy : (OIRun.note callback err { d.run with proxy := s' }).proxy = s' := note_proxy _
  refine h.frame ⟨rfl, rfl, rfl⟩ (note_others _ hccb) ?_ ?_ (fun cb hcb _ => List.mem_of_mem_tail hcb) rfl
  · rw [Dispatcher.afterMain, hproxy]
    exact heffect.cache c hccb
  · rw [Dispatcher.afterMain, hproxy]
    exact heffect.errors c hccb

theorem CcbOk.othersApplier (h : CcbOk c d) {rest : List OICallback} (hqueue : d.applierQueue = callback :: rest)
    (heffect : Effect callback d.run.proxy err s') (hccb : callback.ccb ≠ some c) :
    CcbOk c (d.afterApplier callback err s') := by
  have hproxy : (OIRun.note callback err { d.run with proxy := s' }).proxy = s' := note_proxy _
  have hwaiting := waiting_cons c err s' hqueue
  have hvalues : callback.structValues c = [] := by
    cases callback with
    | structCreate c' _ | structModification c' _ => exact if_neg fun hc => hccb (congrArg some hc)
    | _ => rfl
  rw [hvalues, List.nil_append] at hwaiting
  refine h.frame ⟨rfl, rfl, rfl⟩ (note_others _ hccb) ?_ ?_ (fun cb hcb _ => hcb) hwaiting.symm
  · rw [Dispatcher.afterApplier, hproxy]
    exact heffect.cache c hccb
  · rw [Dispatcher.afterApplier, hproxy]
    exact heffect.errors c hccb

theorem inv_main (h : d.Inv) {rest : List OICallback} (hqueue : d.mainQueue = callback :: rest)
    (heffect : Effect callback d.run.proxy err s')
    (hfine : ∀ c prepare, callback = .completed c prepare → d.run.proxy.ccbApplierError c = .ok →
      d.waiting c = [] ∧ d.run.applierEnded c = false) :
    (d.afterMain callback err s').Inv where
  ok := by
    rw [Dispatcher.afterMain, note_proxy]
    exact heffect.ok
  follows := h.follows.tail
  onMain cb hcb := h.onMain cb (List.mem_of_mem_tail hcb)
  onApplier := h.onApplier
  ccbs c := by
    have hmem : callback ∈ d.mainQueue := by
      rw [hqueue]
      exact List.mem_cons_self ..
    have hown := heffect.own
    have hon := h.onMain callback hmem
    by_cases hccb : callback.ccb = some c
    · have hpending := (h.ccbs c).pending callback hmem hccb
      cases callback with
      | createObject _ _ | deleteObject _ _ | modification _ _ =>
        cases hccb
        exact (h.ccbs c).request (hpending fun h => nomatch h) rfl hown.1 hown.2
      | completed _ prepare =>
        cases hccb
        exact (h.ccbs c).completed h.ok hqueue h.follows hown (hfine c prepare rfl)
      | apply _ | abort _ => exact (h.ccbs c).over hccb rfl hqueue h.follows
      | structCreate _ _ | structModification _ _ => exact absurd rfl hon.1
      | structApply _ | structAbort _ => exact absurd rfl hon.2
      | adminOperation _ | rtAttrUpdate _ => cases hccb
    · exact (h.ccbs c).othersMain heffect hccb

theorem inv_applier (h : d.Inv) {rest : List OICallback} (hqueue : d.applierQueue = callback :: rest)
    (heffect : Effect callback d.run.proxy err s') : (d.afterApplier callback err s').Inv where
  ok := by
    rw [Dispatcher.afterApplier, note_proxy]
    exact heffect.ok
  follows := h.follows
  onMain := h.onMain
  onApplier cb hcb := h.onApplier cb (List.mem_of_mem_tail hcb)
  ccbs c := by
    have hmem : callback ∈ d.applierQueue := by
      rw [hqueue]
      exact List.mem_cons_self ..
    have hown := heffect.own
    have hon := h.onApplier callback hmem
    by_cases hccb : callback.ccb = some c
    · cases callback with
      | structCreate _ a | structModification _ a =>
        cases hccb
        exact (h.ccbs c).struct hqueue (if_pos rfl) rfl hown
      | structApply _ | structAbort _ =>
        exact (h.ccbs c).structOver hqueue hccb rfl (by rw [hown]; rfl)
      | _ => rcases hon with hon | hon <;> cases hon
    · exact (h.ccbs c).othersApplier hqueue heffect hccb

/-! ## What is queued -/

theorem legal_queueMain (h : Event.Legal (some d) (.queueMain callback)) :
    (callback.kind ≠ .struct ∧ callback.kind ≠ .structOver) ∧ ∀ c, callback.ccb = some c →
      (callback.kind ≠ .over → d.imm.closed c = false) ∧ (callback.kind = .over → d.imm.ended c = false) ∧
        (callback = .apply c → d.run.main c = .prepared) := by
  have h := h d rfl
  cases callback with
  | createObject c' _ | deleteObject c' _ | modification c' _ | completed c' _ =>
    refine ⟨⟨(fun h => nomatch h), fun h => nomatch h⟩, fun c hc => ?_⟩
    cases hc
    exact ⟨fun _ => h, fun h => (nomatch h), fun h => nomatch h⟩
  | apply c' =>
    refine ⟨⟨(fun h => nomatch h), fun h => nomatch h⟩, fun c hc => ?_⟩
    cases hc
    exact ⟨fun hnot => absurd rfl hnot, fun _ => h.1, fun _ => h.2⟩
  | abort c' =>
    refine ⟨⟨(fun h => nomatch h), fun h => nomatch h⟩, fun c hc => ?_⟩
    cases hc
    exact ⟨fun hnot => absurd rfl hnot, fun _ => h, fun h => nomatch h⟩
  | adminOperation _ | rtAttrUpdate _ =>
    exact ⟨⟨(fun h => nomatch h), fun h => nomatch h⟩, fun c hc => nomatch hc⟩
  | _ => exact h.elim

theorem CcbOk.queueMain (h : CcbOk c d) (hlegal : Event.Legal (some d) (.queueMain callback)) :
    CcbOk c { d with mainQueue := d.mainQueue ++ [callback], imm := d.imm.queueMain callback } := by
  have hlegal := (legal_queueMain hlegal).2 c
  constructor
  · intro hopen
    obtain ⟨hclosed, hnew⟩ := Bool.or_eq_false_iff.mp hopen
    refine ⟨(h.opened hclosed).1, fun cb hcb hccb => ?_⟩
    rcases List.mem_append.mp hcb with hcb | hcb
    · exact (h.opened hclosed).2 cb hcb hccb
    · rw [List.mem_singleton.mp hcb] at hccb ⊢
      simpa [hccb] using hnew
  · intro cb hcb hccb hkind
    rcases List.mem_append.mp hcb with hcb | hcb
    · exact h.pending cb hcb hccb hkind
    · rw [List.mem_singleton.mp hcb] at hccb hkind
      exact (h.opened ((hlegal hccb).1 hkind)).1
  · intro hgoing cb hcb hccb
    obtain ⟨hended, hnew⟩ := Bool.or_eq_false_iff.mp hgoing
    rcases List.mem_append.mp hcb with hcb | hcb
    · exact h.going hended cb hcb hccb
    · rw [List.mem_singleton.mp hcb] at hccb ⊢
      simpa [hccb] using hnew
  · intro hcb
    rcases List.mem_append.mp hcb with hcb | hcb
    · exact h.applied hcb
    · have heq := List.mem_singleton.mp hcb
      exact (hlegal (by rw [← heq]; rfl)).2.2 heq.symm
  · exact h.prepared
  · exact h.values

theorem inv_queueMain (h : d.Inv) (hlegal : Event.Legal (some d) (.queueMain callback)) :
    Dispatcher.Inv { d with mainQueue := d.mainQueue ++ [callback], imm := d.imm.queueMain callback } where
  ok := h.ok
  follows := by
    refine List.pairwise_append.mpr ⟨h.follows, List.pairwise_singleton .., fun a ha b hb c hac hbc => ?_⟩
    rw [List.mem_singleton.mp hb] at hbc ⊢
    obtain ⟨hopen, hgoing, _⟩ := (legal_queueMain hlegal).2 c hbc
    by_cases hkind : callback.kind = .over
    · exact ⟨fun _ => hkind, (h.ccbs c).going (hgoing hkind) a ha hac⟩
    · have hrequest := ((h.ccbs c).opened (hopen hkind)).2 a ha hac
      refine ⟨fun hnot => absurd hrequest hnot, ?_⟩
      rw [hrequest]
      exact fun h => nomatch h
  onMain cb hcb := by
    rcases List.mem_append.mp hcb with hcb | hcb
    · exact h.onMain cb hcb
    · rw [List.mem_singleton.mp hcb]
      exact (legal_queueMain hlegal).1
  onApplier := h.onApplier
  ccbs c := (h.ccbs c).queueMain hlegal

theorem CcbOk.queueApplier (h : CcbOk c d) (hlegal : callback.structValues c ≠ [] → d.imm.closed c = false) :
    CcbOk c { d with applierQueue := d.applierQueue ++ [callback], imm := d.imm.queueApplier callback } := by
  have hwaiting : Dispatcher.waiting c
      { d with applierQueue := d.applierQueue ++ [callback], imm := d.imm.queueApplier callback }
        = d.waiting c ++ callback.structValues c := by
    unfold Dispatcher.waiting
    simp
  refine ⟨h.opened, h.pending, h.going, h.applied, fun hprepared => ?_, ?_⟩
  · obtain ⟨hnone, hnothing⟩ := h.prepared hprepared
    refine ⟨hnone, ?_⟩
    rw [hwaiting, hnothing, List.nil_append]
    by_contra hvalues
    cases (h.opened (hlegal hvalues)).1.symm.trans hprepared
  · obtain ⟨handled, hall, hhandled⟩ := h.values
    refine ⟨handled, ?_, hhandled⟩
    rw [hwaiting, ← List.append_assoc, ← hall]
    rfl

theorem inv_queueApplier (h : d.Inv) (hlegal : Event.Legal (some d) (.queueApplier callback)) :
    Dispatcher.Inv { d with applierQueue := d.applierQueue ++ [callback], imm := d.imm.queueApplier callback } := by
  have hlegal := hlegal d rfl
  refine ⟨h.ok, h.follows, h.onMain, fun cb hcb => ?_, fun c => (h.ccbs c).queueApplier fun hvalues => ?_⟩
  · rcases List.mem_append.mp hcb with hcb | hcb
    · exact h.onApplier cb hcb
    · rw [List.mem_singleton.mp hcb]
      cases callback with
      | structCreate _ _ | structModification _ _ => exact Or.inl rfl
      | structApply _ | structAbort _ => exact Or.inr rfl
      | _ => exact hlegal.elim
  · cases callback with
    | structCreate c' _ | structModification c' _ =>
      by_cases hc : c' = c
      · rw [← hc]
        exact hlegal
      · exact absurd (if_neg hc) hvalues
    | _ => exact absurd rfl hvalues

/-! ## Runs -/

/-- What the callback that is dispatched needs. -/
theorem dispatched_spec (answers : Nat → MafReturn) (h : d.Inv) (hfine : Event.Fine answers (some d) .dispatch)
    (hcurrent : d.current = some callback) (hmem : callback ∈ d.mainQueue ∨ callback ∈ d.applierQueue) :
    ∃ err s', OIRun.step answers (some d.run) callback =
        some (OIRun.note callback err { d.run with proxy := s' }) ∧ Effect callback d.run.proxy err s' := by
  have hfine := hfine d rfl callback rfl hcurrent
  have happly : ∀ c, callback = .apply c → d.run.proxy.cache.inUse c = none := by
    intro c happly
    rw [happly] at hmem
    rcases hmem with hmem | hmem
    · exact ((h.ccbs c).prepared ((h.ccbs c).applied hmem)).1
    · rcases h.onApplier _ hmem with hkind | hkind <;> cases hkind
  have hmodification : ∀ c a, callback = .modification c a → a.Fine answers c d.run.proxy := by
    intro c a hmod
    rw [hmod] at hfine
    exact hfine
  obtain ⟨err, s', hrun, heffect⟩ := run_spec answers h.ok callback happly hmodification
  exact ⟨err, s', step_of_run hrun, heffect⟩

theorem prepare_right (h : d.Inv) {prepare : MafReturn} (hmem : .completed c prepare ∈ d.mainQueue)
    (hstep : CompletedStep c prepare d.run.proxy err s')
    (hfine : d.run.proxy.ccbApplierError c = .ok → d.waiting c = [] ∧ d.run.applierEnded c = false) :
    s'.txLog = d.run.proxy.txLog ∨ (d.imm.values c).Sublist (sentValues c s'.cache) := by
  have hall : ∀ {cache : StructCache}, d.run.proxy.ccbApplierError c = .ok →
      CacheStep c [] d.run.proxy.cache cache → cache.inUse c = none →
      (d.imm.values c).Sublist (sentValues c cache) := by
    intro cache herror hcache hnone
    obtain ⟨handled, hvalues, hhandled⟩ := (h.ccbs c).values
    obtain ⟨hnothing, happlier⟩ := hfine herror
    have hmain := (h.ccbs c).pending _ hmem rfl fun h => nomatch h
    have hlast := (hhandled hmain herror happlier).trans ((List.sublist_append_left _ []).trans hcache.values)
    rw [cachedValues_of_none hnone, List.append_nil] at hlast
    rw [hvalues, hnothing, List.append_nil]
    exact hlast
  cases hstep with
  | error _ => exact Or.inl rfl
  | noTransaction _ _ => exact Or.inl rfl
  | notSent _ _ => exact Or.inl rfl
  | prepared herror _ hcache hnone _ => exact Or.inr (hall herror hcache hnone)
  | notPrepared herror _ hcache hnone _ => exact Or.inr (hall herror hcache hnone)

def CallsRight (d : Dispatcher) (s' : OIProxy) : Prop :=
  ∀ entry ∈ s'.txLog.drop d.run.proxy.txLog.length, ∀ c, entry.owner = .ccb c →
    match entry.call with
    | .explicitPrepare _ => (d.imm.values c).Sublist (sentValues c s'.cache)
    | .commit => s'.cache.inUse c = none
    | _ => True

theorem callsRight_main (h : d.Inv) (hmem : callback ∈ d.mainQueue)
    (heffect : Effect callback d.run.proxy err s')
    (hfine : ∀ c prepare, callback = .completed c prepare → d.run.proxy.ccbApplierError c = .ok →
      d.waiting c = [] ∧ d.run.applierEnded c = false) : CallsRight d s' := by
  obtain ⟨added, hlog, hadded⟩ := heffect.calls
  intro entry hentry c hc
  rw [hlog, List.drop_left] at hentry
  obtain ⟨hccb, hcall⟩ := hadded entry hentry c hc
  cases hk : entry.call with
  | newTransaction => trivial
  | abort => trivial
  | explicitPrepare _ =>
    rw [hk] at hcall
    cases callback with
    | completed c' prepare =>
      cases hccb
      refine (prepare_right h hmem heffect.own (hfine c prepare rfl)).resolve_left fun hsame => ?_
      rw [hsame] at hlog
      rw [List.self_eq_append_right.mp hlog] at hentry
      cases hentry
    | _ => cases hcall
  | commit =>
    rw [hk] at hcall
    have hcall : callback = .apply c := hcall
    subst hcall
    have hown : s' = handleCcbApply c d.run.proxy := heffect.own
    have hcache : s'.cache = d.run.proxy.cache := by
      rw [hown, handleCcbApply]
      split <;> rfl
    dsimp only
    rw [hcache]
    exact ((h.ccbs c).prepared ((h.ccbs c).applied hmem)).1

theorem callsRight_applier (h : d.Inv) (hmem : callback ∈ d.applierQueue)
    (heffect : Effect callback d.run.proxy err s') : CallsRight d s' := by
  obtain ⟨added, hlog, hadded⟩ := heffect.calls
  intro entry hentry c hc
  rw [hlog, List.drop_left] at hentry
  obtain ⟨hccb, hcall⟩ := hadded entry hentry c hc
  have hon := h.onApplier callback hmem
  cases hk : entry.call with
  | newTransaction => trivial
  | abort => trivial
  | explicitPrepare _ =>
    rw [hk] at hcall
    have hcall : callback.kind = .completed := hcall
    rw [hcall] at hon
    rcases hon with hon | hon <;> cases hon
  | commit =>
    rw [hk] at hcall
    have hcall : callback = .apply c := hcall
    rw [hcall] at hon
    rcases hon with hon | hon <;> cases hon

theorem callsRight_same (d : Dispatcher) : CallsRight d d.run.proxy := by
  intro entry hentry
  rw [List.drop_length] at hentry
  cases hentry

theorem current_main (hnext : d.next = .main) (h : d.current = some callback) :
    d.mainQueue = callback :: d.mainQueue.tail := by
  unfold Dispatcher.current at h
  rw [hnext] at h
  dsimp only at h
  split at h
  · exact (List.cons_head?_tail h).symm
  · cases h

theorem current_applier (hnext : d.next = .applier) (h : d.current = some callback) :
    d.applierQueue = callback :: d.applierQueue.tail := by
  unfold Dispatcher.current at h
  rw [hnext] at h
  dsimp only at h
  split at h
  · exact (List.cons_head?_tail h).symm
  · cases h

/-- A fine step keeps the invariant, and is right. -/
theorem inv_event (answers : Nat → MafReturn) {e : Event} (h : d.Inv) (hlegal : e.Legal (some d))
    (hfine : e.Fine answers (some d)) :
    ∃ d', Dispatcher.step answers (some d) e = some d' ∧ d'.Inv ∧ CallsRight d d'.run.proxy := by
  cases e with
  | queueMain callback => exact ⟨_, rfl, inv_queueMain h hlegal, callsRight_same d⟩
  | queueApplier callback => exact ⟨_, rfl, inv_queueApplier h hlegal, callsRight_same d⟩
  | dispatch =>
    have hfine' := fun callback => hfine d rfl callback rfl
    show ∃ d', d.dispatchToImm answers = some d' ∧ d'.Inv ∧ CallsRight d d'.run.proxy
    unfold Dispatcher.dispatchToImm
    cases hnext : d.next with
    | poll => exact ⟨_, rfl, { h with ccbs := fun c => { h.ccbs c with } }, callsRight_same d⟩
    | main =>
      cases hcurrent : d.current with
      | none => exact ⟨_, rfl, { h with ccbs := fun c => { h.ccbs c with } }, callsRight_same d⟩
      | some callback =>
        have hqueue := current_main hnext hcurrent
        have hmem : callback ∈ d.mainQueue := by
          rw [hqueue]
          exact List.mem_cons_self ..
        have hcompleted : ∀ c prepare, callback = .completed c prepare → d.run.proxy.ccbApplierError c = .ok →
            d.waiting c = [] ∧ d.run.applierEnded c = false := by
          intro c prepare hcompleted
          have := hfine' callback hcurrent
          rwa [hcompleted] at this
        obtain ⟨err, s', hstep, heffect⟩ := dispatched_spec answers h hfine hcurrent (Or.inl hmem)
        refine ⟨d.afterMain callback err s', ?_, inv_main h hqueue heffect hcompleted, ?_⟩
        · dsimp only
          rw [hstep]
          rfl
        · rw [Dispatcher.afterMain, note_proxy]
          exact callsRight_main h hmem heffect hcompleted
    | applier =>
      cases hcurrent : d.current with
      | none => exact ⟨_, rfl, { h with ccbs := fun c => { h.ccbs c with } }, callsRight_same d⟩
      | some callback =>
        have hqueue := current_applier hnext hcurrent
        have hmem : callback ∈ d.applierQueue := by
          rw [hqueue]
          exact List.mem_cons_self ..
        obtain ⟨err, s', hstep, heffect⟩ := dispatched_spec answers h hfine hcurrent (Or.inr hmem)
        refine ⟨d.afterApplier callback err s', ?_, inv_applier h hqueue heffect, ?_⟩
        · dsimp only
          rw [hstep]
          rfl
        · rw [Dispatcher.afterApplier, note_proxy]
          exact callsRight_applier h hmem heffect

end

theorem inv_initialDispatcher : Dispatcher.initial.Inv where
  ok := ok_initial
  follows := List.Pairwise.nil
  onMain _ hcb := nomatch hcb
  onApplier _ hcb := nomatch hcb
  ccbs _ :=
    { opened := fun _ => ⟨rfl, fun _ hcb => nomatch hcb⟩
      pending := fun _ hcb => nomatch hcb
      going := fun _ _ hcb => nomatch hcb
      applied := fun hcb => nomatch hcb
      prepared := fun h => nomatch h
      values := ⟨[], rfl, fun _ _ _ => List.nil_sublist _⟩ }

/-- In every run of fine steps the struct values come before explicit prepare, and none is left. -/
theorem right_of_fine (answers : Nat → MafReturn) (events : List Event)
    (hlegal : Along (Dispatcher.step answers) Event.Legal (some Dispatcher.initial) events)
    (hfine : Along (Dispatcher.step answers) (Event.Fine answers) (some Dispatcher.initial) events) :
    Along (Dispatcher.step answers) (Event.Right answers) (some Dispatcher.initial) events := by
  refine along_of_along (J := fun o => ∃ d, o = some d ∧ d.Inv) ?_ ⟨_, rfl, inv_initialDispatcher⟩
    (hlegal.and hfine)
  rintro _ e ⟨d, rfl, h⟩ ⟨hlegal, hfine⟩
  obtain ⟨d', hstep, hinv, hright⟩ := inv_event answers h hlegal hfine
  refine ⟨?_, d', hstep, hinv⟩
  rintro _ ⟨⟩
  exact ⟨d', hstep, hright⟩

/-- One struct value goes through before the CCB is completed, and it is applied. -/
def inTime : List Event :=
  [.queueApplier (.structCreate 1 ⟨none, openFine, some 5, "Top=1", "s", some [⟨"m", none⟩]⟩),
    .queueMain (.createObject 1 ⟨⟨none, openFine, some 5, false, "Top=1"⟩, "", "Top", some ("topId", "1"),
      some []⟩),
    .queueMain (.completed 1 .ok),
    .dispatch, .dispatch, .dispatch,
    .dispatch, .dispatch, .dispatch,
    .queueMain (.apply 1),
    .dispatch, .dispatch]

theorem right_of_fine_inTime : Along (Dispatcher.step fun _ => .ok) (Event.Right fun _ => .ok)
    (some Dispatcher.initial) inTime := by
  refine right_of_fine _ _ ?_ ?_
  · refine ⟨?_, ?_, ?_, ?_, ?_, ?_, ?_, ?_, ?_, ?_, ?_, ?_, trivial⟩
    all_goals
      rintro d ⟨⟩
      first | rfl | trivial
  · refine ⟨?_, ?_, ?_, ?_, ?_, ?_, ?_, ?_, ?_, ?_, ?_, ?_, trivial⟩
    all_goals
      rintro d ⟨⟩ callback he hcurrent
      cases he
    all_goals cases hcurrent
    all_goals trivial

/-- Two struct values are queued, and the main implementer's callbacks overtake the second one. -/
def overtaken : List Event :=
  [.queueApplier (.structCreate 1 ⟨none, openFine, some 5, "Top=1", "s", some [⟨"m", none⟩]⟩),
    .queueApplier (.structCreate 1 ⟨none, openFine, some 5, "Top=1", "s", some [⟨"n", none⟩]⟩),
    .queueMain (.createObject 1 ⟨⟨none, openFine, some 5, false, "Top=1"⟩, "", "Top", some ("topId", "1"),
      some []⟩),
    .queueMain (.completed 1 .ok),
    .dispatch, .dispatch, .dispatch, .dispatch, .dispatch]

theorem not_all_right : ¬ ∀ (answers : Nat → MafReturn) (events : List Event),
    Along (Dispatcher.step answers) Event.Legal (some Dispatcher.initial) events →
    Along (Dispatcher.step answers) (Event.Right answers) (some Dispatcher.initial) events := by
  intro h
  have hlegal : Along (Dispatcher.step fun _ => .ok) Event.Legal (some Dispatcher.initial) overtaken := by
    refine ⟨?_, ?_, ?_, ?_, ?_, ?_, ?_, ?_, ?_, trivial⟩
    all_goals
      rintro d ⟨⟩
      first | rfl | trivial
  obtain ⟨_, _, _, _, _, _, _, _, hlast, _⟩ := h _ _ hlegal
  obtain ⟨d', hstep, hright⟩ := hlast _ rfl
  cases hstep
  have hprepare := hright ⟨.ccb 1, 0, .explicitPrepare .ok⟩ (by decide) 1 rfl
  exact absurd hprepare (by decide)

end ComSA.OIproxy
