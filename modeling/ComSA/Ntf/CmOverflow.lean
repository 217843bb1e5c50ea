import ComSA.Ntf.CmConversion
import ComSA.Ntf.CmMemory
import ComSA.Ntf.NetContent

/-!
# The overflow of the CM notifications

When there is too much in the cache, everything should be dropped, with one event that says so, and what comes
new should be delivered again. As long as there is never too much, the limit changes nothing. The first time
that there is, the run is over.
-/

namespace ComSA.Cm

open SortedMap

def CmCacheCall.Exceeds (env : CmEnv) : CmCacheCall → CmState → Prop
  | addToCmCache _ (some _) _ _ (some _), s => s.cache.exceeded env = true
  | setDnInCmCache .., s => s.cache.exceeded env = true
  | _, _ => False

instance (env : CmEnv) : (call : CmCacheCall) → (s : CmState) → Decidable (call.Exceeds env s) := by
  intro call s
  unfold CmCacheCall.Exceeds
  split <;> infer_instance

structure CmNotice where
  view : NtfView
  notification : NtfNotification

namespace CmNotice

def program (n : CmNotice) : CmProgram Bool := n.notification.convertCMNotificationHeader n.view

def ccbId (n : CmNotice) : CcbId := n.notification.ccbId n.view

def handle (env : CmEnv) (n : CmNotice) (s : CmState) : Option CmState :=
  (n.program.run (cmCache env) s).map Prod.snd

/-- The limit is found exceeded while the notification is converted. -/
def Overflows (env : CmEnv) (n : CmNotice) (s : CmState) : Prop :=
  n.program.Makes (cmCache env) (CmCacheCall.Exceeds env) s

def step (env : CmEnv) (o : Option CmState) (n : CmNotice) : Option CmState := o.bind (n.handle env)

end CmNotice

def handleAll (env : CmEnv) (notices : List CmNotice) : Option CmState :=
  notices.foldl (CmNotice.step env) (some {})

def CmEnv.withoutLimit (env : CmEnv) : CmEnv := { env with maxSAMemoryForCMEvents := 0 }

/-- None of the notifications behind the first ones finds the limit exceeded. -/
def Calm (env : CmEnv) (first notices : List CmNotice) : Prop :=
  ∀ before n after s, notices = before ++ n :: after → handleAll env (first ++ before) = some s →
    ¬ n.Overflows env s

def Fresh (env : CmEnv) (first : List CmNotice) : Prop :=
  first = [] ∨ ∃ before n s, first = before ++ [n] ∧ handleAll env before = some s ∧ n.Overflows env s

/-- An overflow drops all that is cached with one event, no event comes for a CCB that something of was dropped,
and what begins after an overflow is delivered as without a limit until the next one. -/
structure RecoversFromOverflow (env : CmEnv) (notices : List CmNotice) : Prop where
  overflow : ∀ before n after s, notices = before ++ n :: after → handleAll env before = some s →
    n.Overflows env s →
    ∃ s', n.handle env s = some s' ∧ s'.pushed = s.pushed ++ [overflowEvent] ∧ s'.cache.cacheMap = []
  isolated : ∀ before n between m after s t t', notices = before ++ n :: (between ++ m :: after) →
    handleAll env before = some s → n.Overflows env s → handleAll env (before ++ n :: between) = some t →
    ¬ m.Overflows env t → m.ccbId ≠ 0 → (m.ccbId = n.ccbId ∨ get? m.ccbId s.cache.cacheMap ≠ none) →
    m.handle env t = some t' → t'.pushed = t.pushed
  complete : ∀ first between m after t t', notices = first ++ (between ++ m :: after) → Fresh env first →
    Calm env first (between ++ [m]) → (m.ccbId = 0 ∨ m.ccbId ∉ first.map CmNotice.ccbId) →
    handleAll env.withoutLimit between = some t → m.handle env.withoutLimit t = some t' →
    ∃ u u' events, handleAll env (first ++ between) = some u ∧ m.handle env u = some u' ∧
      t'.pushed = t.pushed ++ events ∧ u'.pushed = u.pushed ++ events

/-! ## What the calls keep -/

structure Undisturbed (s : CmState) : Prop where
  counted : Counted s.cache
  noneDiscarded : s.discardedCcbList = []

section Calls
variable {env : CmEnv} {s : CmState} {call : CmCacheCall}

theorem undisturbed_initial : Undisturbed {} := ⟨counted_initial, rfl⟩

structure Extends (s s' : CmState) : Prop where
  discarded : s'.discardedCcbList = s.discardedCcbList
  pushed : s.pushed <+: s'.pushed

theorem extends_discardAllCcbs {s' : CmState} (h : s.discardAllCcbs = some s') : Extends s s' := by
  unfold CmState.discardAllCcbs at h
  split at h
  · cases h
    exact ⟨rfl, List.prefix_append _ _⟩
  · cases h

theorem extends_addAttr {ccbId : CcbId} {attrName immRdn memberName : String} {avc : CmContainer}
    {x : CmReturn × CmState} (h : s.addAttr env ccbId attrName immRdn memberName avc = some x) : Extends s x.2 := by
  unfold CmState.addAttr at h
  split at h
  · obtain ⟨s', hdiscard, rfl⟩ := Option.map_eq_some_iff.mp h
    exact extends_discardAllCcbs hdiscard
  · dsimp only at h
    split at h <;> cases h <;> exact ⟨rfl, List.prefix_refl _⟩

theorem extends_setDn {ccbId : CcbId} {sourceIndicator : SourceIndicator} {dn : String} {eventType : CmEventType}
    {ccbLast : Bool} {x : CmReturn × CmState}
    (h : s.setDn env ccbId sourceIndicator dn eventType ccbLast = some x) : Extends s x.2 := by
  unfold CmState.setDn at h
  split at h
  · obtain ⟨s', hdiscard, rfl⟩ := Option.map_eq_some_iff.mp h
    exact extends_discardAllCcbs hdiscard
  · dsimp only at h
    split at h
    · cases h
    · split at h
      · cases h
        refine ⟨rfl, ?_⟩
        dsimp only
        split
        · exact List.prefix_refl _
        · exact List.prefix_append _ _
      · cases h
        exact ⟨rfl, List.prefix_refl _⟩

theorem pushed_call {x : call.Answer × CmState} (h : cmCache env call s = some x) : s.pushed <+: x.2.pushed := by
  cases call with
  | addToCmCache ccbId attrName immRdn memberName memberValue =>
    cases memberValue with
    | none =>
      cases h
      exact List.prefix_refl _
    | some memberValue =>
      cases attrName with
      | none => cases h
      | some attrName => exact (extends_addAttr h).pushed
  | setDnInCmCache ccbId sourceIndicator dn eventType ccbLast =>
    obtain ⟨y, hset, rfl⟩ := Option.map_eq_some_iff.mp h
    exact (extends_setDn hset).pushed
  | isDiscardedCcb ccbId =>
    cases h
    exact List.prefix_refl _
  | removeDiscardedCcb ccbId =>
    cases h
    dsimp only
    split <;> exact List.prefix_refl _

theorem undisturbed_call (hon : env.maxSAMemoryForCMEvents ≠ 0) (call : CmCacheCall) (s : CmState)
    (x : call.Answer × CmState) (hs : Undisturbed s) (h : cmCache env call s = some x) : Undisturbed x.2 := by
  cases call with
  | addToCmCache ccbId attrName immRdn memberName memberValue =>
    cases memberValue with
    | none =>
      cases h
      exact hs
    | some memberValue =>
      cases attrName with
      | none => cases h
      | some attrName =>
        exact ⟨hs.counted.addAttr h, (extends_addAttr h).discarded.trans hs.noneDiscarded⟩
  | setDnInCmCache ccbId sourceIndicator dn eventType ccbLast =>
    obtain ⟨y, hset, rfl⟩ := Option.map_eq_some_iff.mp h
    exact ⟨hs.counted.setDn hon hset, (extends_setDn hset).discarded.trans hs.noneDiscarded⟩
  | isDiscardedCcb ccbId =>
    cases h
    exact hs
  | removeDiscardedCcb ccbId =>
    cases h
    dsimp only
    rw [if_neg hon]
    refine ⟨hs.counted, ?_⟩
    dsimp only
    rw [hs.noneDiscarded]
    rfl

theorem call_of_exceeds (call : CmCacheCall) (s : CmState) (hs : Undisturbed s) (h : call.Exceeds env s) :
    cmCache env call s = none := by
  cases call with
  | addToCmCache ccbId attrName immRdn memberName memberValue =>
    cases memberValue with
    | none => cases attrName <;> cases h
    | some memberValue =>
      cases attrName with
      | none => cases h
      | some attrName =>
        have hexceeded : s.cache.exceeded env = true := h
        change s.addAttr env _ _ _ _ _ = none
        rw [CmState.addAttr, if_pos hexceeded, hs.counted.discardAllCcbs hexceeded]
        rfl
  | setDnInCmCache ccbId sourceIndicator dn eventType ccbLast =>
    have hexceeded : s.cache.exceeded env = true := h
    change (s.setDn env _ _ _ _ _).map _ = none
    rw [CmState.setDn, if_pos hexceeded, hs.counted.discardAllCcbs hexceeded]
    rfl
  | isDiscardedCcb ccbId => cases h
  | removeDiscardedCcb ccbId => cases h

theorem call_strip (hon : env.maxSAMemoryForCMEvents ≠ 0) (call : CmCacheCall) (s : CmState) (hs : Undisturbed s)
    (h : ¬ call.Exceeds env s) :
    cmCache env.withoutLimit call s.strip = (cmCache env call s).map (Prod.map id CmState.strip) := by
  have hoff : env.withoutLimit.maxSAMemoryForCMEvents = 0 := rfl
  cases call with
  | addToCmCache ccbId attrName immRdn memberName memberValue =>
    cases memberValue with
    | none => cases attrName <;> rfl
    | some memberValue =>
      cases attrName with
      | none => rfl
      | some attrName =>
        exact CmState.addAttr_strip env hoff (Bool.eq_false_iff.mpr h) _ _ _ _ _
  | setDnInCmCache ccbId sourceIndicator dn eventType ccbLast =>
    have hset := CmState.setDn_strip env hoff (Bool.eq_false_iff.mpr h) ccbId sourceIndicator dn eventType ccbLast
    change (s.strip.setDn env.withoutLimit _ _ _ _ _).map _ = ((s.setDn env _ _ _ _ _).map _).map _
    rw [hset, Option.map_map, Option.map_map]
    rfl
  | isDiscardedCcb ccbId =>
    change some _ = some _
    rw [if_pos hoff, if_neg hon, hs.noneDiscarded]
    rfl
  | removeDiscardedCcb ccbId =>
    obtain ⟨cache, discarded, pushed⟩ := s
    obtain rfl : discarded = [] := hs.noneDiscarded
    change some _ = some _
    rw [if_pos hoff, if_neg hon]
    rfl

end Calls

/-! ## What the notifications keep -/

section Notices
variable {env : CmEnv} {s t : CmState} {n : CmNotice}

theorem undisturbed_handle (hon : env.maxSAMemoryForCMEvents ≠ 0) (hs : Undisturbed s)
    (h : n.handle env s = some t) : Undisturbed t := by
  obtain ⟨y, hrun, rfl⟩ := Option.map_eq_some_iff.mp h
  exact Program.inv_run (undisturbed_call hon) hs hrun

theorem handle_of_overflows (hon : env.maxSAMemoryForCMEvents ≠ 0) (hs : Undisturbed s) (h : n.Overflows env s) :
    n.handle env s = none := by
  rw [CmNotice.handle, Program.run_eq_none (undisturbed_call hon) call_of_exceeds hs h]
  rfl

theorem handle_strip (hon : env.maxSAMemoryForCMEvents ≠ 0) (hs : Undisturbed s) (h : ¬ n.Overflows env s) :
    n.handle env.withoutLimit s.strip = (n.handle env s).map CmState.strip := by
  rw [CmNotice.handle, CmNotice.handle, Program.run_map (undisturbed_call hon) (call_strip hon) hs h,
    Option.map_map,
    Option.map_map]
  rfl

theorem pushed_handle (h : n.handle env s = some t) : s.pushed <+: t.pushed := by
  obtain ⟨y, hrun, rfl⟩ := Option.map_eq_some_iff.mp h
  have hcalls : ∀ c t x, s.pushed <+: t.pushed → cmCache env c t = some x → s.pushed <+: x.2.pushed :=
    fun _ _ _ hpre hcall => hpre.trans (pushed_call hcall)
  exact @Program.inv_run _ _ _ _ _ (fun t => s.pushed <+: t.pushed) hcalls _ _ (List.prefix_refl _) _ hrun

theorem handleAll_concat (env : CmEnv) (notices : List CmNotice) (n : CmNotice) :
    handleAll env (notices ++ [n]) = (handleAll env notices).bind (n.handle env) := by
  unfold handleAll
  rw [List.foldl_append]
  rfl

/-- By induction on the notifications, the last one first. -/
theorem undisturbed_handleAll (hon : env.maxSAMemoryForCMEvents ≠ 0) {notices : List CmNotice}
    (h : handleAll env notices = some s) : Undisturbed s := by
  induction notices using List.reverseRecOn generalizing s with
  | nil =>
    cases h
    exact undisturbed_initial
  | append_singleton notices n ih =>
    rw [handleAll_concat] at h
    obtain ⟨u, hu, hn⟩ := Option.bind_eq_some_iff.mp h
    exact undisturbed_handle hon (ih hu) hn

theorem Calm.init {first notices : List CmNotice} (h : Calm env first (notices ++ [n])) :
    Calm env first notices := by
  rintro before m after s rfl hs
  exact h before m (after ++ [n]) s (by simp) hs

theorem Calm.last {first notices : List CmNotice} (h : Calm env first (notices ++ [n]))
    (hs : handleAll env (first ++ notices) = some s) : ¬ n.Overflows env s :=
  h notices n [] s rfl hs

/-- By induction on the notifications, the last one first: as long as the limit is not exceeded, the run is the
one without a limit. -/
theorem handleAll_strip (hon : env.maxSAMemoryForCMEvents ≠ 0) {notices : List CmNotice}
    (hcalm : Calm env [] notices) :
    handleAll env.withoutLimit notices = (handleAll env notices).map CmState.strip := by
  induction notices using List.reverseRecOn with
  | nil => rfl
  | append_singleton notices n ih =>
    rw [handleAll_concat, handleAll_concat, ih hcalm.init]
    cases hs : handleAll env notices with
    | none => rfl
    | some s => exact handle_strip hon (undisturbed_handleAll hon hs) (hcalm.last hs)

end Notices

/-- An overflow is recovered from in a run exactly when there is none. -/
theorem recovers_iff (env : CmEnv) (hon : env.maxSAMemoryForCMEvents ≠ 0) (notices : List CmNotice) :
    RecoversFromOverflow env notices ↔ Calm env [] notices := by
  constructor
  · intro h before n after s hnotices hs hoverflows
    obtain ⟨s', hhandle, -⟩ := h.overflow before n after s hnotices hs hoverflows
    rw [handle_of_overflows hon (undisturbed_handleAll hon hs) hoverflows] at hhandle
    cases hhandle
  · intro hcalm
    refine ⟨fun before n after s hnotices hs hoverflows => ?_,
      fun before n between m after s t t' hnotices hs hoverflows => ?_,
      fun first between m after t t' hnotices hfresh hlater _ ht ht' => ?_⟩
    · exact absurd hoverflows (hcalm before n after s hnotices hs)
    · exact absurd hoverflows (hcalm before n _ s hnotices hs)
    · rcases hfresh with rfl | ⟨before, n, s, rfl, hs, hoverflows⟩
      · rw [handleAll_strip hon hlater.init] at ht
        obtain ⟨u, hu, rfl⟩ := Option.map_eq_some_iff.mp ht
        rw [handle_strip hon (undisturbed_handleAll hon hu) (hlater.last hu)] at ht'
        obtain ⟨u', hu', rfl⟩ := Option.map_eq_some_iff.mp ht'
        obtain ⟨events, hevents⟩ := pushed_handle hu'
        exact ⟨u, u', events, hu, hu', hevents.symm, hevents.symm⟩
      · refine absurd hoverflows (hcalm before n (between ++ m :: after) s ?_ hs)
        rw [hnotices, List.append_assoc]
        rfl

/-! ## One attribute -/

def tightEnv : CmEnv := ⟨20, 8, 8, 8, 8, 8, 8⟩

def nameNotice (ccbId : CcbId) : CmNotice where
  view := {
    isNotified := fun attributeName _ _ => attributeName = some "name"
    getClassName := fun _ => some "Foo"
    isStructAttribute := fun _ _ => false
    getStructAttributeName := fun _ _ => none
    fillStructMembers := fun _ _ => none
    getAttributeValuesContainerValue := fun _ _ _ _ => some (.plain ⟨.string, [.text "a"]⟩)
    convertTo3Gpp := fun _ => some "Foo=1"
    convertTo3GPPDNCOMCASE := fun _ => "Foo=1" }
  notification := {
    type := .attributeChange
    sourceIndicator := .managementOperation
    notificationObject := "fooId=1"
    objectCreation := false
    additionalInfo := [⟨0, true, some "SaImmAttrAdminOwnerName"⟩, ⟨1, true, some "SaImmAttrClassName"⟩,
      ⟨2, true, some "SaImmOiCcbIdT"⟩, ⟨3, true, some "ccbLast"⟩, ⟨4, true, some "name"⟩]
    numAttributes := 5
    attributes := some [⟨0, .text "OAMSA1"⟩, ⟨1, .text "Foo"⟩, ⟨2, .number ccbId⟩, ⟨3, .number 1⟩, ⟨4, .text "a"⟩] }

example : (handleAll offEnv [nameNotice 1, nameNotice 2]).map CmState.pushed =
    some (List.replicate 2 ⟨0, .managementOperation,
      [⟨"Foo=1", .attributeValueChange, [("name", .plain ⟨.string, [.text "a"]⟩)]⟩]⟩) := by decide +kernel

def roomyEnv : CmEnv := ⟨1000, 8, 8, 8, 8, 8, 8⟩

theorem recovers_two : RecoversFromOverflow roomyEnv [nameNotice 1, nameNotice 2] := by
  refine (recovers_iff roomyEnv (by decide) [nameNotice 1, nameNotice 2]).mpr ?_
  have hfirst : ¬ (nameNotice 1).Overflows roomyEnv {} := by
    unfold CmNotice.Overflows
    decide +kernel
  have hsecond : ∀ s ∈ handleAll roomyEnv [nameNotice 1], ¬ (nameNotice 2).Overflows roomyEnv s := by
    unfold CmNotice.Overflows
    decide +kernel
  intro before n after s hnotices hs
  rcases before with - | ⟨first, - | ⟨second, before⟩⟩
  · obtain ⟨rfl, -⟩ := List.cons.inj hnotices
    cases hs
    exact hfirst
  · obtain ⟨rfl, hrest⟩ := List.cons.inj hnotices
    obtain ⟨rfl, -⟩ := List.cons.inj hrest
    exact hsecond s hs
  · have hlength := congrArg List.length hnotices
    simp at hlength

theorem overflows_nameNotice : (nameNotice 1).Overflows tightEnv {} :=
  Or.inr ⟨_, rfl, Or.inr ⟨_, rfl, Or.inl rfl⟩⟩

theorem not_recovers : ¬ ∀ env : CmEnv, env.maxSAMemoryForCMEvents ≠ 0 → ∀ notices : List CmNotice,
    RecoversFromOverflow env notices := by
  intro h
  obtain ⟨s', hhandle, -⟩ := (h tightEnv (by decide) [nameNotice 1]).overflow [] (nameNotice 1) [] {} rfl rfl
    overflows_nameNotice
  rw [handle_of_overflows (by decide) undisturbed_initial overflows_nameNotice] at hhandle
  cases hhandle

end ComSA.Cm
