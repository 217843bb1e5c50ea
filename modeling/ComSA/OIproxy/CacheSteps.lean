import ComSA.OIproxy.StructRuns

/-!
# The cache whatever the implementers answer

A call for one CCB leaves the memory of the others alone, and no struct value is lost: it was sent,
or it is still cached.
-/

namespace ComSA.OIproxy

open StructCache

def OiCall.structValues : OiCall → List (String × String × StructValue)
  | .setMoAttribute _ _ dn attrName (.struct values) => values.map fun value => (dn, attrName, value)
  | _ => []

def AttrHelperMem.structValues (mem : AttrHelperMem) : List (String × String × StructValue) :=
  mem.values.toList.map fun value => (mem.the3gppDn, mem.attrName, value)

def sentValues (ccbId : CcbId) (s : StructCache) : List (String × String × StructValue) :=
  (callsOf ccbId s).flatMap OiCall.structValues

def cachedValues (ccbId : CcbId) (s : StructCache) : List (String × String × StructValue) :=
  (s.inUse ccbId).elim [] AttrHelperMem.structValues

/-- The memory stays sound, the other CCBs are left alone, and all values are sent or cached after
those that were. -/
structure CacheStep (c : CcbId) (added : List (String × String × StructValue)) (s s' : StructCache) : Prop where
  slots : SlotsOk s'
  elsewhere : Elsewhere c s s'
  values : (sentValues c s ++ cachedValues c s ++ added).Sublist (sentValues c s' ++ cachedValues c s')

section
variable {env : CacheEnv} {c : CcbId} {s s' s'' : StructCache}

theorem CacheStep.refl (h : SlotsOk s) : CacheStep c [] s s :=
  ⟨h, Elsewhere.refl c s, by rw [List.append_nil]⟩

theorem CacheStep.trans {added more : List (String × String × StructValue)} (h : CacheStep c added s s')
    (h' : CacheStep c more s' s'') : CacheStep c (added ++ more) s s'' := by
  refine ⟨h'.slots, h.elsewhere.trans h'.elsewhere, ?_⟩
  rw [← List.append_assoc]
  exact (h.values.append_right more).trans h'.values

theorem CacheStep.forget {added : List (String × String × StructValue)} (h : CacheStep c added s s') :
    CacheStep c [] s s' := by
  refine ⟨h.slots, h.elsewhere, ?_⟩
  rw [List.append_nil]
  exact (List.sublist_append_left _ _).trans h.values

theorem inUse_of_elsewhere {c' : CcbId} (h : Elsewhere c s s') (hc : c' ≠ c) : s'.inUse c' = s.inUse c' := by
  rw [inUse, inUse, (h c' hc).1]

variable (env) in
theorem sentValues_send (call : OiCall) :
    sentValues c (s.send env c call).2 = sentValues c s ++ call.structValues := by
  rw [sentValues, callsOf_send, List.flatMap_append]
  simp [sentValues]

theorem sentValues_setMem (mem : AttrHelperMem) : sentValues c (s.setMem c mem) = sentValues c s := rfl

variable (env) in
theorem slotsOk_send (h : SlotsOk s) (call : OiCall) : SlotsOk (s.send env c call).2 := h

theorem block_of_inUse (h : SlotsOk s) {mem : AttrHelperMem} (hmem : s.inUse c = some mem) :
    ∃ values, mem.values = .block values := by
  obtain ⟨hthere, hstatus⟩ := inUse_eq_some.mp hmem
  have hslot := h c mem hthere
  rwa [hstatus] at hslot

variable (env) in
theorem cacheStep_send (h : SlotsOk s) (call : OiCall) : CacheStep c [] s (s.send env c call).2 := by
  have hcached : cachedValues c (s.send env c call).2 = cachedValues c s := rfl
  refine ⟨slotsOk_send env h call, elsewhere_send call, ?_⟩
  rw [sentValues_send, hcached, List.append_nil]
  exact (List.sublist_append_left _ _).append_right _

theorem cleanCcbId_spec (h : SlotsOk s) : ∃ s', cleanCcbId c s = some s' ∧ SlotsOk s' ∧ Elsewhere c s s' ∧
    s'.inUse c = none ∧ callsOf c s' = callsOf c s := by
  unfold cleanCcbId
  cases hthere : s.attrStructCache c with
  | none =>
    refine ⟨s, rfl, h, Elsewhere.refl c s, inUse_eq_none.mpr fun mem hmem => ?_, rfl⟩
    rw [hthere] at hmem
    cases hmem
  | some mem =>
    have hslot := h c mem hthere
    cases hstatus : mem.status with
    | empty =>
      have hsame : emptyHelperMemory mem = some mem := by rw [emptyHelperMemory, if_pos hstatus]
      refine ⟨s.setMem c mem, by dsimp only; rw [hsame, Option.map_some], slotsOk_setMem h hslot,
        elsewhere_setMem mem, inUse_eq_none.mpr fun mem' hmem' => ?_, rfl⟩
      rw [setMem_same] at hmem'
      rw [← Option.some.inj hmem']
      exact hstatus
    | inuse =>
      rw [hstatus] at hslot
      obtain ⟨values, hvalues⟩ := hslot
      have hempty : emptyHelperMemory mem = some { moIf := mem.moIf } := by
        rw [emptyHelperMemory, if_neg (by rw [hstatus]; exact fun h => by cases h), hvalues]
        rfl
      refine ⟨s.setMem c { moIf := mem.moIf }, by dsimp only; rw [hempty, Option.map_some],
        slotsOk_setMem h rfl, elsewhere_setMem _, inUse_eq_none.mpr fun mem' hmem' => ?_, rfl⟩
      rw [setMem_same] at hmem'
      rw [← Option.some.inj hmem']

theorem cachedValues_of_none (h : s.inUse c = none) : cachedValues c s = [] := by
  rw [cachedValues, h]
  rfl

variable (env) in
theorem sendCache_spec (h : SlotsOk s) : ∃ ret s', cache_sendCache env c s = some (ret, s') ∧
    CacheStep c [] s s' ∧ (ret = .ok → s'.inUse c = none) := by
  unfold cache_sendCache cache_sendMoData
  cases hmem : s.inUse c with
  | none => exact ⟨.notExist, s, rfl, CacheStep.refl h, fun hret => nomatch hret⟩
  | some mem =>
    have hvalues : cachedValues c s = mem.structValues := by rw [cachedValues, hmem]; rfl
    dsimp only
    generalize hcall : OiCall.setMoAttribute mem.moIf (env.tx c) mem.the3gppDn mem.attrName
      (.struct mem.values.toList) = call
    have hsends : call.structValues = mem.structValues := by rw [← hcall]; rfl
    by_cases hret : env.answers s.log.length = .ok
    · obtain ⟨s₁, hclean, hslots, helse, hnone, hcalls⟩ := cleanCcbId_spec (c := c)
        (slotsOk_send env (c := c) h call)
      have hsend : s.send env c call = (.ok, (s.send env c call).2) := by rw [send, hret]
      refine ⟨.ok, s₁, ?_, ⟨hslots, (elsewhere_send call).trans helse, ?_⟩, fun _ => hnone⟩
      · rw [hsend]
        dsimp only
        rw [hclean, Option.map_some]
      · rw [List.append_nil, cachedValues_of_none hnone, List.append_nil, hvalues, ← hsends,
          ← sentValues_send env, sentValues, sentValues, hcalls]
    · refine ⟨env.answers s.log.length, (s.send env c call).2, ?_, cacheStep_send env h call,
        fun hok => absurd hok hret⟩
      split
      · rename_i heq
        exact absurd (congrArg Prod.fst heq) hret
      · rfl

variable (env) in
theorem sendCached_spec (h : SlotsOk s) : ∃ ret s', sendCached env c s = some (ret, s') ∧
    CacheStep c [] s s' ∧ (ret = .ok → s'.inUse c = none) := by
  unfold sendCached existCacheData
  cases hmem : s.inUse c with
  | none => exact ⟨.ok, s, rfl, CacheStep.refl h, fun _ => hmem⟩
  | some mem => exact sendCache_spec env h

variable (env) in
theorem sendAfterCached_spec (h : SlotsOk s) (call : OiCall) :
    ∃ ret s', sendAfterCached env c call s = some (ret, s') ∧ CacheStep c [] s s' := by
  obtain ⟨ret, s₁, hsend, hstep, _⟩ := sendCached_spec env (c := c) h
  unfold sendAfterCached
  rw [hsend]
  cases ret with
  | ok =>
    have hboth := hstep.trans (cacheStep_send env hstep.slots call)
    exact ⟨_, _, rfl, hboth⟩
  | _ => exact ⟨_, s₁, rfl, hstep⟩

theorem addAttrValueContainer_spec (h : SlotsOk s) (moIf : MoIf) {dn attrName : String}
    (values : List StructValue) (hsame : isSameStructType c dn attrName s ≠ .different)
    (hfine : ∀ mem, s.inUse c = some mem → mem.values.toList ++ values ≠ []) :
    ∃ s', addAttrValueContainer c moIf dn attrName values s = some (.ok, s') ∧
      CacheStep c (values.map fun value => (dn, attrName, value)) s s' := by
  cases hmem : s.inUse c with
  | none =>
    have hempty := inUse_eq_none.mp hmem
    have hadd : ∃ moIf', addAttrValueContainer c moIf dn attrName values s =
        some (.ok, s.setMem c ⟨.inuse, moIf', dn, attrName, .block values⟩) := by
      unfold addAttrValueContainer
      rw [if_neg hsame]
      cases hthere : s.attrStructCache c with
      | none => exact ⟨moIf, rfl⟩
      | some mem =>
        have hslot := h c mem hthere
        rw [hempty mem hthere] at hslot
        refine ⟨mem.moIf, ?_⟩
        simp [hslot, hempty mem hthere, Values.realloc]
    obtain ⟨moIf', hadd⟩ := hadd
    refine ⟨_, hadd, slotsOk_setMem h ⟨values, rfl⟩, elsewhere_setMem _, ?_⟩
    rw [sentValues_setMem, cachedValues_of_none hmem, List.append_nil, cachedValues, inUse_setMem rfl]
    exact List.Sublist.refl _
  | some mem =>
    obtain ⟨old, hold⟩ := block_of_inUse h hmem
    have hattr : mem.attrName = attrName ∧ mem.the3gppDn = dn := by
      unfold isSameStructType at hsame
      rw [hmem] at hsame
      dsimp only at hsame
      by_contra hnot
      rw [if_neg hnot] at hsame
      exact hsame rfl
    obtain ⟨rfl, rfl⟩ := hattr
    have hne : old ++ values ≠ [] := by
      have := hfine mem hmem
      rwa [hold] at this
    obtain ⟨_, hstatus⟩ := inUse_eq_some.mp hmem
    refine ⟨_, add_more hmem hold moIf hne, slotsOk_setMem h ?_, elsewhere_setMem _, ?_⟩
    · dsimp only
      rw [hstatus]
      exact ⟨_, rfl⟩
    · have hinuse : (s.setMem c { mem with values := .block (old ++ values) }).inUse c =
          some { mem with values := .block (old ++ values) } := inUse_setMem hstatus
      have hcached : cachedValues c (s.setMem c { mem with values := .block (old ++ values) })
          = cachedValues c s ++ values.map fun value => (mem.the3gppDn, mem.attrName, value) := by
        rw [cachedValues, cachedValues, hinuse, hmem]
        simp [AttrHelperMem.structValues, hold, Values.toList]
      rw [sentValues_setMem, hcached, List.append_assoc]

def AttrValue.structValues (dn attrName : String) : AttrValue → List (String × String × StructValue)
  | .simple _ => []
  | .struct values => values.map fun value => (dn, attrName, value)

variable (env) in
theorem cache_setMoAttribute_spec (h : SlotsOk s) (moIf : MoIf) (dn attrName : String) (value : AttrValue)
    (hfine : ∀ mem values, s.inUse c = some mem → value = .struct values →
      isSameStructType c dn attrName s = .ok → mem.values.toList ++ values ≠ []) :
    ∃ ret s', cache_setMoAttribute env c moIf dn attrName value s = some (ret, s') ∧ CacheStep c [] s s' ∧
      (ret = .ok → CacheStep c (value.structValues dn attrName) s s') := by
  cases value with
  | simple container =>
    obtain ⟨ret, s', hsend, hstep⟩ := sendAfterCached_spec env (c := c) h
      (.setMoAttribute moIf (env.tx c) dn attrName (.simple container))
    exact ⟨ret, s', hsend, hstep, fun _ => hstep⟩
  | struct values =>
    unfold cache_setMoAttribute
    dsimp only
    cases hsame : isSameStructType c dn attrName s with
    | different =>
      obtain ⟨ret, s₁, hsend, hstep, hclean⟩ := sendCache_spec env (c := c) h
      dsimp only
      rw [hsend]
      cases ret with
      | ok =>
        have hnone := hclean rfl
        have hempty : isSameStructType c dn attrName s₁ ≠ .different := by
          rw [isSameStructType, hnone]
          exact fun h => by cases h
        obtain ⟨s₂, hadd, hstep'⟩ := addAttrValueContainer_spec hstep.slots moIf values hempty
          (fun mem hmem => by rw [hnone] at hmem; cases hmem)
        have hboth := hstep.trans hstep'
        exact ⟨.ok, s₂, hadd, hboth.forget, fun _ => hboth⟩
      | _ => exact ⟨_, s₁, rfl, hstep, fun hret => by cases hret⟩
    | ok =>
      obtain ⟨s₁, hadd, hstep⟩ := addAttrValueContainer_spec h moIf values
        (by rw [hsame]; exact fun h => by cases h) (fun mem hmem => hfine mem values hmem rfl hsame)
      exact ⟨.ok, s₁, hadd, hstep.forget, fun _ => hstep⟩
    | empty =>
      have hnone : s.inUse c = none := by
        unfold isSameStructType at hsame
        cases hmem : s.inUse c with
        | none => rfl
        | some mem =>
          rw [hmem] at hsame
          dsimp only at hsame
          split at hsame <;> cases hsame
      obtain ⟨s₁, hadd, hstep⟩ := addAttrValueContainer_spec h moIf values
        (by rw [hsame]; exact fun h => by cases h) (fun mem hmem => by rw [hnone] at hmem; cases hmem)
      exact ⟨.ok, s₁, hadd, hstep.forget, fun _ => hstep⟩

theorem cache_ccbAbort_spec (h : SlotsOk s) : ∃ s', cache_ccbAbort c s = some s' ∧ SlotsOk s' ∧
    Elsewhere c s s' ∧ s'.inUse c = none ∧ callsOf c s' = callsOf c s := by
  unfold cache_ccbAbort existCacheData
  cases hmem : s.inUse c with
  | none => exact ⟨s, rfl, h, Elsewhere.refl c s, hmem, rfl⟩
  | some mem => exact cleanCcbId_spec h

end

end ComSA.OIproxy
