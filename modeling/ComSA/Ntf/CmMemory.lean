import ComSA.Ntf.CmNotificationCache

/-!
# The memory of the CM notifications

The memory that is counted never shows in an event: as long as the limit is not exceeded, the cache does what
it does without one. It is exceeded only while the cache of some CCB is there.
-/

namespace ComSA.Cm

open SortedMap

/-! ## Without the memory -/

section
variable {env' : CmEnv} (env : CmEnv) (hoff : env'.maxSAMemoryForCMEvents = 0)
include hoff

theorem update_off (changes : List MemoryChange) (m : Memory) : m.update env' changes = m := if_pos hoff

theorem created_off (size : Nat) : Memory.created env' size = {} := by
  rw [Memory.created, if_pos hoff]

namespace StructElementCache

omit hoff in
def strip (e : StructElementCache) : StructElementCache := { e with memory := {} }

theorem add_strip (memberName : String) (memberValue : CmContainer) (e : StructElementCache) :
    e.strip.addToStructElementList env' memberName memberValue =
      (e.addToStructElementList env memberName memberValue).map strip := by
  cases memberValue with
  | plain avc =>
    rw [addToStructElementList, addToStructElementList, update_off hoff]
    rfl
  | struct values => rfl

theorem addAll_strip (e t : StructElementCache) : e.strip.addAll env' t.strip = (e.addAll env t).strip := by
  unfold addAll
  change t.structElementList.foldl _ _ = _
  generalize t.structElementList = l
  induction l generalizing e with
  | nil => rfl
  | cons m l ih =>
    rw [List.foldl_cons, List.foldl_cons, add_strip env hoff, Option.getD_map, ih]

theorem takeOver_strip (o : Option StructElementCache) (t : StructElementCache) :
    takeOver env' (o.map strip) t.strip = (takeOver env o t).strip := by
  cases o with
  | none => rfl
  | some e => exact addAll_strip env hoff e t

end StructElementCache

namespace AvcCache

omit hoff in
def strip (v : AvcCache) : AvcCache :=
  { v with cacheMap := v.cacheMap.map fun x => (x.1, x.2.strip), memory := {} }

theorem getCache_strip (immRdn : String) (v : AvcCache) :
    v.strip.getCache env' immRdn = (v.getCache env immRdn).strip := by
  unfold getCache
  change (get? immRdn (v.cacheMap.map fun x => (x.1, x.2.strip))).getD _ = _
  rw [get?_map, created_off hoff]
  cases get? immRdn v.cacheMap <;> rfl

theorem merge_strip (v t : AvcCache) : v.strip.merge env' t.strip = (v.merge env t).strip := by
  unfold merge
  rw [update_off hoff]
  have hmap := mergeInto_map (StructElementCache.takeOver_strip env hoff) v.cacheMap t.cacheMap
  change AvcCache.mk _ _ _ _ _ = AvcCache.mk _ _ _ _ _
  congr 1

theorem takeOver_strip (o : Option AvcCache) (t : AvcCache) :
    takeOver env' (o.map strip) t.strip = (takeOver env o t).strip := by
  cases o with
  | none => rfl
  | some v => exact merge_strip env hoff v t

omit hoff in
theorem build_strip (v : AvcCache) : v.strip.build = v.build := by
  unfold build
  have hnil : v.strip.cacheMap ≠ [] ↔ v.cacheMap ≠ [] := by
    rw [strip, ne_eq, List.map_eq_nil_iff]
  simp only [hnil]
  rw [strip, List.map_map]
  rfl

theorem addAttr_strip (ccbId : CcbId) (immRdn memberName : String) (avc : CmContainer) (v : AvcCache) :
    v.strip.addAttr env' ccbId immRdn memberName avc = (v.addAttr env ccbId immRdn memberName avc).map strip := by
  unfold addAttr
  simp only [if_pos hoff]
  cases getAttrType ccbId immRdn avc with
  | configStructType =>
    dsimp only
    rw [getCache_strip env hoff, StructElementCache.add_strip env hoff]
    cases StructElementCache.addToStructElementList env memberName avc (v.getCache env immRdn) with
    | none => rfl
    | some e =>
      change some (AvcCache.mk _ _ _ _ _) = some (AvcCache.mk _ _ _ _ _)
      congr 2
      exact put_map StructElementCache.strip immRdn e v.cacheMap
  | runtimeStructType => cases avc <;> rfl
  | referenceType => cases avc <;> rfl
  | simpleType => cases avc <;> rfl

end AvcCache

namespace DnCache

omit hoff in
def strip (d : DnCache) : DnCache :=
  { d with cacheMap := d.cacheMap.map fun x => (x.1, x.2.strip), memory := {} }

theorem getCache_strip (attrName : String) (d : DnCache) :
    d.strip.getCache env' attrName = (d.getCache env attrName).strip := by
  unfold getCache
  change (get? attrName (d.cacheMap.map fun x => (x.1, x.2.strip))).getD _ = _
  rw [get?_map, created_off hoff]
  cases get? attrName d.cacheMap <;> rfl

theorem merge_strip (d t : DnCache) : d.strip.merge env' t.strip = (d.merge env t).strip := by
  unfold merge
  rw [update_off hoff]
  have hmap := mergeInto_map (AvcCache.takeOver_strip env hoff) d.cacheMap t.cacheMap
  change DnCache.mk _ _ _ _ _ = DnCache.mk _ _ _ _ _
  congr 1

theorem addAttr_strip (ccbId : CcbId) (attrName immRdn memberName : String) (avc : CmContainer) (d : DnCache) :
    (d.strip.addAttr env' ccbId attrName immRdn memberName avc).map Prod.fst =
      (d.addAttr env ccbId attrName immRdn memberName avc).map fun x => x.1.strip := by
  unfold addAttr
  rw [getCache_strip env hoff, AvcCache.addAttr_strip env hoff]
  simp only [update_off hoff]
  cases (d.getCache env attrName).addAttr env ccbId immRdn memberName avc with
  | none => rfl
  | some v =>
    change some (DnCache.mk _ _ _ _ _) = some (DnCache.mk _ _ _ _ _)
    congr 2
    exact put_map AvcCache.strip attrName v d.cacheMap

end DnCache

namespace CcbCache

omit hoff in
def strip (c : CcbCache) : CcbCache :=
  { c with cacheMap := c.cacheMap.map fun x => (x.1, x.2.strip), memory := {} }

theorem getCache_strip (dn : String) (c : CcbCache) : c.strip.getCache env' dn = (c.getCache env dn).strip := by
  unfold getCache
  change (get? dn (c.cacheMap.map fun x => (x.1, x.2.strip))).getD _ = _
  rw [get?_map, created_off hoff]
  cases get? dn c.cacheMap <;> rfl

omit hoff in
theorem build_strip (c : CcbCache) : c.strip.buildEventStruct = c.buildEventStruct := by
  unfold buildEventStruct strip
  simp [List.map_map, Function.comp_def, DnCache.strip, AvcCache.build_strip, DnCache.getEventType]

theorem storeDn_strip (dn : String) (eventType : CmEventType) (c : CcbCache) :
    (CmState.storeDn env' dn eventType c.strip).map Prod.fst =
      (CmState.storeDn env dn eventType c).map fun x => x.1.strip := by
  have hput (d : DnCache) : put dn d.strip c.strip.cacheMap = (put dn d c.cacheMap).map fun x => (x.1, x.2.strip) :=
    put_map DnCache.strip dn d c.cacheMap
  have hdn : get? dn c.strip.cacheMap = (get? dn c.cacheMap).map DnCache.strip := get?_map _ _ _
  have htemp : (get? tempCacheKey c.strip.cacheMap).map (DnCache.setEventType eventType) =
      ((get? tempCacheKey c.cacheMap).map (DnCache.setEventType eventType)).map DnCache.strip := by
    rw [Option.map_map, strip, get?_map, Option.map_map]
    rfl
  unfold CmState.storeDn
  rw [htemp, hdn, getCache_strip env hoff]
  cases get? dn c.cacheMap with
  | none =>
    cases (get? tempCacheKey c.cacheMap).map (DnCache.setEventType eventType) with
    | none =>
      exact congrArg (fun m => some { c with cacheMap := m, memory := {} })
        (hput ((c.getCache env dn).setEventType eventType))
    | some t => exact congrArg (fun m => some { c with cacheMap := m, memory := {} }) (hput t)
  | some d =>
    cases (get? tempCacheKey c.cacheMap).map (DnCache.setEventType eventType) with
    | none => rfl
    | some t =>
      by_cases hkey : dn = tempCacheKey
      · simp [hkey]
      · simp only [Option.map_some, if_neg hkey, DnCache.merge_strip env hoff]
        exact congrArg (fun m => some { c with cacheMap := m, memory := {} }) (hput (d.merge env t))

end CcbCache

namespace CmNotificationCache

omit hoff in
def strip (m : CmNotificationCache) : CmNotificationCache :=
  { cacheMap := m.cacheMap.map fun x => (x.1, x.2.strip), memory := {} }

theorem getCache_strip (ccbId : CcbId) (m : CmNotificationCache) :
    m.strip.getCache env' ccbId = Prod.map CcbCache.strip strip (m.getCache env ccbId) := by
  have hget : get? ccbId m.strip.cacheMap = (get? ccbId m.cacheMap).map CcbCache.strip := get?_map ..
  unfold getCache
  rw [update_off hoff, created_off hoff, hget]
  cases get? ccbId m.cacheMap <;> rfl

end CmNotificationCache

namespace CmState

omit hoff in
def strip (s : CmState) : CmState := { s with cache := s.cache.strip }

variable {s : CmState} (hok : s.cache.exceeded env = false)
include hok

theorem addAttr_strip (ccbId : CcbId) (attrName immRdn memberName : String) (avc : CmContainer) :
    s.strip.addAttr env' ccbId attrName immRdn memberName avc =
      (s.addAttr env ccbId attrName immRdn memberName avc).map (Prod.map id strip) := by
  unfold addAttr
  rw [CmNotificationCache.not_exceeded_of_off hoff, hok, if_neg Bool.false_ne_true, if_neg Bool.false_ne_true]
  have hcache : s.strip.cache.getCache env' ccbId = Prod.map CcbCache.strip CmNotificationCache.strip
    (s.cache.getCache env ccbId) := CmNotificationCache.getCache_strip env hoff ccbId s.cache
  rw [hcache]
  generalize s.cache.getCache env ccbId = x
  obtain ⟨c, m⟩ := x
  have hadd := DnCache.addAttr_strip env hoff ccbId attrName immRdn memberName avc (c.getCache env tempCacheKey)
  dsimp only [Prod.map]
  rw [CcbCache.getCache_strip env hoff]
  cases hd : (c.getCache env tempCacheKey).addAttr env ccbId attrName immRdn memberName avc with
  | none =>
    rw [hd] at hadd
    rw [Option.map_eq_none_iff.mp hadd]
    rfl
  | some x =>
    obtain ⟨d, change⟩ := x
    rw [hd] at hadd
    obtain ⟨y, hy, hfst⟩ := Option.map_eq_some_iff.mp hadd
    obtain ⟨d', change'⟩ := y
    have hd' : d' = d.strip := hfst
    subst hd'
    rw [hy]
    dsimp only
    rw [update_off hoff, update_off hoff]
    have hput : put tempCacheKey d.strip c.strip.cacheMap =
        (put tempCacheKey d c.cacheMap).map fun x => (x.1, x.2.strip) := put_map DnCache.strip _ _ _
    rw [hput]
    exact congrArg (fun x => some (CmReturn.ok, { s with cache := ⟨x, {}⟩ })) (put_map CcbCache.strip ccbId
      { c with
        cacheMap := put tempCacheKey d c.cacheMap
        memory := c.memory.update env [change] } m.cacheMap)

theorem setDn_strip (ccbId : CcbId) (sourceIndicator : SourceIndicator) (dn : String) (eventType : CmEventType)
    (ccbLast : Bool) :
    s.strip.setDn env' ccbId sourceIndicator dn eventType ccbLast =
      (s.setDn env ccbId sourceIndicator dn eventType ccbLast).map (Prod.map id strip) := by
  unfold setDn
  rw [CmNotificationCache.not_exceeded_of_off hoff, hok, if_neg Bool.false_ne_true, if_neg Bool.false_ne_true]
  have hcache : s.strip.cache.getCache env' ccbId = Prod.map CcbCache.strip CmNotificationCache.strip
    (s.cache.getCache env ccbId) := CmNotificationCache.getCache_strip env hoff ccbId s.cache
  rw [hcache]
  generalize s.cache.getCache env ccbId = x
  obtain ⟨c, m⟩ := x
  have hstore := CcbCache.storeDn_strip env hoff dn eventType { c with sourceIndicator }
  dsimp only [Prod.map]
  change (storeDn env' dn eventType { c.strip with sourceIndicator }).map _ = _ at hstore
  cases hs : storeDn env dn eventType { c with sourceIndicator } with
  | none =>
    rw [hs] at hstore
    rw [Option.map_eq_none_iff.mp hstore]
    rfl
  | some x =>
    obtain ⟨c₁, changes⟩ := x
    rw [hs] at hstore
    obtain ⟨y, hy, hfst⟩ := Option.map_eq_some_iff.mp hstore
    obtain ⟨c', changes'⟩ := y
    have hc' : c' = c₁.strip := hfst
    subst hc'
    have herase : erase tempCacheKey c₁.strip.cacheMap =
        (erase tempCacheKey c₁.cacheMap).map fun x => (x.1, x.2.strip) := erase_map DnCache.strip _ _
    have hc₂ : CcbCache.mk c₁.strip.txHandle c₁.strip.sourceIndicator
        ((erase tempCacheKey c₁.cacheMap).map fun x => (x.1, x.2.strip)) c₁.strip.memory =
        CcbCache.strip (CcbCache.mk c₁.txHandle c₁.sourceIndicator (erase tempCacheKey c₁.cacheMap)
          (c₁.memory.update env changes)) := rfl
    rw [hy]
    dsimp only
    simp only [update_off hoff]
    rw [herase, hc₂]
    generalize CcbCache.mk c₁.txHandle c₁.sourceIndicator (erase tempCacheKey c₁.cacheMap)
      (c₁.memory.update env changes) = c₂
    cases ccbLast with
    | false =>
      exact congrArg (fun x => some (CmReturn.ok, { s with cache := ⟨x, {}⟩ }))
        (put_map CcbCache.strip ccbId c₂ m.cacheMap)
    | true =>
      rw [CcbCache.getCache_strip env hoff]
      generalize c₂.getCache env dn = d
      have hnil : d.strip.cacheMap = [] ↔ d.cacheMap = [] := List.map_eq_nil_iff
      have hput : put dn d.strip ((erase tempCacheKey c₁.cacheMap).map fun x => (x.1, x.2.strip)) =
          (put dn d (erase tempCacheKey c₁.cacheMap)).map fun x => (x.1, x.2.strip) :=
        put_map DnCache.strip _ _ _
      have hbuild : CcbCache.buildEventStruct (CcbCache.mk c₁.strip.txHandle c₁.strip.sourceIndicator
          ((put dn d (erase tempCacheKey c₁.cacheMap)).map fun x => (x.1, x.2.strip)) c₁.strip.memory) =
          CcbCache.buildEventStruct (CcbCache.mk c₁.txHandle c₁.sourceIndicator
            (put dn d (erase tempCacheKey c₁.cacheMap)) (c₁.memory.update env changes)) :=
        CcbCache.build_strip (CcbCache.mk c₁.txHandle c₁.sourceIndicator
          (put dn d (erase tempCacheKey c₁.cacheMap)) (c₁.memory.update env changes))
      rw [if_pos rfl, if_pos rfl, hput, hbuild]
      have hcaches : erase ccbId m.strip.cacheMap = (erase ccbId m.cacheMap).map fun x => (x.1, x.2.strip) :=
        erase_map CcbCache.strip _ _
      simp only [hnil]
      rw [hcaches]
      rfl

end CmState

end

/-! ## The count -/

def total (m : List (CcbId × CcbCache)) : Nat := (m.map fun x => x.2.memory.getMemory).sum

structure Counted (m : CmNotificationCache) : Prop where
  sorted : Sorted m.cacheMap
  self : m.memory.self = 0
  bound : m.memory.container ≤ total m.cacheMap

section
variable {env : CmEnv} {m : CmNotificationCache} {s s' : CmState} {r : CmReturn}

theorem counted_initial : Counted {} := ⟨List.Pairwise.nil, rfl, Nat.le_refl 0⟩

theorem total_put {l : List (CcbId × CcbCache)} (hl : Sorted l) (ccbId : CcbId) (c : CcbCache) :
    total (put ccbId c l) = c.memory.getMemory + total (erase ccbId l) := by
  unfold total
  rw [((put_perm_erase hl ccbId c).map _).sum_nat, List.map_cons, List.sum_cons]

theorem setMemory_bound {rest : Nat} {m c : Memory} (h : m.container ≤ rest + c.getMemory) (change : MemoryChange) :
    (m.setMemory change).container ≤ rest + (c.setMemory change).getMemory := by
  unfold Memory.setMemory Memory.getMemory at *
  cases change.memoryDeleted <;> simp <;> omega

theorem update_bound {rest : Nat} {m c : Memory} (h : m.container ≤ rest + c.getMemory)
    (changes : List MemoryChange) :
    (m.update env changes).container ≤ rest + (c.update env changes).getMemory := by
  unfold Memory.update
  split
  · exact h
  · induction changes generalizing m c with
    | nil => exact h
    | cons change changes ih => exact ih (setMemory_bound h change)

theorem update_removed (hon : env.maxSAMemoryForCMEvents ≠ 0) {rest : Nat} {m c : Memory}
    (h : m.container ≤ rest + c.getMemory) : (m.update env [⟨c.getMemory, true⟩]).container ≤ rest := by
  unfold Memory.update
  rw [if_neg hon]
  exact Nat.sub_le_iff_le_add.mpr h

theorem update_self (changes : List MemoryChange) (m : Memory) : (m.update env changes).self = m.self := by
  unfold Memory.update
  split
  · rfl
  · induction changes generalizing m with
    | nil => rfl
    | cons change changes ih => exact ih (m.setMemory change)

theorem Counted.getCache (h : Counted m) (ccbId : CcbId) :
    (m.getCache env ccbId).2.memory.self = 0 ∧ (m.getCache env ccbId).2.memory.container ≤
      total (erase ccbId m.cacheMap) + (m.getCache env ccbId).1.memory.getMemory := by
  have hbound := h.bound
  unfold CmNotificationCache.getCache
  cases hc : get? ccbId m.cacheMap with
  | some c =>
    refine ⟨h.self, ?_⟩
    have hsum : total m.cacheMap = c.memory.getMemory + total (erase ccbId m.cacheMap) := by
      unfold total
      rw [((perm_erase h.sorted hc).map _).sum_nat, List.map_cons, List.sum_cons]
    rw [hsum] at hbound
    dsimp only
    omega
  | none =>
    refine ⟨(update_self _ _).trans h.self, ?_⟩
    rw [erase_of_none hc]
    dsimp only
    unfold Memory.update Memory.created Memory.getMemory
    split
    · exact hbound
    · simpa [Memory.setMemory] using hbound

theorem Counted.put (h : Counted m) {ccbId : CcbId} {c : CcbCache} {memory : Memory} (hself : memory.self = 0)
    (hbound : memory.container ≤ total (erase ccbId m.cacheMap) + c.memory.getMemory) :
    Counted ⟨put ccbId c m.cacheMap, memory⟩ := by
  refine ⟨sorted_put h.sorted _ _, hself, ?_⟩
  rw [total_put h.sorted, Nat.add_comm]
  exact hbound

theorem Counted.discardAllCcbs (h : Counted s.cache) (hexceeded : s.cache.exceeded env = true) :
    s.discardAllCcbs = none := by
  unfold CmState.discardAllCcbs
  cases hmap : s.cache.cacheMap with
  | nil =>
    have hbound := h.bound
    have hself := h.self
    rw [hmap] at hbound
    unfold CmNotificationCache.exceeded Memory.getMemory at hexceeded
    rw [hself, Nat.le_zero.mp hbound] at hexceeded
    simp at hexceeded
  | cons x l => rfl

theorem storeDn_memory {dn : String} {eventType : CmEventType} {c c' : CcbCache} {changes : List MemoryChange}
    (h : CmState.storeDn env dn eventType c = some (c', changes)) : c'.memory = c.memory := by
  unfold CmState.storeDn at h
  dsimp only at h
  split at h
  · cases h
    rfl
  · split at h
    · cases h
    · cases h
      rfl
  · cases h
    rfl
  · cases h
    rfl

theorem Counted.addAttr (h : Counted s.cache) {ccbId : CcbId} {attrName immRdn memberName : String}
    {avc : CmContainer} (hadd : s.addAttr env ccbId attrName immRdn memberName avc = some (r, s')) :
    Counted s'.cache := by
  unfold CmState.addAttr at hadd
  split at hadd <;> rename_i hexceeded
  · rw [h.discardAllCcbs hexceeded] at hadd
    cases hadd
  · obtain ⟨hself, hbound⟩ := @Counted.getCache env _ h ccbId
    dsimp only at hadd
    split at hadd
    · cases hadd
      exact h
    · cases hadd
      rw [CmNotificationCache.getCache_cacheMap]
      exact h.put ((update_self _ _).trans hself) (update_bound hbound _)

theorem Counted.setDn (hon : env.maxSAMemoryForCMEvents ≠ 0) (h : Counted s.cache) {ccbId : CcbId}
    {sourceIndicator : SourceIndicator} {dn : String}
    {eventType : CmEventType} {ccbLast : Bool}
    (hset : s.setDn env ccbId sourceIndicator dn eventType ccbLast = some (r, s')) : Counted s'.cache := by
  unfold CmState.setDn at hset
  split at hset <;> rename_i hexceeded
  · rw [h.discardAllCcbs hexceeded] at hset
    cases hset
  · obtain ⟨hself, hbound⟩ := @Counted.getCache env _ h ccbId
    dsimp only at hset
    split at hset
    · cases hset
    · rename_i c changes hstore
      have hmemory := storeDn_memory hstore
      dsimp only at hmemory
      rw [← hmemory] at hbound
      have hcounted := @update_bound env _ _ _ hbound changes
      split at hset
      · cases hset
        rw [CmNotificationCache.getCache_cacheMap]
        refine ⟨sorted_erase h.sorted _, ?_, ?_⟩
        · rw [update_self, update_self]
          exact hself
        · exact update_removed hon hcounted
      · cases hset
        rw [CmNotificationCache.getCache_cacheMap]
        exact h.put ((update_self _ _).trans hself) hcounted

end

end ComSA.Cm
