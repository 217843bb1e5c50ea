import ComSA.Lib.Counter
import ComSA.Lib.Run
import ComSA.Ntf.CmMemory

/-!
# Exact counts of the memory

Each level of the cache has a counter of its own, and every change is made to the counters of all levels it
concerns. It is told here when none of them has to stop at zero, and that the counter of the whole cache is then
what the caches of the CCBs have.
-/

namespace ComSA.Cm

open SortedMap Delta

def MemoryChange.delta (change : MemoryChange) : Delta :=
  if change.memoryDeleted then .take change.bytes else .add change.bytes

def Memory.Unclamped (m : Memory) (changes : List MemoryChange) : Prop :=
  Fits m.container (changes.map MemoryChange.delta)

def StructElementCache.bytes (env : CmEnv) (t : StructElementCache) : Nat :=
  (t.structElementList.map fun m => memgetAVC env (.plain m.2)).sum

/-- What is taken off for an element that is taken over, and what is gained by it. -/
def AvcCache.elementPart (env : CmEnv) (old : Option StructElementCache) (t : StructElementCache) : Nat × Nat :=
  match old with
  | some e => (e.memory.getMemory, t.bytes env)
  | none => (0, t.memory.getMemory)

def AvcCache.parts (env : CmEnv) (v t : AvcCache) : List (Nat × Nat) :=
  t.cacheMap.map fun x => elementPart env (get? x.1 v.cacheMap) x.2

def DnCache.attrParts (env : CmEnv) (old : Option AvcCache) (t : AvcCache) : List (Nat × Nat) :=
  match old with
  | some v => v.parts env t
  | none => [(0, t.memory.getMemory)]

def DnCache.parts (env : CmEnv) (d t : DnCache) : List (Nat × Nat) :=
  t.cacheMap.flatMap fun x => attrParts env (get? x.1 d.cacheMap) x.2

/-- When new attributes come for a DN that is there, the counter of the CCB has the size of the temporary cache
besides what was counted for its attributes, and what is left covers each element that gets more members. The
counter of the attribute covers it, too. -/
structure CcbCache.Covered (env : CmEnv) (c : CcbCache) (d t : DnCache) : Prop where
  temporary : t.memory.getMemory ≤ c.memory.container
  ccb : Exchanged (c.memory.container - t.memory.getMemory) (d.parts env t)
  attributes : ∀ x ∈ t.cacheMap, ∀ v, get? x.1 d.cacheMap = some v → Exchanged v.memory.container (v.parts env x.2)

def CmCall.Covered (env : CmEnv) (o : Option CmState) : CmCall → Prop
  | .addAttr .. => True
  | .setDn ccbId _ dn _ _ => ∀ s c d t, o = some s → s.cache.exceeded env = false → dn ≠ tempCacheKey →
      get? ccbId s.cache.cacheMap = some c → get? dn c.cacheMap = some d → get? tempCacheKey c.cacheMap = some t →
        c.Covered env d t

/-- No counter has to stop at zero in the call: not the one of the CCB, of the whole cache, of the DN or of an
attribute. -/
def CmCall.Unclamped (env : CmEnv) (o : Option CmState) : CmCall → Prop
  -- nothing is taken off
  | .addAttr .. => True
  | .setDn ccbId sourceIndicator dn eventType ccbLast => ∀ s c changes, o = some s → s.cache.exceeded env = false →
      CmState.storeDn env dn eventType { (s.cache.getCache env ccbId).1 with sourceIndicator } = some (c, changes) →
        c.memory.Unclamped changes ∧
        (s.cache.getCache env ccbId).2.memory.Unclamped changes ∧
        (ccbLast = true → ((s.cache.getCache env ccbId).2.memory.update env changes).Unclamped
          [⟨(c.memory.update env changes).getMemory, true⟩]) ∧
        ∀ d t, get? dn (s.cache.getCache env ccbId).1.cacheMap = some d →
          get? tempCacheKey (s.cache.getCache env ccbId).1.cacheMap = some t →
            d.memory.Unclamped (d.mergeChanges env t) ∧
            ∀ x ∈ t.cacheMap, ∀ v, get? x.1 d.cacheMap = some v → v.memory.Unclamped (v.mergeChanges env x.2)

/-- The counter is what the caches of the CCBs have, so it is zero without a CCB and no overflow is told then. -/
structure Exact (env : CmEnv) (s : CmState) : Prop where
  counter : s.cache.memory.container = total s.cache.cacheMap
  empty : s.cache.cacheMap = [] → s.cache.memory.container = 0 ∧ s.cache.exceeded env = false

/-- The run counts exactly: after every call, and without a counter that has to stop at zero. -/
def CountsExactly (env : CmEnv) (calls : List CmCall) : Prop :=
  Along (CmCall.step env)
    (fun o call => call.Unclamped env o ∧ ∀ s, CmCall.step env o call = some s → Exact env s) (some {}) calls

/-! ## Counters and changes -/

section
variable {env : CmEnv} (hon : env.maxSAMemoryForCMEvents ≠ 0)

theorem setMemory_container (m : Memory) (change : MemoryChange) :
    (m.setMemory change).container = change.delta.apply m.container := by
  unfold Memory.setMemory MemoryChange.delta
  cases change.memoryDeleted <;> rfl

include hon in
theorem update_container (m : Memory) (changes : List MemoryChange) :
    (m.update env changes).container = applyAll m.container (changes.map MemoryChange.delta) := by
  rw [Memory.update, if_neg hon]
  induction changes generalizing m with
  | nil => rfl
  | cons change changes ih =>
    rw [List.foldl_cons, ih, setMemory_container]
    rfl

/-- By induction on the members that are copied. -/
theorem addAll_getMemory (hon : env.maxSAMemoryForCMEvents ≠ 0) (e t : StructElementCache) :
    (e.addAll env t).memory.getMemory = e.memory.getMemory + t.bytes env := by
  unfold StructElementCache.addAll StructElementCache.bytes
  generalize t.structElementList = l
  induction l generalizing e with
  | nil => rfl
  | cons m l ih =>
    have hadd : (e.addToStructElementList env m.1 (.plain m.2)).getD e =
        ⟨e.structElementList ++ [(m.1, m.2)], e.memory.update env [⟨memgetAVC env (.plain m.2), false⟩]⟩ := rfl
    have hmemory : (e.memory.update env [⟨memgetAVC env (.plain m.2), false⟩]).getMemory =
        e.memory.getMemory + memgetAVC env (.plain m.2) := by
      rw [Memory.getMemory, update_self, update_container hon, Memory.getMemory, Nat.add_assoc]
      rfl
    rw [List.foldl_cons, hadd, ih, hmemory, List.map_cons, List.sum_cons, Nat.add_assoc]

structure Match (changes : List MemoryChange) (parts : List (Nat × Nat)) : Prop where
  fits_iff : ∀ counter, Fits counter (changes.map MemoryChange.delta) ↔ Exchanged counter parts
  applyAll : ∀ counter, Exchanged counter parts →
    applyAll counter (changes.map MemoryChange.delta) = counter + (parts.map Prod.snd).sum

theorem Match.nil : Match [] [] := ⟨fun _ => Iff.rfl, fun _ _ => rfl⟩

theorem Match.append {changes changes' : List MemoryChange} {parts parts' : List (Nat × Nat)}
    (h : Match changes parts) (h' : Match changes' parts') : Match (changes ++ changes') (parts ++ parts') := by
  constructor
  · intro counter
    rw [List.map_append, fits_append, exchanged_append, h.fits_iff]
    exact and_congr_right fun hparts => by rw [h.applyAll counter hparts, h'.fits_iff]
  · intro counter hparts
    obtain ⟨hfirst, hrest⟩ := exchanged_append.mp hparts
    rw [List.map_append, applyAll_append, h.applyAll counter hfirst, h'.applyAll _ hrest, List.map_append,
      List.sum_append, Nat.add_assoc]

theorem Match.flatMap {α : Type} {l : List α} {f : α → List MemoryChange} {g : α → List (Nat × Nat)}
    (h : ∀ x ∈ l, Match (f x) (g x)) : Match (l.flatMap f) (l.flatMap g) := by
  induction l with
  | nil => exact .nil
  | cons x l ih =>
    rw [List.flatMap_cons, List.flatMap_cons]
    exact (h x List.mem_cons_self).append (ih fun y hy => h y (List.mem_cons_of_mem x hy))

theorem match_add (bytes : Nat) : Match [⟨bytes, false⟩] [(0, bytes)] :=
  ⟨fun counter => by simp [MemoryChange.delta, Fits, Exchanged], fun _ _ => rfl⟩

include hon in
theorem match_element (old : Option StructElementCache) (t : StructElementCache) :
    Match (AvcCache.elementChanges env old t) [AvcCache.elementPart env old t] := by
  cases old with
  | none => exact match_add _
  | some e =>
    have hchanges : (AvcCache.elementChanges env (some e) t).map MemoryChange.delta =
        [.take e.memory.getMemory, .add (e.memory.getMemory + t.bytes env)] := by
      rw [← addAll_getMemory hon e t]
      rfl
    constructor
    · intro counter
      rw [hchanges]
      exact fits_exchange
    · rintro counter ⟨htaken, -⟩
      rw [hchanges]
      have hcovered : e.memory.getMemory ≤ counter := htaken
      simp only [applyAll_cons, Delta.apply, applyAll_nil, AvcCache.elementPart, List.map_cons, List.map_nil,
        List.sum_cons, List.sum_nil]
      omega

include hon in
theorem match_avc (v t : AvcCache) : Match (v.mergeChanges env t) (v.parts env t) := by
  have hparts : v.parts env t = t.cacheMap.flatMap fun x => [AvcCache.elementPart env (get? x.1 v.cacheMap) x.2] :=
    List.map_eq_flatMap
  rw [hparts]
  exact .flatMap fun x _ => match_element hon (get? x.1 v.cacheMap) x.2

include hon in
theorem match_dn (d t : DnCache) : Match (d.mergeChanges env t) (d.parts env t) := by
  refine .flatMap fun x _ => ?_
  cases get? x.1 d.cacheMap with
  | none => exact match_add _
  | some v => exact match_avc hon v x.2

/-! ## What is kept -/

structure DnCounted (d : DnCache) : Prop where
  sorted : Sorted d.cacheMap
  attributes : ∀ attrName v, get? attrName d.cacheMap = some v → v.memory.getMemory ≤ d.memory.container

def CcbCounted (c : CcbCache) : Prop := ∀ dn d, get? dn c.cacheMap = some d → DnCounted d

structure Accounted (m : CmNotificationCache) : Prop where
  sorted : Sorted m.cacheMap
  self : m.memory.self = 0
  exact : m.memory.container = total m.cacheMap
  ccbs : ∀ ccbId c, get? ccbId m.cacheMap = some c → CcbCounted c

theorem Accounted.counted {m : CmNotificationCache} (h : Accounted m) : Counted m := ⟨h.sorted, h.self, h.exact.le⟩

theorem Accounted.exact_of {s : CmState} (h : Accounted s.cache) : Exact env s := by
  refine ⟨h.exact, fun hempty => ?_⟩
  have hzero : s.cache.memory.container = 0 := by
    rw [h.exact, hempty]
    rfl
  refine ⟨hzero, ?_⟩
  unfold CmNotificationCache.exceeded Memory.getMemory
  rw [h.self, hzero]
  simp

theorem accounted_initial : Accounted {} :=
  ⟨List.Pairwise.nil, rfl, rfl, fun _ _ h => by cases h⟩

theorem dnCounted_new {d : DnCache} (h : d.cacheMap = []) : DnCounted d := by
  constructor
  · rw [h]
    exact List.Pairwise.nil
  · intro attrName v hv
    rw [h] at hv
    cases hv

theorem CcbCounted.getCache {c : CcbCache} (h : CcbCounted c) (dn : String) : DnCounted (c.getCache env dn) := by
  unfold CcbCache.getCache
  cases hd : get? dn c.cacheMap with
  | none => exact dnCounted_new rfl
  | some d => exact h dn d hd

theorem CcbCounted.put {c : CcbCache} (h : CcbCounted c) {dn : String} {d : DnCache} (hd : DnCounted d)
    {c' : CcbCache} (hc' : c'.cacheMap = put dn d c.cacheMap) : CcbCounted c' := by
  intro dn' d' hget
  rw [hc', get?_put] at hget
  split at hget
  · cases hget
    exact hd
  · exact h dn' d' hget

theorem Accounted.put {m : CmNotificationCache} (h : Accounted m) {ccbId : CcbId} {c : CcbCache} {memory : Memory}
    (hself : memory.self = 0) (hexact : memory.container = total (erase ccbId m.cacheMap) + c.memory.getMemory)
    (hc : CcbCounted c) : Accounted ⟨put ccbId c m.cacheMap, memory⟩ := by
  refine ⟨sorted_put h.sorted _ _, hself, ?_, ?_⟩
  · rw [total_put h.sorted, Nat.add_comm]
    exact hexact
  · intro ccbId' c' hget
    rw [get?_put] at hget
    split at hget
    · cases hget
      exact hc
    · exact h.ccbs ccbId' c' hget

include hon in
theorem Accounted.getCache {m : CmNotificationCache} (h : Accounted m) (ccbId : CcbId) :
    (m.getCache env ccbId).2.memory.self = 0 ∧
      (m.getCache env ccbId).2.memory.container =
        total (erase ccbId m.cacheMap) + (m.getCache env ccbId).1.memory.getMemory ∧
      CcbCounted (m.getCache env ccbId).1 := by
  have hexact := h.exact
  unfold CmNotificationCache.getCache
  cases hc : get? ccbId m.cacheMap with
  | some c =>
    have hsum : total m.cacheMap = c.memory.getMemory + total (erase ccbId m.cacheMap) := by
      unfold total
      rw [((perm_erase h.sorted hc).map _).sum_nat, List.map_cons, List.sum_cons]
    refine ⟨h.self, ?_, h.ccbs ccbId c hc⟩
    dsimp only
    omega
  | none =>
    refine ⟨(update_self _ _).trans h.self, ?_, fun dn d hd => by cases hd⟩
    rw [erase_of_none hc, update_container hon, hexact, Memory.created, if_neg hon]
    rfl

include hon in
theorem update_exact {rest : Nat} {m c : Memory} (h : m.container = rest + c.getMemory)
    {changes : List MemoryChange}
    (hfits : c.Unclamped changes) :
    m.Unclamped changes ∧ (m.update env changes).container = rest + (c.update env changes).getMemory := by
  have hsplit : m.container = c.container + (rest + c.self) := by
    rw [h, Memory.getMemory]
    omega
  obtain ⟨hmore, happly⟩ := Fits.add hfits (rest + c.self)
  rw [← hsplit] at hmore happly
  refine ⟨hmore, ?_⟩
  rw [Memory.getMemory, update_self, update_container hon, update_container hon, happly]
  omega

/-! ## The calls -/

include hon in
theorem DnCounted.addAttr {d d' : DnCache} (h : DnCounted d) {ccbId : CcbId} {attrName immRdn memberName : String}
    {avc : CmContainer} {change : MemoryChange}
    (hadd : d.addAttr env ccbId attrName immRdn memberName avc = some (d', change)) :
    DnCounted d' ∧ change.memoryDeleted = false := by
  obtain ⟨v, -, hv⟩ := Option.map_eq_some_iff.mp hadd
  obtain ⟨rfl, rfl⟩ := Prod.ext_iff.mp hv
  have hcontainer : (d.memory.update env [⟨v.memory.getMemory, false⟩]).container =
      d.memory.container + v.memory.getMemory := update_container hon _ _
  refine ⟨⟨sorted_put h.sorted _ _, fun attrName' v' hget => ?_⟩, rfl⟩
  dsimp only at hget ⊢
  rw [hcontainer]
  rw [get?_put] at hget
  split at hget
  · cases hget
    omega
  · have := h.attributes attrName' v' hget
    omega

include hon in
theorem Accounted.addAttr {s s' : CmState} {r : CmReturn} (h : Accounted s.cache) {ccbId : CcbId}
    {attrName immRdn memberName : String} {avc : CmContainer}
    (hadd : s.addAttr env ccbId attrName immRdn memberName avc = some (r, s')) : Accounted s'.cache := by
  unfold CmState.addAttr at hadd
  split at hadd <;> rename_i hexceeded
  · rw [h.counted.discardAllCcbs hexceeded] at hadd
    cases hadd
  · obtain ⟨hself, hexact, hccb⟩ := h.getCache hon ccbId
    dsimp only at hadd
    split at hadd
    · cases hadd
      exact h
    · rename_i d change hd
      cases hadd
      obtain ⟨hcounted, hadds⟩ := (hccb.getCache tempCacheKey).addAttr hon hd
      have hfits : (s.cache.getCache env ccbId).1.memory.Unclamped [change] := by
        unfold Memory.Unclamped MemoryChange.delta
        rw [List.map_singleton, hadds]
        trivial
      rw [CmNotificationCache.getCache_cacheMap]
      exact h.put ((update_self _ _).trans hself) (update_exact hon hexact hfits).2 (hccb.put hcounted rfl)

theorem sum_le_of_mem {t : DnCache} {d : DnCache} {x : String × AvcCache} (hx : x ∈ t.cacheMap) :
    ((DnCache.attrParts env (get? x.1 d.cacheMap) x.2).map Prod.snd).sum ≤ ((d.parts env t).map Prod.snd).sum := by
  unfold DnCache.parts
  generalize t.cacheMap = l at hx
  induction l with
  | nil => cases hx
  | cons y l ih =>
    rw [List.flatMap_cons, List.map_append, List.sum_append]
    rcases List.mem_cons.mp hx with rfl | hx
    · exact Nat.le_add_right ..
    · exact (ih hx).trans (Nat.le_add_left ..)

theorem DnCounted.exchanged {d t : DnCache} (h : DnCounted d)
    (hcovered : ∀ x ∈ t.cacheMap, ∀ v, get? x.1 d.cacheMap = some v → Exchanged v.memory.container
      (v.parts env x.2)) :
    Exchanged d.memory.container (d.parts env t) := by
  refine exchanged_flatMap fun x hx => ?_
  cases hv : get? x.1 d.cacheMap with
  | none => exact ⟨Nat.zero_le _, trivial⟩
  | some v =>
    have hle := h.attributes x.1 v hv
    exact (hcovered x hx v hv).mono ((Nat.le_add_left ..).trans hle)

include hon in
theorem DnCounted.merge {d t : DnCache} (h : DnCounted d) (ht : DnCounted t)
    (hcovered : ∀ x ∈ t.cacheMap, ∀ v, get? x.1 d.cacheMap = some v → Exchanged v.memory.container
      (v.parts env x.2)) :
    DnCounted (d.merge env t) := by
  refine ⟨sorted_mergeInto _ h.sorted _, fun attrName v hv => ?_⟩
  have hcontainer : (d.merge env t).memory.container = d.memory.container + ((d.parts env t).map Prod.snd).sum := by
    rw [DnCache.merge, update_container hon]
    exact (match_dn hon d t).applyAll _ (h.exchanged hcovered)
  rw [hcontainer]
  have hget : ((get? attrName t.cacheMap).map (AvcCache.takeOver env (get? attrName d.cacheMap))).or
      (get? attrName d.cacheMap) = some v := by
    rw [← get?_mergeInto _ (nodup_keys ht.sorted)]
    exact hv
  cases htv : get? attrName t.cacheMap with
  | none =>
    rw [htv] at hget
    have := h.attributes attrName v hget
    omega
  | some tv =>
    rw [htv] at hget
    have hmem := mem_of_get? htv
    have hsum := @sum_le_of_mem env t d _ hmem
    cases hdv : get? attrName d.cacheMap with
    | none =>
      rw [hdv] at hget hsum
      obtain rfl : tv = v := Option.some.inj hget
      have hsum' : tv.memory.getMemory ≤ ((d.parts env t).map Prod.snd).sum := hsum
      omega
    | some dv =>
      rw [hdv] at hget hsum
      obtain rfl : dv.merge env tv = v := Option.some.inj hget
      have hmemory : (dv.merge env tv).memory.getMemory =
          dv.memory.getMemory + ((dv.parts env tv).map Prod.snd).sum := by
        rw [AvcCache.merge, Memory.getMemory, update_self, update_container hon,
          (match_avc hon dv tv).applyAll _ (hcovered _ hmem dv hdv), Memory.getMemory, Nat.add_assoc]
      have hle := h.attributes attrName dv hdv
      have hsum' : ((dv.parts env tv).map Prod.snd).sum ≤ ((d.parts env t).map Prod.snd).sum := hsum
      omega

include hon in
theorem unclamped_merge_iff {c : CcbCache} {d t : DnCache} :
    c.memory.Unclamped (⟨t.memory.getMemory, true⟩ :: d.mergeChanges env t) ↔
      t.memory.getMemory ≤ c.memory.container ∧
        Exchanged (c.memory.container - t.memory.getMemory) (d.parts env t) := by
  rw [Memory.Unclamped, ← (match_dn hon d t).fits_iff]
  rfl

theorem dnCounted_setEventType {d : DnCache} (h : DnCounted d) (eventType : CmEventType) :
    DnCounted (d.setEventType eventType) := ⟨h.sorted, h.attributes⟩

include hon in
theorem CcbCounted.storeDn {c c' : CcbCache} (h : CcbCounted c) {dn : String} {eventType : CmEventType}
    {changes : List MemoryChange} (hstore : CmState.storeDn env dn eventType c = some (c', changes))
    (hcovered : ∀ d t, dn ≠ tempCacheKey → get? dn c.cacheMap = some d → get? tempCacheKey c.cacheMap = some t →
      c.Covered env d t) :
    CcbCounted c' ∧ c'.memory.Unclamped changes := by
  unfold CmState.storeDn at hstore
  cases hd : get? dn c.cacheMap with
  | none =>
    cases ht : get? tempCacheKey c.cacheMap with
    | none =>
      rw [hd, ht] at hstore
      cases hstore
      exact ⟨h.put (dnCounted_setEventType (h.getCache dn) eventType) rfl, trivial⟩
    | some t =>
      rw [hd, ht] at hstore
      cases hstore
      exact ⟨h.put (dnCounted_setEventType (h tempCacheKey t ht) eventType) rfl, trivial⟩
  | some d =>
    cases ht : get? tempCacheKey c.cacheMap with
    | none =>
      rw [hd, ht] at hstore
      cases hstore
      exact ⟨h, trivial⟩
    | some t =>
      rw [hd, ht] at hstore
      dsimp only [Option.map_some] at hstore
      split at hstore
      · cases hstore
      · rename_i hkey
        cases hstore
        obtain ⟨htemporary, hccb, hattributes⟩ := hcovered d t hkey hd ht
        have ht' := dnCounted_setEventType (h tempCacheKey t ht) eventType
        exact ⟨h.put ((h dn d hd).merge hon ht' hattributes) rfl, (unclamped_merge_iff hon).mpr ⟨htemporary, hccb⟩⟩

theorem storeDn_merge {c : CcbCache} {dn : String} {eventType : CmEventType} {d t : DnCache}
    (hkey : dn ≠ tempCacheKey)
    (hd : get? dn c.cacheMap = some d) (ht : get? tempCacheKey c.cacheMap = some t) :
    ∃ c', CmState.storeDn env dn eventType c =
      some (c', ⟨t.memory.getMemory, true⟩ :: d.mergeChanges env t) ∧ c'.memory = c.memory := by
  unfold CmState.storeDn
  rw [hd, ht]
  dsimp only [Option.map_some]
  rw [if_neg hkey]
  exact ⟨_, rfl, rfl⟩

theorem storeDn_key {c c' : CcbCache} {dn : String} {eventType : CmEventType} {changes : List MemoryChange}
    {d t : DnCache} (hstore : CmState.storeDn env dn eventType c = some (c', changes))
    (hd : get? dn c.cacheMap = some d) (ht : get? tempCacheKey c.cacheMap = some t) : dn ≠ tempCacheKey := by
  rintro rfl
  unfold CmState.storeDn at hstore
  rw [ht] at hstore
  cases hstore

section SetDn
variable {s : CmState} (h : Accounted s.cache) {ccbId : CcbId} {sourceIndicator : SourceIndicator} {dn : String}
  {eventType : CmEventType} {ccbLast : Bool}

theorem CmCall.Covered.ccb (hcovered : (CmCall.setDn ccbId sourceIndicator dn eventType ccbLast).Covered env
    (some s))
    (hok : s.cache.exceeded env = false) (d t : DnCache) (hkey : dn ≠ tempCacheKey)
    (hd : get? dn (s.cache.getCache env ccbId).1.cacheMap = some d)
    (ht : get? tempCacheKey (s.cache.getCache env ccbId).1.cacheMap = some t) :
    (s.cache.getCache env ccbId).1.Covered env d t := by
  unfold CmNotificationCache.getCache at hd ht ⊢
  cases hc : get? ccbId s.cache.cacheMap with
  | none =>
    rw [hc] at hd
    cases hd
  | some c =>
    rw [hc] at hd ht
    exact hcovered s c d t rfl hok hkey hc hd ht

include hon h in
theorem Accounted.stored (hcovered : (CmCall.setDn ccbId sourceIndicator dn eventType ccbLast).Covered env (some s))
    (hok : s.cache.exceeded env = false) {c : CcbCache} {changes : List MemoryChange}
    (hstore : CmState.storeDn env dn eventType { (s.cache.getCache env ccbId).1 with sourceIndicator } =
      some (c, changes)) :
    CcbCounted c ∧ c.memory.Unclamped changes ∧ (s.cache.getCache env ccbId).2.memory.Unclamped changes ∧
      ((s.cache.getCache env ccbId).2.memory.update env changes).container =
        total (erase ccbId s.cache.cacheMap) + (c.memory.update env changes).getMemory := by
  obtain ⟨-, hexact, hccb⟩ := h.getCache hon ccbId
  have hccb' : CcbCounted { (s.cache.getCache env ccbId).1 with sourceIndicator } := hccb
  obtain ⟨hcounted, hfits⟩ := hccb'.storeDn hon hstore fun d t hkey hd ht =>
    let ⟨htemporary, hparts, hattributes⟩ := hcovered.ccb hok d t hkey hd ht
    ⟨htemporary, hparts, hattributes⟩
  have hmemory := storeDn_memory hstore
  dsimp only at hmemory
  rw [← hmemory] at hexact
  obtain ⟨hcache, hupdated⟩ := update_exact hon hexact hfits
  exact ⟨hcounted, hfits, hcache, hupdated⟩

include hon h in
theorem unclamped_setDn_iff :
    (CmCall.setDn ccbId sourceIndicator dn eventType ccbLast).Unclamped env (some s) ↔
      (CmCall.setDn ccbId sourceIndicator dn eventType ccbLast).Covered env (some s) := by
  obtain ⟨-, -, hccb⟩ := h.getCache hon ccbId
  constructor
  · rintro hunclamped _ c d t ⟨⟩ hok hkey hc hd ht
    have hget : (s.cache.getCache env ccbId).1 = c := by
      rw [CmNotificationCache.getCache, hc]
    obtain ⟨c', hstore, hmemory⟩ := @storeDn_merge env { c with sourceIndicator } dn eventType d t hkey hd ht
    rw [← hget] at hd ht hstore
    obtain ⟨hfits, -, -, hinner⟩ := hunclamped s c' _ rfl hok hstore
    rw [hmemory] at hfits
    obtain ⟨htemporary, hparts⟩ := (unclamped_merge_iff hon).mp hfits
    refine ⟨htemporary, hparts, fun x hx v hv => ?_⟩
    exact ((match_avc hon v x.2).fits_iff _).mp ((hinner d t hd ht).2 x hx v hv)
  · rintro hcovered _ c changes ⟨⟩ hok hstore
    obtain ⟨-, hfits, hcache, hupdated⟩ := h.stored hon hcovered hok hstore
    refine ⟨hfits, hcache, fun _ => ⟨?_, trivial⟩, fun d t hd ht => ?_⟩
    · rw [hupdated]
      exact Nat.le_add_left ..
    · obtain ⟨-, -, hattributes⟩ := hcovered.ccb hok d t (storeDn_key hstore hd ht) hd ht
      have hdn := (hccb dn d hd).exchanged hattributes
      refine ⟨((match_dn hon d t).fits_iff _).mpr hdn, fun x hx v hv => ?_⟩
      exact ((match_avc hon v x.2).fits_iff _).mpr (hattributes x hx v hv)

include hon h in
theorem Accounted.setDn {s' : CmState} {r : CmReturn}
    (hcovered : (CmCall.setDn ccbId sourceIndicator dn eventType ccbLast).Covered env (some s))
    (hset : s.setDn env ccbId sourceIndicator dn eventType ccbLast = some (r, s')) : Accounted s'.cache := by
  unfold CmState.setDn at hset
  split at hset <;> rename_i hexceeded
  · rw [h.counted.discardAllCcbs hexceeded] at hset
    cases hset
  · obtain ⟨hself, -, -⟩ := h.getCache hon ccbId
    have hok : s.cache.exceeded env = false := Bool.eq_false_iff.mpr hexceeded
    dsimp only at hset
    split at hset
    · cases hset
    · rename_i c changes hstore
      obtain ⟨hcounted, -, -, hupdated⟩ := h.stored hon hcovered hok hstore
      split at hset
      · cases hset
        rw [CmNotificationCache.getCache_cacheMap]
        refine ⟨sorted_erase h.sorted _, ?_, ?_, fun ccbId' c' hget => ?_⟩
        · rw [update_self, update_self]
          exact hself
        · rw [update_container hon, hupdated]
          exact Nat.add_sub_cancel ..
        · rw [get?_erase] at hget
          split at hget
          · cases hget
          · exact h.ccbs ccbId' c' hget
      · cases hset
        rw [CmNotificationCache.getCache_cacheMap]
        refine h.put ((update_self _ _).trans hself) hupdated fun dn' d' hget => ?_
        rw [get?_erase] at hget
        split at hget
        · cases hget
        · exact hcounted dn' d' hget

end SetDn

include hon in
theorem Accounted.step {s s' : CmState} (h : Accounted s.cache) {call : CmCall}
    (hcovered : call.Covered env (some s))
    (hstep : call.step env (some s) = some s') : Accounted s'.cache := by
  cases call with
  | addAttr ccbId attrName immRdn memberName avc =>
    obtain ⟨x, hadd, rfl⟩ := Option.map_eq_some_iff.mp hstep
    exact h.addAttr hon hadd
  | setDn ccbId sourceIndicator dn eventType ccbLast =>
    obtain ⟨x, hset, rfl⟩ := Option.map_eq_some_iff.mp hstep
    exact h.setDn hon hcovered hset

end

def Kept (o : Option CmState) : Prop := ∀ s, o = some s → Accounted s.cache

section
variable {env : CmEnv} (hon : env.maxSAMemoryForCMEvents ≠ 0) {o : Option CmState} {call : CmCall}
include hon

theorem Kept.step (h : Kept o) (hcovered : call.Covered env o) : Kept (call.step env o) := by
  intro s' hstep
  cases o with
  | none => cases hstep
  | some s => exact (h s rfl).step hon hcovered hstep

theorem exact_step_iff (h : Kept o) :
    (call.Unclamped env o ∧ ∀ s, call.step env o = some s → Exact env s) ↔ call.Covered env o := by
  cases call with
  | addAttr ccbId attrName immRdn memberName avc =>
    refine ⟨fun _ => trivial, fun hcovered => ⟨trivial, fun s' hstep => ?_⟩⟩
    exact (h.step hon hcovered s' hstep).exact_of
  | setDn ccbId sourceIndicator dn eventType ccbLast =>
    cases o with
    | none => exact iff_of_true ⟨fun _ _ _ hs => (by cases hs), fun _ hs => (by cases hs)⟩ fun _ _ _ _ hs =>
      (by cases hs)
    | some s =>
      rw [unclamped_setDn_iff hon (h s rfl)]
      exact and_iff_left_of_imp fun hcovered s' hstep => (h.step hon hcovered s' hstep).exact_of

end

theorem countsExactly_iff_covered (env : CmEnv) (hon : env.maxSAMemoryForCMEvents ≠ 0) (calls : List CmCall) :
    CountsExactly env calls ↔ Along (CmCall.step env) (CmCall.Covered env) (some {}) calls := by
  have hinitial : Kept (some {}) := by
    rintro _ ⟨⟩
    exact accounted_initial
  exact along_iff_along (fun o call (h : Kept o) => exact_step_iff hon h)
    (fun o call h hcovered => h.step hon hcovered) hinitial calls

/-- No attributes come for a DN that the CCB has already: the temporary cache is never merged into another one,
so its size, which was not counted, is never taken off. -/
def CmCall.NotMerged (o : Option CmState) : CmCall → Prop
  | .addAttr .. => True
  | .setDn ccbId _ dn _ _ => ∀ c ∈ o.bind fun s => get? ccbId s.cache.cacheMap,
      get? dn c.cacheMap = none ∨ get? tempCacheKey c.cacheMap = none

instance (o : Option CmState) (call : CmCall) : Decidable (call.NotMerged o) := by
  cases call <;> unfold CmCall.NotMerged <;> infer_instance

theorem CmCall.NotMerged.covered {env : CmEnv} {o : Option CmState} {call : CmCall} (h : call.NotMerged o) :
    call.Covered env o := by
  cases call with
  | addAttr => trivial
  | setDn ccbId sourceIndicator dn eventType ccbLast =>
    rintro s c d t rfl - - hc hd ht
    rcases h c hc with hnone | hnone
    · rw [hd] at hnone
      cases hnone
    · rw [ht] at hnone
      cases hnone

theorem countsExactly_of_notMerged (env : CmEnv) (hon : env.maxSAMemoryForCMEvents ≠ 0) (calls : List CmCall)
    (hcalls : Along (CmCall.step env) CmCall.NotMerged (some {}) calls) : CountsExactly env calls := by
  rw [countsExactly_iff_covered env hon]
  exact along_of_along (fun _ _ (_ : True) hcall => ⟨hcall.covered, trivial⟩) trivial hcalls

def wideEnv : CmEnv := ⟨10000, 144, 120, 136, 56, 16, 16⟩

/-- The same attribute of one object is changed three times in a transaction. -/
def sameAttribute : List CmCall :=
  (List.replicate 3 [CmCall.addAttr 1 "name" "" "" (.plain ⟨.string, [.text "a"]⟩),
    .setDn 1 .managementOperation "Foo=1" .attributeValueChange false]).flatten

/-- Two CCBs at once, with a struct of two members and with an object that is only deleted. -/
def interleaved : List CmCall :=
  [.addAttr 1 "name" "" "" (.plain ⟨.string, [.text "a"]⟩),
    .addAttr 2 "limits" "id=limits_0" "low" (.plain ⟨.uint32, [.number 1]⟩),
    .setDn 1 .managementOperation "Foo=1" .moCreated false,
    .addAttr 2 "limits" "id=limits_0" "high" (.plain ⟨.uint32, [.number 9]⟩),
    .setDn 2 .managementOperation "Foo=1" .attributeValueChange true,
    .addAttr 1 "name" "" "" (.plain ⟨.string, [.text "bc"]⟩),
    .setDn 1 .managementOperation "Foo=2" .attributeValueChange false,
    .setDn 1 .managementOperation "Foo=1" .moDeleted true]

theorem countsExactly_of_notMerged_interleaved : CountsExactly wideEnv interleaved :=
  countsExactly_of_notMerged wideEnv (by decide) interleaved (by decide +kernel)

theorem not_countsExactly :
    ¬ ∀ env : CmEnv, env.maxSAMemoryForCMEvents ≠ 0 → ∀ calls, CountsExactly env calls := by
  intro h
  have hall := h wideEnv (by decide) (sameAttribute.dropLast ++ [sameAttribute.getLast (by decide)])
  obtain ⟨-, ⟨-, hexact⟩, -⟩ := along_append.mp hall
  have hlast : ∃ s, CmCall.step wideEnv (sameAttribute.dropLast.foldl (CmCall.step wideEnv) (some {}))
      (sameAttribute.getLast (by decide)) = some s ∧ s.cache.memory.container = 73 ∧
        total s.cache.cacheMap = 144 := ⟨_, rfl, by decide +kernel, by decide +kernel⟩
  obtain ⟨s, hs, hcounter, htotal⟩ := hlast
  have hequal := (hexact s hs).counter
  omega

end ComSA.Cm
