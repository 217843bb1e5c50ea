import ComSA.Lib.Run
import ComSA.Ntf.CmNotificationCache

/-!
# What a CM event contains

The caches show what has been added: of a simple attribute the last value in the first group that has it,
and of a struct every member in the order in which it was added. Which groups that makes right.
-/

namespace ComSA.Cm

open SortedMap

/-! ## What has been added -/

structure Added where
  attrName : String
  immRdn : String
  memberName : String
  avc : CmContainer
  deriving DecidableEq, Repr

/-- What has been added for a CCB since its last event: the groups with their DNs, and the one that waits for
its DN. -/
structure Collected where
  groups : List (String × List Added) := []
  pending : List Added := []
  deriving DecidableEq, Repr

def CmCall.collect (c : CcbId) (h : Collected) : CmCall → Collected
  | .addAttr ccbId attrName immRdn memberName avc =>
    if ccbId = c then { h with pending := h.pending ++ [⟨attrName, immRdn, memberName, avc⟩] } else h
  | .setDn ccbId _ dn _ ccbLast =>
    if ccbId = c then if ccbLast then {} else ⟨h.groups ++ [(dn, h.pending)], []⟩ else h

namespace Added

def type (c : CcbId) (x : Added) : AttributeType := getAttrType c x.immRdn x.avc

def simpleValue (x : Added) : Option MoAttributeValueContainer :=
  match x.avc with
  | .plain avc => if isStruct x.immRdn then none else some avc
  | .struct _ => none

def runtimeValue (c : CcbId) (x : Added) : Option StructValues :=
  match x.avc with
  | .plain _ => none
  | .struct values => if c = 0 then some values else none

def member (rdn : String) (x : Added) : Option (String × MoAttributeValueContainer) :=
  match x.avc with
  | .plain avc => if isStruct x.immRdn = true ∧ x.immRdn = rdn then some (x.memberName, avc) else none
  | .struct _ => none

theorem member_eq_some {rdn : String} {x : Added} {m : String × MoAttributeValueContainer} {c : CcbId}
    (h : x.member rdn = some m) : x.type c = .configStructType ∧ x.immRdn = rdn := by
  obtain ⟨attrName, immRdn, memberName, avc⟩ := x
  cases avc with
  | plain avc =>
    change (if isStruct immRdn = true ∧ immRdn = rdn then some (memberName, avc) else none) = some m at h
    split at h <;> rename_i hstruct
    · exact ⟨if_pos hstruct.1, hstruct.2⟩
    · cases h
  | struct values => cases h

theorem member_of_config {x : Added} {c : CcbId} (h : x.type c = .configStructType) :
    (x.member x.immRdn).isSome = true := by
  obtain ⟨attrName, immRdn, memberName, avc⟩ := x
  cases avc with
  | plain avc =>
    have hstruct : isStruct immRdn = true := by
      by_contra hnot
      rw [type, getAttrType, if_neg hnot] at h
      cases h
    change (if isStruct immRdn = true ∧ immRdn = immRdn then some (memberName, avc) else none).isSome = true
    rw [if_pos ⟨hstruct, rfl⟩]
    rfl
  | struct values =>
    rw [type, getAttrType] at h
    split at h <;> cases h

theorem simpleValue_of_simple {x : Added} {c : CcbId} (h : x.type c = .simpleType) :
    ∃ avc, x.simpleValue = some avc ∧ x.avc = .plain avc := by
  obtain ⟨attrName, immRdn, memberName, avc⟩ := x
  cases avc with
  | plain avc =>
    have hstruct : ¬ isStruct immRdn = true := by
      intro hyes
      rw [type, getAttrType, if_pos hyes] at h
      cases h
    exact ⟨avc, if_neg hstruct, rfl⟩
  | struct values =>
    rw [type, getAttrType] at h
    split at h <;> cases h

theorem avc_of_simpleValue {x : Added} {avc : MoAttributeValueContainer} (h : x.simpleValue = some avc) :
    x.avc = .plain avc := by
  obtain ⟨attrName, immRdn, memberName, v⟩ := x
  cases v with
  | plain v =>
    change (if isStruct immRdn then none else some v) = some avc at h
    split at h
    · cases h
    · exact congrArg CmContainer.plain (Option.some.inj h)
  | struct values => cases h

theorem avc_of_runtimeValue {c : CcbId} {x : Added} {values : StructValues} (h : x.runtimeValue c = some values) :
    x.avc = .struct values := by
  obtain ⟨attrName, immRdn, memberName, v⟩ := x
  cases v with
  | plain v => cases h
  | struct v =>
    change (if c = 0 then some v else none) = some values at h
    split at h
    · exact congrArg CmContainer.struct (Option.some.inj h)
    · cases h

theorem runtimeValue_of_simple {c : CcbId} {x : Added} (h : x.type c = .simpleType) : x.runtimeValue c = none := by
  obtain ⟨avc, -, hplain⟩ := simpleValue_of_simple h
  rw [runtimeValue, hplain]

end Added

def groupsOf (dn : String) (groups : List (String × List Added)) : List (List Added) :=
  (groups.filter fun g => g.1 = dn).map Prod.snd

def attrGroups (attrName : String) (gs : List (List Added)) : List (List Added) :=
  gs.map fun g => g.filter fun x => x.attrName = attrName

def addedTo (groups : List (String × List Added)) (dn attrName : String) : List Added :=
  (groupsOf dn groups).flatten.filter fun x => x.attrName = attrName

def firstGroup (gs : List (List Added)) : List Added := (gs.find? fun g => g ≠ []).getD []

def lastOf {α : Type} (f : Added → Option α) (g : List Added) : Option α := (g.filterMap f).getLast?

def membersOf (rdn : String) (adds : List Added) : List (String × MoAttributeValueContainer) :=
  adds.filterMap (Added.member rdn)

section Groups
variable {gs : List (List Added)} {g : List Added} {attrName : String}

theorem flatten_attrGroups (attrName : String) (gs : List (List Added)) :
    (attrGroups attrName gs).flatten = gs.flatten.filter fun x => x.attrName = attrName := by
  rw [List.filter_flatten]
  rfl

theorem firstGroup_singleton (g : List Added) : firstGroup [g] = g := by
  unfold firstGroup
  by_cases h : g = []
  · subst h
    rfl
  · rw [List.find?_cons_of_pos (by simpa using h)]
    rfl

theorem firstGroup_append_of_nonempty (h : gs.flatten ≠ []) (g : List Added) :
    firstGroup (gs ++ [g]) = firstGroup gs := by
  have hfound : (gs.find? fun g => g ≠ []).isSome = true := by
    obtain ⟨x, hx⟩ := List.exists_mem_of_ne_nil _ h
    obtain ⟨g, hg, hxg⟩ := List.mem_flatten.mp hx
    rw [List.find?_isSome]
    exact ⟨g, hg, by simpa using List.ne_nil_of_mem hxg⟩
  obtain ⟨first, hfirst⟩ := Option.isSome_iff_exists.mp hfound
  rw [firstGroup, firstGroup, List.find?_append, hfirst]
  rfl

theorem firstGroup_append_of_empty (h : gs.flatten = []) (g : List Added) : firstGroup (gs ++ [g]) = g := by
  have hnone : (gs.find? fun g => g ≠ []) = none := by
    rw [List.find?_eq_none]
    intro g hg
    simpa using List.flatten_eq_nil_iff.mp h g hg
  have hone := firstGroup_singleton g
  unfold firstGroup at hone ⊢
  rw [List.find?_append, hnone]
  exact hone

theorem firstGroup_append_nil (gs : List (List Added)) : firstGroup (gs ++ [[]]) = firstGroup gs := by
  unfold firstGroup
  rw [List.find?_append]
  cases gs.find? fun g => g ≠ [] <;> rfl

theorem mem_of_mem_firstGroup {x : Added} (h : x ∈ firstGroup gs) : x ∈ gs.flatten := by
  unfold firstGroup at h
  cases hfound : gs.find? fun g => g ≠ [] with
  | none =>
    rw [hfound] at h
    cases h
  | some g =>
    rw [hfound] at h
    exact List.mem_flatten.mpr ⟨g, List.mem_of_find?_eq_some hfound, h⟩

theorem firstGroup_ne_nil (h : gs.flatten ≠ []) : firstGroup gs ≠ [] := by
  unfold firstGroup
  cases hfound : gs.find? fun g => g ≠ [] with
  | none =>
    refine absurd (List.flatten_eq_nil_iff.mpr fun g hg => ?_) h
    simpa using List.find?_eq_none.mp hfound g hg
  | some g => simpa using List.find?_some hfound

theorem lastOf_concat {α : Type} (f : Added → Option α) (g : List Added) (x : Added) :
    lastOf f (g ++ [x]) = (f x).or (lastOf f g) := by
  unfold lastOf
  rw [List.filterMap_append, List.getLast?_append]
  cases hx : f x with
  | none => simp [hx]
  | some y => simp [hx]

theorem membersOf_append (rdn : String) (l l' : List Added) :
    membersOf rdn (l ++ l') = membersOf rdn l ++ membersOf rdn l' :=
  List.filterMap_append

theorem groupsOf_append (dn : String) (groups : List (String × List Added)) (dn' : String) (g : List Added) :
    groupsOf dn (groups ++ [(dn', g)]) = groupsOf dn groups ++ if dn' = dn then [g] else [] := by
  unfold groupsOf
  rw [List.filter_append, List.map_append]
  split <;> rename_i h <;> simp [h]

end Groups

/-! ## What the cache of an attribute shows -/

structure AvcShows (c : CcbId) (v : AvcCache) (gs : List (List Added)) : Prop where
  simple : v.avcSimple = lastOf Added.simpleValue (firstGroup gs)
  runtime : v.avcRuntimeStruct = lastOf (Added.runtimeValue c) (firstGroup gs)
  sorted : Sorted v.cacheMap
  elements : ∀ rdn, ((get? rdn v.cacheMap).map StructElementCache.structElementList).getD [] =
    membersOf rdn gs.flatten
  nonempty : ∀ rdn e, get? rdn v.cacheMap = some e → e.structElementList ≠ []

section Avc
variable {env : CmEnv} {c : CcbId} {v t : AvcCache} {gs : List (List Added)} {g : List Added}

theorem avcShows_new (memory : Memory) : AvcShows c { memory } [[]] :=
  ⟨rfl, rfl, List.Pairwise.nil, fun _ => rfl, fun _ _ h => nomatch h⟩

theorem AvcShows.append_nil (h : AvcShows c v gs) : AvcShows c v (gs ++ [[]]) := by
  have hflatten : (gs ++ [[]]).flatten = gs.flatten := by simp
  refine ⟨?_, ?_, h.sorted, ?_, h.nonempty⟩
  · rw [firstGroup_append_nil]
    exact h.simple
  · rw [firstGroup_append_nil]
    exact h.runtime
  · rw [hflatten]
    exact h.elements

theorem AvcShows.append_first (h : AvcShows c v [g]) (hempty : gs.flatten = []) : AvcShows c v (gs ++ [g]) := by
  have hflatten : (gs ++ [g]).flatten = [g].flatten := by rw [List.flatten_append, hempty, List.nil_append]
  have hfirst : firstGroup (gs ++ [g]) = firstGroup [g] :=
    (firstGroup_append_of_empty hempty g).trans (firstGroup_singleton g).symm
  refine ⟨?_, ?_, h.sorted, ?_, h.nonempty⟩
  · rw [hfirst]
    exact h.simple
  · rw [hfirst]
    exact h.runtime
  · rw [hflatten]
    exact h.elements

theorem AvcShows.addValue (h : AvcShows c v [g]) {x : Added} (hnone : ∀ rdn, membersOf rdn [x] = []) {t : AvcCache}
    (hsimple : t.avcSimple = (x.simpleValue).or v.avcSimple)
    (hruntime : t.avcRuntimeStruct = (x.runtimeValue c).or v.avcRuntimeStruct) (hcache : t.cacheMap = v.cacheMap) :
    AvcShows c t [g ++ [x]] where
  simple := by
    rw [firstGroup_singleton, lastOf_concat, hsimple, h.simple, firstGroup_singleton]
  runtime := by
    rw [firstGroup_singleton, lastOf_concat, hruntime, h.runtime, firstGroup_singleton]
  sorted := hcache ▸ h.sorted
  elements rdn := by
    have helements := h.elements rdn
    rw [List.flatten_singleton] at helements
    rw [hcache, List.flatten_singleton, membersOf_append, hnone, List.append_nil]
    exact helements
  nonempty := hcache ▸ h.nonempty

theorem AvcShows.addMember (h : AvcShows c v [g]) {immRdn : String} (hstruct : isStruct immRdn = true)
    (attrName memberName : String) (avc : MoAttributeValueContainer) {e : StructElementCache}
    (helement : e.structElementList = (v.getCache env immRdn).structElementList ++ [(memberName, avc)]) {t : AvcCache}
    (hsimple : t.avcSimple = v.avcSimple) (hruntime : t.avcRuntimeStruct = v.avcRuntimeStruct)
    (hcache : t.cacheMap = put immRdn e v.cacheMap) :
    AvcShows c t [g ++ [⟨attrName, immRdn, memberName, .plain avc⟩]] where
  simple := by
    have hvalue : Added.simpleValue ⟨attrName, immRdn, memberName, .plain avc⟩ = none := if_pos hstruct
    rw [firstGroup_singleton, lastOf_concat, hsimple, h.simple, firstGroup_singleton, hvalue]
    rfl
  runtime := by
    rw [firstGroup_singleton, lastOf_concat, hruntime, h.runtime, firstGroup_singleton]
    rfl
  sorted := hcache ▸ sorted_put h.sorted _ _
  elements rdn := by
    have helements := h.elements rdn
    rw [List.flatten_singleton] at helements
    rw [hcache, List.flatten_singleton, membersOf_append, ← helements, get?_put]
    by_cases hrdn : rdn = immRdn
    · subst hrdn
      have hone : membersOf rdn [⟨attrName, rdn, memberName, .plain avc⟩] = [(memberName, avc)] := by
        simp [membersOf, Added.member, hstruct]
      rw [if_pos rfl, hone, Option.map_some, Option.getD_some, helement]
      unfold AvcCache.getCache
      cases get? rdn v.cacheMap <;> rfl
    · have hone : membersOf rdn [⟨attrName, immRdn, memberName, .plain avc⟩] = [] := by
        simp [membersOf, Added.member, Ne.symm hrdn]
      rw [if_neg hrdn, hone, List.append_nil]
  nonempty rdn e' he' := by
    rw [hcache, get?_put] at he'
    split at he'
    · cases he'
      simp [helement]
    · exact h.nonempty rdn e' he'

variable (env) in
theorem AvcShows.addAttr (h : AvcShows c v [g]) (x : Added) :
    ∃ v', v.addAttr env c x.immRdn x.memberName x.avc = some v' ∧ AvcShows c v' [g ++ [x]] := by
  obtain ⟨attrName, immRdn, memberName, avc⟩ := x
  unfold AvcCache.addAttr
  cases avc with
  | plain avc =>
    cases hstruct : isStruct immRdn with
    | true =>
      have htype : getAttrType c immRdn (.plain avc) = .configStructType := if_pos hstruct
      simp only [htype, StructElementCache.addToStructElementList, Option.map_some]
      exact ⟨_, rfl, h.addMember hstruct attrName memberName avc rfl rfl rfl rfl⟩
    | false =>
      have htype : getAttrType c immRdn (.plain avc) = .simpleType := if_neg (by simp [hstruct])
      have hvalue : Added.simpleValue ⟨attrName, immRdn, memberName, .plain avc⟩ = some avc :=
        if_neg (by simp [hstruct])
      have hnone (rdn : String) : membersOf rdn [⟨attrName, immRdn, memberName, .plain avc⟩] = [] := by
        simp [membersOf, Added.member, hstruct]
      simp only [htype]
      exact ⟨_, rfl, h.addValue hnone (by rw [hvalue]; rfl) rfl rfl⟩
  | struct values =>
    have hnone (rdn : String) : membersOf rdn [⟨attrName, immRdn, memberName, .struct values⟩] = [] := rfl
    by_cases hc : c = 0
    · have htype : getAttrType c immRdn (.struct values) = .runtimeStructType := if_pos hc
      have hvalue : Added.runtimeValue c ⟨attrName, immRdn, memberName, .struct values⟩ = some values := if_pos hc
      simp only [htype]
      exact ⟨_, rfl, h.addValue hnone rfl (by rw [hvalue]; rfl) rfl⟩
    · have htype : getAttrType c immRdn (.struct values) = .referenceType := if_neg hc
      have hvalue : Added.runtimeValue c ⟨attrName, immRdn, memberName, .struct values⟩ = none := if_neg hc
      simp only [htype]
      exact ⟨_, rfl, h.addValue hnone rfl (by rw [hvalue]; rfl) rfl⟩

theorem addAll_structElementList (e t : StructElementCache) :
    (e.addAll env t).structElementList = e.structElementList ++ t.structElementList := by
  unfold StructElementCache.addAll
  generalize t.structElementList = l
  induction l generalizing e with
  | nil => rw [List.foldl_nil, List.append_nil]
  | cons m l ih =>
    rw [List.foldl_cons, ih]
    simp [StructElementCache.addToStructElementList]

theorem AvcShows.merge (h : AvcShows c v gs) (hne : gs.flatten ≠ []) (ht : AvcShows c t [g]) :
    AvcShows c (v.merge env t) (gs ++ [g]) := by
  have hkeys := nodup_keys ht.sorted
  have hread (rdn : String) : get? rdn (v.merge env t).cacheMap = ((get? rdn t.cacheMap).map
      (StructElementCache.takeOver env (get? rdn v.cacheMap))).or (get? rdn v.cacheMap) :=
    get?_mergeInto (StructElementCache.takeOver env) hkeys rdn
  have helements := ht.elements
  rw [List.flatten_singleton] at helements
  refine ⟨?_, ?_, sorted_mergeInto _ h.sorted _, fun rdn => ?_, fun rdn e he => ?_⟩
  · rw [firstGroup_append_of_nonempty hne]
    exact h.simple
  · rw [firstGroup_append_of_nonempty hne]
    exact h.runtime
  · rw [List.flatten_append, List.flatten_singleton, membersOf_append, ← h.elements rdn, ← helements rdn, hread]
    cases get? rdn t.cacheMap with
    | none => exact (List.append_nil _).symm
    | some e =>
      cases get? rdn v.cacheMap with
      | none => rfl
      | some old => exact addAll_structElementList old e
  · rw [hread] at he
    cases ht' : get? rdn t.cacheMap with
    | none =>
      rw [ht'] at he
      exact h.nonempty rdn e he
    | some new =>
      rw [ht'] at he
      have hnew := ht.nonempty rdn new ht'
      cases hv : get? rdn v.cacheMap with
      | none =>
        rw [hv] at he
        cases he
        exact hnew
      | some old =>
        rw [hv] at he
        cases he
        intro hnil
        have happend : old.structElementList ++ new.structElementList = [] :=
          (addAll_structElementList old new).symm.trans hnil
        exact hnew (List.append_eq_nil_iff.mp happend).2

end Avc

/-! ## What the cache of a DN shows -/

structure DnShows (c : CcbId) (d : DnCache) (gs : List (List Added)) : Prop where
  sorted : Sorted d.cacheMap
  attr : ∀ a v, get? a d.cacheMap = some v → (attrGroups a gs).flatten ≠ [] ∧ AvcShows c v (attrGroups a gs)
  noAttr : ∀ a, get? a d.cacheMap = none → (attrGroups a gs).flatten = []

section Dn
variable {env : CmEnv} {c : CcbId} {d d' t : DnCache} {gs : List (List Added)} {g : List Added}

theorem DnShows.of_cacheMap (h : DnShows c d gs) (hmap : d'.cacheMap = d.cacheMap) : DnShows c d' gs := by
  obtain ⟨hsorted, hattr, hnone⟩ := h
  rw [← hmap] at hsorted hattr hnone
  exact ⟨hsorted, hattr, hnone⟩

theorem dnShows_new {d : DnCache} (h : d.cacheMap = []) : DnShows c d [[]] := by
  refine DnShows.of_cacheMap (d := {}) ⟨List.Pairwise.nil, fun a v h => ?_, fun a _ => rfl⟩ h
  cases h

theorem attrGroups_append (a : String) (gs : List (List Added)) (g : List Added) :
    attrGroups a (gs ++ [g]) = attrGroups a gs ++ [g.filter fun x => x.attrName = a] := by
  rw [attrGroups, List.map_append]
  rfl

theorem DnShows.append_nil (h : DnShows c d gs) : DnShows c d (gs ++ [[]]) := by
  have hflatten (a : String) : (attrGroups a (gs ++ [[]])).flatten = (attrGroups a gs).flatten := by
    rw [attrGroups_append, List.flatten_append]
    exact List.append_nil _
  refine ⟨h.sorted, fun a v hv => ?_, fun a hnone => ?_⟩
  · obtain ⟨hne, hshows⟩ := h.attr a v hv
    rw [hflatten, attrGroups_append]
    exact ⟨hne, hshows.append_nil⟩
  · rw [hflatten]
    exact h.noAttr a hnone

variable (env) in
theorem DnShows.addAttr (h : DnShows c d [g]) (x : Added) :
    ∃ d' change, d.addAttr env c x.attrName x.immRdn x.memberName x.avc = some (d', change) ∧
      DnShows c d' [g ++ [x]] := by
  have hown : AvcShows c (d.getCache env x.attrName) [g.filter fun y => y.attrName = x.attrName] := by
    unfold DnCache.getCache
    cases hv : get? x.attrName d.cacheMap with
    | some v => exact (h.attr _ v hv).2
    | none =>
      have hempty : (g.filter fun y => y.attrName = x.attrName) = [] := by
        simpa [attrGroups] using h.noAttr _ hv
      rw [hempty]
      exact avcShows_new _
  obtain ⟨v, hadd, hv⟩ := hown.addAttr env x
  unfold DnCache.addAttr
  rw [hadd]
  refine ⟨_, _, rfl, sorted_put h.sorted _ _, fun a w hw => ?_, fun a hnone => ?_⟩
  · dsimp only at hw
    rw [get?_put] at hw
    have hfilter : attrGroups a [g ++ [x]] = [(g.filter fun y => y.attrName = a) ++ [x].filter
      fun y => y.attrName = a] := by
      rw [attrGroups, List.map_singleton, List.filter_append]
    rw [hfilter]
    split at hw <;> rename_i ha
    · subst ha
      cases hw
      have hone : ([x].filter fun y => y.attrName = x.attrName) = [x] := by simp
      rw [hone]
      exact ⟨by simp, hv⟩
    · have hnot : ([x].filter fun y => y.attrName = a) = [] := by simp [Ne.symm ha]
      rw [hnot, List.append_nil]
      exact h.attr a w hw
  · dsimp only at hnone
    rw [get?_put] at hnone
    split at hnone <;> rename_i ha
    · cases hnone
    · have hnot : ([x].filter fun y => y.attrName = a) = [] := by simp [Ne.symm ha]
      have hold := h.noAttr a hnone
      rw [attrGroups, List.map_singleton, List.flatten_singleton] at hold ⊢
      rw [List.filter_append, hold, hnot]
      rfl

theorem DnShows.merge (h : DnShows c d gs) (ht : DnShows c t [g]) : DnShows c (d.merge env t) (gs ++ [g]) := by
  have hread (a : String) : get? a (d.merge env t).cacheMap =
      ((get? a t.cacheMap).map (AvcCache.takeOver env (get? a d.cacheMap))).or (get? a d.cacheMap) :=
    get?_mergeInto (AvcCache.takeOver env) (nodup_keys ht.sorted) a
  have hflatten (a : String) : (attrGroups a (gs ++ [g])).flatten =
      (attrGroups a gs).flatten ++ (attrGroups a [g]).flatten := by
    rw [attrGroups_append, List.flatten_append]
    rfl
  refine ⟨sorted_mergeInto _ h.sorted _, fun a v hv => ?_, fun a hnone => ?_⟩
  · rw [hread] at hv
    cases htemp : get? a t.cacheMap with
    | none =>
      rw [htemp] at hv
      obtain ⟨hne, hshows⟩ := h.attr a v hv
      have hempty : (g.filter fun x => x.attrName = a) = [] := by simpa [attrGroups] using ht.noAttr a htemp
      refine ⟨fun hnil => hne ?_, ?_⟩
      · rw [hflatten] at hnil
        exact (List.append_eq_nil_iff.mp hnil).1
      · rw [attrGroups_append, hempty]
        exact hshows.append_nil
    | some new =>
      obtain ⟨hne, hshows⟩ := ht.attr a new htemp
      rw [htemp] at hv
      refine ⟨fun hnil => hne ?_, ?_⟩
      · rw [hflatten] at hnil
        exact (List.append_eq_nil_iff.mp hnil).2
      · rw [attrGroups_append]
        cases hold : get? a d.cacheMap with
        | none =>
          rw [hold] at hv
          cases hv
          exact hshows.append_first (h.noAttr a hold)
        | some old =>
          rw [hold] at hv
          cases hv
          obtain ⟨hne', hshows'⟩ := h.attr a old hold
          exact hshows'.merge hne' hshows
  · rw [hread] at hnone
    rw [hflatten]
    cases htemp : get? a t.cacheMap with
    | none =>
      rw [htemp] at hnone
      rw [h.noAttr a hnone, ht.noAttr a htemp]
      rfl
    | some new =>
      rw [htemp] at hnone
      cases hnone

end Dn

/-! ## What the cache of a CCB shows -/

structure CcbShows (c : CcbId) (cc : CcbCache) (h : Collected) : Prop where
  sorted : Sorted cc.cacheMap
  proper : tempCacheKey ∉ h.groups.map Prod.fst
  temp : ∀ t, get? tempCacheKey cc.cacheMap = some t → DnShows c t [h.pending]
  noTemp : get? tempCacheKey cc.cacheMap = none → h.pending = []
  dn : ∀ dn d, dn ≠ tempCacheKey → get? dn cc.cacheMap = some d →
    dn ∈ h.groups.map Prod.fst ∧ DnShows c d (groupsOf dn h.groups)
  noDn : ∀ dn, dn ≠ tempCacheKey → get? dn cc.cacheMap = none → dn ∉ h.groups.map Prod.fst

section Ccb
variable {env : CmEnv} {c : CcbId} {cc cc' : CcbCache} {h : Collected}

theorem CcbShows.of_cacheMap (hshows : CcbShows c cc h) (hmap : cc'.cacheMap = cc.cacheMap) : CcbShows c cc' h := by
  obtain ⟨hsorted, hproper, htemp, hnoTemp, hdn, hnoDn⟩ := hshows
  rw [← hmap] at hsorted htemp hnoTemp hdn hnoDn
  exact ⟨hsorted, hproper, htemp, hnoTemp, hdn, hnoDn⟩

theorem ccbShows_new (h : cc.cacheMap = []) : CcbShows c cc {} := by
  have hempty : CcbShows c {} {} := ⟨List.Pairwise.nil, List.not_mem_nil, (fun _ h => nomatch h), fun _ => rfl,
    (fun _ _ _ h => nomatch h), fun _ _ _ => List.not_mem_nil⟩
  exact hempty.of_cacheMap h

variable (env) in
theorem CcbShows.addAttr (hshows : CcbShows c cc h) (x : Added) :
    ∃ d change, (cc.getCache env tempCacheKey).addAttr env c x.attrName x.immRdn x.memberName x.avc =
        some (d, change) ∧
      CcbShows c { cc with cacheMap := put tempCacheKey d cc.cacheMap } { h with pending := h.pending ++ [x] } := by
  have htemp : DnShows c (cc.getCache env tempCacheKey) [h.pending] := by
    unfold CcbCache.getCache
    cases ht : get? tempCacheKey cc.cacheMap with
    | some t => exact hshows.temp t ht
    | none =>
      rw [hshows.noTemp ht]
      exact dnShows_new rfl
  obtain ⟨d, change, hadd, hd⟩ := htemp.addAttr env x
  refine ⟨d, change, hadd, sorted_put hshows.sorted _ _, hshows.proper, fun t ht => ?_, fun hnone => ?_,
    fun dn d' hdn hget => ?_, fun dn hdn hnone => ?_⟩
  · dsimp only at ht
    rw [get?_put, if_pos rfl] at ht
    cases ht
    exact hd
  · dsimp only at hnone
    rw [get?_put, if_pos rfl] at hnone
    cases hnone
  · dsimp only at hget
    rw [get?_put, if_neg hdn] at hget
    exact hshows.dn dn d' hdn hget
  · dsimp only at hnone
    rw [get?_put, if_neg hdn] at hnone
    exact hshows.noDn dn hdn hnone

theorem groupsOf_eq_nil {dn : String} {groups : List (String × List Added)} (h : dn ∉ groups.map Prod.fst) :
    groupsOf dn groups = [] := by
  unfold groupsOf
  rw [List.map_eq_nil_iff, List.filter_eq_nil_iff]
  intro g hg
  rw [decide_eq_true_iff]
  rintro rfl
  exact h (List.mem_map_of_mem hg)

theorem CcbShows.store (hshows : CcbShows c cc h) {dn : String} (hdn : dn ≠ tempCacheKey) {d : DnCache}
    (hd : DnShows c d (groupsOf dn h.groups ++ [h.pending])) :
    CcbShows c { cc with cacheMap := erase tempCacheKey (put dn d cc.cacheMap) }
      ⟨h.groups ++ [(dn, h.pending)], []⟩ := by
  refine ⟨sorted_erase (sorted_put hshows.sorted _ _) _, ?_, fun t ht => ?_, fun _ => rfl, fun x y hx hget => ?_,
    fun x hx hnone => ?_⟩
  · rw [List.map_append, List.mem_append, not_or]
    exact ⟨hshows.proper, by simpa using hdn.symm⟩
  · dsimp only at ht
    rw [get?_erase, if_pos rfl] at ht
    cases ht
  · dsimp only at hget
    rw [get?_erase, if_neg hx, get?_put] at hget
    rw [List.map_append, List.mem_append, groupsOf_append]
    split at hget <;> rename_i heq
    · subst heq
      cases hget
      rw [if_pos rfl]
      exact ⟨Or.inr List.mem_cons_self, hd⟩
    · obtain ⟨hmem, hold⟩ := hshows.dn x y hx hget
      rw [if_neg (Ne.symm heq), List.append_nil]
      exact ⟨Or.inl hmem, hold⟩
  · dsimp only at hnone
    rw [get?_erase, if_neg hx, get?_put] at hnone
    split at hnone <;> rename_i heq
    · cases hnone
    · rw [List.map_append, List.mem_append, not_or]
      exact ⟨hshows.noDn x hx hnone, by simpa using heq⟩

variable (env) in
theorem CcbShows.storeDn (hshows : CcbShows c cc h) {dn : String} (hdn : dn ≠ tempCacheKey)
    (eventType : CmEventType) :
    ∃ cc' changes, CmState.storeDn env dn eventType cc = some (cc', changes) ∧
      CcbShows c { cc' with cacheMap := erase tempCacheKey cc'.cacheMap } ⟨h.groups ++ [(dn, h.pending)], []⟩ := by
  unfold CmState.storeDn
  cases hd : get? dn cc.cacheMap with
  | none =>
    have hnil : groupsOf dn h.groups = [] := groupsOf_eq_nil (hshows.noDn dn hdn hd)
    cases ht : get? tempCacheKey cc.cacheMap with
    | none =>
      refine ⟨_, _, rfl, hshows.store hdn ?_⟩
      rw [hnil, hshows.noTemp ht]
      refine dnShows_new ?_
      unfold CcbCache.getCache
      rw [hd]
      rfl
    | some t =>
      refine ⟨_, _, rfl, hshows.store hdn ?_⟩
      rw [hnil]
      exact (hshows.temp t ht).of_cacheMap rfl
  | some d =>
    have hshowsDn := (hshows.dn dn d hdn hd).2
    cases ht : get? tempCacheKey cc.cacheMap with
    | none =>
      refine ⟨_, _, rfl, ?_⟩
      have hstore := hshows.store hdn (d := d) (by
        rw [hshows.noTemp ht]
        exact hshowsDn.append_nil)
      rwa [put_of_get? hshows.sorted hd] at hstore
    | some t =>
      refine ⟨_, _, if_neg hdn, hshows.store hdn ?_⟩
      exact hshowsDn.merge ((hshows.temp t ht).of_cacheMap rfl)

end Ccb

/-! ## What the whole cache shows -/

structure CmShows (m : CmNotificationCache) (hs : CcbId → Collected) : Prop where
  sorted : Sorted m.cacheMap
  ccb : ∀ c cc, get? c m.cacheMap = some cc → CcbShows c cc (hs c)
  noCcb : ∀ c, get? c m.cacheMap = none → hs c = {}

def IsDn (dn : String) : Prop := '=' ∈ dn.toList

instance (dn : String) : Decidable (IsDn dn) := inferInstanceAs (Decidable (_ ∈ _))

def CmCall.Named : CmCall → Prop
  | .addAttr .. => True
  | .setDn _ _ dn _ _ => IsDn dn

theorem IsDn.ne_tempCacheKey {dn : String} (h : IsDn dn) : dn ≠ tempCacheKey := by
  rintro rfl
  exact absurd h (by decide)

section Cm
variable {env : CmEnv} {m : CmNotificationCache} {hs : CcbId → Collected} {s : CmState} {c : CcbId}

theorem cmShows_initial : CmShows {} fun _ => {} :=
  ⟨List.Pairwise.nil, (fun _ _ h => nomatch h), fun _ _ => rfl⟩

variable (env) in
theorem CmShows.getCache (h : CmShows m hs) (c : CcbId) : CcbShows c (m.getCache env c).1 (hs c) := by
  unfold CmNotificationCache.getCache
  cases hc : get? c m.cacheMap with
  | some cc => exact h.ccb c cc hc
  | none =>
    rw [h.noCcb c hc]
    exact ccbShows_new rfl

theorem CmShows.put (h : CmShows m hs) {cc : CcbCache} {x : Collected} (hcc : CcbShows c cc x) (memory : Memory) :
    CmShows ⟨put c cc m.cacheMap, memory⟩ (Function.update hs c x) := by
  refine ⟨sorted_put h.sorted _ _, fun c' cc' hget => ?_, fun c' hnone => ?_⟩
  · dsimp only at hget
    rw [get?_put] at hget
    split at hget <;> rename_i heq
    · subst heq
      cases hget
      rw [Function.update_self]
      exact hcc
    · rw [Function.update_of_ne heq]
      exact h.ccb c' cc' hget
  · dsimp only at hnone
    rw [get?_put] at hnone
    split at hnone <;> rename_i heq
    · cases hnone
    · rw [Function.update_of_ne heq]
      exact h.noCcb c' hnone

theorem CmShows.erase (h : CmShows m hs) (c : CcbId) (memory : Memory) :
    CmShows ⟨erase c m.cacheMap, memory⟩ (Function.update hs c {}) := by
  refine ⟨sorted_erase h.sorted _, fun c' cc' hget => ?_, fun c' hnone => ?_⟩
  · dsimp only at hget
    rw [get?_erase] at hget
    split at hget <;> rename_i heq
    · cases hget
    · rw [Function.update_of_ne heq]
      exact h.ccb c' cc' hget
  · dsimp only at hnone
    rw [get?_erase] at hnone
    split at hnone <;> rename_i heq
    · rw [heq, Function.update_self]
    · rw [Function.update_of_ne heq]
      exact h.noCcb c' hnone

theorem addAttr_spec (h : CmShows s.cache hs) (hok : s.cache.exceeded env = false) (c : CcbId) (x : Added) :
    ∃ cache, s.addAttr env c x.attrName x.immRdn x.memberName x.avc = some (.ok, { s with cache }) ∧
      CmShows cache (Function.update hs c { hs c with pending := (hs c).pending ++ [x] }) := by
  obtain ⟨d, change, hadd, hd⟩ := (h.getCache env c).addAttr env x
  unfold CmState.addAttr
  rw [hok, if_neg Bool.false_ne_true]
  dsimp only
  rw [hadd, CmNotificationCache.getCache_cacheMap]
  refine ⟨_, rfl, h.put ?_ _⟩
  exact hd.of_cacheMap rfl

theorem setDn_spec (h : CmShows s.cache hs) (hok : s.cache.exceeded env = false) (c : CcbId)
    (sourceIndicator : SourceIndicator) {dn : String} (hdn : IsDn dn) (eventType : CmEventType) (ccbLast : Bool) :
    ∃ cache pushed, s.setDn env c sourceIndicator dn eventType ccbLast = some (.ok, { s with cache, pushed }) ∧
      CmShows cache (Function.update hs c
        (if ccbLast then {} else ⟨(hs c).groups ++ [(dn, (hs c).pending)], []⟩)) ∧
      (ccbLast = false → pushed = s.pushed) ∧ (ccbLast = true → get? c cache.cacheMap = none) ∧
      ∀ n, ccbLast = true → pushed = s.pushed ++ [n] → ∃ cc : CcbCache, n = cc.buildEventStruct ∧
        CcbShows c cc ⟨(hs c).groups ++ [(dn, (hs c).pending)], []⟩ ∧ get? tempCacheKey cc.cacheMap = none := by
  have hcc : CcbShows c { (s.cache.getCache env c).1 with sourceIndicator } (hs c) :=
    (h.getCache env c).of_cacheMap rfl
  obtain ⟨cc, changes, hstore, hshows⟩ := hcc.storeDn env hdn.ne_tempCacheKey eventType
  unfold CmState.setDn
  rw [hok, if_neg Bool.false_ne_true]
  dsimp only
  rw [hstore, CmNotificationCache.getCache_cacheMap]
  cases ccbLast with
  | false =>
    refine ⟨_, _, rfl, h.put ?_ _, fun _ => rfl, fun hfalse => ?_, fun n hfalse => ?_⟩
    · exact hshows.of_cacheMap rfl
    · cases hfalse
    · cases hfalse
  | true =>
    refine ⟨_, _, rfl, h.erase c _, fun hfalse => ?_, fun _ => ?_, fun n _ hpushed => ?_⟩
    · cases hfalse
    · exact (get?_erase _ _ _).trans (if_pos rfl)
    · have hput : ∃ d, get? dn (erase tempCacheKey cc.cacheMap) = some d := by
        cases hd : get? dn (erase tempCacheKey cc.cacheMap) with
        | some d => exact ⟨d, rfl⟩
        | none =>
          refine absurd ?_ (hshows.noDn dn hdn.ne_tempCacheKey hd)
          simp
      obtain ⟨d, hd⟩ := hput
      have hsame : put dn (CcbCache.getCache env dn { cc with
          cacheMap := erase tempCacheKey cc.cacheMap
          memory := cc.memory.update env changes }) (erase tempCacheKey cc.cacheMap) =
          erase tempCacheKey cc.cacheMap := by
        unfold CcbCache.getCache
        rw [hd]
        exact put_of_get? hshows.sorted hd
      rw [hsame] at hpushed
      split at hpushed
      · exact absurd hpushed (by simp)
      · have hn := List.append_cancel_left hpushed
        refine ⟨_, (List.singleton_inj.mp hn).symm, hshows.of_cacheMap rfl, ?_⟩
        exact (get?_erase _ _ _).trans (if_pos rfl)

end Cm

end ComSA.Cm
