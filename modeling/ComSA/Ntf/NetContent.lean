import Mathlib.Data.List.Nodup
import ComSA.Lib.Related
import ComSA.Ntf.CmContent

/-!
# The net content of a CCB

The event of a CCB should have one entry for each DN, with one attribute for each name that was added, and of
each value the last one. That is so unless a simple attribute comes again in a later group, or a member of a
struct comes twice.
-/

namespace ComSA.Cm

open SortedMap

section Build
variable {c : CcbId} {v : AvcCache} {gs : List (List Added)}

theorem AvcShows.element (h : AvcShows c v gs) {x : String × StructElementCache} (hx : x ∈ v.cacheMap) :
    x.2.structElementList = membersOf x.1 gs.flatten := by
  rw [← h.elements x.1, get?_of_mem h.sorted hx]
  rfl

theorem AvcShows.mem_keys (h : AvcShows c v gs) (rdn : String) :
    rdn ∈ v.cacheMap.map Prod.fst ↔ ∃ y ∈ gs.flatten, y.type c = .configStructType ∧ y.immRdn = rdn := by
  constructor
  · intro hrdn
    obtain ⟨x, hx, rfl⟩ := List.mem_map.mp hrdn
    have hne := h.nonempty x.1 x.2 (get?_of_mem h.sorted hx)
    rw [h.element hx] at hne
    obtain ⟨m, hm⟩ := List.exists_mem_of_ne_nil _ hne
    obtain ⟨y, hy, hmember⟩ := List.mem_filterMap.mp hm
    exact ⟨y, hy, Added.member_eq_some hmember⟩
  · rintro ⟨y, hy, hconfig, rfl⟩
    by_contra hnot
    obtain ⟨m, hm⟩ := Option.isSome_iff_exists.mp (Added.member_of_config hconfig)
    have helements := h.elements y.immRdn
    rw [get?_eq_none_iff.mpr hnot] at helements
    have hmem : m ∈ membersOf y.immRdn gs.flatten := List.mem_filterMap.mpr ⟨y, hy, hm⟩
    rw [← helements] at hmem
    exact absurd hmem List.not_mem_nil

theorem AvcShows.build_simple (h : AvcShows c v gs) (hne : gs.flatten ≠ [])
    (hall : ∀ y ∈ gs.flatten, y.type c = .simpleType) :
    (firstGroup gs).getLast?.map Added.avc = some v.build := by
  have hfirst : ∀ y ∈ firstGroup gs, y.type c = .simpleType := fun y hy => hall y (mem_of_mem_firstGroup hy)
  have hmap : v.cacheMap = [] := by
    rw [← List.map_eq_nil_iff (f := Prod.fst), List.eq_nil_iff_forall_not_mem]
    intro rdn hrdn
    obtain ⟨y, hy, hconfig, -⟩ := (h.mem_keys rdn).mp hrdn
    exact absurd ((hall y hy).symm.trans hconfig) (by decide)
  have hruntime : v.avcRuntimeStruct = none := by
    rw [h.runtime, lastOf, List.getLast?_eq_none_iff, List.filterMap_eq_nil_iff]
    exact fun y hy => Added.runtimeValue_of_simple (hfirst y hy)
  have hvalues : (firstGroup gs).map Added.avc = ((firstGroup gs).filterMap Added.simpleValue).map
    CmContainer.plain := by
    generalize firstGroup gs = g at hfirst
    induction g with
    | nil => rfl
    | cons y g ih =>
      obtain ⟨avc, hvalue, hplain⟩ := Added.simpleValue_of_simple (hfirst y List.mem_cons_self)
      rw [List.map_cons, List.filterMap_cons_some hvalue, List.map_cons, hplain,
        ih fun z hz => hfirst z (List.mem_cons_of_mem _ hz)]
  have hlast : (firstGroup gs).getLast?.map Added.avc = v.avcSimple.map CmContainer.plain := by
    rw [h.simple, lastOf, ← List.getLast?_map, ← List.getLast?_map, hvalues]
  have hsome : (firstGroup gs).getLast? ≠ none := by
    rw [ne_eq, List.getLast?_eq_none_iff]
    exact firstGroup_ne_nil hne
  rw [hlast]
  unfold AvcCache.build
  rw [if_neg (not_not.mpr hmap), hruntime]
  cases hsimple : v.avcSimple with
  | some avc => rfl
  | none =>
    rw [hsimple] at hlast
    exact absurd (Option.map_eq_none_iff.mp hlast) hsome

theorem AvcShows.build_config (h : AvcShows c v gs) (hex : ∃ y ∈ gs.flatten, y.type c = .configStructType) :
    v.build = .struct (.structMembers (v.cacheMap.map fun x => x.2.structElementList)) := by
  obtain ⟨y, hy, hconfig⟩ := hex
  have hmem := (h.mem_keys y.immRdn).mpr ⟨y, hy, hconfig, rfl⟩
  refine if_pos fun hnil => ?_
  rw [hnil] at hmem
  cases hmem

theorem AvcShows.build_own (h : AvcShows c v gs) : (∃ y ∈ gs.flatten, y.avc = v.build) ∨
    ∃ elements, v.build = .struct (.structMembers elements) ∧
      ∀ el ∈ elements, ∀ m ∈ el, ∃ rdn, m ∈ membersOf rdn gs.flatten := by
  unfold AvcCache.build
  by_cases hmap : v.cacheMap = []
  · rw [if_neg (not_not.mpr hmap)]
    cases hruntime : v.avcRuntimeStruct with
    | some values =>
      have hlast := h.runtime.symm.trans hruntime
      obtain ⟨y, hy, hvalue⟩ := List.mem_filterMap.mp (List.mem_of_getLast? hlast)
      exact Or.inl ⟨y, mem_of_mem_firstGroup hy, Added.avc_of_runtimeValue hvalue⟩
    | none =>
      cases hsimple : v.avcSimple with
      | some avc =>
        have hlast := h.simple.symm.trans hsimple
        obtain ⟨y, hy, hvalue⟩ := List.mem_filterMap.mp (List.mem_of_getLast? hlast)
        exact Or.inl ⟨y, mem_of_mem_firstGroup hy, Added.avc_of_simpleValue hvalue⟩
      | none => exact Or.inr ⟨[], rfl, fun el hel => absurd hel List.not_mem_nil⟩
  · rw [if_pos hmap]
    refine Or.inr ⟨_, rfl, fun el hel m hm => ?_⟩
    obtain ⟨x, hx, rfl⟩ := List.mem_map.mp hel
    rw [h.element hx] at hm
    exact ⟨x.1, hm⟩

end Build

/-! ## The event -/

/-- An element has each of its members once, with the value that was added last. -/
structure IsElement (adds : List Added) (rdn : String) (el : List (String × MoAttributeValueContainer)) : Prop where
  once : (el.map Prod.fst).Nodup
  names : ∀ m, m ∈ el.map Prod.fst ↔ m ∈ (membersOf rdn adds).map Prod.fst
  last : ∀ m ∈ el, ((membersOf rdn adds).filter fun x => x.1 = m.1).getLast? = some m

structure NetContent (c : CcbId) (groups : List (String × List Added)) (n : CmNotification) : Prop where
  dns : (n.events.map CmEvent.dn).Nodup ∧ ∀ dn, dn ∈ n.events.map CmEvent.dn ↔ dn ∈ groups.map Prod.fst
  attributes : ∀ e ∈ n.events, (e.attributes.map Prod.fst).Nodup ∧
    ∀ a, a ∈ e.attributes.map Prod.fst ↔ addedTo groups e.dn a ≠ []
  simple : ∀ e ∈ n.events, ∀ x ∈ e.attributes, (∀ y ∈ addedTo groups e.dn x.1, y.type c = .simpleType) →
    (addedTo groups e.dn x.1).getLast?.map Added.avc = some x.2
  structs : ∀ e ∈ n.events, ∀ x ∈ e.attributes, (∃ y ∈ addedTo groups e.dn x.1, y.type c = .configStructType) →
    ∃ rdns elements, x.2 = .struct (.structMembers elements) ∧ rdns.Nodup ∧
      (∀ rdn, rdn ∈ rdns ↔ ∃ y ∈ addedTo groups e.dn x.1, y.type c = .configStructType ∧ y.immRdn = rdn) ∧
      List.Forall₂ (IsElement (addedTo groups e.dn x.1)) rdns elements
  own : ∀ e ∈ n.events, ∀ x ∈ e.attributes, (∃ y ∈ addedTo groups e.dn x.1, y.avc = x.2) ∨
    ∃ elements, x.2 = .struct (.structMembers elements) ∧
      ∀ el ∈ elements, ∀ m ∈ el, ∃ rdn, m ∈ membersOf rdn (addedTo groups e.dn x.1)

/-- The last value of a simple attribute is the last one of its first group, and a struct has each member
once. -/
structure AddedOnce (c : CcbId) (groups : List (String × List Added)) : Prop where
  simple : ∀ dn a, (∀ y ∈ addedTo groups dn a, y.type c = .simpleType) →
    (firstGroup (attrGroups a (groupsOf dn groups))).getLast?.map Added.avc =
      (addedTo groups dn a).getLast?.map Added.avc
  members : ∀ dn a rdn, ((membersOf rdn (addedTo groups dn a)).map Prod.fst).Nodup

theorem isElement_of_nodup {adds : List Added} {rdn : String} (h : ((membersOf rdn adds).map Prod.fst).Nodup) :
    IsElement adds rdn (membersOf rdn adds) := by
  refine ⟨h, fun m => Iff.rfl, fun m hm => ?_⟩
  have hmem : m ∈ (membersOf rdn adds).filter fun x => x.1 = m.1 :=
    List.mem_filter.mpr ⟨hm, decide_eq_true rfl⟩
  cases hlast : ((membersOf rdn adds).filter fun x => x.1 = m.1).getLast? with
  | none =>
    rw [List.getLast?_eq_none_iff] at hlast
    rw [hlast] at hmem
    cases hmem
  | some y =>
    obtain ⟨hy, hname⟩ := List.mem_filter.mp (List.mem_of_getLast? hlast)
    rw [decide_eq_true_iff] at hname
    rw [List.inj_on_of_nodup_map h hy hm hname]

section Event
variable {c : CcbId} {cc : CcbCache} {groups : List (String × List Added)}

theorem addedTo_eq (groups : List (String × List Added)) (dn a : String) :
    addedTo groups dn a = (attrGroups a (groupsOf dn groups)).flatten :=
  (flatten_attrGroups a _).symm

theorem CcbShows.entry (h : CcbShows c cc ⟨groups, []⟩) (htemp : get? tempCacheKey cc.cacheMap = none) {e : CmEvent}
    (he : e ∈ cc.buildEventStruct.events) : ∃ d, get? e.dn cc.cacheMap = some d ∧
      e.attributes = d.cacheMap.map (fun y => (y.1, y.2.build)) ∧ e.dn ∈ groups.map Prod.fst ∧
      DnShows c d (groupsOf e.dn groups) := by
  obtain ⟨x, hx, rfl⟩ := List.mem_map.mp he
  have hget := get?_of_mem h.sorted hx
  have hne : x.1 ≠ tempCacheKey := by
    intro heq
    rw [heq, htemp] at hget
    cases hget
  exact ⟨x.2, hget, rfl, h.dn x.1 x.2 hne hget⟩

theorem CcbShows.attribute (h : CcbShows c cc ⟨groups, []⟩) (htemp : get? tempCacheKey cc.cacheMap = none)
    {e : CmEvent} (he : e ∈ cc.buildEventStruct.events) {x : String × CmContainer} (hx : x ∈ e.attributes) :
    ∃ v : AvcCache, x.2 = v.build ∧ addedTo groups e.dn x.1 ≠ [] ∧
      AvcShows c v (attrGroups x.1 (groupsOf e.dn groups)) := by
  obtain ⟨d, -, hattributes, -, hd⟩ := h.entry htemp he
  rw [hattributes] at hx
  obtain ⟨y, hy, rfl⟩ := List.mem_map.mp hx
  obtain ⟨hne, hshows⟩ := hd.attr y.1 y.2 (get?_of_mem hd.sorted hy)
  exact ⟨y.2, rfl, by rwa [addedTo_eq], hshows⟩

theorem CcbShows.exists_attribute (h : CcbShows c cc ⟨groups, []⟩) {dn a : String}
    (hne : addedTo groups dn a ≠ []) : ∃ e ∈ cc.buildEventStruct.events, e.dn = dn ∧ ∃ x ∈ e.attributes,
    x.1 = a := by
  have hdn : dn ∈ groups.map Prod.fst := by
    by_contra hnot
    refine hne ?_
    rw [addedTo, groupsOf_eq_nil hnot]
    rfl
  have hproper : dn ≠ tempCacheKey := fun heq => h.proper (heq ▸ hdn)
  cases hget : get? dn cc.cacheMap with
  | none => exact absurd hdn (h.noDn dn hproper hget)
  | some d =>
    have hd := (h.dn dn d hproper hget).2
    cases hattr : get? a d.cacheMap with
    | none =>
      refine absurd ?_ hne
      rw [addedTo_eq]
      exact hd.noAttr a hattr
    | some v =>
      exact ⟨_, List.mem_map_of_mem (mem_of_get? hget), rfl, _, List.mem_map_of_mem (mem_of_get? hattr), rfl⟩

theorem CcbShows.dns (h : CcbShows c cc ⟨groups, []⟩) (htemp : get? tempCacheKey cc.cacheMap = none) :
    (cc.buildEventStruct.events.map CmEvent.dn).Nodup ∧
      ∀ dn, dn ∈ cc.buildEventStruct.events.map CmEvent.dn ↔ dn ∈ groups.map Prod.fst := by
  have hkeys : cc.buildEventStruct.events.map CmEvent.dn = cc.cacheMap.map Prod.fst := by
    unfold CcbCache.buildEventStruct
    rw [List.map_map]
    rfl
  rw [hkeys]
  refine ⟨nodup_keys h.sorted, fun dn => ⟨fun hdn => ?_, fun hdn => ?_⟩⟩
  · rw [← hkeys] at hdn
    obtain ⟨e, he, rfl⟩ := List.mem_map.mp hdn
    obtain ⟨-, -, -, hmem, -⟩ := h.entry htemp he
    exact hmem
  · by_contra hnot
    exact h.noDn dn (fun heq => h.proper (heq ▸ hdn)) (get?_eq_none_iff.mpr hnot) hdn

theorem CcbShows.attributes (h : CcbShows c cc ⟨groups, []⟩) (htemp : get? tempCacheKey cc.cacheMap = none)
    {e : CmEvent} (he : e ∈ cc.buildEventStruct.events) : (e.attributes.map Prod.fst).Nodup ∧
      ∀ a, a ∈ e.attributes.map Prod.fst ↔ addedTo groups e.dn a ≠ [] := by
  obtain ⟨d, -, hattributes, -, hd⟩ := h.entry htemp he
  have hkeys : e.attributes.map Prod.fst = d.cacheMap.map Prod.fst := by
    rw [hattributes, List.map_map]
    rfl
  rw [hkeys]
  refine ⟨nodup_keys hd.sorted, fun a => ?_⟩
  rw [addedTo_eq]
  cases hattr : get? a d.cacheMap with
  | none => exact iff_of_false (get?_eq_none_iff.mp hattr) (not_not.mpr (hd.noAttr a hattr))
  | some v => exact iff_of_true (List.mem_map_of_mem (mem_of_get? hattr)) (hd.attr a v hattr).1

theorem CcbShows.netContent_iff (h : CcbShows c cc ⟨groups, []⟩) (htemp : get? tempCacheKey cc.cacheMap = none) :
    NetContent c groups cc.buildEventStruct ↔ AddedOnce c groups := by
  constructor
  · intro hnet
    constructor
    · intro dn a hall
      by_cases hne : addedTo groups dn a = []
      · have hfirst : firstGroup (attrGroups a (groupsOf dn groups)) = [] := by
          rw [addedTo_eq] at hne
          by_contra hnot
          obtain ⟨x, hx⟩ := List.exists_mem_of_ne_nil _ hnot
          have hmem := mem_of_mem_firstGroup hx
          rw [hne] at hmem
          cases hmem
        rw [hfirst, hne]
      · obtain ⟨e, he, rfl, x, hx, rfl⟩ := h.exists_attribute hne
        obtain ⟨v, hbuild, -, hshows⟩ := h.attribute htemp he hx
        rw [hnet.simple e he x hx hall, hbuild]
        rw [addedTo_eq] at hne hall
        exact hshows.build_simple hne hall
    · intro dn a rdn
      by_cases hnil : membersOf rdn (addedTo groups dn a) = []
      · rw [hnil]
        exact List.nodup_nil
      obtain ⟨m, hm⟩ := List.exists_mem_of_ne_nil _ hnil
      obtain ⟨y, hy, hmember⟩ := List.mem_filterMap.mp hm
      obtain ⟨hconfig, hrdn⟩ := Added.member_eq_some (c := c) hmember
      obtain ⟨e, he, rfl, x, hx, rfl⟩ := h.exists_attribute (List.ne_nil_of_mem hy)
      obtain ⟨v, hbuild, -, hshows⟩ := h.attribute htemp he hx
      obtain ⟨rdns, elements, hvalue, -, -, hall⟩ := hnet.structs e he x hx ⟨y, hy, hconfig⟩
      rw [addedTo_eq] at hy ⊢
      have hconfigured := hshows.build_config ⟨y, hy, hconfig⟩
      rw [← hbuild, hvalue] at hconfigured
      obtain ⟨z, hz, hzrdn⟩ := List.mem_map.mp ((hshows.mem_keys rdn).mpr ⟨y, hy, hconfig, hrdn⟩)
      have helement : membersOf rdn (attrGroups x.1 (groupsOf e.dn groups)).flatten ∈ elements := by
        have heq : elements = v.cacheMap.map fun x => x.2.structElementList := by simpa using hconfigured
        rw [heq, ← hzrdn, ← hshows.element hz]
        exact List.mem_map_of_mem hz
      obtain ⟨rdn', -, hel⟩ := exists_of_mem_right hall helement
      exact hel.once
  · intro honce
    refine ⟨h.dns htemp, fun e he => h.attributes htemp he, fun e he x hx hall => ?_, fun e he x hx hex => ?_,
      fun e he x hx => ?_⟩
    · obtain ⟨v, hbuild, hne, hshows⟩ := h.attribute htemp he hx
      rw [← honce.simple e.dn x.1 hall, hbuild]
      rw [addedTo_eq] at hne hall
      exact hshows.build_simple hne hall
    · obtain ⟨v, hbuild, -, hshows⟩ := h.attribute htemp he hx
      have hmembers := honce.members e.dn x.1
      rw [addedTo_eq] at hex hmembers ⊢
      refine ⟨v.cacheMap.map Prod.fst, v.cacheMap.map fun x => x.2.structElementList,
        hbuild.trans (hshows.build_config hex), nodup_keys hshows.sorted, hshows.mem_keys, ?_⟩
      rw [List.forall₂_map_left_iff, List.forall₂_map_right_iff, List.forall₂_same]
      intro y hy
      rw [hshows.element hy]
      exact isElement_of_nodup (hmembers y.1)
    · obtain ⟨v, hbuild, -, hshows⟩ := h.attribute htemp he hx
      rw [hbuild, addedTo_eq]
      exact hshows.build_own

end Event

/-! ## Runs -/

def collected (c : CcbId) (calls : List CmCall) : Collected := calls.foldl (CmCall.collect c) {}

def groupsWith (c : CcbId) (calls : List CmCall) (dn : String) : List (String × List Added) :=
  (collected c calls).groups ++ [(dn, (collected c calls).pending)]

section Runs
variable {env : CmEnv} {s : CmState} {hs : CcbId → Collected}

theorem step_shows (h : CmShows s.cache hs) (hok : s.cache.exceeded env = false) {call : CmCall}
    (hnamed : call.Named) :
    ∃ s', CmCall.step env (some s) call = some s' ∧ CmShows s'.cache fun c => call.collect c (hs c) := by
  cases call with
  | addAttr ccbId attrName immRdn memberName avc =>
    obtain ⟨cache, hadd, hshows⟩ := addAttr_spec h hok ccbId ⟨attrName, immRdn, memberName, avc⟩
    refine ⟨{ s with cache }, congrArg (Option.map Prod.snd) hadd, ?_⟩
    convert hshows using 1
    funext c
    by_cases hc : c = ccbId
    · subst hc
      rw [Function.update_self]
      exact if_pos rfl
    · rw [Function.update_of_ne hc]
      exact if_neg (Ne.symm hc)
  | setDn ccbId sourceIndicator dn eventType ccbLast =>
    obtain ⟨cache, pushed, hset, hshows, -, -, -⟩ := setDn_spec h hok ccbId sourceIndicator hnamed eventType ccbLast
    refine ⟨{ s with cache, pushed }, congrArg (Option.map Prod.snd) hset, ?_⟩
    convert hshows using 1
    funext c
    by_cases hc : c = ccbId
    · subst hc
      rw [Function.update_self]
      exact if_pos rfl
    · rw [Function.update_of_ne hc]
      exact if_neg (Ne.symm hc)

/-- By induction on the calls: without a limit every run goes on, and the caches show what was added. -/
theorem run_shows (hoff : env.maxSAMemoryForCMEvents = 0) {calls : List CmCall} (hnamed : ∀ call ∈ calls,
    call.Named)
    (h : CmShows s.cache hs) : ∃ s', calls.foldl (CmCall.step env) (some s) = some s' ∧
      CmShows s'.cache fun c => calls.foldl (CmCall.collect c) (hs c) := by
  induction calls generalizing s hs with
  | nil => exact ⟨s, rfl, h⟩
  | cons call calls ih =>
    obtain ⟨s₁, hstep, hshows⟩ := step_shows h (CmNotificationCache.not_exceeded_of_off hoff _)
      (hnamed call List.mem_cons_self)
    obtain ⟨s', hrun, hshows'⟩ := ih (fun x hx => hnamed x (List.mem_cons_of_mem _ hx)) hshows
    rw [List.foldl_cons, hstep]
    exact ⟨s', hrun, hshows'⟩

end Runs

instance : (call : CmCall) → Decidable call.Named
  | .addAttr .. => inferInstanceAs (Decidable True)
  | .setDn _ _ dn _ _ => inferInstanceAs (Decidable (IsDn dn))

/-- In every run, the event that is pushed for a CCB has its net content exactly when no simple attribute
comes again with another value and no member comes twice. -/
theorem delivers_iff (env : CmEnv) (hoff : env.maxSAMemoryForCMEvents = 0) (calls : List CmCall)
    (hnamed : ∀ call ∈ calls, call.Named) (c : CcbId) (sourceIndicator : SourceIndicator) (dn : String)
    (hdn : IsDn dn) (eventType : CmEventType) :
    ∃ s s', calls.foldl (CmCall.step env) (some {}) = some s ∧
      s.setDn env c sourceIndicator dn eventType true = some (.ok, s') ∧ get? c s'.cache.cacheMap = none ∧
      ∀ n, s'.pushed = s.pushed ++ [n] →
        (NetContent c (groupsWith c calls dn) n ↔ AddedOnce c (groupsWith c calls dn)) := by
  obtain ⟨s, hrun, hshows⟩ := run_shows (s := {}) hoff hnamed cmShows_initial
  obtain ⟨cache, pushed, hset, -, -, hgone, hpush⟩ :=
    setDn_spec hshows (CmNotificationCache.not_exceeded_of_off hoff _) c
    sourceIndicator hdn eventType true
  refine ⟨s, _, hrun, hset, hgone rfl, fun n hn => ?_⟩
  obtain ⟨cc, rfl, hcc, htemp⟩ := hpush n rfl hn
  exact hcc.netContent_iff htemp

/-! ## Two groups for one object -/

def offEnv : CmEnv := ⟨0, 0, 0, 0, 0, 0, 0⟩

def textValue (s : String) : CmContainer := .plain ⟨.string, [.text s]⟩

def mixedCalls : List CmCall :=
  [.addAttr 1 "name" "fooId=1" "" (textValue "a"), .addAttr 2 "name" "barId=1" "" (textValue "x"),
    .setDn 1 .unknown "Foo=1" .attributeValueChange false, .addAttr 1 "users" "id=users_0" "uid" (textValue "1")]

theorem delivers_mixed : ∃ s s', mixedCalls.foldl (CmCall.step offEnv) (some {}) = some s ∧
    s.setDn offEnv 1 .unknown "Foo=1" .attributeValueChange true = some (.ok, s') ∧
    get? 1 s'.cache.cacheMap = none ∧
    ∀ n, s'.pushed = s.pushed ++ [n] →
      (NetContent 1 (groupsWith 1 mixedCalls "Foo=1") n ↔ AddedOnce 1 (groupsWith 1 mixedCalls "Foo=1")) :=
  delivers_iff offEnv rfl mixedCalls (by decide) 1 .unknown "Foo=1" (by decide) .attributeValueChange

/-- The second value of a simple attribute is dropped. -/
theorem not_delivers : ¬ ∀ (env : CmEnv), env.maxSAMemoryForCMEvents = 0 → ∀ calls : List CmCall,
    (∀ call ∈ calls, call.Named) → ∀ (c : CcbId) (sourceIndicator : SourceIndicator) (dn : String), IsDn dn →
    ∀ (eventType : CmEventType) (s s' : CmState), calls.foldl (CmCall.step env) (some {}) = some s →
    s.setDn env c sourceIndicator dn eventType true = some (.ok, s') →
    ∀ n, s'.pushed = s.pushed ++ [n] → NetContent c (groupsWith c calls dn) n := by
  intro h
  have hnet := h offEnv rfl
    [.addAttr 1 "name" "fooId=1" "" (textValue "a"), .setDn 1 .unknown "Foo=1" .attributeValueChange false,
      .addAttr 1 "name" "fooId=1" "" (textValue "b")] (by decide) 1 .unknown "Foo=1" (by decide)
    .attributeValueChange _ _ rfl rfl
    ⟨0, .unknown, [⟨"Foo=1", .attributeValueChange, [("name", textValue "a")]⟩]⟩ rfl
  have hlast := hnet.simple _ List.mem_cons_self _ List.mem_cons_self (by decide)
  exact absurd hlast (by decide)

end ComSA.Cm
