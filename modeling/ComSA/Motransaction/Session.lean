import ComSA.Motransaction.Bridge
import ComSA.Motransaction.DeletedList
import ComSA.Motransaction.ModifiedTree

/-!
# What a transaction shows

The objects of IMM with the changes in the cache laid over them, and what each call of
a transaction does to them.
-/

namespace ComSA

open DeletedObjects ModifiedObjects

/-! ## Trees of objects -/

abbrev Attributes := String → List MoValue

/-- The objects of IMM, each at the name the translator translates. -/
abbrev ImmTree := List String → Option Attributes

structure ImmTree.Closed (t : ImmTree) : Prop where
  root : t [] = none
  parent : ∀ p x, p ≠ [] → (t (p ++ [x])).isSome = true → (t p).isSome = true

theorem ImmTree.Closed.of_isPrefix {t : ImmTree} (h : t.Closed) {p q : List String} (hp : p ≠ [])
    (hpq : p <+: q) (hq : (t q).isSome = true) : (t p).isSome = true := by
  obtain ⟨r, rfl⟩ := hpq
  induction r using List.reverseRecOn with
  | nil => rwa [List.append_nil] at hq
  | append_singleton r x ih =>
    rw [← List.append_assoc] at hq
    exact ih (h.parent _ x (by simp [hp]) hq)

theorem ImmTree.Closed.exists_child {imm : ImmTree} (himm : imm.Closed) {p q : List String} (hpq : p <+: q)
    (hne : p ≠ q) (hq : (imm q).isSome = true) :
    ∃ x, p ++ [x] <+: q ∧ (imm (p ++ [x])).isSome = true := by
  obtain ⟨r, rfl⟩ := hpq
  cases r with
  | nil => simp at hne
  | cons x xs =>
    have hpre : p ++ [x] <+: p ++ x :: xs := by simp
    exact ⟨x, hpre, himm.of_isPrefix (by simp) hpre hq⟩

def overlay (m : AttributeMap) (a : Attributes) : Attributes := fun name =>
  match SortedMap.get? name m with
  | some c => c.data.map Prod.snd
  | none => a name

def setAttribute (name : String) (values : List MoValue) (a : Attributes) : Attributes := fun n =>
  if n = name then values else a n

theorem overlay_put (name : String) (c : DataContainer) (m : AttributeMap) (a : Attributes) :
    overlay (SortedMap.put name c m) a = setAttribute name (c.data.map Prod.snd) (overlay m a) := by
  funext n
  rw [overlay, SortedMap.get?_put, setAttribute]
  by_cases h : n = name
  · rw [if_pos h, if_pos h]
  · rw [if_neg h, if_neg h]
    rfl

theorem createData_values (v : MoAttributeValueContainer) :
    (createData v).map Prod.snd = v.values := by
  simp [createData, Function.comp_def]

theorem alteredContainer_values (v : MoAttributeValueContainer) (old : Option DataContainer) :
    (ObjectData.alteredContainer v old).data.map Prod.snd = v.values := by
  rw [ObjectData.alteredContainer]
  split <;> rename_i h
  · simp [h]
  · exact createData_values v

/-! ## The content of the cache -/

/-- The objects a transaction sees: those of IMM that it has not deleted, with the attributes it has
written, and those it has created. -/
def content (imm : ImmTree) (c : Cache) : ImmTree := fun p =>
  if p = [] then none
  else if c.isDeleted p then none
  else
    match objectAt p c.modified with
    | none => imm p
    | some o =>
      if o.isNewObject then some (overlay o.attributes fun _ => [])
      else (imm p).map (overlay o.attributes)

/-- What an entry of the tree of modified objects holds about the object `p`. -/
structure ObjectInv (tr : Translator) (imm : ImmTree) (p : List String) (o : ObjectData) : Prop where
  newIff : o.isNewObject = true ↔ imm p = none
  plain : o.isNewObject = false → o.isModifiedObject = false → o.attributes = []
  sorted : SortedMap.Sorted o.attributes
  altered : o.isModifiedObject = true → o.immName = tr.mo2ImmDn p
  /-- Without its IMM name a new object has no attribute that lost its values. -/
  immName : o.isNewObject = true → o.immName = tr.mo2ImmDn p ∨
    ∀ a ∈ o.attributes, a.2.hasDefaultValue = false

structure CacheInv (tr : Translator) (imm : ImmTree) (c : Cache) : Prop where
  /-- The ordered lists are complete, and the root entry is no object. -/
  ordered : WellOrdered c.modified
  rootKind : c.modified.1.object = {}
  /-- The deletion points are objects of IMM under their IMM names, none stored twice and no active
  one below another. -/
  unique : Forest.Unique c.deleted
  antichain : Antichain c.deleted
  named : Named tr.mo2ImmDn c.deleted
  markedExists : ∀ p ∈ marked c.deleted, (imm p).isSome = true
  notDeleted : ∀ p o, p ≠ [] → objectAt p c.modified = some o → ¬ Covers (active c.deleted) p
  object : ∀ p o, p ≠ [] → objectAt p c.modified = some o → ObjectInv tr imm p o

/-- A new object knows what is right above it, and one with nothing above it is a root in IMM. -/
def Parented (tr : Translator) (c : Cache) : Prop := ∀ p o, p ≠ [] →
  objectAt p c.modified = some o → o.isNewObject = true →
    o.parentName = p.dropLast ∧ (p.dropLast = [] → tr.isImmRoot p = true ∨ tr.mo2ImmDn [] = "")

theorem Cache.isDeleted_iff (p : List String) (c : Cache) :
    c.isDeleted p = true ↔ Covers (active c.deleted) p := DeletedObjects.isDeleted_iff p c.deleted

section Content
variable {tr : Translator} {imm : ImmTree} {c : Cache}

theorem content_of_deleted {p : List String} (h : Covers (active c.deleted) p) :
    content imm c p = none := by
  rw [content]
  split
  · rfl
  · rw [if_pos ((c.isDeleted_iff p).mpr h)]

theorem content_of_none {p : List String} (hp : p ≠ []) (h : ¬ Covers (active c.deleted) p)
    (ho : objectAt p c.modified = none) : content imm c p = imm p := by
  rw [content, if_neg hp, if_neg (by rwa [c.isDeleted_iff]), ho]

theorem content_of_some {p : List String} {o : ObjectData} (hp : p ≠ [])
    (h : ¬ Covers (active c.deleted) p) (ho : objectAt p c.modified = some o) :
    content imm c p = if o.isNewObject then some (overlay o.attributes fun _ => [])
      else (imm p).map (overlay o.attributes) := by
  rw [content, if_neg hp, if_neg (by rwa [c.isDeleted_iff]), ho]

theorem content_nil : content imm c [] = none := rfl

theorem CacheInv.content_isSome (h : CacheInv tr imm c) {p : List String} {o : ObjectData}
    (hp : p ≠ []) (ho : objectAt p c.modified = some o) : (content imm c p).isSome = true := by
  rw [content_of_some hp (h.notDeleted p o hp ho) ho]
  split <;> rename_i hnew
  · rfl
  · rw [Option.isSome_map, Option.isSome_iff_ne_none]
    exact fun hnone => hnew ((h.object p o hp ho).newIff.mpr hnone)

theorem CacheInv.isSome_iff (h : CacheInv tr imm c) {p : List String} (hp : p ≠ []) :
    (content imm c p).isSome = true ↔
      ¬ Covers (active c.deleted) p ∧
        ((objectAt p c.modified).isSome = true ∨ (imm p).isSome = true) := by
  by_cases hcov : Covers (active c.deleted) p
  · simp [content_of_deleted hcov, hcov]
  · cases ho : objectAt p c.modified with
    | none => simp [content_of_none hp hcov ho, hcov]
    | some o => simp [h.content_isSome hp ho, hcov]

theorem CacheInv.closed (h : CacheInv tr imm c) (himm : imm.Closed) : (content imm c).Closed := by
  refine ⟨rfl, fun p x hp hx => ?_⟩
  have hpx : p <+: p ++ [x] := List.prefix_append p [x]
  obtain ⟨hcov, hor⟩ := (h.isSome_iff (by simp)).mp hx
  refine (h.isSome_iff hp).mpr ⟨fun hc => hcov (hc.of_isPrefix hpx), ?_⟩
  rcases hor with ho | hi
  · exact Or.inl (objectAt_of_isPrefix hpx ho)
  · exact Or.inr (himm.parent p x hp hi)

end Content

theorem objectInv_empty {tr : Translator} {imm : ImmTree} {p : List String}
    (h : (imm p).isSome = true) : ObjectInv tr imm p {} := by
  have hne : imm p ≠ none := Option.isSome_iff_ne_none.mp h
  exact ⟨⟨fun hn => absurd hn (by decide), fun hn => absurd hn hne⟩, fun _ _ => rfl, List.Pairwise.nil,
    fun hm => absurd hm (by decide), fun hn => absurd hn (by decide)⟩

theorem no_object_of_empty (p : List String) (o : ObjectData) (hp : p ≠ []) :
    objectAt p ({} : Cache).modified ≠ some o := by
  intro ho
  have hnone : objectAt p ({} : Cache).modified = none := (objectAt_empty p).trans (if_neg hp)
  exact nomatch hnone.symm.trans ho

theorem cacheInv_empty (tr : Translator) (imm : ImmTree) : CacheInv tr imm {} := by
  refine ⟨wellOrdered_empty {}, rfl, trivial, ?_, ?_, ?_, ?_, ?_⟩
  · rintro p ⟨d, hd, _⟩
    simp at hd
  · intro p d hd
    simp at hd
  · rintro p ⟨d, hd, _⟩
    simp at hd
  all_goals exact fun p o hp ho => absurd ho (no_object_of_empty p o hp)

/-! ## Writing to the tree -/

section Write
variable {tr : Translator} {imm : ImmTree} {c : Cache}

theorem CacheInv.above_isSome (h : CacheInv tr imm c) (himm : imm.Closed) {dn q : List String}
    (hparent : dn.dropLast = [] ∨ (content imm c dn.dropLast).isSome = true) (hq : q ≠ [])
    (hqd : q <+: dn) (hne : q ≠ dn) : (content imm c q).isSome = true := by
  obtain ⟨r, rfl⟩ := hqd
  have hr : r ≠ [] := by
    rintro rfl
    simp at hne
  rw [List.dropLast_append_of_ne_nil hr] at hparent
  rcases hparent with hnil | hsome
  · simp [hq] at hnil
  · exact (h.closed himm).of_isPrefix hq (List.prefix_append q _) hsome

theorem CacheInv.addNames (h : CacheInv tr imm c) (himm : imm.Closed) {dn : List String}
    (hdn : dn ≠ []) (hcov : ¬ Covers (active c.deleted) dn)
    (hparent : dn.dropLast = [] ∨ (content imm c dn.dropLast).isSome = true)
    {f : ObjectData → ObjectData}
    (hf : ObjectInv tr imm dn (f ((objectAt dn c.modified).getD {}))) :
    CacheInv tr imm { c with modified := addNames f dn c.modified } := by
  have habove : ∀ q, q ≠ [] → q <+: dn → q ≠ dn → objectAt q c.modified = none →
      (imm q).isSome = true := by
    intro q hq hqd hne hnone
    obtain ⟨_, ho | hi⟩ := (h.isSome_iff hq).mp (h.above_isSome himm hparent hq hqd hne)
    · rw [hnone] at ho
      cases ho
    · exact hi
  refine ⟨wellOrdered_addNames f dn h.ordered, ?_, h.unique, h.antichain, h.named, h.markedExists,
    ?_, ?_⟩
  · cases dn with
    | nil => exact absurd rfl hdn
    | cons part rest => rw [addNames_cons, addName_object, h.rootKind]
  · intro p o hp ho
    rw [objectAt_addNames] at ho
    split at ho <;> rename_i hpd
    · rwa [hpd]
    · split at ho <;> rename_i hpre
      · exact fun hc => hcov (hc.of_isPrefix hpre)
      · exact h.notDeleted p o hp ho
  · intro p o hp ho
    rw [objectAt_addNames] at ho
    split at ho <;> rename_i hpd
    · obtain rfl := Option.some.inj ho
      rwa [hpd]
    · split at ho <;> rename_i hpre
      · obtain rfl := Option.some.inj ho
        cases hq : objectAt p c.modified with
        | none => exact objectInv_empty (habove p hp hpre hpd hq)
        | some o => exact h.object p o hp hq
      · exact h.object p o hp ho

theorem content_addNames {c' : Cache} {dn : List String} {f : ObjectData → ObjectData}
    (hmod : c'.modified = addNames f dn c.modified) (hdel : c'.deleted = c.deleted)
    {p : List String} (hpd : p ≠ dn) : content imm c' p = content imm c p := by
  by_cases hp : p = []
  · rw [hp, content_nil, content_nil]
  by_cases hpc : Covers (active c.deleted) p
  · rw [content_of_deleted hpc, content_of_deleted (by rwa [hdel])]
  have hpc' : ¬ Covers (active c'.deleted) p := by rwa [hdel]
  have hobj : objectAt p c'.modified =
      if p <+: dn then some ((objectAt p c.modified).getD {}) else objectAt p c.modified := by
    rw [hmod, objectAt_addNames, if_neg hpd]
  cases ho : objectAt p c.modified with
  | some o =>
    rw [ho, Option.getD_some, ite_self] at hobj
    rw [content_of_some hp hpc ho, content_of_some hp hpc' hobj]
  | none =>
    rw [ho] at hobj
    rw [content_of_none hp hpc ho]
    split at hobj
    · -- An entry that was added on the way shows the object of IMM as it is.
      rw [content_of_some hp hpc' hobj]
      exact Option.map_id'
    · exact content_of_none hp hpc' hobj

theorem content_asAltered {c' : Cache} {dn : List String} {immName name : String}
    {v : MoAttributeValueContainer} (hdn : dn ≠ []) (hsome : (content imm c dn).isSome = true)
    (hdel : c'.deleted = c.deleted)
    (hmod : c'.modified = ModifiedObjects.insert dn immName name v c.modified) (p : List String) :
    content imm c' p =
      if p = dn then (content imm c p).map (setAttribute name v.values) else content imm c p := by
  split <;> rename_i hp
  swap
  · exact content_addNames hmod hdel hp
  subst hp
  have hcov : ¬ Covers (active c.deleted) p := by
    intro hc
    rw [content_of_deleted hc] at hsome
    cases hsome
  have hobj : objectAt p c'.modified =
      some (ObjectData.asAltered immName name v ((objectAt p c.modified).getD {})) := by
    rw [hmod, ModifiedObjects.insert, objectAt_addNames, if_pos rfl]
  rw [content_of_some hdn (by rwa [hdel]) hobj]
  have hattr : ∀ o : ObjectData, overlay (o.asAltered immName name v).attributes =
      setAttribute name v.values ∘ overlay o.attributes := by
    intro o
    funext a
    rw [asAltered_attributes, overlay_put, alteredContainer_values]
    rfl
  rw [isNewObject_asAltered, hattr]
  cases ho : objectAt p c.modified with
  | none =>
    rw [content_of_none hdn hcov ho, Option.getD_none, if_neg (by decide)]
    rfl
  | some o =>
    rw [content_of_some hdn hcov ho, Option.getD_some]
    split
    · rfl
    · rw [Option.map_map]

/-- An attribute is written under the IMM name of the object, or else the object is a new one, where no attribute
loses its values. -/
def TakesName (tr : Translator) (c : Cache) (dn : List String) (immName : String)
    (v : MoAttributeValueContainer) : Prop :=
  immName = tr.mo2ImmDn dn ∨
    ∃ o, objectAt dn c.modified = some o ∧ o.isNewObject = true ∧
      (∀ a ∈ o.attributes, a.2.hasDefaultValue = false) ∧ v.values ≠ []

theorem hasDefaultValue_alteredContainer {v : MoAttributeValueContainer} (hv : v.values ≠ []) {m : AttributeMap}
    (hm : ∀ a ∈ m, a.2.hasDefaultValue = false) (name : String) :
    (ObjectData.alteredContainer v (SortedMap.get? name m)).hasDefaultValue = false := by
  unfold ObjectData.alteredContainer
  rw [if_neg hv]
  cases hold : SortedMap.get? name m with
  | none => rfl
  | some old => exact hm _ (SortedMap.mem_of_get? hold)

theorem CacheInv.update (h : CacheInv tr imm c) (himm : imm.Closed) {dn : List String} (hdn : dn ≠ [])
    (hsome : (content imm c dn).isSome = true) {immName : String} {v : MoAttributeValueContainer}
    (hname : TakesName tr c dn immName v) (name : String) :
    CacheInv tr imm { c with modified := ModifiedObjects.insert dn immName name v c.modified } := by
  obtain ⟨hcov, hor⟩ := (h.isSome_iff hdn).mp hsome
  refine h.addNames himm hdn hcov ?_ ?_
  · by_cases hd : dn.dropLast = []
    · exact Or.inl hd
    · have habove := List.dropLast_prefix dn
      exact Or.inr ((h.closed himm).of_isPrefix hd habove hsome)
  · have hinv : ObjectInv tr imm dn ((objectAt dn c.modified).getD {}) := by
      cases ho : objectAt dn c.modified with
      | none =>
        rw [ho] at hor
        exact objectInv_empty (hor.resolve_left (by simp))
      | some o => exact h.object dn o hdn ho
    have hname' : immName = tr.mo2ImmDn dn ∨ ((objectAt dn c.modified).getD {}).isNewObject = true ∧
        (∀ a ∈ ((objectAt dn c.modified).getD {}).attributes, a.2.hasDefaultValue = false) ∧ v.values ≠ [] := by
      refine hname.imp_right ?_
      rintro ⟨o, ho, hnew⟩
      rw [ho]
      exact hnew
    generalize (objectAt dn c.modified).getD {} = o at hinv hname' ⊢
    constructor
    · rw [isNewObject_asAltered]
      exact hinv.newIff
    · intro hn hm
      rw [isModifiedObject_asAltered, ← isNewObject_asAltered immName name v, hn] at hm
      cases hm
    · exact SortedMap.sorted_put hinv.sorted _ _
    · intro hm
      refine hname'.resolve_right fun hnew => ?_
      rw [isModifiedObject_asAltered, hnew.1] at hm
      cases hm
    · refine fun _ => hname'.imp_right fun ⟨_, hdefault, hv⟩ a ha => ?_
      rcases SortedMap.mem_put ha with rfl | ha
      · exact hasDefaultValue_alteredContainer hv hdefault name
      · exact hdefault a ha

theorem CacheInv.set (h : CacheInv tr imm c) (himm : imm.Closed) {dn : List String} (hdn : dn ≠ [])
    (hsome : (content imm c dn).isSome = true) (name : String) (v : MoAttributeValueContainer) :
    CacheInv tr imm
      { c with modified := ModifiedObjects.insert dn (tr.mo2ImmDn dn) name v c.modified } :=
  h.update himm hdn hsome (Or.inl rfl) name

theorem content_insertCreatedObject {dn : List String} (hdn : dn ≠ [])
    (hcov : ¬ Covers (active c.deleted) dn) (hnone : objectAt dn c.modified = none)
    (className : String) (parentName : List String) (immName key value : String) (p : List String) :
    content imm (c.insertCreatedObject dn className parentName immName key value) p =
      if p = dn then
        some (setAttribute key [.text (buildAttributeValue key value)] fun _ => [])
      else content imm c p := by
  have hmod : (c.insertCreatedObject dn className parentName immName key value).modified =
      addNames (ObjectData.asNew immName className parentName key
        ⟨.string, [.text (buildAttributeValue key value)]⟩) dn c.modified := rfl
  split <;> rename_i hp
  swap
  · exact content_addNames hmod rfl hp
  subst hp
  have hobj : objectAt p (c.insertCreatedObject p className parentName immName key value).modified =
      some (ObjectData.asNew immName className parentName key
        ⟨.string, [.text (buildAttributeValue key value)]⟩ {}) := by
    rw [hmod, objectAt_addNames, if_pos rfl, hnone, Option.getD_none]
  rw [content_of_some hdn (by exact hcov) hobj, isNewObject_asNew, if_pos rfl]
  rw [ObjectData.asNew, overlay_put]
  rfl

theorem CacheInv.insertCreatedObject (h : CacheInv tr imm c) (himm : imm.Closed) {dn : List String}
    (hdn : dn ≠ []) (hcov : ¬ Covers (active c.deleted) dn) (hnone : content imm c dn = none)
    (hparent : dn.dropLast = [] ∨ (content imm c dn.dropLast).isSome = true)
    (className : String) (parentName : List String) (key value : String) :
    CacheInv tr imm (c.insertCreatedObject dn className parentName "" key value) := by
  have ho : objectAt dn c.modified = none := by
    rw [← Option.not_isSome_iff_eq_none]
    intro hsome
    have := (h.isSome_iff hdn).mpr ⟨hcov, Or.inl hsome⟩
    rw [hnone] at this
    cases this
  refine h.addNames himm hdn hcov hparent ?_
  rw [ho, Option.getD_none]
  have himmNone : imm dn = none := by rwa [content_of_none hdn hcov ho] at hnone
  have hnew := isNewObject_asNew "" className parentName key
    ⟨.string, [.text (buildAttributeValue key value)]⟩ {}
  constructor
  · exact ⟨fun _ => himmNone, fun _ => hnew⟩
  · intro hn
    rw [hnew] at hn
    cases hn
  · exact SortedMap.sorted_put List.Pairwise.nil _ _
  · intro hm
    simp [ObjectData.asNew, ObjectData.isModifiedObject, ObjectData.setEntryKind,
      ModifiedEntryKind.toNat] at hm
  · intro _
    right
    simp [ObjectData.asNew, SortedMap.put, SortedMap.get?]

/-! ## Deletion points -/

theorem removeDeletedObject_of_not_covered {dn : List String}
    (h : ¬ Covers (active c.deleted) dn) : c.removeDeletedObject dn = c := by
  rw [Cache.removeDeletedObject, remove_of_not_active fun ha => h (covers_of_mem ha)]

theorem mem_active_of_covered {dn : List String} (hcov : Covers (active c.deleted) dn)
    (hparent : dn.dropLast = [] ∨ (content imm c dn.dropLast).isSome = true) :
    dn ∈ active c.deleted := by
  obtain ⟨q, hq, hqd⟩ := hcov
  have hqne := ne_nil_of_mem_marked (active_subset_marked _ hq)
  by_cases hqe : q = dn
  · rwa [hqe] at hq
  · exfalso
    have hpre : q <+: dn.dropLast := by
      obtain ⟨r, rfl⟩ := hqd
      have hr : r ≠ [] := by
        rintro rfl
        simp at hqe
      rw [List.dropLast_append_of_ne_nil hr]
      exact List.prefix_append q _
    rcases hparent with hnil | hsome
    · rw [hnil] at hpre
      exact hqne (List.prefix_nil.mp hpre)
    · rw [content_of_deleted ⟨q, hq, hpre⟩] at hsome
      cases hsome

section Undelete
variable {dn : List String}

theorem covers_removeDeletedObject (h : CacheInv tr imm c) (hdn : dn ∈ active c.deleted)
    (p : List String) :
    Covers (active (c.removeDeletedObject dn).deleted) p ↔
      if dn <+: p then Covers (below (marked c.deleted) dn) p else Covers (active c.deleted) p := by
  split <;> rename_i hp
  · exact covers_remove_topmost (h.antichain dn hdn) hp
  · exact covers_remove_of_not_isPrefix hp

theorem content_removeDeletedObject (h : CacheInv tr imm c) (hdn : dn ∈ active c.deleted)
    (p : List String) :
    content imm (c.removeDeletedObject dn) p =
      if dn <+: p then
        if isDeleted p (c.removeDeletedObject dn).deleted then none else imm p
      else content imm c p := by
  have hne := ne_nil_of_mem_marked (active_subset_marked _ hdn)
  by_cases hp : p = []
  · subst hp
    rw [content_nil, content_nil, if_neg]
    exact fun hpre => hne (List.prefix_nil.mp hpre)
  have hcovers := covers_removeDeletedObject h hdn p
  split <;> rename_i hpre
  · have hnone : objectAt p (c.removeDeletedObject dn).modified = none := by
      rw [Option.eq_none_iff_forall_ne_some]
      exact fun o ho => h.notDeleted p o hp ho ⟨dn, hdn, hpre⟩
    split <;> rename_i hdel
    · exact content_of_deleted ((DeletedObjects.isDeleted_iff _ _).mp hdel)
    · exact content_of_none hp (by rwa [← DeletedObjects.isDeleted_iff]) hnone
  · rw [if_neg hpre] at hcovers
    by_cases hcov : Covers (active c.deleted) p
    · rw [content_of_deleted hcov, content_of_deleted (hcovers.mpr hcov)]
    · have hcov' := fun hc => hcov (hcovers.mp hc)
      cases ho : objectAt p c.modified with
      | none => rw [content_of_none hp hcov ho, content_of_none hp hcov' ho]
      | some o => rw [content_of_some hp hcov ho, content_of_some hp hcov' ho]

theorem CacheInv.removeDeletedObject (h : CacheInv tr imm c) (hdn : dn ∈ active c.deleted) :
    CacheInv tr imm (c.removeDeletedObject dn) := by
  refine ⟨h.ordered, h.rootKind, unique_remove h.unique dn, antichain_remove h.antichain,
    named_remove h.named dn, ?_, ?_, h.object⟩
  · intro p hp
    rw [Cache.removeDeletedObject, marked_remove] at hp
    exact h.markedExists p hp
  · intro p o hp ho hcov
    rw [covers_removeDeletedObject h hdn] at hcov
    split at hcov <;> rename_i hpre
    · exact h.notDeleted p o hp ho ⟨dn, hdn, hpre⟩
    · exact h.notDeleted p o hp ho hcov

end Undelete

/-! ## Deleting -/

theorem content_erased {c' : Cache} {dn : List String} (hdel : c'.deleted = c.deleted)
    (hobj : ∀ p, objectAt p c'.modified = if dn <+: p then none else objectAt p c.modified)
    {p : List String} (hp : p ≠ []) :
    content imm c' p =
      if dn <+: p then (if c.isDeleted p then none else imm p) else content imm c p := by
  have hiff : Covers (active c'.deleted) p ↔ Covers (active c.deleted) p := by rw [hdel]
  have ho := hobj p
  by_cases hcov : Covers (active c.deleted) p
  · rw [content_of_deleted hcov, content_of_deleted (hiff.mpr hcov),
      if_pos ((c.isDeleted_iff p).mpr hcov), ite_self]
  · have hnot : ¬ c.isDeleted p = true := by rwa [c.isDeleted_iff]
    rw [if_neg hnot]
    have hcov' := fun hc => hcov (hiff.mp hc)
    split at ho <;> rename_i hpre
    · rw [if_pos hpre, content_of_none hp hcov' ho]
    · rw [if_neg hpre]
      cases hop : objectAt p c.modified with
      | none => rw [content_of_none hp hcov hop, content_of_none hp hcov' (ho.trans hop)]
      | some o => rw [content_of_some hp hcov hop, content_of_some hp hcov' (ho.trans hop)]

theorem CacheInv.erased (h : CacheInv tr imm c) {c' : Cache} {dn : List String}
    (hdel : c'.deleted = c.deleted) (hord : WellOrdered c'.modified)
    (hobj : ∀ p, objectAt p c'.modified = if dn <+: p then none else objectAt p c.modified) :
    CacheInv tr imm c' := by
  have hsub : ∀ p o, objectAt p c'.modified = some o → objectAt p c.modified = some o := by
    intro p o ho
    rw [hobj] at ho
    split at ho
    · cases ho
    · exact ho
  refine ⟨hord, ?_, ?_, ?_, ?_, ?_, ?_, fun p o hp ho => h.object p o hp (hsub p o ho)⟩
  · have hroot := hsub [] c'.modified.1.object rfl
    rw [objectAt_nil, h.rootKind] at hroot
    exact (Option.some.inj hroot).symm
  · rw [hdel]; exact h.unique
  · rw [hdel]; exact h.antichain
  · rw [hdel]; exact h.named
  · rw [hdel]; exact h.markedExists
  · intro p o hp ho
    rw [hdel]
    exact h.notDeleted p o hp (hsub p o ho)

theorem CacheInv.insertDeletedObject (h : CacheInv tr imm c) {dn : List String} (hdn : dn ≠ [])
    (hcov : ¬ Covers (active c.deleted) dn) (himm : (imm dn).isSome = true)
    (hgone : ∀ p, dn <+: p → objectAt p c.modified = none) :
    CacheInv tr imm (c.insertDeletedObject dn (tr.mo2ImmDn dn)) := by
  refine ⟨h.ordered, h.rootKind, unique_insert h.unique _ _, antichain_insert h.antichain hcov _,
    named_insert h.named hcov, ?_, ?_, h.object⟩
  · intro p hp
    obtain ⟨first, rest, rfl⟩ := List.exists_cons_of_ne_nil hdn
    rw [Cache.insertDeletedObject,
      marked_insert (fun ht => hcov ⟨[first], ht, by simp⟩), Set.mem_insert_iff] at hp
    rcases hp with rfl | hp
    · exact himm
    · exact h.markedExists p hp
  · intro p o hp ho hc
    rw [Cache.insertDeletedObject,
      covers_insert_of_ok hdn fun ht => hcov (covers_of_mem ht.1.1)] at hc
    rcases hc with hpre | hc
    · exact absurd ((hgone p hpre).symm.trans ho) (by simp)
    · exact h.notDeleted p o hp ho hc

theorem content_insertDeletedObject {dn : List String} (hdn : dn ≠ [])
    (hcov : ¬ Covers (active c.deleted) dn) (immName : String) (p : List String) :
    content imm (c.insertDeletedObject dn immName) p =
      if dn <+: p then none else content imm c p := by
  have hiff : Covers (active (c.insertDeletedObject dn immName).deleted) p ↔
      dn <+: p ∨ Covers (active c.deleted) p :=
    covers_insert_of_ok hdn (fun ht => hcov (covers_of_mem ht.1.1)) immName p
  split <;> rename_i hpre
  · exact content_of_deleted (hiff.mpr (Or.inl hpre))
  · by_cases hp : p = []
    · rw [hp, content_nil, content_nil]
    by_cases hc : Covers (active c.deleted) p
    · rw [content_of_deleted hc, content_of_deleted (hiff.mpr (Or.inr hc))]
    · have hc' : ¬ Covers (active (c.insertDeletedObject dn immName).deleted) p :=
        fun h => (hiff.mp h).elim hpre hc
      cases ho : objectAt p c.modified with
      | none => rw [content_of_none hp hc ho, content_of_none hp hc' ho]
      | some o => rw [content_of_some hp hc ho, content_of_some hp hc' ho]

end Write

end ComSA
