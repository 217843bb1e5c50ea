import ComSA.Lib.Decimal
import ComSA.Lib.Delimited
import ComSA.Motransaction.StructAttribute

/-!
# Replacing a struct attribute

What the cache holds about one instance, and what each call of the bridge does to that.
The loops of `writeStructToImm` follow from it, and so does what is read afterwards: which
instances are gone, and which values of the members are those of an earlier instance.
-/

namespace ComSA

open DeletedObjects ModifiedObjects

/-! ## Names -/

/-- A name of a struct attribute and of its class, as the model has them. The name of the class begins with a
capital letter. -/
structure StructNames (attributeName attributeTypeName : String) : Prop where
  attr : '=' ∉ attributeName.toList ∧ ',' ∉ attributeName.toList
  typeName : '=' ∉ attributeTypeName.toList ∧ '.' ∉ attributeTypeName.toList ∧ ',' ∉ attributeTypeName.toList
  nonempty : attributeTypeName ≠ ""
  capital : upperFirst attributeTypeName = attributeTypeName

def PlainId (id : String) : Prop := '=' ∉ id.toList ∧ ',' ∉ id.toList

instance (id : String) : Decidable (PlainId id) := inferInstanceAs (Decidable (_ ∧ _))

section Names
variable {attributeName attributeTypeName id : String}

theorem toList_uniqueId : (uniqueId attributeTypeName id).toList =
    attributeTypeName.toList ++ '.' :: 'i' :: 'd' :: '=' :: id.toList := by
  simp [uniqueId, Translator.STRUCT_CLASS_KEY_ATTRIBUTE]

theorem uniqueId_injective : Function.Injective (uniqueId attributeTypeName) := by
  intro a b h
  have hlist := congrArg String.toList h
  rw [toList_uniqueId, toList_uniqueId] at hlist
  exact String.toList_inj.mp (by simpa using hlist)

theorem instanceId_injective : Function.Injective (instanceId attributeName) := by
  intro a b h
  have hlist := congrArg String.toList h
  unfold instanceId at hlist
  rw [String.toList_append, String.toList_append, String.toList_append, String.toList_append,
    List.append_cancel_left_eq] at hlist
  exact toString_injective (String.toList_inj.mp hlist)

theorem StructNames.plainId (h : StructNames attributeName attributeTypeName) (ix : Nat) :
    PlainId (instanceId attributeName ix) := by
  have hlist : (instanceId attributeName ix).toList = attributeName.toList ++ '_' :: (toString ix).toList := by
    simp [instanceId, STRUCT_CLASS_INDEX_SEPARATOR]
  have hdigits {ch : Char} (hch : ch.isDigit = false) : ch ∉ (toString ix).toList := by
    intro hmem
    rw [isDigit_of_mem_toString hmem] at hch
    exact absurd hch (by decide)
  rw [PlainId, hlist]
  exact ⟨notMem_append_cons h.attr.1 (by decide) (hdigits (by decide)),
    notMem_append_cons h.attr.2 (by decide) (hdigits (by decide))⟩

theorem StructNames.comma_not_mem (h : StructNames attributeName attributeTypeName) (hid : PlainId id) :
    ',' ∉ (uniqueId attributeTypeName id).toList := by
  rw [toList_uniqueId]
  intro hmem
  rcases List.mem_append.mp hmem with hin | hin
  · exact h.typeName.2.2 hin
  · have hin : ',' ∈ id.toList := by simpa using hin
    exact hid.2 hin

theorem StructNames.splitDn_ecimStructDn (h : StructNames attributeName attributeTypeName) (hid : PlainId id)
    (dn : String) :
    splitDn (ecimStructDn dn attributeTypeName id) = splitDn dn ++ [uniqueId attributeTypeName id] :=
  splitDn_append (h.comma_not_mem hid) dn

theorem afterLast_append {ch : Char} {b : List Char} (hb : ch ∉ b) (a : List Char) :
    afterLast ch (a ++ ch :: b) = b := by
  have hpos : ∀ x ∈ b.reverse, decide (x ≠ ch) = true := fun x hx =>
    decide_eq_true (ne_of_mem_of_not_mem (List.mem_reverse.mp hx) hb)
  unfold afterLast
  rw [List.reverse_append, List.reverse_cons, List.append_assoc, List.singleton_append,
    List.takeWhile_append_of_pos hpos]
  simp

theorem idOf_ecimStructDn (hid : PlainId id) (dn : String) : idOf (ecimStructDn dn attributeTypeName id) = id := by
  have hlist : (ecimStructDn dn attributeTypeName id).toList =
      (dn.toList ++ ',' :: (attributeTypeName.toList ++ ['.', 'i', 'd'])) ++ '=' :: id.toList := by
    simp [ecimStructDn, uniqueId, Translator.STRUCT_CLASS_KEY_ATTRIBUTE]
  rw [idOf, hlist, afterLast_append hid.1, String.ofList_toList]

theorem StructNames.keyAttributeName (h : StructNames attributeName attributeTypeName) (dn id : String) :
    (createInstance dn attributeTypeName id).keyAttributeName = "id" := by
  have hdot : Translator.dotInClass (uniqueId attributeTypeName id) = true := by
    have hpos : ∀ c ∈ attributeTypeName.toList, decide (c ≠ '=') = true :=
      fun c hc => decide_eq_true (ne_of_mem_of_not_mem hc h.typeName.1)
    rw [Translator.dotInClass, toList_uniqueId, List.takeWhile_append_of_pos hpos]
    simp
  have hpos : ∀ c ∈ attributeTypeName.toList, decide (c ≠ '.') = true :=
    fun c hc => decide_eq_true (ne_of_mem_of_not_mem hc h.typeName.2.1)
  unfold createInstance
  dsimp only
  rw [Translator.convert3GPPNameFragmentToImmNameFragment, if_pos hdot, Translator.afterDot,
    toList_uniqueId, List.dropWhile_append_of_pos hpos]
  simp [Translator.beforeEqual]

theorem StructNames.createInstance_dn (h : StructNames attributeName attributeTypeName) (hid : PlainId id)
    (dn : String) :
    (createInstance dn attributeTypeName id).dn = splitDn dn ++ [uniqueId attributeTypeName id] := by
  have hlower : convertToLowerCase attributeTypeName ++ "id" ≠ convertToLowerCase "id" := by
    intro heq
    have hlength := congrArg (fun s => s.toList.length) heq
    have hempty : attributeTypeName.toList = [] := by simpa [convertToLowerCase] using hlength
    exact h.nonempty (String.toList_inj.mp (by simpa using hempty))
  have hhead : id.toList.head? ≠ some '=' := fun heq => hid.1 (List.mem_of_mem_head? heq)
  have hrdn : buildRdn attributeTypeName "id" id = uniqueId attributeTypeName id := by
    rw [buildRdn, if_neg hlower, if_neg hhead]
    rfl
  have hone : splitDn (uniqueId attributeTypeName id) = [uniqueId attributeTypeName id] := by
    rw [splitDn, splitChars_of_not_mem (h.comma_not_mem hid), List.map_singleton, String.ofList_toList]
  rw [CreateCall.dn, h.keyAttributeName]
  unfold buildObjectName createInstance
  dsimp only
  rw [h.capital, hrdn, hone]

end Names

/-! ## What the cache holds about an instance -/

structure InstanceView where
  deleted : Bool
  inCache : Bool
  isNew : Bool
  attributes : String → Option ReadContainer

namespace Cache

def isNew (dn : List String) (c : Cache) : Bool :=
  ((objectAt dn c.modified).map ObjectData.isNewObject).getD false

def view (dn : List String) (c : Cache) : InstanceView :=
  ⟨c.isDeleted dn, c.isInCache dn, c.isNew dn, c.getAttribute dn⟩

end Cache

namespace InstanceView

def afterDelete (v : InstanceView) : InstanceView := ⟨!v.isNew, false, false, fun _ => none⟩

def afterSet (memberName : String) (memberValue : MoAttributeValueContainer) (v : InstanceView) :
    InstanceView :=
  ⟨v.deleted, true, v.isNew, fun m => if m = memberName then some memberValue.read else v.attributes m⟩

structure Created (key : String) (v v' : InstanceView) : Prop where
  alive : v'.deleted = false
  back : v.deleted = true → v'.inCache = v.inCache
  new : v.deleted = false → v'.inCache = true
  attributes : ∀ a, a ≠ key → v'.attributes a = v.attributes a

end InstanceView

section Views
variable {tr : Translator} {base : List String} {p q : String} {c c' : Cache}

theorem view_eq {x : List String} (hdeleted : c'.isDeleted x = c.isDeleted x)
    (hobject : objectAt x c'.modified = objectAt x c.modified) : c'.view x = c.view x := by
  unfold Cache.view Cache.isInCache Cache.isNew
  rw [hdeleted, find_eq, find_eq, hobject]
  have hattributes : c'.getAttribute x = c.getAttribute x := by
    funext a
    rw [getAttribute_eq, getAttribute_eq, hobject]
  rw [hattributes]

theorem sibling_not_isPrefix (h : p ≠ q) : ¬ base ++ [p] <+: base ++ [q] := by
  intro hpre
  rw [List.prefix_append_right_inj] at hpre
  exact h (by simpa using hpre)

theorem above_not_isPrefix : ¬ base ++ [p] <+: base := by
  intro hpre
  have hlength := hpre.length_le
  rw [List.length_append, List.length_singleton] at hlength
  omega

theorem isDeleted_congr {x y : List String}
    (h : Covers (active c'.deleted) x ↔ Covers (active c.deleted) y) : c'.isDeleted x = c.isDeleted y := by
  rw [Bool.eq_iff_iff, Cache.isDeleted_iff, Cache.isDeleted_iff]
  exact h

theorem removeCreatedObject_eq (hbase : base ≠ []) : ∃ modified,
    c.removeCreatedObject (base ++ [p]) = some (c.isNew (base ++ [p]), { c with modified }) ∧
    ∀ x, objectAt x modified = if base ++ [p] <+: x then none else objectAt x c.modified := by
  unfold Cache.removeCreatedObject Cache.isNew
  cases ho : objectAt (base ++ [p]) c.modified with
  | none =>
    refine ⟨c.modified, by rw [removeObject_of_none ho]; rfl, fun x => ?_⟩
    split <;> rename_i hx
    · exact objectAt_none_of_isPrefix hx ho
    · rfl
  | some o => exact ⟨_, by rw [removeObject_of_some hbase ho]; rfl, objectAt_dropName base p ho⟩

theorem deleteImmMo_view (hbase : base ≠ []) (halive : c.isDeleted (base ++ [p]) = false)
    (h : deleteImmMo tr (base ++ [p]) c = some (.ok, c')) :
    c'.view (base ++ [p]) = (c.view (base ++ [p])).afterDelete ∧
    (∀ q, q ≠ p → c'.view (base ++ [q]) = c.view (base ++ [q])) ∧ c'.isDeleted base = c.isDeleted base := by
  obtain ⟨modified, hremove, hobject⟩ := removeCreatedObject_eq (p := p) (c := c) hbase
  unfold deleteImmMo at h
  split at h
  · cases h
  rw [hremove] at h
  have hmodified : c'.modified = modified := by
    cases hnew : c.isNew (base ++ [p]) with
    | true =>
      rw [hnew] at h
      cases h
      rfl
    | false =>
      rw [hnew] at h
      cases h
      rfl
  have hself : objectAt (base ++ [p]) c'.modified = none := by
    rw [hmodified, hobject, if_pos List.prefix_rfl]
  have hother {x : List String} (hx : ¬ base ++ [p] <+: x) : objectAt x c'.modified = objectAt x c.modified := by
    rw [hmodified, hobject, if_neg hx]
  have hnot : ¬ Covers (active c.deleted) (base ++ [p]) := by
    rw [← c.isDeleted_iff, halive]
    exact Bool.false_ne_true
  have hdeleted (x : List String) : c'.isDeleted x = true ↔
      (c.isNew (base ++ [p]) = false ∧ base ++ [p] <+: x) ∨ c.isDeleted x = true := by
    cases hnew : c.isNew (base ++ [p]) with
    | true =>
      rw [hnew] at h
      cases h
      exact (or_iff_right fun hx => Bool.false_ne_true hx.1.symm).symm
    | false =>
      rw [hnew] at h
      cases h
      have hcovers := covers_insert_of_ok (p := base ++ [p]) (by simp)
        (fun hok => hnot ⟨_, hok.1.1, List.prefix_rfl⟩) (tr.mo2ImmDn (base ++ [p])) x
      rw [Cache.isDeleted_iff, Cache.isDeleted_iff]
      exact hcovers.trans (or_congr_left (and_iff_right rfl).symm)
  have hkept {x : List String} (hx : ¬ base ++ [p] <+: x) : c'.isDeleted x = c.isDeleted x := by
    rw [Bool.eq_iff_iff, hdeleted]
    exact or_iff_right fun hnew => hx hnew.2
  refine ⟨?_, fun q hq => ?_, hkept above_not_isPrefix⟩
  · have hmark : c'.isDeleted (base ++ [p]) = !c.isNew (base ++ [p]) := by
      rw [Bool.eq_iff_iff, hdeleted, halive]
      simp
    have hattributes : c'.getAttribute (base ++ [p]) = fun _ => none := by
      funext a
      rw [getAttribute_eq, hself]
      rfl
    have hin : c'.isInCache (base ++ [p]) = false := by
      rw [Cache.isInCache, find_eq, hself]
      rfl
    have hnew : c'.isNew (base ++ [p]) = false := by
      rw [Cache.isNew, hself]
      rfl
    unfold Cache.view InstanceView.afterDelete
    rw [hmark, hattributes, hin, hnew]
  · exact view_eq (hkept (sibling_not_isPrefix hq.symm)) (hother (sibling_not_isPrefix hq.symm))

theorem objectAt_addNames_sibling (f : ObjectData → ObjectData) (hq : q ≠ p) (root : ModifiedEntry) :
    objectAt (base ++ [q]) (addNames f (base ++ [p]) root) = objectAt (base ++ [q]) root := by
  have hne : base ++ [q] ≠ base ++ [p] := fun h => hq (by simpa using h)
  rw [objectAt_addNames, if_neg hne, if_neg (sibling_not_isPrefix hq)]

theorem objectAt_addNames_self (f : ObjectData → ObjectData) (x : List String) (root : ModifiedEntry) :
    objectAt x (addNames f x root) = some (f ((objectAt x root).getD {})) := by
  rw [objectAt_addNames, if_pos rfl]

theorem getAttribute_eq_getD (x : List String) (a : String) (c : Cache) : c.getAttribute x a =
    (SortedMap.get? a ((objectAt x c.modified).getD {}).attributes).map createMafMoAttrValCont := by
  rw [getAttribute_eq]
  cases objectAt x c.modified <;> rfl

theorem isNew_eq_getD (x : List String) (c : Cache) :
    c.isNew x = ((objectAt x c.modified).getD {}).isNewObject := by
  unfold Cache.isNew
  cases objectAt x c.modified <;> rfl

theorem setImmMoAttribute_view {memberName : String} {memberValue : MoAttributeValueContainer}
    (h : setImmMoAttribute tr (base ++ [p]) memberName memberValue c = (.ok, c')) :
    c'.view (base ++ [p]) = (c.view (base ++ [p])).afterSet memberName memberValue ∧
    (∀ q, q ≠ p → c'.view (base ++ [q]) = c.view (base ++ [q])) ∧ c'.isDeleted base = c.isDeleted base := by
  rw [setImmMoAttribute_eq] at h
  split at h
  · cases h
    refine ⟨?_, fun q hq => view_eq rfl (objectAt_addNames_sibling _ hq _), rfl⟩
    have hself := objectAt_addNames_self (ObjectData.asAltered (tr.mo2ImmDn (base ++ [p])) memberName memberValue)
      (base ++ [p]) c.modified
    unfold Cache.view InstanceView.afterSet
    congr 1
    · rw [Cache.isInCache, find_eq]
      exact congrArg Option.isSome hself
    · rw [isNew_eq_getD, isNew_eq_getD]
      unfold ModifiedObjects.insert
      rw [hself, Option.getD_some, isNewObject_asAltered]
    · funext m
      have hread := getAttribute_insert ⟨base ++ [p], by simp⟩ (tr.mo2ImmDn (base ++ [p])) memberName
        memberValue c (base ++ [p]) m
      rw [hread]
      by_cases hm : m = memberName
      · rw [if_pos ⟨rfl, hm⟩, if_pos hm]
      · rw [if_neg fun h => hm h.2, if_neg hm]
  · cases h

theorem createImmMo_view {m : CreateCall} (hdn : m.dn = base ++ [p]) (hinitial : m.initialAttributes = [])
    (hbase : c.isDeleted base = false) (h : createImmMo tr m c = (.ok, c')) :
    (c.view (base ++ [p])).Created (m.immKey tr) (c'.view (base ++ [p])) ∧
    (∀ q, q ≠ p → c'.view (base ++ [q]) = c.view (base ++ [q])) ∧ c'.isDeleted base = c.isDeleted base := by
  have hc' : c' = recordCreation tr m c := by
    unfold createImmMo at h
    rw [hinitial] at h
    split at h
    · cases h
    · split at h
      · cases h
      · cases h
        rfl
  subst hc'
  have hactive : ¬ Covers (active c.deleted) base := by
    rw [← c.isDeleted_iff, hbase]
    exact Bool.false_ne_true
  by_cases hcovered : Covers (active c.deleted) m.dn
  · -- the name is deleted: the mark goes, and nothing is inserted
    rw [recordCreation_of_deleted hcovered]
    have htop : Topmost (active c.deleted) (base ++ [p]) := by
      rw [hdn] at hcovered
      obtain ⟨top, htop, hpre⟩ := hcovered.exists_topmost
      rcases List.prefix_concat_iff.mp hpre with rfl | habove
      · exact htop
      · exact absurd ⟨top, htop.1, habove⟩ hactive
    have hkept {x : List String} (hx : ¬ base ++ [p] <+: x) :
        (c.removeDeletedObject m.dn).isDeleted x = c.isDeleted x := by
      apply isDeleted_congr
      rw [hdn]
      exact covers_remove_of_not_isPrefix hx
    refine ⟨⟨?_, fun _ => rfl, fun hno => ?_, fun _ _ => rfl⟩, fun q hq => ?_, hkept above_not_isPrefix⟩
    · rw [← Bool.not_eq_true]
      intro hyes
      have hyes : Covers (active (remove m.dn c.deleted)) (base ++ [p]) := (Cache.isDeleted_iff _ _).mp hyes
      rw [hdn, covers_remove_topmost htop List.prefix_rfl] at hyes
      obtain ⟨x, hx, hxp⟩ := hyes
      exact hx.2.2 (hx.2.1.eq_of_length (Nat.le_antisymm hx.2.1.length_le hxp.length_le))
    · rw [hdn, ← c.isDeleted_iff] at hcovered
      exact absurd (hno.symm.trans hcovered) Bool.false_ne_true
    · exact view_eq (hkept (sibling_not_isPrefix hq.symm)) rfl
  · rw [recordCreation_of_not_deleted hcovered]
    have halive : c.isDeleted (base ++ [p]) = false := by
      rw [← Bool.not_eq_true, c.isDeleted_iff, ← hdn]
      exact hcovered
    unfold Cache.insertCreatedObject ModifiedObjects.insertNewObject
    rw [hdn]
    have hself := objectAt_addNames_self (ObjectData.asNew "" (tr.translateClassName m.parent m.className) m.parent
      (m.immKey tr) ⟨.string, [.text (buildAttributeValue (m.immKey tr) m.keyAttributeValue)]⟩)
      (base ++ [p]) c.modified
    refine ⟨⟨halive, fun hyes => ?_, fun _ => ?_, fun a ha => ?_⟩,
      fun q hq => view_eq rfl (objectAt_addNames_sibling _ hq _), rfl⟩
    · exact absurd (halive.symm.trans hyes) Bool.false_ne_true
    · change Cache.isInCache _ _ = true
      rw [Cache.isInCache, find_eq]
      exact congrArg Option.isSome hself
    · change Cache.getAttribute _ _ _ = Cache.getAttribute _ _ _
      rw [getAttribute_eq_getD, getAttribute_eq_getD, hself, Option.getD_some]
      unfold ObjectData.asNew
      rw [SortedMap.get?_put, if_neg ha]

end Views

/-! ## The loops -/

namespace InstanceView

def afterSets (value : StructValue) (v : InstanceView) : InstanceView :=
  value.foldl (fun v m => v.afterSet m.1 m.2) v

theorem afterSets_deleted (value : StructValue) (v : InstanceView) : (v.afterSets value).deleted = v.deleted := by
  unfold afterSets
  induction value generalizing v with
  | nil => rfl
  | cons m value ih => exact ih _

theorem afterSets_inCache {value : StructValue} {v : InstanceView} (h : v.inCache = true) :
    (v.afterSets value).inCache = true := by
  unfold afterSets
  induction value generalizing v with
  | nil => exact h
  | cons m value ih => exact ih rfl

theorem afterSets_left {value : StructValue} {m : String} (hm : m ∉ value.map Prod.fst) (v : InstanceView) :
    (v.afterSets value).attributes m = v.attributes m := by
  unfold afterSets
  induction value generalizing v with
  | nil => rfl
  | cons x value ih =>
    rw [List.map_cons, List.mem_cons, not_or] at hm
    rw [List.foldl_cons, ih hm.2]
    exact if_neg hm.1

theorem afterSets_set {value : StructValue} (hnodup : (value.map Prod.fst).Nodup) {m : String}
    {ctp : MoAttributeValueContainer} (hm : (m, ctp) ∈ value) (v : InstanceView) :
    (v.afterSets value).attributes m = some ctp.read := by
  induction value generalizing v with
  | nil => exact absurd hm List.not_mem_nil
  | cons x value ih =>
    rw [List.map_cons, List.nodup_cons] at hnodup
    rcases List.mem_cons.mp hm with heq | hm
    · subst heq
      change ((v.afterSet m ctp).afterSets value).attributes m = _
      rw [afterSets_left hnodup.1]
      exact if_pos rfl
    · exact ih hnodup.2 hm _

/-- An instance before and after its value is written. It is kept when it is not created first. -/
structure Written (key : String) (kept : Prop) (value : StructValue) (v v' : InstanceView) : Prop where
  alive : (kept → v.deleted = false) → v'.deleted = false
  stays : kept → v.inCache = true → v'.inCache = true
  new : ¬ kept → v.deleted = false → v'.inCache = true
  set : ∀ m ctp, (m, ctp) ∈ value → v'.attributes m = some ctp.read
  left : ∀ m, m ∉ value.map Prod.fst → m ≠ key → v'.attributes m = v.attributes m

end InstanceView

section Loops
variable {env : StructEnv} {dn attributeName attributeTypeName : String} {c c' : Cache}

def instanceDn (dn attributeTypeName id : String) : List String :=
  splitDn dn ++ [uniqueId attributeTypeName id]

theorem deleteInstances_view (hnames : StructNames attributeName attributeTypeName) {ids names names' : List String}
    (hplain : ∀ id ∈ ids, PlainId id) (hnodup : ids.Nodup)
    (halive : ∀ id ∈ ids, (c.view (instanceDn dn attributeTypeName id)).deleted = false)
    (h : deleteInstances env (ids.map (ecimStructDn dn attributeTypeName)) names c = some (.ok, names', c')) :
    (∀ id, c'.view (instanceDn dn attributeTypeName id) =
      if id ∈ ids then (c.view (instanceDn dn attributeTypeName id)).afterDelete
      else c.view (instanceDn dn attributeTypeName id)) ∧
    c'.isDeleted (splitDn dn) = c.isDeleted (splitDn dn) ∧ ∀ id, id ∈ names' ↔ id ∈ names ∧ id ∉ ids := by
  induction ids generalizing names c with
  | nil =>
    cases h
    exact ⟨fun id => (if_neg List.not_mem_nil).symm, rfl, fun id => by simp⟩
  | cons id ids ih =>
    have hid := hplain id List.mem_cons_self
    rw [List.nodup_cons] at hnodup
    rw [List.map_cons, deleteInstances, hnames.splitDn_ecimStructDn hid, idOf_ecimStructDn hid] at h
    cases hdelete : deleteImmMo env.tr (splitDn dn ++ [uniqueId attributeTypeName id]) c with
    | none =>
      rw [hdelete] at h
      cases h
    | some r =>
      obtain ⟨ret, c₁⟩ := r
      rw [hdelete] at h
      cases ret with
      | ok =>
        obtain ⟨hself, hothers, hbase⟩ := deleteImmMo_view (splitDn_ne_nil dn)
          (halive id List.mem_cons_self) hdelete
        have hsame {x : String} (hx : x ≠ id) :
            c₁.view (instanceDn dn attributeTypeName x) = c.view (instanceDn dn attributeTypeName x) :=
          hothers _ fun heq => hx (uniqueId_injective heq)
        obtain ⟨hview, hdn, hmem⟩ := ih (fun x hx => hplain x (List.mem_cons_of_mem _ hx)) hnodup.2
          (fun x hx => by
            rw [hsame (ne_of_mem_of_not_mem hx hnodup.1)]
            exact halive x (List.mem_cons_of_mem _ hx)) h
        refine ⟨fun x => ?_, hdn.trans hbase, fun x => ?_⟩
        · rw [hview]
          by_cases hx : x = id
          · subst hx
            rw [if_neg hnodup.1, if_pos List.mem_cons_self]
            exact hself
          · rw [hsame hx]
            simp only [List.mem_cons, hx, false_or]
        · rw [hmem, List.mem_filter, List.mem_cons, not_or, decide_eq_true_iff, and_assoc]
      | _ => cases h

theorem setMembers_view {id : String} {value : StructValue}
    (h : setMembers env (instanceDn dn attributeTypeName id) value c = (.ok, c')) :
    c'.view (instanceDn dn attributeTypeName id) = (c.view (instanceDn dn attributeTypeName id)).afterSets value ∧
    (∀ x, x ≠ id → c'.view (instanceDn dn attributeTypeName x) = c.view (instanceDn dn attributeTypeName x)) ∧
    c'.isDeleted (splitDn dn) = c.isDeleted (splitDn dn) := by
  induction value generalizing c with
  | nil =>
    cases h
    exact ⟨rfl, fun x _ => rfl, rfl⟩
  | cons m value ih =>
    obtain ⟨memberName, memberValue⟩ := m
    rw [setMembers] at h
    cases hset : setImmMoAttribute env.tr (instanceDn dn attributeTypeName id) memberName memberValue c with
    | mk ret c₁ =>
      rw [hset] at h
      cases ret with
      | ok =>
        obtain ⟨hself, hothers, hbase⟩ := setImmMoAttribute_view hset
        obtain ⟨hview, hviews, hdn⟩ := ih h
        refine ⟨?_, fun x hx => ?_, hdn.trans hbase⟩
        · rw [hview]
          exact congrArg (InstanceView.afterSets value) hself
        · rw [hviews x hx]
          exact hothers _ fun heq => hx (uniqueId_injective heq)
      | _ => cases h

def instanceKey (env : StructEnv) (dn attributeTypeName : String) : String :=
  env.tr.getImmKeyAttribute (splitDn dn) (upperFirst attributeTypeName) "id"

theorem createInstance_view (hnames : StructNames attributeName attributeTypeName) {id : String}
    (hid : PlainId id) (hbase : c.isDeleted (splitDn dn) = false)
    (h : createImmMo env.tr (createInstance dn attributeTypeName id) c = (.ok, c')) :
    (c.view (instanceDn dn attributeTypeName id)).Created (instanceKey env dn attributeTypeName)
      (c'.view (instanceDn dn attributeTypeName id)) ∧
    (∀ x, x ≠ id → c'.view (instanceDn dn attributeTypeName x) = c.view (instanceDn dn attributeTypeName x)) ∧
    c'.isDeleted (splitDn dn) = c.isDeleted (splitDn dn) := by
  obtain ⟨hself, hothers, hdn⟩ := createImmMo_view (hnames.createInstance_dn hid dn) rfl hbase h
  have hkey : (createInstance dn attributeTypeName id).immKey env.tr = instanceKey env dn attributeTypeName := by
    rw [CreateCall.immKey, hnames.keyAttributeName]
    rfl
  rw [hkey] at hself
  exact ⟨hself, fun x hx => hothers _ fun heq => hx (uniqueId_injective heq), hdn⟩

theorem writeInstance_view (hnames : StructNames attributeName attributeTypeName) {id : String} (hid : PlainId id)
    {names : List String} {value : StructValue} (hnodup : (value.map Prod.fst).Nodup)
    (hbase : c.isDeleted (splitDn dn) = false) {c₁ : Cache}
    (hcreated : id ∈ names ∧ c₁ = c ∨
      id ∉ names ∧ createImmMo env.tr (createInstance dn attributeTypeName id) c = (.ok, c₁))
    (hset : setMembers env (instanceDn dn attributeTypeName id) value c₁ = (.ok, c')) :
    InstanceView.Written (instanceKey env dn attributeTypeName) (id ∈ names) value
      (c.view (instanceDn dn attributeTypeName id)) (c'.view (instanceDn dn attributeTypeName id)) ∧
    (∀ x, x ≠ id → c'.view (instanceDn dn attributeTypeName x) = c.view (instanceDn dn attributeTypeName x)) ∧
    c'.isDeleted (splitDn dn) = c.isDeleted (splitDn dn) := by
  obtain ⟨hself, hothers, hdn⟩ := setMembers_view hset
  rcases hcreated with ⟨hmem, rfl⟩ | ⟨hmem, hcreate⟩
  · refine ⟨?_, hothers, hdn⟩
    rw [hself]
    constructor
    · intro halive
      rw [InstanceView.afterSets_deleted]
      exact halive hmem
    · exact fun _ hin => InstanceView.afterSets_inCache hin
    · exact fun hnot => absurd hmem hnot
    · exact fun m ctp hm => InstanceView.afterSets_set hnodup hm _
    · exact fun m hm _ => InstanceView.afterSets_left hm _
  · obtain ⟨hnew, hothers', hdn'⟩ := createInstance_view hnames hid hbase hcreate
    refine ⟨?_, fun x hx => (hothers x hx).trans (hothers' x hx), hdn.trans hdn'⟩
    rw [hself]
    constructor
    · intro _
      rw [InstanceView.afterSets_deleted]
      exact hnew.alive
    · exact fun hyes => absurd hyes hmem
    · exact fun _ halive => InstanceView.afterSets_inCache (hnew.new halive)
    · exact fun m ctp hm => InstanceView.afterSets_set hnodup hm _
    · intro m hm hkey
      rw [InstanceView.afterSets_left hm]
      exact hnew.attributes m hkey

theorem createInstance_result {id : String} :
    (createImmMo env.tr (createInstance dn attributeTypeName id) c).1 ≠ .alreadyExist := by
  unfold createImmMo
  split
  · exact fun h => nomatch h
  · split
    · exact fun h => nomatch h
    · exact fun h => nomatch h

theorem writeInstances_cons {names : List String} {ix : Nat} {value : StructValue} {values : List StructValue}
    (h : writeInstances env dn attributeName attributeTypeName names ix (value :: values) c = (.ok, c')) :
    ∃ c₁ c₂, (instanceId attributeName ix ∈ names ∧ c₁ = c ∨ instanceId attributeName ix ∉ names ∧
        createImmMo env.tr (createInstance dn attributeTypeName (instanceId attributeName ix)) c = (.ok, c₁)) ∧
      setMembers env (splitDn (ecimStructDn dn attributeTypeName (instanceId attributeName ix))) value c₁ =
        (.ok, c₂) ∧
      writeInstances env dn attributeName attributeTypeName names (ix + 1) values c₂ = (.ok, c') := by
  rw [writeInstances] at h
  by_cases hmem : instanceId attributeName ix ∈ names
  · rw [if_pos hmem] at h
    dsimp only at h
    cases hset : setMembers env (splitDn (ecimStructDn dn attributeTypeName (instanceId attributeName ix)))
      value c with
    | mk ret c₂ =>
      rw [hset] at h
      cases ret with
      | ok => exact ⟨c, c₂, Or.inl ⟨hmem, rfl⟩, hset, h⟩
      | _ => cases h
  · rw [if_neg hmem] at h
    have hresult : (createImmMo env.tr (createInstance dn attributeTypeName (instanceId attributeName ix)) c).1 ≠
      .alreadyExist := createInstance_result
    cases hcreate : createImmMo env.tr (createInstance dn attributeTypeName (instanceId attributeName ix)) c with
    | mk ret c₁ =>
      rw [hcreate] at h hresult
      cases ret with
      | ok =>
        dsimp only at h
        cases hset : setMembers env (splitDn (ecimStructDn dn attributeTypeName (instanceId attributeName ix)))
          value c₁ with
        | mk ret c₂ =>
          rw [hset] at h
          cases ret with
          | ok => exact ⟨c₁, c₂, Or.inr ⟨hmem, rfl⟩, hset, h⟩
          | _ => cases h
      | alreadyExist => exact absurd rfl hresult
      | _ => cases h

/-- By induction on the values: each instance is written, and the others are as they were. -/
theorem writeInstances_view (hnames : StructNames attributeName attributeTypeName) {names : List String} {ix : Nat}
    {values : List StructValue} (hnodup : ∀ value ∈ values, (value.map Prod.fst).Nodup)
    (hbase : c.isDeleted (splitDn dn) = false)
    (h : writeInstances env dn attributeName attributeTypeName names ix values c = (.ok, c')) :
    (∀ j (hj : j < values.length),
      InstanceView.Written (instanceKey env dn attributeTypeName) (instanceId attributeName (ix + j) ∈ names)
        (values.get ⟨j, hj⟩) (c.view (instanceDn dn attributeTypeName (instanceId attributeName (ix + j))))
        (c'.view (instanceDn dn attributeTypeName (instanceId attributeName (ix + j))))) ∧
    (∀ x, (∀ j < values.length, x ≠ instanceId attributeName (ix + j)) →
      c'.view (instanceDn dn attributeTypeName x) = c.view (instanceDn dn attributeTypeName x)) ∧
    c'.isDeleted (splitDn dn) = c.isDeleted (splitDn dn) := by
  induction values generalizing ix c with
  | nil =>
    cases h
    exact ⟨fun j hj => absurd hj (Nat.not_lt_zero j), fun x _ => rfl, rfl⟩
  | cons value values ih =>
    obtain ⟨c₁, c₂, hcreated, hset, hgo⟩ := writeInstances_cons h
    rw [hnames.splitDn_ecimStructDn (hnames.plainId ix)] at hset
    obtain ⟨hfirst, hothers, hdn⟩ := writeInstance_view hnames (hnames.plainId ix)
      (hnodup value List.mem_cons_self) hbase hcreated hset
    obtain ⟨hrest, hviews, hdn'⟩ := ih (fun v hv => hnodup v (List.mem_cons_of_mem _ hv)) (hdn.trans hbase) hgo
    have hlater (j : Nat) : ix + 1 + j = ix + (j + 1) := by omega
    refine ⟨fun j hj => ?_, fun x hx => ?_, hdn'.trans hdn⟩
    · cases j with
      | zero =>
        have hsame := hviews (instanceId attributeName (ix + 0)) fun j _ heq => by
          have := instanceId_injective heq
          omega
        rw [hsame]
        exact hfirst
      | succ j =>
        have hj' : j < values.length := by simpa using hj
        have hwritten := hrest j hj'
        have hsame := hothers (instanceId attributeName (ix + (j + 1))) fun heq => by
          have := instanceId_injective heq
          omega
        rw [hlater, hsame] at hwritten
        exact hwritten
    · rw [hviews x fun j hj => ?_, hothers x ?_]
      · exact hx 0 (Nat.succ_pos _)
      · rw [hlater]
        exact hx (j + 1) (Nat.succ_lt_succ hj)

theorem updateReferences_view {refs : List String} (h : updateReferences env dn attributeName refs c = (.ok, c')) :
    c.isDeleted (splitDn dn) = false ∧
    c'.getAttribute (splitDn dn) attributeName = some ⟨some .reference, refs.map .text⟩ ∧
    (∀ x, c'.view (instanceDn dn attributeTypeName x) = c.view (instanceDn dn attributeTypeName x)) ∧
    c'.isDeleted (splitDn dn) = c.isDeleted (splitDn dn) := by
  unfold updateReferences Cache.updateObjectAttribute at h
  cases hdeleted : c.isDeleted (splitDn dn) with
  | true =>
    rw [hdeleted] at h
    cases h
  | false =>
    rw [hdeleted] at h
    cases h
    refine ⟨rfl, ?_, fun x => view_eq rfl ?_, hdeleted⟩
    · have hread := getAttribute_insert ⟨splitDn dn, splitDn_ne_nil dn⟩ (env.tr.mo2ImmDn (splitDn dn)) attributeName
        ⟨.reference, refs.map .text⟩ c (splitDn dn) attributeName
      rw [if_pos ⟨rfl, rfl⟩, read_eq_written_iff.mpr (by simp)] at hread
      exact hread
    · unfold ModifiedObjects.insert
      have hpre : ¬ instanceDn dn attributeTypeName x <+: splitDn dn := above_not_isPrefix
      have hne : instanceDn dn attributeTypeName x ≠ splitDn dn := by
        intro heq
        rw [heq] at hpre
        exact hpre List.prefix_rfl
      rw [objectAt_addNames, if_neg hne, if_neg hpre]

end Loops

end ComSA
