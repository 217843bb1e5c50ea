import ComSA.Motransaction.Calls
import ComSA.Motransaction.CreationOrder
import ComSA.Motransaction.EmptiedAttributes

/-!
# Emptied attributes are written once

What a transaction has written to an attribute tells whether it was emptied, and the list that is
prepared for IMM should say so once.
-/

namespace ComSA

open ModifiedObjects

/-! ## What was written -/

structure AttributeName where
  text : String
  nonempty : text ≠ ""

/-- The calls on the cache of a transaction, with the IMM names that the bridge passes on. -/
inductive CacheCall where
  | insertCreatedObject (dn : Dn) (className : String) (parentName : List String)
      (attributeName : AttributeName) (attributeValue : String)
  | updateObjectAttribute (dn : Dn) (attributeName : AttributeName) (v : MoAttributeValueContainer)
  | removeCreatedObject (dn : Dn)

namespace CacheCall

def toModified (tr : Translator) : CacheCall → ModifiedCall
  | insertCreatedObject dn className parentName attributeName attributeValue =>
    .insertNewObject dn "" className parentName attributeName.text
      ⟨.string, [.text (buildAttributeValue attributeName.text attributeValue)]⟩
  | updateObjectAttribute dn attributeName v => .insert dn (tr.mo2ImmDn dn.parts) attributeName.text v
  | removeCreatedObject dn => .removeObject dn

/-- The values that an attribute of an object got one after the other, since the object was last removed. -/
def written (p : List String) (name : String) (values : List (List MoValue)) : CacheCall → List (List MoValue)
  | insertCreatedObject dn _ _ attributeName attributeValue =>
    if dn.parts = p ∧ attributeName.text = name then
      values ++ [[.text (buildAttributeValue attributeName.text attributeValue)]]
    else values
  | updateObjectAttribute dn attributeName v =>
    if dn.parts = p ∧ attributeName.text = name then values ++ [v.values] else values
  | removeCreatedObject dn => if dn.parts <+: p then [] else values

end CacheCall

def writtenTo (calls : List CacheCall) (p : List String) (name : String) : List (List MoValue) :=
  calls.foldl (fun values c => c.written p name values) []

def Emptied (values : List (List MoValue)) : Prop := (∃ v ∈ values, v ≠ []) ∧ values.getLast? = some []

def EmptiedLast (values : List (List MoValue)) : Prop := ∃ before v, values = before ++ [v, []] ∧ v ≠ []

/-! ## What is to be in the list -/

def modificationsOf (immName : String) (final : List CcbOp) : AttrValues :=
  final.flatMap fun op =>
    match op with
    | .modify objectName attrMods => if objectName = immName then attrMods else []
    | _ => []

def keyOf (tr : Translator) (x : ObjectOf) : String := keyAttributeName (tr.mo2ImmDn x.name)

structure WrittenOnce (tr : Translator) (calls : List CacheCall) (root : ModifiedEntry) (final : List CcbOp) :
    Prop where
  /-- An emptied attribute of a created object is replaced by no values, once. -/
  once : ∀ x ∈ getCreatedData root, ∀ name ≠ keyOf tr x, Emptied (writtenTo calls x.name name) →
    (modificationsOf (tr.mo2ImmDn x.name) final).filter (·.1 = name) = [(name, [])]
  /-- The key attribute and attributes that were never emptied are not in the list. -/
  only : ∀ x ∈ getCreatedData root, ∀ m ∈ modificationsOf (tr.mo2ImmDn x.name) final,
    m.1 ≠ keyOf tr x ∧ [] ∈ writtenTo calls x.name m.1
  altered : (getModifiedData root).map modifyOp <:+ final

section
variable {tr : Translator}

/-! ## Records of an attribute -/

/-- What is kept for an attribute, after some values were written. -/
structure Records (values : List (List MoValue)) (c : Option DataContainer) : Prop where
  none_iff : c = none ↔ values = []
  last : ∀ c', c = some c' → ∃ before, values = before ++ [c'.data.map Prod.snd] ∧
    (c'.data = [] → (c'.hasDefaultValue = true ↔ ∃ v ∈ before.getLast?, v ≠ []))

theorem Records.nil : Records [] none := ⟨⟨fun _ => rfl, fun _ => rfl⟩, nofun⟩

theorem Records.written {values : List (List MoValue)} {c : Option DataContainer} (h : Records values c)
    (v : MoAttributeValueContainer) : Records (values ++ [v.values]) (some (ObjectData.alteredContainer v c)) := by
  refine ⟨by simp, fun c' hc' => ⟨values, ?_, fun hdata => ?_⟩⟩
  · obtain rfl := Option.some.inj hc'
    rw [alteredContainer_values]
  · obtain rfl := Option.some.inj hc'
    have hempty : v.values = [] := by
      rw [← alteredContainer_values v c, hdata]
      rfl
    rw [ObjectData.alteredContainer, if_pos hempty]
    cases c with
    | none =>
      rw [h.none_iff.mp rfl]
      simp
    | some c =>
      obtain ⟨before, hvalues, -⟩ := h.last c rfl
      rw [hvalues, List.getLast?_concat]
      simp

theorem records_created (values : List (List MoValue)) (c : Option DataContainer) {v : MoAttributeValueContainer}
    (hv : v.values ≠ []) : Records (values ++ [v.values]) (some { c.getD {} with data := createData v }) := by
  refine ⟨by simp, fun c' hc' => ⟨values, ?_, fun hdata => ?_⟩⟩
  · obtain rfl := Option.some.inj hc'
    rw [createData_values]
  · obtain rfl := Option.some.inj hc'
    refine absurd ?_ hv
    rw [← createData_values, show createData v = [] from hdata]
    rfl

theorem Records.emptiedLast_iff {values : List (List MoValue)} {c : DataContainer} (h : Records values (some c)) :
    EmptiedLast values ↔ c.data = [] ∧ c.hasDefaultValue = true := by
  obtain ⟨before, rfl, hflag⟩ := h.last c rfl
  constructor
  · rintro ⟨before', v, hsplit, hv⟩
    rw [List.append_cons before' v [[]]] at hsplit
    obtain ⟨rfl, hlast⟩ := List.append_inj' hsplit rfl
    have hdata : c.data = [] := by simpa using hlast
    exact ⟨hdata, (hflag hdata).mpr ⟨v, by simp, hv⟩⟩
  · rintro ⟨hdata, hset⟩
    obtain ⟨v, hv, hne⟩ := (hflag hdata).mp hset
    refine ⟨before.dropLast, v, ?_, hne⟩
    rw [hdata, List.map_nil, List.append_cons before.dropLast v [[]], List.dropLast_append_getLast? v hv]

theorem EmptiedLast.emptied {values : List (List MoValue)} (h : EmptiedLast values) : Emptied values := by
  obtain ⟨before, v, rfl, hv⟩ := h
  exact ⟨⟨v, by simp, hv⟩, by simp⟩

/-! ## The tree after some calls -/

def heldAt (p : List String) (root : ModifiedEntry) : ObjectData := (objectAt p root).getD {}

theorem heldAt_of_some {p : List String} {root : ModifiedEntry} {o : ObjectData} (h : objectAt p root = some o) :
    heldAt p root = o := by
  rw [heldAt, h, Option.getD_some]

theorem heldAt_addNames (f : ObjectData → ObjectData) (p q : List String) (root : ModifiedEntry) :
    heldAt q (addNames f p root) = if q = p then f (heldAt p root) else heldAt q root := by
  rw [heldAt, objectAt_addNames]
  split
  · rfl
  · split <;> rfl

theorem heldAt_removed {root after : ModifiedEntry} {dn : Dn}
    (h : (ModifiedCall.removeObject dn).run root = some after) (q : List String) :
    heldAt q after = if dn.parts <+: q then {} else heldAt q root := by
  unfold ModifiedCall.run at h
  obtain ⟨⟨wasNew, after'⟩, hremove, rfl⟩ := Option.map_eq_some_iff.mp h
  obtain ⟨ho, _, rfl⟩ | ⟨above, last, o, _, hparts, ho, _, rfl⟩ := removeObject_cases dn.nonempty hremove
  · split
    case isTrue hq => rw [heldAt, objectAt_none_of_isPrefix hq ho, Option.getD_none]
    case isFalse => rfl
  · rw [hparts] at ho ⊢
    rw [heldAt, objectAt_dropName above last ho]
    split <;> rfl

/-- What holds of an object after some calls, and for what they have written to it. -/
structure ObjectWritten (tr : Translator) (p : List String) (values : String → List (List MoValue))
    (o : ObjectData) :
    Prop where
  sorted : SortedMap.Sorted o.attributes
  named : o.immName = "" ∨ o.immName = tr.mo2ImmDn p
  altered : o.isModifiedObject = true → o.immName = tr.mo2ImmDn p
  records : ∀ name, Records (values name) (SortedMap.get? name o.attributes)

theorem objectWritten_empty (p : List String) : ObjectWritten tr p (fun _ => []) {} :=
  ⟨List.Pairwise.nil, Or.inl rfl, nofun, fun _ => Records.nil⟩

theorem ObjectWritten.insertCreatedObject {p : List String} {values : String → List (List MoValue)} {o : ObjectData}
    (h : ObjectWritten tr p values o) (className : String) (parentName : List String) (key : String)
    {v : MoAttributeValueContainer} (hv : v.values ≠ []) :
    ObjectWritten tr p (fun name => if key = name then values name ++ [v.values] else values name)
      (o.asNew "" className parentName key v) := by
  refine ⟨SortedMap.sorted_put h.sorted _ _, Or.inl rfl, fun hmod => ?_, fun name => ?_⟩
  · have hnew := isNewObject_asNew "" className parentName key v o
    exact absurd (not_isModifiedObject_of_new hnew) (by rw [hmod]; nofun)
  · rw [ObjectData.asNew, SortedMap.get?_put]
    by_cases hname : name = key
    · subst hname
      rw [if_pos rfl, if_pos rfl]
      exact records_created _ _ hv
    · rw [if_neg hname, if_neg (Ne.symm hname)]
      exact h.records name

theorem ObjectWritten.updateObjectAttribute {p : List String} {values : String → List (List MoValue)}
    {o : ObjectData}
    (h : ObjectWritten tr p values o) (attributeName : String) (v : MoAttributeValueContainer) :
    ObjectWritten tr p (fun name => if attributeName = name then values name ++ [v.values] else values name)
      (o.asAltered (tr.mo2ImmDn p) attributeName v) := by
  refine ⟨SortedMap.sorted_put h.sorted _ _, Or.inr rfl, fun _ => rfl, fun name => ?_⟩
  rw [asAltered_attributes, SortedMap.get?_put]
  by_cases hname : name = attributeName
  · subst hname
    rw [if_pos rfl, if_pos rfl]
    exact (h.records name).written v
  · rw [if_neg hname, if_neg (Ne.symm hname)]
    exact h.records name

theorem written_step {root after : ModifiedEntry} {values : List String → String → List (List MoValue)}
    (h : ∀ p, ObjectWritten tr p (values p) (heldAt p root)) (c : CacheCall)
    (hrun : (c.toModified tr).run root = some after) (p : List String) :
    ObjectWritten tr p (fun name => c.written p name (values p name)) (heldAt p after) := by
  cases c with
  | insertCreatedObject dn className parentName key value =>
    obtain rfl := Option.some.inj hrun
    rw [ModifiedObjects.insertNewObject, heldAt_addNames]
    by_cases hp : p = dn.parts
    · subst hp
      simp only [CacheCall.written, true_and, if_true]
      have hvalue : (⟨.string, [.text (buildAttributeValue key.text value)]⟩ :
        MoAttributeValueContainer).values ≠ [] :=
        List.cons_ne_nil _ _
      exact (h dn.parts).insertCreatedObject className parentName key.text hvalue
    · simp only [CacheCall.written, Ne.symm hp, false_and, hp, if_false]
      exact h p
  | updateObjectAttribute dn attributeName v =>
    obtain rfl := Option.some.inj hrun
    rw [ModifiedObjects.insert, heldAt_addNames]
    by_cases hp : p = dn.parts
    · subst hp
      simp only [CacheCall.written, true_and, if_true]
      exact (h dn.parts).updateObjectAttribute attributeName.text v
    · simp only [CacheCall.written, Ne.symm hp, false_and, hp, if_false]
      exact h p
  | removeCreatedObject dn =>
    rw [heldAt_removed hrun]
    by_cases hp : dn.parts <+: p
    · simp only [CacheCall.written, hp, if_true]
      exact objectWritten_empty p
    · simp only [CacheCall.written, hp, if_false]
      exact h p

theorem written_of_calls {calls : List CacheCall} {root : ModifiedEntry}
    (hcalls : (calls.map (CacheCall.toModified tr)).foldlM ModifiedCall.run emptyTree = some root)
    (p : List String) :
    ObjectWritten tr p (writtenTo calls p) (heldAt p root) := by
  have hrun : ∀ (before : ModifiedEntry) (values : List String → String → List (List MoValue)),
      (∀ p, ObjectWritten tr p (values p) (heldAt p before)) →
      (calls.map (CacheCall.toModified tr)).foldlM ModifiedCall.run before = some root →
      ObjectWritten tr p (fun name => calls.foldl (fun values c => c.written p name values) (values p name))
        (heldAt p root) := by
    clear hcalls
    induction calls with
    | nil =>
      intro before values h hcalls
      obtain rfl := Option.some.inj hcalls
      exact h p
    | cons c calls ih =>
      intro before values h hcalls
      obtain ⟨after, hstep, hrest⟩ := Option.bind_eq_some_iff.mp (by simpa using hcalls)
      exact ih after (fun p name => c.written p name (values p name)) (written_step h c hstep) hrest
  have hempty : ∀ p, heldAt p emptyTree = {} := objectAt_empty_getD
  exact hrun emptyTree (fun _ _ => []) (fun p => hempty p ▸ objectWritten_empty p) hcalls

theorem writtenTo_empty (calls : List CacheCall) (p : List String) : writtenTo calls p "" = [] := by
  have hstep : ∀ c : CacheCall, c.written p "" [] = [] := by
    intro c
    cases c with
    | insertCreatedObject dn className parentName name value => simp [CacheCall.written, name.nonempty]
    | updateObjectAttribute dn name v => simp [CacheCall.written, name.nonempty]
    | removeCreatedObject dn => simp [CacheCall.written]
  unfold writtenTo
  induction calls with
  | nil => rfl
  | cons c calls ih => rw [List.foldl_cons, hstep, ih]

/-! ## The copied attributes -/

theorem ObjectWritten.mem_unset_iff {p : List String} {values : String → List (List MoValue)} {o : ObjectData}
    (h : ObjectWritten tr p values o) (name : String) :
    (∃ c, (name, c) ∈ unsetAttributes o) ↔
      keyAttributeName o.immName ≠ "id" ∧ values (keyAttributeName o.immName) ≠ [] ∧
        name ≠ keyAttributeName o.immName ∧ EmptiedLast (values name) := by
  have hkey : keyAttributeName o.immName ∉ o.attributes.map Prod.fst ↔
      values (keyAttributeName o.immName) = [] := by
    rw [← SortedMap.get?_eq_none_iff, (h.records _).none_iff]
  have hrecords := h.records name
  unfold unsetAttributes
  dsimp only
  split
  case isTrue hskip =>
    rw [hkey] at hskip
    refine ⟨nofun, fun ⟨hid, hvalues, _⟩ => absurd hskip ?_⟩
    rw [not_or]
    exact ⟨hid, hvalues⟩
  case isFalse hcopy =>
    rw [hkey, not_or] at hcopy
    rw [and_iff_right hcopy.1, and_iff_right hcopy.2]
    constructor
    · rintro ⟨c, hmem⟩
      obtain ⟨hmem, hkeep⟩ := List.mem_filter.mp hmem
      obtain ⟨hne, hdata, hflag⟩ := of_decide_eq_true hkeep
      rw [SortedMap.get?_of_mem h.sorted hmem] at hrecords
      exact ⟨hne, hrecords.emptiedLast_iff.mpr ⟨hdata, hflag⟩⟩
    · rintro ⟨hne, hlast⟩
      cases hget : SortedMap.get? name o.attributes with
      | none =>
        obtain ⟨before, v, hvalues, _⟩ := hlast
        rw [hrecords.none_iff.mp hget] at hvalues
        exact absurd hvalues.symm (by simp)
      | some c =>
        rw [hget] at hrecords
        refine ⟨c, List.mem_filter.mpr ⟨SortedMap.mem_of_get? hget, decide_eq_true ?_⟩⟩
        exact ⟨hne, hrecords.emptiedLast_iff.mp hlast⟩

theorem sorted_unsetAttributes {o : ObjectData} (h : SortedMap.Sorted o.attributes) :
    SortedMap.Sorted (unsetAttributes o) := by
  unfold unsetAttributes
  dsimp only
  split
  · exact List.Pairwise.nil
  · exact h.filter _

theorem data_of_mem_unset {o : ObjectData} {name : String} {c : DataContainer} (h : (name, c) ∈ unsetAttributes o) :
    c.data = [] := by
  unfold unsetAttributes at h
  dsimp only at h
  split at h
  · cases h
  · exact (of_decide_eq_true (List.mem_filter.mp h).2).2.1

/-! ## The modifications of one object -/

theorem modificationsOf_append (immName : String) (l l' : List CcbOp) :
    modificationsOf immName (l ++ l') = modificationsOf immName l ++ modificationsOf immName l' :=
  List.flatMap_append

theorem modificationsOf_prepare (immName : String) (creObj : List ObjectOf) :
    modificationsOf immName (prepareListOfModifiedObjects creObj) = creObj.flatMap fun y =>
      if y.object.immName = immName then attrValues (unsetAttributes y.object) else [] := by
  induction creObj with
  | nil => rfl
  | cons y rest ih =>
    rw [List.flatMap_cons, ← ih, prepareListOfModifiedObjects, List.filter_cons]
    by_cases hunset : unsetAttributes y.object = []
    · rw [if_neg (by simpa using hunset), hunset]
      simp [attrValues, prepareListOfModifiedObjects]
    · rw [if_pos (by simpa using hunset)]
      rfl

theorem modificationsOf_altered (immName : String) (objects : List ObjectOf) :
    modificationsOf immName (objects.map modifyOp) = objects.flatMap fun y =>
      if y.object.immName = immName then attrValues y.object.attributes else [] := by
  rw [modificationsOf, List.flatMap_map]
  rfl

theorem flatMap_of_only {α β : Type*} {l : List α} (hl : l.Nodup) {f : α → List β} {x : α} (hx : x ∈ l)
    (hother : ∀ y ∈ l, y ≠ x → f y = []) : l.flatMap f = f x := by
  obtain ⟨front, back, rfl⟩ := List.append_of_mem hx
  obtain ⟨-, hback, hdisjoint⟩ := List.nodup_append.mp hl
  have hfront : front.flatMap f = [] := List.flatMap_eq_nil_iff.mpr fun y hy =>
    hother y (List.mem_append_left _ hy) (hdisjoint y hy x List.mem_cons_self)
  have hrest : back.flatMap f = [] := List.flatMap_eq_nil_iff.mpr fun y hy =>
    hother y (List.mem_append_right _ (List.mem_cons_of_mem x hy)) fun heq =>
      (List.nodup_cons.mp hback).1 (heq ▸ hy)
  rw [List.flatMap_append, List.flatMap_cons, hfront, hrest, List.nil_append, List.append_nil]

section
variable {q : StructQuestions} {calls : List CacheCall} {root : ModifiedEntry}
  (hcalls : (calls.map (CacheCall.toModified tr)).foldlM ModifiedCall.run emptyTree = some root)
include hcalls

theorem written_of_created {x : ObjectOf} (hx : x ∈ getCreatedData root) :
    ObjectWritten tr x.name (writtenTo calls x.name) x.object := by
  have hat := ((listsRight hcalls).created x).mp hx
  rw [← heldAt_of_some hat.1]
  exact written_of_calls hcalls x.name

theorem immName_of_altered {y : ObjectOf} (hy : y ∈ getModifiedData root) :
    y.object.immName = tr.mo2ImmDn y.name := by
  have hat := ((listsRight hcalls).modified y).mp hy
  rw [← heldAt_of_some hat.1]
  refine (written_of_calls hcalls y.name).altered ?_
  rw [heldAt_of_some hat.1]
  exact hat.2

theorem finalModifiedObjects_of_calls : finalModifiedObjects q root =
    prepareListOfModifiedObjects (getCreatedData root) ++ (getModifiedData root).map modifyOp :=
  finalModifiedObjects_eq fun _ hx => (written_of_created hcalls hx).sorted

theorem modificationsOf_created (hinj : Function.Injective tr.mo2ImmDn) (hne : ∀ p, tr.mo2ImmDn p ≠ "")
    {x : ObjectOf} (hx : x ∈ getCreatedData root) :
    modificationsOf (tr.mo2ImmDn x.name) (finalModifiedObjects q root) =
      if x.object.immName = tr.mo2ImmDn x.name then attrValues (unsetAttributes x.object) else [] := by
  have hlists := listsRight hcalls
  rw [finalModifiedObjects_of_calls hcalls, modificationsOf_append, modificationsOf_prepare,
    modificationsOf_altered]
  have haltered : ((getModifiedData root).flatMap fun y =>
      if y.object.immName = tr.mo2ImmDn x.name then attrValues y.object.attributes else []) = [] := by
    refine List.flatMap_eq_nil_iff.mpr fun y hy => if_neg fun hname => ?_
    rw [immName_of_altered hcalls hy] at hname
    exact hlists.apart x hx y hy (hinj hname).symm
  rw [haltered, List.append_nil]
  refine flatMap_of_only hlists.createdOnce.of_map hx fun y hy hyx => if_neg fun hname => hyx ?_
  rcases (written_of_created hcalls hy).named with hnone | hnamed
  · exact absurd (hname.symm.trans hnone) (hne x.name)
  · exact List.inj_on_of_nodup_map hlists.createdOnce hy hx (hinj (hnamed.symm.trans hname))

/-! ## The whole list -/

/-- The emptied attributes that reach the list: those of an object that is no struct, whose key is written and
whose IMM name is known, where the values were taken away by the last write. -/
def Reaches (tr : Translator) (calls : List CacheCall) (x : ObjectOf) (name : String) : Prop :=
  keyOf tr x ≠ "id" ∧ writtenTo calls x.name (keyOf tr x) ≠ [] ∧ x.object.immName = tr.mo2ImmDn x.name ∧
    EmptiedLast (writtenTo calls x.name name)

theorem mem_unset_of_named {x : ObjectOf} (hx : x ∈ getCreatedData root)
    (hnamed : x.object.immName = tr.mo2ImmDn x.name) (name : String) :
    (∃ c, (name, c) ∈ unsetAttributes x.object) ↔
      keyOf tr x ≠ "id" ∧ writtenTo calls x.name (keyOf tr x) ≠ [] ∧ name ≠ keyOf tr x ∧
        EmptiedLast (writtenTo calls x.name name) := by
  have hunset := (written_of_created hcalls hx).mem_unset_iff name
  rwa [hnamed] at hunset

theorem unset_of_unnamed {x : ObjectOf} (hx : x ∈ getCreatedData root) (hnone : x.object.immName = "") :
    unsetAttributes x.object = [] := by
  rw [List.eq_nil_iff_forall_not_mem]
  rintro ⟨name, c⟩ hmem
  obtain ⟨-, hkey, -⟩ := ((written_of_created hcalls hx).mem_unset_iff name).mp ⟨c, hmem⟩
  rw [hnone, show keyAttributeName "" = "" from rfl, writtenTo_empty] at hkey
  exact hkey rfl

theorem writtenOnce_iff_reaches (hinj : Function.Injective tr.mo2ImmDn) (hne : ∀ p, tr.mo2ImmDn p ≠ "") :
    WrittenOnce tr calls root (finalModifiedObjects q root) ↔
      ∀ x ∈ getCreatedData root, ∀ name ≠ keyOf tr x, Emptied (writtenTo calls x.name name) →
        Reaches tr calls x name := by
  constructor
  · intro h x hx name hname hemptied
    have honce := h.once x hx name hname hemptied
    rw [modificationsOf_created hcalls hinj hne hx] at honce
    split at honce
    case isFalse => cases honce
    case isTrue hnamed =>
      have hvalues : (name, []) ∈ attrValues (unsetAttributes x.object) :=
        (List.mem_filter.mp (honce ▸ List.mem_singleton.mpr rfl)).1
      obtain ⟨⟨name', c⟩, hmem, heq⟩ := List.mem_map.mp hvalues
      obtain rfl : name' = name := congrArg Prod.fst heq
      obtain ⟨hid, hkey, -, hlast⟩ := (mem_unset_of_named hcalls hx hnamed name').mp ⟨c, hmem⟩
      exact ⟨hid, hkey, hnamed, hlast⟩
  · intro h
    refine ⟨fun x hx name hname hemptied => ?_, fun x hx m hm => ?_, ?_⟩
    · obtain ⟨hid, hkey, hnamed, hlast⟩ := h x hx name hname hemptied
      obtain ⟨c, hmem⟩ := (mem_unset_of_named hcalls hx hnamed name).mpr ⟨hid, hkey, hname, hlast⟩
      have hsorted := sorted_unsetAttributes (written_of_created hcalls hx).sorted
      rw [modificationsOf_created hcalls hinj hne hx, if_pos hnamed, attrValues, List.filter_map]
      have hfilter : (unsetAttributes x.object).filter ((fun m : String × List MoValue => decide (m.1 = name)) ∘
          fun a => (a.1, a.2.data.map Prod.snd)) = [(name, c)] := SortedMap.filter_key hsorted hmem
      rw [hfilter, List.map_singleton, data_of_mem_unset hmem]
      rfl
    · rw [modificationsOf_created hcalls hinj hne hx] at hm
      split at hm
      case isFalse => cases hm
      case isTrue hnamed =>
        obtain ⟨⟨name, c⟩, hmem, rfl⟩ := List.mem_map.mp hm
        obtain ⟨-, -, hname, before, v, hvalues, -⟩ := (mem_unset_of_named hcalls hx hnamed name).mp ⟨c, hmem⟩
        refine ⟨hname, ?_⟩
        rw [hvalues]
        simp
    · rw [finalModifiedObjects_of_calls hcalls]
      exact List.suffix_append _ _

theorem final_eq_nil_iff (h : ∀ x ∈ getCreatedData root, ∀ name ≠ keyOf tr x,
      Emptied (writtenTo calls x.name name) → Reaches tr calls x name) :
    finalModifiedObjects q root = [] ↔ getModifiedData root = [] ∧
      ∀ x ∈ getCreatedData root, ∀ name ≠ keyOf tr x, ¬Emptied (writtenTo calls x.name name) := by
  have hunset : ∀ x ∈ getCreatedData root, unsetAttributes x.object = [] ↔
      ∀ name ≠ keyOf tr x, ¬Emptied (writtenTo calls x.name name) := by
    intro x hx
    constructor
    · intro hnil name hname hemptied
      obtain ⟨hid, hkey, hnamed, hlast⟩ := h x hx name hname hemptied
      obtain ⟨c, hmem⟩ := (mem_unset_of_named hcalls hx hnamed name).mpr ⟨hid, hkey, hname, hlast⟩
      rw [hnil] at hmem
      cases hmem
    · intro hnever
      rcases (written_of_created hcalls hx).named with hnone | hnamed
      · exact unset_of_unnamed hcalls hx hnone
      · rw [List.eq_nil_iff_forall_not_mem]
        rintro ⟨name, c⟩ hmem
        obtain ⟨-, -, hname, hlast⟩ := (mem_unset_of_named hcalls hx hnamed name).mp ⟨c, hmem⟩
        exact hnever name hname hlast.emptied
  rw [finalModifiedObjects_of_calls hcalls, List.append_eq_nil_iff, List.map_eq_nil_iff,
    prepareListOfModifiedObjects,
    List.map_eq_nil_iff, List.filter_eq_nil_iff, and_comm]
  refine and_congr_right fun _ => forall₂_congr fun x hx => ?_
  rw [← hunset x hx, decide_eq_true_eq, not_not]

end

/-- For the list of a transaction and preparing it again with the same cache, everything is right when every
emptied attribute reaches the list and the CCB is not open any more, if there is anything in the list. -/
theorem writtenOnce_again_iff {env : TxEnv} (q : StructQuestions) (hinj : Function.Injective env.tr.mo2ImmDn)
    (hne : ∀ p, env.tr.mo2ImmDn p ≠ "") {calls : List CacheCall} {w again : TxState}
    (hcalls : (calls.map (CacheCall.toModified env.tr)).foldlM ModifiedCall.run emptyTree = some w.cache.modified)
    (hok : (oamSAPrepare env w).1 = .ok) (hnew : w.ccbCreated = false)
    (hcache : again.cache = w.cache) (hagain : (oamSAPrepare env again).1 = .ok) :
    ((oamSAPrepare env w).2.finalModified = finalModifiedObjects q w.cache.modified ∧
        WrittenOnce env.tr calls w.cache.modified (finalModifiedObjects q w.cache.modified) ∧
        (oamSAPrepare env again).2.finalModified = (oamSAPrepare env w).2.finalModified) ↔
      (∀ x ∈ getCreatedData w.cache.modified, ∀ name ≠ keyOf env.tr x, Emptied (writtenTo calls x.name name) →
          Reaches env.tr calls x name) ∧
        (again.ccbCreated = true → getModifiedData w.cache.modified = [] ∧
          ∀ x ∈ getCreatedData w.cache.modified, ∀ name ≠ keyOf env.tr x, ¬Emptied
            (writtenTo calls x.name name)) := by
  have hsorted : ∀ x ∈ getCreatedData w.cache.modified, SortedMap.Sorted x.object.attributes :=
    fun _ hx => (written_of_created hcalls hx).sorted
  have hfirst := @oamSAPrepare_final q env w hok hsorted
  have hsecond := @oamSAPrepare_final q env again hagain (by rwa [hcache])
  rw [hfirst, hsecond, hnew, hcache, if_neg Bool.false_ne_true, and_iff_right rfl,
    writtenOnce_iff_reaches hcalls hinj hne]
  refine and_congr_right fun hreaches => ?_
  rw [← final_eq_nil_iff hcalls hreaches]
  cases again.ccbCreated with
  | false => simp
  | true =>
    simp only [if_true, forall_const]
    exact eq_comm

end

namespace Sample

def counter : AttributeName := ⟨"counter", by decide⟩

def emptying (times : Nat) : List CacheCall :=
  .insertCreatedObject foo "Foo" ["ManagedElement=1"] ⟨"fooId", by decide⟩ "1" ::
    .updateObjectAttribute foo counter ⟨.int32, [.number 5]⟩ ::
    List.replicate times (.updateObjectAttribute foo counter ⟨.int32, []⟩)

def emptyingState (times : Nat) : TxState :=
  { cache := { modified :=
      ((emptying times).map (CacheCall.toModified translator)).foldl ModifiedCall.step emptyTree } }

def emptyingEnv : TxEnv := ⟨bridgeEnv, immExists, false⟩

def noStructs : StructQuestions := ⟨fun _ _ => false, fun _ _ => false⟩

end Sample

open Sample

/-- An emptied attribute reaches the list, also when the transaction is prepared again in a new CCB. -/
theorem writtenOnce_again_sample :
    (oamSAPrepare emptyingEnv (emptyingState 1)).2.finalModified =
        [.modify (translator.mo2ImmDn foo.parts) [("counter", [])]] ∧
      WrittenOnce emptyingEnv.tr (emptying 1) (emptyingState 1).cache.modified
        [.modify (translator.mo2ImmDn foo.parts) [("counter", [])]] ∧
      (oamSAPrepare emptyingEnv
        { oamSAPrepare emptyingEnv (emptyingState 1) |>.2 with ccbCreated := false }).2.finalModified =
        [.modify (translator.mo2ImmDn foo.parts) [("counter", [])]] := by
  have hlist : finalModifiedObjects noStructs (emptyingState 1).cache.modified =
      [.modify (translator.mo2ImmDn foo.parts) [("counter", [])]] := by decide
  have hcreated : ∀ x ∈ getCreatedData (emptyingState 1).cache.modified, x.name = foo.parts ∧
      keyOf translator x = "fooId" ∧ x.object.immName = translator.mo2ImmDn x.name := by decide
  have hreaches : ∀ x ∈ getCreatedData (emptyingState 1).cache.modified, ∀ name ≠ keyOf translator x,
      Emptied (writtenTo (emptying 1) x.name name) → Reaches translator (emptying 1) x name := by
    intro x hx name hname hemptied
    obtain ⟨hfoo, hkey, himm⟩ := hcreated x hx
    rw [hkey] at hname
    rw [hfoo] at hemptied
    rw [Reaches, hkey, himm, hfoo]
    refine ⟨by decide, by decide, rfl, ?_⟩
    by_cases hcounter : name = "counter"
    · subst hcounter
      exact ⟨[], [.number 5], by decide, by decide⟩
    · have hnone : writtenTo (emptying 1) foo.parts name = [] := by
        simp [writtenTo, emptying, CacheCall.written, counter, Ne.symm hcounter, Ne.symm hname]
      rw [hnone] at hemptied
      cases hemptied.2
  obtain ⟨hfirst, honce, hagain⟩ := (@writtenOnce_again_iff emptyingEnv noStructs mo2ImmDn_injective mo2ImmDn_ne
    (emptying 1) (emptyingState 1) { oamSAPrepare emptyingEnv (emptyingState 1) |>.2 with ccbCreated := false }
    rfl rfl rfl rfl rfl).mpr ⟨hreaches, nofun⟩
  rw [hagain, hfirst, ← hlist]
  exact ⟨rfl, honce, rfl⟩

/-- An attribute that is emptied twice is not in the list, and preparing again leaves nothing in it. -/
theorem not_writtenOnce_again :
    ¬((∀ (env : TxEnv) (q : StructQuestions) (calls : List CacheCall) (w : TxState),
          Function.Injective env.tr.mo2ImmDn → (∀ p, env.tr.mo2ImmDn p ≠ "") →
          (calls.map (CacheCall.toModified env.tr)).foldlM ModifiedCall.run emptyTree = some w.cache.modified →
          WrittenOnce env.tr calls w.cache.modified (finalModifiedObjects q w.cache.modified)) ∨
        ∀ (env : TxEnv) (calls : List CacheCall) (w again : TxState),
          Function.Injective env.tr.mo2ImmDn → (∀ p, env.tr.mo2ImmDn p ≠ "") →
          (calls.map (CacheCall.toModified env.tr)).foldlM ModifiedCall.run emptyTree = some w.cache.modified →
          (oamSAPrepare env w).1 = .ok → w.ccbCreated = false → again.cache = w.cache →
          (oamSAPrepare env again).1 = .ok →
          (oamSAPrepare env again).2.finalModified = (oamSAPrepare env w).2.finalModified) := by
  rintro (honce | hagain)
  · have hright := honce emptyingEnv noStructs (emptying 2) (emptyingState 2) mo2ImmDn_injective mo2ImmDn_ne rfl
    have hcreated : (⟨foo.parts, heldAt foo.parts (emptyingState 2).cache.modified⟩ : ObjectOf) ∈
        getCreatedData (emptyingState 2).cache.modified := by decide
    have hvalues : writtenTo (emptying 2) foo.parts "counter" = [[.number 5], [], []] := by decide
    have hemptied : Emptied (writtenTo (emptying 2) foo.parts "counter") := by
      rw [hvalues]
      exact ⟨⟨[.number 5], by decide, by decide⟩, rfl⟩
    have hlist := hright.once _ hcreated "counter" (by decide) hemptied
    exact absurd hlist (by decide)
  · have hsame := hagain emptyingEnv (emptying 1) (emptyingState 1) (oamSAPrepare emptyingEnv (emptyingState 1)).2
      mo2ImmDn_injective mo2ImmDn_ne rfl rfl rfl rfl rfl
    exact absurd hsame (by decide)

end ComSA
