import ComSA.Lib.Run
import ComSA.Motransaction.Session

/-!
# What a transaction sends to IMM

The operations that `OamSAPrepare` adds to the CCB: it creates the new objects, then
deletes, and then modifies. Applied to the objects of IMM, they give what the
transaction showed.
-/

namespace ComSA

open DeletedObjects ModifiedObjects

/-! ## The operations -/

abbrev AttrValues := List (String × List MoValue)

/-- A created object stands in the tree at its name. Its class is passed on, and IMM has no use for
it here. -/
inductive CcbOp where
  | objectCreate (parentName className : String) (name : List String) (attrValues : AttrValues)
  | objectDelete (objectName : String)
  | modify (objectName : String) (attrMods : AttrValues)
  deriving DecidableEq, Repr

def attrValues (m : AttributeMap) : AttrValues := m.map fun a => (a.1, a.2.data.map Prod.snd)

def ModifiedObjects.ObjectOf.immParentName (tr : Translator) (x : ObjectOf) : String :=
  if tr.isImmRoot x.name then "" else tr.mo2ImmDn x.object.parentName

def createOp (tr : Translator) (x : ObjectOf) : CcbOp :=
  .objectCreate (x.immParentName tr) x.object.className x.name (attrValues x.object.attributes)

def modifyOp (x : ObjectOf) : CcbOp := .modify x.object.immName (attrValues x.object.attributes)

def keyAttributeName (immName : String) : String :=
  String.ofList (immName.toList.takeWhile (· ≠ '='))

/-- The attributes of a created object that were set and then emptied. IMM would give them their
default values again. Objects of struct classes, with the key `id`, and objects without their key are
left out. -/
def unsetAttributes (o : ObjectData) : AttributeMap :=
  let key := keyAttributeName o.immName
  if key = "id" ∨ key ∉ o.attributes.map Prod.fst then []
  else o.attributes.filter fun a => a.1 ≠ key ∧ a.2.data = [] ∧ a.2.hasDefaultValue = true

def prepareListOfModifiedObjects (creObj : List ObjectOf) : List CcbOp :=
  (creObj.filter fun x => unsetAttributes x.object ≠ []).map fun x =>
    .modify x.object.immName (attrValues (unsetAttributes x.object))

/-- The operations of `OamSAPrepare`. The created objects are taken from the last one down. -/
def prepareOps (tr : Translator) (c : Cache) : List CcbOp :=
  let creObj := getCreatedData c.modified
  creObj.reverse.map (createOp tr) ++ ((getDeletedData c.deleted).map .objectDelete ++
    (prepareListOfModifiedObjects creObj ++ (getModifiedData c.modified).map modifyOp))

/-! ## What IMM does -/

/-- What IMM deletes with an object: what is below it, but a root object is below none. -/
def ImmBelow (tr : Translator) (p q : List String) : Prop :=
  p <+: q ∧ ∀ r, p <+: r → r ≠ p → r <+: q → tr.isImmRoot r = false

def writeAll (values : AttrValues) (a : Attributes) : Attributes := fun name =>
  (SortedMap.get? name values).getD (a name)

namespace CcbOp

def Ok (tr : Translator) (t : ImmTree) : CcbOp → Prop
  | objectCreate parentName _ name _ =>
    t name = none ∧ (parentName = "" ∨ ∃ p, tr.mo2ImmDn p = parentName ∧ (t p).isSome = true)
  | objectDelete objectName => ∃ p, tr.mo2ImmDn p = objectName ∧ (t p).isSome = true
  | modify objectName _ => ∃ p, tr.mo2ImmDn p = objectName ∧ (t p).isSome = true

open Classical in
noncomputable def apply (tr : Translator) (t : ImmTree) : CcbOp → ImmTree
  | objectCreate _ _ name values => fun q => if q = name then some (writeAll values fun _ => []) else t q
  | objectDelete objectName => fun q =>
    if ∃ p, tr.mo2ImmDn p = objectName ∧ ImmBelow tr p q then none else t q
  | modify objectName values => fun q =>
    if tr.mo2ImmDn q = objectName then (t q).map (writeAll values) else t q

end CcbOp

theorem writeAll_attrValues (m : AttributeMap) : writeAll (attrValues m) = overlay m := by
  funext a name
  rw [writeAll, attrValues, SortedMap.get?_map fun c : DataContainer => c.data.map Prod.snd, overlay]
  cases SortedMap.get? name m <;> rfl

section
variable {tr : Translator} {imm : ImmTree} {c : Cache}

/-! ## Lists of operations of one kind -/

/-- The created objects are new, each comes after its parent, and none comes twice. -/
structure Creatable (tr : Translator) (t : ImmTree) (objects : List ObjectOf) : Prop where
  order : objects.Pairwise fun x y => ¬ y.name <+: x.name
  absent : ∀ x ∈ objects, t x.name = none
  parent : ∀ x ∈ objects, x.immParentName tr = "" ∨
    ∃ p, p ≠ [] ∧ tr.mo2ImmDn p = x.immParentName tr ∧ p <+: x.name ∧ p ≠ x.name ∧
      ((t p).isSome = true ∨ ∃ y ∈ objects, y.name = p)

theorem creates_spec {t : ImmTree} {objects : List ObjectOf} (h : Creatable tr t objects) :
    Along (CcbOp.apply tr) (CcbOp.Ok tr) t (objects.map (createOp tr)) ∧
    (∀ x ∈ objects, (objects.map (createOp tr)).foldl (CcbOp.apply tr) t x.name =
      some (overlay x.object.attributes fun _ => [])) ∧
    ∀ q, (∀ x ∈ objects, x.name ≠ q) →
      (objects.map (createOp tr)).foldl (CcbOp.apply tr) t q = t q := by
  induction objects using List.reverseRecOn with
  | nil => exact ⟨trivial, fun x hx => (List.not_mem_nil hx).elim, fun q _ => rfl⟩
  | append_singleton objects z ih =>
    obtain ⟨horder, hz⟩ := (List.pairwise_append.mp h.order)
    have hafter : ∀ x ∈ objects, ¬ z.name <+: x.name := fun x hx => hz.2 x hx z (by simp)
    have hne : ∀ x ∈ objects, x.name ≠ z.name := by
      intro x hx he
      exact hafter x hx (he ▸ List.prefix_rfl)
    -- No object of the front part waits for the last one.
    have hfront : Creatable tr t objects := by
      refine ⟨horder, fun x hx => h.absent x (List.mem_append_left _ hx), fun x hx => ?_⟩
      refine (h.parent x (List.mem_append_left _ hx)).imp_right ?_
      rintro ⟨p, hnil, hp, hpx, hpne, hor⟩
      refine ⟨p, hnil, hp, hpx, hpne, hor.imp_right ?_⟩
      rintro ⟨y, hy, rfl⟩
      rcases List.mem_append.mp hy with hy | hy
      · exact ⟨y, hy, rfl⟩
      · rw [List.mem_singleton.mp hy] at hpx
        exact absurd hpx (hafter x hx)
    obtain ⟨halong, hnew, hold⟩ := ih hfront
    have hzmem : z ∈ objects ++ [z] := by simp
    have hstep : ∀ q, ((objects ++ [z]).map (createOp tr)).foldl (CcbOp.apply tr) t q =
        if q = z.name then some (overlay z.object.attributes fun _ => [])
        else (objects.map (createOp tr)).foldl (CcbOp.apply tr) t q := by
      intro q
      rw [List.map_append, List.foldl_append]
      change CcbOp.apply tr _ (createOp tr z) q = _
      rw [createOp, CcbOp.apply, writeAll_attrValues]
    refine ⟨?_, fun x hx => ?_, fun q hq => ?_⟩
    · rw [List.map_append, along_append]
      refine ⟨halong, ⟨?_, ?_⟩, trivial⟩
      · rw [hold _ hne]
        exact h.absent z hzmem
      · refine (h.parent z hzmem).imp_right ?_
        rintro ⟨p, _, hp, _, hpne, hor⟩
        refine ⟨p, hp, ?_⟩
        by_cases hmem : ∃ y ∈ objects, y.name = p
        · obtain ⟨y, hy, rfl⟩ := hmem
          rw [hnew y hy]
          rfl
        · rw [hold p fun x hx he => hmem ⟨x, hx, he⟩]
          refine hor.resolve_right ?_
          rintro ⟨y, hy, hyp⟩
          rcases List.mem_append.mp hy with hy | hy
          · exact hmem ⟨y, hy, hyp⟩
          · rw [List.mem_singleton.mp hy] at hyp
            exact hpne hyp.symm
    · rw [hstep]
      rcases List.mem_append.mp hx with hx | hx
      · rw [if_neg (hne x hx), hnew x hx]
      · rw [List.mem_singleton.mp hx, if_pos rfl]
    · rw [hstep, if_neg (Ne.symm (hq z hzmem)), hold q fun x hx => hq x (List.mem_append_left _ hx)]

theorem apply_objectDelete (hinj : Function.Injective tr.mo2ImmDn) (t : ImmTree)
    (p q : List String) :
    (ImmBelow tr p q → CcbOp.apply tr t (.objectDelete (tr.mo2ImmDn p)) q = none) ∧
      (¬ ImmBelow tr p q → CcbOp.apply tr t (.objectDelete (tr.mo2ImmDn p)) q = t q) := by
  rw [CcbOp.apply]
  constructor
  · exact fun h => if_pos ⟨p, rfl, h⟩
  · intro h
    refine if_neg ?_
    rintro ⟨p', hp', hbelow⟩
    rw [hinj hp'] at hbelow
    exact h hbelow

theorem deletes_spec (hinj : Function.Injective tr.mo2ImmDn) {t : ImmTree}
    {names : List (List String)} (horder : names.Pairwise fun p q => ¬ p <+: q)
    (hmem : ∀ p ∈ names, (t p).isSome = true) :
    Along (CcbOp.apply tr) (CcbOp.Ok tr) t (names.map fun p => .objectDelete (tr.mo2ImmDn p)) ∧
    (∀ q, (∃ p ∈ names, ImmBelow tr p q) → (names.map fun p =>
      CcbOp.objectDelete (tr.mo2ImmDn p)).foldl (CcbOp.apply tr) t q = none) ∧
    ∀ q, (∀ p ∈ names, ¬ ImmBelow tr p q) → (names.map fun p =>
      CcbOp.objectDelete (tr.mo2ImmDn p)).foldl (CcbOp.apply tr) t q = t q := by
  induction names generalizing t with
  | nil => exact ⟨trivial, fun q ⟨p, hp, _⟩ => absurd hp (by simp), fun q _ => rfl⟩
  | cons p names ih =>
    obtain ⟨hfirst, hrest⟩ := List.pairwise_cons.mp horder
    have hdelete := apply_objectDelete hinj t p
    generalize ht : CcbOp.apply tr t (.objectDelete (tr.mo2ImmDn p)) = t' at hdelete
    have hkept : ∀ p' ∈ names, (t' p').isSome = true := by
      intro p' hp'
      rw [(hdelete p').2 fun hb => hfirst p' hp' hb.1]
      exact hmem p' (List.mem_cons_of_mem _ hp')
    obtain ⟨halong, hgone, hold⟩ := ih hrest hkept
    have hstep : ((p :: names).map fun p => CcbOp.objectDelete (tr.mo2ImmDn p)).foldl
        (CcbOp.apply tr) t = (names.map fun p => CcbOp.objectDelete (tr.mo2ImmDn p)).foldl
        (CcbOp.apply tr) t' := by
      rw [List.map_cons, List.foldl_cons, ht]
    refine ⟨⟨⟨p, rfl, hmem p List.mem_cons_self⟩, ?_⟩, fun q hq => ?_, fun q hq => ?_⟩
    · rw [ht]
      exact halong
    · rw [hstep]
      by_cases hlater : ∃ p' ∈ names, ImmBelow tr p' q
      · exact hgone q hlater
      · push Not at hlater
        obtain ⟨p', hp', hbelow⟩ := hq
        rcases List.mem_cons.mp hp' with rfl | hp'
        · rw [hold q hlater, (hdelete q).1 hbelow]
        · exact absurd hbelow (hlater p' hp')
    · rw [hstep, hold q fun p' hp' => hq p' (List.mem_cons_of_mem _ hp'),
        (hdelete q).2 (hq p List.mem_cons_self)]

theorem apply_modify (hinj : Function.Injective tr.mo2ImmDn) (t : ImmTree) (p q : List String)
    (values : AttrValues) :
    CcbOp.apply tr t (.modify (tr.mo2ImmDn p) values) q =
      if q = p then (t q).map (writeAll values) else t q := by
  rw [CcbOp.apply]
  simp only [hinj.eq_iff]

/-- The operation that modifies an object by its name in the tree. -/
def modifyAt (tr : Translator) (x : List String × AttrValues) : CcbOp :=
  .modify (tr.mo2ImmDn x.1) x.2

theorem modifies_fixed (hinj : Function.Injective tr.mo2ImmDn) {t : ImmTree}
    {mods : List (List String × AttrValues)}
    (h : ∀ x ∈ mods, ∃ a, t x.1 = some a ∧ writeAll x.2 a = a) :
    Along (CcbOp.apply tr) (CcbOp.Ok tr) t (mods.map (modifyAt tr)) ∧
      (mods.map (modifyAt tr)).foldl (CcbOp.apply tr) t = t := by
  induction mods with
  | nil => exact ⟨trivial, rfl⟩
  | cons x mods ih =>
    obtain ⟨a, ha, hfix⟩ := h x List.mem_cons_self
    have hstep : CcbOp.apply tr t (modifyAt tr x) = t := by
      funext q
      rw [modifyAt, apply_modify hinj]
      split <;> rename_i hq
      · rw [hq, ha, Option.map_some, hfix]
      · rfl
    obtain ⟨halong, hfold⟩ := ih fun y hy => h y (List.mem_cons_of_mem _ hy)
    refine ⟨⟨⟨x.1, rfl, by rw [ha]; rfl⟩, ?_⟩, ?_⟩
    · rw [hstep]
      exact halong
    · rw [List.map_cons, List.foldl_cons, hstep, hfold]

theorem modifies_spec (hinj : Function.Injective tr.mo2ImmDn) {t : ImmTree}
    {mods : List (List String × AttrValues)} (horder : mods.Pairwise fun x y => x.1 ≠ y.1)
    (hmem : ∀ x ∈ mods, (t x.1).isSome = true) :
    Along (CcbOp.apply tr) (CcbOp.Ok tr) t (mods.map (modifyAt tr)) ∧
    (∀ x ∈ mods, (mods.map (modifyAt tr)).foldl (CcbOp.apply tr) t x.1 =
      (t x.1).map (writeAll x.2)) ∧
    ∀ q, (∀ x ∈ mods, x.1 ≠ q) → (mods.map (modifyAt tr)).foldl (CcbOp.apply tr) t q = t q := by
  induction mods generalizing t with
  | nil => exact ⟨trivial, fun x hx => absurd hx (by simp), fun q _ => rfl⟩
  | cons x mods ih =>
    obtain ⟨hfirst, hrest⟩ := List.pairwise_cons.mp horder
    have hmodify := fun q => apply_modify hinj t x.1 q x.2
    generalize ht : CcbOp.apply tr t (.modify (tr.mo2ImmDn x.1) x.2) = t' at hmodify
    have hkept : ∀ y ∈ mods, t' y.1 = t y.1 := fun y hy => by
      rw [hmodify, if_neg (Ne.symm (hfirst y hy))]
    obtain ⟨halong, hnew, hold⟩ := @ih t' hrest fun y hy => by
      rw [hkept y hy]
      exact hmem y (List.mem_cons_of_mem _ hy)
    have hstep : ((x :: mods).map (modifyAt tr)).foldl (CcbOp.apply tr) t =
        (mods.map (modifyAt tr)).foldl (CcbOp.apply tr) t' := by
      rw [List.map_cons, List.foldl_cons, modifyAt, ht]
    refine ⟨⟨⟨x.1, rfl, hmem x List.mem_cons_self⟩, ?_⟩, fun y hy => ?_, fun q hq => ?_⟩
    · rw [modifyAt, ht]
      exact halong
    · rw [hstep]
      rcases List.mem_cons.mp hy with rfl | hy
      · rw [hold y.1 fun z hz => Ne.symm (hfirst z hz), hmodify, if_pos rfl]
      · rw [hnew y hy, hkept y hy]
    · rw [hstep, hold q fun y hy => hq y (List.mem_cons_of_mem _ hy), hmodify,
        if_neg (Ne.symm (hq x List.mem_cons_self))]

/-! ## The lists of a transaction -/

/-- What the lists need, beyond a cache that is as it should be. -/
structure CommitInv (tr : Translator) (imm : ImmTree) (c : Cache) : Prop where
  parented : Parented tr c
  /-- What is below a deletion point is also below it in IMM. -/
  noRoot : ∀ p ∈ marked c.deleted, ∀ q, p <+: q → q ≠ p → tr.isImmRoot q = true → imm q = none

theorem CacheInv.mem_created (h : CacheInv tr imm c) {x : ObjectOf}
    (hx : x ∈ getCreatedData c.modified) : x.name ≠ [] ∧
      objectAt x.name c.modified = some x.object ∧ x.object.isNewObject = true := by
  obtain ⟨hobj, hnew⟩ := (mem_traverse h.ordered x).mp hx
  refine ⟨fun hnil => ?_, hobj, hnew⟩
  rw [hnil, objectAt_nil, h.rootKind] at hobj
  rw [← Option.some.inj hobj] at hnew
  cases hnew

theorem CacheInv.mem_modified (h : CacheInv tr imm c) {x : ObjectOf}
    (hx : x ∈ getModifiedData c.modified) : x.name ≠ [] ∧
      objectAt x.name c.modified = some x.object ∧ x.object.isModifiedObject = true := by
  obtain ⟨hobj, hmod⟩ := (mem_traverse h.ordered x).mp hx
  refine ⟨fun hnil => ?_, hobj, hmod⟩
  rw [hnil, objectAt_nil, h.rootKind] at hobj
  rw [← Option.some.inj hobj] at hmod
  cases hmod

theorem not_isModifiedObject_of_new {o : ObjectData} (h : o.isNewObject = true) :
    o.isModifiedObject = false := by
  rw [ObjectData.isNewObject, decide_eq_true_iff] at h
  rw [ObjectData.isModifiedObject, h]
  rfl

theorem CacheInv.immName_of_unset (h : CacheInv tr imm c) {x : ObjectOf}
    (hx : x ∈ getCreatedData c.modified) (hne : unsetAttributes x.object ≠ []) :
    x.object.immName = tr.mo2ImmDn x.name := by
  obtain ⟨hname, hobj, hn⟩ := h.mem_created hx
  refine ((h.object x.name x.object hname hobj).immName hn).resolve_right fun hno => hne ?_
  rw [unsetAttributes]
  split
  · rfl
  · exact List.filter_eq_nil_iff.mpr fun a ha => by simp [hno a ha]

theorem CacheInv.creatable (h : CacheInv tr imm c) (hp : Parented tr c) :
    Creatable tr imm (getCreatedData c.modified).reverse := by
  refine ⟨List.pairwise_reverse.mpr (traverse_pairwise h.ordered), fun x hx => ?_, fun x hx => ?_⟩
  · obtain ⟨hne, hobj, hnew⟩ := h.mem_created (List.mem_reverse.mp hx)
    exact (h.object x.name x.object hne hobj).newIff.mp hnew
  · obtain ⟨hne, hobj, hnew⟩ := h.mem_created (List.mem_reverse.mp hx)
    obtain ⟨hparent, htop⟩ := hp x.name x.object hne hobj hnew
    rw [ObjectOf.immParentName, hparent]
    by_cases hroot : tr.isImmRoot x.name = true
    · exact Or.inl (if_pos hroot)
    rw [if_neg hroot]
    by_cases hnil : x.name.dropLast = []
    · rw [hnil]
      exact Or.inl ((htop hnil).resolve_left hroot)
    have habove := List.dropLast_prefix x.name
    refine Or.inr ⟨x.name.dropLast, hnil, rfl, habove, fun he => ?_, ?_⟩
    · have hlen := congrArg List.length he
      have hpos := List.length_pos_iff.mpr hne
      rw [List.length_dropLast] at hlen
      omega
    obtain ⟨o, ho⟩ := Option.isSome_iff_exists.mp
      (objectAt_of_isPrefix habove (by rw [hobj]; rfl))
    cases hnewo : o.isNewObject with
    | true =>
      refine Or.inr ⟨⟨x.name.dropLast, o⟩, List.mem_reverse.mpr ?_, rfl⟩
      exact (mem_traverse h.ordered _).mpr ⟨ho, hnewo⟩
    | false =>
      refine Or.inl (Option.isSome_iff_ne_none.mpr fun hnone => ?_)
      rw [(h.object _ o hnil ho).newIff.mpr hnone] at hnewo
      cases hnewo

/-- The names of the deletion points, in the order of the list. -/
def deletedNames (map : DeletedMap) : List (List String) :=
  ((Forest.listing [] map).filter fun x => x.2.isActive).map Prod.fst

theorem mem_deletedNames {map : DeletedMap} (h : Forest.Unique map) {p : List String} :
    p ∈ deletedNames map ↔ p ∈ active map := by
  rw [deletedNames, List.mem_map, mem_active]
  constructor
  · rintro ⟨x, hx, rfl⟩
    obtain ⟨hlist, ha⟩ := List.mem_filter.mp hx
    obtain ⟨q, hq, hd⟩ := (Forest.mem_listing h [] x).mp hlist
    rw [List.nil_append] at hq
    exact ⟨x.2, hq ▸ hd, ha⟩
  · rintro ⟨d, hd, ha⟩
    exact ⟨(p, d), List.mem_filter.mpr ⟨(Forest.mem_listing h [] _).mpr ⟨p, rfl, hd⟩, ha⟩, rfl⟩

theorem deletedNames_pairwise {map : DeletedMap} (h : Forest.Unique map) :
    (deletedNames map).Pairwise fun p q => ¬ p <+: q :=
  ((Forest.listing_pairwise h []).filter _).map _ fun _ _ hxy => hxy

theorem CacheInv.getDeletedData_eq (h : CacheInv tr imm c) :
    getDeletedData c.deleted = (deletedNames c.deleted).map tr.mo2ImmDn := by
  rw [DeletedObjects.getDeletedData_eq [], deletedNames, List.map_map]
  refine List.map_congr_left fun x hx => ?_
  obtain ⟨hlist, ha⟩ := List.mem_filter.mp hx
  obtain ⟨q, hq, hd⟩ := (Forest.mem_listing h.unique [] x).mp hlist
  rw [List.nil_append] at hq
  rw [h.named q x.2 hd (Or.inl ha), Function.comp_apply, hq]

theorem overlay_unsetAttributes {o : ObjectData} (h : SortedMap.Sorted o.attributes)
    (a : Attributes) : overlay (unsetAttributes o) (overlay o.attributes a) = overlay o.attributes a := by
  funext name
  rw [overlay]
  split <;> rename_i c hget
  · have hmem := SortedMap.mem_of_get? hget
    rw [unsetAttributes] at hmem
    split at hmem
    · cases hmem
    · obtain ⟨hmem, hkeep⟩ := List.mem_filter.mp hmem
      have hdata : c.data = [] := (of_decide_eq_true hkeep).2.1
      rw [overlay, SortedMap.get?_of_mem h hmem]
  · rfl

/-! ## The three parts -/

theorem CacheInv.creates (h : CacheInv tr imm c) (hc : CommitInv tr imm c) {ops : List CcbOp}
    (hops : ops = (getCreatedData c.modified).reverse.map (createOp tr)) :
    Along (CcbOp.apply tr) (CcbOp.Ok tr) imm ops ∧
    (∀ p o, p ≠ [] → objectAt p c.modified = some o → o.isNewObject = true →
      ops.foldl (CcbOp.apply tr) imm p = some (overlay o.attributes fun _ => [])) ∧
    ∀ q, (∀ o, q ≠ [] → objectAt q c.modified = some o → o.isNewObject = false) →
      ops.foldl (CcbOp.apply tr) imm q = imm q := by
  subst hops
  obtain ⟨halong, hnew, hold⟩ := creates_spec (h.creatable hc.parented)
  refine ⟨halong, fun p o hp ho hn => ?_, fun q hq => hold q fun x hx he => ?_⟩
  · exact hnew ⟨p, o⟩ (List.mem_reverse.mpr ((mem_traverse h.ordered _).mpr ⟨ho, hn⟩))
  · obtain ⟨hne, hobj, hn⟩ := h.mem_created (List.mem_reverse.mp hx)
    rw [he] at hne hobj
    rw [hq x.object hne hobj] at hn
    cases hn

theorem CacheInv.deletes (h : CacheInv tr imm c) (hc : CommitInv tr imm c) (himm : imm.Closed)
    (hinj : Function.Injective tr.mo2ImmDn) {t : ImmTree}
    (ht : ∀ q, (∀ o, q ≠ [] → objectAt q c.modified = some o → o.isNewObject = false) → t q = imm q)
    {ops : List CcbOp} (hops : ops = (getDeletedData c.deleted).map .objectDelete) :
    Along (CcbOp.apply tr) (CcbOp.Ok tr) t ops ∧
    (∀ q, Covers (active c.deleted) q → ops.foldl (CcbOp.apply tr) t q = none) ∧
    ∀ q, ¬ Covers (active c.deleted) q → ops.foldl (CcbOp.apply tr) t q = t q := by
  have htCovered : ∀ q, Covers (active c.deleted) q → t q = imm q := by
    intro q hq
    exact ht q fun o hne ho => absurd hq (h.notDeleted q o hne ho)
  rw [h.getDeletedData_eq, List.map_map] at hops
  subst hops
  have hmem : ∀ p ∈ deletedNames c.deleted, (t p).isSome = true := by
    intro p hp
    have hpa := (mem_deletedNames h.unique).mp hp
    rw [htCovered p (covers_of_mem hpa)]
    exact h.markedExists p (active_subset_marked _ hpa)
  obtain ⟨halong, hgone, hold⟩ := deletes_spec hinj (deletedNames_pairwise h.unique) hmem
  refine ⟨halong, fun q hq => ?_, fun q hq => ?_⟩
  · by_cases hbelow : ∃ p ∈ deletedNames c.deleted, ImmBelow tr p q
    · exact hgone q hbelow
    · -- A root object is on the way down, and IMM has none below a deletion point.
      push Not at hbelow
      refine (hold q hbelow).trans ?_
      obtain ⟨p, hp, hpq⟩ := hq
      have hnot := hbelow p ((mem_deletedNames h.unique).mpr hp)
      rw [ImmBelow] at hnot
      push Not at hnot
      obtain ⟨r, hpr, hrp, hrq, hroot⟩ := hnot hpq
      rw [htCovered q ⟨p, hp, hpq⟩, ← Option.not_isSome_iff_eq_none]
      intro hsome
      have hr : r ≠ [] := by
        rintro rfl
        exact hrp (List.prefix_nil.mp hpr).symm
      have hrsome := himm.of_isPrefix hr hrq hsome
      rw [hc.noRoot p (active_subset_marked _ hp) r hpr hrp (by simpa using hroot)] at hrsome
      cases hrsome
  · refine hold q fun p hp hbelow => hq ⟨p, (mem_deletedNames h.unique).mp hp, hbelow.1⟩

/-- What is unset in the objects that are new, under their own names. -/
def unsetMods (c : Cache) : List (List String × AttrValues) :=
  ((getCreatedData c.modified).filter fun x => unsetAttributes x.object ≠ []).map fun x =>
    (x.name, attrValues (unsetAttributes x.object))

def alteredMods (c : Cache) : List (List String × AttrValues) :=
  (getModifiedData c.modified).map fun x => (x.name, attrValues x.object.attributes)

theorem CacheInv.unsetMods_eq (h : CacheInv tr imm c) :
    prepareListOfModifiedObjects (getCreatedData c.modified) = (unsetMods c).map (modifyAt tr) := by
  rw [prepareListOfModifiedObjects, unsetMods, List.map_map]
  refine List.map_congr_left fun x hx => ?_
  obtain ⟨hmem, hne⟩ := List.mem_filter.mp hx
  rw [h.immName_of_unset hmem (of_decide_eq_true hne)]
  rfl

theorem CacheInv.alteredMods_eq (h : CacheInv tr imm c) :
    (getModifiedData c.modified).map modifyOp = (alteredMods c).map (modifyAt tr) := by
  rw [alteredMods, List.map_map]
  refine List.map_congr_left fun x hx => ?_
  obtain ⟨hname, hobj, hm⟩ := h.mem_modified hx
  rw [modifyOp, (h.object x.name x.object hname hobj).altered hm]
  rfl

theorem CacheInv.unsetMods_fixed (h : CacheInv tr imm c) {t : ImmTree}
    (hnew : ∀ p o, p ≠ [] → objectAt p c.modified = some o → o.isNewObject = true →
      t p = some (overlay o.attributes fun _ => [])) :
    ∀ y ∈ unsetMods c, ∃ a, t y.1 = some a ∧ writeAll y.2 a = a := by
  intro y hy
  obtain ⟨x, hx, rfl⟩ := List.mem_map.mp hy
  obtain ⟨hname, hobj, hn⟩ := h.mem_created (List.mem_filter.mp hx).1
  refine ⟨_, hnew x.name x.object hname hobj hn, ?_⟩
  rw [writeAll_attrValues]
  exact overlay_unsetAttributes (h.object x.name x.object hname hobj).sorted _

theorem CacheInv.alteredMods_pairwise (h : CacheInv tr imm c) : (alteredMods c).Pairwise fun x y => x.1 ≠ y.1 :=
  (traverse_pairwise h.ordered).map _ fun x y hxy he => by
    rw [show x.name = y.name from he] at hxy
    exact hxy List.prefix_rfl

theorem CacheInv.alteredMods_there (h : CacheInv tr imm c) {t : ImmTree}
    (hold : ∀ p o, p ≠ [] → objectAt p c.modified = some o → o.isNewObject = false → t p = imm p) :
    ∀ y ∈ alteredMods c, (t y.1).isSome = true := by
  intro y hy
  obtain ⟨x, hx, rfl⟩ := List.mem_map.mp hy
  obtain ⟨hname, hobj, hm⟩ := h.mem_modified hx
  have hn : x.object.isNewObject = false := by
    by_contra hn
    rw [not_isModifiedObject_of_new (by simpa using hn)] at hm
    cases hm
  rw [hold x.name x.object hname hobj hn, Option.isSome_iff_ne_none]
  intro hnone
  rw [(h.object x.name x.object hname hobj).newIff.mpr hnone] at hn
  cases hn

theorem CacheInv.modifies (h : CacheInv tr imm c) (hinj : Function.Injective tr.mo2ImmDn)
    {t : ImmTree} (hnew : ∀ p o, p ≠ [] → objectAt p c.modified = some o → o.isNewObject = true →
      t p = some (overlay o.attributes fun _ => []))
    (hold : ∀ p o, p ≠ [] → objectAt p c.modified = some o → o.isNewObject = false → t p = imm p)
    {ops : List CcbOp} (hops : ops = prepareListOfModifiedObjects (getCreatedData c.modified) ++
      (getModifiedData c.modified).map modifyOp) :
    Along (CcbOp.apply tr) (CcbOp.Ok tr) t ops ∧
    (∀ p o, p ≠ [] → objectAt p c.modified = some o → ops.foldl (CcbOp.apply tr) t p =
      if o.isModifiedObject then (t p).map (overlay o.attributes) else t p) ∧
    ∀ q, (q ≠ [] → objectAt q c.modified = none) → ops.foldl (CcbOp.apply tr) t q = t q := by
  rw [h.unsetMods_eq, h.alteredMods_eq] at hops
  subst hops
  obtain ⟨halong, hfold⟩ := modifies_fixed hinj (h.unsetMods_fixed hnew)
  obtain ⟨halong', hmod, hkeep⟩ := modifies_spec hinj h.alteredMods_pairwise (h.alteredMods_there hold)
  rw [along_append, List.foldl_append, hfold]
  refine ⟨⟨halong, halong'⟩, fun p o hp ho => ?_, fun q hq => hkeep q fun y hy he => ?_⟩
  · cases hm : o.isModifiedObject with
    | true =>
      have hmem : (⟨p, o⟩ : ObjectOf) ∈ getModifiedData c.modified :=
        (mem_traverse h.ordered ⟨p, o⟩).mpr ⟨ho, hm⟩
      rw [if_pos rfl, hmod _ (List.mem_map_of_mem hmem), writeAll_attrValues]
    | false =>
      rw [if_neg Bool.false_ne_true]
      refine hkeep p fun y hy he => ?_
      obtain ⟨x, hx, rfl⟩ := List.mem_map.mp hy
      obtain ⟨_, hobj, hm'⟩ := h.mem_modified hx
      rw [show x.name = p from he, ho] at hobj
      rw [← Option.some.inj hobj, hm] at hm'
      cases hm'
  · obtain ⟨x, hx, rfl⟩ := List.mem_map.mp hy
    obtain ⟨hname, hobj, _⟩ := h.mem_modified hx
    rw [show x.name = q from he] at hname hobj
    rw [hq hname] at hobj
    cases hobj

theorem CacheInv.prepareOps (h : CacheInv tr imm c) (hc : CommitInv tr imm c) (himm : imm.Closed)
    (hinj : Function.Injective tr.mo2ImmDn) :
    Along (CcbOp.apply tr) (CcbOp.Ok tr) imm (prepareOps tr c) ∧
      (prepareOps tr c).foldl (CcbOp.apply tr) imm = content imm c := by
  obtain ⟨halong₁, hnew, hold⟩ := h.creates hc rfl
  obtain ⟨halong₂, hgone, hkept⟩ := h.deletes hc himm hinj hold rfl
  obtain ⟨halong₃, hmod, hrest⟩ := h.modifies hinj
    (fun p o hp ho hn => (hkept p (h.notDeleted p o hp ho)).trans (hnew p o hp ho hn))
    (fun p o hp ho hn => (hkept p (h.notDeleted p o hp ho)).trans (hold p fun o' _ ho' => by
      rwa [← Option.some.inj (ho.symm.trans ho')])) rfl
  rw [ComSA.prepareOps, along_append, along_append, List.foldl_append, List.foldl_append]
  refine ⟨⟨halong₁, halong₂, halong₃⟩, ?_⟩
  funext q
  by_cases hq : q = []
  · have hcov : ¬ Covers (active c.deleted) q := by
      rintro ⟨p, hp, hpq⟩
      rw [hq] at hpq
      exact ne_nil_of_mem_marked (active_subset_marked _ hp) (List.prefix_nil.mp hpq)
    rw [hrest q fun hne => absurd hq hne, hkept q hcov, hold q fun o hne => absurd hq hne, hq,
      himm.root, content_nil]
  by_cases hcov : Covers (active c.deleted) q
  · have hobj : objectAt q c.modified = none := by
      rw [Option.eq_none_iff_forall_ne_some]
      exact fun o ho => h.notDeleted q o hq ho hcov
    rw [hrest q fun _ => hobj, hgone q hcov, content_of_deleted hcov]
  cases hobj : objectAt q c.modified with
  | none =>
    rw [hrest q fun _ => hobj, hkept q hcov, content_of_none hq hcov hobj]
    exact hold q fun o _ ho => by
      rw [hobj] at ho
      cases ho
  | some o =>
    rw [hmod q o hq hobj, hkept q hcov, content_of_some hq hcov hobj]
    cases hn : o.isNewObject with
    | true =>
      rw [if_pos rfl, not_isModifiedObject_of_new hn, if_neg Bool.false_ne_true]
      exact hnew q o hq hobj hn
    | false =>
      rw [if_neg Bool.false_ne_true, hold q fun o' _ ho' => by
        rwa [← Option.some.inj (hobj.symm.trans ho')]]
      cases hm : o.isModifiedObject with
      | true => rw [if_pos rfl]
      | false =>
        rw [if_neg Bool.false_ne_true, (h.object q o hq hobj).plain hn hm]
        exact Option.map_id'.symm

end

end ComSA
