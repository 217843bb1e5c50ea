import ComSA.Motransaction.ModifiedObjects

/-!
# What the tree of modified objects holds

The object an entry stands for, and what each member function does to it. The ordered
lists only matter to the traversals, so they are an invariant of their own.
-/

namespace ComSA.ModifiedObjects

open Forest

def objectAt (parts : List String) (root : ModifiedEntry) : Option ObjectData :=
  (descend parts root).map fun e => e.1.object

/-- The ordered list of every entry has exactly the names below it, each once. -/
def WellOrdered (root : ModifiedEntry) : Prop := Ordered ModifiedData.orderedNames root

theorem find_eq (parts : List String) (root : ModifiedEntry) :
    find parts root = (objectAt parts root).isSome := by
  rw [find, objectAt, Option.isSome_map]

theorem objectAt_nil (root : ModifiedEntry) : objectAt [] root = some root.1.object := rfl

theorem objectAt_cons (part : String) (rest : List String) (root : ModifiedEntry) :
    objectAt (part :: rest) root = (root.2.find part).bind (objectAt rest) := by
  rw [objectAt, descend_cons]
  cases root.2.find part <;> rfl

theorem objectAt_of_isPrefix {p q : List String} (hpq : p <+: q) {root : ModifiedEntry}
    (h : (objectAt q root).isSome = true) : (objectAt p root).isSome = true := by
  obtain ⟨r, rfl⟩ := hpq
  rw [objectAt, descend_append] at h
  rw [objectAt]
  cases hp : descend p root with
  | none => rw [hp] at h; cases h
  | some e => rfl

theorem objectAt_none_of_isPrefix {p q : List String} (hpq : p <+: q) {root : ModifiedEntry}
    (h : objectAt p root = none) : objectAt q root = none := by
  rw [← Option.not_isSome_iff_eq_none] at h ⊢
  exact fun hsome => h (objectAt_of_isPrefix hpq hsome)

/-! ## The object of an entry -/

theorem setEntryKind_parentName (k : ModifiedEntryKind) (o : ObjectData) :
    (o.setEntryKind k).parentName = o.parentName := by
  rw [ObjectData.setEntryKind]
  split <;> rfl

theorem isNewObject_asNew (immName className : String) (parentName : List String)
    (attributeName : String) (v : MoAttributeValueContainer) (o : ObjectData) :
    (o.asNew immName className parentName attributeName v).isNewObject = true := by
  cases hk : o.kind <;>
    simp [ObjectData.asNew, ObjectData.isNewObject, ObjectData.setEntryKind, ModifiedEntryKind.toNat, hk]

theorem isNewObject_asAltered (immName attributeName : String) (v : MoAttributeValueContainer)
    (o : ObjectData) : (o.asAltered immName attributeName v).isNewObject = o.isNewObject := by
  cases hk : o.kind <;>
    simp [ObjectData.asAltered, ObjectData.isNewObject, ObjectData.setEntryKind,
      ModifiedEntryKind.toNat, hk]

theorem isModifiedObject_asAltered (immName attributeName : String)
    (v : MoAttributeValueContainer) (o : ObjectData) :
    (o.asAltered immName attributeName v).isModifiedObject = !o.isNewObject := by
  cases hk : o.kind <;>
    simp [ObjectData.asAltered, ObjectData.isNewObject, ObjectData.isModifiedObject,
      ObjectData.setEntryKind, ModifiedEntryKind.toNat, hk]

theorem asAltered_parentName (immName attributeName : String) (v : MoAttributeValueContainer)
    (o : ObjectData) : (o.asAltered immName attributeName v).parentName = o.parentName :=
  setEntryKind_parentName _ o

theorem asAltered_attributes (immName attributeName : String) (v : MoAttributeValueContainer)
    (o : ObjectData) :
    (o.asAltered immName attributeName v).attributes =
      SortedMap.put attributeName
        (ObjectData.alteredContainer v (SortedMap.get? attributeName o.attributes))
        o.attributes := rfl

/-! ## Adding names -/

theorem find_addName_self (part : String) (entry : ModifiedEntry) :
    (addName part entry).2.find part = some ((entry.2.find part).getD ({}, .nil)) := by
  rw [addName]
  cases h : entry.2.find part with
  | some e => exact h
  | none => exact find_add_self h _

theorem find_addName_ne {part x : String} (hx : x ≠ part) (entry : ModifiedEntry) :
    (addName part entry).2.find x = entry.2.find x := by
  rw [addName]
  cases h : entry.2.find part with
  | some e => rfl
  | none => exact find_add_ne hx _ _

theorem addName_object (part : String) (entry : ModifiedEntry) :
    (addName part entry).1.object = entry.1.object := by
  rw [addName]
  cases entry.2.find part <;> rfl

theorem objectAt_empty (rest : List String) :
    objectAt rest (({}, .nil) : ModifiedEntry) = if rest = [] then some {} else none := by
  cases rest with
  | nil => rfl
  | cons x xs => simp [objectAt_cons]

theorem objectAt_empty_getD (rest : List String) :
    (objectAt rest (({}, .nil) : ModifiedEntry)).getD {} = {} := by
  rw [objectAt_empty]
  split <;> rfl

theorem addNames_cons (f : ObjectData → ObjectData) (part : String) (rest : List String)
    (entry : ModifiedEntry) :
    addNames f (part :: rest) entry =
      ((addName part entry).1, (addName part entry).2.set part
        (addNames f rest ((entry.2.find part).getD ({}, .nil)))) := by
  rw [addNames, find_addName_self]

theorem objectAt_addNames (f : ObjectData → ObjectData) (p q : List String)
    (root : ModifiedEntry) :
    objectAt q (addNames f p root) =
      if q = p then some (f ((objectAt p root).getD {}))
      else if q <+: p then some ((objectAt q root).getD {})
      else objectAt q root := by
  induction p generalizing q root with
  | nil =>
    cases q with
    | nil => rfl
    | cons x xs => simp [addNames, objectAt_cons]
  | cons part rest ih =>
    rw [addNames_cons]
    cases q with
    | nil => simp [objectAt_nil, addName_object]
    | cons x xs =>
      rw [objectAt_cons, objectAt_cons, objectAt_cons]
      by_cases hx : x = part
      · subst hx
        rw [find_set_self (find_addName_self x root), Option.bind_some, ih]
        cases root.2.find x with
        | some e => simp
        | none =>
          simp only [Option.getD_none, objectAt_empty_getD, List.cons.injEq, true_and,
            List.prefix_cons_inj, Option.bind_none]
          split
          · rfl
          · split <;> rename_i hpre
            · rfl
            · rw [objectAt_empty, if_neg]
              rintro rfl
              exact hpre List.nil_prefix
      · rw [find_set_ne hx, find_addName_ne hx]
        simp [hx, List.prefix_cons_iff]

theorem wellOrdered_empty (o : ObjectData) : WellOrdered ({ object := o }, .nil) := ordered_empty rfl

theorem wellOrdered_addName {entry : ModifiedEntry} (h : WellOrdered entry) (part : String) :
    WellOrdered (addName part entry) := by
  rw [addName]
  cases hk : entry.2.find part with
  | some e => exact h
  | none =>
    obtain ⟨⟨hnd, hmem⟩, hc⟩ := ordered_iff.mp h
    have hfind : ∀ n, (entry.2.add part ({}, .nil)).find n =
        if n = part then some ({}, .nil) else entry.2.find n := by
      intro n
      split <;> rename_i hn
      · subst hn
        exact find_add_self hk _
      · exact find_add_ne hn _ _
    refine ordered_iff.mpr ⟨⟨?_, fun n => ?_⟩, fun n e' hn => ?_⟩
    · refine List.nodup_cons.mpr ⟨fun hin => ?_, hnd⟩
      obtain ⟨e', he'⟩ := (hmem part).mp hin
      rw [hk] at he'
      cases he'
    · rw [hfind, List.mem_cons, hmem]
      split <;> rename_i hn <;> simp [hn]
    · rw [hfind] at hn
      split at hn
      · obtain rfl := Option.some.inj hn
        exact wellOrdered_empty {}
      · exact hc n e' hn

theorem wellOrdered_addNames (f : ObjectData → ObjectData) (parts : List String)
    {root : ModifiedEntry} (h : WellOrdered root) : WellOrdered (addNames f parts root) := by
  induction parts generalizing root with
  | nil =>
    obtain ⟨hhere, hc⟩ := ordered_iff.mp h
    exact ordered_iff.mpr ⟨hhere, hc⟩
  | cons part rest ih =>
    rw [addNames_cons]
    refine ordered_set (wellOrdered_addName h part) (find_addName_self part root) (ih ?_)
    cases hk : root.2.find part with
    | none => exact wellOrdered_empty {}
    | some e => exact (ordered_iff.mp h).2 part e hk

/-! ## Removing an object -/

theorem removeObject_of_none {parts : List String} {root : ModifiedEntry}
    (h : objectAt parts root = none) : removeObject parts root = some (false, root) := by
  rw [objectAt, Option.map_eq_none_iff] at h
  rw [removeObject, h]

theorem removeObject_singleton {part : String} {root : ModifiedEntry} {o : ObjectData}
    (h : objectAt [part] root = some o) : removeObject [part] root = none := by
  obtain ⟨e, he, _⟩ := Option.map_eq_some_iff.mp h
  rw [removeObject, he]
  rfl

theorem removeObject_of_some {above : List String} (habove : above ≠ []) {last : String}
    {root : ModifiedEntry} {o : ObjectData} (h : objectAt (above ++ [last]) root = some o) :
    removeObject (above ++ [last]) root =
      some (o.isNewObject, changeBelow (dropName last) above root) := by
  obtain ⟨e, he, rfl⟩ := Option.map_eq_some_iff.mp h
  obtain ⟨x, xs, rfl⟩ := List.exists_cons_of_ne_nil habove
  simp only [removeObject, he, List.dropLast_concat, List.getLast?_concat]

theorem removeObject_cases {parts : List String} (hparts : parts ≠ []) {root after : ModifiedEntry}
    {wasNew : Bool} (h : removeObject parts root = some (wasNew, after)) :
    (objectAt parts root = none ∧ wasNew = false ∧ after = root) ∨
      ∃ above last o, above ≠ [] ∧ parts = above ++ [last] ∧ objectAt parts root = some o ∧
        wasNew = o.isNewObject ∧ after = changeBelow (dropName last) above root := by
  cases ho : objectAt parts root with
  | none =>
    rw [removeObject_of_none ho] at h
    obtain ⟨rfl, rfl⟩ := Prod.mk.inj (Option.some.inj h)
    exact Or.inl ⟨rfl, rfl, rfl⟩
  | some o =>
    obtain ⟨above, last, rfl⟩ := (List.eq_nil_or_concat' parts).resolve_left hparts
    by_cases habove : above = []
    · subst habove
      rw [List.nil_append, removeObject_singleton ho] at h
      cases h
    · rw [removeObject_of_some habove ho] at h
      obtain ⟨rfl, rfl⟩ := Prod.mk.inj (Option.some.inj h)
      exact Or.inr ⟨above, last, o, habove, rfl, rfl, rfl, rfl⟩

theorem objectAt_dropName (above : List String) (last : String) {root : ModifiedEntry}
    {o : ObjectData} (h : objectAt (above ++ [last]) root = some o) (q : List String) :
    objectAt q (changeBelow (dropName last) above root) =
      if above ++ [last] <+: q then none else objectAt q root := by
  have habove : (objectAt above root).isSome = true :=
    objectAt_of_isPrefix (List.prefix_append above [last]) (by rw [h]; rfl)
  obtain ⟨e, he⟩ : ∃ e, descend above root = some e := by
    rwa [objectAt, Option.isSome_map, Option.isSome_iff_exists] at habove
  by_cases hq : above <+: q
  · obtain ⟨r, rfl⟩ := hq
    rw [objectAt, objectAt, descend_changeBelow he, descend_append, he, Option.bind_some]
    cases r with
    | nil =>
      rw [List.append_nil, if_neg fun h => by have := h.length_le; simp at this]
      rfl
    | cons x xs =>
      simp only [List.prefix_append_right_inj, List.cons_prefix_cons, List.nil_prefix, and_true]
      by_cases hx : x = last
      · subst hx
        simp [dropName, descend_cons, find_erase_self]
      · rw [if_neg (Ne.symm hx), dropName, descend_cons, descend_cons, find_erase_ne hx]
  · rw [if_neg fun h => hq ((List.prefix_append above [last]).trans h)]
    have hdata := @data_changeBelow _ _ _ (dropName last) _ _ hq root
    have := congrArg (Option.map ModifiedData.object) hdata
    simpa [objectAt, Option.map_map, Function.comp_def] using this

theorem wellOrdered_dropName {root : ModifiedEntry} (h : WellOrdered root) (above : List String)
    (last : String) : WellOrdered (changeBelow (dropName last) above root) := by
  refine ordered_changeBelow (fun e he => ?_) h
  obtain ⟨⟨hnd, hmem⟩, hc⟩ := ordered_iff.mp he
  have hfind : ∀ n, (e.2.erase last).find n = if n = last then none else e.2.find n := by
    intro n
    split <;> rename_i hn
    · subst hn
      exact find_erase_self _ _
    · exact find_erase_ne hn _
  refine ordered_iff.mpr ⟨⟨hnd.filter _, fun n => ?_⟩, fun n e' hn => ?_⟩
  · rw [dropName, hfind, List.mem_filter, hmem]
    split <;> rename_i hn <;> simp [hn]
  · rw [dropName, hfind] at hn
    split at hn
    · cases hn
    · exact hc n e' hn

/-! ## The lists -/

theorem mem_traverse {keep : ObjectData → Bool} {root : ModifiedEntry} (h : WellOrdered root)
    (x : ObjectOf) :
    x ∈ traverse keep root ↔ objectAt x.name root = some x.object ∧ keep x.object = true := by
  rw [traverse, List.mem_map]
  constructor
  · rintro ⟨⟨q, d⟩, hmem, rfl⟩
    obtain ⟨hvis, hkeep⟩ := List.mem_filter.mp hmem
    obtain ⟨r, hr, hd⟩ := (mem_visit h [] _).mp hvis
    obtain rfl : q = r := by simpa using hr
    obtain ⟨e, he, hed⟩ := Option.map_eq_some_iff.mp hd
    exact ⟨by rw [objectAt, he, Option.map_some, hed], hkeep⟩
  · rintro ⟨hobj, hkeep⟩
    obtain ⟨e, he, hed⟩ := Option.map_eq_some_iff.mp hobj
    refine ⟨(x.name, e.1), List.mem_filter.mpr ⟨?_, by rwa [hed]⟩, by rw [hed]⟩
    exact (mem_visit h [] _).mpr ⟨x.name, by simp, by rw [he, Option.map_some]⟩

theorem traverse_pairwise {keep : ObjectData → Bool} {root : ModifiedEntry} (h : WellOrdered root) :
    (traverse keep root).Pairwise fun x y => ¬ x.name <+: y.name :=
  ((visit_pairwise h []).filter _).map _ fun _ _ hxy => hxy

end ComSA.ModifiedObjects
