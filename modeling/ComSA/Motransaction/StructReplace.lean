import ComSA.Lib.Related
import ComSA.Motransaction.StructWrite

/-!
# What is read of a struct attribute that was written

After `writeStructToImm` has succeeded, `readStructFromImm` gives the values that were
written when no earlier value of a member shows through, and the former instances are gone
when they are the ones that sort last.
-/

namespace ComSA

open ModifiedObjects

section Reading
variable {env : StructEnv} {dn structDn : List String} {attributeName : String} {c : Cache}

/-! ## Reading -/

/-- What is read of one member: nothing where it does not exist, no answer where the read fails. -/
def memberAnswer (env : StructEnv) (dn : List String) (attributeName : String) (structDn : List String) (c : Cache)
    (memberName : String) : Option (Option ReadContainer) :=
  match env.getStructMemberComDatatype dn attributeName memberName with
  | none => none
  | some memberType =>
    match getImmMoAttributeSimple env structDn memberName memberType c with
    | (.ok, some memberValue) => some (some memberValue)
    | (.notExist, _) => some none
    | _ => none

def readingOf (answer : String → Option (Option ReadContainer)) (memberNames : List String) : ReadStruct :=
  memberNames.filterMap fun m => ((answer m).getD none).map (m, ·)

theorem readMembers_cons {memberName : String} {memberNames : List String} {structMembers : ReadStruct} :
    readMembers env dn attributeName structDn c (memberName :: memberNames) structMembers =
      match memberAnswer env dn attributeName structDn c memberName with
      | none => none
      | some none => readMembers env dn attributeName structDn c memberNames structMembers
      | some (some memberValue) =>
        readMembers env dn attributeName structDn c memberNames ((memberName, memberValue) :: structMembers) := by
  rw [readMembers]
  unfold memberAnswer
  cases env.getStructMemberComDatatype dn attributeName memberName with
  | none => rfl
  | some memberType =>
    dsimp only
    generalize getImmMoAttributeSimple env structDn memberName memberType c = r
    obtain ⟨ret, ctp⟩ := r
    cases ret <;> cases ctp <;> rfl

theorem readingOf_reverse_cons (answer : String → Option (Option ReadContainer)) (m : String)
    (memberNames : List String) :
    readingOf answer (m :: memberNames).reverse =
      readingOf answer memberNames.reverse ++ (((answer m).getD none).map (m, ·)).toList := by
  rw [List.reverse_cons]
  unfold readingOf
  rw [List.filterMap_append, List.filterMap_cons]
  cases (answer m).getD none <;> rfl

theorem readMembers_iff {memberNames : List String} {structMembers r : ReadStruct} :
    readMembers env dn attributeName structDn c memberNames structMembers = some r ↔
      (∀ m ∈ memberNames, (memberAnswer env dn attributeName structDn c m).isSome = true) ∧
      r = readingOf (memberAnswer env dn attributeName structDn c) memberNames.reverse ++ structMembers := by
  induction memberNames generalizing structMembers with
  | nil =>
    constructor
    · intro h
      cases h
      exact ⟨fun m hm => absurd hm List.not_mem_nil, rfl⟩
    · rintro ⟨-, rfl⟩
      rfl
  | cons m memberNames ih =>
    rw [readMembers_cons, readingOf_reverse_cons, List.append_assoc, List.forall_mem_cons]
    cases hanswer : memberAnswer env dn attributeName structDn c m with
    | none => exact iff_of_false (fun h => nomatch h) fun h => Bool.false_ne_true h.1.1
    | some answer =>
      rw [Option.isSome_some, Option.getD_some, eq_self, true_and]
      cases answer with
      | none => exact ih
      | some memberValue => exact ih

theorem lookup_readingOf (answer : String → Option (Option ReadContainer)) (memberNames : List String)
    (m : String) :
    (readingOf answer memberNames).lookup m = if m ∈ memberNames then (answer m).getD none else none := by
  unfold readingOf
  induction memberNames with
  | nil => rfl
  | cons x memberNames ih =>
    rw [List.filterMap_cons]
    by_cases hx : m = x
    · subst hx
      rw [if_pos List.mem_cons_self]
      cases hanswer : (answer m).getD none with
      | some ctp =>
        dsimp only [Option.map_some]
        rw [List.lookup_cons_self]
      | none =>
        dsimp only [Option.map_none]
        rw [ih, hanswer]
        split <;> rfl
    · have hmem : m ∈ x :: memberNames ↔ m ∈ memberNames := by simp [hx]
      simp only [hmem]
      cases (answer x).getD none with
      | some ctp =>
        dsimp only [Option.map_some]
        rw [List.lookup_cons, beq_eq_false_iff_ne.mpr hx]
        exact ih
      | none => exact ih

def Readable (env : StructEnv) (dn : List String) (attributeName : String) (structDn : List String)
    (c : Cache) : Prop :=
  match env.getClassNameFromImm (env.tr.mo2ImmDn structDn) with
  | none => c.isInCache structDn = true
  | some structImmClassName => structImmClassName = env.structImmClassName dn attributeName

theorem readInstances_iff {refs : List String} {values r : List ReadStruct}
    (hreadable : ∀ moRef ∈ refs, Readable env dn attributeName (splitDn moRef) c) :
    readInstances env dn attributeName c refs values = (.ok, some r) ↔
      ∃ read, List.Forall₂ (fun moRef structMember => readMembers env dn attributeName (splitDn moRef) c
        (env.getStructMembers dn attributeName).reverse [] = some structMember) refs read ∧
        r = values.reverse ++ read := by
  induction refs generalizing values with
  | nil =>
    constructor
    · intro h
      cases h
      exact ⟨[], List.Forall₂.nil, (List.append_nil _).symm⟩
    · rintro ⟨read, hread, rfl⟩
      cases hread
      rw [List.append_nil]
      rfl
  | cons moRef refs ih =>
    have hfirst := hreadable moRef List.mem_cons_self
    have hstep : readInstances env dn attributeName c (moRef :: refs) values =
        (readMembers env dn attributeName (splitDn moRef) c (env.getStructMembers dn attributeName).reverse []).elim
          (.failure, none) fun structMember => readInstances env dn attributeName c refs (structMember :: values) := by
      rw [readInstances]
      unfold Readable at hfirst
      cases hclass : env.getClassNameFromImm (env.tr.mo2ImmDn (splitDn moRef)) with
      | none =>
        rw [hclass] at hfirst
        dsimp only at hfirst ⊢
        have hin : ¬ (!c.isInCache (splitDn moRef)) = true := by
          rw [hfirst]
          exact Bool.false_ne_true
        generalize readMembers env dn attributeName (splitDn moRef) c _ _ = members
        cases members <;> exact if_neg hin
      | some structImmClassName =>
        rw [hclass] at hfirst
        dsimp only at hfirst ⊢
        generalize readMembers env dn attributeName (splitDn moRef) c _ _ = members
        cases members <;> exact if_neg (not_not.mpr hfirst)
    rw [hstep]
    cases hmembers : readMembers env dn attributeName (splitDn moRef) c
        (env.getStructMembers dn attributeName).reverse [] with
    | none =>
      rw [Option.elim_none]
      constructor
      · intro h
        cases h
      · rintro ⟨read, hread, -⟩
        cases hread with
        | cons hm _ => cases hmembers.symm.trans hm
    | some structMember =>
      rw [Option.elim_some]
      rw [ih fun m hm => hreadable m (List.mem_cons_of_mem _ hm)]
      constructor
      · rintro ⟨read, hread, rfl⟩
        refine ⟨structMember :: read, List.Forall₂.cons hmembers hread, ?_⟩
        rw [List.reverse_cons, List.append_assoc, List.singleton_append]
      · rintro ⟨read, hread, rfl⟩
        cases hread with
        | cons hm hread =>
          cases hmembers.symm.trans hm
          exact ⟨_, hread, by rw [List.reverse_cons, List.append_assoc, List.singleton_append]⟩

end Reading

/-! ## Replacing -/

def AttributeAnswer.hasNoValue : AttributeAnswer → Bool
  | .ok ctp => ctp.values.isEmpty
  | .notExist => true
  | .notConverted => false
  | .error => false

section Replacing
variable (env : StructEnv) (dn attributeName : String)

def structType : String := env.findAttributeTypeName (splitDn dn) attributeName

/-- The references that the attribute holds, in the cache or in IMM. -/
def formerReferences (c : Cache) : List String :=
  match getImmMoAttributeSimple env (splitDn dn) attributeName .string c with
  | (.ok, some ctp) => moRefs ctp
  | _ => []

def newIds (n : Nat) : List String := (List.range n).map (instanceId attributeName)

def structDnOf (id : String) : List String := instanceDn dn (structType env dn attributeName) id

def referenceTo (id : String) : String := ecimStructDn dn (structType env dn attributeName) id

def InImm (id : String) : Prop :=
  env.getClassNameFromImm (env.tr.mo2ImmDn (structDnOf env dn attributeName id)) =
    some (env.structImmClassName (splitDn dn) attributeName)

/-- A struct attribute with the ids of its instances, and the values it is set to. Each instance is an object
in IMM or has been created in the transaction, and the values have members that the model knows. -/
structure StructCall (ids : List String) (values : List StructValue) (c : Cache) : Prop where
  names : StructNames attributeName (structType env dn attributeName)
  owner : c.isDeleted (splitDn dn) = false
  former : formerReferences env dn attributeName c = ids.map (referenceTo env dn attributeName)
  nodup : ids.Nodup
  plain : ∀ id ∈ ids, PlainId id
  alive : ∀ id ∈ ids, c.isDeleted (structDnOf env dn attributeName id) = false
  known : ∀ id ∈ ids, InImm env dn attributeName id ∨ c.isNew (structDnOf env dn attributeName id) = true
  deleted : ∀ id ∈ newIds attributeName values.length,
    c.isDeleted (structDnOf env dn attributeName id) = true → InImm env dn attributeName id
  /-- What IMM has under the name of an instance is one. -/
  instances : ∀ id ∈ newIds attributeName values.length,
    (env.getClassNameFromImm (env.tr.mo2ImmDn (structDnOf env dn attributeName id))).isSome = true →
      InImm env dn attributeName id
  wellTyped : ∀ value ∈ values, (value.map Prod.fst).Nodup ∧
    ∀ m ∈ value.map Prod.fst, m ∈ env.getStructMembers (splitDn dn) attributeName
  members : ∀ m ∈ env.getStructMembers (splitDn dn) attributeName,
    m ≠ instanceKey env dn (structType env dn attributeName) ∧
    (env.getStructMemberComDatatype (splitDn dn) attributeName m).isSome = true ∧
    ∀ id ∈ newIds attributeName values.length,
      env.tr.isDnListValid (structDnOf env dn attributeName id) m = true

/-- A value as it is read: the members that were written, and no value of another one. -/
def ReadsAs (value : StructValue) (read : ReadStruct) : Prop :=
  (∀ m ctp, (m, ctp) ∈ value → read.lookup m = some ctp.written) ∧
  ∀ m ctp, m ∉ value.map Prod.fst → read.lookup m = some ctp → ctp.values = []

/-- The attribute has been replaced: it refers to the new instances, the former ones that are not among them
are deleted, or gone where they had been created, and the values are read as they were written. -/
structure Replaced (ids : List String) (values : List StructValue) (c c' : Cache) : Prop where
  references : (c'.getAttribute (splitDn dn) attributeName).map ReadContainer.values =
    some (((newIds attributeName values.length).map (referenceTo env dn attributeName)).map .text)
  removed : ∀ id ∈ ids, id ∉ newIds attributeName values.length →
    c'.isDeleted (structDnOf env dn attributeName id) = true ∨
    c.isNew (structDnOf env dn attributeName id) = true ∧ c'.isInCache (structDnOf env dn attributeName id) = false
  read : ∃ r, readStructFromImm env dn attributeName c' = (.ok, some r) ∧ List.Forall₂ ReadsAs values r

/-- The instance is deleted before the new values are written. -/
def DeletedFirst (n : Nat) (c : Cache) (id : String) : Prop :=
  referenceTo env dn attributeName id ∈ instancesToDelete (formerReferences env dn attributeName c) n

instance (n : Nat) (c : Cache) (id : String) : Decidable (DeletedFirst env dn attributeName n c id) :=
  inferInstanceAs (Decidable (_ ∈ _))

/-- No value of a member is there before the call, neither in the cache nor, behind it, in IMM. -/
def noValue (n : Nat) (c : Cache) (id memberName : String) : Bool :=
  match if DeletedFirst env dn attributeName n c id then none
    else c.getAttribute (structDnOf env dn attributeName id) memberName with
  | some ctp => ctp.values.isEmpty
  | none =>
    match env.getStructMemberComDatatype (splitDn dn) attributeName memberName with
    | some memberType => (env.immAttribute (env.tr.mo2ImmDn (structDnOf env dn attributeName id)) memberName
        memberType).hasNoValue
    | none => true

/-- No member of the value has a NULL pointer among its values. -/
def NoNull (value : StructValue) : Prop := ∀ m ctp, (m, ctp) ∈ value → MoValue.null ∉ ctp.values

/-- The writes that replace: the former instances that are not among the new ones are those that are deleted
first, no value is NULL, and a member that a new value does not have has no value already. -/
structure Clean (ids : List String) (values : List StructValue) (c : Cache) : Prop where
  last : ∀ id ∈ ids, id ∉ newIds attributeName values.length →
    DeletedFirst env dn attributeName values.length c id
  noNull : ∀ value ∈ values, NoNull value
  members : ∀ x ∈ values.zip (newIds attributeName values.length),
    ∀ m ∈ env.getStructMembers (splitDn dn) attributeName, m ∉ x.1.map Prod.fst →
      noValue env dn attributeName values.length c x.2 m = true

end Replacing

section Effect
variable {env : StructEnv} {dn attributeName : String} {ids : List String} {values : List StructValue}
  {c c' : Cache}

theorem mem_newIds {n : Nat} {id : String} :
    id ∈ newIds attributeName n ↔ ∃ ix < n, id = instanceId attributeName ix := by
  simp only [newIds, List.mem_map, List.mem_range, eq_comm]

theorem length_newIds (n : Nat) : (newIds attributeName n).length = n := by
  rw [newIds, List.length_map, List.length_range]

theorem referenceTo_injective : Function.Injective (referenceTo env dn attributeName) := by
  intro a b h
  have hlist := congrArg String.toList h
  unfold referenceTo ecimStructDn at hlist
  rw [String.toList_append, String.toList_append, String.toList_append, String.toList_append,
    List.append_cancel_left_eq] at hlist
  exact uniqueId_injective (String.toList_inj.mp hlist)

/-! ## Which instances are deleted first -/

theorem mem_sortNames {names : List String} {s : String} : s ∈ sortNames names ↔ s ∈ names :=
  List.mem_insertionSort _

theorem instancesToDelete_subset {refs : List String} {n : Nat} {s : String} (h : s ∈ instancesToDelete refs n) :
    s ∈ refs := by
  unfold instancesToDelete at h
  split at h
  · exact mem_sortNames.mp (List.mem_of_mem_drop h)
  · split at h
    · exact mem_sortNames.mp h
    · exact absurd h List.not_mem_nil

theorem instancesToDelete_nodup {refs : List String} (h : refs.Nodup) (n : Nat) :
    (instancesToDelete refs n).Nodup := by
  have hsorted : (sortNames refs).Nodup := (List.perm_insertionSort _ refs).nodup_iff.mpr h
  unfold instancesToDelete
  split
  · exact hsorted.sublist (List.drop_sublist _ _)
  · split
    · exact hsorted
    · exact List.nodup_nil

theorem mem_instancesToDelete_zero {refs : List String} {s : String} : s ∈ instancesToDelete refs 0 ↔ s ∈ refs := by
  refine ⟨instancesToDelete_subset, fun h => ?_⟩
  rw [instancesToDelete, if_pos (List.length_pos_of_mem h), List.drop_zero]
  exact mem_sortNames.mpr h

theorem StructCall.deletedFirst_mem (hcall : StructCall env dn attributeName ids values c) {n : Nat} {id : String}
    (h : DeletedFirst env dn attributeName n c id) : id ∈ ids := by
  have hmem := instancesToDelete_subset h
  rw [hcall.former] at hmem
  obtain ⟨x, hx, heq⟩ := List.mem_map.mp hmem
  exact referenceTo_injective heq ▸ hx

theorem StructCall.deleteIds (hcall : StructCall env dn attributeName ids values c) (n : Nat) :
    ∃ first : List String, instancesToDelete (formerReferences env dn attributeName c) n =
        first.map (ecimStructDn dn (structType env dn attributeName)) ∧
      first.Nodup ∧ (∀ id ∈ first, id ∈ ids) ∧ ∀ id, id ∈ first ↔ DeletedFirst env dn attributeName n c id := by
  refine ⟨(instancesToDelete (formerReferences env dn attributeName c) n).map idOf, ?_⟩
  have hback : ∀ s ∈ instancesToDelete (formerReferences env dn attributeName c) n, ∃ id ∈ ids,
      s = referenceTo env dn attributeName id ∧ idOf s = id := by
    intro s hs
    have hmem := instancesToDelete_subset hs
    rw [hcall.former] at hmem
    obtain ⟨id, hid, rfl⟩ := List.mem_map.mp hmem
    exact ⟨id, hid, rfl, idOf_ecimStructDn (hcall.plain id hid) dn⟩
  have hmap : ((instancesToDelete (formerReferences env dn attributeName c) n).map idOf).map
      (ecimStructDn dn (structType env dn attributeName)) =
      instancesToDelete (formerReferences env dn attributeName c) n := by
    rw [List.map_map]
    refine (List.map_congr_left fun s hs => ?_).trans (List.map_id _)
    obtain ⟨id, -, rfl, hid⟩ := hback s hs
    rw [Function.comp_apply, hid]
    rfl
  have hformer : (formerReferences env dn attributeName c).Nodup := by
    rw [hcall.former]
    exact hcall.nodup.map referenceTo_injective
  refine ⟨hmap.symm, ?_, fun id hid => ?_, fun id => ?_⟩
  · have hnodup := instancesToDelete_nodup hformer n
    rw [← hmap] at hnodup
    exact hnodup.of_map _
  · obtain ⟨s, hs, rfl⟩ := List.mem_map.mp hid
    obtain ⟨id, hid, -, heq⟩ := hback s hs
    exact heq ▸ hid
  · constructor
    · intro hid
      obtain ⟨s, hs, rfl⟩ := List.mem_map.mp hid
      obtain ⟨id, -, rfl, heq⟩ := hback s hs
      rw [heq]
      exact hs
    · intro hid
      obtain ⟨x, -, heq, hx⟩ := hback _ hid
      exact List.mem_map.mpr ⟨_, hid, hx.trans (referenceTo_injective heq).symm⟩

/-! ## What a write does -/

theorem getImmMoAttributeSimple_ok_none (x : List String) (a : String) (t : MoAttributeType) :
    getImmMoAttributeSimple env x a t c ≠ (.ok, none) := by
  unfold getImmMoAttributeSimple
  split
  · exact fun h => nomatch h
  split
  · exact fun h => nomatch h
  split
  · exact fun h => nomatch h
  split
  · exact fun h => nomatch h
  · exact fun h => nomatch h
  · split <;> exact fun h => nomatch h
  · exact fun h => nomatch h

theorem replaceInstances_of_write (h : writeStructToImm env dn attributeName values c = some (.ok, c')) :
    env.tr.isDnListValid (splitDn dn) attributeName = true ∧
    replaceInstances env dn attributeName values (formerReferences env dn attributeName c) c = some (.ok, c') := by
  have hvalid : env.tr.isDnListValid (splitDn dn) attributeName = true := by
    by_contra hnot
    have hread : getImmMoAttributeSimple env (splitDn dn) attributeName .string c = (.failure, none) := by
      unfold getImmMoAttributeSimple
      rw [if_pos (by simpa using hnot)]
    unfold writeStructToImm at h
    rw [hread] at h
    cases h
  refine ⟨hvalid, ?_⟩
  have hnone : getImmMoAttributeSimple env (splitDn dn) attributeName .string c ≠ (.ok, none) :=
    getImmMoAttributeSimple_ok_none (splitDn dn) attributeName .string
  unfold writeStructToImm at h
  unfold formerReferences
  generalize getImmMoAttributeSimple env (splitDn dn) attributeName .string c = r at h hnone
  obtain ⟨ret, ctp⟩ := r
  cases ret <;> cases ctp
  all_goals first | exact absurd rfl hnone | exact h | cases h

theorem replaceInstances_ok {refs : List String}
    (h : replaceInstances env dn attributeName values refs c = some (.ok, c')) :
    (values = [] ∧ ∃ names c₁, deleteInstances env refs [] c = some (.ok, names, c₁) ∧
      updateReferences env dn attributeName [] c₁ = (.ok, c')) ∨
    values ≠ [] ∧ ∃ names c₁ c₂,
      deleteInstances env (instancesToDelete refs values.length) (refs.map idOf) c = some (.ok, names, c₁) ∧
      writeInstances env dn attributeName (structType env dn attributeName) names 0 values c₁ = (.ok, c₂) ∧
      updateReferences env dn attributeName ((List.range values.length).map fun ix =>
        ecimStructDn dn (structType env dn attributeName) (instanceId attributeName ix)) c₂ = (.ok, c') := by
  unfold replaceInstances at h
  by_cases hempty : values = []
  · rw [if_pos hempty] at h
    cases hdelete : deleteInstances env refs [] c with
    | none =>
      rw [hdelete] at h
      cases h
    | some r =>
      obtain ⟨ret, names, c₁⟩ := r
      rw [hdelete] at h
      cases ret with
      | ok => exact Or.inl ⟨hempty, names, c₁, rfl, Option.some.inj h⟩
      | _ => cases h
  · rw [if_neg hempty] at h
    cases hdelete : deleteInstances env (instancesToDelete refs values.length) (refs.map idOf) c with
    | none =>
      rw [hdelete] at h
      cases h
    | some r =>
      obtain ⟨ret, names, c₁⟩ := r
      rw [hdelete] at h
      cases ret with
      | ok =>
        dsimp only at h
        cases hwrite : writeInstances env dn attributeName (env.findAttributeTypeName (splitDn dn) attributeName)
            names 0 values c₁ with
        | mk ret c₂ =>
          rw [hwrite] at h
          cases ret with
          | ok => exact Or.inr ⟨hempty, names, c₁, c₂, rfl, hwrite, Option.some.inj h⟩
          | _ => cases h
      | _ => cases h

structure StructWritten (env : StructEnv) (dn attributeName : String) (ids : List String) (values : List StructValue)
    (c c' : Cache) : Prop where
  alive : c'.isDeleted (splitDn dn) = false
  references : c'.getAttribute (splitDn dn) attributeName = some ⟨some .reference,
    ((newIds attributeName values.length).map (referenceTo env dn attributeName)).map .text⟩
  others : ∀ id, id ∉ newIds attributeName values.length → c'.view (structDnOf env dn attributeName id) =
    if DeletedFirst env dn attributeName values.length c id
    then (c.view (structDnOf env dn attributeName id)).afterDelete
    else c.view (structDnOf env dn attributeName id)
  written : ∀ ix (hix : ix < values.length),
    InstanceView.Written (instanceKey env dn (structType env dn attributeName))
      (instanceId attributeName ix ∈ ids ∧ ¬ DeletedFirst env dn attributeName values.length c
        (instanceId attributeName ix)) (values.get ⟨ix, hix⟩)
      (if DeletedFirst env dn attributeName values.length c (instanceId attributeName ix)
        then (c.view (structDnOf env dn attributeName (instanceId attributeName ix))).afterDelete
        else c.view (structDnOf env dn attributeName (instanceId attributeName ix)))
      (c'.view (structDnOf env dn attributeName (instanceId attributeName ix)))

theorem StructCall.written_nil (hcall : StructCall env dn attributeName ids [] c) {names : List String} {c₁ : Cache}
    (hdelete : deleteInstances env (formerReferences env dn attributeName c) [] c = some (.ok, names, c₁))
    (hupdate : updateReferences env dn attributeName [] c₁ = (.ok, c')) :
    StructWritten env dn attributeName ids [] c c' := by
  rw [hcall.former] at hdelete
  obtain ⟨hview, hbase, -⟩ := deleteInstances_view hcall.names hcall.plain hcall.nodup hcall.alive hdelete
  obtain ⟨halive, hrefs, hviews, hdn⟩ := updateReferences_view hupdate
  refine ⟨hdn.trans halive, hrefs, fun id _ => ?_, fun ix hix => absurd hix (Nat.not_lt_zero ix)⟩
  have hfirst : DeletedFirst env dn attributeName 0 c id ↔ id ∈ ids := by
    rw [DeletedFirst, mem_instancesToDelete_zero, hcall.former, List.mem_map_of_injective referenceTo_injective]
  refine ((hviews id).trans (hview id)).trans ?_
  simp only [List.length_nil, hfirst]
  rfl

theorem StructCall.written_values (hcall : StructCall env dn attributeName ids values c) {names : List String}
    {c₁ c₂ : Cache}
    (hdelete : deleteInstances env (instancesToDelete (formerReferences env dn attributeName c) values.length)
      ((formerReferences env dn attributeName c).map idOf) c = some (.ok, names, c₁))
    (hwrite : writeInstances env dn attributeName (structType env dn attributeName) names 0 values c₁ = (.ok, c₂))
    (hupdate : updateReferences env dn attributeName ((List.range values.length).map fun ix =>
      ecimStructDn dn (structType env dn attributeName) (instanceId attributeName ix)) c₂ = (.ok, c')) :
    StructWritten env dn attributeName ids values c c' := by
  obtain ⟨first, hfirst, hnodup, hsubset, hmem⟩ := hcall.deleteIds values.length
  have hids : (formerReferences env dn attributeName c).map idOf = ids := by
    rw [hcall.former, List.map_map]
    refine (List.map_congr_left fun id hid => ?_).trans (List.map_id ids)
    exact idOf_ecimStructDn (hcall.plain id hid) dn
  rw [hfirst, hids] at hdelete
  obtain ⟨hview, hbase, hnames⟩ :=
    deleteInstances_view hcall.names (fun id hid => hcall.plain id (hsubset id hid)) hnodup
      (fun id hid => hcall.alive id (hsubset id hid)) hdelete
  obtain ⟨hwritten, hothers, hdn⟩ := writeInstances_view hcall.names
    (fun value hvalue => (hcall.wellTyped value hvalue).1) (hbase.trans hcall.owner) hwrite
  obtain ⟨halive, hrefs, hviews, hdn'⟩ := @updateReferences_view env dn attributeName
    (structType env dn attributeName) c₂ c' _ hupdate
  refine ⟨hdn'.trans halive, ?_, fun id hid => ?_, fun ix hix => ?_⟩
  · have hnew : (newIds attributeName values.length).map (referenceTo env dn attributeName) =
        (List.range values.length).map fun ix => ecimStructDn dn (structType env dn attributeName)
          (instanceId attributeName ix) := by
      rw [newIds, List.map_map]
      rfl
    rw [hrefs, hnew]
  · have hnot : ∀ j < values.length, id ≠ instanceId attributeName (0 + j) := by
      intro j hj heq
      rw [Nat.zero_add] at heq
      exact hid (mem_newIds.mpr ⟨j, hj, heq⟩)
    refine (((hviews id).trans (hothers id hnot)).trans (hview id)).trans ?_
    simp only [hmem]
    rfl
  · have hone := hwritten ix hix
    rw [Nat.zero_add, hview, hnames, ← hviews] at hone
    simp only [hmem] at hone
    exact hone

theorem StructCall.effect (hcall : StructCall env dn attributeName ids values c)
    (h : writeStructToImm env dn attributeName values c = some (.ok, c')) :
    env.tr.isDnListValid (splitDn dn) attributeName = true ∧ StructWritten env dn attributeName ids values c c' := by
  obtain ⟨hvalid, hreplace⟩ := replaceInstances_of_write h
  refine ⟨hvalid, ?_⟩
  rcases replaceInstances_ok hreplace with
    ⟨rfl, names, c₁, hdelete, hupdate⟩ | ⟨-, names, c₁, c₂, hdelete, hwrite, hupdate⟩
  · exact hcall.written_nil hdelete hupdate
  · exact hcall.written_values hdelete hwrite hupdate

/-! ## What is read afterwards -/

theorem memberAnswer_eq {structDn : List String} {m : String} {memberType : MoAttributeType}
    (htype : env.getStructMemberComDatatype (splitDn dn) attributeName m = some memberType)
    (hvalid : env.tr.isDnListValid structDn m = true) (halive : c.isDeleted structDn = false) :
    memberAnswer env (splitDn dn) attributeName structDn c m =
      match c.getAttribute structDn m with
      | some ctp => some (some ctp)
      | none =>
        match env.immAttribute (env.tr.mo2ImmDn structDn) m memberType with
        | .ok ctp => some (some ctp)
        | .notConverted => none
        | .notExist =>
          if c.isInCache structDn && env.getImmAttributeData structDn m then some (some ⟨some memberType, []⟩)
          else some none
        | .error => none := by
  unfold memberAnswer
  rw [htype]
  dsimp only
  unfold getImmMoAttributeSimple
  rw [hvalid, halive, Bool.not_true, if_neg Bool.false_ne_true, if_neg Bool.false_ne_true]
  cases c.getAttribute structDn m with
  | some ctp => rfl
  | none =>
    dsimp only
    cases env.immAttribute (env.tr.mo2ImmDn structDn) m memberType with
    | notExist =>
      dsimp only
      cases (c.isInCache structDn && env.getImmAttributeData structDn m) <;> rfl
    | _ => rfl

def NoValueRead (answer : Option (Option ReadContainer)) : Prop :=
  answer.isSome = true ∧ ∀ ctp, answer.getD none = some ctp → ctp.values = []

theorem noValueRead_some (ctp : ReadContainer) : NoValueRead (some (some ctp)) ↔ ctp.values.isEmpty = true := by
  rw [List.isEmpty_iff]
  constructor
  · exact fun h => h.2 ctp rfl
  · intro h
    refine ⟨rfl, fun x hx => ?_⟩
    cases hx
    exact h

theorem noValueRead_iff {n : Nat} {id m : String}
    (htype : (env.getStructMemberComDatatype (splitDn dn) attributeName m).isSome = true)
    (hvalid : env.tr.isDnListValid (structDnOf env dn attributeName id) m = true)
    (halive : c'.isDeleted (structDnOf env dn attributeName id) = false)
    (hleft : c'.getAttribute (structDnOf env dn attributeName id) m =
      if DeletedFirst env dn attributeName n c id then none
      else c.getAttribute (structDnOf env dn attributeName id) m) :
    NoValueRead (memberAnswer env (splitDn dn) attributeName (structDnOf env dn attributeName id) c' m) ↔
      noValue env dn attributeName n c id m = true := by
  obtain ⟨memberType, htype⟩ := Option.isSome_iff_exists.mp htype
  rw [memberAnswer_eq htype hvalid halive, hleft]
  unfold noValue
  cases (if DeletedFirst env dn attributeName n c id then none
      else c.getAttribute (structDnOf env dn attributeName id) m) with
  | some ctp => exact noValueRead_some ctp
  | none =>
    rw [htype]
    dsimp only
    cases env.immAttribute (env.tr.mo2ImmDn (structDnOf env dn attributeName id)) m memberType with
    | ok ctp => exact noValueRead_some ctp
    | notConverted => exact iff_of_false (fun h => Bool.false_ne_true h.1) Bool.false_ne_true
    | error => exact iff_of_false (fun h => Bool.false_ne_true h.1) Bool.false_ne_true
    | notExist =>
      refine iff_of_true ?_ rfl
      dsimp only
      split
      · exact (noValueRead_some _).mpr rfl
      · exact ⟨rfl, fun ctp h => nomatch h⟩

theorem readsAs_readingOf {answer : String → Option (Option ReadContainer)} {memberNames : List String}
    {value : StructValue} (hmembers : ∀ m ∈ value.map Prod.fst, m ∈ memberNames)
    (hset : ∀ m ctp, (m, ctp) ∈ value → answer m = some (some ctp.read)) :
    ((∀ m ∈ memberNames, (answer m).isSome = true) ∧ ReadsAs value (readingOf answer memberNames)) ↔
      NoNull value ∧ ∀ m ∈ memberNames, m ∉ value.map Prod.fst → NoValueRead (answer m) := by
  have hlookup {m : String} {ctp : MoAttributeValueContainer} (hm : (m, ctp) ∈ value) :
      (readingOf answer memberNames).lookup m = some ctp.read := by
    rw [lookup_readingOf, if_pos (hmembers m (List.mem_map_of_mem hm)), hset m ctp hm]
    rfl
  constructor
  · rintro ⟨hsome, hwritten, hother⟩
    refine ⟨fun m ctp hm => ?_, fun m hm hnot => ⟨hsome m hm, fun ctp hctp => hother m ctp hnot ?_⟩⟩
    · exact read_eq_written_iff.mp (Option.some.inj ((hlookup hm).symm.trans (hwritten m ctp hm)))
    · rw [lookup_readingOf, if_pos hm]
      exact hctp
  · rintro ⟨hnull, h⟩
    refine ⟨fun m hm => ?_, fun m ctp hm => ?_, fun m ctp hnot hlookup => ?_⟩
    · by_cases hin : m ∈ value.map Prod.fst
      · obtain ⟨⟨x, ctp⟩, hctp, rfl⟩ := List.mem_map.mp hin
        rw [hset x ctp hctp]
        rfl
      · exact (h m hm hin).1
    · rw [hlookup hm, read_eq_written_iff.mpr (hnull m ctp hm)]
    · rw [lookup_readingOf] at hlookup
      split at hlookup
      · rename_i hm
        exact (h m hm hnot).2 ctp hlookup
      · cases hlookup

theorem Cache.isInCache_of_isNew {x : List String} (h : c.isNew x = true) : c.isInCache x = true := by
  rw [Cache.isInCache, find_eq]
  unfold Cache.isNew at h
  cases ho : objectAt x c.modified with
  | none =>
    rw [ho] at h
    cases h
  | some o => rfl

theorem StructCall.before_deleted (hcall : StructCall env dn attributeName ids values c) {id : String}
    (hkept : id ∈ ids ∧ ¬ DeletedFirst env dn attributeName values.length c id) :
    (if DeletedFirst env dn attributeName values.length c id
      then (c.view (structDnOf env dn attributeName id)).afterDelete
      else c.view (structDnOf env dn attributeName id)).deleted = false := by
  rw [if_neg hkept.2]
  exact hcall.alive id hkept.1

theorem StructCall.readable (hcall : StructCall env dn attributeName ids values c) {id : String}
    (hid : id ∈ newIds attributeName values.length) {key : String} {value : StructValue}
    (hwritten : InstanceView.Written key (id ∈ ids ∧ ¬ DeletedFirst env dn attributeName values.length c id) value
      (if DeletedFirst env dn attributeName values.length c id
        then (c.view (structDnOf env dn attributeName id)).afterDelete
        else c.view (structDnOf env dn attributeName id))
      (c'.view (structDnOf env dn attributeName id))) :
    Readable env (splitDn dn) attributeName (structDnOf env dn attributeName id) c' := by
  unfold Readable
  cases hclass : env.getClassNameFromImm (env.tr.mo2ImmDn (structDnOf env dn attributeName id)) with
  | some structImmClassName =>
    have hin := hcall.instances id hid (by rw [hclass]; rfl)
    rw [InImm, hclass] at hin
    exact Option.some.inj hin
  | none =>
    have hnot : ¬ InImm env dn attributeName id := by
      rw [InImm, hclass]
      exact fun h => nomatch h
    by_cases hfirst : DeletedFirst env dn attributeName values.length c id
    · -- it had been created in the transaction, so nothing is left of it
      have hnew : c.isNew (structDnOf env dn attributeName id) = true :=
        (hcall.known id (hcall.deletedFirst_mem hfirst)).resolve_left hnot
      refine hwritten.new (fun hkept => hkept.2 hfirst) ?_
      rw [if_pos hfirst]
      change (!c.isNew (structDnOf env dn attributeName id)) = false
      rw [hnew]
      rfl
    · by_cases hmem : id ∈ ids
      · have hnew := (hcall.known id hmem).resolve_left hnot
        refine hwritten.stays ⟨hmem, hfirst⟩ ?_
        rw [if_neg hfirst]
        exact Cache.isInCache_of_isNew hnew
      · refine hwritten.new (fun hkept => hmem hkept.1) ?_
        rw [if_neg hfirst]
        change c.isDeleted (structDnOf env dn attributeName id) = false
        rw [← Bool.not_eq_true]
        exact fun hdeleted => hnot (hcall.deleted id hid hdeleted)

theorem StructCall.read_iff (hcall : StructCall env dn attributeName ids values c)
    (h : writeStructToImm env dn attributeName values c = some (.ok, c')) (S : StructValue → ReadStruct → Prop) :
    (∃ r, readStructFromImm env dn attributeName c' = (.ok, some r) ∧ List.Forall₂ S values r) ↔
      ∀ x ∈ values.zip (newIds attributeName values.length),
        (∀ m ∈ env.getStructMembers (splitDn dn) attributeName,
          (memberAnswer env (splitDn dn) attributeName (structDnOf env dn attributeName x.2) c' m).isSome = true) ∧
        S x.1 (readingOf (memberAnswer env (splitDn dn) attributeName (structDnOf env dn attributeName x.2) c')
          (env.getStructMembers (splitDn dn) attributeName)) := by
  obtain ⟨hvalid, halive, hrefs, -, hwritten⟩ := hcall.effect h
  have hdn {id : String} (hid : id ∈ newIds attributeName values.length) :
      splitDn (referenceTo env dn attributeName id) = structDnOf env dn attributeName id := by
    obtain ⟨ix, -, rfl⟩ := mem_newIds.mp hid
    exact hcall.names.splitDn_ecimStructDn (hcall.names.plainId ix) dn
  have hreadable : ∀ moRef ∈ (newIds attributeName values.length).map (referenceTo env dn attributeName),
      Readable env (splitDn dn) attributeName (splitDn moRef) c' := by
    intro moRef hmem
    obtain ⟨id, hid, rfl⟩ := List.mem_map.mp hmem
    rw [hdn hid]
    obtain ⟨ix, hix, rfl⟩ := mem_newIds.mp hid
    exact hcall.readable hid (hwritten ix hix)
  have hread : readStructFromImm env dn attributeName c' = readInstances env (splitDn dn) attributeName c'
      ((newIds attributeName values.length).map (referenceTo env dn attributeName)) [] := by
    have hanswer : getImmMoAttributeSimple env (splitDn dn) attributeName .reference c' =
      (.ok, some ⟨some .reference,
        ((newIds attributeName values.length).map (referenceTo env dn attributeName)).map .text⟩) := by
      unfold getImmMoAttributeSimple
      rw [hvalid, halive, hrefs]
      rfl
    have hback : moRefs ⟨some .reference,
        ((newIds attributeName values.length).map (referenceTo env dn attributeName)).map .text⟩ =
        (newIds attributeName values.length).map (referenceTo env dn attributeName) := by
      unfold moRefs
      rw [List.map_map]
      exact List.map_id _
    unfold readStructFromImm
    rw [hanswer]
    dsimp only
    rw [hback]
  have hstep {id : String} (hid : id ∈ newIds attributeName values.length) (structMember : ReadStruct) :
      readMembers env (splitDn dn) attributeName (splitDn (referenceTo env dn attributeName id)) c'
        (env.getStructMembers (splitDn dn) attributeName).reverse [] = some structMember ↔
      (∀ m ∈ env.getStructMembers (splitDn dn) attributeName,
        (memberAnswer env (splitDn dn) attributeName (structDnOf env dn attributeName id) c' m).isSome = true) ∧
      structMember = readingOf (memberAnswer env (splitDn dn) attributeName (structDnOf env dn attributeName id) c')
        (env.getStructMembers (splitDn dn) attributeName) := by
    rw [readMembers_iff, List.reverse_reverse, List.append_nil, hdn hid]
    simp only [List.mem_reverse]
  have hlength : values.length = (newIds attributeName values.length).length := (length_newIds _).symm
  have hsnd : (values.zip (newIds attributeName values.length)).map Prod.snd = newIds attributeName values.length :=
    List.map_snd_zip hlength.ge
  simp only [hread, readInstances_iff hreadable, List.forall₂_map_left_iff,
    forall₂_graph fun _ hid => hstep hid]
  constructor
  · rintro ⟨r, ⟨read, ⟨hsome, rfl⟩, rfl⟩, hS⟩ x hx
    rw [List.reverse_nil, List.nil_append, List.forall₂_map_right_iff, List.forall₂_iff_zip] at hS
    exact ⟨hsome x.2 (List.of_mem_zip hx).2, hS.2 hx⟩
  · intro h
    refine ⟨_, ⟨_, ⟨fun id hid => ?_, rfl⟩, rfl⟩, ?_⟩
    · rw [← hsnd] at hid
      obtain ⟨x, hx, rfl⟩ := List.mem_map.mp hid
      exact (h x hx).1
    · rw [List.reverse_nil, List.nil_append, List.forall₂_map_right_iff, List.forall₂_iff_zip]
      exact ⟨hlength, fun hx => (h _ hx).2⟩

theorem StructCall.readsAs_iff (hcall : StructCall env dn attributeName ids values c)
    (h : writeStructToImm env dn attributeName values c = some (.ok, c')) {x : StructValue × String}
    (hx : x ∈ values.zip (newIds attributeName values.length)) :
    ((∀ m ∈ env.getStructMembers (splitDn dn) attributeName,
        (memberAnswer env (splitDn dn) attributeName (structDnOf env dn attributeName x.2) c' m).isSome = true) ∧
      ReadsAs x.1 (readingOf (memberAnswer env (splitDn dn) attributeName (structDnOf env dn attributeName x.2) c')
        (env.getStructMembers (splitDn dn) attributeName))) ↔
    NoNull x.1 ∧ ∀ m ∈ env.getStructMembers (splitDn dn) attributeName, m ∉ x.1.map Prod.fst →
      noValue env dn attributeName values.length c x.2 m = true := by
  have hwritten := (hcall.effect h).2.written
  have hid := (List.of_mem_zip hx).2
  have hw : InstanceView.Written (instanceKey env dn (structType env dn attributeName))
      (x.2 ∈ ids ∧ ¬ DeletedFirst env dn attributeName values.length c x.2) x.1
      (if DeletedFirst env dn attributeName values.length c x.2
        then (c.view (structDnOf env dn attributeName x.2)).afterDelete
        else c.view (structDnOf env dn attributeName x.2))
      (c'.view (structDnOf env dn attributeName x.2)) := by
    obtain ⟨⟨ix, hix⟩, heq⟩ := List.mem_iff_get.mp hx
    have hix' : ix < values.length := by
      rw [List.length_zip] at hix
      exact hix.trans_le (Nat.min_le_left _ _)
    have hvalue : values.get ⟨ix, hix'⟩ = x.1 := by
      rw [← heq]
      simp
    have hinstance : instanceId attributeName ix = x.2 := by
      rw [← heq]
      simp [newIds]
    rw [← hvalue, ← hinstance]
    exact hwritten ix hix'
  have halive : c'.isDeleted (structDnOf env dn attributeName x.2) = false := hw.alive hcall.before_deleted
  have hattribute (m : String) : c'.getAttribute (structDnOf env dn attributeName x.2) m =
      (c'.view (structDnOf env dn attributeName x.2)).attributes m := rfl
  have htyped := hcall.wellTyped x.1 (List.of_mem_zip hx).1
  rw [readsAs_readingOf htyped.2]
  · refine and_congr_right fun _ => forall₂_congr fun m hm => forall_congr' fun hnot => ?_
    obtain ⟨hkey, htype, hvalid⟩ := hcall.members m hm
    refine noValueRead_iff htype (hvalid x.2 hid) halive ?_
    rw [hattribute, hw.left m hnot hkey]
    split <;> rfl
  · intro m ctp hmem
    obtain ⟨-, htype, hvalid⟩ := hcall.members m (htyped.2 m (List.mem_map_of_mem hmem))
    obtain ⟨memberType, htype⟩ := Option.isSome_iff_exists.mp htype
    rw [memberAnswer_eq htype (hvalid x.2 hid) halive, hattribute, hw.set m ctp hmem]

theorem StructCall.removed_iff (hcall : StructCall env dn attributeName ids values c)
    (h : writeStructToImm env dn attributeName values c = some (.ok, c')) {id : String} (hid : id ∈ ids)
    (hnot : id ∉ newIds attributeName values.length) :
    (c'.isDeleted (structDnOf env dn attributeName id) = true ∨
      c.isNew (structDnOf env dn attributeName id) = true ∧
        c'.isInCache (structDnOf env dn attributeName id) = false) ↔
    DeletedFirst env dn attributeName values.length c id := by
  have hviews := (hcall.effect h).2.others
  have hview := hviews id hnot
  by_cases hfirst : DeletedFirst env dn attributeName values.length c id
  · rw [if_pos hfirst] at hview
    refine iff_of_true ?_ hfirst
    have hdeleted : c'.isDeleted (structDnOf env dn attributeName id) =
        !c.isNew (structDnOf env dn attributeName id) := congrArg InstanceView.deleted hview
    have hin : c'.isInCache (structDnOf env dn attributeName id) = false := congrArg InstanceView.inCache hview
    rw [hdeleted, hin]
    cases c.isNew (structDnOf env dn attributeName id) with
    | true => exact Or.inr ⟨rfl, rfl⟩
    | false => exact Or.inl rfl
  · rw [if_neg hfirst] at hview
    refine iff_of_false ?_ hfirst
    have hdeleted : c'.isDeleted (structDnOf env dn attributeName id) = false :=
      (congrArg InstanceView.deleted hview).trans (hcall.alive id hid)
    have hin : c'.isInCache (structDnOf env dn attributeName id) =
        c.isInCache (structDnOf env dn attributeName id) := congrArg InstanceView.inCache hview
    rw [hdeleted, hin]
    rintro (hyes | ⟨hnew, hgone⟩)
    · exact Bool.false_ne_true hyes
    · exact Bool.false_ne_true (hgone.symm.trans (Cache.isInCache_of_isNew hnew))

/-- Writing a struct attribute replaces it exactly when the former instances that are left over sort last, no
value is NULL, and no value of a member that is not written shows through. -/
theorem replacesStruct_iff (hcall : StructCall env dn attributeName ids values c)
    (h : writeStructToImm env dn attributeName values c = some (.ok, c')) :
    Replaced env dn attributeName ids values c c' ↔ Clean env dn attributeName ids values c := by
  have hreferences : (c'.getAttribute (splitDn dn) attributeName).map ReadContainer.values =
      some (((newIds attributeName values.length).map (referenceTo env dn attributeName)).map .text) := by
    have hrefs := (hcall.effect h).2.references
    rw [hrefs]
    rfl
  have hread := hcall.read_iff h ReadsAs
  have hfst : (values.zip (newIds attributeName values.length)).map Prod.fst = values :=
    List.map_fst_zip (length_newIds _).ge
  constructor
  · intro hreplaced
    have hvalue {x : StructValue × String} (hx : x ∈ values.zip (newIds attributeName values.length)) :=
      (hcall.readsAs_iff h hx).mp (hread.mp hreplaced.read x hx)
    refine ⟨fun id hid hnot => (hcall.removed_iff h hid hnot).mp (hreplaced.removed id hid hnot), fun value hv => ?_,
      fun x hx => (hvalue hx).2⟩
    rw [← hfst] at hv
    obtain ⟨x, hx, rfl⟩ := List.mem_map.mp hv
    exact (hvalue hx).1
  · intro hclean
    exact ⟨hreferences, fun id hid hnot => (hcall.removed_iff h hid hnot).mpr (hclean.last id hid hnot),
      hread.mpr fun x hx => (hcall.readsAs_iff h hx).mpr
        ⟨hclean.noNull x.1 (List.of_mem_zip hx).1, hclean.members x hx⟩⟩

end Effect

/-! ## An attribute with one user -/

namespace Users

def memberNames : List String := ["name", "uid"]

def env : StructEnv where
  tr :=
    { mo2ImmDn := fun dn => ",".intercalate dn.reverse
      containmentValid := fun _ _ => true
      getImmKeyAttribute := fun _ _ keyAttributeName => keyAttributeName
      translateClassName := fun _ className => className
      comAttributeList := fun _ => memberNames
      isImmRoot := fun dn => dn.length = 1 }
  immAttribute name attributeName _ :=
    if name = "Directory=1" ∧ attributeName = "user" then
      .ok ⟨some .string, [.text "Directory=1,User.id=user_0"]⟩
    else if name = "User.id=user_0,Directory=1" ∧ attributeName ∈ memberNames then
      .ok ⟨some .string, [.text "root"]⟩
    else .notExist
  getImmAttributeData _ attributeName := decide (attributeName ∈ memberNames)
  getClassNameFromImm name := if name = "User.id=user_0,Directory=1" then some "User" else none
  findAttributeTypeName _ _ := "User"
  getStructMembers _ _ := memberNames
  getStructMemberComDatatype _ _ memberName := if memberName ∈ memberNames then some .string else none
  structImmClassName _ _ := "User"

def user (name uid : String) : StructValue := [("name", ⟨.string, [.text name]⟩), ("uid", ⟨.string, [.text uid]⟩)]

def named (name : String) : StructValue := [("name", ⟨.string, [.text name]⟩)]

def written (values : List StructValue) : Cache :=
  ((writeStructToImm env "Directory=1" "user" values {}).map Prod.snd).getD {}

theorem structCall {values : List StructValue}
    (htyped : ∀ value ∈ values, (value.map Prod.fst).Nodup ∧ ∀ m ∈ value.map Prod.fst, m ∈ memberNames) :
    StructCall env "Directory=1" "user" ["user_0"] values {} where
  names := ⟨by decide, by decide, by decide, by decide⟩
  owner := by decide
  former := by decide
  nodup := by decide
  plain := by decide
  alive := by decide
  known id hid := by
    rw [List.mem_singleton] at hid
    subst hid
    exact Or.inl rfl
  deleted id _ hdeleted := nomatch hdeleted
  instances id _ h := by
    unfold env at h
    dsimp only at h
    split at h
    · rename_i hname
      exact if_pos hname
    · cases h
  wellTyped := htyped
  members m hm := by
    have hmember : m ∈ memberNames := hm
    refine ⟨ne_of_mem_of_not_mem hmember (by decide), ?_, fun id _ => rfl⟩
    unfold env
    dsimp only
    rw [if_pos hmember]
    rfl

theorem replacesStruct_users : Replaced env "Directory=1" "user" ["user_0"] [user "a" "1", user "b" "2"] {}
    (written [user "a" "1", user "b" "2"]) := by
  refine (replacesStruct_iff (structCall (by decide)) (by rfl)).mpr ⟨?_, ?_, ?_⟩
  · decide
  · intro value hvalue m ctp hm
    simp only [List.mem_cons, List.not_mem_nil, or_false] at hvalue
    obtain rfl | rfl := hvalue <;>
      simp only [user, List.mem_cons, List.not_mem_nil, or_false, Prod.mk.injEq] at hm <;>
      obtain ⟨-, rfl⟩ | ⟨-, rfl⟩ := hm <;>
      decide
  · decide

/-- The uid of the former user is read with the name of the new one. -/
theorem not_replacesStruct : ¬ ∀ (env : StructEnv) (dn attributeName : String) (ids : List String)
    (values : List StructValue) (c c' : Cache), StructCall env dn attributeName ids values c →
    writeStructToImm env dn attributeName values c = some (.ok, c') →
    Replaced env dn attributeName ids values c c' := by
  intro h
  obtain ⟨r, hread, hall⟩ := (h env "Directory=1" "user" ["user_0"] [named "a"] {} (written [named "a"])
    (structCall (by decide)) (by rfl)).read
  have hvalue : readStructFromImm env "Directory=1" "user" (written [named "a"]) = (.ok, some [
      [("name", ⟨some .string, [.text "a"]⟩), ("uid", ⟨some .string, [.text "root"]⟩)]]) := by
    rfl
  cases hread.symm.trans hvalue
  cases hall with
  | cons hfirst _ => exact List.cons_ne_nil _ _ (hfirst.2 "uid" ⟨some .string, [.text "root"]⟩ (by decide)
    (by decide))

end Users

end ComSA
