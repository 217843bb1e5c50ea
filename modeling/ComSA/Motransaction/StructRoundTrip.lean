import ComSA.Motransaction.StructSearch

/-!
# Structs that come back

The names of the parameters of an array of structs make the lists of its members and of its elements again, and from
these the array is made. It is told here which arrays come back.
-/

namespace ComSA.Action

section
variable {env : TranslateEnv} {isMoSpiVersion2 : Bool} {members : List StructMember} {struct : List Char}

/-! ## The names -/

theorem insertAll_flatMap_const {α : Type*} {l : List α} (hl : l ≠ []) {names : List (List Char)}
    (hnodup : names.Nodup) : insertAll [] (l.flatMap fun _ => names) = names := by
  obtain ⟨a, l, rfl⟩ := List.exists_cons_of_ne_nil hl
  have honce : insertAll [] names = names := insertAll_of_nodup hnodup
  rw [List.flatMap_cons, insertAll_append, honce]
  refine insertAll_of_subset fun x hx => ?_
  obtain ⟨-, -, hx⟩ := List.mem_flatMap.mp hx
  exact hx

/-- The names can be read: no part has an underscore, the members differ, a member that is only a number is not taken
for the number of an element, and the model has as many structs as there are. -/
structure NamesFit (struct : List Char) (returnType : ParameterType) (values : List ComValue) : Prop where
  structName : '_' ∉ struct
  memberNames : ∀ m ∈ returnType.members, '_' ∉ m.name
  distinct : (returnType.members.map StructMember.name).Nodup
  notNumbers : values.length ≤ 1 → ∀ slot ∈ slots returnType.members values, 1 < slot.value.values.length →
    slot.member.name.all Char.isDigit = false
  single : values.length ≤ 1 → modelTypeMultiValue returnType = false
  count : returnType.multiplicityMin ≤ values.length ∧ (values.length : Int) ≤ returnType.multiplicityMax

def namesOf (struct : List Char) (members : List StructMember) (values : List ComValue) : List StructParamName :=
  (slots members values).flatMap fun slot =>
    List.replicate slot.value.values.length (slot.readAs struct values.length)

def listsOf (members : List StructMember) (values : List ComValue) : NameLists :=
  ⟨members.map StructMember.name,
    if 1 < values.length then (List.range values.length).map fun i => (toString (i + 1)).toList else []⟩

theorem members_namesOf {values : List ComValue} (hne : values ≠ [])
    (h : ∀ value ∈ values, StructConforms isMoSpiVersion2 members value)
    (hdistinct : (members.map StructMember.name).Nodup) :
    insertAll [] ((namesOf struct members values).map StructParamName.member) = members.map StructMember.name := by
  have hmap : (namesOf struct members values).map StructParamName.member =
      (slots members values).flatMap fun slot => List.replicate slot.value.values.length slot.member.name := by
    rw [namesOf, List.map_flatMap]
    refine List.flatMap_congr fun slot _ => ?_
    rw [List.map_replicate]
    rfl
  have hslots : (slots members values).map (fun slot => slot.member.name) =
      values.zipIdx.flatMap fun _ => members.map StructMember.name := by
    rw [slots, List.map_flatMap]
    exact List.flatMap_congr fun x hx => names_elementSlots (h x.1 (List.fst_mem_of_mem_zipIdx hx)) x.2
  rw [hmap, insertAll_flatMap_replicate _ _ fun slot hslot =>
    List.length_pos_iff.mpr (conforms_of_mem_slots h hslot).2.ne_nil, hslots]
  exact insertAll_flatMap_const (by simpa using hne) hdistinct

theorem elements_namesOf {values : List ComValue} (hne : values ≠ [])
    (h : ∀ value ∈ values, StructConforms isMoSpiVersion2 members value) :
    insertAll [] ((namesOf struct members values).filterMap StructParamName.element) =
      (listsOf members values).multiValueList := by
  unfold namesOf listsOf
  rw [List.filterMap_flatMap]
  dsimp only
  split <;> rename_i hmulti
  · have hnumbers : ((List.range values.length).map fun i => (toString (i + 1)).toList).Nodup :=
      List.nodup_range.map fun i j hij => Nat.succ.inj (toString_injective (String.toList_injective hij))
    have hslots : (slots members values).map (fun slot => (toString (slot.element + 1)).toList) =
        values.zipIdx.flatMap fun x => List.replicate members.length (toString (x.2 + 1)).toList := by
      rw [slots, List.map_flatMap]
      refine List.flatMap_congr fun x hx => List.eq_replicate_iff.mpr ⟨?_, fun name hname => ?_⟩
      · have hlen := congrArg List.length (names_elementSlots (h x.1 (List.fst_mem_of_mem_zipIdx hx)) x.2)
        rw [List.length_map, List.length_map] at hlen
        rw [List.length_map, hlen]
      · obtain ⟨slot, hslot, rfl⟩ := List.mem_map.mp hname
        rw [element_of_mem_elementSlots hslot]
    have helement : ∀ slot ∈ slots members values,
        (List.replicate slot.value.values.length (slot.readAs struct values.length)).filterMap
          StructParamName.element =
          List.replicate slot.value.values.length (toString (slot.element + 1)).toList := fun slot _ =>
      List.filterMap_replicate_of_some (if_pos hmulti)
    obtain ⟨value, rest, rfl⟩ := List.exists_cons_of_ne_nil hne
    have hpos : 0 < members.length := by
      have hlen := (h value List.mem_cons_self).length_eq
      rw [memberValues, List.length_cons] at hlen
      omega
    rw [List.flatMap_congr helement, insertAll_flatMap_replicate _ _ fun slot hslot =>
      List.length_pos_iff.mpr (conforms_of_mem_slots h hslot).2.ne_nil, hslots,
      insertAll_flatMap_replicate (fun _ => members.length) _ fun _ _ => hpos]
    have hrange := List.zipIdx_map_snd 0 (value :: rest)
    rw [← List.range_eq_range'] at hrange
    rw [← hrange, List.map_map] at hnumbers ⊢
    exact insertAll_of_nodup hnumbers
  · have hnone : ∀ slot ∈ slots members values,
        (List.replicate slot.value.values.length (slot.readAs struct values.length)).filterMap
          StructParamName.element =
          [] := fun slot _ => List.filterMap_replicate_of_none (if_neg hmulti)
    rw [List.flatMap_congr hnone, List.flatMap_eq_nil_iff.mpr fun _ _ => rfl]
    rfl

variable {returnType : ParameterType} {values : List ComValue}

theorem taken_slots (hname : returnType.structName = some struct)
    (h : ∀ value ∈ values, StructConforms isMoSpiVersion2 returnType.members value)
    (hfit : NamesFit struct returnType values) :
    List.Forall₂ (NameTaken returnType) ((slots returnType.members values).flatMap
      (Slot.params env isMoSpiVersion2 struct values.length)) (namesOf struct returnType.members values) := by
  refine forall₂_flatMap fun slot hslot => ?_
  obtain ⟨hmember, hconforms⟩ := conforms_of_mem_slots h hslot
  have hlen : (slot.params env isMoSpiVersion2 struct values.length).length = slot.value.values.length :=
    Slot.length_params hconforms values.length
  rw [← hlen]
  refine forall₂_replicate fun p hp => ?_
  obtain ⟨k, -, hk⟩ := Slot.mem_params hconforms hp
  refine ⟨?_, hname, fun hnone => ?_⟩
  · rw [hk]
    exact Slot.readName_valueName hfit.structName (hfit.memberNames _ hmember)
      (fun hsingle => hfit.notNumbers hsingle slot hslot) k
  · refine hfit.single (not_lt.mp fun hmulti => ?_)
    rw [Slot.readAs, if_pos hmulti] at hnone
    cases hnone

variable (env) in
theorem readNames_slots (hname : returnType.structName = some struct) (hne : values ≠ [])
    (h : ∀ value ∈ values, StructConforms isMoSpiVersion2 returnType.members value)
    (hfit : NamesFit struct returnType values) :
    readNames returnType ((slots returnType.members values).flatMap
      (Slot.params env isMoSpiVersion2 struct values.length)) ⟨[], []⟩ = some
        (listsOf returnType.members values) := by
  rw [readNames_eq (taken_slots hname h hfit), members_namesOf hne h hfit.distinct, elements_namesOf hne h]
  rfl

theorem isMultiStructure_listsOf : (listsOf members values).isMultiStructure = decide (1 < values.length) := by
  unfold listsOf NameLists.isMultiStructure
  split <;> rename_i hmulti
  · have hpos : values ≠ [] := by
      rintro rfl
      simp at hmulti
    simp [hmulti, hpos]
  · simp [hmulti]

theorem nrOfValues_listsOf (hne : values ≠ []) : (listsOf members values).nrOfValues = values.length := by
  have hpos : 0 < values.length := List.length_pos_iff.mpr hne
  unfold NameLists.nrOfValues
  rw [isMultiStructure_listsOf]
  by_cases hmulti : 1 < values.length
  · simp [hmulti, listsOf]
  · simp [hmulti]
    omega

theorem fit_listsOf (hne : values ≠ []) (hfit : NamesFit struct returnType values) :
    (listsOf returnType.members values).Fit returnType := by
  refine ⟨fun name hname hnone => ?_, fun hmulti => ?_, ?_⟩
  · obtain ⟨m, hm, rfl⟩ := List.mem_map.mp hname
    rw [memberTypeOf_eq hfit.distinct hm] at hnone
    cases hnone
  · rw [isMultiStructure_listsOf, decide_eq_true_iff] at hmulti
    have hmax := hfit.count.2
    refine decide_eq_true fun hone => ?_
    rw [hone.2] at hmax
    omega
  · rw [nrOfValues_listsOf hne]
    exact hfit.count

/-! ## The whole array -/

/-- As many structs in the same order, and in each of them the members with their own values. -/
def SameArray (members : List StructMember) (values : List ComValue) (structs : List StructResult) : Prop :=
  List.Forall₂ (fun value struct => struct.Perm ((members.zip (memberValues value)).map fun m =>
    (m.1.name, some ⟨m.2.type, m.2.values⟩))) values structs

def RoundTrips (env : TranslateEnv) (returnType : ParameterType) (isMoSpiVersion2 : Bool) (values : List ComValue) :
    Prop :=
  ∃ adminOpParams structs,
    convertActionReturnToImmParameters env returnType isMoSpiVersion2 [⟨.struct, values⟩] =
        (.ok, some adminOpParams) ∧
      handleStructToMoAttribute env returnType adminOpParams = (.ok, some structs) ∧
        SameArray returnType.members values structs

/-- The names can be read, no member is found where another one is searched for, and each has as many values as the
model says, which come back one by one. -/
structure Encodable (env : TranslateEnv) (returnType : ParameterType) (struct : List Char)
    (values : List ComValue) : Prop where
  names : NamesFit struct returnType values
  apart : (slots returnType.members values).Pairwise (Slot.NotConfused struct values.length)
  readable : ∀ slot ∈ slots returnType.members values, slot.Readable env struct values.length

theorem perm_pairs_iff {α κ β : Type*} {k : α → κ} {f g : α → β} {l : List α} (h : (l.map k).Nodup) :
    (l.map fun a => (k a, f a)).Perm (l.map fun a => (k a, g a)) ↔ ∀ a ∈ l, f a = g a := by
  constructor
  · intro hperm a ha
    obtain ⟨b, hb, heq⟩ := List.mem_map.mp (hperm.mem_iff.mp (List.mem_map_of_mem ha))
    obtain ⟨hkey, hvalue⟩ := Prod.ext_iff.mp heq
    obtain rfl := List.inj_on_of_nodup_map h hb ha hkey
    exact hvalue.symm
  · intro hall
    exact List.Perm.of_eq (List.map_congr_left fun a ha => by rw [hall a ha])

theorem sameArray_iff (h : ∀ value ∈ values, StructConforms isMoSpiVersion2 members value)
    (hdistinct : (members.map StructMember.name).Nodup) {G : Nat → List Char → Option MoResult}
    {F : Nat → StructResult}
    (hF : ∀ i, (F i).Perm ((members.map StructMember.name).map fun member => (member, G i member))) :
    SameArray members values ((List.range values.length).map F) ↔
      ∀ slot ∈ slots members values, G slot.element slot.member.name = some
        ⟨slot.value.type, slot.value.values⟩ := by
  have hone (x : ComValue × Nat) (hx : x ∈ values.zipIdx) :
      (F x.2).Perm ((members.zip (memberValues x.1)).map fun m => (m.1.name, some ⟨m.2.type, m.2.values⟩)) ↔
        ∀ slot ∈ elementSlots members x.2 x.1,
          G slot.element slot.member.name = some ⟨slot.value.type, slot.value.values⟩ := by
    have hvalue := h x.1 (List.fst_mem_of_mem_zipIdx hx)
    have hfst : (members.zip (memberValues x.1)).map Prod.fst = members := List.map_fst_zip hvalue.length_eq.le
    have hnames : members.map StructMember.name = (members.zip (memberValues x.1)).map fun m => m.1.name := by
      conv => lhs; rw [← hfst, List.map_map]
      rfl
    have hF' := hF x.2
    rw [hnames, List.map_map] at hF'
    rw [(List.Perm.congr_left hF' _).trans (perm_pairs_iff (hnames ▸ hdistinct)), elementSlots, List.forall_mem_map]
  have hrange := List.zipIdx_map_snd 0 values
  rw [← List.range_eq_range'] at hrange
  unfold SameArray
  rw [slots, List.forall_mem_flatMap, ← hrange]
  conv => lhs; arg 2; rw [← List.zipIdx_map_fst 0 values]
  rw [List.forall₂_map_left_iff, List.forall₂_map_right_iff, List.forall₂_map_right_iff, List.forall₂_same]
  exact forall₂_congr hone

/-! ### What can be read at all -/

theorem exists_slot (h : ∀ value ∈ values, StructConforms isMoSpiVersion2 members value) {i : Nat}
    (hi : i < values.length) {m : StructMember} (hm : m ∈ members) :
    ∃ slot ∈ slots members values, slot.element = i ∧ slot.member = m := by
  obtain ⟨j, hj, hget⟩ := List.mem_iff_getElem.mp hm
  have hlen := (h values[i] (List.getElem_mem hi)).length_eq
  refine ⟨⟨i, m, (memberValues values[i])[j]⟩, List.mem_flatMap.mpr ⟨(values[i], i), ?_, List.mem_map.mpr
    ⟨(m, (memberValues values[i])[j]), ?_, rfl⟩⟩, rfl, rfl⟩
  · exact List.mem_iff_getElem.mpr ⟨i, by simpa using hi, by simp⟩
  · exact List.mem_iff_getElem.mpr ⟨j, by simp [← hlen, hj], by simp [hget]⟩

theorem exists_name {l : NameLists} (hname : returnType.structName = some struct)
    (h : ∀ value ∈ values, StructConforms isMoSpiVersion2 returnType.members value)
    (hread : readNames returnType ((slots returnType.members values).flatMap
      (Slot.params env isMoSpiVersion2 struct values.length)) ⟨[], []⟩ = some l) {slot : Slot}
    (hslot : slot ∈ slots returnType.members values) {k : Nat} (hk : k < slot.value.values.length) :
    ∃ name, readName (slot.valueName struct values.length k) = some name ∧ name.struct = struct ∧
      (name.element = none → modelTypeMultiValue returnType = false) ∧ name.member ∈ l.memberNameList ∧
        ∀ number ∈ name.element, number ∈ l.multiValueList := by
  obtain ⟨names, htaken⟩ := taken_of_readNames hread
  have hl := hread
  rw [readNames_eq htaken] at hl
  have hconforms := (conforms_of_mem_slots h hslot).2
  have hmem : slot.valueName struct values.length k ∈ (slot.params env isMoSpiVersion2 struct values.length).map
      AdminOperationParams.paramName := by
    rw [Slot.names_params hconforms]
    exact List.mem_map_of_mem (List.mem_range.mpr hk)
  obtain ⟨p, hp, hparam⟩ := List.mem_map.mp hmem
  obtain ⟨name, hin, hread', hmodel, helement⟩ :=
    exists_of_mem_right htaken.flip (List.mem_flatMap.mpr ⟨slot, hslot, hp⟩)
  rw [hparam] at hread'
  rw [hname, Option.some_inj] at hmodel
  refine ⟨name, hread', hmodel.symm, helement, ?_, fun number hnumber => ?_⟩ <;> rw [← Option.some.inj hl]
  · exact mem_insertAll.mpr (.inr (List.mem_map_of_mem hin))
  · exact mem_insertAll.mpr (.inr (List.mem_filterMap.mpr ⟨name, hin, hnumber⟩))

theorem underscore_notMem_of_mem_memberNameList {adminOpParams : List AdminOperationParams} {l : NameLists}
    (hread : readNames returnType adminOpParams ⟨[], []⟩ = some l) {member : List Char}
    (hmember : member ∈ l.memberNameList) : '_' ∉ member := by
  obtain ⟨names, htaken⟩ := taken_of_readNames hread
  rw [readNames_eq htaken] at hread
  rw [← Option.some.inj hread] at hmember
  obtain ⟨name, hname, rfl⟩ := List.mem_map.mp ((mem_insertAll.mp hmember).resolve_left List.not_mem_nil)
  obtain ⟨p, -, hp, -⟩ := exists_of_mem_right htaken hname
  exact (readName_parts hp).2.1

theorem notNumbers_of_same {l : NameLists} (hname : returnType.structName = some struct) (hne : values ≠ [])
    (h : ∀ value ∈ values, StructConforms isMoSpiVersion2 returnType.members value)
    (hread : readNames returnType ((slots returnType.members values).flatMap
      (Slot.params env isMoSpiVersion2 struct values.length)) ⟨[], []⟩ = some l) (hfit : l.Fit returnType)
    (hnumber : l.nrOfValues = values.length)
    (hkeys : (returnType.members.map StructMember.name).Perm l.memberNameList) (hstruct : '_' ∉ struct)
    (hsingle : values.length ≤ 1) {slot : Slot} (hslot : slot ∈ slots returnType.members values)
    (hmulti : 1 < slot.value.values.length) : slot.member.name.all Char.isDigit = false := by
  by_contra hdigits
  rw [Bool.not_eq_false] at hdigits
  have hmember {s : Slot} (hs : s ∈ slots returnType.members values) : '_' ∉ s.member.name :=
    underscore_notMem_of_mem_memberNameList hread
      (hkeys.mem_iff.mp (List.mem_map_of_mem (conforms_of_mem_slots h hs).1))
  have hdigit {s : Slot} (hs : s ∈ slots returnType.members values) (hsmulti : 1 < s.value.values.length)
      (hsdigits : s.member.name.all Char.isDigit = true) {k : Nat} (hk : k < s.value.values.length) :
      s.member.name ∈ l.multiValueList ∧ (toString (k + 1)).toList ∈ l.memberNameList := by
    obtain ⟨name, hread', -, -, hin, helement⟩ := exists_name hname h hread hs hk
    rw [Slot.readName_digits hstruct (hmember hs) hsingle hsmulti hsdigits, Option.some_inj] at hread'
    subst hread'
    exact ⟨helement _ rfl, hin⟩
  have hmodel : modelTypeMultiValue returnType = true := by
    refine hfit.2.1 (decide_eq_true ?_)
    exact List.ne_nil_of_mem (hdigit hslot hmulti hdigits (Nat.zero_lt_of_lt hmulti)).1
  -- every member is such a number, as there is no name without an element
  have hall {s : Slot} (hs : s ∈ slots returnType.members values) : s.member.name ∈ l.multiValueList := by
    have hpos : 0 < s.value.values.length := List.length_pos_iff.mpr (conforms_of_mem_slots h hs).2.ne_nil
    by_cases hsdigits : 1 < s.value.values.length ∧ s.member.name.all Char.isDigit = true
    · exact (hdigit hs hsdigits.1 hsdigits.2 hpos).1
    · obtain ⟨name, hread', -, helement, -⟩ := exists_name hname h hread hs hpos
      rw [Slot.readName_valueName hstruct (hmember hs) (fun _ hsmulti => Bool.eq_false_iff.mpr fun hsd =>
        hsdigits ⟨hsmulti, hsd⟩), Option.some_inj] at hread'
      subst hread'
      rw [helement (if_neg (not_lt.mpr hsingle))] at hmodel
      cases hmodel
  have hnumbers (k : Nat) (hk : k < slot.value.values.length) : (toString (k + 1)).toList ∈ l.multiValueList := by
    obtain ⟨m, hm, hmname⟩ := List.mem_map.mp (hkeys.mem_iff.mpr (hdigit hslot hmulti hdigits hk).2)
    obtain ⟨s, hs, -, rfl⟩ := exists_slot h (List.length_pos_iff.mpr hne) hm
    rw [← hmname]
    exact hall hs
  have hone := hnumbers 0 (Nat.zero_lt_of_lt hmulti)
  have hlen : l.multiValueList.length = 1 := by
    unfold NameLists.nrOfValues NameLists.isMultiStructure at hnumber
    rw [decide_eq_true (List.ne_nil_of_mem hone), if_pos rfl] at hnumber
    exact le_antisymm (hnumber.trans_le hsingle) (List.length_pos_of_mem hone)
  obtain ⟨number, hlist⟩ := List.length_eq_one_iff.mp hlen
  have htwo := hnumbers 1 hmulti
  rw [hlist, List.mem_singleton] at hone htwo
  exact absurd (toString_injective (String.toList_injective (hone.trans htwo.symm))) (by decide)

theorem namesFit_of_same {l : NameLists} (hname : returnType.structName = some struct) (hne : values ≠ [])
    (h : ∀ value ∈ values, StructConforms isMoSpiVersion2 returnType.members value)
    (hread : readNames returnType ((slots returnType.members values).flatMap
      (Slot.params env isMoSpiVersion2 struct values.length)) ⟨[], []⟩ = some l) (hfit : l.Fit returnType)
    (hnumber : l.nrOfValues = values.length)
    (hkeys : (returnType.members.map StructMember.name).Perm l.memberNameList) :
    NamesFit struct returnType values := by
  have hmember : ∀ m ∈ returnType.members, '_' ∉ m.name := fun m hm =>
    underscore_notMem_of_mem_memberNameList hread (hkeys.mem_iff.mp (List.mem_map_of_mem hm))
  -- there is a slot, and so a name
  obtain ⟨value, rest, hvalues⟩ := List.exists_cons_of_ne_nil hne
  have hlen := (h value (hvalues ▸ List.mem_cons_self)).length_eq
  obtain ⟨m, hm⟩ : ∃ m, m ∈ returnType.members := by
    rw [memberValues, List.length_cons] at hlen
    exact List.exists_mem_of_length_pos (by omega)
  obtain ⟨slot, hslot, -⟩ := exists_slot h (List.length_pos_iff.mpr hne) hm
  have hpos : 0 < slot.value.values.length := List.length_pos_iff.mpr (conforms_of_mem_slots h hslot).2.ne_nil
  obtain ⟨name, hread', rfl, helement, -⟩ := exists_name hname h hread hslot hpos
  have hstruct := (readName_parts hread').1
  have hnumbers : values.length ≤ 1 → ∀ slot ∈ slots returnType.members values, 1 < slot.value.values.length →
      slot.member.name.all Char.isDigit = false := fun hsingle _ hslot hmulti =>
    notNumbers_of_same hname hne h hread hfit hnumber hkeys hstruct hsingle hslot hmulti
  refine ⟨hstruct, hmember, hkeys.nodup_iff.mpr (readNames_nodup hread List.nodup_nil), hnumbers, fun hsingle => ?_,
    hnumber ▸ hfit.2.2⟩
  rw [Slot.readName_valueName hstruct (hmember _ (conforms_of_mem_slots h hslot).1)
    (fun hsingle hmulti => hnumbers hsingle slot hslot hmulti), Option.some_inj] at hread'
  refine helement ?_
  rw [← hread']
  exact if_neg (not_lt.mpr hsingle)

/-! ### What comes back -/

variable (env) in
theorem code_of_found {adminOpParams : List AdminOperationParams} {l : NameLists}
    (hread : readNames returnType adminOpParams ⟨[], []⟩ = some l) (hfit : l.Fit returnType)
    (hall : ∀ member ∈ l.memberNameList, (convertFound env returnType.members l.isMultiStructure l.nrOfValues
      l.memberNameList adminOpParams (l.nrOfValues - 1) member).2 ≠ none) :
    (handleStructToMoAttribute env returnType adminOpParams).1 = .ok := by
  refine handleStructToMoAttribute_ok_iff.mpr ⟨l, hread, hfit, fun member hmember _ => ?_⟩
  exact convertSimpleToMoAttribute_ok_iff.mp ((convertSimpleToMoAttribute_snd _ _).mp (hall member hmember))

variable (env) in
theorem structs_of_namesFit (hname : returnType.structName = some struct) (hne : values ≠ [])
    (h : ∀ value ∈ values, StructConforms isMoSpiVersion2 returnType.members value)
    (hnames : NamesFit struct returnType values) {adminOpParams : List AdminOperationParams}
    (hparams : adminOpParams = (slots returnType.members values).flatMap
      (Slot.params env isMoSpiVersion2 struct values.length)) :
    ∃ structs, (handleStructToMoAttribute env returnType adminOpParams).2 = some structs ∧
      (SameArray returnType.members values structs ↔
        (slots returnType.members values).Pairwise (Slot.NotConfused struct values.length) ∧
          ∀ slot ∈ slots returnType.members values, slot.Readable env struct values.length) ∧
      (SameArray returnType.members values structs →
        (handleStructToMoAttribute env returnType adminOpParams).1 = .ok) := by
  have hread := readNames_slots env hname hne h hnames
  have hfit := fit_listsOf hne hnames
  rw [← hparams] at hread
  obtain ⟨F, hF, hperm⟩ := structs_of_fit env hread hfit
  have hcode := code_of_found env hread hfit
  rw [isMultiStructure_listsOf, nrOfValues_listsOf hne] at hperm hcode
  rw [nrOfValues_listsOf hne] at hF
  have hsame := sameArray_iff h hnames.distinct hperm
  refine ⟨_, hF, ?_, fun hall => hcode fun member hmember => ?_⟩
  · have hfound := foundFor_iff env h hnames.distinct hnames.structName hnames.memberNames
    unfold foundFor at hfound
    rw [← hparams] at hfound
    have hapart : Slot.Apart env isMoSpiVersion2 struct values.length (slots returnType.members values) ↔ _ :=
      apart_iff h hnames.structName hnames.memberNames
    exact hsame.trans (hfound.trans (and_congr_left' hapart))
  · -- the last element has a slot for the member
    obtain ⟨m, hm, rfl⟩ := List.mem_map.mp hmember
    obtain ⟨slot, hslot, helement, rfl⟩ := exists_slot h (Nat.sub_lt (List.length_pos_iff.mpr hne) Nat.one_pos) hm
    have hslot' := hsame.mp hall slot hslot
    rw [helement] at hslot'
    rw [hslot']
    exact Option.some_ne_none _

theorem structs_comeBack_iff (env : TranslateEnv) (isMoSpiVersion2 : Bool) (htype : returnType.type = .struct)
    (hname : returnType.structName = some struct) (hne : values ≠ [])
    (h : ∀ value ∈ values, StructConforms isMoSpiVersion2 returnType.members value) :
    RoundTrips env returnType isMoSpiVersion2 values ↔ Encodable env returnType struct values := by
  have hconvert := @convertActionReturnToImmParameters_struct env _ _ _ _ htype hname h
  constructor
  · rintro ⟨adminOpParams, structs, hconverted, hhandle, hsame⟩
    rw [hconvert] at hconverted
    obtain rfl := Option.some.inj (Prod.ext_iff.mp hconverted).2
    have hnames : NamesFit struct returnType values := by
      obtain ⟨l, hread, hfit, -⟩ := handleStructToMoAttribute_ok_iff.mp (congrArg Prod.fst hhandle)
      obtain ⟨F, hF, hperm⟩ := structs_of_fit env hread hfit
      rw [hhandle] at hF
      obtain rfl := Option.some.inj hF
      have hnumber := hsame.length_eq
      rw [List.length_map, List.length_range] at hnumber
      obtain ⟨value, hvalue⟩ := List.exists_mem_of_ne_nil values hne
      obtain ⟨read, hin, hstruct⟩ := exists_of_mem_right hsame.flip hvalue
      obtain ⟨i, -, rfl⟩ := List.mem_map.mp hin
      have hkeys := ((hstruct.symm.trans (hperm i)).map Prod.fst)
      rw [List.map_map, List.map_map] at hkeys
      have hfst : (returnType.members.zip (memberValues value)).map Prod.fst = returnType.members :=
        List.map_fst_zip (h value hvalue).length_eq.le
      refine namesFit_of_same hname hne h hread hfit hnumber.symm ?_
      rw [← hfst, List.map_map]
      simpa [Function.comp_def] using hkeys
    obtain ⟨structs', hread, hiff, -⟩ := structs_of_namesFit env hname hne h hnames rfl
    rw [hhandle] at hread
    obtain rfl := Option.some.inj hread
    obtain ⟨hapart, hreadable⟩ := hiff.mp hsame
    exact ⟨hnames, hapart, hreadable⟩
  · rintro ⟨hnames, hapart, hreadable⟩
    obtain ⟨structs, hread, hiff, hok⟩ := structs_of_namesFit env hname hne h hnames rfl
    have hsame := hiff.mpr ⟨hapart, hreadable⟩
    exact ⟨_, structs, hconvert, Prod.ext (hok hsame) hread, hsame⟩

end

def numberMember (name : List Char) (multiplicityMax : Int) : StructMember :=
  ⟨name, ⟨.int32, .void, 1, multiplicityMax⟩⟩

theorem conforms_number (name : List Char) (multiplicityMax : Int) :
    Conforms false (numberMember name multiplicityMax) ⟨.int32, [.number 7]⟩ where
  type := rfl
  ne_nil := List.cons_ne_nil _ _
  values value hvalue := by
    rw [List.mem_singleton.mp hvalue]
    rfl

def points : List ComValue :=
  [⟨.number 0, ⟨.int32, [.number 7]⟩, [⟨.int32, [.number 7]⟩]⟩,
    ⟨.number 0, ⟨.int32, [.number 7]⟩, [⟨.int32, [.number 7]⟩]⟩]

def pointType : ParameterType := ⟨⟨.struct, .void, 0, 9⟩, some ['P'], [numberMember ['x'] 1, numberMember ['y'] 1]⟩

theorem encodable_points : Encodable ⟨id, id, id, false⟩ pointType ['P'] points where
  names := ⟨by decide, by decide, by decide, fun hle => absurd hle (by decide), fun hle => absurd hle (by decide),
    by decide⟩
  apart := by
    unfold Slot.NotConfused
    decide
  readable slot hslot := by
    have hcases : slot.value = ⟨.int32, [.number 7]⟩ ∧
        (slot.member = numberMember ['x'] 1 ∨ slot.member = numberMember ['y'] 1) := by
      simp only [slots, points, pointType, List.zipIdx_cons, List.zipIdx_nil, List.flatMap_cons, List.flatMap_nil,
        elementSlots, memberValues, List.zip_cons_cons, List.zip_nil_right, List.map_cons, List.map_nil,
        List.cons_append, List.nil_append, List.mem_cons, List.not_mem_nil, or_false] at hslot
      obtain rfl | rfl | rfl | rfl := hslot <;> decide
    obtain ⟨element, member, value⟩ := slot
    obtain ⟨rfl, rfl | rfl⟩ := hcases <;>
      exact ⟨Int.le_refl 1, Int.le_refl 1, fun hle => absurd hle (by decide), fun value hvalue => by
        rw [List.mem_singleton.mp hvalue]
        trivial⟩

theorem structs_comeBack_iff_points : RoundTrips ⟨id, id, id, false⟩ pointType false points := by
  refine (structs_comeBack_iff ⟨id, id, id, false⟩ false rfl rfl (List.cons_ne_nil _ _) fun value hvalue => ?_).mpr
    encodable_points
  have hstruct : StructConforms false [numberMember ['x'] 1, numberMember ['y'] 1]
      ⟨.number 0, ⟨.int32, [.number 7]⟩, [⟨.int32, [.number 7]⟩]⟩ :=
    .cons (conforms_number _ _) (.cons (conforms_number _ _) .nil)
  simp only [List.mem_cons, List.not_mem_nil, or_false, or_self] at hvalue
  rw [hvalue]
  exact hstruct

/-- A struct with the members `a` and `ab`: the value of `ab` is found for `a`, too. -/
theorem not_structs_comeBack :
    ¬ ∀ (env : TranslateEnv) (returnType : ParameterType) (isMoSpiVersion2 : Bool) (struct : List Char)
      (values : List ComValue), returnType.type = .struct → returnType.structName = some struct → values ≠ [] →
        (∀ value ∈ values, StructConforms isMoSpiVersion2 returnType.members value) →
          RoundTrips env returnType isMoSpiVersion2 values := by
  intro h
  obtain ⟨adminOpParams, structs, hconvert, hhandle, hsame⟩ := h ⟨id, id, id, false⟩
    ⟨⟨.struct, .void, 1, 1⟩, some ['S'], [numberMember ['a'] 1, numberMember ['a', 'b'] 1]⟩ false ['S']
    [⟨.number 0, ⟨.int32, [.number 7]⟩, [⟨.int32, [.number 7]⟩]⟩] rfl rfl (List.cons_ne_nil _ _) fun value hvalue => by
      rw [List.mem_singleton.mp hvalue]
      exact .cons (conforms_number _ _) (.cons (conforms_number _ _) .nil)
  have hparams : adminOpParams = [⟨['S', '_', 'a'], .saInt32, .number 7⟩,
    ⟨['S', '_', 'a', 'b'], .saInt32, .number 7⟩] :=
    (Option.some.inj (Prod.ext_iff.mp hconvert).2).symm
  subst hparams
  have hread : structs = [[(['a'], none), (['a', 'b'], some ⟨.int32, [.number 7]⟩)]] := by
    refine (Option.some.inj ((congrArg Prod.snd hhandle).symm.trans ?_))
    decide
  subst hread
  obtain ⟨hperm, -⟩ := List.forall₂_cons.mp hsame
  have hmem := hperm.mem_iff (a := (['a'], none))
  exact absurd (hmem.mp List.mem_cons_self) (by decide)

end ComSA.Action
