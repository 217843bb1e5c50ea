import Mathlib.Data.List.Perm.Subperm
import Mathlib.Data.String.Basic
import ComSA.Lib.Cut
import ComSA.Lib.FirstOccurrence
import ComSA.Lib.SortedMap
import ComSA.PmtSa.PmShowCounters

/-!
# The descriptions of a measurement type

`getMeasurementTypeDescription` of `pmt_sa/src/PmShowCounters.cxx`: in which groups there is an object for a
measurement type, and what it says. NULL arguments are left out, and so is how memory is released.
-/

namespace ComSA.PmShowCounters

open SortedMap

def PM_GROUPID_NAME : String := "pmGroupId"
def PM_ID : String := "CmwPmpmId=1"
def MEASUREMENT_TYPE_NAME : String := "measurementTypeId"

/-! ## What IMM holds -/

structure SaImmAttrValues where
  isString : Bool
  attrValues : List String
  deriving DecidableEq, Repr

def getCompleteDn (measurementTypeValue pmGroupIdValue : String) : String :=
  let measurementTypeComplete := MEASUREMENT_TYPE_NAME ++ "=" ++ measurementTypeValue
  let pmGroupIdComplete := PM_GROUPID_NAME ++ "=" ++ pmGroupIdValue
  measurementTypeComplete ++ "," ++ pmGroupIdComplete ++ "," ++ PM_ID

structure MeasurementTypeObject where
  measurementType : String
  pmGroup : String
  attributes : Option SaImmAttrValues
  deriving DecidableEq, Repr

def MeasurementTypeObject.dn (o : MeasurementTypeObject) : String := getCompleteDn o.measurementType o.pmGroup

structure ImmContent where
  objects : List MeasurementTypeObject
  nodup : (objects.map MeasurementTypeObject.dn).Nodup

namespace ImmContent

variable (imm : ImmContent)

def search (measurementType : String) : List MeasurementTypeObject :=
  imm.objects.filter fun o => o.measurementType = measurementType

def accessorGet (dn : String) : Option (Option SaImmAttrValues) :=
  (imm.objects.find? fun o => o.dn = dn).map MeasurementTypeObject.attributes

end ImmContent

structure ImmCalls where
  omInitialize : SaAisError := .ok
  searchInitialize : SaAisError := .ok
  accessorInitialize : SaAisError := .ok
  omFinalize : SaAisError := .ok

/-! ## The descriptions -/

structure ComOamSpiPmMeasurementTypeInfo_4 where
  groupId : String
  description : String
  deriving DecidableEq, Repr

structure ComOamSpiPmMeasurementTypeDescription_4 where
  measurementTypeInfo : List ComOamSpiPmMeasurementTypeInfo_4
  nrOfValues : Nat
  release : Bool
  deriving DecidableEq, Repr

def getDescription : Option SaImmAttrValues → String
  | none => ""
  | some a => if a.isString then a.attrValues.headD "" else ""

def getGroupIdValue (objectName : String) : String :=
  match fromFirst (PM_GROUPID_NAME ++ "=").toList objectName.toList with
  | none => ""
  | some part_objectName =>
    if ',' ∈ part_objectName then
      let complete_groupId := part_objectName.takeWhile (· ≠ ',')
      match complete_groupId.dropWhile (· ≠ '=') with
      | [] => ""
      | _ :: groupId_value => String.ofList groupId_value
    else
      ""

def getGroups (imm : ImmContent) (measurementType : String) :
    List String → List (String × String) → List (String × String)
  | [], measType_desc => measType_desc
  | group :: groups, measType_desc =>
    let complete_dn := getCompleteDn measurementType group
    match imm.accessorGet complete_dn with
    | none => measType_desc
    | some attributes => getGroups imm measurementType groups (put complete_dn (getDescription attributes)
      measType_desc)

def receivedGroupIds : Option (List String) → Bool
  | none => false
  | some groupIds => groupIds ≠ [] && groupIds ≠ ["*"]

def typeInfo (x : String × String) : Option ComOamSpiPmMeasurementTypeInfo_4 :=
  let groupId_value := getGroupIdValue x.1
  if groupId_value = "" then none else some ⟨groupId_value, x.2⟩

def describe (receivedGroupIds : Bool) (err : SaAisError) (measType_desc : List (String × String))
    (description : ComOamSpiPmMeasurementTypeDescription_4) :
    MafReturn × ComOamSpiPmMeasurementTypeDescription_4 :=
  let description :=
    if measType_desc = [] then description
    else
      let infos := measType_desc.filterMap typeInfo
      ⟨infos, infos.length, true⟩
  let retVal :=
    if receivedGroupIds then
      if err = .ok ∧ 0 < description.nrOfValues then .ok
      else if err = .errNotExist then .notExist
      else .failure
    else
      if (err = .ok ∨ err = .errNotExist) ∧ 0 < description.nrOfValues then .ok
      else if err = .errNotExist ∧ description.nrOfValues = 0 then .notExist
      else .failure
  (retVal, description)

def getMeasurementTypeDescription (calls : ImmCalls) (imm : ImmContent) (measurementType : String)
    (groupIds : Option (List String)) (description : ComOamSpiPmMeasurementTypeDescription_4) :
    MafReturn × ComOamSpiPmMeasurementTypeDescription_4 :=
  if measurementType = "" then (.failure, description)
  else if calls.omInitialize ≠ .ok then (.failure, description)
  else if receivedGroupIds groupIds then
    if calls.accessorInitialize ≠ .ok then (.failure, description)
    else describe true calls.omFinalize (getGroups imm measurementType (groupIds.getD []) []) description
  else
    if calls.searchInitialize ≠ .ok then (.failure, description)
    else
      let measType_desc := (imm.search measurementType).foldl
        (fun measType_desc o => put o.dn (getDescription o.attributes) measType_desc) []
      describe false calls.omFinalize measType_desc description

/-! ## What is to be described -/

section
variable (imm : ImmContent) (measurementType : String)

/-- The description of the measurement type in a group, where it is there. -/
def descriptionIn (group : String) : Option String :=
  (imm.accessorGet (getCompleteDn measurementType group)).map getDescription

/-- The groups that have the measurement type, of those that are listed or of all. -/
def existingGroups (groupIds : Option (List String)) : List String :=
  if receivedGroupIds groupIds then
    ((groupIds.getD []).filter fun g => (descriptionIn imm measurementType g).isSome).dedup
  else
    (imm.search measurementType).map MeasurementTypeObject.pmGroup

def infoFor (group : String) : ComOamSpiPmMeasurementTypeInfo_4 :=
  ⟨group, (descriptionIn imm measurementType group).getD ""⟩

def Described (groupIds : Option (List String)) (r : MafReturn × ComOamSpiPmMeasurementTypeDescription_4) : Prop :=
  let infos := r.2.measurementTypeInfo.take r.2.nrOfValues
  if existingGroups imm measurementType groupIds = [] then r.1 = .notExist ∧ infos = []
  else r.1 = .ok ∧ infos.Perm ((existingGroups imm measurementType groupIds).map (infoFor imm measurementType))

def DescribesAll (groupIds : Option (List String)) : Prop :=
  ∀ description, Described imm measurementType groupIds
    (getMeasurementTypeDescription {} imm measurementType groupIds description)

/-- The name of the group can be cut out of the DN: it is what is found first. -/
def NameKept (group : String) : Prop :=
  group ≠ "" ∧
    match fromFirst (PM_GROUPID_NAME ++ "=").toList measurementType.toList with
    | none => ',' ∉ group.toList
    | some found => (found.drop (PM_GROUPID_NAME ++ "=").length).takeWhile (· ≠ ',') = group.toList

def reached (groupIds : Option (List String)) : List String :=
  if receivedGroupIds groupIds then
    (groupIds.getD []).takeWhile fun g => (descriptionIn imm measurementType g).isSome
  else
    (imm.search measurementType).map MeasurementTypeObject.pmGroup

end

/-! ## The name of a group -/

def cutName (measurementType group : String) : String :=
  String.ofList ((match fromFirst (PM_GROUPID_NAME ++ "=").toList measurementType.toList with
    | none => group.toList
    | some found => found.drop (PM_GROUPID_NAME ++ "=").length).takeWhile (· ≠ ','))

theorem toList_getCompleteDn (measurementType group : String) :
    (getCompleteDn measurementType group).toList = "measurementTypeId=".toList ++
      (measurementType.toList ++ ',' :: ("pmGroupId=".toList ++ (group.toList ++ ',' :: PM_ID.toList))) := by
  unfold getCompleteDn
  simp only [String.toList_append, List.append_assoc]
  rfl

theorem getCompleteDn_injective (measurementType : String) :
    Function.Injective (getCompleteDn measurementType) := by
  intro g h heq
  have heq := congrArg String.toList heq
  rw [toList_getCompleteDn, toList_getCompleteDn, List.append_cancel_left_eq, List.append_cancel_left_eq,
    List.cons.injEq, List.append_cancel_left_eq, List.append_cancel_right_eq] at heq
  exact String.toList_injective heq.2

theorem getGroupIdValue_of_found {objectName : String} {rest : List Char}
    (hfound : fromFirst "pmGroupId=".toList objectName.toList = some ("pmGroupId=".toList ++ rest))
    (hcomma : ',' ∈ rest) :
    getGroupIdValue objectName = String.ofList (rest.takeWhile (· ≠ ',')) := by
  have htake : ("pmGroupId=".toList ++ rest).takeWhile (· ≠ ',') = "pmGroupId=".toList ++ rest.takeWhile
    (· ≠ ',') :=
    List.takeWhile_append_of_pos (List.all_eq_true.mp (by decide))
  have hdrop : ("pmGroupId=".toList ++ rest.takeWhile (· ≠ ',')).dropWhile (· ≠ '=') =
      '=' :: rest.takeWhile (· ≠ ',') := by
    have hsplit : "pmGroupId=".toList ++ rest.takeWhile (· ≠ ',') = "pmGroupId".toList ++ '=' ::
        rest.takeWhile (· ≠ ',') := rfl
    rw [hsplit]
    exact (cut_first (by decide)).2
  unfold getGroupIdValue
  change (match fromFirst "pmGroupId=".toList objectName.toList with | none => "" | some part => _) = _
  rw [hfound]
  dsimp only
  rw [if_pos (List.mem_append_right _ hcomma), htake, hdrop]

theorem getGroupIdValue_getCompleteDn (measurementType group : String) :
    getGroupIdValue (getCompleteDn measurementType group) = cutName measurementType group := by
  have hmark : fromFirst "pmGroupId=".toList (getCompleteDn measurementType group).toList =
      fromFirst "pmGroupId=".toList (measurementType.toList ++
        ',' :: ("pmGroupId=".toList ++ (group.toList ++ ',' :: PM_ID.toList))) := by
    rw [toList_getCompleteDn]
    rfl
  unfold cutName
  change _ = String.ofList ((match fromFirst "pmGroupId=".toList measurementType.toList with
    | none => group.toList | some found => found.drop 10).takeWhile (· ≠ ','))
  cases htype : fromFirst "pmGroupId=".toList measurementType.toList with
  | none =>
    have hfound := hmark.trans (fromFirst_append_cons (c := ',') (by decide) (by decide) htype _)
    rw [fromFirst_of_isPrefix (List.prefix_append _ _)] at hfound
    rw [getGroupIdValue_of_found hfound (by simp), takeWhile_append_cons]
  | some found =>
    obtain ⟨rest, rfl⟩ := prefix_of_fromFirst htype
    have hfound := hmark.trans (fromFirst_append_of_some htype _)
    rw [List.append_assoc] at hfound
    rw [getGroupIdValue_of_found hfound (by simp), takeWhile_append_cons]
    rfl

theorem nameKept_iff (measurementType group : String) :
    NameKept measurementType group ↔ group ≠ "" ∧ cutName measurementType group = group := by
  unfold NameKept cutName
  refine and_congr_right fun _ => ?_
  rw [← String.toList_inj, String.toList_ofList]
  cases fromFirst (PM_GROUPID_NAME ++ "=").toList measurementType.toList with
  | none =>
    rw [List.takeWhile_eq_self_iff]
    constructor
    · intro hcomma c hc
      rw [decide_eq_true_iff]
      rintro rfl
      exact hcomma hc
    · intro hall hcomma
      exact absurd rfl (of_decide_eq_true (hall ',' hcomma))
  | some found => exact Iff.rfl

theorem cutName_cutName (measurementType group : String) :
    cutName measurementType (cutName measurementType group) = cutName measurementType group := by
  unfold cutName
  cases fromFirst (PM_GROUPID_NAME ++ "=").toList measurementType.toList with
  | none => simp [String.toList_ofList, List.takeWhile_takeWhile]
  | some found => rfl

/-! ## What is found -/

section
variable {imm : ImmContent} {measurementType : String}

def descriptionAt (imm : ImmContent) (dn : String) : String := ((imm.accessorGet dn).map getDescription).getD ""

theorem getGroups_eq (groups : List String) (measType_desc : List (String × String)) :
    getGroups imm measurementType groups measType_desc = putAll (descriptionAt imm)
      ((groups.takeWhile fun g => (descriptionIn imm measurementType g).isSome).map
        (getCompleteDn measurementType)) measType_desc := by
  induction groups generalizing measType_desc with
  | nil => rfl
  | cons group groups ih =>
    rw [getGroups, List.takeWhile_cons, descriptionIn]
    cases hget : imm.accessorGet (getCompleteDn measurementType group) with
    | none => rfl
    | some attributes =>
      dsimp only
      rw [ih, Option.map_some, Option.isSome_some, if_pos rfl, List.map_cons]
      have hstored : descriptionAt imm (getCompleteDn measurementType group) = getDescription attributes := by
        rw [descriptionAt, hget]
        rfl
      rw [← hstored]
      rfl

theorem accessorGet_dn {o : MeasurementTypeObject} (ho : o ∈ imm.objects) :
    imm.accessorGet o.dn = some o.attributes := by
  have hnodup := imm.nodup
  unfold ImmContent.accessorGet
  revert ho hnodup
  induction imm.objects with
  | nil => exact nofun
  | cons p objects ih =>
    intro ho hnodup
    rw [List.map_cons, List.nodup_cons] at hnodup
    rw [List.find?_cons]
    rcases List.mem_cons.mp ho with rfl | ho
    · rw [decide_eq_true rfl]
      rfl
    · have hne : p.dn ≠ o.dn := fun heq => hnodup.1 (heq ▸ List.mem_map_of_mem ho)
      rw [decide_eq_false hne]
      exact ih ho hnodup.2

theorem search_eq :
    (imm.search measurementType).foldl (fun measType_desc o => put o.dn (getDescription o.attributes)
      measType_desc) []
      = putAll (descriptionAt imm)
        (((imm.search measurementType).map MeasurementTypeObject.pmGroup).map (getCompleteDn measurementType))
          [] := by
  unfold putAll
  rw [List.map_map, List.foldl_map]
  refine List.foldl_ext _ _ _ fun m o ho => ?_
  obtain ⟨ho, htype⟩ := List.mem_filter.mp ho
  have hdn : o.dn = getCompleteDn measurementType o.pmGroup := by
    rw [MeasurementTypeObject.dn, of_decide_eq_true htype]
  rw [Function.comp_apply, ← hdn, descriptionAt, accessorGet_dn ho]
  rfl

theorem getMeasurementTypeDescription_eq (hname : measurementType ≠ "") (groupIds : Option (List String))
    (description : ComOamSpiPmMeasurementTypeDescription_4) :
    getMeasurementTypeDescription {} imm measurementType groupIds description =
      describe (receivedGroupIds groupIds) .ok (putAll (descriptionAt imm)
        ((reached imm measurementType groupIds).map (getCompleteDn measurementType)) []) description := by
  unfold getMeasurementTypeDescription reached
  rw [if_neg hname, if_neg (by simp)]
  cases receivedGroupIds groupIds with
  | true => rw [if_pos rfl, if_neg (by simp), if_pos rfl, getGroups_eq]
  | false => rw [if_neg (by simp), if_neg (by simp), if_neg (by simp), search_eq]

theorem filterMap_typeInfo_perm (imm : ImmContent) (measurementType : String) (groups : List String) :
    ((putAll (descriptionAt imm) (groups.map (getCompleteDn measurementType)) []).filterMap typeInfo).Perm
      (groups.dedup.filterMap fun g =>
        if cutName measurementType g = "" then none
        else some ⟨cutName measurementType g, descriptionAt imm (getCompleteDn measurementType g)⟩) := by
  refine ((putAll_perm _ _).filterMap typeInfo).trans (List.Perm.of_eq ?_)
  rw [List.dedup_map_of_injective (getCompleteDn_injective measurementType), List.map_map, List.filterMap_map]
  refine List.filterMap_congr fun g _ => ?_
  rw [Function.comp_apply, Function.comp_apply, typeInfo, getGroupIdValue_getCompleteDn]

theorem existingGroups_nodup (groupIds : Option (List String)) :
    (existingGroups imm measurementType groupIds).Nodup := by
  unfold existingGroups
  split
  · exact List.nodup_dedup _
  · refine List.Nodup.of_map (getCompleteDn measurementType) ?_
    have hdn : ((imm.search measurementType).map MeasurementTypeObject.pmGroup).map
      (getCompleteDn measurementType) =
        (imm.search measurementType).map MeasurementTypeObject.dn := by
      rw [List.map_map]
      refine List.map_congr_left fun o ho => ?_
      rw [Function.comp_apply, MeasurementTypeObject.dn, of_decide_eq_true (List.mem_filter.mp ho).2]
    rw [hdn]
    exact imm.nodup.sublist (List.filter_sublist.map _)

theorem reached_subset (groupIds : Option (List String)) :
    reached imm measurementType groupIds ⊆ existingGroups imm measurementType groupIds := by
  unfold reached existingGroups
  split
  · intro g hg
    have hall := List.mem_takeWhile_imp hg
    exact List.mem_dedup.mpr (List.mem_filter.mpr ⟨(List.takeWhile_sublist _).subset hg, hall⟩)
  · exact List.Subset.refl _

theorem entries_perm_iff {existing reached : List String} (hnodup : existing.Nodup) (hsub : reached ⊆ existing)
    {cut : String → String} (hcut : ∀ g, cut (cut g) = cut g) (text : String → String) :
    (reached.dedup.filterMap fun g => if cut g = "" then none
        else some (⟨cut g, text g⟩ : ComOamSpiPmMeasurementTypeInfo_4)).Perm (existing.map fun g => ⟨g, text g⟩) ↔
      (∀ g ∈ existing, g ∈ reached) ∧ ∀ g ∈ existing, g ≠ "" ∧ cut g = g := by
  have hsub' : reached.dedup ⊆ existing := fun g hg => hsub (List.mem_dedup.mp hg)
  constructor
  · intro hperm
    have hlength := hperm.length_eq
    rw [List.length_map] at hlength
    have hle : existing.length ≤ reached.dedup.length := hlength ▸ List.length_filterMap_le _ _
    have hall : reached.dedup.Perm existing :=
      (List.subperm_of_subset (List.nodup_dedup reached) hsub').perm_of_length_le hle
    refine ⟨fun g hg => List.mem_dedup.mp (hall.mem_iff.mpr hg), fun g hg => ?_⟩
    have hentry := hperm.mem_iff.mpr (List.mem_map_of_mem hg)
    obtain ⟨g', -, hg'⟩ := List.mem_filterMap.mp hentry
    split at hg' <;> rename_i hempty
    · cases hg'
    · rw [Option.some_inj, ComOamSpiPmMeasurementTypeInfo_4.mk.injEq] at hg'
      rw [← hg'.1]
      exact ⟨hempty, hcut g'⟩
  · rintro ⟨hall, hkept⟩
    have hperm : reached.dedup.Perm existing :=
      (List.perm_ext_iff_of_nodup (List.nodup_dedup reached) hnodup).mpr fun g =>
        ⟨fun hg => hsub' hg, fun hg => List.mem_dedup.mpr (hall g hg)⟩
    refine (hperm.filterMap _).trans (List.Perm.of_eq ?_)
    rw [← List.filterMap_eq_map]
    refine List.filterMap_congr fun g hg => ?_
    obtain ⟨hempty, hkeep⟩ := hkept g hg
    rw [hkeep, if_neg hempty]
    rfl

theorem describe_ok (received : Bool) (measType_desc : List (String × String))
    (description : ComOamSpiPmMeasurementTypeDescription_4) :
    (describe received .ok measType_desc description).1 =
      if 0 < (describe received .ok measType_desc description).2.nrOfValues then .ok else .failure := by
  unfold describe
  cases received <;> simp

theorem describe_infos (received : Bool) {measType_desc : List (String × String)} (hne : measType_desc ≠ [])
    (description : ComOamSpiPmMeasurementTypeDescription_4) :
    (describe received .ok measType_desc description).2 =
      ⟨measType_desc.filterMap typeInfo, (measType_desc.filterMap typeInfo).length, true⟩ := by
  unfold describe
  rw [if_neg hne]

theorem described_iff {groupIds : Option (List String)} {measType_desc : List (String × String)}
    (hne : measType_desc ≠ []) (hexisting : existingGroups imm measurementType groupIds ≠ []) (received : Bool)
    (description : ComOamSpiPmMeasurementTypeDescription_4) :
    Described imm measurementType groupIds (describe received .ok measType_desc description) ↔
      (measType_desc.filterMap typeInfo).Perm
        ((existingGroups imm measurementType groupIds).map (infoFor imm measurementType)) := by
  rw [Described, if_neg hexisting, describe_ok, describe_infos _ hne]
  dsimp only
  rw [List.take_length]
  refine and_iff_right_of_imp fun hperm => if_pos ?_
  rw [hperm.length_eq, List.length_map]
  exact List.length_pos_iff.mpr hexisting

theorem describe_nil (received : Bool) : (describe received .ok [] ⟨[], 0, false⟩).1 = .failure := by
  cases received <;> rfl

theorem not_described {groupIds : Option (List String)} {r : MafReturn × ComOamSpiPmMeasurementTypeDescription_4}
    (hr : r.1 = .failure) : ¬ Described imm measurementType groupIds r := by
  unfold Described
  rw [hr]
  split <;> simp

/-- All groups that have the measurement type are described exactly where there is one, none of them comes after
one that has not, and their names can be cut out of the DN. -/
theorem typeDescriptions_iff (imm : ImmContent) (measurementType : String) (groupIds : Option (List String)) :
    DescribesAll imm measurementType groupIds ↔
      measurementType ≠ "" ∧ existingGroups imm measurementType groupIds ≠ [] ∧
        (∀ g ∈ existingGroups imm measurementType groupIds, g ∈ reached imm measurementType groupIds) ∧
          ∀ g ∈ existingGroups imm measurementType groupIds, NameKept measurementType g := by
  unfold DescribesAll
  by_cases hname : measurementType = ""
  · refine iff_of_false (fun hall => ?_) fun h => h.1 hname
    refine not_described ?_ (hall ⟨[], 0, false⟩)
    unfold getMeasurementTypeDescription
    rw [if_pos hname]
  have hfound := filterMap_typeInfo_perm imm measurementType (reached imm measurementType groupIds)
  have hnodup : (existingGroups imm measurementType groupIds).Nodup := existingGroups_nodup groupIds
  have hsubset : reached imm measurementType groupIds ⊆ existingGroups imm measurementType groupIds :=
    reached_subset groupIds
  have hperm := entries_perm_iff hnodup hsubset (cutName_cutName measurementType)
    (fun g => descriptionAt imm (getCompleteDn measurementType g))
  simp only [getMeasurementTypeDescription_eq hname, nameKept_iff]
  by_cases hexisting : existingGroups imm measurementType groupIds = []
  · refine iff_of_false (fun hall => ?_) fun h => h.2.1 hexisting
    have hnone : reached imm measurementType groupIds = [] :=
      List.eq_nil_of_subset_nil (hexisting ▸ hsubset)
    rw [hnone] at hall
    exact not_described (describe_nil _) (hall ⟨[], 0, false⟩)
  · rw [and_iff_right hname, and_iff_right hexisting, ← hperm]
    generalize putAll (descriptionAt imm) _ [] = measType_desc at hfound ⊢
    by_cases hne : measType_desc = []
    · subst hne
      refine iff_of_false (fun hall => not_described (describe_nil _) (hall ⟨[], 0, false⟩)) fun hall => ?_
      have hlength := (hfound.trans hall).length_eq
      rw [List.length_map] at hlength
      exact hexisting (List.length_eq_zero_iff.mp hlength.symm)
    · simp only [described_iff hne hexisting]
      exact ⟨fun h => hfound.symm.trans (h ⟨[], 0, false⟩), fun h _ => hfound.trans h⟩

end

def oneGroup : ImmContent where
  objects := [⟨"CcMT-1", "CcGroup1", some ⟨true, ["first"]⟩⟩]
  nodup := by simp

/-- The group that is missing hides the one that is listed after it, and where there is none the answer is a
failure. -/
theorem not_typeDescriptions :
    ¬ DescribesAll oneGroup "CcMT-1" (some ["CcGroup0", "CcGroup1"]) ∧ ¬ DescribesAll oneGroup "CcMT-2" none := by
  exact ⟨fun h => not_described (by decide) (h ⟨[], 0, false⟩), fun h => not_described (by decide)
    (h ⟨[], 0, false⟩)⟩

end ComSA.PmShowCounters
