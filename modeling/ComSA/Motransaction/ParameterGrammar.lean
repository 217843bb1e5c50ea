import ComSA.Motransaction.StructSearch
import Mathlib.Data.Finset.Max

/-!
# Lists of struct parameters that are let through

The code looks for the values of each member of each element in all names, one search after the other, and the
last member decides. It is told here when the lists that are let through in this way are those of the grammar.
-/

namespace ComSA.Action

open Naming (find)

/-! ## The condition -/

def searchFor (element : Option Nat) (member : List Char) : List Char :=
  match element with
  | none => member
  | some n => '_' :: (toString n).toList ++ '_' :: member

/-- The values of a member in an element are what the model says. -/
def MemberFits (env : TranslateEnv) (returnType : ParameterType) (adminOpParams : List AdminOperationParams)
    (parts : List NameParts) (element : Option Nat) (member : List Char) : Prop :=
  ∃ type ∈ memberTypeOf returnType.members member, MemberNumbered type (valuesOf parts element member) ∧
    (baseType type = .void ∨ HasCase (baseType type) = true) ∧
    ∀ x ∈ adminOpParams.zip parts, x.2.element = element ∧ x.2.member = member → ValueTyped env type x.1

instance (type : DatatypeContainer) (values : List (Option Nat)) : Decidable (MemberNumbered type values) := by
  unfold MemberNumbered
  infer_instance

instance (env : TranslateEnv) (type : DatatypeContainer) (p : AdminOperationParams) :
    Decidable (ValueTyped env type p) := by
  unfold ValueTyped
  infer_instance

instance (env : TranslateEnv) (returnType : ParameterType) (adminOpParams : List AdminOperationParams)
    (parts : List NameParts) (element : Option Nat) (member : List Char) :
    Decidable (MemberFits env returnType adminOpParams parts element member) := by
  unfold MemberFits
  infer_instance

/-- The names have the form of the grammar, with the elements from 1 on and no number at a single value but 1. No
member is found in the name of another one or in that of the struct. Where the last member of the last element has its
values, so do all members. -/
structure Regular (env : TranslateEnv) (returnType : ParameterType) (adminOpParams : List AdminOperationParams)
    (struct : List Char) (parts : List NameParts) : Prop extends Named returnType adminOpParams struct parts where
  elements : modelTypeMultiValue returnType = true → ∃ n, 0 < n ∧ NumberedTo n parts
  apart : ∀ element ∈ parts.map NameParts.element, ∀ member ∈ parts.map NameParts.member, ∀ p ∈ parts,
    searchFor element member <:+: p.paramName struct → p.element = element ∧ p.member = member
  outside : ∀ p ∈ parts, p.element = none → ¬ p.member <:+: struct
  alone : ∀ p ∈ parts, ∀ k, valuesOf parts p.element p.member = [some k] →
    k = 1 ∧ ∀ type, memberTypeOf returnType.members p.member = some type → 1 < type.multiplicityMax
  last : ∀ element ∈ parts.map NameParts.element, ∀ member ∈ parts.map NameParts.member,
    (∀ p ∈ parts, p.element.getD 0 ≤ element.getD 0 ∧ p.member ≤ member) →
      MemberFits env returnType adminOpParams parts element member →
        ∀ element ∈ parts.map NameParts.element, ∀ member ∈ parts.map NameParts.member,
          MemberFits env returnType adminOpParams parts element member

/-- A name that is cut into its parts, of the struct and a member of the model, and with an element where the model has
several structs only. -/
def NameKnown (returnType : ParameterType) (p : AdminOperationParams) : Prop :=
  ∃ name, NameTaken returnType p name ∧ (name.element ≠ none → modelTypeMultiValue returnType = true) ∧
    memberTypeOf returnType.members name.member ≠ none

/-! ## The searches -/

section
variable {returnType : ParameterType} {adminOpParams : List AdminOperationParams} {struct : List Char}
  {parts : List NameParts}

theorem known_of_fit {l : NameLists} (hread : readNames returnType adminOpParams ⟨[], []⟩ = some l)
    (hfit : l.Fit returnType) {p : AdminOperationParams} (hp : p ∈ adminOpParams) : NameKnown returnType p := by
  obtain ⟨names, htaken⟩ := taken_of_readNames hread
  obtain rfl := Option.some.inj (hread.symm.trans (readNames_eq htaken ⟨[], []⟩))
  obtain ⟨name, hname, hone⟩ := exists_of_mem_right htaken.flip hp
  refine ⟨name, hone, fun helement => hfit.2.1 (decide_eq_true ?_), hfit.1 _ ?_⟩
  · obtain ⟨number, hnumber⟩ := Option.ne_none_iff_exists'.mp helement
    exact List.ne_nil_of_mem (mem_insertAll.mpr (Or.inr (List.mem_filterMap.mpr ⟨name, hname, hnumber⟩)))
  · exact mem_insertAll.mpr (Or.inr (List.mem_map_of_mem hname))

theorem indexSuffix_injective : Function.Injective indexSuffix := by
  intro a b h
  cases a <;> cases b
  · rfl
  · cases h
  · cases h
  · rw [toString_injective (String.toList_injective (List.cons.inj h).2)]

theorem paramName_inj (hstruct : IsIdentifier struct) {p q : NameParts} (hp : IsIdentifier p.member)
    (hq : IsIdentifier q.member) (h : p.paramName struct = q.paramName struct) : p = q := by
  have hread := congrArg readName h
  rw [readName_paramName hstruct hp, readName_paramName hstruct hq] at hread
  obtain ⟨-, helement, hmember⟩ := StructParamName.mk.inj (Option.some.inj hread)
  have helement : p.element = q.element :=
    Option.map_injective (fun a b hab => toString_injective (String.toList_injective hab)) helement
  have hvalue : p.value = q.value := by
    unfold NameParts.paramName at h
    rw [helement, hmember] at h
    exact indexSuffix_injective (List.append_cancel_left (List.cons.inj (List.append_cancel_left h)).2)
  cases p
  cases q
  simp_all

def elementAt (isMultiStructure : Bool) (i : Nat) : Option Nat := if isMultiStructure then some (i + 1) else none

theorem searchName_eq (isMultiStructure : Bool) (i : Nat) (member : List Char) :
    searchName isMultiStructure i member = searchFor (elementAt isMultiStructure i) member := by
  cases isMultiStructure <;> rfl

theorem searchFor_inj {element element' : Option Nat} {member member' : List Char} (hmember : '_' ∉ member)
    (hmember' : '_' ∉ member') (h : searchFor element member = searchFor element' member') :
    element = element' ∧ member = member' := by
  cases element with
  | none =>
    cases element' with
    | none => exact ⟨rfl, h⟩
    | some n =>
      have h : member = '_' :: ((toString n).toList ++ '_' :: member') := h
      rw [h] at hmember
      exact absurd List.mem_cons_self hmember
  | some m =>
    cases element' with
    | none =>
      have h : '_' :: ((toString m).toList ++ '_' :: member) = member' := h
      rw [← h] at hmember'
      exact absurd List.mem_cons_self hmember'
    | some n =>
      have h : (toString m).toList ++ '_' :: member = (toString n).toList ++ '_' :: member' := (List.cons.inj h).2
      have hsplit := congrArg split h
      rw [split_append (underscore_notMem_toString m), split_append (underscore_notMem_toString n)] at hsplit
      obtain ⟨hnumber, hmember⟩ := Prod.ext_iff.mp (Option.some.inj hsplit)
      rw [toString_injective (String.toList_injective hnumber)]
      exact ⟨rfl, hmember⟩

theorem cutName_paramName {p : NameParts} (hstruct : '_' ∉ struct) (hmember : '_' ∉ p.member)
    (houtside : p.element = none → ¬ p.member <:+: struct) :
    cutName (searchFor p.element p.member) (p.paramName struct) = p.member ++ indexSuffix p.value := by
  obtain ⟨element, member, value⟩ := p
  unfold NameParts.paramName searchFor
  cases element with
  | none =>
    have hfind : find member struct = none := by
      rw [← Option.not_isSome_iff_eq_none, find_isSome_iff]
      exact houtside rfl
    rw [indexSuffix, List.append_nil]
    exact cutName_member hmember hfind
  | some n =>
    dsimp only [indexSuffix]
    rw [List.append_assoc, List.cons_append]
    exact cutName_element hstruct (underscore_notMem_toString n)

theorem searchFor_infix_paramName (p : NameParts) : searchFor p.element p.member <:+: p.paramName struct := by
  obtain ⟨element, member, value⟩ := p
  unfold NameParts.paramName searchFor
  cases element with
  | none => exact ⟨struct ++ ['_'], indexSuffix value, by simp [indexSuffix]⟩
  | some n => exact ⟨struct, indexSuffix value, by simp [indexSuffix]⟩

theorem rest_suffix_paramName (p : NameParts) : p.member ++ indexSuffix p.value <:+ p.paramName struct :=
  ⟨struct ++ indexSuffix p.element ++ ['_'], by simp [NameParts.paramName]⟩

theorem searches_eq (isMultiStructure : Bool) (n : Nat) (memberNameList : List (List Char)) :
    searches isMultiStructure n memberNameList = ((List.range n).product memberNameList).map fun x =>
      searchFor (elementAt isMultiStructure x.1) x.2 := by
  unfold searches List.product
  rw [List.map_flatMap]
  refine List.flatMap_congr fun i _ => ?_
  rw [List.map_map]
  exact List.map_congr_left fun member _ => searchName_eq isMultiStructure i member

theorem searches_nodup {isMultiStructure : Bool} {n : Nat} (hsingle : isMultiStructure = false → n = 1)
    {memberNameList : List (List Char)} (hnodup : memberNameList.Nodup) (hmembers : ∀ m ∈ memberNameList, '_' ∉ m) :
    (searches isMultiStructure n memberNameList).Nodup := by
  rw [searches_eq]
  refine List.Nodup.map_on (fun x hx y hy hxy => ?_) (List.nodup_range.product hnodup)
  obtain ⟨hi, hm⟩ := List.pair_mem_product.mp hx
  obtain ⟨hj, hm'⟩ := List.pair_mem_product.mp hy
  obtain ⟨helement, hmember⟩ := searchFor_inj (hmembers _ hm) (hmembers _ hm') hxy
  refine Prod.ext ?_ hmember
  cases isMultiStructure with
  | true => exact Nat.succ.inj (Option.some.inj helement)
  | false =>
    have hi := List.mem_range.mp hi
    have hj := List.mem_range.mp hj
    have hn := hsingle rfl
    omega

theorem searches_split (isMultiStructure : Bool) {n i : Nat} (hi : i < n) {memberNameList : List (List Char)}
    (hnodup : memberNameList.Nodup) {member : List Char} (hmember : member ∈ memberNameList) :
    ∃ after, searches isMultiStructure n memberNameList =
      searchesBefore isMultiStructure memberNameList i member ++ searchName isMultiStructure i member :: after := by
  obtain ⟨k, rfl⟩ := Nat.exists_eq_add_of_lt hi
  obtain ⟨before, after, rfl⟩ := List.append_of_mem hmember
  have hnot : member ∉ before := fun hmem => (List.nodup_append.mp hnodup).2.2 member hmem member List.mem_cons_self rfl
  unfold searchesBefore
  rw [(cut_first hnot).1]
  unfold searches
  rw [Nat.add_right_comm, List.range_add, List.range_succ, List.flatMap_append, List.flatMap_append,
    List.flatMap_singleton, List.map_append, List.map_cons]
  exact ⟨_, by rw [List.append_assoc, List.append_assoc, List.append_assoc, List.cons_append]⟩

/-! ## What is found -/

def ownParams (adminOpParams : List AdminOperationParams) (parts : List NameParts) (element : Option Nat)
    (member : List Char) : List AdminOperationParams :=
  ((adminOpParams.zip parts).filter fun x => x.2.element = element ∧ x.2.member = member).map Prod.fst

/-- The lists that are read hold the members and count the elements. -/
structure Listed (parts : List NameParts) (l : NameLists) : Prop where
  nodup : l.memberNameList.Nodup
  members : ∀ x, x ∈ l.memberNameList ↔ x ∈ parts.map NameParts.member
  single : l.isMultiStructure = false → l.nrOfValues = 1
  elements : ∀ p ∈ parts, ∃ i < l.nrOfValues, p.element = elementAt l.isMultiStructure i
  element_mem : parts ≠ [] → ∀ i < l.nrOfValues, elementAt l.isMultiStructure i ∈ parts.map NameParts.element

theorem numbered_iff {values : List (Option Nat)} {max : Int} (hmax : (values.length : Int) ≤ max)
    (halone : ∀ k, values = [some k] → k = 1 ∧ 1 < max) :
    (1 < values.length → values.Perm ((List.range values.length).map fun i => some (i + 1))) ↔
      values = [] ∨ values = [none] ∨
        1 < max ∧ values.Perm ((List.range values.length).map fun i => some (i + 1)) := by
  match values with
  | [] => simp
  | [none] => simp
  | [some k] =>
    obtain ⟨rfl, hmulti⟩ := halone k rfl
    simpa using hmulti
  | v :: w :: values =>
    have hmulti : 1 < (v :: w :: values).length := by simp
    have hlong : 1 < max := by omega
    simp only [hmulti, hlong, forall_const, true_and, reduceCtorEq, List.cons.injEq, and_false, false_or]

namespace Regular
variable {env : TranslateEnv} (h : Regular env returnType adminOpParams struct parts) {l : NameLists}
include h

theorem single_of_none (p : NameParts) (hp : p ∈ parts) (hnone : p.element = none) :
    modelTypeMultiValue returnType = false := by
  rw [← Bool.not_eq_true]
  intro hmodel
  obtain ⟨n, -, hall⟩ := h.elements hmodel
  obtain ⟨i, -, -, hi⟩ := (hall p.element).mp (List.mem_map_of_mem hp)
  rw [hnone] at hi
  cases hi

theorem known (hknown : ∀ p ∈ adminOpParams, NameKnown returnType p) (p : NameParts) (hp : p ∈ parts) :
    (p.element ≠ none → modelTypeMultiValue returnType = true) ∧ memberTypeOf returnType.members p.member ≠ none := by
  have htaken := List.forall₂_map_right_iff.mp (h.toNamed.taken h.single_of_none)
  obtain ⟨q, hq, hread, -⟩ := exists_of_mem_right htaken hp
  obtain ⟨name, ⟨hname, -⟩, hmodel, htype⟩ := hknown q hq
  obtain rfl := Option.some.inj (hread.symm.trans hname)
  exact ⟨fun hne => hmodel fun hnone => hne (Option.map_eq_none_iff.mp hnone), htype⟩

theorem listed (hknown : ∀ p ∈ adminOpParams, NameKnown returnType p) :
    ∃ l, readNames returnType adminOpParams ⟨[], []⟩ = some l ∧ Listed parts l ∧
      l.isMultiStructure = modelTypeMultiValue returnType ∧
      ∀ n, 0 < n → NumberedTo n parts → l.nrOfValues = n := by
  obtain ⟨l, hread, hmember, hmulti, hnodup⟩ := h.toNamed.lists h.single_of_none
  have hmembers := readNames_nodup hread List.nodup_nil
  refine ⟨l, hread, ?_⟩
  rw [← and_assoc]
  refine ⟨?_, fun n hpos hall => (hall.count hpos hmulti hnodup).2⟩
  cases hmodel : modelTypeMultiValue returnType with
  | true =>
    obtain ⟨n, hpos, hall⟩ := h.elements hmodel
    obtain ⟨hmultiple, hn⟩ := hall.count hpos hmulti hnodup
    refine ⟨⟨hmembers, hmember, fun hsingle => ?_, fun p hp => ?_, fun _ i hi => ?_⟩, hmultiple⟩
    · rw [hmultiple] at hsingle
      cases hsingle
    · obtain ⟨i, hone, hle, helement⟩ := (hall p.element).mp (List.mem_map_of_mem hp)
      refine ⟨i - 1, by omega, ?_⟩
      rw [hmultiple, elementAt, if_pos rfl, Nat.sub_add_cancel hone]
      exact helement
    · rw [hmultiple, elementAt, if_pos rfl]
      exact (hall _).mpr ⟨i + 1, by omega, by omega, rfl⟩
  | false =>
    have hnone (p : NameParts) (hp : p ∈ parts) : p.element = none := by
      by_contra hne
      have hmulti := (h.known hknown p hp).1 hne
      rw [hmodel] at hmulti
      cases hmulti
    obtain ⟨hsingle, hn⟩ := single_count hnone hmulti
    refine ⟨⟨hmembers, hmember, fun _ => hn, fun p hp => ⟨0, by omega, ?_⟩, fun hne i hi => ?_⟩, hsingle⟩
    · rw [hsingle]
      exact hnone p hp
    · obtain ⟨p, hp⟩ := List.exists_mem_of_ne_nil parts hne
      rw [hsingle]
      exact List.mem_map.mpr ⟨p, hp, hnone p hp⟩

variable (hl : Listed parts l)
include hl

theorem underscore_notMem (m : List Char) (hm : m ∈ l.memberNameList) : '_' ∉ m := by
  obtain ⟨p, hp, rfl⟩ := List.mem_map.mp ((hl.members m).mp hm)
  exact (h.member_identifier p hp).underscore_notMem

theorem missed {p : NameParts} (hp : p ∈ parts) {c : List Char}
    (hc : c ∈ searches l.isMultiStructure l.nrOfValues l.memberNameList) (hne : c ≠ searchFor p.element p.member) :
    (find c (p.paramName struct)).isSome = false ∧
      (find c (cutName (searchFor p.element p.member) (p.paramName struct))).isSome = false := by
  have hnot : ¬ c <:+: p.paramName struct := by
    intro hpart
    rw [searches_eq] at hc
    obtain ⟨x, hx, rfl⟩ := List.mem_map.mp hc
    obtain ⟨hi, hm⟩ := List.pair_mem_product.mp hx
    obtain ⟨helement, hmember⟩ := h.apart _ (hl.element_mem (List.ne_nil_of_mem hp) x.1 (List.mem_range.mp hi)) _
      ((hl.members _).mp hm) p hp hpart
    exact hne (by rw [helement, hmember])
  have hmember := (h.member_identifier p hp).underscore_notMem
  rw [cutName_paramName h.struct_identifier.underscore_notMem hmember (h.outside p hp), ← Bool.not_eq_true,
    ← Bool.not_eq_true, find_isSome_iff, find_isSome_iff]
  exact ⟨hnot, fun hpart => hnot (hpart.trans (rest_suffix_paramName p).isInfix)⟩

theorem searches_nodup : (searches l.isMultiStructure l.nrOfValues l.memberNameList).Nodup :=
  Action.searches_nodup hl.single hl.nodup (h.underscore_notMem hl)

omit h hl in
theorem cut_of_missed (c name : List Char) (hmiss : (find c name).isSome = false) : cutName c name = name := by
  rw [Option.isSome_eq_false_iff, Option.isNone_iff_eq_none] at hmiss
  unfold cutName
  rw [hmiss]

theorem cutBy_paramName {p : NameParts} (hp : p ∈ parts) :
    cutBy (searches l.isMultiStructure l.nrOfValues l.memberNameList) (p.paramName struct) =
      p.member ++ indexSuffix p.value := by
  have hown : searchFor p.element p.member ∈ searches l.isMultiStructure l.nrOfValues l.memberNameList := by
    obtain ⟨i, hi, helement⟩ := hl.elements p hp
    rw [searches_eq, helement]
    exact List.mem_map_of_mem (f := fun x : Nat × List Char => searchFor (elementAt l.isMultiStructure x.1) x.2)
      (List.pair_mem_product.mpr ⟨List.mem_range.mpr hi, (hl.members _).mpr (List.mem_map_of_mem hp)⟩)
  have hcut := (cutAll_eq cut_of_missed (h.searches_nodup hl)
    fun c hc hne => h.missed hl hp hc hne).1 hown
  exact hcut.trans (cutName_paramName h.struct_identifier.underscore_notMem
    (h.member_identifier p hp).underscore_notMem (h.outside p hp))

theorem hit_iff {p : NameParts} (hp : p ∈ parts) {i : Nat} (hi : i < l.nrOfValues) {member : List Char}
    (hm : member ∈ l.memberNameList) :
    (find (searchName l.isMultiStructure i member)
      (cutBy (searchesBefore l.isMultiStructure l.memberNameList i member) (p.paramName struct))).isSome = true ↔
        p.element = elementAt l.isMultiStructure i ∧ p.member = member := by
  obtain ⟨after, hsplit⟩ := searches_split l.isMultiStructure hi hl.nodup hm
  have hnodup := h.searches_nodup hl
  have hmissed {c : List Char} := @missed _ _ _ _ _ h _ hl p hp c
  rw [hsplit] at hnodup hmissed
  have hhit := hit_cutAll_iff cut_of_missed hnodup
    (find_isSome_iff.mpr (searchFor_infix_paramName p)) fun c hc hne => hmissed hc hne
  rw [searchName_eq] at hhit ⊢
  refine hhit.trans ⟨fun heq => ?_, fun ⟨helement, hmember⟩ => by rw [helement, hmember]⟩
  exact searchFor_inj (h.member_identifier p hp).underscore_notMem (h.underscore_notMem hl member hm) heq.symm

theorem found_eq {i : Nat} (hi : i < l.nrOfValues) {member : List Char} (hm : member ∈ l.memberNameList) :
    found l.isMultiStructure l.nrOfValues l.memberNameList adminOpParams i member =
      rename (cutBy (searches l.isMultiStructure l.nrOfValues l.memberNameList))
        (ownParams adminOpParams parts (elementAt l.isMultiStructure i) member) := by
  unfold found ownParams
  refine congrArg _ ?_
  conv_lhs => arg 2; rw [← List.map_fst_zip h.toNamed.forall₂.length_eq.le]
  rw [List.filter_map]
  refine congrArg _ (List.filter_congr fun x hx => ?_)
  rw [Bool.eq_iff_iff, decide_eq_true_iff, Function.comp_apply, (List.forall₂_iff_zip.mp h.toNamed.forall₂).2 hx]
  exact h.hit_iff hl (List.of_mem_zip hx).2 hi hm

theorem numbers_found {i : Nat} (hi : i < l.nrOfValues) {member : List Char} (hm : member ∈ l.memberNameList) :
    (found l.isMultiStructure l.nrOfValues l.memberNameList adminOpParams i member).map numberOf =
      (valuesOf parts (elementAt l.isMultiStructure i) member).map (Option.map fun n => (toString n).toList) := by
  rw [h.found_eq hl hi hm, rename, ownParams, valuesOf]
  conv_rhs => arg 2; arg 2; rw [← List.map_snd_zip h.toNamed.forall₂.length_eq.ge]
  rw [List.filter_map, List.map_map, List.map_map, List.map_map, List.map_map]
  refine List.map_congr_left fun x hx => ?_
  have hx := (List.mem_filter.mp hx).1
  have hp := (List.of_mem_zip hx).2
  simp only [Function.comp_apply, numberOf]
  rw [(List.forall₂_iff_zip.mp h.toNamed.forall₂).2 hx, h.cutBy_paramName hl hp]
  have hmember := (h.member_identifier x.2 hp).underscore_notMem
  cases x.2.value with
  | none =>
    rw [indexSuffix, List.append_nil, split_of_notMem hmember]
    rfl
  | some v =>
    rw [indexSuffix, split_append hmember]
    rfl

theorem memberFound_iff {i : Nat} (hi : i < l.nrOfValues) {member : List Char} (hm : member ∈ l.memberNameList) :
    MemberFound env returnType l adminOpParams i member ↔
      MemberFits env returnType adminOpParams parts (elementAt l.isMultiStructure i) member := by
  have hnumbers := h.numbers_found hl hi hm
  have hlen := congrArg List.length hnumbers
  rw [List.length_map, List.length_map] at hlen
  have hfound := h.found_eq hl hi hm
  have hnumbered : Numbered (found l.isMultiStructure l.nrOfValues l.memberNameList adminOpParams i member) ↔
      (valuesOf parts (elementAt l.isMultiStructure i) member).Perm
        ((List.range (valuesOf parts (elementAt l.isMultiStructure i) member).length).map fun i => some (i + 1)) := by
    have hinj : Function.Injective (Option.map fun n : Nat => (toString n).toList) :=
      Option.map_injective fun a b hab => toString_injective (String.toList_injective hab)
    rw [Numbered, hnumbers, hlen, ← List.map_perm_map_iff hinj, List.map_map]
    rfl
  have hvalues (t : Datatype) : (∀ p ∈ found l.isMultiStructure l.nrOfValues l.memberNameList adminOpParams i member,
      convertValue env t p ≠ none) ↔ ∀ x ∈ adminOpParams.zip parts,
        x.2.element = elementAt l.isMultiStructure i ∧ x.2.member = member → convertValue env t x.1 ≠ none := by
    rw [hfound, rename, ownParams, List.forall_mem_map, List.forall_mem_map]
    simp only [List.mem_filter, decide_eq_true_eq, and_imp]
    rfl
  unfold MemberFound MemberFits ValuesFit MemberNumbered ValueTyped
  simp only [Option.mem_def, hlen]
  refine exists_congr fun type => and_congr_right fun htype => ?_
  rw [hnumbered, hvalues, and_assoc, and_assoc, and_assoc]
  refine and_congr_right fun _ => and_congr_right fun hmax => ?_
  rw [numbered_iff hmax fun k hk => ?_]
  · refine and_congr_right fun _ => ?_
    by_cases hvoid : baseType type = .void
    · simp [hvoid]
    · simp only [hvoid, false_or]
      exact and_congr_right fun hcase => by simp only [hcase, true_and]
  · -- a single value stands in some name
    have hmem : some k ∈ valuesOf parts (elementAt l.isMultiStructure i) member := by
      rw [hk]
      exact List.mem_singleton_self _
    obtain ⟨p, hp, -⟩ := List.mem_map.mp hmem
    obtain ⟨hp, hown⟩ := List.mem_filter.mp hp
    obtain ⟨helement, hmember⟩ := of_decide_eq_true hown
    rw [← helement, ← hmember] at hk
    obtain ⟨hone, hmulti⟩ := h.alone p hp k hk
    exact ⟨hone, hmulti type (hmember ▸ htype)⟩

theorem fit_iff (hknown : ∀ p ∈ adminOpParams, NameKnown returnType p)
    (hmulti : l.isMultiStructure = modelTypeMultiValue returnType)
    (hcount : ∀ n, 0 < n → NumberedTo n parts → l.nrOfValues = n) :
    l.Fit returnType ↔ ElementsNumbered returnType parts := by
  have hmembers : ∀ name ∈ l.memberNameList, memberTypeOf returnType.members name ≠ none := by
    intro name hname
    obtain ⟨p, hp, rfl⟩ := List.mem_map.mp ((hl.members name).mp hname)
    exact (h.known hknown p hp).2
  unfold NameLists.Fit ElementsNumbered
  rw [and_iff_right hmembers, hmulti, and_iff_right id]
  split <;> rename_i hmodel
  · constructor
    · rintro ⟨hmin, hmax⟩
      obtain ⟨n, hpos, hall⟩ := h.elements hmodel
      rw [hcount n hpos hall] at hmin hmax
      exact ⟨n, hpos, hmin, hmax, hall⟩
    · rintro ⟨n, hpos, hmin, hmax, hall⟩
      rw [hcount n hpos hall]
      exact ⟨hmin, hmax⟩
  · have hmodel := Bool.eq_false_iff.mpr hmodel
    obtain ⟨hmin, hmax⟩ := multiplicity_of_single hmodel
    rw [hmin, hmax, hl.single (hmulti.trans hmodel)]
    refine iff_of_true ⟨le_rfl, le_rfl⟩ fun p hp => ?_
    by_contra hne
    exact Bool.false_ne_true (hmodel.symm.trans ((h.known hknown p hp).1 hne))

theorem lastFound_iff (hn : 0 < l.nrOfValues) :
    LastFound env returnType l adminOpParams ↔ ∀ element ∈ parts.map NameParts.element,
      ∀ member ∈ parts.map NameParts.member, MemberFits env returnType adminOpParams parts element member := by
  have hlast : l.nrOfValues - 1 < l.nrOfValues := Nat.sub_lt hn Nat.one_pos
  constructor
  · intro hfound element helement member hmember
    have hne : parts ≠ [] := by
      rintro rfl
      cases hmember
    -- the highest member
    have hnames : (parts.map NameParts.member).toFinset.Nonempty := ⟨member, List.mem_toFinset.mpr hmember⟩
    obtain ⟨top, htop, hmax⟩ := Finset.exists_max_image _ id hnames
    have htop := List.mem_toFinset.mp htop
    have hmax (m : List Char) (hm : m ∈ parts.map NameParts.member) : m ≤ top := hmax m (List.mem_toFinset.mpr hm)
    have hfits := (h.memberFound_iff hl hlast ((hl.members top).mpr htop)).mp
      (hfound top ((hl.members top).mpr htop) fun m hm => hmax m ((hl.members m).mp hm))
    refine h.last _ (hl.element_mem hne _ hlast) top htop (fun p hp => ⟨?_, hmax _ (List.mem_map_of_mem hp)⟩) hfits
      element helement member hmember
    obtain ⟨i, hi, hp⟩ := hl.elements p hp
    rw [hp]
    unfold elementAt
    split
    · exact Nat.succ_le_succ (Nat.le_sub_one_of_lt hi)
    · exact le_rfl
  · intro hall member hmember _
    rw [h.memberFound_iff hl hlast hmember]
    have hm := (hl.members member).mp hmember
    refine hall _ (hl.element_mem ?_ _ hlast) member hm
    rintro rfl
    cases hm

end Regular

theorem Named.parts_unique {struct' : List Char} {parts' : List NameParts}
    (h : Named returnType adminOpParams struct parts) (h' : Named returnType adminOpParams struct' parts') :
    struct' = struct ∧ parts' = parts := by
  obtain rfl : struct = struct' := Option.some.inj (h.model.symm.trans h'.model)
  refine ⟨rfl, ?_⟩
  have hnames := h'.names.symm.trans h.names
  rw [← List.forall₂_eq_eq_eq, List.forall₂_map_left_iff, List.forall₂_map_right_iff] at hnames
  rw [← List.forall₂_eq_eq_eq]
  refine List.forall₂_iff_zip.mpr ⟨hnames.length_eq, fun {p q} hzip => ?_⟩
  obtain ⟨hp, hq⟩ := List.of_mem_zip hzip
  exact paramName_inj h.struct_identifier (h'.member_identifier p hp) (h.member_identifier q hq)
    ((List.forall₂_iff_zip.mp hnames).2 hzip)

theorem wellFormed_iff {env : TranslateEnv} (h : Regular env returnType adminOpParams struct parts) :
    WellFormed env returnType adminOpParams ↔ ElementsNumbered returnType parts ∧
      ∀ element ∈ parts.map NameParts.element, ∀ member ∈ parts.map NameParts.member,
        MemberFits env returnType adminOpParams parts element member := by
  constructor
  · rintro ⟨struct', parts', hdescribed⟩
    obtain ⟨rfl, rfl⟩ := h.toNamed.parts_unique hdescribed.toNamed
    refine ⟨hdescribed.elements, fun element helement member hmember => ?_⟩
    obtain ⟨type, htype, hnumbered⟩ := hdescribed.values element helement member hmember
    -- some parameter has a value of the member
    have htyped (x : AdminOperationParams × NameParts) (hx : x ∈ adminOpParams.zip parts') (hm : x.2.member = member) :
        ValueTyped env type x.1 := by
      obtain ⟨type', htype', hvalue⟩ := hdescribed.types x hx
      rw [hm] at htype'
      obtain rfl := Option.some.inj (htype'.symm.trans htype)
      exact hvalue
    refine ⟨type, htype, hnumbered, ?_, fun x hx hown => htyped x hx hown.2⟩
    obtain ⟨p, hp, hm⟩ := List.mem_map.mp hmember
    rw [← List.map_snd_zip h.toNamed.forall₂.length_eq.ge] at hp
    obtain ⟨x, hx, rfl⟩ := List.mem_map.mp hp
    exact (htyped x hx hm).imp_right And.left
  · rintro ⟨helements, hall⟩
    refine ⟨struct, parts, { h.toNamed with elements := helements, values := ?_, types := ?_ }⟩
    · intro element helement member hmember
      obtain ⟨type, htype, hnumbered, -⟩ := hall element helement member hmember
      exact ⟨type, htype, hnumbered⟩
    · intro x hx
      have hp := (List.of_mem_zip hx).2
      obtain ⟨type, htype, -, -, htyped⟩ := hall x.2.element (List.mem_map_of_mem hp) x.2.member
        (List.mem_map_of_mem hp)
      exact ⟨type, htype, htyped x hx ⟨rfl, rfl⟩⟩

end

def pairs : ParameterType :=
  ⟨⟨.struct, .void, 0, 3⟩, some ['S'], [⟨['a'], ⟨.int32, .void, 1, 1⟩⟩, ⟨['b'], ⟨.int32, .void, 0, 1⟩⟩]⟩

def pairNames : List NameParts := [⟨some 2, ['b'], none⟩, ⟨some 1, ['a'], none⟩, ⟨some 2, ['a'], none⟩]

def pairParams : List AdminOperationParams :=
  pairNames.map fun p => ⟨p.paramName ['S'], .saInt32, .number 7⟩

theorem regular_pairs : Regular ⟨id, id, id, false⟩ pairs pairParams ['S'] pairNames where
  model := rfl
  struct_identifier := ⟨'S', [], rfl, by decide, nofun⟩
  member_identifier := by
    intro p hp
    simp only [pairNames, List.mem_cons, List.not_mem_nil, or_false] at hp
    rcases hp with rfl | rfl | rfl
    · exact ⟨'b', [], rfl, by decide, nofun⟩
    · exact ⟨'a', [], rfl, by decide, nofun⟩
    · exact ⟨'a', [], rfl, by decide, nofun⟩
  names := rfl
  elements _ := by
    refine ⟨2, by decide, fun element => ?_⟩
    simp only [pairNames, List.map_cons, List.map_nil, List.mem_cons, List.not_mem_nil, or_false]
    constructor
    · rintro (rfl | rfl | rfl)
      · exact ⟨2, by decide, by decide, rfl⟩
      · exact ⟨1, by decide, by decide, rfl⟩
      · exact ⟨2, by decide, by decide, rfl⟩
    · rintro ⟨i, hone, htwo, rfl⟩
      simp only [Option.some_inj]
      omega
  apart := by decide
  outside := by decide
  alone p hp k hk := by
    simp only [pairNames, List.mem_cons, List.not_mem_nil, or_false] at hp
    rcases hp with rfl | rfl | rfl <;> cases hk
  last _ _ _ _ _ _ := by decide

end ComSA.Action
