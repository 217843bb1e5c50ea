import ComSA.Motransaction.ActionResult
import Mathlib.Data.List.Perm.Basic

/-!
# The names of struct parameters

A value of a struct has a name of one of four forms: the struct, the number of the element if there are
several, the member, and the number of the value if there are several. It is told here which lists of names
are let through.
-/

namespace ComSA.Action

/-! ## The grammar -/

structure NameParts where
  element : Option Nat
  member : List Char
  value : Option Nat

def IsIdentifier (s : List Char) : Prop := ∃ c cs, s = c :: cs ∧ c.isAlpha = true ∧ ∀ d ∈ cs, d.isAlphanum = true

def indexSuffix : Option Nat → List Char
  | none => []
  | some n => '_' :: (toString n).toList

def NameParts.paramName (struct : List Char) (p : NameParts) : List Char :=
  struct ++ indexSuffix p.element ++ '_' :: (p.member ++ indexSuffix p.value)

def NumberedTo (n : Nat) (parts : List NameParts) : Prop :=
  ∀ element, element ∈ parts.map NameParts.element ↔ ∃ i, 1 ≤ i ∧ i ≤ n ∧ element = some i

/-- The elements are numbered from 1 on, where the model has several structs. -/
def ElementsNumbered (returnType : ParameterType) (parts : List NameParts) : Prop :=
  if modelTypeMultiValue returnType then
    ∃ n : Nat, 0 < n ∧ returnType.multiplicityMin ≤ n ∧ (n : Int) ≤ returnType.multiplicityMax ∧ NumberedTo n parts
  else ∀ p ∈ parts, p.element = none

def valuesOf (parts : List NameParts) (element : Option Nat) (member : List Char) : List (Option Nat) :=
  (parts.filter fun p => p.element = element ∧ p.member = member).map NameParts.value

/-- The values are as many as the model says. One may be without a number, and those of a member that can
have several are numbered from 1 on. -/
def MemberNumbered (type : DatatypeContainer) (values : List (Option Nat)) : Prop :=
  (type.multiplicityMin ≤ values.length ∧ (values.length : Int) ≤ type.multiplicityMax) ∧
    (values = [] ∨ values = [none] ∨
      1 < type.multiplicityMax ∧ values.Perm ((List.range values.length).map fun i => some (i + 1)))

def ValueTyped (env : TranslateEnv) (type : DatatypeContainer) (p : AdminOperationParams) : Prop :=
  baseType type = .void ∨ HasCase (baseType type) = true ∧ convertValue env (baseType type) p ≠ none

/-- The names have these parts, and are those of the struct of the model. -/
structure Named (returnType : ParameterType) (adminOpParams : List AdminOperationParams) (struct : List Char)
    (parts : List NameParts) : Prop where
  model : returnType.structName = some struct
  struct_identifier : IsIdentifier struct
  member_identifier : ∀ p ∈ parts, IsIdentifier p.member
  names : adminOpParams.map AdminOperationParams.paramName = parts.map (NameParts.paramName struct)

/-- The parameters are the values of a struct of the model, by their names. -/
structure Described (env : TranslateEnv) (returnType : ParameterType) (adminOpParams : List AdminOperationParams)
    (struct : List Char) (parts : List NameParts) : Prop extends Named returnType adminOpParams struct parts where
  elements : ElementsNumbered returnType parts
  values : ∀ element ∈ parts.map NameParts.element, ∀ member ∈ parts.map NameParts.member,
    ∃ type ∈ memberTypeOf returnType.members member, MemberNumbered type (valuesOf parts element member)
  types : ∀ x ∈ adminOpParams.zip parts, ∃ type ∈ memberTypeOf returnType.members x.2.member,
    ValueTyped env type x.1

def WellFormed (env : TranslateEnv) (returnType : ParameterType) (adminOpParams : List AdminOperationParams) :
    Prop :=
  ∃ struct parts, Described env returnType adminOpParams struct parts

/-! ## Reading a name -/

theorem underscore_notMem_of_alphanum {s : List Char} (h : ∀ d ∈ s, d.isAlphanum = true) : '_' ∉ s := fun hmem =>
  absurd (h '_' hmem) (by decide)

theorem IsIdentifier.underscore_notMem {s : List Char} (h : IsIdentifier s) : '_' ∉ s := by
  obtain ⟨c, cs, rfl, hc, hcs⟩ := h
  refine underscore_notMem_of_alphanum fun d hd => ?_
  rcases List.mem_cons.mp hd with rfl | hd
  · rw [Char.isAlphanum, hc, Bool.true_or]
  · exact hcs d hd

theorem underscore_notMem_toString (n : Nat) : '_' ∉ (toString n).toList := fun h =>
  absurd (isDigit_of_mem_toString h) (by decide)

theorem split_append {a b : List Char} (h : '_' ∉ a) : split (a ++ '_' :: b) = some (a, b) := by
  rw [split, if_pos (by simp), (cut_first h).1, (cut_first h).2, List.tail_cons]

theorem split_of_notMem {a : List Char} (h : '_' ∉ a) : split a = none := if_neg h

theorem IsIdentifier.not_number {s : List Char} (h : IsIdentifier s) : s.all Char.isDigit = false := by
  obtain ⟨c, cs, rfl, hc, -⟩ := h
  have hdigit : c.isDigit = false := by
    rw [Bool.eq_false_iff]
    intro hd
    have hlow : c.toNat ≤ 57 := (Char.isDigit_iff_toNat.mp hd).2
    delta Char.isAlpha Char.isUpper Char.isLower at hc
    simp only [Bool.or_eq_true, Bool.and_eq_true, decide_eq_true_iff, ge_iff_le, UInt32.le_iff_toNat_le] at hc
    change (65 ≤ c.toNat ∧ c.toNat ≤ 90) ∨ (97 ≤ c.toNat ∧ c.toNat ≤ 122) at hc
    omega
  rw [List.all_cons, hdigit, Bool.false_and]

theorem all_isDigit_toString (n : Nat) : (toString n).toList.all Char.isDigit = true :=
  List.all_eq_true.mpr fun _ hc => isDigit_of_mem_toString hc

theorem readName_paramName {struct : List Char} {p : NameParts} (hstruct : IsIdentifier struct)
    (hmember : IsIdentifier p.member) :
    readName (p.paramName struct) = some ⟨struct, p.element.map fun n => (toString n).toList, p.member⟩ := by
  obtain ⟨element, member, value⟩ := p
  have hs := hstruct.underscore_notMem
  have hm : '_' ∉ member := hmember.underscore_notMem
  unfold readName NameParts.paramName
  cases element with
  | none =>
    rw [indexSuffix, List.append_nil, split_append hs]
    cases value with
    | none => simp [indexSuffix, split_of_notMem hm]
    | some v => simp [indexSuffix, split_append hm, hmember.not_number]
  | some n =>
    have hn := underscore_notMem_toString n
    rw [indexSuffix, List.append_assoc, List.cons_append, split_append hs]
    dsimp only
    rw [split_append hn]
    dsimp only
    rw [if_pos (all_isDigit_toString n)]
    cases value with
    | none => simp [indexSuffix, split_of_notMem hm]
    | some v => simp [indexSuffix, split_append hm]

/-! ## Reading the list -/

theorem mem_insert_nameList {nameList : List (List Char)} {name x : List Char} :
    x ∈ insert_nameList nameList name ↔ x ∈ nameList ∨ x = name := by
  unfold insert_nameList
  split <;> rename_i h
  · exact ⟨Or.inl, fun hx => hx.elim id fun heq => heq ▸ h⟩
  · rw [List.mem_append, List.mem_singleton]

def insertAll (l names : List (List Char)) : List (List Char) := names.foldl insert_nameList l

theorem insertAll_append (l names names' : List (List Char)) :
    insertAll l (names ++ names') = insertAll (insertAll l names) names' := List.foldl_append

theorem mem_insertAll {l names : List (List Char)} {x : List Char} :
    x ∈ insertAll l names ↔ x ∈ l ∨ x ∈ names := by
  induction names generalizing l with
  | nil => simp [insertAll]
  | cons name names ih =>
    have hstep : insertAll l (name :: names) = insertAll (insert_nameList l name) names := rfl
    rw [hstep, ih, mem_insert_nameList, List.mem_cons, or_assoc]

theorem insertAll_nodup {l : List (List Char)} (h : l.Nodup) (names : List (List Char)) : (insertAll l names).Nodup := by
  induction names generalizing l with
  | nil => exact h
  | cons name names ih => exact ih (insert_nameList_nodup h name)

/-- A name that is read, of the struct of the model and with an element where the model has several. -/
def NameTaken (returnType : ParameterType) (p : AdminOperationParams) (name : StructParamName) : Prop :=
  readName p.paramName = some name ∧ returnType.structName = some name.struct ∧
    (name.element = none → modelTypeMultiValue returnType = false)

theorem readNames_eq {returnType : ParameterType} {adminOpParams : List AdminOperationParams}
    {names : List StructParamName} (h : List.Forall₂ (NameTaken returnType) adminOpParams names) (l : NameLists) :
    readNames returnType adminOpParams l = some ⟨insertAll l.memberNameList (names.map StructParamName.member),
      insertAll l.multiValueList (names.filterMap StructParamName.element)⟩ := by
  induction h generalizing l with
  | nil => rfl
  | @cons p name adminOpParams names hname _ ih =>
    obtain ⟨hread, hstruct, hmodel⟩ := hname
    rw [readNames, hread]
    dsimp only
    rw [if_neg (not_not.mpr hstruct)]
    cases helement : name.element with
    | none =>
      dsimp only
      rw [if_neg (by rw [hmodel helement]; exact Bool.false_ne_true), ih, List.filterMap_cons_none helement]
      rfl
    | some number =>
      dsimp only
      rw [ih, List.filterMap_cons_some helement]
      rfl

theorem taken_of_readNames {returnType : ParameterType} {adminOpParams : List AdminOperationParams}
    {l l' : NameLists} (h : readNames returnType adminOpParams l = some l') :
    ∃ names, List.Forall₂ (NameTaken returnType) adminOpParams names := by
  induction adminOpParams generalizing l with
  | nil => exact ⟨[], .nil⟩
  | cons p adminOpParams ih =>
    rw [readNames] at h
    split at h
    · cases h
    · rename_i name hname
      split at h
      · cases h
      · rename_i hstruct
        have hstruct := not_not.mp hstruct
        split at h
        · rename_i number helement
          obtain ⟨names, hnames⟩ := ih h
          exact ⟨name :: names, .cons ⟨hname, hstruct, fun hnone => by rw [helement] at hnone; cases hnone⟩ hnames⟩
        · split at h
          · cases h
          · rename_i hmodel
            obtain ⟨names, hnames⟩ := ih h
            exact ⟨name :: names, .cons ⟨hname, hstruct, fun _ => Bool.eq_false_iff.mpr hmodel⟩ hnames⟩

theorem member_of_readNames {returnType : ParameterType} {adminOpParams : List AdminOperationParams}
    {l l' : NameLists} (h : readNames returnType adminOpParams l = some l') {p : AdminOperationParams}
    (hp : p ∈ adminOpParams) {name : StructParamName} (hname : readName p.paramName = some name) :
    name.member ∈ l'.memberNameList := by
  obtain ⟨names, htaken⟩ := taken_of_readNames h
  obtain rfl := Option.some.inj (h.symm.trans (readNames_eq htaken l))
  obtain ⟨name', hmem, ⟨hread, -⟩⟩ := exists_of_mem_right htaken.flip hp
  obtain rfl := Option.some.inj (hname.symm.trans hread)
  exact mem_insertAll.mpr (Or.inr (List.mem_map_of_mem hmem))

def NameParts.readAs (struct : List Char) (p : NameParts) : StructParamName :=
  ⟨struct, p.element.map fun n => (toString n).toList, p.member⟩

namespace Named
variable {returnType : ParameterType} {adminOpParams : List AdminOperationParams} {struct : List Char}
  {parts : List NameParts}

theorem forall₂ (h : Named returnType adminOpParams struct parts) :
    List.Forall₂ (fun p part => p.paramName = part.paramName struct) adminOpParams parts := by
  have hnames := h.names
  rwa [← List.forall₂_eq_eq_eq, List.forall₂_map_left_iff, List.forall₂_map_right_iff] at hnames

theorem taken (h : Named returnType adminOpParams struct parts)
    (hmodel : ∀ p ∈ parts, p.element = none → modelTypeMultiValue returnType = false) :
    List.Forall₂ (NameTaken returnType) adminOpParams (parts.map (NameParts.readAs struct)) := by
  refine List.forall₂_map_right_iff.mpr (List.forall₂_iff_zip.mpr ⟨h.forall₂.length_eq, fun {p part} hzip => ?_⟩)
  have hpart : part ∈ parts := (List.of_mem_zip hzip).2
  refine ⟨?_, h.model, fun hnone => hmodel part hpart (Option.map_eq_none_iff.mp hnone)⟩
  rw [(List.forall₂_iff_zip.mp h.forall₂).2 hzip]
  exact readName_paramName h.struct_identifier (h.member_identifier part hpart)

theorem lists (h : Named returnType adminOpParams struct parts)
    (hmodel : ∀ p ∈ parts, p.element = none → modelTypeMultiValue returnType = false) :
    ∃ l, readNames returnType adminOpParams ⟨[], []⟩ = some l ∧
      (∀ x, x ∈ l.memberNameList ↔ x ∈ parts.map NameParts.member) ∧
      (∀ x, x ∈ l.multiValueList ↔ ∃ n, some n ∈ parts.map NameParts.element ∧ (toString n).toList = x) ∧
      l.multiValueList.Nodup := by
  refine ⟨_, readNames_eq (h.taken hmodel) ⟨[], []⟩, fun x => ?_, fun x => ?_, insertAll_nodup List.nodup_nil _⟩
  · rw [mem_insertAll, List.map_map]
    exact or_iff_right List.not_mem_nil
  · rw [mem_insertAll, or_iff_right List.not_mem_nil, List.mem_filterMap]
    constructor
    · rintro ⟨_, hname, hsome⟩
      obtain ⟨p, hp, rfl⟩ := List.mem_map.mp hname
      obtain ⟨n, hn, hx⟩ := Option.map_eq_some_iff.mp hsome
      exact ⟨n, List.mem_map.mpr ⟨p, hp, hn⟩, hx⟩
    · rintro ⟨n, hn, rfl⟩
      obtain ⟨p, hp, helement⟩ := List.mem_map.mp hn
      exact ⟨_, List.mem_map_of_mem hp, by rw [NameParts.readAs, helement]; rfl⟩

end Named

theorem NumberedTo.count {n : Nat} {parts : List NameParts} (h : NumberedTo n parts) (hpos : 0 < n) {l : NameLists}
    (hmulti : ∀ x, x ∈ l.multiValueList ↔ ∃ n, some n ∈ parts.map NameParts.element ∧ (toString n).toList = x)
    (hnodup : l.multiValueList.Nodup) : l.isMultiStructure = true ∧ l.nrOfValues = n := by
  have hperm : l.multiValueList.Perm ((List.range n).map fun i => (toString (i + 1)).toList) := by
    refine (List.perm_ext_iff_of_nodup hnodup ?_).mpr fun x => ?_
    · exact List.nodup_range.map fun i j hij => Nat.succ.inj (toString_injective (String.toList_injective hij))
    · rw [hmulti]
      constructor
      · rintro ⟨i, hi, rfl⟩
        obtain ⟨j, hj, hjn, heq⟩ := (h (some i)).mp hi
        obtain rfl := Option.some.inj heq
        exact List.mem_map.mpr ⟨i - 1, List.mem_range.mpr (by omega), by rw [Nat.sub_add_cancel hj]⟩
      · intro hx
        obtain ⟨i, hi, rfl⟩ := List.mem_map.mp hx
        have hlt := List.mem_range.mp hi
        exact ⟨i + 1, (h _).mpr ⟨i + 1, by omega, by omega, rfl⟩, rfl⟩
  have hlen : l.multiValueList.length = n := by rw [hperm.length_eq, List.length_map, List.length_range]
  have hmultiple : l.isMultiStructure = true := decide_eq_true (List.ne_nil_of_length_pos (hlen.symm ▸ hpos))
  rw [NameLists.nrOfValues, if_pos hmultiple, hlen]
  exact ⟨hmultiple, rfl⟩

theorem single_count {parts : List NameParts} (h : ∀ p ∈ parts, p.element = none) {l : NameLists}
    (hmulti : ∀ x, x ∈ l.multiValueList ↔ ∃ n, some n ∈ parts.map NameParts.element ∧ (toString n).toList = x) :
    l.isMultiStructure = false ∧ l.nrOfValues = 1 := by
  have hsingle : l.isMultiStructure = false := by
    refine decide_eq_false (not_not.mpr (List.eq_nil_iff_forall_not_mem.mpr fun x hx => ?_))
    obtain ⟨n, hn, -⟩ := (hmulti x).mp hx
    obtain ⟨p, hp, helement⟩ := List.mem_map.mp hn
    rw [h p hp] at helement
    cases helement
  exact ⟨hsingle, by rw [NameLists.nrOfValues, hsingle, if_neg Bool.false_ne_true]⟩

theorem multiplicity_of_single {returnType : ParameterType} (h : modelTypeMultiValue returnType = false) :
    returnType.multiplicityMin = 1 ∧ returnType.multiplicityMax = 1 := by
  simpa [modelTypeMultiValue] using h

namespace Described
variable {env : TranslateEnv} {returnType : ParameterType} {adminOpParams : List AdminOperationParams}
  {struct : List Char} {parts : List NameParts}

theorem single_of_none (h : Described env returnType adminOpParams struct parts) (p : NameParts) (hp : p ∈ parts)
    (hnone : p.element = none) : modelTypeMultiValue returnType = false := by
  have helements := h.elements
  unfold ElementsNumbered at helements
  split at helements <;> rename_i hmodel
  · obtain ⟨n, -, -, -, hall⟩ := helements
    obtain ⟨i, -, -, hi⟩ := (hall p.element).mp (List.mem_map_of_mem hp)
    rw [hnone] at hi
    cases hi
  · exact Bool.eq_false_iff.mpr hmodel

theorem taken (h : Described env returnType adminOpParams struct parts) :
    List.Forall₂ (NameTaken returnType) adminOpParams (parts.map (NameParts.readAs struct)) :=
  h.toNamed.taken h.single_of_none

theorem fit (h : Described env returnType adminOpParams struct parts) :
    ∃ l, readNames returnType adminOpParams ⟨[], []⟩ = some l ∧ l.Fit returnType := by
  obtain ⟨l, hread, hmember, hmulti, hnodup⟩ := h.toNamed.lists h.single_of_none
  refine ⟨l, hread, fun name hname hnone => ?_, ?_⟩
  · obtain ⟨p, hp, rfl⟩ := List.mem_map.mp ((hmember name).mp hname)
    obtain ⟨type, htype, -⟩ := h.values p.element (List.mem_map_of_mem hp) p.member (List.mem_map_of_mem hp)
    rw [hnone] at htype
    cases htype
  · have helements := h.elements
    unfold ElementsNumbered at helements
    split at helements <;> rename_i hmodel
    · obtain ⟨n, hpos, hmin, hmax, hall⟩ := helements
      rw [(hall.count hpos hmulti hnodup).2]
      exact ⟨fun _ => hmodel, hmin, hmax⟩
    · obtain ⟨hsingle, hone⟩ := single_count helements hmulti
      obtain ⟨hmin, hmax⟩ := multiplicity_of_single (Bool.eq_false_iff.mpr hmodel)
      rw [hsingle, hone, hmin, hmax]
      exact ⟨fun h => (Bool.false_ne_true h).elim, le_rfl, le_rfl⟩

end Described

end ComSA.Action
