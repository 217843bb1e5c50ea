import ComSA.Motransaction.ActionErrors
import ComSA.Motransaction.ParameterNames

/-!
# Structs as parameters

An array of structs that an action answers becomes one parameter for each value of each member of each
element. It is told here which parameters these are, and how their names are read again.
-/

namespace ComSA.Action

open Naming (find)

/-! ## Values -/

def OfType : Datatype → MoValue → Prop
  | .int8, .number n => asSigned 8 n = n
  | .int16, .number n => asSigned 16 n = n
  | .int32, .number n => asSigned 32 n = n
  | .int64, .number n | .enum, .number n => asSigned 64 n = n
  | .uint8, .number n => asUnsigned 8 n = n
  | .uint16, .number n => asUnsigned 16 n = n
  | .uint32, .number n => asUnsigned 32 n = n
  | .uint64, .number n => asUnsigned 64 n = n
  | .string, .text _ | .reference, .text _ | .bool, .flag _ | .double, .number _ => True
  | _, _ => False

/-- An enum goes through 32 bits, and a reference through the translation of its name into one with room for it. -/
def ComesBack (env : TranslateEnv) : Datatype → MoValue → Prop
  | .enum, .number n => asSigned 32 n = n
  | .reference, .text dn =>
    SaName.HasRoom env.bExtendedNameEnabled (env.MO2Imm_DN dn) ∧ env.Imm2MO_DN (env.MO2Imm_DN dn) = dn
  | _, _ => True

/-- One value or several of the type that the model says. -/
structure Conforms (isMoSpiVersion2 : Bool) (member_p : StructMember) (v : MemberValue) : Prop where
  type : v.type = attrType isMoSpiVersion2 member_p.memberType
  ne_nil : v.values ≠ []
  values : ∀ value ∈ v.values, OfType v.type value

def memberValues (value : ComValue) : List MemberValue := value.structMember :: value.next

def StructConforms (isMoSpiVersion2 : Bool) (members : List StructMember) (value : ComValue) : Prop :=
  List.Forall₂ (Conforms isMoSpiVersion2) members (memberValues value)

/-! ## The parameters of an array -/

structure Slot where
  element : Nat
  member : StructMember
  value : MemberValue

def elementSlots (members : List StructMember) (i : Nat) (value : ComValue) : List Slot :=
  (members.zip (memberValues value)).map fun m => ⟨i, m.1, m.2⟩

def slots (members : List StructMember) (values : List ComValue) : List Slot :=
  values.zipIdx.flatMap fun x => elementSlots members x.2 x.1

namespace Slot

def memberName (struct : List Char) (nrOfValues : Nat) (slot : Slot) : List Char :=
  elementName struct nrOfValues slot.element ++ '_' :: slot.member.name

def valueName (struct : List Char) (nrOfValues : Nat) (slot : Slot) (k : Nat) : List Char :=
  elementName (slot.memberName struct nrOfValues) slot.value.values.length k

def params (env : TranslateEnv) (isMoSpiVersion2 : Bool) (struct : List Char) (nrOfValues : Nat) (slot : Slot) :
    List AdminOperationParams :=
  convertValues env (slot.memberName struct nrOfValues) isMoSpiVersion2 slot.member.memberType slot.value.values

def readAs (struct : List Char) (nrOfValues : Nat) (slot : Slot) : StructParamName :=
  ⟨struct, if 1 < nrOfValues then some (toString (slot.element + 1)).toList else none, slot.member.name⟩

end Slot

section
variable {env : TranslateEnv} {isMoSpiVersion2 : Bool} {members : List StructMember} {struct : List Char}

theorem collect_unchanged {α β ρ : Type*} {step : α → ρ × List β} {xs : List α} {r : ρ} {bs : List β}
    (h : ∀ x ∈ xs, (step x).1 = r) : (collect step xs (r, bs)).1 = r := by
  induction xs generalizing bs with
  | nil => rfl
  | cons x xs ih =>
    rw [collect, List.foldl_cons, h x List.mem_cons_self]
    exact ih fun x' hx' => h x' (List.mem_cons_of_mem x hx')

theorem hasCase_of_ofType {type : Datatype} {value : MoValue} (h : OfType type value) : HasCase type = true := by
  cases type <;> first | rfl | cases value <;> exact h.elim

namespace Conforms
variable {member_p : StructMember} {v : MemberValue}

theorem hasCase (h : Conforms isMoSpiVersion2 member_p v) : HasCase v.type = true := by
  obtain ⟨value, hvalue⟩ := List.exists_mem_of_ne_nil _ h.ne_nil
  exact hasCase_of_ofType (h.values value hvalue)

theorem attrType_hasCase (h : Conforms isMoSpiVersion2 member_p v) :
    HasCase (attrType isMoSpiVersion2 member_p.memberType) = true := h.type ▸ h.hasCase

theorem baseType_eq (h : Conforms isMoSpiVersion2 member_p v) : baseType member_p.memberType = v.type := by
  have hcase := h.attrType_hasCase
  rw [h.type]
  unfold attrType at hcase ⊢
  unfold baseType
  by_cases hderived : member_p.memberType.type = .derived
  · cases isMoSpiVersion2 with
    | false => rw [if_pos hderived, if_pos ⟨hderived, rfl⟩]
    | true => simp [hderived, HasCase] at hcase
  · rw [if_neg hderived, if_neg fun hand => hderived hand.1]

theorem memberTyped (h : Conforms isMoSpiVersion2 member_p v) : MemberTyped member_p v := by
  by_cases hderived : member_p.memberType.type = .derived
  · exact Or.inr hderived
  · refine Or.inl ?_
    rw [← h.baseType_eq, baseType, if_neg hderived]

theorem ne_struct (h : Conforms isMoSpiVersion2 member_p v) : member_p.memberType.type ≠ .struct := by
  intro hstruct
  have hcase := h.attrType_hasCase
  rw [attrType_struct hstruct] at hcase
  cases hcase

end Conforms

theorem handleStructToAdminOpPar_of_conforms {x : List MemberValue}
    (h : List.Forall₂ (Conforms isMoSpiVersion2) members x) (name : List Char) :
    handleStructToAdminOpPar env name isMoSpiVersion2 members x =
      (.ok, (members.zip x).flatMap fun m =>
        convertValues env (name ++ '_' :: m.1.name) isMoSpiVersion2 m.1.memberType m.2.values) := by
  induction h with
  | nil => rfl
  | @cons member_p v members x hv _ ih =>
    have htyped : member_p.memberType.type = v.type ∨ member_p.memberType.type = .derived := hv.memberTyped
    rw [handleStructToAdminOpPar, if_pos htyped, if_neg fun hand => hv.ne_struct hand.1, ih]
    rfl

theorem convertActionReturnToImmParameters_struct {returnType : ParameterType} {values : List ComValue}
    (htype : returnType.type = .struct) (hname : returnType.structName = some struct)
    (hvalues : ∀ value ∈ values, StructConforms isMoSpiVersion2 returnType.members value) :
    convertActionReturnToImmParameters env returnType isMoSpiVersion2 [⟨.struct, values⟩] =
      (.ok, some ((slots returnType.members values).flatMap
        (Slot.params env isMoSpiVersion2 struct values.length))) := by
  have hsane : sanityCheckReturnComParameters returnType .struct isMoSpiVersion2 = true := by
    simp [sanityCheckReturnComParameters, htype]
  have hstep (x : ComValue × Nat) (hx : x ∈ values.zipIdx) :
      handleStructToAdminOpPar env (elementName struct values.length x.2) isMoSpiVersion2 returnType.members
        (x.1.structMember :: x.1.next) = (.ok, (elementSlots returnType.members x.2 x.1).flatMap
          (Slot.params env isMoSpiVersion2 struct values.length)) := by
    have hconf := hvalues x.1 (List.fst_mem_of_mem_zipIdx hx)
    rw [elementSlots, List.flatMap_map]
    exact handleStructToAdminOpPar_of_conforms hconf _
  have hall : convertContainer env struct isMoSpiVersion2 returnType ⟨.struct, values⟩ (.ok, []) =
      (.ok, (slots returnType.members values).flatMap (Slot.params env isMoSpiVersion2 struct values.length)) := by
    rw [convertContainer, if_pos htype]
    refine Prod.ext ?_ ?_
    · exact collect_unchanged fun x hx => by rw [hstep x hx]
    · rw [collect_snd, List.nil_append, slots, List.flatMap_assoc]
      exact List.flatMap_congr fun x hx => by rw [hstep x hx]
  unfold convertActionReturnToImmParameters convertReturn
  rw [if_pos hsane, if_neg (by simp [htype]), if_neg (by simp [hname]), returnName, if_pos htype, hname,
    Option.getD_some, hall]
  rfl

/-! ## The parameters of a member -/

theorem forall₂_filterMap {α β : Type*} {f : α → Option β} {l : List α} (h : ∀ a ∈ l, f a ≠ none) :
    List.Forall₂ (fun a b => f a = some b) l (l.filterMap f) := by
  induction l with
  | nil => exact .nil
  | cons a l ih =>
    obtain ⟨b, hb⟩ := Option.ne_none_iff_exists'.mp (h a List.mem_cons_self)
    rw [List.filterMap_cons_some hb]
    exact .cons hb (ih fun a' ha' => h a' (List.mem_cons_of_mem a ha'))

theorem paramName_of_convert {name : List Char} {type : DatatypeContainer} {value : MoValue}
    {p : AdminOperationParams} (h : convertASingleAdmOpParam env name isMoSpiVersion2 type value = some p) :
    p.paramName = name := by
  unfold convertASingleAdmOpParam at h
  split at h
  all_goals first | cases h; rfl | cases h

theorem convertValue_of_convert {name : List Char} {type : DatatypeContainer} {value : MoValue}
    {p : AdminOperationParams} (h : convertASingleAdmOpParam env name isMoSpiVersion2 type value = some p)
    (hvalue : OfType (attrType isMoSpiVersion2 type) value) (name' : List Char) :
    convertValue env (attrType isMoSpiVersion2 type) { p with paramName := name' } = some value ↔
      ComesBack env (attrType isMoSpiVersion2 type) value := by
  unfold convertASingleAdmOpParam at h
  generalize attrType isMoSpiVersion2 type = t at h hvalue ⊢
  cases t <;> cases value <;> try exact hvalue.elim
  case reference.text dn =>
    cases h
    by_cases hroom : SaName.HasRoom env.bExtendedNameEnabled (env.MO2Imm_DN dn) <;>
      simp [convertValue, ComesBack, asSaName, hroom]
  all_goals
    cases h
    simp_all [convertValue, ComesBack, OfType, asSaInt32]

theorem Slot.params_forall₂ {slot : Slot} (h : Conforms isMoSpiVersion2 slot.member slot.value) (nrOfValues : Nat) :
    List.Forall₂ (fun x p => convertASingleAdmOpParam env (slot.valueName struct nrOfValues x.2) isMoSpiVersion2
      slot.member.memberType x.1 = some p) slot.value.values.zipIdx
        (slot.params env isMoSpiVersion2 struct nrOfValues) :=
  forall₂_filterMap fun x _ => (convertASingleAdmOpParam_ne_none_iff _ _ x.1).mpr h.attrType_hasCase

theorem Slot.length_params {slot : Slot} (h : Conforms isMoSpiVersion2 slot.member slot.value) (nrOfValues : Nat) :
    (slot.params env isMoSpiVersion2 struct nrOfValues).length = slot.value.values.length := by
  rw [← (Slot.params_forall₂ h nrOfValues).length_eq, List.length_zipIdx]

theorem Slot.names_params {slot : Slot} (h : Conforms isMoSpiVersion2 slot.member slot.value) (nrOfValues : Nat) :
    (slot.params env isMoSpiVersion2 struct nrOfValues).map AdminOperationParams.paramName =
      (List.range slot.value.values.length).map (slot.valueName struct nrOfValues) := by
  have hnames : List.Forall₂ (fun x p => slot.valueName struct nrOfValues x.2 = p.paramName)
      slot.value.values.zipIdx (slot.params env isMoSpiVersion2 struct nrOfValues) :=
    (Slot.params_forall₂ h nrOfValues).imp fun x p hp => (paramName_of_convert hp).symm
  have heq := List.forall₂_map_left_iff.mpr (List.forall₂_map_right_iff.mpr hnames)
  rw [List.forall₂_eq_eq_eq] at heq
  have hnumbers := List.zipIdx_map_snd 0 slot.value.values
  rw [← List.range_eq_range'] at hnumbers
  rw [← hnumbers, List.map_map]
  exact heq.symm

theorem Slot.mem_params {slot : Slot} (h : Conforms isMoSpiVersion2 slot.member slot.value) {nrOfValues : Nat}
    {p : AdminOperationParams} (hp : p ∈ slot.params env isMoSpiVersion2 struct nrOfValues) :
    ∃ k < slot.value.values.length, p.paramName = slot.valueName struct nrOfValues k := by
  have hmem := List.mem_map_of_mem (f := AdminOperationParams.paramName) hp
  rw [Slot.names_params h] at hmem
  obtain ⟨k, hk, hname⟩ := List.mem_map.mp hmem
  exact ⟨k, List.mem_range.mp hk, hname.symm⟩

/-! ## Reading the names -/

theorem elementName_of_lt {name : List Char} {nrOfValues : Nat} (h : 1 < nrOfValues) (i : Nat) :
    elementName name nrOfValues i = name ++ '_' :: (toString (i + 1)).toList := if_pos h

theorem elementName_of_le {name : List Char} {nrOfValues : Nat} (h : nrOfValues ≤ 1) (i : Nat) :
    elementName name nrOfValues i = name := if_neg (not_lt.mpr h)

def valueSuffix (n k : Nat) : List Char := if 1 < n then '_' :: (toString (k + 1)).toList else []

theorem elementName_eq (name : List Char) (n k : Nat) : elementName name n k = name ++ valueSuffix n k := by
  unfold elementName valueSuffix
  split
  · rfl
  · exact (List.append_nil _).symm

theorem Slot.valueName_single {slot : Slot} {nrOfValues : Nat} (h : nrOfValues ≤ 1) (k : Nat) :
    slot.valueName struct nrOfValues k =
      struct ++ '_' :: (slot.member.name ++ valueSuffix slot.value.values.length k) := by
  rw [valueName, memberName, elementName_of_le h, elementName_eq, List.append_assoc, List.cons_append]

theorem Slot.valueName_multi {slot : Slot} {nrOfValues : Nat} (h : 1 < nrOfValues) (k : Nat) :
    slot.valueName struct nrOfValues k = struct ++ '_' :: ((toString (slot.element + 1)).toList ++
      '_' :: (slot.member.name ++ valueSuffix slot.value.values.length k)) := by
  rw [valueName, memberName, elementName_of_lt h, elementName_eq]
  simp

theorem split_suffix {member : List Char} (h : '_' ∉ member) (n k : Nat) :
    split (member ++ valueSuffix n k) = if 1 < n then some (member, (toString (k + 1)).toList) else none := by
  unfold valueSuffix
  split
  · exact split_append h
  · rw [List.append_nil]
    exact split_of_notMem h

theorem Slot.readName_digits {slot : Slot} {nrOfValues : Nat} (hstruct : '_' ∉ struct)
    (hmember : '_' ∉ slot.member.name) (hsingle : nrOfValues ≤ 1) (hmulti : 1 < slot.value.values.length)
    (hdigits : slot.member.name.all Char.isDigit = true) (k : Nat) :
    readName (slot.valueName struct nrOfValues k) =
      some ⟨struct, some slot.member.name, (toString (k + 1)).toList⟩ := by
  rw [valueName_single hsingle, readName, split_append hstruct]
  dsimp only
  rw [split_suffix hmember, if_pos hmulti]
  dsimp only
  rw [if_pos hdigits, split_of_notMem (underscore_notMem_toString _)]

theorem Slot.readName_valueName {slot : Slot} {nrOfValues : Nat} (hstruct : '_' ∉ struct)
    (hmember : '_' ∉ slot.member.name)
    (hdigits : nrOfValues ≤ 1 → 1 < slot.value.values.length → slot.member.name.all Char.isDigit = false)
    (k : Nat) :
    readName (slot.valueName struct nrOfValues k) = some (slot.readAs struct nrOfValues) := by
  have hsplit := split_suffix hmember slot.value.values.length k
  rcases Nat.lt_or_ge 1 nrOfValues with harray | hsingle
  · rw [valueName_multi harray, readName, split_append hstruct]
    dsimp only
    rw [split_append (underscore_notMem_toString _)]
    dsimp only
    rw [if_pos (all_isDigit_toString _), hsplit, readAs, if_pos harray]
    by_cases hmulti : 1 < slot.value.values.length
    · rw [if_pos hmulti]
    · rw [if_neg hmulti, valueSuffix, if_neg hmulti, List.append_nil]
  · rw [valueName_single hsingle, readName, split_append hstruct]
    dsimp only
    rw [hsplit, readAs, if_neg (not_lt.mpr hsingle)]
    by_cases hmulti : 1 < slot.value.values.length
    · rw [if_pos hmulti]
      dsimp only
      rw [hdigits hsingle hmulti, if_neg Bool.false_ne_true]
    · rw [if_neg hmulti, valueSuffix, if_neg hmulti, List.append_nil]

theorem readName_parts {paramName : List Char} {name : StructParamName} (h : readName paramName = some name) :
    '_' ∉ name.struct ∧ '_' ∉ name.member ∧ ∃ rest, split paramName = some (name.struct, rest) := by
  have hleft {s a b : List Char} (hs : split s = some (a, b)) : '_' ∉ a := by
    unfold split at hs
    split at hs
    · cases hs
      exact fun hmem => by simpa using List.mem_takeWhile_imp hmem
    · cases hs
  have hwhole {s : List Char} (hs : split s = none) : '_' ∉ s := by
    unfold split at hs
    split at hs <;> rename_i hmem
    · cases hs
    · exact hmem
  unfold readName at h
  split at h
  · cases h
  · rename_i s rest hsplit
    have hs := hleft hsplit
    split at h
    · rename_i hrest
      cases h
      exact ⟨hs, hwhole hrest, rest, hsplit⟩
    · rename_i tmpStr rest' hrest
      split at h
      · split at h
        · rename_i member _ hmember
          cases h
          exact ⟨hs, hleft hmember, rest, hsplit⟩
        · rename_i hmember
          cases h
          exact ⟨hs, hwhole hmember, rest, hsplit⟩
      · cases h
        exact ⟨hs, hleft hrest, rest, hsplit⟩

end

/-! ## The lists of names -/

theorem insertAll_of_subset {l names : List (List Char)} (h : ∀ x ∈ names, x ∈ l) : insertAll l names = l := by
  induction names with
  | nil => rfl
  | cons name names ih =>
    have hname : insert_nameList l name = l := if_pos (h name List.mem_cons_self)
    rw [insertAll, List.foldl_cons, hname]
    exact ih fun x hx => h x (List.mem_cons_of_mem name hx)

theorem insertAll_of_nodup {l names : List (List Char)} (h : (l ++ names).Nodup) :
    insertAll l names = l ++ names := by
  induction names generalizing l with
  | nil => exact (List.append_nil l).symm
  | cons name names ih =>
    rw [List.append_cons] at h ⊢
    have hname : insert_nameList l name = l ++ [name] := by
      refine if_neg fun hmem => ?_
      have hnodup := (List.nodup_append.mp (List.nodup_append.mp h).1).2.2
      exact hnodup name hmem name (List.mem_singleton_self name) rfl
    rw [insertAll, List.foldl_cons, hname]
    exact ih h

theorem insertAll_flatMap_replicate {α : Type*} (n : α → Nat) (f : α → List Char) {xs : List α}
    (h : ∀ x ∈ xs, 0 < n x) (l : List (List Char)) :
    insertAll l (xs.flatMap fun x => List.replicate (n x) (f x)) = insertAll l (xs.map f) := by
  induction xs generalizing l with
  | nil => rfl
  | cons x xs ih =>
    obtain ⟨k, hk⟩ := Nat.exists_eq_add_one_of_ne_zero (h x List.mem_cons_self).ne'
    have hsub : ∀ y ∈ List.replicate k (f x), y ∈ insert_nameList l (f x) := fun y hy =>
      mem_insert_nameList.mpr (Or.inr (List.eq_of_mem_replicate hy))
    have hhead : insertAll l (List.replicate (n x) (f x)) = insert_nameList l (f x) := by
      rw [hk, List.replicate_succ]
      exact insertAll_of_subset hsub
    rw [List.flatMap_cons, insertAll_append, hhead, ih fun x' hx' => h x' (List.mem_cons_of_mem x hx')]
    rfl

end ComSA.Action
