import ComSA.Lib.Cut
import ComSA.Lib.Decimal
import ComSA.Lib.Related
import ComSA.Lib.SortedMap
import ComSA.Motransaction.ActionParameters
import ComSA.Motransaction.NamingRule
import Mathlib.Data.List.Lex
import Mathlib.Data.List.Perm.Subperm

/-!
# Results of actions

What an administrative operation in IMM answers is a list of parameters. For a simple type it is one value
or several with numbers in their names. For a struct the names tell the element and the member, and the
values of each member are found by a search for the member in all names.
-/

namespace ComSA.Action

open Naming (find)
open SortedMap (put)

variable (env : TranslateEnv)

/-! ## Names -/

def split (name : List Char) : Option (List Char × List Char) :=
  if '_' ∈ name then some (name.takeWhile (· ≠ '_'), (name.dropWhile (· ≠ '_')).tail) else none

/-- The name of a struct parameter: the struct, the number of the element, and the member. -/
structure StructParamName where
  struct : List Char
  element : Option (List Char)
  member : List Char
  deriving DecidableEq, Repr

def readName (paramName : List Char) : Option StructParamName :=
  match split paramName with
  | none => none
  | some (struct, rest) =>
    match split rest with
    | none => some ⟨struct, none, rest⟩
    | some (tmpStr, rest) =>
      if tmpStr.all Char.isDigit then
        match split rest with
        | some (member, _) => some ⟨struct, some tmpStr, member⟩
        | none => some ⟨struct, some tmpStr, rest⟩
      else some ⟨struct, none, tmpStr⟩

/-! ## Simple types -/

structure MoResult where
  type : Datatype
  values : List MoValue
  deriving DecidableEq, Repr

/-- The first parameter with a number; every name before it has to have one. -/
def findNumbered (number : List Char) : List AdminOperationParams → Option AdminOperationParams
  | [] => none
  | p :: adminOpParams =>
    match split p.paramName with
    | none => none
    | some (_, rest) => if rest = number then some p else findNumbered number adminOpParams

def reorder (adminOpParams : List AdminOperationParams) : Option (List AdminOperationParams) :=
  (List.range adminOpParams.length).mapM fun i => findNumbered (toString (i + 1)).toList adminOpParams

def convertValue (type : Datatype) (p : AdminOperationParams) : Option MoValue :=
  match type, p.paramType, p.paramBuffer with
  | .int8, .saInt32, .number n => some (.number (asSigned 8 n))
  | .int16, .saInt32, .number n => some (.number (asSigned 16 n))
  | .int32, .saInt32, v => some v
  | .int64, .saInt64, v => some v
  | .uint8, .saUint32, .number n => some (.number (asUnsigned 8 n))
  | .uint16, .saUint32, .number n => some (.number (asUnsigned 16 n))
  | .uint32, .saUint32, v => some v
  | .uint64, .saUint64, v => some v
  | .enum, .saInt32, v => some v
  | .string, .saString, v => some v
  | .bool, .saInt32, .number n => some (.flag (n ≠ 0))
  | .reference, .saName, .text dn => some (.text (env.Imm2MO_DN dn))
  | .double, .saFloat, .number n => some (.number (env.floatToDouble n))
  | .double, .saDouble, v => some v
  | _, _, _ => none

def baseType (returnType : DatatypeContainer) : Datatype :=
  if returnType.type = .derived then returnType.derivedDatatype else returnType.type

def convertSimpleToMoAttribute (returnType : Option DatatypeContainer)
    (theAdminOpParams : List AdminOperationParams) :
    MafReturn × Option MoResult :=
  match returnType with
  | none => (.invalidArgument, none)
  | some returnType =>
    let nrOfValues := theAdminOpParams.length
    if (nrOfValues : Int) < returnType.multiplicityMin ∨ returnType.multiplicityMax < (nrOfValues : Int) then
      (.invalidArgument, none)
    else
      match if 1 < nrOfValues then reorder theAdminOpParams else some theAdminOpParams with
      | none => (.invalidArgument, none)
      | some tempParam =>
        match baseType returnType with
        | .derived | .struct | .unknown _ => (.invalidArgument, none)
        | .void => (.ok, some ⟨.bool, []⟩)
        | type =>
          -- without a value an enum goes as a number
          if nrOfValues = 0 then (.ok, some ⟨if type = .enum then .int32 else type, []⟩)
          else
            match tempParam.mapM (convertValue env type) with
            | some values => (.ok, some ⟨type, values⟩)
            | none => (.invalidArgument, none)

/-! ## The names of a struct -/

def insert_nameList (nameList : List (List Char)) (paramNameStr : List Char) : List (List Char) :=
  if paramNameStr ∈ nameList then nameList else nameList ++ [paramNameStr]

structure NameLists where
  memberNameList : List (List Char)
  multiValueList : List (List Char)
  deriving DecidableEq, Repr

def NameLists.isMultiStructure (l : NameLists) : Bool := l.multiValueList ≠ []

def NameLists.nrOfValues (l : NameLists) : Nat := if l.isMultiStructure then l.multiValueList.length else 1

def modelTypeMultiValue (returnType : ParameterType) : Bool :=
  ¬ (returnType.multiplicityMin = 1 ∧ returnType.multiplicityMax = 1)

/-- A name without an element needs a model with one struct only. -/
def readNames (returnType : ParameterType) : List AdminOperationParams → NameLists → Option NameLists
  | [], l => some l
  | p :: adminOpParams, l =>
    match readName p.paramName with
    | none => none
    | some name =>
      if returnType.structName ≠ some name.struct then none
      else
        match name.element with
        | some number => readNames returnType adminOpParams
            ⟨insert_nameList l.memberNameList name.member, insert_nameList l.multiValueList number⟩
        | none =>
          if modelTypeMultiValue returnType then none
          else readNames returnType adminOpParams ⟨insert_nameList l.memberNameList name.member, l.multiValueList⟩

/-- The last member of the model with a name. -/
def memberTypeOf (members : List StructMember) (name : List Char) : Option DatatypeContainer :=
  ((members.filter fun m => m.name = name).getLast?).map StructMember.memberType

/-! ## The values of the members -/

def substrAfter (s : List Char) : List Char :=
  match split s with
  | some (_, rest) => rest
  | none => s

/-- Where a name is found in another one, what comes before is cut off. -/
def cutName (name paramName : List Char) : List Char :=
  match find name paramName with
  | none => paramName
  | some found =>
    if '_' ∈ name then substrAfter (substrAfter (paramName.drop found)) else paramName.drop found

/-- The places of the parameters in whose names another name is found, and all parameters with their
names cut there. -/
def create_tempParam (name : List Char) (adminOpParams : List AdminOperationParams) :
    List Nat × List AdminOperationParams :=
  ((adminOpParams.zipIdx.filter fun p => (find name p.1.paramName).isSome).map Prod.snd,
    adminOpParams.map fun p => { p with paramName := cutName name p.paramName })

def searchName (isMultiStructure : Bool) (i : Nat) (member : List Char) : List Char :=
  if isMultiStructure then '_' :: (toString (i + 1)).toList ++ '_' :: member else member

abbrev StructMemberMap := List (List Char × List Nat)

def createMap (isMultiStructure : Bool) (i : Nat) (memberNameList : List (List Char))
    (s : StructMemberMap × List AdminOperationParams) : StructMemberMap × List AdminOperationParams :=
  memberNameList.foldl (fun s member =>
    let t := create_tempParam (searchName isMultiStructure i member) s.2
    (put member t.1 s.1, t.2)) s

def createMaps (isMultiStructure : Bool) (nrOfValues : Nat) (memberNameList : List (List Char))
    (adminOpParams : List AdminOperationParams) : List StructMemberMap × List AdminOperationParams :=
  (List.range nrOfValues).foldl (fun s i =>
    let t := createMap isMultiStructure i memberNameList ([], s.2)
    (s.1 ++ [t.1], t.2)) ([], adminOpParams)

abbrev StructResult := List (List Char × Option MoResult)

def create_structMember (members : List StructMember) (adminOpParams : List AdminOperationParams)
    (structMemberMap : StructMemberMap) (RetVal : MafReturn) : MafReturn × StructResult :=
  collect (fun e =>
    let r := convertSimpleToMoAttribute env (memberTypeOf members e.1) (e.2.filterMap (adminOpParams[·]?))
    (r.1, [(e.1, r.2)])) structMemberMap (RetVal, [])

def handleStructToMoAttribute (returnType : ParameterType) (theAdminOpParams : List AdminOperationParams) :
    MafReturn × Option (List StructResult) :=
  match readNames returnType theAdminOpParams ⟨[], []⟩ with
  | none => (.invalidArgument, none)
  | some l =>
    if l.memberNameList.any fun name => (memberTypeOf returnType.members name).isNone then (.invalidArgument, none)
    else if l.isMultiStructure && !modelTypeMultiValue returnType then (.invalidArgument, none)
    else if (l.nrOfValues : Int) < returnType.multiplicityMin ∨ returnType.multiplicityMax <
      (l.nrOfValues : Int) then
      (.invalidArgument, none)
    else
      let t := createMaps l.isMultiStructure l.nrOfValues l.memberNameList theAdminOpParams
      let r := t.1.foldl (fun s structMemberMap =>
        let r := create_structMember env returnType.members t.2 structMemberMap s.1
        (r.1, s.2 ++ [r.2])) (MafReturn.ok, [])
      (r.1, some r.2)

/-! ## What is found -/

def cutBy (names : List (List Char)) (paramName : List Char) : List Char :=
  names.foldl (fun paramName name => cutName name paramName) paramName

def rename (f : List Char → List Char) (adminOpParams : List AdminOperationParams) : List AdminOperationParams :=
  adminOpParams.map fun p => { p with paramName := f p.paramName }

def searches (isMultiStructure : Bool) (nrOfValues : Nat) (memberNameList : List (List Char)) : List (List Char) :=
  (List.range nrOfValues).flatMap fun i => memberNameList.map (searchName isMultiStructure i)

def searchesBefore (isMultiStructure : Bool) (memberNameList : List (List Char)) (i : Nat) (member : List Char) :
    List (List Char) :=
  searches isMultiStructure i memberNameList ++
    (memberNameList.takeWhile (· ≠ member)).map (searchName isMultiStructure i)

def found (isMultiStructure : Bool) (nrOfValues : Nat) (memberNameList : List (List Char))
    (adminOpParams : List AdminOperationParams) (i : Nat) (member : List Char) : List AdminOperationParams :=
  rename (cutBy (searches isMultiStructure nrOfValues memberNameList)) (adminOpParams.filter fun p =>
    (find (searchName isMultiStructure i member)
      (cutBy (searchesBefore isMultiStructure memberNameList i member) p.paramName)).isSome)

section
variable {env : TranslateEnv}

theorem rename_rename (f g : List Char → List Char) (adminOpParams : List AdminOperationParams) :
    rename f (rename g adminOpParams) = rename (f ∘ g) adminOpParams := by
  simp [rename]

theorem cutBy_append (names names' : List (List Char)) :
    cutBy (names ++ names') = cutBy names' ∘ cutBy names := by
  funext paramName
  exact List.foldl_append

theorem rename_id (adminOpParams : List AdminOperationParams) : rename (cutBy []) adminOpParams = adminOpParams :=
  List.map_id _

theorem filterMap_places {α β : Type*} (q : α → Bool) (h : α → β) (before : List β) (xs : List α) :
    (((xs.zipIdx before.length).filter fun p => q p.1).map Prod.snd).filterMap ((before ++ xs.map h)[·]?) =
      (xs.filter q).map h := by
  induction xs generalizing before with
  | nil => rfl
  | cons x xs ih =>
    have hrest := ih (before ++ [h x])
    rw [List.length_append, List.length_singleton, List.append_assoc, List.singleton_append] at hrest
    rw [List.zipIdx_cons, List.filter_cons, List.filter_cons, List.map_cons]
    split
    · rw [List.map_cons, List.map_cons, List.filterMap_cons_some (b := h x) (by simp), hrest]
    · exact hrest

theorem values_of_places (name : List Char) (f g : List Char → List Char)
    (adminOpParams : List AdminOperationParams) :
    (create_tempParam name (rename f adminOpParams)).1.filterMap ((rename g adminOpParams)[·]?) =
      rename g (adminOpParams.filter fun p => (find name (f p.paramName)).isSome) := by
  have hplaces : (create_tempParam name (rename f adminOpParams)).1 =
      ((adminOpParams.zipIdx.filter fun p => (find name (f p.1.paramName)).isSome).map Prod.snd) := by
    rw [create_tempParam, rename, List.zipIdx_map, List.filter_map, List.map_map]
    rfl
  rw [hplaces]
  exact filterMap_places (fun p => (find name (f p.paramName)).isSome) _ [] adminOpParams

def memberPlaces (isMultiStructure : Bool) (memberNameList : List (List Char))
    (adminOpParams : List AdminOperationParams) (i : Nat) (member : List Char) : List Char × List Nat :=
  (member, (create_tempParam (searchName isMultiStructure i member)
    (rename (cutBy (searchesBefore isMultiStructure memberNameList i member)) adminOpParams)).1)

theorem createMap_invariant (isMultiStructure : Bool) (adminOpParams : List AdminOperationParams) (i : Nat)
    {before after : List (List Char)} (hnodup : (before ++ after).Nodup)
    {s : StructMemberMap × List AdminOperationParams} (hsorted : SortedMap.Sorted s.1)
    (hperm : s.1.Perm (before.map (memberPlaces isMultiStructure (before ++ after) adminOpParams i)))
    (hparams : s.2 = rename (cutBy (searches isMultiStructure i (before ++ after) ++
      before.map (searchName isMultiStructure i))) adminOpParams) :
    SortedMap.Sorted (createMap isMultiStructure i after s).1 ∧
      (createMap isMultiStructure i after s).1.Perm
        ((before ++ after).map (memberPlaces isMultiStructure (before ++ after) adminOpParams i)) ∧
      (createMap isMultiStructure i after s).2 = rename (cutBy (searches isMultiStructure i (before ++ after) ++
        (before ++ after).map (searchName isMultiStructure i))) adminOpParams := by
  induction after generalizing before s with
  | nil =>
    rw [List.append_nil] at hperm hparams ⊢
    exact ⟨hsorted, hperm, hparams⟩
  | cons member after ih =>
    rw [List.append_cons] at hnodup hperm hparams ⊢
    have hnew : member ∉ before := by
      rw [List.append_assoc, List.singleton_append] at hnodup
      exact fun h => (List.nodup_append.mp hnodup).2.2 member h member List.mem_cons_self rfl
    have hbefore : (before ++ [member] ++ after).takeWhile (· ≠ member) = before := by
      rw [List.append_assoc, List.singleton_append]
      exact (cut_first hnew).1
    have hplaces : memberPlaces isMultiStructure (before ++ [member] ++ after) adminOpParams i member =
        (member, (create_tempParam (searchName isMultiStructure i member) s.2).1) := by
      rw [memberPlaces, searchesBefore, hbefore, hparams]
    have hnone : member ∉ s.1.map Prod.fst := by
      intro hmem
      obtain ⟨e, he, heq⟩ := List.mem_map.mp hmem
      obtain ⟨member', hmem', rfl⟩ := List.mem_map.mp (hperm.mem_iff.mp he)
      exact hnew (heq ▸ hmem')
    refine @ih (before ++ [member]) hnodup _ (SortedMap.sorted_put hsorted _ _) ?_ ?_
    · rw [List.map_append, List.map_singleton, hplaces]
      exact (SortedMap.put_perm_of_notMem hnone _).trans
        ((hperm.cons _).trans (List.perm_append_singleton _ _).symm)
    · rw [List.map_append, List.map_singleton, ← List.append_assoc, cutBy_append, ← rename_rename, ← hparams]
      rfl

theorem createMap_spec (isMultiStructure : Bool) (adminOpParams : List AdminOperationParams) (i : Nat)
    {memberNameList : List (List Char)} (hnodup : memberNameList.Nodup) :
    let t := createMap isMultiStructure i memberNameList
      ([], rename (cutBy (searches isMultiStructure i memberNameList)) adminOpParams)
    SortedMap.Sorted t.1 ∧
      t.1.Perm (memberNameList.map (memberPlaces isMultiStructure memberNameList adminOpParams i)) ∧
      t.2 = rename (cutBy (searches isMultiStructure (i + 1) memberNameList)) adminOpParams := by
  have hstart := @createMap_invariant isMultiStructure adminOpParams i [] memberNameList hnodup
    ([], rename (cutBy (searches isMultiStructure i memberNameList)) adminOpParams) List.Pairwise.nil
    (List.Perm.refl _) (by rw [List.map_nil, List.append_nil, List.nil_append])
  rw [List.nil_append] at hstart
  have hnext : searches isMultiStructure (i + 1) memberNameList =
      searches isMultiStructure i memberNameList ++ memberNameList.map (searchName isMultiStructure i) := by
    simp [searches, List.range_succ]
  rw [hnext]
  exact hstart

theorem createMaps_spec (isMultiStructure : Bool) (nrOfValues : Nat) (adminOpParams : List AdminOperationParams)
    {memberNameList : List (List Char)} (hnodup : memberNameList.Nodup) :
    createMaps isMultiStructure nrOfValues memberNameList adminOpParams =
      ((List.range nrOfValues).map fun i => (createMap isMultiStructure i memberNameList
        ([], rename (cutBy (searches isMultiStructure i memberNameList)) adminOpParams)).1,
      rename (cutBy (searches isMultiStructure nrOfValues memberNameList)) adminOpParams) := by
  unfold createMaps
  induction nrOfValues with
  | zero => exact congrArg _ (rename_id adminOpParams).symm
  | succ n ih =>
    rw [List.range_succ, List.foldl_append, ih, List.foldl_cons, List.foldl_nil, List.map_append,
      List.map_singleton]
    exact congrArg _ (createMap_spec isMultiStructure adminOpParams n hnodup).2.2

/-! ## The code -/

def numberOf (p : AdminOperationParams) : Option (List Char) := (split p.paramName).map Prod.snd

def numbers (n : Nat) : List (Option (List Char)) := (List.range n).map fun i => some (toString (i + 1)).toList

def Numbered (adminOpParams : List AdminOperationParams) : Prop :=
  (adminOpParams.map numberOf).Perm (numbers adminOpParams.length)

theorem numbers_nodup (n : Nat) : (numbers n).Nodup := by
  refine List.Nodup.map (fun i j h => ?_) List.nodup_range
  exact Nat.succ.inj (toString_injective (String.toList_injective (Option.some.inj h)))

theorem findNumbered_some {number : List Char} {adminOpParams : List AdminOperationParams}
    {p : AdminOperationParams}
    (h : findNumbered number adminOpParams = some p) : p ∈ adminOpParams ∧ numberOf p = some number := by
  induction adminOpParams with
  | nil => cases h
  | cons q adminOpParams ih =>
    rw [findNumbered] at h
    split at h
    · cases h
    · rename_i struct rest hsplit
      split at h <;> rename_i hrest
      · obtain rfl := Option.some.inj h
        exact ⟨List.mem_cons_self, by rw [numberOf, hsplit, Option.map_some, hrest]⟩
      · exact (ih h).imp_left (List.mem_cons_of_mem _)

theorem findNumbered_ne_none {number : List Char} {adminOpParams : List AdminOperationParams}
    (hall : ∀ p ∈ adminOpParams, numberOf p ≠ none) (h : some number ∈ adminOpParams.map numberOf) :
    findNumbered number adminOpParams ≠ none := by
  induction adminOpParams with
  | nil => cases h
  | cons q adminOpParams ih =>
    obtain ⟨hq, hall⟩ := List.forall_mem_cons.mp hall
    rw [findNumbered]
    split
    · rename_i hsplit
      exact absurd (by rw [numberOf, hsplit, Option.map_none]) hq
    · rename_i struct rest hsplit
      split <;> rename_i hrest
      · nofun
      · refine ih hall ((List.mem_cons.mp h).resolve_left fun heq => hrest ?_)
        rw [numberOf, hsplit, Option.map_some, Option.some_inj] at heq
        exact heq.symm

theorem reorder_spec {adminOpParams tempParam : List AdminOperationParams}
    (h : reorder adminOpParams = some tempParam) :
    Numbered adminOpParams ∧ tempParam.Perm adminOpParams := by
  have hfound := forall₂_of_mapM h
  have hlen : tempParam.length = adminOpParams.length := by
    rw [← hfound.length_eq, List.length_range]
  have hmap : numbers adminOpParams.length = tempParam.map numberOf := by
    have hnumbers := List.forall₂_map_right_iff.mpr (List.forall₂_map_left_iff.mpr
      (hfound.imp fun i p hp => (findNumbered_some hp).2.symm))
    rwa [List.forall₂_eq_eq_eq] at hnumbers
  have hsub : tempParam ⊆ adminOpParams := by
    intro p hp
    obtain ⟨i, -, hi⟩ := exists_of_mem_right hfound hp
    exact (findNumbered_some hi).1
  have hnodup : (tempParam.map numberOf).Nodup := hmap ▸ numbers_nodup _
  have hperm : tempParam.Perm adminOpParams :=
    (List.subperm_of_subset hnodup.of_map hsub).perm_of_length_le hlen.ge
  refine ⟨?_, hperm⟩
  rw [Numbered, hmap]
  exact (hperm.map numberOf).symm

theorem reorder_ne_none_iff {adminOpParams : List AdminOperationParams} :
    reorder adminOpParams ≠ none ↔ Numbered adminOpParams := by
  constructor
  · intro h
    obtain ⟨tempParam, htemp⟩ := Option.ne_none_iff_exists'.mp h
    exact (reorder_spec htemp).1
  · intro h
    refine mapM_ne_none_iff.mpr fun i hi => findNumbered_ne_none (fun p hp hnone => ?_) ?_
    · have hmem := h.mem_iff.mp (List.mem_map_of_mem hp)
      rw [hnone] at hmem
      obtain ⟨j, -, hj⟩ := List.mem_map.mp hmem
      cases hj
    · exact h.mem_iff.mpr (List.mem_map_of_mem hi)

variable (env) in
/-- Values are as many as the model allows, numbered if there are several, and each of its type. -/
def ValuesFit (returnType : Option DatatypeContainer) (adminOpParams : List AdminOperationParams) : Prop :=
  ∃ type ∈ returnType,
    (type.multiplicityMin ≤ adminOpParams.length ∧ (adminOpParams.length : Int) ≤ type.multiplicityMax) ∧
    (1 < adminOpParams.length → Numbered adminOpParams) ∧
    (baseType type = .void ∨ HasCase (baseType type) = true ∧ ∀ p ∈ adminOpParams, convertValue env
      (baseType type) p ≠ none)

theorem convertSimpleToMoAttribute_ok_iff {returnType : Option DatatypeContainer}
    {adminOpParams : List AdminOperationParams} :
    (convertSimpleToMoAttribute env returnType adminOpParams).1 = .ok ↔ ValuesFit env returnType adminOpParams := by
  unfold convertSimpleToMoAttribute ValuesFit
  cases returnType with
  | none => simp
  | some type =>
    simp only [Option.mem_some_iff, exists_eq_left']
    by_cases hrange : (adminOpParams.length : Int) < type.multiplicityMin ∨
        type.multiplicityMax < (adminOpParams.length : Int)
    · rw [if_pos hrange]
      exact iff_of_false nofun fun h => hrange.elim (not_lt.mpr h.1.1) (not_lt.mpr h.1.2)
    · rw [if_neg hrange, and_iff_right ⟨not_lt.mp (not_or.mp hrange).1, not_lt.mp (not_or.mp hrange).2⟩]
      cases htemp : if 1 < adminOpParams.length then reorder adminOpParams else some adminOpParams with
      | none =>
        refine iff_of_false nofun fun h => ?_
        split at htemp <;> rename_i hlen
        · exact reorder_ne_none_iff.mpr (h.1 hlen) htemp
        · cases htemp
      | some tempParam =>
        have hperm : (1 < adminOpParams.length → Numbered adminOpParams) ∧ tempParam.Perm adminOpParams := by
          split at htemp <;> rename_i hlen
          · exact ⟨fun _ => (reorder_spec htemp).1, (reorder_spec htemp).2⟩
          · obtain rfl := Option.some.inj htemp
            exact ⟨fun h => absurd h hlen, List.Perm.refl _⟩
        have hvalues (t t' : Datatype) :
          ((if adminOpParams.length = 0 then (MafReturn.ok, some (⟨t', []⟩ : MoResult))
            else
              match tempParam.mapM (convertValue env t) with
              | some values => (.ok, some ⟨t, values⟩)
              | none => (.invalidArgument, none)).1 = .ok) ↔ ∀ p ∈ adminOpParams, convertValue env t p ≠ none := by
          rw [show (∀ p ∈ adminOpParams, convertValue env t p ≠ none) ↔ tempParam.mapM (convertValue env t) ≠
            none by
            simp only [mapM_ne_none_iff, hperm.2.mem_iff]]
          split <;> rename_i hlen
          · have hnil : tempParam = [] := List.length_eq_zero_iff.mp (hperm.2.length_eq.trans hlen)
            simp [hnil]
          · cases tempParam.mapM (convertValue env t) <;> simp
        rw [and_iff_right hperm.1]
        dsimp only
        cases baseType type
        case void => simp
        case derived | struct | unknown => simp [HasCase]
        all_goals simpa [HasCase] using hvalues _ _

theorem convertSimpleToMoAttribute_snd (returnType : Option DatatypeContainer)
    (adminOpParams : List AdminOperationParams) :
    (convertSimpleToMoAttribute env returnType adminOpParams).2 ≠ none ↔
      (convertSimpleToMoAttribute env returnType adminOpParams).1 = .ok := by
  unfold convertSimpleToMoAttribute
  split
  · simp
  · dsimp only
    split
    · simp
    · split
      · simp
      · split
        any_goals simp
        split
        · simp
        · split <;> simp

variable (env) in
def convertMember (members : List StructMember) (adminOpParams : List AdminOperationParams)
    (e : List Char × List Nat) : MafReturn × Option MoResult :=
  convertSimpleToMoAttribute env (memberTypeOf members e.1) (e.2.filterMap (adminOpParams[·]?))

variable (env) in
def convertFound (members : List StructMember) (isMultiStructure : Bool) (nrOfValues : Nat)
    (memberNameList : List (List Char)) (adminOpParams : List AdminOperationParams) (i : Nat) (member : List Char) :
    MafReturn × Option MoResult :=
  convertSimpleToMoAttribute env (memberTypeOf members member)
    (found isMultiStructure nrOfValues memberNameList adminOpParams i member)

theorem convertMember_places (members : List StructMember) (isMultiStructure : Bool) (nrOfValues : Nat)
    (memberNameList : List (List Char)) (adminOpParams : List AdminOperationParams) (i : Nat) (member : List Char) :
    convertMember env members (rename (cutBy (searches isMultiStructure nrOfValues memberNameList)) adminOpParams)
        (memberPlaces isMultiStructure memberNameList adminOpParams i member) =
      convertFound env members isMultiStructure nrOfValues memberNameList adminOpParams i member := by
  unfold convertMember convertFound memberPlaces found
  dsimp only
  rw [values_of_places]

theorem create_structMember_eq (members : List StructMember) (adminOpParams : List AdminOperationParams)
    (structMemberMap : StructMemberMap) (RetVal : MafReturn) :
    create_structMember env members adminOpParams structMemberMap RetVal =
      ((structMemberMap.map fun e => (convertMember env members adminOpParams e).1).getLastD RetVal,
        structMemberMap.map fun e => (e.1, (convertMember env members adminOpParams e).2)) := by
  unfold create_structMember
  refine Prod.ext (collect_fst _ _ _) ((collect_snd _ _ _).trans ?_)
  rw [List.nil_append]
  change _ = structMemberMap.map fun e => (e.1, (convertMember env members adminOpParams e).2)
  rw [List.map_eq_flatMap]
  rfl

theorem foldl_create_structMember (members : List StructMember) (adminOpParams : List AdminOperationParams)
    (maps : List StructMemberMap) (s : MafReturn × List StructResult) :
    maps.foldl (fun s structMemberMap =>
        let r := create_structMember env members adminOpParams structMemberMap s.1
        (r.1, s.2 ++ [r.2])) s =
      ((maps.flatMap fun map => map.map fun e => (convertMember env members adminOpParams e).1).getLastD s.1,
        s.2 ++ maps.map fun map => map.map fun e => (e.1, (convertMember env members adminOpParams e).2)) := by
  induction maps generalizing s with
  | nil => exact Prod.ext rfl (List.append_nil _).symm
  | cons map maps ih =>
    rw [List.foldl_cons, ih, create_structMember_eq, List.flatMap_cons, getLastD_append, List.map_cons,
      List.append_assoc, List.singleton_append]

/-! ## A whole struct -/

def NameLists.Fit (returnType : ParameterType) (l : NameLists) : Prop :=
  (∀ name ∈ l.memberNameList, memberTypeOf returnType.members name ≠ none) ∧
    (l.isMultiStructure = true → modelTypeMultiValue returnType = true) ∧
    returnType.multiplicityMin ≤ l.nrOfValues ∧ (l.nrOfValues : Int) ≤ returnType.multiplicityMax

theorem insert_nameList_nodup {nameList : List (List Char)} (h : nameList.Nodup) (name : List Char) :
    (insert_nameList nameList name).Nodup := by
  unfold insert_nameList
  split <;> rename_i hmem
  · exact h
  · exact List.nodup_append.mpr ⟨h, List.nodup_singleton _, fun a ha b hb heq =>
      hmem ((List.mem_singleton.mp hb) ▸ heq ▸ ha)⟩

theorem readNames_nodup {returnType : ParameterType} {adminOpParams : List AdminOperationParams} {l l' : NameLists}
    (h : readNames returnType adminOpParams l = some l') (hl : l.memberNameList.Nodup) :
    l'.memberNameList.Nodup := by
  induction adminOpParams generalizing l with
  | nil => exact Option.some.inj h ▸ hl
  | cons p adminOpParams ih =>
    rw [readNames] at h
    split at h
    · cases h
    · split at h
      · cases h
      · split at h
        · exact ih h (insert_nameList_nodup hl _)
        · split at h
          · cases h
          · exact ih h (insert_nameList_nodup hl _)

theorem handleStructToMoAttribute_of_fit {returnType : ParameterType} {adminOpParams : List AdminOperationParams}
    {l : NameLists} (hread : readNames returnType adminOpParams ⟨[], []⟩ = some l) (hfit : l.Fit returnType) :
    handleStructToMoAttribute env returnType adminOpParams =
      let t := createMaps l.isMultiStructure l.nrOfValues l.memberNameList adminOpParams
      ((t.1.flatMap fun map => map.map fun e => (convertMember env returnType.members t.2 e).1).getLastD .ok,
        some (t.1.map fun map => map.map fun e => (e.1, (convertMember env returnType.members t.2 e).2))) := by
  obtain ⟨hmembers, hmulti, hmin, hmax⟩ := hfit
  have hknown : (l.memberNameList.any fun name => (memberTypeOf returnType.members name).isNone) = false := by
    rw [List.any_eq_false]
    intro name hname hnone
    exact hmembers name hname (Option.isNone_iff_eq_none.mp hnone)
  have hmodel : ¬ ((l.isMultiStructure && !modelTypeMultiValue returnType) = true) := by
    rw [Bool.and_eq_true, Bool.not_eq_true']
    rintro ⟨h, hnot⟩
    rw [hmulti h] at hnot
    cases hnot
  have hrange : ¬ ((l.nrOfValues : Int) < returnType.multiplicityMin ∨ returnType.multiplicityMax <
    (l.nrOfValues : Int)) :=
    not_or.mpr ⟨not_lt.mpr hmin, not_lt.mpr hmax⟩
  unfold handleStructToMoAttribute
  rw [hread]
  dsimp only
  rw [hknown, if_neg Bool.false_ne_true, if_neg hmodel, if_neg hrange, foldl_create_structMember, List.nil_append]

theorem handleStructToMoAttribute_of_not_fit {returnType : ParameterType}
    {adminOpParams : List AdminOperationParams}
    (h : ¬ ∃ l, readNames returnType adminOpParams ⟨[], []⟩ = some l ∧ l.Fit returnType) :
    handleStructToMoAttribute env returnType adminOpParams = (.invalidArgument, none) := by
  unfold handleStructToMoAttribute
  split
  · rfl
  · rename_i l hread
    dsimp only
    split
    · rfl
    · split
      · rfl
      · split
        · rfl
        · rename_i hknown hmodel hrange
          refine absurd ⟨l, hread, ?_, ?_, ?_⟩ h
          · intro name hname hnone
            exact hknown (List.any_eq_true.mpr ⟨name, hname, Option.isNone_iff_eq_none.mpr hnone⟩)
          · intro hmulti
            by_contra hnot
            exact hmodel (by rw [hmulti, Bool.eq_false_iff.mpr hnot]; rfl)
          · exact ⟨not_lt.mp (not_or.mp hrange).1, not_lt.mp (not_or.mp hrange).2⟩

theorem nrOfValues_pos (l : NameLists) : 0 < l.nrOfValues := by
  unfold NameLists.nrOfValues
  split <;> rename_i h
  · exact List.length_pos_iff.mpr (of_decide_eq_true h)
  · exact Nat.one_pos

theorem lastCode_iff (members : List StructMember) (isMultiStructure : Bool) (n : Nat)
    {memberNameList : List (List Char)} (hnodup : memberNameList.Nodup)
      (adminOpParams : List AdminOperationParams) :
    (let t := createMaps isMultiStructure (n + 1) memberNameList adminOpParams
    (t.1.flatMap fun map => map.map fun e => (convertMember env members t.2 e).1).getLastD .ok = .ok) ↔
      ∀ member ∈ memberNameList, (∀ member' ∈ memberNameList, member' ≤ member) →
        (convertFound env members isMultiStructure (n + 1) memberNameList adminOpParams n member).1 = .ok := by
  rw [createMaps_spec isMultiStructure (n + 1) adminOpParams hnodup]
  dsimp only
  obtain ⟨hsorted, hperm, -⟩ := createMap_spec isMultiStructure adminOpParams n hnodup
  rcases eq_or_ne memberNameList [] with rfl | hne
  · refine iff_of_true ?_ nofun
    refine congrArg (·.getLastD MafReturn.ok) (List.flatMap_eq_nil_iff.mpr fun map hmap => ?_)
    obtain ⟨i, -, rfl⟩ := List.mem_map.mp hmap
    rfl
  · rw [List.range_succ, List.map_append, List.flatMap_append, getLastD_append, List.map_singleton,
      List.flatMap_singleton]
    generalize (createMap isMultiStructure n memberNameList
      ([], rename (cutBy (searches isMultiStructure n memberNameList)) adminOpParams)).1 = map at hsorted hperm
    have hmem (member : List Char) (h : member ∈ memberNameList) := List.mem_map_of_mem h
      (f := memberPlaces isMultiStructure memberNameList adminOpParams n)
    -- the code of a member with the highest name
    have hcode (member : List Char) (h : member ∈ memberNameList)
        (hmax : ∀ member' ∈ memberNameList, member' ≤ member) (d : MafReturn) :=
      SortedMap.getLastD_of_sorted hsorted hperm (hmem member h) (fun e' he' => by
        obtain ⟨member', h', rfl⟩ := List.mem_map.mp he'
        exact hmax member' h') (fun e => (convertMember env members
          (rename (cutBy (searches isMultiStructure (n + 1) memberNameList)) adminOpParams) e).1) d
    constructor
    · intro hok member h hmax
      rw [hcode member h hmax, convertMember_places] at hok
      exact hok
    · intro hall
      have hmapne : map ≠ [] := fun hnil => hne (by simpa [hnil] using hperm)
      obtain ⟨e, he, hmax⟩ := SortedMap.exists_highest hsorted hmapne
      obtain ⟨member, h, rfl⟩ := List.mem_map.mp (hperm.mem_iff.mp he)
      have hhighest : ∀ member' ∈ memberNameList, member' ≤ member := fun member' h' =>
        hmax _ (hperm.mem_iff.mpr (hmem member' h'))
      rw [hcode member h hhighest, convertMember_places]
      exact hall member h hhighest

/-- The values that are found for a member of an element are what the model says. -/
def MemberFound (env : TranslateEnv) (returnType : ParameterType) (l : NameLists)
    (adminOpParams : List AdminOperationParams) (i : Nat) (member : List Char) : Prop :=
  ValuesFit env (memberTypeOf returnType.members member)
    (found l.isMultiStructure l.nrOfValues l.memberNameList adminOpParams i member)

/-- Of all members only the last one, by name, of the last element decides. -/
def LastFound (env : TranslateEnv) (returnType : ParameterType) (l : NameLists)
    (adminOpParams : List AdminOperationParams) : Prop :=
  ∀ member ∈ l.memberNameList, (∀ member' ∈ l.memberNameList, member' ≤ member) →
    MemberFound env returnType l adminOpParams (l.nrOfValues - 1) member

theorem handleStructToMoAttribute_ok_iff {returnType : ParameterType} {adminOpParams : List AdminOperationParams} :
    (handleStructToMoAttribute env returnType adminOpParams).1 = .ok ↔
      ∃ l, readNames returnType adminOpParams ⟨[], []⟩ = some l ∧ l.Fit returnType ∧
        LastFound env returnType l adminOpParams := by
  by_cases h : ∃ l, readNames returnType adminOpParams ⟨[], []⟩ = some l ∧ l.Fit returnType
  · obtain ⟨l, hread, hfit⟩ := h
    have hlast : (handleStructToMoAttribute env returnType adminOpParams).1 = .ok ↔
        LastFound env returnType l adminOpParams := by
      obtain ⟨n, hn⟩ := Nat.exists_eq_add_one_of_ne_zero (nrOfValues_pos l).ne'
      unfold LastFound MemberFound
      simp only [handleStructToMoAttribute_of_fit hread hfit, hn, Nat.add_sub_cancel,
        ← convertSimpleToMoAttribute_ok_iff]
      exact lastCode_iff returnType.members l.isMultiStructure n (readNames_nodup hread List.nodup_nil)
        adminOpParams
    rw [hlast]
    constructor
    · exact fun hok => ⟨l, hread, hfit, hok⟩
    · rintro ⟨l', hread', -, hok⟩
      obtain rfl := Option.some.inj (hread.symm.trans hread')
      exact hok
  · rw [handleStructToMoAttribute_of_not_fit h]
    exact iff_of_false nofun fun ⟨l, hread, hfit, _⟩ => h ⟨l, hread, hfit⟩

theorem handleStructToMoAttribute_complete_iff {returnType : ParameterType}
    {adminOpParams : List AdminOperationParams}
    {l : NameLists} (hread : readNames returnType adminOpParams ⟨[], []⟩ = some l) (hfit : l.Fit returnType) :
    (∀ structs ∈ (handleStructToMoAttribute env returnType adminOpParams).2, ∀ struct ∈ structs, ∀ e ∈ struct,
        e.2 ≠ none) ↔
      ∀ i < l.nrOfValues, ∀ member ∈ l.memberNameList, MemberFound env returnType l adminOpParams i member := by
  have hspec (i : Nat) := createMap_spec l.isMultiStructure adminOpParams i (readNames_nodup hread List.nodup_nil)
  rw [handleStructToMoAttribute_of_fit hread hfit, createMaps_spec _ _ _ (readNames_nodup hread List.nodup_nil)]
  dsimp only
  simp only [Option.mem_some_iff, forall_eq', List.forall_mem_map, List.mem_range]
  refine forall_congr' fun i => imp_congr_right fun _ => ?_
  obtain ⟨-, hperm, -⟩ := hspec i
  constructor
  · intro h member hmember
    have he := h _ (hperm.mem_iff.mpr (List.mem_map_of_mem hmember))
    rw [convertMember_places] at he
    exact convertSimpleToMoAttribute_ok_iff.mp ((convertSimpleToMoAttribute_snd _ _).mp he)
  · intro h e he
    obtain ⟨member, hmember, rfl⟩ := List.mem_map.mp (hperm.mem_iff.mp he)
    rw [convertMember_places]
    exact (convertSimpleToMoAttribute_snd _ _).mpr (convertSimpleToMoAttribute_ok_iff.mpr (h member hmember))

theorem mem_values_iff {type : DatatypeContainer} {adminOpParams : List AdminOperationParams} {r : MoResult}
    (h : (convertSimpleToMoAttribute env (some type) adminOpParams).2 = some r) (v : MoValue) :
    v ∈ r.values ↔ ∃ p ∈ adminOpParams, convertValue env (baseType type) p = some v := by
  unfold convertSimpleToMoAttribute at h
  dsimp only at h
  split at h
  · cases h
  · split at h
    · cases h
    · rename_i tempParam htemp
      have hperm : tempParam.Perm adminOpParams := by
        split at htemp
        · exact (reorder_spec htemp).2
        · exact List.Perm.of_eq (Option.some.inj htemp).symm
      have hvoid (p : AdminOperationParams) : convertValue env .void p = none := by
        unfold convertValue
        split <;> simp_all
      -- the values of any type but `void`
      have hvalues (t t' : Datatype) (h : (if adminOpParams.length = 0 then (MafReturn.ok, some (⟨t', []⟩ : MoResult))
          else
            match tempParam.mapM (convertValue env t) with
            | some values => (.ok, some ⟨t, values⟩)
            | none => (.invalidArgument, none)).2 = some r) :
          v ∈ r.values ↔ ∃ p ∈ adminOpParams, convertValue env t p = some v := by
        split at h <;> rename_i hlen
        · cases h
          simp [List.length_eq_zero_iff.mp hlen]
        · split at h <;> cases h
          rename_i values hmap
          have hmap := mapM_eq_some_iff.mp hmap
          simp only [← hperm.mem_iff]
          constructor
          · exact exists_of_mem_right hmap
          · rintro ⟨p, hp, hv⟩
            obtain ⟨v', hv', heq⟩ := exists_of_mem_right hmap.flip hp
            obtain rfl := Option.some.inj (hv.symm.trans heq)
            exact hv'
      cases htype : baseType type
      case void =>
        rw [htype] at h
        cases h
        simp [hvoid]
      case derived | struct | unknown =>
        rw [htype] at h
        cases h
      all_goals
        rw [htype] at h
        exact hvalues _ _ h

variable (env) in
theorem structs_of_fit {adminOpParams : List AdminOperationParams} {l : NameLists}
    (hread : readNames returnType adminOpParams ⟨[], []⟩ = some l) (hfit : l.Fit returnType) :
    ∃ F : Nat → StructResult,
      (handleStructToMoAttribute env returnType adminOpParams).2 = some ((List.range l.nrOfValues).map F) ∧
        ∀ i, (F i).Perm (l.memberNameList.map fun member => (member, (convertFound env returnType.members
          l.isMultiStructure l.nrOfValues l.memberNameList adminOpParams i member).2)) := by
  have hnodup := readNames_nodup hread List.nodup_nil
  rw [handleStructToMoAttribute_of_fit hread hfit, createMaps_spec _ _ _ hnodup]
  dsimp only
  rw [List.map_map]
  refine ⟨_, rfl, fun i => ?_⟩
  obtain ⟨-, hperm, -⟩ := createMap_spec l.isMultiStructure adminOpParams i hnodup
  refine (hperm.map _).trans (List.Perm.of_eq ?_)
  rw [List.map_map]
  refine List.map_congr_left fun member _ => ?_
  rw [Function.comp_apply, convertMember_places]
  rfl

end

end ComSA.Action
