import ComSA.Motransaction.ParameterNames

/-!
# Errors of conversions

The code of a conversion is one variable for all parameters, values and members, and a later one sets it
again. It is told here when an error is lost in that way.
-/

namespace ComSA.Action

variable (env : TranslateEnv)

/-! ## What is to be converted -/

def ValuesConverted (isMoSpiVersion2 : Bool) (type : DatatypeContainer) (values : List MoValue) : Prop :=
  ∀ value ∈ values, ∀ name, convertASingleAdmOpParam env name isMoSpiVersion2 type value ≠ none

def MemberTyped (member_p : StructMember) (v : MemberValue) : Prop :=
  member_p.memberType.type = v.type ∨ member_p.memberType.type = .derived

/-- Every member that the struct has is converted, as the member of the model in its place. -/
def StructConverted (isMoSpiVersion2 : Bool) (members : List StructMember) (x : List MemberValue) : Prop :=
  List.Forall₂ (fun member_p v => MemberTyped member_p v ∧
    ValuesConverted env isMoSpiVersion2 member_p.memberType v.values) (members.take x.length) x

def ContainerConverted (isMoSpiVersion2 : Bool) (type : ParameterType) (v : AttributeValueContainer) : Prop :=
  if type.type = .struct then
    ∀ x ∈ v.values, StructConverted env isMoSpiVersion2 type.members (x.structMember :: x.next)
  else ValuesConverted env isMoSpiVersion2 type.toDatatypeContainer (v.values.map ComValue.simple)

/-- Every parameter of the call is converted, as the parameter of the action in its place. -/
def ParametersConverted (parameters : List Parameter) (theComParameterList : List AttributeValueContainer) : Prop :=
  List.Forall₂ (fun par_p v => sanityCheckAdminParameters par_p v.type = true ∧
    ContainerConverted env false par_p.parameterType v) (parameters.take theComParameterList.length)
      theComParameterList

def ReturnConverted (returnType : ParameterType) (isMoSpiVersion2 : Bool)
    (theComParameterList : List AttributeValueContainer) : Prop :=
  ∀ v ∈ theComParameterList, sanityCheckReturnComParameters returnType v.type isMoSpiVersion2 = true ∧
    ContainerConverted env isMoSpiVersion2 returnType v

/-- A parameter of the answer has a value of its type, which stands in the element and at the member that its name
tells. -/
def ParameterConverted (returnType : ParameterType) (structs : List StructResult) (p : AdminOperationParams) : Prop :=
  ∃ name type v result i, readName p.paramName = some name ∧
    memberTypeOf returnType.members name.member = some type ∧ convertValue env (baseType type) p = some v ∧
    (∀ number ∈ name.element, number = (toString (i + 1)).toList) ∧
    ∃ struct, structs[i]? = some struct ∧ (name.member, some result) ∈ struct ∧ v ∈ result.values

/-- Every member of every element has its values, and every parameter is one of them. -/
def StructsConverted (returnType : ParameterType) (adminOpParams : List AdminOperationParams)
    (structs : List StructResult) : Prop :=
  (∀ struct ∈ structs, ∀ e ∈ struct, e.2 ≠ none) ∧ ∀ p ∈ adminOpParams, ParameterConverted env returnType structs p

/-! ## What decides -/

def StructTaken (members : List StructMember) (x : List MemberValue) : Prop :=
  ∀ m ∈ members.zip x, MemberTyped m.1 m.2 ∧ (m.1.memberType.type = .struct → m.2.values = [])

/-- The members that are let through are all there are, and there is a case for each of their values. -/
def StructComplete (isMoSpiVersion2 : Bool) (members : List StructMember) (x : List MemberValue) : Prop :=
  x.length ≤ members.length ∧
    ∀ m ∈ members.zip x, m.2.values ≠ [] → HasCase (attrType isMoSpiVersion2 m.1.memberType) = true

/-- The structs, each with the members of the model, in the order in which they are handled. -/
def structsOf (pairs : List (ParameterType × AttributeValueContainer)) : List
    (List StructMember × List MemberValue) :=
  pairs.flatMap fun p =>
    if p.1.type = .struct then p.2.values.map fun x => (p.1.members, x.structMember :: x.next) else []

def LastTaken (pairs : List (ParameterType × AttributeValueContainer)) : Prop :=
  ∀ s ∈ (structsOf pairs).getLast?, StructTaken s.1 s.2

/-- Every struct is let through and complete, and there is a case for every other value. -/
def AllTaken (isMoSpiVersion2 : Bool) (pairs : List (ParameterType × AttributeValueContainer)) : Prop :=
  (∀ s ∈ structsOf pairs, StructTaken s.1 s.2 ∧ StructComplete isMoSpiVersion2 s.1 s.2) ∧
    ∀ p ∈ pairs, p.1.type ≠ .struct → p.2.values ≠ [] →
      HasCase (attrType isMoSpiVersion2 p.1.toDatatypeContainer) = true

def pairsOf (parameters : List Parameter) (theComParameterList : List AttributeValueContainer) :
    List (ParameterType × AttributeValueContainer) :=
  (parameters.zip theComParameterList).map fun p => (p.1.parameterType, p.2)

section
variable {env : TranslateEnv} {isMoSpiVersion2 : Bool}

/-! ## Values and structs -/

theorem convertASingleAdmOpParam_ne_none_iff (name : List Char) (type : DatatypeContainer) (value : MoValue) :
    convertASingleAdmOpParam env name isMoSpiVersion2 type value ≠ none ↔
      HasCase (attrType isMoSpiVersion2 type) = true := by
  unfold convertASingleAdmOpParam
  cases attrType isMoSpiVersion2 type <;> simp [HasCase]

theorem valuesConverted_iff {type : DatatypeContainer} {values : List MoValue} :
    ValuesConverted env isMoSpiVersion2 type values ↔
      (values ≠ [] → HasCase (attrType isMoSpiVersion2 type) = true) := by
  unfold ValuesConverted
  constructor
  · intro h hne
    obtain ⟨value, hvalue⟩ := List.exists_mem_of_ne_nil values hne
    exact (convertASingleAdmOpParam_ne_none_iff [] type value).mp (h value hvalue [])
  · intro h value hvalue name
    exact (convertASingleAdmOpParam_ne_none_iff name type value).mpr (h (List.ne_nil_of_mem hvalue))

theorem attrType_struct {type : DatatypeContainer} (h : type.type = .struct) :
    attrType isMoSpiVersion2 type = .struct := by
  rw [attrType, h, if_neg fun hand => nomatch hand.1]

theorem structConverted_iff {members : List StructMember} {x : List MemberValue} :
    StructConverted env isMoSpiVersion2 members x ↔ StructTaken members x ∧ StructComplete isMoSpiVersion2
      members x := by
  unfold StructConverted StructTaken StructComplete
  rw [forall₂_take_iff]
  constructor
  · rintro ⟨hlen, hall⟩
    refine ⟨fun m hm => ⟨(hall m hm).1, fun hstruct => ?_⟩, hlen, fun m hm hne =>
      valuesConverted_iff.mp (hall m hm).2 hne⟩
    by_contra hne
    have hcase := valuesConverted_iff.mp (hall m hm).2 hne
    rw [attrType_struct hstruct] at hcase
    cases hcase
  · rintro ⟨htaken, hlen, hcase⟩
    exact ⟨hlen, fun m hm => ⟨(htaken m hm).1, valuesConverted_iff.mpr (hcase m hm)⟩⟩

theorem handleStructToAdminOpPar_ok_iff (name : List Char) (members : List StructMember) (x : List MemberValue) :
    (handleStructToAdminOpPar env name isMoSpiVersion2 members x).1 = .ok ↔ StructTaken members x := by
  unfold StructTaken
  induction members generalizing x with
  | nil => simp [handleStructToAdminOpPar]
  | cons member_p members ih =>
    cases x with
    | nil => simp [handleStructToAdminOpPar]
    | cons v x =>
      rw [handleStructToAdminOpPar, List.zip_cons_cons, List.forall_mem_cons, ← ih x]
      by_cases htyped : member_p.memberType.type = v.type ∨ member_p.memberType.type = .derived
      · rw [if_pos htyped]
        by_cases hstruct : member_p.memberType.type = .struct ∧ v.values ≠ []
        · rw [if_pos hstruct]
          exact iff_of_false nofun fun h => hstruct.2 (h.1.2 hstruct.1)
        · rw [if_neg hstruct]
          have hhead : MemberTyped member_p v ∧ (member_p.memberType.type = .struct → v.values = []) :=
            ⟨htyped, fun h => not_not.mp fun hne => hstruct ⟨h, hne⟩⟩
          exact (and_iff_right hhead).symm
      · rw [if_neg htyped]
        exact iff_of_false nofun fun h => htyped h.1.1

/-! ## All parameters -/

theorem structsOf_append (pairs pairs' : List (ParameterType × AttributeValueContainer)) :
    structsOf (pairs ++ pairs') = structsOf pairs ++ structsOf pairs' := List.flatMap_append

theorem containersConverted_iff {pairs : List (ParameterType × AttributeValueContainer)} :
    (∀ p ∈ pairs, ContainerConverted env isMoSpiVersion2 p.1 p.2) ↔ AllTaken isMoSpiVersion2 pairs := by
  unfold AllTaken
  constructor
  · intro h
    refine ⟨fun s hs => ?_, fun p hp hsimple hne => ?_⟩
    · obtain ⟨p, hp, hmem⟩ := List.mem_flatMap.mp hs
      have hconv := h p hp
      by_cases hstruct : p.1.type = .struct
      · rw [if_pos hstruct] at hmem
        rw [ContainerConverted, if_pos hstruct] at hconv
        obtain ⟨x, hx, rfl⟩ := List.mem_map.mp hmem
        exact structConverted_iff.mp (hconv x hx)
      · rw [if_neg hstruct] at hmem
        cases hmem
    · have hconv := h p hp
      rw [ContainerConverted, if_neg hsimple, valuesConverted_iff] at hconv
      exact hconv (List.map_eq_nil_iff.not.mpr hne)
  · rintro ⟨hstructs, hsimple⟩ p hp
    unfold ContainerConverted
    split <;> rename_i hstruct
    · intro x hx
      refine structConverted_iff.mpr (hstructs (p.1.members, x.structMember :: x.next)
        (List.mem_flatMap.mpr ⟨p, hp, ?_⟩))
      rw [if_pos hstruct]
      exact List.mem_map_of_mem hx
    · rw [valuesConverted_iff]
      exact fun hne => hsimple p hp hstruct (List.map_eq_nil_iff.not.mp hne)

theorem allTaken_nil : AllTaken isMoSpiVersion2 [] :=
  ⟨fun _ hs => absurd hs List.not_mem_nil, fun _ hp => absurd hp List.not_mem_nil⟩

theorem convertContainer_lastTaken {done : List (ParameterType × AttributeValueContainer)}
    {s : MafReturn × List AdminOperationParams} (hdone : s.1 = .ok ↔ LastTaken done) (name : List Char)
    (type : ParameterType) (v : AttributeValueContainer) :
    (convertContainer env name isMoSpiVersion2 type v s).1 = .ok ↔ LastTaken (done ++ [(type, v)]) := by
  have hstructs : structsOf [(type, v)] =
      if type.type = .struct then v.values.map fun x => (type.members, x.structMember :: x.next) else [] := by
    simp [structsOf]
  unfold LastTaken convertContainer
  rw [structsOf_append, hstructs]
  split
  · rcases List.eq_nil_or_concat v.values with hnil | ⟨init, x, hlast⟩
    · rw [hnil, List.map_nil, List.append_nil, List.zipIdx_nil, collect_nil]
      exact hdone
    · rw [hlast, List.concat_eq_append, List.map_append, List.map_singleton, ← List.append_assoc,
        List.getLast?_concat,
        List.zipIdx_append, collect_append]
      simp only [Option.mem_some_iff, forall_eq']
      exact handleStructToAdminOpPar_ok_iff _ _ _
  · rw [List.append_nil]
    exact hdone

theorem convertParameters_ok_iff {done : List (ParameterType × AttributeValueContainer)}
    {s : MafReturn × List AdminOperationParams} (hdone : s.1 = .ok ↔ LastTaken done) (parameters : List Parameter)
    (theComParameterList : List AttributeValueContainer) :
    (convertParameters env parameters theComParameterList s).1 = .ok ↔
      (∀ p ∈ parameters.zip theComParameterList, sanityCheckAdminParameters p.1 p.2.type = true) ∧
        LastTaken (done ++ pairsOf parameters theComParameterList) := by
  induction parameters generalizing theComParameterList s done with
  | nil => simpa [convertParameters, pairsOf] using hdone
  | cons par_p parameters ih =>
    cases theComParameterList with
    | nil => simpa [convertParameters, pairsOf] using hdone
    | cons v theComParameterList =>
      rw [convertParameters, List.zip_cons_cons, List.forall_mem_cons]
      have hpairs : pairsOf (par_p :: parameters) (v :: theComParameterList) =
          [(par_p.parameterType, v)] ++ pairsOf parameters theComParameterList := rfl
      rw [hpairs, ← List.append_assoc]
      by_cases hsane : sanityCheckAdminParameters par_p v.type = true
      · rw [if_pos hsane, ih (convertContainer_lastTaken hdone par_p.name par_p.parameterType v),
          and_iff_right hsane]
      · rw [if_neg hsane]
        exact iff_of_false nofun fun h => hsane h.1.1

theorem result_fst (s : MafReturn × List AdminOperationParams) : (result s).1 = s.1 := rfl

theorem convertToAdminOpParameters_ok_iff (parameters : List Parameter)
    (theComParameterList : List AttributeValueContainer) :
    (convertToAdminOpParameters env parameters theComParameterList).1 = .ok ↔
      (parameters ≠ [] ∧ theComParameterList ≠ []) ∧
        (∀ p ∈ parameters.zip theComParameterList, sanityCheckAdminParameters p.1 p.2.type = true) ∧
        LastTaken (pairsOf parameters theComParameterList) := by
  have hdone : (MafReturn.ok, ([] : List AdminOperationParams)).1 = .ok ↔ LastTaken [] :=
    iff_of_true rfl nofun
  unfold convertToAdminOpParameters
  split
  · rename_i hnil
    exact iff_of_false nofun fun h => h.1.1 hnil
  · split
    · rename_i hnil
      exact iff_of_false nofun fun h => h.1.2 hnil
    · rename_i hpar hcom
      have hgiven : parameters ≠ [] ∧ theComParameterList ≠ [] := ⟨hpar, hcom⟩
      rw [result_fst, convertParameters_ok_iff hdone, List.nil_append, and_iff_right hgiven]

/-! ## Answers -/

theorem sanityCheckReturnComParameters_void {returnType : ParameterType} {type : Datatype}
    (h : sanityCheckReturnComParameters returnType type isMoSpiVersion2 = true) :
    ¬ (returnType.type = .void ∧ isMoSpiVersion2 = true) := by
  rintro ⟨hvoid, hversion⟩
  subst hversion
  unfold sanityCheckReturnComParameters at h
  rw [hvoid, if_neg fun hand => nomatch hand.1] at h
  split at h
  · cases h
  · rename_i htype
    exact htype ⟨(of_decide_eq_true h).symm, rfl⟩

def ReturnNamed (returnType : ParameterType) (theComParameterList : List AttributeValueContainer) : Prop :=
  returnType.type = .struct → returnType.structName = none → ∀ v ∈ theComParameterList, v.values = []

theorem convertReturn_ok_iff {returnType : ParameterType} {done : List (ParameterType × AttributeValueContainer)}
    {s : MafReturn × List AdminOperationParams} (hdone : s.1 = .ok ↔ LastTaken done)
    (theComParameterList : List AttributeValueContainer) :
    (convertReturn env returnType isMoSpiVersion2 theComParameterList s).1 = .ok ↔
      (∀ v ∈ theComParameterList, sanityCheckReturnComParameters returnType v.type isMoSpiVersion2 = true) ∧
        ReturnNamed returnType theComParameterList ∧
        LastTaken (done ++ theComParameterList.map fun v => (returnType, v)) := by
  induction theComParameterList generalizing s done with
  | nil => simpa [convertReturn, result_fst, ReturnNamed] using hdone
  | cons v theComParameterList ih =>
    unfold ReturnNamed at ih ⊢
    rw [convertReturn, List.forall_mem_cons, List.map_cons, List.append_cons]
    by_cases hsane : sanityCheckReturnComParameters returnType v.type isMoSpiVersion2 = true
    · have hvoid := sanityCheckReturnComParameters_void hsane
      rw [if_pos hsane, if_neg fun h => hvoid h.2, and_iff_right hsane]
      by_cases hname : v.values ≠ [] ∧ returnType.type = .struct ∧ returnType.structName = none
      · rw [if_pos hname]
        exact iff_of_false nofun fun h => hname.1 (h.2.1 hname.2.1 hname.2.2 v List.mem_cons_self)
      · rw [if_neg hname, ih (convertContainer_lastTaken hdone (returnName returnType) returnType v)]
        have hhead (hstruct : returnType.type = .struct) (hnone : returnType.structName = none) : v.values = [] :=
          not_not.mp fun hne => hname ⟨hne, hstruct, hnone⟩
        refine and_congr_right fun _ => and_congr_left fun _ => ?_
        refine forall_congr' fun hstruct => forall_congr' fun hnone => ?_
        rw [List.forall_mem_cons, and_iff_right (hhead hstruct hnone)]
    · rw [if_neg hsane]
      exact iff_of_false nofun fun h => hsane h.1.1

/-! ## Nothing is lost -/

theorem parametersConverted_iff {parameters : List Parameter} {theComParameterList : List AttributeValueContainer} :
    ParametersConverted env parameters theComParameterList ↔
      theComParameterList.length ≤ parameters.length ∧
        (∀ p ∈ parameters.zip theComParameterList, sanityCheckAdminParameters p.1 p.2.type = true) ∧
        AllTaken false (pairsOf parameters theComParameterList) := by
  rw [ParametersConverted, forall₂_take_iff, ← @containersConverted_iff env, pairsOf, List.forall_mem_map]
  exact and_congr_right fun _ => forall₂_and

theorem returnConverted_iff {returnType : ParameterType} {theComParameterList : List AttributeValueContainer} :
    ReturnConverted env returnType isMoSpiVersion2 theComParameterList ↔
      (∀ v ∈ theComParameterList, sanityCheckReturnComParameters returnType v.type isMoSpiVersion2 = true) ∧
        AllTaken isMoSpiVersion2 (theComParameterList.map fun v => (returnType, v)) := by
  rw [ReturnConverted, ← @containersConverted_iff env, List.forall_mem_map]
  exact forall₂_and

end

/-- Where every parameter has its type and the last struct is let through, there is no parameter too many,
every struct is let through and complete, and there is a case for every value. -/
def CallFine (parameters : List Parameter) (theComParameterList : List AttributeValueContainer) : Prop :=
  parameters ≠ [] → (∀ p ∈ parameters.zip theComParameterList, sanityCheckAdminParameters p.1 p.2.type = true) →
    LastTaken (pairsOf parameters theComParameterList) →
      theComParameterList.length ≤ parameters.length ∧ AllTaken false (pairsOf parameters theComParameterList)

/-- Where every container has the type of the answer and the last struct is let through, every struct is let
through and complete, and there is a case for every value. -/
def AnswerFine (returnType : ParameterType) (isMoSpiVersion2 : Bool)
    (theComParameterList : List AttributeValueContainer) : Prop :=
  (∀ v ∈ theComParameterList, sanityCheckReturnComParameters returnType v.type isMoSpiVersion2 = true) →
    ReturnNamed returnType theComParameterList → LastTaken (theComParameterList.map fun v => (returnType, v)) →
      AllTaken isMoSpiVersion2 (theComParameterList.map fun v => (returnType, v))

/-- The element of a parameter is one of those that are searched for, and its value is found for its member. -/
def ParameterFound (returnType : ParameterType) (l : NameLists) (adminOpParams : List AdminOperationParams)
    (p : AdminOperationParams) : Prop :=
  ∃ name type v i, readName p.paramName = some name ∧ memberTypeOf returnType.members name.member = some type ∧
    convertValue env (baseType type) p = some v ∧ i < l.nrOfValues ∧
    (∀ number ∈ name.element, number = (toString (i + 1)).toList) ∧
    ∃ q ∈ found l.isMultiStructure l.nrOfValues l.memberNameList adminOpParams i name.member,
      convertValue env (baseType type) q = some v

/-- Where the names are those of the model and the last member of the last element has its values, every
member of every element has its values, and every parameter is found for its own. -/
def StructFine (returnType : ParameterType) (adminOpParams : List AdminOperationParams) : Prop :=
  ∀ l, readNames returnType adminOpParams ⟨[], []⟩ = some l → l.Fit returnType →
    LastFound env returnType l adminOpParams →
      (∀ i < l.nrOfValues, ∀ member ∈ l.memberNameList, MemberFound env returnType l adminOpParams i member) ∧
        ∀ p ∈ adminOpParams, ParameterFound env returnType l adminOpParams p

section
variable {env : TranslateEnv} {returnType : ParameterType} {adminOpParams : List AdminOperationParams} {l : NameLists}

theorem parameterConverted_iff (hread : readNames returnType adminOpParams ⟨[], []⟩ = some l)
    (hall : ∀ i < l.nrOfValues, ∀ member ∈ l.memberNameList, MemberFound env returnType l adminOpParams i member)
    {F : Nat → StructResult}
    (hF : ∀ i, (F i).Perm (l.memberNameList.map fun member => (member, (convertFound env returnType.members
      l.isMultiStructure l.nrOfValues l.memberNameList adminOpParams i member).2)))
    {p : AdminOperationParams} (hp : p ∈ adminOpParams) :
    ParameterConverted env returnType ((List.range l.nrOfValues).map F) p ↔
      ParameterFound env returnType l adminOpParams p := by
  constructor
  · rintro ⟨name, type, v, result, i, hname, htype, hv, hnumber, struct, hstruct, hmem, hvalue⟩
    obtain ⟨j, hj, rfl⟩ : ∃ j, (List.range l.nrOfValues)[i]? = some j ∧ F j = struct := by
      rw [List.getElem?_map] at hstruct
      exact Option.map_eq_some_iff.mp hstruct
    obtain ⟨hi, hij⟩ := List.getElem?_eq_some_iff.mp hj
    rw [List.getElem_range] at hij
    rw [List.length_range] at hi
    subst hij
    obtain ⟨member, -, heq⟩ := List.mem_map.mp ((hF i).mem_iff.mp hmem)
    obtain ⟨rfl, hresult⟩ := Prod.ext_iff.mp heq
    have hresult : (convertSimpleToMoAttribute env (memberTypeOf returnType.members name.member) _).2 = some result :=
      hresult
    rw [htype] at hresult
    exact ⟨name, type, v, i, hname, htype, hv, hi, hnumber, (mem_values_iff hresult v).mp hvalue⟩
  · rintro ⟨name, type, v, i, hname, htype, hv, hi, hnumber, hfound⟩
    have hmember : name.member ∈ l.memberNameList := member_of_readNames hread hp hname
    obtain ⟨result, hresult⟩ := Option.ne_none_iff_exists'.mp ((convertSimpleToMoAttribute_snd _ _).mpr
      (convertSimpleToMoAttribute_ok_iff.mpr (hall i hi name.member hmember)))
    refine ⟨name, type, v, result, i, hname, htype, hv, hnumber, F i, ?_, ?_, ?_⟩
    · rw [List.getElem?_map, List.getElem?_range hi]
      rfl
    · exact (hF i).mem_iff.mpr (List.mem_map.mpr ⟨name.member, hmember, Prod.ext rfl hresult⟩)
    · rw [htype] at hresult
      exact (mem_values_iff hresult v).mpr hfound

theorem structsConverted_iff :
    ((handleStructToMoAttribute env returnType adminOpParams).1 = .ok →
      ∀ structs ∈ (handleStructToMoAttribute env returnType adminOpParams).2,
        StructsConverted env returnType adminOpParams structs) ↔ StructFine env returnType adminOpParams := by
  rw [handleStructToMoAttribute_ok_iff, StructFine]
  -- what is told of one list whose names pass the checks
  have hone {l : NameLists} (hread : readNames returnType adminOpParams ⟨[], []⟩ = some l) (hfit : l.Fit returnType) :
      (∀ structs ∈ (handleStructToMoAttribute env returnType adminOpParams).2,
        StructsConverted env returnType adminOpParams structs) ↔
      (∀ i < l.nrOfValues, ∀ member ∈ l.memberNameList, MemberFound env returnType l adminOpParams i member) ∧
        ∀ p ∈ adminOpParams, ParameterFound env returnType l adminOpParams p := by
    rw [← handleStructToMoAttribute_complete_iff hread hfit]
    obtain ⟨F, hF, hperm⟩ := structs_of_fit env hread hfit
    rw [hF]
    simp only [Option.mem_some_iff, forall_eq', StructsConverted]
    refine and_congr_right fun hvalues => forall₂_congr fun p hp => ?_
    refine parameterConverted_iff hread ?_ hperm hp
    rw [← handleStructToMoAttribute_complete_iff hread hfit, hF]
    simpa using hvalues
  constructor
  · exact fun h l hread hfit hlast => (hone hread hfit).mp (h ⟨l, hread, hfit, hlast⟩)
  · rintro h ⟨l, hread, hfit, hlast⟩
    exact (hone hread hfit).mpr (h l hread hfit hlast)

end

/-- A good code means that all is converted, both ways, precisely when no error comes before the last
struct, or the last member, and nothing is passed over. -/
theorem all_converted_iff :
    (∀ parameters theComParameterList,
      ((convertToAdminOpParameters env parameters theComParameterList).1 = .ok →
        ParametersConverted env parameters theComParameterList) ↔ CallFine parameters theComParameterList) ∧
    (∀ returnType isMoSpiVersion2 theComParameterList,
      ((convertActionReturnToImmParameters env returnType isMoSpiVersion2 theComParameterList).1 = .ok →
        ReturnConverted env returnType isMoSpiVersion2 theComParameterList) ↔
          AnswerFine returnType isMoSpiVersion2 theComParameterList) ∧
    ∀ returnType adminOpParams,
      ((handleStructToMoAttribute env returnType adminOpParams).1 = .ok →
        ∀ structs ∈ (handleStructToMoAttribute env returnType adminOpParams).2,
          StructsConverted env returnType adminOpParams structs) ↔ StructFine env returnType adminOpParams := by
  refine ⟨fun parameters theComParameterList => ?_, fun returnType isMoSpiVersion2 theComParameterList => ?_,
    fun returnType adminOpParams => ?_⟩
  · rw [convertToAdminOpParameters_ok_iff, parametersConverted_iff, CallFine]
    constructor
    · intro h hpar hsane hlast
      rcases eq_or_ne theComParameterList [] with rfl | hcom
      · rw [pairsOf, List.zip_nil_right]
        exact ⟨Nat.zero_le _, allTaken_nil⟩
      · obtain ⟨hlen, -, hall⟩ := h ⟨⟨hpar, hcom⟩, hsane, hlast⟩
        exact ⟨hlen, hall⟩
    · rintro h ⟨⟨hpar, -⟩, hsane, hlast⟩
      obtain ⟨hlen, hall⟩ := h hpar hsane hlast
      exact ⟨hlen, hsane, hall⟩
  · have hstart : (MafReturn.ok, ([] : List AdminOperationParams)).1 = .ok ↔ LastTaken [] := iff_of_true rfl nofun
    rw [convertActionReturnToImmParameters, convertReturn_ok_iff hstart, returnConverted_iff, AnswerFine,
      List.nil_append]
    constructor
    · exact fun h hsane hnamed hlast => (h ⟨hsane, hnamed, hlast⟩).2
    · exact fun h ⟨hsane, hnamed, hlast⟩ => ⟨hsane, h hsane hnamed hlast⟩
  · exact structsConverted_iff

/-- Two structs in a parameter: the member of the first has a wrong type, and nobody is told. -/
theorem not_all_converted :
    ¬ (∀ env parameters theComParameterList,
      (convertToAdminOpParameters env parameters theComParameterList).1 = .ok →
        ParametersConverted env parameters theComParameterList) := by
  intro h
  have hall := h ⟨id, id, id, false⟩ [⟨['p'], ⟨⟨.struct, .void, 1, 2⟩, some ['S'], [⟨['m'], ⟨.int32, .void, 1, 1⟩⟩]⟩⟩]
    [⟨.struct, [⟨.number 0, ⟨.string, [.text "x"]⟩, []⟩, ⟨.number 0, ⟨.int32, [.number 7]⟩, []⟩]⟩]
    (by decide)
  obtain ⟨-, -, htaken, -⟩ := parametersConverted_iff.mp hall
  have hfirst := (htaken ([⟨['m'], ⟨.int32, .void, 1, 1⟩⟩], [⟨.string, [.text "x"]⟩]) (by decide)).1
  obtain ⟨htyped, -⟩ := hfirst (⟨['m'], ⟨.int32, .void, 1, 1⟩⟩, ⟨.string, [.text "x"]⟩) (by decide)
  rcases htyped with h | h <;> cases h

end ComSA.Action
