import ComSA.Lib.Related
import ComSA.Motransaction.ImmValues

/-!
# Attribute values that come back

A transaction that wrote an attribute reads it from its cache. After the commit it is read from IMM. It is told here
for which types in IMM and for which values both read the same, and where a change goes unnoticed.
-/

namespace ComSA.ImmValues

open Action (SaImmValueType)
open ModifiedObjects
open SaName (nul shortened saMaxUnextendedNameLength)

/-! ## Which values come back -/

section
variable (env : ValueEnv) (attrValueType : SaImmValueType)

/-- The types in IMM that a value of the type can be written as, and be read again without a failure. -/
def Passes : MoAttributeType → MoValue → Prop
  | .int8, _ | .int16, _ | .int32, _ => attrValueType ∈ [.saInt32, .saFloat]
  | .uint8, _ | .uint16, _ | .uint32, _ => attrValueType ∈ [.saUint32, .saFloat]
  | .enum, _ | .bool, _ => attrValueType ∈ [.saInt32, .saUint32, .saFloat]
  | .int64, _ | .uint64, _ => attrValueType ∈ [.saInt64, .saTime, .saUint64, .saDouble]
  | .decimal64, _ => attrValueType ∈ [.saDouble, .saFloat]
  | .string, .text _ => attrValueType = .saString
  | .reference, .text dn =>
    attrValueType = .saName ∧ (shortened (env.MO2Imm_DN dn).toList).length < saMaxUnextendedNameLength
  | .string, _ | .reference, _ => False

def Kept : MoAttributeType → MoValue → Prop
  | .int8, _ | .int16, _ | .int32, _ => attrValueType = .saInt32
  | .uint8, _ | .uint16, _ | .uint32, _ => attrValueType = .saUint32
  | .bool, _ => attrValueType = .saInt32 ∨ attrValueType = .saUint32
  | .enum, .number n => attrValueType = .saInt32 ∧ FitsSigned 32 n ∨ attrValueType = .saUint32 ∧ FitsUnsigned 32 n
  | .int64, _ => attrValueType = .saInt64 ∨ attrValueType = .saTime
  | .uint64, _ => attrValueType = .saUint64
  | .decimal64, .number n =>
    attrValueType = .saDouble ∨
      attrValueType = .saFloat ∧ env.floatToDouble (asUnsigned 32 (env.doubleToFloat n)) = n
  | .string, .text _ => attrValueType = .saString
  | .reference, .text dn =>
    attrValueType = .saName ∧
      (shortened (env.MO2Imm_DN dn).toList).length < saMaxUnextendedNameLength ∧
      env.Imm2MO_DN (String.ofList (shortened (env.MO2Imm_DN dn).toList)) = dn
  | _, _ => False

def Zeroed : MoAttributeType → Prop
  | .int64 => attrValueType = .saUint64 ∨ attrValueType = .saDouble
  | .uint64 => attrValueType = .saInt64 ∨ attrValueType = .saTime ∨ attrValueType = .saDouble
  | .decimal64 | .string | .reference => False
  | _ => attrValueType = .saFloat

def ComesBack (type : MoAttributeType) (value : MoValue) : Prop :=
  Kept env attrValueType type value ∨ Zeroed attrValueType type ∧ zeroOf type = some value

/-- What is read of a value that was written. -/
def ReadAs (type : MoAttributeType) (value back : MoValue) : Prop :=
  (newValue env attrValueType (type, value)).bind (toMoValue env type attrValueType) = some (some back, true)

end

/-! ## One value -/

section
variable {env : ValueEnv} {attrValueType : SaImmValueType}

theorem asSigned_eq_iff {w : Nat} (hw : 0 < w) {n : Int} : asSigned w n = n ↔ FitsSigned w n := by
  refine ⟨fun h => ?_, asSigned_of_fits hw⟩
  obtain ⟨k, rfl⟩ : ∃ k, w = k + 1 := ⟨w - 1, by omega⟩
  have hpos : 0 < 2 ^ (k + 1) := Nat.two_pow_pos _
  have hpow : (2 : Int) ^ (k + 1) = 2 * 2 ^ k := by rw [Int.pow_succ, Int.mul_comm]
  have hcast : ((2 ^ (k + 1) : Nat) : Int) = 2 * 2 ^ k := by rw [Int.natCast_pow]; exact hpow
  have hle := Int.le_bmod hpos (x := n)
  have hlt := Int.bmod_lt hpos (x := n)
  unfold asSigned at h
  unfold FitsSigned
  rw [h, hcast] at hle hlt
  rw [Nat.add_sub_cancel]
  omega

theorem asUnsigned_eq_iff {w : Nat} {n : Int} : asUnsigned w n = n ↔ FitsUnsigned w n := by
  refine ⟨fun h => ?_, asUnsigned_of_fits⟩
  have hpos : (0 : Int) < 2 ^ w := Int.pow_pos (by decide)
  unfold asUnsigned at h
  exact ⟨h ▸ Int.emod_nonneg n (Int.ne_of_gt hpos), h ▸ Int.emod_lt_of_pos n hpos⟩

theorem asSigned_32_of_fits {w : Nat} (hw : w = 8 ∨ w = 16 ∨ w = 32) {n : Int} (h : FitsSigned w n) :
    asSigned 32 n = n ∧ asSigned w n = n := by
  refine ⟨asSigned_of_fits (by decide) ?_, asSigned_of_fits (by omega) h⟩
  rcases hw with rfl | rfl | rfl <;> unfold FitsSigned at * <;> omega

theorem asUnsigned_32_of_fits {w : Nat} (hw : w = 8 ∨ w = 16 ∨ w = 32) {n : Int} (h : FitsUnsigned w n) :
    asUnsigned 32 n = n ∧ asUnsigned w n = n := by
  refine ⟨asUnsigned_of_fits ?_, asUnsigned_of_fits h⟩
  rcases hw with rfl | rfl | rfl <;> unfold FitsUnsigned at * <;> omega

attribute [local simp] ReadAs newValue getImmValue fill toMoValue ofInt32 ofUint32 orZero zeroOf Passes ComesBack Kept
  Zeroed

theorem readAs_reference {dn : String} {back : MoValue} :
    ReadAs env attrValueType .reference (.text dn) back ↔
      attrValueType = .saName ∧ (shortened (env.MO2Imm_DN dn).toList).length < saMaxUnextendedNameLength ∧
      .text (env.Imm2MO_DN (String.ofList (shortened (env.MO2Imm_DN dn).toList))) = back := by
  have hnul := env.nulFree dn
  cases attrValueType with
  | saName =>
    by_cases hfits : (shortened (env.MO2Imm_DN dn).toList).length < saMaxUnextendedNameLength
    · obtain ⟨name, hset, hwritten⟩ := SaName.saNameSet_fits hnul hfits
      have hread := SaName.makeCString_written (SaName.nul_notMem_shortened hnul) hwritten
      simp [hset, hread, hfits]
    · have hset := SaName.saNameSet_long hnul (Nat.le_of_not_lt hfits)
      simp [hset, hfits]
  | _ => simp

theorem readAs_iff {type : MoAttributeType} {value : MoValue} (h : type.Holds value) :
    ((∃ back, ReadAs env attrValueType type value back) ↔ Passes env attrValueType type value) ∧
    (ReadAs env attrValueType type value value ↔ ComesBack env attrValueType type value) := by
  cases type with
  | int8 =>
    cases value with
    | number n =>
      obtain ⟨h32, h8⟩ := asSigned_32_of_fits (.inl rfl) h
      cases attrValueType <;> simp [h32, h8]
    | _ => cases h
  | int16 =>
    cases value with
    | number n =>
      obtain ⟨h32, h16⟩ := asSigned_32_of_fits (.inr (.inl rfl)) h
      cases attrValueType <;> simp [h32, h16]
    | _ => cases h
  | int32 =>
    cases value with
    | number n =>
      obtain ⟨h32, h32⟩ := asSigned_32_of_fits (.inr (.inr rfl)) h
      cases attrValueType <;> simp [h32]
    | _ => cases h
  | uint8 =>
    cases value with
    | number n =>
      obtain ⟨h32, h8⟩ := asUnsigned_32_of_fits (.inl rfl) h
      cases attrValueType <;> simp [h32, h8]
    | _ => cases h
  | uint16 =>
    cases value with
    | number n =>
      obtain ⟨h32, h16⟩ := asUnsigned_32_of_fits (.inr (.inl rfl)) h
      cases attrValueType <;> simp [h32, h16]
    | _ => cases h
  | uint32 =>
    cases value with
    | number n =>
      obtain ⟨h32, h32⟩ := asUnsigned_32_of_fits (.inr (.inr rfl)) h
      cases attrValueType <;> simp [h32]
    | _ => cases h
  | int64 =>
    cases value with
    | number n =>
      have h64 : asSigned 64 n = n := asSigned_of_fits (by decide) h
      cases attrValueType <;> simp [h64]
    | _ => cases h
  | uint64 =>
    cases value with
    | number n =>
      have h64 : asUnsigned 64 n = n := asUnsigned_of_fits h
      cases attrValueType <;> simp [h64]
    | _ => cases h
  | bool =>
    cases value with
    | flag b => cases attrValueType <;> cases b <;> simp [asSigned, asUnsigned]
    | _ => cases h
  | enum =>
    cases value with
    | number n => cases attrValueType <;> simp [asSigned_eq_iff, asUnsigned_eq_iff]
    | _ => cases h
  | decimal64 =>
    cases value with
    | number n =>
      have h64 : asUnsigned 64 n = n := asUnsigned_of_fits h
      cases attrValueType <;> simp [h64]
    | _ => cases h
  | string =>
    cases value with
    | text s => cases attrValueType <;> simp
    | null => simp
    | _ => cases h
  | reference =>
    cases value with
    | text dn =>
      constructor
      · simp only [readAs_reference, Passes]
        exact ⟨fun h => ⟨h.choose_spec.1, h.choose_spec.2.1⟩, fun h => ⟨_, h.1, h.2, rfl⟩⟩
      · rw [readAs_reference]
        simp
    | null => simp
    | _ => cases h

end

/-! ## The values of an attribute -/

section
variable {env : ValueEnv} {attrValueType : SaImmValueType}

theorem nul_notMem_immDn {value_t : SaImmValueType} {dcp : OamSADataClass} {immDn : String}
    (h : getImmValue env value_t dcp = some (.saName immDn)) : nul ∉ immDn.toList := by
  obtain ⟨type, value⟩ := dcp
  cases type with
  | reference =>
    cases value with
    | text dn =>
      rw [getImmValue] at h
      split at h <;> cases h
      exact env.nulFree dn
    | _ => cases h
  | decimal64 =>
    cases value with
    | number n =>
      rw [getImmValue] at h
      split at h <;> cases h
    | _ => cases h
  | string =>
    cases value with
    | text s =>
      rw [getImmValue] at h
      split at h <;> cases h
    | _ => cases h
  | _ => cases value <;> cases h

theorem copyValue_newValue {dcp : OamSADataClass} {tp : ImmValue} (h : newValue env attrValueType dcp = some tp) :
    copyValue tp = some tp := by
  unfold newValue at h
  obtain ⟨raw, hraw, hfill⟩ := Option.bind_eq_some_iff.mp h
  cases raw with
  | saName immDn =>
    have hnul := nul_notMem_immDn hraw
    cases attrValueType <;> try cases hfill
    by_cases hfits : (shortened immDn.toList).length < saMaxUnextendedNameLength
    · obtain ⟨name, hset, hwritten⟩ := SaName.saNameSet_fits hnul hfits
      have hcopy := SaName.saNameSet_saNameGet (SaName.nul_notMem_shortened hnul) hfits hwritten
      rw [fill, hset] at hfill
      cases hfill
      rw [copyValue, hcopy]
      rfl
    · rw [fill, SaName.saNameSet_long hnul (Nat.le_of_not_lt hfits)] at hfill
      cases hfill
  | _ => cases attrValueType <;> cases hfill <;> rfl

theorem copied_newValues {dcps : List OamSADataClass} {values : List ImmValue}
    (h : dcps.mapM (newValue env attrValueType) = some values) (type : SaImmValueType) (copies : Nat) :
    copied copies ⟨type, values⟩ = some ⟨type, values⟩ := by
  have hcopy : values.mapM copyValue = some values := by
    refine mapM_eq_some_iff.mpr (List.forall₂_same.mpr fun tp htp => ?_)
    obtain ⟨dcp, -, hnew⟩ := exists_of_mem_right (mapM_eq_some_iff.mp h) htp
    exact copyValue_newValue hnew
  induction copies with
  | zero => rfl
  | succ copies ih =>
    unfold copied CopyAllocAttributeValueArray
    rw [hcopy]
    exact ih

def sentType (theValueType : Option SaImmValueType) (v : MoAttributeValueContainer) : SaImmValueType :=
  theValueType.getD (if v.values = [] then ConvertComAttributeTypeToImmType v.type else getSaImmValueType v.type)

theorem createLoop_eq {theValueType : Option SaImmValueType} {type : MoAttributeType} {value_t : SaImmValueType}
    (htype : theValueType.getD (getSaImmValueType type) = value_t) (values : List MoValue) (sent : List ImmValue) :
    createLoop env theValueType (values.map (type, ·)) ⟨value_t, sent⟩ =
      ((values.map (type, ·)).mapM (newValue env value_t)).map fun new => ⟨value_t, sent ++ new⟩ := by
  induction values generalizing sent with
  | nil => simp [createLoop]
  | cons value values ih =>
    rw [List.map_cons, createLoop, List.mapM_cons]
    simp only [htype]
    cases newValue env value_t (type, value) with
    | none => rfl
    | some tp =>
      simp only [ih, Option.bind_eq_bind, Option.bind_some, Option.map_bind]
      cases (values.map (type, ·)).mapM (newValue env value_t) with
      | none => rfl
      | some new => simp

theorem CreateAttributeValueArray_altered (theValueType : Option SaImmValueType) (v : MoAttributeValueContainer)
    (old : Option DataContainer) :
    CreateAttributeValueArray env theValueType (ObjectData.alteredContainer v old) =
      ((v.values.map (v.type, ·)).mapM (newValue env (sentType theValueType v))).map fun new =>
        ⟨sentType theValueType v, new⟩ := by
  unfold ObjectData.alteredContainer sentType
  obtain ⟨type, values⟩ := v
  cases values with
  | nil => rfl
  | cons value values =>
    have hloop := @createLoop_eq env theValueType type _ rfl (value :: values) []
    simpa [CreateAttributeValueArray, createData] using hloop

theorem committed_iff {imm : ImmClassAttribute} {theValueType : Option SaImmValueType} {copies : Nat}
    {v : MoAttributeValueContainer}
    {old : Option DataContainer} {attr : ImmAttribute} :
    committed env imm theValueType copies (ObjectData.alteredContainer v old) = some attr ↔
      sentType theValueType v = imm.attrValueType ∧
      ∃ values, attr = ⟨imm.attrValueType, values⟩ ∧
        (v.values.map (v.type, ·)).mapM (newValue env imm.attrValueType) = some values := by
  unfold committed
  rw [CreateAttributeValueArray_altered]
  cases hvalues : (v.values.map (v.type, ·)).mapM (newValue env (sentType theValueType v)) with
  | none =>
    refine ⟨fun h => by simp at h, ?_⟩
    rintro ⟨htype, values, -, h⟩
    rw [← htype, hvalues] at h
    cases h
  | some new =>
    rw [Option.map_some, Option.bind_some, copied_newValues hvalues, Option.bind_some]
    by_cases htype : sentType theValueType v = imm.attrValueType
    · rw [imm.takes _ htype, Option.some.injEq, eq_comm, ← htype, hvalues]
      constructor
      · rintro rfl
        exact ⟨rfl, new, rfl, rfl⟩
      · rintro ⟨-, values, rfl, h⟩
        cases h
        rfl
    · rw [imm.refuses _ htype]
      exact iff_of_false (fun h => nomatch h) fun h => htype h.1

theorem Imm2MO_AttrValue_ok_iff {values : List ImmValue} {type : MoAttributeType} {result : ReadContainer} :
    Imm2MO_AttrValue env ⟨attrValueType, values⟩ type = some (.ok result) ↔
      ∃ backs, result = ⟨some type, backs⟩ ∧
        List.Forall₂ (fun tp back => toMoValue env type attrValueType tp = some (some back, true)) values backs := by
  have hcomp (backs : List MoValue) :
      List.Forall₂ (fun tp back => toMoValue env type attrValueType tp = some (some back, true)) values backs ↔
        ∃ answers, values.mapM (toMoValue env type attrValueType) = some answers ∧ answers.all Prod.snd = true ∧
          answers.mapM Prod.fst = some backs := by
    simp only [mapM_eq_some_iff, List.all_eq_true, ← List.forall₂_and_left, ← forall₂_comp_iff]
    refine ⟨fun h => h.imp fun tp back h => ⟨_, h, rfl, rfl⟩, fun h => h.imp ?_⟩
    rintro tp back ⟨⟨value, ok⟩, h, rfl, rfl⟩
    exact h
  unfold Imm2MO_AttrValue
  rw [Option.bind_eq_some_iff]
  constructor
  · rintro ⟨answers, hanswers, h⟩
    split at h
    · obtain ⟨backs, hbacks, rfl⟩ := by simpa using h
      rename_i hall
      exact ⟨backs, rfl, (hcomp backs).mpr ⟨answers, hanswers, hall, hbacks⟩⟩
    · cases h
  · rintro ⟨backs, rfl, h⟩
    obtain ⟨answers, hanswers, hall, hbacks⟩ := (hcomp backs).mp h
    refine ⟨answers, hanswers, ?_⟩
    rw [if_pos hall, hbacks]
    rfl

theorem read_committed_iff {imm : ImmClassAttribute} {theValueType : Option SaImmValueType} {copies : Nat}
    {v : MoAttributeValueContainer}
    {old : Option DataContainer} {result : ReadContainer} :
    (∃ attr, committed env imm theValueType copies (ObjectData.alteredContainer v old) = some attr ∧
      Imm2MO_AttrValue env attr v.type = some (.ok result)) ↔
      sentType theValueType v = imm.attrValueType ∧
      ∃ backs, result = ⟨some v.type, backs⟩ ∧ List.Forall₂ (ReadAs env imm.attrValueType v.type) v.values backs := by
  have hcomp (backs : List MoValue) : List.Forall₂ (ReadAs env imm.attrValueType v.type) v.values backs ↔
      ∃ values, (v.values.map (v.type, ·)).mapM (newValue env imm.attrValueType) = some values ∧
        List.Forall₂ (fun tp back => toMoValue env v.type imm.attrValueType tp = some (some back, true)) values
          backs := by
    simp only [mapM_eq_some_iff, List.forall₂_map_left_iff, ← forall₂_comp_iff]
    refine ⟨fun h => h.imp fun value back h => ?_, fun h => h.imp fun value back h => ?_⟩
    · exact Option.bind_eq_some_iff.mp h
    · exact Option.bind_eq_some_iff.mpr h
  constructor
  · rintro ⟨attr, hcommitted, hread⟩
    obtain ⟨htype, values, rfl, hvalues⟩ := committed_iff.mp hcommitted
    obtain ⟨backs, rfl, hbacks⟩ := Imm2MO_AttrValue_ok_iff.mp hread
    exact ⟨htype, backs, rfl, (hcomp backs).mpr ⟨values, hvalues, hbacks⟩⟩
  · rintro ⟨htype, backs, rfl, hbacks⟩
    obtain ⟨values, hvalues, hread⟩ := (hcomp backs).mp hbacks
    exact ⟨⟨imm.attrValueType, values⟩, committed_iff.mpr ⟨htype, values, rfl, hvalues⟩,
      Imm2MO_AttrValue_ok_iff.mpr ⟨backs, rfl, hread⟩⟩

end

/-! ## Both reads -/

section
variable {env : ValueEnv} {attrValueType : SaImmValueType}

theorem getFromImm_ok_iff {attributeName : String} {attr : ImmAttribute} {attrType : MoAttributeType}
    {result : ReadContainer} :
    getFromImm env attributeName attr attrType = some (.ok result) ↔
      ∃ ctp, Imm2MO_AttrValue env attr attrType = some (.ok ctp) ∧ withoutOwnName attributeName ctp = result := by
  unfold getFromImm
  cases Imm2MO_AttrValue env attr attrType with
  | none => simp
  | some answer => cases answer <;> simp

theorem findAttribute_set {tr : Translator} {dn : List String} {attributeName : String}
    {v : MoAttributeValueContainer} {c : Cache} (hset : (setImmMoAttribute tr dn attributeName v c).1 = .ok) :
    ∃ old, findAttribute dn attributeName (setImmMoAttribute tr dn attributeName v c).2.modified =
      some (ObjectData.alteredContainer v old) := by
  unfold setImmMoAttribute Cache.updateObjectAttribute at *
  split at hset
  · cases hset
  · rename_i hvalid
    rw [if_neg hvalid]
    split at hset
    · cases hset
    · rename_i hdel
      refine ⟨SortedMap.get? attributeName ((objectAt dn c.modified).getD {}).attributes, ?_⟩
      rw [if_neg hdel, if_neg hdel, findAttribute_eq]
      unfold ModifiedObjects.insert
      dsimp only
      rw [objectAt_addNames, if_pos rfl, Option.bind_some, asAltered_attributes, SortedMap.get?_put, if_pos rfl]

theorem getFromCache_set {tr : Translator} {dn : List String} {attributeName : String}
    {v : MoAttributeValueContainer} {c : Cache} (hset : (setImmMoAttribute tr dn attributeName v c).1 = .ok) :
    getFromCache dn attributeName (setImmMoAttribute tr dn attributeName v c).2 =
      some (withoutOwnName attributeName v.read) := by
  obtain ⟨old, hfound⟩ := findAttribute_set hset
  unfold getFromCache Cache.getAttribute
  rw [hfound, Option.map_some, Option.map_some, read_alteredContainer]

theorem read_set_iff {imm : ImmClassAttribute} {tr : Translator} {theValueType : Option SaImmValueType} {copies : Nat}
    {dn : List String}
    {attributeName : String} {v : MoAttributeValueContainer} {c : Cache}
    (hset : (setImmMoAttribute tr dn attributeName v c).1 = .ok) {result : ReadContainer} :
    (∃ attr, committedAttribute env imm theValueType copies dn attributeName
        (setImmMoAttribute tr dn attributeName v c).2 = some attr ∧
      getFromImm env attributeName attr v.type = some (.ok result)) ↔
      sentType theValueType v = imm.attrValueType ∧
      ∃ backs, withoutOwnName attributeName ⟨some v.type, backs⟩ = result ∧
        List.Forall₂ (ReadAs env imm.attrValueType v.type) v.values backs := by
  obtain ⟨old, hfound⟩ := findAttribute_set hset
  have hread (ctp : ReadContainer) := @read_committed_iff env imm theValueType copies v old ctp
  unfold committedAttribute
  rw [hfound, Option.bind_some]
  constructor
  · rintro ⟨attr, hcommitted, hget⟩
    obtain ⟨ctp, hok, hresult⟩ := getFromImm_ok_iff.mp hget
    obtain ⟨htype, backs, rfl, hbacks⟩ := (hread ctp).mp ⟨attr, hcommitted, hok⟩
    exact ⟨htype, backs, hresult, hbacks⟩
  · rintro ⟨htype, backs, hresult, hbacks⟩
    obtain ⟨attr, hcommitted, hok⟩ := (hread ⟨some v.type, backs⟩).mpr ⟨htype, backs, rfl, hbacks⟩
    exact ⟨attr, hcommitted, getFromImm_ok_iff.mpr ⟨_, hok, hresult⟩⟩

theorem readAs_string {value back : MoValue} (h : ReadAs env attrValueType .string value back) : back = value := by
  cases value with
  | text s =>
    cases attrValueType <;> simp [ReadAs, newValue, getImmValue, fill, toMoValue] at h
    exact h.symm
  | _ => simp [ReadAs, newValue, getImmValue] at h

theorem readAs_unique {type : MoAttributeType} :
    Relator.RightUnique (ReadAs env attrValueType type) := by
  intro value back back' h h'
  have heq := h.symm.trans h'
  simpa using heq

theorem withoutOwnName_eq_iff {attributeName : String} {type : MoAttributeType} {values backs : List MoValue}
    (h : List.Forall₂ (ReadAs env attrValueType type) values backs) :
    withoutOwnName attributeName ⟨some type, backs⟩ = withoutOwnName attributeName ⟨some type, values⟩ ↔
      backs = values := by
  refine ⟨fun heq => ?_, fun heq => by rw [heq]⟩
  by_cases htype : type = .string
  · subst htype
    have hsame := h.imp fun _ _ hread => (readAs_string hread).symm
    rw [List.forall₂_eq_eq_eq] at hsame
    exact hsame.symm
  · have hid (values : List MoValue) : withoutOwnName attributeName ⟨some type, values⟩ = ⟨some type, values⟩ := by
      unfold withoutOwnName
      rw [if_neg]
      simpa using htype
    rw [hid, hid] at heq
    exact congrArg ReadContainer.values heq

theorem stripOwnName_eq_iff {attributeName s : String} :
    stripOwnName attributeName (.text s) = .text s ↔ ¬ (attributeName ++ "=").toList <+: s.toList := by
  rw [stripOwnName]
  by_cases hprefix : (attributeName ++ "=").toList <+: s.toList
  · rw [if_pos hprefix]
    refine iff_of_false (fun h => ?_) (not_not_intro hprefix)
    have hle := hprefix.length_le
    have hlength := congrArg (fun s => s.toList.length) (MoValue.text.inj h)
    simp at hle hlength
    omega
  · rw [if_neg hprefix]
    exact iff_of_true rfl hprefix

theorem withoutOwnName_written_iff {attributeName : String} {v : TypedContainer} :
    withoutOwnName attributeName v.written = v.written ↔
      (v.type = .string → ∀ s, .text s ∈ v.values → ¬ (attributeName ++ "=").toList <+: s.toList) := by
  unfold withoutOwnName MoAttributeValueContainer.written
  by_cases htype : v.type = .string
  · have hstrip : v.values.map (stripOwnName attributeName) = v.values ↔
        ∀ value ∈ v.values, stripOwnName attributeName value = value := by
      conv_lhs => rhs; rw [← List.map_id v.values]
      exact List.map_inj_left
    rw [if_pos (congrArg some htype)]
    simp only [ReadContainer.mk.injEq, true_and, hstrip, htype, forall_const]
    refine ⟨fun h s hs => stripOwnName_eq_iff.mp (h _ hs), fun h value hvalue => ?_⟩
    cases value with
    | text s => exact stripOwnName_eq_iff.mpr (h s hvalue)
    | _ => rfl
  · rw [if_neg fun h => htype (Option.some.inj h)]
    exact iff_of_true rfl fun h => absurd h htype

theorem withoutOwnName_read_iff {attributeName : String} {v : TypedContainer} :
    withoutOwnName attributeName v.read = v.written ↔
      MoValue.null ∉ v.values ∧
      (v.type = .string → ∀ s, .text s ∈ v.values → ¬ (attributeName ++ "=").toList <+: s.toList) := by
  by_cases hnull : MoValue.null ∈ v.values
  · refine iff_of_false (fun h => ?_) fun h => h.1 hnull
    have hundefined : MoValue.undefined ∈ (withoutOwnName attributeName v.read).values := by
      unfold withoutOwnName MoAttributeValueContainer.read
      have hread : MoValue.undefined ∈ v.values.map getComOamValue := List.mem_map.mpr ⟨.null, hnull, rfl⟩
      split
      · exact List.mem_map.mpr ⟨_, hread, rfl⟩
      · exact hread
    rw [h] at hundefined
    have hholds := v.typed _ hundefined
    cases hv : v.type <;> rw [hv] at hholds <;> cases hholds
  · rw [read_eq_written_iff.mpr hnull, withoutOwnName_written_iff]
    exact (and_iff_right hnull).symm

theorem null_notMem_of_readAs {type : MoAttributeType} {values backs : List MoValue}
    (h : List.Forall₂ (ReadAs env attrValueType type) values backs) : MoValue.null ∉ values := by
  intro hnull
  obtain ⟨back, -, hback⟩ := exists_of_mem_right h.flip hnull
  cases type <;> simp [newValue, getImmValue] at hback

end

/-! ## An enum that is less than zero -/

def plainEnv : ValueEnv where
  MO2Imm_DN dn := if nul ∈ dn.toList then "" else dn
  Imm2MO_DN immDn := immDn
  floatToDouble n := n
  bExtendedNameEnabled := false
  notExtended := rfl
  doubleToFloat n := n
  nulFree dn := by split <;> simp_all

def plainTranslator : Translator where
  mo2ImmDn := String.intercalate ","
  containmentValid _ _ := true
  getImmKeyAttribute _ _ key := key
  translateClassName _ name := name
  comAttributeList _ := []
  isImmRoot name := name.length = 1

def unknownState : TypedContainer where
  type := .enum
  values := [.number 7, .number (-1)]
  typed := by simp [MoAttributeType.Holds, FitsSigned]

def immAttribute (attrValueType : SaImmValueType) : ImmClassAttribute where
  attrValueType := attrValueType
  saImmOmCcbObjectModify_2 modAttr := if modAttr.attrValueType = attrValueType then some modAttr else none
  takes _ h := if_pos h
  refuses _ h := if_neg h

def stateIsSet : Cache :=
  (setImmMoAttribute plainTranslator ["A=1"] "state" unknownState.toMoAttributeValueContainer {}).2

end ComSA.ImmValues
