import ComSA.Motransaction.ActionParameters
import Mathlib.Data.BitVec

/-!
# Attribute values of both sides

A value of a managed object is a union, and one of IMM is a buffer whose size its type tells. They are
copied by type in both directions.
-/

namespace ComSA.OIproxy

open Action (SaImmValueType)

/-! ## Values -/

/-- The union `MafMoAttributeValue_3T`: its eight bytes, or the string it points to. -/
inductive MafMoAttributeValue where
  | word (bytes : BitVec 64)
  | text (s : String)
  deriving DecidableEq, Repr

inductive SaImmAttrValue where
  | four (bytes : BitVec 32)
  | eight (bytes : BitVec 64)
  | string (s : String)
  | name (s : String)
  deriving DecidableEq, Repr

structure SaImmAttrValues where
  attrName : String
  attrValueType : SaImmValueType
  attrValues : List SaImmAttrValue
  deriving DecidableEq, Repr

structure SaImmAttrDefinition where
  attrName : String
  attrValueType : SaImmValueType
  deriving DecidableEq, Repr

/-- `MafMoAttributeValueContainer_3T`, of a type that is no struct. -/
structure AttributeContainer where
  type : MoAttributeType
  values : List MafMoAttributeValue
  deriving DecidableEq, Repr

/-- What is not in the code: floating point, the names of IMM, and memory that was not written to. -/
structure AttributeEnv where
  saNameMaxLen : Nat
  ImmRdn2MOTop : String → String
  doubleToUint32 : BitVec 64 → BitVec 32
  doubleToUint64 : BitVec 64 → BitVec 64
  doubleToFloat : BitVec 64 → BitVec 32
  intToDouble : Int → BitVec 64
  intToFloat : Int → BitVec 32
  unwritten : BitVec 64

/-! ## The fields of the union -/

namespace MafMoAttributeValue

def bits (w : Nat) : MafMoAttributeValue → BitVec w
  | word bytes => bytes.setWidth w
  | text _ => 0

def theBool (v : MafMoAttributeValue) : Bool := v.bits 8 ≠ 0

def string : MafMoAttributeValue → Option String
  | text s => some s
  | word _ => none

end MafMoAttributeValue

def boolBits (w : Nat) (b : Bool) : BitVec w := if b then 1 else 0

variable (env : AttributeEnv)

/-- Only the bytes of the field are written. -/
def setField {w : Nat} (hw : w ≤ 64) (b : BitVec w) : MafMoAttributeValue :=
  .word (((env.unwritten.extractLsb' w (64 - w)) ++ b).cast (Nat.sub_add_cancel hw))

/-! ## From the managed object to IMM -/

def toFourBytes (type : MoAttributeType) (v : MafMoAttributeValue) : BitVec 32 :=
  match type with
  | .int8 => (v.bits 8).signExtend 32
  | .uint8 => (v.bits 8).setWidth 32
  | .int16 => (v.bits 16).signExtend 32
  | .uint16 => (v.bits 16).setWidth 32
  | .enum => (v.bits 64).setWidth 32
  | .bool => boolBits 32 v.theBool
  | .decimal64 => env.doubleToUint32 (v.bits 64)
  | _ => v.bits 32

def toEightBytes (type : MoAttributeType) (v : MafMoAttributeValue) : BitVec 64 :=
  match type with
  | .int8 => (v.bits 8).signExtend 64
  | .uint8 => (v.bits 8).setWidth 64
  | .int16 => (v.bits 16).signExtend 64
  | .uint16 => (v.bits 16).setWidth 64
  | .int32 => (v.bits 32).signExtend 64
  | .uint32 => (v.bits 32).setWidth 64
  | .enum => v.bits 64
  | .bool => boolBits 64 v.theBool
  | .decimal64 => env.doubleToUint64 (v.bits 64)
  | _ => v.bits 64

def toInteger (type : MoAttributeType) (v : MafMoAttributeValue) : Int :=
  match type with
  | .int8 => (v.bits 8).toInt
  | .uint8 => (v.bits 8).toNat
  | .int16 => (v.bits 16).toInt
  | .uint16 => (v.bits 16).toNat
  | .int32 => (v.bits 32).toInt
  | .uint32 => (v.bits 32).toNat
  | .bool => (boolBits 64 v.theBool).toNat
  | _ => (v.bits 64).toInt

def toDouble (type : MoAttributeType) (v : MafMoAttributeValue) : BitVec 64 :=
  if type = .decimal64 then v.bits 64 else env.intToDouble (toInteger type v)

def toFloat (type : MoAttributeType) (v : MafMoAttributeValue) : BitVec 32 :=
  if type = .decimal64 then env.doubleToFloat (v.bits 64) else env.intToFloat (toInteger type v)

def copyValue (type : MoAttributeType) (attrValueType : SaImmValueType) (v : MafMoAttributeValue) :
    Option SaImmAttrValue :=
  match attrValueType with
  | .saString => if type ≠ .string then none else v.string.map .string
  | .saName =>
    if type ≠ .string then none
    else v.string.bind fun s => if env.saNameMaxLen < s.utf8ByteSize then none else some (.name s)
  | .saInt32 | .saUint32 => some (.four (toFourBytes env type v))
  | .saInt64 | .saUint64 => some (.eight (toEightBytes env type v))
  | .saDouble => some (.eight (toDouble env type v))
  | .saFloat => some (.four (toFloat env type v))
  | .saTime | .saAny => none

def copyMoAttrToImm (attrValue : AttributeContainer) (attrDef : SaImmAttrDefinition) : Option SaImmAttrValues :=
  if (attrDef.attrValueType = .saString ∨ attrDef.attrValueType = .saName) ∧ attrValue.type ≠ .string then none
  else (attrValue.values.mapM (copyValue env attrValue.type attrDef.attrValueType)).map fun values =>
    ⟨attrDef.attrName, attrDef.attrValueType, values⟩

/-! ## From IMM to the managed object -/

/-- Reading eight bytes of four is not defined, and neither is a number read as a string. -/
def readFour : SaImmAttrValue → Option (BitVec 32)
  | .four bytes => some bytes
  | .eight bytes => some (bytes.setWidth 32)
  | _ => none

def readEight : SaImmAttrValue → Option (BitVec 64)
  | .eight bytes => some bytes
  | _ => none

def createValue (type : MoAttributeType) (attrValueType : SaImmValueType) (v : SaImmAttrValue) :
    Option MafMoAttributeValue :=
  match type with
  | .string =>
    match v with
    | .name s => if attrValueType = .saName then some (.text s) else none
    | .string s => if attrValueType = .saName then none else some (.text s)
    | _ => none
  | .reference =>
    match v with
    | .name immDN => some (.text (env.ImmRdn2MOTop immDN))
    | _ => none
  | .int64 | .uint64 => (readEight v).map (setField env (le_refl 64))
  | .int32 | .uint32 => (readFour v).map (setField env (by decide))
  | .int16 | .uint16 => (readFour v).map fun b => setField env (by decide) (b.setWidth 16)
  | .int8 | .uint8 => (readFour v).map fun b => setField env (by decide) (b.setWidth 8)
  | .enum =>
    (readFour v).map fun b =>
      setField env (le_refl 64) (if attrValueType = .saUint32 then b.setWidth 64 else b.signExtend 64)
  | .bool => (readFour v).map fun b => setField env (by decide) (boolBits 8 (b ≠ 0))
  | .decimal64 => (readEight v).map (setField env (le_refl 64))

def createAttributeContainerContent (immAttr : SaImmAttrValues) (type : MoAttributeType) :
    Option AttributeContainer :=
  (immAttr.attrValues.mapM (createValue env type immAttr.attrValueType)).map fun values => ⟨type, values⟩

/-! ## What they have to keep -/

/-- A value as its type tells it. A double is told by its bits. -/
def valueOf (type : MoAttributeType) (v : MafMoAttributeValue) : Option MoValue :=
  match type with
  | .int8 => some (.number (v.bits 8).toInt)
  | .int16 => some (.number (v.bits 16).toInt)
  | .int32 => some (.number (v.bits 32).toInt)
  | .int64 | .enum => some (.number (v.bits 64).toInt)
  | .uint8 => some (.number (v.bits 8).toNat)
  | .uint16 => some (.number (v.bits 16).toNat)
  | .uint32 => some (.number (v.bits 32).toNat)
  | .uint64 | .decimal64 => some (.number (v.bits 64).toNat)
  | .bool => some (.flag v.theBool)
  | .string | .reference => v.string.map .text

def UsedFor : MoAttributeType → SaImmValueType → Prop
  | .string, .saString => True
  | .reference, .saName => True
  | .int64, t | .uint64, t => t = .saInt64 ∨ t = .saUint64
  | .decimal64, .saDouble => True
  | .int8, t | .uint8, t | .int16, t | .uint16, t | .int32, t | .uint32, t | .enum, t | .bool, t =>
    t = .saInt32 ∨ t = .saUint32
  | _, _ => False

def Representable (type : MoAttributeType) (attrValueType : SaImmValueType) (v : MafMoAttributeValue) : Prop :=
  match valueOf type v with
  | none | some .null | some .undefined => False
  | some (.text s) => attrValueType = .saName → s.utf8ByteSize ≤ env.saNameMaxLen
  | some (.flag _) => True
  | some (.number n) =>
    match attrValueType with
    | .saInt32 => -2 ^ 31 ≤ n ∧ n < 2 ^ 31
    | .saUint32 => 0 ≤ n ∧ n < 2 ^ 32
    | .saInt64 => -2 ^ 63 ≤ n ∧ n < 2 ^ 63
    | .saUint64 => 0 ≤ n ∧ n < 2 ^ 64
    | _ => True

def comesBack (type : MoAttributeType) : MoValue → MoValue
  | .text s => .text (if type = .reference then env.ImmRdn2MOTop s else s)
  | v => v

def RoundTrips (type : MoAttributeType) (attrDef : SaImmAttrDefinition) (values : List MafMoAttributeValue) :
    Prop :=
  ∃ attr container, copyMoAttrToImm env ⟨type, values⟩ attrDef = some attr ∧
    createAttributeContainerContent env attr type = some container ∧ container.type = type ∧
    container.values.map (valueOf type) = values.map fun v => (valueOf type v).map (comesBack env type)

/-! ## Widths -/

@[simp] theorem bits_setField {w : Nat} (hw : w ≤ 64) (b : BitVec w) : (setField env hw b).bits w = b := by
  rw [setField, MafMoAttributeValue.bits, BitVec.setWidth_cast, BitVec.setWidth_append_eq_right]

theorem setWidth_signExtend {w : Nat} (b : BitVec w) (hw : w ≤ 32) : (b.signExtend 32).setWidth w = b := by
  ext i hi
  simp [BitVec.getElem_signExtend, hi, show i < 32 by omega]

theorem signed_four {b : BitVec 64} (h : -2 ^ 31 ≤ b.toInt ∧ b.toInt < 2 ^ 31) :
    (b.setWidth 32).signExtend 64 = b := by
  apply BitVec.eq_of_toInt_eq
  rw [BitVec.toInt_signExtend_of_le (by decide), BitVec.toInt_setWidth, Int.bmod_def]
  have hlt := b.isLt
  have hint := b.toInt_eq_toNat_cond
  split at hint <;> split <;> omega

theorem unsigned_four {b : BitVec 64} (h : 0 ≤ b.toInt ∧ b.toInt < 2 ^ 32) : (b.setWidth 32).setWidth 64 = b := by
  apply BitVec.eq_of_toNat_eq
  rw [BitVec.toNat_setWidth, BitVec.toNat_setWidth]
  have hlt := b.isLt
  have hint := b.toInt_eq_toNat_cond
  split at hint <;> omega

/-! ## One value -/

theorem value_roundTrips {type : MoAttributeType} {attrValueType : SaImmValueType} {v : MafMoAttributeValue}
    (hused : UsedFor type attrValueType) (htype : type ≠ .reference)
    (hrep : Representable env type attrValueType v) :
    ∃ imm back, copyValue env type attrValueType v = some imm ∧
      createValue env type attrValueType imm = some back ∧
      valueOf type back = (valueOf type v).map (comesBack env type) := by
  cases type with
  | reference => exact absurd rfl htype
  | string =>
    cases attrValueType <;> try cases hused
    cases v with
    | word bytes => cases hrep
    | text s => exact ⟨.string s, .text s, rfl, rfl, rfl⟩
  | int8 =>
    rcases hused with rfl | rfl <;> refine ⟨_, _, rfl, rfl, ?_⟩ <;>
      simp [valueOf, toFourBytes, setWidth_signExtend, comesBack]
  | int16 =>
    rcases hused with rfl | rfl <;> refine ⟨_, _, rfl, rfl, ?_⟩ <;>
      simp [valueOf, toFourBytes, setWidth_signExtend, comesBack]
  | uint8 =>
    rcases hused with rfl | rfl <;> refine ⟨_, _, rfl, rfl, ?_⟩ <;>
      simp [valueOf, toFourBytes, comesBack]
  | uint16 =>
    rcases hused with rfl | rfl <;> refine ⟨_, _, rfl, rfl, ?_⟩ <;>
      simp [valueOf, toFourBytes, comesBack]
  | int32 =>
    rcases hused with rfl | rfl <;> refine ⟨_, _, rfl, rfl, ?_⟩ <;> simp [valueOf, toFourBytes, comesBack]
  | uint32 =>
    rcases hused with rfl | rfl <;> refine ⟨_, _, rfl, rfl, ?_⟩ <;> simp [valueOf, toFourBytes, comesBack]
  | int64 =>
    rcases hused with rfl | rfl <;> refine ⟨_, _, rfl, rfl, ?_⟩ <;> simp [valueOf, toEightBytes, comesBack]
  | uint64 =>
    rcases hused with rfl | rfl <;> refine ⟨_, _, rfl, rfl, ?_⟩ <;> simp [valueOf, toEightBytes, comesBack]
  | enum =>
    rcases hused with rfl | rfl
    · refine ⟨_, _, rfl, rfl, ?_⟩
      simp [valueOf, toFourBytes, comesBack, signed_four hrep]
    · refine ⟨_, _, rfl, rfl, ?_⟩
      simp [valueOf, toFourBytes, comesBack, unsigned_four hrep]
  | bool =>
    by_cases hv : v.bits 8 = 0 <;> rcases hused with rfl | rfl <;> refine ⟨_, _, rfl, rfl, ?_⟩ <;>
      simp [valueOf, toFourBytes, comesBack, MafMoAttributeValue.theBool, boolBits, hv]
  | decimal64 =>
    cases attrValueType <;> try cases hused
    refine ⟨_, _, rfl, rfl, ?_⟩
    simp [valueOf, toDouble, comesBack]

/-! ## All values -/

theorem values_roundTrip {type : MoAttributeType} {attrValueType : SaImmValueType}
    {values : List MafMoAttributeValue} (hused : UsedFor type attrValueType) (htype : type ≠ .reference)
    (hrep : ∀ v ∈ values, Representable env type attrValueType v) :
    ∃ imms backs, values.mapM (copyValue env type attrValueType) = some imms ∧
      imms.mapM (createValue env type attrValueType) = some backs ∧
      backs.map (valueOf type) = values.map fun v => (valueOf type v).map (comesBack env type) := by
  induction values with
  | nil => exact ⟨[], [], rfl, rfl, rfl⟩
  | cons v values ih =>
    obtain ⟨imm, back, hcopy, hcreate, hvalue⟩ := value_roundTrips env hused htype (hrep v List.mem_cons_self)
    obtain ⟨imms, backs, hcopies, hcreates, hvalues⟩ := ih fun v hv => hrep v (List.mem_cons_of_mem _ hv)
    refine ⟨imm :: imms, back :: backs, ?_, ?_, ?_⟩
    · rw [List.mapM_cons, hcopy, hcopies]
      rfl
    · rw [List.mapM_cons, hcreate, hcreates]
      rfl
    · rw [List.map_cons, List.map_cons, hvalue, hvalues]

/-- The values of every type come back but for references, which are not copied. -/
theorem attributeValues_comeBack_iff {type : MoAttributeType} {attrDef : SaImmAttrDefinition}
    {values : List MafMoAttributeValue} (hused : UsedFor type attrDef.attrValueType)
    (hrep : ∀ v ∈ values, Representable env type attrDef.attrValueType v) :
    RoundTrips env type attrDef values ↔ type ≠ .reference := by
  constructor
  · rintro ⟨attr, container, hcopy, -⟩ rfl
    have hname : attrDef.attrValueType = .saName := by
      revert hused
      cases attrDef.attrValueType <;> first | exact fun _ => rfl | exact fun h => nomatch h
    rw [copyMoAttrToImm, if_pos ⟨Or.inr hname, nofun⟩] at hcopy
    cases hcopy
  · intro htype
    obtain ⟨imms, backs, hcopies, hcreates, hvalues⟩ := values_roundTrip env hused htype hrep
    have hstring : ¬ ((attrDef.attrValueType = .saString ∨ attrDef.attrValueType = .saName) ∧ type ≠ .string) := by
      revert hused
      cases type <;> cases attrDef.attrValueType <;> simp [UsedFor] at htype ⊢
    refine ⟨⟨attrDef.attrName, attrDef.attrValueType, imms⟩, ⟨type, backs⟩, ?_, ?_, rfl, hvalues⟩
    · rw [copyMoAttrToImm, if_neg hstring, hcopies]
      rfl
    · rw [createAttributeContainerContent, hcreates]
      rfl

/-- The least and the greatest enum of four bytes. -/
theorem roundTrips_enum :
    RoundTrips ⟨255, id, fun _ => 0, id, fun _ => 0, fun _ => 0, fun _ => 0, 0⟩ .enum ⟨"state", .saInt32⟩
      [.word (BitVec.ofInt 64 (-2147483648)), .word 2147483647] := by
  have hused : UsedFor .enum .saInt32 := Or.inl rfl
  refine (attributeValues_comeBack_iff _ hused fun v hv => ?_).mpr nofun
  rcases List.mem_pair.mp hv with rfl | rfl <;> exact ⟨by decide, by decide⟩

/-- A name is only copied from a string. -/
theorem not_roundTrips :
    ¬ RoundTrips ⟨255, id, fun _ => 0, id, fun _ => 0, fun _ => 0, fun _ => 0, 0⟩ .reference ⟨"peer", .saName⟩
      [.text "A=1"] := by
  rintro ⟨attr, container, hcopy, -⟩
  cases hcopy

end ComSA.OIproxy
