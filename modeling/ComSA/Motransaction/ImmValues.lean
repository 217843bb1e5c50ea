import ComSA.Motransaction.StructAttribute
import ComSA.Motransaction.ActionParameters
import ComSA.Utils.SaName

/-!
# Attribute values in IMM

What a transaction has written goes to IMM in memory of the type that IMM has for the attribute. What is read from
IMM becomes a value of the type that the model has for it.
-/

namespace ComSA.ImmValues

open Action (SaImmValueType)
open ModifiedObjects
open SaName (OldSaNameT nul)

/-! ## Values of IMM -/

/-- A float and a double are held by their bits. The pointer of a string may be NULL. -/
inductive ImmValue where
  | number (n : Int)
  | string (s : Option String)
  | name (name : OldSaNameT)
  | any (buffer : List Char)
  deriving DecidableEq

structure ImmAttribute where
  attrValueType : SaImmValueType
  attrValues : List ImmValue
  deriving DecidableEq

/-- How names and numbers of one side read on the other. Names in IMM are C strings, and none is extended. -/
structure ValueEnv extends Action.TranslateEnv where
  notExtended : bExtendedNameEnabled = false
  doubleToFloat : Int → Int
  nulFree : ∀ dn, nul ∉ (MO2Imm_DN dn).toList

variable (env : ValueEnv)

/-! ## From the cache to IMM -/

def getSaImmValueType : MoAttributeType → SaImmValueType
  | .int8 | .int16 | .int32 | .enum => .saInt32
  | .uint8 | .uint16 | .uint32 | .bool => .saUint32
  | .int64 => .saInt64
  | .uint64 => .saUint64
  | .decimal64 => .saDouble
  | .string => .saString
  | .reference => .saName

def ConvertComAttributeTypeToImmType : MoAttributeType → SaImmValueType
  | .uint8 | .uint16 | .uint32 | .bool | .enum => .saUint32
  | .int8 | .int16 | .int32 => .saInt32
  | .uint64 => .saUint64
  | .int64 => .saInt64
  | .string => .saString
  | .reference => .saName
  | .decimal64 => .saDouble

inductive RawValue where
  | fourBytes (n : Int)
  | eightBytes (n : Int)
  | chars (s : String)
  | saName (immDn : String)
  deriving DecidableEq, Repr

/-- The `GetImmValue` of each class. A string and a reference are only written where the type is theirs, and where
their pointer is not NULL. -/
def getImmValue (myImmValueType : SaImmValueType) : OamSADataClass → Option RawValue
  | (.int8, .number n) | (.int16, .number n) | (.int32, .number n) | (.enum, .number n)
  | (.uint8, .number n) | (.uint16, .number n) | (.uint32, .number n) => some (.fourBytes n)
  | (.bool, .flag b) => some (.fourBytes (if b then 1 else 0))
  | (.int64, .number n) | (.uint64, .number n) => some (.eightBytes n)
  | (.decimal64, .number n) =>
    some (if myImmValueType = .saDouble then .eightBytes n else .fourBytes (env.doubleToFloat n))
  | (.string, .text s) => if myImmValueType = .saString then some (.chars s) else none
  | (.reference, .text dn) => if myImmValueType = .saName then some (.saName (env.MO2Imm_DN dn)) else none
  | _ => none

/-- The new memory after it was written. There is no value where a part of it was not written, or where the write went
beyond its end. -/
def fill : SaImmValueType → RawValue → Option ImmValue
  | .saInt32, .fourBytes n => some (.number (asSigned 32 n))
  | .saUint32, .fourBytes n | .saFloat, .fourBytes n => some (.number (asUnsigned 32 n))
  | .saInt64, .eightBytes n | .saTime, .eightBytes n => some (.number (asSigned 64 n))
  | .saUint64, .eightBytes n | .saDouble, .eightBytes n => some (.number (asUnsigned 64 n))
  | .saString, .chars s => some (.string (some s))
  | .saName, .saName immDn => (SaName.saNameSet (immDn.toList ++ [nul])).map fun r => .name r.2
  | _, _ => none

def newValue (value_t : SaImmValueType) (dcp : OamSADataClass) : Option ImmValue :=
  (getImmValue env value_t dcp).bind (fill value_t)

/-- `theValueType` is what IMM says about the attribute, if it does. -/
def createLoop (theValueType : Option SaImmValueType) : List OamSADataClass → ImmAttribute → Option ImmAttribute
  | [], vp => some vp
  | dcp :: rest, vp =>
    let value_t := theValueType.getD (getSaImmValueType dcp.1)
    match newValue env value_t dcp with
    | none => none
    | some tp => createLoop theValueType rest ⟨value_t, vp.attrValues ++ [tp]⟩

def CreateAttributeValueArray (theValueType : Option SaImmValueType) (doc : DataContainer) : Option ImmAttribute :=
  match doc.data with
  | [] => doc.attributeType.map fun type => ⟨theValueType.getD (ConvertComAttributeTypeToImmType type), []⟩
  | dcp :: _ => createLoop env theValueType doc.data ⟨theValueType.getD (getSaImmValueType dcp.1), []⟩

def copyValue : ImmValue → Option ImmValue
  | .number n => some (.number n)
  | .string s => s.map fun sp => .string (some sp)
  | .name sp => (SaName.saNameSet (SaName.saNameGet sp)).map fun r => .name r.2
  | .any buffer => some (.any buffer)

def CopyAllocAttributeValueArray (attr : ImmAttribute) : Option ImmAttribute :=
  (attr.attrValues.mapM copyValue).map fun vp => { attr with attrValues := vp }

def copied : Nat → ImmAttribute → Option ImmAttribute
  | 0, attr => some attr
  | n + 1, attr => (CopyAllocAttributeValueArray attr).bind (copied n)

/-- An attribute of a class in IMM. What it holds after `saImmOmCcbObjectModify_2` replaced its values is up to IMM,
which takes values of the type of the attribute and turns down all others. -/
structure ImmClassAttribute where
  attrValueType : SaImmValueType
  saImmOmCcbObjectModify_2 : ImmAttribute → Option ImmAttribute
  takes : ∀ modAttr, modAttr.attrValueType = attrValueType → saImmOmCcbObjectModify_2 modAttr = some modAttr
  refuses : ∀ modAttr, modAttr.attrValueType ≠ attrValueType → saImmOmCcbObjectModify_2 modAttr = none

def committed (imm : ImmClassAttribute) (theValueType : Option SaImmValueType) (copies : Nat)
    (doc : DataContainer) : Option ImmAttribute :=
  ((CreateAttributeValueArray env theValueType doc).bind (copied copies)).bind imm.saImmOmCcbObjectModify_2

/-! ## From IMM -/

/-- A union whose field was set to zero. A NULL pointer is no value. -/
def zeroOf : MoAttributeType → Option MoValue
  | .bool => some (.flag false)
  | .string | .reference => none
  | _ => some (.number 0)

def ofInt32 (n : Int) : MoAttributeType → Option MoValue × Bool
  | .int32 => (some (.number n), true)
  | .int16 => (some (.number (asSigned 16 n)), true)
  | .int8 => (some (.number (asSigned 8 n)), true)
  | .enum => (some (.number n), true)
  | .bool => (some (.flag (n ≠ 0)), true)
  | attrType => (zeroOf attrType, false)

def ofUint32 (n : Int) : MoAttributeType → Option MoValue × Bool
  | .uint32 => (some (.number n), true)
  | .uint16 => (some (.number (asUnsigned 16 n)), true)
  | .uint8 => (some (.number (asUnsigned 8 n)), true)
  | .enum => (some (.number n), true)
  | .bool => (some (.flag (n ≠ 0)), true)
  | attrType => (zeroOf attrType, false)

/-- Where another type than this is asked for there is a zero, and no failure. -/
def orZero (type attrType : MoAttributeType) (n : Int) : Option MoValue × Bool :=
  if attrType = type then (some (.number n), true) else (zeroOf attrType, true)

/-- A value and `RetVal`, which is `false` where the value is turned down. The type is not asked for where a name is
read. -/
def toMoValue (attrType : MoAttributeType) : SaImmValueType → ImmValue → Option (Option MoValue × Bool)
  | .saInt32, .number n => some (ofInt32 n attrType)
  | .saUint32, .number n => some (ofUint32 n attrType)
  | .saTime, .number n | .saInt64, .number n => some (orZero .int64 attrType n)
  | .saUint64, .number n => some (orZero .uint64 attrType n)
  | .saName, .name atp =>
    ((SaName.makeCString atp).bind (Buffer.string nul)).map fun immName =>
      (some (.text (env.Imm2MO_DN (String.ofList immName))), true)
  | .saAny, .any buffer =>
    if attrType = .string then some (some (.text (String.ofList (buffer.takeWhile (· ≠ nul)))), true)
    else some (zeroOf attrType, false)
  | .saString, .string s =>
    if attrType = .string then some (some (.text (s.getD "")), true) else some (zeroOf attrType, false)
  | .saFloat, .number n => some (orZero .decimal64 attrType (env.floatToDouble n))
  | .saDouble, .number n => some (orZero .decimal64 attrType n)
  | _, _ => none

/-- There is no answer where one of the values would be a NULL pointer. -/
def Imm2MO_AttrValue (attr : ImmAttribute) (attrType : MoAttributeType) : Option AttributeAnswer :=
  (attr.attrValues.mapM (toMoValue env attrType attr.attrValueType)).bind fun values =>
    if values.all Prod.snd then (values.mapM Prod.fst).map fun values => .ok ⟨some attrType, values⟩
    else some .notConverted

/-! ## The front end -/

/-- A string that begins with the name of its attribute and a `=` loses both. -/
def stripOwnName (attributeName : String) : MoValue → MoValue
  | .text s =>
    if (attributeName ++ "=").toList <+: s.toList then
      .text (String.ofList (s.toList.drop (attributeName.toList.length + 1)))
    else .text s
  | value => value

/-- What `getImmMoAttribute` does with a result, unless the attribute is a key. -/
def withoutOwnName (attributeName : String) (result : ReadContainer) : ReadContainer :=
  if result.type = some .string then { result with values := result.values.map (stripOwnName attributeName) }
  else result

/-- `getImmMoAttribute` in a transaction that has written the attribute. -/
def getFromCache (dn : List String) (attributeName : String) (c : Cache) : Option ReadContainer :=
  (c.getAttribute dn attributeName).map (withoutOwnName attributeName)

/-- `getImmMoAttribute` in a transaction that finds the attribute in IMM. -/
def getFromImm (attributeName : String) (attr : ImmAttribute) (attrType : MoAttributeType) : Option AttributeAnswer :=
  match Imm2MO_AttrValue env attr attrType with
  | some (.ok ctp) => some (.ok (withoutOwnName attributeName ctp))
  | answer => answer

/-- What IMM holds of an attribute once the transaction is committed. -/
def committedAttribute (imm : ImmClassAttribute) (theValueType : Option SaImmValueType) (copies : Nat)
    (dn : List String) (attributeName : String) (c : Cache) : Option ImmAttribute :=
  (findAttribute dn attributeName c.modified).bind (committed env imm theValueType copies)

end ComSA.ImmValues
