import ComSA.Lib.LastResult
import ComSA.Motransaction.DataClasses
import ComSA.Utils.SaName

/-!
# Parameters of actions

What an action is called with goes to IMM as the parameters of an administrative operation, and so does
what an action answers that IMM called. A parameter with several values becomes several parameters with
numbers in their names, and a struct one for each value of its members.
-/

namespace ComSA.Action

/-! ## Types and values -/

inductive Datatype where
  | int8 | int16 | int32 | int64
  | uint8 | uint16 | uint32 | uint64
  | string | bool | reference | enum | derived | struct | void | double
  | unknown (n : Nat)
  deriving DecidableEq, Repr

inductive SaImmValueType where
  | saInt32 | saUint32 | saInt64 | saUint64
  | saTime | saName | saFloat | saDouble | saString | saAny
  deriving DecidableEq, Repr

structure DatatypeContainer where
  type : Datatype
  derivedDatatype : Datatype
  multiplicityMin : Int
  multiplicityMax : Int
  deriving DecidableEq, Repr

structure StructMember where
  name : List Char
  memberType : DatatypeContainer
  deriving DecidableEq, Repr

structure ParameterType extends DatatypeContainer where
  structName : Option (List Char)
  members : List StructMember
  deriving DecidableEq, Repr

structure Parameter where
  name : List Char
  parameterType : ParameterType
  deriving DecidableEq, Repr

structure MemberValue where
  type : Datatype
  values : List MoValue
  deriving DecidableEq, Repr

structure ComValue where
  simple : MoValue
  structMember : MemberValue
  next : List MemberValue
  deriving DecidableEq, Repr

structure AttributeValueContainer where
  type : Datatype
  values : List ComValue
  deriving DecidableEq, Repr

structure AdminOperationParams where
  paramName : List Char
  paramType : SaImmValueType
  paramBuffer : MoValue
  deriving DecidableEq, Repr

structure TranslateEnv where
  MO2Imm_DN : String → String
  Imm2MO_DN : String → String
  floatToDouble : Int → Int
  bExtendedNameEnabled : Bool

/-! ## A single value -/

variable (env : TranslateEnv)

def attrType (isMoSpiVersion2 : Bool) (parameterType : DatatypeContainer) : Datatype :=
  if parameterType.type = .derived ∧ isMoSpiVersion2 = false then parameterType.derivedDatatype
  else parameterType.type

def HasCase : Datatype → Bool
  | .derived | .struct | .void | .unknown _ => false
  | _ => true

def asSaInt32 : MoValue → MoValue
  | .number n => .number (asSigned 32 n)
  | .flag b => .number (if b then 1 else 0)
  | v => v

/-- `saNameSet` with the translated name. Where the name has no room for it, its NUL is written behind the array. -/
def asSaName : MoValue → MoValue
  | .text dn =>
    if SaName.HasRoom env.bExtendedNameEnabled (env.MO2Imm_DN dn) then .text (env.MO2Imm_DN dn) else .undefined
  | v => v

def convertASingleAdmOpParam (theParamName : List Char) (isMoSpiVersion2 : Bool) (parameterType : DatatypeContainer)
    (value : MoValue) : Option AdminOperationParams :=
  match attrType isMoSpiVersion2 parameterType with
  | .int8 | .int16 | .int32 => some ⟨theParamName, .saInt32, value⟩
  | .int64 => some ⟨theParamName, .saInt64, value⟩
  | .uint8 | .uint16 | .uint32 => some ⟨theParamName, .saUint32, value⟩
  | .uint64 => some ⟨theParamName, .saUint64, value⟩
  | .enum | .bool => some ⟨theParamName, .saInt32, asSaInt32 value⟩
  | .string => some ⟨theParamName, .saString, value⟩
  | .double => some ⟨theParamName, .saDouble, value⟩
  | .reference => some ⟨theParamName, .saName, asSaName env value⟩
  | .derived | .struct | .void | .unknown _ => none

def elementName (name : List Char) (nrOfValues i : Nat) : List Char :=
  if 1 < nrOfValues then name ++ '_' :: (toString (i + 1)).toList else name

/-- The values of a parameter, or of a member, that are no structs. -/
def convertValues (name : List Char) (isMoSpiVersion2 : Bool) (type : DatatypeContainer) (values : List MoValue) :
    List AdminOperationParams :=
  values.zipIdx.filterMap fun x =>
    convertASingleAdmOpParam env (elementName name values.length x.2) isMoSpiVersion2 type x.1

/-! ## Structs -/

def handleStructToAdminOpPar (theStructName : List Char) (isMoSpiVersion2 : Bool) :
    List StructMember → List MemberValue → MafReturn × List AdminOperationParams
  | member_p :: members, structMember :: next =>
    if member_p.memberType.type = structMember.type ∨ member_p.memberType.type = .derived then
      -- a struct in a struct is turned down at its first value
      if member_p.memberType.type = .struct ∧ structMember.values ≠ [] then (.invalidArgument, [])
      else
        let rest := handleStructToAdminOpPar theStructName isMoSpiVersion2 members next
        (rest.1, convertValues env (theStructName ++ '_' :: member_p.name) isMoSpiVersion2 member_p.memberType
          structMember.values ++ rest.2)
    else (.validationFailed, [])
  | _, _ => (.ok, [])

def convertContainer (name : List Char) (isMoSpiVersion2 : Bool) (type : ParameterType)
    (v : AttributeValueContainer)
    (s : MafReturn × List AdminOperationParams) : MafReturn × List AdminOperationParams :=
  if type.type = .struct then
    collect (fun x => handleStructToAdminOpPar env (elementName name v.values.length x.2) isMoSpiVersion2
      type.members
      (x.1.structMember :: x.1.next)) v.values.zipIdx s
  else (s.1, s.2 ++ convertValues env name isMoSpiVersion2 type.toDatatypeContainer (v.values.map ComValue.simple))

/-! ## Calling an action -/

def sanityCheckAdminParameters (par_p : Parameter) (type : Datatype) : Bool :=
  if par_p.parameterType.type = .derived then par_p.parameterType.derivedDatatype = type
  else par_p.parameterType.type = type

/-- The parameters of the action with those of the call, to the end of the shorter list. -/
def convertParameters : List Parameter → List AttributeValueContainer → MafReturn × List AdminOperationParams →
    MafReturn × List AdminOperationParams
  | par_p :: parameters, v :: theComParameterList, s =>
    if sanityCheckAdminParameters par_p v.type then
      convertParameters parameters theComParameterList
        (convertContainer env par_p.name false par_p.parameterType v s)
    else (.validationFailed, s.2)
  | _, _, s => s

def result (s : MafReturn × List AdminOperationParams) : MafReturn × Option (List AdminOperationParams) :=
  (s.1, if s.1 = .ok then some s.2 else none)

def convertToAdminOpParameters (parameters : List Parameter) (theComParameterList : List AttributeValueContainer) :
    MafReturn × Option (List AdminOperationParams) :=
  if parameters = [] then (.invalidArgument, none)
  else if theComParameterList = [] then (.invalidArgument, none)
  else result (convertParameters env parameters theComParameterList (.ok, []))

/-! ## Answering an action -/

def sanityCheckReturnComParameters (returnType : ParameterType) (type : Datatype) (isMoSpiVersion2 : Bool) : Bool :=
  if returnType.type = .derived ∧ isMoSpiVersion2 = false then returnType.derivedDatatype = type
  else if type = .void ∧ isMoSpiVersion2 = true then returnType.type = .bool
  else returnType.type = type

def returnName (returnType : ParameterType) : List Char :=
  if returnType.type = .struct then returnType.structName.getD [] else []

def convertReturn (returnType : ParameterType) (isMoSpiVersion2 : Bool) :
    List AttributeValueContainer → MafReturn × List AdminOperationParams →
      MafReturn × Option (List AdminOperationParams)
  | v :: theComParameterList, s =>
    if sanityCheckReturnComParameters returnType v.type isMoSpiVersion2 then
      if v.values ≠ [] ∧ returnType.type = .void ∧ isMoSpiVersion2 = true then (.ok, none)
      else if v.values ≠ [] ∧ returnType.type = .struct ∧ returnType.structName = none then (.invalidArgument, none)
      else convertReturn returnType isMoSpiVersion2 theComParameterList
        (convertContainer env (returnName returnType) isMoSpiVersion2 returnType v s)
    else (.validationFailed, none)
  | [], s => result s

def convertActionReturnToImmParameters (returnType : ParameterType) (isMoSpiVersion2 : Bool)
    (theComParameterList : List AttributeValueContainer) : MafReturn × Option (List AdminOperationParams) :=
  convertReturn env returnType isMoSpiVersion2 theComParameterList (.ok, [])

end ComSA.Action
