import ComSA.OIproxy.RegisterObjectUtils

/-!
# Registering and unregistering

A class or an object is registered together with the struct classes of its attributes. The
applier becomes the implementer of a struct class with the first attribute that has it.
-/

namespace ComSA.OIproxy

inductive ObjectAnswer where
  | ok
  | notExist
  | other
  deriving DecidableEq, Repr

structure Answers where
  classDNs : List String
  classImplementerSet : Bool
  objectImplementerSet : ObjectAnswer
  applierImplementerSet : String → Bool

/-- The model, and what the translator makes of it. -/
structure OIEnv where
  /-- `none` where there is no model repository or no root. -/
  mocRoot : Option Moc
  isRuntimeClass : String → Bool
  TransformImmClassName : List String → String
  GetComMoc : String → Option Moc
  MO2Imm_DN : String → String
  saNameMaxLen : Nat

namespace Registry

variable (env : OIEnv)

def attributePath (owner : String) (attr : ComplexAttribute) : String := owner ++ ":" ++ attr.name

def registerComplexTypeAttrClasses (moIf txIf : Interface) (answers : Answers) (owner : String) :
    List ComplexAttribute → Registry → MafReturn × Registry
  | [], s => (.ok, s)
  | attr :: attrs, s =>
    if env.isRuntimeClass attr.immClassName then
      registerComplexTypeAttrClasses moIf txIf answers owner attrs s
    else if s.existRegisteredCTClass attr.immClassName then
      if s.existRegisteredCTClassAttr attr.immClassName (attributePath owner attr) then
        (.alreadyExist, s)
      else
        registerComplexTypeAttrClasses moIf txIf answers owner attrs
          (s.addNewRegisteredCTClass moIf txIf attr.immClassName (attributePath owner attr))
    else if answers.applierImplementerSet attr.immClassName then
      let s := { s with applierImplementer := Function.update s.applierImplementer attr.immClassName true }
      registerComplexTypeAttrClasses moIf txIf answers owner attrs
        (s.addNewRegisteredCTClass moIf txIf attr.immClassName (attributePath owner attr))
    else
      (.notExist, s)

def unregisterAttr (owner : String) (s : Registry) (attr : ComplexAttribute) : Registry :=
  if env.isRuntimeClass attr.immClassName then s
  else
    let s := s.removeRegisteredCTClass attr.immClassName (attributePath owner attr)
    if s.existRegisteredCTClass attr.immClassName then s
    else { s with applierImplementer := Function.update s.applierImplementer attr.immClassName false }

/-- The result is a failure only where a release fails. -/
def unregisterComplexTypeAttrClasses (owner : String) (attrs : List ComplexAttribute) (s : Registry) :
    MafReturn × Registry :=
  (.ok, attrs.foldl (unregisterAttr env owner) s)

/-- The class that is named by a path: its MOC, its name and its name in IMM. -/
def classOfPath (mocPath : String) : Except MafReturn (Moc × String × String) :=
  if mocPath = "" then .error .notExist
  else
    match env.mocRoot with
    | none => .error .failure
    | some mocRoot =>
      match findComMoc mocRoot (GlobalSplitMocPath mocPath) with
      | none => .error .failure
      | some classMoc =>
        .ok (classMoc, (GlobalSplitMocPath mocPath).getLastD "",
          env.TransformImmClassName (GlobalSplitMocPath mocPath))

def checkRegisterClass (mocPath : String) (answers : Answers) (s : Registry) :
    Except MafReturn (Moc × String × String) :=
  match classOfPath env mocPath with
  | .error ret => .error ret
  | .ok (classMoc, className, immClassName) =>
    if s.existRegisteredClass className then .error .alreadyExist
    else if answers.classDNs.any (existRegisteredDN · s) then .error .failure
    else if answers.classImplementerSet then .ok (classMoc, className, immClassName)
    else .error .notExist

def registerClass_2 (moIf txIf : Interface) (mocPath : String) (answers : Answers) (s : Registry) :
    MafReturn × Registry :=
  match checkRegisterClass env mocPath answers s with
  | .error ret => (ret, s)
  | .ok (classMoc, className, immClassName) =>
    let s := { s with classImplementer := Function.update s.classImplementer immClassName true }
    let attrList := getMocComplexAttributes classMoc
    let (ret, s) := registerComplexTypeAttrClasses env moIf txIf answers mocPath attrList s
    if ret ≠ .ok then
      let s := { s with classImplementer := Function.update s.classImplementer immClassName false }
      -- `ret` is set once more
      unregisterComplexTypeAttrClasses env mocPath attrList s
    else
      (ret, s.addNewRegisteredClass moIf txIf className mocPath)

def checkRegisterDn (dn : String) (answers : Answers) (s : Registry) : Except MafReturn (Moc × String) :=
  if dn = "" then .error .notExist
  else if s.existRegisteredDN dn then .error .alreadyExist
  else
    match env.GetComMoc dn with
    | none => .error .failure
    | some moc =>
      if (env.MO2Imm_DN dn).utf8ByteSize > env.saNameMaxLen then .error .failure
      else
        match answers.objectImplementerSet with
        | .notExist => .error .notExist
        | .other => .error .failure
        | .ok => .ok (moc, env.MO2Imm_DN dn)

def registerDn_2 (moIf txIf : Interface) (dn : String) (answers : Answers) (s : Registry) :
    MafReturn × Registry :=
  match checkRegisterDn env dn answers s with
  | .error ret => (ret, s)
  | .ok (moc, immDn) =>
    let s := { s with objectImplementer := Function.update s.objectImplementer immDn true }
    let attrList := getMocComplexAttributes moc
    let (ret, s) := registerComplexTypeAttrClasses env moIf txIf answers dn attrList s
    if ret ≠ .ok then
      let s := { s with objectImplementer := Function.update s.objectImplementer immDn false }
      (ret, (unregisterComplexTypeAttrClasses env dn attrList s).2)
    else
      (ret, s.addNewRegisteredDN moIf txIf dn moc)

def checkUnregisterClass (moIf : Interface) (mocPath : String) (s : Registry) :
    Except MafReturn (Moc × String × String) :=
  match classOfPath env mocPath with
  | .error ret => .error ret
  | .ok (classMoc, className, immClassName) =>
    match s.registeredClass className with
    | none => .error .notExist
    | some regClass =>
      if moIf ≠ regClass.managedObjectInterfaceId then .error .failure
      else .ok (classMoc, className, immClassName)

def unregisterClass_2 (moIf : Interface) (mocPath : String) (s : Registry) : MafReturn × Registry :=
  match checkUnregisterClass env moIf mocPath s with
  | .error ret => (ret, s)
  | .ok (classMoc, className, immClassName) =>
    let attrList := getMocComplexAttributes classMoc
    let s := { s with classImplementer := Function.update s.classImplementer immClassName false }
    let s := s.removeRegisteredClass className
    unregisterComplexTypeAttrClasses env mocPath attrList s

def checkUnregisterDn (moIf : Interface) (dn : String) (s : Registry) : Except MafReturn (Moc × String) :=
  if dn = "" then .error .notExist
  else
    match s.registeredDN dn with
    | none => .error .notExist
    | some regDn =>
      if moIf ≠ regDn.managedObjectInterfaceId then .error .failure
      else if (env.MO2Imm_DN dn).utf8ByteSize > env.saNameMaxLen then .error .failure
      else .ok (regDn.dnMoc, env.MO2Imm_DN dn)

def unregisterDn_2 (moIf : Interface) (dn : String) (s : Registry) : MafReturn × Registry :=
  match checkUnregisterDn env moIf dn s with
  | .error ret => (ret, s)
  | .ok (dnMoc, immDn) =>
    let attrList := getMocComplexAttributes dnMoc
    let s := { s with objectImplementer := Function.update s.objectImplementer immDn false }
    let s := s.removeRegisteredDN dn
    unregisterComplexTypeAttrClasses env dn attrList s

end Registry

inductive RegisterCall where
  | registerClass_2 (moIf txIf : Interface) (mocPath : String) (answers : Answers)
  | registerDn_2 (moIf txIf : Interface) (dn : String) (answers : Answers)
  | unregisterClass_2 (moIf : Interface) (mocPath : String)
  | unregisterDn_2 (moIf : Interface) (dn : String)

namespace RegisterCall

def run (env : OIEnv) (s : Registry) : RegisterCall → MafReturn × Registry
  | registerClass_2 moIf txIf mocPath answers => s.registerClass_2 env moIf txIf mocPath answers
  | registerDn_2 moIf txIf dn answers => s.registerDn_2 env moIf txIf dn answers
  | unregisterClass_2 moIf mocPath => s.unregisterClass_2 env moIf mocPath
  | unregisterDn_2 moIf dn => s.unregisterDn_2 env moIf dn

def step (env : OIEnv) (s : Registry) (call : RegisterCall) : Registry := (call.run env s).2

end RegisterCall

end ComSA.OIproxy
