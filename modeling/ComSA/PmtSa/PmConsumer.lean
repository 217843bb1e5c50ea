import ComSA.PmtSa.PmShowCounters

/-!
# The data of a granularity period

How the answers of the iterator become the data that COM gets, as in `pmt_sa/src/PmConsumer.cxx`. The lists of the
readers are static and are emptied before they are used, so they are plain lists here; the two sets of readers differ
in these lists alone.
-/

namespace ComSA.PmConsumer

open PmShowCounters (SaPmAggregatedValueInfo SaPmAggregatedValue)

/-! ## The iterator -/

inductive Failure where
  | errNotExist
  | other (code : Nat)
  deriving DecidableEq, Repr

inductive SaPmfJobIteratorObject where
  | moClass
  | ldn
  | value
  | other
  deriving DecidableEq, Repr

structure SaPmCIteratorInfo_2 where
  objectType : SaPmfJobIteratorObject
  nodeName : String
  valueInfo : SaPmAggregatedValueInfo
  deriving DecidableEq, Repr

abbrev Answer := Except Failure SaPmCIteratorInfo_2

/-- What the calls answer one after the other. When these are used up, every call fails. -/
structure SaPmCIterator where
  answers : List Answer
  ended : Failure
  deriving DecidableEq, Repr

def SaPmCIterator.iteratorNext_2 (s : SaPmCIterator) : Answer × SaPmCIterator :=
  match s.answers with
  | [] => (.error s.ended, s)
  | a :: answers => (a, { s with answers })

/-! ## What COM gets -/

inductive ComOamSpiPmValueType_2 where
  | nil
  | floatArr
  | intArr
  deriving DecidableEq, Repr

structure ComOamSpiPmAggregatedValue_2 where
  measType : String
  valueType : ComOamSpiPmValueType_2
  valueSize : Nat
  value : List SaPmAggregatedValue
  isSuspect : Bool
  deriving DecidableEq, Repr

structure ComOamSpiPmInstance_2 where
  measObjLDN : String
  values : List ComOamSpiPmAggregatedValue_2
  deriving DecidableEq, Repr

structure ComOamSpiPmMeasObjClass_2 where
  measObjClass : String
  instances : List ComOamSpiPmInstance_2
  deriving DecidableEq, Repr

structure ComOamSpiPmGpData_2 where
  measObjClasses : List ComOamSpiPmMeasObjClass_2
  isSuspect : Bool
  deriving DecidableEq, Repr

/-! ## The readers -/

structure Reading where
  iterator : SaPmCIterator
  suspect : Bool

/-- What a reader gives: the element that it read, `none` where it returns false. No result is a failed assertion. -/
abbrev Reader (α : Type) := Reading → Option (Option α × Reading)

/-- `for (T val; read(val, ...);) tmpList.push_back(val);` A loop that needs more rounds than its fuel has no result. -/
def pushBackAll {α : Type} (read : Reader α) : Nat → Reading → Option (List α × Reading)
  | 0, _ => none
  | fuel + 1, r => do
    match ← read r with
    | (none, r) => some ([], r)
    | (some val, r) =>
      let (tmpList, r) ← pushBackAll read fuel r
      some (val :: tmpList, r)

/-- Every round but the last takes an answer that is no failure. -/
def Reading.fuel (r : Reading) : Nat := r.iterator.answers.length + 1

def aggregatedValue (info : SaPmCIteratorInfo_2) : ComOamSpiPmAggregatedValue_2 where
  measType := info.nodeName
  valueType :=
    if info.valueInfo.values.length = 0 then .nil else if info.valueInfo.isFloat then .floatArr else .intArr
  valueSize := info.valueInfo.values.length
  value := info.valueInfo.values
  isSuspect := info.valueInfo.isSuspect

def readValue : Reader ComOamSpiPmAggregatedValue_2 := fun r =>
  match r.iterator.iteratorNext_2 with
  | (.error _, iterator) => some (none, ⟨iterator, true⟩)
  | (.ok info, iterator) =>
    if info.objectType = .value then
      some (some (aggregatedValue info), ⟨iterator, r.suspect⟩)
    else
      -- read as the closing LDN, whatever it is
      some (none, ⟨iterator, r.suspect⟩)

def readValuePdf : Reader ComOamSpiPmAggregatedValue_2 := readValue

def readValuePdf2 : Reader ComOamSpiPmAggregatedValue_2 := readValue

def readInstance (readValue : Reader ComOamSpiPmAggregatedValue_2) : Reader ComOamSpiPmInstance_2 := fun r =>
  match r.iterator.iteratorNext_2 with
  | (.error _, iterator) => some (none, ⟨iterator, true⟩)
  | (.ok info, iterator) =>
    if info.objectType = .ldn then do
      let r : Reading := ⟨iterator, r.suspect⟩
      let (values, r) ← pushBackAll readValue r.fuel r
      some (some ⟨info.nodeName, values⟩, r)
    else
      some (none, ⟨iterator, r.suspect⟩)

def readInstancePdf : Reader ComOamSpiPmInstance_2 := readInstance readValuePdf

def readInstancePdf2 : Reader ComOamSpiPmInstance_2 := readInstance readValuePdf2

def readMoClass (readInstance : Reader ComOamSpiPmInstance_2) : Reader ComOamSpiPmMeasObjClass_2 := fun r =>
  match r.iterator.iteratorNext_2 with
  -- the last class has been read
  | (.error .errNotExist, iterator) => some (none, ⟨iterator, r.suspect⟩)
  | (.error (.other _), iterator) => some (none, ⟨iterator, true⟩)
  | (.ok info, iterator) =>
    if info.objectType = .moClass then do
      let r : Reading := ⟨iterator, r.suspect⟩
      let (instances, r) ← pushBackAll readInstance r.fuel r
      some (some ⟨info.nodeName, instances⟩, r)
    else
      -- the assertion
      none

def readMoClassPdf : Reader ComOamSpiPmMeasObjClass_2 := readMoClass readInstancePdf

def readMoClassPdf2 : Reader ComOamSpiPmMeasObjClass_2 := readMoClass readInstancePdf2

def readData (readMoClass : Reader ComOamSpiPmMeasObjClass_2) (iterator : SaPmCIterator) :
    Option ComOamSpiPmGpData_2 := do
  let r : Reading := ⟨iterator, false⟩
  let (measObjClasses, r) ← pushBackAll readMoClass r.fuel r
  some ⟨measObjClasses, r.suspect⟩

/-- Gets what `iteratorInitialize_2` gives, which is `none` where that fails. -/
def getData : Option SaPmCIterator → Option ComOamSpiPmGpData_2
  | none => some ⟨[], true⟩
  | some iterator => readData readMoClassPdf iterator

def getData2 : Option SaPmCIterator → Option ComOamSpiPmGpData_2
  | none => some ⟨[], true⟩
  | some iterator => readData readMoClassPdf2 iterator

end ComSA.PmConsumer
