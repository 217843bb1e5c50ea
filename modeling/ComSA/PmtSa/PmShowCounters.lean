import Mathlib.Algebra.GroupWithZero.Nat
import Mathlib.Data.List.Range

/-!
# Showing counters

The measurements that COM gets when it asks for the values of counters, as in `pmt_sa/src/PmShowCounters.cxx`, and
the functions that release them. What the PM consumer answers is given; the request to it, the request ids and the
messages to the user are left out, and so are NULL arguments.
-/

namespace ComSA.PmShowCounters

inductive MafReturn where
  | ok
  | notExist
  | timeOut
  | tryAgain
  | invalidArgument
  | failure
  deriving DecidableEq, Repr

inductive SaAisError where
  | ok
  | errTimeout
  | errTryAgain
  | errNotExist
  | errInvalidParam
  | other
  deriving DecidableEq, Repr

/-! ## Memory -/

structure Buffer (α : Type*) where
  address : Nat
  content : α
  deriving DecidableEq, Repr

abbrev Pointer (α : Type*) := Option (Buffer α)

def Pointer.address {α : Type*} (p : Pointer α) : List Nat := (p.map Buffer.address).toList

/-- How far a loop with an index of type `unsigned int` gets: it never comes to the end of a longer array. -/
def counted (n : Nat) : Option Nat := if n < 2 ^ 32 then some n else none

structure Filling (μ : Type*) where
  measurements : List μ
  jobs : Nat
  next : Nat

/-- Writes to the next entry, which gets some buffers. Nothing can be written behind the array. -/
def Filling.store {μ : Type*} (buffers : Nat) (f : Nat → μ → μ) (s : Filling μ) : Option (Filling μ) :=
  if s.jobs < s.measurements.length then
    some ⟨s.measurements.modify s.jobs (f s.next), s.jobs + 1, s.next + buffers⟩
  else
    none

/-! ## What the PM consumer answers -/

/-- The bits of a `double` or of an integer. -/
abbrev SaPmAggregatedValue := BitVec 64

structure SaPmAggregatedValueInfo where
  isFloat : Bool
  isSuspect : Bool
  values : List SaPmAggregatedValue
  deriving DecidableEq, Repr

structure SaPmCInstanceJobValue where
  jobName : String
  granularityPeriod : Int
  valueInfo : SaPmAggregatedValueInfo
  deriving DecidableEq, Repr

structure SaPmCInstanceValues where
  measurementType : String
  jobValues : List SaPmCInstanceJobValue
  deriving DecidableEq, Repr

structure SaPmCInstanceValues_2 where
  measurementType : String
  inst : String
  pmGroup : String
  valueInfo : SaPmAggregatedValueInfo
  deriving DecidableEq, Repr

/-! ## What COM gets -/

inductive ValueType where
  | int
  | float
  deriving DecidableEq, Repr

structure MeasurementValue where
  isSuspect : Bool
  value : BitVec 64
  deriving DecidableEq, Repr

def noData : String := "No data returned"

namespace SaPmAggregatedValueInfo

variable (info : SaPmAggregatedValueInfo)

def valueType : ValueType := if info.isFloat then .float else .int

def measurementValues : List MeasurementValue := info.values.map fun v => ⟨info.isSuspect, v⟩

end SaPmAggregatedValueInfo

structure ComOamSpiPmMeasurement_3 where
  name : Pointer String
  jobId : Pointer String
  value : Pointer (List MeasurementValue)
  valueType : ValueType
  nrOfValues : Nat
  errorInformation : Pointer String
  gpInSeconds : BitVec 32

structure ComOamSpiPmMeasuredObject_3 where
  measurements : Pointer (List ComOamSpiPmMeasurement_3)
  nrOfMeasurements : Nat
  /-- Whether this is `releaseMeasuredObject`, and not NULL. -/
  release : Bool

structure ComOamSpiPmMeasurementFilter_3 where
  isVerbose : Bool
  deriving DecidableEq, Repr

structure ComOamSpiPmMeasurement_4 where
  measurementTypeName : Pointer String
  measuredObject : Pointer String
  jobId : Pointer String
  groupId : Pointer String
  value : Pointer (List MeasurementValue)
  valueType : ValueType
  nrOfValues : Nat
  errorInformation : Pointer String
  gpInSeconds : BitVec 32

structure ComOamSpiPmMeasuredObjectMeasurements_4 where
  measurements : Pointer (List ComOamSpiPmMeasurement_4)
  nrOfMeasurements : Nat
  /-- Whether this is `releaseMeasuredObjectMeasurements`, and not NULL. -/
  release : Bool

/-! ## The first interface -/

def gpInSeconds (granularityPeriod : Int) : BitVec 32 := BitVec.ofInt 32 (granularityPeriod.tdiv 1000000000)

/-- What is written for a job value. An entry without data keeps what was in its `value` and `valueType`. -/
def writeJob (measurementType : String) (job : SaPmCInstanceJobValue) (next : Nat) (m : ComOamSpiPmMeasurement_3) :
    ComOamSpiPmMeasurement_3 :=
  let m := { m with
    name := some ⟨next, measurementType⟩
    jobId := some ⟨next + 1, job.jobName⟩
    gpInSeconds := gpInSeconds job.granularityPeriod
    nrOfValues := job.valueInfo.values.length }
  if job.valueInfo.values = [] then
    { m with errorInformation := some ⟨next + 2, noData⟩ }
  else
    { m with
      errorInformation := none
      value := some ⟨next + 2, job.valueInfo.measurementValues⟩
      valueType := job.valueInfo.valueType }

def addJob (filter : Option ComOamSpiPmMeasurementFilter_3) (measurementType : String)
    (s : Filling ComOamSpiPmMeasurement_3) (job : SaPmCInstanceJobValue) :
    Option (Filling ComOamSpiPmMeasurement_3) :=
  if job.valueInfo.values = [] then
    match filter with
    -- `isVerbose` is read without a look at the filter
    | none => none
    | some filter => if filter.isVerbose then s.store 3 (writeJob measurementType job) else some s
  else
    s.store 3 (writeJob measurementType job)

def addInstanceValue (filter : Option ComOamSpiPmMeasurementFilter_3) (s : Filling ComOamSpiPmMeasurement_3)
    (instanceValue : SaPmCInstanceValues) : Option (Filling ComOamSpiPmMeasurement_3) := do
  let _ ← counted instanceValue.jobValues.length
  instanceValue.jobValues.foldlM (addJob filter instanceValue.measurementType) s

/-- From what the PM consumer answers. New memory holds anything. No result is where it goes wrong: it does not end,
or something is read or written that is not there. The last part is the address of the next buffer. -/
def getMeasurementValues (dn : String) (filter : Option ComOamSpiPmMeasurementFilter_3) (tmpHandle : Nat)
    (answer : SaAisError × Option (List SaPmCInstanceValues)) (memoryFree : SaAisError)
    (new : Nat → ComOamSpiPmMeasurement_3) (measuredObject : ComOamSpiPmMeasuredObject_3) (next : Nat) :
    Option (MafReturn × ComOamSpiPmMeasuredObject_3 × Nat) :=
  if dn = "" then
    some (.notExist, measuredObject, next)
  else if tmpHandle = 0 then
    some (.failure, measuredObject, next)
  else match answer with
  | (.errNotExist, _) => some (.notExist, measuredObject, next)
  | (.errTimeout, _) => some (.timeOut, measuredObject, next)
  | (.ok, none) => some (.notExist, measuredObject, next)
  | (.ok, some instVal) => do
    let i ← counted instVal.length
    let jobs := (instVal.map fun iVal => iVal.jobValues.length).sum % 2 ^ 32
    if i = 0 ∨ jobs = 0 then
      some (.notExist, measuredObject, next)
    else
      let s ← instVal.foldlM (addInstanceValue filter) ⟨(List.range jobs).map new, 0, next + 1⟩
      let measuredObject := { measuredObject with
        measurements := some ⟨next, s.measurements⟩
        nrOfMeasurements := s.jobs }
      if memoryFree = .ok then
        some (.ok, { measuredObject with release := true }, s.next)
      else
        some (.failure, measuredObject, s.next)
  | _ => some (.failure, measuredObject, next)

def ComOamSpiPmMeasurement_3.free (m : ComOamSpiPmMeasurement_3) : List Nat :=
  m.value.address ++ m.errorInformation.address ++ m.jobId.address ++ m.name.address

/-- The addresses that are freed, and the container afterwards. -/
def releaseMeasuredObject (measuredObject : ComOamSpiPmMeasuredObject_3) : List Nat × ComOamSpiPmMeasuredObject_3 :=
  if measuredObject.release then
    let freed := match measuredObject.measurements with
      | none => []
      | some tempMeas =>
        (tempMeas.content.take measuredObject.nrOfMeasurements).flatMap ComOamSpiPmMeasurement_3.free ++
          [tempMeas.address]
    (freed, ⟨none, 0, false⟩)
  else
    ([], measuredObject)

/-! ## The second interface -/

def buffers (isVerbose : Bool) (instanceValue : SaPmCInstanceValues_2) : Nat :=
  3 + (if instanceValue.valueInfo.values = [] then 0 else 1) + if isVerbose then 1 else 0

/-- What is written for an instance value. Without values `value` and `valueType` stay as they were. -/
def writeInstance (isVerbose : Bool) (instanceValue : SaPmCInstanceValues_2) (next : Nat)
    (m : ComOamSpiPmMeasurement_4) : ComOamSpiPmMeasurement_4 :=
  let m := { m with
    measurementTypeName := some ⟨next, instanceValue.measurementType⟩
    measuredObject := some ⟨next + 1, instanceValue.inst⟩
    jobId := none
    groupId := some ⟨next + 2, instanceValue.pmGroup⟩
    nrOfValues := instanceValue.valueInfo.values.length }
  let m := if instanceValue.valueInfo.values = [] then m else { m with
    value := some ⟨next + 3, instanceValue.valueInfo.measurementValues⟩
    valueType := instanceValue.valueInfo.valueType }
  { m with
    gpInSeconds := 0
    errorInformation :=
      if isVerbose then some ⟨next + (if instanceValue.valueInfo.values = [] then 3 else 4), noData⟩ else none }

def addInstance (isVerbose : Bool) (s : Filling ComOamSpiPmMeasurement_4) (instanceValue : SaPmCInstanceValues_2) :
    Option (Filling ComOamSpiPmMeasurement_4) :=
  s.store (buffers isVerbose instanceValue) (writeInstance isVerbose instanceValue)

def getMeasurementValues_2 (isVerbose : Bool) (pmHandle : Nat)
    (answer : SaAisError × Nat × Option (List SaPmCInstanceValues_2)) (new : Nat → ComOamSpiPmMeasurement_4)
    (measuredObjectMeasurements : ComOamSpiPmMeasuredObjectMeasurements_4) (next : Nat) :
    Option (MafReturn × ComOamSpiPmMeasuredObjectMeasurements_4 × Nat) :=
  if pmHandle = 0 then
    some (.failure, measuredObjectMeasurements, next)
  else match answer with
  | (.errTryAgain, requestId, _) =>
    some (if requestId = 0 then .failure else .tryAgain, measuredObjectMeasurements, next)
  | (.errNotExist, _) => some (.notExist, measuredObjectMeasurements, next)
  | (.errInvalidParam, _) => some (.invalidArgument, measuredObjectMeasurements, next)
  | (.ok, _, none) =>
    some (.ok, { measuredObjectMeasurements with nrOfMeasurements := 0, release := false }, next)
  | (.ok, _, some instanceValues) => do
    let nrOfMeasurements ← counted instanceValues.length
    if nrOfMeasurements = 0 then
      some (.ok, { measuredObjectMeasurements with nrOfMeasurements := 0, release := true }, next)
    else
      let s ← instanceValues.foldlM (addInstance isVerbose) ⟨(List.range nrOfMeasurements).map new, 0, next + 1⟩
      some (.ok, ⟨some ⟨next, s.measurements⟩, nrOfMeasurements, true⟩, s.next)
  | _ => some (.failure, measuredObjectMeasurements, next)

def ComOamSpiPmMeasurement_4.free (m : ComOamSpiPmMeasurement_4) : List Nat :=
  m.measurementTypeName.address ++ m.measuredObject.address ++ m.jobId.address ++ m.groupId.address ++
    m.value.address ++ m.errorInformation.address

def releaseMeasuredObjectMeasurements (measObjMeasurements : ComOamSpiPmMeasuredObjectMeasurements_4) :
    List Nat × ComOamSpiPmMeasuredObjectMeasurements_4 :=
  match measObjMeasurements.measurements with
  | none => ([], { measObjMeasurements with release := false })
  | some measurements =>
    ((measurements.content.take measObjMeasurements.nrOfMeasurements).flatMap ComOamSpiPmMeasurement_4.free ++
      [measurements.address], ⟨none, 0, false⟩)

end ComSA.PmShowCounters
