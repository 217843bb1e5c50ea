import Mathlib.Data.String.Basic
import ComSA.Lib.Decimal
import ComSA.Lib.SortedMap
import ComSA.Motransaction.MoValue

/-!
# Replicated lists

A list is an IMM object with three attributes, and its items are files in a directory of
its own, or RT objects. Reading and writing succeed as long as what they name exists.
-/

namespace ComSA.Rlist

/-- The bytes from a pointer on, as far as they can be read. -/
abbrev Memory := List UInt8

def uintMax : Nat := 2 ^ 32 - 1

/-- `ULONG_MAX`, where a `long` has 64 bits. -/
def ulongMax : Nat := 2 ^ 64 - 1

def toUint (n : Nat) : Nat := n % 2 ^ 32

def decrement (n : Nat) : Nat := toUint (n + uintMax)

structure RlistEnv where
  listInstanceName : String
  replicateInIMM : Bool
  /-- Where the file system leads with a name that has a slash. -/
  path : String → String

structure ListItemName where
  length : Nat
  value : String
  deriving DecidableEq, Repr

def maxNameLength : Nat := 256

def validateName (name : ListItemName) : Bool := name.length ≠ 0 && name.length ≤ maxNameLength

structure RLIterator where
  id : Nat
  index : Nat
  size : Nat
  deriving DecidableEq, Repr

structure RlistState where
  blockSize : Nat
  lastId : Nat := 0
  numElements : Nat := 0
  /-- The items, and files of others that a name with a slash leads to. -/
  storage : List (String × Memory) := []
  /-- The iterators that were handed out. One that was freed is `none`. -/
  refs : List (Option RLIterator) := []
  deriving DecidableEq, Repr

def itemName (n : Nat) : String := toString n

variable (env : RlistEnv)

/-! ## Storage -/

def key (name : String) : String :=
  if !env.replicateInIMM && '/' ∈ name.toList then env.path name else name

def isItem (key : String) : Bool := env.replicateInIMM || '/' ∉ key.toList

theorem itemName_injective {n n' : Nat} (h : itemName n = itemName n') : n = n' := toString_injective h

theorem slash_notMem_itemName (n : Nat) : '/' ∉ (itemName n).toList := fun h =>
  absurd (isDigit_of_mem_toString h) (by decide)

@[simp] theorem key_itemName (n : Nat) : key env (itemName n) = itemName n := by
  rw [key, if_neg]
  simp [slash_notMem_itemName]

@[simp] theorem isItem_itemName (n : Nat) : isItem env (itemName n) = true := by
  simp [isItem, slash_notMem_itemName]

namespace RlistState

def find (name : String) (s : RlistState) : Option Memory := SortedMap.get? (key env name) s.storage

def store (name : String) (data : Memory) (s : RlistState) : RlistState :=
  { s with storage := SortedMap.put (key env name) data s.storage }

def remove (name : String) (s : RlistState) : RlistState :=
  { s with storage := SortedMap.erase (key env name) s.storage }

end RlistState

open RlistState

def deleteRTObject (name : String) (s : RlistState) : MafReturn × RlistState :=
  if name = "0" then (.noResources, s)
  else if (s.find env name).isSome then (.ok, s.remove env name)
  else (.notExist, s)

def dataBufLen (s : RlistState) (data : Memory) : Nat :=
  if env.listInstanceName = "FmStatusSection" then s.blockSize
  else toUint (data.takeWhile (· ≠ 0)).length

def addRlistRTObject (lastId : Nat) (data : Memory) (s : RlistState) : MafReturn × RlistState :=
  if (s.find env (itemName lastId)).isSome then (.alreadyExist, s)
  else (.ok, s.store env (itemName lastId) (data.take (dataBufLen env s data)))

def modifyRlistRTObject (name : String) (data : Memory) (s : RlistState) : MafReturn × RlistState :=
  if name = "0" then (.invalidArgument, s)
  else if (s.find env name).isSome then (.ok, s.store env name (data.take (dataBufLen env s data)))
  else (.failure, s)

def writeToFile (name : String) (data : Memory) (s : RlistState) : RlistState :=
  s.store env name (data.take s.blockSize)

def getVoidData (stored : Memory) (dataLen : Nat) : Option Memory :=
  if stored.length < uintMax then some (stored ++ List.replicate (dataLen - stored.length) 0)
  else none

def readFromFile (stored : Memory) (dataSize : Nat) : Option Memory :=
  if dataSize ≤ stored.length then some (stored.take dataSize) else none

def readItem (stored : Memory) (size : Nat) : Option Memory :=
  if env.replicateInIMM then getVoidData stored size else readFromFile stored size

/-! ## Items -/

/-- The name is given out also where writing fails. -/
def listPushBack (newItemData : Memory) (s : RlistState) : MafReturn × Option String × RlistState :=
  let lastId := toUint (s.lastId + 1)
  if ulongMax = lastId then (.noResources, none, s)
  else
    let name := itemName lastId
    let r : MafReturn × RlistState :=
      if env.replicateInIMM then
        match addRlistRTObject env lastId newItemData s with
        | (.alreadyExist, s) => modifyRlistRTObject env name newItemData s
        | r => r
      else (.ok, writeToFile env name newItemData s)
    match r with
    | (.ok, s) => (.ok, some name, { s with numElements := toUint (s.numElements + 1), lastId := lastId })
    | (_, s) => (.noResources, some name, s)

/-- The highest number below one that an item has, and 0 where no item has one. -/
def lowerLastId (present : Nat → Bool) : Nat → Nat
  | 0 => 0
  | n + 1 => if present n then n else lowerLastId present n

def listPopBack (s : RlistState) : MafReturn × RlistState :=
  let name := itemName s.lastId
  let r : MafReturn × RlistState :=
    if env.replicateInIMM then deleteRTObject env name s
    else if (s.find env name).isSome then (.ok, s.remove env name)
    else (.notExist, s)
  match r with
  | (.ok, s) =>
    (.ok, { s with
      numElements := decrement s.numElements
      lastId := lowerLastId (fun n => (s.find env (itemName n)).isSome) s.lastId })
  | (_, s) => (.notExist, s)

/-- With RT objects, only `MafNotExist` counts as an error. -/
def listEraseItem (name : ListItemName) (s : RlistState) : MafReturn × RlistState :=
  if !validateName name then (.notExist, s)
  else
    let r : MafReturn × RlistState :=
      if env.replicateInIMM then deleteRTObject env name.value s
      else if (s.find env name.value).isSome then (.ok, s.remove env name.value)
      else (.notExist, s)
    match r with
    | (.notExist, s) => (.notExist, s)
    | (_, s) => (.ok, { s with numElements := decrement s.numElements })

def listReplaceItem (name : ListItemName) (data : Memory) (s : RlistState) : MafReturn × RlistState :=
  if !validateName name then (.notExist, s)
  else if env.replicateInIMM then
    match modifyRlistRTObject env name.value data s with
    | (.ok, s) => (.ok, s)
    | (_, s) => (.notExist, s)
  else if (s.find env name.value).isSome then (.ok, writeToFile env name.value data s)
  else (.notExist, s)

def listFindItem (name : ListItemName) (s : RlistState) : MafReturn × Option Memory × RlistState :=
  if !validateName name then (.notExist, none, s)
  else if env.replicateInIMM && name.value = "0" then (.invalidArgument, none, s)
  else
    match s.find env name.value with
    | none => (.notExist, none, s)
    | some stored =>
      match readItem env stored s.blockSize with
      | some data => (.ok, some data, s)
      | none => (.notExist, none,
          if env.replicateInIMM then (deleteRTObject env name.value s).2
          else (listEraseItem env name s).2)

def listClear (s : RlistState) : MafReturn × RlistState :=
  (.ok, { s with numElements := 0, storage := s.storage.filter fun x => !isItem env x.1 })

/-! ## Iterations -/

def listGetFrontRef (s : RlistState) : MafReturn × Option Nat × RlistState :=
  if s.numElements = 0 then (.ok, none, s)
  else (.ok, some s.refs.length, { s with refs := s.refs ++ [some ⟨1, 0, s.blockSize⟩] })

def listGetFinalize (ref : Nat) (s : RlistState) : MafReturn × RlistState :=
  (.ok, { s with refs := s.refs.set ref none })

/-- The first number from one on that an item has, with so many numbers to look at. -/
def searchUp (present : Nat → Bool) (n : Nat) : Nat → Option Nat
  | 0 => none
  | steps + 1 => if present n then some n else searchUp present (n + 1) steps

/-- The search goes on at 0 after the highest number there is. With RT objects it ends there with an
error, and with files it may never end (`none`). -/
def findNextListItem (id : Nat) (s : RlistState) : Option (Option Nat) :=
  let present := fun n => (s.find env (itemName n)).isSome
  if env.replicateInIMM && id = 0 then some none
  else
    match searchUp present id (s.lastId + 1 - id) with
    | some n => some (some n)
    | none =>
      if s.lastId ≠ uintMax then some none
      else if env.replicateInIMM then some none
      else (searchUp present 0 (s.lastId + 1)).map some

def lostItem (s : RlistState) : RlistState :=
  { s with
    numElements := decrement s.numElements
    lastId := if decrement s.numElements = 0 then 0 else s.lastId }

def listGetNextItemFront (ref : Nat) (s : RlistState) :
    Option (MafReturn × Option (String × Memory) × RlistState) :=
  match s.refs[ref]?.join with
  | none => some (.invalidArgument, none, s)
  | some it =>
    if s.numElements ≤ it.index then some (.ok, none, { s with refs := s.refs.set ref none })
    else
      match findNextListItem env it.id s with
      | none => none
      | some none => some (.notExist, none, lostItem s)
      | some (some n) =>
        let name := itemName n
        let it := { it with id := toUint (n + 1) }
        match (s.find env name).bind fun stored => readItem env stored it.size with
        | none =>
          let s := { s with refs := s.refs.set ref (some it) }
          some (.notExist, none, lostItem
            (if env.replicateInIMM then (deleteRTObject env name s).2 else s.remove env name))
        | some data =>
          let it := { it with index := toUint (it.index + 1) }
          some (.ok, some (name, data), { s with
            refs := s.refs.set ref (if s.numElements ≤ it.index then none else some it) })

/-! ## What the calls do -/

def storedData (s : RlistState) (data : Memory) : Memory :=
  data.take (if env.replicateInIMM then dataBufLen env s data else s.blockSize)

def Unreachable (name : String) : Prop := env.replicateInIMM = true ∧ name = "0"

instance (name : String) : Decidable (Unreachable env name) :=
  inferInstanceAs (Decidable (_ ∧ _))

theorem toUint_lt (n : Nat) : toUint n < 2 ^ 32 := Nat.mod_lt _ (by decide)

theorem itemName_eq_zero {n : Nat} : itemName n = "0" ↔ n = 0 :=
  ⟨fun h => itemName_injective (show itemName n = itemName 0 from h), fun h => h ▸ rfl⟩

section
variable {env} {s : RlistState}

theorem find_eq_of_storage {s' : RlistState} (h : s'.storage = s.storage) (name : String) :
    s'.find env name = s.find env name := by
  rw [find, find, h]

theorem find_store (name name' : String) (data : Memory) : (s.store env name data).find env name' =
    if key env name' = key env name then some data else s.find env name' :=
  SortedMap.get?_put _ _ _ _

theorem find_remove (name name' : String) : (s.remove env name).find env name' =
    if key env name' = key env name then none else s.find env name' :=
  SortedMap.get?_erase _ _ _

theorem listPushBack_eq (data : Memory) : listPushBack env data s =
    let n := toUint (s.lastId + 1)
    if Unreachable env (itemName n) ∧ (s.find env (itemName n)).isSome then
      (.noResources, some (itemName n), s)
    else (.ok, some (itemName n),
      { s.store env (itemName n) (storedData env s data) with
        numElements := toUint (s.numElements + 1)
        lastId := n }) := by
  have hlt := toUint_lt (s.lastId + 1)
  unfold listPushBack addRlistRTObject modifyRlistRTObject storedData Unreachable writeToFile
  generalize toUint (s.lastId + 1) = n at hlt ⊢
  have hmax : ulongMax ≠ n := by
    unfold ulongMax
    omega
  simp only [if_neg hmax]
  generalize itemName n = name
  by_cases himm : env.replicateInIMM = true
  · by_cases hthere : (s.find env name).isSome = true
    · by_cases hzero : name = "0"
      · subst hzero
        simp [himm, hthere]
      · simp [himm, hthere, hzero, store]
    · simp [himm, hthere, store]
  · simp [himm, store]

theorem listPopBack_eq : listPopBack env s =
    if Unreachable env (itemName s.lastId) ∨ s.find env (itemName s.lastId) = none then (.notExist, s)
    else
      let s' := s.remove env (itemName s.lastId)
      (.ok, { s' with
        numElements := decrement s.numElements
        lastId := lowerLastId (fun n => (s'.find env (itemName n)).isSome) s.lastId }) := by
  unfold listPopBack deleteRTObject Unreachable
  generalize itemName s.lastId = name
  by_cases himm : env.replicateInIMM = true
  · by_cases hzero : name = "0"
    · subst hzero
      simp [himm]
    · cases hfind : s.find env name <;> simp [himm, hzero, hfind, remove]
  · cases hfind : s.find env name <;> simp [himm, hfind, remove]

theorem listEraseItem_eq (name : ListItemName) : listEraseItem env name s =
    if !validateName name then (.notExist, s)
    else if Unreachable env name.value then (.ok, { s with numElements := decrement s.numElements })
    else if s.find env name.value = none then (.notExist, s)
    else (.ok, { s.remove env name.value with numElements := decrement s.numElements }) := by
  unfold listEraseItem deleteRTObject Unreachable
  by_cases himm : env.replicateInIMM = true
  · by_cases hzero : name.value = "0"
    · simp [himm, hzero]
    · cases hfind : s.find env name.value <;> simp [himm, hzero, remove]
  · cases hfind : s.find env name.value <;> simp [himm, remove]

theorem listReplaceItem_eq (name : ListItemName) (data : Memory) : listReplaceItem env name data s =
    if !validateName name then (.notExist, s)
    else if Unreachable env name.value ∨ s.find env name.value = none then (.notExist, s)
    else (.ok, s.store env name.value (storedData env s data)) := by
  unfold listReplaceItem modifyRlistRTObject Unreachable storedData writeToFile
  by_cases himm : env.replicateInIMM = true
  · by_cases hzero : name.value = "0"
    · simp [himm, hzero]
    · cases hfind : s.find env name.value <;> simp [himm, hzero]
  · cases hfind : s.find env name.value <;> simp [himm]

end

end ComSA.Rlist
