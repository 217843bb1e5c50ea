import ComSA.Lib.Cut
import ComSA.Rlist.ReplicatedList
import Mathlib.Algebra.Group.Int.Defs

/-!
# Creating a list

After a start of the cluster, a list may be there already, or parts of it: its object in IMM,
the directory with the files of its items, or its RT objects. When the attributes are those of
the items again. Reading and writing always succeed here.
-/

namespace ComSA.Rlist

structure CreateEnv where
  replicateInIMM : Bool
  clearAlarmsOnClusterReboot : Bool
  rlistMaxsize : Nat
  createclass : String → MafReturn

structure ListObject where
  blockSize : Nat
  lastId : Nat
  numElements : Nat
  deriving DecidableEq, Repr

structure Repository where
  object : Option ListObject
  directory : Option (List String)
  rtObjects : List Nat
  deriving DecidableEq, Repr

inductive ClusterState where
  | restored
  | rebootedOnly
  | rtObjExist
  deriving DecidableEq, Repr

/-! ## Names of files -/

def strBin : String := ".bin"

def endsWithBin (name : List Char) : Bool := 4 ≤ name.length && name.drop (name.length - 4) = strBin.toList

def grepBin : List Char → Bool
  | [] => false
  | _ :: rest => (rest.take 3).map Char.toLower = "bin".toList || grepBin rest

def listed (name : List Char) : Bool := name.head? ≠ some '.'

def strtok (buff : List Char) : Option (List Char) :=
  let rest := buff.dropWhile (· = '.')
  if rest = [] then none else some (rest.takeWhile (· ≠ '.'))

def isspace (c : Char) : Bool := c = ' ' || 9 ≤ c.toNat && c.toNat ≤ 13

def atol (s : List Char) : Int :=
  let s := s.dropWhile isspace
  let digits := (if s.head? = some '-' ∨ s.head? = some '+' then s.drop 1 else s).takeWhile Char.isDigit
  let n := Nat.ofDigitChars 10 digits 0
  if s.head? = some '-' then -(min n (2 ^ 63) : Nat) else (min n (2 ^ 63 - 1) : Nat)

def toUint32 (n : Int) : Nat := (n % 2 ^ 32).toNat

/-! ## What is done with the parts -/

variable (env : CreateEnv)

def setAttributes (numElements lastId : Nat) (r : Repository) : Repository :=
  { r with object := r.object.map fun o => { o with numElements := numElements, lastId := lastId } }

def actualDataSize (files : List String) (r : Repository) : Nat :=
  if env.replicateInIMM then toUint r.rtObjects.length
  else toUint (files.filter fun name => listed name.toList && grepBin name.toList).length

def validateImmData (files : List String) (listSize : Nat) (r : Repository) : MafReturn × Repository :=
  if actualDataSize env files r ≠ listSize then (.notExist, setAttributes 0 0 r) else (.ok, r)

def detectClusterState (r : Repository) : MafReturn × ClusterState × Repository :=
  if env.replicateInIMM then
    match r.object with
    | none => (.notExist, .rebootedOnly, r)
    | some o =>
      let v := validateImmData env [] o.numElements r
      (v.1, .rtObjExist, v.2)
  else
    match r.directory with
    | none => (.ok, .restored, r)
    | some files =>
      match r.object with
      | none => (.notExist, .rebootedOnly, r)
      | some o =>
        let v := validateImmData env files o.numElements r
        (v.1, .rtObjExist, v.2)

def removeAllFiles (r : Repository) : Repository := { r with directory := r.directory.map fun _ => [] }

def deleteAllRTObjects (r : Repository) : Repository := { r with rtObjects := [] }

def createDir (r : Repository) : Repository := { r with directory := some (r.directory.getD []) }

def createObject (dataBufferSize : Nat) (r : Repository) : Repository :=
  { r with object := some (r.object.getD ⟨dataBufferSize, 0, 0⟩) }

/-- Counts a file, and takes its number where it is the highest so far. -/
def countFile (acc : Nat × Nat) (name : String) : Nat × Nat :=
  if endsWithBin name.toList then
    match strtok name.toList with
    | some token =>
      let fileNum := toUint32 (atol token)
      (toUint (acc.1 + 1), if acc.2 < fileNum then fileNum else acc.2)
    | none => (toUint (acc.1 + 1), acc.2)
  else acc

def restoreImmData (r : Repository) : MafReturn × Repository :=
  let acc := (r.directory.getD []).foldl countFile (0, 0)
  if 0 < acc.1 then (.alreadyExist, setAttributes acc.1 acc.2 r) else (.ok, r)

/-- The directory and the object of the list, after the state of the cluster was detected. -/
def createParts (dataBufferSize : Nat) (rc : MafReturn) (r : Repository) : MafReturn × Repository :=
  let r :=
    if rc = .notExist then
      if env.replicateInIMM then deleteAllRTObjects r
      else if env.clearAlarmsOnClusterReboot then removeAllFiles r
      else r
    else r
  let r := if env.replicateInIMM then r else createDir r
  let r := createObject dataBufferSize r
  if env.replicateInIMM = false ∧ env.clearAlarmsOnClusterReboot = false then restoreImmData r else (.ok, r)

def listCreate (listInstanceName : ListItemName) (dataBufferSize : Nat) (r : Repository) : MafReturn × Repository :=
  if !validateName listInstanceName then (.noResources, r)
  else if env.rlistMaxsize < dataBufferSize then (.noResources, r)
  else if env.createclass listInstanceName.value ≠ .ok then (.noResources, r)
  else if env.replicateInIMM = true ∧ env.createclass (listInstanceName.value ++ "RT") ≠ .ok then (.noResources, r)
  else
    match detectClusterState env r with
    | (.ok, .rtObjExist, r) => (.alreadyExist, r)
    | (rc, _, r) => createParts env dataBufferSize rc r

/-! ## What is to hold -/

def itemFile (n : Nat) : String := itemName n ++ strBin

def FilesOfItems (r : Repository) : Prop := ∀ files ∈ r.directory, ∃ ids : List Nat, files = ids.map itemFile

def storedItems (r : Repository) : Nat :=
  if env.replicateInIMM then r.rtObjects.length else (r.directory.getD []).length

def StoredId (n : Nat) (r : Repository) : Prop :=
  if env.replicateInIMM then n ∈ r.rtObjects else itemFile n ∈ r.directory.getD []

/-- The attributes are those of the items that are stored, and the list is empty where it is new. -/
def Restores (r : MafReturn × Repository) : Prop :=
  (r.1 = .ok ∨ r.1 = .alreadyExist → ∃ o, r.2.object = some o ∧ o.numElements = storedItems env r.2 ∧
    ∀ n, StoredId env n r.2 → n ≤ o.lastId) ∧
  (r.1 = .ok → storedItems env r.2 = 0)

def Fits (o : ListObject) (r : Repository) : Prop := storedItems env r ≤ uintMax ∧ ∀ n, StoredId env n r →
    n ≤ o.lastId

def CanFit (r : Repository) : Prop := storedItems env r ≤ uintMax ∧ ∀ n, StoredId env n r → n ≤ uintMax

/-- Where the count is that of what is stored, the highest number has to be right already. What is kept
has to have numbers of 32 bits; and where the directory is gone, the count must not be left over. -/
def CreateFine (r : Repository) : Prop :=
  match r.object with
  | some o =>
    if env.replicateInIMM = false ∧ r.directory = none then o.numElements = 0
    else if toUint (storedItems env r) = o.numElements then Fits env o r
    else env.replicateInIMM = true ∨ env.clearAlarmsOnClusterReboot = true ∨ CanFit env r
  | none => env.replicateInIMM = true ∨ env.clearAlarmsOnClusterReboot = true ∨ CanFit env r

def Accepted (listInstanceName : ListItemName) (dataBufferSize : Nat) : Prop :=
  validateName listInstanceName = true ∧ dataBufferSize ≤ env.rlistMaxsize ∧
    env.createclass listInstanceName.value = .ok ∧
    (env.replicateInIMM = true → env.createclass (listInstanceName.value ++ "RT") = .ok)

section
variable {env : CreateEnv} {r : Repository} {n : Nat}

/-! ## The files of items -/

theorem toList_itemFile (n : Nat) : (itemFile n).toList = (toString n).toList ++ '.' :: "bin".toList := by
  rw [itemFile, String.toList_append]
  rfl

theorem toString_ne_nil (n : Nat) : (toString n).toList ≠ [] := by
  rw [toList_toString]
  exact Nat.toDigits_ne_nil

theorem head_itemFile (n : Nat) : ∃ c cs, (itemFile n).toList = c :: cs ∧ c.isDigit = true := by
  obtain ⟨c, cs, hname⟩ := List.exists_cons_of_ne_nil (toString_ne_nil n)
  refine ⟨c, cs ++ '.' :: "bin".toList, ?_, isDigit_of_mem_toString (hname ▸ List.mem_cons_self)⟩
  rw [toList_itemFile, hname, List.cons_append]

theorem endsWithBin_itemFile (n : Nat) : endsWithBin (itemFile n).toList = true := by
  rw [toList_itemFile, endsWithBin]
  have hlen : ((toString n).toList ++ '.' :: "bin".toList).length = (toString n).toList.length + 4 := by simp
  rw [hlen, Nat.add_sub_cancel, List.drop_left]
  simp
  rfl

theorem grepBin_append (s : List Char) : grepBin (s ++ '.' :: "bin".toList) = true := by
  induction s with
  | nil => decide
  | cons c s ih => rw [List.cons_append, grepBin, ih, Bool.or_true]

theorem grepBin_itemFile (n : Nat) : listed (itemFile n).toList && grepBin (itemFile n).toList := by
  obtain ⟨c, cs, hname, hdigit⟩ := head_itemFile n
  have hgrep : grepBin (itemFile n).toList = true := by
    rw [toList_itemFile]
    exact grepBin_append _
  rw [hgrep, Bool.and_true, listed, hname, List.head?_cons]
  rw [decide_eq_true_iff, ne_eq, Option.some_inj]
  rintro rfl
  exact absurd hdigit (by decide)

theorem dot_notMem_toString (n : Nat) : '.' ∉ (toString n).toList := fun h =>
  absurd (isDigit_of_mem_toString h) (by decide)

theorem strtok_itemFile (n : Nat) : strtok (itemFile n).toList = some (toString n).toList := by
  obtain ⟨c, cs, hname⟩ := List.exists_cons_of_ne_nil (toString_ne_nil n)
  have hdot := dot_notMem_toString n
  have hdrop : (itemFile n).toList.dropWhile (· = '.') = (itemFile n).toList := by
    rw [toList_itemFile, hname, List.cons_append]
    refine List.dropWhile_cons_of_neg ?_
    rw [decide_eq_true_iff]
    rintro rfl
    exact hdot (hname ▸ List.mem_cons_self)
  rw [strtok, hdrop, if_neg (by simp [toList_itemFile]), toList_itemFile, (cut_first hdot).1]

theorem atol_toString (n : Nat) : atol (toString n).toList = (min n (2 ^ 63 - 1) : Nat) := by
  have hall : ∀ c ∈ (toString n).toList, c.isDigit = true := fun c hc => isDigit_of_mem_toString hc
  have hvalue : Nat.ofDigitChars 10 (toString n).toList 0 = n := by
    rw [toList_toString, Nat.ofDigitChars_ten_toDigits]
  obtain ⟨c, cs, hname⟩ := List.exists_cons_of_ne_nil (toString_ne_nil n)
  have hdigit := hall c (hname ▸ List.mem_cons_self)
  have hne (d : Char) (hd : d.isDigit = false) : (c :: cs).head? ≠ some d := by
    rintro heq
    rw [List.head?_cons, Option.some_inj] at heq
    rw [heq, hd] at hdigit
    cases hdigit
  have hspace : (c :: cs).dropWhile isspace = c :: cs := by
    refine List.dropWhile_cons_of_neg fun hspace => ?_
    have hlow : 48 ≤ c.toNat := (Char.isDigit_iff_toNat.mp hdigit).1
    rw [isspace, Bool.or_eq_true, Bool.and_eq_true, decide_eq_true_iff, decide_eq_true_iff,
      decide_eq_true_iff] at hspace
    rcases hspace with rfl | ⟨-, hhigh⟩
    · exact absurd hlow (by decide)
    · omega
  rw [hname] at hall hvalue ⊢
  unfold atol
  rw [hspace]
  dsimp only
  rw [if_neg (not_or.mpr ⟨hne '-' (by decide), hne '+' (by decide)⟩), if_neg (hne '-' (by decide)),
    List.takeWhile_eq_self_iff.mpr hall, hvalue]

theorem itemFile_injective {m : Nat} (h : itemFile n = itemFile m) : n = m := by
  have hname := strtok_itemFile n
  rw [h, strtok_itemFile m, Option.some_inj] at hname
  exact (toString_injective (String.toList_injective hname)).symm

def fileNumber (n : Nat) : Nat := toUint (min n (2 ^ 63 - 1))

theorem fileNumber_le (n : Nat) : fileNumber n ≤ uintMax := by
  have := toUint_lt (min n (2 ^ 63 - 1))
  unfold fileNumber uintMax
  omega

theorem fileNumber_of_le (h : n ≤ uintMax) : fileNumber n = n := by
  unfold fileNumber toUint uintMax at *
  omega

theorem countFile_itemFile (acc : Nat × Nat) (n : Nat) :
    countFile acc (itemFile n) = (toUint (acc.1 + 1), max acc.2 (fileNumber n)) := by
  have hnum : toUint32 (min n (2 ^ 63 - 1) : Nat) = fileNumber n := by
    unfold toUint32 fileNumber toUint
    omega
  rw [countFile, if_pos (endsWithBin_itemFile n), strtok_itemFile]
  dsimp only
  rw [atol_toString, hnum]
  split
  · rw [max_eq_right (le_of_lt ‹_›)]
  · rw [max_eq_left (not_lt.mp ‹_›)]

theorem foldl_countFile (ids : List Nat) (k : Nat) {last : Nat} (hlast : last ≤ uintMax) :
    ∃ last', (ids.map itemFile).foldl countFile (toUint k, last) = (toUint (k + ids.length), last') ∧
      last ≤ last' ∧ last' ≤ uintMax ∧ ∀ n ∈ ids, fileNumber n ≤ last' := by
  induction ids generalizing k last with
  | nil => exact ⟨last, rfl, le_rfl, hlast, fun n hn => absurd hn List.not_mem_nil⟩
  | cons m ids ih =>
    obtain ⟨last', hfold, hle, hmax, hall⟩ := ih (k + 1) (max_le hlast (fileNumber_le m))
    have hcount : toUint (toUint k + 1) = toUint (k + 1) := by
      unfold toUint
      omega
    refine ⟨last', ?_, (le_max_left _ _).trans hle, hmax, fun n hn => ?_⟩
    · rw [List.map_cons, List.foldl_cons, countFile_itemFile, hcount, hfold, List.length_cons, Nat.add_assoc,
        Nat.add_comm 1]
    · rcases List.mem_cons.mp hn with rfl | hn
      · exact (le_max_right _ _).trans hle
      · exact hall n hn

/-! ## Restoring -/

theorem storedItems_of_files (hfile : env.replicateInIMM = false) {ids : List Nat}
    (hdir : r.directory.getD [] = ids.map itemFile) : storedItems env r = ids.length := by
  rw [storedItems, hfile, if_neg Bool.false_ne_true, hdir, List.length_map]

theorem storedId_of_files (hfile : env.replicateInIMM = false) {ids : List Nat}
    (hdir : r.directory.getD [] = ids.map itemFile) : StoredId env n r ↔ n ∈ ids := by
  rw [StoredId, hfile, if_neg Bool.false_ne_true, hdir]
  constructor
  · intro hn
    obtain ⟨m, hm, heq⟩ := List.mem_map.mp hn
    rwa [← itemFile_injective heq]
  · exact List.mem_map_of_mem

theorem not_storedId_of_none (h : storedItems env r = 0) (n : Nat) : ¬ StoredId env n r := by
  unfold storedItems at h
  unfold StoredId
  split at h <;> rename_i hmode
  · rw [if_pos hmode, List.length_eq_zero_iff.mp h]
    exact List.not_mem_nil
  · rw [if_neg hmode, List.length_eq_zero_iff.mp h]
    exact List.not_mem_nil

theorem restores_ok_iff {o : ListObject} (hobj : r.object = some o) :
    Restores env (.ok, r) ↔ o.numElements = 0 ∧ storedItems env r = 0 := by
  unfold Restores
  constructor
  · rintro ⟨hfits, hnone⟩
    obtain ⟨o', hobj', hcount, -⟩ := hfits (Or.inl rfl)
    obtain rfl := Option.some.inj (hobj.symm.trans hobj')
    exact ⟨hcount.trans (hnone rfl), hnone rfl⟩
  · rintro ⟨hcount, hnone⟩
    exact ⟨fun _ => ⟨o, hobj, hcount.trans hnone.symm, fun n hn => absurd hn (not_storedId_of_none hnone n)⟩,
      fun _ => hnone⟩

theorem restores_alreadyExist_iff {o : ListObject} (hobj : r.object = some o) :
    Restores env (.alreadyExist, r) ↔ o.numElements = storedItems env r ∧ ∀ n, StoredId env n r → n ≤ o.lastId := by
  unfold Restores
  constructor
  · rintro ⟨hfits, -⟩
    obtain ⟨o', hobj', hcount, hlast⟩ := hfits (Or.inr rfl)
    obtain rfl := Option.some.inj (hobj.symm.trans hobj')
    exact ⟨hcount, hlast⟩
  · rintro ⟨hcount, hlast⟩
    exact ⟨fun _ => ⟨o, hobj, hcount, hlast⟩, nofun⟩

theorem restores_noResources : Restores env (.noResources, r) := by
  refine ⟨?_, nofun⟩
  rintro (h | h) <;> cases h

theorem toUint_eq_self_iff : toUint n = n ↔ n ≤ uintMax := by
  unfold toUint uintMax
  omega

theorem restores_restore_iff (hfile : env.replicateInIMM = false) {ids : List Nat}
    (hdir : r.directory.getD [] = ids.map itemFile) {o : ListObject} (hobj : r.object = some o) :
    Restores env (restoreImmData r) ↔ (ids = [] → o.numElements = 0) ∧ CanFit env r := by
  obtain ⟨last, hfold, -, hmax, hall⟩ := foldl_countFile ids 0 (Nat.zero_le uintMax)
  rw [Nat.zero_add] at hfold
  have hitems := storedItems_of_files hfile hdir
  have hids (n : Nat) := storedId_of_files (n := n) hfile hdir
  unfold restoreImmData CanFit
  rw [hdir, show ((0, 0) : Nat × Nat) = (toUint 0, 0) from rfl, hfold, hitems]
  simp only [hids]
  by_cases hcount : 0 < toUint ids.length
  · rw [if_pos hcount]
    have hobj' : (setAttributes (toUint ids.length) last r).object =
        some { o with numElements := toUint ids.length, lastId := last } := by
      rw [setAttributes, hobj]
      rfl
    rw [restores_alreadyExist_iff hobj', show storedItems env (setAttributes (toUint ids.length) last r) = _
      from hitems]
    dsimp only
    rw [toUint_eq_self_iff]
    have hne : ids ≠ [] := by
      rintro rfl
      exact absurd hcount (by decide)
    constructor
    · rintro ⟨hle, hlast⟩
      exact ⟨fun hnil => absurd hnil hne, hle, fun n hn => (hlast n ((hids n).mpr hn)).trans hmax⟩
    · rintro ⟨-, hle, hbound⟩
      refine ⟨hle, fun n hn => ?_⟩
      have hn : n ∈ ids := (hids n).mp hn
      rw [← fileNumber_of_le (hbound n hn)]
      exact hall n hn
  · rw [if_neg hcount, restores_ok_iff hobj, hitems]
    constructor
    · rintro ⟨hnum, hnone⟩
      rw [List.length_eq_zero_iff.mp hnone]
      exact ⟨fun _ => hnum, Nat.zero_le _, fun n hn => absurd hn List.not_mem_nil⟩
    · rintro ⟨hnum, hle, -⟩
      rw [toUint_eq_self_iff.mpr hle] at hcount
      have hnone : ids.length = 0 := by omega
      exact ⟨hnum (List.length_eq_zero_iff.mp hnone), hnone⟩

/-! ## Creating -/

theorem listCreate_of_accepted {name : ListItemName} {size : Nat} (h : Accepted env name size) :
    listCreate env name size r =
      match detectClusterState env r with
      | (.ok, .rtObjExist, r) => (.alreadyExist, r)
      | (rc, _, r) => createParts env size rc r := by
  obtain ⟨hvalid, hsize, hclass, hclassRT⟩ := h
  unfold listCreate
  rw [if_neg (by simp [hvalid]), if_neg (not_lt.mpr hsize), if_neg (not_not.mpr hclass),
    if_neg fun hbad => hbad.2 (hclassRT hbad.1)]

theorem listCreate_of_not_accepted {name : ListItemName} {size : Nat} (h : ¬ Accepted env name size) :
    listCreate env name size r = (.noResources, r) := by
  unfold listCreate
  by_cases hvalid : validateName name = true
  · rw [if_neg (by simp [hvalid])]
    split
    · rfl
    split
    · rfl
    split
    · rfl
    · rename_i hsize hclass hclassRT
      exact absurd ⟨hvalid, not_lt.mp hsize, not_not.mp hclass, fun himm => by
        by_contra hbad
        exact hclassRT ⟨himm, hbad⟩⟩ h
  · rw [if_pos (by simpa using hvalid)]

theorem restores_found_iff {o : ListObject} (hobj : r.object = some o)
    (hcount : toUint (storedItems env r) = o.numElements) : Restores env (.alreadyExist, r) ↔ Fits env o r := by
  rw [restores_alreadyExist_iff hobj, Fits, ← hcount, toUint_eq_self_iff]

theorem restores_createParts_imm (himm : env.replicateInIMM = true) (size : Nat)
    (hobj : ∀ o ∈ r.object, o.numElements = 0) : Restores env (createParts env size .notExist r) := by
  have hparts : createParts env size .notExist r = (.ok, createObject size (deleteAllRTObjects r)) := by
    simp [createParts, himm]
  have hcreated : (createObject size (deleteAllRTObjects r)).object = some (r.object.getD ⟨size, 0, 0⟩) := rfl
  rw [hparts, restores_ok_iff hcreated]
  refine ⟨?_, by simp [storedItems, himm, createObject, deleteAllRTObjects]⟩
  cases ho : r.object with
  | none => rfl
  | some o => exact hobj o ho

section
variable (hfile : env.replicateInIMM = false) (size : Nat)
include hfile

theorem createParts_of_file (rc : MafReturn) :
    createParts env size rc r =
      if env.clearAlarmsOnClusterReboot then
        (.ok, createObject size (createDir (if rc = .notExist then removeAllFiles r else r)))
      else restoreImmData (createObject size (createDir r)) := by
  cases hclear : env.clearAlarmsOnClusterReboot <;> simp [createParts, hfile, hclear]

theorem restores_createParts_empty (rc : MafReturn) (hdir : r.directory.getD [] = []) :
    Restores env (createParts env size rc r) ↔ ∀ o ∈ r.object, o.numElements = 0 := by
  have hobj : (r.object.getD ⟨size, 0, 0⟩).numElements = 0 ↔ ∀ o ∈ r.object, o.numElements = 0 := by
    cases r.object <;> simp
  rw [createParts_of_file hfile]
  split
  · have hitems : storedItems env
      (createObject size (createDir (if rc = .notExist then removeAllFiles r else r))) = 0 := by
      rw [storedItems, hfile, if_neg Bool.false_ne_true]
      split
      · cases hr : r.directory <;> simp [createObject, createDir, removeAllFiles, hr]
      · simp [createObject, createDir, hdir]
    have hcreated : (createObject size (createDir (if rc = .notExist then removeAllFiles r else r))).object =
        some (r.object.getD ⟨size, 0, 0⟩) := by
      split <;> rfl
    rw [restores_ok_iff hcreated, ← hobj]
    exact ⟨And.left, fun h => ⟨h, hitems⟩⟩
  · have hcreated : (createObject size (createDir r)).object = some (r.object.getD ⟨size, 0, 0⟩) := rfl
    have hids : (createObject size (createDir r)).directory.getD [] = ([] : List Nat).map itemFile := hdir
    rw [restores_restore_iff hfile hids hcreated, ← hobj]
    refine ⟨fun h => h.1 rfl, fun h => ⟨fun _ => h, ?_⟩⟩
    refine ⟨(storedItems_of_files hfile hids).trans_le (Nat.zero_le _), fun n hn => ?_⟩
    exact absurd ((storedId_of_files hfile hids).mp hn) List.not_mem_nil

theorem restores_createParts_files {ids : List Nat} (hdir : r.directory = some (ids.map itemFile))
    (hobj : ∀ o ∈ r.object, o.numElements = 0) :
    Restores env (createParts env size .notExist r) ↔ env.clearAlarmsOnClusterReboot = true ∨ CanFit env r := by
  have hzero : (r.object.getD ⟨size, 0, 0⟩).numElements = 0 := by
    cases ho : r.object with
    | none => rfl
    | some o => exact hobj o ho
  rw [createParts_of_file hfile]
  by_cases hclear : env.clearAlarmsOnClusterReboot = true
  · rw [if_pos hclear, if_pos rfl]
    have hcreated : (createObject size (createDir (removeAllFiles r))).object =
      some (r.object.getD ⟨size, 0, 0⟩) := rfl
    rw [restores_ok_iff hcreated]
    refine iff_of_true ⟨hzero, ?_⟩ (Or.inl hclear)
    simp [storedItems, hfile, createObject, createDir, removeAllFiles, hdir]
  · rw [if_neg hclear]
    have hcreated : (createObject size (createDir r)).object = some (r.object.getD ⟨size, 0, 0⟩) := rfl
    have hfiles : (createObject size (createDir r)).directory.getD [] = ids.map itemFile := by
      simp [createObject, createDir, hdir]
    have hsame : CanFit env (createObject size (createDir r)) ↔ CanFit env r := by
      have hfiles' : r.directory.getD [] = ids.map itemFile := by rw [hdir, Option.getD_some]
      unfold CanFit
      simp only [storedItems_of_files hfile hfiles, storedItems_of_files hfile hfiles',
        storedId_of_files hfile hfiles, storedId_of_files hfile hfiles']
    rw [restores_restore_iff hfile hfiles hcreated, hsame]
    exact ⟨fun h => Or.inr h.2, fun h => ⟨fun _ => hzero, h.resolve_left hclear⟩⟩

end

/-! ## What is counted -/

theorem actualDataSize_eq {files : List String} (hfiles : env.replicateInIMM = false → r.directory = some files)
    (hitems : FilesOfItems r) : actualDataSize env files r = toUint (storedItems env r) := by
  unfold actualDataSize storedItems
  split
  · rfl
  · rename_i hmode
    have hdir := hfiles (Bool.eq_false_iff.mpr hmode)
    obtain ⟨ids, rfl⟩ := hitems files hdir
    rw [hdir, Option.getD_some, List.filter_eq_self.mpr]
    intro name hname
    obtain ⟨n, -, rfl⟩ := List.mem_map.mp hname
    exact grepBin_itemFile n

theorem validateImmData_eq {files : List String} (hfiles : env.replicateInIMM = false → r.directory = some files)
    (hitems : FilesOfItems r) (listSize : Nat) :
    validateImmData env files listSize r =
      if toUint (storedItems env r) = listSize then (.ok, r) else (.notExist, setAttributes 0 0 r) := by
  rw [validateImmData, actualDataSize_eq hfiles hitems, ite_not]

theorem numElements_reset : ∀ o ∈ (setAttributes 0 0 r).object, o.numElements = 0 := by
  intro o ho
  obtain ⟨o', -, rfl⟩ := Option.map_eq_some_iff.mp ho
  rfl

end

/-! ## The list is as it was -/

/-- After the call the attributes are those of the items, and a list that is said to be new is empty,
precisely when the call is turned down or what was there before lets the attributes be right. -/
theorem restores_iff (env : CreateEnv) (listInstanceName : ListItemName) (dataBufferSize : Nat) (r : Repository)
    (hitems : FilesOfItems r) :
    Restores env (listCreate env listInstanceName dataBufferSize r) ↔
      (Accepted env listInstanceName dataBufferSize → CreateFine env r) := by
  by_cases hacc : Accepted env listInstanceName dataBufferSize
  swap
  · rw [listCreate_of_not_accepted hacc]
    exact iff_of_true restores_noResources fun h => absurd h hacc
  rw [listCreate_of_accepted hacc, forall_prop_of_true hacc]
  cases himm : env.replicateInIMM with
  | true =>
    have hfiles : env.replicateInIMM = false → r.directory = some ([] : List String) := fun h => by
      rw [himm] at h
      cases h
    cases hobj : r.object with
    | none =>
      simp only [detectClusterState, himm, hobj, CreateFine, if_true]
      exact iff_of_true (restores_createParts_imm himm _ (by simp [hobj])) (Or.inl trivial)
    | some o =>
      simp only [detectClusterState, himm, hobj, CreateFine, if_true, validateImmData_eq hfiles hitems]
      by_cases hcount : toUint (storedItems env r) = o.numElements
      · simp only [if_pos hcount]
        simpa [himm] using restores_found_iff hobj hcount
      · simp only [if_neg hcount]
        simpa [himm] using restores_createParts_imm himm dataBufferSize numElements_reset
  | false =>
    cases hdir : r.directory with
    | none =>
      have hempty : r.directory.getD [] = [] := by rw [hdir]; rfl
      simp only [detectClusterState, himm, hdir, Bool.false_eq_true, if_false]
      rw [restores_createParts_empty himm _ _ hempty]
      cases hobj : r.object with
      | none =>
        have hids : r.directory.getD [] = ([] : List Nat).map itemFile := hempty
        simp [CreateFine, CanFit, himm, hobj, storedItems_of_files himm hids, storedId_of_files himm hids]
      | some o => simp [CreateFine, himm, hdir, hobj]
    | some files =>
      obtain ⟨ids, rfl⟩ := hitems files hdir
      have hfiles : env.replicateInIMM = false → r.directory = some (ids.map itemFile) := fun _ => hdir
      cases hobj : r.object with
      | none =>
        simp only [detectClusterState, himm, hdir, hobj, CreateFine, Bool.false_eq_true, if_false, false_or]
        exact restores_createParts_files himm _ hdir (by simp [hobj])
      | some o =>
        simp only [detectClusterState, himm, hdir, hobj, CreateFine, Bool.false_eq_true, if_false, false_or,
          validateImmData_eq hfiles hitems]
        by_cases hcount : toUint (storedItems env r) = o.numElements
        · simp only [if_pos hcount]
          simpa using restores_found_iff hobj hcount
        · simp only [if_neg hcount]
          have hreset : (setAttributes 0 0 r).directory = some (ids.map itemFile) := hdir
          have hparts := restores_createParts_files himm dataBufferSize hreset numElements_reset
          rw [show CanFit env (setAttributes 0 0 r) = CanFit env r from rfl] at hparts
          simpa using hparts

/-- The files of the items 1 and 7 of a list, and no object: both are found again. -/
theorem restores_files :
    Restores ⟨false, false, 4096, fun _ => .ok⟩
      (listCreate ⟨false, false, 4096, fun _ => .ok⟩ ⟨5, "list"⟩ 1024 ⟨none, some ["1.bin", "7.bin"], []⟩) := by
  refine (restores_iff _ ⟨5, "list"⟩ 1024 _ ?_).mpr fun _ => Or.inr (Or.inr ⟨by decide, ?_⟩)
  · rintro files hfiles
    obtain rfl := Option.some.inj hfiles
    exact ⟨[1, 7], rfl⟩
  · have hids : (some ["1.bin", "7.bin"]).getD [] = [1, 7].map itemFile := rfl
    intro n hn
    rcases List.mem_pair.mp ((storedId_of_files rfl hids).mp hn) with rfl | rfl <;> decide

/-- The count of the object is right, and its highest number is not. -/
theorem not_restores :
    ¬ (∀ (env : CreateEnv) (listInstanceName : ListItemName) (dataBufferSize : Nat) (r : Repository),
      FilesOfItems r → Restores env (listCreate env listInstanceName dataBufferSize r)) := by
  intro h
  have hcall := h ⟨true, false, 4096, fun _ => .ok⟩ ⟨5, "list"⟩ 1024 ⟨some ⟨1024, 0, 1⟩, none, [5]⟩ nofun
  obtain ⟨o, hobj, -, hlast⟩ := hcall.1 (Or.inr (by decide))
  have hfive : 5 ≤ o.lastId := hlast 5 (List.mem_singleton.mpr rfl)
  obtain rfl : ⟨1024, 0, 1⟩ = o := Option.some.inj hobj
  exact absurd hfive (by decide)

end ComSA.Rlist
