import ComSA.Lib.Buffer
import ComSA.Lib.Delimited
import ComSA.Lib.PartialFold
import Mathlib.Data.List.Flatten
import Mathlib.Data.List.Forall2

/-!
# The additional information of an alarm

An alarm of NTF becomes an alarm of COM. Its additional information is copied into an array, apart from the
UUIDs where they are mapped into the additional text.
-/

namespace ComSA.Alarm

/-! ## The alarm of NTF -/

def nul : Char := Char.ofNat 0

abbrev Text := CString nul

inductive UuidCfg where
  | uuidDisableHandle
  | uuidMapToAddInfoName
  | uuidMapValueToAddText
  deriving DecidableEq, Repr

inductive FmVersion where
  | fm3
  | fm4
  deriving DecidableEq, Repr

inductive MafReturn where
  | ok
  | noResources
  | notExist
  | failure
  deriving DecidableEq, Repr

inductive InfoType where
  | string
  | ldapName
  | other
  deriving DecidableEq, Repr

structure AdditionalInfo where
  infoId : Nat
  infoType : InfoType
  infoValue : Nat
  deriving DecidableEq, Repr

structure NotificationHeader where
  eventTime : Int
  notificationObject : Text
  vendorId : Nat
  majorId : Nat
  minorId : Nat
  additionalText : Option Text
  additionalInfo : List AdditionalInfo

/-! ## The alarm of COM -/

structure FmAdditionalInfo where
  name : Text
  value : Text
  deriving DecidableEq

/-- The elements of the array that were not written yet are `none`. Without an array there are no elements. -/
structure FmAdditionalInfos where
  size : Nat := 0
  additionalInfoArr : List (Option FmAdditionalInfo) := []

structure FmStruct4 where
  dn : Option Text := none
  eventTime : Int := 0
  majorType : Nat := 0
  minorType : Nat := 0
  additionalText : Option (List Char) := none
  additionalInfo : FmAdditionalInfos := {}

/-- What the alarm type and the measurement reader of a PM alarm tell, from IMM. -/
structure PmAlarm where
  dn : Text
  majAlarm : Nat
  minAlarm : Nat
  addText : Text

structure Env where
  uuidCfgFlag : UuidCfg
  mafSpiNtfFmVersion : FmVersion
  filter : Bool
  saNtfPtrValGet : Nat → Option Text
  convertTo3Gpp : Text → Option Text
  convertTo3GPPDN : Text → Option Text
  /-- Where the PM alarm could not be read, its DN may be there already. -/
  pmAlarm : NotificationHeader → Except (Option Text) PmAlarm

def uuidLength : Nat := 36
def uuidAddtextHeader : List Char := ";uuid:".toList
def ericssonVendorId : Nat := 193
def saNtfVendorIdSaf : Nat := 18568
def uuid : Nat := 99

namespace NotificationHeader

def numAdditionalInfo (nh : NotificationHeader) : Nat := nh.additionalInfo.length

def isPmThreshold (nh : NotificationHeader) : Bool :=
  nh.vendorId = saNtfVendorIdSaf ∧ nh.majorId = 20 ∧ nh.minorId = 1

def isUUIDAlarm (nh : NotificationHeader) (info : AdditionalInfo) : Bool :=
  info.infoId = uuid ∧ nh.vendorId = ericssonVendorId ∧ info.infoType = .string

end NotificationHeader

def AdditionalInfo.isUUID (info : AdditionalInfo) : Bool := info.infoId = uuid ∧ info.infoType = .string

def getAdditionalInfoName (env : Env) (nextAddInfo : AdditionalInfo) : Option Text :=
  match nextAddInfo.infoType with
  | .string => env.saNtfPtrValGet nextAddInfo.infoValue
  | .ldapName => (env.saNtfPtrValGet nextAddInfo.infoValue).bind env.convertTo3Gpp
  | .other => none

/-! ## The array -/

def emptyText : Text := ⟨[], by decide⟩

def uuidName : Text := ⟨"uuid".toList, by decide⟩

/-- One turn of the loop that fills the array, with the index of the next element. -/
def copyInfo (env : Env) (nh : NotificationHeader) (s : Nat × List (Option FmAdditionalInfo))
    (info : AdditionalInfo) : Option (Nat × List (Option FmAdditionalInfo)) :=
  if env.uuidCfgFlag = .uuidMapValueToAddText ∧ nh.isUUIDAlarm info then some s
  else
    let name := if env.uuidCfgFlag = .uuidMapToAddInfoName ∧ nh.isUUIDAlarm info then uuidName else emptyText
    let value := (getAdditionalInfoName env info).getD emptyText
    (Buffer.store s.1 [some ⟨name, value⟩] s.2).map fun arr => (s.1 + 1, arr)

def copyAdditionalInfo (env : Env) (nh : NotificationHeader) (comNot : FmStruct4) : Option FmStruct4 :=
  if 0 < nh.numAdditionalInfo then
    let numUUIDInfo :=
      if env.uuidCfgFlag = .uuidMapValueToAddText then nh.additionalInfo.countP nh.isUUIDAlarm else 0
    let size := nh.numAdditionalInfo - numUUIDInfo
    if 0 < size then
      (nh.additionalInfo.foldlM (copyInfo env nh) (0, List.replicate size none)).map fun s =>
        { comNot with additionalInfo := ⟨size, s.2⟩ }
    else some { comNot with additionalInfo := ⟨0, []⟩ }
  else some { comNot with additionalInfo := { comNot.additionalInfo with size := 0 } }

/-! ## The text -/

/-- One turn of the loop that lists the UUIDs, with the place behind the last comma. -/
def appendUUID (env : Env) (s : Nat × List Char) (info : AdditionalInfo) : Option (Nat × List Char) :=
  if info.isUUID then
    match getAdditionalInfoName env info with
    | some strValue =>
      if strValue.chars.length ≤ uuidLength then do
        let retUUIDs ← Buffer.store s.1 strValue.chars s.2
        let retUUIDs ← Buffer.store (s.1 + strValue.chars.length) [','] retUUIDs
        some (s.1 + strValue.chars.length + 1, retUUIDs)
      else some s
    | none => some s
  else some s

def getUUIDFromAdditionalInfo (env : Env) (nh : NotificationHeader) : Option (Option (List Char)) :=
  if env.uuidCfgFlag = .uuidMapValueToAddText ∧ nh.vendorId = ericssonVendorId ∧ 0 < nh.numAdditionalInfo then
    let numUUIDInfo := nh.additionalInfo.countP AdditionalInfo.isUUID
    if 0 < numUUIDInfo then do
      let lenOfHeader := uuidAddtextHeader.length
      let retUUIDs := List.replicate (lenOfHeader + numUUIDInfo * (uuidLength + 1)) nul
      let (destPtr, retUUIDs) ← nh.additionalInfo.foldlM (appendUUID env) (lenOfHeader, retUUIDs)
      if lenOfHeader < destPtr then
        -- the last comma becomes the NUL
        let retUUIDs ← Buffer.store (destPtr - 1) [nul] retUUIDs
        let retUUIDs ← Buffer.store 0 uuidAddtextHeader retUUIDs
        some (some retUUIDs)
      else some none
    else some none
  else some none

def convertAdditionalText (env : Env) (nh : NotificationHeader) : Option (Option (List Char)) :=
  match nh.additionalText with
  | none => some none
  | some additionalText => do
    let uuidList ←
      if env.uuidCfgFlag = .uuidMapValueToAddText then getUUIDFromAdditionalInfo env nh else some none
    match uuidList with
    | some uuidList =>
      let uuids ← Buffer.string nul uuidList
      let text := List.replicate (additionalText.chars.length + uuids.length + 1) nul
      let text ← Buffer.store 0 additionalText.chars text
      let text ← Buffer.store additionalText.chars.length uuids text
      some (some text)
    | none => some (some (Buffer.ofString nul additionalText))

/-! ## The conversion -/

def convertPmThresholdHeader4 (env : Env) (nh : NotificationHeader) (comNot : FmStruct4) :
    Option (MafReturn × FmStruct4) :=
  match env.pmAlarm nh with
  | .error dn => some (.failure, { comNot with dn := dn })
  | .ok pm => (copyAdditionalInfo env nh { comNot with
      dn := some pm.dn
      additionalText := some (Buffer.ofString nul pm.addText)
      eventTime := nh.eventTime
      majorType := pm.majAlarm
      minorType := pm.minAlarm }).map fun comNot => (.ok, comNot)

/-- What `convertHeader4` does with an alarm that is not converted as one of PM. -/
def convertLegacy (env : Env) (nh : NotificationHeader) (comNot : FmStruct4) : Option (MafReturn × FmStruct4) := do
  let comNot := { comNot with eventTime := nh.eventTime }
  let comNot ← if env.mafSpiNtfFmVersion = .fm3 then some comNot else copyAdditionalInfo env nh comNot
  let additionalText ← convertAdditionalText env nh
  let comNot := { comNot with additionalText := additionalText }
  match env.convertTo3GPPDN nh.notificationObject with
  | none => some (.noResources, comNot)
  | some dn => some (.ok, { comNot with
      dn := some dn
      majorType := nh.vendorId
      minorType := (nh.majorId <<< 16) ||| nh.minorId })

def convertHeader4 (env : Env) (nh : NotificationHeader) (comNot : FmStruct4) : Option (MafReturn × FmStruct4) :=
  if env.filter = false then some (.notExist, comNot)
  else if nh.isPmThreshold then do
    let (pmRetCode, comNot) ← convertPmThresholdHeader4 env nh comNot
    if pmRetCode = .ok then some (pmRetCode, comNot) else convertLegacy env nh comNot
  else convertLegacy env nh comNot

/-! ## What an alarm shall tell -/

def toText (env : Env) (nh : NotificationHeader) : List AdditionalInfo :=
  if env.uuidCfgFlag = .uuidMapValueToAddText then nh.additionalInfo.filter nh.isUUIDAlarm else []

def forArray (env : Env) (nh : NotificationHeader) (info : AdditionalInfo) : Bool :=
  ¬(env.uuidCfgFlag = .uuidMapValueToAddText ∧ nh.isUUIDAlarm info)

def toArray (env : Env) (nh : NotificationHeader) :
    List AdditionalInfo := nh.additionalInfo.filter (forArray env nh)

/-- What an entry tells: a string is told as it is, and a name as COM has it. Nothing is told of an entry of another
type. -/
inductive Tells (env : Env) (info : AdditionalInfo) (value : Text) : Prop
  | string (htype : info.infoType = .string) (hvalue : env.saNtfPtrValGet info.infoValue = some value)
  | ldapName (name : Text) (htype : info.infoType = .ldapName) (hname : env.saNtfPtrValGet info.infoValue = some name)
      (hvalue : env.convertTo3Gpp name = some value)

/-- The element has what the entry tells. A UUID is named as one where UUIDs are mapped to names. -/
def StandsFor (env : Env) (nh : NotificationHeader) (info : AdditionalInfo) (element : Option FmAdditionalInfo) :
    Prop :=
  ∃ name value, element = some ⟨name, value⟩ ∧ Tells env info value ∧
    name = if env.uuidCfgFlag = .uuidMapToAddInfoName ∧ nh.isUUIDAlarm info then uuidName else emptyText

def FmStruct4.text (comNot : FmStruct4) : Option (List Char) := comNot.additionalText.bind (Buffer.string nul)

def listed (values : List Text) : List Char := uuidAddtextHeader ++ [','].intercalate (values.map CString.chars)

/-- Nothing is lost: each entry is found again, in the text or in the array. -/
structure Represented (env : Env) (nh : NotificationHeader) (comNot : FmStruct4) : Prop where
  inText : toText env nh ≠ [] → ∃ values, List.Forall₂ (Tells env) (toText env nh) values ∧
    comNot.text = some ((nh.additionalText.elim [] CString.chars) ++ listed values)
  inArray : List.Forall₂ (StandsFor env nh) (toArray env nh) comNot.additionalInfo.additionalInfoArr
  size : comNot.additionalInfo.size = (comNot.additionalInfo.additionalInfoArr.filterMap id).length

theorem toText_append_toArray_perm (env : Env) (nh : NotificationHeader) :
    (toText env nh ++ toArray env nh).Perm nh.additionalInfo := by
  by_cases hmode : env.uuidCfgFlag = .uuidMapValueToAddText
  · have hnot : ∀ info, forArray env nh info = !nh.isUUIDAlarm info := by simp [forArray, hmode]
    simp only [toText, toArray, hmode, if_true, funext hnot]
    exact List.filter_append_perm _ _
  · have hall : ∀ info, forArray env nh info = true := by simp [forArray, hmode]
    simp [toText, toArray, hmode, List.filter_eq_self.mpr fun info _ => hall info]

/-! ## The array is filled -/

def element (env : Env) (nh : NotificationHeader) (info : AdditionalInfo) : FmAdditionalInfo where
  name := if env.uuidCfgFlag = .uuidMapToAddInfoName ∧ nh.isUUIDAlarm info then uuidName else emptyText
  value := (getAdditionalInfoName env info).getD emptyText

theorem copyInfo_fold (env : Env) (nh : NotificationHeader) (infos : List AdditionalInfo)
    (written : List (Option FmAdditionalInfo)) :
    infos.foldlM (copyInfo env nh) (written.length, written ++ List.replicate (infos.countP (forArray env nh))
      none) =
      some (written.length + infos.countP (forArray env nh),
        written ++ (infos.filter (forArray env nh)).map fun info => some (element env nh info)) := by
  induction infos generalizing written with
  | nil => simp
  | cons info infos ih =>
    rw [List.foldlM_cons]
    by_cases hinfo : env.uuidCfgFlag = .uuidMapValueToAddText ∧ nh.isUUIDAlarm info
    · have hnot : forArray env nh info = false := by simpa [forArray] using hinfo
      have hstep : ∀ s, copyInfo env nh s info = some s := fun s => if_pos hinfo
      rw [hstep, List.countP_cons_of_neg (by simp [hnot]), List.filter_cons_of_neg (by simp [hnot])]
      exact ih written
    · have hfor : forArray env nh info = true := by
        unfold forArray
        exact decide_eq_true hinfo
      have hstore : Buffer.store written.length [some (element env nh info)]
          (written ++ List.replicate (infos.countP (forArray env nh) + 1) none) =
            some (written ++ [some (element env nh info)] ++ List.replicate (infos.countP (forArray env nh))
              none) :=
        Buffer.store_replicate _ (by simp)
      have hstep : copyInfo env nh (written.length,
          written ++ List.replicate (infos.countP (forArray env nh) + 1) none) info =
            some (written.length + 1,
              written ++ [some (element env nh info)] ++ List.replicate (infos.countP (forArray env nh)) none) := by
        unfold copyInfo
        rw [if_neg hinfo]
        exact congrArg (Option.map _) hstore
      have hrest := ih (written ++ [some (element env nh info)])
      rw [List.length_append, List.length_singleton] at hrest
      rw [List.countP_cons_of_pos hfor, List.filter_cons_of_pos hfor, hstep]
      refine hrest.trans ?_
      simp
      omega

theorem size_eq (env : Env) (nh : NotificationHeader) :
    nh.numAdditionalInfo -
      (if env.uuidCfgFlag = .uuidMapValueToAddText then nh.additionalInfo.countP nh.isUUIDAlarm else 0) =
        nh.additionalInfo.countP (forArray env nh) := by
  have hperm := (toText_append_toArray_perm env nh).length_eq
  rw [List.length_append, toText, toArray] at hperm
  simp only [List.countP_eq_length_filter, NotificationHeader.numAdditionalInfo]
  split at hperm <;> rename_i hmode
  · rw [if_pos hmode]
    omega
  · rw [if_neg hmode]
    rw [List.length_nil] at hperm
    omega

theorem copyAdditionalInfo_eq (env : Env) (nh : NotificationHeader) (comNot : FmStruct4)
    (hfresh : comNot.additionalInfo.additionalInfoArr = []) :
    copyAdditionalInfo env nh comNot = some { comNot with
      additionalInfo := ⟨(toArray env nh).length, (toArray env nh).map fun info => some (element env nh info)⟩
        } := by
  have hlength : (toArray env nh).length = nh.additionalInfo.countP (forArray env nh) :=
    List.countP_eq_length_filter.symm
  unfold copyAdditionalInfo
  simp only [size_eq]
  by_cases hnum : 0 < nh.numAdditionalInfo
  · rw [if_pos hnum]
    by_cases hsize : 0 < nh.additionalInfo.countP (forArray env nh)
    · have hfold := copyInfo_fold env nh nh.additionalInfo []
      simp only [List.length_nil, List.nil_append, Nat.zero_add] at hfold
      rw [if_pos hsize, hfold, hlength]
      rfl
    · have hnil : toArray env nh = [] := List.eq_nil_of_length_eq_zero (by omega)
      rw [if_neg hsize, hnil]
      rfl
  · have hnil : nh.additionalInfo = [] := List.eq_nil_of_length_eq_zero (Nat.eq_zero_of_not_pos hnum)
    have harray : toArray env nh = [] := by simp [toArray, hnil]
    rw [if_neg hnum, harray, hfresh]
    rfl

/-! ## The UUIDs are listed -/

def uuidOf (env : Env) (info : AdditionalInfo) : Option Text :=
  (getAdditionalInfoName env info).filter fun strValue => strValue.chars.length ≤ uuidLength

def withComma (value : Text) : List Char := value.chars ++ [',']

theorem appendUUID_none {env : Env} {info : AdditionalInfo} (h : info.isUUID = true → uuidOf env info = none)
    (s : Nat × List Char) : appendUUID env s info = some s := by
  unfold appendUUID
  split
  · rename_i huuid
    have hnone := h huuid
    unfold uuidOf at hnone
    split
    · rename_i strValue hvalue
      rw [hvalue] at hnone
      rw [if_neg (by simpa [Option.filter] using hnone)]
    · rfl
  · rfl

theorem appendUUID_some {env : Env} {info : AdditionalInfo} (huuid : info.isUUID = true) {value : Text}
    (hvalue : uuidOf env info = some value) {written : List Char} {n : Nat} (hn : uuidLength + 1 ≤ n) :
    appendUUID env (written.length, written ++ List.replicate n nul) info =
      some ((written ++ withComma value).length,
        written ++ withComma value ++ List.replicate (n - (withComma value).length) nul) := by
  obtain ⟨hname, hshort⟩ := Option.filter_eq_some_iff.mp hvalue
  have hshort : value.chars.length ≤ uuidLength := of_decide_eq_true hshort
  have hchars : Buffer.store written.length value.chars (written ++ List.replicate n nul) =
      some (written ++ value.chars ++ List.replicate (n - value.chars.length) nul) :=
    Buffer.store_replicate _ (by omega)
  have hcomma : Buffer.store (written ++ value.chars).length [',']
      (written ++ value.chars ++ List.replicate (n - value.chars.length) nul) =
        some (written ++ value.chars ++ [','] ++ List.replicate (n - value.chars.length - 1) nul) :=
    Buffer.store_replicate _ (by simp; omega)
  rw [List.length_append] at hcomma
  unfold appendUUID
  rw [if_pos huuid, hname]
  simp only [if_pos hshort, hchars, hcomma, Option.bind_eq_bind, Option.bind_some]
  simp [withComma, Nat.add_assoc, Nat.sub_sub]

def uuidsOf (env : Env) (infos : List AdditionalInfo) : List Text :=
  (infos.filter AdditionalInfo.isUUID).filterMap (uuidOf env)

theorem uuidsOf_cons (env : Env) (info : AdditionalInfo) (infos : List AdditionalInfo) :
    uuidsOf env (info :: infos) =
      (if info.isUUID then (uuidOf env info).toList else []) ++ uuidsOf env infos := by
  unfold uuidsOf
  split <;> rename_i huuid
  · rw [List.filter_cons_of_pos huuid, List.filterMap_cons]
    split <;> rename_i hvalue <;> simp [hvalue]
  · rw [List.filter_cons_of_neg huuid, List.nil_append]

theorem appendUUID_fold (env : Env) (infos : List AdditionalInfo) (written : List Char) {n : Nat}
    (hn : infos.countP AdditionalInfo.isUUID * (uuidLength + 1) ≤ n) :
    ∃ m, infos.foldlM (appendUUID env) (written.length, written ++ List.replicate n nul) =
      some ((written ++ (uuidsOf env infos).flatMap withComma).length,
        written ++ (uuidsOf env infos).flatMap withComma ++ List.replicate m nul) := by
  induction infos generalizing written n with
  | nil => exact ⟨n, by simp [uuidsOf]⟩
  | cons info infos ih =>
    rw [List.foldlM_cons, uuidsOf_cons]
    by_cases huuid : info.isUUID = true
    · rw [List.countP_cons_of_pos huuid, Nat.add_mul, Nat.one_mul] at hn
      rw [if_pos huuid]
      cases hvalue : uuidOf env info with
      | none =>
        rw [appendUUID_none fun _ => hvalue]
        exact ih written (by omega)
      | some value =>
        obtain ⟨-, hshort⟩ := Option.filter_eq_some_iff.mp hvalue
        have hshort : value.chars.length ≤ uuidLength := of_decide_eq_true hshort
        have hcomma : (withComma value).length = value.chars.length + 1 := by simp [withComma]
        obtain ⟨m, hm⟩ := ih (written ++ withComma value) (n := n - (withComma value).length) (by omega)
        rw [appendUUID_some huuid hvalue (by omega)]
        refine ⟨m, hm.trans ?_⟩
        simp
    · rw [List.countP_cons_of_neg huuid] at hn
      rw [appendUUID_none (fun h => absurd h huuid), if_neg huuid]
      exact ih written hn

theorem flatMap_withComma {values : List Text} (hvalues : values ≠ []) :
    values.flatMap withComma = [','].intercalate (values.map CString.chars) ++ [','] := by
  rw [← flatMap_concat_eq_intercalate (by simpa using hvalues), List.flatMap_map]
  rfl

theorem nul_notMem_listed (values : List Text) : nul ∉ listed values := by
  intro hnul
  rcases List.mem_append.mp hnul with hnul | hnul
  · revert hnul
    decide
  · have hvalues : values ≠ [] := by
      rintro rfl
      simp at hnul
    have hmem : nul ∈ values.flatMap withComma := by
      rw [flatMap_withComma hvalues]
      exact List.mem_append_left _ hnul
    obtain ⟨value, -, hmem⟩ := List.mem_flatMap.mp hmem
    rcases List.mem_append.mp hmem with hmem | hmem
    · exact value.nulFree hmem
    · revert hmem
      decide

def mapped (env : Env) (nh : NotificationHeader) : List Text := (toText env nh).filterMap (uuidOf env)

theorem mapped_eq {env : Env} {nh : NotificationHeader} (hmode : env.uuidCfgFlag = .uuidMapValueToAddText)
    (hvendor : nh.vendorId = ericssonVendorId) : mapped env nh = uuidsOf env nh.additionalInfo := by
  have hsame : nh.isUUIDAlarm = AdditionalInfo.isUUID := by
    funext info
    simp [NotificationHeader.isUUIDAlarm, AdditionalInfo.isUUID, hvendor]
  unfold mapped toText uuidsOf
  rw [if_pos hmode, hsame]

theorem toText_vendor {env : Env} {nh : NotificationHeader} (hvendor : nh.vendorId ≠ ericssonVendorId) :
    toText env nh = [] := by
  have hnone : nh.isUUIDAlarm = fun _ => false := by
    funext info
    simp [NotificationHeader.isUUIDAlarm, hvendor]
  unfold toText
  split
  · rw [hnone, List.filter_false]
  · rfl

theorem getUUIDFromAdditionalInfo_eq {env : Env} (nh : NotificationHeader)
    (hmode : env.uuidCfgFlag = .uuidMapValueToAddText) :
    if mapped env nh = [] then getUUIDFromAdditionalInfo env nh = some none
    else ∃ uuidList, getUUIDFromAdditionalInfo env nh = some (some uuidList) ∧
      Buffer.string nul uuidList = some (listed (mapped env nh)) := by
  unfold getUUIDFromAdditionalInfo
  by_cases hcond : env.uuidCfgFlag = .uuidMapValueToAddText ∧ nh.vendorId = ericssonVendorId ∧
      0 < nh.numAdditionalInfo
  · rw [if_pos hcond, mapped_eq hmode hcond.2.1]
    by_cases hcount : 0 < nh.additionalInfo.countP AdditionalInfo.isUUID
    · obtain ⟨m, hfold⟩ := appendUUID_fold env nh.additionalInfo (List.replicate uuidAddtextHeader.length nul)
        (Nat.le_refl _)
      rw [List.length_replicate, List.replicate_append_replicate] at hfold
      simp only [if_pos hcount, hfold, Option.bind_eq_bind, Option.bind_some, List.length_append,
        List.length_replicate]
      split <;> rename_i hvalues
      · rw [hvalues, List.flatMap_nil, List.length_nil, if_neg (by omega)]
      · have hjoin := flatMap_withComma hvalues
        have hfree := nul_notMem_listed (uuidsOf env nh.additionalInfo)
        unfold listed at hfree ⊢
        generalize [','].intercalate ((uuidsOf env nh.additionalInfo).map CString.chars) = joined at hjoin hfree ⊢
        rw [hjoin, List.length_append, List.length_singleton, if_pos (by omega), ← List.append_assoc,
          ← Nat.add_assoc, Nat.add_sub_cancel]
        have hcomma : Buffer.store (uuidAddtextHeader.length + joined.length) [nul]
            (List.replicate uuidAddtextHeader.length nul ++ joined ++ [','] ++ List.replicate m nul) =
              some (List.replicate uuidAddtextHeader.length nul ++ joined ++ [nul] ++ List.replicate m nul) := by
          have hlength : [','].length = [nul].length := rfl
          have hreplace := Buffer.store_replace (List.replicate uuidAddtextHeader.length nul ++ joined) [',']
            (List.replicate m nul) hlength
          rwa [List.length_append, List.length_replicate] at hreplace
        have hheader : Buffer.store 0 uuidAddtextHeader
            (List.replicate uuidAddtextHeader.length nul ++ joined ++ [nul] ++ List.replicate m nul) =
              some (uuidAddtextHeader ++ joined ++ [nul] ++ List.replicate m nul) := by
          have hlength : (List.replicate uuidAddtextHeader.length nul).length = uuidAddtextHeader.length :=
            List.length_replicate
          have hreplace := Buffer.store_replace [] _ (joined ++ [nul] ++ List.replicate m nul) hlength
          simpa using hreplace
        rw [hcomma, Option.bind_some, hheader, Option.bind_some]
        refine ⟨_, rfl, ?_⟩
        rw [List.append_assoc, List.singleton_append]
        exact Buffer.string_append hfree
    · have hnil : uuidsOf env nh.additionalInfo = [] := by
        unfold uuidsOf
        rw [List.countP_eq_length_filter] at hcount
        rw [List.eq_nil_of_length_eq_zero (Nat.eq_zero_of_not_pos hcount), List.filterMap_nil]
      simp only [if_neg hcount, if_pos hnil]
  · have hnil : mapped env nh = [] := by
      unfold mapped
      by_cases hvendor : nh.vendorId = ericssonVendorId
      · have hnum : nh.additionalInfo = [] :=
          List.eq_nil_of_length_eq_zero (Nat.eq_zero_of_not_pos fun hnum => hcond ⟨hmode, hvendor, hnum⟩)
        simp [toText, hnum]
      · rw [toText_vendor hvendor, List.filterMap_nil]
    rw [if_neg hcond, if_pos hnil]

def suffix (env : Env) (nh : NotificationHeader) : List Char :=
  if mapped env nh = [] then [] else listed (mapped env nh)

theorem convertAdditionalText_eq (env : Env) (nh : NotificationHeader) :
    ∃ text, convertAdditionalText env nh = some text ∧
      text.bind (Buffer.string nul) = nh.additionalText.map fun t => t.chars ++ suffix env nh := by
  unfold convertAdditionalText suffix
  cases nh.additionalText with
  | none => exact ⟨none, rfl, rfl⟩
  | some t =>
    have hplain : Buffer.string nul (Buffer.ofString nul t) = some (t.chars ++ []) := by simp
    by_cases hmode : env.uuidCfgFlag = .uuidMapValueToAddText
    · have hlist := getUUIDFromAdditionalInfo_eq nh hmode
      split at hlist <;> rename_i hmapped
      · simp only [if_pos hmode, hlist, Option.bind_eq_bind, Option.bind_some, if_pos hmapped]
        exact ⟨_, rfl, hplain⟩
      · obtain ⟨uuidList, hlist, hstring⟩ := hlist
        have htext : Buffer.store 0 t.chars
            (List.replicate (t.chars.length + (listed (mapped env nh)).length + 1) nul) =
              some (t.chars ++ List.replicate ((listed (mapped env nh)).length + 1) nul) := by
          have hroom : t.chars.length ≤ t.chars.length + ((listed (mapped env nh)).length + 1) := by omega
          have hzeros := Buffer.store_replicate [] (x := nul) hroom
          rw [Nat.add_sub_cancel_left] at hzeros
          exact hzeros
        have huuids : Buffer.store t.chars.length (listed (mapped env nh))
            (t.chars ++ List.replicate ((listed (mapped env nh)).length + 1) nul) =
              some (t.chars ++ listed (mapped env nh) ++ [nul]) :=
          (Buffer.store_replicate _ (by omega)).trans (by simp)
        simp only [if_pos hmode, hlist, Option.bind_eq_bind, Option.bind_some, hstring, htext, huuids,
          if_neg hmapped]
        refine ⟨_, rfl, Buffer.string_append ?_⟩
        exact fun hnul => (List.mem_append.mp hnul).elim t.nulFree (nul_notMem_listed _)
    · have hmapped : mapped env nh = [] := by simp [mapped, toText, hmode]
      simp only [if_neg hmode, Option.bind_eq_bind, Option.bind_some, if_pos hmapped]
      exact ⟨_, rfl, hplain⟩

/-! ## The alarm tells all or it does not -/

/-- The entries that are mapped into the text tell something that the list of UUIDs takes, and there is a text. -/
def TextTakes (env : Env) (nh : NotificationHeader) : Prop :=
  ∀ info ∈ toText env nh, nh.additionalText.isSome ∧
    ∃ value, Tells env info value ∧ value.chars.length ≤ uuidLength

def ConvertedAsPm (env : Env) (nh : NotificationHeader) : Prop :=
  nh.isPmThreshold = true ∧ ∃ pm, env.pmAlarm nh = .ok pm

/-- The array is filled, which it is not where FM has no such array, apart from the alarms of PM; and its entries
tell something. -/
def ArrayTakes (env : Env) (nh : NotificationHeader) : Prop :=
  (toArray env nh = [] ∨ env.mafSpiNtfFmVersion ≠ .fm3 ∨ ConvertedAsPm env nh) ∧
    ∀ info ∈ toArray env nh, ∃ value, Tells env info value

theorem tells_iff {env : Env} {info : AdditionalInfo} {value : Text} :
    Tells env info value ↔ getAdditionalInfoName env info = some value := by
  unfold getAdditionalInfoName
  constructor
  · rintro (⟨htype, hvalue⟩ | ⟨name, htype, hname, hvalue⟩)
    · rw [htype]
      exact hvalue
    · rw [htype]
      exact Option.bind_eq_some_iff.mpr ⟨name, hname, hvalue⟩
  · intro h
    cases htype : info.infoType with
    | string =>
      rw [htype] at h
      exact .string htype h
    | ldapName =>
      rw [htype] at h
      obtain ⟨name, hname, hvalue⟩ := Option.bind_eq_some_iff.mp h
      exact .ldapName name htype hname hvalue
    | other =>
      rw [htype] at h
      cases h

theorem standsFor_element_iff {env : Env} {nh : NotificationHeader} {info : AdditionalInfo} :
    StandsFor env nh info (some (element env nh info)) ↔ ∃ value, Tells env info value := by
  constructor
  · rintro ⟨name, value, -, htells, -⟩
    exact ⟨value, htells⟩
  · rintro ⟨value, htells⟩
    refine ⟨_, value, ?_, htells, rfl⟩
    unfold element
    rw [tells_iff.mp htells]
    rfl

theorem forall₂_standsFor_iff {env : Env} {nh : NotificationHeader} :
    List.Forall₂ (StandsFor env nh) (toArray env nh) ((toArray env nh).map fun info => some (element env nh info)) ↔
      ∀ info ∈ toArray env nh, ∃ value, Tells env info value := by
  rw [List.forall₂_map_right_iff, List.forall₂_same]
  exact forall₂_congr fun info _ => standsFor_element_iff

theorem forall₂_tells_iff {env : Env} {infos : List AdditionalInfo} {values : List Text} :
    List.Forall₂ (Tells env) infos values ↔ infos.map (getAdditionalInfoName env) = values.map some := by
  rw [← List.forall₂_eq_eq_eq, List.forall₂_map_left_iff, List.forall₂_map_right_iff]
  exact ⟨fun h => h.imp fun _ _ => tells_iff.mp, fun h => h.imp fun _ _ => tells_iff.mpr⟩

theorem length_listed_lt {values : List Text} {p : Text → Bool} {value : Text} (hvalue : value ∈ values)
    (hp : p value = false) : ((values.filter p).flatMap withComma).length < (values.flatMap withComma).length := by
  induction values with
  | nil => cases hvalue
  | cons v values ih =>
    have hless : ((values.filter p).flatMap withComma).length ≤ (values.flatMap withComma).length :=
      (List.filter_sublist.flatMap withComma).length_le
    rcases List.mem_cons.mp hvalue with rfl | hvalue
    · rw [List.filter_cons_of_neg (by simp [hp]), List.flatMap_cons, List.length_append]
      have hcomma : 0 < (withComma value).length := by simp [withComma]
      omega
    · have hrest := ih hvalue
      rw [List.flatMap_cons, List.length_append]
      by_cases hv : p v = true
      · rw [List.filter_cons_of_pos hv, List.flatMap_cons, List.length_append]
        omega
      · rw [List.filter_cons_of_neg hv]
        omega

theorem length_listed {values : List Text} (hvalues : values ≠ []) :
    (listed values).length + 1 = uuidAddtextHeader.length + (values.flatMap withComma).length := by
  rw [flatMap_withComma hvalues, listed, List.length_append, List.length_append, List.length_singleton]
  omega

theorem mapped_of_values {env : Env} {nh : NotificationHeader} {values : List Text}
    (hvalues : (toText env nh).map (getAdditionalInfoName env) = values.map some) :
    mapped env nh = values.filter fun value => value.chars.length ≤ uuidLength := by
  have hmap : mapped env nh = ((toText env nh).map (getAdditionalInfoName env)).filterMap
      fun value => value.filter fun strValue => strValue.chars.length ≤ uuidLength := by
    unfold mapped
    rw [List.filterMap_map]
    rfl
  rw [hmap, hvalues, List.filterMap_map]
  rw [← List.filterMap_eq_filter]
  congr 1

theorem map_eq_map_some {α β : Type*} {f g : α → Option β} {l : List α}
    (h : ∀ a ∈ l, ∃ b, f a = some b ∧ g a = some b) : l.map f = (l.filterMap g).map some := by
  induction l with
  | nil => rfl
  | cons a l ih =>
    obtain ⟨b, hf, hg⟩ := h a List.mem_cons_self
    rw [List.map_cons, List.filterMap_cons_some hg, List.map_cons, hf,
      ih fun c hc => h c (List.mem_cons_of_mem a hc)]

theorem inText_iff {env : Env} {nh : NotificationHeader} {text : Option (List Char)}
    (htext : text = nh.additionalText.map fun t => t.chars ++ suffix env nh) :
    (toText env nh ≠ [] → ∃ values, List.Forall₂ (Tells env) (toText env nh) values ∧
      text = some ((nh.additionalText.elim [] CString.chars) ++ listed values)) ↔ TextTakes env nh := by
  subst htext
  constructor
  · intro h info hinfo
    obtain ⟨values, htells, htext⟩ := h (List.ne_nil_of_mem hinfo)
    have hvalues := forall₂_tells_iff.mp htells
    obtain ⟨t, ht, hlisted⟩ := Option.map_eq_some_iff.mp htext
    rw [ht] at hlisted
    have hlisted : suffix env nh = listed values := List.append_cancel_left hlisted
    have hname : getAdditionalInfoName env info ∈ values.map some := by
      rw [← hvalues]
      exact List.mem_map_of_mem hinfo
    obtain ⟨value, hvalue, hread⟩ := List.mem_map.mp hname
    refine ⟨by rw [ht]; rfl, value, tells_iff.mpr hread.symm, ?_⟩
    -- a value that is too long is missing in the text
    by_contra hlong
    have hmapped := mapped_of_values hvalues
    have hless := length_listed_lt (p := fun value => value.chars.length ≤ uuidLength) hvalue
      (decide_eq_false hlong)
    have hall := length_listed (List.ne_nil_of_mem hvalue)
    unfold suffix at hlisted
    split at hlisted <;> rename_i hnil
    · rw [← hlisted, List.length_nil] at hall
      have hheader : uuidAddtextHeader.length = 6 := rfl
      omega
    · have hsome := length_listed hnil
      rw [hlisted, hmapped] at hsome
      omega
  · intro h hnil
    obtain ⟨first, hfirst⟩ := List.exists_mem_of_ne_nil _ hnil
    obtain ⟨t, ht⟩ := Option.isSome_iff_exists.mp (h first hfirst).1
    have hvalues : (toText env nh).map (getAdditionalInfoName env) = (mapped env nh).map some := by
      apply map_eq_map_some
      intro info hinfo
      obtain ⟨-, value, htells, hshort⟩ := h info hinfo
      have hread := tells_iff.mp htells
      exact ⟨value, hread, Option.filter_eq_some_iff.mpr ⟨hread, decide_eq_true hshort⟩⟩
    have hmapped : mapped env nh ≠ [] := by
      rintro hmapped
      rw [hmapped] at hvalues
      exact hnil (List.map_eq_nil_iff.mp hvalues)
    refine ⟨mapped env nh, forall₂_tells_iff.mpr hvalues, ?_⟩
    rw [ht, suffix, if_neg hmapped]
    rfl

def filled (env : Env) (nh : NotificationHeader) : FmAdditionalInfos :=
  ⟨(toArray env nh).length, (toArray env nh).map fun info => some (element env nh info)⟩

theorem convertLegacy_eq (env : Env) (nh : NotificationHeader) {comNot : FmStruct4}
    (hfresh : comNot.additionalInfo = {}) :
    ∃ rc com, convertLegacy env nh comNot = some (rc, com) ∧
      com.text = (nh.additionalText.map fun t => t.chars ++ suffix env nh) ∧
      com.additionalInfo = if env.mafSpiNtfFmVersion = .fm3 then {} else filled env nh := by
  obtain ⟨text, htext, hstring⟩ := convertAdditionalText_eq env nh
  unfold convertLegacy
  by_cases hversion : env.mafSpiNtfFmVersion = .fm3
  · simp only [if_pos hversion, htext, Option.bind_eq_bind, Option.bind_some]
    split
    · exact ⟨_, _, rfl, hstring, hfresh⟩
    · exact ⟨_, _, rfl, hstring, hfresh⟩
  · have hcopy := copyAdditionalInfo_eq env nh { comNot with eventTime := nh.eventTime } (by rw [hfresh])
    simp only [if_neg hversion, hcopy, htext, Option.bind_eq_bind, Option.bind_some]
    split
    · exact ⟨_, _, rfl, hstring, rfl⟩
    · exact ⟨_, _, rfl, hstring, rfl⟩

theorem represented_iff {env : Env} {nh : NotificationHeader} {com : FmStruct4}
    (htext : com.text = nh.additionalText.map fun t => t.chars ++ suffix env nh)
    (harray : com.additionalInfo = if env.mafSpiNtfFmVersion = .fm3 then {} else filled env nh) :
    Represented env nh com ↔ TextTakes env nh ∧ (toArray env nh = [] ∨ env.mafSpiNtfFmVersion ≠ .fm3) ∧
      ∀ info ∈ toArray env nh, ∃ value, Tells env info value := by
  constructor
  · intro h
    refine ⟨(inText_iff htext).mp h.inText, ?_⟩
    have hin := h.inArray
    by_cases hversion : env.mafSpiNtfFmVersion = .fm3
    · rw [if_pos hversion] at harray
      rw [harray] at hin
      have hnil : toArray env nh = [] := List.forall₂_nil_right_iff.mp hin
      rw [hnil]
      exact ⟨Or.inl rfl, fun info hinfo => absurd hinfo List.not_mem_nil⟩
    · rw [if_neg hversion] at harray
      rw [harray] at hin
      exact ⟨Or.inr hversion, forall₂_standsFor_iff.mp hin⟩
  · rintro ⟨htakes, harrayTakes, htold⟩
    have hfilled : com.additionalInfo = filled env nh := by
      rw [harray]
      split <;> rename_i hversion
      · have hnil := harrayTakes.resolve_right fun hne => hne hversion
        unfold filled
        rw [hnil]
        rfl
      · rfl
    refine ⟨(inText_iff htext).mpr htakes, by rw [hfilled]; exact forall₂_standsFor_iff.mpr htold, ?_⟩
    rw [hfilled]
    simp [filled, List.filterMap_map]

theorem convertPm_represented {env : Env} {nh : NotificationHeader} {pm : PmAlarm} (hpm : nh.isPmThreshold = true)
    (halarm : env.pmAlarm nh = .ok pm) :
    ∃ com, convertPmThresholdHeader4 env nh {} = some (.ok, com) ∧ TextTakes env nh ∧
      (Represented env nh com ↔ ∀ info ∈ toArray env nh, ∃ value, Tells env info value) := by
  have hvendor : nh.vendorId = saNtfVendorIdSaf := by
    unfold NotificationHeader.isPmThreshold at hpm
    exact (of_decide_eq_true hpm).1
  have hnone : toText env nh = [] := by
    apply toText_vendor
    rw [hvendor]
    decide
  unfold convertPmThresholdHeader4
  rw [halarm]
  simp only
  rw [copyAdditionalInfo_eq env nh _ rfl]
  refine ⟨_, rfl, fun info hinfo => ?_, fun h => forall₂_standsFor_iff.mp h.inArray,
    fun htold => ⟨fun hne => absurd hnone hne, forall₂_standsFor_iff.mpr htold, ?_⟩⟩
  · rw [hnone] at hinfo
    cases hinfo
  · simp [List.filterMap_map]

def NothingLost : Prop :=
  ∀ env nh com, convertHeader4 env nh {} = some (.ok, com) → Represented env nh com

def envOfText : Env where
  uuidCfgFlag := .uuidMapValueToAddText
  mafSpiNtfFmVersion := .fm4
  filter := true
  saNtfPtrValGet := fun _ => some ⟨"123e4567-e89b-12d3-a456-426655440000".toList, by decide⟩
  convertTo3Gpp := some
  convertTo3GPPDN := some
  pmAlarm := fun _ => .error none

def alarmWithoutText : NotificationHeader where
  eventTime := 0
  notificationObject := ⟨"safComp=a".toList, by decide⟩
  vendorId := ericssonVendorId
  majorId := 1
  minorId := 2
  additionalText := none
  additionalInfo := [⟨uuid, .string, 0⟩]

end ComSA.Alarm
