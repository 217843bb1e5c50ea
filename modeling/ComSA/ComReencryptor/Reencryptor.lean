import ComSA.ComReencryptor.ImmUtil

/-!
# The re-encryption participant

When the encryption key has changed, the participant reads the secret attributes that a
file lists, encrypts them again and stores them with one CCB. Its own object keeps the
UUID of the key and the status of the last run.
-/

namespace ComSA.ComReencryptor

open Defines

abbrev MocAttrData := List (List String × List String)

structure Env where
  secretAttrData : Option MocAttrData
  secDecrypt : String → String
  secEncrypt : String → String

abbrev EncryptionStatus := Nat

namespace EncryptionStatus

def success : EncryptionStatus := 0

def inprogress : EncryptionStatus := 1

def failure : EncryptionStatus := 2

end EncryptionStatus

inductive InfoAttr where
  | empty
  | success
  | inprogress
  | errImmGet
  | errImmApply
  | errOI
  | errFileRead
  | errSecCrypto
  | errInternal
  deriving DecidableEq, Repr

def infoAttrMsg : InfoAttr → String
  | .empty => ""
  | .success => "Successful Re-encryption"
  | .inprogress => "Re-encryption is In-progress"
  | .errImmGet => "Unable to get data from CoreMW IMM"
  | .errImmApply => "Unable to apply new changes in CoreMW IMM."
  | .errOI => "Error from OI: "
  | .errFileRead => "Failed to fetch Schema data for the Secret attributes."
  | .errSecCrypto => "SEC Crypto API libraries not reacheable"
  | .errInternal => "Internal Error Occurred."

structure Reencryptor where
  immUtil : ImmUtil
  /-- Whether the next calls of the crypto library succeed. After the end of the list they do. -/
  cryptoAnswers : List Bool := []
  parentKeyUuid : String := ""
  childKeyUuid : String := ""
  encryptionStatus : EncryptionStatus := .success
  additionalStatusInfo : String := ""
  ccbId : Nat := 0
  used : List String := []

inductive AttrModificationType where
  | valuesAdd
  | valuesDelete
  | valuesReplace
  deriving DecidableEq, Repr

structure AttrModification where
  modType : AttrModificationType
  attrName : String
  attrValues : List String
  deriving DecidableEq, Repr

def getSingleStringAttribute (immObject attributeName value : String) (u : ImmUtil) :
    SaAisError × String × ImmUtil :=
  match u.getAttributeValue immObject attributeName with
  | (.ok, some (.strings [v]), u) => (.ok, v, u)
  | (.ok, some (.strings []), u) => (.ok, "", u)
  | (rc, _, u) => (rc, value, u)

/-! ## The objects -/

def findChildren (className : String) : List String → List String → ImmUtil → Bool × List String × ImmUtil
  | [], childObjects, u => (true, childObjects, u)
  | parent :: parents, childObjects, u =>
    match u.findImmObjects parent className with
    | (true, tmpObjects, u) =>
      findChildren className parents (childObjects.merge tmpObjects fun x y => ¬ y < x) u
    | (false, _, u) => (false, [], u)

def getChildObjects : List String → List String → ImmUtil → Bool × List String × ImmUtil
  | [], parentObjects, u => (true, parentObjects, u)
  | className :: mocList, parentObjects, u =>
    if parentObjects = [] then (true, [], u)
    else
      match findChildren className parentObjects [] u with
      | (true, childObjects, u) => getChildObjects mocList childObjects u
      | (false, _, u) => (false, [], u)

def getObjects (mocList : List String) (u : ImmUtil) : Bool × List String × ImmUtil :=
  match mocList with
  | [] => (true, [], u)
  | className :: mocList =>
    match u.findImmObjects "" className with
    | (true, parentObjects, u) => getChildObjects mocList parentObjects u
    | (false, _, u) => (false, [], u)

namespace Reencryptor

variable (env : Env)

def addModifyObject (object attrName value : String) (r : Reencryptor) : Reencryptor :=
  { r with immUtil := r.immUtil.addModifyObject object attrName value }

/-! ## Whether a re-encryption is needed -/

def getEncryptionStatus (r : Reencryptor) : Bool × Reencryptor :=
  match r.immUtil.getAttributeValue secEncryptionParticipantObject Defines.encryptionStatus with
  | (.ok, some (.int32s [v]), u) => (true, { r with immUtil := u, encryptionStatus := (v % 2 ^ 32).toNat })
  | (.ok, some (.int32s []), u) => (true, { r with immUtil := u, encryptionStatus := 0 })
  | (_, _, u) => (false, { r with immUtil := u })

def checkKey (r : Reencryptor) : Bool × Reencryptor :=
  match getSingleStringAttribute secEncryptionParticipantObject encryptionKeyUuid r.childKeyUuid r.immUtil with
  | (.ok, uuid, u) =>
    let r := { r with
      immUtil := u
      childKeyUuid := uuid
      encryptionStatus := .inprogress
      additionalStatusInfo := infoAttrMsg .inprogress }
    if r.parentKeyUuid = r.childKeyUuid then
      match r.getEncryptionStatus with
      | (true, r) => (r.encryptionStatus ≠ .success, r)
      | (false, r) =>
        (false, { r with encryptionStatus := .failure, additionalStatusInfo := infoAttrMsg .errImmGet })
    else (true, r)
  | (_, uuid, u) =>
    (false, { r with
      immUtil := u
      childKeyUuid := uuid
      encryptionStatus := .failure
      additionalStatusInfo := infoAttrMsg .errImmGet })

/-- The changes that start a re-encryption, on top of those that are collected. -/
def startStatus (r : Reencryptor) : ImmUtil :=
  ((r.immUtil.addModifyObject secEncryptionParticipantObject Defines.encryptionStatus
    (toString r.encryptionStatus)).addModifyObject secEncryptionParticipantObject encryptionKeyUuid
      r.parentKeyUuid).addModifyObject secEncryptionParticipantObject Defines.additionalStatusInfo
        r.additionalStatusInfo

def isReencryptionNeeded (r : Reencryptor) : Bool × Reencryptor :=
  match r.checkKey with
  | (retVal, r) =>
    if r.encryptionStatus = .success then (retVal, r)
    else
      match r.startStatus.applyTransaction with
      | (true, _, u) => (retVal, { r with immUtil := u })
      | (false, _, u) => (false, { r with immUtil := u })

/-! ## The new values -/

def cryptoCall (r : Reencryptor) : Bool × Reencryptor :=
  match r.cryptoAnswers with
  | [] => (true, r)
  | answer :: rest => (answer, { r with cryptoAnswers := rest })

def reencrypt (oldSecret : String) (r : Reencryptor) : Option String × Reencryptor :=
  if oldSecret = "" then (none, r)
  else
    match r.cryptoCall with
    | (false, r) => (none, r)
    | (true, r) =>
      match r.cryptoCall with
      | (false, r) => (none, r)
      | (true, r) => (some (env.secEncrypt (env.secDecrypt oldSecret)), r)

def setAttributes (object : String) : List String → Reencryptor → Bool × Reencryptor
  | [], r => (true, r)
  | attrName :: attrList, r =>
    match getSingleStringAttribute object attrName "" r.immUtil with
    | (.ok, value, u) =>
      if value = "" then setAttributes object attrList { r with immUtil := u }
      else
        match reencrypt env value { r with immUtil := u } with
        | (some newValue, r) => setAttributes object attrList (r.addModifyObject object attrName newValue)
        | (none, r) => (false, { r with additionalStatusInfo := infoAttrMsg .errSecCrypto })
    | (_, _, u) => (false, { r with immUtil := u, additionalStatusInfo := infoAttrMsg .errImmGet })

def setObjects (attrList : List String) : List String → Reencryptor → Bool × Reencryptor
  | [], r => (true, r)
  | object :: objectsList, r =>
    match setAttributes env object attrList r with
    | (true, r) => setObjects attrList objectsList r
    | (false, r) => (false, r)

def makeSetAttributeData (objectsList attrList : List String) (r : Reencryptor) : Bool × Reencryptor :=
  if objectsList = [] ∨ attrList = [] then (true, r)
  else
    match setObjects env attrList objectsList r with
    | (true, r) => (true, r)
    | (false, r) => (false, { r with immUtil := r.immUtil.clearCcbObjects })

/-- What is collected stays where the objects of an entry cannot be found. -/
def populateEntries : MocAttrData → Reencryptor → Bool × Reencryptor
  | [], r => (true, r)
  | (mocList, attrList) :: mocAttrData, r =>
    match getObjects mocList r.immUtil with
    | (true, objects, u) =>
      match makeSetAttributeData env objects attrList { r with immUtil := u } with
      | (true, r) => populateEntries mocAttrData r
      | (false, r) => (false, r)
    | (false, _, u) => (false, { r with immUtil := u })

def populateData (r : Reencryptor) : Bool × Reencryptor :=
  match env.secretAttrData with
  | none => (false, { r with additionalStatusInfo := infoAttrMsg .errFileRead })
  | some [] => (false, { r with additionalStatusInfo := infoAttrMsg .errFileRead })
  | some mocAttrData => populateEntries env mocAttrData r

/-! ## The run -/

def setSecrets (r : Reencryptor) : Reencryptor :=
  match populateData env r with
  | (true, r) =>
    match r.immUtil.applyTransaction with
    | (true, _, u) =>
      { r with immUtil := u, encryptionStatus := .success, additionalStatusInfo := infoAttrMsg .success }
    | (false, errorStrings, u) =>
      { r with
        immUtil := u
        encryptionStatus := .failure
        additionalStatusInfo :=
          if errorStrings = "" then infoAttrMsg .errImmApply else infoAttrMsg .errOI ++ errorStrings }
  | (false, r) => { r with encryptionStatus := .failure }

def endStatus (r : Reencryptor) : ImmUtil :=
  (r.immUtil.addModifyObject secEncryptionParticipantObject Defines.encryptionStatus
    (toString r.encryptionStatus)).addModifyObject secEncryptionParticipantObject
      Defines.additionalStatusInfo r.additionalStatusInfo

def setStatus (r : Reencryptor) : Reencryptor := { r with immUtil := r.endStatus.applyTransaction.2.2 }

def doReencryption (ccbId : Nat) (r : Reencryptor) : Reencryptor :=
  if ccbId ≠ r.ccbId then r
  else
    match r.isReencryptionNeeded with
    | (false, r) => r
    | (true, r) => setStatus (setSecrets env { r with used := r.used ++ [r.parentKeyUuid] })

/-! ## The start -/

/-- The part of `start` that reads the keys. It fails where the key of the parent cannot be read. -/
def readKeys (r : Reencryptor) : Bool × Reencryptor :=
  let r :=
    match getSingleStringAttribute secEncryptionParticipantObject encryptionKeyUuid r.childKeyUuid r.immUtil with
    | (.notExist, uuid, u) => { r with childKeyUuid := uuid, immUtil := u.createObjectSecEncryptionParticipant }
    | (_, uuid, u) => { r with childKeyUuid := uuid, immUtil := u }
  match getSingleStringAttribute secEncryptionParticipantMObject encryptionKeyUuid r.parentKeyUuid r.immUtil with
  | (.ok, uuid, u) => (true, { r with parentKeyUuid := uuid, immUtil := u })
  | (_, uuid, u) => (false, { r with parentKeyUuid := uuid, immUtil := u })

/-! ## The callbacks -/

/-- The first value of the first modification of the key. -/
def updateParentEncryptionKeyUuid (attrMods : List AttrModification) (r : Reencryptor) : Bool × Reencryptor :=
  match attrMods.find? fun m => m.attrName = encryptionKeyUuid with
  | some ⟨_, _, value :: _⟩ => (true, { r with parentKeyUuid := value })
  | _ => (false, r)

def setCcbId (ccbId : Nat) (r : Reencryptor) : Reencryptor :=
  { r with
    immUtil := if r.ccbId ≠ 0 then r.immUtil.abortTransaction else r.immUtil
    ccbId := ccbId }

def removeCcbId (ccbId : Nat) (abortTx : Bool) (r : Reencryptor) : Reencryptor :=
  if ccbId = r.ccbId then
    { r with
      immUtil := if abortTx then r.immUtil.abortTransaction else r.immUtil
      ccbId := 0 }
  else r

def handleOiCcbAbort (ccbId : Nat) (r : Reencryptor) : Reencryptor := r.removeCcbId ccbId true

def handleOiCcbApply (ccbId : Nat) (r : Reencryptor) : Reencryptor :=
  (r.doReencryption env ccbId).removeCcbId ccbId false

def handleOiCcbObjectModify (ccbId : Nat) (objectName : String) (attrMods : List AttrModification)
    (r : Reencryptor) : Reencryptor :=
  if objectName = secEncryptionParticipantMObject then
    match r.updateParentEncryptionKeyUuid attrMods with
    | (true, r) => r.setCcbId ccbId
    | (false, r) => r
  else r

end Reencryptor

end ComSA.ComReencryptor
