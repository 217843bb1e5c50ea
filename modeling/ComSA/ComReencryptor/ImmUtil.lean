import ComSA.Lib.Decimal
import ComSA.Lib.SortedMap
import Mathlib.Algebra.Group.Int.Defs
import Mathlib.Data.List.Count
import Mathlib.Data.String.Basic

/-!
# The IMM calls of the re-encryption participant

Changes are collected for each object and attribute, and one CCB applies them all. What
a call of IMM answers is given in advance: it may fail whatever IMM contains.
-/

namespace ComSA.ComReencryptor

open SortedMap

inductive SaAisError where
  | ok
  | invalidParam
  | notExist
  | failedOperation
  | other
  deriving DecidableEq, Repr

inductive Answer where
  | ok
  | failedOperation
  | other
  deriving DecidableEq, Repr

inductive AttrValues where
  | strings (values : List String)
  | int32s (values : List Int)
  | other (number : Nat)
  deriving DecidableEq, Repr

structure Imm where
  /-- The objects of a class right below a parent, in the order IMM finds them. -/
  search : String → String → List String
  values : String → String → Option AttrValues

namespace Defines

def secEncryptionParticipantMObject : String := "secEncryptionParticipantMId=1"

def secEncryptionParticipantObject : String :=
  "secEncryptionParticipantId=COM_APR_9010443,secEncryptionParticipantMId=1"

def encryptionKeyUuid : String := "encryptionKeyUuid"

def encryptionStatus : String := "encryptionStatus"

def additionalStatusInfo : String := "additionalStatusInfo"

end Defines

abbrev CcbObjects := List (String × List (String × List String))

structure ImmUtil where
  imm : Imm
  /-- What the next calls of IMM answer. After the end of the list they succeed. -/
  answers : List Answer := []
  errorStrings : List String := []
  ccbObjects : CcbObjects := []
  committed : List CcbObjects := []

/-! ## The values of a CCB -/

def staged (objects : CcbObjects) (object attrName : String) : List String :=
  ((get? object objects).bind (get? attrName)).getD []

def addTo (attrName value : String) (attrValMap : List (String × List String)) :
    List (String × List String) :=
  match get? attrName attrValMap with
  | some values => put attrName (values ++ [value]) attrValMap
  | none => put attrName [value] attrValMap

def addObject (object attrName value : String) (objects : CcbObjects) : CcbObjects :=
  match get? object objects with
  | some attrValMap => put object (addTo attrName value attrValMap) objects
  | none => put object [(attrName, [value])] objects

def extractInt32 (s : String) : Int :=
  let (negative, digits) :=
    match s.toList.dropWhile Char.isWhitespace with
    | '-' :: cs => (true, cs)
    | '+' :: cs => (false, cs)
    | cs => (false, cs)
  let n := Nat.ofDigitChars 10 (digits.takeWhile Char.isDigit) 0
  if negative then max (-(n : Int)) (-2 ^ 31) else min (n : Int) (2 ^ 31 - 1)

def isAttrTypeInt (object attrName : String) : Bool :=
  object = Defines.secEncryptionParticipantObject ∧ attrName = Defines.encryptionStatus

def Imm.modify (objects : CcbObjects) (imm : Imm) : Imm :=
  { imm with
    values := fun object attrName =>
      match staged objects object attrName with
      | [] => imm.values object attrName
      | values =>
        some (if isAttrTypeInt object attrName then .int32s (values.map extractInt32) else .strings values) }

theorem staged_nil (object attrName : String) : staged [] object attrName = [] := rfl

theorem get?_addTo (a attrName value : String) (attrValMap : List (String × List String)) :
    (get? a (addTo attrName value attrValMap)).getD [] =
      if a = attrName then (get? a attrValMap).getD [] ++ [value] else (get? a attrValMap).getD [] := by
  unfold addTo
  split <;> rename_i h <;> rw [get?_put] <;> split <;> rename_i ha
  · simp [ha, h]
  · rfl
  · simp [ha, h]
  · rfl

theorem staged_addObject (objects : CcbObjects) (o a object attrName value : String) :
    staged (addObject object attrName value objects) o a =
      if (o, a) = (object, attrName) then staged objects o a ++ [value] else staged objects o a := by
  unfold staged addObject
  split <;> rename_i h <;> rw [get?_put]
  · by_cases ho : o = object
    · subst ho
      rw [if_pos rfl, h, Option.bind_some, Option.bind_some, get?_addTo]
      simp
    · simp [ho]
  · by_cases ho : o = object
    · subst ho
      rw [if_pos rfl, h, Option.bind_some, Option.bind_none, get?_cons]
      by_cases ha : a = attrName <;> simp [ha]
    · simp [ho]

theorem modify_values_of_not_staged {objects : CcbObjects} {imm : Imm} {o a : String}
    (h : staged objects o a = []) : (imm.modify objects).values o a = imm.values o a := by
  simp only [Imm.modify, h]

theorem modify_values_of_staged {objects : CcbObjects} {imm : Imm} {o a : String}
    (h : staged objects o a ≠ []) : (imm.modify objects).values o a =
      some (if isAttrTypeInt o a then .int32s ((staged objects o a).map extractInt32)
        else .strings (staged objects o a)) := by
  unfold Imm.modify
  dsimp only
  split <;> rename_i hs
  · exact absurd hs h
  · rfl

@[simp] theorem modify_search (objects : CcbObjects) (imm : Imm) : (imm.modify objects).search = imm.search :=
  rfl

theorem mem_addObject {objects : CcbObjects} {object attrName value : String}
    {x : String × List (String × List String)} (hx : x ∈ addObject object attrName value objects) :
    x.1 = object ∨ x ∈ objects := by
  unfold addObject at hx
  split at hx
  · exact (mem_put hx).imp_left fun h => by rw [h]
  · exact (mem_put hx).imp_left fun h => by rw [h]

/-! ## The calls -/

def saMaxNameLength : Nat := 256

def makeSaNameT (name : String) : Option String :=
  if name.utf8ByteSize ≤ saMaxNameLength then some name else none

namespace ImmUtil

def call (u : ImmUtil) : Answer × ImmUtil :=
  match u.answers with
  | [] => (.ok, u)
  | answer :: rest => (answer, { u with answers := rest })

def getAttributeValue (immDn attrName : String) (u : ImmUtil) : SaAisError × Option AttrValues × ImmUtil :=
  if immDn = "" ∨ attrName = "" then (.invalidParam, none, u)
  else
    match makeSaNameT immDn with
    | none => (.failedOperation, none, u)
    | some name =>
      match u.call with
      | (.ok, u) =>
        match u.imm.values name attrName with
        | some values => (.ok, some values, u)
        | none => (.notExist, none, u)
      | (.failedOperation, u) => (.failedOperation, none, u)
      | (.other, u) => (.other, none, u)

/-- One call for each object that is found, and one that finds no more. -/
def searchNext : List String → ImmUtil → Bool × List String × ImmUtil
  | [], u =>
    match u.call with
    | (.ok, u) => (true, [], u)
    | (_, u) => (false, [], u)
  | object :: objects, u =>
    match u.call with
    | (.ok, u) =>
      let (retVal, found, u) := searchNext objects u
      (retVal, object :: found, u)
    | (_, u) => (false, [], u)

def findImmObjects (parent className : String) (u : ImmUtil) : Bool × List String × ImmUtil :=
  if className = "" then (false, [], u)
  else if parent ≠ "" ∧ makeSaNameT parent = none then (false, [], u)
  else
    match u.call with
    | (.ok, u) => searchNext (u.imm.search parent className) u
    | (_, u) => (false, [], u)

def addModifyObject (object attrName value : String) (u : ImmUtil) : ImmUtil :=
  { u with ccbObjects := addObject object attrName value u.ccbObjects }

def clearCcbObjects (u : ImmUtil) : ImmUtil := { u with ccbObjects := [] }

def setAdminOwner (immObject : String) (u : ImmUtil) : Bool × ImmUtil :=
  if immObject = "" then (true, u)
  else
    match makeSaNameT immObject with
    | none => (false, u)
    | some _ =>
      match u.call with
      | (.ok, u) => (true, u)
      | (_, u) => (false, u)

def getErrorStrings (u : ImmUtil) : String × ImmUtil :=
  match u.call with
  | (.ok, u) => ((u.errorStrings.find? (· ≠ "")).getD "", u)
  | (_, u) => ("", u)

/-- A call within the CCB, with the error strings where it fails. -/
def ccbCall (u : ImmUtil) : Bool × String × ImmUtil :=
  match u.call with
  | (.ok, u) => (true, "", u)
  | (.failedOperation, u) =>
    let (oiErrorStrings, u) := getErrorStrings u
    (false, oiErrorStrings, u)
  | (.other, u) => (false, "", u)

def modifyObjects : List String → ImmUtil → Bool × String × ImmUtil
  | [], u => (true, "", u)
  | object :: objects, u =>
    match setAdminOwner object u with
    | (false, u) => (false, "", u)
    | (true, u) =>
      match makeSaNameT object with
      | none => (false, "", u)
      | some _ =>
        match ccbCall u with
        | (true, _, u) => modifyObjects objects u
        | failed => failed

/-- The admin owner, the CCB, its objects, and then `saImmOmCcbValidate` and `saImmOmCcbApply`. -/
def runCcb (u : ImmUtil) : Bool × String × ImmUtil :=
  match u.call with
  | (.ok, u) =>
    match u.call with
    | (.ok, u) =>
      match modifyObjects (u.ccbObjects.map Prod.fst) u with
      | (true, _, u) =>
        match ccbCall u with
        | (true, _, u) => ccbCall u
        | failed => failed
      | failed => failed
    | (_, u) => (false, "", u)
  | (_, u) => (false, "", u)

def closeTransaction (u : ImmUtil) : ImmUtil := u.clearCcbObjects

def applyTransaction (u : ImmUtil) : Bool × String × ImmUtil :=
  match runCcb u with
  | (true, oiErrorStrings, u) =>
    (true, oiErrorStrings, closeTransaction
      { u with imm := u.imm.modify u.ccbObjects, committed := u.committed ++ [u.ccbObjects] })
  | (false, oiErrorStrings, u) => (false, oiErrorStrings, closeTransaction u)

def abortTransaction (u : ImmUtil) : ImmUtil := closeTransaction u

def createObjectSecEncryptionParticipant (u : ImmUtil) : ImmUtil :=
  { u with
    imm :=
      { u.imm with
        values := fun object attrName =>
          if object = Defines.secEncryptionParticipantObject then
            if attrName = "secEncryptionParticipantId" then
              some (.strings ["secEncryptionParticipantId=COM_APR_9010443"])
            else if attrName = Defines.encryptionStatus then some (.int32s [0])
            else if attrName = Defines.additionalStatusInfo then some (.strings [""])
            else if attrName = Defines.encryptionKeyUuid then some (.strings [])
            else u.imm.values object attrName
          else u.imm.values object attrName } }

/-! ## What the calls do -/

def answering (answers : List Answer) (u : ImmUtil) : ImmUtil := { u with answers := answers }

def Asked (u u' : ImmUtil) : Prop := ∃ answers, u' = u.answering answers

theorem Asked.refl (u : ImmUtil) : Asked u u := ⟨u.answers, rfl⟩

theorem Asked.trans {u u' u'' : ImmUtil} (h : Asked u u') (h' : Asked u' u'') : Asked u u'' := by
  obtain ⟨answers, rfl⟩ := h
  obtain ⟨answers', rfl⟩ := h'
  exact ⟨answers', rfl⟩

theorem Asked.imm {u u' : ImmUtil} (h : Asked u u') : u'.imm = u.imm := by
  obtain ⟨answers, rfl⟩ := h
  rfl

theorem asked_call (u : ImmUtil) : Asked u u.call.2 := by
  unfold call
  split
  · exact Asked.refl u
  · exact ⟨_, rfl⟩

theorem call_asked {u u' : ImmUtil} {answer : Answer} (h : u.call = (answer, u')) : Asked u u' := by
  have := asked_call u
  rw [h] at this
  exact this

def Readable (imm : Imm) (object attrName : String) : Prop :=
  object ≠ "" ∧ attrName ≠ "" ∧ makeSaNameT object = some object ∧ imm.values object attrName ≠ none

theorem makeSaNameT_eq_some {name name' : String} (h : makeSaNameT name = some name') : name' = name := by
  unfold makeSaNameT at h
  split at h
  · exact (Option.some.inj h).symm
  · cases h

theorem asked_getAttributeValue (object attrName : String) (u : ImmUtil) :
    Asked u (u.getAttributeValue object attrName).2.2 := by
  unfold getAttributeValue
  split
  · exact Asked.refl u
  · split
    · exact Asked.refl u
    · have hcall := asked_call u
      split <;> rename_i h <;> rw [h] at hcall
      · split <;> exact hcall
      · exact hcall
      · exact hcall

theorem getAttributeValue_ok {object attrName : String} {u u' : ImmUtil} {values : Option AttrValues}
    (h : u.getAttributeValue object attrName = (.ok, values, u')) :
    Readable u.imm object attrName ∧ values = u.imm.values object attrName := by
  unfold getAttributeValue at h
  split at h
  · cases h
  · rename_i hne
    rw [not_or] at hne
    split at h
    · cases h
    · rename_i name hname
      obtain rfl := makeSaNameT_eq_some hname
      split at h
      · rename_i u₁ hcall
        rw [(call_asked hcall).imm] at h
        split at h
        · rename_i v hv
          obtain ⟨_, rfl, _⟩ := h
          exact ⟨⟨hne.1, hne.2, hname, by rw [hv]; exact Option.some_ne_none v⟩, hv.symm⟩
        · cases h
      · cases h
      · cases h

theorem getAttributeValue_answering {object attrName : String} {u : ImmUtil}
    (h : Readable u.imm object attrName) (rest : List Answer) :
    (u.answering (.ok :: rest)).getAttributeValue object attrName =
      (.ok, u.imm.values object attrName, u.answering rest) := by
  obtain ⟨hobject, hattr, hname, hvalue⟩ := h
  obtain ⟨v, hv⟩ := Option.ne_none_iff_exists'.mp hvalue
  unfold getAttributeValue
  rw [if_neg (by simp [hobject, hattr]), hname]
  simp [call, answering, hv]

theorem asked_searchNext (objects : List String) (u : ImmUtil) : Asked u (searchNext objects u).2.2 := by
  induction objects generalizing u with
  | nil =>
    have hcall := asked_call u
    unfold searchNext
    split <;> rename_i h <;> rw [h] at hcall <;> exact hcall
  | cons object objects ih =>
    have hcall := asked_call u
    unfold searchNext
    split <;> rename_i h <;> rw [h] at hcall
    · exact hcall.trans (ih _)
    · exact hcall

theorem searchNext_true {objects found : List String} {u u' : ImmUtil}
    (h : searchNext objects u = (true, found, u')) : found = objects := by
  induction objects generalizing u found with
  | nil =>
    unfold searchNext at h
    split at h
    · cases h
      rfl
    · cases h
  | cons object objects ih =>
    unfold searchNext at h
    split at h
    · rename_i u₁ _
      rcases hr : searchNext objects u₁ with ⟨r, found', u₂⟩
      rw [hr] at h
      cases h
      rw [ih hr]
    · cases h

theorem searchNext_answering (objects : List String) (u : ImmUtil) (rest : List Answer) :
    searchNext objects (u.answering (List.replicate (objects.length + 1) .ok ++ rest)) =
      (true, objects, u.answering rest) := by
  induction objects with
  | nil => rfl
  | cons object objects ih =>
    rw [List.length_cons, List.replicate_succ, List.cons_append, searchNext]
    simp only [call, answering] at ih ⊢
    rw [ih]

theorem asked_findImmObjects (parent className : String) (u : ImmUtil) :
    Asked u (u.findImmObjects parent className).2.2 := by
  unfold findImmObjects
  split
  · exact Asked.refl u
  · split
    · exact Asked.refl u
    · have hcall := asked_call u
      split <;> rename_i h <;> rw [h] at hcall
      · exact hcall.trans (asked_searchNext _ _)
      · exact hcall

def Searchable (parent className : String) : Prop :=
  className ≠ "" ∧ ¬ (parent ≠ "" ∧ makeSaNameT parent = none)

theorem findImmObjects_true {parent className : String} {found : List String} {u u' : ImmUtil}
    (h : u.findImmObjects parent className = (true, found, u')) :
    Searchable parent className ∧ found = u.imm.search parent className := by
  unfold findImmObjects at h
  split at h
  · cases h
  · split at h
    · cases h
    · rename_i hclass hparent
      split at h
      · rename_i u₁ hcall
        rw [← (call_asked hcall).imm]
        exact ⟨⟨hclass, hparent⟩, searchNext_true h⟩
      · cases h

theorem findImmObjects_answering {parent className : String} (h : Searchable parent className) (u : ImmUtil)
    (rest : List Answer) :
    (u.answering (List.replicate ((u.imm.search parent className).length + 2) .ok ++ rest)).findImmObjects
      parent className = (true, u.imm.search parent className, u.answering rest) := by
  unfold findImmObjects
  rw [if_neg h.1, if_neg h.2, List.replicate_succ, List.cons_append]
  exact searchNext_answering _ u rest

theorem findImmObjects_fails (parent className : String) (u : ImmUtil) :
    ∃ bad, ∀ rest, (u.answering (bad ++ rest)).findImmObjects parent className =
      (false, [], u.answering rest) := by
  by_cases hclass : className = ""
  · exact ⟨[], fun rest => by rw [findImmObjects, if_pos hclass]; rfl⟩
  · by_cases hparent : parent ≠ "" ∧ makeSaNameT parent = none
    · exact ⟨[], fun rest => by rw [findImmObjects, if_neg hclass, if_pos hparent]; rfl⟩
    · exact ⟨[.other], fun rest => by rw [findImmObjects, if_neg hclass, if_neg hparent]; rfl⟩

theorem asked_setAdminOwner (object : String) (u : ImmUtil) : Asked u (setAdminOwner object u).2 := by
  unfold setAdminOwner
  split
  · exact Asked.refl u
  · split
    · exact Asked.refl u
    · have hcall := asked_call u
      split <;> rename_i h <;> rw [h] at hcall <;> exact hcall

theorem asked_getErrorStrings (u : ImmUtil) : Asked u (getErrorStrings u).2 := by
  have hcall := asked_call u
  unfold getErrorStrings
  split <;> rename_i h <;> rw [h] at hcall <;> exact hcall

theorem asked_ccbCall (u : ImmUtil) : Asked u (ccbCall u).2.2 := by
  have hcall := asked_call u
  unfold ccbCall
  split <;> rename_i h <;> rw [h] at hcall
  · exact hcall
  · exact hcall.trans (asked_getErrorStrings _)
  · exact hcall

theorem asked_modifyObjects (objects : List String) (u : ImmUtil) : Asked u (modifyObjects objects u).2.2 := by
  induction objects generalizing u with
  | nil => exact Asked.refl u
  | cons object objects ih =>
    have howner := asked_setAdminOwner object u
    unfold modifyObjects
    split <;> rename_i h <;> rw [h] at howner
    · exact howner
    · rename_i u₁
      split
      · exact howner
      · have hcall := asked_ccbCall u₁
        split
        · rename_i h'
          rw [h'] at hcall
          exact (howner.trans hcall).trans (ih _)
        · exact howner.trans hcall

theorem asked_runCcb (u : ImmUtil) : Asked u (runCcb u).2.2 := by
  have howner := asked_call u
  unfold runCcb
  split <;> rename_i h₁ <;> rw [h₁] at howner
  · rename_i u₁
    have hccb := asked_call u₁
    split <;> rename_i h₂ <;> rw [h₂] at hccb
    · rename_i u₂
      have hobjects := asked_modifyObjects (u₂.ccbObjects.map Prod.fst) u₂
      split <;> rename_i h₃
      · rw [h₃] at hobjects
        rename_i u₃
        have hvalidate := asked_ccbCall u₃
        split <;> rename_i h₄
        · rw [h₄] at hvalidate
          exact (((howner.trans hccb).trans hobjects).trans hvalidate).trans (asked_ccbCall _)
        · exact ((howner.trans hccb).trans hobjects).trans hvalidate
      · exact (howner.trans hccb).trans hobjects
    · exact howner.trans hccb
  · exact howner

def commit (u : ImmUtil) : ImmUtil :=
  closeTransaction { u with imm := u.imm.modify u.ccbObjects, committed := u.committed ++ [u.ccbObjects] }

theorem applyTransaction_eq (u : ImmUtil) : ∃ retVal oiErrorStrings answers, u.applyTransaction =
    (retVal, oiErrorStrings, (if retVal then u.commit else u.closeTransaction).answering answers) := by
  have hrun := asked_runCcb u
  unfold applyTransaction
  split <;> rename_i oiErrorStrings u' h <;> rw [h] at hrun
  · obtain ⟨answers, rfl⟩ := hrun
    exact ⟨true, oiErrorStrings, answers, rfl⟩
  · obtain ⟨answers, rfl⟩ := hrun
    exact ⟨false, oiErrorStrings, answers, rfl⟩

theorem ccbCall_answering (u : ImmUtil) (rest : List Answer) :
    ccbCall (u.answering (.ok :: rest)) = (true, "", u.answering rest) := rfl

theorem modifyObjects_answering {objects : List String} (h : ∀ object ∈ objects, makeSaNameT object ≠ none)
    (u : ImmUtil) : ∃ n, ∀ rest, modifyObjects objects (u.answering (List.replicate n .ok ++ rest)) =
      (true, "", u.answering rest) := by
  induction objects with
  | nil => exact ⟨0, fun rest => rfl⟩
  | cons object objects ih =>
    obtain ⟨name, hname⟩ := Option.ne_none_iff_exists'.mp (h object List.mem_cons_self)
    obtain ⟨n, hn⟩ := ih fun o ho => h o (List.mem_cons_of_mem _ ho)
    by_cases hempty : object = ""
    · refine ⟨n + 1, fun rest => ?_⟩
      rw [modifyObjects, setAdminOwner, if_pos hempty, List.replicate_succ, List.cons_append]
      simp only [hname, ccbCall_answering, hn]
    · refine ⟨n + 2, fun rest => ?_⟩
      have howner : setAdminOwner object (u.answering (List.replicate (n + 2) .ok ++ rest)) =
          (true, u.answering (.ok :: (List.replicate n .ok ++ rest))) := by
        rw [setAdminOwner, if_neg hempty, hname]
        rfl
      rw [modifyObjects, howner]
      simp only [hname, ccbCall_answering, hn]

theorem applyTransaction_answering {u : ImmUtil} (h : ∀ x ∈ u.ccbObjects, makeSaNameT x.1 ≠ none) :
    ∃ n, ∀ rest, (u.answering (List.replicate n .ok ++ rest)).applyTransaction =
      (true, "", u.commit.answering rest) := by
  have hobjects : ∀ object ∈ u.ccbObjects.map Prod.fst, makeSaNameT object ≠ none := by
    intro object hobject
    obtain ⟨x, hx, rfl⟩ := List.mem_map.mp hobject
    exact h x hx
  obtain ⟨n, hn⟩ := modifyObjects_answering hobjects u
  refine ⟨n + 4, fun rest => ?_⟩
  have hanswers : List.replicate (n + 4) Answer.ok ++ rest =
      .ok :: .ok :: (List.replicate n .ok ++ .ok :: .ok :: rest) := by
    rw [show n + 4 = 2 + n + 2 by omega, List.replicate_add, List.replicate_add, List.append_assoc,
      List.append_assoc]
    rfl
  have hrun : runCcb (u.answering (List.replicate (n + 4) .ok ++ rest)) = (true, "", u.answering rest) := by
    rw [hanswers, runCcb]
    simp only [call, answering] at hn ⊢
    rw [hn]
    rfl
  rw [applyTransaction, hrun]
  rfl

end ImmUtil

end ComSA.ComReencryptor
