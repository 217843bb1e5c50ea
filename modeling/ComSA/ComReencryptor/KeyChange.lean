import ComSA.Lib.Run
import ComSA.ComReencryptor.AllOrNothing

/-!
# The keys that the participant uses

The key changes in CCBs of others, while the participant starts and after it. Its callbacks
come in the order of what happened, and only for what happens after the applier is
registered.
-/

namespace ComSA.ComReencryptor

open Defines ImmUtil Reencryptor

inductive Callback where
  | modify (ccbId : Nat) (attrMods : List AttrModification)
  | apply (ccbId : Nat)
  | abort (ccbId : Nat)

structure OpenCcb where
  ccbId : Nat
  key : List String
  reported : Bool

inductive Phase where
  | notStarted
  | keysRead
  | firstRunDone
  | started
  deriving DecidableEq, Repr

structure System where
  participant : Reencryptor
  phase : Phase := .notStarted
  openCcb : Option OpenCcb := none
  callbacks : List Callback := []

inductive Event where
  | modify (ccbId : Nat) (attrMods : List AttrModification)
  | commit (ccbId : Nat)
  | abort (ccbId : Nat)
  | readKeys
  | firstRun
  | register
  | dispatch

variable (env : Env)

/-! ## The system -/

def modifyValues (m : AttrModification) (values : List String) : List String :=
  match m.modType with
  | .valuesAdd => values ++ m.attrValues
  | .valuesDelete => values.filter (· ∉ m.attrValues)
  | .valuesReplace => m.attrValues

def modifyKey (attrMods : List AttrModification) (key : List String) : List String :=
  (attrMods.filter fun m => m.attrName = encryptionKeyUuid).foldl (fun key m => modifyValues m key) key

def parentKeyValues (imm : Imm) : List String :=
  match imm.values secEncryptionParticipantMObject encryptionKeyUuid with
  | some (.strings values) => values
  | _ => []

def setParentKey (key : List String) (imm : Imm) : Imm :=
  { imm with
    values := fun object attrName =>
      if object = secEncryptionParticipantMObject ∧ attrName = encryptionKeyUuid then some (.strings key)
      else imm.values object attrName }

namespace System

def pendingKey (s : System) : List String :=
  match s.openCcb with
  | some ccb => ccb.key
  | none => parentKeyValues s.participant.immUtil.imm

def report (callback : Callback) (s : System) : System :=
  if s.phase = .started then { s with callbacks := s.callbacks ++ [callback] } else s

def setImm (imm : Imm) (s : System) : System :=
  { s with participant := { s.participant with immUtil := { s.participant.immUtil with imm := imm } } }

end System

def handle (callback : Callback) (r : Reencryptor) : Reencryptor :=
  match callback with
  | .modify ccbId attrMods => r.handleOiCcbObjectModify ccbId secEncryptionParticipantMObject attrMods
  | .apply ccbId => r.handleOiCcbApply env ccbId
  | .abort ccbId => r.handleOiCcbAbort ccbId

def takenKey (attrMods : List AttrModification) : Option String :=
  match attrMods.find? fun m => m.attrName = encryptionKeyUuid with
  | some ⟨_, _, value :: _⟩ => some value
  | _ => none

def succeeding (r : Reencryptor) : Reencryptor := r.answering []

def step (s : System) : Event → System
  | .modify ccbId attrMods =>
    { s.report (.modify ccbId attrMods) with
      openCcb := some {
        ccbId := ccbId
        key := modifyKey attrMods s.pendingKey
        reported := s.openCcb.any OpenCcb.reported || (s.phase = .started && (takenKey attrMods).isSome) } }
  | .commit ccbId =>
    let s := s.setImm (setParentKey s.pendingKey s.participant.immUtil.imm)
    { s.report (.apply ccbId) with openCcb := none }
  | .abort ccbId => { s.report (.abort ccbId) with openCcb := none }
  | .readKeys =>
    match (succeeding s.participant).readKeys with
    | (true, r) => { s with participant := r, phase := .keysRead }
    | (false, r) => { s with participant := r }
  | .firstRun => { s with participant := (succeeding s.participant).doReencryption env 0, phase := .firstRunDone }
  | .register => { s with phase := .started }
  | .dispatch =>
    match s.callbacks with
    | [] => s
    | callback :: callbacks =>
      { s with participant := handle env callback (succeeding s.participant), callbacks := callbacks }

/-- What IMM lets happen. One CCB at a time is open on an object, and the key has at most one value. -/
def Legal (s : System) : Event → Prop
  | .modify ccbId attrMods => ccbId ≠ 0 ∧ (∀ ccb, s.openCcb = some ccb → ccb.ccbId = ccbId) ∧
      (modifyKey attrMods s.pendingKey).length ≤ 1
  | .commit ccbId => ∃ ccb, s.openCcb = some ccb ∧ ccb.ccbId = ccbId
  | .abort ccbId => ∃ ccb, s.openCcb = some ccb ∧ ccb.ccbId = ccbId
  | .readKeys => s.phase = .notStarted
  | .firstRun => s.phase = .keysRead
  | .register => s.phase = .firstRunDone
  | .dispatch => s.callbacks ≠ []

def lastKey (r : Reencryptor) : String := r.used.getLast?.getD ""

def storedKey (imm : Imm) : String := (parentKeyValues imm).headD ""

/-- Nothing is left to do, so the last re-encryption was done with the key that is stored. -/
def UpToDate (s : System) : Prop :=
  s.phase = .started → s.callbacks = [] → lastKey s.participant = storedKey s.participant.immUtil.imm

/-! ## What a step must be like -/

/-- A callback takes the key that will be stored, and a CCB that changes the key is not committed
between the start of the participant and the callbacks for it. -/
def Noticed (s : System) : Event → Prop
  | .modify _ attrMods => s.phase = .started →
      match takenKey attrMods with
      | some key => modifyKey attrMods s.pendingKey = [key]
      | none => modifyKey attrMods s.pendingKey = s.pendingKey
  | .commit _ => s.phase = .notStarted ∨ s.pendingKey = parentKeyValues s.participant.immUtil.imm ∨
      ∃ ccb, s.openCcb = some ccb ∧ ccb.reported = true
  | _ => True

/-! ## A run of the participant -/

def childKey (imm : Imm) : String := readString imm secEncryptionParticipantObject encryptionKeyUuid ""

/-- The attributes of the object of the participant have the types of their class. -/
def ChildTyped (imm : Imm) : Prop :=
  (∃ values, imm.values secEncryptionParticipantObject encryptionKeyUuid = some (.strings values) ∧
    values.length ≤ 1) ∧ ∃ status, storedStatus imm = some status

def ParentTyped (imm : Imm) : Prop :=
  ∃ values, imm.values secEncryptionParticipantMObject encryptionKeyUuid = some (.strings values) ∧
    values.length ≤ 1

theorem readable_of_childTyped {imm : Imm} (h : ChildTyped imm) :
    Readable imm secEncryptionParticipantObject encryptionKeyUuid := by
  obtain ⟨⟨values, hvalues, _⟩, _⟩ := h
  exact ⟨by decide, by decide, by decide, by simp [hvalues]⟩

theorem readString_of_typed {imm : Imm} {object attrName : String} {values : List String}
    (h : imm.values object attrName = some (.strings values)) (hlength : values.length ≤ 1) (value : String) :
    readString imm object attrName value = values.headD "" := by
  unfold readString
  rw [h]
  match values, hlength with
  | [], _ => rfl
  | [v], _ => rfl

theorem childKey_eq {imm : Imm} (h : ChildTyped imm) (value : String) :
    readString imm secEncryptionParticipantObject encryptionKeyUuid value = childKey imm := by
  obtain ⟨⟨values, hvalues, hlength⟩, _⟩ := h
  rw [childKey, readString_of_typed hvalues hlength, readString_of_typed hvalues hlength]

theorem parentKeyValues_eq {imm : Imm} {values : List String}
    (h : imm.values secEncryptionParticipantMObject encryptionKeyUuid = some (.strings values)) :
    parentKeyValues imm = values := by
  rw [parentKeyValues, h]

section
variable {u : ImmUtil} (h : u.answers = [])
include h

theorem call_willing : u.call = (.ok, u) := by
  unfold call
  rw [h]

theorem getAttributeValue_willing {object attrName : String} (hread : Readable u.imm object attrName) :
    u.getAttributeValue object attrName = (.ok, u.imm.values object attrName, u) := by
  obtain ⟨hobject, hattr, hname, hvalue⟩ := hread
  obtain ⟨v, hv⟩ := Option.ne_none_iff_exists'.mp hvalue
  unfold getAttributeValue
  rw [if_neg (by simp [hobject, hattr]), hname]
  simp only [call_willing h, hv]

theorem getSingleStringAttribute_willing {object attrName : String} (value : String)
    (hread : Readable u.imm object attrName) :
    getSingleStringAttribute object attrName value u = (.ok, readString u.imm object attrName value, u) := by
  unfold getSingleStringAttribute readString
  rw [getAttributeValue_willing h hread]
  obtain ⟨values, hvalues⟩ := Option.ne_none_iff_exists'.mp hread.2.2.2
  rw [hvalues]
  rcases values with (_ | ⟨v, _ | _⟩) | _ | _ <;> rfl

theorem modifyObjects_willing {objects : List String} (hobjects : ∀ object ∈ objects, makeSaNameT object ≠ none) :
    modifyObjects objects u = (true, "", u) := by
  induction objects with
  | nil => rfl
  | cons object objects ih =>
    obtain ⟨name, hname⟩ := Option.ne_none_iff_exists'.mp (hobjects object List.mem_cons_self)
    have howner : setAdminOwner object u = (true, u) := by
      unfold setAdminOwner
      rw [hname]
      simp [call_willing h]
    rw [modifyObjects, howner]
    simp only [hname, ccbCall, call_willing h]
    exact ih fun o ho => hobjects o (List.mem_cons_of_mem _ ho)

theorem applyTransaction_willing (hobjects : ∀ x ∈ u.ccbObjects, makeSaNameT x.1 ≠ none) :
    u.applyTransaction = (true, "", u.commit) := by
  have hmodify : modifyObjects (u.ccbObjects.map Prod.fst) u = (true, "", u) :=
    modifyObjects_willing h fun object hobject => by
      obtain ⟨x, hx, rfl⟩ := List.mem_map.mp hobject
      exact hobjects x hx
  have hrun : runCcb u = (true, "", u) := by
    unfold runCcb
    simp only [call_willing h, hmodify, ccbCall]
  rw [applyTransaction, hrun]
  rfl

end

theorem key_of_not_needed {r r' : Reencryptor} (hanswers : r.immUtil.answers = [])
    (hempty : r.immUtil.ccbObjects = []) (hchild : ChildTyped r.immUtil.imm)
    (h : r.isReencryptionNeeded = (false, r')) : r.parentKeyUuid = childKey r.immUtil.imm := by
  by_contra hkey
  let r₁ : Reencryptor := { r with
    childKeyUuid := childKey r.immUtil.imm
    encryptionStatus := .inprogress
    additionalStatusInfo := infoAttrMsg .inprogress }
  have hcheck : r.checkKey = (true, r₁) := by
    unfold checkKey
    rw [getSingleStringAttribute_willing hanswers _ (readable_of_childTyped hchild), childKey_eq hchild]
    simp only [hkey, if_false]
    rfl
  have happly : r₁.startStatus.applyTransaction = (true, "", r₁.startStatus.commit) := by
    refine applyTransaction_willing hanswers ?_
    have : r₁.startStatus.ccbObjects =
        startObjects r₁.encryptionStatus r₁.parentKeyUuid r₁.additionalStatusInfo := by
      simp only [startStatus, ImmUtil.addModifyObject, r₁, hempty]
      rfl
    rw [this]
    exact named_startObjects _ _ _
  have hstatus : r₁.encryptionStatus ≠ .success := (by decide : EncryptionStatus.inprogress ≠ .success)
  rw [isReencryptionNeeded, hcheck] at h
  simp only [hstatus, if_false, happly] at h
  cases h

variable {env}

theorem Reencryptor.SecretsSet.of_not_secret {r r' : Reencryptor} (h : SecretsSet env r r')
    (hempty : r.immUtil.ccbObjects = []) {p : String × String}
    (hp : p ∉ secrets r.immUtil.imm (mocAttrData env)) :
    r'.immUtil.imm.values p.1 p.2 = r.immUtil.imm.values p.1 p.2 ∧ staged r'.immUtil.ccbObjects p.1 p.2 = [] := by
  cases h with
  | applied objects _ values set _ cleared =>
    rw [set.1, cleared]
    exact ⟨modify_values_of_not_staged ((values p).trans (newValues_eq_nil_of_not_mem env _ hp)), staged_nil _ _⟩
  | failed set _ cleared =>
    refine ⟨by rw [set.1], ?_⟩
    rcases cleared with h | ⟨before, entry, after, hdata, -, -, hstaged⟩
    · rw [h, staged_nil]
    · rw [hstaged, hempty, staged_nil, List.nil_append]
      refine newValues_eq_nil_of_not_mem env _ fun hmem => hp ?_
      rw [hdata, secrets_append]
      exact List.mem_append_left _ hmem

theorem Reencryptor.SecretsSet.search {r r' : Reencryptor} (h : SecretsSet env r r') :
    r'.immUtil.imm.search = r.immUtil.imm.search := by
  cases h with
  | applied objects _ _ set _ _ =>
    rw [set.1]
    rfl
  | failed set _ _ => rw [set.1]

theorem values_setStatus_setSecrets {r : Reencryptor} (hempty : r.immUtil.ccbObjects = []) {p : String × String}
    (hp : p ∉ secrets r.immUtil.imm (mocAttrData env))
    (hstatus : p ≠ (secEncryptionParticipantObject, Defines.encryptionStatus))
    (hinfo : p ≠ (secEncryptionParticipantObject, Defines.additionalStatusInfo)) :
    (setStatus (setSecrets env r)).immUtil.imm.values p.1 p.2 = r.immUtil.imm.values p.1 p.2 := by
  obtain ⟨hvalues, hstaged⟩ := (setSecrets_spec env hempty).1.of_not_secret hempty hp
  rcases (setStatus_spec (setSecrets env r)).1 with h | h
  · rw [h.1, modify_values_of_not_staged, hvalues]
    rw [endObjects, staged_addObject, if_neg hinfo, staged_addObject, if_neg hstatus, hstaged]
  · rw [h.1, hvalues]

theorem storedStatus_of_int32 {imm : Imm} {v : Int}
    (h : imm.values secEncryptionParticipantObject Defines.encryptionStatus = some (.int32s [v])) :
    ∃ status, storedStatus imm = some status := by
  rw [storedStatus, h]
  exact ⟨_, rfl⟩

theorem storedStatus_congr {imm imm' : Imm}
    (h : imm'.values secEncryptionParticipantObject Defines.encryptionStatus =
      imm.values secEncryptionParticipantObject Defines.encryptionStatus) :
    storedStatus imm' = storedStatus imm := by
  rw [storedStatus, storedStatus, h]

theorem modify_status {objects : CcbObjects} {s : String} (imm : Imm)
    (h : staged objects secEncryptionParticipantObject Defines.encryptionStatus = [s]) :
    (imm.modify objects).values secEncryptionParticipantObject Defines.encryptionStatus =
      some (.int32s [extractInt32 s]) := by
  rw [modify_values_of_staged (by rw [h]; simp), h, if_pos (by decide)]
  rfl

theorem storedStatus_setStatus_setSecrets {r : Reencryptor} (hempty : r.immUtil.ccbObjects = [])
    (hforeign : Foreign env r) (h : ∃ status, storedStatus r.immUtil.imm = some status) :
    ∃ status, storedStatus (setStatus (setSecrets env r)).immUtil.imm = some status := by
  obtain ⟨hvalues, hstaged⟩ := (setSecrets_spec env hempty).1.of_not_secret hempty
    (hforeign (secEncryptionParticipantObject, Defines.encryptionStatus) (by simp [ownAttributes]))
  rcases (setStatus_spec (setSecrets env r)).1 with h' | h'
  · refine storedStatus_of_int32 (v := extractInt32 (toString (setSecrets env r).encryptionStatus)) ?_
    rw [h'.1]
    exact modify_status _ (by rw [staged_endObjects_status, hstaged]; rfl)
  · rw [h'.1, storedStatus_congr hvalues]
    exact h

variable (env) in
structure Ready (r : Reencryptor) : Prop where
  empty : r.immUtil.ccbObjects = []
  foreign : Foreign env r
  parentForeign : (secEncryptionParticipantMObject, encryptionKeyUuid) ∉ secrets r.immUtil.imm (mocAttrData env)
  child : ChildTyped r.immUtil.imm
  parent : ParentTyped r.immUtil.imm
  lastKey : lastKey r = childKey r.immUtil.imm

def SameParent (imm imm' : Imm) : Prop :=
  imm'.values secEncryptionParticipantMObject encryptionKeyUuid =
    imm.values secEncryptionParticipantMObject encryptionKeyUuid

theorem SameParent.storedKey {imm imm' : Imm} (h : SameParent imm imm') :
    ComReencryptor.storedKey imm' = ComReencryptor.storedKey imm := by
  rw [ComReencryptor.storedKey, ComReencryptor.storedKey, parentKeyValues, parentKeyValues, h]

theorem SameParent.typed {imm imm' : Imm} (h : SameParent imm imm') (hp : ParentTyped imm) : ParentTyped imm' := by
  obtain ⟨values, hvalues, hlength⟩ := hp
  exact ⟨values, h.trans hvalues, hlength⟩

theorem startObjects_applied {r r' : Reencryptor} {status : EncryptionStatus} {uuid info : String}
    (h : Applied (startObjects status uuid info) r r') :
    r'.immUtil.imm.values secEncryptionParticipantObject encryptionKeyUuid = some (.strings [uuid]) ∧
      (∃ status, storedStatus r'.immUtil.imm = some status) ∧
      SameParent r.immUtil.imm r'.immUtil.imm := by
  have hkey : staged (startObjects status uuid info) secEncryptionParticipantObject encryptionKeyUuid = [uuid] := by
    rw [startObjects, staged_addObject, if_neg (by decide), staged_addObject, if_pos rfl, staged_addObject,
      if_neg (by decide), staged_nil]
    rfl
  rw [h.1]
  refine ⟨?_, storedStatus_of_int32 (modify_status _ (staged_startObjects_status status uuid info)), ?_⟩
  · rw [modify_values_of_staged (by rw [hkey]; simp), hkey, if_neg (by decide)]
  · exact modify_values_of_not_staged (staged_startObjects_of_not_own
      (p := (secEncryptionParticipantMObject, encryptionKeyUuid)) (by decide) status uuid info)

theorem Ready.of_values {r r' : Reencryptor} (h : Ready env r) (hempty : r'.immUtil.ccbObjects = [])
    (hsearch : r'.immUtil.imm.search = r.immUtil.imm.search) (hchild : ChildTyped r'.immUtil.imm)
    (hparent : SameParent r.immUtil.imm r'.immUtil.imm) (hlast : ComReencryptor.lastKey r' = childKey
      r'.immUtil.imm) :
    Ready env r' where
  empty := hempty
  foreign := h.foreign.of_search hsearch
  parentForeign := by
    rw [secrets_congr hsearch]
    exact h.parentForeign
  child := hchild
  parent := hparent.typed h.parent
  lastKey := hlast

theorem lastKey_append (used : List String) (key : String) (r : Reencryptor) (h : r.used = used ++ [key]) :
    lastKey r = key := by
  simp [lastKey, h]

theorem childKey_of_values {imm : Imm} {key : String}
    (h : imm.values secEncryptionParticipantObject encryptionKeyUuid = some (.strings [key])) :
    childKey imm = key := by
  rw [childKey, readString, h]

theorem doReencryption_ready {r : Reencryptor} (h : Ready env r) (hanswers : r.immUtil.answers = []) :
    Ready env (doReencryption env r.ccbId r) ∧
      lastKey (doReencryption env r.ccbId r) = r.parentKeyUuid ∧
      (doReencryption env r.ccbId r).parentKeyUuid = r.parentKeyUuid ∧
      (doReencryption env r.ccbId r).ccbId = r.ccbId ∧
      SameParent r.immUtil.imm (doReencryption env r.ccbId r).immUtil.imm := by
  rw [doReencryption, if_neg (not_not.mpr rfl)]
  rcases hneeded : r.isReencryptionNeeded with ⟨needed, r₁⟩
  obtain ⟨hempty, hkey, hccb, hused, -, hstart⟩ := isReencryptionNeeded_spec h.empty hneeded
  have hlast : lastKey r₁ = lastKey r := by rw [lastKey, hused, lastKey]
  cases needed with
  | false =>
    have hsame := key_of_not_needed hanswers h.empty h.child hneeded
    rcases hstart with ⟨-, himm, -⟩ | ⟨status, info, -, happlied⟩
    · refine ⟨h.of_values hempty ?_ ?_ ?_ ?_, ?_, hkey, hccb, ?_⟩ <;> dsimp only
      · rw [himm]
      · rw [himm]
        exact h.child
      · rw [SameParent, himm]
      · rw [hlast, himm]
        exact h.lastKey
      · rw [hlast, h.lastKey, hsame]
      · rw [SameParent, himm]
    · obtain ⟨hvalues, hstatus, hparent⟩ := startObjects_applied happlied
      have hlast₁ : lastKey r₁ = r.parentKeyUuid := by rw [hlast, h.lastKey, hsame]
      refine ⟨h.of_values hempty ?_ ⟨⟨_, hvalues, Nat.le_refl 1⟩, hstatus⟩ hparent ?_, hlast₁, hkey, hccb, hparent⟩
      · rw [happlied.1]
        rfl
      · rw [hlast₁, childKey_of_values hvalues]
  | true =>
    rcases hstart with ⟨h, -⟩ | ⟨status, info, -, happlied⟩
    · cases h
    · obtain ⟨hvalues, hstatus, hparent⟩ := startObjects_applied happlied
      let r₂ : Reencryptor := { r₁ with used := r₁.used ++ [r₁.parentKeyUuid] }
      have hsearch : r₂.immUtil.imm.search = r.immUtil.imm.search := by
        change r₁.immUtil.imm.search = _
        rw [happlied.1]
        rfl
      obtain ⟨hset, hkey₃, hccb₃, hused₃⟩ := setSecrets_spec env (r := r₂) hempty
      obtain ⟨hend, hempty₄, hkey₄, hccb₄, hused₄⟩ := setStatus_spec (setSecrets env r₂)
      have hforeign : Foreign env r₂ := h.foreign.of_search hsearch
      have hvalues₄ := values_setStatus_setSecrets (r := r₂) hempty
        (hforeign (secEncryptionParticipantObject, encryptionKeyUuid) (by simp [ownAttributes])) (by decide)
          (by decide)
      have hparent₄ := values_setStatus_setSecrets (r := r₂) hempty
        (p := (secEncryptionParticipantMObject, encryptionKeyUuid))
        (by rw [secrets_congr hsearch]; exact h.parentForeign) (by decide) (by decide)
      have hlast₄ : lastKey (setStatus (setSecrets env r₂)) = r.parentKeyUuid :=
        lastKey_append r₁.used r.parentKeyUuid _ (by rw [hused₄, hused₃, ← hkey])
      refine ⟨h.of_values hempty₄ ?_ ⟨⟨_, hvalues₄.trans hvalues, Nat.le_refl 1⟩, ?_⟩ (hparent₄.trans hparent) ?_,
        hlast₄, hkey₄.trans (hkey₃.trans hkey), hccb₄.trans (hccb₃.trans hccb), hparent₄.trans hparent⟩
      · refine Eq.trans ?_ (hset.search.trans hsearch)
        rcases hend with hend | hend
        · rw [hend.1]
          rfl
        · rw [hend.1]
      · exact storedStatus_setStatus_setSecrets hempty hforeign hstatus
      · rw [hlast₄, childKey_of_values (hvalues₄.trans hvalues)]

/-! ## A callback -/

structure View where
  key : String
  ccbId : Nat
  used : String
  deriving DecidableEq

def view (r : Reencryptor) : View := ⟨r.parentKeyUuid, r.ccbId, lastKey r⟩

def View.handle (v : View) : Callback → View
  | .modify ccbId attrMods =>
    match takenKey attrMods with
    | some key => { v with key := key, ccbId := ccbId }
    | none => v
  | .apply ccbId => if ccbId = v.ccbId then ⟨v.key, 0, v.key⟩ else v
  | .abort ccbId => if ccbId = v.ccbId then { v with ccbId := 0 } else v

theorem updateParentEncryptionKeyUuid_eq (attrMods : List AttrModification) (r : Reencryptor) :
    r.updateParentEncryptionKeyUuid attrMods =
      match takenKey attrMods with
      | some key => (true, { r with parentKeyUuid := key })
      | none => (false, r) := by
  unfold updateParentEncryptionKeyUuid takenKey
  generalize List.find? _ attrMods = found
  rcases found with _ | ⟨_, _, _ | ⟨_, _⟩⟩ <;> rfl

theorem Ready.of_buffer {r r' : Reencryptor} (h : Ready env r) (hempty : r'.immUtil.ccbObjects = [])
    (himm : r'.immUtil.imm = r.immUtil.imm) (hused : r'.used = r.used) : Ready env r' := by
  refine h.of_values hempty (by rw [himm]) (himm ▸ h.child) (by rw [SameParent, himm]) ?_
  rw [ComReencryptor.lastKey, hused, himm]
  exact h.lastKey

theorem handle_modify {r : Reencryptor} (h : Ready env r) (ccbId : Nat) (attrMods : List AttrModification) :
    Ready env (handle env (.modify ccbId attrMods) r) ∧
      view (handle env (.modify ccbId attrMods) r) = (view r).handle (.modify ccbId attrMods) ∧
      (handle env (.modify ccbId attrMods) r).immUtil.imm = r.immUtil.imm := by
  rw [handle, handleOiCcbObjectModify, if_pos rfl, updateParentEncryptionKeyUuid_eq, View.handle]
  cases takenKey attrMods with
  | none => exact ⟨h, rfl, rfl⟩
  | some key =>
    dsimp only [setCcbId]
    split
    · exact ⟨h.of_buffer rfl rfl rfl, rfl, rfl⟩
    · exact ⟨h.of_buffer h.empty rfl rfl, rfl, rfl⟩

theorem handle_abort {r : Reencryptor} (h : Ready env r) (ccbId : Nat) :
    Ready env (handle env (.abort ccbId) r) ∧
      view (handle env (.abort ccbId) r) = (view r).handle (.abort ccbId) ∧
      (handle env (.abort ccbId) r).immUtil.imm = r.immUtil.imm := by
  rw [handle, handleOiCcbAbort, removeCcbId, View.handle]
  by_cases hccb : ccbId = r.ccbId
  · rw [if_pos hccb, if_pos (show ccbId = (view r).ccbId from hccb)]
    exact ⟨h.of_buffer rfl rfl rfl, rfl, rfl⟩
  · rw [if_neg hccb, if_neg (show ¬ ccbId = (view r).ccbId from hccb)]
    exact ⟨h, rfl, rfl⟩

theorem handle_apply {r : Reencryptor} (h : Ready env r) (hanswers : r.immUtil.answers = []) (ccbId : Nat) :
    Ready env (handle env (.apply ccbId) r) ∧
      view (handle env (.apply ccbId) r) = (view r).handle (.apply ccbId) ∧
      SameParent r.immUtil.imm (handle env (.apply ccbId) r).immUtil.imm := by
  rw [handle, handleOiCcbApply, View.handle]
  by_cases hccb : ccbId = r.ccbId
  · obtain ⟨hready, hlast, hkey, hccb', hparent⟩ := doReencryption_ready h hanswers
    rw [hccb, if_pos (show r.ccbId = (view r).ccbId from rfl), removeCcbId, if_pos hccb'.symm]
    refine ⟨hready.of_buffer hready.empty rfl rfl, ?_, hparent⟩
    exact View.mk.injEq .. |>.mpr ⟨hkey, rfl, hlast⟩
  · rw [if_neg (show ¬ ccbId = (view r).ccbId from hccb), doReencryption, if_pos hccb, removeCcbId, if_neg hccb]
    exact ⟨h, rfl, rfl⟩

theorem handle_ready {r : Reencryptor} (h : Ready env r) (callback : Callback) :
    Ready env (handle env callback (succeeding r)) ∧
      view (handle env callback (succeeding r)) = (view r).handle callback ∧
      SameParent r.immUtil.imm (handle env callback (succeeding r)).immUtil.imm := by
  have hready : Ready env (succeeding r) := h.of_buffer h.empty rfl rfl
  cases callback with
  | modify ccbId attrMods =>
    obtain ⟨hready', hview, himm⟩ := handle_modify hready ccbId attrMods
    exact ⟨hready', hview, by rw [himm]; rfl⟩
  | apply ccbId => exact handle_apply hready rfl ccbId
  | abort ccbId =>
    obtain ⟨hready', hview, himm⟩ := handle_abort hready ccbId
    exact ⟨hready', hview, by rw [himm]; rfl⟩

/-! ## The runs -/

def reportedCcb (openCcb : Option OpenCcb) : Nat :=
  match openCcb with
  | some ccb => if ccb.reported then ccb.ccbId else 0
  | none => 0

def finalView (s : System) : View := s.callbacks.foldl View.handle (view s.participant)

variable (env) in
/-- The participant before `start`. Its object keeps the last key, if it is there. -/
structure Startable (r : Reencryptor) : Prop where
  empty : r.immUtil.ccbObjects = []
  foreign : Foreign env r
  parentForeign : (secEncryptionParticipantMObject, encryptionKeyUuid) ∉ secrets r.immUtil.imm (mocAttrData env)
  parent : ParentTyped r.immUtil.imm
  child : ChildTyped r.immUtil.imm ∨
    r.immUtil.imm.values secEncryptionParticipantObject encryptionKeyUuid = none
  lastKey : lastKey r = childKey r.immUtil.imm

variable (env) in
structure Initial (s : System) : Prop where
  phase : s.phase = .notStarted
  openCcb : s.openCcb = none
  callbacks : s.callbacks = []
  ccbId : s.participant.ccbId = 0
  startable : Startable env s.participant

variable (env) in
structure Inv (s : System) : Prop where
  startable : s.phase = .notStarted → Startable env s.participant
  ready : s.phase ≠ .notStarted → Ready env s.participant
  early : s.phase ≠ .started → s.callbacks = [] ∧ ∀ ccb, s.openCcb = some ccb → ccb.reported = false
  ccb : ∀ ccb, s.openCcb = some ccb → ccb.ccbId ≠ 0 ∧ ccb.key.length ≤ 1
  keysRead : s.phase = .keysRead → s.participant.parentKeyUuid = storedKey s.participant.immUtil.imm
  ccbId : (finalView s).ccbId = reportedCcb s.openCcb
  used : s.phase = .firstRunDone ∨ s.phase = .started → (finalView s).used = storedKey s.participant.immUtil.imm
  key : ∀ ccb, s.openCcb = some ccb → ccb.reported = true → ccb.key = [(finalView s).key]

theorem inv_initial {s : System} (h : Initial env s) : Inv env s := by
  obtain ⟨hphase, hopen, hcallbacks, hccb, hstartable⟩ := h
  refine ⟨fun _ => hstartable, fun h => absurd hphase h, fun _ => ⟨hcallbacks, by simp [hopen]⟩, by simp [hopen],
    by simp [hphase], ?_, by simp [hphase], by simp [hopen]⟩
  rw [finalView, hcallbacks, hopen]
  exact hccb

theorem upToDate_of_inv {s : System} (h : Inv env s) : UpToDate s := by
  intro hphase hcallbacks
  have hused := h.used (Or.inr hphase)
  rw [finalView, hcallbacks] at hused
  exact hused

theorem reportedCcb_of_early {s : System} (h : Inv env s) (hphase : s.phase ≠ .started) :
    reportedCcb s.openCcb = 0 := by
  unfold reportedCcb
  split
  · rename_i ccb hopen
    rw [(h.early hphase).2 ccb hopen]
    rfl
  · rfl

theorem finalView_report (s : System) (callback : Callback) (openCcb : Option OpenCcb) :
    finalView { s.report callback with openCcb := openCcb } =
      if s.phase = .started then (finalView s).handle callback else finalView s := by
  unfold System.report finalView
  split
  · rw [List.foldl_append]
    rfl
  · rfl

@[simp] theorem report_phase (callback : Callback) (s : System) : (s.report callback).phase = s.phase := by
  unfold System.report
  split <;> rfl

@[simp] theorem report_participant (callback : Callback) (s : System) :
    (s.report callback).participant = s.participant := by
  unfold System.report
  split <;> rfl

theorem report_callbacks {s : System} (h : s.phase ≠ .started) (callback : Callback) :
    (s.report callback).callbacks = s.callbacks := by
  rw [System.report, if_neg h]

/-! ### What a CCB does -/

theorem inv_modify {s : System} (h : Inv env s) {ccbId : Nat} {attrMods : List AttrModification}
    (hlegal : Legal s (.modify ccbId attrMods)) (hnoticed : Noticed s (.modify ccbId attrMods)) :
    Inv env (step env s (.modify ccbId attrMods)) := by
  obtain ⟨hccb, hsame, hlength⟩ := hlegal
  have hany : ∀ hphase : s.phase ≠ .started, s.openCcb.any OpenCcb.reported = false := by
    intro hphase
    cases hopen : s.openCcb with
    | none => rfl
    | some ccb => exact (h.early hphase).2 ccb hopen
  have hreported : reportedCcb s.openCcb = if s.openCcb.any OpenCcb.reported then ccbId else 0 := by
    cases hopen : s.openCcb with
    | none => rfl
    | some ccb => rw [reportedCcb, Option.any_some, hsame ccb hopen]
  unfold step
  refine ⟨?_, ?_, ?_, ?_, ?_, ?_, ?_, ?_⟩
  · simpa using h.startable
  · simpa using h.ready
  · intro hphase
    rw [report_phase] at hphase
    refine ⟨(report_callbacks hphase _).trans (h.early hphase).1, fun ccb hccb => ?_⟩
    obtain rfl := Option.some.inj hccb
    simp [hany hphase, hphase]
  · intro ccb hopen
    obtain rfl := Option.some.inj hopen
    exact ⟨hccb, hlength⟩
  · simpa using h.keysRead
  · rw [finalView_report]
    dsimp only [reportedCcb]
    by_cases hphase : s.phase = .started
    · rw [if_pos hphase, View.handle]
      cases takenKey attrMods with
      | some key => simp [hphase]
      | none => simp [h.ccbId, hreported]
    · rw [if_neg hphase, h.ccbId, reportedCcb_of_early h hphase, hany hphase]
      simp [hphase]
  · rw [report_phase, finalView_report, report_participant]
    intro hphase
    rw [← h.used hphase]
    split
    · rw [View.handle]
      cases takenKey attrMods <;> rfl
    · rfl
  · intro ccb hopen hrep
    obtain rfl := Option.some.inj hopen
    dsimp only at hrep ⊢
    rw [finalView_report]
    by_cases hphase : s.phase = .started
    · have hnot := hnoticed hphase
      rw [if_pos hphase, View.handle]
      cases htaken : takenKey attrMods with
      | some key =>
        rw [htaken] at hnot
        exact hnot
      | none =>
        rw [htaken] at hnot hrep
        dsimp only at hnot
        rw [hnot]
        cases hopen : s.openCcb with
        | none => simp [hopen] at hrep
        | some ccb =>
          rw [System.pendingKey, hopen]
          exact h.key ccb hopen (by simpa [hopen] using hrep)
    · simp [hany hphase, hphase] at hrep

theorem setParentKey_parent (key : List String) (imm : Imm) :
    (setParentKey key imm).values secEncryptionParticipantMObject encryptionKeyUuid = some (.strings key) := by
  simp [setParentKey]

theorem setParentKey_child (key : List String) (imm : Imm) (attrName : String) :
    (setParentKey key imm).values secEncryptionParticipantObject attrName =
      imm.values secEncryptionParticipantObject attrName := by
  have hne : ¬ secEncryptionParticipantObject = secEncryptionParticipantMObject := by decide
  simp [setParentKey, hne]

theorem secrets_setParentKey (s : System) (key : List String) (data : MocAttrData) :
    secrets (s.setImm (setParentKey key s.participant.immUtil.imm)).participant.immUtil.imm data =
      secrets s.participant.immUtil.imm data := by
  apply secrets_congr
  rfl

theorem storedKey_setParentKey (key : List String) (imm : Imm) :
    storedKey (setParentKey key imm) = key.headD "" := by
  rw [storedKey, parentKeyValues_eq (setParentKey_parent key imm)]

theorem childTyped_setParentKey {key : List String} {imm : Imm} (h : ChildTyped imm) :
    ChildTyped (setParentKey key imm) := by
  obtain ⟨⟨values, hvalues, hlength⟩, hstatus⟩ := h
  exact ⟨⟨values, (setParentKey_child key imm _).trans hvalues, hlength⟩,
    by rwa [storedStatus_congr (setParentKey_child key imm _)]⟩

theorem childKey_setParentKey (key : List String) (imm : Imm) : childKey (setParentKey key imm) = childKey imm := by
  rw [childKey, childKey, readString, readString, setParentKey_child]

theorem ready_setParentKey {s : System} (h : Ready env s.participant) {key : List String} (hkey : key.length ≤ 1) :
    Ready env (s.setImm (setParentKey key s.participant.immUtil.imm)).participant where
  empty := h.empty
  foreign := h.foreign.of_search rfl
  parentForeign := by
    rw [secrets_setParentKey]
    exact h.parentForeign
  child := childTyped_setParentKey h.child
  parent := ⟨key, setParentKey_parent _ _, hkey⟩
  lastKey := h.lastKey.trans (childKey_setParentKey _ _).symm

theorem startable_setParentKey {s : System} (h : Startable env s.participant) {key : List String}
    (hkey : key.length ≤ 1) :
    Startable env (s.setImm (setParentKey key s.participant.immUtil.imm)).participant where
  empty := h.empty
  foreign := h.foreign.of_search rfl
  parentForeign := by
    rw [secrets_setParentKey]
    exact h.parentForeign
  child := h.child.imp childTyped_setParentKey (setParentKey_child _ _ _).trans
  parent := ⟨key, setParentKey_parent _ _, hkey⟩
  lastKey := h.lastKey.trans (childKey_setParentKey _ _).symm

theorem storedKey_eq_of_pendingKey {s : System} (h : s.pendingKey = parentKeyValues s.participant.immUtil.imm) :
    s.pendingKey.headD "" = storedKey s.participant.immUtil.imm := by
  rw [h, storedKey]

theorem ccbId_of_ended {s : System} (h : Inv env s) {ccb : OpenCcb} (hopen : s.openCcb = some ccb)
    {callback : Callback} (hends : ∀ v : View, v.ccbId = ccb.ccbId ∨ v.ccbId = 0 → (v.handle callback).ccbId = 0) :
    (if s.phase = .started then (finalView s).handle callback else finalView s).ccbId = 0 := by
  split
  · refine hends _ ?_
    rw [h.ccbId, hopen, reportedCcb]
    split
    · exact Or.inl rfl
    · exact Or.inr rfl
  · rename_i hphase
    exact h.ccbId.trans (reportedCcb_of_early h hphase)

theorem inv_commit {s : System} (h : Inv env s) {ccbId : Nat} (hlegal : Legal s (.commit ccbId))
    (hnoticed : Noticed s (.commit ccbId)) : Inv env (step env s (.commit ccbId)) := by
  obtain ⟨ccb, hopen, rfl⟩ := hlegal
  obtain ⟨hccb, hlength⟩ := h.ccb ccb hopen
  have hpending : s.pendingKey = ccb.key := by rw [System.pendingKey, hopen]
  have hview : ∀ imm, finalView (s.setImm imm) = finalView s := fun _ => rfl
  -- A change that no callback carries is one before the start of the participant.
  have hsame : ccb.reported = false → s.phase ≠ .notStarted →
      s.pendingKey.headD "" = storedKey s.participant.immUtil.imm := by
    intro hreported hphase
    rcases hnoticed with hnot | hsame | ⟨ccb', hopen', hreported'⟩
    · exact absurd hnot hphase
    · exact storedKey_eq_of_pendingKey hsame
    · rw [hopen] at hopen'
      obtain rfl := Option.some.inj hopen'
      rw [hreported] at hreported'
      cases hreported'
  unfold step
  refine ⟨fun hphase => ?_, fun hphase => ?_, fun hphase => ?_, by simp, fun hphase => ?_, ?_, fun hphase => ?_,
    by simp⟩
  · rw [report_phase] at hphase
    rw [report_participant]
    exact startable_setParentKey (h.startable hphase) (hpending ▸ hlength)
  · rw [report_phase] at hphase
    rw [report_participant]
    exact ready_setParentKey (h.ready hphase) (hpending ▸ hlength)
  · rw [report_phase] at hphase
    exact ⟨(report_callbacks hphase _).trans (h.early hphase).1, by simp⟩
  · rw [report_phase] at hphase
    have hphase : s.phase = .keysRead := hphase
    rw [report_participant, System.setImm, storedKey_setParentKey]
    have hearly := (h.early (by simp [hphase])).2 ccb hopen
    exact (h.keysRead hphase).trans (hsame hearly (by simp [hphase])).symm
  · rw [finalView_report, hview]
    refine ccbId_of_ended h hopen fun v hv => ?_
    rw [View.handle]
    split <;> rename_i hsameId
    · rfl
    · exact hv.resolve_left fun hsame => hsameId hsame.symm
  · rw [report_phase] at hphase
    have hphase : s.phase = .firstRunDone ∨ s.phase = .started := hphase
    have hid := h.ccbId
    have hstarted : s.phase ≠ .notStarted := by rcases hphase with hp | hp <;> simp [hp]
    rw [hopen, reportedCcb] at hid
    rw [finalView_report, hview, report_participant, System.setImm, storedKey_setParentKey]
    dsimp only
    cases hreported : ccb.reported with
    | true =>
      have hkey := h.key ccb hopen hreported
      have hphase : s.phase = .started := by
        by_contra hne
        rw [(h.early hne).2 ccb hopen] at hreported
        cases hreported
      rw [hreported] at hid
      rw [if_pos hphase, View.handle, if_pos (show ccb.ccbId = (finalView s).ccbId from hid.symm), hpending, hkey]
      rfl
    | false =>
      rw [hreported] at hid
      rw [hsame hreported hstarted, ← h.used hphase]
      split
      · rw [View.handle, if_neg]
        rw [show (finalView s).ccbId = 0 from hid]
        exact hccb
      · rfl

theorem inv_abort {s : System} (h : Inv env s) {ccbId : Nat} (hlegal : Legal s (.abort ccbId)) :
    Inv env (step env s (.abort ccbId)) := by
  obtain ⟨ccb, hopen, rfl⟩ := hlegal
  unfold step
  refine ⟨by simpa using h.startable, by simpa using h.ready, fun hphase => ?_, by simp,
    by simpa using h.keysRead, ?_,
    fun hphase => ?_, by simp⟩
  · rw [report_phase] at hphase
    exact ⟨(report_callbacks hphase _).trans (h.early hphase).1, by simp⟩
  · rw [finalView_report]
    refine ccbId_of_ended h hopen fun v hv => ?_
    rw [View.handle]
    split <;> rename_i hsameId
    · rfl
    · exact hv.resolve_left fun hsame => hsameId hsame.symm
  · rw [report_phase] at hphase
    rw [finalView_report, report_participant, ← h.used hphase]
    split
    · rw [View.handle]
      split <;> rfl
    · rfl

/-! ### What the participant does -/

theorem getSingleStringAttribute_absent {u : ImmUtil} (h : u.answers = []) {object attrName : String}
    (hobject : object ≠ "") (hattr : attrName ≠ "") (hname : makeSaNameT object = some object)
    (hnone : u.imm.values object attrName = none) (value : String) :
    getSingleStringAttribute object attrName value u = (.notExist, value, u) := by
  have hget : u.getAttributeValue object attrName = (.notExist, none, u) := by
    unfold getAttributeValue
    rw [if_neg (by simp [hobject, hattr]), hname]
    simp only [call_willing h, hnone]
  unfold getSingleStringAttribute
  rw [hget]

theorem childTyped_createObject (u : ImmUtil) : ChildTyped u.createObjectSecEncryptionParticipant.imm :=
  ⟨⟨[], by rfl, Nat.zero_le 1⟩, 0, by rfl⟩

theorem ready_createObject {r : Reencryptor} (h : Startable env r)
    (hnone : r.immUtil.imm.values secEncryptionParticipantObject encryptionKeyUuid = none) :
    Ready env { succeeding r with
      childKeyUuid := r.childKeyUuid
      immUtil := (succeeding r).immUtil.createObjectSecEncryptionParticipant } where
  empty := h.empty
  foreign := h.foreign.of_search rfl
  parentForeign := by
    have hsecrets : secrets (succeeding r).immUtil.createObjectSecEncryptionParticipant.imm (mocAttrData env) =
        secrets r.immUtil.imm (mocAttrData env) := by
      apply secrets_congr
      rfl
    rw [hsecrets]
    exact h.parentForeign
  child := childTyped_createObject _
  parent := h.parent
  lastKey := by
    refine h.lastKey.trans ?_
    rw [childKey, readString, hnone]
    rfl

theorem readKeys_of_ready {r : Reencryptor} (h : Ready env r) (hanswers : r.immUtil.answers = []) :
    ∃ uuid, getSingleStringAttribute secEncryptionParticipantMObject encryptionKeyUuid r.parentKeyUuid r.immUtil =
      (.ok, uuid, r.immUtil) ∧ uuid = storedKey r.immUtil.imm := by
  obtain ⟨values, hvalues, hlength⟩ := h.parent
  have hread : Readable r.immUtil.imm secEncryptionParticipantMObject encryptionKeyUuid :=
    ⟨by decide, by decide, by decide, by simp [hvalues]⟩
  refine ⟨_, getSingleStringAttribute_willing hanswers _ hread, ?_⟩
  rw [readString_of_typed hvalues hlength, storedKey, parentKeyValues_eq hvalues]

theorem readKeys_ready {r : Reencryptor} (h : Startable env r) :
    ∃ r', (succeeding r).readKeys = (true, r') ∧ Ready env r' ∧ r'.ccbId = r.ccbId ∧
      r'.parentKeyUuid = storedKey r'.immUtil.imm := by
  have hanswers : (succeeding r).immUtil.answers = [] := rfl
  -- The state after the object of the participant is read or created.
  have hchild : ∃ r₁ : Reencryptor, r₁.ccbId = r.ccbId ∧ r₁.immUtil.answers = [] ∧ Ready env r₁ ∧
      ∀ uuid u, getSingleStringAttribute secEncryptionParticipantMObject encryptionKeyUuid r₁.parentKeyUuid
          r₁.immUtil = (.ok, uuid, u) →
        (succeeding r).readKeys = (true, { r₁ with parentKeyUuid := uuid, immUtil := u }) := by
    rcases h.child with hchild | hnone
    · have hget := getSingleStringAttribute_willing hanswers r.childKeyUuid (readable_of_childTyped hchild)
      refine ⟨{ succeeding r with
        childKeyUuid := readString r.immUtil.imm secEncryptionParticipantObject encryptionKeyUuid r.childKeyUuid },
        rfl, rfl, ⟨h.empty, h.foreign, h.parentForeign, hchild, h.parent, h.lastKey⟩, fun uuid u hread => ?_⟩
      unfold readKeys
      simp only [show (succeeding r).childKeyUuid = r.childKeyUuid from rfl, hget]
      dsimp only at hread
      rw [hread]
      rfl
    · have hget : getSingleStringAttribute secEncryptionParticipantObject encryptionKeyUuid r.childKeyUuid
          (succeeding r).immUtil = (.notExist, r.childKeyUuid, (succeeding r).immUtil) :=
        getSingleStringAttribute_absent hanswers (by decide) (by decide) (by decide) hnone _
      refine ⟨{ succeeding r with
        childKeyUuid := r.childKeyUuid
        immUtil := (succeeding r).immUtil.createObjectSecEncryptionParticipant }, rfl, rfl,
        ready_createObject h hnone, fun uuid u hread => ?_⟩
      unfold readKeys
      rewrite [show (succeeding r).childKeyUuid = r.childKeyUuid from rfl, hget]
      dsimp only at hread ⊢
      rw [hread]
  obtain ⟨r₁, hccb, hanswers₁, hready, hrun⟩ := hchild
  obtain ⟨uuid, hget, hkey⟩ := readKeys_of_ready hready hanswers₁
  refine ⟨{ r₁ with parentKeyUuid := uuid }, ?_, hready.of_buffer hready.empty rfl rfl, hccb, hkey⟩
  exact hrun uuid _ hget

theorem inv_readKeys {s : System} (h : Inv env s) (hlegal : Legal s .readKeys) :
    Inv env (step env s .readKeys) := by
  have hphase : s.phase = .notStarted := hlegal
  obtain ⟨r', hread, hready, hccb, hkey⟩ := readKeys_ready (h.startable hphase)
  have hearly := h.early (by simp [hphase])
  have hid := h.ccbId
  rw [finalView, hearly.1] at hid
  unfold step
  rw [hread]
  refine ⟨by simp, fun _ => hready, fun _ => hearly, h.ccb, fun _ => hkey, ?_, by simp,
    fun ccb hopen hreported => ?_⟩
  · rw [finalView]
    dsimp only
    rw [hearly.1]
    exact hccb.trans hid
  · rw [hearly.2 ccb hopen] at hreported
    cases hreported

theorem inv_firstRun {s : System} (h : Inv env s) (hlegal : Legal s .firstRun) :
    Inv env (step env s .firstRun) := by
  have hphase : s.phase = .keysRead := hlegal
  have hearly := h.early (by simp [hphase])
  have hid := h.ccbId
  rw [finalView, hearly.1, reportedCcb_of_early h (by simp [hphase])] at hid
  have hid : (succeeding s.participant).ccbId = 0 := hid
  have hready : Ready env (succeeding s.participant) := (h.ready (by simp [hphase])).of_buffer
    (h.ready (by simp [hphase])).empty rfl rfl
  obtain ⟨hready', hlast, hkey, hccb, hparent⟩ := doReencryption_ready hready rfl
  rw [hid] at hready' hlast hkey hccb hparent
  unfold step
  refine ⟨by simp, fun _ => hready', fun _ => hearly, h.ccb, by simp, ?_, fun _ => ?_,
    fun ccb hopen hreported => ?_⟩
  · rw [finalView]
    dsimp only
    rw [hearly.1, reportedCcb_of_early h (by simp [hphase])]
    exact hccb
  · rw [finalView]
    dsimp only
    rw [hearly.1, hparent.storedKey]
    exact hlast.trans (h.keysRead hphase)
  · rw [hearly.2 ccb hopen] at hreported
    cases hreported

theorem inv_register {s : System} (h : Inv env s) (hlegal : Legal s .register) :
    Inv env (step env s .register) := by
  have hphase : s.phase = .firstRunDone := hlegal
  exact ⟨by simp [step], fun _ => h.ready (by simp [hphase]), by simp [step], h.ccb, by simp [step], h.ccbId,
    fun _ => h.used (Or.inl hphase), h.key⟩

theorem inv_dispatch {s : System} (h : Inv env s) (hlegal : Legal s .dispatch) :
    Inv env (step env s .dispatch) := by
  obtain ⟨callback, callbacks, hcallbacks⟩ := List.exists_cons_of_ne_nil hlegal
  have hphase : s.phase = .started := by
    by_contra hne
    exact hlegal (h.early hne).1
  obtain ⟨hready, hview, hparent⟩ := handle_ready (h.ready (by simp [hphase])) callback
  have hfinal : finalView { s with
      participant := handle env callback (succeeding s.participant), callbacks := callbacks } = finalView s := by
    rw [finalView, finalView, hcallbacks, List.foldl_cons, hview]
  unfold step
  rw [hcallbacks]
  refine ⟨by simp [hphase], fun _ => hready, by simp [hphase], h.ccb, by simp [hphase], ?_, fun hp => ?_, ?_⟩
  · rw [hfinal]
    exact h.ccbId
  · rw [hfinal, hparent.storedKey]
    exact h.used hp
  · rw [hfinal]
    exact h.key

theorem inv_step {s : System} (h : Inv env s) (event : Event) (hlegal : Legal s event)
    (hnoticed : Noticed s event) :
    Inv env (step env s event) := by
  cases event with
  | modify ccbId attrMods => exact inv_modify h hlegal hnoticed
  | commit ccbId => exact inv_commit h hlegal hnoticed
  | abort ccbId => exact inv_abort h hlegal
  | readKeys => exact inv_readKeys h hlegal
  | firstRun => exact inv_firstRun h hlegal
  | register => exact inv_register h hlegal
  | dispatch => exact inv_dispatch h hlegal

/-- Where every change of the key is noticed, none is missed. -/
theorem no_key_change_missed (env : Env) {s : System} (hs : Initial env s) {events : List Event}
    (hlegal : Along (step env) Legal s events) (hnoticed : Along (step env) Noticed s events) :
    Throughout (step env) UpToDate s events := by
  have hinv : Throughout (step env) (Inv env) s events :=
    throughout_of_along (I := Inv env) (fun _ event h hstep => inv_step h event hstep.1 hstep.2) (inv_initial hs)
      (hlegal.and hnoticed)
  exact hinv.mono fun _ h => upToDate_of_inv h

/-! ## A participant that starts with the key `k1` -/

def sampleStart : System where
  participant :=
    { immUtil :=
        { imm :=
            { search := fun parent className => if parent = "" ∧ className = "A" then ["a=1"] else []
              values := fun object attrName =>
                if object = "a=1" ∧ attrName = "password" then some (.strings ["old"])
                else if object = secEncryptionParticipantObject ∧ attrName = Defines.encryptionStatus then
                  some (.int32s [0])
                else if attrName = encryptionKeyUuid then some (.strings ["k1"])
                else none } }
      used := ["k1"] }

def sampleModification : List AttrModification := [⟨.valuesReplace, encryptionKeyUuid, ["k2"]⟩]

theorem initial_sampleStart : Initial samplePasswords sampleStart where
  phase := rfl
  openCcb := rfl
  callbacks := rfl
  ccbId := rfl
  startable :=
    { empty := rfl
      foreign := by decide
      parentForeign := by decide
      parent := ⟨["k1"], rfl, Nat.le_refl 1⟩
      child := Or.inl ⟨⟨["k1"], rfl, Nat.le_refl 1⟩, 0, rfl⟩
      lastKey := rfl }

theorem no_key_change_missed_sample : Throughout (step samplePasswords) UpToDate sampleStart
    [.readKeys, .firstRun, .register, .modify 1 sampleModification, .commit 1, .dispatch, .dispatch] := by
  refine no_key_change_missed samplePasswords initial_sampleStart
    ⟨rfl, rfl, rfl, ⟨by decide, fun _ h => ?_, by decide⟩, ⟨_, rfl, rfl⟩, ?_, ?_, trivial⟩
    ⟨trivial, trivial, trivial, fun _ => rfl, Or.inr (Or.inr ⟨_, rfl, rfl⟩), trivial, trivial, trivial⟩
  · cases h
  · exact List.cons_ne_nil _ _
  · exact List.cons_ne_nil _ _

/-- The key changes after it was read, and before the applier is registered. -/
theorem not_no_key_change_missed : ¬ ∀ (env : Env) (s : System), Initial env s → ∀ events : List Event,
    Along (step env) Legal s events → Throughout (step env) UpToDate s events := by
  intro h
  have hrun := h samplePasswords sampleStart initial_sampleStart
    [.readKeys, .modify 1 sampleModification, .commit 1, .firstRun, .register]
    ⟨rfl, ⟨by decide, (fun _ h => nomatch h), by decide⟩, ⟨_, rfl, rfl⟩, rfl, rfl, trivial⟩
  have hlast := hrun.last rfl rfl
  exact absurd hlast (by decide)

end ComSA.ComReencryptor
