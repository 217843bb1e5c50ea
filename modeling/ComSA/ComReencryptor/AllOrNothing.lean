import ComSA.ComReencryptor.Populate

/-!
# A re-encryption is done for all secrets or for none

The changes of one run wait in one buffer, and the status that ends the run is written
with what the buffer holds then.
-/

namespace ComSA.ComReencryptor.Reencryptor

open Defines ImmUtil

variable (env : Env)

/-- The attributes that the participant writes besides the secrets. -/
def ownAttributes : List (String × String) :=
  [(secEncryptionParticipantObject, Defines.encryptionStatus), (secEncryptionParticipantObject, encryptionKeyUuid),
    (secEncryptionParticipantObject, Defines.additionalStatusInfo)]

/-! ## Whether a run is needed -/

def storedStatus (imm : Imm) : Option EncryptionStatus :=
  match imm.values secEncryptionParticipantObject Defines.encryptionStatus with
  | some (.int32s [v]) => some (v % 2 ^ 32).toNat
  | some (.int32s []) => some 0
  | _ => none

def Needed (r : Reencryptor) : Prop :=
  Readable r.immUtil.imm secEncryptionParticipantObject encryptionKeyUuid ∧
    (r.parentKeyUuid =
        readString r.immUtil.imm secEncryptionParticipantObject encryptionKeyUuid r.childKeyUuid →
      ∃ status, storedStatus r.immUtil.imm = some status ∧ status ≠ .success)

def startObjects (status : EncryptionStatus) (uuid info : String) : CcbObjects :=
  addObject secEncryptionParticipantObject Defines.additionalStatusInfo info
    (addObject secEncryptionParticipantObject encryptionKeyUuid uuid
      (addObject secEncryptionParticipantObject Defines.encryptionStatus (toString status) []))

def endObjects (status : EncryptionStatus) (info : String) (objects : CcbObjects) : CcbObjects :=
  addObject secEncryptionParticipantObject Defines.additionalStatusInfo info
    (addObject secEncryptionParticipantObject Defines.encryptionStatus (toString status) objects)

theorem staged_startObjects_of_not_own {p : String × String} (hp : p ∉ ownAttributes)
    (status : EncryptionStatus) (uuid info : String) :
    staged (startObjects status uuid info) p.1 p.2 = [] := by
  simp only [ownAttributes, List.mem_cons, List.not_mem_nil, or_false, not_or] at hp
  obtain ⟨hstatus, huuid, hinfo⟩ := hp
  rw [startObjects, staged_addObject, if_neg hinfo, staged_addObject, if_neg huuid, staged_addObject,
    if_neg hstatus, staged_nil]

theorem staged_startObjects_status (status : EncryptionStatus) (uuid info : String) :
    staged (startObjects status uuid info) secEncryptionParticipantObject Defines.encryptionStatus =
      [toString status] := by
  rw [startObjects, staged_addObject, if_neg (by decide), staged_addObject, if_neg (by decide),
    staged_addObject, if_pos rfl, staged_nil]
  rfl

theorem staged_endObjects_of_not_own {p : String × String} (hp : p ∉ ownAttributes)
    (status : EncryptionStatus) (info : String) (objects : CcbObjects) :
    staged (endObjects status info objects) p.1 p.2 = staged objects p.1 p.2 := by
  simp only [ownAttributes, List.mem_cons, List.not_mem_nil, or_false, not_or] at hp
  obtain ⟨hstatus, _, hinfo⟩ := hp
  rw [endObjects, staged_addObject, if_neg hinfo, staged_addObject, if_neg hstatus]

theorem staged_endObjects_status (status : EncryptionStatus) (info : String) (objects : CcbObjects) :
    staged (endObjects status info objects) secEncryptionParticipantObject Defines.encryptionStatus =
      staged objects secEncryptionParticipantObject Defines.encryptionStatus ++ [toString status] := by
  rw [endObjects, staged_addObject, if_neg (by decide), staged_addObject, if_pos rfl]

theorem getEncryptionStatus_spec {r r' : Reencryptor} {found : Bool}
    (h : r.getEncryptionStatus = (found, r')) : ∃ answers status,
      r' = { r with immUtil := r.immUtil.answering answers, encryptionStatus := status } ∧
        (found = true → storedStatus r.immUtil.imm = some status) := by
  have hasked := asked_getAttributeValue secEncryptionParticipantObject Defines.encryptionStatus r.immUtil
  unfold getEncryptionStatus at h
  unfold storedStatus
  split at h <;> rename_i hget <;> rw [hget] at hasked <;> obtain ⟨answers, rfl⟩ := hasked <;> cases h
  · exact ⟨answers, _, rfl, fun _ => by rw [← (getAttributeValue_ok hget).2]⟩
  · exact ⟨answers, _, rfl, fun _ => by rw [← (getAttributeValue_ok hget).2]⟩
  · exact ⟨answers, r.encryptionStatus, rfl, by simp⟩

theorem checkKey_spec {r r' : Reencryptor} {needed : Bool} (h : r.checkKey = (needed, r')) :
    ∃ answers uuid status info, r' = { r with
        immUtil := r.immUtil.answering answers
        childKeyUuid := uuid
        encryptionStatus := status
        additionalStatusInfo := info } ∧
      (needed = true → Needed r ∧ status ≠ .success) := by
  have hasked := asked_getSingleStringAttribute secEncryptionParticipantObject encryptionKeyUuid r.childKeyUuid
    r.immUtil
  unfold checkKey at h
  split at h <;> rename_i hget <;> rw [hget] at hasked <;> obtain ⟨answers, rfl⟩ := hasked
  · obtain ⟨hread, rfl⟩ := getSingleStringAttribute_ok hget
    dsimp only at h
    split at h <;> rename_i hkey
    · split at h <;> rename_i hstatus <;> obtain ⟨answers', status, rfl, hstored⟩ :=
        getEncryptionStatus_spec hstatus
      · obtain ⟨rfl, rfl⟩ := Prod.mk.inj h
        refine ⟨answers', _, status, _, rfl, fun hne => ?_⟩
        have hne : status ≠ .success := by simpa using hne
        exact ⟨⟨hread, fun _ => ⟨status, hstored rfl, hne⟩⟩, hne⟩
      · obtain ⟨rfl, rfl⟩ := Prod.mk.inj h
        exact ⟨answers', _, _, _, rfl, by simp⟩
    · obtain ⟨rfl, rfl⟩ := Prod.mk.inj h
      exact ⟨answers, _, _, _, rfl, fun _ => ⟨⟨hread, fun h => absurd h hkey⟩, by decide⟩⟩
  · obtain ⟨rfl, rfl⟩ := Prod.mk.inj h
    exact ⟨answers, _, _, _, rfl, by simp⟩

theorem applyTransaction_true {u u' : ImmUtil} {errors : String} (h : u.applyTransaction = (true, errors, u')) :
    u'.imm = u.imm.modify u.ccbObjects ∧ u'.committed = u.committed ++ [u.ccbObjects] ∧ u'.ccbObjects = [] := by
  obtain ⟨retVal, errors', answers, heq⟩ := applyTransaction_eq u
  rw [heq] at h
  obtain ⟨rfl, _, rfl⟩ := h
  exact ⟨rfl, rfl, rfl⟩

theorem applyTransaction_false {u u' : ImmUtil} {errors : String} (h : u.applyTransaction = (false, errors, u')) :
    u'.imm = u.imm ∧ u'.committed = u.committed ∧ u'.ccbObjects = [] := by
  obtain ⟨retVal, errors', answers, heq⟩ := applyTransaction_eq u
  rw [heq] at h
  obtain ⟨rfl, _, rfl⟩ := h
  exact ⟨rfl, rfl, rfl⟩

def Applied (objects : CcbObjects) (r r' : Reencryptor) : Prop :=
  r'.immUtil.imm = r.immUtil.imm.modify objects ∧ r'.immUtil.committed = r.immUtil.committed ++ [objects]

def NotApplied (r r' : Reencryptor) : Prop :=
  r'.immUtil.imm = r.immUtil.imm ∧ r'.immUtil.committed = r.immUtil.committed

theorem isReencryptionNeeded_spec {r r' : Reencryptor} {needed : Bool} (hempty : r.immUtil.ccbObjects = [])
    (h : r.isReencryptionNeeded = (needed, r')) :
    r'.immUtil.ccbObjects = [] ∧ r'.parentKeyUuid = r.parentKeyUuid ∧ r'.ccbId = r.ccbId ∧ r'.used = r.used ∧
      (needed = true → Needed r) ∧
      ((needed = false ∧ NotApplied r r') ∨
        ∃ status info, status ≠ .success ∧ Applied (startObjects status r.parentKeyUuid info) r r') := by
  unfold isReencryptionNeeded at h
  rcases hcheck : r.checkKey with ⟨needed', r₁⟩
  obtain ⟨answers, uuid, status, info, rfl, hneeded⟩ := checkKey_spec hcheck
  rw [hcheck] at h
  dsimp only at h
  split at h <;> rename_i hstatus
  · obtain ⟨rfl, rfl⟩ := Prod.mk.inj h
    refine ⟨hempty, rfl, rfl, rfl, fun h => (hneeded h).1, Or.inl ⟨?_, rfl, rfl⟩⟩
    cases needed' with
    | false => rfl
    | true => exact absurd hstatus (hneeded rfl).2
  · split at h <;> rename_i errors u happly
    · obtain ⟨rfl, rfl⟩ := Prod.mk.inj h
      obtain ⟨himm, hcommitted, hcleared⟩ := applyTransaction_true happly
      simp only [startStatus, ImmUtil.addModifyObject, ImmUtil.answering, hempty] at himm hcommitted
      exact ⟨hcleared, rfl, rfl, rfl, fun h => (hneeded h).1, Or.inr ⟨status, info, hstatus, himm, hcommitted⟩⟩
    · obtain ⟨rfl, rfl⟩ := Prod.mk.inj h
      obtain ⟨himm, hcommitted, hcleared⟩ := applyTransaction_false happly
      exact ⟨hcleared, rfl, rfl, rfl, by simp, Or.inl ⟨rfl, himm, hcommitted⟩⟩

/-! ## The secrets and the status at the end -/

def mocAttrData : MocAttrData := env.secretAttrData.getD []

theorem populateData_spec (r : Reencryptor) :
    Kept r (populateData env r).2 ∧
      ((populateData env r).1 = true →
        Populates r.immUtil.imm (mocAttrData env) ∧
          Collected env (secrets r.immUtil.imm (mocAttrData env)) r (populateData env r).2) ∧
      ((populateData env r).1 = false → r.immUtil.ccbObjects = [] →
        (populateData env r).2.immUtil.ccbObjects = [] ∨
          SearchFailed env (mocAttrData env) r (populateData env r).2) := by
  unfold populateData mocAttrData
  split <;> rename_i hdata
  · exact ⟨⟨rfl, rfl, rfl, rfl, rfl, rfl⟩, by simp, fun _ h => Or.inl h⟩
  · exact ⟨⟨rfl, rfl, rfl, rfl, rfl, rfl⟩, by simp, fun _ h => Or.inl h⟩
  · rename_i data _
    obtain ⟨hkept, hcollected, hfailed⟩ := populateEntries_spec env data r
    rw [hdata, Option.getD_some]
    exact ⟨hkept, hcollected, fun h _ => hfailed h⟩

inductive SecretsSet (r r' : Reencryptor) : Prop
  | applied (objects : CcbObjects) (populates : Populates r.immUtil.imm (mocAttrData env))
      (values : ∀ p : String × String, staged objects p.1 p.2 =
        newValues env r.immUtil.imm (secrets r.immUtil.imm (mocAttrData env)) p)
      (set : Applied objects r r') (status : r'.encryptionStatus = .success)
      (cleared : r'.immUtil.ccbObjects = [])
  | failed (set : NotApplied r r') (status : r'.encryptionStatus = .failure)
      (cleared : r'.immUtil.ccbObjects = [] ∨ SearchFailed env (mocAttrData env) r r')

theorem setSecrets_spec {r : Reencryptor} (hempty : r.immUtil.ccbObjects = []) :
    SecretsSet env r (setSecrets env r) ∧ (setSecrets env r).parentKeyUuid = r.parentKeyUuid ∧
      (setSecrets env r).ccbId = r.ccbId ∧ (setSecrets env r).used = r.used := by
  obtain ⟨hkept, hcollected, hfailed⟩ := populateData_spec env r
  unfold setSecrets
  split <;> rename_i r' hpopulate <;> rw [hpopulate] at hkept hcollected hfailed
  · obtain ⟨hpopulates, hc⟩ := hcollected rfl
    have hvalues : ∀ p : String × String, staged r'.immUtil.ccbObjects p.1 p.2 =
        newValues env r.immUtil.imm (secrets r.immUtil.imm (mocAttrData env)) p := fun p => by
      rw [hc.staged, hempty, staged_nil, List.nil_append]
    split <;> rename_i errors u happly
    · obtain ⟨himm, hcommitted, hcleared⟩ := applyTransaction_true happly
      rw [hkept.imm] at himm
      rw [hkept.committed] at hcommitted
      exact ⟨.applied r'.immUtil.ccbObjects hpopulates hvalues ⟨himm, hcommitted⟩ rfl hcleared,
        hkept.parentKeyUuid, hkept.ccbId, hkept.used⟩
    · obtain ⟨himm, hcommitted, hcleared⟩ := applyTransaction_false happly
      exact ⟨.failed ⟨himm.trans hkept.imm, hcommitted.trans hkept.committed⟩ rfl (Or.inl hcleared),
        hkept.parentKeyUuid, hkept.ccbId, hkept.used⟩
  · exact ⟨.failed ⟨hkept.imm, hkept.committed⟩ rfl (hfailed rfl hempty), hkept.parentKeyUuid, hkept.ccbId,
      hkept.used⟩

theorem setStatus_spec (r : Reencryptor) :
    (Applied (endObjects r.encryptionStatus r.additionalStatusInfo r.immUtil.ccbObjects) r (setStatus r) ∨
        NotApplied r (setStatus r)) ∧
      (setStatus r).immUtil.ccbObjects = [] ∧ (setStatus r).parentKeyUuid = r.parentKeyUuid ∧
      (setStatus r).ccbId = r.ccbId ∧ (setStatus r).used = r.used := by
  unfold setStatus
  dsimp only
  generalize hu : ImmUtil.applyTransaction _ = result
  obtain ⟨_ | _, errors, u⟩ := result
  · obtain ⟨himm, hcommitted, hcleared⟩ := applyTransaction_false hu
    exact ⟨Or.inr ⟨himm, hcommitted⟩, hcleared, rfl, rfl, rfl⟩
  · obtain ⟨himm, hcommitted, hcleared⟩ := applyTransaction_true hu
    exact ⟨Or.inl ⟨himm, hcommitted⟩, hcleared, rfl, rfl, rfl⟩

/-! ## One run -/

def IsEmpty (values : Option AttrValues) : Prop :=
  values = none ∨ values = some (.strings []) ∨ values = some (.strings [""]) ∨ values = some (.int32s []) ∨
    values = some (.other 0)

def Unchanged (before after : Imm) (ps : List (String × String)) : Prop :=
  ∀ p ∈ ps, after.values p.1 p.2 = before.values p.1 p.2

def Replaced (before after : Imm) (ps : List (String × String)) : Prop :=
  ∀ p ∈ ps, ¬ IsEmpty (before.values p.1 p.2) → ∃ v, before.values p.1 p.2 = some (.strings [v]) ∧
    after.values p.1 p.2 = some (.strings [newSecret env v])

def StoresStatus (objects : CcbObjects) (status : EncryptionStatus) : Prop :=
  staged objects secEncryptionParticipantObject Defines.encryptionStatus = [toString status]

structure AllOrNothing (r r' : Reencryptor) : Prop where
  outcome : Unchanged r.immUtil.imm r'.immUtil.imm (secrets r.immUtil.imm (mocAttrData env)) ∨
    Replaced env r.immUtil.imm r'.immUtil.imm (secrets r.immUtil.imm (mocAttrData env))
  success : ∀ objects ∈ r'.immUtil.committed, StoresStatus objects .success →
    Replaced env r.immUtil.imm r'.immUtil.imm (secrets r.immUtil.imm (mocAttrData env))
  failure : ∀ objects ∈ r'.immUtil.committed, StoresStatus objects .failure →
    ∀ p ∈ secrets r.immUtil.imm (mocAttrData env), staged objects p.1 p.2 = []

def Idle (r : Reencryptor) : Prop := r.immUtil.ccbObjects = [] ∧ r.immUtil.committed = []

def Foreign (r : Reencryptor) : Prop := ∀ p ∈ ownAttributes, p ∉ secrets r.immUtil.imm (mocAttrData env)

instance (r : Reencryptor) : Decidable (Foreign env r) := inferInstanceAs (Decidable (∀ p ∈ ownAttributes, _))

/-- What the list and IMM must be like. No secret may be collected when a search can fail, and
each attribute with a value must be one string and be listed once. -/
structure Sound (imm : Imm) (data : MocAttrData) : Prop where
  searches : ∀ before entry after, data = before ++ entry :: after → entry.1 ≠ [] → Populates imm before →
    ∀ p ∈ secrets imm before, secret imm p = ""
  values : Populates imm data → ∀ p ∈ secrets imm data, ¬ IsEmpty (imm.values p.1 p.2) →
    secret imm p ≠ "" ∧ (secrets imm data).count p = 1

/-! ## What the list means does not change in a run -/

theorem childrenOf_congr {imm imm' : Imm} (h : imm'.search = imm.search) (mocList parents : List String) :
    childrenOf imm' mocList parents = childrenOf imm mocList parents := by
  induction mocList generalizing parents with
  | nil => rfl
  | cons className mocList ih => rw [childrenOf, childrenOf, h, ih]

theorem objectsOf_congr {imm imm' : Imm} (h : imm'.search = imm.search) (mocList : List String) :
    objectsOf imm' mocList = objectsOf imm mocList := by
  cases mocList with
  | nil => rfl
  | cons className mocList => rw [objectsOf, objectsOf, h, childrenOf_congr h]

theorem secrets_congr {imm imm' : Imm} (h : imm'.search = imm.search) (data : MocAttrData) :
    secrets imm' data = secrets imm data := by
  simp only [secrets, objectsOf_congr h]

/-- The same objects, and the same values in the attributes of `ps`. -/
structure Agree (ps : List (String × String)) (imm imm' : Imm) : Prop where
  search : imm'.search = imm.search
  values : ∀ p ∈ ps, imm'.values p.1 p.2 = imm.values p.1 p.2

theorem Agree.secret {ps : List (String × String)} {imm imm' : Imm} (h : Agree ps imm imm')
    {p : String × String} (hp : p ∈ ps) : Reencryptor.secret imm' p = Reencryptor.secret imm p := by
  unfold Reencryptor.secret readString
  rw [h.values p hp]

theorem Agree.newValues {ps : List (String × String)} {imm imm' : Imm} (h : Agree ps imm imm')
    (p : String × String) : newValues env imm' ps p = newValues env imm ps p := by
  by_cases hp : p ∈ ps
  · unfold Reencryptor.newValues
    rw [h.secret hp]
  · rw [newValues_eq_nil_of_not_mem env _ hp, newValues_eq_nil_of_not_mem env _ hp]

theorem secrets_append (imm : Imm) (data data' : MocAttrData) :
    secrets imm (data ++ data') = secrets imm data ++ secrets imm data' := List.flatMap_append

theorem mem_secrets_of_mem {imm : Imm} {data : MocAttrData} {entry : List String × List String}
    (hentry : entry ∈ data) {objects : List String} (hobjects : objectsOf imm entry.1 = some objects)
    {p : String × String} (hp : p ∈ objects ×ˢ entry.2) : p ∈ secrets imm data :=
  List.mem_flatMap.mpr ⟨entry, hentry, by rw [hobjects]; exact hp⟩

theorem Agree.populates {data : MocAttrData} {imm imm' : Imm} (h : Agree (secrets imm data) imm imm') :
    Populates imm' data ↔ Populates imm data := by
  unfold Populates
  refine forall₂_congr fun entry hentry => exists_congr fun objects => ?_
  rw [objectsOf_congr h.search]
  refine and_congr_right fun hobjects => forall₂_congr fun p hp => ?_
  unfold Readable
  rw [h.values p (mem_secrets_of_mem hentry hobjects hp)]

theorem Agree.mono {ps qs : List (String × String)} {imm imm' : Imm} (h : Agree ps imm imm') (hqs : qs ⊆ ps) :
    Agree qs imm imm' := ⟨h.search, fun p hp => h.values p (hqs hp)⟩

variable {env}

theorem Foreign.not_own {r : Reencryptor} (h : Foreign env r) {p : String × String}
    (hp : p ∈ secrets r.immUtil.imm (mocAttrData env)) : p ∉ ownAttributes := fun hown => h p hown hp

theorem Foreign.of_search {r r' : Reencryptor} (h : Foreign env r)
    (hsearch : r'.immUtil.imm.search = r.immUtil.imm.search) : Foreign env r' := by
  unfold Foreign
  rw [secrets_congr hsearch]
  exact h

theorem agree_start {r r' : Reencryptor} {status : EncryptionStatus} {uuid info : String}
    (hforeign : Foreign env r) (h : Applied (startObjects status uuid info) r r') :
    Agree (secrets r.immUtil.imm (mocAttrData env)) r.immUtil.imm r'.immUtil.imm := by
  rw [h.1]
  exact ⟨rfl, fun p hp =>
    modify_values_of_not_staged (staged_startObjects_of_not_own (hforeign.not_own hp) status uuid info)⟩

theorem agree_end {r r' : Reencryptor} {ps : List (String × String)} (hps : ∀ p ∈ ps, p ∉ ownAttributes)
    {status : EncryptionStatus} {info : String}
    (hobjects : ∀ p ∈ ps, staged r.immUtil.ccbObjects p.1 p.2 = [])
    (h : Applied (endObjects status info r.immUtil.ccbObjects) r r' ∨ NotApplied r r') :
    Agree ps r.immUtil.imm r'.immUtil.imm := by
  rcases h with h | h
  · rw [h.1]
    refine ⟨rfl, fun p hp => modify_values_of_not_staged ?_⟩
    rw [staged_endObjects_of_not_own (hps p hp), hobjects p hp]
  · rw [h.1]
    exact ⟨rfl, fun p _ => rfl⟩

theorem not_storesStatus_start {status status' : EncryptionStatus} (h : status ≠ status') (uuid info : String) :
    ¬ StoresStatus (startObjects status uuid info) status' := by
  unfold StoresStatus
  rw [staged_startObjects_status]
  intro heq
  exact h (toString_injective (List.singleton_inj.mp heq))

/-! ## Sound lists -/

theorem unchanged_refl (imm : Imm) (ps : List (String × String)) : Unchanged imm imm ps := fun _ _ => rfl

theorem Sound.staged_eq_nil {r r' : Reencryptor} {imm : Imm} {data : MocAttrData} (hsound : Sound imm data)
    (hagree : Agree (secrets imm data) imm r.immUtil.imm) (hempty : r.immUtil.ccbObjects = [])
    (h : SearchFailed env data r r') (p : String × String) : staged r'.immUtil.ccbObjects p.1 p.2 = [] := by
  obtain ⟨before, entry, after, rfl, hentry, hbefore, hstaged⟩ := h
  have hagree' : Agree (secrets imm before) imm r.immUtil.imm := hagree.mono (by
    rw [secrets_append]
    exact List.subset_append_left _ _)
  rw [hstaged, hempty, staged_nil, List.nil_append, secrets_congr hagree.search, hagree'.newValues]
  by_cases hp : p ∈ secrets imm before
  · rw [newValues, if_pos (hsound.searches before entry after rfl hentry (hagree'.populates.mp hbefore) p hp)]
  · exact newValues_eq_nil_of_not_mem env _ hp

theorem Sound.newValues (env : Env) {imm : Imm} {data : MocAttrData} (hsound : Sound imm data)
    (h : Populates imm data)
    {p : String × String} (hp : p ∈ secrets imm data) (hvalue : ¬ IsEmpty (imm.values p.1 p.2)) :
    ∃ v, imm.values p.1 p.2 = some (.strings [v]) ∧
      newValues env imm (secrets imm data) p = [newSecret env v] := by
  obtain ⟨hsecret, hcount⟩ := hsound.values h p hp hvalue
  have hv : ∃ v, imm.values p.1 p.2 = some (.strings [v]) ∧ secret imm p = v := by
    unfold secret readString at hsecret ⊢
    split at hsecret <;> rename_i heq
    · exact ⟨_, heq, rfl⟩
    · exact absurd rfl hsecret
    · exact absurd rfl hsecret
  obtain ⟨v, hv, hv'⟩ := hv
  refine ⟨v, hv, ?_⟩
  rw [Reencryptor.newValues, if_neg hsecret, hcount, hv']
  rfl

theorem allOrNothing_of_secretsSet {r r₁ r₂ r₃ : Reencryptor} (hforeign : Foreign env r)
    (hsound : Sound r.immUtil.imm (mocAttrData env)) {status : EncryptionStatus} {uuid info : String}
    (hcommitted : r.immUtil.committed = []) (hstatus : status ≠ .success)
    (hstart : Applied (startObjects status uuid info) r r₁) (hempty : r₁.immUtil.ccbObjects = [])
    (hset : SecretsSet env r₁ r₂)
    (hend : Applied (endObjects r₂.encryptionStatus r₂.additionalStatusInfo r₂.immUtil.ccbObjects) r₂ r₃ ∨
      NotApplied r₂ r₃) : AllOrNothing env r r₃ := by
  have hagree₁ := agree_start hforeign hstart
  have hps : ∀ p ∈ secrets r.immUtil.imm (mocAttrData env), p ∉ ownAttributes := fun p hp => hforeign.not_own hp
  have hstart₁ : r₁.immUtil.committed = [startObjects status uuid info] := by
    rw [hstart.2, hcommitted, List.nil_append]
  cases hset with
  | applied objects hpopulates hvalues hset hstatus₂ hcleared =>
    rw [secrets_congr hagree₁.search] at hvalues
    simp only [hagree₁.newValues] at hvalues
    rw [hagree₁.populates] at hpopulates
    have hagree₃ := agree_end hps (fun p _ => by rw [hcleared, staged_nil]) hend
    have hreplaced : Replaced env r.immUtil.imm r₃.immUtil.imm (secrets r.immUtil.imm (mocAttrData env)) := by
      intro p hp hvalue
      obtain ⟨v, hv, hnew⟩ := hsound.newValues env hpopulates hp hvalue
      have hstaged := (hvalues p).trans hnew
      refine ⟨v, hv, ?_⟩
      rw [hagree₃.values p hp, hset.1, modify_values_of_staged (by rw [hstaged]; simp), hstaged, if_neg]
      simp only [isAttrTypeInt, decide_eq_true_eq, not_and]
      rintro hobject hattr
      exact hps p hp (by simp [ownAttributes, ← hobject, ← hattr])
    refine ⟨Or.inr hreplaced, fun _ _ _ => hreplaced, fun objects' hmem hfail p hp => ?_⟩
    have hown : staged objects secEncryptionParticipantObject Defines.encryptionStatus = [] :=
      (hvalues (secEncryptionParticipantObject, Defines.encryptionStatus)).trans
        (newValues_eq_nil_of_not_mem env _ (hforeign _ (by simp [ownAttributes])))
    have hmem : objects' = startObjects status uuid info ∨ objects' = objects ∨
        objects' = endObjects r₂.encryptionStatus r₂.additionalStatusInfo r₂.immUtil.ccbObjects := by
      rcases hend with hend | hend <;> rw [hend.2, hset.2, hstart₁] at hmem <;> simp at hmem <;> tauto
    rcases hmem with rfl | rfl | rfl
    · exact staged_startObjects_of_not_own (hps p hp) _ _ _
    · rw [StoresStatus, hown] at hfail
      cases hfail
    · rw [staged_endObjects_of_not_own (hps p hp), hcleared, staged_nil]
  | failed hset hstatus₂ hcleared =>
    have hnone : ∀ p : String × String, staged r₂.immUtil.ccbObjects p.1 p.2 = [] := fun p => by
      rcases hcleared with h | h
      · rw [h, staged_nil]
      · exact hsound.staged_eq_nil hagree₁ hempty h p
    have hagree₃ := agree_end hps (fun p _ => hnone p) hend
    have hunchanged : Unchanged r.immUtil.imm r₃.immUtil.imm (secrets r.immUtil.imm (mocAttrData env)) := by
      intro p hp
      rw [hagree₃.values p hp, hset.1, hagree₁.values p hp]
    have hmem : ∀ objects ∈ r₃.immUtil.committed, objects = startObjects status uuid info ∨
        objects = endObjects r₂.encryptionStatus r₂.additionalStatusInfo r₂.immUtil.ccbObjects := by
      intro objects hmem
      rcases hend with hend | hend <;> rw [hend.2, hset.2, hstart₁] at hmem <;> simp at hmem <;> tauto
    refine ⟨Or.inl hunchanged, fun objects ho hsuccess => ?_, fun objects ho hfail p hp => ?_⟩
    · rcases hmem objects ho with rfl | rfl
      · exact absurd hsuccess (not_storesStatus_start hstatus uuid info)
      · rw [StoresStatus, staged_endObjects_status,
          hnone (secEncryptionParticipantObject, Defines.encryptionStatus), hstatus₂] at hsuccess
        exact absurd hsuccess (by decide)
    · rcases hmem objects ho with rfl | rfl
      · exact staged_startObjects_of_not_own (hps p hp) _ _ _
      · rw [staged_endObjects_of_not_own (hps p hp), hnone p]

theorem allOrNothing_of_sound {r : Reencryptor} (hidle : Idle r) (hforeign : Foreign env r) {ccbId : Nat}
    (hsound : ccbId = r.ccbId → Needed r → Sound r.immUtil.imm (mocAttrData env)) :
    AllOrNothing env r (doReencryption env ccbId r) := by
  obtain ⟨hempty, hcommitted⟩ := hidle
  unfold doReencryption
  split <;> rename_i hccb
  · exact ⟨Or.inl (unchanged_refl _ _), by simp [hcommitted], by simp [hcommitted]⟩
  · rw [not_not] at hccb
    rcases hneeded : r.isReencryptionNeeded with ⟨needed, r₁⟩
    obtain ⟨hempty₁, -, -, -, hneed, hstart⟩ := isReencryptionNeeded_spec hempty hneeded
    cases needed with
    | false =>
      rcases hstart with ⟨-, hsame⟩ | ⟨status, info, hstatus, happlied⟩
      · have hnone : r₁.immUtil.committed = [] := hsame.2.trans hcommitted
        refine ⟨Or.inl fun p _ => by dsimp only; rw [hsame.1], by simp [hnone], by simp [hnone]⟩
      · have hone : r₁.immUtil.committed = [startObjects status r.parentKeyUuid info] := by
          rw [happlied.2, hcommitted, List.nil_append]
        refine ⟨Or.inl (agree_start hforeign happlied).values, fun objects ho hsuccess => ?_,
          fun objects ho _ p hp => ?_⟩ <;> dsimp only at ho <;> rw [hone, List.mem_singleton] at ho <;> subst ho
        · exact absurd hsuccess (not_storesStatus_start hstatus _ _)
        · exact staged_startObjects_of_not_own (hforeign.not_own hp) _ _ _
    | true =>
      rcases hstart with ⟨h, -⟩ | ⟨status, info, hstatus, happlied⟩
      · cases h
      · have hset := (setSecrets_spec env (r := { r₁ with used := r₁.used ++ [r₁.parentKeyUuid] }) hempty₁).1
        have hstart : Applied (startObjects status r.parentKeyUuid info) r
            { r₁ with used := r₁.used ++ [r₁.parentKeyUuid] } := happlied
        exact allOrNothing_of_secretsSet hforeign (hsound hccb (hneed rfl)) hcommitted hstatus hstart hempty₁ hset
          (setStatus_spec _).1

/-! ## Runs that show what is wrong with a list -/

theorem named_startObjects (status : EncryptionStatus) (uuid info : String) :
    ∀ x ∈ startObjects status uuid info, makeSaNameT x.1 ≠ none := by
  intro x hx
  have : x.1 = secEncryptionParticipantObject := by
    rcases mem_addObject hx with h | hx
    · exact h
    · rcases mem_addObject hx with h | hx
      · exact h
      · rcases mem_addObject hx with h | hx
        · exact h
        · cases hx
  rw [this]
  decide

theorem named_endObjects {objects : CcbObjects} (h : ∀ x ∈ objects, makeSaNameT x.1 ≠ none)
    (status : EncryptionStatus) (info : String) :
    ∀ x ∈ endObjects status info objects, makeSaNameT x.1 ≠ none := by
  intro x hx
  rcases mem_addObject hx with hx | hx
  · rw [hx]
    decide
  · rcases mem_addObject hx with hx | hx
    · rw [hx]
      decide
    · exact h x hx

theorem readable_status {imm : Imm} {status : EncryptionStatus} (h : storedStatus imm = some status) :
    Readable imm secEncryptionParticipantObject Defines.encryptionStatus := by
  refine ⟨by decide, by decide, by decide, fun hnone => ?_⟩
  rw [storedStatus, hnone] at h
  cases h

theorem getEncryptionStatus_answering {r : Reencryptor} {status : EncryptionStatus}
    (h : storedStatus r.immUtil.imm = some status) (rest : List Answer) :
    (r.answering (.ok :: rest)).getEncryptionStatus =
      (true, { r.answering rest with encryptionStatus := status }) := by
  have hget := getAttributeValue_answering (readable_status h) rest
  unfold getEncryptionStatus storedStatus at *
  simp only [answering]
  rw [hget]
  split at h <;> rename_i heq
  · cases h
    rw [heq]
  · cases h
    rw [heq]
  · cases h

theorem checkKey_answering {r : Reencryptor} (h : Needed r) :
    ∃ (n : Nat) (r₁ : Reencryptor), r₁.immUtil = r.immUtil ∧
    r₁.cryptoAnswers = r.cryptoAnswers ∧ r₁.ccbId = r.ccbId ∧ r₁.encryptionStatus ≠ .success ∧
    ∀ rest, (r.answering (List.replicate n .ok ++ rest)).checkKey = (true, r₁.answering rest) := by
  obtain ⟨hread, hkey⟩ := h
  have hget := fun rest => getSingleStringAttribute_answering hread r.childKeyUuid rest
  generalize readString r.immUtil.imm secEncryptionParticipantObject encryptionKeyUuid r.childKeyUuid = uuid at *
  by_cases heq : r.parentKeyUuid = uuid
  · obtain ⟨status, hstored, hstatus⟩ := hkey heq
    let r₁ : Reencryptor := { r with
      childKeyUuid := uuid
      encryptionStatus := .inprogress
      additionalStatusInfo := infoAttrMsg .inprogress }
    refine ⟨2, { r₁ with encryptionStatus := status }, rfl, rfl, rfl, hstatus, fun rest => ?_⟩
    have hget₁ := getEncryptionStatus_answering (r := r₁) hstored rest
    unfold checkKey
    simp only [answering, r₁] at hget₁ ⊢
    rw [List.replicate_succ, List.cons_append, hget]
    simp only [heq, if_true]
    rw [List.replicate_one, List.singleton_append, ← heq] at *
    rw [hget₁]
    simp [hstatus]
  · refine ⟨1, { r with
      childKeyUuid := uuid
      encryptionStatus := .inprogress
      additionalStatusInfo := infoAttrMsg .inprogress }, rfl, rfl, rfl, by
        simp [EncryptionStatus.inprogress, EncryptionStatus.success], fun rest => ?_⟩
    unfold checkKey
    simp only [answering]
    rw [List.replicate_one, List.singleton_append, hget]
    simp only [heq, if_false]

theorem isReencryptionNeeded_answering {r : Reencryptor} (h : Needed r) (hempty : r.immUtil.ccbObjects = []) :
    ∃ (n : Nat) (r₁ : Reencryptor), r₁.cryptoAnswers = r.cryptoAnswers ∧
      ∀ rest, (r.answering (List.replicate n .ok ++ rest)).isReencryptionNeeded = (true, r₁.answering rest) := by
  obtain ⟨n, r₁, himm, hcrypto, -, hstatus, hn⟩ := checkKey_answering h
  have hobjects : r₁.startStatus.ccbObjects =
      startObjects r₁.encryptionStatus r₁.parentKeyUuid r₁.additionalStatusInfo := by
    simp only [startStatus, ImmUtil.addModifyObject, himm, hempty]
    rfl
  obtain ⟨m, hm⟩ := applyTransaction_answering (u := r₁.startStatus) (by
    rw [hobjects]
    exact named_startObjects _ _ _)
  refine ⟨n + m, { r₁ with immUtil := r₁.startStatus.commit }, hcrypto, fun rest => ?_⟩
  rw [List.replicate_add, List.append_assoc, isReencryptionNeeded, hn]
  have hstart : ∀ answers, (r₁.answering answers).startStatus = r₁.startStatus.answering answers := fun _ => rfl
  have hstatus' : ∀ answers, (r₁.answering answers).encryptionStatus ≠ .success := fun _ => hstatus
  simp only [hstatus', if_false, hstart, hm]
  rfl

theorem populateData_eq (h : mocAttrData env ≠ []) (r : Reencryptor) :
    populateData env r = populateEntries env (mocAttrData env) r := by
  unfold mocAttrData at h ⊢
  unfold populateData
  split <;> rename_i hdata
  · rw [hdata] at h
    exact absurd rfl h
  · rw [hdata] at h
    exact absurd rfl h
  · rw [hdata]
    rfl

theorem setSecrets_succeeds {r : Reencryptor} (hcrypto : r.cryptoAnswers = []) (hempty : r.immUtil.ccbObjects = [])
    (hdata : mocAttrData env ≠ []) (h : Populates r.immUtil.imm (mocAttrData env)) :
    ∃ (n : Nat) (r' : Reencryptor), r'.encryptionStatus = .success ∧
      ∀ rest, setSecrets env (r.answering (List.replicate n .ok ++ rest)) = r'.answering rest := by
  obtain ⟨r₁, -, -, n, hn⟩ := populateEntries_passes env hcrypto h
  have hspec := (populateEntries_spec env (mocAttrData env) (r.answering (List.replicate n .ok ++ []))).2.1
  rw [hn] at hspec
  obtain ⟨m, hm⟩ := applyTransaction_answering (u := r₁.immUtil)
    ((hspec rfl).2.named (by simp [answering, ImmUtil.answering, hempty]))
  refine ⟨n + m, { r₁ with
    immUtil := r₁.immUtil.commit
    encryptionStatus := .success
    additionalStatusInfo := infoAttrMsg .success }, rfl, fun rest => ?_⟩
  rw [List.replicate_add, List.append_assoc, setSecrets, populateData_eq hdata, hn]
  have happly : ∀ answers, (r₁.answering answers).immUtil = r₁.immUtil.answering answers := fun _ => rfl
  simp only [happly, hm]
  rfl

theorem setSecrets_fails {r : Reencryptor} (hcrypto : r.cryptoAnswers = []) (hempty : r.immUtil.ccbObjects = [])
    {before after : MocAttrData} {entry : List String × List String}
    (hdata : mocAttrData env = before ++ entry :: after) (hentry : entry.1 ≠ [])
    (h : Populates r.immUtil.imm before) :
    ∃ (answers : List Answer) (r' : Reencryptor), r'.encryptionStatus = .failure ∧
      (∀ x ∈ r'.immUtil.ccbObjects, makeSaNameT x.1 ≠ none) ∧
      (∀ p : String × String, staged r'.immUtil.ccbObjects p.1 p.2 =
        newValues env r.immUtil.imm (secrets r.immUtil.imm before) p) ∧
      ∀ rest, setSecrets env (r.answering (answers ++ rest)) = r'.answering rest := by
  obtain ⟨r₁, hpasses⟩ := populateEntries_passes env hcrypto h
  obtain ⟨answers, hanswers⟩ := populateEntries_fails env after hentry hpasses
  obtain ⟨-, -, n, hn⟩ := hpasses
  have hspec := (populateEntries_spec env before (r.answering (List.replicate n .ok ++ []))).2.1
  rw [hn] at hspec
  obtain ⟨-, hcollected⟩ := hspec rfl
  refine ⟨answers, { r₁ with encryptionStatus := .failure }, rfl,
    hcollected.named (by simp [answering, ImmUtil.answering, hempty]), fun p => ?_, fun rest => ?_⟩
  · refine (hcollected.staged p).trans ?_
    simp only [answering, ImmUtil.answering, hempty, staged_nil, List.nil_append]
  · rw [setSecrets, populateData_eq (by simp [hdata]), hdata, hanswers]
    rfl

theorem setStatus_succeeds {r : Reencryptor} (h : ∀ x ∈ r.immUtil.ccbObjects, makeSaNameT x.1 ≠ none) :
    ∃ n, Applied (endObjects r.encryptionStatus r.additionalStatusInfo r.immUtil.ccbObjects) r
      (setStatus (r.answering (List.replicate n .ok))) := by
  obtain ⟨n, hn⟩ := applyTransaction_answering (u := r.endStatus) (named_endObjects h _ _)
  have hend : ∀ answers, (r.answering answers).endStatus = r.endStatus.answering answers := fun _ => rfl
  refine ⟨n, ?_⟩
  have hrun := hn []
  rw [List.append_nil] at hrun
  rw [setStatus, hend, hrun]
  exact ⟨rfl, rfl⟩

def failing (answers : List Answer) (cryptoAnswers : List Bool) (r : Reencryptor) : Reencryptor :=
  { r.answering answers with cryptoAnswers := cryptoAnswers }

theorem doReencryption_starts {r : Reencryptor} (hidle : Idle r) (hforeign : Foreign env r) (hneeded : Needed r) :
    ∃ (n : Nat) (r₁ : Reencryptor), r₁.cryptoAnswers = [] ∧ r₁.immUtil.ccbObjects = [] ∧
      Agree (secrets r.immUtil.imm (mocAttrData env)) r.immUtil.imm r₁.immUtil.imm ∧
      ∀ rest, doReencryption env r.ccbId (r.failing (List.replicate n .ok ++ rest) []) =
        setStatus (setSecrets env (r₁.answering rest)) := by
  let r₀ : Reencryptor := { r with cryptoAnswers := [] }
  obtain ⟨n, r₁, hcrypto, hn⟩ := isReencryptionNeeded_answering (r := r₀) hneeded hidle.1
  obtain ⟨hempty, -, -, -, -, hstart⟩ := isReencryptionNeeded_spec (by exact hidle.1) (hn [])
  refine ⟨n, { r₁ with used := r₁.used ++ [r₁.parentKeyUuid] }, hcrypto, hempty, ?_, fun rest => ?_⟩
  · rcases hstart with ⟨h, -⟩ | ⟨status, info, -, happlied⟩
    · cases h
    · exact agree_start (by exact hforeign) happlied
  · have hccb : ¬ r.ccbId ≠ (r.failing (List.replicate n .ok ++ rest) []).ccbId := not_not.mpr rfl
    have hrun : (r.failing (List.replicate n .ok ++ rest) []).isReencryptionNeeded = (true, r₁.answering rest) :=
      hn rest
    rw [doReencryption, if_neg hccb, hrun]
    rfl

theorem searches_of_allOrNothing {r : Reencryptor} (hidle : Idle r) (hforeign : Foreign env r)
    (hneeded : Needed r)
    (h : ∀ answers, AllOrNothing env r (doReencryption env r.ccbId (r.failing answers [])))
    {before after : MocAttrData}
    {entry : List String × List String} (hdata : mocAttrData env = before ++ entry :: after)
    (hentry : entry.1 ≠ []) (hbefore : Populates r.immUtil.imm before) {p : String × String}
    (hp : p ∈ secrets r.immUtil.imm before) : secret r.immUtil.imm p = "" := by
  obtain ⟨n₁, r₁, hcrypto, hempty, hagree, hn₁⟩ := doReencryption_starts hidle hforeign hneeded
  have hsub : secrets r.immUtil.imm before ⊆ secrets r.immUtil.imm (mocAttrData env) := by
    rw [hdata, secrets_append]
    exact List.subset_append_left _ _
  have hagree' := hagree.mono hsub
  obtain ⟨answers, r₂, hstatus, hnamed, hstaged, hr₂⟩ :=
    setSecrets_fails hcrypto hempty hdata hentry (hagree'.populates.mpr hbefore)
  obtain ⟨n₃, happlied⟩ := setStatus_succeeds hnamed
  have hrun := h (List.replicate n₁ .ok ++ (answers ++ List.replicate n₃ .ok))
  rw [hn₁, hr₂] at hrun
  rw [secrets_congr hagree.search] at hstaged
  simp only [hagree'.newValues] at hstaged
  have hown : staged r₂.immUtil.ccbObjects secEncryptionParticipantObject Defines.encryptionStatus = [] :=
    (hstaged (secEncryptionParticipantObject, Defines.encryptionStatus)).trans
      (newValues_eq_nil_of_not_mem env _ fun hmem => hforeign _ (by simp [ownAttributes]) (hsub hmem))
  have hfailure : StoresStatus (endObjects r₂.encryptionStatus r₂.additionalStatusInfo r₂.immUtil.ccbObjects)
      .failure := by
    rw [StoresStatus, staged_endObjects_status, hown, hstatus]
    rfl
  have hnone := hrun.failure _ (by rw [happlied.2]; exact List.mem_append_right _ (List.mem_singleton.mpr rfl))
    hfailure p (hsub hp)
  rw [staged_endObjects_of_not_own (hforeign.not_own (hsub hp)), hstaged p, newValues] at hnone
  by_contra hsecret
  rw [if_neg hsecret, List.replicate_eq_nil_iff] at hnone
  exact absurd hnone (List.count_pos_iff.mpr hp).ne'

theorem values_of_allOrNothing {r : Reencryptor} (hidle : Idle r) (hforeign : Foreign env r) (hneeded : Needed r)
    (h : ∀ answers, AllOrNothing env r (doReencryption env r.ccbId (r.failing answers [])))
    (hpopulates : Populates r.immUtil.imm (mocAttrData env)) {p : String × String}
    (hp : p ∈ secrets r.immUtil.imm (mocAttrData env)) (hvalue : ¬ IsEmpty (r.immUtil.imm.values p.1 p.2)) :
    secret r.immUtil.imm p ≠ "" ∧ (secrets r.immUtil.imm (mocAttrData env)).count p = 1 := by
  obtain ⟨n₁, r₁, hcrypto, hempty, hagree, hn₁⟩ := doReencryption_starts hidle hforeign hneeded
  have hdata : mocAttrData env ≠ [] := by
    intro hnil
    rw [hnil] at hp
    cases hp
  obtain ⟨n₂, r₂, hstatus, hr₂⟩ := setSecrets_succeeds hcrypto hempty hdata (hagree.populates.mpr hpopulates)
  have hset := (setSecrets_spec env (r := r₁.answering (List.replicate n₂ .ok ++ [])) hempty).1
  rw [hr₂] at hset
  have hnext : ∃ objects, (∀ p : String × String, staged objects p.1 p.2 =
      newValues env r₁.immUtil.imm (secrets r₁.immUtil.imm (mocAttrData env)) p) ∧
      r₂.immUtil.imm = r₁.immUtil.imm.modify objects ∧ r₂.immUtil.ccbObjects = [] := by
    cases hset with
    | applied objects _ hvalues hset _ hcleared => exact ⟨objects, hvalues, hset.1, hcleared⟩
    | failed _ hfail _ => exact absurd (hstatus.symm.trans hfail) (by decide)
  obtain ⟨objects, hstaged, himm, hcleared⟩ := hnext
  obtain ⟨n₃, happlied⟩ := setStatus_succeeds (r := r₂) (by simp [hcleared])
  have hrun := h (List.replicate n₁ .ok ++ (List.replicate n₂ .ok ++ List.replicate n₃ .ok))
  rw [hn₁, hr₂] at hrun
  rw [secrets_congr hagree.search] at hstaged
  simp only [hagree.newValues] at hstaged
  have hsuccess : StoresStatus (endObjects r₂.encryptionStatus r₂.additionalStatusInfo r₂.immUtil.ccbObjects)
      .success := by
    rw [StoresStatus, staged_endObjects_status, hcleared, hstatus]
    rfl
  obtain ⟨v, hv, hnew⟩ := hrun.success _
    (by rw [happlied.2]; exact List.mem_append_right _ (List.mem_singleton.mpr rfl)) hsuccess p hp hvalue
  have hsecret : secret r.immUtil.imm p = v := by
    rw [secret, readString, hv]
  have hne : v ≠ "" := by
    rintro rfl
    exact hvalue (Or.inr (Or.inr (Or.inl hv)))
  have hown := hforeign.not_own hp
  have hvalues : staged objects p.1 p.2 = List.replicate
      ((secrets r.immUtil.imm (mocAttrData env)).count p) (newSecret env v) := by
    rw [hstaged p, newValues, hsecret, if_neg hne]
  have hcount := List.count_pos_iff.mpr hp
  refine ⟨hsecret ▸ hne, ?_⟩
  rw [happlied.1, modify_values_of_not_staged (by rw [staged_endObjects_of_not_own hown, hcleared, staged_nil]),
    himm, modify_values_of_staged (by rw [hvalues, Ne, List.replicate_eq_nil_iff]; exact hcount.ne'), hvalues,
    if_neg] at hnew
  · have hlength := congrArg List.length (AttrValues.strings.inj (Option.some.inj hnew))
    simpa using hlength
  · simp only [isAttrTypeInt, decide_eq_true_eq, not_and]
    rintro hobject hattr
    exact hown (by simp [ownAttributes, ← hobject, ← hattr])

/-- Whatever fails in a run, it is all or nothing exactly when the list is sound. -/
theorem all_or_nothing_iff {r : Reencryptor} (hidle : Idle r) (hforeign : Foreign env r) (ccbId : Nat) :
    (∀ answers cryptoAnswers,
      AllOrNothing env r (doReencryption env ccbId (r.failing answers cryptoAnswers))) ↔
      (ccbId = r.ccbId → Needed r → Sound r.immUtil.imm (mocAttrData env)) := by
  constructor
  · rintro h rfl hneeded
    exact ⟨fun before entry after hdata hentry hbefore p hp =>
        searches_of_allOrNothing hidle hforeign hneeded (fun answers => h answers []) hdata hentry hbefore hp,
      fun hpopulates p hp hvalue =>
        values_of_allOrNothing hidle hforeign hneeded (fun answers => h answers []) hpopulates hp hvalue⟩
  · intro h answers cryptoAnswers
    have hrun := allOrNothing_of_sound (r := r.failing answers cryptoAnswers) hidle hforeign h
    exact ⟨hrun.outcome, hrun.success, hrun.failure⟩

/-! ## Two classes with a password each -/

def samplePasswords : Env where
  secretAttrData := some [(["A"], ["password"]), (["B"], ["password"])]
  secDecrypt := fun s => s
  secEncrypt := fun s => s ++ "'"

def sampleKeyChanged : Reencryptor where
  immUtil :=
    { imm :=
        { search := fun parent className =>
            if parent = "" ∧ className = "A" then ["a=1"] else if parent = "" ∧ className = "B" then ["b=1"] else []
          values := fun object attrName =>
            if object = secEncryptionParticipantObject ∧ attrName = encryptionKeyUuid then some (.strings ["k1"])
            else if attrName = "password" then some (.strings ["old"])
            else none } }
  parentKeyUuid := "k2"

theorem all_or_nothing_sample :
    (∀ answers cryptoAnswers, AllOrNothing samplePasswords sampleKeyChanged
      (doReencryption samplePasswords 0 (sampleKeyChanged.failing answers cryptoAnswers))) ↔
      (0 = 0 → Needed sampleKeyChanged →
        Sound sampleKeyChanged.immUtil.imm (mocAttrData samplePasswords)) :=
  all_or_nothing_iff ⟨rfl, rfl⟩ (by decide) 0

/-- The search for the second class fails, and the password of the first goes with the status. -/
theorem not_all_or_nothing : ¬ ∀ (env : Env) (r : Reencryptor), Idle r → Foreign env r →
    ∀ ccbId answers cryptoAnswers,
      AllOrNothing env r (doReencryption env ccbId (r.failing answers cryptoAnswers)) := by
  intro h
  have hrun := h samplePasswords sampleKeyChanged ⟨rfl, rfl⟩ (by decide) 0
    (List.replicate 11 .ok ++ [.other]) []
  have hfailure :=
    hrun.failure (endObjects .failure "Re-encryption is In-progress" [("a=1", [("password", ["old'"])])])
    (by decide) (by unfold StoresStatus; decide) ("a=1", "password") (by decide)
  exact absurd hfailure (by decide)

end ComSA.ComReencryptor.Reencryptor
