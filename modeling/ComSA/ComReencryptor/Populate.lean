import Mathlib.Data.List.Perm.Basic
import Mathlib.Data.List.ProdSigma
import ComSA.ComReencryptor.Reencryptor

/-!
# What a run collects

Whatever the calls answer, a run that populates the CCB has collected the new value of
each secret that is listed, once for each time it is listed.
-/

namespace ComSA.ComReencryptor

open ImmUtil

/-! ## The objects -/

instance (parent className : String) : Decidable (Searchable parent className) :=
  inferInstanceAs (Decidable (_ ∧ _))

/-- The objects down a path. There are none where IMM cannot search for one of the classes. -/
def childrenOf (imm : Imm) : List String → List String → Option (List String)
  | [], parents => some parents
  | className :: mocList, parents =>
    if parents = [] then some []
    else if ∀ parent ∈ parents, Searchable parent className then
      childrenOf imm mocList (parents.flatMap fun parent => imm.search parent className)
    else none

def objectsOf (imm : Imm) : List String → Option (List String)
  | [] => some []
  | className :: mocList =>
    if Searchable "" className then childrenOf imm mocList (imm.search "" className) else none

theorem asked_findChildren (className : String) (parents objects : List String) (u : ImmUtil) :
    Asked u (findChildren className parents objects u).2.2 := by
  induction parents generalizing objects u with
  | nil => exact Asked.refl u
  | cons parent parents ih =>
    have hfind := asked_findImmObjects parent className u
    unfold findChildren
    split <;> rename_i h <;> rw [h] at hfind
    · exact hfind.trans (ih _ _)
    · exact hfind

theorem findChildren_true {className : String} {parents objects found : List String} {u u' : ImmUtil}
    (h : findChildren className parents objects u = (true, found, u')) :
    (∀ parent ∈ parents, Searchable parent className) ∧
      found.Perm (objects ++ parents.flatMap fun parent => u.imm.search parent className) := by
  induction parents generalizing objects u with
  | nil =>
    cases h
    simp
  | cons parent parents ih =>
    unfold findChildren at h
    split at h
    · rename_i tmpObjects u₁ hfind
      have hasked := asked_findImmObjects parent className u
      rw [hfind] at hasked
      obtain ⟨hsearch, rfl⟩ := findImmObjects_true hfind
      obtain ⟨hall, hperm⟩ := ih h
      rw [hasked.imm] at hperm
      refine ⟨List.forall_mem_cons.mpr ⟨hsearch, hall⟩, hperm.trans ?_⟩
      rw [List.flatMap_cons, ← List.append_assoc]
      exact (List.merge_perm_append _).append_right _
    · cases h

theorem findChildren_answering {className : String} {parents : List String} (u : ImmUtil)
    (h : ∀ parent ∈ parents, Searchable parent className) (objects : List String) :
    ∃ n found, ∀ rest, findChildren className parents objects (u.answering (List.replicate n .ok ++ rest)) =
      (true, found, u.answering rest) := by
  induction parents generalizing objects with
  | nil => exact ⟨0, objects, fun rest => rfl⟩
  | cons parent parents ih =>
    have hfind := findImmObjects_answering (h parent List.mem_cons_self) u
    obtain ⟨n, found, hn⟩ := ih (fun p hp => h p (List.mem_cons_of_mem _ hp))
      (objects.merge (u.imm.search parent className) fun x y => ¬ y < x)
    refine ⟨(u.imm.search parent className).length + 2 + n, found, fun rest => ?_⟩
    rw [List.replicate_add, List.append_assoc, findChildren, hfind]
    exact hn rest

theorem asked_getChildObjects (mocList parents : List String) (u : ImmUtil) :
    Asked u (getChildObjects mocList parents u).2.2 := by
  induction mocList generalizing parents u with
  | nil => exact Asked.refl u
  | cons className mocList ih =>
    unfold getChildObjects
    split
    · exact Asked.refl u
    · have hfind := asked_findChildren className parents [] u
      split <;> rename_i h <;> rw [h] at hfind
      · exact hfind.trans (ih _ _)
      · exact hfind

theorem getChildObjects_true {mocList parents parents' found : List String} {u u' : ImmUtil}
    (hparents : parents.Perm parents') (h : getChildObjects mocList parents u = (true, found, u')) :
    ∃ objects, childrenOf u.imm mocList parents' = some objects ∧ found.Perm objects := by
  induction mocList generalizing parents parents' u with
  | nil =>
    cases h
    exact ⟨parents', rfl, hparents⟩
  | cons className mocList ih =>
    unfold getChildObjects at h
    unfold childrenOf
    split at h
    · rename_i hnil
      cases h
      rw [hnil, List.nil_perm] at hparents
      exact ⟨[], by rw [hparents, if_pos rfl], List.Perm.refl _⟩
    · rename_i hnil
      split at h
      · rename_i children u₁ hfind
        have hasked := asked_findChildren className parents [] u
        rw [hfind] at hasked
        obtain ⟨hall, hperm⟩ := findChildren_true hfind
        rw [List.nil_append] at hperm
        rw [if_neg (fun h' => hnil (by rw [h', List.perm_nil] at hparents; exact hparents)),
          if_pos fun parent hp => hall parent (hparents.mem_iff.mpr hp), ← hasked.imm]
        rw [← hasked.imm] at hperm
        exact ih (hperm.trans (hparents.flatMap_right _)) h
      · cases h

theorem getChildObjects_answering {mocList parents parents' objects : List String} (u : ImmUtil)
    (hparents : parents.Perm parents') (h : childrenOf u.imm mocList parents' = some objects) :
    ∃ n found, ∀ rest, getChildObjects mocList parents (u.answering (List.replicate n .ok ++ rest)) =
      (true, found, u.answering rest) := by
  induction mocList generalizing parents parents' with
  | nil => exact ⟨0, parents, fun rest => rfl⟩
  | cons className mocList ih =>
    by_cases hnil : parents = []
    · exact ⟨0, [], fun rest => by rw [getChildObjects, if_pos hnil]; rfl⟩
    · unfold childrenOf at h
      rw [if_neg (fun h' => hnil (by rw [h', List.perm_nil] at hparents; exact hparents))] at h
      split at h
      · rename_i hall
        obtain ⟨n, children, hn⟩ := findChildren_answering u
          (fun parent hp => hall parent (hparents.mem_iff.mp hp)) []
        have hperm := (findChildren_true (hn [])).2
        obtain ⟨m, found, hm⟩ := ih (hperm.trans (hparents.flatMap_right _)) h
        refine ⟨n + m, found, fun rest => ?_⟩
        rw [List.replicate_add, List.append_assoc, getChildObjects, if_neg hnil, hn]
        exact hm rest
      · cases h

theorem asked_getObjects (mocList : List String) (u : ImmUtil) : Asked u (getObjects mocList u).2.2 := by
  unfold getObjects
  split
  · exact Asked.refl u
  · rename_i className mocList
    have hfind := asked_findImmObjects "" className u
    split <;> rename_i h <;> rw [h] at hfind
    · exact hfind.trans (asked_getChildObjects _ _ _)
    · exact hfind

theorem getObjects_true {mocList found : List String} {u u' : ImmUtil}
    (h : getObjects mocList u = (true, found, u')) :
    ∃ objects, objectsOf u.imm mocList = some objects ∧ found.Perm objects := by
  unfold getObjects at h
  unfold objectsOf
  split at h
  · cases h
    exact ⟨[], rfl, List.Perm.refl _⟩
  · rename_i className mocList
    split at h
    · rename_i parents u₁ hfind
      have hasked := asked_findImmObjects "" className u
      rw [hfind] at hasked
      obtain ⟨hsearch, rfl⟩ := findImmObjects_true hfind
      obtain ⟨objects, hobjects, hperm⟩ := getChildObjects_true (List.Perm.refl _) h
      rw [hasked.imm] at hobjects
      exact ⟨objects, (if_pos hsearch).trans hobjects, hperm⟩
    · cases h

theorem getObjects_answering {mocList objects : List String} (u : ImmUtil)
    (h : objectsOf u.imm mocList = some objects) :
    ∃ n found, ∀ rest, getObjects mocList (u.answering (List.replicate n .ok ++ rest)) =
      (true, found, u.answering rest) := by
  cases mocList with
  | nil => exact ⟨0, [], fun rest => rfl⟩
  | cons className mocList =>
    rw [objectsOf] at h
    split at h
    · rename_i hsearch
      obtain ⟨n, found, hn⟩ := getChildObjects_answering u (List.Perm.refl _) h
      refine ⟨(u.imm.search "" className).length + 2 + n, found, fun rest => ?_⟩
      rw [List.replicate_add, List.append_assoc, getObjects, findImmObjects_answering hsearch]
      exact hn rest
    · cases h

theorem getObjects_fails (className : String) (mocList : List String) (u : ImmUtil) :
    ∃ bad, ∀ rest, getObjects (className :: mocList) (u.answering (bad ++ rest)) =
      (false, [], u.answering rest) := by
  obtain ⟨bad, hbad⟩ := findImmObjects_fails "" className u
  refine ⟨bad, fun rest => ?_⟩
  rw [getObjects, hbad]

/-! ## The values -/

/-- What a string attribute holds. `value` stays where it is none, or has several values. -/
def readString (imm : Imm) (object attrName value : String) : String :=
  match imm.values object attrName with
  | some (.strings [v]) => v
  | some (.strings []) => ""
  | _ => value

theorem asked_getSingleStringAttribute (object attrName value : String) (u : ImmUtil) :
    Asked u (getSingleStringAttribute object attrName value u).2.2 := by
  have hget := asked_getAttributeValue object attrName u
  unfold getSingleStringAttribute
  split <;> rename_i h <;> rw [h] at hget <;> exact hget

theorem getSingleStringAttribute_ok {object attrName value v : String} {u u' : ImmUtil}
    (h : getSingleStringAttribute object attrName value u = (.ok, v, u')) :
    Readable u.imm object attrName ∧ v = readString u.imm object attrName value := by
  unfold getSingleStringAttribute at h
  unfold readString
  split at h <;> rename_i hget
  · obtain ⟨hread, hvalue⟩ := getAttributeValue_ok hget
    cases h
    exact ⟨hread, by rw [← hvalue]⟩
  · obtain ⟨hread, hvalue⟩ := getAttributeValue_ok hget
    cases h
    exact ⟨hread, by rw [← hvalue]⟩
  · rename_i values _ hone hnone
    cases h
    obtain ⟨hread, rfl⟩ := getAttributeValue_ok hget
    refine ⟨hread, ?_⟩
    split <;> rename_i hvalues
    · exact (hone _ rfl hvalues).elim
    · exact (hnone rfl hvalues).elim
    · rfl

theorem getSingleStringAttribute_answering {object attrName : String} {u : ImmUtil}
    (h : Readable u.imm object attrName) (value : String) (rest : List Answer) :
    getSingleStringAttribute object attrName value (u.answering (.ok :: rest)) =
      (.ok, readString u.imm object attrName value, u.answering rest) := by
  unfold getSingleStringAttribute readString
  rw [getAttributeValue_answering h]
  obtain ⟨values, hvalues⟩ := Option.ne_none_iff_exists'.mp h.2.2.2
  rw [hvalues]
  rcases values with (_ | ⟨v, _ | _⟩) | _ | _ <;> rfl

namespace Reencryptor

variable (env : Env)

structure Kept (r r' : Reencryptor) : Prop where
  imm : r'.immUtil.imm = r.immUtil.imm
  committed : r'.immUtil.committed = r.immUtil.committed
  parentKeyUuid : r'.parentKeyUuid = r.parentKeyUuid
  encryptionStatus : r'.encryptionStatus = r.encryptionStatus
  ccbId : r'.ccbId = r.ccbId
  used : r'.used = r.used

theorem Kept.refl (r : Reencryptor) : Kept r r := ⟨rfl, rfl, rfl, rfl, rfl, rfl⟩

theorem Kept.trans {r r' r'' : Reencryptor} (h : Kept r r') (h' : Kept r' r'') : Kept r r'' :=
  ⟨h'.imm.trans h.imm, h'.committed.trans h.committed, h'.parentKeyUuid.trans h.parentKeyUuid,
    h'.encryptionStatus.trans h.encryptionStatus, h'.ccbId.trans h.ccbId, h'.used.trans h.used⟩

theorem kept_asked {r : Reencryptor} {u : ImmUtil} (h : Asked r.immUtil u) :
    Kept r { r with immUtil := u } := by
  obtain ⟨answers, rfl⟩ := h
  exact ⟨rfl, rfl, rfl, rfl, rfl, rfl⟩

def secret (imm : Imm) (p : String × String) : String := readString imm p.1 p.2 ""

def newSecret (v : String) : String := env.secEncrypt (env.secDecrypt v)

def newValues (imm : Imm) (ps : List (String × String)) (p : String × String) : List String :=
  if secret imm p = "" then [] else List.replicate (ps.count p) (newSecret env (secret imm p))

theorem newValues_append (imm : Imm) (ps qs : List (String × String)) (p : String × String) :
    newValues env imm (ps ++ qs) p = newValues env imm ps p ++ newValues env imm qs p := by
  unfold newValues
  split
  · rfl
  · rw [List.count_append, List.replicate_append_replicate]

theorem newValues_perm (imm : Imm) {ps qs : List (String × String)} (h : ps.Perm qs) (p : String × String) :
    newValues env imm ps p = newValues env imm qs p := by
  unfold newValues
  rw [h.count_eq]

theorem newValues_eq_nil_of_not_mem (imm : Imm) {ps : List (String × String)} {p : String × String}
    (h : p ∉ ps) : newValues env imm ps p = [] := by
  unfold newValues
  split
  · rfl
  · rw [List.count_eq_zero_of_not_mem h, List.replicate_zero]

structure Collected (ps : List (String × String)) (r r' : Reencryptor) : Prop extends Kept r r' where
  readable : ∀ p ∈ ps, Readable r.immUtil.imm p.1 p.2
  staged : ∀ p : String × String, staged r'.immUtil.ccbObjects p.1 p.2 =
    staged r.immUtil.ccbObjects p.1 p.2 ++ newValues env r.immUtil.imm ps p
  named : (∀ x ∈ r.immUtil.ccbObjects, makeSaNameT x.1 ≠ none) →
    ∀ x ∈ r'.immUtil.ccbObjects, makeSaNameT x.1 ≠ none

variable {env}

theorem Collected.nil {r r' : Reencryptor} (h : Kept r r')
    (hobjects : r'.immUtil.ccbObjects = r.immUtil.ccbObjects) : Collected env [] r r' := by
  refine ⟨h, by simp, fun p => ?_, by rw [hobjects]; exact id⟩
  rw [hobjects, newValues_eq_nil_of_not_mem env _ List.not_mem_nil, List.append_nil]

theorem Collected.append {ps qs : List (String × String)} {r r' r'' : Reencryptor}
    (h : Collected env ps r r') (h' : Collected env qs r' r'') : Collected env (ps ++ qs) r r'' := by
  refine ⟨h.toKept.trans h'.toKept, fun p hp => ?_, fun p => ?_, fun hnamed => h'.named (h.named hnamed)⟩
  · rcases List.mem_append.mp hp with hp | hp
    · exact h.readable p hp
    · rw [← h.imm]
      exact h'.readable p hp
  · rw [h'.staged, h.staged, h.imm, newValues_append, List.append_assoc]

theorem Collected.perm {ps qs : List (String × String)} {r r' : Reencryptor} (h : Collected env ps r r')
    (hperm : ps.Perm qs) : Collected env qs r r' :=
  ⟨h.toKept, fun p hp => h.readable p (hperm.mem_iff.mpr hp),
    fun p => by rw [h.staged, newValues_perm env _ hperm], h.named⟩

variable (env)

/-! ## The loops -/

theorem reencrypt_eq (v : String) (r : Reencryptor) : ∃ newValue answers,
    reencrypt env v r = (newValue, { r with cryptoAnswers := answers }) ∧
      ∀ s, newValue = some s → s = newSecret env v := by
  have hcall : ∀ r : Reencryptor, ∃ answer answers, r.cryptoCall = (answer, { r with
    cryptoAnswers := answers }) := by
    intro r
    unfold cryptoCall
    split
    · exact ⟨true, r.cryptoAnswers, rfl⟩
    · exact ⟨_, _, rfl⟩
  unfold reencrypt
  split
  · exact ⟨none, r.cryptoAnswers, rfl, by simp⟩
  · obtain ⟨answer, answers, h⟩ := hcall r
    rw [h]
    cases answer with
    | false => exact ⟨none, answers, rfl, by simp⟩
    | true =>
      obtain ⟨answer', answers', h'⟩ := hcall { r with cryptoAnswers := answers }
      simp only [h']
      cases answer' with
      | false => exact ⟨none, answers', rfl, by simp⟩
      | true => exact ⟨_, answers', rfl, by rintro s ⟨⟩; rfl⟩

theorem collected_skip {object attrName : String} {r : Reencryptor} {u : ImmUtil}
    (h : getSingleStringAttribute object attrName "" r.immUtil = (.ok, "", u)) :
    Collected env [(object, attrName)] r { r with immUtil := u } := by
  obtain ⟨hread, hsecret⟩ := getSingleStringAttribute_ok h
  have hasked := asked_getSingleStringAttribute object attrName "" r.immUtil
  rw [h] at hasked
  have hkept := kept_asked hasked
  obtain ⟨answers, rfl⟩ := hasked
  refine ⟨hkept, by simpa using hread, fun p => ?_, id⟩
  by_cases hp : p = (object, attrName)
  · rw [newValues, if_pos (by rw [hp]; exact hsecret.symm), List.append_nil]
    rfl
  · rw [newValues_eq_nil_of_not_mem env _ (by simpa using hp), List.append_nil]
    rfl

theorem collected_add {object attrName value : String} {r : Reencryptor} {u : ImmUtil}
    (h : getSingleStringAttribute object attrName "" r.immUtil = (.ok, value, u)) (hvalue : value ≠ "")
    (answers : List Bool) :
    Collected env [(object, attrName)] r
      (addModifyObject object attrName (newSecret env value) { r with
        immUtil := u, cryptoAnswers := answers }) := by
  obtain ⟨hread, hsecret⟩ := getSingleStringAttribute_ok h
  have hasked := asked_getSingleStringAttribute object attrName "" r.immUtil
  rw [h] at hasked
  obtain ⟨immAnswers, rfl⟩ := hasked
  refine ⟨⟨rfl, rfl, rfl, rfl, rfl, rfl⟩, by simpa using hread, fun p => ?_, fun hnamed x hx => ?_⟩
  · refine (staged_addObject r.immUtil.ccbObjects p.1 p.2 object attrName _).trans ?_
    split <;> rename_i hp
    · have hp : p = (object, attrName) := hp
      have hs : secret r.immUtil.imm p = value := by rw [hp]; exact hsecret.symm
      rw [newValues, hs, if_neg hvalue, hp, List.count_singleton_self]
      rfl
    · have hp : ¬ p = (object, attrName) := hp
      rw [newValues_eq_nil_of_not_mem env _ (by simpa using hp), List.append_nil]
  · rcases mem_addObject hx with hx | hx
    · rw [hx, hread.2.2.1]
      exact Option.some_ne_none _
    · exact hnamed x hx

theorem setAttributes_spec (object : String) (attrList : List String) (r : Reencryptor) :
    Kept r (setAttributes env object attrList r).2 ∧
      ((setAttributes env object attrList r).1 = true →
        Collected env (attrList.map (object, ·)) r (setAttributes env object attrList r).2) := by
  induction attrList generalizing r with
  | nil => exact ⟨Kept.refl r, fun _ => Collected.nil (Kept.refl r) rfl⟩
  | cons attrName attrList ih =>
    have hasked := asked_getSingleStringAttribute object attrName "" r.immUtil
    unfold setAttributes
    split <;> rename_i hget <;> rw [hget] at hasked
    · rename_i value u
      split <;> rename_i hvalue
      · subst hvalue
        have hstep := collected_skip env hget
        obtain ⟨hkept, hcollected⟩ := ih { r with immUtil := u }
        exact ⟨hstep.toKept.trans hkept, fun h => hstep.append (hcollected h)⟩
      · obtain ⟨newValue, answers, hr, hnew⟩ := reencrypt_eq env value { r with immUtil := u }
        rw [hr]
        cases newValue with
        | none =>
          refine ⟨?_, by simp⟩
          obtain ⟨immAnswers, rfl⟩ := hasked
          exact ⟨rfl, rfl, rfl, rfl, rfl, rfl⟩
        | some newValue =>
          obtain rfl := hnew newValue rfl
          have hstep := collected_add env hget hvalue answers
          obtain ⟨hkept, hcollected⟩ := ih (addModifyObject object attrName (newSecret env value)
            { r with immUtil := u, cryptoAnswers := answers })
          exact ⟨hstep.toKept.trans hkept, fun h => hstep.append (hcollected h)⟩
    · refine ⟨?_, by simp⟩
      obtain ⟨immAnswers, rfl⟩ := hasked
      exact ⟨rfl, rfl, rfl, rfl, rfl, rfl⟩

theorem setObjects_spec (attrList objects : List String) (r : Reencryptor) :
    Kept r (setObjects env attrList objects r).2 ∧
      ((setObjects env attrList objects r).1 = true →
        Collected env (objects ×ˢ attrList) r (setObjects env attrList objects r).2) := by
  induction objects generalizing r with
  | nil => exact ⟨Kept.refl r, fun _ => Collected.nil (Kept.refl r) rfl⟩
  | cons object objects ih =>
    obtain ⟨hkept, hcollected⟩ := setAttributes_spec env object attrList r
    unfold setObjects
    split <;> rename_i h <;> rw [h] at hkept hcollected
    · rename_i r'
      obtain ⟨hkept', hcollected'⟩ := ih r'
      refine ⟨hkept.trans hkept', fun h => ?_⟩
      rw [List.product_cons]
      exact (hcollected rfl).append (hcollected' h)
    · exact ⟨hkept, by simp⟩

theorem makeSetAttributeData_spec (objects attrList : List String) (r : Reencryptor) :
    Kept r (makeSetAttributeData env objects attrList r).2 ∧
      ((makeSetAttributeData env objects attrList r).1 = true →
        Collected env (objects ×ˢ attrList) r (makeSetAttributeData env objects attrList r).2) ∧
      ((makeSetAttributeData env objects attrList r).1 = false →
        (makeSetAttributeData env objects attrList r).2.immUtil.ccbObjects = []) := by
  unfold makeSetAttributeData
  split <;> rename_i hempty
  · refine ⟨Kept.refl r, fun _ => ?_, by simp⟩
    have : objects ×ˢ attrList = [] := by
      rcases hempty with rfl | rfl
      · rfl
      · exact List.product_nil objects
    rw [this]
    exact Collected.nil (Kept.refl r) rfl
  · obtain ⟨hkept, hcollected⟩ := setObjects_spec env attrList objects r
    split <;> rename_i h <;> rw [h] at hkept hcollected
    · exact ⟨hkept, fun _ => hcollected rfl, by simp⟩
    · refine ⟨⟨hkept.imm, hkept.committed, hkept.parentKeyUuid, hkept.encryptionStatus, hkept.ccbId,
        hkept.used⟩, by simp, fun _ => rfl⟩

/-! ## All entries -/

def secrets (imm : Imm) (data : MocAttrData) : List (String × String) :=
  data.flatMap fun entry => (objectsOf imm entry.1).getD [] ×ˢ entry.2

def Populates (imm : Imm) (data : MocAttrData) : Prop :=
  ∀ entry ∈ data, ∃ objects, objectsOf imm entry.1 = some objects ∧
    ∀ p ∈ objects ×ˢ entry.2, Readable imm p.1 p.2

def SearchFailed (data : MocAttrData) (r r' : Reencryptor) : Prop :=
  ∃ before entry after, data = before ++ entry :: after ∧ entry.1 ≠ [] ∧
    Populates r.immUtil.imm before ∧ ∀ p : String × String, staged r'.immUtil.ccbObjects p.1 p.2 =
      staged r.immUtil.ccbObjects p.1 p.2 ++ newValues env r.immUtil.imm (secrets r.immUtil.imm before) p

theorem getObjects_nil (u : ImmUtil) : getObjects [] u = (true, [], u) := rfl

theorem populateEntries_spec (data : MocAttrData) (r : Reencryptor) :
    Kept r (populateEntries env data r).2 ∧
      ((populateEntries env data r).1 = true →
        Populates r.immUtil.imm data ∧
          Collected env (secrets r.immUtil.imm data) r (populateEntries env data r).2) ∧
      ((populateEntries env data r).1 = false →
        (populateEntries env data r).2.immUtil.ccbObjects = [] ∨
          SearchFailed env data r (populateEntries env data r).2) := by
  induction data generalizing r with
  | nil =>
    exact ⟨Kept.refl r, fun _ => ⟨by simp [Populates], Collected.nil (Kept.refl r) rfl⟩, by simp [populateEntries]⟩
  | cons entry data ih =>
    obtain ⟨mocList, attrList⟩ := entry
    have hasked := asked_getObjects mocList r.immUtil
    unfold populateEntries
    split <;> rename_i hget <;> rw [hget] at hasked
    · rename_i found u
      obtain ⟨objects, hobjects, hperm⟩ := getObjects_true hget
      have hfound := kept_asked hasked
      have hu : Collected env [] r { r with immUtil := u } := by
        refine Collected.nil hfound ?_
        obtain ⟨answers, rfl⟩ := hasked
        rfl
      obtain ⟨hkept, hcollected, hcleared⟩ := makeSetAttributeData_spec env found attrList { r with immUtil := u }
      split <;> rename_i hmake <;> rw [hmake] at hkept hcollected hcleared
      · rename_i r'
        have hstep : Collected env (objects ×ˢ attrList) r r' :=
          (hu.append (hcollected rfl)).perm (hperm.product_right attrList)
        have hfirst : Populates r.immUtil.imm [(mocList, attrList)] := by
          intro entry hentry
          obtain rfl := List.mem_singleton.mp hentry
          exact ⟨objects, hobjects, hstep.readable⟩
        have hcons : ∀ data, secrets r.immUtil.imm ((mocList, attrList) :: data) =
            objects ×ˢ attrList ++ secrets r.immUtil.imm data := by
          intro data
          rw [secrets, List.flatMap_cons, hobjects]
          rfl
        have hpopulates : ∀ data, Populates r.immUtil.imm data →
            Populates r.immUtil.imm ((mocList, attrList) :: data) := fun data h entry hentry => by
          rcases List.mem_cons.mp hentry with rfl | hentry
          · exact hfirst _ (List.mem_singleton.mpr rfl)
          · exact h entry hentry
        obtain ⟨hkept', hcollected', hfailed⟩ := ih r'
        rw [hstep.imm] at hcollected'
        refine ⟨hstep.toKept.trans hkept', fun h => ?_, fun h => ?_⟩
        · obtain ⟨hall, hc⟩ := hcollected' h
          exact ⟨hpopulates data hall, hcons data ▸ hstep.append hc⟩
        · refine (hfailed h).imp_right ?_
          rintro ⟨before, entry, after, rfl, hentry, hbefore, hstaged⟩
          rw [hstep.imm] at hbefore hstaged
          refine ⟨(mocList, attrList) :: before, entry, after, rfl, hentry, hpopulates before hbefore, fun p => ?_⟩
          rw [hstaged, hstep.staged, hcons, newValues_append, List.append_assoc]
      · exact ⟨hfound.trans hkept, by simp, fun _ => Or.inl (hcleared rfl)⟩
    · refine ⟨kept_asked hasked, by simp, fun _ => Or.inr ⟨[], (mocList, attrList), data, rfl, ?_, ?_, fun p => ?_⟩⟩
      · rintro rfl
        rw [getObjects_nil] at hget
        cases hget
      · simp [Populates]
      · obtain ⟨answers, rfl⟩ := hasked
        rw [secrets, List.flatMap_nil, newValues_eq_nil_of_not_mem env _ List.not_mem_nil, List.append_nil]
        rfl

/-! ## Answers that let a loop through -/

def answering (answers : List Answer) (r : Reencryptor) : Reencryptor :=
  { r with immUtil := r.immUtil.answering answers }

/-- The call gets what it needs from so many answers, whatever comes after them. -/
def Passes (f : Reencryptor → Bool × Reencryptor) (r r' : Reencryptor) : Prop :=
  r'.cryptoAnswers = [] ∧ r'.immUtil.imm = r.immUtil.imm ∧
    ∃ n, ∀ rest, f (r.answering (List.replicate n .ok ++ rest)) = (true, r'.answering rest)

theorem reencrypt_of_no_answers {v : String} (hv : v ≠ "") {r : Reencryptor} (h : r.cryptoAnswers = []) :
    reencrypt env v r = (some (newSecret env v), r) := by
  rw [reencrypt, if_neg hv]
  simp [cryptoCall, h, newSecret]

theorem setAttributes_passes (object : String) {attrList : List String} {r : Reencryptor}
    (hcrypto : r.cryptoAnswers = [])
    (h : ∀ attrName ∈ attrList, Readable r.immUtil.imm object attrName) :
    ∃ r', Passes (setAttributes env object attrList) r r' := by
  induction attrList generalizing r with
  | nil => exact ⟨r, hcrypto, rfl, 0, fun rest => rfl⟩
  | cons attrName attrList ih =>
    have hread := h attrName List.mem_cons_self
    have hget := fun rest => getSingleStringAttribute_answering hread "" rest
    generalize readString r.immUtil.imm object attrName "" = value at hget
    by_cases hvalue : value = ""
    · obtain ⟨r', hcrypto', himm', n, hn⟩ := ih hcrypto fun a ha => h a (List.mem_cons_of_mem _ ha)
      refine ⟨r', hcrypto', himm', n + 1, fun rest => ?_⟩
      rw [List.replicate_succ, List.cons_append, setAttributes]
      simp only [answering] at hn ⊢
      rw [hget]
      simp only [hvalue, if_true]
      exact hn rest
    · obtain ⟨r', hcrypto', himm', n, hn⟩ := ih
        (r := addModifyObject object attrName (newSecret env value) r) hcrypto
        fun a ha => h a (List.mem_cons_of_mem _ ha)
      refine ⟨r', hcrypto', himm', n + 1, fun rest => ?_⟩
      rw [List.replicate_succ, List.cons_append, setAttributes]
      simp only [answering] at hn ⊢
      rw [hget]
      simp only [hvalue, if_false]
      rw [reencrypt_of_no_answers env hvalue (by exact hcrypto)]
      exact hn rest

theorem setObjects_passes (attrList : List String) {objects : List String} {r : Reencryptor}
    (hcrypto : r.cryptoAnswers = [])
    (h : ∀ p ∈ objects ×ˢ attrList, Readable r.immUtil.imm p.1 p.2) :
    ∃ r', Passes (setObjects env attrList objects) r r' := by
  induction objects generalizing r with
  | nil => exact ⟨r, hcrypto, rfl, 0, fun rest => rfl⟩
  | cons object objects ih =>
    obtain ⟨r₁, hcrypto₁, himm₁, n, hn⟩ := setAttributes_passes env object hcrypto
      fun a (ha : a ∈ attrList) => h (object, a) (by simp [ha])
    obtain ⟨r₂, hcrypto₂, himm₂, m, hm⟩ := ih hcrypto₁ fun p hp => by
      rw [himm₁]
      exact h p (by rw [List.product_cons]; exact List.mem_append_right _ hp)
    refine ⟨r₂, hcrypto₂, himm₂.trans himm₁, n + m, fun rest => ?_⟩
    rw [List.replicate_add, List.append_assoc, setObjects, hn]
    exact hm rest

theorem makeSetAttributeData_passes {objects attrList : List String} {r : Reencryptor}
    (hcrypto : r.cryptoAnswers = [])
    (h : ∀ p ∈ objects ×ˢ attrList, Readable r.immUtil.imm p.1 p.2) :
    ∃ r', Passes (makeSetAttributeData env objects attrList) r r' := by
  by_cases hempty : objects = [] ∨ attrList = []
  · exact ⟨r, hcrypto, rfl, 0, fun rest => by rw [makeSetAttributeData, if_pos hempty]; rfl⟩
  · obtain ⟨r', hcrypto', himm', n, hn⟩ := setObjects_passes env attrList hcrypto h
    refine ⟨r', hcrypto', himm', n, fun rest => ?_⟩
    rw [makeSetAttributeData, if_neg hempty, hn]

theorem populateEntries_passes {data : MocAttrData} {r : Reencryptor} (hcrypto : r.cryptoAnswers = [])
    (h : Populates r.immUtil.imm data) : ∃ r', Passes (populateEntries env data) r r' := by
  induction data generalizing r with
  | nil => exact ⟨r, hcrypto, rfl, 0, fun rest => rfl⟩
  | cons entry data ih =>
    obtain ⟨mocList, attrList⟩ := entry
    obtain ⟨objects, hobjects, hread⟩ := h _ List.mem_cons_self
    obtain ⟨n₁, found, hn₁⟩ := getObjects_answering r.immUtil hobjects
    obtain ⟨objects', hobjects', hperm⟩ := getObjects_true (hn₁ [])
    obtain rfl : objects' = objects := Option.some.inj (hobjects'.symm.trans hobjects)
    obtain ⟨r₂, hcrypto₂, himm₂, n₂, hn₂⟩ := makeSetAttributeData_passes env hcrypto
      (fun p (hp : p ∈ found ×ˢ attrList) => hread p ((hperm.product_right attrList).mem_iff.mp hp))
    obtain ⟨r₃, hcrypto₃, himm₃, n₃, hn₃⟩ := ih hcrypto₂ fun e he => by
      rw [himm₂]
      exact h e (List.mem_cons_of_mem _ he)
    refine ⟨r₃, hcrypto₃, himm₃.trans himm₂, n₁ + (n₂ + n₃), fun rest => ?_⟩
    rw [List.replicate_add, List.append_assoc, List.replicate_add, List.append_assoc, populateEntries]
    simp only [answering] at hn₂ hn₃ ⊢
    rw [hn₁]
    simp only [hn₂, hn₃]

theorem populateEntries_append (before after : MocAttrData) {r r' : Reencryptor}
    (h : populateEntries env before r = (true, r')) :
    populateEntries env (before ++ after) r = populateEntries env after r' := by
  induction before generalizing r with
  | nil =>
    cases h
    rfl
  | cons entry before ih =>
    rw [populateEntries] at h
    rw [List.cons_append, populateEntries]
    split at h <;> rename_i hget
    · split at h <;> rename_i hmake
      · exact ih h
      · cases h
    · cases h

theorem populateEntries_fails {before : MocAttrData} (after : MocAttrData) {entry : List String × List String}
    {r r' : Reencryptor} (hentry : entry.1 ≠ []) (h : Passes (populateEntries env before) r r') :
    ∃ answers, ∀ rest, populateEntries env (before ++ entry :: after) (r.answering (answers ++ rest)) =
      (false, r'.answering rest) := by
  obtain ⟨_, _, n, hn⟩ := h
  obtain ⟨mocList, attrList⟩ := entry
  obtain ⟨className, mocList, rfl⟩ := List.exists_cons_of_ne_nil hentry
  obtain ⟨bad, hbad⟩ := getObjects_fails className mocList r'.immUtil
  refine ⟨List.replicate n .ok ++ bad, fun rest => ?_⟩
  rw [List.append_assoc, populateEntries_append env _ _ (hn (bad ++ rest)), populateEntries]
  simp only [answering]
  rw [hbad]

end Reencryptor

end ComSA.ComReencryptor
