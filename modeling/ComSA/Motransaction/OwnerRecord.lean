import ComSA.Lib.Run
import ComSA.Motransaction.Existence
import ComSA.Motransaction.Needs

/-!
# The record of owned names

The transaction records which names it has taken in IMM, and with which scope. A name has
one scope in the record, and in IMM a scope is a set of objects: which calls keep the two
in step.
-/

namespace ComSA

open TxState

/-! ## The calls -/

inductive OwnerCall where
  | checkSet (dn : String) (scope : ImmScope)
  | release (dn : String) (scope : ImmScope)

def OwnerCall.step (env : TxEnv) (w : TxState) : OwnerCall → TxState
  | checkSet dn scope => (checkSetAdminOwner env dn scope w).2
  | release dn scope => releaseAdminOwner env dn scope w

/-- The record claims a name with a scope only if IMM has the whole scope owned, and without a record IMM has
nothing owned. -/
structure RecordMatches (tr : Translator) (w : TxState) : Prop where
  claims : ∀ dn scope, w.isAdminOwnerFor dn scope = true → ∀ q, InScope tr dn scope q → w.owned q = true
  empty : w.adminOwners = [] → ∀ q, w.owned q = false

/-! ## Which calls keep it -/

def Releases (w : TxState) (dn : String) (scope : ImmScope) : Prop :=
  dn ≠ "" ∧ w.isAdminOwnerFor dn scope = true ∧ w.nextAnswer.1 = .ok

/-- The owner left over from an earlier transaction is cleared, and then the objects are not taken again. -/
def ClearsOnly (env : TxEnv) (w : TxState) (dn : String) (scope : ImmScope) : Prop :=
  dn ≠ "" ∧ w.isAdminOwnerFor dn scope = false ∧ env.immExists dn = true ∧ w.nextAnswer.1 = .cleared false

/-- No object of the scope is claimed under a name that is allowed. -/
def Unclaimed (tr : Translator) (w : TxState) (allowed : String → Prop) (dn : String) (scope : ImmScope) : Prop :=
  ∀ dn' scope', allowed dn' → w.isAdminOwnerFor dn' scope' = true →
    ∀ q, InScope tr dn scope q → ¬ InScope tr dn' scope' q

/-- The calls that keep the record and IMM in step. What is given back is not claimed under another name, and
with the last name all goes that IMM has. -/
def OwnerCall.Fine (env : TxEnv) (w : TxState) : OwnerCall → Prop
  | checkSet dn scope => ClearsOnly env w dn scope → Unclaimed env.tr w (fun _ => True) dn scope
  | release dn scope => Releases w dn scope →
      Unclaimed env.tr w (· ≠ dn) dn scope ∧
      (SortedMap.erase dn w.adminOwners = [] → ∀ q, w.owned q = true → InScope env.tr dn scope q)

section
variable {env : TxEnv} {w : TxState} {dn : String} {scope : ImmScope}

theorem nextAnswer_eq (w : TxState) :
    ∃ answers, w.nextAnswer = (w.nextAnswer.1, { w with answers := answers }) := by
  unfold nextAnswer
  split
  · exact ⟨w.answers, rfl⟩
  · exact ⟨_, rfl⟩

theorem releaseAdminOwner_cases (env : TxEnv) (w : TxState) (dn : String) (scope : ImmScope) :
    (Releases w dn scope ∧
      (releaseAdminOwner env dn scope w).adminOwners = SortedMap.erase dn w.adminOwners ∧
      (releaseAdminOwner env dn scope w).owned = (w.disown env.tr dn scope).owned) ∨
    (¬ Releases w dn scope ∧
      (releaseAdminOwner env dn scope w).adminOwners = w.adminOwners ∧
      (releaseAdminOwner env dn scope w).owned = w.owned) := by
  obtain ⟨answers, hanswers⟩ := nextAnswer_eq w
  unfold releaseAdminOwner
  by_cases hdn : dn = ""
  · rw [if_pos hdn]
    exact Or.inr ⟨fun h => h.1 hdn, rfl, rfl⟩
  rw [if_neg hdn]
  by_cases hown : w.isAdminOwnerFor dn scope = true
  swap
  · rw [if_neg hown]
    exact Or.inr ⟨fun h => hown h.2.1, rfl, rfl⟩
  rw [if_pos hown, hanswers]
  cases ha : w.nextAnswer.1 with
  | ok =>
    have hsame : ({ w with answers := answers }.disown env.tr dn scope).isAdminOwnerFor dn scope = true := hown
    dsimp only
    unfold removeAdminOwnerFor
    rw [if_pos hsame]
    exact Or.inl ⟨⟨hdn, hown, ha⟩, rfl, rfl⟩
  | exist => exact Or.inr ⟨fun h => (by cases ha.symm.trans h.2.2), rfl, rfl⟩
  | cleared => exact Or.inr ⟨fun h => (by cases ha.symm.trans h.2.2), rfl, rfl⟩
  | failedOperation => exact Or.inr ⟨fun h => (by cases ha.symm.trans h.2.2), rfl, rfl⟩
  | badHandle => exact Or.inr ⟨fun h => (by cases ha.symm.trans h.2.2), rfl, rfl⟩
  | error => exact Or.inr ⟨fun h => (by cases ha.symm.trans h.2.2), rfl, rfl⟩

theorem checkSetAdminOwner_cases (env : TxEnv) (w : TxState) (dn : String) (scope : ImmScope) :
    (¬ ClearsOnly env w dn scope ∧ w.isAdminOwnerFor dn scope = false ∧
      (checkSetAdminOwner env dn scope w).2.adminOwners = SortedMap.put dn scope w.adminOwners ∧
      (checkSetAdminOwner env dn scope w).2.owned = (w.own env.tr dn scope).owned) ∨
    (ClearsOnly env w dn scope ∧
      (checkSetAdminOwner env dn scope w).2.adminOwners = w.adminOwners ∧
      (checkSetAdminOwner env dn scope w).2.owned = (w.disown env.tr dn scope).owned) ∨
    (¬ ClearsOnly env w dn scope ∧
      (checkSetAdminOwner env dn scope w).2.adminOwners = w.adminOwners ∧
      (checkSetAdminOwner env dn scope w).2.owned = w.owned) := by
  obtain ⟨answers, hanswers⟩ := nextAnswer_eq w
  unfold checkSetAdminOwner
  by_cases hdn : dn = ""
  · rw [if_pos hdn]
    exact Or.inr (Or.inr ⟨fun h => h.1 hdn, rfl, rfl⟩)
  rw [if_neg hdn]
  cases hown : w.isAdminOwnerFor dn scope with
  | true =>
    rw [if_pos rfl]
    exact Or.inr (Or.inr ⟨fun h => (by cases hown.symm.trans h.2.1), rfl, rfl⟩)
  | false =>
    rw [if_neg Bool.false_ne_true]
    cases hex : env.immExists dn with
    | false => exact Or.inr (Or.inr ⟨fun h => (by cases hex.symm.trans h.2.2.1), rfl, rfl⟩)
    | true =>
      rw [if_neg (by simp), hanswers]
      have hnot : ∀ {a}, w.nextAnswer.1 = a → a ≠ .cleared false → ¬ ClearsOnly env w dn scope :=
        fun ha hne h => hne (ha.symm.trans h.2.2.2)
      cases ha : w.nextAnswer.1 with
      | ok => exact Or.inl ⟨hnot ha nofun, rfl, rfl, rfl⟩
      | cleared again =>
        cases again with
        | true => exact Or.inl ⟨hnot ha nofun, rfl, rfl, rfl⟩
        | false => exact Or.inr (Or.inl ⟨⟨hdn, hown, hex, ha⟩, rfl, rfl⟩)
      | exist => exact Or.inr (Or.inr ⟨hnot ha nofun, rfl, rfl⟩)
      | failedOperation => exact Or.inr (Or.inr ⟨hnot ha nofun, rfl, rfl⟩)
      | badHandle => exact Or.inr (Or.inr ⟨hnot ha nofun, rfl, rfl⟩)
      | error => exact Or.inr (Or.inr ⟨hnot ha nofun, rfl, rfl⟩)

/-! ## What the record claims afterwards -/

theorem isAdminOwnerFor_congr {w' : TxState} (h : w'.adminOwners = w.adminOwners) (dn : String)
    (scope : ImmScope) : w'.isAdminOwnerFor dn scope = w.isAdminOwnerFor dn scope := by
  unfold isAdminOwnerFor
  rw [h]

theorem isAdminOwnerFor_erase {w' : TxState} (h : w'.adminOwners = SortedMap.erase dn w.adminOwners)
    (dn' : String) (scope' : ImmScope) :
    w'.isAdminOwnerFor dn' scope' = true ↔ dn' ≠ dn ∧ w.isAdminOwnerFor dn' scope' = true := by
  unfold isAdminOwnerFor
  rw [h, SortedMap.get?_erase]
  split_ifs with hdn
  · simp [hdn]
  · simp [hdn]

theorem isAdminOwnerFor_put {w' : TxState} (h : w'.adminOwners = SortedMap.put dn scope w.adminOwners)
    (dn' : String) (scope' : ImmScope) :
    w'.isAdminOwnerFor dn' scope' = true ↔
      if dn' = dn then scope'.toNat ≤ scope.toNat else w.isAdminOwnerFor dn' scope' = true := by
  unfold isAdminOwnerFor
  rw [h, SortedMap.get?_put]
  split_ifs with hdn <;> simp

theorem owned_disown (tr : Translator) (w : TxState) (dn : String) (scope : ImmScope) (q : List String) :
    (w.disown tr dn scope).owned q = true ↔ ¬ InScope tr dn scope q ∧ w.owned q = true := by
  unfold disown
  simp

theorem owned_own (tr : Translator) (w : TxState) (dn : String) (scope : ImmScope) (q : List String) :
    (w.own tr dn scope).owned q = true ↔ InScope tr dn scope q ∨ w.owned q = true := by
  unfold own
  simp

theorem put_ne_nil (dn : String) (scope : ImmScope) (m : List (String × ImmScope)) :
    SortedMap.put dn scope m ≠ [] := by
  intro hnil
  have := SortedMap.get?_put dn dn scope m
  rw [hnil, if_pos rfl] at this
  cases this

theorem RecordMatches.congr {tr : Translator} {w' : TxState} (h : RecordMatches tr w)
    (howners : w'.adminOwners = w.adminOwners) (howned : w'.owned = w.owned) : RecordMatches tr w' := by
  refine ⟨fun dn scope hclaim => ?_, fun hempty => ?_⟩
  · rw [isAdminOwnerFor_congr howners] at hclaim
    rw [howned]
    exact h.claims dn scope hclaim
  · rw [howners] at hempty
    rw [howned]
    exact h.empty hempty

theorem recordMatches_release_iff (h : RecordMatches env.tr w) (dn : String) (scope : ImmScope) :
    RecordMatches env.tr (releaseAdminOwner env dn scope w) ↔ (OwnerCall.release dn scope).Fine env w := by
  unfold OwnerCall.Fine
  rcases releaseAdminOwner_cases env w dn scope with ⟨hrel, howners, howned⟩ | ⟨hrel, howners, howned⟩
  swap
  · exact ⟨fun _ hr => absurd hr hrel, fun _ => h.congr howners howned⟩
  constructor
  · intro hafter _
    refine ⟨fun dn' scope' hne hclaim q hq hq' => ?_, fun hlast q hq => ?_⟩
    · have := hafter.claims dn' scope' ((isAdminOwnerFor_erase howners dn' scope').mpr ⟨hne, hclaim⟩) q hq'
      rw [howned, owned_disown] at this
      exact this.1 hq
    · by_contra hnot
      have hfree := hafter.empty (by rw [howners, hlast]) q
      have hheld := (owned_disown env.tr w dn scope q).mpr ⟨hnot, hq⟩
      rw [← howned, hfree] at hheld
      cases hheld
  · intro hfine
    obtain ⟨hapart, hlast⟩ := hfine hrel
    refine ⟨fun dn' scope' hclaim q hq => ?_, fun hempty q => ?_⟩
    · obtain ⟨hne, hclaim⟩ := (isAdminOwnerFor_erase howners dn' scope').mp hclaim
      rw [howned, owned_disown]
      exact ⟨fun hq' => hapart dn' scope' hne hclaim q hq' hq, h.claims dn' scope' hclaim q hq⟩
    · rw [howners] at hempty
      rw [howned, ← Bool.not_eq_true, owned_disown]
      rintro ⟨hnot, hq⟩
      exact hnot (hlast hempty q hq)

theorem recordMatches_checkSet_iff (h : RecordMatches env.tr w) (dn : String) (scope : ImmScope) :
    RecordMatches env.tr (checkSetAdminOwner env dn scope w).2 ↔ (OwnerCall.checkSet dn scope).Fine env w := by
  unfold OwnerCall.Fine
  rcases checkSetAdminOwner_cases env w dn scope with
    ⟨hclear, hfree, howners, howned⟩ | ⟨hclear, howners, howned⟩ | ⟨hclear, howners, howned⟩
  · refine ⟨fun _ hc => absurd hc hclear, fun _ => ⟨fun dn' scope' hclaim q hq => ?_, fun hempty => ?_⟩⟩
    · rw [howned, owned_own]
      have := (isAdminOwnerFor_put howners dn' scope').mp hclaim
      split at this <;> rename_i hdn
      · subst hdn
        exact Or.inl (hq.of_le this)
      · exact Or.inr (h.claims dn' scope' this q hq)
    · rw [howners] at hempty
      exact absurd hempty (put_ne_nil dn scope _)
  · constructor
    · intro hafter _ dn' scope' _ hclaim q hq hq'
      have := hafter.claims dn' scope' (by rwa [isAdminOwnerFor_congr howners]) q hq'
      rw [howned, owned_disown] at this
      exact this.1 hq
    · intro hfine
      refine ⟨fun dn' scope' hclaim q hq => ?_, fun hempty q => ?_⟩
      · rw [isAdminOwnerFor_congr howners] at hclaim
        rw [howned, owned_disown]
        exact ⟨fun hq' => hfine hclear dn' scope' trivial hclaim q hq' hq, h.claims dn' scope' hclaim q hq⟩
      · rw [howners] at hempty
        rw [howned, ← Bool.not_eq_true, owned_disown, h.empty hempty q]
        simp
  · exact ⟨fun _ hc => absurd hc hclear, fun _ => h.congr howners howned⟩

end

/-! ## Runs -/

def newTransaction (answers : List ImmAnswer) : TxState := { answers := answers }

/-- The record and IMM agree in every state of a run exactly when each call of it keeps them in step. -/
theorem recordMatches_throughout_iff (env : TxEnv) (answers : List ImmAnswer) (calls : List OwnerCall) :
    Throughout (OwnerCall.step env) (RecordMatches env.tr) (newTransaction answers) calls ↔
      Along (OwnerCall.step env) (OwnerCall.Fine env) (newTransaction answers) calls := by
  refine throughout_iff_along (fun w c h => ?_) ⟨fun dn scope hclaim => ?_, fun _ _ => rfl⟩ calls
  · cases c with
    | checkSet dn scope => exact recordMatches_checkSet_iff h dn scope
    | release dn scope => exact recordMatches_release_iff h dn scope
  · cases hclaim

section
open Sample

/-- `Foo=1` is taken with all below it and given back alone: the record is empty, and IMM still holds what is
below. -/
theorem not_recordMatches :
    ¬ ∀ (env : TxEnv) (calls : List OwnerCall),
      Throughout (OwnerCall.step env) (RecordMatches env.tr) (newTransaction []) calls := by
  intro h
  have hlast := (h ⟨bridgeEnv, immExists, true⟩
    [.checkSet (translator.mo2ImmDn foo.parts) .subtree, .release (translator.mo2ImmDn foo.parts) .one]).last
  have hbar : ([OwnerCall.checkSet (translator.mo2ImmDn foo.parts) .subtree,
      .release (translator.mo2ImmDn foo.parts) .one].foldl (OwnerCall.step ⟨bridgeEnv, immExists, true⟩)
        (newTransaction [])).owned bar.parts = true := by decide
  rw [hlast.empty (by decide) bar.parts] at hbar
  cases hbar

end

end ComSA
