import ComSA.Motransaction.SplitValidity

/-!
# Populating on demand

Each query populates the map where it finds it empty. What a whole process is answered, beside what it would be
answered with the map populated beforehand.
-/

namespace ComSA.Translator

namespace RootRepository

variable (populate : RootRepository → Option RootRepository)

def ensurePopulated (r : RootRepository) : Option RootRepository :=
  if r.myMOMRootMap = [] then populate r else some r

def IsRoot (theString theParent : String) (r : RootRepository) : Option (Bool × RootRepository) := do
  let r ← r.ensurePopulated populate
  -- a struct class is never a root
  if theString.toList.head? = some '=' then
    some (false, r)
  else
    some ((r.myMOMRootMap.lookup (MOMRootRepository.rootKey theString theParent)).isSome, r)

def containmentName (theString theParent : String) : String :=
  String.ofList (theParent.toList.takeWhile (· ≠ '=')) ++ CONTAINMENT_SEPARATOR ++
    String.ofList (theString.toList.takeWhile (· ≠ '='))

def IsSingletonRoot (theString theParent : String) (r : RootRepository) : Option (Bool × RootRepository) := do
  let r ← r.ensurePopulated populate
  if theString.toList.head? = some '=' then
    some (false, r)
  -- the class at the top
  else if theParent = "" then
    some (true, r)
  else
    let (split, r) ← isSplitImmDn populate (containmentName theString theParent) r
    if !split then
      some (false, r)
    else
      some ((r.myMOMRootMap.lookup (MOMRootRepository.rootKey theString theParent)).isSome, r)

def Find (theString : String) (r : RootRepository) :
    Option (Option (String × MOMRootDataEntry) × RootRepository) := do
  let r ← r.ensurePopulated populate
  some ((r.myMOMRootMap.lookup (trimmed theString)).map fun den => (trimmed theString, den), r)

def rootSiblings (theParentName : String) (r : RootRepository) : List String :=
  ((r.myMOMRootMap.filter fun x => x.2.GetParentName = theParentName).map Prod.fst).mergeSort (· ≤ ·)

def GetRootSiblingList (theParentName : String) (r : RootRepository) : Option (List String × RootRepository) := do
  let r ← r.ensurePopulated populate
  some (r.rootSiblings theParentName, r)

/-- Whether the containment is valid, as it is stored: one that is not stored is. -/
def storedValid (parentClass_rootClass : String) (r : RootRepository) : Bool :=
  ((SortedMap.get? (splitKey parentClass_rootClass) r.splitImmDnAttributes).map
    SplitImmDnAttributes.valid).getD true

def isSplitImmDnValid (parentClass_rootClass : String) (r : RootRepository) : Option (Bool × RootRepository) := do
  -- as in `isSplitImmDn`
  let found := (SortedMap.get? (splitKey parentClass_rootClass) r.splitImmDnAttributes).isSome
  let r ← r.ensurePopulated populate
  some (!found || r.storedValid parentClass_rootClass, r)

end RootRepository

open RootRepository

/-! ## Queries -/

inductive Query where
  | IsRoot (theString theParent : String)
  | IsSingletonRoot (theString theParent : String)
  | Find (theString : String)
  | GetRootSiblingList (theParentName : String)
  | isSplitImmDn (parentClass_rootClass : String)
  | isSplitImmDnValid (parentClass_rootClass : String)
  deriving DecidableEq, Repr

inductive Answer where
  | flag (retVal : Bool)
  | entry (theRetVal : Option (String × MOMRootDataEntry))
  | siblings (theSiblingList : List String)
  deriving DecidableEq, Repr

def Query.ask (populate : RootRepository → Option RootRepository) (r : RootRepository) :
    Query → Option (Answer × RootRepository)
  | .IsRoot theString theParent => (r.IsRoot populate theString theParent).map (Prod.map .flag id)
  | .IsSingletonRoot theString theParent => (r.IsSingletonRoot populate theString theParent).map (Prod.map .flag id)
  | .Find theString => (r.Find populate theString).map (Prod.map .entry id)
  | .GetRootSiblingList theParentName => (r.GetRootSiblingList populate theParentName).map (Prod.map .siblings id)
  | .isSplitImmDn name => (r.isSplitImmDn populate name).map (Prod.map .flag id)
  | .isSplitImmDnValid name => (r.isSplitImmDnValid populate name).map (Prod.map .flag id)

def answers (populate : RootRepository → Option RootRepository) : List Query → RootRepository → Option (List Answer)
  | [], _ => some []
  | q :: qs, r => do
    let (answer, r) ← q.ask populate r
    let rest ← answers populate qs r
    some (answer :: rest)

def Query.answer (r : RootRepository) : Query → Answer
  | .IsRoot theString theParent =>
    .flag (theString.toList.head? ≠ some '=' &&
      (r.myMOMRootMap.lookup (MOMRootRepository.rootKey theString theParent)).isSome)
  | .IsSingletonRoot theString theParent =>
    .flag (theString.toList.head? ≠ some '=' && (theParent = "" ||
      MOMRootRepository.isSplitImmDn (RootRepository.containmentName theString theParent)
          r.containmentSplitImmDnAttributes &&
        (r.myMOMRootMap.lookup (MOMRootRepository.rootKey theString theParent)).isSome))
  | .Find theString =>
    .entry ((r.myMOMRootMap.lookup (trimmed theString)).map fun den => (trimmed theString, den))
  | .GetRootSiblingList theParentName => .siblings (r.rootSiblings theParentName)
  | .isSplitImmDn name => .flag (MOMRootRepository.isSplitImmDn name r.containmentSplitImmDnAttributes)
  | .isSplitImmDnValid name => .flag (r.storedValid name)

/-- The query is one of the two that look their entry up first, and the model says no to it: the last containment
recorded under that name does not split the DN, or is not valid. -/
def Denied (M : Model) (ks : List Containment) : Query → Prop
  | .isSplitImmDn name => ∃ k past, latest (splitKey name) ks.reverse = some (k, past) ∧
      MOMRootRepository.splitValue M k = false
  | .isSplitImmDnValid name => ∃ k past, latest (splitKey name) ks.reverse = some (k, past) ∧
      (MOMRootRepository.isSplitImmDn k.name (splitsOf M past) = true ∧ M.Branches k.parentMoc ∨
        ClashRecorded M ks.reverse k)
  | _ => False

section
variable {M : Model} {populate : RootRepository → Option RootRepository} {h : MocHandle} {fuel : Nat}
  {r r' s : RootRepository}

/-! ## Populating again -/

theorem populateClass_eq_self (hstored : ¬ M.StoredAsRoot h) (hclass : populateClass M populate fuel h r =
    some r') :
    r' = r := by
  unfold populateClass at hclass
  split at hclass <;> rename_i hroot
  · have hkey : (M.moc h).keyAttribute = none := by
      by_contra hkey
      exact hstored ⟨hroot, hkey⟩
    have hholder : M.populateKeyHolderWithMOM_V4 fuel h r.theKeyHolder = some r.theKeyHolder := by
      unfold Model.populateKeyHolderWithMOM_V4 Model.getMocNameAndKey_V4
      rw [hkey]
      rfl
    rw [hholder, Option.bind_eq_bind, Option.bind_some, hkey] at hclass
    exact (Option.some.inj hclass).symm
  · exact (Option.some.inj hclass).symm

theorem map_ne_nil_of_storedAsRoot (hpopulate : Populate_V4 M (fuel + 1) {} = some r) {c : MocHandle}
    (hc : M.IsClass c) (hstored : M.StoredAsRoot c) : r.myMOMRootMap ≠ [] := by
  have hsome := hpopulate
  rw [Populate_V4] at hpopulate
  obtain ⟨t, hloop, rfl⟩ := Option.map_eq_some_iff.mp hpopulate
  rw [checkModelValid_eq (fun r => r.myMOMRootMap) fun _ _ => rfl]
  -- a stored class without parents comes first, and from then on the map is not empty
  have hfirst : ∃ a, M.IsClass a ∧ M.StoredAsRoot a ∧ M.parentContainments a = [] := by
    by_cases hparents : M.parentContainments c = []
    · exact ⟨c, hc, hstored, hparents⟩
    · refine ⟨M.root, .refl, ?_⟩
      by_contra hroot
      rw [Populate_V4_of_nil hc hstored hparents hroot (fuel + 1) rfl] at hsome
      cases hsome
  obtain ⟨a, ha, hstored, hparents⟩ := hfirst
  exact loopRootClasses_reaches (I := fun _ => True) (P := fun r => r.myMOMRootMap ≠ [])
    (fun _ _ _ _ _ _ _ => trivial)
    (fun d _ n s s' _ hs hclass => (populateClass_roots (.inl hs) hclass).2 (.inl hs)) ha
    (fun n s s' _ hclass => (populateClass_roots (.inr fun _ => hparents) hclass).2 (.inr hstored)) trivial hloop

theorem Populate_V4_eq_empty (hpopulate : Populate_V4 M (fuel + 1) {} = some r) (hr : r.myMOMRootMap = []) :
    r = {} := by
  have hnone : ∀ c, M.IsClass c → ¬ M.StoredAsRoot c := fun c hc hstored =>
    map_ne_nil_of_storedAsRoot hpopulate hc hstored hr
  rw [Populate_V4] at hpopulate
  obtain ⟨t, hloop, rfl⟩ := Option.map_eq_some_iff.mp hpopulate
  obtain rfl : t = {} := by
    refine loopRootClasses_keeps (I := fun r => r = {}) (fun c hc n s s' hs hclass => ?_) rfl hloop
    rw [populateClass_eq_self (hnone c hc) hclass, hs]
  rfl

theorem populate_again (hpopulate : Populate_V4 M (fuel + 1) {} = some r) :
    r.ensurePopulated (fun r => Populate_V4 M (fuel + 1) r) = some r := by
  unfold ensurePopulated
  split <;> rename_i hr
  · obtain rfl := Populate_V4_eq_empty hpopulate hr
    exact hpopulate
  · rfl

/-! ## One query -/

theorem isSplitImmDn_eq (populate : RootRepository → Option RootRepository) (name : String)
    (hr : r.ensurePopulated populate = some s) :
    isSplitImmDn populate name r = some (!(r.containmentSplitImmDnAttributes.lookup (splitKey name)).isSome ||
      MOMRootRepository.isSplitImmDn name s.containmentSplitImmDnAttributes, s) := by
  unfold ensurePopulated at hr
  unfold isSplitImmDn
  split <;> rename_i hmap
  · rw [if_pos hmap] at hr
    rw [hr]
    rfl
  · rw [if_neg hmap] at hr
    obtain rfl := Option.some.inj hr
    rfl

theorem isSplitImmDnValid_eq (populate : RootRepository → Option RootRepository) (name : String)
    (hr : r.ensurePopulated populate = some s) :
    RootRepository.isSplitImmDnValid populate name r = some
      (!(SortedMap.get? (splitKey name) r.splitImmDnAttributes).isSome ||
      s.storedValid name, s) := by
  unfold RootRepository.isSplitImmDnValid
  rw [hr]
  rfl

theorem isSplitImmDn_populated (hr : r.ensurePopulated populate = some r) (name : String) :
    isSplitImmDn populate name r =
      some (MOMRootRepository.isSplitImmDn name r.containmentSplitImmDnAttributes, r) := by
  rw [isSplitImmDn_eq populate name hr]
  unfold MOMRootRepository.isSplitImmDn
  cases r.containmentSplitImmDnAttributes.lookup (splitKey name) <;> simp

theorem isSplitImmDnValid_populated (hr : r.ensurePopulated populate = some r)
    (name : String) : RootRepository.isSplitImmDnValid populate name r = some (r.storedValid name, r) := by
  rw [isSplitImmDnValid_eq populate name hr]
  unfold storedValid
  cases SortedMap.get? (splitKey name) r.splitImmDnAttributes <;> simp

theorem Query.ask_populated (hr : r.ensurePopulated populate = some r) (q : Query) :
    q.ask populate r = some (q.answer r, r) := by
  cases q with
  | IsRoot theString theParent =>
    rw [ask, RootRepository.IsRoot, hr, answer, Option.bind_eq_bind, Option.bind_some]
    split <;> rename_i hstruct <;> simp [hstruct]
  | IsSingletonRoot theString theParent =>
    rw [ask, RootRepository.IsSingletonRoot, hr, answer, Option.bind_eq_bind, Option.bind_some,
      isSplitImmDn_populated hr, Option.bind_eq_bind, Option.bind_some]
    dsimp only
    split <;> rename_i hstruct
    · simp [hstruct]
    · split <;> rename_i htop
      · simp [hstruct, htop]
      · split <;> rename_i hsplit
        · rw [Bool.not_eq_true'] at hsplit
          simp [htop, hsplit]
        · rw [Bool.not_eq_true', Bool.not_eq_false] at hsplit
          simp [hstruct, htop, hsplit]
  | Find theString =>
    rw [ask, RootRepository.Find, hr]
    rfl
  | GetRootSiblingList theParentName =>
    rw [ask, RootRepository.GetRootSiblingList, hr]
    rfl
  | isSplitImmDn name =>
    rw [ask, isSplitImmDn_populated hr]
    rfl
  | isSplitImmDnValid name =>
    rw [ask, isSplitImmDnValid_populated hr]
    rfl

theorem answers_populated (hr : r.ensurePopulated populate = some r) (qs : List Query) :
    answers populate qs r = some (qs.map fun q => q.answer r) := by
  induction qs with
  | nil => rfl
  | cons q qs ih =>
    rw [answers, q.ask_populated hr, Option.bind_eq_bind, Option.bind_some]
    dsimp only
    rw [ih]
    rfl

def Query.firstAnswer (r : RootRepository) : Query → Answer
  | .isSplitImmDn _ | .isSplitImmDnValid _ => .flag true
  | q => q.answer r

theorem Query.ask_fresh (hstart : populate {} = some r)
    (hr : r.ensurePopulated populate = some r) (q : Query) :
    q.ask populate {} = some (q.firstAnswer r, r) := by
  have hfresh : ({} : RootRepository).ensurePopulated populate = some r := hstart
  cases q with
  | isSplitImmDn name =>
    rw [ask, isSplitImmDn_eq populate name hfresh]
    rfl
  | isSplitImmDnValid name =>
    rw [ask, isSplitImmDnValid_eq populate name hfresh]
    rfl
  | IsRoot theString theParent =>
    refine Eq.trans ?_ (Query.ask_populated hr (.IsRoot theString theParent))
    rw [ask, ask, RootRepository.IsRoot, RootRepository.IsRoot, hfresh, hr]
  | IsSingletonRoot theString theParent =>
    refine Eq.trans ?_ (Query.ask_populated hr (.IsSingletonRoot theString theParent))
    rw [ask, ask, RootRepository.IsSingletonRoot, RootRepository.IsSingletonRoot, hfresh, hr]
  | Find theString =>
    refine Eq.trans ?_ (Query.ask_populated hr (.Find theString))
    rw [ask, ask, RootRepository.Find, RootRepository.Find, hfresh, hr]
  | GetRootSiblingList theParentName =>
    refine Eq.trans ?_ (Query.ask_populated hr (.GetRootSiblingList theParentName))
    rw [ask, ask, RootRepository.GetRootSiblingList, RootRepository.GetRootSiblingList, hfresh, hr]

end

/-! ## What the model says no to -/

section
variable {M : Model} {fuel : Nat} {r : RootRepository}

theorem answer_isSplitImmDn_iff (hpopulate : Populate_V4 M (fuel + 1) {} = some r) (name : String) :
    (Query.isSplitImmDn name).answer r = .flag true ↔ ¬ Denied M (recorded M fuel) (.isSplitImmDn name) := by
  obtain ⟨t, rfl, hnotes⟩ := Populate_V4_notes hpopulate
  have hsplits : (checkModelValid t).containmentSplitImmDnAttributes = splitsOf M (recorded M fuel).reverse := by
    rw [checkModelValid_eq (fun r => r.containmentSplitImmDnAttributes) fun _ _ => rfl]
    exact (congrArg SplitNotes.splits hnotes).trans (notes_splits _)
  rw [Query.answer, hsplits, MOMRootRepository.isSplitImmDn, lookup_splitsOf, Denied, Answer.flag.injEq]
  cases latest (splitKey name) (recorded M fuel).reverse with
  | none => simp
  | some x =>
    obtain ⟨k, past⟩ := x
    simp

theorem answer_isSplitImmDnValid_iff (hpopulate : Populate_V4 M (fuel + 1) {} = some r) (name : String) :
    (Query.isSplitImmDnValid name).answer r = .flag true ↔
      ¬ Denied M (recorded M fuel) (.isSplitImmDnValid name) := by
  have hstored : (Query.isSplitImmDnValid name).answer r = .flag true ↔ ¬ r.MarksInvalid (splitKey name) := by
    rw [Query.answer, Answer.flag.injEq, storedValid, MarksInvalid]
    cases SortedMap.get? (splitKey name) r.splitImmDnAttributes with
    | none => simp
    | some a => simp
  rw [hstored, Denied, not_iff_not]
  cases hlatest : latest (splitKey name) (recorded M fuel).reverse with
  | none =>
    refine iff_of_false ?_ nofun
    obtain ⟨t, rfl, hnotes⟩ := Populate_V4_notes hpopulate
    have hattributes : t.splitImmDnAttributes = (notes M (recorded M fuel).reverse).attributes :=
      congrArg SplitNotes.attributes hnotes
    rw [checkModelValid_marksInvalid, hattributes]
    rcases get?_notes (M := M) (splitKey name) (recorded M fuel).reverse with ⟨hnone, -⟩ | ⟨k, _, _, hlast, -⟩
    · rintro ⟨a, ha, -⟩
      rw [hnone] at ha
      cases ha
    · rw [hlatest] at hlast
      cases hlast
  | some x =>
    obtain ⟨k, past⟩ := x
    have hname := (latest_name hlatest).1
    rw [← hname] at hlatest ⊢
    rw [Populate_V4_marksInvalid hpopulate hlatest]
    simp

theorem firstAnswer_eq_iff (hpopulate : Populate_V4 M (fuel + 1) {} = some r) (q : Query) :
    q.firstAnswer r = q.answer r ↔ ¬ Denied M (recorded M fuel) q := by
  cases q with
  | isSplitImmDn name =>
    rw [← answer_isSplitImmDn_iff hpopulate]
    exact eq_comm
  | isSplitImmDnValid name =>
    rw [← answer_isSplitImmDnValid_iff hpopulate]
    exact eq_comm
  | IsRoot | IsSingletonRoot | Find | GetRootSiblingList => exact iff_of_true rfl not_false

/-- A process that populates on demand is answered as if the repository had been populated beforehand, unless its
first query is one that looks its entry up too early and the model says no to it. -/
theorem lazyPopulation_iff (hpopulate : Populate_V4 M (fuel + 1) {} = some r) (qs : List Query) :
    ∃ expected, answers (fun r => Populate_V4 M (fuel + 1) r) qs r = some expected ∧
      (answers (fun r => Populate_V4 M (fuel + 1) r) qs {} = some expected ↔
        ∀ q ∈ qs.head?, ¬ Denied M (recorded M fuel) q) := by
  have hr := populate_again hpopulate
  refine ⟨qs.map fun q => q.answer r, answers_populated hr qs, ?_⟩
  cases qs with
  | nil => exact iff_of_true rfl nofun
  | cons q qs =>
    rw [answers, q.ask_fresh hpopulate hr, Option.bind_eq_bind, Option.bind_some]
    dsimp only
    rw [answers_populated hr, List.head?_cons]
    simp only [Option.bind_eq_bind, Option.bind_some, Option.some_inj, List.map_cons, List.cons.injEq, and_true,
      Option.mem_def, forall_eq', firstAnswer_eq_iff hpopulate]

theorem lazyPopulation_iff_sharedName :
    ∃ r, Populate_V4 sharedName 6 {} = some r ∧ ∃ expected,
      answers (fun r => Populate_V4 sharedName 6 r) [.isSplitImmDn "ManagedElement_to_A"] r = some expected ∧
        (answers (fun r => Populate_V4 sharedName 6 r) [.isSplitImmDn "ManagedElement_to_A"] {} = some expected ↔
          ∀ q ∈ [Query.isSplitImmDn "ManagedElement_to_A"].head?, ¬ Denied sharedName (recorded sharedName 5)
            q) := by
  obtain ⟨r, hr⟩ := Option.isSome_iff_exists.mp (by decide : (Populate_V4 sharedName 6 {}).isSome = true)
  exact ⟨r, hr, lazyPopulation_iff hr [.isSplitImmDn "ManagedElement_to_A"]⟩

/-- The containment of `A` in the top does not split the DN; the first time that is asked the answer is yes. -/
theorem not_lazyPopulation :
    ¬ ∀ (M : Model) (fuel : Nat) (r : RootRepository), Populate_V4 M (fuel + 1) {} = some r → ∀ qs : List Query,
      answers (fun r => Populate_V4 M (fuel + 1) r) qs {} = answers (fun r => Populate_V4 M (fuel + 1) r) qs r := by
  intro h
  obtain ⟨r, hr⟩ := Option.isSome_iff_exists.mp (by decide : (Populate_V4 sharedName 6 {}).isSome = true)
  have hfirst : answers (fun r => Populate_V4 sharedName 6 r) [.isSplitImmDn "ManagedElement_to_A"] {} =
      some [.flag true] := by decide
  have hlater : (Populate_V4 sharedName 6 {}).bind
      (answers (fun r => Populate_V4 sharedName 6 r) [.isSplitImmDn "ManagedElement_to_A"]) =
        some [.flag false] := by decide
  rw [hr, Option.bind_some, ← h sharedName 5 r hr, hfirst] at hlater
  cases hlater

end

end ComSA.Translator
