import ComSA.Lib.Cut
import ComSA.Lib.Fuel
import ComSA.Motransaction.ComMoc
import ComSA.Motransaction.PopulateEnds

/-!
# What the search for a class finds

The search ends, and it finds the class that the names lead to from the one class that matches the last root of the DN.
Where no class matches nothing is written.
-/

namespace ComSA.Translator

open Relation

namespace ComModel

variable {M : ComModel} {mo_name : List String} {parentName className : String} {fuel : Nat} {h c : MocHandle}
  {out out' : Option MocAndMom}

/-! ## The walk down from a root class -/

def Follows (M : ComModel) : MocHandle → List String → MocHandle → Prop
  | h, [], h' => h = h'
  | h, name :: names, h' =>
    ∃ k ∈ M.childContainments h, M.className k.childMoc = convertDnToClass name ∧ M.Follows k.childMoc names h'

def DistinctSiblings (M : ComModel) : Prop :=
  ∀ h, ∀ k ∈ M.childContainments h, ∀ k' ∈ M.childContainments h, M.className k.childMoc = M.className k'.childMoc →
    k.childMoc = k'.childMoc

theorem findChild_some {name : String} {k : Containment} (hk : M.findChild h name = some k) :
    k ∈ M.childContainments h ∧ M.className k.childMoc = convertDnToClass name :=
  ⟨List.mem_of_find?_eq_some hk, by simpa using List.find?_some hk⟩

theorem findChild_none {name : String} (hk : M.findChild h name = none) :
    ∀ k ∈ M.childContainments h, M.className k.childMoc ≠ convertDnToClass name := by
  intro k hmem
  simpa using List.find?_eq_none.mp hk k hmem

theorem chew_iff (hM : M.DistinctSiblings) {name : String} {names : List String} {h' : MocHandle} :
    (M.chew h name names).theMoc = some h' ↔ M.Follows h (name :: names) h' := by
  induction names generalizing h name with
  | nil =>
    unfold chew
    cases hfind : M.findChild h name with
    | none =>
      refine iff_of_false (Option.some_ne_none _).symm ?_
      rintro ⟨k, hk, hname, -⟩
      exact findChild_none hfind k hk hname
    | some k =>
      obtain ⟨hk, hname⟩ := findChild_some hfind
      constructor
      · intro hfound
        exact ⟨k, hk, hname, Option.some.inj hfound⟩
      · rintro ⟨k', hk', hname', rfl⟩
        exact congrArg some (hM h k hk k' hk' (hname.trans hname'.symm))
  | cons next names ih =>
    unfold chew
    cases hfind : M.findChild h name with
    | none =>
      refine iff_of_false (Option.some_ne_none _).symm ?_
      rintro ⟨k, hk, hname, -⟩
      exact findChild_none hfind k hk hname
    | some k =>
      obtain ⟨hk, hname⟩ := findChild_some hfind
      refine ih.trans ⟨fun hfollows => ⟨k, hk, hname, hfollows⟩, ?_⟩
      rintro ⟨k', hk', hname', hfollows⟩
      rw [hM h k hk k' hk' (hname.trans hname'.symm)]
      exact hfollows

theorem fromRoot_iff (hM : M.DistinctSiblings) {names : List String} {h' : MocHandle} :
    (M.fromRoot h names).theMoc = some h' ↔ M.Follows h names h' := by
  cases names with
  | nil => exact Option.some_inj
  | cons name names =>
    rw [fromRoot]
    split <;> rename_i hchildren
    · refine iff_of_false (Option.some_ne_none _).symm ?_
      rintro ⟨k, hk, -⟩
      rw [hchildren] at hk
      cases hk
    · exact chew_iff hM

/-! ## The search -/

theorem loopRootClasses_writes {Q : MocAndMom → Prop}
    (hQ : ∀ d, M.Below h d → M.Matches parentName className d → Q (M.fromRoot d (behind className mo_name)))
    (hout : ∀ x ∈ out, Q x)
    (hloop : M.GetComMocAndMom_loopRootClasses mo_name parentName className fuel h out = some out') :
    ∀ x ∈ out', Q x := by
  induction fuel generalizing h out out' with
  | zero => cases hloop
  | succ fuel ih =>
    rw [GetComMocAndMom_loopRootClasses] at hloop
    split at hloop <;> rename_i hmatch
    · obtain rfl := Option.some.inj hloop
      intro x hx
      obtain rfl := Option.some.inj hx
      exact hQ h .refl hmatch
    · refine foldlM_keeps (I := fun out => ∀ x ∈ out, Q x) (fun k hk s s' hs hstep => ?_) hout hloop
      split at hstep
      · exact ih (fun d hd => hQ d (.head ⟨k, hk, rfl⟩ hd)) hs hstep
      · obtain rfl := Option.some.inj hstep
        exact hs

theorem loopRootClasses_stays_written (hout : out ≠ none)
    (hloop : M.GetComMocAndMom_loopRootClasses mo_name parentName className fuel h out = some out') : out' ≠ none := by
  induction fuel generalizing h out out' with
  | zero => cases hloop
  | succ fuel ih =>
    rw [GetComMocAndMom_loopRootClasses] at hloop
    split at hloop
    · obtain rfl := Option.some.inj hloop
      exact Option.some_ne_none _
    · refine foldlM_keeps (I := (· ≠ none)) (fun k hk s s' hs hstep => ?_) hout hloop
      split at hstep
      · exact ih hs hstep
      · obtain rfl := Option.some.inj hstep
        exact hs

theorem loopRootClasses_reaches (hc : M.Below h c) (hmatch : M.Matches parentName className c)
    (hloop : M.GetComMocAndMom_loopRootClasses mo_name parentName className fuel h out = some out') : out' ≠ none := by
  induction hc using ReflTransGen.head_induction_on generalizing fuel out out' with
  | refl =>
    cases fuel with
    | zero => cases hloop
    | succ fuel =>
      rw [GetComMocAndMom_loopRootClasses, if_pos hmatch] at hloop
      obtain rfl := Option.some.inj hloop
      exact Option.some_ne_none _
  | @head a b hab _ ih =>
    obtain ⟨k, hk, rfl⟩ := hab
    by_cases hself : k.childMoc = a
    · rw [hself] at ih
      exact ih hloop
    cases fuel with
    | zero => cases hloop
    | succ fuel =>
      rw [GetComMocAndMom_loopRootClasses] at hloop
      split at hloop
      · obtain rfl := Option.some.inj hloop
        exact Option.some_ne_none _
      · refine foldlM_reaches (I := fun _ => True) (P := (· ≠ none)) hk (fun _ _ _ _ _ _ => trivial)
          (fun s s' _ hstep => ?_) (fun j hj s s' _ hs hstep => ?_) trivial hloop
        · rw [if_pos hself] at hstep
          exact ih hstep
        · split at hstep
          · exact loopRootClasses_stays_written hs hstep
          · obtain rfl := Option.some.inj hstep
            exact hs

theorem loopRootClasses_ends (hM : M.OnlySelfCycles) (mo_name : List String) (parentName className : String)
    (h : MocHandle) :
    Enough fun fuel => ∀ out, ∃ out', M.GetComMocAndMom_loopRootClasses mo_name parentName className fuel h out =
      some out' := by
  induction h using hM.wellFounded_down.induction with
  | h h ih =>
    have hchildren : ∀ k ∈ M.childContainments h, Enough fun fuel => k.childMoc ≠ h → ∀ out, ∃ out',
        M.GetComMocAndMom_loopRootClasses mo_name parentName className fuel k.childMoc out = some out' := by
      intro k hk
      by_cases hself : k.childMoc = h
      · exact .of_forall fun _ hne => absurd hself hne
      · exact (ih k.childMoc ⟨Ne.symm hself, k, hk, rfl⟩).mono fun _ hends _ => hends
    refine (Enough.all_of_mem hchildren).mono (fun fuel hfuel => ?_) |>.succ
    intro out
    rw [GetComMocAndMom_loopRootClasses]
    split
    · exact ⟨_, rfl⟩
    · refine (foldlM_ends (I := fun _ => True) (fun k hk out _ => ?_) trivial).imp fun _ h => h.1
      split <;> rename_i hself
      · obtain ⟨out', hout'⟩ := hfuel k hk hself out
        exact ⟨out', hout', trivial⟩
      · exact ⟨out, rfl, trivial⟩

theorem unwritten_iff_unmatched
    (hloop : M.GetComMocAndMom_loopRootClasses mo_name parentName className fuel M.root none = some out') :
    out' = none ↔ ∀ c, M.IsClass c → ¬ M.Matches parentName className c := by
  constructor
  · rintro rfl c hc hmatch
    exact loopRootClasses_reaches hc hmatch hloop rfl
  · intro hno
    rcases hout : out' with - | x
    · rfl
    · exact absurd rfl (loopRootClasses_writes (Q := (· ≠ x)) (fun d hd hmatch => absurd hmatch (hno d hd))
        (by simp) hloop x hout)

theorem loopRootClasses_unique (hc : M.IsClass c) (hmatch : M.Matches parentName className c)
    (hunique : ∀ d, M.IsClass d → M.Matches parentName className d → d = c)
    (hloop : M.GetComMocAndMom_loopRootClasses mo_name parentName className fuel M.root none = some out') :
    out' = some (M.fromRoot c (behind className mo_name)) := by
  obtain ⟨x, hx⟩ := Option.ne_none_iff_exists'.mp (loopRootClasses_reaches hc hmatch hloop)
  have hwritten := loopRootClasses_writes (Q := (· = M.fromRoot c (behind className mo_name)))
    (fun d hd hmatch => by rw [hunique d hd hmatch]) (by simp) hloop x hx
  rw [hx, hwritten]

/-! ## The last root -/

/-- The two names start a DN of their own in IMM, as a repository that is populated says. -/
def RootIn (r : MOMRootRepository) (name parent : String) : Prop :=
  name.toList.head? ≠ some '=' ∧ (r.myMOMRootMap.lookup (MOMRootRepository.rootKey name parent)).isSome

instance (r : MOMRootRepository) (name parent : String) : Decidable (RootIn r name parent) :=
  inferInstanceAs (Decidable (_ ∧ _))

def NoRoot (r : MOMRootRepository) : String → List String → Prop
  | _, [] => True
  | parent, name :: names => ¬ RootIn r name parent ∧ NoRoot r name names

theorem IsRoot_populated {r : MOMRootRepository} (hr : r.myMOMRootMap ≠ []) (M : Model) (fuel : Nat)
    (name parent : String) : r.IsRoot M fuel name parent = some (decide (RootIn r name parent)) := by
  unfold MOMRootRepository.IsRoot RootIn
  rw [if_neg hr]
  by_cases hstruct : name.toList.head? = some '='
  · simp [hstruct]
  · simp only [hstruct, if_false, ne_eq, not_false_eq_true, true_and, Bool.decide_eq_true]
    rfl

section LastRoot

variable {r : MOMRootRepository} {isRoot : String → String → Option Bool} {parent name : String}
  {found : Option (String × String)} {before names rest : List String}

theorem lastRoot_append (hroot : ∀ name parent, isRoot name parent = some (decide (RootIn r name parent)))
    (before names : List String) : ∃ found', lastRoot isRoot parent found (before ++ names) =
      lastRoot isRoot (before.getLastD parent) found' names := by
  induction before generalizing parent found with
  | nil => exact ⟨found, rfl⟩
  | cons first before ih =>
    rw [List.cons_append, lastRoot, hroot, List.getLastD_cons]
    exact ih

theorem lastRoot_noRoot (hroot : ∀ name parent, isRoot name parent = some (decide (RootIn r name parent)))
    (hnames : NoRoot r parent names) : lastRoot isRoot parent found names = some found := by
  induction names generalizing parent with
  | nil => rfl
  | cons name names ih =>
    rw [lastRoot, hroot, decide_eq_false hnames.1]
    exact ih hnames.2

theorem lastRoot_eq (hroot : ∀ name parent, isRoot name parent = some (decide (RootIn r name parent)))
    (hname : RootIn r name (before.getLastD parent)) (hrest : NoRoot r name rest) :
    lastRoot isRoot parent found (before ++ name :: rest) = some (some (name, before.getLastD parent)) := by
  obtain ⟨found', hfound⟩ := lastRoot_append hroot before (name :: rest)
  rw [hfound, lastRoot, hroot, decide_eq_true hname]
  exact lastRoot_noRoot hroot hrest

theorem behind_eq (hbefore : ∀ n ∈ before, convertDnToClass n ≠ convertDnToClass name) :
    behind (convertDnToClass name) (before ++ name :: rest) = rest := by
  have hdrop : ∀ n ∈ before, decide (convertDnToClass n ≠ convertDnToClass name) = true := by
    intro n hn
    exact decide_eq_true (hbefore n hn)
  unfold behind
  rw [List.dropWhile_append_of_pos hdrop]
  simp

end LastRoot

/-! ## What is stored as a root is found -/

theorem exists_class_of_contribution {fuel : Nat} {x : String × String}
    (hx : x ∈ contributions M.toModel (visits M.toModel fuel h)) :
    ∃ c, M.Below h c ∧ (M.moc c).name = x.2 ∧
      ∃ k ∈ M.parentContainments c, (M.moc k.parentMoc).name = x.1 ∧
        M.sameMom_V4 k.parentMoc (M.momOf c).name = false := by
  induction fuel generalizing h with
  | zero => cases hx
  | succ fuel ih =>
    obtain ⟨v, hv, hvx⟩ := List.mem_filterMap.mp hx
    rw [visits, List.mem_append, List.mem_flatMap] at hv
    rcases hv with hv | ⟨k, hk, hv⟩
    · unfold visitsOf at hv
      split at hv
      · split at hv
        · rw [List.mem_singleton.mp hv] at hvx
          cases hvx
        · obtain ⟨k, hk, rfl⟩ := List.mem_map.mp hv
          rw [Visit.contribution] at hvx
          split at hvx <;> rename_i hmom
          · cases hvx
          · obtain rfl := Option.some.inj hvx
            exact ⟨h, .refl, rfl, k, hk, rfl, by simpa using hmom⟩
      · cases hv
    · split at hv
      · obtain ⟨c, hc, hclass⟩ := ih (List.mem_filterMap.mpr ⟨v, hv, hvx⟩)
        exact ⟨c, .head ⟨k, hk, rfl⟩ hc, hclass⟩
      · cases hv

theorem trimmed_plain (s : String) : '=' ∉ (trimmed s).toList ∧ '.' ∉ (trimmed s).toList := by
  unfold trimmed
  rw [String.toList_ofList]
  exact ⟨fun hmem => notMem_takeWhile '=' s.toList ((List.takeWhile_sublist _).mem hmem), notMem_takeWhile '.' _⟩

theorem trimmed_trimmed (s : String) : trimmed (trimmed s) = trimmed s := by
  rw [trimmed, takeWhile_of_notMem (trimmed_plain s).1, takeWhile_of_notMem (trimmed_plain s).2, String.ofList_toList]

theorem afterDot_of_plain {s : String} (hdot : '.' ∉ s.toList) : afterDot s = s := by
  unfold afterDot
  rw [dropWhile_of_notMem hdot]

theorem exists_matches {parent child : String} (hparent : parent ≠ "") (hchild : '.' ∉ child.toList) {fuel : Nat}
    (hx : (parent, child) ∈ contributions M.toModel (visits M.toModel fuel M.root)) :
    ∃ c, M.IsClass c ∧ M.Matches parent child c := by
  obtain ⟨c, hc, rfl, k, hk, rfl, hmom⟩ := exists_class_of_contribution hx
  have hin : (M.moc k.parentMoc).name ∈ M.getParentName c :=
    List.mem_filter.mpr ⟨List.mem_map.mpr ⟨k, hk, rfl⟩, decide_eq_true hparent⟩
  refine ⟨c, hc, ?_, afterDot_of_plain hchild, ?_⟩
  · rw [IsMocChildofEcimContribution_V1, Bool.or_eq_true, List.any_eq_true]
    exact Or.inr ⟨k, hk, by simpa [Model.sameMom_V4] using hmom⟩
  · unfold theMocParentList
    rw [if_neg (List.ne_nil_of_mem hin)]
    exact hin

instance (M : Model) (vs : List Visit) (parent child : String) : Decidable (Clash M vs parent child) := by
  unfold Clash
  infer_instance

/-! ## The fault management model -/

def faultContainments : List Containment :=
  [⟨"ManagedElement_to_SystemFunctions", 0, 1, none⟩, ⟨"SystemFunctions_to_Fm", 1, 2, none⟩,
    ⟨"Fm_to_FmAlarmModel", 2, 3, none⟩, ⟨"Fm_to_FmAlarm", 2, 4, none⟩]

def faultModel : ComModel where
  toModel := .ofContainments 0
    (fun h => match h with
      | 0 => ⟨"ManagedElement", 0, true, some "managedElementId"⟩
      | 1 => ⟨"SystemFunctions", 0, false, some "systemFunctionsId"⟩
      | 2 => ⟨"Fm", 1, false, some "fmId"⟩
      | 3 => ⟨"FmAlarmModel", 1, false, some "fmAlarmModelId"⟩
      | _ => ⟨"FmAlarm", 1, false, some "fmAlarmId"⟩)
    (fun h => match h with
      | 0 => ⟨"ECIM_Top", none⟩
      | _ => ⟨"ECIM_FM", none⟩)
    faultContainments
  containmentMom k := if k.childMoc ≤ 1 then 0 else 1

def faultRepository : MOMRootRepository where
  myMOMRootMap := [("ManagedElement", []), ("Fm", ["SystemFunctions", "ManagedElement"]),
    ("SystemFunctionsFm", ["SystemFunctions", "ManagedElement"])]
  containmentSplitImmDnAttributes := [("ManagedElement_to_SystemFunctions", false), ("SystemFunctions_to_Fm", true)]

theorem faultModel_onlySelfCycles : faultModel.OnlySelfCycles := Model.OnlySelfCycles.ofContainments (by decide)

theorem faultModel_siblings : faultModel.DistinctSiblings := by
  have hall : ∀ k ∈ faultContainments, ∀ k' ∈ faultContainments, k.parentMoc = k'.parentMoc →
      faultModel.className k.childMoc = faultModel.className k'.childMoc → k.childMoc = k'.childMoc := by decide
  intro h k hk k' hk' hname
  obtain ⟨hmem, hparent⟩ := List.mem_filter.mp hk
  obtain ⟨hmem', hparent'⟩ := List.mem_filter.mp hk'
  exact hall k hmem k' hmem' ((of_decide_eq_true hparent).trans (of_decide_eq_true hparent').symm) hname

/-! ## The class of a DN -/

section Dn

variable (r : MOMRootRepository) (before : List String) (name : String) (rest : List String)

theorem GetComMocAndMom_eq (hr : r.myMOMRootMap ≠ []) (hname : RootIn r name (before.getLastD ""))
    (hrest : NoRoot r name rest) (fuel : Nat) :
    M.GetComMocAndMom fuel r (before ++ name :: rest) =
      M.GetComMocAndMom_loopRootClasses (before ++ name :: rest) (convertDnToClass (before.getLastD ""))
        (convertDnToClass name) fuel M.root none := by
  unfold GetComMocAndMom
  rw [lastRoot_eq (IsRoot_populated hr M.toModel fuel) hname hrest]
  rfl

/-- Where one class matches the last root of the DN, the class that is found is the one that the names behind it
lead to, and `NULL` where they lead to none. -/
theorem GetComMoc_iff (hM : M.OnlySelfCycles) (hsiblings : M.DistinctSiblings) (hr : r.myMOMRootMap ≠ [])
    (hname : RootIn r name (before.getLastD "")) (hrest : NoRoot r name rest)
    (hbefore : ∀ n ∈ before, convertDnToClass n ≠ convertDnToClass name) (hc : M.IsClass c)
    (hmatch : M.Matches (convertDnToClass (before.getLastD "")) (convertDnToClass name) c)
    (hunique : ∀ d, M.IsClass d → M.Matches (convertDnToClass (before.getLastD "")) (convertDnToClass name) d →
      d = c) :
    Enough fun fuel => ∃ found, M.GetComMoc fuel r (before ++ name :: rest) = some (some found) ∧
      ∀ h, found = some h ↔ M.Follows c rest h := by
  refine (loopRootClasses_ends hM (before ++ name :: rest) (convertDnToClass (before.getLastD ""))
    (convertDnToClass name) M.root).mono fun fuel hends => ?_
  obtain ⟨out, hloop⟩ := hends none
  have hfound := loopRootClasses_unique hc hmatch hunique hloop
  rw [behind_eq hbefore] at hfound
  refine ⟨(M.fromRoot c rest).theMoc, ?_, fun h => fromRoot_iff hsiblings⟩
  rw [GetComMoc, GetComMocAndMom_eq r before name rest hr hname hrest, hloop, hfound]
  rfl

/-- An alarm below `Fm`. -/
theorem GetComMoc_iff_alarm :
    Enough fun fuel => faultModel.GetComMoc fuel faultRepository
      ["ManagedElement=1", "SystemFunctions=1", "Fm=1", "FmAlarm=7"] = some (some (some 4)) := by
  refine (GetComMoc_iff (M := faultModel) (c := 2) faultRepository ["ManagedElement=1", "SystemFunctions=1"] "Fm=1"
    ["FmAlarm=7"] faultModel_onlySelfCycles faultModel_siblings (by decide) (by decide) ⟨by decide, trivial⟩
    (by decide) ?_ (by decide) ?_).mono fun fuel hfuel => ?_
  · exact .tail (.single ⟨⟨"ManagedElement_to_SystemFunctions", 0, 1, none⟩, by decide, rfl⟩)
      ⟨⟨"SystemFunctions_to_Fm", 1, 2, none⟩, by decide, rfl⟩
  · rintro (_ | _ | _ | _ | d) _ hmatch
    · exact absurd hmatch (by decide)
    · exact absurd hmatch (by decide)
    · rfl
    · exact absurd hmatch (by decide)
    · exact absurd (show afterDot "FmAlarm" = convertDnToClass "Fm=1" from hmatch.2.1) (by decide)
  · obtain ⟨found, hfound, hiff⟩ := hfuel
    have hfollows : faultModel.Follows 2 ["FmAlarm=7"] 4 :=
      ⟨⟨"Fm_to_FmAlarm", 2, 4, none⟩, by decide, by decide, rfl⟩
    rw [(hiff 4).mpr hfollows] at hfound
    exact hfound

/-- The pointer that is returned is not initialised exactly where no class matches the last root. -/
theorem GetComMoc_uninitialised_iff (hM : M.OnlySelfCycles) (hr : r.myMOMRootMap ≠ [])
    (hname : RootIn r name (before.getLastD "")) (hrest : NoRoot r name rest) :
    Enough fun fuel => (∃ out, M.GetComMoc fuel r (before ++ name :: rest) = some out) ∧
      (M.GetComMoc fuel r (before ++ name :: rest) = some none ↔
        ∀ c, M.IsClass c → ¬ M.Matches (convertDnToClass (before.getLastD "")) (convertDnToClass name) c) := by
  refine (loopRootClasses_ends hM (before ++ name :: rest) (convertDnToClass (before.getLastD ""))
    (convertDnToClass name) M.root).mono fun fuel hends => ?_
  obtain ⟨out, hloop⟩ := hends none
  have heq : M.GetComMoc fuel r (before ++ name :: rest) = some (out.map MocAndMom.theMoc) := by
    rw [GetComMoc, GetComMocAndMom_eq r before name rest hr hname hrest, hloop]
    rfl
  refine ⟨⟨_, heq⟩, ?_⟩
  rw [heq, ← unwritten_iff_unmatched hloop, Option.some_inj, Option.map_eq_none_iff]

theorem joined_same_mom (c : MocHandle) :
    (⟨joined, fun _ => 0⟩ : ComModel).IsMocChildofEcimContribution_V1 (c + 4) ≠ true := by
  intro hcontribution
  rw [IsMocChildofEcimContribution_V1, Bool.or_eq_true, List.any_eq_true] at hcontribution
  rcases hcontribution with hroot | ⟨k, hk, hmom⟩
  · cases hroot
  · obtain ⟨hmem, hchild⟩ := List.mem_filter.mp hk
    have hchild := of_decide_eq_true hchild
    simp only [List.mem_cons, List.not_mem_nil, or_false] at hmem
    rcases hmem with rfl | rfl | rfl | rfl
    · cases hchild
    · cases hchild
    · cases hchild
    · obtain rfl : 0 = c := Nat.add_right_cancel (m := 4) hchild
      exact absurd hmom (by decide)

/-- `C` is taken for a root below `AB`, since `BC` is one below `A`. -/
theorem GetComMoc_uninitialised_iff_joined :
    Enough fun fuel => (⟨joined, fun _ => 0⟩ : ComModel).GetComMoc fuel joinedRepository
      ["ManagedElement=1", "AB=1", "C=1"] = some none := by
  refine (GetComMoc_uninitialised_iff (M := ⟨joined, fun _ => 0⟩) joinedRepository ["ManagedElement=1", "AB=1"] "C=1" []
    (Model.OnlySelfCycles.ofContainments (by decide)) (by decide) (by decide) trivial).mono fun fuel hfuel =>
      hfuel.2.mpr ?_
  rintro (_ | _ | _ | _ | c) _ hmatch
  · exact absurd hmatch (by decide)
  · exact absurd hmatch (by decide)
  · exact absurd hmatch (by decide)
  · exact absurd hmatch (by decide)
  · exact joined_same_mom c hmatch.1

/-- A root that is stored as the contribution that it is, and that nothing else is taken for, is always found. -/
theorem GetComMoc_initialised (populated : Nat) (hM : M.OnlySelfCycles)
    (hpopulate : MOMRootRepository.Populate_V4 M.toModel populated {} = some r) (hr : r.myMOMRootMap ≠ [])
    (hname : RootIn r name (before.getLastD "")) (hrest : NoRoot r name rest)
    (hparent : convertDnToClass (before.getLastD "") ≠ "")
    (hclash : ¬ Clash M.toModel (visits M.toModel populated M.root) (convertDnToClass (before.getLastD ""))
      (convertDnToClass name)) :
    Enough fun fuel => ∃ found, M.GetComMoc fuel r (before ++ name :: rest) = some (some found) := by
  refine (loopRootClasses_ends hM (before ++ name :: rest) (convertDnToClass (before.getLastD ""))
    (convertDnToClass name) M.root).mono fun fuel hends => ?_
  obtain ⟨out, hloop⟩ := hends none
  have hkey : MOMRootRepository.rootKey (convertDnToClass name) (convertDnToClass (before.getLastD "")) ∈ names r := by
    rw [names, ← lookup_isSome_iff, MOMRootRepository.rootKey, trimmed_trimmed, trimmed_trimmed]
    exact hname.2
  have hstored := ((mem_names_iff hpopulate _ _).mp hkey).resolve_right hclash
  obtain ⟨c, hc, hmatch⟩ := exists_matches hparent (trimmed_plain name).2 hstored.1
  obtain ⟨x, rfl⟩ := Option.ne_none_iff_exists'.mp (loopRootClasses_reaches hc hmatch hloop)
  refine ⟨x.theMoc, ?_⟩
  rw [GetComMoc, GetComMocAndMom_eq r before name rest hr hname hrest, hloop]
  rfl

/-- `Fm` below the system functions. -/
theorem GetComMoc_initialised_fm :
    Enough fun fuel => ∃ found, faultModel.GetComMoc fuel faultRepository
      ["ManagedElement=1", "SystemFunctions=1", "Fm=1"] = some (some found) :=
  GetComMoc_initialised (M := faultModel) faultRepository ["ManagedElement=1", "SystemFunctions=1"] "Fm=1" [] 6
    faultModel_onlySelfCycles (by decide) (by decide) (by decide) trivial (by decide) (by decide)

end Dn

end ComModel

end ComSA.Translator
