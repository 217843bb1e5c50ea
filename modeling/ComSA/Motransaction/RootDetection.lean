import ComSA.Lib.PartialFold
import ComSA.Motransaction.MOMRootRepository

/-!
# Which pairs of names are roots

What `Populate_V4` stores depends on the model alone. From that: when `IsRoot` says yes
for the contributions of the model and for nothing else.
-/

namespace ComSA.Translator

open MOMRootRepository

def Contribution (M : Model) (parent child : String) : Prop :=
  ∃ h, ∃ k ∈ M.parentContainments h, (M.moc h).name = child ∧ (M.moc k.parentMoc).name = parent ∧
    (M.moc k.parentMoc).mom ≠ (M.moc h).mom

/-! ## The walk over the model -/

/-- A class that something is stored for, and the containments from it up to the top. -/
inductive Visit where
  | top (moc : MocHandle)
  | under (moc : MocHandle) (containment : Containment) (above : List Containment)

def chain (M : Model) : Nat → Containment → List Containment
  | 0, _ => []
  | fuel + 1, k =>
    k :: match (M.parentContainments k.parentMoc).head? with
      | none => []
      | some next => chain M fuel next

def visitsOf (M : Model) (fuel : Nat) (h : MocHandle) : List Visit :=
  if M.IsMocChildofEcimContribution_V4 h && (M.moc h).keyAttribute.isSome then
    match M.parentContainments h with
    | [] => [.top h]
    | ks => ks.map fun k => .under h k (chain M fuel k).tail
  else
    []

/-- The classes in the order they are come by. -/
def visits (M : Model) : Nat → MocHandle → List Visit
  | 0, _ => []
  | fuel + 1, h =>
    visitsOf M fuel h ++
      (M.childContainments h).flatMap fun k => if h ≠ k.childMoc then visits M fuel k.childMoc else []

def noted (M : Model) (attributes : List (String × Bool)) (ks : List Containment) : List (String × Bool) :=
  ks.foldl (fun l k => (k.name, splitValue M k) :: l) attributes

namespace Visit

variable (M : Model)

def split (attributes : List (String × Bool)) : Visit → List (String × Bool)
  | top _ => attributes
  | under _ k ks => noted M attributes (k :: ks)

def entry : Visit → MOMRootDataEntry
  | top _ => []
  | under _ k ks => (k :: ks).map fun k => afterDot (M.moc k.parentMoc).name

def moc : Visit → MocHandle
  | top h | under h _ _ => h

/-- The class's own name, as it is stored: plain, or with the MOM's name where the DN is split. -/
def ownName (attributes : List (String × Bool)) : Visit → Option String
  | top h => some (M.moc h).name
  | under h k ks =>
    if (M.momOf h).immNamespace = some DN_VALUE_MOM_NAME then
      if isSplitImmDn (afterDot (M.moc k.parentMoc).name ++ CONTAINMENT_SEPARATOR ++ (M.moc h).name)
          ((under h k ks).split M attributes) then
        some ((M.momOf h).name ++ (M.moc h).name)
      else
        none
    else
      some (M.moc h).name

def contribution : Visit → Option (String × String)
  | top _ => none
  | under h k _ =>
    if M.sameMom_V4 k.parentMoc (M.momOf h).name then none
    else some ((M.moc k.parentMoc).name, (M.moc h).name)

def run (r : MOMRootRepository) (v : Visit) : MOMRootRepository :=
  let own := v.ownName M r.containmentSplitImmDnAttributes
  let r := { r with containmentSplitImmDnAttributes := v.split M r.containmentSplitImmDnAttributes }
  let r := own.elim r fun name => r.insert name (v.entry M)
  (v.contribution M).elim r fun x => r.insert (afterDot x.1 ++ x.2) (v.entry M)

end Visit

section
variable {M : Model} {r r' : MOMRootRepository}

theorem loopContainmentClass_V4_eq {fuel : Nat} {k : Containment} {den den' : MOMRootDataEntry}
    (hloop : loopContainmentClass_V4 M fuel k den r = some (den', r')) :
    chain M fuel k = k :: (chain M fuel k).tail ∧
      den' = den ++ (chain M fuel k).map (fun k => afterDot (M.moc k.parentMoc).name) ∧
      r' = { r with
        containmentSplitImmDnAttributes := noted M r.containmentSplitImmDnAttributes (chain M fuel k) } := by
  induction fuel generalizing k den r with
  | zero => cases hloop
  | succ fuel ih =>
    refine ⟨rfl, ?_⟩
    rw [loopContainmentClass_V4] at hloop
    split at hloop
    · cases hloop
    · dsimp only at hloop
      cases hhead : (M.parentContainments k.parentMoc).head? with
      | none =>
        rw [hhead] at hloop
        cases hloop
        rw [chain, hhead]
        exact ⟨rfl, rfl⟩
      | some next =>
        rw [hhead] at hloop
        obtain ⟨_, hden, hr⟩ := ih hloop
        rw [chain, hhead]
        refine ⟨?_, hr⟩
        rw [hden, List.map_cons, List.append_assoc]
        rfl

theorem populateParent_eq {fuel : Nat} {h : MocHandle} {k : Containment}
    (hparent : populateParent M fuel h r k = some r') :
    r' = Visit.run M r (.under h k (chain M fuel k).tail) := by
  unfold populateParent at hparent
  obtain ⟨⟨entry, r₁⟩, hloop, hrest⟩ := Option.bind_eq_some_iff.mp hparent
  obtain ⟨hchain, hentry, hr₁⟩ := loopContainmentClass_V4_eq hloop
  rw [hchain] at hentry hr₁
  have hname : entry.GetParentName = afterDot (M.moc k.parentMoc).name := by
    rw [hentry]
    rfl
  have hown : (if (getDecoratedRootClasses_V4 M h entry r₁).1 then (getDecoratedRootClasses_V4 M h entry r₁).2
      else (getDecoratedRootClasses_V4 M h entry r₁).2.insert (M.moc h).name entry)
        = (Visit.ownName M r.containmentSplitImmDnAttributes (.under h k (chain M fuel k).tail)).elim r₁
          fun name => r₁.insert name entry := by
    have hownName : Visit.ownName M r.containmentSplitImmDnAttributes (.under h k (chain M fuel k).tail)
        = if (M.momOf h).immNamespace = some DN_VALUE_MOM_NAME then
            if isSplitImmDn (entry.GetParentName ++ CONTAINMENT_SEPARATOR ++ (M.moc h).name)
              r₁.containmentSplitImmDnAttributes then some ((M.momOf h).name ++ (M.moc h).name) else none
          else some (M.moc h).name := by
      rw [hname, hr₁]
      rfl
    unfold getDecoratedRootClasses_V4
    rw [hownName]
    split
    · split <;> rfl
    · rfl
  dsimp only at hrest
  rw [hown, hname] at hrest
  unfold Visit.run Visit.contribution
  subst hentry hr₁
  dsimp only
  split at hrest <;> rename_i hmom <;> simp only [hmom] <;> exact (Option.some.inj hrest).symm

theorem populateClass_eq {fuel : Nat} {h : MocHandle} (hclass : populateClass M fuel h r = some r') :
    r' = (visitsOf M fuel h).foldl (Visit.run M) r := by
  unfold populateClass at hclass
  unfold visitsOf
  split at hclass <;> rename_i hroot
  · rw [if_pos hroot]
    cases hparents : M.parentContainments h with
    | nil =>
      rw [hparents] at hclass
      exact (Option.some.inj hclass).symm
    | cons k ks =>
      rw [hparents] at hclass
      dsimp only at hclass ⊢
      rw [List.map_eq_flatMap]
      exact foldlM_eq_foldl (g := Visit.run M) (v := fun k => [Visit.under h k (chain M fuel k).tail])
        (fun s k s' _ hk => populateParent_eq hk) hclass
  · rw [if_neg hroot]
    exact (Option.some.inj hclass).symm

theorem Populate_loopRootClasses_V4_eq {fuel : Nat} {h : MocHandle}
    (hloop : Populate_loopRootClasses_V4 M fuel h r = some r') :
    r' = (visits M fuel h).foldl (Visit.run M) r := by
  induction fuel generalizing h r r' with
  | zero => cases hloop
  | succ fuel ih =>
    rw [Populate_loopRootClasses_V4] at hloop
    obtain ⟨r₁, hclass, hchildren⟩ := Option.bind_eq_some_iff.mp hloop
    rw [visits, List.foldl_append, ← populateClass_eq hclass]
    refine foldlM_eq_foldl (fun s k s' _ hk => ?_) hchildren
    split at hk <;> rename_i hne
    · rw [if_pos hne]
      exact ih hk
    · rw [if_neg hne]
      exact (Option.some.inj hk).symm

/-! ## The stored names -/

theorem lookup_isSome_iff {κ α : Type*} [DecidableEq κ] {l : List (κ × α)} {k : κ} :
    (l.lookup k).isSome ↔ k ∈ l.map Prod.fst := by
  induction l with
  | nil => simp
  | cons x l ih =>
    obtain ⟨j, a⟩ := x
    rw [List.lookup_cons, List.map_cons, List.mem_cons, ← ih]
    cases hk : k == j with
    | true => simpa using Or.inl (beq_iff_eq.mp hk)
    | false =>
      have := beq_eq_false_iff_ne.mp hk
      simp [this]

def names (r : MOMRootRepository) : List String := r.myMOMRootMap.map Prod.fst

theorem mem_names_insert {key name : String} {den : MOMRootDataEntry} :
    key ∈ names (r.insert name den) ↔ key = name ∨ key ∈ names r := by
  unfold MOMRootRepository.insert names
  split <;> rename_i hthere
  · have := lookup_isSome_iff.mp hthere
    constructor
    · exact Or.inr
    · rintro (rfl | h)
      · exact this
      · exact h
  · simp [or_comm]

theorem mem_names_run {v : Visit} {key : String} :
    key ∈ names (v.run M r) ↔ v.ownName M r.containmentSplitImmDnAttributes = some key ∨
      (∃ x, v.contribution M = some x ∧ afterDot x.1 ++ x.2 = key) ∨ key ∈ names r := by
  unfold Visit.run
  cases v.ownName M r.containmentSplitImmDnAttributes with
  | none =>
    cases v.contribution M with
    | none => simp [names]
    | some x =>
      simp only [Option.elim, mem_names_insert]
      simp [names, eq_comm]
  | some name =>
    cases v.contribution M with
    | none =>
      simp only [Option.elim, mem_names_insert]
      simp [names, eq_comm]
    | some x =>
      simp only [Option.elim, mem_names_insert]
      simp only [names, Option.some.injEq, exists_eq_left', eq_comm (a := key)]
      tauto

theorem split_insert (key : String) (den : MOMRootDataEntry) :
    (r.insert key den).containmentSplitImmDnAttributes = r.containmentSplitImmDnAttributes := by
  unfold MOMRootRepository.insert
  split <;> rfl

theorem split_run {v : Visit} : (v.run M r).containmentSplitImmDnAttributes
    = v.split M r.containmentSplitImmDnAttributes := by
  unfold Visit.run
  cases v.ownName M r.containmentSplitImmDnAttributes with
  | none => cases v.contribution M <;> simp [split_insert]
  | some name => cases v.contribution M <;> simp [split_insert]

end

/-- The classes' own names that are stored in the course of the visits. -/
def ownNames (M : Model) (attributes : List (String × Bool)) : List Visit → List String
  | [] => []
  | v :: vs => (v.ownName M attributes).toList ++ ownNames M (v.split M attributes) vs

def contributions (M : Model) (vs : List Visit) : List (String × String) :=
  vs.filterMap (Visit.contribution M)

section
variable {M : Model} {r r' : MOMRootRepository}

theorem mem_names_foldl {vs : List Visit} {key : String} :
    key ∈ names (vs.foldl (Visit.run M) r) ↔ key ∈ ownNames M r.containmentSplitImmDnAttributes vs ∨
      (∃ x ∈ contributions M vs, afterDot x.1 ++ x.2 = key) ∨ key ∈ names r := by
  induction vs generalizing r with
  | nil => simp [ownNames, contributions]
  | cons v vs ih =>
    rw [List.foldl_cons, ih, split_run, mem_names_run, ownNames, List.mem_append, Option.mem_toList,
      contributions, contributions, List.filterMap_cons]
    cases v.contribution M with
    | none =>
      simp only [reduceCtorEq, false_and, exists_false, false_or]
      grind
    | some x =>
      simp only [Option.some.injEq, exists_eq_left', List.mem_cons, exists_eq_or_imp]
      grind

theorem contribution_of_visitsOf {fuel : Nat} {h : MocHandle} {v : Visit} {x : String × String}
    (hv : v ∈ visitsOf M fuel h) (hx : v.contribution M = some x) : Contribution M x.1 x.2 := by
  unfold visitsOf at hv
  split at hv
  · split at hv
    · rw [List.mem_singleton.mp hv] at hx
      cases hx
    · obtain ⟨k, hk, rfl⟩ := List.mem_map.mp hv
      rw [Visit.contribution] at hx
      split at hx <;> rename_i hmom
      · cases hx
      · obtain rfl := Option.some.inj hx
        refine ⟨h, k, hk, rfl, rfl, fun hsame => hmom ?_⟩
        unfold Model.sameMom_V4 Model.momOf
        rw [hsame]
        exact beq_self_eq_true _
  · cases hv

theorem contribution_of_mem {fuel : Nat} {h : MocHandle} {x : String × String}
    (hx : x ∈ contributions M (visits M fuel h)) : Contribution M x.1 x.2 := by
  induction fuel generalizing h with
  | zero => cases hx
  | succ fuel ih =>
    obtain ⟨v, hv, hvx⟩ := List.mem_filterMap.mp hx
    rw [visits, List.mem_append, List.mem_flatMap] at hv
    rcases hv with hv | ⟨k, _, hv⟩
    · exact contribution_of_visitsOf hv hvx
    · split at hv
      · exact ih (List.mem_filterMap.mpr ⟨v, hv, hvx⟩)
      · cases hv

/-! ## An empty map -/

theorem insert_ne_nil (key : String) (den : MOMRootDataEntry) : (r.insert key den).myMOMRootMap ≠ [] := by
  intro h
  have : key ∈ names (r.insert key den) := mem_names_insert.mpr (Or.inl rfl)
  rw [names, h] at this
  cases this

theorem populateParent_ne_nil {fuel : Nat} {h : MocHandle} {k : Containment}
    (hparent : populateParent M fuel h r k = some r') : r'.myMOMRootMap ≠ [] := by
  have hr' := populateParent_eq hparent
  unfold populateParent at hparent
  obtain ⟨x, hloop, _⟩ := Option.bind_eq_some_iff.mp hparent
  have hr : r.myMOMRootMap ≠ [] := by
    intro hr
    cases fuel with
    | zero => cases hloop
    | succ fuel =>
      rw [loopContainmentClass_V4, if_pos hr] at hloop
      cases hloop
  obtain ⟨e, l, he⟩ := List.exists_cons_of_ne_nil hr
  intro hnil
  have : e.1 ∈ names r' := by
    rw [hr', mem_names_run]
    refine Or.inr (Or.inr ?_)
    rw [names, he]
    exact List.mem_cons_self
  rw [names, hnil] at this
  cases this

theorem populateClass_of_empty {fuel : Nat} {h : MocHandle} (hclass : populateClass M fuel h r = some r')
    (hempty : r'.myMOMRootMap = []) : r' = r := by
  unfold populateClass at hclass
  split at hclass
  · split at hclass
    · rw [← Option.some.inj hclass] at hempty
      exact (insert_ne_nil _ _ hempty).elim
    · exact foldlM_fixed (fun r => r.myMOMRootMap = [])
        (fun s k s' hk hs' => (populateParent_ne_nil hk hs').elim) hclass hempty
  · exact (Option.some.inj hclass).symm

theorem Populate_loopRootClasses_V4_of_empty {fuel : Nat} {h : MocHandle}
    (hloop : Populate_loopRootClasses_V4 M fuel h r = some r') (hempty : r'.myMOMRootMap = []) :
    r' = r := by
  induction fuel generalizing h r r' with
  | zero => cases hloop
  | succ fuel ih =>
    rw [Populate_loopRootClasses_V4] at hloop
    obtain ⟨r₁, hclass, hchildren⟩ := Option.bind_eq_some_iff.mp hloop
    obtain rfl : r' = r₁ := by
      refine foldlM_fixed (fun r => r.myMOMRootMap = []) (fun s k s' hk hs' => ?_) hchildren hempty
      split at hk
      · exact ih hk hs'
      · exact (Option.some.inj hk).symm
    exact populateClass_of_empty hclass hempty

/-! ## Exactness -/

theorem IsRoot_eq {fuel : Nat} (hpopulate : Populate_V4 M fuel {} = some r) (child parent : String) :
    IsRoot M fuel child parent r
      = if child.toList.head? = some '=' then some false
        else some (r.myMOMRootMap.lookup (rootKey child parent)).isSome := by
  unfold IsRoot
  dsimp only
  split <;> rename_i hempty
  · obtain rfl := Populate_loopRootClasses_V4_of_empty hpopulate hempty
    rw [hpopulate]
    rfl
  · rfl

def Clash (M : Model) (vs : List Visit) (parent child : String) : Prop :=
  rootKey child parent ∈ ownNames M [] vs ∨
    ∃ x ∈ contributions M vs, x ≠ (parent, child) ∧ afterDot x.1 ++ x.2 = rootKey child parent

def Stored (M : Model) (vs : List Visit) (parent child : String) : Prop :=
  (parent, child) ∈ contributions M vs ∧ afterDot parent ++ child = rootKey child parent

/-- A contribution is stored, or something else in its place; and nothing is in the place of what is no
contribution. -/
def Exact (M : Model) (vs : List Visit) (parent child : String) : Prop :=
  (Contribution M parent child →
    child.toList.head? ≠ some '=' ∧ (Stored M vs parent child ∨ Clash M vs parent child)) ∧
  (¬ Contribution M parent child → child.toList.head? = some '=' ∨ ¬ Clash M vs parent child)

theorem mem_names_iff {fuel : Nat} (hpopulate : Populate_V4 M fuel {} = some r) (parent child : String) :
    rootKey child parent ∈ names r ↔ Stored M (visits M fuel M.root) parent child ∨
      Clash M (visits M fuel M.root) parent child := by
  rw [Populate_loopRootClasses_V4_eq hpopulate, mem_names_foldl]
  constructor
  · rintro (hown | ⟨x, hx, hkey⟩ | hnil)
    · exact Or.inr (Or.inl hown)
    · by_cases hsame : x = (parent, child)
      · subst hsame
        exact Or.inl ⟨hx, hkey⟩
      · exact Or.inr (Or.inr ⟨x, hx, hsame, hkey⟩)
    · cases hnil
  · rintro (⟨hx, hkey⟩ | hown | ⟨x, hx, _, hkey⟩)
    · exact Or.inr (Or.inl ⟨_, hx, hkey⟩)
    · exact Or.inl hown
    · exact Or.inr (Or.inl ⟨x, hx, hkey⟩)

/-- `IsRoot` tells whether the two classes are a contribution exactly where no names clash. -/
theorem isRoot_exact_iff (M : Model) (fuel : Nat) (r : MOMRootRepository)
    (hpopulate : Populate_V4 M fuel {} = some r) (parent child : String) :
    (IsRoot M fuel child parent r = some true ↔ Contribution M parent child) ↔
      Exact M (visits M fuel M.root) parent child := by
  have hroot : IsRoot M fuel child parent r = some true ↔
      child.toList.head? ≠ some '=' ∧ (Stored M (visits M fuel M.root) parent child ∨
        Clash M (visits M fuel M.root) parent child) := by
    rw [IsRoot_eq hpopulate, ← mem_names_iff hpopulate, names, ← lookup_isSome_iff]
    split <;> rename_i hstruct <;> simp [hstruct]
  have hstored : Stored M (visits M fuel M.root) parent child → Contribution M parent child :=
    fun h => contribution_of_mem h.1
  rw [hroot, Exact]
  tauto

end

/-- The class `BC` of another MOM is under `A`, and `C` is under `AB` of its own. -/
def joined : Model :=
  .ofContainments 0
    (fun h => match h with
      | 0 => ⟨"ManagedElement", 0, true, some "managedElementId"⟩
      | 1 => ⟨"A", 0, false, some "aId"⟩
      | 2 => ⟨"BC", 1, false, some "bcId"⟩
      | 3 => ⟨"AB", 0, false, some "abId"⟩
      | _ => ⟨"C", 0, false, some "cId"⟩)
    (fun h => match h with
      | 0 => ⟨"ComTop", none⟩
      | _ => ⟨"Other", none⟩)
    [⟨"ManagedElement_to_A", 0, 1, none⟩, ⟨"A_to_BC", 1, 2, none⟩, ⟨"ManagedElement_to_AB", 0, 3, none⟩,
      ⟨"AB_to_C", 3, 4, none⟩]

def joinedRepository : MOMRootRepository where
  myMOMRootMap := [("ManagedElement", []), ("BC", ["A", "ManagedElement"]), ("ABC", ["A", "ManagedElement"])]
  containmentSplitImmDnAttributes := [("ManagedElement_to_A", false), ("A_to_BC", true)]

theorem isRoot_exact_iff_joined :
    Populate_V4 joined 5 {} = some joinedRepository ∧
      ((IsRoot joined 5 "BC" "A" joinedRepository = some true ↔ Contribution joined "A" "BC") ↔
        Exact joined (visits joined 5 0) "A" "BC") :=
  ⟨by decide, isRoot_exact_iff joined 5 joinedRepository (by decide) "A" "BC"⟩

theorem not_isRoot_exact :
    ¬ ∀ (M : Model) (fuel : Nat) (r : MOMRootRepository), Populate_V4 M fuel {} = some r →
      ∀ parent child : String, parent ≠ "" → child ≠ "" →
        (IsRoot M fuel child parent r = some true ↔ Contribution M parent child) := by
  intro h
  have hroot := h joined 5 joinedRepository (by decide) "AB" "C" (by decide) (by decide)
  obtain ⟨moc, k, hk, hchild, hparent, hmom⟩ := hroot.mp (by decide)
  have hks := List.mem_of_mem_filter hk
  obtain ⟨rfl, _⟩ := joined.childMoc_eq moc k hk
  simp only [List.mem_cons, List.not_mem_nil, or_false] at hks
  rcases hks with rfl | rfl | rfl | rfl <;> revert hchild hparent hmom <;> decide

end ComSA.Translator
