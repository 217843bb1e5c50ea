import ComSA.Lib.FiniteGraph
import ComSA.Lib.Fuel
import ComSA.Motransaction.Populate
import ComSA.Motransaction.RootDetection

/-!
# When populating ends

The walk down skips a class that is its own child, and the walks up follow the first
parent of each class without such a check. Where classes contain at most themselves in
a circle: when `Populate_V4` ends.
-/

namespace ComSA.Translator

open Relation

namespace Model

variable (M : Model)

def FirstParent (h p : MocHandle) : Prop := ∃ k, (M.parentContainments h).head? = some k ∧ k.parentMoc = p

abbrev UpEnds (h : MocHandle) : Prop := Acc (fun p h => M.FirstParent h p) h

def StoredAsRoot (h : MocHandle) : Prop :=
  M.IsMocChildofEcimContribution_V4 h = true ∧ (M.moc h).keyAttribute ≠ none

/-- Finitely many classes contain others, and a circle of containments is one class that contains itself. -/
structure OnlySelfCycles : Prop where
  finite : {h | M.childContainments h ≠ []}.Finite
  acyclic : ∀ h, ¬ TransGen (fun a b => a ≠ b ∧ M.Contains a b) h h

variable {M}

theorem FirstParent.contains {h p : MocHandle} (hp : M.FirstParent h p) : M.Contains p h := by
  obtain ⟨k, hk, rfl⟩ := hp
  have hmem := List.mem_of_mem_head? hk
  obtain ⟨hchild, hin⟩ := M.childMoc_eq h k hmem
  exact ⟨k, hin, hchild⟩

namespace OnlySelfCycles

theorem wellFounded_up (hM : M.OnlySelfCycles) : WellFounded fun a b => a ≠ b ∧ M.Contains a b := by
  refine wellFounded_of_finite_left hM.finite hM.acyclic ?_
  rintro a b ⟨_, k, hk, _⟩
  exact List.ne_nil_of_mem hk

theorem wellFounded_down (hM : M.OnlySelfCycles) : WellFounded fun b a => a ≠ b ∧ M.Contains a b := by
  refine wellFounded_of_finite_right hM.finite (fun h hh => hM.acyclic h (transGen_swap.mp hh)) ?_
  rintro b a ⟨_, k, hk, _⟩
  exact List.ne_nil_of_mem hk

theorem upEnds_iff (hM : M.OnlySelfCycles) {h : MocHandle} :
    M.UpEnds h ↔ ∀ a, ReflTransGen M.FirstParent h a → ¬ M.FirstParent a a := by
  constructor
  · intro hends
    induction hends with
    | intro h _ ih =>
      intro a ha hself
      rcases ha.cases_head with rfl | ⟨p, hp, hpa⟩
      · exact ih h hself h .refl hself
      · exact ih p hp a hpa hself
  · refine hM.wellFounded_up.induction (C := fun h => (∀ a, ReflTransGen M.FirstParent h a → ¬ M.FirstParent a a) →
      M.UpEnds h) h fun h ih hno => Acc.intro h fun p hp => ?_
    have hne : p ≠ h := by
      rintro rfl
      exact hno p .refl hp
    exact ih p ⟨hne, hp.contains⟩ fun a ha => hno a (.head hp ha)

theorem ofContainments {root : MocHandle} {moc : MocHandle → Moc} {mom : MomHandle → Mom} {ks : List Containment}
    (hks : ∀ k ∈ ks, k.parentMoc ≤ k.childMoc) : (Model.ofContainments root moc mom ks).OnlySelfCycles := by
  constructor
  · refine (ks.map Containment.parentMoc).finite_toSet.subset fun h hh => ?_
    obtain ⟨k, hk⟩ := List.exists_mem_of_ne_nil _ hh
    obtain ⟨hk, hparent⟩ := List.mem_filter.mp hk
    exact List.mem_map.mpr ⟨k, hk, of_decide_eq_true hparent⟩
  · have hless : ∀ a b, TransGen (fun a b => a ≠ b ∧ (Model.ofContainments root moc mom ks).Contains a b) a b →
        a < b := by
      intro a b hab
      refine TransGen.trans_induction_on hab (fun ⟨hne, k, hk, hchild⟩ => ?_) fun _ _ h h' => Nat.lt_trans h h'
      obtain ⟨hk, hparent⟩ := List.mem_filter.mp hk
      have := hks k hk
      rw [of_decide_eq_true hparent, hchild] at this
      exact Nat.lt_of_le_of_ne this hne
    exact fun h hh => Nat.lt_irrefl h (hless h h hh)

end OnlySelfCycles

/-! ## The key holder -/

theorem getMocNameAndKey_V4_name {h : MocHandle} {momName : Option String} {x : String × String}
    (hx : M.getMocNameAndKey_V4 h momName = some x) : x.1 = (M.moc h).name := by
  unfold getMocNameAndKey_V4 at hx
  split at hx
  · obtain ⟨key, _, rfl⟩ := Option.map_eq_some_iff.mp hx
    rfl
  · cases hx

theorem retriveMomClassesAndKeyAttributes_ends (hM : M.OnlySelfCycles) (momName : String) (h : MocHandle) :
    Enough fun fuel => ∀ momKeyRepo, ∃ momKeyRepo',
      M.RetriveMomClassesAndKeyAttributes_V4 momName fuel h (M.moc h).name momKeyRepo = some momKeyRepo' := by
  induction h using hM.wellFounded_down.induction with
  | h h ih =>
    have hchildren : ∀ k ∈ M.childContainments h, Enough fun fuel => h ≠ k.childMoc → ∀ momKeyRepo, ∃ momKeyRepo',
        M.RetriveMomClassesAndKeyAttributes_V4 momName fuel k.childMoc (M.moc k.childMoc).name momKeyRepo
          = some momKeyRepo' := by
      intro k hk
      by_cases hself : h = k.childMoc
      · exact .of_forall fun _ hne => absurd hself hne
      · exact (ih k.childMoc ⟨hself, k, hk, rfl⟩).mono fun _ hends _ => hends
    refine (Enough.all_of_mem hchildren).mono (fun fuel hfuel => ?_) |>.succ
    intro momKeyRepo
    rw [RetriveMomClassesAndKeyAttributes_V4]
    refine (foldlM_ends (I := fun _ => True) (fun k hk momKeyRepo _ => ?_) trivial).imp fun _ h => h.1
    split
    · exact ⟨momKeyRepo, rfl, trivial⟩
    · rename_i x className keyAttribute hx
      have hname : className = (M.moc k.childMoc).name := getMocNameAndKey_V4_name hx
      dsimp only
      split <;> rename_i hprevious
      · have hself : h ≠ k.childMoc := by
          rintro hself
          rw [hname, ← hself] at hprevious
          exact hprevious rfl
        obtain ⟨momKeyRepo', hends⟩ := hfuel k hk hself (momKeyRepo.setKeyAttributeForClass className keyAttribute)
        rw [hname] at hends ⊢
        exact ⟨momKeyRepo', hends, trivial⟩
      · exact ⟨_, rfl, trivial⟩

theorem populateKeyHolderWithMOM_V4_ends (hM : M.OnlySelfCycles) (h : MocHandle) :
    Enough fun fuel => ∀ theKeyHolder, ∃ theKeyHolder',
      M.populateKeyHolderWithMOM_V4 fuel h theKeyHolder = some theKeyHolder' := by
  refine (retriveMomClassesAndKeyAttributes_ends hM (M.momOf h).name h).mono fun fuel hfuel theKeyHolder => ?_
  unfold populateKeyHolderWithMOM_V4
  split
  · exact ⟨theKeyHolder, rfl⟩
  · rename_i x classNameRoot keyAttributeRoot hx
    obtain rfl : classNameRoot = (M.moc h).name := getMocNameAndKey_V4_name hx
    induction M.getMocParents_V4 h generalizing theKeyHolder with
    | nil => exact ⟨theKeyHolder, rfl⟩
    | cons parent theMocParentsList ih =>
      rw [populateParents]
      split
      · exact ⟨theKeyHolder, rfl⟩
      · dsimp only
        have hfill : ∀ keyAttributeRoot momKeyRepo, ∃ momKeyRepo',
            M.fillMOMRepo fuel h (M.moc h).name keyAttributeRoot momKeyRepo = some momKeyRepo' :=
          fun _ _ => hfuel _
        obtain ⟨momKeyRepo, hends⟩ := hfill keyAttributeRoot _
        rw [hends]
        exact ih _

end Model

namespace RootRepository

/-! ## The walks up -/

section
variable {M : Model} {populate : RootRepository → Option RootRepository} {r r' : RootRepository} {h : MocHandle}

theorem isSplitImmDn_of_ne_nil (hr : r.myMOMRootMap ≠ []) (parentClass_rootClass : String) :
    isSplitImmDn populate parentClass_rootClass r =
      some (MOMRootRepository.isSplitImmDn parentClass_rootClass r.containmentSplitImmDnAttributes, r) := by
  unfold isSplitImmDn MOMRootRepository.isSplitImmDn
  rw [if_neg hr]
  cases hfound : r.containmentSplitImmDnAttributes.lookup (splitKey parentClass_rootClass) <;> simp [hfound]

theorem oneParentEach_ends (hup : M.UpEnds h) :
    Enough fun fuel => ∃ valid, oneParentEach M fuel h = some valid := by
  induction hup with
  | intro h _ ih =>
    have hnext : Enough fun fuel => ∀ k ∈ (M.parentContainments h).head?,
        ∃ valid, oneParentEach M fuel k.parentMoc = some valid := by
      cases hhead : (M.parentContainments h).head? with
      | none => exact .of_forall fun _ k hk => nomatch hk
      | some k =>
        refine (ih k.parentMoc ⟨k, hhead, rfl⟩).mono fun fuel hends j hj => ?_
        obtain rfl := Option.some.inj hj
        exact hends
    refine (hnext.mono fun fuel hfuel => ?_).succ
    rw [oneParentEach]
    split
    · exact ⟨true, rfl⟩
    · rename_i k hk
      exact hfuel k (by rw [hk]; rfl)
    · exact ⟨false, rfl⟩

theorem checkContainmentValid_V4_map {fuel : Nat} {k : Containment}
    (hcheck : checkContainmentValid_V4 M fuel k r = some r') : r'.myMOMRootMap = r.myMOMRootMap := by
  obtain ⟨valid, _, rfl⟩ := Option.map_eq_some_iff.mp hcheck
  split <;> rfl

theorem checkContainmentValid_V4_ends {k : Containment} (hup : M.UpEnds k.parentMoc) :
    Enough fun fuel => ∀ r, ∃ r', checkContainmentValid_V4 M fuel k r = some r' := by
  refine (oneParentEach_ends hup).mono fun fuel ⟨valid, hvalid⟩ r => ?_
  unfold checkContainmentValid_V4
  rw [hvalid]
  exact ⟨_, rfl⟩

theorem visitContainment_ends {k : Containment} (hup : M.UpEnds k.parentMoc) :
    Enough fun fuel => ∀ populate r, r.myMOMRootMap ≠ [] →
      ∃ r', visitContainment M populate fuel k r = some r' ∧ r'.myMOMRootMap ≠ [] := by
  refine (checkContainmentValid_V4_ends hup).mono fun fuel hcheck populate r hr => ?_
  have hnoted : (noteContainment M k r).myMOMRootMap ≠ [] := hr
  unfold visitContainment
  rw [isSplitImmDn_of_ne_nil hnoted, Option.bind_eq_bind, Option.bind_some]
  dsimp only
  split
  · obtain ⟨r', hr'⟩ := hcheck (noteContainment M k r)
    exact ⟨r', hr', by rw [checkContainmentValid_V4_map hr']; exact hnoted⟩
  · exact ⟨_, rfl, hnoted⟩

theorem loopContainmentClass_V4_ends {k : Containment} (hup : M.UpEnds k.parentMoc) :
    Enough fun fuel => ∀ populate den r, r.myMOMRootMap ≠ [] →
      ∃ x, loopContainmentClass_V4 M populate fuel k den r = some x ∧ x.2.myMOMRootMap ≠ [] := by
  generalize hh : k.parentMoc = h at hup
  induction hup generalizing k with
  | intro h hacc ih =>
    subst hh
    have hnext : Enough fun fuel => ∀ next ∈ (M.parentContainments k.parentMoc).head?,
        ∀ populate den r, r.myMOMRootMap ≠ [] →
          ∃ x, loopContainmentClass_V4 M populate fuel next den r = some x ∧ x.2.myMOMRootMap ≠ [] := by
      cases hhead : (M.parentContainments k.parentMoc).head? with
      | none => exact .of_forall fun _ k hk => nomatch hk
      | some next =>
        refine (ih next.parentMoc ⟨next, hhead, rfl⟩ rfl).mono fun fuel hends j hj => ?_
        obtain rfl := Option.some.inj hj
        exact hends
    have hvisit := (visitContainment_ends (Acc.intro _ hacc)).shift
    refine ((hvisit.and hnext).mono fun fuel hfuel populate den r hr => ?_).succ
    obtain ⟨t, ht, htmap⟩ := hfuel.1 populate r hr
    rw [loopContainmentClass_V4, ht, Option.bind_eq_bind, Option.bind_some]
    dsimp only
    cases hhead : (M.parentContainments k.parentMoc).head? with
    | none => exact ⟨_, rfl, htmap⟩
    | some next => exact hfuel.2 next hhead populate _ t htmap

theorem insert_map_ne_nil (key : String) (den : MOMRootDataEntry) : (r.insert key den).myMOMRootMap ≠ [] :=
  insert_ne_nil key den

variable (M populate h) in
theorem getDecoratedRootClasses_V4_ends (den : MOMRootDataEntry) (hr : r.myMOMRootMap ≠ []) :
    ∃ x, getDecoratedRootClasses_V4 M populate h den r = some x ∧ x.2.myMOMRootMap ≠ [] := by
  unfold getDecoratedRootClasses_V4
  split
  · rw [isSplitImmDn_of_ne_nil hr, Option.bind_eq_bind, Option.bind_some]
    refine ⟨_, rfl, ?_⟩
    dsimp only
    split
    · exact insert_map_ne_nil _ _
    · exact hr
  · exact ⟨_, rfl, hr⟩

theorem populateParent_ends {k : Containment} (hup : M.UpEnds k.parentMoc) :
    Enough fun fuel => ∀ populate r, r.myMOMRootMap ≠ [] →
      ∃ r', populateParent M populate fuel h r k = some r' ∧ r'.myMOMRootMap ≠ [] := by
  refine (loopContainmentClass_V4_ends hup).mono fun fuel hloop populate r hr => ?_
  obtain ⟨⟨entry, t⟩, ht, htmap⟩ := hloop populate [] r hr
  obtain ⟨⟨decorated, u⟩, hu, humap⟩ :=
    getDecoratedRootClasses_V4_ends M populate h entry htmap
  unfold populateParent
  rw [ht, Option.bind_eq_bind, Option.bind_some]
  dsimp only
  rw [hu, Option.bind_eq_bind, Option.bind_some]
  dsimp only
  split
  · refine ⟨_, rfl, ?_⟩
    split
    · exact humap
    · exact insert_map_ne_nil _ _
  · exact ⟨_, rfl, insert_map_ne_nil _ _⟩

/-! ## Where it ends -/

theorem populateClass_ends (hM : M.OnlySelfCycles)
    (hup : M.StoredAsRoot h → ∀ k ∈ M.parentContainments h, M.UpEnds k.parentMoc) :
    Enough fun fuel => ∀ populate r, (r.myMOMRootMap ≠ [] ∨ (M.StoredAsRoot h → M.parentContainments h = [])) →
      ∃ r', populateClass M populate fuel h r = some r' ∧
        (r.myMOMRootMap ≠ [] ∨ M.StoredAsRoot h → r'.myMOMRootMap ≠ []) := by
  by_cases hstored : M.StoredAsRoot h
  · have hparents : Enough fun fuel => ∀ k ∈ M.parentContainments h, ∀ populate r, r.myMOMRootMap ≠ [] →
        ∃ r', populateParent M populate fuel h r k = some r' ∧ r'.myMOMRootMap ≠ [] :=
      .all_of_mem fun k hk => populateParent_ends (hup hstored k hk)
    refine ((Model.populateKeyHolderWithMOM_V4_ends hM h).and hparents).mono fun fuel hfuel populate r hr => ?_
    obtain ⟨theKeyHolder, hkeys⟩ := hfuel.1 r.theKeyHolder
    unfold populateClass
    rw [if_pos hstored.1, hkeys, Option.bind_eq_bind, Option.bind_some]
    dsimp only
    rw [if_pos (Option.isSome_iff_ne_none.mpr hstored.2)]
    split <;> rename_i hks
    · exact ⟨_, rfl, fun _ => insert_map_ne_nil _ _⟩
    · have hne : r.myMOMRootMap ≠ [] := hr.resolve_right fun hnil => hks (hnil hstored)
      obtain ⟨r', hr', hmap⟩ := foldlM_ends (I := fun r => r.myMOMRootMap ≠ [])
        (fun k hk s hs => hfuel.2 k hk populate s hs) (s := { r with theKeyHolder := theKeyHolder }) hne
      exact ⟨r', hr', fun _ => hmap⟩
  · refine (Model.populateKeyHolderWithMOM_V4_ends hM h).mono fun fuel hkeys populate r _ => ?_
    obtain ⟨theKeyHolder, hkeys⟩ := hkeys r.theKeyHolder
    have hsame : r.myMOMRootMap ≠ [] ∨ M.StoredAsRoot h → r.myMOMRootMap ≠ [] :=
      fun h => h.resolve_right hstored
    unfold populateClass
    split <;> rename_i hroot
    · rw [hkeys, Option.bind_eq_bind, Option.bind_some]
      dsimp only
      rw [if_neg fun hkey => hstored ⟨hroot, Option.isSome_iff_ne_none.mp hkey⟩]
      exact ⟨_, rfl, hsame⟩
    · exact ⟨r, rfl, hsame⟩

theorem loopRootClasses_ends_of_children {I J : RootRepository → Prop}
    (hclass : Enough fun fuel => ∀ populate r, I r → ∃ r', populateClass M populate fuel h r = some r' ∧ J r')
    (hchildren : ∀ k ∈ M.childContainments h, h ≠ k.childMoc → Enough fun fuel => ∀ populate r, J r →
      ∃ r', Populate_loopRootClasses_V4 M populate fuel k.childMoc r = some r' ∧ J r') :
    Enough fun fuel => ∀ populate r, I r →
      ∃ r', Populate_loopRootClasses_V4 M populate fuel h r = some r' ∧ J r' := by
  have hall : Enough fun fuel => ∀ k ∈ M.childContainments h, h ≠ k.childMoc → ∀ populate r, J r →
      ∃ r', Populate_loopRootClasses_V4 M populate fuel k.childMoc r = some r' ∧ J r' := by
    refine .all_of_mem fun k hk => ?_
    by_cases hself : h = k.childMoc
    · exact .of_forall fun _ hne => absurd hself hne
    · exact (hchildren k hk hself).mono fun _ hends _ => hends
  refine ((hclass.and hall).mono fun fuel hfuel populate r hr => ?_).succ
  obtain ⟨t, ht, hJt⟩ := hfuel.1 populate r hr
  rw [Populate_loopRootClasses_V4, ht, Option.bind_eq_bind, Option.bind_some]
  refine foldlM_ends (fun k hk s hs => ?_) hJt
  split <;> rename_i hself
  · exact hfuel.2 k hk hself populate s hs
  · exact ⟨s, rfl, hs⟩

theorem loopRootClasses_ends (hM : M.OnlySelfCycles) {I : RootRepository → Prop}
    (hclass : ∀ c, M.Below h c → Enough fun fuel => ∀ populate r, I r →
      ∃ r', populateClass M populate fuel c r = some r' ∧ I r') :
    Enough fun fuel => ∀ populate r, I r →
      ∃ r', Populate_loopRootClasses_V4 M populate fuel h r = some r' ∧ I r' := by
  induction h using hM.wellFounded_down.induction with
  | h h ih =>
    refine loopRootClasses_ends_of_children (hclass h .refl) fun k hk hself => ?_
    exact ih k.childMoc ⟨hself, k, hk, rfl⟩ fun c hc => hclass c (.head ⟨k, hk, rfl⟩ hc)

/-! ## Where it does not end -/

theorem loopContainmentClass_V4_up {fuel : Nat} {k : Containment} {den : MOMRootDataEntry}
    {x : MOMRootDataEntry × RootRepository} (hloop : loopContainmentClass_V4 M populate fuel k den r = some x) :
    M.UpEnds k.parentMoc := by
  induction fuel generalizing k den r with
  | zero => cases hloop
  | succ fuel ih =>
    rw [loopContainmentClass_V4] at hloop
    obtain ⟨t, _, hrest⟩ := Option.bind_eq_some_iff.mp hloop
    refine Acc.intro _ ?_
    rintro p ⟨next, hnext, rfl⟩
    rw [hnext] at hrest
    exact ih hrest

theorem populateParent_up {fuel : Nat} {k : Containment}
    (hparent : populateParent M populate fuel h r k = some r') : M.UpEnds k.parentMoc := by
  obtain ⟨x, hloop, _⟩ := Option.bind_eq_some_iff.mp hparent
  exact loopContainmentClass_V4_up hloop

theorem populateClass_of_storedAsRoot {fuel : Nat} (hstored : M.StoredAsRoot h)
    (hclass : populateClass M populate fuel h r = some r') :
    ∃ theKeyHolder, (M.parentContainments h = [] ∧
        r' = { r with theKeyHolder := theKeyHolder }.insert (M.moc h).name []) ∨
      (M.parentContainments h ≠ [] ∧ (M.parentContainments h).foldlM (populateParent M populate fuel h)
        { r with theKeyHolder := theKeyHolder } = some r') := by
  unfold populateClass at hclass
  rw [if_pos hstored.1] at hclass
  obtain ⟨theKeyHolder, _, hclass⟩ := Option.bind_eq_some_iff.mp hclass
  dsimp only at hclass
  rw [if_pos (Option.isSome_iff_ne_none.mpr hstored.2)] at hclass
  refine ⟨theKeyHolder, ?_⟩
  split at hclass <;> rename_i hks
  · exact .inl ⟨hks, (Option.some.inj hclass).symm⟩
  · exact .inr ⟨hks, hclass⟩

theorem populateClass_of_not_storedAsRoot {fuel : Nat} (hstored : ¬ M.StoredAsRoot h)
    (hclass : populateClass M populate fuel h r = some r') : ∃ theKeyHolder, r' = { r with theKeyHolder := theKeyHolder } := by
  unfold populateClass at hclass
  split at hclass <;> rename_i hroot
  · obtain ⟨theKeyHolder, _, hclass⟩ := Option.bind_eq_some_iff.mp hclass
    dsimp only at hclass
    rw [if_neg fun hkey => hstored ⟨hroot, Option.isSome_iff_ne_none.mp hkey⟩] at hclass
    exact ⟨theKeyHolder, (Option.some.inj hclass).symm⟩
  · exact ⟨r.theKeyHolder, (Option.some.inj hclass).symm⟩

theorem populateClass_up {fuel : Nat} (hclass : populateClass M populate fuel h r = some r')
    (hstored : M.StoredAsRoot h) : ∀ k ∈ M.parentContainments h, M.UpEnds k.parentMoc := by
  intro k hk
  obtain ⟨theKeyHolder, ⟨hnil, _⟩ | ⟨_, hfold⟩⟩ := populateClass_of_storedAsRoot hstored hclass
  · rw [hnil] at hk
    cases hk
  · exact foldlM_reaches (I := fun _ => True) (P := fun _ => M.UpEnds k.parentMoc) hk
      (fun _ _ _ _ _ _ => trivial) (fun _ _ _ hparent => populateParent_up hparent)
      (fun _ _ _ _ _ hup _ => hup) trivial hfold

theorem loopContainmentClass_V4_of_nil (hpopulate : ∀ r, r.myMOMRootMap = [] → populate r = none)
    (hr : r.myMOMRootMap = []) (fuel : Nat) (k : Containment) (den : MOMRootDataEntry) :
    loopContainmentClass_V4 M populate fuel k den r = none := by
  cases fuel with
  | zero => rfl
  | succ fuel =>
    have hnoted : (noteContainment M k r).myMOMRootMap = [] := hr
    have hvisit : visitContainment M populate (fuel + 1) k r = none := by
      unfold visitContainment isSplitImmDn
      rw [if_pos hnoted, hpopulate _ hnoted]
      rfl
    rw [loopContainmentClass_V4, hvisit]
    rfl

theorem populateClass_of_nil (hpopulate : ∀ r, r.myMOMRootMap = [] → populate r = none)
    (hr : r.myMOMRootMap = []) (hstored : M.StoredAsRoot h) (hparents : M.parentContainments h ≠ []) (fuel : Nat) :
    populateClass M populate fuel h r ≠ some r' := by
  intro hclass
  obtain ⟨theKeyHolder, ⟨hnil, _⟩ | ⟨_, hfold⟩⟩ := populateClass_of_storedAsRoot hstored hclass
  · exact hparents hnil
  · obtain ⟨k, ks, hks⟩ := List.exists_cons_of_ne_nil hparents
    have hkept : ({ r with theKeyHolder := theKeyHolder } : RootRepository).myMOMRootMap = [] := hr
    rw [hks, List.foldlM_cons, populateParent, loopContainmentClass_V4_of_nil hpopulate hkept] at hfold
    cases hfold

theorem parents_ne_nil_of_class {c : MocHandle} (hc : M.IsClass c) (hroot : c ≠ M.root) :
    M.parentContainments c ≠ [] := by
  rcases hc.cases_tail with heq | ⟨b, _, k, hk, rfl⟩
  · exact absurd heq hroot
  · exact List.ne_nil_of_mem (M.parentMoc_eq b k hk).2

theorem Populate_V4_of_nil {c : MocHandle} (hc : M.IsClass c) (hstored : M.StoredAsRoot c)
    (hparents : M.parentContainments c ≠ []) (htop : ¬ (M.StoredAsRoot M.root ∧ M.parentContainments M.root = []))
    (fuel : Nat) (hr : r.myMOMRootMap = []) : Populate_V4 M fuel r = none := by
  induction fuel generalizing r with
  | zero => rfl
  | succ fuel ih =>
    rw [Populate_V4, Option.map_eq_none_iff]
    by_contra hsome
    obtain ⟨r', hloop⟩ := Option.ne_none_iff_exists'.mp hsome
    have hstuck : ∀ r : RootRepository, r.myMOMRootMap = [] → Populate_V4 M fuel r = none := fun r hr => ih hr
    refine loopRootClasses_reaches (I := fun r => r.myMOMRootMap = []) (P := fun _ => False)
      (fun d hd n s s' hs hclass => ?_) (fun _ _ _ _ _ _ h _ => h) hc (fun n s s' hs hclass => ?_) hr hloop
    · by_cases hd' : M.StoredAsRoot d
      · by_cases hnil : M.parentContainments d = []
        · have hroot : d = M.root := by
            by_contra hne
            exact parents_ne_nil_of_class hd hne hnil
          subst hroot
          exact absurd ⟨hd', hnil⟩ htop
        · exact absurd hclass (populateClass_of_nil hstuck hs hd' hnil n)
      · obtain ⟨theKeyHolder, rfl⟩ := populateClass_of_not_storedAsRoot hd' hclass
        exact hs
    · exact populateClass_of_nil hstuck hs hstored hparents n hclass

end

end RootRepository

open RootRepository

def StoresBelow (M : Model) : Prop := ∃ c, M.IsClass c ∧ M.StoredAsRoot c ∧ M.parentContainments c ≠ []

/-- The root of the model is stored, and has no parents to go up from. -/
def StoresRoot (M : Model) : Prop := M.StoredAsRoot M.root ∧ M.parentContainments M.root = []

/-- No class on the way up from one that is stored as a root is its own first parent. -/
def NoSelfFirst (M : Model) : Prop :=
  ∀ c, M.IsClass c → M.StoredAsRoot c → ∀ k ∈ M.parentContainments c,
    ∀ a, ReflTransGen M.FirstParent k.parentMoc a → ¬ M.FirstParent a a

section
variable {M : Model}

theorem Populate_V4_up {fuel : Nat} (hends : Populate_V4 M fuel {} ≠ none) {c : MocHandle} (hc : M.IsClass c)
    (hstored : M.StoredAsRoot c) : ∀ k ∈ M.parentContainments c, M.UpEnds k.parentMoc := by
  intro k hk
  cases fuel with
  | zero => exact absurd rfl hends
  | succ fuel =>
    rw [Populate_V4, Ne, Option.map_eq_none_iff] at hends
    obtain ⟨r', hloop⟩ := Option.ne_none_iff_exists'.mp hends
    exact loopRootClasses_reaches (I := fun _ => True) (P := fun _ => M.UpEnds k.parentMoc)
      (fun _ _ _ _ _ _ _ => trivial) (fun _ _ _ _ _ _ hup _ => hup) hc
      (fun _ _ _ _ hclass => populateClass_up hclass hstored k hk) trivial hloop

theorem Populate_V4_ends_of_loop (hends : Enough fun fuel => ∀ populate,
    ∃ r', Populate_loopRootClasses_V4 M populate fuel M.root {} = some r') : ∃ fuel, Populate_V4 M fuel {} ≠
      none := by
  obtain ⟨fuel, hends⟩ := hends
  obtain ⟨r', hloop⟩ := hends fuel le_rfl fun r => Populate_V4 M fuel r
  exact ⟨fuel + 1, by rw [Populate_V4, hloop]; exact Option.some_ne_none _⟩

theorem Populate_V4_ends_of_storesRoot (hM : M.OnlySelfCycles) (hroot : StoresRoot M) (hfirst : NoSelfFirst M) :
    ∃ fuel, Populate_V4 M fuel {} ≠ none := by
  have hup : ∀ c, M.IsClass c → M.StoredAsRoot c → ∀ k ∈ M.parentContainments c, M.UpEnds k.parentMoc :=
    fun c hc hstored k hk => hM.upEnds_iff.mpr (hfirst c hc hstored k hk)
  have htop : Enough fun fuel => ∀ populate r, True →
      ∃ r', populateClass M populate fuel M.root r = some r' ∧ r'.myMOMRootMap ≠ [] := by
    refine (populateClass_ends hM (hup M.root .refl)).mono fun fuel hclass populate r _ => ?_
    obtain ⟨r', hr', hmap⟩ := hclass populate r (.inr fun _ => hroot.2)
    exact ⟨r', hr', hmap (.inr hroot.1)⟩
  have hchildren : ∀ k ∈ M.childContainments M.root, M.root ≠ k.childMoc →
      Enough fun fuel => ∀ populate r, r.myMOMRootMap ≠ [] →
        ∃ r', Populate_loopRootClasses_V4 M populate fuel k.childMoc r = some r' ∧ r'.myMOMRootMap ≠ [] := by
    intro k hk _
    refine loopRootClasses_ends hM fun c hc => ?_
    have hclass : M.IsClass c := .head ⟨k, hk, rfl⟩ hc
    refine (populateClass_ends hM (hup c hclass)).mono fun fuel hends populate r hr => ?_
    obtain ⟨r', hr', hmap⟩ := hends populate r (.inl hr)
    exact ⟨r', hr', hmap (.inl hr)⟩
  refine Populate_V4_ends_of_loop ((loopRootClasses_ends_of_children htop hchildren).mono ?_)
  exact fun fuel hloop populate => (hloop populate {} trivial).imp fun _ h => h.1

theorem Populate_V4_ends_of_not_storesBelow (hM : M.OnlySelfCycles) (hbelow : ¬ StoresBelow M) :
    ∃ fuel, Populate_V4 M fuel {} ≠ none := by
  have hnil : ∀ c, M.IsClass c → M.StoredAsRoot c → M.parentContainments c = [] := by
    intro c hc hstored
    by_contra hparents
    exact hbelow ⟨c, hc, hstored, hparents⟩
  have hclass : ∀ c, M.Below M.root c → Enough fun fuel => ∀ populate r, True →
      ∃ r', populateClass M populate fuel c r = some r' ∧ True := by
    intro c hc
    have hup : M.StoredAsRoot c → ∀ k ∈ M.parentContainments c, M.UpEnds k.parentMoc := by
      intro hstored k hk
      rw [hnil c hc hstored] at hk
      cases hk
    refine (populateClass_ends hM hup).mono fun fuel hends populate r _ => ?_
    obtain ⟨r', hr', _⟩ := hends populate r (.inr (hnil c hc))
    exact ⟨r', hr', trivial⟩
  refine Populate_V4_ends_of_loop ((loopRootClasses_ends hM hclass).mono ?_)
  exact fun fuel hloop populate => (hloop populate {} trivial).imp fun _ h => h.1

end

/-- Where classes contain at most themselves in a circle, populating ends exactly where nothing is stored
below the root of the model, or where that root is stored and no class on a way up is its own first parent. -/
theorem populate_ends_iff (M : Model) (hM : M.OnlySelfCycles) :
    (∃ fuel, Populate_V4 M fuel {} ≠ none) ↔ (StoresBelow M → StoresRoot M ∧ NoSelfFirst M) := by
  constructor
  · rintro ⟨fuel, hends⟩ ⟨c, hc, hstored, hparents⟩
    constructor
    · by_contra hroot
      exact hends (Populate_V4_of_nil hc hstored hparents hroot fuel rfl)
    · intro d hd hd' k hk
      exact hM.upEnds_iff.mp (Populate_V4_up hends hd hd' k hk)
  · intro hfine
    by_cases hbelow : StoresBelow M
    · obtain ⟨hroot, hfirst⟩ := hfine hbelow
      exact Populate_V4_ends_of_storesRoot hM hroot hfirst
    · exact Populate_V4_ends_of_not_storesBelow hM hbelow

def selfContaining (aParents : List Containment) : Model :=
  .ofContainments 0
    (fun h => match h with
      | 0 => ⟨"ManagedElement", 0, true, some "managedElementId"⟩
      | 1 => ⟨"A", 0, false, some "aId"⟩
      | _ => ⟨"B", 1, false, some "bId"⟩)
    (fun h => match h with
      | 0 => ⟨"ComTop", none⟩
      | _ => ⟨"Other", none⟩)
    (aParents ++ [⟨"A_to_B", 1, 2, none⟩])

def belowTop : Containment := ⟨"ManagedElement_to_A", 0, 1, none⟩
def belowItself : Containment := ⟨"A_to_A", 1, 1, none⟩

theorem populate_ends_iff_belowTop :
    (∃ fuel, Populate_V4 (selfContaining [belowTop, belowItself]) fuel {} ≠ none) ∧
      ((∃ fuel, Populate_V4 (selfContaining [belowTop, belowItself]) fuel {} ≠ none) ↔
        (StoresBelow (selfContaining [belowTop, belowItself]) →
          StoresRoot (selfContaining [belowTop, belowItself]) ∧
            NoSelfFirst (selfContaining [belowTop, belowItself]))) :=
  ⟨⟨7, by decide⟩, populate_ends_iff (selfContaining [belowTop, belowItself]) (.ofContainments (by decide))⟩

/-- With the containment in itself as the first one, the way up from `B` does not get past `A`. -/
theorem not_populate_ends : ¬ ∀ M : Model, M.OnlySelfCycles → ∃ fuel, Populate_V4 M fuel {} ≠ none := by
  intro h
  have hM : (selfContaining [belowItself, belowTop]).OnlySelfCycles := .ofContainments (by decide)
  obtain ⟨fuel, hends⟩ := h (selfContaining [belowItself, belowTop]) hM
  have hA : (selfContaining [belowItself, belowTop]).Contains 0 1 := ⟨belowTop, by decide, rfl⟩
  have hB : (selfContaining [belowItself, belowTop]).Contains 1 2 := ⟨⟨"A_to_B", 1, 2, none⟩, by decide, rfl⟩
  have hstored : (selfContaining [belowItself, belowTop]).StoredAsRoot 2 := ⟨by decide, by decide⟩
  have hup := Populate_V4_up hends ((ReflTransGen.single hA).tail hB) hstored ⟨"A_to_B", 1, 2, none⟩ (by decide)
  exact hM.upEnds_iff.mp hup 1 .refl ⟨belowItself, by decide, rfl⟩

end ComSA.Translator
