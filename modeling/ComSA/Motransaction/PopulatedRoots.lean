import ComSA.Motransaction.PopulateEnds

/-!
# The map of roots after populating

The walk that only keeps the map of roots does what `Populate_V4` does with everything,
as long as no look-up finds the map empty.
-/

namespace ComSA.Translator

open RootRepository

section
variable {M : Model} {populate : RootRepository → Option RootRepository} {r r' : RootRepository} {h : MocHandle}
  {fuel : Nat}

theorem checkContainmentValid_V4_roots {k : Containment}
    (hcheck : checkContainmentValid_V4 M fuel k r = some r') : r'.toMOMRootRepository = r.toMOMRootRepository := by
  obtain ⟨valid, _, rfl⟩ := Option.map_eq_some_iff.mp hcheck
  split <;> rfl

theorem visitContainment_roots {k : Containment} (hr : r.myMOMRootMap ≠ [])
    (hvisit : visitContainment M populate fuel k r = some r') :
    r'.toMOMRootRepository = (noteContainment M k r).toMOMRootRepository := by
  have hnoted : (noteContainment M k r).myMOMRootMap ≠ [] := hr
  unfold visitContainment at hvisit
  rw [isSplitImmDn_of_ne_nil hnoted, Option.bind_eq_bind, Option.bind_some] at hvisit
  dsimp only at hvisit
  split at hvisit
  · exact checkContainmentValid_V4_roots hvisit
  · obtain rfl := Option.some.inj hvisit
    rfl

theorem loopContainmentClass_V4_roots {k : Containment} {den : MOMRootDataEntry}
    {x : MOMRootDataEntry × RootRepository} (hr : r.myMOMRootMap ≠ [])
    (hloop : loopContainmentClass_V4 M populate fuel k den r = some x) :
    MOMRootRepository.loopContainmentClass_V4 M fuel k den r.toMOMRootRepository
        = some (x.1, x.2.toMOMRootRepository) ∧ x.2.myMOMRootMap ≠ [] := by
  induction fuel generalizing k den r with
  | zero => cases hloop
  | succ fuel ih =>
    rw [loopContainmentClass_V4] at hloop
    obtain ⟨t, hvisit, hrest⟩ := Option.bind_eq_some_iff.mp hloop
    have ht := visitContainment_roots hr hvisit
    have htmap : t.myMOMRootMap ≠ [] := by
      rw [ht]
      exact hr
    rw [MOMRootRepository.loopContainmentClass_V4, if_neg hr]
    dsimp only at hrest ⊢
    cases hhead : (M.parentContainments k.parentMoc).head? with
    | none =>
      rw [hhead] at hrest
      obtain rfl := Option.some.inj hrest
      exact ⟨congrArg some (Prod.ext rfl ht.symm), htmap⟩
    | some next =>
      rw [hhead] at hrest
      obtain ⟨hloop, hmap⟩ := ih htmap hrest
      rw [ht] at hloop
      exact ⟨hloop, hmap⟩

theorem getDecoratedRootClasses_V4_roots {den : MOMRootDataEntry} {x : Bool × RootRepository}
    (hr : r.myMOMRootMap ≠ []) (hdecorated : getDecoratedRootClasses_V4 M populate h den r = some x) :
    MOMRootRepository.getDecoratedRootClasses_V4 M h den r.toMOMRootRepository
        = (x.1, x.2.toMOMRootRepository) ∧ x.2.myMOMRootMap ≠ [] := by
  unfold getDecoratedRootClasses_V4 at hdecorated
  unfold MOMRootRepository.getDecoratedRootClasses_V4
  split at hdecorated <;> rename_i hmom
  · rw [if_pos hmom]
    rw [isSplitImmDn_of_ne_nil hr, Option.bind_eq_bind, Option.bind_some] at hdecorated
    obtain rfl := Option.some.inj hdecorated
    dsimp only
    split
    · exact ⟨rfl, insert_map_ne_nil _ _⟩
    · exact ⟨rfl, hr⟩
  · rw [if_neg hmom]
    obtain rfl := Option.some.inj hdecorated
    exact ⟨rfl, hr⟩

theorem populateParent_roots {k : Containment} (hr : r.myMOMRootMap ≠ [])
    (hparent : populateParent M populate fuel h r k = some r') :
    MOMRootRepository.populateParent M fuel h r.toMOMRootRepository k = some r'.toMOMRootRepository ∧
      r'.myMOMRootMap ≠ [] := by
  obtain ⟨⟨entry, t⟩, hloop, hparent⟩ := Option.bind_eq_some_iff.mp hparent
  obtain ⟨hloop, ht⟩ := loopContainmentClass_V4_roots hr hloop
  obtain ⟨⟨decorated, u⟩, hdecorated, hparent⟩ := Option.bind_eq_some_iff.mp hparent
  obtain ⟨hdecorated, hu⟩ := getDecoratedRootClasses_V4_roots ht hdecorated
  unfold MOMRootRepository.populateParent
  rw [hloop, Option.bind_eq_bind, Option.bind_some]
  dsimp only at hparent hdecorated ⊢
  rw [hdecorated]
  dsimp only
  split at hparent <;> rename_i hmom <;> obtain rfl := Option.some.inj hparent
  · rw [if_pos hmom]
    cases decorated
    · exact ⟨rfl, insert_map_ne_nil _ _⟩
    · exact ⟨rfl, hu⟩
  · rw [if_neg hmom]
    cases decorated
    · exact ⟨rfl, insert_map_ne_nil _ _⟩
    · exact ⟨rfl, insert_map_ne_nil _ _⟩

theorem populateClass_roots (hr : r.myMOMRootMap ≠ [] ∨ (M.StoredAsRoot h → M.parentContainments h = []))
    (hclass : populateClass M populate fuel h r = some r') :
    MOMRootRepository.populateClass M fuel h r.toMOMRootRepository = some r'.toMOMRootRepository ∧
      (r.myMOMRootMap ≠ [] ∨ M.StoredAsRoot h → r'.myMOMRootMap ≠ []) := by
  unfold MOMRootRepository.populateClass
  by_cases hstored : M.StoredAsRoot h
  · rw [if_pos (by rw [hstored.1, Option.isSome_iff_ne_none.mpr hstored.2]; rfl)]
    obtain ⟨theKeyHolder, ⟨hnil, rfl⟩ | ⟨hparents, hfold⟩⟩ := populateClass_of_storedAsRoot hstored hclass
    · rw [hnil]
      exact ⟨rfl, fun _ => insert_map_ne_nil _ _⟩
    · have hne : r.myMOMRootMap ≠ [] := hr.resolve_right fun hnil => hparents (hnil hstored)
      obtain ⟨hfold, hmap⟩ := foldlM_maps (I := fun r => r.myMOMRootMap ≠ [])
        (g := MOMRootRepository.populateParent M fuel h) (π := fun r => r.toMOMRootRepository)
        (fun k _ s s' hs hstep => populateParent_roots hs hstep)
        (s := { r with theKeyHolder := theKeyHolder }) hne hfold
      refine ⟨?_, fun _ => hmap⟩
      obtain ⟨k, ks, hks⟩ := List.exists_cons_of_ne_nil hparents
      rw [hks] at hfold ⊢
      exact hfold
  · have hno : ¬ (M.IsMocChildofEcimContribution_V4 h && (M.moc h).keyAttribute.isSome) = true := by
      rw [Bool.and_eq_true]
      exact fun hboth => hstored ⟨hboth.1, Option.isSome_iff_ne_none.mp hboth.2⟩
    obtain ⟨theKeyHolder, rfl⟩ := populateClass_of_not_storedAsRoot hstored hclass
    rw [if_neg hno]
    exact ⟨rfl, fun hor => hor.resolve_right hstored⟩

def Safe (M : Model) (r : RootRepository) : Prop :=
  r.myMOMRootMap ≠ [] ∨ ∀ c, M.IsClass c → M.StoredAsRoot c → M.parentContainments c = []

theorem populateClass_safe (hh : M.IsClass h) (hr : Safe M r)
    (hclass : populateClass M populate fuel h r = some r') :
    MOMRootRepository.populateClass M fuel h r.toMOMRootRepository = some r'.toMOMRootRepository ∧ Safe M r' := by
  obtain ⟨hroots, hmap⟩ := populateClass_roots (hr.imp_right fun hnone => hnone h hh) hclass
  exact ⟨hroots, hr.imp_left fun hne => hmap (.inl hne)⟩

theorem loopRootClasses_roots_of_class
    (hclass : ∀ r', populateClass M populate fuel h r = some r' →
      MOMRootRepository.populateClass M fuel h r.toMOMRootRepository = some r'.toMOMRootRepository ∧ Safe M r')
    (hchildren : ∀ k ∈ M.childContainments h, ∀ s s', Safe M s →
      Populate_loopRootClasses_V4 M populate fuel k.childMoc s = some s' →
      MOMRootRepository.Populate_loopRootClasses_V4 M fuel k.childMoc s.toMOMRootRepository
        = some s'.toMOMRootRepository ∧ Safe M s')
    (hloop : Populate_loopRootClasses_V4 M populate (fuel + 1) h r = some r') :
    MOMRootRepository.Populate_loopRootClasses_V4 M (fuel + 1) h r.toMOMRootRepository
      = some r'.toMOMRootRepository ∧ Safe M r' := by
  rw [Populate_loopRootClasses_V4] at hloop
  obtain ⟨t, ht, hfold⟩ := Option.bind_eq_some_iff.mp hloop
  obtain ⟨hroots, hsafe⟩ := hclass t ht
  rw [MOMRootRepository.Populate_loopRootClasses_V4, hroots, Option.bind_eq_bind, Option.bind_some]
  refine foldlM_maps (π := fun r => r.toMOMRootRepository) (fun k hk s s' hs hstep => ?_) hsafe hfold
  split at hstep <;> rename_i hself
  · rw [if_pos hself]
    exact hchildren k hk s s' hs hstep
  · rw [if_neg hself]
    obtain rfl := Option.some.inj hstep
    exact ⟨rfl, hs⟩

theorem loopRootClasses_roots (hh : M.IsClass h) (hr : Safe M r)
    (hloop : Populate_loopRootClasses_V4 M populate fuel h r = some r') :
    MOMRootRepository.Populate_loopRootClasses_V4 M fuel h r.toMOMRootRepository
      = some r'.toMOMRootRepository ∧ Safe M r' := by
  induction fuel generalizing h r r' with
  | zero => cases hloop
  | succ fuel ih =>
    refine loopRootClasses_roots_of_class (fun t ht => populateClass_safe hh hr ht)
      (fun k hk s s' hs hstep => ?_) hloop
    exact ih (hh.tail ⟨k, hk, rfl⟩) hs hstep

/-- Populating stores the map of roots that the walk for it alone gives. -/
theorem Populate_V4_roots (hpopulate : Populate_V4 M (fuel + 1) {} = some r) :
    MOMRootRepository.Populate_V4 M fuel {} = some r.toMOMRootRepository := by
  have hsome := hpopulate
  rw [Populate_V4] at hpopulate
  obtain ⟨t, hloop, rfl⟩ := Option.map_eq_some_iff.mp hpopulate
  rw [checkModelValid_eq RootRepository.toMOMRootRepository fun _ _ => rfl]
  by_cases hbelow : StoresBelow M
  · obtain ⟨c, hc, hstored, hparents⟩ := hbelow
    have hroot : StoresRoot M := by
      by_contra hroot
      rw [Populate_V4_of_nil hc hstored hparents hroot (fuel + 1) rfl] at hsome
      cases hsome
    cases fuel with
    | zero => cases hloop
    | succ fuel =>
      refine (loopRootClasses_roots_of_class (fun s hs => ?_) (fun k hk s s' hs hstep => ?_) hloop).1
      · obtain ⟨hroots, hmap⟩ := populateClass_roots (.inr fun _ => hroot.2) hs
        exact ⟨hroots, .inl (hmap (.inr hroot.1))⟩
      · exact loopRootClasses_roots (.single ⟨k, hk, rfl⟩) hs hstep
  · refine (loopRootClasses_roots .refl (.inr fun c hc hstored => ?_) hloop).1
    by_contra hparents
    exact hbelow ⟨c, hc, hstored, hparents⟩

end

theorem Populate_V4_roots_belowTop : ∃ r, Populate_V4 (selfContaining [belowTop, belowItself]) 7 {} = some r ∧
    MOMRootRepository.Populate_V4 (selfContaining [belowTop, belowItself]) 6 {} = some r.toMOMRootRepository := by
  obtain ⟨r, hr⟩ := Option.isSome_iff_exists.mp
    (by decide : (Populate_V4 (selfContaining [belowTop, belowItself]) 7 {}).isSome = true)
  exact ⟨r, hr, Populate_V4_roots hr⟩

/-! ## What the translator asks -/

def RootRepository.registry (registeredParentMOCWithMOMVALUESet : List String)
    (registeredDecoratedIMMKeyAttributes : List (String × String)) (r : RootRepository) : Registry where
  theMOMRepository := r.toMOMRootRepository
  registeredParentMOCWithMOMVALUESet := registeredParentMOCWithMOMVALUESet
  registeredDecoratedIMMKeyAttributes := registeredDecoratedIMMKeyAttributes
  theKeyHolder := r.theKeyHolder.momOamSAKeyMOMRepoMAP.map fun x => (x.1, x.2.toOamSAKeyMOMRepo)

end ComSA.Translator
