import ComSA.Motransaction.PopulatedRoots

/-!
# Which containments may split the DN

Below a class with more than one parent nothing may split the DN, and a class may be split off below
one parent only. What `Populate_V4` marks as not valid is kept by the names of the containments.
-/

namespace ComSA.Translator

open Relation RootRepository

/-! ## What is not valid -/

/-- Above the class, or at it, there is one with more than one parent. -/
def Model.Branches (M : Model) (h : MocHandle) : Prop := ∃ a, M.Below a h ∧ 1 < (M.parentContainments a).length

def decoratedMom (M : Model) (k : Containment) : String :=
  let mom := M.momOf k.childMoc
  if mom.immNamespace = some DN_VALUE_MOM_NAME then mom.name else ""

/-- The containment splits the DN, and so does one of the same class below another parent, or a class above has
more than one parent. -/
def InvalidSplit (M : Model) (ks : List Containment) (k : Containment) : Prop :=
  MOMRootRepository.splitValue M k = true ∧
    (M.Branches k.parentMoc ∨
      ∃ k' ∈ ks, MOMRootRepository.splitValue M k' = true ∧
        (M.moc k'.childMoc).name = (M.moc k.childMoc).name ∧ (M.moc k'.parentMoc).name ≠ (M.moc k.parentMoc).name ∧
        decoratedMom M k' = decoratedMom M k)

/-! ## What is recorded -/

def Visit.containments : Visit → List Containment
  | .top _ => []
  | .under _ k ks => k :: ks

/-- The containments that are recorded, in the order in which that is done. -/
def recorded (M : Model) (fuel : Nat) : List Containment :=
  (visits M fuel M.root).flatMap Visit.containments

/-- The containment that was recorded last under a name, with all that was recorded by then. The last one comes
first. -/
def latest (n : String) : List Containment → Option (Containment × List Containment)
  | [] => none
  | k :: past => if k.name = n then some (k, k :: past) else latest n past

def splitsOf (M : Model) (past : List Containment) : List (String × Bool) :=
  past.map fun k => (k.name, MOMRootRepository.splitValue M k)

def NamesClash (name name' : String) : Prop :=
  ∃ parent parent' child, splitAtSeparator name.toList = some (parent, child) ∧
    splitAtSeparator name'.toList = some (parent', child) ∧ parent ≠ parent'

/-- Another containment, the last one of its name, splits off the same child of the same MOM. -/
def ClashRecorded (M : Model) (past : List Containment) (k : Containment) : Prop :=
  MOMRootRepository.splitValue M k = true ∧
    ∃ k' past', latest k'.name past = some (k', past') ∧ NamesClash k.name k'.name ∧
      MOMRootRepository.splitValue M k' = true ∧ decoratedMom M k' = decoratedMom M k

/-- What is kept under the name of a containment tells whether that containment is valid. -/
def ToldByName (M : Model) (ks : List Containment) (k : Containment) : Prop :=
  ∀ l past, latest k.name ks.reverse = some (l, past) →
    ((MOMRootRepository.isSplitImmDn l.name (splitsOf M past) = true ∧ M.Branches l.parentMoc ∨
      ClashRecorded M ks.reverse l) ↔ InvalidSplit M ks k)

def RootRepository.MarksInvalid (r : RootRepository) (contName : String) : Prop :=
  ∃ attributes, SortedMap.get? contName r.splitImmDnAttributes = some attributes ∧ attributes.valid = false

/-! ## The way up -/

section
variable {M : Model}

theorem branches_iff {h : MocHandle} :
    M.Branches h ↔ 1 < (M.parentContainments h).length ∨
      ∃ k ∈ M.parentContainments h, M.Branches k.parentMoc := by
  constructor
  · rintro ⟨a, ha, hmany⟩
    rcases ha.cases_tail with rfl | ⟨b, hab, k, hk, rfl⟩
    · exact Or.inl hmany
    · obtain ⟨hparent, hin⟩ := M.parentMoc_eq b k hk
      exact Or.inr ⟨k, hin, a, hparent ▸ hab, hmany⟩
  · rintro (hmany | ⟨k, hk, a, ha, hmany⟩)
    · exact ⟨h, .refl, hmany⟩
    · obtain ⟨hchild, hin⟩ := M.childMoc_eq h k hk
      exact ⟨a, ha.tail ⟨k, hin, hchild⟩, hmany⟩

theorem oneParentEach_eq {fuel : Nat} {h : MocHandle} {valid : Bool} (hends : oneParentEach M fuel h = some valid) :
    valid = false ↔ M.Branches h := by
  induction fuel generalizing h with
  | zero => cases hends
  | succ fuel ih =>
    rw [oneParentEach] at hends
    rw [branches_iff]
    split at hends <;> rename_i hks
    · obtain rfl := Option.some.inj hends
      rw [hks]
      simp
    · rename_i k
      rw [ih hends, hks]
      simp
    · obtain rfl := Option.some.inj hends
      rw [hks]
      simp

/-! ## What is kept -/

structure SplitNotes where
  splits : List (String × Bool)
  attributes : List (String × SplitImmDnAttributes)

def RootRepository.splitNotes (r : RootRepository) : SplitNotes :=
  ⟨r.containmentSplitImmDnAttributes, r.splitImmDnAttributes⟩

open Classical in
variable (M) in
noncomputable def notes : List Containment → SplitNotes
  | [] => ⟨[], []⟩
  | k :: past =>
    let blocked := MOMRootRepository.isSplitImmDn k.name (splitsOf M (k :: past)) = true ∧ M.Branches k.parentMoc
    ⟨splitsOf M (k :: past), SortedMap.put k.name ⟨!decide blocked, decoratedMom M k⟩ (notes past).attributes⟩

theorem notes_cons {k : Containment} {past : List Containment} (valid : Bool)
    (hvalid : valid = false ↔
      MOMRootRepository.isSplitImmDn k.name (splitsOf M (k :: past)) = true ∧ M.Branches k.parentMoc) :
    notes M (k :: past) = ⟨splitsOf M (k :: past),
      SortedMap.put k.name ⟨valid, decoratedMom M k⟩ (notes M past).attributes⟩ := by
  rw [notes]
  cases valid with
  | false => simp only [hvalid.mp rfl, decide_true, and_self, Bool.not_true]
  | true =>
    have hfree := hvalid.not.mp (Bool.noConfusion ·)
    simp only [hfree, decide_false, Bool.not_false]

theorem notes_splits (past : List Containment) : (notes M past).splits = splitsOf M past := by
  cases past <;> rfl

theorem get?_notes (n : String) (past : List Containment) :
    SortedMap.get? n (notes M past).attributes = none ∧ latest n past = none ∨
      ∃ k past' attributes, latest n past = some (k, past') ∧
        SortedMap.get? n (notes M past).attributes = some attributes ∧
        attributes.childMocMomName = decoratedMom M k ∧
        (attributes.valid = false ↔
          MOMRootRepository.isSplitImmDn k.name (splitsOf M past') = true ∧ M.Branches k.parentMoc) := by
  induction past with
  | nil => exact Or.inl ⟨rfl, rfl⟩
  | cons k past ih =>
    rw [notes, latest]
    dsimp only
    rw [SortedMap.get?_put]
    by_cases hn : k.name = n
    · rw [if_pos hn, if_pos hn.symm]
      exact Or.inr ⟨k, k :: past, _, rfl, rfl, rfl, by simp⟩
    · rw [if_neg hn, if_neg fun h => hn h.symm]
      exact ih

theorem latest_name {n : String} {past past' : List Containment} {k : Containment}
    (h : latest n past = some (k, past')) : k.name = n ∧ k ∈ past := by
  induction past with
  | nil => cases h
  | cons j past ih =>
    rw [latest] at h
    split at h <;> rename_i hj
    · cases h
      exact ⟨hj, List.mem_cons_self⟩
    · exact (ih h).imp_right (List.mem_cons_of_mem j)

theorem latest_isSome {past : List Containment} {k : Containment} (h : k ∈ past) : (latest k.name past).isSome := by
  induction past with
  | nil => cases h
  | cons j past ih =>
    rw [latest]
    split <;> rename_i hj
    · rfl
    · refine ih ((List.mem_cons.mp h).resolve_left ?_)
      rintro rfl
      exact hj rfl

theorem lookup_splitsOf (n : String) (past : List Containment) :
    (splitsOf M past).lookup n = (latest n past).map fun x => MOMRootRepository.splitValue M x.1 := by
  induction past with
  | nil => rfl
  | cons k past ih =>
    have hcons : splitsOf M (k :: past) = (k.name, MOMRootRepository.splitValue M k) :: splitsOf M past := rfl
    rw [hcons, List.lookup_cons, latest, ih]
    by_cases hn : k.name = n
    · rw [if_pos hn, beq_iff_eq.mpr hn.symm]
      rfl
    · rw [if_neg hn, beq_false_of_ne fun h => hn h.symm]

/-! ## The walk -/

section
variable {populate : RootRepository → Option RootRepository} {r r' : RootRepository} {h : MocHandle} {fuel : Nat}
  {past : List Containment}

theorem visitContainment_notes {k : Containment} (hr : r.myMOMRootMap ≠ []) (hpast : r.splitNotes = notes M past)
    (hvisit : visitContainment M populate fuel k r = some r') : r'.splitNotes = notes M (k :: past) := by
  have hsplits : r.containmentSplitImmDnAttributes = splitsOf M past :=
    (congrArg SplitNotes.splits hpast).trans (notes_splits past)
  have hattributes : r.splitImmDnAttributes = (notes M past).attributes := congrArg SplitNotes.attributes hpast
  have hnoted : (noteContainment M k r).myMOMRootMap ≠ [] := hr
  have hsplits' : (noteContainment M k r).containmentSplitImmDnAttributes = splitsOf M (k :: past) :=
    congrArg (List.cons _) hsplits
  have hattributes' : (noteContainment M k r).splitImmDnAttributes =
      SortedMap.put k.name ⟨true, decoratedMom M k⟩ (notes M past).attributes := by
    rw [← hattributes]
    rfl
  unfold visitContainment at hvisit
  rw [isSplitImmDn_of_ne_nil hnoted, Option.bind_eq_bind, Option.bind_some, hsplits'] at hvisit
  dsimp only at hvisit
  split at hvisit <;> rename_i hsplit
  · obtain ⟨valid, hvalid, rfl⟩ := Option.map_eq_some_iff.mp hvisit
    have hbranches := oneParentEach_eq hvalid
    rw [notes_cons valid (hbranches.trans (and_iff_right hsplit).symm)]
    cases valid with
    | true => exact congrArg₂ SplitNotes.mk hsplits' hattributes'
    | false =>
      have hinvalid : (setInvalid k.name (noteContainment M k r)).splitImmDnAttributes =
          SortedMap.put k.name ⟨false, decoratedMom M k⟩ (notes M past).attributes := by
        unfold setInvalid
        rw [hattributes']
        dsimp only
        rw [SortedMap.get?_put, if_pos rfl, SortedMap.put_put]
        rfl
      exact congrArg₂ SplitNotes.mk hsplits' hinvalid
  · obtain rfl := Option.some.inj hvisit
    rw [notes_cons true (iff_of_false nofun fun hblocked => hsplit hblocked.1)]
    exact congrArg₂ SplitNotes.mk hsplits' hattributes'

theorem insert_splitNotes (key : String) (den : MOMRootDataEntry) : (r.insert key den).splitNotes = r.splitNotes :=
  congrArg (SplitNotes.mk · r.splitImmDnAttributes) (split_insert key den)

theorem loopContainmentClass_V4_notes {k : Containment} {den : MOMRootDataEntry}
    {x : MOMRootDataEntry × RootRepository} (hr : r.myMOMRootMap ≠ []) (hpast : r.splitNotes = notes M past)
    (hloop : loopContainmentClass_V4 M populate fuel k den r = some x) :
    x.2.splitNotes = notes M ((chain M fuel k).reverse ++ past) := by
  induction fuel generalizing k den r past with
  | zero => cases hloop
  | succ fuel ih =>
    rw [loopContainmentClass_V4] at hloop
    obtain ⟨t, hvisit, hrest⟩ := Option.bind_eq_some_iff.mp hloop
    have ht := visitContainment_notes hr hpast hvisit
    have htmap : t.myMOMRootMap ≠ [] := by
      rw [visitContainment_roots hr hvisit]
      exact hr
    rw [chain, List.reverse_cons, List.append_assoc, List.singleton_append]
    dsimp only at hrest
    cases hhead : (M.parentContainments k.parentMoc).head? with
    | none =>
      rw [hhead] at hrest
      obtain rfl := Option.some.inj hrest
      exact ht
    | some next =>
      rw [hhead] at hrest
      exact ih htmap ht hrest

theorem getDecoratedRootClasses_V4_notes {den : MOMRootDataEntry} {x : Bool × RootRepository}
    (hr : r.myMOMRootMap ≠ []) (hdecorated : getDecoratedRootClasses_V4 M populate h den r = some x) :
    x.2.splitNotes = r.splitNotes := by
  unfold getDecoratedRootClasses_V4 at hdecorated
  split at hdecorated
  · rw [isSplitImmDn_of_ne_nil hr, Option.bind_eq_bind, Option.bind_some] at hdecorated
    obtain rfl := Option.some.inj hdecorated
    dsimp only
    split
    · exact insert_splitNotes _ _
    · rfl
  · obtain rfl := Option.some.inj hdecorated
    rfl

theorem populateParent_notes {k : Containment} (hr : r.myMOMRootMap ≠ []) (hpast : r.splitNotes = notes M past)
    (hparent : populateParent M populate fuel h r k = some r') :
    r'.splitNotes = notes M ((chain M fuel k).reverse ++ past) := by
  obtain ⟨⟨entry, t⟩, hloop, hparent⟩ := Option.bind_eq_some_iff.mp hparent
  have ht := loopContainmentClass_V4_notes hr hpast hloop
  have htmap := (loopContainmentClass_V4_roots hr hloop).2
  obtain ⟨⟨decorated, u⟩, hdecorated, hparent⟩ := Option.bind_eq_some_iff.mp hparent
  have hu := (getDecoratedRootClasses_V4_notes htmap hdecorated).trans ht
  dsimp only at hparent
  split at hparent <;> obtain rfl := Option.some.inj hparent
  · split
    · exact hu
    · exact (insert_splitNotes _ _).trans hu
  · rw [insert_splitNotes]
    split
    · exact hu
    · exact (insert_splitNotes _ _).trans hu

theorem containments_visitsOf (hfuel : fuel ≠ 0) (hstored : M.StoredAsRoot h) :
    (visitsOf M fuel h).flatMap Visit.containments = (M.parentContainments h).flatMap (chain M fuel) := by
  obtain ⟨fuel, rfl⟩ := Nat.exists_eq_add_one_of_ne_zero hfuel
  unfold visitsOf
  rw [if_pos (by rw [hstored.1, Option.isSome_iff_ne_none.mpr hstored.2]; rfl)]
  cases M.parentContainments h with
  | nil => rfl
  | cons k ks =>
    rw [List.flatMap_map]
    rfl

theorem populateClass_notes (hr : r.myMOMRootMap ≠ [] ∨ (M.StoredAsRoot h → M.parentContainments h = []))
    (hpast : r.splitNotes = notes M past) (hclass : populateClass M populate fuel h r = some r') :
    r'.splitNotes = notes M (((visitsOf M fuel h).flatMap Visit.containments).reverse ++ past) := by
  by_cases hstored : M.StoredAsRoot h
  · obtain ⟨theKeyHolder, ⟨hnil, rfl⟩ | ⟨hparents, hfold⟩⟩ := populateClass_of_storedAsRoot hstored hclass
    · have hvisits : (visitsOf M fuel h).flatMap Visit.containments = [] := by
        unfold visitsOf
        rw [hnil]
        split <;> rfl
      rw [hvisits]
      exact (insert_splitNotes _ _).trans hpast
    · have hne : r.myMOMRootMap ≠ [] := hr.resolve_right fun hnil => hparents (hnil hstored)
      have hfuel : fuel ≠ 0 := by
        rintro rfl
        obtain ⟨k, ks, hks⟩ := List.exists_cons_of_ne_nil hparents
        rw [hks] at hfold
        cases hfold
      rw [containments_visitsOf hfuel hstored]
      exact (foldlM_collects (I := fun r => r.myMOMRootMap ≠ []) (Q := fun past r => r.splitNotes = notes M past)
        (fun k _ past s s' hs hQ hstep => ⟨(populateParent_roots hs hstep).2, populateParent_notes hs hQ hstep⟩)
        (s := { r with theKeyHolder := theKeyHolder }) hne hpast hfold).2
  · have hvisits : visitsOf M fuel h = [] := by
      unfold visitsOf
      refine if_neg fun hboth => hstored ?_
      rw [Bool.and_eq_true] at hboth
      exact ⟨hboth.1, Option.isSome_iff_ne_none.mp hboth.2⟩
    rw [hvisits]
    obtain ⟨theKeyHolder, rfl⟩ := populateClass_of_not_storedAsRoot hstored hclass
    exact hpast

theorem loopRootClasses_notes_of_class
    (hclass : ∀ r', populateClass M populate fuel h r = some r' → Safe M r' ∧
      r'.splitNotes = notes M (((visitsOf M fuel h).flatMap Visit.containments).reverse ++ past))
    (hchildren : ∀ k ∈ M.childContainments h, ∀ past s s', Safe M s → s.splitNotes = notes M past →
      Populate_loopRootClasses_V4 M populate fuel k.childMoc s = some s' →
      Safe M s' ∧ s'.splitNotes = notes M (((visits M fuel k.childMoc).flatMap Visit.containments).reverse ++ past))
    (hloop : Populate_loopRootClasses_V4 M populate (fuel + 1) h r = some r') :
    Safe M r' ∧
      r'.splitNotes = notes M (((visits M (fuel + 1) h).flatMap Visit.containments).reverse ++ past) := by
  rw [Populate_loopRootClasses_V4] at hloop
  obtain ⟨t, ht, hfold⟩ := Option.bind_eq_some_iff.mp hloop
  obtain ⟨hsafe, hnotes⟩ := hclass t ht
  rw [visits, List.flatMap_append, List.reverse_append, List.append_assoc, List.flatMap_assoc]
  refine foldlM_collects (Q := fun past r => r.splitNotes = notes M past)
    (fun k hk past s s' hs hQ hstep => ?_) hsafe hnotes hfold
  split at hstep <;> rename_i hself
  · rw [if_pos hself]
    exact hchildren k hk past s s' hs hQ hstep
  · rw [if_neg hself]
    obtain rfl := Option.some.inj hstep
    exact ⟨hs, hQ⟩

theorem loopRootClasses_notes (hh : M.IsClass h) (hr : Safe M r) (hpast : r.splitNotes = notes M past)
    (hloop : Populate_loopRootClasses_V4 M populate fuel h r = some r') :
    Safe M r' ∧ r'.splitNotes = notes M (((visits M fuel h).flatMap Visit.containments).reverse ++ past) := by
  induction fuel generalizing h r r' past with
  | zero => cases hloop
  | succ fuel ih =>
    refine loopRootClasses_notes_of_class (fun t ht => ?_) (fun k hk past s s' hs hQ hstep => ?_) hloop
    · exact ⟨(populateClass_safe hh hr ht).2, populateClass_notes (hr.imp_right fun hnone => hnone h hh) hpast ht⟩
    · exact ih (hh.tail ⟨k, hk, rfl⟩) hs hQ hstep

end

theorem Populate_V4_notes {fuel : Nat} {r : RootRepository} (hpopulate : Populate_V4 M (fuel + 1) {} = some r) :
    ∃ t, r = checkModelValid t ∧ t.splitNotes = notes M (recorded M fuel).reverse := by
  have hsome := hpopulate
  rw [Populate_V4] at hpopulate
  obtain ⟨t, hloop, rfl⟩ := Option.map_eq_some_iff.mp hpopulate
  refine ⟨t, rfl, ?_⟩
  have hstart : ({} : RootRepository).splitNotes = notes M [] := rfl
  rw [← List.append_nil (recorded M fuel).reverse]
  by_cases hbelow : StoresBelow M
  · obtain ⟨c, hc, hstored, hparents⟩ := hbelow
    have hroot : StoresRoot M := by
      by_contra hroot
      rw [Populate_V4_of_nil hc hstored hparents hroot (fuel + 1) rfl] at hsome
      cases hsome
    cases fuel with
    | zero => cases hloop
    | succ fuel =>
      refine (loopRootClasses_notes_of_class (fun s hs => ?_) (fun k hk past s s' hs hQ hstep => ?_) hloop).2
      · have hmap := (populateClass_roots (.inr fun _ => hroot.2) hs).2
        exact ⟨.inl (hmap (.inr hroot.1)), populateClass_notes (.inr fun _ => hroot.2) hstart hs⟩
      · exact loopRootClasses_notes (.single ⟨k, hk, rfl⟩) hs hQ hstep
  · refine (loopRootClasses_notes .refl (.inr fun c hc hstored => ?_) hstart hloop).2
    by_contra hparents
    exact hbelow ⟨c, hc, hstored, hparents⟩

/-! ## The pairs of containments -/

/-- The pairs that `checkModelValid` goes through. -/
def laterPairs (names : List String) : List (String × String) :=
  names.tails.flatMap fun
    | [] => []
    | name :: names => names.map fun name' => (name, name')

theorem mem_of_mem_laterPairs {names : List String} {p : String × String} (h : p ∈ laterPairs names) :
    p.1 ∈ names ∧ p.2 ∈ names := by
  obtain ⟨t, ht, hp⟩ := List.mem_flatMap.mp h
  have hsub := ((List.mem_tails _ _).mp ht).subset
  cases t with
  | nil => cases hp
  | cons name rest =>
    obtain ⟨name', hname', rfl⟩ := List.mem_map.mp hp
    exact ⟨hsub List.mem_cons_self, hsub (List.mem_cons_of_mem name hname')⟩

theorem mem_laterPairs {names : List String} {name name' : String} (h : name ∈ names) (h' : name' ∈ names)
    (hne : name ≠ name') : (name, name') ∈ laterPairs names ∨ (name', name) ∈ laterPairs names := by
  have hlater {a b : String} {before after : List String} (hnames : names = before ++ a :: after) (hb : b ∈ after) :
      (a, b) ∈ laterPairs names :=
    List.mem_flatMap.mpr ⟨a :: after, (List.mem_tails _ _).mpr ⟨before, hnames.symm⟩,
      List.mem_map.mpr ⟨b, hb, rfl⟩⟩
  obtain ⟨before, after, hnames⟩ := List.append_of_mem h
  rw [hnames, List.mem_append, List.mem_cons] at h'
  rcases h' with hbefore | heq | hafter
  · obtain ⟨before₁, before₂, rfl⟩ := List.append_of_mem hbefore
    have hsplit : names = before₁ ++ name' :: (before₂ ++ name :: after) := by
      rw [hnames]
      simp
    exact Or.inr (hlater hsplit (by simp))
  · exact absurd heq.symm hne
  · exact Or.inl (hlater hnames hafter)

section
variable {r : RootRepository}

theorem bothSplit_symm (name name' : String) : bothSplit r name name' = bothSplit r name' name := by
  unfold bothSplit
  cases splitAtSeparator name.toList with
  | none => cases splitAtSeparator name'.toList <;> rfl
  | some x =>
    cases splitAtSeparator name'.toList with
    | none => rfl
    | some y =>
      dsimp only
      rw [Bool.eq_iff_iff]
      simp only [Bool.and_eq_true, beq_iff_eq, bne_iff_ne, ne_eq]
      constructor
      · rintro ⟨⟨⟨⟨hc, hp⟩, hm⟩, hs⟩, hs'⟩
        exact ⟨⟨⟨⟨hc.symm, fun h => hp h.symm⟩, hm.symm⟩, hs'⟩, hs⟩
      · rintro ⟨⟨⟨⟨hc, hp⟩, hm⟩, hs⟩, hs'⟩
        exact ⟨⟨⟨⟨hc.symm, fun h => hp h.symm⟩, hm.symm⟩, hs'⟩, hs⟩

theorem bothSplit_self (name : String) : bothSplit r name name = false := by
  unfold bothSplit
  cases splitAtSeparator name.toList with
  | none => rfl
  | some x => simp

theorem get?_setInvalid (contName n : String) (hkey : SortedMap.get? contName r.splitImmDnAttributes ≠ none) :
    SortedMap.get? n (setInvalid contName r).splitImmDnAttributes =
      (SortedMap.get? n r.splitImmDnAttributes).map fun a => { a with valid := a.valid && n != contName } := by
  unfold setInvalid
  dsimp only
  rw [SortedMap.get?_put]
  split <;> rename_i hn
  · subst hn
    obtain ⟨a, ha⟩ := Option.ne_none_iff_exists'.mp hkey
    rw [ha]
    simp
  · cases SortedMap.get? n r.splitImmDnAttributes with
    | none => rfl
    | some a => simp [bne_iff_ne.mpr hn]

theorem bothSplit_setInvalid {contName : String} (hkey : SortedMap.get? contName r.splitImmDnAttributes ≠ none)
    (name name' : String) : bothSplit (setInvalid contName r) name name' = bothSplit r name name' := by
  have hmom (n : String) :
    ((SortedMap.get? n (setInvalid contName r).splitImmDnAttributes).getD {}).childMocMomName =
      ((SortedMap.get? n r.splitImmDnAttributes).getD {}).childMocMomName := by
    rw [get?_setInvalid contName n hkey]
    cases SortedMap.get? n r.splitImmDnAttributes <;> rfl
  unfold bothSplit
  simp only [hmom]
  rfl

theorem get?_checkPairs {pairs : List (String × String)}
    (hkeys : ∀ p ∈ pairs, SortedMap.get? p.1 r.splitImmDnAttributes ≠ none ∧
      SortedMap.get? p.2 r.splitImmDnAttributes ≠ none) (n : String) :
    SortedMap.get? n (pairs.foldl (fun r p => if bothSplit r p.1 p.2 then (r.setInvalid p.1).setInvalid p.2 else r)
        r).splitImmDnAttributes =
      (SortedMap.get? n r.splitImmDnAttributes).map fun a => { a with
        valid := a.valid && !(pairs.any fun p => bothSplit r p.1 p.2 && (p.1 == n || p.2 == n)) } := by
  induction pairs generalizing r with
  | nil => simp
  | cons p pairs ih =>
    obtain ⟨hp, hpairs⟩ := List.forall_mem_cons.mp hkeys
    rw [List.foldl_cons, List.any_cons]
    by_cases hboth : bothSplit r p.1 p.2 = true
    · have hp₂ : SortedMap.get? p.2 (setInvalid p.1 r).splitImmDnAttributes ≠ none := by
        rw [get?_setInvalid p.1 p.2 hp.1]
        simpa using hp.2
      have hsame (a b : String) : bothSplit ((r.setInvalid p.1).setInvalid p.2) a b = bothSplit r a b := by
        rw [bothSplit_setInvalid hp₂, bothSplit_setInvalid hp.1]
      rw [if_pos hboth, ih, get?_setInvalid p.2 n hp₂, get?_setInvalid p.1 n hp.1, Option.map_map, Option.map_map]
      · simp only [hsame, hboth, Bool.true_and]
        congr 1
        funext a
        dsimp only [Function.comp_apply]
        congr 1
        rw [Bool.not_or, Bool.not_or, bne, bne, Bool.beq_comm (a := n), Bool.beq_comm (a := n)]
        simp only [Bool.and_assoc]
      · intro q hq
        have hq := hpairs q hq
        rw [get?_setInvalid p.2 _ hp₂, get?_setInvalid p.1 _ hp.1, get?_setInvalid p.2 _ hp₂,
          get?_setInvalid p.1 _ hp.1]
        simpa using hq
    · rw [if_neg hboth, ih hpairs, Bool.eq_false_iff.mpr hboth]
      simp

theorem checkModelValid_marksInvalid (n : String) :
    (checkModelValid r).MarksInvalid n ↔ ∃ a, SortedMap.get? n r.splitImmDnAttributes = some a ∧
      (a.valid = false ∨ ∃ n', SortedMap.get? n' r.splitImmDnAttributes ≠ none ∧ bothSplit r n n' = true) := by
  have hkeys : ∀ p ∈ laterPairs (r.splitImmDnAttributes.map Prod.fst),
      SortedMap.get? p.1 r.splitImmDnAttributes ≠ none ∧ SortedMap.get? p.2 r.splitImmDnAttributes ≠ none := by
    intro p hp
    obtain ⟨h₁, h₂⟩ := mem_of_mem_laterPairs hp
    exact ⟨fun h => SortedMap.get?_eq_none_iff.mp h h₁, fun h => SortedMap.get?_eq_none_iff.mp h h₂⟩
  have hpairs (a : SplitImmDnAttributes) (ha : SortedMap.get? n r.splitImmDnAttributes = some a) :
      ((laterPairs (r.splitImmDnAttributes.map Prod.fst)).any fun p =>
        bothSplit r p.1 p.2 && (p.1 == n || p.2 == n)) = true ↔
        ∃ n', SortedMap.get? n' r.splitImmDnAttributes ≠ none ∧ bothSplit r n n' = true := by
    simp only [List.any_eq_true, Bool.and_eq_true, Bool.or_eq_true, beq_iff_eq]
    constructor
    · rintro ⟨p, hp, hboth, rfl | rfl⟩
      · exact ⟨p.2, (hkeys p hp).2, hboth⟩
      · exact ⟨p.1, (hkeys p hp).1, by rw [bothSplit_symm]; exact hboth⟩
    · rintro ⟨n', hn', hboth⟩
      have hne : n ≠ n' := by
        rintro rfl
        rw [bothSplit_self] at hboth
        cases hboth
      have hmem {m : String} (hm : SortedMap.get? m r.splitImmDnAttributes ≠ none) :
          m ∈ r.splitImmDnAttributes.map Prod.fst := not_not.mp fun h => hm (SortedMap.get?_eq_none_iff.mpr h)
      rcases mem_laterPairs (hmem (by rw [ha]; exact Option.some_ne_none a)) (hmem hn') hne with h | h
      · exact ⟨_, h, hboth, Or.inl rfl⟩
      · exact ⟨_, h, by rw [bothSplit_symm]; exact hboth, Or.inr rfl⟩
  have hcheck := get?_checkPairs hkeys n
  change SortedMap.get? n (checkModelValid r).splitImmDnAttributes = _ at hcheck
  unfold MarksInvalid
  rw [hcheck]
  constructor
  · rintro ⟨attributes, hsome, hvalid⟩
    obtain ⟨a, ha, rfl⟩ := Option.map_eq_some_iff.mp hsome
    refine ⟨a, ha, ?_⟩
    rw [Bool.and_eq_false_iff, Bool.not_eq_false'] at hvalid
    exact hvalid.imp_right (hpairs a ha).mp
  · rintro ⟨a, ha, hor⟩
    refine ⟨_, Option.map_eq_some_iff.mpr ⟨a, ha, rfl⟩, ?_⟩
    rw [Bool.and_eq_false_iff, Bool.not_eq_false']
    exact hor.imp_right (hpairs a ha).mpr

theorem bothSplit_eq_true (name name' : String) :
    bothSplit r name name' = true ↔ NamesClash name name' ∧
      ((SortedMap.get? name' r.splitImmDnAttributes).getD {}).childMocMomName =
        ((SortedMap.get? name r.splitImmDnAttributes).getD {}).childMocMomName ∧
      (r.containmentSplitImmDnAttributes.lookup name).getD false = true ∧
      (r.containmentSplitImmDnAttributes.lookup name').getD false = true := by
  unfold bothSplit NamesClash
  cases splitAtSeparator name.toList with
  | none => simp
  | some x =>
    cases splitAtSeparator name'.toList with
    | none => simp
    | some y =>
      obtain ⟨parent, child⟩ := x
      obtain ⟨parent', child'⟩ := y
      simp only [Bool.and_eq_true, beq_iff_eq, bne_iff_ne, ne_eq, Option.some_inj, Prod.mk.injEq]
      constructor
      · rintro ⟨⟨⟨⟨rfl, hp⟩, hm⟩, hs⟩, hs'⟩
        exact ⟨⟨parent, parent', child, ⟨rfl, rfl⟩, ⟨rfl, rfl⟩, hp⟩, hm.symm, hs, hs'⟩
      · rintro ⟨⟨_, _, _, ⟨rfl, rfl⟩, ⟨rfl, rfl⟩, hp⟩, hm, hs, hs'⟩
        exact ⟨⟨⟨⟨rfl, hp⟩, hm.symm⟩, hs⟩, hs'⟩

theorem stored_of_latest {M : Model} {past past' : List Containment} (hnotes : r.splitNotes = notes M past)
    {n : String} {k : Containment} (hk : latest n past = some (k, past')) :
    SortedMap.get? n r.splitImmDnAttributes ≠ none ∧
      ((SortedMap.get? n r.splitImmDnAttributes).getD {}).childMocMomName = decoratedMom M k ∧
      (r.containmentSplitImmDnAttributes.lookup n).getD false = MOMRootRepository.splitValue M k := by
  have hattributes : r.splitImmDnAttributes = (notes M past).attributes := congrArg SplitNotes.attributes hnotes
  have hsplits : r.containmentSplitImmDnAttributes = splitsOf M past :=
    (congrArg SplitNotes.splits hnotes).trans (notes_splits past)
  rcases get?_notes (M := M) n past with ⟨-, hnone⟩ | ⟨l, _, a, hlast, ha, hmom, -⟩
  · rw [hk] at hnone
    cases hnone
  · obtain ⟨rfl, rfl⟩ := Prod.mk.inj (Option.some.inj (hk.symm.trans hlast))
    rw [hattributes, ha, hsplits, lookup_splitsOf, hk]
    exact ⟨nofun, hmom, rfl⟩

theorem exists_bothSplit_iff {M : Model} {past past' : List Containment} (hnotes : r.splitNotes = notes M past)
    {k : Containment} (hk : latest k.name past = some (k, past')) :
    (∃ n', SortedMap.get? n' r.splitImmDnAttributes ≠ none ∧ bothSplit r k.name n' = true) ↔
      ClashRecorded M past k := by
  obtain ⟨-, hmom, hsplit⟩ := stored_of_latest hnotes hk
  simp only [bothSplit_eq_true, hmom, hsplit]
  constructor
  · rintro ⟨n', hstored, hclash, hmom', hs, hs'⟩
    refine ⟨hs, ?_⟩
    rcases get?_notes (M := M) n' past with ⟨hnone, -⟩ | ⟨k', past'', _, hlast, -, -, -⟩
    · rw [← congrArg SplitNotes.attributes hnotes] at hnone
      exact absurd hnone hstored
    · obtain ⟨-, hk', hsplit'⟩ := stored_of_latest hnotes hlast
      obtain rfl := (latest_name hlast).1
      exact ⟨k', past'', hlast, hclash, hsplit' ▸ hs', hk' ▸ hmom'⟩
  · rintro ⟨hs, k', past'', hlast, hclash, hs', hmom'⟩
    obtain ⟨hstored, hk', hsplit'⟩ := stored_of_latest hnotes hlast
    exact ⟨k'.name, hstored, hclash, hk'.trans hmom', hs, hsplit'.trans hs'⟩

end

section
variable {M : Model} {fuel : Nat} {r : RootRepository}

theorem Populate_V4_marksInvalid (hpopulate : Populate_V4 M (fuel + 1) {} = some r) {l : Containment}
    {past : List Containment} (hl : latest l.name (recorded M fuel).reverse = some (l, past)) :
    r.MarksInvalid l.name ↔
      MOMRootRepository.isSplitImmDn l.name (splitsOf M past) = true ∧ M.Branches l.parentMoc ∨
        ClashRecorded M (recorded M fuel).reverse l := by
  obtain ⟨t, rfl, hnotes⟩ := Populate_V4_notes hpopulate
  have hattributes : t.splitImmDnAttributes = (notes M (recorded M fuel).reverse).attributes :=
    congrArg SplitNotes.attributes hnotes
  rcases get?_notes (M := M) l.name (recorded M fuel).reverse with ⟨-, hnone⟩ | ⟨l', past', a, hlast, ha, -, hvalid⟩
  · rw [hl] at hnone
    cases hnone
  · obtain ⟨rfl, rfl⟩ := Prod.mk.inj (Option.some.inj (hl.symm.trans hlast))
    rw [checkModelValid_marksInvalid, hattributes, ha]
    simp only [Option.some_inj, exists_eq_left', hvalid]
    rw [← hattributes, exists_bothSplit_iff hnotes hl]

theorem marksInvalid_iff_told (hpopulate : Populate_V4 M (fuel + 1) {} = some r) :
    (∀ k ∈ recorded M fuel, (r.MarksInvalid k.name ↔ InvalidSplit M (recorded M fuel) k)) ↔
      ∀ k ∈ recorded M fuel, ToldByName M (recorded M fuel) k := by
  refine forall₂_congr fun k hk => ?_
  obtain ⟨⟨l, past⟩, hl⟩ := Option.isSome_iff_exists.mp (latest_isSome (List.mem_reverse.mpr hk))
  have hname := (latest_name hl).1
  unfold ToldByName
  simp only [hl, Option.some_inj, Prod.mk.injEq, and_imp, forall_eq', forall_apply_eq_imp_iff]
  rw [← hname] at hl ⊢
  rw [Populate_V4_marksInvalid hpopulate hl]

end

/-! ## Models with names that tell enough -/

theorem latest_head {n : String} {past past' : List Containment} {k : Containment}
    (h : latest n past = some (k, past')) : ∃ rest, past' = k :: rest := by
  induction past with
  | nil => cases h
  | cons j past ih =>
    rw [latest] at h
    split at h
    · cases h
      exact ⟨past, rfl⟩
    · exact ih h

/-- The names of the containments tell them apart: that of one that splits is cut into the names of its parent and its
child, none below a class with several parents has a dot, and those that share a name agree. -/
structure NamesTell (M : Model) (ks : List Containment) : Prop where
  parts : ∀ k ∈ ks, MOMRootRepository.splitValue M k = true →
    splitAtSeparator k.name.toList = some ((M.moc k.parentMoc).name.toList, (M.moc k.childMoc).name.toList)
  dots : ∀ k ∈ ks, M.Branches k.parentMoc → '.' ∉ k.name.toList
  flag : ∀ k ∈ ks, ∀ l ∈ ks, k.name = l.name → MOMRootRepository.splitValue M k = MOMRootRepository.splitValue M l
  agree : ∀ k ∈ ks, ∀ l ∈ ks, k.name = l.name → MOMRootRepository.splitValue M k = true →
    decoratedMom M k = decoratedMom M l ∧ (M.Branches k.parentMoc ↔ M.Branches l.parentMoc)

namespace NamesTell

variable {M : Model} {ks : List Containment}

theorem asked_iff (h : NamesTell M ks) {l : Containment} (hl : l ∈ ks) (rest : List Containment) :
    MOMRootRepository.isSplitImmDn l.name (splitsOf M (l :: rest)) = true ∧ M.Branches l.parentMoc ↔
      MOMRootRepository.splitValue M l = true ∧ M.Branches l.parentMoc := by
  refine and_congr_left fun hbranches => ?_
  rw [MOMRootRepository.isSplitImmDn, splitKey, if_neg (h.dots l hl hbranches), lookup_splitsOf, latest, if_pos rfl]
  rfl

theorem clash_iff (h : NamesTell M ks) {k k' : Containment} (hk : k ∈ ks) (hk' : k' ∈ ks)
    (hs : MOMRootRepository.splitValue M k = true) (hs' : MOMRootRepository.splitValue M k' = true) :
    NamesClash k.name k'.name ↔
      (M.moc k'.childMoc).name = (M.moc k.childMoc).name ∧
        (M.moc k'.parentMoc).name ≠ (M.moc k.parentMoc).name := by
  unfold NamesClash
  rw [h.parts k hk hs, h.parts k' hk' hs']
  simp only [Option.some_inj, Prod.mk.injEq]
  constructor
  · rintro ⟨_, _, _, ⟨rfl, rfl⟩, ⟨rfl, hchild⟩, hparents⟩
    exact ⟨String.toList_injective hchild, fun h => hparents (congrArg String.toList h.symm)⟩
  · rintro ⟨hchild, hparents⟩
    exact ⟨_, _, _, ⟨rfl, rfl⟩, ⟨rfl, by rw [hchild]⟩, fun h => hparents (String.toList_injective h.symm)⟩

theorem clashRecorded_iff (h : NamesTell M ks) {l : Containment} (hl : l ∈ ks) :
    ClashRecorded M ks.reverse l ↔ MOMRootRepository.splitValue M l = true ∧
      ∃ k' ∈ ks, MOMRootRepository.splitValue M k' = true ∧
        (M.moc k'.childMoc).name = (M.moc l.childMoc).name ∧ (M.moc k'.parentMoc).name ≠ (M.moc l.parentMoc).name ∧
        decoratedMom M k' = decoratedMom M l := by
  refine and_congr_right fun hs => ?_
  constructor
  · rintro ⟨k', past', hk', hclash, hs', hmom'⟩
    have hk'ks := List.mem_reverse.mp (latest_name hk').2
    obtain ⟨hchild, hparent⟩ := (h.clash_iff hl hk'ks hs hs').mp hclash
    exact ⟨k', hk'ks, hs', hchild, hparent, hmom'⟩
  · rintro ⟨k', hk', hs', hchild, hparent, hmom'⟩
    -- the last containment of the name stands for it
    obtain ⟨⟨l', past'⟩, hl'⟩ := Option.isSome_iff_exists.mp (latest_isSome (List.mem_reverse.mpr hk'))
    have hl'name := (latest_name hl').1
    have hl'ks := List.mem_reverse.mp (latest_name hl').2
    have hsplit := h.flag k' hk' l' hl'ks hl'name.symm
    obtain ⟨hmom, -⟩ := h.agree k' hk' l' hl'ks hl'name.symm hs'
    refine ⟨l', past', by rw [hl'name]; exact hl', ?_, hsplit ▸ hs', hmom ▸ hmom'⟩
    rw [hl'name]
    exact (h.clash_iff hl hk' hs hs').mpr ⟨hchild, hparent⟩

theorem toldByName (h : NamesTell M ks) {k : Containment} (hk : k ∈ ks) : ToldByName M ks k := by
  intro l past hlast
  have hlname := (latest_name hlast).1
  have hl := List.mem_reverse.mp (latest_name hlast).2
  obtain ⟨rest, rfl⟩ := latest_head hlast
  have hflag := h.flag k hk l hl hlname.symm
  rw [h.asked_iff hl, h.clashRecorded_iff hl, ← and_or_left, ← hflag]
  unfold InvalidSplit
  refine and_congr_right fun hs => ?_
  obtain ⟨hmom, hbranches⟩ := h.agree k hk l hl hlname.symm hs
  have hsame := (h.parts k hk hs).symm.trans ((congrArg (fun n : String => splitAtSeparator n.toList)
    hlname.symm).trans (h.parts l hl (hflag ▸ hs)))
  rw [Option.some_inj, Prod.mk.injEq] at hsame
  rw [hmom, hbranches, String.toList_injective hsame.1, String.toList_injective hsame.2]

end NamesTell

/-- Where the names tell the containments apart, every containment recorded is marked as not valid exactly where it is
not. -/
theorem splitValidity_of_names {M : Model} {fuel : Nat} {r : RootRepository}
    (hpopulate : Populate_V4 M (fuel + 1) {} = some r) (hnames : NamesTell M (recorded M fuel)) :
    ∀ k ∈ recorded M fuel, (r.MarksInvalid k.name ↔ InvalidSplit M (recorded M fuel) k) :=
  (marksInvalid_iff_told hpopulate).mpr fun _ hk => hnames.toldByName hk

def twoParents : Model :=
  .ofContainments 0
    (fun h => match h with
      | 0 => ⟨"ManagedElement", 0, true, some "managedElementId"⟩
      | 1 => ⟨"A", 0, false, some "aId"⟩
      | 2 => ⟨"B", 0, false, some "bId"⟩
      | 3 => ⟨"X", 1, false, some "xId"⟩
      | _ => ⟨"Y", 1, false, some "yId"⟩)
    (fun h => match h with
      | 0 => ⟨"ComTop", none⟩
      | _ => ⟨"M1", some "MOM_NAME"⟩)
    [⟨"ManagedElement_to_B", 0, 2, none⟩, ⟨"ManagedElement_to_A", 0, 1, none⟩, ⟨"A_to_Y", 1, 4, none⟩,
      ⟨"A_to_X", 1, 3, none⟩, ⟨"B_to_X", 2, 3, none⟩]

theorem namesTell_twoParents : NamesTell twoParents (recorded twoParents 5) := by
  have hdots : ∀ k ∈ recorded twoParents 5, '.' ∉ k.name.toList := by decide
  have hname : ∀ k ∈ recorded twoParents 5, ∀ l ∈ recorded twoParents 5, k.name = l.name → k = l := by decide
  refine ⟨by decide, fun k hk _ => hdots k hk, fun k hk l hl h => ?_, fun k hk l hl h _ => ?_⟩
  · rw [hname k hk l hl h]
  · rw [hname k hk l hl h]
    exact ⟨rfl, Iff.rfl⟩

theorem splitValidity_of_names_twoParents :
    ∃ r, Populate_V4 twoParents 6 {} = some r ∧ r.MarksInvalid "A_to_X" ∧ r.MarksInvalid "B_to_X" ∧
      ¬ r.MarksInvalid "A_to_Y" := by
  obtain ⟨r, hr⟩ := Option.isSome_iff_exists.mp (by decide : (Populate_V4 twoParents 6 {}).isSome = true)
  have hright := splitValidity_of_names hr namesTell_twoParents
  have hclash : ∀ k ∈ [(⟨"A_to_X", 1, 3, none⟩ : Containment), ⟨"B_to_X", 2, 3, none⟩],
      k ∈ recorded twoParents 5 ∧ InvalidSplit twoParents (recorded twoParents 5) k := by
    intro k hk
    rcases List.mem_pair.mp hk with rfl | rfl
    · exact ⟨by decide, by decide,
        Or.inr ⟨⟨"B_to_X", 2, 3, none⟩, by decide, by decide, by decide, by decide, by decide⟩⟩
    · exact ⟨by decide, by decide,
        Or.inr ⟨⟨"A_to_X", 1, 3, none⟩, by decide, by decide, by decide, by decide, by decide⟩⟩
  have hvalid : ¬ InvalidSplit twoParents (recorded twoParents 5) ⟨"A_to_Y", 1, 4, none⟩ := by
    have hparent : oneParentEach twoParents 3 1 = some true := by decide
    rintro ⟨-, hbranches | ⟨k', hk', -, hchild, hparent, -⟩⟩
    · exact absurd ((oneParentEach_eq hparent).mpr hbranches) (by decide)
    · revert k'
      decide
  obtain ⟨hx, hinvalid⟩ := hclash ⟨"A_to_X", 1, 3, none⟩ (by decide)
  obtain ⟨hx', hinvalid'⟩ := hclash ⟨"B_to_X", 2, 3, none⟩ (by decide)
  have hy : (⟨"A_to_Y", 1, 4, none⟩ : Containment) ∈ recorded twoParents 5 := by decide
  exact ⟨r, hr, (hright _ hx).mpr hinvalid, (hright _ hx').mpr hinvalid', fun h => hvalid ((hright _ hy).mp h)⟩

/-- The class `X` of `M1` is below `A` and `B`, and the class `X` of `M2` is below `A` too. -/
def sharedName : Model :=
  .ofContainments 0
    (fun h => match h with
      | 0 => ⟨"ManagedElement", 0, true, some "managedElementId"⟩
      | 1 => ⟨"A", 0, false, some "aId"⟩
      | 2 => ⟨"B", 0, false, some "bId"⟩
      | 3 => ⟨"X", 1, false, some "xId"⟩
      | _ => ⟨"X", 2, false, some "xId"⟩)
    (fun h => match h with
      | 0 => ⟨"ComTop", none⟩
      | 1 => ⟨"M1", some "MOM_NAME"⟩
      | _ => ⟨"M2", some "MOM_NAME"⟩)
    [⟨"ManagedElement_to_B", 0, 2, none⟩, ⟨"ManagedElement_to_A", 0, 1, none⟩, ⟨"A_to_X", 1, 3, none⟩,
      ⟨"B_to_X", 2, 3, none⟩, ⟨"A_to_X", 1, 4, none⟩]

/-- Both containments of the first `X` split the DN, and the name of one of them was taken by the second. -/
theorem not_splitValidity :
    ¬ ∀ (M : Model) (fuel : Nat) (r : RootRepository), Populate_V4 M (fuel + 1) {} = some r →
      ∀ k ∈ recorded M fuel, (r.MarksInvalid k.name ↔ InvalidSplit M (recorded M fuel) k) := by
  intro h
  obtain ⟨r, hr⟩ := Option.isSome_iff_exists.mp (by decide : (Populate_V4 sharedName 6 {}).isSome = true)
  have hstored : (Populate_V4 sharedName 6 {}).map (fun r => SortedMap.get? "B_to_X" r.splitImmDnAttributes) =
      some (some ⟨true, "M1"⟩) := by decide
  rw [hr, Option.map_some, Option.some_inj] at hstored
  have hinvalid : InvalidSplit sharedName (recorded sharedName 5) ⟨"B_to_X", 2, 3, none⟩ :=
    ⟨by decide, Or.inr ⟨⟨"A_to_X", 1, 3, none⟩, by decide, by decide, by decide, by decide, by decide⟩⟩
  obtain ⟨a, ha, hfalse⟩ := (h sharedName 5 r hr ⟨"B_to_X", 2, 3, none⟩ (by decide)).mpr hinvalid
  rw [hstored] at ha
  cases ha
  cases hfalse

end

end ComSA.Translator
