import ComSA.Motransaction.Populate

/-!
# The repository of each parent of a root class

What a repository comes to hold is what the walk from its root class comes by. No two
root classes share a repository unless their search keys agree, and what is in a
repository once stays in it.
-/

namespace ComSA.Translator

open Relation RootRepository

namespace Model

variable (M : Model)

def RootClass (r : MocHandle) : Prop :=
  (M.moc r).isRoot = true ∨ ∃ k ∈ M.parentContainments r, (M.momOf k.parentMoc).name ≠ (M.momOf r).name

def UniqueNames : Prop :=
  ∀ c d, M.IsClass c → M.IsClass d → (M.momOf c).name = (M.momOf d).name → (M.moc c).name = (M.moc d).name → c = d

def ContainsIn (momName : String) (h h' : MocHandle) : Prop := M.Contains h h' ∧ (M.momOf h').name = momName

/-- The class is reached from the root class through classes of its MOM. -/
def Covered (r c : MocHandle) : Prop := ReflTransGen (M.ContainsIn (M.momOf r).name) r c

def Exactly (r : MocHandle) (known : String → Option String) : Prop :=
  ∀ name keyAttribute, known name = some keyAttribute ↔
    ∃ c, M.Covered r c ∧ (M.moc c).name = name ∧ (M.moc c).keyAttribute = some keyAttribute

variable {M} {r h c : MocHandle} {momName : String}

theorem isMocChildofEcimContribution_V4_iff : M.IsMocChildofEcimContribution_V4 r = true ↔ M.RootClass r := by
  unfold IsMocChildofEcimContribution_V4 RootClass sameMom_V4
  simp

theorem Covered.isClass (hr : M.IsClass r) (hc : M.Covered r c) : M.IsClass c :=
  hr.trans (ReflTransGen.mono (fun _ _ h => h.1) _ _ hc)

theorem Covered.mom (hc : M.Covered r c) : (M.momOf c).name = (M.momOf r).name := by
  rcases hc.cases_tail with rfl | ⟨_, _, _, hmom⟩
  · rfl
  · exact hmom

theorem cases_head_ne {R : MocHandle → MocHandle → Prop} {a b : MocHandle} (hab : ReflTransGen R a b) :
    a = b ∨ ∃ d, d ≠ a ∧ R a d ∧ ReflTransGen R d b := by
  induction hab using ReflTransGen.head_induction_on with
  | refl => exact .inl rfl
  | @head a d had hdb ih =>
    by_cases hda : d = a
    · subst hda
      exact ih
    · exact .inr ⟨d, hda, had, hdb⟩

theorem getMocNameAndKey_V4_some_iff {x : String × String} :
    M.getMocNameAndKey_V4 h (some momName) = some x ↔
      (M.momOf h).name = momName ∧ (M.moc h).keyAttribute = some x.2 ∧ (M.moc h).name = x.1 := by
  unfold getMocNameAndKey_V4 sameMom_V4
  rw [Option.all_some]
  split <;> rename_i hmom
  · rw [beq_iff_eq] at hmom
    rw [Option.map_eq_some_iff]
    constructor
    · rintro ⟨key, hkey, rfl⟩
      exact ⟨hmom, hkey, rfl⟩
    · rintro ⟨_, hkey, hname⟩
      exact ⟨x.2, hkey, by rw [hname]⟩
  · rw [beq_iff_eq] at hmom
    simp [hmom]

end Model

/-! ## The walk through a MOM -/

section
variable {M : Model} {r h c : MocHandle} {m m' : KeyMOMRepo} {fuel : Nat}
  {name previousClassName momName : String}

theorem key_setKeyAttributeForClass_retains (className keyAttribute : String) (hname : m.key name ≠ none) :
    (m.setKeyAttributeForClass className keyAttribute).key name ≠ none := by
  rcases KeyMOMRepo.key_setKeyAttributeForClass (m := m) className keyAttribute name with ⟨hkey, _⟩ | ⟨_, hkey⟩
  · rw [hkey]
    exact hname
  · rw [hkey]
    exact Option.some_ne_none _

theorem key_setKeyAttributeForClass_self (className keyAttribute : String) :
    (m.setKeyAttributeForClass className keyAttribute).key className ≠ none := by
  rcases KeyMOMRepo.key_setKeyAttributeForClass (m := m) className keyAttribute className
    with ⟨hkey, hin⟩ | ⟨_, hkey⟩
  · rw [hkey]
    exact hin rfl
  · rw [hkey]
    exact Option.some_ne_none _

theorem retriveMomClassesAndKeyAttributes_retains
    (hwalk : M.RetriveMomClassesAndKeyAttributes_V4 momName fuel h previousClassName m = some m')
    (hname : m.key name ≠ none) : m'.key name ≠ none := by
  induction fuel generalizing h previousClassName m m' with
  | zero => cases hwalk
  | succ fuel ih =>
    rw [Model.RetriveMomClassesAndKeyAttributes_V4] at hwalk
    refine foldlM_keeps (I := fun m => m.key name ≠ none) (fun k _ s s' hs hstep => ?_) hname hwalk
    split at hstep
    · obtain rfl := Option.some.inj hstep
      exact hs
    · rename_i x className keyAttribute _
      have hset := key_setKeyAttributeForClass_retains className keyAttribute hs
      dsimp only at hstep
      split at hstep
      · exact ih hstep hset
      · obtain rfl := Option.some.inj hstep
        exact hset

def Sound (M : Model) (r : MocHandle) (m : KeyMOMRepo) : Prop :=
  ∀ name keyAttribute, m.key name = some keyAttribute →
    ∃ c, M.Covered r c ∧ (M.moc c).name = name ∧ (M.moc c).keyAttribute = some keyAttribute

theorem Sound.set (hm : Sound M r m) (hc : M.Covered r c) {className keyAttribute : String}
    (hname : (M.moc c).name = className) (hkey : (M.moc c).keyAttribute = some keyAttribute) :
    Sound M r (m.setKeyAttributeForClass className keyAttribute) := by
  intro name' keyAttribute' hin
  rcases KeyMOMRepo.key_setKeyAttributeForClass (m := m) className keyAttribute name' with ⟨hsame, _⟩ |
    ⟨rfl, hnew⟩
  · rw [hsame] at hin
    exact hm name' keyAttribute' hin
  · rw [hnew] at hin
    obtain rfl := Option.some.inj hin
    exact ⟨c, hc, hname, hkey⟩

theorem retriveMomClassesAndKeyAttributes_sound (hh : M.Covered r h)
    (hwalk : M.RetriveMomClassesAndKeyAttributes_V4 (M.momOf r).name fuel h previousClassName m = some m')
    (hm : Sound M r m) : Sound M r m' := by
  induction fuel generalizing h previousClassName m m' with
  | zero => cases hwalk
  | succ fuel ih =>
    rw [Model.RetriveMomClassesAndKeyAttributes_V4] at hwalk
    refine foldlM_keeps (I := Sound M r) (fun k hk s s' hs hstep => ?_) hm hwalk
    split at hstep
    · obtain rfl := Option.some.inj hstep
      exact hs
    · rename_i x className keyAttribute hx
      obtain ⟨hmom, hkey, hname⟩ := Model.getMocNameAndKey_V4_some_iff.mp hx
      have hchild : M.Covered r k.childMoc := hh.tail ⟨⟨k, hk, rfl⟩, hmom⟩
      have hset := hs.set hchild hname hkey
      dsimp only at hstep
      split at hstep
      · exact ih hchild hstep hset
      · obtain rfl := Option.some.inj hstep
        exact hset

theorem retriveMomClassesAndKeyAttributes_complete (hkeys : ∀ c, M.IsClass c → (M.moc c).keyAttribute ≠ none)
    (hnames : M.UniqueNames) (hr : M.IsClass r) (hh : M.Covered r h)
    (hwalk : M.RetriveMomClassesAndKeyAttributes_V4 (M.momOf r).name fuel h (M.moc h).name m = some m')
    (hm : m.key (M.moc h).name ≠ none) (hc : ReflTransGen (M.ContainsIn (M.momOf r).name) h c) :
    m'.key (M.moc c).name ≠ none := by
  induction fuel generalizing h m m' with
  | zero => cases hwalk
  | succ fuel ih =>
    rcases Model.cases_head_ne hc with rfl | ⟨d, hne, ⟨⟨k, hk, rfl⟩, hmom⟩, hdc⟩
    · exact retriveMomClassesAndKeyAttributes_retains hwalk hm
    · have hchild : M.Covered r k.childMoc := hh.tail ⟨⟨k, hk, rfl⟩, hmom⟩
      rw [Model.RetriveMomClassesAndKeyAttributes_V4] at hwalk
      refine foldlM_reaches (I := fun _ => True) (P := fun m => m.key (M.moc c).name ≠ none) hk
        (fun _ _ _ _ _ _ => trivial) (fun s s' _ hstep => ?_) (fun j _ s s' _ hs hstep => ?_) trivial hwalk
      · obtain ⟨keyAttribute, hkey⟩ := Option.ne_none_iff_exists'.mp (hkeys _ (hchild.isClass hr))
        have hx : M.getMocNameAndKey_V4 k.childMoc (some (M.momOf r).name) =
            some ((M.moc k.childMoc).name, keyAttribute) :=
          Model.getMocNameAndKey_V4_some_iff.mpr ⟨hmom, hkey, rfl⟩
        rw [hx] at hstep
        have hprevious : (M.moc k.childMoc).name ≠ (M.moc h).name := fun hname =>
          hne (hnames _ _ (hchild.isClass hr) (hh.isClass hr) (hmom.trans hh.mom.symm) hname)
        dsimp only at hstep
        rw [if_pos hprevious] at hstep
        exact ih hchild hstep (key_setKeyAttributeForClass_self _ _) hdc
      · split at hstep
        · obtain rfl := Option.some.inj hstep
          exact hs
        · rename_i x className keyAttribute _
          have hset := key_setKeyAttributeForClass_retains className keyAttribute hs
          dsimp only at hstep
          split at hstep
          · exact retriveMomClassesAndKeyAttributes_retains hstep hset
          · obtain rfl := Option.some.inj hstep
            exact hset

theorem fillMOMRepo_exactly (hkeys : ∀ c, M.IsClass c → (M.moc c).keyAttribute ≠ none) (hnames : M.UniqueNames)
    (hr : M.IsClass r) {keyAttribute : String} (hkey : (M.moc r).keyAttribute = some keyAttribute)
    (hfill : M.fillMOMRepo fuel r (M.moc r).name keyAttribute {} = some m) : M.Exactly r m.key := by
  have hempty : Sound M r {} := fun name keyAttribute hin => nomatch hin
  have hsound : Sound M r m :=
    retriveMomClassesAndKeyAttributes_sound .refl hfill (hempty.set .refl rfl hkey)
  have hcomplete : ∀ c, M.Covered r c → m.key (M.moc c).name ≠ none := fun c hc =>
    retriveMomClassesAndKeyAttributes_complete hkeys hnames hr .refl hfill
      (key_setKeyAttributeForClass_self (M.moc r).name keyAttribute) hc
  intro name keyAttribute'
  constructor
  · exact hsound name keyAttribute'
  · rintro ⟨c, hc, rfl, hkey'⟩
    obtain ⟨known, hknown⟩ := Option.ne_none_iff_exists'.mp (hcomplete c hc)
    obtain ⟨d, hd, hname, hkeyd⟩ := hsound _ _ hknown
    obtain rfl := hnames d c (hd.isClass hr) (hc.isClass hr) (hd.mom.trans hc.mom.symm) hname
    rw [hknown, ← hkeyd, hkey']

/-! ## One root class -/

section
variable {classNameRoot keyAttributeRoot : String} {holder holder' : OamSAKeyAttributeRepository}

theorem populateParents_cons {parent : String} {parents : List String}
    (hloop : M.populateParents fuel r classNameRoot keyAttributeRoot (parent :: parents) holder = some holder') :
    (holder.keys (parent ++ "_" ++ classNameRoot) ≠ none ∧ holder' = holder) ∨
      (holder.keys (parent ++ "_" ++ classNameRoot) = none ∧
        ∃ m next, M.fillMOMRepo fuel r classNameRoot keyAttributeRoot {} = some m ∧
          M.populateParents fuel r classNameRoot keyAttributeRoot parents next = some holder' ∧
          ∀ searchKey, next.keys searchKey =
            if searchKey = parent ++ "_" ++ classNameRoot then some m.key else holder.keys searchKey) := by
  rw [Model.populateParents] at hloop
  split at hloop <;> rename_i hset
  · obtain rfl := Option.some.inj hloop
    refine .inl ⟨fun hnone => OamSAKeyAttributeRepository.setMOMRepo_ne_none hnone hset, rfl⟩
  · rename_i made
    obtain ⟨hnone, hget, hother⟩ := OamSAKeyAttributeRepository.keys_setMOMRepo hset
    obtain ⟨m, hfill, hrest⟩ := Option.bind_eq_some_iff.mp hloop
    have hnew : SortedMap.get? (parent ++ "_" ++ classNameRoot)
        (made.setMOMRepoKeyAttribute keyAttributeRoot (parent ++ "_" ++ classNameRoot)).momOamSAKeyMOMRepoMAP
          = some {} := by
      rw [OamSAKeyAttributeRepository.map_setMOMRepoKeyAttribute, hget]
    refine .inr ⟨hnone, m, _, ?_, hrest, fun searchKey => ?_⟩
    · rwa [OamSAKeyAttributeRepository.getMOMRepo, hnew] at hfill
    · rw [OamSAKeyAttributeRepository.keys_changeMOMRepo hnew,
        OamSAKeyAttributeRepository.keys_setMOMRepoKeyAttribute]
      split <;> rename_i hkey
      · rfl
      · exact hother searchKey hkey

theorem populateParents_keys {parents : List String}
    (hfill : ∀ m, M.fillMOMRepo fuel r classNameRoot keyAttributeRoot {} = some m → M.Exactly r m.key)
    (hloop : M.populateParents fuel r classNameRoot keyAttributeRoot parents holder = some holder')
    (searchKey : String) :
    holder'.keys searchKey = holder.keys searchKey ∨
      holder.keys searchKey = none ∧ (∃ p ∈ parents, searchKey = p ++ "_" ++ classNameRoot) ∧
        ∃ known, holder'.keys searchKey = some known ∧ M.Exactly r known := by
  induction parents generalizing holder with
  | nil =>
    obtain rfl := Option.some.inj hloop
    exact .inl rfl
  | cons parent parents ih =>
    rcases populateParents_cons hloop with ⟨_, rfl⟩ | ⟨hnone, m, next, hm, hrest, hkeys⟩
    · exact .inl rfl
    · by_cases hkey : searchKey = parent ++ "_" ++ classNameRoot
      · have hthere : next.keys searchKey = some m.key := by rw [hkeys, if_pos hkey]
        refine .inr ⟨by rw [hkey, hnone], ⟨parent, List.mem_cons_self, hkey⟩, m.key, ?_, hfill m hm⟩
        rcases ih hrest with hsame | ⟨hgone, _⟩
        · rw [hsame, hthere]
        · rw [hthere] at hgone
          cases hgone
      · have hsame : next.keys searchKey = holder.keys searchKey := by rw [hkeys, if_neg hkey]
        rw [← hsame]
        exact (ih hrest).imp_right fun ⟨hnone, ⟨p, hp, hkey⟩, hknown⟩ =>
          ⟨hnone, ⟨p, List.mem_cons_of_mem _ hp, hkey⟩, hknown⟩

theorem populateParents_makes {before after : List String}
    (hfill : ∀ m, M.fillMOMRepo fuel r classNameRoot keyAttributeRoot {} = some m → M.Exactly r m.key)
    (hloop : M.populateParents fuel r classNameRoot keyAttributeRoot (before ++ after) holder = some holder')
    (hnodup : (before.map fun p => p ++ "_" ++ classNameRoot).Nodup)
    (hnone : ∀ p ∈ before, holder.keys (p ++ "_" ++ classNameRoot) = none) :
    ∀ p ∈ before, holder'.keys (p ++ "_" ++ classNameRoot) ≠ none := by
  induction before generalizing holder with
  | nil => exact fun p hp => nomatch hp
  | cons parent before ih =>
    rw [List.map_cons, List.nodup_cons] at hnodup
    rcases populateParents_cons hloop with ⟨hthere, _⟩ | ⟨_, m, next, _, hrest, hkeys⟩
    · exact absurd (hnone parent List.mem_cons_self) hthere
    · intro p hp
      rcases List.mem_cons.mp hp with rfl | hp
      · have hmade : next.keys (p ++ "_" ++ classNameRoot) = some m.key := by rw [hkeys, if_pos rfl]
        rcases populateParents_keys hfill hrest (p ++ "_" ++ classNameRoot) with hsame | ⟨hgone, _⟩
        · rw [hsame, hmade]
          exact Option.some_ne_none _
        · rw [hmade] at hgone
          cases hgone
      · refine ih hrest hnodup.2 (fun q hq => ?_) p hp
        have hother : q ++ "_" ++ classNameRoot ≠ parent ++ "_" ++ classNameRoot := fun heq =>
          hnodup.1 (List.mem_map.mpr ⟨q, hq, heq⟩)
        rw [hkeys, if_neg hother]
        exact hnone q (List.mem_cons_of_mem _ hq)

end

end

/-! ## What populating leaves alone -/

namespace RootRepository

section
variable {M : Model} {populate : RootRepository → Option RootRepository} {h : MocHandle} {fuel : Nat}
  {r r' : RootRepository} {I : (String → Option (String → Option String)) → Prop}

def Keeps (populate : RootRepository → Option RootRepository)
    (I : (String → Option (String → Option String)) → Prop) :
    Prop :=
  ∀ r r', I r.theKeyHolder.keys → populate r = some r' → I r'.theKeyHolder.keys

theorem isSplitImmDn_keeps (hpopulate : Keeps populate I) {name : String} {x : Bool × RootRepository}
    (hr : I r.theKeyHolder.keys) (hsplit : isSplitImmDn populate name r = some x) : I x.2.theKeyHolder.keys := by
  unfold isSplitImmDn at hsplit
  dsimp only at hsplit
  split at hsplit
  · obtain ⟨t, ht, hx⟩ := Option.bind_eq_some_iff.mp hsplit
    obtain rfl := Option.some.inj hx
    exact hpopulate r t hr ht
  · obtain rfl := Option.some.inj hsplit
    exact hr

theorem visitContainment_keeps (hpopulate : Keeps populate I) {k : Containment} (hr : I r.theKeyHolder.keys)
    (hvisit : visitContainment M populate fuel k r = some r') : I r'.theKeyHolder.keys := by
  obtain ⟨x, hsplit, hvisit⟩ := Option.bind_eq_some_iff.mp hvisit
  have hx : I x.2.theKeyHolder.keys := isSplitImmDn_keeps hpopulate (r := noteContainment M k r) hr hsplit
  dsimp only at hvisit
  split at hvisit
  · obtain ⟨valid, _, rfl⟩ := Option.map_eq_some_iff.mp hvisit
    split <;> exact hx
  · obtain rfl := Option.some.inj hvisit
    exact hx

theorem loopContainmentClass_V4_keeps (hpopulate : Keeps populate I) {k : Containment} {den : MOMRootDataEntry}
    {x : MOMRootDataEntry × RootRepository} (hr : I r.theKeyHolder.keys)
    (hloop : loopContainmentClass_V4 M populate fuel k den r = some x) : I x.2.theKeyHolder.keys := by
  induction fuel generalizing k den r with
  | zero => cases hloop
  | succ fuel ih =>
    rw [loopContainmentClass_V4] at hloop
    obtain ⟨t, hvisit, hrest⟩ := Option.bind_eq_some_iff.mp hloop
    have ht := visitContainment_keeps hpopulate hr hvisit
    dsimp only at hrest
    split at hrest
    · obtain rfl := Option.some.inj hrest
      exact ht
    · exact ih ht hrest

theorem keys_decorateKeys (parentRootName : String) (theKeyHolder : OamSAKeyAttributeRepository) :
    (decorateKeys M h parentRootName theKeyHolder).keys = theKeyHolder.keys := by
  unfold decorateKeys
  dsimp only
  rw [OamSAKeyAttributeRepository.keys_setMOMRepoKeyAttribute,
    OamSAKeyAttributeRepository.keys_changeMOMRepo_of_key]
  intro m
  rw [KeyMOMRepo.key_setDecoratedKeyAttributeForClass, KeyMOMRepo.key_setMomIsDecoratedFlag]

theorem getDecoratedRootClasses_V4_keeps (hpopulate : Keeps populate I) {den : MOMRootDataEntry}
    {x : Bool × RootRepository} (hr : I r.theKeyHolder.keys)
    (hdecorated : getDecoratedRootClasses_V4 M populate h den r = some x) : I x.2.theKeyHolder.keys := by
  unfold getDecoratedRootClasses_V4 at hdecorated
  split at hdecorated
  · obtain ⟨y, hsplit, hx⟩ := Option.bind_eq_some_iff.mp hdecorated
    have hy := isSplitImmDn_keeps hpopulate hr hsplit
    obtain rfl := Option.some.inj hx
    dsimp only
    rw [keys_decorateKeys]
    split <;> exact hy
  · obtain rfl := Option.some.inj hdecorated
    exact hr

theorem populateParent_keeps (hpopulate : Keeps populate I) {k : Containment} (hr : I r.theKeyHolder.keys)
    (hparent : populateParent M populate fuel h r k = some r') : I r'.theKeyHolder.keys := by
  obtain ⟨⟨entry, t⟩, hloop, hparent⟩ := Option.bind_eq_some_iff.mp hparent
  have ht := loopContainmentClass_V4_keeps hpopulate hr hloop
  obtain ⟨⟨decorated, u⟩, hdecorated, hparent⟩ := Option.bind_eq_some_iff.mp hparent
  have hu := getDecoratedRootClasses_V4_keeps hpopulate ht hdecorated
  dsimp only at hparent
  split at hparent <;> obtain rfl := Option.some.inj hparent
  · cases decorated <;> exact hu
  · cases decorated <;> exact hu

theorem populateClass_keeps (hpopulate : Keeps populate I) {r : RootRepository}
    (hholder : M.IsMocChildofEcimContribution_V4 h = true → ∀ theKeyHolder,
      M.populateKeyHolderWithMOM_V4 fuel h r.theKeyHolder = some theKeyHolder → I theKeyHolder.keys)
    (hother : M.IsMocChildofEcimContribution_V4 h ≠ true → I r.theKeyHolder.keys)
    (hclass : populateClass M populate fuel h r = some r') : I r'.theKeyHolder.keys := by
  unfold populateClass at hclass
  split at hclass <;> rename_i hroot
  · obtain ⟨theKeyHolder, hkeys, hclass⟩ := Option.bind_eq_some_iff.mp hclass
    have hI := hholder hroot theKeyHolder hkeys
    dsimp only at hclass
    split at hclass
    · split at hclass
      · obtain rfl := Option.some.inj hclass
        exact hI
      · exact foldlM_keeps (I := fun r => I r.theKeyHolder.keys)
          (fun k _ s s' hs hstep => populateParent_keeps hpopulate hs hstep) hI hclass
    · obtain rfl := Option.some.inj hclass
      exact hI
  · obtain rfl := Option.some.inj hclass
    exact hother hroot

end

end RootRepository

/-! ## All root classes -/

def Model.searchKey (M : Model) (r : MocHandle) (k : Containment) : String :=
  (M.moc k.parentMoc).name ++ "_" ++ (M.moc r).name

/-- No other root class has the search key of one of these parents, and no two of them have the same. -/
structure OwnKeys (M : Model) (r : MocHandle) (ks : List Containment) : Prop where
  nodup : (ks.map (M.searchKey r)).Nodup
  unshared : ∀ c, M.IsClass c → M.RootClass c → c ≠ r →
    ∀ p ∈ M.getMocParents_V4 c, ∀ k ∈ ks, p ++ "_" ++ (M.moc c).name ≠ M.searchKey r k

/-- The key holder has the repository of the parent, with the key attributes of exactly the covered classes. -/
def Covers (M : Model) (holder : OamSAKeyAttributeRepository) (r : MocHandle) (k : Containment) : Prop :=
  holder.momNameExist (M.searchKey r k) = true ∧ M.Exactly r (holder.getMOMRepo (M.searchKey r k)).key

def FromRootClasses (M : Model) (keys : String → Option (String → Option String)) : Prop :=
  ∀ searchKey known, keys searchKey = some known → ∃ c, M.IsClass c ∧ M.RootClass c ∧
    (∃ p ∈ M.getMocParents_V4 c, searchKey = p ++ "_" ++ (M.moc c).name) ∧ M.Exactly c known

section
variable {M : Model} {r h : MocHandle} {fuel : Nat} {before after : List Containment}
  {holder holder' : OamSAKeyAttributeRepository}

theorem getMocNameAndKey_V4_none {keyAttribute : String} (hkey : (M.moc h).keyAttribute = some keyAttribute) :
    M.getMocNameAndKey_V4 h none = some ((M.moc h).name, keyAttribute) := by
  unfold Model.getMocNameAndKey_V4
  rw [hkey]
  rfl

section
variable (hkeys : ∀ c, M.IsClass c → (M.moc c).keyAttribute ≠ none) (hnames : M.UniqueNames)
include hkeys hnames

theorem populateKeyHolderWithMOM_V4_keys (hh : M.IsClass h)
    (hholder : M.populateKeyHolderWithMOM_V4 fuel h holder = some holder') (searchKey : String) :
    holder'.keys searchKey = holder.keys searchKey ∨
      holder.keys searchKey = none ∧ (∃ p ∈ M.getMocParents_V4 h, searchKey = p ++ "_" ++ (M.moc h).name) ∧
        ∃ known, holder'.keys searchKey = some known ∧ M.Exactly h known := by
  obtain ⟨keyAttribute, hkey⟩ := Option.ne_none_iff_exists'.mp (hkeys h hh)
  rw [Model.populateKeyHolderWithMOM_V4, getMocNameAndKey_V4_none hkey] at hholder
  exact populateParents_keys (fun m hfill => fillMOMRepo_exactly hkeys hnames hh hkey hfill) hholder searchKey

theorem populateKeyHolderWithMOM_V4_fromRootClasses (hh : M.IsClass h) (hroot : M.RootClass h)
    (hholder : M.populateKeyHolderWithMOM_V4 fuel h holder = some holder') (hfrom : FromRootClasses M holder.keys) :
    FromRootClasses M holder'.keys := by
  intro searchKey known hknown
  rcases populateKeyHolderWithMOM_V4_keys hkeys hnames hh hholder searchKey with hsame |
    ⟨_, hparent, known', hnew, hexact⟩
  · exact hfrom searchKey known (hsame ▸ hknown)
  · rw [hnew] at hknown
    obtain rfl := Option.some.inj hknown
    exact ⟨h, hh, hroot, hparent, hexact⟩

theorem populateKeyHolderWithMOM_V4_other {ks : List Containment} (hown : OwnKeys M r ks) (hh : M.IsClass h)
    (hroot : M.RootClass h) (hne : h ≠ r) (hholder : M.populateKeyHolderWithMOM_V4 fuel h holder = some holder') :
    ∀ k ∈ ks, holder'.keys (M.searchKey r k) = holder.keys (M.searchKey r k) := by
  intro k hk
  rcases populateKeyHolderWithMOM_V4_keys hkeys hnames hh hholder (M.searchKey r k) with hsame |
    ⟨_, ⟨p, hp, heq⟩, _⟩
  · exact hsame
  · exact absurd heq.symm (hown.unshared h hh hroot hne p hp k hk)

theorem populateKeyHolderWithMOM_V4_retains (hh : M.IsClass h)
    (hholder : M.populateKeyHolderWithMOM_V4 fuel h holder = some holder') {searchKey : String}
    (hthere : holder.keys searchKey ≠ none) : holder'.keys searchKey ≠ none := by
  rcases populateKeyHolderWithMOM_V4_keys hkeys hnames hh hholder searchKey with hsame | ⟨hnone, _⟩
  · rw [hsame]
    exact hthere
  · exact absurd hnone hthere

theorem populateKeyHolderWithMOM_V4_makes (hr : M.IsClass r) (hparents : M.parentContainments r = before ++ after)
    (hne : before ≠ []) (hnodup : (before.map (M.searchKey r)).Nodup)
    (hholder : M.populateKeyHolderWithMOM_V4 fuel r holder = some holder')
    (hnone : ∀ k ∈ before, holder.keys (M.searchKey r k) = none) :
    ∀ k ∈ before, holder'.keys (M.searchKey r k) ≠ none := by
  obtain ⟨keyAttribute, hkey⟩ := Option.ne_none_iff_exists'.mp (hkeys r hr)
  have hparents' : M.getMocParents_V4 r =
      before.map (fun k => (M.moc k.parentMoc).name) ++ after.map fun k => (M.moc k.parentMoc).name := by
    obtain ⟨k, ks, rfl⟩ := List.exists_cons_of_ne_nil hne
    rw [Model.getMocParents_V4, hparents, ← List.map_append]
    rfl
  rw [Model.populateKeyHolderWithMOM_V4, getMocNameAndKey_V4_none hkey, hparents'] at hholder
  have hmade := populateParents_makes (fun m hfill => fillMOMRepo_exactly hkeys hnames hr hkey hfill) hholder
    (by rw [List.map_map]; exact hnodup)
    (fun p hp => by
      obtain ⟨k, hk, rfl⟩ := List.mem_map.mp hp
      exact hnone k hk)
  exact fun k hk => hmade _ (List.mem_map_of_mem hk)

def AllOrNone (M : Model) (r : MocHandle) (ks : List Containment)
    (keys : String → Option (String → Option String)) :
    Prop :=
  (∀ k ∈ ks, keys (M.searchKey r k) = none) ∨ ∀ k ∈ ks, keys (M.searchKey r k) ≠ none

theorem populateKeyHolderWithMOM_V4_allOrNone (hr : M.IsClass r)
    (hparents : M.parentContainments r = before ++ after)
    (hne : before ≠ []) (hown : OwnKeys M r before) (hh : M.IsClass h) (hroot : M.RootClass h)
    (hholder : M.populateKeyHolderWithMOM_V4 fuel h holder = some holder')
    (hall : AllOrNone M r before holder.keys) :
    AllOrNone M r before holder'.keys ∧ (h = r → ∀ k ∈ before, holder'.keys (M.searchKey r k) ≠ none) := by
  have hretains : (∀ k ∈ before, holder.keys (M.searchKey r k) ≠ none) →
      ∀ k ∈ before, holder'.keys (M.searchKey r k) ≠ none := fun hthere k hk =>
    populateKeyHolderWithMOM_V4_retains hkeys hnames hh hholder (hthere k hk)
  rcases hall with hnone | hthere
  · by_cases hself : h = r
    · subst hself
      have hmade := populateKeyHolderWithMOM_V4_makes hkeys hnames hr hparents hne hown.nodup hholder hnone
      exact ⟨.inr hmade, fun _ => hmade⟩
    · have hsame := populateKeyHolderWithMOM_V4_other hkeys hnames hown hh hroot hself hholder
      exact ⟨.inl fun k hk => (hsame k hk).trans (hnone k hk), fun heq => absurd heq hself⟩
  · exact ⟨.inr (hretains hthere), fun _ => hretains hthere⟩

def KeysInv (M : Model) (r : MocHandle) (ks : List Containment) (keys : String → Option (String → Option String)) :
    Prop :=
  FromRootClasses M keys ∧ AllOrNone M r ks keys

def KeysMade (M : Model) (r : MocHandle) (ks : List Containment) (keys : String → Option (String → Option String)) :
    Prop :=
  KeysInv M r ks keys ∧ ∀ k ∈ ks, keys (M.searchKey r k) ≠ none

/-- Whatever class it is done for, `populateClass` keeps this. -/
def ClassKeeps (M : Model) (I : (String → Option (String → Option String)) → Prop) : Prop :=
  ∀ populate, Keeps populate I → ∀ c, M.IsClass c → ∀ fuel s s', I s.theKeyHolder.keys →
    populateClass M populate fuel c s = some s' → I s'.theKeyHolder.keys

section
variable (hr : M.IsClass r) (hparents : M.parentContainments r = before ++ after) (hne : before ≠ [])
  (hown : OwnKeys M r before)
include hr hparents hne hown

theorem populateKeyHolderWithMOM_V4_inv (hh : M.IsClass h) (hroot : M.IsMocChildofEcimContribution_V4 h = true)
    (hholder : M.populateKeyHolderWithMOM_V4 fuel h holder = some holder') (hinv : KeysInv M r before holder.keys) :
    KeysInv M r before holder'.keys ∧ (h = r → KeysMade M r before holder'.keys) := by
  have hroot' := Model.isMocChildofEcimContribution_V4_iff.mp hroot
  have hfrom := populateKeyHolderWithMOM_V4_fromRootClasses hkeys hnames hh hroot' hholder hinv.1
  obtain ⟨hall, hmade⟩ :=
    populateKeyHolderWithMOM_V4_allOrNone hkeys hnames hr hparents hne hown hh hroot' hholder hinv.2
  exact ⟨⟨hfrom, hall⟩, fun hself => ⟨⟨hfrom, hall⟩, hmade hself⟩⟩

theorem classKeeps_keysInv : ClassKeeps M (KeysInv M r before) := by
  intro populate hpopulate h hh fuel s s' hinv hclass
  refine populateClass_keeps hpopulate (fun hroot holder' hholder => ?_) (fun _ => hinv) hclass
  exact (populateKeyHolderWithMOM_V4_inv hkeys hnames hr hparents hne hown hh hroot hholder hinv).1

theorem classKeeps_keysMade : ClassKeeps M (KeysMade M r before) := by
  intro populate hpopulate h hh fuel s s' hmade hclass
  refine populateClass_keeps hpopulate (fun hroot holder' hholder => ?_) (fun _ => hmade) hclass
  have hinv := (populateKeyHolderWithMOM_V4_inv hkeys hnames hr hparents hne hown hh hroot hholder hmade.1).1
  exact ⟨hinv, fun k hk => populateKeyHolderWithMOM_V4_retains hkeys hnames hh hholder (hmade.2 k hk)⟩

theorem populateClass_makes {populate : RootRepository → Option RootRepository} {s s' : RootRepository}
    (hpopulate : Keeps populate (KeysMade M r before)) (hroot : M.RootClass r)
    (hinv : KeysInv M r before s.theKeyHolder.keys) (hclass : populateClass M populate fuel r s = some s') :
    KeysMade M r before s'.theKeyHolder.keys := by
  have hroot' := Model.isMocChildofEcimContribution_V4_iff.mpr hroot
  refine populateClass_keeps hpopulate (fun _ holder' hholder => ?_) (fun hno => absurd hroot' hno) hclass
  exact (populateKeyHolderWithMOM_V4_inv hkeys hnames hr hparents hne hown hr hroot' hholder hinv).2 rfl

end

end

theorem Populate_V4_keeps {I : (String → Option (String → Option String)) → Prop} (hclass : ClassKeeps M I)
    (fuel : Nat) : Keeps (fun s => Populate_V4 M fuel s) I := by
  induction fuel with
  | zero => exact fun _ _ _ hpopulate => nomatch hpopulate
  | succ fuel ih =>
    intro s s' hs hpopulate
    change Populate_V4 M (fuel + 1) s = some s' at hpopulate
    rw [Populate_V4] at hpopulate
    obtain ⟨t, hloop, rfl⟩ := Option.map_eq_some_iff.mp hpopulate
    rw [checkModelValid_eq RootRepository.theKeyHolder fun _ _ => rfl]
    exact loopRootClasses_keeps (I := fun s => I s.theKeyHolder.keys)
      (fun c hc fuel s s' hs hstep => hclass _ ih c hc fuel s s' hs hstep) hs hloop

end

/-- After populating, each parent of a root class has a repository of exactly the classes that the root class
reaches in its MOM, where the search keys up to this parent are those of no other parent and root class. -/
theorem keyRepositories_cover (M : Model) (fuel : Nat) (s : RootRepository)
    (hkeys : ∀ c, M.IsClass c → (M.moc c).keyAttribute ≠ none) (hnames : M.UniqueNames)
    (hpopulate : Populate_V4 M fuel {} = some s) (r : MocHandle) (hr : M.IsClass r) (hroot : M.RootClass r)
    (before after : List Containment) (k : Containment) (hparents : M.parentContainments r = before ++ k :: after)
    (hown : OwnKeys M r (before ++ [k])) : Covers M s.theKeyHolder r k := by
  have hparents' : M.parentContainments r = (before ++ [k]) ++ after := by
    rw [hparents, List.append_assoc, List.singleton_append]
  have hne : before ++ [k] ≠ [] := by simp
  have hkeepInv := classKeeps_keysInv hkeys hnames hr hparents' hne hown
  have hkeepMade := classKeeps_keysMade hkeys hnames hr hparents' hne hown
  cases fuel with
  | zero => cases hpopulate
  | succ fuel =>
    rw [Populate_V4] at hpopulate
    obtain ⟨t, hloop, rfl⟩ := Option.map_eq_some_iff.mp hpopulate
    have hinner := Populate_V4_keeps hkeepInv fuel
    have hinner' := Populate_V4_keeps hkeepMade fuel
    have hstart : KeysInv M r (before ++ [k]) ({} : RootRepository).theKeyHolder.keys :=
      ⟨fun _ _ hknown => (nomatch hknown), .inl fun _ _ => rfl⟩
    have hend : KeysMade M r (before ++ [k]) t.theKeyHolder.keys := by
      refine loopRootClasses_reaches (I := fun s => KeysInv M r (before ++ [k]) s.theKeyHolder.keys)
        (P := fun s => KeysMade M r (before ++ [k]) s.theKeyHolder.keys)
        (fun c hc fuel s s' hs hstep => hkeepInv _ hinner c hc fuel s s' hs hstep)
        (fun c hc fuel s s' _ hs hstep => hkeepMade _ hinner' c hc fuel s s' hs hstep) hr
        (fun fuel s s' hs hstep => ?_) hstart hloop
      exact populateClass_makes hkeys hnames hr hparents' hne hown hinner' hroot hs hstep
    obtain ⟨known, hknown⟩ := Option.ne_none_iff_exists'.mp (hend.2 k (by simp))
    obtain ⟨c, hc, hrootc, ⟨p, hp, heq⟩, hexact⟩ := hend.1.1 _ _ hknown
    obtain rfl : c = r := by
      by_contra hother
      exact hown.unshared c hc hrootc hother p hp k (by simp) heq.symm
    unfold Covers
    rw [checkModelValid_eq RootRepository.theKeyHolder fun _ _ => rfl,
      OamSAKeyAttributeRepository.momNameExist_iff, hknown,
      OamSAKeyAttributeRepository.key_getMOMRepo hknown]
    exact ⟨Option.some_ne_none _, hexact⟩

instance (M : Model) (r : MocHandle) : Decidable (M.RootClass r) := inferInstanceAs (Decidable (_ ∨ _))

theorem isClass_lt {root : MocHandle} {moc : MocHandle → Moc} {mom : MomHandle → Mom} {ks : List Containment}
    {n : Nat}
    (hroot : root < n) (hks : ∀ k ∈ ks, k.childMoc < n) {c : MocHandle}
    (hc : (Model.ofContainments root moc mom ks).IsClass c) : c < n := by
  rcases hc.cases_tail with rfl | ⟨_, _, k, hk, rfl⟩
  · exact hroot
  · exact hks k (List.mem_of_mem_filter hk)

/-- `Sw` has two parents and contains itself, and `Part` is below it on two ways. -/
def sharedPart : Model :=
  .ofContainments 0
    (fun h => match h with
      | 0 => ⟨"ManagedElement", 0, true, some "managedElementId"⟩
      | 1 => ⟨"Sys", 0, false, some "sysId"⟩
      | 2 => ⟨"Sw", 1, false, some "swId"⟩
      | 3 => ⟨"Item", 1, false, some "itemId"⟩
      | _ => ⟨"Part", 1, false, some "partId"⟩)
    (fun h => match h with
      | 0 => ⟨"ComTop", none⟩
      | _ => ⟨"SwM", some DN_VALUE_MOM_NAME⟩)
    [⟨"ManagedElement_to_Sys", 0, 1, none⟩, ⟨"ManagedElement_to_Sw", 0, 2, none⟩, ⟨"Sys_to_Sw", 1, 2, none⟩,
      ⟨"Sw_to_Sw", 2, 2, none⟩, ⟨"Sw_to_Item", 2, 3, none⟩, ⟨"Item_to_Part", 3, 4, none⟩,
      ⟨"Sw_to_Part", 2, 4, none⟩]

theorem keyRepositories_cover_sharedPart :
    ∃ s, Populate_V4 sharedPart 8 {} = some s ∧ Covers sharedPart s.theKeyHolder 2 ⟨"Sys_to_Sw", 1, 2, none⟩ := by
  have hends : (Populate_V4 sharedPart 8 {}).isSome = true := by decide
  have hlt : ∀ c, sharedPart.IsClass c → c < 5 := fun c hc => isClass_lt (by decide) (by decide) hc
  have hkeys : ∀ c < 5, (sharedPart.moc c).keyAttribute ≠ none := by decide
  have hnames : ∀ c < 5, ∀ d < 5, (sharedPart.momOf c).name = (sharedPart.momOf d).name →
      (sharedPart.moc c).name = (sharedPart.moc d).name → c = d := by decide
  have hunshared : ∀ c < 5, sharedPart.RootClass c → c ≠ 2 → ∀ p ∈ sharedPart.getMocParents_V4 c,
      ∀ k ∈ [(⟨"ManagedElement_to_Sw", 0, 2, none⟩ : Containment), ⟨"Sys_to_Sw", 1, 2, none⟩],
        p ++ "_" ++ (sharedPart.moc c).name ≠ sharedPart.searchKey 2 k := by decide
  have hSw : sharedPart.Contains 0 2 := ⟨⟨"ManagedElement_to_Sw", 0, 2, none⟩, by decide, rfl⟩
  refine ⟨_, (Option.some_get hends).symm, ?_⟩
  exact keyRepositories_cover sharedPart 8 _ (fun c hc => hkeys c (hlt c hc))
    (fun c d hc hd => hnames c (hlt c hc) d (hlt d hd)) (Option.some_get hends).symm 2 (.single hSw) (by decide)
    [⟨"ManagedElement_to_Sw", 0, 2, none⟩] [⟨"Sw_to_Sw", 2, 2, none⟩] ⟨"Sys_to_Sw", 1, 2, none⟩ (by decide)
    ⟨by decide, fun c hc => hunshared c (hlt c hc)⟩

def sharedKey : Model :=
  .ofContainments 0
    (fun h => match h with
      | 0 => ⟨"ManagedElement", 0, true, some "managedElementId"⟩
      | 1 => ⟨"P", 0, false, some "pId"⟩
      | 2 => ⟨"S", 1, false, some "sId"⟩
      | 3 => ⟨"P", 1, false, some "pId"⟩
      | 4 => ⟨"R", 2, false, some "rId"⟩
      | _ => ⟨"R", 3, false, some "otherId"⟩)
    (fun h => match h with
      | 0 => ⟨"ComTop", none⟩
      | 1 => ⟨"SysM", none⟩
      | 2 => ⟨"OneM", none⟩
      | _ => ⟨"OtherM", none⟩)
    [⟨"ManagedElement_to_P", 0, 1, none⟩, ⟨"ManagedElement_to_S", 0, 2, none⟩, ⟨"S_to_P", 2, 3, none⟩,
      ⟨"P_to_R", 1, 4, none⟩, ⟨"P_to_R", 3, 5, none⟩]

/-- The two root classes share the repository `P_R`, which holds the key attribute of the one that came first. -/
theorem not_keyRepositories_cover :
    ¬ ∀ (M : Model) (fuel : Nat) (s : RootRepository), (∀ c, M.IsClass c → (M.moc c).keyAttribute ≠ none) →
      M.UniqueNames → Populate_V4 M fuel {} = some s →
        ∀ r, M.IsClass r → M.RootClass r → ∀ k ∈ M.parentContainments r, Covers M s.theKeyHolder r k := by
  intro h
  have hends : (Populate_V4 sharedKey 8 {}).isSome = true := by decide
  have hlt : ∀ c, sharedKey.IsClass c → c < 6 := fun c hc => isClass_lt (by decide) (by decide) hc
  have hkeys : ∀ c < 6, (sharedKey.moc c).keyAttribute ≠ none := by decide
  have hnames : ∀ c < 6, ∀ d < 6, (sharedKey.momOf c).name = (sharedKey.momOf d).name →
      (sharedKey.moc c).name = (sharedKey.moc d).name → c = d := by decide
  have hcover := h sharedKey 8 _ (fun c hc => hkeys c (hlt c hc))
    (fun c d hc hd => hnames c (hlt c hc) d (hlt d hd)) (Option.some_get hends).symm
  have hP : sharedKey.Contains 0 1 := ⟨⟨"ManagedElement_to_P", 0, 1, none⟩, by decide, rfl⟩
  have hR : sharedKey.Contains 1 4 := ⟨⟨"P_to_R", 1, 4, none⟩, by decide, rfl⟩
  have hS : sharedKey.Contains 0 2 := ⟨⟨"ManagedElement_to_S", 0, 2, none⟩, by decide, rfl⟩
  have hP' : sharedKey.Contains 2 3 := ⟨⟨"S_to_P", 2, 3, none⟩, by decide, rfl⟩
  have hR' : sharedKey.Contains 3 5 := ⟨⟨"P_to_R", 3, 5, none⟩, by decide, rfl⟩
  have hclass : sharedKey.IsClass 5 := ((ReflTransGen.single hS).tail hP').tail hR'
  have hone := hcover 4 ((ReflTransGen.single hP).tail hR) (by decide) ⟨"P_to_R", 1, 4, none⟩ (by decide)
  have hother := hcover 5 hclass (by decide) ⟨"P_to_R", 3, 5, none⟩ (by decide)
  have hkey := (hone.2 "R" "rId").mpr ⟨4, .refl, rfl, rfl⟩
  obtain ⟨c, hc, hname, hid⟩ := (hother.2 "R" "rId").mp hkey
  have hno : ∀ c < 6, (sharedKey.momOf c).name = (sharedKey.momOf 5).name →
      (sharedKey.moc c).keyAttribute ≠ some "rId" := by decide
  exact hno c (hlt c (hc.isClass hclass)) hc.mom hid

end ComSA.Translator
