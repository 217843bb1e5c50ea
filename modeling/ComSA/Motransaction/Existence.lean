import ComSA.Lib.Run
import ComSA.Motransaction.StructCommit

/-!
# Which objects exist in a transaction

`existsImmMo` looks at the cache first and then at IMM. Its answers are compared with
the set of objects that the calls of the transaction leave, one call after the other.
-/

namespace ComSA

open DeletedObjects ModifiedObjects

inductive ExistenceCall where
  | create (m : CreateMoCall)
  | delete (dn : Dn)

/-- The cache, as long as what the code did is defined, and the objects there should be. -/
abbrev ExistenceState := Option Cache × Set (List String)

namespace ExistenceCall

def run (env : BridgeEnv) (c : Cache) : ExistenceCall → Option (MafReturn × Cache)
  | create m => Bridge.createImmMo env m c
  | delete dn => deleteImmMo env.tr dn.parts c

def objects (S : Set (List String)) : ExistenceCall → Set (List String)
  | create m => insert m.dn S
  | delete dn => {p | p ∈ S ∧ ¬ dn.parts <+: p}

def step (env : BridgeEnv) (s : ExistenceState) (call : ExistenceCall) : ExistenceState :=
  ((s.1.bind fun c => call.run env c).map Prod.snd, call.objects s.2)

/-- An object is created below one that exists, or at the top, and only where there is none. Only an
object that exists is deleted. -/
def Allowed (S : Set (List String)) : ExistenceCall → Prop
  | create m => (m.parent = [] ∨ m.parent ∈ S) ∧ m.dn ∉ S
  | delete dn => dn.parts ∈ S

def Legal (env : BridgeEnv) (s : ExistenceState) (call : ExistenceCall) : Prop :=
  call.Allowed s.2 ∧ ∀ c r, s.1 = some c → call.run env c = some r → r.1 = .ok

/-- Each name on the way from the parent to the object is one of an object, and if the object is a deleted one,
each of its children in IMM has a mark of its own. -/
def AddsObject (imm : ImmTree) (s : ExistenceState) (m : CreateCall) : Prop :=
  (∀ q, m.parent <+: q → q <+: m.dn → q ≠ m.parent → q ≠ m.dn → q ∈ s.2) ∧
  ∀ c, s.1 = some c → c.isDeleted m.dn = true →
    ∀ x, (imm (m.dn ++ [x])).isSome = true → m.dn ++ [x] ∈ marked c.deleted

/-- The calls that do not go wrong. A created object needs a valid name. With structs, none of the calls that
create it goes wrong, and every instance is deleted again by the end. A topmost object that is deleted must not
be in the tree of modified objects. -/
def Fine (env : BridgeEnv) (imm : ImmTree) (s : ExistenceState) : ExistenceCall → Prop
  | create m => env.tr.isDnListValid m.dn "" = true ∧
    match m.withoutStructs env with
    | some m => AddsObject imm s m
    | none => ∀ c, s.1 = some c → CreateGood env imm (some c, content imm c) m ∧
      ∀ p, (createTree env (content imm c) m p).isSome = true ↔ p = m.dn ∨ (content imm c p).isSome = true
  | delete dn => ∀ c, s.1 = some c → ¬ (dn.parts.length = 1 ∧ c.isInCache dn.parts = true)

def isPlain (env : BridgeEnv) : ExistenceCall → Bool
  | create m => (m.withoutStructs env).isSome
  | delete _ => true

end ExistenceCall

def ReadsOwnWrites (tr : Translator) (immExists : String → Bool) (s : ExistenceState) : Prop :=
  ∃ c, s.1 = some c ∧
    ∀ x : Dn, (existsImmMo tr immExists x.parts c).2 = true ↔ x.parts ∈ s.2

/-- The cache is as it should be and shows the right objects, all with valid names. -/
def ShowsObjects (tr : Translator) (imm : ImmTree) (s : ExistenceState) : Prop :=
  ∃ c, s.1 = some c ∧ CacheInv tr imm c ∧
    (∀ p, p ∈ s.2 ↔ (content imm c p).isSome = true) ∧ ∀ p ∈ s.2, tr.isDnListValid p "" = true

theorem prefix_dropLast {p q : List String} (hpq : p <+: q) (hne : p ≠ q) : p <+: q.dropLast := by
  obtain ⟨r, rfl⟩ := hpq
  have hr : r ≠ [] := by
    rintro rfl
    simp at hne
  rw [List.dropLast_append_of_ne_nil hr]
  exact List.prefix_append p _

section
variable {tr : Translator} {env : BridgeEnv} {imm : ImmTree} {immExists : String → Bool} {c : Cache}
  {S : Set (List String)}

theorem existsImmMo_eq (p : List String) (c : Cache) :
    (existsImmMo tr immExists p c).2 =
      (tr.isDnListValid p "" && !c.isDeleted p &&
        ((objectAt p c.modified).isSome || immExists (tr.mo2ImmDn p))) := by
  rw [existsImmMo, Cache.isInCache, find_eq]
  cases tr.isDnListValid p ""
  · rfl
  cases c.isDeleted p
  · cases (objectAt p c.modified).isSome <;> rfl
  · rfl

variable (himm : imm.Closed) (hvalid : ∀ p, (imm p).isSome = true → tr.isDnListValid p "" = true)
  (hnamed : tr.NamedChildren)
  (hex : ∀ p, p ≠ [] → immExists (tr.mo2ImmDn p) = (imm p).isSome)

include hex in
theorem readsOwnWrites_of_showsObjects (s : ExistenceState) (h : ShowsObjects tr imm s) :
    ReadsOwnWrites tr immExists s := by
  obtain ⟨c, hc, hinv, hS, hv⟩ := h
  refine ⟨c, hc, fun x => ?_⟩
  rw [existsImmMo_eq, hex x.parts x.nonempty, hS, hinv.isSome_iff x.nonempty, ← c.isDeleted_iff,
    Bool.and_eq_true, Bool.and_eq_true, Bool.not_eq_true', Bool.or_eq_true, Bool.not_eq_true]
  constructor
  · rintro ⟨⟨_, hdel⟩, hor⟩
    exact ⟨hdel, hor⟩
  · rintro ⟨hdel, hor⟩
    have hcov : ¬ Covers (active c.deleted) x.parts := by rw [← c.isDeleted_iff, hdel]; simp
    exact ⟨⟨hv x.parts ((hS _).mpr ((hinv.isSome_iff x.nonempty).mpr ⟨hcov, hor⟩)), hdel⟩, hor⟩

theorem ExistenceCall.above_mem {S : Set (List String)} {m : CreateCall}
    (hparent : m.parent = [] ∨ m.parent ∈ S)
    (h : ∀ q, m.parent <+: q → q <+: m.dn → q ≠ m.parent → q ≠ m.dn → q ∈ S) :
    m.dn.dropLast = [] ∨ m.dn.dropLast ∈ S := by
  have hpre := prefix_dropLast m.parent_isPrefix m.parent_ne_dn
  by_cases heq : m.dn.dropLast = m.parent
  · rwa [heq]
  · have habove := List.dropLast_prefix m.dn
    refine Or.inr (h _ hpre habove heq fun hd => ?_)
    have := congrArg List.length hd
    rw [List.length_dropLast] at this
    have := List.length_pos_iff.mpr m.dn_ne_nil
    omega

include himm in
theorem showsObjects_create (h : ShowsObjects tr imm (some c, S)) {m : CreateCall}
    (hparent : m.parent = [] ∨ m.parent ∈ S) (hnew : m.dn ∉ S) (hok : (createImmMo tr m c).1 = .ok)
    (hdn : tr.isDnListValid m.dn "" = true) (hadds : ExistenceCall.AddsObject imm (some c, S) m) :
    ShowsObjects tr imm (some (createImmMo tr m c).2, insert m.dn S) := by
  obtain ⟨c₀, hc₀, hinv, hS, hv⟩ := h
  obtain rfl := Option.some.inj hc₀
  obtain ⟨habove, hchildren⟩ := hadds
  have hpar : m.dn.dropLast = [] ∨ (content imm c m.dn.dropLast).isSome = true := by
    rw [← hS]
    exact ExistenceCall.above_mem hparent habove
  suffices hshow : CacheInv tr imm (createImmMo tr m c).2 ∧ ∀ p,
      (content imm (createImmMo tr m c).2 p).isSome = true ↔
        p = m.dn ∨ (content imm c p).isSome = true by
    refine ⟨_, rfl, hshow.1, fun p => ?_, fun p hp => ?_⟩
    · rw [hshow.2, ← hS]
      exact Set.mem_insert_iff
    · rcases hp with rfl | hp
      · exact hdn
      · exact hv p hp
  by_cases hcov : Covers (active c.deleted) m.dn
  · have hmem := mem_active_of_covered hcov hpar
    obtain ⟨hinv', hcont⟩ := createImmMo_of_deleted hinv himm hok hmem
    refine ⟨hinv', fun p => ?_⟩
    rw [hcont]
    split <;> rename_i hp
    · subst hp
      rw [Option.isSome_map]
      simp [hinv.markedExists _ (active_subset_marked _ hmem)]
    · split <;> rename_i hpre
      · rw [content_of_deleted ⟨m.dn, hmem, hpre⟩]
        rw [undeleted_eq_none hinv himm hmem
          (hchildren c rfl ((c.isDeleted_iff _).mpr hcov)) hpre hp]
        simp [hp]
      · simp [hp]
  · have hnone : content imm c m.dn = none := by
      rw [← Option.not_isSome_iff_eq_none, ← hS]
      exact hnew
    obtain ⟨hinv', hcont⟩ := createImmMo_of_not_deleted hinv himm hok hcov hnone hpar
    refine ⟨hinv', fun p => ?_⟩
    rw [hcont]
    split <;> rename_i hp <;> simp [hp]

theorem showsObjects_createWithStructs (himm : imm.Closed) (h : ShowsObjects env.tr imm (some c, S))
    {m : CreateMoCall} (hdn : env.tr.isDnListValid m.dn "" = true)
    (hgood : CreateGood env imm (some c, content imm c) m)
    (hobjects : ∀ p, (createTree env (content imm c) m p).isSome = true ↔
      p = m.dn ∨ (content imm c p).isSome = true) :
    ∃ c', Bridge.createImmMo env m c = some (.ok, c') ∧ ShowsObjects env.tr imm (some c', insert m.dn S) := by
  obtain ⟨c₀, hc₀, hinv, hS, hv⟩ := h
  obtain rfl := Option.some.inj hc₀
  have htrivial : KeptByCalls env.tr imm fun _ => True :=
    ⟨fun _ _ _ => trivial, fun _ _ _ _ _ => trivial, fun _ _ _ _ _ => trivial⟩
  obtain ⟨c', hcreate, c₁, hc₁, hinv', -, htree⟩ :=
    createImmMo_of_good himm htrivial ⟨c, rfl, hinv, trivial, rfl⟩ hgood
  obtain rfl := Option.some.inj hc₁
  refine ⟨c', hcreate, c', rfl, hinv', fun p => ?_, fun p hp => ?_⟩
  · rw [← show createTree env (content imm c) m = content imm c' from htree, hobjects, ← hS]
    exact Set.mem_insert_iff
  · rcases hp with rfl | hp
    · exact hdn
    · exact hv p hp

include himm in
theorem showsObjects_delete {s : ExistenceState} (h : ShowsObjects env.tr imm s) {dn : Dn}
    (hlegal : (ExistenceCall.delete dn).Legal env s)
    (hfine : (ExistenceCall.delete dn).Fine env imm s) :
    ShowsObjects env.tr imm ((ExistenceCall.delete dn).step env s) := by
  obtain ⟨⟨o, S⟩, c, rfl, hinv, hS, hv⟩ := s, h
  obtain ⟨hmem, hok⟩ := hlegal
  have hdn : (content imm c dn.parts).isSome = true := (hS _).mp hmem
  cases hrun : deleteImmMo env.tr dn.parts c with
  | none =>
    obtain ⟨_, hbad⟩ := (deleteImmMo_eq_none_iff dn).mp hrun
    exact absurd hbad (hfine c rfl)
  | some r =>
    obtain ⟨ret, c'⟩ := r
    obtain rfl : ret = .ok := hok c _ rfl hrun
    obtain ⟨hinv', hcont⟩ := deleteImmMo_spec hinv himm dn.nonempty hdn hrun
    refine ⟨c', ?_, hinv', fun p => ?_, fun p hp => hv p hp.1⟩
    · rw [ExistenceCall.step, Option.bind_some, ExistenceCall.run, hrun, Option.map_some]
    · change p ∈ S ∧ ¬ dn.parts <+: p ↔ _
      rw [hcont, hS]
      split <;> rename_i hpre <;> simp [hpre]

include himm in
theorem showsObjects_step {s : ExistenceState} {call : ExistenceCall} (h : ShowsObjects env.tr imm s)
    (hlegal : call.Legal env s) (hfine : call.Fine env imm s) : ShowsObjects env.tr imm (call.step env s) := by
  cases call with
  | delete dn => exact showsObjects_delete himm h hlegal hfine
  | create m =>
    obtain ⟨c, hc, -⟩ := id h
    obtain ⟨o, S⟩ := s
    obtain rfl : o = some c := hc
    rw [ExistenceCall.step, Option.bind_some, ExistenceCall.run]
    rw [ExistenceCall.Fine] at hfine
    obtain ⟨hdn, hfine⟩ := hfine
    cases hstructs : m.withoutStructs env with
    | none =>
      rw [hstructs] at hfine
      obtain ⟨hgood, hobjects⟩ := hfine c rfl
      obtain ⟨c', hcreate, hshows⟩ := showsObjects_createWithStructs himm h hdn hgood hobjects
      rw [hcreate]
      exact hshows
    | some m' =>
      rw [hstructs] at hfine
      have hcreate := createImmMo_withoutStructs hstructs c
      have hok : (createImmMo env.tr m' c).1 = .ok := hlegal.2 c _ rfl hcreate
      obtain ⟨hparent, hnew⟩ := hlegal.1
      have hsame : m.parent = m'.parent ∧ m.dn = m'.dn := by
        rw [(withoutStructs_eq hstructs).2.2]
        exact ⟨rfl, rfl⟩
      rw [hsame.1] at hparent
      rw [hsame.2] at hnew hdn
      rw [hcreate, ExistenceCall.objects, hsame.2]
      exact showsObjects_create himm h hparent hnew hok hdn hfine

/-! ## Where the answers go wrong -/

include himm hvalid hnamed hex in
theorem addsObject_of_readsOwnWrites (h : ShowsObjects tr imm (some c, S)) {m : CreateCall}
    (hok : (createImmMo tr m c).1 = .ok)
    (hreads : ReadsOwnWrites tr immExists (some (createImmMo tr m c).2, insert m.dn S)) :
    tr.isDnListValid m.dn "" = true ∧ ExistenceCall.AddsObject imm (some c, S) m := by
  obtain ⟨c₀, hc₀, hinv, hS, hv⟩ := h
  obtain rfl := Option.some.inj hc₀
  have hcall := createImmMo_ok hok
  obtain ⟨c', hc', hreads⟩ := hreads
  obtain rfl : (createImmMo tr m c).2 = c' := Option.some.inj hc'
  obtain ⟨hdel, hkeep⟩ := setInitialAttributes_keeps tr m.dn m.initialAttributes .ok
    (recordCreation tr m c)
  rw [← hcall] at hdel hkeep
  have hreads : ∀ p, p ≠ [] →
      ((existsImmMo tr immExists p (createImmMo tr m c).2).2 = true ↔ p = m.dn ∨ p ∈ S) :=
    fun p hp => hreads ⟨p, hp⟩
  have hself := (hreads m.dn m.dn_ne_nil).mpr (Or.inl rfl)
  rw [existsImmMo_eq, Bool.and_eq_true, Bool.and_eq_true, Bool.not_eq_true',
    ← Bool.not_eq_true, Cache.isDeleted_iff, hdel] at hself
  obtain ⟨⟨hdn, hback⟩, _⟩ := hself
  by_cases hcov : Covers (active c.deleted) m.dn
  · rw [recordCreation_of_deleted hcov] at hdel hback
    -- The name itself was the deletion point, else it would still be deleted.
    have hmem : m.dn ∈ active c.deleted := by
      by_contra hno
      rw [Cache.removeDeletedObject, remove_of_not_active hno] at hback
      exact hback hcov
    have himmDn := hinv.markedExists m.dn (active_subset_marked _ hmem)
    refine ⟨hdn, fun q hpq hqd hqp hne => ?_, fun c₀ hc₀ _ x hx => ?_⟩
    · have hq : q ≠ [] := by
        rintro rfl
        exact hqp (List.prefix_nil.mp hpq).symm
      refine (hS q).mpr ((hinv.isSome_iff hq).mpr ⟨?_, Or.inr (himm.of_isPrefix hq hqd himmDn)⟩)
      rintro ⟨r, hr, hrq⟩
      obtain rfl := hinv.antichain m.dn hmem |>.2 r hr (hrq.trans hqd)
      exact hne (hqd.sublist.antisymm hrq.sublist)
    · obtain rfl := Option.some.inj hc₀
      by_contra hno
      have hne : m.dn ++ [x] ≠ [] := by simp
      have hnot : ¬ Covers (active (c.removeDeletedObject m.dn).deleted) (m.dn ++ [x]) := by
        rw [covers_removeDeletedObject hinv hmem, if_pos (List.prefix_append _ _)]
        rintro ⟨q, ⟨hq, hpq, hpne⟩, hqx⟩
        rcases List.prefix_concat_iff.mp hqx with rfl | hqd
        · exact hno hq
        · exact hpne (hpq.sublist.antisymm hqd.sublist)
      have hshown := (hreads _ hne).mp (by
        rw [existsImmMo_eq, hex _ hne, hx, hvalid _ hx, Bool.or_true, Bool.and_true, Bool.true_and,
          Bool.not_eq_true', ← Bool.not_eq_true, Cache.isDeleted_iff, hdel]
        exact hnot)
      rcases hshown with hself | hmemS
      · simp at hself
      · have hsome := (hS _).mp hmemS
        rw [content_of_deleted ⟨m.dn, hmem, List.prefix_append _ _⟩] at hsome
        cases hsome
  · rw [recordCreation_of_not_deleted hcov] at hdel hkeep
    refine ⟨hdn, fun q hpq hqd hqp hne => ?_, fun c₀ hc₀ hd => ?_⟩
    · have hq : q ≠ [] := by
        rintro rfl
        exact hqp (List.prefix_nil.mp hpq).symm
      -- The new object brought an entry for the name with it.
      have hobj : (objectAt q (createImmMo tr m c).2.modified).isSome = true := by
        refine hkeep q ?_
        rw [Cache.insertCreatedObject, insertNewObject, objectAt_addNames, if_neg hne, if_pos hqd]
        rfl
      have hnot : ¬ (createImmMo tr m c).2.isDeleted q = true := by
        rw [Cache.isDeleted_iff, hdel]
        exact fun hc => hcov (hc.of_isPrefix hqd)
      have hshown := (hreads q hq).mp (by
        rw [existsImmMo_eq, hobj, tr.isDnListValid_of_isPrefix hnamed hqd hdn,
          Bool.eq_false_iff.mpr hnot]
        rfl)
      exact hshown.resolve_left hne
    · obtain rfl := Option.some.inj hc₀
      exact absurd ((c.isDeleted_iff _).mp hd) hcov

theorem fine_of_readsOwnWrites_create (himm : imm.Closed)
    (hvalid : ∀ p, (imm p).isSome = true → env.tr.isDnListValid p "" = true) (hnamed : env.tr.NamedChildren)
    (hex : ∀ p, p ≠ [] → immExists (env.tr.mo2ImmDn p) = (imm p).isSome) {s : ExistenceState}
    (h : ShowsObjects env.tr imm s) {m : CreateMoCall} (hlegal : (ExistenceCall.create m).Legal env s)
    (hplain : (ExistenceCall.create m).isPlain env = true)
    (hreads : ReadsOwnWrites env.tr immExists ((ExistenceCall.create m).step env s)) :
    (ExistenceCall.create m).Fine env imm s := by
  obtain ⟨c, hc, -⟩ := id h
  obtain ⟨o, S⟩ := s
  obtain rfl : o = some c := hc
  obtain ⟨m', hstructs⟩ := Option.isSome_iff_exists.mp hplain
  have hcreate := createImmMo_withoutStructs hstructs c
  have hok : (createImmMo env.tr m' c).1 = .ok := hlegal.2 c _ rfl hcreate
  have hdn : m.dn = m'.dn := by
    rw [(withoutStructs_eq hstructs).2.2]
    rfl
  rw [ExistenceCall.step, Option.bind_some, ExistenceCall.run, hcreate, ExistenceCall.objects, hdn] at hreads
  rw [ExistenceCall.Fine, hstructs, hdn]
  exact addsObject_of_readsOwnWrites himm hvalid hnamed hex h hok hreads

theorem fine_of_readsOwnWrites_delete {s : ExistenceState} (h : ShowsObjects env.tr imm s) {dn : Dn}
    (hreads : ReadsOwnWrites env.tr immExists ((ExistenceCall.delete dn).step env s))
    (hlegal : (ExistenceCall.delete dn).Legal env s) : (ExistenceCall.delete dn).Fine env imm s := by
  obtain ⟨⟨o, S⟩, c, rfl, hinv, hS, hv⟩ := s, h
  intro c₀ hc₀ hbad
  obtain rfl := Option.some.inj hc₀
  have hnone := (deleteImmMo_eq_none_iff dn).mpr ⟨hv _ hlegal.1, hbad⟩
  obtain ⟨c', hc', _⟩ := hreads
  rw [ExistenceCall.step, Option.bind_some, ExistenceCall.run, hnone] at hc'
  cases hc'

/-! ## Runs -/

def ExistenceState.initial (imm : ImmTree) : ExistenceState := (some {}, {p | (imm p).isSome = true})

include hvalid in
theorem showsObjects_initial (himm : imm.Closed) : ShowsObjects tr imm (.initial imm) := by
  refine ⟨{}, rfl, cacheInv_empty tr imm, fun p => ?_, hvalid⟩
  by_cases hp : p = []
  · subst hp
    change (imm []).isSome = true ↔ _
    rw [himm.root, content_nil]
  · have hcov : ¬ Covers (active ({} : Cache).deleted) p := by
      rintro ⟨q, ⟨d, hd, _⟩, _⟩
      simp at hd
    have hobj : objectAt p ({} : Cache).modified = none := (objectAt_empty p).trans (if_neg hp)
    rw [content_of_none hp hcov hobj]
    rfl

end

section
variable {env : BridgeEnv} {imm : ImmTree} {immExists : String → Bool}

/-- In a run of allowed calls without errors, every state answers as it should when no call of the run goes
wrong, and where no call creates a struct, only then. -/
theorem reads_own_writes_iff (himm : imm.Closed)
    (hvalid : ∀ p, (imm p).isSome = true → env.tr.isDnListValid p "" = true) (hnamed : env.tr.NamedChildren)
    (hex : ∀ p, p ≠ [] → immExists (env.tr.mo2ImmDn p) = (imm p).isSome) (calls : List ExistenceCall)
    (hlegal : Along (ExistenceCall.step env) (ExistenceCall.Legal env) (.initial imm) calls) :
    (Along (ExistenceCall.step env) (ExistenceCall.Fine env imm) (.initial imm) calls →
      Throughout (ExistenceCall.step env) (ReadsOwnWrites env.tr immExists) (.initial imm) calls) ∧
    ((∀ call ∈ calls, call.isPlain env = true) →
      Throughout (ExistenceCall.step env) (ReadsOwnWrites env.tr immExists) (.initial imm) calls →
      Along (ExistenceCall.step env) (ExistenceCall.Fine env imm) (.initial imm) calls) := by
  have hinitial := showsObjects_initial hvalid himm
  constructor
  · intro hfine
    exact (throughout_of_along (fun s call h hgood => showsObjects_step himm h hgood.1 hgood.2) hinitial
      (hlegal.and hfine)).mono (readsOwnWrites_of_showsObjects hex)
  · intro hplain
    have hplain : Along (ExistenceCall.step env) (fun _ call => call.isPlain env = true) (.initial imm) calls :=
      along_of_split fun before call after hsplit => hplain call (by simp [hsplit])
    refine (throughout_iff_along_of (readsOwnWrites_of_showsObjects hex)
      (fun s call h hl hf => showsObjects_step himm h hl.1 hf) ?_ hinitial (hlegal.and hplain)).mp
    rintro s call h ⟨hl, hplain⟩ hr
    cases call with
    | create m => exact fine_of_readsOwnWrites_create himm hvalid hnamed hex h hl hplain hr
    | delete dn => exact fine_of_readsOwnWrites_delete h hr hl

end

section
open Sample

/-- A second object that is given no points: the instance that is created first is deleted again. -/
def createFooWithoutPoints : CreateMoCall :=
  ⟨["ManagedElement=1"], noComma_managedElement, "Foo", "fooId", "2", [("points", .struct [])]⟩

def firstPoint : Dn := .ofString "ManagedElement=1,Foo=2,Point.id=points_0"

theorem setCalls_withoutPoints : setCalls bridgeEnv (joinDn createFooWithoutPoints.dn)
    ((creationCalls bridgeEnv createFooWithoutPoints).foldl (SessionCall.tree bridgeEnv.tr) Sample.imm)
    ("points", .struct []) = [.delete firstPoint, referenceCall translator "ManagedElement=1,Foo=2" "points" []] := by
  have hrefs : ((creationCalls bridgeEnv createFooWithoutPoints).foldl (SessionCall.tree bridgeEnv.tr)
      Sample.imm).references ["ManagedElement=1", "Foo=2"] "points" = ["ManagedElement=1,Foo=2,Point.id=points_0"] := by
    decide +kernel
  have hdn : joinDn createFooWithoutPoints.dn = "ManagedElement=1,Foo=2" := by decide +kernel
  have hsplit : splitDn "ManagedElement=1,Foo=2" = ["ManagedElement=1", "Foo=2"] := by decide +kernel
  rw [hdn, setCalls, hsplit, hrefs, structCalls, if_pos rfl]
  rfl

theorem createGood_withoutPoints : CreateGood bridgeEnv Sample.imm (.initial Sample.imm) createFooWithoutPoints := by
  refine ⟨good_creationCalls, ⟨fun values _ => ?_, ?_⟩, trivial⟩
  · have hreads : ∀ c ∈ ((creationCalls bridgeEnv createFooWithoutPoints).foldl (SessionCall.step bridgeEnv.tr)
        (.initial Sample.imm)).1, bridgeEnv.tr.isDnListValid createFooWithoutPoints.dn "points" = true ∧
          c.isDeleted createFooWithoutPoints.dn = false ∧
          structReferences bridgeEnv.toStructEnv (joinDn createFooWithoutPoints.dn) "points" c =
            some ["ManagedElement=1,Foo=2,Point.id=points_0"] := by decide +kernel
    exact hreads
  · refine ⟨⟨fun _ _ => Sample.isListValid _ _, fun _ => ⟨by decide +kernel,
      fun c _ h => absurd h.1 (by decide +kernel), fun q hq _ hroot => ?_⟩⟩,
      good_update (by decide +kernel) (by decide +kernel) fun _ _ => Or.inl (by decide +kernel), trivial⟩
    have hlen : q.length = 1 := of_decide_eq_true hroot
    have hpoint : firstPoint.parts.length = 3 := by decide
    have := hq.length_le
    change firstPoint.parts.length ≤ _ at this
    omega

theorem createTree_withoutPoints (p : List String) :
    (createTree bridgeEnv Sample.imm createFooWithoutPoints p).isSome = true ↔
      p = createFooWithoutPoints.dn ∨ (Sample.imm p).isSome = true := by
  have htree : createTree bridgeEnv Sample.imm createFooWithoutPoints =
      [SessionCall.delete firstPoint, referenceCall translator "ManagedElement=1,Foo=2" "points" []].foldl
        (SessionCall.tree translator) ((creationCalls bridgeEnv createFooWithoutPoints).foldl
          (SessionCall.tree translator) Sample.imm) := by
    rw [← setCalls_withoutPoints]
    rfl
  have hcalls : creationCalls bridgeEnv createFooWithoutPoints = [.create createFooWithoutPoints.bare,
      .create (Bridge.firstInstance createFooWithoutPoints "points" "Point"),
      .update ⟨createFooWithoutPoints.dn, CreateCall.dn_ne_nil _⟩ "" "points"
        (Bridge.firstReference createFooWithoutPoints "points" "Point")] := rfl
  have hpoint : (Bridge.firstInstance createFooWithoutPoints "points" "Point").dn = firstPoint.parts :=
    by decide +kernel
  have hfoo : splitDn "ManagedElement=1,Foo=2" = createFooWithoutPoints.dn := by decide +kernel
  have hbare : createFooWithoutPoints.bare.dn = createFooWithoutPoints.dn := rfl
  rw [htree, hcalls]
  simp only [List.foldl_cons, List.foldl_nil, referenceCall, SessionCall.tree, Dn.ofString, hpoint, hfoo, hbare]
  by_cases hbelow : firstPoint.parts <+: p
  · have hne : p ≠ createFooWithoutPoints.dn := by
      rintro rfl
      exact absurd hbelow (by decide +kernel)
    have hnone : (Sample.imm p).isSome ≠ true := by
      rw [Ne, imm_isSome_iff]
      rintro (rfl | rfl | rfl) <;> exact absurd hbelow (by decide +kernel)
    simp [hbelow, hne, hnone]
  · have hne : p ≠ firstPoint.parts := by
      rintro rfl
      exact hbelow List.prefix_rfl
    by_cases hp : p = createFooWithoutPoints.dn
    · rw [hp] at hbelow hne ⊢
      simp [hbelow, hne]
    · simp [hbelow, hne, hp]

theorem legal_withoutPoints : Along (ExistenceCall.step bridgeEnv) (ExistenceCall.Legal bridgeEnv)
    (.initial Sample.imm) [.create createFooWithoutPoints] := by
  have hrun : ∀ r ∈ ExistenceCall.run bridgeEnv {} (.create createFooWithoutPoints), r.1 = .ok := by decide +kernel
  refine ⟨⟨⟨Or.inr ((imm_isSome_iff _).mpr (Or.inl rfl)), fun hmem => ?_⟩, fun c r hc hr => ?_⟩, trivial⟩
  · exact absurd ((imm_isSome_iff _).mp hmem) (by decide +kernel)
  · obtain rfl := Option.some.inj hc
    exact hrun r hr

theorem fine_withoutPoints : Along (ExistenceCall.step bridgeEnv) (ExistenceCall.Fine bridgeEnv Sample.imm)
    (.initial Sample.imm) [.create createFooWithoutPoints] := by
  refine ⟨⟨Sample.isListValid _ _, fun c hc => ?_⟩, trivial⟩
  obtain rfl := Option.some.inj hc
  rw [content_empty Sample.closed]
  exact ⟨createGood_withoutPoints, createTree_withoutPoints⟩

theorem reads_own_writes_withoutPoints : Throughout (ExistenceCall.step bridgeEnv)
    (ReadsOwnWrites translator immExists) (.initial Sample.imm) [.create createFooWithoutPoints] :=
  (@reads_own_writes_iff bridgeEnv Sample.imm immExists Sample.closed (fun _ _ => Sample.isListValid _ _)
    (fun _ => rfl) (fun p _ => Sample.known p) _ legal_withoutPoints).1 fine_withoutPoints

def deleteCreateFoo : List ExistenceCall :=
  [.delete foo, .create ⟨["ManagedElement=1"], noComma_managedElement, "Foo", "fooId", "1", []⟩]

theorem legal_deleteCreateFoo :
    Along (ExistenceCall.step bridgeEnv) (ExistenceCall.Legal bridgeEnv) (.initial Sample.imm) deleteCreateFoo := by
  have hdelete : ∀ r ∈ ExistenceCall.run bridgeEnv {} (.delete foo), r.1 = .ok := by decide
  have hcreate : ∀ c ∈ (ExistenceCall.run bridgeEnv {} (.delete foo)).map Prod.snd, ∀ r ∈ ExistenceCall.run
      bridgeEnv c (.create ⟨["ManagedElement=1"], by simp, "Foo", "fooId", "1", []⟩), r.1 = .ok := by decide
  refine ⟨⟨(imm_isSome_iff _).mpr (Or.inr (Or.inl rfl)), ?_⟩, ⟨⟨Or.inr ⟨?_, by decide⟩, ?_⟩, ?_⟩, trivial⟩
  · rintro c r hc hr
    obtain rfl := Option.some.inj hc
    exact hdelete r hr
  · exact (imm_isSome_iff _).mpr (Or.inl rfl)
  · rintro ⟨_, h⟩
    exact h (by decide)
  · exact fun c r hc hr => hcreate c hc r hr

/-- The object below `Foo=1` is there again. -/
theorem not_reads_own_writes :
    ¬ ∀ (env : BridgeEnv) (imm : ImmTree) (immExists : String → Bool), imm.Closed →
      (∀ p, (imm p).isSome = true → env.tr.isDnListValid p "" = true) → env.tr.NamedChildren →
      (∀ p, p ≠ [] → immExists (env.tr.mo2ImmDn p) = (imm p).isSome) →
      ∀ calls, Along (ExistenceCall.step env) (ExistenceCall.Legal env) (.initial imm) calls →
        Throughout (ExistenceCall.step env) (ReadsOwnWrites env.tr immExists) (.initial imm) calls := by
  intro h
  have hrun := h bridgeEnv Sample.imm immExists Sample.closed (fun _ _ => Sample.isListValid _ _)
    (fun _ => rfl) (fun p _ => Sample.known p) deleteCreateFoo legal_deleteCreateFoo
  obtain ⟨c, hc, hreads⟩ := hrun.last
  have hshown : ∀ c ∈ (List.foldl (ExistenceCall.step bridgeEnv) (.initial Sample.imm)
      deleteCreateFoo).1, (existsImmMo bridgeEnv.tr immExists bar.parts c).2 = true := by decide
  rcases (hreads bar).mp (hshown c hc) with hfoo | hgone
  · revert hfoo
    decide
  · exact hgone.2 (by decide)

end

end ComSA
