import ComSA.Lib.Run
import ComSA.OIproxy.RegisterObjectImplementer
import Mathlib.Data.List.Nodup

/-!
# Registrations and implementers

The applier is the implementer of the struct classes of what is registered, and of no others.
-/

namespace ComSA.OIproxy

open Registry

/-- The struct classes in the configuration with the paths of the attributes that have them. -/
def configPaths (env : OIEnv) (owner : String) (attrs : List ComplexAttribute) : List (String × String) :=
  (attrs.filter fun attr => !env.isRuntimeClass attr.immClassName).map fun attr =>
    (attr.immClassName, attributePath owner attr)

def classPaths (env : OIEnv) (mocPath : String) : List (String × String) :=
  match classOfPath env mocPath with
  | .error _ => []
  | .ok (classMoc, _) => configPaths env mocPath (getMocComplexAttributes classMoc)

inductive Registration where
  | ofClass (className : String)
  | ofDn (dn : String)
  deriving DecidableEq, Repr

def Registration.paths (env : OIEnv) (s : Registry) : Registration → List (String × String)
  | ofClass className => (s.registeredClass className).elim [] fun reg => classPaths env reg.mocPath
  | ofDn dn =>
    (s.registeredDN dn).elim [] fun reg => configPaths env dn (getMocComplexAttributes reg.dnMoc)

namespace Registry

def Has (s : Registry) (x : String × String) : Prop :=
  ∃ ctStruct ∈ s.registeredComplexTypeClass x.1, ctStruct.path = x.2

structure InStep (env : OIEnv) (s : Registry) : Prop where
  implementer_iff : ∀ immClassName, env.isRuntimeClass immClassName = false →
    (s.applierImplementer immClassName = true ↔ s.registeredComplexTypeClass immClassName ≠ [])
  present_iff : ∀ x, s.Has x ↔ ∃ g : Registration, x ∈ g.paths env s

end Registry

/-- A register call that returns no error has registered, and another has changed nothing. -/
def RegisterCall.Answered (env : OIEnv) (s : Registry) (call : RegisterCall) : Prop :=
  match call with
  | .registerClass_2 moIf txIf mocPath _ =>
    if (call.run env s).1 = .ok then
      (call.step env s).registeredClass ((GlobalSplitMocPath mocPath).getLastD "") = some ⟨moIf, txIf, mocPath⟩
    else
      call.step env s = s
  | .registerDn_2 moIf txIf dn _ =>
    if (call.run env s).1 = .ok then
      ∃ moc, (call.step env s).registeredDN dn = some ⟨moIf, txIf, moc⟩
    else
      call.step env s = s
  | .unregisterClass_2 .. | .unregisterDn_2 .. => True

def RegisterCall.Right (env : OIEnv) (s : Registry) (call : RegisterCall) : Prop :=
  (call.step env s).InStep env ∧ call.Answered env s

/-! ## When the calls do what they should -/

def Accepted (s : Registry) (answers : Answers) (paths : List (String × String)) : Prop :=
  (∀ x ∈ paths, ¬ s.Has x) ∧ paths.Nodup ∧
    ∀ x ∈ paths, s.registeredComplexTypeClass x.1 = [] → answers.applierImplementerSet x.1 = true

/-- A class is registered only where its attributes can be; where those of an object cannot, the object
had no implementer and its paths are not there for something else; and a class is unregistered with
a path that has the same attributes as the one it was registered with. -/
def RegisterCall.Fine (env : OIEnv) (s : Registry) : RegisterCall → Prop
  | .registerClass_2 _ _ mocPath answers =>
    ∀ x, checkRegisterClass env mocPath answers s = .ok x →
      Accepted s answers (classPaths env mocPath)
  | .registerDn_2 _ _ dn answers =>
    ∀ moc immDn, checkRegisterDn env dn answers s = .ok (moc, immDn) →
      Accepted s answers (configPaths env dn (getMocComplexAttributes moc)) ∨
        s.objectImplementer immDn = false ∧
          ∀ x ∈ configPaths env dn (getMocComplexAttributes moc), ¬ s.Has x
  | .unregisterClass_2 moIf mocPath =>
    ∀ moc className immClassName reg,
      checkUnregisterClass env moIf mocPath s = .ok (moc, className, immClassName) →
        s.registeredClass className = some reg →
          ∀ x, s.Has x → (x ∈ classPaths env mocPath ↔ x ∈ classPaths env reg.mocPath)
  | .unregisterDn_2 .. => True

/-! ## The paths of one class -/

section
variable {env : OIEnv} {s : Registry} {moIf txIf : Interface} {answers : Answers} {owner : String}
variable {attrs : List ComplexAttribute}

theorem existRegisteredCTClassAttr_iff {immClassName path : String} :
    s.existRegisteredCTClassAttr immClassName path = true ↔ s.Has (immClassName, path) := by
  simp [existRegisteredCTClassAttr, Has]

theorem existRegisteredCTClass_iff {immClassName : String} :
    s.existRegisteredCTClass immClassName = true ↔ s.registeredComplexTypeClass immClassName ≠ [] := by
  simp [existRegisteredCTClass]

variable (moIf txIf) in
theorem registeredComplexTypeClass_add {immClassName path : String}
    (hnew : ¬ s.Has (immClassName, path)) (C : String) :
    (s.addNewRegisteredCTClass moIf txIf immClassName path).registeredComplexTypeClass C
      = s.registeredComplexTypeClass C ++ if C = immClassName then [⟨moIf, txIf, path⟩] else [] := by
  unfold addNewRegisteredCTClass
  rw [if_neg (existRegisteredCTClassAttr_iff.not.mpr hnew)]
  dsimp only
  by_cases hC : C = immClassName
  · subst hC
    rw [Function.update_self, if_pos rfl]
  · rw [Function.update_of_ne hC, if_neg hC, List.append_nil]

theorem has_of_added {s₁ : Registry} {x : String × String}
    (hadd : ∀ C, s₁.registeredComplexTypeClass C
      = s.registeredComplexTypeClass C ++ if C = x.1 then [⟨moIf, txIf, x.2⟩] else [])
    {y : String × String} : s₁.Has y ↔ y = x ∨ s.Has y := by
  unfold Has
  rw [hadd]
  constructor
  · rintro ⟨e, he, hpath⟩
    rcases List.mem_append.mp he with he | he
    · exact Or.inr ⟨e, he, hpath⟩
    · split at he <;> rename_i hC
      · rw [List.mem_singleton.mp he] at hpath
        exact Or.inl (Prod.ext hC hpath.symm)
      · cases he
  · rintro (rfl | ⟨e, he, hpath⟩)
    · exact ⟨_, List.mem_append_right _ (by rw [if_pos rfl]; exact List.mem_singleton.mpr rfl), rfl⟩
    · exact ⟨e, List.mem_append_left _ he, hpath⟩

def Registry.SameElse (s s' : Registry) : Prop :=
  s'.registeredClass = s.registeredClass ∧ s'.registeredDN = s.registeredDN ∧
    s'.classImplementer = s.classImplementer ∧ s'.objectImplementer = s.objectImplementer

variable (moIf txIf) in
theorem sameElse_add (immClassName path : String) :
    s.SameElse (s.addNewRegisteredCTClass moIf txIf immClassName path) := by
  unfold addNewRegisteredCTClass
  split
  · exact ⟨rfl, rfl, rfl, rfl⟩
  · exact ⟨rfl, rfl, rfl, rfl⟩

theorem applierImplementer_add (immClassName path : String) :
    (s.addNewRegisteredCTClass moIf txIf immClassName path).applierImplementer = s.applierImplementer := by
  unfold addNewRegisteredCTClass
  split <;> rfl

theorem Registry.SameElse.trans {s₁ s₂ s₃ : Registry} (h : s₁.SameElse s₂) (h' : s₂.SameElse s₃) :
    s₁.SameElse s₃ :=
  ⟨h'.1.trans h.1, h'.2.1.trans h.2.1, h'.2.2.1.trans h.2.2.1, h'.2.2.2.trans h.2.2.2⟩

structure Registry.Kept (s : Registry) : Prop where
  implementer_iff : ∀ C, s.applierImplementer C = true ↔ s.registeredComplexTypeClass C ≠ []
  nodup : ∀ C, ((s.registeredComplexTypeClass C).map RegisteredCTClassStruct.path).Nodup

variable (moIf txIf) in
theorem kept_add {immClassName path : String} {applier : String → Bool} (h : s.Kept)
    (hnew : ¬ s.Has (immClassName, path)) (happlier : applier immClassName = true)
    (hother : ∀ C, C ≠ immClassName → applier C = s.applierImplementer C) :
    (({ s with applierImplementer := applier }).addNewRegisteredCTClass moIf txIf immClassName path).Kept := by
  have hadd := registeredComplexTypeClass_add (s := { s with applierImplementer := applier }) moIf txIf hnew
  refine ⟨fun C => ?_, fun C => ?_⟩
  · rw [hadd, applierImplementer_add]
    dsimp only
    by_cases hC : C = immClassName
    · rw [if_pos hC, hC]
      simp [happlier]
    · rw [if_neg hC, List.append_nil, hother C hC]
      exact h.implementer_iff C
  · rw [hadd]
    dsimp only
    by_cases hC : C = immClassName
    · rw [if_pos hC, List.map_append, hC]
      refine (h.nodup immClassName).append (List.nodup_singleton _) ?_
      rintro p hp hpath
      obtain ⟨e, he, rfl⟩ := List.mem_map.mp hp
      exact hnew ⟨e, he, List.mem_singleton.mp hpath⟩
    · rw [if_neg hC, List.append_nil]
      exact h.nodup C

/-! ## Registering the attributes -/

theorem configPaths_cons_of_runtime {attr : ComplexAttribute}
    (h : env.isRuntimeClass attr.immClassName = true) :
    configPaths env owner (attr :: attrs) = configPaths env owner attrs := by
  unfold configPaths
  rw [List.filter_cons_of_neg (by simp [h])]

theorem configPaths_cons_of_config {attr : ComplexAttribute}
    (h : ¬ env.isRuntimeClass attr.immClassName = true) :
    configPaths env owner (attr :: attrs)
      = (attr.immClassName, attributePath owner attr) :: configPaths env owner attrs := by
  unfold configPaths
  rw [List.filter_cons_of_pos (by simp [h]), List.map_cons]

/-- What registering the attributes does: some of the paths come in at the end of the vectors, all of
them where it succeeds, and it succeeds where they are accepted. -/
structure Registers (s s' : Registry) (paths : List (String × String)) (answers : Answers) (ret : MafReturn) :
    Prop where
  same : s.SameElse s'
  kept : s'.Kept
  more : ∀ C, ∃ es, s'.registeredComplexTypeClass C = s.registeredComplexTypeClass C ++ es ∧
    ∀ e ∈ es, (C, e.path) ∈ paths
  ok_iff : ret = .ok ↔ Accepted s answers paths
  all : ret = .ok → ∀ x ∈ paths, s'.Has x

theorem registers_nothing (h : s.Kept) (paths : List (String × String)) {ret : MafReturn} (hret : ret ≠ .ok)
    (hno : ¬ Accepted s answers paths) : Registers s s paths answers ret where
  same := ⟨rfl, rfl, rfl, rfl⟩
  kept := h
  more _ := ⟨[], (List.append_nil _).symm, fun _ he => nomatch he⟩
  ok_iff := iff_of_false hret hno
  all hok := absurd hok hret

theorem has_of_more {s' : Registry} {paths : List (String × String)}
    (h : ∀ C, ∃ es, s'.registeredComplexTypeClass C = s.registeredComplexTypeClass C ++ es ∧
      ∀ e ∈ es, (C, e.path) ∈ paths) {x : String × String} (hx : s.Has x) : s'.Has x := by
  obtain ⟨e, he, hpath⟩ := hx
  obtain ⟨es, hes, _⟩ := h x.1
  exact ⟨e, hes ▸ List.mem_append_left _ he, hpath⟩

theorem Registers.cons {s₁ s' : Registry} {x : String × String} {paths : List (String × String)}
    {ret : MafReturn} (hsame : s.SameElse s₁)
    (hadd : ∀ C, s₁.registeredComplexTypeClass C
      = s.registeredComplexTypeClass C ++ if C = x.1 then [⟨moIf, txIf, x.2⟩] else [])
    (hnew : ¬ s.Has x) (hset : s.registeredComplexTypeClass x.1 = [] → answers.applierImplementerSet x.1 = true)
    (h : Registers s₁ s' paths answers ret) : Registers s s' (x :: paths) answers ret := by
  have hhas : ∀ y, s₁.Has y ↔ y = x ∨ s.Has y := fun y => has_of_added hadd
  refine ⟨hsame.trans h.same, h.kept, fun C => ?_, ?_, fun hok y hy => ?_⟩
  · obtain ⟨es, hes, hpaths⟩ := h.more C
    refine ⟨_, (by rw [hes, hadd, List.append_assoc]), fun e he => ?_⟩
    rcases List.mem_append.mp he with he | he
    · split at he <;> rename_i hC
      · rw [List.mem_singleton.mp he, hC]
        exact List.mem_cons_self
      · cases he
    · exact List.mem_cons_of_mem _ (hpaths e he)
  · rw [h.ok_iff]
    constructor
    · rintro ⟨hfresh, hnodup, hsets⟩
      refine ⟨fun y hy => ?_, List.nodup_cons.mpr ⟨fun hx => ?_, hnodup⟩, fun y hy hnone => ?_⟩
      · rcases List.mem_cons.mp hy with rfl | hy
        · exact hnew
        · exact fun hs => hfresh y hy ((hhas y).mpr (Or.inr hs))
      · exact hfresh x hx ((hhas x).mpr (Or.inl rfl))
      · rcases List.mem_cons.mp hy with rfl | hy
        · exact hset hnone
        · by_cases hsame : y.1 = x.1
          · rw [hsame] at hnone ⊢
            exact hset hnone
          · refine hsets y hy ?_
            rw [hadd, if_neg hsame, hnone]
            rfl
    · rintro ⟨hfresh, hnodup, hsets⟩
      obtain ⟨hx, hnodup⟩ := List.nodup_cons.mp hnodup
      refine ⟨fun y hy hs => ?_, hnodup, fun y hy hnone => ?_⟩
      · rcases (hhas y).mp hs with rfl | hs
        · exact hx hy
        · exact hfresh y (List.mem_cons_of_mem _ hy) hs
      · rw [hadd, List.append_eq_nil_iff] at hnone
        exact hsets y (List.mem_cons_of_mem _ hy) hnone.1
  · rcases List.mem_cons.mp hy with rfl | hy
    · exact has_of_more h.more ((hhas y).mpr (Or.inl rfl))
    · exact h.all hok y hy

variable (env moIf txIf answers owner attrs) in
theorem registers (h : s.Kept) : Registers s
    (registerComplexTypeAttrClasses env moIf txIf answers owner attrs s).2 (configPaths env owner attrs) answers
    (registerComplexTypeAttrClasses env moIf txIf answers owner attrs s).1 := by
  induction attrs generalizing s with
  | nil =>
    exact {
      same := ⟨rfl, rfl, rfl, rfl⟩, kept := h
      more := fun _ => ⟨[], (List.append_nil _).symm, fun _ he => nomatch he⟩
      ok_iff := iff_of_true rfl ⟨fun _ hx => (nomatch hx), List.nodup_nil, fun _ hx => (nomatch hx)⟩
      all := fun _ _ hx => nomatch hx }
  | cons attr attrs ih =>
    rw [registerComplexTypeAttrClasses]
    split <;> rename_i hruntime
    · rw [configPaths_cons_of_runtime hruntime]
      exact ih h
    · rw [configPaths_cons_of_config hruntime]
      split <;> rename_i hclass
      · split <;> rename_i hattr
        · refine registers_nothing h _ (fun hret => nomatch hret) fun hacc => ?_
          exact hacc.1 _ List.mem_cons_self (existRegisteredCTClassAttr_iff.mp hattr)
        · have hnew := existRegisteredCTClassAttr_iff.not.mp hattr
          have hnone := existRegisteredCTClass_iff.mp hclass
          refine Registers.cons (sameElse_add moIf txIf ..) (registeredComplexTypeClass_add moIf txIf hnew) hnew
            (fun hnil => absurd hnil hnone) (ih ?_)
          exact kept_add moIf txIf h hnew ((h.implementer_iff _).mpr hnone) fun _ _ => rfl
      · have hnil := not_not.mp (existRegisteredCTClass_iff.not.mp hclass)
        have hnew : ¬ s.Has (attr.immClassName, attributePath owner attr) := by
          rintro ⟨e, he, _⟩
          rw [hnil] at he
          cases he
        split <;> rename_i hset
        · have hkept := kept_add moIf txIf h hnew
            (Function.update_self attr.immClassName true s.applierImplementer)
            fun C hC => Function.update_of_ne hC ..
          have happlier : s.SameElse { s with
              applierImplementer := Function.update s.applierImplementer attr.immClassName true } :=
            ⟨rfl, rfl, rfl, rfl⟩
          have hsame := happlier.trans
            (sameElse_add moIf txIf attr.immClassName (attributePath owner attr))
          exact Registers.cons hsame (registeredComplexTypeClass_add moIf txIf hnew) hnew (fun _ => hset) (ih hkept)
        · refine registers_nothing h _ (fun hret => nomatch hret) fun hacc => ?_
          exact hset (hacc.2.2 _ List.mem_cons_self hnil)

theorem mem_addNewRegisteredCTClass {immClassName path C : String} {e : RegisteredCTClassStruct}
    (h : e ∈ (s.addNewRegisteredCTClass moIf txIf immClassName path).registeredComplexTypeClass C) :
    e ∈ s.registeredComplexTypeClass C ∨ e = ⟨moIf, txIf, path⟩ ∧ C = immClassName := by
  unfold addNewRegisteredCTClass at h
  split at h
  · exact Or.inl h
  · dsimp only at h
    by_cases hC : C = immClassName
    · rw [hC, Function.update_self] at h
      rcases List.mem_append.mp h with h | h
      · exact Or.inl (hC ▸ h)
      · exact Or.inr ⟨List.mem_singleton.mp h, hC⟩
    · rw [Function.update_of_ne hC] at h
      exact Or.inl h

variable (env moIf txIf answers owner attrs) in
theorem entry_of_registered (s : Registry) (C : String) (e : RegisteredCTClassStruct)
    (h : e ∈ (registerComplexTypeAttrClasses env moIf txIf answers owner attrs s).2.registeredComplexTypeClass C) :
    e ∈ s.registeredComplexTypeClass C ∨
      e = ⟨moIf, txIf, e.path⟩ ∧ (C, e.path) ∈ configPaths env owner attrs := by
  induction attrs generalizing s with
  | nil => exact Or.inl h
  | cons attr attrs ih =>
    have hadded : ∀ s' : Registry, s'.registeredComplexTypeClass = s.registeredComplexTypeClass →
        ¬ env.isRuntimeClass attr.immClassName = true →
        e ∈ (registerComplexTypeAttrClasses env moIf txIf answers owner attrs (s'.addNewRegisteredCTClass
          moIf txIf attr.immClassName (attributePath owner attr))).2.registeredComplexTypeClass C →
        e ∈ s.registeredComplexTypeClass C ∨
          e = ⟨moIf, txIf, e.path⟩ ∧ (C, e.path) ∈ configPaths env owner (attr :: attrs) := by
      intro s' hsame hruntime h
      rw [configPaths_cons_of_config hruntime]
      rcases ih _ h with h | ⟨he, hmem⟩
      · rcases mem_addNewRegisteredCTClass h with h | ⟨he, hC⟩
        · exact Or.inl (hsame ▸ h)
        · rw [he, hC]
          exact Or.inr ⟨rfl, List.mem_cons_self⟩
      · exact Or.inr ⟨he, List.mem_cons_of_mem _ hmem⟩
    rw [registerComplexTypeAttrClasses] at h
    split at h <;> rename_i hruntime
    · rw [configPaths_cons_of_runtime hruntime]
      exact ih _ h
    · split at h
      · split at h
        · exact Or.inl h
        · exact hadded _ rfl hruntime h
      · split at h
        · exact hadded { s with
            applierImplementer := Function.update s.applierImplementer attr.immClassName true } rfl hruntime h
        · exact Or.inl h

/-! ## Unregistering the attributes -/

structure Unregisters (s s' : Registry) (paths : List (String × String)) : Prop where
  same : s.SameElse s'
  kept : s'.Kept
  left : ∀ C, s'.registeredComplexTypeClass C
    = (s.registeredComplexTypeClass C).filter fun e => decide ((C, e.path) ∉ paths)

theorem eraseP_path_eq_filter {es : List RegisteredCTClassStruct} {path : String}
    (h : (es.map RegisteredCTClassStruct.path).Nodup) :
    es.eraseP (fun e => e.path == path) = es.filter fun e => decide (e.path ≠ path) := by
  induction es with
  | nil => rfl
  | cons e es ih =>
    obtain ⟨hnot, hnodup⟩ := List.nodup_cons.mp h
    by_cases hpath : e.path = path
    · rw [List.eraseP_cons_of_pos (by simpa using hpath), List.filter_cons_of_neg (by simpa using hpath)]
      refine (List.filter_eq_self.mpr fun e' he' => ?_).symm
      refine decide_eq_true fun hsame => hnot ?_
      rw [hpath, ← hsame]
      exact List.mem_map_of_mem he'
    · rw [List.eraseP_cons_of_neg (by simpa using hpath), List.filter_cons_of_pos (by simpa using hpath), ih hnodup]

theorem registeredComplexTypeClass_remove (h : s.Kept) (immClassName path : String) (C : String) :
    (s.removeRegisteredCTClass immClassName path).registeredComplexTypeClass C
      = (s.registeredComplexTypeClass C).filter fun e => decide ((C, e.path) ∉ [(immClassName, path)]) := by
  unfold removeRegisteredCTClass
  dsimp only
  by_cases hC : C = immClassName
  · subst hC
    rw [Function.update_self, eraseP_path_eq_filter (h.nodup C)]
    simp
  · rw [Function.update_of_ne hC, List.filter_eq_self.mpr]
    simp [hC]

variable (env owner) in
theorem unregisters_attr (attr : ComplexAttribute) (h : s.Kept) :
    Unregisters s (unregisterAttr env owner s attr) (configPaths env owner [attr]) := by
  unfold unregisterAttr
  split <;> rename_i hruntime
  · rw [configPaths_cons_of_runtime hruntime]
    exact ⟨⟨rfl, rfl, rfl, rfl⟩, h, fun C => (List.filter_eq_self.mpr fun _ _ => rfl).symm⟩
  · rw [configPaths_cons_of_config hruntime]
    have hremove := registeredComplexTypeClass_remove h attr.immClassName (attributePath owner attr)
    have hnodup : ∀ C, (((s.removeRegisteredCTClass attr.immClassName
        (attributePath owner attr)).registeredComplexTypeClass C).map RegisteredCTClassStruct.path).Nodup := by
      intro C
      rw [hremove]
      exact (h.nodup C).sublist (List.filter_sublist.map _)
    have hother : ∀ C, C ≠ attr.immClassName → (s.removeRegisteredCTClass attr.immClassName
        (attributePath owner attr)).registeredComplexTypeClass C = s.registeredComplexTypeClass C :=
      fun C hC => Function.update_of_ne hC ..
    dsimp only
    split <;> rename_i hclass
    · refine ⟨⟨rfl, rfl, rfl, rfl⟩, ⟨fun C => ?_, hnodup⟩, hremove⟩
      by_cases hC : C = attr.immClassName
      · have hsome := existRegisteredCTClass_iff.mp hclass
        subst hC
        refine iff_of_true ?_ hsome
        refine (h.implementer_iff _).mpr fun hnil => hsome ?_
        rw [hremove, hnil]
        rfl
      · rw [hother C hC]
        exact h.implementer_iff C
    · have hnone := not_not.mp (existRegisteredCTClass_iff.not.mp hclass)
      refine ⟨⟨rfl, rfl, rfl, rfl⟩, ⟨fun C => ?_, hnodup⟩, hremove⟩
      dsimp only
      by_cases hC : C = attr.immClassName
      · subst hC
        rw [Function.update_self, hnone]
        simp
      · rw [Function.update_of_ne hC, hother C hC]
        exact h.implementer_iff C

variable (env owner attrs) in
theorem unregisters (h : s.Kept) : Unregisters s (unregisterComplexTypeAttrClasses env owner attrs s).2
    (configPaths env owner attrs) := by
  unfold unregisterComplexTypeAttrClasses
  induction attrs generalizing s with
  | nil => exact ⟨⟨rfl, rfl, rfl, rfl⟩, h, fun C => (List.filter_eq_self.mpr fun _ _ => rfl).symm⟩
  | cons attr attrs ih =>
    have hattr := unregisters_attr env owner attr h
    have hrest := ih hattr.kept
    refine ⟨hattr.same.trans hrest.same, hrest.kept, fun C => ?_⟩
    have hpaths : configPaths env owner (attr :: attrs)
        = configPaths env owner [attr] ++ configPaths env owner attrs := by
      rw [configPaths, configPaths, configPaths, ← List.map_append, ← List.filter_append]
      rfl
    rw [List.foldl_cons, hrest.left, hattr.left, List.filter_filter, hpaths]
    refine List.filter_congr fun e _ => ?_
    simp [List.mem_append, and_comm]

theorem Unregisters.has_iff {s' : Registry} {paths : List (String × String)} (h : Unregisters s s' paths)
    {x : String × String} : s'.Has x ↔ s.Has x ∧ x ∉ paths := by
  unfold Has
  rw [h.left]
  constructor
  · rintro ⟨e, he, hpath⟩
    obtain ⟨he, hnot⟩ := List.mem_filter.mp he
    refine ⟨⟨e, he, hpath⟩, ?_⟩
    rw [hpath] at hnot
    exact of_decide_eq_true hnot
  · rintro ⟨⟨e, he, hpath⟩, hnot⟩
    refine ⟨e, List.mem_filter.mpr ⟨he, ?_⟩, hpath⟩
    rw [hpath]
    exact decide_eq_true hnot

theorem Registers.has_iff {s' : Registry} {paths : List (String × String)} {ret : MafReturn}
    (h : Registers s s' paths answers ret) (hret : ret = .ok) {x : String × String} :
    s'.Has x ↔ x ∈ paths ∨ s.Has x := by
  constructor
  · rintro ⟨e, he, hpath⟩
    obtain ⟨es, hes, hpaths⟩ := h.more x.1
    rw [hes] at he
    rcases List.mem_append.mp he with he | he
    · exact Or.inr ⟨e, he, hpath⟩
    · have := hpaths e he
      rw [hpath] at this
      exact Or.inl this
  · rintro (hx | hx)
    · exact h.all hret x hx
    · exact has_of_more h.more hx

theorem left_of_both {s₁ s' : Registry} {paths : List (String × String)} {ret : MafReturn}
    (hreg : Registers s s₁ paths answers ret)
    (hun : ∀ C, s'.registeredComplexTypeClass C
      = (s₁.registeredComplexTypeClass C).filter fun e => decide ((C, e.path) ∉ paths)) (C : String) :
    s'.registeredComplexTypeClass C
      = (s.registeredComplexTypeClass C).filter fun e => decide ((C, e.path) ∉ paths) := by
  obtain ⟨es, hes, hpaths⟩ := hreg.more C
  have hnone : (es.filter fun e => decide ((C, e.path) ∉ paths)) = [] :=
    List.filter_eq_nil_iff.mpr fun e he => by simpa using hpaths e he
  rw [hun, hes, List.filter_append, hnone, List.append_nil]

/-! ## Registrations -/

structure Registry.Good (env : OIEnv) (s : Registry) : Prop where
  kept : s.Kept
  present_iff : ∀ x, s.Has x ↔ ∃ g : Registration, x ∈ g.paths env s
  apart : ∀ (g g' : Registration) x, x ∈ g.paths env s → x ∈ g'.paths env s → g = g'

theorem good_initial (env : OIEnv) : Registry.initial.Good env where
  kept := ⟨fun C => by simp [Registry.initial], fun C => List.nodup_nil⟩
  present_iff x := by
    refine iff_of_false ?_ ?_
    · rintro ⟨e, he, _⟩
      cases he
    · rintro ⟨g, hg⟩
      cases g <;> cases hg
  apart g g' x hg := by cases g <;> cases hg

theorem Registry.Good.inStep (h : s.Good env) : s.InStep env :=
  ⟨fun C _ => h.kept.implementer_iff C, h.present_iff⟩

theorem good_added {s' : Registry} {g₀ : Registration} {paths : List (String × String)} (h : s.Good env)
    (hkept : s'.Kept) (hhas : ∀ x, s'.Has x ↔ x ∈ paths ∨ s.Has x) (hnew : ∀ x ∈ paths, ¬ s.Has x)
    (hnone : g₀.paths env s = []) (hpaths : g₀.paths env s' = paths)
    (hother : ∀ g, g ≠ g₀ → g.paths env s' = g.paths env s) : s'.Good env := by
  refine ⟨hkept, fun x => ?_, fun g g' x hg hg' => ?_⟩
  · rw [hhas, h.present_iff]
    constructor
    · rintro (hx | ⟨g, hg⟩)
      · exact ⟨g₀, hpaths ▸ hx⟩
      · have hne : g ≠ g₀ := by
          rintro rfl
          rw [hnone] at hg
          cases hg
        exact ⟨g, (hother g hne).symm ▸ hg⟩
    · rintro ⟨g, hg⟩
      by_cases hne : g = g₀
      · rw [hne, hpaths] at hg
        exact Or.inl hg
      · rw [hother g hne] at hg
        exact Or.inr ⟨g, hg⟩
  · have hold : ∀ g, g ≠ g₀ → x ∈ g.paths env s' → s.Has x := fun g hne hg =>
      (h.present_iff x).mpr ⟨g, hother g hne ▸ hg⟩
    by_cases hne : g = g₀ <;> by_cases hne' : g' = g₀
    · rw [hne, hne']
    · rw [hne, hpaths] at hg
      exact (hnew x hg (hold g' hne' hg')).elim
    · rw [hne', hpaths] at hg'
      exact (hnew x hg' (hold g hne hg)).elim
    · rw [hother g hne] at hg
      rw [hother g' hne'] at hg'
      exact h.apart g g' x hg hg'

theorem present_iff_removed {s' : Registry} {g₀ : Registration} {paths : List (String × String)}
    (h : s.Good env) (hhas : ∀ x, s'.Has x ↔ s.Has x ∧ x ∉ paths) (hnone : g₀.paths env s' = [])
    (hother : ∀ g, g ≠ g₀ → g.paths env s' = g.paths env s) :
    (∀ x, s'.Has x ↔ ∃ g : Registration, x ∈ g.paths env s') ↔
      ∀ x, s.Has x → (x ∈ paths ↔ x ∈ g₀.paths env s) := by
  have hrest : ∀ x, (∃ g : Registration, x ∈ g.paths env s') ↔ s.Has x ∧ x ∉ g₀.paths env s := by
    intro x
    constructor
    · rintro ⟨g, hg⟩
      have hne : g ≠ g₀ := by
        rintro rfl
        rw [hnone] at hg
        cases hg
      rw [hother g hne] at hg
      exact ⟨(h.present_iff x).mpr ⟨g, hg⟩, fun hg₀ => hne (h.apart g g₀ x hg hg₀)⟩
    · rintro ⟨hx, hg₀⟩
      obtain ⟨g, hg⟩ := (h.present_iff x).mp hx
      have hne : g ≠ g₀ := by
        rintro rfl
        exact hg₀ hg
      exact ⟨g, (hother g hne).symm ▸ hg⟩
  constructor
  · intro hpresent x hx
    have hiff := (hhas x).symm.trans ((hpresent x).trans (hrest x))
    have hnot : x ∉ paths ↔ x ∉ g₀.paths env s :=
      ⟨fun hp => (hiff.mp ⟨hx, hp⟩).2, fun hg => (hiff.mpr ⟨hx, hg⟩).2⟩
    exact not_iff_not.mp hnot
  · intro hsame x
    rw [hhas, hrest]
    constructor
    · rintro ⟨hx, hp⟩
      exact ⟨hx, (hsame x hx).not.mp hp⟩
    · rintro ⟨hx, hg⟩
      exact ⟨hx, (hsame x hx).not.mpr hg⟩

theorem good_removed {s' : Registry} {g₀ : Registration} {paths : List (String × String)} (h : s.Good env)
    (hkept : s'.Kept) (hhas : ∀ x, s'.Has x ↔ s.Has x ∧ x ∉ paths) (hnone : g₀.paths env s' = [])
    (hother : ∀ g, g ≠ g₀ → g.paths env s' = g.paths env s)
    (hsame : ∀ x, s.Has x → (x ∈ paths ↔ x ∈ g₀.paths env s)) : s'.Good env := by
  refine ⟨hkept, (present_iff_removed h hhas hnone hother).mpr hsame, fun g g' x hg hg' => ?_⟩
  have hold : ∀ g : Registration, x ∈ g.paths env s' → x ∈ g.paths env s := by
    intro g hg
    have hne : g ≠ g₀ := by
      rintro rfl
      rw [hnone] at hg
      cases hg
    exact hother g hne ▸ hg
  exact h.apart g g' x (hold g hg) (hold g' hg')

/-! ## The calls -/

variable {mocPath dn className immClassName immDn : String} {moc : Moc}

theorem classOfPath_ok (h : classOfPath env mocPath = .ok (moc, className, immClassName)) :
    className = (GlobalSplitMocPath mocPath).getLastD "" ∧
      classPaths env mocPath = configPaths env mocPath (getMocComplexAttributes moc) := by
  refine ⟨?_, by rw [classPaths, h]⟩
  unfold classOfPath at h
  split at h
  · cases h
  · split at h
    · cases h
    · split at h
      · cases h
      · cases h
        rfl

theorem classOfPath_error {ret : MafReturn} (h : classOfPath env mocPath = .error ret) : ret ≠ .ok := by
  unfold classOfPath at h
  split at h
  · cases h
    decide
  · split at h
    · cases h
      decide
    · split at h <;> cases h
      decide

theorem checkRegisterClass_ok
    (h : checkRegisterClass env mocPath answers s = .ok (moc, className, immClassName)) :
    classOfPath env mocPath = .ok (moc, className, immClassName) ∧ s.registeredClass className = none := by
  unfold checkRegisterClass at h
  split at h
  · cases h
  · rename_i hclass
    split at h <;> rename_i hthere
    · cases h
    · split at h
      · cases h
      · split at h <;> cases h
        rw [existRegisteredClass, Bool.not_eq_true, Option.isSome_eq_false_iff, Option.isNone_iff_eq_none] at hthere
        exact ⟨hclass, hthere⟩

theorem checkRegisterClass_error {ret : MafReturn} (h : checkRegisterClass env mocPath answers s = .error ret) :
    ret ≠ .ok := by
  unfold checkRegisterClass at h
  split at h
  · rename_i hclass
    cases h
    exact classOfPath_error hclass
  · split at h
    · cases h
      decide
    · split at h
      · cases h
        decide
      · split at h <;> cases h
        decide

theorem checkRegisterDn_ok (h : checkRegisterDn env dn answers s = .ok (moc, immDn)) :
    s.registeredDN dn = none := by
  unfold checkRegisterDn at h
  split at h
  · cases h
  · split at h <;> rename_i hthere
    · cases h
    · rwa [existRegisteredDN, Bool.not_eq_true, Option.isSome_eq_false_iff, Option.isNone_iff_eq_none] at hthere

theorem checkRegisterDn_error {ret : MafReturn} (h : checkRegisterDn env dn answers s = .error ret) :
    ret ≠ .ok := by
  unfold checkRegisterDn at h
  split at h
  · cases h
    decide
  · split at h
    · cases h
      decide
    · split at h
      · cases h
        decide
      · split at h
        · cases h
          decide
        · split at h <;> cases h <;> decide

variable (env) in
theorem paths_updateClass (s' : Registry) {o : Option RegisteredClassStruct}
    (hclass : s'.registeredClass = Function.update s.registeredClass className o)
    (hdn : s'.registeredDN = s.registeredDN) :
    (Registration.ofClass className).paths env s' = o.elim [] (fun reg => classPaths env reg.mocPath) ∧
      ∀ g : Registration, g ≠ .ofClass className → g.paths env s' = g.paths env s := by
  refine ⟨by rw [Registration.paths, hclass, Function.update_self], fun g hg => ?_⟩
  cases g with
  | ofClass other =>
    have hne : other ≠ className := fun he => hg (he ▸ rfl)
    rw [Registration.paths, Registration.paths, hclass, Function.update_of_ne hne]
  | ofDn dn => rw [Registration.paths, Registration.paths, hdn]

variable (env) in
theorem paths_updateDn (s' : Registry) {o : Option RegisteredDNStruct}
    (hclass : s'.registeredClass = s.registeredClass)
    (hdn : s'.registeredDN = Function.update s.registeredDN dn o) :
    (Registration.ofDn dn).paths env s'
        = o.elim [] (fun reg => configPaths env dn (getMocComplexAttributes reg.dnMoc)) ∧
      ∀ g : Registration, g ≠ .ofDn dn → g.paths env s' = g.paths env s := by
  refine ⟨by rw [Registration.paths, hdn, Function.update_self], fun g hg => ?_⟩
  cases g with
  | ofClass className => rw [Registration.paths, Registration.paths, hclass]
  | ofDn other =>
    have hne : other ≠ dn := fun he => hg (he ▸ rfl)
    rw [Registration.paths, Registration.paths, hdn, Function.update_of_ne hne]

variable (moIf txIf) in
theorem registerClass_2_eq (h : s.Kept)
    (hcheck : checkRegisterClass env mocPath answers s = .ok (moc, className, immClassName))
    (hacc : Accepted s answers (classPaths env mocPath)) :
    ∃ s₁, s.registerClass_2 env moIf txIf mocPath answers = (.ok, { s₁ with
        registeredClass := Function.update s₁.registeredClass className (some ⟨moIf, txIf, mocPath⟩) }) ∧
      Registers { s with classImplementer := Function.update s.classImplementer immClassName true } s₁
        (classPaths env mocPath) answers .ok ∧
      ∀ C, ∀ e ∈ s₁.registeredComplexTypeClass C, e ∈ s.registeredComplexTypeClass C ∨
        e = ⟨moIf, txIf, e.path⟩ ∧ (C, e.path) ∈ classPaths env mocPath := by
  obtain ⟨hclass, hnone⟩ := checkRegisterClass_ok hcheck
  obtain ⟨_, hpaths⟩ := classOfPath_ok hclass
  rw [hpaths] at hacc ⊢
  have hreg := registers env moIf txIf answers mocPath (getMocComplexAttributes moc)
    (s := { s with classImplementer := Function.update s.classImplementer immClassName true })
    ⟨h.implementer_iff, h.nodup⟩
  have hret := hreg.ok_iff.mpr hacc
  have hentry := fun C e => entry_of_registered env moIf txIf answers mocPath
    (getMocComplexAttributes moc)
    { s with classImplementer := Function.update s.classImplementer immClassName true } C e
  unfold registerClass_2
  rw [hcheck]
  dsimp only
  rw [hret] at hreg ⊢
  simp only [ne_eq, not_true_eq_false, if_false]
  generalize (registerComplexTypeAttrClasses env moIf txIf answers mocPath (getMocComplexAttributes moc)
    { s with classImplementer := Function.update s.classImplementer immClassName true }).2 = s₁ at hreg hentry
  refine ⟨s₁, ?_, hreg, hentry⟩
  have hnone₁ : s₁.registeredClass className = none := by rw [hreg.same.1]; exact hnone
  unfold addNewRegisteredClass existRegisteredClass
  rw [hnone₁]
  rfl

variable (moIf txIf) in
theorem registerClass_2_ok (h : s.Good env)
    (hcheck : checkRegisterClass env mocPath answers s = .ok (moc, className, immClassName))
    (hacc : Accepted s answers (classPaths env mocPath)) :
    (s.registerClass_2 env moIf txIf mocPath answers).1 = .ok ∧
      (s.registerClass_2 env moIf txIf mocPath answers).2.registeredClass className
        = some ⟨moIf, txIf, mocPath⟩ ∧
      (s.registerClass_2 env moIf txIf mocPath answers).2.Good env := by
  obtain ⟨_, hnone⟩ := checkRegisterClass_ok hcheck
  obtain ⟨s₁, heq, hreg, _⟩ := registerClass_2_eq moIf txIf h.kept hcheck hacc
  rw [heq]
  have hpaths' := paths_updateClass env
    { s₁ with registeredClass := Function.update s₁.registeredClass className (some ⟨moIf, txIf, mocPath⟩) }
    (congrArg (Function.update · className (some ⟨moIf, txIf, mocPath⟩)) hreg.same.1) hreg.same.2.1
  refine ⟨rfl, Function.update_self .., ?_⟩
  refine good_added h ⟨hreg.kept.implementer_iff, hreg.kept.nodup⟩ (fun x => hreg.has_iff rfl) hacc.1 ?_
    hpaths'.1 hpaths'.2
  rw [Registration.paths, hnone]
  rfl

variable (moIf txIf) in
theorem registerClass_2_failed (h : s.Kept)
    (hcheck : checkRegisterClass env mocPath answers s = .ok (moc, className, immClassName))
    (hacc : ¬ Accepted s answers (classPaths env mocPath)) :
    (s.registerClass_2 env moIf txIf mocPath answers).1 = .ok ∧
      (s.registerClass_2 env moIf txIf mocPath answers).2.registeredClass className = none := by
  obtain ⟨hclass, hnone⟩ := checkRegisterClass_ok hcheck
  obtain ⟨_, hpaths⟩ := classOfPath_ok hclass
  rw [hpaths] at hacc
  have hreg := registers env moIf txIf answers mocPath (getMocComplexAttributes moc)
    (s := { s with classImplementer := Function.update s.classImplementer immClassName true })
    ⟨h.implementer_iff, h.nodup⟩
  have hret := hreg.ok_iff.not.mpr hacc
  unfold registerClass_2
  rw [hcheck]
  dsimp only
  rw [if_pos hret]
  generalize (registerComplexTypeAttrClasses env moIf txIf answers mocPath (getMocComplexAttributes moc)
    { s with classImplementer := Function.update s.classImplementer immClassName true }).2 = s₁ at hreg
  have hun := unregisters env mocPath (getMocComplexAttributes moc)
    (s := { s₁ with classImplementer := Function.update s₁.classImplementer immClassName false })
    ⟨hreg.kept.implementer_iff, hreg.kept.nodup⟩
  refine ⟨rfl, ?_⟩
  rw [hun.same.1]
  dsimp only
  rw [hreg.same.1]
  exact hnone

variable (moIf txIf) in
theorem registerDn_2_eq (h : s.Kept) (hcheck : checkRegisterDn env dn answers s = .ok (moc, immDn))
    (hacc : Accepted s answers (configPaths env dn (getMocComplexAttributes moc))) :
    ∃ s₁, s.registerDn_2 env moIf txIf dn answers = (.ok, { s₁ with
        registeredDN := Function.update s₁.registeredDN dn (some ⟨moIf, txIf, moc⟩) }) ∧
      Registers { s with objectImplementer := Function.update s.objectImplementer immDn true } s₁
        (configPaths env dn (getMocComplexAttributes moc)) answers .ok ∧
      ∀ C, ∀ e ∈ s₁.registeredComplexTypeClass C, e ∈ s.registeredComplexTypeClass C ∨
        e = ⟨moIf, txIf, e.path⟩ ∧ (C, e.path) ∈ configPaths env dn (getMocComplexAttributes moc) := by
  have hnone := checkRegisterDn_ok hcheck
  have hreg := registers env moIf txIf answers dn (getMocComplexAttributes moc)
    (s := { s with objectImplementer := Function.update s.objectImplementer immDn true })
    ⟨h.implementer_iff, h.nodup⟩
  have hret := hreg.ok_iff.mpr hacc
  have hentry := fun C e => entry_of_registered env moIf txIf answers dn
    (getMocComplexAttributes moc)
    { s with objectImplementer := Function.update s.objectImplementer immDn true } C e
  unfold registerDn_2
  rw [hcheck]
  dsimp only
  rw [hret] at hreg ⊢
  simp only [ne_eq, not_true_eq_false, if_false]
  generalize (registerComplexTypeAttrClasses env moIf txIf answers dn (getMocComplexAttributes moc)
    { s with objectImplementer := Function.update s.objectImplementer immDn true }).2 = s₁ at hreg hentry
  refine ⟨s₁, ?_, hreg, hentry⟩
  have hnone₁ : s₁.registeredDN dn = none := by rw [hreg.same.2.1]; exact hnone
  unfold addNewRegisteredDN existRegisteredDN
  rw [hnone₁]
  rfl

variable (moIf txIf) in
theorem registerDn_2_ok (h : s.Good env) (hcheck : checkRegisterDn env dn answers s = .ok (moc, immDn))
    (hacc : Accepted s answers (configPaths env dn (getMocComplexAttributes moc))) :
    (s.registerDn_2 env moIf txIf dn answers).1 = .ok ∧
      (s.registerDn_2 env moIf txIf dn answers).2.registeredDN dn = some ⟨moIf, txIf, moc⟩ ∧
      (s.registerDn_2 env moIf txIf dn answers).2.Good env := by
  have hnone := checkRegisterDn_ok hcheck
  obtain ⟨s₁, heq, hreg, _⟩ := registerDn_2_eq moIf txIf h.kept hcheck hacc
  rw [heq]
  have hpaths' := paths_updateDn env
    { s₁ with registeredDN := Function.update s₁.registeredDN dn (some ⟨moIf, txIf, moc⟩) }
    hreg.same.1 (congrArg (Function.update · dn (some ⟨moIf, txIf, moc⟩)) hreg.same.2.1)
  refine ⟨rfl, Function.update_self .., ?_⟩
  refine good_added h ⟨hreg.kept.implementer_iff, hreg.kept.nodup⟩ (fun x => hreg.has_iff rfl) hacc.1 ?_
    hpaths'.1 hpaths'.2
  rw [Registration.paths, hnone]
  rfl

theorem Registry.ext_of {s' : Registry} (hclass : s'.registeredClass = s.registeredClass)
    (hct : ∀ C, s'.registeredComplexTypeClass C = s.registeredComplexTypeClass C)
    (hdn : s'.registeredDN = s.registeredDN) (hci : s'.classImplementer = s.classImplementer)
    (hoi : s'.objectImplementer = s.objectImplementer) (hkept : s.Kept) (hkept' : s'.Kept) : s' = s := by
  have happlier : s'.applierImplementer = s.applierImplementer := by
    funext C
    rw [Bool.eq_iff_iff, hkept.implementer_iff, hkept'.implementer_iff, hct]
  obtain ⟨c, ct, d, ci, oi, ai⟩ := s
  obtain ⟨c', ct', d', ci', oi', ai'⟩ := s'
  dsimp only at hclass hdn hci hoi happlier
  have hct : ct' = ct := funext hct
  rw [hclass, hct, hdn, hci, hoi, happlier]

variable (moIf txIf) in
theorem registerDn_2_failed (h : s.Kept) (hcheck : checkRegisterDn env dn answers s = .ok (moc, immDn))
    (hacc : ¬ Accepted s answers (configPaths env dn (getMocComplexAttributes moc))) :
    (s.registerDn_2 env moIf txIf dn answers).1 ≠ .ok ∧
      ((s.registerDn_2 env moIf txIf dn answers).2 = s ↔
        s.objectImplementer immDn = false ∧
          ∀ x ∈ configPaths env dn (getMocComplexAttributes moc), ¬ s.Has x) := by
  have hreg := registers env moIf txIf answers dn (getMocComplexAttributes moc)
    (s := { s with objectImplementer := Function.update s.objectImplementer immDn true })
    ⟨h.implementer_iff, h.nodup⟩
  have hret := hreg.ok_iff.not.mpr hacc
  unfold registerDn_2
  rw [hcheck]
  dsimp only
  rw [if_pos hret]
  refine ⟨hret, ?_⟩
  dsimp only
  generalize (registerComplexTypeAttrClasses env moIf txIf answers dn (getMocComplexAttributes moc)
    { s with objectImplementer := Function.update s.objectImplementer immDn true }).2 = s₁ at hreg
  have hun := unregisters env dn (getMocComplexAttributes moc)
    (s := { s₁ with objectImplementer := Function.update s₁.objectImplementer immDn false })
    ⟨hreg.kept.implementer_iff, hreg.kept.nodup⟩
  have hleft := left_of_both hreg hun.left
  generalize (unregisterComplexTypeAttrClasses env dn (getMocComplexAttributes moc)
    { s₁ with objectImplementer := Function.update s₁.objectImplementer immDn false }).2 = s' at hun hleft
  have hobject : s'.objectImplementer = Function.update s.objectImplementer immDn false := by
    rw [hun.same.2.2.2]
    dsimp only
    rw [hreg.same.2.2.2, Function.update_idem]
  constructor
  · intro hs
    refine ⟨by rw [← hs, hobject, Function.update_self], fun x hx ⟨e, he, hpath⟩ => ?_⟩
    have := hleft x.1
    rw [hs, eq_comm, List.filter_eq_self] at this
    have := of_decide_eq_true (this e he)
    rw [hpath] at this
    exact this hx
  · rintro ⟨hnot, hnew⟩
    refine Registry.ext_of (hun.same.1.trans hreg.same.1) (fun C => ?_) (hun.same.2.1.trans hreg.same.2.1)
      (hun.same.2.2.1.trans hreg.same.2.2.1) ?_ h hun.kept
    · rw [hleft, List.filter_eq_self]
      exact fun e he => decide_eq_true fun hx => hnew _ hx ⟨e, he, rfl⟩
    · rw [hobject, ← hnot, Function.update_eq_self]

theorem checkUnregisterClass_ok
    (h : checkUnregisterClass env moIf mocPath s = .ok (moc, className, immClassName)) :
    classOfPath env mocPath = .ok (moc, className, immClassName) ∧
      ∃ reg, s.registeredClass className = some reg := by
  unfold checkUnregisterClass at h
  split at h
  · cases h
  · rename_i hclass
    split at h
    · cases h
    · rename_i hreg
      split at h <;> cases h
      exact ⟨hclass, _, hreg⟩

structure TakesAway (env : OIEnv) (s s' : Registry) (g₀ : Registration) (paths : List (String × String)) :
    Prop where
  kept : s'.Kept
  has_iff : ∀ x, s'.Has x ↔ s.Has x ∧ x ∉ paths
  none : g₀.paths env s' = []
  other : ∀ g : Registration, g ≠ g₀ → g.paths env s' = g.paths env s

theorem unregisterClass_2_takes (h : s.Kept)
    (hcheck : checkUnregisterClass env moIf mocPath s = .ok (moc, className, immClassName)) :
    TakesAway env s (s.unregisterClass_2 env moIf mocPath).2 (.ofClass className)
      (classPaths env mocPath) := by
  obtain ⟨hclass, _⟩ := checkUnregisterClass_ok hcheck
  unfold unregisterClass_2
  rw [hcheck, (classOfPath_ok hclass).2]
  dsimp only
  have hun := unregisters env mocPath (getMocComplexAttributes moc)
    (s := ({ s with classImplementer := Function.update s.classImplementer immClassName false } :
      Registry).removeRegisteredClass className)
    ⟨h.implementer_iff, h.nodup⟩
  have hpaths := paths_updateClass (s := s) env _ hun.same.1 hun.same.2.1
  exact ⟨hun.kept, fun x => hun.has_iff, hpaths.1, hpaths.2⟩

theorem checkUnregisterDn_ok (h : checkUnregisterDn env moIf dn s = .ok (moc, immDn)) :
    ∃ reg, s.registeredDN dn = some reg ∧ reg.dnMoc = moc := by
  unfold checkUnregisterDn at h
  split at h
  · cases h
  · split at h
    · cases h
    · rename_i hreg
      split at h
      · cases h
      · split at h <;> cases h
        exact ⟨_, hreg, rfl⟩

theorem unregisterDn_2_takes (h : s.Kept) (hcheck : checkUnregisterDn env moIf dn s = .ok (moc, immDn)) :
    TakesAway env s (s.unregisterDn_2 env moIf dn).2 (.ofDn dn)
      ((Registration.ofDn dn).paths env s) := by
  obtain ⟨reg, hreg, rfl⟩ := checkUnregisterDn_ok hcheck
  rw [Registration.paths, hreg]
  unfold unregisterDn_2
  rw [hcheck]
  dsimp only [Option.elim]
  have hun := unregisters env dn (getMocComplexAttributes reg.dnMoc)
    (s := ({ s with objectImplementer := Function.update s.objectImplementer immDn false } :
      Registry).removeRegisteredDN dn)
    ⟨h.implementer_iff, h.nodup⟩
  have hpaths := paths_updateDn (s := s) env _ hun.same.1 hun.same.2.1
  exact ⟨hun.kept, fun x => hun.has_iff, hpaths.1, hpaths.2⟩

theorem TakesAway.good {s' : Registry} {g₀ : Registration} {paths : List (String × String)}
    (ht : TakesAway env s s' g₀ paths) (h : s.Good env)
    (hsame : ∀ x, s.Has x → (x ∈ paths ↔ x ∈ g₀.paths env s)) : s'.Good env :=
  good_removed h ht.kept ht.has_iff ht.none ht.other hsame

theorem good_step {call : RegisterCall} (h : s.Good env) (hfine : call.Fine env s) :
    (call.step env s).Good env := by
  cases call with
  | registerClass_2 moIf txIf mocPath answers =>
    cases hcheck : checkRegisterClass env mocPath answers s with
    | error ret =>
      have hrun : s.registerClass_2 env moIf txIf mocPath answers = (ret, s) := by
        rw [registerClass_2, hcheck]
      rw [RegisterCall.step, RegisterCall.run, hrun]
      exact h
    | ok x =>
      obtain ⟨moc, className, immClassName⟩ := x
      exact (registerClass_2_ok moIf txIf h hcheck (hfine _ hcheck)).2.2
  | registerDn_2 moIf txIf dn answers =>
    cases hcheck : checkRegisterDn env dn answers s with
    | error ret =>
      have hrun : s.registerDn_2 env moIf txIf dn answers = (ret, s) := by
        rw [registerDn_2, hcheck]
      rw [RegisterCall.step, RegisterCall.run, hrun]
      exact h
    | ok x =>
      obtain ⟨moc, immDn⟩ := x
      by_cases hacc : Accepted s answers (configPaths env dn (getMocComplexAttributes moc))
      · exact (registerDn_2_ok moIf txIf h hcheck hacc).2.2
      · have hsame := (registerDn_2_failed moIf txIf h.kept hcheck hacc).2.mpr
          ((hfine moc immDn hcheck).resolve_left hacc)
        rw [RegisterCall.step, RegisterCall.run, hsame]
        exact h
  | unregisterClass_2 moIf mocPath =>
    cases hcheck : checkUnregisterClass env moIf mocPath s with
    | error ret =>
      have hrun : s.unregisterClass_2 env moIf mocPath = (ret, s) := by
        rw [unregisterClass_2, hcheck]
      rw [RegisterCall.step, RegisterCall.run, hrun]
      exact h
    | ok x =>
      obtain ⟨moc, className, immClassName⟩ := x
      obtain ⟨_, reg, hreg⟩ := checkUnregisterClass_ok hcheck
      refine (unregisterClass_2_takes h.kept hcheck).good h ?_
      rw [Registration.paths, hreg]
      exact hfine moc className immClassName reg hcheck hreg
  | unregisterDn_2 moIf dn =>
    cases hcheck : checkUnregisterDn env moIf dn s with
    | error ret =>
      have hrun : s.unregisterDn_2 env moIf dn = (ret, s) := by
        rw [unregisterDn_2, hcheck]
      rw [RegisterCall.step, RegisterCall.run, hrun]
      exact h
    | ok x =>
      obtain ⟨moc, immDn⟩ := x
      exact (unregisterDn_2_takes h.kept hcheck).good h fun _ _ => Iff.rfl

theorem answered_of_run {call : RegisterCall} {ret : MafReturn} (hrun : call.run env s = (ret, s))
    (hret : ret ≠ .ok) : call.Answered env s := by
  have hstep : call.step env s = s := by rw [RegisterCall.step, hrun]
  cases call with
  | registerClass_2 | registerDn_2 =>
    unfold RegisterCall.Answered
    dsimp only
    rw [if_neg (by rw [hrun]; exact hret)]
    exact hstep
  | unregisterClass_2 | unregisterDn_2 => trivial

theorem answered_of_fine {call : RegisterCall} (h : s.Good env) (hfine : call.Fine env s) :
    call.Answered env s := by
  cases call with
  | registerClass_2 moIf txIf mocPath answers =>
    cases hcheck : checkRegisterClass env mocPath answers s with
    | error ret =>
      refine answered_of_run ?_ (checkRegisterClass_error hcheck)
      rw [RegisterCall.run, registerClass_2, hcheck]
    | ok x =>
      obtain ⟨moc, className, immClassName⟩ := x
      obtain ⟨hret, hreg, _⟩ := registerClass_2_ok moIf txIf h hcheck (hfine _ hcheck)
      have hname := (classOfPath_ok (checkRegisterClass_ok hcheck).1).1
      unfold RegisterCall.Answered RegisterCall.step RegisterCall.run
      dsimp only
      rw [if_pos hret, ← hname]
      exact hreg
  | registerDn_2 moIf txIf dn answers =>
    cases hcheck : checkRegisterDn env dn answers s with
    | error ret =>
      refine answered_of_run ?_ (checkRegisterDn_error hcheck)
      rw [RegisterCall.run, registerDn_2, hcheck]
    | ok x =>
      obtain ⟨moc, immDn⟩ := x
      unfold RegisterCall.Answered RegisterCall.step RegisterCall.run
      dsimp only
      by_cases hacc : Accepted s answers (configPaths env dn (getMocComplexAttributes moc))
      · obtain ⟨hret, hreg, _⟩ := registerDn_2_ok moIf txIf h hcheck hacc
        rw [if_pos hret]
        exact ⟨moc, hreg⟩
      · obtain ⟨hret, hsame⟩ := registerDn_2_failed moIf txIf h.kept hcheck hacc
        rw [if_neg hret]
        exact hsame.mpr ((hfine moc immDn hcheck).resolve_left hacc)
  | unregisterClass_2 | unregisterDn_2 => trivial

theorem accepted_of_answered (h : s.Kept)
    (hcheck : checkRegisterClass env mocPath answers s = .ok (moc, className, immClassName))
    (hanswered : RegisterCall.Answered env s (.registerClass_2 moIf txIf mocPath answers)) :
    Accepted s answers (classPaths env mocPath) := by
  by_contra hacc
  obtain ⟨hret, hnone⟩ := registerClass_2_failed moIf txIf h hcheck hacc
  have hname := (classOfPath_ok (checkRegisterClass_ok hcheck).1).1
  unfold RegisterCall.Answered RegisterCall.step RegisterCall.run at hanswered
  dsimp only at hanswered
  rw [if_pos hret, ← hname] at hanswered
  have := hnone.symm.trans hanswered
  cases this

theorem fine_of_right {call : RegisterCall} (h : s.Good env) (hright : call.Right env s) :
    call.Fine env s := by
  obtain ⟨hstep, hanswered⟩ := hright
  cases call with
  | registerClass_2 moIf txIf mocPath answers =>
    rintro ⟨moc, className, immClassName⟩ hcheck
    exact accepted_of_answered h.kept hcheck hanswered
  | registerDn_2 moIf txIf dn answers =>
    intro moc immDn hcheck
    by_cases hacc : Accepted s answers (configPaths env dn (getMocComplexAttributes moc))
    · exact Or.inl hacc
    · obtain ⟨hret, hsame⟩ := registerDn_2_failed moIf txIf h.kept hcheck hacc
      unfold RegisterCall.Answered RegisterCall.step RegisterCall.run at hanswered
      dsimp only at hanswered
      rw [if_neg hret] at hanswered
      exact Or.inr (hsame.mp hanswered)
  | unregisterClass_2 moIf mocPath =>
    intro moc className immClassName reg hcheck hreg
    have htakes := unregisterClass_2_takes h.kept hcheck
    have hpresent := (present_iff_removed h htakes.has_iff htakes.none htakes.other).mp hstep.present_iff
    rw [Registration.paths, hreg] at hpresent
    exact hpresent
  | unregisterDn_2 => trivial

theorem right_iff_fine {call : RegisterCall} (h : s.Good env) :
    call.Right env s ↔ call.Fine env s :=
  ⟨fun hright => fine_of_right h hright,
    fun hfine => ⟨(good_step h hfine).inStep, answered_of_fine h hfine⟩⟩

end

/-- Registrations and implementers stay in step, and every register call is answered right, exactly as
long as the calls are fine. -/
theorem registrations_right_iff (env : OIEnv) (calls : List RegisterCall) :
    Along (RegisterCall.step env) (RegisterCall.Right env) Registry.initial calls ↔
      Along (RegisterCall.step env) (RegisterCall.Fine env) Registry.initial calls :=
  along_iff_along (J := Registry.Good env) (fun _ _ h => right_iff_fine h)
    (fun _ _ h hfine => good_step h hfine) (good_initial env) calls

def oneStructClass : OIEnv where
  mocRoot := some (.mk "ManagedElement" [⟨"networkAddress", some "NetworkAddress"⟩] [])
  isRuntimeClass := fun _ => false
  TransformImmClassName := fun _ => "ManagedElement"
  GetComMoc := fun _ => none
  MO2Imm_DN := fun dn => dn
  saNameMaxLen := 255

def applierRefused : Answers where
  classDNs := []
  classImplementerSet := true
  objectImplementerSet := .ok
  applierImplementerSet := fun _ => false

/-- Where IMM does not take the applier for the struct class, the class is not registered and the
component is told that it is. -/
theorem not_registrations_right :
    ¬ Along (RegisterCall.step oneStructClass) (RegisterCall.Right oneStructClass) Registry.initial
      [.registerClass_2 ⟨"C", "MO", "1"⟩ ⟨"C", "TX", "1"⟩ "/ManagedElement" applierRefused] := by
  rintro ⟨⟨_, hanswered⟩, _⟩
  unfold RegisterCall.Answered at hanswered
  dsimp only at hanswered
  rw [if_pos (by decide)] at hanswered
  have hnone : (RegisterCall.step oneStructClass Registry.initial
      (.registerClass_2 ⟨"C", "MO", "1"⟩ ⟨"C", "TX", "1"⟩ "/ManagedElement" applierRefused)).registeredClass
        ((GlobalSplitMocPath "/ManagedElement").getLastD "") = none := by
    decide
  have := hnone.symm.trans hanswered
  cases this

end ComSA.OIproxy
