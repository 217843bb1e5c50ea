import ComSA.OIproxy.MocPath
import ComSA.OIproxy.Registration
import Mathlib.Data.List.Induction

/-!
# Where a callback goes

A callback is forwarded to the component found for its object: for the DN, or else for the last class
of the path made from the DN. The callbacks of the applier look for the path of the struct attribute.
-/

namespace ComSA.OIproxy

open Registry

structure RegisteredCommonStruct where
  managedObjectInterfaceId : Interface
  transactionalResourceId : Interface
  deriving DecidableEq, Repr

def getMocAttribute (moc : Moc) (attrName : String) : Option MoAttribute :=
  moc.moAttribute.find? fun attr => attr.name == attrName

def Registry.getRegisteredCTClass (s : Registry) (immClassName path : String) :
    Option RegisteredCTClassStruct :=
  ((s.registeredComplexTypeClass immClassName).find? fun ctStruct => ctStruct.path == path).or
    (s.registeredComplexTypeClass immClassName).getLast?

/-- The component that a callback is forwarded to. Taking the last element of an empty list is undefined. -/
inductive Routed where
  | to (spiIf : RegisteredCommonStruct)
  | notRegistered
  | undefined
  deriving DecidableEq, Repr

inductive Callback where
  | handleCcbCreateObject
  | handleCcbDeleteObject
  | handleCcbModification
  | handleAdminOperation
  | handleRtAttrUpdate
  | handleComplexTypeCcbCreateObject (className ctAttr : String)
  | handleComplexTypeCcbModification (ctAttr : String)
  deriving DecidableEq, Repr

namespace Callback

def spiIfOfClass (s : Registry) (mocPathList : List String) : Routed :=
  match mocPathList.getLast? with
  | none => .undefined
  | some className =>
    match s.registeredClass className with
    | none => .notRegistered
    | some reg => .to ⟨reg.managedObjectInterfaceId, reg.transactionalResourceId⟩

def spiIfOfObject (s : Registry) (moDn : String) (mocPathList : List String) : Routed :=
  match s.registeredDN moDn with
  | none => spiIfOfClass s mocPathList
  | some reg => .to ⟨reg.managedObjectInterfaceId, reg.transactionalResourceId⟩

def spiIfOfStruct (s : Registry) (immClassName moDn mocPath ctAttr : String) : Routed :=
  let ctPath :=
    if s.existRegisteredCTClassAttr immClassName (moDn ++ ":" ++ ctAttr) then moDn ++ ":" ++ ctAttr
    else mocPath ++ ":" ++ ctAttr
  if s.existRegisteredCTClassAttr immClassName ctPath then
    match s.getRegisteredCTClass immClassName ctPath with
    | none => .notRegistered
    | some reg => .to ⟨reg.managedObjectInterfaceId, reg.transactionalResourceId⟩
  else .notRegistered

def spiIf (env : OIEnv) (s : Registry) (moDn : String) (callback : Callback) : Routed :=
  let mocPath := (createMocPath env moDn).2
  let mocPathList := GlobalSplitMocPath mocPath
  match callback with
  -- a create comes for registered classes only, so the DN is not looked for
  | handleCcbCreateObject => spiIfOfClass s mocPathList
  | handleCcbDeleteObject | handleCcbModification | handleAdminOperation => spiIfOfObject s moDn mocPathList
  | handleRtAttrUpdate => if mocPathList = [] then .undefined else spiIfOfObject s moDn mocPathList
  | handleComplexTypeCcbCreateObject className ctAttr => spiIfOfStruct s className moDn mocPath ctAttr
  | handleComplexTypeCcbModification ctAttr =>
    match env.mocRoot.bind (findComMoc · mocPathList) with
    | none => .notRegistered
    | some moc =>
      match getMocAttribute moc ctAttr with
      | none => .notRegistered
      | some moAttr =>
        match moAttr.structDatatype with
        | none => .undefined
        | some immClassName => spiIfOfStruct s immClassName moDn mocPath ctAttr

/-- The callbacks of the applier come for the struct attributes of the class. -/
def OfClass (moc : Moc) : Callback → Prop
  | handleComplexTypeCcbCreateObject className ctAttr =>
    ∃ moAttr, getMocAttribute moc ctAttr = some moAttr ∧ moAttr.structDatatype = some className
  | handleComplexTypeCcbModification ctAttr =>
    ∃ moAttr className, getMocAttribute moc ctAttr = some moAttr ∧ moAttr.structDatatype = some className
  | _ => True

end Callback

/-! ## What was registered -/

def RegisterCall.Succeeds (env : OIEnv) (s : Registry) (call : RegisterCall) : Prop :=
  match call with
  | .registerClass_2 .. | .registerDn_2 .. => (call.run env s).1 = .ok ∧ call.Answered env s
  | .unregisterClass_2 .. | .unregisterDn_2 .. => False

def ClassRegistered (regs : List RegisterCall) (mocPath : String) (spiIf : RegisteredCommonStruct) : Prop :=
  ∃ answers, .registerClass_2 spiIf.managedObjectInterfaceId spiIf.transactionalResourceId mocPath answers ∈ regs

def DnRegistered (regs : List RegisterCall) (moDn : String) (spiIf : RegisteredCommonStruct) : Prop :=
  ∃ answers, .registerDn_2 spiIf.managedObjectInterfaceId spiIf.transactionalResourceId moDn answers ∈ regs

/-- The component an object is registered for: by its DN, or else by exactly its class path. -/
def RegisteredFor (regs : List RegisterCall) (moDn mocPath : String) (spiIf : RegisteredCommonStruct) : Prop :=
  DnRegistered regs moDn spiIf ∨ (∀ other, ¬ DnRegistered regs moDn other) ∧ ClassRegistered regs mocPath spiIf

def PathOwner (env : OIEnv) (regs : List RegisterCall) (x : String × String) (spiIf : RegisteredCommonStruct) :
    Prop :=
  (∃ mocPath, ClassRegistered regs mocPath spiIf ∧ x ∈ classPaths env mocPath) ∨
    ∃ moDn moc, DnRegistered regs moDn spiIf ∧ env.GetComMoc moDn = some moc ∧
      x ∈ configPaths env moDn (getMocComplexAttributes moc)

def lastClass (mocPath : String) : String := (GlobalSplitMocPath mocPath).getLastD ""

structure Registry.Holds (env : OIEnv) (regs : List RegisterCall) (s : Registry) : Prop where
  good : s.Good env
  ofClass : ∀ className reg, s.registeredClass className = some reg ↔
    ClassRegistered regs reg.mocPath ⟨reg.managedObjectInterfaceId, reg.transactionalResourceId⟩ ∧
      lastClass reg.mocPath = className
  ofDn : ∀ moDn spiIf, DnRegistered regs moDn spiIf ↔
    ∃ moc, s.registeredDN moDn = some ⟨spiIf.managedObjectInterfaceId, spiIf.transactionalResourceId, moc⟩
  dnMoc : ∀ moDn reg, s.registeredDN moDn = some reg → env.GetComMoc moDn = some reg.dnMoc
  entries : ∀ C, ∀ e ∈ s.registeredComplexTypeClass C,
    PathOwner env regs (C, e.path) ⟨e.managedObjectInterfaceId, e.transactionalResourceId⟩

section
variable {env : OIEnv} {s : Registry} {regs : List RegisterCall}

theorem holds_initial : Registry.initial.Holds env [] where
  good := good_initial env
  ofClass className reg := by
    refine iff_of_false (fun h => nomatch h) ?_
    rintro ⟨⟨answers, h⟩, _⟩
    cases h
  ofDn moDn spiIf := by
    refine iff_of_false ?_ ?_
    · rintro ⟨answers, h⟩
      cases h
    · rintro ⟨moc, h⟩
      cases h
  dnMoc moDn reg h := nomatch h
  entries C e he := nomatch he

variable {moIf txIf : Interface} {mocPath moDn path : String} {answers : Answers} {call : RegisterCall}
variable {spiIf : RegisteredCommonStruct}

theorem classRegistered_append : ClassRegistered (regs ++ [call]) path spiIf ↔ ClassRegistered regs path spiIf ∨
    ∃ answers, call = .registerClass_2 spiIf.managedObjectInterfaceId spiIf.transactionalResourceId path
      answers := by
  unfold ClassRegistered
  rw [← exists_or]
  refine exists_congr fun answers => ?_
  rw [List.mem_append, List.mem_singleton, eq_comm (a := call)]

theorem dnRegistered_append : DnRegistered (regs ++ [call]) path spiIf ↔ DnRegistered regs path spiIf ∨
    ∃ answers, call = .registerDn_2 spiIf.managedObjectInterfaceId spiIf.transactionalResourceId path answers := by
  unfold DnRegistered
  rw [← exists_or]
  refine exists_congr fun answers => ?_
  rw [List.mem_append, List.mem_singleton, eq_comm (a := call)]

theorem PathOwner.append {x : String × String} (h : PathOwner env regs x spiIf) :
    PathOwner env (regs ++ [call]) x spiIf := by
  rcases h with ⟨path, hreg, hx⟩ | ⟨dn, moc, hreg, hmoc, hx⟩
  · exact Or.inl ⟨path, classRegistered_append.mpr (Or.inl hreg), hx⟩
  · exact Or.inr ⟨dn, moc, dnRegistered_append.mpr (Or.inl hreg), hmoc, hx⟩

theorem checkRegisterDn_moc {immDn : String} {moc : Moc} {dn : String}
    (h : checkRegisterDn env dn answers s = .ok (moc, immDn)) : env.GetComMoc dn = some moc := by
  unfold checkRegisterDn at h
  split at h
  · cases h
  · split at h
    · cases h
    · split at h
      · cases h
      · rename_i hmoc
        split at h
        · cases h
        · split at h <;> cases h
          exact hmoc

theorem holds_registerClass (h : s.Holds env regs)
    (hcall : RegisterCall.Succeeds env s (.registerClass_2 moIf txIf mocPath answers)) :
    (RegisterCall.step env s (.registerClass_2 moIf txIf mocPath answers)).Holds env
      (regs ++ [.registerClass_2 moIf txIf mocPath answers]) := by
  obtain ⟨hret, hanswered⟩ := hcall
  cases hcheck : checkRegisterClass env mocPath answers s with
  | error ret =>
    rw [RegisterCall.run, registerClass_2, hcheck] at hret
    exact (checkRegisterClass_error hcheck hret).elim
  | ok x =>
    obtain ⟨moc, className, immClassName⟩ := x
    have hacc := accepted_of_answered h.good.kept hcheck hanswered
    have hgood := (registerClass_2_ok moIf txIf h.good hcheck hacc).2.2
    obtain ⟨s₁, heq, hreg, hentry⟩ := registerClass_2_eq moIf txIf h.good.kept hcheck hacc
    obtain ⟨hclass, hnone⟩ := checkRegisterClass_ok hcheck
    have hlast : lastClass mocPath = className := (classOfPath_ok hclass).1.symm
    rw [RegisterCall.step, RegisterCall.run]
    rw [heq] at hgood ⊢
    refine ⟨hgood, fun name reg => ?_, fun dn spiIf => ?_, fun dn reg hdn => ?_, fun C e he => ?_⟩
    · dsimp only
      rw [hreg.same.1, classRegistered_append]
      by_cases hname : name = className
      · rw [hname, Function.update_self]
        constructor
        · intro hsome
          cases hsome
          exact ⟨Or.inr ⟨answers, rfl⟩, hlast⟩
        · rintro ⟨hold | ⟨_, hcall⟩, hkey⟩
          · have := (h.ofClass className reg).mpr ⟨hold, hkey⟩
            rw [hnone] at this
            cases this
          · cases hcall
            rfl
      · rw [Function.update_of_ne hname]
        dsimp only
        rw [h.ofClass]
        refine and_congr_left fun hkey => (or_iff_left ?_).symm
        rintro ⟨_, hcall⟩
        cases hcall
        exact hname (hkey.symm.trans hlast)
    · dsimp only
      rw [hreg.same.2.1, dnRegistered_append]
      refine (or_iff_left ?_).trans (h.ofDn dn spiIf)
      rintro ⟨_, hcall⟩
      cases hcall
    · dsimp only at hdn
      rw [hreg.same.2.1] at hdn
      exact h.dnMoc dn reg hdn
    · rcases hentry C e he with hold | ⟨he, hpath⟩
      · exact (h.entries C e hold).append
      · rw [he]
        exact Or.inl ⟨mocPath, classRegistered_append.mpr (Or.inr ⟨answers, rfl⟩), hpath⟩

theorem holds_registerDn {dn : String} (h : s.Holds env regs)
    (hcall : RegisterCall.Succeeds env s (.registerDn_2 moIf txIf dn answers)) :
    (RegisterCall.step env s (.registerDn_2 moIf txIf dn answers)).Holds env
      (regs ++ [.registerDn_2 moIf txIf dn answers]) := by
  obtain ⟨hret, _⟩ := hcall
  cases hcheck : checkRegisterDn env dn answers s with
  | error ret =>
    rw [RegisterCall.run, registerDn_2, hcheck] at hret
    exact (checkRegisterDn_error hcheck hret).elim
  | ok x =>
    obtain ⟨moc, immDn⟩ := x
    have hacc : Accepted s answers (configPaths env dn (getMocComplexAttributes moc)) := by
      by_contra hnot
      exact (registerDn_2_failed moIf txIf h.good.kept hcheck hnot).1 hret
    have hgood := (registerDn_2_ok moIf txIf h.good hcheck hacc).2.2
    obtain ⟨s₁, heq, hreg, hentry⟩ := registerDn_2_eq moIf txIf h.good.kept hcheck hacc
    have hnone := checkRegisterDn_ok hcheck
    have hmoc := checkRegisterDn_moc hcheck
    rw [RegisterCall.step, RegisterCall.run]
    rw [heq] at hgood ⊢
    refine ⟨hgood, fun name reg => ?_, fun other spiIf => ?_, fun other reg hdn => ?_, fun C e he => ?_⟩
    · dsimp only
      rw [hreg.same.1, classRegistered_append]
      rw [h.ofClass]
      refine and_congr_left fun _ => (or_iff_left ?_).symm
      rintro ⟨_, hcall⟩
      cases hcall
    · dsimp only
      rw [hreg.same.2.1, dnRegistered_append]
      by_cases hdn : other = dn
      · rw [hdn, Function.update_self]
        constructor
        · rintro (hold | ⟨_, hcall⟩)
          · obtain ⟨moc', hsome⟩ := (h.ofDn dn spiIf).mp hold
            rw [hnone] at hsome
            cases hsome
          · cases hcall
            exact ⟨moc, rfl⟩
        · rintro ⟨moc', hsome⟩
          cases hsome
          exact Or.inr ⟨answers, rfl⟩
      · rw [Function.update_of_ne hdn]
        refine (or_iff_left ?_).trans (h.ofDn other spiIf)
        rintro ⟨_, hcall⟩
        cases hcall
        exact hdn rfl
    · dsimp only at hdn
      rw [hreg.same.2.1] at hdn
      by_cases hother : other = dn
      · rw [hother, Function.update_self] at hdn
        cases hdn
        rw [hother]
        exact hmoc
      · rw [Function.update_of_ne hother] at hdn
        exact h.dnMoc other reg hdn
    · rcases hentry C e he with hold | ⟨he, hpath⟩
      · exact (h.entries C e hold).append
      · rw [he]
        exact Or.inr ⟨dn, moc, dnRegistered_append.mpr (Or.inr ⟨answers, rfl⟩), hmoc, hpath⟩

theorem holds_of_along (h : Along (RegisterCall.step env) (RegisterCall.Succeeds env) Registry.initial regs) :
    (regs.foldl (RegisterCall.step env) Registry.initial).Holds env regs := by
  induction regs using List.reverseRecOn with
  | nil => exact holds_initial
  | append_singleton regs call ih =>
    obtain ⟨hregs, hcall, _⟩ := along_append.mp h
    rw [List.foldl_append]
    cases call with
    | registerClass_2 moIf txIf mocPath answers => exact holds_registerClass (ih hregs) hcall
    | registerDn_2 moIf txIf dn answers => exact holds_registerDn (ih hregs) hcall
    | unregisterClass_2 => exact hcall.elim
    | unregisterDn_2 => exact hcall.elim

/-! ## What is found -/

theorem dn_unique {other : RegisteredCommonStruct} (h : s.Holds env regs) (hreg : DnRegistered regs moDn spiIf)
    (hother : DnRegistered regs moDn other) : spiIf = other := by
  obtain ⟨moc, hsome⟩ := (h.ofDn moDn spiIf).mp hreg
  obtain ⟨moc', hsome'⟩ := (h.ofDn moDn other).mp hother
  rw [hsome] at hsome'
  obtain ⟨_, _⟩ := spiIf
  obtain ⟨_, _⟩ := other
  cases hsome'
  rfl

theorem class_unique {other : RegisteredCommonStruct} (h : s.Holds env regs)
    (hreg : ClassRegistered regs path spiIf) (hother : ClassRegistered regs mocPath other)
    (hname : lastClass path = lastClass mocPath) : path = mocPath ∧ spiIf = other := by
  have hsome := (h.ofClass (lastClass path) ⟨_, _, path⟩).mpr ⟨hreg, rfl⟩
  have hsome' := (h.ofClass (lastClass path) ⟨_, _, mocPath⟩).mpr ⟨hother, hname.symm⟩
  rw [hsome] at hsome'
  obtain ⟨_, _⟩ := spiIf
  obtain ⟨_, _⟩ := other
  cases hsome'
  exact ⟨rfl, rfl⟩

theorem registeredFor_unique {other : RegisteredCommonStruct} (h : s.Holds env regs)
    (hfor : RegisteredFor regs moDn mocPath spiIf) (hother : RegisteredFor regs moDn mocPath other) :
    spiIf = other := by
  rcases hfor with hdn | ⟨hnone, hclass⟩ <;> rcases hother with hdn' | ⟨hnone', hclass'⟩
  · exact dn_unique h hdn hdn'
  · exact (hnone' _ hdn).elim
  · exact (hnone _ hdn').elim
  · exact (class_unique h hclass hclass' rfl).2

/-- A class of that name is registered, with whatever path. -/
def NameRegistered (regs : List RegisterCall) (mocPath : String) (spiIf : RegisteredCommonStruct) : Prop :=
  ∃ path, ClassRegistered regs path spiIf ∧ lastClass path = lastClass mocPath

theorem spiIfOfClass_ne_undefined (hne : GlobalSplitMocPath mocPath ≠ []) :
    Callback.spiIfOfClass s (GlobalSplitMocPath mocPath) ≠ .undefined := by
  unfold Callback.spiIfOfClass
  rw [List.getLast?_eq_some_getLast hne]
  dsimp only
  split <;> exact fun h => nomatch h

theorem spiIfOfClass_iff (h : s.Holds env regs) (hne : GlobalSplitMocPath mocPath ≠ []) :
    Callback.spiIfOfClass s (GlobalSplitMocPath mocPath) = .to spiIf ↔ NameRegistered regs mocPath spiIf := by
  have hlast : (GlobalSplitMocPath mocPath).getLast? = some (lastClass mocPath) := by
    rw [lastClass, List.getLastD_eq_getLast?, List.getLast?_eq_some_getLast hne]
    rfl
  unfold Callback.spiIfOfClass
  rw [hlast]
  dsimp only
  constructor
  · intro hto
    split at hto
    · cases hto
    · rename_i reg hreg
      cases hto
      exact ⟨_, (h.ofClass _ reg).mp hreg⟩
  · rintro ⟨path, hreg, hname⟩
    rw [(h.ofClass _ ⟨_, _, path⟩).mpr ⟨hreg, hname⟩]

theorem spiIfOfObject_ne_undefined (hne : GlobalSplitMocPath mocPath ≠ []) :
    Callback.spiIfOfObject s moDn (GlobalSplitMocPath mocPath) ≠ .undefined := by
  unfold Callback.spiIfOfObject
  split
  · exact spiIfOfClass_ne_undefined hne
  · exact fun h => nomatch h

theorem spiIfOfObject_iff (h : s.Holds env regs) (hne : GlobalSplitMocPath mocPath ≠ []) :
    Callback.spiIfOfObject s moDn (GlobalSplitMocPath mocPath) = .to spiIf ↔
      DnRegistered regs moDn spiIf ∨
        (∀ other, ¬ DnRegistered regs moDn other) ∧ NameRegistered regs mocPath spiIf := by
  unfold Callback.spiIfOfObject
  split <;> rename_i hdn
  · have hnone : ∀ other, ¬ DnRegistered regs moDn other := by
      intro other hreg
      obtain ⟨moc, hsome⟩ := (h.ofDn moDn other).mp hreg
      rw [hdn] at hsome
      cases hsome
    rw [spiIfOfClass_iff h hne]
    exact ⟨fun hname => Or.inr ⟨hnone, hname⟩, fun hto => (hto.resolve_left (hnone spiIf)).2⟩
  · rename_i reg
    have hreg := (h.ofDn moDn ⟨reg.managedObjectInterfaceId, reg.transactionalResourceId⟩).mpr ⟨reg.dnMoc, hdn⟩
    constructor
    · intro hto
      cases hto
      exact Or.inl hreg
    · rintro (hdn' | ⟨hnone, _⟩)
      · rw [dn_unique h hdn' hreg]
      · exact (hnone _ hreg).elim

def Registration.component (s : Registry) : Registration → Option RegisteredCommonStruct
  | ofClass className =>
    (s.registeredClass className).map fun reg => ⟨reg.managedObjectInterfaceId, reg.transactionalResourceId⟩
  | ofDn dn => (s.registeredDN dn).map fun reg => ⟨reg.managedObjectInterfaceId, reg.transactionalResourceId⟩

theorem registration_of_owner {x : String × String} (h : s.Holds env regs) (hx : PathOwner env regs x spiIf) :
    ∃ g : Registration, x ∈ g.paths env s ∧ g.component s = some spiIf := by
  rcases hx with ⟨path, hreg, hx⟩ | ⟨dn, moc, hreg, hmoc, hx⟩
  · have hsome := (h.ofClass _ ⟨_, _, path⟩).mpr ⟨hreg, rfl⟩
    refine ⟨.ofClass (lastClass path), ?_, ?_⟩
    · rw [Registration.paths, hsome]
      exact hx
    · rw [Registration.component, hsome]
      rfl
  · obtain ⟨moc', hsome⟩ := (h.ofDn dn spiIf).mp hreg
    have hsame := h.dnMoc dn _ hsome
    rw [hmoc] at hsame
    refine ⟨.ofDn dn, ?_, ?_⟩
    · rw [Registration.paths, hsome]
      cases hsame
      exact hx
    · rw [Registration.component, hsome]
      rfl

theorem owner_unique {x : String × String} {other : RegisteredCommonStruct} (h : s.Holds env regs)
    (hx : PathOwner env regs x spiIf) (hother : PathOwner env regs x other) : spiIf = other := by
  obtain ⟨g, hg, hspi⟩ := registration_of_owner h hx
  obtain ⟨g', hg', hspi'⟩ := registration_of_owner h hother
  obtain rfl := h.good.apart g g' x hg hg'
  rw [hspi] at hspi'
  exact Option.some.inj hspi'

theorem has_of_owner {x : String × String} (h : s.Holds env regs) (hx : PathOwner env regs x spiIf) : s.Has x := by
  obtain ⟨g, hg, _⟩ := registration_of_owner h hx
  exact (h.good.present_iff x).mpr ⟨g, hg⟩

theorem getRegisteredCTClass_owner {C : String} (h : s.Holds env regs) (hhas : s.Has (C, path)) :
    ∃ e, s.getRegisteredCTClass C path = some e ∧
      PathOwner env regs (C, path) ⟨e.managedObjectInterfaceId, e.transactionalResourceId⟩ := by
  obtain ⟨e, he, hpath⟩ := hhas
  have hsome : ((s.registeredComplexTypeClass C).find? fun e => e.path == path).isSome := by
    rw [List.find?_isSome]
    exact ⟨e, he, beq_iff_eq.mpr hpath⟩
  obtain ⟨found, hfound⟩ := Option.isSome_iff_exists.mp hsome
  refine ⟨found, by rw [getRegisteredCTClass, hfound, Option.some_or], ?_⟩
  have howner := h.entries C found (List.mem_of_find?_eq_some hfound)
  have hpath' : found.path = path :=
    beq_iff_eq.mp (List.find?_some (p := fun e : RegisteredCTClassStruct => e.path == path) hfound)
  rw [hpath'] at howner
  exact howner

theorem spiIfOfStruct_ne_undefined {C ctAttr : String} :
    Callback.spiIfOfStruct s C moDn mocPath ctAttr ≠ .undefined := by
  unfold Callback.spiIfOfStruct
  extract_lets ctPath
  split
  · split <;> exact fun h => nomatch h
  · exact fun h => nomatch h

theorem spiIfOfStruct_iff {C ctAttr : String} (h : s.Holds env regs) :
    Callback.spiIfOfStruct s C moDn mocPath ctAttr = .to spiIf ↔
      PathOwner env regs (C, moDn ++ ":" ++ ctAttr) spiIf ∨
        (∀ other, ¬ PathOwner env regs (C, moDn ++ ":" ++ ctAttr) other) ∧
          PathOwner env regs (C, mocPath ++ ":" ++ ctAttr) spiIf := by
  have hfound : ∀ path, s.Has (C, path) → ((match s.getRegisteredCTClass C path with
      | none => Routed.notRegistered
      | some reg => .to ⟨reg.managedObjectInterfaceId, reg.transactionalResourceId⟩) = .to spiIf ↔
        PathOwner env regs (C, path) spiIf) := by
    intro path hhas
    obtain ⟨e, he, howner⟩ := getRegisteredCTClass_owner h hhas
    rw [he]
    dsimp only
    constructor
    · intro hto
      cases hto
      exact howner
    · intro hspi
      rw [owner_unique h howner hspi]
  unfold Callback.spiIfOfStruct
  by_cases hdn : s.Has (C, moDn ++ ":" ++ ctAttr)
  · rw [if_pos (existRegisteredCTClassAttr_iff.mpr hdn)]
    dsimp only
    rw [if_pos (existRegisteredCTClassAttr_iff.mpr hdn), hfound _ hdn]
    obtain ⟨e, _, howner⟩ := getRegisteredCTClass_owner h hdn
    exact ⟨Or.inl, fun hto => hto.resolve_right fun hnone => hnone.1 _ howner⟩
  · have hnone : ∀ other, ¬ PathOwner env regs (C, moDn ++ ":" ++ ctAttr) other :=
      fun other hx => hdn (has_of_owner h hx)
    rw [if_neg (existRegisteredCTClassAttr_iff.not.mpr hdn)]
    dsimp only
    by_cases hclass : s.Has (C, mocPath ++ ":" ++ ctAttr)
    · rw [if_pos (existRegisteredCTClassAttr_iff.mpr hclass), hfound _ hclass]
      exact ⟨fun hx => Or.inr ⟨hnone, hx⟩, fun hto => (hto.resolve_left (hnone spiIf)).2⟩
    · rw [if_neg (existRegisteredCTClassAttr_iff.not.mpr hclass)]
      refine iff_of_false (fun hto => nomatch hto) ?_
      rintro (hx | ⟨_, hx⟩)
      · exact hnone _ hx
      · exact hclass (has_of_owner h hx)

end

/-! ## Routing -/

/-- The path of the object's class is made from its DN, and the callback is forwarded to the component
that the object is registered for, or else to none. -/
def Callback.Right (env : OIEnv) (regs : List RegisterCall) (moDn mocPath : String) (callback : Callback) : Prop :=
  let s := regs.foldl (RegisterCall.step env) Registry.initial
  createMocPath env moDn = (true, mocPath) ∧ callback.spiIf env s moDn ≠ .undefined ∧
    ∀ spiIf, callback.spiIf env s moDn = .to spiIf ↔ RegisteredFor regs moDn mocPath spiIf

def OnlyPath (regs : List RegisterCall) (mocPath : String) : Prop :=
  ∀ path spiIf, ClassRegistered regs path spiIf → lastClass path = lastClass mocPath → path = mocPath

/-- The path of the struct attribute for the DN, or else the one for the class, is no other component's,
and one of them is there where the object is registered. -/
def StructFine (env : OIEnv) (regs : List RegisterCall) (moDn mocPath immClassName ctAttr : String) : Prop :=
  (∀ spiIf, PathOwner env regs (immClassName, moDn ++ ":" ++ ctAttr) spiIf →
    RegisteredFor regs moDn mocPath spiIf) ∧
  ((∀ spiIf, ¬ PathOwner env regs (immClassName, moDn ++ ":" ++ ctAttr) spiIf) →
    ∀ spiIf, PathOwner env regs (immClassName, mocPath ++ ":" ++ ctAttr) spiIf →
      RegisteredFor regs moDn mocPath spiIf) ∧
  ∀ spiIf, RegisteredFor regs moDn mocPath spiIf →
    ∃ owner, PathOwner env regs (immClassName, moDn ++ ":" ++ ctAttr) owner ∨
      PathOwner env regs (immClassName, mocPath ++ ":" ++ ctAttr) owner

def Callback.RegsFine (env : OIEnv) (regs : List RegisterCall) (moDn mocPath : String) (moc : Moc) :
    Callback → Prop
  | handleCcbCreateObject =>
    (∀ spiIf, DnRegistered regs moDn spiIf → NameRegistered regs mocPath spiIf) ∧
      ((∀ spiIf, ¬ DnRegistered regs moDn spiIf) → OnlyPath regs mocPath)
  | handleCcbDeleteObject | handleCcbModification | handleAdminOperation | handleRtAttrUpdate =>
    (∀ spiIf, ¬ DnRegistered regs moDn spiIf) → OnlyPath regs mocPath
  | handleComplexTypeCcbCreateObject className ctAttr => StructFine env regs moDn mocPath className ctAttr
  | handleComplexTypeCcbModification ctAttr =>
    ∀ moAttr immClassName, getMocAttribute moc ctAttr = some moAttr →
      moAttr.structDatatype = some immClassName → StructFine env regs moDn mocPath immClassName ctAttr

section
variable {env : OIEnv} {s : Registry} {regs : List RegisterCall} {moDn mocPath : String} {moc : Moc}

theorem GlobalSplitMocPath_ne_nil (h : ObjectAt env moDn mocPath moc) : GlobalSplitMocPath mocPath ≠ [] := by
  intro hnil
  obtain ⟨mocRoot, _, hmoc⟩ := Option.bind_eq_some_iff.mp h.ofClass
  rw [hnil] at hmoc
  cases hmoc

theorem createObject_iff (h : s.Holds env regs) :
    (∀ spiIf, NameRegistered regs mocPath spiIf ↔ RegisteredFor regs moDn mocPath spiIf) ↔
      Callback.RegsFine env regs moDn mocPath moc .handleCcbCreateObject := by
  constructor
  · intro hright
    refine ⟨fun spiIf hdn => (hright spiIf).mpr (Or.inl hdn), fun hnone path spiIf hreg hname => ?_⟩
    have hfor := ((hright spiIf).mp ⟨path, hreg, hname⟩).resolve_left (hnone spiIf)
    exact (class_unique h hreg hfor.2 hname).1
  · rintro ⟨hdn, honly⟩ spiIf
    constructor
    · rintro ⟨path, hreg, hname⟩
      by_cases hsome : ∃ other, DnRegistered regs moDn other
      · obtain ⟨other, hother⟩ := hsome
        obtain ⟨path', hreg', hname'⟩ := hdn other hother
        obtain rfl := (class_unique h hreg hreg' (hname.trans hname'.symm)).2
        exact Or.inl hother
      · have hnone := not_exists.mp hsome
        obtain rfl := honly hnone path spiIf hreg hname
        exact Or.inr ⟨hnone, hreg⟩
    · rintro (hother | ⟨_, hreg⟩)
      · exact hdn spiIf hother
      · exact ⟨mocPath, hreg, rfl⟩

theorem object_iff (h : s.Holds env regs) :
    (∀ spiIf, DnRegistered regs moDn spiIf ∨
        (∀ other, ¬ DnRegistered regs moDn other) ∧ NameRegistered regs mocPath spiIf ↔
      RegisteredFor regs moDn mocPath spiIf) ↔
      ((∀ spiIf, ¬ DnRegistered regs moDn spiIf) → OnlyPath regs mocPath) := by
  constructor
  · intro hright hnone path spiIf hreg hname
    have hfor := ((hright spiIf).mp (Or.inr ⟨hnone, path, hreg, hname⟩)).resolve_left (hnone spiIf)
    exact (class_unique h hreg hfor.2 hname).1
  · intro honly spiIf
    refine or_congr_right (and_congr_right fun hnone => ?_)
    constructor
    · rintro ⟨path, hreg, hname⟩
      exact honly hnone path spiIf hreg hname ▸ hreg
    · exact fun hreg => ⟨mocPath, hreg, rfl⟩

theorem struct_iff {immClassName ctAttr : String} (h : s.Holds env regs) :
    (∀ spiIf, PathOwner env regs (immClassName, moDn ++ ":" ++ ctAttr) spiIf ∨
        (∀ other, ¬ PathOwner env regs (immClassName, moDn ++ ":" ++ ctAttr) other) ∧
          PathOwner env regs (immClassName, mocPath ++ ":" ++ ctAttr) spiIf ↔
      RegisteredFor regs moDn mocPath spiIf) ↔
      StructFine env regs moDn mocPath immClassName ctAttr := by
  constructor
  · intro hright
    refine ⟨fun spiIf hx => (hright spiIf).mp (Or.inl hx),
      fun hnone spiIf hx => (hright spiIf).mp (Or.inr ⟨hnone, hx⟩), fun spiIf hfor => ⟨spiIf, ?_⟩⟩
    exact ((hright spiIf).mpr hfor).imp_right And.right
  · rintro ⟨hdn, hclass, hthere⟩ spiIf
    have hto : ∀ other, PathOwner env regs (immClassName, moDn ++ ":" ++ ctAttr) other ∨
        (∀ other, ¬ PathOwner env regs (immClassName, moDn ++ ":" ++ ctAttr) other) ∧
          PathOwner env regs (immClassName, mocPath ++ ":" ++ ctAttr) other →
        RegisteredFor regs moDn mocPath other := by
      rintro other (hx | ⟨hnone, hx⟩)
      · exact hdn other hx
      · exact hclass hnone other hx
    refine ⟨hto spiIf, fun hfor => ?_⟩
    obtain ⟨owner, hx⟩ := hthere spiIf hfor
    by_cases hsome : ∃ other, PathOwner env regs (immClassName, moDn ++ ":" ++ ctAttr) other
    · obtain ⟨other, hother⟩ := hsome
      have := registeredFor_unique h hfor (hdn other hother)
      exact Or.inl (this ▸ hother)
    · have hnone := not_exists.mp hsome
      have howner := hx.resolve_left (hnone owner)
      have := registeredFor_unique h hfor (hclass hnone owner howner)
      exact Or.inr ⟨hnone, this ▸ howner⟩

end

/-! ## The callbacks -/

/-- A callback goes where it should exactly where the path of its object is found and the registrations
tell its object from others. -/
theorem routing_right_iff (env : OIEnv) (regs : List RegisterCall)
    (hregs : Along (RegisterCall.step env) (RegisterCall.Succeeds env) Registry.initial regs)
    (moDn mocPath : String) (moc : Moc) (hobject : ObjectAt env moDn mocPath moc)
    (callback : Callback) (hclass : callback.OfClass moc) :
    callback.Right env regs moDn mocPath ↔
      PathFine env moDn mocPath ∧ callback.RegsFine env regs moDn mocPath moc := by
  have h := holds_of_along hregs
  have hne := GlobalSplitMocPath_ne_nil hobject
  unfold Callback.Right
  generalize regs.foldl (RegisterCall.step env) Registry.initial = s at h
  dsimp only
  rw [createMocPath_iff hobject]
  refine and_congr_right fun hpath => ?_
  have hmade := congrArg Prod.snd ((createMocPath_iff hobject).mpr hpath)
  dsimp only at hmade
  unfold Callback.spiIf
  rw [hmade]
  cases callback with
  | handleCcbCreateObject =>
    dsimp only
    rw [and_iff_right (spiIfOfClass_ne_undefined hne), ← createObject_iff h]
    exact forall_congr' fun spiIf => by rw [spiIfOfClass_iff h hne]
  | handleCcbDeleteObject | handleCcbModification | handleAdminOperation =>
    dsimp only
    rw [and_iff_right (spiIfOfObject_ne_undefined hne), Callback.RegsFine, ← object_iff h]
    exact forall_congr' fun spiIf => by rw [spiIfOfObject_iff h hne]
  | handleRtAttrUpdate =>
    dsimp only
    rw [if_neg hne, and_iff_right (spiIfOfObject_ne_undefined hne), Callback.RegsFine, ← object_iff h]
    exact forall_congr' fun spiIf => by rw [spiIfOfObject_iff h hne]
  | handleComplexTypeCcbCreateObject className ctAttr =>
    dsimp only
    rw [and_iff_right spiIfOfStruct_ne_undefined, Callback.RegsFine, ← struct_iff h]
    exact forall_congr' fun spiIf => by rw [spiIfOfStruct_iff h]
  | handleComplexTypeCcbModification ctAttr =>
    obtain ⟨moAttr, immClassName, hattr, htype⟩ := hclass
    dsimp only
    rw [hobject.ofClass]
    dsimp only
    rw [hattr]
    dsimp only
    rw [htype]
    dsimp only
    have hfine : Callback.RegsFine env regs moDn mocPath moc (.handleComplexTypeCcbModification ctAttr) ↔
        StructFine env regs moDn mocPath immClassName ctAttr := by
      constructor
      · exact fun hfine => hfine moAttr immClassName hattr htype
      · intro hfine moAttr' immClassName' hattr' htype'
        rw [hattr] at hattr'
        cases hattr'
        rw [htype] at htype'
        cases htype'
        exact hfine
    rw [and_iff_right spiIfOfStruct_ne_undefined, hfine, ← struct_iff h]
    exact forall_congr' fun spiIf => by rw [spiIfOfStruct_iff h]

def twoParents : OIEnv where
  mocRoot := some (.mk "Root" [] [.mk "A" [] [.mk "X" [] []], .mk "B" [] [.mk "X" [] []]])
  isRuntimeClass := fun _ => false
  TransformImmClassName := fun path => path.getLastD ""
  GetComMoc := fun _ => none
  MO2Imm_DN := fun dn => dn
  saNameMaxLen := 255

def allAccepted : Answers where
  classDNs := []
  classImplementerSet := true
  objectImplementerSet := .ok
  applierImplementerSet := fun _ => true

theorem registered_twoParents : Along (RegisterCall.step twoParents) (RegisterCall.Succeeds twoParents)
    Registry.initial [.registerClass_2 ⟨"C", "MO", "1"⟩ ⟨"C", "TX", "1"⟩ "/Root/A/X" allAccepted] := by
  refine ⟨⟨by decide, ?_⟩, trivial⟩
  unfold RegisterCall.Answered
  dsimp only
  rw [if_pos (by decide)]
  decide

theorem object_twoParents (parent : String) (h : parent = "A" ∨ parent = "B") :
    ObjectAt twoParents ("Root=1," ++ parent ++ "=1,X=1") ("/Root/" ++ parent ++ "/X") (.mk "X" [] []) := by
  rcases h with rfl | rfl
  · exact ⟨⟨[], by decide⟩, by decide, rfl⟩
  · exact ⟨⟨[], by decide⟩, by decide, rfl⟩

/-- The delete of an object below `B` goes to the component that is registered for the class below `A`. -/
theorem not_routing_right :
    Along (RegisterCall.step twoParents) (RegisterCall.Succeeds twoParents) Registry.initial
        [.registerClass_2 ⟨"C", "MO", "1"⟩ ⟨"C", "TX", "1"⟩ "/Root/A/X" allAccepted] ∧
      ObjectAt twoParents "Root=1,B=1,X=1" "/Root/B/X" (.mk "X" [] []) ∧
      ¬ Callback.Right twoParents
        [.registerClass_2 ⟨"C", "MO", "1"⟩ ⟨"C", "TX", "1"⟩ "/Root/A/X" allAccepted]
        "Root=1,B=1,X=1" "/Root/B/X" .handleCcbDeleteObject := by
  refine ⟨registered_twoParents, object_twoParents "B" (Or.inr rfl), ?_⟩
  rintro ⟨_, _, hright⟩
  have hto := (hright ⟨⟨"C", "MO", "1"⟩, ⟨"C", "TX", "1"⟩⟩).mp (by decide)
  rcases hto with ⟨answers, hmem⟩ | ⟨_, answers, hmem⟩
  · cases List.mem_singleton.mp hmem
  · have := List.mem_singleton.mp hmem
    injection this with _ _ hpath
    exact absurd hpath (by decide)

/-- The delete of an object below `A` goes right. -/
theorem routing_right_twoParents : Callback.Right twoParents
      [.registerClass_2 ⟨"C", "MO", "1"⟩ ⟨"C", "TX", "1"⟩ "/Root/A/X" allAccepted]
      "Root=1,A=1,X=1" "/Root/A/X" .handleCcbDeleteObject := by
  refine (routing_right_iff twoParents _ registered_twoParents "Root=1,A=1,X=1" "/Root/A/X" _
    (object_twoParents "A" (Or.inl rfl)) .handleCcbDeleteObject trivial).mpr ⟨⟨by decide, ?_⟩, fun _ => ?_⟩
  · exact ⟨["Root"], rfl, by decide⟩
  · rintro path spiIf ⟨answers, hmem⟩ _
    have := List.mem_singleton.mp hmem
    injection this

end ComSA.OIproxy
