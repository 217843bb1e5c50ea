import Mathlib.Data.List.Induction
import Mathlib.Data.List.MinMax
import ComSA.Lib.Run
import ComSA.Motransaction.MoValue

/-!
# Recovery from a bad handle

`checkObjectExistInImm` with the handles that its caller keeps, for an IMM that may invalidate all handles at any time.
The handles are passed by value, so the new ones that the recovery gets are lost.
-/

namespace ComSA.BadHandle

/-! ## IMM -/

abbrev Handle := Nat

structure Handles where
  next : List Handle → Handle
  next_fresh : ∀ issued, next issued ∉ issued
  next_ne : ∀ issued, next issued ≠ 0

inductive SaAisError where
  | ok
  | errNotExist
  | errBadHandle
  | other
  deriving DecidableEq, Repr

structure Imm where
  objects : List String
  /-- The handles that are valid, the accessor handles with the handle they belong to. -/
  omHandles : List Handle
  accessorHandles : List (Handle × Handle)
  issued : List Handle
  finalized : List Handle
  /-- A handle was used in an access after it had been finalized. -/
  usedFinalized : Bool
  deriving DecidableEq, Repr

/-- What IMM does while an object is looked for: before which calls of the recovery it invalidates all handles, and
whether the handles can be initialized. -/
structure Meanwhile where
  beforeAccessorFinalize : Bool := false
  beforeFinalize : Bool := false
  beforeInitialize : Bool := false
  beforeAccessorInitialize : Bool := false
  beforeSecondGet : Bool := false
  initialized : Bool := true
  accessorInitialized : Bool := true
  deriving DecidableEq, Repr

namespace Imm

def invalidate (imm : Imm) : Imm := { imm with omHandles := [], accessorHandles := [] }

def meanwhile (invalidated : Bool) (imm : Imm) : Imm := if invalidated then imm.invalidate else imm

def saImmOmAccessorGet_2 (accessorHandle : Handle) (objectName : String) (imm : Imm) : SaAisError × Imm :=
  (if accessorHandle ∈ imm.accessorHandles.map Prod.fst then
      if objectName ∈ imm.objects then .ok else .errNotExist
    else .errBadHandle,
    { imm with usedFinalized := imm.usedFinalized || accessorHandle ∈ imm.finalized })

def saImmOmAccessorFinalize (accessorHandle : Handle) (imm : Imm) : Imm :=
  { imm with
    accessorHandles := imm.accessorHandles.filter (·.1 ≠ accessorHandle)
    finalized := accessorHandle :: imm.finalized }

def saImmOmFinalize (immHandle : Handle) (imm : Imm) : Imm :=
  { imm with
    omHandles := imm.omHandles.filter (· ≠ immHandle)
    accessorHandles := imm.accessorHandles.filter (·.2 ≠ immHandle)
    finalized := immHandle :: imm.finalized }

def saImmOmInitialize (handles : Handles) (ok : Bool) (imm : Imm) : Option Handle × Imm :=
  let immHandle := handles.next imm.issued
  if ok then
    (some immHandle, { imm with omHandles := immHandle :: imm.omHandles, issued := immHandle :: imm.issued })
  else
    (none, imm)

def saImmOmAccessorInitialize (handles : Handles) (ok : Bool) (immHandle : Handle) (imm : Imm) :
    Option Handle × Imm :=
  let accessorHandle := handles.next imm.issued
  if ok ∧ immHandle ∈ imm.omHandles then
    (some accessorHandle, { imm with
      accessorHandles := (accessorHandle, immHandle) :: imm.accessorHandles
      issued := accessorHandle :: imm.issued })
  else
    (none, imm)

end Imm

open Imm

/-! ## The functions -/

def reInitializeBadHandler (handles : Handles) (m : Meanwhile) (immOmHandle immOmAccessorHandle : Handle)
    (imm : Imm) :
    SaAisError × Imm :=
  let imm := saImmOmAccessorFinalize immOmAccessorHandle (imm.meanwhile m.beforeAccessorFinalize)
  let imm := saImmOmFinalize immOmHandle (imm.meanwhile m.beforeFinalize)
  match saImmOmInitialize handles m.initialized (imm.meanwhile m.beforeInitialize) with
  | (none, imm) => (.other, imm)
  | (some immOmHandle, imm) =>
    match saImmOmAccessorInitialize handles m.accessorInitialized immOmHandle
        (imm.meanwhile m.beforeAccessorInitialize) with
    | (none, imm) => (.other, imm)
    | (some _, imm) => (.ok, imm)

def translatorCheckObjectExistInImm (handles : Handles) (m : Meanwhile) (objectName : String)
    (immHandle accessorHandle : Handle) (imm : Imm) : MafReturn × Imm :=
  if accessorHandle ≠ 0 then
    match saImmOmAccessorGet_2 accessorHandle objectName imm with
    | (.ok, imm) => (.ok, imm)
    | (.errNotExist, imm) => (.notExist, imm)
    | (.errBadHandle, imm) =>
      match reInitializeBadHandler handles m immHandle accessorHandle imm with
      | (.ok, imm) =>
        -- the second access, with the old handle; that an object does not exist is a failure here
        match saImmOmAccessorGet_2 accessorHandle objectName (imm.meanwhile m.beforeSecondGet) with
        | (.ok, imm) => (.ok, imm)
        | (_, imm) => (.failure, imm)
      | (_, imm) => (.failure, imm)
    | (.other, imm) => (.failure, imm)
  else
    (.failure, imm)

structure OamSACache where
  myImmHandle : Handle
  myAccessorHandle : Handle
  imm : Imm
  deriving DecidableEq, Repr

namespace OamSACache

def new (handles : Handles) (objects : List String) : OamSACache :=
  let imm := (saImmOmInitialize handles true ⟨objects, [], [], [], [], false⟩).2
  let myImmHandle := handles.next []
  let imm := (saImmOmAccessorInitialize handles true myImmHandle imm).2
  ⟨myImmHandle, handles.next [myImmHandle], imm⟩

def checkObjectExistInImm (handles : Handles) (m : Meanwhile) (objectName : String) (c : OamSACache) :
    MafReturn × OamSACache :=
  if c.myImmHandle ≠ 0 ∧ c.myAccessorHandle ≠ 0 then
    let (retVal, imm) := translatorCheckObjectExistInImm handles m objectName c.myImmHandle c.myAccessorHandle c.imm
    (retVal, { c with imm })
  else
    (.failure, c)

end OamSACache

/-! ## Runs -/

inductive Event where
  | invalidate
  | objects (objects : List String)
  | checkObjectExistInImm (objectName : String) (m : Meanwhile)
  deriving DecidableEq, Repr

def step (handles : Handles) (c : OamSACache) : Event → OamSACache
  | .invalidate => { c with imm := c.imm.invalidate }
  | .objects objects => { c with imm := { c.imm with objects } }
  | .checkObjectExistInImm objectName m => (c.checkObjectExistInImm handles m objectName).2

def AnswersRight (handles : Handles) (c : OamSACache) : Event → Prop
  | .checkObjectExistInImm objectName m =>
    (c.checkObjectExistInImm handles m objectName).1 = if objectName ∈ c.imm.objects then .ok else .notExist
  | _ => True

def NoneUsedFinalized (c : OamSACache) : Prop := c.imm.usedFinalized = false

/-- Every handle that was initialized was finalized or is still held. -/
def Accounted (c : OamSACache) : Prop :=
  ∀ h ∈ c.imm.issued, h ∈ c.imm.finalized ∨ h = c.myImmHandle ∨ h = c.myAccessorHandle

/-- The handles can be initialized again whenever that is tried. -/
def Reinitializes : Event → Prop
  | .checkObjectExistInImm _ m => m.initialized = true ∧ m.accessorInitialized = true ∧
    m.beforeAccessorInitialize = false
  | _ => True

def NoneAfterInvalidation (es : List Event) : Prop :=
  ∀ before objectName m after, es = before ++ .checkObjectExistInImm objectName m :: after → .invalidate ∉ before

/-! ## One call -/

structure Untouched (c : OamSACache) : Prop where
  immHandle_ne : c.myImmHandle ≠ 0
  accessorHandle_ne : c.myAccessorHandle ≠ 0
  issued : c.imm.issued = [c.myAccessorHandle, c.myImmHandle]
  finalized : c.imm.finalized = []
  usedFinalized : c.imm.usedFinalized = false
  valid : c.imm.accessorHandles = [] ∨ c.imm.accessorHandles = [(c.myAccessorHandle, c.myImmHandle)]

def ValidWhenUsed (c : OamSACache) : Event → Prop
  | .checkObjectExistInImm _ _ => c.imm.accessorHandles ≠ []
  | _ => True

structure Dropped (accessorHandle : Handle) (imm : Imm) : Prop where
  issued : accessorHandle ∈ imm.issued
  finalized : accessorHandle ∈ imm.finalized
  invalid : accessorHandle ∉ imm.accessorHandles.map Prod.fst

section
variable {handles : Handles} {c : OamSACache} {m : Meanwhile} {objectName : String} {imm : Imm}
  {immHandle accessorHandle : Handle} {b : Bool}

@[simp] theorem meanwhile_false : imm.meanwhile false = imm := rfl

@[simp] theorem issued_meanwhile : (imm.meanwhile b).issued = imm.issued := by
  cases b <;> rfl

@[simp] theorem finalized_meanwhile : (imm.meanwhile b).finalized = imm.finalized := by
  cases b <;> rfl

theorem accessorHandles_meanwhile : (imm.meanwhile b).accessorHandles ⊆ imm.accessorHandles := by
  cases b
  · exact fun x hx => hx
  · exact List.nil_subset _

theorem Dropped.meanwhile (h : Dropped accessorHandle imm) (b : Bool) :
    Dropped accessorHandle (imm.meanwhile b) where
  issued := by simpa using h.issued
  finalized := by simpa using h.finalized
  invalid := fun hmem => h.invalid (List.map_subset _ accessorHandles_meanwhile hmem)

theorem dropped_finalize (h : accessorHandle ∈ imm.issued) (immHandle : Handle) (before beforeSecond : Bool) :
    Dropped accessorHandle
      (saImmOmFinalize immHandle
        ((saImmOmAccessorFinalize accessorHandle (imm.meanwhile before)).meanwhile beforeSecond)) where
  issued := by simpa [saImmOmFinalize, saImmOmAccessorFinalize] using h
  finalized := by simp [saImmOmFinalize, saImmOmAccessorFinalize]
  invalid := by
    intro hmem
    obtain ⟨x, hx, rfl⟩ := List.mem_map.mp hmem
    have hx := accessorHandles_meanwhile (List.mem_filter.mp hx).1
    simp [saImmOmAccessorFinalize] at hx

theorem Dropped.afterInit (h : Dropped accessorHandle imm) (handles : Handles) (b : Bool) :
    Dropped accessorHandle (saImmOmInitialize handles b imm).2 := by
  cases b
  · exact h
  · exact ⟨List.mem_cons_of_mem _ h.issued, h.finalized, h.invalid⟩

theorem Dropped.accessorInitialize (h : Dropped accessorHandle imm) (handles : Handles) (b : Bool)
    (immHandle : Handle) :
    Dropped accessorHandle (saImmOmAccessorInitialize handles b immHandle imm).2 := by
  unfold saImmOmAccessorInitialize
  dsimp only
  split
  · refine ⟨List.mem_cons_of_mem _ h.issued, h.finalized, ?_⟩
    rw [List.map_cons, List.mem_cons, not_or]
    refine ⟨?_, h.invalid⟩
    rintro rfl
    exact handles.next_fresh imm.issued h.issued
  · exact h

theorem dropped_reInitializeBadHandler (handles : Handles) (m : Meanwhile) (immHandle : Handle)
    (h : accessorHandle ∈ imm.issued) :
    Dropped accessorHandle (reInitializeBadHandler handles m immHandle accessorHandle imm).2 := by
  unfold reInitializeBadHandler
  dsimp only
  have hfinalized := dropped_finalize h immHandle m.beforeAccessorFinalize m.beforeFinalize
  have hinit := (hfinalized.meanwhile m.beforeInitialize).afterInit handles m.initialized
  split <;> rename_i heq
  · rw [heq] at hinit
    exact hinit
  · rename_i newHandle imm'
    rw [heq] at hinit
    have haccessor :=
      (hinit.meanwhile m.beforeAccessorInitialize).accessorInitialize handles m.accessorInitialized newHandle
    split <;> rename_i heq' <;> rw [heq'] at haccessor <;> exact haccessor

theorem reInitializeBadHandler_ok (handles : Handles) (immHandle accessorHandle : Handle) (imm : Imm)
    (hm : Reinitializes (.checkObjectExistInImm objectName m)) :
    ∃ imm', reInitializeBadHandler handles m immHandle accessorHandle imm = (.ok, imm') ∧
      handles.next imm.issued ∈ imm'.issued ∧ imm'.finalized = immHandle :: accessorHandle :: imm.finalized := by
  obtain ⟨hinit, haccessor, hbefore⟩ := hm
  unfold reInitializeBadHandler saImmOmInitialize saImmOmAccessorInitialize
  rw [hinit, haccessor, hbefore]
  simp [saImmOmFinalize, saImmOmAccessorFinalize]

theorem get_valid (h : Untouched c) (hvalid : c.imm.accessorHandles ≠ []) :
    saImmOmAccessorGet_2 c.myAccessorHandle objectName c.imm =
      (if objectName ∈ c.imm.objects then .ok else .errNotExist, c.imm) := by
  have hused : (c.imm.usedFinalized || decide (c.myAccessorHandle ∈ c.imm.finalized)) = c.imm.usedFinalized := by
    simp [h.finalized]
  have hmem : c.myAccessorHandle ∈ c.imm.accessorHandles.map Prod.fst := by
    rw [h.valid.resolve_left hvalid]
    exact List.mem_cons_self
  unfold saImmOmAccessorGet_2
  rw [hused, if_pos hmem]

theorem check_valid (h : Untouched c) (hvalid : c.imm.accessorHandles ≠ []) :
    c.checkObjectExistInImm handles m objectName = (if objectName ∈ c.imm.objects then .ok else .notExist, c) := by
  unfold OamSACache.checkObjectExistInImm translatorCheckObjectExistInImm
  rw [if_pos ⟨h.immHandle_ne, h.accessorHandle_ne⟩, if_pos h.accessorHandle_ne, get_valid h hvalid]
  by_cases hobject : objectName ∈ c.imm.objects <;> simp [hobject]

theorem get_dropped (h : Dropped accessorHandle imm) :
    saImmOmAccessorGet_2 accessorHandle objectName imm = (.errBadHandle, { imm with usedFinalized := true }) := by
  unfold saImmOmAccessorGet_2
  rw [if_neg h.invalid, decide_eq_true h.finalized, Bool.or_true]

theorem get_invalid (h : Untouched c) (hinvalid : c.imm.accessorHandles = []) :
    saImmOmAccessorGet_2 c.myAccessorHandle objectName c.imm = (.errBadHandle, c.imm) := by
  have hused : (c.imm.usedFinalized || decide (c.myAccessorHandle ∈ c.imm.finalized)) = c.imm.usedFinalized := by
    simp [h.finalized]
  have hnone : c.myAccessorHandle ∉ c.imm.accessorHandles.map Prod.fst := by
    rw [hinvalid]
    exact List.not_mem_nil
  unfold saImmOmAccessorGet_2
  rw [hused, if_neg hnone]

theorem check_invalid (h : Untouched c) (hinvalid : c.imm.accessorHandles = []) :
    (c.checkObjectExistInImm handles m objectName).1 = .failure := by
  have hissued : c.myAccessorHandle ∈ c.imm.issued := by
    rw [h.issued]
    exact List.mem_cons_self
  have hdropped := dropped_reInitializeBadHandler handles m c.myImmHandle hissued
  unfold OamSACache.checkObjectExistInImm translatorCheckObjectExistInImm
  rw [if_pos ⟨h.immHandle_ne, h.accessorHandle_ne⟩, if_pos h.accessorHandle_ne, get_invalid h hinvalid]
  dsimp only
  split <;> rename_i heq
  · rw [heq] at hdropped
    rw [get_dropped (hdropped.meanwhile m.beforeSecondGet)]
  · rfl

theorem check_reinitializes (handles : Handles) (h : Untouched c) (hinvalid : c.imm.accessorHandles = [])
    (hm : Reinitializes (.checkObjectExistInImm objectName m)) :
    let c' := (c.checkObjectExistInImm handles m objectName).2
    c'.imm.usedFinalized = true ∧ c'.myImmHandle = c.myImmHandle ∧ c'.myAccessorHandle = c.myAccessorHandle ∧
      handles.next c.imm.issued ∈ c'.imm.issued ∧ c'.imm.finalized = [c.myImmHandle, c.myAccessorHandle] := by
  have hissued : c.myAccessorHandle ∈ c.imm.issued := by
    rw [h.issued]
    exact List.mem_cons_self
  have hdropped := dropped_reInitializeBadHandler handles m c.myImmHandle hissued
  obtain ⟨imm', hinit, hnew, hfinalized⟩ :=
    reInitializeBadHandler_ok handles c.myImmHandle c.myAccessorHandle c.imm hm
  rw [hinit] at hdropped
  unfold OamSACache.checkObjectExistInImm translatorCheckObjectExistInImm
  rw [if_pos ⟨h.immHandle_ne, h.accessorHandle_ne⟩, if_pos h.accessorHandle_ne, get_invalid h hinvalid]
  dsimp only
  rw [hinit]
  dsimp only
  rw [get_dropped (hdropped.meanwhile m.beforeSecondGet)]
  refine ⟨rfl, rfl, rfl, by simpa using hnew, ?_⟩
  simp [hfinalized, h.finalized]

end

/-! ## Whole runs -/

section
variable {handles : Handles} {c : OamSACache} {e : Event} {es : List Event}

theorem untouched_new (handles : Handles) (objects : List String) : Untouched (.new handles objects) := by
  have hhandles : (OamSACache.new handles objects).imm.accessorHandles =
      [((OamSACache.new handles objects).myAccessorHandle, (OamSACache.new handles objects).myImmHandle)] := by
    simp [OamSACache.new, saImmOmInitialize, saImmOmAccessorInitialize]
  refine ⟨handles.next_ne _, handles.next_ne _, ?_, ?_, ?_, .inr hhandles⟩ <;>
    simp [OamSACache.new, saImmOmInitialize, saImmOmAccessorInitialize]

theorem Untouched.step (h : Untouched c) (hvalid : ValidWhenUsed c e) : Untouched (step handles c e) := by
  cases e with
  | invalidate => exact ⟨h.immHandle_ne, h.accessorHandle_ne, h.issued, h.finalized, h.usedFinalized, .inl rfl⟩
  | objects objects => exact ⟨h.immHandle_ne, h.accessorHandle_ne, h.issued, h.finalized, h.usedFinalized, h.valid⟩
  | checkObjectExistInImm objectName m =>
    change Untouched (c.checkObjectExistInImm handles m objectName).2
    rw [check_valid h hvalid]
    exact h

theorem answersRight_iff (h : Untouched c) (e : Event) : AnswersRight handles c e ↔ ValidWhenUsed c e := by
  cases e with
  | invalidate => exact Iff.rfl
  | objects objects => exact Iff.rfl
  | checkObjectExistInImm objectName m =>
    change ((c.checkObjectExistInImm handles m objectName).1 = if objectName ∈ c.imm.objects then .ok else
      .notExist) ↔
      c.imm.accessorHandles ≠ []
    by_cases hinvalid : c.imm.accessorHandles = []
    · rw [check_invalid h hinvalid]
      split <;> simp [hinvalid]
    · rw [check_valid h hinvalid]
      simp [hinvalid]

theorem Untouched.accounted (h : Untouched c) : Accounted c := by
  intro handle hhandle
  rw [h.issued] at hhandle
  simp only [List.mem_cons, List.not_mem_nil, or_false] at hhandle
  exact .inr hhandle.symm

theorem validWhenUsed_of_step (h : Untouched c) (hm : Reinitializes e)
    (hgood : NoneUsedFinalized (step handles c e) ∨ Accounted (step handles c e)) : ValidWhenUsed c e := by
  cases e with
  | invalidate => trivial
  | objects objects => trivial
  | checkObjectExistInImm objectName m =>
    intro hinvalid
    obtain ⟨hused, himm, haccessor, hnew, hfinalized⟩ := check_reinitializes handles h hinvalid hm
    rcases hgood with hgood | hgood
    · exact absurd (hgood.symm.trans hused) Bool.false_ne_true
    · have hfresh := handles.next_fresh c.imm.issued
      rw [h.issued] at hfresh hnew
      have haccounted := hgood _ hnew
      change _ ∈ (c.checkObjectExistInImm handles m objectName).2.imm.finalized ∨
        _ = (c.checkObjectExistInImm handles m objectName).2.myImmHandle ∨
        _ = (c.checkObjectExistInImm handles m objectName).2.myAccessorHandle at haccounted
      rw [hfinalized, himm, haccessor] at haccounted
      simp only [List.mem_cons, List.not_mem_nil, or_false] at haccounted hfresh
      tauto

theorem accessorHandles_foldl (h : Untouched c) (hvalid : Along (step handles) ValidWhenUsed c es) :
    (es.foldl (step handles) c).imm.accessorHandles = [] ↔ c.imm.accessorHandles = [] ∨ .invalidate ∈ es := by
  induction es generalizing c with
  | nil => simp
  | cons e es ih =>
    rw [List.foldl_cons, ih (h.step hvalid.1) hvalid.2]
    cases e with
    | invalidate => simp [step, invalidate]
    | objects objects => simp [step]
    | checkObjectExistInImm objectName m =>
      have hstep : step handles c (.checkObjectExistInImm objectName m) = c := by
        change (c.checkObjectExistInImm handles m objectName).2 = c
        rw [check_valid h hvalid.1]
      rw [hstep]
      simp

theorem along_validWhenUsed_iff (handles : Handles) (h : Untouched c) (hopen : c.imm.accessorHandles ≠ [])
    (es : List Event) :
    Along (step handles) ValidWhenUsed c es ↔ NoneAfterInvalidation es := by
  constructor
  · rintro hvalid before objectName m after rfl hinvalidated
    obtain ⟨hbefore, hcheck, -⟩ := along_append.mp hvalid
    exact hcheck ((accessorHandles_foldl h hbefore).mpr (.inr hinvalidated))
  · intro hnone
    induction es using List.reverseRecOn with
    | nil => trivial
    | append_singleton es e ih =>
      have hes : NoneAfterInvalidation es := by
        rintro before objectName m after rfl
        exact hnone before objectName m (after ++ [e]) (by simp)
      refine along_append.mpr ⟨ih hes, ?_, trivial⟩
      cases e with
      | invalidate => trivial
      | objects objects => trivial
      | checkObjectExistInImm objectName m =>
        intro hinvalid
        rcases (accessorHandles_foldl h (ih hes)).mp hinvalid with hinvalid | hinvalid
        · exact hopen hinvalid
        · exact hnone es objectName m [] rfl hinvalid

/-- Each of the three holds in a run exactly where no object is looked for after an invalidation. -/
theorem recovery_iff (handles : Handles) (objects : List String) {es : List Event}
    (hm : ∀ e ∈ es, Reinitializes e) :
    (Along (step handles) (AnswersRight handles) (.new handles objects) es ↔ NoneAfterInvalidation es) ∧
    (Throughout (step handles) NoneUsedFinalized (.new handles objects) es ↔ NoneAfterInvalidation es) ∧
    (Throughout (step handles) Accounted (.new handles objects) es ↔ NoneAfterInvalidation es) := by
  have hnew := untouched_new handles objects
  have hopen : (OamSACache.new handles objects).imm.accessorHandles ≠ [] := by
    simp [OamSACache.new, saImmOmInitialize, saImmOmAccessorInitialize]
  have hlegal : Along (step handles) (fun _ => Reinitializes) (.new handles objects) es := by
    apply along_of_split
    rintro before e after rfl
    exact hm e (by simp)
  rw [← along_validWhenUsed_iff handles hnew hopen es]
  refine ⟨?_, ?_, ?_⟩
  · exact along_iff_along (J := Untouched) (fun c e h => answersRight_iff h e)
      (fun c e h hvalid => h.step hvalid) hnew es
  · exact throughout_iff_along_of (J := Untouched) (fun c h => h.usedFinalized)
      (fun c e h _ hvalid => h.step hvalid)
      (fun c e h hm hgood => validWhenUsed_of_step h hm (.inl hgood)) hnew hlegal
  · exact throughout_iff_along_of (J := Untouched) (fun c h => h.accounted) (fun c e h _ hvalid => h.step hvalid)
      (fun c e h hm hgood => validWhenUsed_of_step h hm (.inr hgood)) hnew hlegal

end

def counted : Handles where
  next issued := issued.foldr max 0 + 1
  next_fresh _ hmem := absurd (List.le_max_of_le' 0 hmem le_rfl) (Nat.not_succ_le_self _)
  next_ne _ := Nat.succ_ne_zero _

/-- An object is looked for before and after it is created, and the handles are invalidated in the end. -/
def checkedTwice : List Event :=
  [.checkObjectExistInImm "lmId=1" {}, .objects ["lmId=1"], .checkObjectExistInImm "lmId=1" {}, .invalidate]

theorem noneAfterInvalidation_checkedTwice : NoneAfterInvalidation checkedTwice := by
  intro before objectName m after hes
  rcases before with - | ⟨e₁, - | ⟨e₂, - | ⟨e₃, - | ⟨e₄, before⟩⟩⟩⟩ <;>
    simp_all [checkedTwice]
  obtain ⟨rfl, rfl, -⟩ := hes
  exact ⟨nofun, nofun⟩

theorem recovery_iff_counted :
    Along (step counted) (AnswersRight counted) (.new counted []) checkedTwice ∧
      Throughout (step counted) NoneUsedFinalized (.new counted []) checkedTwice ∧
        Throughout (step counted) Accounted (.new counted []) checkedTwice := by
  have hm : ∀ e ∈ checkedTwice, Reinitializes e := by simp [checkedTwice, Reinitializes]
  obtain ⟨hanswers, hused, haccounted⟩ := recovery_iff counted [] hm
  exact ⟨hanswers.mpr noneAfterInvalidation_checkedTwice, hused.mpr noneAfterInvalidation_checkedTwice,
    haccounted.mpr noneAfterInvalidation_checkedTwice⟩

/-- After an invalidation an object that exists is not found, the finalized handle is used and the new ones are lost. -/
theorem not_recovery :
    ¬ ∀ (handles : Handles) (objects : List String) (es : List Event), (∀ e ∈ es, Reinitializes e) →
      Along (step handles) (AnswersRight handles) (.new handles objects) es ∧
        Throughout (step handles) NoneUsedFinalized (.new handles objects) es ∧
          Throughout (step handles) Accounted (.new handles objects) es := by
  intro h
  have hes : ∀ e ∈ [Event.invalidate, .checkObjectExistInImm "lmId=1" {}], Reinitializes e := by
    simp [Reinitializes]
  obtain ⟨⟨-, hanswer, -⟩, -, -⟩ := h counted ["lmId=1"] _ hes
  revert hanswer
  unfold AnswersRight
  decide

end ComSA.BadHandle
