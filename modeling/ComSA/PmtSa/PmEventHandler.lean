import Mathlib.Data.List.Nodup
import Mathlib.Logic.Function.Basic
import Mathlib.Order.Fin.Basic

/-!
# The PM event handler

What the event handler keeps of the finished granularity periods, as in
`pmt_sa/src/PmEventHandler.cxx`. A period is kept twice: in `m_finishedGps` for the first interface that COM
has, and in one of the seven lists of `m_finishedGps2` for the second one. The handler has been started. The
event filters and the events that COM gets are left out, and so are NULL arguments.
-/

namespace ComSA.PmtSa

inductive ComReturn where
  | ok
  | failure
  | notExist
  deriving DecidableEq, Repr

inductive SaAisError where
  | ok
  | errNotExist
  | errUnavailable
  | other
  deriving DecidableEq, Repr

/-- What COM is told about a removal that the PM service answers so. -/
def SaAisError.toCom : SaAisError → ComReturn
  | ok => .ok
  | errNotExist => .notExist
  | errUnavailable => .notExist
  | other => .failure

inductive Fault where
  | endOfMap
  | endOfVector
  | nullData
  | locked
  deriving DecidableEq, Repr

structure SaPmCCallbackInfo where
  clientHdlr : UInt64
  jobHandler : UInt64
  jobname : Option String
  gpStartTimestamp : UInt64
  gpEndTimestamp : UInt64
  deriving DecidableEq

def SaPmCCallbackInfo.zero : SaPmCCallbackInfo := ⟨0, 0, none, 0, 0⟩

structure GpRecord extends SaPmCCallbackInfo where
  address : Nat
  deriving DecidableEq

/-! ## Granularity periods -/

abbrev GpIndex := Fin 7

def gpMap : List (String × GpIndex) :=
  [("ONE_MIN", 0), ("FIVE_MIN", 1), ("FIFTEEN_MIN", 2), ("THIRTY_MIN", 3), ("ONE_HOUR", 4),
    ("TWELVE_HOUR", 5), ("ONE_DAY", 6)]

def gpMapTime : List (Int32 × String) :=
  [(60, "ONE_MIN"), (300, "FIVE_MIN"), (900, "FIFTEEN_MIN"), (1800, "THIRTY_MIN"), (3600, "ONE_HOUR"),
    (43200, "TWELVE_HOUR"), (86400, "ONE_DAY")]

def second {α : Type} (found : Option α) : Except Fault α :=
  match found with
  | some a => .ok a
  | none => .error .endOfMap

def getGpStartEndTime (gpStart gpEnd : UInt64) : Option String :=
  let gpStartTimeInSeconds := gpStart / 1000000000
  let gpEndTimeInSeconds := gpEnd / 1000000000
  let gpPeriodInSeconds := gpEndTimeInSeconds - gpStartTimeInSeconds
  -- the key of the map is an `int`
  gpMapTime.lookup gpPeriodInSeconds.toUInt32.toInt32

def SaPmCCallbackInfo.gpIndex (info : SaPmCCallbackInfo) : Option GpIndex :=
  (getGpStartEndTime info.gpStartTimestamp info.gpEndTimestamp).bind fun gpName => gpMap.lookup gpName

def copyJobname : Option String → String
  | some jobname => String.ofList (jobname.toList.drop 7)
  | none => "pmJob=Faked_Faulty_JobName_From_PM"

/-! ## One list and what COM works with -/

/-- A list of finished periods, with the period that COM has fetched from it and its data. The first interface
has one of them and the second one has one for each granularity, handled by the same code. -/
structure Slot where
  finishedGps : List GpRecord
  comCurrentGp : SaPmCCallbackInfo
  comCurrentResult : Option Nat

namespace Slot

def empty : Slot := ⟨[], .zero, none⟩

/-- The vector without what follows the first element that `p` holds of: the loop that looks for an element has
already moved its iterator on. -/
def eraseAfter {α : Type} (p : α → Bool) : List α → Except Fault (List α)
  | [] => .ok []
  | a :: as =>
    if p a then
      match as with
      | [] => .error .endOfVector
      | _ :: rest => .ok (a :: rest)
    else do
      let as ← eraseAfter p as
      return a :: as

def Idle (t : Slot) : Prop := t.comCurrentGp.jobHandler = 0 ∧ t.comCurrentResult = none

instance (t : Slot) : Decidable t.Idle := inferInstanceAs (Decidable (_ ∧ _))

def find (pmGpId : UInt64) (t : Slot) : Option GpRecord := t.finishedGps.find? (·.jobHandler == pmGpId)

def erase (pmGpId : UInt64) (t : Slot) : Slot :=
  { t with finishedGps := t.finishedGps.eraseP (·.jobHandler == pmGpId) }

def push (copiedData : GpRecord) (t : Slot) : Slot := { t with finishedGps := t.finishedGps ++ [copiedData] }

def clear (t : Slot) : Slot := { t with comCurrentGp := .zero, comCurrentResult := none }

/-- `getGpData` and `getGpData2` on their list. The answer is what `getData` gives, `none` for NULL. The `getData`
of `PmConsumer.cxx` answers with a result that is marked as suspect where it finds nothing. -/
def getGpData (pmGpId : UInt64) (answer : Option Nat) (t : Slot) : Except Fault (ComReturn × Slot) :=
  if ¬ t.Idle then .ok (.failure, t)
  else
    match t.find pmGpId with
    | none => .ok (.notExist, t)
    | some pmData =>
      match answer with
      | some data =>
        .ok (.ok, { t with comCurrentGp := pmData.toSaPmCCallbackInfo, comCurrentResult := some data })
      | none => do
        let finishedGps ← eraseAfter (·.jobHandler == pmGpId) t.finishedGps
        return (.notExist, { finishedGps := finishedGps, comCurrentGp := .zero, comCurrentResult := none })

/-- `releaseGpData` and `releaseGpData2` on their list: the record they have found is to be freed. -/
def releaseGpData (pmGpId : UInt64) (t : Slot) : Except Fault (Option GpRecord × Slot) :=
  match t.find pmGpId with
  | none => .ok (none, t)
  | some pmData =>
    if pmGpId = t.comCurrentGp.jobHandler then
      match t.comCurrentResult with
      | none => .error .nullData
      | some _ => .ok (some pmData, (t.erase pmGpId).clear)
    else .ok (some pmData, t.erase pmGpId)

end Slot

namespace Slot
variable {pmGpId : UInt64} {t : Slot}

/-- Without data of a period that was fetched, COM works with no period. -/
def Tidy (t : Slot) : Prop := t.comCurrentResult = none → t.comCurrentGp.jobHandler = 0

theorem erase_of_find_eq_none (h : t.find pmGpId = none) : t.erase pmGpId = t := by
  unfold erase
  rw [List.eraseP_of_forall_not]
  intro r hr
  have := List.find?_eq_none.mp h r hr
  simpa using this

theorem getGpData_some (pmGpId : UInt64) (data : Nat) (t : Slot) :
    ∃ rc t', t.getGpData pmGpId (some data) = .ok (rc, t') ∧ t'.finishedGps = t.finishedGps ∧
      (t.Tidy → t'.Tidy) := by
  unfold getGpData
  by_cases hidle : t.Idle
  · rw [if_neg (not_not.mpr hidle)]
    cases hfind : t.find pmGpId with
    | none => exact ⟨_, _, rfl, rfl, id⟩
    | some r => exact ⟨_, _, rfl, rfl, fun _ hnone => nomatch hnone⟩
  · rw [if_pos hidle]
    exact ⟨_, _, rfl, rfl, id⟩

theorem getGpData_found {r : GpRecord} (hidle : t.Idle) (hfind : t.find pmGpId = some r) (data : Nat) :
    t.getGpData pmGpId (some data) =
      .ok (.ok, { t with comCurrentGp := r.toSaPmCCallbackInfo, comCurrentResult := some data }) := by
  unfold getGpData
  rw [if_neg (not_not.mpr hidle), hfind]

theorem find_of_getGpData {data : Nat} {t' : Slot} (hidle : t.Idle)
    (h : t.getGpData pmGpId (some data) = .ok (.ok, t')) : ∃ r, t.find pmGpId = some r := by
  unfold getGpData at h
  rw [if_neg (not_not.mpr hidle)] at h
  cases hfind : t.find pmGpId with
  | none => simp [hfind] at h
  | some r => exact ⟨r, rfl⟩

theorem getGpData_none (h : t.Idle → t.find pmGpId = none) :
    ∃ rc, t.getGpData pmGpId none = .ok (rc, t) := by
  unfold getGpData
  by_cases hidle : t.Idle
  · rw [if_neg (not_not.mpr hidle), h hidle]
    exact ⟨_, rfl⟩
  · rw [if_pos hidle]
    exact ⟨_, rfl⟩

theorem eraseAfter_loses {p : GpRecord → Bool} {l l' : List GpRecord} (h : eraseAfter p l = .ok l')
    (hfind : (l.find? p).isSome) :
    ∃ before a lost after, p a = true ∧ (∀ b ∈ before, p b = false) ∧ l = before ++ a :: lost :: after ∧
      l' = before ++ a :: after := by
  induction l generalizing l' with
  | nil => cases hfind
  | cons b l ih =>
    unfold eraseAfter at h
    by_cases hb : p b = true
    · rw [if_pos hb] at h
      cases l with
      | nil => cases h
      | cons c l =>
        cases h
        exact ⟨[], b, c, l, hb, (fun _ hmem => nomatch hmem), rfl, rfl⟩
    · rw [if_neg hb] at h
      rw [List.find?_cons_of_neg hb] at hfind
      cases hrest : eraseAfter p l with
      | error e =>
        rw [hrest] at h
        cases h
      | ok rest =>
        rw [hrest] at h
        cases h
        obtain ⟨before, a, lost, after, ha, hbefore, hl, hl'⟩ := ih hrest hfind
        refine ⟨b :: before, a, lost, after, ha, ?_, by rw [hl]; rfl, by rw [hl']; rfl⟩
        rintro b' (_ | ⟨_, hb'⟩)
        · exact Bool.not_eq_true _ ▸ hb
        · exact hbefore b' hb'

theorem getGpData_dead {r : GpRecord} {rc : ComReturn} {t' : Slot} (hidle : t.Idle)
    (hfind : t.find pmGpId = some r) (h : t.getGpData pmGpId none = .ok (rc, t')) :
    eraseAfter (·.jobHandler == pmGpId) t.finishedGps = .ok t'.finishedGps ∧ t'.Idle := by
  unfold getGpData at h
  rw [if_neg (not_not.mpr hidle), hfind] at h
  cases herase : eraseAfter (·.jobHandler == pmGpId) t.finishedGps with
  | error e =>
    simp only [herase] at h
    cases h
  | ok l =>
    simp only [herase] at h
    cases h
    exact ⟨rfl, rfl, rfl⟩

theorem releaseGpData_spec (ht : t.Tidy)
    (hzero : pmGpId = 0 → (t.find pmGpId).isSome → t.comCurrentResult.isSome) :
    ∃ t', t.releaseGpData pmGpId = .ok (t.find pmGpId, t') ∧
      t'.finishedGps = (t.erase pmGpId).finishedGps ∧ t'.Tidy := by
  unfold releaseGpData
  cases hfind : t.find pmGpId with
  | none => exact ⟨t, rfl, by rw [erase_of_find_eq_none hfind], ht⟩
  | some r =>
    dsimp only
    split <;> rename_i hcurrent
    · cases hresult : t.comCurrentResult with
      | none =>
        have hz : pmGpId = 0 := hcurrent.trans (ht hresult)
        have := hzero hz (by rw [hfind]; rfl)
        rw [hresult] at this
        cases this
      | some data => exact ⟨_, rfl, rfl, fun _ => rfl⟩
    · exact ⟨_, rfl, rfl, ht⟩

theorem releaseGpData_zero {r : GpRecord} (ht : t.Tidy) (hfind : t.find 0 = some r)
    (hresult : t.comCurrentResult = none) : t.releaseGpData 0 = .error .nullData := by
  unfold releaseGpData
  rw [hfind]
  dsimp only
  rw [if_pos (ht hresult).symm, hresult]

end Slot

/-! ## The handler -/

structure PmEventHandler where
  /-- `m_finishedGps`, `m_COMcurrentGp` and `m_COMcurrentResult` -/
  gp : Slot
  /-- `m_finishedGps2`, `m_COMcurrentGp2` and `m_COMcurrentResult2` -/
  gp2 : GpIndex → Slot
  locked : Bool
  /-- How many records have been made. The next one gets this address. -/
  made : Nat
  freed : List Nat
  /-- The handlers that `jobGranularityPeriodDataRemove` was called with. -/
  removed : List UInt64

namespace PmEventHandler

def start : PmEventHandler := ⟨.empty, fun _ => .empty, false, 0, [], []⟩

def lock (h : PmEventHandler) : Except Fault PmEventHandler :=
  if h.locked then .error .locked else .ok { h with locked := true }

def unlock (h : PmEventHandler) : PmEventHandler := { h with locked := false }

/-- The record is freed, and the PM service told to remove its data. -/
def dispose (pmData : GpRecord) (h : PmEventHandler) : PmEventHandler :=
  { h with freed := h.freed ++ [pmData.address], removed := h.removed ++ [pmData.jobHandler] }

def copy (pmCbData : SaPmCCallbackInfo) (h : PmEventHandler) : GpRecord :=
  { pmCbData with jobname := some (copyJobname pmCbData.jobname), address := h.made }

def sendPmDataReady (pmCbData : SaPmCCallbackInfo) (notified : ComReturn) (h : PmEventHandler) :
    Except Fault (ComReturn × PmEventHandler) := do
  let h ← h.lock
  let copiedData := h.copy pmCbData
  let fGpName ← second (getGpStartEndTime pmCbData.gpStartTimestamp pmCbData.gpEndTimestamp)
  let gpIndex ← second (gpMap.lookup fGpName)
  let h := { h with
    made := h.made + 1
    gp := h.gp.push copiedData
    gp2 := Function.update h.gp2 gpIndex ((h.gp2 gpIndex).push copiedData) }
  return (notified, h.unlock)

def getGpData (pmGpId : UInt64) (answer : Option Nat) (h : PmEventHandler) :
    Except Fault (ComReturn × PmEventHandler) := do
  let h ← h.lock
  let (retVal, gp) ← h.gp.getGpData pmGpId answer
  return (retVal, { h with gp := gp }.unlock)

def getGpData2 (pmGpId : UInt64) (gpName : String) (answer : Option Nat) (h : PmEventHandler) :
    Except Fault (ComReturn × PmEventHandler) := do
  let iGp ← second (gpMap.lookup gpName)
  let (retVal, gp) ← (h.gp2 iGp).getGpData pmGpId answer
  return (retVal, { h with gp2 := Function.update h.gp2 iGp gp })

def removefinishedGp (pmGpId : UInt64) (h : PmEventHandler) : Except Fault PmEventHandler := do
  let h ← h.lock
  return { h with gp := h.gp.erase pmGpId }.unlock

def removefinishedGp2 (pmGpId : UInt64) (h : PmEventHandler) : PmEventHandler :=
  { h with gp2 := fun i => (h.gp2 i).erase pmGpId }

def releaseGpData (pmGpId : UInt64) (answer : SaAisError) (h : PmEventHandler) :
    Except Fault (ComReturn × PmEventHandler) := do
  let h ← h.lock
  let h := h.removefinishedGp2 pmGpId
  let (found, gp) ← h.gp.releaseGpData pmGpId
  let h := { h with gp := gp }
  match found with
  | some pmData => return (answer.toCom, ((h.dispose pmData).removefinishedGp2 pmGpId).unlock)
  | none => return (.notExist, h.unlock)

def releaseGpData2 (pmGpId : UInt64) (gpName : String) (answer : SaAisError) (h : PmEventHandler) :
    Except Fault (ComReturn × PmEventHandler) := do
  let iGp ← second (gpMap.lookup gpName)
  let h ← h.removefinishedGp pmGpId
  let (found, gp) ← (h.gp2 iGp).releaseGpData pmGpId
  let h := { h with gp2 := Function.update h.gp2 iGp gp }
  match found with
  | some pmData =>
    let h ← (h.dispose pmData).removefinishedGp pmGpId
    return (answer.toCom, h)
  | none => return (.notExist, h)

/-- One turn of the loop over a list of the second interface in `stop`. -/
def stopGp2 (i : GpIndex) (h : PmEventHandler) (pmData : GpRecord) : Except Fault PmEventHandler := do
  let h ←
    if pmData.jobHandler = (h.gp2 i).comCurrentGp.jobHandler then do
      let h ← h.removefinishedGp pmData.jobHandler
      pure ({ h with gp2 := Function.update h.gp2 i (h.gp2 i).clear }.dispose pmData)
    else pure h
  return { h with
    gp2 := Function.update h.gp2 i { h.gp2 i with finishedGps := (h.gp2 i).finishedGps.tail } }

def stopGp (h : PmEventHandler) (pmData : GpRecord) : PmEventHandler :=
  let gp := if pmData.jobHandler = h.gp.comCurrentGp.jobHandler then h.gp.clear else h.gp
  { h with gp := { gp with finishedGps := gp.finishedGps.tail } }.dispose pmData

def stop (h : PmEventHandler) : Except Fault (ComReturn × PmEventHandler) := do
  let h ← h.lock
  let h ← (List.finRange 7).foldlM (fun h i => (h.gp2 i).finishedGps.foldlM (stopGp2 i) h) h
  return (.ok, (h.gp.finishedGps.foldl stopGp h).unlock)

/-! ### What the operations do -/

section
variable {h : PmEventHandler} {pmGpId : UInt64}

theorem lock_eq (hfree : h.locked = false) : h.lock = .ok { h with locked := true } := by
  unfold lock
  rw [hfree]
  rfl

theorem sendPmDataReady_eq {pmCbData : SaPmCCallbackInfo} {i : GpIndex} (hfree : h.locked = false)
    (hindex : pmCbData.gpIndex = some i) (notified : ComReturn) :
    h.sendPmDataReady pmCbData notified = .ok (notified, { h with
      made := h.made + 1
      gp := h.gp.push (h.copy pmCbData)
      gp2 := Function.update h.gp2 i ((h.gp2 i).push (h.copy pmCbData)) }) := by
  obtain ⟨gpName, hname, hlookup⟩ := Option.bind_eq_some_iff.mp hindex
  unfold sendPmDataReady
  rw [lock_eq hfree, hname]
  dsimp only [second, Bind.bind, Except.bind]
  rw [hlookup]
  cases h
  cases hfree
  rfl

theorem sendPmDataReady_unknown {pmCbData : SaPmCCallbackInfo} (hfree : h.locked = false)
    (hindex : pmCbData.gpIndex = none) (notified : ComReturn) :
    h.sendPmDataReady pmCbData notified = .error .endOfMap := by
  unfold SaPmCCallbackInfo.gpIndex at hindex
  unfold sendPmDataReady
  rw [lock_eq hfree]
  cases hname : getGpStartEndTime pmCbData.gpStartTimestamp pmCbData.gpEndTimestamp with
  | none => rfl
  | some gpName =>
    rw [hname] at hindex
    have hlookup : gpMap.lookup gpName = none := hindex
    dsimp only [second, Bind.bind, Except.bind]
    rw [hlookup]

theorem getGpData_eq (hfree : h.locked = false) (answer : Option Nat) :
    h.getGpData pmGpId answer = (h.gp.getGpData pmGpId answer).map fun x => (x.1, { h with gp := x.2 }) := by
  unfold getGpData
  rw [lock_eq hfree]
  cases h
  cases hfree
  dsimp only [Bind.bind, Except.bind]
  cases Slot.getGpData pmGpId answer _ <;> rfl

theorem getGpData2_eq {gpName : String} {i : GpIndex} (hname : gpMap.lookup gpName = some i)
    (answer : Option Nat) :
    h.getGpData2 pmGpId gpName answer = ((h.gp2 i).getGpData pmGpId answer).map fun x =>
      (x.1, { h with gp2 := Function.update h.gp2 i x.2 }) := by
  unfold getGpData2
  rw [hname]
  dsimp only [second, Bind.bind, Except.bind]
  cases Slot.getGpData pmGpId answer _ <;> rfl

theorem removefinishedGp_eq (hfree : h.locked = false) :
    h.removefinishedGp pmGpId = .ok { h with gp := h.gp.erase pmGpId } := by
  unfold removefinishedGp
  rw [lock_eq hfree]
  cases h
  cases hfree
  rfl

theorem removefinishedGp_locked (hheld : h.locked = true) : h.removefinishedGp pmGpId = .error .locked := by
  unfold removefinishedGp lock
  rw [hheld]
  rfl

/-! ### What `stop` does -/

def Unfetched (h : PmEventHandler) (i : GpIndex) : Prop :=
  ∀ r ∈ (h.gp2 i).finishedGps, r.jobHandler ≠ (h.gp2 i).comCurrentGp.jobHandler

instance (h : PmEventHandler) (i : GpIndex) : Decidable (h.Unfetched i) :=
  inferInstanceAs (Decidable (∀ r ∈ _, _))

theorem stopGp2_fold {i : GpIndex} {l : List GpRecord} (hheld : h.locked = true)
    (hlist : (h.gp2 i).finishedGps = l) :
    l.foldlM (stopGp2 i) h =
      if h.Unfetched i then .ok { h with gp2 := Function.update h.gp2 i { h.gp2 i with finishedGps := [] } }
      else .error .locked := by
  induction l generalizing h with
  | nil =>
    have hslot : { h.gp2 i with finishedGps := [] } = h.gp2 i := by rw [← hlist]
    rw [if_pos (by intro r hr; rw [hlist] at hr; cases hr), hslot, Function.update_eq_self]
    rfl
  | cons r l ih =>
    rw [List.foldlM_cons]
    by_cases hr : r.jobHandler = (h.gp2 i).comCurrentGp.jobHandler
    · have hnot : ¬ h.Unfetched i := fun hall => hall r (hlist ▸ List.mem_cons_self) hr
      have hstep : stopGp2 i h r = .error .locked := by
        unfold stopGp2
        rw [if_pos hr, removefinishedGp_locked hheld]
        rfl
      rw [if_neg hnot, hstep]
      rfl
    · have hstep : stopGp2 i h r =
          .ok { h with gp2 := Function.update h.gp2 i { h.gp2 i with finishedGps := l } } := by
        have htail : (h.gp2 i).finishedGps.tail = l := by
          rw [hlist]
          rfl
        unfold stopGp2
        rw [if_neg hr]
        dsimp only [Bind.bind, Except.bind, pure, Except.pure]
        rw [htail]
      rw [hstep]
      dsimp only [Bind.bind, Except.bind]
      rw [ih (by exact hheld) (by simp)]
      have hiff : Unfetched { h with gp2 := Function.update h.gp2 i { h.gp2 i with finishedGps := l } } i ↔
          h.Unfetched i := by
        unfold Unfetched
        rw [hlist, List.forall_mem_cons]
        simp [hr]
      simp only [hiff, Function.update_self, Function.update_idem]

theorem stopGps2_fold {is : List GpIndex} (hnodup : is.Nodup) (hheld : h.locked = true) :
    is.foldlM (fun h i => (h.gp2 i).finishedGps.foldlM (stopGp2 i) h) h =
      if ∀ i ∈ is, h.Unfetched i then
        .ok { h with gp2 := fun i => if i ∈ is then { h.gp2 i with finishedGps := [] } else h.gp2 i }
      else .error .locked := by
  induction is generalizing h with
  | nil => rfl
  | cons i is ih =>
    rw [List.nodup_cons] at hnodup
    rw [List.foldlM_cons, stopGp2_fold hheld rfl]
    by_cases hi : h.Unfetched i
    · rw [if_pos hi]
      dsimp only [Bind.bind, Except.bind]
      rw [ih hnodup.2 (by exact hheld)]
      have hother : ∀ j ∈ is, Function.update h.gp2 i { h.gp2 i with finishedGps := [] } j = h.gp2 j := by
        intro j hj
        have hne : j ≠ i := by
          rintro rfl
          exact hnodup.1 hj
        exact Function.update_of_ne hne _ _
      have hiff : (∀ j ∈ is, Unfetched
          { h with gp2 := Function.update h.gp2 i { h.gp2 i with finishedGps := [] } } j) ↔
            ∀ j ∈ i :: is, h.Unfetched j := by
        rw [List.forall_mem_cons, and_iff_right hi]
        refine forall₂_congr fun j hj => ?_
        unfold Unfetched
        dsimp only at hother ⊢
        rw [hother j hj]
      simp only [hiff]
      congr 3
      funext j
      by_cases hj : j = i
      · subst hj
        simp [hnodup.1]
      · simp [hj]
    · have hnot : ¬ ∀ j ∈ i :: is, h.Unfetched j := fun hall => hi (hall i List.mem_cons_self)
      rw [if_neg hi, if_neg hnot]
      rfl

theorem stopGp_fold {l : List GpRecord} (hlist : h.gp.finishedGps = l) :
    (l.foldl stopGp h).gp.finishedGps = [] ∧ (l.foldl stopGp h).gp2 = h.gp2 ∧
      (l.foldl stopGp h).made = h.made ∧ (l.foldl stopGp h).freed = h.freed ++ l.map (·.address) ∧
      (l.foldl stopGp h).removed = h.removed ++ l.map (·.jobHandler) := by
  induction l generalizing h with
  | nil => exact ⟨hlist, rfl, rfl, by simp, by simp⟩
  | cons r l ih =>
    have hrest : (stopGp h r).gp.finishedGps = l := by
      unfold stopGp
      dsimp only [dispose]
      split
      · unfold Slot.clear
        rw [hlist]
        rfl
      · rw [hlist]
        rfl
    obtain ⟨hgp, hgp2, hmade, hfreed, hremoved⟩ := ih hrest
    rw [List.foldl_cons]
    refine ⟨hgp, hgp2, hmade, ?_, ?_⟩
    · rw [hfreed]
      simp [stopGp, dispose]
    · rw [hremoved]
      simp [stopGp, dispose]

end

end PmEventHandler

end ComSA.PmtSa
