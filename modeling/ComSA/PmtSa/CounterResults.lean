import ComSA.Lib.PartialFold
import ComSA.PmtSa.PmShowCounters

/-!
# The measurements that are shown

What the caller reads of the measurements and what is freed with them, for any result of the PM consumer.
-/

namespace ComSA.PmShowCounters

/-! ## Filling an array -/

section
variable {α μ : Type*} (size : α → Nat) (write : α → Nat → μ → μ)

/-- The first entries of an array written over, one for each element. -/
def overwritten : List α → Nat → List μ → List μ
  | [], _, l => l
  | _ :: _, _, [] => []
  | a :: as, next, m :: l => write a next m :: overwritten as (next + size a) l

theorem foldlM_store (as : List α) (before l : List μ) (next : Nat) :
    as.foldlM (fun s a => Filling.store (size a) (write a) s) ⟨before ++ l, before.length, next⟩ =
      if as.length ≤ l.length then
        some ⟨before ++ overwritten size write as next l, before.length + as.length, next + (as.map size).sum⟩
      else none := by
  induction as generalizing before l next with
  | nil => simp [overwritten]
  | cons a as ih =>
    rw [List.foldlM_cons, Filling.store]
    cases l with
    | nil => simp
    | cons m l =>
      have hroom : before.length < (before ++ m :: l).length := by simp
      have hwritten : (before ++ m :: l).modify before.length (write a next) = (before ++ [write a next m]) ++
        l := by
        rw [List.modify_eq_take_cons_drop hroom]
        simp
      have hindex : before.length + 1 = (before ++ [write a next m]).length := by simp
      rw [if_pos hroom, Option.bind_eq_bind, Option.bind_some]
      dsimp only
      rw [hwritten, hindex, ih]
      simp only [List.length_cons, Nat.add_le_add_iff_right, overwritten, List.append_assoc, List.singleton_append,
        List.length_append, List.length_nil, List.map_cons, List.sum_cons]
      rw [Nat.zero_add, Nat.add_right_comm, Nat.add_assoc next, Nat.add_assoc before.length]

variable {size write}

theorem foldlM_store_nil (as : List α) (l : List μ) (next : Nat) :
    as.foldlM (fun s a => Filling.store (size a) (write a) s) ⟨l, 0, next⟩ =
      if as.length ≤ l.length then
        some ⟨overwritten size write as next l, as.length, next + (as.map size).sum⟩
      else none := by
  have hstore := foldlM_store size write as [] l next
  rw [List.nil_append, List.length_nil, List.nil_append, Nat.zero_add] at hstore
  exact hstore

theorem forall₂_overwritten {R : α → μ → Prop} {as : List α} (hwrite : ∀ a ∈ as, ∀ next m, R a (write a next m))
    {l : List μ} (hl : as.length ≤ l.length) (next : Nat) :
    List.Forall₂ R as ((overwritten size write as next l).take as.length) := by
  induction as generalizing l next with
  | nil => exact List.Forall₂.nil
  | cons a as ih =>
    cases l with
    | nil => cases hl
    | cons m l =>
      rw [List.length_cons, List.length_cons, Nat.add_le_add_iff_right] at hl
      rw [overwritten, List.length_cons, List.take_succ_cons]
      exact .cons (hwrite a List.mem_cons_self next m)
        (ih (fun b hb => hwrite b (List.mem_cons_of_mem a hb)) hl (next + size a))

theorem map_eq_of_forall₂ {β γ : Type*} {f : β → γ} {g : α → γ} {as : List α} {bs : List β}
    (h : List.Forall₂ (fun a b => f b = g a) as bs) : bs.map f = as.map g := by
  induction h with
  | nil => rfl
  | cons hab _ ih => rw [List.map_cons, List.map_cons, hab, ih]

theorem free_overwritten {free : μ → List Nat} {as : List α}
    (hfree : ∀ a ∈ as, ∀ next m, (free (write a next m)).Perm (List.range' next (size a)))
    {l : List μ} (hl : as.length ≤ l.length) (next : Nat) :
    (((overwritten size write as next l).take as.length).flatMap free).Perm
      (List.range' next (as.map size).sum) := by
  induction as generalizing l next with
  | nil => exact List.Perm.refl _
  | cons a as ih =>
    cases l with
    | nil => cases hl
    | cons m l =>
      rw [List.length_cons, List.length_cons, Nat.add_le_add_iff_right] at hl
      rw [overwritten, List.length_cons, List.take_succ_cons, List.flatMap_cons, List.map_cons, List.sum_cons,
        ← List.range'_append_1]
      exact (hfree a List.mem_cons_self next m).append
        (ih (fun b hb => hfree b (List.mem_cons_of_mem a hb)) hl (next + size a))

theorem mem_free_overwritten {free : μ → List Nat} {as : List α} {m : μ} {w : Nat} {a : α} (ha : a ∈ as)
    (hkeep : ∀ next, w ∈ free (write a next m)) {l : List μ} (hl : as.length ≤ l.length) (hnew : ∀ x ∈ l, x = m)
    (next : Nat) : w ∈ ((overwritten size write as next l).take as.length).flatMap free := by
  induction as generalizing l next with
  | nil => cases ha
  | cons b as ih =>
    cases l with
    | nil => cases hl
    | cons x l =>
      rw [List.length_cons, List.length_cons, Nat.add_le_add_iff_right] at hl
      rw [overwritten, List.length_cons, List.take_succ_cons, List.flatMap_cons, List.mem_append]
      rcases List.mem_cons.mp ha with rfl | ha
      · rw [hnew x List.mem_cons_self]
        exact Or.inl (hkeep next)
      · exact Or.inr (ih ha hl (fun y hy => hnew y (List.mem_cons_of_mem x hy)) (next + size b))

theorem not_kept_of_freed {free : μ → List Nat} {as : List α} {m : μ} {a : α} (ha : a ∈ as) {l : List μ}
    (hl : as.length ≤ l.length) (hnew : ∀ x ∈ l, x = m) {next n : Nat}
    (hfreed : (((overwritten size write as (next + 1) l).take as.length).flatMap free ++ [next]).Perm
      (List.range' next (1 + n))) :
    ¬ ∀ next', next + 1 + n ∈ free (write a next' m) := by
  intro hkeep
  have hrange := hfreed.subset (List.mem_append_left _ (mem_free_overwritten ha hkeep hl hnew (next + 1)))
  rw [List.mem_range'_1] at hrange
  omega

end

/-! ## What the caller reads -/

def readValues (value : Pointer (List MeasurementValue)) (valueType : ValueType) (nrOfValues : Nat) :
    List (ValueType × MeasurementValue) :=
  (((value.map Buffer.content).getD []).take nrOfValues).map fun v => (valueType, v)

def Pointer.read (p : Pointer String) : Option String := p.map Buffer.content

def SaPmAggregatedValueInfo.typed (info : SaPmAggregatedValueInfo) : List (ValueType × MeasurementValue) :=
  info.measurementValues.map fun v => (info.valueType, v)

structure Shown_3 where
  name : Option String
  jobId : Option String
  gpInSeconds : BitVec 32
  values : List (ValueType × MeasurementValue)
  errorInformation : Option String

def ComOamSpiPmMeasurement_3.shown (m : ComOamSpiPmMeasurement_3) : Shown_3 :=
  ⟨m.name.read, m.jobId.read, m.gpInSeconds, readValues m.value m.valueType m.nrOfValues, m.errorInformation.read⟩

def ComOamSpiPmMeasuredObject_3.shown (o : ComOamSpiPmMeasuredObject_3) : List Shown_3 :=
  (((o.measurements.map Buffer.content).getD []).take o.nrOfMeasurements).map ComOamSpiPmMeasurement_3.shown

def allJobs (instVal : List SaPmCInstanceValues) : List (String × SaPmCInstanceJobValue) :=
  instVal.flatMap fun iVal => iVal.jobValues.map fun job => (iVal.measurementType, job)

def reports (filter : Option ComOamSpiPmMeasurementFilter_3) (job : SaPmCInstanceJobValue) : Bool :=
  job.valueInfo.values ≠ [] || filter.any fun f => f.isVerbose

def reported (filter : Option ComOamSpiPmMeasurementFilter_3) (instVal : List SaPmCInstanceValues) :
    List (String × SaPmCInstanceJobValue) :=
  (allJobs instVal).filter fun x => reports filter x.2

def showJob (x : String × SaPmCInstanceJobValue) : Shown_3 :=
  ⟨some x.1, some x.2.jobName, gpInSeconds x.2.granularityPeriod, x.2.valueInfo.typed,
    if x.2.valueInfo.values = [] then some noData else none⟩

/-- The measurements are those of the job values that are reported, and releasing them frees what was given out. -/
def Complete (filter : Option ComOamSpiPmMeasurementFilter_3) (instVal : List SaPmCInstanceValues) (next : Nat)
    (r : MafReturn × ComOamSpiPmMeasuredObject_3 × Nat) : Prop :=
  if r.1 = .ok then
    r.2.1.shown = (reported filter instVal).map showJob ∧
      (releaseMeasuredObject r.2.1).1.Perm (List.range' next (r.2.2 - next))
  else
    reported filter instVal = [] ∧ r.2.2 = next

def ShownRight (dn : String) (filter : Option ComOamSpiPmMeasurementFilter_3) (tmpHandle : Nat)
    (instVal : List SaPmCInstanceValues) (memoryFree : SaAisError) : Prop :=
  ∀ new measuredObject next, ∃ r,
    getMeasurementValues dn filter tmpHandle (.ok, some instVal) memoryFree new measuredObject next = some r ∧
      Complete filter instVal next r

/-- Job values without data come with a filter that is not verbose only, the PM consumer takes its result back, and
the numbers do not overflow. -/
structure Showable (filter : Option ComOamSpiPmMeasurementFilter_3) (instVal : List SaPmCInstanceValues)
    (memoryFree : SaAisError) : Prop where
  hasData : ∀ x ∈ allJobs instVal, x.2.valueInfo.values = [] → ∃ f ∈ filter, f.isVerbose = false
  counted : ∀ iVal ∈ instVal, iVal.jobValues.length < 2 ^ 32
  room : (reported filter instVal).length ≤ (allJobs instVal).length % 2 ^ 32
  takenBack : memoryFree = .ok

/-! ## The first interface -/

section
variable {filter : Option ComOamSpiPmMeasurementFilter_3} {instVal : List SaPmCInstanceValues}

def storeJob (s : Filling ComOamSpiPmMeasurement_3) (x : String × SaPmCInstanceJobValue) :
    Option (Filling ComOamSpiPmMeasurement_3) :=
  s.store 3 (writeJob x.1 x.2)

theorem addJob_eq {job : SaPmCInstanceJobValue} (hread : job.valueInfo.values = [] → filter ≠ none)
    (measurementType : String) (s : Filling ComOamSpiPmMeasurement_3) :
    addJob filter measurementType s job =
      if reports filter job then storeJob s (measurementType, job) else some s := by
  unfold addJob reports
  split <;> rename_i hvalues
  · cases filter with
    | none => exact absurd rfl (hread hvalues)
    | some f => simp [hvalues, storeJob]
  · simp [hvalues, storeJob]

theorem addJob_read {measurementType : String} {s t : Filling ComOamSpiPmMeasurement_3}
    {job : SaPmCInstanceJobValue} (hadd : addJob filter measurementType s job = some t) :
    job.valueInfo.values = [] → filter ≠ none := by
  rintro hvalues rfl
  rw [addJob, if_pos hvalues] at hadd
  cases hadd

theorem allJobs_cons (iVal : SaPmCInstanceValues) (instVal : List SaPmCInstanceValues) :
    allJobs (iVal :: instVal) = (iVal.jobValues.map fun job => (iVal.measurementType, job)) ++ allJobs
      instVal := rfl

theorem length_allJobs : (allJobs instVal).length = (instVal.map fun iVal => iVal.jobValues.length).sum := by
  simp [allJobs, List.length_flatMap]

theorem foldlM_addInstanceValue (hcounted : ∀ iVal ∈ instVal, iVal.jobValues.length < 2 ^ 32)
    (hread : ∀ x ∈ allJobs instVal, x.2.valueInfo.values = [] → filter ≠ none)
    (s : Filling ComOamSpiPmMeasurement_3) :
    instVal.foldlM (addInstanceValue filter) s = (reported filter instVal).foldlM storeJob s := by
  unfold reported
  rw [List.foldlM_filter]
  induction instVal generalizing s with
  | nil => rfl
  | cons iVal instVal ih =>
    obtain ⟨hlength, hcounted⟩ := List.forall_mem_cons.mp hcounted
    rw [allJobs_cons] at hread ⊢
    have hone : addInstanceValue filter s iVal =
        (iVal.jobValues.map fun job => (iVal.measurementType, job)).foldlM
          (fun s x => if reports filter x.2 then storeJob s x else pure s) s := by
      unfold addInstanceValue counted
      rw [if_pos hlength, Option.bind_eq_bind, Option.bind_some, List.foldlM_map]
      exact foldlM_congr (fun job hjob s => addJob_eq
        (hread _ (List.mem_append_left _ (List.mem_map_of_mem hjob))) iVal.measurementType s) s
    rw [List.foldlM_cons, List.foldlM_append, hone]
    exact congrArg _ (funext fun t => ih hcounted (fun x hx => hread x (List.mem_append_right _ hx)) t)

theorem foldlM_addInstanceValue_some {s t : Filling ComOamSpiPmMeasurement_3}
    (hfold : instVal.foldlM (addInstanceValue filter) s = some t) :
    (∀ iVal ∈ instVal, iVal.jobValues.length < 2 ^ 32) ∧
      ∀ x ∈ allJobs instVal, x.2.valueInfo.values = [] → filter ≠ none := by
  have hsteps {iVal : SaPmCInstanceValues} (hiVal : iVal ∈ instVal) : iVal.jobValues.length < 2 ^ 32 ∧
      ∃ s t, iVal.jobValues.foldlM (addJob filter iVal.measurementType) s = some t := by
    obtain ⟨s, t, hstep⟩ := exists_step_of_foldlM hiVal hfold
    obtain ⟨n, hcounted, hjobs⟩ := Option.bind_eq_some_iff.mp hstep
    refine ⟨?_, s, t, hjobs⟩
    by_contra hlong
    rw [counted, if_neg hlong] at hcounted
    cases hcounted
  refine ⟨fun iVal hiVal => (hsteps hiVal).1, fun x hx => ?_⟩
  obtain ⟨iVal, hiVal, hx⟩ := List.mem_flatMap.mp hx
  obtain ⟨job, hjob, rfl⟩ := List.mem_map.mp hx
  obtain ⟨-, s, t, hjobs⟩ := hsteps hiVal
  obtain ⟨s, t, hadd⟩ := exists_step_of_foldlM hjob hjobs
  exact addJob_read hadd

theorem shown_writeJob (x : String × SaPmCInstanceJobValue) (next : Nat) (m : ComOamSpiPmMeasurement_3) :
    (writeJob x.1 x.2 next m).shown = showJob x := by
  unfold writeJob showJob ComOamSpiPmMeasurement_3.shown readValues
  dsimp only
  split <;> rename_i hvalues
  · simp [hvalues, Pointer.read, SaPmAggregatedValueInfo.typed, SaPmAggregatedValueInfo.measurementValues]
  · have hlength : x.2.valueInfo.values.length = x.2.valueInfo.measurementValues.length := (List.length_map _).symm
    rw [hlength, Option.map_some, Option.getD_some, List.take_length]
    rfl

theorem free_writeJob {x : String × SaPmCInstanceJobValue} (hvalues : x.2.valueInfo.values ≠ []) (next : Nat)
    (m : ComOamSpiPmMeasurement_3) : (writeJob x.1 x.2 next m).free.Perm (List.range' next 3) := by
  rw [writeJob, if_neg hvalues]
  exact (List.reverse_perm [next, next + 1, next + 2])

theorem mem_free_writeJob {x : String × SaPmCInstanceJobValue} (hvalues : x.2.valueInfo.values = []) (next : Nat)
    {m : ComOamSpiPmMeasurement_3} {w : Buffer (List MeasurementValue)} (hw : m.value = some w) :
    w.address ∈ (writeJob x.1 x.2 next m).free := by
  rw [writeJob, if_pos hvalues, ComOamSpiPmMeasurement_3.free]
  simp [hw, Pointer.address]

theorem getMeasurementValues_eq {dn : String} (hdn : dn ≠ "") {tmpHandle : Nat} (hhandle : tmpHandle ≠ 0)
    (memoryFree : SaAisError) (new : Nat → ComOamSpiPmMeasurement_3) (measuredObject : ComOamSpiPmMeasuredObject_3)
    (next : Nat) :
    getMeasurementValues dn filter tmpHandle (.ok, some instVal) memoryFree new measuredObject next =
      if instVal.length < 2 ^ 32 then
        if (allJobs instVal).length % 2 ^ 32 = 0 then some (.notExist, measuredObject, next)
        else (instVal.foldlM (addInstanceValue filter)
          ⟨(List.range ((allJobs instVal).length % 2 ^ 32)).map new, 0, next + 1⟩).map fun s =>
            if memoryFree = .ok then (.ok, ⟨some ⟨next, s.measurements⟩, s.jobs, true⟩, s.next)
            else (.failure, ⟨some ⟨next, s.measurements⟩, s.jobs, measuredObject.release⟩, s.next)
      else none := by
  have hnone : instVal.length = 0 → (allJobs instVal).length % 2 ^ 32 = 0 := by
    intro hlength
    rw [List.length_eq_zero_iff.mp hlength]
    rfl
  unfold getMeasurementValues counted
  rw [if_neg hdn, if_neg hhandle]
  dsimp only
  rw [← length_allJobs]
  split
  · simp only [Option.bind_eq_bind, Option.bind_some, or_iff_right_of_imp hnone]
    split
    · rfl
    · cases instVal.foldlM (addInstanceValue filter) _ with
      | none => rfl
      | some s => by_cases hfree : memoryFree = .ok <;> simp [hfree]
  · rfl

theorem foldlM_storeJob (l : List ComOamSpiPmMeasurement_3) (next : Nat)
    (xs : List (String × SaPmCInstanceJobValue)) :
    xs.foldlM storeJob ⟨l, 0, next⟩ =
      if xs.length ≤ l.length then
        some ⟨overwritten (fun _ => 3) (fun x => writeJob x.1 x.2) xs next l, xs.length,
          next + (xs.map fun _ => 3).sum⟩
      else none :=
  foldlM_store_nil xs l next

variable {memoryFree : SaAisError}

theorem complete_of_showable (hshow : Showable filter instVal memoryFree) (l : List ComOamSpiPmMeasurement_3)
    (hl : (reported filter instVal).length ≤ l.length) (next : Nat) :
    Complete filter instVal next (.ok, ⟨some ⟨next, overwritten (fun _ => 3) (fun x => writeJob x.1 x.2)
      (reported filter instVal) (next + 1) l⟩, (reported filter instVal).length, true⟩,
        next + 1 + ((reported filter instVal).map fun _ => 3).sum) := by
  have hvalues : ∀ x ∈ reported filter instVal, x.2.valueInfo.values ≠ [] := by
    intro x hx hnil
    obtain ⟨hall, hreports⟩ := List.mem_filter.mp hx
    obtain ⟨f, rfl, hquiet⟩ := hshow.hasData x hall hnil
    simp [reports, hnil, hquiet] at hreports
  rw [Complete, if_pos rfl]
  constructor
  · have hforall : List.Forall₂ (fun x m => ComOamSpiPmMeasurement_3.shown m = showJob x) (reported filter instVal)
        ((overwritten (fun _ => 3) (fun x => writeJob x.1 x.2) (reported filter instVal) (next + 1) l).take
          (reported filter instVal).length) :=
      forall₂_overwritten (fun x _ next m => shown_writeJob x next m) hl (next + 1)
    exact map_eq_of_forall₂ hforall
  · rw [releaseMeasuredObject, if_pos rfl, Nat.add_assoc, Nat.add_sub_cancel_left, Nat.add_comm 1,
      List.range'_succ]
    refine (List.perm_append_comm).trans (List.Perm.cons next ?_)
    exact free_overwritten (fun x hx next m => free_writeJob (hvalues x hx) next m) hl (next + 1)

/-- An entry of new memory whose pointer to values points to somewhere. -/
def wild (address : Nat) : ComOamSpiPmMeasurement_3 := ⟨none, none, some ⟨address, []⟩, .int, 0, none, 0⟩

theorem hasData_of_complete {l : List ComOamSpiPmMeasurement_3} (next : Nat)
    (hl : (reported filter instVal).length ≤ l.length)
    (hnew : ∀ m ∈ l, m = wild (next + 1 + ((reported filter instVal).map fun _ => 3).sum))
    (hfreed : (releaseMeasuredObject ⟨some ⟨next, overwritten (fun _ => 3) (fun x => writeJob x.1 x.2)
      (reported filter instVal) (next + 1) l⟩, (reported filter instVal).length, true⟩).1.Perm
        (List.range' next (1 + ((reported filter instVal).map fun _ => 3).sum))) :
    ∀ x ∈ reported filter instVal, x.2.valueInfo.values ≠ [] := by
  intro x hx hnil
  refine not_kept_of_freed hx hl hnew hfreed fun next' => ?_
  exact mem_free_writeJob hnil next' (w := ⟨_, []⟩) rfl

/-- The arrays are as long as there are job values, modulo the numbers. -/
theorem length_new (instVal : List SaPmCInstanceValues) (new : Nat → ComOamSpiPmMeasurement_3) :
    ((List.range ((allJobs instVal).length % 2 ^ 32)).map new).length = (allJobs instVal).length % 2 ^ 32 := by
  rw [List.length_map, List.length_range]

theorem showable_of_complete {s : Filling ComOamSpiPmMeasurement_3}
    (hfold : instVal.foldlM (addInstanceValue filter) ⟨(List.range ((allJobs instVal).length % 2 ^ 32)).map fun _ =>
      wild (0 + 1 + ((reported filter instVal).map fun _ => 3).sum), 0, 0 + 1⟩ = some s)
    {measuredObject : ComOamSpiPmMeasuredObject_3} (hcomplete : Complete filter instVal 0
      (if memoryFree = .ok then (.ok, ⟨some ⟨0, s.measurements⟩, s.jobs, true⟩, s.next)
      else (.failure, ⟨some ⟨0, s.measurements⟩, s.jobs, measuredObject.release⟩, s.next))) :
    Showable filter instVal memoryFree := by
  obtain ⟨hcounted, hread⟩ := foldlM_addInstanceValue_some hfold
  rw [foldlM_addInstanceValue hcounted hread, foldlM_storeJob] at hfold
  split at hfold <;> rename_i hroom
  · obtain rfl := Option.some.inj hfold
    by_cases hfree : memoryFree = .ok
    · rw [if_pos hfree, Complete, if_pos rfl] at hcomplete
      dsimp only at hcomplete
      rw [Nat.zero_add, Nat.sub_zero] at hcomplete
      have hvalues := hasData_of_complete 0 hroom (fun m hm => by
        obtain ⟨_, -, rfl⟩ := List.mem_map.mp hm
        rfl) hcomplete.2
      rw [length_new] at hroom
      refine ⟨fun x hx hnil => ?_, hcounted, hroom, hfree⟩
      obtain ⟨f, rfl⟩ := Option.ne_none_iff_exists'.mp (hread x hx hnil)
      refine ⟨f, rfl, ?_⟩
      by_contra hverbose
      rw [Bool.not_eq_false] at hverbose
      exact hvalues x (List.mem_filter.mpr ⟨hx, by simp [reports, hverbose]⟩) hnil
    · rw [if_neg hfree, Complete, if_neg (by simp)] at hcomplete
      simp at hcomplete
  · cases hfold

theorem foldlM_of_showable (hshow : Showable filter instVal memoryFree) (new : Nat → ComOamSpiPmMeasurement_3)
    (next : Nat) :
    instVal.foldlM (addInstanceValue filter) ⟨(List.range ((allJobs instVal).length % 2 ^ 32)).map new, 0, next⟩ =
      some ⟨overwritten (fun _ => 3) (fun x => writeJob x.1 x.2) (reported filter instVal) next
        ((List.range ((allJobs instVal).length % 2 ^ 32)).map new), (reported filter instVal).length,
          next + ((reported filter instVal).map fun _ => 3).sum⟩ := by
  have hread : ∀ x ∈ allJobs instVal, x.2.valueInfo.values = [] → filter ≠ none := by
    rintro x hx hnil rfl
    obtain ⟨f, hf, -⟩ := hshow.hasData x hx hnil
    cases hf
  rw [foldlM_addInstanceValue hshow.counted hread, foldlM_storeJob, length_new, if_pos hshow.room]

theorem shownRight_iff {dn : String} (hdn : dn ≠ "") {tmpHandle : Nat} (hhandle : tmpHandle ≠ 0) :
    ShownRight dn filter tmpHandle instVal memoryFree ↔ instVal.length < 2 ^ 32 ∧
      ((allJobs instVal).length % 2 ^ 32 = 0 ∧ reported filter instVal = [] ∨
        Showable filter instVal memoryFree) := by
  unfold ShownRight
  simp only [getMeasurementValues_eq hdn hhandle]
  by_cases hlength : instVal.length < 2 ^ 32
  · rw [and_iff_right hlength]
    simp only [if_pos hlength]
    by_cases hjobs : (allJobs instVal).length % 2 ^ 32 = 0
    · have hroom (hshow : Showable filter instVal memoryFree) : reported filter instVal = [] := by
        have := hshow.room
        rw [hjobs, Nat.le_zero, List.length_eq_zero_iff] at this
        exact this
      have hcomplete (measuredObject : ComOamSpiPmMeasuredObject_3) (next : Nat) :
          Complete filter instVal next (.notExist, measuredObject, next) ↔ reported filter instVal = [] := by
        rw [Complete, if_neg (by simp)]
        exact and_iff_left rfl
      simp only [if_pos hjobs, Option.some_inj, exists_eq_left', hcomplete]
      exact ⟨fun h => .inl ⟨hjobs, h (fun _ => wild 0) ⟨none, 0, false⟩ 0⟩, fun h _ _ _ => h.elim And.right hroom⟩
    · simp only [if_neg hjobs]
      rw [or_iff_right fun h => hjobs h.1]
      constructor
      · intro hright
        obtain ⟨r, hr, hcomplete⟩ := hright
          (fun _ => wild (0 + 1 + ((reported filter instVal).map fun _ => 3).sum)) ⟨none, 0, false⟩ 0
        obtain ⟨s, hfold, rfl⟩ := Option.map_eq_some_iff.mp hr
        exact showable_of_complete hfold hcomplete
      · intro hshow new measuredObject next
        rw [foldlM_of_showable hshow, Option.map_some, if_pos hshow.takenBack]
        refine ⟨_, rfl, complete_of_showable hshow _ ?_ next⟩
        rw [length_new]
        exact hshow.room
  · refine iff_of_false (fun hright => ?_) fun h => hlength h.1
    obtain ⟨r, hr, -⟩ := hright (fun _ => wild 0) ⟨none, 0, false⟩ 0
    rw [if_neg hlength] at hr
    cases hr

end

/-! ## The second interface -/

structure ComOamSpiPmMeasurement_4.Shows (m : ComOamSpiPmMeasurement_4) (instanceValue : SaPmCInstanceValues_2) :
    Prop where
  measurementTypeName : m.measurementTypeName.read = some instanceValue.measurementType
  measuredObject : m.measuredObject.read = some instanceValue.inst
  jobId : m.jobId.read = none
  groupId : m.groupId.read = some instanceValue.pmGroup
  gpInSeconds : m.gpInSeconds = 0
  values : readValues m.value m.valueType m.nrOfValues = instanceValue.valueInfo.typed
  marked : m.errorInformation ≠ none → instanceValue.valueInfo.values = []

/-- One measurement for each instance value, and releasing them frees what was given out. -/
def Complete_2 (instanceValues : List SaPmCInstanceValues_2) (next : Nat)
    (r : MafReturn × ComOamSpiPmMeasuredObjectMeasurements_4 × Nat) : Prop :=
  r.1 = .ok ∧
    List.Forall₂ (fun v m => ComOamSpiPmMeasurement_4.Shows m v) instanceValues
      (((r.2.1.measurements.map Buffer.content).getD []).take r.2.1.nrOfMeasurements) ∧
    if r.2.1.release then (releaseMeasuredObjectMeasurements r.2.1).1.Perm (List.range' next (r.2.2 - next))
    else r.2.2 = next

def ShownRight_2 (isVerbose : Bool) (pmHandle : Nat) (instanceValues : Option (List SaPmCInstanceValues_2))
    (measuredObjectMeasurements : ComOamSpiPmMeasuredObjectMeasurements_4) : Prop :=
  ∀ requestId new next, ∃ r,
    getMeasurementValues_2 isVerbose pmHandle (.ok, requestId, instanceValues) new measuredObjectMeasurements next
        = some r ∧
      Complete_2 (instanceValues.getD []) next r

/-- Each instance value has values and none is asked to be marked; an empty array finds no measurements in the
container. -/
structure Showable_2 (isVerbose : Bool) (instanceValues : List SaPmCInstanceValues_2)
    (measuredObjectMeasurements : ComOamSpiPmMeasuredObjectMeasurements_4) : Prop where
  counted : instanceValues.length < 2 ^ 32
  hasData : ∀ v ∈ instanceValues, v.valueInfo.values ≠ []
  quiet : isVerbose = true → instanceValues = []
  empty : instanceValues = [] → measuredObjectMeasurements.measurements = none

section
variable {isVerbose : Bool} {instanceValues : List SaPmCInstanceValues_2} {v : SaPmCInstanceValues_2}

theorem shows_writeInstance (hvalues : v.valueInfo.values ≠ []) (next : Nat) (m : ComOamSpiPmMeasurement_4) :
    (writeInstance false v next m).Shows v := by
  have hlength : v.valueInfo.values.length = v.valueInfo.measurementValues.length := (List.length_map _).symm
  unfold writeInstance
  dsimp only
  rw [if_neg hvalues]
  refine ⟨rfl, rfl, rfl, rfl, rfl, ?_, fun hmarked => absurd rfl hmarked⟩
  rw [readValues, hlength, Option.map_some, Option.getD_some, List.take_length]
  rfl

theorem free_writeInstance (hvalues : v.valueInfo.values ≠ []) (next : Nat) (m : ComOamSpiPmMeasurement_4) :
    (writeInstance false v next m).free.Perm (List.range' next (buffers false v)) := by
  have hbuffers : buffers false v = 4 := by simp [buffers, hvalues]
  unfold writeInstance
  dsimp only
  rw [hbuffers, if_neg hvalues]
  exact List.Perm.refl [next, next + 1, next + 2, next + 3]

theorem mem_free_writeInstance (hvalues : v.valueInfo.values = []) (next : Nat) {m : ComOamSpiPmMeasurement_4}
    {w : Buffer (List MeasurementValue)} (hw : m.value = some w) :
    w.address ∈ (writeInstance isVerbose v next m).free := by
  unfold writeInstance ComOamSpiPmMeasurement_4.free
  dsimp only
  rw [if_pos hvalues]
  simp [hw, Pointer.address]

theorem foldlM_addInstance (l : List ComOamSpiPmMeasurement_4) (next : Nat) (vs : List SaPmCInstanceValues_2) :
    vs.foldlM (addInstance isVerbose) ⟨l, 0, next⟩ =
      if vs.length ≤ l.length then
        some ⟨overwritten (buffers isVerbose) (writeInstance isVerbose) vs next l, vs.length,
          next + (vs.map (buffers isVerbose)).sum⟩
      else none :=
  foldlM_store_nil vs l next

theorem getMeasurementValues_2_eq {pmHandle : Nat} (hhandle : pmHandle ≠ 0) (hne : instanceValues ≠ [])
    (requestId : Nat) (new : Nat → ComOamSpiPmMeasurement_4)
    (measuredObjectMeasurements : ComOamSpiPmMeasuredObjectMeasurements_4) (next : Nat) :
    getMeasurementValues_2 isVerbose pmHandle (.ok, requestId, some instanceValues) new measuredObjectMeasurements
        next =
      if instanceValues.length < 2 ^ 32 then
        some (.ok, ⟨some ⟨next, overwritten (buffers isVerbose) (writeInstance isVerbose) instanceValues (next + 1)
          ((List.range instanceValues.length).map new)⟩, instanceValues.length, true⟩,
            next + 1 + (instanceValues.map (buffers isVerbose)).sum)
      else none := by
  have hlength : instanceValues.length ≠ 0 := fun h => hne (List.length_eq_zero_iff.mp h)
  have hroom : instanceValues.length ≤ ((List.range instanceValues.length).map new).length := by simp
  unfold getMeasurementValues_2 counted
  rw [if_neg hhandle]
  dsimp only
  split
  · rw [Option.bind_eq_bind, Option.bind_some, if_neg hlength, foldlM_addInstance, if_pos hroom]
    rfl
  · rfl

theorem getMeasurementValues_2_nil {pmHandle : Nat} (hhandle : pmHandle ≠ 0) (requestId : Nat)
    (new : Nat → ComOamSpiPmMeasurement_4)
    (measuredObjectMeasurements : ComOamSpiPmMeasuredObjectMeasurements_4) (next : Nat) :
    getMeasurementValues_2 isVerbose pmHandle (.ok, requestId, some []) new measuredObjectMeasurements next =
      some (.ok, { measuredObjectMeasurements with nrOfMeasurements := 0, release := true }, next) := by
  unfold getMeasurementValues_2
  rw [if_neg hhandle]
  rfl

theorem complete_2_nil_iff {measuredObjectMeasurements : ComOamSpiPmMeasuredObjectMeasurements_4} {next : Nat} :
    Complete_2 [] next (.ok, { measuredObjectMeasurements with nrOfMeasurements := 0, release := true }, next) ↔
      measuredObjectMeasurements.measurements = none := by
  unfold Complete_2 releaseMeasuredObjectMeasurements
  dsimp only
  rw [List.take_zero, if_pos rfl, Nat.sub_self]
  cases measuredObjectMeasurements.measurements with
  | none => exact iff_of_true ⟨rfl, .nil, List.Perm.refl _⟩ rfl
  | some b =>
    refine iff_of_false (fun h => ?_) (Option.some_ne_none b)
    exact List.cons_ne_nil _ _ (List.perm_nil.mp h.2.2)

theorem complete_2_of_showable {l : List ComOamSpiPmMeasurement_4}
    (hvalues : ∀ v ∈ instanceValues, v.valueInfo.values ≠ []) (hl : instanceValues.length ≤ l.length) (next : Nat) :
    Complete_2 instanceValues next (.ok, ⟨some ⟨next, overwritten (buffers false) (writeInstance false)
      instanceValues (next + 1) l⟩, instanceValues.length, true⟩,
        next + 1 + (instanceValues.map (buffers false)).sum) := by
  refine ⟨rfl, ?_, ?_⟩
  · exact forall₂_overwritten (fun v hv next m => shows_writeInstance (hvalues v hv) next m) hl (next + 1)
  · rw [if_pos rfl, Nat.add_assoc, Nat.add_sub_cancel_left, Nat.add_comm 1, List.range'_succ]
    refine (List.perm_append_comm).trans (List.Perm.cons next ?_)
    exact free_overwritten (fun v hv next m => free_writeInstance (hvalues v hv) next m) hl (next + 1)

def wild_2 (address : Nat) : ComOamSpiPmMeasurement_4 :=
  ⟨none, none, none, none, some ⟨address, []⟩, .int, 0, none, 0⟩

theorem showable_2_of_complete {l : List ComOamSpiPmMeasurement_4} {next : Nat}
    (hl : instanceValues.length ≤ l.length)
    (hnew : ∀ m ∈ l, m = wild_2 (next + 1 + (instanceValues.map (buffers isVerbose)).sum))
    (hcomplete : Complete_2 instanceValues next (.ok, ⟨some ⟨next, overwritten (buffers isVerbose)
      (writeInstance isVerbose) instanceValues (next + 1) l⟩, instanceValues.length, true⟩,
        next + 1 + (instanceValues.map (buffers isVerbose)).sum)) :
    (∀ v ∈ instanceValues, v.valueInfo.values ≠ []) ∧ (isVerbose = true → instanceValues = []) := by
  obtain ⟨-, hshows, hfreed⟩ := hcomplete
  have hvalues : ∀ v ∈ instanceValues, v.valueInfo.values ≠ [] := by
    intro v hv hnil
    rw [if_pos rfl, Nat.add_assoc, Nat.add_sub_cancel_left] at hfreed
    refine not_kept_of_freed hv hl hnew hfreed fun next' => ?_
    exact mem_free_writeInstance hnil next' (w := ⟨_, []⟩) rfl
  refine ⟨hvalues, ?_⟩
  rintro rfl
  cases instanceValues with
  | nil => rfl
  | cons v vs =>
    cases l with
    | nil => cases hl
    | cons m l =>
      rw [Option.map_some, Option.getD_some, overwritten, List.length_cons, List.take_succ_cons] at hshows
      obtain ⟨hshow, -⟩ := List.forall₂_cons.mp hshows
      refine absurd (hshow.marked ?_) (hvalues v List.mem_cons_self)
      unfold writeInstance
      exact Option.some_ne_none _

theorem shownRight_2_iff {pmHandle : Nat} (hhandle : pmHandle ≠ 0)
    (measuredObjectMeasurements : ComOamSpiPmMeasuredObjectMeasurements_4) :
    ShownRight_2 isVerbose pmHandle (some instanceValues) measuredObjectMeasurements ↔
      Showable_2 isVerbose instanceValues measuredObjectMeasurements := by
  unfold ShownRight_2
  rw [Option.getD_some]
  by_cases hne : instanceValues = []
  · subst hne
    simp only [getMeasurementValues_2_nil hhandle, Option.some_inj, exists_eq_left', complete_2_nil_iff]
    exact ⟨fun h => ⟨by simp, nofun, fun _ => rfl, fun _ => h 0 (fun _ => wild_2 0) 0⟩, fun h _ _ _ => h.empty rfl⟩
  · simp only [getMeasurementValues_2_eq hhandle hne]
    have hroom (new : Nat → ComOamSpiPmMeasurement_4) :
        instanceValues.length ≤ ((List.range instanceValues.length).map new).length := by simp
    constructor
    · intro hright
      obtain ⟨r, hr, hcomplete⟩ := hright 0
        (fun _ => wild_2 (0 + 1 + (instanceValues.map (buffers isVerbose)).sum)) 0
      split at hr <;> rename_i hlength
      · obtain rfl := Option.some.inj hr
        obtain ⟨hvalues, hquiet⟩ := showable_2_of_complete (hroom _) (fun m hm => by
          obtain ⟨_, -, rfl⟩ := List.mem_map.mp hm
          rfl) hcomplete
        exact ⟨hlength, hvalues, hquiet, fun hnil => absurd hnil hne⟩
      · cases hr
    · intro hshow requestId new next
      obtain rfl : isVerbose = false := Bool.eq_false_iff.mpr fun hverbose => hne (hshow.quiet hverbose)
      rw [if_pos hshow.counted]
      exact ⟨_, rfl, complete_2_of_showable hshow.hasData (hroom new) next⟩

theorem shownRight_2_none {pmHandle : Nat} (hhandle : pmHandle ≠ 0)
    (measuredObjectMeasurements : ComOamSpiPmMeasuredObjectMeasurements_4) :
    ShownRight_2 isVerbose pmHandle none measuredObjectMeasurements := by
  intro requestId new next
  refine ⟨(.ok, { measuredObjectMeasurements with nrOfMeasurements := 0, release := false }, next), ?_, rfl,
    ?_, rfl⟩
  · unfold getMeasurementValues_2
    rw [if_neg hhandle]
  · rw [List.take_zero]
    exact .nil

end

/-- Both interfaces show all that the PM consumer answers, and release it, exactly where it can be shown. -/
theorem counterResults_iff (dn : String) (hdn : dn ≠ "") (handle : Nat) (hhandle : handle ≠ 0) :
    (∀ filter instVal memoryFree, ShownRight dn filter handle instVal memoryFree ↔ instVal.length < 2 ^ 32 ∧
      ((allJobs instVal).length % 2 ^ 32 = 0 ∧ reported filter instVal = [] ∨
        Showable filter instVal memoryFree)) ∧
      ∀ isVerbose instanceValues measuredObjectMeasurements,
        ShownRight_2 isVerbose handle instanceValues measuredObjectMeasurements ↔
          ∀ values ∈ instanceValues, Showable_2 isVerbose values measuredObjectMeasurements := by
  refine ⟨fun filter instVal memoryFree => shownRight_iff hdn hhandle, fun isVerbose instanceValues o => ?_⟩
  cases instanceValues with
  | none => exact iff_of_true (shownRight_2_none hhandle o) nofun
  | some values =>
    rw [shownRight_2_iff hhandle]
    simp

def someValue : SaPmAggregatedValueInfo := ⟨false, false, [7]⟩

theorem counterResults_iff_one :
    (ShownRight "RootX=1" none 1 [⟨"MT1", [⟨"job1", 60000000000, someValue⟩]⟩] .ok ∧
      ShownRight_2 false 1 (some [⟨"MT1", "inst", "group", someValue⟩]) ⟨none, 0, false⟩) ∧
      (∀ filter instVal memoryFree, ShownRight "RootX=1" filter 1 instVal memoryFree ↔ instVal.length < 2 ^ 32 ∧
        ((allJobs instVal).length % 2 ^ 32 = 0 ∧ reported filter instVal = [] ∨
          Showable filter instVal memoryFree)) ∧
        ∀ isVerbose instanceValues measuredObjectMeasurements,
          ShownRight_2 isVerbose 1 instanceValues measuredObjectMeasurements ↔
            ∀ values ∈ instanceValues, Showable_2 isVerbose values measuredObjectMeasurements := by
  obtain ⟨h, h₂⟩ := counterResults_iff "RootX=1" (by decide) 1 (by decide)
  refine ⟨⟨?_, ?_⟩, h, h₂⟩
  · exact (h _ _ _).mpr ⟨by decide, Or.inr ⟨by decide, by decide, by decide, rfl⟩⟩
  · exact (h₂ _ _ _).mpr fun values hvalues => by
      obtain rfl := Option.some.inj hvalues
      exact ⟨by decide, by decide, nofun, fun _ => rfl⟩

/-- A job value without data where no filter is given, one with a verbose filter, and an instance value that has
values but is asked for verbosely. -/
theorem not_counterResults :
    ¬ ShownRight "RootX=1" none 1 [⟨"MT1", [⟨"job1", 60000000000, ⟨false, false, []⟩⟩]⟩] .ok ∧
      ¬ ShownRight "RootX=1" (some ⟨true⟩) 1 [⟨"MT1", [⟨"job1", 60000000000, ⟨false, false, []⟩⟩]⟩] .ok ∧
      ¬ ShownRight_2 true 1 (some [⟨"MT1", "inst", "group", someValue⟩]) ⟨none, 0, false⟩ := by
  have hdn : "RootX=1" ≠ "" := by decide
  refine ⟨fun hright => ?_, fun hright => ?_, fun hright => ?_⟩
  · obtain ⟨-, ⟨hjobs, -⟩ | hshow⟩ := (shownRight_iff hdn Nat.one_ne_zero).mp hright
    · exact absurd hjobs (by decide)
    · obtain ⟨f, hf, -⟩ := hshow.hasData ("MT1", ⟨"job1", 60000000000, ⟨false, false, []⟩⟩) (by decide) rfl
      cases hf
  · obtain ⟨-, ⟨hjobs, -⟩ | hshow⟩ := (shownRight_iff hdn Nat.one_ne_zero).mp hright
    · exact absurd hjobs (by decide)
    · obtain ⟨f, hf, hquiet⟩ := hshow.hasData ("MT1", ⟨"job1", 60000000000, ⟨false, false, []⟩⟩) (by decide) rfl
      obtain rfl := Option.some.inj hf
      cases hquiet
  · have hempty := ((shownRight_2_iff Nat.one_ne_zero _).mp hright).quiet rfl
    cases hempty

end ComSA.PmShowCounters
