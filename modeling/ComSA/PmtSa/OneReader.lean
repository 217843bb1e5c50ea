import ComSA.PmtSa.PmConsumer

/-!
# The nested readers as one

What the three readers make of the rest of the answers depends on nothing but the reader that asks next. Here is one
function along the answers that says it, with what belongs to the open instance and to the open class apart from the
classes behind them.
-/

namespace ComSA.PmConsumer

inductive Level where
  | classes
  | instances
  | values
  deriving DecidableEq, Repr

structure Rest where
  values : List ComOamSpiPmAggregatedValue_2
  instances : List ComOamSpiPmInstance_2
  classes : List ComOamSpiPmMeasObjClass_2
  suspect : Bool
  deriving DecidableEq, Repr

namespace Rest

def nothing (suspect : Bool) : Rest := ⟨[], [], [], suspect⟩

def mark (r : Rest) : Rest := { r with suspect := true }

def addValue (v : ComOamSpiPmAggregatedValue_2) (r : Rest) : Rest := { r with values := v :: r.values }

def addInstance (name : String) (r : Rest) : Rest :=
  { r with values := [], instances := ⟨name, r.values⟩ :: r.instances }

def addClass (name : String) (r : Rest) : Rest :=
  { r with instances := [], classes := ⟨name, r.instances⟩ :: r.classes }

end Rest

/-- From the level where the reading is; no result is a failed assertion. -/
def restOf (ended : Failure) : Level → List Answer → Option Rest
  | .classes, [] => some (.nothing (ended ≠ .errNotExist))
  | _, [] => some (.nothing true)
  | .classes, .error e :: _ => some (.nothing (e ≠ .errNotExist))
  | .instances, .error _ :: s => (restOf ended .classes s).map Rest.mark
  | .values, .error _ :: s => (restOf ended .instances s).map Rest.mark
  | .classes, .ok info :: s =>
    if info.objectType = .moClass then (restOf ended .instances s).map (Rest.addClass info.nodeName) else none
  | .instances, .ok info :: s =>
    if info.objectType = .ldn then
      (restOf ended .values s).map (Rest.addInstance info.nodeName)
    else
      restOf ended .classes s
  | .values, .ok info :: s =>
    if info.objectType = .value then
      (restOf ended .values s).map (Rest.addValue (aggregatedValue info))
    else
      restOf ended .instances s

/-! ## The loops come to an end and agree with it -/

variable {ended : Failure} {s : List Answer} {fuel : Nat}

theorem restOf_values_nil (level : Level) (hlevel : level ≠ .values) :
    ∀ r, restOf ended level s = some r → r.values = [] := by
  fun_induction restOf ended level s with
  | case1 => rintro _ ⟨⟩; rfl
  | case2 => rintro _ ⟨⟩; rfl
  | case3 => rintro _ ⟨⟩; rfl
  | case4 e s ih =>
    intro r hr
    obtain ⟨r', hr', rfl⟩ := Option.map_eq_some_iff.mp hr
    exact ih (by simp) r' hr'
  | case5 => simp at hlevel
  | case6 info s hinfo ih =>
    intro r hr
    obtain ⟨r', hr', rfl⟩ := Option.map_eq_some_iff.mp hr
    exact ih (by simp) r' hr'
  | case7 => rintro _ ⟨⟩
  | case8 info s hinfo ih =>
    intro r hr
    obtain ⟨r', hr', rfl⟩ := Option.map_eq_some_iff.mp hr
    rfl
  | case9 info s hinfo ih => exact ih (by simp)
  | case10 => simp at hlevel
  | case11 => simp at hlevel

theorem restOf_classes_nil : ∀ r, restOf ended .classes s = some r → r.instances = [] := by
  intro r hr
  rcases s with - | ⟨e | info, s⟩
  · cases hr; rfl
  · cases hr; rfl
  · rw [restOf] at hr
    split at hr
    · obtain ⟨r', -, rfl⟩ := Option.map_eq_some_iff.mp hr
      rfl
    · cases hr

theorem pushBackAll_readValue (ended : Failure) (suspect : Bool) (h : s.length < fuel) : ∃ values s' marked,
    pushBackAll readValue fuel ⟨⟨s, ended⟩, suspect⟩ = some (values, ⟨⟨s', ended⟩, suspect || marked⟩) ∧
    s'.length ≤ s.length ∧ restOf ended .values s =
      (restOf ended .instances s').map fun r => { r with values, suspect := marked || r.suspect } := by
  have hnil : ∀ s marked, (restOf ended .instances s).map (fun r => { r with suspect := marked || r.suspect }) =
      (restOf ended .instances s).map fun r => { r with values := [], suspect := marked || r.suspect } := by
    intro s marked
    apply Option.map_congr
    intro r hr
    rw [← restOf_values_nil .instances (by simp) r hr]
  induction s generalizing fuel with
  | nil =>
    obtain _ | fuel := fuel
    · simp at h
    refine ⟨[], [], true, ?_, le_rfl, ?_⟩
    · simp [pushBackAll, readValue, SaPmCIterator.iteratorNext_2]
    · simp [restOf, Rest.nothing]
  | cons a s ih =>
    obtain _ | fuel := fuel
    · simp at h
    rcases a with e | info
    · refine ⟨[], s, true, ?_, by simp, ?_⟩
      · simp [pushBackAll, readValue, SaPmCIterator.iteratorNext_2]
      · rw [restOf, ← hnil]
        rfl
    · by_cases hinfo : info.objectType = .value
      · obtain ⟨values, s', marked, hloop, hs', hrest⟩ := ih (by simpa using h)
        refine ⟨aggregatedValue info :: values, s', marked, ?_, ?_, ?_⟩
        · simp [pushBackAll, readValue, SaPmCIterator.iteratorNext_2, hinfo, hloop]
        · simp only [List.length_cons]
          omega
        · rw [restOf, if_pos hinfo, hrest, Option.map_map]
          rfl
      · refine ⟨[], s, false, ?_, by simp, ?_⟩
        · simp [pushBackAll, readValue, SaPmCIterator.iteratorNext_2, hinfo]
        · rw [restOf, if_neg hinfo, ← hnil]
          simp

theorem pushBackAll_readInstance (ended : Failure) (suspect : Bool) (h : s.length < fuel) : ∃ instances s' marked,
    pushBackAll (readInstance readValue) fuel ⟨⟨s, ended⟩, suspect⟩ =
      some (instances, ⟨⟨s', ended⟩, suspect || marked⟩) ∧
    s'.length ≤ s.length ∧ restOf ended .instances s =
      (restOf ended .classes s').map fun r => { r with instances, suspect := marked || r.suspect } := by
  have hnil : ∀ s marked, (restOf ended .classes s).map (fun r => { r with suspect := marked || r.suspect }) =
      (restOf ended .classes s).map fun r => { r with instances := [], suspect := marked || r.suspect } := by
    intro s marked
    apply Option.map_congr
    intro r hr
    rw [← restOf_classes_nil r hr]
  induction fuel generalizing s suspect with
  | zero => simp at h
  | succ fuel ih =>
    rcases s with - | ⟨e | info, s⟩
    · refine ⟨[], [], true, ?_, le_rfl, ?_⟩
      · simp [pushBackAll, readInstance, SaPmCIterator.iteratorNext_2]
      · simp [restOf, Rest.nothing]
    · refine ⟨[], s, true, ?_, by simp, ?_⟩
      · simp [pushBackAll, readInstance, SaPmCIterator.iteratorNext_2]
      · rw [restOf, ← hnil]
        rfl
    · simp only [List.length_cons] at h
      by_cases hinfo : info.objectType = .ldn
      · obtain ⟨values, s₁, marked₁, hvalues, hs₁, hrest₁⟩ :=
          pushBackAll_readValue ended suspect (Nat.lt_add_one s.length)
        obtain ⟨instances, s₂, marked₂, hloop, hs₂, hrest₂⟩ := ih (s := s₁) (suspect || marked₁) (by omega)
        refine ⟨⟨info.nodeName, values⟩ :: instances, s₂, marked₁ || marked₂, ?_, ?_, ?_⟩
        · simp [pushBackAll, readInstance, SaPmCIterator.iteratorNext_2, hinfo, Reading.fuel, hvalues, hloop,
            Bool.or_assoc]
        · simp only [List.length_cons]
          omega
        · rw [restOf, if_pos hinfo, hrest₁, hrest₂]
          simp only [Option.map_map]
          apply Option.map_congr
          intro r hr
          simp [Rest.addInstance, Bool.or_assoc, restOf_values_nil .classes (by simp) r hr]
      · refine ⟨[], s, false, ?_, by simp, ?_⟩
        · simp [pushBackAll, readInstance, SaPmCIterator.iteratorNext_2, hinfo]
        · rw [restOf, if_neg hinfo, ← hnil]
          simp

theorem pushBackAll_readMoClass (ended : Failure) (suspect : Bool) (h : s.length < fuel) :
    (pushBackAll (readMoClass (readInstance readValue)) fuel ⟨⟨s, ended⟩, suspect⟩).map
        (fun result => (result.1, result.2.suspect)) =
      (restOf ended .classes s).map fun r => (r.classes, suspect || r.suspect) := by
  induction fuel generalizing s suspect with
  | zero => simp at h
  | succ fuel ih =>
    rcases s with - | ⟨e | info, s⟩
    · cases ended <;> simp [pushBackAll, readMoClass, SaPmCIterator.iteratorNext_2, restOf, Rest.nothing]
    · cases e <;> simp [pushBackAll, readMoClass, SaPmCIterator.iteratorNext_2, restOf, Rest.nothing]
    · simp only [List.length_cons] at h
      by_cases hinfo : info.objectType = .moClass
      · obtain ⟨instances, s₁, marked, hinstances, hs₁, hrest⟩ :=
          pushBackAll_readInstance ended suspect (Nat.lt_add_one s.length)
        have hloop := ih (s := s₁) (suspect || marked) (by omega)
        rw [restOf, if_pos hinfo, hrest]
        rcases hrest' : restOf ended .classes s₁ with - | r
        · rw [hrest', Option.map_none, Option.map_eq_none_iff] at hloop
          simp [pushBackAll, readMoClass, SaPmCIterator.iteratorNext_2, hinfo, Reading.fuel, hinstances, hloop]
        · rw [hrest', Option.map_some, Option.map_eq_some_iff] at hloop
          obtain ⟨⟨classes, reading⟩, hread, hr⟩ := hloop
          obtain ⟨rfl, hsuspect⟩ := Prod.mk.inj hr
          simpa [pushBackAll, readMoClass, SaPmCIterator.iteratorNext_2, hinfo, Reading.fuel, hinstances, hread,
            Rest.addClass, Bool.or_assoc] using hsuspect
      · simp [pushBackAll, readMoClass, SaPmCIterator.iteratorNext_2, restOf, hinfo]

theorem readData_eq (iterator : SaPmCIterator) : readData (readMoClass (readInstance readValue)) iterator =
    (restOf iterator.ended .classes iterator.answers).map fun r => ⟨r.classes, r.suspect⟩ := by
  have hloop := pushBackAll_readMoClass iterator.ended false (Nat.lt_add_one iterator.answers.length)
  rcases hrest : restOf iterator.ended .classes iterator.answers with - | r
  · rw [hrest, Option.map_none, Option.map_eq_none_iff] at hloop
    simp [readData, Reading.fuel, hloop]
  · rw [hrest, Option.map_some, Option.map_eq_some_iff] at hloop
    obtain ⟨⟨classes, reading⟩, hread, hr⟩ := hloop
    obtain ⟨rfl, hsuspect⟩ := Prod.mk.inj hr
    simpa [readData, Reading.fuel, hread] using hsuspect

theorem getData_eq (iterator : SaPmCIterator) : getData (some iterator) =
    (restOf iterator.ended .classes iterator.answers).map fun r => ⟨r.classes, r.suspect⟩ :=
  readData_eq iterator

theorem getData2_eq (iterator : SaPmCIterator) : getData2 (some iterator) =
    (restOf iterator.ended .classes iterator.answers).map fun r => ⟨r.classes, r.suspect⟩ :=
  readData_eq iterator

end ComSA.PmConsumer
