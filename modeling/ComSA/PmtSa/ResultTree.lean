import ComSA.PmtSa.OneReader

/-!
# The result tree of a granularity period

A list of classes is read as that list. Calls of the iterator that fail, with calls behind them that do not, bring
the readers out of step: exactly where that has no effect on what COM gets, and that it has none where the iterator
keeps failing.
-/

namespace ComSA.PmConsumer

/-! ## Well-formed answers -/

structure InstanceItems where
  opening : SaPmCIteratorInfo_2
  values : List SaPmCIteratorInfo_2
  closing : SaPmCIteratorInfo_2
  opening_type : opening.objectType = .ldn
  values_type : ∀ v ∈ values, v.objectType = .value
  closing_type : closing.objectType = .ldn

structure MoClassItems where
  opening : SaPmCIteratorInfo_2
  instances : List InstanceItems
  closing : SaPmCIteratorInfo_2
  opening_type : opening.objectType = .moClass
  closing_type : closing.objectType ≠ .ldn ∧ closing.objectType ≠ .value

def InstanceItems.items (x : InstanceItems) : List SaPmCIteratorInfo_2 := x.opening :: (x.values ++ [x.closing])

def MoClassItems.items (c : MoClassItems) : List SaPmCIteratorInfo_2 :=
  c.opening :: (c.instances.flatMap InstanceItems.items ++ [c.closing])

def sequence (tree : List MoClassItems) : List SaPmCIteratorInfo_2 := tree.flatMap MoClassItems.items

def valueOf (info : SaPmCIteratorInfo_2) : ComOamSpiPmAggregatedValue_2 where
  measType := info.nodeName
  valueType :=
    match info.valueInfo.values, info.valueInfo.isFloat with
    | [], _ => .nil
    | _ :: _, true => .floatArr
    | _ :: _, false => .intArr
  valueSize := info.valueInfo.values.length
  value := info.valueInfo.values
  isSuspect := info.valueInfo.isSuspect

def InstanceItems.result (x : InstanceItems) : ComOamSpiPmInstance_2 := ⟨x.opening.nodeName, x.values.map valueOf⟩

def MoClassItems.result (c : MoClassItems) : ComOamSpiPmMeasObjClass_2 :=
  ⟨c.opening.nodeName, c.instances.map InstanceItems.result⟩

/-- Answers that are these items with failures between them, of which none says that the iteration is done. -/
structure WithFailures (items : List SaPmCIteratorInfo_2) (s : List Answer) : Prop where
  items_eq : s.filterMap Except.toOption = items
  failures : ∀ e, .error e ∈ s → e ≠ .errNotExist

/-- The tree has an instance of this name in a class of this name, and these are its first values. -/
def Stands (tree : List MoClassItems) (moClass inst : String) (values : List ComOamSpiPmAggregatedValue_2) : Prop :=
  ∃ c ∈ tree, c.opening.nodeName = moClass ∧
    ∃ x ∈ c.instances, x.opening.nodeName = inst ∧ values <+: x.values.map valueOf

/-- Whatever COM gets stands where it stands in the tree. -/
def Placed (tree : List MoClassItems) (classes : List ComOamSpiPmMeasObjClass_2) : Prop :=
  ∀ c ∈ classes, ∀ x ∈ c.instances, Stands tree c.measObjClass x.measObjLDN x.values

/-! ## Reading well-formed answers -/

theorem aggregatedValue_eq (info : SaPmCIteratorInfo_2) : aggregatedValue info = valueOf info := by
  rcases h : info.valueInfo.values with - | ⟨v, values⟩ <;> cases hfloat : info.valueInfo.isFloat <;>
    simp [aggregatedValue, valueOf, h, hfloat]

variable {tree : List MoClassItems} {ended : Failure} {s : List Answer}

theorem restOf_values (values : List SaPmCIteratorInfo_2) (hvalues : ∀ v ∈ values, v.objectType = .value) :
    restOf ended .values (values.map Except.ok ++ s) =
      (restOf ended .values s).map fun r => { r with values := values.map valueOf ++ r.values } := by
  induction values with
  | nil => simp
  | cons v values ih =>
    have hv := hvalues v List.mem_cons_self
    rw [List.map_cons, List.cons_append, restOf, if_pos hv, ih fun v h => hvalues v (List.mem_cons_of_mem _ h),
      Option.map_map, aggregatedValue_eq]
    rfl

theorem restOf_instances (instances : List InstanceItems) :
    restOf ended .instances ((instances.flatMap InstanceItems.items).map Except.ok ++ s) =
      (restOf ended .instances s).map fun r =>
        { r with instances := instances.map InstanceItems.result ++ r.instances } := by
  induction instances with
  | nil => simp
  | cons x instances ih =>
    have hclosing : x.closing.objectType ≠ .value := by simp [x.closing_type]
    simp only [List.flatMap_cons, InstanceItems.items, List.map_append, List.map_cons, List.cons_append,
      List.append_assoc, List.nil_append] at ih ⊢
    rw [restOf, if_pos x.opening_type, restOf_values x.values x.values_type, restOf, if_neg hclosing, ih]
    simp only [Option.map_map]
    apply Option.map_congr
    intro r hr
    simp [Rest.addInstance, InstanceItems.result, restOf_values_nil .instances (by simp) r hr]

theorem restOf_classes (ended : Failure) (s : List Answer) (tree : List MoClassItems) :
    restOf ended .classes ((sequence tree).map Except.ok ++ s) =
      (restOf ended .classes s).map fun r => { r with classes := tree.map MoClassItems.result ++ r.classes } := by
  induction tree with
  | nil => simp [sequence]
  | cons c tree ih =>
    simp only [sequence, List.flatMap_cons, MoClassItems.items, List.map_append, List.map_cons, List.cons_append,
      List.append_assoc, List.nil_append] at ih ⊢
    rw [restOf, if_pos c.opening_type, restOf_instances, restOf, if_neg c.closing_type.1, ih]
    simp only [Option.map_map]
    apply Option.map_congr
    intro r hr
    simp [Rest.addClass, MoClassItems.result, restOf_classes_nil r hr]

/-! ## Where the reading and the tree are -/

inductive Position where
  | classes
  | instances (moClass : String)
  | values (moClass inst : String) (values : List ComOamSpiPmAggregatedValue_2)

namespace Position

def level : Position → Level
  | classes => .classes
  | instances _ => .instances
  | values _ _ _ => .values

def next (info : SaPmCIteratorInfo_2) : Position → Position
  | classes => instances info.nodeName
  | instances moClass => if info.objectType = .ldn then values moClass info.nodeName [] else classes
  | values moClass inst vs =>
    if info.objectType = .value then values moClass inst (vs ++ [valueOf info]) else instances moClass

def failed : Position → Position
  | classes => classes
  | instances _ => classes
  | values moClass _ _ => instances moClass

variable (tree : List MoClassItems) (info : SaPmCIteratorInfo_2)

def Stood : Position → Prop
  | values moClass inst vs => Stands tree moClass inst vs
  | _ => True

def Allows : Position → Prop
  | classes => info.objectType = .moClass
  | instances _ => info.objectType ≠ .value
  | values _ _ _ => info.objectType = .value ∨ info.objectType = .ldn

/-- The assertion holds, and an instance that is opened here belongs to the class. -/
def Fits : Position → Prop
  | classes => info.objectType = .moClass
  | instances moClass => info.objectType = .ldn → Stands tree moClass info.nodeName []
  | values _ _ _ => True

end Position

/-- The failures have no effect on what COM gets, from this position of the readers on. -/
def Harmless (tree : List MoClassItems) : Position → List Answer → Prop
  | _, [] => True
  | .classes, .error _ :: _ => True
  | p, .error _ :: s => Harmless tree p.failed s
  | p, .ok info :: s => p.Fits tree info ∧ Harmless tree (p.next info) s

def Follows (tree : List MoClassItems) : Position → List SaPmCIteratorInfo_2 → Prop
  | _, [] => True
  | p, info :: items => p.Allows info ∧ (p.next info).Stood tree ∧ Follows tree (p.next info) items

def Position.Related (tree : List MoClassItems) : Position → Position → Prop
  | .classes, .classes => True
  | .classes, .instances _ => True
  | .classes, .values _ _ _ => False
  | .instances _, .classes => True
  | .instances moClass, .instances moClass' => moClass' = moClass
  | .instances moClass, .values moClass' inst vs => moClass' = moClass ∧ vs = [] ∧ Stands tree moClass inst []
  | .values moClass inst vs, p => p = .classes ∨ p = .instances moClass ∨ p = .values moClass inst vs ∧ p.Stood tree

namespace Position

variable {info : SaPmCIteratorInfo_2} {p q : Position}

theorem Related.stood (h : p.Related tree q) : q.Stood tree := by
  rcases p with - | moClass | ⟨moClass, inst, vs⟩ <;> rcases q with - | moClass' | ⟨moClass', inst', vs'⟩
  all_goals try trivial
  · obtain ⟨rfl, rfl, h⟩ := h
    exact h
  · obtain h | h | h := h
    · cases h
    · cases h
    · exact h.2

theorem Related.failed (h : p.Related tree q) : p.Related tree q.failed := by
  rcases p with - | moClass | ⟨moClass, inst, vs⟩ <;> rcases q with - | moClass' | ⟨moClass', inst', vs'⟩
  all_goals try trivial
  · exact h.1
  · exact .inl rfl
  · obtain h | h | h := h
    · cases h
    · cases h
    · cases h.1
      exact .inr (.inl rfl)

theorem Related.next (h : p.Related tree q) (hallows : p.Allows info) (hstood : (p.next info).Stood tree)
    (hfits : q.Fits tree info) : (p.next info).Related tree (q.next info) := by
  rcases p with - | moClass | ⟨moClass, inst, vs⟩ <;> rcases q with - | moClass' | ⟨moClass', inst', vs'⟩
  all_goals simp only [Position.Allows, Position.Fits] at hallows hfits
  · rfl
  · simp [Position.next, hallows, Position.Related]
  · exact h.elim
  · simp [Position.next, hfits, Position.Related]
  · cases h
    by_cases hinfo : info.objectType = .ldn
    · simp [Position.next, hinfo, Position.Related, Position.Stood, hfits hinfo]
    · simp [Position.next, hinfo, Position.Related]
  · obtain ⟨rfl, rfl, h⟩ := h
    by_cases hinfo : info.objectType = .ldn
    · simp [Position.next, hinfo, Position.Related]
    · simp [Position.next, hinfo, hallows, Position.Related]
  · simp [hfits] at hallows
  · obtain h | h | h := h
    · cases h
    · cases h
      obtain hinfo | hinfo := hallows
      · simp [Position.next, hinfo, Position.Related]
      · simp [Position.next, hinfo, Position.Related, hfits hinfo]
    · cases h.1
  · obtain h | h | h := h
    · cases h
    · cases h
    · obtain ⟨h, -⟩ := h
      cases h
      obtain hinfo | hinfo := hallows
      · simp only [Position.next, hinfo, if_true] at hstood ⊢
        exact .inr (.inr ⟨rfl, hstood⟩)
      · simp [Position.next, hinfo, Position.Related]

end Position

/-! ## What the readers make of the rest -/

def PlacedAt (tree : List MoClassItems) : Position → Rest → Prop
  | .classes, r => Placed tree r.classes
  | .instances moClass, r => Placed tree (⟨moClass, r.instances⟩ :: r.classes)
  | .values moClass inst vs, r => Placed tree (⟨moClass, ⟨inst, vs ++ r.values⟩ :: r.instances⟩ :: r.classes)

/-- The assertion never fails from here on, and what COM gets is placed. -/
def Good (tree : List MoClassItems) (ended : Failure) (p : Position) (s : List Answer) : Prop :=
  ∃ r, restOf ended p.level s = some r ∧ PlacedAt tree p r

variable {p q : Position} {info : SaPmCIteratorInfo_2} {r : Rest} {e : Failure} {s' : List Answer}

theorem placed_cons {c : ComOamSpiPmMeasObjClass_2} {classes : List ComOamSpiPmMeasObjClass_2} :
    Placed tree (c :: classes) ↔
      (∀ x ∈ c.instances, Stands tree c.measObjClass x.measObjLDN x.values) ∧ Placed tree classes :=
  List.forall_mem_cons

theorem Stands.of_isPrefix {moClass inst : String} {vs vs' : List ComOamSpiPmAggregatedValue_2}
    (h : Stands tree moClass inst vs') (hvs : vs <+: vs') : Stands tree moClass inst vs := by
  obtain ⟨c, hc, hname, x, hx, hinst, hvalues⟩ := h
  exact ⟨c, hc, hname, x, hx, hinst, hvs.trans hvalues⟩

theorem PlacedAt.stood (h : PlacedAt tree p r) : p.Stood tree := by
  rcases p with - | moClass | ⟨moClass, inst, vs⟩
  · trivial
  · trivial
  · exact (placed_cons.mp h).1 _ List.mem_cons_self |>.of_isPrefix (List.prefix_append _ _)

theorem placedAt_failed (hr : restOf ended p.failed.level s = some r) (hp : p ≠ .classes) :
    PlacedAt tree p r ↔ p.Stood tree ∧ PlacedAt tree p.failed r := by
  rcases p with - | moClass | ⟨moClass, inst, vs⟩
  · simp at hp
  · simp [PlacedAt, Position.failed, Position.Stood, placed_cons, restOf_classes_nil r hr]
  · simp [PlacedAt, Position.failed, Position.Stood, placed_cons, restOf_values_nil .instances (by simp) r hr,
      and_assoc]

theorem good_of_map {f : Rest → Rest} (hrest : restOf ended p.level s = (restOf ended q.level s').map f)
    (hf : ∀ r, restOf ended q.level s' = some r → (PlacedAt tree p (f r) ↔ PlacedAt tree q r)) :
    Good tree ended p s ↔ Good tree ended q s' := by
  unfold Good
  rw [hrest]
  constructor
  · rintro ⟨_, hr, hplaced⟩
    obtain ⟨r, hr', rfl⟩ := Option.map_eq_some_iff.mp hr
    exact ⟨r, hr', (hf r hr').mp hplaced⟩
  · rintro ⟨r, hr, hplaced⟩
    exact ⟨f r, by rw [hr, Option.map_some], (hf r hr).mpr hplaced⟩

theorem Good.stood (h : Good tree ended p s) : p.Stood tree := by
  obtain ⟨r, -, hplaced⟩ := h
  exact hplaced.stood

theorem good_nil (hstood : p.Stood tree) : Good tree ended p [] := by
  rcases p with - | moClass | ⟨moClass, inst, vs⟩
  · exact ⟨_, rfl, by simp [PlacedAt, Placed, Rest.nothing]⟩
  · exact ⟨_, rfl, by simp [PlacedAt, Placed, Rest.nothing]⟩
  · refine ⟨_, rfl, ?_⟩
    simp only [PlacedAt, Rest.nothing, List.append_nil, placed_cons, List.forall_mem_singleton]
    exact ⟨hstood, by simp [Placed]⟩

theorem good_error (hstood : p.Stood tree) (hp : p ≠ .classes) :
    Good tree ended p (.error e :: s) ↔ Good tree ended p.failed s := by
  apply good_of_map (f := Rest.mark)
  · rcases p with - | moClass | ⟨moClass, inst, vs⟩
    · simp at hp
    · rfl
    · rfl
  · intro r hr
    have hmark : PlacedAt tree p r.mark ↔ PlacedAt tree p r := by
      rcases p with - | moClass | ⟨moClass, inst, vs⟩ <;> rfl
    rw [hmark, placedAt_failed hr hp]
    exact and_iff_right hstood

theorem good_ok (hstood : p.Stood tree) :
    Good tree ended p (.ok info :: s) ↔ p.Fits tree info ∧ Good tree ended (p.next info) s := by
  rcases p with - | moClass | ⟨moClass, inst, vs⟩
  · by_cases hinfo : info.objectType = .moClass
    · simp only [Position.Fits, hinfo, true_and]
      exact good_of_map (f := Rest.addClass info.nodeName) (by simp [Position.level, Position.next, restOf, hinfo])
        fun r _ => Iff.rfl
    · simp [Good, Position.level, restOf, hinfo, Position.Fits]
  · by_cases hinfo : info.objectType = .ldn
    · simp only [Position.Fits, Position.next, hinfo, if_true, true_imp_iff]
      have hgood : Good tree ended (.instances moClass) (.ok info :: s) ↔
          Good tree ended (.values moClass info.nodeName []) s :=
        good_of_map (f := Rest.addInstance info.nodeName) (by simp [Position.level, restOf, hinfo]) fun r _ =>
          Iff.rfl
      rw [hgood]
      constructor
      · intro h
        exact ⟨h.stood, h⟩
      · exact And.right
    · simp only [Position.Fits, Position.next, hinfo, if_false, false_imp_iff, true_and]
      apply good_of_map (f := id)
      · simp [Position.level, restOf, hinfo]
      · intro r hr
        rw [id, placedAt_failed (p := .instances moClass) hr (by simp)]
        exact and_iff_right trivial
  · by_cases hinfo : info.objectType = .value
    · simp only [Position.Fits, Position.next, hinfo, if_true, true_and]
      apply good_of_map (f := Rest.addValue (valueOf info))
      · simp [Position.level, restOf, hinfo, aggregatedValue_eq]
      · intro r hr
        simp [PlacedAt, Rest.addValue]
    · simp only [Position.Fits, Position.next, hinfo, if_false, true_and]
      apply good_of_map (f := id)
      · simp [Position.level, restOf, hinfo]
      · intro r hr
        rw [id, placedAt_failed (p := .values moClass inst vs) hr (by simp)]
        exact and_iff_right hstood

theorem good_iff_harmless (hrelated : p.Related tree q) (hfollows : Follows tree p (s.filterMap Except.toOption)) :
    Good tree ended q s ↔ Harmless tree q s := by
  induction s generalizing p q with
  | nil =>
    rw [Harmless]
    exact iff_true_intro (good_nil hrelated.stood)
  | cons a s ih =>
    rcases a with e | info
    · by_cases hq : q = .classes
      · subst hq
        rw [Harmless]
        exact iff_true_intro ⟨_, rfl, by simp [PlacedAt, Placed, Rest.nothing]⟩
      · rw [good_error hrelated.stood hq, Harmless.eq_3 _ _ _ _ hq]
        exact ih hrelated.failed hfollows
    · obtain ⟨hallows, hstood, hfollows⟩ := hfollows
      rw [good_ok hrelated.stood, Harmless]
      apply and_congr_right
      intro hfits
      exact ih (hrelated.next hallows hstood hfits) hfollows

/-! ## The items of the tree -/

theorem Follows.of_append {items items' : List SaPmCIteratorInfo_2} (h : Follows tree p (items ++ items')) :
    Follows tree p items := by
  induction items generalizing p with
  | nil => trivial
  | cons info items ih =>
    obtain ⟨hallows, hstood, hfollows⟩ := h
    exact ⟨hallows, hstood, ih hfollows⟩

variable {c : MoClassItems} {x : InstanceItems} {items : List SaPmCIteratorInfo_2}

theorem follows_values (hc : c ∈ tree) (hx : x ∈ c.instances) (passed values : List SaPmCIteratorInfo_2)
    (hvalues : x.values = passed ++ values) (hitems : Follows tree (.instances c.opening.nodeName) items) :
    Follows tree (.values c.opening.nodeName x.opening.nodeName (passed.map valueOf))
      (values ++ x.closing :: items) := by
  induction values generalizing passed with
  | nil =>
    have hnext : (Position.values c.opening.nodeName x.opening.nodeName (passed.map valueOf)).next x.closing =
        .instances c.opening.nodeName := by
      simp [Position.next, x.closing_type]
    refine ⟨.inr x.closing_type, ?_, ?_⟩ <;> rw [hnext]
    · trivial
    · exact hitems
  | cons v values ih =>
    have hv : v.objectType = .value := x.values_type v (by simp [hvalues])
    have hnext : (Position.values c.opening.nodeName x.opening.nodeName (passed.map valueOf)).next v =
        .values c.opening.nodeName x.opening.nodeName ((passed ++ [v]).map valueOf) := by
      simp [Position.next, hv]
    refine ⟨.inl hv, ?_, ?_⟩ <;> rw [hnext]
    · refine ⟨c, hc, rfl, x, hx, rfl, values.map valueOf, ?_⟩
      simp [hvalues]
    · exact ih (passed ++ [v]) (by simp [hvalues])

theorem follows_instances (hc : c ∈ tree) (instances : List InstanceItems) (hinstances : instances ⊆ c.instances)
    (hitems : Follows tree .classes items) : Follows tree (.instances c.opening.nodeName)
      (instances.flatMap InstanceItems.items ++ c.closing :: items) := by
  induction instances with
  | nil =>
    have hnext : (Position.instances c.opening.nodeName).next c.closing = .classes := by
      simp [Position.next, c.closing_type.1]
    refine ⟨c.closing_type.2, ?_, ?_⟩ <;> rw [hnext]
    · trivial
    · exact hitems
  | cons x instances ih =>
    have hx := hinstances List.mem_cons_self
    have hnext : (Position.instances c.opening.nodeName).next x.opening =
        .values c.opening.nodeName x.opening.nodeName [] := by
      simp [Position.next, x.opening_type]
    simp only [List.flatMap_cons, InstanceItems.items, List.cons_append, List.append_assoc, List.nil_append]
    refine ⟨by simp [Position.Allows, x.opening_type], ?_, ?_⟩ <;> rw [hnext]
    · exact ⟨c, hc, rfl, x, hx, rfl, List.nil_prefix⟩
    · exact follows_values hc hx [] x.values rfl (ih fun y hy => hinstances (List.mem_cons_of_mem _ hy))

theorem follows_sequence (classes : List MoClassItems) (hclasses : classes ⊆ tree) :
    Follows tree .classes (sequence classes) := by
  induction classes with
  | nil => trivial
  | cons c classes ih =>
    simp only [sequence, List.flatMap_cons, MoClassItems.items, List.cons_append, List.append_assoc,
      List.nil_append]
    exact ⟨c.opening_type, trivial, follows_instances (hclasses List.mem_cons_self) c.instances (fun x hx => hx)
      (ih fun d hd => hclasses (List.mem_cons_of_mem _ hd))⟩

theorem Follows.harmless (h : Follows tree p items) : Harmless tree p (items.map Except.ok) := by
  induction items generalizing p with
  | nil => simp [Harmless]
  | cons info items ih =>
    obtain ⟨hallows, hstood, hfollows⟩ := h
    rw [List.map_cons, Harmless]
    refine ⟨?_, ih hfollows⟩
    rcases p with - | moClass | ⟨moClass, inst, vs⟩
    · exact hallows
    · intro hinfo
      simp only [Position.next, hinfo, if_true] at hstood
      exact hstood
    · trivial

/-! ## The mark -/

theorem restOf_suspect (level : Level) (hs : ∀ e, .error e ∈ s → e ≠ .errNotExist)
    (hfailed : ended ≠ .errNotExist ∨ ∃ e, .error e ∈ s) :
    ∀ r, restOf ended level s = some r → r.suspect = true := by
  fun_induction restOf ended level s with
  | case1 => rintro _ ⟨⟩; simpa [Rest.nothing] using hfailed
  | case2 => rintro _ ⟨⟩; rfl
  | case3 e s => rintro _ ⟨⟩; simpa [Rest.nothing] using hs e List.mem_cons_self
  | case4 => intro r hr; obtain ⟨r', hr', rfl⟩ := Option.map_eq_some_iff.mp hr; rfl
  | case5 => intro r hr; obtain ⟨r', hr', rfl⟩ := Option.map_eq_some_iff.mp hr; rfl
  | case6 info s hinfo ih =>
    intro r hr
    obtain ⟨r', hr', rfl⟩ := Option.map_eq_some_iff.mp hr
    exact ih (by simpa using hs) (by simpa using hfailed) r' hr'
  | case7 => rintro _ ⟨⟩
  | case8 info s hinfo ih =>
    intro r hr
    obtain ⟨r', hr', rfl⟩ := Option.map_eq_some_iff.mp hr
    exact ih (by simpa using hs) (by simpa using hfailed) r' hr'
  | case9 info s hinfo ih => exact ih (by simpa using hs) (by simpa using hfailed)
  | case10 info s hinfo ih =>
    intro r hr
    obtain ⟨r', hr', rfl⟩ := Option.map_eq_some_iff.mp hr
    exact ih (by simpa using hs) (by simpa using hfailed) r' hr'
  | case11 info s hinfo ih => exact ih (by simpa using hs) (by simpa using hfailed)

/-! ## Both functions -/

/-- It returns, the result is marked, and whatever is in it stands where it stands in the tree. -/
def Delivers (get : Option SaPmCIterator → Option ComOamSpiPmGpData_2) (iterator : SaPmCIterator)
    (tree : List MoClassItems) : Prop :=
  ∃ data, get (some iterator) = some data ∧ data.isSuspect = true ∧ Placed tree data.measObjClasses

/-- How a tree is read: as it is where no call fails; with failures and further answers behind them, exactly where
these are harmless; and always where the iterator keeps failing from some call on. -/
structure ReadsTree (get : Option SaPmCIterator → Option ComOamSpiPmGpData_2) (tree : List MoClassItems) :
    Prop where
  exact : get (some ⟨(sequence tree).map Except.ok, .errNotExist⟩) = some ⟨tree.map MoClassItems.result, false⟩
  failures : ∀ s, WithFailures (sequence tree) s → (∃ e, .error e ∈ s) →
    (Delivers get ⟨s, .errNotExist⟩ tree ↔ Harmless tree .classes s)
  failing : ∀ n code, Delivers get ⟨((sequence tree).take n).map Except.ok, .other code⟩ tree

theorem fetches_iff {get : Option SaPmCIterator → Option ComOamSpiPmGpData_2} {iterator : SaPmCIterator}
    (hget : get (some iterator) =
      (restOf iterator.ended .classes iterator.answers).map fun r => ⟨r.classes, r.suspect⟩)
    (hs : ∀ e, .error e ∈ iterator.answers → e ≠ .errNotExist)
    (hfailed : iterator.ended ≠ .errNotExist ∨ ∃ e, .error e ∈ iterator.answers) :
    Delivers get iterator tree ↔ Good tree iterator.ended .classes iterator.answers := by
  unfold Delivers
  rw [hget]
  constructor
  · rintro ⟨_, hdata, -, hplaced⟩
    obtain ⟨r, hr, rfl⟩ := Option.map_eq_some_iff.mp hdata
    exact ⟨r, hr, hplaced⟩
  · rintro ⟨r, hr, hplaced⟩
    refine ⟨⟨r.classes, r.suspect⟩, ?_, restOf_suspect .classes hs hfailed r hr, hplaced⟩
    rw [show restOf iterator.ended .classes iterator.answers = some r from hr, Option.map_some]

theorem readsTree_of_eq {get : Option SaPmCIterator → Option ComOamSpiPmGpData_2} (tree : List MoClassItems)
    (hget : ∀ iterator, get (some iterator) =
      (restOf iterator.ended .classes iterator.answers).map fun r => ⟨r.classes, r.suspect⟩) : ReadsTree get
        tree where
  exact := by
    have hrest := restOf_classes .errNotExist [] tree
    rw [List.append_nil] at hrest
    rw [hget, hrest]
    simp [restOf, Rest.nothing]
  failures s hs hfailed := by
    have hfollows : Follows tree .classes (s.filterMap Except.toOption) := by
      rw [hs.items_eq]
      exact follows_sequence tree fun c hc => hc
    rw [fetches_iff (hget _) hs.failures (.inr hfailed)]
    exact good_iff_harmless (p := .classes) trivial hfollows
  failing n code := by
    have hfollows : Follows tree .classes ((sequence tree).take n) := by
      have h := follows_sequence tree fun c hc => hc
      rw [← List.take_append_drop n (sequence tree)] at h
      exact h.of_append
    have hs : ∀ e, .error e ∈ ((sequence tree).take n).map (Except.ok : _ → Answer) → e ≠ .errNotExist := by
      intro e he
      obtain ⟨info, -, hinfo⟩ := List.mem_map.mp he
      cases hinfo
    rw [fetches_iff (hget _) hs (.inl (by simp))]
    refine (good_iff_harmless (p := .classes) (q := .classes) trivial ?_).mpr hfollows.harmless
    rw [List.filterMap_map, show Except.toOption ∘ Except.ok = some from rfl, List.filterMap_some]
    exact hfollows

theorem getData_readsTree (tree : List MoClassItems) : ReadsTree getData tree ∧ ReadsTree getData2 tree :=
  ⟨readsTree_of_eq tree getData_eq, readsTree_of_eq tree getData2_eq⟩

/-! ## A failure within an instance -/

def oneInstance : InstanceItems where
  opening := ⟨.ldn, "ManagedElement=1", ⟨false, false, []⟩⟩
  values := [⟨.value, "pmRequests", ⟨false, false, [7]⟩⟩]
  closing := ⟨.ldn, "ManagedElement=1", ⟨false, false, []⟩⟩
  opening_type := rfl
  values_type := by simp
  closing_type := rfl

def oneClass : MoClassItems where
  opening := ⟨.moClass, "ManagedElement", ⟨false, false, []⟩⟩
  instances := [oneInstance]
  closing := ⟨.other, "ManagedElement", ⟨false, false, []⟩⟩
  opening_type := rfl
  closing_type := by simp

def failedValue : List Answer :=
  [.ok oneClass.opening, .ok oneInstance.opening, .error (.other 21),
    .ok ⟨.value, "pmRequests", ⟨false, false, [7]⟩⟩,
    .ok oneInstance.closing, .ok oneClass.closing]

/-- The value ends the instances, and the assertion fails on the closing LDN. -/
theorem not_getData_tree : ¬ ∀ tree s, WithFailures (sequence tree) s → (∃ e, .error e ∈ s) →
    Delivers getData ⟨s, .errNotExist⟩ tree ∧ Delivers getData2 ⟨s, .errNotExist⟩ tree := by
  intro h
  have hs : WithFailures (sequence [oneClass]) failedValue := ⟨rfl, by simp [failedValue]⟩
  obtain ⟨⟨data, hdata, -⟩, -⟩ := h [oneClass] failedValue hs ⟨.other 21, by simp [failedValue]⟩
  have hnone : getData (some ⟨failedValue, .errNotExist⟩) = none := by decide
  rw [hnone] at hdata
  cases hdata

end ComSA.PmConsumer
