import ComSA.Motransaction.ActionResult
import ComSA.OIproxy.OIProxy
import Mathlib.Data.List.Nodup
import Mathlib.Data.List.Perm.Subperm

/-!
# The parameters of an admin operation

IMM sends the parameters by name and in any order. They are written to an array with a place for each
parameter that came, by the order that the model gives them.
-/

namespace ComSA.OIproxy.Admin

open Action (Datatype Parameter AdminOperationParams baseType)

inductive RegisteredMoInterface where
  | managedObject2
  | managedObject3
  deriving DecidableEq, Repr

/-- A parameter as the object implementer gets it. The buffer is not looked into. -/
structure NamedAttributeValueContainer where
  name : List Char
  type : Datatype
  nrOfValues : Nat
  values : MoValue
  deriving DecidableEq, Repr

/-! ## The order of the model -/

def insertOrder (name : List Char) (index : Nat) (order : List Char → Option Nat) : List Char → Option Nat :=
  if order name = none then Function.update order name (some index) else order

def insertOrders : List Parameter → Nat → (List Char → Option Nat) → List Char → Option Nat
  | [], _, order => order
  | p :: parameters, index, order => insertOrders parameters (index + 1) (insertOrder p.name index order)

def parameterOrder (parameters : List Parameter) : List Char → Option Nat :=
  insertOrders parameters 0 fun _ => none

def paramTypeOf (isMoSpiVersion2 : Bool) (p : Parameter) : Datatype :=
  if isMoSpiVersion2 then p.parameterType.type else baseType p.parameterType.toDatatypeContainer

def RetriveComParameterType (paramName : List Char) (isMoSpiVersion2 : Bool) : List Parameter → Option Datatype
  | [] => none
  | p :: parameterList =>
    if paramName = p.name then some (paramTypeOf isMoSpiVersion2 p)
    else RetriveComParameterType paramName isMoSpiVersion2 parameterList

/-! ## Writing the array -/

def container (p : AdminOperationParams) (paramType : Datatype) : NamedAttributeValueContainer :=
  ⟨p.paramName, paramType, 1, p.paramBuffer⟩

/-- The code, and what was written to which place, in this order. -/
def translateImm2MoFrom (isMoSpiVersion2 : Bool) (order : List Char → Option Nat) (parameterList : List Parameter) :
    List AdminOperationParams → SaAisError × List (Nat × NamedAttributeValueContainer)
  | [] => (.ok, [])
  | p :: params =>
    match order p.paramName with
    | none => (.badOperation, [])
    | some orderOfParameter =>
      match RetriveComParameterType p.paramName isMoSpiVersion2 parameterList with
      | none => (.badOperation, [])
      | some paramType =>
        let rest := translateImm2MoFrom isMoSpiVersion2 order parameterList params
        (rest.1, (orderOfParameter, container p paramType) :: rest.2)

def OIProxy_translateImm2Mo (moIfVersion : RegisteredMoInterface) (order : List Char → Option Nat)
    (parameterList : List Parameter) :
    Option (List AdminOperationParams) → SaAisError × List (Nat × NamedAttributeValueContainer)
  | none => (.badOperation, [])
  | some params => translateImm2MoFrom (moIfVersion = .managedObject2) order parameterList params

def translateParameters (moIfVersion : RegisteredMoInterface) (parameters : List Parameter)
    (params : Option (List AdminOperationParams)) : SaAisError × List (Nat × NamedAttributeValueContainer) :=
  OIProxy_translateImm2Mo moIfVersion (parameterOrder parameters) parameters params

def numberOfParameters (params : Option (List AdminOperationParams)) : Nat := (params.getD []).length

def WrittenInside (params : Option (List AdminOperationParams))
    (writes : List (Nat × NamedAttributeValueContainer)) : Prop :=
  ∀ w ∈ writes, w.1 < numberOfParameters params

instance (params : Option (List AdminOperationParams)) (writes : List (Nat × NamedAttributeValueContainer)) :
    Decidable (WrittenInside params writes) :=
  inferInstanceAs (Decidable (∀ w ∈ writes, _))

/-- What an array holds that was written to so, where it was written to. -/
def entryAt (writes : List (Nat × NamedAttributeValueContainer)) (i : Nat) : Option NamedAttributeValueContainer :=
  (writes.reverse.find? fun w => w.1 = i).map Prod.snd

/-! ## What it has to be -/

/-- The array has a place for each parameter that came. A place holds the parameter that the model has
there. -/
structure InModelOrder (moIfVersion : RegisteredMoInterface) (parameters : List Parameter)
    (params : List AdminOperationParams) (writes : List (Nat × NamedAttributeValueContainer)) : Prop where
  inside : ∀ w ∈ writes, w.1 < params.length
  once : ∀ i < params.length, (writes.map Prod.fst).count i = 1
  holds : ∀ i < params.length, ∃ q p, parameters[i]? = some q ∧ p ∈ params ∧ p.paramName = q.name ∧
    entryAt writes i = some (container p (paramTypeOf (moIfVersion = .managedObject2) q))

def Placed (moIfVersion : RegisteredMoInterface) (parameters : List Parameter)
    (params : Option (List AdminOperationParams)) : Prop :=
  (translateParameters moIfVersion parameters params).1 = .ok →
    ∃ received, params = some received ∧
      InModelOrder moIfVersion parameters received (translateParameters moIfVersion parameters params).2

def Leading (parameters : List Parameter) (params : List AdminOperationParams) : Prop :=
  (params.map (·.paramName)).Nodup ∧
    (params.map (·.paramName)).Perm ((parameters.map (·.name)).take params.length)

instance (parameters : List Parameter) (params : List AdminOperationParams) :
    Decidable (Leading parameters params) :=
  inferInstanceAs (Decidable (_ ∧ _))

/-- The names up to the first one that the model does not have are among its first ones, as many as came. -/
def HavePlaces (parameters : List Parameter) (params : Option (List AdminOperationParams)) : Prop :=
  ∀ p ∈ (params.getD []).takeWhile (fun p => parameters.any (·.name = p.paramName)),
    p.paramName ∈ (parameters.map (·.name)).take (numberOfParameters params)

instance (parameters : List Parameter) (params : Option (List AdminOperationParams)) :
    Decidable (HavePlaces parameters params) :=
  inferInstanceAs (Decidable (∀ p ∈ List.takeWhile _ _, _))

/-- There is nothing to read, or a name that the model does not have. -/
def Unmodelled (parameters : List Parameter) : Option (List AdminOperationParams) → Prop
  | none => True
  | some params => ∃ p ∈ params, p.paramName ∉ parameters.map (·.name)

/-! ## The order is that of the names -/

theorem insertOrder_apply (name : List Char) (index : Nat) (order : List Char → Option Nat) (other : List Char) :
    insertOrder name index order other =
      (order other).or (if name = other then some index else none) := by
  unfold insertOrder
  by_cases hname : order name = none
  · rw [if_pos hname]
    by_cases hother : name = other
    · subst hother
      rw [Function.update_self, if_pos rfl, hname, Option.none_or]
    · rw [Function.update_of_ne (Ne.symm hother), if_neg hother, Option.or_none]
  · rw [if_neg hname]
    by_cases hother : name = other
    · subst hother
      obtain ⟨i, hi⟩ := Option.ne_none_iff_exists'.mp hname
      rw [hi, Option.some_or]
    · rw [if_neg hother, Option.or_none]

theorem insertOrders_apply (parameters : List Parameter) (index : Nat) (order : List Char → Option Nat)
    (name : List Char) :
    insertOrders parameters index order name =
      (order name).or (((parameters.map (·.name)).idxOf? name).map (· + index)) := by
  induction parameters generalizing index order with
  | nil => simp [insertOrders]
  | cons p parameters ih =>
    rw [insertOrders, ih, insertOrder_apply, List.map_cons, List.idxOf?_cons, Option.or_assoc]
    by_cases hname : p.name = name
    · simp [hname]
    · have hstep : ∀ i : Nat, i + 1 + index = i + (index + 1) := by omega
      simp [hname, Option.map_map, Function.comp_def, hstep]

theorem parameterOrder_apply (parameters : List Parameter) (name : List Char) :
    parameterOrder parameters name = (parameters.map (·.name)).idxOf? name := by
  rw [parameterOrder, insertOrders_apply]
  simp

theorem RetriveComParameterType_of_order (isMoSpiVersion2 : Bool) {parameters : List Parameter} {name : List Char}
    {i : Nat} (h : (parameters.map (·.name)).idxOf? name = some i) :
    ∃ q, parameters[i]? = some q ∧ q.name = name ∧
      RetriveComParameterType name isMoSpiVersion2 parameters = some (paramTypeOf isMoSpiVersion2 q) := by
  induction parameters generalizing i with
  | nil => simp at h
  | cons p parameters ih =>
    rw [List.map_cons, List.idxOf?_cons] at h
    by_cases hname : p.name = name
    · rw [if_pos (by simpa using hname)] at h
      obtain rfl := Option.some.inj h
      exact ⟨p, rfl, hname, by rw [RetriveComParameterType, if_pos hname.symm]⟩
    · rw [if_neg (by simpa using hname)] at h
      obtain ⟨j, hj, rfl⟩ := Option.map_eq_some_iff.mp h
      obtain ⟨q, hq, hqname, htype⟩ := ih hj
      exact ⟨q, by simpa using hq, hqname, by rw [RetriveComParameterType, if_neg (Ne.symm hname), htype]⟩

/-! ## What is written -/

def Written (isMoSpiVersion2 : Bool) (parameters : List Parameter) (p : AdminOperationParams)
    (w : Nat × NamedAttributeValueContainer) : Prop :=
  (parameters.map (·.name)).idxOf? p.paramName = some w.1 ∧
    ∃ q, parameters[w.1]? = some q ∧ p.paramName = q.name ∧ w.2 = container p (paramTypeOf isMoSpiVersion2 q)

theorem translateImm2MoFrom_spec (isMoSpiVersion2 : Bool) (parameters : List Parameter)
    (params : List AdminOperationParams) :
    ((translateImm2MoFrom isMoSpiVersion2 (parameterOrder parameters) parameters params).1 = .ok ∧
      List.Forall₂ (Written isMoSpiVersion2 parameters) params
        (translateImm2MoFrom isMoSpiVersion2 (parameterOrder parameters) parameters params).2 ∧
      ∀ p ∈ params, p.paramName ∈ parameters.map (·.name)) ∨
    ((translateImm2MoFrom isMoSpiVersion2 (parameterOrder parameters) parameters params).1 ≠ .ok ∧
      ∃ p ∈ params, p.paramName ∉ parameters.map (·.name)) := by
  induction params with
  | nil => exact Or.inl ⟨rfl, .nil, nofun⟩
  | cons p params ih =>
    rw [translateImm2MoFrom, parameterOrder_apply]
    cases horder : (parameters.map (·.name)).idxOf? p.paramName with
    | none => exact Or.inr ⟨nofun, p, List.mem_cons_self, List.idxOf?_eq_none_iff.mp horder⟩
    | some i =>
      have hmem : p.paramName ∈ parameters.map (·.name) := by
        by_contra hnot
        rw [List.idxOf?_eq_none_iff.mpr hnot] at horder
        cases horder
      obtain ⟨q, hq, hqname, htype⟩ := RetriveComParameterType_of_order isMoSpiVersion2 horder
      simp only [htype]
      rcases ih with ⟨hok, hwritten, hall⟩ | ⟨hbad, other, hother, hnot⟩
      · exact Or.inl ⟨hok, .cons ⟨horder, q, hq, hqname.symm, rfl⟩ hwritten, List.forall_mem_cons.mpr ⟨hmem, hall⟩⟩
      · exact Or.inr ⟨hbad, other, List.mem_cons_of_mem _ hother, hnot⟩

/-! ## The places -/

theorem map_fst_of_written {isMoSpiVersion2 : Bool} {parameters : List Parameter}
    {params : List AdminOperationParams} {writes : List (Nat × NamedAttributeValueContainer)}
    (h : List.Forall₂ (Written isMoSpiVersion2 parameters) params writes) :
    (params.map (·.paramName)).map (parameters.map (·.name)).idxOf? = (writes.map Prod.fst).map some := by
  induction h with
  | nil => rfl
  | cons hp _ ih =>
    simp only [List.map_cons]
    rw [hp.1, ih]

theorem written_of_mem {isMoSpiVersion2 : Bool} {parameters : List Parameter}
    {params : List AdminOperationParams} {writes : List (Nat × NamedAttributeValueContainer)}
    (h : List.Forall₂ (Written isMoSpiVersion2 parameters) params writes)
    {w : Nat × NamedAttributeValueContainer} (hw : w ∈ writes) :
    ∃ p ∈ params, Written isMoSpiVersion2 parameters p w := by
  induction h with
  | nil => cases hw
  | cons hp _ ih =>
    rcases List.mem_cons.mp hw with rfl | hw
    · exact ⟨_, List.mem_cons_self, hp⟩
    · obtain ⟨p, hmem, hwritten⟩ := ih hw
      exact ⟨p, List.mem_cons_of_mem _ hmem, hwritten⟩

theorem entryAt_isSome {writes : List (Nat × NamedAttributeValueContainer)} {i : Nat}
    (h : i ∈ writes.map Prod.fst) : ∃ w ∈ writes, w.1 = i ∧ entryAt writes i = some w.2 := by
  obtain ⟨w, hw, rfl⟩ := List.mem_map.mp h
  cases hfind : writes.reverse.find? fun v => v.1 = w.1 with
  | none =>
    have hnone := List.find?_eq_none.mp hfind w (List.mem_reverse.mpr hw)
    simp at hnone
  | some v =>
    refine ⟨v, List.mem_reverse.mp (List.mem_of_find?_eq_some hfind), ?_, ?_⟩
    · simpa using List.find?_some hfind
    · rw [entryAt, hfind, Option.map_some]

theorem idxOf?_lt_iff {names : List (List Char)} {name : List Char} {i n : Nat} (h : names.idxOf? name = some i) :
    i < n ↔ name ∈ names.take n := by
  obtain ⟨hi, hname, hfirst⟩ := List.idxOf?_eq_some_iff.mp h
  constructor
  · intro hlt
    rw [← hname, List.mem_take_iff_getElem]
    exact ⟨i, by omega, rfl⟩
  · intro hmem
    obtain ⟨j, hj, hjname⟩ := List.mem_take_iff_getElem.mp hmem
    by_contra hle
    exact hfirst j (by omega) hjname

theorem idxOf?_inj {names : List (List Char)} {a b : List Char} {i : Nat} (ha : names.idxOf? a = some i)
    (hb : names.idxOf? b = some i) : a = b := by
  obtain ⟨_, ha, _⟩ := List.idxOf?_eq_some_iff.mp ha
  obtain ⟨_, hb, _⟩ := List.idxOf?_eq_some_iff.mp hb
  exact ha.symm.trans hb

theorem places_iff {names received : List (List Char)} {places : List Nat}
    (h : received.map names.idxOf? = places.map some) :
    ((∀ i ∈ places, i < received.length) ∧ ∀ i < received.length, places.count i = 1) ↔
      received.Nodup ∧ received.Perm (names.take received.length) := by
  have hlength : places.length = received.length := by simpa using (congrArg List.length h).symm
  have hplace : ∀ name ∈ received, ∃ i ∈ places, names.idxOf? name = some i := by
    intro name hname
    have hmem := List.mem_map_of_mem (f := names.idxOf?) hname
    rw [h] at hmem
    obtain ⟨i, hi, heq⟩ := List.mem_map.mp hmem
    exact ⟨i, hi, heq.symm⟩
  have hname : ∀ i ∈ places, ∃ name ∈ received, names.idxOf? name = some i := by
    intro i hi
    have hmem := List.mem_map_of_mem (f := some) hi
    rw [← h] at hmem
    exact List.mem_map.mp hmem
  constructor
  · rintro ⟨hinside, honce⟩
    have hnodup : places.Nodup := List.nodup_iff_count_eq_one.mpr fun i hi => honce i (hinside i hi)
    have hreceived : received.Nodup := by
      refine List.Nodup.of_map names.idxOf? ?_
      rw [h]
      exact hnodup.map (Option.some_injective Nat)
    refine ⟨hreceived, (List.Nodup.subperm hreceived ?_).perm_of_length_le ?_⟩
    · intro name hmem
      obtain ⟨i, hi, horder⟩ := hplace name hmem
      exact (idxOf?_lt_iff horder).mp (hinside i hi)
    · exact List.length_take_le _ _
  · rintro ⟨hreceived, hperm⟩
    have hinside : ∀ i ∈ places, i < received.length := by
      intro i hi
      obtain ⟨name, hmem, horder⟩ := hname i hi
      exact (idxOf?_lt_iff horder).mpr (hperm.subset hmem)
    have hnodup : places.Nodup := by
      refine List.Nodup.of_map some ?_
      rw [← h]
      refine hreceived.map_on fun a ha b _ heq => ?_
      obtain ⟨i, -, horder⟩ := hplace a ha
      exact idxOf?_inj horder (heq ▸ horder)
    have hrange : places.Perm (List.range received.length) := by
      refine (List.Nodup.subperm hnodup fun i hi => List.mem_range.mpr (hinside i hi)).perm_of_length_le ?_
      rw [List.length_range, hlength]
    refine ⟨hinside, fun i hi => ?_⟩
    rw [hrange.count_eq]
    exact List.nodup_iff_count_eq_one.mp List.nodup_range i (List.mem_range.mpr hi)

theorem places_lt_iff (isMoSpiVersion2 : Bool) (parameters : List Parameter) (n : Nat)
    (params : List AdminOperationParams) :
    (∀ w ∈ (translateImm2MoFrom isMoSpiVersion2 (parameterOrder parameters) parameters params).2, w.1 < n) ↔
      ∀ p ∈ params.takeWhile (fun p => parameters.any (·.name = p.paramName)),
        p.paramName ∈ (parameters.map (·.name)).take n := by
  induction params with
  | nil => exact iff_of_true nofun nofun
  | cons p params ih =>
    rw [translateImm2MoFrom, parameterOrder_apply]
    cases horder : (parameters.map (·.name)).idxOf? p.paramName with
    | none =>
      rw [List.takeWhile_cons_of_neg (by simpa using List.idxOf?_eq_none_iff.mp horder)]
      exact iff_of_true nofun nofun
    | some i =>
      have hmem : p.paramName ∈ parameters.map (·.name) := by
        by_contra hnot
        rw [List.idxOf?_eq_none_iff.mpr hnot] at horder
        cases horder
      obtain ⟨q, -, -, htype⟩ := RetriveComParameterType_of_order isMoSpiVersion2 horder
      rw [List.takeWhile_cons_of_pos (by simpa using hmem), List.forall_mem_cons, ← ih, ← idxOf?_lt_iff horder]
      simp only [htype, List.forall_mem_cons]

theorem writtenInside_iff (moIfVersion : RegisteredMoInterface) (parameters : List Parameter)
    (params : Option (List AdminOperationParams)) :
    WrittenInside params (translateParameters moIfVersion parameters params).2 ↔ HavePlaces parameters params := by
  cases params with
  | none => exact iff_of_true (fun w hw => by cases hw) fun p hp => by cases hp
  | some received => exact places_lt_iff _ parameters _ received

theorem inModelOrder_iff {moIfVersion : RegisteredMoInterface} {parameters : List Parameter}
    {params : List AdminOperationParams} {writes : List (Nat × NamedAttributeValueContainer)}
    (h : List.Forall₂ (Written (moIfVersion = .managedObject2) parameters) params writes) :
    InModelOrder moIfVersion parameters params writes ↔ Leading parameters params := by
  have hplaces := places_iff (map_fst_of_written h)
  rw [List.length_map] at hplaces
  constructor
  · rintro ⟨hinside, honce, -⟩
    exact hplaces.mp ⟨fun i hi => by obtain ⟨w, hw, rfl⟩ := List.mem_map.mp hi; exact hinside w hw, honce⟩
  · intro hleading
    obtain ⟨hinside, honce⟩ := hplaces.mpr hleading
    refine ⟨fun w hw => hinside w.1 (List.mem_map_of_mem hw), honce, fun i hi => ?_⟩
    obtain ⟨w, hw, rfl, hentry⟩ := entryAt_isSome (List.count_pos_iff.mp (by rw [honce i hi]; decide))
    obtain ⟨p, hp, hwritten⟩ := written_of_mem h hw
    obtain ⟨-, q, hq, hname, heq⟩ := hwritten
    exact ⟨q, p, hq, hp, hname, hentry.trans (congrArg some heq)⟩

/-- The parameters are placed right if they are turned down, and else just if they are those that the model
begins with. -/
theorem placed_iff (moIfVersion : RegisteredMoInterface) (parameters : List Parameter)
    (params : Option (List AdminOperationParams)) :
    Placed moIfVersion parameters params ↔
      Unmodelled parameters params ∨ ∃ received, params = some received ∧ Leading parameters received := by
  cases params with
  | none => exact iff_of_true nofun (Or.inl trivial)
  | some received =>
    have hspec := translateImm2MoFrom_spec (moIfVersion = .managedObject2) parameters received
    simp only [Placed, translateParameters, OIProxy_translateImm2Mo, Unmodelled, Option.some.injEq, exists_eq_left']
    rcases hspec with ⟨hok, hwritten, hall⟩ | ⟨hbad, hnot⟩
    · rw [forall_prop_of_true hok, inModelOrder_iff hwritten]
      refine ⟨Or.inr, fun hor => hor.resolve_left ?_⟩
      rintro ⟨p, hp, hname⟩
      exact hname (hall p hp)
    · exact iff_of_true (fun hok => absurd hok hbad) (Or.inl hnot)

/-- One parameter of two came, and it is the second. -/
theorem not_placed :
    ¬ Placed .managedObject3
      [⟨"a".toList, ⟨⟨.int32, .void, 1, 1⟩, none, []⟩⟩, ⟨"b".toList, ⟨⟨.int32, .void, 1, 1⟩, none, []⟩⟩]
      (some [⟨"b".toList, .saInt32, .number 5⟩]) := by
  intro h
  obtain ⟨received, heq, hinside, -, -⟩ := h (by decide)
  obtain rfl := Option.some.inj heq
  exact absurd (hinside _ List.mem_cons_self) (by decide)

end ComSA.OIproxy.Admin
