import ComSA.Motransaction.Bridge
import ComSA.Motransaction.DeletedRuns
import ComSA.Motransaction.ModifiedRuns
import Mathlib.Algebra.Group.Int.Defs

/-!
# The data classes of the cache

A value that is written goes through a factory into an object of the class for its type,
and a value that is read comes out of such an object again. The cache keeps an object as
its type and its value.
-/

namespace ComSA

open ModifiedObjects

/-! ## Values that fit their types -/

def asSigned (w : Nat) (n : Int) : Int := n.bmod (2 ^ w)

def asUnsigned (w : Nat) (n : Int) : Int := n % 2 ^ w

def FitsSigned (w : Nat) (n : Int) : Prop := -2 ^ (w - 1) ≤ n ∧ n < 2 ^ (w - 1)

def FitsUnsigned (w : Nat) (n : Int) : Prop := 0 ≤ n ∧ n < 2 ^ w

/-- The member of the union that a type uses can hold the value. A double is held by its bits, and a string
or a reference is a pointer, which may be NULL. -/
def MoAttributeType.Holds : MoAttributeType → MoValue → Prop
  | int8, .number n => FitsSigned 8 n
  | int16, .number n => FitsSigned 16 n
  | int32, .number n => FitsSigned 32 n
  | int64, .number n => FitsSigned 64 n
  | uint8, .number n => FitsUnsigned 8 n
  | uint16, .number n => FitsUnsigned 16 n
  | uint32, .number n => FitsUnsigned 32 n
  | uint64, .number n => FitsUnsigned 64 n
  | string, .text _ | string, .null => True
  | bool, .flag _ => True
  | reference, .text _ | reference, .null => True
  | enum, .number n => FitsSigned 64 n
  | decimal64, .number n => FitsUnsigned 64 n
  | _, _ => False

/-- A container whose values are all of its type, which is what the interface hands over. -/
structure TypedContainer extends MoAttributeValueContainer where
  typed : ∀ x ∈ values, type.Holds x

/-! ## The factory -/

abbrev OamSADataClass := MoAttributeType × MoValue

/-- `CreateOamSAData`, with the `SetComOamValue` of each class. A value that is not of the type would be
read from the wrong member of the union. The pointer of a string or a reference stays NULL when it is
given NULL. -/
def createOamSAData : MoAttributeType → MoValue → Option OamSADataClass
  | .int8, .number n => some (.int8, .number (asSigned 8 n))
  | .int16, .number n => some (.int16, .number (asSigned 16 n))
  | .int32, .number n => some (.int32, .number (asSigned 32 n))
  | .int64, .number n => some (.int64, .number (asSigned 64 n))
  | .uint8, .number n => some (.uint8, .number (asUnsigned 8 n))
  | .uint16, .number n => some (.uint16, .number (asUnsigned 16 n))
  | .uint32, .number n => some (.uint32, .number (asUnsigned 32 n))
  | .uint64, .number n => some (.uint64, .number (asUnsigned 64 n))
  | .string, .text s => some (.string, .text s)
  | .string, .null => some (.string, .null)
  | .decimal64, .number n => some (.decimal64, .number (asUnsigned 64 n))
  | .bool, .flag b => some (.bool, .flag b)
  | .reference, .text s => some (.reference, .text s)
  | .reference, .null => some (.reference, .null)
  | .enum, .number n => some (.enum, .number (asSigned 64 n))
  | _, _ => none

/-- The container that is read. Without values its type may never have been set. -/
structure ReadContainer where
  type : Option MoAttributeType
  values : List MoValue
  deriving DecidableEq, Repr

/-- `GetComOamValue`, into memory that was just allocated: where the pointer is NULL, nothing is copied to its
one byte. -/
def getComOamValue : MoValue → MoValue
  | .null => .undefined
  | value => value

def MoAttributeValueContainer.written (v : MoAttributeValueContainer) : ReadContainer := ⟨some v.type, v.values⟩

def MoAttributeValueContainer.read (v : MoAttributeValueContainer) : ReadContainer :=
  ⟨some v.type, v.values.map getComOamValue⟩

/-- The loop of `CreateMafMoAttrValCont`: each object says its type again, the last one for good. -/
def readData : List OamSADataClass → ReadContainer → ReadContainer
  | [], ctp => ctp
  | (type, value) :: rest, ctp => readData rest ⟨some type, ctp.values ++ [getComOamValue value]⟩

def createMafMoAttrValCont (dac : DataContainer) : ReadContainer :=
  if dac.data = [] then ⟨dac.attributeType, []⟩ else readData dac.data ⟨none, []⟩

theorem asSigned_of_fits {w : Nat} (hw : 0 < w) {n : Int} (h : FitsSigned w n) : asSigned w n = n := by
  unfold FitsSigned at h
  unfold asSigned
  obtain ⟨k, rfl⟩ : ∃ k, w = k + 1 := ⟨w - 1, by omega⟩
  simp only [Nat.add_sub_cancel] at h
  have hpow : (2 : Int) ^ (k + 1) = 2 * 2 ^ k := by rw [Int.pow_succ, Int.mul_comm]
  have hcast : ((2 ^ (k + 1) : Nat) : Int) = 2 * 2 ^ k := by rw [Int.natCast_pow]; exact hpow
  apply Int.bmod_eq_of_le
  · rw [hcast]
    omega
  · rw [hcast]
    omega

theorem asUnsigned_of_fits {w : Nat} {n : Int} (h : FitsUnsigned w n) : asUnsigned w n = n :=
  Int.emod_eq_of_lt h.1 h.2

theorem createOamSAData_of_holds {type : MoAttributeType} {value : MoValue} (h : type.Holds value) :
    createOamSAData type value = some (type, value) := by
  cases type <;> cases value <;>
    simp only [MoAttributeType.Holds] at h <;>
    simp [createOamSAData, asSigned_of_fits, asUnsigned_of_fits, h]

theorem createData_eq (v : TypedContainer) :
    v.values.mapM (createOamSAData v.type) = some (createData v.toMoAttributeValueContainer) := by
  unfold createData
  obtain ⟨⟨type, values⟩, typed⟩ := v
  dsimp only at typed ⊢
  induction values with
  | nil => rfl
  | cons x xs ih =>
    have hx := createOamSAData_of_holds (typed x List.mem_cons_self)
    rw [List.mapM_cons, hx, ih fun y hy => typed y (List.mem_cons_of_mem x hy)]
    rfl

theorem readData_eq (type : MoAttributeType) (values : List MoValue) (ctp : ReadContainer) :
    readData (values.map (type, ·)) ctp =
      ⟨if values = [] then ctp.type else some type, ctp.values ++ values.map getComOamValue⟩ := by
  induction values generalizing ctp with
  | nil => simp [readData]
  | cons x xs ih =>
    rw [List.map_cons, readData, ih]
    simp

theorem getComOamValue_eq_self {x : MoValue} : getComOamValue x = x ↔ x ≠ .null := by
  cases x <;> simp [getComOamValue]

theorem read_eq_written_iff {v : MoAttributeValueContainer} : v.read = v.written ↔ MoValue.null ∉ v.values := by
  have hmap : v.values.map getComOamValue = v.values ↔ ∀ x ∈ v.values, getComOamValue x = x := by
    conv_lhs => rw [← List.map_id v.values, List.map_map]
    exact List.map_inj_left
  unfold MoAttributeValueContainer.read MoAttributeValueContainer.written
  simp only [ReadContainer.mk.injEq, true_and, hmap, getComOamValue_eq_self]
  exact ⟨fun h hnull => h .null hnull rfl, fun h x hx => ne_of_mem_of_not_mem hx h⟩

/-! ## The attributes of the cache -/

namespace Cache

def getAttribute (dn : List String) (attributeName : String) (c : Cache) : Option ReadContainer :=
  (findAttribute dn attributeName c.modified).map createMafMoAttrValCont

end Cache

theorem read_alteredContainer (v : MoAttributeValueContainer) (old : Option DataContainer) :
    createMafMoAttrValCont (ObjectData.alteredContainer v old) = v.read := by
  unfold ObjectData.alteredContainer createMafMoAttrValCont MoAttributeValueContainer.read
  by_cases hv : v.values = []
  · simp [hv]
  · simp [hv, createData, readData_eq]

theorem getAttribute_eq (dn : List String) (attributeName : String) (c : Cache) :
    c.getAttribute dn attributeName = (objectAt dn c.modified).bind fun o =>
      (SortedMap.get? attributeName o.attributes).map createMafMoAttrValCont := by
  unfold Cache.getAttribute
  rw [findAttribute_eq, Option.map_bind]
  rfl

theorem getAttribute_insert (dn : Dn) (immName attributeName : String) (v : MoAttributeValueContainer)
    (c : Cache) (x : List String) (name : String) :
    { c with modified := ModifiedObjects.insert dn.parts immName attributeName v c.modified }.getAttribute x name =
      if x = dn.parts ∧ name = attributeName then some v.read else c.getAttribute x name := by
  rw [getAttribute_eq, getAttribute_eq]
  unfold ModifiedObjects.insert
  dsimp only
  rw [objectAt_addNames]
  by_cases hx : x = dn.parts
  · subst hx
    rw [if_pos rfl, Option.bind_some, asAltered_attributes, SortedMap.get?_put]
    by_cases hname : name = attributeName
    · rw [if_pos hname, if_pos ⟨rfl, hname⟩, Option.map_some, read_alteredContainer]
    · rw [if_neg hname, if_neg fun h => hname h.2]
      cases objectAt dn.parts c.modified <;> rfl
  · rw [if_neg hx, if_neg (fun h => hx h.1 : ¬ (x = dn.parts ∧ name = attributeName))]
    split
    · cases objectAt x c.modified <;> rfl
    · rfl

/-- What an update that succeeds is to do: the attribute holds the type and the values of the container, in
objects that the factory made, every other attribute is as it was, and a second update replaces the first. -/
structure ReadsUpdatedAttribute (c : Cache) (dn : Dn) (immName attributeName : String) (v : TypedContainer)
    (after : Cache) : Prop where
  read : after.getAttribute dn.parts attributeName = some ⟨some v.type, v.values⟩
  data : (findAttribute dn.parts attributeName after.modified).map DataContainer.data =
    v.values.mapM (createOamSAData v.type)
  others : ∀ (x : Dn) (name : String), (x, name) ≠ (dn, attributeName) →
    after.getAttribute x.parts name = c.getAttribute x.parts name
  replaced : ∀ (immName' : String) (v' : TypedContainer),
    (after.updateObjectAttribute dn.parts immName' attributeName v'.toMoAttributeValueContainer).2.getAttribute
        dn.parts attributeName =
      (c.updateObjectAttribute dn.parts immName' attributeName v'.toMoAttributeValueContainer).2.getAttribute
        dn.parts attributeName

theorem updateObjectAttribute_of_alive {c : Cache} {dn : Dn} (h : c.isDeleted dn.parts = false)
    (immName attributeName : String) (v : MoAttributeValueContainer) :
    (c.updateObjectAttribute dn.parts immName attributeName v).2 =
      { c with modified := ModifiedObjects.insert dn.parts immName attributeName v c.modified } := by
  unfold Cache.updateObjectAttribute
  rw [h, if_neg Bool.false_ne_true]

theorem getAttribute_updateObjectAttribute {c : Cache} {dn : Dn} (h : c.isDeleted dn.parts = false)
    (immName attributeName : String) (v : MoAttributeValueContainer) :
    (c.updateObjectAttribute dn.parts immName attributeName v).2.getAttribute dn.parts attributeName =
      some v.read := by
  rw [updateObjectAttribute_of_alive h, getAttribute_insert, if_pos ⟨rfl, rfl⟩]

/-- What is written is read back exactly when no value is a NULL string or reference. -/
theorem reads_updated_attribute_iff (c : Cache) (dn : Dn) (immName attributeName : String) (v : TypedContainer)
    (h : (c.updateObjectAttribute dn.parts immName attributeName v.toMoAttributeValueContainer).1 = true) :
    ReadsUpdatedAttribute c dn immName attributeName v
        (c.updateObjectAttribute dn.parts immName attributeName v.toMoAttributeValueContainer).2 ↔
      MoValue.null ∉ v.values := by
  have halive : c.isDeleted dn.parts = false := by
    rw [← Bool.not_eq_true]
    intro hdel
    unfold Cache.updateObjectAttribute at h
    rw [if_pos hdel] at h
    cases h
  have hread := getAttribute_updateObjectAttribute halive immName attributeName v.toMoAttributeValueContainer
  constructor
  · intro hreads
    exact read_eq_written_iff.mp (Option.some.inj (hread.symm.trans hreads.read))
  · intro hnull
    have hafter := updateObjectAttribute_of_alive halive immName attributeName v.toMoAttributeValueContainer
    refine ⟨hread.trans (congrArg some (read_eq_written_iff.mpr hnull)), ?_, ?_, ?_⟩
    · rw [hafter, createData_eq, findAttribute_eq]
      unfold ModifiedObjects.insert
      dsimp only
      rw [objectAt_addNames, if_pos rfl, Option.bind_some, asAltered_attributes, SortedMap.get?_put, if_pos rfl,
        Option.map_some]
      unfold ObjectData.alteredContainer
      split <;> rename_i hv
      · simp [createData, hv]
      · rfl
    · intro x name hne
      rw [hafter, getAttribute_insert, if_neg]
      rintro ⟨hx, rfl⟩
      exact hne (by rw [Dn.parts_injective hx])
    · intro immName' v'
      have halive' : (c.updateObjectAttribute dn.parts immName attributeName v.toMoAttributeValueContainer).2.isDeleted
          dn.parts = false := by
        rw [hafter]
        exact halive
      rw [getAttribute_updateObjectAttribute halive', getAttribute_updateObjectAttribute halive]

/-- An attribute that had two values is left with none, and keeps its type. -/
theorem reads_updated_attribute_sample :
    let c := (({} : Cache).updateObjectAttribute ["A=1", "B=2"] "b=2,a=1" "x"
      ⟨.uint16, [.number 7, .number 65535]⟩).2
    (c.updateObjectAttribute ["A=1", "B=2"] "b=2,a=1" "x" ⟨.uint16, []⟩).2.getAttribute ["A=1", "B=2"] "x" =
      some ⟨some .uint16, []⟩ :=
  ((reads_updated_attribute_iff (({} : Cache).updateObjectAttribute ["A=1", "B=2"] "b=2,a=1" "x"
      ⟨.uint16, [.number 7, .number 65535]⟩).2 ⟨["A=1", "B=2"], by simp⟩ "b=2,a=1" "x"
    ⟨⟨.uint16, []⟩, by simp⟩ (by decide)).mpr (by decide)).read

/-- A NULL string comes back as memory that nobody wrote to. -/
theorem not_reads_updated_attribute : ¬ ∀ (c : Cache) (dn : Dn) (immName attributeName : String)
    (v : TypedContainer),
    (c.updateObjectAttribute dn.parts immName attributeName v.toMoAttributeValueContainer).1 = true →
      ReadsUpdatedAttribute c dn immName attributeName v
        (c.updateObjectAttribute dn.parts immName attributeName v.toMoAttributeValueContainer).2 := by
  intro h
  have hread := (h {} ⟨["A=1"], by simp⟩ "a=1" "x" ⟨⟨.string, [.null]⟩, by simp [MoAttributeType.Holds]⟩
    (by decide)).read
  revert hread
  decide

end ComSA
