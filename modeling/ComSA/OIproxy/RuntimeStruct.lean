import ComSA.OIproxy.AttributeValues
import ComSA.Utils.SaName

/-!
# The attributes of a runtime struct

The members of a struct are collected by the width of their values, in queues that go side by side. The
attributes of the object in IMM are made when the queues are emptied again.
-/

namespace ComSA.OIproxy

open Action (SaImmValueType)

/-! ## Members and queues -/

/-- `MafMoAttributeValueStructMember_3`. The type is that of the values, and a struct or an invalid number has
none. A string that is null points nowhere. -/
structure RuntimeMember where
  memberName : Option String
  type : Option MoAttributeType
  values : List MafMoAttributeValue
  deriving DecidableEq, Repr

structure NameEnv where
  MO2Imm_DN : String → String
  bExtendedNameEnabled : Bool

def NameEnv.Fits (env : NameEnv) (cstr : String) : Prop := SaName.HasRoom env.bExtendedNameEnabled cstr

instance (env : NameEnv) (cstr : String) : Decidable (env.Fits cstr) := inferInstanceAs (Decidable (SaName.HasRoom _ _))

/-- Where the string does not fit, its NUL is written behind the array. -/
def NameEnv.makeSaNameT (env : NameEnv) (cstr : String) : Option String :=
  if env.Fits cstr then some cstr else none

variable (env : NameEnv)

inductive MemberValues where
  | int32 (l : List (BitVec 32))
  | uint32 (l : List (BitVec 32))
  | int64 (l : List (BitVec 64))
  | uint64 (l : List (BitVec 64))
  | double (l : List (BitVec 64))
  | string (l : List String)
  | name (l : List String)
  deriving DecidableEq, Repr

namespace MemberValues

def isEmpty : MemberValues → Bool
  | int32 l | uint32 l => l.isEmpty
  | int64 l | uint64 l | double l => l.isEmpty
  | string l | name l => l.isEmpty

def attrType : MemberValues → SaImmValueType
  | int32 _ => .saInt32
  | uint32 _ => .saUint32
  | int64 _ => .saInt64
  | uint64 _ => .saUint64
  | double _ => .saDouble
  | string _ => .saString
  | name _ => .saName

def buffers : MemberValues → List SaImmAttrValue
  | int32 l | uint32 l => l.map .four
  | int64 l | uint64 l | double l => l.map .eight
  | string l => l.map .string
  | name l => l.map .name

def Fit (values : MemberValues) : Prop := ∀ l, values = name l → ∀ s ∈ l, env.Fits s

end MemberValues

/-- Names and types go together, and each value list goes to the queue of its width. -/
structure MemberQueues where
  attrNameList : List String
  attrTypeList : List SaImmValueType
  attrInt32ValueList : List (List (BitVec 32))
  attrInt64ValueList : List (List (BitVec 64))
  attrUInt32ValueList : List (List (BitVec 32))
  attrUInt64ValueList : List (List (BitVec 64))
  attrStringValueList : List (List String)
  attrDec64ValueList : List (List (BitVec 64))
  deriving DecidableEq, Repr

def MemberQueues.empty : MemberQueues := ⟨[], [], [], [], [], [], [], []⟩

def MemberQueues.pushValues (values : MemberValues) (q : MemberQueues) : MemberQueues :=
  match values with
  | .int32 l => { q with attrInt32ValueList := q.attrInt32ValueList ++ [l] }
  | .uint32 l => { q with attrUInt32ValueList := q.attrUInt32ValueList ++ [l] }
  | .int64 l => { q with attrInt64ValueList := q.attrInt64ValueList ++ [l] }
  | .uint64 l => { q with attrUInt64ValueList := q.attrUInt64ValueList ++ [l] }
  | .double l => { q with attrDec64ValueList := q.attrDec64ValueList ++ [l] }
  | .string l | .name l => { q with attrStringValueList := q.attrStringValueList ++ [l] }

def MemberQueues.push (attrName : String) (values : MemberValues) (q : MemberQueues) : MemberQueues :=
  { q.pushValues values with
    attrNameList := q.attrNameList ++ [attrName]
    attrTypeList := q.attrTypeList ++ [values.attrType] }

/-! ## Collecting and emptying -/

def memberValues (type : MoAttributeType) (values : List MafMoAttributeValue) : MemberValues :=
  match type with
  | .int8 => .int32 (values.map fun v => (v.bits 8).signExtend 32)
  | .int16 => .int32 (values.map fun v => (v.bits 16).signExtend 32)
  | .int32 => .int32 (values.map fun v => v.bits 32)
  | .int64 => .int64 (values.map fun v => v.bits 64)
  | .uint8 => .uint32 (values.map fun v => (v.bits 8).setWidth 32)
  | .uint16 => .uint32 (values.map fun v => (v.bits 16).setWidth 32)
  | .uint32 => .uint32 (values.map fun v => v.bits 32)
  | .uint64 => .uint64 (values.map fun v => v.bits 64)
  | .string => .string (values.filterMap fun v => v.string)
  | .bool => .int32 (values.map fun v => boolBits 32 v.theBool)
  | .reference => .name (values.filterMap fun v => v.string.map env.MO2Imm_DN)
  | .enum => .int32 (values.map fun v => (v.bits 64).setWidth 32)
  | .decimal64 => .double (values.map fun v => v.bits 64)

/-- The first pass, to a member without a name. The members are counted. -/
def collectMembers : List RuntimeMember → Nat → MemberQueues → Nat × MemberQueues
  | [], nrOfMembers, q => (nrOfMembers, q)
  | SM :: members, nrOfMembers, q =>
    match SM.memberName with
    | none => (nrOfMembers, q)
    | some memberName =>
      if 0 < SM.values.length then
        match SM.type with
        | none => collectMembers members nrOfMembers q
        | some type =>
          if (memberValues env type SM.values).isEmpty then collectMembers members nrOfMembers q
          else collectMembers members (nrOfMembers + 1) (q.push memberName (memberValues env type SM.values))
      else collectMembers members nrOfMembers q

/-- The values at the front of the queue for the type. There is no front of an empty queue, and no result where a
name does not fit. -/
def MemberQueues.popValues (attrType : SaImmValueType) (q : MemberQueues) :
    Option (List SaImmAttrValue × MemberQueues) :=
  match attrType with
  | .saInt32 =>
    match q.attrInt32ValueList with
    | [] => none
    | l :: rest => some (l.map .four, { q with attrInt32ValueList := rest })
  | .saUint32 =>
    match q.attrUInt32ValueList with
    | [] => none
    | l :: rest => some (l.map .four, { q with attrUInt32ValueList := rest })
  | .saInt64 =>
    match q.attrInt64ValueList with
    | [] => none
    | l :: rest => some (l.map .eight, { q with attrInt64ValueList := rest })
  | .saUint64 =>
    match q.attrUInt64ValueList with
    | [] => none
    | l :: rest => some (l.map .eight, { q with attrUInt64ValueList := rest })
  | .saDouble =>
    match q.attrDec64ValueList with
    | [] => none
    | l :: rest => some (l.map .eight, { q with attrDec64ValueList := rest })
  | .saName =>
    match q.attrStringValueList with
    | [] => none
    | l :: rest => (l.mapM env.makeSaNameT).map fun names => (names.map .name, { q with attrStringValueList := rest })
  | .saString =>
    match q.attrStringValueList with
    | [] => none
    | l :: rest => some (l.map .string, { q with attrStringValueList := rest })
  | .saTime | .saFloat | .saAny => some ([], q)

def createAttrMods : Nat → MemberQueues → Option (List SaImmAttrValues)
  | 0, _ => some []
  | n + 1, q =>
    match q.attrNameList, q.attrTypeList with
    | attrName :: names, attrType :: types =>
      match ({ q with attrNameList := names, attrTypeList := types }).popValues env attrType with
      | none => none
      | some (attrValues, q) => (createAttrMods n q).map fun attrMods => ⟨attrName, attrType, attrValues⟩ ::
        attrMods
    | _, _ => none

def createRuntimeStructAttrMods (rdnValue : String) (SM : List RuntimeMember) :
    Option (List (Option SaImmAttrValues)) :=
  let collected := collectMembers env SM 1 (MemberQueues.empty.push "id" (.string [rdnValue]))
  (createAttrMods env collected.1 collected.2).map fun attrMods => attrMods.map some ++ [none]

/-! ## What the attributes have to be -/

def immType : MoAttributeType → SaImmValueType
  | .int8 | .int16 | .int32 | .bool | .enum => .saInt32
  | .uint8 | .uint16 | .uint32 => .saUint32
  | .int64 => .saInt64
  | .uint64 => .saUint64
  | .string => .saString
  | .reference => .saName
  | .decimal64 => .saDouble

def immValueOf (attrValueType : SaImmValueType) : SaImmAttrValue → MoValue
  | .four bytes => .number (if attrValueType = .saInt32 then bytes.toInt else bytes.toNat)
  | .eight bytes => .number (if attrValueType = .saInt64 then bytes.toInt else bytes.toNat)
  | .string s => .text s
  | .name s => .text s

/-- A value of a member as IMM can have it: a flag as a number, and a reference by its name there. -/
def asImm (type : MoAttributeType) : MoValue → MoValue
  | .flag b => .number (if b then 1 else 0)
  | .text s => .text (if type = .reference then env.MO2Imm_DN s else s)
  | v => v

def asStored (type : MoAttributeType) (v : MoValue) : MoValue :=
  match type, v with
  | .enum, .number n => .number (n.bmod (2 ^ 32))
  | _, v => asImm env type v

def usableValues (SM : RuntimeMember) (type : MoAttributeType) : List MoValue := SM.values.filterMap (valueOf type)

/-- The references of the members, up to one without a name, have IMM names that fit. -/
def ReferencesFit (SM : List RuntimeMember) : Prop :=
  ∀ m ∈ SM.takeWhile fun m => m.memberName.isSome, m.type = some .reference →
    ∀ v ∈ m.values, ∀ s, v.string = some s → env.Fits (env.MO2Imm_DN s)

structure IsAttribute (attr : SaImmAttrValues) (attrName : String) (attrValueType : SaImmValueType)
    (values : List MoValue) : Prop where
  name : attr.attrName = attrName
  type : attr.attrValueType = attrValueType
  values : attr.attrValues.map (immValueOf attrValueType) = values

def expectedMember (convert : MoAttributeType → MoValue → MoValue) (SM : RuntimeMember) :
    Option (String × SaImmValueType × List MoValue) :=
  match SM.memberName, SM.type with
  | some memberName, some type =>
    if usableValues SM type = [] then none
    else some (memberName, immType type, (usableValues SM type).map (convert type))
  | _, _ => none

/-- The attribute `id`, those of the members in their order, and the end. -/
def Keeps (convert : MoAttributeType → MoValue → MoValue) (rdnValue : String)
    (SM members : List RuntimeMember) : Prop :=
  ∃ id attrs, createRuntimeStructAttrMods env rdnValue SM = some (some id :: attrs.map some ++ [none]) ∧
    IsAttribute id "id" .saString [.text rdnValue] ∧
    List.Forall₂ (fun attr x => IsAttribute attr x.1 x.2.1 x.2.2) attrs (members.filterMap (expectedMember convert))

/-! ## The queues of attributes -/

def queuesOf (members : List (String × MemberValues)) : MemberQueues :=
  members.foldl (fun q a => q.push a.1 a.2) MemberQueues.empty

namespace MemberQueues

def prepend (a : String × MemberValues) (q : MemberQueues) : MemberQueues :=
  let q := { q with attrNameList := a.1 :: q.attrNameList, attrTypeList := a.2.attrType :: q.attrTypeList }
  match a.2 with
  | .int32 l => { q with attrInt32ValueList := l :: q.attrInt32ValueList }
  | .uint32 l => { q with attrUInt32ValueList := l :: q.attrUInt32ValueList }
  | .int64 l => { q with attrInt64ValueList := l :: q.attrInt64ValueList }
  | .uint64 l => { q with attrUInt64ValueList := l :: q.attrUInt64ValueList }
  | .double l => { q with attrDec64ValueList := l :: q.attrDec64ValueList }
  | .string l | .name l => { q with attrStringValueList := l :: q.attrStringValueList }

theorem push_prepend (a : String × MemberValues) (attrName : String) (values : MemberValues) (q : MemberQueues) :
    (q.prepend a).push attrName values = (q.push attrName values).prepend a := by
  obtain ⟨name, v⟩ := a
  cases v <;> cases values <;> rfl

end MemberQueues

theorem queuesOf_cons (a : String × MemberValues) (members : List (String × MemberValues)) :
    queuesOf (a :: members) = (queuesOf members).prepend a := by
  have hfold : ∀ q : MemberQueues, members.foldl (fun q a => q.push a.1 a.2) (q.prepend a) =
      (members.foldl (fun q a => q.push a.1 a.2) q).prepend a := by
    induction members with
    | nil => exact fun q => rfl
    | cons b members ih =>
      intro q
      rw [List.foldl_cons, List.foldl_cons, MemberQueues.push_prepend, ih]
  have hempty : MemberQueues.empty.push a.1 a.2 = MemberQueues.empty.prepend a := by
    obtain ⟨name, v⟩ := a
    cases v <;> rfl
  rw [queuesOf, List.foldl_cons, hempty, hfold, queuesOf]

def attrOf (a : String × MemberValues) : SaImmAttrValues := ⟨a.1, a.2.attrType, a.2.buffers⟩

theorem mapM_makeSaNameT {names : List String} (h : ∀ s ∈ names, env.Fits s) :
    names.mapM env.makeSaNameT = some names := by
  induction names with
  | nil => rfl
  | cons s names ih =>
    have hs : env.makeSaNameT s = some s := if_pos (h s List.mem_cons_self)
    rw [List.mapM_cons, hs, ih fun t ht => h t (List.mem_cons_of_mem s ht)]
    rfl

theorem popValues_name {l : List String} (h : ∀ s ∈ l, env.Fits s) {q : MemberQueues} {rest : List (List String)}
    (hq : q.attrStringValueList = l :: rest) :
    q.popValues env .saName = some (l.map .name, { q with attrStringValueList := rest }) := by
  unfold MemberQueues.popValues
  dsimp only
  rw [hq]
  dsimp only
  rw [mapM_makeSaNameT env h]
  rfl

theorem createAttrMods_prepend {a : String × MemberValues} (h : a.2.Fit env) (n : Nat) (q : MemberQueues) :
    createAttrMods env (n + 1) (q.prepend a) = (createAttrMods env n q).map (attrOf a :: ·) := by
  obtain ⟨name, v⟩ := a
  cases v with
  | name l =>
    rw [createAttrMods]
    dsimp only [MemberQueues.prepend, MemberValues.attrType]
    rw [popValues_name env (h l rfl) rfl]
    rfl
  | _ => rfl

theorem createAttrMods_queuesOf {members : List (String × MemberValues)} (h : ∀ a ∈ members, a.2.Fit env) :
    createAttrMods env members.length (queuesOf members) = some (members.map attrOf) := by
  induction members with
  | nil => rfl
  | cons a members ih =>
    rw [queuesOf_cons, List.length_cons, createAttrMods_prepend env (h a List.mem_cons_self),
      ih fun b hb => h b (List.mem_cons_of_mem a hb), Option.map_some, List.map_cons]

/-! ## The members that are collected -/

def collectedMember (SM : RuntimeMember) : Option (String × MemberValues) :=
  match SM.memberName, SM.type with
  | some memberName, some type =>
    if (memberValues env type SM.values).isEmpty then none
    else some (memberName, memberValues env type SM.values)
  | _, _ => none

theorem memberValues_nil (type : MoAttributeType) : (memberValues env type []).isEmpty = true := by
  cases type <;> rfl

theorem collectMembers_named {m : RuntimeMember} (h : m.memberName.isSome = true) (SM : List RuntimeMember)
    (n : Nat)
    (q : MemberQueues) :
    collectMembers env (m :: SM) n q =
      match collectedMember env m with
      | none => collectMembers env SM n q
      | some a => collectMembers env SM (n + 1) (q.push a.1 a.2) := by
  obtain ⟨memberName, hname⟩ := Option.isSome_iff_exists.mp h
  rw [collectMembers, collectedMember, hname]
  dsimp only
  cases htype : m.type with
  | none => split <;> rfl
  | some type =>
    dsimp only
    by_cases hvalues : m.values = []
    · rw [hvalues, memberValues_nil]
      rfl
    · rw [if_pos (List.length_pos_of_ne_nil hvalues)]
      split <;> rfl

theorem collectMembers_queuesOf (SM : List RuntimeMember) (members : List (String × MemberValues)) :
    collectMembers env SM members.length (queuesOf members) =
      let all := members ++ (SM.takeWhile fun m => m.memberName.isSome).filterMap (collectedMember env)
      (all.length, queuesOf all) := by
  induction SM generalizing members with
  | nil =>
    dsimp only
    rw [List.takeWhile_nil, List.filterMap_nil, List.append_nil]
    rfl
  | cons m SM ih =>
    cases hname : m.memberName.isSome with
    | false =>
      have hnone : m.memberName = none := by simpa using hname
      rw [collectMembers, hnone]
      dsimp only
      rw [List.takeWhile_cons_of_neg (by simp [hname]), List.filterMap_nil, List.append_nil]
    | true =>
      rw [collectMembers_named env hname, List.takeWhile_cons_of_pos (by simp [hname]), List.filterMap_cons]
      cases collectedMember env m with
      | none => exact ih members
      | some a =>
        have hpush : (queuesOf members).push a.1 a.2 = queuesOf (members ++ [a]) := by
          rw [queuesOf, queuesOf, List.foldl_append]
          rfl
        have hrest := ih (members ++ [a])
        rw [List.length_append] at hrest
        dsimp only at hrest ⊢
        rw [hpush]
        rw [List.append_assoc] at hrest
        exact hrest

/-! ## The attributes -/

theorem toInt_setWidth_bmod (b : BitVec 64) : (b.setWidth 32).toInt = b.toInt.bmod (2 ^ 32) := by
  rw [BitVec.toInt_setWidth, BitVec.toInt_eq_toNat_cond]
  split
  · rfl
  · rw [Int.bmod_def, Int.bmod_def]
    omega

theorem map_usable {w : Nat} {values : List MafMoAttributeValue} {bits : MafMoAttributeValue → BitVec w}
    {buffer : BitVec w → SaImmAttrValue} {read : SaImmAttrValue → MoValue} {meaning : MafMoAttributeValue → MoValue}
    {convert : MoValue → MoValue} (h : ∀ v, read (buffer (bits v)) = convert (meaning v)) :
    ((values.map bits).map buffer).map read = (values.filterMap fun v => some (meaning v)).map convert := by
  rw [List.filterMap_eq_map', List.map_map, List.map_map, List.map_map]
  exact List.map_congr_left fun v _ => h v

theorem filterMap_usable {values : List MafMoAttributeValue} {dn : String → String} {buffer : String →
    SaImmAttrValue}
    {read : SaImmAttrValue → MoValue} {convert : MoValue → MoValue} (h : ∀ s, read (buffer (dn s)) = convert
      (.text s)) :
    ((values.filterMap fun v => v.string.map dn).map buffer).map read =
      (values.filterMap fun v => v.string.map .text).map convert := by
  induction values with
  | nil => rfl
  | cons v values ih =>
    rw [List.filterMap_cons, List.filterMap_cons]
    cases v.string with
    | none => exact ih
    | some s =>
      dsimp only [Option.map_some]
      rw [List.map_cons, List.map_cons, List.map_cons, ih, h]

theorem memberValues_attrType (type : MoAttributeType) (values : List MafMoAttributeValue) :
    (memberValues env type values).attrType = immType type := by
  cases type <;> rfl

theorem memberValues_usable (type : MoAttributeType) (values : List MafMoAttributeValue) :
    (memberValues env type values).buffers.map (immValueOf (immType type)) =
      (values.filterMap (valueOf type)).map (asStored env type) := by
  cases type with
  | int8 =>
    refine map_usable fun v => congrArg MoValue.number ?_
    exact BitVec.toInt_signExtend_of_le (by decide)
  | int16 =>
    refine map_usable fun v => congrArg MoValue.number ?_
    exact BitVec.toInt_signExtend_of_le (by decide)
  | uint8 =>
    refine map_usable fun v => congrArg MoValue.number (congrArg Int.ofNat ?_)
    exact BitVec.toNat_setWidth_of_le (by decide)
  | uint16 =>
    refine map_usable fun v => congrArg MoValue.number (congrArg Int.ofNat ?_)
    exact BitVec.toNat_setWidth_of_le (by decide)
  | int32 | int64 | uint32 | uint64 | decimal64 => exact map_usable fun v => rfl
  | bool =>
    refine map_usable fun v => congrArg MoValue.number ?_
    cases v.theBool <;> rfl
  | enum => exact map_usable fun v => congrArg MoValue.number (toInt_setWidth_bmod (v.bits 64))
  | reference => exact filterMap_usable fun s => rfl
  | string =>
    have hid : (fun v : MafMoAttributeValue => v.string) = fun v => v.string.map id :=
      funext fun v => (Option.map_id_apply).symm
    rw [memberValues, hid]
    exact filterMap_usable fun s => rfl

theorem memberValues_isEmpty (type : MoAttributeType) (values : List MafMoAttributeValue) :
    (memberValues env type values).isEmpty = true ↔ values.filterMap (valueOf type) = [] := by
  have hbuffers : ∀ v : MemberValues, v.isEmpty = true ↔ v.buffers = [] := by
    intro v
    cases v <;> rw [MemberValues.isEmpty, MemberValues.buffers, List.isEmpty_iff, List.map_eq_nil_iff]
  rw [hbuffers, ← List.map_eq_nil_iff (f := immValueOf (immType type)), memberValues_usable, List.map_eq_nil_iff]

theorem collectedMember_expected (SM : List RuntimeMember) :
    List.Forall₂ (fun attr x => IsAttribute attr x.1 x.2.1 x.2.2)
      ((SM.filterMap (collectedMember env)).map attrOf) (SM.filterMap (expectedMember (asStored env))) := by
  induction SM with
  | nil => exact List.Forall₂.nil
  | cons m SM ih =>
    rw [List.filterMap_cons, List.filterMap_cons, collectedMember, expectedMember]
    cases m.memberName with
    | none => exact ih
    | some memberName =>
      cases m.type with
      | none => exact ih
      | some type =>
        dsimp only
        by_cases hempty : usableValues m type = []
        · rw [if_pos ((memberValues_isEmpty env type m.values).mpr hempty), if_pos hempty]
          exact ih
        · rw [if_neg fun h => hempty ((memberValues_isEmpty env type m.values).mp h), if_neg hempty]
          refine List.Forall₂.cons ⟨rfl, memberValues_attrType env type m.values, ?_⟩ ih
          exact memberValues_usable env type m.values

/-! ## Every member keeps its own values -/

/-- The attributes of the members that come before one without a name. -/
def memberAttrs (SM : List RuntimeMember) : List SaImmAttrValues :=
  ((SM.takeWhile fun m => m.memberName.isSome).filterMap (collectedMember env)).map attrOf

theorem collectedMember_fit {m : RuntimeMember} {a : String × MemberValues}
    (h : m.type = some .reference → ∀ v ∈ m.values, ∀ s, v.string = some s → env.Fits (env.MO2Imm_DN s))
    (ha : collectedMember env m = some a) : a.2.Fit env := by
  intro l hl s hs
  unfold collectedMember at ha
  split at ha
  swap
  · cases ha
  next memberName type _ htype =>
    split at ha
    · cases ha
    cases ha
    have hreference : type = .reference := by
      cases type <;> first | rfl | cases hl
    subst hreference
    obtain rfl : m.values.filterMap (fun v => v.string.map env.MO2Imm_DN) = l := MemberValues.name.inj hl
    obtain ⟨v, hv, hstring⟩ := List.mem_filterMap.mp hs
    obtain ⟨t, ht, rfl⟩ := Option.map_eq_some_iff.mp hstring
    exact h htype v hv t ht

theorem createRuntimeStructAttrMods_eq (rdnValue : String) {SM : List RuntimeMember} (hfit : ReferencesFit env SM) :
    createRuntimeStructAttrMods env rdnValue SM =
      some (some ⟨"id", .saString, [.string rdnValue]⟩ :: (memberAttrs env SM).map some ++ [none]) := by
  have hcollected := collectMembers_queuesOf env SM [("id", .string [rdnValue])]
  have hrdn : MemberQueues.empty.push "id" (.string [rdnValue]) = queuesOf [("id", .string [rdnValue])] := rfl
  have hall : ∀ a ∈ [("id", MemberValues.string [rdnValue])] ++
      (SM.takeWhile fun m => m.memberName.isSome).filterMap (collectedMember env), a.2.Fit env := by
    intro a ha
    rcases List.mem_append.mp ha with hid | ha
    · obtain rfl := List.mem_singleton.mp hid
      exact fun l hl => nomatch hl
    · obtain ⟨m, hm, ha⟩ := List.mem_filterMap.mp ha
      exact collectedMember_fit env (hfit m hm) ha
  rw [List.length_singleton] at hcollected
  rw [createRuntimeStructAttrMods, hrdn, hcollected, createAttrMods_queuesOf env hall]
  rfl

/-- Each member up to one without a name has its own values in its own attribute, as they are stored. -/
theorem createRuntimeStructAttrMods_keeps (rdnValue : String) (SM : List RuntimeMember)
    (hfit : ReferencesFit env SM) :
    Keeps env (asStored env) rdnValue SM (SM.takeWhile fun m => m.memberName.isSome) :=
  ⟨⟨"id", .saString, [.string rdnValue]⟩, memberAttrs env SM, createRuntimeStructAttrMods_eq env rdnValue hfit,
    ⟨rfl, rfl, rfl⟩, collectedMember_expected env _⟩

theorem attrs_eq (id' : SaImmAttrValues) {id : SaImmAttrValues} {attrs attrs' : List SaImmAttrValues}
    (h : some (some id' :: attrs'.map some ++ [none]) = some (some id :: attrs.map some ++ [none])) :
    attrs = attrs' := by
  have hmap : attrs'.map some = attrs.map some :=
    List.append_cancel_right (List.tail_eq_of_cons_eq (Option.some.inj h))
  exact (List.map_injective_iff.mpr (Option.some_injective _) hmap).symm

def plainNames : NameEnv := ⟨id, false⟩

/-- A string that is null, a reference, an enum, and a member behind one without a name. -/
def mixedMembers : List RuntimeMember :=
  [⟨some "s", some .string, [.text "x", .word 0, .text "y"]⟩, ⟨some "r", some .reference, [.text "A=1"]⟩,
    ⟨some "e", some .enum, [.word (2 ^ 32 + 5)]⟩, ⟨none, some .int32, [.word 4]⟩, ⟨some "b", some .int32, [.word 5]⟩]

theorem createRuntimeStructAttrMods_keeps_mixed :
    Keeps plainNames (asStored plainNames) "1" mixedMembers (mixedMembers.take 3) ∧
      (mixedMembers.take 3).filterMap (expectedMember (asStored plainNames)) =
        [("s", .saString, [.text "x", .text "y"]), ("r", .saName, [.text "A=1"]), ("e", .saInt32, [.number 5])] := by
  refine ⟨createRuntimeStructAttrMods_keeps plainNames "1" mixedMembers ?_, by decide⟩
  intro m hm hreference v hv s hs
  have hshort : ∀ m ∈ mixedMembers, m.type = some .reference → ∀ v ∈ m.values, ∀ s ∈ v.string,
      plainNames.Fits s := by decide
  exact hshort m ((List.takeWhile_sublist _).subset hm) hreference v hv s hs

def wideEnum : List RuntimeMember := [⟨some "e", some .enum, [.word (2 ^ 32 + 5)]⟩]

def afterNameless : List RuntimeMember := [⟨none, some .int32, [.word 4]⟩, ⟨some "b", some .int32, [.word 5]⟩]

/-- An enum over four bytes is not kept, and neither is a member after one without a name. -/
theorem not_createRuntimeStructAttrMods_keeps :
    ¬ Keeps plainNames (asImm plainNames) "1" wideEnum wideEnum ∧
    ¬ Keeps plainNames (asImm plainNames) "1" afterNameless afterNameless := by
  refine ⟨?_, ?_⟩
  · rintro ⟨id, attrs, hcreated, -, hkept⟩
    have hattrs : attrs = [⟨"e", .saInt32, [.four 5]⟩] :=
      attrs_eq ⟨"id", .saString, [.string "1"]⟩ hcreated
    subst hattrs
    cases hkept with
    | cons h _ => exact absurd h.values (by decide)
  · rintro ⟨id, attrs, hcreated, -, hkept⟩
    have hattrs : attrs = [] := attrs_eq ⟨"id", .saString, [.string "1"]⟩ hcreated
    subst hattrs
    cases hkept

end ComSA.OIproxy
