import ComSA.OIproxy.AttributeValues
import ComSA.OIproxy.Callbacks

/-!
# Modifications of an object

A modification in IMM adds values to an attribute, deletes some or replaces all. The object implementer is
called with a new value of the whole attribute for each of them.
-/

namespace ComSA.OIproxy

open Action (SaImmValueType)

/-! ## The modifications -/

inductive ModType where
  | add
  | delete
  | replace
  | unknown
  deriving DecidableEq, Repr

structure SaImmAttrModification where
  modType : ModType
  modAttr : SaImmAttrValues
  deriving DecidableEq, Repr

/-- An attribute of the class, with the type that is below a derived one. A struct has none. -/
structure MocAttribute where
  name : String
  basetype : Option MoAttributeType
  deriving DecidableEq, Repr

def AttributeContainer.asMoValues (c : AttributeContainer) : MoAttributeValueContainer :=
  ⟨c.type, c.values.filterMap (valueOf c.type)⟩

variable (env : AttributeEnv)

/-- What a modification of the attribute sets, if anything, where its values can be read. -/
def attrContainer (moAttr : MocAttribute) (attrMod : SaImmAttrModification) : Option (Option AttrValue) :=
  match moAttr.basetype with
  | none =>
    -- of a struct only the deletion is forwarded
    if 0 < attrMod.modAttr.attrValues.length ∨ attrMod.modType = .add then some none else some (some (.struct []))
  | some basetype =>
    if attrMod.modType = .delete then some (some (.simple ⟨basetype, []⟩))
    else (createAttributeContainerContent env attrMod.modAttr basetype).map fun c => some (.simple c.asMoValues)

def findAttribute (moAttributes : List MocAttribute) (attrName : String) : Option MocAttribute :=
  moAttributes.find? fun moAttr => moAttr.name = attrName

/-- The loop, up to a modification of an unknown type. -/
def forwarded (moAttributes : List MocAttribute) :
    List SaImmAttrModification → Option (List (Option (String × AttrValue)))
  | [] => some []
  | attrMod :: attrMods =>
    if attrMod.modType = .unknown then some [none]
    else
      match findAttribute moAttributes attrMod.modAttr.attrName with
      | none => forwarded moAttributes attrMods
      | some moAttr =>
        match attrContainer env moAttr attrMod, forwarded moAttributes attrMods with
        | some none, some rest => some rest
        | some (some value), some rest => some (some (attrMod.modAttr.attrName, value) :: rest)
        | _, _ => none

structure ModifiedObject where
  moDn : String
  moIf : MoIf
  version2 : Bool
  moAttributes : List MocAttribute
  deriving DecidableEq, Repr

def modifyObject (answers : Nat → MafReturn) (ccbId : CcbId) (o : ModifiedObject) :
    List (OpenAnswers × List SaImmAttrModification) → OIProxy → Option OIProxy
  | [], s => some s
  | (openTx, attrMods) :: callbacks, s =>
    match forwarded env o.moAttributes attrMods with
    | none => none
    | some sets =>
      match handleCcbModification answers ccbId ⟨⟨none, openTx, some o.moIf, o.version2, o.moDn⟩, some sets⟩ s with
      | some (.ok, s) => modifyObject answers ccbId o callbacks s
      | _ => none

/-! ## The two values -/

/-- What IMM makes of a modification: values are added behind, and all that are equal are deleted. -/
def immModify (values : List SaImmAttrValue) (attrMod : SaImmAttrModification) : List SaImmAttrValue :=
  match attrMod.modType with
  | .add => values ++ attrMod.modAttr.attrValues
  | .delete => values.filter fun v => v ∉ attrMod.modAttr.attrValues
  | .replace => attrMod.modAttr.attrValues
  | .unknown => values

def modsOf (attrName : String) (attrMods : List SaImmAttrModification) : List SaImmAttrModification :=
  attrMods.filter fun attrMod => attrMod.modAttr.attrName = attrName

def immValues (start : List SaImmAttrValue) (mods : List SaImmAttrModification) : List SaImmAttrValue :=
  mods.foldl immModify start

def simpleSet (dn : String) : CcbId × OiCall → Option (String × List MoValue)
  | (_, .setMoAttribute _ _ dn' attrName (.simple container)) =>
    if dn' = dn then some (attrName, container.values) else none
  | _ => none

/-- The simple values that the object was set to, one after the other. -/
def simpleSets (dn : String) (s : StructCache) : List (String × List MoValue) := s.log.filterMap (simpleSet dn)

def setValue (values : String → List MoValue) (set : String × List MoValue) : String → List MoValue :=
  Function.update values set.1 set.2

/-- The values of the object implementer, from those at the beginning. -/
def oiValues (dn : String) (start : String → List MoValue) (s : OIProxy) : String → List MoValue :=
  (simpleSets dn s.cache).foldl setValue start

/-- The types that IMM has for an attribute. A string can also be kept as a name. -/
def KeptAs (type : MoAttributeType) (attrValueType : SaImmValueType) : Prop :=
  UsedFor type attrValueType ∨ type = .string ∧ attrValueType = .saName

def BufferOf : SaImmValueType → SaImmAttrValue → Prop
  | .saInt32, .four _ | .saUint32, .four _ => True
  | .saInt64, .eight _ | .saUint64, .eight _ | .saDouble, .eight _ => True
  | .saString, .string _ | .saName, .name _ => True
  | _, _ => False

/-- The number in a buffer, as the type in IMM has it. A double is told by its bits. -/
def immNumber (attrValueType : SaImmValueType) : SaImmAttrValue → Int
  | .four bytes => if attrValueType = .saInt32 then bytes.toInt else bytes.toNat
  | .eight bytes => if attrValueType = .saInt64 then bytes.toInt else bytes.toNat
  | .string _ | .name _ => 0

abbrev MoNames := String → String

def moValueOf (moNames : MoNames) (type : MoAttributeType) (attrValueType : SaImmValueType)
    (v : SaImmAttrValue) : MoValue :=
  match v with
  | .string s | .name s => .text (if type = .reference then moNames s else s)
  | .four _ | .eight _ =>
    if type = .bool then .flag (immNumber attrValueType v ≠ 0) else .number (immNumber attrValueType v)

def InRange (type : MoAttributeType) (n : Int) : Prop :=
  match type with
  | .int8 => -2 ^ 7 ≤ n ∧ n < 2 ^ 7
  | .int16 => -2 ^ 15 ≤ n ∧ n < 2 ^ 15
  | .int32 => -2 ^ 31 ≤ n ∧ n < 2 ^ 31
  | .int64 => -2 ^ 63 ≤ n ∧ n < 2 ^ 63
  | .uint8 => 0 ≤ n ∧ n < 2 ^ 8
  | .uint16 => 0 ≤ n ∧ n < 2 ^ 16
  | .uint32 => 0 ≤ n ∧ n < 2 ^ 32
  | .uint64 => 0 ≤ n ∧ n < 2 ^ 64
  | .enum | .bool | .decimal64 | .string | .reference => True

/-- An attribute of the type can have the value: a number is in its range, and the object that is referred to
is known by its name. -/
def HasRoom (moNames : MoNames) (type : MoAttributeType) (attrValueType : SaImmValueType)
    (v : SaImmAttrValue) : Prop :=
  match v with
  | .string s | .name s => type = .reference → env.ImmRdn2MOTop s = moNames s
  | .four _ | .eight _ => InRange type (immNumber attrValueType v)

def SimpleAttribute (o : ModifiedObject) (attrName : String) (type : MoAttributeType) : Prop :=
  ∃ moAttr, findAttribute o.moAttributes attrName = some moAttr ∧ moAttr.basetype = some type

structure Typed (type : MoAttributeType) (attrValueType : SaImmValueType) (start : List SaImmAttrValue)
    (mods : List SaImmAttrModification) : Prop where
  kept : KeptAs type attrValueType
  start : ∀ v ∈ start, BufferOf attrValueType v
  mods : ∀ mod ∈ mods, mod.modAttr.attrValueType = attrValueType ∧
    ∀ v ∈ mod.modAttr.attrValues, BufferOf attrValueType v

/-- The last modification leaves nothing but its own values: nothing was there to add to, and nothing is there
that is not deleted. The attribute can have those values. -/
def LastWhole (moNames : MoNames) (type : MoAttributeType) (attrValueType : SaImmValueType)
    (start : List SaImmAttrValue) (mods : List SaImmAttrModification) : Prop :=
  ∀ before last, mods = before ++ [last] →
    match last.modType with
    | .add => immValues start before = [] ∧ ∀ v ∈ last.modAttr.attrValues, HasRoom env moNames type attrValueType v
    | .delete => immValues start before ⊆ last.modAttr.attrValues
    | .replace => ∀ v ∈ last.modAttr.attrValues, HasRoom env moNames type attrValueType v
    | .unknown => True

def allMods (callbacks : List (OpenAnswers × List SaImmAttrModification)) : List SaImmAttrModification :=
  callbacks.flatMap Prod.snd

/-! ## The calls -/

section
variable {cache : CacheEnv} {ccbId : CcbId} {dn : String} {s s' : StructCache}

theorem simpleSets_append {log : List (CcbId × OiCall)} (h : s'.log = s.log ++ log) :
    simpleSets dn s' = simpleSets dn s ++ log.filterMap (simpleSet dn) := by
  rw [simpleSets, h, List.filterMap_append, simpleSets]

theorem simpleSets_cleanCcbId (h : cleanCcbId ccbId s = some s') : simpleSets dn s' = simpleSets dn s := by
  unfold cleanCcbId at h
  split at h
  · rw [Option.some.inj h]
  · obtain ⟨mem, -, rfl⟩ := Option.map_eq_some_iff.mp h
    rfl

theorem simpleSets_sendMoData : simpleSets dn (cache_sendMoData cache ccbId s).2 = simpleSets dn s := by
  unfold cache_sendMoData
  split
  · rfl
  · rw [simpleSets_append (s := s) rfl]
    exact List.append_nil _

theorem simpleSets_sendCache {ret : MafReturn} (h : cache_sendCache cache ccbId s = some (ret, s')) :
    simpleSets dn s' = simpleSets dn s := by
  have hsend : simpleSets dn (cache_sendMoData cache ccbId s).2 = simpleSets dn s := simpleSets_sendMoData
  unfold cache_sendCache at h
  split at h
  · rename_i sent heq
    rw [heq] at hsend
    obtain ⟨cleaned, hclean, heq⟩ := Option.map_eq_some_iff.mp h
    cases heq
    rw [simpleSets_cleanCcbId hclean]
    exact hsend
  · rw [Option.some.inj h] at hsend
    exact hsend

theorem simpleSets_addAttrValueContainer {moIf : MoIf} {attrName : String} {values : List StructValue}
    {ret : MafReturn} (h : addAttrValueContainer ccbId moIf dn attrName values s = some (ret, s')) :
    simpleSets dn s' = simpleSets dn s := by
  unfold addAttrValueContainer at h
  dsimp only at h
  split at h
  · cases h
    rfl
  · split at h
    · cases h
    · cases h
      rfl
    · cases h
      rfl

def simpleOf : String × AttrValue → Option (String × List MoValue)
  | (attrName, .simple container) => some (attrName, container.values)
  | (_, .struct _) => none

theorem simpleSets_setMoAttribute {moIf : MoIf} {attrName : String} {value : AttrValue}
    (h : cache_setMoAttribute cache ccbId moIf dn attrName value s = some (.ok, s')) :
    simpleSets dn s' = simpleSets dn s ++ (simpleOf (attrName, value)).toList := by
  cases value with
  | simple container =>
    simp only [cache_setMoAttribute, sendAfterCached] at h
    split at h
    · cases h
    · rename_i sent hsend
      have hsent : simpleSets dn sent = simpleSets dn s := by
        unfold sendCached at hsend
        split at hsend
        · exact simpleSets_sendCache hsend
        · cases hsend
          rfl
      obtain ⟨-, rfl⟩ := Prod.mk.inj (Option.some.inj h)
      rw [simpleSets_append (s := sent) rfl, hsent]
      simp [simpleSet, simpleOf]
    · rename_i hne
      exact (hne s' h).elim
  | struct values =>
    rw [simpleOf, Option.toList_none, List.append_nil]
    simp only [cache_setMoAttribute] at h
    split at h
    · split at h
      · cases h
      · rename_i hsend
        rw [simpleSets_addAttrValueContainer h, simpleSets_sendCache hsend]
      · rw [simpleSets_sendCache h]
    · exact simpleSets_addAttrValueContainer h

variable {answers : Nat → MafReturn}

theorem simpleSets_setAttributes {tx : TxHandle} {moIf : MoIf} {sets : List (Option (String × AttrValue))}
    (h : setAttributes answers ccbId tx moIf dn sets s = some (.ok, s')) :
    none ∉ sets ∧ simpleSets dn s' = simpleSets dn s ++ sets.filterMap fun set => set.bind simpleOf := by
  induction sets generalizing s with
  | nil =>
    cases h
    exact ⟨nofun, (List.append_nil _).symm⟩
  | cons set sets ih =>
    cases set with
    | none => cases h
    | some set =>
      obtain ⟨attrName, value⟩ := set
      rw [setAttributes] at h
      split at h
      · cases h
      · rename_i sent hset
        obtain ⟨hnone, hsets⟩ := ih h
        refine ⟨by simpa using hnone, ?_⟩
        rw [hsets, simpleSets_setMoAttribute hset, List.append_assoc, List.filterMap_cons]
        cases hsimple : simpleOf (attrName, value) <;> simp [hsimple]
      · cases h

theorem simpleSets_handleCcbModification {openTx : OpenAnswers} {moIf : MoIf} {version2 : Bool}
    {sets : List (Option (String × AttrValue))} {p p' : OIProxy}
    (h : handleCcbModification answers ccbId ⟨⟨none, openTx, some moIf, version2, dn⟩, some sets⟩ p = some
      (.ok, p')) :
    none ∉ sets ∧
      simpleSets dn p'.cache = simpleSets dn p.cache ++ sets.filterMap fun set => set.bind simpleOf := by
  unfold handleCcbModification onObject at h
  split at h
  · rename_i herror
    exact absurd (Prod.mk.inj (Option.some.inj h)).1 herror
  · obtain ⟨tx, opened, hopen, hopened, -⟩ := openTransaction_spec (.ccb ccbId) ccbId openTx p
    dsimp only at h
    rw [hopen] at h
    cases tx with
    | none => cases h
    | some tx =>
      obtain ⟨⟨err, cache⟩, hset, heq⟩ := Option.map_eq_some_iff.mp h
      obtain ⟨rfl, rfl⟩ := Prod.mk.inj heq
      rw [← hopened.cache]
      exact simpleSets_setAttributes hset

end

/-! ## What is forwarded -/

section
variable {env}

variable (env) in
def readAs (type : MoAttributeType) (attrValueType : SaImmValueType) (v : SaImmAttrValue) : Option MoValue :=
  (createValue env type attrValueType v).bind (valueOf type)

theorem filterMap_createValue {type : MoAttributeType} {attrValueType : SaImmValueType}
    {values : List SaImmAttrValue} {created : List MafMoAttributeValue}
    (h : values.mapM (createValue env type attrValueType) = some created) :
    created.filterMap (valueOf type) = values.filterMap (readAs env type attrValueType) := by
  induction values generalizing created with
  | nil =>
    cases h
    rfl
  | cons v values ih =>
    rw [List.mapM_cons] at h
    cases hv : createValue env type attrValueType v with
    | none =>
      rw [hv] at h
      cases h
    | some v' =>
      cases hrest : values.mapM (createValue env type attrValueType) with
      | none =>
        rw [hv, hrest] at h
        cases h
      | some rest =>
        rw [hv, hrest] at h
        obtain rfl := Option.some.inj h
        rw [List.filterMap_cons, List.filterMap_cons, readAs, hv, Option.bind_some, ih hrest]

variable (env) in
def setTo (type : MoAttributeType) (mod : SaImmAttrModification) : List MoValue :=
  if mod.modType = .delete then []
  else mod.modAttr.attrValues.filterMap (readAs env type mod.modAttr.attrValueType)

variable (env) in
def setOf (o : ModifiedObject) (mod : SaImmAttrModification) : Option (String × List MoValue) :=
  (findAttribute o.moAttributes mod.modAttr.attrName).bind fun moAttr =>
    moAttr.basetype.map fun type => (mod.modAttr.attrName, setTo env type mod)

theorem simpleOf_attrContainer {moAttr : MocAttribute} {mod : SaImmAttrModification} {value : Option AttrValue}
    (h : attrContainer env moAttr mod = some value) :
    (value.bind fun value => simpleOf (mod.modAttr.attrName, value)) =
      moAttr.basetype.map fun type => (mod.modAttr.attrName, setTo env type mod) := by
  unfold attrContainer at h
  cases htype : moAttr.basetype with
  | none =>
    rw [htype] at h
    dsimp only at h
    split at h <;> cases h <;> rfl
  | some type =>
    rw [htype] at h
    dsimp only at h
    rw [Option.map_some, setTo]
    split at h <;> rename_i hdelete
    · cases h
      rw [if_pos hdelete]
      rfl
    · rw [if_neg hdelete]
      obtain ⟨c, hcreate, rfl⟩ := Option.map_eq_some_iff.mp h
      obtain ⟨created, hvalues, rfl⟩ := Option.map_eq_some_iff.mp hcreate
      rw [← filterMap_createValue hvalues]
      rfl

theorem forwarded_sets {o : ModifiedObject} {mods : List SaImmAttrModification}
    {sets : List (Option (String × AttrValue))} (h : forwarded env o.moAttributes mods = some sets)
    (hknown : none ∉ sets) :
    (sets.filterMap fun set => set.bind simpleOf) = mods.filterMap (setOf env o) ∧
      ∀ mod ∈ mods, mod.modType ≠ .unknown := by
  induction mods generalizing sets with
  | nil =>
    cases h
    exact ⟨rfl, nofun⟩
  | cons mod mods ih =>
    rw [forwarded] at h
    split at h <;> rename_i htype
    · cases h
      exact absurd List.mem_cons_self hknown
    · cases hfind : findAttribute o.moAttributes mod.modAttr.attrName with
      | none =>
        rw [hfind] at h
        obtain ⟨hsets, hall⟩ := ih h hknown
        refine ⟨?_, List.forall_mem_cons.mpr ⟨htype, hall⟩⟩
        rw [hsets, List.filterMap_cons, setOf, hfind]
        rfl
      | some moAttr =>
        rw [hfind] at h
        dsimp only at h
        cases hvalue : attrContainer env moAttr mod with
        | none =>
          rw [hvalue] at h
          cases h
        | some value =>
          cases hrest : forwarded env o.moAttributes mods with
          | none =>
            rw [hvalue, hrest] at h
            cases value <;> cases h
          | some rest =>
            have hsimple := simpleOf_attrContainer hvalue
            rw [hvalue, hrest] at h
            rw [List.filterMap_cons, setOf, hfind, Option.bind_some, ← hsimple]
            cases value with
            | none =>
              obtain rfl := Option.some.inj h
              obtain ⟨hsets, hall⟩ := ih hrest hknown
              exact ⟨hsets, List.forall_mem_cons.mpr ⟨htype, hall⟩⟩
            | some value =>
              obtain rfl := Option.some.inj h
              obtain ⟨hsets, hall⟩ := ih hrest fun hmem => hknown (List.mem_cons_of_mem _ hmem)
              refine ⟨?_, List.forall_mem_cons.mpr ⟨htype, hall⟩⟩
              rw [List.filterMap_cons, hsets]
              rfl

theorem simpleSets_modifyObject {answers : Nat → MafReturn} {ccbId : CcbId} {o : ModifiedObject}
    {callbacks : List (OpenAnswers × List SaImmAttrModification)} {s s' : OIProxy}
    (h : modifyObject env answers ccbId o callbacks s = some s') :
    simpleSets o.moDn s'.cache = simpleSets o.moDn s.cache ++ (allMods callbacks).filterMap (setOf env o) ∧
      ∀ mod ∈ allMods callbacks, mod.modType ≠ .unknown := by
  induction callbacks generalizing s with
  | nil =>
    cases h
    exact ⟨(List.append_nil _).symm, nofun⟩
  | cons callback callbacks ih =>
    obtain ⟨openTx, mods⟩ := callback
    rw [modifyObject] at h
    split at h
    · cases h
    · rename_i sets hforwarded
      split at h
      · rename_i next hcall
        obtain ⟨hknown, hsets⟩ := simpleSets_handleCcbModification hcall
        obtain ⟨hmods, hall⟩ := forwarded_sets hforwarded hknown
        obtain ⟨hrest, hrestall⟩ := ih h
        have hcons : allMods ((openTx, mods) :: callbacks) = mods ++ allMods callbacks := List.flatMap_cons
        rw [hcons]
        refine ⟨?_, List.forall_mem_append.mpr ⟨hall, hrestall⟩⟩
        rw [hrest, hsets, hmods, List.append_assoc, List.filterMap_append]
      · cases h

/-! ## The values after the run -/

theorem foldl_setValue {o : ModifiedObject} {attrName : String} {type : MoAttributeType}
    (h : SimpleAttribute o attrName type) (mods : List SaImmAttrModification) (values : String → List MoValue) :
    (mods.filterMap (setOf env o)).foldl setValue values attrName =
      ((modsOf attrName mods).getLast?.map (setTo env type)).getD (values attrName) := by
  obtain ⟨moAttr, hfind, htype⟩ := h
  induction mods using List.reverseRecOn with
  | nil => rfl
  | append_singleton mods mod ih =>
    rw [List.filterMap_append, List.foldl_append, modsOf, List.filter_append]
    by_cases hname : mod.modAttr.attrName = attrName
    · have hset : setOf env o mod = some (attrName, setTo env type mod) := by
        rw [setOf, hname, hfind, Option.bind_some, htype, Option.map_some]
      have hone : [mod].filter (fun mod => mod.modAttr.attrName = attrName) = [mod] := by simp [hname]
      rw [hone, List.getLast?_concat, List.filterMap_cons, hset]
      exact Function.update_self ..
    · have hnone : [mod].filter (fun mod => mod.modAttr.attrName = attrName) = [] := by simp [hname]
      rw [hnone, List.append_nil]
      refine Eq.trans ?_ ih
      cases hset : setOf env o mod with
      | none => rw [List.filterMap_cons, hset, List.filterMap_nil, List.foldl_nil]
      | some set =>
        rw [List.filterMap_cons, hset, List.filterMap_nil, List.foldl_cons, List.foldl_nil]
        have hset₁ : set.1 = mod.modAttr.attrName := by
          unfold setOf at hset
          obtain ⟨_, -, hmap⟩ := Option.bind_eq_some_iff.mp hset
          obtain ⟨_, -, rfl⟩ := Option.map_eq_some_iff.mp hmap
          rfl
        exact Function.update_of_ne (fun heq => hname (hset₁ ▸ heq.symm)) _ _

theorem toInt_ofInt_iff {w : Nat} (hw : 0 < w) (n : Int) :
    (BitVec.ofInt w n).toInt = n ↔ -2 ^ (w - 1) ≤ n ∧ n < 2 ^ (w - 1) := by
  constructor
  · intro h
    rw [← h]
    exact ⟨BitVec.le_toInt _, BitVec.toInt_lt⟩
  · rintro ⟨hle, hlt⟩
    exact BitVec.toInt_ofInt_eq_self hw hle hlt

theorem toNat_ofInt_iff (w : Nat) (n : Int) : ((BitVec.ofInt w n).toNat : Int) = n ↔ 0 ≤ n ∧ n < 2 ^ w := by
  constructor
  · intro h
    rw [← h]
    exact ⟨Int.natCast_nonneg _, by exact_mod_cast (BitVec.ofInt w n).isLt⟩
  · rintro ⟨hle, hlt⟩
    have hpow : ((2 ^ w : Nat) : Int) ≠ 0 := Int.natCast_ne_zero.mpr (Nat.two_pow_pos w).ne'
    rw [BitVec.toNat_ofInt, Int.toNat_of_nonneg (Int.emod_nonneg _ hpow)]
    exact Int.emod_eq_of_lt hle (by exact_mod_cast hlt)

theorem setWidth_ofInt {v w : Nat} (h : w ≤ v) (n : Int) : (BitVec.ofInt v n).setWidth w = BitVec.ofInt w n := by
  have hdvd : ((2 ^ w : Nat) : Int) ∣ ((2 ^ v : Nat) : Int) := by exact_mod_cast Nat.pow_dvd_pow 2 h
  have hpow (k : Nat) : ((2 ^ k : Nat) : Int) ≠ 0 := Int.natCast_ne_zero.mpr (Nat.two_pow_pos k).ne'
  apply BitVec.eq_of_toNat_eq
  rw [BitVec.toNat_setWidth, BitVec.toNat_ofInt, BitVec.toNat_ofInt]
  apply Int.ofNat_inj.mp
  rw [Int.natCast_mod, Int.toNat_of_nonneg (Int.emod_nonneg _ (hpow v)),
    Int.toNat_of_nonneg (Int.emod_nonneg _ (hpow w)), Int.emod_emod_of_dvd _ hdvd]

theorem four_eq_ofInt (attrValueType : SaImmValueType) (bytes : BitVec 32) :
    bytes = BitVec.ofInt 32 (immNumber attrValueType (.four bytes)) := by
  rw [immNumber]
  split
  · rw [BitVec.ofInt_toInt]
  · rw [BitVec.ofInt_natCast, BitVec.ofNat_toNat, BitVec.setWidth_eq]

theorem eight_eq_ofInt (attrValueType : SaImmValueType) (bytes : BitVec 64) :
    bytes = BitVec.ofInt 64 (immNumber attrValueType (.eight bytes)) := by
  rw [immNumber]
  split
  · rw [BitVec.ofInt_toInt]
  · rw [BitVec.ofInt_natCast, BitVec.ofNat_toNat, BitVec.setWidth_eq]

theorem signed_iff {w : Nat} (hw : 0 < w) (hw₃₂ : w ≤ 32) (attrValueType : SaImmValueType) (bytes : BitVec 32) :
    (bytes.setWidth w).toInt = immNumber attrValueType (.four bytes) ↔
      -2 ^ (w - 1) ≤ immNumber attrValueType (.four bytes) ∧
        immNumber attrValueType (.four bytes) < 2 ^ (w - 1) := by
  rw [← toInt_ofInt_iff hw, ← setWidth_ofInt hw₃₂, ← four_eq_ofInt]

theorem unsigned_iff {w : Nat} (hw : w ≤ 32) (attrValueType : SaImmValueType) (bytes : BitVec 32) :
    ((bytes.setWidth w).toNat : Int) = immNumber attrValueType (.four bytes) ↔
      0 ≤ immNumber attrValueType (.four bytes) ∧ immNumber attrValueType (.four bytes) < 2 ^ w := by
  rw [← toNat_ofInt_iff, ← setWidth_ofInt hw, ← four_eq_ofInt]

theorem immNumber_eq_zero_iff {attrValueType : SaImmValueType} {bytes : BitVec 32} :
    immNumber attrValueType (.four bytes) = 0 ↔ bytes = 0 := by
  rw [immNumber]
  split
  · rw [← BitVec.toInt_zero, BitVec.toInt_inj]
    rfl
  · rw [Int.natCast_eq_zero, BitVec.toNat_eq]
    rfl

theorem four_of_buffer {attrValueType : SaImmValueType} {v : SaImmAttrValue}
    (h : attrValueType = .saInt32 ∨ attrValueType = .saUint32) (hv : BufferOf attrValueType v) :
    ∃ bytes, v = .four bytes := by
  cases v with
  | four bytes => exact ⟨bytes, rfl⟩
  | eight _ | string _ | name _ => rcases h with rfl | rfl <;> cases hv

theorem eight_of_buffer {attrValueType : SaImmValueType} {v : SaImmAttrValue}
    (h : attrValueType = .saInt64 ∨ attrValueType = .saUint64) (hv : BufferOf attrValueType v) :
    ∃ bytes, v = .eight bytes := by
  cases v with
  | eight bytes => exact ⟨bytes, rfl⟩
  | four _ | string _ | name _ => rcases h with rfl | rfl <;> cases hv

theorem readAs_iff {moNames : MoNames} {type : MoAttributeType} {attrValueType : SaImmValueType}
    {v : SaImmAttrValue} (hkept : KeptAs type attrValueType) (hv : BufferOf attrValueType v) :
    ∃ read, readAs env type attrValueType v = some read ∧
      (read = moValueOf moNames type attrValueType v ↔ HasRoom env moNames type attrValueType v) := by
  rcases hkept with hused | ⟨rfl, rfl⟩
  · cases type with
    | string =>
      cases attrValueType <;> try cases hused
      cases v <;> try cases hv
      exact ⟨_, rfl, iff_of_true rfl fun h => by cases h⟩
    | reference =>
      cases attrValueType <;> try cases hused
      cases v <;> try cases hv
      refine ⟨_, rfl, ?_⟩
      simp only [moValueOf, HasRoom, if_true, MoValue.text.injEq, forall_const]
    | decimal64 =>
      cases attrValueType <;> try cases hused
      cases v <;> try cases hv
      refine ⟨_, rfl, iff_of_true ?_ trivial⟩
      simp [moValueOf, immNumber]
    | int64 =>
      obtain ⟨bytes, rfl⟩ := eight_of_buffer hused hv
      refine ⟨_, rfl, ?_⟩
      simp only [bits_setField, moValueOf, HasRoom, InRange, reduceCtorEq, if_false, MoValue.number.injEq]
      rw [← toInt_ofInt_iff (w := 64) (by decide), ← eight_eq_ofInt]
    | uint64 =>
      obtain ⟨bytes, rfl⟩ := eight_of_buffer hused hv
      refine ⟨_, rfl, ?_⟩
      simp only [bits_setField, moValueOf, HasRoom, InRange, reduceCtorEq, if_false, MoValue.number.injEq]
      rw [← toNat_ofInt_iff, ← eight_eq_ofInt]
    | bool =>
      obtain ⟨bytes, rfl⟩ := four_of_buffer hused hv
      refine ⟨_, rfl, iff_of_true ?_ trivial⟩
      simp only [moValueOf, if_true, MafMoAttributeValue.theBool, bits_setField, immNumber_eq_zero_iff, ne_eq]
      by_cases hbytes : bytes = 0 <;> simp [boolBits, hbytes]
    | enum =>
      obtain ⟨bytes, rfl⟩ := four_of_buffer hused hv
      refine ⟨_, rfl, iff_of_true ?_ trivial⟩
      simp only [bits_setField, moValueOf, reduceCtorEq, if_false]
      rcases hused with rfl | rfl
      · rw [if_neg (by decide), immNumber, if_pos rfl, BitVec.toInt_signExtend_of_le (by decide)]
      · have hsmall : 2 * (bytes.setWidth 64).toNat < 2 ^ 64 := by
          rw [BitVec.toNat_setWidth]
          have hlt := bytes.isLt
          omega
        rw [if_pos rfl, immNumber, if_neg (by decide), BitVec.toInt_eq_toNat_of_lt hsmall,
          BitVec.toNat_setWidth_of_le (by decide)]
    | int8 | int16 | int32 =>
      obtain ⟨bytes, rfl⟩ := four_of_buffer hused hv
      refine ⟨_, rfl, ?_⟩
      simp only [bits_setField, moValueOf, HasRoom, InRange, reduceCtorEq, if_false, MoValue.number.injEq]
      exact signed_iff (by decide) (by decide) ..
    | uint8 | uint16 | uint32 =>
      obtain ⟨bytes, rfl⟩ := four_of_buffer hused hv
      refine ⟨_, rfl, ?_⟩
      simp only [bits_setField, moValueOf, HasRoom, InRange, reduceCtorEq, if_false, MoValue.number.injEq]
      exact unsigned_iff (by decide) ..
  · cases v <;> try cases hv
    exact ⟨_, rfl, iff_of_true rfl fun h => by cases h⟩

theorem values_eq_iff {moNames : MoNames} {type : MoAttributeType} {attrValueType : SaImmValueType}
    {values : List SaImmAttrValue} (hkept : KeptAs type attrValueType)
    (hvalues : ∀ v ∈ values, BufferOf attrValueType v) :
    values.filterMap (readAs env type attrValueType) = values.map (moValueOf moNames type attrValueType) ↔
      ∀ v ∈ values, HasRoom env moNames type attrValueType v := by
  induction values with
  | nil => exact iff_of_true rfl nofun
  | cons v values ih =>
    obtain ⟨read, hread, hiff⟩ := @readAs_iff env moNames type attrValueType v hkept (hvalues v List.mem_cons_self)
    rw [List.filterMap_cons, hread, List.map_cons, List.cons.injEq, hiff,
      ih fun v hv => hvalues v (List.mem_cons_of_mem _ hv), List.forall_mem_cons]

theorem length_filterMap_readAs {type : MoAttributeType} {attrValueType : SaImmValueType}
    {values : List SaImmAttrValue} (hkept : KeptAs type attrValueType)
    (hvalues : ∀ v ∈ values, BufferOf attrValueType v) :
    (values.filterMap (readAs env type attrValueType)).length = values.length := by
  rw [List.length_filterMap_eq_countP, List.countP_eq_length]
  intro v hv
  obtain ⟨read, hread, -⟩ := @readAs_iff env id type attrValueType v hkept (hvalues v hv)
  rw [hread]
  rfl

theorem setTo_eq_iff {moNames : MoNames} {type : MoAttributeType} {attrValueType : SaImmValueType}
    {start : List SaImmAttrValue} {before : List SaImmAttrModification} {last : SaImmAttrModification}
    (h : Typed type attrValueType start (before ++ [last])) (hknown : last.modType ≠ .unknown) :
    setTo env type last =
        (immValues start (before ++ [last])).map (moValueOf moNames type attrValueType) ↔
      match last.modType with
      | .add =>
        immValues start before = [] ∧ ∀ v ∈ last.modAttr.attrValues, HasRoom env moNames type attrValueType v
      | .delete => immValues start before ⊆ last.modAttr.attrValues
      | .replace => ∀ v ∈ last.modAttr.attrValues, HasRoom env moNames type attrValueType v
      | .unknown => True := by
  obtain ⟨htype, hlast⟩ := h.mods last (List.mem_append_right _ List.mem_cons_self)
  have himm : immValues start (before ++ [last]) = immModify (immValues start before) last := by
    rw [immValues, List.foldl_append]
    rfl
  have hvalues := @values_eq_iff env moNames type attrValueType last.modAttr.attrValues h.kept hlast
  rw [himm, setTo, immModify, htype]
  cases hmod : last.modType with
  | unknown => exact absurd hmod hknown
  | replace =>
    rw [if_neg nofun]
    exact hvalues
  | add =>
    rw [if_neg nofun]
    dsimp only
    constructor
    · intro heq
      have hlength := congrArg List.length heq
      rw [length_filterMap_readAs h.kept hlast, List.length_map, List.length_append] at hlength
      have hold : immValues start before = [] := List.eq_nil_of_length_eq_zero (by omega)
      rw [hold, List.nil_append] at heq
      exact ⟨hold, hvalues.mp heq⟩
    · rintro ⟨hold, hroom⟩
      rw [hold, List.nil_append]
      exact hvalues.mpr hroom
  | delete =>
    rw [if_pos rfl]
    dsimp only
    rw [eq_comm, List.map_eq_nil_iff, List.filter_eq_nil_iff]
    exact forall₂_congr fun v _ => by simp

/-- The object implementer has the values of IMM just if the last modification of each attribute leaves only
its own values, which the attribute can have. -/
theorem oiValues_iff {answers : Nat → MafReturn} {ccbId : CcbId} {o : ModifiedObject}
    {callbacks : List (OpenAnswers × List SaImmAttrModification)} {s s' : OIProxy} {moNames : MoNames}
    {start : String → List MoValue} {imm : String → List SaImmAttrValue} {immType : String → SaImmValueType}
    (hrun : modifyObject env answers ccbId o callbacks s = some s')
    (htyped : ∀ attrName type, SimpleAttribute o attrName type →
      Typed type (immType attrName) (imm attrName) (modsOf attrName (allMods callbacks)))
    (hstart : ∀ attrName type, SimpleAttribute o attrName type →
      oiValues o.moDn start s attrName = (imm attrName).map (moValueOf moNames type (immType attrName))) :
    (∀ attrName type, SimpleAttribute o attrName type →
      oiValues o.moDn start s' attrName =
        (immValues (imm attrName) (modsOf attrName (allMods callbacks))).map
          (moValueOf moNames type (immType attrName))) ↔
      ∀ attrName type, SimpleAttribute o attrName type →
        LastWhole env moNames type (immType attrName) (imm attrName) (modsOf attrName (allMods callbacks)) := by
  obtain ⟨hsets, hknown⟩ := simpleSets_modifyObject hrun
  refine forall₃_congr fun attrName type hsimple => ?_
  have hvalue : oiValues o.moDn start s' attrName =
      ((modsOf attrName (allMods callbacks)).getLast?.map (setTo env type)).getD
        ((imm attrName).map (moValueOf moNames type (immType attrName))) := by
    rw [oiValues, hsets, List.foldl_append, foldl_setValue hsimple, ← hstart attrName type hsimple]
    rfl
  have htyped := htyped attrName type hsimple
  rw [hvalue]
  rcases List.eq_nil_or_concat (modsOf attrName (allMods callbacks)) with hnil | ⟨before, last, hconcat⟩
  · rw [hnil]
    refine iff_of_true rfl fun before last heq => ?_
    cases before <;> cases heq
  · rw [List.concat_eq_append] at hconcat
    have hlast : last.modType ≠ .unknown := by
      have hmem : last ∈ modsOf attrName (allMods callbacks) := by
        rw [hconcat]
        exact List.mem_append_right _ List.mem_cons_self
      exact hknown last (List.mem_filter.mp hmem).1
    rw [hconcat] at htyped ⊢
    rw [List.getLast?_concat, Option.map_some, Option.getD_some, setTo_eq_iff htyped hlast]
    constructor
    · intro hright before' last' heq
      obtain ⟨rfl, hsingle⟩ := List.append_inj' heq rfl
      cases hsingle
      exact hright
    · intro hall
      exact hall before last rfl

def taggedObject : ModifiedObject := ⟨"A=1", 0, false, [⟨"a", some .string⟩, ⟨"level", some .int8⟩]⟩

def tagMod (modType : ModType) (s : String) : SaImmAttrModification := ⟨modType, ⟨"a", .saString, [.string s]⟩⟩

def levelMod (modType : ModType) (level : BitVec 32) : SaImmAttrModification :=
  ⟨modType, ⟨"level", .saInt32, [.four level]⟩⟩

def plainEnv : AttributeEnv := ⟨255, id, fun _ => 0, id, fun _ => 0, fun _ => 0, fun _ => 0, 0⟩

def tagType (attrName : String) : SaImmValueType := if attrName = "a" then .saString else .saInt32

def tagStart (attrName : String) : List SaImmAttrValue := if attrName = "a" then [.string "x"] else [.four 5]

def tagStartValues (attrName : String) : List MoValue := if attrName = "a" then [.text "x"] else [.number 5]

theorem simpleAttribute_tagged {attrName : String} {type : MoAttributeType}
    (h : SimpleAttribute taggedObject attrName type) :
    attrName = "a" ∧ type = .string ∨ attrName = "level" ∧ type = .int8 := by
  obtain ⟨moAttr, hfind, htype⟩ := h
  have hname : moAttr.name = attrName := by simpa using List.find?_some hfind
  rcases List.mem_pair.mp (List.mem_of_find?_eq_some hfind) with rfl | rfl
  · exact Or.inl ⟨hname.symm, (Option.some.inj htype).symm⟩
  · exact Or.inr ⟨hname.symm, (Option.some.inj htype).symm⟩

def tagging (mods : List SaImmAttrModification) : List (OpenAnswers × List SaImmAttrModification) :=
  [(⟨.ok, .ok, .ok, false, .ok⟩, mods)]

/-- The tag `x` is replaced by `y`, and the level is deleted before -100 is added. -/
def retagged : List (OpenAnswers × List SaImmAttrModification) :=
  tagging [tagMod .replace "y", levelMod .delete 5, levelMod .add (BitVec.ofInt 32 (-100))]

theorem oiValues_replaced :
    ∃ s', modifyObject plainEnv (fun _ => .ok) 1 taggedObject retagged OIProxy.initial = some s' ∧
      ∀ attrName type, SimpleAttribute taggedObject attrName type →
        oiValues taggedObject.moDn tagStartValues s' attrName =
          (immValues (tagStart attrName) (modsOf attrName (allMods retagged))).map
            (moValueOf id type (tagType attrName)) := by
  obtain ⟨s', hrun⟩ : ∃ s', modifyObject plainEnv (fun _ => .ok) 1 taggedObject retagged OIProxy.initial =
      some s' := ⟨_, rfl⟩
  have htyped : ∀ attrName type, SimpleAttribute taggedObject attrName type →
      Typed type (tagType attrName) (tagStart attrName) (modsOf attrName (allMods retagged)) := by
    intro attrName type hsimple
    rcases simpleAttribute_tagged hsimple with ⟨rfl, rfl⟩ | ⟨rfl, rfl⟩
    · refine ⟨Or.inl trivial, List.forall_mem_singleton.mpr trivial, fun mod hmod => ?_⟩
      obtain rfl := List.mem_singleton.mp (show mod ∈ [tagMod .replace "y"] from hmod)
      exact ⟨rfl, List.forall_mem_singleton.mpr trivial⟩
    · refine ⟨Or.inl (Or.inl rfl), List.forall_mem_singleton.mpr trivial, fun mod hmod => ?_⟩
      have hmods : mod ∈ [levelMod .delete 5, levelMod .add (BitVec.ofInt 32 (-100))] := hmod
      rcases List.mem_pair.mp hmods with rfl | rfl <;> exact ⟨rfl, List.forall_mem_singleton.mpr trivial⟩
  have hstart : ∀ attrName type, SimpleAttribute taggedObject attrName type →
      oiValues taggedObject.moDn tagStartValues OIProxy.initial attrName =
        (tagStart attrName).map (moValueOf id type (tagType attrName)) := by
    intro attrName type hsimple
    rcases simpleAttribute_tagged hsimple with ⟨rfl, rfl⟩ | ⟨rfl, rfl⟩ <;> rfl
  refine ⟨s', hrun, (oiValues_iff hrun htyped hstart).mpr fun attrName type hsimple before last heq => ?_⟩
  rcases simpleAttribute_tagged hsimple with ⟨rfl, rfl⟩ | ⟨rfl, rfl⟩
  · obtain ⟨rfl, hlast⟩ := List.append_inj' (show [] ++ [tagMod .replace "y"] = before ++ [last] from heq) rfl
    cases hlast
    exact List.forall_mem_singleton.mpr nofun
  · obtain ⟨rfl, hlast⟩ := List.append_inj' (show [levelMod .delete 5] ++ [levelMod .add (BitVec.ofInt 32 (-100))] =
      before ++ [last] from heq) rfl
    cases hlast
    exact ⟨by decide, List.forall_mem_singleton.mpr ⟨by decide, by decide⟩⟩

/-- To the value `x` the value `y` is added, and only `y` is set. -/
theorem not_oiValues :
    ¬ ∀ s', modifyObject plainEnv (fun _ => .ok) 1 taggedObject (tagging [tagMod .add "y"]) OIProxy.initial =
        some s' →
      oiValues taggedObject.moDn tagStartValues s' "a" =
        (immValues (tagStart "a") [tagMod .add "y"]).map (moValueOf id .string .saString) := by
  intro h
  exact absurd (h _ rfl) (by decide)

end

end ComSA.OIproxy
