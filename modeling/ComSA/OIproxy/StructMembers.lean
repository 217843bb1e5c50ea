import ComSA.Lib.Run
import ComSA.OIproxy.StructCache

/-!
# The members of a cached struct

`addAttrValue` puts one value into a struct that is cached for a CCB. What a run of such calls does to the structs, and
where it gives a struct two members with one name.
-/

namespace ComSA.OIproxy

/-! ## The function -/

/-- The search for the member goes from `str` on, with `t` as the member behind it; the member was found if there is
one behind it when the search ends. The value goes behind those of the member, or into a new member. -/
def addToMembers (memberName : String) (type : MoAttributeType) (value : MoValue) :
    StructMember → List StructMember → Option StructValue
  | str, [] => some [str, ⟨memberName, some ⟨type, [value]⟩⟩]
  | str, t :: rest =>
    if str.memberName = memberName then
      str.memberValue.map fun c => { str with memberValue := some { c with values := c.values ++ [value] } }
        :: t :: rest
    else
      (addToMembers memberName type value t rest).map (str :: ·)

structure AddCall where
  moIf : MoIf
  index : Int
  memberName : String
  type : Option MoAttributeType
  value : MoValue
  deriving DecidableEq, Repr

/-- The structs of the memory that the index selects; `values[nrOfValues - 1]` is none where there is no struct. -/
def selectStruct (index : Int) (structs : List StructValue) : Option StructValue :=
  if index = -1 then structs.getLast? else structs[index.toNat]?

def structPosition (index : Int) (structs : List StructValue) : Nat :=
  if index = -1 then structs.length - 1 else index.toNat

def AttrHelperMem.use (dn attrName : String) (values : Values) (mem : AttrHelperMem) : AttrHelperMem :=
  { mem with
    the3gppDn := if mem.status = .empty then dn else mem.the3gppDn
    attrName := if mem.status = .empty then attrName else mem.attrName
    values := values
    status := .inuse }

def addAttrValue (ccbId : CcbId) (dn attrName : String) (c : AddCall) (s : StructCache) :
    Option (MafReturn × StructCache) :=
  match c.type with
  | none => some (.failure, s)
  | some type =>
    if c.index < -1 ∨ type = .reference then some (.failure, s)
    else if isSameStructType ccbId dn attrName s = .different then some (.invalidArgument, s)
    else
      let mem := (s.attrStructCache ccbId).getD { moIf := c.moIf }
      let s := s.setMem ccbId mem
      let structs := mem.values.toList
      if c.index > structs.length then some (.failure, s)
      else if c.index = structs.length then
        match mem.values.realloc [[⟨c.memberName, some ⟨type, [c.value]⟩⟩]] with
        | none => none
        | some (false, _) => some (.failure, s)
        | some (true, newval) => some (.ok, s.setMem ccbId (mem.use dn attrName newval))
      else
        match selectStruct c.index structs with
        | none => none
        | some [] => some (.failure, s)
        | some (str :: rest) =>
          (addToMembers c.memberName type c.value str rest).map fun members =>
            (.ok, s.setMem ccbId
              (mem.use dn attrName (.block (structs.set (structPosition c.index structs) members))))

/-! ## What it should do -/

/-- The value goes behind those of the member with the name, which is created where there is none. -/
def appendValue (memberName : String) (type : MoAttributeType) (value : MoValue) : StructValue → StructValue
  | [] => [⟨memberName, some ⟨type, [value]⟩⟩]
  | m :: ms =>
    if m.memberName = memberName then
      { m with memberValue := m.memberValue.map fun c => { c with values := c.values ++ [value] } } :: ms
    else m :: appendValue memberName type value ms

def AddCall.append (c : AddCall) (members : StructValue) : StructValue :=
  c.type.elim members fun type => appendValue c.memberName type c.value members

def AddCall.place (c : AddCall) (structs : List StructValue) : List StructValue :=
  if c.index = structs.length then structs ++ [c.append []]
  else structs.modify (structPosition c.index structs) c.append

def StructCache.structs (ccbId : CcbId) (s : StructCache) : List StructValue :=
  (s.attrStructCache ccbId).elim [] fun mem => mem.values.toList

section
variable (ccbId : CcbId) (dn attrName : String)

def Places (s : StructCache) (c : AddCall) : Prop :=
  match addAttrValue ccbId dn attrName c s with
  | none => False
  | some (rc, s') => (rc = .ok → s'.structs ccbId = c.place (s.structs ccbId)) ∧
    (c.index = -1 → s.structs ccbId = [] → rc ≠ .ok)

/-- A value that is neither a struct nor a reference is accepted for each index from -1 to the number of structs. -/
def Accepts (s : StructCache) (c : AddCall) : Prop :=
  (∃ type, c.type = some type ∧ type ≠ .reference) → -1 ≤ c.index → c.index ≤ (s.structs ccbId).length →
    ∃ s', addAttrValue ccbId dn attrName c s = some (.ok, s')

def MembersDistinct (s : StructCache) : Prop :=
  ∀ members ∈ s.structs ccbId, (members.map StructMember.memberName).Nodup

/-- The structs after the call; where it has no result nothing more is said. -/
def addStep (s : StructCache) (c : AddCall) : StructCache :=
  ((addAttrValue ccbId dn attrName c s).map Prod.snd).getD s

/-- The call has the index -1 where there is no struct, or names the last member of the struct that it selects. -/
def Misses (s : StructCache) (c : AddCall) : Prop :=
  (∃ type, c.type = some type ∧ type ≠ .reference) ∧ -1 ≤ c.index ∧ c.index < (s.structs ccbId).length ∧
    ∀ members ∈ selectStruct c.index (s.structs ccbId), ∃ last ∈ members.getLast?, last.memberName = c.memberName

end

/-! ## The members of one struct -/

section
variable {memberName : String} {type : MoAttributeType} {value : MoValue} {members : StructValue}

structure StructWellFormed (members : StructValue) : Prop where
  nonempty : members ≠ []
  distinct : (members.map StructMember.memberName).Nodup
  valued : ∀ m ∈ members, m.memberValue.isSome = true

theorem mem_names_appendValue {name : String}
    (h : name ∈ (appendValue memberName type value members).map StructMember.memberName) :
    name = memberName ∨ name ∈ members.map StructMember.memberName := by
  induction members with
  | nil => exact .inl (List.mem_singleton.mp h)
  | cons m ms ih =>
    rw [appendValue] at h
    split at h
    · exact .inr h
    · rcases List.mem_cons.mp h with rfl | h
      · exact .inr List.mem_cons_self
      · exact (ih h).imp_right (List.mem_cons_of_mem _)

theorem appendValue_distinct (h : (members.map StructMember.memberName).Nodup) :
    ((appendValue memberName type value members).map StructMember.memberName).Nodup := by
  induction members with
  | nil => simp [appendValue]
  | cons m ms ih =>
    obtain ⟨hm, hms⟩ := List.nodup_cons.mp h
    rw [appendValue]
    split <;> rename_i hname
    · exact h
    · refine List.nodup_cons.mpr ⟨fun hmem => ?_, ih hms⟩
      exact (mem_names_appendValue hmem).elim hname hm

theorem appendValue_valued (h : ∀ m ∈ members, m.memberValue.isSome = true) :
    ∀ m ∈ appendValue memberName type value members, m.memberValue.isSome = true := by
  induction members with
  | nil => simp [appendValue]
  | cons m ms ih =>
    have hms := fun x hx => h x (List.mem_cons_of_mem m hx)
    rw [appendValue]
    split
    · intro x hx
      rcases List.mem_cons.mp hx with rfl | hx
      · simpa using h m List.mem_cons_self
      · exact hms x hx
    · intro x hx
      rcases List.mem_cons.mp hx with rfl | hx
      · exact h x List.mem_cons_self
      · exact ih hms x hx

theorem appendValue_wellFormed (h : (members.map StructMember.memberName).Nodup)
    (hvalued : ∀ m ∈ members, m.memberValue.isSome = true) :
    StructWellFormed (appendValue memberName type value members) where
  nonempty := by
    cases members with
    | nil => simp [appendValue]
    | cons m ms =>
      rw [appendValue]
      split <;> simp
  distinct := appendValue_distinct h
  valued := appendValue_valued hvalued

theorem addToMembers_eq {str : StructMember} {rest : List StructMember}
    (hvalued : ∀ m ∈ str :: rest, m.memberValue.isSome = true)
    (hlast : ∀ last ∈ (str :: rest).getLast?, last.memberName ≠ memberName) :
    addToMembers memberName type value str rest = some (appendValue memberName type value (str :: rest)) := by
  induction rest generalizing str with
  | nil =>
    have hstr : str.memberName ≠ memberName := hlast str rfl
    simp [addToMembers, appendValue, hstr]
  | cons t rest ih =>
    rw [addToMembers, appendValue]
    split
    · obtain ⟨c, hc⟩ := Option.isSome_iff_exists.mp (hvalued str List.mem_cons_self)
      rw [hc]
      rfl
    · rw [List.getLast?_cons_cons] at hlast
      rw [ih (fun m hm => hvalued m (List.mem_cons_of_mem str hm)) hlast]
      rfl

theorem addToMembers_last {str : StructMember} {rest : List StructMember}
    (hdistinct : ((str :: rest).map StructMember.memberName).Nodup) {last : StructMember}
    (hlast : last ∈ (str :: rest).getLast?) (hname : last.memberName = memberName) :
    addToMembers memberName type value str rest = some (str :: rest ++ [⟨memberName, some ⟨type, [value]⟩⟩]) := by
  induction rest generalizing str with
  | nil => rfl
  | cons t rest ih =>
    obtain ⟨hstr, hrest⟩ := List.nodup_cons.mp hdistinct
    rw [List.getLast?_cons_cons] at hlast
    have hne : str.memberName ≠ memberName := by
      rintro rfl
      rw [← hname] at hstr
      exact hstr (List.mem_map_of_mem (List.mem_of_getLast? hlast))
    rw [addToMembers, if_neg hne, ih hrest hlast]
    rfl

end

/-! ## The selected struct -/

theorem selectStruct_eq (index : Int) (structs : List StructValue) :
    selectStruct index structs = structs[structPosition index structs]? := by
  unfold selectStruct structPosition
  split
  · exact List.getLast?_eq_getElem?
  · rfl

theorem set_eq_modify {α : Type*} {l : List α} {i : Nat} {a : α} (f : α → α) (h : l[i]? = some a) :
    l.set i (f a) = l.modify i f := by
  apply List.ext_getElem?
  intro j
  rw [List.getElem?_set, List.getElem?_modify]
  by_cases hij : i = j
  · subst hij
    obtain ⟨hlt, rfl⟩ := List.getElem?_eq_some_iff.mp h
    simp [hlt]
  · simp [hij]

section
variable {ccbId : CcbId} {dn attrName : String} {s : StructCache} {c : AddCall}

@[simp] theorem structs_setMem (mem : AttrHelperMem) : (s.setMem ccbId mem).structs ccbId = mem.values.toList := by
  simp [StructCache.structs, StructCache.setMem]

theorem structs_of_none (h : s.attrStructCache ccbId = none) : s.structs ccbId = [] := by
  rw [StructCache.structs, h]
  rfl

theorem toList_mem : ((s.attrStructCache ccbId).getD { moIf := c.moIf }).values.toList = s.structs ccbId := by
  unfold StructCache.structs
  cases s.attrStructCache ccbId <;> rfl

structure Kept (ccbId : CcbId) (dn attrName : String) (s : StructCache) : Prop where
  same : ∀ mem, s.attrStructCache ccbId = some mem → mem.status = .inuse → mem.attrName = attrName ∧
    mem.the3gppDn = dn
  notFreed : ∀ mem, s.attrStructCache ccbId = some mem → mem.values ≠ .freed
  wellFormed : ∀ members ∈ s.structs ccbId, StructWellFormed members

theorem kept_of_none (h : s.attrStructCache ccbId = none) : Kept ccbId dn attrName s where
  same mem hmem := by simp [h] at hmem
  notFreed mem hmem := by simp [h] at hmem
  wellFormed := by simp [structs_of_none h]

theorem Kept.isSameStructType_ne (h : Kept ccbId dn attrName s) :
    isSameStructType ccbId dn attrName s ≠ .different := by
  unfold isSameStructType
  split <;> rename_i hmem
  · simp
  · obtain ⟨hmem, huse⟩ := Option.filter_eq_some_iff.mp hmem
    rw [if_pos (h.same _ hmem (of_decide_eq_true huse))]
    simp

theorem Kept.lookup (h : Kept ccbId dn attrName s) :
    Kept ccbId dn attrName (s.setMem ccbId ((s.attrStructCache ccbId).getD { moIf := c.moIf })) := by
  have hwellFormed := h.wellFormed
  rw [← toList_mem (c := c)] at hwellFormed
  constructor
  · intro mem hmem huse
    cases hcache : s.attrStructCache ccbId with
    | none =>
      obtain rfl : { moIf := c.moIf } = mem := by simpa [StructCache.setMem, hcache] using hmem
      cases huse
    | some mem' =>
      obtain rfl : mem' = mem := by simpa [StructCache.setMem, hcache] using hmem
      exact h.same _ hcache huse
  · intro mem hmem
    cases hcache : s.attrStructCache ccbId with
    | none =>
      obtain rfl : { moIf := c.moIf } = mem := by simpa [StructCache.setMem, hcache] using hmem
      simp
    | some mem' =>
      obtain rfl : mem' = mem := by simpa [StructCache.setMem, hcache] using hmem
      exact h.notFreed _ hcache
  · rw [structs_setMem]
    exact hwellFormed

theorem Kept.use (h : Kept ccbId dn attrName s) {structs : List StructValue}
    (hwellFormed : ∀ members ∈ structs, StructWellFormed members) :
    Kept ccbId dn attrName ((s.setMem ccbId ((s.attrStructCache ccbId).getD { moIf := c.moIf })).setMem ccbId
      (((s.attrStructCache ccbId).getD { moIf := c.moIf }).use dn attrName (.block structs))) := by
  constructor
  · intro mem hmem _
    obtain rfl : _ = mem := by simpa [StructCache.setMem] using hmem
    unfold AttrHelperMem.use
    cases hcache : s.attrStructCache ccbId with
    | none => simp
    | some mem' =>
      cases hstatus : mem'.status with
      | empty => simp [hstatus]
      | inuse => simpa [hstatus] using h.same _ hcache hstatus
  · intro mem hmem
    obtain rfl : _ = mem := by simpa [StructCache.setMem] using hmem
    simp [AttrHelperMem.use]
  · rw [structs_setMem]
    exact hwellFormed

theorem realloc_one {values : Values} (h : values ≠ .freed) (members : StructValue) :
    values.realloc [members] = some (true, .block (values.toList ++ [members])) := by
  cases values with
  | null => rfl
  | block structs => simp [Values.realloc, Values.toList]
  | freed => exact absurd rfl h

theorem Kept.values_ne (h : Kept ccbId dn attrName s) :
    ((s.attrStructCache ccbId).getD { moIf := c.moIf }).values ≠ .freed := by
  cases hcache : s.attrStructCache ccbId with
  | none => simp
  | some mem => exact h.notFreed mem hcache

theorem wellFormed_new (memberName : String) (type : MoAttributeType) (value : MoValue) :
    StructWellFormed [⟨memberName, some ⟨type, [value]⟩⟩] := ⟨by simp, by simp, by simp⟩

theorem addAttrValue_selects (h : Kept ccbId dn attrName s) {type : MoAttributeType} (htype : c.type = some type)
    (hreference : type ≠ .reference) (hindex : -1 ≤ c.index) (hlength : c.index < (s.structs ccbId).length) :
    addAttrValue ccbId dn attrName c s =
      match selectStruct c.index (s.structs ccbId) with
      | none => none
      | some [] => some (.failure, s.setMem ccbId ((s.attrStructCache ccbId).getD { moIf := c.moIf }))
      | some (str :: rest) =>
        (addToMembers c.memberName type c.value str rest).map fun members =>
          (.ok, (s.setMem ccbId ((s.attrStructCache ccbId).getD { moIf := c.moIf })).setMem ccbId
            (((s.attrStructCache ccbId).getD { moIf := c.moIf }).use dn attrName
              (.block ((s.structs ccbId).set (structPosition c.index (s.structs ccbId)) members)))) := by
  have hrejected : ¬ (c.index < -1 ∨ type = .reference) := not_or.mpr ⟨Int.not_lt.mpr hindex, hreference⟩
  have hbehind : ¬ c.index > (s.structs ccbId).length := Int.not_lt.mpr (Int.le_of_lt hlength)
  unfold addAttrValue
  rw [htype]
  dsimp only
  rw [toList_mem, if_neg hrejected, if_neg h.isSameStructType_ne, if_neg hbehind, if_neg (Int.ne_of_lt hlength)]

theorem addAttrValue_placed (h : Kept ccbId dn attrName s) (hmisses : ¬ Misses ccbId s c) {type : MoAttributeType}
    (htype : c.type = some type) (hreference : type ≠ .reference) (hindex : -1 ≤ c.index)
    (hlength : c.index < (s.structs ccbId).length) :
    ∃ s', addAttrValue ccbId dn attrName c s = some (.ok, s') ∧ Kept ccbId dn attrName s' ∧
      s'.structs ccbId = c.place (s.structs ccbId) ∧ s.structs ccbId ≠ [] := by
  have hadd := addAttrValue_selects h htype hreference hindex hlength
  cases hselect : selectStruct c.index (s.structs ccbId) with
  | none =>
    refine absurd ⟨⟨type, htype, hreference⟩, hindex, hlength, ?_⟩ hmisses
    rw [hselect]
    nofun
  | some members =>
    rw [selectStruct_eq] at hselect
    have hwellFormed := h.wellFormed members (List.mem_of_getElem? hselect)
    obtain ⟨str, rest, rfl⟩ := List.exists_cons_of_ne_nil hwellFormed.nonempty
    have hlast : ∀ last ∈ (str :: rest).getLast?, last.memberName ≠ c.memberName := by
      intro last hlast hname
      refine hmisses ⟨⟨type, htype, hreference⟩, hindex, hlength, ?_⟩
      rw [selectStruct_eq, hselect]
      rintro _ ⟨⟩
      exact ⟨last, hlast, hname⟩
    rw [selectStruct_eq, hselect] at hadd
    dsimp only at hadd
    rw [addToMembers_eq hwellFormed.valued hlast, Option.map_some] at hadd
    refine ⟨_, hadd, h.use ?_, ?_, fun hnone => ?_⟩
    · intro members hmembers
      rcases List.mem_or_eq_of_mem_set hmembers with hmembers | rfl
      · exact h.wellFormed members hmembers
      · exact appendValue_wellFormed hwellFormed.distinct hwellFormed.valued
    · have happend : appendValue c.memberName type c.value (str :: rest) = c.append (str :: rest) := by
        simp [AddCall.append, htype]
      rw [structs_setMem, AddCall.place, if_neg (Int.ne_of_lt hlength), happend, ← set_eq_modify c.append hselect]
      rfl
    · rw [hnone] at hselect
      cases hselect

theorem addAttrValue_right (h : Kept ccbId dn attrName s) (hmisses : ¬ Misses ccbId s c) :
    ∃ rc s', addAttrValue ccbId dn attrName c s = some (rc, s') ∧ Kept ccbId dn attrName s' ∧
      (rc = .ok → s'.structs ccbId = c.place (s.structs ccbId)) ∧
        (c.index = -1 → s.structs ccbId = [] → rc ≠ .ok) ∧
          ((∃ type, c.type = some type ∧ type ≠ .reference) → -1 ≤ c.index → c.index ≤ (s.structs ccbId).length →
            rc = .ok) := by
  by_cases hinside : (∃ type, c.type = some type ∧ type ≠ .reference) ∧ -1 ≤ c.index ∧
      c.index < (s.structs ccbId).length
  · obtain ⟨⟨type, htype, hreference⟩, hindex, hlength⟩ := hinside
    obtain ⟨s', hadd, hkept, hplaced, hne⟩ := addAttrValue_placed h hmisses htype hreference hindex hlength
    exact ⟨.ok, s', hadd, hkept, fun _ => hplaced, fun _ hnone => absurd hnone hne, fun _ _ _ => rfl⟩
  unfold addAttrValue
  cases htype : c.type with
  | none => exact ⟨.failure, s, rfl, h, nofun, fun _ _ => nofun, by rintro ⟨type, ⟨⟩, -⟩⟩
  | some type =>
    dsimp only
    rw [toList_mem]
    by_cases hrejected : c.index < -1 ∨ type = .reference
    · rw [if_pos hrejected]
      refine ⟨.failure, s, rfl, h, nofun, fun _ _ => nofun, ?_⟩
      rintro ⟨_, ⟨⟩, hreference⟩ hindex -
      exact absurd hrejected (not_or.mpr ⟨Int.not_lt.mpr hindex, hreference⟩)
    obtain ⟨hindex, hreference⟩ := not_or.mp hrejected
    rw [if_neg hrejected, if_neg h.isSameStructType_ne]
    by_cases hbehind : c.index > (s.structs ccbId).length
    · rw [if_pos hbehind]
      exact ⟨.failure, _, rfl, h.lookup, nofun, fun _ _ => nofun, fun _ _ hle => absurd hle
        (Int.not_le.mpr hbehind)⟩
    have hnew : c.index = (s.structs ccbId).length := by
      by_contra hne
      exact hinside ⟨⟨type, htype, hreference⟩, Int.not_lt.mp hindex, by omega⟩
    rw [if_neg hbehind, if_pos hnew, realloc_one h.values_ne, toList_mem]
    refine ⟨.ok, _, rfl, h.use ?_, fun _ => ?_, fun hlast hnone => ?_, fun _ _ _ => rfl⟩
    · intro members hmembers
      rcases List.mem_append.mp hmembers with hmembers | hmembers
      · exact h.wellFormed members hmembers
      · rw [List.mem_singleton.mp hmembers]
        exact wellFormed_new _ _ _
    · rw [structs_setMem, AddCall.place, if_pos hnew]
      simp [AttrHelperMem.use, Values.toList, AddCall.append, htype, appendValue]
    · rw [hnone] at hnew
      simp [hlast] at hnew

theorem addAttrValue_misses (h : Kept ccbId dn attrName s) (hmisses : Misses ccbId s c) :
    addAttrValue ccbId dn attrName c s = none ∨ ¬ MembersDistinct ccbId (addStep ccbId dn attrName s c) := by
  obtain ⟨⟨type, htype, hreference⟩, hindex, hlength, hlast⟩ := hmisses
  have hadd := addAttrValue_selects h htype hreference hindex hlength
  cases hselect : selectStruct c.index (s.structs ccbId) with
  | none =>
    rw [hselect] at hadd
    exact .inl hadd
  | some members =>
    obtain ⟨last, hlast, hname⟩ := hlast members hselect
    rw [selectStruct_eq] at hselect
    have hwellFormed := h.wellFormed members (List.mem_of_getElem? hselect)
    obtain ⟨str, rest, rfl⟩ := List.exists_cons_of_ne_nil hwellFormed.nonempty
    rw [selectStruct_eq, hselect] at hadd
    dsimp only at hadd
    rw [addToMembers_last hwellFormed.distinct hlast hname, Option.map_some] at hadd
    refine .inr fun hdistinct => ?_
    have hmem : str :: rest ++ [⟨c.memberName, some ⟨type, [c.value]⟩⟩] ∈
        (addStep ccbId dn attrName s c).structs ccbId := by
      unfold addStep
      rw [hadd, Option.map_some, Option.getD_some, structs_setMem]
      obtain ⟨hlt, -⟩ := List.getElem?_eq_some_iff.mp hselect
      exact List.mem_set hlt _
    have hnodup := hdistinct _ hmem
    rw [List.map_append, List.nodup_append] at hnodup
    exact hnodup.2.2 last.memberName (List.mem_map_of_mem (List.mem_of_getLast? hlast)) c.memberName (by simp) hname

/-! ## Whole runs -/

theorem Kept.membersDistinct (h : Kept ccbId dn attrName s) : MembersDistinct ccbId s :=
  fun members hmembers => (h.wellFormed members hmembers).distinct

theorem Kept.step (h : Kept ccbId dn attrName s) (hmisses : ¬ Misses ccbId s c) :
    Kept ccbId dn attrName (addStep ccbId dn attrName s c) := by
  obtain ⟨rc, s', hadd, hkept, -⟩ := addAttrValue_right h hmisses
  unfold addStep
  rw [hadd]
  exact hkept

theorem places_of_not_misses (h : Kept ccbId dn attrName s) (hmisses : ¬ Misses ccbId s c) :
    Places ccbId dn attrName s c := by
  obtain ⟨rc, s', hadd, -, hplaced, hrejected, -⟩ := addAttrValue_right h hmisses
  unfold Places
  rw [hadd]
  exact ⟨hplaced, hrejected⟩

theorem accepts_of_not_misses (h : Kept ccbId dn attrName s) (hmisses : ¬ Misses ccbId s c) :
    Accepts ccbId dn attrName s c := by
  intro htype hindex hlength
  obtain ⟨rc, s', hadd, -, -, -, haccepted⟩ := addAttrValue_right h hmisses
  rw [haccepted htype hindex hlength] at hadd
  exact ⟨s', hadd⟩

theorem not_misses_of_places (h : Kept ccbId dn attrName s) (hplaces : Places ccbId dn attrName s c)
    (hdistinct : MembersDistinct ccbId (addStep ccbId dn attrName s c)) : ¬ Misses ccbId s c := by
  intro hmisses
  rcases addAttrValue_misses h hmisses with hnone | hdouble
  · unfold Places at hplaces
    rw [hnone] at hplaces
    exact hplaces
  · exact hdouble hdistinct

/-- Every call places its value and every struct has each name once, exactly in the runs where no call names the last
member of the struct that it selects or takes the index -1 without a struct. There no value is turned down. -/
theorem valuesPlaced_iff (ccbId : CcbId) (dn attrName : String) {s : StructCache} (hs : s.attrStructCache ccbId = none)
    (cs : List AddCall) :
    (Along (addStep ccbId dn attrName) (Places ccbId dn attrName) s cs ∧
        Throughout (addStep ccbId dn attrName) (MembersDistinct ccbId) s cs ↔
      Along (addStep ccbId dn attrName) (fun s c => ¬ Misses ccbId s c) s cs) ∧
    (Along (addStep ccbId dn attrName) (fun s c => ¬ Misses ccbId s c) s cs →
      Along (addStep ccbId dn attrName) (Accepts ccbId dn attrName) s cs) := by
  have hkept : Kept ccbId dn attrName s := kept_of_none hs
  clear hs
  constructor
  · induction cs generalizing s with
    | nil => exact ⟨fun _ => trivial, fun _ => ⟨trivial, hkept.membersDistinct⟩⟩
    | cons c cs ih =>
      constructor
      · rintro ⟨⟨hplaces, hrest⟩, -, hdistinct⟩
        have hmisses := not_misses_of_places hkept hplaces hdistinct.head
        exact ⟨hmisses, (ih (hkept.step hmisses)).mp ⟨hrest, hdistinct⟩⟩
      · rintro ⟨hmisses, hrest⟩
        obtain ⟨hplaced, hdistinct⟩ := (ih (hkept.step hmisses)).mpr hrest
        exact ⟨⟨places_of_not_misses hkept hmisses, hplaced⟩, hkept.membersDistinct, hdistinct⟩
  · exact along_of_along (J := Kept ccbId dn attrName)
      (fun s c h hmisses => ⟨accepts_of_not_misses h hmisses, h.step hmisses⟩) hkept

end

def twice : List AddCall :=
  [⟨0, 0, "password", some .string, .text "a"⟩, ⟨0, 0, "password", some .string, .text "b"⟩]

theorem valuesPlaced_iff_twice :
    (Along (addStep 1 "lmId=1" "user") (Places 1 "lmId=1" "user") .initial twice ∧
        Throughout (addStep 1 "lmId=1" "user") (MembersDistinct 1) .initial twice ↔
      Along (addStep 1 "lmId=1" "user") (fun s c => ¬ Misses 1 s c) .initial twice) ∧
    (Along (addStep 1 "lmId=1" "user") (fun s c => ¬ Misses 1 s c) .initial twice →
      Along (addStep 1 "lmId=1" "user") (Accepts 1 "lmId=1" "user") .initial twice) :=
  valuesPlaced_iff 1 "lmId=1" "user" rfl twice

/-- A second value for the only member of a struct makes a second member with its name. -/
theorem not_valuesPlaced :
    ¬ ∀ (ccbId : CcbId) (dn attrName : String) (s : StructCache) (cs : List AddCall), s.attrStructCache
      ccbId = none →
      Along (addStep ccbId dn attrName) (Places ccbId dn attrName) s cs ∧
        Throughout (addStep ccbId dn attrName) (MembersDistinct ccbId) s cs := by
  intro h
  have hdistinct := (h 1 "lmId=1" "user" .initial twice rfl).2.last
  have hstructs : (twice.foldl (addStep 1 "lmId=1" "user") .initial).structs 1 =
      [[⟨"password", some ⟨.string, [.text "a"]⟩⟩, ⟨"password", some ⟨.string, [.text "b"]⟩⟩]] := by decide
  unfold MembersDistinct at hdistinct
  rw [hstructs] at hdistinct
  exact absurd (hdistinct _ List.mem_cons_self) (by decide)

end ComSA.OIproxy
