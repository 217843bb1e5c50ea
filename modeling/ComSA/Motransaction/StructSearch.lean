import ComSA.Lib.Searches
import ComSA.Motransaction.StructEncoding

/-!
# The search for the values of structs

The parameters of an array of structs are read against the model that they were made with: the values of each member
of each element are searched for in all names, one search after the other, and what is found is cut. It is told here
when each search finds its own values, and when these are read as they were written.
-/

namespace ComSA.Action

open Naming (find)

theorem isPrefix_before {α : Type*} {c : α} {t a b : List α} (hc : c ∉ t) (h : t <+: a ++ c :: b) : t <+: a := by
  rcases Nat.lt_or_ge a.length t.length with hlt | hle
  · have hover : a ++ [c] <+: t := by
      refine List.prefix_of_prefix_length_le ⟨b, by simp⟩ h ?_
      rw [List.length_append, List.length_singleton]
      exact hlt
    exact absurd (hover.mem (by simp)) hc
  · exact List.prefix_of_prefix_length_le h (List.prefix_append a _) hle

/-! ## Where a name is found -/

theorem find_eq_some_iff {t s : List Char} {i : Nat} :
    find t s = some i ↔ t <+: s.drop i ∧ i ≤ s.length ∧ ∀ j < i, ¬ t <+: s.drop j := by
  unfold find
  rw [List.head?_filter, List.find?_range_eq_some]
  simp [Nat.lt_succ_iff, Bool.eq_false_iff]

theorem find_eq_none_iff {t s : List Char} : find t s = none ↔ ∀ i ≤ s.length, ¬ t <+: s.drop i := by
  unfold find
  rw [List.head?_filter, List.find?_eq_none]
  simp [Nat.lt_succ_iff]

theorem find_isSome_iff {t s : List Char} : (find t s).isSome = true ↔ t <:+: s := by
  rw [Option.isSome_iff_ne_none]
  constructor
  · intro h
    obtain ⟨i, hi⟩ := Option.ne_none_iff_exists'.mp h
    exact (find_eq_some_iff.mp hi).1.isInfix.trans (List.drop_suffix i s).isInfix
  · rintro ⟨a, b, rfl⟩ hnone
    refine find_eq_none_iff.mp hnone a.length (by simp) ?_
    rw [List.append_assoc, List.drop_left]
    exact List.prefix_append t b

theorem cutName_element {struct number member rest : List Char} (hstruct : '_' ∉ struct) (hnumber : '_' ∉ number) :
    cutName ('_' :: number ++ '_' :: member) (struct ++ '_' :: (number ++ '_' :: (member ++ rest))) =
      member ++ rest := by
  have hfind : find ('_' :: number ++ '_' :: member) (struct ++ '_' :: (number ++ '_' :: (member ++ rest))) =
      some struct.length := by
    refine find_eq_some_iff.mpr ⟨?_, by simp, fun j hj hhead => hstruct ?_⟩
    · rw [List.drop_left]
      exact ⟨rest, by simp⟩
    · -- before the end of the struct there is no underscore
      rw [List.drop_append_of_le_length hj.le, List.drop_eq_getElem_cons hj, List.cons_append, List.cons_append]
        at hhead
      rw [(List.cons_prefix_cons.mp hhead).1]
      exact List.getElem_mem hj
  have hsubstr {a b : List Char} (ha : '_' ∉ a) : substrAfter (a ++ '_' :: b) = b := by
    rw [substrAfter, split_append ha]
  rw [cutName, hfind]
  dsimp only
  rw [if_pos (by simp), List.drop_left, ← List.nil_append ('_' :: _), hsubstr List.not_mem_nil, hsubstr hnumber]

theorem cutName_member {struct member rest : List Char} (hmember : '_' ∉ member) (hfind : find member struct = none) :
    cutName member (struct ++ '_' :: (member ++ rest)) = member ++ rest := by
  have hdrop : (struct ++ '_' :: (member ++ rest)).drop (struct.length + 1) = member ++ rest := by
    rw [List.append_cons]
    exact List.drop_left' (by simp)
  have hplace : find member (struct ++ '_' :: (member ++ rest)) = some (struct.length + 1) := by
    refine find_eq_some_iff.mpr ⟨?_, by simp, fun j hj hhead => ?_⟩
    · rw [hdrop]
      exact List.prefix_append _ _
    · have hj : j ≤ struct.length := Nat.lt_succ_iff.mp hj
      rw [List.drop_append_of_le_length hj] at hhead
      -- what begins in the struct ends in it, as the underscore is no part of it
      exact find_eq_none_iff.mp hfind j hj (isPrefix_before hmember hhead)
  rw [cutName, hplace]
  dsimp only
  rw [if_neg hmember, hdrop]

namespace Slot

def search (nrOfValues : Nat) (slot : Slot) : List Char :=
  searchName (decide (1 < nrOfValues)) slot.element slot.member.name

def names (struct : List Char) (nrOfValues : Nat) (slot : Slot) : List (List Char) :=
  (List.range slot.value.values.length).map (slot.valueName struct nrOfValues)

theorem search_single {slot : Slot} {nrOfValues : Nat} (h : nrOfValues ≤ 1) :
    slot.search nrOfValues = slot.member.name := by
  rw [search, searchName, decide_eq_false (not_lt.mpr h), if_neg Bool.false_ne_true]

theorem search_multi {slot : Slot} {nrOfValues : Nat} (h : 1 < nrOfValues) :
    slot.search nrOfValues = '_' :: (toString (slot.element + 1)).toList ++ '_' :: slot.member.name := by
  rw [search, searchName, decide_eq_true h, if_pos rfl]

variable {struct : List Char} {nrOfValues : Nat}

theorem valueName_single_drop {slot : Slot} (h : nrOfValues ≤ 1) (k : Nat) :
    (slot.valueName struct nrOfValues k).drop (struct.length + 1) =
      slot.member.name ++ valueSuffix slot.value.values.length k := by
  rw [valueName_single h, List.append_cons]
  exact List.drop_left' (by simp)

theorem find_valueName (slot : Slot) (k : Nat) :
    find (slot.search nrOfValues) (slot.valueName struct nrOfValues k) ≠ none := by
  intro hnone
  rcases Nat.lt_or_ge 1 nrOfValues with harray | hsingle
  · rw [search_multi harray, valueName_multi harray] at hnone
    refine find_eq_none_iff.mp hnone struct.length (by simp) ?_
    rw [List.drop_left]
    exact ⟨valueSuffix slot.value.values.length k, by simp⟩
  · rw [search_single hsingle] at hnone
    refine find_eq_none_iff.mp hnone (struct.length + 1) (by simp [valueName_single hsingle]) ?_
    rw [valueName_single_drop hsingle]
    exact List.prefix_append _ _

theorem cutName_multi {slot : Slot} (harray : 1 < nrOfValues) (hstruct : '_' ∉ struct) (k : Nat) :
    cutName (slot.search nrOfValues) (slot.valueName struct nrOfValues k) =
      slot.member.name ++ valueSuffix slot.value.values.length k := by
  rw [search_multi harray, valueName_multi harray]
  exact cutName_element hstruct (underscore_notMem_toString _)

theorem cutName_single {slot : Slot} (hsingle : nrOfValues ≤ 1) (hmember : '_' ∉ slot.member.name) {k j : Nat}
    (h : find slot.member.name (slot.valueName struct nrOfValues k) = some j) :
    cutName (slot.search nrOfValues) (slot.valueName struct nrOfValues k) =
      (slot.valueName struct nrOfValues k).drop j := by
  rw [search_single hsingle, cutName, h]
  exact if_neg hmember

theorem cutName_of_find_none {slot : Slot} (hsingle : nrOfValues ≤ 1) (hmember : '_' ∉ slot.member.name)
    (hfind : find slot.member.name struct = none) (k : Nat) :
    cutName (slot.search nrOfValues) (slot.valueName struct nrOfValues k) =
      slot.member.name ++ valueSuffix slot.value.values.length k := by
  rw [search_single hsingle, valueName_single hsingle]
  exact cutName_member hmember hfind

theorem cutName_of_find_some {slot : Slot} (hsingle : nrOfValues ≤ 1) (hmember : '_' ∉ slot.member.name) {i : Nat}
    (hfind : find slot.member.name struct = some i) (k : Nat) :
    cutName (slot.search nrOfValues) (slot.valueName struct nrOfValues k) =
      struct.drop i ++ '_' :: (slot.member.name ++ valueSuffix slot.value.values.length k) := by
  obtain ⟨hhead, hi, hfirst⟩ := find_eq_some_iff.mp hfind
  have hplace : find slot.member.name (slot.valueName struct nrOfValues k) = some i := by
    rw [valueName_single hsingle]
    refine find_eq_some_iff.mpr ⟨?_, by simp; omega, fun j hj hbefore => hfirst j hj ?_⟩
    · rw [List.drop_append_of_le_length hi]
      exact hhead.trans (List.prefix_append _ _)
    · rw [List.drop_append_of_le_length (hj.le.trans hi)] at hbefore
      exact isPrefix_before hmember hbefore
  rw [cutName_single hsingle hmember hplace, valueName_single hsingle, List.drop_append_of_le_length hi]

end Slot

section
variable {env : TranslateEnv} {isMoSpiVersion2 : Bool} {members : List StructMember} {struct : List Char}
  {nrOfValues : Nat}

/-! ## Reading one member -/

/-- What is left of the name of a value when its member was found. -/
def cutParams (env : TranslateEnv) (isMoSpiVersion2 : Bool) (struct : List Char) (nrOfValues : Nat) (slot : Slot) :
    List AdminOperationParams :=
  rename (cutName (slot.search nrOfValues)) (slot.params env isMoSpiVersion2 struct nrOfValues)

theorem reorder_of_numbers {adminOpParams : List AdminOperationParams}
    (h : adminOpParams.map numberOf = numbers adminOpParams.length) :
    reorder adminOpParams = some adminOpParams := by
  have hnumbered : Numbered adminOpParams := List.Perm.of_eq h
  obtain ⟨tempParam, htemp⟩ := Option.ne_none_iff_exists'.mp (reorder_ne_none_iff.mpr hnumbered)
  have hperm := (reorder_spec htemp).2
  have hmap : tempParam.map numberOf = adminOpParams.map numberOf := by
    have hnumbers := List.forall₂_map_right_iff.mpr (List.forall₂_map_left_iff.mpr
      ((forall₂_of_mapM htemp).imp fun i p hp => (findNumbered_some hp).2.symm))
    rw [List.forall₂_eq_eq_eq] at hnumbers
    exact hnumbers.symm.trans h.symm
  have hinj := List.inj_on_of_nodup_map (h ▸ numbers_nodup _ : (adminOpParams.map numberOf).Nodup)
  have heq : tempParam = adminOpParams := by
    rw [← List.forall₂_eq_eq_eq, List.forall₂_map_left_iff, List.forall₂_map_right_iff] at hmap
    rw [← List.forall₂_eq_eq_eq]
    refine List.forall₂_iff_zip.mpr ⟨hmap.length_eq, fun {p q} hzip => ?_⟩
    obtain ⟨hp, hq⟩ := List.of_mem_zip hzip
    exact hinj (hperm.mem_iff.mp hp) hq ((List.forall₂_iff_zip.mp hmap).2 hzip)
  rw [htemp, heq]

theorem convertSimpleToMoAttribute_eq {type : DatatypeContainer}
    {adminOpParams tempParam : List AdminOperationParams}
    (hcase : HasCase (baseType type) = true) (hne : adminOpParams ≠ [])
    (hmin : type.multiplicityMin ≤ adminOpParams.length)
    (hmax : (adminOpParams.length : Int) ≤ type.multiplicityMax)
    (htemp : (if 1 < adminOpParams.length then reorder adminOpParams else some adminOpParams) = some tempParam) :
    (convertSimpleToMoAttribute env (some type) adminOpParams).2 =
      (tempParam.mapM (convertValue env (baseType type))).map (MoResult.mk (baseType type)) := by
  have hlen : adminOpParams.length ≠ 0 := List.length_eq_zero_iff.not.mpr hne
  unfold convertSimpleToMoAttribute
  dsimp only
  rw [if_neg (not_or.mpr ⟨not_lt.mpr hmin, not_lt.mpr hmax⟩), htemp]
  dsimp only
  generalize baseType type = t at hcase ⊢
  cases t <;> cases hcase
  all_goals
    dsimp only
    rw [if_neg hlen]
    cases tempParam.mapM (convertValue env _) <;> rfl

/-- A member can be read: its values are as many as the model says, a name in which the number of the value can be
found, and values that come back. -/
structure Slot.Readable (env : TranslateEnv) (struct : List Char) (nrOfValues : Nat) (slot : Slot) : Prop where
  min : slot.member.memberType.multiplicityMin ≤ slot.value.values.length
  max : (slot.value.values.length : Int) ≤ slot.member.memberType.multiplicityMax
  numbered : nrOfValues ≤ 1 → 1 < slot.value.values.length → find slot.member.name struct = none
  values : ∀ value ∈ slot.value.values, ComesBack env slot.value.type value

namespace Slot

variable {slot : Slot}

theorem length_cutParams (h : Conforms isMoSpiVersion2 slot.member slot.value) :
    (cutParams env isMoSpiVersion2 struct nrOfValues slot).length = slot.value.values.length := by
  rw [cutParams, rename, List.length_map, length_params h]

theorem names_cutParams (h : Conforms isMoSpiVersion2 slot.member slot.value) :
    (cutParams env isMoSpiVersion2 struct nrOfValues slot).map AdminOperationParams.paramName =
      (slot.names struct nrOfValues).map (cutName (slot.search nrOfValues)) := by
  have hmap := congrArg (List.map (cutName (slot.search nrOfValues)))
    (@names_params env isMoSpiVersion2 struct slot h nrOfValues)
  rw [List.map_map] at hmap
  rw [cutParams, rename, List.map_map]
  exact hmap

theorem numbers_cutParams (h : Conforms isMoSpiVersion2 slot.member slot.value) (hmember : '_' ∉ slot.member.name)
    (hmulti : 1 < slot.value.values.length)
    (hcut : ∀ k, cutName (slot.search nrOfValues) (slot.valueName struct nrOfValues k) =
      slot.member.name ++ valueSuffix slot.value.values.length k) :
    (cutParams env isMoSpiVersion2 struct nrOfValues slot).map numberOf =
      numbers (cutParams env isMoSpiVersion2 struct nrOfValues slot).length := by
  have hnames := congrArg (List.map fun name => (split name).map Prod.snd)
    (@names_cutParams env isMoSpiVersion2 struct nrOfValues slot h)
  rw [List.map_map, names, List.map_map, List.map_map] at hnames
  rw [length_cutParams h]
  refine hnames.trans (List.map_congr_left fun k _ => ?_)
  rw [Function.comp_apply, Function.comp_apply, hcut, split_suffix hmember, if_pos hmulti]
  rfl

theorem not_numbered_cutParams (h : Conforms isMoSpiVersion2 slot.member slot.value)
    (hstruct : '_' ∉ struct) (hmulti : 1 < slot.value.values.length)
    {i : Nat} (hcut : ∀ k, cutName (slot.search nrOfValues) (slot.valueName struct nrOfValues k) =
      struct.drop i ++ '_' :: (slot.member.name ++ valueSuffix slot.value.values.length k)) :
    ¬ Numbered (cutParams env isMoSpiVersion2 struct nrOfValues slot) := by
  intro hnumbered
  have hpos : 0 < slot.value.values.length := Nat.lt_of_succ_lt hmulti
  have hname : cutName (slot.search nrOfValues) (slot.valueName struct nrOfValues 0) ∈
      (cutParams env isMoSpiVersion2 struct nrOfValues slot).map AdminOperationParams.paramName := by
    rw [names_cutParams h]
    exact List.mem_map_of_mem (List.mem_map_of_mem (List.mem_range.mpr hpos))
  obtain ⟨p, hp, hpname⟩ := List.mem_map.mp hname
  have hnumber : numberOf p = some (slot.member.name ++ valueSuffix slot.value.values.length 0) := by
    rw [numberOf, hpname, hcut, split_append fun hmem => hstruct (List.mem_of_mem_drop hmem)]
    rfl
  have hmem := hnumbered.mem_iff.mp (List.mem_map_of_mem hp)
  rw [hnumber] at hmem
  obtain ⟨i, -, hi⟩ := List.mem_map.mp hmem
  refine underscore_notMem_toString (i + 1) ?_
  rw [Option.some.inj hi, valueSuffix, if_pos hmulti]
  simp

theorem convertSimple_cutParams (h : Conforms isMoSpiVersion2 slot.member slot.value) (hstruct : '_' ∉ struct)
    (hmember : '_' ∉ slot.member.name) :
    (convertSimpleToMoAttribute env (some slot.member.memberType)
        (cutParams env isMoSpiVersion2 struct nrOfValues slot)).2 =
      some ⟨slot.value.type, slot.value.values⟩ ↔ slot.Readable env struct nrOfValues := by
  have hlen : (cutParams env isMoSpiVersion2 struct nrOfValues slot).length = slot.value.values.length :=
    length_cutParams h
  have hne : cutParams env isMoSpiVersion2 struct nrOfValues slot ≠ [] := by
    rw [← List.length_pos_iff, hlen]
    exact List.length_pos_iff.mpr h.ne_nil
  have hcase : HasCase (baseType slot.member.memberType) = true := h.baseType_eq ▸ h.hasCase
  -- the values, one by one
  have hvalues : (cutParams env isMoSpiVersion2 struct nrOfValues slot).mapM
      (convertValue env (baseType slot.member.memberType)) = some slot.value.values ↔
        ∀ value ∈ slot.value.values, ComesBack env slot.value.type value := by
    have hparams : List.Forall₂ (fun value p => ∃ name, convertASingleAdmOpParam env name isMoSpiVersion2
        slot.member.memberType value = some p) slot.value.values
          (slot.params env isMoSpiVersion2 struct nrOfValues) := by
      conv => arg 2; rw [← List.zipIdx_map_fst 0 slot.value.values]
      exact List.forall₂_map_left_iff.mpr ((params_forall₂ h nrOfValues).imp fun x p hp => ⟨_, hp⟩)
    rw [mapM_eq_some_iff, cutParams, rename, List.forall₂_map_left_iff]
    refine forall₂_iff_of_forall₂ hparams fun value hvalue p hp => ?_
    obtain ⟨name, hp⟩ := hp
    have htyped := h.values value hvalue
    rw [h.baseType_eq, h.type]
    rw [h.type] at htyped
    exact convertValue_of_convert hp htyped _
  -- a member with several values has to have the numbers
  have htold : (slot.value.values.length ≤ 1 ∨ 1 < nrOfValues ∨ find slot.member.name struct = none) →
      (if 1 < (cutParams env isMoSpiVersion2 struct nrOfValues slot).length then
        reorder (cutParams env isMoSpiVersion2 struct nrOfValues slot)
      else some (cutParams env isMoSpiVersion2 struct nrOfValues slot)) =
        some (cutParams env isMoSpiVersion2 struct nrOfValues slot) := by
    intro htold
    split <;> rename_i hmulti
    · rw [hlen] at hmulti
      refine reorder_of_numbers (numbers_cutParams h hmember hmulti ?_)
      rcases Nat.lt_or_ge 1 nrOfValues with harray | hsingle
      · exact cutName_multi harray hstruct
      · exact cutName_of_find_none hsingle hmember
          ((htold.resolve_left (not_le.mpr hmulti)).resolve_left (not_lt.mpr hsingle))
    · rfl
  constructor
  · intro hread
    have hok := convertSimpleToMoAttribute_ok_iff.mp ((convertSimpleToMoAttribute_snd _ _).mp
      (by rw [hread]; exact Option.some_ne_none _))
    obtain ⟨type, htype, ⟨hmin, hmax⟩, hnumbered, -⟩ := hok
    obtain rfl := Option.some.inj htype
    have hfind : nrOfValues ≤ 1 → 1 < slot.value.values.length → find slot.member.name struct = none := by
      intro hsingle hmulti
      by_contra hsome
      obtain ⟨i, hi⟩ := Option.ne_none_iff_exists'.mp hsome
      refine not_numbered_cutParams h hstruct hmulti (cutName_of_find_some hsingle hmember hi) (hnumbered ?_)
      rw [hlen]
      exact hmulti
    rw [convertSimpleToMoAttribute_eq hcase hne hmin hmax (htold ?_)] at hread
    · obtain ⟨values, hmap, heq⟩ := Option.map_eq_some_iff.mp hread
      obtain rfl : values = slot.value.values := congrArg MoResult.values heq
      rw [hlen] at hmin hmax
      exact ⟨hmin, hmax, hfind, hvalues.mp hmap⟩
    · by_contra hnot
      simp only [not_or, not_le, not_lt] at hnot
      exact hnot.2.2 (hfind hnot.2.1 hnot.1)
  · rintro ⟨hmin, hmax, hfind, hback⟩
    rw [← hlen] at hmin hmax
    rw [convertSimpleToMoAttribute_eq hcase hne hmin hmax (htold ?_), hvalues.mpr hback, h.baseType_eq]
    · rfl
    · by_contra hnot
      simp only [not_or, not_le, not_lt] at hnot
      exact hnot.2.2 (hfind hnot.2.1 hnot.1)

end Slot

/-! ## All searches -/

namespace Slot

def hit (nrOfValues : Nat) (slot : Slot) (p : AdminOperationParams) : Bool :=
  (find (slot.search nrOfValues) p.paramName).isSome

def cut (nrOfValues : Nat) (slot : Slot) (p : AdminOperationParams) : AdminOperationParams :=
  { p with paramName := cutName (slot.search nrOfValues) p.paramName }

theorem cut_of_missed (slot : Slot) (p : AdminOperationParams) (h : slot.hit nrOfValues p = false) :
    slot.cut nrOfValues p = p := by
  unfold hit at h
  rw [Option.isSome_eq_false_iff, Option.isNone_iff_eq_none] at h
  unfold cut cutName
  rw [h]

theorem hit_params (slot : Slot) (p : AdminOperationParams)
    (h : p ∈ slot.params env isMoSpiVersion2 struct nrOfValues) : slot.hit nrOfValues p = true := by
  obtain ⟨x, -, hp⟩ := List.mem_filterMap.mp h
  unfold hit
  rw [paramName_of_convert hp, Option.isSome_iff_ne_none]
  exact slot.find_valueName x.2

theorem cutAll_cut (l : List Slot) (p : AdminOperationParams) :
    cutAll (cut nrOfValues) l p = { p with paramName := cutBy (l.map (search nrOfValues)) p.paramName } := by
  induction l generalizing p with
  | nil => rfl
  | cons slot l ih => exact ih _

theorem rename_cutAll (l : List Slot) (adminOpParams : List AdminOperationParams) :
    rename (cutBy (l.map (search nrOfValues))) adminOpParams = adminOpParams.map (cutAll (cut nrOfValues) l) :=
  List.map_congr_left fun p _ => (cutAll_cut l p).symm

/-- The members of different slots do not get in the way of each other. -/
def Apart (env : TranslateEnv) (isMoSpiVersion2 : Bool) (struct : List Char) (nrOfValues : Nat)
    (l : List Slot) : Prop :=
  l.Pairwise (SearchedApart (hit nrOfValues) (cut nrOfValues) (params env isMoSpiVersion2 struct nrOfValues))

/-- What the search for a member leaves of the name of one of its values. -/
def remainder (struct : List Char) (nrOfValues : Nat) (slot : Slot) (k : Nat) : List Char :=
  match if 1 < nrOfValues then none else find slot.member.name struct with
  | none => slot.member.name ++ valueSuffix slot.value.values.length k
  | some i => struct.drop i ++ '_' :: (slot.member.name ++ valueSuffix slot.value.values.length k)

/-- The first of two members is not found in the names of the second one, nor the second one in what is left of the
names of the first. -/
def NotConfused (struct : List Char) (nrOfValues : Nat) (a b : Slot) : Prop :=
  (∀ k < b.value.values.length, find (a.search nrOfValues) (b.valueName struct nrOfValues k) = none) ∧
    ∀ k < a.value.values.length, find (b.search nrOfValues) (a.remainder struct nrOfValues k) = none

theorem cutName_valueName {slot : Slot} (hstruct : '_' ∉ struct) (hmember : '_' ∉ slot.member.name) (k : Nat) :
    cutName (slot.search nrOfValues) (slot.valueName struct nrOfValues k) = slot.remainder struct nrOfValues k := by
  unfold remainder
  rcases Nat.lt_or_ge 1 nrOfValues with harray | hsingle
  · rw [if_pos harray]
    exact cutName_multi harray hstruct k
  · rw [if_neg (not_lt.mpr hsingle)]
    cases hfind : find slot.member.name struct with
    | none => exact cutName_of_find_none hsingle hmember hfind k
    | some i => exact cutName_of_find_some hsingle hmember hfind k

theorem searchedApart_iff {a b : Slot} (ha : Conforms isMoSpiVersion2 a.member a.value)
    (hb : Conforms isMoSpiVersion2 b.member b.value) (hstruct : '_' ∉ struct) (hmember : '_' ∉ a.member.name) :
    SearchedApart (hit nrOfValues) (cut nrOfValues) (params env isMoSpiVersion2 struct nrOfValues) a b ↔
      NotConfused struct nrOfValues a b := by
  have hnames {slot : Slot} (hslot : Conforms isMoSpiVersion2 slot.member slot.value) (P : List Char → Prop) :
      (∀ p ∈ slot.params env isMoSpiVersion2 struct nrOfValues, P p.paramName) ↔
        ∀ k < slot.value.values.length, P (slot.valueName struct nrOfValues k) := by
    rw [← List.forall_mem_map (f := AdminOperationParams.paramName), names_params hslot, List.forall_mem_map]
    simp only [List.mem_range]
  unfold SearchedApart NotConfused hit cut
  simp only [Option.isSome_eq_false_iff, Option.isNone_iff_eq_none]
  rw [hnames hb fun name => find (a.search nrOfValues) name = none,
    hnames ha fun name => find (b.search nrOfValues) (cutName (a.search nrOfValues) name) = none]
  simp only [cutName_valueName hstruct hmember]

end Slot

/-! ### Where a slot stands -/

theorem names_elementSlots {value : ComValue} (h : StructConforms isMoSpiVersion2 members value) (i : Nat) :
    (elementSlots members i value).map (fun slot => slot.member.name) = members.map StructMember.name := by
  have hlen : members.length ≤ (memberValues value).length := h.length_eq.le
  have hfst : (members.zip (memberValues value)).map Prod.fst = members := List.map_fst_zip hlen
  rw [elementSlots, List.map_map]
  conv => rhs; rw [← hfst, List.map_map]
  rfl

theorem element_of_mem_elementSlots {value : ComValue} {i : Nat} {slot : Slot}
    (h : slot ∈ elementSlots members i value) : slot.element = i := by
  obtain ⟨m, -, rfl⟩ := List.mem_map.mp h
  rfl

theorem search_elementSlots {value : ComValue} (h : StructConforms isMoSpiVersion2 members value) (i : Nat) :
    (elementSlots members i value).map (Slot.search nrOfValues) =
      (members.map StructMember.name).map (searchName (decide (1 < nrOfValues)) i) := by
  rw [← names_elementSlots h i, List.map_map]
  refine List.map_congr_left fun slot hslot => ?_
  rw [Slot.search, element_of_mem_elementSlots hslot]
  rfl

theorem zipIdx_flatMap_snd {α β : Type*} (l : List α) (g : Nat → List β) :
    l.zipIdx.flatMap (fun x => g x.2) = (List.range l.length).flatMap g := by
  rw [List.range_eq_range', ← List.zipIdx_map_snd 0 l, List.flatMap_map]

theorem search_slots {values : List ComValue}
    (h : ∀ value ∈ values, StructConforms isMoSpiVersion2 members value) :
    (slots members values).map (Slot.search nrOfValues) =
      searches (decide (1 < nrOfValues)) values.length (members.map StructMember.name) := by
  rw [slots, List.map_flatMap, searches, ← zipIdx_flatMap_snd]
  exact List.flatMap_congr fun x hx => search_elementSlots (h x.1 (List.fst_mem_of_mem_zipIdx hx)) x.2

theorem searches_before {values : List ComValue}
    (h : ∀ value ∈ values, StructConforms isMoSpiVersion2 members value)
    (hdistinct : (members.map StructMember.name).Nodup) {before after : List Slot} {slot : Slot}
    (hslots : slots members values = before ++ slot :: after) :
    before.map (Slot.search nrOfValues) =
      searchesBefore (decide (1 < nrOfValues)) (members.map StructMember.name) slot.element slot.member.name := by
  obtain ⟨l₁, x, l₂, u, v, hzip, hslot, rfl⟩ := exists_of_flatMap_eq hslots
  have hvalues : values = l₁.map Prod.fst ++ x.1 :: l₂.map Prod.fst := by
    rw [← List.zipIdx_map_fst 0 values, hzip, List.map_append, List.map_cons]
  have hx : StructConforms isMoSpiVersion2 members x.1 := h x.1 (hvalues ▸ by simp)
  have hindex : l₁ = (l₁.map Prod.fst).zipIdx ∧ x.2 = l₁.length := by
    rw [hvalues, List.zipIdx_append, List.zipIdx_cons] at hzip
    obtain ⟨hleft, hright⟩ := List.append_inj hzip (by simp)
    refine ⟨hleft.symm, ?_⟩
    rw [← (List.cons.inj hright).1]
    simp
  have helement : slot.element = x.2 := element_of_mem_elementSlots (by rw [hslot]; simp)
  have hnames := names_elementSlots hx x.2
  rw [hslot, List.map_append, List.map_cons] at hnames
  have hhead : (members.map StructMember.name).takeWhile (· ≠ slot.member.name) = u.map fun s => s.member.name := by
    rw [← hnames]
    refine (cut_first fun hmem => ?_).1
    rw [← hnames, List.nodup_append] at hdistinct
    exact hdistinct.2.2 _ hmem _ List.mem_cons_self rfl
  have hleft : (l₁.flatMap fun x => elementSlots members x.2 x.1).map (Slot.search nrOfValues) =
      searches (decide (1 < nrOfValues)) slot.element (members.map StructMember.name) := by
    have hslots₁ := @search_slots isMoSpiVersion2 members nrOfValues (l₁.map Prod.fst) fun value hvalue =>
      h value (by rw [hvalues]; exact List.mem_append_left _ hvalue)
    rw [slots, ← hindex.1, List.length_map] at hslots₁
    rw [hslots₁, helement, hindex.2]
  rw [List.map_append, hleft, searchesBefore, hhead, List.map_map]
  refine congrArg _ (List.map_congr_left fun s hs => ?_)
  have hs' : s.element = x.2 := element_of_mem_elementSlots (by rw [hslot]; exact List.mem_append_left _ hs)
  rw [Slot.search, hs', helement]
  rfl

/-! ### What is found for a slot -/

theorem conforms_of_mem_slots {values : List ComValue}
    (h : ∀ value ∈ values, StructConforms isMoSpiVersion2 members value) {slot : Slot}
    (hslot : slot ∈ slots members values) :
    slot.member ∈ members ∧ Conforms isMoSpiVersion2 slot.member slot.value := by
  obtain ⟨x, hx, hslot⟩ := List.mem_flatMap.mp hslot
  obtain ⟨m, hm, rfl⟩ := List.mem_map.mp hslot
  have hvalue := h x.1 (List.fst_mem_of_mem_zipIdx hx)
  exact ⟨(List.of_mem_zip hm).1, (List.forall₂_iff_zip.mp hvalue).2 hm⟩

theorem apart_iff {values : List ComValue}
    (h : ∀ value ∈ values, StructConforms isMoSpiVersion2 members value) (hstruct : '_' ∉ struct)
    (hmembers : ∀ m ∈ members, '_' ∉ m.name) :
    Slot.Apart env isMoSpiVersion2 struct nrOfValues (slots members values) ↔
      (slots members values).Pairwise (Slot.NotConfused struct nrOfValues) := by
  refine List.Pairwise.iff_of_mem fun {a b} ha hb => ?_
  obtain ⟨hmember, hconforms⟩ := conforms_of_mem_slots h ha
  exact Slot.searchedApart_iff hconforms (conforms_of_mem_slots h hb).2 hstruct (hmembers _ hmember)

theorem memberTypeOf_eq (hdistinct : (members.map StructMember.name).Nodup) {m : StructMember} (hm : m ∈ members) :
    memberTypeOf members m.name = some m.memberType := by
  have hmem : m ∈ members.filter fun m' => m'.name = m.name := by simpa using hm
  obtain ⟨last, hlast⟩ :=
    Option.ne_none_iff_exists'.mp (List.getLast?_eq_none_iff.not.mpr (List.ne_nil_of_mem hmem))
  obtain ⟨hin, hname⟩ := List.mem_filter.mp (List.mem_of_getLast? hlast)
  rw [memberTypeOf, hlast, List.inj_on_of_nodup_map hdistinct hin hm (of_decide_eq_true hname)]
  rfl

theorem length_of_convertSimple {type : DatatypeContainer} {adminOpParams : List AdminOperationParams}
    {r : MoResult}
    (hcase : HasCase (baseType type) = true)
    (h : (convertSimpleToMoAttribute env (some type) adminOpParams).2 = some r) :
    adminOpParams.length = r.values.length := by
  have hok := (convertSimpleToMoAttribute_snd _ _).mp (by rw [h]; nofun)
  obtain ⟨_, ⟨⟩, ⟨hmin, hmax⟩, hnumbered, -⟩ := convertSimpleToMoAttribute_ok_iff.mp hok
  have htemp : ∃ tempParam, (if 1 < adminOpParams.length then reorder adminOpParams else some adminOpParams) =
      some tempParam ∧ tempParam.length = adminOpParams.length := by
    split <;> rename_i hmulti
    · obtain ⟨tempParam, htemp⟩ := Option.ne_none_iff_exists'.mp (reorder_ne_none_iff.mpr (hnumbered hmulti))
      exact ⟨tempParam, htemp, (reorder_spec htemp).2.length_eq⟩
    · exact ⟨adminOpParams, rfl, rfl⟩
  obtain ⟨tempParam, htemp, hlen⟩ := htemp
  by_cases hnil : adminOpParams = []
  · subst hnil
    unfold convertSimpleToMoAttribute at h
    dsimp only at h
    rw [if_neg (not_or.mpr ⟨not_lt.mpr hmin, not_lt.mpr hmax⟩)] at h
    generalize baseType type = t at hcase h
    cases t <;> cases hcase <;> cases h <;> rfl
  · rw [convertSimpleToMoAttribute_eq hcase hnil hmin hmax htemp] at h
    obtain ⟨values, hmap, rfl⟩ := Option.map_eq_some_iff.mp h
    rw [← hlen]
    exact (mapM_eq_some_iff.mp hmap).length_eq

section
variable {values : List ComValue} (h : ∀ value ∈ values, StructConforms isMoSpiVersion2 members value)
  (hdistinct : (members.map StructMember.name).Nodup)

/-- What the names of the slots are read as, and what is found for one of them. -/
def foundFor (env : TranslateEnv) (isMoSpiVersion2 : Bool) (members : List StructMember) (struct : List Char)
    (values : List ComValue) (slot : Slot) : List AdminOperationParams :=
  found (decide (1 < values.length)) values.length (members.map StructMember.name)
    ((slots members values).flatMap (Slot.params env isMoSpiVersion2 struct values.length)) slot.element
      slot.member.name

include h hdistinct

theorem foundFor_eq {before after : List Slot} {slot : Slot} (hslots : slots members values = before ++ slot
    :: after) :
    foundFor env isMoSpiVersion2 members struct values slot =
      (caught (Slot.hit values.length) (Slot.cut values.length) before slot ((slots members values).flatMap
        (Slot.params env isMoSpiVersion2 struct values.length))).map
          (cutAll (Slot.cut values.length) (slots members values)) := by
  rw [foundFor, found, ← searches_before h hdistinct hslots, ← search_slots h, Slot.rename_cutAll, caught]
  refine congrArg _ (List.filter_congr fun p _ => ?_)
  rw [Slot.hit, Slot.cutAll_cut]
  rfl

theorem foundFor_of_apart (hapart : Slot.Apart env isMoSpiVersion2 struct values.length (slots members values))
    {slot : Slot} (hslot : slot ∈ slots members values) :
    foundFor env isMoSpiVersion2 members struct values slot =
      cutParams env isMoSpiVersion2 struct values.length slot := by
  obtain ⟨before, after, hslots⟩ := List.append_of_mem hslot
  have hall := hapart
  unfold Slot.Apart at hapart
  rw [hslots] at hapart
  rw [foundFor_eq h hdistinct hslots]
  have hown := caught_own Slot.cut_of_missed (fun slot p hp => Slot.hit_params slot p hp) hapart
  rw [← hslots] at hown
  rw [hown]
  exact List.map_congr_left fun p hp => cutAll_of_mem Slot.cut_of_missed hall hslot hp

variable (env) in
theorem foundFor_iff (hstruct : '_' ∉ struct) (hmembers : ∀ m ∈ members, '_' ∉ m.name) :
    (∀ slot ∈ slots members values,
      (convertSimpleToMoAttribute env (memberTypeOf members slot.member.name)
        (foundFor env isMoSpiVersion2 members struct values slot)).2 = some ⟨slot.value.type, slot.value.values⟩) ↔
      Slot.Apart env isMoSpiVersion2 struct values.length (slots members values) ∧
        ∀ slot ∈ slots members values, slot.Readable env struct values.length := by
  have hiff (hapart : Slot.Apart env isMoSpiVersion2 struct values.length (slots members values)) {slot : Slot}
      (hslot : slot ∈ slots members values) :
      (convertSimpleToMoAttribute env (memberTypeOf members slot.member.name)
        (foundFor env isMoSpiVersion2 members struct values slot)).2 = some ⟨slot.value.type, slot.value.values⟩ ↔
          slot.Readable env struct values.length := by
    obtain ⟨hmember, hconforms⟩ := conforms_of_mem_slots h hslot
    rw [foundFor_of_apart h hdistinct hapart hslot, memberTypeOf_eq hdistinct hmember]
    exact Slot.convertSimple_cutParams hconforms hstruct (hmembers _ hmember)
  constructor
  · intro hread
    have hapart : Slot.Apart env isMoSpiVersion2 struct values.length (slots members values) := by
      refine apart_of_caught Slot.cut_of_missed (fun slot p hp => Slot.hit_params slot p hp) ?_
      intro before slot after hslots
      have hslot : slot ∈ slots members values := by simp [hslots]
      obtain ⟨hmember, hconforms⟩ := conforms_of_mem_slots h hslot
      have hone := hread slot hslot
      rw [memberTypeOf_eq hdistinct hmember, foundFor_eq h hdistinct hslots] at hone
      have hlen := length_of_convertSimple (hconforms.baseType_eq ▸ hconforms.hasCase) hone
      rw [List.length_map] at hlen
      rw [hlen, Slot.length_params hconforms]
    exact ⟨hapart, fun slot hslot => (hiff hapart hslot).mp (hread slot hslot)⟩
  · rintro ⟨hapart, hreadable⟩ slot hslot
    exact (hiff hapart hslot).mpr (hreadable slot hslot)

end

end

end ComSA.Action
