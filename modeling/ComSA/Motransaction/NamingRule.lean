import ComSA.Lib.Cut
import ComSA.Motransaction.Bridge

/-!
# The naming rule

An object is named `Class=value` when its key attribute is the class with an `id` behind it, and
`Class.key=value` otherwise. Three functions have this rule: one builds the name of a new object, one names an
object that is read from IMM, and one names the objects from the top down.
-/

namespace ComSA.Naming

/-! ## Reading an object back -/

inductive ImmClass where
  | noContext
  | notInImm
  | found (className : String)
  deriving DecidableEq, Repr

def find (t s : List Char) : Option Nat :=
  ((List.range (s.length + 1)).filter fun i => t.isPrefixOf (s.drop i)).head?

def convertImmNameFragmentErrorCase (theImmString : String) : String :=
  if theImmString ≠ "id" ∧ theImmString.toList.take 3 ≠ "id=".toList then
    match theImmString.toList with
    | [] => theImmString
    | c :: cs =>
      let s := c.toUpper :: cs
      match find "Id=".toList s with
      | some pos => String.ofList (s.take pos ++ s.drop (pos + 2))
      | none => String.ofList s
  else theImmString

def stem (name : List Char) : List Char := (name.map Char.toLower).take (name.length - 2)

def convertImmNameFragmentTo3GPPNameFragment (immClass : ImmClass) (theImmString : String) : String :=
  let nameBeforeEqualSign := theImmString.toList.takeWhile (· ≠ '=')
  let rest := theImmString.toList.dropWhile (· ≠ '=')
  -- there are no two letters to take off
  if nameBeforeEqualSign.length < 2 then theImmString
  else if stem nameBeforeEqualSign = "id".toList then theImmString
  else
    match immClass with
    | .noContext => theImmString
    | .notInImm => convertImmNameFragmentErrorCase theImmString
    | .found className =>
      if rest = [] then theImmString
      else if stem nameBeforeEqualSign = className.toList.map Char.toLower then
        String.ofList (className.toList ++ rest)
      else String.ofList (className.toList ++ '.' :: nameBeforeEqualSign ++ rest)

/-! ## From the top down -/

structure OamSAKeyMOMRepo where
  classNameMap : List (String × String) := []
  momDecorated : Bool := false
  momName : String := ""
  deriving DecidableEq, Repr

def OamSAKeyMOMRepo.getClassNameForKeyAttribute (keyAttribute : List Char) (r : OamSAKeyMOMRepo) : String :=
  (r.classNameMap.lookup (String.ofList keyAttribute)).getD ""

structure OamSAKeyAttributeRepository where
  momOamSAKeyMOMRepoMAP : List (String × OamSAKeyMOMRepo) := []
  momOamSAKeyMOMRepoMAP_immKey : List (String × String) := []
  deriving DecidableEq, Repr

def OamSAKeyAttributeRepository.getMOMRepoImmKey (immKeyAttribute : List Char) (g : OamSAKeyAttributeRepository) :
    OamSAKeyMOMRepo :=
  match g.momOamSAKeyMOMRepoMAP_immKey.lookup (String.ofList immKeyAttribute) with
  | some mom => (g.momOamSAKeyMOMRepoMAP.lookup mom).getD {}
  | none => {}

def nextFragment (immRdnHead : List Char) : List Char × List Char :=
  if ',' ∈ immRdnHead then
    ((immRdnHead.reverse.takeWhile (· ≠ ',')).reverse, (immRdnHead.reverse.dropWhile (· ≠ ',')).tail.reverse)
  else (immRdnHead, [])

def retriveKey (nextpiece : List Char) : List Char :=
  if '=' ∈ nextpiece then (nextpiece.reverse.dropWhile (· ≠ '=')).tail.reverse else nextpiece

def retiveValue (nextpiece : List Char) : List Char :=
  if '=' ∈ nextpiece then (nextpiece.reverse.takeWhile (· ≠ '=')).reverse else nextpiece

def lower (s : List Char) : List Char := s.map Char.toLower

def immFragment (g : OamSAKeyAttributeRepository) (tempRepo : OamSAKeyMOMRepo) (nextpiece : List Char) :
    List Char × OamSAKeyMOMRepo :=
  let key := retriveKey nextpiece
  let value := retiveValue nextpiece
  let tempRepo :=
    if tempRepo.getClassNameForKeyAttribute key = "" ∧ lower key ≠ "id".toList then g.getMOMRepoImmKey key
    else tempRepo
  let className := tempRepo.getClassNameForKeyAttribute key
  let key :=
    if tempRepo.momDecorated = true ∧ tempRepo.momName.toList <:+: key then key.drop tempRepo.momName.toList.length
    else key
  let name :=
    if className = "" ∧ lower key = "id".toList then key
    else if lower key ≠ lower (className.toList ++ "id".toList) then className.toList ++ '.' :: key
    else className.toList
  (name ++ '=' :: value, tempRepo)

theorem nextFragment_of_notMem {head : List Char} (h : ',' ∉ head) : nextFragment head = (head, []) := if_neg h

theorem nextFragment_append {a b : List Char} (h : ',' ∉ b) : nextFragment (a ++ ',' :: b) = (b, a) := by
  unfold nextFragment
  rw [if_pos (by simp), (cut_last h).1, (cut_last h).2]

theorem nextFragment_length {head : List Char} (h : head ≠ []) : (nextFragment head).2.length < head.length := by
  by_cases hmem : ',' ∈ head
  · obtain ⟨a, b, rfl, hb⟩ := exists_last hmem
    rw [nextFragment_append hb, List.length_append, List.length_cons]
    exact Nat.lt_add_of_pos_right (Nat.succ_pos _)
  · rw [nextFragment_of_notMem hmem]
    exact List.length_pos_iff.mpr h

def immBuilder (g : OamSAKeyAttributeRepository) (tempRepo : OamSAKeyMOMRepo) (immRdnHead : List Char) :
    List Char :=
  if immRdnHead = [] then []
  else
    let x := immFragment g tempRepo (nextFragment immRdnHead).1
    if (nextFragment immRdnHead).2 = [] then x.1
    else x.1 ++ ',' :: immBuilder g x.2 (nextFragment immRdnHead).2
termination_by immRdnHead.length
decreasing_by exact nextFragment_length ‹_›

/-! ## The rule -/

def IsDefaultKey (className keyAttributeName : String) : Prop :=
  convertToLowerCase keyAttributeName = convertToLowerCase className ++ "id"

instance (className keyAttributeName : String) : Decidable (IsDefaultKey className keyAttributeName) :=
  inferInstanceAs (Decidable (_ = _))

/-- How an object should be shown: the object of a struct by its key alone. -/
def shownAs (className keyAttributeName keyAttributeValue : String) : String :=
  (if convertToLowerCase keyAttributeName = "id" then keyAttributeName
    else if IsDefaultKey className keyAttributeName then className
    else className ++ "." ++ keyAttributeName) ++ "=" ++ keyAttributeValue

/-- The object has the name that it should have, wherever that comes from. -/
structure NamesAgree (g : OamSAKeyAttributeRepository) (tempRepo : OamSAKeyMOMRepo)
    (className keyAttributeName keyAttributeValue : String) : Prop where
  created : buildRdn className keyAttributeName keyAttributeValue =
    shownAs className keyAttributeName keyAttributeValue
  read : convertImmNameFragmentTo3GPPNameFragment (.found className)
      (keyAttributeName ++ "=" ++ keyAttributeValue) =
    shownAs className keyAttributeName keyAttributeValue
  built : String.ofList (immBuilder g tempRepo (keyAttributeName ++ "=" ++ keyAttributeValue).toList) =
    shownAs className keyAttributeName keyAttributeValue

def IsName (s : String) : Prop := '=' ∉ s.toList ∧ ',' ∉ s.toList ∧ '.' ∉ s.toList

instance (s : String) : Decidable (IsName s) := inferInstanceAs (Decidable (_ ∧ _))

structure Plain (r : OamSAKeyMOMRepo) : Prop where
  names : ∀ x ∈ r.classNameMap, IsName x.1 ∧ IsName x.2
  undecorated : r.momDecorated = false

structure NamedAlike (className keyAttributeName keyAttributeValue : String) : Prop where
  oneValue : '=' ∉ keyAttributeValue.toList ∧ ',' ∉ keyAttributeValue.toList
  long : 2 ≤ keyAttributeName.toList.length
  notStruct : convertToLowerCase keyAttributeName ≠ "id"
  stemNotId : stem keyAttributeName.toList ≠ "id".toList
  suffix : stem keyAttributeName.toList = className.toList.map Char.toLower → IsDefaultKey className
    keyAttributeName

/-! ## Names by their letters -/

section Letters
variable {className keyAttributeName keyAttributeValue : String}

theorem lowerId_iff : convertToLowerCase keyAttributeName = "id" ↔ lower keyAttributeName.toList = "id".toList := by
  rw [← String.toList_inj, convertToLowerCase, String.toList_ofList, lower]

theorem isDefaultKey_iff : IsDefaultKey className keyAttributeName ↔
    lower keyAttributeName.toList = lower className.toList ++ "id".toList := by
  rw [IsDefaultKey, ← String.toList_inj, String.toList_append, convertToLowerCase, convertToLowerCase,
    String.toList_ofList, String.toList_ofList, lower, lower]

theorem length_of_default (h : IsDefaultKey className keyAttributeName) :
    keyAttributeName.toList.length = className.toList.length + 2 := by
  have hlength := congrArg List.length (isDefaultKey_iff.mp h)
  simpa [lower] using hlength

theorem stem_of_default (h : IsDefaultKey className keyAttributeName) :
    stem keyAttributeName.toList = lower className.toList := by
  have hlower := isDefaultKey_iff.mp h
  rw [stem, length_of_default h]
  change (lower keyAttributeName.toList).take _ = _
  rw [hlower, Nat.add_sub_cancel, List.take_left' (by simp [lower])]

def shownName (className keyAttributeName : String) : List Char :=
  if convertToLowerCase keyAttributeName = "id" then keyAttributeName.toList
  else if IsDefaultKey className keyAttributeName then className.toList
  else className.toList ++ '.' :: keyAttributeName.toList

theorem shownAs_toList : (shownAs className keyAttributeName keyAttributeValue).toList =
    shownName className keyAttributeName ++ '=' :: keyAttributeValue.toList := by
  unfold shownAs shownName
  split
  · simp
  · split <;> simp

theorem buildRdn_toList : (buildRdn className keyAttributeName keyAttributeValue).toList =
    (if IsDefaultKey className keyAttributeName then className.toList
      else className.toList ++ '.' :: keyAttributeName.toList) ++
    (if keyAttributeValue.toList.head? = some '=' then [] else ['=']) ++ keyAttributeValue.toList := by
  unfold buildRdn
  rw [String.toList_append, String.toList_append]
  congr 2
  · by_cases h : IsDefaultKey className keyAttributeName
    · rw [if_pos h, if_pos (Eq.symm h)]
    · rw [if_neg h, if_neg (Ne.symm h)]
      simp
  · split <;> rfl

theorem convert_toList (hkey : '=' ∉ keyAttributeName.toList) :
    (convertImmNameFragmentTo3GPPNameFragment (.found className)
      (keyAttributeName ++ "=" ++ keyAttributeValue)).toList =
    if keyAttributeName.toList.length < 2 ∨ stem keyAttributeName.toList = "id".toList then
      keyAttributeName.toList ++ '=' :: keyAttributeValue.toList
    else if stem keyAttributeName.toList = lower className.toList then
      className.toList ++ '=' :: keyAttributeValue.toList
    else className.toList ++ '.' :: keyAttributeName.toList ++ '=' :: keyAttributeValue.toList := by
  have hlist : (keyAttributeName ++ "=" ++ keyAttributeValue).toList =
      keyAttributeName.toList ++ '=' :: keyAttributeValue.toList := by simp
  obtain ⟨htake, hdrop⟩ := cut_first (b := keyAttributeValue.toList) hkey
  rw [← hlist] at htake hdrop
  unfold convertImmNameFragmentTo3GPPNameFragment
  rw [htake, hdrop]
  dsimp only
  by_cases hshort : keyAttributeName.toList.length < 2
  · rw [if_pos hshort, if_pos (Or.inl hshort), hlist]
  · by_cases hid : stem keyAttributeName.toList = "id".toList
    · rw [if_neg hshort, if_pos hid, if_pos (Or.inr hid), hlist]
    · rw [if_neg hshort, if_neg hid, if_neg (not_or.mpr ⟨hshort, hid⟩), if_neg (List.cons_ne_nil _ _)]
      change (if stem keyAttributeName.toList = lower className.toList then _ else _ : String).toList = _
      split <;> rw [String.toList_ofList]

end Letters

/-! ## One fragment -/

inductive FragmentName (key : List Char) : List Char → Prop where
  | default (className : String) (hname : IsName className)
      (hkey : lower key = lower className.toList ++ "id".toList) : FragmentName key className.toList
  | other (className : String) (hname : IsName className) (hnone : '=' ∈ key → className = "") :
      FragmentName key (className.toList ++ '.' :: key)
  | struct (hkey : lower key = "id".toList) : FragmentName key key

section Fragment
variable {g : OamSAKeyAttributeRepository} {r : OamSAKeyMOMRepo}

theorem retriveKey_append {a b : List Char} (h : '=' ∉ b) : retriveKey (a ++ '=' :: b) = a := by
  unfold retriveKey
  rw [if_pos (by simp), (cut_last h).2]

theorem retiveValue_append {a b : List Char} (h : '=' ∉ b) : retiveValue (a ++ '=' :: b) = b := by
  unfold retiveValue
  rw [if_pos (by simp), (cut_last h).1]

theorem Plain.className (h : Plain r) (key : List Char) : IsName (r.getClassNameForKeyAttribute key) ∧
    ('=' ∈ key → r.getClassNameForKeyAttribute key = "") := by
  unfold OamSAKeyMOMRepo.getClassNameForKeyAttribute
  cases hlookup : r.classNameMap.lookup (String.ofList key) with
  | none => exact ⟨by decide, fun _ => rfl⟩
  | some className =>
    obtain ⟨before, after, hmap, -⟩ := List.lookup_eq_some_iff.mp hlookup
    obtain ⟨hkey, hclass⟩ := h.names (String.ofList key, className) (by simp [hmap])
    refine ⟨hclass, fun hmem => absurd ?_ hkey.1⟩
    rwa [String.toList_ofList]

theorem immBuilder_one {p : List Char} (hp : p ≠ []) (h : ',' ∉ p) : immBuilder g r p = (immFragment g r p).1 := by
  rw [immBuilder, if_neg hp, nextFragment_of_notMem h]
  rfl

theorem immBuilder_append {a b : List Char} (ha : a ≠ []) (hb : ',' ∉ b) : immBuilder g r (a ++ ',' :: b) =
    (immFragment g r b).1 ++ ',' :: immBuilder g (immFragment g r b).2 a := by
  rw [immBuilder, if_neg (by simp), nextFragment_append hb]
  exact if_neg ha

variable (hg : ∀ key, Plain (g.getMOMRepoImmKey key))
include hg

theorem immFragment_name (hr : Plain r) (piece : List Char) : ∃ name, FragmentName (retriveKey piece) name ∧
    (immFragment g r piece).1 = name ++ '=' :: retiveValue piece ∧ Plain (immFragment g r piece).2 := by
  unfold immFragment
  dsimp only
  generalize retriveKey piece = key
  have hrepo : Plain (if r.getClassNameForKeyAttribute key = "" ∧ lower key ≠ "id".toList then
      g.getMOMRepoImmKey key else r) := by
    split
    · exact hg key
    · exact hr
  generalize (if r.getClassNameForKeyAttribute key = "" ∧ lower key ≠ "id".toList then
      g.getMOMRepoImmKey key else r) = r' at hrepo
  obtain ⟨hname, hnone⟩ := hrepo.className key
  have hkey : (if r'.momDecorated = true ∧ r'.momName.toList <:+: key then key.drop r'.momName.toList.length
      else key) = key := if_neg fun h => by
    rw [hrepo.undecorated] at h
    cases h.1
  rw [hkey]
  refine ⟨_, ?_, rfl, hrepo⟩
  split <;> rename_i hstruct
  · exact .struct hstruct.2
  · split <;> rename_i hdefault
    · exact .other _ hname hnone
    · refine .default _ hname ?_
      have hlower := not_not.mp hdefault
      rw [hlower]
      simp [lower]

end Fragment

/-! ## Letters in lower case -/

theorem toLower_eq_equal {c : Char} (h : c.toLower = '=') : c = '=' := by
  unfold Char.toLower at h
  split at h <;> rename_i hc
  · have hval : c.val + 32 = 61 := by simpa using congrArg Char.val h
    have hnat := congrArg UInt32.toNat hval
    have hlow := UInt32.le_iff_toNat_le.mp hc.1
    have hhigh := UInt32.le_iff_toNat_le.mp hc.2
    rw [UInt32.toNat_add] at hnat
    simp at hnat hlow hhigh
    omega
  · exact h

theorem equal_notMem_lower {s : List Char} (h : '=' ∉ s) : '=' ∉ lower s := by
  intro hmem
  obtain ⟨c, hc, hlower⟩ := List.mem_map.mp hmem
  rw [toLower_eq_equal hlower] at hc
  exact h hc

theorem FragmentName.of_equal {key name : List Char} (h : FragmentName key name) (hkey : '=' ∈ key) :
    name = '.' :: key := by
  have hlower : '=' ∈ lower key := List.mem_map.mpr ⟨'=', hkey, rfl⟩
  cases h with
  | default className hname hdefault =>
    rw [hdefault, List.mem_append] at hlower
    rcases hlower with h | h
    · exact absurd h (equal_notMem_lower hname.1)
    · exact absurd h (by decide)
  | other className hname hnone =>
    rw [hnone hkey]
    rfl
  | struct hstruct =>
    rw [hstruct] at hlower
    exact absurd hlower (by decide)

theorem no_second_name {className keyAttributeName : String} (hclass : IsName className)
    (hstruct : convertToLowerCase keyAttributeName ≠ "id") (hstem : stem keyAttributeName.toList ≠ "id".toList)
    {name : List Char} (h : FragmentName keyAttributeName.toList name)
    (h' : FragmentName name (shownName className keyAttributeName)) : False := by
  have hlonger : name.length ≠ keyAttributeName.toList.length ∧ '.' ∉ lower "id".toList := by
    refine ⟨?_, by decide⟩
    cases h with
    | default c hname hkey =>
      have hlength := congrArg List.length hkey
      simp only [lower, List.length_map, List.length_append] at hlength
      have htwo : "id".toList.length = 2 := rfl
      omega
    | other c hname hnone =>
      rw [List.length_append, List.length_cons]
      omega
    | struct hkey => exact absurd (lowerId_iff.mpr hkey) hstruct
  unfold shownName at h'
  rw [if_neg hstruct] at h'
  split at h' <;> rename_i hdefault
  · generalize hshown : className.toList = shown at h'
    cases h' with
    | default c hname hkey =>
      rw [String.toList_inj] at hshown
      subst hshown
      have hlength := congrArg List.length (hkey.trans (isDefaultKey_iff.mp hdefault).symm)
      simp only [lower, List.length_map] at hlength
      exact hlonger.1 hlength
    | other c hname hnone => exact hclass.2.2 (by simp [hshown])
    | struct hkey =>
      subst hshown
      exact hstem ((stem_of_default hdefault).trans hkey)
  · generalize hshown : className.toList ++ '.' :: keyAttributeName.toList = shown at h'
    cases h' with
    | default c hname hkey => exact hname.2.2 (by rw [← hshown]; simp)
    | other c hname hnone =>
      have hcut := congrArg (List.dropWhile (· ≠ '.')) hshown
      rw [(cut_first hclass.2.2).2, (cut_first hname.2.2).2] at hcut
      exact hlonger.1 (congrArg List.length (List.cons.inj hcut).2.symm)
    | struct hkey =>
      subst hshown
      have hdot : '.' ∈ lower (className.toList ++ '.' :: keyAttributeName.toList) :=
        List.mem_map.mpr ⟨'.', by simp, rfl⟩
      rw [hkey] at hdot
      exact absurd hdot (by decide)

/-! ## The whole name -/

theorem takeWhile_append_comma (a b : List Char) :
    (a ++ ',' :: b).takeWhile (· ≠ ',') = a.takeWhile (· ≠ ',') := by
  rw [List.takeWhile_append]
  split <;> rename_i h
  · have htake := (List.takeWhile_prefix (l := a) (· ≠ ',')).eq_of_length h
    rw [htake]
    simp
  · rfl

section Whole
variable {g : OamSAKeyAttributeRepository} {r : OamSAKeyMOMRepo} {className keyAttributeName : String}
variable (hg : ∀ key, Plain (g.getMOMRepoImmKey key))
include hg

theorem comma_notMem_fragment (hr : Plain r) {piece : List Char} (h : ',' ∉ piece) :
    ',' ∉ (immFragment g r piece).1 := by
  obtain ⟨name, hname, htext, -⟩ := immFragment_name hg hr piece
  have hkey : ',' ∉ retriveKey piece ∧ ',' ∉ retiveValue piece := by
    by_cases hequal : '=' ∈ piece
    · obtain ⟨a, b, rfl, hb⟩ := exists_last hequal
      rw [retriveKey_append hb, retiveValue_append hb]
      exact ⟨fun hmem => h (by simp [hmem]), fun hmem => h (by simp [hmem])⟩
    · rw [retriveKey, retiveValue, if_neg hequal, if_neg hequal]
      exact ⟨h, h⟩
  have hcomma : ',' ∉ name := by
    cases hname with
    | default c hclass _ => exact hclass.2.1
    | other c hclass _ =>
      rw [List.mem_append, List.mem_cons, not_or, not_or]
      exact ⟨hclass.2.1, by decide, hkey.1⟩
    | struct _ => exact hkey.1
  rw [htext, List.mem_append, List.mem_cons, not_or, not_or]
  exact ⟨hcomma, by decide, hkey.2⟩

/-- The last part of the name is made of the first fragment. By induction on the length of the value, since its
last fragment is taken off first. -/
theorem last_part {k : List Char} (hk : ',' ∉ k) (v : List Char) (hr : Plain r) : ∃ before r', Plain r' ∧
    (before = [] ∨ ∃ y, before = y ++ [',']) ∧
    immBuilder g r (k ++ '=' :: v) = before ++ (immFragment g r' (k ++ '=' :: v.takeWhile (· ≠ ','))).1 := by
  induction hn : v.length using Nat.strong_induction_on generalizing v r with
  | _ n ih =>
    by_cases hcomma : ',' ∈ v
    · obtain ⟨a, b, rfl, hb⟩ := exists_last hcomma
      obtain ⟨_, _, _, hnext⟩ := immFragment_name hg hr b
      have hshorter : a.length < n := by
        rw [← hn, List.length_append, List.length_cons]
        omega
      obtain ⟨before, r', hr', hend, hbuilt⟩ := ih a.length hshorter a hnext rfl
      refine ⟨(immFragment g r b).1 ++ ',' :: before, r', hr', Or.inr ?_, ?_⟩
      · rcases hend with rfl | ⟨y, rfl⟩
        · exact ⟨_, rfl⟩
        · exact ⟨(immFragment g r b).1 ++ ',' :: y, by simp⟩
      · have hsplit : k ++ '=' :: (a ++ ',' :: b) = (k ++ '=' :: a) ++ ',' :: b := by simp
        rw [hsplit, immBuilder_append (by simp) hb, hbuilt, takeWhile_append_comma]
        simp
    · refine ⟨[], r, hr, Or.inl rfl, ?_⟩
      have hself : v.takeWhile (· ≠ ',') = v := List.takeWhile_eq_self_iff.mpr fun x hx => by
        rw [decide_eq_true_iff]
        rintro rfl
        exact hcomma hx
      rw [hself, immBuilder_one (by simp), List.nil_append]
      rw [List.mem_append, List.mem_cons, not_or, not_or]
      exact ⟨hk, by decide, hcomma⟩

omit hg in
theorem shownName_head (hclass : IsName className) (hne : className ≠ "")
    (hstruct : convertToLowerCase keyAttributeName ≠ "id") :
    ∃ c cs, shownName className keyAttributeName = c :: cs ∧ c ≠ '.' := by
  unfold shownName
  rw [if_neg hstruct]
  cases hlist : className.toList with
  | nil => exact absurd (String.toList_inj.mp hlist) hne
  | cons c cs =>
    have hc : c ≠ '.' := by
      rintro rfl
      exact hclass.2.2 (by simp [hlist])
    split
    · exact ⟨c, cs, rfl, hc⟩
    · exact ⟨c, _, rfl, hc⟩

omit hg in
theorem shownName_comma (hclass : IsName className) (hkey : IsName keyAttributeName) :
    ',' ∉ shownName className keyAttributeName := by
  unfold shownName
  split
  · exact hkey.2.1
  · split
    · exact hclass.2.1
    · rw [List.mem_append, List.mem_cons, not_or, not_or]
      exact ⟨hclass.2.1, by decide, hkey.2.1⟩

theorem not_built_of_comma (hr : Plain r) (hclass : IsName className) (hne : className ≠ "")
    (hkey : IsName keyAttributeName) (hstruct : convertToLowerCase keyAttributeName ≠ "id")
    (hstem : stem keyAttributeName.toList ≠ "id".toList) {v : List Char} (hcomma : ',' ∈ v) :
    immBuilder g r (keyAttributeName.toList ++ '=' :: v) ≠ shownName className keyAttributeName ++ '=' :: v := by
  intro hbuilt
  obtain ⟨before, r', hr', hend, hlast⟩ := last_part hg hkey.2.1 v hr
  obtain ⟨v₀, w, hfirst, hv₀⟩ := List.eq_append_cons_of_mem hcomma
  obtain ⟨a, b, hv, hb⟩ := exists_last hcomma
  have hname := shownName_comma hclass hkey
  have htake : v.takeWhile (· ≠ ',') = v₀ := by rw [hfirst, (cut_first hv₀).1]
  have hpiece : ',' ∉ keyAttributeName.toList ++ '=' :: v₀ := by
    rw [List.mem_append, List.mem_cons, not_or, not_or]
    exact ⟨hkey.2.1, by decide, hv₀⟩
  rw [htake] at hlast
  have hb' : (immFragment g r' (keyAttributeName.toList ++ '=' :: v₀)).1 = b := by
    have hwhole := hlast.symm.trans hbuilt
    have hsplit : shownName className keyAttributeName ++ '=' :: v =
        (shownName className keyAttributeName ++ '=' :: a) ++ ',' :: b := by simp [hv]
    have hfragment := comma_notMem_fragment hg hr' hpiece
    rcases hend with rfl | ⟨y, rfl⟩
    · rw [List.nil_append, hsplit] at hwhole
      rw [hwhole] at hfragment
      exact absurd hfragment (by simp)
    · have hy : y ++ [','] ++ (immFragment g r' (keyAttributeName.toList ++ '=' :: v₀)).1 =
          y ++ ',' :: (immFragment g r' (keyAttributeName.toList ++ '=' :: v₀)).1 := by simp
      rw [hsplit, hy] at hwhole
      rw [← (cut_last (a := y) hfragment).1, hwhole, (cut_last hb).1]
  have ht : (immFragment g r b).1 = shownName className keyAttributeName ++ '=' :: v₀ := by
    have hsplit : keyAttributeName.toList ++ '=' :: v = (keyAttributeName.toList ++ '=' :: a) ++ ',' :: b := by
      simp [hv]
    have hshown : shownName className keyAttributeName ++ '=' :: v =
        (shownName className keyAttributeName ++ '=' :: v₀) ++ ',' :: w := by simp [hfirst]
    rw [hsplit, immBuilder_append (by simp) hb, hshown] at hbuilt
    have hcut := congrArg (List.takeWhile (· ≠ ',')) hbuilt
    rw [(cut_first (comma_notMem_fragment hg hr hb)).1, (cut_first ?_).1] at hcut
    · exact hcut
    · rw [List.mem_append, List.mem_cons, not_or, not_or]
      exact ⟨hname, by decide, hv₀⟩
  obtain ⟨name, hfragment, htext, -⟩ := immFragment_name hg hr' (keyAttributeName.toList ++ '=' :: v₀)
  obtain ⟨name', hfragment', htext', -⟩ := immFragment_name hg hr b
  by_cases hequal : '=' ∈ v₀
  · obtain ⟨a₀, b₀, rfl, hb₀⟩ := exists_last hequal
    have hpieces : keyAttributeName.toList ++ '=' :: (a₀ ++ '=' :: b₀) =
        (keyAttributeName.toList ++ '=' :: a₀) ++ '=' :: b₀ := by simp
    rw [hpieces, retriveKey_append hb₀] at hfragment
    rw [hpieces] at htext hb'
    rw [retiveValue_append hb₀, hfragment.of_equal (by simp), hb'] at htext
    rw [htext, retriveKey_append hb₀] at hfragment'
    rw [hfragment'.of_equal (by simp), ht] at htext'
    obtain ⟨c, cs, hshown, hc⟩ := shownName_head hclass hne hstruct
    rw [hshown] at htext'
    exact hc (List.cons.inj htext').1
  · rw [retriveKey_append hequal] at hfragment
    rw [retiveValue_append hequal, hb'] at htext
    rw [htext, retriveKey_append hequal] at hfragment'
    rw [htext, retiveValue_append hequal] at htext'
    rw [htext, htext'] at ht
    rw [List.append_cancel_right ht] at hfragment'
    exact no_second_name hclass hstruct hstem hfragment hfragment'

omit hg in
theorem not_default_of_struct (hne : className ≠ "") (h : convertToLowerCase keyAttributeName = "id") :
    ¬ IsDefaultKey className keyAttributeName := by
  intro hdefault
  have hlength := length_of_default hdefault
  have htwo : keyAttributeName.toList.length = 2 := by
    simpa [lower] using congrArg List.length (lowerId_iff.mp h)
  have hnil : className.toList = [] := List.eq_nil_of_length_eq_zero (by omega)
  exact hne (String.toList_inj.mp hnil)

omit hg in
theorem created_iff (hne : className ≠ "") (keyAttributeValue : String) :
    buildRdn className keyAttributeName keyAttributeValue = shownAs className keyAttributeName keyAttributeValue ↔
      convertToLowerCase keyAttributeName ≠ "id" ∧ keyAttributeValue.toList.head? ≠ some '=' := by
  rw [← String.toList_inj, buildRdn_toList, shownAs_toList]
  unfold shownName
  by_cases hstruct : convertToLowerCase keyAttributeName = "id"
  · rw [if_pos hstruct, if_neg (not_default_of_struct hne hstruct)]
    refine iff_of_false (fun h => ?_) fun h => h.1 hstruct
    have hpos : className.toList.length ≠ 0 := fun h =>
      hne (String.toList_inj.mp (List.eq_nil_of_length_eq_zero h))
    have hlength := congrArg List.length h
    simp only [List.length_append, List.length_cons] at hlength
    omega
  · rw [if_neg hstruct]
    by_cases hvalue : keyAttributeValue.toList.head? = some '='
    · rw [if_pos hvalue]
      refine iff_of_false (fun h => ?_) fun h => h.2 hvalue
      have hlength := congrArg List.length h
      simp only [List.length_append, List.length_cons, List.length_nil] at hlength
      omega
    · rw [if_neg hvalue]
      refine iff_of_true ?_ ⟨hstruct, hvalue⟩
      simp

omit hg in
theorem read_iff (hne : className ≠ "") (hkey : IsName keyAttributeName)
    (hstruct : convertToLowerCase keyAttributeName ≠ "id") (keyAttributeValue : String) :
    convertImmNameFragmentTo3GPPNameFragment (.found className) (keyAttributeName ++ "=" ++ keyAttributeValue) =
        shownAs className keyAttributeName keyAttributeValue ↔
      2 ≤ keyAttributeName.toList.length ∧ stem keyAttributeName.toList ≠ "id".toList ∧
        (stem keyAttributeName.toList = lower className.toList → IsDefaultKey className keyAttributeName) := by
  have hpos : className.toList.length ≠ 0 := fun h =>
    hne (String.toList_inj.mp (List.eq_nil_of_length_eq_zero h))
  rw [← String.toList_inj, convert_toList hkey.1, shownAs_toList]
  unfold shownName
  rw [if_neg hstruct]
  by_cases hunread : keyAttributeName.toList.length < 2 ∨ stem keyAttributeName.toList = "id".toList
  · rw [if_pos hunread]
    refine iff_of_false (fun h => ?_) fun h => ?_
    · have hname := List.append_cancel_right h
      split at hname <;> rename_i hdefault
      · have hlength := length_of_default hdefault
        rw [hname] at hlength
        omega
      · have hlength := congrArg List.length hname
        simp only [List.length_append, List.length_cons] at hlength
        omega
    · rcases hunread with hshort | hid
      · omega
      · exact h.2.1 hid
  · obtain ⟨hlong, hid⟩ := not_or.mp hunread
    rw [if_neg hunread]
    by_cases hdefault : IsDefaultKey className keyAttributeName
    · rw [if_pos (stem_of_default hdefault), if_pos hdefault]
      exact iff_of_true rfl ⟨not_lt.mp hlong, hid, fun _ => hdefault⟩
    · rw [if_neg hdefault]
      by_cases hstem : stem keyAttributeName.toList = lower className.toList
      · rw [if_pos hstem]
        refine iff_of_false (fun h => ?_) fun h => hdefault (h.2.2 hstem)
        have hlength := congrArg List.length h
        simp only [List.length_append, List.length_cons] at hlength
        omega
      · rw [if_neg hstem]
        exact iff_of_true rfl ⟨not_lt.mp hlong, hid, fun h => absurd h hstem⟩

theorem built_iff (hr : Plain r) (hclass : IsName className) (hne : className ≠ "") (hkey : IsName keyAttributeName)
    (hstruct : convertToLowerCase keyAttributeName ≠ "id") (hstem : stem keyAttributeName.toList ≠ "id".toList)
    (hknown : r.getClassNameForKeyAttribute keyAttributeName.toList = className) (keyAttributeValue : String) :
    String.ofList (immBuilder g r (keyAttributeName ++ "=" ++ keyAttributeValue).toList) =
        shownAs className keyAttributeName keyAttributeValue ↔
      '=' ∉ keyAttributeValue.toList ∧ ',' ∉ keyAttributeValue.toList := by
  have hlist : (keyAttributeName ++ "=" ++ keyAttributeValue).toList =
      keyAttributeName.toList ++ '=' :: keyAttributeValue.toList := by simp
  rw [← String.toList_inj, String.toList_ofList, shownAs_toList, hlist]
  generalize keyAttributeValue.toList = v
  by_cases hcomma : ',' ∈ v
  · exact iff_of_false (not_built_of_comma hg hr hclass hne hkey hstruct hstem hcomma) fun h => h.2 hcomma
  · have hpiece : ',' ∉ keyAttributeName.toList ++ '=' :: v := by
      rw [List.mem_append, List.mem_cons, not_or, not_or]
      exact ⟨hkey.2.1, by decide, hcomma⟩
    rw [immBuilder_one (by simp) hpiece]
    by_cases hequal : '=' ∈ v
    · refine iff_of_false (fun h => ?_) fun h => h.1 hequal
      obtain ⟨name, hname, htext, -⟩ := immFragment_name hg hr (keyAttributeName.toList ++ '=' :: v)
      obtain ⟨a, b, rfl, hb⟩ := exists_last hequal
      have hpieces : keyAttributeName.toList ++ '=' :: (a ++ '=' :: b) =
          (keyAttributeName.toList ++ '=' :: a) ++ '=' :: b := by simp
      rw [hpieces, retriveKey_append hb] at hname
      rw [h, hname.of_equal (by simp)] at htext
      obtain ⟨c, cs, hshown, hc⟩ := shownName_head hclass hne hstruct
      rw [hshown] at htext
      exact hc (List.cons.inj htext).1
    · refine iff_of_true ?_ ⟨hequal, hcomma⟩
      have hlower : lower keyAttributeName.toList ≠ "id".toList := fun h => hstruct (lowerId_iff.mpr h)
      unfold immFragment shownName
      dsimp only
      have hrepo : (if r.getClassNameForKeyAttribute keyAttributeName.toList = "" ∧
          lower keyAttributeName.toList ≠ "id".toList then g.getMOMRepoImmKey keyAttributeName.toList else r) = r :=
        if_neg fun h => hne (hknown.symm.trans h.1)
      have hstrip : (if r.momDecorated = true ∧ r.momName.toList <:+: keyAttributeName.toList then
          keyAttributeName.toList.drop r.momName.toList.length else keyAttributeName.toList) =
          keyAttributeName.toList := if_neg fun h => by
        rw [hr.undecorated] at h
        cases h.1
      rw [retriveKey_append hequal, retiveValue_append hequal, hrepo, hstrip, hknown, if_neg (fun h => hne h.1),
        if_neg hstruct]
      have hdefault : lower keyAttributeName.toList = lower (className.toList ++ "id".toList) ↔
          IsDefaultKey className keyAttributeName := by
        rw [isDefaultKey_iff]
        simp [lower]
      by_cases h : IsDefaultKey className keyAttributeName
      · rw [if_neg (not_not.mpr (hdefault.mpr h)), if_pos h]
      · rw [if_pos (fun heq => h (hdefault.mp heq)), if_neg h]

end Whole

/-- In a model without decorated names, an object has one name, and the one that it should have, exactly when its
value has no separator, and the two letters that are taken off its key are an `id` or leave something that
is neither the class nor a struct. -/
theorem names_agree_iff (g : OamSAKeyAttributeRepository) (hg : ∀ key, Plain (g.getMOMRepoImmKey key))
    (tempRepo : OamSAKeyMOMRepo) (hrepo : Plain tempRepo) (className : String) (hclass : IsName className)
    (hne : className ≠ "") (keyAttributeName : String) (hkey : IsName keyAttributeName)
    (hknown : convertToLowerCase keyAttributeName ≠ "id" →
      tempRepo.getClassNameForKeyAttribute keyAttributeName.toList = className) (keyAttributeValue : String) :
    NamesAgree g tempRepo className keyAttributeName keyAttributeValue ↔
      NamedAlike className keyAttributeName keyAttributeValue := by
  constructor
  · intro h
    obtain ⟨hstruct, -⟩ := (created_iff hne keyAttributeValue).mp h.created
    obtain ⟨hlong, hstem, hsuffix⟩ := (read_iff hne hkey hstruct keyAttributeValue).mp h.read
    exact ⟨(built_iff hg hrepo hclass hne hkey hstruct hstem (hknown hstruct) keyAttributeValue).mp h.built, hlong,
      hstruct, hstem, hsuffix⟩
  · intro h
    have hhead : keyAttributeValue.toList.head? ≠ some '=' := fun hhead =>
      h.oneValue.1 (List.mem_of_mem_head? hhead)
    exact ⟨(created_iff hne keyAttributeValue).mpr ⟨h.notStruct, hhead⟩,
      (read_iff hne hkey h.notStruct keyAttributeValue).mpr ⟨h.long, h.stemNotId, h.suffix⟩,
      (built_iff hg hrepo hclass hne hkey h.notStruct h.stemNotId (hknown h.notStruct) keyAttributeValue).mpr
        h.oneValue⟩

/-! ## A key that is not the class with an `id` -/

def bookRepo : OamSAKeyMOMRepo := { classNameMap := [("bookId", "Book"), ("bookNo", "Book")] }

theorem plain_bookRepo : Plain bookRepo := ⟨by decide, rfl⟩

theorem plain_empty (key : List Char) : Plain (({} : OamSAKeyAttributeRepository).getMOMRepoImmKey key) :=
  ⟨fun _ h => absurd h List.not_mem_nil, rfl⟩

theorem names_agree_bookId : NamesAgree {} bookRepo "Book" "bookId" "1" ↔ NamedAlike "Book" "bookId" "1" :=
  names_agree_iff {} plain_empty bookRepo plain_bookRepo "Book" (by decide) (by decide) "bookId" (by decide)
    (fun _ => by decide) "1"

/-- The object is created as `Book.bookNo=1`, and it is read as `Book=1`. -/
theorem not_names_agree : ¬ ∀ (g : OamSAKeyAttributeRepository) (tempRepo : OamSAKeyMOMRepo)
    (className keyAttributeName keyAttributeValue : String), (∀ key, Plain (g.getMOMRepoImmKey key)) →
    Plain tempRepo → IsName className → className ≠ "" → IsName keyAttributeName →
    tempRepo.getClassNameForKeyAttribute keyAttributeName.toList = className →
    NamesAgree g tempRepo className keyAttributeName keyAttributeValue := by
  intro h
  have hread := (h {} bookRepo "Book" "bookNo" "1" plain_empty plain_bookRepo (by decide) (by decide) (by decide)
    (by decide)).read
  exact absurd hread (by decide)

end ComSA.Naming
