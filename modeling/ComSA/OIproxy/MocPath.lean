import ComSA.OIproxy.RegisterObjectImplementer
import Mathlib.Data.List.TakeWhile

/-!
# From a DN to a class path

The path of the classes above the first one, found by its name alone, and behind it the classes
that the fragments of the DN name.
-/

namespace ComSA.OIproxy

def getFragmentKey (fragment : String) : Option String :=
  if '.' ∈ fragment.toList then some (String.ofList (fragment.toList.takeWhile (· ≠ '.')))
  else if '=' ∈ fragment.toList then some (String.ofList (fragment.toList.takeWhile (· ≠ '=')))
  else none

mutual

def findComMocPathList (className : String) : Moc → Option (List String)
  | .mk name _ children =>
    if name = className then some [className]
    else (findComMocPathListChild className children).map (name :: ·)

def findComMocPathListChild (className : String) : List Moc → Option (List String)
  | [] => none
  | child :: children =>
    match findComMocPathList className child with
    | some path => some path
    | none => findComMocPathListChild className children

end

def mocPathOf (path : List String) : String := path.foldl (fun s name => s ++ "/" ++ name) ""

/-- The loop over the fragments. Where one names no class, the path so far is left. -/
def appendFragments : String → List String → Bool × String
  | mocPath, [] => (true, mocPath)
  | mocPath, fragment :: rest =>
    match getFragmentKey fragment with
    | none => (false, mocPath)
    | some className => appendFragments (mocPath ++ "/" ++ className) rest

def createMocPath (env : OIEnv) (moDn : String) : Bool × String :=
  match GlobalSplitDN moDn with
  | [] => (false, "")
  | first :: rest =>
    match getFragmentKey first with
    | none => (false, "")
    | some classStr =>
      match env.mocRoot.bind (findComMocPathList classStr) with
      | none => (false, "")
      | some mocPathList => appendFragments (mocPathOf mocPathList.dropLast) (first :: rest)

/-! ## The classes that a DN names -/

/-- A class stands before the value, and before the name of the key attribute where that is given. -/
def classOfFragment (fragment : String) : String :=
  String.ofList ((fragment.toList.takeWhile (· ≠ '=')).takeWhile (· ≠ '.'))

def namedClasses (moDn : String) : List String := (GlobalSplitDN moDn).map classOfFragment

/-- An object of the class that a path leads to. Its DN may start below the root, and the whole path
is named by the fragments of its DN and those above it. -/
structure ObjectAt (env : OIEnv) (moDn mocPath : String) (moc : Moc) : Prop where
  named : ∃ above : List String, mocPath = mocPathOf ((above ++ GlobalSplitDN moDn).map classOfFragment)
  valued : ∀ fragment ∈ GlobalSplitDN moDn, '=' ∈ fragment.toList
  ofClass : env.mocRoot.bind (findComMoc · (GlobalSplitMocPath mocPath)) = some moc

/-- A point in the value of a fragment comes after one in its name. -/
def PlainFragment (fragment : String) : Prop :=
  '.' ∈ fragment.toList → '.' ∈ fragment.toList.takeWhile (· ≠ '=')

instance (fragment : String) : Decidable (PlainFragment fragment) :=
  inferInstanceAs (Decidable ('.' ∈ fragment.toList → '.' ∈ fragment.toList.takeWhile (· ≠ '=')))

/-- The fragments are plain, and the first class with the name of the object's first one, depth first,
is the one the object's path leads through. -/
def PathFine (env : OIEnv) (moDn mocPath : String) : Prop :=
  (∀ fragment ∈ GlobalSplitDN moDn, PlainFragment fragment) ∧
    ∃ path, env.mocRoot.bind (findComMocPathList ((namedClasses moDn).headD "")) = some path ∧
      mocPathOf (path.dropLast ++ namedClasses moDn) = mocPath

/-! ## Strings -/

theorem takeWhile_takeWhile_of_mem {α : Type*} {p q : α → Bool} {l : List α} {a : α} (ha : a ∈ l.takeWhile p)
    (hq : q a = false) : (l.takeWhile p).takeWhile q = l.takeWhile q := by
  induction l with
  | nil => rfl
  | cons b l ih =>
    by_cases hp : p b = true
    · rw [List.takeWhile_cons_of_pos hp] at ha ⊢
      by_cases hb : q b = true
      · have hne : a ≠ b := by
          rintro rfl
          rw [hq] at hb
          cases hb
        rw [List.takeWhile_cons_of_pos hb, List.takeWhile_cons_of_pos hb]
        rw [ih ((List.mem_cons.mp ha).resolve_left hne)]
      · rw [List.takeWhile_cons_of_neg hb, List.takeWhile_cons_of_neg hb]
    · rw [List.takeWhile_cons_of_neg hp] at ha
      cases ha

theorem takeWhile_eq_self_of_notMem {l : List Char} {c : Char} (h : c ∉ l) : l.takeWhile (· ≠ c) = l := by
  rw [List.takeWhile_eq_self_iff]
  intro d hd
  refine decide_eq_true ?_
  rintro rfl
  exact h hd

theorem toList_mocPathOf (path : List String) :
    (mocPathOf path).toList = path.flatMap fun name => '/' :: name.toList := by
  have general : ∀ s : String, (path.foldl (fun s name => s ++ "/" ++ name) s).toList
      = s.toList ++ path.flatMap fun name => '/' :: name.toList := by
    induction path with
    | nil => simp
    | cons name path ih =>
      intro s
      rw [List.foldl_cons, ih]
      simp [String.toList_append]
  exact general ""

theorem mocPathOf_append (path rest : List String) :
    mocPathOf (path ++ rest) = rest.foldl (fun s name => s ++ "/" ++ name) (mocPathOf path) := by
  rw [mocPathOf, mocPathOf, List.foldl_append]

theorem getFragmentKey_of_plain {fragment : String} (hvalue : '=' ∈ fragment.toList)
    (hplain : PlainFragment fragment) : getFragmentKey fragment = some (classOfFragment fragment) := by
  unfold getFragmentKey classOfFragment
  split <;> rename_i hpoint
  · rw [takeWhile_takeWhile_of_mem (hplain hpoint) (decide_eq_false (not_not.mpr rfl))]
  · have hnot : '.' ∉ fragment.toList.takeWhile (· ≠ '=') := fun h => hpoint (List.takeWhile_subset _ h)
    rw [takeWhile_eq_self_of_notMem hnot]

theorem mem_takeWhile_of_first {l : List Char} {c d : Char} (hc : c ∈ l) (hd : d ∉ l.takeWhile (· ≠ c))
    (hne : c ≠ d) : c ∈ l.takeWhile (· ≠ d) := by
  induction l with
  | nil => cases hc
  | cons e l ih =>
    by_cases he : e = c
    · rw [List.takeWhile_cons_of_pos (by rw [he]; exact decide_eq_true hne), he]
      exact List.mem_cons_self
    · rw [List.takeWhile_cons_of_pos (p := (· ≠ c)) (decide_eq_true he)] at hd
      obtain ⟨hde, hd⟩ := not_or.mp (List.mem_cons.not.mp hd)
      rw [List.takeWhile_cons_of_pos (p := (· ≠ d)) (decide_eq_true fun h => hde h.symm)]
      exact List.mem_cons_of_mem _ (ih ((List.mem_cons.mp hc).resolve_left fun h => he h.symm) hd)

theorem equal_mem_of_not_plain {fragment : String} (hvalue : '=' ∈ fragment.toList)
    (hplain : ¬ PlainFragment fragment) :
    ∃ className, getFragmentKey fragment = some className ∧ '=' ∈ className.toList := by
  obtain ⟨hpoint, hname⟩ := Classical.not_imp.mp hplain
  refine ⟨_, if_pos hpoint, ?_⟩
  rw [String.toList_ofList]
  exact mem_takeWhile_of_first hvalue hname (by decide)

theorem equal_notMem_classOfFragment (fragment : String) : '=' ∉ (classOfFragment fragment).toList := by
  rw [classOfFragment, String.toList_ofList]
  intro h
  have := List.mem_takeWhile_imp (List.takeWhile_subset _ h)
  exact absurd rfl (of_decide_eq_true this)

theorem equal_notMem_mocPathOf (fragments : List String) :
    '=' ∉ (mocPathOf (fragments.map classOfFragment)).toList := by
  rw [toList_mocPathOf]
  intro h
  obtain ⟨name, hname, h⟩ := List.mem_flatMap.mp h
  obtain ⟨fragment, _, rfl⟩ := List.mem_map.mp hname
  rcases List.mem_cons.mp h with h | h
  · cases h
  · exact equal_notMem_classOfFragment fragment h

theorem pieces_ne_nil (separator : Char) (l : List Char) : pieces separator l ≠ [] := by
  cases l with
  | nil => exact List.cons_ne_nil _ _
  | cons c cs =>
    rw [pieces]
    split
    · exact List.cons_ne_nil _ _
    · split <;> exact List.cons_ne_nil _ _

theorem GlobalSplitDN_ne_nil (moDn : String) : GlobalSplitDN moDn ≠ [] :=
  fun h => pieces_ne_nil _ _ (List.map_eq_nil_iff.mp h)

/-! ## The path that is made -/

theorem appendFragments_of_plain {mocPath : String} {fragments : List String}
    (hvalued : ∀ fragment ∈ fragments, '=' ∈ fragment.toList)
    (hplain : ∀ fragment ∈ fragments, PlainFragment fragment) :
    appendFragments mocPath fragments
      = (true, (fragments.map classOfFragment).foldl (fun s name => s ++ "/" ++ name) mocPath) := by
  induction fragments generalizing mocPath with
  | nil => rfl
  | cons fragment fragments ih =>
    rw [appendFragments, getFragmentKey_of_plain (hvalued _ List.mem_cons_self) (hplain _ List.mem_cons_self)]
    dsimp only
    rw [ih (fun f hf => hvalued f (List.mem_cons_of_mem _ hf)) fun f hf => hplain f (List.mem_cons_of_mem _ hf)]
    rfl

theorem mem_appendFragments {mocPath made : String} {fragments : List String}
    (h : appendFragments mocPath fragments = (true, made)) {c : Char} (hc : c ∈ mocPath.toList) :
    c ∈ made.toList := by
  induction fragments generalizing mocPath with
  | nil =>
    cases h
    exact hc
  | cons fragment fragments ih =>
    rw [appendFragments] at h
    split at h
    · cases h
    · refine ih h ?_
      rw [String.toList_append, String.toList_append]
      exact List.mem_append_left _ (List.mem_append_left _ hc)

theorem plain_of_appendFragments {mocPath made : String} {fragments : List String}
    (hvalued : ∀ fragment ∈ fragments, '=' ∈ fragment.toList)
    (h : appendFragments mocPath fragments = (true, made)) (hmade : '=' ∉ made.toList) :
    ∀ fragment ∈ fragments, PlainFragment fragment := by
  induction fragments generalizing mocPath with
  | nil => exact fun _ hf => nomatch hf
  | cons first fragments ih =>
    rw [appendFragments] at h
    split at h
    · cases h
    · rename_i className hkey
      rintro fragment hf
      rcases List.mem_cons.mp hf with rfl | hf
      · by_contra hplain
        obtain ⟨cut, hcut, hequal⟩ := equal_mem_of_not_plain (hvalued _ List.mem_cons_self) hplain
        rw [hkey] at hcut
        cases hcut
        refine hmade (mem_appendFragments h ?_)
        rw [String.toList_append]
        exact List.mem_append_right _ hequal
      · exact ih (fun f hf => hvalued f (List.mem_cons_of_mem _ hf)) h fragment hf

theorem createMocPath_iff {env : OIEnv} {moDn mocPath : String} {moc : Moc}
    (h : ObjectAt env moDn mocPath moc) :
    createMocPath env moDn = (true, mocPath) ↔ PathFine env moDn mocPath := by
  obtain ⟨above, hnamed⟩ := h.named
  have hequal : '=' ∉ mocPath.toList := by
    rw [hnamed]
    exact equal_notMem_mocPathOf _
  have hvalued := h.valued
  have hne : GlobalSplitDN moDn ≠ [] := GlobalSplitDN_ne_nil moDn
  unfold createMocPath PathFine namedClasses
  generalize GlobalSplitDN moDn = fragments at hvalued hne
  obtain ⟨first, rest, rfl⟩ := List.exists_cons_of_ne_nil hne
  dsimp only
  constructor
  · intro hmade
    split at hmade
    · cases hmade
    · rename_i classStr hkey
      split at hmade
      · cases hmade
      · rename_i path hpath
        have hplain := plain_of_appendFragments hvalued hmade hequal
        have hfirst := getFragmentKey_of_plain (hvalued first List.mem_cons_self) (hplain first List.mem_cons_self)
        rw [appendFragments_of_plain hvalued hplain] at hmade
        rw [hkey] at hfirst
        rw [Option.some.inj hfirst] at hpath
        refine ⟨hplain, path, hpath, ?_⟩
        rw [mocPathOf_append]
        exact (Prod.ext_iff.mp hmade).2
  · rintro ⟨hplain, path, hpath, hmade⟩
    rw [getFragmentKey_of_plain (hvalued first List.mem_cons_self) (hplain first List.mem_cons_self)]
    rw [List.map_cons, List.headD_cons] at hpath
    dsimp only
    rw [hpath]
    dsimp only
    rw [appendFragments_of_plain hvalued hplain, ← mocPathOf_append]
    rw [hmade]

end ComSA.OIproxy
