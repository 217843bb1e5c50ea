import ComSA.Lib.Delimited
import ComSA.Motransaction.DnTranslation
import ComSA.Motransaction.Imm2MoDn
import ComSA.Motransaction.StructAttribute

/-!
# An MO name to IMM and back

A name is translated up to the lowest root where it splits. On the way back the class of each part is read
from IMM, and the parts above the root are those of the path that is stored for it.
-/

namespace ComSA.Translator.RoundTrip

open Naming (ImmClass IsName IsDefaultKey stem lower convertImmNameFragmentTo3GPPNameFragment)

/-! ## MO names -/

structure NamedPart where
  className : String
  keyAttribute : String
  value : String
  className_ne : className ≠ ""
  keyAttribute_ne : keyAttribute ≠ ""
  className_chars : IsName className
  keyAttribute_chars : IsName keyAttribute
  value_chars : '=' ∉ value.toList ∧ ',' ∉ value.toList
  deriving Repr

def NamedPart.text (p : NamedPart) : String := buildRdn p.className p.keyAttribute p.value

def NamedPart.immText (p : NamedPart) : String := p.keyAttribute ++ "=" ++ p.value

structure MoName where
  last : NamedPart
  above : List NamedPart
  deriving Repr

def MoName.parts (d : MoName) : List NamedPart := d.last :: d.above

def MoName.dn (d : MoName) : String := ",".intercalate (d.parts.reverse.map NamedPart.text)

/-! ## What a part means

A part stands with the parts above it, the nearest one first. -/

def textAbove (above : List NamedPart) : String := (above.head?.map NamedPart.text).getD ""

def classAbove (above : List NamedPart) : String := (above.head?.map NamedPart.className).getD ""

def withAbove : List NamedPart → List (NamedPart × List NamedPart)
  | [] => []
  | p :: above => (p, above) :: withAbove above

section Meaning
variable (g : Registry)

def StartsMom (p : NamedPart) (above : List NamedPart) : Bool :=
  match above with
  | [] => true
  | q :: _ => g.isRoot p.text q.text

def Splits (p : NamedPart) (above : List NamedPart) : Bool := g.isSingletonRoot p.text (textAbove above)

def momRoot (p : NamedPart) : List NamedPart → NamedPart × List NamedPart
  | [] => (p, [])
  | q :: above => if StartsMom g p (q :: above) then (p, q :: above) else momRoot q above

def momKey (p : NamedPart) (above : List NamedPart) : String :=
  classAbove (momRoot g p above).2 ++ "_" ++ (momRoot g p above).1.className

def splitRoot (p : NamedPart) : List NamedPart → NamedPart × List NamedPart
  | [] => (p, [])
  | q :: above => if Splits g p (q :: above) then (p, q :: above) else splitRoot q above

def translated (p : NamedPart) : List NamedPart → List (NamedPart × List NamedPart)
  | [] => [(p, [])]
  | q :: above => if Splits g p (q :: above) then [(p, q :: above)] else (p, q :: above) :: translated q above

def immName (p : NamedPart) (above : List NamedPart) : String :=
  ",".intercalate ((translated g p above).map fun x => x.1.immText)

/-! ## The model, the model in IMM, and where names come back -/

/-- The registrations know every part by the same key attribute. -/
structure Recorded (names : ImmNames) (parts : List NamedPart) : Prop where
  undecorated : g.registeredParentMOCWithMOMVALUESet = [] ∧ names.registeredDecoratedImmRootClassesName = []
  registered : ∀ x ∈ withAbove parts, g.momNameExist (momKey g x.1 x.2) = true ∧
    (g.getMOMRepo (momKey g x.1 x.2)).classNameInMOM x.1.className = true
  oneKey : ∀ p ∈ parts, ∀ r ∈ g.theKeyHolder.map Prod.snd, r.classNameInMOM p.className = true →
    r.getKeyAttributeForClass p.className = p.keyAttribute
  /-- A repository that has a class has the classes of its MOM right below it. -/
  below : ∀ x ∈ withAbove parts, StartsMom g x.1 x.2 = false → ∀ r ∈ g.theKeyHolder.map Prod.snd,
    r.classNameInMOM (classAbove x.2) = true → r.classNameInMOM x.1.className = true

/-- The parts above the lowest root where the name splits are what is stored for the root. -/
structure OnStoredPath (d : MoName) : Prop where
  classes : (g.theMOMRepository.myMOMRootMap.lookup (splitRoot g d.last d.above).1.className).getD [] =
    (splitRoot g d.last d.above).2.map NamedPart.className
  values : ∀ p ∈ (splitRoot g d.last d.above).2, p.value = "1"

/-- The key attribute is told from a name that is made of the class name. -/
structure KeyReadable (p : NamedPart) : Prop where
  long : 2 ≤ p.keyAttribute.toList.length
  notStruct : stem p.keyAttribute.toList ≠ "id".toList
  suffix : stem p.keyAttribute.toList = lower p.className.toList → IsDefaultKey p.className p.keyAttribute

/-- Whether a part is read back, by what IMM tells of its object. Without the object, the key attribute is the class
name with `Id` behind it. -/
def NamedPart.ReadsBack (p : NamedPart) : ImmClass → Prop
  | .found className => className = p.className ∧ KeyReadable p
  | .notInImm => IsDefaultKey p.className p.keyAttribute ∧ upperFirst p.keyAttribute = p.className ++ "Id"
  | .noContext => False

instance (p : NamedPart) : Decidable (KeyReadable p) :=
  decidable_of_iff (2 ≤ p.keyAttribute.toList.length ∧ stem p.keyAttribute.toList ≠ "id".toList ∧
      (stem p.keyAttribute.toList = lower p.className.toList → IsDefaultKey p.className p.keyAttribute))
    ⟨fun h => ⟨h.1, h.2.1, h.2.2⟩, fun h => ⟨h.long, h.notStruct, h.suffix⟩⟩

instance (p : NamedPart) : DecidablePred p.ReadsBack
  | .found _ => inferInstanceAs (Decidable (_ ∧ KeyReadable p))
  | .notInImm => inferInstanceAs (Decidable (_ ∧ _))
  | .noContext => .isFalse id

/-- What a part comes back as. -/
def backPart (names : ImmNames) (x : NamedPart × List NamedPart) : String :=
  convertImmNameFragmentTo3GPPNameFragment (names.immClass (immName g x.1 x.2)) x.1.immText

structure Straight (last : NamedPart) (parts : List (NamedPart × List NamedPart)) : Prop where
  /-- No part below the root of its MOM reads as the root does. -/
  rootOnce : ∀ x ∈ parts, StartsMom g x.1 x.2 = false → (momRoot g x.1 x.2).1.text ≠ x.1.text
  /-- Above a root right below the top where the name does not split, the MOM is looked up by the class of
  the last part. -/
  top : ∀ x ∈ parts, ∀ q ∈ x.2, x.2.length = 1 → StartsMom g x.1 x.2 = true → Splits g x.1 x.2 = false →
    (IsDefaultKey q.className q.keyAttribute → q.keyAttribute = lowerFirst q.className ++ "Id") ∧
    (g.momNameExist ("_" ++ last.className) = true → last.className = q.className)
  notStruct : ∀ x ∈ parts, lower x.1.className.toList ≠ "id".toList

end Meaning

/-! ## Single parts -/

namespace NamedPart
variable (p : NamedPart)

def shown : List Char :=
  if IsDefaultKey p.className p.keyAttribute then p.className.toList
  else p.className.toList ++ '.' :: p.keyAttribute.toList

theorem toList_text : p.text.toList = p.shown ++ '=' :: p.value.toList := by
  have hvalue : p.value.toList.head? ≠ some '=' := fun h => p.value_chars.1 (List.mem_of_mem_head? h)
  rw [text, Naming.buildRdn_toList, if_neg hvalue, shown]
  simp

theorem toList_immText : p.immText.toList = p.keyAttribute.toList ++ '=' :: p.value.toList := by
  simp [immText]

theorem equal_notMem_shown : '=' ∉ p.shown := by
  unfold shown
  split
  · exact p.className_chars.1
  · exact notMem_append_cons p.className_chars.1 (by decide) p.keyAttribute_chars.1

theorem beforeDot_shown : p.shown.takeWhile (· ≠ '.') = p.className.toList := by
  unfold shown
  split
  · rw [List.takeWhile_eq_self_iff]
    intro c hc
    simpa using ne_of_mem_of_not_mem hc p.className_chars.2.2
  · exact (cut_first p.className_chars.2.2).1

theorem takeWhile_text : p.text.toList.takeWhile (· ≠ '=') = p.shown := by
  rw [toList_text]
  exact (cut_first p.equal_notMem_shown).1

theorem dropWhile_text : p.text.toList.dropWhile (· ≠ '=') = '=' :: p.value.toList := by
  rw [toList_text]
  exact (cut_first p.equal_notMem_shown).2

theorem equal_mem_text : '=' ∈ p.text.toList := by
  rw [toList_text]
  simp

theorem trimmed_text : trimmed p.text = p.className := by
  rw [trimmed, takeWhile_text, beforeDot_shown, String.ofList_toList]

theorem removeEqualSign_text : removeEqualSignAndDotPartOfDN p.text = p.className := by
  rw [removeEqualSignAndDotPartOfDN, if_pos p.equal_mem_text, trimmed_text]

theorem immText_ne : p.immText ≠ "" := by
  intro h
  have hlist := p.toList_immText
  rw [h] at hlist
  simp at hlist

theorem comma_notMem_immText : ',' ∉ p.immText.toList := by
  rw [toList_immText]
  exact notMem_append_cons p.keyAttribute_chars.2.1 (by decide) p.value_chars.2

theorem length_shown : p.shown.length ≠ p.keyAttribute.toList.length := by
  unfold shown
  split <;> rename_i hdefault
  · have hlength := Naming.length_of_default hdefault
    omega
  · simp only [List.length_append, List.length_cons]
    omega

theorem immText_ne_text : p.immText ≠ p.text := by
  intro h
  have hlist := congrArg String.toList h
  rw [toList_immText, toList_text] at hlist
  exact p.length_shown (congrArg List.length (List.append_cancel_right hlist)).symm

theorem afterDot_text (h : ¬ IsDefaultKey p.className p.keyAttribute) :
    dotInClass p.text = true ∧ afterDot p.text = p.immText := by
  have hshown : p.shown = p.className.toList ++ '.' :: p.keyAttribute.toList := if_neg h
  constructor
  · rw [dotInClass, takeWhile_text, hshown]
    simp
  · have hlist : p.text.toList = p.className.toList ++ '.' :: p.immText.toList := by
      rw [toList_text, hshown, toList_immText]
      simp
    unfold afterDot
    rw [hlist, (cut_first p.className_chars.2.2).2]
    exact String.ofList_toList

theorem default_text (h : IsDefaultKey p.className p.keyAttribute) :
    dotInClass p.text = false ∧ beforeEqual p.text = p.className ∧ fromEqual p.text = "=" ++ p.value := by
  have hshown : p.shown = p.className.toList := if_pos h
  refine ⟨?_, ?_, ?_⟩
  · rw [dotInClass, takeWhile_text, hshown]
    exact decide_eq_false p.className_chars.2.2
  · rw [beforeEqual, takeWhile_text, hshown, String.ofList_toList]
  · rw [fromEqual, dropWhile_text]
    apply String.toList_inj.mp
    simp

end NamedPart

/-! ## From MO to IMM, part by part -/

section Forward
variable {g : Registry} {p q : NamedPart} {above : List NamedPart} {m : WalkState}

theorem isRoot_text (p q : NamedPart) (above : List NamedPart) :
    g.isRoot p.text q.text = StartsMom g p (q :: above) := rfl

theorem removeEqualSign_textAbove (above : List NamedPart) :
    removeEqualSignAndDotPartOfDN (textAbove above) = classAbove above := by
  cases above with
  | nil => rfl
  | cons q above => exact q.removeEqualSign_text

theorem startsMom_of_splits (h : Splits g p above = true) : StartsMom g p above = true := by
  cases above with
  | nil => rfl
  | cons q above =>
    have hne : q.text ≠ "" := fun heq => by
      have hmem := q.equal_mem_text
      rw [heq] at hmem
      exact absurd hmem (by decide)
    change g.isSingletonRoot p.text q.text = true at h
    change g.isRoot p.text q.text = true
    unfold Registry.isSingletonRoot at h
    unfold Registry.isRoot
    by_cases hstruct : p.text.toList.head? = some '='
    · rw [if_pos hstruct] at h
      exact absurd h Bool.false_ne_true
    · rw [if_neg hstruct, if_neg hne] at h
      rw [if_neg hstruct]
      split at h
      · exact absurd h Bool.false_ne_true
      · exact h

theorem momRoot_of_root (h : StartsMom g p above = true) : momRoot g p above = (p, above) := by
  cases above with
  | nil => rfl
  | cons q above => rw [momRoot, if_pos h]

theorem momRoot_of_not_root (h : StartsMom g p (q :: above) = false) :
    momRoot g p (q :: above) = momRoot g q above := by
  rw [momRoot, if_neg (by rw [h]; exact Bool.false_ne_true)]

theorem convertWithRepo_text (h : lower p.className.toList ≠ "id".toList) {r : OamSAKeyMOMRepo}
    (hkey : r.classNameInMOM p.className = true → r.getKeyAttributeForClass p.className = p.keyAttribute)
    (hin : r.classNameInMOM p.className = true) : convert3GPPNameFragmentWithRepo p.text r = p.immText := by
  unfold convert3GPPNameFragmentWithRepo
  rw [if_neg (not_not.mpr p.equal_mem_text)]
  by_cases hdefault : IsDefaultKey p.className p.keyAttribute
  · obtain ⟨hdot, -, hvalue⟩ := p.default_text hdefault
    have hstruct : convertToLowerCase p.className ≠ STRUCT_CLASS_KEY_ATTRIBUTE :=
      fun hid => h (Naming.lowerId_iff.mp hid)
    rw [hdot, if_neg Bool.false_ne_true, p.removeEqualSign_text, hvalue]
    dsimp only
    rw [if_neg hstruct, if_pos hin, hkey hin, NamedPart.immText, String.append_assoc]
  · obtain ⟨hdot, hafter⟩ := p.afterDot_text hdefault
    rw [hdot, if_pos rfl, hafter]

theorem convertPlain_text (h : lower p.className.toList ≠ "id".toList)
    (hkey : IsDefaultKey p.className p.keyAttribute → p.keyAttribute = lowerFirst p.className ++ "Id") :
    convert3GPPNameFragmentToImmNameFragment p.text = p.immText := by
  unfold convert3GPPNameFragmentToImmNameFragment
  by_cases hdefault : IsDefaultKey p.className p.keyAttribute
  · obtain ⟨hdot, hclass, hvalue⟩ := p.default_text hdefault
    have hstruct : ¬ (p.className = STRUCT_CLASS_KEY_ATTRIBUTE ∨ p.className = "Id") := by
      intro hid
      apply h
      rcases hid with hid | hid <;> rw [hid] <;> rfl
    rw [hdot, if_neg Bool.false_ne_true, if_pos p.equal_mem_text, hclass, hvalue, if_neg hstruct,
      NamedPart.immText, hkey hdefault, String.append_assoc, String.append_assoc, String.append_assoc]
  · obtain ⟨hdot, hafter⟩ := p.afterDot_text hdefault
    rw [hdot, if_pos rfl, hafter]

theorem immFragment_plain (hg : g.registeredParentMOCWithMOMVALUESet = []) (theOuter : String)
    (above : List String) : immFragment g theOuter above m =
      if m.useTheOldMethod then convert3GPPNameFragmentToImmNameFragment theOuter
      else convert3GPPNameFragmentWithRepo theOuter m.momKeyRep := by
  have hdecorated : g.isDecorated m.theRootName m.theParent = false := by
    unfold Registry.isDecorated
    rw [hg]
    split <;> simp
  unfold immFragment
  dsimp only
  rw [hdecorated, Bool.and_false, if_neg Bool.false_ne_true]

/-! ## The walk up the name -/

/-- The walk has the root of a part's MOM at hand, and the iterators are beyond that root. -/
structure AtRoot (g : Registry) (p : NamedPart) (above : List NamedPart) (m : WalkState) : Prop where
  root : m.theRootName = (momRoot g p above).1.text
  parent : m.theParent = textAbove (momRoot g p above).2
  iters : (momRoot g p above).2 ≠ [] →
    m.theIterRoot = (momRoot g p above).2.map NamedPart.text ∧
    m.theIterParent = (momRoot g p above).2.tail.map NamedPart.text

structure InMom (g : Registry) (p : NamedPart) (above : List NamedPart) (m : WalkState) : Prop
    extends AtRoot g p above m where
  old : m.useTheOldMethod = false
  repo : m.momKeyRep = g.getMOMRepo (momKey g p above)

theorem nextRoot_atRoot (p : NamedPart) (above : List NamedPart) (m : WalkState) :
    AtRoot g p above (nextRoot g ((p :: above).map NamedPart.text) (above.map NamedPart.text) m) := by
  induction above generalizing p with
  | nil => exact ⟨rfl, rfl, fun h => absurd rfl h⟩
  | cons q above ih =>
    rw [List.map_cons, List.map_cons, nextRoot, isRoot_text p q above]
    cases hroot : StartsMom g p (q :: above) with
    | true =>
      rw [if_pos rfl]
      constructor
      · rw [momRoot_of_root hroot]
      · rw [momRoot_of_root hroot]
        rfl
      · intro _
        rw [momRoot_of_root hroot]
        exact ⟨rfl, rfl⟩
    | false =>
      rw [if_neg Bool.false_ne_true]
      obtain ⟨h1, h2, h3⟩ := ih q
      constructor <;> rw [momRoot_of_not_root hroot]
      · exact h1
      · exact h2
      · exact h3

theorem findKeyRepo_inMom (h : AtRoot g p above m) (hold : m.useTheOldMethod = false)
    (hreg : g.momNameExist (momKey g p above) = true) : InMom g p above (findKeyRepo g m) := by
  have hkey : removeEqualSignAndDotPartOfDN m.theParent ++ "_" ++
      removeEqualSignAndDotPartOfDN m.theRootName = momKey g p above := by
    rw [h.root, h.parent, removeEqualSign_textAbove, NamedPart.removeEqualSign_text]
    rfl
  unfold findKeyRepo
  dsimp only
  rw [hkey, hreg, if_pos rfl]
  exact ⟨⟨h.root, h.parent, h.iters⟩, hold, rfl⟩

theorem InMom.up (h : InMom g p (q :: above) m) (hroot : StartsMom g p (q :: above) = false) :
    InMom g q above m := by
  have hmom := momRoot_of_not_root hroot
  have hkey : momKey g p (q :: above) = momKey g q above := by rw [momKey, hmom, momKey]
  obtain ⟨⟨h1, h2, h3⟩, h4, h5⟩ := h
  rw [hmom] at h1 h2 h3
  rw [hkey] at h5
  exact ⟨⟨h1, h2, h3⟩, h4, h5⟩

theorem InMom.next (h : InMom g p (q :: above) m) (hroot : StartsMom g p (q :: above) = true)
    (hne : above ≠ []) (hreg : g.momNameExist (momKey g q above) = true) (mo_name : List String) :
    InMom g q above (findKeyRepo g (findRoot g mo_name m)) := by
  obtain ⟨hiterRoot, hiterParent⟩ := h.iters (by rw [momRoot_of_root hroot]; exact List.cons_ne_nil _ _)
  rw [momRoot_of_root hroot] at hiterRoot hiterParent
  change m.theIterParent = above.map NamedPart.text at hiterParent
  have hfind : findRoot g mo_name m =
      nextRoot g ((q :: above).map NamedPart.text) (above.map NamedPart.text) m := by
    rw [findRoot, hiterRoot, hiterParent, if_pos]
    intro hnil
    exact hne (List.map_eq_nil_iff.mp hnil)
  rw [hfind]
  apply findKeyRepo_inMom (nextRoot_atRoot q above m) _ hreg
  rw [(nextRoot_keeps _ _ m).1]
  exact h.old

theorem start_inMom (p : NamedPart) (above : List NamedPart) (hreg : g.momNameExist (momKey g p above) = true) :
    InMom g p above (findKeyRepo g (findRoot g ((p :: above).map NamedPart.text)
      { theIterRoot := (p :: above).map NamedPart.text
        theIterParent := ((p :: above).map NamedPart.text).tail })) := by
  apply findKeyRepo_inMom _ _ hreg
  · cases above with
    | nil => exact ⟨rfl, rfl, fun h => absurd rfl h⟩
    | cons q above =>
      unfold findRoot
      split <;> rename_i hparent
      · exact nextRoot_atRoot p (q :: above) _
      · exact absurd (List.cons_ne_nil _ _) hparent
  · unfold findRoot
    split
    · exact (nextRoot_keeps _ _ _).1
    · rfl

theorem beyond_top {last : NamedPart} {parts : List NamedPart} (h : InMom g p [q] m)
    (hroot : StartsMom g p [q] = true) :
    findRoot g ((last :: parts).map NamedPart.text) m = { m with theRootName := last.text, theParent := "" } := by
  obtain ⟨-, hiterParent⟩ := h.iters (by rw [momRoot_of_root hroot]; exact List.cons_ne_nil _ _)
  rw [momRoot_of_root hroot] at hiterParent
  change m.theIterParent = [] at hiterParent
  rw [findRoot, if_neg (not_not.mpr hiterParent)]
  rfl

theorem head_text (p : NamedPart) : p.text.toList.head? ≠ some '=' := by
  intro h
  have hwhile := p.takeWhile_text
  cases hlist : p.text.toList with
  | nil =>
    rw [hlist] at h
    cases h
  | cons c cs =>
    rw [hlist, List.head?_cons] at h
    obtain rfl := Option.some.inj h
    rw [hlist] at hwhile
    have hclass := p.beforeDot_shown
    rw [← hwhile] at hclass
    exact p.className_ne (String.toList_inj.mp hclass.symm)

theorem splits_top (p : NamedPart) : Splits g p [] = true := by
  change g.isSingletonRoot p.text "" = true
  unfold Registry.isSingletonRoot
  rw [if_neg (head_text p), if_pos rfl]

theorem mem_repositories {searchKey className : String}
    (h : (g.getMOMRepo searchKey).classNameInMOM className = true) :
    g.getMOMRepo searchKey ∈ g.theKeyHolder.map Prod.snd := by
  unfold Registry.getMOMRepo at h ⊢
  cases hlookup : g.theKeyHolder.lookup searchKey with
  | none =>
    rw [hlookup] at h
    exact absurd h (by simp [OamSAKeyMOMRepo.classNameInMOM, OamSAKeyMOMRepo.getKeyAttributeForClass])
  | some r =>
    obtain ⟨before, after, hmap, -⟩ := List.lookup_eq_some_iff.mp hlookup
    rw [hmap]
    simp

theorem mem_withAbove (p : NamedPart) (above : List NamedPart) : (p, above) ∈ withAbove (p :: above) :=
  List.mem_cons_self

theorem mem_translated (p : NamedPart) (above : List NamedPart) : (p, above) ∈ translated g p above := by
  cases above with
  | nil => exact List.mem_cons_self
  | cons q above =>
    rw [translated]
    split <;> exact List.mem_cons_self

theorem translated_ne_nil (p : NamedPart) (above : List NamedPart) : translated g p above ≠ [] :=
  List.ne_nil_of_mem (mem_translated p above)

theorem translated_of_splits (h : Splits g p (q :: above) = true) :
    translated g p (q :: above) = [(p, q :: above)] := by
  rw [translated, if_pos h]

theorem translated_of_not_splits (h : Splits g p (q :: above) = false) :
    translated g p (q :: above) = (p, q :: above) :: translated g q above := by
  rw [translated, if_neg (by rw [h]; exact Bool.false_ne_true)]

theorem immName_of_splits (h : Splits g p above = true) : immName g p above = p.immText := by
  cases above with
  | nil => exact String.intercalate_singleton
  | cons q above =>
    rw [immName, translated_of_splits h]
    exact String.intercalate_singleton

theorem immName_of_not_splits (h : Splits g p (q :: above) = false) :
    immName g p (q :: above) = p.immText ++ "," ++ immName g q above := by
  rw [immName, translated_of_not_splits h, List.map_cons, String.intercalate_cons_of_ne_nil
    (by simpa using translated_ne_nil q above)]
  rfl

theorem append_immName (h : Splits g p (q :: above) = false) (s : String) :
    s ++ immName g p (q :: above) = s ++ p.immText ++ "," ++ immName g q above := by
  rw [immName_of_not_splits h, String.append_assoc, String.append_assoc, String.append_assoc]

variable {names : ImmNames} {last : NamedPart}

theorem Recorded.tail (h : Recorded g names (p :: above)) : Recorded g names above where
  undecorated := h.undecorated
  registered x hx := h.registered x (List.mem_cons_of_mem _ hx)
  oneKey r hr := h.oneKey r (List.mem_cons_of_mem _ hr)
  below x hx := h.below x (List.mem_cons_of_mem _ hx)

theorem Straight.tail {x : NamedPart × List NamedPart} {parts : List (NamedPart × List NamedPart)}
    (h : Straight g last (x :: parts)) : Straight g last parts where
  rootOnce y hy := h.rootOnce y (List.mem_cons_of_mem _ hy)
  top y hy := h.top y (List.mem_cons_of_mem _ hy)
  notStruct y hy := h.notStruct y (List.mem_cons_of_mem _ hy)

theorem Straight.up (hsplit : Splits g p (q :: above) = false)
    (h : Straight g last (translated g p (q :: above))) : Straight g last (translated g q above) := by
  rw [translated_of_not_splits hsplit] at h
  exact h.tail

theorem immFragment_eq (hmom : InMom g p above m) (hrec : Recorded g names (p :: above))
    (hkey : lower p.className.toList ≠ "id".toList) :
    immFragment g p.text (above.map NamedPart.text) m = p.immText := by
  obtain ⟨-, hin⟩ := hrec.registered (p, above) (mem_withAbove p above)
  rw [immFragment_plain hrec.undecorated.1, hmom.old, if_neg Bool.false_ne_true, hmom.repo]
  exact convertWithRepo_text hkey (hrec.oneKey p List.mem_cons_self _ (mem_repositories hin)) hin

theorem topFragment_eq (hold : m.useTheOldMethod = false) (hrec : Recorded g names [q])
    (hkey : lower q.className.toList ≠ "id".toList)
    (hplain : IsDefaultKey q.className q.keyAttribute → q.keyAttribute = lowerFirst q.className ++ "Id")
    (hlast : g.momNameExist ("_" ++ last.className) = true → last.className = q.className) :
    immFragment g q.text [] (findKeyRepo g { m with theRootName := last.text, theParent := "" }) = q.immText := by
  have hsearch : removeEqualSignAndDotPartOfDN "" ++ "_" ++ removeEqualSignAndDotPartOfDN last.text =
      "_" ++ last.className := by
    rw [last.removeEqualSign_text]
    rfl
  have htop : momKey g q [] = "_" ++ q.className := rfl
  rw [immFragment_plain hrec.undecorated.1]
  unfold findKeyRepo
  dsimp only
  rw [hsearch]
  split <;> rename_i hexists
  · obtain ⟨-, hin⟩ := hrec.registered (q, []) (mem_withAbove q [])
    dsimp only
    rw [hold, if_neg Bool.false_ne_true, hlast hexists, ← htop]
    exact convertWithRepo_text hkey (hrec.oneKey q List.mem_cons_self _ (mem_repositories hin)) hin
  · dsimp only
    rw [if_pos rfl]
    exact convertPlain_text hkey hplain

theorem translateParts_top (mo_name : List String) (imm_name : String)
    (himm : immFragment g q.text [] m = q.immText) (hparent : m.theParent = "") :
    ∃ tail, (tail = "" ∨ tail = ",") ∧
      translateParts g mo_name [q.text] m imm_name = imm_name ++ q.immText ++ tail := by
  rw [translateParts]
  dsimp only
  rw [himm]
  by_cases hroot : m.theRootName = q.text
  · have hsingle : g.isSingletonRoot q.text "" = true := splits_top q
    have hnot : ¬ (q.immText ≠ "" ∧ m.theRootName ≠ q.text) := fun h => h.2 hroot
    refine ⟨"", Or.inl rfl, ?_⟩
    rw [if_neg hnot, if_pos hroot, hroot, hparent, if_pos hsingle, String.append_empty]
  · refine ⟨",", Or.inr rfl, ?_⟩
    have hcomma : q.immText ≠ "" ∧ m.theRootName ≠ q.text := ⟨q.immText_ne, hroot⟩
    rw [if_pos hcomma, if_neg hroot]
    rfl

/-- By induction on the parts above: the walk adds the parts from here to the root where the name splits. -/
theorem translateParts_eq (rest : List NamedPart) (p : NamedPart) (above : List NamedPart) (m : WalkState)
    (imm_name : String) (hmom : InMom g p above m) (hrec : Recorded g names (p :: above))
    (h : Straight g last (translated g p above)) :
    ∃ tail, (tail = "" ∨ tail = ",") ∧
      translateParts g ((last :: rest).map NamedPart.text) ((p :: above).map NamedPart.text) m imm_name =
        imm_name ++ immName g p above ++ tail := by
  induction above generalizing p m imm_name with
  | nil =>
    have himm := immFragment_eq hmom hrec (h.notStruct (p, []) (mem_translated p []))
    rw [immName_of_splits (splits_top p)]
    exact translateParts_top _ imm_name himm hmom.parent
  | cons q above ih =>
    have hmem := mem_translated (g := g) p (q :: above)
    have himm := immFragment_eq hmom hrec (h.notStruct (p, q :: above) hmem)
    have hparts : (p :: q :: above).map NamedPart.text = p.text :: (q :: above).map NamedPart.text := rfl
    rw [hparts, translateParts]
    dsimp only
    rw [himm]
    cases hroot : StartsMom g p (q :: above) with
    | true =>
      have hroots := momRoot_of_root hroot
      have hname : m.theRootName = p.text := by rw [hmom.root, hroots]
      have hsing : g.isSingletonRoot m.theRootName m.theParent = Splits g p (q :: above) := by
        rw [hname, hmom.parent, hroots]
        rfl
      have hnot : ¬ (p.immText ≠ "" ∧ m.theRootName ≠ p.text) := fun hc => hc.2 hname
      rw [if_neg hnot, if_pos hname, hsing]
      cases hsplit : Splits g p (q :: above) with
      | true =>
        refine ⟨"", Or.inl rfl, ?_⟩
        rw [if_pos rfl, immName_of_splits hsplit, String.append_empty]
      | false =>
        rw [if_neg Bool.false_ne_true, if_pos p.immText_ne, append_immName hsplit]
        cases above with
        | nil =>
          -- the MOM of the top is looked up by the class of the last part
          obtain ⟨hplain, hlast⟩ := h.top (p, [q]) hmem q List.mem_cons_self rfl hroot hsplit
          have hkey := (h.up hsplit).notStruct (q, []) (mem_translated q [])
          have htop := topFragment_eq hmom.old hrec.tail hkey hplain hlast
          have hparent : (findKeyRepo g { m with theRootName := last.text, theParent := "" }).theParent = "" := by
            unfold findKeyRepo
            dsimp only
            split <;> rfl
          rw [beyond_top hmom hroot, immName_of_splits (splits_top q)]
          exact translateParts_top _ _ htop hparent
        | cons q' above' =>
          have hreg := (hrec.tail.registered _ (mem_withAbove q (q' :: above'))).1
          have hnext := hmom.next hroot (List.cons_ne_nil _ _) hreg ((last :: rest).map NamedPart.text)
          exact ih q _ _ hnext hrec.tail (h.up hsplit)
    | false =>
      have hsplit : Splits g p (q :: above) = false := by
        cases hs : Splits g p (q :: above) with
        | false => rfl
        | true =>
          rw [startsMom_of_splits hs] at hroot
          exact absurd hroot.symm Bool.false_ne_true
      have hname : m.theRootName ≠ p.text := by
        rw [hmom.root]
        exact h.rootOnce (p, q :: above) hmem hroot
      have hcomma : p.immText ≠ "" ∧ m.theRootName ≠ p.text := ⟨p.immText_ne, hname⟩
      rw [if_pos hcomma, if_neg hname, append_immName hsplit]
      exact ih q m _ (hmom.up hroot) hrec.tail (h.up hsplit)

theorem comma_notLast_immName (p : NamedPart) (above : List NamedPart) :
    (immName g p above).toList ≠ [] ∧ (immName g p above).toList.getLast? ≠ some ',' := by
  have hone (p : NamedPart) : p.immText.toList ≠ [] ∧ p.immText.toList.getLast? ≠ some ',' :=
    ⟨fun h => p.immText_ne (String.toList_inj.mp h), fun h => p.comma_notMem_immText (List.mem_of_getLast? h)⟩
  induction above generalizing p with
  | nil =>
    rw [immName_of_splits (splits_top p)]
    exact hone p
  | cons q above ih =>
    cases hsplit : Splits g p (q :: above) with
    | true =>
      rw [immName_of_splits hsplit]
      exact hone p
    | false =>
      obtain ⟨hne, hlast⟩ := ih q
      rw [immName_of_not_splits hsplit, String.toList_append]
      refine ⟨by simp, ?_⟩
      rw [List.getLast?_append_of_ne_nil _ hne]
      exact hlast

theorem eraseLastComma_immName {tail : String} (htail : tail = "" ∨ tail = ",") (p : NamedPart)
    (above : List NamedPart) : eraseLastComma (immName g p above ++ tail) = immName g p above := by
  rcases htail with rfl | rfl
  · rw [String.append_empty]
    exact eraseLastComma_eq (comma_notLast_immName p above).2
  · unfold eraseLastComma
    rw [String.toList_append]
    have hlist : (",").toList = [','] := rfl
    rw [hlist, if_pos (by simp), List.dropLast_concat, String.ofList_toList]

theorem MO2Imm_DN_eq {d : MoName} (hrec : Recorded g names d.parts)
    (h : Straight g d.last (translated g d.last d.above)) :
    MO2Imm_DN g (d.parts.reverse.map NamedPart.text) = immName g d.last d.above := by
  have hreg := (hrec.registered (d.last, d.above) (mem_withAbove _ _)).1
  have hreverse : (d.parts.reverse.map NamedPart.text).reverse = (d.last :: d.above).map NamedPart.text := by
    rw [← List.map_reverse, List.reverse_reverse]
    rfl
  obtain ⟨tail, htail, heq⟩ := translateParts_eq d.above d.last d.above _ "" (start_inMom d.last d.above hreg)
    hrec h
  rw [MO2Imm_DN, hreverse, heq, String.empty_append, eraseLastComma_immName htail]

end Forward

/-! ## From IMM to MO, part by part -/

section Backward
variable {names : ImmNames}

def readBack (names : ImmNames) : List String → String → List String
  | [], _ => []
  | part :: above, currentImmDn =>
    convertImmNameFragmentTo3GPPNameFragment (names.immClass (buildImmObjectPath currentImmDn part)) part ::
      readBack names above (buildImmObjectPath currentImmDn part)

theorem unDecorateRootDn_plain (h : names.registeredDecoratedImmRootClassesName = []) (immRootDn : String) :
    names.unDecorateRootDn immRootDn = false := by
  rw [ImmNames.unDecorateRootDn, ImmNames.FindUnDecoratedImmDN, h]
  rfl

theorem immStep_plain (h : names.registeredDecoratedImmRootClassesName = []) {m : ImmWalkState}
    (hm : m.decoratedRoot = false) (part : String) (next : Option String) :
    immStep names part next m = { m with
      n3gpp_name := m.n3gpp_name ++ convertImmNameFragmentTo3GPPNameFragment
        (names.immClass (buildImmObjectPath m.currentImmDn part)) part
      currentImmDn := buildImmObjectPath m.currentImmDn part
      checkForTheRootOnly := false } := by
  have hnext : next.any names.unDecorateRootDn = false := by
    cases next with
    | none => rfl
    | some p => exact unDecorateRootDn_plain h p
  unfold immStep
  dsimp only
  rw [hnext, unDecorateRootDn_plain h, hm, if_neg Bool.false_ne_true, if_neg Bool.false_ne_true, ite_self]

theorem immLoop_plain (h : names.registeredDecoratedImmRootClassesName = []) {parts : List String}
    (hparts : parts ≠ []) (m : ImmWalkState) (hm : m.decoratedRoot = false) :
    immLoop names parts m = m.n3gpp_name ++ ",".intercalate (readBack names parts m.currentImmDn) := by
  induction parts generalizing m with
  | nil => exact absurd rfl hparts
  | cons part above ih =>
    cases above with
    | nil =>
      rw [immLoop, immStep_plain h hm, readBack, readBack, String.intercalate_singleton]
    | cons next above =>
      have hrest : readBack names (next :: above) (buildImmObjectPath m.currentImmDn part) ≠ [] := by
        rw [readBack]
        exact List.cons_ne_nil _ _
      rw [readBack, String.intercalate_cons_of_ne_nil hrest, immLoop, immStep_plain h hm]
      dsimp only
      rw [ih (List.cons_ne_nil _ _)]
      · simp only [String.append_assoc]
      · exact hm

theorem readBack_append (parts : List String) (part currentImmDn : String) :
    readBack names (parts ++ [part]) currentImmDn = readBack names parts currentImmDn ++
      [convertImmNameFragmentTo3GPPNameFragment
        (names.immClass (buildImmObjectPath (parts.foldl buildImmObjectPath currentImmDn) part)) part] := by
  induction parts generalizing currentImmDn with
  | nil => rfl
  | cons p parts ih =>
    rw [List.cons_append, readBack, readBack, ih, List.foldl_cons, List.cons_append]

/-! ### A single part -/

theorem toUpper_ne {c x : Char} (hx : x.val.toNat < 65) (h : c ≠ x) : c.toUpper ≠ x := by
  unfold Char.toUpper
  split
  · rename_i hletter
    have hlow := UInt32.le_iff_toNat_le.mp hletter.1
    have hhigh := UInt32.le_iff_toNat_le.mp hletter.2
    simp at hlow hhigh
    rintro rfl
    rw [UInt32.toNat_add] at hx
    simp at hx
    omega
  · exact h

theorem notMem_upper {c x : Char} {cs : List Char} (hx : x.val.toNat < 65) (h : x ∉ c :: cs) : x ∉ c.toUpper :: cs := by
  rw [List.mem_cons, not_or] at h ⊢
  exact ⟨(toUpper_ne hx (Ne.symm h.1)).symm, h.2⟩

section
variable {key value : List Char} (hkey : '=' ∉ key) (hvalue : '=' ∉ value)
include hkey hvalue

theorem cut_id {pos : Nat} {rest : List Char} (h : "Id=".toList ++ rest = (key ++ '=' :: value).drop pos) :
    key = (key ++ '=' :: value).take pos ++ ['I', 'd'] ∧ rest = value := by
  have hsplit := List.take_append_drop pos (key ++ '=' :: value)
  rw [← h] at hsplit
  generalize (key ++ '=' :: value).take pos = stem at hsplit ⊢
  have hid : stem ++ ("Id=".toList ++ rest) = (stem ++ ['I', 'd']) ++ '=' :: rest := by simp
  rw [hid] at hsplit
  have hstem : '=' ∉ stem ++ ['I', 'd'] := by
    have hcount := congrArg (List.count '=') hsplit
    simp only [List.count_append, List.count_cons_self, List.count_eq_zero_of_not_mem hkey,
      List.count_eq_zero_of_not_mem hvalue] at hcount
    refine List.count_eq_zero.mp ?_
    rw [List.count_append]
    omega
  have hcut := cut_first (b := rest) hstem
  rw [hsplit, (cut_first hkey).1, (cut_first hkey).2] at hcut
  exact ⟨hcut.1, (List.cons.inj hcut.2).2.symm⟩

/-- The `Id` that is found is the end of the key. -/
theorem find_id_iff (pos : Nat) : Naming.find "Id=".toList (key ++ '=' :: value) = some pos ↔
    ∃ stem, key = stem ++ ['I', 'd'] ∧ pos = stem.length := by
  rw [Naming.find, List.head?_filter, List.find?_range_eq_some]
  constructor
  · rintro ⟨hat, hrange, -⟩
    obtain ⟨rest, hrest⟩ := List.isPrefixOf_iff_prefix.mp hat
    refine ⟨_, (cut_id hkey hvalue hrest).1, ?_⟩
    rw [List.length_take, Nat.min_eq_left (Nat.lt_succ_iff.mp (List.mem_range.mp hrange))]
  · rintro ⟨stem, rfl, rfl⟩
    refine ⟨by simp, List.mem_range.mpr (by simp only [List.length_append]; omega), fun j hj => ?_⟩
    rw [Bool.not_eq_true', Bool.eq_false_iff]
    intro hat
    obtain ⟨rest, hrest⟩ := List.isPrefixOf_iff_prefix.mp hat
    have hlength := congrArg List.length (cut_id hkey hvalue hrest).1
    simp only [List.length_append, List.length_take, List.length_cons] at hlength
    omega

end

theorem errorCase_iff (p : NamedPart) : Naming.convertImmNameFragmentErrorCase p.immText = p.text ↔
    IsDefaultKey p.className p.keyAttribute ∧ upperFirst p.keyAttribute = p.className ++ "Id" := by
  cases hkey : p.keyAttribute.toList with
  | nil => exact absurd (String.toList_inj.mp hkey) p.keyAttribute_ne
  | cons c cs =>
    have hnone := p.keyAttribute_chars.1
    have hlength := p.length_shown
    rw [hkey] at hnone hlength
    have himm : p.immText.toList = c :: (cs ++ '=' :: p.value.toList) := by
      rw [p.toList_immText, hkey, List.cons_append]
    have hupper : (upperFirst p.keyAttribute).toList = c.toUpper :: cs := by
      unfold upperFirst
      rw [hkey, String.toList_ofList]
    have hfind := find_id_iff (notMem_upper (by decide) hnone) p.value_chars.1
    rw [← String.toList_inj, ← String.toList_inj, hupper, p.toList_text, String.toList_append]
    unfold Naming.convertImmNameFragmentErrorCase
    split <;> rename_i hstruct
    · rw [himm]
      dsimp only
      rw [← List.cons_append]
      cases hpos : Naming.find "Id=".toList (c.toUpper :: cs ++ '=' :: p.value.toList) with
      | none =>
        rw [String.toList_ofList]
        refine iff_of_false (fun h => hlength (congrArg List.length (List.append_cancel_right h)).symm) fun h => ?_
        have hsome := (hfind _).mpr ⟨_, h.2, rfl⟩
        rw [hpos] at hsome
        cases hsome
      | some pos =>
        obtain ⟨stem, hstem, rfl⟩ := (hfind pos).mp hpos
        have hlong := congrArg List.length hstem
        simp only [List.length_cons, List.length_append] at hlong
        have hcut : (c.toUpper :: cs ++ '=' :: p.value.toList).take stem.length ++
            (c.toUpper :: cs ++ '=' :: p.value.toList).drop (stem.length + 2) = stem ++ '=' :: p.value.toList := by
          rw [hstem]
          simp
        have hid : "Id".toList = ['I', 'd'] := rfl
        rw [String.toList_ofList, hcut, List.append_cancel_right_eq, hstem, hid, List.append_cancel_right_eq,
          NamedPart.shown]
        by_cases hdefault : IsDefaultKey p.className p.keyAttribute
        · rw [if_pos hdefault]
          exact ⟨fun h => ⟨hdefault, h⟩, And.right⟩
        · rw [if_neg hdefault]
          refine iff_of_false (fun h => ?_) fun h => hdefault h.1
          have hsame := congrArg List.length h
          simp only [hkey, List.length_append, List.length_cons] at hsame
          omega
    · refine iff_of_false (fun h => p.immText_ne_text (String.toList_inj.mp (h.trans p.toList_text.symm))) fun h => ?_
      -- the key is longer than that of a struct
      have hdefault := Naming.length_of_default h.1
      have hclass := List.length_pos_iff.mpr fun hnil => p.className_ne (String.toList_inj.mp hnil)
      rw [hkey] at hdefault
      refine hstruct ⟨fun heq => ?_, fun heq => hnone ?_⟩
      · have hmem : '=' ∈ p.immText.toList := by simp [p.toList_immText]
        rw [heq] at hmem
        exact absurd hmem (by decide)
      · rw [himm, ← List.cons_append, List.take_append_of_le_length (by omega)] at heq
        exact List.mem_of_mem_take (heq ▸ by decide : '=' ∈ (c :: cs).take 3)

theorem shown_inj {key name name' rest : List Char} {b b' : Prop} [Decidable b] [Decidable b']
    (hb : b → name.length ≤ key.length) (hb' : b' → name'.length ≤ key.length)
    (h : (if b then name ++ rest else name ++ '.' :: key ++ rest) =
      (if b' then name' else name' ++ '.' :: key) ++ rest) : (b ↔ b') ∧ name = name' := by
  have hlength := congrArg List.length h
  split at h <;> split at h <;> rename_i hpos hpos'
  · exact ⟨iff_of_true hpos hpos', List.append_cancel_right h⟩
  · have := hb hpos
    simp only [if_pos hpos, if_neg hpos', List.length_append, List.length_cons] at hlength
    omega
  · have := hb' hpos'
    simp only [if_neg hpos, if_pos hpos', List.length_append, List.length_cons] at hlength
    omega
  · exact ⟨iff_of_false hpos hpos', List.append_cancel_right (List.append_cancel_right h)⟩

theorem convert_iff {p : NamedPart} (hstruct : lower p.className.toList ≠ "id".toList) (immClass : ImmClass) :
    convertImmNameFragmentTo3GPPNameFragment immClass p.immText = p.text ↔ p.ReadsBack immClass := by
  have hshort : IsDefaultKey p.className p.keyAttribute →
      ¬ (p.keyAttribute.toList.length < 2 ∨ stem p.keyAttribute.toList = "id".toList) := by
    rintro hdefault (hshort | hid)
    · have hlength := Naming.length_of_default hdefault
      omega
    · exact hstruct ((Naming.stem_of_default hdefault).symm.trans hid)
  cases immClass with
  | noContext =>
    refine iff_of_false ?_ id
    unfold convertImmNameFragmentTo3GPPNameFragment
    dsimp only
    rw [ite_self, ite_self]
    exact p.immText_ne_text
  | notInImm =>
    obtain ⟨htake, -⟩ := cut_first (b := p.value.toList) p.keyAttribute_chars.1
    rw [← p.toList_immText] at htake
    unfold convertImmNameFragmentTo3GPPNameFragment
    rw [htake]
    dsimp only
    by_cases hread : p.keyAttribute.toList.length < 2 ∨ stem p.keyAttribute.toList = "id".toList
    · refine iff_of_false (fun h => p.immText_ne_text ?_) fun h => hshort h.1 hread
      rcases hread with hread | hread
      · rwa [if_pos hread] at h
      · rwa [if_pos hread, ite_self] at h
    · rw [if_neg fun h => hread (Or.inl h), if_neg fun h => hread (Or.inr h)]
      exact errorCase_iff p
  | found className =>
    change _ ↔ className = p.className ∧ KeyReadable p
    rw [← String.toList_inj, NamedPart.immText, Naming.convert_toList p.keyAttribute_chars.1, p.toList_text]
    by_cases hread : p.keyAttribute.toList.length < 2 ∨ stem p.keyAttribute.toList = "id".toList
    · rw [if_pos hread]
      refine iff_of_false (fun h => p.length_shown (congrArg List.length (List.append_cancel_right h)).symm) fun h => ?_
      exact hread.elim (not_lt.mpr h.2.long) h.2.notStruct
    · rw [if_neg hread, NamedPart.shown]
      constructor
      · intro h
        have hown (hdefault : IsDefaultKey p.className p.keyAttribute) :
            p.className.toList.length ≤ p.keyAttribute.toList.length := by
          have hkey := Naming.length_of_default hdefault
          omega
        have hother (hclass : stem p.keyAttribute.toList = lower className.toList) :
            className.toList.length ≤ p.keyAttribute.toList.length := by
          have hkey := congrArg List.length hclass
          simp only [stem, lower, List.length_take, List.length_map] at hkey
          omega
        obtain ⟨hdefault, hname⟩ := shown_inj hother hown h
        obtain rfl := String.toList_inj.mp hname
        exact ⟨rfl, not_lt.mp fun h => hread (Or.inl h), fun h => hread (Or.inr h), hdefault.mp⟩
      · rintro ⟨rfl, hkey⟩
        rw [if_congr ⟨hkey.suffix, Naming.stem_of_default⟩ rfl rfl]
        split <;> rfl

theorem comma_notMem_convert {immClass : ImmClass} {s : String} (hs : ',' ∉ s.toList)
    (hclass : ∀ className, immClass = .found className → ',' ∉ className.toList) :
    ',' ∉ (convertImmNameFragmentTo3GPPNameFragment immClass s).toList := by
  have htake : ',' ∉ s.toList.takeWhile (· ≠ '=') := fun h => hs ((List.takeWhile_sublist _).subset h)
  have hdrop : ',' ∉ s.toList.dropWhile (· ≠ '=') := fun h => hs ((List.dropWhile_sublist _).subset h)
  unfold convertImmNameFragmentTo3GPPNameFragment
  dsimp only
  split
  · exact hs
  split
  · exact hs
  cases immClass with
  | noContext => exact hs
  | notInImm =>
    dsimp only
    unfold Naming.convertImmNameFragmentErrorCase
    split
    · cases hlist : s.toList with
      | nil => exact hs
      | cons c cs =>
        have hupper := notMem_upper (by decide) (hlist ▸ hs)
        dsimp only
        split <;> rw [String.toList_ofList]
        · exact fun h => hupper ((List.mem_append.mp h).elim List.mem_of_mem_take List.mem_of_mem_drop)
        · exact hupper
    · exact hs
  | found className =>
    have hname := hclass className rfl
    dsimp only
    split
    · exact hs
    split <;> rw [String.toList_ofList] <;> simp only [List.mem_append, List.mem_cons, not_or]
    · exact ⟨hname, hdrop⟩
    · exact ⟨⟨hname, by decide, htake⟩, hdrop⟩

/-! ### The parts that stand in IMM -/

section Parts
variable {g : Registry} {p q : NamedPart} {above : List NamedPart}

/-- By induction on the parts above: every part is read back by itself, and the path of its object is its IMM name. -/
theorem readBack_eq (p : NamedPart) (above : List NamedPart) :
    readBack names ((translated g p above).map fun x => x.1.immText).reverse "" =
      ((translated g p above).map (backPart g names)).reverse ∧
    ((translated g p above).map fun x => x.1.immText).reverse.foldl buildImmObjectPath "" = immName g p above := by
  have hone {p : NamedPart} {above : List NamedPart} (hsplit : Splits g p above = true) :
      readBack names [p.immText] "" = [backPart g names (p, above)] ∧
      buildImmObjectPath "" p.immText = immName g p above := by
    have hpath : buildImmObjectPath "" p.immText = immName g p above := by
      unfold buildImmObjectPath
      rw [if_neg fun h => h.1 rfl, if_neg fun h => h rfl, immName_of_splits hsplit]
    rw [readBack, readBack, hpath]
    exact ⟨rfl, rfl⟩
  induction above generalizing p with
  | nil => exact hone (splits_top p)
  | cons q above ih =>
    cases hsplit : Splits g p (q :: above) with
    | true =>
      rw [translated_of_splits hsplit]
      exact hone hsplit
    | false =>
      have hpath : immName g q above ≠ "" :=
        fun h => (comma_notLast_immName q above).1 (String.toList_inj.mpr h)
      have hname : buildImmObjectPath (immName g q above) p.immText = immName g p (q :: above) := by
        rw [immName_of_not_splits hsplit]
        exact if_pos ⟨hpath, p.immText_ne⟩
      obtain ⟨hread, hobject⟩ := ih q
      rw [translated_of_not_splits hsplit, List.map_cons, List.map_cons, List.reverse_cons, List.reverse_cons,
        readBack_append, hobject, List.foldl_append, hobject, hread]
      rw [hname]
      exact ⟨rfl, hname⟩

theorem translated_splitRoot (p : NamedPart) (above : List NamedPart) :
    (∃ rest, (translated g p above).reverse = splitRoot g p above :: rest) ∧
    Splits g (splitRoot g p above).1 (splitRoot g p above).2 = true ∧
    p :: above = (translated g p above).map Prod.fst ++ (splitRoot g p above).2 := by
  induction above generalizing p with
  | nil => exact ⟨⟨[], rfl⟩, splits_top p, rfl⟩
  | cons q above ih =>
    cases hsplit : Splits g p (q :: above) with
    | true =>
      have hroot : splitRoot g p (q :: above) = (p, q :: above) := by rw [splitRoot, if_pos hsplit]
      rw [translated_of_splits hsplit, hroot]
      exact ⟨⟨[], rfl⟩, hsplit, rfl⟩
    | false =>
      have hroot : splitRoot g p (q :: above) = splitRoot g q above := by
        rw [splitRoot, if_neg (by rw [hsplit]; exact Bool.false_ne_true)]
      obtain ⟨⟨rest, hrest⟩, hsplits, hparts⟩ := ih q
      rw [translated_of_not_splits hsplit, hroot]
      refine ⟨⟨rest ++ [(p, q :: above)], ?_⟩, hsplits, ?_⟩
      · rw [List.reverse_cons, hrest, List.cons_append]
      · rw [List.map_cons, List.cons_append, ← hparts]

/-! ### The path above -/

theorem mem_withAbove_append (l : List NamedPart) (p : NamedPart) (above : List NamedPart) :
    (p, above) ∈ withAbove (l ++ p :: above) := by
  induction l with
  | nil => exact List.mem_cons_self
  | cons q l ih => exact List.mem_cons_of_mem _ ih

theorem pathRepo {l : List NamedPart} (hrec : Recorded g names (l ++ p :: above)) {r : OamSAKeyMOMRepo}
    (hr : above ≠ [] → r.classNameInMOM (classAbove above) = true) (hrepo : ∃ k, r = g.getMOMRepo k) :
    ∃ k, (if r.classNameInMOM p.className then r else g.getMOMRepo (classAbove above ++ "_" ++ p.className)) =
      g.getMOMRepo k ∧ (g.getMOMRepo k).classNameInMOM p.className = true ∧
      (g.getMOMRepo k).getKeyAttributeForClass p.className = p.keyAttribute := by
  have hmem := mem_withAbove_append l p above
  have hpart : p ∈ l ++ p :: above := by simp
  obtain ⟨k, rfl⟩ := hrepo
  by_cases hin : (g.getMOMRepo k).classNameInMOM p.className = true
  · rw [if_pos hin]
    exact ⟨k, rfl, hin, hrec.oneKey p hpart _ (mem_repositories hin) hin⟩
  · rw [if_neg hin]
    have hroot : StartsMom g p above = true := by
      cases hroot : StartsMom g p above with
      | true => rfl
      | false =>
        cases above with
        | nil => exact absurd hroot.symm Bool.false_ne_true
        | cons q above =>
          have hq := hr (List.cons_ne_nil _ _)
          exact absurd (hrec.below _ hmem hroot _ (mem_repositories hq) hq) hin
    have hkey : momKey g p above = classAbove above ++ "_" ++ p.className := by
      rw [momKey, momRoot_of_root hroot]
    have hreg := (hrec.registered _ hmem).2
    dsimp only at hreg
    rw [hkey] at hreg
    exact ⟨_, rfl, hreg, hrec.oneKey p hpart _ (mem_repositories hreg) hreg⟩

theorem pathText (hvalue : p.value = "1") :
    (if convertToLowerCase p.keyAttribute ≠ convertToLowerCase (p.className ++ STRUCT_CLASS_KEY_ATTRIBUTE) then
        p.className ++ "." ++ p.keyAttribute ++ "=1,"
      else p.className ++ "=1,") = p.text ++ "," := by
  have hlower : convertToLowerCase (p.className ++ STRUCT_CLASS_KEY_ATTRIBUTE) =
      convertToLowerCase p.className ++ "id" := by
    apply String.toList_inj.mp
    unfold convertToLowerCase STRUCT_CLASS_KEY_ATTRIBUTE
    simp
  have hone : "1".toList.head? ≠ some '=' := by decide
  rw [hlower, NamedPart.text, hvalue, buildRdn, if_neg hone]
  by_cases hdefault : convertToLowerCase p.keyAttribute = convertToLowerCase p.className ++ "id"
  · rw [if_neg (not_not.mpr hdefault), if_pos hdefault.symm]
    simp only [String.append_assoc]
    rfl
  · rw [if_pos hdefault, if_neg (Ne.symm hdefault)]
    simp only [String.append_assoc]
    rfl

/-- By induction on the parts of the path from the top down. -/
theorem moTop_eq (below : List NamedPart) (above : List NamedPart) (r : OamSAKeyMOMRepo)
    (hrec : Recorded g names (below.reverse ++ above)) (hvalues : ∀ p ∈ below, p.value = "1")
    (hr : above ≠ [] → r.classNameInMOM (classAbove above) = true) (hrepo : ∃ k, r = g.getMOMRepo k)
    {rest : List String} (hrest : rest ≠ []) :
    g.moTop (below.map NamedPart.className) (classAbove above) r ++ ",".intercalate rest =
      ",".intercalate (below.map NamedPart.text ++ rest) := by
  induction below generalizing above r with
  | nil => exact String.empty_append
  | cons p below ih =>
    rw [List.reverse_cons, List.append_assoc, List.singleton_append] at hrec
    obtain ⟨k, hk, hin, hkey⟩ := pathRepo hrec hr hrepo
    have htext := pathText (hvalues p List.mem_cons_self)
    rw [List.map_cons, Registry.moTop]
    rw [hk, hkey, htext, String.append_assoc]
    have hnext := ih (p :: above) (g.getMOMRepo k) hrec (fun q hq => hvalues q (List.mem_cons_of_mem _ hq))
      (fun _ => hin) ⟨k, rfl⟩
    change p.text ++ "," ++ (g.moTop (below.map NamedPart.className) (classAbove (p :: above)) _ ++ _) = _
    rw [hnext, List.map_cons, List.cons_append, String.intercalate_cons_of_ne_nil (by simp [hrest])]

theorem moTop_end (below : List String) (parentName : String) (r : OamSAKeyMOMRepo) :
    g.moTop below parentName r = "" ∨ ∃ s, g.moTop below parentName r = s ++ "," := by
  induction below generalizing parentName r with
  | nil => exact Or.inl rfl
  | cons moc below ih =>
    have hjoin (c : Prop) {_ : Decidable c} (a b rest : String) (hrest : rest = "" ∨ ∃ s, rest = s ++ ",") :
        ∃ s, (if c then a ++ "=1," else b ++ "=1,") ++ rest = s ++ "," := by
      obtain ⟨s, hs⟩ : ∃ s, (if c then a ++ "=1," else b ++ "=1,") = s ++ "," := by
        split
        · exact ⟨a ++ "=1", by rw [String.append_assoc]; rfl⟩
        · exact ⟨b ++ "=1", by rw [String.append_assoc]; rfl⟩
      rw [hs]
      rcases hrest with rfl | ⟨rest, rfl⟩
      · exact ⟨s, String.append_empty⟩
      · exact ⟨s ++ "," ++ rest, by simp only [String.append_assoc]⟩
    rw [Registry.moTop]
    exact Or.inr (hjoin _ _ _ _ (ih moc _))

end Parts

end Backward

/-! ## Whole names -/

section Names
variable {g : Registry} {names : ImmNames} {d : MoName}

theorem comma_notMem_text (p : NamedPart) : ',' ∉ p.text.toList := by
  rw [p.toList_text]
  refine notMem_append_cons ?_ (by decide) p.value_chars.2
  unfold NamedPart.shown
  split
  · exact p.className_chars.2.1
  · exact notMem_append_cons p.className_chars.2.1 (by decide) p.keyAttribute_chars.2.1

theorem splitDn_dn (d : MoName) : splitDn d.dn = d.parts.reverse.map NamedPart.text := by
  apply splitDn_intercalate
  · simp [MoName.parts]
  · intro s hs
    obtain ⟨p, -, rfl⟩ := List.mem_map.mp hs
    exact comma_notMem_text p

theorem splitDn_immName (p : NamedPart) (above : List NamedPart) :
    splitDn (immName g p above) = (translated g p above).map fun x => x.1.immText := by
  apply splitDn_intercalate
  · simpa using translated_ne_nil p above
  · intro s hs
    obtain ⟨x, -, rfl⟩ := List.mem_map.mp hs
    exact x.1.comma_notMem_immText

theorem find_text (p : NamedPart) (r : MOMRootRepository) :
    r.Find (beforeEqual p.text) = r.myMOMRootMap.lookup p.className := by
  have htrimmed : trimmed (beforeEqual p.text) = p.className := by
    have hwhile : p.shown.takeWhile (· ≠ '=') = p.shown := by
      rw [List.takeWhile_eq_self_iff]
      intro c hc
      simpa using ne_of_mem_of_not_mem hc p.equal_notMem_shown
    rw [trimmed, beforeEqual, p.takeWhile_text, String.toList_ofList, hwhile, p.beforeDot_shown,
      String.ofList_toList]
  rw [MOMRootRepository.Find, htrimmed]

theorem retriveMoTop_eq (hrec : Recorded g names d.parts) (hpath : OnStoredPath g d) {rest : List String}
    (hrest : rest ≠ []) :
    g.retriveMoTop (g.theMOMRepository.myMOMRootMap.lookup (splitRoot g d.last d.above).1.className) ++
      ",".intercalate rest =
      ",".intercalate ((splitRoot g d.last d.above).2.reverse.map NamedPart.text ++ rest) := by
  obtain ⟨-, -, hparts⟩ := translated_splitRoot (g := g) d.last d.above
  have hclasses := hpath.classes
  have hvalues := hpath.values
  generalize splitRoot g d.last d.above = root at hclasses hvalues hparts ⊢
  have htop : g.retriveMoTop (g.theMOMRepository.myMOMRootMap.lookup root.1.className) =
      g.moTop (root.2.reverse.map NamedPart.className) (classAbove []) (g.getMOMRepo "") := by
    cases hlookup : g.theMOMRepository.myMOMRootMap.lookup root.1.className with
    | none =>
      rw [hlookup] at hclasses
      rw [List.map_eq_nil_iff.mp hclasses.symm]
      rfl
    | some den =>
      rw [hlookup] at hclasses
      change den = _ at hclasses
      rw [hclasses, List.map_reverse]
      rfl
  have hup (l : List NamedPart) (hl : Recorded g names (l ++ root.2)) : Recorded g names root.2 := by
    induction l with
    | nil => exact hl
    | cons q l ih => exact ih hl.tail
  have hpart : Recorded g names (root.2.reverse.reverse ++ []) := by
    rw [MoName.parts, hparts] at hrec
    rw [List.reverse_reverse, List.append_nil]
    exact hup _ hrec
  rw [htop]
  exact moTop_eq root.2.reverse [] _ hpart (fun p hp => hvalues p (List.mem_reverse.mp hp))
    (fun h => absurd rfl h) ⟨"", rfl⟩ hrest

theorem Imm2MO_DN_eq (hplain : names.registeredDecoratedImmRootClassesName = []) (d : MoName) :
    Imm2MO_DN g names (splitDn (immName g d.last d.above)) =
      g.retriveMoTop (g.theMOMRepository.Find (beforeEqual (backPart g names (splitRoot g d.last d.above)))) ++
        ",".intercalate ((translated g d.last d.above).map (backPart g names)).reverse := by
  obtain ⟨⟨rest, hrest⟩, hsplits, -⟩ := translated_splitRoot (g := g) d.last d.above
  have hreverse : ((translated g d.last d.above).map fun x => x.1.immText).reverse =
      (splitRoot g d.last d.above).1.immText :: rest.map fun x => x.1.immText := by
    rw [← List.map_reverse, hrest, List.map_cons]
  have hne : ((translated g d.last d.above).map fun x => x.1.immText).reverse ≠ [] := by
    rw [hreverse]
    exact List.cons_ne_nil _ _
  have hloop := immLoop_plain hplain hne { n3gpp_name := g.retriveMoTop (g.theMOMRepository.Find
    (beforeEqual (backPart g names (splitRoot g d.last d.above)))) } rfl
  rw [(readBack_eq _ _).1, hreverse] at hloop
  unfold Imm2MO_DN
  rw [splitDn_immName, hreverse]
  dsimp only
  rw [if_neg (NamedPart.immText_ne _), ← hloop, backPart, immName_of_splits hsplits]

theorem dn_split (g : Registry) (d : MoName) : d.parts.reverse.map NamedPart.text =
    (splitRoot g d.last d.above).2.reverse.map NamedPart.text ++
      ((translated g d.last d.above).map fun x => x.1.text).reverse := by
  have hall : d.parts = (translated g d.last d.above).map Prod.fst ++ (splitRoot g d.last d.above).2 :=
    (translated_splitRoot d.last d.above).2.2
  rw [hall, List.reverse_append, List.map_append, ← List.map_reverse, ← List.map_reverse, List.map_map]
  rfl

theorem splitDn_end {top : String} (htop : top = "" ∨ ∃ s, top = s ++ ",") {parts : List String} (hne : parts ≠ [])
    (hparts : ∀ part ∈ parts, ',' ∉ part.toList) :
    ∃ above, splitDn (top ++ ",".intercalate parts) = above ++ parts := by
  rcases htop with rfl | ⟨s, rfl⟩
  · exact ⟨[], by rw [String.empty_append, splitDn_intercalate hne hparts]; rfl⟩
  · refine ⟨splitDn s, ?_⟩
    rw [← splitDn_intercalate_cons s hparts, String.intercalate_cons_of_ne_nil hne]

/-- The name is read back as a whole where each part of it is. -/
theorem readsBack_iff (hrec : Recorded g names d.parts) (hpath : OnStoredPath g d)
    (hclass : ∀ objectName className, names.immClass objectName = .found className → ',' ∉ className.toList)
    (hstruct : ∀ x ∈ translated g d.last d.above, lower x.1.className.toList ≠ "id".toList) :
    Imm2MO_DN g names (splitDn (immName g d.last d.above)) = d.dn ↔
      ∀ x ∈ translated g d.last d.above, x.1.ReadsBack (names.immClass (immName g x.1 x.2)) := by
  have hparts : (∀ x ∈ translated g d.last d.above, x.1.ReadsBack (names.immClass (immName g x.1 x.2))) ↔
      (translated g d.last d.above).map (backPart g names) =
        (translated g d.last d.above).map fun x => x.1.text := by
    rw [List.map_inj_left]
    exact forall₂_congr fun x hx => (convert_iff (hstruct x hx) _).symm
  rw [Imm2MO_DN_eq hrec.undecorated.2, hparts]
  constructor
  · intro h
    have htop : ∀ found, g.retriveMoTop found = "" ∨ ∃ s, g.retriveMoTop found = s ++ "," := by
      rintro (_ | den)
      · exact Or.inl rfl
      · exact moTop_end _ _ _
    have hnoComma : ∀ part ∈ ((translated g d.last d.above).map (backPart g names)).reverse, ',' ∉ part.toList := by
      intro part hpart
      obtain ⟨x, -, rfl⟩ := List.mem_map.mp (List.mem_reverse.mp hpart)
      exact comma_notMem_convert x.1.comma_notMem_immText (hclass _)
    obtain ⟨above, habove⟩ := splitDn_end (htop (g.theMOMRepository.Find (beforeEqual (backPart g names
      (splitRoot g d.last d.above))))) (by simpa using translated_ne_nil d.last d.above) hnoComma
    rw [h, splitDn_dn, dn_split g d] at habove
    exact List.reverse_inj.mp (List.append_inj_right' habove (by simp)).symm
  · intro h
    have hroot : splitRoot g d.last d.above ∈ translated g d.last d.above := by
      obtain ⟨⟨rest, hrest⟩, -, -⟩ := translated_splitRoot (g := g) d.last d.above
      exact List.mem_reverse.mp (hrest ▸ List.mem_cons_self)
    rw [List.map_inj_left.mp h _ hroot, h, find_text,
      retriveMoTop_eq hrec hpath (by simpa using translated_ne_nil d.last d.above), ← dn_split g d]
    rfl

end Names

/-- Measurement jobs, and probes of a MOM of their own below a job. The objects of the probes are in IMM below
the jobs. -/
def jobRegistry : Registry where
  theMOMRepository :=
    { myMOMRootMap :=
        [("ManagedElement", []), ("Pm", ["SystemFunctions", "ManagedElement"]),
          ("SystemFunctionsPm", ["SystemFunctions", "ManagedElement"]),
          ("Probe", ["Job", "Pm", "SystemFunctions", "ManagedElement"]),
          ("JobProbe", ["Job", "Pm", "SystemFunctions", "ManagedElement"])]
      containmentSplitImmDnAttributes := [("Job_to_Probe", false), ("SystemFunctions_to_Pm", true)] }
  registeredParentMOCWithMOMVALUESet := []
  registeredDecoratedIMMKeyAttributes := []
  theKeyHolder :=
    [("_ManagedElement",
      ⟨[("ManagedElement", "managedElementId", ""), ("SystemFunctions", "systemFunctionsId", "")]⟩),
      ("SystemFunctions_Pm", ⟨[("Pm", "pmId", ""), ("Job", "jobName", "")]⟩),
      ("Job_Probe", ⟨[("Probe", "probeId", "")]⟩)]

def jobNames : ImmNames where
  registeredDecoratedImmRootClassesName := []
  immClass objectName :=
    if objectName = "pmId=1" then .found "Pm"
    else if objectName = "jobName=7,pmId=1" then .found "Job"
    else .notInImm

theorem managedElement_ne : "ManagedElement" ≠ "" := by decide

def probe : MoName where
  last := ⟨"Probe", "probeId", "3", by decide, by decide, by decide, by decide, by decide⟩
  above :=
    [⟨"Job", "jobName", "7", by decide, by decide, by decide, by decide, by decide⟩,
      ⟨"Pm", "pmId", "1", by decide, by decide, by decide, by decide, by decide⟩,
      ⟨"SystemFunctions", "systemFunctionsId", "1", by decide, by decide, by decide, by decide, by decide⟩,
      ⟨"ManagedElement", "managedElementId", "1", managedElement_ne, by decide, by decide, by decide, by decide⟩]

theorem found_noComma (objectName className : String) (h : jobNames.immClass objectName = .found className) :
    ',' ∉ className.toList := by
  unfold jobNames at h
  dsimp only at h
  split at h
  · cases h
    decide
  split at h <;> cases h
  decide

/-- The jobs have numbers: the key attribute is read as the class with two letters more. -/
def numberedRegistry : Registry :=
  { jobRegistry with theKeyHolder :=
      [("_ManagedElement",
        ⟨[("ManagedElement", "managedElementId", ""), ("SystemFunctions", "systemFunctionsId", "")]⟩),
        ("SystemFunctions_Pm", ⟨[("Pm", "pmId", ""), ("Job", "jobNo", "")]⟩)] }

def numberedNames : ImmNames where
  registeredDecoratedImmRootClassesName := []
  immClass objectName := .found (if objectName = "pmId=1" then "Pm" else "Job")

def numbered : MoName where
  last := ⟨"Job", "jobNo", "7", by decide, by decide, by decide, by decide, by decide⟩
  above := probe.above.tail

end ComSA.Translator.RoundTrip
