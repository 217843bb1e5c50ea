import ComSA.Lib.Delimited
import Mathlib.Data.List.TakeWhile
import ComSA.Motransaction.MO2ImmDn

/-!
# Translation part by part

What the translation of a name means: each part up to the lowest root where the name
splits is the key attribute of its class and its value, and the parts above are left
out. The walk does that for a name where none of its shortcuts goes wrong, and then
two names that differ below that root get different IMM names.
-/

namespace ComSA.Translator

/-! ## MO names -/

structure Fragment where
  className : String
  value : String
  className_ne : className ≠ ""
  className_chars : '=' ∉ className.toList ∧ '.' ∉ className.toList
  value_chars : ',' ∉ value.toList
  deriving DecidableEq, Repr

def Fragment.text (f : Fragment) : String := f.className ++ "=" ++ f.value

structure MoName where
  fragments : List Fragment
  nonempty : fragments ≠ []
  deriving DecidableEq, Repr

def MoName.texts (d : MoName) : List String := d.fragments.map Fragment.text

/-! ## What a part means

A part stands with the parts above it, the nearest one first. -/

def parentClass (above : List Fragment) : String := (above.head?.map Fragment.className).getD ""

def parentText (above : List Fragment) : String := (above.head?.map Fragment.text).getD ""

section Meaning
variable (g : Registry)

def IsRootAt (f : Fragment) (above : List Fragment) : Bool :=
  match above with
  | [] => true
  | p :: _ => (g.theMOMRepository.myMOMRootMap.lookup (p.className ++ f.className)).isSome

def IsSingletonAt (f : Fragment) (above : List Fragment) : Bool :=
  match above with
  | [] => true
  | p :: _ => IsRootAt g f above &&
      MOMRootRepository.isSplitImmDn (p.className ++ CONTAINMENT_SEPARATOR ++ f.className)
        g.theMOMRepository.containmentSplitImmDnAttributes

/-- The root of the MOM that a part is in, with the parts above the root. -/
def momRoot (f : Fragment) : List Fragment → Fragment × List Fragment
  | [] => (f, [])
  | p :: above => if IsRootAt g f (p :: above) then (f, p :: above) else momRoot p above

/-- The name of a class below a parent class, as the key repositories are searched. -/
def classPair (f : Fragment) (above : List Fragment) : String :=
  parentClass above ++ "_" ++ f.className

def momKey (f : Fragment) (above : List Fragment) : String :=
  classPair (momRoot g f above).1 (momRoot g f above).2

def IsRegistered (f : Fragment) (above : List Fragment) : Bool := g.momNameExist (momKey g f above)

def MomIsDecorated (f : Fragment) (above : List Fragment) : Bool :=
  momKey g f above ∈ g.registeredParentMOCWithMOMVALUESet

def decoration (root : Fragment) (above : List Fragment) : String :=
  let decorated := (g.findDecoratedClassName
    ((g.getMOMRepo (classPair root above)).getDecoratedKeyAttributeForClass root.className)).toList
  String.ofList (decorated.take ((rfind root.className.toList decorated).getD decorated.length))

/-- The key attribute that a class has in its MOM. Without a MOM it is made from the class name. -/
def plainKey (f : Fragment) (above : List Fragment) : String :=
  if IsRegistered g f above then
    if convertToLowerCase f.className = STRUCT_CLASS_KEY_ATTRIBUTE then lowerFirst f.className
    else (g.getMOMRepo (momKey g f above)).getKeyAttributeForClass f.className
  else if f.className = STRUCT_CLASS_KEY_ATTRIBUTE ∨ f.className = "Id" then lowerFirst f.className
  else lowerFirst f.className ++ "Id"

def keyAttribute (f : Fragment) (above : List Fragment) : String :=
  if IsRootAt g f above && IsRegistered g f above && MomIsDecorated g f above then
    decoration g f above ++ plainKey g f above
  else plainKey g f above

def translated : List Fragment → List (Fragment × List Fragment)
  | [] => []
  | f :: above => (f, above) :: if IsSingletonAt g f above then [] else translated above

def toImm (x : Fragment × List Fragment) : String := keyAttribute g x.1 x.2 ++ "=" ++ x.1.value

def MoName.translated (d : MoName) : List (Fragment × List Fragment) :=
  Translator.translated g d.fragments.reverse

def MoName.translatedPart (d : MoName) : List Fragment := (d.translated g).map Prod.fst

def MoName.immName (d : MoName) : String := ",".intercalate ((d.translated g).map (toImm g))

/-! ## Where the walk does what it should -/

structure Straight (parts : List (Fragment × List Fragment)) : Prop where
  /-- No part below the root of its MOM reads as the root does. -/
  root_once : ∀ x ∈ parts, IsRootAt g x.1 x.2 = false →
    (momRoot g x.1 x.2).1.text ≠ x.1.text
  /-- Above a part without a MOM there is no part with a MOM. -/
  fallback : parts.Pairwise fun x y =>
    IsRegistered g x.1 x.2 = false → IsRegistered g y.1 y.2 = false
  has_key : ∀ x ∈ parts, IsRegistered g x.1 x.2 = true →
    convertToLowerCase x.1.className = STRUCT_CLASS_KEY_ATTRIBUTE ∨
      (g.getMOMRepo (momKey g x.1 x.2)).getKeyAttributeForClass x.1.className ≠ ""
  splits_below_top : ∀ x ∈ parts, x.2.length = 1 → IsRootAt g x.1 x.2 = true →
    IsSingletonAt g x.1 x.2 = true
  /-- The values of the root of a decorated MOM and of the part above have no `.`. -/
  no_dots : ∀ x ∈ parts, IsRootAt g x.1 x.2 = true → IsRegistered g x.1 x.2 = true →
    MomIsDecorated g x.1 x.2 = true →
    '.' ∉ x.1.value.toList ∧ ∀ p ∈ x.2.head?, '.' ∉ p.value.toList
  /-- In a decorated MOM, only the root has the classes of a root. -/
  one_decorated : ∀ x ∈ parts, IsRootAt g x.1 x.2 = false →
    MomIsDecorated g x.1 x.2 = true → g.momNameExist (classPair x.1 x.2) = false

structure ToldApart (d e : MoName) : Prop where
  left_plain : ∀ x ∈ d.translated g,
    '=' ∉ (keyAttribute g x.1 x.2).toList ∧ ',' ∉ (keyAttribute g x.1 x.2).toList
  right_plain : ∀ x ∈ e.translated g,
    '=' ∉ (keyAttribute g x.1 x.2).toList ∧ ',' ∉ (keyAttribute g x.1 x.2).toList
  classes : (d.translated g).map (fun x => keyAttribute g x.1 x.2) =
      (e.translated g).map (fun x => keyAttribute g x.1 x.2) →
    (d.translatedPart g).map Fragment.className = (e.translatedPart g).map Fragment.className

end Meaning

/-! ## The texts of parts -/

namespace Fragment

theorem toList_text (f : Fragment) : f.text.toList = f.className.toList ++ '=' :: f.value.toList := by
  simp [text]

theorem equal_mem_text (f : Fragment) : '=' ∈ f.text.toList := by
  rw [toList_text]
  simp

theorem text_ne (f : Fragment) : f.text ≠ "" := by
  intro h
  have hmem := f.equal_mem_text
  rw [h] at hmem
  exact absurd hmem (by decide)

theorem takeWhile_text (f : Fragment) : f.text.toList.takeWhile (· ≠ '=') = f.className.toList := by
  rw [toList_text, List.takeWhile_append_of_pos]
  · simp
  · intro c hc
    simpa using ne_of_mem_of_not_mem hc f.className_chars.1

theorem dropWhile_text (f : Fragment) :
    f.text.toList.dropWhile (· ≠ '=') = '=' :: f.value.toList := by
  rw [toList_text, List.dropWhile_append_of_pos]
  · simp
  · intro c hc
    simpa using ne_of_mem_of_not_mem hc f.className_chars.1

theorem beforeEqual_text (f : Fragment) : beforeEqual f.text = f.className := by
  rw [beforeEqual, takeWhile_text, String.ofList_toList]

theorem fromEqual_text (f : Fragment) : fromEqual f.text = "=" ++ f.value := by
  rw [fromEqual, dropWhile_text]
  apply String.toList_inj.mp
  simp

theorem beforeDot_className (f : Fragment) : beforeDot f.className.toList = f.className.toList := by
  rw [beforeDot, List.takeWhile_eq_self_iff]
  intro c hc
  simpa using ne_of_mem_of_not_mem hc f.className_chars.2

theorem trimmed_text (f : Fragment) : trimmed f.text = f.className := by
  rw [trimmed, takeWhile_text]
  change String.ofList (beforeDot f.className.toList) = _
  rw [beforeDot_className, String.ofList_toList]

theorem removeEqualSign_text (f : Fragment) : removeEqualSignAndDotPartOfDN f.text = f.className := by
  rw [removeEqualSignAndDotPartOfDN, if_pos f.equal_mem_text, trimmed_text]

theorem dotInClass_text (f : Fragment) : dotInClass f.text = false := by
  rw [dotInClass, takeWhile_text, decide_eq_false_iff_not]
  exact f.className_chars.2

theorem head_text (f : Fragment) : f.text.toList.head? ≠ some '=' := by
  rw [toList_text]
  cases hname : f.className.toList with
  | nil => exact absurd (String.toList_inj.mp (by simpa using hname)) f.className_ne
  | cons c cs =>
    intro h
    have hc : c = '=' := by simpa using h
    exact f.className_chars.1 (by simp [hname, hc])

theorem classUpToDot_text (f : Fragment) (h : '.' ∉ f.value.toList) :
    Registry.classUpToDot f.text = f.className := by
  have hdot : '.' ∉ f.text.toList := by
    rw [toList_text]
    exact notMem_append_cons f.className_chars.2 (by decide) h
  rw [Registry.classUpToDot, if_neg hdot, beforeEqual_text]

theorem lowerFirst_text (f : Fragment) :
    lowerFirst f.text = lowerFirst f.className ++ "=" ++ f.value := by
  unfold lowerFirst
  rw [toList_text]
  cases hname : f.className.toList with
  | nil => exact absurd (String.toList_inj.mp (by simpa using hname)) f.className_ne
  | cons c cs =>
    apply String.toList_inj.mp
    simp

end Fragment

theorem headD_texts (above : List Fragment) : (above.map Fragment.text).headD "" = parentText above := by
  cases above <;> rfl

theorem removeEqualSign_parentText (above : List Fragment) :
    removeEqualSignAndDotPartOfDN (parentText above) = parentClass above := by
  cases above with
  | nil => rfl
  | cons p above => exact p.removeEqualSign_text

theorem parentText_cons (p : Fragment) (above : List Fragment) : parentText (p :: above) = p.text := rfl

/-! ## What the repositories answer for parts -/

section Answers
variable (g : Registry)

theorem isRoot_text (f p : Fragment) (above : List Fragment) :
    g.isRoot f.text p.text = IsRootAt g f (p :: above) := by
  rw [Registry.isRoot, if_neg f.head_text, MOMRootRepository.rootKey, f.trimmed_text, p.trimmed_text]
  rfl

theorem isSingletonRoot_text (f : Fragment) (above : List Fragment) :
    g.isSingletonRoot f.text (parentText above) = IsSingletonAt g f above := by
  unfold Registry.isSingletonRoot
  rw [if_neg f.head_text]
  cases above with
  | nil => rfl
  | cons p above =>
    rw [parentText_cons, if_neg p.text_ne, f.beforeEqual_text, p.beforeEqual_text,
      MOMRootRepository.rootKey, f.trimmed_text, p.trimmed_text]
    change _ = ((g.theMOMRepository.myMOMRootMap.lookup (p.className ++ f.className)).isSome && _)
    cases MOMRootRepository.isSplitImmDn (p.className ++ CONTAINMENT_SEPARATOR ++ f.className)
        g.theMOMRepository.containmentSplitImmDnAttributes with
    | false => simp
    | true => simp

theorem isDecorated_text (root : Fragment) (above : List Fragment) :
    g.isDecorated root.text (parentText above) =
      decide (classPair root above ∈ g.registeredParentMOCWithMOMVALUESet) := by
  have hparent : String.ofList (beforeDot (parentClass above).toList) = parentClass above := by
    cases above with
    | nil => rfl
    | cons p above =>
      change String.ofList (beforeDot p.className.toList) = p.className
      rw [p.beforeDot_className, String.ofList_toList]
  rw [Registry.isDecorated, if_neg (not_not.mpr root.equal_mem_text), root.removeEqualSign_text,
    removeEqualSign_parentText, hparent, root.beforeDot_className, String.ofList_toList]
  rfl

theorem findDecoration_text (root : Fragment) (above : List Fragment) (hroot : '.' ∉ root.value.toList)
    (hparent : ∀ p ∈ above.head?, '.' ∉ p.value.toList) :
    g.findDecorationForMOMDN root.text (parentText above) = decoration g root above := by
  have hclass : Registry.classUpToDot (parentText above) = parentClass above := by
    cases above with
    | nil => rfl
    | cons p above => exact p.classUpToDot_text (hparent p rfl)
  unfold Registry.findDecorationForMOMDN
  rw [root.classUpToDot_text hroot, hclass]
  rfl

end Answers

/-! ## Single parts -/

theorem convert_text (f : Fragment) :
    convert3GPPNameFragmentToImmNameFragment f.text =
      (if f.className = STRUCT_CLASS_KEY_ATTRIBUTE ∨ f.className = "Id" then lowerFirst f.className
        else lowerFirst f.className ++ "Id") ++ "=" ++ f.value := by
  rw [convert3GPPNameFragmentToImmNameFragment, f.dotInClass_text, if_neg Bool.false_ne_true,
    if_pos f.equal_mem_text, f.beforeEqual_text, f.fromEqual_text, f.lowerFirst_text]
  split
  · rfl
  · rw [String.append_assoc, String.append_assoc, String.append_assoc]

theorem convertWithRepo_text (f : Fragment) (r : OamSAKeyMOMRepo)
    (hkey : convertToLowerCase f.className = STRUCT_CLASS_KEY_ATTRIBUTE ∨
      r.getKeyAttributeForClass f.className ≠ "") :
    convert3GPPNameFragmentWithRepo f.text r =
      (if convertToLowerCase f.className = STRUCT_CLASS_KEY_ATTRIBUTE then lowerFirst f.className
        else r.getKeyAttributeForClass f.className) ++ "=" ++ f.value := by
  rw [convert3GPPNameFragmentWithRepo, if_neg (not_not.mpr f.equal_mem_text), f.dotInClass_text,
    if_neg Bool.false_ne_true, f.removeEqualSign_text, f.fromEqual_text]
  dsimp only
  split
  · rw [String.append_assoc]
  · rename_i hstruct
    have hne := hkey.resolve_left hstruct
    have hmem : r.classNameInMOM f.className = true := bne_iff_ne.mpr hne
    rw [if_pos hmem, String.append_assoc]

/-! ## The walk -/

section Walk
variable {g : Registry} {f p : Fragment} {above : List Fragment} {m : WalkState}

theorem momRoot_of_root (h : IsRootAt g f above = true) : momRoot g f above = (f, above) := by
  cases above with
  | nil => rfl
  | cons p above => rw [momRoot, if_pos h]

theorem momRoot_of_not_root (h : IsRootAt g f (p :: above) = false) :
    momRoot g f (p :: above) = momRoot g p above := by
  rw [momRoot, if_neg (by rw [h]; exact Bool.false_ne_true)]

theorem momKey_of_root (h : IsRootAt g f above = true) : momKey g f above = classPair f above := by
  rw [momKey, momRoot_of_root h]

/-- The walk has the root of a part's MOM at hand, and the iterators are beyond that root. -/
structure AtRoot (g : Registry) (f : Fragment) (above : List Fragment) (m : WalkState) : Prop where
  root : m.theRootName = (momRoot g f above).1.text
  parent : m.theParent = parentText (momRoot g f above).2
  iters : (momRoot g f above).2 ≠ [] →
    m.theIterRoot = (momRoot g f above).2.map Fragment.text ∧
    m.theIterParent = (momRoot g f above).2.tail.map Fragment.text

structure InMom (g : Registry) (f : Fragment) (above : List Fragment) (m : WalkState) : Prop
    extends AtRoot g f above m where
  old : m.useTheOldMethod = !IsRegistered g f above
  repo : IsRegistered g f above = true → m.momKeyRep = g.getMOMRepo (momKey g f above)

theorem nextRoot_atRoot (f : Fragment) (above : List Fragment) (m : WalkState) :
    AtRoot g f above (nextRoot g ((f :: above).map Fragment.text) (above.map Fragment.text) m) := by
  induction above generalizing f with
  | nil => exact ⟨rfl, rfl, fun h => absurd rfl h⟩
  | cons p above ih =>
    rw [List.map_cons, List.map_cons, nextRoot, isRoot_text g f p above]
    cases hroot : IsRootAt g f (p :: above) with
    | true =>
      rw [if_pos rfl]
      constructor
      · rw [momRoot_of_root hroot]
      · rw [momRoot_of_root hroot]
        rfl
      · intro _
        rw [momRoot_of_root hroot]
        exact ⟨rfl, rfl⟩
    | false =>
      rw [if_neg Bool.false_ne_true]
      obtain ⟨h1, h2, h3⟩ := ih p
      constructor <;> rw [momRoot_of_not_root hroot]
      · exact h1
      · exact h2
      · exact h3

theorem nextRoot_keeps (roots parents : List String) (m : WalkState) :
    (nextRoot g roots parents m).useTheOldMethod = m.useTheOldMethod ∧
    (nextRoot g roots parents m).momKeyRep = m.momKeyRep := by
  induction roots generalizing parents with
  | nil => exact ⟨rfl, rfl⟩
  | cons root below ih =>
    cases parents with
    | nil => exact ⟨rfl, rfl⟩
    | cons parent above =>
      rw [nextRoot]
      split
      · exact ⟨rfl, rfl⟩
      · exact ih above

theorem findKeyRepo_inMom (h : AtRoot g f above m)
    (hold : m.useTheOldMethod = true → IsRegistered g f above = false) :
    InMom g f above (findKeyRepo g m) := by
  have hkey : removeEqualSignAndDotPartOfDN m.theParent ++ "_" ++
      removeEqualSignAndDotPartOfDN m.theRootName = momKey g f above := by
    rw [h.root, h.parent, removeEqualSign_parentText, Fragment.removeEqualSign_text]
    rfl
  unfold findKeyRepo
  dsimp only
  rw [hkey]
  cases hreg : g.momNameExist (momKey g f above) with
  | true =>
    rw [if_pos rfl]
    have hnot : m.useTheOldMethod = false := by
      cases hflag : m.useTheOldMethod with
      | false => rfl
      | true =>
        have hno := hold hflag
        rw [IsRegistered, hreg] at hno
        exact absurd hno.symm Bool.false_ne_true
    exact ⟨⟨h.root, h.parent, h.iters⟩, by rw [IsRegistered, hreg]; exact hnot, fun _ => rfl⟩
  | false =>
    rw [if_neg Bool.false_ne_true]
    refine ⟨⟨h.root, h.parent, h.iters⟩, by rw [IsRegistered, hreg]; rfl, ?_⟩
    intro hyes
    rw [IsRegistered, hreg] at hyes
    exact absurd hyes Bool.false_ne_true

theorem InMom.up (h : InMom g f (p :: above) m) (hroot : IsRootAt g f (p :: above) = false) :
    InMom g p above m := by
  have hmom := momRoot_of_not_root hroot
  have hkey : momKey g f (p :: above) = momKey g p above := by rw [momKey, hmom, momKey]
  obtain ⟨⟨h1, h2, h3⟩, h4, h5⟩ := h
  rw [hmom] at h1 h2 h3
  rw [IsRegistered, hkey] at h4 h5
  exact ⟨⟨h1, h2, h3⟩, h4, h5⟩

theorem InMom.next (h : InMom g f (p :: above) m) (hroot : IsRootAt g f (p :: above) = true)
    (hne : above ≠ []) (hold : IsRegistered g f (p :: above) = false → IsRegistered g p above = false)
    (mo_name : List String) : InMom g p above (findKeyRepo g (findRoot g mo_name m)) := by
  obtain ⟨hiterRoot, hiterParent⟩ := h.iters (by rw [momRoot_of_root hroot]; exact List.cons_ne_nil _ _)
  rw [momRoot_of_root hroot] at hiterRoot hiterParent
  change m.theIterParent = above.map Fragment.text at hiterParent
  have hfind : findRoot g mo_name m =
      nextRoot g ((p :: above).map Fragment.text) (above.map Fragment.text) m := by
    rw [findRoot, hiterRoot, hiterParent, if_pos]
    intro hnil
    exact hne (List.map_eq_nil_iff.mp hnil)
  rw [hfind]
  apply findKeyRepo_inMom (nextRoot_atRoot p above m)
  intro hflag
  rw [(nextRoot_keeps _ _ m).1, h.old] at hflag
  exact hold (by simpa using hflag)

theorem start_inMom (f : Fragment) (above : List Fragment) :
    InMom g f above (findKeyRepo g (findRoot g ((f :: above).map Fragment.text)
      { theIterRoot := (f :: above).map Fragment.text
        theIterParent := ((f :: above).map Fragment.text).tail })) := by
  apply findKeyRepo_inMom
  · cases above with
    | nil => exact ⟨rfl, rfl, fun h => absurd rfl h⟩
    | cons p above =>
      have hfind := nextRoot_atRoot (g := g) f (p :: above)
        { theIterRoot := (f :: p :: above).map Fragment.text
          theIterParent := (p :: above).map Fragment.text }
      exact hfind
  · intro hflag
    have hkeeps : (findRoot g ((f :: above).map Fragment.text)
        { theIterRoot := (f :: above).map Fragment.text
          theIterParent := ((f :: above).map Fragment.text).tail }).useTheOldMethod = false := by
      unfold findRoot
      split
      · exact (nextRoot_keeps _ _ _).1
      · rfl
    rw [hkeeps] at hflag
    exact absurd hflag Bool.false_ne_true

theorem immFragment_eq (h : InMom g f above m)
    (hkey : IsRegistered g f above = true → convertToLowerCase f.className = STRUCT_CLASS_KEY_ATTRIBUTE ∨
      (g.getMOMRepo (momKey g f above)).getKeyAttributeForClass f.className ≠ "")
    (hdots : IsRootAt g f above = true → IsRegistered g f above = true →
      MomIsDecorated g f above = true → '.' ∉ f.value.toList ∧ ∀ p ∈ above.head?, '.' ∉ p.value.toList)
    (hone : IsRootAt g f above = false → MomIsDecorated g f above = true →
      g.momNameExist (classPair f above) = false) :
    immFragment g f.text (above.map Fragment.text) m = toImm g (f, above) := by
  have hplain : (if m.useTheOldMethod then convert3GPPNameFragmentToImmNameFragment f.text
      else convert3GPPNameFragmentWithRepo f.text m.momKeyRep) = plainKey g f above ++ "=" ++ f.value := by
    rw [h.old, plainKey]
    cases hreg : IsRegistered g f above with
    | true => rw [h.repo hreg, Bool.not_true, if_neg Bool.false_ne_true, if_pos rfl,
        convertWithRepo_text f _ (hkey hreg)]
    | false => rw [Bool.not_false, if_pos rfl, if_neg Bool.false_ne_true, convert_text]
  have hpair : removeEqualSignAndDotPartOfDN ((above.map Fragment.text).headD "") ++ "_" ++
      removeEqualSignAndDotPartOfDN f.text = classPair f above := by
    rw [headD_texts, removeEqualSign_parentText, f.removeEqualSign_text]
    rfl
  have hdecorated : g.isDecorated m.theRootName m.theParent = MomIsDecorated g f above := by
    rw [h.root, h.parent, isDecorated_text]
    rfl
  unfold immFragment
  dsimp only
  rw [hplain, hpair, hdecorated]
  unfold toImm keyAttribute
  dsimp only
  cases hdec : MomIsDecorated g f above with
  | false => rw [Bool.and_false, Bool.and_false, if_neg Bool.false_ne_true, if_neg Bool.false_ne_true]
  | true =>
    cases hroot : IsRootAt g f above with
    | false =>
      rw [hone hroot hdec, Bool.false_and, Bool.false_and, Bool.false_and, if_neg Bool.false_ne_true,
        if_neg Bool.false_ne_true]
    | true =>
      have hreg : g.momNameExist (classPair f above) = IsRegistered g f above := by
        rw [IsRegistered, momKey_of_root hroot]
      rw [hreg, Bool.true_and]
      cases hknown : IsRegistered g f above with
      | false => rw [Bool.false_and, if_neg Bool.false_ne_true, if_neg Bool.false_ne_true]
      | true =>
        obtain ⟨hvalue, habove⟩ := hdots hroot hknown hdec
        have hroots := momRoot_of_root hroot
        rw [Bool.true_and, if_pos rfl, if_pos rfl, h.root, h.parent, hroots,
          findDecoration_text g f above hvalue habove]
        rw [String.append_assoc, String.append_assoc, String.append_assoc]

theorem toImm_ne (x : Fragment × List Fragment) : toImm g x ≠ "" := by
  intro h
  have hmem : '=' ∈ (toImm g x).toList := by simp [toImm]
  rw [h] at hmem
  exact absurd hmem (by decide)

theorem Straight.tail {x : Fragment × List Fragment} {parts : List (Fragment × List Fragment)}
    (h : Straight g (x :: parts)) : Straight g parts where
  root_once y hy := h.root_once y (List.mem_cons_of_mem _ hy)
  fallback := (List.pairwise_cons.mp h.fallback).2
  has_key y hy := h.has_key y (List.mem_cons_of_mem _ hy)
  splits_below_top y hy := h.splits_below_top y (List.mem_cons_of_mem _ hy)
  no_dots y hy := h.no_dots y (List.mem_cons_of_mem _ hy)
  one_decorated y hy := h.one_decorated y (List.mem_cons_of_mem _ hy)

theorem mem_translated (f : Fragment) (above : List Fragment) :
    (f, above) ∈ translated g (f :: above) := by
  rw [translated]
  exact List.mem_cons_self

theorem translated_ne_nil (f : Fragment) (above : List Fragment) : translated g (f :: above) ≠ [] :=
  List.ne_nil_of_mem (mem_translated f above)

/-- By induction on the parts above: the walk adds the translations from here to the root where the
name splits. -/
theorem translateParts_eq (mo_name : List String) (f : Fragment) (above : List Fragment) (m : WalkState)
    (imm_name : String) (hmom : InMom g f above m) (h : Straight g (translated g (f :: above))) :
    translateParts g mo_name ((f :: above).map Fragment.text) m imm_name =
      imm_name ++ ",".intercalate ((translated g (f :: above)).map (toImm g)) := by
  induction above generalizing f m imm_name with
  | nil =>
    -- the top of the name is a root where it splits
    have hmem := mem_translated (g := g) f []
    have himm := immFragment_eq hmom (h.has_key (f, []) hmem) (h.no_dots (f, []) hmem)
      (h.one_decorated (f, []) hmem)
    have hroot : m.theRootName = f.text := hmom.root
    have hsingle : g.isSingletonRoot f.text m.theParent = true := by
      rw [hmom.parent]
      exact isSingletonRoot_text g f []
    rw [List.map_cons, translateParts]
    dsimp only
    have hnot : ¬ (toImm g (f, []) ≠ "" ∧ f.text ≠ f.text) := fun hc => hc.2 rfl
    rw [himm, hroot, if_neg hnot, if_pos rfl, if_pos hsingle]
    change _ = imm_name ++ ",".intercalate [toImm g (f, [])]
    rw [String.intercalate_singleton]
  | cons p above ih =>
    have hmem := mem_translated (g := g) f (p :: above)
    have himm := immFragment_eq hmom (h.has_key (f, p :: above) hmem) (h.no_dots (f, p :: above) hmem)
      (h.one_decorated (f, p :: above) hmem)
    rw [List.map_cons, translateParts]
    dsimp only
    rw [himm]
    have hgo (hsingle : IsSingletonAt g f (p :: above) = false) :
        translated g (f :: p :: above) = (f, p :: above) :: translated g (p :: above) := by
      rw [translated, hsingle, if_neg Bool.false_ne_true]
    have hjoin (hsingle : IsSingletonAt g f (p :: above) = false) :
        imm_name ++ toImm g (f, p :: above) ++ "," ++
          ",".intercalate ((translated g (p :: above)).map (toImm g)) =
        imm_name ++ ",".intercalate ((translated g (f :: p :: above)).map (toImm g)) := by
      rw [hgo hsingle, List.map_cons, String.intercalate_cons_of_ne_nil
        (by simpa using translated_ne_nil p above), ← String.append_assoc, ← String.append_assoc]
    cases hroot : IsRootAt g f (p :: above) with
    | true =>
      have hroots := momRoot_of_root hroot
      have hname : m.theRootName = f.text := by rw [hmom.root, hroots]
      have hsing : g.isSingletonRoot m.theRootName m.theParent = IsSingletonAt g f (p :: above) := by
        rw [hmom.root, hmom.parent, hroots, isSingletonRoot_text]
      have hnot : ¬ (toImm g (f, p :: above) ≠ "" ∧ m.theRootName ≠ f.text) := fun hc => hc.2 hname
      rw [if_neg hnot, if_pos hname, hsing]
      cases hsingle : IsSingletonAt g f (p :: above) with
      | true =>
        rw [if_pos rfl, translated, hsingle, if_pos rfl, List.map_cons, List.map_nil,
          String.intercalate_singleton]
      | false =>
        rw [if_neg Bool.false_ne_true, if_pos (toImm_ne _)]
        have hne : above ≠ [] := by
          intro hnil
          have hyes := h.splits_below_top (f, p :: above) hmem (by rw [hnil]; rfl) hroot
          rw [hsingle] at hyes
          exact absurd hyes Bool.false_ne_true
        rw [hgo hsingle] at h
        have hold := (List.pairwise_cons.mp h.fallback).1 (p, above) List.mem_cons_self
        rw [ih p _ _ (hmom.next hroot hne hold mo_name) h.tail, hjoin hsingle]
    | false =>
      have hsingle : IsSingletonAt g f (p :: above) = false := by rw [IsSingletonAt, hroot, Bool.false_and]
      have hname : m.theRootName ≠ f.text := by
        rw [hmom.root]
        exact h.root_once (f, p :: above) hmem hroot
      have hcomma : toImm g (f, p :: above) ≠ "" ∧ m.theRootName ≠ f.text := ⟨toImm_ne _, hname⟩
      rw [if_pos hcomma, if_neg hname]
      rw [hgo hsingle] at h
      rw [ih p m _ (hmom.up hroot) h.tail, hjoin hsingle]

end Walk

/-! ## Whole names -/

section Names
variable {g : Registry}

theorem MoName.exists_last (d : MoName) : ∃ f above, d.fragments.reverse = f :: above :=
  List.exists_cons_of_ne_nil fun h => d.nonempty (List.reverse_eq_nil_iff.mp h)

theorem MoName.translated_ne_nil (d : MoName) : d.translated g ≠ [] := by
  obtain ⟨f, above, hd⟩ := d.exists_last
  rw [MoName.translated, hd]
  exact Translator.translated_ne_nil f above

theorem eraseLastComma_eq {s : String} (h : s.toList.getLast? ≠ some ',') : eraseLastComma s = s := by
  rw [eraseLastComma, if_neg h]

theorem toImm_getLast {x : Fragment × List Fragment} : (toImm g x).toList.getLast? ≠ some ',' := by
  have hlist : (toImm g x).toList = (keyAttribute g x.1 x.2).toList ++ '=' :: x.1.value.toList := by
    simp [toImm]
  rw [hlist, List.getLast?_append, List.getLast?_cons]
  intro h
  have hlast : x.1.value.toList.getLast?.getD '=' = ',' := by simpa using h
  cases hvalue : x.1.value.toList.getLast? with
  | none =>
    rw [hvalue] at hlast
    exact absurd hlast (by decide)
  | some c =>
    rw [hvalue] at hlast
    exact x.1.value_chars (hlast ▸ List.mem_of_getLast? hvalue)

theorem intercalate_getLast (parts : List (Fragment × List Fragment)) :
    (",".intercalate (parts.map (toImm g))).toList.getLast? ≠ some ',' := by
  induction parts with
  | nil =>
    intro h
    exact absurd h (by simp)
  | cons x parts ih =>
    cases parts with
    | nil =>
      rw [List.map_cons, List.map_nil, String.intercalate_singleton]
      exact toImm_getLast
    | cons y parts =>
      have hne : (",".intercalate ((y :: parts).map (toImm g))).toList ≠ [] := by
        intro hnil
        have hmem : '=' ∈ (",".intercalate ((y :: parts).map (toImm g))).toList := by
          cases parts <;> simp [toImm]
        rw [hnil] at hmem
        exact List.not_mem_nil hmem
      have hcons : (y :: parts).map (toImm g) ≠ [] := List.cons_ne_nil _ _
      rw [List.map_cons, String.intercalate_cons_of_ne_nil hcons, String.toList_append,
        List.getLast?_append_of_ne_nil _ hne]
      exact ih

theorem MO2Imm_DN_eq {d : MoName} (h : Straight g (d.translated g)) :
    MO2Imm_DN g d.texts = d.immName g := by
  obtain ⟨f, above, hd⟩ := d.exists_last
  have htexts : d.texts.reverse = (f :: above).map Fragment.text := by
    rw [MoName.texts, ← List.map_reverse, hd]
  rw [MoName.translated, hd] at h
  rw [MO2Imm_DN, MoName.immName, MoName.translated, hd]
  rw [htexts, translateParts_eq _ f above _ "" (start_inMom f above) h, String.empty_append,
    eraseLastComma_eq (intercalate_getLast _)]

/-! ## Names apart -/

theorem map_eq_of_map_eq {α β γ : Type*} {a : α → β} {b : α → γ} {l k : List α} (h : l.map a = k.map a)
    (hab : ∀ x ∈ l, ∀ y ∈ k, a x = a y → b x = b y) : l.map b = k.map b := by
  induction l generalizing k with
  | nil => rw [List.map_eq_nil_iff.mp h.symm]
  | cons x l ih =>
    cases k with
    | nil => exact absurd h (List.cons_ne_nil _ _)
    | cons y k =>
      obtain ⟨hxy, hlk⟩ := List.cons.inj h
      rw [List.map_cons, List.map_cons, hab x List.mem_cons_self y List.mem_cons_self hxy,
        ih hlk fun u hu v hv => hab u (List.mem_cons_of_mem _ hu) v (List.mem_cons_of_mem _ hv)]

theorem fragments_eq {l k : List Fragment} (hclass : l.map Fragment.className = k.map Fragment.className)
    (hvalue : l.map Fragment.value = k.map Fragment.value) : l = k := by
  induction l generalizing k with
  | nil => rw [List.map_eq_nil_iff.mp hclass.symm]
  | cons x l ih =>
    cases k with
    | nil => exact absurd hclass (List.cons_ne_nil _ _)
    | cons y k =>
      obtain ⟨hxy, hlk⟩ := List.cons.inj hclass
      obtain ⟨hxy', hlk'⟩ := List.cons.inj hvalue
      have heq : x = y := by
        cases x
        cases y
        simp_all
      rw [heq, ih hlk hlk']

theorem toImm_chars {x : Fragment × List Fragment}
    (hkey : ',' ∉ (keyAttribute g x.1 x.2).toList) : ',' ∉ (toImm g x).toList := by
  have hlist : (toImm g x).toList = (keyAttribute g x.1 x.2).toList ++ '=' :: x.1.value.toList := by
    simp [toImm]
  rw [hlist]
  exact notMem_append_cons hkey (by decide) x.1.value_chars

theorem toImm_cut {x : Fragment × List Fragment} (hx : '=' ∉ (keyAttribute g x.1 x.2).toList) :
    beforeEqual (toImm g x) = keyAttribute g x.1 x.2 ∧ fromEqual (toImm g x) = "=" ++ x.1.value := by
  have hlist : (toImm g x).toList = (keyAttribute g x.1 x.2).toList ++ '=' :: x.1.value.toList := by
    simp [toImm]
  have hpos : ∀ c ∈ (keyAttribute g x.1 x.2).toList, decide (c ≠ '=') = true :=
    fun c hc => decide_eq_true (ne_of_mem_of_not_mem hc hx)
  constructor
  · rw [beforeEqual, hlist, List.takeWhile_append_of_pos hpos]
    simp
  · apply String.toList_inj.mp
    rw [fromEqual, hlist, List.dropWhile_append_of_pos hpos]
    simp

theorem toImm_inj {x y : Fragment × List Fragment}
    (hx : '=' ∉ (keyAttribute g x.1 x.2).toList) (hy : '=' ∉ (keyAttribute g y.1 y.2).toList)
    (h : toImm g x = toImm g y) :
    keyAttribute g x.1 x.2 = keyAttribute g y.1 y.2 ∧ x.1.value = y.1.value := by
  obtain ⟨hx1, hx2⟩ := toImm_cut hx
  obtain ⟨hy1, hy2⟩ := toImm_cut hy
  constructor
  · rw [← hx1, ← hy1, h]
  · have heq : "=" ++ x.1.value = "=" ++ y.1.value := by rw [← hx2, ← hy2, h]
    have hlist := congrArg String.toList heq
    exact String.toList_inj.mp (by simpa using hlist)

theorem splitOn_immName {d : MoName} (hd : ∀ x ∈ d.translated g, ',' ∉ (toImm g x).toList) :
    (d.immName g).toList.splitOn ',' = ((d.translated g).map (toImm g)).map String.toList := by
  apply splitOn_intercalate_comma
  · intro s hs
    obtain ⟨x, hx, rfl⟩ := List.mem_map.mp hs
    exact hd x hx
  · intro hnil
    exact d.translated_ne_nil (List.map_eq_nil_iff.mp hnil)

theorem toImm_of_immName {d e : MoName} (hd : ∀ x ∈ d.translated g, ',' ∉ (toImm g x).toList)
    (he : ∀ x ∈ e.translated g, ',' ∉ (toImm g x).toList) (h : d.immName g = e.immName g) :
    (d.translated g).map (toImm g) = (e.translated g).map (toImm g) := by
  have hlists := splitOn_immName hd
  rw [h, splitOn_immName he] at hlists
  exact (List.map_injective_iff.mpr fun s t hst => String.toList_inj.mp hst) hlists.symm

theorem translatedPart_eq {d e : MoName} (hapart : ToldApart g d e) (h : d.immName g = e.immName g) :
    d.translatedPart g = e.translatedPart g := by
  have hparts := toImm_of_immName (fun x hx => toImm_chars (hapart.left_plain x hx).2)
    (fun x hx => toImm_chars (hapart.right_plain x hx).2) h
  have hread (x) (hx : x ∈ d.translated g) (y) (hy : y ∈ e.translated g) (hxy : toImm g x = toImm g y) :=
    toImm_inj (hapart.left_plain x hx).1 (hapart.right_plain y hy).1 hxy
  have hkeys := map_eq_of_map_eq hparts fun x hx y hy hxy => (hread x hx y hy hxy).1
  have hvalues := map_eq_of_map_eq hparts fun x hx y hy hxy => (hread x hx y hy hxy).2
  apply fragments_eq (hapart.classes hkeys)
  rw [MoName.translatedPart, MoName.translatedPart, List.map_map, List.map_map]
  exact hvalues

end Names

/-- Where the walk is straight, a name is translated part by part, and another name that differs below
the lowest root gets another IMM name. -/
theorem translatesByPart (g : Registry) (d : MoName) (hd : Straight g (d.translated g)) :
    MO2Imm_DN g d.texts = d.immName g ∧
    ∀ e : MoName, Straight g (e.translated g) → ToldApart g d e →
      d.translatedPart g ≠ e.translatedPart g → MO2Imm_DN g d.texts ≠ MO2Imm_DN g e.texts := by
  refine ⟨MO2Imm_DN_eq hd, ?_⟩
  intro e he hapart hne h
  rw [MO2Imm_DN_eq hd, MO2Imm_DN_eq he] at h
  exact hne (translatedPart_eq hapart h)

def folderModel : Model :=
  Model.ofContainments 0
    (fun h => [⟨"ManagedElement", 0, true, some "managedElementId"⟩, ⟨"Folder", 1, false, some "folderId"⟩,
      ⟨"File", 1, false, some "fileId"⟩].getD h ⟨"", 0, false, none⟩)
    (fun h => [⟨"ManagedElement", none⟩, ⟨"Folders", none⟩].getD h ⟨"", none⟩)
    [⟨"ManagedElement_to_Folder", 0, 1, none⟩, ⟨"Folder_to_Folder", 1, 1, none⟩, ⟨"Folder_to_File", 1, 2, none⟩]

def folderRegistry : Registry where
  theMOMRepository := (MOMRootRepository.Populate_V4 folderModel 6 {}).getD {}
  registeredParentMOCWithMOMVALUESet := []
  registeredDecoratedIMMKeyAttributes := []
  theKeyHolder :=
    [("_ManagedElement", ⟨[("ManagedElement", "managedElementId", "")]⟩),
      ("ManagedElement_Folder", ⟨[("Folder", "folderId", ""), ("File", "fileId", "")]⟩)]

def topElement : Fragment := ⟨"ManagedElement", "1", by decide, by decide, by decide⟩
def folder (value : String) (h : ',' ∉ value.toList) : Fragment := ⟨"Folder", value, by decide, by decide, h⟩
def file : Fragment := ⟨"File", "1", by decide, by decide, by decide⟩

def fileName (value : String) (h : ',' ∉ value.toList) : MoName :=
  ⟨[topElement, folder value h, file], List.cons_ne_nil _ _⟩

theorem translatesByPart_files :
    MO2Imm_DN folderRegistry ["ManagedElement=1", "Folder=1", "File=1"] = "fileId=1,folderId=1" ∧
    MO2Imm_DN folderRegistry ["ManagedElement=1", "Folder=1", "File=1"] ≠
      MO2Imm_DN folderRegistry ["ManagedElement=1", "Folder=2", "File=1"] := by
  have hstraight : Straight folderRegistry ((fileName "1" (by decide)).translated folderRegistry) :=
    ⟨by decide +kernel, by decide +kernel, by decide +kernel, by decide +kernel, by decide +kernel,
      by decide +kernel⟩
  have hother : Straight folderRegistry ((fileName "2" (by decide)).translated folderRegistry) :=
    ⟨by decide +kernel, by decide +kernel, by decide +kernel, by decide +kernel, by decide +kernel,
      by decide +kernel⟩
  have hapart : ToldApart folderRegistry (fileName "1" (by decide)) (fileName "2" (by decide)) :=
    ⟨by decide +kernel, by decide +kernel, by decide +kernel⟩
  obtain ⟨h1, h2⟩ := translatesByPart folderRegistry (fileName "1" (by decide)) hstraight
  refine ⟨h1.trans (by decide +kernel), ?_⟩
  exact h2 (fileName "2" (by decide)) hother hapart (by decide +kernel)

/-- A folder in a folder with the same value is taken for the root. -/
theorem not_translatesByPart :
    ¬ ∀ (g : Registry) (d : MoName), MO2Imm_DN g d.texts = d.immName g ∧
      ∀ e : MoName, d.translatedPart g ≠ e.translatedPart g → MO2Imm_DN g d.texts ≠ MO2Imm_DN g e.texts := by
  intro h
  have hname := (h folderRegistry ⟨[topElement, folder "1" (by decide), folder "1" (by decide)],
    List.cons_ne_nil _ _⟩).1
  exact absurd hname (by decide +kernel)

end ComSA.Translator
