import ComSA.Lib.Cut
import ComSA.Motransaction.KeyAttributeRepository

/-!
# The class of an object

The class of an object is looked up in the MOM that the last fragment of its DN belongs to. Where non-root MOs are
notified, and nothing is found, the last fragment is cut off.
-/

namespace ComSA.Translator

namespace ClassName

def keyOf (fragment : List Char) : String := String.ofList (fragment.takeWhile (· ≠ '='))

def rootImmKey (immRdn : List Char) : String :=
  if ',' ∈ immRdn then keyOf (immRdn.reverse.takeWhile (· ≠ ',')).reverse else keyOf immRdn

def firstKey (immRdn : List Char) : String :=
  if ',' ∈ immRdn then keyOf (immRdn.takeWhile (· ≠ ',') ++ [',']) else keyOf immRdn

def nextDn (immRdnHead : List Char) : List Char :=
  if ',' ∈ immRdnHead then (immRdnHead.reverse.dropWhile (· ≠ ',')).tail.reverse else immRdnHead

def decorated (m : KeyMOMRepo) (className : String) : String :=
  if m.momDecorated then m.momName ++ className else className

def getClassName (theKeyHolder : OamSAKeyAttributeRepository) (non_root_mo_notifications : Bool) :
    Nat → List Char → String → String → Option (Bool × String × String)
  | 0, _, _, _ => none
  | fuel + 1, immRdn, className, _ =>
    let tempRepo := theKeyHolder.getMOMRepoImmKey (rootImmKey immRdn)
    let comclassName := tempRepo.rootClassName
    if tempRepo.rootClassName = "" then
      if non_root_mo_notifications then
        -- without this the call would go on with the same DN for ever
        if rootImmKey immRdn = firstKey immRdn then some (false, className, comclassName)
        else getClassName theKeyHolder non_root_mo_notifications fuel (nextDn immRdn) className comclassName
      else some (false, className, comclassName)
    else if rootImmKey immRdn = firstKey immRdn then
      some (true, decorated tempRepo tempRepo.rootClassName, comclassName)
    else
      let comclassName := tempRepo.getClassNameForKeyAttribute (firstKey immRdn)
      let className := decorated tempRepo comclassName
      if non_root_mo_notifications = false ∧ className = "" then some (false, className, comclassName)
      else if className = "" ∨ comclassName = "" ∧ non_root_mo_notifications = true then
        getClassName theKeyHolder non_root_mo_notifications fuel (nextDn immRdn) className comclassName
      else some (true, className, comclassName)

/-! ## The recursion ends -/

def components (immRdn : List Char) : Nat := immRdn.count ',' + 1

theorem rootImmKey_eq_firstKey {immRdn : List Char} (h : ',' ∉ immRdn) : rootImmKey immRdn = firstKey immRdn := by
  unfold rootImmKey firstKey
  rw [if_neg h, if_neg h]

theorem components_nextDn {immRdn : List Char} (h : ',' ∈ immRdn) :
    components (nextDn immRdn) + 1 = components immRdn := by
  obtain ⟨head, fragment, rfl, hfragment⟩ := exists_last h
  unfold nextDn components
  rw [if_pos h, (cut_last hfragment).2, List.count_append, List.count_cons_self, List.count_eq_zero.mpr hfragment]

/-! ## What the name is that is returned -/

section
variable (theKeyHolder : OamSAKeyAttributeRepository) (immRdn : List Char)

def momOf : KeyMOMRepo := theKeyHolder.getMOMRepoImmKey (rootImmKey immRdn)

/-- The class that this MOM has for the key of the first fragment. -/
def classOf : String := (momOf theKeyHolder immRdn).getClassNameForKeyAttribute (firstKey immRdn)

/-- The class is registered for the key of the first fragment: as the root class, where the last fragment has the same
key, or as another class. -/
def RegisteredAt (className comclassName : String) : Prop :=
  comclassName ≠ "" ∧ className = decorated (momOf theKeyHolder immRdn) comclassName ∧
    (rootImmKey immRdn = firstKey immRdn ∧ comclassName = (momOf theKeyHolder immRdn).rootClassName ∨
      comclassName = classOf theKeyHolder immRdn)

/-- There are no more calls than the DN has components, and where true is returned some MOM has the class for the key
of what was left of the DN. -/
def NamesClass (non_root_mo_notifications : Bool) (className comclassName : String) : Prop :=
  ∃ found className' comclassName',
    getClassName theKeyHolder non_root_mo_notifications (components immRdn) immRdn className comclassName =
      some (found, className', comclassName') ∧
    (found = true → ∃ n, RegisteredAt theKeyHolder (nextDn^[n] immRdn) className' comclassName')

/-- The MOM has no class for the key, but a name that comes before the names of its classes. -/
def OnlyPrefix : Prop :=
  (momOf theKeyHolder immRdn).rootClassName ≠ "" ∧ rootImmKey immRdn ≠ firstKey immRdn ∧
    classOf theKeyHolder immRdn = "" ∧ (momOf theKeyHolder immRdn).momDecorated = true ∧
    (momOf theKeyHolder immRdn).momName ≠ ""

instance : Decidable (OnlyPrefix theKeyHolder immRdn) := inferInstanceAs (Decidable (_ ∧ _))

end

theorem decorated_eq_empty {m : KeyMOMRepo} {className : String} (h : decorated m className = "") :
    className = "" := by
  unfold decorated at h
  split at h
  · exact (String.append_eq_empty_iff.mp h).2
  · exact h

theorem decorated_empty_iff {m : KeyMOMRepo} : decorated m "" ≠ "" ↔ m.momDecorated = true ∧ m.momName ≠ "" := by
  unfold decorated
  split <;> rename_i hdecorated <;> simp [hdecorated]

section
variable {theKeyHolder : OamSAKeyAttributeRepository} {non_root_mo_notifications : Bool} {immRdn : List Char}
  {className comclassName : String} {fuel : Nat}

theorem getClassName_root (hroot : (momOf theKeyHolder immRdn).rootClassName ≠ "")
    (hkeys : rootImmKey immRdn = firstKey immRdn) :
    NamesClass theKeyHolder immRdn non_root_mo_notifications className comclassName := by
  refine ⟨true, decorated (momOf theKeyHolder immRdn) (momOf theKeyHolder immRdn).rootClassName,
    (momOf theKeyHolder immRdn).rootClassName, ?_, fun _ => ⟨0, hroot, rfl, Or.inl ⟨hkeys, rfl⟩⟩⟩
  unfold components getClassName
  exact (if_neg hroot).trans (if_pos hkeys)

theorem getClassName_class (hroot : (momOf theKeyHolder immRdn).rootClassName ≠ "")
    (hkeys : rootImmKey immRdn ≠ firstKey immRdn) (hclass : classOf theKeyHolder immRdn ≠ "") :
    NamesClass theKeyHolder immRdn non_root_mo_notifications className comclassName := by
  have hname : decorated (momOf theKeyHolder immRdn) (classOf theKeyHolder immRdn) ≠ "" := fun h =>
    hclass (decorated_eq_empty h)
  refine ⟨true, decorated (momOf theKeyHolder immRdn) (classOf theKeyHolder immRdn), classOf theKeyHolder
    immRdn, ?_,
    fun _ => ⟨0, hclass, rfl, Or.inr rfl⟩⟩
  unfold components getClassName
  refine (if_neg hroot).trans ((if_neg hkeys).trans ?_)
  refine (if_neg fun h => hname h.2).trans (if_neg ?_)
  rintro (h | h)
  · exact hname h
  · exact hclass h.1

theorem getClassName_next {className0 comclassName0 : String} (hcomma : ',' ∈ immRdn)
    (hcall : getClassName theKeyHolder non_root_mo_notifications (components immRdn) immRdn className0
      comclassName0 =
      getClassName theKeyHolder non_root_mo_notifications (immRdn.count ',') (nextDn immRdn) className comclassName)
    (h : NamesClass theKeyHolder (nextDn immRdn) non_root_mo_notifications className comclassName) :
    NamesClass theKeyHolder immRdn non_root_mo_notifications className0 comclassName0 := by
  obtain ⟨found, className', comclassName', hnext, hregistered⟩ := h
  have hfuel : components (nextDn immRdn) = immRdn.count ',' := Nat.succ.inj (components_nextDn hcomma)
  rw [hfuel] at hnext
  refine ⟨found, className', comclassName', hcall.trans hnext, fun hfound => ?_⟩
  obtain ⟨n, hn⟩ := hregistered hfound
  exact ⟨n + 1, hn⟩

/-- Where the two keys differ there is a comma, so that something can be cut off. -/
theorem comma_of_keys_ne (hkeys : rootImmKey immRdn ≠ firstKey immRdn) : ',' ∈ immRdn :=
  Decidable.of_not_not fun hnot => hkeys (rootImmKey_eq_firstKey hnot)

end

/-- Where non-root MOs are notified, the class is looked for further up as long as none is found. -/
theorem namesClass_of_nonRoot (theKeyHolder : OamSAKeyAttributeRepository) (immRdn : List Char)
    (className comclassName : String) : NamesClass theKeyHolder immRdn true className comclassName := by
  induction hn : components immRdn generalizing immRdn className comclassName with
  | zero => exact absurd hn (Nat.succ_ne_zero _)
  | succ n ih =>
    have hnext : ∀ className comclassName, ',' ∈ immRdn →
        NamesClass theKeyHolder (nextDn immRdn) true className comclassName := by
      intro className comclassName hcomma
      have hcomponents := components_nextDn hcomma
      exact ih (nextDn immRdn) className comclassName (by omega)
    by_cases hroot : (momOf theKeyHolder immRdn).rootClassName = ""
    · by_cases hkeys : rootImmKey immRdn = firstKey immRdn
      · refine ⟨false, className, (momOf theKeyHolder immRdn).rootClassName, ?_, fun h => absurd h
          Bool.false_ne_true⟩
        unfold components getClassName
        exact (if_pos hroot).trans ((if_pos rfl).trans (if_pos hkeys))
      · have hcomma := comma_of_keys_ne hkeys
        refine getClassName_next hcomma ?_ (hnext className (momOf theKeyHolder immRdn).rootClassName hcomma)
        unfold components
        rw [getClassName]
        exact (if_pos hroot).trans ((if_pos rfl).trans (if_neg hkeys))
    · by_cases hkeys : rootImmKey immRdn = firstKey immRdn
      · exact getClassName_root hroot hkeys
      · by_cases hclass : classOf theKeyHolder immRdn = ""
        · have hcomma := comma_of_keys_ne hkeys
          refine getClassName_next hcomma ?_ (hnext (decorated (momOf theKeyHolder immRdn)
            (classOf theKeyHolder immRdn)) (classOf theKeyHolder immRdn) hcomma)
          unfold components
          rw [getClassName]
          refine (if_neg hroot).trans ((if_neg hkeys).trans ?_)
          exact (if_neg fun h => absurd h.1 Bool.true_eq_false_eq_False).trans (if_pos (Or.inr ⟨hclass, rfl⟩))
        · exact getClassName_class hroot hkeys hclass

/-- Otherwise only one MOM is asked, and the name is empty where it has nothing but a prefix. -/
theorem namesClass_of_root_iff (theKeyHolder : OamSAKeyAttributeRepository) (immRdn : List Char)
    (className comclassName : String) :
    NamesClass theKeyHolder immRdn false className comclassName ↔ ¬OnlyPrefix theKeyHolder immRdn := by
  by_cases hroot : (momOf theKeyHolder immRdn).rootClassName = ""
  · refine ⟨fun _ h => h.1 hroot, fun _ => ?_⟩
    refine ⟨false, className, (momOf theKeyHolder immRdn).rootClassName, ?_, fun h => absurd h Bool.false_ne_true⟩
    unfold components getClassName
    exact (if_pos hroot).trans (if_neg Bool.false_ne_true)
  by_cases hkeys : rootImmKey immRdn = firstKey immRdn
  · exact ⟨fun _ h => h.2.1 hkeys, fun _ => getClassName_root hroot hkeys⟩
  by_cases hclass : classOf theKeyHolder immRdn = ""
  · by_cases hname : decorated (momOf theKeyHolder immRdn) "" = ""
    · refine ⟨fun _ h => decorated_empty_iff.mpr h.2.2.2 hname, fun _ => ?_⟩
      refine ⟨false, decorated (momOf theKeyHolder immRdn) (classOf theKeyHolder immRdn), classOf theKeyHolder
        immRdn, ?_,
        fun h => absurd h Bool.false_ne_true⟩
      have hnone : decorated (momOf theKeyHolder immRdn) (classOf theKeyHolder immRdn) = "" := by
        rw [hclass]
        exact hname
      unfold components getClassName
      exact (if_neg hroot).trans ((if_neg hkeys).trans (if_pos ⟨rfl, hnone⟩))
    · -- the prefix alone is taken for the name of a class
      have hsome : decorated (momOf theKeyHolder immRdn) (classOf theKeyHolder immRdn) ≠ "" := by
        rw [hclass]
        exact hname
      have hcall : getClassName theKeyHolder false (components immRdn) immRdn className comclassName =
          some (true, decorated (momOf theKeyHolder immRdn) (classOf theKeyHolder immRdn),
            classOf theKeyHolder immRdn) := by
        unfold components getClassName
        refine (if_neg hroot).trans ((if_neg hkeys).trans ((if_neg fun h => hsome h.2).trans (if_neg ?_)))
        rintro (h | h)
        · exact hsome h
        · exact Bool.false_ne_true h.2
      refine ⟨?_, fun h => absurd ⟨hroot, hkeys, hclass, decorated_empty_iff.mp hname⟩ h⟩
      rintro ⟨found, className', comclassName', hfound, hregistered⟩
      rw [hcall] at hfound
      cases hfound
      obtain ⟨n, hne, -⟩ := hregistered rfl
      exact absurd hclass hne
  · exact ⟨fun _ h => hclass h.2.2.1, fun _ => getClassName_class hroot hkeys hclass⟩

/-- A class is named by every call, unless non-root MOs are not notified and the MOM has nothing but a prefix. -/
theorem namesClass_iff (theKeyHolder : OamSAKeyAttributeRepository) (immRdn : List Char)
    (non_root_mo_notifications : Bool) (className comclassName : String) :
    NamesClass theKeyHolder immRdn non_root_mo_notifications className comclassName ↔
      (non_root_mo_notifications = true ∨ ¬OnlyPrefix theKeyHolder immRdn) := by
  cases non_root_mo_notifications with
  | true => exact ⟨fun _ => Or.inl rfl, fun _ => namesClass_of_nonRoot theKeyHolder immRdn className comclassName⟩
  | false =>
    rw [namesClass_of_root_iff]
    simp

/-! ## A decorated MOM without the class -/

def decoratedMom : OamSAKeyAttributeRepository where
  momOamSAKeyMOMRepoMAP :=
    [("ManagedElement_Root", { rootClassName := "Root", momDecorated := true, momName := "Mom" })]
  momOamSAKeyMOMRepoMAP_immKey := [("MomrootId", "ManagedElement_Root")]

/-- True is returned with the name of the MOM and no class. -/
theorem not_namesClass : ¬∀ theKeyHolder immRdn non_root_mo_notifications className comclassName,
    NamesClass theKeyHolder immRdn non_root_mo_notifications className comclassName := by
  intro h
  obtain ⟨found, className, comclassName, hcall, hregistered⟩ :=
    h decoratedMom "otherId=1,MomrootId=1".toList false "" ""
  have hnamed : getClassName decoratedMom false (components "otherId=1,MomrootId=1".toList)
      "otherId=1,MomrootId=1".toList "" "" = some (true, "Mom", "") := by decide
  rw [hnamed] at hcall
  cases hcall
  obtain ⟨n, hne, -⟩ := hregistered rfl
  exact hne rfl

end ClassName

end ComSA.Translator
