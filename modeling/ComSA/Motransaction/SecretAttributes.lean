import Mathlib.Data.String.Basic
import ComSA.Lib.Delimited
import ComSA.Lib.PartialFold
import ComSA.Lib.Run
import ComSA.Lib.SortedMap
import ComSA.Motransaction.MoValue

/-!
# The secret attributes of a model

`getSecretAttributesFromModelRepo` with what the model repository answers, and what it collects: for each class path
the attributes that are pass phrases, and whether there is an attribute of the struct type `EcimPassword`.
-/

namespace ComSA.Secrets

open SortedMap

/-! ## What the model repository answers -/

inductive MafOamSpiMrType where
  | string
  | struct
  | other
  deriving DecidableEq, Repr

/-- `none` is where `getGeneralProperties` fails, and within it where `getStringProperty` fails for the name. -/
abbrev NameAnswer := Option (Option String)

structure TypeContainer where
  type : Option MafOamSpiMrType
  /-- The property `isPassphrase`, which the type may not have. -/
  isPassphrase : Option (Option Bool)
  name : NameAnswer
  deriving DecidableEq

structure Attribute where
  typeContainer : Option TypeContainer
  name : NameAnswer
  deriving DecidableEq

structure Moc where
  /-- The first attribute and the others that `getNext` gives, `none` where `getAttribute` fails. -/
  attributes : Option (Attribute × List Attribute)
  ended : MafReturn
  ended_ne : ended ≠ .ok
  deriving DecidableEq

abbrev MocPathHandler := List (String × Moc)

/-! ## The functions -/

def ECIM_PASSWORD : String := "EcimPassword"

/-- The empty string where the attribute is no pass phrase; `none` where a call fails. -/
def getPassphraseAttrInfo (attr : Attribute) (container : TypeContainer) : Option String := do
  let properties ← attr.name
  match container.isPassphrase with
  | none => none
  | some none => some ""
  | some (some false) => some ""
  | some (some true) => properties

def getEcimPasswordAttrInfo (container : TypeContainer) : Option String := do
  let structRefName ← (← container.name)
  some (if structRefName = ECIM_PASSWORD then "password" else "")

structure Collected where
  passPhraseAttrs : String
  ecimPasswdFound : Bool
  mapMocpathToAttributes : List (String × String)
  deriving DecidableEq, Repr

def addPassPhrase (passPhraseAttr : String) (s : Collected) : Collected :=
  if passPhraseAttr = "" then s
  else if s.passPhraseAttrs = "" then { s with passPhraseAttrs := passPhraseAttr }
  else { s with passPhraseAttrs := s.passPhraseAttrs ++ "," ++ passPhraseAttr }

def addEcimPassword (mocPath ecimPasswdAttr : String) (s : Collected) : Collected :=
  if ecimPasswdAttr = "" then s
  else { s with
    ecimPasswdFound := true
    mapMocpathToAttributes := put (mocPath ++ ":EcimPassword") "password" s.mapMocpathToAttributes }

/-- One turn of the loop over the attributes. Where a call fails the map is cleared. -/
def readAttribute (mocPath : String) (s : Collected) (attr : Attribute) : Option Collected := do
  let container ← attr.typeContainer
  match ← container.type with
  | .string => (getPassphraseAttrInfo attr container).map fun name => addPassPhrase name s
  | .struct =>
    if s.ecimPasswdFound then some s
    else (getEcimPasswordAttrInfo container).map fun name => addEcimPassword mocPath name s
  | .other => some s

def readMoc (mapMocpathToAttributes : List (String × String)) (x : String × Moc) :
    Option (List (String × String)) := do
  let (first, others) ← x.2.attributes
  -- the loop ends where `getNext` gives no attribute, whatever it answers
  let s ← (first :: others).foldlM (readAttribute x.1) ⟨"", false, mapMocpathToAttributes⟩
  some (if s.passPhraseAttrs = "" then s.mapMocpathToAttributes
    else put x.1 s.passPhraseAttrs s.mapMocpathToAttributes)

/-- `none` where it returns false, with the map cleared. -/
def getSecretAttributesFromModelRepo (mapMocHandler : MocPathHandler) : Option (List (String × String)) :=
  mapMocHandler.foldlM readMoc []

/-! ## What the secrets of a class are -/

namespace Attribute

/-- The name, if the attribute is a pass phrase. An attribute without a name counts as none. -/
def passphrases (attr : Attribute) : List String :=
  match attr.typeContainer, attr.name with
  | some container, some (some name) =>
    if container.type = some .string ∧ container.isPassphrase = some (some true) ∧ name ≠ "" then [name] else []
  | _, _ => []

def isEcimPassword (attr : Attribute) : Bool :=
  attr.typeContainer.any fun container =>
    container.type = some .struct ∧ container.name = some (some ECIM_PASSWORD)

/-- A call fails that is made for the attribute. Once an `EcimPassword` is found, the names of further structs are
not asked for. -/
def fails (ecimPasswdFound : Bool) (attr : Attribute) : Bool :=
  match attr.typeContainer with
  | none => true
  | some container =>
    match container.type with
    | none => true
    | some .string => (getPassphraseAttrInfo attr container).isNone
    | some .struct => !ecimPasswdFound && (getEcimPasswordAttrInfo container).isNone
    | some .other => false

end Attribute

namespace Moc

def attributeList (m : Moc) : List Attribute := m.attributes.elim [] fun x => x.1 :: x.2

def passphrases (m : Moc) : List String := m.attributeList.flatMap Attribute.passphrases

def hasEcimPassword (m : Moc) : Bool := m.attributeList.any Attribute.isEcimPassword

end Moc

def attributesFail : Bool → List Attribute → Bool
  | _, [] => false
  | ecimPasswdFound, attr :: attrs =>
    attr.fails ecimPasswdFound || attributesFail (ecimPasswdFound || attr.isEcimPassword) attrs

/-- A call fails for the class, apart from the `getNext` behind its last attribute. -/
def Moc.fails (m : Moc) : Bool := m.attributes.elim true fun x => attributesFail false (x.1 :: x.2)

def secretEntries (x : String × Moc) : List (String × String) :=
  (if x.2.hasEcimPassword then [(x.1 ++ ":EcimPassword", "password")] else []) ++
    if x.2.passphrases = [] then [] else [(x.1, ",".intercalate x.2.passphrases)]

/-! ## What the functions collect -/

theorem Attribute.passphrases_ne {attr : Attribute} : ∀ n ∈ attr.passphrases, n ≠ "" := by
  intro n hn
  unfold passphrases at hn
  split at hn
  · split at hn <;> rename_i hname
    · rw [List.mem_singleton.mp hn]
      exact hname.2.2
    · cases hn
  · cases hn

theorem Moc.passphrases_ne {m : Moc} : ∀ n ∈ m.passphrases, n ≠ "" := by
  intro n hn
  obtain ⟨attr, -, hn⟩ := List.mem_flatMap.mp hn
  exact attr.passphrases_ne n hn

section
variable {names : List String} {found : Bool} {map : List (String × String)} {attr : Attribute}
  {container : TypeContainer}

theorem addPassPhrase_eq (hnames : ∀ n ∈ names, n ≠ "") (name : String) :
    addPassPhrase name ⟨",".intercalate names, found, map⟩ =
      ⟨",".intercalate (names ++ if name = "" then [] else [name]), found, map⟩ := by
  unfold addPassPhrase
  by_cases hname : name = ""
  · simp [hname]
  · simp only [hname, if_false, intercalate_concat hnames]
    split <;> simp

theorem passphrases_of_not_string (hcontainer : attr.typeContainer = some container)
    (htype : container.type ≠ some .string) : attr.passphrases = [] := by
  unfold Attribute.passphrases
  rw [hcontainer]
  rcases attr.name with - | - | name <;> simp [htype]

theorem passphrases_of_string (hcontainer : attr.typeContainer = some container)
    (htype : container.type = some .string) {name : String}
    (hname : getPassphraseAttrInfo attr container = some name) :
    attr.passphrases = if name = "" then [] else [name] := by
  obtain ⟨properties, hproperties, hname⟩ := Option.bind_eq_some_iff.mp hname
  unfold Attribute.passphrases
  rw [hcontainer, hproperties]
  rcases hphrase : container.isPassphrase with - | - | isPassphrase <;> rw [hphrase] at hname
  · cases hname
  · cases hname
    cases properties <;> simp [hphrase]
  · cases isPassphrase with
    | false =>
      cases hname
      cases properties <;> simp [hphrase]
    | true =>
      dsimp only at hname
      subst hname
      by_cases hempty : name = "" <;> simp [htype, hphrase, hempty]

theorem isEcimPassword_of_not_struct (hcontainer : attr.typeContainer = some container)
    (htype : container.type ≠ some .struct) : attr.isEcimPassword = false := by
  simp [Attribute.isEcimPassword, hcontainer, htype]

theorem isEcimPassword_of_struct (hcontainer : attr.typeContainer = some container)
    (htype : container.type = some .struct) {name : String} (hname : getEcimPasswordAttrInfo container = some
      name) :
    attr.isEcimPassword = decide (name ≠ "") := by
  obtain ⟨properties, hproperties, hname⟩ := Option.bind_eq_some_iff.mp hname
  obtain ⟨structRefName, hstruct, hname⟩ := Option.bind_eq_some_iff.mp hname
  cases hname
  subst hstruct
  by_cases hecim : structRefName = ECIM_PASSWORD <;>
    simp [Attribute.isEcimPassword, hcontainer, htype, hproperties, hecim]

theorem readAttribute_eq (hnames : ∀ n ∈ names, n ≠ "") (mocPath : String) (found : Bool)
    (map : List (String × String)) (attr : Attribute) :
    readAttribute mocPath ⟨",".intercalate names, found, map⟩ attr =
      if attr.fails found then none
      else some ⟨",".intercalate (names ++ attr.passphrases), found || attr.isEcimPassword,
        if !found && attr.isEcimPassword then put (mocPath ++ ":EcimPassword") "password" map else map⟩ := by
  unfold readAttribute Attribute.fails
  rcases hcontainer : attr.typeContainer with - | container
  · rfl
  rcases htype : container.type with - | type
  · simp [htype]
  cases type with
  | string =>
    rw [isEcimPassword_of_not_struct hcontainer (by simp [htype])]
    simp only [Option.bind_eq_bind, Option.bind_some, htype]
    rcases hname : getPassphraseAttrInfo attr container with - | name
    · rfl
    · rw [passphrases_of_string hcontainer htype hname]
      simp [addPassPhrase_eq hnames]
  | struct =>
    rw [passphrases_of_not_string hcontainer (by simp [htype])]
    simp only [Option.bind_eq_bind, Option.bind_some, htype]
    cases found with
    | true => simp
    | false =>
      rcases hname : getEcimPasswordAttrInfo container with - | name
      · rfl
      · rw [isEcimPassword_of_struct hcontainer htype hname]
        by_cases hempty : name = "" <;> simp [addEcimPassword, hempty]
  | other =>
    rw [passphrases_of_not_string hcontainer (by simp [htype]), isEcimPassword_of_not_struct hcontainer
      (by simp [htype])]
    simp [htype]

theorem readAttributes_eq (mocPath : String) (attrs : List Attribute) (hnames : ∀ n ∈ names, n ≠ "") :
    attrs.foldlM (readAttribute mocPath) ⟨",".intercalate names, found, map⟩ =
      if attributesFail found attrs then none
      else some ⟨",".intercalate (names ++ attrs.flatMap Attribute.passphrases), found || attrs.any
        Attribute.isEcimPassword,
        if !found && attrs.any Attribute.isEcimPassword then put (mocPath ++ ":EcimPassword") "password" map
          else map⟩ := by
  induction attrs generalizing names found map with
  | nil => simp [attributesFail]
  | cons attr attrs ih =>
    rw [List.foldlM_cons, readAttribute_eq hnames, attributesFail]
    by_cases hfails : attr.fails found = true
    · simp [hfails]
    · have hnames' : ∀ n ∈ names ++ attr.passphrases, n ≠ "" := by
        intro n hn
        exact (List.mem_append.mp hn).elim (hnames n) (attr.passphrases_ne n)
      rw [if_neg hfails]
      dsimp only [Option.bind_eq_bind, Option.bind_some]
      rw [ih hnames']
      cases found <;> cases hecim : attr.isEcimPassword <;> simp [hfails, hecim]

end

/-! ## The map of all classes -/

theorem readMoc_eq (map : List (String × String)) (x : String × Moc) :
    readMoc map x = if x.2.fails then none else some ((secretEntries x).foldl (fun m e => put e.1 e.2 m) map) := by
  unfold readMoc
  rcases hattributes : x.2.attributes with - | ⟨first, others⟩
  · simp [Moc.fails, hattributes]
  · have hlist : x.2.attributeList = first :: others := by simp [Moc.attributeList, hattributes]
    have hread := @readAttributes_eq [] false map x.1 (first :: others) (by simp)
    rw [← hlist, ← Moc.passphrases, ← Moc.hasEcimPassword, String.intercalate_nil, List.nil_append] at hread
    have hfails : x.2.fails = attributesFail false x.2.attributeList := by simp [Moc.fails, hattributes, hlist]
    dsimp only [Option.bind_eq_bind, Option.bind_some]
    rw [← hlist, hread, hfails]
    by_cases hfail : attributesFail false x.2.attributeList = true
    · simp [hfail]
    · have hempty := intercalate_eq_empty_iff x.2.passphrases_ne
      by_cases hnil : x.2.passphrases = [] <;> cases hecim : x.2.hasEcimPassword <;>
        simp [hfail, secretEntries, hnil, hecim, hempty]

section
variable {mapMocHandler : MocPathHandler}

theorem key_of_mem_secretEntries {x : String × Moc} {e : String × String} (he : e ∈ secretEntries x) :
    e.1 = x.1 ∨ e.1 = x.1 ++ ":EcimPassword" := by
  rcases List.mem_append.mp he with he | he
  · split at he
    · rw [List.mem_singleton.mp he]
      exact .inr rfl
    · cases he
  · split at he
    · cases he
    · rw [List.mem_singleton.mp he]
      exact .inl rfl

theorem colon_mem (mocPath : String) : ':' ∈ (mocPath ++ ":EcimPassword").toList := by
  rw [String.toList_append]
  exact List.mem_append_right _ (by decide)

theorem secretEntries_apart {x y : String × Moc} (hx : ':' ∉ x.1.toList) (hy : ':' ∉ y.1.toList) (hne : x.1 ≠ y.1) :
    ∀ e ∈ secretEntries x, ∀ e' ∈ secretEntries y, e.1 ≠ e'.1 := by
  intro e he e' he' heq
  rcases key_of_mem_secretEntries he with hk | hk <;> rcases key_of_mem_secretEntries he' with hk' | hk' <;>
    rw [hk, hk'] at heq
  · exact hne heq
  · exact hx (heq ▸ colon_mem y.1)
  · exact hy (heq ▸ colon_mem x.1)
  · rw [← String.toList_inj, String.toList_append, String.toList_append] at heq
    exact hne (String.toList_inj.mp (List.append_cancel_right heq))

theorem secretEntries_nodup {x : String × Moc} (hx : ':' ∉ x.1.toList) :
    ((secretEntries x).map Prod.fst).Nodup := by
  have hne : x.1 ++ ":EcimPassword" ≠ x.1 := by
    intro heq
    exact hx (heq ▸ colon_mem x.1)
  unfold secretEntries
  split <;> split <;> simp [hne]

theorem getSecretAttributes_eq (hnodup : (mapMocHandler.map Prod.fst).Nodup)
    (hcolon : ∀ x ∈ mapMocHandler, ':' ∉ x.1.toList) (hfails : ∀ x ∈ mapMocHandler, x.2.fails = false) :
    ∃ map, getSecretAttributesFromModelRepo mapMocHandler = some map ∧ Sorted map ∧
      map.Perm (mapMocHandler.flatMap secretEntries) := by
  refine ⟨(mapMocHandler.flatMap secretEntries).foldl (fun m e => put e.1 e.2 m) [], ?_, ?_, ?_⟩
  · unfold getSecretAttributesFromModelRepo
    rw [List.foldl_flatMap]
    generalize ([] : List (String × String)) = map
    clear hnodup hcolon
    induction mapMocHandler generalizing map with
    | nil => rfl
    | cons x xs ih =>
      rw [List.foldlM_cons, readMoc_eq, hfails x List.mem_cons_self, if_neg Bool.false_ne_true]
      exact ih (fun y hy => hfails y (List.mem_cons_of_mem x hy)) _
  · exact foldl_invariant (I := Sorted) (fun m e hm => sorted_put hm e.1 e.2) .nil _
  · refine foldl_put_perm (m := []) ?_
    rw [List.nil_append, List.map_flatMap, List.nodup_flatMap]
    refine ⟨fun x hx => secretEntries_nodup (hcolon x hx), ?_⟩
    refine (List.pairwise_map.mp hnodup).imp_of_mem fun {x y} hx hy hne => ?_
    intro key hkey hkey'
    obtain ⟨e, he, rfl⟩ := List.mem_map.mp hkey
    obtain ⟨e', he', heq⟩ := List.mem_map.mp hkey'
    exact secretEntries_apart (hcolon x hx) (hcolon y hy) hne e he e' he' heq.symm

theorem getSecretAttributes_none {x : String × Moc} (hx : x ∈ mapMocHandler) (hfails : x.2.fails = true) :
    getSecretAttributesFromModelRepo mapMocHandler = none := by
  rw [Option.eq_none_iff_forall_not_mem]
  intro map hmap
  obtain ⟨t, t', hstep⟩ := exists_step_of_foldlM hx hmap
  rw [readMoc_eq, if_pos hfails] at hstep
  cases hstep

end

end ComSA.Secrets
