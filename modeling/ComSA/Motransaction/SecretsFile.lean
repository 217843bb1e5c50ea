import ComSA.ComReencryptor.FileReaderUtil
import ComSA.Motransaction.ImmClassPath
import ComSA.Motransaction.SecretAttributes

/-!
# The file with the secrets of a model

`writeSecretsToFile` writes a line for each class path that has secret attributes and for each struct `EcimPassword`.
What is read from that file again, and which secrets are lost on the way.
-/

namespace ComSA.Secrets

open SortedMap Translator ComReencryptor

variable (p : Repositories) (mapMocHandler : MocPathHandler)

/-! ## Writing the file -/

inductive FileAfter where
  | untouched
  | removed
  | written (text : String)
  deriving DecidableEq, Repr

/-- The line for an entry; none where the class path has no counterpart in IMM. -/
def secretLine (e : String × String) : String :=
  let immPath := p.getImmPath e.1
  if immPath = "" then "" else immPath ++ ";" ++ e.2 ++ "\n"

def writeSecretsToFile (good : Bool) : FileAfter :=
  match getSecretAttributesFromModelRepo mapMocHandler with
  | none => .untouched
  | some mapMocpathToAttributes =>
    if good then .written (String.join (mapMocpathToAttributes.map (secretLine p))) else .removed

/-! ## What the file should carry -/

/-- What is read from the file is the secrets of the model, under the class paths in IMM. -/
structure Carries (encryptedAttrData : MocAttrData) : Prop where
  passphrases : ∀ x ∈ mapMocHandler, x.2.passphrases ≠ [] → (p.convertToImmPath x.1).1 ≠ "" ∧
    ∃ attrs, (commaNames (p.convertToImmPath x.1).1.toList, attrs) ∈ encryptedAttrData ∧
      x.2.passphrases ⊆ attrs
  ecimPassword : ∀ x ∈ mapMocHandler, x.2.hasEcimPassword = true → (p.convertToImmPath x.1).1 ≠ "" ∧
    ∃ attrs, (commaNames (p.convertToImmPath x.1).1.toList ++ [(p.convertToImmPath x.1).2 ++ ECIM_PASSWORD],
      attrs) ∈
      encryptedAttrData ∧ "password" ∈ attrs
  nothingElse : ∀ e ∈ encryptedAttrData, e.2 ≠ [] ∧ ∀ a ∈ e.2, ∃ x ∈ mapMocHandler,
    (p.convertToImmPath x.1).1 ≠ "" ∧
      (e.1 = commaNames (p.convertToImmPath x.1).1.toList ∧ a ∈ x.2.passphrases ∨
        e.1 = commaNames (p.convertToImmPath x.1).1.toList ++ [(p.convertToImmPath x.1).2 ++ ECIM_PASSWORD] ∧
          x.2.hasEcimPassword = true ∧ a = "password")

/-- A call to the model repository fails for the class, the `getNext` behind the last attribute included. -/
def Moc.CallFails (m : Moc) : Prop := m.fails = true ∨ m.ended ≠ .notExist

/-- The file is left alone where a call fails, and carries the secrets otherwise. -/
structure SecretsCarried : Prop where
  failed : (∃ x ∈ mapMocHandler, x.2.CallFails) → writeSecretsToFile p mapMocHandler true = .untouched
  carried : (∀ x ∈ mapMocHandler, ¬ x.2.CallFails) →
    ∃ text, writeSecretsToFile p mapMocHandler true = .written text ∧ Carries p mapMocHandler (parseImmFile text)

/-! ## Where it carries them -/

/-- Each class path with a secret has a counterpart in IMM, no name has a line break, and of the class paths with one
counterpart the last one has the attributes of all. -/
structure Kept : Prop where
  translated : ∀ e ∈ mapMocHandler.flatMap secretEntries, p.getImmPath e.1 ≠ ""
  lines : ∀ e ∈ mapMocHandler.flatMap secretEntries, '\n' ∉ (p.getImmPath e.1).toList ∧ '\n' ∉ e.2.toList
  lastHasAll : ∀ e ∈ mapMocHandler.flatMap secretEntries, ∀ last ∈ mapMocHandler.flatMap secretEntries,
    commaNames (p.getImmPath e.1).toList = commaNames (p.getImmPath last.1).toList →
      (∀ e' ∈ mapMocHandler.flatMap secretEntries,
        commaNames (p.getImmPath e'.1).toList = commaNames (p.getImmPath last.1).toList → e'.1 ≤ last.1) →
          commaNames e.2.toList ⊆ commaNames last.2.toList

/-- A failing call is noticed unless it is the `getNext` behind the last attribute of a class. -/
structure Carriable : Prop where
  noticed : (∃ x ∈ mapMocHandler, x.2.CallFails) → ∃ x ∈ mapMocHandler, x.2.fails = true
  kept : (∀ x ∈ mapMocHandler, ¬ x.2.CallFails) → Kept p mapMocHandler

structure PlainNames : Prop where
  distinct : (mapMocHandler.map Prod.fst).Nodup
  mocPaths : ∀ x ∈ mapMocHandler, ':' ∉ x.1.toList
  attributes : ∀ x ∈ mapMocHandler, ∀ n ∈ x.2.passphrases, ',' ∉ n.toList
  moms : p.theKeyHolder.PlainMoms

variable {p mapMocHandler}

/-! ## The class paths of the entries -/

theorem ne_colon {mocPath : String} (h : ':' ∉ mocPath.toList) : ∀ c ∈ mocPath.toList, decide (c ≠ ':') = true :=
  fun _ hc => decide_eq_true (ne_of_mem_of_not_mem hc h)

theorem getStructAndMocPathName_path {mocPath : String} (h : ':' ∉ mocPath.toList) :
    Repositories.getStructAndMocPathName mocPath = (mocPath, "") := by
  unfold Repositories.getStructAndMocPathName
  rw [List.takeWhile_eq_self_iff.mpr (ne_colon h), List.dropWhile_eq_nil_iff.mpr (ne_colon h)]
  simp

theorem getStructAndMocPathName_struct {mocPath : String} (h : ':' ∉ mocPath.toList) :
    Repositories.getStructAndMocPathName (mocPath ++ ":EcimPassword") = (mocPath, ECIM_PASSWORD) := by
  have hlist : (mocPath ++ ":EcimPassword").toList = mocPath.toList ++ ':' :: ECIM_PASSWORD.toList := by
    rw [String.toList_append]
    rfl
  unfold Repositories.getStructAndMocPathName
  rw [hlist, List.takeWhile_append_of_pos (ne_colon h), List.dropWhile_append_of_pos (ne_colon h)]
  simp

theorem getImmPath_path {mocPath : String} (h : ':' ∉ mocPath.toList) :
    p.getImmPath mocPath = (p.convertToImmPath mocPath).1 := by
  unfold Repositories.getImmPath
  rw [getStructAndMocPathName_path h]
  simp

theorem getImmPath_struct {mocPath : String} (h : ':' ∉ mocPath.toList) :
    p.getImmPath (mocPath ++ ":EcimPassword") =
      if (p.convertToImmPath mocPath).1 = "" then ""
      else (p.convertToImmPath mocPath).1 ++ "," ++ (p.convertToImmPath mocPath).2 ++ ECIM_PASSWORD := by
  have hname : ECIM_PASSWORD ≠ "" := by decide
  unfold Repositories.getImmPath
  rw [getStructAndMocPathName_struct h]
  by_cases hpath : (p.convertToImmPath mocPath).1 = "" <;> simp [hpath, hname]

theorem commaNames_getImmPath_struct (hplain : p.theKeyHolder.PlainMoms) {mocPath : String}
    (h : ':' ∉ mocPath.toList)
    (hpath : (p.convertToImmPath mocPath).1 ≠ "") :
    commaNames (p.getImmPath (mocPath ++ ":EcimPassword")).toList =
      commaNames (p.convertToImmPath mocPath).1.toList ++ [(p.convertToImmPath mocPath).2 ++ ECIM_PASSWORD] := by
  have hhead := (Repositories.convertToImmPath_plain hplain mocPath).2 ',' (by simp)
  have hstruct : ',' ∉ ((p.convertToImmPath mocPath).2 ++ ECIM_PASSWORD).toList := by
    rw [String.toList_append, List.mem_append, not_or]
    exact ⟨hhead, by decide⟩
  have hne : ((p.convertToImmPath mocPath).2 ++ ECIM_PASSWORD).toList ≠ [] := by
    have hname : ECIM_PASSWORD ≠ "" := by decide
    simp [hname]
  have hlist : (p.getImmPath (mocPath ++ ":EcimPassword")).toList =
      (p.convertToImmPath mocPath).1.toList ++ ',' :: ((p.convertToImmPath mocPath).2 ++ ECIM_PASSWORD).toList := by
    rw [getImmPath_struct h, if_neg hpath]
    simp
  unfold commaNames
  rw [hlist, tokens_append_cons, tokens_of_notMem hne hstruct, List.map_append]
  simp

theorem getImmPath_semicolon (hplain : p.theKeyHolder.PlainMoms) {x : String × Moc} (hx : ':' ∉ x.1.toList)
    {e : String × String} (he : e ∈ secretEntries x) : ';' ∉ (p.getImmPath e.1).toList := by
  obtain ⟨hpath, hhead⟩ := Repositories.convertToImmPath_plain hplain x.1
  rcases key_of_mem_secretEntries he with hk | hk
  · rw [hk, getImmPath_path hx]
    exact hpath
  · rw [hk, getImmPath_struct hx]
    split
    · simp
    · have hname : ';' ∉ ECIM_PASSWORD.toList := by decide
      simpa [hname] using ⟨hpath, hhead ';' (by simp)⟩

/-! ## The entries of a class -/

theorem passphrases_mem_secretEntries {x : String × Moc} (h : x.2.passphrases ≠ []) :
    (x.1, ",".intercalate x.2.passphrases) ∈ secretEntries x := by
  simp [secretEntries, h]

theorem ecimPassword_mem_secretEntries {x : String × Moc} (h : x.2.hasEcimPassword = true) :
    (x.1 ++ ":EcimPassword", "password") ∈ secretEntries x := by
  simp [secretEntries, h]

theorem mem_secretEntries {x : String × Moc} {e : String × String} (he : e ∈ secretEntries x) :
    x.2.hasEcimPassword = true ∧ e = (x.1 ++ ":EcimPassword", "password") ∨
      x.2.passphrases ≠ [] ∧ e = (x.1, ",".intercalate x.2.passphrases) := by
  rcases List.mem_append.mp he with he | he
  · split at he <;> rename_i hecim
    · exact .inl ⟨hecim, List.mem_singleton.mp he⟩
    · cases he
  · split at he <;> rename_i hnil
    · cases he
    · exact .inr ⟨hnil, List.mem_singleton.mp he⟩

theorem commaNames_password : commaNames "password".toList = ["password"] := by decide

/-! ## The file of the entries -/

section
variable {map : List (String × String)}

def readBack (p : Repositories) (map : List (String × String)) : MocAttrData :=
  map.foldl (fun data e => put (commaNames (p.getImmPath e.1).toList) (commaNames e.2.toList) data) []

theorem parseImmFile_secretLines (hplain : PlainNames p mapMocHandler)
    (hmap : map.Perm (mapMocHandler.flatMap secretEntries))
    (htranslated : ∀ e ∈ mapMocHandler.flatMap secretEntries, p.getImmPath e.1 ≠ "")
    (hlines : ∀ e ∈ mapMocHandler.flatMap secretEntries, '\n' ∉ (p.getImmPath e.1).toList ∧ '\n' ∉ e.2.toList) :
    parseImmFile (String.join (map.map (secretLine p))) = readBack p map := by
  have hline : map.map (secretLine p) = map.map fun e => p.getImmPath e.1 ++ ";" ++ e.2 ++ "\n" := by
    apply List.map_congr_left
    intro e he
    unfold secretLine
    rw [if_neg (htranslated e (hmap.mem_iff.mp he))]
  have hsemicolon : ∀ e ∈ map, ';' ∉ (p.getImmPath e.1).toList := by
    intro e he
    obtain ⟨x, hx, he⟩ := List.mem_flatMap.mp (hmap.mem_iff.mp he)
    exact getImmPath_semicolon hplain.moms (hplain.mocPaths x hx) he
  rw [hline]
  unfold readBack
  apply parseImmFile_lines (fun e : String × String => p.getImmPath e.1) Prod.snd
  · intro e he
    exact htranslated e (hmap.mem_iff.mp he)
  · exact hsemicolon
  · intro e he
    exact hlines e (hmap.mem_iff.mp he)

theorem mem_readBack (hsorted : Sorted map) (hmap : map.Perm (mapMocHandler.flatMap secretEntries))
    (x : List String × List String) :
    x ∈ readBack p map ↔
      ∃ last ∈ mapMocHandler.flatMap secretEntries,
        (∀ e ∈ mapMocHandler.flatMap secretEntries,
          commaNames (p.getImmPath e.1).toList = commaNames (p.getImmPath last.1).toList → e.1 ≤ last.1) ∧
          x = (commaNames (p.getImmPath last.1).toList, commaNames last.2.toList) := by
  have hmem := mem_foldl_put hsorted (fun e => commaNames (p.getImmPath e.1).toList)
    (fun e => commaNames e.2.toList) x
  simp only [hmap.mem_iff] at hmem
  exact hmem

end

/-! ## What is carried -/

theorem listed_iff (hplain : PlainNames p mapMocHandler) (data : MocAttrData) {x : String × Moc}
    (hx : x ∈ mapMocHandler) :
    (∀ e ∈ secretEntries x, p.getImmPath e.1 ≠ "" ∧
      ∃ attrs, (commaNames (p.getImmPath e.1).toList, attrs) ∈ data ∧ commaNames e.2.toList ⊆ attrs) ↔
    (x.2.passphrases ≠ [] → (p.convertToImmPath x.1).1 ≠ "" ∧
      ∃ attrs, (commaNames (p.convertToImmPath x.1).1.toList, attrs) ∈ data ∧ x.2.passphrases ⊆ attrs) ∧
    (x.2.hasEcimPassword = true → (p.convertToImmPath x.1).1 ≠ "" ∧
      ∃ attrs, (commaNames (p.convertToImmPath x.1).1.toList ++ [(p.convertToImmPath x.1).2 ++ ECIM_PASSWORD],
        attrs) ∈
        data ∧ "password" ∈ attrs) := by
  have hcolon := hplain.mocPaths x hx
  have hphrases : commaNames (",".intercalate x.2.passphrases).toList = x.2.passphrases :=
    commaNames_intercalate (hplain.attributes x hx) x.2.passphrases_ne
  constructor
  · intro h
    constructor
    · intro hne
      have hlisted := h _ (passphrases_mem_secretEntries hne)
      rw [hphrases, getImmPath_path hcolon] at hlisted
      exact hlisted
    · intro hecim
      have hlisted := h _ (ecimPassword_mem_secretEntries hecim)
      have hpath : (p.convertToImmPath x.1).1 ≠ "" := by
        intro hempty
        rw [getImmPath_struct hcolon, if_pos hempty] at hlisted
        exact hlisted.1 rfl
      rw [commaNames_getImmPath_struct hplain.moms hcolon hpath, commaNames_password] at hlisted
      obtain ⟨-, attrs, hattrs, hsub⟩ := hlisted
      exact ⟨hpath, attrs, hattrs, hsub (List.mem_singleton.mpr rfl)⟩
  · rintro ⟨hpassphrases, hecimPassword⟩ e he
    rcases mem_secretEntries he with ⟨hecim, rfl⟩ | ⟨hne, rfl⟩
    · obtain ⟨hpath, attrs, hattrs, hpassword⟩ := hecimPassword hecim
      dsimp only
      rw [commaNames_getImmPath_struct hplain.moms hcolon hpath, commaNames_password, getImmPath_struct hcolon,
        if_neg hpath]
      refine ⟨by simp, attrs, hattrs, ?_⟩
      simpa using hpassword
    · dsimp only
      rw [hphrases, getImmPath_path hcolon]
      exact hpassphrases hne

theorem nothingElse_readBack (hplain : PlainNames p mapMocHandler) {map : List (String × String)}
    (hsorted : Sorted map)
    (hmap : map.Perm (mapMocHandler.flatMap secretEntries))
    (htranslated : ∀ e ∈ mapMocHandler.flatMap secretEntries, p.getImmPath e.1 ≠ "") :
    ∀ e ∈ readBack p map, e.2 ≠ [] ∧ ∀ a ∈ e.2, ∃ x ∈ mapMocHandler, (p.convertToImmPath x.1).1 ≠ "" ∧
      (e.1 = commaNames (p.convertToImmPath x.1).1.toList ∧ a ∈ x.2.passphrases ∨
        e.1 = commaNames (p.convertToImmPath x.1).1.toList ++ [(p.convertToImmPath x.1).2 ++ ECIM_PASSWORD] ∧
          x.2.hasEcimPassword = true ∧ a = "password") := by
  intro e he
  obtain ⟨last, hlast, -, rfl⟩ := (mem_readBack hsorted hmap e).mp he
  have hne := htranslated last hlast
  obtain ⟨x, hx, hlast⟩ := List.mem_flatMap.mp hlast
  have hcolon := hplain.mocPaths x hx
  dsimp only
  rcases mem_secretEntries hlast with ⟨hecim, rfl⟩ | ⟨hphrases, rfl⟩
  · have hpath : (p.convertToImmPath x.1).1 ≠ "" := by
      intro hempty
      rw [getImmPath_struct hcolon, if_pos hempty] at hne
      exact hne rfl
    rw [commaNames_getImmPath_struct hplain.moms hcolon hpath, commaNames_password]
    refine ⟨by simp, fun a ha => ⟨x, hx, hpath, .inr ⟨rfl, hecim, List.mem_singleton.mp ha⟩⟩⟩
  · rw [getImmPath_path hcolon] at hne
    rw [getImmPath_path hcolon, commaNames_intercalate (hplain.attributes x hx) x.2.passphrases_ne]
    exact ⟨hphrases, fun a ha => ⟨x, hx, hne, .inl ⟨rfl, ha⟩⟩⟩

theorem listed_readBack (hkept : Kept p mapMocHandler) {map : List (String × String)} (hsorted : Sorted map)
    (hmap : map.Perm (mapMocHandler.flatMap secretEntries)) :
    ∀ e ∈ mapMocHandler.flatMap secretEntries,
      ∃ attrs, (commaNames (p.getImmPath e.1).toList, attrs) ∈ readBack p map ∧ commaNames e.2.toList ⊆ attrs := by
  intro e he
  let same := map.filter fun e' => commaNames (p.getImmPath e'.1).toList = commaNames (p.getImmPath e.1).toList
  have hsame : e ∈ same := List.mem_filter.mpr ⟨hmap.mem_iff.mpr he, by simp⟩
  obtain ⟨last, hlast, hmax⟩ := exists_highest (hsorted.filter _ : Sorted same) (List.ne_nil_of_mem hsame)
  obtain ⟨hlast, hkey⟩ := List.mem_filter.mp hlast
  have hkey := of_decide_eq_true hkey
  have hlast := hmap.mem_iff.mp hlast
  have hhighest : ∀ e' ∈ mapMocHandler.flatMap secretEntries,
      commaNames (p.getImmPath e'.1).toList = commaNames (p.getImmPath last.1).toList → e'.1 ≤ last.1 := by
    intro e' he' hkey'
    exact hmax e' (List.mem_filter.mpr ⟨hmap.mem_iff.mpr he', decide_eq_true (hkey'.trans hkey)⟩)
  refine ⟨commaNames last.2.toList, (mem_readBack hsorted hmap _).mpr ⟨last, hlast, hhighest, ?_⟩, ?_⟩
  · rw [hkey]
  · exact hkept.lastHasAll e he last hlast hkey.symm hhighest

theorem carries_of_kept (hplain : PlainNames p mapMocHandler) (hkept : Kept p mapMocHandler)
    {map : List (String × String)} (hsorted : Sorted map) (hmap : map.Perm (mapMocHandler.flatMap secretEntries)) :
    Carries p mapMocHandler (parseImmFile (String.join (map.map (secretLine p)))) := by
  rw [parseImmFile_secretLines hplain hmap hkept.translated hkept.lines]
  have hlisted (x) (hx : x ∈ mapMocHandler) := (listed_iff hplain (readBack p map) hx).mp fun e he =>
    have he' := List.mem_flatMap.mpr ⟨x, hx, he⟩
    ⟨hkept.translated e he', listed_readBack hkept hsorted hmap e he'⟩
  exact ⟨fun x hx => (hlisted x hx).1, fun x hx => (hlisted x hx).2,
    nothingElse_readBack hplain hsorted hmap hkept.translated⟩

theorem kept_of_carries (hplain : PlainNames p mapMocHandler) {map : List (String × String)} (hsorted : Sorted map)
    (hmap : map.Perm (mapMocHandler.flatMap secretEntries))
    (hcarries : Carries p mapMocHandler (parseImmFile (String.join (map.map (secretLine p))))) :
    Kept p mapMocHandler := by
  have hlisted : ∀ e ∈ mapMocHandler.flatMap secretEntries, p.getImmPath e.1 ≠ "" ∧
      ∃ attrs, (commaNames (p.getImmPath e.1).toList, attrs) ∈ parseImmFile (String.join (map.map (secretLine p))) ∧
        commaNames e.2.toList ⊆ attrs := by
    intro e he
    obtain ⟨x, hx, he⟩ := List.mem_flatMap.mp he
    exact (listed_iff hplain _ hx).mpr ⟨hcarries.passphrases x hx, hcarries.ecimPassword x hx⟩ e he
  have htranslated : ∀ e ∈ mapMocHandler.flatMap secretEntries, p.getImmPath e.1 ≠ "" := fun e he =>
    (hlisted e he).1
  have hlines : ∀ e ∈ mapMocHandler.flatMap secretEntries,
      '\n' ∉ (p.getImmPath e.1).toList ∧ '\n' ∉ e.2.toList := by
    intro e he
    obtain ⟨-, attrs, hattrs, hsub⟩ := hlisted e he
    have hbreak := parseImmFile_break hattrs
    constructor
    · intro hmem
      obtain ⟨n, hn, hnbreak⟩ := exists_mem_commaNames hmem (by decide)
      exact hbreak n (List.mem_append_left _ hn) hnbreak
    · intro hmem
      obtain ⟨n, hn, hnbreak⟩ := exists_mem_commaNames hmem (by decide)
      exact hbreak n (List.mem_append_right _ (hsub hn)) hnbreak
  rw [parseImmFile_secretLines hplain hmap htranslated hlines] at hlisted
  refine ⟨htranslated, hlines, ?_⟩
  intro e he last hlast hkey hmax
  obtain ⟨-, attrs, hattrs, hsub⟩ := hlisted e he
  obtain ⟨last', hlast', hmax', heq⟩ := (mem_readBack hsorted hmap _).mp hattrs
  obtain ⟨hkey', rfl⟩ := Prod.ext_iff.mp heq
  dsimp only at hkey'
  have hsame : last'.1 = last.1 :=
    le_antisymm (hmax last' hlast' (hkey'.symm.trans hkey)) (hmax' last hlast (hkey.symm.trans hkey'))
  have hlast_eq : last' = last :=
    List.inj_on_of_nodup_map (nodup_keys hsorted) (hmap.mem_iff.mpr hlast') (hmap.mem_iff.mpr hlast) hsame
  rw [hlast_eq] at hsub
  exact hsub

/-! ## A class below two parents -/

/-- The classes `X` below `F1` and below `F2` are roots where the DN splits, with one name in IMM. -/
def sharedImmClass : Repositories where
  repository := {
    myMOMRootMap := [("F1X", ["F1", "ManagedElement"]), ("F2X", ["F2", "ManagedElement"])]
    theKeyHolder := {
      momOamSAKeyMOMRepoMAP := [
        ("F1_X", { keyAttributeMap := [("X", "xId", "")], classNameMap := [("xId", "X")], rootClassName := "X" }),
        ("F2_X", { keyAttributeMap := [("X", "xId", "")], classNameMap := [("xId", "X")], rootClassName := "X" })]
      momOamSAKeyMOMRepoMAP_immKey := [("xId", "F2_X")] } }
  registeredParentMOCWithMOMVALUESet := []
  registeredDecoratedIMMKeyAttributes := []

def passphrase (name : String) : Attribute where
  typeContainer := some ⟨some .string, some (some true), none⟩
  name := some (some name)

def sharedPath : MocPathHandler :=
  [("ManagedElement,F1,X", ⟨some (passphrase "secret1", []), .notExist, by decide⟩),
   ("ManagedElement,F2,X", ⟨some (passphrase "secret2", []), .notExist, by decide⟩)]

theorem plainMoms_shared : sharedImmClass.theKeyHolder.PlainMoms := by
  have hnames : ∀ m ∈ sharedImmClass.theKeyHolder.emptyMOM ::
      sharedImmClass.theKeyHolder.momOamSAKeyMOMRepoMAP.map Prod.snd,
        ([',', ';'].all fun c => c ∉ m.momName.toList ∧ ∀ e ∈ m.classNameMap, c ∉ e.2.toList) = true := by
    decide
  have hmoms : ∀ m ∈ sharedImmClass.theKeyHolder.emptyMOM ::
      sharedImmClass.theKeyHolder.momOamSAKeyMOMRepoMAP.map Prod.snd, m.Plain := fun m hm c hc =>
    of_decide_eq_true (List.all_eq_true.mp (hnames m hm) c hc)
  exact ⟨hmoms _ List.mem_cons_self, fun e he => hmoms _ (List.mem_cons_of_mem _ (List.mem_map_of_mem he))⟩

theorem plainNames_shared : PlainNames sharedImmClass sharedPath where
  distinct := by decide
  mocPaths := by decide
  attributes := by decide
  moms := plainMoms_shared

def nestedPath : MocPathHandler :=
  [("ManagedElement,F1,X", ⟨some (passphrase "secret1", []), .notExist, by decide⟩),
   ("ManagedElement,F2,X", ⟨some (passphrase "secret1", [passphrase "secret2"]), .notExist, by decide⟩)]

theorem plainNames_nested : PlainNames sharedImmClass nestedPath where
  distinct := by decide
  mocPaths := by decide
  attributes := by decide
  moms := plainMoms_shared

theorem carriable_nested : Carriable sharedImmClass nestedPath where
  noticed := by
    unfold Moc.CallFails
    decide
  kept _ := ⟨by decide +kernel, by decide +kernel, by decide +kernel⟩

def zeroes (classes : List String)
    (h : ∀ c ∈ classes, c ≠ "" ∧ '=' ∉ c.toList ∧ '.' ∉ c.toList) (hne : classes ≠ []) : MoName where
  fragments := classes.attach.map fun c => ⟨c.1, "0", (h c.1 c.2).1, (h c.1 c.2).2, by decide⟩
  nonempty := by simpa using hne

def firstShared : MoName := zeroes ["ManagedElement", "F1", "X"] (by decide) (by decide)

theorem firstShared_foundAgain : sharedImmClass.FoundAgain firstShared where
  straight := {
    root_once := by decide
    fallback := by decide
    has_key := by decide
    splits_below_top := by decide
    no_dots := by decide
    one_decorated := by decide }
  plain := by decide
  found := by
    refine ⟨by decide, .inr ⟨nofun, by decide⟩, trivial⟩

/-! ## The result -/

theorem writeSecretsToFile_eq (hplain : PlainNames p mapMocHandler)
    (hfails : ∀ x ∈ mapMocHandler, x.2.fails = false) :
    ∃ map, Sorted map ∧ map.Perm (mapMocHandler.flatMap secretEntries) ∧
      writeSecretsToFile p mapMocHandler true = .written (String.join (map.map (secretLine p))) := by
  obtain ⟨map, hmap, hsorted, hperm⟩ := getSecretAttributes_eq hplain.distinct hplain.mocPaths hfails
  refine ⟨map, hsorted, hperm, ?_⟩
  unfold writeSecretsToFile
  rw [hmap]
  rfl

theorem writeSecretsToFile_of_fails {x : String × Moc} (hx : x ∈ mapMocHandler) (hfails : x.2.fails = true)
    (good : Bool) : writeSecretsToFile p mapMocHandler good = .untouched := by
  unfold writeSecretsToFile
  rw [getSecretAttributes_none hx hfails]

/-- The file carries the secrets of the model unless one of them is lost on the way or a call fails unnoticed. The class
path in IMM is that of the classes from the lowest root where the DN splits, where no key attribute misleads. -/
theorem secretsCarried_iff (hplain : PlainNames p mapMocHandler) :
    (SecretsCarried p mapMocHandler ↔ Carriable p mapMocHandler) ∧
      ∀ (d : MoName) (mocPath : String), Repositories.MockOf d mocPath → p.FoundAgain d →
        p.convertToImmPath mocPath = (",".intercalate (p.immClasses d), p.lastPrefix d) := by
  refine ⟨?_, fun d mocPath h hfound => Repositories.convertToImmPath_eq h hfound⟩
  constructor
  · intro h
    constructor
    · intro hfailed
      by_contra hnone
      have hfails : ∀ x ∈ mapMocHandler, x.2.fails = false := by
        intro x hx
        by_contra hx'
        exact hnone ⟨x, hx, by simpa using hx'⟩
      obtain ⟨map, -, -, hwritten⟩ := writeSecretsToFile_eq hplain hfails
      rw [h.failed hfailed] at hwritten
      cases hwritten
    · intro hcalls
      have hfails : ∀ x ∈ mapMocHandler, x.2.fails = false := fun x hx => by
        simpa using not_or.mp (hcalls x hx) |>.1
      obtain ⟨map, hsorted, hmap, hwritten⟩ := writeSecretsToFile_eq hplain hfails
      obtain ⟨text, htext, hcarries⟩ := h.carried hcalls
      rw [hwritten] at htext
      cases htext
      exact kept_of_carries hplain hsorted hmap hcarries
  · intro h
    constructor
    · intro hfailed
      obtain ⟨x, hx, hfails⟩ := h.noticed hfailed
      exact writeSecretsToFile_of_fails hx hfails true
    · intro hcalls
      have hfails : ∀ x ∈ mapMocHandler, x.2.fails = false := fun x hx => by
        simpa using not_or.mp (hcalls x hx) |>.1
      obtain ⟨map, hsorted, hmap, hwritten⟩ := writeSecretsToFile_eq hplain hfails
      exact ⟨_, hwritten, carries_of_kept hplain (h.kept hcalls) hsorted hmap⟩

theorem secretsCarried_iff_shared :
    SecretsCarried sharedImmClass nestedPath ∧
      sharedImmClass.convertToImmPath "ManagedElement,F1,X" =
        (",".intercalate (sharedImmClass.immClasses firstShared), sharedImmClass.lastPrefix firstShared) := by
  obtain ⟨hiff, hpath⟩ := secretsCarried_iff plainNames_nested
  exact ⟨hiff.mpr carriable_nested, hpath firstShared _ ⟨by decide, by decide, by decide⟩ firstShared_foundAgain⟩

/-- The pass phrase of the class below `F1` is lost. -/
theorem not_secretsCarried :
    ¬ ∀ (p : Repositories) (mapMocHandler : MocPathHandler), PlainNames p mapMocHandler →
      SecretsCarried p mapMocHandler := by
  intro h
  have hcalls : ∀ x ∈ sharedPath, ¬ x.2.CallFails := by
    unfold Moc.CallFails
    decide
  obtain ⟨text, htext, hcarries⟩ := (h sharedImmClass sharedPath plainNames_shared).carried hcalls
  have hwritten : writeSecretsToFile sharedImmClass sharedPath true = .written "X;secret1\nX;secret2\n" := by decide
  rw [hwritten] at htext
  obtain rfl := FileAfter.written.inj htext
  obtain ⟨-, attrs, hattrs, hsub⟩ := hcarries.passphrases _ List.mem_cons_self (by decide)
  have hread : parseImmFile "X;secret1\nX;secret2\n" = [(["X"], ["secret2"])] := by decide
  rw [hread] at hattrs
  have hnames := (Prod.ext_iff.mp (List.mem_singleton.mp hattrs)).2
  dsimp only at hnames
  have hlost : "secret1" ∈ attrs := hsub (by decide)
  rw [hnames] at hlost
  exact absurd hlost (by decide)

end ComSA.Secrets
