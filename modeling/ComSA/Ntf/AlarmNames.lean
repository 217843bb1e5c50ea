import ComSA.Lib.Cut
import ComSA.Lib.FirstOccurrence
import ComSA.Ntf.AdditionalInfo
import ComSA.Utils.SaName

/-!
# The names of alarming objects

An alarm of COM names its object as 3GPP does, and an alarm of NTF as IMM does. LM names its licences in a way of its
own.
-/

namespace ComSA.Alarm

open SaName (OldSaNameT saMaxUnextendedNameLength)

/-! ## Strings -/

def Text.ofChars (s : List Char) : Text := ⟨s.takeWhile (· ≠ nul), notMem_takeWhile nul s⟩

theorem Text.ofChars_of_nulFree {s : List Char} (h : nul ∉ s) : Text.ofChars s = ⟨s, h⟩ := by
  unfold Text.ofChars
  simp only [takeWhile_of_notMem h]

def contains (t s : List Char) : Bool := (fromFirst t s).isSome

def modifyDN (str2replace newStr my3GPPName : List Char) : List Char := replaceFirst str2replace newStr my3GPPName

/-! ## From IMM -/

structure NameEnv where
  MO2Imm_DN : Text → Text
  Imm2MO_DN : Text → Option Text

variable (env : NameEnv)

def safSi : List Char := ",SafSi=".toList
def safNode : List Char := ",SafNode=".toList
def managedElement : List Char := "ManagedElement=".toList

def handleCeaseAlarms (my3GPPName : List Char) : List Char :=
  let my3GPPName :=
    if contains safSi my3GPPName then
      modifyDN "SafApp=".toList "SaAmfApplication.safApp=".toList
        (modifyDN safSi ",SaAmfSI.safSi=".toList my3GPPName)
    else my3GPPName
  modifyDN safNode ",SaClmNode.safNode=".toList my3GPPName

def convertTo3Gpp (theImmName : Text) : Option Text :=
  (env.Imm2MO_DN theImmName).map fun my3GPPName =>
    let my3GPPName := handleCeaseAlarms my3GPPName.chars
    Text.ofChars (if contains managedElement my3GPPName then my3GPPName else "ManagedElement=1,".toList ++ my3GPPName)

def convertTo3GPPDN (no : Text) : Option Text :=
  if 4 ≤ no.chars.length ∧ no.chars.take 4 = "3GPP".toList then some (Text.ofChars (no.chars.drop 4))
  else convertTo3Gpp env no

/-! ## To IMM -/

def nameOf (name : OldSaNameT) : Text := Text.ofChars (SaName.saNameGet name)

def setName (s : Text) : Option Text := (SaName.saNameSet (Buffer.ofString nul s)).map fun r => nameOf r.2

/-- `none` for `false`. There is no result where the name is written beyond its end. -/
def convertToImm (the3GppDN : Text) : Option (Option Text) :=
  let dn := env.MO2Imm_DN the3GppDN
  if dn.chars.length ≤ saMaxUnextendedNameLength then (setName dn).map some else some none

def licenseIdStr : List Char := "licenseId=".toList
def lmClassStr : List Char := ",lmId=1,systemFunctionsId=1".toList

/-- The name of a licence in IMM, if the name has one behind its last `=`. -/
def licenseName (immDn : List Char) : Option (List Char) :=
  match fromFirst licenseIdStr immDn with
  | none => none
  | some theString =>
    let value := (theString.dropWhile (· ≠ '=')).tail
    if '=' ∈ value then none else some (licenseIdStr ++ value ++ lmClassStr)

/-- `none` in the result for `DN_IMM`. The buffer has the size of the name that comes in. -/
def removeMOMPrefix (immDn : Text) : Option (Option (List Char × Nat)) :=
  match licenseName immDn.chars with
  | none => some none
  | some theString => do
    let size := theString.length
    let prefixImmDN ← Buffer.store 0 theString (List.replicate (immDn.chars.length + 1) nul)
    let prefixImmDN ← Buffer.store (size + 1) [nul] prefixImmDN
    some (some (prefixImmDN, size))

def licenseObject (dn : Text) : Option (Option Text) := do
  match ← removeMOMPrefix dn with
  | none => convertToImm env dn
  | some (immDn, size) =>
    let (_, name) ← SaName.saNameSetLen immDn (UInt32.ofNat size)
    some (some (nameOf name))

/-! ## Names that come back -/

section
variable {env}

theorem contains_iff {t s : List Char} : contains t s = true ↔ t <:+: s := fromFirst_isSome_iff

theorem length_handleCeaseAlarms (s : List Char) :
    s.length ≤ (handleCeaseAlarms s).length ∧
    (safSi <:+: s ∨ safNode <:+: s → s.length < (handleCeaseAlarms s).length) := by
  have hlonger (t new s : List Char) (h : t.length < new.length) := length_replaceFirst h s
  have hSi (s : List Char) := hlonger safSi ",SaAmfSI.safSi=".toList s (by decide)
  have hApp (s : List Char) := hlonger "SafApp=".toList "SaAmfApplication.safApp=".toList s (by decide)
  have hNode (s : List Char) := hlonger safNode ",SaClmNode.safNode=".toList s (by decide)
  unfold handleCeaseAlarms modifyDN
  by_cases h : safSi <:+: s
  · simp only [contains_iff, h, if_true]
    have h1 := (hSi s).2 h
    have h2 := (hApp (replaceFirst safSi ",SaAmfSI.safSi=".toList s)).1
    have h3 := (hNode (replaceFirst "SafApp=".toList "SaAmfApplication.safApp=".toList
      (replaceFirst safSi ",SaAmfSI.safSi=".toList s))).1
    exact ⟨by omega, fun _ => by omega⟩
  · simp only [contains_iff, h, if_false, false_or]
    exact hNode s

theorem handleCeaseAlarms_of_plain {s : List Char} (hSi : ¬ safSi <:+: s) (hNode : ¬ safNode <:+: s) :
    handleCeaseAlarms s = s := by
  unfold handleCeaseAlarms modifyDN
  simp only [contains_iff, hSi, if_false]
  exact replaceFirst_of_absent hNode _

theorem nul_notMem_handleCeaseAlarms {s : List Char} (h : nul ∉ s) : nul ∉ handleCeaseAlarms s := by
  have hreplace {t new s : List Char} (hnew : nul ∉ new) (hs : nul ∉ s) : nul ∉ replaceFirst t new s :=
    fun hmem => (mem_replaceFirst hmem).elim hs hnew
  unfold handleCeaseAlarms modifyDN
  refine hreplace (by decide) ?_
  split
  · exact hreplace (by decide) (hreplace (by decide) h)
  · exact h

theorem convertTo3Gpp_iff {imm dn : Text} (h : env.Imm2MO_DN imm = some dn) :
    convertTo3Gpp env imm = some dn ↔
      managedElement <:+: dn.chars ∧ ¬ safSi <:+: dn.chars ∧ ¬ safNode <:+: dn.chars := by
  have hnul := nul_notMem_handleCeaseAlarms dn.nulFree
  have hlength := length_handleCeaseAlarms dn.chars
  unfold convertTo3Gpp
  rw [h, Option.map_some, Option.some_inj]
  dsimp only
  constructor
  · intro heq
    have hchars := congrArg CString.chars heq
    by_cases hmanaged : managedElement <:+: handleCeaseAlarms dn.chars
    · rw [if_pos (contains_iff.mpr hmanaged), Text.ofChars_of_nulFree hnul] at hchars
      have hplain : ¬ (safSi <:+: dn.chars ∨ safNode <:+: dn.chars) := fun hin => by
        have hlonger := hlength.2 hin
        rw [show handleCeaseAlarms dn.chars = dn.chars from hchars] at hlonger
        omega
      rw [show handleCeaseAlarms dn.chars = dn.chars from hchars] at hmanaged
      exact ⟨hmanaged, fun hSi => hplain (.inl hSi), fun hNode => hplain (.inr hNode)⟩
    · have hprefixed : nul ∉ "ManagedElement=1,".toList ++ handleCeaseAlarms dn.chars := fun hmem =>
        (List.mem_append.mp hmem).elim (by decide) hnul
      rw [if_neg fun hin => hmanaged (contains_iff.mp hin), Text.ofChars_of_nulFree hprefixed] at hchars
      have hcount := congrArg List.length hchars
      rw [List.length_append] at hcount
      have : "ManagedElement=1,".toList.length = 17 := by decide
      omega
  · rintro ⟨hmanaged, hSi, hNode⟩
    rw [handleCeaseAlarms_of_plain hSi hNode, if_pos (contains_iff.mpr hmanaged), Text.ofChars_of_nulFree dn.nulFree]

theorem nameOf_written {s : List Char} {name : OldSaNameT} (hs : nul ∉ s) (hfits : s.length < saMaxUnextendedNameLength)
    (h : SaName.Written s name) : nameOf name = ⟨s, hs⟩ := by
  obtain ⟨n, hn⟩ : ∃ n, saMaxUnextendedNameLength - s.length = n + 1 := ⟨_, (Nat.succ_pred (by omega)).symm⟩
  have hcut : (s ++ nul :: List.replicate n nul).takeWhile (· ≠ nul) = s := (cut_first hs).1
  unfold nameOf Text.ofChars SaName.saNameGet
  rw [h.2, hn, List.replicate_succ]
  simp only [CString.mk.injEq]
  exact hcut

theorem setName_iff {s t : Text} (hlen : s.chars.length ≤ saMaxUnextendedNameLength) :
    setName s = some t ↔ s = t ∧ t.chars.length < saMaxUnextendedNameLength := by
  have hmax : saMaxUnextendedNameLength = 256 := rfl
  have hsize : UInt32.size = 4294967296 := rfl
  have hshort : SaName.shortened s.chars = s.chars := by
    unfold SaName.shortened
    rw [Nat.mod_eq_of_lt (by omega), List.take_length]
  unfold setName
  by_cases hfits : s.chars.length < saMaxUnextendedNameLength
  · obtain ⟨name, hset, hwritten⟩ := SaName.saNameSet_fits s.nulFree (by rwa [hshort])
    rw [hshort] at hwritten
    have hset : SaName.saNameSet (Buffer.ofString nul s) = some (false, name) := hset
    rw [hset, Option.map_some, nameOf_written s.nulFree hfits hwritten]
    constructor
    · intro h
      obtain rfl : s = t := Option.some_inj.mp h
      exact ⟨rfl, hfits⟩
    · rintro ⟨rfl, -⟩
      rfl
  · have hset : SaName.saNameSet (Buffer.ofString nul s) = none :=
      SaName.saNameSet_long s.nulFree (by rw [hshort]; omega)
    rw [hset]
    refine iff_of_false (by simp) ?_
    rintro ⟨rfl, h⟩
    exact hfits h

theorem convertToImm_iff {dn imm : Text} :
    convertToImm env dn = some (some imm) ↔
      env.MO2Imm_DN dn = imm ∧ imm.chars.length < saMaxUnextendedNameLength := by
  unfold convertToImm
  dsimp only
  by_cases hlen : (env.MO2Imm_DN dn).chars.length ≤ saMaxUnextendedNameLength
  · rw [if_pos hlen, ← setName_iff hlen]
    simp
  · rw [if_neg hlen]
    refine iff_of_false (by simp) ?_
    rintro ⟨rfl, h⟩
    exact hlen (Nat.le_of_lt h)

end

/-! ## Names of licences -/

theorem licenseName_eq {immDn value : List Char} (hfirst : fromFirst licenseIdStr immDn = some (licenseIdStr ++ value))
    (hvalue : '=' ∉ value) : licenseName immDn = some (licenseIdStr ++ value ++ lmClassStr) := by
  have hkey : licenseIdStr = "licenseId".toList ++ ['='] := rfl
  have hcut : (licenseIdStr ++ value).dropWhile (· ≠ '=') = '=' :: value := by
    rw [hkey, List.append_assoc, List.singleton_append]
    exact (cut_first (by decide)).2
  unfold licenseName
  rw [hfirst]
  dsimp only
  rw [hcut, List.tail_cons, if_neg hvalue]

theorem removeMOMPrefix_fits {dn : Text} {theString : List Char} (hname : licenseName dn.chars = some theString)
    (hroom : theString.length < dn.chars.length) :
    ∃ rest, removeMOMPrefix dn = some (some (theString ++ rest, theString.length)) := by
  obtain ⟨k, hk⟩ : ∃ k, dn.chars.length + 1 - theString.length = k + 2 :=
    ⟨dn.chars.length - theString.length - 1, by omega⟩
  have hcopied : Buffer.store 0 theString (List.replicate (dn.chars.length + 1) nul) =
      some (theString ++ List.replicate (k + 2) nul) := by
    have hfit : theString.length ≤ dn.chars.length + 1 := by omega
    rw [← hk]
    exact Buffer.store_replicate [] hfit
  have hterminated : Buffer.store (theString.length + 1) [nul] (theString ++ List.replicate (k + 2) nul) =
      some (theString ++ List.replicate (k + 2) nul) := by
    have hfit : [nul].length ≤ k + 1 := by simp
    have hstore := @Buffer.store_replicate Char [nul] (theString ++ [nul]) (k + 1) nul hfit
    simpa [List.replicate_succ] using hstore
  refine ⟨List.replicate (k + 2) nul, ?_⟩
  unfold removeMOMPrefix
  simp only [hname, hcopied, hterminated, Option.bind_eq_bind, Option.bind_some]

theorem removeMOMPrefix_long {dn : Text} {theString : List Char} (hname : licenseName dn.chars = some theString)
    (hlong : dn.chars.length ≤ theString.length) : removeMOMPrefix dn = none := by
  unfold removeMOMPrefix
  simp only [hname, Option.bind_eq_bind]
  cases hcopied : Buffer.store 0 theString (List.replicate (dn.chars.length + 1) nul) with
  | none => rfl
  | some prefixImmDN =>
    have hlength : prefixImmDN.length = dn.chars.length + 1 := by
      unfold Buffer.store at hcopied
      split at hcopied <;> cases hcopied
      simp_all
    have hend : Buffer.store (theString.length + 1) [nul] prefixImmDN = none := by
      unfold Buffer.store
      rw [if_neg]
      rw [List.length_singleton]
      omega
    rw [Option.bind_some, hend]
    rfl

theorem saNameSetLen_iff {theString rest : List Char} (hnul : nul ∉ theString) :
    (∃ r, SaName.saNameSetLen (theString ++ rest) (UInt32.ofNat theString.length) = some r ∧
      (nameOf r.2).chars = theString) ↔ theString.length < saMaxUnextendedNameLength := by
  have hmax : saMaxUnextendedNameLength = 256 := rfl
  have hlen : (UInt32.ofNat theString.length).toNat = (SaName.shortened theString).length :=
    (SaName.length_shortened theString).symm
  have hread : Buffer.read (SaName.shortened theString).length (theString ++ rest) =
      some (SaName.shortened theString) := by
    have hsplit : theString ++ rest =
        SaName.shortened theString ++ (theString.drop (theString.length % UInt32.size) ++ rest) := by
      rw [← List.append_assoc, SaName.shortened, List.take_append_drop]
    rw [hsplit]
    exact Buffer.read_append rfl
  unfold SaName.saNameSetLen
  by_cases hfits : (SaName.shortened theString).length < saMaxUnextendedNameLength
  · obtain ⟨name, hset, hwritten⟩ := SaName.setOldName_spec hlen hfits hread
    have hnot : nul ∉ SaName.shortened theString := SaName.nul_notMem_shortened hnul
    have hnameOf := congrArg CString.chars (nameOf_written hnot hfits hwritten)
    rw [hset]
    constructor
    · rintro ⟨r, hr, hchars⟩
      cases hr
      rw [← hchars, hnameOf]
      exact hfits
    · intro hshort
      refine ⟨_, rfl, ?_⟩
      have hsize : UInt32.size = 4294967296 := rfl
      have hwhole : SaName.shortened theString = theString := by
        unfold SaName.shortened
        rw [Nat.mod_eq_of_lt (by omega), List.take_length]
      exact hnameOf.trans hwhole
  · rw [SaName.setOldName_eq_none (by omega)]
    refine iff_of_false (fun h => by simp at h) fun hshort => hfits ?_
    rw [SaName.length_shortened]
    exact Nat.lt_of_le_of_lt (Nat.mod_le _ _) hshort

/-- LM names a licence without leaving a buffer exactly if there are more letters before the licence in the name of COM
than it adds behind it, and the name fits into one of IMM. -/
theorem licenseObject_iff (env : NameEnv) (dn : Text) (before value : List Char)
    (hdn : dn.chars = before ++ (licenseIdStr ++ value))
    (hfirst : fromFirst licenseIdStr dn.chars = some (licenseIdStr ++ value)) (hvalue : '=' ∉ value) :
    (∃ name, licenseObject env dn = some (some name) ∧ name.chars = licenseIdStr ++ value ++ lmClassStr) ↔
      lmClassStr.length < before.length ∧
        (licenseIdStr ++ value ++ lmClassStr).length < saMaxUnextendedNameLength := by
  have hname := licenseName_eq hfirst hvalue
  have hlength : dn.chars.length = before.length + (licenseIdStr.length + value.length) := by
    rw [hdn, List.length_append, List.length_append]
  generalize hT : licenseIdStr ++ value ++ lmClassStr = theString at hname ⊢
  have hsize : theString.length = licenseIdStr.length + value.length + lmClassStr.length := by
    rw [← hT, List.length_append, List.length_append]
  have hnul : nul ∉ theString := by
    rw [← hT]
    intro hmem
    rcases List.mem_append.mp hmem with hmem | hmem
    · rcases List.mem_append.mp hmem with hmem | hmem
      · exact absurd hmem (by decide)
      · exact dn.nulFree (hdn ▸ List.mem_append_right _ (List.mem_append_right _ hmem))
    · exact absurd hmem (by decide)
  have hset (rest : List Char) := @saNameSetLen_iff theString rest hnul
  unfold licenseObject
  by_cases hroom : lmClassStr.length < before.length
  · obtain ⟨rest, hremoved⟩ := removeMOMPrefix_fits hname (by omega)
    rw [hremoved, and_iff_right hroom, ← hset rest]
    simp only [Option.bind_eq_bind, Option.bind_some]
    constructor
    · rintro ⟨name, h, hchars⟩
      obtain ⟨r, hr, hname⟩ := Option.bind_eq_some_iff.mp h
      cases hname
      exact ⟨r, hr, hchars⟩
    · rintro ⟨r, hr, hchars⟩
      refine ⟨nameOf r.2, ?_, hchars⟩
      rw [hr]
      rfl
  · rw [removeMOMPrefix_long hname (by omega)]
    exact iff_of_false (fun h => by simp at h) fun h => hroom h.1

def licenseDn : Text := ⟨"ManagedElement=1,SystemFunctions=1,Lm=1,licenseId=FAT1".toList, by decide⟩

theorem licenseObject_iff_licenseDn :
    ∃ name, licenseObject ⟨id, some⟩ licenseDn = some (some name) ∧
      name.chars = "licenseId=FAT1,lmId=1,systemFunctionsId=1".toList := by
  have hfirst : fromFirst licenseIdStr licenseDn.chars = some (licenseIdStr ++ "FAT1".toList) := by decide
  exact (licenseObject_iff ⟨id, some⟩ licenseDn "ManagedElement=1,SystemFunctions=1,Lm=1,".toList "FAT1".toList
    rfl hfirst (by decide)).mpr (by decide)

end ComSA.Alarm
