import ComSA.Lib.Buffer

/-!
# Names of IMM

An IMM name is a struct with an array of bytes, as it is without extended names. The setters write a string into it, and
the getters read it again.
-/

namespace ComSA.SaName

def nul : Char := Char.ofNat 0

def saMaxUnextendedNameLength : Nat := 256

structure OldSaNameT where
  length : Nat
  value : List Char
  size : value.length = saMaxUnextendedNameLength
  deriving DecidableEq

namespace OldSaNameT

def zero : OldSaNameT := ⟨0, List.replicate saMaxUnextendedNameLength nul, List.length_replicate⟩

/-- Writes into the array, with `none` where the bytes would leave it. -/
def write (pos : Nat) (data : List Char) (name : OldSaNameT) : Option OldSaNameT :=
  if h : pos + data.length ≤ name.value.length then
    some { name with
      value := name.value.take pos ++ data ++ name.value.drop (pos + data.length)
      size := by
        have := name.size
        simp
        omega }
  else none

theorem write_eq_none {pos : Nat} {data : List Char} {name : OldSaNameT}
    (h : saMaxUnextendedNameLength < pos + data.length) : name.write pos data = none := by
  unfold write
  rw [dif_neg]
  rw [name.size]
  omega

theorem write_eq_some {pos : Nat} {data value : List Char} (name : OldSaNameT)
    (h : Buffer.store pos data name.value = some value) :
    ∃ name', name.write pos data = some name' ∧ name'.length = name.length ∧ name'.value = value := by
  unfold Buffer.store at h
  split at h <;> cases h
  rename_i hfits
  exact ⟨_, dif_pos hfits, rfl, rfl⟩

end OldSaNameT

/-! ## The setters -/

/-- The body that `saNameSet` and `saNameSetLen` have in common, after each found the length. -/
def setOldName (value : List Char) (len : UInt32) : Option (Bool × OldSaNameT) := do
  let wasNameTruncated := decide (saMaxUnextendedNameLength < len.toNat)
  let len := if saMaxUnextendedNameLength < len.toNat then saMaxUnextendedNameLength else len.toNat
  let oldName := { OldSaNameT.zero with length := len }
  let data ← Buffer.read len value
  let oldName ← oldName.write 0 data
  let oldName ← oldName.write len [nul]
  some (wasNameTruncated, oldName)

def saNameSet (value : List Char) : Option (Bool × OldSaNameT) := do
  let string ← Buffer.string nul value
  setOldName value (UInt32.ofNat string.length)

def saNameSetLen (value : List Char) (size : UInt32) : Option (Bool × OldSaNameT) := setOldName value size

def saNameLen (name : OldSaNameT) : Nat := name.length

def saNameGet (name : OldSaNameT) : List Char := name.value

def saNameOverrideLen (len : UInt32) (name : OldSaNameT) : Option (Bool × OldSaNameT) :=
  let getLen := saNameLen name
  if getLen ≤ saMaxUnextendedNameLength then do
    let wasNameTruncated := decide (saMaxUnextendedNameLength < len.toNat)
    let len := if saMaxUnextendedNameLength < len.toNat then saMaxUnextendedNameLength else len.toNat
    let oldName ← { name with length := len }.write len [nul]
    some (wasNameTruncated, oldName)
  else some (false, name)

/-! ## Strings and names -/

/-- The bytes of the string that is made, in a buffer with one more byte than the name has. -/
def makeCString (saName : OldSaNameT) : Option (List Char) := do
  let len := saNameLen saName
  let data ← Buffer.read len (saNameGet saName)
  let tmpStr ← Buffer.store 0 data (List.replicate (len + 1) nul)
  Buffer.store len [nul] tmpStr

/-- A name has room for the string and its NUL. An extended name has it for any string. -/
def HasRoom (bExtendedNameEnabled : Bool) (cstr : String) : Prop :=
  bExtendedNameEnabled = true ∨ cstr.utf8ByteSize < saMaxUnextendedNameLength

instance (bExtendedNameEnabled : Bool) (cstr : String) : Decidable (HasRoom bExtendedNameEnabled cstr) :=
  inferInstanceAs (Decidable (_ ∨ _))

/-! ## A name of a string -/

/-- The longest part of the string that an array holds with its NUL. -/
def fitting (s : CString nul) : List Char := s.chars.take (saMaxUnextendedNameLength - 1)

/-- The name holds what fits of the string, tells whether that is not all of it, and can be made shorter. -/
structure Holds (s : CString nul) (wasNameTruncated : Bool) (name : OldSaNameT) : Prop where
  cString : (makeCString name).bind (Buffer.string nul) = some (fitting s)
  truncated : wasNameTruncated = true ↔ fitting s ≠ s.chars
  get : Buffer.string nul (saNameGet name) = some (fitting s)
  override : ∀ l : UInt32, l.toNat ≤ saNameLen name → ∃ wasTruncated name',
    saNameOverrideLen l name = some (wasTruncated, name') ∧
      Buffer.string nul (saNameGet name') = some ((fitting s).take l.toNat)

def Survives (s : CString nul) : Prop :=
  (∃ wasNameTruncated name, saNameSet (Buffer.ofString nul s) = some (wasNameTruncated, name) ∧
    Holds s wasNameTruncated name) ∧
  ∃ wasNameTruncated name,
    saNameSetLen (Buffer.ofString nul s) (UInt32.ofNat s.chars.length) = some (wasNameTruncated, name) ∧
      Holds s wasNameTruncated name

/-- The array after a string was written: the string, and NULs up to the end. -/
def Written (s : List Char) (name : OldSaNameT) : Prop :=
  name.length = s.length ∧ name.value = s ++ List.replicate (saMaxUnextendedNameLength - s.length) nul

theorem setOldName_spec {value : List Char} {len : UInt32} {s : List Char} (hlen : len.toNat = s.length)
    (hfits : s.length < saMaxUnextendedNameLength) (hvalue : Buffer.read s.length value = some s) :
    ∃ name, setOldName value len = some (false, name) ∧ Written s name := by
  have hstring : Buffer.store 0 s (List.replicate saMaxUnextendedNameLength nul) =
      some (s ++ List.replicate (saMaxUnextendedNameLength - s.length) nul) :=
    Buffer.store_replicate [] (Nat.le_of_lt hfits)
  obtain ⟨name1, hwrite1, hlength1, hvalue1⟩ :=
    OldSaNameT.write_eq_some { OldSaNameT.zero with length := s.length } hstring
  have hterminated : Buffer.store s.length [nul] name1.value =
      some (s ++ List.replicate (saMaxUnextendedNameLength - s.length) nul) := by
    obtain ⟨n, hn⟩ : ∃ n, saMaxUnextendedNameLength - s.length = n + 1 := ⟨_, (Nat.succ_pred (by omega)).symm⟩
    rw [hvalue1, hn, Buffer.store_replicate s (by simp)]
    simp [List.replicate_succ]
  obtain ⟨name2, hwrite2, hlength2, hvalue2⟩ := OldSaNameT.write_eq_some name1 hterminated
  have hnot : ¬saMaxUnextendedNameLength < s.length := by omega
  refine ⟨name2, ?_, hlength2.trans hlength1, hvalue2⟩
  unfold setOldName
  simp only [hlen, if_neg hnot, hvalue, hwrite1, hwrite2, Option.bind_eq_bind, Option.bind_some,
    decide_eq_false hnot]

theorem string_written {s : List Char} (hfits : s.length < saMaxUnextendedNameLength) (hs : nul ∉ s) :
    Buffer.string nul (s ++ List.replicate (saMaxUnextendedNameLength - s.length) nul) = some s := by
  obtain ⟨n, hn⟩ : ∃ n, saMaxUnextendedNameLength - s.length = n + 1 := ⟨_, (Nat.succ_pred (by omega)).symm⟩
  rw [hn, List.replicate_succ]
  exact Buffer.string_append hs

theorem makeCString_written {s : List Char} {name : OldSaNameT} (hs : nul ∉ s) (h : Written s name) :
    (makeCString name).bind (Buffer.string nul) = some s := by
  obtain ⟨hlength, hvalue⟩ := h
  have hread : Buffer.read s.length (saNameGet name) = some s := by
    unfold saNameGet
    rw [hvalue]
    exact Buffer.read_append rfl
  have hcopy : Buffer.store 0 s (List.replicate (s.length + 1) nul) = some (s ++ [nul]) := by
    have hroom : s.length ≤ s.length + 1 := by omega
    have hzeros := Buffer.store_replicate [] (x := nul) hroom
    rwa [Nat.add_sub_cancel_left] at hzeros
  have hend : Buffer.store s.length [nul] (s ++ [nul]) = some (s ++ [nul]) := by
    have hreplace := Buffer.store_replace s [nul] [] (rfl : [nul].length = [nul].length)
    simpa using hreplace
  unfold makeCString saNameLen
  simp only [hlength, hread, hcopy, hend, Option.bind_eq_bind, Option.bind_some]
  exact Buffer.string_append hs

theorem override_written {s : List Char} {name : OldSaNameT} (hfits : s.length < saMaxUnextendedNameLength)
    (hs : nul ∉ s) (h : Written s name) {l : UInt32} (hl : l.toNat ≤ saNameLen name) :
    ∃ wasTruncated name', saNameOverrideLen l name = some (wasTruncated, name') ∧
      Buffer.string nul (saNameGet name') = some (s.take l.toNat) := by
  obtain ⟨hlength, hvalue⟩ := h
  unfold saNameLen at hl
  have hshort : l.toNat ≤ s.length := hlength ▸ hl
  have hnot : ¬saMaxUnextendedNameLength < l.toNat := by omega
  obtain ⟨rest, hstore⟩ : ∃ rest, Buffer.store l.toNat [nul] name.value = some (s.take l.toNat ++ nul :: rest) := by
    have hroom : l.toNat + [nul].length ≤ name.value.length := by
      rw [name.size, List.length_singleton]
      omega
    refine ⟨name.value.drop (l.toNat + 1), ?_⟩
    rw [Buffer.store_eq_some hroom, hvalue, List.take_append_of_le_length hshort]
    simp
  obtain ⟨name', hwrite, -, hvalue'⟩ := OldSaNameT.write_eq_some { name with length := l.toNat } hstore
  refine ⟨false, name', ?_, ?_⟩
  · unfold saNameOverrideLen saNameLen
    rw [if_pos (by omega)]
    simp only [if_neg hnot, hwrite, Option.bind_eq_bind, Option.bind_some, decide_eq_false hnot]
  · unfold saNameGet
    rw [hvalue']
    exact Buffer.string_append fun hnul => hs (List.mem_of_mem_take hnul)

theorem fitting_eq {s : CString nul} (h : s.chars.length < saMaxUnextendedNameLength) : fitting s = s.chars :=
  List.take_of_length_le (Nat.le_pred_of_lt h)

theorem holds_of_written {s : CString nul} {name : OldSaNameT} (hfits : s.chars.length < saMaxUnextendedNameLength)
    (h : Written s.chars name) : Holds s false name := by
  have hall := fitting_eq hfits
  refine ⟨?_, by simp [hall], ?_, fun l hl => ?_⟩
  · rw [hall]
    exact makeCString_written s.nulFree h
  · rw [hall]
    unfold saNameGet
    rw [h.2]
    exact string_written hfits s.nulFree
  · rw [hall]
    exact override_written hfits s.nulFree h hl

/-- The string is longer than what fits, so that a name that holds it tells so. -/
theorem not_holds {s : CString nul} {name : OldSaNameT} (hlong : saMaxUnextendedNameLength ≤ s.chars.length) :
    ¬Holds s false name := by
  intro h
  refine absurd (h.truncated.mpr fun heq => ?_) Bool.false_ne_true
  have hlength := congrArg List.length heq
  unfold fitting at hlength
  rw [List.length_take] at hlength
  have hmax : saMaxUnextendedNameLength = 256 := rfl
  omega

theorem setOldName_long {value : List Char} {len : UInt32} {wasNameTruncated : Bool} {name : OldSaNameT}
    (h : setOldName value len = some (wasNameTruncated, name)) : wasNameTruncated = false := by
  unfold setOldName at h
  simp only [Option.bind_eq_bind, Option.bind_eq_some_iff] at h
  obtain ⟨data, -, name1, -, name2, hwrite, h⟩ := h
  by_cases hlong : saMaxUnextendedNameLength < len.toNat
  · rw [if_pos hlong, OldSaNameT.write_eq_none (by simp)] at hwrite
    cases hwrite
  · cases h
    exact decide_eq_false hlong

theorem not_survives {s : CString nul} (hlong : saMaxUnextendedNameLength ≤ s.chars.length) : ¬Survives s := by
  rintro ⟨⟨wasNameTruncated, name, hset, hholds⟩, -⟩
  unfold saNameSet at hset
  rw [Buffer.string_ofString] at hset
  obtain rfl := setOldName_long hset
  exact not_holds hlong hholds

theorem survives_of_fits {s : CString nul} (hfits : s.chars.length < saMaxUnextendedNameLength) : Survives s := by
  have hlen : (UInt32.ofNat s.chars.length).toNat = s.chars.length := by
    apply UInt32.toNat_ofNat_of_lt'
    have hmax : saMaxUnextendedNameLength = 256 := rfl
    have hsize : UInt32.size = 4294967296 := rfl
    omega
  have hread : Buffer.read s.chars.length (Buffer.ofString nul s) = some s.chars := Buffer.read_append rfl
  obtain ⟨name, hset, hwritten⟩ := setOldName_spec hlen hfits hread
  have hholds := holds_of_written hfits hwritten
  refine ⟨⟨false, name, ?_, hholds⟩, false, name, hset, hholds⟩
  unfold saNameSet
  rw [Buffer.string_ofString]
  exact hset

/-- A string survives both setters exactly if the array has room for it and its NUL. -/
theorem survives_iff (s : CString nul) : Survives s ↔ s.chars.length < saMaxUnextendedNameLength :=
  ⟨fun h => Nat.lt_of_not_le fun hlong => not_survives hlong h, survives_of_fits⟩

/-! ## Copies -/

/-- What a name keeps of a string, whose length it has in 32 bits. -/
def shortened (s : List Char) : List Char := s.take (s.length % UInt32.size)

theorem length_shortened (s : List Char) : (shortened s).length = s.length % UInt32.size := by
  unfold shortened
  rw [List.length_take]
  exact Nat.min_eq_left (Nat.mod_le _ _)

theorem nul_notMem_shortened {s : List Char} (hs : nul ∉ s) : nul ∉ shortened s :=
  fun h => hs (List.mem_of_mem_take h)

theorem string_terminated {s : List Char} (hs : nul ∉ s) : Buffer.string nul (s ++ [nul]) = some s :=
  Buffer.string_append hs

theorem saNameSet_fits {s : List Char} (hs : nul ∉ s) (hfits : (shortened s).length < saMaxUnextendedNameLength) :
    ∃ name, saNameSet (s ++ [nul]) = some (false, name) ∧ Written (shortened s) name := by
  have hlen : (UInt32.ofNat s.length).toNat = (shortened s).length := by
    rw [length_shortened]
    rfl
  have hread : Buffer.read (shortened s).length (s ++ [nul]) = some (shortened s) := by
    have hsplit : s ++ [nul] = shortened s ++ (s.drop (s.length % UInt32.size) ++ [nul]) := by
      rw [← List.append_assoc, shortened, List.take_append_drop]
    rw [hsplit]
    exact Buffer.read_append rfl
  obtain ⟨name, hset, hwritten⟩ := setOldName_spec hlen hfits hread
  refine ⟨name, ?_, hwritten⟩
  unfold saNameSet
  rw [string_terminated hs]
  exact hset

theorem setOldName_eq_none {len : UInt32} (hlong : saMaxUnextendedNameLength ≤ len.toNat) (value : List Char) :
    setOldName value len = none := by
  have hwhole : (if saMaxUnextendedNameLength < len.toNat then saMaxUnextendedNameLength else len.toNat) =
      saMaxUnextendedNameLength := by
    split <;> omega
  unfold setOldName
  simp only [hwhole, Option.bind_eq_bind]
  cases Buffer.read saMaxUnextendedNameLength value with
  | none => rfl
  | some data =>
    rw [Option.bind_some]
    cases OldSaNameT.write 0 data { OldSaNameT.zero with length := saMaxUnextendedNameLength } with
    | none => rfl
    | some name =>
      rw [Option.bind_some, OldSaNameT.write_eq_none (by simp)]
      rfl

theorem saNameSet_long {s : List Char} (hs : nul ∉ s) (hlong : saMaxUnextendedNameLength ≤ (shortened s).length) :
    saNameSet (s ++ [nul]) = none := by
  unfold saNameSet
  rw [string_terminated hs]
  rw [length_shortened] at hlong
  have hlen : saMaxUnextendedNameLength ≤ (UInt32.ofNat s.length).toNat := hlong
  exact setOldName_eq_none hlen _

theorem saNameSet_saNameGet {s : List Char} {name : OldSaNameT} (hs : nul ∉ s)
    (hfits : s.length < saMaxUnextendedNameLength) (h : Written s name) :
    saNameSet (saNameGet name) = some (false, name) := by
  have hmax : saMaxUnextendedNameLength = 256 := rfl
  have hsize : UInt32.size = 4294967296 := rfl
  have hlen : (UInt32.ofNat s.length).toNat = s.length := UInt32.toNat_ofNat_of_lt' (by omega)
  have hread : Buffer.read s.length (saNameGet name) = some s := by
    unfold saNameGet
    rw [h.2]
    exact Buffer.read_append rfl
  have hstring : Buffer.string nul (saNameGet name) = some s := by
    unfold saNameGet
    rw [h.2]
    exact string_written hfits hs
  obtain ⟨name', hset, hwritten⟩ := setOldName_spec hlen hfits hread
  have heq : name' = name := by
    obtain ⟨l, value, _⟩ := name
    obtain ⟨l', value', _⟩ := name'
    obtain ⟨rfl, rfl⟩ := h
    obtain ⟨rfl, rfl⟩ := hwritten
    rfl
  unfold saNameSet
  rw [hstring]
  exact heq ▸ hset

/-! ## A string as long as the array -/

def longString : CString nul where
  chars := List.replicate saMaxUnextendedNameLength 'a'
  nulFree h := absurd (List.eq_of_mem_replicate h) (by decide)

/-- Its NUL is written behind the array. -/
theorem not_all_survive : ¬∀ s : CString nul, Survives s := fun h =>
  not_survives List.length_replicate.ge (h longString)

end ComSA.SaName
