import ComSA.Log.ConfigLines

/-!
# Log configuration files that are written

The attributes that a configuration file sets are read back as they were written.
-/

namespace ComSA.Log

/-! ## Numbers -/

theorem strtoull_toDigits {n : Nat} (h : n < 2 ^ 64) : strtoull (Nat.toDigits 10 n) = UInt64.ofNat n := by
  unfold strtoull
  by_cases hn : n = 0
  · subst hn
    decide
  · rw [if_neg (head_toDigits hn), Nat.ofDigitChars_ten_toDigits, Nat.min_eq_right (by omega)]

theorem number_toDigits {n : Nat} (h : n < 2 ^ 64) : number (Nat.toDigits 10 n) = some (UInt64.ofNat n) := by
  unfold number
  rw [if_pos, strtoull_toDigits h]
  rw [List.all_eq_true]
  exact fun c hc => Nat.isDigit_of_mem_toDigits (by decide) (by decide) hc

/-! ## Settings -/

/-- What a file may set for a log. The name is written on one line with what it is the name of. -/
structure LogSettings (type : LogType) where
  logFileName : List Char
  maxFilesRotated : UInt16
  maxLogFileSize : UInt64
  maxLogRecordSize : UInt32
  plain : ∀ c ∈ logFileName, c ≠ ' ' ∧ c ≠ '\n' ∧ c ≠ '\x00'
  short : (LogFileName type).length + logFileName.length < maxLength

inductive Attribute where
  | logFileName
  | filesRotated
  | maxLogFileSize
  | maxLogRecordSize
  deriving DecidableEq, Repr

def key : Attribute × LogType → List Char
  | (.logFileName, type) => LogFileName type
  | (.filesRotated, type) => FilesRotated type
  | (.maxLogFileSize, type) => MaxLogFileSize type
  | (.maxLogRecordSize, type) => MaxLogRecordSize type

def keys : List (Attribute × LogType) :=
  [LogType.alarm, .alert, .commandLog].flatMap fun type =>
    [(.logFileName, type), (.filesRotated, type), (.maxLogFileSize, type), (.maxLogRecordSize, type)]

theorem mem_keys (k : Attribute × LogType) : k ∈ keys := by
  obtain ⟨a, type⟩ := k
  cases a <;> cases type <;> decide

theorem keys_nodup : keys.Nodup := by decide

theorem key_eq (k : Attribute × LogType) : ∃ word, key k = word ++ ['='] ∧ '=' ∉ word := by
  have hall : ∀ k ∈ keys, key k = (key k).dropLast ++ ['='] ∧ '=' ∉ (key k).dropLast := by decide
  exact ⟨(key k).dropLast, hall k (mem_keys k)⟩

theorem key_injective {k l : Attribute × LogType} (h : key k = key l) : k = l := by
  have hall : ∀ k ∈ keys, ∀ l ∈ keys, key k = key l → k = l := by decide
  exact hall k (mem_keys k) l (mem_keys l) h

theorem key_plain (k : Attribute × LogType) : ∀ c ∈ key k, c ≠ ' ' ∧ c ≠ '\n' ∧ c ≠ '\x00' := by
  have hall : ((key k).all fun c => c != ' ' && c != '\n' && c != '\x00') = true := by
    obtain ⟨a, type⟩ := k
    cases a <;> cases type <;> rfl
  intro c hc
  simpa [and_assoc] using List.all_eq_true.mp hall c hc

def valueText (s : (type : LogType) → LogSettings type) : Attribute × LogType → List Char
  | (.logFileName, type) => (s type).logFileName
  | (.filesRotated, type) => Nat.toDigits 10 (s type).maxFilesRotated.toNat
  | (.maxLogFileSize, type) => Nat.toDigits 10 (s type).maxLogFileSize.toNat
  | (.maxLogRecordSize, type) => Nat.toDigits 10 (s type).maxLogRecordSize.toNat

def configFile (s : (type : LogType) → LogSettings type) : List Char :=
  (keys.map fun k => key k ++ valueText s k).flatMap fun line => line ++ ['\n']

def LogSettings.attributes {type : LogType} (s : LogSettings type) : LogFileAttributes :=
  { defaultConfig.attributes type with
    logFileName := s.logFileName
    maxFilesRotated := s.maxFilesRotated
    maxLogFileSize := s.maxLogFileSize
    maxLogRecordSize := s.maxLogRecordSize }

def LogSettings.config (s : (type : LogType) → LogSettings type) : LogConfig where
  alarmLogFileAttributes := (s .alarm).attributes
  alertLogFileAttributes := (s .alert).attributes
  cmdLogFileAttributes := (s .commandLog).attributes

theorem LogSettings.attributes_config (s : (type : LogType) → LogSettings type) (type : LogType) :
    (LogSettings.config s).attributes type = (s type).attributes := by
  cases type <;> rfl

/-! ## The lines of the file -/

section Lines

variable (s : (type : LogType) → LogSettings type) (k l : Attribute × LogType)

theorem digit_plain {c : Char} (h : c.isDigit = true) : c ≠ ' ' ∧ c ≠ '\n' ∧ c ≠ '\x00' := by
  refine ⟨?_, ?_, ?_⟩ <;>
    · rintro rfl
      exact absurd h (by decide)

theorem valueText_plain : ∀ c ∈ valueText s k, c ≠ ' ' ∧ c ≠ '\n' ∧ c ≠ '\x00' := by
  obtain ⟨a, type⟩ := k
  intro c hc
  cases a with
  | logFileName => exact (s type).plain c hc
  | filesRotated => exact digit_plain (Nat.isDigit_of_mem_toDigits (by decide) (by decide) hc)
  | maxLogFileSize => exact digit_plain (Nat.isDigit_of_mem_toDigits (by decide) (by decide) hc)
  | maxLogRecordSize => exact digit_plain (Nat.isDigit_of_mem_toDigits (by decide) (by decide) hc)

theorem line_plain : ∀ c ∈ key k ++ valueText s k, c ≠ ' ' ∧ c ≠ '\n' ∧ c ≠ '\x00' := by
  intro c hc
  rcases List.mem_append.mp hc with hc | hc
  · exact key_plain k c hc
  · exact valueText_plain s k c hc

theorem key_length (type : LogType) :
    (FilesRotated type).length ≤ 20 ∧ (MaxLogFileSize type).length ≤ 22 ∧ (MaxLogRecordSize type).length ≤ 24 := by
  cases type <;> decide

theorem length_toDigits_le {n k : Nat} (hk : 0 < k) (h : n < 10 ^ k) : (Nat.toDigits 10 n).length ≤ k :=
  (Nat.length_toDigits_le_iff (by decide) hk).mpr h

theorem line_length : (key k ++ valueText s k).length < maxLength := by
  obtain ⟨a, type⟩ := k
  have hkey := key_length type
  rw [List.length_append]
  cases a with
  | logFileName => exact (s type).short
  | filesRotated =>
    have hvalue := length_toDigits_le (k := 5) (by decide) (show (s type).maxFilesRotated.toNat < 10 ^ 5 by
      have := (s type).maxFilesRotated.toNat_lt
      omega)
    simp only [key, valueText, maxLength]
    omega
  | maxLogFileSize =>
    have hvalue := length_toDigits_le (k := 20) (by decide) (show (s type).maxLogFileSize.toNat < 10 ^ 20 by
      have := (s type).maxLogFileSize.toNat_lt
      omega)
    simp only [key, valueText, maxLength]
    omega
  | maxLogRecordSize =>
    have hvalue := length_toDigits_le (k := 10) (by decide) (show (s type).maxLogRecordSize.toNat < 10 ^ 10 by
      have := (s type).maxLogRecordSize.toNat_lt
      omega)
    simp only [key, valueText, maxLength]
    omega

theorem cString_line : cString (key k ++ valueText s k ++ ['\n']) = key k ++ valueText s k ++ ['\n'] := by
  refine cString_eq fun hmem => ?_
  rcases List.mem_append.mp hmem with hmem | hmem
  · exact (line_plain s k _ hmem).2.2 rfl
  · exact absurd (List.mem_singleton.mp hmem) (by decide)

theorem not_overruns_line : ¬ Overruns (key k ++ valueText s k ++ ['\n']) := by
  intro hover
  rw [Overruns, cString_line] at hover
  exact (hover.2 '\n' (by simp)).2 rfl

theorem spaceFiltered_line : spaceFiltered (key k ++ valueText s k ++ ['\n']) = key k ++ valueText s k := by
  have hkeep : (key k ++ valueText s k).filter (fun c => c ≠ ' ' ∧ c ≠ '\n') = key k ++ valueText s k := by
    rw [List.filter_eq_self]
    intro c hc
    have hplain := line_plain s k c hc
    simp [hplain.1, hplain.2.1]
  unfold spaceFiltered
  rw [List.filter_append, hkeep]
  simp

theorem textOf_line :
    textOf (key k) (key l ++ valueText s l ++ ['\n']) = if k = l then some (valueText s l) else none := by
  have hlen : (key l ++ valueText s l ++ ['\n']).length ≤ maxLength := by
    rw [List.length_append]
    exact line_length s l
  unfold textOf textBehind
  rw [cString_line, if_pos hlen, spaceFiltered_line]
  by_cases hkl : k = l
  · subst hkl
    rw [if_pos (List.prefix_append _ _), if_pos rfl, List.drop_left]
  · rw [if_neg hkl, if_neg]
    intro hprefix
    obtain ⟨word, hword, hnot⟩ := key_eq k
    obtain ⟨word', hword', hnot'⟩ := key_eq l
    rw [hword, hword', List.append_assoc, List.singleton_append] at hprefix
    refine hkl (key_injective ?_)
    rw [hword, hword', eq_of_prefix hnot hnot' hprefix]

theorem fgetsAll_configFile :
    fgetsAll (configFile s) = keys.map fun k => key k ++ valueText s k ++ ['\n'] := by
  have hlines : ∀ line ∈ keys.map (fun k => key k ++ valueText s k), '\n' ∉ line ∧ line.length < 254 + 1 := by
    intro line hline
    obtain ⟨k, -, rfl⟩ := List.mem_map.mp hline
    have hlen := line_length s k
    unfold maxLength at hlen
    exact ⟨fun hmem => (line_plain s k _ hmem).2.1 rfl, by omega⟩
  have hread := readLines_lines hlines
  rw [List.map_map] at hread
  exact hread

theorem texts_configFile : (fgetsAll (configFile s)).filterMap (textOf (key k)) = [valueText s k] := by
  rw [fgetsAll_configFile, List.filterMap_map]
  simp only [Function.comp_def, textOf_line]
  exact filterMap_only keys_nodup (mem_keys k) (valueText s)

theorem numbers_configFile {ρ : Type*} (f : UInt64 → ρ) :
    ((fgetsAll (configFile s)).filterMap fun line => (numberOf (key k) line).map f) =
      [valueText s k].filterMap fun text => (number text).map f := by
  rw [← texts_configFile, List.filterMap_filterMap]
  simp only [numberOf, Option.map_bind, Function.comp_def]

end Lines

theorem after_configFile (s : (type : LogType) → LogSettings type) (type : LogType) :
    (defaultConfig.attributes type).after type (fgetsAll (configFile s)) = (s type).attributes := by
  have hname := texts_configFile s (.logFileName, type)
  have hrotated := numbers_configFile s (.filesRotated, type) UInt64.toUInt16
  have hsize := numbers_configFile s (.maxLogFileSize, type) id
  have hrecord := numbers_configFile s (.maxLogRecordSize, type) UInt64.toUInt32
  have hlt := (s type).maxFilesRotated.toNat_lt
  have hlt' := (s type).maxLogRecordSize.toNat_lt
  simp only [key, valueText, List.filterMap_cons, List.filterMap_nil, Option.map_id_fun, id] at hname hsize
  simp only [key, valueText, List.filterMap_cons, List.filterMap_nil] at hrotated hrecord
  rw [number_toDigits (by omega)] at hrotated hrecord
  rw [number_toDigits (s type).maxLogFileSize.toNat_lt] at hsize
  unfold LogFileAttributes.after LogSettings.attributes
  rw [hname, hrotated, hsize, hrecord]
  simp

/-- What is written is read back. -/
theorem loadSaLogConfig_configFile (s : (type : LogType) → LogSettings type) :
    loadSaLogConfig (some (configFile s)) = some (LogSettings.config s) := by
  rw [loadSaLogConfig_eq, if_neg]
  · congr 1
    refine LogConfig.ext_attributes fun type => ?_
    rw [attributes_foldl_given, after_configFile, LogSettings.attributes_config]
  · rintro ⟨line, hline, hover⟩
    rw [fgetsAll_configFile] at hline
    obtain ⟨k, -, rfl⟩ := List.mem_map.mp hline
    exact not_overruns_line s k hover

/-- Each log has a name of its own, and the largest numbers there are. -/
def largestSettings (type : LogType) : LogSettings type where
  logFileName := match type with
    | .alarm => "saLogAlarm".toList
    | .alert => "saLogAlert".toList
    | .commandLog => "cmd=1".toList
  maxFilesRotated := 65535
  maxLogFileSize := 18446744073709551615
  maxLogRecordSize := 4294967295
  plain := List.forall_iff_forall_mem.mp (by cases type <;> decide)
  short := by cases type <;> decide

theorem loadSaLogConfig_configFile_largest :
    loadSaLogConfig (some (configFile largestSettings)) = some (LogSettings.config largestSettings) :=
  loadSaLogConfig_configFile largestSettings

end ComSA.Log
