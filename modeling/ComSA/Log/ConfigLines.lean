import ComSA.Log.SaLogConfig
import ComSA.Lib.Cut
import ComSA.Lib.PartialFold

/-!
# What a log configuration file sets

Each attribute has the value of the last line that sets it.
-/

namespace ComSA.Log

/-! ## Copying -/

theorem copyTo_eq_some {size : Nat} {text : List Char} (h : text.length < size) : copyTo size text = some text :=
  if_pos h

theorem copyDigits_eq {room : Nat} {text : List Char} (h : text.length < room) :
    copyDigits room text = some (if text.all Char.isDigit then some text else none) := by
  induction text generalizing room with
  | nil =>
    obtain ⟨room, rfl⟩ := Nat.exists_eq_succ_of_ne_zero (by omega : room ≠ 0)
    rfl
  | cons c text ih =>
    rw [List.length_cons] at h
    obtain ⟨room, rfl⟩ := Nat.exists_eq_succ_of_ne_zero (by omega : room ≠ 0)
    rw [copyDigits, ih (by omega), List.all_cons]
    by_cases hc : c.isDigit = true
    · by_cases htext : text.all Char.isDigit = true <;> simp [hc, htext]
    · simp [hc]

theorem textBehind_length {cmpText configText text : List Char} (h : textBehind cmpText configText = some text) :
    text.length ≤ configText.length := by
  unfold textBehind at h
  split_ifs at h
  obtain rfl := Option.some.inj h
  simp

/-! ## One line -/

def textOf (cmpText line : List Char) : Option (List Char) :=
  if (cString line).length ≤ maxLength then textBehind cmpText (spaceFiltered (cString line)) else none

def number (text : List Char) : Option UInt64 := if text.all Char.isDigit then some (strtoull text) else none

def numberOf (cmpText line : List Char) : Option UInt64 := (textOf cmpText line).bind number

def LogFileAttributes.given (a : LogFileAttributes) (type : LogType) (line : List Char) : LogFileAttributes :=
  { a with
    logFileName := (textOf (LogFileName type) line).getD a.logFileName
    maxFilesRotated := ((numberOf (FilesRotated type) line).map UInt64.toUInt16).getD a.maxFilesRotated
    maxLogFileSize := (numberOf (MaxLogFileSize type) line).getD a.maxLogFileSize
    maxLogRecordSize := ((numberOf (MaxLogRecordSize type) line).map UInt64.toUInt32).getD a.maxLogRecordSize }

def LogConfig.given (c : LogConfig) (line : List Char) : LogConfig where
  alarmLogFileAttributes := c.alarmLogFileAttributes.given .alarm line
  alertLogFileAttributes := c.alertLogFileAttributes.given .alert line
  cmdLogFileAttributes := c.cmdLogFileAttributes.given .commandLog line

theorem LogConfig.attributes_given (c : LogConfig) (line : List Char) (type : LogType) :
    (c.given line).attributes type = (c.attributes type).given type line := by
  cases type <;> rfl

/-- A line as long as the buffer, with nothing in it that is left out. -/
def Overruns (line : List Char) : Prop :=
  (cString line).length = maxLength ∧ ∀ c ∈ cString line, c ≠ ' ' ∧ c ≠ '\n'

instance (line : List Char) : Decidable (Overruns line) := inferInstanceAs (Decidable (_ ∧ _))

def LogConfig.offer {ρ : Type*} (c : LogConfig) (set : ρ → LogFileAttributes → LogFileAttributes) (v : Option ρ)
    (type : LogType) : LogConfig := v.elim c fun v => c.update (set v) type

theorem LogConfig.attributes_offer {ρ : Type*} (c : LogConfig) (set : ρ → LogFileAttributes → LogFileAttributes)
    (v : Option ρ) (log type : LogType) :
    (c.offer set v type).attributes log =
      if log = type then v.elim (c.attributes log) (set · (c.attributes log)) else c.attributes log := by
  cases v with
  | none => simp [LogConfig.offer]
  | some v => simp [LogConfig.offer]

section Given

variable (a : LogFileAttributes)

theorem elim_logFileName (v : Option (List Char)) :
    (v.elim a fun name => { a with logFileName := name }) = { a with logFileName := v.getD a.logFileName } := by
  cases v <;> rfl

theorem elim_maxFilesRotated (v : Option UInt64) :
    (v.elim a fun n => { a with maxFilesRotated := n.toUInt16 }) =
      { a with maxFilesRotated := (v.map UInt64.toUInt16).getD a.maxFilesRotated } := by
  cases v <;> rfl

theorem elim_maxLogFileSize (v : Option UInt64) :
    (v.elim a fun n => { a with maxLogFileSize := n }) = { a with maxLogFileSize := v.getD a.maxLogFileSize } := by
  cases v <;> rfl

theorem elim_maxLogRecordSize (v : Option UInt64) :
    (v.elim a fun n => { a with maxLogRecordSize := n.toUInt32 }) =
      { a with maxLogRecordSize := (v.map UInt64.toUInt32).getD a.maxLogRecordSize } := by
  cases v <;> rfl

end Given

section Buffer

variable {buffer : List Char} (h : buffer.length < maxLength) (cmpText : List Char) (type : LogType) (c : LogConfig)
include h

theorem parseLogFileName_eq :
    parseLogFileName buffer cmpText type c =
      some (c.offer (fun name a => { a with logFileName := name }) (textBehind cmpText buffer) type) := by
  unfold parseLogFileName
  cases hbehind : textBehind cmpText buffer with
  | none => rfl
  | some text =>
    have hlen := textBehind_length hbehind
    simp only [copyTo_eq_some (show text.length < maxLength by omega)]
    rfl

theorem parseNumber_eq (set : UInt64 → LogFileAttributes → LogFileAttributes) :
    parseNumber set buffer cmpText type c = some (c.offer set ((textBehind cmpText buffer).bind number) type) := by
  unfold parseNumber
  cases hbehind : textBehind cmpText buffer with
  | none => rfl
  | some text =>
    have hlen := textBehind_length hbehind
    simp only [copyDigits_eq (show text.length < maxLength by omega), Option.bind_some, number]
    by_cases hdigits : text.all Char.isDigit = true
    · simp only [if_pos hdigits]
      rfl
    · simp only [if_neg hdigits]
      rfl

end Buffer

theorem spaceFiltered_length_lt {line : List Char} (hlen : (cString line).length ≤ maxLength) (h : ¬ Overruns line) :
    (spaceFiltered (cString line)).length < maxLength := by
  have hle : (spaceFiltered (cString line)).length ≤ (cString line).length := List.length_filter_le _ _
  rcases Nat.lt_or_eq_of_le (Nat.le_trans hle hlen) with hlt | heq
  · exact hlt
  · exfalso
    have hfull : (cString line).length = maxLength := Nat.le_antisymm hlen (heq ▸ hle)
    have hall := List.length_filter_eq_length_iff.mp (heq.trans hfull.symm)
    exact h ⟨hfull, fun c hc => by simpa using hall c hc⟩

theorem spaceFiltered_of_overruns {line : List Char} (h : Overruns line) :
    spaceFiltered (cString line) = cString line := by
  unfold spaceFiltered
  rw [List.filter_eq_self]
  intro c hc
  simpa using h.2 c hc

theorem parseSaLogConfig_eq (c : LogConfig) (line : List Char) :
    parseSaLogConfig c line = if Overruns line then none else some (c.given line) := by
  unfold parseSaLogConfig
  by_cases hlen : (cString line).length ≤ maxLength
  · rw [if_pos hlen]
    by_cases hover : Overruns line
    · have hnone : copyTo maxLength (cString line) = none := if_neg (by rw [hover.1]; exact Nat.lt_irrefl _)
      rw [if_pos hover, spaceFiltered_of_overruns hover, hnone]
      rfl
    · have hbuffer := spaceFiltered_length_lt hlen hover
      rw [if_neg hover, copyTo_eq_some hbuffer]
      simp only [Option.bind_eq_bind, Option.bind_some, parseLogFileName_eq hbuffer, parseFilesRotated,
        parseFileSize, parseRecordSize, parseNumber_eq hbuffer]
      congr 1
      refine LogConfig.ext_attributes fun log => ?_
      simp only [LogConfig.attributes_offer, LogConfig.attributes_given, LogFileAttributes.given, textOf, numberOf,
        if_pos hlen]
      cases log <;>
        simp only [reduceCtorEq, if_true, if_false, elim_logFileName, elim_maxFilesRotated, elim_maxLogFileSize,
          elim_maxLogRecordSize]
  · have hover : ¬ Overruns line := fun h => hlen (le_of_eq h.1)
    rw [if_neg hlen, if_neg hover]
    congr 1
    refine LogConfig.ext_attributes fun log => ?_
    simp [LogConfig.attributes_given, LogFileAttributes.given, textOf, numberOf, hlen]

/-! ## All lines -/

def LogFileAttributes.after (a : LogFileAttributes) (type : LogType) (lines : List (List Char)) : LogFileAttributes :=
  { a with
    logFileName := (lines.filterMap (textOf (LogFileName type))).getLastD a.logFileName
    maxFilesRotated :=
      (lines.filterMap fun line => (numberOf (FilesRotated type) line).map UInt64.toUInt16).getLastD a.maxFilesRotated
    maxLogFileSize := (lines.filterMap (numberOf (MaxLogFileSize type))).getLastD a.maxLogFileSize
    maxLogRecordSize :=
      (lines.filterMap fun line => (numberOf (MaxLogRecordSize type) line).map UInt64.toUInt32).getLastD
        a.maxLogRecordSize }

theorem foldl_given (a : LogFileAttributes) (type : LogType) (lines : List (List Char)) :
    lines.foldl (fun a line => a.given type line) a = a.after type lines := by
  simp only [LogFileAttributes.after, ← foldl_getD]
  induction lines generalizing a with
  | nil => rfl
  | cons line lines ih =>
    rw [List.foldl_cons, ih]
    rfl

theorem attributes_foldl_given (c : LogConfig) (lines : List (List Char)) (type : LogType) :
    (lines.foldl LogConfig.given c).attributes type = (c.attributes type).after type lines := by
  rw [← foldl_given]
  induction lines generalizing c with
  | nil => rfl
  | cons line lines ih => rw [List.foldl_cons, List.foldl_cons, ih, LogConfig.attributes_given]

theorem loadSaLogConfig_eq (file : List Char) :
    loadSaLogConfig (some file) =
      if ∃ line ∈ fgetsAll file, Overruns line then none
      else some ((fgetsAll file).foldl LogConfig.given defaultConfig) :=
  foldlM_ite parseSaLogConfig_eq defaultConfig

/-- Each attribute is what the last line that sets it says, and the default where no line does. -/
theorem attributes_loaded {file : List Char} {c : LogConfig} (h : loadSaLogConfig (some file) = some c)
    (type : LogType) :
    c.attributes type = (defaultConfig.attributes type).after type (fgetsAll file) := by
  rw [loadSaLogConfig_eq] at h
  split_ifs at h
  obtain rfl := Option.some.inj h
  exact attributes_foldl_given defaultConfig (fgetsAll file) type

/-- A file with the second name of the alarm log, which counts, and an octal number. -/
theorem attributes_loaded_twice :
    ∃ c, loadSaLogConfig (some "AlarmLogFileName=a\nAlarm FilesRotated = 010\nAlarmLogFileName= b\n".toList) = some c ∧
      (c.attributes .alarm).logFileName = ['b'] ∧ (c.attributes .alarm).maxFilesRotated = 8 := by
  rcases hload : loadSaLogConfig (some "AlarmLogFileName=a\nAlarm FilesRotated = 010\nAlarmLogFileName= b\n".toList)
    with - | c
  · exact absurd hload (by decide)
  · have halarm := attributes_loaded hload .alarm
    refine ⟨c, rfl, ?_, ?_⟩
    · rw [halarm]
      decide
    · rw [halarm]
      decide

theorem cString_eq {line : List Char} (h : '\x00' ∉ line) : cString line = line := takeWhile_of_notMem h

theorem notMem_line {file line : List Char} {c : Char} (hc : c ∉ file) (hline : line ∈ fgetsAll file) : c ∉ line := by
  intro hmem
  refine hc ?_
  rw [← flatten_readLines '\n' 254 file]
  exact List.mem_flatten.mpr ⟨line, hline, hmem⟩

theorem overruns_of_nulFree {line : List Char} (h : '\x00' ∉ line) :
    Overruns line ↔ line.length = maxLength ∧ ' ' ∉ line ∧ '\n' ∉ line := by
  rw [Overruns, cString_eq h]
  refine and_congr_right fun _ => ⟨fun hall => ⟨?_, ?_⟩, fun ⟨hspace, hend⟩ c hc => ⟨?_, ?_⟩⟩
  · exact fun hmem => (hall _ hmem).1 rfl
  · exact fun hmem => (hall _ hmem).2 rfl
  · rintro rfl
    exact hspace hc
  · rintro rfl
    exact hend hc

/-- The file overruns the buffer only by a line as long as it, which has nothing that is left out. In a file without NUL
that is the last line, and it has no end. -/
theorem overruns_iff (file : List Char) :
    (loadSaLogConfig (some file) = none ↔ ∃ line ∈ fgetsAll file, Overruns line) ∧
      ('\x00' ∉ file →
        (loadSaLogConfig (some file) = none ↔
          ∃ line, (fgetsAll file).getLast? = some line ∧ line.length = maxLength ∧ ' ' ∉ line ∧ '\n' ∉ line)) := by
  have hall : loadSaLogConfig (some file) = none ↔ ∃ line ∈ fgetsAll file, Overruns line := by
    rw [loadSaLogConfig_eq]
    simp
  refine ⟨hall, fun hnul => hall.trans ⟨?_, ?_⟩⟩
  · rintro ⟨line, hline, hover⟩
    rw [overruns_of_nulFree (notMem_line hnul hline)] at hover
    exact ⟨line, mem_readLines_short hline hover.2.2 (by rw [hover.1]; decide), hover⟩
  · rintro ⟨line, hlast, hover⟩
    have hline := List.mem_of_getLast? hlast
    exact ⟨line, hline, (overruns_of_nulFree (notMem_line hnul hline)).mpr hover⟩

/-- Fifty characters behind a line that is good. -/
theorem overruns_iff_last :
    loadSaLogConfig (some ("AlarmLogFileName=a\n".toList ++ List.replicate 50 'x')) = none := by
  refine ((overruns_iff ("AlarmLogFileName=a\n".toList ++ List.replicate 50 'x')).2 (by decide)).mpr ?_
  exact ⟨List.replicate 50 'x', by decide, by decide, by decide, by decide⟩

end ComSA.Log
