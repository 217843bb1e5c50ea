import ComSA.Lib.Chunks
import ComSA.Lib.Decimal
import ComSA.Lib.LastResult
import Mathlib.Algebra.GroupWithZero.Nat
import Mathlib.Data.List.Basic

/-!
# The log configuration file

The attributes of the log files of alarms, alerts and commands, as `generic/log/ComSALogService.c` loads them. A file is
what `fgets` reads of it. A write behind the end of a buffer is `none`.
-/

namespace ComSA.Log

inductive LogType where
  | alarm
  | alert
  | commandLog
  deriving DecidableEq, Repr

inductive LogFileFullAction where
  | rotate
  | wrap
  | halt
  deriving DecidableEq, Repr

structure LogFileAttributes where
  logFileName : List Char
  logFilePathName : List Char
  maxLogFileSize : UInt64
  maxLogRecordSize : UInt32
  haProperty : Bool
  logFileFullAction : LogFileFullAction
  maxFilesRotated : UInt16
  logFileFmt : List Char
  deriving DecidableEq

structure LogConfig where
  alarmLogFileAttributes : LogFileAttributes
  alertLogFileAttributes : LogFileAttributes
  cmdLogFileAttributes : LogFileAttributes
  deriving DecidableEq

namespace LogConfig

def attributes (c : LogConfig) : LogType → LogFileAttributes
  | .alarm => c.alarmLogFileAttributes
  | .alert => c.alertLogFileAttributes
  | .commandLog => c.cmdLogFileAttributes

def update (c : LogConfig) (f : LogFileAttributes → LogFileAttributes) : LogType → LogConfig
  | .alarm => { c with alarmLogFileAttributes := f c.alarmLogFileAttributes }
  | .alert => { c with alertLogFileAttributes := f c.alertLogFileAttributes }
  | .commandLog => { c with cmdLogFileAttributes := f c.cmdLogFileAttributes }

@[simp] theorem attributes_update (c : LogConfig) (f : LogFileAttributes → LogFileAttributes) (log type : LogType) :
    (c.update f type).attributes log = if log = type then f (c.attributes log) else c.attributes log := by
  cases log <;> cases type <;> rfl

theorem ext_attributes {c d : LogConfig} (h : ∀ log, c.attributes log = d.attributes log) : c = d := by
  cases c
  cases d
  have halarm := h .alarm
  have halert := h .alert
  have hcommand := h .commandLog
  simp only [attributes] at halarm halert hcommand
  rw [halarm, halert, hcommand]

end LogConfig

/-! ## The names of the attributes -/

def LogFileName : LogType → List Char
  | .alarm => "AlarmLogFileName=".toList
  | .alert => "AlertLogFileName=".toList
  | .commandLog => "CommandLogFileName=".toList

def FilesRotated : LogType → List Char
  | .alarm => "AlarmFilesRotated=".toList
  | .alert => "AlertFilesRotated=".toList
  | .commandLog => "CommandFilesRotated=".toList

def MaxLogFileSize : LogType → List Char
  | .alarm => "AlarmMaxLogFileSize=".toList
  | .alert => "AlertMaxLogFileSize=".toList
  | .commandLog => "CommandMaxLogFileSize=".toList

def MaxLogRecordSize : LogType → List Char
  | .alarm => "AlarmMaxLogRecordSize=".toList
  | .alert => "AlertMaxLogRecordSize=".toList
  | .commandLog => "CommandMaxLogRecordSize=".toList

/-! ## One line -/

def copyTo (size : Nat) (text : List Char) : Option (List Char) := if text.length < size then some text else none

/-- The digits go into a buffer with this much room, and no text comes of it when there is another character. -/
def copyDigits : Nat → List Char → Option (Option (List Char))
  | 0, [] => none
  | _ + 1, [] => some (some [])
  | 0, c :: _ => if c.isDigit then none else some none
  | room + 1, c :: text => if c.isDigit then (copyDigits room text).map (Option.map (c :: ·)) else some none

/-- `strtoull` with base 0, of digits. A leading `0` makes them octal, and an octal number ends before `8` and `9`. -/
def strtoull (digits : List Char) : UInt64 :=
  UInt64.ofNat (min (2 ^ 64 - 1)
    (if digits.head? = some '0' then Nat.ofDigitChars 8 (digits.takeWhile fun c => c < '8') 0
      else Nat.ofDigitChars 10 digits 0))

def maxLength : Nat := 50

/-- The text behind `cmpText`, which `strncmp` finds at the front. -/
def textBehind (cmpText configText : List Char) : Option (List Char) :=
  if cmpText <+: configText then some (configText.drop cmpText.length) else none

def parseLogFileName (configText cmpText : List Char) (type : LogType) (c : LogConfig) : Option LogConfig :=
  match textBehind cmpText configText with
  | none => some c
  | some text => (copyTo maxLength text).map fun name => c.update (fun a => { a with logFileName := name }) type

def parseNumber (set : UInt64 → LogFileAttributes → LogFileAttributes) (configText cmpText : List Char)
    (type : LogType) (c : LogConfig) : Option LogConfig :=
  match textBehind cmpText configText with
  | none => some c
  | some text =>
    match copyDigits maxLength text with
    | none => none
    -- an illegal character leaves the value as it was
    | some none => some c
    | some (some digits) => some (c.update (set (strtoull digits)) type)

def parseFilesRotated : List Char → List Char → LogType → LogConfig → Option LogConfig :=
  parseNumber fun filesRotated a => { a with maxFilesRotated := filesRotated.toUInt16 }

def parseFileSize : List Char → List Char → LogType → LogConfig → Option LogConfig :=
  parseNumber fun fileSize a => { a with maxLogFileSize := fileSize }

def parseRecordSize : List Char → List Char → LogType → LogConfig → Option LogConfig :=
  parseNumber fun recordSize a => { a with maxLogRecordSize := recordSize.toUInt32 }

def cString (buf : List Char) : List Char := buf.takeWhile fun c => c ≠ '\x00'

def spaceFiltered (configText : List Char) : List Char := configText.filter fun c => c ≠ ' ' ∧ c ≠ '\n'

def parseSaLogConfig (c : LogConfig) (configText : List Char) : Option LogConfig :=
  if (cString configText).length ≤ maxLength then do
    let buffer ← copyTo maxLength (spaceFiltered (cString configText))
    let c ← parseLogFileName buffer (LogFileName .alarm) .alarm c
    let c ← parseLogFileName buffer (LogFileName .alert) .alert c
    let c ← parseLogFileName buffer (LogFileName .commandLog) .commandLog c
    let c ← parseFilesRotated buffer (FilesRotated .alarm) .alarm c
    let c ← parseFilesRotated buffer (FilesRotated .alert) .alert c
    let c ← parseFilesRotated buffer (FilesRotated .commandLog) .commandLog c
    let c ← parseFileSize buffer (MaxLogFileSize .alarm) .alarm c
    let c ← parseFileSize buffer (MaxLogFileSize .alert) .alert c
    let c ← parseFileSize buffer (MaxLogFileSize .commandLog) .commandLog c
    let c ← parseRecordSize buffer (MaxLogRecordSize .alarm) .alarm c
    let c ← parseRecordSize buffer (MaxLogRecordSize .alert) .alert c
    parseRecordSize buffer (MaxLogRecordSize .commandLog) .commandLog c
  else some c

/-! ## The file -/

def defaultConfig : LogConfig where
  alarmLogFileAttributes :=
    { logFileName := "FmAlarmLog".toList
      logFilePathName := "FaultManagementLog/alarm".toList
      maxLogFileSize := 500000
      maxLogRecordSize := 1024
      haProperty := true
      logFileFullAction := .rotate
      maxFilesRotated := 11
      logFileFmt := "@Cb".toList }
  alertLogFileAttributes :=
    { logFileName := "FmAlertLog".toList
      logFilePathName := "FaultManagementLog/alert".toList
      maxLogFileSize := 500000
      maxLogRecordSize := 1024
      haProperty := true
      logFileFullAction := .rotate
      maxFilesRotated := 11
      logFileFmt := "@Cb".toList }
  cmdLogFileAttributes :=
    { logFileName := "ComCliCommandLog".toList
      logFilePathName := "COM".toList
      maxLogFileSize := 5000000
      maxLogRecordSize := 0
      haProperty := true
      logFileFullAction := .rotate
      maxFilesRotated := 11
      logFileFmt := "@Cb".toList }

def MAX_PATH_DATA_LENGTH : Nat := 256

def fgetsAll (file : List Char) : List (List Char) := readLines '\n' (MAX_PATH_DATA_LENGTH - 1) file

def loadSaLogConfig (file : Option (List Char)) : Option LogConfig :=
  match file with
  | none => some defaultConfig
  | some file => (fgetsAll file).foldlM parseSaLogConfig defaultConfig

end ComSA.Log
