import ComSA.Motransaction.DnRoundTrip
import ComSA.Ntf.AlarmNames

/-!
# Alarms of COM

COM sends alarms through NTF, and receives those of NTF. What it receives of its own alarm is what it sent, if the name
of the object comes back and the sizes fit into those of NTF.
-/

namespace ComSA.Alarm

open SaName (saMaxUnextendedNameLength)

/-! ## The alarms -/

structure FmNotification where
  dn : Option Text
  eventTime : UInt64
  majorType : UInt32
  minorType : UInt32
  additionalText : Option Text
  severity : Nat
  additionalInfo : List FmAdditionalInfo

inductive EventType where
  | alarm
  | qos
  deriving DecidableEq, Repr

inductive ProbableCause where
  | unspecifiedReason
  deriving DecidableEq, Repr

inductive Trend where
  | noChange
  deriving DecidableEq, Repr

structure SentHeader where
  eventType : EventType
  notifyingObject : Text
  notificationHeader : NotificationHeader
  /-- What the values of the additional information lead to. -/
  values : List Text

structure AlarmNotification extends SentHeader where
  perceivedSeverity : Nat
  probableCause : ProbableCause
  trend : Option Trend
  thresholdId : Nat

structure Service where
  names : NameEnv
  lm : Bool
  mafSpiNtfFmVersion : FmVersion
  uuidCfgFlag : UuidCfg
  filter : Bool
  pmAlarm : NotificationHeader → Except (Option Text) PmAlarm
  saNtfAlarmNotificationAllocate : Bool
  saNtfPtrValAllocate : Nat → Bool
  saNtfNotificationSend : Bool

inductive NotifyReturn where
  | ok
  | failure
  | invalidArgument
  deriving DecidableEq, Repr

variable (m : Service)

/-! ## To NTF -/

def uint16 (n : Nat) : Nat := n % 65536

def copyInto (size : Nat) (s : Text) : Option Text :=
  (Buffer.store 0 (s.chars ++ [nul]) (List.replicate size nul)).map Text.ofChars

/-- The text is copied into the memory that the header was allocated with. -/
def copyAdditionalText (lengthAdditionalText : Nat) (additionalText : Option Text) : Option (Option Text) :=
  match additionalText with
  | none => some none
  | some additionalText => (copyInto lengthAdditionalText additionalText).map some

def additionalInfoIdent : Nat := 20

/-- The loop over the additional information. `none` in the result where there is no memory for a value. -/
def copyInfosToNtf : List FmAdditionalInfo → Nat → List (Option AdditionalInfo) → List Text →
    Option (Option (List (Option AdditionalInfo) × List Text))
  | [], _, additionalInfo, values => some (some (additionalInfo, values))
  | info :: infos, iAddInfo, additionalInfo, values => do
    let additionalInfo ← Buffer.store iAddInfo [some ⟨additionalInfoIdent, .string, iAddInfo⟩] additionalInfo
    if m.saNtfPtrValAllocate iAddInfo then
      let value ← copyInto (uint16 (info.value.chars.length + 1)) info.value
      copyInfosToNtf infos (iAddInfo + 1) additionalInfo (values ++ [value])
    else some none

def copyAdditionalInfos (comNot : FmNotification) (numAdditionalInfo : Nat) :
    Option (Option (List (Option AdditionalInfo) × List Text)) :=
  if m.mafSpiNtfFmVersion = .fm3 then some (some ([], []))
  else copyInfosToNtf m comNot.additionalInfo 0 (List.replicate numAdditionalInfo none) []

def convertObjects (dn : Text) : Option (Option (EventType × Text × Text)) :=
  if m.lm then
    (licenseObject m.names dn).map fun r => r.map fun notificationObject =>
      (.qos, notificationObject, ⟨"lmId=1".toList, by decide⟩)
  else do
    match ← convertToImm m.names dn with
    | none => some none
    | some notificationObject =>
      let notifyingObject ← setName notificationObject
      some (some (.alarm, notificationObject, notifyingObject))

/-- The lengths are those that the header was allocated with. `none` in the result for `MafFailure`. -/
def convertMafHeader4ToNtf (comNot : FmNotification) (lengthAdditionalText numAdditionalInfo : Nat) :
    Option (Option SentHeader) :=
  match comNot.dn with
  | none => some none
  | some dn => do
    match ← convertObjects m dn with
    | none => some none
    | some (eventType, notificationObject, notifyingObject) =>
      let additionalText ← copyAdditionalText lengthAdditionalText comNot.additionalText
      match ← copyAdditionalInfos m comNot numAdditionalInfo with
      | none => some none
      | some (additionalInfo, values) =>
        some (some {
          eventType := eventType
          notifyingObject := notifyingObject
          notificationHeader := {
            eventTime := comNot.eventTime.toBitVec.toInt
            notificationObject := notificationObject
            vendorId := comNot.majorType.toNat
            majorId := comNot.minorType.toNat / 65536
            minorId := comNot.minorType.toNat % 65536
            additionalText := additionalText
            additionalInfo := additionalInfo.filterMap id }
          values := values })

def eventComponent3 : List Char := "MafOamSpiNotificationFmEventComponent_3".toList
def eventComponent4 : List Char := "MafOamSpiNotificationFmEventComponent_4".toList

def eventTypeKnown (eventType : Text) : Bool :=
  let lenFmEventComponent := eventComponent4.length
  let component := if m.mafSpiNtfFmVersion = .fm3 then eventComponent3 else eventComponent4
  eventType.chars.take (lenFmEventComponent - 1) = component.take (lenFmEventComponent - 1)

def Service.given (value : FmNotification) : FmNotification :=
  if m.mafSpiNtfFmVersion = .fm3 then { value with additionalInfo := [] } else value

def Service.ntfAlarm (notification : FmNotification) (header : SentHeader) : AlarmNotification :=
  { header with
    perceivedSeverity := notification.severity
    probableCause := .unspecifiedReason
    trend := if m.lm then some .noChange else none
    thresholdId := 0xFF }

/-- With the alarm that was sent. A pointer that is NULL is `none`, or `false`. -/
def comsaNotify4 (handle : Nat) (eventType : Option Text) (filter : Bool) (value : Option FmNotification) :
    Option (NotifyReturn × Option AlarmNotification) :=
  match eventType, value with
  | some eventType, some value =>
    if handle = 0 ∨ filter = false ∨ eventTypeKnown m eventType = false then some (.invalidArgument, none)
    else
      let notification := m.given value
      let lengthAdditionalText := notification.additionalText.elim 0 fun t => t.chars.length + 1
      if m.saNtfAlarmNotificationAllocate then do
        match ← convertMafHeader4ToNtf m notification (uint16 lengthAdditionalText)
            (uint16 notification.additionalInfo.length) with
        | none => some (.failure, none)
        | some header =>
          if m.saNtfNotificationSend then some (.ok, some (m.ntfAlarm notification header)) else some (.failure, none)
      else some (.failure, none)
  | _, _ => some (.invalidArgument, none)

/-! ## From NTF -/

def Service.env (values : List Text) : Env where
  uuidCfgFlag := m.uuidCfgFlag
  mafSpiNtfFmVersion := m.mafSpiNtfFmVersion
  filter := m.filter
  saNtfPtrValGet := fun i => values[i]?
  convertTo3Gpp := convertTo3Gpp m.names
  convertTo3GPPDN := convertTo3GPPDN m.names
  pmAlarm := m.pmAlarm

/-- What `saNtfNotificationCallback4` makes of an alarm before it is queued, with its severity. There is no result where
the assertion fails. -/
def notificationReceived (alarm : AlarmNotification) : Option (MafReturn × FmStruct4 × Nat) := do
  let (maf_rc, comNot) ← convertHeader4 (m.env alarm.values) alarm.notificationHeader {}
  if maf_rc = .ok ∨ maf_rc = .notExist then some (maf_rc, comNot, alarm.perceivedSeverity) else none

structure SameAlarm (sent : FmNotification) (comNot : FmStruct4) (severity : Nat) : Prop where
  dn : comNot.dn = sent.dn
  eventTime : UInt64.ofInt comNot.eventTime = sent.eventTime
  majorType : comNot.majorType = sent.majorType.toNat
  minorType : comNot.minorType = sent.minorType.toNat
  additionalText : comNot.text = sent.additionalText.map CString.chars
  severity : severity = sent.severity
  additionalInfo : comNot.additionalInfo = ⟨sent.additionalInfo.length, sent.additionalInfo.map some⟩

/-! ## What is sent -/

structure Sized (n : FmNotification) : Prop where
  text : ∀ t, n.additionalText = some t → t.chars.length + 1 < 65536
  infos : n.additionalInfo.length < 65536
  values : ∀ info ∈ n.additionalInfo, info.value.chars.length + 1 < 65536

def entries (first n : Nat) : List AdditionalInfo :=
  (List.range' first n).map fun i => ⟨additionalInfoIdent, .string, i⟩

def sentHeader (n : FmNotification) (eventType : EventType) (notificationObject notifyingObject : Text) :
    SentHeader where
  eventType := eventType
  notifyingObject := notifyingObject
  notificationHeader := {
    eventTime := n.eventTime.toBitVec.toInt
    notificationObject := notificationObject
    vendorId := n.majorType.toNat
    majorId := n.minorType.toNat / 65536
    minorId := n.minorType.toNat % 65536
    additionalText := n.additionalText
    additionalInfo := entries 0 n.additionalInfo.length }
  values := n.additionalInfo.map FmAdditionalInfo.value

section
variable {m}

theorem copyInto_iff {size : Nat} {s t : Text} : copyInto size s = some t ↔ s = t ∧ s.chars.length < size := by
  unfold copyInto
  by_cases hfits : s.chars.length < size
  · have hlen : (s.chars ++ [nul]).length ≤ size := by
      rw [List.length_append, List.length_singleton]
      omega
    have hstore : Buffer.store 0 (s.chars ++ [nul]) (List.replicate size nul) =
        some (s.chars ++ [nul] ++ List.replicate (size - (s.chars ++ [nul]).length) nul) :=
      Buffer.store_replicate [] hlen
    have hcut := (cut_first (b := List.replicate (size - (s.chars ++ [nul]).length) nul) s.nulFree).1
    have hread : Text.ofChars (s.chars ++ [nul] ++ List.replicate (size - (s.chars ++ [nul]).length) nul) = s := by
      unfold Text.ofChars
      rw [CString.mk.injEq, List.append_assoc, List.singleton_append]
      exact hcut
    rw [hstore, Option.map_some, hread]
    simp [hfits]
  · have hstore : Buffer.store 0 (s.chars ++ [nul]) (List.replicate size nul) = none := by
      unfold Buffer.store
      rw [if_neg]
      simp
      omega
    rw [hstore]
    simp [hfits]

theorem entries_succ (first n : Nat) :
    entries first (n + 1) = ⟨additionalInfoIdent, .string, first⟩ :: entries (first + 1) n := by
  unfold entries
  rw [List.range'_succ, List.map_cons]

theorem copyInfosToNtf_iff (halloc : ∀ i, m.saNtfPtrValAllocate i = true) (infos : List FmAdditionalInfo)
    (written : List (Option AdditionalInfo)) (k : Nat) (values : List Text)
    {r : Option (List (Option AdditionalInfo) × List Text)} :
    copyInfosToNtf m infos written.length (written ++ List.replicate k none) values = some r ↔
      (infos.length ≤ k ∧ ∀ info ∈ infos, info.value.chars.length + 1 < 65536) ∧
        r = some (written ++ (entries written.length infos.length).map some ++ List.replicate (k - infos.length) none,
          values ++ infos.map FmAdditionalInfo.value) := by
  induction infos generalizing written k values with
  | nil =>
    simp [copyInfosToNtf, entries, eq_comm]
  | cons info infos ih =>
    have hcopy : copyInto (uint16 (info.value.chars.length + 1)) info.value =
        if info.value.chars.length + 1 < 65536 then some info.value else none := by
      have hsize : info.value.chars.length < uint16 (info.value.chars.length + 1) ↔
          info.value.chars.length + 1 < 65536 := by
        unfold uint16
        omega
      split <;> rename_i hfits
      · exact copyInto_iff.mpr ⟨rfl, hsize.mpr hfits⟩
      · exact Option.eq_none_iff_forall_ne_some.mpr fun t ht => hfits (hsize.mp (copyInto_iff.mp ht).2)
    unfold copyInfosToNtf
    cases k with
    | zero =>
      have hfull : Buffer.store written.length [some (⟨additionalInfoIdent, .string, written.length⟩ : AdditionalInfo)]
          (written ++ List.replicate 0 none) = none := by
        unfold Buffer.store
        rw [if_neg]
        simp
      rw [hfull]
      simp
    | succ k =>
      have hstore : Buffer.store written.length [some (⟨additionalInfoIdent, .string, written.length⟩ : AdditionalInfo)]
          (written ++ List.replicate (k + 1) none) =
            some (written ++ [some ⟨additionalInfoIdent, .string, written.length⟩] ++ List.replicate k none) :=
        Buffer.store_replicate _ (by simp)
      have hrest := @ih (written ++ [some ⟨additionalInfoIdent, .string, written.length⟩]) k (values ++ [info.value])
      rw [List.length_append, List.length_singleton] at hrest
      rw [hstore, Option.bind_eq_bind, Option.bind_some, if_pos (halloc _), hcopy]
      by_cases hfits : info.value.chars.length + 1 < 65536
      · rw [if_pos hfits, Option.bind_eq_bind, Option.bind_some, hrest, List.length_cons, entries_succ]
        simp [hfits]
      · rw [if_neg hfits]
        refine iff_of_false (by simp) fun h => hfits (h.1.2 info List.mem_cons_self)

theorem copyAdditionalText_iff {text r : Option Text} :
    copyAdditionalText (uint16 (text.elim 0 fun t => t.chars.length + 1)) text = some r ↔
      (∀ t, text = some t → t.chars.length + 1 < 65536) ∧ r = text := by
  cases text with
  | none => simp [copyAdditionalText, eq_comm]
  | some t =>
    have hsize : t.chars.length < uint16 (t.chars.length + 1) ↔ t.chars.length + 1 < 65536 := by
      unfold uint16
      omega
    simp only [copyAdditionalText, Option.elim_some, Option.map_eq_some_iff, copyInto_iff, hsize, Option.some_inj]
    constructor
    · rintro ⟨_, ⟨rfl, hfits⟩, rfl⟩
      exact ⟨fun _ h => h ▸ hfits, rfl⟩
    · rintro ⟨hfits, rfl⟩
      exact ⟨t, ⟨rfl, hfits t rfl⟩, rfl⟩

theorem copyAdditionalInfos_iff (halloc : ∀ i, m.saNtfPtrValAllocate i = true) {n : FmNotification}
    (hfm3 : m.mafSpiNtfFmVersion = .fm3 → n.additionalInfo = [])
    {r : Option (List (Option AdditionalInfo) × List Text)} :
    copyAdditionalInfos m n (uint16 n.additionalInfo.length) = some r ↔
      (n.additionalInfo.length < 65536 ∧ ∀ info ∈ n.additionalInfo, info.value.chars.length + 1 < 65536) ∧
        r = some ((entries 0 n.additionalInfo.length).map some, n.additionalInfo.map FmAdditionalInfo.value) := by
  have hsize : n.additionalInfo.length ≤ uint16 n.additionalInfo.length ↔ n.additionalInfo.length < 65536 := by
    unfold uint16
    omega
  have hloop := @copyInfosToNtf_iff m halloc n.additionalInfo [] (uint16 n.additionalInfo.length) [] r
  unfold copyAdditionalInfos
  split <;> rename_i hversion
  · simp [hfm3 hversion, entries, eq_comm]
  · refine hloop.trans ?_
    rw [hsize]
    refine and_congr_right fun hfits => ?_
    have hexact : uint16 n.additionalInfo.length - n.additionalInfo.length = 0 := by
      unfold uint16
      omega
    rw [hexact]
    simp

theorem convertMafHeader4ToNtf_iff (halloc : ∀ i, m.saNtfPtrValAllocate i = true) {n : FmNotification} {dn : Text}
    (hdn : n.dn = some dn) (hfm3 : m.mafSpiNtfFmVersion = .fm3 → n.additionalInfo = []) {header : SentHeader} :
    convertMafHeader4ToNtf m n (uint16 (n.additionalText.elim 0 fun t => t.chars.length + 1))
        (uint16 n.additionalInfo.length) = some (some header) ↔
      Sized n ∧ ∃ eventType notificationObject notifyingObject,
        convertObjects m dn = some (some (eventType, notificationObject, notifyingObject)) ∧
          header = sentHeader n eventType notificationObject notifyingObject := by
  unfold convertMafHeader4ToNtf
  rw [hdn]
  simp only [Option.bind_eq_bind, Option.bind_eq_some_iff]
  constructor
  · rintro ⟨objects, hobjects, h⟩
    cases objects with
    | none => cases h
    | some objects =>
      obtain ⟨eventType, notificationObject, notifyingObject⟩ := objects
      obtain ⟨text, htext, h⟩ := Option.bind_eq_some_iff.mp h
      obtain ⟨copied, hcopied, h⟩ := Option.bind_eq_some_iff.mp h
      obtain ⟨hfits, rfl⟩ := copyAdditionalText_iff.mp htext
      obtain ⟨⟨hlen, hvalues⟩, rfl⟩ := (copyAdditionalInfos_iff halloc hfm3).mp hcopied
      refine ⟨⟨hfits, hlen, hvalues⟩, _, _, _, hobjects, ?_⟩
      rw [← Option.some_inj.mp (Option.some_inj.mp h)]
      simp [sentHeader]
  · rintro ⟨hsized, eventType, notificationObject, notifyingObject, hobjects, rfl⟩
    refine ⟨_, hobjects, ?_⟩
    dsimp only
    rw [copyAdditionalText_iff.mpr ⟨hsized.text, rfl⟩, Option.bind_some,
      (copyAdditionalInfos_iff halloc hfm3).mpr ⟨⟨hsized.infos, hsized.values⟩, rfl⟩, Option.bind_some]
    simp [sentHeader]

end

/-! ## What is received -/

structure ReadAs (nh : NotificationHeader) (values : List Text) (dn : Text) (comNot : FmStruct4) : Prop where
  dn : comNot.dn = some dn
  eventTime : comNot.eventTime = nh.eventTime
  majorType : comNot.majorType = nh.vendorId
  minorType : comNot.minorType = (nh.majorId <<< 16) ||| nh.minorId
  additionalText : comNot.text = nh.additionalText.map fun t => t.chars ++ suffix (m.env values) nh
  additionalInfo : comNot.additionalInfo =
    if m.mafSpiNtfFmVersion = .fm3 then {} else filled (m.env values) nh

section
variable {m}

theorem convertLegacy_none {env : Env} {nh : NotificationHeader}
    (hname : env.convertTo3GPPDN nh.notificationObject = none) :
    ∃ comNot, convertLegacy env nh {} = some (.noResources, comNot) := by
  obtain ⟨text, htext, -⟩ := convertAdditionalText_eq env nh
  have hcopy := copyAdditionalInfo_eq env nh { ({} : FmStruct4) with eventTime := nh.eventTime } rfl
  unfold convertLegacy
  by_cases hversion : env.mafSpiNtfFmVersion = .fm3
  · simp only [if_pos hversion, htext, Option.bind_eq_bind, Option.bind_some, hname]
    exact ⟨_, rfl⟩
  · simp only [if_neg hversion, hcopy, htext, Option.bind_eq_bind, Option.bind_some, hname]
    exact ⟨_, rfl⟩

theorem convertLegacy_some {nh : NotificationHeader} {values : List Text} {dn : Text}
    (hname : convertTo3GPPDN m.names nh.notificationObject = some dn) :
    ∃ comNot, convertLegacy (m.env values) nh {} = some (.ok, comNot) ∧ ReadAs m nh values dn comNot := by
  have hname : (m.env values).convertTo3GPPDN nh.notificationObject = some dn := hname
  obtain ⟨text, htext, hread⟩ := convertAdditionalText_eq (m.env values) nh
  have hcopy := copyAdditionalInfo_eq (m.env values) nh { ({} : FmStruct4) with eventTime := nh.eventTime } rfl
  unfold convertLegacy
  by_cases hversion : m.mafSpiNtfFmVersion = .fm3
  · have hfm3 : (m.env values).mafSpiNtfFmVersion = .fm3 := hversion
    simp only [if_pos hfm3, htext, Option.bind_eq_bind, Option.bind_some, hname]
    exact ⟨_, rfl, rfl, rfl, rfl, rfl, hread, (if_pos hversion).symm⟩
  · have hfm4 : (m.env values).mafSpiNtfFmVersion ≠ .fm3 := hversion
    simp only [if_neg hfm4, hcopy, htext, Option.bind_eq_bind, Option.bind_some, hname]
    exact ⟨_, rfl, rfl, rfl, rfl, rfl, hread, (if_neg hversion).symm⟩

theorem convertHeader4_legacy (hfilter : m.filter = true) {nh : NotificationHeader} (hpm : nh.isPmThreshold = false)
    (values : List Text) : convertHeader4 (m.env values) nh {} = convertLegacy (m.env values) nh {} := by
  have hfilter : (m.env values).filter = true := hfilter
  unfold convertHeader4
  rw [if_neg (by simp [hfilter]), if_neg (by simp [hpm])]

theorem notificationReceived_none (hfilter : m.filter = true) (alarm : AlarmNotification)
    (hpm : alarm.notificationHeader.isPmThreshold = false)
    (hname : convertTo3GPPDN m.names alarm.notificationHeader.notificationObject = none) :
    notificationReceived m alarm = none := by
  have hname : (m.env alarm.values).convertTo3GPPDN alarm.notificationHeader.notificationObject = none := hname
  obtain ⟨comNot, hconvert⟩ := convertLegacy_none hname
  unfold notificationReceived
  rw [convertHeader4_legacy hfilter hpm, hconvert]
  rfl

theorem notificationReceived_some (hfilter : m.filter = true) (alarm : AlarmNotification)
    (hpm : alarm.notificationHeader.isPmThreshold = false) {dn : Text}
    (hname : convertTo3GPPDN m.names alarm.notificationHeader.notificationObject = some dn) :
    ∃ comNot, notificationReceived m alarm = some (.ok, comNot, alarm.perceivedSeverity) ∧
      ReadAs m alarm.notificationHeader alarm.values dn comNot := by
  obtain ⟨comNot, hconvert, hread⟩ := @convertLegacy_some m _ alarm.values dn hname
  refine ⟨comNot, ?_, hread⟩
  unfold notificationReceived
  rw [convertHeader4_legacy hfilter hpm, hconvert]
  rfl

/-! ## What comes back -/

variable {n : FmNotification} {eventType : EventType} {notificationObject notifyingObject : Text}

theorem isUUIDAlarm_entries (nh : NotificationHeader) {first k : Nat} {info : AdditionalInfo}
    (hinfo : info ∈ entries first k) : nh.isUUIDAlarm info = false := by
  obtain ⟨i, -, rfl⟩ := List.mem_map.mp hinfo
  simp [NotificationHeader.isUUIDAlarm, additionalInfoIdent, uuid]

theorem toArray_of_entries {env : Env} {nh : NotificationHeader} {k : Nat} (hinfos : nh.additionalInfo = entries 0 k) :
    toArray env nh = entries 0 k := by
  unfold toArray
  rw [hinfos, List.filter_eq_self]
  intro info hinfo
  simp [forArray, isUUIDAlarm_entries nh hinfo]

theorem suffix_of_entries {env : Env} {nh : NotificationHeader} {k : Nat} (hinfos : nh.additionalInfo = entries 0 k) :
    suffix env nh = [] := by
  have hnone : toText env nh = [] := by
    unfold toText
    split
    · rw [hinfos, List.filter_eq_nil_iff]
      intro info hinfo
      simp [isUUIDAlarm_entries nh hinfo]
    · rfl
  unfold suffix mapped
  rw [hnone, List.filterMap_nil, if_pos rfl]

theorem filled_of_entries {nh : NotificationHeader} {values : List Text}
    (hinfos : nh.additionalInfo = entries 0 values.length) :
    filled (m.env values) nh = ⟨values.length, values.map fun value => some ⟨emptyText, value⟩⟩ := by
  unfold filled
  rw [toArray_of_entries hinfos, FmAdditionalInfos.mk.injEq]
  refine ⟨by simp [entries], ?_⟩
  apply List.ext_getElem
  · simp [entries]
  · intro i hi hi'
    have hlen : i < values.length := by simpa using hi'
    simp [entries, element, getAdditionalInfoName, Service.env, NotificationHeader.isUUIDAlarm, additionalInfoIdent,
      uuid, List.getElem?_eq_getElem hlen]

theorem minorType_eq (x : Nat) : ((x / 65536) <<< 16 ||| x % 65536) = x := by
  rw [← Nat.shiftLeft_add_eq_or_of_lt (Nat.mod_lt _ (by decide)), Nat.shiftLeft_eq]
  omega

theorem eventTime_eq (x : UInt64) : UInt64.ofInt x.toBitVec.toInt = x := by
  have hx := x.toNat_lt
  have htoInt := BitVec.toInt_eq_toNat_cond x.toBitVec
  have hnat : (x.toBitVec.toInt % 2 ^ 64).toNat = x.toNat := by
    rw [UInt64.toNat_toBitVec] at htoInt
    split at htoInt <;> omega
  unfold UInt64.ofInt
  rw [hnat, UInt64.ofNat_toNat]

theorem given_eq (hfm3 : m.mafSpiNtfFmVersion = .fm3 → n.additionalInfo = []) : m.given n = n := by
  unfold Service.given
  split <;> rename_i hversion
  · rw [← hfm3 hversion]
  · rfl

theorem received_additionalInfo_iff {dn : Text} {comNot : FmStruct4}
    (hread : ReadAs m (sentHeader (m.given n) eventType notificationObject notifyingObject).notificationHeader
      (sentHeader (m.given n) eventType notificationObject notifyingObject).values dn comNot) :
    comNot.additionalInfo = ⟨n.additionalInfo.length, n.additionalInfo.map some⟩ ↔
      (m.mafSpiNtfFmVersion = .fm3 → n.additionalInfo = []) ∧ ∀ info ∈ n.additionalInfo, info.name = emptyText := by
  rw [hread.additionalInfo]
  by_cases hversion : m.mafSpiNtfFmVersion = .fm3
  · rw [if_pos hversion, FmAdditionalInfos.mk.injEq]
    constructor
    · rintro ⟨-, hinfos⟩
      have hnil := List.map_eq_nil_iff.mp hinfos.symm
      exact ⟨fun _ => hnil, fun info hinfo => by rw [hnil] at hinfo; cases hinfo⟩
    · rintro ⟨hfm3, -⟩
      rw [hfm3 hversion]
      exact ⟨rfl, rfl⟩
  · have hlen : (n.additionalInfo.map FmAdditionalInfo.value).length = n.additionalInfo.length := List.length_map _
    have hentries : (sentHeader n eventType notificationObject notifyingObject).notificationHeader.additionalInfo =
        entries 0 (n.additionalInfo.map FmAdditionalInfo.value).length := by
      rw [hlen]
      rfl
    have hfilled : filled (m.env (sentHeader n eventType notificationObject notifyingObject).values)
        (sentHeader n eventType notificationObject notifyingObject).notificationHeader =
          ⟨(n.additionalInfo.map FmAdditionalInfo.value).length,
            (n.additionalInfo.map FmAdditionalInfo.value).map fun value => some ⟨emptyText, value⟩⟩ :=
      filled_of_entries hentries
    rw [if_neg hversion, given_eq fun h => absurd h hversion, hfilled, FmAdditionalInfos.mk.injEq, hlen,
      and_iff_right rfl, and_iff_right fun h => absurd h hversion, List.map_map, List.map_inj_left]
    refine forall₂_congr fun info _ => ?_
    cases info
    simp [eq_comm]

theorem sameAlarm_iff {dn dn' : Text} {comNot : FmStruct4} (hdn : n.dn = some dn)
    (hread : ReadAs m (sentHeader (m.given n) eventType notificationObject notifyingObject).notificationHeader
      (sentHeader (m.given n) eventType notificationObject notifyingObject).values dn' comNot) :
    SameAlarm n comNot n.severity ↔ dn' = dn ∧ (m.mafSpiNtfFmVersion = .fm3 → n.additionalInfo = []) ∧
      ∀ info ∈ n.additionalInfo, info.name = emptyText := by
  have hinfos := received_additionalInfo_iff hread
  obtain ⟨hdn', htime, hmajor, hminor, htext, -⟩ := hread
  have hgiven : m.given n = { n with additionalInfo := (m.given n).additionalInfo } := by
    unfold Service.given
    split <;> rfl
  rw [suffix_of_entries (k := (m.given n).additionalInfo.length) rfl] at htext
  rw [hgiven] at htime hmajor hminor htext
  have htext : comNot.text = n.additionalText.map CString.chars := by
    rw [htext]
    simp [sentHeader]
  rw [← hinfos]
  constructor
  · intro h
    have hsame := h.dn
    rw [hdn', hdn, Option.some_inj] at hsame
    exact ⟨hsame, h.additionalInfo⟩
  · rintro ⟨rfl, hinfos⟩
    exact ⟨hdn'.trans hdn.symm, by rw [htime]; exact eventTime_eq _, hmajor, hminor.trans (minorType_eq _), htext,
      rfl, hinfos⟩

/-! ## Alarms that come back -/

structure Works (m : Service) : Prop where
  filter : m.filter = true
  allocate : m.saNtfAlarmNotificationAllocate = true
  ptrValAllocate : ∀ i, m.saNtfPtrValAllocate i = true
  send : m.saNtfNotificationSend = true

theorem comsaNotify4_iff (works : Works m) {handle : Nat} (hhandle : handle ≠ 0) {type dn : Text}
    (htype : eventTypeKnown m type = true) (hdn : n.dn = some dn) {alarm : AlarmNotification} :
    comsaNotify4 m handle (some type) true (some n) = some (.ok, some alarm) ↔
      Sized (m.given n) ∧ ∃ eventType notificationObject notifyingObject,
        convertObjects m dn = some (some (eventType, notificationObject, notifyingObject)) ∧
          alarm = m.ntfAlarm n (sentHeader (m.given n) eventType notificationObject notifyingObject) := by
  have hgiven : (m.given n).dn = some dn ∧ (∀ header, m.ntfAlarm (m.given n) header = m.ntfAlarm n header) ∧
      (m.mafSpiNtfFmVersion = .fm3 → (m.given n).additionalInfo = []) := by
    unfold Service.given
    split <;> rename_i hversion
    · exact ⟨hdn, fun _ => rfl, fun _ => rfl⟩
    · exact ⟨hdn, fun _ => rfl, fun h => absurd h hversion⟩
  have hheader (header : SentHeader) :=
    @convertMafHeader4ToNtf_iff m works.ptrValAllocate _ dn hgiven.1 hgiven.2.2 header
  unfold comsaNotify4
  dsimp only
  rw [if_neg (by simp [hhandle, htype]), if_pos works.allocate]
  simp only [Option.bind_eq_bind, Option.bind_eq_some_iff, hgiven.2.1]
  constructor
  · rintro ⟨converted, hconverted, h⟩
    cases converted with
    | none => cases h
    | some header =>
      obtain ⟨hsized, eventType, notificationObject, notifyingObject, hobjects, rfl⟩ := (hheader header).mp hconverted
      dsimp only at h
      rw [if_pos works.send] at h
      cases h
      exact ⟨hsized, _, _, _, hobjects, rfl⟩
  · rintro ⟨hsized, eventType, notificationObject, notifyingObject, hobjects, rfl⟩
    refine ⟨_, (hheader _).mpr ⟨hsized, _, _, _, hobjects, rfl⟩, ?_⟩
    dsimp only
    rw [if_pos works.send]

theorem convertObjects_iff (hlm : m.lm = false) {dn : Text} :
    convertObjects m dn = some (some (eventType, notificationObject, notifyingObject)) ↔
      eventType = .alarm ∧ notifyingObject = notificationObject ∧
        m.names.MO2Imm_DN dn = notificationObject ∧ notificationObject.chars.length < saMaxUnextendedNameLength := by
  unfold convertObjects
  rw [if_neg (by simp [hlm]), ← convertToImm_iff]
  simp only [Option.bind_eq_bind, Option.bind_eq_some_iff]
  constructor
  · rintro ⟨converted, hconverted, h⟩
    cases converted with
    | none => cases h
    | some object =>
      have hfits := (convertToImm_iff.mp hconverted).2
      obtain ⟨object', hset, h⟩ := Option.bind_eq_some_iff.mp h
      obtain ⟨rfl, -⟩ := (setName_iff (Nat.le_of_lt hfits)).mp hset
      cases h
      exact ⟨rfl, rfl, hconverted⟩
  · rintro ⟨rfl, rfl, hconverted⟩
    have hfits := (convertToImm_iff.mp hconverted).2
    refine ⟨_, hconverted, ?_⟩
    dsimp only
    rw [(setName_iff (Nat.le_of_lt hfits)).mpr ⟨rfl, hfits⟩]
    rfl

theorem isPmThreshold_sentHeader :
    (sentHeader (m.given n) eventType notificationObject notifyingObject).notificationHeader.isPmThreshold = true ↔
    n.majorType.toNat = saNtfVendorIdSaf ∧ n.minorType.toNat = 20 * 65536 + 1 := by
  have hgiven : (m.given n).majorType = n.majorType ∧ (m.given n).minorType = n.minorType := by
    unfold Service.given
    split <;> exact ⟨rfl, rfl⟩
  unfold NotificationHeader.isPmThreshold sentHeader
  dsimp only
  rw [hgiven.1, hgiven.2, decide_eq_true_iff]
  refine and_congr_right fun _ => ?_
  omega

def NameKept (env : NameEnv) (dn : Text) : Prop :=
  let imm := (env.MO2Imm_DN dn).chars
  imm.length < saMaxUnextendedNameLength ∧
    if imm.take 4 = "3GPP".toList then imm = "3GPP".toList ++ dn.chars
    else managedElement <:+: dn.chars ∧ ¬ safSi <:+: dn.chars ∧ ¬ safNode <:+: dn.chars

theorem convertTo3GPPDN_iff {env : NameEnv} {imm dn : Text} (h : env.Imm2MO_DN imm = some dn) :
    convertTo3GPPDN env imm = some dn ↔
      if imm.chars.take 4 = "3GPP".toList then imm.chars = "3GPP".toList ++ dn.chars
      else managedElement <:+: dn.chars ∧ ¬ safSi <:+: dn.chars ∧ ¬ safNode <:+: dn.chars := by
  unfold convertTo3GPPDN
  by_cases hmark : imm.chars.take 4 = "3GPP".toList
  · have hlen : 4 ≤ imm.chars.length := by
      have hcount := congrArg List.length hmark
      have hfour : "3GPP".toList.length = 4 := by decide
      rw [List.length_take, hfour] at hcount
      omega
    have hfree : nul ∉ imm.chars.drop 4 := fun hmem => imm.nulFree (List.mem_of_mem_drop hmem)
    have hsplit : imm.chars = "3GPP".toList ++ imm.chars.drop 4 := by
      rw [← hmark, List.take_append_drop]
    rw [if_pos ⟨hlen, hmark⟩, if_pos hmark, Option.some_inj, Text.ofChars_of_nulFree hfree]
    constructor
    · rintro rfl
      exact hsplit
    · intro himm
      rw [hsplit] at himm
      have hrest := List.append_cancel_left himm
      cases dn
      cases hrest
      rfl
  · rw [if_neg fun hin => hmark hin.2, if_neg hmark, convertTo3Gpp_iff h]

end

/-- COM receives its own alarm as it sent it exactly if the name of the object is one that comes back, the sizes are
ones that NTF has, the entries have no names, and FM has a place for them. -/
theorem received_as_sent_iff (m : Service) (works : Works m) (hlm : m.lm = false) (handle : Nat) (hhandle : handle ≠ 0)
    (type dn : Text) (htype : eventTypeKnown m type = true) (n : FmNotification) (hdn : n.dn = some dn)
    (hname : m.names.Imm2MO_DN (m.names.MO2Imm_DN dn) = some dn)
    (hclass : ¬ (n.majorType.toNat = saNtfVendorIdSaf ∧ n.minorType.toNat = 20 * 65536 + 1)) :
    (∃ alarm comNot severity, comsaNotify4 m handle (some type) true (some n) = some (.ok, some alarm) ∧
      notificationReceived m alarm = some (.ok, comNot, severity) ∧ SameAlarm n comNot severity) ↔
      NameKept m.names dn ∧ Sized n ∧ (m.mafSpiNtfFmVersion = .fm3 → n.additionalInfo = []) ∧
        ∀ info ∈ n.additionalInfo, info.name = emptyText := by
  have hpm (eventType : EventType) (object notifying : Text) :
      (sentHeader (m.given n) eventType object notifying).notificationHeader.isPmThreshold = false := by
    rw [← Bool.not_eq_true, isPmThreshold_sentHeader]
    exact hclass
  -- the alarm that is sent whole
  let alarm := m.ntfAlarm n (sentHeader (m.given n) .alarm (m.names.MO2Imm_DN dn) (m.names.MO2Imm_DN dn))
  constructor
  · rintro ⟨_, comNot, severity, hsent, hreceived, hsame⟩
    obtain ⟨hsized, eventType, object, notifying, hobjects, rfl⟩ := (comsaNotify4_iff works hhandle htype hdn).mp hsent
    obtain ⟨rfl, rfl, rfl, hfits⟩ := (convertObjects_iff hlm).mp hobjects
    cases hread : convertTo3GPPDN m.names (m.names.MO2Imm_DN dn) with
    | none =>
      rw [notificationReceived_none works.filter alarm (hpm _ _ _) hread] at hreceived
      cases hreceived
    | some dn' =>
      obtain ⟨comNot', hreceived', hreadAs⟩ := notificationReceived_some works.filter alarm (hpm _ _ _) hread
      rw [hreceived'] at hreceived
      cases hreceived
      obtain ⟨rfl, hfm3, hnames⟩ := (sameAlarm_iff hdn hreadAs).mp hsame
      rw [given_eq hfm3] at hsized
      exact ⟨⟨hfits, (convertTo3GPPDN_iff hname).mp hread⟩, hsized, hfm3, hnames⟩
  · rintro ⟨⟨hfits, hkept⟩, hsized, hfm3, hnames⟩
    have hobjects := (convertObjects_iff hlm).mpr ⟨rfl, rfl, rfl, hfits⟩
    have hread := (convertTo3GPPDN_iff hname).mpr hkept
    obtain ⟨comNot, hreceived, hreadAs⟩ := notificationReceived_some works.filter alarm (hpm _ _ _) hread
    refine ⟨alarm, comNot, _, (comsaNotify4_iff works hhandle htype hdn).mpr ⟨?_, _, _, _, hobjects, rfl⟩, hreceived,
      (sameAlarm_iff hdn hreadAs).mpr ⟨rfl, hfm3, hnames⟩⟩
    rwa [given_eq hfm3]

/-! ## The names of the translator -/

section
open Translator Translator.RoundTrip

def NameEnv.ofTranslator (g : Registry) (names : ImmNames) : NameEnv where
  MO2Imm_DN dn := Text.ofChars (Translator.MO2Imm_DN g (splitDn (String.ofList dn.chars))).toList
  Imm2MO_DN imm := some (Text.ofChars (Translator.Imm2MO_DN g names (splitDn (String.ofList imm.chars))).toList)

theorem ofTranslator_imm {g : Registry} {names : ImmNames} {d : RoundTrip.MoName} {dn : Text}
    (hdn : dn.chars = d.dn.toList)
    (hrec : Recorded g names d.parts) (h : Straight g d.last (translated g d.last d.above))
    (hnul : nul ∉ (immName g d.last d.above).toList) :
    ((NameEnv.ofTranslator g names).MO2Imm_DN dn).chars = (immName g d.last d.above).toList := by
  have himm : Translator.MO2Imm_DN g (splitDn (String.ofList dn.chars)) = immName g d.last d.above := by
    rw [hdn, String.ofList_toList, splitDn_dn, MO2Imm_DN_eq hrec h]
  unfold NameEnv.ofTranslator
  dsimp only
  rw [himm, Text.ofChars_of_nulFree hnul]

theorem ofTranslator_back {g : Registry} {names : ImmNames} {d : RoundTrip.MoName} {dn : Text}
    (hdn : dn.chars = d.dn.toList)
    (hrec : Recorded g names d.parts) (hpath : OnStoredPath g d)
    (hclass : ∀ objectName className, names.immClass objectName = .found className → ',' ∉ className.toList)
    (h : Straight g d.last (translated g d.last d.above))
    (hread : ∀ x ∈ translated g d.last d.above, x.1.ReadsBack (names.immClass (immName g x.1 x.2))) (hnul : nul ∉ (immName g d.last d.above).toList) :
    (NameEnv.ofTranslator g names).Imm2MO_DN ((NameEnv.ofTranslator g names).MO2Imm_DN dn) = some dn := by
  have hchars := ofTranslator_imm hdn hrec h hnul
  have hback := (readsBack_iff hrec hpath hclass h.notStruct).mpr hread
  generalize (NameEnv.ofTranslator g names).MO2Imm_DN dn = imm at hchars ⊢
  have hname : Translator.Imm2MO_DN g names (splitDn (String.ofList imm.chars)) = d.dn := by
    rw [hchars, String.ofList_toList, hback]
  unfold NameEnv.ofTranslator
  dsimp only
  rw [hname, Option.some_inj, ← hdn, Text.ofChars_of_nulFree dn.nulFree]

end

/-! ## An alarm of a probe -/

def probeDn : Text :=
  ⟨"ManagedElement=1,SystemFunctions=1,Pm=1,Job.jobName=7,Probe=3".toList, by decide⟩

def probeAlarm : FmNotification where
  dn := some probeDn
  eventTime := 1000
  majorType := 193
  minorType := 458755
  additionalText := some ⟨"lost".toList, by decide⟩
  severity := 3
  additionalInfo := [⟨emptyText, ⟨"cell".toList, by decide⟩⟩]

def probeService : Service where
  names := .ofTranslator Translator.RoundTrip.jobRegistry Translator.RoundTrip.jobNames
  lm := false
  mafSpiNtfFmVersion := .fm4
  uuidCfgFlag := .uuidMapValueToAddText
  filter := true
  pmAlarm := fun _ => .error none
  saNtfAlarmNotificationAllocate := true
  saNtfPtrValAllocate := fun _ => true
  saNtfNotificationSend := true

section
open Translator Translator.RoundTrip

theorem probe_names :
    probeService.names.Imm2MO_DN (probeService.names.MO2Imm_DN probeDn) = some probeDn ∧
      (probeService.names.MO2Imm_DN probeDn).chars = "probeId=3,jobName=7,pmId=1".toList := by
  have hrec : Recorded jobRegistry jobNames probe.parts :=
    ⟨by decide +kernel, by decide +kernel, by decide +kernel, by decide +kernel⟩
  have hstraight : Straight jobRegistry probe.last (translated jobRegistry probe.last probe.above) :=
    ⟨by decide +kernel, by decide +kernel, by decide +kernel⟩
  have hdn : probeDn.chars = probe.dn.toList := by decide +kernel
  have hname : immName jobRegistry probe.last probe.above = "probeId=3,jobName=7,pmId=1" := by decide +kernel
  have hnul : nul ∉ (immName jobRegistry probe.last probe.above).toList := by
    rw [hname]
    decide
  have hread : ∀ x ∈ translated jobRegistry probe.last probe.above,
      x.1.ReadsBack (jobNames.immClass (immName jobRegistry x.1 x.2)) := by
    decide +kernel
  refine ⟨ofTranslator_back hdn hrec ⟨by decide +kernel, by decide +kernel⟩ found_noComma hstraight hread hnul, ?_⟩
  rw [← hname]
  exact ofTranslator_imm hdn hrec hstraight hnul

end

theorem received_as_sent_iff_probe :
    ∃ alarm comNot severity,
      comsaNotify4 probeService 1 (some ⟨eventComponent4, by decide⟩) true (some probeAlarm) = some (.ok, some alarm) ∧
      notificationReceived probeService alarm = some (.ok, comNot, severity) ∧
        SameAlarm probeAlarm comNot severity := by
  obtain ⟨hback, himm⟩ := probe_names
  have hkept : NameKept probeService.names probeDn := by
    unfold NameKept
    dsimp only
    rw [himm]
    decide +kernel
  refine (received_as_sent_iff probeService ⟨rfl, rfl, fun _ => rfl, rfl⟩ rfl 1 (by decide) _ probeDn
    (by decide) probeAlarm rfl
    hback (by decide)).mpr ⟨hkept, ⟨?_, by decide, by decide⟩, (fun h => by cases h), by decide⟩
  rintro t ht
  cases ht
  decide

end ComSA.Alarm
