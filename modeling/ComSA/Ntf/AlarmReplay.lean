import ComSA.Lib.Run
import Mathlib.Data.List.Nodup
import Mathlib.Data.List.Infix

/-!
# Alarms and the replay of old ones

NTF calls back with every alarm that comes in after the subscription, while a thread
reads the alarms from before it. What is called back during the reading is queued.
-/

namespace ComSA.Ntf

structure Alarm where
  notificationId : Nat
  eventTime : Int
  deriving DecidableEq, Repr

abbrev Address := Nat

def OAM_SA_NTF_READER_MAX_RETRIES : Nat := 5

inductive Callback where
  | idle
  /-- Saw that the old alarms are not done, and waits for the lock. -/
  | locking (alarm : Alarm) (notificationId : Address)
  | sending (alarm : Alarm)
  deriving DecidableEq, Repr

inductive Reader where
  | entering
  | reading (position : Nat)
  | passing (alarm : Alarm) (position : Nat) (matched : Bool)
  | readAll
  | sendingQueued
  | returned
  | done
  deriving DecidableEq, Repr

inductive QueueTail where
  | null
  /-- The last alarm that can be reached from `alarmQueueFront`. -/
  | lastOfFront
  | freed
  /-- An alarm that cannot be reached from `alarmQueueFront`. -/
  | detached
  deriving DecidableEq, Repr

structure State where
  /-- The event time of the filter, 0 where it has none. -/
  searchTime : Int
  log : List Alarm
  subscribed : Nat
  /-- How many alarms of the log are not for the callback any more. -/
  calledBack : Nat
  callback : Callback
  reader : Reader
  readOldAlarm : Bool
  lastNotificationMatched : Bool
  readOldAlarmDone : Bool
  sReaderMaxRetries : Nat
  alarmQueueFront : List Alarm
  alarmQueue : QueueTail
  callbackLastCmwNotificationID : Address
  readerLastNotificationID : Nat
  sent : List Alarm
  deriving DecidableEq, Repr

def initial (searchTime : Int) (log : List Alarm) : State where
  searchTime
  log
  subscribed := log.length
  calledBack := log.length
  callback := .idle
  reader := .entering
  readOldAlarm := false
  lastNotificationMatched := false
  readOldAlarmDone := false
  sReaderMaxRetries := 0
  alarmQueueFront := []
  alarmQueue := .null
  callbackLastCmwNotificationID := 0
  readerLastNotificationID := 0
  sent := []

namespace State

def newer (s : State) (a : Alarm) : Bool := a.eventTime > s.searchTime || s.searchTime == 0

def sendSaNtfNotification (a : Alarm) (s : State) : State := { s with sent := s.sent ++ [a] }

def append (a : Alarm) (s : State) : State := { s with log := s.log ++ [a] }

/-! ## The callback -/

def saNtfNotificationCallback4 (notificationId : Address) (s : State) : State :=
  match s.callback, s.log[s.calledBack]? with
  | .idle, some a =>
    { s with
      calledBack := s.calledBack + 1
      callback := if s.readOldAlarmDone then .sending a else .locking a notificationId }
  | _, _ => s

def queueAlarm (a : Alarm) (s : State) : State :=
  match s.alarmQueue with
  | .null => { s with alarmQueueFront := [a], alarmQueue := .lastOfFront }
  | .lastOfFront => { s with alarmQueueFront := s.alarmQueueFront ++ [a] }
  -- `alarmQueue->next` is written, but the front does not lead there
  | .freed | .detached => { s with alarmQueue := .detached }

def callbackLocked (s : State) : State :=
  match s.callback with
  | .locking a notificationId =>
    if s.readOldAlarm then
      { s.queueAlarm a with callback := .idle }
    else
      { s with callbackLastCmwNotificationID := notificationId, callback := .sending a }
  | _ => s

def callbackSends (s : State) : State :=
  match s.callback with
  | .sending a => { s.sendSaNtfNotification a with callback := .idle }
  | _ => s

/-! ## The reader thread -/

def positionOf (notificationId : Nat) (s : State) : Nat :=
  s.log.findIdx fun a => a.notificationId == notificationId

def readOldAlarms (s : State) : State :=
  match s.reader with
  | .entering =>
    if s.readOldAlarm then
      { s with
        sReaderMaxRetries := s.sReaderMaxRetries + 1
        reader := .reading (s.positionOf s.readerLastNotificationID) }
    else
      { s with
        sReaderMaxRetries := s.sReaderMaxRetries + 1
        readOldAlarm := true
        reader := .reading 0 }
  | _ => s

/-- One turn of the reading loop, with the alarm at `notificationId`. -/
def readNext (notificationId : Address) (s : State) : State :=
  match s.reader with
  | .reading position =>
    match s.log[position]? with
    | none => { s with reader := .readAll }
    | some a =>
      if s.newer a then
        if notificationId = s.callbackLastCmwNotificationID then
          { s with
            readerLastNotificationID := notificationId
            lastNotificationMatched := true
            reader := .passing a (position + 1) true }
        else
          { s with
            readerLastNotificationID := notificationId
            reader := .passing a (position + 1) false }
      else
        { s with reader := .reading (position + 1) }
  | _ => s

def readerSends (s : State) : State :=
  match s.reader with
  | .passing a position matched =>
    { s.sendSaNtfNotification a with reader := if matched then .readAll else .reading position }
  | _ => s

def afterReading (s : State) : State :=
  match s.reader with
  | .readAll =>
    if s.lastNotificationMatched || s.callbackLastCmwNotificationID == 0 then
      { s with reader := .sendingQueued }
    else if OAM_SA_NTF_READER_MAX_RETRIES > s.sReaderMaxRetries then
      { s with reader := .entering }
    else
      { s with reader := .sendingQueued }
  | _ => s

def sendQueuedAlarms (s : State) : State :=
  match s.reader with
  | .sendingQueued =>
    match s.alarmQueueFront with
    | [] => { s with readOldAlarm := false, alarmQueue := .null, reader := .returned }
    | a :: rest =>
      { s.sendSaNtfNotification a with
        alarmQueueFront := rest
        alarmQueue := if rest = [] ∧ s.alarmQueue = .lastOfFront then .freed else s.alarmQueue }
  | _ => s

def readerThreadEnds (s : State) : State :=
  match s.reader with
  | .returned => { s with readOldAlarmDone := true, reader := .done }
  | _ => s

end State

open State

inductive Event where
  | append (alarm : Alarm)
  | saNtfNotificationCallback4 (notificationId : Address)
  | callbackLocked
  | callbackSends
  | readOldAlarms
  | readNext (notificationId : Address)
  | readerSends
  | afterReading
  | sendQueuedAlarms
  | readerThreadEnds
  deriving DecidableEq, Repr

def step (s : State) : Event → State
  | .append a => s.append a
  | .saNtfNotificationCallback4 notificationId => s.saNtfNotificationCallback4 notificationId
  | .callbackLocked => s.callbackLocked
  | .callbackSends => s.callbackSends
  | .readOldAlarms => s.readOldAlarms
  | .readNext notificationId => s.readNext notificationId
  | .readerSends => s.readerSends
  | .afterReading => s.afterReading
  | .sendQueuedAlarms => s.sendQueuedAlarms
  | .readerThreadEnds => s.readerThreadEnds

/-- Ids are not used twice, and a notification does not lie at the null pointer. -/
def Legal (s : State) : Event → Prop
  | .append a => a.notificationId ∉ s.log.map Alarm.notificationId
  | .saNtfNotificationCallback4 notificationId => notificationId ≠ 0
  | .readNext notificationId => notificationId ≠ 0
  | _ => True

instance (s : State) : (e : Event) → Decidable (Legal s e)
  | .append a => inferInstanceAs (Decidable (a.notificationId ∉ s.log.map Alarm.notificationId))
  | .saNtfNotificationCallback4 n | .readNext n => inferInstanceAs (Decidable (n ≠ 0))
  | .callbackLocked | .callbackSends | .readOldAlarms | .readerSends | .afterReading | .sendQueuedAlarms
  | .readerThreadEnds => .isTrue trivial

/-- The reader is through, and NTF has nothing left to call back with. -/
def State.Settled (s : State) : Prop :=
  s.reader = .done ∧ s.callback = .idle ∧ s.calledBack = s.log.length

/-- The alarms go out in the order of the log, and each that is newer than the filter's time once. -/
structure Right (s : State) : Prop where
  in_order : s.sent.Sublist s.log
  at_most_once : ∀ a, s.sent.count a ≤ 1
  none_skipped : s.sent.filter s.newer <+: s.log.filter s.newer
  exactly_once : s.Settled → ∀ a ∈ s.log, s.newer a → s.sent.count a = 1

/-! ## What goes wrong, and what else is kept -/

namespace State

def old (s : State) : List Alarm := s.log.take s.subscribed

/-- What the reader still has to pass on from before the subscription, in its first reading. -/
def unreadOld (s : State) : List Alarm :=
  match s.reader with
  | .entering => if s.sReaderMaxRetries = 0 then s.old.filter s.newer else []
  | .reading position =>
    if s.sReaderMaxRetries ≤ 1 then (s.old.drop position).filter s.newer else []
  | .passing a position _ => a :: (s.old.drop position).filter s.newer
  | _ => []

def inHand (s : State) : List Alarm :=
  match s.callback with
  | .idle => []
  | .locking a _ | .sending a => [a]

def received (s : State) : List Alarm := (s.log.drop s.subscribed).take (s.calledBack - s.subscribed)

def next (s : State) : Option (Nat × Alarm) :=
  match s.reader with
  | .reading position => (s.log[position]?).map fun a => (position, a)
  | _ => none

end State

/-- An alarm that came in after the subscription is not read, nor is one read a second time; none is
sent from the callback before the old ones are read; and none is queued behind an alarm that is freed. -/
def Fine (s : State) : Event → Prop
  | .readNext _ =>
    match s.next with
    | some (position, a) => s.newer a → position < s.subscribed ∧ s.sReaderMaxRetries ≤ 1
    | none => True
  | .callbackLocked =>
    match s.callback with
    | .locking _ _ =>
      if s.readOldAlarm then s.alarmQueue = .null ∨ s.alarmQueue = .lastOfFront
      else s.unreadOld = []
    | _ => True
  | _ => True

instance (s : State) : (e : Event) → Decidable (Fine s e)
  | .readNext _ => by
    unfold Fine
    cases s.next <;> infer_instance
  | .callbackLocked => by
    unfold Fine
    cases s.callback <;> infer_instance
  | .append _ | .saNtfNotificationCallback4 _ | .callbackSends | .readOldAlarms | .readerSends
  | .afterReading | .sendQueuedAlarms | .readerThreadEnds => .isTrue trivial

structure Good (s : State) : Prop where
  subscribed_le : s.subscribed ≤ s.calledBack
  calledBack_le : s.calledBack ≤ s.log.length
  distinct : (s.log.map Alarm.notificationId).Nodup
  parts : ∃ oldSent newSent,
    s.sent = oldSent ++ newSent ∧ oldSent ++ s.unreadOld = s.old.filter s.newer ∧
      newSent ++ (s.alarmQueueFront ++ s.inHand) = s.received ∧ (newSent ≠ [] → s.unreadOld = [])
  tail_iff : s.alarmQueue = .lastOfFront ↔ s.alarmQueueFront ≠ []
  no_detached : s.alarmQueue ≠ .detached
  flag : s.readOldAlarm = false → s.alarmQueue = .null
  flag_iff : s.readOldAlarm = true ↔
    s.reader ≠ .returned ∧ s.reader ≠ .done ∧ (s.reader = .entering → s.sReaderMaxRetries ≠ 0)
  done_iff : s.readOldAlarmDone = true ↔ s.reader = .done
  sending : ∀ a, s.callback = .sending a → s.alarmQueueFront = [] ∧ s.unreadOld = []
  locking : ∀ a n, s.callback = .locking a n → n ≠ 0
  last : s.callbackLastCmwNotificationID ≠ 0 → s.unreadOld = []
  passing : ∀ a position matched, s.reader = .passing a position matched →
    matched = false ∧ s.sReaderMaxRetries ≤ 1
  read : s.reader ≠ .entering → s.sReaderMaxRetries ≠ 0

section
variable {s : State}

theorem log_nodup (h : Good s) : s.log.Nodup := List.Nodup.of_map _ h.distinct

theorem old_append_received (h : Good s) : s.old ++ s.received = s.log.take s.calledBack := by
  have hle := h.subscribed_le
  unfold State.old State.received
  rw [← List.take_add, Nat.add_sub_cancel' hle]

theorem good_initial (searchTime : Int) {log : List Alarm}
    (hlog : (log.map Alarm.notificationId).Nodup) : Good (initial searchTime log) where
  subscribed_le := Nat.le_refl _
  calledBack_le := Nat.le_refl _
  distinct := hlog
  parts := ⟨[], [], by simp [initial, unreadOld, inHand, received]⟩
  tail_iff := by simp [initial]
  no_detached := by simp [initial]
  flag := fun _ => rfl
  flag_iff := by simp [initial]
  done_iff := by simp [initial]
  sending := by simp [initial]
  locking := by simp [initial]
  last := by simp [initial]
  passing := by simp [initial]
  read := by simp [initial]

theorem Good.right (h : Good s) : Right s := by
  obtain ⟨oldSent, newSent, hsent, hold, hnew, hbefore⟩ := h.parts
  have hnodup := log_nodup h
  have holdSent : oldSent.Sublist s.old :=
    (List.sublist_append_left ..).trans (hold ▸ List.filter_sublist)
  have hnewSent : newSent.Sublist s.received := by
    rw [← hnew]
    exact List.sublist_append_left ..
  have hsub : s.sent.Sublist s.log := by
    rw [hsent]
    refine (holdSent.append hnewSent).trans ?_
    rw [old_append_received h]
    exact List.take_sublist ..
  have hfiltered : oldSent.filter s.newer = oldSent := by
    refine List.filter_eq_self.mpr fun a ha => ?_
    have : a ∈ s.old.filter s.newer := hold ▸ List.mem_append_left _ ha
    exact (List.mem_filter.mp this).2
  have hlist : s.sent.filter s.newer <+: (s.log.take s.calledBack).filter s.newer := by
    rw [← old_append_received h, hsent, List.filter_append, List.filter_append, hfiltered, ← hold]
    by_cases hempty : newSent = []
    · subst hempty
      rw [List.filter_nil, List.append_nil, List.append_assoc]
      exact List.prefix_append ..
    · rw [hbefore hempty, List.append_nil, ← hnew, List.filter_append]
      exact (List.prefix_append_right_inj _).mpr (List.prefix_append ..)
  refine ⟨hsub, ?_, ?_, ?_⟩
  · intro a
    exact (hsub.count_le a).trans (List.nodup_iff_count_le_one.mp hnodup a)
  · exact hlist.trans (List.IsPrefix.filter _ (List.take_prefix ..))
  · rintro ⟨hdone, hidle, hall⟩ a ha hnewer
    have hflag : s.readOldAlarm = false := by
      rw [Bool.eq_false_iff]
      exact fun ht => (h.flag_iff.mp ht).2.1 hdone
    have hqueue : s.alarmQueueFront = [] := by
      have := h.tail_iff.not.mp (by rw [h.flag hflag]; decide)
      exact not_not.mp this
    have hunread : s.unreadOld = [] := by rw [unreadOld, hdone]
    rw [hunread, List.append_nil] at hold
    rw [hqueue, inHand, hidle, List.append_nil, List.append_nil] at hnew
    have hmem : a ∈ s.sent := by
      rw [hsent, hold, hnew, List.mem_append, List.mem_filter]
      have : a ∈ s.old ++ s.received := by rwa [old_append_received h, hall, List.take_length]
      exact (List.mem_append.mp this).imp_left fun h => ⟨h, hnewer⟩
    exact List.count_eq_one_of_mem (hsub.nodup hnodup) hmem

/-! ## One event -/

theorem good_append {a : Alarm} (h : Good s) (ha : a.notificationId ∉ s.log.map Alarm.notificationId) :
    Good (s.append a) := by
  have hle := h.subscribed_le.trans h.calledBack_le
  have hold : (s.append a).old = s.old := List.take_append_of_le_length hle
  have hreceived : (s.append a).received = s.received := by
    unfold received State.append
    dsimp only
    rw [List.drop_append_of_le_length hle, List.take_append_of_le_length]
    rw [List.length_drop]
    exact Nat.sub_le_sub_right h.calledBack_le _
  have hunread : (s.append a).unreadOld = s.unreadOld := by
    unfold unreadOld
    rw [hold]
    rfl
  refine { h with calledBack_le := ?_, distinct := ?_, parts := ?_, sending := ?_, last := ?_ }
  · refine h.calledBack_le.trans ?_
    simp [State.append]
  · simp only [State.append, List.map_append, List.map_cons, List.map_nil]
    exact h.distinct.append (List.nodup_singleton _) (List.disjoint_singleton.mpr ha)
  · rw [hunread, hold, hreceived]
    exact h.parts
  · rw [hunread]
    exact h.sending
  · rw [hunread]
    exact h.last

theorem good_saNtfNotificationCallback4 {n : Address} (h : Good s) (hn : n ≠ 0) :
    Good (s.saNtfNotificationCallback4 n) := by
  unfold State.saNtfNotificationCallback4
  split
  · rename_i a hidle hnext
    have hlt : s.calledBack < s.log.length := (List.getElem?_eq_some_iff.mp hnext).1
    have hreceived : (s.log.drop s.subscribed).take (s.calledBack + 1 - s.subscribed)
        = s.received ++ [a] := by
      have hle := h.subscribed_le
      rw [Nat.sub_add_comm hle, List.take_add_one, List.getElem?_drop, Nat.add_sub_cancel' hle, hnext]
      rfl
    refine { h with
      subscribed_le := Nat.le_succ_of_le h.subscribed_le, calledBack_le := hlt
      parts := ?_, sending := ?_, locking := ?_ }
    · obtain ⟨oldSent, newSent, hsent, hold, hnew, hbefore⟩ := h.parts
      refine ⟨oldSent, newSent, hsent, hold, ?_, hbefore⟩
      have hhand : s.inHand = [] := by rw [inHand, hidle]
      rw [hhand, List.append_nil] at hnew
      unfold received inHand
      dsimp only
      rw [hreceived, ← hnew, ← List.append_assoc]
      cases s.readOldAlarmDone <;> rfl
    · intro b hb
      by_cases hdone : s.readOldAlarmDone = true
      · have hreader := h.done_iff.mp hdone
        have hflag : s.readOldAlarm = false := by
          rw [Bool.eq_false_iff]
          exact fun ht => (h.flag_iff.mp ht).2.1 hreader
        have hqueue := h.tail_iff.not.mp (by rw [h.flag hflag]; decide)
        refine ⟨not_not.mp hqueue, ?_⟩
        simp only [unreadOld, hreader]
      · simp [hdone] at hb
    · intro b m hb
      cases hdone : s.readOldAlarmDone with
      | true => simp [hdone] at hb
      | false =>
        simp only [hdone, Bool.false_eq_true, if_false, Callback.locking.injEq] at hb
        exact hb.2 ▸ hn
  · exact h

theorem good_callbackLocked (h : Good s) (hfine : Fine s .callbackLocked) : Good s.callbackLocked := by
  unfold callbackLocked
  split
  · rename_i a n hlocking
    unfold Fine at hfine
    rw [hlocking] at hfine
    dsimp only at hfine
    obtain ⟨oldSent, newSent, hsent, hold, hnew, hbefore⟩ := h.parts
    rw [inHand, hlocking] at hnew
    by_cases hflag : s.readOldAlarm = true
    · rw [if_pos hflag]
      rw [if_pos hflag] at hfine
      have hqueue : s.queueAlarm a
          = { s with alarmQueueFront := s.alarmQueueFront ++ [a], alarmQueue := .lastOfFront } := by
        rcases hfine with htail | htail
        · have := not_not.mp (h.tail_iff.not.mp (by rw [htail]; decide))
          simp [queueAlarm, htail, this]
        · simp [queueAlarm, htail]
      rw [hqueue]
      refine { h with
        parts := ⟨oldSent, newSent, hsent, hold, ?_, hbefore⟩
        tail_iff := by simp, no_detached := by simp, flag := ?_, sending := by simp, locking := by simp }
      · change newSent ++ (s.alarmQueueFront ++ [a] ++ []) = s.received
        rw [List.append_nil]
        exact hnew
      · intro hf
        exact absurd hflag (by rw [hf]; decide)
    · rw [if_neg hflag]
      rw [if_neg hflag] at hfine
      have hqueue : s.alarmQueueFront = [] := by
        have htail := h.flag (Bool.eq_false_iff.mpr hflag)
        exact not_not.mp (h.tail_iff.not.mp (by rw [htail]; decide))
      exact { h with
        parts := ⟨oldSent, newSent, hsent, hold, hnew, hbefore⟩
        sending := fun _ _ => ⟨hqueue, hfine⟩, locking := by simp, last := fun _ => hfine }
  · exact h

theorem good_callbackSends (h : Good s) : Good s.callbackSends := by
  unfold callbackSends
  split
  · rename_i a hsending
    obtain ⟨hqueue, hunread⟩ := h.sending a hsending
    obtain ⟨oldSent, newSent, hsent, hold, hnew, hbefore⟩ := h.parts
    refine { h with
      parts := ⟨oldSent, newSent ++ [a], ?_, hold, ?_, fun _ => hunread⟩
      sending := by simp, locking := by simp }
    · simp [sendSaNtfNotification, hsent]
    · rw [inHand, hsending, hqueue] at hnew
      change newSent ++ [a] ++ (s.alarmQueueFront ++ []) = s.received
      rw [hqueue, List.append_nil, List.append_nil]
      exact hnew
  · exact h

theorem Good.reader_moves {s' : State} {reader : Reader} {flag matched : Bool} {retries last : Nat}
    (h : Good s)
    (hs' : s' = { s with
      reader := reader, readOldAlarm := flag, lastNotificationMatched := matched,
      sReaderMaxRetries := retries, readerLastNotificationID := last })
    (hunread : s'.unreadOld = s.unreadOld) (hflag : flag = true) (hretries : retries ≠ 0)
    (hdone : s.reader ≠ .done) (hreader : reader ≠ .returned ∧ reader ≠ .done)
    (hpassing : ∀ a position m, reader = .passing a position m → m = false ∧ retries ≤ 1) : Good s' := by
  subst hs' hflag
  refine { h with
    parts := ?_, flag := fun hf => (Bool.noConfusion hf), flag_iff := ?_, done_iff := ?_, sending := ?_
    last := ?_, passing := hpassing, read := fun _ => hretries }
  · rw [hunread]
    exact h.parts
  · exact ⟨fun _ => ⟨hreader.1, hreader.2, fun _ => hretries⟩, fun _ => rfl⟩
  · exact ⟨fun hd => absurd (h.done_iff.mp hd) hdone, fun hr => absurd hr hreader.2⟩
  · rw [hunread]
    exact h.sending
  · rw [hunread]
    exact h.last

theorem good_readOldAlarms (h : Good s) : Good s.readOldAlarms := by
  unfold State.readOldAlarms
  split
  · rename_i hentering
    split
    · rename_i hflag
      have hretried := (h.flag_iff.mp hflag).2.2 hentering
      refine h.reader_moves rfl ?_ hflag (Nat.succ_ne_zero _) (by simp [hentering]) (by simp) (by simp)
      -- it is not the first reading
      rw [unreadOld, unreadOld, hentering]
      dsimp only
      rw [if_neg (by omega), if_neg hretried]
    · rename_i hflag
      have hretries : s.sReaderMaxRetries = 0 := by
        by_contra hretried
        exact hflag (h.flag_iff.mpr ⟨by simp [hentering], by simp [hentering], fun _ => hretried⟩)
      refine h.reader_moves rfl ?_ rfl (Nat.succ_ne_zero _) (by simp [hentering]) (by simp) (by simp)
      rw [unreadOld, unreadOld, hentering]
      dsimp only
      rw [hretries, if_pos (by decide), if_pos rfl]
      rfl
  · exact h

theorem filter_drop_succ {α : Type*} {f : α → Bool} {l : List α} {n : Nat}
    (hskip : ∀ a, l[n]? = some a → ¬ f a) : (l.drop (n + 1)).filter f = (l.drop n).filter f := by
  by_cases hn : n < l.length
  · rw [List.drop_eq_getElem_cons hn, List.filter_cons_of_neg]
    exact hskip _ (List.getElem?_eq_getElem hn)
  · rw [List.drop_eq_nil_of_le (by omega), List.drop_eq_nil_of_le (by omega)]

theorem good_readNext {n : Address} (h : Good s) (hn : n ≠ 0) (hfine : Fine s (.readNext n)) :
    Good (s.readNext n) := by
  unfold State.readNext
  split
  · rename_i position hreading
    have hflag : s.readOldAlarm = true := h.flag_iff.mpr (by simp [hreading])
    have hread := h.read (by simp [hreading])
    split
    · rename_i hnone
      have hlength := List.getElem?_eq_none_iff.mp hnone
      refine h.reader_moves rfl ?_ hflag hread (by simp [hreading]) (by simp) (by simp)
      rw [unreadOld, unreadOld, hreading]
      have : s.old.drop position = [] := by
        rw [List.drop_eq_nil_iff]
        exact (List.length_take_le' ..).trans hlength
      simp [this]
    · rename_i a hsome
      split
      · rename_i hnewer
        have hnext : s.next = some (position, a) := by
          unfold next
          rw [hreading]
          dsimp only
          rw [hsome]
          rfl
        unfold Fine at hfine
        rw [hnext] at hfine
        obtain ⟨hold, hretries⟩ := hfine hnewer
        have hdrop : s.old.drop position = a :: s.old.drop (position + 1) := by
          have hget : s.old[position]? = some a := by
            unfold old
            rw [List.getElem?_take_of_lt hold, hsome]
          obtain ⟨hlt, ha⟩ := List.getElem?_eq_some_iff.mp hget
          rw [List.drop_eq_getElem_cons hlt, ha]
        have hunread : s.unreadOld = a :: (s.old.drop (position + 1)).filter s.newer := by
          rw [unreadOld, hreading]
          dsimp only
          rw [if_pos hretries, hdrop, List.filter_cons_of_pos hnewer]
        have hlast : ¬ n = s.callbackLastCmwNotificationID := by
          intro he
          have := h.last (he ▸ hn)
          rw [hunread] at this
          simp at this
        rw [if_neg hlast]
        refine h.reader_moves rfl ?_ hflag hread (by simp [hreading]) (by simp) ?_
        · exact hunread.symm
        · rintro b p m he
          exact ⟨(Reader.passing.inj he).2.2.symm, hretries⟩
      · rename_i hnewer
        refine h.reader_moves rfl ?_ hflag hread (by simp [hreading]) (by simp) (by simp)
        have hskip : ∀ b, s.old[position]? = some b → ¬ s.newer b := by
          intro b hb
          unfold old at hb
          rw [List.getElem?_take, hsome] at hb
          split at hb
          · exact Option.some.inj hb ▸ hnewer
          · simp at hb
        rw [unreadOld, unreadOld, hreading]
        change (if s.sReaderMaxRetries ≤ 1 then (s.old.drop (position + 1)).filter s.newer else [])
          = if s.sReaderMaxRetries ≤ 1 then (s.old.drop position).filter s.newer else []
        rw [filter_drop_succ hskip]
  · exact h

theorem good_readerSends (h : Good s) : Good s.readerSends := by
  unfold readerSends
  split
  · rename_i a position matched hpassing
    obtain ⟨rfl, hretries⟩ := h.passing a position matched hpassing
    have hflag : s.readOldAlarm = true := h.flag_iff.mpr (by simp [hpassing])
    have hunread : s.unreadOld = a :: (s.old.drop position).filter s.newer := by
      rw [unreadOld, hpassing]
    have hnone : s.unreadOld ≠ [] := by rw [hunread]; simp
    obtain ⟨oldSent, newSent, hsent, hold, hnew, hbefore⟩ := h.parts
    have hnewSent : newSent = [] := by
      by_contra hne
      exact hnone (hbefore hne)
    subst hnewSent
    refine { h with
      parts := ⟨oldSent ++ [a], [], ?_, ?_, hnew, fun hne => (hne rfl).elim⟩
      flag_iff := ?_, done_iff := ?_, sending := fun b hb => (hnone (h.sending b hb).2).elim
      last := fun hl => (hnone (h.last hl)).elim, passing := by simp
      read := fun _ => h.read (by simp [hpassing]) }
    · simp [sendSaNtfNotification, hsent]
    · rw [hunread] at hold
      change oldSent ++ [a] ++ (if s.sReaderMaxRetries ≤ 1 then (s.old.drop position).filter s.newer
        else []) = _
      rw [if_pos hretries, List.append_assoc]
      exact hold
    · exact ⟨fun _ => by simp, fun _ => hflag⟩
    · have hdone := h.done_iff
      rw [hpassing] at hdone
      exact hdone.trans (by simp)
  · exact h

theorem good_afterReading (h : Good s) : Good s.afterReading := by
  unfold afterReading
  split
  · rename_i hread
    have hflag : s.readOldAlarm = true := h.flag_iff.mpr (by simp [hread])
    have hretries := h.read (by simp [hread])
    have hunread : s.unreadOld = [] := by rw [unreadOld, hread]
    split
    · exact h.reader_moves rfl hunread.symm hflag hretries (by simp [hread]) (by simp) (by simp)
    · split
      · refine h.reader_moves rfl ?_ hflag hretries (by simp [hread]) (by simp) (by simp)
        rw [hunread]
        exact if_neg hretries
      · exact h.reader_moves rfl hunread.symm hflag hretries (by simp [hread]) (by simp) (by simp)
  · exact h

theorem good_sendQueuedAlarms (h : Good s) : Good s.sendQueuedAlarms := by
  unfold State.sendQueuedAlarms
  split
  · rename_i hqueued
    have hunread : s.unreadOld = [] := by rw [unreadOld, hqueued]
    obtain ⟨oldSent, newSent, hsent, hold, hnew, hbefore⟩ := h.parts
    split
    · rename_i hempty
      refine { h with
        parts := ⟨oldSent, newSent, hsent, ?_, hnew, fun _ => rfl⟩
        tail_iff := by simp [hempty], no_detached := by simp, flag := fun _ => rfl, flag_iff := by simp
        done_iff := ?_, sending := fun b hb => ⟨(h.sending b hb).1, rfl⟩, last := fun _ => rfl
        passing := by simp, read := fun _ => h.read (by simp [hqueued]) }
      · rw [hunread] at hold
        exact hold
      · have hdone := h.done_iff
        rw [hqueued] at hdone
        simpa using hdone
    · rename_i a rest hfront
      have htail : s.alarmQueue = .lastOfFront := h.tail_iff.mpr (by simp [hfront])
      have hflag : s.readOldAlarm = true := h.flag_iff.mpr (by simp [hqueued])
      refine { h with
        parts := ⟨oldSent, newSent ++ [a], ?_, hold, ?_, fun _ => hunread⟩
        tail_iff := ?_, no_detached := ?_, flag := ?_, sending := ?_ }
      · simp [sendSaNtfNotification, hsent]
      · rw [hfront] at hnew
        change newSent ++ [a] ++ (rest ++ s.inHand) = s.received
        rw [← hnew]
        simp
      · by_cases hrest : rest = [] <;> simp [htail, hrest]
      · by_cases hrest : rest = [] <;> simp [htail, hrest]
      · intro hf
        exact absurd (hflag.symm.trans hf) (by decide)
      · intro b hb
        have := (h.sending b hb).1
        rw [hfront] at this
        simp at this
  · exact h

theorem good_readerThreadEnds (h : Good s) : Good s.readerThreadEnds := by
  unfold State.readerThreadEnds
  split
  · rename_i hreturned
    have hunread : s.unreadOld = [] := by rw [unreadOld, hreturned]
    have hflag : s.readOldAlarm = false := by
      rw [Bool.eq_false_iff]
      exact fun ht => (h.flag_iff.mp ht).1 hreturned
    obtain ⟨oldSent, newSent, hsent, hold, hnew, hbefore⟩ := h.parts
    refine { h with
      parts := ⟨oldSent, newSent, hsent, ?_, hnew, fun _ => rfl⟩, flag_iff := by simp [hflag]
      done_iff := by simp, sending := fun b hb => ⟨(h.sending b hb).1, rfl⟩, last := fun _ => rfl
      passing := by simp, read := fun _ => h.read (by simp [hreturned]) }
    rw [hunread] at hold
    exact hold
  · exact h

theorem good_step {e : Event} (h : Good s) (hlegal : Legal s e) (hfine : Fine s e) : Good (step s e) := by
  cases e with
  | append a => exact good_append h hlegal
  | saNtfNotificationCallback4 n => exact good_saNtfNotificationCallback4 h hlegal
  | callbackLocked => exact good_callbackLocked h hfine
  | callbackSends => exact good_callbackSends h
  | readOldAlarms => exact good_readOldAlarms h
  | readNext n => exact good_readNext h hlegal hfine
  | readerSends => exact good_readerSends h
  | afterReading => exact good_afterReading h
  | sendQueuedAlarms => exact good_sendQueuedAlarms h
  | readerThreadEnds => exact good_readerThreadEnds h

end

/-! ## Runs -/

/-- In every run of good events each alarm goes out once, in the order of the log. -/
theorem alarms_right (searchTime : Int) (log : List Alarm) (hlog : (log.map Alarm.notificationId).Nodup)
    (events : List Event) (hlegal : Along step Legal (initial searchTime log) events)
    (hfine : Along step Fine (initial searchTime log) events) :
    Throughout step Right (initial searchTime log) events := by
  have hgood := throughout_of_along (I := Good) (fun s e h ok => good_step h ok.1 ok.2)
    (good_initial searchTime hlog) (hlegal.and hfine)
  exact hgood.mono fun s h => h.right

def early : Alarm := ⟨1, 10⟩
def late : Alarm := ⟨2, 20⟩

/-- `early` is read, `late` comes in meanwhile and is sent from the queue. -/
def replayed : List Event :=
  [.readOldAlarms, .readNext 8, .readerSends, .readNext 8, .append late, .saNtfNotificationCallback4 16,
    .callbackLocked, .afterReading, .sendQueuedAlarms, .sendQueuedAlarms, .readerThreadEnds]

theorem alarms_right_sample : Throughout step Right (initial 0 [early]) replayed :=
  alarms_right 0 [early] (by decide) replayed (by decide) (by decide)

def twice : List Event :=
  [.append late, .readOldAlarms, .saNtfNotificationCallback4 16, .callbackLocked, .readNext 8,
    .readerSends, .readNext 8, .afterReading, .sendQueuedAlarms]

theorem not_alarms_right :
    ¬ ∀ (searchTime : Int) (log : List Alarm) (events : List Event),
      (log.map Alarm.notificationId).Nodup → Along step Legal (initial searchTime log) events →
        Throughout step Right (initial searchTime log) events := by
  intro h
  have hright := (h 0 [] twice (by decide) (by decide)).last
  have := hright.at_most_once late
  revert this
  decide

end ComSA.Ntf
