import ComSA.Ntf.AlarmReplay

/-!
# Errors of NTF while the old alarms are read

The reader thread where the calls to NTF may fail, with the retries around `readOldAlarms`. Which alarms stay in the
queue when the thread is through.
-/

namespace ComSA.Ntf

def OAM_SA_NTF_MAX_RETRIES : Nat := 100

inductive NtfError where
  | tryAgain
  | other
  deriving DecidableEq, Repr

structure ReaderState extends State where
  /-- What `readOldAlarms` will return, `none` for `SA_AIS_OK`. -/
  rc : Option NtfError
  nRetries : Nat
  /-- The alarms that were queued, and those that were sent from the queue. -/
  queued : List Alarm
  handed : List Alarm
  deriving DecidableEq, Repr

def ReaderState.initial (searchTime : Int) (log : List Alarm) : ReaderState :=
  ⟨Ntf.initial searchTime log, none, 0, [], []⟩

inductive ReaderEvent where
  /-- The calls that are made succeed, or tell the end of what is read. -/
  | succeeds (e : Event)
  | filterAllocateFails (rc : NtfError)
  | readInitializeFails (rc : NtfError)
  | readNextFails (rc : NtfError)
  deriving DecidableEq, Repr

def State.queues (s : State) : Event → List Alarm
  | .callbackLocked =>
    match s.callback with
    | .locking a _ => if s.readOldAlarm then [a] else []
    | _ => []
  | _ => []

def State.hands (s : State) : Event → List Alarm
  | .sendQueuedAlarms => if s.reader = .sendingQueued then s.alarmQueueFront.take 1 else []
  | _ => []

namespace ReaderState

variable (s : ReaderState)

def WillRetry : Prop := s.rc = some .tryAgain ∧ s.nRetries < OAM_SA_NTF_MAX_RETRIES

instance : Decidable s.WillRetry := inferInstanceAs (Decidable (_ ∧ _))

def nextRc : Event → Option NtfError
  | .readOldAlarms => if s.reader = .entering then none else s.rc
  | .readNext _ =>
    match s.reader with
    | .reading _ => none
    | _ => s.rc
  | _ => s.rc

def succeed (e : Event) : ReaderState :=
  { s with
    toState := Ntf.step s.toState e
    rc := s.nextRc e
    queued := s.queued ++ s.toState.queues e
    handed := s.handed ++ s.toState.hands e }

def readerThread : ReaderState :=
  if s.reader = .returned ∧ s.WillRetry then
    { s with nRetries := s.nRetries + 1, toState := { s.toState with reader := .entering } }
  else s.succeed .readerThreadEnds

/-- `goto done` and `goto free_afilter`: nothing has been changed. -/
def filterAllocateFails (rc : NtfError) : ReaderState :=
  if s.reader = .entering then { s with rc := some rc, toState := { s.toState with reader := .returned } } else s

/-- `goto free_filter`: `readOldAlarm` is set already, and the queue is not sent. -/
def readInitializeFails (rc : NtfError) : ReaderState :=
  if s.reader = .entering then
    { s with rc := some rc, toState := { s.toState.readOldAlarms with reader := .returned } }
  else s

def readNextFails (rc : NtfError) : ReaderState :=
  match s.reader with
  | .reading _ => { s with rc := some rc, toState := { s.toState with reader := .readAll } }
  | _ => s

def step : ReaderEvent → ReaderState
  | .succeeds .readerThreadEnds => s.readerThread
  | .succeeds e => s.succeed e
  | .filterAllocateFails rc => s.filterAllocateFails rc
  | .readInitializeFails rc => s.readInitializeFails rc
  | .readNextFails rc => s.readNextFails rc

def Ended : Prop := s.reader = .done ∨ s.reader = .returned ∧ ¬ s.WillRetry

def Drained : Prop := s.alarmQueueFront = [] ∧ s.handed = s.queued

/-- The reader does not give up while alarms are queued; and no alarm is queued once it has given up, or behind an
alarm that was freed. -/
def Fine : ReaderEvent → Prop
  | .succeeds .callbackLocked =>
    s.toState.queues .callbackLocked ≠ [] → ¬ s.Ended ∧ (s.alarmQueue = .null ∨ s.alarmQueue = .lastOfFront)
  | .filterAllocateFails rc | .readInitializeFails rc =>
    s.reader = .entering → (rc = .tryAgain ∧ s.nRetries < OAM_SA_NTF_MAX_RETRIES) ∨ s.alarmQueueFront = []
  | _ => True

/-! ## One event -/

structure Good : Prop where
  accounted : s.queued = s.handed ++ s.alarmQueueFront
  tail : s.alarmQueue = .null ∧ s.alarmQueueFront = [] ∨ s.alarmQueue = .lastOfFront ∧ s.alarmQueueFront ≠ [] ∨
    s.alarmQueue = .freed ∧ s.alarmQueueFront = [] ∧ s.reader = .sendingQueued
  ended : s.Ended → s.alarmQueueFront = []

/-- An alarm was lost, or is left where the reader has given up. -/
def Bad : Prop :=
  s.handed.length + s.alarmQueueFront.length < s.queued.length ∨ s.Ended ∧ s.alarmQueueFront ≠ []

section
variable {s} {s' : ReaderState}

structure QueueKept (s s' : ReaderState) : Prop where
  front : s'.alarmQueueFront = s.alarmQueueFront
  tail : s'.alarmQueue = s.alarmQueue
  queued : s'.queued = s.queued
  handed : s'.handed = s.handed
  sending : s.reader = .sendingQueued → s'.reader = .sendingQueued
  ended : s'.Ended → s.Ended
  endedKept : s.Ended → s'.Ended

theorem QueueKept.good (h : QueueKept s s') (hs : s.Good) : s'.Good where
  accounted := by
    rw [h.queued, h.handed, h.front]
    exact hs.accounted
  tail := by
    rw [h.tail, h.front]
    exact hs.tail.imp_right fun h' => h'.imp_right fun h'' => ⟨h''.1, h''.2.1, h.sending h''.2.2⟩
  ended he := by
    rw [h.front]
    exact hs.ended (h.ended he)

theorem QueueKept.bad (h : QueueKept s s') (hs : s.Bad) : s'.Bad := by
  unfold Bad
  rw [h.queued, h.handed, h.front]
  exact hs.imp_right fun h' => ⟨h.endedKept h'.1, h'.2⟩

theorem QueueKept.of_same (hreader : s'.reader = s.reader) (hrc : s'.rc = s.rc)
    (hretries : s'.nRetries = s.nRetries)
    (hfront : s'.alarmQueueFront = s.alarmQueueFront) (htail : s'.alarmQueue = s.alarmQueue)
    (hqueued : s'.queued = s.queued) (hhanded : s'.handed = s.handed) : QueueKept s s' := by
  have hended : s'.Ended ↔ s.Ended := by
    unfold Ended WillRetry
    rw [hreader, hrc, hretries]
  exact ⟨hfront, htail, hqueued, hhanded, fun h => hreader.trans h, hended.mp, hended.mpr⟩

theorem QueueKept.of_moves (hreader : s.reader ∉ [.sendingQueued, .returned, .done])
    (hreader' : s'.reader ∉ [.returned, .done]) (hfront : s'.alarmQueueFront = s.alarmQueueFront)
    (htail : s'.alarmQueue = s.alarmQueue) (hqueued : s'.queued = s.queued) (hhanded : s'.handed = s.handed) :
    QueueKept s s' := by
  simp only [List.mem_cons, List.not_mem_nil, or_false, not_or] at hreader hreader'
  refine ⟨hfront, htail, hqueued, hhanded, fun h => absurd h hreader.1, fun h => ?_, fun h => ?_⟩
  · rcases h with h | ⟨h, -⟩
    · exact absurd h hreader'.2
    · exact absurd h hreader'.1
  · rcases h with h | ⟨h, -⟩
    · exact absurd h hreader.2.2
    · exact absurd h hreader.2.1

theorem QueueKept.refl (s : ReaderState) : QueueKept s s := ⟨rfl, rfl, rfl, rfl, id, id, id⟩

theorem succeed_kept {e : Event} (hqueues : s.toState.queues e = []) (hhands : s.toState.hands e = []) :
    (s.succeed e).queued = s.queued ∧ (s.succeed e).handed = s.handed := by
  simp [succeed, hqueues, hhands]

theorem queueKept_of_callback {e : Event} (hqueues : s.toState.queues e = []) (hhands : s.toState.hands e = [])
    (hrc : s.nextRc e = s.rc) (hreader : (Ntf.step s.toState e).reader = s.reader)
    (hfront : (Ntf.step s.toState e).alarmQueueFront = s.alarmQueueFront)
    (htail : (Ntf.step s.toState e).alarmQueue = s.alarmQueue) : QueueKept s (s.succeed e) :=
  have hkept := s.succeed_kept hqueues hhands
  .of_same hreader hrc rfl hfront htail hkept.1 hkept.2

theorem queueKept_readNext (n : Address) : QueueKept s (s.succeed (.readNext n)) := by
  have hkept := s.succeed_kept (e := .readNext n) rfl rfl
  by_cases hreading : ∃ position, s.reader = .reading position
  · obtain ⟨position, hreader⟩ := hreading
    unfold succeed
    simp only [Ntf.step, State.readNext, hreader]
    refine .of_moves (by simp [hreader]) ?_ ?_ ?_ hkept.1 hkept.2 <;> grind
  · have hsame : s.toState.readNext n = s.toState := by
      unfold State.readNext
      split
      · rename_i position hreader
        exact absurd ⟨position, hreader⟩ hreading
      · rfl
    have hrc : s.nextRc (.readNext n) = s.rc := by
      cases hreader : s.reader with
      | reading position => exact absurd ⟨position, hreader⟩ hreading
      | entering | passing | readAll | sendingQueued | returned | done => simp [nextRc, hreader]
    exact queueKept_of_callback rfl rfl hrc (congrArg State.reader hsame) (congrArg State.alarmQueueFront hsame)
      (congrArg State.alarmQueue hsame)

theorem queueKept_succeed {e : Event} (hlocked : e ≠ .callbackLocked) (hsend : e ≠ .sendQueuedAlarms)
    (hend : e ≠ .readerThreadEnds) : QueueKept s (s.succeed e) := by
  cases e with
  | callbackLocked => exact absurd rfl hlocked
  | sendQueuedAlarms => exact absurd rfl hsend
  | readerThreadEnds => exact absurd rfl hend
  | append a => exact queueKept_of_callback rfl rfl rfl rfl rfl rfl
  | saNtfNotificationCallback4 n =>
    refine queueKept_of_callback rfl rfl rfl ?_ ?_ ?_ <;> simp only [Ntf.step, State.saNtfNotificationCallback4] <;>
      split <;> rfl
  | callbackSends =>
    refine queueKept_of_callback rfl rfl rfl ?_ ?_ ?_ <;> simp only [Ntf.step, State.callbackSends] <;>
      split <;> rfl
  | readOldAlarms =>
    have hkept := s.succeed_kept (e := .readOldAlarms) rfl rfl
    by_cases hreader : s.reader = .entering
    · refine .of_moves (by simp [hreader]) ?_ ?_ ?_ hkept.1 hkept.2 <;>
        cases hflag : s.readOldAlarm <;> simp [succeed, Ntf.step, State.readOldAlarms, hreader, hflag]
    · refine .of_same ?_ ?_ rfl ?_ ?_ hkept.1 hkept.2 <;>
        simp [succeed, Ntf.step, State.readOldAlarms, nextRc, hreader]
  | readNext n => exact s.queueKept_readNext n
  | readerSends =>
    have hkept := s.succeed_kept (e := .readerSends) rfl rfl
    unfold succeed
    simp only [Ntf.step, State.readerSends, nextRc]
    split
    · rename_i hreader
      refine .of_moves (by simp [hreader]) ?_ rfl rfl hkept.1 hkept.2
      dsimp only
      split <;> simp
    · exact .of_same rfl rfl rfl rfl rfl hkept.1 hkept.2
  | afterReading =>
    have hkept := s.succeed_kept (e := .afterReading) rfl rfl
    unfold succeed
    simp only [Ntf.step, State.afterReading, nextRc]
    split
    · rename_i hreader
      refine .of_moves (by simp [hreader]) ?_ ?_ ?_ hkept.1 hkept.2 <;> grind
    · exact .of_same rfl rfl rfl rfl rfl hkept.1 hkept.2

theorem queueKept_readNextFails (rc : NtfError) : QueueKept s (s.readNextFails rc) := by
  unfold readNextFails
  split
  · rename_i hreader
    exact .of_moves (by simp [hreader]) (by simp) rfl rfl rfl rfl
  · exact .refl s

theorem queueKept_readerThread : QueueKept s s.readerThread := by
  unfold readerThread
  split <;> rename_i hretry
  · refine ⟨rfl, rfl, rfl, rfl, fun h => ?_, fun h => ?_, fun h => ?_⟩
    · rw [hretry.1] at h
      cases h
    · rcases h with h | ⟨h, -⟩ <;> cases h
    · rcases h with h | ⟨-, h⟩
      · rw [hretry.1] at h
        cases h
      · exact absurd hretry.2 h
  · unfold succeed
    simp only [Ntf.step, State.readerThreadEnds, State.queues, State.hands, List.append_nil]
    split
    · rename_i hreader
      refine ⟨rfl, rfl, rfl, rfl, fun h => ?_, fun _ => ?_, fun _ => .inl rfl⟩
      · rw [hreader] at h
        cases h
      · exact .inr ⟨hreader, fun h => hretry ⟨hreader, h⟩⟩
    · exact .refl s

/-- `readOldAlarms` returns with an error before anything is read. -/
structure Fails (rc : NtfError) (s s' : ReaderState) : Prop where
  front : s'.alarmQueueFront = s.alarmQueueFront
  tail : s'.alarmQueue = s.alarmQueue
  queued : s'.queued = s.queued
  handed : s'.handed = s.handed
  reader : s.reader = .entering
  reader' : s'.reader = .returned
  ended : s'.Ended ↔ ¬ (rc = .tryAgain ∧ s.nRetries < OAM_SA_NTF_MAX_RETRIES)

theorem Fails.good {rc : NtfError} (h : Fails rc s s') (hs : s.Good)
    (hfine : (rc = .tryAgain ∧ s.nRetries < OAM_SA_NTF_MAX_RETRIES) ∨ s.alarmQueueFront = []) : s'.Good where
  accounted := by
    rw [h.queued, h.handed, h.front]
    exact hs.accounted
  tail := by
    rw [h.tail, h.front]
    refine hs.tail.imp_right fun h' => h'.imp_right fun h'' => ?_
    rw [h.reader] at h''
    cases h''.2.2
  ended he := by
    rw [h.front]
    exact hfine.resolve_left (h.ended.mp he)

theorem Fails.bad {rc : NtfError} (h : Fails rc s s')
    (hfine : ¬ ((rc = .tryAgain ∧ s.nRetries < OAM_SA_NTF_MAX_RETRIES) ∨ s.alarmQueueFront = [])) : s'.Bad := by
  obtain ⟨hrc, hfront⟩ := not_or.mp hfine
  refine .inr ⟨h.ended.mpr hrc, ?_⟩
  rw [h.front]
  exact hfront

theorem Fails.stays {rc : NtfError} (h : Fails rc s s') (hs : s.Bad) : s'.Bad := by
  rcases hs with hlost | ⟨hended, -⟩
  · unfold Bad
    rw [h.queued, h.handed, h.front]
    exact .inl hlost
  · rcases hended with hended | ⟨hended, -⟩ <;> rw [h.reader] at hended <;> cases hended

theorem fails_filterAllocate {rc : NtfError} (h : s.reader = .entering) :
    Fails rc s (s.filterAllocateFails rc) := by
  unfold filterAllocateFails
  rw [if_pos h]
  exact ⟨rfl, rfl, rfl, rfl, h, rfl, by simp [Ended, WillRetry]⟩

theorem fails_readInitialize {rc : NtfError} (h : s.reader = .entering) :
    Fails rc s (s.readInitializeFails rc) := by
  have hqueue : s.toState.readOldAlarms.alarmQueueFront = s.alarmQueueFront ∧
      s.toState.readOldAlarms.alarmQueue = s.alarmQueue := by
    unfold State.readOldAlarms
    rw [h]
    dsimp only
    split <;> exact ⟨rfl, rfl⟩
  unfold readInitializeFails
  rw [if_pos h]
  exact ⟨hqueue.1, hqueue.2, rfl, rfl, h, rfl, by simp [Ended, WillRetry]⟩

/-! ### The queue -/

theorem queueAlarm_front (a : Alarm) (h : s.alarmQueue = .null ∧ s.alarmQueueFront = [] ∨
    s.alarmQueue = .lastOfFront) :
    s.toState.queueAlarm a =
      { s.toState with alarmQueueFront := s.alarmQueueFront ++ [a], alarmQueue := .lastOfFront } := by
  unfold State.queueAlarm
  rcases h with ⟨htail, hfront⟩ | htail
  · rw [htail, hfront]
    rfl
  · rw [htail]

theorem succeed_callbackLocked :
    QueueKept s (s.succeed .callbackLocked) ∧ s.toState.queues .callbackLocked = [] ∨
      ∃ a, s.toState.queues .callbackLocked = [a] ∧
        s.succeed .callbackLocked = { s with
          toState := { s.toState.queueAlarm a with callback := .idle }, queued := s.queued ++ [a] } := by
  have hqueued : ∀ l : List Alarm, l ++ [] = l := List.append_nil
  cases hcallback : s.callback with
  | idle =>
    have hqueues : s.toState.queues .callbackLocked = [] := by simp [State.queues, hcallback]
    refine .inl ⟨.of_same ?_ rfl rfl ?_ ?_ (by rw [succeed, hqueues, hqueued]) (hqueued _), hqueues⟩ <;>
      simp [succeed, Ntf.step, State.callbackLocked, hcallback]
  | sending a =>
    have hqueues : s.toState.queues .callbackLocked = [] := by simp [State.queues, hcallback]
    refine .inl ⟨.of_same ?_ rfl rfl ?_ ?_ (by rw [succeed, hqueues, hqueued]) (hqueued _), hqueues⟩ <;>
      simp [succeed, Ntf.step, State.callbackLocked, hcallback]
  | locking a n =>
    cases hflag : s.readOldAlarm with
    | false =>
      have hqueues : s.toState.queues .callbackLocked = [] := by simp [State.queues, hcallback, hflag]
      refine .inl ⟨.of_same ?_ rfl rfl ?_ ?_ (by rw [succeed, hqueues, hqueued]) (hqueued _), hqueues⟩ <;>
        simp [succeed, Ntf.step, State.callbackLocked, hcallback, hflag]
    | true =>
      have hqueues : s.toState.queues .callbackLocked = [a] := by simp [State.queues, hcallback, hflag]
      refine .inr ⟨a, hqueues, ?_⟩
      simp [succeed, Ntf.step, State.callbackLocked, State.hands, nextRc, hqueues, hcallback, hflag]

theorem succeed_sendQueuedAlarms :
    s.reader ≠ .sendingQueued ∧ s.succeed .sendQueuedAlarms = s ∨
      s.reader = .sendingQueued ∧ s.alarmQueueFront = [] ∧
        s.succeed .sendQueuedAlarms = { s with
          toState := { s.toState with readOldAlarm := false, alarmQueue := .null, reader := .returned } } ∨
      ∃ a rest, s.reader = .sendingQueued ∧ s.alarmQueueFront = a :: rest ∧
        s.succeed .sendQueuedAlarms = { s with
          toState := { s.toState.sendSaNtfNotification a with
            alarmQueueFront := rest
            alarmQueue := if rest = [] ∧ s.alarmQueue = .lastOfFront then .freed else s.alarmQueue }
          handed := s.handed ++ [a] } := by
  by_cases hreader : s.reader = .sendingQueued
  · refine .inr ?_
    cases hfront : s.alarmQueueFront with
    | nil =>
      refine .inl ⟨hreader, rfl, ?_⟩
      simp [succeed, Ntf.step, State.sendQueuedAlarms, State.queues, State.hands, nextRc, hreader, hfront]
    | cons a rest =>
      refine .inr ⟨a, rest, hreader, rfl, ?_⟩
      simp [succeed, Ntf.step, State.sendQueuedAlarms, State.queues, State.hands, nextRc, hreader, hfront]
  · refine .inl ⟨hreader, ?_⟩
    have hsame : s.toState.sendQueuedAlarms = s.toState := by
      unfold State.sendQueuedAlarms
      split
      · rename_i h
        exact absurd h hreader
      · rfl
    simp [succeed, Ntf.step, State.queues, State.hands, nextRc, hreader, hsame]

theorem good_callbackLocked (hs : s.Good) (hfine : s.Fine (.succeeds .callbackLocked)) :
    (s.succeed .callbackLocked).Good := by
  rcases s.succeed_callbackLocked with ⟨hkept, -⟩ | ⟨a, hqueues, hsucceed⟩
  · exact hkept.good hs
  · obtain ⟨hended, htail⟩ := hfine (by simp [hqueues])
    have hfront : s.alarmQueue = .null ∧ s.alarmQueueFront = [] ∨ s.alarmQueue = .lastOfFront := by
      refine htail.imp_left fun h => ⟨h, ?_⟩
      rcases hs.tail with h' | h' | h'
      · exact h'.2
      · exact absurd (h.symm.trans h'.1) (by decide)
      · exact h'.2.1
    rw [hsucceed, s.queueAlarm_front a hfront]
    refine ⟨?_, .inr (.inl ⟨rfl, by simp⟩), fun h => absurd h hended⟩
    rw [hs.accounted]
    exact List.append_assoc ..

theorem bad_callbackLocked (hs : s.Good) (hfine : ¬ s.Fine (.succeeds .callbackLocked)) :
    (s.succeed .callbackLocked).Bad := by
  unfold Fine at hfine
  obtain ⟨hqueues, hwrong⟩ := Classical.not_imp.mp hfine
  rcases s.succeed_callbackLocked with ⟨-, hnone⟩ | ⟨a, -, hsucceed⟩
  · exact absurd hnone hqueues
  · rw [hsucceed]
    by_cases hfront : s.alarmQueue = .null ∧ s.alarmQueueFront = [] ∨ s.alarmQueue = .lastOfFront
    · rw [s.queueAlarm_front a hfront]
      have hended : s.Ended := by
        by_contra hended
        exact hwrong ⟨hended, hfront.imp_left And.left⟩
      exact .inr ⟨hended, by simp⟩
    · have hfreed : s.alarmQueue = .freed ∧ s.alarmQueueFront = [] := by
        rcases hs.tail with h | h | h
        · exact absurd (.inl h) hfront
        · exact absurd (.inr h.1) hfront
        · exact ⟨h.1, h.2.1⟩
      refine .inl ?_
      simp [State.queueAlarm, hfreed.1, hfreed.2, hs.accounted]

theorem stays_callbackLocked (hs : s.Bad) : (s.succeed .callbackLocked).Bad := by
  rcases s.succeed_callbackLocked with ⟨hkept, -⟩ | ⟨a, -, hsucceed⟩
  · exact hkept.bad hs
  · rw [hsucceed]
    have hfront : (s.toState.queueAlarm a).alarmQueueFront.length ≤ s.alarmQueueFront.length + 1 ∧
        (s.alarmQueueFront ≠ [] → (s.toState.queueAlarm a).alarmQueueFront ≠ []) := by
      unfold State.queueAlarm
      split <;> simp
    rcases hs with hlost | ⟨hended, hne⟩
    · refine .inl ?_
      simp only [List.length_append, List.length_singleton]
      omega
    · refine .inr ⟨?_, hfront.2 hne⟩
      have hreader : (s.toState.queueAlarm a).reader = s.reader := by
        unfold State.queueAlarm
        split <;> rfl
      unfold Ended WillRetry at hended ⊢
      rw [hreader]
      exact hended

theorem good_sendQueuedAlarms (hs : s.Good) : (s.succeed .sendQueuedAlarms).Good := by
  rcases s.succeed_sendQueuedAlarms with ⟨-, hsame⟩ | ⟨-, hfront, hsucceed⟩ | ⟨a, rest, hreader, hfront, hsucceed⟩
  · rw [hsame]
    exact hs
  · rw [hsucceed]
    exact ⟨hs.accounted, .inl ⟨rfl, hfront⟩, fun _ => hfront⟩
  · rw [hsucceed]
    have htail : s.alarmQueue = .lastOfFront := by
      rcases hs.tail with h | h | h
      · exact absurd (hfront.symm.trans h.2) (List.cons_ne_nil a rest)
      · exact h.1
      · exact absurd (hfront.symm.trans h.2.1) (List.cons_ne_nil a rest)
    refine ⟨?_, ?_, fun h => ?_⟩
    · rw [hs.accounted, hfront]
      simp
    · by_cases hrest : rest = []
      · exact .inr (.inr ⟨if_pos ⟨hrest, htail⟩, hrest, hreader⟩)
      · exact .inr (.inl ⟨by simp [hrest, htail], hrest⟩)
    · rcases h with h | ⟨h, -⟩ <;> cases hreader.symm.trans h

theorem stays_sendQueuedAlarms (hs : s.Bad) : (s.succeed .sendQueuedAlarms).Bad := by
  rcases s.succeed_sendQueuedAlarms with ⟨-, hsame⟩ | ⟨hreader, hfront, hsucceed⟩ | ⟨a, rest, hreader, hfront,
    hsucceed⟩
  · rw [hsame]
    exact hs
  · rcases hs with hlost | ⟨-, hne⟩
    · rw [hsucceed]
      exact .inl hlost
    · exact absurd hfront hne
  · rcases hs with hlost | ⟨hended, -⟩
    · rw [hsucceed]
      rw [hfront] at hlost
      refine .inl ?_
      simp only [List.length_append, List.length_cons, List.length_nil] at hlost ⊢
      omega
    · rcases hended with h | ⟨h, -⟩ <;> cases hreader.symm.trans h

/-! ### Every event -/

theorem step_succeeds {e : Event} (h : e ≠ .readerThreadEnds) : s.step (.succeeds e) = s.succeed e := by
  cases e <;> first | rfl | exact absurd rfl h

theorem step_other {e : ReaderEvent} (h : e ≠ .succeeds .callbackLocked) (h' : e ≠ .succeeds .sendQueuedAlarms) :
    QueueKept s (s.step e) ∧ s.Fine e ∨ ∃ rc, Fails rc s (s.step e) ∧
      (s.Fine e ↔ (rc = .tryAgain ∧ s.nRetries < OAM_SA_NTF_MAX_RETRIES) ∨ s.alarmQueueFront = []) := by
  cases e with
  | succeeds e =>
    have hfine : s.Fine (.succeeds e) := by
      cases e <;> trivial
    by_cases hend : e = .readerThreadEnds
    · subst hend
      exact .inl ⟨s.queueKept_readerThread, hfine⟩
    · rw [s.step_succeeds hend]
      exact .inl ⟨queueKept_succeed (fun he => h (by rw [he])) (fun he => h' (by rw [he])) hend, hfine⟩
  | readNextFails rc => exact .inl ⟨s.queueKept_readNextFails rc, trivial⟩
  | filterAllocateFails rc =>
    by_cases hreader : s.reader = .entering
    · exact .inr ⟨rc, s.fails_filterAllocate hreader, forall_prop_of_true hreader⟩
    · have hsame : s.filterAllocateFails rc = s := if_neg hreader
      refine .inl ⟨?_, fun h => absurd h hreader⟩
      change QueueKept s (s.filterAllocateFails rc)
      rw [hsame]
      exact .refl s
  | readInitializeFails rc =>
    by_cases hreader : s.reader = .entering
    · exact .inr ⟨rc, s.fails_readInitialize hreader, forall_prop_of_true hreader⟩
    · have hsame : s.readInitializeFails rc = s := if_neg hreader
      refine .inl ⟨?_, fun h => absurd h hreader⟩
      change QueueKept s (s.readInitializeFails rc)
      rw [hsame]
      exact .refl s

end

theorem good_initial (searchTime : Int) (log : List Alarm) : (initial searchTime log).Good :=
  ⟨rfl, .inl ⟨rfl, rfl⟩, fun _ => rfl⟩

theorem good_step (e : ReaderEvent) (hs : s.Good) (hfine : s.Fine e) : (s.step e).Good := by
  by_cases h : e = .succeeds .callbackLocked
  · subst h
    exact good_callbackLocked hs hfine
  · by_cases h' : e = .succeeds .sendQueuedAlarms
    · subst h'
      exact good_sendQueuedAlarms hs
    · rcases step_other h h' with ⟨hkept, -⟩ | ⟨rc, hfails, hiff⟩
      · exact hkept.good hs
      · exact hfails.good hs (hiff.mp hfine)

theorem bad_step (e : ReaderEvent) (hs : s.Good) (hfine : ¬ s.Fine e) : (s.step e).Bad := by
  by_cases h : e = .succeeds .callbackLocked
  · subst h
    exact bad_callbackLocked hs hfine
  · by_cases h' : e = .succeeds .sendQueuedAlarms
    · subst h'
      exact absurd trivial hfine
    · rcases step_other h h' with ⟨-, hfine'⟩ | ⟨rc, hfails, hiff⟩
      · exact absurd hfine' hfine
      · exact hfails.bad (hiff.not.mp hfine)

theorem stays_step (e : ReaderEvent) (hs : s.Bad) : (s.step e).Bad := by
  by_cases h : e = .succeeds .callbackLocked
  · subst h
    exact stays_callbackLocked hs
  · by_cases h' : e = .succeeds .sendQueuedAlarms
    · subst h'
      exact stays_sendQueuedAlarms hs
    · rcases step_other h h' with ⟨hkept, -⟩ | ⟨rc, hfails, -⟩
      · exact hkept.bad hs
      · exact hfails.stays hs

/-! ## Whole runs -/

theorem bad_not_drained (hs : s.Bad) : ¬ s.Drained := by
  rintro ⟨hfront, hhanded⟩
  rcases hs with hlost | ⟨-, hne⟩
  · rw [hfront, hhanded] at hlost
    simp at hlost
  · exact hne hfront

theorem good_drained (hs : s.Good) (hended : s.Ended) : s.Drained := by
  have hfront := hs.ended hended
  refine ⟨hfront, ?_⟩
  rw [hs.accounted, hfront, List.append_nil]

theorem done_event {s : State} (e : Event) (hs : s.readOldAlarmDone = true → s.reader = .done) :
    (Ntf.step s e).readOldAlarmDone = true → (Ntf.step s e).reader = .done := by
  cases e with
  | append a => exact hs
  | saNtfNotificationCallback4 n =>
    unfold Ntf.step State.saNtfNotificationCallback4
    grind
  | callbackLocked =>
    simp only [Ntf.step, State.callbackLocked, State.queueAlarm]
    grind
  | callbackSends =>
    simp only [Ntf.step, State.callbackSends, State.sendSaNtfNotification]
    grind
  | readOldAlarms =>
    simp only [Ntf.step, State.readOldAlarms]
    grind
  | readNext n =>
    simp only [Ntf.step, State.readNext]
    grind
  | readerSends =>
    simp only [Ntf.step, State.readerSends, State.sendSaNtfNotification]
    grind
  | afterReading =>
    simp only [Ntf.step, State.afterReading]
    grind
  | sendQueuedAlarms =>
    simp only [Ntf.step, State.sendQueuedAlarms, State.sendSaNtfNotification]
    grind
  | readerThreadEnds =>
    simp only [Ntf.step, State.readerThreadEnds]
    grind

theorem done_step (e : ReaderEvent) (hs : s.readOldAlarmDone = true → s.reader = .done) :
    (s.step e).readOldAlarmDone = true → (s.step e).reader = .done := by
  cases e with
  | filterAllocateFails rc =>
    simp only [step, filterAllocateFails]
    grind
  | readInitializeFails rc =>
    simp only [step, readInitializeFails, State.readOldAlarms]
    grind
  | readNextFails rc =>
    simp only [step, readNextFails]
    grind
  | succeeds e =>
    by_cases hend : e = .readerThreadEnds
    · subst hend
      simp only [step, readerThread, succeed, Ntf.step, State.readerThreadEnds]
      grind
    · rw [s.step_succeeds hend]
      exact done_event e hs

/-- When the reader thread is through, the queue has been sent exactly in the runs where the reader gave up with an
empty queue, and no alarm was queued after that, or behind an alarm that was freed. -/
theorem drained_iff (searchTime : Int) (log : List Alarm) (es : List ReaderEvent)
    (hdone : (es.foldl step (initial searchTime log)).readOldAlarmDone = true) :
    (es.foldl step (initial searchTime log)).Drained ↔ Along step Fine (initial searchTime log) es := by
  have hflag : ∀ s : ReaderState, ∀ e, (s.readOldAlarmDone = true → s.reader = .done) →
      (s.step e).readOldAlarmDone = true → (s.step e).reader = .done := fun s e => done_step s e
  have hinitial : (initial searchTime log).readOldAlarmDone = true → (initial searchTime log).reader =
    .done := nofun
  have hreader := foldl_invariant hflag hinitial es hdone
  exact along_iff_last (fun s e => good_step s e) (fun s e => bad_step s e) (fun s e => stays_step s e)
    (good_initial searchTime log) (fun hgood => good_drained _ hgood (.inl hreader)) (bad_not_drained _)

/-- The filter is allocated at the second attempt, and the reading ends with an error; the alarm is sent. -/
def retried : List ReaderEvent :=
  [.filterAllocateFails .tryAgain, .succeeds .readerThreadEnds, .succeeds .readOldAlarms, .succeeds (.append late),
    .succeeds (.saNtfNotificationCallback4 7), .succeeds .callbackLocked, .readNextFails .other,
    .succeeds .afterReading, .succeeds .sendQueuedAlarms, .succeeds .sendQueuedAlarms, .succeeds .readerThreadEnds]

theorem drained_iff_retried :
    (retried.foldl step (initial 0 [])).Drained ↔ Along step Fine (initial 0 []) retried :=
  drained_iff 0 [] retried (by decide)

/-- The reading cannot be initialized at the second attempt either, and an alarm was queued in between. -/
def givenUp : List ReaderEvent :=
  [.readInitializeFails .tryAgain, .succeeds (.append late), .succeeds (.saNtfNotificationCallback4 7),
    .succeeds .callbackLocked, .succeeds .readerThreadEnds, .readInitializeFails .other,
      .succeeds .readerThreadEnds]

theorem not_drained :
    ¬ ∀ (searchTime : Int) (log : List Alarm) (es : List ReaderEvent),
      (es.foldl step (initial searchTime log)).readOldAlarmDone = true →
        (es.foldl step (initial searchTime log)).Drained := by
  intro h
  have hempty := (h 0 [] givenUp (by decide)).1
  have hqueue : (givenUp.foldl step (initial 0 [])).alarmQueueFront = [late] := by decide
  rw [hqueue] at hempty
  cases hempty

end ReaderState

end ComSA.Ntf
