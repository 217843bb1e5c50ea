import ComSA.Lib.Ownership

/-!
# Alarms that NTF discarded

NTF tells the ids of notifications that it discarded, and `readOldAlarms` reads all notifications again and passes
on those with one of the ids. Each notification is to be freed once.
-/

namespace ComSA.Ntf

inductive SaNtfNotificationTypeT where
  | objectCreateDelete
  | attributeChange
  | stateChange
  | alarm
  | securityAlarm
  | alarmQos
  | unknown
  deriving DecidableEq, Repr

/-- The members of the union begin alike, with the handle and the header. The header points to the id and to the
time, which are freed with the notification. -/
structure SaNtfNotificationsT where
  notificationType : SaNtfNotificationTypeT
  notificationHandle : Nat
  notificationId : Nat
  eventTime : Int
  deriving DecidableEq, Repr

inductive SaAisErrorT where
  | ok
  | badHandle
  | notExist
  | other (code : Nat)
  deriving DecidableEq, Repr

inductive Fault where
  | assertion
  /-- The id of a notification is read that is freed already. -/
  | freedRead
  | uninitialized
  deriving DecidableEq, Repr

structure Recovery where
  is_ntf_stop_component : Bool
  failingOver : Bool
  searchTime : Int
  alarmFilterAllocate : SaAisErrorT
  securityAlarmFilterAllocate : SaAisErrorT
  readInitialize : SaAisErrorT
  /-- The notifications that `saNtfNotificationReadNext` returns, with `ntf_stop_thread` after the call. -/
  readNext : List (SaNtfNotificationsT × Bool)
  readNextEnds : SaAisErrorT

structure RecoveryState where
  heap : Heap Nat
  /-- The variable `nh`, which is set only for some of the types. -/
  nh : Option Nat
  returned : List SaNtfNotificationsT
  /-- What `saNtfNotificationCallback4` was called with. -/
  passed : List SaNtfNotificationsT
  deriving DecidableEq, Repr

namespace RecoveryState

def initial : RecoveryState := ⟨.empty, none, [], []⟩

def saNtfNotificationFree (notificationHandle : Nat) (s : RecoveryState) : SaAisErrorT × RecoveryState :=
  match s.heap.free notificationHandle with
  | some heap => (.ok, { s with heap })
  | none => (.badHandle, s)

def saNtfNotificationReadNext (n : SaNtfNotificationsT) (s : RecoveryState) : RecoveryState :=
  { s with heap := s.heap.allocate n.notificationHandle, returned := s.returned ++ [n] }

/-- With subscription id 0. What is sent to COM is not told here, only what is freed. -/
def saNtfNotificationCallback4 (n : SaNtfNotificationsT) (s : RecoveryState) : RecoveryState :=
  let s := { s with passed := s.passed ++ [n] }
  match n.notificationType with
  | .stateChange | .objectCreateDelete | .attributeChange => (s.saNtfNotificationFree n.notificationHandle).2
  | .alarm | .securityAlarm => (s.saNtfNotificationFree n.notificationHandle).2
  -- the second switch of the callback knows neither of them
  | .alarmQos | .unknown => s

/-- The reading loop frees the notification, or the one of which it has the handle. -/
def freeRead (n : SaNtfNotificationsT) (s : RecoveryState) : Except Fault RecoveryState :=
  let s :=
    match n.notificationType with
    | .alarm | .alarmQos | .securityAlarm => { s with nh := some n.notificationHandle }
    | _ => s
  match s.nh with
  | none => .error .uninitialized
  | some nh =>
    match s.saNtfNotificationFree nh with
    | (.ok, s) => .ok s
    | _ => .error .assertion

/-- `*n.notification.alarmNotification.notificationHeader.notificationId` -/
def readId (n : SaNtfNotificationsT) (s : RecoveryState) : Except Fault Nat :=
  if n.notificationHandle ∈ s.heap.live then .ok n.notificationId else .error .freedRead

def discardedLoop (n : SaNtfNotificationsT) : List Nat → RecoveryState → Except Fault RecoveryState
  | [], s => .ok s
  | discardedId :: discardedIds, s => do
    let notificationId ← s.readId n
    if discardedId = notificationId then
      discardedLoop n discardedIds (s.saNtfNotificationCallback4 n)
    else
      let s ← s.freeRead n
      discardedLoop n discardedIds s

def turn (searchTime : Int) (discardedIds : List Nat) (n : SaNtfNotificationsT) (s : RecoveryState) :
    Except Fault RecoveryState :=
  if discardedIds ≠ [] then
    s.discardedLoop n discardedIds
  else if n.eventTime > searchTime ∨ searchTime = 0 then
    .ok (s.saNtfNotificationCallback4 n)
  else
    s.freeRead n

def readLoop (searchTime : Int) (discardedIds : List Nat) (readNextEnds : SaAisErrorT) :
    List (SaNtfNotificationsT × Bool) → RecoveryState → Except Fault (SaAisErrorT × RecoveryState)
  | [], s => .ok (readNextEnds, s)
  | (n, ntf_stop_thread) :: readNext, s =>
    if ntf_stop_thread then
      .ok (.ok, s.saNtfNotificationReadNext n)
    else do
      let s ← (s.saNtfNotificationReadNext n).turn searchTime discardedIds n
      readLoop searchTime discardedIds readNextEnds readNext s

end RecoveryState

def readOldAlarms (r : Recovery) (discardedIds : List Nat) : Except Fault (SaAisErrorT × RecoveryState) :=
  if r.is_ntf_stop_component = true ∧ r.failingOver = true then
    .ok (.ok, .initial)
  else if r.alarmFilterAllocate ≠ .ok then
    .ok (r.alarmFilterAllocate, .initial)
  else if r.securityAlarmFilterAllocate ≠ .ok then
    .ok (r.securityAlarmFilterAllocate, .initial)
  else if r.readInitialize ≠ .ok then
    .ok (r.readInitialize, .initial)
  else do
    let (rc, s) ← RecoveryState.initial.readLoop r.searchTime discardedIds r.readNextEnds r.readNext
    .ok (if rc = .notExist then .ok else rc, s)

/-- NTF gives every notification that it returns a handle of its own. -/
def Recovery.Distinct (r : Recovery) : Prop := (r.readNext.map fun x => x.1.notificationHandle).Nodup

/-- The function returns; exactly the notifications with a discarded id were passed to the callback, each once; and
every notification that was returned is freed, each once. -/
def Recovers (r : Recovery) (discardedIds : List Nat) : Prop :=
  ∃ rc s, readOldAlarms r discardedIds = .ok (rc, s) ∧
    s.passed.Perm (s.returned.filter fun n => n.notificationId ∈ discardedIds) ∧
      s.heap.freed.Perm (s.returned.map SaNtfNotificationsT.notificationHandle)

def Recovery.Reads (r : Recovery) : Prop :=
  ¬ (r.is_ntf_stop_component = true ∧ r.failingOver = true) ∧ r.alarmFilterAllocate = .ok ∧
    r.securityAlarmFilterAllocate = .ok ∧ r.readInitialize = .ok

/-- The list of ids is as long as the notification needs it: what does not free it may come first, what frees it
comes last. -/
def SaNtfNotificationsT.Suits (discardedIds : List Nat) (n : SaNtfNotificationsT) : Prop :=
  match n.notificationType with
  | .alarm | .securityAlarm => discardedIds.length = 1
  | .objectCreateDelete | .attributeChange | .stateChange => discardedIds = [n.notificationId]
  | .alarmQos => ∃ last, last ≠ n.notificationId ∧ (discardedIds = [last] ∨ discardedIds = [n.notificationId, last])
  | .unknown => False

/-! ## One notification -/

/-- The notification is freed when the callback has it. -/
def SaNtfNotificationTypeT.callbackFrees : SaNtfNotificationTypeT → Bool
  | .alarmQos | .unknown => false
  | _ => true

def SaNtfNotificationTypeT.loopFrees : SaNtfNotificationTypeT → Bool
  | .alarm | .alarmQos | .securityAlarm => true
  | _ => false

/-- The last id frees the notification, and the ids before it pass it on without freeing it. -/
inductive FreedBy (n : SaNtfNotificationsT) : List Nat → Prop where
  | matched : n.notificationType.callbackFrees = true → FreedBy n [n.notificationId]
  | other {last : Nat} : n.notificationType.loopFrees = true → last ≠ n.notificationId → FreedBy n [last]
  | passed {discardedIds : List Nat} : n.notificationType.callbackFrees = false → FreedBy n discardedIds →
      FreedBy n (n.notificationId :: discardedIds)

theorem FreedBy.ne_nil {discardedIds : List Nat} {n : SaNtfNotificationsT} (h : FreedBy n discardedIds) :
    discardedIds ≠ [] := by
  cases h <;> exact List.cons_ne_nil _ _

theorem FreedBy.of_passed {discardedIds : List Nat} {n : SaNtfNotificationsT} (h : FreedBy n discardedIds)
    (hcount : n.notificationId ∉ discardedIds) :
    ∃ last, last ≠ n.notificationId ∧ discardedIds = [last] ∧ n.notificationType.loopFrees = true := by
  cases h with
  | matched => exact absurd List.mem_cons_self hcount
  | @other last hfrees hne => exact ⟨last, hne, rfl, hfrees⟩
  | passed => exact absurd List.mem_cons_self hcount

theorem suits_iff {discardedIds : List Nat} {n : SaNtfNotificationsT} :
    n.Suits discardedIds ↔ FreedBy n discardedIds ∧ discardedIds.count n.notificationId ≤ 1 := by
  have hone (id : Nat) : [id].count n.notificationId ≤ 1 := List.count_le_length
  constructor
  · unfold SaNtfNotificationsT.Suits
    intro h
    split at h <;> rename_i htype
    iterate 2
      obtain ⟨id, rfl⟩ := List.length_eq_one_iff.mp h
      refine ⟨?_, hone id⟩
      by_cases hid : id = n.notificationId
      · subst hid
        exact .matched (by rw [htype]; rfl)
      · exact .other (by rw [htype]; rfl) hid
    iterate 3
      subst h
      exact ⟨.matched (by rw [htype]; rfl), hone _⟩
    · obtain ⟨last, hne, rfl | rfl⟩ := h
      · exact ⟨.other (by rw [htype]; rfl) hne, hone _⟩
      · refine ⟨.passed (by rw [htype]; rfl) (.other (by rw [htype]; rfl) hne), ?_⟩
        have hnot : n.notificationId ∉ [last] := by simpa using hne.symm
        have hzero := List.count_eq_zero_of_not_mem hnot
        rw [List.count_cons_self]
        omega
    · exact absurd h id
  · rintro ⟨h, hcount⟩
    unfold SaNtfNotificationsT.Suits
    cases h with
    | matched hfrees =>
      revert hfrees
      cases n.notificationType <;> simp [SaNtfNotificationTypeT.callbackFrees]
    | @other last hfrees hne =>
      revert hfrees
      cases n.notificationType <;> simp [SaNtfNotificationTypeT.loopFrees, hne]
    | @passed discardedIds hcallback h =>
      rw [List.count_cons_self] at hcount
      have hnot : n.notificationId ∉ discardedIds := List.count_eq_zero.mp (by omega)
      obtain ⟨last, hne, rfl, hfrees⟩ := h.of_passed hnot
      revert hcallback hfrees
      cases n.notificationType <;>
        simp [SaNtfNotificationTypeT.callbackFrees, SaNtfNotificationTypeT.loopFrees, hne]

namespace RecoveryState

section
variable {s s' base : RecoveryState} {n : SaNtfNotificationsT} {discardedIds : List Nat}

theorem readId_live (hlive : n.notificationHandle ∈ s.heap.live) : s.readId n = .ok n.notificationId := if_pos hlive

/-- `n` is not freed yet, and has the place that `ReadNext` gave it. -/
def Given (base : RecoveryState) (n : SaNtfNotificationsT) (s : RecoveryState) : Prop :=
  s.heap = base.heap.allocate n.notificationHandle

def Gone (base : RecoveryState) (n : SaNtfNotificationsT) (s : RecoveryState) : Prop :=
  s.heap = ⟨base.heap.live, base.heap.freed ++ [n.notificationHandle]⟩

theorem Given.live (h : Given base n s) : n.notificationHandle ∈ s.heap.live := by
  rw [h]
  exact List.mem_cons_self

theorem Given.free (h : Given base n s) :
    s.saNtfNotificationFree n.notificationHandle =
      (.ok, { s with heap := ⟨base.heap.live, base.heap.freed ++ [n.notificationHandle]⟩ }) := by
  unfold saNtfNotificationFree
  rw [h, Heap.free_allocate]

theorem callback4_frees (h : Given base n s) (hfrees : n.notificationType.callbackFrees = true) :
    s.saNtfNotificationCallback4 n = { s with
      passed := s.passed ++ [n]
      heap := ⟨base.heap.live, base.heap.freed ++ [n.notificationHandle]⟩ } := by
  have hgiven : Given base n { s with passed := s.passed ++ [n] } := h
  unfold saNtfNotificationCallback4
  split <;> rename_i htype
  iterate 5
    dsimp only
    rw [hgiven.free]
  all_goals
    rw [htype] at hfrees
    cases hfrees

theorem callback4_keeps (hfrees : n.notificationType.callbackFrees = false) :
    s.saNtfNotificationCallback4 n = { s with passed := s.passed ++ [n] } := by
  unfold saNtfNotificationCallback4
  split <;> rename_i htype
  iterate 5
    rw [htype] at hfrees
    cases hfrees
  iterate 2 rfl

theorem freeRead_frees (h : Given base n s) (hfrees : n.notificationType.loopFrees = true) :
    s.freeRead n = .ok { s with
      nh := some n.notificationHandle
      heap := ⟨base.heap.live, base.heap.freed ++ [n.notificationHandle]⟩ } := by
  have hgiven : Given base n { s with nh := some n.notificationHandle } := h
  unfold freeRead
  split
  iterate 3
    dsimp only
    rw [hgiven.free]
  · revert hfrees
    cases htype : n.notificationType <;> simp_all [SaNtfNotificationTypeT.loopFrees]

theorem freeRead_fails (hfrees : n.notificationType.loopFrees = false) (hnh : ∀ nh, s.nh = some nh → nh ∉ s.heap.live) :
    ∃ fault, s.freeRead n = .error fault := by
  unfold freeRead
  split
  iterate 3
    rename_i htype
    rw [htype] at hfrees
    cases hfrees
  · dsimp only
    cases hs : s.nh with
    | none => exact ⟨_, rfl⟩
    | some nh =>
      dsimp only
      unfold saNtfNotificationFree
      rw [Heap.free_of_not_mem (hnh nh hs)]
      exact ⟨_, rfl⟩

theorem discardedLoop_same (hlive : n.notificationHandle ∈ s.heap.live) :
    s.discardedLoop n (n.notificationId :: discardedIds) =
      (s.saNtfNotificationCallback4 n).discardedLoop n discardedIds := by
  rw [discardedLoop, readId_live hlive]
  exact if_pos rfl

theorem discardedLoop_other {id : Nat} (hlive : n.notificationHandle ∈ s.heap.live) (hne : id ≠ n.notificationId) :
    s.discardedLoop n (id :: discardedIds) = (s.freeRead n).bind fun s => s.discardedLoop n discardedIds := by
  rw [discardedLoop, readId_live hlive]
  exact if_neg hne

theorem discardedLoop_gone (hgone : n.notificationHandle ∉ s.heap.live)
    (hrun : s.discardedLoop n discardedIds = .ok s') :
    discardedIds = [] ∧ s' = s := by
  cases discardedIds with
  | nil => exact ⟨rfl, (Except.ok.inj hrun).symm⟩
  | cons id discardedIds =>
    unfold discardedLoop readId at hrun
    rw [if_neg hgone] at hrun
    cases hrun

/-- What the loop over the ids does to a notification that is given to it. -/
structure Looped (base : RecoveryState) (n : SaNtfNotificationsT) (discardedIds : List Nat)
    (s s' : RecoveryState) : Prop where
  returned : s'.returned = s.returned
  passed : s'.passed = s.passed ++ List.replicate (discardedIds.count n.notificationId) n
  nh : s'.nh = s.nh ∨ s'.nh = some n.notificationHandle
  heap : Gone base n s' ∧ FreedBy n discardedIds ∨ Given base n s' ∧ s'.nh = s.nh ∧ ¬ FreedBy n discardedIds

theorem discardedLoop_of_freedBy (hfreed : FreedBy n discardedIds) (h : Given base n s) :
    ∃ s', s.discardedLoop n discardedIds = .ok s' := by
  induction hfreed generalizing s with
  | matched hcallback =>
    rw [discardedLoop_same h.live]
    exact ⟨_, rfl⟩
  | other hloop hne =>
    rw [discardedLoop_other h.live hne, freeRead_frees h hloop]
    exact ⟨_, rfl⟩
  | passed hcallback _ ih =>
    have hgiven : Given base n { s with passed := s.passed ++ [n] } := h
    rw [discardedLoop_same h.live, callback4_keeps hcallback]
    exact ih hgiven

theorem looped (h : Given base n s) (hfresh : n.notificationHandle ∉ base.heap.live)
    (hnh : ∀ nh, s.nh = some nh → nh ∉ s.heap.live) (hrun : s.discardedLoop n discardedIds = .ok s') :
    Looped base n discardedIds s s' := by
  induction discardedIds generalizing s with
  | nil =>
    obtain rfl := Except.ok.inj hrun
    exact ⟨rfl, (List.append_nil _).symm, .inl rfl, .inr ⟨h, rfl, fun hfreed => hfreed.ne_nil rfl⟩⟩
  | cons id discardedIds ih =>
    by_cases hid : id = n.notificationId
    · subst hid
      rw [discardedLoop_same h.live] at hrun
      cases hcallback : n.notificationType.callbackFrees with
      | true =>
        rw [callback4_frees h hcallback] at hrun
        obtain ⟨rfl, rfl⟩ := discardedLoop_gone (by exact hfresh) hrun
        exact ⟨rfl, by rw [List.count_singleton_self]; rfl, .inl rfl, .inl ⟨rfl, .matched hcallback⟩⟩
      | false =>
        have hgiven : Given base n { s with passed := s.passed ++ [n] } := h
        rw [callback4_keeps hcallback] at hrun
        obtain ⟨hreturned, hpassed, hnh', hheap⟩ := ih hgiven hnh hrun
        refine ⟨hreturned, ?_, hnh', hheap.imp (And.imp_right (.passed hcallback)) ?_⟩
        · rw [hpassed, List.count_cons_self, List.replicate_succ]
          exact List.append_assoc s.passed [n] _
        · rintro ⟨hgiven, hsame, hnot⟩
          refine ⟨hgiven, hsame, fun hfreed => ?_⟩
          cases hfreed with
          | matched hfrees =>
            rw [hcallback] at hfrees
            cases hfrees
          | other _ hne => exact hne rfl
          | passed _ hfreed => exact hnot hfreed
    · rw [discardedLoop_other h.live hid] at hrun
      cases hloop : n.notificationType.loopFrees with
      | true =>
        rw [freeRead_frees h hloop] at hrun
        obtain ⟨rfl, rfl⟩ := discardedLoop_gone (by exact hfresh) hrun
        refine ⟨rfl, ?_, .inr rfl, .inl ⟨rfl, .other hloop hid⟩⟩
        have hnot : n.notificationId ∉ [id] := by simpa using Ne.symm hid
        rw [List.count_eq_zero_of_not_mem hnot]
        exact (List.append_nil _).symm
      | false =>
        obtain ⟨fault, hfault⟩ := freeRead_fails hloop hnh
        rw [hfault] at hrun
        cases hrun

end

/-! ## The reading loop -/

/-- What NTF gave out is what was returned, and the handle in `nh` is freed. -/
structure Inv (s : RecoveryState) : Prop where
  accounted : s.heap.blocks.Perm (s.returned.map SaNtfNotificationsT.notificationHandle)
  nh : ∀ nh, s.nh = some nh → nh ∈ s.heap.freed

/-- A notification was not freed, or was passed on twice. -/
def Lost (s : RecoveryState) : Prop :=
  ∃ n ∈ s.returned, n.notificationHandle ∈ s.heap.live ∨ 1 < s.passed.count n

section
variable {s s' : RecoveryState} {n : SaNtfNotificationsT} {discardedIds : List Nat}

theorem inv_initial : Inv initial := ⟨List.Perm.nil, fun _ h => by cases h⟩

theorem Inv.mem_blocks (h : Inv s) {handle : Nat} :
    handle ∈ s.heap.blocks ↔ handle ∈ s.returned.map SaNtfNotificationsT.notificationHandle := h.accounted.mem_iff

theorem turn_spec (h : Inv s) (hids : discardedIds ≠ []) {searchTime : Int}
    (hnodup : ((s.returned ++ [n]).map SaNtfNotificationsT.notificationHandle).Nodup)
    (hrun : (s.saNtfNotificationReadNext n).turn searchTime discardedIds n = .ok s') :
    Inv s' ∧ s'.returned = s.returned ++ [n] ∧
      s'.passed = s.passed ++ List.replicate (discardedIds.count n.notificationId) n ∧
        (Gone s n s' ∧ FreedBy n discardedIds ∨
          Given s n s' ∧ ¬ FreedBy n discardedIds) := by
  rw [List.map_append, List.nodup_append] at hnodup
  obtain ⟨hbefore, -, hdisjoint⟩ := hnodup
  have hfresh : n.notificationHandle ∉ s.heap.blocks := fun hmem =>
    hdisjoint _ (h.mem_blocks.mp hmem) _ (List.mem_singleton_self _) rfl
  have hblocks : s.heap.blocks.Nodup := h.accounted.nodup_iff.mpr hbefore
  have hgiven : Given s n (s.saNtfNotificationReadNext n) := rfl
  have hnh : ∀ nh, s.nh = some nh → nh ∉ (s.heap.allocate n.notificationHandle).live := by
    intro nh hs hmem
    rcases List.mem_cons.mp hmem with rfl | hlive
    · exact hfresh (List.mem_append_right _ (h.nh _ hs))
    · exact Heap.not_mem_freed hblocks hlive (h.nh _ hs)
  unfold turn at hrun
  rw [if_pos hids] at hrun
  obtain ⟨hreturned, hpassed, hnh', hheap⟩ :=
    looped hgiven (fun hlive => hfresh (List.mem_append_left _ hlive)) hnh hrun
  have hreturned' : s'.returned = s.returned ++ [n] := hreturned
  have hmore : (s'.returned.map SaNtfNotificationsT.notificationHandle).Perm
      (n.notificationHandle :: s.returned.map SaNtfNotificationsT.notificationHandle) := by
    rw [hreturned', List.map_append]
    exact List.perm_append_singleton ..
  have hallocated := h.accounted.cons n.notificationHandle
  refine ⟨?_, hreturned', hpassed, hheap.imp_right fun h => ⟨h.1, h.2.2⟩⟩
  rcases hheap with ⟨hgone, -⟩ | ⟨hgiven', hsame, -⟩
  · refine ⟨?_, fun nh hs => ?_⟩
    · have hmove : s'.heap.blocks.Perm (n.notificationHandle :: s.heap.blocks) := by
        rw [hgone, Heap.blocks, ← List.append_assoc]
        exact List.perm_append_singleton ..
      exact hmove.trans (hallocated.trans hmore.symm)
    · rw [hgone]
      rcases hnh' with hsame | hnew
      · exact List.mem_append_left _ (h.nh nh (hsame ▸ hs))
      · obtain rfl := Option.some.inj (hnew.symm.trans hs)
        exact List.mem_append_right _ (List.mem_singleton_self _)
  · refine ⟨?_, fun nh hs => ?_⟩
    · rw [hgiven']
      exact hallocated.trans hmore.symm
    · rw [hgiven']
      exact h.nh nh (hsame ▸ hs)

theorem turn_of_suits (hids : discardedIds ≠ []) (hsuits : n.Suits discardedIds) (searchTime : Int) :
    ∃ s', (s.saNtfNotificationReadNext n).turn searchTime discardedIds n = .ok s' := by
  have hgiven : Given s n (s.saNtfNotificationReadNext n) := rfl
  unfold turn
  rw [if_pos hids]
  exact discardedLoop_of_freedBy (suits_iff.mp hsuits).1 hgiven

theorem Lost.mono (h : Lost s) (hreturned : s.returned ⊆ s'.returned) (hlive : s.heap.live ⊆ s'.heap.live)
    (hpassed : s.passed.Sublist s'.passed) : Lost s' := by
  obtain ⟨n, hn, hlost⟩ := h
  exact ⟨n, hreturned hn, hlost.imp (fun hmem => hlive hmem) fun htwice =>
    Nat.lt_of_lt_of_le htwice (hpassed.count_le n)⟩

theorem turn_lost (h : Inv s) (hids : discardedIds ≠ []) {searchTime : Int}
    (hnodup : ((s.returned ++ [n]).map SaNtfNotificationsT.notificationHandle).Nodup)
    (hrun : (s.saNtfNotificationReadNext n).turn searchTime discardedIds n = .ok s')
    (hlost : Lost s ∨ ¬ n.Suits discardedIds) : Lost s' := by
  obtain ⟨-, hreturned, hpassed, hheap⟩ := turn_spec h hids hnodup hrun
  rcases hlost with hlost | hsuits
  · apply hlost.mono
    · rw [hreturned]
      exact List.subset_append_left ..
    · rcases hheap with ⟨hgone, -⟩ | ⟨hgiven, -⟩
      · rw [hgone]
        exact List.Subset.refl _
      · rw [hgiven]
        exact List.subset_cons_self ..
    · rw [hpassed]
      exact List.sublist_append_left ..
  · refine ⟨n, by rw [hreturned]; exact List.mem_append_right _ (List.mem_singleton_self n), ?_⟩
    rcases hheap with ⟨-, hfreed⟩ | ⟨hgiven, -⟩
    · have htwice : ¬ discardedIds.count n.notificationId ≤ 1 := fun hcount => hsuits (suits_iff.mpr ⟨hfreed, hcount⟩)
      have hmany : (List.replicate (discardedIds.count n.notificationId) n).count n ≤ s'.passed.count n := by
        rw [hpassed]
        exact (List.sublist_append_right ..).count_le n
      rw [List.count_replicate_self] at hmany
      omega
    · exact .inl hgiven.live

end

section
variable {discardedIds : List Nat} {searchTime : Int} {readNextEnds : SaAisErrorT}
  {readNext : List (SaNtfNotificationsT × Bool)} {s : RecoveryState}

theorem replicate_count {n : SaNtfNotificationsT} (hcount : discardedIds.count n.notificationId ≤ 1) :
    List.replicate (discardedIds.count n.notificationId) n =
      [n].filter fun n => n.notificationId ∈ discardedIds := by
  by_cases hmem : n.notificationId ∈ discardedIds
  · have hpos := List.count_pos_iff.mpr hmem
    have hone : discardedIds.count n.notificationId = 1 := by omega
    rw [hone, List.filter_singleton, decide_eq_true hmem]
    rfl
  · rw [List.count_eq_zero_of_not_mem hmem, List.filter_singleton, decide_eq_false hmem]
    rfl

theorem readLoop_of_suits (hids : discardedIds ≠ []) (h : Inv s)
    (hnodup : ((s.returned ++ readNext.map Prod.fst).map SaNtfNotificationsT.notificationHandle).Nodup)
    (hall : ∀ x ∈ readNext, x.2 = false ∧ x.1.Suits discardedIds) :
    ∃ s', s.readLoop searchTime discardedIds readNextEnds readNext = .ok (readNextEnds, s') ∧ Inv s' ∧
      s'.returned = s.returned ++ readNext.map Prod.fst ∧ s'.heap.live = s.heap.live ∧
        s'.passed = s.passed ++ (readNext.map Prod.fst).filter fun n => n.notificationId ∈ discardedIds := by
  induction readNext generalizing s with
  | nil => exact ⟨s, rfl, h, (List.append_nil _).symm, rfl, (List.append_nil _).symm⟩
  | cons x readNext ih =>
    obtain ⟨n, ntf_stop_thread⟩ := x
    have hfine : ntf_stop_thread = false ∧ n.Suits discardedIds := hall _ List.mem_cons_self
    obtain ⟨rfl, hsuits⟩ := hfine
    have hrest : s.returned ++ ((n, false) :: readNext).map Prod.fst =
        s.returned ++ [n] ++ readNext.map Prod.fst := List.append_cons ..
    rw [hrest] at hnodup
    have hfirst : ((s.returned ++ [n]).map SaNtfNotificationsT.notificationHandle).Nodup :=
      hnodup.sublist ((List.sublist_append_left ..).map _)
    obtain ⟨t, hturn⟩ := @turn_of_suits s n discardedIds hids hsuits searchTime
    obtain ⟨hinv, hreturned, hpassed, hheap⟩ := turn_spec h hids hfirst hturn
    obtain ⟨hfreed, hcount⟩ := suits_iff.mp hsuits
    have hgone : Gone s n t := (hheap.resolve_right fun hnot => hnot.2 hfreed).1
    rw [← hreturned] at hnodup
    obtain ⟨s', hrun, hinv', hreturned', hlive', hpassed'⟩ :=
      ih hinv hnodup fun x hx => hall x (List.mem_cons_of_mem _ hx)
    refine ⟨s', ?_, hinv', ?_, ?_, ?_⟩
    · rw [readLoop, if_neg Bool.false_ne_true, hturn]
      exact hrun
    · rw [hreturned', hreturned, hrest]
    · rw [hlive', hgone]
    · rw [hpassed', hpassed, replicate_count hcount, List.append_assoc, ← List.filter_append]
      rfl

/-- Otherwise something is lost, if the loop ends. -/
theorem readLoop_lost {rc : SaAisErrorT} {s' : RecoveryState} (hids : discardedIds ≠ []) (h : Inv s)
    (hnodup : ((s.returned ++ readNext.map Prod.fst).map SaNtfNotificationsT.notificationHandle).Nodup)
    (hlost : Lost s ∨ ∃ x ∈ readNext, ¬ (x.2 = false ∧ x.1.Suits discardedIds))
    (hrun : s.readLoop searchTime discardedIds readNextEnds readNext = .ok (rc, s')) :
    Lost s' ∧ s'.heap.blocks.Perm (s'.returned.map SaNtfNotificationsT.notificationHandle) ∧
      (s'.returned.map SaNtfNotificationsT.notificationHandle).Nodup := by
  induction readNext generalizing s with
  | nil =>
    rw [readLoop] at hrun
    obtain ⟨-, rfl⟩ := Prod.ext_iff.mp (Except.ok.inj hrun)
    rw [List.map_nil, List.append_nil] at hnodup
    refine ⟨hlost.resolve_right ?_, h.accounted, hnodup⟩
    rintro ⟨x, hx, -⟩
    cases hx
  | cons x readNext ih =>
    obtain ⟨n, ntf_stop_thread⟩ := x
    have hrest : s.returned ++ ((n, ntf_stop_thread) :: readNext).map Prod.fst =
        s.returned ++ [n] ++ readNext.map Prod.fst := List.append_cons ..
    rw [hrest] at hnodup
    have hfirst : ((s.returned ++ [n]).map SaNtfNotificationsT.notificationHandle).Nodup :=
      hnodup.sublist ((List.sublist_append_left ..).map _)
    rw [readLoop] at hrun
    cases hstop : ntf_stop_thread with
    | true =>
      -- the notification that was read last is not freed
      rw [if_pos hstop] at hrun
      obtain ⟨-, rfl⟩ := Prod.ext_iff.mp (Except.ok.inj hrun)
      refine ⟨⟨n, List.mem_append_right _ (List.mem_singleton_self n), .inl List.mem_cons_self⟩, ?_, hfirst⟩
      have hmore : ((s.returned ++ [n]).map SaNtfNotificationsT.notificationHandle).Perm
          (n.notificationHandle :: s.returned.map SaNtfNotificationsT.notificationHandle) := by
        rw [List.map_append]
        exact List.perm_append_singleton ..
      exact (h.accounted.cons n.notificationHandle).trans hmore.symm
    | false =>
      rw [if_neg (by rw [hstop]; exact Bool.false_ne_true)] at hrun
      cases hturn : (s.saNtfNotificationReadNext n).turn searchTime discardedIds n with
      | error fault =>
        rw [hturn] at hrun
        cases hrun
      | ok t =>
        rw [hturn] at hrun
        obtain ⟨hinv, hreturned, -, -⟩ := turn_spec h hids hfirst hturn
        rw [← hreturned] at hnodup
        refine ih hinv hnodup ?_ hrun
        rcases hlost with hlost | ⟨x, hx, hbad⟩
        · exact .inl (turn_lost h hids hfirst hturn (.inl hlost))
        · rcases List.mem_cons.mp hx with rfl | hx
          · exact .inl (turn_lost h hids hfirst hturn (.inr fun hsuits => hbad ⟨hstop, hsuits⟩))
          · exact .inr ⟨x, hx, hbad⟩

theorem Lost.not_perm (hlost : Lost s)
    (hblocks : s.heap.blocks.Perm (s.returned.map SaNtfNotificationsT.notificationHandle))
    (hnodup : (s.returned.map SaNtfNotificationsT.notificationHandle).Nodup) (p : SaNtfNotificationsT → Bool)
    (hpassed : s.passed.Perm (s.returned.filter p)) :
    ¬ s.heap.freed.Perm (s.returned.map SaNtfNotificationsT.notificationHandle) := by
  intro hfreed
  obtain ⟨n, -, hlive | htwice⟩ := hlost
  · rw [(Heap.freed_perm_iff hblocks).mp hfreed] at hlive
    cases hlive
  · have honce := List.nodup_iff_count_le_one.mp ((List.Nodup.of_map _ hnodup).filter p) n
    rw [hpassed.count_eq] at htwice
    omega

end

end RecoveryState

open RecoveryState

theorem readOldAlarms_of_reads {r : Recovery} (discardedIds : List Nat) (hreads : r.Reads) :
    readOldAlarms r discardedIds =
      (RecoveryState.initial.readLoop r.searchTime discardedIds r.readNextEnds r.readNext).map fun x =>
        (if x.1 = .notExist then .ok else x.1, x.2) := by
  obtain ⟨hfailingOver, halarm, hsecurity, hinit⟩ := hreads
  unfold readOldAlarms
  rw [if_neg hfailingOver, if_neg (not_not.mpr halarm), if_neg (not_not.mpr hsecurity), if_neg (not_not.mpr hinit)]
  cases RecoveryState.initial.readLoop r.searchTime discardedIds r.readNextEnds r.readNext <;> rfl

theorem readOldAlarms_of_not_reads {r : Recovery} {discardedIds : List Nat} (hreads : ¬ r.Reads) :
    ∃ rc, readOldAlarms r discardedIds = .ok (rc, .initial) := by
  unfold readOldAlarms
  split
  · exact ⟨_, rfl⟩
  split
  · exact ⟨_, rfl⟩
  split
  · exact ⟨_, rfl⟩
  split
  · exact ⟨_, rfl⟩
  · rename_i hfailingOver halarm hsecurity hinit
    exact absurd ⟨hfailingOver, not_not.mp halarm, not_not.mp hsecurity, not_not.mp hinit⟩ hreads

theorem discarded_recovered_iff (r : Recovery) {discardedIds : List Nat} (hids : discardedIds ≠ [])
    (hdistinct : r.Distinct) :
    Recovers r discardedIds ↔ (r.Reads → ∀ x ∈ r.readNext, x.2 = false ∧ x.1.Suits discardedIds) := by
  have hnodup : ((RecoveryState.initial.returned ++ r.readNext.map Prod.fst).map
      SaNtfNotificationsT.notificationHandle).Nodup := by
    rw [show RecoveryState.initial.returned = [] from rfl, List.nil_append, List.map_map]
    exact hdistinct
  by_cases hreads : r.Reads
  · have hrun := readOldAlarms_of_reads discardedIds hreads
    constructor
    · rintro ⟨rc, s, hread, hpassed, hfreed⟩ -
      by_contra hbad
      cases hloop : RecoveryState.initial.readLoop r.searchTime discardedIds r.readNextEnds r.readNext with
      | error fault =>
        rw [hrun, hloop] at hread
        cases hread
      | ok result =>
        rw [hrun, hloop] at hread
        obtain ⟨-, rfl⟩ := Prod.ext_iff.mp (Except.ok.inj hread)
        have hsome : ∃ x ∈ r.readNext, ¬ (x.2 = false ∧ x.1.Suits discardedIds) := by
          simpa only [not_forall, exists_prop] using hbad
        obtain ⟨hlost, hblocks, hnodup'⟩ := readLoop_lost hids inv_initial hnodup (.inr hsome) hloop
        exact hlost.not_perm hblocks hnodup' _ hpassed hfreed
    · intro hall
      obtain ⟨s', hloop, hinv, hreturned, hlive, hpassed⟩ := @readLoop_of_suits _ r.searchTime r.readNextEnds _ _ hids
        inv_initial hnodup (hall hreads)
      rw [hloop] at hrun
      refine ⟨_, s', hrun, ?_, (Heap.freed_perm_iff hinv.accounted).mpr hlive⟩
      rw [hpassed, hreturned]
      exact List.Perm.refl _
  · obtain ⟨rc, hrun⟩ := @readOldAlarms_of_not_reads r discardedIds hreads
    exact iff_of_true ⟨rc, _, hrun, List.Perm.refl _, List.Perm.refl _⟩ fun h => absurd h hreads

def oneAlarm (notificationId : Nat) : Recovery where
  is_ntf_stop_component := false
  failingOver := false
  searchTime := 0
  alarmFilterAllocate := .ok
  securityAlarmFilterAllocate := .ok
  readInitialize := .ok
  readNext := [(⟨.alarm, 1, notificationId, 5⟩, false)]
  readNextEnds := .notExist

theorem discarded_recovered_iff_oneAlarm :
    Recovers (oneAlarm 7) [7] ↔ ((oneAlarm 7).Reads → ∀ x ∈ (oneAlarm 7).readNext, x.2 = false ∧ x.1.Suits [7]) :=
  discarded_recovered_iff (oneAlarm 7) (List.cons_ne_nil 7 []) (List.nodup_singleton 1)

/-- Two alarms were discarded: an alarm is freed for the first id, and is read again for the second one. -/
theorem not_discarded_recovered :
    ¬ ∀ (r : Recovery) (discardedIds : List Nat), discardedIds ≠ [] → r.Distinct → Recovers r discardedIds := by
  intro h
  obtain ⟨rc, s, hread, -⟩ := h (oneAlarm 7) [8, 9] (List.cons_ne_nil 8 [9]) (List.nodup_singleton 1)
  cases hread

end ComSA.Ntf
