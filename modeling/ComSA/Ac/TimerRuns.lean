import ComSA.Ac.SelectTimer
import ComSA.Lib.Run
import ComSA.Lib.SortedInsert
import Mathlib.Data.List.Nodup
import Mathlib.Data.List.TakeWhile

/-!
# Timers fire in time

The references that `timerStart_r` returns may be used at any time, also those of timers that ended.
A reference may be given out again for a timer that is started later.
-/

namespace ComSA.Ac

open Timers

/-- The timers, the last reading of the clock, and which timers were started and not stopped since. -/
structure TimerRun where
  timers : Timers
  clock : Timeval
  live : Addr → Bool

inductive Call where
  | start (now : Timeval) (mS sr ref : Nat)
  | stop (t : Addr)
  | modify (t : Addr) (mS userRef : Nat)
  | getDelay (now : Timeval)
  | handlerReturns (rc : Int) (now : Timeval)
  deriving DecidableEq, Repr

namespace TimerRun

def initial : TimerRun := ⟨Timers.initial, ⟨0, 0⟩, fun _ => false⟩

def liveAfter (rc : Int) (r : TimerRun) : Addr → Bool :=
  match r.timers.th.activeTimer with
  | none => r.live
  | some item => if rc = 0 then Function.update r.live item false else r.live

def step (o : Option TimerRun) (call : Call) : Option TimerRun :=
  o.bind fun r =>
    match call with
    | .start now mS sr ref =>
      let (t, timers) := timerStart_r now mS sr ref r.timers
      some ⟨timers, now, Function.update r.live t true⟩
    | .stop t => (timerStop_r t r.timers).map fun timers =>
      { r with timers := timers, live := Function.update r.live t false }
    | .modify t mS userRef => (timerModify t mS userRef r.timers).map fun timers => { r with timers := timers }
    | .getDelay now => some { r with timers := (timerGetDelay_r now r.timers).2, clock := now }
    | .handlerReturns rc now =>
      some ⟨(handlerReturned rc now r.timers).2, now, r.liveAfter rc⟩

structure Tidy (r : TimerRun) : Prop where
  nodup : (r.timers.th.timers ++ r.timers.th.freeTimerList ++ r.timers.th.activeTimer.toList).Nodup
  allocated : ∀ a, r.timers.allocated a = true ↔
    a ∈ r.timers.th.timers ++ r.timers.th.freeTimerList ++ r.timers.th.activeTimer.toList
  count : r.timers.th.freeTimers = r.timers.th.freeTimerList.length
  few : r.timers.th.freeTimers ≤ 4
  live : ∀ a, r.live a = true ↔ a ∈ r.timers.th.timers ∨
    r.timers.th.activeTimer = some a ∧ (r.timers.node a).state ≠ .deleted

end TimerRun

def ClockOk (now : Timeval) (r : TimerRun) : Prop := ¬ now.before r.clock ∧ now.usec < 1000000

def Call.Legal (o : Option TimerRun) (call : Call) : Prop :=
  ∀ r ∈ o,
    match call with
    | .start now _ _ _ => ClockOk now r
    | .stop t | .modify t _ _ => t < r.timers.next
    | .getDelay now => ClockOk now r ∧ r.timers.th.activeTimer = none
    | .handlerReturns _ now => ClockOk now r ∧ r.timers.th.activeTimer ≠ none

/-- A handler that is called belongs to a timer that was started and not stopped, its time is past, and
no other timer's time comes before. -/
def FiresRight (now : Timeval) (r r' : TimerRun) : Prop :=
  ∀ item, r'.timers.th.activeTimer = some item → r.live item = true ∧
    (r'.timers.node item).expires.micros < now.micros ∧
    ∀ b ∈ r'.timers.th.timers, (r'.timers.node item).expires.micros ≤ (r'.timers.node b).expires.micros

/-- A timer whose handler returned is queued again, or else on the free list or freed. -/
def EndsRight (rc : Int) (r r' : TimerRun) : Prop :=
  ∀ item, r.timers.th.activeTimer = some item →
    if rc ≠ 0 ∧ r.live item = true then
      item ∈ r'.timers.th.timers ∧ (r.timers.node item).expires.micros ≤ (r'.timers.node item).expires.micros
    else item ∈ r'.timers.th.freeTimerList ∨ r'.timers.allocated item = false

def Call.Right (o : Option TimerRun) (call : Call) : Prop :=
  ∀ r ∈ o, ∃ r', TimerRun.step (some r) call = some r' ∧ r'.Tidy ∧
    match call with
    | .getDelay now => FiresRight now r r'
    | .handlerReturns rc now => FiresRight now r r' ∧ EndsRight rc r r'
    | _ => r'.timers.th.activeTimer = r.timers.th.activeTimer

/-- A timer that is stopped or modified was not freed, and the first timer of the queue does not expire
with a full second of microseconds at the very time the clock shows. -/
def Call.Fine (o : Option TimerRun) (call : Call) : Prop :=
  ∀ r ∈ o,
    match call with
    | .start _ _ _ _ => True
    | .stop t | .modify t _ _ => r.timers.allocated t = true
    | .getDelay now | .handlerReturns _ now => ∀ item, r.timers.th.timers.head? = some item →
      (r.timers.node item).expires.usec = 1000000 → now ≠ ⟨(r.timers.node item).expires.sec + 1, 0⟩

instance (now : Timeval) (r : TimerRun) : Decidable (ClockOk now r) :=
  inferInstanceAs (Decidable (¬ now.before r.clock ∧ now.usec < 1000000))

instance Call.Legal.decidable : (o : Option TimerRun) → (call : Call) → Decidable (Call.Legal o call)
  | none, _ => .isTrue fun _ h => nomatch h
  | some r, .start now _ _ _ => decidable_of_iff (ClockOk now r) ⟨fun h _ hr => by cases hr; exact h,
    fun h => h r rfl⟩
  | some r, .stop t | some r, .modify t _ _ =>
    decidable_of_iff (t < r.timers.next) ⟨fun h _ hr => by cases hr; exact h, fun h => h r rfl⟩
  | some r, .getDelay now =>
    decidable_of_iff (ClockOk now r ∧ r.timers.th.activeTimer = none)
      ⟨fun h _ hr => by cases hr; exact h, fun h => h r rfl⟩
  | some r, .handlerReturns _ now =>
    decidable_of_iff (ClockOk now r ∧ r.timers.th.activeTimer ≠ none)
      ⟨fun h _ hr => by cases hr; exact h, fun h => h r rfl⟩

/-- The first timer of the queue does not expire with a full second of microseconds at this time. -/
def NoTie (now : Timeval) (s : Timers) : Prop :=
  ∀ item, s.th.timers.head? = some item →
    (s.node item).expires.usec = 1000000 → now ≠ ⟨(s.node item).expires.sec + 1, 0⟩

instance (now : Timeval) (s : Timers) : Decidable (NoTie now s) :=
  decidable_of_iff (∀ item ∈ s.th.timers.head?,
    (s.node item).expires.usec = 1000000 → now ≠ ⟨(s.node item).expires.sec + 1, 0⟩) Iff.rfl

instance Call.Fine.decidable : (o : Option TimerRun) → (call : Call) → Decidable (Call.Fine o call)
  | none, _ => .isTrue fun _ h => nomatch h
  | some _, .start _ _ _ _ => .isTrue fun _ _ => trivial
  | some r, .stop t | some r, .modify t _ _ =>
    decidable_of_iff (r.timers.allocated t = true) ⟨fun h _ hr => by cases hr; exact h, fun h => h r rfl⟩
  | some r, .getDelay now | some r, .handlerReturns _ now =>
    decidable_of_iff (NoTie now r.timers) ⟨fun h _ hr => by cases hr; exact h, fun h => h r rfl⟩

/-! ## The queue -/

section
variable {node : Addr → TimerInternal} {t : Addr} {expires : Timeval} {timers : List Addr}

def Sorted (node : Addr → TimerInternal) (timers : List Addr) : Prop :=
  timers.Pairwise fun a b => ¬ (node b).expires.before (node a).expires

theorem insertTimer_spec (t : Addr) (expires : Timeval) (h : Sorted node timers) :
    ∃ before after, insertTimer node t expires timers = before ++ t :: after ∧ before ++ after = timers ∧
      (∀ a ∈ before, ¬ expires.before (node a).expires) ∧ ∀ b ∈ after, ¬ (node b).expires.before expires := by
  unfold insertTimer
  extract_lets less same rest
  have hrest : rest.Sublist timers := List.dropWhile_sublist _
  have hlater : ∀ b ∈ rest, expires.sec ≤ (node b).expires.sec := by
    intro b hb
    have hnot := not_of_mem_dropWhile (p := fun a => decide (less a)) (h.imp fun {a b} hab => ?_) b hb
    · have hnot : ¬ (node b).expires.sec < expires.sec := of_decide_eq_false hnot
      omega
    · unfold Timeval.before at hab
      simp only [less, decide_eq_true_eq]
      omega
  refine ⟨_, _, rfl, ?_, ?_, ?_⟩
  · rw [List.append_assoc, List.takeWhile_append_dropWhile, List.takeWhile_append_dropWhile]
  · intro a ha
    unfold Timeval.before
    rcases List.mem_append.mp ha with ha | ha
    · have hin := List.mem_takeWhile_imp ha
      have hless : (node a).expires.sec < expires.sec := of_decide_eq_true hin
      omega
    · have hin := List.mem_takeWhile_imp ha
      have hsame : (node a).expires.sec = expires.sec ∧ (node a).expires.usec < expires.usec :=
        of_decide_eq_true hin
      omega
  · intro b hb
    have hmem : b ∈ rest := (List.dropWhile_sublist _).subset hb
    have hsec := hlater b hmem
    have hsorted : rest.Pairwise fun a b => decide (same b) = true → decide (same a) = true := by
      refine (h.sublist hrest).imp_of_mem fun {a b} ha _ hab => ?_
      have := hlater a ha
      unfold Timeval.before at hab
      simp only [same, decide_eq_true_eq]
      omega
    have hnot : ¬ ((node b).expires.sec = expires.sec ∧ (node b).expires.usec < expires.usec) :=
      of_decide_eq_false (not_of_mem_dropWhile hsorted b hb)
    unfold Timeval.before
    omega

end

/-! ## The invariant -/

structure Core (s : Timers) (held : List Addr) (clock : Timeval) : Prop where
  nodup : (s.th.timers ++ s.th.freeTimerList ++ held).Nodup
  allocated : ∀ a, s.allocated a = true ↔ a ∈ s.th.timers ++ s.th.freeTimerList ++ held
  fresh : ∀ a, s.allocated a = true → a < s.next
  count : s.th.freeTimers = s.th.freeTimerList.length
  few : s.th.freeTimers ≤ 4
  running : ∀ a ∈ s.th.timers, (s.node a).state = .running
  sorted : Sorted s.node s.th.timers
  usec : ∀ a ∈ s.th.timers, (s.node a).expires.usec ≤ 1000000
  lastsec : ∀ a ∈ s.th.timers, (s.node a).lastsec ≤ clock.sec

structure TimerRun.Inv (r : TimerRun) : Prop where
  core : Core r.timers r.timers.th.activeTimer.toList r.clock
  active : ∀ a, r.timers.th.activeTimer = some a →
    (r.timers.node a).state ≠ .running ∧ (r.timers.node a).expires.usec ≤ 1000000 ∧
      (r.timers.node a).lastsec ≤ r.clock.sec
  live : ∀ a, r.live a = true ↔ a ∈ r.timers.th.timers ∨
    r.timers.th.activeTimer = some a ∧ (r.timers.node a).state ≠ .deleted
  clock : 0 ≤ r.clock.sec ∧ r.clock.usec < 1000000

theorem TimerRun.Inv.tidy {r : TimerRun} (h : r.Inv) : r.Tidy :=
  ⟨h.core.nodup, h.core.allocated, h.core.count, h.core.few, h.live⟩

section
variable {s : Timers} {held : List Addr} {clock tv : Timeval} {t a : Addr}

theorem Core.later {clock' : Timeval} (h : Core s held clock) (hclock : ¬ clock'.before clock) :
    Core s held clock' := by
  refine { h with lastsec := fun a ha => ?_ }
  have := h.lastsec a ha
  unfold Timeval.before at hclock
  omega

theorem Core.held_notMem (h : Core s held clock) (ht : t ∈ held) : t ∉ s.th.timers ∧ t ∉ s.th.freeTimerList := by
  have hnodup := (List.nodup_append.mp h.nodup).2.2
  refine ⟨fun hmem => ?_, fun hmem => ?_⟩
  · exact hnodup t (List.mem_append_left _ hmem) t ht rfl
  · exact hnodup t (List.mem_append_right _ hmem) t ht rfl

theorem Core.setNode (h : Core s held clock) {n : TimerInternal}
    (hsame : t ∈ s.th.timers → n.state = (s.node t).state ∧ n.expires = (s.node t).expires ∧
      n.lastsec ≤ clock.sec) : Core (s.setNode t n) held clock := by
  have hall : ∀ a ∈ s.th.timers, ((s.setNode t n).node a).state = (s.node a).state ∧
      ((s.setNode t n).node a).expires = (s.node a).expires ∧ ((s.setNode t n).node a).lastsec ≤ clock.sec := by
    intro a ha
    unfold Timers.setNode
    dsimp only
    by_cases hat : a = t
    · rw [hat] at ha ⊢
      rw [Function.update_self]
      exact hsame ha
    · rw [Function.update_of_ne hat]
      exact ⟨rfl, rfl, h.lastsec a ha⟩
  refine ⟨h.nodup, h.allocated, h.fresh, h.count, h.few, fun a ha => ?_, ?_, fun a ha => ?_, fun a ha => ?_⟩
  · rw [(hall a ha).1]
    exact h.running a ha
  · refine h.sorted.imp_of_mem fun {a b} ha hb hab => ?_
    rw [(hall a ha).2.1, (hall b hb).2.1]
    exact hab
  · rw [(hall a ha).2.1]
    exact h.usec a ha
  · exact (hall a ha).2.2

theorem addPeriod_usec (mS : Nat) (h : tv.usec ≤ 1000000) : (tv.addPeriod mS).usec ≤ 1000000 := by
  unfold Timeval.addPeriod
  dsimp only
  split
  · dsimp only
    omega
  · dsimp only
    omega

theorem addPeriod_micros (mS : Nat) (tv : Timeval) : (tv.addPeriod mS).micros = tv.micros + mS * 1000 := by
  unfold Timeval.addPeriod Timeval.micros
  dsimp only
  split
  · dsimp only
    omega
  · dsimp only
    omega

theorem nextExpiry_usec {n : TimerInternal} {now : Option Timeval} (h : n.expires.usec ≤ 1000000)
    (hnow : ∀ tv ∈ now, tv.usec < 1000000) : (nextExpiry n now).usec ≤ 1000000 := by
  unfold nextExpiry
  cases now with
  | none => exact addPeriod_usec n.mS h
  | some tv =>
    dsimp only
    split
    · exact addPeriod_usec n.mS (hnow tv rfl).le
    · exact addPeriod_usec n.mS h

theorem mem_rescedule (h : Core s held clock) (t : Addr) (now : Option Timeval) (a : Addr) :
    a ∈ (s.rescedule t now).th.timers ↔ a = t ∨ a ∈ s.th.timers := by
  obtain ⟨before, after, hinsert, hsplit, _⟩ := insertTimer_spec t (nextExpiry (s.node t) now) h.sorted
  have htimers : (s.rescedule t now).th.timers = before ++ t :: after := hinsert
  have hperm : (before ++ t :: after).Perm (t :: (before ++ after)) := List.perm_middle
  rw [htimers, hperm.mem_iff, List.mem_cons, hsplit]

theorem Core.rescedule (h : Core s (t :: held) clock) (now : Option Timeval)
    (husec : (s.node t).expires.usec ≤ 1000000)
    (hnow : ∀ tv ∈ now, tv.usec < 1000000) (hlast : (s.node t).lastsec ≤ clock.sec) :
    Core (s.rescedule t now) held clock := by
  obtain ⟨before, after, hinsert, hsplit, hbefore, hafter⟩ := insertTimer_spec t (nextExpiry (s.node t) now)
    h.sorted
  obtain ⟨hqueue, _⟩ := h.held_notMem (List.mem_cons_self ..)
  have hself : (s.rescedule t now).node t =
      { s.node t with expires := nextExpiry (s.node t) now, state := .running } := Function.update_self ..
  have hother : ∀ a ∈ s.th.timers, (s.rescedule t now).node a = s.node a := by
    intro a ha
    refine Function.update_of_ne ?_ ..
    rintro rfl
    exact hqueue ha
  have htimers : (s.rescedule t now).th.timers = before ++ t :: after := hinsert
  have hperm : ((s.rescedule t now).th.timers ++ s.th.freeTimerList ++ held).Perm
      (s.th.timers ++ s.th.freeTimerList ++ t :: held) := by
    rw [htimers, ← hsplit]
    exact ((List.perm_middle.append_right _).append_right _).trans List.perm_middle.symm
  have hmem := fun a => (mem_rescedule h t now a).mp
  refine ⟨hperm.nodup_iff.mpr h.nodup, fun a => (h.allocated a).trans hperm.mem_iff.symm, h.fresh, h.count, h.few,
    fun a ha => ?_, ?_, fun a ha => ?_, fun a ha => ?_⟩
  · rcases hmem a ha with rfl | ha
    · rw [hself]
    · rw [hother a ha]
      exact h.running a ha
  · have hin : ∀ a, a ∈ before ∨ a ∈ after → (s.rescedule t now).node a = s.node a := by
      intro a ha
      refine hother a ?_
      rw [← hsplit]
      exact List.mem_append.mpr ha
    unfold Sorted
    rw [htimers]
    refine pairwise_insert ?_ (fun a ha => ?_) fun b hb => ?_
    · rw [hsplit]
      refine h.sorted.imp_of_mem fun {a b} ha hb hab => ?_
      rw [hother a ha, hother b hb]
      exact hab
    · rw [hself, hin a (Or.inl ha)]
      exact hbefore a ha
    · rw [hself, hin b (Or.inr hb)]
      exact hafter b hb
  · rcases hmem a ha with rfl | ha
    · rw [hself]
      exact nextExpiry_usec husec hnow
    · rw [hother a ha]
      exact h.usec a ha
  · rcases hmem a ha with rfl | ha
    · rw [hself]
      exact hlast
    · rw [hother a ha]
      exact h.lastsec a ha

theorem Core.release (h : Core s (t :: held) clock) : Core (s.release t) held clock := by
  have hperm : (s.th.timers ++ s.th.freeTimerList ++ t :: held).Perm
      (t :: (s.th.timers ++ s.th.freeTimerList ++ held)) := List.perm_middle
  have hnodup := hperm.nodup_iff.mp h.nodup
  unfold Timers.release
  split <;> rename_i hroom
  · have hperm : (s.th.timers ++ (t :: s.th.freeTimerList) ++ held).Perm
        (s.th.timers ++ s.th.freeTimerList ++ t :: held) :=
      (List.perm_middle.append_right _).trans hperm.symm
    exact { h with
      nodup := hperm.nodup_iff.mpr h.nodup
      allocated := fun a => (h.allocated a).trans hperm.mem_iff.symm
      count := by
        rw [List.length_cons, ← h.count]
      few := hroom }
  · obtain ⟨hnot, hlists⟩ := List.nodup_cons.mp hnodup
    refine { h with nodup := hlists, allocated := fun a => ?_, fresh := fun a ha => ?_ }
    · dsimp only
      by_cases ha : a = t
      · rw [ha, Function.update_self]
        exact ⟨fun h => (nomatch h), fun hmem => absurd hmem hnot⟩
      · rw [Function.update_of_ne ha, h.allocated a, hperm.mem_iff, List.mem_cons]
        exact or_iff_right ha
    · by_cases hat : a = t
      · subst hat
        dsimp only at ha
        rw [Function.update_self] at ha
        cases ha
      · dsimp only at ha
        rw [Function.update_of_ne hat] at ha
        exact h.fresh a ha

theorem takeNode_spec (h : Core s held clock) : ∃ t s', s.takeNode = (t, s') ∧ Core s' (t :: held) clock ∧
    s'.th.timers = s.th.timers ∧ s'.node = s.node ∧ s'.th.activeTimer = s.th.activeTimer := by
  have hcount := h.count
  unfold Timers.takeNode
  cases hlist : s.th.freeTimerList with
  | nil =>
    rw [hlist, List.length_nil] at hcount
    rw [hcount]
    have hnew : s.next ∉ s.th.timers ++ s.th.freeTimerList ++ held := by
      intro hmem
      exact absurd (h.fresh s.next ((h.allocated s.next).mpr hmem)) (Nat.lt_irrefl _)
    have hperm : (s.th.timers ++ s.th.freeTimerList ++ s.next :: held).Perm
        (s.next :: (s.th.timers ++ s.th.freeTimerList ++ held)) := List.perm_middle
    refine ⟨_, _, rfl, ?_, rfl, rfl, rfl⟩
    refine { h with nodup := ?_, allocated := fun a => ?_, fresh := fun a ha => ?_ }
    · exact hperm.nodup_iff.mpr (List.nodup_cons.mpr ⟨hnew, h.nodup⟩)
    · dsimp only
      rw [hperm.mem_iff, List.mem_cons]
      by_cases ha : a = s.next
      · rw [ha, Function.update_self]
        exact ⟨fun _ => Or.inl rfl, fun _ => rfl⟩
      · rw [Function.update_of_ne ha, h.allocated a]
        exact (or_iff_right ha).symm
    · dsimp only at ha ⊢
      by_cases hat : a = s.next
      · rw [hat]
        exact Nat.lt_succ_self _
      · rw [Function.update_of_ne hat] at ha
        exact Nat.lt_succ_of_lt (h.fresh a ha)
  | cons t rest =>
    rw [hlist, List.length_cons] at hcount
    rw [hcount]
    refine ⟨_, _, rfl, ?_, rfl, rfl, rfl⟩
    have hperm : (s.th.timers ++ rest ++ t :: held).Perm (s.th.timers ++ (t :: rest) ++ held) :=
      List.perm_middle.trans (List.perm_middle.symm.append_right _)
    have hnodup := h.nodup
    have hallocated := h.allocated
    rw [hlist] at hnodup hallocated
    have hfew := h.few
    rw [hcount] at hfew
    exact { h with
      nodup := hperm.nodup_iff.mpr hnodup
      allocated := fun a => (hallocated a).trans hperm.mem_iff.symm
      count := rfl
      few := Nat.le_of_succ_le hfew }

/-! ## The loop -/

theorem computeDelay_delay (tv : Timeval) (s : Timers) : ∃ delay kept,
    computeDelay tv s = (.delay delay, { s with th := { s.th with delay := kept } }) := by
  unfold computeDelay
  split
  · exact ⟨none, s.th.delay, rfl⟩
  · exact ⟨_, _, rfl⟩

theorem Core.first_before (h : Core s held clock) {item : Addr} {rest : List Addr}
    (hlist : s.th.timers = item :: rest) {b : Addr} (hb : b ∈ rest) :
    ¬ (s.node b).expires.before (s.node item).expires := by
  have hsorted := h.sorted
  unfold Sorted at hsorted
  rw [hlist] at hsorted
  exact (List.pairwise_cons.mp hsorted).1 b hb

theorem Core.none_due (h : Core s held clock)
    (hfirst : ∀ first, s.th.timers.head? = some first → ¬ (s.node first).expires.before tv) {b : Addr}
    (hb : b ∈ s.th.timers) : ¬ (s.node b).expires.before tv := by
  cases hlist : s.th.timers with
  | nil =>
    rw [hlist] at hb
    cases hb
  | cons item rest =>
    have hitem := hfirst item (by rw [hlist]; rfl)
    rw [hlist] at hb
    rcases List.mem_cons.mp hb with rfl | hb
    · exact hitem
    · have hlater := h.first_before hlist hb
      unfold Timeval.before at hitem hlater ⊢
      omega

def Timers.fire (item : Addr) (rest : List Addr) (s : Timers) : Timers :=
  { s.setNode item { s.node item with state := .active } with
    th := { s.th with timers := rest, activeTimer := some item } }

theorem checkTimers_spec (h : Core s held tv) :
    ∃ outcome s', checkTimers tv s = (outcome, s') ∧
      ((∃ item rest, s.th.timers = item :: rest ∧ (s.node item).expires.before tv ∧
          s' = s.fire item rest) ∨
        (∀ item ∈ s.th.timers, ¬ (s.node item).expires.before tv) ∧
          ∃ delay, s' = { s with th := { s.th with delay := delay } }) := by
  unfold checkTimers
  cases hlist : s.th.timers with
  | nil =>
    obtain ⟨delay, kept, hdelay⟩ := computeDelay_delay tv s
    exact ⟨_, _, hdelay, Or.inr ⟨fun _ hitem => (nomatch hitem), kept, rfl⟩⟩
  | cons item rest =>
    have hitem : item ∈ s.th.timers := by
      rw [hlist]
      exact List.mem_cons_self ..
    dsimp only
    split <;> rename_i hbefore
    · exact ⟨_, _, rfl, Or.inl ⟨item, rest, rfl, hbefore, rfl⟩⟩
    · rw [if_neg (Int.not_lt.mpr (h.lastsec item hitem))]
      obtain ⟨delay, kept, hdelay⟩ := computeDelay_delay tv s
      refine ⟨_, _, hdelay, Or.inr ⟨fun b hb => h.none_due (fun first hfirst => ?_) (hlist ▸ hb), kept, rfl⟩⟩
      rw [hlist] at hfirst
      cases hfirst
      exact hbefore

theorem Core.take (h : Core s held clock) {item : Addr} {rest : List Addr} (hlist : s.th.timers = item :: rest)
    (n : TimerInternal) : Core ((s.setTimers rest).setNode item n) (item :: held) clock := by
  have hnodup := h.nodup
  have hallocated := h.allocated
  rw [hlist] at hnodup hallocated
  have hperm : (rest ++ s.th.freeTimerList ++ item :: held).Perm (item :: rest ++ s.th.freeTimerList ++ held) :=
    List.perm_middle
  have hne : ∀ a ∈ rest, a ≠ item := by
    rintro a ha rfl
    have hcons : a ∉ rest ++ s.th.freeTimerList ++ held := (List.nodup_cons.mp hnodup).1
    exact hcons (List.mem_append_left _ (List.mem_append_left _ ha))
  have hin : ∀ a ∈ rest, a ∈ s.th.timers := by
    intro a ha
    rw [hlist]
    exact List.mem_cons_of_mem _ ha
  have hsame : ∀ a ∈ rest, ((s.setTimers rest).setNode item n).node a = s.node a := fun a ha =>
    Function.update_of_ne (hne a ha) ..
  refine ⟨hperm.nodup_iff.mpr hnodup, fun a => (hallocated a).trans hperm.mem_iff.symm, h.fresh, h.count, h.few,
    fun a ha => ?_, ?_, fun a ha => ?_, fun a ha => ?_⟩
  · rw [hsame a ha]
    exact h.running a (hin a ha)
  · have hsorted := h.sorted
    unfold Sorted at hsorted
    rw [hlist] at hsorted
    refine (List.pairwise_cons.mp hsorted).2.imp_of_mem fun {a b} ha hb hab => ?_
    rw [hsame a ha, hsame b hb]
    exact hab
  · rw [hsame a ha]
    exact h.usec a (hin a ha)
  · rw [hsame a ha]
    exact h.lastsec a (hin a ha)

theorem Core.fire (h : Core s held clock) {item : Addr} {rest : List Addr} (hlist : s.th.timers = item :: rest) :
    Core (s.fire item rest) (item :: held) clock :=
  { h.take hlist { s.node item with state := .active } with }

theorem micros_le (a b : Timeval) (ha : a.usec ≤ 1000000) (h : ¬ b.before a) : a.micros ≤ b.micros := by
  unfold Timeval.before at h
  unfold Timeval.micros
  omega

theorem micros_lt_iff {expires now : Timeval} (husec : expires.usec ≤ 1000000) (hnow : now.usec < 1000000)
    (h : expires.before now) :
    expires.micros < now.micros ↔ (expires.usec = 1000000 → now ≠ ⟨expires.sec + 1, 0⟩) := by
  obtain ⟨sec, usec⟩ := now
  unfold Timeval.before at h
  unfold Timeval.micros
  dsimp only at hnow h ⊢
  rw [ne_eq, Timeval.mk.injEq]
  omega

theorem Core.first_least (h : Core s held clock) {item : Addr} {rest : List Addr} (hlist : s.th.timers = item :: rest)
    {b : Addr} (hb : b ∈ rest) : (s.node item).expires.micros ≤ (s.node b).expires.micros := by
  have hitem : item ∈ s.th.timers := by
    rw [hlist]
    exact List.mem_cons_self ..
  exact micros_le _ _ (h.usec item hitem) (h.first_before hlist hb)

theorem fire_right (live : Addr → Bool) (h : Core s [] tv) (hlive : ∀ a, live a = true ↔ a ∈ s.th.timers)
    (htv : 0 ≤ tv.sec ∧ tv.usec < 1000000) {item : Addr} {rest : List Addr} (hlist : s.th.timers = item :: rest)
    (hbefore : (s.node item).expires.before tv) :
    TimerRun.Inv ⟨s.fire item rest, tv, live⟩ ∧ ∀ r : TimerRun, (∀ a ∈ s.th.timers, r.live a = true) →
      (FiresRight tv r ⟨s.fire item rest, tv, live⟩ ↔ NoTie tv s) := by
  have hitem : item ∈ s.th.timers := by
    rw [hlist]
    exact List.mem_cons_self ..
  have husec := h.usec item hitem
  have hself : (s.fire item rest).node item = { s.node item with state := .active } := Function.update_self ..
  have hcore := h.fire hlist
  constructor
  · refine ⟨hcore, fun a ha => ?_, fun a => ?_, htv⟩
    · cases ha
      dsimp only
      rw [hself]
      exact ⟨fun h => (nomatch h), husec, h.lastsec item hitem⟩
    · rw [hlive a, hlist, List.mem_cons, or_comm]
      refine or_congr_right ?_
      constructor
      · rintro rfl
        dsimp only
        rw [hself]
        exact ⟨rfl, fun h => nomatch h⟩
      · rintro ⟨ha, _⟩
        exact (Option.some.inj ha).symm
  · intro r hrlive
    constructor
    · intro hright item' hhead
      rw [hlist] at hhead
      cases hhead
      obtain ⟨_, hpast, _⟩ := hright item rfl
      rw [hself] at hpast
      exact (micros_lt_iff husec htv.2 hbefore).mp hpast
    · intro hfine item' hitem'
      cases hitem'
      dsimp only
      rw [hself]
      refine ⟨hrlive item hitem, ?_, fun b hb => ?_⟩
      · exact (micros_lt_iff husec htv.2 hbefore).mpr (hfine item (by rw [hlist]; rfl))
      · have hne : b ≠ item := by
          rintro rfl
          exact (hcore.held_notMem (List.mem_cons_self ..)).1 hb
        have hother : (s.fire item rest).node b = s.node b := Function.update_of_ne hne ..
        rw [hother]
        exact h.first_least hlist hb

theorem wait_right (live : Addr → Bool) (h : Core s [] tv) (hactive : s.th.activeTimer = none)
    (hlive : ∀ a, live a = true ↔ a ∈ s.th.timers) (htv : 0 ≤ tv.sec ∧ tv.usec < 1000000)
    (hnot : ∀ item ∈ s.th.timers, ¬ (s.node item).expires.before tv) (delay : Timeval) :
    TimerRun.Inv ⟨{ s with th := { s.th with delay := delay } }, tv, live⟩ ∧ ∀ r : TimerRun,
      (FiresRight tv r ⟨{ s with th := { s.th with delay := delay } }, tv, live⟩ ↔ NoTie tv s) := by
  constructor
  · refine ⟨?_, fun a ha => ?_, fun a => ?_, htv⟩
    · dsimp only
      rw [hactive]
      exact { h with }
    · dsimp only at ha
      rw [hactive] at ha
      cases ha
    · dsimp only
      rw [hlive a, hactive]
      simp
  · refine fun r => ⟨fun _ item hhead hfull htie => ?_, fun _ item hitem => ?_⟩
    · -- a tie is past by the fields
      refine hnot item (List.mem_of_mem_head? hhead) ?_
      unfold Timeval.before
      rw [htie]
      dsimp only
      omega
    · dsimp only at hitem
      rw [hactive] at hitem
      cases hitem

theorem check_right (live : Addr → Bool) (h : Core s [] tv) (hactive : s.th.activeTimer = none)
    (hlive : ∀ a, live a = true ↔ a ∈ s.th.timers) (htv : 0 ≤ tv.sec ∧ tv.usec < 1000000) :
    TimerRun.Inv ⟨(checkTimers tv s).2, tv, live⟩ ∧
      ∀ r : TimerRun, (∀ a ∈ s.th.timers, r.live a = true) →
        (FiresRight tv r ⟨(checkTimers tv s).2, tv, live⟩ ↔ NoTie tv s) := by
  obtain ⟨outcome, s', hcheck, ⟨item, rest, hlist, hbefore, rfl⟩ | ⟨hnot, delay, rfl⟩⟩ := checkTimers_spec h
  · rw [hcheck]
    exact fire_right live h hlive htv hlist hbefore
  · rw [hcheck]
    obtain ⟨hinv, hright⟩ := wait_right live h hactive hlive htv hnot delay
    exact ⟨hinv, fun r _ => hright r⟩

theorem check_keeps (h : Core s held tv) : (checkTimers tv s).2.th.freeTimerList = s.th.freeTimerList ∧
    (checkTimers tv s).2.allocated = s.allocated ∧
    ∀ a ∈ s.th.timers, ¬ (s.node a).expires.before tv →
      a ∈ (checkTimers tv s).2.th.timers ∧ (checkTimers tv s).2.node a = s.node a := by
  obtain ⟨outcome, s', hcheck, ⟨item, rest, hlist, hbefore, rfl⟩ | ⟨_, delay, rfl⟩⟩ := checkTimers_spec h
  · rw [hcheck]
    refine ⟨rfl, rfl, fun a ha hnot => ?_⟩
    have hne : a ≠ item := by
      rintro rfl
      exact hnot hbefore
    rw [hlist] at ha
    exact ⟨(List.mem_cons.mp ha).resolve_left hne, Function.update_of_ne hne ..⟩
  · rw [hcheck]
    exact ⟨rfl, rfl, fun a ha _ => ⟨ha, rfl⟩⟩

end

/-! ## Calls -/

section
variable {r : TimerRun} {now : Timeval} {t : Addr}

theorem clock_later (h : r.Inv) (hclock : ClockOk now r) : 0 ≤ now.sec ∧ now.usec < 1000000 := by
  obtain ⟨hnot, husec⟩ := hclock
  have := h.clock
  unfold Timeval.before at hnot
  omega

theorem timerStart_spec {s : Timers} {held : List Addr} {clock : Timeval} (h : Core s held clock)
    (hsec : 0 ≤ clock.sec)
    (husec : now.usec < 1000000) (mS sr ref : Nat) :
    ∃ t s', timerStart_r now mS sr ref s = (t, s') ∧ Core s' held clock ∧ s'.th.activeTimer = s.th.activeTimer ∧
      t ∉ held ∧ (∀ a, a ∈ s'.th.timers ↔ a = t ∨ a ∈ s.th.timers) ∧ ∀ a, a ≠ t → s'.node a = s.node a := by
  obtain ⟨t, s', htake, hcore, htimers, hnode, hactive⟩ := takeNode_spec h
  have hheld := hcore.held_notMem (List.mem_cons_self ..)
  have hset := hcore.setNode (n := ⟨mS, sr, ref, now, 0, (s'.node t).state⟩) fun hmem => absurd hmem hheld.1
  have hself : (s'.setNode t ⟨mS, sr, ref, now, 0, (s'.node t).state⟩).node t =
      ⟨mS, sr, ref, now, 0, (s'.node t).state⟩ := Function.update_self ..
  have hdone := hset.rescedule none (by rw [hself]; exact husec.le) (fun _ h => nomatch h)
    (by rw [hself]; exact hsec)
  refine ⟨t, _, by unfold timerStart_r; rw [htake], hdone, hactive, ?_, fun a => ?_, fun a ha => ?_⟩
  · exact (List.nodup_cons.mp (List.nodup_append.mp hcore.nodup).2.1).1
  · rw [mem_rescedule hset, ← htimers]
    rfl
  · unfold Timers.rescedule Timers.setTimers Timers.setNode
    dsimp only
    rw [Function.update_of_ne ha, Function.update_of_ne ha, hnode]

theorem inv_start (h : r.Inv) (hclock : ClockOk now r) (mS sr ref : Nat) :
    ∃ r', TimerRun.step (some r) (.start now mS sr ref) = some r' ∧ r'.Inv ∧
      r'.timers.th.activeTimer = r.timers.th.activeTimer := by
  obtain ⟨hsec, husec⟩ := clock_later h hclock
  obtain ⟨t, s, hstart, hcore, hactive, hnew, hmem, hnode⟩ :=
    timerStart_spec (h.core.later hclock.1) hsec husec mS sr ref
  have hne : ∀ a, r.timers.th.activeTimer = some a → a ≠ t := by
    rintro a ha rfl
    rw [ha] at hnew
    exact hnew (List.mem_singleton.mpr rfl)
  refine ⟨⟨s, now, Function.update r.live t true⟩, ?_, ⟨?_, fun a ha => ?_, fun a => ?_, clock_later h hclock⟩,
    hactive⟩
  · unfold TimerRun.step
    rw [Option.bind_some]
    dsimp only
    rw [hstart]
  · dsimp only
    rw [hactive]
    exact hcore
  · dsimp only at ha ⊢
    rw [hactive] at ha
    rw [hnode a (hne a ha)]
    obtain ⟨hstate, husec, hlast⟩ := h.active a ha
    have hlater := hclock.1
    unfold Timeval.before at hlater
    exact ⟨hstate, husec, by omega⟩
  · dsimp only
    rw [hactive, hmem]
    by_cases ha : a = t
    · rw [ha, Function.update_self]
      exact ⟨fun _ => Or.inl (Or.inl rfl), fun _ => rfl⟩
    · rw [Function.update_of_ne ha, hnode a ha, h.live a, or_iff_right ha]

theorem Core.stopped {s : Timers} {held : List Addr} {clock : Timeval} (h : Core s held clock)
    (ht : t ∈ s.th.timers) : Core (s.setTimers (s.th.timers.erase t)) (t :: held) clock := by
  have hperm : (s.th.timers.erase t ++ s.th.freeTimerList ++ t :: held).Perm
      (s.th.timers ++ s.th.freeTimerList ++ held) :=
    List.perm_middle.trans (((List.perm_cons_erase ht).symm.append_right _).append_right _)
  have hin : ∀ a ∈ s.th.timers.erase t, a ∈ s.th.timers := fun a ha => List.mem_of_mem_erase ha
  exact { h with
    nodup := hperm.nodup_iff.mpr h.nodup
    allocated := fun a => (h.allocated a).trans hperm.mem_iff.symm
    running := fun a ha => h.running a (hin a ha)
    sorted := h.sorted.sublist List.erase_sublist
    usec := fun a ha => h.usec a (hin a ha)
    lastsec := fun a ha => h.lastsec a (hin a ha) }

theorem release_queue (t : Addr) (s : Timers) : (s.release t).th.timers = s.th.timers ∧
    (s.release t).th.activeTimer = s.th.activeTimer ∧ (s.release t).node = s.node := by
  unfold Timers.release
  split <;> exact ⟨rfl, rfl, rfl⟩

theorem timerStop_cases {s s' : Timers} (hstop : timerStop_r t s = some s') :
    (s.node t).state = .running ∧ t ∈ s.th.timers ∧ s' = (s.setTimers (s.th.timers.erase t)).release t ∨
      (s.node t).state = .running ∧ t ∉ s.th.timers ∧ s' = s ∨
      (s.node t).state ≠ .running ∧ s' = s.setNode t { s.node t with state := .deleted } := by
  unfold timerStop_r at hstop
  split at hstop
  · cases hstop
  · split at hstop
    · next hrunning =>
      split at hstop
      · next hmem => exact Or.inl ⟨hrunning, hmem, (Option.some.inj hstop).symm⟩
      · next hmem => exact Or.inr (Or.inl ⟨hrunning, hmem, (Option.some.inj hstop).symm⟩)
    · next hrunning => exact Or.inr (Or.inr ⟨hrunning, (Option.some.inj hstop).symm⟩)

theorem timerStop_spec {s s' : Timers} {held : List Addr} {clock : Timeval} (h : Core s held clock)
    (hstop : timerStop_r t s = some s') :
    Core s' held clock ∧ s'.th.activeTimer = s.th.activeTimer ∧ t ∉ s'.th.timers ∧
      (∀ a, a ≠ t → (a ∈ s'.th.timers ↔ a ∈ s.th.timers) ∧ s'.node a = s.node a) ∧
      s'.node t = if (s.node t).state = .running then s.node t else { s.node t with state := .deleted } := by
  rcases timerStop_cases hstop with ⟨hrunning, hmem, rfl⟩ | ⟨hrunning, hmem, rfl⟩ | ⟨hrunning, rfl⟩
  · obtain ⟨hqueue, hactive, hnode⟩ := release_queue t (s.setTimers (s.th.timers.erase t))
    have hqueue : ((s.setTimers (s.th.timers.erase t)).release t).th.timers = s.th.timers.erase t := hqueue
    have hnodup : s.th.timers.Nodup := (List.nodup_append.mp (List.nodup_append.mp h.nodup).1).1
    rw [hqueue, hnode, if_pos hrunning]
    exact ⟨(h.stopped hmem).release, hactive, hnodup.not_mem_erase, fun a ha => ⟨List.mem_erase_of_ne ha, rfl⟩, rfl⟩
  · rw [if_pos hrunning]
    exact ⟨h, rfl, hmem, fun _ _ => ⟨Iff.rfl, rfl⟩, rfl⟩
  · have hout : t ∉ s.th.timers := fun hin => hrunning (h.running t hin)
    rw [if_neg hrunning]
    exact ⟨h.setNode fun hin => absurd hin hout, rfl, hout, fun a ha => ⟨Iff.rfl, Function.update_of_ne ha ..⟩,
      Function.update_self ..⟩

theorem inv_stop (h : r.Inv) (ht : r.timers.allocated t = true) :
    ∃ r', TimerRun.step (some r) (.stop t) = some r' ∧ r'.Inv ∧
      r'.timers.th.activeTimer = r.timers.th.activeTimer := by
  obtain ⟨s, hstop⟩ : ∃ s, timerStop_r t r.timers = some s := by
    unfold timerStop_r
    rw [ht, if_neg (by decide)]
    split
    · split <;> exact ⟨_, rfl⟩
    · exact ⟨_, rfl⟩
  obtain ⟨hcore, hactive, hout, hother, hself⟩ := timerStop_spec h.core hstop
  refine ⟨{ r with timers := s, live := Function.update r.live t false }, ?_,
    ⟨?_, fun a ha => ?_, fun a => ?_, h.clock⟩, hactive⟩
  · unfold TimerRun.step
    rw [Option.bind_some]
    dsimp only
    rw [hstop, Option.map_some]
  · dsimp only
    rw [hactive]
    exact hcore
  · dsimp only at ha ⊢
    rw [hactive] at ha
    have hold := h.active a ha
    by_cases hat : a = t
    · subst hat
      rw [hself, if_neg hold.1]
      exact ⟨fun h => (nomatch h), hold.2⟩
    · rw [(hother a hat).2]
      exact hold
  · dsimp only
    rw [hactive]
    by_cases hat : a = t
    · subst hat
      rw [Function.update_self]
      refine ⟨fun h => (nomatch h), fun hlive => ?_⟩
      rcases hlive with hin | ⟨ha, hstate⟩
      · exact absurd hin hout
      · rw [hself, if_neg (h.active a ha).1] at hstate
        exact absurd rfl hstate
    · rw [Function.update_of_ne hat, (hother a hat).1, (hother a hat).2]
      exact h.live a

theorem inv_modify (h : r.Inv) (ht : r.timers.allocated t = true) (mS userRef : Nat) :
    ∃ r', TimerRun.step (some r) (.modify t mS userRef) = some r' ∧ r'.Inv ∧
      r'.timers.th.activeTimer = r.timers.th.activeTimer := by
  have hmodify : timerModify t mS userRef r.timers =
      some (r.timers.setNode t { r.timers.node t with mS := mS, ref := userRef }) := by
    rw [timerModify, ht, if_neg (by decide)]
  have hsame : ∀ a, ((r.timers.setNode t { r.timers.node t with mS := mS, ref := userRef }).node a).state
        = (r.timers.node a).state ∧
      ((r.timers.setNode t { r.timers.node t with mS := mS, ref := userRef }).node a).expires
        = (r.timers.node a).expires ∧
      ((r.timers.setNode t { r.timers.node t with mS := mS, ref := userRef }).node a).lastsec
        = (r.timers.node a).lastsec := by
    intro a
    unfold Timers.setNode
    dsimp only
    by_cases ha : a = t
    · rw [ha, Function.update_self]
      exact ⟨rfl, rfl, rfl⟩
    · rw [Function.update_of_ne ha]
      exact ⟨rfl, rfl, rfl⟩
  refine ⟨{ r with timers := r.timers.setNode t { r.timers.node t with mS := mS, ref := userRef } }, ?_,
    ⟨h.core.setNode fun hin => ⟨rfl, rfl, h.core.lastsec t hin⟩, fun a ha => ?_, fun a => ?_, h.clock⟩, rfl⟩
  · unfold TimerRun.step
    rw [Option.bind_some]
    dsimp only
    rw [hmodify, Option.map_some]
  · dsimp only
    rw [(hsame a).1, (hsame a).2.1, (hsame a).2.2]
    exact h.active a ha
  · dsimp only
    rw [(hsame a).1]
    exact h.live a

theorem right_getDelay (h : r.Inv) (hclock : ClockOk now r) (hactive : r.timers.th.activeTimer = none) :
    ∃ r', TimerRun.step (some r) (.getDelay now) = some r' ∧ r'.Inv ∧
      (FiresRight now r r' ↔ NoTie now r.timers) := by
  have hcore := h.core.later hclock.1
  rw [hactive] at hcore
  have hlive : ∀ a, r.live a = true ↔ a ∈ r.timers.th.timers := by
    intro a
    rw [h.live a, hactive]
    simp
  obtain ⟨hinv, hright⟩ := check_right r.live hcore hactive hlive (clock_later h hclock)
  exact ⟨_, rfl, hinv, hright r fun a ha => (hlive a).mpr ha⟩

theorem nextExpiry_micros (n : TimerInternal) (now : Option Timeval) (husec : n.expires.usec ≤ 1000000) :
    n.expires.micros ≤ (nextExpiry n now).micros := by
  have hperiod := addPeriod_micros n.mS n.expires
  unfold nextExpiry
  cases now with
  | none =>
    dsimp only
    omega
  | some tv =>
    dsimp only
    split <;> rename_i hpast
    · have hagain := addPeriod_micros n.mS tv
      have hle := micros_le (n.expires.addPeriod n.mS) tv (addPeriod_usec n.mS husec)
        (fun hbefore => by unfold Timeval.before at hpast hbefore; omega)
      omega
    · omega

theorem nextExpiry_future (n : TimerInternal) (tv : Timeval) (htv : tv.usec < 1000000) :
    ¬ (nextExpiry n (some tv)).before tv := by
  unfold nextExpiry
  dsimp only
  split <;> rename_i hpast
  · unfold Timeval.addPeriod Timeval.before
    dsimp only
    split
    · dsimp only
      omega
    · dsimp only
      omega
  · exact hpast

def Timers.idle (s : Timers) : Timers := { s with th := { s.th with activeTimer := none } }

def Timers.requeue (item : Addr) (now : Timeval) (s : Timers) : Timers :=
  (s.rescedule item (some now)).setNode item { (s.rescedule item (some now)).node item with lastsec := now.sec }

variable (now) in
theorem handlerReturned_over {s : Timers} {item : Addr} (hactive : s.th.activeTimer = some item) {rc : Int}
    (hover : (s.node item).state = .deleted ∨ rc = 0) :
    (handlerReturned rc now s).2 = (checkTimers now (s.idle.release item)).2 := by
  unfold handlerReturned
  rw [hactive]
  exact congrArg Prod.snd (if_pos hover)

variable (now) in
theorem handlerReturned_again {s : Timers} {item : Addr} (hactive : s.th.activeTimer = some item) {rc : Int}
    (hover : ¬ ((s.node item).state = .deleted ∨ rc = 0)) :
    (handlerReturned rc now s).2 = (checkTimers now (s.idle.requeue item now)).2 := by
  unfold handlerReturned
  rw [hactive]
  exact congrArg Prod.snd (if_neg hover)

theorem core_idle (h : r.Inv) (hclock : ClockOk now r) {item : Addr}
    (hactive : r.timers.th.activeTimer = some item) : Core r.timers.idle [item] now := by
  have hcore := h.core.later hclock.1
  rw [hactive] at hcore
  exact { hcore with }

theorem release_place {s : Timers} {t : Addr} :
    t ∈ (s.release t).th.freeTimerList ∨ (s.release t).allocated t = false := by
  unfold Timers.release
  split
  · exact Or.inl (List.mem_cons_self ..)
  · exact Or.inr (Function.update_self ..)

theorem ne_of_not_before {expires : Timeval} (hbefore : ¬ expires.before now) : now ≠ ⟨expires.sec + 1, 0⟩ := by
  rintro rfl
  refine hbefore ?_
  unfold Timeval.before
  dsimp only
  omega

theorem noTie_rescedule {s : Timers} {held : List Addr} {clock : Timeval} {item : Addr}
    (h : Core s (item :: held) clock) (hnow : now.usec < 1000000) :
    NoTie now (s.rescedule item (some now)) ↔ NoTie now s := by
  have hfuture := nextExpiry_future (s.node item) now hnow
  obtain ⟨before, after, hinsert, hsplit, _, hafter⟩ :=
    insertTimer_spec item (nextExpiry (s.node item) (some now)) h.sorted
  have htimers : (s.rescedule item (some now)).th.timers = before ++ item :: after := hinsert
  have hself : (s.rescedule item (some now)).node item =
      { s.node item with expires := nextExpiry (s.node item) (some now), state := .running } :=
        Function.update_self ..
  have hother : ∀ a ∈ s.th.timers, (s.rescedule item (some now)).node a = s.node a := by
    intro a ha
    refine Function.update_of_ne ?_ ..
    rintro rfl
    exact (h.held_notMem (List.mem_cons_self ..)).1 ha
  unfold NoTie
  rw [htimers, ← hsplit]
  cases before with
  | nil =>
    refine ⟨fun _ b hb _ => ne_of_not_before fun hpast => ?_, fun _ a ha _ => ne_of_not_before fun hpast => ?_⟩
    · have hlater := hafter b (List.mem_of_mem_head? hb)
      unfold Timeval.before at hfuture hlater hpast
      omega
    · cases ha
      rw [hself] at hpast
      exact hfuture hpast
  | cons x before =>
    have hx : (s.rescedule item (some now)).node x = s.node x := by
      refine hother x ?_
      rw [← hsplit]
      exact List.mem_cons_self ..
    constructor
    · rintro hfine _ ⟨⟩
      have := hfine x rfl
      rwa [hx] at this
    · rintro hfine _ ⟨⟩
      rw [hx]
      exact hfine x rfl

theorem core_requeue {s : Timers} {item : Addr} (h : Core s [item] now)
    (husec : (s.node item).expires.usec ≤ 1000000) (hnow : now.usec < 1000000)
    (hlast : (s.node item).lastsec ≤ now.sec) : Core (s.requeue item now) [] now :=
  (h.rescedule (some now) husec (fun _ htv => by cases htv; exact hnow) hlast).setNode
    fun _ => ⟨rfl, rfl, Int.le_refl _⟩

theorem requeue_node (s : Timers) (item : Addr) (now : Timeval) :
    ((s.requeue item now).node item).expires = nextExpiry (s.node item) (some now) := by
  unfold Timers.requeue Timers.setNode
  dsimp only
  rw [Function.update_self]
  unfold Timers.rescedule Timers.setTimers Timers.setNode
  dsimp only
  rw [Function.update_self]

theorem noTie_requeue {s : Timers} {item : Addr} (h : Core s [item] now) (hnow : now.usec < 1000000) :
    NoTie now (s.requeue item now) ↔ NoTie now s := by
  refine Iff.trans ?_ (noTie_rescedule h hnow)
  have hsame : ∀ a, ((s.requeue item now).node a).expires = ((s.rescedule item (some now)).node a).expires := by
    intro a
    unfold Timers.requeue Timers.setNode
    dsimp only
    by_cases ha : a = item
    · rw [ha, Function.update_self]
    · rw [Function.update_of_ne ha]
  unfold NoTie
  simp only [hsame]
  exact Iff.rfl

theorem live_item (h : r.Inv) {item : Addr} (hactive : r.timers.th.activeTimer = some item) :
    r.live item = true ↔ (r.timers.node item).state ≠ .deleted := by
  have hcore := h.core
  rw [hactive] at hcore
  have hitem := (hcore.held_notMem (List.mem_cons_self ..)).1
  rw [h.live item, hactive]
  exact ⟨fun hlive => (hlive.resolve_left hitem).2, fun hstate => Or.inr ⟨rfl, hstate⟩⟩

theorem live_other (h : r.Inv) {item : Addr} (hactive : r.timers.th.activeTimer = some item) {a : Addr}
    (ha : a ≠ item) : r.live a = true ↔ a ∈ r.timers.th.timers := by
  rw [h.live a, hactive]
  exact or_iff_left fun hitem => ha (Option.some.inj hitem.1).symm

theorem right_handlerReturns_over (h : r.Inv) (hclock : ClockOk now r) {item : Addr}
    (hactive : r.timers.th.activeTimer = some item) {rc : Int}
    (hover : (r.timers.node item).state = .deleted ∨ rc = 0) :
    ∃ r', TimerRun.step (some r) (.handlerReturns rc now) = some r' ∧ r'.Inv ∧ EndsRight rc r r' ∧
      (FiresRight now r r' ↔ NoTie now r.timers) := by
  have hcore := core_idle h hclock hactive
  have hitem := (hcore.held_notMem (List.mem_cons_self ..)).1
  have hlive : ∀ a ∈ r.timers.th.timers, r.live a = true := fun a ha => (h.live a).mpr (Or.inl ha)
  have hdone := handlerReturned_over now hactive hover
  obtain ⟨hqueue, hnone, hnode⟩ := release_queue item r.timers.idle
  have hafter : ∀ a, r.liveAfter rc a = true ↔ a ∈ r.timers.th.timers := by
    intro a
    unfold TimerRun.liveAfter
    rw [hactive]
    dsimp only
    by_cases ha : a = item
    · rw [ha]
      refine ⟨fun hlive => ?_, fun hin => absurd hin hitem⟩
      split at hlive <;> rename_i hrc
      · rw [Function.update_self] at hlive
        cases hlive
      · exact absurd (hover.resolve_right hrc) ((live_item h hactive).mp hlive)
    · split
      · rw [Function.update_of_ne ha]
        exact live_other h hactive ha
      · exact live_other h hactive ha
  obtain ⟨hinv, hright⟩ := check_right (r.liveAfter rc) hcore.release (hnone.trans rfl)
    (by rw [hqueue]; exact hafter) (clock_later h hclock)
  obtain ⟨hfree, hallocated, _⟩ := check_keeps hcore.release
  refine ⟨⟨(handlerReturned rc now r.timers).2, now, r.liveAfter rc⟩, rfl, ?_, ?_, ?_⟩
  · rw [hdone]
    exact hinv
  · intro item' hitem'
    rw [hactive] at hitem'
    cases hitem'
    have hnot : ¬ (rc ≠ 0 ∧ r.live item = true) := by
      rintro ⟨hrc, hlive⟩
      exact hover.elim ((live_item h hactive).mp hlive) hrc
    rw [if_neg hnot]
    dsimp only
    rw [hdone, hfree, hallocated]
    exact release_place
  · rw [hdone, hright r (by rw [hqueue]; exact hlive)]
    unfold NoTie
    rw [hqueue, hnode]
    exact Iff.rfl

theorem right_handlerReturns_again (h : r.Inv) (hclock : ClockOk now r) {item : Addr}
    (hactive : r.timers.th.activeTimer = some item) {rc : Int}
    (hover : ¬ ((r.timers.node item).state = .deleted ∨ rc = 0)) :
    ∃ r', TimerRun.step (some r) (.handlerReturns rc now) = some r' ∧ r'.Inv ∧ EndsRight rc r r' ∧
      (FiresRight now r r' ↔ NoTie now r.timers) := by
  have hcore := core_idle h hclock hactive
  have hclock' := clock_later h hclock
  obtain ⟨hstate, hrc⟩ := not_or.mp hover
  have hafter : r.liveAfter rc = r.live := by
    unfold TimerRun.liveAfter
    rw [hactive]
    exact if_neg hrc
  obtain ⟨_, husec, hlast⟩ := h.active item hactive
  have hlast : (r.timers.node item).lastsec ≤ now.sec := by
    have hlater := hclock.1
    unfold Timeval.before at hlater
    omega
  have hdone := handlerReturned_again now hactive hover
  have hrequeue := core_requeue hcore husec hclock'.2 hlast
  have hin : ∀ a, a ∈ (r.timers.idle.requeue item now).th.timers ↔ a = item ∨ a ∈ r.timers.th.timers :=
    mem_rescedule hcore item (some now)
  have hall : ∀ a, r.live a = true ↔ a ∈ (r.timers.idle.requeue item now).th.timers := by
    intro a
    rw [hin]
    by_cases ha : a = item
    · rw [ha]
      exact ⟨fun _ => Or.inl rfl, fun _ => (live_item h hactive).mpr hstate⟩
    · rw [or_iff_right ha]
      exact live_other h hactive ha
  obtain ⟨hinv, hright⟩ := check_right (r.liveAfter rc) hrequeue rfl (by rw [hafter]; exact hall) hclock'
  obtain ⟨_, _, hkeeps⟩ := check_keeps hrequeue
  refine ⟨⟨(handlerReturned rc now r.timers).2, now, r.liveAfter rc⟩, rfl, ?_, ?_, ?_⟩
  · rw [hdone]
    exact hinv
  · intro item' hitem'
    rw [hactive] at hitem'
    cases hitem'
    rw [if_pos ⟨hrc, (live_item h hactive).mpr hstate⟩]
    dsimp only
    rw [hdone]
    obtain ⟨hqueued, hsame⟩ := hkeeps item ((hin item).mpr (Or.inl rfl)) (by
      rw [requeue_node]
      exact nextExpiry_future _ now hclock'.2)
    rw [hsame, requeue_node]
    exact ⟨hqueued, nextExpiry_micros _ _ husec⟩
  · rw [hdone, hright r fun a ha => (hall a).mpr ha, noTie_requeue hcore hclock'.2]
    exact Iff.rfl

theorem right_handlerReturns (h : r.Inv) (hclock : ClockOk now r) {item : Addr}
    (hactive : r.timers.th.activeTimer = some item) (rc : Int) :
    ∃ r', TimerRun.step (some r) (.handlerReturns rc now) = some r' ∧ r'.Inv ∧ EndsRight rc r r' ∧
      (FiresRight now r r' ↔ NoTie now r.timers) := by
  by_cases hover : (r.timers.node item).state = .deleted ∨ rc = 0
  · exact right_handlerReturns_over h hclock hactive hover
  · exact right_handlerReturns_again h hclock hactive hover

theorem stop_freed (ht : r.timers.allocated t = false) : TimerRun.step (some r) (.stop t) = none := by
  have hnone : timerStop_r t r.timers = none := by
    rw [timerStop_r, ht]
    rfl
  unfold TimerRun.step
  rw [Option.bind_some]
  dsimp only
  rw [hnone, Option.map_none]

theorem modify_freed (ht : r.timers.allocated t = false) (mS userRef : Nat) :
    TimerRun.step (some r) (.modify t mS userRef) = none := by
  have hnone : timerModify t mS userRef r.timers = none := by
    rw [timerModify, ht]
    rfl
  unfold TimerRun.step
  rw [Option.bind_some]
  dsimp only
  rw [hnone, Option.map_none]

theorem not_right_of_none {call : Call} (h : TimerRun.step (some r) call = none) : ¬ call.Right (some r) := by
  intro hright
  obtain ⟨r', hstep, _⟩ := hright r rfl
  rw [h] at hstep
  cases hstep

/-- A legal call is right where it is fine, and then the invariant is kept. -/
theorem right_of_callFine {call : Call} (h : r.Inv) (hlegal : call.Legal (some r)) (hfine : call.Fine (some r)) :
    call.Right (some r) ∧ ∃ r', TimerRun.step (some r) call = some r' ∧ r'.Inv := by
  have hlegal := hlegal r rfl
  have hfine := hfine r rfl
  cases call with
  | start now mS sr ref =>
    obtain ⟨r', hstep, hinv, hsame⟩ := inv_start h hlegal mS sr ref
    refine ⟨?_, r', hstep, hinv⟩
    rintro _ ⟨⟩
    exact ⟨r', hstep, hinv.tidy, hsame⟩
  | stop t =>
    obtain ⟨r', hstep, hinv, hsame⟩ := inv_stop h hfine
    refine ⟨?_, r', hstep, hinv⟩
    rintro _ ⟨⟩
    exact ⟨r', hstep, hinv.tidy, hsame⟩
  | modify t mS userRef =>
    obtain ⟨r', hstep, hinv, hsame⟩ := inv_modify h hfine mS userRef
    refine ⟨?_, r', hstep, hinv⟩
    rintro _ ⟨⟩
    exact ⟨r', hstep, hinv.tidy, hsame⟩
  | getDelay now =>
    obtain ⟨r', hstep, hinv, hfires⟩ := right_getDelay h hlegal.1 hlegal.2
    refine ⟨?_, r', hstep, hinv⟩
    rintro _ ⟨⟩
    exact ⟨r', hstep, hinv.tidy, hfires.mpr hfine⟩
  | handlerReturns rc now =>
    obtain ⟨item, hactive⟩ := Option.ne_none_iff_exists'.mp hlegal.2
    obtain ⟨r', hstep, hinv, hends, hfires⟩ := right_handlerReturns h hlegal.1 hactive rc
    refine ⟨?_, r', hstep, hinv⟩
    rintro _ ⟨⟩
    exact ⟨r', hstep, hinv.tidy, hfires.mpr hfine, hends⟩

theorem callFine_of_right {call : Call} (h : r.Inv) (hlegal : call.Legal (some r)) (hright : call.Right (some r)) :
    call.Fine (some r) := by
  have hlegal := hlegal r rfl
  rintro _ ⟨⟩
  cases call with
  | start now mS sr ref => trivial
  | stop t =>
    by_contra hfreed
    exact not_right_of_none (stop_freed (Bool.eq_false_iff.mpr hfreed)) hright
  | modify t mS userRef =>
    by_contra hfreed
    exact not_right_of_none (modify_freed (Bool.eq_false_iff.mpr hfreed) mS userRef) hright
  | getDelay now =>
    obtain ⟨r', hstep, _, hfires⟩ := right_getDelay h hlegal.1 hlegal.2
    obtain ⟨r'', hstep', _, hright⟩ := hright r rfl
    rw [hstep] at hstep'
    cases hstep'
    exact hfires.mp hright
  | handlerReturns rc now =>
    obtain ⟨item, hactive⟩ := Option.ne_none_iff_exists'.mp hlegal.2
    obtain ⟨r', hstep, _, _, hfires⟩ := right_handlerReturns h hlegal.1 hactive rc
    obtain ⟨r'', hstep', _, hright, _⟩ := hright r rfl
    rw [hstep] at hstep'
    cases hstep'
    exact hfires.mp hright

end

theorem inv_initialTimers : TimerRun.initial.Inv where
  core :=
    { nodup := List.nodup_nil
      allocated := fun _ => ⟨fun h => (nomatch h), fun h => nomatch h⟩
      fresh := fun _ h => nomatch h
      count := rfl
      few := Nat.zero_le 4
      running := fun _ h => nomatch h
      sorted := List.Pairwise.nil
      usec := fun _ h => nomatch h
      lastsec := fun _ h => nomatch h }
  active _ h := nomatch h
  live a := ⟨fun h => (nomatch h), fun h => h.elim (fun h => nomatch h) fun h => nomatch h.1⟩
  clock := ⟨Int.le_refl 0, by decide⟩

/-- Every call of a legal run goes as it should exactly where every call is fine. -/
theorem timers_right_iff (calls : List Call)
    (hlegal : Along TimerRun.step Call.Legal (some TimerRun.initial) calls) :
    Along TimerRun.step Call.Right (some TimerRun.initial) calls ↔
      Along TimerRun.step Call.Fine (some TimerRun.initial) calls := by
  constructor
  · intro hright
    refine along_of_along (J := fun o => ∃ r, o = some r ∧ r.Inv) ?_ ⟨_, rfl, inv_initialTimers⟩ (hlegal.and hright)
    rintro _ call ⟨r, rfl, h⟩ ⟨hlegal, hright⟩
    have hfine := callFine_of_right h hlegal hright
    obtain ⟨_, r', hstep, hinv⟩ := right_of_callFine h hlegal hfine
    exact ⟨hfine, r', hstep, hinv⟩
  · intro hfine
    refine along_of_along (J := fun o => ∃ r, o = some r ∧ r.Inv) ?_ ⟨_, rfl, inv_initialTimers⟩ (hlegal.and hfine)
    rintro _ call ⟨r, rfl, h⟩ ⟨hlegal, hfine⟩
    obtain ⟨hright, r', hstep, hinv⟩ := right_of_callFine h hlegal hfine
    exact ⟨hright, r', hstep, hinv⟩

def periodic : List Call :=
  [.start ⟨10, 400000⟩ 500 0 0, .start ⟨10, 400000⟩ 900 0 1, .getDelay ⟨10, 900001⟩, .stop 1,
    .handlerReturns 1 ⟨10, 900002⟩, .getDelay ⟨11, 400001⟩, .stop 0, .handlerReturns 1 ⟨11, 400002⟩, .stop 0]

theorem timers_right_iff_periodic : Along TimerRun.step Call.Right (some TimerRun.initial) periodic := by
  refine (timers_right_iff _ ?_).mpr ?_
  · decide +kernel
  · decide +kernel

/-- Five timers are started and stopped. The memory of the last one is freed. -/
def fiveStopped : List Call :=
  [.start ⟨1, 0⟩ 1 0 0, .start ⟨1, 0⟩ 1 0 0, .start ⟨1, 0⟩ 1 0 0, .start ⟨1, 0⟩ 1 0 0, .start ⟨1, 0⟩ 1 0 0,
    .stop 0, .stop 1, .stop 2, .stop 3, .stop 4]

theorem not_timers_right : ¬ ∀ calls : List Call,
    Along TimerRun.step Call.Legal (some TimerRun.initial) calls →
    Along TimerRun.step Call.Right (some TimerRun.initial) calls := by
  intro h
  have hlegal : Along TimerRun.step Call.Legal (some TimerRun.initial) (fiveStopped ++ [.stop 4]) := by
    decide +kernel
  have hsome : (fiveStopped.foldl TimerRun.step (some TimerRun.initial)).isSome = true := by
    decide +kernel
  have hnone : (TimerRun.step (fiveStopped.foldl TimerRun.step (some TimerRun.initial)) (.stop 4)).isNone =
    true := by
    decide +kernel
  obtain ⟨r, hr⟩ := Option.isSome_iff_exists.mp hsome
  obtain ⟨hlast, _⟩ := (along_append.mp (h _ hlegal)).2
  obtain ⟨r', hstep, _⟩ := hlast r hr
  rw [hr, hstep] at hnone
  cases hnone

end ComSA.Ac
