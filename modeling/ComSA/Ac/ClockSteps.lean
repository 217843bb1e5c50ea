import ComSA.Ac.TimerRuns
import Mathlib.Algebra.Group.Int.Defs

/-!
# Timers when the clock is set back

A reading of the clock may come before the one before it. `timerGetDelay_r` notices that by the second in which
the first timer of the queue was queued after it ran, and puts this timer into the queue again.
-/

namespace ComSA.Ac

open Timers

/-! ## Readings that go back -/

/-- The timers, the last reading of the clock, for each timer the earliest time the clock was set back to since the
timer was started or run, and whether the clock was set back since a call returned a delay. -/
structure ClockRun where
  timers : Timers
  clock : Timeval
  since : Addr → Option Timeval
  stepped : Bool

def earliest (now : Timeval) : Option Timeval → Timeval
  | none => now
  | some T => if T.before now then T else now

/-- The loop goes on with these timers when the handler of the active one has returned. -/
def goesOn (rc : Int) (now : Timeval) (s : Timers) : Timers :=
  match s.th.activeTimer with
  | none => s
  | some item => if (s.node item).state = .deleted ∨ rc = 0 then s.idle.release item else s.idle.requeue item now

def pollTimeout (delay : Timeval) : Int :=
  if delay.sec > 0x7fffffff / 2 ^ 10 then 0x7ffff300 else delay.sec * 1000 + (delay.usec / 1000 : Nat)

namespace ClockRun

def initial : ClockRun := ⟨Timers.initial, ⟨0, 0⟩, fun _ => none, false⟩

def read (now : Timeval) (r : ClockRun) : ClockRun :=
  if now.before r.clock then
    { r with clock := now, since := fun a => some (earliest now (r.since a)), stepped := true }
  else { r with clock := now }

def start (now : Timeval) (mS sr ref : Nat) (r : ClockRun) : ClockRun :=
  let (t, timers) := timerStart_r now mS sr ref r.timers
  { r.read now with timers := timers, since := Function.update (r.read now).since t none }

def handlerReturns (rc : Int) (now : Timeval) (r : ClockRun) : ClockRun :=
  { r.read now with timers := goesOn rc now r.timers }

def check (now : Timeval) (r : ClockRun) : ClockRun :=
  match checkTimers now r.timers with
  | (.handler item, timers) => { r with timers := timers, since := Function.update r.since item none }
  | (.delay _, timers) => { r with timers := timers, stepped := false }

end ClockRun

/-- The runs whose readings are allowed. With a reading, the loop of `timerGetDelay_r` is about to look at the
queue. -/
inductive ClockSteps (allowed : Timeval → ClockRun → Prop) : Option Timeval → ClockRun → Prop
  | initial : ClockSteps allowed none ClockRun.initial
  | start {r : ClockRun} {now : Timeval} (h : ClockSteps allowed none r) (husec : now.usec < 1000000)
    (mS sr ref : Nat) :
      ClockSteps allowed none (r.start now mS sr ref)
  | stop {r : ClockRun} {t : Addr} {s : Timers} (h : ClockSteps allowed none r)
    (hstop : timerStop_r t r.timers = some s) :
      ClockSteps allowed none { r with timers := s }
  | getDelay {r : ClockRun} {now : Timeval} (h : ClockSteps allowed none r) (husec : now.usec < 1000000)
      (hactive : r.timers.th.activeTimer = none) : ClockSteps allowed (some now) (r.read now)
  | handlerReturns {r : ClockRun} {now : Timeval} (h : ClockSteps allowed none r) (husec : now.usec < 1000000)
    (rc : Int)
      (hactive : r.timers.th.activeTimer ≠ none) : ClockSteps allowed (some now) (r.handlerReturns rc now)
  | check {r : ClockRun} {now : Timeval} (h : ClockSteps allowed (some now) r) (hallowed : allowed now r) :
      ClockSteps allowed none (r.check now)

/-- The end of the period of a timer, after a time, and a second more. -/
def lastTime (s : Timers) (t : Addr) (T : Timeval) : Int := T.micros + (s.node t).mS * 1000 + 1000000

/-- A delay that is returned is the time until the first timer expires, and no call returns while a timer is due by
the time that the clock was set back to. -/
structure ClockRight (now : Timeval) (r : ClockRun) : Prop where
  delay : ∀ delay, (checkTimers now r.timers).1 = .delay (some delay) →
    0 ≤ delay.sec ∧ 0 ≤ pollTimeout delay ∧ ∃ item ∈ (checkTimers now r.timers).2.th.timers,
      delay.micros = ((checkTimers now r.timers).2.node item).expires.micros - now.micros ∧
      ∀ a ∈ (checkTimers now r.timers).2.th.timers, ((checkTimers now r.timers).2.node item).expires.micros ≤
        ((checkTimers now r.timers).2.node a).expires.micros
  overdue : ∀ t ∈ r.timers.th.timers, ∀ T, r.since t = some T → lastTime r.timers t T < now.micros →
    ∃ item, (checkTimers now r.timers).1 = .handler item ∧
      (t = item ∨ t ∈ (checkTimers now r.timers).2.th.timers)

/-- The timer is the first one, is not due, and was queued in a later second. -/
def Moves (now : Timeval) (s : Timers) (t : Addr) : Prop :=
  s.th.timers.head? = some t ∧ ¬ (s.node t).expires.before now ∧ now.sec < (s.node t).lastsec

/-- A timer that is put into the queue again is not put before the reading, nor later than a second after the time
that the clock was set back to and its period; and where it was set back, no other timer expires later than that. -/
structure Fine (now : Timeval) (r : ClockRun) : Prop where
  ahead : ∀ t, Moves now r.timers t → now.usec ≤ (r.timers.node t).expires.usec + (r.timers.node t).mS * 1000
  once : ∀ t, Moves now r.timers t → ∀ T, r.since t = some T →
    now.sec * 1000000 + (r.timers.node t).expires.usec ≤ T.micros + 1000000
  close : r.stepped = true → (∀ first, r.timers.th.timers.head? = some first →
    ¬ (r.timers.node first).expires.before now) →
    ∀ t ∈ r.timers.th.timers, ¬ Moves now r.timers t → ∀ T, r.since t = some T →
      (r.timers.node t).expires.micros ≤ lastTime r.timers t T

/-! ## The first timer is put into the queue again -/

def moveFirst (now : Timeval) (s : Timers) : Timers :=
  match s.th.timers with
  | [] => s
  | item :: rest =>
    if (s.node item).lastsec > now.sec then
      ((s.setTimers rest).setNode item { s.node item with
        state := .active, expires := { (s.node item).expires with sec := now.sec } }).rescedule item none
    else s

theorem checkTimers_cases (now : Timeval) (s : Timers) :
    (∃ item rest, s.th.timers = item :: rest ∧ (s.node item).expires.before now ∧
      checkTimers now s = (.handler item, s.fire item rest)) ∨
    (∀ first, s.th.timers.head? = some first → ¬ (s.node first).expires.before now) ∧
      checkTimers now s = computeDelay now (moveFirst now s) := by
  unfold checkTimers moveFirst
  cases hlist : s.th.timers with
  | nil => exact Or.inr ⟨fun _ hfirst => (nomatch hfirst), rfl⟩
  | cons item rest =>
    dsimp only
    by_cases hbefore : (s.node item).expires.before now
    · rw [if_pos hbefore]
      exact Or.inl ⟨item, rest, rfl, hbefore, rfl⟩
    · rw [if_neg hbefore]
      refine Or.inr ⟨fun first hfirst => ?_, ?_⟩
      · cases hfirst
        exact hbefore
      · split <;> rfl

/-- Only the expiry of a timer that is put into the queue again is new. -/
structure FirstMoved (now : Timeval) (s s' : Timers) : Prop where
  active : s'.th.activeTimer = s.th.activeTimer
  queue : ∀ a, a ∈ s'.th.timers ↔ a ∈ s.th.timers
  moved : ∀ t, Moves now s t → (s'.node t).expires = Timeval.addPeriod (s.node t).mS
    ⟨now.sec, (s.node t).expires.usec⟩
  same : ∀ t ∈ s.th.timers, ¬ Moves now s t → (s'.node t).expires = (s.node t).expires
  period : ∀ t, (s'.node t).mS = (s.node t).mS
  other : ∀ t, t ∉ s.th.timers → s'.node t = s.node t

theorem moveFirst_spec {s : Timers} {held : List Addr} {latest now : Timeval} (h : Core s held latest)
    (hfirst : ∀ first, s.th.timers.head? = some first → ¬ (s.node first).expires.before now) :
    Core (moveFirst now s) held latest ∧ FirstMoved now s (moveFirst now s) := by
  unfold moveFirst
  cases hlist : s.th.timers with
  | nil =>
    have hnot : ∀ t, ¬ Moves now s t := fun t ht => by
      have hhead := ht.1
      rw [hlist] at hhead
      cases hhead
    exact ⟨h, rfl, fun _ => Iff.rfl, fun t ht => absurd ht (hnot t), fun _ _ _ => rfl, fun _ => rfl, fun _ _ => rfl⟩
  | cons item rest =>
    have hitem : item ∈ s.th.timers := by
      rw [hlist]
      exact List.mem_cons_self
    have hhead : s.th.timers.head? = some item := by
      rw [hlist]
      rfl
    dsimp only
    split
    · next hlast =>
      have husec := h.usec item hitem
      have hmoves : Moves now s item := ⟨hhead, hfirst item hhead, hlast⟩
      have hitself : ∀ t, Moves now s t → t = item := fun t ht => (Option.some.inj (hhead.symm.trans ht.1)).symm
      obtain ⟨n, hn⟩ : ∃ n, n = { s.node item with
        state := TimerState.active, expires := { (s.node item).expires with sec := now.sec } } := ⟨_, rfl⟩
      rw [← hn]
      have htaken := h.take hlist n
      have hself : ((s.setTimers rest).setNode item n).node item = n := Function.update_self ..
      have hmoved : (((s.setTimers rest).setNode item n).rescedule item none).node item =
          { n with expires := n.expires.addPeriod n.mS, state := .running } := by
        unfold Timers.rescedule nextExpiry
        rw [hself]
        exact Function.update_self ..
      have hother : ∀ t, t ≠ item → (((s.setTimers rest).setNode item n).rescedule item none).node t = s.node t :=
        fun t ht => (Function.update_of_ne ht ..).trans (Function.update_of_ne ht ..)
      refine ⟨htaken.rescedule none ?_ (fun _ hnone => nomatch hnone) ?_, rfl, fun a => ?_, fun t ht => ?_,
        fun t _ ht => ?_, fun t => ?_, fun t ht => ?_⟩
      · rw [hself, hn]
        exact husec
      · rw [hself, hn]
        exact h.lastsec item hitem
      · rw [mem_rescedule htaken, hlist]
        exact List.mem_cons.symm
      · rw [hitself t ht, hmoved, hn]
      · rw [hother t fun hsame => ht (hsame ▸ hmoves)]
      · by_cases ht : t = item
        · rw [ht, hmoved, hn]
        · rw [hother t ht]
      · refine hother t ?_
        rintro rfl
        exact ht hitem
    · next hlast =>
      have hnot : ∀ t, ¬ Moves now s t := fun t ht => by
        have hsame : item = t := Option.some.inj (hhead.symm.trans ht.1)
        rw [← hsame] at ht
        exact hlast ht.2.2
      exact ⟨h, rfl, fun _ => Iff.rfl, fun t ht => absurd ht (hnot t), fun _ _ _ => rfl, fun _ => rfl,
        fun _ _ => rfl⟩

/-! ## The invariant -/

/-- Up to the latest reading the handle is in order; the clock was set back behind the active timer only since a call
returned; and no timer that it was set back behind then expires too late. -/
structure StepInvariant (phase : Option Timeval) (r : ClockRun) : Prop where
  core : ∃ latest, Core r.timers r.timers.th.activeTimer.toList latest ∧ 0 ≤ latest.sec ∧
    ∀ a, r.timers.th.activeTimer = some a → (r.timers.node a).lastsec ≤ latest.sec
  active : ∀ a, r.timers.th.activeTimer = some a →
    (r.timers.node a).state ≠ .running ∧ (r.timers.node a).expires.usec ≤ 1000000 ∧
    (r.since a ≠ none → r.stepped = true)
  close : r.stepped = false → ∀ t ∈ r.timers.th.timers, ∀ T, r.since t = some T →
    (r.timers.node t).expires.micros ≤ lastTime r.timers t T
  phase : ∀ now ∈ phase, now.usec < 1000000 ∧ r.timers.th.activeTimer = none

section

variable {r : ClockRun} {now : Timeval} {phase : Option Timeval}

theorem read_timers (now : Timeval) (r : ClockRun) : (r.read now).timers = r.timers := by
  unfold ClockRun.read
  split <;> rfl

theorem read_since (h : (r.read now).stepped = false) : r.stepped = false ∧ (r.read now).since = r.since := by
  unfold ClockRun.read at h ⊢
  split at h
  · cases h
  · next hback =>
    rw [if_neg hback]
    exact ⟨h, rfl⟩

theorem StepInvariant.read (h : StepInvariant none r) (husec : now.usec < 1000000)
    (hactive : r.timers.th.activeTimer = none) : StepInvariant (some now) (r.read now) := by
  refine ⟨?_, fun a ha => ?_, fun hstepped t ht T hT => ?_, fun _ hphase => ?_⟩
  · rw [read_timers]
    exact h.core
  · rw [read_timers, hactive] at ha
    cases ha
  · obtain ⟨hold, hsince⟩ := read_since hstepped
    rw [read_timers] at ht ⊢
    rw [hsince] at hT
    exact h.close hold t ht T hT
  · cases hphase
    rw [read_timers]
    exact ⟨husec, hactive⟩

theorem StepInvariant.start (h : StepInvariant none r) (husec : now.usec < 1000000) (mS sr ref : Nat) :
    StepInvariant none (r.start now mS sr ref) := by
  obtain ⟨latest, hcore, hsec, hlast⟩ := h.core
  obtain ⟨t, s, hstart, hcore', hactive, hnew, hmem, hnode⟩ := timerStart_spec hcore hsec husec mS sr ref
  have hne : ∀ a, r.timers.th.activeTimer = some a → a ≠ t := by
    rintro a ha rfl
    rw [ha] at hnew
    exact hnew (List.mem_singleton.mpr rfl)
  unfold ClockRun.start
  rw [hstart]
  dsimp only
  refine ⟨⟨latest, ?_, hsec, fun a ha => ?_⟩, fun a ha => ?_, fun hstepped a ha T hT => ?_,
    fun _ hphase => (nomatch hphase)⟩
  · dsimp only
    rw [hactive]
    exact hcore'
  · dsimp only at ha ⊢
    rw [hactive] at ha
    rw [hnode a (hne a ha)]
    exact hlast a ha
  · dsimp only at ha ⊢
    rw [hactive] at ha
    rw [hnode a (hne a ha), Function.update_of_ne (hne a ha)]
    obtain ⟨hstate, hexpires, hsince⟩ := h.active a ha
    refine ⟨hstate, hexpires, fun hsome => ?_⟩
    by_contra hstepped
    obtain ⟨hold, hsame⟩ := read_since (Bool.not_eq_true _ ▸ hstepped)
    rw [hsame] at hsome
    exact Bool.false_ne_true (hold.symm.trans (hsince hsome))
  · dsimp only at hstepped ha hT ⊢
    by_cases hat : a = t
    · rw [hat, Function.update_self] at hT
      cases hT
    · rw [Function.update_of_ne hat] at hT
      obtain ⟨hold, hsame⟩ := read_since hstepped
      rw [hsame] at hT
      have hclose := h.close hold a (((hmem a).mp ha).resolve_left hat) T hT
      unfold lastTime at hclose ⊢
      rw [hnode a hat]
      exact hclose

theorem StepInvariant.stop (h : StepInvariant none r) {t : Addr} {s : Timers}
    (hstop : timerStop_r t r.timers = some s) :
    StepInvariant none { r with timers := s } := by
  obtain ⟨latest, hcore, hsec, hlast⟩ := h.core
  obtain ⟨hcore', hactive, hout, hother, hself⟩ := timerStop_spec hcore hstop
  have hheld : ∀ a, s.node a = r.timers.node a ∨ s.node a = { r.timers.node a with state := .deleted } := by
    intro a
    by_cases hat : a = t
    · rw [hat, hself]
      split
      · exact Or.inl rfl
      · exact Or.inr rfl
    · exact Or.inl (hother a hat).2
  refine ⟨⟨latest, ?_, hsec, fun a ha => ?_⟩, fun a ha => ?_, fun hstepped a ha T hT => ?_,
    fun _ hphase => (nomatch hphase)⟩
  · dsimp only
    rw [hactive]
    exact hcore'
  · dsimp only at ha ⊢
    rw [hactive] at ha
    rcases hheld a with hsame | hsame <;> rw [hsame] <;> exact hlast a ha
  · dsimp only at ha ⊢
    rw [hactive] at ha
    obtain ⟨hstate, hexpires, hsince⟩ := h.active a ha
    rcases hheld a with hsame | hsame
    · rw [hsame]
      exact ⟨hstate, hexpires, hsince⟩
    · rw [hsame]
      exact ⟨fun hrunning => (nomatch hrunning), hexpires, hsince⟩
  · dsimp only at hstepped ha hT ⊢
    have hat : a ≠ t := by
      rintro rfl
      exact hout ha
    obtain ⟨hin, hsame⟩ := hother a hat
    have hclose := h.close hstepped a (hin.mp ha) T hT
    unfold lastTime at hclose ⊢
    rw [hsame]
    exact hclose

theorem goesOn_spec {s : Timers} {latest : Timeval} {item : Addr} (hactive : s.th.activeTimer = some item)
    (h : Core s [item] latest) (hexpires : (s.node item).expires.usec ≤ 1000000)
    (hlast : (s.node item).lastsec ≤ latest.sec) (husec : now.usec < 1000000) (hnow : now.sec ≤ latest.sec)
    (rc : Int) :
    Core (goesOn rc now s) [] latest ∧ (goesOn rc now s).th.activeTimer = none ∧
      ∀ a ∈ (goesOn rc now s).th.timers, a = item ∨ a ∈ s.th.timers ∧ (goesOn rc now s).node a = s.node a := by
  have hidle : Core s.idle [item] latest := { h with }
  unfold goesOn
  rw [hactive]
  dsimp only
  split
  · obtain ⟨hqueue, hnone, hnode⟩ := release_queue item s.idle
    refine ⟨hidle.release, hnone, fun a ha => Or.inr ⟨?_, congrFun hnode a⟩⟩
    rw [hqueue] at ha
    exact ha
  · have hcore := hidle.rescedule (some now) hexpires (fun tv htv => by cases htv; exact husec) hlast
    refine ⟨hcore.setNode fun _ => ⟨rfl, rfl, hnow⟩, rfl, fun a ha => ?_⟩
    rcases (mem_rescedule hidle item (some now) a).mp ha with rfl | hin
    · exact Or.inl rfl
    · have hne : a ≠ item := by
        rintro rfl
        exact (hidle.held_notMem (List.mem_singleton.mpr rfl)).1 hin
      exact Or.inr ⟨hin, (Function.update_of_ne hne ..).trans (Function.update_of_ne hne ..)⟩

theorem StepInvariant.handlerReturns (h : StepInvariant none r) (husec : now.usec < 1000000) (rc : Int)
    (hactive : r.timers.th.activeTimer ≠ none) : StepInvariant (some now) (r.handlerReturns rc now) := by
  obtain ⟨item, hitem⟩ := Option.ne_none_iff_exists'.mp hactive
  obtain ⟨latest, hcore, hsec, hlast⟩ := h.core
  obtain ⟨-, hexpires, hsince⟩ := h.active item hitem
  rw [hitem] at hcore
  have hlater : Core r.timers [item] ⟨max latest.sec now.sec, latest.usec⟩ := by
    refine hcore.later ?_
    unfold Timeval.before
    dsimp only
    omega
  obtain ⟨hgoes, hnone, hqueue⟩ :=
    goesOn_spec hitem hlater hexpires (Int.le_trans (hlast item hitem) (Int.le_max_left ..))
    husec (Int.le_max_right ..) rc
  unfold ClockRun.handlerReturns
  refine ⟨⟨⟨max latest.sec now.sec, latest.usec⟩, ?_, Int.le_trans hsec (Int.le_max_left ..), fun a ha => ?_⟩,
    fun a ha => ?_, fun hstepped t ht T hT => ?_, fun _ hphase => ?_⟩
  · dsimp only
    rw [hnone]
    exact hgoes
  · rw [hnone] at ha
    cases ha
  · dsimp only at ha
    rw [hnone] at ha
    cases ha
  · dsimp only at hstepped ht hT ⊢
    obtain ⟨hold, hsame⟩ := read_since hstepped
    rw [hsame] at hT
    rcases hqueue t ht with rfl | ⟨hin, hnode⟩
    · exact absurd (hold.symm.trans (hsince fun hnone => by rw [hnone] at hT; cases hT)) Bool.false_ne_true
    · have hclose := h.close hold t hin T hT
      unfold lastTime at hclose ⊢
      rw [hnode]
      exact hclose
  · cases hphase
    exact ⟨husec, hnone⟩

theorem check_handler {item : Addr} {s : Timers} (h : checkTimers now r.timers = (.handler item, s)) :
    r.check now = { r with timers := s, since := Function.update r.since item none } := by
  rw [ClockRun.check, h]

theorem check_delay {delay : Option Timeval} {s : Timers} (h : checkTimers now r.timers = (.delay delay, s)) :
    r.check now = { r with timers := s, stepped := false } := by
  rw [ClockRun.check, h]

theorem close_moved (h : StepInvariant (some now) r) (hfine : Fine now r)
    (hfirst : ∀ first, r.timers.th.timers.head? = some first → ¬ (r.timers.node first).expires.before now)
    {s : Timers}
    (hmoved : FirstMoved now r.timers s) {t : Addr} (ht : t ∈ s.th.timers) {T : Timeval} (hT : r.since t = some T) :
    (s.node t).expires.micros ≤ lastTime s t T := by
  have hin := (hmoved.queue t).mp ht
  have hperiod : lastTime s t T = lastTime r.timers t T := by
    unfold lastTime
    rw [hmoved.period]
  rw [hperiod]
  by_cases hmoves : Moves now r.timers t
  · have honce := hfine.once t hmoves T hT
    rw [hmoved.moved t hmoves, addPeriod_micros]
    unfold lastTime
    unfold Timeval.micros at honce ⊢
    dsimp only
    omega
  · rw [hmoved.same t hin hmoves]
    cases hstepped : r.stepped with
    | false => exact h.close hstepped t hin T hT
    | true => exact hfine.close hstepped hfirst t hin hmoves T hT

theorem StepInvariant.check (h : StepInvariant (some now) r) (hfine : Fine now r) :
    StepInvariant none (r.check now) := by
  obtain ⟨latest, hcore, hsec, hlast⟩ := h.core
  obtain ⟨husec, hactive⟩ := h.phase now rfl
  rw [hactive] at hcore
  rcases checkTimers_cases now r.timers with ⟨item, rest, hlist, hbefore, hcheck⟩ | ⟨hfirst, hcheck⟩
  · have hitem : item ∈ r.timers.th.timers := by
      rw [hlist]
      exact List.mem_cons_self
    have hself : (r.timers.fire item rest).node item = { r.timers.node item with state := .active } :=
      Function.update_self ..
    have hfired := hcore.fire hlist
    rw [check_handler hcheck]
    refine ⟨⟨latest, hfired, hsec, fun a ha => ?_⟩, fun a ha => ?_, fun hstepped t ht T hT => ?_,
      fun _ hphase => (nomatch hphase)⟩
    · cases ha
      dsimp only
      rw [hself]
      exact hcore.lastsec item hitem
    · cases ha
      dsimp only
      rw [hself, Function.update_self]
      exact ⟨fun hrunning => (nomatch hrunning), hcore.usec item hitem, fun hnone => absurd rfl hnone⟩
    · dsimp only at hstepped ht hT ⊢
      have hne : t ≠ item := by
        rintro rfl
        exact (hfired.held_notMem List.mem_cons_self).1 ht
      rw [Function.update_of_ne hne] at hT
      have hsame : (r.timers.fire item rest).node t = r.timers.node t := Function.update_of_ne hne ..
      have hin : t ∈ r.timers.th.timers := by
        rw [hlist]
        exact List.mem_cons_of_mem item ht
      have hclose := h.close hstepped t hin T hT
      unfold lastTime at hclose ⊢
      rw [hsame]
      exact hclose
  · obtain ⟨hmovedCore, hmoved⟩ := moveFirst_spec hcore hfirst
    obtain ⟨delay, kept, hdelay⟩ := computeDelay_delay now (moveFirst now r.timers)
    rw [check_delay (hcheck.trans hdelay)]
    refine ⟨⟨latest, ?_, hsec, fun a ha => ?_⟩, fun a ha => ?_, fun _ t ht T hT => close_moved h hfine hfirst
      hmoved ht hT,
      fun _ hphase => (nomatch hphase)⟩
    · dsimp only
      rw [hmoved.active, hactive]
      exact { hmovedCore with }
    · dsimp only at ha
      rw [hmoved.active, hactive] at ha
      cases ha
    · dsimp only at ha
      rw [hmoved.active, hactive] at ha
      cases ha

theorem ClockSteps.invariant (h : ClockSteps Fine phase r) : StepInvariant phase r := by
  induction h with
  | initial =>
    exact ⟨⟨⟨0, 0⟩, inv_initialTimers.core, Int.le_refl 0, fun _ ha => (nomatch ha)⟩, fun _ ha => (nomatch ha),
      fun _ _ ht => (nomatch ht), fun _ hphase => (nomatch hphase)⟩
  | start _ husec mS sr ref ih => exact ih.start husec mS sr ref
  | stop _ hstop ih => exact ih.stop hstop
  | getDelay _ husec hactive ih => exact ih.read husec hactive
  | handlerReturns _ husec rc hactive ih => exact ih.handlerReturns husec rc hactive
  | check _ hfine ih => exact ih.check hfine

/-! ## The delay -/

theorem ahead_moved (h : StepInvariant (some now) r) (hfine : Fine now r)
    (hfirst : ∀ first, r.timers.th.timers.head? = some first → ¬ (r.timers.node first).expires.before now)
    {s : Timers}
    (hmoved : FirstMoved now r.timers s) {t : Addr} (ht : t ∈ s.th.timers) :
    now.sec ≤ (s.node t).expires.sec ∧ now.micros ≤ (s.node t).expires.micros := by
  obtain ⟨latest, hcore, -, -⟩ := h.core
  obtain ⟨husec, -⟩ := h.phase now rfl
  have hin := (hmoved.queue t).mp ht
  by_cases hmoves : Moves now r.timers t
  · have hahead := hfine.ahead t hmoves
    have hmicros := addPeriod_micros (r.timers.node t).mS ⟨now.sec, (r.timers.node t).expires.usec⟩
    rw [hmoved.moved t hmoves]
    refine ⟨?_, ?_⟩
    · unfold Timeval.addPeriod
      dsimp only
      split
      · dsimp only
        omega
      · dsimp only
        omega
    · rw [hmicros]
      unfold Timeval.micros
      dsimp only
      omega
  · have hnot := hcore.none_due hfirst hin
    rw [hmoved.same t hin hmoves]
    unfold Timeval.before at hnot
    unfold Timeval.micros
    omega

theorem computeDelay_right {s : Timers} {held : List Addr} {latest : Timeval} (hcore : Core s held latest)
    (husec : now.usec < 1000000)
    (hahead : ∀ t ∈ s.th.timers, now.sec ≤ (s.node t).expires.sec ∧ now.micros ≤ (s.node t).expires.micros)
    {delay : Timeval}
    (hdelay : (computeDelay now s).1 = .delay (some delay)) :
    0 ≤ delay.sec ∧ 0 ≤ pollTimeout delay ∧ ∃ item ∈ s.th.timers, delay.micros = (s.node item).expires.micros
      - now.micros ∧
      ∀ a ∈ s.th.timers, (s.node item).expires.micros ≤ (s.node a).expires.micros := by
  unfold computeDelay at hdelay
  cases hlist : s.th.timers with
  | nil =>
    rw [hlist] at hdelay
    cases hdelay
  | cons item rest =>
    have hitem : item ∈ s.th.timers := by
      rw [hlist]
      exact List.mem_cons_self
    obtain ⟨hsec, hmicros⟩ := hahead item hitem
    have hexpires := hcore.usec item hitem
    rw [hlist] at hdelay
    dsimp only at hdelay
    have hvalue : 0 ≤ delay.sec ∧ delay.micros = (s.node item).expires.micros - now.micros := by
      unfold Timeval.micros at hmicros ⊢
      split at hdelay
      · cases hdelay
        dsimp only
        omega
      · cases hdelay
        dsimp only
        omega
    refine ⟨hvalue.1, ?_, item, List.mem_cons_self, hvalue.2, fun a ha => ?_⟩
    · unfold pollTimeout
      split
      · decide
      · omega
    · rcases List.mem_cons.mp ha with rfl | ha
      · exact Int.le_refl _
      · exact hcore.first_least hlist ha

/-- When every reading is fine, the delays are right, and a timer is called by the end of its period and a second
after the time that the clock was set back to. -/
theorem clockSteps_right (h : ClockSteps Fine (some now) r) (hfine : Fine now r) : ClockRight now r := by
  have hinvariant := h.invariant
  obtain ⟨latest, hcore, -, -⟩ := hinvariant.core
  obtain ⟨husec, hactive⟩ := hinvariant.phase now rfl
  rw [hactive] at hcore
  rcases checkTimers_cases now r.timers with ⟨item, rest, hlist, hbefore, hcheck⟩ | ⟨hfirst, hcheck⟩
  · refine ⟨fun delay hdelay => ?_, fun t ht _ _ _ => ⟨item, ?_, ?_⟩⟩
    · rw [hcheck] at hdelay
      cases hdelay
    · rw [hcheck]
    · rw [hcheck]
      rw [hlist] at ht
      exact List.mem_cons.mp ht
  · obtain ⟨hmovedCore, hmoved⟩ := moveFirst_spec hcore hfirst
    refine ⟨fun delay hdelay => ?_, fun t ht T hT hoverdue => ?_⟩
    · rw [hcheck] at hdelay ⊢
      have hright := computeDelay_right hmovedCore husec
        (fun t ht => ahead_moved hinvariant hfine hfirst hmoved ht) hdelay
      obtain ⟨_, kept, hcompute⟩ := computeDelay_delay now (moveFirst now r.timers)
      rw [hcompute]
      exact hright
    · -- No timer is due, but this one would be.
      have hin := (hmoved.queue t).mpr ht
      have hclose := close_moved hinvariant hfine hfirst hmoved hin hT
      have hahead := (ahead_moved hinvariant hfine hfirst hmoved hin).2
      unfold lastTime at hclose hoverdue
      rw [hmoved.period] at hclose
      omega

theorem Fine.of_due {item : Addr} {rest : List Addr} (hlist : r.timers.th.timers = item :: rest)
    (hbefore : (r.timers.node item).expires.before now) : Fine now r := by
  have hhead : r.timers.th.timers.head? = some item := by
    rw [hlist]
    rfl
  have hnot : ∀ t, ¬ Moves now r.timers t := by
    rintro t ⟨ht, hlater, -⟩
    cases hhead.symm.trans ht
    exact hlater hbefore
  exact ⟨fun t ht => absurd ht (hnot t), fun t ht => absurd ht (hnot t), fun _ hfirst => absurd hbefore
    (hfirst item hhead)⟩

theorem Fine.of_steady (hstepped : r.stepped = false)
    (hlast : ∀ first, r.timers.th.timers.head? = some first → (r.timers.node first).lastsec ≤ now.sec) :
    Fine now r := by
  have hnot : ∀ t, ¬ Moves now r.timers t := fun t ht => Int.not_lt.mpr (hlast t ht.1) ht.2.2
  refine ⟨fun t ht => absurd ht (hnot t), fun t ht => absurd ht (hnot t), fun hback => ?_⟩
  rw [hstepped] at hback
  cases hback

end

/-- A timer that was started at the second 1000, ran at a time, and is queued again. -/
def ranOnce (mS : Nat) (now : Timeval) : ClockRun :=
  ((((ClockRun.initial.start ⟨1000, 0⟩ mS 0 0).read now).check now).handlerReturns 1 now).check now

theorem clockSteps_right_back : ∃ r : ClockRun, r.since 0 = some ⟨1000, 500000⟩ ∧ 0 ∈ r.timers.th.timers ∧
    ClockRight ⟨1000, 500000⟩ r := by
  have hstart : ClockSteps Fine none (ClockRun.initial.start ⟨1000, 0⟩ 5000 0 0) :=
    ClockSteps.initial.start (by decide) 5000 0 0
  have hfires : ClockSteps Fine none _ := (@ClockSteps.getDelay _ _ ⟨1006, 0⟩ hstart (by decide) rfl).check
    (@Fine.of_due _ _ 0 [] rfl (by decide))
  have hreturns : ClockSteps Fine none (ranOnce 5000 ⟨1006, 0⟩) :=
    (@ClockSteps.handlerReturns _ _ ⟨1006, 0⟩ hfires (by decide) 1 (by decide)).check
      (Fine.of_steady rfl fun first hfirst => by cases hfirst; decide)
  have hback := @ClockSteps.getDelay _ _ ⟨1000, 500000⟩ hreturns (by decide) rfl
  have hfine : Fine ⟨1000, 500000⟩ ((ranOnce 5000 ⟨1006, 0⟩).read ⟨1000, 500000⟩) := by
    have hmoves : Moves ⟨1000, 500000⟩ ((ranOnce 5000 ⟨1006, 0⟩).read ⟨1000, 500000⟩).timers 0 :=
      ⟨rfl, by decide, by decide⟩
    refine ⟨fun t ht => ?_, fun t ht T hT => ?_, fun _ _ t ht hnot => ?_⟩
    · cases ht.1
      decide
    · cases ht.1
      cases hT
      decide
    · rw [List.mem_singleton.mp ht] at hnot
      exact absurd hmoves hnot
  exact ⟨_, rfl, by decide, clockSteps_right hback hfine⟩

theorem not_clockRight {now T : Timeval} {r : ClockRun} {t : Addr} {delay : Option Timeval}
    (ht : t ∈ r.timers.th.timers)
    (hT : r.since t = some T) (hoverdue : lastTime r.timers t T < now.micros)
    (hdelay : (checkTimers now r.timers).1 = .delay delay) : ¬ ClockRight now r := by
  intro hright
  obtain ⟨item, hhandler, -⟩ := hright.overdue t ht T hT hoverdue
  rw [hdelay] at hhandler
  cases hhandler

/-- A delay can be negative; a timer that did not run yet waits for the old time; and one that did is put off by each
call. -/
theorem not_clockSteps_right :
    (∃ r, ClockSteps (fun _ _ => True) (some ⟨999, 900000⟩) r ∧ ¬ ClockRight ⟨999, 900000⟩ r) ∧
    (∃ r, ClockSteps (fun _ _ => True) (some ⟨12, 1⟩) r ∧ ¬ ClockRight ⟨12, 1⟩ r) ∧
    ∃ r, ClockSteps (fun _ _ => True) (some ⟨6, 1⟩) r ∧ ¬ ClockRight ⟨6, 1⟩ r := by
  have hstart : ∀ mS, ClockSteps (fun _ _ => True) none (ClockRun.initial.start ⟨1000, 0⟩ mS 0 0) :=
    fun mS => ClockSteps.initial.start (by decide) mS 0 0
  refine ⟨?_, ?_, ?_⟩
  · have hfires := (@ClockSteps.getDelay _ _ ⟨1000, 200000⟩ (hstart 100) (by decide) rfl).check trivial
    have hreturns : ClockSteps (fun _ _ => True) none (ranOnce 100 ⟨1000, 200000⟩) :=
      (@ClockSteps.handlerReturns _ _ ⟨1000, 200000⟩ hfires (by decide) 1 (by decide)).check trivial
    refine ⟨_, @ClockSteps.getDelay _ _ ⟨999, 900000⟩ hreturns (by decide) rfl, fun hright => ?_⟩
    have hdelay := hright.delay ⟨-1, 400000⟩ (by decide +kernel)
    exact absurd hdelay.1 (by decide)
  · have hback := (@ClockSteps.getDelay _ _ ⟨10, 0⟩ (hstart 1000) (by decide) rfl).check trivial
    refine ⟨_, @ClockSteps.getDelay _ _ ⟨12, 1⟩ hback (by decide) rfl, ?_⟩
    exact not_clockRight (t := 0) (T := ⟨10, 0⟩) (by decide) rfl (by decide) rfl
  · have hfires := (@ClockSteps.getDelay _ _ ⟨1006, 0⟩ (hstart 5000) (by decide) rfl).check trivial
    have hreturns : ClockSteps (fun _ _ => True) none (ranOnce 5000 ⟨1006, 0⟩) :=
      (@ClockSteps.handlerReturns _ _ ⟨1006, 0⟩ hfires (by decide) 1 (by decide)).check trivial
    have hback := (@ClockSteps.getDelay _ _ ⟨0, 0⟩ hreturns (by decide) rfl).check trivial
    have hagain := (@ClockSteps.getDelay _ _ ⟨5, 0⟩ hback (by decide) rfl).check trivial
    refine ⟨_, @ClockSteps.getDelay _ _ ⟨6, 1⟩ hagain (by decide) rfl, ?_⟩
    exact not_clockRight (t := 0) (T := ⟨0, 0⟩) (by decide) rfl (by decide) rfl

end ComSA.Ac
