import Mathlib.Data.List.Basic
import Mathlib.Logic.Function.Basic

/-!
# Timers for select

A running timer is in a queue that is sorted by the time it expires at. While its handler runs it is
the active timer, and when it ended its memory is kept on a short list or freed. Between two calls of
`timerGetDelay_r` and inside of a handler timers are started, stopped and modified.
-/

namespace ComSA.Ac

structure Timeval where
  sec : Int
  usec : Nat
  deriving DecidableEq, Repr

namespace Timeval

def before (a b : Timeval) : Prop := a.sec < b.sec ∨ a.sec = b.sec ∧ a.usec < b.usec

instance (a b : Timeval) : Decidable (a.before b) :=
  inferInstanceAs (Decidable (a.sec < b.sec ∨ a.sec = b.sec ∧ a.usec < b.usec))

/-- A second that is full is carried only when more than a second is there. -/
def addPeriod (mS : Nat) (tv : Timeval) : Timeval :=
  let sec := tv.sec + (mS / 1000 : Nat)
  let usec := tv.usec + mS % 1000 * 1000
  if usec > 1000000 then ⟨sec + 1, usec - 1000000⟩ else ⟨sec, usec⟩

def micros (tv : Timeval) : Int := tv.sec * 1000000 + tv.usec

end Timeval

inductive TimerState where
  | running
  | active
  | deleted
  deriving DecidableEq, Repr

abbrev Addr := Nat

structure TimerInternal where
  mS : Nat
  sr : Nat
  ref : Nat
  expires : Timeval
  lastsec : Int
  state : TimerState
  deriving DecidableEq, Repr

structure TimeHandle where
  delay : Timeval
  timers : List Addr
  freeTimerList : List Addr
  freeTimers : Nat
  activeTimer : Option Addr
  deriving DecidableEq, Repr

structure Timers where
  th : TimeHandle
  node : Addr → TimerInternal
  allocated : Addr → Bool
  next : Addr

namespace Timers

def initial : Timers where
  th := ⟨⟨0, 0⟩, [], [], 0, none⟩
  node := fun _ => ⟨0, 0, 0, ⟨0, 0⟩, 0, .running⟩
  allocated := fun _ => false
  next := 0

def setNode (a : Addr) (t : TimerInternal) (s : Timers) : Timers :=
  { s with node := Function.update s.node a t }

def setTimers (timers : List Addr) (s : Timers) : Timers := { s with th := { s.th with timers := timers } }

def nextExpiry (t : TimerInternal) (tv : Option Timeval) : Timeval :=
  let expires := t.expires.addPeriod t.mS
  match tv with
  | none => expires
  | some tv => if expires.before tv then tv.addPeriod t.mS else expires

def insertTimer (node : Addr → TimerInternal) (t : Addr) (expires : Timeval) (timers : List Addr) : List Addr :=
  let less := fun a => (node a).expires.sec < expires.sec
  let same := fun a => (node a).expires.sec = expires.sec ∧ (node a).expires.usec < expires.usec
  let rest := timers.dropWhile less
  timers.takeWhile less ++ rest.takeWhile same ++ t :: rest.dropWhile same

def rescedule (t : Addr) (tv : Option Timeval) (s : Timers) : Timers :=
  let expires := nextExpiry (s.node t) tv
  (s.setNode t { s.node t with expires := expires, state := .running }).setTimers
    (insertTimer s.node t expires s.th.timers)

def release (item : Addr) (s : Timers) : Timers :=
  if s.th.freeTimers < 4 then
    { s with th := { s.th with
        freeTimerList := item :: s.th.freeTimerList
        freeTimers := s.th.freeTimers + 1 } }
  else { s with allocated := Function.update s.allocated item false }

def takeNode (s : Timers) : Addr × Timers :=
  match s.th.freeTimers, s.th.freeTimerList with
  | n + 1, t :: rest => (t, { s with th := { s.th with freeTimerList := rest, freeTimers := n } })
  | _, _ => (s.next, { s with allocated := Function.update s.allocated s.next true, next := s.next + 1 })

end Timers

open Timers

def timerStart_r (now : Timeval) (mS sr ref : Nat) (s : Timers) : Addr × Timers :=
  let (t, s) := s.takeNode
  (t, (s.setNode t ⟨mS, sr, ref, now, 0, (s.node t).state⟩).rescedule t none)

/-- There is no result where the memory of the timer was freed. -/
def timerStop_r (t : Addr) (s : Timers) : Option Timers :=
  if !s.allocated t then none
  else if (s.node t).state = .running then
    if t ∈ s.th.timers then some ((s.setTimers (s.th.timers.erase t)).release t) else some s
  else some (s.setNode t { s.node t with state := .deleted })

def timerModify (t : Addr) (mS userRef : Nat) (s : Timers) : Option Timers :=
  if !s.allocated t then none else some (s.setNode t { s.node t with mS := mS, ref := userRef })

inductive Outcome where
  | handler (item : Addr)
  | delay (delay : Option Timeval)
  deriving DecidableEq, Repr

def computeDelay (tv : Timeval) (s : Timers) : Outcome × Timers :=
  match s.th.timers with
  | [] => (.delay none, s)
  | item :: _ =>
    let expires := (s.node item).expires
    let delay : Timeval :=
      if tv.usec > expires.usec then ⟨expires.sec - tv.sec - 1, expires.usec + 1000000 - tv.usec⟩
      else ⟨expires.sec - tv.sec, expires.usec - tv.usec⟩
    (.delay (some delay), { s with th := { s.th with delay := delay } })

def checkTimers (tv : Timeval) (s : Timers) : Outcome × Timers :=
  match s.th.timers with
  | [] => computeDelay tv s
  | item :: rest =>
    let t := s.node item
    if t.expires.before tv then
      (.handler item, { s.setNode item { t with state := .active } with
        th := { s.th with timers := rest, activeTimer := some item } })
    else if t.lastsec > tv.sec then
      -- the clock was set back
      computeDelay tv (((s.setTimers rest).setNode item { t with
        state := .active, expires := { t.expires with sec := tv.sec } }).rescedule item none)
    else computeDelay tv s

def timerGetDelay_r (now : Timeval) (s : Timers) : Outcome × Timers := checkTimers now s

/-- The handler of the active timer has returned, and the loop goes on. -/
def handlerReturned (rc : Int) (now : Timeval) (s : Timers) : Outcome × Timers :=
  match s.th.activeTimer with
  | none => checkTimers now s
  | some item =>
    let s := { s with th := { s.th with activeTimer := none } }
    if (s.node item).state = .deleted ∨ rc = 0 then checkTimers now (s.release item)
    else
      let s := s.rescedule item (some now)
      checkTimers now (s.setNode item { s.node item with lastsec := now.sec })

end ComSA.Ac
