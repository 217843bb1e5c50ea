import ComSA.Ac.SelectTimer
import Mathlib.Data.Finset.Card
import Mathlib.Data.Finset.Image

/-!
# Callbacks for descriptors

The descriptors and their callbacks are in two arrays that are packed. While `poll_execute` goes through the arrays
the callbacks may add, modify and remove entries.
-/

namespace ComSA.Ac

/-! ## The table -/

structure Pollfd where
  fd : Int
  events : BitVec 16
  revents : BitVec 16
  deriving DecidableEq, Repr

structure PollFn where
  fn : Nat
  userRef : Nat
  deriving DecidableEq, Repr

def Pollfd.ready (p : Pollfd) : Prop :=
  p.revents ≠ 0 ∧ p.revents &&& 0x008 = 0 ∧ p.revents &&& 0x010 = 0 ∧ p.revents &&& 0x020 = 0

instance (p : Pollfd) : Decidable p.ready :=
  inferInstanceAs (Decidable (p.revents ≠ 0 ∧ p.revents &&& 0x008 = 0 ∧ p.revents &&& 0x010 = 0 ∧
    p.revents &&& 0x020 = 0))

structure PollTable where
  maxfd : Nat
  nfds : Nat
  spollfd : Nat → Pollfd
  spollfn : Nat → PollFn
  room : nfds ≤ maxfd
  distinct : ∀ i < nfds, ∀ j < nfds, (spollfd i).fd = (spollfd j).fd → i = j

namespace PollTable

def find (fd : Int) (e : PollTable) : Option Nat := (List.range e.nfds).find? fun i => (e.spollfd i).fd = fd

theorem find_some {fd : Int} {e : PollTable} {i : Nat} :
    e.find fd = some i ↔ i < e.nfds ∧ (e.spollfd i).fd = fd := by
  constructor
  · intro h
    exact ⟨List.mem_range.mp (List.mem_of_find?_eq_some h), by simpa using List.find?_some h⟩
  · rintro ⟨hi, hfd⟩
    cases hfound : e.find fd with
    | none => exact absurd (decide_eq_true hfd) (List.find?_eq_none.mp hfound i (List.mem_range.mpr hi))
    | some j =>
      have hj := List.mem_range.mp (List.mem_of_find?_eq_some hfound)
      have hsame : (e.spollfd j).fd = fd := by simpa using List.find?_some hfound
      rw [e.distinct i hi j hj (hfd.trans hsame.symm)]

theorem find_none {fd : Int} {e : PollTable} : e.find fd = none ↔ ∀ i < e.nfds, (e.spollfd i).fd ≠ fd := by
  rw [find, List.find?_eq_none]
  exact ⟨fun h i hi hfd => h i (List.mem_range.mpr hi) (decide_eq_true hfd),
    fun h i hi hfd => h i (List.mem_range.mp hi) (of_decide_eq_true hfd)⟩

/-- `poll_maxfd`. The memory of the arrays is not written to. -/
def empty (maxfd : Nat) (spollfd : Nat → Pollfd) (spollfn : Nat → PollFn) : PollTable :=
  ⟨maxfd, 0, spollfd, spollfn, Nat.zero_le maxfd, fun _ hi => absurd hi (Nat.not_lt_zero _)⟩

/-- An entry is modified, and keeps its place and its events. -/
def modifyEntry (i : Nat) (events : BitVec 16) (callback : PollFn) (e : PollTable) : PollTable :=
  { e with
    spollfd := Function.update e.spollfd i { e.spollfd i with events := events }
    spollfn := Function.update e.spollfn i callback
    distinct := by
      have hfd : ∀ k, (Function.update e.spollfd i { e.spollfd i with events := events } k).fd =
        (e.spollfd k).fd := by
        intro k
        by_cases hk : k = i
        · rw [hk, Function.update_self]
        · rw [Function.update_of_ne hk]
      intro i hi j hj h
      rw [hfd, hfd] at h
      exact e.distinct i hi j hj h }

def addEntry (fd : Int) (events : BitVec 16) (callback : PollFn) (e : PollTable) (hroom : e.nfds < e.maxfd)
    (hnew : ∀ i < e.nfds, (e.spollfd i).fd ≠ fd) : PollTable :=
  { e with
    nfds := e.nfds + 1
    spollfd := Function.update e.spollfd e.nfds ⟨fd, events, 0⟩
    spollfn := Function.update e.spollfn e.nfds callback
    room := hroom
    distinct := by
      intro i hi j hj h
      rcases Nat.lt_succ_iff_lt_or_eq.mp hi with hi | rfl
      · rw [Function.update_of_ne (Nat.ne_of_lt hi)] at h
        rcases Nat.lt_succ_iff_lt_or_eq.mp hj with hj | rfl
        · rw [Function.update_of_ne (Nat.ne_of_lt hj)] at h
          exact e.distinct i hi j hj h
        · rw [Function.update_self] at h
          exact absurd h (hnew i hi)
      · rcases Nat.lt_succ_iff_lt_or_eq.mp hj with hj | rfl
        · rw [Function.update_self, Function.update_of_ne (Nat.ne_of_lt hj)] at h
          exact absurd h.symm (hnew j hj)
        · rfl }

def poll_setcallback (fn : Nat) (fd : Int) (events : BitVec 16) (ref : Nat) (e : PollTable) : Int × PollTable :=
  match h : e.find fd with
  | some i => (1, e.modifyEntry i events ⟨fn, ref⟩)
  | none =>
    if hroom : e.nfds < e.maxfd then (0, e.addEntry fd events ⟨fn, ref⟩ hroom (find_none.mp h)) else (-1, e)

def pack {α : Type} (index n : Nat) (a : Nat → α) : Nat → α := fun k => if index ≤ k ∧ k < n then a (k + 1) else a k

def unpacked (index k : Nat) : Nat := if index ≤ k then k + 1 else k

theorem pack_eq {α : Type} {index n k : Nat} (a : Nat → α) (hk : k < n) :
    pack index n a k = a (unpacked index k) := by
  unfold pack unpacked
  by_cases hindex : index ≤ k
  · rw [if_pos ⟨hindex, hk⟩, if_pos hindex]
  · rw [if_neg fun h => hindex h.1, if_neg hindex]

def removeEntry (index : Nat) (e : PollTable) : PollTable :=
  { e with
    nfds := e.nfds - 1
    spollfd := pack index (e.nfds - 1) e.spollfd
    spollfn := pack index (e.nfds - 1) e.spollfn
    room := (Nat.sub_le _ _).trans e.room
    distinct := by
      intro i hi j hj h
      rw [pack_eq _ hi, pack_eq _ hj] at h
      have hsame := e.distinct _ (by unfold unpacked; split <;> omega) _ (by unfold unpacked; split <;> omega) h
      unfold unpacked at hsame
      split at hsame <;> split at hsame <;> omega }

def poll_unsetcallback (fd : Int) (e : PollTable) : PollTable :=
  match e.find fd with
  | none => e
  | some index => e.removeEntry index

def registered (fd : Int) (e : PollTable) : Option PollFn := (e.find fd).map e.spollfn

def answered (revents : Nat → BitVec 16) (e : PollTable) : PollTable :=
  { e with
    spollfd := fun i => if i < e.nfds then { e.spollfd i with revents := revents i } else e.spollfd i
    distinct := by
      intro i hi j hj h
      rw [if_pos hi, if_pos hj] at h
      exact e.distinct i hi j hj h }

def nextReady (i : Nat) (e : PollTable) : Option Nat := (List.range' i (e.nfds - i)).find? fun k =>
    (e.spollfd k).ready

end PollTable

/-! ## The loop -/

inductive TableCall where
  | poll_setcallback (fn : Nat) (fd : Int) (events : BitVec 16) (ref : Nat)
  | poll_unsetcallback (fd : Int)
  deriving DecidableEq, Repr

def TableCall.run (e : PollTable) : TableCall → PollTable
  | .poll_setcallback fn fd events ref => (e.poll_setcallback fn fd events ref).2
  | .poll_unsetcallback fd => e.poll_unsetcallback fd

structure Invocation where
  before : PollTable
  index : Nat
  after : PollTable

namespace Invocation

variable (v : Invocation)

def fd : Int := (v.before.spollfd v.index).fd

def callback : PollFn := v.before.spollfn v.index

def next : Nat := if (v.after.spollfd v.index).fd = v.fd then v.index + 1 else v.index

end Invocation

/-- The loop from an index on, with the descriptors that `poll` counted and were not seen yet. Each callback does what
it is told to. -/
def dispatch (calls : Nat → List TableCall) : Nat → Nat → Nat → PollTable → List Invocation × PollTable
  | 0, _, _, e => ([], e)
  | rc + 1, k, i, e =>
    match e.nextReady i with
    | none => ([], e)
    | some index =>
      let v : Invocation := ⟨e, index, (calls k).foldl TableCall.run e⟩
      let rest := dispatch calls rc (k + 1) v.next v.after
      (v :: rest.1, rest.2)

inductive PollAnswer where
  | failed (errno : Nat)
  | events (revents : Nat → BitVec 16)

def EINTR : Nat := 4

def eventCount (revents : Nat → BitVec 16) (e : PollTable) : Nat :=
  ((Finset.range e.nfds).filter fun i => revents i ≠ 0).card

def poll_execute (delay : Option Timeval) (answer : PollAnswer) (calls : Nat → List TableCall) (e : PollTable) :
    Int × List Invocation × PollTable :=
  if delay = none ∧ e.nfds = 0 then (-1, [], e)
  else
    match answer with
    | .failed _ => (-1, [], e)
    | .events revents => (0, dispatch calls (eventCount revents e) 0 0 (e.answered revents))

/-! ## What it has to do -/

/-- Each descriptor that is ready and registered is called once, with what is registered for it, and the result is
negative only for a reason. -/
structure PollRight (delay : Option Timeval) (answer : PollAnswer) (calls : Nat → List TableCall)
    (e : PollTable) : Prop where
  once : ((poll_execute delay answer calls e).2.1.map Invocation.fd).Nodup
  own : ∀ v ∈ (poll_execute delay answer calls e).2.1, v.before.registered v.fd = some v.callback
  complete : ∀ revents, answer = .events revents → ∀ i < e.nfds, ((e.answered revents).spollfd i).ready →
    (poll_execute delay answer calls e).2.2.registered (e.spollfd i).fd ≠ none →
    ∃ v ∈ (poll_execute delay answer calls e).2.1, v.fd = (e.spollfd i).fd
  negative : (poll_execute delay answer calls e).1 < 0 → delay = none ∧ e.nfds = 0 ∨
    ∃ errno, errno ≠ EINTR ∧ answer = .failed errno

def PollTable.Pending (i : Nat) (e : PollTable) (fd : Int) : Prop :=
  ∃ k, i ≤ k ∧ k < e.nfds ∧ (e.spollfd k).fd = fd ∧ (e.spollfd k).ready

/-- A callback removes a descriptor whose turn was to come, or moves it before the index at which the loop goes
on. -/
def Invocation.Loses (v : Invocation) (fd : Int) : Prop :=
  v.before.Pending (v.index + 1) fd ∧ ¬ v.after.Pending v.next fd

/-- `poll` is not interrupted, and no callback makes the loop lose a descriptor that stays registered. -/
structure PollFine (delay : Option Timeval) (answer : PollAnswer) (calls : Nat → List TableCall)
    (e : PollTable) : Prop where
  uninterrupted : answer = .failed EINTR → delay = none ∧ e.nfds = 0
  kept : ∀ v ∈ (poll_execute delay answer calls e).2.1, ∀ fd, v.Loses fd →
    (poll_execute delay answer calls e).2.2.registered fd = none

/-! ## The table as a map -/

namespace PollTable

variable {e : PollTable} {fd : Int}

theorem registered_some {callback : PollFn} : e.registered fd = some callback ↔
    ∃ i < e.nfds, (e.spollfd i).fd = fd ∧ e.spollfn i = callback := by
  rw [registered, Option.map_eq_some_iff]
  constructor
  · rintro ⟨i, hfind, hcallback⟩
    obtain ⟨hi, hfd⟩ := find_some.mp hfind
    exact ⟨i, hi, hfd, hcallback⟩
  · rintro ⟨i, hi, hfd, hcallback⟩
    exact ⟨i, find_some.mpr ⟨hi, hfd⟩, hcallback⟩

theorem poll_setcallback_cases (fn : Nat) (fd : Int) (events : BitVec 16) (ref : Nat) (e : PollTable) :
    (∃ i < e.nfds, (e.spollfd i).fd = fd ∧
      (e.poll_setcallback fn fd events ref).2 = e.modifyEntry i events ⟨fn, ref⟩) ∨
    (∃ hroom hnew, (e.poll_setcallback fn fd events ref).2 = e.addEntry fd events ⟨fn, ref⟩ hroom hnew) ∨
    (∀ i < e.nfds, (e.spollfd i).fd ≠ fd) ∧ ¬ e.nfds < e.maxfd ∧ (e.poll_setcallback fn fd events ref).2 = e := by
  unfold poll_setcallback
  split
  · next i hfind =>
    obtain ⟨hi, hfd⟩ := find_some.mp hfind
    exact Or.inl ⟨i, hi, hfd, rfl⟩
  · next hfind =>
    split
    · next hroom => exact Or.inr (Or.inl ⟨hroom, find_none.mp hfind, rfl⟩)
    · next hroom => exact Or.inr (Or.inr ⟨find_none.mp hfind, hroom, rfl⟩)

theorem poll_unsetcallback_cases (fd : Int) (e : PollTable) :
    (∀ i < e.nfds, (e.spollfd i).fd ≠ fd) ∧ e.poll_unsetcallback fd = e ∨
    ∃ index < e.nfds, (e.spollfd index).fd = fd ∧ e.poll_unsetcallback fd = e.removeEntry index := by
  unfold poll_unsetcallback
  split
  · next hfind => exact Or.inl ⟨find_none.mp hfind, rfl⟩
  · next index hfind =>
    obtain ⟨hindex, hfd⟩ := find_some.mp hfind
    exact Or.inr ⟨index, hindex, hfd, rfl⟩

end PollTable

/-! ## Places -/

theorem nextReady_some {i index : Nat} {e : PollTable} (h : e.nextReady i = some index) :
    i ≤ index ∧ index < e.nfds ∧ (e.spollfd index).ready ∧ ∀ k, i ≤ k → k < index → ¬ (e.spollfd k).ready := by
  obtain ⟨hready, hmem, hfirst⟩ := List.find?_range'_eq_some.mp h
  obtain ⟨hi, hlt⟩ := List.mem_range'_1.mp hmem
  refine ⟨hi, by omega, of_decide_eq_true hready, fun k hk hk' hready => ?_⟩
  have hnot := hfirst k hk hk'
  rw [decide_eq_true hready] at hnot
  cases hnot

theorem nextReady_none {i : Nat} {e : PollTable} (h : e.nextReady i = none) {fd : Int} : ¬ e.Pending i fd := by
  rintro ⟨k, hi, hk, -, hready⟩
  have hmem : k ∈ List.range' i (e.nfds - i) := List.mem_range'_1.mpr ⟨hi, by omega⟩
  exact List.find?_eq_none.mp h k hmem (decide_eq_true hready)

/-- An entry of a table was at its place or behind it in another one. -/
def CameForward (e e' : PollTable) : Prop :=
  ∀ k < e'.nfds, (e'.spollfd k).revents ≠ 0 → ∃ k', k ≤ k' ∧ k' < e.nfds ∧
    (e.spollfd k').fd = (e'.spollfd k).fd ∧ (e.spollfd k').revents = (e'.spollfd k).revents

theorem CameForward.refl (e : PollTable) : CameForward e e := fun k hk _ => ⟨k, le_refl k, hk, rfl, rfl⟩

theorem CameForward.trans {e e' e'' : PollTable} (h : CameForward e e') (h' : CameForward e' e'') :
    CameForward e e'' := by
  intro k hk hevents
  obtain ⟨k', hle, hk', hfd, hsame⟩ := h' k hk hevents
  obtain ⟨k'', hle', hk'', hfd', hsame'⟩ := h k' hk' (by rw [hsame]; exact hevents)
  exact ⟨k'', hle.trans hle', hk'', hfd'.trans hfd, hsame'.trans hsame⟩

theorem cameForward_run (call : TableCall) (e : PollTable) : CameForward e (call.run e) := by
  intro k hk hevents
  cases call with
  | poll_setcallback fn fd events ref =>
    rw [TableCall.run] at hk hevents ⊢
    rcases PollTable.poll_setcallback_cases fn fd events ref e with ⟨i, _, _, hset⟩ | ⟨_, _, hset⟩ | ⟨_, _, hset⟩
    · rw [hset] at hk ⊢
      refine ⟨k, le_refl k, hk, ?_⟩
      unfold PollTable.modifyEntry
      dsimp only
      by_cases hki : k = i
      · rw [hki, Function.update_self]
        exact ⟨rfl, rfl⟩
      · rw [Function.update_of_ne hki]
        exact ⟨rfl, rfl⟩
    · rw [hset] at hk hevents ⊢
      unfold PollTable.addEntry at hk hevents ⊢
      dsimp only at hk hevents ⊢
      rcases Nat.lt_succ_iff_lt_or_eq.mp hk with hk | rfl
      · rw [Function.update_of_ne (Nat.ne_of_lt hk)]
        exact ⟨k, le_refl k, hk, rfl, rfl⟩
      · rw [Function.update_self] at hevents
        exact absurd rfl hevents
    · rw [hset] at hk ⊢
      exact ⟨k, le_refl k, hk, rfl, rfl⟩
  | poll_unsetcallback fd =>
    rw [TableCall.run] at hk hevents ⊢
    rcases PollTable.poll_unsetcallback_cases fd e with ⟨_, hunset⟩ | ⟨index, _, _, hunset⟩
    · rw [hunset] at hk ⊢
      exact ⟨k, le_refl k, hk, rfl, rfl⟩
    · rw [hunset] at hk ⊢
      have hpacked : (e.removeEntry index).spollfd k = e.spollfd (PollTable.unpacked index k) :=
        PollTable.pack_eq _ hk
      have hlt : k < e.nfds - 1 := hk
      rw [hpacked]
      refine ⟨PollTable.unpacked index k, ?_, ?_, rfl, rfl⟩
      · unfold PollTable.unpacked
        split <;> omega
      · unfold PollTable.unpacked
        split <;> omega

theorem cameForward_runs (calls : List TableCall) (e : PollTable) :
    CameForward e (calls.foldl TableCall.run e) := by
  induction calls generalizing e with
  | nil => exact CameForward.refl e
  | cons call calls ih => exact (cameForward_run call e).trans (ih (call.run e))

/-! ## One callback -/

/-- The descriptors with events that have their place at an index or behind it. -/
def PollTable.flagged (i : Nat) (e : PollTable) : Finset Int :=
  ((Finset.range e.nfds).filter fun k => i ≤ k ∧ (e.spollfd k).revents ≠ 0).image fun k => (e.spollfd k).fd

theorem mem_flagged {i : Nat} {e : PollTable} {fd : Int} :
    fd ∈ e.flagged i ↔ ∃ k, i ≤ k ∧ k < e.nfds ∧ (e.spollfd k).fd = fd ∧ (e.spollfd k).revents ≠ 0 := by
  rw [PollTable.flagged, Finset.mem_image]
  constructor
  · rintro ⟨k, hk, hfd⟩
    obtain ⟨hrange, hi, hevents⟩ := Finset.mem_filter.mp hk
    exact ⟨k, hi, Finset.mem_range.mp hrange, hfd, hevents⟩
  · rintro ⟨k, hi, hk, hfd, hevents⟩
    exact ⟨k, Finset.mem_filter.mpr ⟨Finset.mem_range.mpr hk, hi, hevents⟩, hfd⟩

theorem PollTable.Pending.flagged {i : Nat} {e : PollTable} {fd : Int} (h : e.Pending i fd) : fd ∈ e.flagged i := by
  obtain ⟨k, hi, hk, hfd, hready⟩ := h
  exact mem_flagged.mpr ⟨k, hi, hk, hfd, hready.1⟩

theorem PollTable.Pending.mono {i j : Nat} {e : PollTable} {fd : Int} (h : e.Pending j fd) (hij : i ≤ j) :
    e.Pending i fd := by
  obtain ⟨k, hj, hrest⟩ := h
  exact ⟨k, hij.trans hj, hrest⟩

structure Invocation.Proper (v : Invocation) : Prop where
  place : v.index < v.before.nfds
  ready : (v.before.spollfd v.index).ready
  forward : CameForward v.before v.after

namespace Invocation.Proper

variable {v : Invocation}

theorem next_le (v : Invocation) : v.index ≤ v.next := by
  unfold Invocation.next
  split
  · exact Nat.le_succ _
  · exact le_refl _

theorem behind (h : v.Proper) {k : Nat} (hnext : v.next ≤ k) (hk : k < v.after.nfds)
    (hevents : (v.after.spollfd k).revents ≠ 0) : ∃ k', v.index + 1 ≤ k' ∧ k' < v.before.nfds ∧
      (v.before.spollfd k').fd = (v.after.spollfd k).fd ∧
        (v.before.spollfd k').revents = (v.after.spollfd k).revents := by
  obtain ⟨k', hle, hk', hfd, hsame⟩ := h.forward k hk hevents
  refine ⟨k', ?_, hk', hfd, hsame⟩
  have hindex := (next_le v).trans (hnext.trans hle)
  refine Nat.lt_of_le_of_ne hindex ?_
  rintro rfl
  -- The entry itself is not at or behind the index any more.
  have hkk : k = v.index := le_antisymm hle ((next_le v).trans hnext)
  rw [hkk] at hfd hnext
  unfold Invocation.next Invocation.fd at hnext
  rw [if_pos hfd.symm] at hnext
  exact absurd hnext (Nat.not_succ_le_self _)

theorem pending (h : v.Proper) {fd : Int} (hpending : v.after.Pending v.next fd) :
    v.before.Pending (v.index + 1) fd := by
  obtain ⟨k, hnext, hk, hfd, hready⟩ := hpending
  obtain ⟨k', hindex, hk', hfd', hsame⟩ := h.behind hnext hk hready.1
  refine ⟨k', hindex, hk', hfd'.trans hfd, ?_⟩
  unfold Pollfd.ready at hready ⊢
  rw [hsame]
  exact hready

theorem not_behind (h : v.Proper) {k : Nat} (hk : k < v.before.nfds) (hindex : v.index + 1 ≤ k) :
    (v.before.spollfd k).fd ≠ v.fd := by
  intro hfd
  have hsame := v.before.distinct k hk v.index h.place hfd
  omega

theorem ne_of_pending (h : v.Proper) {fd : Int} (hpending : v.before.Pending (v.index + 1) fd) : fd ≠ v.fd := by
  obtain ⟨k, hindex, hk, rfl, -⟩ := hpending
  exact h.not_behind hk hindex

theorem card_flagged (h : v.Proper) : (v.after.flagged v.next).card < (v.before.flagged v.index).card := by
  have hself : v.fd ∈ v.before.flagged v.index :=
    mem_flagged.mpr ⟨v.index, le_refl _, h.place, rfl, h.ready.1⟩
  have hsubset : v.after.flagged v.next ⊆ (v.before.flagged v.index).erase v.fd := by
    intro fd hfd
    obtain ⟨k, hnext, hk, rfl, hevents⟩ := mem_flagged.mp hfd
    obtain ⟨k', hindex, hk', hfd', hsame⟩ := h.behind hnext hk hevents
    refine Finset.mem_erase.mpr ⟨?_, mem_flagged.mpr ⟨k', Nat.le_of_succ_le hindex, hk', hfd', ?_⟩⟩
    · rw [← hfd']
      exact h.not_behind hk' hindex
    · rw [hsame]
      exact hevents
  calc (v.after.flagged v.next).card ≤ ((v.before.flagged v.index).erase v.fd).card := Finset.card_le_card hsubset
    _ < (v.before.flagged v.index).card := Finset.card_erase_lt_of_mem hself

end Invocation.Proper

theorem card_flagged_mono {i j : Nat} (e : PollTable) (hij : i ≤ j) : (e.flagged j).card ≤ (e.flagged i).card := by
  refine Finset.card_le_card fun fd hfd => ?_
  obtain ⟨k, hj, hrest⟩ := mem_flagged.mp hfd
  exact mem_flagged.mpr ⟨k, hij.trans hj, hrest⟩

/-! ## The whole loop -/

section

variable (calls : Nat → List TableCall) (rc k : Nat)

theorem dispatch_none {i : Nat} {e : PollTable} (h : e.nextReady i = none) :
    dispatch calls (rc + 1) k i e = ([], e) := by
  rw [dispatch, h]

theorem dispatch_some {i index : Nat} {e : PollTable} (h : e.nextReady i = some index) :
    ∃ v : Invocation, v.before = e ∧ v.index = index ∧ v.Proper ∧ i ≤ v.index ∧
      (∀ fd, e.Pending i fd → fd = v.fd ∨ e.Pending (v.index + 1) fd) ∧
      dispatch calls (rc + 1) k i e = (v :: (dispatch calls rc (k + 1) v.next v.after).1,
        (dispatch calls rc (k + 1) v.next v.after).2) := by
  obtain ⟨hi, hindex, hready, hfirst⟩ := nextReady_some h
  refine ⟨⟨e, index, (calls k).foldl TableCall.run e⟩, rfl, rfl,
    ⟨hindex, hready, cameForward_runs (calls k) e⟩, hi, ?_, ?_⟩
  · rintro fd ⟨k', hi', hk', rfl, hready'⟩
    rcases Nat.lt_trichotomy k' index with hlt | rfl | hlt
    · exact absurd hready' (hfirst k' hi' hlt)
    · exact Or.inl rfl
    · exact Or.inr ⟨k', hlt, hk', rfl, hready'⟩
  · rw [dispatch, h]

variable {calls} {rc k}

theorem dispatch_before {i : Nat} {e : PollTable} {v : Invocation} (hv : v ∈ (dispatch calls rc k i e).1) :
    v.Proper ∧ ∀ fd, v.before.Pending v.index fd → e.Pending i fd := by
  induction rc generalizing k i e with
  | zero => cases hv
  | succ rc ih =>
    cases hnext : e.nextReady i with
    | none =>
      rw [dispatch_none calls rc k hnext] at hv
      cases hv
    | some index =>
      obtain ⟨w, rfl, rfl, hproper, hi, -, hdispatch⟩ := dispatch_some calls rc k hnext
      rw [hdispatch] at hv
      rcases List.mem_cons.mp hv with rfl | hv
      · exact ⟨hproper, fun fd hpending => hpending.mono hi⟩
      · obtain ⟨hproper', hrest⟩ := ih hv
        refine ⟨hproper', fun fd hpending => ?_⟩
        exact (hproper.pending (hrest fd hpending)).mono (hi.trans (Nat.le_succ _))

theorem Invocation.Proper.self_pending {v : Invocation} (h : v.Proper) : v.before.Pending v.index v.fd :=
  ⟨v.index, le_refl _, h.place, rfl, h.ready⟩

theorem dispatch_later {v w : Invocation} (hv : v.Proper)
    (hw : w ∈ (dispatch calls rc k v.next v.after).1) : w.fd ≠ v.fd := by
  obtain ⟨hproper, hbefore⟩ := dispatch_before hw
  exact hv.ne_of_pending (hv.pending (hbefore w.fd hproper.self_pending))

theorem dispatch_once (rc k i : Nat) (e : PollTable) : ((dispatch calls rc k i e).1.map Invocation.fd).Nodup := by
  induction rc generalizing k i e with
  | zero => exact List.nodup_nil
  | succ rc ih =>
    cases hnext : e.nextReady i with
    | none =>
      rw [dispatch_none calls rc k hnext]
      exact List.nodup_nil
    | some index =>
      obtain ⟨v, -, -, hproper, -, -, hdispatch⟩ := dispatch_some calls rc k hnext
      rw [hdispatch, List.map_cons]
      refine List.nodup_cons.mpr ⟨fun hmem => ?_, ih (k + 1) v.next v.after⟩
      obtain ⟨w, hw, hfd⟩ := List.mem_map.mp hmem
      exact dispatch_later hproper hw hfd

theorem dispatch_loses {i : Nat} {e : PollTable} {v : Invocation} (hv : v ∈ (dispatch calls rc k i e).1) {fd : Int}
    (hloses : v.Loses fd) : ∀ w ∈ (dispatch calls rc k i e).1, w.fd ≠ fd := by
  induction rc generalizing k i e with
  | zero => cases hv
  | succ rc ih =>
    cases hnext : e.nextReady i with
    | none =>
      rw [dispatch_none calls rc k hnext] at hv
      cases hv
    | some index =>
      obtain ⟨u, -, -, hproper, -, -, hdispatch⟩ := dispatch_some calls rc k hnext
      rw [hdispatch] at hv ⊢
      rcases List.mem_cons.mp hv with rfl | hv
      · intro w hw
        rcases List.mem_cons.mp hw with rfl | hw
        · exact (hproper.ne_of_pending hloses.1).symm
        · rintro rfl
          obtain ⟨hproper', hbefore⟩ := dispatch_before hw
          exact hloses.2 (hbefore w.fd hproper'.self_pending)
      · intro w hw
        rcases List.mem_cons.mp hw with rfl | hw
        · have hpending := (dispatch_before hv).2 fd (hloses.1.mono (Nat.le_succ _))
          exact (hproper.ne_of_pending (hproper.pending hpending)).symm
        · exact ih hv w hw

theorem dispatch_called {i : Nat} {e : PollTable} (hcount : (e.flagged i).card ≤ rc) {fd : Int}
    (hpending : e.Pending i fd) (hkept : ∀ v ∈ (dispatch calls rc k i e).1, ¬ v.Loses fd) :
    ∃ v ∈ (dispatch calls rc k i e).1, v.fd = fd := by
  induction rc generalizing k i e with
  | zero =>
    have hempty := Finset.card_eq_zero.mp (Nat.le_zero.mp hcount)
    have hmem := hpending.flagged
    rw [hempty] at hmem
    exact absurd hmem (Finset.notMem_empty fd)
  | succ rc ih =>
    cases hnext : e.nextReady i with
    | none => exact absurd hpending (nextReady_none hnext)
    | some index =>
      obtain ⟨v, rfl, rfl, hproper, hi, hfirst, hdispatch⟩ := dispatch_some calls rc k hnext
      rw [hdispatch] at hkept ⊢
      rcases hfirst fd hpending with rfl | hbehind
      · exact ⟨v, List.mem_cons_self, rfl⟩
      · have hpending' : v.after.Pending v.next fd :=
          by_contra fun hlost => hkept v List.mem_cons_self ⟨hbehind, hlost⟩
        have hcard := hproper.card_flagged
        have hmono := card_flagged_mono v.before hi
        obtain ⟨w, hw, hfd⟩ := ih (k := k + 1) (by omega) hpending' fun w hw => hkept w (List.mem_cons_of_mem v hw)
        exact ⟨w, List.mem_cons_of_mem v hw, hfd⟩

end

/-! ## The call -/

theorem flagged_answered (revents : Nat → BitVec 16) (e : PollTable) :
    ((e.answered revents).flagged 0).card ≤ eventCount revents e := by
  refine Finset.card_image_le.trans (Finset.card_le_card fun k hk => ?_)
  obtain ⟨hrange, -, hevents⟩ := Finset.mem_filter.mp hk
  refine Finset.mem_filter.mpr ⟨hrange, ?_⟩
  unfold PollTable.answered at hevents
  dsimp only at hevents
  have hk : k < e.nfds := Finset.mem_range.mp hrange
  rw [if_pos hk] at hevents
  exact hevents

theorem answered_fd (revents : Nat → BitVec 16) (e : PollTable) (i : Nat) :
    ((e.answered revents).spollfd i).fd = (e.spollfd i).fd := by
  unfold PollTable.answered
  dsimp only
  split <;> rfl

section

variable {delay : Option Timeval} {answer : PollAnswer} {calls : Nat → List TableCall} {e : PollTable}

theorem poll_execute_cases (delay : Option Timeval) (answer : PollAnswer) (calls : Nat → List TableCall)
    (e : PollTable) :
    (poll_execute delay answer calls e = (-1, [], e) ∧
      (delay = none ∧ e.nfds = 0 ∨ ∃ errno, answer = .failed errno)) ∨
    ∃ revents, answer = .events revents ∧
      poll_execute delay answer calls e = (0, dispatch calls (eventCount revents e) 0 0 (e.answered revents)) := by
  unfold poll_execute
  split
  · next hnothing => exact Or.inl ⟨rfl, Or.inl hnothing⟩
  · cases answer with
    | failed errno => exact Or.inl ⟨rfl, Or.inr ⟨errno, rfl⟩⟩
    | events revents => exact Or.inr ⟨revents, rfl, rfl⟩

theorem poll_execute_own : ∀ v ∈ (poll_execute delay answer calls e).2.1, v.before.registered v.fd = some
    v.callback := by
  rcases poll_execute_cases delay answer calls e with ⟨hcall, -⟩ | ⟨revents, -, hcall⟩
  · rw [hcall]
    intro v hv
    cases hv
  · rw [hcall]
    intro v hv
    exact PollTable.registered_some.mpr ⟨v.index, (dispatch_before hv).1.place, rfl, rfl⟩

/-- Each callback is called once and with its own reference in any case. The rest is right exactly when `poll` is not
interrupted and no ready descriptor that stays registered is removed or moved before the index by a callback. -/
theorem pollRight_iff (delay : Option Timeval) (answer : PollAnswer) (calls : Nat → List TableCall)
    (e : PollTable) :
    PollRight delay answer calls e ↔ PollFine delay answer calls e := by
  have hown := @poll_execute_own delay answer calls e
  rcases poll_execute_cases delay answer calls e with ⟨hcall, hreason⟩ | ⟨revents, hanswer, hcall⟩
  · constructor
    · intro hright
      refine ⟨fun hinterrupted => ?_, fun v hv => ?_⟩
      · have hnegative := hright.negative (by rw [hcall]; exact Int.negSucc_lt_zero 0)
        rcases hnegative with hnothing | ⟨errno, herrno, hfailed⟩
        · exact hnothing
        · rw [hinterrupted] at hfailed
          cases hfailed
          exact absurd rfl herrno
      · rw [hcall] at hv
        cases hv
    · intro hfine
      refine ⟨by rw [hcall]; exact List.nodup_nil, hown, fun revents hanswer i hi => ?_, fun _ => ?_⟩
      · rcases hreason with ⟨-, hempty⟩ | ⟨errno, hfailed⟩
        · rw [hempty] at hi
          exact absurd hi (Nat.not_lt_zero i)
        · rw [hanswer] at hfailed
          cases hfailed
      · rcases hreason with hnothing | ⟨errno, hfailed⟩
        · exact Or.inl hnothing
        · by_cases herrno : errno = EINTR
          · rw [herrno] at hfailed
            exact Or.inl (hfine.uninterrupted hfailed)
          · exact Or.inr ⟨errno, herrno, hfailed⟩
  · constructor
    · intro hright
      refine ⟨fun hinterrupted => ?_, fun v hv fd hloses => ?_⟩
      · rw [hanswer] at hinterrupted
        cases hinterrupted
      · by_contra hstays
        have hcomplete := hright.complete revents hanswer
        rw [hcall] at hv hstays hcomplete
        obtain ⟨i, -, hi, rfl, hready⟩ := (dispatch_before hv).2 fd (hloses.1.mono (Nat.le_succ _))
        rw [answered_fd] at hstays hloses
        obtain ⟨w, hw, hfd⟩ := hcomplete i hi hready hstays
        exact dispatch_loses hv hloses w hw hfd
    · intro hfine
      refine ⟨?_, hown, fun revents' hanswer' i hi hready hstays => ?_, fun hnegative => ?_⟩
      · rw [hcall]
        exact dispatch_once _ _ _ _
      · rw [hanswer] at hanswer'
        cases hanswer'
        have hkept := hfine.kept
        rw [hcall] at hkept hstays ⊢
        have hpending : (e.answered revents).Pending 0 (e.spollfd i).fd :=
          ⟨i, Nat.zero_le i, hi, answered_fd revents e i, hready⟩
        exact dispatch_called (flagged_answered revents e) hpending fun v hv hloses => hstays (hkept v hv _ hloses)
      · rw [hcall] at hnegative
        exact absurd hnegative (Int.lt_irrefl 0)

end

def fourEntries : PollTable :=
  [1, 2, 3, 4].foldl (fun e fd => (e.poll_setcallback 0 fd 1 0).2)
    (PollTable.empty 4 (fun _ => ⟨0, 0, 0⟩) fun _ => ⟨0, 0⟩)

/-- The callback of the descriptor 3 removes the descriptors 1 and 2, and the one of 4 is not called; and a signal
makes the result negative. -/
theorem not_pollRight :
    (¬ PollRight none (.events fun i => if i < 2 then 0 else 1)
      (fun _ => [.poll_unsetcallback 1, .poll_unsetcallback 2])
      fourEntries) ∧
    ¬ PollRight none (.failed EINTR) (fun _ => []) fourEntries := by
  constructor
  · intro hright
    obtain ⟨v, hv, hfd⟩ := hright.complete _ rfl 3 (by decide +kernel) (by decide +kernel) (by decide +kernel)
    have hcalled : (poll_execute none (.events fun i => if i < 2 then 0 else 1)
        (fun _ => [.poll_unsetcallback 1, .poll_unsetcallback 2]) fourEntries).2.1.map Invocation.fd = [3] := by
      decide +kernel
    have hthree : v.fd = 3 := by
      have hmem := List.mem_map_of_mem (f := Invocation.fd) hv
      rw [hcalled] at hmem
      exact List.mem_singleton.mp hmem
    rw [hthree] at hfd
    exact absurd hfd (by decide +kernel)
  · intro hright
    rcases hright.negative (by decide +kernel) with ⟨-, hempty⟩ | ⟨errno, herrno, hfailed⟩
    · exact absurd hempty (by decide +kernel)
    · cases hfailed
      exact herrno rfl

end ComSA.Ac
