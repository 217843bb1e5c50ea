import ComSA.Lib.Ledger
import ComSA.Lib.WakeQueue

/-!
# The stream of internal messages

The event handler pushes messages and the thread of the PM consumer pops all of them, as in
`pmt_sa/src/PmInternalMessageStream.cxx`. Each message comes with a byte in a pipe, and `pop` reads the bytes with
reads that wait when the pipe is empty.
-/

namespace ComSA.PmtSa

def readSize : Nat := 126

/-- The loop of `clear`, `none` when a read waits. It ends with a read that does not fill the buffer. -/
def clearLoop : Nat → Nat → Option Nat
  | 0, _ => none
  | fuel + 1, bytes =>
    if bytes = 0 then none
    else if bytes < readSize then some 0
    else clearLoop fuel (bytes - readSize)

def clear (bytes : Nat) : Option Nat := clearLoop (bytes + 1) bytes

theorem clearLoop_eq {fuel bytes : Nat} (h : bytes < fuel) :
    clearLoop fuel bytes = if bytes % readSize = 0 then none else some 0 := by
  induction fuel generalizing bytes with
  | zero => omega
  | succ fuel ih =>
    rw [clearLoop]
    by_cases hempty : bytes = 0
    · rw [if_pos hempty, if_pos (by rw [hempty]; rfl)]
    · rw [if_neg hempty]
      by_cases hlast : bytes < readSize
      · rw [if_pos hlast, if_neg (by rw [Nat.mod_eq_of_lt hlast]; exact hempty)]
      · have hsize : readSize ≤ bytes := Nat.le_of_not_lt hlast
        rw [if_neg hlast, ih (by unfold readSize at *; omega), ← Nat.mod_eq_sub_mod hsize]

theorem clear_eq (bytes : Nat) : clear bytes = if bytes % readSize = 0 then none else some 0 :=
  clearLoop_eq (Nat.lt_succ_self bytes)

/-- The messages and the pipe, which takes a number of bytes. -/
structure PmInternalMessageStream (α : Type*) where
  m_messages : WakeQueue α := .empty
  blocked : Bool := false
  deriving DecidableEq

namespace PmInternalMessageStream

variable {α : Type*}

def push (capacity : Nat) (message : α) (s : PmInternalMessageStream α) : PmInternalMessageStream α :=
  if s.blocked then s
  else if s.m_messages.bytes < capacity then { s with m_messages := s.m_messages.post message }
  else { m_messages := ⟨s.m_messages.items ++ [message], s.m_messages.bytes⟩, blocked := true }

def pop (s : PmInternalMessageStream α) : List α × PmInternalMessageStream α :=
  if s.blocked then ([], s)
  else if s.m_messages.items.isEmpty then ([], s)
  else
    match clear s.m_messages.bytes with
    | some bytes => (s.m_messages.items, { m_messages := ⟨[], bytes⟩ })
    | none => ([], { m_messages := ⟨[], 0⟩, blocked := true })

end PmInternalMessageStream

/-! ## Runs -/

inductive StreamCall (α : Type*) where
  | push (message : α)
  | pop

namespace PmInternalMessageStream

variable {α : Type*}

def step (capacity : Nat) (s : PmInternalMessageStream α) : StreamCall α → PmInternalMessageStream α
  | .push message => s.push capacity message
  | .pop => s.pop.2

def pushed : PmInternalMessageStream α → StreamCall α → List α
  | _, .push message => [message]
  | _, .pop => []

def popped (s : PmInternalMessageStream α) : StreamCall α → List α
  | .push _ => []
  | .pop => s.pop.1

/-- There is room for another byte, and the waiting messages are not as many as fill the buffer of the reads. -/
def Passes (capacity : Nat) (s : PmInternalMessageStream α) : StreamCall α → Prop
  | .push _ => s.m_messages.items.length < capacity
  | .pop => s.m_messages.items ≠ [] → s.m_messages.items.length % readSize ≠ 0

instance (capacity : Nat) (s : PmInternalMessageStream α) : (c : StreamCall α) → Decidable (Passes capacity s c)
  | .push _ => inferInstanceAs (Decidable (_ < _))
  | .pop =>
    match hitems : s.m_messages.items with
    | [] => .isTrue fun h => absurd hitems h
    | _ :: _ => decidable_of_iff (s.m_messages.items.length % readSize ≠ 0)
        ⟨fun h _ => h, fun h => h (by rw [hitems]; exact List.cons_ne_nil _ _)⟩

def Open (s : PmInternalMessageStream α) : Prop := s.blocked = false ∧ s.m_messages.Counted

variable {capacity : Nat}

theorem push_of_room {s : PmInternalMessageStream α} (h : s.Open) {message : α}
    (hroom : s.Passes capacity (.push message)) :
    s.push capacity message = { m_messages := s.m_messages.post message } := by
  have hbytes : s.m_messages.bytes < capacity := lt_of_eq_of_lt h.2 hroom
  unfold push
  rw [h.1, if_neg Bool.false_ne_true, if_pos hbytes]

theorem push_of_full {s : PmInternalMessageStream α} (h : s.Open) {message : α}
    (hfull : ¬ s.Passes capacity (.push message)) : (s.push capacity message).blocked = true := by
  have hbytes : ¬ s.m_messages.bytes < capacity := fun hlt => hfull (lt_of_eq_of_lt h.2.symm hlt)
  unfold push
  rw [h.1, if_neg Bool.false_ne_true, if_neg hbytes]

theorem pop_of_passes {s : PmInternalMessageStream α} (h : s.Open) (hpasses : s.Passes capacity .pop) :
    s.pop = (s.m_messages.items, {}) := by
  obtain ⟨⟨items, bytes⟩, blocked⟩ := s
  obtain ⟨rfl, hbytes⟩ := h
  have hcount : bytes = items.length := hbytes
  cases items with
  | nil =>
    rw [hcount]
    rfl
  | cons a rest =>
    have hpart : ¬ bytes % readSize = 0 := hcount ▸ hpasses (List.cons_ne_nil a rest)
    unfold pop
    dsimp only
    rw [if_neg Bool.false_ne_true, if_neg (by simp), clear_eq, if_neg hpart]
    rfl

theorem pop_of_filled {s : PmInternalMessageStream α} (h : s.Open) (hfilled : ¬ s.Passes capacity .pop) :
    s.pop.2.blocked = true := by
  obtain ⟨hitems, hlength⟩ := Classical.not_imp.mp hfilled
  have hfull : s.m_messages.bytes % readSize = 0 := by
    rw [h.2]
    exact not_not.mp hlength
  unfold pop
  rw [h.1, if_neg Bool.false_ne_true, if_neg (by simpa using hitems), clear_eq, if_pos hfull]

theorem step_open {s : PmInternalMessageStream α} (h : s.Open) {c : StreamCall α} (hpasses : s.Passes capacity c) :
    (s.step capacity c).Open := by
  cases c with
  | push message =>
    rw [step, push_of_room h hpasses]
    exact ⟨rfl, h.2.post message⟩
  | pop =>
    rw [step, pop_of_passes h hpasses]
    exact ⟨rfl, rfl⟩

theorem step_blocked {s : PmInternalMessageStream α} (h : s.Open) {c : StreamCall α}
    (hpasses : ¬ s.Passes capacity c) : (s.step capacity c).blocked = true := by
  cases c with
  | push message => exact push_of_full h hpasses
  | pop => exact pop_of_filled h hpasses

theorem step_line {s : PmInternalMessageStream α} (h : s.Open) {c : StreamCall α} (hpasses : s.Passes capacity c) :
    s.popped c ++ (s.step capacity c).m_messages.items = s.m_messages.items ++ s.pushed c := by
  cases c with
  | push message =>
    rw [step, push_of_room h hpasses]
    rfl
  | pop =>
    rw [popped, step, pop_of_passes h hpasses]
    rfl

/-- Nobody is left waiting at the pipe exactly when each message finds room for its byte and each `pop` finds a number
of messages that is no multiple of 126, or none; and then the messages come out as they went in. -/
theorem delivered_iff (capacity : Nat) (calls : List (StreamCall α)) :
    (Throughout (step capacity) (fun s => s.blocked = false) ({} : PmInternalMessageStream α) calls ↔
      Along (step capacity) (Passes capacity) {} calls) ∧
    (Along (step capacity) (Passes capacity) ({} : PmInternalMessageStream α) calls →
      gathered (step capacity) popped {} calls ++ (calls.foldl (step capacity) {}).m_messages.items =
        gathered (step capacity) pushed ({} : PmInternalMessageStream α) calls) := by
  have hstart : (({} : PmInternalMessageStream α)).Open := ⟨rfl, rfl⟩
  constructor
  · have hlegal : Along (step capacity) (fun _ _ => True) ({} : PmInternalMessageStream α) calls :=
      along_of_split fun _ _ _ _ => trivial
    refine throughout_iff_along_of (J := Open) (fun s h => h.1) (fun s c h _ hpasses => step_open h hpasses)
      (fun s c h _ hopen => ?_) hstart hlegal
    by_contra hpasses
    exact absurd (hopen.symm.trans (step_blocked h hpasses)) Bool.false_ne_true
  · exact gathered_line (I := Open) (fun s : PmInternalMessageStream α => s.m_messages.items)
      (fun s c h hpasses => ⟨step_open h hpasses, step_line h hpasses⟩) hstart

theorem delivered_iff_three :
    gathered (step 65536) popped {} [.push 1, .push 2, .pop, .push 3] = [1, 2] ∧
      ¬ Throughout (step 65536) (fun s => s.blocked = false) {} (List.replicate 126 (.push 0) ++ [StreamCall.pop]) := by
  have hthree := (delivered_iff 65536 [.push 1, .push 2, .pop, .push 3]).2 (by decide +kernel)
  have hin : gathered (step 65536) pushed {} [.push 1, .push 2, .pop, .push 3] = [1, 2, 3] := by decide +kernel
  have hrest : (([.push 1, .push 2, .pop, .push 3] : List (StreamCall Nat)).foldl (step 65536) {}).m_messages.items =
      [3] := by decide +kernel
  have hmany := delivered_iff 65536 (List.replicate 126 (StreamCall.push 0) ++ [StreamCall.pop])
  rw [hin, hrest] at hthree
  exact ⟨(List.append_left_inj [3]).mp hthree, fun h => absurd (hmany.1.mp h) (by decide +kernel)⟩

end PmInternalMessageStream

end ComSA.PmtSa
