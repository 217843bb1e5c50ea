import Mathlib.Data.List.Basic

/-!
# Queues with a wake-up pipe

Who puts an item into the queue writes a byte into a pipe, and the reader of the queue waits for the pipe. A byte may
stand for each item, or for the first item after the queue was empty.
-/

namespace ComSA

structure WakeQueue (α : Type*) where
  items : List α
  bytes : Nat
  deriving DecidableEq, Repr

namespace WakeQueue

variable {α : Type*}

def empty : WakeQueue α := ⟨[], 0⟩

/-- A byte is written only when the queue was empty. -/
def put (a : α) (q : WakeQueue α) : WakeQueue α where
  items := q.items ++ [a]
  bytes := if q.items = [] then q.bytes + 1 else q.bytes

def post (a : α) (q : WakeQueue α) : WakeQueue α := ⟨q.items ++ [a], q.bytes + 1⟩

/-- All items are taken, and one read takes at most `size` bytes. -/
def drain (size : Nat) (q : WakeQueue α) : List α × WakeQueue α := (q.items, ⟨[], q.bytes - size⟩)

def Woken (q : WakeQueue α) : Prop := q.bytes = if q.items = [] then 0 else 1

def Counted (q : WakeQueue α) : Prop := q.bytes = q.items.length

instance [DecidableEq α] (q : WakeQueue α) : Decidable q.Woken := inferInstanceAs (Decidable (_ = _))

@[simp] theorem put_items (a : α) (q : WakeQueue α) : (q.put a).items = q.items ++ [a] := rfl

@[simp] theorem post_items (a : α) (q : WakeQueue α) : (q.post a).items = q.items ++ [a] := rfl

@[simp] theorem drain_items (size : Nat) (q : WakeQueue α) : (q.drain size).2.items = [] := rfl

theorem empty_woken : (empty : WakeQueue α).Woken := rfl

/-- The reader waits exactly as long as there is nothing to do. -/
theorem Woken.bytes_pos {q : WakeQueue α} (h : q.Woken) : 0 < q.bytes ↔ q.items ≠ [] := by
  unfold Woken at h
  by_cases hitems : q.items = []
  · rw [if_pos hitems] at h
    simp [h, hitems]
  · rw [if_neg hitems] at h
    simp [h, hitems]

theorem Woken.put {q : WakeQueue α} (h : q.Woken) (a : α) : (q.put a).Woken := by
  unfold Woken at h ⊢
  rw [put_items, if_neg (List.append_ne_nil_of_right_ne_nil _ (List.cons_ne_nil a []))]
  unfold WakeQueue.put
  by_cases hitems : q.items = []
  · rw [if_pos hitems] at h ⊢
    rw [h]
  · rw [if_neg hitems] at h ⊢
    exact h

theorem Woken.drain {q : WakeQueue α} (h : q.Woken) {size : Nat} (hsize : 0 < size) : (q.drain size).2.Woken := by
  have hle : q.bytes ≤ 1 := by
    rw [h]
    split <;> omega
  show q.bytes - size = 0
  omega

theorem Counted.post {q : WakeQueue α} (h : q.Counted) (a : α) : (q.post a).Counted := by
  unfold Counted at h ⊢
  rw [post_items, List.length_append, ← h]
  rfl

end WakeQueue

end ComSA
