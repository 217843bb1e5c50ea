import Mathlib.Data.List.Infix

/-!
# Buffers and the strings in them

A buffer has a fixed number of cells, and a write that leaves it fails. A string in it ends at the first NUL.
-/

namespace ComSA

structure CString {α : Type*} (nul : α) where
  chars : List α
  nulFree : nul ∉ chars

instance {α : Type*} [DecidableEq α] {nul : α} : DecidableEq (CString nul) := fun s t =>
  decidable_of_iff (s.chars = t.chars) ⟨fun h => by cases s; cases t; cases h; rfl, fun h => by rw [h]⟩

namespace Buffer

variable {α : Type*} {b b' s data rest : List α} {pos : Nat}

/-- Writes the data from a cell on, with `none` where it leaves the buffer. -/
def store (pos : Nat) (data b : List α) : Option (List α) :=
  if pos + data.length ≤ b.length then some (b.take pos ++ data ++ b.drop (pos + data.length)) else none

/-- The first cells, with `none` where there are not as many. -/
def read (n : Nat) (b : List α) : Option (List α) := if n ≤ b.length then some (b.take n) else none

theorem read_append (h : s.length = pos) : read pos (s ++ rest) = some s := by
  subst h
  unfold read
  rw [if_pos (by simp)]
  simp

theorem store_eq_some (h : pos + data.length ≤ b.length) :
    store pos data b = some (b.take pos ++ data ++ b.drop (pos + data.length)) := by
  unfold store
  exact if_pos h

theorem store_append (written : List α) (h : data.length ≤ rest.length) :
    store written.length data (written ++ rest) = some (written ++ data ++ rest.drop data.length) := by
  rw [store_eq_some (by simp; omega)]
  simp

theorem store_replicate (written : List α) {n : Nat} {x : α} (h : data.length ≤ n) :
    store written.length data (written ++ List.replicate n x) =
      some (written ++ data ++ List.replicate (n - data.length) x) := by
  rw [store_append _ (by simpa using h), List.drop_replicate]

theorem store_replace (written old rest : List α) (h : old.length = data.length) :
    store written.length data (written ++ old ++ rest) = some (written ++ data ++ rest) := by
  rw [List.append_assoc, store_append _ (by simp [h]), ← h, List.drop_left]

variable [DecidableEq α] {nul : α}

/-- The string at the start of the buffer, with `none` where no NUL ends it. -/
def string (nul : α) (b : List α) : Option (List α) :=
  if nul ∈ b then some (b.takeWhile fun c => c ≠ nul) else none

theorem string_append (hs : nul ∉ s) : string nul (s ++ nul :: rest) = some s := by
  have htake : ∀ c ∈ s, decide (c ≠ nul) = true := by
    intro c hc
    simp only [decide_eq_true_eq]
    rintro rfl
    exact hs hc
  unfold string
  rw [if_pos (by simp), List.takeWhile_append_of_pos htake]
  simp

def ofString (nul : α) (s : CString nul) : List α := s.chars ++ [nul]

@[simp] theorem string_ofString (s : CString nul) : string nul (ofString nul s) = some s.chars :=
    string_append s.nulFree

end Buffer

end ComSA
