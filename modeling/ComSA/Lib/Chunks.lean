import Mathlib.Data.List.Basic

/-!
# Reading by lines into a buffer

A line is read up to its end, and a line that the buffer has no room for is read in pieces.
-/

namespace ComSA

variable {α : Type*} [DecidableEq α] {c : α} {n : Nat} {s : List α}

/-- A line with its end, at most `n` long, and what is left. -/
def readLine (c : α) : Nat → List α → List α × List α
  | 0, s => ([], s)
  | _ + 1, [] => ([], [])
  | n + 1, a :: s => if a = c then ([a], s) else (a :: (readLine c n s).1, (readLine c n s).2)

/-- Reads until nothing is left. Each round takes something, so that the rounds are as many as the elements at most. -/
def readLinesFor (c : α) (n : Nat) : Nat → List α → List (List α)
  | 0, _ => []
  | _ + 1, [] => []
  | rounds + 1, a :: s =>
    (readLine c n (a :: s)).1 :: readLinesFor c n rounds (readLine c n (a :: s)).2

def readLines (c : α) (n : Nat) (s : List α) : List (List α) := readLinesFor c n s.length s

theorem readLine_append (c : α) (n : Nat) (s : List α) : (readLine c n s).1 ++ (readLine c n s).2 = s := by
  fun_induction readLine c n s <;> simp_all

/-- The reading stops before the end of a line only where the buffer is full or nothing is left. -/
theorem readLine_stops (h : c ∉ (readLine c n s).1) : (readLine c n s).1.length = n ∨ (readLine c n s).2 = [] := by
  induction n generalizing s with
  | zero => exact Or.inl rfl
  | succ n ih =>
    cases s with
    | nil => exact Or.inr rfl
    | cons a s =>
      unfold readLine at h ⊢
      split_ifs at h ⊢ with ha
      · exact absurd (List.mem_singleton.mpr ha.symm) h
      · rcases ih fun hmem => h (List.mem_cons_of_mem a hmem) with hfull | hnil
        · exact Or.inl (by simp [hfull])
        · exact Or.inr hnil

theorem readLine_shorter (hs : s ≠ []) : (readLine c (n + 1) s).2.length < s.length := by
  have happend := congrArg List.length (readLine_append c (n + 1) s)
  rw [List.length_append] at happend
  cases s with
  | nil => exact absurd rfl hs
  | cons a s =>
    unfold readLine at happend ⊢
    split_ifs at happend ⊢
    · simp
    · simp at happend ⊢
      omega

theorem readLine_line {line : List α} (h : c ∉ line) (hn : line.length < n) (s : List α) :
    readLine c n (line ++ c :: s) = (line ++ [c], s) := by
  induction line generalizing n with
  | nil =>
    obtain ⟨n, rfl⟩ := Nat.exists_eq_succ_of_ne_zero (by omega : n ≠ 0)
    simp [readLine]
  | cons a line ih =>
    rw [List.length_cons] at hn
    obtain ⟨n, rfl⟩ := Nat.exists_eq_succ_of_ne_zero (by omega : n ≠ 0)
    have ha : a ≠ c := by
      rintro rfl
      exact h List.mem_cons_self
    have hline := ih (fun hmem => h (List.mem_cons_of_mem a hmem)) (Nat.lt_of_succ_lt_succ hn)
    simp only [List.cons_append, readLine, if_neg ha, hline]

theorem readLinesFor_enough {rounds : Nat} (h : s.length ≤ rounds) :
    readLinesFor c (n + 1) rounds s = readLinesFor c (n + 1) (rounds + 1) s := by
  induction rounds generalizing s with
  | zero =>
    obtain rfl := List.length_eq_zero_iff.mp (Nat.le_zero.mp h)
    rfl
  | succ rounds ih =>
    cases s with
    | nil => rfl
    | cons a s =>
      have hless := readLine_shorter (c := c) (n := n) (List.cons_ne_nil a s)
      rw [readLinesFor, readLinesFor, ih (by rw [List.length_cons] at h hless; omega)]

theorem readLinesFor_eq {rounds : Nat} (h : s.length ≤ rounds) :
    readLinesFor c (n + 1) rounds s = readLines c (n + 1) s := by
  induction h with
  | refl => rfl
  | step h ih => rw [← readLinesFor_enough h, ih]

@[simp] theorem readLines_nil (c : α) (n : Nat) : readLines c n [] = [] := rfl

theorem readLines_of_ne_nil (hs : s ≠ []) :
    readLines c (n + 1) s = (readLine c (n + 1) s).1 :: readLines c (n + 1) (readLine c (n + 1) s).2 := by
  cases s with
  | nil => exact absurd rfl hs
  | cons a s =>
    have hless := readLine_shorter (c := c) (n := n) (List.cons_ne_nil a s)
    rw [← readLinesFor_eq (Nat.le_of_lt_succ hless)]
    rfl

/-- Induction on what is left to read. -/
theorem readLines_induction {P : List α → Prop} (c : α) (n : Nat) (hnil : P [])
    (hline : ∀ s, s ≠ [] → P (readLine c (n + 1) s).2 → P s) (s : List α) : P s := by
  by_cases hs : s = []
  · rw [hs]
    exact hnil
  · have := readLine_shorter (c := c) (n := n) hs
    exact hline s hs (readLines_induction c n hnil hline (readLine c (n + 1) s).2)
termination_by s.length

theorem flatten_readLines (c : α) (n : Nat) (s : List α) : (readLines c (n + 1) s).flatten = s := by
  induction s using readLines_induction c n with
  | hnil => rfl
  | hline s hs ih => rw [readLines_of_ne_nil hs, List.flatten_cons, ih, readLine_append]

theorem mem_readLines_short {piece : List α} (h : piece ∈ readLines c (n + 1) s) (hc : c ∉ piece)
    (hn : piece.length < n + 1) : (readLines c (n + 1) s).getLast? = some piece := by
  induction s using readLines_induction c n with
  | hnil => cases h
  | hline s hs ih =>
    rw [readLines_of_ne_nil hs] at h ⊢
    rcases List.mem_cons.mp h with rfl | h
    · rcases readLine_stops hc with hfull | hleft
      · exact absurd hfull (Nat.ne_of_lt hn)
      · rw [hleft]
        rfl
    · rw [List.getLast?_cons, ih h]
      rfl

theorem readLines_lines {ls : List (List α)} (h : ∀ l ∈ ls, c ∉ l ∧ l.length < n + 1) :
    readLines c (n + 1) (ls.flatMap fun l => l ++ [c]) = ls.map fun l => l ++ [c] := by
  induction ls with
  | nil => rfl
  | cons l ls ih =>
    have hl := h l List.mem_cons_self
    have hls := ih fun k hk => h k (List.mem_cons_of_mem l hk)
    rw [List.flatMap_cons, List.append_assoc, List.singleton_append, readLines_of_ne_nil (by simp),
      readLine_line hl.1 hl.2, hls]
    rfl

end ComSA
