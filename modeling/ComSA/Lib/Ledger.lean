import ComSA.Lib.Run
import Mathlib.Data.List.Count

/-!
# Ledgers of runs

What comes into a system at its steps and what leaves it are two lists for the whole run. What is in the system
is the difference, counted or in order.
-/

namespace ComSA

variable {σ ι α : Type*}

def gathered (step : σ → ι → σ) (f : σ → ι → List α) : σ → List ι → List α
  | _, [] => []
  | s, i :: is => f s i ++ gathered step f (step s i) is

theorem gathered_const (step : σ → ι → σ) (f : ι → List α) (s : σ) (is : List ι) :
    gathered step (fun _ i => f i) s is = is.flatMap f := by
  induction is generalizing s with
  | nil => rfl
  | cons i is ih => rw [gathered, ih, List.flatMap_cons]

section
variable {step : σ → ι → σ} {ok : σ → ι → Prop} {I : σ → Prop} {into out : σ → ι → List α}

theorem gathered_count [DecidableEq α] (into : σ → ι → List α) {owed : σ → α → Nat}
    (hstep : ∀ s i, I s → ok s i →
      I (step s i) ∧ ∀ a, owed (step s i) a + (out s i).count a = owed s a + (into s i).count a)
    {s : σ} (hs : I s) {is : List ι} (h : Along step ok s is) (a : α) :
    owed (is.foldl step s) a + (gathered step out s is).count a =
      owed s a + (gathered step into s is).count a := by
  induction is generalizing s with
  | nil => rfl
  | cons i is ih =>
    obtain ⟨hI, hbalance⟩ := hstep s i hs h.1
    have hrest := ih hI h.2
    rw [List.foldl_cons, gathered, gathered, List.count_append, List.count_append]
    have := hbalance a
    omega

theorem gathered_line (line : σ → List α)
    (hstep : ∀ s i, I s → ok s i → I (step s i) ∧ out s i ++ line (step s i) = line s ++ into s i) {s : σ}
    (hs : I s) {is : List ι} (h : Along step ok s is) :
    gathered step out s is ++ line (is.foldl step s) = line s ++ gathered step into s is := by
  induction is generalizing s with
  | nil => rw [gathered, gathered, List.nil_append, List.append_nil, List.foldl_nil]
  | cons i is ih =>
    obtain ⟨hI, hline⟩ := hstep s i hs h.1
    rw [List.foldl_cons, gathered, gathered, List.append_assoc, ih hI h.2, ← List.append_assoc, hline,
      List.append_assoc]

theorem throughout_of_last (hstep : ∀ s i, I (step s i) → I s) {s : σ} {is : List ι} (h : I (is.foldl step s)) :
    Throughout step I s is := by
  induction is generalizing s with
  | nil => exact h
  | cons i is ih =>
    have hrest := ih h
    exact ⟨hstep s i hrest.head, hrest⟩

theorem Along.and_next (hstep : ∀ s i, I (step s i) → I s) {s : σ} {is : List ι} (h : Along step ok s is)
    (hlast : I (is.foldl step s)) : Along step (fun s i => ok s i ∧ I (step s i)) s is := by
  induction is generalizing s with
  | nil => trivial
  | cons i is ih => exact ⟨⟨h.1, (throughout_of_last hstep hlast).2.head⟩, ih h.2 hlast⟩

end

end ComSA
