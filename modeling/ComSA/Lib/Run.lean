import Mathlib.Data.List.Basic

/-!
# Runs

A system takes one call after the other. `Along` and `Throughout` speak about all
states of one run: the states its calls are made in, and the states it reaches.
-/

namespace ComSA

variable {σ ι : Type*}

def Along (step : σ → ι → σ) (ok : σ → ι → Prop) : σ → List ι → Prop
  | _, [] => True
  | s, i :: is => ok s i ∧ Along step ok (step s i) is

/-- `I` holds in every state of the run, the first one included. -/
def Throughout (step : σ → ι → σ) (I : σ → Prop) : σ → List ι → Prop
  | s, [] => I s
  | s, i :: is => I s ∧ Throughout step I (step s i) is

instance Along.decidable (step : σ → ι → σ) (ok : σ → ι → Prop) [∀ s i, Decidable (ok s i)] :
    (s : σ) → (is : List ι) → Decidable (Along step ok s is)
  | _, [] => .isTrue trivial
  | s, i :: is =>
    have := Along.decidable step ok (step s i) is
    inferInstanceAs (Decidable (ok s i ∧ Along step ok (step s i) is))

section
variable {step : σ → ι → σ} {ok : σ → ι → Prop} {I : σ → Prop}

theorem Throughout.head {s : σ} {is : List ι} (h : Throughout step I s is) : I s := by
  cases is with
  | nil => exact h
  | cons i is => exact h.1

theorem Throughout.last {s : σ} {is : List ι} (h : Throughout step I s is) :
    I (is.foldl step s) := by
  induction is generalizing s with
  | nil => exact h
  | cons i is ih => exact ih h.2

theorem Throughout.mono {J : σ → Prop} (hIJ : ∀ s, I s → J s) {s : σ} {is : List ι}
    (h : Throughout step I s is) : Throughout step J s is := by
  induction is generalizing s with
  | nil => exact hIJ s h
  | cons i is ih => exact ⟨hIJ s h.1, ih h.2⟩

theorem along_append {s : σ} {is js : List ι} :
    Along step ok s (is ++ js) ↔ Along step ok s is ∧ Along step ok (is.foldl step s) js := by
  induction is generalizing s with
  | nil => simp [Along]
  | cons i is ih => rw [List.cons_append, Along, Along, ih, List.foldl_cons, and_assoc]

theorem Along.and {ok' : σ → ι → Prop} {s : σ} {is : List ι} (h : Along step ok s is)
    (h' : Along step ok' s is) : Along step (fun s i => ok s i ∧ ok' s i) s is := by
  induction is generalizing s with
  | nil => trivial
  | cons i is ih => exact ⟨⟨h.1, h'.1⟩, ih h.2 h'.2⟩

theorem along_of_split {s : σ} {is : List ι}
    (h : ∀ before i after, is = before ++ i :: after → ok (before.foldl step s) i) :
    Along step ok s is := by
  induction is generalizing s with
  | nil => trivial
  | cons i is ih =>
    refine ⟨h [] i is rfl, ih fun before j after hsplit => ?_⟩
    rw [hsplit] at h
    exact h (i :: before) j after rfl

theorem throughout_of_along (hstep : ∀ s i, I s → ok s i → I (step s i)) {s : σ} (hs : I s)
    {is : List ι} (h : Along step ok s is) : Throughout step I s is := by
  induction is generalizing s with
  | nil => exact hs
  | cons i is ih => exact ⟨hs, ih (hstep s i hs h.1) h.2⟩

theorem throughout_iff_along (hstep : ∀ s i, I s → (I (step s i) ↔ ok s i)) {s : σ} (hs : I s)
    (is : List ι) : Throughout step I s is ↔ Along step ok s is := by
  induction is generalizing s with
  | nil => exact ⟨fun _ => trivial, fun _ => hs⟩
  | cons i is ih =>
    constructor
    · rintro ⟨_, h⟩
      exact ⟨(hstep s i hs).mp h.head, (ih h.head).mp h⟩
    · rintro ⟨hi, h⟩
      have := (hstep s i hs).mpr hi
      exact ⟨hs, (ih this).mpr h⟩

/-- The same where a state that `I` holds in may need more to go on: `J` is what good calls keep, and
a legal call after which `I` still holds was good. -/
theorem throughout_iff_along_of {J : σ → Prop} {legal : σ → ι → Prop} (hJ : ∀ s, J s → I s)
    (hgood : ∀ s i, J s → legal s i → ok s i → J (step s i))
    (hbad : ∀ s i, J s → legal s i → I (step s i) → ok s i) {s : σ} (hs : J s) {is : List ι}
    (hlegal : Along step legal s is) : Throughout step I s is ↔ Along step ok s is := by
  induction is generalizing s with
  | nil => exact ⟨fun _ => trivial, fun _ => hJ s hs⟩
  | cons i is ih =>
    constructor
    · rintro ⟨_, h⟩
      have hok := hbad s i hs hlegal.1 h.head
      exact ⟨hok, (ih (hgood s i hs hlegal.1 hok) hlegal.2).mp h⟩
    · rintro ⟨hok, h⟩
      exact ⟨hJ s hs, (ih (hgood s i hs hlegal.1 hok) hlegal.2).mpr h⟩

/-- Two ways to be good that agree where `J` holds agree about runs, when good calls keep `J`. -/
theorem along_iff_along {J : σ → Prop} {ok' : σ → ι → Prop} (hiff : ∀ s i, J s → (ok s i ↔ ok' s i))
    (hJ : ∀ s i, J s → ok' s i → J (step s i)) {s : σ} (hs : J s) (is : List ι) :
    Along step ok s is ↔ Along step ok' s is := by
  induction is generalizing s with
  | nil => exact Iff.rfl
  | cons i is ih =>
    constructor
    · rintro ⟨hi, h⟩
      have hi' := (hiff s i hs).mp hi
      exact ⟨hi', (ih (hJ s i hs hi')).mp h⟩
    · rintro ⟨hi', h⟩
      exact ⟨(hiff s i hs).mpr hi', (ih (hJ s i hs hi')).mpr h⟩

/-- Calls that are good in one way keep `J`, and where `J` holds they are good in another way too. -/
theorem along_of_along {J : σ → Prop} {ok' : σ → ι → Prop} (hstep : ∀ s i, J s → ok' s i → ok s i ∧ J (step s i))
    {s : σ} (hs : J s) {is : List ι} (h : Along step ok' s is) : Along step ok s is := by
  induction is generalizing s with
  | nil => trivial
  | cons i is ih =>
    obtain ⟨hok, hJ⟩ := hstep s i hs h.1
    exact ⟨hok, ih hJ h.2⟩

/-- An invariant of every step holds in the last state of every run. -/
theorem foldl_invariant (hstep : ∀ s i, I s → I (step s i)) {s : σ} (hs : I s) (is : List ι) :
    I (is.foldl step s) := by
  induction is generalizing s with
  | nil => exact hs
  | cons i is ih => exact ih (hstep s i hs)

/-- Good calls keep `good`, another call leads to `bad`, and `bad` stays: the last state tells whether all calls were
good. -/
theorem along_iff_last {good bad : σ → Prop} (hgood : ∀ s i, good s → ok s i → good (step s i))
    (hbad : ∀ s i, good s → ¬ ok s i → bad (step s i)) (hstay : ∀ s i, bad s → bad (step s i)) {s : σ}
    (hs : good s) {is : List ι} (hgoodI : good (is.foldl step s) → I (is.foldl step s))
    (hbadI : bad (is.foldl step s) → ¬ I (is.foldl step s)) : I (is.foldl step s) ↔ Along step ok s is := by
  induction is generalizing s with
  | nil => exact ⟨fun _ => trivial, fun _ => hgoodI hs⟩
  | cons i is ih =>
    rw [List.foldl_cons] at hgoodI hbadI ⊢
    by_cases hi : ok s i
    · rw [ih (hgood s i hs hi) hgoodI hbadI]
      exact ⟨fun h => ⟨hi, h⟩, And.right⟩
    · have hlast : bad (is.foldl step (step s i)) := foldl_invariant hstay (hbad s i hs hi) is
      exact iff_of_false (hbadI hlast) fun h => hi h.1

end

end ComSA
