import Mathlib.Algebra.GroupWithZero.Nat
import Mathlib.Data.List.Basic

/-!
# Counters that stop at zero

What is taken from such a counter is taken as far as it is there. The changes fit where each finds enough, and
then the counter is off from another one by as much as before.
-/

namespace ComSA

inductive Delta where
  | add (n : Nat)
  | take (n : Nat)
  deriving DecidableEq, Repr

namespace Delta

def apply (counter : Nat) : Delta → Nat
  | add n => counter + n
  | take n => counter - n

def applyAll (counter : Nat) (deltas : List Delta) : Nat := deltas.foldl apply counter

def Fits : Nat → List Delta → Prop
  | _, [] => True
  | counter, add n :: deltas => Fits (counter + n) deltas
  | counter, take n :: deltas => n ≤ counter ∧ Fits (counter - n) deltas

/-- Parts are taken out one after the other, and each comes back with what is gained. -/
def Exchanged : Nat → List (Nat × Nat) → Prop
  | _, [] => True
  | counter, (taken, gained) :: parts => taken ≤ counter ∧ Exchanged (counter + gained) parts

section
variable {counter k : Nat} {deltas deltas' : List Delta} {parts parts' : List (Nat × Nat)}

@[simp] theorem applyAll_nil (counter : Nat) : applyAll counter [] = counter := rfl

@[simp] theorem applyAll_cons (counter : Nat) (d : Delta) (deltas : List Delta) :
    applyAll counter (d :: deltas) = applyAll (d.apply counter) deltas := rfl

@[simp] theorem applyAll_append (counter : Nat) (deltas deltas' : List Delta) :
    applyAll counter (deltas ++ deltas') = applyAll (applyAll counter deltas) deltas' := List.foldl_append

theorem fits_append : Fits counter (deltas ++ deltas') ↔ Fits counter deltas ∧ Fits (applyAll counter deltas)
    deltas' := by
  induction deltas generalizing counter with
  | nil => simp [Fits]
  | cons d deltas ih => cases d <;> simp [Fits, ih, apply, and_assoc]

theorem Fits.add (h : Fits counter deltas) (k : Nat) :
    Fits (counter + k) deltas ∧ applyAll (counter + k) deltas = applyAll counter deltas + k := by
  induction deltas generalizing counter with
  | nil => exact ⟨trivial, rfl⟩
  | cons d deltas ih =>
    cases d with
    | add n =>
      have := ih h
      rw [Nat.add_right_comm] at this
      exact this
    | take n =>
      obtain ⟨hn, h⟩ := h
      have hmove : counter - n + k = counter + k - n := by omega
      have := ih h
      rw [hmove] at this
      exact ⟨⟨by omega, this.1⟩, this.2⟩

/-- Where a part is taken out and comes back with more, only the first matters. -/
theorem fits_exchange {taken gained : Nat} :
    Fits counter (take taken :: Delta.add (taken + gained) :: deltas) ↔
      taken ≤ counter ∧ Fits (counter + gained) deltas := by
  rw [Fits, Fits]
  refine and_congr_right fun hle => ?_
  have hmove : counter - taken + (taken + gained) = counter + gained := by omega
  rw [hmove]

theorem exchanged_append :
    Exchanged counter (parts ++ parts') ↔
      Exchanged counter parts ∧ Exchanged (counter + (parts.map Prod.snd).sum) parts' := by
  induction parts generalizing counter with
  | nil => simp [Exchanged]
  | cons x parts ih => simp [Exchanged, ih, and_assoc, Nat.add_assoc]

theorem Exchanged.mono (h : Exchanged counter parts) (hle : counter ≤ k) : Exchanged k parts := by
  induction parts generalizing counter k with
  | nil => trivial
  | cons x parts ih =>
    obtain ⟨htaken, h⟩ := h
    exact ⟨Nat.le_trans htaken hle, ih h (Nat.add_le_add_right hle _)⟩

theorem exchanged_flatMap {α : Type*} {l : List α} {f : α → List (Nat × Nat)}
    (h : ∀ x ∈ l, Exchanged counter (f x)) : Exchanged counter (l.flatMap f) := by
  induction l with
  | nil => trivial
  | cons x l ih =>
    rw [List.flatMap_cons, exchanged_append]
    refine ⟨h x List.mem_cons_self, ?_⟩
    exact (ih fun y hy => h y (List.mem_cons_of_mem x hy)).mono (Nat.le_add_right ..)

end

end Delta

end ComSA
