import ComSA.Lib.Ownership
import Mathlib.Logic.Function.Basic

/-!
# Blocks with contents

A heap whose blocks hold something. Only a live block can be read or written.
-/

namespace ComSA

structure Memory (α γ : Type*) where
  heap : Heap α
  contents : α → Option γ

namespace Memory

variable {α γ : Type*} [DecidableEq α]

def empty : Memory α γ := ⟨Heap.empty, fun _ => none⟩

abbrev live (m : Memory α γ) : List α := m.heap.live

abbrev freed (m : Memory α γ) : List α := m.heap.freed

def load (a : α) (m : Memory α γ) : Option γ := if a ∈ m.live then m.contents a else none

def allocate (a : α) (c : γ) (m : Memory α γ) : Memory α γ :=
  ⟨m.heap.allocate a, Function.update m.contents a (some c)⟩

def store (a : α) (c : γ) (m : Memory α γ) : Option (Memory α γ) :=
  if a ∈ m.live then some { m with contents := Function.update m.contents a (some c) } else none

/-- Allocates one block after the other, each with what it holds. -/
def allocateAll (cells : List (α × γ)) (m : Memory α γ) : Memory α γ :=
  cells.foldl (fun m cell => m.allocate cell.1 cell.2) m

def free (a : α) (m : Memory α γ) : Option (Memory α γ) := (m.heap.free a).map fun heap => { m with heap }

def freeAll (as : List α) (m : Memory α γ) : Option (Memory α γ) :=
  (m.heap.freeAll as).map fun heap => { m with heap }

section
variable {m m' : Memory α γ} {a b : α} {c : γ} {as rest : List α}

@[simp] theorem live_allocate : (m.allocate a c).live = a :: m.live := rfl

@[simp] theorem freed_allocate : (m.allocate a c).freed = m.freed := rfl

@[simp] theorem load_allocate_self : (m.allocate a c).load a = some c := by
  unfold load
  rw [live_allocate, if_pos List.mem_cons_self]
  exact Function.update_self ..

theorem load_allocate_of_ne (hne : b ≠ a) : (m.allocate a c).load b = m.load b := by
  unfold load
  rw [live_allocate]
  simp [allocate, hne]

theorem load_allocateAll_of_not_mem {cells : List (α × γ)} (hb : b ∉ cells.map Prod.fst) :
    (m.allocateAll cells).load b = m.load b := by
  unfold allocateAll
  induction cells generalizing m with
  | nil => rfl
  | cons cell cells ih =>
    rw [List.map_cons, List.mem_cons, not_or] at hb
    exact (ih hb.2).trans (load_allocate_of_ne hb.1)

theorem load_allocateAll {cells : List (α × γ)} (hnodup : (cells.map Prod.fst).Nodup) {cell : α × γ}
    (hcell : cell ∈ cells) : (m.allocateAll cells).load cell.1 = some cell.2 := by
  induction cells generalizing m with
  | nil => cases hcell
  | cons first cells ih =>
    obtain ⟨hfirst, hnodup⟩ := List.nodup_cons.mp hnodup
    rcases List.mem_cons.mp hcell with rfl | hcell
    · exact (load_allocateAll_of_not_mem hfirst).trans load_allocate_self
    · exact ih hnodup hcell

theorem heap_allocateAll (cells : List (α × γ)) :
    (m.allocateAll cells).live.Perm (cells.map Prod.fst ++ m.live) ∧ (m.allocateAll cells).freed = m.freed := by
  unfold allocateAll
  induction cells generalizing m with
  | nil => exact ⟨List.Perm.refl _, rfl⟩
  | cons cell cells ih =>
    obtain ⟨hlive, hfreed⟩ := @ih (m.allocate cell.1 cell.2)
    exact ⟨hlive.trans List.perm_middle, hfreed⟩

/-- A live block can be written: it holds the new contents, and the others are as they were. -/
theorem store_of_mem (c : γ) (ha : a ∈ m.live) :
    ∃ m', m.store a c = some m' ∧ m'.heap = m.heap ∧ m'.load a = some c ∧ ∀ b ≠ a, m'.load b = m.load b := by
  refine ⟨_, if_pos ha, rfl, ?_, fun b hb => ?_⟩
  · simp [load, ha]
  · simp [load, hb]

theorem mem_live_of_load (h : m.load a = some c) : a ∈ m.live := by
  unfold load at h
  split at h
  · assumption
  · cases h

/-- Blocks that are live and different can be freed, and the others are as they were. -/
theorem freeAll_of_perm (hlive : m.live.Perm (as ++ rest)) :
    ∃ m', m.freeAll as = some m' ∧ m'.live.Perm rest ∧ m'.freed = m.freed ++ as ∧
      ∀ b ∈ rest, m'.load b = m.load b := by
  obtain ⟨heap, hfree, hrest, hfreed⟩ := Heap.freeAll_of_perm (h := m.heap) hlive
  refine ⟨{ m with heap }, by unfold freeAll; rw [hfree]; rfl, hrest, hfreed, fun b hb => ?_⟩
  have hafter : b ∈ heap.live := hrest.mem_iff.mpr hb
  have hbefore : b ∈ m.heap.live := hlive.mem_iff.mpr (List.mem_append_right as hb)
  simp [load, hafter, hbefore]

theorem free_eq_freeAll : m.free a = m.freeAll [a] := by
  unfold free freeAll
  rw [Heap.freeAll_cons]
  cases m.heap.free a <;> rfl

theorem freeAll_append (as bs : List α) : m.freeAll (as ++ bs) = (m.freeAll as).bind (freeAll bs) := by
  unfold freeAll
  rw [Heap.freeAll_append]
  cases Heap.freeAll as m.heap <;> rfl

end

end Memory

end ComSA
