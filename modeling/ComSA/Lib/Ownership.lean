import ComSA.Lib.PartialFold
import Mathlib.Data.List.Perm.Basic
import Mathlib.Data.List.Nodup

/-!
# Blocks that are allocated and freed

A heap knows the blocks that are live and those that were freed, in order. Only a live block can be freed, so a run
of such steps frees no block twice.
-/

namespace ComSA

theorem owners_disjoint {α β : Type*} {f : β → List α} {front back : List β} {x : β}
    (h : ((front ++ x :: back).flatMap f).Nodup) {y : β} (hy : y ∈ front ++ back) {a b : α} (ha : a ∈ f x)
    (hb : b ∈ f y) : a ≠ b := by
  have hperm : ((front ++ x :: back).flatMap f).Perm ((x :: (front ++ back)).flatMap f) :=
    List.perm_middle.flatMap_right f
  rw [hperm.nodup_iff, List.flatMap_cons] at h
  exact (List.nodup_append.mp h).2.2 a ha b (List.mem_flatMap.mpr ⟨y, hy, hb⟩)

theorem owners_nodup {α β : Type*} {f : β → List α} {g : β → α} (hg : ∀ x, g x ∈ f x) {l : List β}
    (h : (l.flatMap f).Nodup) : (l.map g).Nodup := by
  induction l with
  | nil => exact List.nodup_nil
  | cons x l ih =>
    rw [List.flatMap_cons] at h
    obtain ⟨-, hl, hdisjoint⟩ := List.nodup_append.mp h
    refine List.nodup_cons.mpr ⟨fun hx => ?_, ih hl⟩
    obtain ⟨y, hy, heq⟩ := List.mem_map.mp hx
    exact hdisjoint _ (hg x) _ (List.mem_flatMap.mpr ⟨y, hy, hg y⟩) heq.symm

structure Heap (α : Type*) where
  live : List α
  freed : List α
  deriving DecidableEq, Repr

namespace Heap

variable {α : Type*}

def empty : Heap α := ⟨[], []⟩

def allocate (a : α) (h : Heap α) : Heap α := { h with live := a :: h.live }

def blocks (h : Heap α) : List α := h.live ++ h.freed

@[simp] theorem blocks_empty : (empty : Heap α).blocks = [] := rfl

@[simp] theorem allocate_live (a : α) (h : Heap α) : (h.allocate a).live = a :: h.live := rfl

@[simp] theorem allocate_freed (a : α) (h : Heap α) : (h.allocate a).freed = h.freed := rfl

@[simp] theorem blocks_allocate (a : α) (h : Heap α) : (h.allocate a).blocks = a :: h.blocks := rfl

theorem not_mem_freed {h : Heap α} (hnodup : h.blocks.Nodup) {a : α} (ha : a ∈ h.live) : a ∉ h.freed :=
  fun hfreed => (List.nodup_append.mp hnodup).2.2 a ha a hfreed rfl

theorem freed_perm_iff {h : Heap α} {all : List α} (hblocks : h.blocks.Perm all) :
    h.freed.Perm all ↔ h.live = [] := by
  constructor
  · intro hfreed
    have hlength := hblocks.length_eq.trans hfreed.length_eq.symm
    rw [blocks, List.length_append] at hlength
    apply List.eq_nil_of_length_eq_zero
    omega
  · intro hlive
    rwa [blocks, hlive, List.nil_append] at hblocks

variable [DecidableEq α]

def free (a : α) (h : Heap α) : Option (Heap α) :=
  if a ∈ h.live then some ⟨h.live.erase a, h.freed ++ [a]⟩ else none

def freeAll (as : List α) (h : Heap α) : Option (Heap α) := as.foldlM (fun h a => h.free a) h

section
variable {h h' : Heap α} {a b : α} {as : List α}

theorem free_of_mem (ha : a ∈ h.live) : h.free a = some ⟨h.live.erase a, h.freed ++ [a]⟩ := if_pos ha

theorem free_of_not_mem (ha : a ∉ h.live) : h.free a = none := if_neg ha

theorem free_eq_some_iff : h.free a = some h' ↔ a ∈ h.live ∧ h' = ⟨h.live.erase a, h.freed ++ [a]⟩ := by
  unfold free
  split <;> simp_all [eq_comm]

theorem free_allocate (a : α) (h : Heap α) : (h.allocate a).free a = some ⟨h.live, h.freed ++ [a]⟩ := by
  rw [free_of_mem List.mem_cons_self, allocate_live, List.erase_cons_head]
  rfl

theorem blocks_free (hfree : h.free a = some h') : h'.blocks.Perm h.blocks := by
  obtain ⟨ha, rfl⟩ := free_eq_some_iff.mp hfree
  have hmove : (h.live.erase a ++ h.freed ++ [a]).Perm (a :: (h.live.erase a ++ h.freed)) :=
    List.perm_append_singleton ..
  have hback : (a :: (h.live.erase a ++ h.freed)).Perm (h.live ++ h.freed) :=
    (List.perm_cons_erase ha).symm.append_right _
  unfold blocks
  rw [← List.append_assoc]
  exact hmove.trans hback

theorem freeAll_cons (a : α) (as : List α) (h : Heap α) : freeAll (a :: as) h = (h.free a).bind (freeAll as) := rfl

theorem freeAll_append (as bs : List α) (h : Heap α) : freeAll (as ++ bs) h = (freeAll as h).bind (freeAll bs) :=
  List.foldlM_append

theorem freeAll_of_perm {rest : List α} (hlive : h.live.Perm (as ++ rest)) :
    ∃ h', freeAll as h = some h' ∧ h'.live.Perm rest ∧ h'.freed = h.freed ++ as := by
  induction as generalizing h with
  | nil => exact ⟨h, rfl, hlive, (List.append_nil _).symm⟩
  | cons a as ih =>
    have ha : a ∈ h.live := hlive.mem_iff.mpr List.mem_cons_self
    have herase : (h.live.erase a).Perm (as ++ rest) := by
      rw [← List.erase_cons_head a (as ++ rest)]
      exact hlive.erase a
    obtain ⟨h', hrun, hlive', hfreed⟩ := @ih ⟨h.live.erase a, h.freed ++ [a]⟩ herase
    refine ⟨h', ?_, hlive', ?_⟩
    · rw [freeAll_cons, free_of_mem ha]
      exact hrun
    · rw [hfreed, List.append_assoc]
      rfl

end

end Heap

end ComSA
