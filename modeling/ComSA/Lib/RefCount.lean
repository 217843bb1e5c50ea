import ComSA.Lib.Ownership
import Mathlib.Logic.Function.Basic

/-!
# Objects that count their references

An object begins with the one reference of who created it, and is deleted when the last reference is released. As
long as every holder has taken a reference of its own, it is deleted once, when there is no holder any more.
-/

namespace ComSA

structure RefCounts (α : Type*) where
  heap : Heap α
  refCounter : α → Int

namespace RefCounts

variable {α : Type*} [DecidableEq α]

def empty : RefCounts α := ⟨.empty, fun _ => 0⟩

def create (a : α) (s : RefCounts α) : RefCounts α :=
  ⟨s.heap.allocate a, Function.update s.refCounter a 1⟩

def addRef (a : α) (s : RefCounts α) : Option (RefCounts α) :=
  if a ∈ s.heap.live then some { s with refCounter := Function.update s.refCounter a (s.refCounter a + 1) }
    else none

def releaseRef (a : α) (s : RefCounts α) : Option (RefCounts α) :=
  if a ∈ s.heap.live then
    let refCounter := Function.update s.refCounter a (s.refCounter a - 1)
    if s.refCounter a - 1 = 0 then (s.heap.free a).map fun heap => ⟨heap, refCounter⟩ else some ⟨s.heap, refCounter⟩
  else none

structure Held (s : RefCounts α) (holders : List α) : Prop where
  nodup : s.heap.blocks.Nodup
  live_iff : ∀ a, a ∈ s.heap.live ↔ a ∈ holders
  count : ∀ a, a ∈ s.heap.live → s.refCounter a = holders.count a

section
variable {s : RefCounts α} {holders holders' : List α} {a : α}

theorem held_empty : (empty : RefCounts α).Held [] :=
  ⟨List.nodup_nil, fun _ => Iff.rfl, fun _ h => by cases h⟩

theorem Held.perm (h : s.Held holders) (hperm : holders.Perm holders') : s.Held holders' :=
  ⟨h.nodup, fun a => (h.live_iff a).trans hperm.mem_iff, fun a ha => by rw [h.count a ha, hperm.count_eq]⟩

theorem Held.mem_freed_iff (h : s.Held holders) : a ∈ s.heap.freed ↔ a ∈ s.heap.blocks ∧ a ∉ holders := by
  rw [← h.live_iff, Heap.blocks, List.mem_append]
  constructor
  · intro hfreed
    exact ⟨.inr hfreed, fun hlive => Heap.not_mem_freed h.nodup hlive hfreed⟩
  · rintro ⟨hblocks, hlive⟩
    exact hblocks.resolve_left hlive

theorem Held.create (h : s.Held holders) (hfresh : a ∉ s.heap.blocks) : (s.create a).Held (a :: holders) := by
  have hnone : a ∉ holders := fun hmem => hfresh (List.mem_append_left _ ((h.live_iff a).mpr hmem))
  refine ⟨List.nodup_cons.mpr ⟨hfresh, h.nodup⟩, fun b => ?_, fun b hb => ?_⟩
  · unfold RefCounts.create
    rw [Heap.allocate_live, List.mem_cons, List.mem_cons, h.live_iff]
  · unfold RefCounts.create
    dsimp only
    by_cases hba : b = a
    · subst hba
      rw [Function.update_self, List.count_cons_self, List.count_eq_zero_of_not_mem hnone]
      rfl
    · have hlive : b ∈ s.heap.live := (List.mem_cons.mp hb).resolve_left hba
      rw [Function.update_of_ne hba, List.count_cons_of_ne (Ne.symm hba), h.count b hlive]

theorem Held.addRef (h : s.Held holders) (ha : a ∈ holders) :
    ∃ s', s.addRef a = some s' ∧ s'.Held (a :: holders) ∧ s'.heap = s.heap := by
  have hlive := (h.live_iff a).mpr ha
  refine ⟨_, if_pos hlive, ⟨h.nodup, fun b => ?_, fun b hb => ?_⟩, rfl⟩
  · dsimp only
    rw [List.mem_cons, h.live_iff]
    exact ⟨.inr, fun hb => hb.elim (fun hba => hba ▸ ha) id⟩
  · dsimp only at hb ⊢
    by_cases hba : b = a
    · subst hba
      rw [Function.update_self, List.count_cons_self, h.count b hb]
      omega
    · rw [Function.update_of_ne hba, List.count_cons_of_ne (Ne.symm hba), h.count b hb]

theorem Held.releaseRef (h : s.Held (a :: holders)) :
    ∃ s', s.releaseRef a = some s' ∧ s'.Held holders ∧ s'.heap.blocks.Perm s.heap.blocks := by
  have hlive := (h.live_iff a).mpr List.mem_cons_self
  have hcount := h.count a hlive
  rw [List.count_cons_self] at hcount
  have hothers : ∀ b, b ∈ s.heap.live → b ≠ a → s.refCounter b = holders.count b := by
    intro b hb hba
    rw [h.count b hb, List.count_cons_of_ne (Ne.symm hba)]
  unfold RefCounts.releaseRef
  rw [if_pos hlive]
  dsimp only
  split <;> rename_i hzero
  · -- the last reference
    have hnone : a ∉ holders := List.count_eq_zero.mp (by omega)
    have hfree := Heap.free_of_mem hlive
    have hblocks := Heap.blocks_free hfree
    have hnodup := hblocks.nodup_iff.mpr h.nodup
    have hlives : ∀ b, b ∈ s.heap.live.erase a ↔ b ≠ a ∧ b ∈ s.heap.live := fun b =>
      (List.nodup_append.mp h.nodup).1.mem_erase_iff
    refine ⟨_, by rw [hfree]; rfl, ⟨hnodup, fun b => ?_, fun b hb => ?_⟩, hblocks⟩
    · dsimp only
      rw [hlives, h.live_iff, List.mem_cons]
      exact ⟨fun hb => hb.2.resolve_left hb.1, fun hb => ⟨fun hba => hnone (hba ▸ hb), .inr hb⟩⟩
    · obtain ⟨hba, hb⟩ := (hlives b).mp hb
      dsimp only
      rw [Function.update_of_ne hba, hothers b hb hba]
  · have hmem : a ∈ holders := List.count_pos_iff.mp (by omega)
    refine ⟨_, rfl, ⟨h.nodup, fun b => ?_, fun b hb => ?_⟩, List.Perm.refl _⟩
    · dsimp only
      rw [h.live_iff, List.mem_cons]
      exact ⟨fun hb => hb.elim (fun hba => hba ▸ hmem) id, .inr⟩
    · dsimp only at hb ⊢
      by_cases hba : b = a
      · subst hba
        rw [Function.update_self]
        omega
      · rw [Function.update_of_ne hba, hothers b hb hba]

end

end RefCounts

end ComSA
