import Mathlib.Data.List.Forall2

/-!
# Lists related place by place
-/

namespace ComSA

variable {α β : Type*}

theorem exists_of_mem_right {R : α → β → Prop} {l : List α} {u : List β} (h : List.Forall₂ R l u) {b : β}
    (hb : b ∈ u) : ∃ a ∈ l, R a b := by
  induction h with
  | nil => cases hb
  | cons hab _ ih =>
    rcases List.mem_cons.mp hb with rfl | hb
    · exact ⟨_, List.mem_cons_self, hab⟩
    · obtain ⟨a, ha, hR⟩ := ih hb
      exact ⟨a, List.mem_cons_of_mem _ ha, hR⟩

theorem forall₂_graph {R : α → β → Prop} {P : α → Prop} {f : α → β} {l : List α} {u : List β}
    (h : ∀ a ∈ l, ∀ b, R a b ↔ P a ∧ b = f a) : List.Forall₂ R l u ↔ (∀ a ∈ l, P a) ∧ u = l.map f := by
  induction l generalizing u with
  | nil =>
    rw [List.forall₂_nil_left_iff]
    exact (and_iff_right fun a ha => absurd ha List.not_mem_nil).symm
  | cons a l ih =>
    have htail {u : List β} := ih (u := u) fun x hx => h x (List.mem_cons_of_mem _ hx)
    rw [List.forall₂_cons_left_iff, List.forall_mem_cons, List.map_cons]
    constructor
    · rintro ⟨b, u, hab, hu, rfl⟩
      obtain ⟨hP, rfl⟩ := (h a List.mem_cons_self b).mp hab
      obtain ⟨hall, rfl⟩ := htail.mp hu
      exact ⟨⟨hP, hall⟩, rfl⟩
    · rintro ⟨⟨hP, hall⟩, rfl⟩
      exact ⟨f a, l.map f, (h a List.mem_cons_self _).mpr ⟨hP, rfl⟩, htail.mpr ⟨hall, rfl⟩, rfl⟩

/-- A relation that holds in each place where both lists go, and the second list goes no further. -/
theorem forall₂_take_iff {R : α → β → Prop} {l : List α} {l' : List β} :
    List.Forall₂ R (l.take l'.length) l' ↔ l'.length ≤ l.length ∧ ∀ p ∈ l.zip l', R p.1 p.2 := by
  induction l' generalizing l with
  | nil => simp
  | cons b l' ih =>
    cases l with
    | nil => simp
    | cons a l => simp [ih, and_left_comm]

theorem exists_forall₂_iff {R : α → β → Prop} {l : List α} : (∃ u, List.Forall₂ R l u) ↔ ∀ a ∈ l, ∃ b, R a b := by
  constructor
  · rintro ⟨u, h⟩ a ha
    obtain ⟨b, -, hR⟩ := exists_of_mem_right h.flip ha
    exact ⟨b, hR⟩
  · intro h
    induction l with
    | nil => exact ⟨[], .nil⟩
    | cons a l ih =>
      obtain ⟨b, hR⟩ := h a List.mem_cons_self
      obtain ⟨u, hRs⟩ := ih fun x hx => h x (List.mem_cons_of_mem a hx)
      exact ⟨b :: u, .cons hR hRs⟩

theorem forall₂_comp_iff {γ : Type*} {R : α → β → Prop} {S : β → γ → Prop} {l : List α} {u : List γ} :
    List.Forall₂ (fun a c => ∃ b, R a b ∧ S b c) l u ↔ ∃ m, List.Forall₂ R l m ∧ List.Forall₂ S m u := by
  constructor
  · intro h
    induction h with
    | nil => exact ⟨[], .nil, .nil⟩
    | cons hac _ ih =>
      obtain ⟨b, hR, hS⟩ := hac
      obtain ⟨m, hRs, hSs⟩ := ih
      exact ⟨b :: m, .cons hR hRs, .cons hS hSs⟩
  · rintro ⟨m, hR, hS⟩
    induction hR generalizing u with
    | nil =>
      cases hS
      exact .nil
    | cons hab _ ih =>
      cases hS with
      | cons hbc hS => exact .cons ⟨_, hab, hbc⟩ (ih hS)

theorem mapM_ne_none_iff {f : α → Option β} {l : List α} :
    l.mapM f ≠ none ↔ ∀ a ∈ l, f a ≠ none := by
  induction l with
  | nil => simp
  | cons a l ih =>
    rw [List.mapM_cons, List.forall_mem_cons, ← ih]
    cases f a <;> cases l.mapM f <;> simp

theorem forall₂_of_mapM {f : α → Option β} {l : List α} {l' : List β} (h : l.mapM f = some l') :
    List.Forall₂ (fun a b => f a = some b) l l' := by
  induction l generalizing l' with
  | nil =>
    obtain rfl := Option.some.inj h
    exact .nil
  | cons a l ih =>
    rw [List.mapM_cons] at h
    obtain ⟨b, ha, h⟩ := Option.bind_eq_some_iff.mp h
    obtain ⟨l', hl, h⟩ := Option.bind_eq_some_iff.mp h
    obtain rfl := Option.some.inj h
    exact .cons ha (ih hl)

theorem mapM_eq_some_iff {f : α → Option β} {l : List α} {u : List β} :
    l.mapM f = some u ↔ List.Forall₂ (fun a b => f a = some b) l u := by
  refine ⟨forall₂_of_mapM, fun h => ?_⟩
  induction h with
  | nil => rfl
  | cons hab _ ih =>
    rw [List.mapM_cons, hab, ih]
    rfl

theorem forall₂_iff_of_forall₂ {A : α → β → Prop} {B : β → α → Prop} {C : α → Prop} {l : List α}
    {u : List β} (h : List.Forall₂ A l u) (hiff : ∀ a ∈ l, ∀ b, A a b → (B b a ↔ C a)) :
    List.Forall₂ B u l ↔ ∀ a ∈ l, C a := by
  induction h with
  | nil => simp
  | cons hab _ ih =>
    rw [List.forall₂_cons, List.forall_mem_cons, hiff _ List.mem_cons_self _ hab,
      ih fun a ha => hiff a (List.mem_cons_of_mem _ ha)]

theorem forall₂_replicate {R : α → β → Prop} {l : List α} {b : β} (h : ∀ a ∈ l, R a b) :
    List.Forall₂ R l (List.replicate l.length b) := by
  induction l with
  | nil => exact .nil
  | cons a l ih => exact .cons (h a List.mem_cons_self) (ih fun a' ha' => h a' (List.mem_cons_of_mem a ha'))

theorem forall₂_flatMap {γ : Type*} {R : β → γ → Prop} {f : α → List β} {g : α → List γ} {l : List α}
    (h : ∀ a ∈ l, List.Forall₂ R (f a) (g a)) : List.Forall₂ R (l.flatMap f) (l.flatMap g) := by
  induction l with
  | nil => exact .nil
  | cons a l ih =>
    rw [List.flatMap_cons, List.flatMap_cons]
    exact List.rel_append (h a List.mem_cons_self) (ih fun a' ha' => h a' (List.mem_cons_of_mem a ha'))

end ComSA
