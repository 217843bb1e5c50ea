import Mathlib.Data.List.Basic

/-!
# Folds of steps that may fail

What a step keeps, a fold of such steps keeps; and a fold goes together with another one
where each step does.
-/

namespace ComSA

variable {σ α : Type*} {f : σ → α → Option σ} {l : List α} {I : σ → Prop}

theorem foldlM_keeps (hstep : ∀ a ∈ l, ∀ s s', I s → f s a = some s' → I s') {s s' : σ} (hs : I s)
    (h : l.foldlM f s = some s') : I s' := by
  induction l generalizing s with
  | nil =>
    obtain rfl := Option.some.inj h
    exact hs
  | cons a l ih =>
    rw [List.foldlM_cons] at h
    obtain ⟨t, ht, hrest⟩ := Option.bind_eq_some_iff.mp h
    exact ih (fun b hb => hstep b (List.mem_cons_of_mem a hb)) (hstep a List.mem_cons_self s t hs ht) hrest

theorem foldlM_reaches {P : σ → Prop} {a : α} (ha : a ∈ l)
    (hstep : ∀ b ∈ l, ∀ s s', I s → f s b = some s' → I s')
    (hreach : ∀ s s', I s → f s a = some s' → P s')
    (hkeep : ∀ b ∈ l, ∀ s s', I s → P s → f s b = some s' → P s') {s s' : σ} (hs : I s)
    (h : l.foldlM f s = some s') : P s' := by
  induction l generalizing s with
  | nil => cases ha
  | cons b l ih =>
    rw [List.foldlM_cons] at h
    obtain ⟨t, ht, hrest⟩ := Option.bind_eq_some_iff.mp h
    have hIt : I t := hstep b List.mem_cons_self s t hs ht
    have htail : ∀ c ∈ l, ∀ s s', I s → f s c = some s' → I s' := fun c hc => hstep c (List.mem_cons_of_mem b hc)
    rcases List.mem_cons.mp ha with rfl | ha
    · have hboth : ∀ c ∈ l, ∀ s s', I s ∧ P s → f s c = some s' → I s' ∧ P s' := fun c hc s s' hs hc' =>
        ⟨htail c hc s s' hs.1 hc', hkeep c (List.mem_cons_of_mem _ hc) s s' hs.1 hs.2 hc'⟩
      have hIP : I t ∧ P t := ⟨hIt, hreach s t hs ht⟩
      exact (foldlM_keeps hboth hIP hrest).2
    · exact ih ha htail (fun c hc => hkeep c (List.mem_cons_of_mem b hc)) hIt hrest

theorem foldlM_maps {τ : Type*} {g : τ → α → Option τ} {π : σ → τ}
    (hstep : ∀ a ∈ l, ∀ s s', I s → f s a = some s' → g (π s) a = some (π s') ∧ I s') {s s' : σ} (hs : I s)
    (h : l.foldlM f s = some s') : l.foldlM g (π s) = some (π s') ∧ I s' := by
  induction l generalizing s with
  | nil =>
    obtain rfl := Option.some.inj h
    exact ⟨rfl, hs⟩
  | cons a l ih =>
    rw [List.foldlM_cons] at h
    obtain ⟨t, ht, hrest⟩ := Option.bind_eq_some_iff.mp h
    obtain ⟨hgt, hIt⟩ := hstep a List.mem_cons_self s t hs ht
    rw [List.foldlM_cons, hgt]
    exact ih (fun b hb => hstep b (List.mem_cons_of_mem a hb)) hIt hrest

theorem foldlM_ends (hstep : ∀ a ∈ l, ∀ s, I s → ∃ s', f s a = some s' ∧ I s') {s : σ} (hs : I s) :
    ∃ s', l.foldlM f s = some s' ∧ I s' := by
  induction l generalizing s with
  | nil => exact ⟨s, rfl, hs⟩
  | cons a l ih =>
    obtain ⟨t, ht, hIt⟩ := hstep a List.mem_cons_self s hs
    obtain ⟨s', hs', hIs'⟩ := ih (fun b hb => hstep b (List.mem_cons_of_mem a hb)) hIt
    exact ⟨s', by rw [List.foldlM_cons, ht]; exact hs', hIs'⟩

theorem foldlM_unchanged {s : σ} (h : ∀ a ∈ l, f s a = some s) : l.foldlM f s = some s := by
  induction l with
  | nil => rfl
  | cons a l ih =>
    rw [List.foldlM_cons, h a List.mem_cons_self]
    exact ih fun b hb => h b (List.mem_cons_of_mem a hb)

theorem foldlM_eq_foldl {β : Type*} {g : σ → β → σ} {v : α → List β}
    (hf : ∀ s a s', a ∈ l → f s a = some s' → s' = (v a).foldl g s) {s s' : σ}
    (h : l.foldlM f s = some s') : s' = (l.flatMap v).foldl g s := by
  induction l generalizing s with
  | nil => exact (Option.some.inj h).symm
  | cons a l ih =>
    rw [List.foldlM_cons] at h
    obtain ⟨t, ht, hrest⟩ := Option.bind_eq_some_iff.mp h
    rw [List.flatMap_cons, List.foldl_append, ← hf s a t List.mem_cons_self ht]
    exact ih (fun s a s' ha => hf s a s' (List.mem_cons_of_mem _ ha)) hrest

/-- Where a step ends in such a state it did nothing, so that the whole fold did nothing either. -/
theorem foldlM_fixed (P : σ → Prop) (hf : ∀ s a s', f s a = some s' → P s' → s' = s) {s s' : σ}
    (h : l.foldlM f s = some s') (hs' : P s') : s' = s := by
  induction l generalizing s with
  | nil => exact (Option.some.inj h).symm
  | cons a l ih =>
    rw [List.foldlM_cons] at h
    obtain ⟨t, ht, hrest⟩ := Option.bind_eq_some_iff.mp h
    obtain rfl := ih hrest
    exact hf s a s' ht hs'

/-- The fold fails at the elements where a step does, and is the one of steps that cannot fail otherwise. -/
theorem foldlM_ite {bad : α → Prop} [DecidablePred bad] {g : σ → α → σ}
    (hf : ∀ s a, f s a = if bad a then none else some (g s a)) (s : σ) :
    l.foldlM f s = if ∃ a ∈ l, bad a then none else some (l.foldl g s) := by
  induction l generalizing s with
  | nil => simp
  | cons a l ih =>
    rw [List.foldlM_cons, hf]
    by_cases ha : bad a
    · simp [ha]
    · simp [ha, ih]

theorem foldlM_collects {β : Type*}
    {Q : List β → σ → Prop} {v : α → List β}
    (hstep : ∀ a ∈ l, ∀ past s s', I s → Q past s → f s a = some s' → I s' ∧ Q ((v a).reverse ++ past) s')
    {past : List β} {s s' : σ} (hs : I s) (hpast : Q past s) (h : l.foldlM f s = some s') :
    I s' ∧ Q ((l.flatMap v).reverse ++ past) s' := by
  induction l generalizing past s with
  | nil =>
    obtain rfl := Option.some.inj h
    exact ⟨hs, hpast⟩
  | cons a l ih =>
    rw [List.foldlM_cons] at h
    obtain ⟨t, ht, hrest⟩ := Option.bind_eq_some_iff.mp h
    obtain ⟨hIt, hQt⟩ := hstep a List.mem_cons_self past s t hs hpast ht
    rw [List.flatMap_cons, List.reverse_append, List.append_assoc]
    exact ih (fun b hb => hstep b (List.mem_cons_of_mem a hb)) hIt hQt hrest

theorem foldlM_congr {g : σ → α → Option σ} (h : ∀ a ∈ l, ∀ s, f s a = g s a) (s : σ) :
    l.foldlM f s = l.foldlM g s := by
  induction l generalizing s with
  | nil => rfl
  | cons a l ih =>
    rw [List.foldlM_cons, List.foldlM_cons, h a List.mem_cons_self]
    exact congrArg _ (funext fun t => ih (fun b hb => h b (List.mem_cons_of_mem a hb)) t)

/-- Where the whole fold comes to its end, so does the step at each element, from some state. -/
theorem exists_step_of_foldlM {a : α} (ha : a ∈ l) {s s' : σ} (h : l.foldlM f s = some s') :
    ∃ t t', f t a = some t' :=
  foldlM_reaches (I := fun _ => True) (P := fun _ => ∃ t t', f t a = some t') ha (fun _ _ _ _ _ _ => trivial)
    (fun t t' _ hstep => ⟨t, t', hstep⟩) (fun _ _ _ _ _ hdone _ => hdone) trivial h

/-- A loop that counts: what each round brings from one count to the next holds at the end. -/
theorem foldlM_range {g : σ → Nat → Option σ} {n : Nat} {P : Nat → σ → Prop}
    (hstep : ∀ i < n, ∀ s, P i s → ∃ s', g s i = some s' ∧ P (i + 1) s') {s : σ} (hs : P 0 s) :
    ∃ s', (List.range n).foldlM g s = some s' ∧ P n s' := by
  induction n with
  | zero => exact ⟨s, rfl, hs⟩
  | succ n ih =>
    obtain ⟨t, ht, hP⟩ := ih fun i hi => hstep i (by omega)
    obtain ⟨s', hs', hP'⟩ := hstep n (Nat.lt_succ_self n) t hP
    refine ⟨s', ?_, hP'⟩
    rw [List.range_succ, List.foldlM_append, ht]
    exact (bind_pure _).trans hs'

end ComSA
