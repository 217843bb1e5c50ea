import Mathlib.Logic.Function.Basic

/-!
# Programs that call a component

A program that makes calls of a component, and goes on with the answers. What it does follows from what the
component does at each call: an invariant is kept, and of two components that answer alike it makes the same.
-/

namespace ComSA

inductive Program (Call : Type) (Answer : Call → Type) (α : Type) where
  | ret (a : α)
  | call (c : Call) (next : Answer c → Program Call Answer α)

/-- A component answers a call and goes to its next state, or it fails. -/
abbrev Component (Call : Type) (Answer : Call → Type) (σ : Type) := (c : Call) → σ → Option (Answer c × σ)

namespace Program

variable {Call : Type} {Answer : Call → Type} {α β σ τ : Type}

def bind : Program Call Answer α → (α → Program Call Answer β) → Program Call Answer β
  | ret a, f => f a
  | call c next, f => call c fun answer => (next answer).bind f

instance : Monad (Program Call Answer) where
  pure := ret
  bind := bind

def ask (c : Call) : Program Call Answer (Answer c) := call c ret

def run (component : Component Call Answer σ) : Program Call Answer α → σ → Option (α × σ)
  | ret a, s => some (a, s)
  | call c next, s => (component c s).bind fun x => (next x.1).run component x.2

def Makes (component : Component Call Answer σ) (kind : Call → σ → Prop) : Program Call Answer α → σ → Prop
  | ret _, _ => False
  | call c next, s => kind c s ∨ ∃ x, component c s = some x ∧ (next x.1).Makes component kind x.2

instance decidableMakes (component : Component Call Answer σ) (kind : Call → σ → Prop)
    [∀ c s, Decidable (kind c s)] : (p : Program Call Answer α) → (s : σ) → Decidable (p.Makes component kind s)
  | ret _, _ => .isFalse not_false
  | call c next, s =>
    match hcall : component c s with
    | none => decidable_of_iff (kind c s) (by simp [Makes, hcall])
    | some x =>
      have := decidableMakes component kind (next x.1) x.2
      decidable_of_iff (kind c s ∨ (next x.1).Makes component kind x.2) (by simp [Makes, hcall])

section
variable {component : Component Call Answer σ} {kind : Call → σ → Prop} {Inv : σ → Prop}

/-- By induction on the program: what every call keeps, the whole program keeps. -/
theorem inv_run (hinv : ∀ c s x, Inv s → component c s = some x → Inv x.2) {p : Program Call Answer α} {s : σ}
    (h : Inv s) {y : α × σ} (hrun : p.run component s = some y) : Inv y.2 := by
  induction p generalizing s with
  | ret a =>
    cases hrun
    exact h
  | call c next ih =>
    obtain ⟨x, hx, hnext⟩ := Option.bind_eq_some_iff.mp hrun
    exact ih x.1 (hinv c s x h hx) hnext

theorem run_eq_none (hinv : ∀ c s x, Inv s → component c s = some x → Inv x.2)
    (hfail : ∀ c s, Inv s → kind c s → component c s = none) {p : Program Call Answer α} {s : σ} (h : Inv s)
    (hmakes : p.Makes component kind s) : p.run component s = none := by
  induction p generalizing s with
  | ret a => exact absurd hmakes id
  | call c next ih =>
    rw [run]
    rcases hmakes with hkind | ⟨x, hx, hnext⟩
    · rw [hfail c s h hkind]
      rfl
    · rw [hx]
      exact ih x.1 (hinv c s x h hx) hnext

/-- Where a map takes each answer of one component to the answer of another one, it takes the runs to each
other as well, as long as no other call is made. -/
theorem run_map {component' : Component Call Answer τ} {f : σ → τ}
    (hinv : ∀ c s x, Inv s → component c s = some x → Inv x.2)
    (hmap : ∀ c s, Inv s → ¬ kind c s → component' c (f s) = (component c s).map (Prod.map id f))
    {p : Program Call Answer α} {s : σ} (h : Inv s) (hmakes : ¬ p.Makes component kind s) :
    p.run component' (f s) = (p.run component s).map (Prod.map id f) := by
  induction p generalizing s with
  | ret a => rfl
  | call c next ih =>
    obtain ⟨hkind, hnext⟩ := not_or.mp hmakes
    rw [run, run, hmap c s h hkind]
    cases hx : component c s with
    | none => rfl
    | some x => exact ih x.1 (hinv c s x h hx) fun hlater => hnext ⟨x, hx, hlater⟩

end

end Program

end ComSA
