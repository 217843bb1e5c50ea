import Mathlib.Data.List.Basic

/-!
# Calls up to the first failure

A procedure makes one call after the other and gives up at the first one that fails, with
the answer of that call.
-/

namespace ComSA

section
variable {σ ι ε : Type*} [DecidableEq ε]

def untilFailure (ok : ε) (run : σ → ι → Option (ε × σ)) : List ι → σ → Option (ε × σ)
  | [], s => some (ok, s)
  | i :: is, s => (run s i).bind fun r => if r.1 = ok then untilFailure ok run is r.2 else some r

variable {ok : ε} {run : σ → ι → Option (ε × σ)}

@[simp] theorem untilFailure_nil (s : σ) : untilFailure ok run [] s = some (ok, s) := rfl

theorem untilFailure_cons (i : ι) (is : List ι) (s : σ) : untilFailure ok run (i :: is) s =
    (run s i).bind fun r => if r.1 = ok then untilFailure ok run is r.2 else some r := rfl

theorem untilFailure_cons_of_ok {s s' : σ} {i : ι} (h : run s i = some (ok, s')) (is : List ι) :
    untilFailure ok run (i :: is) s = untilFailure ok run is s' := by
  rw [untilFailure_cons, h, Option.bind_some, if_pos rfl]

theorem untilFailure_append (is js : List ι) (s : σ) : untilFailure ok run (is ++ js) s =
    (untilFailure ok run is s).bind fun r => if r.1 = ok then untilFailure ok run js r.2 else some r := by
  induction is generalizing s with
  | nil => rw [List.nil_append, untilFailure_nil, Option.bind_some, if_pos rfl]
  | cons i is ih =>
    rw [List.cons_append, untilFailure_cons, untilFailure_cons, Option.bind_assoc]
    congr 1
    funext r
    by_cases hr : r.1 = ok
    · rw [if_pos hr, if_pos hr, ih]
    · rw [if_neg hr, if_neg hr, Option.bind_some, if_neg hr]

/-- What every call leaves in some relation to the state before it, so do the calls together. -/
theorem untilFailure_rel {R : σ → σ → Prop} (hrefl : ∀ s, R s s) (htrans : ∀ s s' s'', R s s' → R s' s'' → R s s'')
    (hstep : ∀ s i r, run s i = some r → R s r.2) {is : List ι} {s : σ} {r : ε × σ}
    (h : untilFailure ok run is s = some r) : R s r.2 := by
  induction is generalizing s with
  | nil =>
    cases h
    exact hrefl s
  | cons i is ih =>
    rw [untilFailure_cons] at h
    obtain ⟨r₁, hrun, h⟩ := Option.bind_eq_some_iff.mp h
    have hfirst := hstep s i r₁ hrun
    split at h
    · exact htrans _ _ _ hfirst (ih h)
    · cases h
      exact hfirst

/-! ## The states on the way -/

def goOn (ok : ε) (run : σ → ι → Option (ε × σ)) (s : Option σ) (i : ι) : Option σ :=
  s.bind fun s => (run s i).bind fun r => if r.1 = ok then some r.2 else none

theorem goOn_of_ok {s s' : σ} {i : ι} (h : run s i = some (ok, s')) : goOn ok run (some s) i = some s' := by
  rw [goOn, Option.bind_some, h, Option.bind_some, if_pos rfl]

theorem foldl_goOn_none (is : List ι) : is.foldl (goOn ok run) none = none := by
  induction is with
  | nil => rfl
  | cons i is ih => exact ih

theorem foldl_goOn (is : List ι) (s : σ) : is.foldl (goOn ok run) (some s) =
    (untilFailure ok run is s).bind fun r => if r.1 = ok then some r.2 else none := by
  induction is generalizing s with
  | nil => rw [untilFailure_nil, Option.bind_some, if_pos rfl, List.foldl_nil]
  | cons i is ih =>
    rw [List.foldl_cons, untilFailure_cons, goOn, Option.bind_some]
    cases run s i with
    | none => exact foldl_goOn_none is
    | some r =>
      rw [Option.bind_some, Option.bind_some]
      by_cases hr : r.1 = ok
      · rw [if_pos hr, if_pos hr, ih]
      · rw [if_neg hr, if_neg hr, Option.bind_some, if_neg hr]
        exact foldl_goOn_none is

end

end ComSA
