import Mathlib.Data.List.Dedup
import Mathlib.Data.List.Induction
import Mathlib.Order.Lattice

/-!
# Sorted maps

A map as the list of its entries in the order of the keys. What an update does to a
look-up is stated for any list, and the order of the keys is an invariant of its own.
-/

namespace ComSA.SortedMap

variable {κ α : Type*}

section
variable [DecidableEq κ]

def get? (k : κ) : List (κ × α) → Option α
  | [] => none
  | (k', a) :: m => if k = k' then some a else get? k m

def erase (k : κ) : List (κ × α) → List (κ × α)
  | [] => []
  | (k', a) :: m => if k = k' then erase k m else (k', a) :: erase k m

@[simp] theorem get?_nil (k : κ) : get? k ([] : List (κ × α)) = none := rfl

theorem get?_cons (k k' : κ) (a : α) (m : List (κ × α)) :
    get? k ((k', a) :: m) = if k = k' then some a else get? k m := rfl

theorem get?_eq_lookup (k : κ) (m : List (κ × α)) : get? k m = m.lookup k := by
  induction m with
  | nil => rfl
  | cons x m ih =>
    rw [get?_cons, List.lookup_cons, ih]
    by_cases hk : k = x.1
    · rw [if_pos hk, beq_iff_eq.mpr hk]
    · rw [if_neg hk, beq_false_of_ne hk]

theorem mem_of_get? {k : κ} {a : α} {m : List (κ × α)} (h : get? k m = some a) : (k, a) ∈ m := by
  induction m with
  | nil => cases h
  | cons e m ih =>
    rw [get?_cons] at h
    split at h <;> rename_i hk
    · obtain rfl := Option.some.inj h
      rw [hk]
      exact List.mem_cons_self
    · exact List.mem_cons_of_mem _ (ih h)

theorem get?_erase (k k' : κ) (m : List (κ × α)) :
    get? k (erase k' m) = if k = k' then none else get? k m := by
  induction m with
  | nil => simp [erase]
  | cons e m ih =>
    obtain ⟨j, a⟩ := e
    rw [erase]
    split <;> rename_i h
    · subst h
      rw [ih, get?_cons]
      split <;> rfl
    · rw [get?_cons, get?_cons, ih]
      by_cases hk : k = k'
      · subst hk
        rw [if_neg h, if_pos rfl, if_pos rfl]
      · simp only [if_neg hk]

end

section
variable [LinearOrder κ]

def put (k : κ) (a : α) : List (κ × α) → List (κ × α)
  | [] => [(k, a)]
  | (k', a') :: m =>
    if k < k' then (k, a) :: (k', a') :: m
    else if k = k' then (k, a) :: m
    else (k', a') :: put k a m

theorem get?_put (k k' : κ) (a : α) (m : List (κ × α)) :
    get? k (put k' a m) = if k = k' then some a else get? k m := by
  induction m with
  | nil => rfl
  | cons e m ih =>
    obtain ⟨j, b⟩ := e
    rw [put]
    split
    · rfl
    · split <;> rename_i h
      · subst h
        rw [get?_cons, get?_cons]
        split <;> rfl
      · rw [get?_cons, get?_cons, ih]
        by_cases hk : k = k'
        · subst hk
          rw [if_neg h, if_pos rfl, if_pos rfl]
        · simp only [if_neg hk]

def Sorted (m : List (κ × α)) : Prop := m.Pairwise fun x y => x.1 < y.1

theorem mem_put {k : κ} {a : α} {m : List (κ × α)} {x : κ × α} (hx : x ∈ put k a m) :
    x = (k, a) ∨ x ∈ m := by
  induction m with
  | nil => simpa [put] using hx
  | cons e m ih =>
    rw [put] at hx
    split at hx
    · exact List.mem_cons.mp hx
    · split at hx
      · rcases List.mem_cons.mp hx with h | h
        · exact Or.inl h
        · exact Or.inr (List.mem_cons_of_mem _ h)
      · rcases List.mem_cons.mp hx with h | h
        · exact Or.inr (h ▸ List.mem_cons_self)
        · exact (ih h).imp_right (List.mem_cons_of_mem _)

theorem sorted_put {m : List (κ × α)} (h : Sorted m) (k : κ) (a : α) : Sorted (put k a m) := by
  induction m with
  | nil => exact List.pairwise_singleton _ _
  | cons e m ih =>
    obtain ⟨hfirst, hrest⟩ := List.pairwise_cons.mp h
    rw [put]
    split <;> rename_i hlt
    · refine List.pairwise_cons.mpr ⟨fun x hx => ?_, h⟩
      rcases List.mem_cons.mp hx with rfl | hx
      · exact hlt
      · exact hlt.trans (hfirst x hx)
    · split <;> rename_i heq
      · subst heq
        exact List.pairwise_cons.mpr ⟨hfirst, hrest⟩
      · refine List.pairwise_cons.mpr ⟨fun x hx => ?_, ih hrest⟩
        rcases mem_put hx with rfl | hx
        · exact lt_of_le_of_ne (not_lt.mp hlt) (Ne.symm heq)
        · exact hfirst x hx

theorem get?_of_mem {m : List (κ × α)} (h : Sorted m) {x : κ × α} (hx : x ∈ m) :
    get? x.1 m = some x.2 := by
  induction m with
  | nil => cases hx
  | cons e m ih =>
    obtain ⟨hfirst, hrest⟩ := List.pairwise_cons.mp h
    rcases List.mem_cons.mp hx with rfl | hx
    · exact if_pos rfl
    · rw [get?_cons, if_neg (hfirst x hx).ne', ih hrest hx]

theorem erase_eq_filter (k : κ) (m : List (κ × α)) : erase k m = m.filter fun x => k ≠ x.1 := by
  induction m with
  | nil => rfl
  | cons e m ih =>
    rw [erase, ih, List.filter_cons]
    split <;> rename_i h <;> simp [h]

theorem sorted_erase {m : List (κ × α)} (h : Sorted m) (k : κ) : Sorted (erase k m) := by
  rw [erase_eq_filter]
  exact h.filter _

theorem get?_eq_none_iff {k : κ} {m : List (κ × α)} : get? k m = none ↔ k ∉ m.map Prod.fst := by
  induction m with
  | nil => simp
  | cons e m ih =>
    rw [get?_cons, List.map_cons, List.mem_cons, not_or, ← ih]
    split <;> rename_i h <;> simp [h]

theorem erase_of_none {k : κ} {m : List (κ × α)} (h : get? k m = none) : erase k m = m := by
  rw [erase_eq_filter, List.filter_eq_self]
  intro x hx
  rw [decide_eq_true_iff]
  rintro rfl
  exact get?_eq_none_iff.mp h (List.mem_map_of_mem hx)

theorem get?_filter (p : κ → Bool) (k : κ) (m : List (κ × α)) :
    get? k (m.filter fun x => p x.1) = if p k then get? k m else none := by
  induction m with
  | nil => simp
  | cons e m ih =>
    obtain ⟨j, b⟩ := e
    rw [List.filter_cons, get?_cons]
    by_cases hk : k = j
    · subst hk
      by_cases hp : p k = true <;> simp [hp, get?_cons, ih]
    · by_cases hp : p j = true <;> simp [hp, hk, get?_cons, ih]

theorem put_perm {k : κ} {m : List (κ × α)} (h : get? k m = none) (a : α) :
    (put k a m).Perm ((k, a) :: m) := by
  induction m with
  | nil => exact List.Perm.refl _
  | cons e m ih =>
    obtain ⟨j, b⟩ := e
    rw [get?_cons] at h
    split at h <;> rename_i hk
    · cases h
    · rw [put, if_neg hk]
      split
      · exact List.Perm.refl _
      · exact ((ih h).cons _).trans (List.Perm.swap _ _ _)

theorem put_perm_of_notMem {k : κ} {m : List (κ × α)} (h : k ∉ m.map Prod.fst) (a : α) :
    (put k a m).Perm ((k, a) :: m) := put_perm (get?_eq_none_iff.mpr h) a

theorem foldl_put_perm {m es : List (κ × α)} (hnodup : ((m ++ es).map Prod.fst).Nodup) :
    (es.foldl (fun m e => put e.1 e.2 m) m).Perm (m ++ es) := by
  induction es generalizing m with
  | nil => simp
  | cons e es ih =>
    have hmove : (m ++ e :: es).Perm (e :: m ++ es) := List.perm_middle
    have hnodup' := (hmove.map Prod.fst).nodup_iff.mp hnodup
    have he : e.1 ∉ m.map Prod.fst := by
      simp only [List.cons_append, List.map_cons, List.nodup_cons, List.map_append, List.mem_append, not_or]
        at hnodup'
      exact hnodup'.1.1
    have hput := (put_perm_of_notMem he e.2).append_right es
    exact (ih ((hput.map Prod.fst).nodup_iff.mpr hnodup')).trans (hput.trans hmove.symm)

/-- Of entries stored one after the other in the order of other keys, the one with the highest of these stays. -/
theorem get?_foldl_put {ι β : Type*} [LinearOrder ι] {es : List (ι × β)} (hes : Sorted es) (f : ι × β → κ)
    (g : ι × β → α)
    (k : κ) (a : α) :
    get? k (es.foldl (fun m e => put (f e) (g e) m) []) = some a ↔
      ∃ e ∈ es, f e = k ∧ (∀ e' ∈ es, f e' = k → e'.1 ≤ e.1) ∧ g e = a := by
  induction es using List.reverseRecOn with
  | nil => simp
  | append_singleton es last ih =>
    obtain ⟨hsorted, -, hlast⟩ := List.pairwise_append.mp hes
    have hlast : ∀ e ∈ es, e.1 < last.1 := fun e he => hlast e he last (List.mem_singleton.mpr rfl)
    rw [List.foldl_append, List.foldl_cons, List.foldl_nil, get?_put]
    constructor
    · intro h
      split at h <;> rename_i hk
      · refine ⟨last, by simp, hk.symm, fun e' he' _ => ?_, Option.some.inj h⟩
        rcases List.mem_append.mp he' with he' | he'
        · exact (hlast e' he').le
        · rw [List.mem_singleton.mp he']
      · obtain ⟨e, he, hf, hmax, hg⟩ := (ih hsorted).mp h
        refine ⟨e, List.mem_append_left _ he, hf, fun e' he' hf' => ?_, hg⟩
        rcases List.mem_append.mp he' with he' | he'
        · exact hmax e' he' hf'
        · rw [List.mem_singleton.mp he'] at hf'
          exact absurd hf'.symm hk
    · rintro ⟨e, he, hf, hmax, hg⟩
      rcases List.mem_append.mp he with hin | hin
      · by_cases hk : k = f last
        · exact absurd (hmax last (by simp) hk.symm) (not_le.mpr (hlast e hin))
        · rw [if_neg hk]
          exact (ih hsorted).mpr ⟨e, hin, hf, fun e' he' => hmax e' (List.mem_append_left _ he'), hg⟩
      · rw [List.mem_singleton.mp hin] at hf hg
        rw [if_pos hf.symm, hg]

theorem mem_foldl_put {ι β : Type*} [LinearOrder ι] {es : List (ι × β)} (hes : Sorted es) (f : ι × β → κ)
    (g : ι × β → α) (x : κ × α) :
    x ∈ es.foldl (fun m e => put (f e) (g e) m) [] ↔
      ∃ e ∈ es, (∀ e' ∈ es, f e' = f e → e'.1 ≤ e.1) ∧ x = (f e, g e) := by
  have hsorted : Sorted (es.foldl (fun m e => put (f e) (g e) m) []) :=
    List.foldlRecOn es _ List.Pairwise.nil fun m hm e _ => sorted_put hm (f e) (g e)
  have hget := get?_foldl_put hes f g x.1 x.2
  constructor
  · intro hx
    obtain ⟨e, he, hf, hmax, hg⟩ := hget.mp (get?_of_mem hsorted hx)
    rw [← hf] at hmax
    exact ⟨e, he, hmax, by rw [hf, hg]⟩
  · rintro ⟨e, he, hmax, rfl⟩
    exact mem_of_get? (hget.mpr ⟨e, he, rfl, hmax, rfl⟩)

theorem exists_highest {m : List (κ × α)} (hm : Sorted m) (hne : m ≠ []) : ∃ e ∈ m, ∀ e' ∈ m, e'.1 ≤ e.1 := by
  rcases List.eq_nil_or_concat m with rfl | ⟨init, last, rfl⟩
  · exact absurd rfl hne
  · rw [List.concat_eq_append] at hm ⊢
    obtain ⟨-, -, hlt⟩ := List.pairwise_append.mp hm
    refine ⟨last, by simp, fun e' he' => ?_⟩
    rcases List.mem_append.mp he' with hinit | hsame
    · exact (hlt e' hinit last (List.mem_singleton.mpr rfl)).le
    · rw [List.mem_singleton.mp hsame]

theorem getLastD_of_sorted {β : Type*} {m es : List (κ × α)} (hm : Sorted m) (hes : m.Perm es) {e : κ × α}
    (he : e ∈ es) (hmax : ∀ e' ∈ es, e'.1 ≤ e.1) (f : κ × α → β) (d : β) : (m.map f).getLastD d = f e := by
  rcases List.eq_nil_or_concat m with rfl | ⟨init, last, rfl⟩
  · cases hes.mem_iff.mpr he
  · rw [List.concat_eq_append] at hm hes ⊢
    obtain ⟨-, -, hlt⟩ := List.pairwise_append.mp hm
    have hlast : last ∈ es := hes.mem_iff.mp (by simp)
    rcases List.mem_append.mp (hes.mem_iff.mpr he) with hinit | hsame
    · exact absurd (hmax last hlast) (not_le.mpr (hlt e hinit last (List.mem_singleton.mpr rfl)))
    · rw [List.mem_singleton.mp hsame]
      simp

theorem keys_put {k : κ} {m : List (κ × α)} (hm : Sorted m) (h : get? k m ≠ none) (a : α) :
    (put k a m).map Prod.fst = m.map Prod.fst := by
  induction m with
  | nil => exact absurd rfl h
  | cons e m ih =>
    obtain ⟨j, b⟩ := e
    obtain ⟨hfirst, hrest⟩ := List.pairwise_cons.mp hm
    rw [put]
    split <;> rename_i hlt
    · refine absurd (get?_eq_none_iff.mpr fun hk => ?_) h
      rcases List.mem_cons.mp hk with hk | hk
      · exact hlt.ne hk
      · obtain ⟨x, hx, hxk⟩ := List.mem_map.mp hk
        exact (hlt.trans (hfirst x hx)).ne hxk.symm
    · split <;> rename_i heq
      · rw [heq]
        rfl
      · rw [get?_cons, if_neg heq] at h
        rw [List.map_cons, List.map_cons, ih hrest h]

theorem put_of_get? {k : κ} {a : α} {m : List (κ × α)} (hm : Sorted m) (h : get? k m = some a) :
    put k a m = m := by
  induction m with
  | nil => cases h
  | cons e m ih =>
    obtain ⟨j, b⟩ := e
    obtain ⟨hfirst, hrest⟩ := List.pairwise_cons.mp hm
    rw [get?_cons] at h
    rw [put]
    split at h <;> rename_i hk
    · cases h
      rw [if_neg (by rw [hk]; exact lt_irrefl j), if_pos hk, hk]
    · have hlt : ¬ k < j := fun hlt => (hlt.trans (hfirst (k, a) (mem_of_get? h))).false
      rw [if_neg hlt, if_neg hk, ih hrest h]

theorem put_put (k : κ) (a b : α) (m : List (κ × α)) : put k a (put k b m) = put k a m := by
  induction m with
  | nil => simp [put]
  | cons e m ih =>
    obtain ⟨j, c⟩ := e
    rw [put, put]
    split <;> rename_i hlt
    · simp [put]
    · split <;> rename_i heq
      · simp [put]
      · rw [put, if_neg hlt, if_neg heq, ih]

theorem erase_put {k : κ} {m : List (κ × α)} (h : get? k m = none) (a : α) : erase k (put k a m) = m := by
  induction m with
  | nil => simp [put, erase]
  | cons e m ih =>
    obtain ⟨j, b⟩ := e
    have htail := h
    rw [get?_cons] at htail
    split at htail <;> rename_i hk
    · cases htail
    · rw [put]
      split
      · rw [erase, if_pos rfl, erase_of_none h]
      · rw [erase, if_neg hk, ih htail]

theorem perm_erase {k : κ} {a : α} {m : List (κ × α)} (hm : Sorted m) (h : get? k m = some a) :
    m.Perm ((k, a) :: erase k m) := by
  induction m with
  | nil => cases h
  | cons e m ih =>
    obtain ⟨j, b⟩ := e
    obtain ⟨hfirst, hrest⟩ := List.pairwise_cons.mp hm
    rw [get?_cons] at h
    rw [erase]
    split at h <;> rename_i hk
    · obtain rfl := Option.some.inj h
      subst hk
      rw [if_pos rfl, erase_eq_filter, List.filter_eq_self.mpr]
      exact fun x hx => decide_eq_true (hfirst x hx).ne
    · rw [if_neg hk]
      exact ((ih hrest h).cons _).trans (List.Perm.swap _ _ _)

end

theorem get?_map {β : Type*} [DecidableEq κ] (f : α → β) (k : κ) (m : List (κ × α)) :
    get? k (m.map fun x => (x.1, f x.2)) = (get? k m).map f := by
  induction m with
  | nil => rfl
  | cons e m ih =>
    rw [List.map_cons, get?_cons, get?_cons, ih]
    split <;> rfl

theorem erase_map {β : Type*} [DecidableEq κ] (f : α → β) (k : κ) (m : List (κ × α)) :
    erase k (m.map fun x => (x.1, f x.2)) = (erase k m).map fun x => (x.1, f x.2) := by
  induction m with
  | nil => rfl
  | cons e m ih =>
    rw [List.map_cons, erase, erase, ih]
    split <;> rfl

theorem put_map {β : Type*} [LinearOrder κ] (f : α → β) (k : κ) (a : α) (m : List (κ × α)) :
    put k (f a) (m.map fun x => (x.1, f x.2)) = (put k a m).map fun x => (x.1, f x.2) := by
  induction m with
  | nil => rfl
  | cons e m ih =>
    rw [List.map_cons, put, put, ih]
    split
    · rfl
    · split <;> rfl

theorem put_perm_erase [LinearOrder κ] {m : List (κ × α)} (hm : Sorted m) (k : κ) (a : α) :
    (put k a m).Perm ((k, a) :: erase k m) := by
  have herase : erase k (put k a m) = erase k m := by
    induction m with
    | nil => exact if_pos rfl
    | cons e m ih =>
      obtain ⟨j, b⟩ := e
      rw [put]
      split
      · exact if_pos rfl
      · split <;> rename_i heq
        · rw [heq, erase, erase, if_pos rfl, if_pos rfl]
        · rw [erase, erase, if_neg heq, if_neg heq, ih (List.pairwise_cons.mp hm).2]
  rw [← herase]
  exact perm_erase (sorted_put hm k a) ((get?_put k k a m).trans (if_pos rfl))

/-! ## Storing a list of keys -/

section
variable [LinearOrder κ] (f : κ → α)

def putAll (ks : List κ) (m : List (κ × α)) : List (κ × α) := ks.foldl (fun m k => put k (f k) m) m

theorem sorted_putAll (ks : List κ) {m : List (κ × α)} (hm : Sorted m) : Sorted (putAll f ks m) := by
  induction ks generalizing m with
  | nil => exact hm
  | cons k ks ih => exact ih (sorted_put hm k (f k))

theorem get?_putAll (ks : List κ) (m : List (κ × α)) (k : κ) :
    get? k (putAll f ks m) = if k ∈ ks then some (f k) else get? k m := by
  induction ks generalizing m with
  | nil => rfl
  | cons j ks ih =>
    rw [putAll, List.foldl_cons]
    change get? k (putAll f ks (put j (f j) m)) = _
    rw [ih, get?_put]
    by_cases hk : k ∈ ks
    · rw [if_pos hk, if_pos (List.mem_cons_of_mem j hk)]
    · by_cases hkj : k = j
      · subst hkj
        rw [if_neg hk, if_pos rfl, if_pos List.mem_cons_self]
      · rw [if_neg hk, if_neg hkj, if_neg (by simp [hk, hkj])]

theorem putAll_perm (ks : List κ) : (putAll f ks []).Perm (ks.dedup.map fun k => (k, f k)) := by
  have hsorted : Sorted (putAll f ks []) := sorted_putAll f ks List.Pairwise.nil
  refine (List.perm_ext_iff_of_nodup (hsorted.imp fun hlt heq => hlt.ne (congrArg Prod.fst heq)) ?_).mpr fun x => ?_
  · exact (List.nodup_dedup ks).map fun j k h => congrArg Prod.fst h
  · have hget := get?_putAll f ks [] x.1
    rw [List.mem_map]
    constructor
    · intro hx
      rw [get?_of_mem hsorted hx] at hget
      split at hget <;> rename_i hk
      · exact ⟨x.1, List.mem_dedup.mpr hk, Prod.ext rfl (Option.some.inj hget).symm⟩
      · cases hget
    · rintro ⟨k, hk, rfl⟩
      rw [if_pos (List.mem_dedup.mp hk)] at hget
      exact mem_of_get? hget

end

/-! ## Merging -/

section
variable {β : Type*} [LinearOrder κ]

/-- Stores every entry of a second map, with what the first one has under its key. -/
def mergeInto (f : Option α → β → α) : List (κ × α) → List (κ × β) → List (κ × α)
  | m, [] => m
  | m, (k, b) :: rest => mergeInto f (put k (f (get? k m) b) m) rest

theorem get?_mergeInto (f : Option α → β → α) {m : List (κ × α)} {m' : List (κ × β)} (h : (m'.map Prod.fst).Nodup)
    (k : κ) :
    get? k (mergeInto f m m') = ((get? k m').map (f (get? k m))).or (get? k m) := by
  induction m' generalizing m with
  | nil => rfl
  | cons e m' ih =>
    obtain ⟨k', b⟩ := e
    rw [List.map_cons, List.nodup_cons] at h
    rw [mergeInto, ih h.2, get?_cons, get?_put]
    by_cases hk : k = k'
    · subst hk
      have hnone : get? k m' = none := get?_eq_none_iff.mpr h.1
      rw [if_pos rfl, if_pos rfl, hnone]
      rfl
    · rw [if_neg hk, if_neg hk]

theorem sorted_mergeInto (f : Option α → β → α) {m : List (κ × α)} (hm : Sorted m) (m' : List (κ × β)) :
    Sorted (mergeInto f m m') := by
  induction m' generalizing m with
  | nil => exact hm
  | cons e m' ih => exact ih (sorted_put hm _ _)

theorem mergeInto_map {α' β' : Type*} {f : Option α → β → α} {f' : Option α' → β' → α'} {g : α → α'} {h : β → β'}
    (hf : ∀ o b, f' (o.map g) (h b) = g (f o b)) (m : List (κ × α)) (m' : List (κ × β)) :
    mergeInto f' (m.map fun x => (x.1, g x.2)) (m'.map fun x => (x.1, h x.2)) =
      (mergeInto f m m').map fun x => (x.1, g x.2) := by
  induction m' generalizing m with
  | nil => rfl
  | cons e m' ih =>
    obtain ⟨k, b⟩ := e
    rw [List.map_cons, mergeInto, mergeInto, get?_map, hf, put_map, ih]

theorem filter_key {m : List (κ × α)} (h : Sorted m) {k : κ} {a : α} (hmem : (k, a) ∈ m) :
    m.filter (fun x => x.1 = k) = [(k, a)] := by
  induction m with
  | nil => cases hmem
  | cons y m ih =>
    obtain ⟨hy, hm⟩ := List.pairwise_cons.mp h
    rcases List.mem_cons.mp hmem with rfl | hmem
    · have hrest : m.filter (fun x => x.1 = k) = [] := by
        rw [List.filter_eq_nil_iff]
        exact fun x hx => by simpa using (hy x hx).ne'
      rw [List.filter_cons_of_pos (by simp), hrest]
    · have hne : y.1 ≠ k := (hy _ hmem).ne
      rw [List.filter_cons_of_neg (by simpa using hne), ih hm hmem]

theorem nodup_keys {m : List (κ × α)} (h : Sorted m) : (m.map Prod.fst).Nodup := by
  rw [List.Nodup, List.pairwise_map]
  exact h.imp fun hlt => hlt.ne

end

end ComSA.SortedMap
