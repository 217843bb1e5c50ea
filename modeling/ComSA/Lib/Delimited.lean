import Mathlib.Data.List.Basic

/-!
# Delimited lists

Lists that are joined with a separator and cut at it again, with the empty pieces left out.
-/

namespace ComSA

variable {α : Type*} [DecidableEq α] {c : α} {s t : List α}

def tokens (c : α) (s : List α) : List (List α) := (s.splitOn c).filter (· ≠ [])

theorem mem_of_mem_splitOn {l : List α} (h : l ∈ s.splitOn c) : c ∉ l ∧ ∀ x ∈ l, x ∈ s := by
  induction s generalizing l with
  | nil =>
    rw [List.splitOn_nil, List.mem_singleton] at h
    simp [h]
  | cons a s ih =>
    rw [List.splitOn_cons_eq_if_modifyHead] at h
    split at h <;> rename_i ha
    · rcases List.mem_cons.mp h with rfl | h
      · simp
      · exact ⟨(ih h).1, fun x hx => List.mem_cons_of_mem a ((ih h).2 x hx)⟩
    · rcases hpieces : s.splitOn c with - | ⟨first, rest⟩
      · exact absurd hpieces (List.splitOn_ne_nil c s)
      · rw [hpieces] at ih
        rw [hpieces, List.modifyHead_cons] at h
        rcases List.mem_cons.mp h with rfl | h
        · have hfirst := ih List.mem_cons_self
          refine ⟨fun hc => ?_, fun x hx => ?_⟩
          · rcases List.mem_cons.mp hc with rfl | hc
            · simp at ha
            · exact hfirst.1 hc
          · rcases List.mem_cons.mp hx with rfl | hx
            · exact List.mem_cons_self
            · exact List.mem_cons_of_mem a (hfirst.2 x hx)
        · have hrest := ih (List.mem_cons_of_mem first h)
          exact ⟨hrest.1, fun x hx => List.mem_cons_of_mem a (hrest.2 x hx)⟩

theorem exists_mem_splitOn {x : α} (hx : x ∈ s) (hne : x ≠ c) : ∃ l ∈ s.splitOn c, x ∈ l := by
  induction s with
  | nil => cases hx
  | cons a s ih =>
    rw [List.splitOn_cons_eq_if_modifyHead]
    split <;> rename_i ha
    · obtain ⟨l, hl, hxl⟩ := ih ((List.mem_cons.mp hx).resolve_left fun heq => hne (heq.trans (beq_iff_eq.mp ha)))
      exact ⟨l, List.mem_cons_of_mem [] hl, hxl⟩
    · rcases hpieces : s.splitOn c with - | ⟨first, rest⟩
      · exact absurd hpieces (List.splitOn_ne_nil c s)
      · rw [hpieces] at ih
        rw [List.modifyHead_cons]
        rcases List.mem_cons.mp hx with rfl | hx
        · exact ⟨x :: first, List.mem_cons_self, List.mem_cons_self⟩
        · obtain ⟨l, hl, hxl⟩ := ih hx
          rcases List.mem_cons.mp hl with rfl | hl
          · exact ⟨a :: l, List.mem_cons_self, List.mem_cons_of_mem a hxl⟩
          · exact ⟨l, List.mem_cons_of_mem _ hl, hxl⟩

omit [DecidableEq α] in
theorem notMem_append_cons {x : α} (hs : x ∉ s) (hne : x ≠ c) (ht : x ∉ t) : x ∉ s ++ c :: t := by
  rw [List.mem_append, List.mem_cons, not_or, not_or]
  exact ⟨hs, hne, ht⟩

theorem tokens_append_cons (s t : List α) : tokens c (s ++ c :: t) = tokens c s ++ tokens c t := by
  unfold tokens
  rw [List.splitOn_append_cons_self, List.filter_append]

theorem tokens_of_notMem (hs : s ≠ []) (hc : c ∉ s) : tokens c s = [s] := by
  have hsplit : ([c].intercalate [s]).splitOn c = [s] := List.splitOn_intercalate c (by simpa using hc) (by simp)
  rw [List.intercalate_singleton] at hsplit
  unfold tokens
  rw [hsplit]
  simpa using hs

theorem tokens_intercalate {ls : List (List α)} (hc : ∀ l ∈ ls, c ∉ l) (hls : ∀ l ∈ ls, l ≠ []) :
    tokens c ([c].intercalate ls) = ls := by
  by_cases hnil : ls = []
  · subst hnil
    simp [tokens, List.intercalate]
  · unfold tokens
    rw [List.splitOn_intercalate c hc hnil, List.filter_eq_self]
    simpa using hls

theorem splitOn_lines {ls : List (List α)} (hc : ∀ l ∈ ls, c ∉ l) :
    (ls.flatMap fun l => l ++ [c]).splitOn c = ls ++ [[]] := by
  induction ls with
  | nil => simp
  | cons l ls ih =>
    have hl := hc l List.mem_cons_self
    have ih := ih fun k hk => hc k (List.mem_cons_of_mem l hk)
    rw [List.flatMap_cons, List.append_assoc, List.singleton_append, List.splitOn_append_cons_self_of_not_mem
      hl, ih]
    rfl

omit [DecidableEq α] in
theorem flatMap_concat_eq_intercalate {ls : List (List α)} (hls : ls ≠ []) :
    (ls.flatMap fun l => l ++ [c]) = [c].intercalate ls ++ [c] := by
  induction ls with
  | nil => exact absurd rfl hls
  | cons l ls ih =>
    by_cases hnil : ls = []
    · subst hnil
      simp
    · rw [List.flatMap_cons, ih hnil, List.intercalate_cons_of_ne_nil hnil]
      simp

/-! ## Strings joined by a comma -/

theorem intercalate_eq_empty_iff {names : List String} (h : ∀ n ∈ names, n ≠ "") :
    ",".intercalate names = "" ↔ names = [] := by
  rcases names with - | ⟨n, names⟩
  · simp
  · have hn := h n List.mem_cons_self
    by_cases hnames : names = []
    · subst hnames
      simpa using hn
    · rw [String.intercalate_cons_of_ne_nil hnames]
      simp [hn]

theorem intercalate_concat {names : List String} (h : ∀ n ∈ names, n ≠ "") (name : String) :
    ",".intercalate (names ++ [name]) =
      (if ",".intercalate names = "" then "" else ",".intercalate names ++ ",") ++ name := by
  simp only [intercalate_eq_empty_iff h]
  split <;> rename_i hnil
  · subst hnil
    simp
  · rw [String.intercalate_append_of_ne_nil hnil (by simp), String.intercalate_singleton]

theorem splitOn_intercalate_comma {names : List String} (h : ∀ n ∈ names, ',' ∉ n.toList) (hnil : names ≠ []) :
    (",".intercalate names).toList.splitOn ',' = names.map String.toList := by
  rw [String.toList_intercalate]
  apply List.splitOn_intercalate
  · intro l hl
    obtain ⟨n, hn, rfl⟩ := List.mem_map.mp hl
    exact h n hn
  · simpa using hnil

theorem tokens_intercalate_comma {names : List String} (h : ∀ n ∈ names, ',' ∉ n.toList)
    (hne : ∀ n ∈ names, n ≠ "") :
    (tokens ',' (",".intercalate names).toList).map String.ofList = names := by
  have htokens : tokens ',' (",".intercalate names).toList = names.map String.toList := by
    rw [String.toList_intercalate]
    apply tokens_intercalate
    · intro l hl
      obtain ⟨n, hn, rfl⟩ := List.mem_map.mp hl
      exact h n hn
    · intro l hl
      obtain ⟨n, hn, rfl⟩ := List.mem_map.mp hl
      simpa using hne n hn
  rw [htokens, List.map_map]
  simp

end ComSA
