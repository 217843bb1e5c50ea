import ComSA.Lib.Visit
import ComSA.Motransaction.DeletedPoints

/-!
# The list of deleted objects for the commit

The names that are handed to IMM, and what keeps them right: no name is stored twice,
no active point is below another one, and every point knows its IMM name.
-/

namespace ComSA.DeletedObjects

open Forest

/-! ## The list -/

theorem getDeletedData_eq (p : List String) (map : DeletedMap) :
    getDeletedData map =
      ((listing p map).filter fun x => x.2.isActive).map fun x => x.2.immName := by
  induction map generalizing p with
  | nil => rfl
  | node part d below rest ihb ihr =>
    rw [getDeletedData, listing, ihb (p ++ [part]), ihr p, List.filter_append, List.filter_append,
      List.map_append, List.map_append]
    congr 2
    by_cases hd : d.isActive = true <;> simp [hd]

/-! ## Names are stored once -/

theorem unique_insertWalk (immName : String) (rest : List String) (found : Bool)
    {entry : DeletedEntry} (h : Unique entry.2) : Unique (insertWalk immName rest found entry).2 := by
  induction rest generalizing entry found with
  | nil =>
    rw [insertWalk]
    split
    · exact h
    · exact h.mapData toDormant
  | cons part rest ih =>
    rw [insertWalk]
    cases hf : entry.2.find part with
    | none => exact h.add (unique_chain _ _ _) hf
    | some next => exact h.set (ih _ (h.find hf)) part

theorem unique_insert {map : DeletedMap} (h : Unique map) (parts : List String) (immName : String) :
    Unique (insert parts immName map) := by
  cases parts with
  | nil => exact h
  | cons first rest =>
    rw [insert]
    cases hf : map.find first with
    | none => exact h.add (unique_chain _ _ _) hf
    | some entry =>
      dsimp only
      split
      · exact h
      · exact h.set (unique_insertWalk immName rest false (h.find hf)) first

theorem unique_remove {map : DeletedMap} (h : Unique map) (parts : List String) :
    Unique (remove parts map) := by
  cases parts with
  | nil => exact h
  | cons first rest =>
    have hdis : ∀ e : DeletedEntry, Unique e.2 → Unique (disable e).2 := by
      intro e he
      rw [disable]
      split
      · rw [setDormantDPsActive]
        split
        · exact he
        · exact he.mapFirst _ _
      · exact he
    have := Unique.changeBelow hdis (p := first :: rest) (e := (({} : DeletedData), map)) h
    rwa [changeBelow_eq disable (by simp)] at this

/-! ## No active point is below another -/

def Antichain (map : DeletedMap) : Prop := ∀ p ∈ active map, Topmost (active map) p

theorem antichain_insert {p : List String} {map : DeletedMap} (h : Antichain map)
    (hcov : ¬ Covers (active map) p) (immName : String) : Antichain (insert p immName map) := by
  cases p with
  | nil => exact h
  | cons first rest =>
    have htop : [first] ∉ active map := fun ht => hcov ⟨[first], ht, by simp⟩
    -- Nothing active is above the new point, and nothing active is left below it.
    have hsub : ∀ q ∈ active (insert (first :: rest) immName map),
        q = first :: rest ∨ (q ∈ active map ∧ ¬ first :: rest <+: q) := by
      intro q hq
      cases he : map.entryAt (first :: rest) with
      | none =>
        rw [active_insert_of_none htop he] at hq
        rcases hq with rfl | hq
        · exact Or.inl rfl
        · refine Or.inr ⟨hq, fun hpq => ?_⟩
          obtain ⟨d, hd, _⟩ := hq
          rw [dataAt, entryAt_of_isPrefix (by simp) hpq he] at hd
          cases hd
      | some last =>
        rw [active_insert_of_not_covered htop he hcov] at hq
        exact hq
    intro q hq
    refine ⟨hq, fun r hr hrq => ?_⟩
    rcases hsub q hq with rfl | ⟨hq, hpq⟩
    · rcases hsub r hr with rfl | ⟨hr, _⟩
      · rfl
      · exact absurd ⟨r, hr, hrq⟩ hcov
    · rcases hsub r hr with rfl | ⟨hr, _⟩
      · exact absurd hrq hpq
      · exact (h q hq).2 r hr hrq

theorem antichain_remove {p : List String} {map : DeletedMap} (h : Antichain map) :
    Antichain (remove p map) := by
  by_cases hp : p ∈ active map
  swap
  · rwa [remove_of_not_active hp]
  obtain ⟨d, hd, ha⟩ := hp
  obtain ⟨e, he, rfl⟩ := Option.map_eq_some_iff.mp hd
  have htop := h p ⟨e.1, hd, ha⟩
  -- A point below the removed one is active now because no dormant one is between the two.
  have hclear : ∀ q ∈ active (remove p map), p <+: q → p ≠ q →
      ∃ r, q = p ++ r ∧ r ≠ [] ∧ ClearTo DeletedData.isDormant r e ∧ q ∈ marked map ∧
        q ∉ active map := by
    rintro q hq ⟨r, rfl⟩ hne
    have hr : r ≠ [] := by
      rintro rfl
      simp at hne
    have hna : p ++ r ∉ active map := fun hm => hne ((h _ hm).2 p htop.1 (List.prefix_append p r))
    rcases (mem_active_remove_below he ha hr).mp hq with hm | ⟨hm, hc⟩
    · exact absurd hm hna
    · exact ⟨r, rfl, hr, hc, hm, hna⟩
  intro q hq
  refine ⟨hq, fun s hs hsq => ?_⟩
  by_cases hpq : p <+: q ∧ p ≠ q
  · obtain ⟨r, rfl, hr, hc, hm, hna⟩ := hclear q hq hpq.1 hpq.2
    by_cases hps : p <+: s ∧ p ≠ s
    · obtain ⟨t, rfl, ht, -, hmt, hnt⟩ := hclear s hs hps.1 hps.2
      by_contra hne
      obtain ⟨d', hd', hor⟩ := hmt
      have hdorm : d'.isDormant = true := hor.resolve_left fun hact => hnt ⟨d', hd', hact⟩
      rw [dataAt_append he] at hd'
      obtain ⟨e', he', rfl⟩ := Option.map_eq_some_iff.mp hd'
      have := hc t ht (by simpa using hsq) (by simpa using hne) e' he'
      rw [this] at hdorm
      cases hdorm
    · obtain ⟨hs', hne⟩ := (mem_active_remove_of_not_below hps).mp hs
      rcases List.prefix_or_prefix_of_prefix hsq hpq.1 with hsp | hps'
      · exact absurd (htop.2 s hs' hsp) hne
      · exact absurd ⟨hps', Ne.symm hne⟩ hps
  · obtain ⟨hq', hne⟩ := (mem_active_remove_of_not_below hpq).mp hq
    have hps : ¬ (p <+: s ∧ p ≠ s) := fun hps => hpq ⟨hps.1.trans hsq, Ne.symm hne⟩
    exact (h q hq').2 s ((mem_active_remove_of_not_below hps).mp hs).1 hsq

/-! ## Every point knows its IMM name -/

def Named (toImm : List String → String) (map : DeletedMap) : Prop :=
  ∀ p d, map.dataAt p = some d → d.isActive = true ∨ d.isDormant = true → d.immName = toImm p

theorem named_insert {toImm : List String → String} {map : DeletedMap} {p : List String}
    (h : Named toImm map) (hcov : ¬ Covers (active map) p) :
    Named toImm (insert p (toImm p) map) := by
  cases p with
  | nil => exact h
  | cons first rest =>
    have htop : [first] ∉ active map := fun ht => hcov ⟨[first], ht, by simp⟩
    intro q d hd hmark
    by_cases hq : q = []
    · subst hq
      simp at hd
    cases he : map.entryAt (first :: rest) with
    | none =>
      rw [dataAt_insert_of_none htop he _ hq] at hd
      split at hd
      · rename_i hqp
        subst hqp
        obtain rfl := Option.some.inj hd
        rfl
      · split at hd
        · obtain rfl := Option.some.inj hd
          cases hdq : map.dataAt q with
          | none => simp [hdq, DeletedData.isActive, DeletedData.isDormant] at hmark
          | some d' =>
            rw [hdq] at hmark
            exact h q d' hdq hmark
        · exact h q d hd hmark
    | some last =>
      have hdel : isDeleted (first :: rest) map = false := by
        rwa [← Bool.not_eq_true, isDeleted_iff]
      rw [insert_of_some htop he, hdel, dataAt_changeAt_mapData he rfl] at hd
      split at hd
      · rename_i hqp
        subst hqp
        obtain rfl := Option.some.inj hd
        rfl
      · split at hd
        · obtain ⟨d', hd', rfl⟩ := Option.map_eq_some_iff.mp hd
          rw [toDormant] at hmark ⊢
          split at hmark <;> rename_i ha
          · rw [if_pos ha]
            exact h q d' hd' (Or.inl ha)
          · rw [if_neg ha]
            exact h q d' hd' hmark
        · exact h q d hd hmark

theorem named_remove {toImm : List String → String} {map : DeletedMap} (h : Named toImm map)
    (p : List String) : Named toImm (remove p map) := by
  by_cases hp : p ∈ active map
  swap
  · rwa [remove_of_not_active hp]
  obtain ⟨d₀, hd₀, ha⟩ := hp
  obtain ⟨e, he, rfl⟩ := Option.map_eq_some_iff.mp hd₀
  have hf := disable_of_active ha
  intro q d hd hmark
  rw [remove] at hd
  by_cases hpq : p <+: q
  · obtain ⟨r, rfl⟩ := hpq
    by_cases hr : r = []
    · subst hr
      have hself := dataAt_changeAt_append (f := disable) he []
      rw [List.append_nil, hf] at hself
      rw [List.append_nil, hself] at hd
      obtain rfl := Option.some.inj hd
      rw [List.append_nil]
      exact h p e.1 hd₀ (Or.inl ha)
    · rw [dataAt_changeAt_mapFirst he hf hr] at hd
      obtain ⟨d', hd', rfl⟩ := Option.map_eq_some_iff.mp hd
      split at hmark <;> rename_i hc
      · rw [if_pos hc]
        exact h _ d' hd' (Or.inr hc.1)
      · rw [if_neg hc]
        exact h _ d' hd' hmark
  · rw [dataAt_changeAt_of_not_isPrefix hpq] at hd
    exact h q d hd hmark

end ComSA.DeletedObjects
