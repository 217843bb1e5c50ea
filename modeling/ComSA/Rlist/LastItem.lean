import Mathlib.Order.Bounds.Basic
import ComSA.Rlist.FailingSteps

/-!
# The last item

An item that is pushed gets the number after the last one, and the item with that number is
popped. When it is new and the last one, in any list that calls lead to.
-/

namespace ComSA.Rlist

open RlistState

def numbers (env : RlistEnv) (s : RlistState) : Set Nat := {n | itemName n ∈ items env s}

structure PopsLast (env : RlistEnv) (s : RlistState) : Prop where
  empty : items env s = [] → listPopBack env s = (.notExist, s)
  pops : items env s ≠ [] → ∃ n s', IsGreatest (numbers env s) n ∧ listPopBack env s = (.ok, s') ∧
    s'.storage = SortedMap.erase (itemName n) s.storage ∧
    (items env s' = [] → s'.lastId = 0) ∧ (items env s' ≠ [] → IsGreatest (numbers env s') s'.lastId)

def LastStands (env : RlistEnv) (s : RlistState) : Prop :=
  items env s = [] ∨ ¬ Unreachable env (itemName s.lastId) ∧ IsGreatest (numbers env s) s.lastId

/-- What pushing is to do. An iteration that has come by every other item goes on with the new one. -/
structure PushesNew (env : RlistEnv) (data : Memory) (s : RlistState) : Prop where
  pushes : (listPushBack env data s).1 = .ok → ∃ n, 1 ≤ n ∧ (listPushBack env data s).2.1 = some (itemName n) ∧
    itemName n ∉ items env s ∧ (∀ m ∈ numbers env s, m < n) ∧
    (listPushBack env data s).2.2.find env (itemName n) = some (storedData env s data) ∧
    ∀ id, 1 ≤ id → id ≤ n → (∀ m ∈ numbers env s, m < id) →
      findNextListItem env id (listPushBack env data s).2.2 = some (some n)
  exhausted : s.lastId = uintMax → (listPushBack env data s).1 ≠ .ok ∧ (listPushBack env data s).2.2 = s

/-- A number is left that is above all items; or none is left, and the RT object 0 is in the way. -/
def NumberLeft (env : RlistEnv) (s : RlistState) : Prop :=
  s.lastId < uintMax ∧ (∀ m ∈ numbers env s, m ≤ s.lastId) ∨
    s.lastId = uintMax ∧ env.replicateInIMM = true ∧ 0 ∈ numbers env s

section
variable {env : RlistEnv} {s : RlistState}

theorem mem_numbers_iff {n : Nat} : n ∈ numbers env s ↔ s.find env (itemName n) ≠ none := mem_items_iff

theorem Numbered.exists_number (h : Numbered env s) (hne : items env s ≠ []) : ∃ n, n ∈ numbers env s := by
  obtain ⟨x, hx⟩ := List.exists_mem_of_ne_nil _ hne
  obtain ⟨n, rfl, -⟩ := h.named x hx
  exact ⟨n, hx⟩

theorem items_ne_nil {n : Nat} (h : n ∈ numbers env s) : items env s ≠ [] := List.ne_nil_of_mem h

/-! ## Popping -/

theorem storage_remove (n : Nat) :
    (s.remove env (itemName n)).storage = SortedMap.erase (itemName n) s.storage := by
  rw [remove, key_itemName]

theorem mem_numbers_remove {n m : Nat} : m ∈ numbers env (s.remove env (itemName n)) ↔ m ≠ n ∧
    m ∈ numbers env s := by
  rw [mem_numbers_iff, mem_numbers_iff, find_remove, key_itemName, key_itemName]
  by_cases hm : m = n
  · simp [hm]
  · rw [if_neg fun hname => hm (itemName_injective hname)]
    simp [hm]

theorem pops_of_lastStands (h : Numbered env s) (hreach : ¬ Unreachable env (itemName s.lastId))
    (hlast : IsGreatest (numbers env s) s.lastId) : PopsLast env s := by
  have hthere := mem_numbers_iff.mp hlast.1
  refine ⟨fun hnil => absurd hnil (items_ne_nil hlast.1), fun _ => ?_⟩
  rw [listPopBack_eq, if_neg (not_or.mpr ⟨hreach, hthere⟩)]
  refine ⟨s.lastId, _, hlast, rfl, storage_remove s.lastId, fun hnil => ?_, fun hne => ?_⟩
  · rw [items_count] at hnil
    refine lowerLastId_eq_zero fun n => ?_
    by_contra hn
    rw [Bool.not_eq_false] at hn
    exact items_ne_nil (mem_numbers_iff.mpr (isSome_find_iff.mp hn)) hnil
  · rw [items_count] at hne
    obtain ⟨n, hn⟩ := (h.remove _).exists_number hne
    have hlow {m : Nat} (hm : m ∈ numbers env (s.remove env (itemName s.lastId))) : m < s.lastId := by
      obtain ⟨hne, hm⟩ := mem_numbers_remove.mp hm
      exact lt_of_le_of_ne (hlast.2 hm) hne
    have hpresent {m : Nat} (hm : m ∈ numbers env (s.remove env (itemName s.lastId))) :
        ((s.remove env (itemName s.lastId)).find env (itemName m)).isSome = true :=
      isSome_find_iff.mpr (mem_numbers_iff.mp hm)
    refine ⟨mem_numbers_iff.mpr (isSome_find_iff.mp ?_), fun m hm => ?_⟩
    · exact @lowerLastId_present (fun n => ((s.remove env (itemName s.lastId)).find env (itemName n)).isSome) _ _
        (hpresent hn) (hlow hn)
    · exact le_lowerLastId (hpresent hm) (hlow hm)

theorem lastStands_of_pops (hpops : PopsLast env s) : LastStands env s := by
  by_cases hnil : items env s = []
  · exact Or.inl hnil
  · obtain ⟨n, s', hn, heq, hstorage, -⟩ := hpops.pops hnil
    rw [listPopBack_eq] at heq
    split at heq
    · cases heq
    · rename_i hthere
      obtain ⟨hreach, hthere⟩ := not_or.mp hthere
      refine Or.inr ⟨hreach, ?_⟩
      cases heq
      -- What is gone is the item with the highest number that was given.
      have hgone : s.lastId = n := by
        by_contra hne
        have hstays : s.lastId ∈ numbers env (s.remove env (itemName n)) :=
          mem_numbers_remove.mpr ⟨hne, mem_numbers_iff.mpr hthere⟩
        have hsame : (s.remove env (itemName s.lastId)).storage = (s.remove env (itemName n)).storage :=
          hstorage.trans (storage_remove n).symm
        rw [mem_numbers_iff, find_eq_of_storage hsame.symm, find_remove, if_pos rfl] at hstays
        exact hstays rfl
      rw [hgone]
      exact hn

theorem popsLast_iff (h : Numbered env s) : PopsLast env s ↔ LastStands env s := by
  refine ⟨lastStands_of_pops, ?_⟩
  rintro (hnil | ⟨hreach, hlast⟩)
  · refine ⟨fun _ => ?_, fun hne => absurd hnil hne⟩
    rw [listPopBack_eq, if_pos]
    by_contra hthere
    exact items_ne_nil (mem_numbers_iff.mpr (not_or.mp hthere).2) hnil
  · exact pops_of_lastStands h hreach hlast

/-! ## Pushing -/

theorem findNextListItem_first {id n : Nat} (hid : 1 ≤ id) (hle : id ≤ n) (hn : n ≤ s.lastId)
    (hthere : s.find env (itemName n) ≠ none) (hfirst : ∀ m, id ≤ m → m < n → s.find env (itemName m) = none) :
    findNextListItem env id s = some (some n) := by
  have hsearch : searchUp (fun m => (s.find env (itemName m)).isSome) id (s.lastId + 1 - id) = some n := by
    refine searchUp_first hle (by omega) (isSome_find_iff.mpr hthere) fun m hm hlt => ?_
    rw [hfirst m hm hlt]
    rfl
  unfold findNextListItem
  rw [if_neg (by simp; omega), hsearch]

theorem pushesNew_of_lt (hlt : s.lastId < uintMax) (hle : ∀ m ∈ numbers env s, m ≤ s.lastId) (data : Memory) :
    PushesNew env data s := by
  have hid := toUint_succ_of_lt hlt
  have hnew : s.lastId + 1 ∉ numbers env s := fun hn => absurd (hle _ hn) (by omega)
  refine ⟨fun _ => ?_, fun hlast => absurd hlast hlt.ne⟩
  rw [listPushBack_eq, hid]
  dsimp only
  rw [if_neg (fun hkept => hnew (mem_numbers_iff.mpr (isSome_find_iff.mp hkept.2)))]
  have hfind (name : String) : ({ s.store env (itemName (s.lastId + 1)) (storedData env s data) with
      numElements := toUint (s.numElements + 1), lastId := s.lastId + 1 } : RlistState).find env name =
      (s.store env (itemName (s.lastId + 1)) (storedData env s data)).find env name :=
    find_eq_of_storage rfl name
  refine ⟨s.lastId + 1, by omega, rfl, hnew, fun m hm => Nat.lt_succ_of_le (hle m hm), ?_, ?_⟩
  · rw [hfind, find_store, if_pos rfl]
  · intro id hid hle' hpast
    refine findNextListItem_first hid hle' le_rfl ?_ fun m hm hlt => ?_
    · rw [hfind, find_store, if_pos rfl]
      exact Option.some_ne_none _
    · rw [hfind, find_store, if_neg]
      · by_contra hthere
        exact absurd (hpast m (mem_numbers_iff.mpr hthere)) (by omega)
      · rw [key_itemName, key_itemName]
        exact fun hname => absurd (itemName_injective hname) (by omega)

theorem pushesNew_iff (h : Numbered env s) (data : Memory) : PushesNew env data s ↔ NumberLeft env s := by
  constructor
  · intro hpush
    rcases Nat.lt_or_eq_of_le h.lastId_le with hlt | hlast
    · refine Or.inl ⟨hlt, fun m hm => ?_⟩
      have hpushes := hpush.pushes
      rw [listPushBack_eq, toUint_succ_of_lt hlt] at hpushes
      dsimp only at hpushes
      rw [if_neg (fun hkept => absurd (itemName_eq_zero.mp hkept.1.2) (Nat.succ_ne_zero _))] at hpushes
      obtain ⟨n, -, hname, -, hbelow, -⟩ := hpushes rfl
      obtain rfl := itemName_injective (Option.some.inj hname)
      exact Nat.le_of_lt_succ (hbelow m hm)
    · have hrefused := (hpush.exhausted hlast).1
      rw [listPushBack_eq] at hrefused
      dsimp only at hrefused
      split at hrefused
      · rename_i hkept
        rw [hlast] at hkept
        exact Or.inr ⟨hlast, hkept.1.1, mem_numbers_iff.mpr (isSome_find_iff.mp hkept.2)⟩
      · exact absurd rfl hrefused
  · rintro (⟨hlt, hle⟩ | ⟨hlast, himm, hzero⟩)
    · exact pushesNew_of_lt hlt hle data
    · -- Only the RT object 0 keeps the call from going back to 0.
      have hkept : listPushBack env data s = (.noResources, some (itemName 0), s) := by
        rw [listPushBack_eq, hlast]
        exact if_pos ⟨⟨himm, rfl⟩, isSome_find_iff.mpr (mem_numbers_iff.mp hzero)⟩
      refine ⟨fun hok => ?_, fun _ => ?_⟩
      · rw [hkept] at hok
        cases hok
      · rw [hkept]
        exact ⟨nofun, rfl⟩

end

/-! ## In any list -/

/-- **Popping.** It takes away the last item exactly when the highest number that was given is still that of
the last item, and no name that is out of reach. -/
theorem pops_last_iff (env : RlistEnv) {s : RlistState} (h : Reached env s) : PopsLast env s ↔ LastStands env s :=
  popsLast_iff h.numbered

/-- Three items, of which the middle one is erased. -/
theorem pops_last_first :
    PopsLast ⟨"L", false, id⟩
      { blockSize := 1, lastId := 3, numElements := 2, storage := [("1", [7]), ("3", [9])] } := by
  have hreached : Reached ⟨"L", false, id⟩
      { blockSize := 1, lastId := 3, numElements := 2, storage := [("1", [7]), ("3", [9])] } :=
    .call (.call (.call (.call (.created (created_empty _ 1)) (.pushBack [7]) rfl) (.pushBack [8]) rfl)
      (.pushBack [9]) rfl) (.eraseItem ⟨1, "2"⟩) rfl
  refine (pops_last_iff ⟨"L", false, id⟩ hreached).mpr (.inr ⟨fun h => Bool.false_ne_true h.1, ?_, fun n hn => ?_⟩)
  · exact List.mem_cons_of_mem _ List.mem_cons_self
  · rcases List.mem_cons.mp hn with hn | hn
    · exact (itemName_injective hn : n = 1).trans_le (by decide)
    · exact (itemName_injective (List.mem_singleton.mp hn) : n = 3).le

/-- Two items, of which the last one is erased. -/
theorem not_pops_last : ¬ ∀ (env : RlistEnv) (s : RlistState), Reached env s → PopsLast env s := by
  intro h
  have hreached : Reached ⟨"L", false, id⟩ { blockSize := 1, lastId := 2, numElements := 1, storage :=
    [("1", [7])] } :=
    .call (.call (.call (.created (created_empty _ 1)) (.pushBack [7]) rfl) (.pushBack [8]) rfl)
      (.eraseItem ⟨1, "2"⟩) rfl
  obtain ⟨n, s', -, hpop, -⟩ := (h _ _ hreached).pops (by decide)
  exact absurd (show _ = MafReturn.ok from congrArg Prod.fst hpop) (by decide)

/-- **Pushing.** An item gets a new number above all others, or the call fails and changes nothing, exactly
when a number is left that is above all items, or none is left and the RT object 0 is in the way. -/
theorem pushes_new_iff (env : RlistEnv) {s : RlistState} (h : Reached env s) {l : Nat} (hl : l ≤ uintMax)
    (data : Memory) : PushesNew env data { s with lastId := l } ↔ NumberLeft env { s with lastId := l } :=
  pushesNew_iff (h.numbered.count h.numbered.numElements_le hl) data

/-- Two items, of which the first one is erased. -/
theorem pushes_new_first :
    PushesNew ⟨"L", false, id⟩ [9] { blockSize := 1, lastId := 2, numElements := 1, storage := [("2", [8])] } := by
  have hreached : Reached ⟨"L", false, id⟩
      { blockSize := 1, lastId := 2, numElements := 1, storage := [("2", [8])] } :=
    .call (.call (.call (.created (created_empty _ 1)) (.pushBack [7]) rfl) (.pushBack [8]) rfl)
      (.eraseItem ⟨1, "1"⟩) rfl
  refine (pushes_new_iff ⟨"L", false, id⟩ hreached (l := 2) (by decide) [9]).mpr (.inl ⟨by decide, fun n hn => ?_⟩)
  exact (itemName_injective (List.mem_singleton.mp hn) : n = 2).le

/-- The highest number there is was given, and no item is left. -/
theorem not_pushes_new :
    ¬ ∀ (env : RlistEnv) (s : RlistState), Reached env s → ∀ l ≤ uintMax, ∀ data,
      PushesNew env data { s with lastId := l } := by
  intro h
  have h := h ⟨"L", false, id⟩ { blockSize := 1 } (.created (created_empty _ 1)) uintMax le_rfl [7]
  exact absurd (h.exhausted rfl).2 (by decide)

end ComSA.Rlist
