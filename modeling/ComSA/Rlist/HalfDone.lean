import ComSA.Rlist.FailingSteps

/-!
# Calls that stop half way

A call on a list in order, with steps that fail. When it leaves a list in order, and where it
fails the items as they were.
-/

namespace ComSA.Rlist

open RlistState

def contents (env : RlistEnv) (s : RlistState) : List (String × Memory) :=
  s.storage.filter fun x => isItem env x.1

/-- The count is right, and no item has a number above the highest one. -/
structure Accounted (env : RlistEnv) (s : RlistState) : Prop where
  count : s.numElements = (items env s).length
  le_lastId : ∀ n, itemName n ∈ items env s → n ≤ s.lastId

/-- What a call is to leave, whatever it returns. -/
def LeavesOrder (env : RlistEnv) (s : RlistState) (r : MafReturn × RlistState) : Prop :=
  Accounted env r.2 ∧ (r.1 ≠ .ok → contents env r.2 = contents env s)

/-- After a file that could not be written, `old` is stored as before. Removing it may have failed too. -/
def WriteFault.Undone (old : Option Memory) (kept : Bool) : WriteFault → Prop
  | notOpened => old = none ∨ kept = true
  | cutOff written => if kept then old = some written else old = none

instance (old : Option Memory) (kept : Bool) (fault : WriteFault) : Decidable (fault.Undone old kept) :=
  match fault with
  | .notOpened => inferInstanceAs (Decidable (_ ∨ _))
  | .cutOff written => inferInstanceAs (Decidable (if kept then old = some written else old = none))

namespace FailingCall

/-- Once an item was written, both attributes are updated, to numbers that there are. Once an item was
deleted, no later step fails; and the count goes down with an item only. -/
def Fine (env : RlistEnv) (f : Faults) (s : RlistState) : FailingCall → Prop
  | pushBack data =>
    let name := itemName (toUint (s.lastId + 1))
    f.readLastId = true ∨ f.readNumElements = true ∨
      match f.writeItem with
      | some fault => env.replicateInIMM = true ∨ fault.Undone (s.find env name) f.deleteItem
      | none => Unreachable env name ∧ s.find env name ≠ none ∨
          if f.updateNumElements then s.find env name = some (storedData env s data)
          else f.updateLastId = false ∧ s.numElements < uintMax ∧ (s.lastId = uintMax → s.numElements = 0)
  | popBack => f.readLastId = true ∨ Unreachable env (itemName s.lastId) ∨
      s.find env (itemName s.lastId) = none ∨ f.deleteItem = true ∨
      f.readNumElements = false ∧ f.updateNumElements = false ∧ f.updateLastId = false
  | eraseItem name => validateName name = true →
      if Unreachable env name.value then f.readNumElements = true ∨ f.updateNumElements = true
      else s.find env name.value = none ∨ f.deleteItem = true ∨
        (isItem env (key env name.value) = true ↔ f.readNumElements = false ∧ f.updateNumElements = false)

end FailingCall

section
variable {env : RlistEnv} {f : Faults} {s s' : RlistState}

/-! ## Items as they were -/

theorem contents_count (n l : Nat) : contents env { s with numElements := n, lastId := l } = contents env s := rfl

theorem items_eq_map_contents : items env s = (contents env s).map Prod.fst := by
  rw [items, contents, List.filter_map]
  rfl

theorem items_eq_of_contents (h : contents env s' = contents env s) : items env s' = items env s := by
  rw [items_eq_map_contents, items_eq_map_contents, h]

theorem find_eq_of_contents (h : contents env s' = contents env s) {name : String}
    (hitem : isItem env (key env name) = true) : s'.find env name = s.find env name := by
  have hget (s : RlistState) : s.find env name = SortedMap.get? (key env name) (contents env s) := by
    rw [contents, SortedMap.get?_filter, if_pos hitem, find]
  rw [hget, hget, h]

theorem contents_store_iff (hs : SortedMap.Sorted s.storage) {n : Nat} {data : Memory} :
    contents env (s.store env (itemName n) data) = contents env s ↔ s.find env (itemName n) = some data := by
  constructor
  · intro h
    rw [← find_eq_of_contents h (by simp), find_store, if_pos rfl]
  · intro h
    rw [contents, store, SortedMap.put_of_get? hs h, contents]

theorem contents_remove_iff {name : String} (hitem : isItem env (key env name) = true) :
    contents env (s.remove env name) = contents env s ↔ s.find env name = none := by
  constructor
  · intro h
    rw [← find_eq_of_contents h hitem, find_remove, if_pos rfl]
  · intro h
    rw [Failing.remove_of_none h]

theorem contents_store_remove_iff {n : Nat} {data : Memory} :
    contents env ((s.store env (itemName n) data).remove env (itemName n)) = contents env s ↔
      s.find env (itemName n) = none := by
  constructor
  · intro h
    rw [← find_eq_of_contents h (by simp), find_remove, if_pos rfl]
  · intro h
    rw [contents, remove, store, SortedMap.erase_put h, contents]

theorem contents_remove_other {name : String} (hitem : isItem env (key env name) ≠ true) :
    contents env (s.remove env name) = contents env s := by
  rw [contents, remove, SortedMap.erase_eq_filter, List.filter_filter, contents]
  refine List.filter_congr fun x _ => ?_
  by_cases hx : key env name = x.1
  · rw [← hx]
    simp [hitem]
  · simp [hx]

/-! ## Lists in order -/

theorem Accounted.of_contents (ha : Accounted env s) (hcount : s'.numElements = s.numElements)
    (hlast : s'.lastId = s.lastId) (h : contents env s' = contents env s) : Accounted env s' := by
  have hitems := items_eq_of_contents h
  refine ⟨by rw [hcount, hitems, ha.count], fun n hn => ?_⟩
  rw [hlast]
  exact ha.le_lastId n (hitems ▸ hn)

theorem leavesOrder_self (ha : Accounted env s) (rc : MafReturn) : LeavesOrder env s (rc, s) :=
  ⟨ha, fun _ => rfl⟩

theorem leavesOrder_iff_contents (ha : Accounted env s) (rc : MafReturn) (hrc : rc ≠ .ok)
    (hcount : s'.numElements = s.numElements) (hlast : s'.lastId = s.lastId) :
    LeavesOrder env s (rc, s') ↔ contents env s' = contents env s :=
  ⟨fun h => h.2 hrc, fun h => ⟨ha.of_contents hcount hlast h, fun _ => h⟩⟩

theorem not_accounted_of_contents (ha : Accounted env s) (hcount : s'.numElements ≠ s.numElements)
    (h : contents env s' = contents env s) : ¬ Accounted env s' := by
  intro ha'
  exact hcount (by rw [ha'.count, items_eq_of_contents h, ha.count])

theorem find_of_gt (ha : Accounted env s) {n : Nat} (hn : s.lastId < n) : s.find env (itemName n) = none := by
  by_contra hthere
  exact absurd (ha.le_lastId n (mem_items_iff.mpr hthere)) (not_le.mpr hn)

theorem toUint_succ_ne (n : Nat) : toUint (n + 1) ≠ n := by
  unfold toUint
  omega

theorem toUint_succ_uintMax : toUint (uintMax + 1) = 0 := rfl

/-! ## Pushing -/

theorem contents_leftOver_iff (hs : SortedMap.Sorted s.storage) (fault : WriteFault) (n : Nat) :
    contents env (Failing.leftOver env f fault (itemName n) s) = contents env s ↔
      env.replicateInIMM = true ∨ fault.Undone (s.find env (itemName n)) f.deleteItem := by
  unfold Failing.leftOver
  by_cases himm : env.replicateInIMM = true
  · simp [himm]
  · rw [if_neg himm, or_iff_right himm]
    cases fault with
    | notOpened =>
      by_cases hkept : f.deleteItem = true
      · simp [WriteFault.Undone, hkept]
      · simp [WriteFault.Undone, hkept, contents_remove_iff]
    | cutOff written =>
      by_cases hkept : f.deleteItem = true
      · simp [WriteFault.Undone, hkept, contents_store_iff hs]
      · simp [WriteFault.Undone, hkept, contents_store_remove_iff]

theorem leftOver_attributes (fault : WriteFault) (name : String) :
    (Failing.leftOver env f fault name s).numElements = s.numElements ∧
      (Failing.leftOver env f fault name s).lastId = s.lastId := by
  unfold Failing.leftOver
  split
  · exact ⟨rfl, rfl⟩
  cases fault with
  | notOpened =>
    dsimp only
    split <;> exact ⟨rfl, rfl⟩
  | cutOff written =>
    dsimp only
    split <;> exact ⟨rfl, rfl⟩

/-- An item under a new number is counted, as long as there are numbers and the highest one is that of
the item. -/
theorem accounted_push_iff (h : Numbered env s) (ha : Accounted env s) (data : Memory) :
    Accounted env { s.store env (itemName (toUint (s.lastId + 1))) data with
        numElements := toUint (s.numElements + 1)
        lastId := toUint (s.lastId + 1) } ↔
      s.numElements < uintMax ∧ (s.lastId = uintMax → s.numElements = 0) := by
  constructor
  · intro ha'
    have hnew : s.find env (itemName (toUint (s.lastId + 1))) = none := by
      by_contra hthere
      have hcount := ha'.count
      rw [items_count, items_store h.sorted hthere, ← ha.count] at hcount
      exact toUint_succ_ne _ hcount
    have hcount := ha'.count
    rw [items_count, (items_store_new hnew data).length_eq, List.length_cons, ← ha.count] at hcount
    have hlt : s.numElements < uintMax := by
      have hle := toUint_le (s.numElements + 1)
      change toUint (s.numElements + 1) = _ at hcount
      omega
    refine ⟨hlt, fun hlast => ?_⟩
    rw [hlast, toUint_succ_uintMax] at ha' hnew
    rw [ha.count, List.length_eq_zero_iff, List.eq_nil_iff_forall_not_mem]
    intro x hx
    obtain ⟨m, rfl, -⟩ := h.named x hx
    -- No number is left but 0, which no item has.
    have hm := ha'.le_lastId m (by
      rw [items_count, mem_items_iff, find_store]
      split
      · exact Option.some_ne_none _
      · exact mem_items_iff.mp hx)
    obtain rfl : m = 0 := Nat.le_zero.mp hm
    exact mem_items_iff.mp hx hnew
  · rintro ⟨hlt, hlast⟩
    have hnil (heq : s.lastId = uintMax) : items env s = [] :=
      List.length_eq_zero_iff.mp (ha.count ▸ hlast heq)
    have hnew : s.find env (itemName (toUint (s.lastId + 1))) = none := by
      rcases Nat.lt_or_eq_of_le h.lastId_le with hlt | heq
      · exact find_of_gt ha (by rw [toUint_succ_of_lt hlt]; exact Nat.lt_succ_self _)
      · by_contra hthere
        rw [← ne_eq, ← mem_items_iff, hnil heq] at hthere
        exact List.not_mem_nil hthere
    have hperm := items_store_new hnew data
    refine ⟨?_, fun n hn => ?_⟩
    · rw [items_count, hperm.length_eq, List.length_cons, ← ha.count]
      exact toUint_succ_of_lt hlt
    · rw [items_count] at hn
      rcases List.mem_cons.mp (hperm.subset hn) with hn | hn
      · exact (itemName_injective hn).le
      · rcases Nat.lt_or_eq_of_le h.lastId_le with hlt | heq
        · have hle := ha.le_lastId n hn
          change n ≤ toUint (s.lastId + 1)
          rw [toUint_succ_of_lt hlt]
          omega
        · rw [hnil heq] at hn
          exact absurd hn List.not_mem_nil

theorem leavesOrder_pushBack_iff (h : Numbered env s) (ha : Accounted env s) (data : Memory) :
    LeavesOrder env s ((FailingCall.pushBack data).run env f s) ↔ (FailingCall.pushBack data).Fine env f s := by
  unfold FailingCall.run FailingCall.Fine
  dsimp only
  by_cases hread : f.readLastId = true
  · simp only [Failing.listPushBack, hread, true_or, if_true, iff_true]
    exact leavesOrder_self ha _
  by_cases hread' : f.readNumElements = true
  · simp only [Failing.listPushBack, hread, hread', true_or, or_true, if_true, iff_true]
    exact leavesOrder_self ha _
  rw [or_iff_right hread, or_iff_right hread']
  rw [Bool.not_eq_true] at hread hread'
  cases hwrite : f.writeItem with
  | some fault =>
    obtain ⟨rc, hrc, heq⟩ := @Failing.writeItem_of_some env f s fault hwrite (toUint (s.lastId + 1)) data
    obtain ⟨hcount, hlast⟩ := @leftOver_attributes env f s fault
      (itemName (toUint (s.lastId + 1)))
    rw [Failing.listPushBack_of_failed hread hread' hrc heq]
    exact (leavesOrder_iff_contents ha .noResources (by decide) hcount hlast).trans
      (contents_leftOver_iff h.sorted fault _)
  | none =>
    have heq := @Failing.writeItem_of_none env f s hwrite (toUint (s.lastId + 1)) data
    by_cases hkept : Unreachable env (itemName (toUint (s.lastId + 1))) ∧
        s.find env (itemName (toUint (s.lastId + 1))) ≠ none
    · rw [if_pos ⟨hkept.1, isSome_find_iff.mpr hkept.2⟩] at heq
      rw [Failing.listPushBack_of_failed hread hread' (by decide) heq]
      exact iff_of_true (leavesOrder_self ha _) (Or.inl hkept)
    · rw [if_neg (fun hkept' => hkept ⟨hkept'.1, isSome_find_iff.mp hkept'.2⟩)] at heq
      rw [Failing.listPushBack_of_ok hread hread' heq, or_iff_right (by tauto)]
      by_cases hcount : f.updateNumElements = true
      · rw [if_pos hcount, if_pos hcount]
        refine Iff.trans ?_ (contents_store_iff h.sorted)
        exact leavesOrder_iff_contents ha .notExist (by decide) rfl rfl
      rw [if_neg hcount, if_neg hcount]
      by_cases hlast : f.updateLastId = true
      · rw [if_pos hlast]
        refine iff_of_false (fun hleaves => ?_) (by simp [hlast])
        exact not_accounted_of_contents ha (toUint_succ_ne _) (hleaves.2 nofun) hleaves.1
      · rw [if_neg hlast, and_iff_right (by simpa using hlast), ← accounted_push_iff h ha]
        exact ⟨fun hleaves => hleaves.1, fun hacc => ⟨hacc, fun hrc => absurd rfl hrc⟩⟩

/-! ## Deleting -/

theorem contents_remove_ne {name : String} (hitem : isItem env (key env name) = true)
    (hthere : s.find env name ≠ none) : contents env (s.remove env name) ≠ contents env s :=
  fun h => hthere ((contents_remove_iff hitem).mp h)

theorem Accounted.remove (h : Numbered env s) (ha : Accounted env s) {name : String}
    (hitem : isItem env (key env name) = true) (hthere : s.find env name ≠ none) {l : Nat}
    (hl : ∀ n, (s.remove env name).find env (itemName n) ≠ none → n ≤ s.lastId → n ≤ l) :
    Accounted env { s.remove env name with numElements := decrement s.numElements, lastId := l } := by
  have hperm := items_remove h.sorted hthere
  rw [if_pos hitem] at hperm
  have hlen := hperm.length_eq
  rw [List.length_cons, ← ha.count] at hlen
  refine ⟨?_, fun n hn => ?_⟩
  · rw [items_count]
    dsimp only
    rw [decrement_eq (by omega) h.numElements_le, hlen, Nat.add_sub_cancel]
  · rw [items_count] at hn
    exact hl n (mem_items_iff.mp hn) (ha.le_lastId n (mem_items_of_remove hn))

theorem leavesOrder_popBack_iff (h : Numbered env s) (ha : Accounted env s) :
    LeavesOrder env s (FailingCall.popBack.run env f s) ↔ FailingCall.popBack.Fine env f s := by
  unfold FailingCall.run FailingCall.Fine
  dsimp only
  rw [Failing.listPopBack_eq]
  by_cases hread : f.readLastId = true
  · rw [if_pos hread]
    exact iff_of_true (leavesOrder_self ha _) (Or.inl hread)
  rw [if_neg hread, or_iff_right hread]
  by_cases hgone : Unreachable env (itemName s.lastId) ∨ s.find env (itemName s.lastId) = none ∨ f.deleteItem = true
  · rw [if_pos hgone]
    exact iff_of_true (leavesOrder_self ha _) (by tauto)
  rw [if_neg hgone]
  obtain ⟨hreach, hthere, hdelete⟩ : ¬ Unreachable env (itemName s.lastId) ∧
    s.find env (itemName s.lastId) ≠ none ∧ ¬ f.deleteItem = true := by tauto
  rw [or_iff_right hreach, or_iff_right hthere, or_iff_right hdelete]
  dsimp only
  -- The item is gone, so the call must not fail any more.
  have hne := @contents_remove_ne env _ _ (by simp) hthere
  by_cases hcount : f.readNumElements = true ∨ f.updateNumElements = true
  · rw [if_pos hcount]
    refine iff_of_false (fun hleaves => hne (hleaves.2 nofun)) fun hfine => ?_
    simp [hfine.1, hfine.2.1] at hcount
  rw [if_neg hcount]
  by_cases hlast : f.updateLastId = true
  · rw [if_pos hlast]
    refine iff_of_false (fun hleaves => hne ((contents_count _ _).symm.trans (hleaves.2 nofun))) fun hfine => ?_
    simp [hfine.2.2] at hlast
  · rw [if_neg hlast]
    have hfine : f.readNumElements = false ∧ f.updateNumElements = false ∧ f.updateLastId = false := by
      simpa [not_or, and_assoc] using And.intro hcount hlast
    have hlow (n : Nat) (hn : (s.remove env (itemName s.lastId)).find env (itemName n) ≠ none)
      (hle : n ≤ s.lastId) :
        n ≤ lowerLastId (fun n => ((s.remove env (itemName s.lastId)).find env (itemName n)).isSome) s.lastId := by
      refine le_lowerLastId (isSome_find_iff.mpr hn) (lt_of_le_of_ne hle ?_)
      rintro rfl
      rw [find_remove, if_pos rfl] at hn
      exact hn rfl
    exact iff_of_true ⟨ha.remove h (by simp) hthere hlow, fun hrc => absurd rfl hrc⟩ hfine

theorem leavesOrder_eraseItem_iff (h : Numbered env s) (ha : Accounted env s) (name : ListItemName) :
    LeavesOrder env s ((FailingCall.eraseItem name).run env f s) ↔
      (FailingCall.eraseItem name).Fine env f s := by
  unfold FailingCall.run FailingCall.Fine
  dsimp only
  rw [Failing.listEraseItem_eq]
  by_cases hvalid : validateName name = true
  swap
  · rw [if_pos (by simpa using hvalid)]
    exact iff_of_true (leavesOrder_self ha _) fun hvalid' => absurd hvalid' hvalid
  rw [if_neg (by simp [hvalid]), forall_prop_of_true hvalid]
  have hcount_iff : f.readNumElements = false ∧ f.updateNumElements = false ↔
      ¬ (f.readNumElements = true ∨ f.updateNumElements = true) := by simp
  rw [hcount_iff]
  by_cases hreach : Unreachable env name.value
  · rw [if_pos hreach, if_pos hreach]
    by_cases hcount : f.readNumElements = true ∨ f.updateNumElements = true
    · rw [if_pos hcount]
      exact iff_of_true (leavesOrder_self ha _) hcount
    · rw [if_neg hcount]
      refine iff_of_false (fun hleaves => ?_) hcount
      refine absurd hleaves.1 (not_accounted_of_contents ha ?_ ?_)
      · exact decrement_ne _
      · exact contents_count _ _
  rw [if_neg hreach, if_neg hreach]
  by_cases hgone : s.find env name.value = none ∨ f.deleteItem = true
  · rw [if_pos hgone]
    exact iff_of_true (leavesOrder_self ha _) (hgone.imp_right Or.inl)
  rw [if_neg hgone, ← or_assoc, or_iff_right hgone]
  have hthere := (not_or.mp hgone).1
  by_cases hcount : f.readNumElements = true ∨ f.updateNumElements = true
  · rw [if_pos hcount, iff_false_right (not_not.mpr hcount)]
    by_cases hitem : isItem env (key env name.value) = true
    · refine iff_of_false (fun hleaves => ?_) (not_not.mpr hitem)
      exact contents_remove_ne hitem hthere (hleaves.2 nofun)
    · refine iff_of_true ?_ hitem
      have hsame := contents_remove_other hitem (s := s)
      exact ⟨ha.of_contents rfl rfl hsame, fun _ => hsame⟩
  · rw [if_neg hcount, iff_true_right hcount]
    by_cases hitem : isItem env (key env name.value) = true
    · refine iff_of_true ⟨ha.remove h hitem hthere fun n _ hle => hle, fun hrc => absurd rfl hrc⟩ hitem
    · refine iff_of_false (fun hleaves => ?_) hitem
      refine absurd hleaves.1 (not_accounted_of_contents ha ?_ ?_)
      · exact decrement_ne _
      · exact (contents_count _ _).trans (contents_remove_other hitem)

theorem leavesOrder_run_iff (h : Numbered env s) (ha : Accounted env s) (c : FailingCall) :
    LeavesOrder env s (c.run env f s) ↔ c.Fine env f s := by
  cases c with
  | pushBack data => exact leavesOrder_pushBack_iff h ha data
  | popBack => exact leavesOrder_popBack_iff h ha
  | eraseItem name => exact leavesOrder_eraseItem_iff h ha name

theorem Created.accounted (h : Created env s) : Accounted env s := by
  refine ⟨by rw [h.numElements, h.items]; rfl, fun n hn => ?_⟩
  rw [h.items] at hn
  exact absurd hn List.not_mem_nil

end

/-! ## Any call on a list in order -/

end ComSA.Rlist
