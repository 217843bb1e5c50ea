import ComSA.Rlist.ItemCount

/-!
# Steps that fail

Pushing, popping and erasing go step by step: they read and update the attributes of the list
object, and write and delete items. A call returns at the first step that fails, with what the
steps before it have done.
-/

namespace ComSA.Rlist

open RlistState

inductive WriteFault where
  | notOpened
  | cutOff (written : Memory)
  deriving DecidableEq, Repr

structure Faults where
  readLastId : Bool := false
  readNumElements : Bool := false
  writeItem : Option WriteFault := none
  deleteItem : Bool := false
  updateNumElements : Bool := false
  updateLastId : Bool := false
  deriving DecidableEq, Repr

namespace Failing

variable (env : RlistEnv) (f : Faults)

def autoRetryWriteToFile (name : String) (data : Memory) (s : RlistState) : MafReturn × RlistState :=
  match f.writeItem with
  | none => (.ok, writeToFile env name data s)
  | some .notOpened => (.failure, s)
  | some (.cutOff written) => (.noResources, s.store env name written)

def removeFile (name : String) (s : RlistState) : MafReturn × RlistState :=
  if f.deleteItem then (.failure, s)
  else if (s.find env name).isSome then (.ok, s.remove env name)
  else (.failure, s)

def addRlistRTObject (lastId : Nat) (data : Memory) (s : RlistState) : MafReturn × RlistState :=
  match Rlist.addRlistRTObject env lastId data s with
  | (.ok, s') => if f.writeItem.isSome then (.failure, s) else (.ok, s')
  | r => r

def modifyRlistRTObject (name : String) (data : Memory) (s : RlistState) : MafReturn × RlistState :=
  if f.writeItem.isSome then (.failure, s) else Rlist.modifyRlistRTObject env name data s

def deleteRTObject (name : String) (s : RlistState) : MafReturn × RlistState :=
  if name = "0" then (.noResources, s)
  else if f.deleteItem then (.notExist, s)
  else Rlist.deleteRTObject env name s

/-- A file that could not be written is removed. -/
def writeItem (lastId : Nat) (data : Memory) (s : RlistState) : MafReturn × RlistState :=
  if env.replicateInIMM then
    match addRlistRTObject env f lastId data s with
    | (.alreadyExist, s) => modifyRlistRTObject env f (itemName lastId) data s
    | r => r
  else
    match autoRetryWriteToFile env f (itemName lastId) data s with
    | (.ok, s) => (.ok, s)
    | (rc, s) => (rc, (removeFile env f (itemName lastId) s).2)

def deleteItem (name : String) (s : RlistState) : MafReturn × RlistState :=
  if env.replicateInIMM then deleteRTObject env f name s
  else if (s.find env name).isSome then
    match removeFile env f name s with
    | (.ok, s) => (.ok, s)
    | (_, s) => (.notExist, s)
  else (.notExist, s)

def listPushBack (newItemData : Memory) (s : RlistState) : MafReturn × Option String × RlistState :=
  if f.readLastId then (.notExist, none, s)
  else if f.readNumElements then (.notExist, none, s)
  else
    let lastId := toUint (s.lastId + 1)
    if ulongMax = lastId then (.noResources, none, s)
    else
      let name := itemName lastId
      match writeItem env f lastId newItemData s with
      | (.ok, s) =>
        if f.updateNumElements then (.notExist, some name, s)
        else
          let s := { s with numElements := toUint (s.numElements + 1) }
          if f.updateLastId then (.notExist, some name, s)
          else (.ok, some name, { s with lastId := lastId })
      | (_, s) => (.noResources, some name, s)

def listPopBack (s : RlistState) : MafReturn × RlistState :=
  if f.readLastId then (.notExist, s)
  else
    match deleteItem env f (itemName s.lastId) s with
    | (.ok, s) =>
      if f.readNumElements then (.notExist, s)
      else if f.updateNumElements then (.notExist, s)
      else
        let s := { s with numElements := decrement s.numElements }
        if f.updateLastId then (.notExist, s)
        else (.ok, { s with lastId := lowerLastId (fun n => (s.find env (itemName n)).isSome) s.lastId })
    | (_, s) => (.notExist, s)

def listEraseItem (name : ListItemName) (s : RlistState) : MafReturn × RlistState :=
  if !validateName name then (.notExist, s)
  else
    match deleteItem env f name.value s with
    | (.notExist, s) => (.notExist, s)
    | (_, s) =>
      if f.readNumElements then (.notExist, s)
      else if f.updateNumElements then (.notExist, s)
      else (.ok, { s with numElements := decrement s.numElements })

/-! ## The steps -/

section
variable {env} {f} {s s' : RlistState}

theorem ulongMax_ne (n : Nat) : ulongMax ≠ toUint n := by
  have hlt := toUint_lt n
  unfold ulongMax
  omega

theorem deleteItem_eq (name : String) : deleteItem env f name s =
    if Unreachable env name then (.noResources, s)
    else if s.find env name = none ∨ f.deleteItem = true then (.notExist, s)
    else (.ok, s.remove env name) := by
  unfold deleteItem deleteRTObject Rlist.deleteRTObject removeFile Unreachable
  by_cases himm : env.replicateInIMM = true
  · by_cases hzero : name = "0"
    · simp [himm, hzero]
    · cases hfind : s.find env name <;> cases hdel : f.deleteItem <;> simp [himm, hzero]
  · cases hfind : s.find env name <;> cases hdel : f.deleteItem <;> simp [himm]

theorem writeItem_of_none (hf : f.writeItem = none) (n : Nat) (data : Memory) :
    writeItem env f n data s =
      if Unreachable env (itemName n) ∧ (s.find env (itemName n)).isSome then (.invalidArgument, s)
      else (.ok, s.store env (itemName n) (storedData env s data)) := by
  unfold writeItem addRlistRTObject modifyRlistRTObject autoRetryWriteToFile Rlist.addRlistRTObject
    Rlist.modifyRlistRTObject storedData Unreachable writeToFile
  rw [hf]
  generalize itemName n = name
  by_cases himm : env.replicateInIMM = true
  · by_cases hthere : (s.find env name).isSome = true
    · by_cases hzero : name = "0"
      · subst hzero
        simp [himm, hthere]
      · simp [himm, hthere, hzero]
    · simp [himm, hthere]
  · simp [himm]

theorem remove_of_none {name : String} (h : s.find env name = none) : s.remove env name = s := by
  rw [RlistState.remove, SortedMap.erase_of_none h]

/-- What is left of an item that could not be written. -/
def leftOver (env : RlistEnv) (f : Faults) (fault : WriteFault) (name : String) (s : RlistState) : RlistState :=
  if env.replicateInIMM then s
  else
    let s := match fault with
      | .notOpened => s
      | .cutOff written => s.store env name written
    if f.deleteItem then s else s.remove env name

theorem removeFile_snd (name : String) :
    (removeFile env f name s).2 = if f.deleteItem then s else s.remove env name := by
  unfold removeFile
  split
  · rfl
  split
  · rfl
  · rename_i hthere
    exact (remove_of_none (by simpa using hthere)).symm

theorem writeItem_of_some {fault : WriteFault} (hf : f.writeItem = some fault) (n : Nat) (data : Memory) :
    ∃ rc ≠ .ok, writeItem env f n data s = (rc, leftOver env f fault (itemName n) s) := by
  unfold writeItem leftOver
  by_cases himm : env.replicateInIMM = true
  · refine ⟨.failure, by decide, ?_⟩
    unfold addRlistRTObject modifyRlistRTObject Rlist.addRlistRTObject
    rw [hf]
    by_cases hthere : (s.find env (itemName n)).isSome = true <;> simp [himm, hthere]
  · rw [if_neg himm, if_neg himm]
    unfold autoRetryWriteToFile
    rw [hf]
    cases fault with
    | notOpened => exact ⟨.failure, by decide, by simp only [removeFile_snd]⟩
    | cutOff written => exact ⟨.noResources, by decide, by simp only [removeFile_snd]⟩

theorem listPushBack_of_failed (hlast : f.readLastId = false) (hnum : f.readNumElements = false) {data : Memory}
    {rc : MafReturn} (hrc : rc ≠ .ok) (hwrite : writeItem env f (toUint (s.lastId + 1)) data s = (rc, s')) :
    listPushBack env f data s = (.noResources, some (itemName (toUint (s.lastId + 1))), s') := by
  have hmax := ulongMax_ne (s.lastId + 1)
  unfold listPushBack
  rw [hlast, hnum, if_neg Bool.false_ne_true, if_neg Bool.false_ne_true]
  dsimp only
  rw [if_neg hmax, hwrite]
  cases rc with
  | ok => exact absurd rfl hrc
  | _ => rfl

theorem listPushBack_of_ok (hlast : f.readLastId = false) (hnum : f.readNumElements = false) {data : Memory}
    (hwrite : writeItem env f (toUint (s.lastId + 1)) data s = (.ok, s')) :
    listPushBack env f data s =
      if f.updateNumElements then (.notExist, some (itemName (toUint (s.lastId + 1))), s')
      else if f.updateLastId then (.notExist, some (itemName (toUint (s.lastId + 1))),
        { s' with numElements := toUint (s'.numElements + 1) })
      else (.ok, some (itemName (toUint (s.lastId + 1))),
        { s' with numElements := toUint (s'.numElements + 1), lastId := toUint (s.lastId + 1) }) := by
  have hmax := ulongMax_ne (s.lastId + 1)
  unfold listPushBack
  rw [hlast, hnum, if_neg Bool.false_ne_true, if_neg Bool.false_ne_true]
  dsimp only
  rw [if_neg hmax, hwrite]

theorem listPopBack_eq : listPopBack env f s =
    if f.readLastId then (.notExist, s)
    else if Unreachable env (itemName s.lastId) ∨ s.find env (itemName s.lastId) = none ∨ f.deleteItem = true then
      (.notExist, s)
    else
      let s' := s.remove env (itemName s.lastId)
      if f.readNumElements = true ∨ f.updateNumElements = true then (.notExist, s')
      else if f.updateLastId then (.notExist, { s' with numElements := decrement s.numElements })
      else (.ok, { s' with
        numElements := decrement s.numElements
        lastId := lowerLastId (fun n => (s'.find env (itemName n)).isSome) s.lastId }) := by
  have hscan : (fun n => (({ s.remove env (itemName s.lastId) with
      numElements := decrement s.numElements } : RlistState).find env (itemName n)).isSome) =
      fun n => ((s.remove env (itemName s.lastId)).find env (itemName n)).isSome :=
    funext fun n => congrArg Option.isSome (by rw [find_eq_of_storage]; rfl)
  unfold listPopBack
  rw [deleteItem_eq]
  by_cases hread : f.readLastId = true
  · rw [if_pos hread, if_pos hread]
  rw [if_neg hread, if_neg hread]
  by_cases hreach : Unreachable env (itemName s.lastId)
  · rw [if_pos hreach, if_pos (Or.inl hreach)]
  rw [if_neg hreach]
  by_cases hgone : s.find env (itemName s.lastId) = none ∨ f.deleteItem = true
  · rw [if_pos hgone, if_pos (Or.inr hgone)]
  rw [if_neg hgone, if_neg (not_or.mpr ⟨hreach, hgone⟩)]
  dsimp only
  by_cases hnum : f.readNumElements = true
  · rw [if_pos hnum, if_pos (Or.inl hnum)]
  rw [if_neg hnum]
  by_cases hcount : f.updateNumElements = true
  · rw [if_pos hcount, if_pos (Or.inr hcount)]
  rw [if_neg hcount, if_neg (not_or.mpr ⟨hnum, hcount⟩)]
  by_cases hlast : f.updateLastId = true
  · rw [if_pos hlast, if_pos hlast]
    rfl
  · rw [if_neg hlast, if_neg hlast]
    exact congrArg (fun present => (MafReturn.ok, ({ s.remove env (itemName s.lastId) with
      numElements := decrement s.numElements
      lastId := lowerLastId present s.lastId } : RlistState))) hscan

theorem listEraseItem_eq (name : ListItemName) : listEraseItem env f name s =
    if !validateName name then (.notExist, s)
    else if Unreachable env name.value then
      if f.readNumElements = true ∨ f.updateNumElements = true then (.notExist, s)
      else (.ok, { s with numElements := decrement s.numElements })
    else if s.find env name.value = none ∨ f.deleteItem = true then (.notExist, s)
    else if f.readNumElements = true ∨ f.updateNumElements = true then (.notExist, s.remove env name.value)
    else (.ok, { s.remove env name.value with numElements := decrement s.numElements }) := by
  unfold listEraseItem
  rw [deleteItem_eq]
  by_cases hreach : Unreachable env name.value
  · by_cases hnum : f.readNumElements = true <;> by_cases hcount : f.updateNumElements = true <;>
      simp [hreach, hnum, hcount]
  · by_cases hgone : s.find env name.value = none ∨ f.deleteItem = true
    · rw [if_neg hreach, if_neg hreach, if_pos hgone, if_pos hgone]
    · rw [if_neg hreach, if_neg hreach, if_neg hgone, if_neg hgone]
      by_cases hnum : f.readNumElements = true <;> by_cases hcount : f.updateNumElements = true <;>
        simp [hnum, hcount, remove]

/-! ## No step fails -/

theorem listPushBack_of_none (data : Memory) :
    listPushBack env {} data s = Rlist.listPushBack env data s := by
  have hwrite := @writeItem_of_none env {} s rfl (toUint (s.lastId + 1)) data
  rw [Rlist.listPushBack_eq]
  dsimp only
  by_cases hkept : Unreachable env (itemName (toUint (s.lastId + 1))) ∧
      (s.find env (itemName (toUint (s.lastId + 1)))).isSome
  · rw [if_pos hkept] at hwrite ⊢
    exact listPushBack_of_failed rfl rfl (by decide) hwrite
  · rw [if_neg hkept] at hwrite ⊢
    exact listPushBack_of_ok rfl rfl hwrite

theorem listPopBack_of_none : listPopBack env {} s = Rlist.listPopBack env s := by
  rw [listPopBack_eq, Rlist.listPopBack_eq]
  simp only [Bool.false_eq_true, if_false, or_false]

theorem listEraseItem_of_none (name : ListItemName) :
    listEraseItem env {} name s = Rlist.listEraseItem env name s := by
  rw [listEraseItem_eq, Rlist.listEraseItem_eq]
  simp only [Bool.false_eq_true, if_false, or_false]

end

end Failing

/-! ## Lists that are reached -/

inductive FailingCall where
  | pushBack (data : Memory)
  | popBack
  | eraseItem (name : ListItemName)

namespace FailingCall

def run (env : RlistEnv) (f : Faults) (s : RlistState) : FailingCall → MafReturn × RlistState
  | pushBack data => ((Failing.listPushBack env f data s).1, (Failing.listPushBack env f data s).2.2)
  | popBack => Failing.listPopBack env f s
  | eraseItem name => Failing.listEraseItem env f name s

end FailingCall

inductive Reached (env : RlistEnv) : RlistState → Prop where
  | created {s : RlistState} (h : Created env s) : Reached env s
  | call {s s' : RlistState} (h : Reached env s) (c : ListCall) (hc : c.run env s = some s') : Reached env s'
  | failing {s : RlistState} (h : Reached env s) (f : Faults) (c : FailingCall) : Reached env (c.run env f s).2

/-- The attributes have 32 bits, and every item has a number of 32 bits for a name. -/
structure Numbered (env : RlistEnv) (s : RlistState) : Prop where
  sorted : SortedMap.Sorted s.storage
  lastId_le : s.lastId ≤ uintMax
  numElements_le : s.numElements ≤ uintMax
  named : ∀ x ∈ items env s, ∃ n, x = itemName n ∧ n ≤ uintMax

section
variable {env : RlistEnv} {s : RlistState}

theorem toUint_le (n : Nat) : toUint n ≤ uintMax := by
  have := toUint_lt n
  unfold uintMax
  omega

theorem toUint_succ_of_lt {n : Nat} (h : n < uintMax) : toUint (n + 1) = n + 1 := by
  unfold uintMax at h
  exact Nat.mod_eq_of_lt (by omega)

theorem decrement_le (n : Nat) : decrement n ≤ uintMax := toUint_le _

theorem Numbered.count (h : Numbered env s) {n l : Nat} (hn : n ≤ uintMax) (hl : l ≤ uintMax) :
    Numbered env { s with numElements := n, lastId := l } :=
  ⟨h.sorted, hl, hn, h.named⟩

theorem Numbered.refs (h : Numbered env s) (refs : List (Option RLIterator)) :
    Numbered env { s with refs := refs } :=
  ⟨h.sorted, h.lastId_le, h.numElements_le, h.named⟩

theorem Numbered.remove (h : Numbered env s) (name : String) : Numbered env (s.remove env name) :=
  ⟨SortedMap.sorted_erase h.sorted _, h.lastId_le, h.numElements_le,
    fun x hx => h.named x (mem_items_of_remove hx)⟩

theorem Numbered.store_there (h : Numbered env s) {name : String} (hname : s.find env name ≠ none)
    (data : Memory) : Numbered env (s.store env name data) := by
  refine ⟨SortedMap.sorted_put h.sorted _ _, h.lastId_le, h.numElements_le, ?_⟩
  rw [items_store h.sorted hname]
  exact h.named

theorem Numbered.store (h : Numbered env s) {n : Nat} (hn : n ≤ uintMax) (data : Memory) :
    Numbered env (s.store env (itemName n) data) := by
  by_cases hthere : s.find env (itemName n) = none
  · refine ⟨SortedMap.sorted_put h.sorted _ _, h.lastId_le, h.numElements_le, fun x hx => ?_⟩
    rcases List.mem_cons.mp ((items_store_new hthere data).subset hx) with rfl | hx
    · exact ⟨n, rfl, hn⟩
    · exact h.named x hx
  · exact h.store_there hthere data

/-! ### One call -/

theorem numbered_deleteRTObject (h : Numbered env s) (name : String) :
    Numbered env (deleteRTObject env name s).2 := by
  unfold deleteRTObject
  split
  · exact h
  split
  · exact h.remove name
  · exact h

theorem numbered_eraseItem (h : Numbered env s) (name : ListItemName) :
    Numbered env (listEraseItem env name s).2 := by
  rw [listEraseItem_eq]
  split
  · exact h
  split
  · exact h.count (decrement_le _) h.lastId_le
  split
  · exact h
  · exact (h.remove _).count (decrement_le _) h.lastId_le

theorem numbered_lostItem (h : Numbered env s) : Numbered env (lostItem s) := by
  refine h.count (decrement_le _) ?_
  split
  · exact Nat.zero_le _
  · exact h.lastId_le

theorem numbered_getNextItemFront {s' : RlistState} {ref : Nat} {r : MafReturn}
    {item : Option (String × Memory)} (h : Numbered env s)
    (hnext : listGetNextItemFront env ref s = some (r, item, s')) : Numbered env s' := by
  unfold listGetNextItemFront at hnext
  cases href : s.refs[ref]?.join with
  | none =>
    rw [href] at hnext
    cases hnext
    exact h
  | some it =>
    rw [href] at hnext
    dsimp only at hnext
    split at hnext
    · cases hnext
      exact h.refs _
    split at hnext
    · cases hnext
    · cases hnext
      exact numbered_lostItem h
    split at hnext
    · cases hnext
      refine numbered_lostItem ?_
      split
      · exact numbered_deleteRTObject (h.refs _) _
      · exact (h.refs _).remove _
    · cases hnext
      exact h.refs _

theorem numbered_call {s' : RlistState} (h : Numbered env s) {c : ListCall} (hc : c.run env s = some s') :
    Numbered env s' := by
  cases c with
  | pushBack data =>
    obtain rfl := Option.some.inj hc
    rw [listPushBack_eq]
    dsimp only
    split
    · exact h
    · exact (h.store (toUint_le _) _).count (toUint_le _) (toUint_le _)
  | popBack =>
    obtain rfl := Option.some.inj hc
    rw [listPopBack_eq]
    split
    · exact h
    · exact (h.remove _).count (decrement_le _) ((lowerLastId_le _ _).trans h.lastId_le)
  | eraseItem name =>
    obtain rfl := Option.some.inj hc
    exact numbered_eraseItem h name
  | replaceItem name data =>
    obtain rfl := Option.some.inj hc
    rw [listReplaceItem_eq]
    split
    · exact h
    split
    · exact h
    · rename_i hthere
      exact h.store_there (not_or.mp hthere).2 _
  | findItem name =>
    obtain rfl := Option.some.inj hc
    by_cases hread : Unreadable env s name
    · rw [(listFindItem_of_unreadable hread).2]
      split
      · exact h.remove _
      · exact (h.remove _).count (decrement_le _) h.lastId_le
    · rwa [listFindItem_of_readable hread]
  | clear =>
    obtain rfl := Option.some.inj hc
    refine ⟨h.sorted.filter _, h.lastId_le, Nat.zero_le _, fun x hx => h.named x ?_⟩
    obtain ⟨hx, hitem⟩ := List.mem_filter.mp hx
    exact List.mem_filter.mpr ⟨(List.filter_sublist.map Prod.fst).subset hx, hitem⟩
  | getFrontRef =>
    obtain rfl := Option.some.inj hc
    rw [listGetFrontRef]
    split
    · exact h
    · exact h.refs _
  | getNextItemFront ref =>
    obtain ⟨⟨r, item, s₁⟩, hnext, rfl⟩ := Option.map_eq_some_iff.mp hc
    exact numbered_getNextItemFront h hnext
  | getFinalize ref =>
    obtain rfl := Option.some.inj hc
    exact h.refs _

theorem numbered_writeItem (h : Numbered env s) (f : Faults) {n : Nat} (hn : n ≤ uintMax) (data : Memory) :
    Numbered env (Failing.writeItem env f n data s).2 := by
  cases hf : f.writeItem with
  | none =>
    rw [Failing.writeItem_of_none hf]
    split
    · exact h
    · exact h.store hn _
  | some fault =>
    obtain ⟨rc, -, heq⟩ := @Failing.writeItem_of_some env _ s _ hf n data
    rw [heq]
    unfold Failing.leftOver
    split
    · exact h
    cases fault with
    | notOpened =>
      dsimp only
      split
      · exact h
      · exact h.remove _
    | cutOff written =>
      dsimp only
      split
      · exact h.store hn _
      · exact (h.store hn _).remove _

theorem numbered_failing (h : Numbered env s) (f : Faults) (c : FailingCall) :
    Numbered env (c.run env f s).2 := by
  cases c with
  | pushBack data =>
    have hwrite := numbered_writeItem h f (toUint_le (s.lastId + 1)) data
    unfold FailingCall.run Failing.listPushBack
    dsimp only
    split
    · exact h
    split
    · exact h
    split
    · exact h
    split
    · rename_i s' heq
      rw [heq] at hwrite
      split
      · exact hwrite
      split
      · exact hwrite.count (toUint_le _) hwrite.lastId_le
      · exact hwrite.count (toUint_le _) (toUint_le _)
    · rename_i heq
      rw [heq] at hwrite
      exact hwrite
  | popBack =>
    change Numbered env (Failing.listPopBack env f s).2
    rw [Failing.listPopBack_eq]
    split
    · exact h
    split
    · exact h
    dsimp only
    split
    · exact h.remove _
    split
    · exact (h.remove _).count (decrement_le _) h.lastId_le
    · exact (h.remove _).count (decrement_le _) ((lowerLastId_le _ _).trans h.lastId_le)
  | eraseItem name =>
    change Numbered env (Failing.listEraseItem env f name s).2
    rw [Failing.listEraseItem_eq]
    split
    · exact h
    split
    · split
      · exact h
      · exact h.count (decrement_le _) h.lastId_le
    split
    · exact h
    split
    · exact h.remove _
    · exact (h.remove _).count (decrement_le _) h.lastId_le

theorem Reached.numbered (h : Reached env s) : Numbered env s := by
  induction h with
  | created h =>
    refine ⟨h.sorted, by rw [h.lastId]; exact Nat.zero_le _, by rw [h.numElements]; exact Nat.zero_le _, ?_⟩
    rw [h.items]
    exact fun x hx => absurd hx List.not_mem_nil
  | call _ c hc ih => exact numbered_call ih hc
  | failing _ f c ih => exact numbered_failing ih f c

end

end ComSA.Rlist
