import ComSA.Lib.Run
import ComSA.Rlist.ReplicatedList

/-!
# What comes back of an item

An item is written once, and calls on other items follow. When finding it or iterating
gives back the bytes that were written.
-/

namespace ComSA.Rlist

open RlistState

inductive ItemCall where
  | push (data : Memory)
  | erase (name : ListItemName)
  | replace (name : ListItemName) (data : Memory)

namespace ItemCall

def run (env : RlistEnv) (s : RlistState) : ItemCall → RlistState
  | push data => (listPushBack env data s).2.2
  | erase name => (listEraseItem env name s).2
  | replace name data => (listReplaceItem env name data s).2

def OnOther (env : RlistEnv) (k : String) (s : RlistState) : ItemCall → Prop
  | push _ => key env (itemName (toUint (s.lastId + 1))) ≠ key env k
  | erase name => key env name.value ≠ key env k
  | replace name _ => key env name.value ≠ key env k

end ItemCall

inductive Write where
  | push
  | replace (name : ListItemName)

/-- How many bytes an item has is read of the list, `UINT_MAX` where that failed. A file is written with an
`int` of it, and a negative one makes `fwrite` go beyond the data. -/
def SizeUsable (env : RlistEnv) (s : RlistState) : Prop :=
  if env.replicateInIMM then env.listInstanceName = "FmStatusSection" → s.blockSize ≠ uintMax
  else s.blockSize < 2 ^ 31

instance (env : RlistEnv) (s : RlistState) : Decidable (SizeUsable env s) := by
  unfold SizeUsable
  infer_instance

namespace Write

def call (env : RlistEnv) (data : Memory) (s : RlistState) : Write → MafReturn × Option String × RlistState
  | push => listPushBack env data s
  | replace name =>
    let r := listReplaceItem env name data s
    (r.1, some name.value, r.2)

def run (env : RlistEnv) (data : Memory) (s : RlistState) (w : Write) : Option (String × RlistState) :=
  if SizeUsable env s then
    match w.call env data s with
    | (.ok, some k, s') => some (k, s')
    | _ => none
  else none

def HasName (s : RlistState) : Write → Prop
  | push => toUint (s.lastId + 1) ≠ 0
  | replace _ => True

end Write

/-- Finding the item, and every iteration that gets to it, gives these bytes and nothing else. -/
def RoundTrips (env : RlistEnv) (k : String) (block : Memory) (s : RlistState) : Prop :=
  (∀ name, validateName name = true → name.value = k →
    listFindItem env name s = (.ok, some block, s)) ∧
  ∀ ref it n, s.refs[ref]? = some (some it) → it.size = s.blockSize → it.index < s.numElements →
    findNextListItem env it.id s = some (some n) → itemName n = k →
    ∃ s', listGetNextItemFront env ref s = some (.ok, some (k, block), s')

/-- The string that the memory starts with is not longer than the block, and in the block only zeros
come after it. A length of `UINT_MAX` is not read back. -/
def IsString (blockSize : Nat) (m : Memory) : Prop :=
  toUint (m.takeWhile (· ≠ 0)).length ≤ blockSize ∧ toUint (m.takeWhile (· ≠ 0)).length ≠ uintMax ∧
    ∀ b ∈ (m.take blockSize).drop (toUint (m.takeWhile (· ≠ 0)).length), b = 0

section
variable {env : RlistEnv} {s : RlistState} {k : String}

/-! ## Other items -/

def Untouched (env : RlistEnv) (k : String) (s s' : RlistState) : Prop :=
  s'.find env k = s.find env k ∧ s'.blockSize = s.blockSize

theorem untouched_count (n l : Nat) : Untouched env k s { s with numElements := n, lastId := l } :=
  ⟨find_eq_of_storage rfl k, rfl⟩

theorem Untouched.trans {s' s'' : RlistState} (h : Untouched env k s s') (h' : Untouched env k s' s'') :
    Untouched env k s s'' :=
  ⟨h'.1.trans h.1, h'.2.trans h.2⟩

theorem untouched_store {name : String} (h : key env name ≠ key env k) (data : Memory) :
    Untouched env k s (s.store env name data) := by
  refine ⟨?_, rfl⟩
  rw [find_store, if_neg (Ne.symm h)]

theorem untouched_remove {name : String} (h : key env name ≠ key env k) :
    Untouched env k s (s.remove env name) := by
  refine ⟨?_, rfl⟩
  rw [find_remove, if_neg (Ne.symm h)]

theorem untouched_call {c : ItemCall} (h : c.OnOther env k s) : Untouched env k s (c.run env s) := by
  cases c with
  | push data =>
    rw [ItemCall.run, listPushBack_eq]
    dsimp only
    split
    · exact ⟨rfl, rfl⟩
    · exact (untouched_store h _).trans (untouched_count _ _)
  | erase name =>
    rw [ItemCall.run, listEraseItem_eq]
    split
    · exact ⟨rfl, rfl⟩
    split
    · exact untouched_count _ _
    split
    · exact ⟨rfl, rfl⟩
    · exact (untouched_remove h).trans (untouched_count _ _)
  | replace name data =>
    rw [ItemCall.run, listReplaceItem_eq]
    split
    · exact ⟨rfl, rfl⟩
    split
    · exact ⟨rfl, rfl⟩
    · exact untouched_store h _

theorem untouched_run {calls : List ItemCall} (h : Along (ItemCall.run env) (ItemCall.OnOther env k) s calls) :
    Untouched env k s (calls.foldl (ItemCall.run env) s) := by
  refine (throughout_of_along (I := Untouched env k s) ?_ ⟨rfl, rfl⟩ h).last
  intro s' c hs' hc
  exact hs'.trans (untouched_call hc)

/-! ## The item that is written -/

theorem Write.call_of_run {w : Write} {data : Memory} {s' : RlistState} (h : w.run env data s = some (k, s')) :
    SizeUsable env s ∧ w.call env data s = (.ok, some k, s') := by
  unfold Write.run at h
  split at h
  · rename_i husable
    refine ⟨husable, ?_⟩
    split at h
    · rename_i hcall
      cases h
      exact hcall
    · cases h
  · cases h

theorem Write.find_of_ok {w : Write} {data : Memory} {s' : RlistState}
    (h : w.call env data s = (.ok, some k, s')) :
    s'.find env k = some (storedData env s data) ∧ s'.blockSize = s.blockSize := by
  cases w with
  | push =>
    rw [Write.call, listPushBack_eq] at h
    dsimp only at h
    split at h
    · cases h
    · cases h
      exact ⟨(find_store _ _ _).trans (if_pos rfl), rfl⟩
  | replace name =>
    rw [Write.call, listReplaceItem_eq] at h
    split at h
    · cases h
    split at h
    · cases h
    · cases h
      exact ⟨(find_store _ _ _).trans (if_pos rfl), rfl⟩

theorem Write.unreachable_iff {w : Write} {data : Memory} {s' : RlistState}
    (h : w.call env data s = (.ok, some k, s')) :
    Unreachable env k ↔ env.replicateInIMM = true ∧ ¬ w.HasName s := by
  cases w with
  | push =>
    rw [Write.call, listPushBack_eq] at h
    dsimp only at h
    split at h
    · cases h
    · cases h
      rw [Unreachable, Write.HasName, itemName_eq_zero, not_not]
  | replace name =>
    rw [Write.call, listReplaceItem_eq] at h
    split at h
    · cases h
    split at h
    · cases h
    · rename_i hreach
      cases h
      constructor
      · exact fun hk => absurd (Or.inl hk) hreach
      · exact fun hk => absurd trivial hk.2

/-! ## The bytes that come back -/

theorem dataBufLen_le {data : Memory} (hbuf : s.blockSize ≤ data.length) :
    dataBufLen env s data ≤ data.length := by
  rw [dataBufLen]
  split
  · exact hbuf
  · exact (Nat.mod_le _ _).trans (List.takeWhile_prefix _).length_le

theorem dataBufLen_uint (hword : s.blockSize ≤ uintMax) (data : Memory) : dataBufLen env s data ≤ uintMax := by
  rw [dataBufLen]
  split
  · exact hword
  · exact Nat.le_of_lt_succ (toUint_lt _)

theorem readItem_eq_block_iff {data : Memory} (hbuf : s.blockSize ≤ data.length)
    (hword : s.blockSize ≤ uintMax) :
    readItem env (storedData env s data) s.blockSize = some (data.take s.blockSize) ↔
      (env.replicateInIMM = true → dataBufLen env s data ≤ s.blockSize ∧ dataBufLen env s data ≠ uintMax ∧
        ∀ b ∈ (data.take s.blockSize).drop (dataBufLen env s data), b = 0) := by
  have hle : dataBufLen env s data ≤ data.length := dataBufLen_le hbuf
  have huint : dataBufLen env s data ≤ uintMax := dataBufLen_uint hword data
  unfold readItem storedData
  by_cases himm : env.replicateInIMM = true
  · rw [if_pos himm, if_pos himm, getVoidData, forall_prop_of_true himm]
    generalize dataBufLen env s data = d at hle huint ⊢
    have hlen : (data.take d).length = d := by simp [hle]
    have hblock : (data.take s.blockSize).length = s.blockSize := by simp [hbuf]
    rw [hlen]
    constructor
    · intro h
      split at h
      · rename_i hlt
        have h := Option.some.inj h
        have hd : d ≤ s.blockSize := by
          have := congrArg List.length h
          simp [hlen, hblock] at this
          omega
        refine ⟨hd, hlt.ne, fun b hb => ?_⟩
        rw [← h, List.drop_left' hlen] at hb
        exact List.eq_of_mem_replicate hb
      · cases h
    · rintro ⟨hd, hne, hzero⟩
      rw [if_pos (lt_of_le_of_ne huint hne)]
      congr 1
      have htake : (data.take s.blockSize).take d = data.take d := by
        rw [List.take_take, min_eq_left hd]
      rw [← List.take_append_drop d (data.take s.blockSize), htake]
      congr 1
      refine (List.eq_replicate_of_mem hzero).trans ?_ |>.symm
      rw [List.length_drop, hblock]
  · simp [himm, readFromFile, hbuf, List.take_take]

theorem isString_iff {data : Memory} (husable : SizeUsable env s) (himm : env.replicateInIMM = true) :
    env.listInstanceName = "FmStatusSection" ∨ IsString s.blockSize data ↔
      dataBufLen env s data ≤ s.blockSize ∧ dataBufLen env s data ≠ uintMax ∧
        ∀ b ∈ (data.take s.blockSize).drop (dataBufLen env s data), b = 0 := by
  rw [SizeUsable, if_pos himm] at husable
  unfold dataBufLen IsString
  by_cases hname : env.listInstanceName = "FmStatusSection"
  · simp [hname, List.drop_take, husable hname]
  · simp only [hname, false_or, if_false]

theorem roundTrips_iff {stored block : Memory} (hk : s.find env k = some stored) :
    RoundTrips env k block s ↔
      ¬ Unreachable env k ∧ readItem env stored s.blockSize = some block := by
  have hfind : ∀ name, validateName name = true → name.value = k → ¬ Unreachable env k →
      ∀ data, readItem env stored s.blockSize = some data →
      listFindItem env name s = (.ok, some data, s) := by
    intro name hvalid hname hreach data hread
    unfold listFindItem
    rw [hname, hvalid, if_neg (by simp), if_neg (by simpa [Unreachable] using hreach), hk]
    simp only [hread]
  have hvalid : validateName ⟨1, k⟩ = true := rfl
  constructor
  · rintro ⟨h, -⟩
    have h := h ⟨1, k⟩ hvalid rfl
    unfold listFindItem at h
    rw [if_neg (by simp [hvalid]), hk] at h
    split at h
    · cases h
    · rename_i hreach
      refine ⟨by simpa [Unreachable] using hreach, ?_⟩
      dsimp only at h
      split at h
      · rename_i data hread
        cases h
        exact hread
      · cases h
  · rintro ⟨hreach, hread⟩
    refine ⟨fun name hvalid hname => hfind name hvalid hname hreach block hread, ?_⟩
    intro ref it n href hsize hindex hnext hn
    unfold listGetNextItemFront
    rw [href]
    simp only [Option.join_some, if_neg (not_le.mpr hindex), hnext, hn, hk, Option.bind_some, hsize, hread]
    exact ⟨_, rfl⟩

/-! ## The round trip -/

/-- An item that was written comes back as it was, whatever is done to other items, exactly when it is
kept in a file, or there was a number left for it and its block is a string or that of the one list that
stores blocks. -/
theorem round_trip_iff (env : RlistEnv) (s : RlistState) (w : Write) (m : Memory)
    (hbuf : s.blockSize ≤ m.length) (hword : s.blockSize ≤ uintMax) {k : String} {s₁ : RlistState}
    (h : w.run env m s = some (k, s₁)) :
    (∀ calls, Along (ItemCall.run env) (ItemCall.OnOther env k) s₁ calls →
      RoundTrips env k (m.take s.blockSize) (calls.foldl (ItemCall.run env) s₁)) ↔
    (if env.replicateInIMM then
      w.HasName s ∧ (env.listInstanceName = "FmStatusSection" ∨ IsString s.blockSize m)
    else s.blockSize < 2 ^ 31) := by
  obtain ⟨husable, hcall⟩ := Write.call_of_run h
  obtain ⟨hk, hsize⟩ := w.find_of_ok hcall
  have hiff : ∀ calls, Along (ItemCall.run env) (ItemCall.OnOther env k) s₁ calls →
      (RoundTrips env k (m.take s.blockSize) (calls.foldl (ItemCall.run env) s₁) ↔
        ¬ Unreachable env k ∧ readItem env (storedData env s m) s.blockSize = some (m.take s.blockSize)) := by
    intro calls hcalls
    obtain ⟨hsame, hsame'⟩ := untouched_run hcalls
    rw [roundTrips_iff (hsame.trans hk), hsame', hsize]
  have hcond : (∀ calls, Along (ItemCall.run env) (ItemCall.OnOther env k) s₁ calls →
      RoundTrips env k (m.take s.blockSize) (calls.foldl (ItemCall.run env) s₁)) ↔
      ¬ Unreachable env k ∧ readItem env (storedData env s m) s.blockSize = some (m.take s.blockSize) :=
    ⟨fun hall => (hiff [] trivial).mp (hall [] trivial), fun hread calls hcalls => (hiff calls hcalls).mpr hread⟩
  rw [hcond, w.unreachable_iff hcall, readItem_eq_block_iff hbuf hword]
  by_cases himm : env.replicateInIMM = true
  · rw [if_pos himm, isString_iff husable himm]
    tauto
  · rw [if_neg himm]
    rw [SizeUsable, if_neg himm] at husable
    tauto

end

/-! ## A list of RT objects -/

def sampleEnv : RlistEnv := ⟨"L", true, id⟩

/-- A block with a zero at its end. -/
theorem round_trip_sample :
    Write.push.run sampleEnv [1, 2, 0] ⟨3, 0, 0, [], []⟩ = some ("1", ⟨3, 1, 1, [("1", [1, 2])], []⟩) ∧
      ∀ calls, Along (ItemCall.run sampleEnv) (ItemCall.OnOther sampleEnv "1") ⟨3, 1, 1, [("1", [1, 2])], []⟩
        calls →
        RoundTrips sampleEnv "1" [1, 2, 0] (calls.foldl (ItemCall.run sampleEnv) ⟨3, 1, 1, [("1", [1, 2])], []⟩) :=
  ⟨by decide,
    (round_trip_iff sampleEnv ⟨3, 0, 0, [], []⟩ .push [1, 2, 0] (by decide) (by decide) (by decide)).mpr
      ⟨show toUint 1 ≠ 0 by decide, Or.inr ⟨by decide, by decide, by simp [toUint]⟩⟩⟩

/-- A zero with another byte after it. -/
theorem not_round_trip :
    ¬ ∀ (env : RlistEnv) (s : RlistState) (w : Write) (m : Memory), s.blockSize ≤ m.length →
      s.blockSize ≤ uintMax → ∀ k s₁, w.run env m s = some (k, s₁) →
      ∀ calls, Along (ItemCall.run env) (ItemCall.OnOther env k) s₁ calls →
        RoundTrips env k (m.take s.blockSize) (calls.foldl (ItemCall.run env) s₁) := by
  intro h
  have h := h sampleEnv ⟨3, 0, 0, [], []⟩ .push [1, 0, 2] (by decide) (by decide) "1"
    ⟨3, 1, 1, [("1", [1])], []⟩ (by decide) [] trivial
  have hfind := h.1 ⟨1, "1"⟩ (by decide) rfl
  revert hfind
  decide

end ComSA.Rlist
