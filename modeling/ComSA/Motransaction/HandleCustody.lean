import ComSA.Motransaction.TransactionRepository

/-!
# Handles in custody

Every call of a transaction passes handles that its context holds, and none that was finalized. The handles of a
context are finalized when it goes, all but those that were lost: the one of a CCB when another CCB takes its place.
-/

namespace ComSA.TransactionRepository

open BadHandle (Handle Handles)

/-! ## The handles of a context -/

def given (owner : Nat) (h : Handle) : List (Nat × Handle) := if h = 0 then [] else [(owner, h)]

def OamSACache.handles (owner : Nat) (c : OamSACache) : List (Nat × Handle) :=
  if c.myImmHandle = 0 then [] else (owner, c.myImmHandle) :: given owner c.myAccessorHandle

def Meanwhile.CacheKept (m : Meanwhile) : Prop := .classOfObject true ∉ m.cacheReads

namespace TxContext

def handles (tx : TxContext) : List (Nat × Handle) :=
  tx.mCache.handles tx.this ++ (given tx.this tx.mImmHandle ++ (given tx.this tx.mAccessorHandle ++
    (given tx.this tx.mAdminOwnerHandle ++ (given tx.this tx.mCcbHandle ++
    tx.mSearchHandleMap.map fun x => (tx.this, x.2)))))

variable {tx : TxContext} {slot : Slot} {h : Handle}

@[simp] theorem set_this (tx : TxContext) (h : Handle) (slot : Slot) : (tx.set h slot).this = tx.this := by
  cases slot <;> rfl

@[simp] theorem set_searches (tx : TxContext) (h : Handle) (slot : Slot) :
    (tx.set h slot).mSearchHandleMap = tx.mSearchHandleMap := by
  cases slot <;> rfl

@[simp] theorem set_iterators (tx : TxContext) (h : Handle) (slot : Slot) :
    (tx.set h slot).bridgeImmIterList = tx.bridgeImmIterList := by
  cases slot <;> rfl

theorem set_get (tx : TxContext) (slot : Slot) : tx.set (tx.get slot) slot = tx := by
  cases slot <;> rfl

theorem handles_set (tx : TxContext) (h : Handle) (slot : Slot) :
    (tx.set h slot).handles.Perm (given tx.this h ++ (tx.set 0 slot).handles) := by
  refine List.perm_iff_count.mpr fun a => ?_
  have hnone : given tx.this 0 = [] := rfl
  cases slot <;> simp only [handles, set, hnone, List.count_append, List.count_nil] <;> omega

theorem get_mem (tx : TxContext) (slot : Slot) : tx.get slot = 0 ∨ (tx.this, tx.get slot) ∈ tx.handles := by
  by_cases hzero : tx.get slot = 0
  · exact .inl hzero
  · refine .inr ?_
    have hperm := tx.handles_set (tx.get slot) slot
    rw [set_get, given, if_neg hzero] at hperm
    exact hperm.mem_iff.mpr List.mem_cons_self

end TxContext

namespace Imm

@[simp] theorem nextAnswer_log (imm : Imm) : imm.nextAnswer.2.log = imm.log := by
  unfold nextAnswer
  split <;> rfl

@[simp] theorem nextAnswer_lost (imm : Imm) : imm.nextAnswer.2.lost = imm.lost := by
  unfold nextAnswer
  split <;> rfl

@[simp] theorem nextMeanwhile_log (imm : Imm) : imm.nextMeanwhile.2.log = imm.log := by
  unfold nextMeanwhile
  split <;> rfl

@[simp] theorem nextMeanwhile_lost (imm : Imm) : imm.nextMeanwhile.2.lost = imm.lost := by
  unfold nextMeanwhile
  split <;> rfl

@[simp] theorem nextAnswer_meanwhile (imm : Imm) : imm.nextAnswer.2.meanwhile = imm.meanwhile := by
  unfold nextAnswer
  split <;> rfl

theorem nextMeanwhile_kept {imm : Imm} (h : ∀ m ∈ imm.meanwhile, m.CacheKept) :
    imm.nextMeanwhile.1.CacheKept ∧ ∀ m ∈ imm.nextMeanwhile.2.meanwhile, m.CacheKept := by
  unfold nextMeanwhile
  split <;> rename_i hmeanwhile
  · exact ⟨List.not_mem_nil, h⟩
  · rw [hmeanwhile] at h
    exact ⟨h _ List.mem_cons_self, fun m hm => h m (List.mem_cons_of_mem _ hm)⟩

@[simp] theorem finalize_log (owner : Nat) (h : Handle) (imm : Imm) :
    (imm.finalize owner h).2.log = imm.log ++ [.returns owner h] := nextAnswer_log _

@[simp] theorem finalize_lost (owner : Nat) (h : Handle) (imm : Imm) : (imm.finalize owner h).2.lost = imm.lost :=
  nextAnswer_lost _

@[simp] theorem finalize_meanwhile (owner : Nat) (h : Handle) (imm : Imm) :
    (imm.finalize owner h).2.meanwhile = imm.meanwhile := nextAnswer_meanwhile _

end Imm

namespace World

/-! ## What is kept -/

/-- The context holds its handles, the lost ones are `l`, and `rest` is held by the other contexts. -/
structure Kept (l rest : List (Nat × Handle)) (w : World) : Prop where
  lost : w.imm.lost = l
  holds : Custody.Holds 0 w.imm.log (w.tx.handles ++ (l ++ rest))
  sorted : SortedMap.Sorted w.tx.mSearchHandleMap
  registered : ∀ x ∈ w.tx.mSearchHandleMap, x.1 ∈ w.tx.bridgeImmIterList.map Prod.fst
  reads : ∀ m ∈ w.imm.meanwhile, m.CacheKept

variable {e : Env} {l rest : List (Nat × Handle)} {w : World}

theorem Kept.congr (h : w.Kept l rest) {w' : World} (htx : w'.tx = w.tx) (hlog : w'.imm.log = w.imm.log)
    (hlost : w'.imm.lost = w.imm.lost) (hmeanwhile : w'.imm.meanwhile = w.imm.meanwhile) : w'.Kept l rest := by
  refine ⟨hlost.trans h.lost, ?_, ?_, ?_, hmeanwhile ▸ h.reads⟩
  · rw [htx, hlog]
    exact h.holds
  · rw [htx]
    exact h.sorted
  · rw [htx]
    exact h.registered

theorem Kept.nextAnswer (h : w.Kept l rest) : Kept l rest { w with imm := w.imm.nextAnswer.2 } :=
  h.congr rfl (Imm.nextAnswer_log _) (Imm.nextAnswer_lost _) (Imm.nextAnswer_meanwhile _)

theorem Kept.pass (h : w.Kept l rest) {handle : Handle}
    (hhandle : handle = 0 ∨ (w.tx.this, handle) ∈ w.tx.handles) : (w.pass handle).Kept l rest :=
  ⟨h.lost, h.holds.uses (hhandle.imp_right (List.mem_append_left _)), h.sorted, h.registered, h.reads⟩

theorem Kept.passSlot (h : w.Kept l rest) (slot : Slot) : (w.pass (w.tx.get slot)).Kept l rest :=
  h.pass (w.tx.get_mem slot)

theorem Kept.call (h : w.Kept l rest) (slot : Slot) : (w.call slot).2.Kept l rest := (h.passSlot slot).nextAnswer

theorem passes_tx (passes : List Slot) (w : World) :
    (passes.foldl (fun w slot => w.pass (w.tx.get slot)) w).tx = w.tx := by
  induction passes generalizing w with
  | nil => rfl
  | cons slot passes ih => exact ih _

theorem Kept.passes (h : w.Kept l rest) (passes : List Slot) :
    (passes.foldl (fun w slot => w.pass (w.tx.get slot)) w).Kept l rest := by
  induction passes generalizing w with
  | nil => exact h
  | cons slot passes ih => exact ih (h.passSlot slot)

theorem acquire_tx {keep : Handle → World → World} (hkeep : ∀ h w, (keep h w).tx = w.tx) (w : World) :
    (w.acquire e keep).2.tx = w.tx := by
  unfold World.acquire
  split
  · exact hkeep _ _
  · rfl

theorem reInitialize_tx (immOmHandle immOmAccessorHandle : Handle) (w : World) :
    (w.reInitializeBadHandler e immOmHandle immOmAccessorHandle).2.tx = w.tx := by
  unfold reInitializeBadHandler
  extract_lets lose
  have hfirst := @acquire_tx e (fun h w => (lose h w).pass h) (fun _ _ => rfl)
    ((w.finalize immOmAccessorHandle).finalize immOmHandle)
  generalize World.acquire e _ _ = r at hfirst ⊢
  obtain ⟨err, w₁⟩ := r
  cases err with
  | ok => exact (@acquire_tx e lose (fun _ _ => rfl) w₁).trans hfirst
  | _ => exact hfirst

theorem cacheRead_tx (w : World) (read : CacheRead) : (w.cacheRead e read).tx = w.tx := by
  cases read with
  | classDescription =>
    rw [World.cacheRead]
    split <;> rfl
  | classOfObject badHandle =>
    rw [World.cacheRead]
    split
    · dsimp only
      split
      · have hagain := reInitialize_tx (e := e) w.tx.mCache.myImmHandle w.tx.mCache.myAccessorHandle
          (w.pass w.tx.mCache.myAccessorHandle)
        split <;> rename_i heq <;> exact (congrArg (fun r => r.2.tx) heq).symm.trans hagain
      · rfl
    · rfl

theorem cacheReads_tx (reads : List CacheRead) (w : World) : (reads.foldl (cacheRead e) w).tx = w.tx := by
  induction reads generalizing w with
  | nil => rfl
  | cons read reads ih => exact (ih _).trans (cacheRead_tx w read)

@[simp] theorem ask_tx (w : World) : (w.ask e).2.tx = w.tx := (cacheReads_tx _ _).trans (passes_tx _ _)

theorem Kept.cacheRead (h : w.Kept l rest) {read : CacheRead} (hread : read ≠ .classOfObject true) :
    (w.cacheRead e read).Kept l rest := by
  have himm : w.tx.mCache.myImmHandle ≠ 0 →
      (w.tx.this, w.tx.mCache.myImmHandle) ∈ w.tx.handles ∧ (w.tx.mCache.myAccessorHandle ≠ 0 →
        (w.tx.this, w.tx.mCache.myAccessorHandle) ∈ w.tx.handles) := by
    intro hne
    have hcache : w.tx.mCache.handles w.tx.this =
        (w.tx.this, w.tx.mCache.myImmHandle) :: given w.tx.this w.tx.mCache.myAccessorHandle := if_neg hne
    rw [TxContext.handles, hcache]
    refine ⟨List.mem_append_left _ List.mem_cons_self, fun hacc => List.mem_append_left _ ?_⟩
    rw [given, if_neg hacc]
    exact List.mem_cons_of_mem _ List.mem_cons_self
  cases read with
  | classDescription =>
    rw [World.cacheRead]
    split <;> rename_i hne
    · exact h.pass (.inr (himm hne).1)
    · exact h
  | classOfObject badHandle =>
    obtain rfl : badHandle = false := by
      cases badHandle with
      | false => rfl
      | true => exact absurd rfl hread
    rw [World.cacheRead]
    split <;> rename_i hne
    · exact h.pass (.inr ((himm hne.1).2 hne.2))
    · exact h

theorem Kept.cacheReads (h : w.Kept l rest) {reads : List CacheRead} (hreads : .classOfObject true ∉ reads) :
    (reads.foldl (World.cacheRead e) w).Kept l rest := by
  induction reads generalizing w with
  | nil => exact h
  | cons read reads ih =>
    exact ih (h.cacheRead (List.ne_of_not_mem_cons hreads).symm) (List.not_mem_of_not_mem_cons hreads)

theorem Kept.ask (h : w.Kept l rest) : (w.ask e).2.Kept l rest := by
  obtain ⟨hnow, hlater⟩ := Imm.nextMeanwhile_kept h.reads
  have hnext : Kept l rest { w with imm := w.imm.nextMeanwhile.2 } :=
    ⟨(Imm.nextMeanwhile_lost _).trans h.lost, (Imm.nextMeanwhile_log w.imm).symm ▸ h.holds, h.sorted, h.registered,
      hlater⟩
  exact (hnext.passes _).cacheReads hnow

theorem Kept.report (h : w.Kept l rest) : (w.report e).Kept l rest := h.ask.ask

theorem Kept.closeCcb (h : w.Kept l rest) : w.closeCcb.Kept l rest :=
  ⟨h.lost, h.holds, h.sorted, h.registered, h.reads⟩

/-! ## Commands -/

theorem execute_spec {lm : Bool} {doExecute : World → SaAisError × World} {P : World → Prop}
    {Q : SaAisError → World → Prop} (hdo : ∀ w, P w → Q (doExecute w).1 (doExecute w).2)
    (hagain : ∀ err w, Q err w → err ≠ .ok → P w) (n : Nat) {w : World} (h : P w) :
    Q (execute lm doExecute n w).1 (execute lm doExecute n w).2 := by
  induction n generalizing w with
  | zero => exact hdo w h
  | succ n ih =>
    have hone := hdo w h
    unfold execute
    generalize doExecute w = r at hone
    obtain ⟨err, w'⟩ := r
    dsimp only at hone ⊢
    by_cases hretried : retried lm err = true
    · rw [if_pos hretried]
      refine ih (hagain err w' hone ?_)
      rintro rfl
      cases lm <;> cases hretried
    · rw [if_neg hretried]
      exact hone

theorem execute_keeps {lm : Bool} {doExecute : World → SaAisError × World} {P : World → Prop}
    (hdo : ∀ w, P w → P (doExecute w).2) (n : Nat) {w : World} (h : P w) : P (execute lm doExecute n w).2 :=
  execute_spec (Q := fun _ w => P w) hdo (fun _ _ hq _ => hq) n h

theorem Kept.ccbCall (h : w.Kept l rest) : (w.ccbCall e).2.Kept l rest :=
  execute_keeps (fun _ hw => hw.call .ccb) _ h

theorem ccbCall_tx (w : World) : (w.ccbCall e).2.tx = w.tx :=
  execute_keeps (P := fun w' => w'.tx = w.tx) (fun _ hw => hw) _ rfl

theorem Kept.abortCcb (h : w.Kept l rest) : (w.abortCcb e).Kept l rest := by
  have hcall := h.ccbCall (e := e)
  unfold World.abortCcb
  split <;> rename_i heq
  · rw [heq] at hcall
    exact hcall.ask
  · rw [heq] at hcall
    exact hcall.report

theorem Kept.finalize (h : w.Kept l rest) (slot : Slot) :
    Kept l rest ⟨w.tx.set 0 slot, (w.imm.finalize w.tx.this (w.tx.get slot)).2⟩ := by
  refine ⟨(Imm.finalize_lost _ _ _).trans h.lost, ?_, ?_, ?_, (Imm.finalize_meanwhile _ _ _).symm ▸ h.reads⟩
  · rw [Imm.finalize_log]
    by_cases hzero : w.tx.get slot = 0
    · have hsame : w.tx.set 0 slot = w.tx := by rw [← hzero, TxContext.set_get]
      rw [hzero, hsame]
      exact h.holds.returns_none
    · have hperm := w.tx.handles_set (w.tx.get slot) slot
      rw [TxContext.set_get, given, if_neg hzero] at hperm
      exact (h.holds.perm (hperm.append_right _)).returns
  · rw [TxContext.set_searches]
    exact h.sorted
  · rw [TxContext.set_searches, TxContext.set_iterators]
    exact h.registered

theorem ccbFinalize_spec (h : w.Kept l rest) :
    (w.ccbFinalize e).2.Kept l rest ∧ (w.ccbFinalize e).2.tx.mCcbHandle = 0 := by
  refine execute_spec (P := fun w => w.Kept l rest) (Q := fun _ w => w.Kept l rest ∧ w.tx.mCcbHandle = 0)
    (fun w hw => ⟨hw.finalize .ccb, rfl⟩) (fun _ _ hq _ => hq.1) _ h

/-! ## New handles -/

theorem Kept.acquire (h : w.Kept l rest) (keep : Handle → World → World) {Q : World → Prop}
    (hkeep : ∀ handle w', handle ≠ 0 → w'.tx = w.tx → w'.imm.lost = w.imm.lost → w'.imm.meanwhile = w.imm.meanwhile →
      Custody.Holds 0 w'.imm.log ((w.tx.this, handle) :: (w.tx.handles ++ (l ++ rest))) → Q (keep handle w')) :
    ((w.acquire e keep).1 = .ok → Q (w.acquire e keep).2) ∧
      ((w.acquire e keep).1 ≠ .ok → (w.acquire e keep).2.Kept l rest ∧ (w.acquire e keep).2.tx = w.tx) := by
  unfold World.acquire
  have hlog := w.imm.nextAnswer_log
  have hlost := w.imm.nextAnswer_lost
  have hmeanwhile := w.imm.nextAnswer_meanwhile
  split <;> rename_i heq
  · rw [heq] at hlog hlost hmeanwhile
    dsimp only at hlog hlost hmeanwhile
    refine ⟨fun _ => hkeep _ _ (e.handles.next_ne _) rfl hlost hmeanwhile ?_, fun hne => absurd rfl hne⟩
    have hgets := h.holds.gets w.tx.this (e.handles.next_ne (Imm.issued w.imm))
      (e.handles.next_fresh (Imm.issued w.imm))
    unfold Imm.deal Imm.issued
    rw [hlog]
    exact hgets
  · rw [heq] at hlog hlost hmeanwhile
    refine ⟨fun hok => ?_, fun _ => ⟨h.congr rfl hlog hlost hmeanwhile, rfl⟩⟩
    exact absurd hok (by assumption)

theorem Kept.store (h : w.Kept l rest) {handle : Handle} {w' : World} (hne : handle ≠ 0) (htx : w'.tx = w.tx)
    (hlost : w'.imm.lost = w.imm.lost) (hmeanwhile : w'.imm.meanwhile = w.imm.meanwhile)
    (hholds : Custody.Holds 0 w'.imm.log ((w.tx.this, handle) :: (w.tx.handles ++ (l ++ rest)))) (slot : Slot) :
    ∃ l', (store slot handle w').Kept l' rest ∧ (w.tx.get slot = 0 → l' = l) := by
  have hnew := w.tx.handles_set handle slot
  have hold := w.tx.handles_set (w.tx.get slot) slot
  rw [given, if_neg hne] at hnew
  rw [TxContext.set_get] at hold
  have hsorted : SortedMap.Sorted (w.tx.set handle slot).mSearchHandleMap := by
    rw [TxContext.set_searches]
    exact h.sorted
  have hregistered : ∀ x ∈ (w.tx.set handle slot).mSearchHandleMap,
      x.1 ∈ (w.tx.set handle slot).bridgeImmIterList.map Prod.fst := by
    rw [TxContext.set_searches, TxContext.set_iterators]
    exact h.registered
  unfold World.store
  rw [htx]
  by_cases hzero : w.tx.get slot = 0
  · rw [if_pos hzero]
    rw [given, if_pos hzero] at hold
    refine ⟨l, ⟨hlost.trans h.lost, hholds.perm ?_, hsorted, hregistered, hmeanwhile ▸ h.reads⟩, fun _ => rfl⟩
    exact ((hold.cons _).trans hnew.symm).append_right (l ++ rest)
  · rw [if_neg hzero]
    rw [given, if_neg hzero] at hold
    refine ⟨l ++ [(w.tx.this, w.tx.get slot)],
      ⟨?_, hholds.perm ?_, hsorted, hregistered, hmeanwhile ▸ h.reads⟩, fun h0 => absurd h0 hzero⟩
    · dsimp only
      rw [hlost, h.lost]
    · refine List.perm_iff_count.mpr fun a => ?_
      dsimp only
      rw [List.count_cons, List.count_append, List.count_append, List.count_append, List.count_append,
        List.count_append,
        hnew.count_eq, hold.count_eq]
      simp only [List.count_append, List.count_cons, List.count_nil]
      omega

/-- After a command that asks for a handle: the context has it, or nothing has changed. -/
def Gained (l rest : List (Nat × Handle)) (tx : TxContext) (slot : Slot) (err : SaAisError) (w : World) : Prop :=
  (err ≠ .ok → w.Kept l rest ∧ w.tx = tx) ∧
    (err = .ok → ∃ handle l', w.tx = tx.set handle slot ∧ w.Kept l' rest ∧ (tx.get slot = 0 → l' = l))

theorem Kept.gained (h : w.Kept l rest) (slot : Slot) :
    Gained l rest w.tx slot (w.acquire e (World.store slot)).1 (w.acquire e (World.store slot)).2 := by
  have hacquire := h.acquire (e := e) (World.store slot)
    (Q := fun w' => ∃ handle l', w'.tx = w.tx.set handle slot ∧ w'.Kept l' rest ∧ (w.tx.get slot = 0 → l' = l))
    fun handle w' hne htx hlost hmeanwhile hholds => by
      obtain ⟨l', hkept, hl'⟩ := h.store hne htx hlost hmeanwhile hholds slot
      exact ⟨handle, l', congrArg (fun tx => TxContext.set tx handle slot) htx, hkept, hl'⟩
  exact ⟨hacquire.2, hacquire.1⟩

theorem immCmdOmInit_spec (h : w.Kept l rest) :
    Gained l rest w.tx .imm (w.immCmdOmInit e).1 (w.immCmdOmInit e).2 := by
  refine execute_spec (P := fun w' => w'.Kept l rest ∧ w'.tx = w.tx) (Q := Gained l rest w.tx .imm)
    (fun w' hw => ?_) (fun err w' hq hne => hq.1 hne) _ ⟨h, rfl⟩
  rw [← hw.2]
  exact hw.1.gained .imm

theorem immCmdInit_spec (h : w.Kept l rest) (parent slot : Slot) :
    Gained l rest w.tx slot (w.immCmdInit e parent slot).1 (w.immCmdInit e parent slot).2 := by
  refine execute_spec (P := fun w' => w'.Kept l rest ∧ w'.tx = w.tx) (Q := Gained l rest w.tx slot)
    (fun w' hw => ?_) (fun err w' hq hne => hq.1 hne) _ ⟨h, rfl⟩
  rw [← hw.2]
  exact (hw.1.passSlot parent).gained slot

/-! ## The destructor -/

structure Going (w₀ : World) (owned : List (Nat × Handle)) (w : World) : Prop where
  tx : w.tx = w₀.tx
  lost : w.imm.lost = w₀.imm.lost
  meanwhile : w.imm.meanwhile = w₀.imm.meanwhile
  holds : Custody.Holds 0 w.imm.log owned

namespace Going

variable {w₀ : World} {handle : Handle} {owned : List (Nat × Handle)}

theorem returns (h : Going w₀ ((w₀.tx.this, handle) :: owned) w) : Going w₀ owned (w.finalize handle) := by
  refine ⟨h.tx, (Imm.finalize_lost _ _ _).trans h.lost, (Imm.finalize_meanwhile _ _ _).trans h.meanwhile, ?_⟩
  have hholds := h.holds
  rw [← h.tx] at hholds
  rw [World.finalize, Imm.finalize_log]
  exact hholds.returns

theorem finalize (h : Going w₀ (given w₀.tx.this handle ++ owned) w) : Going w₀ owned (w.finalize handle) := by
  unfold given at h
  by_cases hzero : handle = 0
  · rw [if_pos hzero] at h
    refine ⟨h.tx, (Imm.finalize_lost _ _ _).trans h.lost, (Imm.finalize_meanwhile _ _ _).trans h.meanwhile, ?_⟩
    rw [hzero, World.finalize, Imm.finalize_log]
    exact h.holds.returns_none
  · rw [if_neg hzero] at h
    exact h.returns

theorem finalizeSome (h : Going w₀ (given w₀.tx.this handle ++ owned) w) :
    Going w₀ owned (World.finalizeSome handle w) := by
  unfold World.finalizeSome
  by_cases hzero : handle = 0
  · rw [if_pos hzero]
    rwa [given, if_pos hzero] at h
  · rw [if_neg hzero]
    exact h.finalize

theorem searches {m : List (Nat × Handle)} (h : Going w₀ (m.map (fun x => (w₀.tx.this, x.2)) ++ owned) w) :
    Going w₀ owned (m.foldl (fun w x => w.finalize x.2) w) := by
  induction m generalizing w with
  | nil => exact h
  | cons x m ih => exact ih h.returns

theorem destroyCache (h : Going w₀ (w₀.tx.mCache.handles w₀.tx.this ++ owned) w) :
    Going w₀ owned (World.destroyCache w) := by
  unfold World.destroyCache
  unfold OamSACache.handles at h
  rw [h.tx]
  by_cases hzero : w₀.tx.mCache.myImmHandle = 0
  · rw [if_pos hzero] at h ⊢
    exact h
  · rw [if_neg hzero] at h ⊢
    -- the accessor handle goes first
    refine Going.finalize (Going.finalize ⟨h.tx, h.lost, h.meanwhile, h.holds.perm ?_⟩)
    rw [given, given, if_neg hzero]
    exact List.perm_middle.symm

end Going

theorem Kept.destroy (h : w.Kept l rest) :
    w.destroy.lost = l ∧ w.destroy.meanwhile = w.imm.meanwhile ∧ Custody.Holds 0 w.destroy.log (l ++ rest) := by
  have hperm : (w.tx.handles ++ (l ++ rest)).Perm (given w.tx.this w.tx.mCcbHandle ++
      (w.tx.mSearchHandleMap.map (fun x => (w.tx.this, x.2)) ++ (given w.tx.this w.tx.mAccessorHandle ++
        (given w.tx.this w.tx.mAdminOwnerHandle ++ (given w.tx.this w.tx.mImmHandle ++
          (w.tx.mCache.handles w.tx.this ++ (l ++ rest))))))) := by
    refine List.perm_iff_count.mpr fun a => ?_
    simp only [TxContext.handles, List.count_append]
    omega
  have hstart : Going w _ w := ⟨rfl, rfl, rfl, h.holds.perm hperm⟩
  have hccb := hstart.finalizeSome
  have hsearches := hccb.searches
  have haccessor := hsearches.finalizeSome
  have howner := haccessor.finalizeSome
  have himm := howner.finalizeSome
  have hcache := himm.destroyCache
  unfold World.destroy
  dsimp only
  rw [hccb.tx, hsearches.tx, haccessor.tx, howner.tx]
  exact ⟨hcache.lost.trans h.lost, hcache.meanwhile, hcache.holds⟩

theorem Kept.newCache (h : w.Kept l rest) (hnone : w.tx.mCache = {}) :
    (World.newCache e w).Kept l rest ∧ ∃ c, (World.newCache e w).tx = { w.tx with mCache := c } := by
  have hinit := h.acquire (e := e) (fun handle w => { w with tx := { w.tx with mCache := ⟨handle, 0⟩ } })
    (Q := fun w' => w'.Kept l rest ∧ ∃ handle ≠ 0, w'.tx = { w.tx with mCache := ⟨handle, 0⟩ })
    fun handle w' hne htx hlost hmeanwhile hholds => by
      obtain ⟨tx, imm⟩ := w'
      obtain rfl : tx = w.tx := htx
      refine ⟨⟨hlost.trans h.lost, ?_, h.sorted, h.registered, hmeanwhile ▸ h.reads⟩, handle, hne, rfl⟩
      simpa [TxContext.handles, OamSACache.handles, hnone, hne, given] using hholds
  unfold World.newCache
  generalize World.acquire e _ w = r at hinit ⊢
  obtain ⟨err, w₁⟩ := r
  by_cases hok : err = .ok
  swap
  · obtain ⟨hkept, htx⟩ := hinit.2 hok
    cases err <;> first | exact absurd rfl hok | exact ⟨hkept, w.tx.mCache, htx⟩
  subst hok
  obtain ⟨hkept, handle, hne, htx⟩ := hinit.1 rfl
  have hcache : w₁.tx.mCache = ⟨handle, 0⟩ := congrArg TxContext.mCache htx
  have hpass : (w₁.pass w₁.tx.mCache.myImmHandle).Kept l rest :=
    hkept.pass (.inr (by simp [TxContext.handles, OamSACache.handles, hcache, hne]))
  have haccessor := hpass.acquire (e := e)
    (fun handle w => { w with tx := { w.tx with mCache := { w.tx.mCache with myAccessorHandle := handle } } })
    (Q := fun w' => w'.Kept l rest ∧ ∃ c, w'.tx = { w.tx with mCache := c })
    fun accessor w' hne' htx' hlost hmeanwhile hholds => by
      obtain ⟨tx, imm⟩ := w'
      obtain rfl : tx = w₁.tx := htx'
      refine ⟨⟨hlost.trans hpass.lost, hholds.perm ?_, hkept.sorted, hkept.registered, hmeanwhile ▸ hpass.reads⟩,
        ⟨handle, accessor⟩, ?_⟩
      · have hold : w₁.tx.mCache.handles w₁.tx.this = [(w₁.tx.this, handle)] := by
          rw [hcache, OamSACache.handles, if_neg hne]
          rfl
        have hnew : ({ w₁.tx.mCache with myAccessorHandle := accessor } : OamSACache).handles w₁.tx.this =
            [(w₁.tx.this, handle), (w₁.tx.this, accessor)] := by
          rw [hcache, OamSACache.handles, if_neg hne, given, if_neg hne']
        change List.Perm ((w₁.tx.this, accessor) :: ((w₁.tx.mCache.handles w₁.tx.this ++ _) ++ (l ++ rest)))
          ((({ w₁.tx.mCache with myAccessorHandle := accessor } : OamSACache).handles w₁.tx.this ++ _) ++ (l ++ rest))
        rw [hold, hnew]
        exact List.Perm.swap _ _ _
      · rw [htx]
  by_cases hok : (World.acquire e (fun handle w => { w with tx := { w.tx with
      mCache := { w.tx.mCache with myAccessorHandle := handle } } }) (w₁.pass w₁.tx.mCache.myImmHandle)).1 = .ok
  · exact haccessor.1 hok
  · obtain ⟨hkept', htx'⟩ := haccessor.2 hok
    exact ⟨hkept', ⟨handle, 0⟩, htx'.trans htx⟩

theorem Kept.newTxContext {imm : Imm} {this : Nat} (h : Kept l rest ⟨{ this := this }, imm⟩) :
    (∀ tx, (World.newTxContext e this imm).1 = some tx →
      Kept l rest ⟨tx, (World.newTxContext e this imm).2⟩) ∧
    ((World.newTxContext e this imm).1 = none →
      (World.newTxContext e this imm).2.lost = l ∧ (∀ m ∈ (World.newTxContext e this imm).2.meanwhile, m.CacheKept) ∧
        Custody.Holds 0 (World.newTxContext e this imm).2.log (l ++ rest)) := by
  -- what the three commands leave behind, the last one first
  suffices hlast : Kept l rest (andThen (andThen (immCmdOmInit e (World.newCache e ⟨{ this := this }, imm⟩))
      (immCmdOmAccessorInit e)) (immCmdOmAdminOwnerInit e)).2 by
    unfold World.newTxContext
    dsimp only
    split
    · refine ⟨fun tx htx => ?_, fun hnone => by cases hnone⟩
      rw [← Option.some.inj htx]
      exact hlast
    · obtain ⟨hlost, hmeanwhile, hholds⟩ := hlast.destroy
      refine ⟨fun tx htx => (by cases htx), fun _ => ⟨hlost, fun m hm => hlast.reads m ?_, hholds⟩⟩
      rw [← hmeanwhile]
      exact hm
  have hone : ∀ (slot : Slot) (err : SaAisError) (tx : TxContext) (w : World), Gained l rest tx slot err w →
      tx.get slot = 0 → w.Kept l rest := by
    intro slot err tx w hgained hzero
    by_cases hok : err = .ok
    · obtain ⟨_, l', _, hkept, hl'⟩ := hgained.2 hok
      rwa [hl' hzero] at hkept
    · exact (hgained.1 hok).1
  obtain ⟨hcache, c, htx⟩ := h.newCache (e := e) rfl
  have hinit := immCmdOmInit_spec (e := e) hcache
  generalize immCmdOmInit e (World.newCache e ⟨{ this := this }, imm⟩) = r₁ at hinit ⊢
  rw [htx] at hinit
  have hkept₁ := hone _ _ _ _ hinit rfl
  unfold andThen
  by_cases hok₁ : r₁.1 = .ok
  · obtain ⟨handle₁, -, htx₁, -, -⟩ := hinit.2 hok₁
    have haccessor := immCmdInit_spec (e := e) hkept₁ .imm .accessor
    rw [if_pos hok₁]
    unfold immCmdOmAccessorInit
    generalize immCmdInit e .imm .accessor r₁.2 = r₂ at haccessor ⊢
    have hkept₂ := hone _ _ _ _ haccessor (by rw [htx₁]; rfl)
    by_cases hok₂ : r₂.1 = .ok
    · obtain ⟨handle₂, -, htx₂, -, -⟩ := haccessor.2 hok₂
      rw [if_pos hok₂]
      exact hone _ _ _ _ (immCmdInit_spec (e := e) hkept₂ .imm .adminOwner) (by rw [htx₂, htx₁]; rfl)
    · rw [if_neg hok₂]
      exact hkept₂
  · rw [if_neg hok₁, if_neg hok₁]
    exact hkept₁

/-! ## Searches -/

theorem setInitialized_keys (iter : Nat) (initialized : Bool) (w : World) :
    (setImmSearchInitialized iter initialized w).tx.bridgeImmIterList.map Prod.fst =
      w.tx.bridgeImmIterList.map Prod.fst := by
  unfold setImmSearchInitialized
  dsimp only
  rw [List.map_map]
  refine List.map_congr_left fun x _ => ?_
  rw [Function.comp_apply]
  split <;> rename_i heq
  · exact heq.symm
  · rfl

theorem Kept.setImmSearchInitialized (h : w.Kept l rest) (iter : Nat) (initialized : Bool) :
    (World.setImmSearchInitialized iter initialized w).Kept l rest := by
  refine ⟨h.lost, h.holds, h.sorted, fun x hx => ?_, h.reads⟩
  rw [setInitialized_keys]
  exact h.registered x hx

theorem deleteSearchHandle_spec (h : w.Kept l rest) (iter : Nat) :
    (deleteSearchHandle iter w).Kept l rest ∧
      SortedMap.get? iter (deleteSearchHandle iter w).tx.mSearchHandleMap = none ∧
      (deleteSearchHandle iter w).tx.bridgeImmIterList = w.tx.bridgeImmIterList := by
  unfold deleteSearchHandle
  cases hget : SortedMap.get? iter w.tx.mSearchHandleMap with
  | none => exact ⟨h, hget, rfl⟩
  | some handle =>
    have herase := (SortedMap.perm_erase h.sorted hget).map fun x => (w.tx.this, x.2)
    refine ⟨⟨(Imm.finalize_lost _ _ _).trans h.lost, ?_, SortedMap.sorted_erase h.sorted iter,
      fun x hx => ?_, (Imm.finalize_meanwhile _ _ _).symm ▸ h.reads⟩, ?_, rfl⟩
    · dsimp only
      rw [Imm.finalize_log]
      refine (h.holds.perm (List.perm_iff_count.mpr fun a => ?_)).returns
      have hcount := herase.count_eq a
      rw [List.map_cons, List.count_cons] at hcount
      dsimp only at hcount
      simp only [TxContext.handles, List.count_append, List.count_cons]
      omega
    · dsimp only at hx
      rw [SortedMap.erase_eq_filter] at hx
      exact h.registered x (List.mem_of_mem_filter hx)
    · exact (SortedMap.get?_erase iter iter _).trans (if_pos rfl)

theorem Kept.addSearchHandle (h : w.Kept l rest) {iter : Nat} (hiter : iter ∈ w.tx.bridgeImmIterList.map Prod.fst)
    {handle : Handle} {w' : World} (htx : w'.tx = w.tx) (hlost : w'.imm.lost = w.imm.lost)
    (hmeanwhile : w'.imm.meanwhile = w.imm.meanwhile)
    (hholds : Custody.Holds 0 w'.imm.log ((w.tx.this, handle) :: (w.tx.handles ++ (l ++ rest)))) :
    ∃ l', (World.addSearchHandle iter handle w').Kept l' rest ∧
      (SortedMap.get? iter w.tx.mSearchHandleMap = none → l' = l) := by
  unfold World.addSearchHandle
  rw [htx]
  cases hget : SortedMap.get? iter w.tx.mSearchHandleMap with
  | none =>
    have hput := (SortedMap.put_perm hget handle).map fun x => (w.tx.this, x.2)
    refine ⟨l, ⟨hlost.trans h.lost, hholds.perm (List.perm_iff_count.mpr fun a => ?_),
      SortedMap.sorted_put h.sorted iter handle, fun x hx => ?_, hmeanwhile ▸ h.reads⟩, fun _ => rfl⟩
    · have hcount := hput.count_eq a
      rw [List.map_cons, List.count_cons] at hcount
      dsimp only at hcount
      simp only [TxContext.handles, List.count_append, List.count_cons]
      omega
    · rcases List.mem_cons.mp ((SortedMap.put_perm hget handle).mem_iff.mp hx) with rfl | hx
      · exact hiter
      · exact h.registered x hx
  | some old =>
    refine ⟨l ++ [(w.tx.this, handle)], ⟨?_, hholds.perm (List.perm_iff_count.mpr fun a => ?_), h.sorted,
      h.registered, hmeanwhile ▸ h.reads⟩, fun hnone => by cases hnone⟩
    · dsimp only
      rw [hlost, h.lost]
    · simp only [List.count_append, List.count_cons, List.count_nil]
      omega

theorem addSearchHandle_iterators (iter : Nat) (handle : Handle) (w : World) :
    (addSearchHandle iter handle w).tx.bridgeImmIterList = w.tx.bridgeImmIterList := by
  unfold addSearchHandle
  split <;> rfl

theorem keySearchInit_spec (h : w.Kept l rest) (iter : Nat) (hiter : iter ∈ w.tx.bridgeImmIterList.map Prod.fst) :
    ∃ l', (immCmdOmKeySearchInit e iter w).2.Kept l' rest ∧
      (immCmdOmKeySearchInit e iter w).2.tx.bridgeImmIterList = w.tx.bridgeImmIterList ∧
      (SortedMap.get? iter w.tx.mSearchHandleMap = none → l' = l) := by
  have hpass := h.passSlot .imm
  have hacquire := hpass.acquire (e := e) (addSearchHandle iter)
    (Q := fun w' => ∃ l', w'.Kept l' rest ∧ w'.tx.bridgeImmIterList = w.tx.bridgeImmIterList ∧
      (SortedMap.get? iter w.tx.mSearchHandleMap = none → l' = l))
    fun handle w' _ htx hlost hmeanwhile hholds => by
      obtain ⟨l', hkept, hl'⟩ := hpass.addSearchHandle hiter htx hlost hmeanwhile hholds
      refine ⟨l', hkept, ?_, hl'⟩
      rw [addSearchHandle_iterators, htx]
      rfl
  by_cases hok : (immCmdOmKeySearchInit e iter w).1 = .ok
  · exact hacquire.1 hok
  · obtain ⟨hkept, htx⟩ := hacquire.2 hok
    exact ⟨l, hkept, congrArg TxContext.bridgeImmIterList htx, fun _ => rfl⟩

theorem Kept.searchNext (h : w.Kept l rest) (iter : Nat) : (immCmdOmSearchNext iter w).2.Kept l rest := by
  refine (h.pass ?_).nextAnswer
  unfold getSearchHandle
  cases hget : SortedMap.get? iter w.tx.mSearchHandleMap with
  | none => exact .inl rfl
  | some handle =>
    refine .inr ?_
    have hmem := List.mem_map_of_mem (f := fun x : Nat × Handle => (w.tx.this, x.2)) (SortedMap.mem_of_get? hget)
    unfold TxContext.handles
    simp only [List.mem_append]
    exact .inr (.inr (.inr (.inr (.inr hmem))))

end World

end ComSA.TransactionRepository
