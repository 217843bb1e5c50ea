import ComSA.Motransaction.HandleCustody

/-!
# What becomes of the handles

What each call of a transaction does to the handles, and from that what a whole run does.
-/

namespace ComSA.TransactionRepository

open BadHandle (Handle Handles)

namespace World

variable {e : Env} {l rest : List (Nat × Handle)} {w : World} {iter : Nat}

/-! ## Iterators -/

theorem Kept.searchLoop (h : w.Kept l rest) (hiter : iter ∈ w.tx.bridgeImmIterList.map Prod.fst)
    (fuel retries deleted : Nat) : (World.searchLoop e iter fuel retries deleted w).2.Kept l rest := by
  induction fuel generalizing retries deleted w with
  | zero => exact h
  | succ fuel ih =>
    have hnext := h.searchNext iter
    have htx : (immCmdOmSearchNext iter w).2.tx = w.tx := rfl
    unfold World.searchLoop
    generalize immCmdOmSearchNext iter w = r at hnext htx ⊢
    obtain ⟨err, w₁⟩ := r
    dsimp only at hnext htx
    rw [← htx] at hiter
    cases err with
    | ok =>
      dsimp only
      split
      · exact hnext
      · exact ih hnext hiter _ _
    | errBadHandle =>
      dsimp only
      split
      · exact hnext
      · obtain ⟨hdel, hfree, hlist⟩ := deleteSearchHandle_spec hnext iter
        have hreset := hdel.setImmSearchInitialized iter false
        have hiter₂ : iter ∈ (World.setImmSearchInitialized iter false
            (deleteSearchHandle iter w₁)).tx.bridgeImmIterList.map Prod.fst := by
          rw [setInitialized_keys, hlist]
          exact hiter
        obtain ⟨l', hkept, hlist₃, hl'⟩ := keySearchInit_spec (e := e) hreset iter hiter₂
        rw [hl' hfree] at hkept
        generalize immCmdOmKeySearchInit e iter
          (World.setImmSearchInitialized iter false (deleteSearchHandle iter w₁)) = r₃ at hkept hlist₃
        obtain ⟨err₃, w₃⟩ := r₃
        cases err₃ with
        | ok =>
          refine ih (hkept.setImmSearchInitialized iter true) ?_ _ _
          rw [setInitialized_keys, hlist₃]
          exact hiter₂
        | errNotExist => exact hkept
        | _ => exact hkept
    | errNotExist => exact hnext
    | _ => exact hnext

theorem Kept.getImmNextMo (h : w.Kept l rest) (inCache : Bool) (deleted : Nat) :
    (World.getImmNextMo e iter inCache deleted w).2.Kept l rest := by
  unfold World.getImmNextMo
  split
  · exact h
  · split <;> rename_i hmem
    · exact h.searchLoop (List.mem_map.mpr ⟨_, hmem, rfl⟩) _ _ _
    · exact h

theorem Kept.getImmMoIterator (h : w.Kept l rest) (iter : Nat) :
    ∃ l', (World.getImmMoIterator e iter w).2.Kept l' rest ∧
      (iter ∉ w.tx.bridgeImmIterList.map Prod.fst → l' = l) := by
  have hask := h.ask (e := e)
  have htx := w.ask_tx (e := e)
  unfold World.getImmMoIterator
  dsimp only
  generalize w.ask e = a at hask htx ⊢
  obtain ⟨m, w₁⟩ := a
  dsimp only at hask htx ⊢
  have hadded : Kept l rest
      { w₁ with tx := { w₁.tx with bridgeImmIterList := w₁.tx.bridgeImmIterList ++ [(iter, false)] } } := by
    refine ⟨hask.lost, hask.holds, hask.sorted, fun x hx => ?_, hask.reads⟩
    rw [List.map_append]
    exact List.mem_append_left _ (hask.registered x hx)
  obtain ⟨l', hkept, -, hl'⟩ := keySearchInit_spec (e := e) hadded iter (by simp)
  refine ⟨l', ?_, fun hnew => hl' ?_⟩
  · generalize immCmdOmKeySearchInit e iter _ = r at hkept ⊢
    obtain ⟨err, w₂⟩ := r
    cases err with
    | ok => exact hkept.setImmSearchInitialized iter true
    | errNotExist => exact hkept
    | _ => exact hkept
  · -- the keys of the search handles are iterators
    rw [← htx] at hnew
    refine SortedMap.get?_eq_none_iff.mpr fun hmem => ?_
    obtain ⟨x, hx, rfl⟩ := List.mem_map.mp hmem
    exact hnew (hask.registered x hx)

theorem Kept.finalizeImmMoIterator (h : w.Kept l rest) (iter : Nat) :
    (World.finalizeImmMoIterator iter w).2.Kept l rest := by
  unfold World.finalizeImmMoIterator
  split
  · obtain ⟨hdel, hfree, -⟩ := deleteSearchHandle_spec h iter
    refine ⟨hdel.lost, hdel.holds, hdel.sorted, fun x hx => ?_, hdel.reads⟩
    obtain ⟨y, hy, hyx⟩ := List.mem_map.mp (hdel.registered x hx)
    refine List.mem_map.mpr ⟨y, List.mem_filter.mpr ⟨hy, decide_eq_true ?_⟩, hyx⟩
    rintro rfl
    exact SortedMap.get?_eq_none_iff.mp hfree (List.mem_map.mpr ⟨x, hx, hyx.symm⟩)
  · exact h

/-! ## The transactional resource -/

theorem Kept.oamSAPrepare (h : w.Kept l rest) :
    ∃ l', (World.oamSAPrepare e w).2.Kept l' rest ∧ (w.tx.immCcbCreated = true ∨ w.tx.mCcbHandle = 0 → l' = l) := by
  have hstart : Kept l rest { w with tx := { w.tx with isCcbEmpty := false } } :=
    ⟨h.lost, h.holds, h.sorted, h.registered, h.reads⟩
  unfold World.oamSAPrepare
  dsimp only
  by_cases hcreated : w.tx.immCcbCreated = true
  · rw [if_pos hcreated]
    exact ⟨l, hstart, fun _ => rfl⟩
  · rw [if_neg hcreated]
    have hgained := immCmdInit_spec (e := e) hstart .adminOwner .ccb
    unfold ccbInit
    generalize immCmdInit e .adminOwner .ccb _ = r at hgained ⊢
    obtain ⟨err, w₁⟩ := r
    by_cases hok : err = .ok
    · subst hok
      obtain ⟨handle, l', -, hkept, hl'⟩ := hgained.2 rfl
      have hasked : Kept l' rest (World.ask e { w₁ with tx := { w₁.tx with immCcbCreated := true } }).2 :=
        Kept.ask ⟨hkept.lost, hkept.holds, hkept.sorted, hkept.registered, hkept.reads⟩
      refine ⟨l', ?_, fun hor => hl' (hor.resolve_left hcreated)⟩
      dsimp only
      split
      · exact ⟨hasked.lost, hasked.holds, hasked.sorted, hasked.registered, hasked.reads⟩
      · exact hasked
    · have hsame := (hgained.1 hok).1
      refine ⟨l, ?_, fun _ => rfl⟩
      cases err with
      | ok => exact absurd rfl hok
      | _ => exact hsame

theorem Kept.handlePrepareOnImmAbort (h : w.Kept l rest) (n : Nat) :
    (World.handlePrepareOnImmAbort e n w).2.Kept l rest := by
  induction n generalizing w with
  | zero => exact h.ask
  | succ n ih =>
    obtain ⟨hfinal, hzero⟩ := ccbFinalize_spec (e := e) h
    have hready := (hfinal.ask (e := e)).closeCcb
    obtain ⟨l', hkept, hl'⟩ := hready.oamSAPrepare (e := e)
    have hsame : l' = l := by
      refine hl' (.inr ?_)
      rw [World.closeCcb, ask_tx]
      exact hzero
    rw [hsame] at hkept
    unfold World.handlePrepareOnImmAbort
    generalize World.oamSAPrepare e _ = r at hkept ⊢
    obtain ⟨ret, w₁⟩ := r
    split <;> rename_i heq
    · obtain ⟨-, rfl⟩ := Prod.ext_iff.mp heq
      exact ih hkept
    · exact hkept

theorem Kept.prepareOnImmAbort (h : w.Kept l rest) :
    ∃ l', (World.prepareOnImmAbort e w).2.Kept l' rest ∧
      (w.tx.immCcbCreated = true ∨ w.tx.mCcbHandle = 0 → l' = l) := by
  obtain ⟨l', hkept, hl'⟩ := h.oamSAPrepare (e := e)
  refine ⟨l', ?_, hl'⟩
  unfold World.prepareOnImmAbort
  generalize World.oamSAPrepare e w = r at hkept ⊢
  obtain ⟨ret, w₁⟩ := r
  split <;> rename_i heq
  · obtain ⟨-, rfl⟩ := Prod.ext_iff.mp heq
    exact hkept.handlePrepareOnImmAbort _
  · exact hkept

theorem handleCcb_spec (h : w.Kept l rest) :
    (handleCcbOnFailedOperation e w).2.Kept l rest ∧
      ((handleCcbOnFailedOperation e w).1 = true → (handleCcbOnFailedOperation e w).2.tx.mCcbHandle = 0) := by
  have hask := h.ask (e := e)
  unfold handleCcbOnFailedOperation
  dsimp only
  by_cases hflag : (w.ask e).1.flag = true
  · obtain ⟨hfinal, hzero⟩ := ccbFinalize_spec (e := e) hask
    rw [if_pos hflag, ask_tx]
    exact ⟨hfinal.ask, fun _ => hzero⟩
  · rw [if_neg hflag]
    exact ⟨hask.ask, fun htrue => absurd htrue hflag⟩

theorem Kept.validateLoop (h : w.Kept l rest) (n : Nat) (err : SaAisError) :
    (World.validateLoop e n err w).2.2.Kept l rest := by
  induction n generalizing w err with
  | zero => cases err <;> first | exact h | exact h.report
  | succ n ih =>
    cases err with
    | ok => exact h
    | errFailedOperation =>
      obtain ⟨hhandled, hzero⟩ := handleCcb_spec (e := e) h
      unfold World.validateLoop
      generalize handleCcbOnFailedOperation e w = r at hhandled hzero ⊢
      obtain ⟨aborted, w₁⟩ := r
      cases aborted with
      | false => exact hhandled
      | true =>
        obtain ⟨l', hprepared, hl'⟩ := hhandled.closeCcb.prepareOnImmAbort (e := e)
        rw [hl' (.inr (hzero rfl))] at hprepared
        dsimp only
        generalize World.prepareOnImmAbort e _ = r₂ at hprepared ⊢
        obtain ⟨ret, w₂⟩ := r₂
        split <;> rename_i heq
        · obtain ⟨-, rfl⟩ := Prod.ext_iff.mp heq
          exact ih (hprepared.ccbCall) _
        · obtain ⟨-, rfl⟩ := Prod.ext_iff.mp heq
          exact hprepared.ask.abortCcb
    | _ => exact h.report

theorem abortCreated_spec (h : w.Kept l rest) :
    (abortCreated e w).2.Kept l rest ∧ (abortCreated e w).2.tx.mCcbHandle = w.tx.mCcbHandle := by
  unfold abortCreated
  split
  · have hcall := h.closeCcb.ccbCall (e := e)
    have htx := ccbCall_tx (e := e) w.closeCcb
    generalize ccbCall e w.closeCcb = r at hcall htx ⊢
    obtain ⟨err, w₁⟩ := r
    have hccb := congrArg TxContext.mCcbHandle htx
    cases err with
    | ok => exact ⟨hcall, hccb⟩
    | _ => exact ⟨hcall.ask, (congrArg TxContext.mCcbHandle (ask_tx w₁)).trans hccb⟩
  · exact ⟨h, rfl⟩

theorem Kept.oamSAValidate (h : w.Kept l rest) :
    ∃ l', (World.oamSAValidate e w).2.2.Kept l' rest ∧ (w.tx.mCcbHandle = 0 → l' = l) := by
  obtain ⟨haborted, hccb⟩ := abortCreated_spec (e := e) h
  unfold World.oamSAValidate
  generalize abortCreated e w = r at haborted hccb ⊢
  obtain ⟨goOn, w₁⟩ := r
  cases goOn with
  | false => exact ⟨l, haborted, fun _ => rfl⟩
  | true =>
    obtain ⟨l', hprepared, hl'⟩ := haborted.prepareOnImmAbort (e := e)
    refine ⟨l', ?_, fun hzero => hl' (.inr (hccb.trans hzero))⟩
    dsimp only
    generalize World.prepareOnImmAbort e w₁ = r₂ at hprepared ⊢
    obtain ⟨ret, w₂⟩ := r₂
    split <;> rename_i heq
    · obtain ⟨-, rfl⟩ := Prod.ext_iff.mp heq
      split
      · exact hprepared
      · exact hprepared.ccbCall.validateLoop _ _
    · obtain ⟨-, rfl⟩ := Prod.ext_iff.mp heq
      exact hprepared.abortCcb

theorem Kept.commitLoop (h : w.Kept l rest) (n : Nat) (err : SaAisError) :
    (World.commitLoop e n err w).2.Kept l rest := by
  induction n generalizing w err with
  | zero => cases err <;> first | exact h.ask | exact h.report
  | succ n ih =>
    cases err with
    | ok => exact h.ask
    | errFailedOperation =>
      obtain ⟨hhandled, hzero⟩ := handleCcb_spec (e := e) h
      unfold World.commitLoop
      generalize handleCcbOnFailedOperation e w = r at hhandled hzero ⊢
      obtain ⟨aborted, w₁⟩ := r
      cases aborted with
      | false => exact hhandled
      | true =>
        obtain ⟨l', hvalidated, hl'⟩ := hhandled.oamSAValidate (e := e)
        rw [hl' (hzero rfl)] at hvalidated
        dsimp only
        generalize World.oamSAValidate e w₁ = r₂ at hvalidated ⊢
        obtain ⟨ret, valid, w₂⟩ := r₂
        split <;> rename_i heq
        · obtain ⟨-, hrest⟩ := Prod.ext_iff.mp heq
          obtain ⟨-, rfl⟩ := Prod.ext_iff.mp hrest
          exact ih hvalidated.closeCcb.ccbCall _
        · obtain ⟨-, hrest⟩ := Prod.ext_iff.mp heq
          obtain ⟨-, rfl⟩ := Prod.ext_iff.mp hrest
          exact hvalidated.report
    | _ => exact h.report

theorem Kept.oamSACommit (h : w.Kept l rest) : (World.oamSACommit e w).2.Kept l rest :=
  h.closeCcb.ccbCall.commitLoop _ _

end World

/-! ## The repository -/

namespace Repository

open World

variable {e : Env} {l others : List (Nat × Handle)} {r : Repository} {txHandle : Nat}

def handles (contexts : List (Nat × TxContext)) : List (Nat × Handle) := contexts.flatMap fun x => x.2.handles

/-- The contexts hold their handles, nobody holds those that are lost, which are `l`, and `others` are held by a context
that is not in the map. -/
structure Inv (l others : List (Nat × Handle)) (r : Repository) : Prop where
  lost : r.imm.lost = l
  reads : ∀ m ∈ r.imm.meanwhile, m.CacheKept
  holds : Custody.Holds 0 r.imm.log (handles r.theContextMap ++ (l ++ others))
  sorted : SortedMap.Sorted r.theContextMap
  searches : ∀ x ∈ r.theContextMap, SortedMap.Sorted x.2.mSearchHandleMap
  registered : ∀ x ∈ r.theContextMap, ∀ y ∈ x.2.mSearchHandleMap, y.1 ∈ x.2.bridgeImmIterList.map Prod.fst

theorem handles_perm {contexts : List (Nat × TxContext)} {tx : TxContext} {others : List (Nat × TxContext)}
    (h : contexts.Perm ((txHandle, tx) :: others)) (l rest : List (Nat × Handle)) :
    (handles contexts ++ (l ++ rest)).Perm (tx.handles ++ (l ++ (rest ++ handles others))) := by
  refine List.perm_iff_count.mpr fun a => ?_
  have hcount := (h.flatMap_right fun x => x.2.handles).count_eq a
  rw [List.flatMap_cons, List.count_append] at hcount
  unfold handles
  simp only [List.count_append]
  rw [hcount]
  dsimp only
  omega

theorem Inv.kept (h : r.Inv l others) {tx : TxContext} (hget : r.getTxContext txHandle = some tx) :
    World.Kept l (others ++ handles (SortedMap.erase txHandle r.theContextMap)) ⟨tx, r.imm⟩ := by
  have hmem := SortedMap.mem_of_get? hget
  exact ⟨h.lost, h.holds.perm (handles_perm (SortedMap.perm_erase h.sorted hget) l others), h.searches _ hmem,
    h.registered _ hmem, h.reads⟩

theorem mem_of_mem_erase {x : Nat × TxContext} {contexts : List (Nat × TxContext)}
    (hx : x ∈ SortedMap.erase txHandle contexts) : x ∈ contexts := by
  rw [SortedMap.erase_eq_filter] at hx
  exact List.mem_of_mem_filter hx

theorem Inv.put (h : r.Inv l others) (others' : List (Nat × Handle)) {l' : List (Nat × Handle)} {w : World}
    (hkept : World.Kept l' (others' ++ handles (SortedMap.erase txHandle r.theContextMap)) w) :
    Inv l' others' { r with theContextMap := SortedMap.put txHandle w.tx r.theContextMap, imm := w.imm } := by
  have hput := SortedMap.put_perm_erase h.sorted txHandle w.tx
  have hmem : ∀ x ∈ SortedMap.put txHandle w.tx r.theContextMap, x = (txHandle, w.tx) ∨ x ∈ r.theContextMap :=
    fun x hx => (List.mem_cons.mp (hput.mem_iff.mp hx)).imp_right mem_of_mem_erase
  refine ⟨hkept.lost, hkept.reads, hkept.holds.perm (handles_perm hput l' others').symm,
    SortedMap.sorted_put h.sorted _ _, fun x hx => ?_, fun x hx => ?_⟩
  · rcases hmem x hx with rfl | hx
    · exact hkept.sorted
    · exact h.searches x hx
  · rcases hmem x hx with rfl | hx
    · exact hkept.registered
    · exact h.registered x hx

theorem Inv.onContext (h : r.Inv l []) {f : World → World} (quiet : TxContext → Prop)
    (hf : ∀ w rest, World.Kept l rest w → ∃ l', World.Kept l' rest (f w) ∧ (quiet w.tx → l' = l))
    (txHandle : Nat) :
    ∃ l', (r.onContext txHandle f).Inv l' [] ∧ ((∀ tx ∈ r.getTxContext txHandle, quiet tx) → l' = l) := by
  unfold Repository.onContext
  cases hget : r.getTxContext txHandle with
  | none => exact ⟨l, h, fun _ => rfl⟩
  | some tx =>
    obtain ⟨l', hkept, hl'⟩ := hf _ _ (h.kept hget)
    exact ⟨l', h.put [] hkept, fun hquiet => hl' (hquiet tx rfl)⟩

theorem Inv.onContext_quiet (h : r.Inv l []) {f : World → World}
    (hf : ∀ w rest, World.Kept l rest w → World.Kept l rest (f w))
    (txHandle : Nat) : (r.onContext txHandle f).Inv l [] := by
  obtain ⟨l', hinv, hl'⟩ := h.onContext (fun _ => True)
    (fun w rest hw => ⟨l, hf w rest hw, fun _ => rfl⟩) txHandle
  rwa [hl' fun _ _ => trivial] at hinv

theorem Inv.delTxContext (h : r.Inv l others) (txHandle : Nat) :
    (r.delTxContext txHandle).Inv l others ∧ (r.delTxContext txHandle).getTxContext txHandle = none := by
  unfold Repository.delTxContext
  cases hget : r.getTxContext txHandle with
  | none => exact ⟨h, hget⟩
  | some tx =>
    obtain ⟨hlost, hmeanwhile, hholds⟩ := (h.kept hget).destroy
    refine ⟨⟨hlost, fun m hm => h.reads m ?_, hholds.perm (List.perm_iff_count.mpr fun a => ?_),
      SortedMap.sorted_erase h.sorted txHandle, fun x hx => h.searches x (mem_of_mem_erase hx),
      fun x hx => h.registered x (mem_of_mem_erase hx)⟩, ?_⟩
    · exact hmeanwhile ▸ hm
    · simp only [List.count_append]
      omega
    · exact (SortedMap.get?_erase txHandle txHandle _).trans (if_pos rfl)

theorem Inv.oamSAJoin (h : r.Inv l []) (txHandle : Nat) : (r.oamSAJoin e txHandle).Inv l [] := by
  have hstart : World.Kept l (handles r.theContextMap) ⟨{ this := r.contexts }, r.imm⟩ :=
    ⟨h.lost, h.holds.perm (by rw [List.append_nil]; exact List.perm_append_comm), List.Pairwise.nil,
      fun _ hx => (by cases hx), h.reads⟩
  obtain ⟨hsome, hnone⟩ := hstart.newTxContext (e := e)
  unfold Repository.oamSAJoin
  generalize World.newTxContext e r.contexts r.imm = new at hsome hnone ⊢
  obtain ⟨tx, imm⟩ := new
  cases tx with
  | none =>
    obtain ⟨hlost, hreads, hholds⟩ := hnone rfl
    refine ⟨hlost, hreads, ?_, h.sorted, h.searches, h.registered⟩
    rw [List.append_nil]
    exact hholds.perm List.perm_append_comm
  | some tx =>
    have hkept := hsome tx rfl
    -- the new context, before it is in the map
    have hnew : Inv l tx.handles { r with imm, contexts := r.contexts + 1 } := by
      refine ⟨hkept.lost, hkept.reads, hkept.holds.perm (List.perm_iff_count.mpr fun a => ?_), h.sorted, h.searches,
        h.registered⟩
      simp only [List.count_append]
      omega
    obtain ⟨hdel, hfree⟩ := hnew.delTxContext txHandle
    dsimp only
    generalize Repository.delTxContext txHandle { r with imm, contexts := r.contexts + 1 } = r' at hdel hfree ⊢
    have hsame : SortedMap.erase txHandle r'.theContextMap = r'.theContextMap := SortedMap.erase_of_none hfree
    refine hdel.put [] (w := ⟨tx, r'.imm⟩) ⟨hdel.lost, ?_, hkept.sorted, hkept.registered, hdel.reads⟩
    rw [hsame]
    refine hdel.holds.perm (List.perm_iff_count.mpr fun a => ?_)
    simp only [List.count_append, List.count_nil]
    omega

theorem destroyAll_spec {contexts : List (Nat × TxContext)} {imm : Imm} (hlost : imm.lost = l)
    (hreads : ∀ m ∈ imm.meanwhile, m.CacheKept) (hholds : Custody.Holds 0 imm.log (handles contexts ++ l))
    (hsearches : ∀ x ∈ contexts, SortedMap.Sorted x.2.mSearchHandleMap)
    (hregistered : ∀ x ∈ contexts, ∀ y ∈ x.2.mSearchHandleMap, y.1 ∈ x.2.bridgeImmIterList.map Prod.fst) :
    (contexts.foldl (fun imm x => World.destroy ⟨x.2, imm⟩) imm).lost = l ∧
      (∀ m ∈ (contexts.foldl (fun imm x => World.destroy ⟨x.2, imm⟩) imm).meanwhile, m.CacheKept) ∧
      Custody.Holds 0 (contexts.foldl (fun imm x => World.destroy ⟨x.2, imm⟩) imm).log l := by
  induction contexts generalizing imm with
  | nil => exact ⟨hlost, hreads, hholds⟩
  | cons x contexts ih =>
    have hkept : World.Kept l (handles contexts) ⟨x.2, imm⟩ := by
      refine ⟨hlost, hholds.perm (List.perm_iff_count.mpr fun a => ?_), hsearches x List.mem_cons_self,
        hregistered x List.mem_cons_self, hreads⟩
      unfold handles
      rw [List.flatMap_cons]
      simp only [List.count_append]
      omega
    obtain ⟨hlost', hmeanwhile, hholds'⟩ := hkept.destroy
    exact ih hlost' (fun m hm => hreads m (hmeanwhile ▸ hm)) (hholds'.perm List.perm_append_comm)
      (fun y hy => hsearches y (List.mem_cons_of_mem _ hy)) fun y hy => hregistered y (List.mem_cons_of_mem _ hy)

theorem Inv.clearContextMap (h : r.Inv l []) : r.clearContextMap.Inv l [] := by
  obtain ⟨hlost, hreads, hholds⟩ := destroyAll_spec h.lost h.reads (by simpa using h.holds) h.searches h.registered
  refine ⟨hlost, hreads, ?_, List.Pairwise.nil, fun _ hx => (by cases hx), fun _ hx => by cases hx⟩
  rw [List.append_nil]
  exact hholds

theorem Inv.oamSAFinish (h : r.Inv l []) (txHandle : Nat) : (r.oamSAFinish e txHandle).Inv l [] := by
  refine (Inv.delTxContext (h.onContext_quiet (fun w rest hw => ?_) txHandle) txHandle).1
  split
  · exact (ccbFinalize_spec hw).1
  · exact hw

/-! ## Runs -/

theorem Inv.step (h : r.Inv l []) (c : Call) : ∃ l', (r.step e c).Inv l' [] ∧ (r.Tidy c → l' = l) := by
  cases c with
  | join txHandle => exact ⟨l, h.oamSAJoin txHandle, fun _ => rfl⟩
  | access txHandle => exact ⟨l, h.onContext_quiet (fun w rest hw => hw.ask) txHandle, fun _ => rfl⟩
  | getImmMoIterator txHandle iter =>
    exact h.onContext (fun tx => iter ∉ tx.bridgeImmIterList.map Prod.fst)
      (fun w rest hw => hw.getImmMoIterator iter) txHandle
  | getImmNextMo txHandle iter inCache deleted =>
    exact ⟨l, h.onContext_quiet (fun w rest hw => hw.getImmNextMo inCache deleted) txHandle, fun _ => rfl⟩
  | finalizeImmMoIterator txHandle iter =>
    exact ⟨l, h.onContext_quiet (fun w rest hw => hw.finalizeImmMoIterator iter) txHandle, fun _ => rfl⟩
  | prepare txHandle =>
    exact h.onContext (fun tx => tx.immCcbCreated = true ∨ tx.mCcbHandle = 0)
      (fun w rest hw => hw.oamSAPrepare) txHandle
  | validate txHandle =>
    exact h.onContext (fun tx => tx.mCcbHandle = 0) (fun w rest hw => hw.oamSAValidate) txHandle
  | commit txHandle => exact ⟨l, h.onContext_quiet (fun w rest hw => hw.oamSACommit) txHandle, fun _ => rfl⟩
  | abort txHandle => exact ⟨l, h, fun _ => rfl⟩
  | finish txHandle => exact ⟨l, h.oamSAFinish txHandle, fun _ => rfl⟩
  | clearContextMap => exact ⟨l, h.clearContextMap, fun _ => rfl⟩

theorem inv_start (answers : List SaAisError) {meanwhile : List Meanwhile} (hreads : ∀ m ∈ meanwhile, m.CacheKept) :
    ({ imm := { answers, meanwhile } } : Repository).Inv [] [] :=
  ⟨rfl, hreads, Custody.holds_nil, List.Pairwise.nil, fun _ hx => (by cases hx), fun _ hx => by cases hx⟩

theorem inv_run (h : r.Inv l []) (calls : List Call) : ∃ l', (calls.foldl (step e) r).Inv l' [] ∧
    (Along (step e) Tidy r calls → l' = l) := by
  induction calls generalizing r l with
  | nil => exact ⟨l, h, fun _ => rfl⟩
  | cons c calls ih =>
    obtain ⟨l₁, hinv₁, hl₁⟩ := h.step (e := e) c
    obtain ⟨l₂, hinv₂, hl₂⟩ := ih hinv₁
    exact ⟨l₂, hinv₂, fun htidy => (hl₂ htidy.2).trans (hl₁ htidy.1)⟩

/-- Where no handle of a cache goes bad, a context passes only handles that it holds, no handle is finalized twice, and
what was initialized and not finalized is with the contexts, or was lost. -/
theorem handles_in_custody (e : Env) (answers : List SaAisError) (meanwhile : List Meanwhile)
    (hreads : ∀ m ∈ meanwhile, m.CacheKept) (calls : List Call) :
    let r := calls.foldl (step e) { imm := { answers, meanwhile } }
    Along Custody.step (Custody.Proper 0) .empty r.imm.log ∧ r.imm.finalized.Nodup ∧
      (Custody.after r.imm.log).held.Perm (handles r.theContextMap ++ r.imm.lost) := by
  obtain ⟨l, hinv, -⟩ := inv_run (e := e) (inv_start answers hreads) calls
  refine ⟨hinv.holds.proper, hinv.holds.returned_nodup, ?_⟩
  rw [hinv.lost]
  simpa using hinv.holds.held

/-- One of two transactions is validated twice, which loses its first CCB, and is finished. -/
theorem handles_in_custody_twice :
    let r := [Call.join 1, .access 1, .join 2, .validate 1, .validate 1, .finish 1].foldl
      (step ⟨BadHandle.counted, false⟩)
      { imm := { answers := [], meanwhile := [{ cacheReads := [.classDescription, .classOfObject false] }] } }
    r.imm.finalized = [12, 4, 5, 3, 2, 1] ∧
      (Custody.after r.imm.log).held.Perm [(1, 6), (1, 7), (1, 8), (1, 9), (1, 10), (0, 11)] := by
  have hheld := (handles_in_custody ⟨BadHandle.counted, false⟩ []
    [{ cacheReads := [.classDescription, .classOfObject false] }] (by simp [Meanwhile.CacheKept])
    [.join 1, .access 1, .join 2, .validate 1, .validate 1, .finish 1]).2.2
  refine ⟨by decide +kernel, hheld.trans (List.Perm.of_eq ?_)⟩
  decide +kernel

/-- A cache whose handle goes bad finalizes both of its handles, and finalizes them again when it goes. -/
example : ¬ ([Call.join 1, .access 1, .finish 1].foldl (step ⟨BadHandle.counted, false⟩)
    { imm := { meanwhile := [{ cacheReads := [.classOfObject true] }] } }).imm.finalized.Nodup := by decide +kernel

/-- A transaction that is validated twice loses its first CCB. -/
example : ([Call.join 1, .validate 1, .validate 1, .commit 1, .finish 1].foldl
    (step ⟨BadHandle.counted, false⟩) {}).imm.lost = [(0, 6)] := by decide +kernel

/-- Where no transaction gets a CCB while it has another one, all handles are finalized once the contexts are gone. -/
theorem all_finalized (e : Env) (answers : List SaAisError) (meanwhile : List Meanwhile)
    (hreads : ∀ m ∈ meanwhile, m.CacheKept) (calls : List Call)
    (htidy : Along (step e) Tidy { imm := { answers, meanwhile } } calls)
    (hgone : (calls.foldl (step e) { imm := { answers, meanwhile } }).theContextMap = []) :
    let r := calls.foldl (step e) { imm := { answers, meanwhile } }
    r.imm.issued.Perm r.imm.finalized := by
  obtain ⟨l, hinv, hl⟩ := inv_run (e := e) (inv_start answers hreads) calls
  have hperm := hinv.holds.issued_perm
  rw [hl htidy, hgone] at hperm
  exact hperm

/-- A search with a bad handle that IMM refuses to finalize, and a CCB that is tried again. -/
theorem all_finalized_badHandle :
    let r := [Call.join 1, .getImmMoIterator 1 9, .getImmNextMo 1 9 false 1, .validate 1, .commit 1,
      .finish 1].foldl (step ⟨BadHandle.counted, false⟩)
      { imm := { answers := .replicate 6 .ok ++ [.errBadHandle, .errTryAgain, .ok, .ok, .ok, .errTryAgain] } }
    r.imm.finalized = [6, 8, 7, 4, 5, 3, 2, 1] ∧ r.imm.issued.Perm [6, 8, 7, 4, 5, 3, 2, 1] := by
  have hperm := all_finalized ⟨BadHandle.counted, false⟩
    (.replicate 6 .ok ++ [.errBadHandle, .errTryAgain, .ok, .ok, .ok, .errTryAgain]) [] (by simp)
    [.join 1, .getImmMoIterator 1 9, .getImmNextMo 1 9 false 1, .validate 1, .commit 1, .finish 1]
    (by decide +kernel) (by decide +kernel)
  have hfinalized : ([Call.join 1, .getImmMoIterator 1 9, .getImmNextMo 1 9 false 1, .validate 1, .commit 1,
      .finish 1].foldl (step ⟨BadHandle.counted, false⟩) { imm := {
        answers := .replicate 6 .ok ++ [.errBadHandle, .errTryAgain, .ok, .ok, .ok, .errTryAgain]
        meanwhile := [] } }).imm.finalized = [6, 8, 7, 4, 5, 3, 2, 1] := by decide +kernel
  exact ⟨hfinalized, hfinalized ▸ hperm⟩

end Repository

end ComSA.TransactionRepository
