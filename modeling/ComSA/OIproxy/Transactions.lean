import ComSA.Lib.Run
import ComSA.OIproxy.Callbacks

/-!
# Every transaction is ended once

IMM makes the callbacks of a CCB in order: the requests, completed, and then apply or abort. The
applier gets its callbacks from a queue of its own.
-/

namespace ComSA.OIproxy

open OIProxy

inductive Phase where
  | inProgress
  | prepared
  | rejected
  | ended
  deriving DecidableEq, Repr

structure OIRun where
  proxy : OIProxy
  main : CcbId → Phase
  applierEnded : CcbId → Bool

namespace OIRun

def initial : OIRun := ⟨OIProxy.initial, fun _ => .inProgress, fun _ => false⟩

def setMain (ccbId : CcbId) (phase : Phase) (r : OIRun) : OIRun :=
  { r with main := Function.update r.main ccbId phase }

def endApplier (ccbId : CcbId) (r : OIRun) : OIRun :=
  { r with applierEnded := Function.update r.applierEnded ccbId true }

def note (callback : OICallback) (err : SaAisError) (r : OIRun) : OIRun :=
  match callback with
  | .completed ccbId _ => r.setMain ccbId (if err = .ok then .prepared else .rejected)
  | .apply ccbId | .abort ccbId => r.setMain ccbId .ended
  | .structApply ccbId | .structAbort ccbId => r.endApplier ccbId
  | _ => r

def step (answers : Nat → MafReturn) (o : Option OIRun) (callback : OICallback) : Option OIRun :=
  o.bind fun r => (callback.run answers r.proxy).map fun (err, s) => note callback err { r with proxy := s }

end OIRun

def OICallback.Legal (o : Option OIRun) (callback : OICallback) : Prop :=
  ∀ r ∈ o,
    match callback with
    | .createObject ccbId _ | .deleteObject ccbId _ | .modification ccbId _ | .completed ccbId _ =>
      r.main ccbId = .inProgress
    | .apply ccbId => r.main ccbId = .prepared
    | .abort ccbId => r.main ccbId ≠ .ended
    | .structCreate ccbId _ | .structModification ccbId _ | .structApply ccbId | .structAbort ccbId =>
      r.applierEnded ccbId = false
    | .adminOperation _ | .rtAttrUpdate _ => True

def TxCall.isEnd : TxCall → Bool
  | .commit | .abort => true
  | .explicitPrepare ret => ret ≠ .ok
  | .newTransaction => false

def OIProxy.ends (s : OIProxy) (tx : TxHandle) : Nat :=
  s.txLog.countP fun entry => entry.tx = tx && entry.call.isEnd

def OIProxy.StartedBy (s : OIProxy) (owner : Owner) (tx : TxHandle) : Prop := ⟨owner, tx, .newTransaction⟩ ∈ s.txLog

/-- Every transaction is ended exactly once, or it is not ended and belongs to a CCB that goes on; who
ends it is who started it; and nothing is left of a CCB that is over. -/
structure OIRun.Tidy (r : OIRun) : Prop where
  once : ∀ tx < r.proxy.started, r.proxy.ends tx = 1 ∨
    r.proxy.ends tx = 0 ∧ ∃ c, r.proxy.ccbTxMap c = some tx ∧ r.main c ≠ .ended
  byOwner : ∀ entry ∈ r.proxy.txLog, entry.call.isEnd = true → r.proxy.StartedBy entry.owner entry.tx
  ofCcb : ∀ c tx, r.proxy.ccbTxMap c = some tx → r.proxy.StartedBy (.ccb c) tx
  left : ∀ c, r.main c = .ended → r.proxy.ccbTxMap c = none ∧ r.proxy.cache.inUse c = none
  errorLeft : ∀ c, r.applierEnded c = true → r.proxy.ccbApplierError c = .ok

/-! ## The callbacks that keep it so -/

def StructAnswers.Idle (a : StructAnswers) : Prop :=
  a.early ≠ none ∨ a.openTx.getInterface ≠ .ok ∨ a.openTx.newTransaction ≠ .ok

/-- Once the transaction is started it is joined; where the action fails the messages are read, and
where only explicit prepare fails they are not, as that ends the transaction already. -/
def AdminAnswers.Fine (a : AdminAnswers) : Prop :=
  a.early = false → a.moIf = true → a.openTx.getInterface = .ok → a.openTx.newTransaction = .ok →
    a.openTx.joined = true ∧ (a.action = .ok → a.explicitPrepare = .ok ∨ a.getErrMsgs ≠ .ok) ∧
      (a.action ≠ .ok → a.getErrMsgs = .ok)

/-- Once the transaction is started nothing fails but reading or writing the attributes. -/
def RtAnswers.Fine (a : RtAnswers) : Prop :=
  a.early = false → a.openTx.getInterface = .ok → a.openTx.newTransaction = .ok →
    a.openTx.joined = true ∧ a.moIf = true ∧ a.classDescription = true ∧ a.attributes ≠ .noContainer

/-- A struct value comes before the CCB is applied or aborted, and nothing is cached when it is applied. -/
def OICallback.Fine (answers : Nat → MafReturn) (o : Option OIRun) (callback : OICallback) : Prop :=
  ∀ r ∈ o,
    match callback with
    | .modification c a => a.Fine answers c r.proxy
    | .apply c => r.proxy.cache.inUse c = none
    | .structCreate c a | .structModification c a => r.main c = .ended → a.Idle
    | .adminOperation a => a.Fine
    | .rtAttrUpdate a => a.Fine
    | _ => True

/-! ## The invariant -/

structure OIRun.Inv (r : OIRun) : Prop where
  ok : r.proxy.Ok
  bounded : ∀ entry ∈ r.proxy.txLog, entry.tx < r.proxy.started
  mapped : ∀ c tx, r.proxy.ccbTxMap c = some tx → r.proxy.ends tx = 0 ∧ r.proxy.StartedBy (.ccb c) tx ∧
    r.main c ≠ .ended
  closed : ∀ tx < r.proxy.started, r.proxy.ends tx = 1 ∨ ∃ c, r.proxy.ccbTxMap c = some tx
  byOwner : ∀ entry ∈ r.proxy.txLog, entry.call.isEnd = true → r.proxy.StartedBy entry.owner entry.tx
  errors : ∀ c, r.applierEnded c = true → r.proxy.ccbApplierError c = .ok

theorem OIRun.Inv.tidy {r : OIRun} (h : r.Inv) : r.Tidy where
  once tx htx := by
    rcases h.closed tx htx with hends | ⟨c, hc⟩
    · exact Or.inl hends
    · obtain ⟨hends, _, hmain⟩ := h.mapped c tx hc
      exact Or.inr ⟨hends, c, hc, hmain⟩
  byOwner := h.byOwner
  ofCcb c tx hc := (h.mapped c tx hc).2.1
  left c hended := by
    have hnone : r.proxy.ccbTxMap c = none := by
      by_contra hsome
      obtain ⟨tx, htx⟩ := Option.ne_none_iff_exists'.mp hsome
      exact (h.mapped c tx htx).2.2 hended
    refine ⟨hnone, ?_⟩
    by_contra hcached
    exact h.ok.cached c hcached hnone
  errorLeft := h.errors

theorem inv_initial : OIRun.initial.Inv where
  ok := ok_initial
  bounded _ hentry := nomatch hentry
  mapped _ _ htx := nomatch htx
  closed tx htx := absurd htx (Nat.not_lt_zero tx)
  byOwner _ hentry := nomatch hentry
  errors _ hended := nomatch hended

section
variable {answers : Nat → MafReturn} {r : OIRun} {c : CcbId} {s' : OIProxy}

theorem ends_eq_zero (h : r.Inv) : r.proxy.ends r.proxy.started = 0 := by
  refine List.countP_eq_zero.mpr fun entry hentry => ?_
  have hne : entry.tx ≠ r.proxy.started := (h.bounded entry hentry).ne
  simp [hne]

theorem inv_opened (h : r.Inv) (hmain : r.main c ≠ .ended) (hopened : Opened (.ccb c) c r.proxy s') :
    OIRun.Inv { r with proxy := s' } := by
  have hok := h.ok.opened hopened
  rcases hopened with rfl | ⟨hnone, rfl⟩
  · exact h
  · have hends : ∀ tx, ((r.proxy.newTransaction (.ccb c)).addNewCcbTransaction c r.proxy.started).ends tx
        = r.proxy.ends tx := by
      intro tx
      unfold OIProxy.ends
      exact (List.countP_append ..).trans (by simp [TxCall.isEnd])
    have hstarted : ∀ owner tx, r.proxy.StartedBy owner tx →
        ((r.proxy.newTransaction (.ccb c)).addNewCcbTransaction c r.proxy.started).StartedBy owner tx :=
      fun _ _ => List.mem_append_left _
    have hother : ∀ c' ≠ c, ((r.proxy.newTransaction (.ccb c)).addNewCcbTransaction c
        r.proxy.started).ccbTxMap c' = r.proxy.ccbTxMap c' := fun c' hc => Function.update_of_ne hc ..
    have hself : ((r.proxy.newTransaction (.ccb c)).addNewCcbTransaction c
        r.proxy.started).ccbTxMap c = some r.proxy.started := Function.update_self ..
    refine ⟨hok, fun entry hentry => ?_, fun c' tx htx => ?_, fun tx htx => ?_, fun entry hentry hend => ?_,
      h.errors⟩
    · rcases List.mem_append.mp hentry with hentry | hentry
      · exact Nat.lt_succ_of_lt (h.bounded entry hentry)
      · rw [List.mem_singleton.mp hentry]
        exact Nat.lt_succ_self _
    · dsimp only at htx ⊢
      rw [hends]
      by_cases hc : c' = c
      · subst hc
        rw [hself] at htx
        cases htx
        exact ⟨ends_eq_zero h, List.mem_append_right _ (List.mem_singleton.mpr rfl), hmain⟩
      · rw [hother c' hc] at htx
        obtain ⟨hzero, hby, hgoing⟩ := h.mapped c' tx htx
        exact ⟨hzero, hstarted _ _ hby, hgoing⟩
    · dsimp only
      rw [hends]
      rcases Nat.lt_succ_iff_lt_or_eq.mp htx with hlt | heq
      · refine (h.closed tx hlt).imp_right ?_
        rintro ⟨c', hc'⟩
        have hne : c' ≠ c := by
          rintro rfl
          rw [hnone] at hc'
          cases hc'
        exact ⟨c', (hother c' hne).trans hc'⟩
      · exact Or.inr ⟨c, hself.trans (congrArg some heq.symm)⟩
    · rcases List.mem_append.mp hentry with hentry | hentry
      · exact hstarted _ _ (h.byOwner entry hentry hend)
      · rw [List.mem_singleton.mp hentry] at hend
        cases hend

theorem inv_ccbStep (h : r.Inv) (hmain : r.main c ≠ .ended) (hstep : CcbStep c r.proxy s')
    (herrors : ∀ c', r.applierEnded c' = true → s'.ccbApplierError c' = .ok) :
    OIRun.Inv { r with proxy := s' } := by
  have hok := h.ok.ccbStep hstep
  obtain ⟨s₁, hopened, hmap, hstarted, hlog⟩ := hstep.opened
  have h₁ := inv_opened h hmain hopened
  have hends : ∀ tx, s'.ends tx = s₁.ends tx := fun tx => by rw [OIProxy.ends, hlog, OIProxy.ends]
  refine ⟨hok, ?_, fun c' tx htx => ?_, fun tx htx => ?_, ?_, herrors⟩
  · dsimp only
    rw [hlog, hstarted]
    exact h₁.bounded
  · dsimp only at htx ⊢
    rw [hends, OIProxy.StartedBy, hlog]
    exact h₁.mapped c' tx (hmap ▸ htx)
  · dsimp only at htx ⊢
    rw [hends, hmap]
    exact h₁.closed tx (hstarted ▸ htx)
  · dsimp only [OIProxy.StartedBy]
    rw [hlog]
    exact h₁.byOwner

/-! ## Ending a transaction -/

theorem ends_call (s : OIProxy) (owner : Owner) (tx tx' : TxHandle) (k : TxCall) :
    (s.call owner tx k).ends tx' = s.ends tx' + if tx = tx' ∧ k.isEnd = true then 1 else 0 := by
  unfold OIProxy.ends
  refine (List.countP_append ..).trans (congrArg _ ?_)
  rw [List.countP_singleton]
  simp

theorem ends_call_of_ne {s : OIProxy} {owner : Owner} {tx tx' : TxHandle} {k : TxCall} (h : tx' ≠ tx) :
    (s.call owner tx k).ends tx' = s.ends tx' := by
  rw [ends_call, if_neg (fun hboth => h hboth.1.symm), Nat.add_zero]

theorem inv_end (h : r.Inv) {tx : TxHandle} (htx : r.proxy.ccbTxMap c = some tx) {cache : StructCache}
    (hslots : SlotsOk cache) (helse : Elsewhere c r.proxy.cache cache) (hnone : cache.inUse c = none)
    {k : TxCall} (hend : k.isEnd = true) (phase : Phase) :
    OIRun.Inv (OIRun.setMain c phase { r with
      proxy := (({ r.proxy with cache := cache } : OIProxy).removeCcbTransaction c).call (.ccb c) tx k }) := by
  obtain ⟨hzero, hby, _⟩ := h.mapped c tx htx
  have hself : (({ r.proxy with cache := cache } : OIProxy).removeCcbTransaction c).ccbTxMap c = none :=
    Function.update_self ..
  have hother : ∀ c' ≠ c, (({ r.proxy with cache := cache } : OIProxy).removeCcbTransaction c).ccbTxMap c'
      = r.proxy.ccbTxMap c' := fun c' hc => Function.update_of_ne hc ..
  refine ⟨(h.ok.removed hslots helse hnone).call .., fun entry hentry => ?_, fun c' tx' htx' => ?_,
    fun tx' htx' => ?_, fun entry hentry hend' => ?_, h.errors⟩
  · rcases List.mem_append.mp hentry with hentry | hentry
    · exact h.bounded entry hentry
    · rw [List.mem_singleton.mp hentry]
      exact h.ok.below c tx htx
  · have hc : c' ≠ c := by
      rintro rfl
      have := hself.symm.trans htx'
      cases this
    have hold := (hother c' hc).symm.trans htx'
    obtain ⟨hzero', hby', hgoing⟩ := h.mapped c' tx' hold
    have hne : tx' ≠ tx := by
      rintro rfl
      exact hc (h.ok.apart c' c tx' hold htx)
    refine ⟨(ends_call_of_ne hne).trans hzero', List.mem_append_left _ hby', ?_⟩
    exact fun hended => hgoing ((Function.update_of_ne hc ..).symm.trans hended)
  · by_cases hne : tx' = tx
    · refine Or.inl ?_
      rw [hne]
      refine (ends_call ..).trans ?_
      rw [if_pos ⟨rfl, hend⟩]
      exact congrArg (· + 1) hzero
    · refine (h.closed tx' htx').imp (fun hone => (ends_call_of_ne hne).trans hone) ?_
      rintro ⟨c', hc'⟩
      have hcne : c' ≠ c := by
        rintro rfl
        rw [htx] at hc'
        exact hne (Option.some.inj hc').symm
      exact ⟨c', (hother c' hcne).trans hc'⟩
  · rcases List.mem_append.mp hentry with hentry | hentry
    · exact List.mem_append_left _ (h.byOwner entry hentry hend')
    · rw [List.mem_singleton.mp hentry]
      exact List.mem_append_left _ hby

theorem inv_setMain (h : r.Inv) (phase : Phase) (hended : phase = .ended → r.proxy.ccbTxMap c = none) :
    (r.setMain c phase).Inv := by
  refine { h with mapped := fun c' tx htx => ?_ }
  obtain ⟨hzero, hby, hgoing⟩ := h.mapped c' tx htx
  refine ⟨hzero, hby, ?_⟩
  by_cases hc : c' = c
  · intro hphase
    rw [hc] at hphase htx
    have := hended ((Function.update_self ..).symm.trans hphase)
    have := this.symm.trans htx
    cases this
  · exact fun hphase => hgoing ((Function.update_of_ne hc ..).symm.trans hphase)

theorem inv_call (h : r.Inv) {owner : Owner} {tx : TxHandle} (htx : tx < r.proxy.started) {k : TxCall}
    (hend : k.isEnd = false) : OIRun.Inv { r with proxy := r.proxy.call owner tx k } := by
  have hends : ∀ tx', (r.proxy.call owner tx k).ends tx' = r.proxy.ends tx' := by
    intro tx'
    rw [ends_call, if_neg (by simp [hend]), Nat.add_zero]
  refine ⟨h.ok.call .., fun entry hentry => ?_, fun c tx' htx' => ?_, fun tx' htx' => ?_,
    fun entry hentry hend' => ?_, h.errors⟩
  · rcases List.mem_append.mp hentry with hentry | hentry
    · exact h.bounded entry hentry
    · rw [List.mem_singleton.mp hentry]
      exact htx
  · obtain ⟨hzero, hby, hgoing⟩ := h.mapped c tx' htx'
    exact ⟨(hends tx').trans hzero, List.mem_append_left _ hby, hgoing⟩
  · exact (h.closed tx' htx').imp_left (hends tx').trans
  · rcases List.mem_append.mp hentry with hentry | hentry
    · exact List.mem_append_left _ (h.byOwner entry hentry hend')
    · rw [List.mem_singleton.mp hentry] at hend'
      rw [hend] at hend'
      cases hend'

theorem inv_own (h : r.Inv) (owner : Owner) (more : List TxEntry)
    (hmore : ∀ entry ∈ more, entry.owner = owner ∧ entry.tx = r.proxy.started)
    (hone : (more.countP fun entry => entry.call.isEnd) = 1) :
    OIRun.Inv { r with proxy := { r.proxy.newTransaction owner with
      txLog := (r.proxy.newTransaction owner).txLog ++ more } } := by
  have hends : ∀ tx, OIProxy.ends { r.proxy.newTransaction owner with
      txLog := (r.proxy.newTransaction owner).txLog ++ more } tx
        = r.proxy.ends tx + if tx = r.proxy.started then 1 else 0 := by
    intro tx
    unfold OIProxy.ends OIProxy.newTransaction
    dsimp only
    rw [List.countP_append, List.countP_append, List.countP_singleton]
    have hcount : (more.countP fun entry => entry.tx = tx && entry.call.isEnd)
        = if tx = r.proxy.started then 1 else 0 := by
      split <;> rename_i htx
      · rw [← hone]
        refine List.countP_congr fun entry hentry => ?_
        simp [(hmore entry hentry).2, htx]
      · refine List.countP_eq_zero.mpr fun entry hentry => ?_
        simp [(hmore entry hentry).2, Ne.symm htx]
    rw [hcount]
    simp [TxCall.isEnd]
  have hstarted : ∀ owner' tx, r.proxy.StartedBy owner' tx → OIProxy.StartedBy { r.proxy.newTransaction owner with
      txLog := (r.proxy.newTransaction owner).txLog ++ more } owner' tx :=
    fun _ _ hby => List.mem_append_left _ (List.mem_append_left _ hby)
  have hok : OIProxy.Ok { r.proxy.newTransaction owner with
      txLog := (r.proxy.newTransaction owner).txLog ++ more } := { h.ok.newTransaction owner with }
  refine ⟨hok, fun entry hentry => ?_, fun c tx htx => ?_, fun tx htx => ?_, fun entry hentry hend => ?_, h.errors⟩
  · rcases List.mem_append.mp hentry with hentry | hentry
    · rcases List.mem_append.mp hentry with hentry | hentry
      · exact Nat.lt_succ_of_lt (h.bounded entry hentry)
      · rw [List.mem_singleton.mp hentry]
        exact Nat.lt_succ_self _
    · rw [(hmore entry hentry).2]
      exact Nat.lt_succ_self _
  · obtain ⟨hzero, hby, hgoing⟩ := h.mapped c tx htx
    refine ⟨?_, hstarted _ _ hby, hgoing⟩
    rw [hends, if_neg (h.ok.below c tx htx).ne]
    exact hzero
  · rw [hends]
    rcases Nat.lt_succ_iff_lt_or_eq.mp htx with hlt | heq
    · rw [if_neg hlt.ne]
      exact h.closed tx hlt
    · rw [if_pos heq, heq, ends_eq_zero h]
      exact Or.inl rfl
  · rcases List.mem_append.mp hentry with hentry | hentry
    · rcases List.mem_append.mp hentry with hentry | hentry
      · exact hstarted _ _ (h.byOwner entry hentry hend)
      · rw [List.mem_singleton.mp hentry] at hend
        cases hend
    · obtain ⟨howner, htx⟩ := hmore entry hentry
      rw [howner, htx]
      exact List.mem_append_left _ (List.mem_append_right _ (List.mem_singleton.mpr rfl))

/-! ## The end of a CCB -/

theorem inv_completed (h : r.Inv) (hmain : r.main c = .inProgress) {prepare : MafReturn} {err : SaAisError}
    (hstep : CompletedStep c prepare r.proxy err s') :
    OIRun.Inv (OIRun.setMain c (if err = .ok then .prepared else .rejected) { r with proxy := s' }) := by
  have hphase : (if err = .ok then Phase.prepared else .rejected) ≠ .ended := by
    split <;> exact fun h => nomatch h
  have hsent : ∀ {cache : StructCache}, r.proxy.ccbTxMap c ≠ none → CacheStep c [] r.proxy.cache cache →
      OIRun.Inv { r with proxy := { r.proxy with cache := cache } } := by
    intro cache hopen hcache
    refine inv_ccbStep h ?_ (CcbStep.of_cache (Or.inl rfl) hopen hcache) h.errors
    rw [hmain]
    exact fun h => nomatch h
  cases hstep with
  | error _ => exact inv_setMain h _ fun h => absurd h hphase
  | noTransaction _ _ => exact inv_setMain h _ fun h => nomatch h
  | notSent hopen hcache => exact inv_setMain (hsent hopen hcache) _ fun h => nomatch h
  | prepared _ htx hcache _ hprepare =>
    have hopen : r.proxy.ccbTxMap c ≠ none := by
      rw [htx]
      exact Option.some_ne_none _
    refine inv_setMain (inv_call (hsent hopen hcache) (h.ok.below c _ htx) ?_) _ fun h => nomatch h
    rw [TxCall.isEnd, hprepare]
    rfl
  | notPrepared _ htx hcache hnone hprepare =>
    have hend : (TxCall.explicitPrepare prepare).isEnd = true := decide_eq_true hprepare
    exact inv_end h htx hcache.slots hcache.elsewhere hnone hend .rejected

theorem inv_apply (h : r.Inv) (hcached : r.proxy.cache.inUse c = none) :
    OIRun.Inv (OIRun.setMain c .ended { r with proxy := handleCcbApply c r.proxy }) := by
  unfold handleCcbApply
  cases htx : r.proxy.ccbTxMap c with
  | none => exact inv_setMain h _ fun _ => htx
  | some tx =>
    exact inv_end h htx h.ok.slots (Elsewhere.refl c _) hcached (k := .commit) rfl .ended

theorem inv_abort (h : r.Inv) : ∃ s', handleCcbAbort c r.proxy = some s' ∧
    OIRun.Inv (OIRun.setMain c .ended { r with proxy := s' }) := by
  rcases abort_spec c h.ok with ⟨htx, habort⟩ | ⟨tx, cache, htx, hslots, helse, hnone, habort⟩
  · exact ⟨r.proxy, habort, inv_setMain h _ fun _ => htx⟩
  · exact ⟨_, habort, inv_end h htx hslots helse hnone (k := .abort) rfl .ended⟩

theorem inv_structEnd (h : r.Inv) :
    OIRun.Inv (OIRun.endApplier c { r with proxy := r.proxy.removeCcbApplierError c }) := by
  refine { h with ok := h.ok.setError .ok, errors := fun c' hended => ?_ }
  by_cases hc : c' = c
  · rw [hc]
    exact Function.update_self ..
  · exact (Function.update_of_ne hc ..).trans (h.errors c' ((Function.update_of_ne hc ..).symm.trans hended))

/-! ## Transactions of their own -/

theorem inv_ownCall (h : r.Inv) (owner : Owner) {k : TxCall} (hend : k.isEnd = true) :
    OIRun.Inv { r with proxy := (r.proxy.newTransaction owner).call owner r.proxy.started k } := by
  refine inv_own h owner [⟨owner, r.proxy.started, k⟩] (fun entry hentry => ?_) ?_
  · rw [List.mem_singleton.mp hentry]
    exact ⟨rfl, rfl⟩
  · rw [List.countP_singleton, if_pos hend]

theorem inv_ownCommit (h : r.Inv) (owner : Owner) :
    OIRun.Inv { r with proxy := ((r.proxy.newTransaction owner).call owner r.proxy.started
      (.explicitPrepare .ok)).call owner r.proxy.started .commit } := by
  unfold OIProxy.call
  dsimp only
  rw [List.append_assoc]
  refine inv_own h owner _ (fun entry hentry => ?_) rfl
  rcases List.mem_append.mp hentry with hentry | hentry
  all_goals rw [List.mem_singleton.mp hentry]; exact ⟨rfl, rfl⟩

theorem inv_adminOperation (h : r.Inv) {a : AdminAnswers} (hfine : a.Fine) :
    ∃ s', handleAdminOperation a r.proxy = some s' ∧ OIRun.Inv { r with proxy := s' } := by
  unfold handleAdminOperation
  split <;> rename_i hearly
  · exact ⟨r.proxy, rfl, h⟩
  · obtain ⟨c, hfree, hnone⟩ := freeCcbId_of_ok h.ok
    rw [hfree]
    dsimp only
    split <;> rename_i hmoIf
    · exact ⟨r.proxy, rfl, h⟩
    · rcases openTransaction_free .adminOperation hnone a.openTx with hopen | ⟨hportal, hnew, hopen⟩
      · rw [hopen]
        exact ⟨r.proxy, rfl, h⟩
      · obtain ⟨hjoined, hprepare, haction⟩ := hfine (by simpa using hearly) (by simpa using hmoIf) hportal hnew
        rw [hopen, hjoined, if_pos rfl]
        dsimp only
        rw [remove_opened hnone]
        split <;> rename_i hact
        · split <;> rename_i hprep
          · rw [hprep]
            exact ⟨_, rfl, inv_ownCommit h .adminOperation⟩
          · rw [if_pos ((hprepare hact).resolve_left hprep)]
            exact ⟨_, rfl, inv_ownCall h .adminOperation (decide_eq_true hprep)⟩
        · rw [if_neg (not_not.mpr (haction hact))]
          exact ⟨_, rfl, inv_ownCall h .adminOperation rfl⟩

theorem inv_rtAttrUpdate (h : r.Inv) {a : RtAnswers} (hfine : a.Fine) :
    OIRun.Inv { r with proxy := handleRtAttrUpdate a r.proxy } := by
  unfold handleRtAttrUpdate
  split <;> rename_i hearly
  · exact h
  · rcases openAnonymousTransaction_spec .rtAttrUpdate a.openTx r.proxy with hopen | ⟨hportal, hnew, hopen⟩
    · rw [hopen]
      exact h
    · obtain ⟨hjoined, hmoIf, hclass, hattributes⟩ := hfine (by simpa using hearly) hportal hnew
      rw [hopen, hjoined, hmoIf, hclass]
      cases hrt : a.attributes with
      | noContainer => exact absurd hrt hattributes
      | failed => exact inv_ownCall h .rtAttrUpdate rfl
      | ok =>
        by_cases hprep : a.explicitPrepare = .ok
        · rw [hprep]
          exact inv_ownCommit h .rtAttrUpdate
        · have hdone := inv_ownCall h .rtAttrUpdate (k := .explicitPrepare a.explicitPrepare) (decide_eq_true hprep)
          simpa [hprep] using hdone

/-! ## Runs -/

theorem step_of_run {callback : OICallback} {err : SaAisError} (h : callback.run answers r.proxy = some (err, s')) :
    OIRun.step answers (some r) callback = some (OIRun.note callback err { r with proxy := s' }) := by
  unfold OIRun.step
  rw [Option.bind_some, h, Option.map_some]

theorem inv_request (h : r.Inv) (hmain : r.main c = .inProgress) (hstep : CcbStep c r.proxy s')
    (herrors : s'.ccbApplierError = r.proxy.ccbApplierError) : OIRun.Inv { r with proxy := s' } := by
  refine inv_ccbStep h ?_ hstep fun c' hended => ?_
  · rw [hmain]
    exact fun h => nomatch h
  · rw [herrors]
    exact h.errors c' hended

variable (answers) in
theorem inv_struct (h : r.Inv) (setError : SaAisError) (herror : setError ≠ .ok) {a : StructAnswers}
    (hended : r.applierEnded c = false) (hidle : r.main c = .ended → a.Idle) :
    ∃ err s', setStruct answers c setError a r.proxy = some (err, s') ∧ OIRun.Inv { r with proxy := s' } := by
  have herrors : ∀ {s' : OIProxy}, (∀ c' ≠ c, s'.ccbApplierError c' = r.proxy.ccbApplierError c') →
      ∀ c', r.applierEnded c' = true → s'.ccbApplierError c' = .ok := by
    intro s' hothers c' hended'
    have hc : c' ≠ c := by
      rintro rfl
      rw [hended] at hended'
      cases hended'
    rw [hothers c' hc]
    exact h.errors c' hended'
  by_cases hmain : r.main c = .ended
  · have hnone : r.proxy.ccbTxMap c = none := (h.tidy.left c hmain).1
    unfold setStruct
    cases hearly : a.early with
    | some err => exact ⟨err, r.proxy, rfl, h⟩
    | none =>
      rcases openTransaction_free (.ccb c) hnone a.openTx with hopen | ⟨hportal, hnew, _⟩
      · dsimp only
        rw [hopen]
        exact ⟨_, _, rfl,
          { h with ok := h.ok.setError _, errors := herrors fun c' hc => Function.update_of_ne hc .. }⟩
      · rcases hidle hmain with hidle | hidle | hidle
        · exact absurd hearly hidle
        · exact absurd hportal hidle
        · exact absurd hnew hidle
  · obtain ⟨err, s', hrun, hstep⟩ := setStruct_spec answers setError herror a h.ok.slots
    exact ⟨err, s', hrun, inv_ccbStep h hmain hstep.toCcbStep (herrors hstep.errors)⟩

/-- A fine callback is carried out, and keeps the invariant. -/
theorem inv_step {callback : OICallback} (h : r.Inv) (hlegal : callback.Legal (some r))
    (hfine : callback.Fine answers (some r)) :
    ∃ r', OIRun.step answers (some r) callback = some r' ∧ r'.Inv := by
  have hlegal := hlegal r rfl
  have hfine := hfine r rfl
  cases callback with
  | createObject c a =>
    obtain ⟨err, s', hrun, hstep, herrors⟩ := createObject_spec answers a h.ok.slots
    exact ⟨_, step_of_run hrun, inv_request h hlegal hstep herrors⟩
  | deleteObject c a =>
    obtain ⟨err, s', hrun, hstep, herrors⟩ := deleteObject_spec answers a h.ok.slots
    exact ⟨_, step_of_run hrun, inv_request h hlegal hstep herrors⟩
  | modification c a =>
    obtain ⟨err, s', hrun, hstep, herrors⟩ := modification_spec a h.ok.slots hfine
    exact ⟨_, step_of_run hrun, inv_request h hlegal hstep herrors⟩
  | completed c prepare =>
    obtain ⟨err, s', hrun, hstep⟩ := completed_spec answers h.ok c prepare
    exact ⟨_, step_of_run hrun, inv_completed h hlegal hstep⟩
  | apply c => exact ⟨_, rfl, inv_apply h hfine⟩
  | abort c =>
    obtain ⟨s', hrun, hdone⟩ := inv_abort (c := c) h
    exact ⟨_, step_of_run (by rw [OICallback.run, hrun, Option.map_some]), hdone⟩
  | structCreate c a =>
    obtain ⟨err, s', hrun, hdone⟩ := inv_struct answers h .badOperation (fun h => nomatch h) hlegal hfine
    exact ⟨_, step_of_run hrun, hdone⟩
  | structModification c a =>
    obtain ⟨err, s', hrun, hdone⟩ := inv_struct answers h .failedOperation (fun h => nomatch h) hlegal hfine
    exact ⟨_, step_of_run hrun, hdone⟩
  | structApply c => exact ⟨_, rfl, inv_structEnd h⟩
  | structAbort c => exact ⟨_, rfl, inv_structEnd h⟩
  | adminOperation a =>
    obtain ⟨s', hrun, hdone⟩ := inv_adminOperation h hfine
    exact ⟨_, step_of_run (by rw [OICallback.run, hrun, Option.map_some]), hdone⟩
  | rtAttrUpdate a => exact ⟨_, rfl, inv_rtAttrUpdate h hfine⟩

end

/-- In every run of fine callbacks no transaction is lost, none is ended twice and nothing is left. -/
theorem tidy_of_fine (answers : Nat → MafReturn) (callbacks : List OICallback)
    (hlegal : Along (OIRun.step answers) OICallback.Legal (some OIRun.initial) callbacks)
    (hfine : Along (OIRun.step answers) (OICallback.Fine answers) (some OIRun.initial) callbacks) :
    Throughout (OIRun.step answers) (fun o => ∃ r, o = some r ∧ r.Tidy) (some OIRun.initial) callbacks := by
  have hinv : Throughout (OIRun.step answers) (fun o => ∃ r, o = some r ∧ r.Inv) (some OIRun.initial)
    callbacks := by
    refine throughout_of_along ?_ ⟨OIRun.initial, rfl, inv_initial⟩ (hlegal.and hfine)
    rintro _ callback ⟨r, rfl, h⟩ ⟨hlegal, hfine⟩
    exact inv_step h hlegal hfine
  exact hinv.mono fun o ⟨r, ho, h⟩ => ⟨r, ho, h.tidy⟩

def openFine : OpenAnswers := ⟨.ok, .ok, .ok, false, .ok⟩

def interleaved : List OICallback :=
  [.structCreate 1 ⟨none, openFine, some 5, "Top=1", "s", some [⟨"m", none⟩]⟩,
    .createObject 1 ⟨⟨none, openFine, some 5, false, "Top=1"⟩, "", "Top", some ("topId", "1"), some []⟩,
    .deleteObject 2 ⟨none, openFine, some 5, false, "Top=2"⟩,
    .adminOperation ⟨false, true, openFine, .ok, .ok, .ok⟩,
    .completed 1 .ok,
    .completed 2 .failure,
    .rtAttrUpdate ⟨false, openFine, true, true, .ok, .ok⟩,
    .abort 2,
    .apply 1,
    .structApply 1]

theorem tidy_of_fine_interleaved : Throughout (OIRun.step fun _ => .ok) (fun o => ∃ r, o = some r ∧ r.Tidy)
    (some OIRun.initial) interleaved := by
  refine tidy_of_fine _ _ ?_ ?_
  · refine ⟨?_, ?_, ?_, ?_, ?_, ?_, ?_, ?_, ?_, ?_, trivial⟩
    all_goals
      rintro r ⟨⟩
      first | rfl | trivial
  · refine ⟨?_, ?_, ?_, ?_, ?_, ?_, ?_, ?_, ?_, ?_, trivial⟩
    all_goals rintro r ⟨⟩
    · exact fun h => nomatch h
    · trivial
    · trivial
    · exact fun _ _ _ _ => ⟨rfl, fun _ => Or.inl rfl, fun _ => rfl⟩
    · trivial
    · trivial
    · exact fun _ _ _ => ⟨rfl, rfl, rfl, fun h => nomatch h⟩
    · trivial
    · trivial
    · trivial

/-- The class description is looked up with the transaction open, and where it is not found the
transaction is neither ended nor kept. -/
theorem not_all_tidy : ¬ ∀ (answers : Nat → MafReturn) (callbacks : List OICallback),
    Along (OIRun.step answers) OICallback.Legal (some OIRun.initial) callbacks →
    Throughout (OIRun.step answers) (fun o => ∃ r, o = some r ∧ r.Tidy) (some OIRun.initial) callbacks := by
  intro h
  obtain ⟨_, r, hr, htidy⟩ := h (fun _ => .ok) [.rtAttrUpdate ⟨false, openFine, true, false, .ok, .ok⟩]
    ⟨fun _ _ => trivial, trivial⟩
  cases hr
  rcases htidy.once 0 (by decide) with hends | ⟨_, c, hmap, _⟩
  · exact absurd hends (by decide)
  · cases hmap

end ComSA.OIproxy
