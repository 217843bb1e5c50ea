import ComSA.Lib.Run
import ComSA.PmtSa.PmEventHandler

/-!
# What becomes of a finished period

COM uses one of the two interfaces. A run is a sequence of finished periods and of calls of that interface,
with `stop` at its end.
-/

namespace ComSA.PmtSa

open PmEventHandler

inductive Interface where
  | first
  | second
  deriving DecidableEq

namespace Interface

def slot (h : PmEventHandler) (gpName : String) : Interface → Option Slot
  | first => some h.gp
  | second => (gpMap.lookup gpName).map h.gp2

def Keeps (gpName : String) (r : GpRecord) : Interface → Prop
  | first => True
  | second => r.gpIndex = gpMap.lookup gpName

instance (gpName : String) (r : GpRecord) : (iface : Interface) → Decidable (iface.Keeps gpName r)
  | first => .isTrue trivial
  | second => inferInstanceAs (Decidable (_ = _))

def get (pmGpId : UInt64) (gpName : String) (answer : Option Nat) (h : PmEventHandler) :
    Interface → Except Fault (ComReturn × PmEventHandler)
  | first => h.getGpData pmGpId answer
  | second => h.getGpData2 pmGpId gpName answer

def release (pmGpId : UInt64) (gpName : String) (answer : SaAisError) (h : PmEventHandler) :
    Interface → Except Fault (ComReturn × PmEventHandler)
  | first => h.releaseGpData pmGpId answer
  | second => h.releaseGpData2 pmGpId gpName answer

end Interface

inductive GpCall where
  | sendPmDataReady (pmCbData : SaPmCCallbackInfo) (notified : ComReturn)
  | get (pmGpId : UInt64) (gpName : String) (answer : Option Nat)
  | release (pmGpId : UInt64) (gpName : String) (answer : SaAisError)

/-- The handler, the records that are neither released nor found dead, and the job handlers of all periods
that it was told of. -/
structure Periods where
  handler : PmEventHandler
  pending : List GpRecord
  sent : List UInt64

namespace GpCall

def run (iface : Interface) (h : PmEventHandler) : GpCall → Except Fault (ComReturn × PmEventHandler)
  | sendPmDataReady pmCbData notified => h.sendPmDataReady pmCbData notified
  | get pmGpId gpName answer => iface.get pmGpId gpName answer h
  | release pmGpId gpName answer => iface.release pmGpId gpName answer h

def jobHandlers : GpCall → List UInt64
  | sendPmDataReady pmCbData _ => [pmCbData.jobHandler]
  | _ => []

def records (h : PmEventHandler) : GpCall → List GpRecord
  | sendPmDataReady pmCbData _ => [h.copy pmCbData]
  | _ => []

def Disposes (iface : Interface) (h : PmEventHandler) (r : GpRecord) : GpCall → Prop
  | sendPmDataReady _ _ => False
  | get _ _ (some _) => False
  | get pmGpId gpName none =>
    r.jobHandler = pmGpId ∧ iface.Keeps gpName r ∧ (iface.slot h gpName).any fun t => decide t.Idle
  | release pmGpId gpName _ => r.jobHandler = pmGpId ∧ iface.Keeps gpName r

instance (iface : Interface) (h : PmEventHandler) (r : GpRecord) :
    (c : GpCall) → Decidable (c.Disposes iface h r)
  | sendPmDataReady _ _ => .isFalse not_false
  | get _ _ (some _) => .isFalse not_false
  | get _ _ none => inferInstanceAs (Decidable (_ ∧ _ ∧ _))
  | release _ _ _ => inferInstanceAs (Decidable (_ ∧ _))

def step (iface : Interface) (s : Except Fault Periods) (c : GpCall) : Except Fault Periods := do
  let p ← s
  let (_, h) ← c.run iface p.handler
  return {
    handler := h
    pending := (p.pending ++ c.records p.handler).filter fun r => ¬ c.Disposes iface p.handler r
    sent := p.sent ++ c.jobHandlers }

end GpCall

namespace Periods

def start : Periods := ⟨.start, [], []⟩

end Periods

def PmEventHandler.Holds (h : PmEventHandler) (r : GpRecord) : Prop :=
  r ∈ h.gp.finishedGps ∨ ∃ i, r ∈ (h.gp2 i).finishedGps

structure Periods.Kept (iface : Interface) (p : Periods) : Prop where
  /-- What is pending can be fetched when COM works with nothing else. -/
  fetched : ∀ r ∈ p.pending, ∀ gpName t, iface.Keeps gpName r → iface.slot p.handler gpName = some t →
    t.Idle → ∀ data, ∃ h, iface.get r.jobHandler gpName (some data) p.handler = .ok (.ok, h) ∧
      iface.slot h gpName =
        some { t with comCurrentGp := r.toSaPmCCallbackInfo, comCurrentResult := some data }
  notFreed : ∀ r, p.handler.Holds r → r.address ∉ p.handler.freed
  freedOnce : p.handler.freed.Nodup
  removedOnce : p.handler.removed.Nodup

/-- No call has failed to come to its end, and nothing is lost, freed twice or removed twice. -/
def Kept (iface : Interface) : Except Fault Periods → Prop
  | .error _ => False
  | .ok p => p.Kept iface

/-- `stop` comes to its end, and every record is freed once then. -/
def StopsClean : Except Fault Periods → Prop
  | .error _ => False
  | .ok p => ∃ h, p.handler.stop = .ok (.ok, h) ∧ (∀ r, ¬ h.Holds r) ∧
      (∀ a < h.made, h.freed.count a = 1) ∧ h.removed.Nodup

/-- The period has one of the seven lengths, the GP name is one of the seven names, what is fetched is not
found dead, and a period with the job handler 0 is not released before it was fetched. -/
def GpCall.Fine (iface : Interface) : Except Fault Periods → GpCall → Prop
  | .error _, _ => False
  | .ok _, sendPmDataReady pmCbData _ => pmCbData.gpIndex.isSome
  | .ok p, get pmGpId gpName answer =>
    ∃ t ∈ iface.slot p.handler gpName, answer = none → t.Idle → t.find pmGpId = none
  | .ok p, release pmGpId gpName _ =>
    ∃ t ∈ iface.slot p.handler gpName, pmGpId = 0 → (t.find pmGpId).isSome → t.comCurrentResult.isSome

instance (iface : Interface) : (s : Except Fault Periods) → (c : GpCall) → Decidable (c.Fine iface s)
  | .error _, _ => .isFalse not_false
  | .ok _, .sendPmDataReady _ _ => inferInstanceAs (Decidable (_ = true))
  | .ok _, .get _ _ _ => inferInstanceAs (Decidable (∃ t ∈ _, _ → _ → _))
  | .ok _, .release _ _ _ => inferInstanceAs (Decidable (∃ t ∈ _, _ → _ → _))

/-- Each record of the second interface is one of the first, and not what COM works with. -/
def StopFine : Except Fault Periods → Prop
  | .error _ => False
  | .ok p => ∀ i, ∀ r ∈ (p.handler.gp2 i).finishedGps,
      r ∈ p.handler.gp.finishedGps ∧ r.jobHandler ≠ (p.handler.gp2 i).comCurrentGp.jobHandler

instance : (s : Except Fault Periods) → Decidable (StopFine s)
  | .error _ => .isFalse not_false
  | .ok _ => inferInstanceAs (Decidable (∀ _, ∀ r ∈ _, _ ∧ _))

def GpCall.Legal : Except Fault Periods → GpCall → Prop
  | .error _, _ => True
  | .ok p, c => ∀ x ∈ c.jobHandlers, x ∉ p.sent

/-! ## Lists by job handler -/

section
variable {l : List GpRecord} {x : UInt64} {r : GpRecord}

theorem eraseP_eq_filter (h : (l.map (·.jobHandler)).Nodup) (x : UInt64) :
    l.eraseP (·.jobHandler == x) = l.filter fun r => ¬ r.jobHandler = x := by
  induction l with
  | nil => rfl
  | cons r l ih =>
    rw [List.map_cons, List.nodup_cons] at h
    rw [List.eraseP_cons, List.filter_cons]
    by_cases hr : r.jobHandler = x
    · have hkeep : ∀ r' ∈ l, decide (¬ r'.jobHandler = x) = true := by
        intro r' hr'
        rw [decide_eq_true_iff, ← hr]
        exact fun heq => h.1 (heq ▸ List.mem_map_of_mem hr')
      rw [List.filter_eq_self.mpr hkeep]
      simp [hr]
    · rw [ih h.2, beq_eq_false_iff_ne.mpr hr]
      simp [hr]

theorem find_eq_some_iff (h : (l.map (·.jobHandler)).Nodup) :
    l.find? (·.jobHandler == x) = some r ↔ r ∈ l ∧ r.jobHandler = x := by
  induction l with
  | nil => simp
  | cons a l ih =>
    rw [List.map_cons, List.nodup_cons] at h
    rw [List.find?_cons]
    by_cases ha : a.jobHandler = x
    · simp only [ha, beq_self_eq_true, Option.some.injEq, List.mem_cons]
      constructor
      · rintro rfl
        exact ⟨Or.inl rfl, ha⟩
      · rintro ⟨rfl | hr, hx⟩
        · rfl
        · have := List.mem_map_of_mem (f := fun r => r.jobHandler) hr
          rw [hx, ← ha] at this
          exact absurd this h.1
    · simp only [beq_eq_false_iff_ne.mpr ha, ih h.2, List.mem_cons]
      constructor
      · rintro ⟨hr, hx⟩
        exact ⟨Or.inr hr, hx⟩
      · rintro ⟨rfl | hr, hx⟩
        · exact absurd hx ha
        · exact ⟨hr, hx⟩

theorem perm_cons_filter (h : (l.map (·.jobHandler)).Nodup) (hr : r ∈ l) :
    l.Perm (r :: l.filter fun r' => ¬ r'.jobHandler = r.jobHandler) := by
  rw [← eraseP_eq_filter h]
  obtain ⟨a, l₁, l₂, hbefore, ha, hl, herase⟩ :=
    List.exists_of_eraseP (p := (·.jobHandler == r.jobHandler)) hr (beq_self_eq_true _)
  have har : a = r := by
    have hfound := (find_eq_some_iff h).mpr ⟨hr, rfl⟩
    have hmem : a ∈ l := hl ▸ List.mem_append_right _ List.mem_cons_self
    exact Option.some.inj (((find_eq_some_iff h).mpr ⟨hmem, beq_iff_eq.mp ha⟩).symm.trans hfound)
  rw [herase, hl, har]
  exact List.perm_middle

end

/-! ## What holds between the calls -/

/-- What was freed and removed is what is no longer pending, each once. -/
structure Accounts (pending : List GpRecord) (sent : List UInt64) (h : PmEventHandler) : Prop where
  handlers : (pending.map (·.jobHandler)).Nodup
  addresses : (pending.map (·.address)).Nodup
  told : ∀ r ∈ pending, r.jobHandler ∈ sent
  made : ∀ r ∈ pending, r.address < h.made
  freedOnce : h.freed.Nodup
  freed : ∀ a, a ∈ h.freed ↔ a < h.made ∧ a ∉ pending.map (·.address)
  removed : h.removed.Nodup
  removedSent : ∀ x ∈ h.removed, x ∈ sent ∧ x ∉ pending.map (·.jobHandler)

/-- The lists hold what is pending. A call of the second interface may have taken a record away from the first. -/
structure Lists (iface : Interface) (pending : List GpRecord) (h : PmEventHandler) : Prop where
  unlocked : h.locked = false
  period : ∀ r ∈ pending, r.gpIndex.isSome
  gp : h.gp.finishedGps.Sublist pending
  gpFirst : iface = .first → h.gp.finishedGps = pending
  gp2 : ∀ i, (h.gp2 i).finishedGps = pending.filter fun r => r.gpIndex = some i
  tidy : h.gp.Tidy
  tidy2 : ∀ i, (h.gp2 i).Tidy

structure Periods.Inv (iface : Interface) (p : Periods) : Prop where
  accounts : Accounts p.pending p.sent p.handler
  lists : Lists iface p.pending p.handler

namespace Accounts
variable {pending pending' : List GpRecord} {sent : List UInt64} {h h' : PmEventHandler} {r : GpRecord}

theorem congr (acc : Accounts pending sent h) (hmade : h'.made = h.made) (hfreed : h'.freed = h.freed)
    (hremoved : h'.removed = h.removed) : Accounts pending sent h' where
  handlers := acc.handlers
  addresses := acc.addresses
  told := acc.told
  made := by rw [hmade]; exact acc.made
  freedOnce := by rw [hfreed]; exact acc.freedOnce
  freed := by rw [hmade, hfreed]; exact acc.freed
  removed := by rw [hremoved]; exact acc.removed
  removedSent := by rw [hremoved]; exact acc.removedSent

theorem not_freed (acc : Accounts pending sent h) (hr : r ∈ pending) : r.address ∉ h.freed := by
  rw [acc.freed]
  exact fun hnot => hnot.2 (List.mem_map_of_mem hr)

theorem send (acc : Accounts pending sent h) {info : SaPmCCallbackInfo} (hnew : info.jobHandler ∉ sent)
    (hmade : h'.made = h.made + 1) (hfreed : h'.freed = h.freed) (hremoved : h'.removed = h.removed) :
    Accounts (pending ++ [h.copy info]) (sent ++ [info.jobHandler]) h' where
  handlers := by
    rw [List.map_append, List.nodup_append]
    refine ⟨acc.handlers, by simp, ?_⟩
    simp only [List.map_cons, List.map_nil, List.mem_singleton, forall_eq]
    intro x hx heq
    obtain ⟨r, hr, rfl⟩ := List.mem_map.mp hx
    have : r.jobHandler = info.jobHandler := heq
    exact hnew (this ▸ acc.told r hr)
  addresses := by
    rw [List.map_append, List.nodup_append]
    refine ⟨acc.addresses, by simp, ?_⟩
    simp only [List.map_cons, List.map_nil, List.mem_singleton, forall_eq]
    intro x hx heq
    obtain ⟨r, hr, rfl⟩ := List.mem_map.mp hx
    have hlt := acc.made r hr
    have : r.address = h.made := heq
    omega
  told := by
    intro r hr
    rw [List.mem_append] at hr ⊢
    rcases hr with hr | hr
    · exact Or.inl (acc.told r hr)
    · rw [List.mem_singleton.mp hr]
      exact Or.inr (List.mem_singleton.mpr rfl)
  made := by
    intro r hr
    rw [hmade]
    rcases List.mem_append.mp hr with hr | hr
    · exact Nat.lt_succ_of_lt (acc.made r hr)
    · rw [List.mem_singleton.mp hr]
      exact Nat.lt_succ_self _
  freedOnce := by rw [hfreed]; exact acc.freedOnce
  freed := by
    intro a
    have hcopy : (h.copy info).address = h.made := rfl
    rw [hmade, hfreed, acc.freed, List.map_append, List.map_singleton, hcopy, List.mem_append,
      List.mem_singleton, not_or]
    have : a < h.made ↔ a < h.made + 1 ∧ ¬ a = h.made := by omega
    tauto
  removed := by rw [hremoved]; exact acc.removed
  removedSent := by
    intro x hx
    rw [hremoved] at hx
    obtain ⟨hsent, hnot⟩ := acc.removedSent x hx
    refine ⟨List.mem_append_left _ hsent, ?_⟩
    rw [List.map_append, List.mem_append, not_or]
    refine ⟨hnot, ?_⟩
    rw [List.map_singleton, List.mem_singleton]
    rintro rfl
    exact hnew hsent

theorem dispose (acc : Accounts pending sent h) (hperm : pending.Perm (r :: pending'))
    (hmade : h'.made = h.made) (hfreed : h'.freed = h.freed ++ [r.address])
    (hremoved : h'.removed = h.removed ++ [r.jobHandler]) : Accounts pending' sent h' := by
  have hhandlers := (hperm.map (·.jobHandler)).nodup_iff.mp acc.handlers
  have haddresses := (hperm.map (·.address)).nodup_iff.mp acc.addresses
  rw [List.map_cons, List.nodup_cons] at hhandlers haddresses
  have hsub : ∀ r' ∈ pending', r' ∈ pending := fun r' hr' => hperm.mem_iff.mpr (List.mem_cons_of_mem _ hr')
  have hr : r ∈ pending := hperm.mem_iff.mpr List.mem_cons_self
  refine ⟨hhandlers.2, haddresses.2, fun r' hr' => acc.told r' (hsub r' hr'), ?_, ?_, fun a => ?_, ?_, ?_⟩
  · rw [hmade]
    exact fun r' hr' => acc.made r' (hsub r' hr')
  · rw [hfreed, List.nodup_append]
    refine ⟨acc.freedOnce, by simp, ?_⟩
    simp only [List.mem_singleton, forall_eq]
    rintro a ha rfl
    exact acc.not_freed hr ha
  · have hmem : a ∈ pending.map (·.address) ↔ a = r.address ∨ a ∈ pending'.map (·.address) := by
      rw [(hperm.map (·.address)).mem_iff, List.map_cons, List.mem_cons]
    have hlt := acc.made r hr
    rw [hfreed, hmade, List.mem_append, acc.freed, List.mem_singleton, hmem, not_or]
    by_cases ha : a = r.address
    · subst ha
      simp [hlt, haddresses.1]
    · simp [ha]
  · rw [hremoved, List.nodup_append]
    refine ⟨acc.removed, by simp, ?_⟩
    simp only [List.mem_singleton, forall_eq]
    rintro x hx rfl
    exact (acc.removedSent _ hx).2 (List.mem_map_of_mem hr)
  · rw [hremoved]
    intro x hx
    rcases List.mem_append.mp hx with hx | hx
    · obtain ⟨hsent, hnot⟩ := acc.removedSent x hx
      refine ⟨hsent, fun hmem => hnot ?_⟩
      rw [(hperm.map (·.jobHandler)).mem_iff]
      exact List.mem_cons_of_mem _ hmem
    · rw [List.mem_singleton.mp hx]
      exact ⟨acc.told r hr, hhandlers.1⟩

end Accounts

/-! ## The list of a call -/

namespace Interface

def put (gpName : String) (t : Slot) (h : PmEventHandler) : Interface → PmEventHandler
  | first => { h with gp := t }
  | second =>
    match gpMap.lookup gpName with
    | some i => { h with gp2 := Function.update h.gp2 i t }
    | none => h

variable {iface : Interface} {gpName : String} {h : PmEventHandler} {t t' : Slot}

theorem slot_first (hslot : slot h gpName .first = some t) : t = h.gp := (Option.some.inj hslot).symm

theorem slot_second (hslot : slot h gpName .second = some t) :
    ∃ i, gpMap.lookup gpName = some i ∧ t = h.gp2 i := by
  obtain ⟨i, hname, heq⟩ := Option.map_eq_some_iff.mp hslot
  exact ⟨i, hname, heq.symm⟩

theorem slot_put (hslot : iface.slot h gpName = some t) :
    iface.slot (iface.put gpName t' h) gpName = some t' := by
  cases iface with
  | first => rfl
  | second =>
    obtain ⟨i, hname, -⟩ := slot_second hslot
    unfold slot put
    simp [hname]

theorem get_eq (hfree : h.locked = false) (hslot : iface.slot h gpName = some t) (pmGpId : UInt64)
    (answer : Option Nat) :
    iface.get pmGpId gpName answer h =
      (t.getGpData pmGpId answer).map fun x => (x.1, iface.put gpName x.2 h) := by
  cases iface with
  | first =>
    rw [slot_first hslot]
    exact getGpData_eq hfree answer
  | second =>
    obtain ⟨i, hname, rfl⟩ := slot_second hslot
    unfold get put
    rw [getGpData2_eq hname, hname]

theorem get_unknown (hslot : iface.slot h gpName = none) (pmGpId : UInt64) (answer : Option Nat) :
    iface.get pmGpId gpName answer h = .error .endOfMap := by
  cases iface with
  | first => cases hslot
  | second =>
    have hname : gpMap.lookup gpName = none := Option.map_eq_none_iff.mp hslot
    unfold get getGpData2
    rw [hname]
    rfl

theorem release_unknown (hslot : iface.slot h gpName = none) (pmGpId : UInt64) (answer : SaAisError) :
    iface.release pmGpId gpName answer h = .error .endOfMap := by
  cases iface with
  | first => cases hslot
  | second =>
    have hname : gpMap.lookup gpName = none := Option.map_eq_none_iff.mp hslot
    unfold release releaseGpData2
    rw [hname]
    rfl

end Interface

namespace Lists
variable {iface : Interface} {pending : List GpRecord} {h h' : PmEventHandler} {gpName : String} {t t' : Slot}
  {r : GpRecord} {x : UInt64}

theorem mem_slot (lists : Lists iface pending h) (hslot : iface.slot h gpName = some t) :
    r ∈ t.finishedGps ↔ r ∈ pending ∧ iface.Keeps gpName r := by
  cases iface with
  | first =>
    rw [Interface.slot_first hslot, lists.gpFirst rfl]
    exact (and_iff_left trivial).symm
  | second =>
    obtain ⟨i, hname, rfl⟩ := Interface.slot_second hslot
    rw [lists.gp2, List.mem_filter, decide_eq_true_iff]
    unfold Interface.Keeps
    rw [hname]

theorem slot_sublist (lists : Lists iface pending h) (hslot : iface.slot h gpName = some t) :
    t.finishedGps.Sublist pending := by
  cases iface with
  | first =>
    rw [Interface.slot_first hslot]
    exact lists.gp
  | second =>
    obtain ⟨i, hname, rfl⟩ := Interface.slot_second hslot
    rw [lists.gp2]
    exact List.filter_sublist

theorem slot_tidy (lists : Lists iface pending h) (hslot : iface.slot h gpName = some t) : t.Tidy := by
  cases iface with
  | first =>
    rw [Interface.slot_first hslot]
    exact lists.tidy
  | second =>
    obtain ⟨i, hname, rfl⟩ := Interface.slot_second hslot
    exact lists.tidy2 i

theorem find_slot (lists : Lists iface pending h) (hnodup : (pending.map (·.jobHandler)).Nodup)
    (hslot : iface.slot h gpName = some t) :
    t.find x = some r ↔ (r ∈ pending ∧ iface.Keeps gpName r) ∧ r.jobHandler = x := by
  have hsub := (lists.slot_sublist hslot).map (·.jobHandler)
  rw [Slot.find, find_eq_some_iff (hnodup.sublist hsub), lists.mem_slot hslot]

theorem holds_mem (lists : Lists iface pending h) (hholds : h.Holds r) : r ∈ pending := by
  rcases hholds with hr | ⟨i, hr⟩
  · exact lists.gp.subset hr
  · rw [lists.gp2] at hr
    exact List.mem_of_mem_filter hr

theorem put (lists : Lists iface pending h) (hslot : iface.slot h gpName = some t)
    (hsame : t'.finishedGps = t.finishedGps) (htidy : t'.Tidy) :
    Lists iface pending (iface.put gpName t' h) := by
  cases iface with
  | first =>
    rw [Interface.slot_first hslot] at hsame
    refine ⟨lists.unlocked, lists.period, ?_, fun _ => ?_, lists.gp2, htidy, lists.tidy2⟩
    · exact hsame.symm ▸ lists.gp
    · exact hsame.trans (lists.gpFirst rfl)
  | second =>
    obtain ⟨i, hname, rfl⟩ := Interface.slot_second hslot
    unfold Interface.put
    rw [hname]
    refine ⟨lists.unlocked, lists.period, lists.gp, (fun hfirst => nomatch hfirst), fun j => ?_, lists.tidy,
      fun j => ?_⟩
    · by_cases hj : j = i
      · subst hj
        rw [← lists.gp2, ← hsame]
        simp
      · rw [← lists.gp2]
        simp [hj]
    · by_cases hj : j = i
      · subst hj
        simpa using htidy
      · simpa [hj] using lists.tidy2 j

theorem erase (lists : Lists iface pending h) (hunlocked : h'.locked = false)
    (hgp : h'.gp.finishedGps = h.gp.finishedGps.filter fun r => ¬ r.jobHandler = x)
    (hgp2 : ∀ i, (h'.gp2 i).finishedGps =
      (h.gp2 i).finishedGps.filter fun r => ¬ (r.jobHandler = x ∧ iface.Keeps gpName r))
    (htidy : h'.gp.Tidy) (htidy2 : ∀ i, (h'.gp2 i).Tidy) :
    Lists iface (pending.filter fun r => ¬ (r.jobHandler = x ∧ iface.Keeps gpName r)) h' where
  unlocked := hunlocked
  period r hr := lists.period r (List.mem_of_mem_filter hr)
  gp := by
    rw [hgp]
    refine (lists.gp.filter _).trans (List.monotone_filter_right _ fun r hr => ?_)
    simp only [decide_eq_true_iff] at hr ⊢
    exact fun hboth => hr hboth.1
  gpFirst hfirst := by
    rw [hgp, lists.gpFirst hfirst]
    subst hfirst
    simp [Interface.Keeps]
  gp2 i := by rw [hgp2, lists.gp2, List.filter_comm]
  tidy := htidy
  tidy2 := htidy2

end Lists

/-! ## A release -/

section
variable {iface : Interface} {pending : List GpRecord} {h : PmEventHandler} {gpName : String} {t : Slot}
  {x : UInt64}

theorem erase_list (hnodup : (t.finishedGps.map (·.jobHandler)).Nodup) :
    (t.erase x).finishedGps = t.finishedGps.filter fun r => ¬ r.jobHandler = x :=
  eraseP_eq_filter hnodup x

theorem erase_erase_list (hnodup : (t.finishedGps.map (·.jobHandler)).Nodup) :
    ((t.erase x).erase x).finishedGps = t.finishedGps.filter fun r => ¬ r.jobHandler = x := by
  have hsub : (t.erase x).finishedGps.Sublist t.finishedGps := List.eraseP_sublist
  rw [erase_list (hnodup.sublist (hsub.map _)), erase_list hnodup, List.filter_filter]
  simp

theorem Lists.gp_nodup (lists : Lists iface pending h) (hnodup : (pending.map (·.jobHandler)).Nodup) :
    (h.gp.finishedGps.map (·.jobHandler)).Nodup :=
  hnodup.sublist (lists.gp.map _)

theorem Lists.gp2_nodup (lists : Lists iface pending h) (hnodup : (pending.map (·.jobHandler)).Nodup)
    (i : GpIndex) : ((h.gp2 i).finishedGps.map (·.jobHandler)).Nodup := by
  rw [lists.gp2]
  exact hnodup.sublist (List.filter_sublist.map _)

structure Releases (iface : Interface) (x : UInt64) (gpName : String) (pending : List GpRecord)
    (found : Option GpRecord) (h h' : PmEventHandler) : Prop where
  lists : Lists iface (pending.filter fun r => ¬ (r.jobHandler = x ∧ iface.Keeps gpName r)) h'
  made : h'.made = h.made
  freed : h'.freed = h.freed ++ (found.map (·.address)).toList
  removed : h'.removed = h.removed ++ (found.map (·.jobHandler)).toList

theorem releaseGpData_releases (lists : Lists .first pending h)
    (hnodup : (pending.map (·.jobHandler)).Nodup)
    (hzero : x = 0 → (h.gp.find x).isSome → h.gp.comCurrentResult.isSome) (answer : SaAisError) :
    ∃ rc h', h.releaseGpData x answer = .ok (rc, h') ∧
      Releases .first x gpName pending (h.gp.find x) h h' := by
  obtain ⟨t', hrelease, hlist, htidy⟩ := Slot.releaseGpData_spec lists.tidy hzero
  have hgp : t'.finishedGps = h.gp.finishedGps.filter fun r => ¬ r.jobHandler = x := by
    rw [hlist, erase_list (lists.gp_nodup hnodup)]
  unfold releaseGpData
  rw [lock_eq lists.unlocked]
  dsimp only [Bind.bind, Except.bind, removefinishedGp2]
  rw [hrelease]
  have hkeep : (fun r => decide ¬ (r.jobHandler = x ∧ Interface.first.Keeps gpName r)) =
      fun r : GpRecord => decide ¬ r.jobHandler = x := by
    funext r
    simp [Interface.Keeps]
  cases hfind : h.gp.find x with
  | none =>
    refine ⟨_, _, rfl, lists.erase rfl hgp (fun i => ?_) htidy lists.tidy2, rfl, ?_, ?_⟩
    · rw [hkeep]
      exact erase_list (lists.gp2_nodup hnodup i)
    · exact (List.append_nil _).symm
    · exact (List.append_nil _).symm
  | some r =>
    refine ⟨_, _, rfl, lists.erase rfl hgp (fun i => ?_) htidy lists.tidy2, rfl, rfl, rfl⟩
    rw [hkeep]
    exact erase_erase_list (lists.gp2_nodup hnodup i)

theorem releaseGpData2_releases {i : GpIndex} (lists : Lists .second pending h)
    (hnodup : (pending.map (·.jobHandler)).Nodup) (hname : gpMap.lookup gpName = some i)
    (hzero : x = 0 → ((h.gp2 i).find x).isSome → (h.gp2 i).comCurrentResult.isSome) (answer : SaAisError) :
    ∃ rc h', h.releaseGpData2 x gpName answer = .ok (rc, h') ∧
      Releases .second x gpName pending ((h.gp2 i).find x) h h' := by
  obtain ⟨t', hrelease, hlist, htidy⟩ := Slot.releaseGpData_spec (lists.tidy2 i) hzero
  have hgp2 : ∀ j, (Function.update h.gp2 i t' j).finishedGps = (h.gp2 j).finishedGps.filter
      fun r => ¬ (r.jobHandler = x ∧ Interface.second.Keeps gpName r) := by
    intro j
    by_cases hj : j = i
    · subst hj
      rw [Function.update_self, hlist, erase_list (lists.gp2_nodup hnodup j)]
      refine List.filter_congr fun r hr => ?_
      rw [lists.gp2, List.mem_filter, decide_eq_true_iff] at hr
      simp [Interface.Keeps, hname, hr.2]
    · rw [Function.update_of_ne hj]
      refine (List.filter_eq_self.mpr fun r hr => ?_).symm
      rw [lists.gp2, List.mem_filter, decide_eq_true_iff] at hr
      simp [Interface.Keeps, hname, hr.2, hj]
  have htidy2 : ∀ j, (Function.update h.gp2 i t' j).Tidy := by
    intro j
    by_cases hj : j = i
    · subst hj
      rwa [Function.update_self]
    · rw [Function.update_of_ne hj]
      exact lists.tidy2 j
  unfold releaseGpData2
  rw [hname, removefinishedGp_eq lists.unlocked]
  dsimp only [second, Bind.bind, Except.bind]
  rw [hrelease]
  cases hfind : (h.gp2 i).find x with
  | none =>
    refine ⟨_, _, rfl, lists.erase lists.unlocked ?_ hgp2 lists.tidy htidy2, rfl, ?_, ?_⟩
    · exact erase_list (lists.gp_nodup hnodup)
    · exact (List.append_nil _).symm
    · exact (List.append_nil _).symm
  | some r =>
    dsimp only
    rw [removefinishedGp_eq (by exact lists.unlocked)]
    refine ⟨_, _, rfl, lists.erase lists.unlocked ?_ hgp2 lists.tidy htidy2, rfl, rfl, rfl⟩
    exact erase_erase_list (lists.gp_nodup hnodup)

theorem release_releases (lists : Lists iface pending h) (hnodup : (pending.map (·.jobHandler)).Nodup)
    (hslot : iface.slot h gpName = some t)
    (hzero : x = 0 → (t.find x).isSome → t.comCurrentResult.isSome) (answer : SaAisError) :
    ∃ rc h', iface.release x gpName answer h = .ok (rc, h') ∧
      Releases iface x gpName pending (t.find x) h h' := by
  cases iface with
  | first =>
    obtain rfl := Interface.slot_first hslot
    exact releaseGpData_releases lists hnodup hzero answer
  | second =>
    obtain ⟨i, hname, rfl⟩ := Interface.slot_second hslot
    exact releaseGpData2_releases lists hnodup hname hzero answer

theorem release_zero (lists : Lists iface pending h) (hslot : iface.slot h gpName = some t)
    (hfind : (t.find 0).isSome) (hresult : t.comCurrentResult = none) (answer : SaAisError) :
    iface.release 0 gpName answer h = .error .nullData := by
  obtain ⟨r, hr⟩ := Option.isSome_iff_exists.mp hfind
  have herror := Slot.releaseGpData_zero (lists.slot_tidy hslot) hr hresult
  cases iface with
  | first =>
    obtain rfl := Interface.slot_first hslot
    unfold Interface.release releaseGpData
    rw [lock_eq lists.unlocked]
    dsimp only [Bind.bind, Except.bind, removefinishedGp2]
    rw [herror]
  | second =>
    obtain ⟨i, hname, rfl⟩ := Interface.slot_second hslot
    unfold Interface.release releaseGpData2
    rw [hname, removefinishedGp_eq lists.unlocked]
    dsimp only [second, Bind.bind, Except.bind]
    rw [herror]

end

/-! ## One call -/

section
variable {iface : Interface} {p : Periods} {h : PmEventHandler} {c : GpCall} {rc : ComReturn}

namespace Interface
variable (gpName : String) (t : Slot) (h : PmEventHandler) (iface : Interface)

theorem put_made : (iface.put gpName t h).made = h.made := by
  unfold put
  cases iface
  · rfl
  · dsimp only
    split <;> rfl

theorem put_freed : (iface.put gpName t h).freed = h.freed := by
  unfold put
  cases iface
  · rfl
  · dsimp only
    split <;> rfl

theorem put_removed : (iface.put gpName t h).removed = h.removed := by
  unfold put
  cases iface
  · rfl
  · dsimp only
    split <;> rfl

end Interface

theorem step_ok (hrun : c.run iface p.handler = .ok (rc, h)) :
    c.step iface (.ok p) = .ok ⟨h, (p.pending ++ c.records p.handler).filter
      fun r => ¬ c.Disposes iface p.handler r, p.sent ++ c.jobHandlers⟩ := by
  unfold GpCall.step
  dsimp only [Bind.bind, Except.bind]
  rw [hrun]
  rfl

theorem step_error {e : Fault} (hrun : c.run iface p.handler = .error e) :
    c.step iface (.ok p) = .error e := by
  unfold GpCall.step
  dsimp only [Bind.bind, Except.bind]
  rw [hrun]

theorem Periods.Inv.kept (inv : p.Inv iface) : p.Kept iface where
  fetched := by
    intro r hr gpName t hkeeps hslot hidle data
    have hfind := (inv.lists.find_slot inv.accounts.handlers hslot).mpr ⟨⟨hr, hkeeps⟩, rfl⟩
    refine ⟨_, ?_, Interface.slot_put hslot⟩
    rw [Interface.get_eq inv.lists.unlocked hslot, Slot.getGpData_found hidle hfind]
    rfl
  notFreed r hr := inv.accounts.not_freed (inv.lists.holds_mem hr)
  freedOnce := inv.accounts.freedOnce
  removedOnce := inv.accounts.removed

theorem Lists.send {pending : List GpRecord} {info : SaPmCCallbackInfo} {i : GpIndex}
    (lists : Lists iface pending h) (hindex : info.gpIndex = some i) :
    Lists iface (pending ++ [h.copy info]) { h with
      made := h.made + 1
      gp := h.gp.push (h.copy info)
      gp2 := Function.update h.gp2 i ((h.gp2 i).push (h.copy info)) } where
  unlocked := lists.unlocked
  period := by
    intro r hr
    rcases List.mem_append.mp hr with hr | hr
    · exact lists.period r hr
    · rw [List.mem_singleton.mp hr]
      exact Option.isSome_iff_exists.mpr ⟨i, hindex⟩
  gp := lists.gp.append (List.Sublist.refl _)
  gpFirst hfirst := by
    have := lists.gpFirst hfirst
    dsimp only [Slot.push]
    rw [this]
  gp2 := by
    have hcopy : (h.copy info).gpIndex = some i := hindex
    intro j
    rw [List.filter_append, ← lists.gp2]
    by_cases hj : j = i
    · subst hj
      simp [Slot.push, hcopy]
    · simp [hj, hcopy, Ne.symm hj]
  tidy := lists.tidy
  tidy2 := by
    intro j
    by_cases hj : j = i
    · subst hj
      dsimp only
      rw [Function.update_self]
      exact lists.tidy2 j
    · simpa [hj] using lists.tidy2 j

theorem inv_send (inv : p.Inv iface) {info : SaPmCCallbackInfo} (notified : ComReturn)
    (hnew : info.jobHandler ∉ p.sent) (hindex : info.gpIndex.isSome) :
    ∃ p', (GpCall.sendPmDataReady info notified).step iface (.ok p) = .ok p' ∧ p'.Inv iface := by
  obtain ⟨i, hi⟩ := Option.isSome_iff_exists.mp hindex
  refine ⟨_, step_ok (sendPmDataReady_eq inv.lists.unlocked hi notified), ?_⟩
  have hpending : (p.pending ++ [p.handler.copy info]).filter (fun r => ¬ False) =
      p.pending ++ [p.handler.copy info] := by simp
  refine ⟨?_, ?_⟩
  · exact hpending.symm ▸ inv.accounts.send hnew rfl rfl rfl
  · exact hpending.symm ▸ inv.lists.send hi

theorem inv_get (inv : p.Inv iface) {x : UInt64} {gpName : String} {t : Slot} {answer : Option Nat}
    (hslot : iface.slot p.handler gpName = some t) (halive : answer = none → t.Idle → t.find x = none) :
    ∃ p', (GpCall.get x gpName answer).step iface (.ok p) = .ok p' ∧ p'.Inv iface := by
  have hget := Interface.get_eq inv.lists.unlocked hslot x answer
  have hslots : ∃ rc t', t.getGpData x answer = .ok (rc, t') ∧ t'.finishedGps = t.finishedGps ∧
      (t.Tidy → t'.Tidy) := by
    cases answer with
    | some data => exact Slot.getGpData_some x data t
    | none =>
      obtain ⟨rc, hrun⟩ := Slot.getGpData_none (halive rfl)
      exact ⟨rc, t, hrun, rfl, id⟩
  obtain ⟨rc, t', hrun, hsame, htidy⟩ := hslots
  rw [hrun] at hget
  refine ⟨_, step_ok hget, ?_⟩
  have hpending : (p.pending ++ []).filter
      (fun r => ¬ (GpCall.get x gpName answer).Disposes iface p.handler r) = p.pending := by
    rw [List.append_nil]
    refine List.filter_eq_self.mpr fun r hr => decide_eq_true ?_
    cases answer with
    | some data => exact not_false
    | none =>
      rintro ⟨rfl, hkeeps, hidle⟩
      rw [hslot] at hidle
      have hfind := (inv.lists.find_slot inv.accounts.handlers hslot).mpr ⟨⟨hr, hkeeps⟩, rfl⟩
      rw [halive rfl (of_decide_eq_true hidle)] at hfind
      cases hfind
  have hsent : p.sent ++ (GpCall.get x gpName answer).jobHandlers = p.sent := List.append_nil _
  constructor
  · dsimp only [GpCall.records]
    rw [hpending, hsent]
    exact inv.accounts.congr (Interface.put_made ..) (Interface.put_freed ..) (Interface.put_removed ..)
  · dsimp only [GpCall.records]
    rw [hpending]
    exact inv.lists.put hslot hsame (htidy (inv.lists.slot_tidy hslot))

theorem inv_release (inv : p.Inv iface) {x : UInt64} {gpName : String} {t : Slot} (answer : SaAisError)
    (hslot : iface.slot p.handler gpName = some t)
    (hzero : x = 0 → (t.find x).isSome → t.comCurrentResult.isSome) :
    ∃ p', (GpCall.release x gpName answer).step iface (.ok p) = .ok p' ∧ p'.Inv iface := by
  obtain ⟨rc, h', hrun, hrel⟩ := release_releases inv.lists inv.accounts.handlers hslot hzero answer
  refine ⟨_, step_ok hrun, ?_⟩
  have hsent : p.sent ++ (GpCall.release x gpName answer).jobHandlers = p.sent := List.append_nil _
  have hfind := fun r => inv.lists.find_slot (r := r) (x := x) inv.accounts.handlers hslot
  constructor
  · dsimp only [GpCall.records]
    rw [List.append_nil, hsent]
    dsimp only [GpCall.Disposes]
    obtain ⟨-, hmade, hfreed, hremoved⟩ := hrel
    cases hfound : t.find x with
    | none =>
      rw [hfound] at hfreed hremoved
      rw [List.filter_eq_self.mpr]
      · exact inv.accounts.congr hmade (hfreed.trans (List.append_nil _)) (hremoved.trans (List.append_nil _))
      · rintro r hr
        refine decide_eq_true ?_
        rintro ⟨hx, hkeeps⟩
        have := (hfind r).mpr ⟨⟨hr, hkeeps⟩, hx⟩
        rw [hfound] at this
        cases this
    | some r =>
      rw [hfound] at hfreed hremoved
      obtain ⟨⟨hr, hkeeps⟩, hx⟩ := (hfind r).mp hfound
      refine inv.accounts.dispose (r := r) ?_ hmade hfreed hremoved
      have hperm := perm_cons_filter inv.accounts.handlers hr
      rw [hx] at hperm
      rw [List.filter_congr (q := fun r' => decide ¬ r'.jobHandler = x)]
      · exact hperm
      · intro r' hr'
        -- no other record has this job handler
        refine decide_eq_decide.mpr (not_congr (and_iff_left_of_imp fun hx' => ?_))
        have heq := List.inj_on_of_nodup_map inv.accounts.handlers hr' hr (hx'.trans hx.symm)
        rwa [heq]
  · dsimp only [GpCall.records]
    rw [List.append_nil]
    exact hrel.lists

theorem alive_of_kept (inv : p.Inv iface) {x : UInt64} {gpName : String} {t : Slot}
    (hslot : iface.slot p.handler gpName = some t) (hidle : t.Idle)
    (hkept : Kept iface ((GpCall.get x gpName none).step iface (.ok p))) : t.find x = none := by
  rw [Option.eq_none_iff_forall_ne_some]
  intro r hfind
  have hget := Interface.get_eq inv.lists.unlocked hslot x none
  cases hrun : t.getGpData x none with
  | error e =>
    rw [hrun] at hget
    rw [step_error (c := .get x gpName none) hget] at hkept
    exact hkept
  | ok result =>
    obtain ⟨rc, t'⟩ := result
    rw [hrun] at hget
    rw [step_ok (c := .get x gpName none) hget] at hkept
    obtain ⟨herase, hidle'⟩ := Slot.getGpData_dead hidle hfind hrun
    obtain ⟨before, a, lost, after, ha, -, hlist, hlist'⟩ :=
      Slot.eraseAfter_loses herase (Option.isSome_iff_exists.mpr ⟨r, hfind⟩)
    have hnodup := inv.accounts.handlers.sublist ((inv.lists.slot_sublist hslot).map _)
    rw [hlist] at hnodup
    have hmem : lost ∈ t.finishedGps := by simp [hlist]
    obtain ⟨hpending, hkeeps⟩ := (inv.lists.mem_slot hslot).mp hmem
    have hax : a.jobHandler = x := beq_iff_eq.mp ha
    have hother : ¬ lost.jobHandler = x := by
      rintro rfl
      rw [List.map_append, List.map_cons, List.map_cons, hax, List.nodup_append] at hnodup
      exact (List.nodup_cons.mp hnodup.2.1).1 List.mem_cons_self
    have hstill : lost ∈ (p.pending ++ []).filter
        fun r => ¬ (GpCall.get x gpName none).Disposes iface p.handler r := by
      rw [List.append_nil]
      exact List.mem_filter.mpr ⟨hpending, decide_eq_true fun hdisposes => hother hdisposes.1⟩
    obtain ⟨h', hfetch, -⟩ :=
      hkept.fetched lost hstill gpName t' hkeeps (Interface.slot_put hslot) hidle' 0
    have hunlocked : (iface.put gpName t' p.handler).locked = false := by
      rw [← inv.lists.unlocked]
      unfold Interface.put
      cases iface
      · rfl
      · dsimp only
        split <;> rfl
    dsimp only at hfetch
    rw [Interface.get_eq hunlocked (Interface.slot_put hslot)] at hfetch
    cases hagain : t'.getGpData lost.jobHandler (some 0) with
    | error e =>
      rw [hagain] at hfetch
      cases hfetch
    | ok result' =>
      obtain ⟨rc', t''⟩ := result'
      rw [hagain] at hfetch
      cases hfetch
      obtain ⟨r', hr'⟩ := Slot.find_of_getGpData hidle' hagain
      unfold Slot.find at hr'
      have hmem' := List.mem_of_find?_eq_some hr'
      have hlost : r'.jobHandler = lost.jobHandler := by simpa using List.find?_some hr'
      rw [hlist'] at hmem'
      have hin : r'.jobHandler ∈ (before ++ a :: after).map (·.jobHandler) := List.mem_map_of_mem hmem'
      rw [hlost] at hin
      have hperm : (before ++ a :: lost :: after).Perm (lost :: (before ++ a :: after)) := by
        have hmiddle : (before ++ [a] ++ lost :: after).Perm (lost :: (before ++ [a] ++ after)) :=
          List.perm_middle
        simpa using hmiddle
      have hnodup' := (hperm.map (·.jobHandler)).nodup_iff.mp hnodup
      rw [List.map_cons, List.nodup_cons] at hnodup'
      exact hnodup'.1 hin

theorem fine_of_kept (inv : p.Inv iface) (hkept : Kept iface (c.step iface (.ok p))) :
    c.Fine iface (.ok p) := by
  cases c with
  | sendPmDataReady info notified =>
    cases hindex : info.gpIndex with
    | some i => exact Option.isSome_iff_exists.mpr ⟨i, hindex⟩
    | none =>
      rw [step_error (c := .sendPmDataReady info notified)
        (sendPmDataReady_unknown inv.lists.unlocked hindex notified)] at hkept
      exact hkept.elim
  | get x gpName answer =>
    cases hslot : iface.slot p.handler gpName with
    | none =>
      rw [step_error (c := .get x gpName answer) (Interface.get_unknown hslot x answer)] at hkept
      exact hkept.elim
    | some t =>
      refine ⟨t, hslot, ?_⟩
      rintro rfl hidle
      exact alive_of_kept inv hslot hidle hkept
  | release x gpName answer =>
    cases hslot : iface.slot p.handler gpName with
    | none =>
      rw [step_error (c := .release x gpName answer) (Interface.release_unknown hslot x answer)] at hkept
      exact hkept.elim
    | some t =>
      refine ⟨t, hslot, ?_⟩
      rintro rfl hfind
      rw [← Option.ne_none_iff_isSome]
      intro hresult
      rw [step_error (c := .release 0 gpName answer)
        (release_zero inv.lists hslot hfind hresult answer)] at hkept
      exact hkept

end

/-! ## The end of a run -/

section
variable {iface : Interface} {p : Periods}

theorem stop_eq (inv : p.Inv iface) :
    p.handler.stop =
      if ∀ i, p.handler.Unfetched i then
        .ok (.ok, (p.handler.gp.finishedGps.foldl stopGp { p.handler with
          locked := true
          gp2 := fun i => { p.handler.gp2 i with finishedGps := [] } }).unlock)
      else .error .locked := by
  unfold stop
  rw [lock_eq inv.lists.unlocked]
  dsimp only [Bind.bind, Except.bind]
  rw [stopGps2_fold (List.nodup_finRange 7) rfl]
  have hiff : (∀ i ∈ List.finRange 7, Unfetched { p.handler with locked := true } i) ↔
      ∀ i, p.handler.Unfetched i :=
    ⟨fun hall i => hall i (List.mem_finRange i), fun hall i _ => hall i⟩
  by_cases hall : ∀ i, p.handler.Unfetched i
  · rw [if_pos (hiff.mpr hall), if_pos hall]
    simp only [List.mem_finRange, if_true]
    rfl
  · rw [if_neg (fun hyes => hall (hiff.mp hyes)), if_neg hall]

theorem stopsClean_iff (inv : p.Inv iface) : StopsClean (.ok p) ↔ StopFine (.ok p) := by
  have hstop := stop_eq inv
  generalize hstart : ({ p.handler with
    locked := true
    gp2 := fun i => { p.handler.gp2 i with finishedGps := [] } } : PmEventHandler) = start at hstop
  obtain ⟨hgp, hgp2, hmade, hfreed, hremoved⟩ := stopGp_fold (h := start) (l := p.handler.gp.finishedGps)
    (by rw [← hstart])
  generalize p.handler.gp.finishedGps.foldl stopGp start = last at hstop hgp hgp2 hmade hfreed hremoved
  subst hstart
  have hgpsub : ∀ r ∈ p.handler.gp.finishedGps, r ∈ p.pending := fun r hr => inv.lists.gp.subset hr
  constructor
  · rintro ⟨h, hrun, -, hfreedOnce, -⟩
    rw [hstop] at hrun
    split at hrun <;> rename_i hall
    swap
    · cases hrun
    cases hrun
    intro i r hr
    refine ⟨?_, hall i r hr⟩
    have hpending : r ∈ p.pending := inv.lists.holds_mem (Or.inr ⟨i, hr⟩)
    -- the record has to be freed by the last loop
    have hcount := hfreedOnce r.address (by
      have := inv.accounts.made r hpending
      exact hmade.symm ▸ this)
    have hin : r.address ∈ last.freed := List.count_pos_iff.mp (by
      have : last.freed.count r.address = 1 := hcount
      omega)
    rw [hfreed, List.mem_append] at hin
    rcases hin with hin | hin
    · exact absurd hin (inv.accounts.not_freed hpending)
    · obtain ⟨r', hr', haddress⟩ := List.mem_map.mp hin
      rwa [List.inj_on_of_nodup_map inv.accounts.addresses (hgpsub r' hr') hpending haddress] at hr'
  · intro hfine
    have hall : ∀ i, p.handler.Unfetched i := fun i r hr => (hfine i r hr).2
    have hsame : ∀ r, r ∈ p.handler.gp.finishedGps ↔ r ∈ p.pending := by
      refine fun r => ⟨hgpsub r, fun hr => ?_⟩
      obtain ⟨i, hi⟩ := Option.isSome_iff_exists.mp (inv.lists.period r hr)
      refine (hfine i r ?_).1
      rw [inv.lists.gp2]
      exact List.mem_filter.mpr ⟨hr, decide_eq_true hi⟩
    rw [if_pos hall] at hstop
    refine ⟨_, hstop, ?_, fun a ha => ?_, ?_⟩
    · rintro r (hr | ⟨i, hr⟩)
      · have hr : r ∈ last.gp.finishedGps := hr
        rw [hgp] at hr
        cases hr
      · have hr : r ∈ (last.gp2 i).finishedGps := hr
        rw [hgp2] at hr
        cases hr
    · have hnodup : last.freed.Nodup := by
        rw [hfreed, List.nodup_append]
        refine ⟨inv.accounts.freedOnce, inv.accounts.addresses.sublist (inv.lists.gp.map _), ?_⟩
        rintro a ha b hb rfl
        obtain ⟨r, hr, rfl⟩ := List.mem_map.mp hb
        exact inv.accounts.not_freed (hgpsub r hr) ha
      refine List.count_eq_one_of_mem hnodup ?_
      have ha : a < p.handler.made := hmade ▸ ha
      change a ∈ last.freed
      rw [hfreed, List.mem_append]
      by_cases hpending : a ∈ p.pending.map (·.address)
      · obtain ⟨r, hr, rfl⟩ := List.mem_map.mp hpending
        exact Or.inr (List.mem_map_of_mem ((hsame r).mpr hr))
      · exact Or.inl ((inv.accounts.freed a).mpr ⟨ha, hpending⟩)
    · have : last.removed.Nodup := by
        rw [hremoved, List.nodup_append]
        refine ⟨inv.accounts.removed, inv.accounts.handlers.sublist (inv.lists.gp.map _), ?_⟩
        rintro x hx y hy rfl
        obtain ⟨r, hr, rfl⟩ := List.mem_map.mp hy
        exact (inv.accounts.removedSent _ hx).2 (List.mem_map_of_mem (hgpsub r hr))
      exact this

end

/-! ## Runs -/

def KeptThroughout (iface : Interface) (calls : List GpCall) : Prop :=
  Throughout (GpCall.step iface) (Kept iface) (.ok .start) calls ∧
    StopsClean (calls.foldl (GpCall.step iface) (.ok .start))

def jobHandlers (calls : List GpCall) : List UInt64 := calls.flatMap GpCall.jobHandlers

def GoodState (iface : Interface) : Except Fault Periods → Prop
  | .error _ => False
  | .ok p => p.Inv iface

theorem inv_start (iface : Interface) : Periods.start.Inv iface where
  accounts := ⟨List.nodup_nil, List.nodup_nil, by simp [Periods.start], by simp [Periods.start],
    List.nodup_nil, by simp [Periods.start, start], List.nodup_nil, by simp [Periods.start, start]⟩
  lists := ⟨rfl, by simp [Periods.start], List.Sublist.refl _, fun _ => rfl, fun _ => rfl, fun _ => rfl,
    fun _ _ => rfl⟩

theorem goodState_start (iface : Interface) : GoodState iface (.ok .start) := inv_start iface

theorem goodState_step {iface : Interface} {s : Except Fault Periods} {c : GpCall} (hs : GoodState iface s)
    (hlegal : c.Legal s) (hfine : c.Fine iface s) : GoodState iface (c.step iface s) := by
  cases s with
  | error e => cases hs
  | ok p =>
    have hgood : ∃ p', c.step iface (.ok p) = .ok p' ∧ p'.Inv iface := by
      cases c with
      | sendPmDataReady info notified =>
        exact inv_send hs notified (hlegal _ (List.mem_singleton.mpr rfl)) hfine
      | get x gpName answer =>
        obtain ⟨t, hslot, halive⟩ := hfine
        exact inv_get hs hslot halive
      | release x gpName answer =>
        obtain ⟨t, hslot, hzero⟩ := hfine
        exact inv_release hs answer hslot hzero
    obtain ⟨p', hstep, inv⟩ := hgood
    rw [hstep]
    exact inv

theorem step_sent {iface : Interface} {p p' : Periods} {c : GpCall} (h : c.step iface (.ok p) = .ok p') :
    p'.sent = p.sent ++ c.jobHandlers := by
  cases hrun : c.run iface p.handler with
  | error e =>
    rw [step_error hrun] at h
    cases h
  | ok result =>
    obtain ⟨rc, handler⟩ := result
    rw [step_ok hrun] at h
    cases h
    rfl

theorem legal_of_nodup {iface : Interface} {s : Except Fault Periods} {calls : List GpCall}
    (h : ∀ p, s = .ok p → (p.sent ++ jobHandlers calls).Nodup) :
    Along (GpCall.step iface) GpCall.Legal s calls := by
  induction calls generalizing s with
  | nil => trivial
  | cons c calls ih =>
    cases s with
    | error e => exact ⟨trivial, ih fun p hp => nomatch hp⟩
    | ok p =>
      have hnodup := h p rfl
      have hsplit : p.sent ++ jobHandlers (c :: calls) = (p.sent ++ c.jobHandlers) ++ jobHandlers calls := by
        rw [List.append_assoc]
        rfl
      refine ⟨fun x hx hsent => ?_, ih fun p' hp' => ?_⟩
      · rw [List.nodup_append] at hnodup
        exact hnodup.2.2 x hsent x (List.mem_append_left _ hx) rfl
      · rw [step_sent hp', ← hsplit]
        exact hnodup

/-- A run with distinct job handlers is as it should be exactly when its calls are good, and no record is in
the way of `stop` at its end. -/
theorem keptThroughout_iff (iface : Interface) (calls : List GpCall) (hdistinct : (jobHandlers calls).Nodup) :
    KeptThroughout iface calls ↔
      Along (GpCall.step iface) (GpCall.Fine iface) (.ok .start) calls ∧
        StopFine (calls.foldl (GpCall.step iface) (.ok .start)) := by
  have hlegal : Along (GpCall.step iface) GpCall.Legal (.ok .start) calls := by
    refine legal_of_nodup fun p hp => ?_
    cases hp
    exact hdistinct
  have hiff : Throughout (GpCall.step iface) (Kept iface) (.ok .start) calls ↔
      Along (GpCall.step iface) (GpCall.Fine iface) (.ok .start) calls := by
    refine throughout_iff_along_of (J := GoodState iface) (fun s hs => ?_)
      (fun s c hs hl hf => goodState_step hs hl hf) (fun s c hs _ hkept => ?_) (goodState_start iface) hlegal
    · cases s with
      | error e => cases hs
      | ok p => exact Periods.Inv.kept hs
    · cases s with
      | error e => cases hs
      | ok p => exact fine_of_kept hs hkept
  unfold KeptThroughout
  rw [hiff]
  refine and_congr_right fun hfine => ?_
  have hgood : Throughout (GpCall.step iface) (GoodState iface) (.ok .start) calls :=
    throughout_of_along (fun s c hs hc => goodState_step hs hc.1 hc.2) (goodState_start iface)
      (hlegal.and hfine)
  have hlast := hgood.last
  cases hs : calls.foldl (GpCall.step iface) (.ok .start) with
  | error e =>
    rw [hs] at hlast
    cases hlast
  | ok p =>
    rw [hs] at hlast
    exact stopsClean_iff hlast

def quarter : SaPmCCallbackInfo := ⟨1, 7, some "safJob=Traffic", 0, 900000000000⟩

/-- An hour of two jobs, of which COM fetches both, the later one first, and releases them. -/
theorem keptThroughout_quarter : KeptThroughout .second
    [.sendPmDataReady quarter .ok, .sendPmDataReady ⟨2, 8, some "safJob=Load", 0, 3600000000000⟩ .ok,
      .get 8 "ONE_HOUR" (some 1), .get 7 "FIFTEEN_MIN" (some 2), .release 7 "FIFTEEN_MIN" .ok,
      .sendPmDataReady ⟨1, 9, some "safJob=Traffic", 900000000000, 1800000000000⟩ .ok,
      .release 8 "ONE_HOUR" .ok, .get 9 "FIFTEEN_MIN" (some 3), .release 9 "FIFTEEN_MIN" .ok] :=
  (keptThroughout_iff _ _ (by decide)).mpr (by decide)

/-- `stop` comes while COM works with the period: it locks the mutex that it holds. -/
theorem not_keptThroughout : ¬ ∀ (iface : Interface) (calls : List GpCall), (jobHandlers calls).Nodup →
    KeptThroughout iface calls := by
  intro h
  obtain ⟨-, hstop⟩ := h .second [.sendPmDataReady quarter .ok, .get 7 "FIFTEEN_MIN" (some 1)] (by decide)
  obtain ⟨h', hrun, -⟩ := hstop
  cases hrun

end ComSA.PmtSa
