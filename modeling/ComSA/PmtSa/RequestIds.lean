import ComSA.Lib.Custody
import ComSA.Lib.SortedMap

/-!
# Request ids

A request for the values of counters that is not finished goes on in a later call of the same thread, as in
`pmt_sa/src/PmShowCounters.cxx`: the PM service gives it an id, which is kept in a map for the thread. The calls of
different threads interleave wherever the mutex of the map is free. What the values are is left out here.
-/

namespace ComSA.PmtSa

inductive RequestIdOperation where
  | getRequestId
  | updateRequestId
  | eraseRequestId
  deriving DecidableEq, Repr

inductive RequestIdReturn where
  | ok
  | notExist
  | alreadyExist
  deriving DecidableEq, Repr

def executeRequestIdOperation (thread requestId : Nat) (m : List (Nat × Nat)) :
    RequestIdOperation → RequestIdReturn × Nat × List (Nat × Nat)
  | .getRequestId =>
    match SortedMap.get? thread m with
    | some id => (.ok, id, m)
    | none => (.notExist, requestId, m)
  | .updateRequestId =>
    match SortedMap.get? thread m with
    | some id =>
      if requestId = id then (.alreadyExist, requestId, m)
      else (.ok, requestId, SortedMap.put thread requestId (SortedMap.erase thread m))
    | none => (.ok, requestId, SortedMap.put thread requestId m)
  | .eraseRequestId => (.ok, requestId, SortedMap.erase thread m)

inductive RequestPhase where
  | asked (requestId : Nat)
  | cancelling (requestId : Nat)
  deriving DecidableEq, Repr

structure Requests where
  _requestMap : List (Nat × Nat) := []
  phases : List (Nat × RequestPhase) := []
  /-- What the threads do with the requests. A request is given back when it is finished, replaced or cancelled. -/
  log : List (Dealing Nat Nat) := []
  deriving DecidableEq

inductive RequestInput where
  | getMeasurementValues_2
  /-- The service answers, with `SA_AIS_ERR_TRY_AGAIN` or not. -/
  | answer (tryAgain : Bool) (requestId : Nat)
  | cancelGetMeasurementValues
  | cancel
  deriving DecidableEq, Repr

namespace Requests

def deal (d : Dealing Nat Nat) (s : Requests) : Requests := { s with log := s.log ++ [d] }

def operation (thread requestId : Nat) (op : RequestIdOperation) (s : Requests) : Requests :=
  { s with _requestMap := (executeRequestIdOperation thread requestId s._requestMap op).2.2 }

def enter (thread : Nat) (phase : RequestPhase) (s : Requests) : Requests :=
  { s with phases := SortedMap.put thread phase s.phases }

def leave (thread : Nat) (s : Requests) : Requests := { s with phases := SortedMap.erase thread s.phases }

/-- The request goes on, perhaps under another id, or it is finished. -/
def answered (thread asked requestId : Nat) (tryAgain : Bool) (s : Requests) : Requests :=
  if tryAgain = true ∧ requestId ≠ 0 then
    let s := if requestId = asked then s
      else (s.deal (.returns thread asked)).deal (.gets thread requestId)
    s.operation thread requestId .updateRequestId
  else (s.deal (.returns thread asked)).operation thread requestId .eraseRequestId

def step (s : Requests) (i : Nat × RequestInput) : Requests :=
  match i.2, SortedMap.get? i.1 s.phases with
  | .getMeasurementValues_2, none =>
    let requestId := (executeRequestIdOperation i.1 0 s._requestMap .getRequestId).2.1
    (s.deal (.uses i.1 requestId)).enter i.1 (.asked requestId)
  | .answer tryAgain requestId, some (.asked asked) => (s.answered i.1 asked requestId tryAgain).leave i.1
  | .cancelGetMeasurementValues, none =>
    match executeRequestIdOperation i.1 0 s._requestMap .getRequestId with
    | (.ok, requestId, _) => s.enter i.1 (.cancelling requestId)
    | _ => s
  | .cancel, some (.cancelling requestId) =>
    ((s.operation i.1 requestId .eraseRequestId).deal (.returns i.1 requestId)).leave i.1
  | _, _ => s

def Fresh (s : Requests) (i : Nat × RequestInput) : Prop :=
  match i.2, SortedMap.get? i.1 s.phases with
  | .answer true requestId, some (.asked asked) =>
    requestId = 0 ∨ requestId = asked ∨ requestId ∉ (Custody.after s.log).issued
  | _, _ => True

instance (s : Requests) (i : Nat × RequestInput) : Decidable (s.Fresh i) := by
  unfold Fresh
  split <;> infer_instance

def Continues (c : Custody Nat Nat) : Dealing Nat Nat → Prop
  | .uses thread requestId => ∀ id, (thread, id) ∈ c.held → requestId = id
  | _ => True

/-! ## What is kept -/

structure Inv (s : Requests) : Prop where
  holds : Custody.Holds 0 s.log s._requestMap
  continues : Along Custody.step Continues .empty s.log
  sorted : SortedMap.Sorted s._requestMap
  asked : ∀ thread id, SortedMap.get? thread s.phases = some (.asked id) →
    (SortedMap.get? thread s._requestMap).getD 0 = id
  cancelling : ∀ thread id, SortedMap.get? thread s.phases = some (.cancelling id) →
    SortedMap.get? thread s._requestMap = some id

variable {s : Requests} {thread : Nat}

theorem getRequestId_eq (thread : Nat) (m : List (Nat × Nat)) :
    (executeRequestIdOperation thread 0 m .getRequestId).2.1 = (SortedMap.get? thread m).getD 0 := by
  unfold executeRequestIdOperation
  dsimp only
  cases SortedMap.get? thread m <;> rfl

theorem updateRequestId_map {m : List (Nat × Nat)} (hm : SortedMap.Sorted m) (thread requestId : Nat) :
    (executeRequestIdOperation thread requestId m .updateRequestId).2.2.Perm
        ((thread, requestId) :: SortedMap.erase thread m) ∧
      SortedMap.Sorted (executeRequestIdOperation thread requestId m .updateRequestId).2.2 ∧
      ∀ t, t ≠ thread → SortedMap.get? t (executeRequestIdOperation thread requestId m .updateRequestId).2.2 =
        SortedMap.get? t m := by
  unfold executeRequestIdOperation
  dsimp only
  cases hget : SortedMap.get? thread m with
  | none =>
    refine ⟨?_, SortedMap.sorted_put hm _ _, fun t ht => (SortedMap.get?_put t thread _ m).trans (if_neg ht)⟩
    rw [SortedMap.erase_of_none hget]
    exact SortedMap.put_perm hget requestId
  | some id =>
    dsimp only
    split <;> rename_i heq
    · rw [heq]
      exact ⟨SortedMap.perm_erase hm hget, hm, fun _ _ => rfl⟩
    · have hfree : SortedMap.get? thread (SortedMap.erase thread m) = none :=
        (SortedMap.get?_erase thread thread m).trans (if_pos rfl)
      refine ⟨SortedMap.put_perm hfree requestId, SortedMap.sorted_put (SortedMap.sorted_erase hm thread) _ _,
        fun t ht => ?_⟩
      rw [SortedMap.get?_put, if_neg ht, SortedMap.get?_erase, if_neg ht]

theorem Inv.mem_iff (h : s.Inv) (thread id : Nat) :
    (thread, id) ∈ (Custody.after s.log).held ↔ SortedMap.get? thread s._requestMap = some id := by
  rw [h.holds.held.mem_iff]
  exact ⟨SortedMap.get?_of_mem h.sorted, SortedMap.mem_of_get?⟩

theorem Inv.asked_eq (h : s.Inv) {asked : Nat} (hphase : SortedMap.get? thread s.phases = some (.asked asked)) :
    (asked = 0 ∧ SortedMap.get? thread s._requestMap = none) ∨
      (asked ≠ 0 ∧ SortedMap.get? thread s._requestMap = some asked) := by
  have hget := h.asked thread asked hphase
  cases hmap : SortedMap.get? thread s._requestMap with
  | none =>
    rw [hmap] at hget
    exact .inl ⟨hget.symm, rfl⟩
  | some id =>
    rw [hmap] at hget
    obtain rfl : id = asked := hget
    refine .inr ⟨?_, rfl⟩
    rintro rfl
    exact h.holds.sound.none_held thread ((h.mem_iff thread 0).mpr hmap)

theorem Inv.returns (h : s.Inv) {id : Nat}
    (hid : (id = 0 ∧ SortedMap.get? thread s._requestMap = none) ∨ SortedMap.get? thread s._requestMap = some id) :
    Custody.Holds 0 (s.log ++ [.returns thread id]) (SortedMap.erase thread s._requestMap) := by
  rcases hid with ⟨rfl, hnone⟩ | hsome
  · rw [SortedMap.erase_of_none hnone]
    exact h.holds.returns_none
  · exact (h.holds.perm (SortedMap.perm_erase h.sorted hsome)).returns

theorem continues_append {log : List (Dealing Nat Nat)} (h : Along Custody.step Continues .empty log)
    {d : Dealing Nat Nat} (hd : Continues (Custody.after log) d) :
    Along Custody.step Continues .empty (log ++ [d]) :=
  along_append.mpr ⟨h, hd, trivial⟩

theorem Inv.left (h : s.Inv) {s' : Requests} (hholds : Custody.Holds 0 s'.log s'._requestMap)
    (hcontinues : Along Custody.step Continues .empty s'.log) (hsorted : SortedMap.Sorted s'._requestMap)
    (hothers : ∀ t, t ≠ thread → SortedMap.get? t s'._requestMap = SortedMap.get? t s._requestMap)
    (hphases : s'.phases = SortedMap.erase thread s.phases) : s'.Inv := by
  have hphase : ∀ t phase, SortedMap.get? t s'.phases = some phase →
      t ≠ thread ∧ SortedMap.get? t s.phases = some phase := by
    intro t phase ht
    rw [hphases, SortedMap.get?_erase] at ht
    split at ht <;> rename_i hne
    · cases ht
    · exact ⟨hne, ht⟩
  refine ⟨hholds, hcontinues, hsorted, fun t id ht => ?_, fun t id ht => ?_⟩
  · obtain ⟨hne, hold⟩ := hphase t _ ht
    rw [hothers t hne]
    exact h.asked t id hold
  · obtain ⟨hne, hold⟩ := hphase t _ ht
    rw [hothers t hne]
    exact h.cancelling t id hold

theorem get?_erase_other (m : List (Nat × Nat)) (t : Nat) (ht : t ≠ thread) :
    SortedMap.get? t (SortedMap.erase thread m) = SortedMap.get? t m :=
  (SortedMap.get?_erase t thread m).trans (if_neg ht)

theorem Inv.answered (h : s.Inv) {asked requestId : Nat} {tryAgain : Bool}
    (hphase : SortedMap.get? thread s.phases = some (.asked asked))
    (hfresh : s.Fresh (thread, .answer tryAgain requestId)) :
    ((s.answered thread asked requestId tryAgain).leave thread).Inv := by
  have hasked := h.asked_eq hphase
  have hreturned := h.returns (hasked.imp_right And.right)
  have hreturns := continues_append h.continues (d := .returns thread asked) trivial
  obtain ⟨hperm, hsorted, hothers⟩ := updateRequestId_map h.sorted thread requestId
  unfold Requests.answered
  by_cases hagain : tryAgain = true ∧ requestId ≠ 0
  · rw [if_pos hagain]
    obtain ⟨rfl, hne⟩ := hagain
    by_cases hsame : requestId = asked
    · -- the same request goes on
      rw [if_pos hsame]
      have hget : SortedMap.get? thread s._requestMap = some requestId := by
        rcases hasked with ⟨hzero, -⟩ | ⟨-, hsome⟩
        · exact absurd (hsame.trans hzero) hne
        · rw [hsame]
          exact hsome
      exact h.left (h.holds.perm ((SortedMap.perm_erase h.sorted hget).trans hperm.symm)) h.continues hsorted
        hothers rfl
    · rw [if_neg hsame]
      have hnew : requestId ∉ (Custody.after (s.log ++ [.returns thread asked])).issued := by
        unfold Fresh at hfresh
        dsimp only at hfresh
        rw [hphase] at hfresh
        rw [Custody.after_append_singleton]
        exact (hfresh.resolve_left hne).resolve_left hsame
      exact h.left ((hreturned.gets thread hne hnew).perm hperm.symm)
        (continues_append hreturns (d := .gets thread requestId) trivial) hsorted hothers rfl
  · rw [if_neg hagain]
    exact h.left hreturned hreturns (SortedMap.sorted_erase h.sorted thread)
      (fun t ht => get?_erase_other _ t ht) rfl

theorem Inv.enter (h : s.Inv) {phase : RequestPhase} {log : List (Dealing Nat Nat)}
    (hholds : Custody.Holds 0 log s._requestMap) (hcontinues : Along Custody.step Continues .empty log)
    (hasked : ∀ id, phase = .asked id → (SortedMap.get? thread s._requestMap).getD 0 = id)
    (hcancelling : ∀ id, phase = .cancelling id → SortedMap.get? thread s._requestMap = some id) :
    Inv { s with phases := SortedMap.put thread phase s.phases, log } := by
  refine ⟨hholds, hcontinues, h.sorted, fun t id ht => ?_, fun t id ht => ?_⟩
  · dsimp only at ht
    rw [SortedMap.get?_put] at ht
    split at ht <;> rename_i heq
    · rw [heq]
      exact hasked id (Option.some.inj ht)
    · exact h.asked t id ht
  · dsimp only at ht
    rw [SortedMap.get?_put] at ht
    split at ht <;> rename_i heq
    · rw [heq]
      exact hcancelling id (Option.some.inj ht)
    · exact h.cancelling t id ht

theorem Inv.step (h : s.Inv) {i : Nat × RequestInput} (hfresh : s.Fresh i) : (s.step i).Inv := by
  obtain ⟨thread, input⟩ := i
  unfold Requests.step
  dsimp only
  split
  · -- the service is asked with the request that is open
    have hid := getRequestId_eq thread s._requestMap
    generalize (executeRequestIdOperation thread 0 s._requestMap .getRequestId).2.1 = requestId at hid ⊢
    refine h.enter (h.holds.uses ?_) (continues_append h.continues ?_) (fun id hphase => ?_) fun id hphase => ?_
    · cases hmap : SortedMap.get? thread s._requestMap with
      | none =>
        rw [hmap] at hid
        exact .inl hid
      | some id =>
        rw [hmap] at hid
        exact .inr (SortedMap.mem_of_get? (hmap.trans (congrArg some hid.symm)))
    · intro id hheld
      rw [(h.mem_iff thread id).mp hheld] at hid
      exact hid
    · cases hphase
      exact hid.symm
    · cases hphase
  · rename_i tryAgain requestId asked hphase
    exact h.answered hphase hfresh
  · unfold executeRequestIdOperation
    dsimp only
    cases hmap : SortedMap.get? thread s._requestMap with
    | none => exact h
    | some requestId =>
      refine h.enter h.holds h.continues (fun id hphase => ?_) fun id hphase => ?_
      · cases hphase
      · cases hphase
        exact hmap
  · rename_i requestId hphase
    have hmap := h.cancelling thread requestId hphase
    exact h.left (h.returns (.inr hmap)) (continues_append h.continues (d := .returns thread requestId) trivial)
      (SortedMap.sorted_erase h.sorted thread) (fun t ht => get?_erase_other _ t ht) rfl
  · exact h

theorem inv_start : ({} : Requests).Inv :=
  ⟨Custody.holds_nil, trivial, List.Pairwise.nil, fun _ _ h => (by cases h), fun _ _ h => by cases h⟩

/-- However the calls of the threads interleave: a thread that has a request goes on with it, no thread uses or gives
back the request of another one, no request is used or cancelled after its end, and the map has the open requests. -/
theorem requests_in_custody (is : List (Nat × RequestInput)) (hfresh : Along step Fresh {} is) :
    let s := is.foldl step {}
    Along Custody.step (fun c d => Custody.Proper 0 c d ∧ Continues c d) .empty s.log ∧
      (s.log.flatMap (Custody.returned 0)).Nodup ∧ (Custody.after s.log).held.Perm s._requestMap := by
  have hinv := (throughout_of_along (I := Inv) (fun s i h hi => h.step hi) inv_start hfresh).last
  exact ⟨hinv.holds.proper.and hinv.continues, hinv.holds.returned_nodup, hinv.holds.held⟩

/-- Two threads, of which the first cancels its request while the other one goes on with its own. -/
theorem requests_in_custody_two :
    ([(1, .getMeasurementValues_2), (2, .getMeasurementValues_2), (1, .answer true 8), (2, .answer true 9),
      (1, .cancelGetMeasurementValues), (2, .getMeasurementValues_2), (1, .cancel)].foldl step {}).log =
        [.uses 1 0, .uses 2 0, .returns 1 0, .gets 1 8, .returns 2 0, .gets 2 9, .uses 2 9, .returns 1 8] ∧
      (Custody.after ([(1, .getMeasurementValues_2), (2, .getMeasurementValues_2), (1, .answer true 8),
        (2, .answer true 9), (1, .cancelGetMeasurementValues), (2, .getMeasurementValues_2),
        (1, .cancel)].foldl step {}).log).held.Perm [(2, 9)] :=
  ⟨by decide +kernel, (requests_in_custody [(1, .getMeasurementValues_2), (2, .getMeasurementValues_2),
    (1, .answer true 8), (2, .answer true 9), (1, .cancelGetMeasurementValues), (2, .getMeasurementValues_2),
    (1, .cancel)] (by decide +kernel)).2.2⟩

end Requests

end ComSA.PmtSa
