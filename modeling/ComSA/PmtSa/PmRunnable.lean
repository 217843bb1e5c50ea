import Mathlib.Data.List.Basic

/-!
# The thread of the PM consumer

How the thread subscribes to the PM service and ends the subscription, as in `pmt_sa/src/PmRunnable.cxx`. What the
service answers is given. The loop around `select` and the dispatching of its events are left out.
-/

namespace ComSA.PmtSa

inductive PmInternalMsg where
  | eventConsumerRegistered
  | eventNoConsumers
  deriving DecidableEq, Repr

structure PmService where
  initialize_2 : Option Nat
  /-- The new file descriptor, `none` where the call fails. -/
  selectionObjectGet : Option Nat
  activate : Bool
  deactivate : Bool
  finalize : Bool
  deriving DecidableEq, Repr

structure PmRunnable where
  osafPmHandle : Nat
  osafPmPollFd : Nat
  /-- The messages that have not been handled, the oldest one first. The thread takes all that wait and handles one
  after the other; what it has taken waits here too. -/
  input : List PmInternalMsg
  /-- Every handle that `initialize_2` has returned and `finalize` has not been called with since. -/
  unfinalized : List Nat
  /-- A call of the PM service has failed since the consumers last changed. -/
  failed : Bool
  deriving DecidableEq, Repr

namespace PmRunnable

def initial : PmRunnable := ⟨0, 0, [], [], false⟩

def fail (r : PmRunnable) : PmRunnable := { r with failed := true }

def reset (r : PmRunnable) : PmRunnable := { r with osafPmHandle := 0, osafPmPollFd := 0 }

def pushToInput (msg : PmInternalMsg) (r : PmRunnable) : PmRunnable := { r with input := r.input ++ [msg] }

def startSubscription (service : PmService) (r : PmRunnable) : Bool × PmRunnable :=
  if r.osafPmHandle = 0 then
    match service.initialize_2 with
    | none => (false, { r.fail with osafPmHandle := 0 })
    | some handle =>
      let r := { r with osafPmHandle := handle, unfinalized := handle :: r.unfinalized }
      match service.selectionObjectGet with
      -- the handle is forgotten here, and where it is not activated
      | none => (false, r.fail.reset)
      | some pollFd => if service.activate then (true, { r with osafPmPollFd := pollFd }) else (false, r.fail.reset)
  else
    (true, r)

def stopSubscription (service : PmService) (r : PmRunnable) : Bool × PmRunnable :=
  if r.osafPmHandle ≠ 0 then
    let r := if service.deactivate then r else r.fail
    let r := { r with unfinalized := r.unfinalized.erase r.osafPmHandle }
    if service.finalize then (true, r.reset) else (false, r.fail)
  else
    (true, r)

def handlePmInternalMessage (service : PmService) (r : PmRunnable) : PmRunnable :=
  match r.input with
  | [] => r
  | msg :: input =>
    let r := { r with input }
    match msg with
    | .eventConsumerRegistered => (r.startSubscription service).2
    | .eventNoConsumers => (r.stopSubscription service).2

/-! ### What the operations do -/

/-- What is open is at most the handle that is stored. -/
def NoneDropped (r : PmRunnable) : Prop := r.unfinalized = [] ∨ r.unfinalized = [r.osafPmHandle]

def Tracked (r : PmRunnable) : Prop :=
  r.unfinalized = [] ∨ r.unfinalized = [r.osafPmHandle] ∧ r.osafPmHandle ≠ 0

section
variable {r : PmRunnable}

theorem Tracked.noneDropped (h : r.Tracked) : r.NoneDropped := h.imp_right And.left

theorem Tracked.unfinalized_eq (h : r.Tracked) (hnone : r.osafPmHandle = 0) : r.unfinalized = [] := by
  obtain h | ⟨-, h⟩ := h
  · exact h
  · exact absurd hnone h

end

end PmRunnable

/-- A new handle is not 0, and nothing fails once there is one. -/
def PmService.Starts (service : PmService) : Prop :=
  ∀ handle ∈ service.initialize_2, handle ≠ 0 ∧ service.selectionObjectGet.isSome ∧ service.activate = true

instance (service : PmService) : Decidable service.Starts :=
  match h : service.initialize_2 with
  | none => .isTrue (by simp [PmService.Starts, h])
  | some handle =>
    decidable_of_iff (handle ≠ 0 ∧ service.selectionObjectGet.isSome ∧ service.activate = true)
      (by simp [PmService.Starts, h])

namespace PmRunnable

variable {service : PmService} {r : PmRunnable}

theorem startSubscription_spec (htracked : r.Tracked) (hstarts : r.osafPmHandle = 0 → service.Starts) :
    (r.startSubscription service).2.input = r.input ∧ (r.startSubscription service).2.Tracked ∧
      ((r.startSubscription service).2.osafPmHandle ≠ 0 ∨ (r.startSubscription service).2.failed = true) := by
  unfold startSubscription
  by_cases hnone : r.osafPmHandle = 0
  · rw [if_pos hnone]
    have hopen := htracked.unfinalized_eq hnone
    cases hinit : service.initialize_2 with
    | none => exact ⟨rfl, .inl hopen, .inr rfl⟩
    | some handle =>
      obtain ⟨hhandle, hselect, hactivate⟩ := hstarts hnone handle hinit
      obtain ⟨pollFd, hselect⟩ := Option.isSome_iff_exists.mp hselect
      simp only [hselect, hactivate, if_true]
      exact ⟨trivial, .inr ⟨by simp [hopen], hhandle⟩, .inl hhandle⟩
  · rw [if_neg hnone]
    exact ⟨rfl, htracked, .inl hnone⟩

theorem stopSubscription_spec (service : PmService) (htracked : r.Tracked) :
    (r.stopSubscription service).2.input = r.input ∧ (r.stopSubscription service).2.Tracked ∧
      ((r.stopSubscription service).2.osafPmHandle = 0 ∨ (r.stopSubscription service).2.failed = true) := by
  have herase : r.unfinalized.erase r.osafPmHandle = [] := by
    obtain h | ⟨h, -⟩ := htracked <;> simp [h]
  unfold stopSubscription
  by_cases hnone : r.osafPmHandle = 0
  · rw [if_neg (not_not.mpr hnone)]
    exact ⟨rfl, htracked, .inl hnone⟩
  · rw [if_pos hnone]
    cases service.deactivate <;> cases service.finalize
    · exact ⟨rfl, .inl herase, .inr rfl⟩
    · exact ⟨rfl, .inl herase, .inl rfl⟩
    · exact ⟨rfl, .inl herase, .inr rfl⟩
    · exact ⟨rfl, .inl herase, .inl rfl⟩

theorem handlePmInternalMessage_spec {msg : PmInternalMsg} {input : List PmInternalMsg} (htracked : r.Tracked)
    (hinput : r.input = msg :: input)
    (hstarts : msg = .eventConsumerRegistered → r.osafPmHandle = 0 → service.Starts) :
    (r.handlePmInternalMessage service).input = input ∧ (r.handlePmInternalMessage service).Tracked ∧
      ((r.handlePmInternalMessage service).failed = false →
        ((r.handlePmInternalMessage service).osafPmHandle ≠ 0 ↔ msg = .eventConsumerRegistered)) := by
  unfold handlePmInternalMessage
  rw [hinput]
  cases msg with
  | eventConsumerRegistered =>
    obtain ⟨hrest, htracked', hdone⟩ :=
      startSubscription_spec (r := { r with input }) htracked (hstarts rfl)
    refine ⟨hrest, htracked', fun hfailed => ?_⟩
    simpa [hfailed] using hdone
  | eventNoConsumers =>
    obtain ⟨hrest, htracked', hdone⟩ := stopSubscription_spec (r := { r with input }) service htracked
    refine ⟨hrest, htracked', fun hfailed => ?_⟩
    simpa [hfailed] using hdone

end PmRunnable

end ComSA.PmtSa
