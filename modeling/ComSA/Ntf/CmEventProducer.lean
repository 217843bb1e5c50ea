import ComSA.Lib.Related
import ComSA.Ntf.CmNotificationCache
import ComSA.Ntf.EventProducer

/-!
# The event producer of the CM notifications

Its filters are regular expressions, one of which has to match one of the DNs.
-/

namespace ComSA.Events

open Cm (CmNotification)

abbrev Regcomp := String → Option (String → Bool)

namespace RegexpFilter

def filterList (regcomp : Regcomp) (filters : MafFilters) : Option (List (String → Bool)) :=
  filters.pairs.bind fun pairs => pairs.mapM fun p => regcomp p.2

def isValid (regcomp : Regcomp) (filters : MafFilters) : Bool := (filterList regcomp filters).isSome

def isMatch (regcomp : Regcomp) (filters : MafFilters) (notificationStruct : CmNotification) : Bool :=
  let filterList := (filterList regcomp filters).getD []
  notificationStruct.events ≠ [] &&
    (filterList.length == 0 || filterList.any fun regExp => notificationStruct.events.any fun event => regExp
      event.dn)

end RegexpFilter

def regexpFilter (regcomp : Regcomp) : FilterMatcher CmNotification where
  isMatch := RegexpFilter.isMatch regcomp
  isValid := RegexpFilter.isValid regcomp

/-- Of two filters of a consumer the second one is removed: an event is then told for that one. -/
theorem not_tracked_throughout :
    ¬ ∀ (regcomp : Regcomp) (calls : List (Call CmNotification)),
      Throughout (fun o call => o.bind fun w => Watched.step (regexpFilter regcomp) w call) (Going Watched.Right)
        (some Watched.initial) calls := by
  intro h
  have hrun := h (fun _ => none)
    [.addFilter 1 "CM" ⟨10, some []⟩, .addFilter 1 "CM" ⟨20, some []⟩, .removeFilter 1 "CM" ⟨20, some []⟩,
      .sendEvent ⟨0, .managementOperation, [⟨"Foo=1", .moCreated, []⟩]⟩, .pushNext true]
  obtain ⟨w, hw, hright⟩ := hrun.last
  obtain rfl := Option.some.inj hw
  have hmem := hright.notified.mem_iff (a := (0, ⟨1, "CM", ⟨20, some []⟩⟩))
  exact absurd (hmem.mp List.mem_cons_self) (by decide)

end ComSA.Events
