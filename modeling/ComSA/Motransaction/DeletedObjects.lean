import Mathlib.Data.String.Basic
import ComSA.Lib.Forest

/-!
# The list of deleted objects

A multilevel map: the top level holds the first parts of the deleted names, each
entry a map of the parts that follow. An active deletion point deletes its object
and all objects below it, a dormant one deletes nothing.
-/

namespace ComSA

structure Dn where
  parts : List String
  nonempty : parts ≠ []
  deriving DecidableEq

/-! ## Entries -/

inductive DeletedEntryKind where
  | noDeletePoint
  | dormantDeletePoint
  | activeDeletePoint
  deriving DecidableEq, Repr

structure DeletedData where
  kind : DeletedEntryKind := .noDeletePoint
  immName : String := ""
  deriving DecidableEq, Repr

namespace DeletedData

def isActive (d : DeletedData) : Bool := d.kind = .activeDeletePoint
def isDormant (d : DeletedData) : Bool := d.kind = .dormantDeletePoint
def setActive (d : DeletedData) : DeletedData := { d with kind := .activeDeletePoint }
def setDormant (d : DeletedData) : DeletedData := { d with kind := .dormantDeletePoint }
def setImmName (immName : String) (d : DeletedData) : DeletedData := { d with immName := immName }

@[simp] theorem isActive_setActive (d : DeletedData) : d.setActive.isActive = true := rfl
@[simp] theorem isActive_setDormant (d : DeletedData) : d.setDormant.isActive = false := rfl
@[simp] theorem isDormant_setDormant (d : DeletedData) : d.setDormant.isDormant = true := rfl
@[simp] theorem isActive_setImmName (n : String) (d : DeletedData) :
    (d.setImmName n).isActive = d.isActive := rfl

theorem isActive_of_isDormant {d : DeletedData} (h : d.isDormant) : d.isActive = false := by
  simp only [isDormant, isActive, decide_eq_true_eq, decide_eq_false_iff_not] at h ⊢
  rw [h]
  decide

end DeletedData

abbrev DeletedMap := Forest String DeletedData

abbrev DeletedEntry := DeletedData × DeletedMap

namespace DeletedObjects

open Forest

/-! ## The recursive helpers -/

def toDormant (d : DeletedData) : DeletedData := if d.isActive then d.setDormant else d

def setActiveDPsDormant (del : DeletedEntry) : DeletedEntry :=
  (toDormant del.1, mapData toDormant del.2)

def setDormantDPsActive (del : DeletedEntry) : DeletedEntry :=
  if del.1.isDormant then (del.1.setActive, del.2)
  else (del.1, mapFirst DeletedData.isDormant DeletedData.setActive del.2)

/-! ## The member functions -/

def isDeleted : List String → DeletedMap → Bool
  | [], _ => false
  | part :: rest, map =>
    match map.find part with
    | none => false
    | some entry => if entry.1.isActive then true else isDeleted rest entry.2

def newPoint (immName : String) : DeletedData := ({} : DeletedData).setActive.setImmName immName

/-- The walk of `insert` below the first part. `activeDPFound` says that an active deletion point
was met after the first part. -/
def insertWalk (immName : String) : List String → Bool → DeletedEntry → DeletedEntry
  | [], activeDPFound, entry =>
    if activeDPFound then (entry.1.setDormant, entry.2)
    else
      let del := setActiveDPsDormant entry
      (del.1.setActive.setImmName immName, del.2)
  | part :: rest, activeDPFound, entry =>
    match entry.2.find part with
    -- Not found, then the rest of the name is new. It goes active whatever was met above.
    | none => (entry.1, entry.2.add part (chain {} (newPoint immName) rest))
    | some next =>
      (entry.1, entry.2.set part (insertWalk immName rest (activeDPFound || next.1.isActive) next))

def insert (parts : List String) (immName : String) (map : DeletedMap) : DeletedMap :=
  match parts with
  | [] => map
  | first :: rest =>
    match map.find first with
    | none => map.add first (chain {} (newPoint immName) rest)
    | some entry =>
      if entry.1.isActive then map else map.set first (insertWalk immName rest false entry)

def disable (entry : DeletedEntry) : DeletedEntry :=
  if entry.1.isActive then
    let del := setDormantDPsActive entry
    (del.1.setDormant, del.2)
  else entry

def remove (parts : List String) (map : DeletedMap) : DeletedMap := map.changeAt disable parts

def getDeletedData : DeletedMap → List String
  | .nil => []
  | .node _ d below rest =>
    getDeletedData below ++ (if d.isActive then [d.immName] else []) ++ getDeletedData rest

end DeletedObjects

end ComSA
