import Mathlib.Data.List.Basic

/-!
# Attribute values of the managed object interface
-/

namespace ComSA

/-- The types of `MafOamSpiMoAttributeType_3T` that are not the struct. -/
inductive MoAttributeType where
  | int8 | int16 | int32 | int64
  | uint8 | uint16 | uint32 | uint64
  | string | bool | reference | enum | decimal64
  deriving DecidableEq, Repr

/-- One value of the union, whatever its width. A string or a reference may be a NULL pointer, and memory that
nothing was written to, or that was written beyond its end, holds no value that is told. -/
inductive MoValue where
  | number (n : Int)
  | flag (b : Bool)
  | text (s : String)
  | null
  | undefined
  deriving DecidableEq, Repr

/-- `MafMoAttributeValueContainer_3T` with values that are no structs. The bridge takes a struct
apart: it creates and deletes the objects of the struct class, sets their members and writes the
references to them, all with containers of this kind. -/
structure MoAttributeValueContainer where
  type : MoAttributeType
  values : List MoValue
  deriving DecidableEq, Repr

inductive MafReturn where
  | ok
  | notExist
  | alreadyExist
  | invalidArgument
  | failure
  | objectLocked
  | commitFailed
  | noResources
  | validationFailed
  deriving DecidableEq, Repr

end ComSA
