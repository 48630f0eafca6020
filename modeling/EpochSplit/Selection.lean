import EpochSplit.Error
import EpochSplit.Json
/-!
# Selections

Which epochs a run covers: all that the archive knows, a single one, or all from one to another.
-/

namespace EpochSplit

/-- The epochs that a run covers. -/
inductive EpochSelection where
  | all
  | epoch (epoch : UInt32)
  /-- Both ends are included. -/
  | range (start stop : UInt32)
deriving DecidableEq

namespace EpochSelection

/-- Refuses a range whose end comes before its start. -/
def validate : EpochSelection → Except ConfigFault Unit
  | range start stop =>
      if start ≤ stop then .ok ()
      else .error (.invalidValue "epoch_range" s!"{start}..{stop}" "start must be <= end")
  | _ => .ok ()

/-- The selection in JSON. -/
def toJson : EpochSelection → Json
  | all => .text "all"
  | epoch e => .object [("epoch", .natural e.toNat)]
  | range start stop =>
      .object [("range", .object [("start", .natural start.toNat), ("end", .natural stop.toNat)])]

/-- Reads the content of a selection that is named by its kind. -/
def ofMember? (kind : String) (content : Json) : Option EpochSelection :=
  match kind, content with
  | "all", .null => some all
  | "epoch", content => content.toWord?.map epoch
  | "range", .object members =>
      match (Json.object members).fields? ["start", "end"] with
      | some [start, stop] => do
          return range (← start.toWord?) (← stop.toWord?)
      | _ => none
  | _, _ => none

/-- Reads a selection. -/
def ofJson? : Json → Option EpochSelection
  | .string written => if Json.unquote? written = some "all" then some all else none
  | .object [(key, content)] => (Json.unquote? key).bind (ofMember? · content)
  | _ => none

end EpochSelection

/-- The namespace in JSON is its name. -/
def Namespace.toJson (ns : Namespace) : Json := .text ns.name

/-- Reads a namespace: its name, or an object whose only member has that name and is null. -/
def Namespace.ofJson? : Json → Option Namespace
  | .string written => (Json.unquote? written).bind ofName?
  | .object [(key, .null)] => (Json.unquote? key).bind ofName?
  | _ => none

end EpochSplit
