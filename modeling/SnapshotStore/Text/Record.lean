import SnapshotStore.Text.Quoted

/-!
# Inspection texts of records

The inspection text of a value lists its type and its fields: `Name { field: value, other: value }`,
and the bare type name when there is no field.  Strings appear quoted (`Text.quote`).
-/

namespace SnapshotStore.Text

/-- `true` or `false`. -/
def flag (b : Bool) : String := if b then "true" else "false"

/-- The inspection text of a record with already printed field values. -/
def record (name : String) (fields : List (String × String)) : String :=
  match fields with
  | [] => name
  | _ =>
    name ++ " \x7b " ++ String.intercalate ", " (fields.map fun f => f.1 ++ ": " ++ f.2) ++ " \x7d"

end SnapshotStore.Text
