import Rehome.Json.Printing
import Rehome.Summary.Basic

/-!
# The summary as JSON

An object of the summary's fields. The list of clashes is left out when it is empty. A path that is
not UTF-8 has no JSON string, and then there is no JSON at all.
-/

namespace Rehome

open Json

/-- A changed file as a JSON object. -/
def Change.toJson? (file : Change) : Option Value := do
  let path ← Utf8.decode? file.path
  return .object [("path".toList, .string path), ("moved".toList, .array (file.moved.map .string))]

/-- A clash as a JSON object, with the path of its file among its own fields. -/
def FileClash.toJson? (found : FileClash) : Option Value := do
  let path ← Utf8.decode? found.path
  return .object [("path".toList, .string path), ("type_name".toList, .string found.clash.typeName),
    ("source_module".toList, .string found.clash.home),
    ("other_module".toList, .string found.clash.other)]

namespace Summary

/-- The summary as a JSON object, if all its paths are UTF-8. -/
def toJson? (summary : Summary) : Option Value := do
  let changed ← summary.changed.mapM Change.toJson?
  let clashes ← summary.clashes.mapM FileClash.toJson?
  let always := [("dry_run".toList, .boolean summary.dryRun),
    ("scanned".toList, .number summary.scanned.toNat), ("modified".toList, .array changed)]
  let sometimes := if clashes.isEmpty then [] else [("conflicts".toList, .array clashes)]
  return .object (always ++ sometimes)

/-- The JSON text of the summary, if all its paths are UTF-8. -/
def json? (summary : Summary) : Option Text :=
  summary.toJson?.map (Value.print 0)

end Summary

end Rehome
