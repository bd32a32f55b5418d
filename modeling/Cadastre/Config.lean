/-
# Configuration of a catalog

How many data versions new tables retain, whether computed columns are stored
unless they say otherwise, and the runtime version that is recorded next to the
bodies of stored callables.

Key definitions: `Config`, `Config.ofJson?`.
-/
import Cadastre.Json.Decode

namespace Cadastre

/-- The configuration of a catalog. -/
structure Config where
  /-- How many data versions a table retains that does not say it. -/
  retained : UInt32 := 10
  /-- Whether a computed column is stored that does not say it. -/
  computedStored : Bool := true
  runtimeVersion : String := "0.1.0"
  deriving DecidableEq, Repr

namespace Config

/-- A configuration; what is missing has its default. -/
def ofJson? (j : Json) : Option Config := do
  let ms ← j.members? ["default_num_retained_versions", "computed_columns_stored_by_default",
    "runtime_version"]
  let retained ← Json.defaulted ms "default_num_retained_versions" Json.uint32? 10
  let computedStored ← Json.defaulted ms "computed_columns_stored_by_default" Json.bool? true
  let runtimeVersion ← Json.defaulted ms "runtime_version" Json.str? "0.1.0"
  some ⟨retained, computedStored, runtimeVersion⟩

end Config
end Cadastre
