import Mathlib.Init

/-!
# The metrics context of a scenario

The scenario's name and its tags, as every recorder of a VU gets them, and the merging of both
into the tags of a sample. Keys that the sample has already, and keys reserved by the recorder,
are left alone.
-/
namespace Wrkr.Core

/-- The scenario that a VU belongs to, and its tags. -/
structure MetricsContext where
  scenario : String
  scenarioTags : List (String × String)
  deriving DecidableEq, Repr

namespace MetricsContext

variable (ctx : MetricsContext) (reservedKeys : List String)

/-- One tag of `merge_scenario_tags_if_missing`. -/
def mergeTag (tags : List (String × String)) (tag : String × String) : List (String × String) :=
  if tag.1 ∈ reservedKeys then tags
  else if tags.any (·.1 == tag.1) then tags
  else tags ++ [tag]

/-- A tag of the scenario is added unless its key is reserved or already there. -/
def mergeScenarioTagsIfMissing (tags : List (String × String)) : List (String × String) :=
  ctx.scenarioTags.foldl (mergeTag reservedKeys) tags

/-- The name of the scenario first, then its tags. -/
def mergeBaseTagsIfMissing (tags : List (String × String)) : List (String × String) :=
  let tags := if "scenario" ∉ reservedKeys ∧ ¬tags.any (·.1 == "scenario") then
    tags ++ [("scenario", ctx.scenario)] else tags
  ctx.mergeScenarioTagsIfMissing reservedKeys tags

end MetricsContext

end Wrkr.Core
