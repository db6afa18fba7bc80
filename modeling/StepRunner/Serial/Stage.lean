import StepRunner.Json.Value
import StepRunner.Log.Line
import StepRunner.Run.Config
import StepRunner.Stage.Definition

/-!
# Stages, log lines and configurations as JSON

Writers and readers as for pods.  A set of transforms is a list of their names; a reader takes them
in any order and as often as they come.  Every field of a configuration may be missing and is then
at its usual value.
-/

namespace StepRunner

/-! ## stages -/

namespace StepDefinition

def toJson (s : StepDefinition) : Json :=
  .obj [("name", .str s.name), ("step_type", .str s.stepType), ("image", .str s.image),
    ("commands", .ofList .str s.commands), ("env", .ofDict .str s.env)]

def ofJson? (j : Json) : Option StepDefinition := do
  let o ← j.object?
  let name ← o.required "name" Json.string?
  let stepType ← o.defaulted "step_type" "" Json.string?
  let image ← o.required "image" Json.string?
  let commands ← o.defaulted "commands" [] (Json.list? Json.string?)
  let env ← o.defaulted "env" ∅ (Json.dict? Json.string?)
  return { name, stepType, image, commands, env }

end StepDefinition

namespace StageDefinition

def toJson (s : StageDefinition) : Json :=
  .obj [("name", .str s.name), ("steps", .ofList StepDefinition.toJson s.steps)]

def ofJson? (j : Json) : Option StageDefinition := do
  let o ← j.object?
  let name ← o.required "name" Json.string?
  let steps ← o.required "steps" (Json.list? StepDefinition.ofJson?)
  return { name, steps }

end StageDefinition

/-! ## log lines -/

namespace LogLineKind

def toJson : LogLineKind → Json
  | .containerReady => .str "container_ready"
  | .output => .str "output"

def ofJson? : Json → Option LogLineKind
  | .str "container_ready" => some .containerReady
  | .str "output" => some .output
  | _ => none

end LogLineKind

namespace LogLine

def toJson (l : LogLine) : Json :=
  .obj [("step", .str l.step), ("container", .str l.container), ("kind", l.kind.toJson),
    ("content", .str l.content)]

def ofJson? (j : Json) : Option LogLine := do
  let o ← j.object?
  let step ← o.required "step" Json.string?
  let container ← o.required "container" Json.string?
  let kind ← o.required "kind" LogLineKind.ofJson?
  let content ← o.required "content" Json.string?
  return { step, container, kind, content }

end LogLine

/-! ## configurations -/

namespace Text

namespace SanitizeFlag

def toJson : SanitizeFlag → Json
  | .fromLastCR => .str "from_last_cr"
  | .removeEscapes => .str "remove_ansi_codes"

def ofJson? : Json → Option SanitizeFlag
  | .str "from_last_cr" => some .fromLastCR
  | .str "remove_ansi_codes" => some .removeEscapes
  | _ => none

end SanitizeFlag

namespace SanitizeOptions

def toJson (s : SanitizeOptions) : Json := .ofList SanitizeFlag.toJson s.toList

def ofJson? (j : Json) : Option SanitizeOptions := (Json.list? SanitizeFlag.ofJson? j).map ofList

end SanitizeOptions

end Text

namespace FailurePolicy

def toJson : FailurePolicy → Json
  | .runToCompletion => .str "run_to_completion"
  | .cancelSiblings => .str "cancel_siblings"

def ofJson? : Json → Option FailurePolicy
  | .str "run_to_completion" => some .runToCompletion
  | .str "cancel_siblings" => some .cancelSiblings
  | _ => none

end FailurePolicy

namespace Config

def toJson (c : Config) : Json :=
  .obj [("poll_interval_ms", .ofNat c.pollInterval.toNat), ("max_polls", .ofNat c.maxPolls.toNat),
    ("sanitize", c.sanitize.toJson), ("log_channel_capacity", .ofNat c.channelCapacity.toNat),
    ("failure_policy", c.failurePolicy.toJson), ("check_exit_codes", .bool c.checkExitCodes)]

def ofJson? (j : Json) : Option Config := do
  let o ← j.object?
  let usual : Config := {}
  let pollInterval ← o.defaulted "poll_interval_ms" usual.pollInterval Json.uint64?
  let maxPolls ← o.defaulted "max_polls" usual.maxPolls Json.uint32?
  let sanitize ← o.defaulted "sanitize" usual.sanitize Text.SanitizeOptions.ofJson?
  let channelCapacity ← o.defaulted "log_channel_capacity" usual.channelCapacity Json.uint64?
  let failurePolicy ← o.defaulted "failure_policy" usual.failurePolicy FailurePolicy.ofJson?
  let checkExitCodes ← o.defaulted "check_exit_codes" usual.checkExitCodes Json.bool?
  return { pollInterval, maxPolls, sanitize, channelCapacity, failurePolicy, checkExitCodes }

end Config

end StepRunner
