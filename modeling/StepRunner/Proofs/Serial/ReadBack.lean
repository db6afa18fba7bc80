import Mathlib
import StepRunner.Proofs.Serial.Pods
import StepRunner.Serial.Stage

/-!
# Everything that is written is read back

Stages, log lines and configurations are read back as pods are.  Of a configuration any part will
do: what is not there is at its usual value.  A list of transforms is read as a set.

* `Config.keeping`             a configuration of which some fields are kept
* `Config.read_part`           a part of a written configuration
* `SanitizeOptions.read_list`  a list of transforms, in any order and with repetitions
* `written_values_read_back`   every type, together
-/

namespace StepRunner

open ReadsBack

/-! ## stages -/

namespace StepDefinition

def form : Form :=
  .record [("name", .plain), ("step_type", .plain), ("image", .plain), ("commands", .list .plain),
    ("env", .plain)]

theorem readsBack (s : StepDefinition) : ReadsBack form toJson ofJson? s := by
  have hname := string s.name
  have htype := string s.stepType
  have himage := string s.image
  have hcommands := strings s.commands
  have henv := dict s.env
  refine .record rfl (.cons hname.fits <| .cons htype.fits <| .cons himage.fits <|
    .cons hcommands.fits <| .cons henv.fits .nil) (by decide) rfl ?_
  rintro o ⟨atName, atType, atImage, atCommands, atEnv, -⟩
  simp only [ofJson?, Json.object?, hname.required atName, htype.defaulted atType,
    himage.required atImage, hcommands.defaulted atCommands, henv.defaulted atEnv,
    Option.bind_eq_bind, Option.bind_some]
  rfl

end StepDefinition

namespace StageDefinition

def form : Form := .record [("name", .plain), ("steps", .list StepDefinition.form)]

theorem readsBack (s : StageDefinition) : ReadsBack form toJson ofJson? s := by
  have hname := string s.name
  have hsteps := list (l := s.steps) fun d _ => d.readsBack
  refine .record rfl (.cons hname.fits <| .cons hsteps.fits .nil) (by decide) rfl ?_
  rintro o ⟨atName, atSteps, -⟩
  simp only [ofJson?, Json.object?, hname.required atName, hsteps.required atSteps,
    Option.bind_eq_bind, Option.bind_some]
  rfl

end StageDefinition

/-! ## log lines -/

theorem LogLineKind.readsBack (k : LogLineKind) : ReadsBack .plain toJson ofJson? k := by
  refine of_whole ?_ rfl
  cases k <;> rfl

namespace LogLine

def form : Form :=
  .record [("step", .plain), ("container", .plain), ("kind", .plain), ("content", .plain)]

theorem readsBack (l : LogLine) : ReadsBack form toJson ofJson? l := by
  have hstep := string l.step
  have hcontainer := string l.container
  have hkind := l.kind.readsBack
  have hcontent := string l.content
  refine .record rfl (.cons hstep.fits <| .cons hcontainer.fits <| .cons hkind.fits <|
    .cons hcontent.fits .nil) (by decide) rfl ?_
  rintro o ⟨atStep, atContainer, atKind, atContent, -⟩
  simp only [ofJson?, Json.object?, hstep.required atStep, hcontainer.required atContainer,
    hkind.required atKind, hcontent.required atContent, Option.bind_eq_bind, Option.bind_some]
  rfl

end LogLine

/-! ## transforms -/

namespace Text

theorem SanitizeFlag.readsBack (f : SanitizeFlag) : ReadsBack .plain toJson ofJson? f := by
  refine of_whole ?_ rfl
  cases f <;> rfl

namespace SanitizeOptions

theorem foldl_union (flags : List SanitizeFlag) (s : SanitizeOptions) :
    flags.foldl (fun s f => s.union (single f)) s =
      ⟨s.fromLastCR || decide (.fromLastCR ∈ flags),
        s.removeEscapes || decide (.removeEscapes ∈ flags)⟩ := by
  induction flags generalizing s with
  | nil => simp
  | cons f flags ih =>
    rw [List.foldl_cons, ih]
    cases f <;> simp [union, single]

theorem ofList_eq (flags : List SanitizeFlag) :
    ofList flags = ⟨decide (.fromLastCR ∈ flags), decide (.removeEscapes ∈ flags)⟩ :=
  foldl_union flags none

theorem ofList_toList (s : SanitizeOptions) : ofList s.toList = s := by
  obtain ⟨cr, escapes⟩ := s
  cases cr <;> cases escapes <;> rfl

theorem toList_ofList (flags : List SanitizeFlag) :
    (ofList flags).toList = [.fromLastCR, .removeEscapes].filter (· ∈ flags) := by
  rw [ofList_eq, toList]
  by_cases hcr : .fromLastCR ∈ flags <;> by_cases hescapes : .removeEscapes ∈ flags <;>
    simp [hcr, hescapes]

theorem ofJson?_ofList (flags : List SanitizeFlag) :
    ofJson? (.ofList SanitizeFlag.toJson flags) = some (ofList flags) := by
  rw [ofJson?, (list fun f _ => SanitizeFlag.readsBack f).whole, Option.map_some]

theorem readsBack (s : SanitizeOptions) : ReadsBack .plain toJson ofJson? s := by
  refine of_whole ?_ rfl
  rw [toJson, ofJson?_ofList, ofList_toList]

/-- **A list of transforms is read as a set, and written again in order and each once.** -/
theorem read_list (flags : List SanitizeFlag) :
    ∃ s, ofJson? (.ofList SanitizeFlag.toJson flags) = some s ∧
      (s.fromLastCR = true ↔ .fromLastCR ∈ flags) ∧
      (s.removeEscapes = true ↔ .removeEscapes ∈ flags) ∧
      s.toJson =
        .ofList SanitizeFlag.toJson ([.fromLastCR, .removeEscapes].filter (· ∈ flags)) := by
  refine ⟨ofList flags, ofJson?_ofList flags, ?_, ?_, ?_⟩
  · rw [ofList_eq, decide_eq_true_eq]
  · rw [ofList_eq, decide_eq_true_eq]
  · rw [toJson, toList_ofList]

end SanitizeOptions

end Text

/-! ## configurations -/

theorem FailurePolicy.readsBack (p : FailurePolicy) : ReadsBack .plain toJson ofJson? p := by
  refine of_whole ?_ rfl
  cases p <;> rfl

namespace Config

def fields : List (String × Form) :=
  [("poll_interval_ms", .plain), ("max_polls", .plain), ("sanitize", .plain),
    ("log_channel_capacity", .plain), ("failure_policy", .plain), ("check_exit_codes", .plain)]

def form : Form := .record fields

/-- a configuration of which the fields of some names are kept and the others are as usual -/
def keeping (kept : String → Bool) (c : Config) : Config :=
  let usual : Config := {}
  { pollInterval := if kept "poll_interval_ms" then c.pollInterval else usual.pollInterval
    maxPolls := if kept "max_polls" then c.maxPolls else usual.maxPolls
    sanitize := if kept "sanitize" then c.sanitize else usual.sanitize
    channelCapacity :=
      if kept "log_channel_capacity" then c.channelCapacity else usual.channelCapacity
    failurePolicy := if kept "failure_policy" then c.failurePolicy else usual.failurePolicy
    checkExitCodes := if kept "check_exit_codes" then c.checkExitCodes else usual.checkExitCodes }

theorem exists_members (c : Config) :
    ∃ ms, c.toJson = .obj ms ∧ List.Forall₂ Fits fields ms ∧ ∀ (kept : String → Bool) (o : Fields),
      Form.Slots o fields (ms.map fun m => if kept m.1 then some m.2 else none) →
        ofJson? (.obj o.members) = some (c.keeping kept) := by
  have hinterval := uint64 c.pollInterval
  have hpolls := uint32 c.maxPolls
  have hsanitize := c.sanitize.readsBack
  have hcapacity := uint64 c.channelCapacity
  have hpolicy := c.failurePolicy.readsBack
  have hcodes := bool c.checkExitCodes
  refine ⟨_, rfl, .cons hinterval.fits <| .cons hpolls.fits <| .cons hsanitize.fits <|
    .cons hcapacity.fits <| .cons hpolicy.fits <| .cons hcodes.fits .nil, ?_⟩
  rintro kept o ⟨atInterval, atPolls, atSanitize, atCapacity, atPolicy, atCodes, -⟩
  simp only [ofJson?, Json.object?, hinterval.defaulted_of_kept atInterval,
    hpolls.defaulted_of_kept atPolls, hsanitize.defaulted_of_kept atSanitize,
    hcapacity.defaulted_of_kept atCapacity, hpolicy.defaulted_of_kept atPolicy,
    hcodes.defaulted_of_kept atCodes, Option.bind_eq_bind, Option.bind_some]
  rfl

theorem readsBack (c : Config) : ReadsBack form toJson ofJson? c := by
  obtain ⟨ms, hwrite, hfits, hread⟩ := c.exists_members
  exact .record hwrite hfits (by decide) rfl (hread fun _ => true)

/-- **A part of a written configuration is read with everything else as usual.** -/
theorem read_part (c : Config) :
    ∃ ms, c.toJson = .obj ms ∧ ∀ (kept : String → Bool) (j : Json),
      form.Loosens (.obj (ms.filter fun m => kept m.1)) j →
        ofJson? j = some (c.keeping kept) := by
  obtain ⟨ms, hwrite, hfits, hread⟩ := c.exists_members
  refine ⟨ms, hwrite, fun kept j hj => ?_⟩
  obtain ⟨ms', rfl, hslots⟩ := hj.slots_filter (names_eq hfits) (by decide)
  exact hread kept ⟨ms'⟩ hslots

end Config

/-! ## everything -/

/-- **Every value is read from what is written for it, as it stands and in any looser form.** -/
theorem written_values_read_back :
    (∀ p : PodIdentity, PodIdentity.ofJson? p.toJson = some p ∧
      ∀ j, PodIdentity.form.Loosens p.toJson j → PodIdentity.ofJson? j = some p) ∧
    (∀ c : ContainerSpec, ContainerSpec.ofJson? c.toJson = some c ∧
      ∀ j, ContainerSpec.form.Loosens c.toJson j → ContainerSpec.ofJson? j = some c) ∧
    (∀ s : PodSpec, PodSpec.ofJson? s.toJson = some s ∧
      ∀ j, PodSpec.form.Loosens s.toJson j → PodSpec.ofJson? j = some s) ∧
    (∀ s : ContainerStatus, (∀ t ∈ s.instants, t.WellFormed) →
      ContainerStatus.ofJson? s.toJson = some s ∧
      ∀ j, ContainerStatus.form.Loosens s.toJson j → ContainerStatus.ofJson? j = some s) ∧
    (∀ s : PodSnapshot, (∀ t ∈ s.instants, t.WellFormed) →
      PodSnapshot.ofJson? s.toJson = some s ∧
      ∀ j, PodSnapshot.form.Loosens s.toJson j → PodSnapshot.ofJson? j = some s) ∧
    (∀ o : Observation, Observation.ofJson? o.toJson = some o ∧
      ∀ j, Observation.form.Loosens o.toJson j → Observation.ofJson? j = some o) ∧
    (∀ s : StepDefinition, StepDefinition.ofJson? s.toJson = some s ∧
      ∀ j, StepDefinition.form.Loosens s.toJson j → StepDefinition.ofJson? j = some s) ∧
    (∀ s : StageDefinition, StageDefinition.ofJson? s.toJson = some s ∧
      ∀ j, StageDefinition.form.Loosens s.toJson j → StageDefinition.ofJson? j = some s) ∧
    (∀ l : LogLine, LogLine.ofJson? l.toJson = some l ∧
      ∀ j, LogLine.form.Loosens l.toJson j → LogLine.ofJson? j = some l) ∧
    (∀ s : Text.SanitizeOptions, Text.SanitizeOptions.ofJson? s.toJson = some s) ∧
    (∀ c : Config, Config.ofJson? c.toJson = some c ∧
      ∀ j, Config.form.Loosens c.toJson j → Config.ofJson? j = some c) ∧
    -- a part of the fields of a configuration
    (∀ c : Config, ∃ ms, c.toJson = .obj ms ∧ ∀ (kept : String → Bool) (j : Json),
      Config.form.Loosens (.obj (ms.filter fun m => kept m.1)) j →
        Config.ofJson? j = some (c.keeping kept)) ∧
    -- a list of transforms, in any order and with repetitions
    ∀ flags : List Text.SanitizeFlag,
      ∃ s, Text.SanitizeOptions.ofJson? (.ofList Text.SanitizeFlag.toJson flags) = some s ∧
        (s.fromLastCR = true ↔ .fromLastCR ∈ flags) ∧
        (s.removeEscapes = true ↔ .removeEscapes ∈ flags) ∧
        s.toJson =
          .ofList Text.SanitizeFlag.toJson ([.fromLastCR, .removeEscapes].filter (· ∈ flags)) :=
  ⟨fun p => ⟨p.readsBack.whole, p.readsBack.loose⟩,
    fun c => ⟨c.readsBack.whole, c.readsBack.loose⟩,
    fun s => ⟨s.readsBack.whole, s.readsBack.loose⟩,
    fun _ h => ⟨(ContainerStatus.readsBack h).whole, (ContainerStatus.readsBack h).loose⟩,
    fun _ h => ⟨(PodSnapshot.readsBack h).whole, (PodSnapshot.readsBack h).loose⟩,
    fun o => ⟨o.readsBack.whole, o.readsBack.loose⟩,
    fun s => ⟨s.readsBack.whole, s.readsBack.loose⟩,
    fun s => ⟨s.readsBack.whole, s.readsBack.loose⟩,
    fun l => ⟨l.readsBack.whole, l.readsBack.loose⟩,
    fun s => s.readsBack.whole,
    fun c => ⟨c.readsBack.whole, c.readsBack.loose⟩,
    Config.read_part, Text.SanitizeOptions.read_list⟩

/-- A status with an instant: a member of an unknown name is added to the status and another one to
the part that the container runs in, and the parts that are null are left out. -/
theorem status_read_from_looser :
    let t : Instant := ⟨⟨2024, 2, 29⟩, 86399, 120000000⟩
    let s : ContainerStatus := ⟨"build", true, 2, { running := some { startedAt := some t } }⟩
    let j : Json := .obj [("name", .str "build"), ("ready", .bool true), ("image", .str "busybox"),
      ("restart_count", .int 2), ("state", .obj [("running", .obj [("pid", .int 7),
        ("started_at", .str "2024-02-29T23:59:59.120Z")])])]
    (∀ t ∈ s.instants, t.WellFormed) ∧ ContainerStatus.form.Loosens s.toJson j ∧
      ContainerStatus.ofJson? j = some s := by
  intro t s j
  have hinstants : ∀ u ∈ s.instants, u.WellFormed := by
    intro u hu
    obtain rfl : u = t := List.mem_singleton.1 hu
    exact ⟨by decide, by decide, by decide, by decide, by decide⟩
  have htext : t.render = "2024-02-29T23:59:59.120Z" := by
    show Instant.render ⟨⟨2024, 2, 29⟩, 86399, 120000000⟩ = _
    cbv
  have hrunning : RunningInfo.form.Loosens (RunningInfo.toJson ⟨some t⟩)
      (.obj [("pid", .int 7), ("started_at", .str "2024-02-29T23:59:59.120Z")]) := by
    rw [← htext]
    exact .record (.added (by decide) <| .kept (.head _) (.there nofun .plain) .nil) (.refl _)
  have hstate : ReportedState.form.Loosens s.state.toJson
      (.obj [("running", .obj [("pid", .int 7),
        ("started_at", .str "2024-02-29T23:59:59.120Z")])]) :=
    .record (.leftOut (.head _) <| .kept (.tail _ (.head _)) (.there nofun hrunning) <|
      .leftOut (.tail _ (.tail _ (.head _))) .nil) (.refl _)
  have hloose : ContainerStatus.form.Loosens s.toJson j :=
    .record (.kept (.head _) .plain <| .kept (.tail _ (.head _)) .plain <|
      .added (by decide) <| .kept (.tail _ (.tail _ (.head _))) .plain <|
      .kept (.tail _ (.tail _ (.tail _ (.head _)))) hstate .nil) (.refl _)
  exact ⟨hinstants, hloose, (written_values_read_back.2.2.2.1 s hinstants).2 j hloose⟩

end StepRunner
