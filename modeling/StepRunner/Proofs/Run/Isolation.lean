import StepRunner.Proofs.Run.Course
import StepRunner.Proofs.Run.Retrace

/-!
# Steps do not interfere

What can be seen of a step among others, where each step goes on to its end and pods have names of
their own, is what can be seen of it on its own: its result, the calls on its pod and its log lines.
And whatever the schedules are, it has come to the same once it is over, up to the order of what its
log tasks do side by side.

* `View`, `Crew.view?`    what can be seen of a run
* `View.Like`             two views that differ in the order of what log tasks did
* `Retraces.view?_eq`     a run that is retraced shows the same
* `Crew.view_like`        runs that have come to the end of one course show the same
* `isolated_of_play`      a step among others and on its own
-/

namespace StepRunner

variable {σ : Type}

/-! ## what can be seen of a run -/

/-- what can be seen of a run: what has become of it, and the calls on its pod and the lines of its
step so far -/
structure View where
  isOver : Bool
  result : StepResult
  calls : List (PodRef × CallEvent)
  lines : List LogLine

namespace View

/-- Two views of a step that is over.  They may differ in the order of joined failures, in when log
streams were asked for, and in the order of lines of different containers.  The lines of a container
are in order, unless its log stream was asked for more than once. -/
structure Like (v v' : View) : Prop where
  error : Option.Rel (RunError.Like List.Perm) v.result.error v'.result.error
  own : (v.calls.filter fun c => !c.2.isOpened) = v'.calls.filter fun c => !c.2.isOpened
  calls : v.calls.Perm v'.calls
  lines : v.lines.Perm v'.lines
  order : ∀ container, v.calls.countP (·.2 = .opened container) ≤ 1 →
    v.lines.filter (·.container = container) = v'.lines.filter (·.container = container)

end View

namespace Crew

/-- what can be seen of run `i`, whose pod is called `name` and whose step is called `step` -/
def view? (name step : String) (i : Nat) (c : Crew σ) : Option View :=
  c.runs[i]?.map fun r => ⟨r.isOver, r.result, c.world.callsOn name, c.world.linesOf step⟩

variable {config : Config} {build : StepDefinition → Built} {name : String} {step : StepDefinition}
  {i j n : Nat} {c d : Crew PacedCluster} {r q : Run} {cluster : PacedCluster}

theorem Retraces.view?_eq {step : String} (h : Retraces name step i j c d) :
    c.view? name step i = d.view? name step j := by
  obtain ⟨⟨r, q, hr, hq, htwin⟩, hworlds⟩ := h
  rw [view?, view?, hr, hq, Option.map_some, Option.map_some, htwin.like.isOver,
    htwin.like.result_eq, hworlds.calls, hworlds.lines]

theorem view_like {x : Course} {w v : World PacedCluster}
    (h : Course.Met config name step r w x) (h' : Course.Met config name step q v x)
    (hr : r.tasks = []) (hq : q.tasks = []) :
    View.Like ⟨r.isOver, r.result, w.callsOn name, w.linesOf step.name⟩
      ⟨q.isOver, q.result, v.callsOn name, v.linesOf step.name⟩ := by
  obtain ⟨hcalls, hlines, horder⟩ := h.of_no_tasks hr
  obtain ⟨hcalls', hlines', horder'⟩ := h'.of_no_tasks hq
  refine ⟨h.like.error_of_like h'.like, h.own.trans h'.own.symm, hcalls.trans hcalls'.symm,
    hlines.trans hlines'.symm, fun container hone => ?_⟩
  have hone' : x.world.openings name container ≤ 1 := by
    rw [World.openings, ← hcalls.countP_eq]
    exact hone
  exact (horder container hone').trans (horder' container hone').symm

theorem Hosts.exists_met_of_isOver (h : c.Hosts ⟨pacedPlatform, config, build⟩ step name i)
    (hown : ∀ spec, build step = .spec spec → spec.name = name) (hr : c.runs[i]? = some { step })
    (hmet : Course.Met config name step { step } c.world (course config build step cluster 0))
    {moves : List Move} {v : View}
    (hv : (c.play ⟨pacedPlatform, config, build⟩ moves).view? name step.name i = some v)
    (hover : v.isOver = true) :
    ∃ r w n, v = ⟨r.isOver, r.result, w.callsOn name, w.linesOf step.name⟩ ∧ r.tasks = [] ∧
      Course.Met config name step r w (course config build step cluster n) ∧
      (course config build step cluster n).run.isOver = true := by
  obtain ⟨r, n, hr', hmet'⟩ := h.exists_met hown hr hmet moves
  obtain ⟨s, hs, hgrown⟩ := (h.play moves).run
  obtain rfl : r = s := Option.some.inj (hr'.symm.trans hs)
  rw [view?, hr'] at hv
  obtain rfl := Option.some.inj hv
  have hover : r.isOver = true := hover
  refine ⟨r, _, n, rfl, hgrown.tasks_of_isOver hover, hmet', ?_⟩
  rw [← hmet'.like.isOver]
  exact hover

/-! ## among others and alone -/

theorem ne_of_nodup {α β : Type} {f : α → β} {l : List α} (hl : (l.map f).Nodup) {a b : α}
    {k : Nat} (ha : l[i]? = some a) (hb : l[k]? = some b) (hki : k ≠ i) : f b ≠ f a := by
  intro heq
  have hlt : k < (l.map f).length := by
    rw [List.length_map]
    exact (List.getElem?_eq_some_iff.1 hb).1
  refine hki ((List.getElem?_inj hlt hl).1 ?_)
  rw [List.getElem?_map, List.getElem?_map, ha, hb, Option.map_some, Option.map_some, heq]

theorem hosts_begun {setup : Setup σ} {podName : StepDefinition → String}
    {steps : List StepDefinition} {world : World σ} (hsteps : (steps.map (·.name)).Nodup)
    (hpods : (steps.map podName).Nodup)
    (hnamed : ∀ step ∈ steps, ∀ spec, setup.build step = .spec spec → spec.name = podName step)
    (hstep : steps[i]? = some step) (hunfired : world.cancelled = false)
    (hat : world.cancelAt = none) (hopen : world.channel.isOpen = true)
    (hroom : 0 < world.channel.room) :
    (begun steps world (some .runToCompletion)).Hosts setup step (podName step) i := by
  refine ⟨⟨_, runs_begun hstep, Run.grown_begin setup step⟩, fun k s hki hs => ?_,
    ⟨by simp [begun, ofRuns], hunfired, hat⟩, hopen, hroom⟩
  obtain ⟨other, hother, rfl⟩ : ∃ other, steps[k]? = some other ∧ { step := other } = s := by
    simpa [begun, ofRuns] using hs
  refine ⟨other, Run.grown_begin setup other, ne_of_nodup hsteps hstep hother hki,
    fun spec hb => ?_⟩
  rw [hnamed other (List.mem_of_getElem? hother) spec hb]
  exact ne_of_nodup hpods hstep hother hki

theorem hosts_alone (setup : Setup σ) (name : String) (step : StepDefinition) {world : World σ}
    (hunfired : world.cancelled = false) (hat : world.cancelAt = none)
    (hopen : world.channel.isOpen = true) (hroom : 0 < world.channel.room) :
    (ofRuns [{ step }] world none).Hosts setup step name 0 := by
  refine ⟨⟨_, rfl, Run.grown_begin setup step⟩, fun k s hk hs => ?_, ⟨by simp [ofRuns], hunfired,
    hat⟩, hopen, hroom⟩
  rw [ofRuns, List.getElem?_eq_none (Nat.pos_of_ne_zero hk)] at hs
  cases hs

/-- **Steps do not interfere.**  Where each step of a stage goes on to its end and their names and
those of their pods are distinct, what can be seen of a step under some schedule is what can be seen
of it alone under some schedule, on a cluster that agrees on its pod.  And under any two schedules
both have come to the same once they are over. -/
theorem isolated_of_play (config : Config) (build : StepDefinition → Built)
    (podName : StepDefinition → String) (stage : StageDefinition) (cluster own : PacedCluster)
    (room room' i : Nat) (step : StepDefinition) (hsteps : (stage.steps.map (·.name)).Nodup)
    (hpods : (stage.steps.map podName).Nodup)
    (hnamed : ∀ step ∈ stage.steps, ∀ spec, build step = .spec spec → spec.name = podName step)
    (hstep : stage.steps[i]? = some step) (hagree : cluster.Agree (podName step) own)
    (hroom : 0 < room) (hroom' : 0 < room') :
    let setup : Setup PacedCluster := ⟨pacedPlatform, config, build⟩
    let first := begun stage.steps { state := cluster, channel := { room } } (some .runToCompletion)
    let sole := ofRuns [{ step }] { state := own, channel := { room := room' } } none
    let among (moves : List Move) := (first.play setup moves).view? (podName step) step.name i
    let alone (moves : List Move) := (sole.play setup moves).view? (podName step) step.name 0
    (∀ moves, ∃ moves', among moves = alone moves') ∧
    (∀ moves, ∃ moves', alone moves = among moves') ∧
    ∀ moves moves' v v', among moves = some v → alone moves' = some v' → v.isOver = true →
      v'.isOver = true → v.Like v' := by
  intro setup first sole among alone
  have hown (spec : PodSpec) (hb : build step = .spec spec) : spec.name = podName step :=
    hnamed step (List.mem_of_getElem? hstep) spec hb
  have hfirst : first.Hosts setup step (podName step) i :=
    hosts_begun hsteps hpods hnamed hstep rfl rfl rfl hroom
  have hsole : sole.Hosts setup step (podName step) 0 :=
    hosts_alone setup (podName step) step rfl rfl rfl hroom'
  have hbegin : first.runs[i]? = some { step } := runs_begun hstep
  have htwin : Run.Twin { step } { step } := ⟨⟨rfl, rfl, rfl, .start⟩, .nil, rfl⟩
  have hthere : Retraces (podName step) step.name i 0 first sole :=
    ⟨⟨_, _, hbegin, rfl, htwin⟩, hagree, rfl, rfl⟩
  have hback : Retraces (podName step) step.name 0 i sole first :=
    ⟨⟨_, _, rfl, hbegin, htwin⟩, hagree.symm, rfl, rfl⟩
  refine ⟨fun moves => ?_, fun moves => ?_, fun moves moves' v v' hv hv' hover hover' => ?_⟩
  · obtain ⟨moves', h⟩ := hthere.play hfirst hsole hown moves
    exact ⟨moves', h.view?_eq⟩
  · obtain ⟨moves', h⟩ := hback.play hsole hfirst hown moves
    exact ⟨moves', h.view?_eq⟩
  · -- both are at the end of the course on the cluster of the step alone
    have hmet : Course.Met config (podName step) step { step } first.world
        (course config build step own 0) := Course.met_begin config build _ step hagree rfl rfl
    have hmet' : Course.Met config (podName step) step { step } sole.world
        (course config build step own 0) :=
      Course.met_begin config build _ step (.refl _ own) rfl rfl
    obtain ⟨r, w, n, rfl, htasks, hend, hlast⟩ :=
      hfirst.exists_met_of_isOver hown hbegin hmet hv hover
    obtain ⟨q, w', n', rfl, htasks', hend', hlast'⟩ :=
      hsole.exists_met_of_isOver hown rfl hmet' hv' hover'
    rw [course_eq_of_isOver config build step own hlast hlast'] at hend
    exact view_like hend hend' htasks htasks'

/-- a step whose sibling fails to create its pod -/
theorem isolated_beside_failure :
    let build (step : StepDefinition) : Built :=
      .spec { name := step.name, namespaceName := "ns",
              containers := [{ name := "c", image := "i" }] }
    let setup : Setup PacedCluster := ⟨pacedPlatform, {}, build⟩
    let step : StepDefinition := { name := "b", image := "i" }
    let stage : StageDefinition :=
      { name := "test", steps := [{ name := "a", image := "i" }, step] }
    let cluster : PacedCluster := { cluster := { createFailures := ["a"] } }
    let begin (i : Nat) : List Move := List.replicate 3 (.act (.run i))
    let rest (i : Nat) : List Move :=
      List.replicate 3 (.act (.run i)) ++ List.replicate 3 (.act (.logTask i 0)) ++
        List.replicate 6 (.act (.run i))
    let moves := begin 1 ++ begin 0 ++ rest 1
    let moves' := begin 0 ++ rest 0
    let first := begun stage.steps { state := cluster, channel := { room := 9 } }
      (some .runToCompletion)
    let sole := ofRuns [{ step }] { state := ({} : PacedCluster), channel := { room := 1 } } none
    (first.play setup moves).entries.map (·.succeeded) = [false, true] ∧
      ∃ v v', (first.play setup moves).view? "b" "b" 1 = some v ∧
        (sole.play setup moves').view? "b" "b" 0 = some v' ∧ v.isOver = true ∧
        v'.isOver = true ∧ v.Like v' := by
  intro build setup step stage cluster begin rest moves moves' first sole
  have hfailed : (first.play setup moves).entries.map (·.succeeded) = [false, true] := by
    decide +kernel
  have hover : ((first.play setup moves).view? "b" "b" 1).map View.isOver = some true := by
    decide +kernel
  have hover' : ((sole.play setup moves').view? "b" "b" 0).map View.isOver = some true := by
    decide +kernel
  -- from here on it does not matter which moves these are
  clear_value moves moves'
  obtain ⟨v, hv, hover⟩ := Option.map_eq_some_iff.1 hover
  obtain ⟨v', hv', hover'⟩ := Option.map_eq_some_iff.1 hover'
  have hnamed (step : StepDefinition) (_ : step ∈ stage.steps) (spec : PodSpec)
      (hb : build step = .spec spec) : spec.name = step.name := by
    cases hb
    rfl
  have hagree : cluster.Agree "b" {} := ⟨⟨.none, rfl, by decide, .rfl⟩, rfl⟩
  have hall := isolated_of_play {} build (·.name) stage cluster {} 9 1 1 step (by decide)
    (by decide) hnamed rfl hagree (by decide) (by decide)
  exact ⟨hfailed, v, v', hv, hv', hover, hover', hall.2.2 moves moves' v v' hv hv' hover hover'⟩

end Crew

end StepRunner
