import StepRunner.Proofs.Wait.Watch
import StepRunner.Wait.Loop

/-!
# Rising edges

What a watch hands out, against the list of all observations that it has recorded.  A scan stops at
the container that it hands out and leaves the rest of its snapshot alone, so this list is shorter
than that of all observations shown.  On it a watch hands out the rising edges: an observation that
meets the goal, where the latest one of the same container before it did not.

* `latest?`                     the latest of some observations of a container
* `Rises`                       a rising edge
* `Watch.recorded`              the observations that a scan records, as `scan_known_eq` says
* `get?_record`                 what is known is the latest of what was recorded
* `Watch.HandsOut`              the edge at the end of what was recorded is handed out
* `handsOut_scan`               so it is by a scan, and by a look and a wait in turn
* `Watch.turns`                 waits for one container after the other, and what they record
* `handed_out_at_rising_edges`  each of them hands out its rising edge, and nothing else
-/

namespace StepRunner

/-! ## edges -/

/-- the latest of some observations of a container -/
def latest? (os : List Observation) (name : String) : Option Observation :=
  (os.filter (·.name = name)).getLast?

/-- an observation that meets the goal where the latest one before it of the same container, if
there is one, did not -/
def Rises (goal : Goal) (past : List Observation) (o : Observation) : Prop :=
  goal.met o = true ∧ ∀ old, latest? past o.name = some old → goal.met old = false

theorem latest?_append (past more : List Observation) (name : String) :
    latest? (past ++ more) name = (latest? more name).or (latest? past name) := by
  rw [latest?, List.filter_append, List.getLast?_append]
  rfl

theorem latest?_concat (past : List Observation) (o : Observation) (name : String) :
    latest? (past ++ [o]) name = if name = o.name then some o else latest? past name := by
  rw [latest?_append]
  by_cases h : name = o.name
  · subst h
    simp [latest?]
  · have h' : ¬ o.name = name := fun heq => h heq.symm
    simp [latest?, h, h']

theorem mem_of_latest? {os : List Observation} {name : String} {o : Observation}
    (h : latest? os name = some o) : o ∈ os ∧ o.name = name := by
  have hmem := List.mem_of_getLast? h
  simpa using List.mem_filter.1 hmem

/-- between two observations of a container that meet the goal, the later one a rising edge, there
is one that does not -/
theorem Rises.exists_unmet {goal : Goal} {past more : List Observation} {old o : Observation}
    (h : Rises goal (past ++ old :: more) o) (hname : old.name = o.name)
    (hm : goal.met old = true) : ∃ x ∈ more, x.name = o.name ∧ goal.met x = false := by
  have hlatest : latest? (past ++ old :: more) o.name =
      (latest? more o.name).or (latest? (past ++ [old]) o.name) := by
    rw [← latest?_append, List.append_assoc]
    rfl
  rw [latest?_concat, if_pos hname.symm] at hlatest
  cases hmore : latest? more o.name with
  | none =>
    rw [hmore] at hlatest
    have hunmet := h.2 old hlatest
    rw [hm] at hunmet
    cases hunmet
  | some x =>
    rw [hmore] at hlatest
    obtain ⟨hmem, hx⟩ := mem_of_latest? hmore
    exact ⟨x, hmem, hx, h.2 x hlatest⟩

/-- for an observation that meets the goal, to be news is to follow one that did not -/
theorem Goal.differs_iff {goal : Goal} {old new : Observation} (hm : goal.met new = true) :
    goal.differs old new = true ↔ goal.met old = false := by
  cases goal with
  | ready =>
    have hready : new.ready = true := hm
    simp [differs, met, hready]
  | done =>
    have hstate : new.state = .terminated := by simpa [met] using hm
    simp [differs, met, hstate]

namespace Watch

/-! ## one scan -/

/-- the observations that a scan records: all up to the one that it hands out -/
def recorded (goal : Goal) (known : Dict Observation) : List Observation → List Observation
  | [] => []
  | o :: rest =>
    if isNews goal known o && goal.met o then [o]
    else o :: recorded goal (known.insert o.name o) rest

/-- what is known after some observations were recorded, one after the other -/
def record (known : Dict Observation) (os : List Observation) : Dict Observation :=
  os.foldl (fun known o => known.insert o.name o) known

/-- What is handed out of some observations recorded after others: the last of them if it is a
rising edge, and there is no other edge among them. -/
structure HandsOut (goal : Goal) (past os : List Observation) (found : Option Observation) :
    Prop where
  rises : ∀ before o after, os = before ++ o :: after →
    (found = some o ∧ after = [] ↔ Rises goal (past ++ before) o)
  last : ∀ o, found = some o → ∃ before, os = before ++ [o]

section
variable {goal : Goal} {known : Dict Observation} {past os os' : List Observation}
  {found : Option Observation}

theorem record_append (known : Dict Observation) (os os' : List Observation) :
    record known (os ++ os') = record (record known os) os' := List.foldl_append

theorem get?_record (known : Dict Observation) (os : List Observation) (name : String) :
    (record known os).get? name = (latest? os name).or (known.get? name) := by
  induction os generalizing known with
  | nil => rfl
  | cons o os ih =>
    have hcons : latest? (o :: os) name = (latest? os name).or (latest? ([] ++ [o]) name) :=
      latest?_append [o] os name
    have hinsert : (record known (o :: os)).get? name =
        (latest? os name).or ((known.insert o.name o).get? name) := ih (known.insert o.name o)
    rw [hinsert, hcons, latest?_concat, Dict.get?_insert, Option.or_assoc]
    by_cases h : name = o.name
    · rw [if_pos h, if_pos h]
      rfl
    · rw [if_neg h, if_neg h]
      rfl

theorem get?_record_empty (past : List Observation) (name : String) :
    (record ∅ past).get? name = latest? past name := by
  rw [get?_record]
  exact Option.or_none

theorem isNews_record_iff (goal : Goal) (past : List Observation) (o : Observation) :
    (isNews goal (record ∅ past) o && goal.met o) = true ↔ Rises goal past o := by
  rw [Bool.and_eq_true, isNews, get?_record_empty, Rises, and_comm]
  refine and_congr_right fun hm => ?_
  cases latest? past o.name with
  | none => simp
  | some old => simpa using Goal.differs_iff hm

theorem HandsOut.nil (goal : Goal) (past : List Observation) : HandsOut goal past [] none :=
  ⟨fun _ _ _ h => by simp at h, fun _ h => by cases h⟩

theorem HandsOut.single {o : Observation} (h : found = some o ↔ Rises goal past o)
    (hlast : ∀ x, found = some x → x = o) : HandsOut goal past [o] found := by
  refine ⟨fun before x after hos => ?_, fun x hx => ⟨[], by rw [hlast x hx]; rfl⟩⟩
  obtain ⟨rfl, hcut⟩ | ⟨rest, -, hrest⟩ := List.cons_eq_append_iff.1 hos
  · obtain ⟨rfl, rfl⟩ := List.cons.inj hcut
    simpa using h
  · simp at hrest

theorem HandsOut.append (h : HandsOut goal past os none)
    (h' : HandsOut goal (past ++ os) os' found) : HandsOut goal past (os ++ os') found := by
  refine ⟨fun before o after hos => ?_, fun o ho => ?_⟩
  · obtain ⟨more, rfl, hcut⟩ | ⟨more, rfl, hcut⟩ := List.append_eq_append_iff.1 hos
    · rw [← List.append_assoc]
      exact h'.rises more o after hcut
    · obtain ⟨rfl, hcut⟩ | ⟨more, rfl, rfl⟩ := List.cons_eq_append_iff.1 hcut
      · simpa using h'.rises [] o after hcut.symm
      · -- `o` is among the first ones: it is no edge, and not the last one either
        have hno : ¬ Rises goal (past ++ before) o := fun hrises => by
          cases ((h.rises before o more rfl).2 hrises).1
        refine iff_of_false (fun hfirst => ?_) hno
        obtain ⟨front, rfl⟩ := h'.last o hfirst.1
        simp at hfirst
  · obtain ⟨before, rfl⟩ := h'.last o ho
    exact ⟨os ++ before, by simp⟩

theorem scan_known_eq (goal : Goal) (known : Dict Observation) (os : List Observation) :
    (scan goal known os).1 = record known (recorded goal known os) := by
  induction os generalizing known with
  | nil => rfl
  | cons o os ih =>
    cases ho : isNews goal known o && goal.met o with
    | true =>
      rw [scan_cons_found ho, recorded, if_pos ho]
      rfl
    | false =>
      rw [scan_cons_passed ho, ih, recorded, ho]
      rfl

theorem handsOut_scan (goal : Goal) (past os : List Observation) :
    HandsOut goal past (recorded goal (record ∅ past) os) (scan goal (record ∅ past) os).2 := by
  induction os generalizing past with
  | nil => exact .nil goal past
  | cons o os ih =>
    have hiff := isNews_record_iff goal past o
    cases ho : isNews goal (record ∅ past) o && goal.met o with
    | true =>
      rw [scan_cons_found ho, recorded, if_pos ho]
      exact .single (iff_of_true rfl (hiff.1 ho)) fun x hx => (Option.some.inj hx).symm
    | false =>
      have hno : ¬ Rises goal past o := fun hrises => by simp [hiff.2 hrises] at ho
      have hinsert : (record ∅ past).insert o.name o = record ∅ (past ++ [o]) := by
        rw [record_append]
        rfl
      have hrecorded : recorded goal (record ∅ past) (o :: os) =
          [o] ++ recorded goal (record ∅ (past ++ [o])) os := by
        rw [recorded, ho, hinsert]
        rfl
      rw [scan_cons_passed ho, hinsert, hrecorded]
      exact .append (.single (iff_of_false (by simp) hno) (by simp)) (ih (past ++ [o]))

theorem recorded_sublist (goal : Goal) (known : Dict Observation) (os : List Observation) :
    (recorded goal known os).Sublist os := by
  induction os generalizing known with
  | nil => exact .slnil
  | cons o os ih =>
    unfold recorded
    split
    · exact (List.nil_sublist os).cons_cons o
    · exact (ih _).cons_cons o

end

/-! ## one wait -/

variable {σ : Type}

/-- what a watch records of the answer to a look -/
def recordedOf (w : Watch) : Except ClusterError PodSnapshot → List Observation
  | .error _ => []
  | .ok s => recorded w.goal w.known s.observations

/-- what a watch records while it looks, as `awaitFrom` does -/
def recordedFrom (platform : Platform σ) (interval : Nat) :
    (left polls : Nat) → Watch → World σ → List Observation
  | 0, _, _, _ => []
  | left + 1, polls, w, world =>
    let world := world.pause (platform.delay .fetch w.pod world.state)
    let (answer, world) := world.fetch platform w.pod
    match w.answer polls answer with
    | (_, some _, _) => w.recordedOf answer
    | (w', none, warnings) =>
      w.recordedOf answer ++ recordedFrom platform interval left (polls + 1) w'
        ((world.warn warnings).pause interval)

/-- what a watch records while it waits for the next container -/
def recordedBy (platform : Platform σ) (interval : Nat) (w : Watch) (world : World σ) :
    List Observation :=
  if w.remaining then recordedFrom platform interval w.limit 0 w world else []

/-- a watch on `goal` that knows what was recorded -/
structure Knows (goal : Goal) (past : List Observation) (w : Watch) : Prop where
  goal : w.goal = goal
  known : w.known = record ∅ past

variable {goal : Goal} {past : List Observation} {w watch : Watch} {polls : Nat}
  {outcome : Option Outcome}

theorem Knows.absorb (h : w.Knows goal past) (s : PodSnapshot) :
    (w.absorb s).1.Knows goal (past ++ w.recordedOf (.ok s)) ∧
      HandsOut goal past (w.recordedOf (.ok s)) (w.absorb s).2 := by
  obtain ⟨rfl, hknown⟩ := h
  have hout := handsOut_scan w.goal past s.observations
  have hrecorded : (w.absorb s).1.known = record ∅ (past ++ w.recordedOf (.ok s)) := by
    rw [record_append, ← hknown]
    exact scan_known_eq w.goal w.known s.observations
  rw [← hknown] at hout
  exact ⟨⟨rfl, hrecorded⟩, hout⟩

theorem Knows.look (h : w.Knows goal past) {answer : Except ClusterError PodSnapshot}
    (hlook : w.Look polls answer watch outcome) :
    watch.Knows goal (past ++ w.recordedOf answer) ∧
      HandsOut goal past (w.recordedOf answer) (outcome.bind Except.toOption) := by
  cases hlook with
  | refused e =>
    rw [recordedOf, List.append_nil]
    exact ⟨h, .nil goal past⟩
  | @handed s o hs =>
    obtain ⟨hknows, hout⟩ := h.absorb s
    rw [hs] at hout
    exact ⟨hknows, hout⟩
  | @nothingLeft s hs | @podFinished s hs | @limitReached s hs | @again s hs =>
    obtain ⟨hknows, hout⟩ := h.absorb s
    rw [hs] at hout
    exact ⟨hknows, hout⟩

theorem Knows.awaitFrom (platform : Platform σ) (interval : Nat) (left : Nat)
    (h : w.Knows goal past) (world : World σ) :
    (awaitFrom platform interval left polls w world).2.1.Knows goal
        (past ++ recordedFrom platform interval left polls w world) ∧
      HandsOut goal past (recordedFrom platform interval left polls w world)
        (awaitFrom platform interval left polls w world).1.toOption := by
  induction left generalizing past polls w world with
  | zero =>
    rw [recordedFrom, List.append_nil]
    exact ⟨h, .nil goal past⟩
  | succ left ih =>
    obtain ⟨watch, outcome, warnings, ha⟩ : ∃ watch outcome warnings, w.answer polls
        ((world.pause (platform.delay .fetch w.pod world.state)).fetch platform w.pod).1 =
          (watch, outcome, warnings) := ⟨_, _, _, rfl⟩
    obtain ⟨hknows, hout⟩ := h.look (look_of_answer ha)
    cases outcome with
    | some outcome =>
      simp only [Watch.awaitFrom, recordedFrom, ha]
      exact ⟨hknows, hout⟩
    | none =>
      simp only [Watch.awaitFrom, recordedFrom, ha]
      obtain ⟨hknows', hout'⟩ := ih hknows _
      rw [← List.append_assoc]
      exact ⟨hknows', hout.append hout'⟩

theorem Knows.await (platform : Platform σ) (interval : Nat) (h : w.Knows goal past)
    (world : World σ) :
    (w.await platform interval world).2.1.Knows goal
        (past ++ w.recordedBy platform interval world) ∧
      HandsOut goal past (w.recordedBy platform interval world)
        (w.await platform interval world).1.toOption := by
  unfold Watch.await recordedBy
  split
  · exact h.awaitFrom platform interval w.limit world
  · rw [List.append_nil]
    exact ⟨h, .nil goal past⟩

/-! ## one wait after the other -/

/-- one of several waits: what it records, how it ends, and the watch after it -/
structure Turn where
  recorded : List Observation
  outcome : Outcome
  after : Watch

/-- Waits for one container after the other.  Between two waits anything may happen to the world. -/
def turns (platform : Platform σ) (interval : Nat) : Watch → List (World σ) → List Turn
  | _, [] => []
  | w, world :: worlds =>
    let (outcome, after, _) := w.await platform interval world
    ⟨w.recordedBy platform interval world, outcome, after⟩ :: turns platform interval after worlds

/-- what some waits record, the oldest first -/
def log (turns : List Turn) : List Observation := turns.flatMap (·.recorded)

theorem Knows.turns (platform : Platform σ) (interval : Nat) (h : w.Knows goal past)
    (worlds : List (World σ)) {earlier later : List Turn} {turn : Turn}
    (hturn : w.turns platform interval worlds = earlier ++ turn :: later) :
    turn.after.Knows goal (past ++ log earlier ++ turn.recorded) ∧
      HandsOut goal (past ++ log earlier) turn.recorded turn.outcome.toOption := by
  induction worlds generalizing w past earlier with
  | nil => simp [Watch.turns] at hturn
  | cons world worlds ih =>
    obtain ⟨hknows, hout⟩ := h.await platform interval world
    rw [Watch.turns] at hturn
    cases earlier with
    | nil =>
      obtain ⟨rfl, -⟩ := List.cons.inj hturn
      rw [log, List.flatMap_nil, List.append_nil]
      exact ⟨hknows, hout⟩
    | cons first earlier =>
      obtain ⟨rfl, hrest⟩ := List.cons.inj hturn
      rw [log, List.flatMap_cons, ← List.append_assoc]
      exact ih hknows hrest

theorem knows_begin (pod : PodRef) (goal : Goal) (limit : Nat) :
    (begin pod goal limit).Knows goal [] := ⟨rfl, rfl⟩

theorem toOption_eq_some_iff {outcome : Outcome} {o : Observation} :
    outcome.toOption = some o ↔ outcome = .ok o := by
  cases outcome <;> simp [Except.toOption]

/-- **A watch hands out the rising edges of what it records**, each by the wait that has recorded
it: the last observation that a wait records is handed out if it is an edge, and no other one is an
edge.  So a container is not handed out again unless it was seen away from the goal in between. -/
theorem handed_out_at_rising_edges (platform : Platform σ) (interval : Nat) (pod : PodRef)
    (goal : Goal) (limit : Nat) (worlds : List (World σ)) {earlier later : List Turn} {turn : Turn}
    (hturn : (begin pod goal limit).turns platform interval worlds = earlier ++ turn :: later) :
    turn.after.known = record ∅ (log (earlier ++ [turn])) ∧
      (∀ o, turn.outcome = .ok o → ∃ before, turn.recorded = before ++ [o]) ∧
      (∀ before o after, turn.recorded = before ++ o :: after →
        (turn.outcome = .ok o ∧ after = [] ↔ Rises goal (log earlier ++ before) o)) ∧
      ∀ first old between o, earlier = first ++ old :: between → turn.outcome = .ok o →
        (∃ o', old.outcome = .ok o' ∧ o'.name = o.name) →
        ∃ x ∈ log between ++ turn.recorded, x.name = o.name ∧ goal.met x = false := by
  have hbegin := knows_begin pod goal limit
  obtain ⟨hknows, hout⟩ := hbegin.turns platform interval worlds hturn
  rw [List.nil_append] at hknows hout
  refine ⟨?_, fun o ho => hout.last o (toOption_eq_some_iff.2 ho), fun before o after hcut => ?_,
    fun first old between o hearlier ho hold => ?_⟩
  · rw [hknows.known, log, log, List.flatMap_append, List.flatMap_singleton]
  · rw [← toOption_eq_some_iff]
    exact hout.rises before o after hcut
  · obtain ⟨o', ho', hname⟩ := hold
    subst hearlier
    -- the wait that has handed out `o'` has recorded it last
    obtain ⟨-, hout'⟩ := hbegin.turns platform interval worlds
      (hturn.trans (List.append_assoc first (old :: between) (turn :: later)))
    obtain ⟨before', hcut'⟩ := hout'.last o' (toOption_eq_some_iff.2 ho')
    have hmet := ((hout'.rises before' o' [] hcut').1 ⟨toOption_eq_some_iff.2 ho', rfl⟩).1
    obtain ⟨before, hcut⟩ := hout.last o (toOption_eq_some_iff.2 ho)
    have hrises := (hout.rises before o [] hcut).1 ⟨toOption_eq_some_iff.2 ho, rfl⟩
    have hlog : log (first ++ old :: between) ++ before =
        (log first ++ before') ++ o' :: (log between ++ before) := by
      simp [log, hcut']
    rw [hlog] at hrises
    obtain ⟨x, hx, hxname, hunmet⟩ := hrises.exists_unmet hname hmet
    refine ⟨x, ?_, hxname, hunmet⟩
    rw [hcut, ← List.append_assoc]
    exact List.mem_append_left [o] hx

/-- a container that is ready at every second look, and another one that never is -/
theorem handed_out_of_flapping :
    let platform : Platform Bool :=
      { create := fun _ ready => (.ok none, ready)
        fetch := fun _ ready =>
          (.ok { phase := .running, statuses := [.running "a" ready, .running "b" false] }, !ready)
        openLogs := fun _ _ ready => (.stream (.ofReads []), ready)
        delete := fun _ ready => (.ok (), ready)
        delay := fun _ _ _ => 0 }
    let worlds : List (World Bool) := [{ state := true }, { state := false }]
    let turns := (begin ⟨"ns", "p"⟩ .ready 9).turns platform 0 worlds
    turns.map (·.outcome.toOption.map (·.name)) = [some "a", some "a"] ∧
      turns.map (·.recorded.map fun o => (o.name, o.ready)) =
        [[("a", true)], [("a", false), ("b", false), ("a", true)]] ∧
      ∃ first second, turns = [first, second] ∧ ∃ x ∈ second.recorded, x.ready = false := by
  intro platform worlds turns
  have hnames : turns.map (·.outcome.toOption.map (·.name)) = [some "a", some "a"] := by
    decide +kernel
  refine ⟨hnames, by decide +kernel, ?_⟩
  obtain ⟨first, second, hturns⟩ : ∃ first second, turns = [first, second] := ⟨_, _, rfl⟩
  refine ⟨first, second, hturns, ?_⟩
  rw [hturns] at hnames
  obtain ⟨hfirst, hrest⟩ := List.cons.inj hnames
  have hsecond := (List.cons.inj hrest).1
  obtain ⟨o', ho', hname'⟩ := Option.map_eq_some_iff.1 hfirst
  obtain ⟨o, ho, hname⟩ := Option.map_eq_some_iff.1 hsecond
  have hcut : turns = [first] ++ second :: [] := hturns
  obtain ⟨-, -, -, hbetween⟩ :=
    handed_out_at_rising_edges platform 0 ⟨"ns", "p"⟩ .ready 9 worlds hcut
  obtain ⟨x, hx, -, hunmet⟩ := hbetween [] first [] o rfl (toOption_eq_some_iff.1 ho)
    ⟨o', toOption_eq_some_iff.1 ho', hname'.trans hname.symm⟩
  exact ⟨x, hx, hunmet⟩

end Watch

end StepRunner
