import StepRunner.Proofs.Run.Fanout

/-!
# The output of a container

What a run that streams logs opens and sends, under every schedule.  The log stream of a container
is opened as often as the container is handed out, so it is opened twice only where a container has
flapped.  Of a container that has not, the notice and all lines of its stream are sent, in order;
of one that is captured late, the lines; and nothing is sent of any other.

* `Run.Streamed`          a run that streams logs, with its steps so far
* `opened_of_play`        how often a log stream is opened
* `forwarded_of_play`     what is sent of a container
-/

namespace StepRunner

variable {σ : Type}

namespace Run

variable {setup : Setup σ} {step : String} {past : List (RunEvent σ)} {all : List LogTask}
  {r : Run} {e : RunEvent σ} {name : String}

/-! ## one container -/

theorem count_forked (setup : Setup σ) (past : List (RunEvent σ)) (name : String) :
    (past.flatMap (·.forked setup)).count name =
      (past.flatMap (·.noticed)).count name + (past.flatMap (·.late setup)).count name :=
  count_flatMap_append _ _ past name

theorem Ledger.openings_of_place (h : Ledger setup step past all) {id : Nat}
    (hid : (past.flatMap (·.forked setup))[id]? = some name)
    (hcount : (past.flatMap (·.forked setup)).count name ≤ 1) :
    (past.flatMap (·.openings setup)).filter (·.1 = name) =
      (stepsOf (some id) past).flatMap (·.openings setup) := by
  refine filter_flatMap_of (fun e he htask o ho => ?_) fun e he htask o ho => ?_
  · obtain ⟨id', hid', hplace⟩ := h.opened e he o ho
    have hsame : e.task = some id := by simpa using htask
    rw [hid'] at hsame
    cases hsame
    rw [hid] at hplace
    cases hplace
    simp
  · obtain ⟨id', hid', hplace⟩ := h.opened e he o ho
    rw [decide_eq_false_iff_not] at htask ⊢
    rintro rfl
    rw [index_eq_of_count_le_one hcount hid hplace] at htask
    exact htask hid'

theorem Ledger.openings_eq_nil (h : Ledger setup step past all)
    (hname : name ∉ past.flatMap (·.forked setup)) :
    (past.flatMap (·.openings setup)).filter (·.1 = name) = [] := by
  rw [List.filter_eq_nil_iff]
  intro o ho heq
  obtain ⟨e, he, ho⟩ := List.mem_flatMap.1 ho
  obtain ⟨id, -, hplace⟩ := h.opened e he o ho
  have heq : o.1 = name := by simpa using heq
  rw [heq] at hplace
  exact hname (List.mem_of_getElem? hplace)

theorem about_notices (step name : String) (names : List String) :
    about name (names.map (.containerReady step)) =
      List.replicate (names.count name) (.containerReady step name) := by
  induction names with
  | nil => rfl
  | cons n names ih =>
    rw [List.map_cons, ← List.singleton_append, about_append, ih, List.count_cons]
    have hcontainer : (LogLine.containerReady step n).container = n := rfl
    by_cases h : n = name
    · rw [about_eq_self (List.forall_mem_singleton.2 (hcontainer.trans h)),
        if_pos (by simpa using h), h]
      exact List.replicate_succ.symm
    · rw [about_eq_nil (List.forall_mem_singleton.2 h), if_neg (by simpa using h)]
      rfl

/-! ## a run that streams logs -/

structure Streamed (setup : Setup σ) (step : String) (past : List (RunEvent σ)) (r : Run) :
    Prop where
  named : r.step.name = step
  roster : Roster setup past r
  tasks : ∃ all, Staff setup past all r ∧ Ledger setup step past all

theorem streamed_begin {spec : PodSpec} (hp : r.phase = beginStreaming setup spec)
    (hs : r.started = 0) (ht : r.tasks = []) : Streamed setup r.step.name [] r :=
  ⟨rfl, roster_begin hp, [], staff_begin hs ht, ledger_begin setup r.step.name⟩

theorem Streamed.event (h : Streamed setup step past e.before) (hv : e.Valid setup) :
    Streamed setup step (past ++ [e]) e.after := by
  obtain ⟨rfl, hroster, all, hstaff, hledger⟩ := h
  have hroster' := hroster.event hv
  unfold RunEvent.Valid at hv
  split at hv
  next htask =>
    obtain ⟨new, hforks⟩ := forks_of_transition (transition_of_act hv)
    exact ⟨by rw [hforks.step], hroster', all ++ new, hstaff.fork htask hforks,
      hledger.fork hstaff htask hforks⟩
  next id htask =>
    obtain ⟨t, result, hfind, ht, hleft, hafter⟩ := transition_of_actTask hv
    have hmem := List.mem_of_find?_eq_some hfind
    have hid : t.id = id := by simpa using List.find?_some hfind
    subst hid
    exact ⟨by rw [hafter], hroster', putTask result.task all,
      hstaff.advance htask hmem ht hleft hafter,
      hledger.advance hstaff htask hmem ht hleft (by rw [hafter])⟩

theorem Streamed.count_forked_le (h : Streamed setup step past r) :
    (past.flatMap (·.forked setup)).count name ≤
      max 1 ((past.flatMap (·.handed)).count name) := by
  have hnoticed := h.roster.handing.noticed_prefix.sublist.count_le name
  have hlate := List.nodup_iff_count.1 h.roster.late name
  rw [count_forked]
  by_cases hname : name ∈ past.flatMap (·.late setup)
  · have hzero := List.count_eq_zero.2 (h.roster.apart name hname)
    omega
  · have hzero := List.count_eq_zero.2 hname
    omega

theorem Streamed.complete (h : Streamed setup step past r) (hend : r.streamed? = none)
    (hunc : ∀ e ∈ past, e.Uncancelled) :
    past.flatMap (·.handed) = past.flatMap (·.noticed) ∧
      ∃ all, Staff setup past all r ∧ Ledger setup step past all ∧
        ∀ t ∈ all, t.isOver = true := by
  obtain ⟨-, hroster, all, hstaff, hledger⟩ := h
  refine ⟨?_, all, hstaff, hledger, fun t ht => ?_⟩
  · cases hroster.handing with
    | streaming hp => simp [streamed?, hp] at hend
    | announcing hp => simp [streamed?, hp] at hend
    | joining hp => simp [streamed?, hp] at hend
    | left _ _ hall => exact hall hunc
  · obtain hlive | hover := hstaff.gone hunc t ht
    · rw [hstaff.idle hend] at hlive
      cases hlive
    · exact hover

theorem exists_story_of_count {all : List LogTask} (hstaff : Staff setup past all r)
    (hledger : Ledger setup step past all) (hname : name ∈ past.flatMap (·.forked setup))
    (hcount : (past.flatMap (·.forked setup)).count name ≤ 1) :
    ∃ t ∈ all, t.container = name ∧ t.Story setup (stepsOf (some t.id) past) ∧
      (past.flatMap (·.openings setup)).filter (·.1 = name) =
        (stepsOf (some t.id) past).flatMap (·.openings setup) ∧
      about name (past.flatMap (·.sent)) =
        about name ((stepsOf none past).flatMap (·.sent)) ++
          (stepsOf (some t.id) past).flatMap (·.sent) := by
  rw [← hstaff.names] at hname
  obtain ⟨t, ht, rfl⟩ := List.mem_map.1 hname
  have hplace := hstaff.getElem?_forked ht
  exact ⟨t, ht, rfl, hstaff.story t ht, hledger.openings_of_place hplace hcount,
    hledger.order t.id t.container hplace hcount⟩

theorem Streamed.output_prefix (h : Streamed setup step past r)
    (honce : (past.flatMap (·.handed)).count name ≤ 1) :
    (about name (past.flatMap (·.sent))).filter (·.kind = .output) <+:
      (((past.flatMap (·.openings setup)).filter (·.1 = name)).flatMap
        (·.2.lines setup.config.sanitize)).map (.output step name) := by
  have hcount : (past.flatMap (·.forked setup)).count name ≤ 1 :=
    Nat.le_trans h.count_forked_le (by omega)
  obtain ⟨rfl, -, all, hstaff, hledger⟩ := h
  by_cases hname : name ∈ past.flatMap (·.forked setup)
  · obtain ⟨t, ht, hcontainer, hstory, hopenings, hsent⟩ :=
      exists_story_of_count hstaff hledger hname hcount
    have hown : (about name ((stepsOf none past).flatMap (·.sent))).filter (·.kind = .output) =
        [] := by
      rw [List.filter_eq_nil_iff]
      intro line hline
      simp [hledger.kinds line (List.mem_filter.1 hline).1]
    have hout : ((stepsOf (some t.id) past).flatMap (·.sent)).filter (·.kind = .output) =
        (stepsOf (some t.id) past).flatMap (·.sent) := by
      rw [List.filter_eq_self]
      intro line hline
      obtain ⟨e, he, hline⟩ := List.mem_flatMap.1 hline
      have htask : e.task = some t.id := by simpa [stepsOf] using (List.mem_filter.1 he).2
      have hkind := hledger.outputs e (List.mem_filter.1 he).1 (by simp [htask])
      simp [hkind line hline]
    rw [hopenings, hsent, List.filter_append, hown, hout, List.nil_append, ← hstaff.step t ht,
      ← hcontainer]
    exact hstory.prefix_lines
  · rw [hledger.silent name hname]
    exact List.nil_prefix

theorem Streamed.opened_le (h : Streamed setup step past r) :
    (past.flatMap (·.openings setup)).countP (·.1 = name) ≤
      max 1 ((past.flatMap (·.handed)).count name) := by
  refine Nat.le_trans ?_ h.count_forked_le
  obtain ⟨-, -, all, -, hledger⟩ := h
  have htally := hledger.tally name
  omega

theorem Streamed.opened_eq (h : Streamed setup step past r) (hend : r.streamed? = none)
    (hunc : ∀ e ∈ past, e.Uncancelled) :
    (past.flatMap (·.openings setup)).countP (·.1 = name) =
      (past.flatMap (·.handed)).count name + (past.flatMap (·.late setup)).count name := by
  obtain ⟨hnoticed, all, -, hledger, hover⟩ := h.complete hend hunc
  have hnone : all.countP (fun t => t.container = name && t.isOpening) = 0 := by
    rw [List.countP_eq_zero]
    intro t ht
    simp [LogTask.isOpening_of_isOver (hover t ht)]
  have htally := hledger.tally name
  rw [hnone, Nat.add_zero, count_forked] at htally
  rw [htally, hnoticed]

/-- **What was sent of a container that has one log task** when the streaming of logs is over, its
notice first if there was one. -/
theorem Streamed.sent_of_count (h : Streamed setup step past r) (hend : r.streamed? = none)
    (hunc : ∀ e ∈ past, e.Uncancelled) (hopen : ∀ e ∈ past, e.seen.channel.isOpen = true)
    (hcount : (past.flatMap (·.forked setup)).count name = 1) :
    ∃ opening, (past.flatMap (·.openings setup)).filter (·.1 = name) = [(name, opening)] ∧
      about name (past.flatMap (·.sent)) =
        List.replicate ((past.flatMap (·.handed)).count name) (.containerReady step name) ++
          (opening.lines setup.config.sanitize).map (.output step name) := by
  obtain ⟨hnoticed, all, hstaff, hledger, hover⟩ := h.complete hend hunc
  have hname : name ∈ past.flatMap (·.forked setup) :=
    List.count_pos_iff.1 (by rw [hcount]; exact Nat.one_pos)
  obtain ⟨t, ht, rfl, hstory, hopenings, hsent⟩ :=
    exists_story_of_count hstaff hledger hname (Nat.le_of_eq hcount)
  obtain ⟨opening, hopened, hlines⟩ := hstory.of_isOver (hover t ht) fun e he =>
    hopen e (List.mem_filter.1 he).1
  have hstep : t.step = step := (hstaff.step t ht).trans h.named
  refine ⟨opening, hopenings.trans hopened, ?_⟩
  rw [hsent, hledger.notices hopen, about_notices, hlines, hnoticed, hstep]

theorem Streamed.sent_of_handed (h : Streamed setup step past r) (hend : r.streamed? = none)
    (hunc : ∀ e ∈ past, e.Uncancelled) (hopen : ∀ e ∈ past, e.seen.channel.isOpen = true)
    (hname : name ∈ past.flatMap (·.handed))
    (hflaps : ¬ Flaps (past.flatMap (·.observed setup)) name) :
    ∃ opening, (past.flatMap (·.openings setup)).filter (·.1 = name) = [(name, opening)] ∧
      about name (past.flatMap (·.sent)) = .containerReady step name ::
        (opening.lines setup.config.sanitize).map (.output step name) := by
  have hone : (past.flatMap (·.handed)).count name = 1 :=
    Nat.le_antisymm (h.roster.once name hflaps) (List.count_pos_iff.2 hname)
  have hzero : (past.flatMap (·.late setup)).count name = 0 :=
    List.count_eq_zero.2 fun hlate => h.roster.apart name hlate hname
  have hcount : (past.flatMap (·.forked setup)).count name = 1 := by
    rw [count_forked, ← (h.complete hend hunc).1, hone, hzero]
  obtain ⟨opening, hopened, hsent⟩ := h.sent_of_count hend hunc hopen hcount
  rw [hone] at hsent
  exact ⟨opening, hopened, hsent⟩

theorem Streamed.sent_of_late (h : Streamed setup step past r) (hend : r.streamed? = none)
    (hunc : ∀ e ∈ past, e.Uncancelled) (hopen : ∀ e ∈ past, e.seen.channel.isOpen = true)
    (hname : name ∈ past.flatMap (·.late setup)) :
    name ∉ past.flatMap (·.handed) ∧
      ∃ opening, (past.flatMap (·.openings setup)).filter (·.1 = name) = [(name, opening)] ∧
        about name (past.flatMap (·.sent)) =
          (opening.lines setup.config.sanitize).map (.output step name) := by
  have hno : name ∉ past.flatMap (·.handed) := h.roster.apart name hname
  have hzero : (past.flatMap (·.handed)).count name = 0 := List.count_eq_zero.2 hno
  have hone : (past.flatMap (·.late setup)).count name = 1 :=
    Nat.le_antisymm (List.nodup_iff_count.1 h.roster.late name) (List.count_pos_iff.2 hname)
  have hcount : (past.flatMap (·.forked setup)).count name = 1 := by
    rw [count_forked, ← (h.complete hend hunc).1, hone, hzero]
  obtain ⟨opening, hopened, hsent⟩ := h.sent_of_count hend hunc hopen hcount
  rw [hzero] at hsent
  exact ⟨hno, opening, hopened, hsent⟩

theorem Streamed.sent_eq_nil (h : Streamed setup step past r)
    (hhanded : name ∉ past.flatMap (·.handed)) (hlate : name ∉ past.flatMap (·.late setup)) :
    (past.flatMap (·.openings setup)).filter (·.1 = name) = [] ∧
      about name (past.flatMap (·.sent)) = [] := by
  have hnoticed : name ∉ past.flatMap (·.noticed) := fun hmem =>
    hhanded (h.roster.handing.noticed_prefix.subset hmem)
  obtain ⟨-, -, all, -, hledger⟩ := h
  have hno : name ∉ past.flatMap (·.forked setup) := by
    rw [← List.count_eq_zero, count_forked, List.count_eq_zero.2 hnoticed,
      List.count_eq_zero.2 hlate]
  exact ⟨hledger.openings_eq_nil hno, hledger.silent name hno⟩

end Run

namespace Crew

variable {setup : Setup σ} {c : Crew σ} {i : Nat} {r : Run} {spec : PodSpec}

theorem streamed_of_play (hr : c.runs[i]? = some r)
    (hp : r.phase = Run.beginStreaming setup spec) (hs : r.started = 0) (ht : r.tasks = [])
    (moves : List Move) :
    ∃ r', (c.play setup moves).runs[i]? = some r' ∧
      r'.Streamed setup r.step.name (c.events setup i moves) :=
  play_induction (Q := Run.Streamed setup r.step.name) (fun _ _ h hv => h.event hv) moves hr
    (Run.streamed_begin hp hs ht)

/-- **How often the log stream of a container is opened.**  At most once, or as often as the
container was handed out; so at most once, with no line sent twice, if it was not handed out again.
This is so of a container that has not flapped.  Where the streaming of logs has come to its end, it
is the only case. -/
theorem opened_of_play (hr : c.runs[i]? = some r)
    (hp : r.phase = Run.beginStreaming setup spec) (hs : r.started = 0) (ht : r.tasks = [])
    (moves : List Move) :
    let events := c.events setup i moves
    let openings := events.flatMap (·.openings setup)
    let opened (name : String) := openings.countP (·.1 = name)
    let handed (name : String) := (events.flatMap (·.handed)).count name
    (∀ name, opened name ≤ max 1 (handed name)) ∧
      (∀ name, handed name ≤ 1 →
        (Run.about name (events.flatMap (·.sent))).filter (·.kind = .output) <+:
          ((openings.filter (·.1 = name)).flatMap (·.2.lines setup.config.sanitize)).map
            (.output r.step.name name)) ∧
      (∀ name, ¬ Flaps (events.flatMap (·.observed setup)) name → handed name ≤ 1) ∧
      ((c.play setup moves).runs[i]?.bind (·.streamed?) = none → (∀ e ∈ events, e.Uncancelled) →
        ∀ name, opened name ≤ 1 ↔ handed name ≤ 1) := by
  intro events openings opened handed
  obtain ⟨r', hr', h⟩ := streamed_of_play hr hp hs ht moves
  refine ⟨fun name => h.opened_le, fun name => h.output_prefix, h.roster.once,
    fun hend hunc name => ⟨fun hle => ?_, fun hle => ?_⟩⟩
  · rw [hr'] at hend
    have hopened : opened name = handed name + _ := h.opened_eq hend hunc
    omega
  · exact Nat.le_trans h.opened_le (Nat.max_le.2 ⟨Nat.le_refl 1, hle⟩)

/-- a container that is ready, then not, then ready again: its log stream is opened twice, and its
line is sent twice -/
theorem opened_of_flapping :
    let platform : Platform (List PodSnapshot) :=
      { replay with
          openLogs := fun _ _ shown => (.stream (.ofReads [.data [0x68, 0x69, 0x0A]]), shown) }
    let setup : Setup (List PodSnapshot) := ⟨platform, {}, fun _ => .panicked⟩
    let spec : PodSpec := { name := "p", namespaceName := "ns", containers := [] }
    let look (a b : Bool) : PodSnapshot :=
      { phase := .running, statuses := [.running "a" a, .running "b" b] }
    let r : Run :=
      { step := { name := "s", image := "" }, extent := .logs
        phase := Run.beginStreaming setup spec }
    let shown := [look true false, look false false, look true false, look true true]
    let c := ofRuns [r] { state := shown, channel := { room := 9 } } none
    let run (times : Nat) : List Move := List.replicate times (.act (.run 0))
    let tasks : List Move := [0, 1, 2].flatMap fun id => List.replicate 5 (.act (.logTask 0 id))
    let moves := run 5 ++ [.tick] ++ run 6 ++ tasks ++ run 4
    let events := c.events setup 0 moves
    (events.flatMap (·.openings setup)).map (·.1) = ["a", "a", "b"] ∧
      (Run.about "a" (events.flatMap (·.sent))).filter (·.kind = .output) =
        [.output "s" "a" "hi", .output "s" "a" "hi"] ∧
      Flaps (events.flatMap (·.observed setup)) "a" ∧
      ¬ (events.flatMap (·.openings setup)).countP (·.1 = "a") ≤ 1 := by
  intro platform setup spec look r shown c run tasks moves events
  have hhanded : (events.flatMap (·.handed)).count "a" = 2 := by decide +kernel
  have hend : ((c.play setup moves).runs[0]?.bind (·.streamed?)).isNone = true := by decide +kernel
  have hunc : events.all (fun e => !e.seen.cancelled) = true := by decide +kernel
  obtain ⟨-, -, honce, hiff⟩ := opened_of_play (c := c) (i := 0) rfl rfl rfl rfl moves
  refine ⟨by decide +kernel, by decide +kernel, ?_, fun hopened => ?_⟩
  · refine Classical.byContradiction fun hflaps => ?_
    have hle : (events.flatMap (·.handed)).count "a" ≤ 1 := honce "a" hflaps
    omega
  · have hall : ∀ e ∈ events, e.Uncancelled := fun e he _ => by
      simpa using List.all_eq_true.1 hunc e he
    have hle : (events.flatMap (·.handed)).count "a" ≤ 1 :=
      (hiff (Option.isNone_iff_eq_none.1 hend) hall "a").1 hopened
    omega

/-- **What is sent of a container** when the streaming of logs is over, the token has not fired and
the reader is there: of one that was handed out and has not flapped, its notice and then all lines
of its log stream; of one that was captured late, the lines alone; of any other one, nothing.  All
of it is delivered in the order in which it was sent. -/
theorem forwarded_of_play (hr : c.runs[i]? = some r)
    (hp : r.phase = Run.beginStreaming setup spec) (hs : r.started = 0) (ht : r.tasks = [])
    (hopen : c.world.channel.isOpen = true) (moves : List Move)
    (hend : (c.play setup moves).runs[i]?.bind (·.streamed?) = none)
    (hunc : ∀ e ∈ c.events setup i moves, e.Uncancelled) :
    let events := c.events setup i moves
    let handed := events.flatMap (·.handed)
    let late := events.flatMap (·.late setup)
    let opened (name : String) := (events.flatMap (·.openings setup)).filter (·.1 = name)
    let sent (name : String) := Run.about name (events.flatMap (·.sent))
    let output (name : String) (opening : LogOpening) :=
      (opening.lines setup.config.sanitize).map (.output r.step.name name)
    (∀ name ∈ handed, ¬ Flaps (events.flatMap (·.observed setup)) name →
      ∃ opening, opened name = [(name, opening)] ∧
        sent name = .containerReady r.step.name name :: output name opening) ∧
      (∀ name ∈ late, name ∉ handed ∧
        ∃ opening, opened name = [(name, opening)] ∧ sent name = output name opening) ∧
      (∀ name, name ∉ handed → name ∉ late → opened name = [] ∧ sent name = []) ∧
      ∃ lines, (c.play setup moves).world.channel.delivered =
          c.world.channel.delivered ++ lines ∧ (events.flatMap (·.sent)).Sublist lines := by
  intro events handed late opened sent output
  obtain ⟨r', hr', h⟩ := streamed_of_play hr hp hs ht moves
  rw [hr'] at hend
  have hopen' : ∀ e ∈ events, e.seen.channel.isOpen = true := fun e he =>
    (isOpen_of_mem_events he).trans hopen
  exact ⟨fun name hname hflaps => h.sent_of_handed hend hunc hopen' hname hflaps,
    fun name hname => h.sent_of_late hend hunc hopen' hname,
    fun name hhanded hlate => h.sent_eq_nil hhanded hlate, delivered_play setup i moves c⟩

/-- a container that is handed out, one that is captured late, and one whose opening breaks off -/
theorem forwarded_of_late :
    let platform : Platform (List PodSnapshot) :=
      { replay with openLogs := fun _ container shown =>
          (if container = "c" then .panicked
            else .stream (.ofReads [.data [0x68], .data [0x69, 0x0A]]), shown) }
    let setup : Setup (List PodSnapshot) := ⟨platform, {}, fun _ => .panicked⟩
    let spec : PodSpec := { name := "p", namespaceName := "ns", containers := [] }
    let first : PodSnapshot :=
      { phase := .running
        statuses := [.running "a" true, .running "b" false, .running "c" false] }
    let last : PodSnapshot :=
      { phase := .succeeded
        statuses := [.terminated "a" 0, .terminated "b" 0, .terminated "c" 0] }
    let r : Run :=
      { step := { name := "s", image := "" }, extent := .logs
        phase := Run.beginStreaming setup spec }
    let c := ofRuns [r] { state := [first, last], channel := { room := 9 } } none
    let run (times : Nat) : List Move := List.replicate times (.act (.run 0))
    let tasks : List Move :=
      (List.replicate 5 [2, 0, 1]).flatten.map fun id => .act (.logTask 0 id)
    let moves := run 5 ++ tasks ++ run 4
    let events := c.events setup 0 moves
    let sent (name : String) := Run.about name (events.flatMap (·.sent))
    let output (name : String) (opening : LogOpening) :=
      (opening.lines setup.config.sanitize).map (.output "s" name)
    sent "a" = [.containerReady "s" "a", .output "s" "a" "hi"] ∧
      (∃ opening, sent "a" = .containerReady "s" "a" :: output "a" opening) ∧
      sent "b" = [.output "s" "b" "hi"] ∧ (∃ opening, sent "b" = output "b" opening) ∧
      sent "c" = [] ∧ (∃ opening, sent "c" = output "c" opening) ∧ sent "d" = [] := by
  intro platform setup spec first last r c run tasks moves events sent output
  have hend : ((c.play setup moves).runs[0]?.bind (·.streamed?)).isNone = true := by decide +kernel
  have hunc : events.all (fun e => !e.seen.cancelled) = true := by decide +kernel
  obtain ⟨hhanded, hlate, hother, -⟩ :=
    forwarded_of_play (c := c) (i := 0) rfl rfl rfl rfl rfl moves
      (Option.isNone_iff_eq_none.1 hend) fun e he _ => by simpa using List.all_eq_true.1 hunc e he
  have hflaps : ¬ Flaps (events.flatMap (·.observed setup)) "a" := fun hflaps =>
    absurd hflaps.two_le_countP (by decide +kernel)
  obtain ⟨opening, -, hsent⟩ := hhanded "a" (by decide +kernel) hflaps
  obtain ⟨-, opening', -, hsent'⟩ := hlate "b" (by decide +kernel)
  obtain ⟨-, opening'', -, hsent''⟩ := hlate "c" (by decide +kernel)
  obtain ⟨-, hnone⟩ := hother "d" (by decide +kernel) (by decide +kernel)
  exact ⟨by decide +kernel, ⟨opening, hsent⟩, by decide +kernel, ⟨opening', hsent'⟩,
    by decide +kernel, ⟨opening'', hsent''⟩, hnone⟩

end Crew

end StepRunner
