import StepRunner.Proofs.Wait.Remaining
import StepRunner.Run.Config

/-!
# The looks of a wait

What a wait does on the platform, whatever this answers: it looks at its pod, with one pause between
two looks and none before the first or after the last, until a look ends it.  All looks but the last
come to nothing, and there are no more of them than the limit says.

* `World.look`, `World.looks`   one look at a pod, and several with a pause between two of them
* `calls_looks`                 they are the only calls that are made
* `Watch.Idle`                  a look that comes to nothing
* `Watch.Ends`                  how a look ends a wait, with all that is then so
* `answer_cases`                a look does one or the other
* `Watch.Waited`                the course of a wait: looks that come to nothing, and one that ends it
* `waited_of_await`             every wait takes this course
* `polls_of_await`              how many looks a wait takes, and which end it
-/

namespace StepRunner

variable {σ : Type}

/-! ## looking at a pod -/

namespace World

/-- one look at a pod: the call takes its time, and then it has its effect -/
def look (platform : Platform σ) (pod : PodRef) (world : World σ) :
    Except ClusterError PodSnapshot × World σ :=
  (world.pause (platform.delay .fetch pod world.state)).fetch platform pod

/-- `n` looks at a pod, with a pause of `interval` between two of them -/
def looks (platform : Platform σ) (interval : Nat) (pod : PodRef) :
    (n : Nat) → World σ → List (Except ClusterError PodSnapshot) × World σ
  | 0, world => ([], world)
  | 1, world =>
    let (answer, world) := world.look platform pod
    ([answer], world)
  | n + 2, world =>
    let (answer, world) := world.look platform pod
    let (answers, world) := looks platform interval pod (n + 1) (world.pause interval)
    (answer :: answers, world)

theorem calls_look (platform : Platform σ) (pod : PodRef) (world : World σ) :
    ∃ call, (world.look platform pod).2.calls = call :: world.calls ∧ call.pod = pod ∧
      ∃ ok, call.event = .fetched ok :=
  ⟨_, rfl, rfl, _, rfl⟩

theorem calls_looks (platform : Platform σ) (interval : Nat) (pod : PodRef) (n : Nat)
    (world : World σ) :
    ∃ made, (world.looks platform interval pod n).2.calls = made ++ world.calls ∧
      made.length = n ∧ ∀ call ∈ made, call.pod = pod ∧ ∃ ok, call.event = .fetched ok := by
  induction n generalizing world with
  | zero => exact ⟨[], rfl, rfl, fun _ h => absurd h List.not_mem_nil⟩
  | succ n ih =>
    obtain ⟨call, hcalls, hcall⟩ := world.calls_look platform pod
    cases n with
    | zero => exact ⟨[call], hcalls, rfl, List.forall_mem_singleton.2 hcall⟩
    | succ n =>
      obtain ⟨made, hmade, hlength, hall⟩ := ih ((world.look platform pod).2.pause interval)
      refine ⟨made ++ [call], ?_, ?_, ?_⟩
      · show ((((world.look platform pod).2.pause interval).looks platform interval pod
          (n + 1)).2).calls = _
        rw [hmade, List.append_assoc]
        exact congrArg (made ++ ·) hcalls
      · rw [List.length_append, hlength]
        rfl
      · intro x hx
        obtain hx | hx := List.mem_append.1 hx
        · exact hall x hx
        · rw [List.mem_singleton.1 hx]
          exact hcall

@[simp] theorem warn_nil (world : World σ) : world.warn [] = world := by simp [warn]

end World

namespace Watch

/-! ## what a look comes to -/

/-- a look that comes to nothing: no container is handed out, one is left, and the pod has not come
to its end -/
structure Idle (w : Watch) (s : PodSnapshot) : Prop where
  found : (w.absorb s).2 = none
  remaining : (w.absorb s).1.remaining = true
  phase : s.phase.isTerminal = false

/-- How a look ends a wait, `polls` looks having come to nothing before.  Of several reasons the
first in this order counts. -/
inductive Ends (w : Watch) (polls : Nat) :
    Except ClusterError PodSnapshot → Watch → Outcome → Prop where
  | refused (e : ClusterError) : Ends w polls (.error e) w (.error (.fetchPod w.pod.text e))
  | handed {s : PodSnapshot} {o : Observation} (hs : (w.absorb s).2 = some o) :
      Ends w polls (.ok s) (w.absorb s).1 (.ok o)
  | nothingLeft {s : PodSnapshot} (hs : (w.absorb s).2 = none)
      (hr : (w.absorb s).1.remaining = false) :
      Ends w polls (.ok s) (w.absorb s).1 (.error (.nothingToWaitFor w.pod.text))
  | podFinished {s : PodSnapshot} (hs : (w.absorb s).2 = none)
      (hr : (w.absorb s).1.remaining = true) (hp : s.phase.isTerminal = true) :
      Ends w polls (.ok s) (w.absorb s).1
        (.error (.podFinished w.pod.text s.phase w.goal (w.absorb s).1.pending.length))
  | limitReached {s : PodSnapshot} (h : w.Idle s) (hl : w.limit ≤ polls + 1) :
      Ends w polls (.ok s) (w.absorb s).1
        (.error (.pollLimitExceeded w.pod.text w.goal (polls + 1)))

theorem Ends.of_error {w after : Watch} {polls : Nat} {e : ClusterError} {outcome : Outcome}
    (h : w.Ends polls (.error e) after outcome) :
    outcome = .error (.fetchPod w.pod.text e) := by
  cases h
  rfl

theorem Ends.of_limit {w after : Watch} {polls n : Nat} {pod : String} {goal : Goal}
    {answer : Except ClusterError PodSnapshot}
    (h : w.Ends polls answer after (.error (.pollLimitExceeded pod goal n))) :
    ∃ s, answer = .ok s ∧ w.Idle s ∧ n = polls + 1 ∧ w.limit ≤ polls + 1 := by
  cases h with
  | limitReached hidle hl => exact ⟨_, rfl, hidle, rfl, hl⟩

theorem answer_cases (w : Watch) (polls : Nat) (answer : Except ClusterError PodSnapshot) :
    (∃ after outcome warnings, w.answer polls answer = (after, some outcome, warnings) ∧
        w.Ends polls answer after outcome) ∨
      ∃ s, answer = .ok s ∧ w.Idle s ∧ polls + 1 < w.limit ∧
        w.answer polls answer = ((w.absorb s).1, none, []) := by
  cases answer with
  | error e => exact .inl ⟨_, _, _, rfl, .refused e⟩
  | ok s =>
    obtain ⟨after, found, hs⟩ : ∃ after found, w.absorb s = (after, found) := ⟨_, _, rfl⟩
    have hafter : (w.absorb s).1 = after := congrArg Prod.fst hs
    have hfound : (w.absorb s).2 = found := congrArg Prod.snd hs
    have hphase : after.phase = s.phase := by
      rw [← hafter]
      rfl
    have hpod : after.pod = w.pod ∧ after.goal = w.goal ∧ after.limit = w.limit := by
      rw [← hafter]
      exact ⟨rfl, rfl, rfl⟩
    obtain ⟨hpod, hgoal, hlimit⟩ := hpod
    cases found with
    | some o =>
      left
      refine ⟨after, .ok o, [], by simp only [answer, hs], ?_⟩
      rw [← hafter]
      exact .handed hfound
    | none =>
      cases hr : after.remaining with
      | false =>
        left
        refine ⟨after, .error (.nothingToWaitFor w.pod.text), [],
          by simp [answer, hs, hr, nothingLeft, hpod], ?_⟩
        rw [← hafter] at hr ⊢
        exact .nothingLeft hfound hr
      | true =>
        cases hp : s.phase.isTerminal with
        | true =>
          left
          refine ⟨after, .error (.podFinished w.pod.text s.phase w.goal after.pending.length), [],
            by simp [answer, hs, hr, hphase, hp, hpod, hgoal], ?_⟩
          rw [← hafter] at hr ⊢
          exact .podFinished hfound hr hp
        | false =>
          have hidle : w.Idle s := ⟨hfound, hafter ▸ hr, hp⟩
          by_cases hl : w.limit ≤ polls + 1
          · left
            refine ⟨after, .error (.pollLimitExceeded w.pod.text w.goal (polls + 1)),
              [.pollLimitExceeded], by
                simp [answer, hs, hr, hphase, hp, hpod, hgoal, hlimit, limitReached, hl], ?_⟩
            rw [← hafter]
            exact .limitReached hidle hl
          · right
            refine ⟨s, rfl, hidle, by omega, ?_⟩
            rw [hafter]
            simp [answer, hs, hr, hphase, hp, hlimit, limitReached, hl]

theorem idle_of_again {w after : Watch} {polls : Nat} {answer : Except ClusterError PodSnapshot}
    {warnings : List Warning} (h : w.answer polls answer = (after, none, warnings)) :
    ∃ s, answer = .ok s ∧ w.Idle s ∧ polls + 1 < w.limit ∧ after = (w.absorb s).1 := by
  obtain ⟨_, _, _, hends, -⟩ | ⟨s, hs, hidle, hlt, hagain⟩ := w.answer_cases polls answer
  · cases h.symm.trans hends
  · cases h.symm.trans hagain
    exact ⟨s, hs, hidle, hlt, rfl⟩

/-! ## the course of a wait -/

/-- the watch after it has taken some snapshots in, one after the other -/
def afterLooks (w : Watch) (shown : List PodSnapshot) : Watch :=
  shown.foldl (fun w s => (w.absorb s).1) w

/-- looks that come to nothing, one after the other -/
def Idles : Watch → List PodSnapshot → Prop
  | _, [] => True
  | w, s :: rest => w.Idle s ∧ Idles (w.absorb s).1 rest

/-- The course of a wait that has taken `polls` looks before: the looks `idle` come to nothing, and
the one that is answered by `last` ends it with `result`. -/
structure Waited (platform : Platform σ) (interval polls : Nat) (w : Watch) (world : World σ)
    (result : Outcome × Watch × World σ) (shown idle : List PodSnapshot)
    (last : Except ClusterError PodSnapshot) : Prop where
  idles : w.Idles idle
  within : polls + idle.length < w.limit
  ends : (w.afterLooks idle).Ends (polls + idle.length) last result.2.1 result.1
  shows : shown = idle ++ last.toOption.toList
  looks : ∃ ended warnings,
    world.looks platform interval w.pod (idle.length + 1) = (idle.map .ok ++ [last], ended) ∧
      result.2.2 = ended.warn warnings

section
variable {platform : Platform σ} {interval polls : Nat} {w : Watch}

theorem idles_concat {idle : List PodSnapshot} {s : PodSnapshot} :
    w.Idles (idle ++ [s]) ↔ w.Idles idle ∧ (w.afterLooks idle).Idle s := by
  induction idle generalizing w with
  | nil => exact ⟨fun h => ⟨trivial, h.1⟩, fun h => ⟨h.2, trivial⟩⟩
  | cons x idle ih =>
    show w.Idle x ∧ (w.absorb x).1.Idles (idle ++ [s]) ↔ _
    rw [ih, ← and_assoc]
    rfl

/-- of looks that come to nothing and the one after them, only the last can be an error -/
theorem eq_last_of_error {idle : List PodSnapshot} {last : Except ClusterError PodSnapshot}
    {before after : List (Except ClusterError PodSnapshot)} {e : ClusterError}
    (h : idle.map .ok ++ [last] = before ++ .error e :: after) : after = [] ∧ last = .error e := by
  induction idle generalizing before with
  | nil =>
    cases before with
    | nil =>
      obtain ⟨rfl, rfl⟩ := List.cons.inj h
      exact ⟨rfl, rfl⟩
    | cons x before => simp at h
  | cons s idle ih =>
    cases before with
    | nil =>
      obtain ⟨hs, -⟩ := List.cons.inj h
      cases hs
    | cons x before => exact ih (List.cons.inj h).2

theorem afterLooks_eq (w : Watch) (shown : List PodSnapshot) :
    (w.afterLooks shown).pod = w.pod ∧ (w.afterLooks shown).goal = w.goal ∧
      (w.afterLooks shown).limit = w.limit := by
  induction shown generalizing w with
  | nil => exact ⟨rfl, rfl, rfl⟩
  | cons s shown ih => exact ih (w.absorb s).1

theorem awaitFrom_of_end (interval : Nat) {world : World σ} {after : Watch} {outcome : Outcome}
    {warnings : List Warning}
    (h : w.answer polls (world.look platform w.pod).1 = (after, some outcome, warnings))
    (left : Nat) :
    awaitFrom platform interval (left + 1) polls w world =
      (outcome, after, (world.look platform w.pod).2.warn warnings) := by
  rw [World.look] at h ⊢
  simp only [awaitFrom, h]

theorem awaitFrom_of_again (interval : Nat) {world : World σ} {s : PodSnapshot}
    (hs : (world.look platform w.pod).1 = .ok s)
    (h : w.answer polls (.ok s) = ((w.absorb s).1, none, [])) (left : Nat) :
    awaitFrom platform interval (left + 1) polls w world =
      awaitFrom platform interval left (polls + 1) (w.absorb s).1
        ((world.look platform w.pod).2.pause interval) := by
  rw [World.look] at hs ⊢
  simp only [awaitFrom, hs, h, World.warn_nil]

theorem waited_of_ends (left : Nat) {after : Watch} {outcome : Outcome} {warnings : List Warning}
    {world : World σ} (hlimit : polls < w.limit)
    (ha : w.answer polls (world.look platform w.pod).1 = (after, some outcome, warnings))
    (hends : w.Ends polls (world.look platform w.pod).1 after outcome) :
    Waited platform interval polls w world (awaitFrom platform interval (left + 1) polls w world)
      (shownFrom platform interval (left + 1) polls w world) []
      (world.look platform w.pod).1 := by
  have hresult := awaitFrom_of_end interval ha left
  have hshown : shownFrom platform interval (left + 1) polls w world =
      (world.look platform w.pod).1.toOption.toList := by
    rw [World.look] at ha ⊢
    simp only [shownFrom, ha]
  refine ⟨trivial, hlimit, ?_, hshown, (world.look platform w.pod).2, warnings, rfl, ?_⟩
  · rw [hresult]
    exact hends
  · rw [hresult]

theorem Waited.cons {left : Nat} {s : PodSnapshot} {world : World σ} {idle : List PodSnapshot}
    {last : Except ClusterError PodSnapshot} (hs : (world.look platform w.pod).1 = .ok s)
    (hidle : w.Idle s) (ha : w.answer polls (.ok s) = ((w.absorb s).1, none, []))
    (h : Waited platform interval (polls + 1) (w.absorb s).1
      ((world.look platform w.pod).2.pause interval)
      (awaitFrom platform interval left (polls + 1) (w.absorb s).1
        ((world.look platform w.pod).2.pause interval))
      (shownFrom platform interval left (polls + 1) (w.absorb s).1
        ((world.look platform w.pod).2.pause interval)) idle last) :
    Waited platform interval polls w world (awaitFrom platform interval (left + 1) polls w world)
      (shownFrom platform interval (left + 1) polls w world) (s :: idle) last := by
  have hresult := awaitFrom_of_again interval hs ha left
  have hshown : shownFrom platform interval (left + 1) polls w world =
      s :: shownFrom platform interval left (polls + 1) (w.absorb s).1
        ((world.look platform w.pod).2.pause interval) := by
    rw [World.look] at hs ⊢
    simp only [shownFrom, hs, ha, World.warn_nil]
    rfl
  have hcount : polls + 1 + idle.length = polls + (s :: idle).length := by
    rw [List.length_cons]
    omega
  obtain ⟨ended, warnings, hlooks, hended⟩ := h.looks
  rw [hresult, hshown]
  refine ⟨⟨hidle, h.idles⟩, hcount ▸ h.within, hcount ▸ h.ends, ?_, ended, warnings, ?_, hended⟩
  · rw [h.shows]
    rfl
  · show ((world.look platform w.pod).1 :: (((world.look platform w.pod).2.pause interval).looks
      platform interval w.pod (idle.length + 1)).1, (((world.look platform w.pod).2.pause
      interval).looks platform interval w.pod (idle.length + 1)).2) = _
    have hlooks' : ((world.look platform w.pod).2.pause interval).looks platform interval w.pod
        (idle.length + 1) = (idle.map .ok ++ [last], ended) := hlooks
    rw [hlooks', hs]
    rfl

theorem waited_of_awaitFrom (left : Nat) (hleft : polls + left + 1 = w.limit) (world : World σ) :
    ∃ idle last, Waited platform interval polls w world
      (awaitFrom platform interval (left + 1) polls w world)
      (shownFrom platform interval (left + 1) polls w world) idle last := by
  induction left generalizing polls w world with
  | zero =>
    obtain ⟨after, outcome, warnings, ha, hends⟩ | ⟨s, -, -, hlimit, -⟩ :=
      w.answer_cases polls (world.look platform w.pod).1
    · exact ⟨[], _, waited_of_ends 0 (by omega) ha hends⟩
    · omega
  | succ left ih =>
    obtain ⟨after, outcome, warnings, ha, hends⟩ | ⟨s, hs, hidle, -, ha⟩ :=
      w.answer_cases polls (world.look platform w.pod).1
    · exact ⟨[], _, waited_of_ends (left + 1) (by omega) ha hends⟩
    · have hleft' : polls + 1 + left + 1 = (w.absorb s).1.limit := by
        show polls + 1 + left + 1 = w.limit
        omega
      obtain ⟨idle, last, h⟩ := ih hleft' ((world.look platform w.pod).2.pause interval)
      rw [hs] at ha
      exact ⟨s :: idle, last, h.cons hs hidle ha⟩

theorem waited_of_await (platform : Platform σ) (interval : Nat) (hr : w.remaining = true)
    (hl : 0 < w.limit) (world : World σ) :
    ∃ idle last, Waited platform interval 0 w world (w.await platform interval world)
      (w.shownBy platform interval world) idle last := by
  obtain ⟨left, hleft⟩ : ∃ left, w.limit = left + 1 := ⟨w.limit - 1, by omega⟩
  rw [await, shownBy, if_pos hr, if_pos hr, hleft]
  exact waited_of_awaitFrom left (by omega) world

theorem exists_waited (platform : Platform σ) (interval : Nat) (w : Watch) (world : World σ) :
    (w.await platform interval world).1 = .error w.nothingLeft ∨
      (∃ pod goal polls,
        (w.await platform interval world).1 = .error (.pollLimitExceeded pod goal polls)) ∨
      ∃ idle last, Waited platform interval 0 w world (w.await platform interval world)
        (w.shownBy platform interval world) idle last := by
  cases hr : w.remaining with
  | false => exact .inl (congrArg Prod.fst (await_of_exhausted hr world))
  | true =>
    by_cases hl : w.limit = 0
    · refine .inr (.inl ⟨w.pod.text, w.goal, 0, ?_⟩)
      rw [await, if_pos hr, hl]
      rfl
    · exact .inr (.inr (waited_of_await platform interval hr (Nat.pos_of_ne_zero hl) world))

theorem Waited.calls {world : World σ} {result : Outcome × Watch × World σ}
    {shown idle : List PodSnapshot} {last : Except ClusterError PodSnapshot}
    (h : Waited platform interval polls w world result shown idle last) :
    ∃ made, result.2.2.calls = made ++ world.calls ∧ made.length = idle.length + 1 ∧
      ∀ call ∈ made, call.pod = w.pod ∧ ∃ ok, call.event = .fetched ok := by
  obtain ⟨ended, warnings, hlooks, hended⟩ := h.looks
  obtain ⟨made, hmade, hlength, hall⟩ :=
    world.calls_looks platform interval w.pod (idle.length + 1)
  refine ⟨made, ?_, hlength, hall⟩
  rw [hended, ← hmade, hlooks]
  rfl

end

/-- **The looks of a wait are bounded**, whatever the platform answers, the watch knows and the
limit is.  A wait does nothing but look at its pod, with one pause between two looks, no more often
than the limit says and at least once.  An answer that is an error ends it, as what it is.  It says
that the limit is exceeded only after as many looks, all of which came to nothing. -/
theorem polls_of_await (platform : Platform σ) (interval : Nat) (config : Config) (state : Watch)
    (world : World σ) :
    let most := max 1 config.maxPolls.toNat
    let w := { state with limit := config.pollLimit }
    let result := w.await platform interval world
    ∃ answers ended warnings,
      world.looks platform interval w.pod answers.length = (answers, ended) ∧
      result.2.2 = ended.warn warnings ∧
      (∃ made, result.2.2.calls = made ++ world.calls ∧ made.length = answers.length ∧
        ∀ call ∈ made, call.pod = w.pod ∧ ∃ ok, call.event = .fetched ok) ∧
      answers.length ≤ most ∧ most < UInt32.size ∧
      (∀ before e after, answers = before ++ .error e :: after →
        after = [] ∧ result.1 = .error (.fetchPod w.pod.text e)) ∧
      ∀ pod goal polls, result.1 = .error (.pollLimitExceeded pod goal polls) →
        polls = most ∧ ∃ shown, shown.length = most ∧ answers = shown.map .ok ∧ w.Idles shown := by
  intro most w result
  have hmost : most < UInt32.size := by
    exact Nat.max_lt.2 ⟨by decide, config.maxPolls.toNat_lt_size⟩
  cases hr : w.remaining with
  | false =>
    have hresult : result = (.error w.nothingLeft, w, world) := await_of_exhausted hr world
    rw [hresult]
    refine ⟨[], world, [], rfl, (world.warn_nil).symm, ⟨[], rfl, rfl, by simp⟩,
      Nat.zero_le most, hmost, by simp, ?_⟩
    intro pod goal polls hlimit
    cases hlimit
  | true =>
    obtain ⟨idle, last, h⟩ :=
      waited_of_await platform interval hr (Nat.le_max_left 1 config.maxPolls.toNat) world
    have hlength : (idle.map Except.ok ++ [last]).length = idle.length + 1 := by simp
    have hends : (w.afterLooks idle).Ends (0 + idle.length) last result.2.1 result.1 := h.ends
    have hwithin : 0 + idle.length < most := h.within
    obtain ⟨hpod, -, hlimit⟩ := w.afterLooks_eq idle
    obtain ⟨ended, warnings, hlooks, hended⟩ := h.looks
    refine ⟨idle.map .ok ++ [last], ended, warnings, ?_, hended, ?_, ?_, hmost, ?_, ?_⟩
    · rw [hlength]
      exact hlooks
    · rw [hlength]
      exact h.calls
    · rw [hlength]
      omega
    · intro before e after hcut
      obtain ⟨rfl, rfl⟩ := eq_last_of_error hcut
      exact ⟨rfl, hpod ▸ hends.of_error⟩
    · intro pod goal polls hexceeded
      rw [hexceeded] at hends
      obtain ⟨s, rfl, hidle, rfl, hreached⟩ := hends.of_limit
      have hpolls : 0 + idle.length + 1 = most := by
        rw [hlimit] at hreached
        have hreached : most ≤ 0 + idle.length + 1 := hreached
        omega
      refine ⟨hpolls, idle ++ [s], ?_, ?_, idles_concat.2 ⟨h.idles, hidle⟩⟩
      · rw [List.length_append, List.length_singleton]
        omega
      · rw [List.map_append]
        rfl

/-- a container that is never ready, in two looks of ten milliseconds with a pause of a hundred -/
theorem polls_of_unready :
    let shown : PodSnapshot := { phase := .running, statuses := [.running "a" false] }
    let platform : Platform Unit :=
      { create := fun _ _ => (.ok none, ())
        fetch := fun _ _ => (.ok shown, ())
        openLogs := fun _ _ _ => (.stream (.ofReads []), ())
        delete := fun _ _ => (.ok (), ())
        delay := fun _ _ _ => 10 }
    let config : Config := { maxPolls := 2 }
    let w := begin ⟨"ns", "p"⟩ .ready config.pollLimit
    let result := w.await platform 100 { state := () }
    let exceeded : Outcome → Option Nat
      | .error (.pollLimitExceeded _ _ polls) => some polls
      | _ => none
    exceeded result.1 = some 2 ∧
      result.2.2.calls.map (·.time) = [120, 10] ∧ result.2.2.now = 120 ∧
      w.Idles [shown, shown] := by
  intro shown platform config w result exceeded
  have hexceeded : exceeded result.1 = some 2 := by decide +kernel
  obtain ⟨pod, goal, hresult⟩ :
      ∃ pod goal, result.1 = .error (.pollLimitExceeded pod goal 2) := by
    dsimp only [exceeded] at hexceeded
    split at hexceeded
    next pod goal polls h =>
      cases hexceeded
      exact ⟨pod, goal, h⟩
    next => cases hexceeded
  obtain ⟨answers, ended, warnings, hlooks, -, -, -, -, -, hlimit⟩ :=
    polls_of_await platform 100 config w { state := () }
  obtain ⟨-, seen, hlength, hanswers, hidle⟩ := hlimit _ _ _ hresult
  have htwo : answers.length = 2 := by
    rw [hanswers, List.length_map]
    exact hlength
  rw [htwo] at hlooks
  have hshown : answers = [shown, shown].map .ok := (congrArg Prod.fst hlooks).symm
  rw [hanswers] at hshown
  obtain rfl : seen = [shown, shown] :=
    (List.map_inj_right fun _ _ hok => Except.ok.inj hok).1 hshown
  exact ⟨hexceeded, by decide +kernel, by decide +kernel, hidle⟩

end Watch

end StepRunner
