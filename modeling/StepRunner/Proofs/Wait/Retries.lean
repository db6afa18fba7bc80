import StepRunner.Proofs.Wait.Looks

/-!
# Looks that fail

A look that fails ends its wait and does nothing else: a watch is what the snapshots have made of it
that it was shown, one after the other, and knows nothing of the looks in between that failed.  So
who waits again after each such end is told in the end what would have been told without the
failures.  Only the looks are counted anew by each wait, so this holds as long as no wait reaches its
limit where nothing fails.

* `afterWaits_eq_afterLooks`      a watch is what snapshots have made of it
* `Platform.answers`              what a platform answers to several looks
* `Platform.Falters`              it shows what another platform shows, with failures in between
* `Platform.Recovers`             it does not fail for good
* `Watch.waits`                   waits one after the other, whatever they come to
* `Watch.told`                    and what they tell, those left out that a failed look has ended
* `resume_cases`                  one look of two waits, one on each of these platforms
* `told_comparable`               as far as both have told something, they tell the same
* `exists_told`                   and each of them comes to tell something, sooner or later
* `told_of_faltering`             what a failed look leaves, and what comes of waiting again
-/

namespace StepRunner

variable {σ τ : Type}

/-! ## what snapshots have made of a watch -/

namespace Watch

section
variable {platform : Platform σ} {interval polls : Nat} {w watch : Watch} {outcome : Option Outcome}

@[simp] theorem afterLooks_append (w : Watch) (shown more : List PodSnapshot) :
    w.afterLooks (shown ++ more) = (w.afterLooks shown).afterLooks more := List.foldl_append

theorem Look.watch_eq {answer : Except ClusterError PodSnapshot}
    (h : w.Look polls answer watch outcome) : watch = w.afterLooks answer.toOption.toList := by
  cases h <;> rfl

theorem awaitFrom_eq_afterLooks (left : Nat) (world : World σ) :
    (awaitFrom platform interval left polls w world).2.1 =
      w.afterLooks (shownFrom platform interval left polls w world) := by
  induction left generalizing polls w world with
  | zero => rfl
  | succ left ih =>
    obtain ⟨watch, outcome, warnings, ha⟩ : ∃ watch outcome warnings, w.answer polls
        ((world.pause (platform.delay .fetch w.pod world.state)).fetch platform w.pod).1 =
          (watch, outcome, warnings) := ⟨_, _, _, rfl⟩
    have hwatch := (look_of_answer ha).watch_eq
    cases outcome with
    | some outcome =>
      simp only [awaitFrom, shownFrom, ha]
      exact hwatch
    | none =>
      simp only [awaitFrom, shownFrom, ha]
      rw [ih, afterLooks_append, ← hwatch]

theorem await_eq_afterLooks (w : Watch) (world : World σ) :
    (w.await platform interval world).2.1 =
      w.afterLooks (w.shownBy platform interval world) := by
  unfold await shownBy
  split
  · exact awaitFrom_eq_afterLooks w.limit world
  · rfl

/-- **A watch is what snapshots have made of it**, those that its waits were shown. -/
theorem afterWaits_eq_afterLooks (w : Watch) (worlds : List (World σ)) :
    w.afterWaits platform interval worlds =
      w.afterLooks (w.shownIn platform interval worlds) := by
  induction worlds generalizing w with
  | nil => rfl
  | cons world worlds ih =>
    rw [shownIn, afterLooks_append, ← await_eq_afterLooks]
    exact ih _

end

end Watch

/-! ## platforms that fail in between -/

namespace Platform

variable {platform : Platform σ} {steady : Platform τ} {pod : PodRef} {state : σ} {state' : τ}

/-- what a platform answers to `n` looks at a pod, one after the other -/
def answers (platform : Platform σ) (pod : PodRef) :
    (n : Nat) → σ → List (Except ClusterError PodSnapshot)
  | 0, _ => []
  | n + 1, state =>
    (platform.fetch pod state).1 :: answers platform pod n (platform.fetch pod state).2

/-- the snapshots among what it answers to `n` looks -/
def shots (platform : Platform σ) (pod : PodRef) (n : Nat) (state : σ) : List PodSnapshot :=
  (platform.answers pod n state).filterMap Except.toOption

/-- Looks at a pod show what they show on the platform `steady`, which answers none of them with an
error, but any number of looks that fail may come in between. -/
def Falters (platform : Platform σ) (steady : Platform τ) (pod : PodRef) (state : σ)
    (state' : τ) : Prop :=
  ∀ n, steady.answers pod (platform.shots pod n state).length state' =
    (platform.shots pod n state).map .ok

/-- looks at a pod do not fail for good: whatever they have shown, they show more -/
def Recovers (platform : Platform σ) (pod : PodRef) (state : σ) : Prop :=
  ∀ n, ∃ m, n ≤ (platform.shots pod m state).length

theorem shots_of_error {e : ClusterError} (h : (platform.fetch pod state).1 = .error e) (n : Nat) :
    platform.shots pod (n + 1) state = platform.shots pod n (platform.fetch pod state).2 := by
  rw [shots, answers, h]
  rfl

theorem shots_of_ok {s : PodSnapshot} (h : (platform.fetch pod state).1 = .ok s) (n : Nat) :
    platform.shots pod (n + 1) state =
      s :: platform.shots pod n (platform.fetch pod state).2 := by
  rw [shots, answers, h]
  rfl

theorem Falters.of_error (h : platform.Falters steady pod state state') {e : ClusterError}
    (he : (platform.fetch pod state).1 = .error e) :
    platform.Falters steady pod (platform.fetch pod state).2 state' := by
  intro n
  rw [← shots_of_error he]
  exact h (n + 1)

theorem Falters.of_ok (h : platform.Falters steady pod state state') {s : PodSnapshot}
    (hs : (platform.fetch pod state).1 = .ok s) :
    (steady.fetch pod state').1 = .ok s ∧
      platform.Falters steady pod (platform.fetch pod state).2 (steady.fetch pod state').2 := by
  have hmore (n : Nat) := h (n + 1)
  simp only [shots_of_ok hs, List.length_cons, List.map_cons, answers, List.cons.injEq] at hmore
  exact ⟨(hmore 0).1, fun n => (hmore n).2⟩

theorem Recovers.next (h : platform.Recovers pod state) :
    platform.Recovers pod (platform.fetch pod state).2 := by
  intro n
  obtain ⟨m, hm⟩ := h (n + 1)
  cases m with
  | zero => exact absurd hm (Nat.not_succ_le_zero n)
  | succ m =>
    refine ⟨m, ?_⟩
    cases ha : (platform.fetch pod state).1 with
    | error e =>
      rw [shots_of_error ha] at hm
      omega
    | ok s =>
      rw [shots_of_ok ha, List.length_cons] at hm
      omega

/-- a platform that answers looks with what it is given, one after the other, and after that with
`last` for good -/
def replaying (last : PodSnapshot) : Platform (List (Except ClusterError PodSnapshot)) where
  create _ answers := (.ok none, answers)
  fetch _ answers := (answers.headD (.ok last), answers.tail)
  openLogs _ _ answers := (.stream (.ofReads []), answers)
  delete _ answers := (.ok (), answers)
  delay _ _ _ := 0

theorem falters_replaying (last : PodSnapshot) (pod : PodRef)
    (answers : List (Except ClusterError PodSnapshot)) :
    (replaying last).Falters (replaying last) pod answers
      ((answers.filterMap Except.toOption).map .ok) := by
  intro n
  induction n generalizing answers with
  | zero => rfl
  | succ n ih =>
    cases answers with
    | nil =>
      rw [shots_of_ok (s := last) rfl]
      exact congrArg (Except.ok last :: ·) (ih [])
    | cons answer answers =>
      cases answer with
      | error e =>
        rw [shots_of_error (e := e) rfl]
        exact ih answers
      | ok s =>
        rw [shots_of_ok (s := s) rfl]
        exact congrArg (Except.ok s :: ·) (ih answers)

theorem recovers_replaying (last : PodSnapshot) (pod : PodRef)
    (answers : List (Except ClusterError PodSnapshot)) :
    (replaying last).Recovers pod answers := by
  intro n
  refine ⟨answers.length + n, ?_⟩
  induction answers with
  | nil =>
    rw [List.length_nil, Nat.zero_add]
    induction n with
    | zero => exact Nat.zero_le _
    | succ n ih =>
      rw [shots_of_ok (s := last) rfl]
      exact Nat.succ_le_succ ih
  | cons answer answers ih =>
    rw [List.length_cons, Nat.add_right_comm]
    cases answer with
    | error e =>
      rw [shots_of_error (e := e) rfl]
      exact ih
    | ok s =>
      rw [shots_of_ok (s := s) rfl]
      exact Nat.le_succ_of_le ih

end Platform

/-! ## waiting again -/

namespace Watch

/-- whether a wait was ended by a look that failed -/
def isRefused : Outcome → Bool
  | .error (.fetchPod _ _) => true
  | _ => false

/-- whether a wait has reached its limit -/
def isLimit : Outcome → Bool
  | .error (.pollLimitExceeded _ _ _) => true
  | _ => false

/-- what `n` waits come to, one after the other, and the watch after them -/
def waits (platform : Platform σ) (interval : Nat) :
    (n : Nat) → Watch → World σ → List Outcome × Watch
  | 0, w, _ => ([], w)
  | n + 1, w, world =>
    let (outcome, after, world) := w.await platform interval world
    let (outcomes, last) := waits platform interval n after world
    (outcome :: outcomes, last)

/-- what a wait and `n` more of them after it come to -/
def waitsAfter (platform : Platform σ) (interval n : Nat) (result : Outcome × Watch × World σ) :
    List Outcome × Watch :=
  let (outcomes, last) := waits platform interval n result.2.1 result.2.2
  (result.1 :: outcomes, last)

/-- the rest of a wait in which `polls` looks came to nothing and `left` more are allowed -/
def resume (platform : Platform σ) (interval left polls : Nat) (w : Watch) (world : World σ) :
    Outcome × Watch × World σ :=
  if w.remaining then awaitFrom platform interval left polls w world
  else (.error w.nothingLeft, w, world)

/-- what some waits tell: those are left out that a failed look has ended -/
def told (result : List Outcome × Watch) : List Outcome × Watch :=
  (result.1.filter fun o => !isRefused o, result.2)

/-- that fewer looks came to nothing before makes no difference, unless the limit does -/
theorem answer_of_le {w : Watch} {polls polls' : Nat} (hle : polls ≤ polls')
    {answer : Except ClusterError PodSnapshot}
    (hl : ∀ outcome, (w.answer polls' answer).2.1 = some outcome → isLimit outcome = false) :
    w.answer polls answer = w.answer polls' answer := by
  cases answer with
  | error e => rfl
  | ok s =>
    obtain ⟨after, found, hs⟩ : ∃ after found, w.absorb s = (after, found) := ⟨_, _, rfl⟩
    simp only [Watch.answer, hs] at hl ⊢
    cases found with
    | some o => rfl
    | none =>
      by_cases hend : after.remaining = false ∨ after.phase.isTerminal = true
      · obtain hr | hp := hend
        · simp [hr]
        · simp [hp]
      · have hr : after.remaining = true := by simpa using fun hr => hend (.inl hr)
        have hp : after.phase.isTerminal = false := by simpa using fun hp => hend (.inr hp)
        have hopen : ¬ after.limit ≤ polls' + 1 := fun hreached => by
          simp [hr, hp, limitReached, hreached, isLimit] at hl
        have hopen' : ¬ after.limit ≤ polls + 1 := by omega
        simp [hr, hp, limitReached, hopen, hopen']

theorem Look.isRefused_eq {w watch : Watch} {polls : Nat} {s : PodSnapshot} {outcome : Outcome}
    (h : w.Look polls (.ok s) watch (some outcome)) :
    isRefused outcome = false ∧ watch.pod = w.pod := by
  cases h <;> exact ⟨rfl, rfl⟩

section
variable {platform : Platform σ} {steady : Platform τ} {interval interval' : Nat}
  {left polls left' polls' : Nat} {w : Watch} {world : World σ} {world' : World τ}

theorem resume_of_remaining (hr : w.remaining = true) :
    w.resume platform interval left polls world =
      awaitFrom platform interval left polls w world := if_pos hr

theorem resume_of_exhausted (hr : w.remaining = false) :
    w.resume platform interval left polls world = (.error w.nothingLeft, w, world) := by
  rw [resume, hr]
  rfl

theorem waits_succ (n : Nat) (w : Watch) (world : World σ) :
    waits platform interval (n + 1) w world =
      waitsAfter platform interval n (w.resume platform interval w.limit 0 world) := rfl

/-! ## two waits beside each other -/

/-- Two waits of the same watch, both under way, one on a platform that falters and one on a
platform that shows the same; in the latter at least as many looks came to nothing. -/
structure InStep (platform : Platform σ) (steady : Platform τ) (left polls left' polls' : Nat)
    (w : Watch) (world : World σ) (world' : World τ) : Prop where
  falters : platform.Falters steady w.pod world.state world'.state
  within : polls + left = w.limit
  within' : polls' + left' = w.limit
  le : polls ≤ polls'

theorem inStep_begin (h : platform.Falters steady w.pod world.state world'.state) :
    InStep platform steady w.limit 0 w.limit 0 w world world' :=
  ⟨h, Nat.zero_add _, Nat.zero_add _, Nat.le_refl 0⟩

theorem InStep.again (h : InStep platform steady left polls left' polls' w world world')
    {ended : World σ} (hf : platform.Falters steady w.pod ended.state world'.state) :
    InStep platform steady w.limit 0 left' polls' w ended world' :=
  ⟨hf, Nat.zero_add _, h.within', Nat.zero_le polls'⟩

/-- both waits have a look left where the one that has fewer of them has not reached its limit -/
theorem InStep.exists_left (h : InStep platform steady left polls left' polls' w world world')
    (hr : w.remaining = true)
    (hl : isLimit (w.resume steady interval' left' polls' world').1 = false) :
    ∃ more more', left = more + 1 ∧ left' = more' + 1 := by
  have hle := h.le
  have hwithin := h.within
  have hwithin' := h.within'
  have hleft' : left' ≠ 0 := by
    rintro rfl
    rw [resume_of_remaining hr] at hl
    cases hl
  exact ⟨left - 1, left' - 1, by omega, by omega⟩

/-- **One look of each.**  A failure ends the one wait and leaves the other one where it is; else
both end with the same, or both go on. -/
theorem resume_cases (interval : Nat)
    (h : InStep platform steady left polls left' polls' w world world')
    (hl : isLimit (w.resume steady interval' left' polls' world').1 = false) :
    let result := w.resume platform interval left polls world
    let result' := w.resume steady interval' left' polls' world'
    let looked := (platform.fetch w.pod world.state).2
    (∃ e ended, (platform.fetch w.pod world.state).1 = .error e ∧
        result = (.error (.fetchPod w.pod.text e), w, ended) ∧ ended.state = looked) ∨
      (∃ outcome after ended ended', result = (outcome, after, ended) ∧
        result' = (outcome, after, ended') ∧ isRefused outcome = false ∧ after.pod = w.pod ∧
        platform.Falters steady w.pod ended.state ended'.state ∧
        (ended.state = world.state ∨ ended.state = looked)) ∨
      ∃ next more more' paused paused',
        result = next.resume platform interval more (polls + 1) paused ∧
        result' = next.resume steady interval' more' (polls' + 1) paused' ∧
        more' < left' ∧ next.pod = w.pod ∧ paused.state = looked ∧
        InStep platform steady more (polls + 1) more' (polls' + 1) next paused paused' := by
  intro result result' looked
  cases hr : w.remaining with
  | false =>
    exact .inr (.inl ⟨_, w, world, world', resume_of_exhausted hr, resume_of_exhausted hr, rfl, rfl,
      h.falters, .inl rfl⟩)
  | true =>
    have hresult : result = awaitFrom platform interval left polls w world := resume_of_remaining hr
    have hresult' : result' = awaitFrom steady interval' left' polls' w world' :=
      resume_of_remaining hr
    obtain ⟨more, more', rfl, rfl⟩ := h.exists_left hr hl
    cases hs : (world.look platform w.pod).1 with
    | error e =>
      have ha : w.answer polls (world.look platform w.pod).1 =
          (w, some (.error (.fetchPod w.pod.text e)), [.fetchFailed]) := by
        rw [hs]
        rfl
      have hend := awaitFrom_of_end interval ha more
      exact .inl ⟨e, _, hs, hresult.trans hend, rfl⟩
    | ok s =>
      obtain ⟨hs', hfalters⟩ := h.falters.of_ok hs
      replace hs' : (world'.look steady w.pod).1 = .ok s := hs'
      obtain ⟨after, outcome, warnings, ha', -⟩ | ⟨s', hok, hidle, -, ha'⟩ :=
        w.answer_cases polls' (.ok s)
      · have hend' : result' = (outcome, after, (world'.look steady w.pod).2.warn warnings) :=
          hresult'.trans (awaitFrom_of_end interval' (by rw [hs']; exact ha') more')
        have hopen : isLimit outcome = false := by
          have hfirst : result'.1 = outcome := congrArg Prod.fst hend'
          exact hfirst ▸ hl
        have ha : w.answer polls (.ok s) = (after, some outcome, warnings) := by
          rw [answer_of_le h.le, ha']
          intro o ho
          rw [ha'] at ho
          exact Option.some.inj ho ▸ hopen
        obtain ⟨hrefused, hpod⟩ := (look_of_answer ha).isRefused_eq
        have hend := awaitFrom_of_end interval (by rw [hs]; exact ha) more
        exact .inr (.inl ⟨outcome, after, _, _, hresult.trans hend, hend', hrefused, hpod, hfalters,
          .inr rfl⟩)
      · obtain rfl := Except.ok.inj hok
        have ha : w.answer polls (.ok s) = ((w.absorb s).1, none, []) := by
          rw [answer_of_le h.le, ha']
          intro o ho
          rw [ha'] at ho
          cases ho
        have hon := awaitFrom_of_again interval hs ha more
        have hon' := awaitFrom_of_again interval' hs' ha' more'
        rw [← hresult, ← resume_of_remaining hidle.remaining] at hon
        rw [← hresult', ← resume_of_remaining hidle.remaining] at hon'
        refine .inr (.inr ⟨_, more, more', _, _, hon, hon', Nat.lt_succ_self more', rfl, rfl,
          hfalters, ?_, ?_, Nat.succ_le_succ h.le⟩)
        · exact (Nat.succ_add_eq_add_succ polls more).trans h.within
        · exact (Nat.succ_add_eq_add_succ polls' more').trans h.within'

/-! ## what is told -/

theorem told_waitsAfter_of_refused {result : Outcome × Watch × World σ}
    (h : isRefused result.1 = true) (n : Nat) :
    told (waitsAfter platform interval n result) =
      told (waits platform interval n result.2.1 result.2.2) := by
  simp [told, waitsAfter, h]

theorem told_waitsAfter {result : Outcome × Watch × World σ} (h : isRefused result.1 = false)
    (n : Nat) :
    told (waitsAfter platform interval n result) =
      let rest := told (waits platform interval n result.2.1 result.2.2)
      (result.1 :: rest.1, rest.2) := by
  simp [told, waitsAfter, h]

/-- of what is told on the two platforms, one is a beginning of the other -/
theorem told_comparable (n m : Nat)
    (h : InStep platform steady left polls left' polls' w world world')
    (hl : ∀ o ∈ (waitsAfter steady interval' n (w.resume steady interval' left' polls' world')).1,
      isLimit o = false) :
    (told (waitsAfter platform interval m (w.resume platform interval left polls world))).1 <+:
        (waitsAfter steady interval' n (w.resume steady interval' left' polls' world')).1 ∨
      (waitsAfter steady interval' n (w.resume steady interval' left' polls' world')).1 <+:
        (told (waitsAfter platform interval m (w.resume platform interval left polls world))).1 := by
  induction m using Nat.strongRecOn
    generalizing n left polls left' polls' w world world' with
  | ind m ih =>
  induction left' using Nat.strongRecOn generalizing left polls polls' w world world' with
  | ind left' ih' =>
  obtain ⟨e, ended, he, hresult, hstate⟩ |
      ⟨outcome, after, ended, ended', hresult, hresult', hrefused, hpod, hf, -⟩ |
      ⟨next, more, more', paused, paused', hresult, hresult', hlt, -, -, hstep⟩ :=
    resume_cases interval h (hl _ List.mem_cons_self)
  · rw [hresult, told_waitsAfter_of_refused rfl]
    cases m with
    | zero => exact .inl List.nil_prefix
    | succ m => exact ih m (Nat.lt_succ_self m) n (h.again (hstate ▸ h.falters.of_error he)) hl
  · rw [hresult'] at hl ⊢
    rw [hresult, told_waitsAfter hrefused]
    dsimp only [waitsAfter] at hl ⊢
    rw [List.prefix_cons_inj, List.prefix_cons_inj]
    cases m with
    | zero => exact .inl List.nil_prefix
    | succ m =>
      cases n with
      | zero => exact .inr List.nil_prefix
      | succ n =>
        rw [← hpod] at hf
        exact ih m (Nat.lt_succ_self m) n (inStep_begin hf)
          fun o ho => hl o (List.mem_cons_of_mem outcome ho)
  · rw [hresult'] at hl ⊢
    rw [hresult]
    exact ih' more' hlt hstep hl

theorem exists_told_one (interval : Nat)
    (h : InStep platform steady left polls left' polls' w world world')
    (hrec : platform.Recovers w.pod world.state)
    (hl : isLimit (w.resume steady interval' left' polls' world').1 = false) :
    let result' := w.resume steady interval' left' polls' world'
    ∃ failed ended, platform.Falters steady result'.2.1.pod ended.state result'.2.2.state ∧
      platform.Recovers result'.2.1.pod ended.state ∧
      ∀ m, told (waitsAfter platform interval (failed + m)
          (w.resume platform interval left polls world)) =
        let rest := told (waits platform interval m result'.2.1 ended)
        (result'.1 :: rest.1, rest.2) := by
  induction left' using Nat.strongRecOn generalizing left polls polls' w world world' with
  | ind left' ih =>
  obtain ⟨distance, hdistance⟩ := hrec 1
  induction distance generalizing left polls world with
  | zero => exact absurd hdistance (Nat.not_succ_le_zero 0)
  | succ distance ih' =>
    obtain ⟨e, ended, he, hresult, hstate⟩ |
        ⟨outcome, after, ended, ended', hresult, hresult', hrefused, hpod, hf, hstate⟩ |
        ⟨next, more, more', paused, paused', hresult, hresult', hlt, hpod, hstate, hstep⟩ :=
      resume_cases interval h hl
    · rw [Platform.shots_of_error he, ← hstate] at hdistance
      obtain ⟨failed, last, hf, hrec', htold⟩ :=
        ih' (h.again (hstate ▸ h.falters.of_error he)) (hstate ▸ hrec.next) hdistance
      refine ⟨failed + 1, last, hf, hrec', fun m => ?_⟩
      rw [hresult, told_waitsAfter_of_refused rfl, Nat.add_right_comm]
      exact htold m
    · have hrec' : platform.Recovers w.pod ended.state := by
        obtain hsame | hlooked := hstate
        · rw [hsame]
          exact hrec
        · rw [hlooked]
          exact hrec.next
      dsimp only
      rw [hresult', hresult]
      rw [← hpod] at hf hrec'
      refine ⟨0, ended, hf, hrec', fun m => ?_⟩
      rw [Nat.zero_add, told_waitsAfter hrefused]
    · rw [hresult'] at hl
      dsimp only
      rw [hresult', hresult]
      refine ih more' hlt hstep ?_ hl
      rw [hpod, hstate]
      exact hrec.next

theorem exists_told (n : Nat) (hf : platform.Falters steady w.pod world.state world'.state)
    (hrec : platform.Recovers w.pod world.state)
    (hl : ∀ o ∈ (w.waits steady interval' n world').1, isLimit o = false) :
    ∃ m, told (w.waits platform interval m world) = w.waits steady interval' n world' := by
  induction n generalizing w world world' with
  | zero => exact ⟨0, rfl⟩
  | succ n ih =>
    rw [waits_succ] at hl ⊢
    obtain ⟨failed, ended, hf', hrec', htold⟩ :=
      exists_told_one interval (inStep_begin hf) hrec (hl _ List.mem_cons_self)
    obtain ⟨m, hm⟩ := ih hf' hrec' fun o ho => hl o (List.mem_cons_of_mem _ ho)
    refine ⟨failed + m + 1, ?_⟩
    rw [waits_succ, htold m, hm]
    rfl

theorem length_waits (n : Nat) (w : Watch) (world : World σ) :
    (w.waits platform interval n world).1.length = n := by
  induction n generalizing w world with
  | zero => rfl
  | succ n ih => exact congrArg (· + 1) (ih _ _)

theorem told_eq (m : Nat) (hf : platform.Falters steady w.pod world.state world'.state)
    (hl : ∀ o ∈ (w.waits steady interval'
      (told (w.waits platform interval m world)).1.length world').1, isLimit o = false) :
    (told (w.waits platform interval m world)).1 =
      (w.waits steady interval' (told (w.waits platform interval m world)).1.length world').1 := by
  cases m with
  | zero => rfl
  | succ m =>
    cases hn : (told (w.waits platform interval (m + 1) world)).1.length with
    | zero => exact List.length_eq_zero_iff.1 hn
    | succ n =>
      rw [hn, waits_succ] at hl
      have hlength : (told (w.waits platform interval (m + 1) world)).1.length =
          (w.waits steady interval' (n + 1) world').1.length :=
        hn.trans (length_waits (n + 1) w world').symm
      rw [waits_succ] at hlength ⊢
      obtain htold | hclean := told_comparable n m (inStep_begin hf) hl
      · exact htold.eq_of_length hlength
      · exact (hclean.eq_of_length hlength.symm).symm

theorem Ends.of_refused {answer : Except ClusterError PodSnapshot} {after : Watch} {text : String}
    {e : ClusterError} (h : w.Ends polls answer after (.error (.fetchPod text e))) :
    answer = .error e ∧ text = w.pod.text := by
  cases h with
  | refused e => exact ⟨rfl, rfl⟩

/-- the looks of a wait that a failed look has ended: the last one has failed, and the others have
shown what was taken in -/
theorem looks_of_refused {text : String} {e : ClusterError}
    (h : (w.await platform interval world).1 = .error (.fetchPod text e)) :
    (world.looks platform interval w.pod ((w.shownBy platform interval world).length + 1)).1 =
      (w.shownBy platform interval world).map .ok ++ [.error e] ∧ text = w.pod.text := by
  obtain hnone | ⟨_, _, _, hlimit⟩ | ⟨idle, last, hwaited⟩ := w.exists_waited platform interval world
  · cases h.symm.trans hnone
  · cases h.symm.trans hlimit
  · obtain ⟨ended, warnings, hlooks, -⟩ := hwaited.looks
    have hends := hwaited.ends
    rw [h] at hends
    obtain ⟨rfl, htext⟩ := hends.of_refused
    have hidle : w.shownBy platform interval world = idle :=
      hwaited.shows.trans (List.append_nil idle)
    rw [hidle, hlooks, htext, (w.afterLooks_eq idle).1]
    exact ⟨rfl, rfl⟩

end

/-- **A look that fails leaves a watch as it is, and nothing is lost by it.**  A wait that a failed
look has ended leaves the watch as the last snapshot of its life has left it, be it one of this wait
or of an earlier one, or as it was at first.  So where looks fail in between and waiting goes on
each time, the waits tell what they come to where none fails: the same containers in the same order,
and the same ends, as long as no wait reaches its limit there.  As much as is told is right whenever
waiting stops; and if looks do not fail for good, everything is told. -/
theorem told_of_faltering (platform : Platform σ) (steady : Platform τ) (interval interval' : Nat) :
    (∀ (pod : PodRef) (goal : Goal) (limit : Nat) (worlds : List (World σ)) (world : World σ),
      let first := begin pod goal limit
      let w := first.afterWaits platform interval worlds
      let result := w.await platform interval world
      let before := first.shownIn platform interval worlds
      let shown := w.shownBy platform interval world
      ∀ text e, result.1 = .error (.fetchPod text e) →
        (world.looks platform interval pod (shown.length + 1)).1 = shown.map .ok ++ [.error e] ∧
          text = pod.text ∧ (before ++ shown = [] → result.2.1 = first) ∧
          ∀ earlier last, before ++ shown = earlier ++ [last] →
            result.2.1 = ((first.afterLooks earlier).absorb last).1) ∧
      ∀ (w : Watch) (world : World σ) (world' : World τ),
        platform.Falters steady w.pod world.state world'.state →
        let faltering := fun m => told (w.waits platform interval m world)
        let clean := fun n => w.waits steady interval' n world'
        (∀ m, (∀ o ∈ (clean (faltering m).1.length).1, isLimit o = false) →
          (faltering m).1 = (clean (faltering m).1.length).1) ∧
        (platform.Recovers w.pod world.state → ∀ n, (∀ o ∈ (clean n).1, isLimit o = false) →
          ∃ m, faltering m = clean n) := by
  refine ⟨?_, fun w world world' hf => ⟨fun m hl => told_eq m hf hl,
    fun hrec n hl => exists_told n hf hrec hl⟩⟩
  intro pod goal limit worlds world first w result before shown text e hresult
  have hpod : w.pod = pod := ((accounts_begin pod goal limit).afterWaits worlds).pod
  obtain ⟨hlooks, htext⟩ := looks_of_refused hresult
  rw [hpod] at hlooks htext
  have hafter : result.2.1 = first.afterLooks (before ++ shown) := by
    rw [afterLooks_append, ← afterWaits_eq_afterLooks]
    exact await_eq_afterLooks w world
  refine ⟨hlooks, htext, fun hnone => ?_, fun earlier last hlast => ?_⟩
  · rw [hafter, hnone]
    rfl
  · rw [hafter, hlast, afterLooks_append]
    rfl

/-- a pod with two containers, and three looks that fail before both of them are ready -/
theorem told_of_refusals :
    let shot (a b : Bool) : PodSnapshot :=
      { phase := .running, statuses := [.running "a" a, .running "b" b] }
    let refusal : Except ClusterError PodSnapshot := .error (.api "get" "ns/p" "timeout")
    let answers := [.ok (shot false false), refusal, .ok (shot true false), refusal, refusal]
    let platform := Platform.replaying (shot true true)
    let w := begin ⟨"ns", "p"⟩ .ready 9
    let world : World _ := { state := answers }
    let world' : World _ := { state := (answers.filterMap Except.toOption).map .ok }
    let names (outcomes : List Outcome) := outcomes.map fun o => o.toOption.map (·.name)
    names (w.waits platform 100 6 world).1 =
        [none, some "a", none, none, some "b", none] ∧
      (w.await platform 100 world).2.1 = (w.absorb (shot false false)).1 ∧
      names (w.waits platform 100 3 world').1 = [some "a", some "b", none] ∧
      ∃ m, told (w.waits platform 100 m world) = w.waits platform 100 3 world' := by
  intro shot refusal answers platform w world world' names
  obtain ⟨hleft, hagain⟩ := told_of_faltering platform platform 100 100
  refine ⟨by decide +kernel, ?_, by decide +kernel, ?_⟩
  · have hshown : w.shownBy platform 100 world = [shot false false] := by decide +kernel
    have hrefused : isRefused (w.await platform 100 world).1 = true := by decide +kernel
    cases houtcome : (w.await platform 100 world).1 with
    | ok o => simp [houtcome, isRefused] at hrefused
    | error e =>
      rw [houtcome] at hrefused
      unfold isRefused at hrefused
      split at hrefused
      next text e heq =>
        cases heq
        exact (hleft ⟨"ns", "p"⟩ .ready 9 [] world text e houtcome).2.2.2 [] _ hshown
      next => cases hrefused
  · have hf := Platform.falters_replaying (shot true true) w.pod answers
    have hrec := Platform.recovers_replaying (shot true true) w.pod answers
    exact (hagain w world world' hf).2 hrec 3 (by decide +kernel)

end Watch

end StepRunner
