import StepRunner.Proofs.Run.Tidy

/-!
# The life of a pod

What a run does on the platform, whatever the builder makes of its step, whatever the platform
answers and however long that takes, and whenever the token fires: it makes no call; or it fails to
create a pod; or it creates one, looks at it, and deletes it once.

* `CallEvent.isLook`       the calls that leave a pod as it is
* `Lifecycle`              the calls of a run that is over
* `InUse`                  the calls on a pod that is not deleted yet
* `Run.Conforms`           the calls of a run so far
* `lifecycle_among_others` the calls of a run among others are such a life
-/

namespace StepRunner

variable {σ : Type}

/-! ## lives -/

def CallEvent.isLook : CallEvent → Bool
  | .fetched _ | .opened _ => true
  | .created _ | .deleted _ => false

/-- The calls of a run that is over, the oldest first, and the phase it is over in, where `built` is
what building its pod comes to. -/
inductive Lifecycle (built : Built) : List CallRecord → Run.Phase → Prop where
  /-- no call at all, and no success -/
  | untouched {last : Run.Phase} (h : last ≠ .ended none) : Lifecycle built [] last
  /-- a pod that could not be created -/
  | refused {spec : PodSpec} (hb : built = .spec spec) (time : Nat) (e : ClusterError) :
      Lifecycle built [⟨time, spec.ref, .created false⟩]
        (.ended (some (.createPod spec.ref.text e)))
  /-- a pod that was created, looked at and deleted -/
  | whole {spec : PodSpec} (hb : built = .spec spec) (time : Nat) (looks : List CallRecord)
      (hlooks : ∀ c ∈ looks, c.pod = spec.ref ∧ c.event.isLook = true) (time' : Nat) (ok : Bool)
      (outcome : Option RunError) :
      Lifecycle built
        (⟨time, spec.ref, .created true⟩ :: looks ++ [⟨time', spec.ref, .deleted ok⟩])
        (.ended outcome)

def InUse (pod : PodRef) (calls : List CallRecord) : Prop :=
  ∃ time looks, calls = ⟨time, pod, .created true⟩ :: looks ∧
    ∀ c ∈ looks, c.pod = pod ∧ c.event.isLook = true

theorem InUse.created (time : Nat) (pod : PodRef) : InUse pod [⟨time, pod, .created true⟩] :=
  ⟨time, [], rfl, by simp⟩

theorem InUse.look {pod : PodRef} {calls : List CallRecord} (h : InUse pod calls) (time : Nat)
    {event : CallEvent} (hlook : event.isLook = true) :
    InUse pod (calls ++ [⟨time, pod, event⟩]) := by
  obtain ⟨begun, looks, rfl, hlooks⟩ := h
  refine ⟨begun, looks ++ [⟨time, pod, event⟩], by simp, ?_⟩
  intro c hc
  rw [List.mem_append, List.mem_singleton] at hc
  obtain hc | rfl := hc
  · exact hlooks c hc
  · exact ⟨rfl, hlook⟩

theorem InUse.delete {pod : PodRef} {calls : List CallRecord} (h : InUse pod calls) {built : Built}
    {spec : PodSpec} (hb : built = .spec spec) (hpod : pod = spec.ref) (time : Nat) (ok : Bool)
    (outcome : Option RunError) :
    Lifecycle built (calls ++ [⟨time, pod, .deleted ok⟩]) (.ended outcome) := by
  obtain ⟨begun, looks, rfl, hlooks⟩ := h
  subst hpod
  exact .whole hb begun looks hlooks time ok outcome

/-! ## the calls of a run -/

namespace Run

variable {setup : Setup σ} {step : StepDefinition} {calls : List CallRecord} {r r' : Run}
  {w w' : World σ}

/-- the calls that a run in some phase has made -/
def CallsFit (built : Built) (calls : List CallRecord) : Phase → Prop
  | .start => calls = []
  | .creating spec => built = .spec spec ∧ calls = []
  | .streaming spec _ | .announcing spec .. | .joining spec _ | .finishing spec _
  | .deleting spec _ => built = .spec spec ∧ InUse spec.ref calls
  | .ended outcome => Lifecycle built calls (.ended outcome)
  | .panicked => Lifecycle built calls .panicked

theorem callsFit_of_owned? {built : Built} {spec : PodSpec} (h : r.owned? = some spec) :
    CallsFit built calls r.phase ↔ built = .spec spec ∧ InUse spec.ref calls := by
  unfold owned? at h
  split at h <;> simp_all [CallsFit]

/-- a run of `step` and the calls that it has made so far, the oldest first -/
structure Conforms (setup : Setup σ) (step : StepDefinition) (calls : List CallRecord)
    (r : Run) : Prop where
  tidy : r.Tidy
  same : r.step = step
  calls : CallsFit (setup.build step) calls r.phase

theorem Conforms.inUse (h : Conforms setup step calls r) {spec : PodSpec}
    (hs : r.owned? = some spec) : setup.build step = .spec spec ∧ InUse spec.ref calls :=
  (callsFit_of_owned? hs).1 h.calls

theorem Conforms.look (h : Conforms setup step calls r) {spec : PodSpec}
    (hs : r.owned? = some spec) (ht : r'.Tidy) (hstep : r'.step = r.step)
    (hs' : r'.owned? = some spec) (time : Nat) {event : CallEvent} (hlook : event.isLook = true) :
    Conforms setup step (calls ++ [⟨time, spec.ref, event⟩]) r' := by
  obtain ⟨hb, huse⟩ := h.inUse hs
  exact ⟨ht, hstep.trans h.same, (callsFit_of_owned? hs').2 ⟨hb, huse.look time hlook⟩⟩

theorem Conforms.still (h : Conforms setup step calls r) {spec : PodSpec}
    (hs : r.owned? = some spec) (ht : r'.Tidy) (hstep : r'.step = r.step)
    (hs' : r'.owned? = some spec) : Conforms setup step calls r' :=
  ⟨ht, hstep.trans h.same, (callsFit_of_owned? hs').2 (h.inUse hs)⟩

theorem Conforms.transition (h : Conforms setup step calls r) (ht : Transition setup r w r' w') :
    (w'.calls = w.calls ∧ Conforms setup step calls r') ∨
      ∃ call, w'.calls = call :: w.calls ∧ Conforms setup step (calls ++ [call]) r' := by
  obtain ⟨htidy, hstep⟩ := h.tidy.transition ht
  have hstep' := hstep.trans h.same
  have hcalls := h.calls
  cases ht with
  | cancelledEarly hp | buildPanicked hp | buildRefused hp =>
    rw [hp] at hcalls
    obtain rfl : calls = [] := hcalls
    exact .inl ⟨rfl, htidy, hstep', .untouched (by simp)⟩
  | built hp _ hb =>
    rw [hp] at hcalls
    obtain rfl : calls = [] := hcalls
    rw [h.same] at hb
    exact .inl ⟨rfl, htidy, hstep', hb, rfl⟩
  | asked | joinedPanicked | joined => exact .inl ⟨rfl, htidy, hstep', hcalls⟩
  | createRefused hp =>
    rw [hp] at hcalls
    obtain ⟨hb, rfl⟩ := hcalls
    exact .inr ⟨_, rfl, htidy, hstep', .refused hb _ _⟩
  | @created spec identity _ hp =>
    rw [hp] at hcalls
    obtain ⟨hb, rfl⟩ := hcalls
    refine .inr ⟨⟨w.now, spec.ref, .created true⟩, ?_, htidy, hstep', hb, .created _ _⟩
    split <;> rfl
  | cancelled hp => exact .inl ⟨rfl, h.still (owned?_of_inHand? hp) htidy hstep rfl⟩
  | @streamingLook spec s watch outcome _ hp =>
    have hs' := owned?_of_streamed?
      (afterStreaming_spec r spec { s with watch } w.now outcome).1
    exact .inr ⟨_, rfl, h.look (by simp [owned?, hp]) htidy hstep hs' _ rfl⟩
  | streamingAgain hp =>
    exact .inr ⟨_, rfl, h.look (by simp [owned?, hp]) htidy hstep rfl _ rfl⟩
  | @announced spec s container hp =>
    have hs' := owned?_of_streamed? (afterNotice_spec r spec s container w.now).1
    exact .inl ⟨rfl, h.still (by simp [owned?, hp]) htidy hstep hs'⟩
  | @joinedAll spec fatal hp =>
    have hs' := (afterJoining_spec setup r spec fatal w.now h.tidy.whole).1
    refine .inl ⟨?_, h.still (by simp [owned?, hp]) htidy hstep hs'⟩
    split <;> rfl
  | @finishingLook spec f watch outcome _ hp =>
    have hs' := (afterFinishing_spec setup r spec { f with watch } w.now outcome h.tidy.whole).1
    exact .inr ⟨_, rfl, h.look (by simp [owned?, hp]) htidy hstep hs' _ rfl⟩
  | finishingAgain hp =>
    exact .inr ⟨_, rfl, h.look (by simp [owned?, hp]) htidy hstep rfl _ rfl⟩
  | @deleteRefused spec outcome _ _ hp | @deleted spec outcome _ hp =>
    obtain ⟨hb, huse⟩ := h.inUse (show r.owned? = some spec by simp [owned?, hp])
    exact .inr ⟨_, rfl, htidy, hstep', huse.delete hb rfl _ _ _⟩

theorem Conforms.actTask (h : Conforms setup step calls r) {id : Nat}
    (hact : r.actTask setup id w = some (r', w')) :
    (w'.calls = w.calls ∧ Conforms setup step calls r') ∨
      ∃ call, w'.calls = call :: w.calls ∧ Conforms setup step (calls ++ [call]) r' := by
  obtain ⟨htidy, hstep⟩ := h.tidy.actTask hact
  obtain ⟨t, result, hfind, ht, rfl, rfl⟩ := transition_of_actTask hact
  obtain ⟨spec, hs, hpod⟩ := h.tidy.tasks t (List.mem_of_find?_eq_some hfind)
  have howned := owned?_of_streamed? hs
  obtain hmade | hmade := ht.calls.2
  · exact .inl ⟨hmade, h.still howned htidy hstep howned⟩
  · rw [hpod] at hmade
    exact .inr ⟨_, hmade, h.look howned htidy hstep howned _ rfl⟩

/-- a step of a run or of one of its log tasks makes at most one call, and a fitting one -/
theorem Conforms.event {e : RunEvent σ} (h : Conforms setup step calls e.before)
    (hv : e.Valid setup) :
    e.left.calls = e.calls.reverse ++ e.seen.calls ∧
      Conforms setup step (calls ++ e.calls) e.after := by
  have hmade : (e.left.calls = e.seen.calls ∧ Conforms setup step calls e.after) ∨
      ∃ call, e.left.calls = call :: e.seen.calls ∧
        Conforms setup step (calls ++ [call]) e.after := by
    unfold RunEvent.Valid at hv
    split at hv
    · exact h.transition (transition_of_act hv)
    · exact h.actTask hv
  obtain ⟨hcalls, hconf⟩ | ⟨call, hcalls, hconf⟩ := hmade
  · rw [RunEvent.calls_of_append [] hcalls, List.reverse_nil, List.append_nil]
    exact ⟨hcalls, hconf⟩
  · rw [RunEvent.calls_of_append [call] hcalls]
    exact ⟨hcalls, hconf⟩

theorem conforms_begin (setup : Setup σ) (step : StepDefinition) :
    Conforms setup step [] { step } :=
  ⟨.of_nil rfl rfl, rfl, rfl⟩

/-- the calls of a run so far are the first calls of a life, and those of a run that is over are a
life -/
theorem Conforms.lifecycle (h : Conforms setup step calls r) :
    ∃ rest last, Lifecycle (setup.build step) (calls ++ rest) last ∧
      (r.isOver = true → rest = [] ∧ last = r.phase) := by
  have hover (hs : r.owned?.isSome) : r.isOver = false := by
    unfold owned? at hs
    unfold isOver
    split at hs <;> simp_all
  have hcalls := h.calls
  cases howned : r.owned? with
  | some spec =>
    -- the deletion is still to come
    obtain ⟨hb, huse⟩ := h.inUse howned
    refine ⟨[⟨0, spec.ref, .deleted true⟩], .ended none, huse.delete hb rfl 0 true none, ?_⟩
    rw [hover (by simp [howned])]
    simp
  | none =>
    cases hp : r.phase with
    | start =>
      rw [hp] at hcalls
      obtain rfl : calls = [] := hcalls
      exact ⟨[], .panicked, .untouched (by simp), by simp [isOver, hp]⟩
    | creating spec =>
      rw [hp] at hcalls
      obtain ⟨hb, rfl⟩ := hcalls
      exact ⟨_, _, .refused hb 0 (.podNotFound spec.ref), by simp [isOver, hp]⟩
    | ended outcome =>
      rw [hp] at hcalls
      refine ⟨[], .ended outcome, ?_, fun _ => ⟨rfl, rfl⟩⟩
      rw [List.append_nil]
      exact hcalls
    | panicked =>
      rw [hp] at hcalls
      refine ⟨[], .panicked, ?_, fun _ => ⟨rfl, rfl⟩⟩
      rw [List.append_nil]
      exact hcalls
    | streaming | announcing | joining | finishing | deleting => simp [owned?, hp] at howned

theorem not_valid_of_isOver {e : RunEvent σ} (ho : e.before.isOver = true)
    (ht : e.before.tasks = []) : ¬ e.Valid setup := by
  intro hv
  unfold RunEvent.Valid at hv
  split at hv
  · unfold isOver at ho
    split at ho
    next hp => simp [act, hp] at hv
    next hp => simp [act, hp] at hv
    next => cases ho
  · simp [Run.actTask, ht] at hv

end Run

/-! ## all runs -/

namespace Crew

variable {setup : Setup σ} {c : Crew σ} {r : Run}

theorem runs_play_of_isOver (hr : c.runs = [r]) (ho : r.isOver = true) (ht : r.tasks = [])
    (moves : List Move) : (c.play setup moves).runs = [r] := by
  induction moves generalizing c with
  | nil => exact hr
  | cons m moves ih =>
    obtain ⟨hr', -⟩ | ⟨e, hvalid, rfl, -⟩ := move_view_of_sole hr m
    · exact ih hr'
    · exact absurd hvalid (Run.not_valid_of_isOver ho ht)

theorem conforms_play (setup : Setup σ) (step : StepDefinition) (moves : List Move)
    {calls older : List CallRecord} (hr : c.runs = [r]) (h : r.Conforms setup step calls)
    (hcalls : c.world.calls = calls.reverse ++ older) :
    ∃ r' calls', (c.play setup moves).runs = [r'] ∧ r'.Conforms setup step calls' ∧
      (c.play setup moves).world.calls = calls'.reverse ++ older := by
  induction moves generalizing c r calls with
  | nil => exact ⟨r, calls, hr, h, hcalls⟩
  | cons m moves ih =>
    obtain ⟨hr', hstill⟩ | ⟨e, hvalid, rfl, hseen, hr', hleft⟩ := move_view_of_sole hr m
    · exact ih hr' h (hstill.trans hcalls)
    · obtain ⟨hmade, hconf⟩ := h.event hvalid
      refine ih hr' hconf ?_
      rw [hleft, hmade, hseen, hcalls, List.reverse_append, List.append_assoc]

theorem calls_play_of_sole {step : StepDefinition} {calls : List CallRecord} (hr : c.runs = [r])
    (h : r.Conforms setup step calls) (moves : List Move) :
    (c.play setup moves).world.calls =
      ((c.events setup 0 moves).flatMap (·.calls)).reverse ++ c.world.calls := by
  induction moves generalizing c r calls with
  | nil => rfl
  | cons m moves ih =>
    rw [play_cons, events]
    rcases move_view (getElem?_of_sole hr) m with
      ⟨hevent, hr'⟩ | ⟨e, hevent, hv, rfl, hseen, hr', hleft⟩
    · rw [ih (sole_move hr hr') h, calls_move_of_sole hr hevent, hevent]
      rfl
    · obtain ⟨hmade, hconf⟩ := h.event hv
      rw [ih (sole_move hr hr') hconf, hleft, hmade, hseen, hevent]
      simp

theorem conforms_among_others {i : Nat} {step : StepDefinition}
    (hr : c.runs[i]? = some { step }) (moves : List Move) :
    ∃ r, (c.play setup moves).runs[i]? = some r ∧
      r.Conforms setup step ((c.events setup i moves).flatMap RunEvent.calls) := by
  have hstep (past : List (RunEvent σ)) (e : RunEvent σ)
      (h : e.before.Conforms setup step (past.flatMap RunEvent.calls)) (hv : e.Valid setup) :
      e.after.Conforms setup step ((past ++ [e]).flatMap RunEvent.calls) := by
    rw [List.flatMap_append, List.flatMap_singleton]
    exact (h.event hv).2
  exact play_induction
    (Q := fun past r => r.Conforms setup step (past.flatMap RunEvent.calls))
    hstep moves hr (Run.conforms_begin setup step)

theorem lifecycle_among_others {i : Nat} {step : StepDefinition}
    (hr : c.runs[i]? = some { step }) (moves : List Move) :
    ∃ r, (c.play setup moves).runs[i]? = some r ∧
      ∃ rest last,
        Lifecycle (setup.build step)
          ((c.events setup i moves).flatMap RunEvent.calls ++ rest) last ∧
        (r.isOver = true → rest = [] ∧ last = r.phase) := by
  obtain ⟨r, hr', hconf⟩ := conforms_among_others hr moves
  exact ⟨r, hr', hconf.lifecycle⟩

end Crew

end StepRunner
