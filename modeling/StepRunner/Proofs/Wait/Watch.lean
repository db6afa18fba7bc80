import StepRunner.Wait.Watch

/-!
# What a watch knows

A watch against the list of all snapshots that it has taken in.  It knows of a container what some
snapshot showed, but it looks for containers in the last snapshot only.

* `PodSnapshot.names`      the containers that a snapshot lists
* `scan_known`             what is known after a scan
* `scan_met`               what is known to be there was so before, or is handed out now
* `Watch.Follows`          a watch and the snapshots that it has taken in
* `Watch.HandedOut`        what it knows to be there is among what it has handed out
* `met_of_remaining`       where nothing is left, the containers of the last snapshot are there
-/

namespace StepRunner

/-- the containers that a snapshot lists, init containers first -/
def PodSnapshot.names (s : PodSnapshot) : List String := s.observations.map (·.name)

theorem PodSnapshot.mem_names {s : PodSnapshot} {name : String} :
    name ∈ s.names ↔ ∃ o ∈ s.observations, o.name = name := List.mem_map

/-- an observation that is no news to a goal does not change whether the container is there -/
theorem Goal.met_eq_of_not_differs {goal : Goal} {old new : Observation}
    (h : goal.differs old new = false) : goal.met old = goal.met new := by
  cases goal with
  | ready => simpa [Goal.differs, Goal.met] using h
  | done =>
    have hstate : old.state = new.state := by simpa [Goal.differs] using h
    simp only [Goal.met, hstate]

namespace Watch

/-! ## scanning -/

section
variable {goal : Goal} {known known' : Dict Observation} {os : List Observation}
  {found : Option Observation}

theorem scan_cons_found {o : Observation} (h : (isNews goal known o && goal.met o) = true) :
    scan goal known (o :: os) = (known.insert o.name o, some o) := if_pos h

theorem scan_cons_passed {o : Observation} (h : (isNews goal known o && goal.met o) = false) :
    scan goal known (o :: os) = scan goal (known.insert o.name o) os := by
  rw [scan, h]
  rfl

theorem scan_found {o : Observation} (h : scan goal known os = (known', some o)) :
    o ∈ os ∧ goal.met o = true := by
  induction os generalizing known with
  | nil => cases h
  | cons x os ih =>
    cases hx : isNews goal known x && goal.met x with
    | true =>
      rw [scan_cons_found hx] at h
      cases h
      exact ⟨List.mem_cons_self, (Bool.and_eq_true_iff.1 hx).2⟩
    | false =>
      rw [scan_cons_passed hx] at h
      obtain ⟨hmem, hmet⟩ := ih h
      exact ⟨List.mem_cons_of_mem _ hmem, hmet⟩

theorem scan_known (h : scan goal known os = (known', found)) {name : String} {o : Observation}
    (ho : known'.get? name = some o) :
    known.get? name = some o ∨ (o ∈ os ∧ o.name = name) := by
  induction os generalizing known with
  | nil =>
    cases h
    exact .inl ho
  | cons x os ih =>
    have hinsert (hx : (known.insert x.name x).get? name = some o) :
        known.get? name = some o ∨ (o ∈ x :: os ∧ o.name = name) := by
      rw [Dict.get?_insert] at hx
      split at hx
      next hname =>
        cases hx
        exact .inr ⟨List.mem_cons_self, hname.symm⟩
      next => exact .inl hx
    cases hx : isNews goal known x && goal.met x with
    | true =>
      rw [scan_cons_found hx] at h
      cases h
      exact hinsert ho
    | false =>
      rw [scan_cons_passed hx] at h
      obtain hold | ⟨hmem, hname⟩ := ih h
      · exact hinsert hold
      · exact .inr ⟨List.mem_cons_of_mem _ hmem, hname⟩

theorem met_of_passed {o : Observation} (h : (isNews goal known o && goal.met o) = false)
    (hm : goal.met o = true) : ∃ old, known.get? o.name = some old ∧ goal.met old = true := by
  rw [hm, Bool.and_true, isNews] at h
  split at h
  next old hold => exact ⟨old, hold, (Goal.met_eq_of_not_differs h).trans hm⟩
  next => cases h

/-- A container that is known to be there after a scan was known to be there before, or is the one
that is handed out. -/
theorem scan_met (h : scan goal known os = (known', found)) {name : String} {o : Observation}
    (ho : known'.get? name = some o) (hm : goal.met o = true) :
    (∃ old, known.get? name = some old ∧ goal.met old = true) ∨
      ∃ out, found = some out ∧ out.name = name := by
  induction os generalizing known with
  | nil =>
    cases h
    exact .inl ⟨o, ho, hm⟩
  | cons x os ih =>
    cases hx : isNews goal known x && goal.met x with
    | true =>
      rw [scan_cons_found hx] at h
      cases h
      rw [Dict.get?_insert] at ho
      split at ho
      next hname => exact .inr ⟨x, rfl, hname.symm⟩
      next => exact .inl ⟨o, ho, hm⟩
    | false =>
      rw [scan_cons_passed hx] at h
      obtain ⟨old, hold, hmet⟩ | hout := ih h
      · rw [Dict.get?_insert] at hold
        split at hold
        next hname =>
          -- the entry that was found is that of `x`, which stands for an older one
          cases hold
          rw [hname]
          exact .inl (met_of_passed hx hmet)
        next => exact .inl ⟨old, hold, hmet⟩
      · exact .inr hout

theorem scan_none (h : scan goal known os = (known', none)) :
    (∀ name, (known.get? name).isSome → (known'.get? name).isSome) ∧
      ∀ o ∈ os, (known'.get? o.name).isSome := by
  induction os generalizing known with
  | nil =>
    cases h
    exact ⟨fun _ hname => hname, by simp⟩
  | cons x os ih =>
    cases hx : isNews goal known x && goal.met x with
    | true =>
      rw [scan_cons_found hx] at h
      cases h
    | false =>
      rw [scan_cons_passed hx] at h
      obtain ⟨hkeep, hall⟩ := ih h
      constructor
      · intro name hname
        apply hkeep
        rw [Dict.get?_insert]
        split
        · rfl
        · exact hname
      · refine List.forall_mem_cons.2 ⟨hkeep x.name ?_, hall⟩
        rw [Dict.get?_insert, if_pos rfl]
        rfl

end

/-! ## what a watch follows -/

structure Follows (w : Watch) (shown : List PodSnapshot) : Prop where
  known : ∀ name o, w.known.get? name = some o → o.name = name ∧ ∃ s ∈ shown, o ∈ s.observations
  tracked : w.tracked = (shown.getLast?.map (·.names)).getD []
  phase : w.phase = (shown.getLast?.map (·.phase)).getD .unknown
  seen : w.seen = true → shown ≠ []

def HandedOut (w : Watch) (out : List Observation) : Prop :=
  ∀ name o, w.known.get? name = some o → w.goal.met o = true → ∃ o' ∈ out, o'.name = name

theorem follows_begin (pod : PodRef) (goal : Goal) (limit : Nat) :
    (begin pod goal limit).Follows [] :=
  ⟨fun _ _ h => (Option.some_ne_none _ h.symm).elim, rfl, rfl, fun h => (Bool.noConfusion h)⟩

theorem handedOut_begin (pod : PodRef) (goal : Goal) (limit : Nat) :
    (begin pod goal limit).HandedOut [] :=
  fun _ _ h => (Option.some_ne_none _ h.symm).elim

variable {w : Watch} {shown : List PodSnapshot} {out : List Observation}

theorem absorb_scan (w : Watch) (s : PodSnapshot) :
    scan w.goal w.known s.observations = ((w.absorb s).1.known, (w.absorb s).2) := rfl

theorem Follows.absorb (h : w.Follows shown) (s : PodSnapshot) :
    (w.absorb s).1.Follows (shown ++ [s]) := by
  refine ⟨?_, ?_, ?_, ?_⟩
  · intro name o ho
    obtain hold | ⟨hmem, hname⟩ := scan_known (absorb_scan w s) ho
    · obtain ⟨hname, s', hs', hmem⟩ := h.known name o hold
      exact ⟨hname, s', List.mem_append_left _ hs', hmem⟩
    · exact ⟨hname, s, List.mem_append_right _ List.mem_cons_self, hmem⟩
  · rw [List.getLast?_concat]
    rfl
  · rw [List.getLast?_concat]
    rfl
  · intro _ hnil
    simp at hnil

theorem HandedOut.absorb_none (h : w.HandedOut out) {s : PodSnapshot}
    (hs : (w.absorb s).2 = none) : (w.absorb s).1.HandedOut out := by
  intro name o ho hm
  obtain ⟨old, hold, hmet⟩ | ⟨o', hout, -⟩ := scan_met (absorb_scan w s) ho hm
  · exact h name old hold hmet
  · rw [hs] at hout
    cases hout

theorem HandedOut.absorb_some (h : w.HandedOut out) {s : PodSnapshot} {o : Observation}
    (hs : (w.absorb s).2 = some o) {out' : List Observation} (ho : ∃ o' ∈ out', o'.name = o.name)
    (hkeep : ∀ name, (∃ o' ∈ out, o'.name = name) → ∃ o' ∈ out', o'.name = name) :
    (w.absorb s).1.HandedOut out' := by
  intro name x hx hm
  obtain ⟨old, hold, hmet⟩ | ⟨o', hout, hname⟩ := scan_met (absorb_scan w s) hx hm
  · exact hkeep name (h name old hold hmet)
  · rw [hs] at hout
    cases hout
    exact hname ▸ ho

/-! ## the end of a wait -/

theorem met_of_remaining (h : w.remaining = false) :
    w.seen = true ∧ ∀ name ∈ w.tracked, ∃ o, w.known.get? name = some o ∧ w.goal.met o = true := by
  rw [remaining, Bool.or_eq_false_iff, Bool.not_eq_false', List.any_eq_false] at h
  obtain ⟨hseen, hall⟩ := h
  refine ⟨hseen, fun name hname => ?_⟩
  have hlacks := hall name hname
  unfold lacks at hlacks
  split at hlacks
  next o ho => exact ⟨o, ho, by simpa using hlacks⟩
  next => exact absurd rfl hlacks

theorem met_of_pending (hall : ∀ name ∈ w.tracked, (w.known.get? name).isSome)
    (h : w.pending = []) :
    ∀ name ∈ w.tracked, ∃ o, w.known.get? name = some o ∧ w.goal.met o = true := by
  intro name hname
  obtain ⟨o, ho⟩ := Option.isSome_iff_exists.1 (hall name hname)
  refine ⟨o, ho, ?_⟩
  rw [pending, List.filter_eq_nil_iff] at h
  have hmet := h o (List.mem_filterMap.2 ⟨name, hname, ho⟩)
  simpa using hmet

theorem known_of_absorb {s : PodSnapshot} (h : (w.absorb s).2 = none) :
    ∀ name ∈ (w.absorb s).1.tracked, ((w.absorb s).1.known.get? name).isSome := by
  have hscan := absorb_scan w s
  rw [h] at hscan
  intro name hname
  obtain ⟨o, ho, rfl⟩ := List.mem_map.1 hname
  exact (scan_none hscan).2 o ho

theorem Follows.exists_last (h : w.Follows shown) (hne : shown ≠ []) :
    ∃ earlier last, shown = earlier ++ [last] ∧ w.tracked = last.names ∧ w.phase = last.phase := by
  have hshown := List.dropLast_concat_getLast hne
  have htracked := h.tracked
  have hphase := h.phase
  rw [← hshown, List.getLast?_concat] at htracked hphase
  exact ⟨_, _, hshown.symm, htracked, hphase⟩

/-! ## one look -/

/-- What a wait makes of the answer to one look: the watch after it, and how the wait ends if it
does. -/
inductive Look (w : Watch) (polls : Nat) :
    Except ClusterError PodSnapshot → Watch → Option Outcome → Prop where
  | refused (e : ClusterError) :
      Look w polls (.error e) w (some (.error (.fetchPod w.pod.text e)))
  | handed {s : PodSnapshot} {o : Observation} (hs : (w.absorb s).2 = some o) :
      Look w polls (.ok s) (w.absorb s).1 (some (.ok o))
  | nothingLeft {s : PodSnapshot} (hs : (w.absorb s).2 = none)
      (hr : (w.absorb s).1.remaining = false) :
      Look w polls (.ok s) (w.absorb s).1 (some (.error (w.absorb s).1.nothingLeft))
  | podFinished {s : PodSnapshot} (hs : (w.absorb s).2 = none)
      (hp : (w.absorb s).1.phase.isTerminal = true) :
      Look w polls (.ok s) (w.absorb s).1
        (some (.error (.podFinished w.pod.text (w.absorb s).1.phase w.goal
          (w.absorb s).1.pending.length)))
  | limitReached {s : PodSnapshot} (hs : (w.absorb s).2 = none) :
      Look w polls (.ok s) (w.absorb s).1
        (some (.error (.pollLimitExceeded w.pod.text w.goal (polls + 1))))
  | again {s : PodSnapshot} (hs : (w.absorb s).2 = none) :
      Look w polls (.ok s) (w.absorb s).1 none

theorem Look.limit_eq {polls : Nat} {answer : Except ClusterError PodSnapshot} {watch : Watch}
    {outcome : Option Outcome} (h : w.Look polls answer watch outcome) :
    watch.limit = w.limit := by
  cases h <;> rfl

theorem look_of_answer {polls : Nat} {answer : Except ClusterError PodSnapshot} {watch : Watch}
    {outcome : Option Outcome} {warnings : List Warning}
    (h : w.answer polls answer = (watch, outcome, warnings)) :
    Look w polls answer watch outcome := by
  unfold Watch.answer at h
  split at h
  next e =>
    cases h
    exact .refused e
  next s =>
    split at h
    next w' o habsorb =>
      have hs : (w.absorb s).2 = some o := by rw [habsorb]
      obtain rfl : (w.absorb s).1 = w' := by rw [habsorb]
      cases h
      exact .handed hs
    next w' habsorb =>
      have hs : (w.absorb s).2 = none := by rw [habsorb]
      obtain rfl : (w.absorb s).1 = w' := by rw [habsorb]
      split at h
      next hr =>
        cases h
        exact .nothingLeft hs (by simpa using hr)
      next =>
        split at h
        next hp =>
          cases h
          exact .podFinished hs hp
        next =>
          split at h
          next =>
            cases h
            exact .limitReached hs
          next =>
            cases h
            exact .again hs

end Watch

end StepRunner
