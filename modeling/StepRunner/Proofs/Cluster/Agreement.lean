import StepRunner.Cluster.Paced
import StepRunner.Proofs.Cluster.Holdings
import StepRunner.Proofs.Run.Likeness

/-!
# Clusters that agree on a pod

What two scripted clusters have to have in common for the calls on one pod to come to the same: the
pod itself if it is there, the script that waits for it, the failures arranged for it and its pace.
Calls on pods with other names do not touch any of this.

* `LivePod.Like`               a pod on two clusters
* `ScriptedCluster.Agree`      clusters that agree on the pods of one name
* `Agree.create`, `Agree.fetch`, `Agree.delete`, `Agree.openLogs`
                               calls on this pod come to the same
* `Agree.frame_create`, `Agree.frame_fetch`, `Agree.frame_delete`
                               calls on others do not matter
* `PacedCluster.Agree`         the same of clusters that take their time
* `Platform.Alike`             platforms that answer alike as long as their states are related
* `Platform.Steady`            a platform where looks at a pod do not change its log streams
-/

namespace StepRunner

variable {σ τ : Type}

/-- a pod on two clusters: they may know it by different identifiers -/
structure LivePod.Like (p p' : LivePod) : Prop where
  ref : p.identity.ref = p'.identity.ref
  script : p.script = p'.script
  fetches : p.fetches = p'.fetches

theorem Script.snapshotAt_like (s : Script) (pod pod' : PodIdentity) (index : Nat) :
    (s.snapshotAt pod index).Like (s.snapshotAt pod' index) := by
  unfold snapshotAt
  split <;> exact ⟨rfl, rfl, rfl⟩

namespace ScriptedCluster

/-- clusters that agree on the pods called `name` -/
structure Agree (name : String) (c c' : ScriptedCluster) : Prop where
  pod : Option.Rel LivePod.Like (c.pods.get? name) (c'.pods.get? name)
  script : c.scripts.get? name = c'.scripts.get? name
  createFailures : name ∈ c.createFailures ↔ name ∈ c'.createFailures
  deleteFailures : name ∈ c.deleteFailures ↔ name ∈ c'.deleteFailures

variable {name : String} {c c' : ScriptedCluster} {spec : PodSpec} {pod : PodRef}

theorem Agree.refl (name : String) (c : ScriptedCluster) : Agree name c c := by
  refine ⟨?_, rfl, .rfl, .rfl⟩
  cases c.pods.get? name with
  | none => exact .none
  | some p => exact .some ⟨rfl, rfl, rfl⟩

theorem Agree.symm (h : Agree name c c') : Agree name c' c := by
  refine ⟨?_, h.script.symm, h.createFailures.symm, h.deleteFailures.symm⟩
  have hpod := h.pod
  generalize c.pods.get? name = p at hpod
  generalize c'.pods.get? name = p' at hpod
  cases hpod with
  | none => exact .none
  | some hp => exact .some ⟨hp.ref.symm, hp.script.symm, hp.fetches.symm⟩

theorem Agree.contains (h : Agree name c c') : c.pods.contains name = c'.pods.contains name := by
  have hpod := h.pod
  unfold Dict.contains
  generalize c.pods.get? name = p at hpod
  generalize c'.pods.get? name = p' at hpod
  cases hpod <;> rfl

theorem Agree.lookup (h : Agree pod.name c c') :
    Option.Rel LivePod.Like (c.lookup? pod) (c'.lookup? pod) := by
  have hpod := h.pod
  unfold lookup?
  generalize c.pods.get? pod.name = p at hpod
  generalize c'.pods.get? pod.name = p' at hpod
  cases hpod with
  | none => exact .none
  | some hp =>
    have hnamespace := congrArg PodRef.namespaceName hp.ref
    dsimp only [PodIdentity.ref] at hnamespace ⊢
    rw [hnamespace]
    split
    · exact .some hp
    · exact .none

/-! ## calls on the pod -/

theorem Agree.create (h : Agree spec.name c c') :
    AnswersLike (fun _ _ => True) (c.create spec).1 (c'.create spec).1 ∧
      Agree spec.name (c.create spec).2 (c'.create spec).2 := by
  unfold ScriptedCluster.create
  cases spec.refusal? with
  | some e => exact ⟨.error e, h⟩
  | none =>
    by_cases hfails : spec.name ∈ c.createFailures
    · rw [if_pos hfails, if_pos (h.createFailures.1 hfails)]
      exact ⟨.error _, h⟩
    · rw [if_neg hfails, if_neg (mt h.createFailures.2 hfails), ← h.contains]
      by_cases hthere : c.pods.contains spec.name = true
      · rw [if_pos hthere, if_pos hthere]
        exact ⟨.error _, h⟩
      · rw [if_neg hthere, if_neg hthere]
        refine ⟨.ok trivial, ?_, ?_, h.createFailures, h.deleteFailures⟩
        · show Option.Rel LivePod.Like ((c.pods.insert _ _).get? _) ((c'.pods.insert _ _).get? _)
          rw [Dict.get?_insert, Dict.get?_insert, if_pos rfl, if_pos rfl]
          exact .some ⟨rfl, by rw [h.script], rfl⟩
        · show (c.scripts.erase _).get? _ = (c'.scripts.erase _).get? _
          rw [Dict.get?_erase, Dict.get?_erase, if_pos rfl, if_pos rfl]

theorem openLogs_fetch (pod pod' : PodRef) (container : String) (c : ScriptedCluster) :
    (c.fetch pod).2.openLogs pod' container = c.openLogs pod' container := by
  obtain ⟨counts, hfetch⟩ := fetch_eq pod c
  rw [hfetch]
  cases hp : c.lookup? pod with
  | none => rfl
  | some p =>
    have hthere := get?_of_lookup? hp
    unfold openLogs lookup?
    dsimp only
    rw [Dict.get?_insert]
    by_cases hname : pod'.name = pod.name
    · rw [if_pos hname, hname, hthere]
      dsimp only
      by_cases hnamespace : p.identity.namespaceName = pod'.namespaceName
      · rw [if_pos hnamespace, if_pos hnamespace]
      · rw [if_neg hnamespace, if_neg hnamespace]
    · rw [if_neg hname]

theorem Agree.fetch (h : Agree pod.name c c') :
    AnswersLike PodSnapshot.Like (c.fetch pod).1 (c'.fetch pod).1 ∧
      Agree pod.name (c.fetch pod).2 (c'.fetch pod).2 := by
  obtain ⟨counts, hfetch⟩ := fetch_eq pod c
  obtain ⟨counts', hfetch'⟩ := fetch_eq pod c'
  have hlookup := h.lookup
  rw [hfetch, hfetch']
  generalize c.lookup? pod = p at hlookup
  generalize c'.lookup? pod = p' at hlookup
  cases hlookup with
  | none => exact ⟨.error _, h.pod, h.script, h.createFailures, h.deleteFailures⟩
  | @some p p' hp =>
    dsimp only
    refine ⟨?_, ?_, h.script, h.createFailures, h.deleteFailures⟩
    · rw [← hp.script, ← hp.fetches, ← hp.ref]
      split
      · exact .error _
      · exact .ok (p.script.snapshotAt_like _ _ _)
    · dsimp only
      rw [Dict.get?_insert, Dict.get?_insert, if_pos rfl, if_pos rfl]
      exact .some ⟨hp.ref, hp.script, by rw [hp.fetches]⟩

theorem Agree.delete (h : Agree pod.name c c') :
    (c.delete pod).1 = (c'.delete pod).1 ∧ Agree pod.name (c.delete pod).2 (c'.delete pod).2 := by
  have hlookup := h.lookup
  unfold ScriptedCluster.delete
  by_cases hfails : pod.name ∈ c.deleteFailures
  · rw [if_pos hfails, if_pos (h.deleteFailures.1 hfails)]
    exact ⟨rfl, h⟩
  · rw [if_neg hfails, if_neg (mt h.deleteFailures.2 hfails)]
    generalize c.lookup? pod = p at hlookup
    generalize c'.lookup? pod = p' at hlookup
    cases hlookup with
    | none => exact ⟨rfl, h⟩
    | some hp =>
      refine ⟨rfl, ?_, h.script, h.createFailures, h.deleteFailures⟩
      show Option.Rel LivePod.Like ((c.pods.erase _).get? _) ((c'.pods.erase _).get? _)
      rw [Dict.get?_erase, Dict.get?_erase, if_pos rfl, if_pos rfl]
      exact .none

theorem Agree.openLogs (h : Agree pod.name c c') (container : String) :
    c.openLogs pod container = c'.openLogs pod container := by
  have hlookup := h.lookup
  unfold ScriptedCluster.openLogs
  generalize c.lookup? pod = p at hlookup
  generalize c'.lookup? pod = p' at hlookup
  cases hlookup with
  | none => rfl
  | some hp =>
    dsimp only
    rw [hp.script, hp.ref]

/-! ## calls on other pods -/

theorem Agree.frame_create (h : Agree name c c') (hne : spec.name ≠ name) :
    Agree name (c.create spec).2 c' := by
  unfold ScriptedCluster.create
  split
  next => exact h
  next =>
    split
    · exact h
    · split
      · exact h
      · refine ⟨?_, ?_, h.createFailures, h.deleteFailures⟩
        · show Option.Rel LivePod.Like ((c.pods.insert _ _).get? _) _
          rw [Dict.get?_insert, if_neg (Ne.symm hne)]
          exact h.pod
        · show (c.scripts.erase _).get? _ = _
          rw [Dict.get?_erase, if_neg (Ne.symm hne)]
          exact h.script

theorem Agree.frame_fetch (h : Agree name c c') (hne : pod.name ≠ name) :
    Agree name (c.fetch pod).2 c' := by
  obtain ⟨counts, hfetch⟩ := fetch_eq pod c
  rw [hfetch]
  cases c.lookup? pod with
  | none => exact ⟨h.pod, h.script, h.createFailures, h.deleteFailures⟩
  | some p =>
    refine ⟨?_, h.script, h.createFailures, h.deleteFailures⟩
    dsimp only
    rw [Dict.get?_insert, if_neg (Ne.symm hne)]
    exact h.pod

theorem Agree.frame_delete (h : Agree name c c') (hne : pod.name ≠ name) :
    Agree name (c.delete pod).2 c' := by
  unfold ScriptedCluster.delete
  split
  · exact h
  · split
    next => exact h
    next =>
      refine ⟨?_, h.script, h.createFailures, h.deleteFailures⟩
      show Option.Rel LivePod.Like ((c.pods.erase _).get? _) _
      rw [Dict.get?_erase, if_neg (Ne.symm hne)]
      exact h.pod

end ScriptedCluster

/-! ## clusters that take their time -/

namespace PacedCluster

/-- clusters that agree on the pods called `name`, and on how long the calls on them take -/
structure Agree (name : String) (c c' : PacedCluster) : Prop where
  cluster : c.cluster.Agree name c'.cluster
  pace : c.pace name = c'.pace name

variable {name : String} {c c' : PacedCluster} {spec : PodSpec} {pod : PodRef}

theorem Agree.refl (name : String) (c : PacedCluster) : Agree name c c := ⟨.refl name _, rfl⟩

theorem Agree.symm (h : Agree name c c') : Agree name c' c := ⟨h.cluster.symm, h.pace.symm⟩

theorem Agree.create (h : Agree spec.name c c') :
    AnswersLike (fun _ _ => True) (pacedPlatform.create spec c).1
        (pacedPlatform.create spec c').1 ∧
      Agree spec.name (pacedPlatform.create spec c).2 (pacedPlatform.create spec c').2 :=
  ⟨h.cluster.create.1, h.cluster.create.2, h.pace⟩

theorem Agree.fetch (pod : PodRef) (h : Agree pod.name c c') :
    AnswersLike PodSnapshot.Like (pacedPlatform.fetch pod c).1 (pacedPlatform.fetch pod c').1 ∧
      Agree pod.name (pacedPlatform.fetch pod c).2 (pacedPlatform.fetch pod c').2 :=
  ⟨h.cluster.fetch.1, h.cluster.fetch.2, h.pace⟩

theorem Agree.delete (pod : PodRef) (h : Agree pod.name c c') :
    (pacedPlatform.delete pod c).1 = (pacedPlatform.delete pod c').1 ∧
      Agree pod.name (pacedPlatform.delete pod c).2 (pacedPlatform.delete pod c').2 :=
  ⟨h.cluster.delete.1, h.cluster.delete.2, h.pace⟩

theorem Agree.openLogs (h : Agree pod.name c c') (container : String) :
    (pacedPlatform.openLogs pod container c).1 = (pacedPlatform.openLogs pod container c').1 := by
  show (if container ∈ (c.pace pod.name).panics then LogOpening.panicked
      else c.cluster.openLogs pod container) =
    if container ∈ (c'.pace pod.name).panics then LogOpening.panicked
      else c'.cluster.openLogs pod container
  rw [h.pace, h.cluster.openLogs]

theorem Agree.frame_create (h : Agree name c c') (hne : spec.name ≠ name) :
    Agree name (pacedPlatform.create spec c).2 c' :=
  ⟨h.cluster.frame_create hne, h.pace⟩

theorem Agree.frame_fetch (pod : PodRef) (h : Agree name c c') (hne : pod.name ≠ name) :
    Agree name (pacedPlatform.fetch pod c).2 c' :=
  ⟨h.cluster.frame_fetch hne, h.pace⟩

theorem Agree.frame_delete (pod : PodRef) (h : Agree name c c') (hne : pod.name ≠ name) :
    Agree name (pacedPlatform.delete pod c).2 c' :=
  ⟨h.cluster.frame_delete hne, h.pace⟩

theorem openLogs_fetch (pod pod' : PodRef) (container : String) (c : PacedCluster) :
    (pacedPlatform.openLogs pod' container (pacedPlatform.fetch pod c).2).1 =
      (pacedPlatform.openLogs pod' container c).1 := by
  show (if container ∈ (c.pace pod'.name).panics then LogOpening.panicked
      else (c.cluster.fetch pod).2.openLogs pod' container) =
    if container ∈ (c.pace pod'.name).panics then LogOpening.panicked
      else c.cluster.openLogs pod' container
  rw [ScriptedCluster.openLogs_fetch]

end PacedCluster

/-! ## platforms -/

namespace Platform

/-- Two platforms that answer the calls of a run on pods called `name` alike, as long as their
states are related. -/
structure Alike (p : Platform σ) (p' : Platform τ) (R : σ → τ → Prop) (name : String) : Prop where
  create : ∀ {spec : PodSpec} {s : σ} {t : τ}, spec.name = name → R s t →
    AnswersLike (fun _ _ => True) (p.create spec s).1 (p'.create spec t).1 ∧
      R (p.create spec s).2 (p'.create spec t).2
  fetch : ∀ (pod : PodRef) {s : σ} {t : τ}, pod.name = name → R s t →
    AnswersLike PodSnapshot.Like (p.fetch pod s).1 (p'.fetch pod t).1 ∧
      R (p.fetch pod s).2 (p'.fetch pod t).2
  delete : ∀ (pod : PodRef) {s : σ} {t : τ}, pod.name = name → R s t →
    (p.delete pod s).1 = (p'.delete pod t).1 ∧ R (p.delete pod s).2 (p'.delete pod t).2

theorem alike_paced (name : String) :
    pacedPlatform.Alike pacedPlatform (PacedCluster.Agree name) name where
  create hname hagree := by
    subst hname
    exact hagree.create
  fetch pod _ _ hname hagree := by
    subst hname
    exact hagree.fetch pod
  delete pod _ _ hname hagree := by
    subst hname
    exact hagree.delete pod

theorem alike_self (p : Platform σ) (name : String) : p.Alike p Eq name where
  create := by
    rintro spec s _ - rfl
    refine ⟨?_, rfl⟩
    cases (p.create spec s).1 with
    | error e => exact .error e
    | ok identity => exact .ok trivial
  fetch := by
    rintro pod s _ - rfl
    refine ⟨?_, rfl⟩
    cases (p.fetch pod s).1 with
    | error e => exact .error e
    | ok snapshot => exact .ok ⟨rfl, rfl, rfl⟩
  delete := by
    rintro pod s _ - rfl
    exact ⟨rfl, rfl⟩

/-- A platform where opening a log stream changes nothing, and where neither what this comes to nor
how long it takes depends on looks at a pod. -/
structure Steady (p : Platform σ) : Prop where
  state : ∀ pod container s, (p.openLogs pod container s).2 = s
  answer : ∀ pod pod' container s,
    (p.openLogs pod' container (p.fetch pod s).2).1 = (p.openLogs pod' container s).1
  delay : ∀ pod pod' s, p.delay .openLogs pod' (p.fetch pod s).2 = p.delay .openLogs pod' s

theorem steady_paced : pacedPlatform.Steady :=
  ⟨fun _ _ _ => rfl, PacedCluster.openLogs_fetch, fun _ _ _ => rfl⟩

end Platform

theorem LogTask.Transition.state_eq {p : Platform σ} {options : Text.SanitizeOptions}
    {t : LogTask} {w : World σ} {result : LogTask.Result σ} (hp : p.Steady)
    (ht : Transition p options t w result) : result.world.state = w.state := by
  cases ht with
  | asked | read | stopped | sent => rfl
  | openPanicked _ _ ha | openRefused _ _ ha | opened _ _ ha =>
    exact (congrArg Prod.snd ha).symm.trans (hp.state _ _ _)
  | closed =>
    unfold close
    split <;> rfl

end StepRunner
