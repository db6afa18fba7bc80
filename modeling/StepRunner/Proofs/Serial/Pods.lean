import StepRunner.Proofs.Serial.Forms
import StepRunner.Proofs.Time.Notation
import StepRunner.Serial.Pod

/-!
# Pods read back

Every spec, status and observation is read from what is written for it, in any looser form.  A
status holds instants, and they have to be real ones.

* `PodSnapshot.instants`    the instants that a snapshot holds
* `PodSpec.readsBack`       specs are read back
* `PodSnapshot.readsBack`   so are statuses with real instants
* `Observation.readsBack`   and observations
-/

namespace StepRunner

/-! ## plain values -/

namespace ReadsBack

theorem string (s : String) : ReadsBack .plain .str Json.string? s := of_whole rfl rfl

theorem bool (b : Bool) : ReadsBack .plain .bool Json.bool? b := of_whole rfl rfl

theorem below? {bound n : Nat} (h : n < bound) : (Json.ofNat n).below? bound = some n :=
  if_pos h

theorem uint32 (n : UInt32) :
    ReadsBack .plain (fun n : UInt32 => .ofNat n.toNat) Json.uint32? n := by
  refine of_whole ?_ rfl
  rw [Json.uint32?, below? n.toNat_lt, Option.map_some, UInt32.ofNat_toNat]

theorem uint64 (n : UInt64) :
    ReadsBack .plain (fun n : UInt64 => .ofNat n.toNat) Json.uint64? n := by
  refine of_whole ?_ rfl
  rw [Json.uint64?, below? n.toNat_lt, Option.map_some, UInt64.ofNat_toNat]

theorem int32 (n : Int32) : ReadsBack .plain (fun n : Int32 => .int n.toInt) Json.int32? n := by
  refine of_whole ?_ rfl
  have hrange : -2147483648 ≤ n.toInt ∧ n.toInt < 2147483648 := ⟨n.le_toInt, n.toInt_lt⟩
  rw [Json.int32?, if_pos hrange, Int32.ofInt_toInt]

theorem strings (l : List String) :
    ReadsBack (.list .plain) (.ofList .str) (Json.list? Json.string?) l :=
  list fun s _ => string s

/-- a dictionary is read back as it stands: its names are not the names of fields -/
theorem dict (d : Dict String) : ReadsBack .plain (.ofDict .str) (Json.dict? Json.string?) d := by
  refine of_whole ?_ rfl
  have hentries (l : List (String × String)) :
      (l.map fun e => (e.1, Json.str e.2)).mapM
        (fun m => (Json.string? m.2).map fun a => (m.1, a)) = some l := by
    induction l with
    | nil => rfl
    | cons e l ih =>
      rw [List.map_cons, List.mapM_cons, ih]
      rfl
  show Option.map Dict.ofList _ = _
  rw [hentries, Option.map_some, Dict.ofList_entries]

end ReadsBack

/-! ## specs -/

open ReadsBack

namespace PodIdentity

def form : Form := .record [("namespace", .plain), ("uid", .plain), ("name", .plain)]

theorem readsBack (p : PodIdentity) : ReadsBack form toJson ofJson? p := by
  have hnamespace := string p.namespaceName
  have huid := string p.uid
  have hname := string p.name
  refine .record rfl (.cons hnamespace.fits <| .cons huid.fits <| .cons hname.fits .nil)
    (by decide) rfl ?_
  rintro o ⟨atNamespace, atUid, atName, -⟩
  simp only [ofJson?, Json.object?, hnamespace.required atNamespace, huid.required atUid,
    hname.required atName, Option.bind_eq_bind, Option.bind_some]
  rfl

end PodIdentity

namespace ContainerSpec

def form : Form :=
  .record [("name", .plain), ("image", .plain), ("command", .list .plain), ("args", .list .plain),
    ("env", .plain)]

theorem readsBack (c : ContainerSpec) : ReadsBack form toJson ofJson? c := by
  have hname := string c.name
  have himage := string c.image
  have hcommand := strings c.command
  have hargs := strings c.args
  have henv := dict c.env
  refine .record rfl (.cons hname.fits <| .cons himage.fits <| .cons hcommand.fits <|
    .cons hargs.fits <| .cons henv.fits .nil) (by decide) rfl ?_
  rintro o ⟨atName, atImage, atCommand, atArgs, atEnv, -⟩
  simp only [ofJson?, Json.object?, hname.required atName, himage.required atImage,
    hcommand.defaulted atCommand, hargs.defaulted atArgs, henv.defaulted atEnv,
    Option.bind_eq_bind, Option.bind_some]
  rfl

end ContainerSpec

namespace PodSpec

def form : Form :=
  .record [("name", .plain), ("namespace", .plain), ("labels", .plain),
    ("init_containers", .list ContainerSpec.form), ("containers", .list ContainerSpec.form)]

theorem readsBack (s : PodSpec) : ReadsBack form toJson ofJson? s := by
  have hname := string s.name
  have hnamespace := string s.namespaceName
  have hlabels := dict s.labels
  have hinit := list (l := s.initContainers) fun c _ => c.readsBack
  have hcontainers := list (l := s.containers) fun c _ => c.readsBack
  refine .record rfl (.cons hname.fits <| .cons hnamespace.fits <| .cons hlabels.fits <|
    .cons hinit.fits <| .cons hcontainers.fits .nil) (by decide) rfl ?_
  rintro o ⟨atName, atNamespace, atLabels, atInit, atContainers, -⟩
  simp only [ofJson?, Json.object?, hname.required atName, hnamespace.required atNamespace,
    hlabels.defaulted atLabels, hinit.defaulted atInit, hcontainers.required atContainers,
    Option.bind_eq_bind, Option.bind_some]
  rfl

end PodSpec

/-! ## statuses -/

theorem PodPhase.readsBack (p : PodPhase) : ReadsBack .plain toJson ofJson? p := by
  refine of_whole ?_ rfl
  rw [toJson, ofJson?, Json.string?, Option.bind_some, ofText?_text]

theorem Instant.readsBack {t : Instant} (h : t.WellFormed) : ReadsBack .plain toJson ofJson? t := by
  refine of_whole ?_ rfl
  rw [toJson, ofJson?, Json.string?, Option.bind_some, parse?_render h]

namespace WaitingInfo

def form : Form := .record [("reason", .optional .plain), ("message", .optional .plain)]

theorem readsBack (w : WaitingInfo) : ReadsBack form toJson ofJson? w := by
  have hreason (s) (_ : s ∈ w.reason) := string s
  have hmessage (s) (_ : s ∈ w.message) := string s
  refine .record rfl (.cons (fits_optional hreason) <| .cons (fits_optional hmessage) .nil)
    (by decide) rfl ?_
  rintro o ⟨atReason, atMessage, -⟩
  simp only [ofJson?, Json.object?, ReadsBack.optional hreason atReason,
    ReadsBack.optional hmessage atMessage, Option.bind_eq_bind, Option.bind_some]
  rfl

end WaitingInfo

namespace RunningInfo

def form : Form := .record [("started_at", .optional .plain)]

def instants (r : RunningInfo) : List Instant := r.startedAt.toList

theorem readsBack {r : RunningInfo} (h : ∀ t ∈ r.instants, t.WellFormed) :
    ReadsBack form toJson ofJson? r := by
  have hstarted (t) (ht : t ∈ r.startedAt) := Instant.readsBack (h t (Option.mem_toList.2 ht))
  refine .record rfl (.cons (fits_optional hstarted) .nil) (by decide) rfl ?_
  rintro o ⟨atStarted, -⟩
  simp only [ofJson?, Json.object?, ReadsBack.optional hstarted atStarted, Option.bind_eq_bind,
    Option.bind_some]
  rfl

end RunningInfo

namespace TerminatedInfo

def form : Form :=
  .record [("exit_code", .plain), ("reason", .optional .plain), ("finished_at", .optional .plain)]

def instants (i : TerminatedInfo) : List Instant := i.finishedAt.toList

theorem readsBack {i : TerminatedInfo} (h : ∀ t ∈ i.instants, t.WellFormed) :
    ReadsBack form toJson ofJson? i := by
  have hcode := int32 i.exitCode
  have hreason (s) (_ : s ∈ i.reason) := string s
  have hfinished (t) (ht : t ∈ i.finishedAt) := Instant.readsBack (h t (Option.mem_toList.2 ht))
  refine .record rfl (.cons hcode.fits <| .cons (fits_optional hreason) <|
    .cons (fits_optional hfinished) .nil) (by decide) rfl ?_
  rintro o ⟨atCode, atReason, atFinished, -⟩
  simp only [ofJson?, Json.object?, hcode.required atCode, ReadsBack.optional hreason atReason,
    ReadsBack.optional hfinished atFinished, Option.bind_eq_bind, Option.bind_some]
  rfl

end TerminatedInfo

namespace ReportedState

def form : Form :=
  .record [("waiting", .optional WaitingInfo.form), ("running", .optional RunningInfo.form),
    ("terminated", .optional TerminatedInfo.form)]

def instants (s : ReportedState) : List Instant :=
  s.running.toList.flatMap (·.instants) ++ s.terminated.toList.flatMap (·.instants)

theorem readsBack {s : ReportedState} (h : ∀ t ∈ s.instants, t.WellFormed) :
    ReadsBack form toJson ofJson? s := by
  obtain ⟨hr, ht⟩ := List.forall_mem_append.1 h
  have hwaiting (w) (_ : w ∈ s.waiting) := WaitingInfo.readsBack w
  have hrunning (r) (hmem : r ∈ s.running) : ReadsBack _ _ _ r := RunningInfo.readsBack fun t htime =>
    hr t (List.mem_flatMap.2 ⟨r, Option.mem_toList.2 hmem, htime⟩)
  have hterminated (i) (hmem : i ∈ s.terminated) : ReadsBack _ _ _ i :=
    TerminatedInfo.readsBack fun t htime =>
      ht t (List.mem_flatMap.2 ⟨i, Option.mem_toList.2 hmem, htime⟩)
  refine .record rfl (.cons (fits_optional hwaiting) <| .cons (fits_optional hrunning) <|
    .cons (fits_optional hterminated) .nil) (by decide) rfl ?_
  rintro o ⟨atWaiting, atRunning, atTerminated, -⟩
  simp only [ofJson?, Json.object?, ReadsBack.optional hwaiting atWaiting,
    ReadsBack.optional hrunning atRunning, ReadsBack.optional hterminated atTerminated,
    Option.bind_eq_bind, Option.bind_some]
  rfl

end ReportedState

namespace ContainerStatus

def form : Form :=
  .record [("name", .plain), ("ready", .plain), ("restart_count", .plain),
    ("state", ReportedState.form)]

def instants (s : ContainerStatus) : List Instant := s.state.instants

theorem readsBack {s : ContainerStatus} (h : ∀ t ∈ s.instants, t.WellFormed) :
    ReadsBack form toJson ofJson? s := by
  have hname := string s.name
  have hready := bool s.ready
  have hrestarts := uint32 s.restartCount
  have hstate := ReportedState.readsBack h
  refine .record rfl (.cons hname.fits <| .cons hready.fits <| .cons hrestarts.fits <|
    .cons hstate.fits .nil) (by decide) rfl ?_
  rintro o ⟨atName, atReady, atRestarts, atState, -⟩
  simp only [ofJson?, Json.object?, hname.required atName, hready.required atReady,
    hrestarts.required atRestarts, hstate.required atState, Option.bind_eq_bind, Option.bind_some]
  rfl

end ContainerStatus

namespace PodSnapshot

def form : Form :=
  .record [("identity", PodIdentity.form), ("phase", .plain),
    ("init_container_statuses", .list ContainerStatus.form),
    ("container_statuses", .list ContainerStatus.form)]

def instants (s : PodSnapshot) : List Instant :=
  (s.initStatuses ++ s.statuses).flatMap (·.instants)

theorem readsBack {s : PodSnapshot} (h : ∀ t ∈ s.instants, t.WellFormed) :
    ReadsBack form toJson ofJson? s := by
  have hstatus (c) (hmem : c ∈ s.initStatuses ++ s.statuses) : ReadsBack _ _ _ c :=
    ContainerStatus.readsBack fun t ht => h t (List.mem_flatMap.2 ⟨c, hmem, ht⟩)
  obtain ⟨hinits, happs⟩ := List.forall_mem_append.1 hstatus
  have hidentity := s.identity.readsBack
  have hphase := s.phase.readsBack
  have hinit := list hinits
  have happ := list happs
  refine .record rfl (.cons hidentity.fits <| .cons hphase.fits <| .cons hinit.fits <|
    .cons happ.fits .nil) (by decide) rfl ?_
  rintro o ⟨atIdentity, atPhase, atInit, atApp, -⟩
  simp only [ofJson?, Json.object?, hidentity.required atIdentity, hphase.required atPhase,
    hinit.required atInit, happ.required atApp, Option.bind_eq_bind, Option.bind_some]
  rfl

end PodSnapshot

/-! ## observations -/

theorem ContainerState.readsBack (s : ContainerState) : ReadsBack .plain toJson ofJson? s := by
  refine of_whole ?_ rfl
  cases s <;> rfl

theorem ContainerRole.readsBack (r : ContainerRole) : ReadsBack .plain toJson ofJson? r := by
  refine of_whole ?_ rfl
  cases r <;> rfl

namespace Observation

def form : Form :=
  .record [("pod", PodIdentity.form), ("name", .plain), ("role", .plain), ("state", .plain),
    ("ready", .plain), ("restart_count", .plain), ("exit_code", .optional .plain)]

theorem readsBack (o : Observation) : ReadsBack form toJson ofJson? o := by
  have hpod := o.pod.readsBack
  have hname := string o.name
  have hrole := o.role.readsBack
  have hstate := o.state.readsBack
  have hready := bool o.ready
  have hrestarts := uint32 o.restartCount
  have hcode (c) (_ : c ∈ o.exitCode) := int32 c
  refine .record rfl (.cons hpod.fits <| .cons hname.fits <| .cons hrole.fits <|
    .cons hstate.fits <| .cons hready.fits <| .cons hrestarts.fits <|
    .cons (fits_optional hcode) .nil) (by decide) rfl ?_
  rintro f ⟨atPod, atName, atRole, atState, atReady, atRestarts, atCode, -⟩
  simp only [ofJson?, Json.object?, hpod.required atPod, hname.required atName,
    hrole.required atRole, hstate.required atState, hready.required atReady,
    hrestarts.required atRestarts, ReadsBack.optional hcode atCode, Option.bind_eq_bind,
    Option.bind_some]
  rfl

end Observation

end StepRunner
