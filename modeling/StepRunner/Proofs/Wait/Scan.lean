import Mathlib.Data.List.Find
import Mathlib.Data.List.Nodup
import StepRunner.Proofs.Wait.Edges

/-!
# One scan of a snapshot

What a watch makes of one snapshot, whatever it knows.  It reads the containers of the snapshot one
after the other, init containers first, up to the first one that qualifies: what it has read it
knows from this snapshot, and of all other containers it knows what it knew before.

* `exists_latest?`, `latest?_of_nodup`   the latest of some observations of a container
* `exists_unread`                        it reads up to the container that it hands out
* `Watch.Qualifies`                      a container that is handed out once a watch comes to it
* `scan_found_eq`                        the first of these is handed out
* `get?_absorb`                          what is known after a look
* `first_qualifying_of_absorb`           what a watch makes of a snapshot
-/

namespace StepRunner

/-! ## latest observations -/

theorem exists_latest? {os : List Observation} {o : Observation} (h : o ∈ os) :
    ∃ last, latest? os o.name = some last := by
  have hne : os.filter (·.name = o.name) ≠ [] :=
    List.ne_nil_of_mem (List.mem_filter.2 ⟨h, by simp⟩)
  exact ⟨_, List.getLast?_eq_some_getLast hne⟩

theorem latest?_of_nodup {os : List Observation} (hn : (os.map (·.name)).Nodup) {o : Observation}
    (ho : o ∈ os) : latest? os o.name = some o := by
  obtain ⟨last, hlast⟩ := exists_latest? ho
  obtain ⟨hmem, hname⟩ := mem_of_latest? hlast
  rw [hlast, List.inj_on_of_nodup_map hn hmem ho hname]

theorem latest?_eq_none {os : List Observation} {name : String} (h : name ∉ os.map (·.name)) :
    latest? os name = none := by
  cases ho : latest? os name with
  | none => rfl
  | some o =>
    obtain ⟨hmem, rfl⟩ := mem_of_latest? ho
    exact absurd (List.mem_map_of_mem hmem) h

namespace Watch

/-! ## reading -/

section
variable {goal : Goal} {known known' : Dict Observation} {os : List Observation}

theorem exists_unread (goal : Goal) (known : Dict Observation) (os : List Observation) :
    ∃ unread, os = recorded goal known os ++ unread ∧
      ((scan goal known os).2 = none → unread = []) ∧
      ∀ o, (scan goal known os).2 = some o → (recorded goal known os).getLast? = some o := by
  induction os generalizing known with
  | nil => exact ⟨[], rfl, fun _ => rfl, fun _ ho => absurd ho (Option.some_ne_none _).symm⟩
  | cons x os ih =>
    cases hx : isNews goal known x && goal.met x with
    | true =>
      rw [scan_cons_found hx, recorded, if_pos hx]
      refine ⟨os, rfl, ?_, ?_⟩
      · intro hnone
        cases hnone
      · intro o ho
        cases ho
        rfl
    | false =>
      obtain ⟨unread, hcut, hnone, hsome⟩ := ih (known.insert x.name x)
      rw [scan_cons_passed hx, recorded, hx]
      refine ⟨unread, congrArg (x :: ·) hcut, hnone, fun o ho => ?_⟩
      show (x :: recorded goal (known.insert x.name x) os).getLast? = some o
      rw [List.getLast?_cons, hsome o ho]
      rfl

theorem scan_eq_record (h : scan goal known os = (known', none)) : known' = record known os := by
  obtain ⟨unread, hcut, hnone, -⟩ := exists_unread goal known os
  obtain rfl := hnone (by rw [h])
  rw [List.append_nil] at hcut
  have hknown := scan_known_eq goal known os
  rw [h, ← hcut] at hknown
  exact hknown

theorem isNews_insert_of_ne {o x : Observation} (h : x.name ≠ o.name) :
    isNews goal (known.insert o.name o) x = isNews goal known x := by
  unfold isNews
  rw [Dict.get?_insert, if_neg h]

/-- where names are distinct, what a scan has read makes no difference to what is still to come -/
theorem scan_found_eq (hn : (os.map (·.name)).Nodup) :
    (scan goal known os).2 = os.find? fun o => isNews goal known o && goal.met o := by
  induction os generalizing known with
  | nil => rfl
  | cons o os ih =>
    rw [List.map_cons, List.nodup_cons] at hn
    cases ho : isNews goal known o && goal.met o with
    | true =>
      rw [scan_cons_found ho]
      exact (List.find?_cons_of_pos (by exact ho)).symm
    | false =>
      have hrest : ∀ x ∈ os, isNews goal (known.insert o.name o) x = isNews goal known x := by
        intro x hx
        apply isNews_insert_of_ne
        intro hname
        exact hn.1 (hname ▸ List.mem_map_of_mem hx)
      rw [scan_cons_passed ho, ih hn.2, List.find?_cons_of_neg (by simp [ho])]
      apply List.find?_congr
      intro x hx
      rw [hrest x hx]

end

/-! ## taking a snapshot in -/

/-- Whether a container is handed out once a watch comes to it: it is where the watch is to see it,
and what is known of it, if anything is, differs from that in what the goal looks at. -/
def Qualifies (w : Watch) (o : Observation) : Prop :=
  w.goal.met o = true ∧ ∀ old, w.known.get? o.name = some old → w.goal.differs old o = true

variable {w : Watch} {s : PodSnapshot} {o : Observation}

theorem qualifies_iff (w : Watch) (o : Observation) :
    (isNews w.goal w.known o && w.goal.met o) = true ↔ w.Qualifies o := by
  rw [Bool.and_eq_true, and_comm, Qualifies, isNews]
  cases w.known.get? o.name <;> simp

instance (w : Watch) : DecidablePred w.Qualifies := fun o => decidable_of_iff _ (w.qualifies_iff o)

theorem absorb_found_eq (hn : s.names.Nodup) :
    (w.absorb s).2 = s.observations.find? fun o => w.Qualifies o := by
  show (scan w.goal w.known s.observations).2 = _
  rw [scan_found_eq hn]
  apply List.find?_congr
  intro o _
  rw [Bool.eq_iff_iff, qualifies_iff, decide_eq_true_iff]

theorem get?_absorb (w : Watch) (s : PodSnapshot) (name : String) :
    (w.absorb s).1.known.get? name =
      (latest? (recorded w.goal w.known s.observations) name).or (w.known.get? name) := by
  show (scan w.goal w.known s.observations).1.get? name = _
  rw [scan_known_eq, get?_record]

theorem get?_absorb_of_latest? (h : (w.absorb s).2 = none) {name : String}
    (ho : latest? s.observations name = some o) :
    (w.absorb s).1.known.get? name = some o := by
  have hscan := absorb_scan w s
  rw [h] at hscan
  rw [scan_eq_record hscan, get?_record, ho]
  rfl

theorem mem_pending :
    o ∈ w.pending ↔ (∃ name ∈ w.tracked, w.known.get? name = some o) ∧ w.goal.met o = false := by
  simp [pending]

theorem role_of_mem_init (h : o ∈ s.initStatuses.map (.of s.identity .init)) : o.role = .init := by
  obtain ⟨status, -, rfl⟩ := List.mem_map.1 h
  rfl

theorem role_of_mem_app (h : o ∈ s.statuses.map (.of s.identity .app)) : o.role = .app := by
  obtain ⟨status, -, rfl⟩ := List.mem_map.1 h
  rfl

/-- **What a watch makes of a snapshot**, whatever it knows, where the containers have names of
their own.  It hands out the first container that qualifies, init containers first, if there is one:
no app container is, where an init container qualifies.  It has read all containers up to that one,
or else all of them, and knows these as the snapshot shows them; of any other container it knows
what it knew before. -/
theorem first_qualifying_of_absorb (w : Watch) (s : PodSnapshot) (hn : s.names.Nodup) :
    let after := (w.absorb s).1
    let found := (w.absorb s).2
    found = s.observations.find? (fun o => w.Qualifies o) ∧
      after.tracked = s.initStatuses.map (·.name) ++ s.statuses.map (·.name) ∧
      after.phase = s.phase ∧
      (∃ read unread, s.observations = read ++ unread ∧
        (found = none → unread = []) ∧ (∀ o, found = some o → read.getLast? = some o) ∧
        (∀ o ∈ read, after.known.get? o.name = some o) ∧
        ∀ name, name ∉ read.map (·.name) → after.known.get? name = w.known.get? name) ∧
      ∀ o, found = some o → o.role = .app →
        ∀ x ∈ s.observations, x.role = .init → ¬ w.Qualifies x := by
  intro after found
  have hfound : found = s.observations.find? (fun o => w.Qualifies o) := absorb_found_eq hn
  refine ⟨hfound, ?_, rfl, ?_, ?_⟩
  · show s.observations.map (·.name) = _
    rw [PodSnapshot.observations, List.map_append, List.map_map, List.map_map]
    rfl
  · obtain ⟨unread, hcut, hnone, hsome⟩ := exists_unread w.goal w.known s.observations
    have hread : ((recorded w.goal w.known s.observations).map (·.name)).Nodup :=
      hn.sublist ((recorded_sublist w.goal w.known s.observations).map _)
    refine ⟨_, unread, hcut, hnone, hsome, fun o ho => ?_, fun name hname => ?_⟩
    · rw [get?_absorb, latest?_of_nodup hread ho]
      rfl
    · rw [get?_absorb, latest?_eq_none hname]
      rfl
  · intro o ho happ x hx hinit hqualifies
    rw [hfound, PodSnapshot.observations, List.find?_append] at ho
    -- an init container that qualifies is found before any app container is looked at
    have hmem : x ∈ s.initStatuses.map (.of s.identity .init) := by
      obtain hx | hx := List.mem_append.1 hx
      · exact hx
      · rw [role_of_mem_app hx] at hinit
        cases hinit
    cases hinits : (s.initStatuses.map (.of s.identity .init)).find? fun o => w.Qualifies o with
    | none =>
      have hno := List.find?_eq_none.1 hinits x hmem
      exact hno (decide_eq_true hqualifies)
    | some first =>
      rw [hinits] at ho
      obtain rfl : first = o := Option.some.inj ho
      rw [role_of_mem_init (List.mem_of_find?_eq_some hinits)] at happ
      cases happ

/-- an init container and an app container that are both shown terminated by one snapshot -/
theorem first_qualifying_of_two :
    let first : PodSnapshot :=
      { phase := .pending
        initStatuses := [.waiting "clone" "Pulling"], statuses := [.waiting "step" "Pulling"] }
    let s : PodSnapshot :=
      { phase := .running
        initStatuses := [.terminated "clone" 0], statuses := [.terminated "step" 1] }
    let w := ((begin ⟨"ns", "p"⟩ .done 9).absorb first).1
    s.names.Nodup ∧ (w.absorb s).2.map (·.name) = some "clone" ∧
      (w.absorb s).1.tracked = ["clone", "step"] ∧
      (w.known.get? "step").map (·.state) = some .waiting ∧
      (w.absorb s).1.known.get? "step" = w.known.get? "step" := by
  intro first s w
  have hn : s.names.Nodup := by decide
  have hclone : (w.absorb s).2.map (·.name) = some "clone" := by decide +kernel
  obtain ⟨-, htracked, -, ⟨read, unread, hcut, -, hlast, -, hkept⟩, -⟩ :=
    first_qualifying_of_absorb w s hn
  refine ⟨hn, hclone, htracked, by decide +kernel, hkept "step" fun hstep => ?_⟩
  obtain ⟨found, hfound, hname⟩ := Option.map_eq_some_iff.1 hclone
  have hread := hlast found hfound
  -- the two containers were not both read, as `clone` was the last one
  have hnames : s.names = read.map (·.name) ++ unread.map (·.name) := by
    rw [← List.map_append, ← hcut]
    rfl
  have hend : (read.map (·.name)).getLast? = some "clone" := by
    rw [List.getLast?_map, hread, Option.map_some, hname]
  have hsplit : ["clone", "step"] = read.map (·.name) ++ unread.map (·.name) := hnames
  generalize read.map (·.name) = names at hsplit hend hstep
  match names, hsplit with
  | [a], hsplit =>
    obtain ⟨rfl, -⟩ := List.cons.inj hsplit
    exact absurd hstep (by decide)
  | [a, b], hsplit =>
    obtain ⟨rfl, hrest⟩ := List.cons.inj hsplit
    obtain ⟨rfl, -⟩ := List.cons.inj hrest
    exact absurd hend (by decide)

end Watch

end StepRunner
