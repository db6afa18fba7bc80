import StepRunner.Proofs.Pod.Spec
import StepRunner.Proofs.Stage.PodNames
import StepRunner.Stage.Builder

/-!
# Built pods

A step that has an image gets a pod, and the pod is well-formed: its name ends with the number of
the build, its one container has a name, and what its labels say of stage, step and build is cleaned
up for a label.

* `podNameOf_ne_empty`                no name is empty
* `isLabelValue_of_mem_stepLabels`    the labels of a step may be used
* `wellFormed_of_buildPod`            every step with an image gets a pod that is well-formed
-/

namespace StepRunner

theorem podNameOf_ne_empty (segments : List (List Char)) (hash : List Char) (build : UInt64) :
    podNameOf segments hash build ≠ "" := by
  intro h
  have hlist := congrArg String.toList h
  simp [podNameOf, podTail] at hlist

/-! ## labels -/

theorem isAlnum_of_isDnsChar {c : Char} (h : isDnsChar c = true) : isAlnum c = true := by
  rw [isDnsChar, Bool.or_eq_true] at h
  rw [isAlnum, Bool.or_eq_true, Bool.or_eq_true]
  exact h.imp_left .inl

theorem isLabelValue_toString (build : UInt64) : isLabelValue (toString build.toNat) = true := by
  have halnum {c : Char} (hc : c ∈ Nat.toDigits 10 build.toNat) : isAlnum c = true :=
    isAlnum_of_isDnsChar (isDnsChar_of_mem_toDigits hc)
  rw [isLabelValue_iff, Nat.toString_eq_ofList_toDigits, String.toList_ofList]
  refine ⟨Nat.le_trans (length_toDigits_le build) (by decide), fun c hc => ?_, fun c hc => ?_,
    fun c hc => ?_⟩
  · rw [isLabelChar, halnum hc]
    rfl
  · exact halnum (List.mem_of_mem_head? hc)
  · exact halnum (List.mem_of_getLast? hc)

/-- **Every label of a step has a value that may be used.** -/
theorem isLabelValue_of_mem_stepLabels {stage step : String} {build : UInt64}
    {e : String × String} (h : e ∈ (stepLabels stage step build).entries) :
    isLabelValue e.2 = true := by
  have hmem := Dict.mem_of_mem_ofList h
  simp only [List.mem_cons, List.not_mem_nil, or_false] at hmem
  obtain rfl | rfl | rfl := hmem
  · exact isLabelValue_toString build
  · exact isLabelValue_labelValue stage
  · exact isLabelValue_labelValue step

/-! ## pods -/

/-- **A pod is built of every step but one without an image, and no platform refuses it**, whatever
stage and step are called. -/
theorem wellFormed_of_buildPod {namespaceName : String} (h : namespaceName ≠ "")
    (stage : StageDefinition) (step : StepDefinition) (build : UInt64) :
    ((∃ reason, buildPod namespaceName stage step build = .error reason) ↔ step.image = "") ∧
      (step.image ≠ "" → ∃ spec, buildPod namespaceName stage step build = .ok spec ∧
        spec.refusal? = none ∧ spec.WellFormed) := by
  unfold buildPod
  split
  next hnone => exact ⟨⟨fun _ => hnone, fun _ => ⟨_, rfl⟩⟩, fun himage => absurd hnone himage⟩
  next himage =>
    refine ⟨⟨?_, fun hnone => absurd hnone himage⟩, fun _ => ⟨_, rfl, ?_⟩⟩
    · rintro ⟨reason, hreason⟩
      cases hreason
    · rw [PodSpec.refusal?_eq_none_iff, and_self]
      exact {
        name := podNameOf_ne_empty _ _ _
        namespaceName := h
        app := List.cons_ne_nil _ _
        named := fun c hc => by
          obtain rfl := List.mem_singleton.1 hc
          exact of_decide_eq_true rfl
        distinct := List.pairwise_singleton _ _
        labels := fun e he => isLabelValue_of_mem_stepLabels he }

/-- a step whose name has nothing in it that may stand in a domain -/
theorem wellFormed_of_buildPod_of_dashes :
    "ci" ≠ "" ∧ ∃ spec, buildPod "ci" { name := "", steps := [] }
      { name := "-- ß --", image := "rust:1", commands := ["make", "make test"] } 0 = .ok spec ∧
        spec.refusal? = none ∧ spec.WellFormed :=
  ⟨by decide, (wellFormed_of_buildPod (by decide) { name := "", steps := [] }
    { name := "-- ß --", image := "rust:1", commands := ["make", "make test"] } 0).2 (by decide)⟩

end StepRunner
