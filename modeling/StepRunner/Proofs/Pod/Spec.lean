import StepRunner.Pod.Error

/-!
# Well-formed specs

A spec has no fault if and only if all that is asked of it holds: a name and a namespace, an app
container, containers that have names, all of them distinct, and label values that may be used.

* `PodSpec.WellFormed`              what is asked of a spec
* `PodSpec.fault?_eq_none_iff`      a spec without a fault
* `PodSpec.refusal?_eq_none_iff`    a spec that is not refused
-/

namespace StepRunner

/-! ## label values -/

/-- **What is asked of a label value**: nothing of an empty one, for it has no end. -/
theorem isLabelValue_iff {text : String} :
    isLabelValue text = true ↔
      text.toList.length ≤ maxLabelLength ∧ (∀ c ∈ text.toList, isLabelChar c = true) ∧
        (∀ c ∈ text.toList.head?, isAlnum c = true) ∧
          ∀ c ∈ text.toList.getLast?, isAlnum c = true := by
  by_cases hne : text.toList = []
  · simp [isLabelValue, hne]
  · simp [isLabelValue, hne, List.head?_eq_some_head hne, List.getLast?_eq_some_getLast hne,
      and_assoc]

/-! ## specs -/

namespace PodSpec

/-- **What is asked of a spec.** -/
structure WellFormed (s : PodSpec) : Prop where
  name : s.name ≠ ""
  namespaceName : s.namespaceName ≠ ""
  app : s.containers ≠ []
  named : ∀ c ∈ s.allContainers, c.name ≠ ""
  distinct : (s.allContainers.map (·.name)).Nodup
  labels : ∀ e ∈ s.labels.entries, isLabelValue e.2 = true

theorem nameFault?_eq_none_iff {seen names : List String} :
    nameFault? seen names = none ↔
      (∀ name ∈ names, name ≠ "") ∧ names.Nodup ∧ ∀ name ∈ names, name ∉ seen := by
  induction names generalizing seen with
  | nil => simp [nameFault?]
  | cons name names ih =>
    rw [nameFault?]
    split
    next hempty => exact iff_of_false (by simp) fun h => h.1 name List.mem_cons_self hempty
    next hnamed =>
      split
      next hseen => exact iff_of_false (by simp) fun h => h.2.2 name List.mem_cons_self hseen
      next hfresh =>
        rw [ih, List.nodup_cons]
        constructor
        · rintro ⟨hrest, hnodup, hunseen⟩
          refine ⟨List.forall_mem_cons.2 ⟨hnamed, hrest⟩, ⟨fun hmem => ?_, hnodup⟩,
            List.forall_mem_cons.2 ⟨hfresh, fun other hother hmem => ?_⟩⟩
          · exact hunseen name hmem List.mem_cons_self
          · exact hunseen other hother (List.mem_cons_of_mem name hmem)
        · rintro ⟨hrest, ⟨hnew, hnodup⟩, hunseen⟩
          refine ⟨fun other hother => hrest other (List.mem_cons_of_mem name hother), hnodup,
            fun other hother hmem => ?_⟩
          obtain rfl | hmem := List.mem_cons.1 hmem
          · exact hnew hother
          · exact hunseen other (List.mem_cons_of_mem name hother) hmem

theorem labelFault?_eq_none_iff {entries : List (String × String)} :
    labelFault? entries = none ↔ ∀ e ∈ entries, isLabelValue e.2 = true := by
  induction entries with
  | nil => simp [labelFault?]
  | cons e entries ih =>
    rw [labelFault?, List.forall_mem_cons]
    split
    next hvalue => rw [ih, and_iff_right hvalue]
    next hvalue => exact iff_of_false (by simp) fun h => hvalue h.1

/-- **A spec has no fault if and only if it is well-formed.** -/
theorem fault?_eq_none_iff {s : PodSpec} : s.fault? = none ↔ s.WellFormed := by
  rw [fault?]
  split
  next hname => exact iff_of_false (by simp) fun h => h.name hname
  next hname =>
    split
    next hnamespace => exact iff_of_false (by simp) fun h => h.namespaceName hnamespace
    next hnamespace =>
      split
      next happ => exact iff_of_false (by simp) fun h => h.app (List.isEmpty_iff.1 happ)
      next happ =>
        rw [Option.or_eq_none_iff, nameFault?_eq_none_iff, labelFault?_eq_none_iff,
          List.forall_mem_map]
        constructor
        · rintro ⟨⟨hnamed, hdistinct, -⟩, hlabels⟩
          have happ : s.containers ≠ [] := fun h => happ (List.isEmpty_iff.2 h)
          exact ⟨hname, hnamespace, happ, hnamed, hdistinct, hlabels⟩
        · intro h
          exact ⟨⟨h.named, h.distinct, fun name _ => List.not_mem_nil⟩, h.labels⟩

theorem refusal?_eq_none_iff {s : PodSpec} : s.refusal? = none ↔ s.WellFormed := by
  rw [refusal?, Option.map_eq_none_iff, fault?_eq_none_iff]

end PodSpec

end StepRunner
