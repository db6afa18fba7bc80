import Mathlib.Data.List.Perm.Subperm
import StepRunner.Proofs.Wait.Remaining
import StepRunner.Proofs.Wait.Scan

/-!
# Pods whose containers last

A pod that lists no container at first and then always the same ones, each of which stays where the
watch is to see it once it is there.  A watch on such a pod hands out each of its containers once: a
container that was handed out is known to be there from then on, so it is never news again.  As long
as a container is left to wait for, there is one that was not handed out.

* `Lasting`              the snapshots of such a pod
* `Watch.Gathers`        a watch on such a pod against the containers that it has handed out
* `Gathers.absorb`       a snapshot taken in, and from there a look
* `Gathers.length_lt`    where one is left to wait for, not all were handed out
* `Gathers.perm`         where none is, all of them were
-/

namespace StepRunner

/-- Snapshots of a pod with the containers `names`: at first they list none, and then all of them,
in any order.  A container that is where the goal is to see it stays there. -/
structure Lasting (goal : Goal) (names : List String) (shown : List PodSnapshot) : Prop where
  listed : ∃ first rest, shown = first ++ rest ∧ (∀ s ∈ first, s.names = []) ∧
    ∀ s ∈ rest, s.names.Perm names
  stays : shown.Pairwise fun s s' => ∀ o ∈ s.observations, ∀ o' ∈ s'.observations,
    o'.name = o.name → goal.met o = true → goal.met o' = true

namespace Lasting

variable {goal : Goal} {names : List String} {shown more : List PodSnapshot} {s : PodSnapshot}

theorem of_append (h : Lasting goal names (shown ++ more)) : Lasting goal names shown := by
  obtain ⟨first, rest, hcut, hfirst, hrest⟩ := h.listed
  refine ⟨?_, (List.pairwise_append.1 h.stays).1⟩
  obtain ⟨front, rfl, -⟩ | ⟨front, rfl, rfl⟩ := List.append_eq_append_iff.1 hcut
  · refine ⟨shown, [], (List.append_nil shown).symm, fun s hs => ?_, by simp⟩
    exact hfirst s (List.mem_append_left front hs)
  · exact ⟨first, front, rfl, hfirst, fun s hs => hrest s (List.mem_append_left more hs)⟩

theorem names_eq (h : Lasting goal names shown) (hs : s ∈ shown) :
    s.names = [] ∨ s.names.Perm names := by
  obtain ⟨first, rest, rfl, hfirst, hrest⟩ := h.listed
  exact (List.mem_append.1 hs).imp (hfirst s) (hrest s)

theorem subset (h : Lasting goal names shown) (hs : s ∈ shown) : s.names ⊆ names := by
  obtain hnil | hperm := h.names_eq hs
  · rw [hnil]
    exact List.nil_subset names
  · exact hperm.subset

theorem nodup (h : Lasting goal names shown) (hn : names.Nodup) (hs : s ∈ shown) :
    s.names.Nodup := by
  obtain hnil | hperm := h.names_eq hs
  · rw [hnil]
    exact List.nodup_nil
  · exact hperm.nodup_iff.2 hn

theorem perm_last (h : Lasting goal names (shown ++ [s]))
    (hlisted : ∃ s' ∈ shown ++ [s], s'.names ≠ []) : s.names.Perm names := by
  obtain ⟨first, rest, hcut, hfirst, hrest⟩ := h.listed
  obtain rfl | ⟨rest, last, rfl⟩ := List.eq_nil_or_concat' rest
  · obtain ⟨s', hs', hne⟩ := hlisted
    rw [hcut, List.append_nil] at hs'
    exact absurd (hfirst s' hs') hne
  · rw [← List.append_assoc] at hcut
    obtain ⟨-, rfl⟩ := List.append_singleton_inj.1 hcut
    exact hrest s (by simp)

theorem met_last (h : Lasting goal names (shown ++ [s])) {old o : Observation}
    (hold : ∃ s' ∈ shown, old ∈ s'.observations) (hm : goal.met old = true)
    (ho : o ∈ s.observations) (hname : o.name = old.name) : goal.met o = true := by
  obtain ⟨s', hs', hmem⟩ := hold
  have hstays := (List.pairwise_append.1 h.stays).2.2 s' hs' s List.mem_cons_self
  exact hstays old hmem o ho hname hm

end Lasting

namespace Watch

/-- A watch on a pod with the containers `names`, which has handed out some of them, each once: it
knows these to be there. -/
structure Gathers (pod : PodRef) (goal : Goal) (names : List String) (shown : List PodSnapshot)
    (out : List Observation) (w : Watch) : Prop where
  accounts : w.Accounts pod shown out
  seen : (∃ s ∈ shown, s.names ≠ []) → w.seen = true
  met : ∀ o ∈ out, ∃ x, w.known.get? o.name = some x ∧ goal.met x = true
  listed : ∀ o ∈ out, o.name ∈ names
  nodup : (out.map (·.name)).Nodup
  goal : w.goal = goal

variable {pod : PodRef} {goal : Goal} {names : List String} {shown : List PodSnapshot}
  {out : List Observation} {w watch : Watch} {polls : Nat} {outcome : Option Outcome}

theorem gathers_begin (pod : PodRef) (goal : Goal) (limit : Nat) (names : List String) :
    (begin pod goal limit).Gathers pod goal names [] [] :=
  ⟨accounts_begin pod goal limit, by simp, by simp, by simp, List.nodup_nil, rfl⟩

theorem Gathers.met_absorb (h : w.Gathers pod goal names shown out) {s : PodSnapshot}
    (hl : Lasting goal names (shown ++ [s])) {name : String}
    (hknown : ∃ x, w.known.get? name = some x ∧ goal.met x = true) :
    ∃ x, (w.absorb s).1.known.get? name = some x ∧ goal.met x = true := by
  obtain ⟨old, hold, hm⟩ := hknown
  have hget := w.get?_absorb s name
  cases hlatest : latest? (recorded w.goal w.known s.observations) name with
  | none =>
    rw [hlatest, hold] at hget
    exact ⟨old, hget, hm⟩
  | some x =>
    rw [hlatest] at hget
    obtain ⟨hmem, hx⟩ := mem_of_latest? hlatest
    obtain ⟨hname, hshown⟩ := h.accounts.follows.known name old hold
    have hobserved := (recorded_sublist w.goal w.known s.observations).subset hmem
    exact ⟨x, hget, hl.met_last hshown hm hobserved (hx.trans hname.symm)⟩

/-- a container that is handed out was not handed out before, is one of the pod's, and is known to
be there from then on -/
theorem Gathers.found (h : w.Gathers pod goal names shown out) (hn : names.Nodup) {s : PodSnapshot}
    (hl : Lasting goal names (shown ++ [s])) {o : Observation} (ho : (w.absorb s).2 = some o) :
    o.name ∈ names ∧ o.name ∉ out.map (·.name) ∧
      (w.absorb s).1.known.get? o.name = some o ∧ goal.met o = true := by
  have hs : s ∈ shown ++ [s] := List.mem_append_right shown List.mem_cons_self
  have hnames := hl.nodup hn hs
  have hfind := absorb_found_eq (w := w) hnames
  rw [ho] at hfind
  have hmem := List.mem_of_find?_eq_some hfind.symm
  obtain ⟨hmet, hnews⟩ : w.Qualifies o := by simpa using List.find?_some hfind.symm
  refine ⟨hl.subset hs (List.mem_map_of_mem hmem), fun hout => ?_, ?_, h.goal ▸ hmet⟩
  · obtain ⟨o', ho', hname⟩ := List.mem_map.1 hout
    obtain ⟨x, hx, hm⟩ := h.met o' ho'
    rw [hname] at hx
    have hunmet := (Goal.differs_iff hmet).1 (hnews x hx)
    rw [h.goal, hm] at hunmet
    cases hunmet
  · obtain ⟨-, -, -, hlast⟩ := exists_unread w.goal w.known s.observations
    have hread := List.mem_of_getLast? (hlast o ho)
    have hdistinct := hnames.sublist ((recorded_sublist w.goal w.known s.observations).map _)
    rw [get?_absorb, latest?_of_nodup hdistinct hread]
    rfl

theorem Gathers.absorb (h : w.Gathers pod goal names shown out) (hn : names.Nodup)
    {s : PodSnapshot} (hl : Lasting goal names (shown ++ [s])) :
    (w.absorb s).1.Gathers pod goal names (shown ++ [s]) (out ++ (w.absorb s).2.toList) := by
  have hfound : ∀ o ∈ (w.absorb s).2.toList, (w.absorb s).2 = some o := by simp
  refine ⟨h.accounts.absorb s, ?_, fun o ho => ?_, fun o ho => ?_, ?_, h.goal⟩
  · rintro ⟨s', hs', hne⟩
    show (w.seen || !s.observations.isEmpty) = true
    obtain hs' | hs' := List.mem_append.1 hs'
    · rw [h.seen ⟨s', hs', hne⟩]
      rfl
    · rw [List.mem_singleton.1 hs', PodSnapshot.names, Ne, List.map_eq_nil_iff] at hne
      rw [List.isEmpty_eq_false_iff.2 hne]
      exact Bool.or_true w.seen
  · obtain ho | ho := List.mem_append.1 ho
    · exact h.met_absorb hl (h.met o ho)
    · obtain ⟨-, -, hknown, hmet⟩ := h.found hn hl (hfound o ho)
      exact ⟨o, hknown, hmet⟩
  · obtain ho | ho := List.mem_append.1 ho
    · exact h.listed o ho
    · exact (h.found hn hl (hfound o ho)).1
  · cases hs : (w.absorb s).2 with
    | none =>
      rw [Option.toList_none, List.append_nil]
      exact h.nodup
    | some o =>
      obtain ⟨-, hnew, -⟩ := h.found hn hl hs
      rw [Option.toList_some, List.map_append, List.map_singleton, ← List.concat_eq_append]
      exact h.nodup.concat hnew

theorem Gathers.look (h : w.Gathers pod goal names shown out) (hn : names.Nodup)
    {answer : Except ClusterError PodSnapshot}
    (hl : Lasting goal names (shown ++ answer.toOption.toList))
    (hlook : w.Look polls answer watch outcome) :
    watch.Gathers pod goal names (shown ++ answer.toOption.toList)
      (out ++ (outcome.bind Except.toOption).toList) := by
  cases hlook with
  | refused e =>
    show w.Gathers pod goal names (shown ++ []) (out ++ [])
    rw [List.append_nil, List.append_nil]
    exact h
  | @handed s o hs | @nothingLeft s hs | @podFinished s hs | @limitReached s hs | @again s hs =>
    have habsorb := h.absorb hn hl
    rw [hs] at habsorb
    exact habsorb

/-! ## how many are left -/

theorem Gathers.subperm (h : w.Gathers pod goal names shown out) :
    (out.map (·.name)).Subperm names := by
  refine List.subperm_of_subset h.nodup fun name hname => ?_
  obtain ⟨o, ho, rfl⟩ := List.mem_map.1 hname
  exact h.listed o ho

theorem Gathers.length_le (h : w.Gathers pod goal names shown out) :
    out.length ≤ names.length := by
  simpa using h.subperm.length_le

theorem Gathers.length_lt (h : w.Gathers pod goal names shown out) (hne : names ≠ [])
    (hl : Lasting goal names shown) (hr : w.remaining = true) : out.length < names.length := by
  by_contra hle
  have hall : (out.map (·.name)).Perm names := by
    refine h.subperm.perm_of_length_le ?_
    rw [List.length_map]
    omega
  have hmet : ∀ name ∈ names, ∃ x, w.known.get? name = some x ∧ goal.met x = true := by
    intro name hname
    obtain ⟨o, ho, rfl⟩ := List.mem_map.1 (hall.mem_iff.2 hname)
    exact h.met o ho
  have hseen : w.seen = true := by
    obtain ⟨name, hname⟩ := List.exists_mem_of_ne_nil names hne
    obtain ⟨x, hx, -⟩ := hmet name hname
    obtain ⟨-, s, hs, hmem⟩ := h.accounts.follows.known name x hx
    exact h.seen ⟨s, hs, List.ne_nil_of_mem (List.mem_map_of_mem hmem)⟩
  rw [remaining, hseen] at hr
  obtain ⟨name, htracked, hlacks⟩ := List.any_eq_true.1 hr
  rw [h.accounts.follows.tracked] at htracked
  cases hlast : shown.getLast? with
  | none =>
    rw [hlast] at htracked
    cases htracked
  | some s =>
    rw [hlast] at htracked
    have hlisted := hl.subset (List.mem_of_getLast? hlast) htracked
    obtain ⟨x, hx, hm⟩ := hmet name hlisted
    simp [lacks, hx, h.goal, hm] at hlacks

theorem Gathers.perm (h : w.Gathers pod goal names shown out) (hn : names.Nodup)
    (hl : Lasting goal names shown) (hr : w.remaining = false) :
    (out.map (·.name)).Perm names := by
  obtain ⟨hseen, hmet⟩ := met_of_remaining hr
  have hlisted := h.accounts.seen hseen
  obtain ⟨earlier, last, rfl, htracked, -⟩ :=
    h.accounts.follows.exists_last (h.accounts.follows.seen hseen)
  have hlast := hl.perm_last hlisted
  rw [← htracked] at hlast
  refine h.subperm.antisymm (List.subperm_of_subset hn fun name hname => ?_)
  obtain ⟨x, hx, hm⟩ := hmet name (hlast.mem_iff.2 hname)
  obtain ⟨o, ho, rfl⟩ := h.accounts.handedOut name x hx hm
  exact List.mem_map_of_mem ho

end Watch

end StepRunner
