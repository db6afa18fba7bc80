import Mathlib.Data.List.Nodup
import StepRunner.Proofs.Cluster.Holdings

/-!
# Sessions on a scripted cluster

Whatever is asked of a cluster that was empty at first, one thing after the other: its pods are
those that were created and not deleted, each of them once, and a call that fails changes none of
them.

* `Action`, `Reply`            what may be asked of a cluster, and what it answers
* `session`                    what was asked and answered, and the cluster after it
* `Looked`                     all that a look changes
* `eq_or_looked_of_error`      all that a call changes that fails
* `Session.Balanced`           the pods of a cluster against the answers that it has given
* `Session.Balanced.take`      one more call
* `stock_of_session`           the pods of a cluster after any session
-/

namespace StepRunner.ScriptedCluster

/-! ## what may be asked -/

inductive Action where
  | setScript (name : String) (script : Script)
  | failCreate (name : String)
  | failDelete (name : String)
  | omitPod (name : String)
  | create (spec : PodSpec)
  | fetch (pod : PodRef)
  | openLogs (pod : PodRef) (container : String)
  | delete (pod : PodRef)

inductive Reply where
  | arranged
  | created (identity : Option PodIdentity)
  | shown (snapshot : PodSnapshot)
  | opened (opening : LogOpening)
  | deleted

/-- the answer to what is asked, and the cluster after it -/
def Action.perform : Action → ScriptedCluster → Except ClusterError Reply × ScriptedCluster
  | .setScript name script, c => (.ok .arranged, c.setScript name script)
  | .failCreate name, c => (.ok .arranged, c.failCreate name)
  | .failDelete name, c => (.ok .arranged, c.failDelete name)
  | .omitPod name, c => (.ok .arranged, c.omitPod name)
  | .create spec, c => ((c.create spec).1.map .created, (c.create spec).2)
  | .fetch pod, c => ((c.fetch pod).1.map .shown, (c.fetch pod).2)
  | .openLogs pod container, c =>
    match c.openLogs pod container with
    | .failed e => (.error e, c)
    | opening => (.ok (.opened opening), c)
  | .delete pod, c => ((c.delete pod).1.map fun _ => .deleted, (c.delete pod).2)

abbrev Exchange := Action × Except ClusterError Reply

structure Session where
  /-- what was asked, and what was answered -/
  log : List Exchange := []
  cluster : ScriptedCluster := {}

def Session.take (s : Session) (a : Action) : Session :=
  ⟨s.log ++ [(a, (a.perform s.cluster).1)], (a.perform s.cluster).2⟩

/-- everything asked of a cluster that is empty at first -/
def session (actions : List Action) : Session := actions.foldl Session.take {}

theorem session_induction {P : Session → Prop} (start : P {}) (take : ∀ s a, P s → P (s.take a))
    (actions : List Action) : P (session actions) :=
  List.foldlRecOn actions Session.take start fun s h a _ => take s a h

/-! ## looks -/

/-- **All that a look changes**: the count of looks under its name, and the place in its script of
the pod that is looked at, if it is there. -/
structure Looked (pod : PodRef) (c c' : ScriptedCluster) : Prop where
  pods : ∀ name, c'.pods.get? name = (c.pods.get? name).map fun live =>
    if name = pod.name ∧ live.identity.namespaceName = pod.namespaceName then
      { live with fetches := live.fetches + 1 }
    else live
  counts : ∀ name, c'.fetchCount name = c.fetchCount name + if name = pod.name then 1 else 0
  scripts : c'.scripts = c.scripts
  createFailures : c'.createFailures = c.createFailures
  deleteFailures : c'.deleteFailures = c.deleteFailures
  omitted : c'.omitted = c.omitted
  created : c'.created = c.created
  deleted : c'.deleted = c.deleted
  lastUid : c'.lastUid = c.lastUid

variable {c c' : ScriptedCluster}

theorem fetchCount_fetch (pod : PodRef) (c : ScriptedCluster) (name : String) :
    (c.fetch pod).2.fetchCount name = c.fetchCount name + if name = pod.name then 1 else 0 := by
  have hcounts : (c.fetch pod).2.fetchCounts =
      c.fetchCounts.insert pod.name (c.fetchCount pod.name + 1) := by
    unfold ScriptedCluster.fetch
    dsimp only
    split
    · rfl
    · split <;> rfl
  rw [fetchCount, hcounts, Dict.get?_insert]
  by_cases hname : name = pod.name
  · rw [if_pos hname, if_pos hname, hname]
    rfl
  · rw [if_neg hname, if_neg hname]
    rfl

theorem looked_fetch (pod : PodRef) (c : ScriptedCluster) : Looked pod c (c.fetch pod).2 := by
  have hcounts := fetchCount_fetch pod c
  obtain ⟨counts, hfetch⟩ := fetch_eq pod c
  rw [hfetch] at hcounts ⊢
  cases hlookup : c.lookup? pod with
  | none =>
    rw [hlookup] at hcounts
    refine ⟨fun name => ?_, hcounts, rfl, rfl, rfl, rfl, rfl, rfl, rfl⟩
    cases hget : c.pods.get? name with
    | none => rfl
    | some live =>
      rw [Option.map_some, if_neg]
      rintro ⟨rfl, hnamespace⟩
      rw [lookup?_eq_some_iff.2 ⟨hget, hnamespace⟩] at hlookup
      cases hlookup
  | some found =>
    rw [hlookup] at hcounts
    obtain ⟨hget, hnamespace⟩ := lookup?_eq_some_iff.1 hlookup
    refine ⟨fun name => ?_, hcounts, rfl, rfl, rfl, rfl, rfl, rfl, rfl⟩
    rw [Dict.get?_insert]
    by_cases hname : name = pod.name
    · rw [if_pos hname, hname, hget, Option.map_some, if_pos ⟨rfl, hnamespace⟩]
    · rw [if_neg hname]
      simp [hname]

/-- **A call that fails leaves the cluster as it is**, unless it is a look. -/
theorem eq_or_looked_of_error {a : Action} {e : ClusterError} (h : a.perform c = (.error e, c')) :
    c' = c ∨ ∃ pod, a = .fetch pod ∧ Looked pod c c' := by
  have hc' : c' = (a.perform c).2 := by rw [h]
  cases a with
  | setScript | failCreate | failDelete | omitPod => cases h
  | create spec =>
    obtain ⟨refusal, hrefused⟩ | ⟨-, hcreated⟩ := create_cases spec c
    · rw [hc', Action.perform, hrefused]
      exact .inl rfl
    · rw [Action.perform, hcreated] at h
      cases h
  | fetch pod =>
    rw [hc']
    exact .inr ⟨pod, rfl, looked_fetch pod c⟩
  | openLogs pod container =>
    rw [hc', Action.perform]
    split <;> exact .inl rfl
  | delete pod =>
    obtain ⟨refusal, hrefused⟩ | ⟨found, -, hdeleted⟩ := delete_cases pod c
    · rw [hc', Action.perform, hrefused]
      exact .inl rfl
    · rw [Action.perform, hdeleted] at h
      cases h

/-! ## what the answers say -/

/-- the pod that was asked for in a creation that went well -/
def made? : Exchange → Option PodRef
  | (.create spec, .ok _) => some spec.ref
  | _ => none

/-- the identity that a creation told -/
def told? : Exchange → Option PodIdentity
  | (.create _, .ok (.created identity)) => identity
  | _ => none

/-- the pod that was deleted -/
def gone? : Exchange → Option PodRef
  | (.delete pod, .ok _) => some pod
  | _ => none

/-- **The pods of a cluster against the answers that it has given**: those created are those asked
for, numbered from one on, and those whose identity was told are among them; and those deleted are
those whose deletion was confirmed. -/
structure Session.Balanced (s : Session) : Prop where
  books : s.cluster.Books
  counted : s.cluster.lastUid = s.cluster.created.length
  uids : s.cluster.created.map (·.uid) =
    (List.range s.cluster.created.length).map fun n => uidText (n + 1)
  made : s.cluster.created.map (·.ref) = s.log.filterMap made?
  told : (s.log.filterMap told?).Sublist s.cluster.created
  gone : s.cluster.deleted.map (·.ref) = s.log.filterMap gone?

namespace Session.Balanced

variable {s : Session} {a : Action}

theorem empty : Session.Balanced {} where
  books := books_of_empty rfl rfl rfl
  counted := rfl
  uids := rfl
  made := rfl
  told := .slnil
  gone := rfl

theorem keep (h : s.Balanced) (hbooks : (a.perform s.cluster).2.Books)
    (hcreated : (a.perform s.cluster).2.created = s.cluster.created)
    (hdeleted : (a.perform s.cluster).2.deleted = s.cluster.deleted)
    (hlast : (a.perform s.cluster).2.lastUid = s.cluster.lastUid)
    (hmade : made? (a, (a.perform s.cluster).1) = none)
    (htold : told? (a, (a.perform s.cluster).1) = none)
    (hgone : gone? (a, (a.perform s.cluster).1) = none) : (s.take a).Balanced where
  books := hbooks
  counted := by rw [Session.take, hlast, hcreated, h.counted]
  uids := by rw [Session.take, hcreated, h.uids]
  made := by
    rw [Session.take, hcreated, List.filterMap_append, List.filterMap_cons_none hmade, h.made]
    exact (List.append_nil _).symm
  told := by
    rw [Session.take, hcreated, List.filterMap_append, List.filterMap_cons_none htold,
      List.filterMap_nil, List.append_nil]
    exact h.told
  gone := by
    rw [Session.take, hdeleted, List.filterMap_append, List.filterMap_cons_none hgone, h.gone]
    exact (List.append_nil _).symm

theorem refused (h : s.Balanced) {e : ClusterError}
    (hrefused : a.perform s.cluster = (.error e, s.cluster)) : (s.take a).Balanced := by
  refine h.keep ?_ ?_ ?_ ?_ ?_ ?_ ?_ <;> rw [hrefused]
  · exact h.books
  all_goals cases a <;> rfl

theorem created (h : s.Balanced) {spec : PodSpec}
    (hnone : s.cluster.pods.get? spec.name = none)
    (hcreated : s.cluster.create spec =
      (.ok (if spec.name ∈ s.cluster.omitted then none else some (s.cluster.admitPod spec).1),
        (s.cluster.admitPod spec).2)) : (s.take (.create spec)).Balanced := by
  obtain ⟨hbooks, hturnover⟩ := h.books.admitPod spec hnone
  have hafter : s.take (.create spec) =
      ⟨s.log ++ [(.create spec, .ok (.created
          (if spec.name ∈ s.cluster.omitted then none else some (s.cluster.admitPod spec).1)))],
        (s.cluster.admitPod spec).2⟩ := by
    rw [Session.take, Action.perform, hcreated]
    rfl
  rw [hafter]
  refine ⟨hbooks, ?counted, ?uids, ?made, ?told, ?gone⟩ <;> dsimp only
  case counted =>
    rw [hturnover.created, List.length_append, ← h.counted]
    rfl
  case uids =>
    rw [hturnover.created, List.map_append, List.length_append, List.length_singleton,
      List.range_succ, List.map_append, h.uids, ← h.counted]
    rfl
  case made =>
    rw [hturnover.created, List.map_append, List.filterMap_append, h.made]
    rfl
  case told =>
    rw [hturnover.created, List.filterMap_append]
    refine h.told.append ?_
    split
    · exact List.nil_sublist _
    · exact .refl _
  case gone =>
    rw [hturnover.deleted, List.append_nil, List.filterMap_append, h.gone]
    exact (List.append_nil _).symm

theorem removed (h : s.Balanced) {pod : PodRef} {found : LivePod}
    (hfound : s.cluster.lookup? pod = some found)
    (hdeleted : s.cluster.delete pod = (.ok (), { s.cluster with
      pods := s.cluster.pods.erase pod.name
      deleted := s.cluster.deleted ++ [found.identity] })) : (s.take (.delete pod)).Balanced := by
  have hafter : s.take (.delete pod) =
      ⟨s.log ++ [(.delete pod, .ok .deleted)], { s.cluster with
        pods := s.cluster.pods.erase pod.name
        deleted := s.cluster.deleted ++ [found.identity] }⟩ := by
    rw [Session.take, Action.perform, hdeleted]
    rfl
  rw [hafter]
  refine ⟨(h.books.remove hfound).1, h.counted, h.uids, ?made, ?told, ?gone⟩ <;> dsimp only
  case made =>
    rw [List.filterMap_append, h.made]
    exact (List.append_nil _).symm
  case told =>
    rw [List.filterMap_append]
    exact (List.append_nil _).symm ▸ h.told
  case gone =>
    rw [List.map_append, List.filterMap_append, h.gone, List.map_singleton,
      (h.books.mem_of_lookup? hfound).2]
    rfl

/-- **The balance is kept by each call.** -/
theorem take (h : s.Balanced) (a : Action) : (s.take a).Balanced := by
  cases a with
  | setScript | failCreate | failDelete | omitPod =>
    have hbooks := h.books
    exact h.keep ⟨hbooks.filed, hbooks.numbered, hbooks.once, hbooks.account⟩ rfl rfl rfl rfl rfl rfl
  | create spec =>
    obtain ⟨e, hrefused⟩ | ⟨hnone, hcreated⟩ := create_cases spec s.cluster
    · exact h.refused (by rw [Action.perform, hrefused]; rfl)
    · exact h.created hnone hcreated
  | fetch pod =>
    have hlooked := looked_fetch pod s.cluster
    exact h.keep (h.books.fetch pod).1 hlooked.created hlooked.deleted hlooked.lastUid rfl rfl rfl
  | openLogs pod container =>
    have hstays : ((Action.openLogs pod container).perform s.cluster).2 = s.cluster := by
      rw [Action.perform]
      split <;> rfl
    refine h.keep ?_ ?_ ?_ ?_ rfl rfl rfl <;> rw [hstays]
    exact h.books
  | delete pod =>
    obtain ⟨e, hrefused⟩ | ⟨found, hfound, hdeleted⟩ := delete_cases pod s.cluster
    · exact h.refused (by rw [Action.perform, hrefused]; rfl)
    · exact h.removed hfound hdeleted

end Session.Balanced

/-! ## whole sessions -/

theorem balanced_session (actions : List Action) : (session actions).Balanced :=
  session_induction .empty (fun _ a h => h.take a) actions

theorem Books.mem_live_iff (h : c.Books) {p : PodIdentity} :
    p ∈ c.live ↔ p ∈ c.created ∧ p ∉ c.deleted := by
  have hdisjoint := List.nodup_append.1 (h.account.nodup h.once)
  rw [h.account.mem_iff, List.mem_append]
  constructor
  · intro hlive
    exact ⟨.inr hlive, fun hdeleted => hdisjoint.2.2 p hdeleted p hlive rfl⟩
  · rintro ⟨hdeleted | hlive, hnot⟩
    · exact absurd hdeleted hnot
    · exact hlive

/-- **The pods of a cluster after any session.**  No two that are there have one name, and each is
filed under its own; those that are there are those created and not deleted; those created are those
asked for, numbered in the order in which they were, and those whose identity was told are among
them; those deleted are those whose deletion was confirmed, each of them created before and deleted
once.  A call that fails changes nothing, but that a look is counted and moves its pod on. -/
theorem stock_of_session (actions : List Action) :
    let s := session actions
    let c := s.cluster
    ((∀ name pod, c.pods.get? name = some pod → pod.identity.name = name) ∧
        (c.live.map (·.name)).Nodup) ∧
      (∀ p, p ∈ c.live ↔ p ∈ c.created ∧ p ∉ c.deleted) ∧
      (c.created.map (·.uid) = (List.range c.created.length).map (fun n => uidText (n + 1)) ∧
        (c.created.map (·.uid)).Nodup) ∧
      ((∀ p ∈ c.deleted, p ∈ c.created) ∧ c.deleted.Nodup) ∧
      (c.created.map (·.ref) = s.log.filterMap made? ∧
        (s.log.filterMap told?).Sublist c.created ∧
        c.deleted.map (·.ref) = s.log.filterMap gone?) ∧
      ∀ (a : Action) e c', a.perform c = (.error e, c') →
        c' = c ∨ ∃ pod, a = .fetch pod ∧ Looked pod c c' := by
  intro s c
  have hs : s.Balanced := balanced_session actions
  have hbooks : c.Books := hs.books
  have hparts := List.nodup_append.1 (hbooks.account.nodup hbooks.once)
  refine ⟨⟨fun name pod hpod => hbooks.filed _ (Dict.mem_of_get? hpod), hbooks.names_nodup⟩,
    fun p => hbooks.mem_live_iff, ⟨hs.uids, ?_⟩, ⟨fun p hp => ?_, hparts.1⟩,
    ⟨hs.made, hs.told, hs.gone⟩, fun a e c' h => eq_or_looked_of_error h⟩
  · rw [hs.uids]
    exact List.Nodup.map (uidText_injective.comp fun _ _ => Nat.succ.inj) List.nodup_range
  · exact hbooks.account.mem_iff.2 (List.mem_append_left _ hp)

end StepRunner.ScriptedCluster
