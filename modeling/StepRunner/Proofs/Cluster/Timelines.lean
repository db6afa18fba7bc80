import Mathlib
import StepRunner.Proofs.Cluster.Sessions

/-!
# The timeline of a pod

What a pod on a scripted cluster shows, look by look, whatever else is asked of the cluster in
between.  The looks at a pod are counted from its creation, and only those that give its namespace;
look number `k` shows frame number `k`, or the last one, and one of them may be set to fail.  A pod
follows the script that was registered for its name since a pod of this name was created before, or
the usual one.

* `registered?`               the script that the next pod of a name is to follow
* `Script.answerAt`           what a pod with a script answers to a look
* `lookAt?`                   the answers to the looks at a pod
* `Session.Follows`           a pod that is there, and what was answered to the looks at it
* `Session.Follows.take`      one more call
* `Session.Timed`             all pods of a session
* `timeline_of_session`       what a pod shows after any session
-/

namespace StepRunner

/-! ## what a script shows -/

/-- each look shows its own frame, as long as there is one, and then the last one -/
theorem Script.frameAt?_eq (s : Script) (k : Nat) :
    s.frameAt? k = s.frames[min k (s.frames.size - 1)]? := by
  unfold Script.frameAt?
  obtain hlt | hge := Nat.lt_or_ge k s.frames.size
  · rw [Array.getElem?_eq_getElem hlt, Option.some_or, Nat.min_eq_left (by omega),
      Array.getElem?_eq_getElem hlt]
  · rw [Array.getElem?_eq_none hge, Option.none_or, Nat.min_eq_right (by omega),
      Array.back?_eq_getElem?]

namespace ScriptedCluster

/-- What a pod with a script answers to look number `k`: it fails if it is set to, and else shows the
frame of this number, the last one where there are not so many, and nothing but its identity where
there are none. -/
def answerAt (script : Script) (identity : PodIdentity) (k : Nat) : Except ClusterError Reply :=
  if script.failingFetch = some k then .error (injected "get" identity.ref.text)
  else .ok (.shown (match script.frames[min k (script.frames.size - 1)]? with
    | some f => ⟨identity, f.phase, f.initStatuses, f.statuses⟩
    | none => ⟨identity, .pending, [], []⟩))

/-! ## what was asked -/

/-- whether this is a look at a pod of a name, whatever the namespace -/
def asksFor (name : String) : Exchange → Bool
  | (.fetch pod, _) => pod.name = name
  | _ => false

/-- the answer to a look at a pod -/
def lookAt? (pod : PodRef) : Exchange → Option (Except ClusterError Reply)
  | (.fetch other, answer) => if other = pod then some answer else none
  | _ => none

theorem lookAt?_self (pod : PodRef) (answer : Except ClusterError Reply) :
    lookAt? pod (.fetch pod, answer) = some answer :=
  if_pos rfl

/-- what this says about the script that the next pod of a name is to follow; a pod that is created
takes it up -/
def arranges? (name : String) : Exchange → Option (Option Script)
  | (.setScript other script, _) => if other = name then some (some script) else none
  | (.create spec, .ok _) => if spec.name = name then some none else none
  | _ => none

/-- the script that the next pod of a name is to follow: what was said last counts -/
def registered? (log : List Exchange) (name : String) : Option Script :=
  (log.reverse.findSome? (arranges? name)).join

theorem registered?_concat (log : List Exchange) (e : Exchange) (name : String) :
    registered? (log ++ [e]) name = ((arranges? name e).getD (registered? log name)) := by
  rw [registered?, List.reverse_concat, List.findSome?_cons]
  cases arranges? name e <;> rfl

/-- a name whose pod was created, and for which no script was registered since -/
theorem registered?_of_created {first second : List Exchange} {spec : PodSpec} {reply : Reply}
    (h : ∀ script answer, (.setScript spec.name script, answer) ∉ second) :
    registered? (first ++ (.create spec, .ok reply) :: second) spec.name = none := by
  induction second using List.reverseRecOn with
  | nil =>
    rw [registered?_concat, arranges?, if_pos rfl]
    rfl
  | append_singleton second e ih =>
    have hrest := ih fun script answer hmem => h script answer (List.mem_append_left _ hmem)
    rw [← List.cons_append, ← List.append_assoc, registered?_concat, hrest]
    obtain ⟨a, answer⟩ := e
    cases a with
    | setScript name script =>
      have hname : name ≠ spec.name := by
        rintro rfl
        exact h script answer (List.mem_append_right _ (List.mem_singleton_self _))
      rw [arranges?, if_neg hname]
      rfl
    | create other =>
      cases answer with
      | error e => rfl
      | ok reply =>
        rw [arranges?]
        split <;> rfl
    | failCreate | failDelete | omitPod | fetch | openLogs | delete => rfl

/-! ## calls that leave scripts and counts -/

theorem openLogs_stays (pod : PodRef) (container : String) (c : ScriptedCluster) :
    ((Action.openLogs pod container).perform c).2 = c := by
  rw [Action.perform]
  split <;> rfl

theorem delete_keeps (pod : PodRef) (c : ScriptedCluster) :
    ((Action.delete pod).perform c).2.scripts = c.scripts ∧
      ((Action.delete pod).perform c).2.fetchCounts = c.fetchCounts := by
  obtain ⟨e, hrefused⟩ | ⟨found, -, hdeleted⟩ := delete_cases pod c
  · rw [Action.perform, hrefused]
    exact ⟨rfl, rfl⟩
  · rw [Action.perform, hdeleted]
    exact ⟨rfl, rfl⟩

/-! ## one pod -/

theorem answer_fetch {c : ScriptedCluster} {pod : PodRef} {live : LivePod}
    (h : c.lookup? pod = some live) :
    ((Action.fetch pod).perform c).1 = answerAt live.script live.identity live.fetches := by
  obtain ⟨counts, hfetch⟩ := fetch_eq pod c
  rw [h] at hfetch
  rw [Action.perform, hfetch, answerAt, ← Script.frameAt?_eq]
  dsimp only
  split
  · rfl
  · unfold Script.snapshotAt
    cases live.script.frameAt? live.fetches <;> rfl

/-- A pod that is there, and what was answered since its creation: to the looks at it, one after the
other, what its script says; to looks at its name in other namespaces, that there is no such pod. -/
structure Session.Follows (s : Session) (identity : PodIdentity) (script : Script)
    (later : List Exchange) : Prop where
  there : s.cluster.pods.get? identity.name =
    some ⟨identity, script, (later.filterMap (lookAt? identity.ref)).length⟩
  answers : later.filterMap (lookAt? identity.ref) =
    (List.range (later.filterMap (lookAt? identity.ref)).length).map (answerAt script identity)
  strangers : ∀ other answer, (.fetch other, answer) ∈ later → other.name = identity.name →
    other ≠ identity.ref → answer = .error (.podNotFound other)

namespace Session.Follows

variable {s : Session} {identity : PodIdentity} {script : Script} {later : List Exchange}
  {a : Action}

theorem keep (h : s.Follows identity script later)
    (hpods : (a.perform s.cluster).2.pods.get? identity.name = s.cluster.pods.get? identity.name)
    (hlook : lookAt? identity.ref (a, (a.perform s.cluster).1) = none)
    (hstranger : ∀ other, a = .fetch other → other.name = identity.name →
      (a.perform s.cluster).1 = .error (.podNotFound other)) :
    (s.take a).Follows identity script (later ++ [(a, (a.perform s.cluster).1)]) := by
  have hsame : (later ++ [(a, (a.perform s.cluster).1)]).filterMap (lookAt? identity.ref) =
      later.filterMap (lookAt? identity.ref) := by
    rw [List.filterMap_append, List.filterMap_cons_none hlook]
    exact List.append_nil _
  refine ⟨?_, ?_, fun other answer hmem hname hne => ?_⟩
  · rw [hsame]
    exact hpods.trans h.there
  · rw [hsame]
    exact h.answers
  · obtain hmem | hmem := List.mem_append.1 hmem
    · exact h.strangers other answer hmem hname hne
    · obtain ⟨rfl, rfl⟩ := Prod.mk.inj (List.mem_singleton.1 hmem)
      exact hstranger other rfl hname

theorem look (h : s.Follows identity script later) :
    (s.take (.fetch identity.ref)).Follows identity script
      (later ++ [(.fetch identity.ref, ((Action.fetch identity.ref).perform s.cluster).1)]) := by
  have hlookup := lookup?_eq_some_iff.2 (⟨h.there, rfl⟩ :
    s.cluster.pods.get? identity.ref.name = some _ ∧ _ = identity.ref.namespaceName)
  have hanswer := answer_fetch hlookup
  have hseen : (later ++ [(Action.fetch identity.ref, ((Action.fetch identity.ref).perform
      s.cluster).1)]).filterMap (lookAt? identity.ref) =
        later.filterMap (lookAt? identity.ref) ++
          [answerAt script identity (later.filterMap (lookAt? identity.ref)).length] := by
    rw [List.filterMap_append, hanswer, List.filterMap_cons_some (lookAt?_self _ _)]
    rfl
  refine ⟨?_, ?_, fun other answer hmem hname hne => ?_⟩
  · rw [hseen, List.length_append, List.length_singleton]
    have hlooked := (looked_fetch identity.ref s.cluster).pods identity.name
    rw [h.there, Option.map_some, if_pos ⟨rfl, rfl⟩] at hlooked
    exact hlooked
  · rw [hseen, List.length_append, List.length_singleton, List.range_succ, List.map_append,
      ← h.answers]
    rfl
  · obtain hmem | hmem := List.mem_append.1 hmem
    · exact h.strangers other answer hmem hname hne
    · cases List.mem_singleton.1 hmem
      exact absurd rfl hne

theorem look_elsewhere (h : s.Follows identity script later) {pod : PodRef}
    (hpod : pod ≠ identity.ref) :
    (s.take (.fetch pod)).Follows identity script
      (later ++ [(.fetch pod, ((Action.fetch pod).perform s.cluster).1)]) := by
  have hother (hname : identity.name = pod.name) : identity.namespaceName ≠ pod.namespaceName :=
    fun hnamespace => hpod (by rw [PodIdentity.ref, hname, hnamespace])
  refine h.keep ?_ (if_neg hpod) fun other hother' hname => ?_
  · have hlooked := (looked_fetch pod s.cluster).pods identity.name
    rw [h.there, Option.map_some, if_neg fun hand => hother hand.1 hand.2] at hlooked
    exact hlooked.trans h.there.symm
  · obtain rfl := Action.fetch.inj hother'
    have hlookup : s.cluster.lookup? pod = none := by
      rw [Option.eq_none_iff_forall_ne_some]
      intro found hfound
      obtain ⟨hget, hnamespace⟩ := lookup?_eq_some_iff.1 hfound
      rw [hname, h.there] at hget
      obtain rfl := Option.some.inj hget
      exact hother hname.symm hnamespace
    obtain ⟨counts, hfetch⟩ := fetch_eq pod s.cluster
    rw [hlookup] at hfetch
    rw [Action.perform, hfetch]
    rfl

theorem take (h : s.Follows identity script later)
    (hgone : gone? (a, (a.perform s.cluster).1) ≠ some identity.ref) :
    (s.take a).Follows identity script (later ++ [(a, (a.perform s.cluster).1)]) := by
  cases a with
  | setScript | failCreate | failDelete | omitPod => exact h.keep rfl rfl fun _ ha => by cases ha
  | create spec =>
    refine h.keep ?_ ?_ fun _ ha => by cases ha
    · obtain ⟨e, hrefused⟩ | ⟨hnone, hcreated⟩ := create_cases spec s.cluster
      · rw [Action.perform, hrefused]
      · have hne : identity.name ≠ spec.name := by
          intro hname
          rw [← hname, h.there] at hnone
          cases hnone
        rw [Action.perform, hcreated]
        exact (Dict.get?_insert ..).trans (if_neg hne)
    · rfl
  | fetch pod =>
    by_cases hpod : pod = identity.ref
    · exact hpod ▸ h.look
    · exact h.look_elsewhere hpod
  | openLogs pod container =>
    refine h.keep ?_ rfl fun _ ha => by cases ha
    rw [openLogs_stays]
  | delete pod =>
    refine h.keep ?_ rfl fun _ ha => by cases ha
    obtain ⟨e, hrefused⟩ | ⟨found, hfound, hdeleted⟩ := delete_cases pod s.cluster
    · rw [Action.perform, hrefused]
    · have hne : identity.name ≠ pod.name := by
        intro hname
        obtain ⟨hget, hnamespace⟩ := lookup?_eq_some_iff.1 hfound
        rw [← hname, h.there] at hget
        obtain rfl := Option.some.inj hget
        refine hgone ?_
        rw [Action.perform, hdeleted, PodIdentity.ref, hname, hnamespace]
        rfl
      rw [Action.perform, hdeleted]
      exact (Dict.get?_erase ..).trans (if_neg hne)

end Session.Follows

/-! ## all pods of a session -/

/-- What holds of a session's scripts, looks and pods: the scripts that are registered are those of
the log; looks are counted by name; and a pod follows the script that was registered when it was
created, until it is deleted. -/
structure Session.Timed (s : Session) : Prop where
  balanced : s.Balanced
  registered : ∀ name, s.cluster.scripts.get? name = registered? s.log name
  counted : ∀ name, s.cluster.fetchCount name = s.log.countP (asksFor name)
  follows : ∀ before spec reply later, s.log = before ++ (.create spec, .ok reply) :: later →
    (∀ e ∈ later, gone? e ≠ some spec.ref) →
    let identity : PodIdentity :=
      ⟨spec.namespaceName, uidText ((before.filterMap made?).length + 1), spec.name⟩
    (reply = .created none ∨ reply = .created (some identity)) ∧
      s.Follows identity ((registered? before spec.name).getD (.usual spec)) later

namespace Session.Timed

variable {s : Session}

theorem empty : Session.Timed {} where
  balanced := .empty
  registered _ := rfl
  counted _ := rfl
  follows before _ _ later h := by
    have hlength := congrArg List.length h
    simp at hlength

theorem registered_take (h : s.Timed) (a : Action) (name : String) :
    (s.take a).cluster.scripts.get? name = registered? (s.take a).log name := by
  have hstart := h.registered name
  rw [Session.take, registered?_concat, ← hstart]
  cases a with
  | setScript other script =>
    show (s.cluster.scripts.insert other script).get? name = _
    rw [Dict.get?_insert, arranges?]
    by_cases hname : other = name
    · rw [if_pos hname.symm, if_pos hname]
      rfl
    · rw [if_neg (Ne.symm hname), if_neg hname]
      rfl
  | failCreate | failDelete | omitPod => rfl
  | create spec =>
    obtain ⟨e, hrefused⟩ | ⟨-, hcreated⟩ := create_cases spec s.cluster
    · rw [Action.perform, hrefused]
      rfl
    · rw [Action.perform, hcreated]
      show (s.cluster.scripts.erase spec.name).get? name = _
      rw [Dict.get?_erase]
      show _ = (arranges? name (.create spec, .ok _)).getD _
      rw [arranges?]
      by_cases hname : spec.name = name
      · rw [if_pos hname.symm, if_pos hname]
        rfl
      · rw [if_neg (Ne.symm hname), if_neg hname]
        rfl
  | fetch pod =>
    show (s.cluster.fetch pod).2.scripts.get? name = _
    rw [(looked_fetch pod s.cluster).scripts]
    rfl
  | openLogs pod container =>
    rw [openLogs_stays]
    rfl
  | delete pod =>
    rw [(delete_keeps pod s.cluster).1]
    rfl

theorem counted_take (h : s.Timed) (a : Action) (name : String) :
    (s.take a).cluster.fetchCount name = (s.take a).log.countP (asksFor name) := by
  have hstart := h.counted name
  rw [Session.take, List.countP_append, ← hstart, List.countP_singleton]
  cases a with
  | setScript | failCreate | failDelete | omitPod => rfl
  | create spec =>
    obtain ⟨e, hrefused⟩ | ⟨-, hcreated⟩ := create_cases spec s.cluster
    · rw [Action.perform, hrefused]
      rfl
    · rw [Action.perform, hcreated]
      rfl
  | fetch pod =>
    refine (fetchCount_fetch pod s.cluster name).trans ?_
    simp only [asksFor, decide_eq_true_eq]
    exact congrArg _ (if_congr eq_comm rfl rfl)
  | openLogs pod container =>
    rw [openLogs_stays]
    rfl
  | delete pod =>
    rw [fetchCount, (delete_keeps pod s.cluster).2]
    rfl

theorem follows_create (h : s.Timed) {spec : PodSpec} {reply : Reply}
    (hreply : ((Action.create spec).perform s.cluster).1 = .ok reply) :
    let identity : PodIdentity :=
      ⟨spec.namespaceName, uidText ((s.log.filterMap made?).length + 1), spec.name⟩
    (reply = .created none ∨ reply = .created (some identity)) ∧
      (s.take (.create spec)).Follows identity
        ((registered? s.log spec.name).getD (.usual spec)) [] := by
  obtain ⟨e, hrefused⟩ | ⟨-, hcreated⟩ := create_cases spec s.cluster
  · rw [Action.perform, hrefused] at hreply
    cases hreply
  · have hcount : s.cluster.lastUid = (s.log.filterMap made?).length := by
      rw [← h.balanced.made, List.length_map]
      exact h.balanced.counted
    have hidentity : (s.cluster.admitPod spec).1 =
        ⟨spec.namespaceName, uidText ((s.log.filterMap made?).length + 1), spec.name⟩ := by
      rw [← hcount]
      rfl
    rw [Action.perform, hcreated] at hreply
    obtain rfl := Except.ok.inj hreply
    refine ⟨?_, ?_, rfl, fun _ _ hmem => absurd hmem List.not_mem_nil⟩
    · rw [← hidentity]
      split
      · exact .inl rfl
      · exact .inr rfl
    · rw [Session.take, Action.perform, hcreated, ← hidentity, ← h.registered]
      exact (Dict.get?_insert ..).trans (if_pos rfl)

/-- **All of that is kept by each call.** -/
theorem take (h : s.Timed) (a : Action) : (s.take a).Timed where
  balanced := h.balanced.take a
  registered := h.registered_take a
  counted := h.counted_take a
  follows before spec reply later hlog hlive := by
    rcases List.eq_nil_or_concat later with rfl | ⟨later, last, rfl⟩
    · obtain ⟨rfl, hlast⟩ := List.append_inj' hlog rfl
      obtain ⟨rfl, hreply⟩ := Prod.mk.inj (List.singleton_inj.1 hlast)
      exact h.follows_create hreply
    · rw [List.concat_eq_append] at hlog hlive ⊢
      rw [← List.cons_append, ← List.append_assoc] at hlog
      obtain ⟨hbefore, hlast⟩ := List.append_inj' hlog rfl
      obtain rfl := List.singleton_inj.1 hlast
      obtain ⟨hearlier, hlater⟩ := List.forall_mem_append.1 hlive
      obtain ⟨htold, hfollows⟩ := h.follows before spec reply later hbefore hearlier
      exact ⟨htold, hfollows.take (hlater _ (List.mem_singleton_self _))⟩

end Session.Timed

/-! ## whole sessions -/

theorem timed_session (actions : List Action) : (session actions).Timed :=
  session_induction .empty (fun _ a h => h.take a) actions

/-- **What a pod shows depends on the looks at it alone.**  In any session, from the creation of a pod
on and as long as it is not deleted, the answer to look number `k` at it is what its script says for
this number, whatever is asked in between: a failure if this look is set to fail, and else frame
number `k`, or the last one, or nothing but the identity if there are none.  A look at its name in
another namespace is no look at it, and finds no pod; but all looks count under the name.  The script
is the one registered since a pod of this name was created before, or the usual one. -/
theorem timeline_of_session (actions : List Action) :
    let s := session actions
    (∀ before spec reply later, s.log = before ++ (.create spec, .ok reply) :: later →
      (∀ e ∈ later, gone? e ≠ some spec.ref) →
      let identity : PodIdentity :=
        ⟨spec.namespaceName, uidText ((before.filterMap made?).length + 1), spec.name⟩
      let script := (registered? before spec.name).getD (.usual spec)
      (reply = .created none ∨ reply = .created (some identity)) ∧
      (∀ k answer, (later.filterMap (lookAt? spec.ref))[k]? = some answer →
        answer = if script.failingFetch = some k then .error (injected "get" spec.ref.text)
          else .ok (.shown (match script.frames[min k (script.frames.size - 1)]? with
            | some f => ⟨identity, f.phase, f.initStatuses, f.statuses⟩
            | none => ⟨identity, .pending, [], []⟩))) ∧
      (∀ other answer, (.fetch other, answer) ∈ later → other.name = spec.name →
        other.namespaceName ≠ spec.namespaceName → answer = .error (.podNotFound other)) ∧
      ∀ first earlier reply' second, before = first ++ (.create earlier, .ok reply') :: second →
        earlier.name = spec.name →
        (∀ new answer, (.setScript spec.name new, answer) ∉ second) → script = .usual spec) ∧
    ∀ name, s.cluster.fetchCount name = s.log.countP (asksFor name) := by
  intro s
  have hs : s.Timed := timed_session actions
  refine ⟨fun before spec reply later hlog hlive => ?_, hs.counted⟩
  obtain ⟨htold, hfollows⟩ := hs.follows before spec reply later hlog hlive
  refine ⟨htold, fun k answer hanswer => ?_, fun other answer hmem hname hnamespace => ?_, ?_⟩
  · have hanswers := hfollows.answers
    rw [show later.filterMap (lookAt? spec.ref) = _ from hanswers, List.getElem?_map,
      Option.map_eq_some_iff] at hanswer
    obtain ⟨n, hn, rfl⟩ := hanswer
    obtain ⟨-, rfl⟩ := List.getElem?_eq_some_iff.1 hn
    rw [List.getElem_range]
    rfl
  · exact hfollows.strangers other answer hmem hname fun heq =>
      hnamespace (congrArg PodRef.namespaceName heq)
  · rintro first earlier reply' second rfl hname hnew
    rw [← hname, registered?_of_created (hname ▸ hnew)]
    rfl

/-- the second look at a pod whose second look fails, behind a look at its name in another namespace
and a creation that is refused -/
theorem timeline_of_failing_look :
    let spec : PodSpec := ⟨"p", "ci", ∅, [], [⟨"step", "i", [], [], ∅⟩]⟩
    let script : Script := { frames := #[⟨.running, [], []⟩], failingFetch := some 1 }
    let actions : List Action :=
      [.setScript "p" script, .create spec, .fetch spec.ref, .fetch ⟨"other", "p"⟩, .create spec,
        .fetch spec.ref, .fetch spec.ref]
    let log := (session actions).log
    let identity : PodIdentity := ⟨"ci", "uid-0001", "p"⟩
    log = log.take 1 ++ (.create spec, .ok (.created (some identity))) :: log.drop 2 ∧
      (∀ e ∈ log.drop 2, gone? e ≠ some spec.ref) ∧
      ((log.drop 2).filterMap (lookAt? spec.ref))[1]? =
        some (.error (.api "get" "ci/p" "injected failure")) := by
  intro spec script actions log identity
  have hlog : log = log.take 1 ++ (.create spec, .ok (.created (some identity))) :: log.drop 2 := by
    show (session actions).log = _
    cbv
  have hlater : (log.drop 2).map gone? = [none, none, none, none, none] := by cbv
  have hlive : ∀ e ∈ log.drop 2, gone? e ≠ some spec.ref := by
    intro e he hgone
    have hmem : some spec.ref ∈ (log.drop 2).map gone? := hgone ▸ List.mem_map_of_mem he
    rw [hlater] at hmem
    simp at hmem
  obtain ⟨answer, hanswer⟩ : ∃ answer, ((log.drop 2).filterMap (lookAt? spec.ref))[1]? = some answer :=
    Option.isSome_iff_exists.1 (by cbv)
  refine ⟨hlog, hlive, hanswer.trans (congrArg some ?_)⟩
  exact (((timeline_of_session actions).1 _ spec _ _ hlog hlive).2.1 1 answer hanswer).trans (by cbv)

end ScriptedCluster

end StepRunner
