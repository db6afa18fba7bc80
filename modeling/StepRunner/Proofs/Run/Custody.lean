import Mathlib.Data.List.Perm.Basic
import StepRunner.Proofs.Cluster.Agreement
import StepRunner.Proofs.Cluster.Holdings
import StepRunner.Proofs.Run.Results

/-!
# Whose pod it is

The runs of a stage on a scripted cluster.  Several of them may ask for pods of one name, and a name
may be taken again once its pod is deleted.  Each pod that is there belongs to the one run that has
created it, and this run deletes it: no other does, and none is left behind.

* `RunEvent.added`, `RunEvent.removed`   the pods that a step has created and deleted
* `RunEvent.Deals`          what a step can do to the pods of the cluster
* `Run.Holds`               a run and the pod that it has created and not deleted yet
* `Crew.Custody`            each pod that is there is that of one run
* `Custody.move`            every move leaves it so
* `custody_of_play`         a stage leaves no pod behind, and each of its steps deletes its own only
-/

namespace StepRunner

/-! ## pods created and deleted -/

namespace RunEvent

variable {e : RunEvent PacedCluster} {gained lost : List PodIdentity}

/-- the pods that a step has created -/
def added (e : RunEvent PacedCluster) : List PodIdentity :=
  e.left.state.cluster.created.drop e.seen.state.cluster.created.length

/-- the pods that a step has deleted -/
def removed (e : RunEvent PacedCluster) : List PodIdentity :=
  e.left.state.cluster.deleted.drop e.seen.state.cluster.deleted.length

theorem added_of_turnover
    (h : ScriptedCluster.Turnover e.seen.state.cluster e.left.state.cluster gained lost) :
    e.added = gained := by
  rw [added, h.created, List.drop_left]

theorem removed_of_turnover
    (h : ScriptedCluster.Turnover e.seen.state.cluster e.left.state.cluster gained lost) :
    e.removed = lost := by
  rw [removed, h.deleted, List.drop_left]

/-- What a step can do to the pods of the cluster: nothing, or create the pod that its run has from
then on, or delete the pod that its run has had. -/
inductive Deals (e : RunEvent PacedCluster) : Prop where
  | idle (howned : e.after.owned? = e.before.owned?)
      (ht : ScriptedCluster.Turnover e.seen.state.cluster e.left.state.cluster [] [])
  | begins {spec : PodSpec} {p : PodIdentity} (hbefore : e.before.owned? = none)
      (hafter : e.after.owned? = some spec) (hp : p.ref = spec.ref)
      (ht : ScriptedCluster.Turnover e.seen.state.cluster e.left.state.cluster [p] [])
  | ends {spec : PodSpec} {p : PodIdentity} (hbefore : e.before.owned? = some spec)
      (hafter : e.after.owned? = none) (hp : p.ref = spec.ref)
      (hcall : ⟨e.seen.now, spec.ref, .deleted true⟩ ∈ e.calls)
      (ht : ScriptedCluster.Turnover e.seen.state.cluster e.left.state.cluster [] [p])

end RunEvent

theorem ScriptedCluster.Turnover.refl (c : ScriptedCluster) : Turnover c c [] [] :=
  ⟨(List.append_nil _).symm, (List.append_nil _).symm, .refl _⟩

namespace Run

variable {config : Config} {build : StepDefinition → Built} {r r' : Run} {w w' : World PacedCluster}
  {task : Option Nat}

theorem deals_of_same (horderly : w.state.cluster.Orderly) (hstate : w'.state = w.state)
    (howned : r'.owned? = r.owned?) :
    RunEvent.Deals ⟨task, r, w, r', w'⟩ ∧ w'.state.cluster.Orderly := by
  refine ⟨.idle howned ?_, hstate ▸ horderly⟩
  show ScriptedCluster.Turnover w.state.cluster w'.state.cluster [] []
  rw [hstate]
  exact .refl _

theorem deals_of_fetch (pod : PodRef) (horderly : w.state.cluster.Orderly)
    (hstate : w'.state.cluster = (w.state.cluster.fetch pod).2) (howned : r'.owned? = r.owned?) :
    RunEvent.Deals ⟨task, r, w, r', w'⟩ ∧ w'.state.cluster.Orderly := by
  obtain ⟨hafter, hturnover⟩ := horderly.fetch pod
  rw [← hstate] at hafter hturnover
  exact ⟨.idle howned hturnover, hafter⟩

theorem Transition.deals (ht : Transition ⟨pacedPlatform, config, build⟩ r w r' w') (htidy : r.Tidy)
    (horderly : w.state.cluster.Orderly)
    (hpod : ∀ spec, r.owned? = some spec → ∃ p ∈ w.state.cluster.live, p.ref = spec.ref) :
    RunEvent.Deals ⟨task, r, w, r', w'⟩ ∧ w'.state.cluster.Orderly := by
  cases ht with
  | cancelledEarly hp | buildPanicked hp | buildRefused hp | built hp =>
    exact deals_of_same horderly rfl (by simp [owned?, hp, goTo])
  | asked | joinedPanicked | joined => exact deals_of_same horderly rfl rfl
  | cancelled hp => exact deals_of_same horderly rfl (owned?_of_inHand? hp).symm
  | @announced spec s container hp =>
    refine deals_of_same horderly rfl ?_
    rw [owned?_of_streamed? (afterNotice_spec r spec s container w.now).1]
    simp [owned?, hp]
  | @joinedAll spec fatal hp =>
    refine deals_of_same horderly ?_ ?_
    · split <;> rfl
    · rw [(afterJoining_spec ⟨pacedPlatform, config, build⟩ r spec fatal w.now htidy.whole).1]
      simp [owned?, hp]
  | @streamingLook spec s watch outcome _ hp =>
    refine deals_of_fetch spec.ref horderly rfl ?_
    rw [owned?_of_streamed? (afterStreaming_spec r spec { s with watch } w.now outcome).1]
    simp [owned?, hp]
  | @streamingAgain spec _ _ _ hp | @finishingAgain spec _ _ _ hp =>
    exact deals_of_fetch spec.ref horderly rfl (by simp [owned?, hp, goToAfter])
  | @finishingLook spec f watch outcome _ hp =>
    refine deals_of_fetch spec.ref horderly rfl ?_
    rw [(afterFinishing_spec ⟨pacedPlatform, config, build⟩ r spec { f with watch } w.now outcome
      htidy.whole).1]
    simp [owned?, hp]
  | @createRefused spec e state hp _ ha =>
    obtain ⟨e', hrefused⟩ | ⟨answer, c', p, hok, -⟩ := horderly.create spec
    · rw [pacedPlatform_create hrefused] at ha
      cases ha
      exact deals_of_same horderly rfl (by simp [owned?, hp, goTo])
    · rw [pacedPlatform_create hok] at ha
      cases ha
  | @created spec identity state hp _ ha =>
    obtain ⟨e', hrefused⟩ | ⟨answer, c', p, hok, hafter, href, hturnover⟩ := horderly.create spec
    · rw [pacedPlatform_create hrefused] at ha
      cases ha
    · rw [pacedPlatform_create hok] at ha
      cases ha
      have hstate (w' : World PacedCluster) (h : w'.state.cluster = c') :
          RunEvent.Deals ⟨task, r, w, r.goTo (beginStreaming ⟨pacedPlatform, config, build⟩ spec)
            w.now, w'⟩ ∧ w'.state.cluster.Orderly := by
        subst h
        exact ⟨.begins (by simp [owned?, hp]) rfl href hturnover, hafter⟩
      split <;> exact hstate _ rfl
  | @deleteRefused spec outcome e state hp _ ha =>
    obtain ⟨p, hmem, href⟩ := hpod spec (by simp [owned?, hp])
    obtain ⟨c', hok, -⟩ := horderly.delete hmem
    rw [← href, pacedPlatform_delete hok] at ha
    cases ha
  | @deleted spec outcome state hp _ ha =>
    obtain ⟨p, hmem, href⟩ := hpod spec (by simp [owned?, hp])
    obtain ⟨c', hok, hafter, hturnover⟩ := horderly.delete hmem
    rw [← href, pacedPlatform_delete hok] at ha
    cases ha
    refine ⟨.ends (by simp [owned?, hp]) rfl href ?_ hturnover, hafter⟩
    rw [RunEvent.calls_of_append [⟨w.now, spec.ref, .deleted true⟩] rfl]
    exact List.mem_cons_self

end Run

namespace RunEvent

variable {config : Config} {build : StepDefinition → Built} {e : RunEvent PacedCluster}

theorem deals (hv : e.Valid ⟨pacedPlatform, config, build⟩) (htidy : e.before.Tidy)
    (horderly : e.seen.state.cluster.Orderly)
    (hpod : ∀ spec, e.before.owned? = some spec →
      ∃ p ∈ e.seen.state.cluster.live, p.ref = spec.ref) :
    e.Deals ∧ e.left.state.cluster.Orderly := by
  obtain ⟨task, r, w, r', w'⟩ := e
  cases task with
  | none => exact (Run.transition_of_act hv).deals htidy horderly hpod
  | some id =>
    obtain ⟨t, result, -, ht, hw', hr'⟩ := Run.transition_of_actTask hv
    have hstate : w'.state = w.state :=
      (congrArg World.state hw').trans (ht.state_eq Platform.steady_paced)
    have howned : r'.owned? = r.owned? := (congrArg Run.owned? hr').trans rfl
    exact Run.deals_of_same horderly hstate howned

end RunEvent

/-! ## each run and its pod -/

theorem Lifecycle.of_refused {built : Built} {calls : List CallRecord} {last : Run.Phase}
    (h : Lifecycle built calls last) {call : CallRecord} (hcall : call ∈ calls)
    (hrefused : call.event = .created false) :
    ∀ other ∈ calls, ∀ ok, other.event ≠ .deleted ok := by
  cases h with
  | untouched => cases hcall
  | refused =>
    intro other hother ok
    obtain rfl := List.mem_singleton.1 hother
    simp
  | whole _ time looks hlooks time' ok =>
    rcases List.mem_append.1 hcall with hcall | hcall
    · obtain rfl | hcall := List.mem_cons.1 hcall
      · cases hrefused
      · have hlook := (hlooks call hcall).2
        rw [hrefused] at hlook
        cases hlook
    · obtain rfl := List.mem_singleton.1 hcall
      cases hrefused

/-- A run with the pods that its steps have created and deleted: these are the same, or the last one
is still to be deleted, and is there. -/
inductive Run.HasPod (c : ScriptedCluster) (past : List (RunEvent PacedCluster)) (r : Run) :
    Prop where
  | nothing (howned : r.owned? = none)
      (hall : past.flatMap RunEvent.added = past.flatMap RunEvent.removed)
  | pod {spec : PodSpec} {p : PodIdentity} (howned : r.owned? = some spec) (hp : p.ref = spec.ref)
      (hlive : p ∈ c.live)
      (hall : past.flatMap RunEvent.added = past.flatMap RunEvent.removed ++ [p])

structure Run.Holds (c : ScriptedCluster) (past : List (RunEvent PacedCluster)) (r : Run) :
    Prop where
  tidy : r.Tidy
  pod : r.HasPod c past
  /-- what is deleted was asked for -/
  asked : past.flatMap RunEvent.removed = [] ∨
    ∃ call ∈ past.flatMap RunEvent.calls, call.event = .deleted true

namespace Run

variable {c c' : ScriptedCluster} {past : List (RunEvent PacedCluster)} {r : Run}
  {e : RunEvent PacedCluster}

theorem HasPod.there (h : r.HasPod c past) {spec : PodSpec} (howned : r.owned? = some spec) :
    ∃ p ∈ c.live, p.ref = spec.ref := by
  cases h with
  | nothing hnone =>
    rw [howned] at hnone
    cases hnone
  | pod hsome hp hlive =>
    obtain rfl := Option.some.inj (howned.symm.trans hsome)
    exact ⟨_, hlive, hp⟩

/-- what others do with their pods does not change whose this one is -/
theorem HasPod.frame (h : r.HasPod c past) (hlive : ∀ spec, r.owned? = some spec →
      ∀ p ∈ c.live, p.ref = spec.ref → p ∈ c'.live) : r.HasPod c' past := by
  cases h with
  | nothing howned hall => exact .nothing howned hall
  | pod howned hp hmem hall => exact .pod howned hp (hlive _ howned _ hmem hp) hall

theorem HasPod.event (h : e.before.HasPod e.seen.state.cluster past) (hdeals : e.Deals)
    (horderly : e.seen.state.cluster.Orderly) :
    e.after.HasPod e.left.state.cluster (past ++ [e]) := by
  have hboth {gained lost : List PodIdentity}
      (ht : ScriptedCluster.Turnover e.seen.state.cluster e.left.state.cluster gained lost) :
      (past ++ [e]).flatMap RunEvent.added = past.flatMap RunEvent.added ++ gained ∧
        (past ++ [e]).flatMap RunEvent.removed = past.flatMap RunEvent.removed ++ lost := by
    rw [RunEvent.flatMap_concat, RunEvent.flatMap_concat, RunEvent.added_of_turnover ht,
      RunEvent.removed_of_turnover ht]
    exact ⟨rfl, rfl⟩
  cases hdeals with
  | idle howned ht =>
    obtain ⟨hadded, hremoved⟩ := hboth ht
    rw [List.append_nil] at hadded hremoved
    cases h with
    | nothing hnone hall =>
      exact .nothing (howned.trans hnone) (by rw [hadded, hremoved, hall])
    | pod hsome hp hlive hall =>
      exact .pod (howned.trans hsome) hp (ht.live.symm.mem_iff.1 hlive)
        (by rw [hadded, hremoved, hall])
  | begins hbefore hafter hp ht =>
    obtain ⟨hadded, hremoved⟩ := hboth ht
    rw [List.append_nil] at hremoved
    cases h with
    | nothing _ hall =>
      exact .pod hafter hp (ht.live.symm.mem_iff.1 List.mem_cons_self)
        (by rw [hadded, hremoved, hall])
    | pod hsome =>
      rw [hbefore] at hsome
      cases hsome
  | @ends spec p hbefore hafter hp _ ht =>
    obtain ⟨hadded, hremoved⟩ := hboth ht
    rw [List.append_nil] at hadded
    cases h with
    | nothing hnone =>
      rw [hbefore] at hnone
      cases hnone
    | @pod spec' p' hsome hp' hlive hall =>
      -- no two pods have one name, so the pod deleted is the one that the run has created
      obtain rfl := Option.some.inj (hbefore.symm.trans hsome)
      have hmem : p ∈ e.seen.state.cluster.live := ht.live.mem_iff.1 List.mem_cons_self
      have hsame : p' = p :=
        horderly.eq_of_name hlive hmem (congrArg PodRef.name (hp'.trans hp.symm))
      exact .nothing hafter (by rw [hadded, hremoved, hall, hsame])

theorem Holds.event {config : Config} {build : StepDefinition → Built}
    (h : e.before.Holds e.seen.state.cluster past) (hv : e.Valid ⟨pacedPlatform, config, build⟩)
    (hdeals : e.Deals) (horderly : e.seen.state.cluster.Orderly) :
    e.after.Holds e.left.state.cluster (past ++ [e]) := by
  refine ⟨(h.tidy.event hv).1, h.pod.event hdeals horderly, ?_⟩
  rw [RunEvent.flatMap_concat, RunEvent.flatMap_concat]
  have hstill (hnone : e.removed = []) : past.flatMap RunEvent.removed ++ e.removed = [] ∨
      ∃ call ∈ past.flatMap RunEvent.calls ++ e.calls, call.event = .deleted true := by
    rw [hnone, List.append_nil]
    exact h.asked.imp_right fun ⟨call, hmem, hevent⟩ =>
      ⟨call, List.mem_append_left _ hmem, hevent⟩
  cases hdeals with
  | idle _ ht | begins _ _ _ ht => exact hstill (RunEvent.removed_of_turnover ht)
  | ends _ _ _ hcall => exact .inr ⟨_, List.mem_append_right _ hcall, rfl⟩

end Run

/-! ## all runs -/

def Run.ownedRef? (r : Run) : Option PodRef := r.owned?.map (·.ref)

theorem Run.ownedRef?_of_owned? {r : Run} {spec : PodSpec} (h : r.owned? = some spec) :
    r.ownedRef? = some spec.ref := by
  rw [ownedRef?, h]
  rfl

theorem Run.ownedRef?_eq_none {r : Run} (h : r.owned? = none) : r.ownedRef? = none := by
  rw [ownedRef?, h]
  rfl

namespace Crew

variable {config : Config} {build : StepDefinition → Built} {c : Crew PacedCluster}
  {past : Nat → List (RunEvent PacedCluster)}

/-- Each pod that is there is the pod of one run, and what each run has deleted is what it has
created. -/
structure Custody (c : Crew PacedCluster) (past : Nat → List (RunEvent PacedCluster)) : Prop where
  orderly : c.world.state.cluster.Orderly
  /-- the pods that are there are those that the runs have -/
  held : (c.world.state.cluster.live.map (·.ref)).Perm (c.runs.filterMap Run.ownedRef?)
  own : ∀ (i : Nat) (r : Run), c.runs[i]? = some r → r.Holds c.world.state.cluster (past i)

theorem perm_ownedRef? {r : Run} {i : Nat} {runs : List Run} (hr : runs[i]? = some r) :
    (runs.filterMap Run.ownedRef?).Perm
      (r.ownedRef?.toList ++ (runs.eraseIdx i).filterMap Run.ownedRef?) := by
  obtain ⟨hlt, rfl⟩ := List.getElem?_eq_some_iff.1 hr
  refine ((List.getElem_cons_eraseIdx_perm hlt).symm.filterMap Run.ownedRef?).trans (.of_eq ?_)
  rw [List.filterMap_cons]
  cases runs[i].ownedRef? <;> rfl

theorem Custody.ref_ne (h : c.Custody past) {i j : Nat} {r s : Run} {spec spec' : PodSpec}
    (hr : c.runs[i]? = some r) (hs : c.runs[j]? = some s) (hne : j ≠ i)
    (hspec : r.owned? = some spec) (hspec' : s.owned? = some spec') : spec'.ref ≠ spec.ref := by
  intro href
  have hnodup := (h.held.trans (perm_ownedRef? hr)).nodup h.orderly.refs_nodup
  rw [Run.ownedRef?_of_owned? hspec] at hnodup
  refine (List.nodup_cons.1 hnodup).1 (List.mem_filterMap.2 ⟨s, ?_, ?_⟩)
  · exact List.mem_eraseIdx_iff_getElem?.2 ⟨j, hne, hs⟩
  · rw [Run.ownedRef?_of_owned? hspec', href]

theorem Custody.event (h : c.Custody past) {i : Nat} {e : RunEvent PacedCluster}
    (hr : c.runs[i]? = some e.before) (hseen : e.seen = c.world)
    (hv : e.Valid ⟨pacedPlatform, config, build⟩) {c' : Crew PacedCluster}
    (hruns : c'.runs = c.runs.set i e.after) (hstate : c'.world.state = e.left.state) :
    c'.Custody fun j => if j = i then past i ++ [e] else past j := by
  have hholds := h.own i e.before hr
  have horderly := h.orderly
  have hbefore := h.held.trans (perm_ownedRef? hr)
  rw [← hseen] at hholds horderly hbefore
  obtain ⟨hdeals, hafter⟩ := e.deals hv hholds.tidy horderly fun _ => hholds.pod.there
  have hset : c'.runs[i]? = some e.after := by
    rw [hruns]
    exact List.getElem?_set_self (List.getElem?_eq_some_iff.1 hr).1
  refine ⟨by rw [hstate]; exact hafter, ?held, fun j s hs => ?own⟩
  case held =>
    rw [hstate]
    refine List.Perm.trans ?_ (perm_ownedRef? hset).symm
    rw [hruns, List.eraseIdx_set_eq]
    cases hdeals with
    | idle howned ht =>
      rw [show e.after.ownedRef? = e.before.ownedRef? by rw [Run.ownedRef?, howned]; rfl]
      exact (ht.live.map _).trans hbefore
    | begins hnone hsome hp ht =>
      rw [Run.ownedRef?_eq_none hnone] at hbefore
      rw [Run.ownedRef?_of_owned? hsome, ← hp]
      exact (ht.live.map _).trans (hbefore.cons _)
    | @ends spec p hsome hnone hp _ ht =>
      rw [Run.ownedRef?_of_owned? hsome, ← hp] at hbefore
      rw [Run.ownedRef?_eq_none hnone]
      exact ((ht.live.map (·.ref)).trans hbefore).cons_inv
  case own =>
    by_cases hj : j = i
    · subst hj
      obtain rfl := Option.some.inj (hset.symm.trans hs)
      rw [if_pos rfl, hstate]
      exact hholds.event hv hdeals horderly
    · rw [hruns, List.getElem?_set_ne (Ne.symm hj)] at hs
      have hsholds := h.own j s hs
      rw [← hseen] at hsholds
      rw [if_neg hj, hstate]
      refine ⟨hsholds.tidy, hsholds.pod.frame fun spec hspec q hq href => ?_, hsholds.asked⟩
      cases hdeals with
      | idle _ ht => exact ht.live.symm.mem_iff.1 hq
      | begins _ _ _ ht => exact ht.live.symm.mem_iff.1 (List.mem_cons_of_mem _ hq)
      | ends hsome _ hp _ ht =>
        obtain rfl | hq := List.mem_cons.1 (ht.live.symm.mem_iff.1 hq)
        · exact absurd (href.symm.trans hp) (h.ref_ne hr hs hj hsome hspec)
        · exact hq

/-- every move leaves each pod with its run -/
theorem Custody.move (config : Config) (build : StepDefinition → Built) (h : c.Custody past)
    (m : Move) :
    (c.move ⟨pacedPlatform, config, build⟩ m).Custody fun i =>
      past i ++ (c.event? ⟨pacedPlatform, config, build⟩ i m).toList := by
  obtain ⟨hnone, hruns, hsame⟩ | ⟨i, e, hr, hseen, hv, hevent, hother, hruns, hsame⟩ :=
    move_cases ⟨pacedPlatform, config, build⟩ c m
  · refine ⟨?_, ?_, fun i r hr => ?_⟩
    · rw [hsame.state]
      exact h.orderly
    · rw [hsame.state, hruns]
      exact h.held
    · rw [hruns] at hr
      rw [hsame.state, hnone, Option.toList_none, List.append_nil]
      exact h.own i r hr
  · have hpast : (fun j => if j = i then past i ++ [e] else past j) = fun j =>
        past j ++ (c.event? ⟨pacedPlatform, config, build⟩ j m).toList := by
      funext j
      by_cases hj : j = i
      · subst hj
        rw [if_pos rfl, hevent, Option.toList_some]
      · rw [if_neg hj, hother j hj, Option.toList_none, List.append_nil]
    rw [← hpast]
    exact h.event hr hseen hv hruns hsame.state

theorem Custody.play (h : c.Custody past) (moves : List Move) :
    (c.play ⟨pacedPlatform, config, build⟩ moves).Custody fun i =>
      past i ++ c.events ⟨pacedPlatform, config, build⟩ i moves := by
  induction moves generalizing c past with
  | nil =>
    simp only [events, List.append_nil]
    exact h
  | cons m moves ih =>
    have hrest := ih (h.move config build m)
    simp only [List.append_assoc] at hrest
    exact hrest

theorem custody_begun {steps : List StepDefinition} {world : World PacedCluster}
    {policy : Option FailurePolicy} (horderly : world.state.cluster.Orderly)
    (hlive : world.state.cluster.live = []) :
    (begun steps world policy).Custody fun _ => [] := by
  have hnone : ∀ r ∈ (begun steps world policy).runs, r.owned? = none := by
    intro r hr
    obtain ⟨step, -, rfl⟩ := List.mem_map.1 hr
    rfl
  refine ⟨horderly, ?_, fun i r hr => ?_⟩
  · have hrefs : (begun steps world policy).runs.filterMap Run.ownedRef? = [] :=
      List.filterMap_eq_nil_iff.2 fun r hr => Run.ownedRef?_eq_none (hnone r hr)
    rw [hrefs, show (begun steps world policy).world = world from rfl, hlive]
    exact .refl _
  · have hr' := List.mem_of_getElem? hr
    obtain ⟨step, -, rfl⟩ := List.mem_map.1 hr'
    exact ⟨.of_nil rfl rfl, .nothing rfl rfl, .inl rfl⟩

/-- **A stage leaves no pod behind, and each of its steps deletes its own only**, under every
schedule, on a cluster that does not fail to delete: once all steps are over, no pod is there, and
those deleted are those created, each of them once.  What a step has deleted it has created; and
where it has failed to create its pod, it asks for no deletion. -/
theorem custody_of_play (config : Config) (build : StepDefinition → Built) (policy : FailurePolicy)
    (stage : StageDefinition) (world : World PacedCluster) (moves : List Move)
    (hobeys : world.state.cluster.deleteFailures = []) (hpods : world.state.cluster.pods = ∅)
    (hcreated : world.state.cluster.created = []) (hdeleted : world.state.cluster.deleted = []) :
    let setup : Setup PacedCluster := ⟨pacedPlatform, config, build⟩
    let first := begun stage.steps world (some policy)
    let last := first.play setup moves
    let cluster := last.world.state.cluster
    (last.isOver = true →
      cluster.pods = ∅ ∧ cluster.deleted.Perm cluster.created ∧ cluster.deleted.Nodup) ∧
    ∀ i step, stage.steps[i]? = some step →
      let past := first.events setup i moves
      past.flatMap RunEvent.removed <+: past.flatMap RunEvent.added ∧
      (last.isOver = true → past.flatMap RunEvent.removed = past.flatMap RunEvent.added) ∧
      ((∃ call ∈ past.flatMap RunEvent.calls, call.event = .created false) →
        past.flatMap RunEvent.removed = [] ∧
          ∀ call ∈ past.flatMap RunEvent.calls, ∀ ok, call.event ≠ .deleted ok) := by
  intro setup first last cluster
  have hempty : world.state.cluster.live = [] := by
    rw [ScriptedCluster.live, hpods]
    rfl
  have horderly := ScriptedCluster.orderly_of_empty hobeys hpods hcreated hdeleted
  have hcustody : last.Custody fun i => first.events setup i moves :=
    (custody_begun horderly hempty).play moves
  have hnone (hover : last.isOver = true) (r : Run) (hr : r ∈ last.runs) : r.owned? = none := by
    have ho : r.isOver = true := List.all_eq_true.1 hover r hr
    unfold Run.isOver at ho
    unfold Run.owned?
    split at ho <;> simp_all
  refine ⟨fun hover => ?_, fun i step hstep => ?_⟩
  · have hrefs : last.runs.filterMap Run.ownedRef? = [] :=
      List.filterMap_eq_nil_iff.2 fun r hr => Run.ownedRef?_eq_none (hnone hover r hr)
    have hheld := hcustody.held
    rw [hrefs] at hheld
    exact hcustody.orderly.settled (List.map_eq_nil_iff.1 hheld.eq_nil)
  · have hbegin : first.runs[i]? = some { step } := runs_begun hstep
    obtain ⟨r, hr, rest, final, hlife, -⟩ : ∃ r : Run, last.runs[i]? = some r ∧
        ∃ rest final, Lifecycle (setup.build step)
          ((first.events setup i moves).flatMap RunEvent.calls ++ rest) final ∧
        (r.isOver = true → rest = [] ∧ final = r.phase) := lifecycle_among_others hbegin moves
    have hholds := hcustody.own i r hr
    refine ⟨?_, fun hover => ?_, fun hfailed => ?_⟩
    · cases hholds.pod with
      | nothing _ hall => exact hall ▸ List.prefix_refl _
      | pod _ _ _ hall => exact ⟨_, hall.symm⟩
    · cases hholds.pod with
      | nothing _ hall => exact hall.symm
      | pod howned =>
        rw [hnone hover r (List.mem_of_getElem? hr)] at howned
        cases howned
    · obtain ⟨call, hcall, hrefused⟩ := hfailed
      have hkept (other) (h : other ∈ (first.events setup i moves).flatMap RunEvent.calls) :=
        hlife.of_refused (List.mem_append_left _ hcall) hrefused other (List.mem_append_left _ h)
      refine ⟨?_, hkept⟩
      obtain hnothing | ⟨other, hother, hevent⟩ := hholds.asked
      · exact hnothing
      · exact absurd hevent (hkept other hother true)

/-- three steps with one name for their pods: the second finds it taken, and the third takes it once
the pod of the first is deleted -/
theorem custody_of_clash :
    let build (_ : StepDefinition) : Built :=
      .spec { name := "p", namespaceName := "ns", containers := [{ name := "a", image := "i" }] }
    let setup : Setup PacedCluster := ⟨pacedPlatform, {}, build⟩
    let step : StepDefinition := { name := "s", image := "i" }
    let stage : StageDefinition := { name := "test", steps := [step, step, step] }
    let world : World PacedCluster := { state := {}, channel := { room := 9 } }
    let begin (i : Nat) : List Move := List.replicate 3 (.act (.run i))
    let rest (i : Nat) : List Move :=
      List.replicate 3 (.act (.run i)) ++ List.replicate 3 (.act (.logTask i 0)) ++
        List.replicate 6 (.act (.run i))
    let moves := begin 0 ++ begin 1 ++ rest 0 ++ begin 2 ++ rest 2
    let first := begun stage.steps world (some .runToCompletion)
    let cluster := (first.play setup moves).world.state.cluster
    cluster.created = [⟨"ns", "uid-0001", "p"⟩, ⟨"ns", "uid-0002", "p"⟩] ∧ cluster.pods = ∅ ∧
      cluster.deleted.Perm cluster.created ∧ cluster.deleted.Nodup ∧
      (first.events setup 1 moves).flatMap RunEvent.removed = [] := by
  intro build setup step stage world begin rest moves first cluster
  have hcreated : cluster.created = [⟨"ns", "uid-0001", "p"⟩, ⟨"ns", "uid-0002", "p"⟩] := by
    decide +kernel
  have hover : (first.play setup moves).isOver = true := by decide +kernel
  have hrefused : ((first.events setup 1 moves).flatMap RunEvent.calls).any
      (fun call => call.event = .created false) = true := by decide +kernel
  obtain ⟨call, hcall, hevent⟩ := List.any_eq_true.1 hrefused
  -- from here on it does not matter which moves these are
  clear_value moves
  have hall := custody_of_play {} build .runToCompletion stage world moves rfl rfl rfl rfl
  obtain ⟨hpods, hperm, hnodup⟩ := hall.1 hover
  exact ⟨hcreated, hpods, hperm, hnodup,
    ((hall.2 1 step rfl).2.2 ⟨call, hcall, of_decide_eq_true hevent⟩).1⟩

end Crew

end StepRunner
