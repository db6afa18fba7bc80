import StepRunner.Proofs.Wait.Edges

/-!
# Nothing left to wait for

A watch says that no container is left only where it has handed out every container that the last
snapshot lists.  It rests on one fact about all the waits: whatever a watch knows to be there, it
has handed out.  Once nothing is left no look is taken, so nothing is learnt that could change it.

* `Watch.shownBy`         the snapshots that a wait is shown
* `Watch.afterWaits`      the watch after several waits, one for each world that it is given
* `Watch.Accounts`        a watch against the snapshots shown and the containers handed out
* `Accounts.look`         one look keeps it, and so do a wait and several waits in turn
* `await_of_exhausted`    where nothing is left, a wait changes nothing
* `remaining_of_waits`    nothing is left only where all was handed out, and then for good
-/

namespace StepRunner.Watch

variable {σ : Type}

/-! ## what waits are shown -/

/-- the snapshots that a watch is shown while it looks, as `awaitFrom` does -/
def shownFrom (platform : Platform σ) (interval : Nat) :
    (left polls : Nat) → Watch → World σ → List PodSnapshot
  | 0, _, _, _ => []
  | left + 1, polls, w, world =>
    let world := world.pause (platform.delay .fetch w.pod world.state)
    let (answer, world) := world.fetch platform w.pod
    match w.answer polls answer with
    | (_, some _, _) => answer.toOption.toList
    | (w', none, warnings) =>
      answer.toOption.toList ++ shownFrom platform interval left (polls + 1) w'
        ((world.warn warnings).pause interval)

/-- the snapshots that a watch is shown while it waits for the next container -/
def shownBy (platform : Platform σ) (interval : Nat) (w : Watch) (world : World σ) :
    List PodSnapshot :=
  if w.remaining then shownFrom platform interval w.limit 0 w world else []

/-- The watch after several waits.  Each has a world of its own: between two waits anything may
happen. -/
def afterWaits (platform : Platform σ) (interval : Nat) (w : Watch) (worlds : List (World σ)) :
    Watch :=
  worlds.foldl (fun w world => (w.await platform interval world).2.1) w

/-- the snapshots that several waits are shown, the oldest first -/
def shownIn (platform : Platform σ) (interval : Nat) : Watch → List (World σ) → List PodSnapshot
  | _, [] => []
  | w, world :: worlds =>
    w.shownBy platform interval world ++
      shownIn platform interval (w.await platform interval world).2.1 worlds

/-- the containers that several waits return, the oldest first -/
def handedIn (platform : Platform σ) (interval : Nat) (w : Watch) (worlds : List (World σ)) :
    List Observation :=
  (w.turns platform interval worlds).filterMap (·.outcome.toOption)

/-! ## what a watch accounts for -/

/-- a watch on `pod` that was shown some snapshots, and has handed some containers out -/
structure Accounts (pod : PodRef) (shown : List PodSnapshot) (out : List Observation) (w : Watch) :
    Prop where
  pod : w.pod = pod
  follows : w.Follows shown
  handedOut : w.HandedOut out
  seen : w.seen = true → ∃ s ∈ shown, s.names ≠ []

variable {pod : PodRef} {shown : List PodSnapshot} {out : List Observation} {w watch : Watch}
  {polls : Nat} {outcome : Option Outcome} {platform : Platform σ} {interval : Nat}

theorem accounts_begin (pod : PodRef) (goal : Goal) (limit : Nat) :
    (begin pod goal limit).Accounts pod [] [] :=
  ⟨rfl, follows_begin pod goal limit, handedOut_begin pod goal limit, fun h => Bool.noConfusion h⟩

theorem Accounts.append_nil (h : w.Accounts pod shown out) :
    w.Accounts pod (shown ++ []) (out ++ []) := by
  rwa [List.append_nil, List.append_nil]

theorem Accounts.absorb (h : w.Accounts pod shown out) (s : PodSnapshot) :
    (w.absorb s).1.Accounts pod (shown ++ [s]) (out ++ (w.absorb s).2.toList) := by
  refine ⟨h.pod, h.follows.absorb s, ?_, fun hseen => ?_⟩
  · cases hs : (w.absorb s).2 with
    | none =>
      rw [Option.toList_none, List.append_nil]
      exact h.handedOut.absorb_none hs
    | some o =>
      refine h.handedOut.absorb_some hs ⟨o, by simp, rfl⟩ fun name hname => ?_
      obtain ⟨o', hmem, hname⟩ := hname
      exact ⟨o', List.mem_append_left _ hmem, hname⟩
  · obtain hold | hnew := Bool.or_eq_true_iff.1 hseen
    · obtain ⟨s', hs', hne⟩ := h.seen hold
      exact ⟨s', List.mem_append_left _ hs', hne⟩
    · refine ⟨s, List.mem_append_right _ List.mem_cons_self, fun hnil => ?_⟩
      rw [List.map_eq_nil_iff.1 hnil] at hnew
      cases hnew

theorem Accounts.look (h : w.Accounts pod shown out) {answer : Except ClusterError PodSnapshot}
    (hlook : w.Look polls answer watch outcome) :
    watch.Accounts pod (shown ++ answer.toOption.toList)
      (out ++ (outcome.bind Except.toOption).toList) := by
  cases hlook with
  | refused e => exact h.append_nil
  | @handed s o hs =>
    have habsorb := h.absorb s
    rw [hs] at habsorb
    exact habsorb
  | @nothingLeft s hs | @podFinished s hs | @limitReached s hs | @again s hs =>
    have habsorb := h.absorb s
    rw [hs] at habsorb
    exact habsorb

theorem Accounts.awaitFrom (left : Nat) (h : w.Accounts pod shown out) (world : World σ) :
    (awaitFrom platform interval left polls w world).2.1.Accounts pod
      (shown ++ shownFrom platform interval left polls w world)
      (out ++ (awaitFrom platform interval left polls w world).1.toOption.toList) := by
  induction left generalizing shown polls w world with
  | zero => exact h.append_nil
  | succ left ih =>
    obtain ⟨watch, outcome, warnings, ha⟩ : ∃ watch outcome warnings, w.answer polls
        ((world.pause (platform.delay .fetch w.pod world.state)).fetch platform w.pod).1 =
          (watch, outcome, warnings) := ⟨_, _, _, rfl⟩
    have hlook := h.look (look_of_answer ha)
    cases outcome with
    | some outcome =>
      simp only [Watch.awaitFrom, shownFrom, ha]
      exact hlook
    | none =>
      simp only [Watch.awaitFrom, shownFrom, ha]
      rw [Option.bind_none, Option.toList_none, List.append_nil] at hlook
      rw [← List.append_assoc]
      exact ih hlook _

theorem await_of_exhausted (h : w.remaining = false) (world : World σ) :
    w.await platform interval world = (.error w.nothingLeft, w, world) := by
  rw [Watch.await, h]
  rfl

theorem Accounts.await (platform : Platform σ) (interval : Nat) (h : w.Accounts pod shown out)
    (world : World σ) :
    (w.await platform interval world).2.1.Accounts pod
      (shown ++ w.shownBy platform interval world)
      (out ++ (w.await platform interval world).1.toOption.toList) := by
  cases hr : w.remaining with
  | true =>
    simp only [Watch.await, shownBy, hr, if_true]
    exact h.awaitFrom w.limit world
  | false =>
    have hshown : w.shownBy platform interval world = [] := by simp [shownBy, hr]
    rw [await_of_exhausted hr, hshown]
    exact h.append_nil

theorem Accounts.afterWaits (h : w.Accounts pod shown out) (worlds : List (World σ)) :
    (w.afterWaits platform interval worlds).Accounts pod
      (shown ++ w.shownIn platform interval worlds)
      (out ++ w.handedIn platform interval worlds) := by
  induction worlds generalizing w shown out with
  | nil => exact h.append_nil
  | cons world worlds ih =>
    have hrest := ih (h.await platform interval world)
    rw [List.append_assoc, List.append_assoc] at hrest
    have hhanded : w.handedIn platform interval (world :: worlds) =
        (w.await platform interval world).1.toOption.toList ++
          handedIn platform interval (w.await platform interval world).2.1 worlds := by
      rw [handedIn, turns, List.filterMap_cons]
      cases (w.await platform interval world).1.toOption <;> rfl
    rw [hhanded]
    exact hrest

theorem afterWaits_of_exhausted (h : w.remaining = false) (worlds : List (World σ)) :
    w.afterWaits platform interval worlds = w := by
  induction worlds with
  | nil => rfl
  | cons world worlds ih =>
    rw [afterWaits, List.foldl_cons, await_of_exhausted h]
    exact ih

theorem shownIn_of_exhausted (h : w.remaining = false) (worlds : List (World σ)) :
    w.shownIn platform interval worlds = [] := by
  induction worlds with
  | nil => rfl
  | cons world worlds ih =>
    rw [shownIn, shownBy, h, await_of_exhausted h]
    exact ih

/-- **A watch says that nothing is left only where it has handed everything out**, whatever it is
shown, wait after wait: as long as no snapshot has listed a container there is one left to wait for,
and where none is, each container of the last snapshot was returned by some wait.  From then on
every wait ends with `nothingToWaitFor`, without a look, and leaves the watch and the world as they
are. -/
theorem remaining_of_waits (platform : Platform σ) (interval : Nat) (pod : PodRef) (goal : Goal)
    (limit : Nat) (worlds : List (World σ)) :
    let first := begin pod goal limit
    let w := first.afterWaits platform interval worlds
    let shown := first.shownIn platform interval worlds
    let out := first.handedIn platform interval worlds
    ((∀ s ∈ shown, s.names = []) → w.remaining = true) ∧
      (w.remaining = false →
        (∃ earlier last, shown = earlier ++ [last] ∧
          ∀ name ∈ last.names, ∃ o ∈ out, o.name = name) ∧
        ∀ later : List (World σ),
          w.afterWaits platform interval later = w ∧ w.shownIn platform interval later = [] ∧
            ∀ world, w.await platform interval world =
              (.error (.nothingToWaitFor pod.text), w, world)) := by
  intro first w shown out
  have hw : w.Accounts pod shown out :=
    (accounts_begin pod goal limit).afterWaits worlds
  refine ⟨fun hnone => ?_, fun hr => ?_⟩
  · cases hr : w.remaining with
    | true => rfl
    | false =>
      obtain ⟨s, hs, hne⟩ := hw.seen (met_of_remaining hr).1
      exact absurd (hnone s hs) hne
  · obtain ⟨hseen, hmet⟩ := met_of_remaining hr
    obtain ⟨earlier, last, hshown, htracked, -⟩ := hw.follows.exists_last (hw.follows.seen hseen)
    refine ⟨⟨earlier, last, hshown, fun name hname => ?_⟩, fun later => ⟨?_, ?_, fun world => ?_⟩⟩
    · obtain ⟨o, ho, hm⟩ := hmet name (htracked ▸ hname)
      exact hw.handedOut name o ho hm
    · exact afterWaits_of_exhausted hr later
    · exact shownIn_of_exhausted hr later
    · rw [await_of_exhausted hr, nothingLeft, hw.pod]

/-- a pod that lists no container at first, and then one that is ready -/
theorem remaining_of_scheduled :
    let platform : Platform Bool :=
      { create := fun _ scheduled => (.ok none, scheduled)
        fetch := fun _ scheduled =>
          (.ok (if scheduled then { phase := .running, statuses := [.running "a" true] }
            else { phase := .pending }), true)
        openLogs := fun _ _ scheduled => (.stream (.ofReads []), scheduled)
        delete := fun _ scheduled => (.ok (), scheduled)
        delay := fun _ _ _ => 0 }
    let first := begin ⟨"ns", "p"⟩ .ready 9
    let worlds : List (World Bool) := [{ state := false }]
    let w := first.afterWaits platform 0 worlds
    first.remaining = true ∧ (first.shownIn platform 0 worlds).map (·.names) = [[], ["a"]] ∧
      w.remaining = false ∧ (∃ o ∈ first.handedIn platform 0 worlds, o.name = "a") ∧
        ∀ world, w.await platform 0 world = (.error (.nothingToWaitFor "ns/p"), w, world) := by
  intro platform first worlds w
  have hshown : (first.shownIn platform 0 worlds).map (·.names) = [[], ["a"]] := by decide +kernel
  have hr : w.remaining = false := by decide +kernel
  obtain ⟨hbefore, -⟩ := remaining_of_waits platform 0 ⟨"ns", "p"⟩ .ready 9 []
  obtain ⟨-, hafter⟩ := remaining_of_waits platform 0 ⟨"ns", "p"⟩ .ready 9 worlds
  obtain ⟨⟨earlier, last, hcut, hout⟩, hlater⟩ := hafter hr
  have hlast : ((first.shownIn platform 0 worlds).map (·.names)).getLast? = some last.names := by
    rw [show first.shownIn platform 0 worlds = earlier ++ [last] from hcut, List.map_append]
    exact List.getLast?_concat
  rw [hshown] at hlast
  have hname : "a" ∈ last.names := by
    rw [← Option.some.inj hlast]
    exact List.mem_cons_self
  exact ⟨hbefore fun s hs => absurd hs List.not_mem_nil, hshown, hr, hout "a" hname,
    fun world => (hlater []).2.2 world⟩

end StepRunner.Watch
