import StepRunner.Cluster.Scripted

/-!
# What a scripted cluster holds

Each pod that was created and not deleted is there, once, whatever calls are made: the pods created
are those deleted together with those that are there.

* `uidText_injective`          no two pods have one identifier
* `fetch_eq`                   what a look comes to
* `create_cases`               what a creation comes to
* `delete_cases`               what a deletion comes to
* `ScriptedCluster.live`       the pods that are there
* `ScriptedCluster.Books`      the account of pods created, deleted and there
* `ScriptedCluster.Orderly`    the same on a cluster that deletes what it is told to
* `ScriptedCluster.Turnover`   what is created and deleted between two states
* `Books.admitPod`, `Books.fetch`, `Books.remove`       what each call does to the account
* `Orderly.create`, `Orderly.fetch`, `Orderly.delete`   the same for a cluster that deletes
-/

namespace StepRunner.ScriptedCluster

/-! ## identifiers -/

theorem uidText_injective : Function.Injective uidText := by
  intro m n h
  have hdigits := congrArg String.toList h
  simp only [uidText, String.toList_append, String.toList_ofList, List.append_cancel_left_eq]
    at hdigits
  have hvalue := congrArg (Nat.ofDigitChars 10 · 0) hdigits
  simpa only [Nat.ofDigitChars_append, Nat.ofDigitChars_replicate_zero, Nat.mul_zero,
    Nat.ofDigitChars_ten_toDigits] using hvalue

/-! ## looks -/

variable {c c' : ScriptedCluster} {p : PodIdentity}

theorem lookup?_eq_some_iff {pod : PodRef} {live : LivePod} :
    c.lookup? pod = some live ↔
      c.pods.get? pod.name = some live ∧ live.identity.namespaceName = pod.namespaceName := by
  unfold lookup?
  cases c.pods.get? pod.name with
  | none => exact iff_of_false nofun fun h => nomatch h.1
  | some other =>
    dsimp only
    rw [Option.ite_none_right_eq_some, Option.some.injEq, and_comm]
    constructor
    · rintro ⟨rfl, hnamespace⟩
      exact ⟨rfl, hnamespace⟩
    · rintro ⟨rfl, hnamespace⟩
      exact ⟨rfl, hnamespace⟩

theorem get?_of_lookup? {pod : PodRef} {live : LivePod} (h : c.lookup? pod = some live) :
    c.pods.get? pod.name = some live :=
  (lookup?_eq_some_iff.1 h).1

/-- a look at a pod, apart from the count of looks under its name, which no call depends on -/
theorem fetch_eq (pod : PodRef) (c : ScriptedCluster) :
    ∃ counts, c.fetch pod = match c.lookup? pod with
      | none => (.error (.podNotFound pod), { c with fetchCounts := counts })
      | some p =>
        (if p.script.failingFetch = some p.fetches then
            .error (injected "get" p.identity.ref.text)
          else .ok (p.script.snapshotAt p.identity p.fetches),
          { c with
            pods := c.pods.insert pod.name { p with fetches := p.fetches + 1 }
            fetchCounts := counts }) := by
  refine ⟨c.fetchCounts.insert pod.name (c.fetchCount pod.name + 1), ?_⟩
  have hlookup : lookup? { c with
      fetchCounts := c.fetchCounts.insert pod.name (c.fetchCount pod.name + 1) } pod =
        c.lookup? pod := rfl
  unfold ScriptedCluster.fetch
  dsimp only at hlookup ⊢
  rw [hlookup]
  cases c.lookup? pod with
  | none => rfl
  | some p =>
    dsimp only
    split <;> rfl

/-! ## creations and deletions -/

/-- a creation is refused and leaves the cluster as it is, or it is of a name that was free -/
theorem create_cases (spec : PodSpec) (c : ScriptedCluster) :
    (∃ e, c.create spec = (.error e, c)) ∨
      c.pods.get? spec.name = none ∧ c.create spec =
        (.ok (if spec.name ∈ c.omitted then none else some (c.admitPod spec).1),
          (c.admitPod spec).2) := by
  unfold ScriptedCluster.create
  split
  next e _ => exact .inl ⟨e, rfl⟩
  next =>
    split
    next => exact .inl ⟨_, rfl⟩
    next =>
      split
      next => exact .inl ⟨_, rfl⟩
      next hfree => exact .inr ⟨by simpa [Dict.contains] using hfree, rfl⟩

/-- a deletion is refused and leaves the cluster as it is, or it is of a pod that is there -/
theorem delete_cases (pod : PodRef) (c : ScriptedCluster) :
    (∃ e, c.delete pod = (.error e, c)) ∨
      ∃ found, c.lookup? pod = some found ∧ c.delete pod =
        (.ok (), { c with
          pods := c.pods.erase pod.name
          deleted := c.deleted ++ [found.identity] }) := by
  unfold ScriptedCluster.delete
  split
  next => exact .inl ⟨_, rfl⟩
  next =>
    split
    next => exact .inl ⟨_, rfl⟩
    next found hfound => exact .inr ⟨found, hfound, rfl⟩

/-! ## the account -/

/-- the pods that were created and not deleted -/
def live (c : ScriptedCluster) : List PodIdentity := c.pods.entries.map (·.2.identity)

/-- The account of a cluster's pods: each is filed under its name and has a number of its own, and
those created are those deleted and those that are there. -/
structure Books (c : ScriptedCluster) : Prop where
  filed : ∀ e ∈ c.pods.entries, e.2.identity.name = e.1
  numbered : ∀ p ∈ c.created, ∃ n ≤ c.lastUid, p.uid = uidText n
  once : c.created.Nodup
  account : c.created.Perm (c.deleted ++ c.live)

/-- a cluster with its account of pods that deletes what it is told to -/
structure Orderly (c : ScriptedCluster) : Prop extends Books c where
  obeys : c.deleteFailures = []

/-- the pods `gained` are created and the pods `lost` deleted between two states -/
structure Turnover (c c' : ScriptedCluster) (gained lost : List PodIdentity) : Prop where
  created : c'.created = c.created ++ gained
  deleted : c'.deleted = c.deleted ++ lost
  live : (lost ++ c'.live).Perm (gained ++ c.live)

theorem Books.names_nodup (h : c.Books) : (c.live.map (·.name)).Nodup := by
  have hnames : c.live.map (·.name) = c.pods.entries.map (·.1) := by
    rw [live, List.map_map]
    exact List.map_congr_left h.filed
  rw [hnames]
  exact c.pods.keys_nodup

theorem Orderly.refs_nodup (h : c.Orderly) : (c.live.map (·.ref)).Nodup := by
  have hnames := h.names_nodup
  rw [show c.live.map (·.name) = (c.live.map (·.ref)).map (·.name) by rw [List.map_map]; rfl]
    at hnames
  exact List.Pairwise.of_map PodRef.name (fun _ _ h heq => h (congrArg _ heq)) hnames

theorem Books.get?_of_mem (h : c.Books) (hp : p ∈ c.live) :
    ∃ pod, c.pods.get? p.name = some pod ∧ pod.identity = p := by
  obtain ⟨e, he, rfl⟩ := List.mem_map.1 hp
  exact ⟨e.2, by rw [h.filed e he]; exact Dict.get?_of_mem he, rfl⟩

theorem Orderly.eq_of_name (h : c.Orderly) {q : PodIdentity} (hp : p ∈ c.live) (hq : q ∈ c.live)
    (hname : p.name = q.name) : p = q := by
  obtain ⟨pod, hpod, rfl⟩ := h.get?_of_mem hp
  obtain ⟨other, hother, rfl⟩ := h.get?_of_mem hq
  rw [hname, hother] at hpod
  rw [Option.some.inj hpod]

theorem Books.lookup?_of_mem (h : c.Books) (hp : p ∈ c.live) :
    ∃ pod, c.lookup? p.ref = some pod ∧ pod.identity = p := by
  obtain ⟨pod, hpod, rfl⟩ := h.get?_of_mem hp
  exact ⟨pod, lookup?_eq_some_iff.2 ⟨hpod, rfl⟩, rfl⟩

theorem Books.mem_of_lookup? (h : c.Books) {pod : PodRef} {found : LivePod}
    (hfound : c.lookup? pod = some found) : found.identity ∈ c.live ∧ found.identity.ref = pod := by
  obtain ⟨hget, hnamespace⟩ := lookup?_eq_some_iff.1 hfound
  have hentry := Dict.mem_of_get? hget
  have hname : found.identity.name = pod.name := h.filed _ hentry
  refine ⟨List.mem_map.2 ⟨_, hentry, rfl⟩, ?_⟩
  rw [PodIdentity.ref, hnamespace, hname]

theorem books_of_empty (hpods : c.pods = ∅) (hcreated : c.created = []) (hdeleted : c.deleted = []) :
    c.Books := by
  have hlive : c.live = [] := by
    rw [live, hpods]
    rfl
  refine ⟨?_, ?_, ?_, ?_⟩
  · rw [hpods]
    exact fun e he => absurd he List.not_mem_nil
  · rw [hcreated]
    exact fun p hp => absurd hp List.not_mem_nil
  · rw [hcreated]
    exact List.nodup_nil
  · rw [hcreated, hdeleted, hlive]
    exact .refl _

theorem orderly_of_empty (hobeys : c.deleteFailures = []) (hpods : c.pods = ∅)
    (hcreated : c.created = []) (hdeleted : c.deleted = []) : c.Orderly :=
  ⟨books_of_empty hpods hcreated hdeleted, hobeys⟩

/-- where no pod is there, all that were created are deleted, each of them once -/
theorem Orderly.settled (h : c.Orderly) (hlive : c.live = []) :
    c.pods = ∅ ∧ c.deleted.Perm c.created ∧ c.deleted.Nodup := by
  have haccount : c.deleted.Perm c.created := by
    have haccount := h.account
    rw [hlive, List.append_nil] at haccount
    exact haccount.symm
  exact ⟨Dict.eq_empty_of_entries (List.map_eq_nil_iff.1 hlive), haccount,
    haccount.symm.nodup h.once⟩

/-! ## calls -/

theorem Books.of_kept (h : c.Books) (hcreated : c'.created = c.created)
    (hdeleted : c'.deleted = c.deleted) (hlast : c'.lastUid = c.lastUid)
    (hfiled : ∀ e ∈ c'.pods.entries, e.2.identity.name = e.1) (hlive : c'.live.Perm c.live) :
    c'.Books ∧ Turnover c c' [] [] := by
  refine ⟨⟨hfiled, ?_, ?_, ?_⟩, ?_, ?_, hlive⟩
  · rw [hcreated, hlast]
    exact h.numbered
  · rw [hcreated]
    exact h.once
  · rw [hcreated, hdeleted]
    exact h.account.trans (hlive.symm.append_left _)
  · rw [hcreated, List.append_nil]
  · rw [hdeleted, List.append_nil]

theorem Books.admitPod (h : c.Books) (spec : PodSpec) (hnone : c.pods.get? spec.name = none) :
    (c.admitPod spec).2.Books ∧ Turnover c (c.admitPod spec).2 [(c.admitPod spec).1] [] := by
  have hentries : (c.admitPod spec).2.pods.entries.Perm
      ((spec.name, ⟨(c.admitPod spec).1, (c.scripts.get? spec.name).getD (.usual spec), 0⟩) ::
        c.pods.entries) := by
    have hperm := c.pods.perm_insert spec.name
      ⟨(c.admitPod spec).1, (c.scripts.get? spec.name).getD (.usual spec), 0⟩
    rwa [Dict.erase_of_get?_none hnone] at hperm
  have hlive : (c.admitPod spec).2.live.Perm ((c.admitPod spec).1 :: c.live) :=
    hentries.map fun e : String × LivePod => e.2.identity
  have hnew : (c.admitPod spec).1 ∉ c.created := by
    intro hmem
    obtain ⟨n, hn, huid⟩ := h.numbered _ hmem
    have hsame : c.lastUid + 1 = n := uidText_injective huid
    omega
  refine ⟨⟨fun e he => ?filed, fun p hp => ?numbered, ?once, ?account⟩,
    rfl, (List.append_nil _).symm, hlive⟩
  case filed =>
    obtain rfl | he := List.mem_cons.1 (hentries.mem_iff.1 he)
    · rfl
    · exact h.filed e he
  case numbered =>
    rcases List.mem_append.1 hp with hp | hp
    · obtain ⟨n, hn, huid⟩ := h.numbered p hp
      exact ⟨n, Nat.le_succ_of_le hn, huid⟩
    · obtain rfl := List.mem_singleton.1 hp
      exact ⟨c.lastUid + 1, Nat.le_refl _, rfl⟩
  case once =>
    exact (List.perm_append_singleton _ _).symm.nodup (List.nodup_cons.2 ⟨hnew, h.once⟩)
  case account =>
    have hmore : (c.created ++ [(c.admitPod spec).1]).Perm
        ((c.admitPod spec).1 :: (c.deleted ++ c.live)) :=
      (List.perm_append_singleton _ _).trans (h.account.cons _)
    exact hmore.trans (List.perm_middle.symm.trans (hlive.symm.append_left _))

theorem Books.fetch (h : c.Books) (pod : PodRef) :
    (c.fetch pod).2.Books ∧ Turnover c (c.fetch pod).2 [] [] := by
  obtain ⟨counts, hfetch⟩ := fetch_eq pod c
  rw [hfetch]
  cases hlookup : c.lookup? pod with
  | none => exact h.of_kept rfl rfl rfl h.filed (.refl _)
  | some found =>
    have hget := get?_of_lookup? hlookup
    -- the pod moves on to its next frame, under its name and with its identity
    have hentries := c.pods.perm_insert pod.name { found with fetches := found.fetches + 1 }
    have hbefore := Dict.perm_erase hget
    have hfiled : ∀ e ∈ (c.pods.insert pod.name
        { found with fetches := found.fetches + 1 }).entries, e.2.identity.name = e.1 := by
      intro e he
      obtain rfl | he := List.mem_cons.1 (hentries.mem_iff.1 he)
      · exact h.filed (pod.name, found) (hbefore.mem_iff.2 List.mem_cons_self)
      · exact h.filed e (hbefore.mem_iff.2 (List.mem_cons_of_mem _ he))
    have hlive : ((c.pods.insert pod.name { found with fetches := found.fetches + 1 }).entries.map
        (·.2.identity)).Perm c.live :=
      (hentries.map (·.2.identity)).trans (hbefore.map (·.2.identity)).symm
    exact h.of_kept rfl rfl rfl hfiled hlive

theorem Books.remove (h : c.Books) {pod : PodRef} {found : LivePod}
    (hfound : c.lookup? pod = some found) :
    let c' : ScriptedCluster :=
      { c with pods := c.pods.erase pod.name, deleted := c.deleted ++ [found.identity] }
    c'.Books ∧ Turnover c c' [] [found.identity] := by
  have hentries := Dict.perm_erase (get?_of_lookup? hfound)
  have hlive : (found.identity :: (c.pods.erase pod.name).entries.map (·.2.identity)).Perm c.live :=
    (hentries.map fun e : String × LivePod => e.2.identity).symm
  refine ⟨⟨fun e he => ?_, h.numbered, h.once, ?_⟩, (List.append_nil _).symm, rfl, hlive⟩
  · exact h.filed e (hentries.mem_iff.2 (List.mem_cons_of_mem _ he))
  · show c.created.Perm (c.deleted ++ [found.identity] ++ _)
    rw [List.append_assoc]
    exact h.account.trans (hlive.symm.append_left _)

/-! ## calls on a cluster that deletes -/

theorem Orderly.create (h : c.Orderly) (spec : PodSpec) :
    (∃ e, c.create spec = (.error e, c)) ∨
      ∃ answer c' p, c.create spec = (.ok answer, c') ∧ c'.Orderly ∧ p.ref = spec.ref ∧
        Turnover c c' [p] [] := by
  obtain hrefused | ⟨hnone, hcreated⟩ := create_cases spec c
  · exact .inl hrefused
  · obtain ⟨hbooks, hturnover⟩ := h.admitPod spec hnone
    exact .inr ⟨_, _, _, hcreated, ⟨hbooks, h.obeys⟩, rfl, hturnover⟩

theorem Orderly.fetch (h : c.Orderly) (pod : PodRef) :
    (c.fetch pod).2.Orderly ∧ Turnover c (c.fetch pod).2 [] [] := by
  obtain ⟨hbooks, hturnover⟩ := h.toBooks.fetch pod
  refine ⟨⟨hbooks, ?_⟩, hturnover⟩
  obtain ⟨counts, hfetch⟩ := fetch_eq pod c
  rw [hfetch]
  cases c.lookup? pod <;> exact h.obeys

theorem Orderly.delete (h : c.Orderly) (hp : p ∈ c.live) :
    ∃ c', c.delete p.ref = (.ok (), c') ∧ c'.Orderly ∧ Turnover c c' [] [p] := by
  obtain ⟨found, hlookup, rfl⟩ := h.lookup?_of_mem hp
  obtain ⟨hbooks, hturnover⟩ := h.remove hlookup
  refine ⟨_, ?_, ⟨hbooks, h.obeys⟩, hturnover⟩
  simp only [ScriptedCluster.delete, h.obeys, List.not_mem_nil, if_false, hlookup]

end StepRunner.ScriptedCluster
