import StepRunner.Proofs.Wait.Lasting
import StepRunner.Proofs.Wait.Looks

/-!
# Waiting for one container after the other

The loop around the waits: as long as a container is left to wait for, the next one is waited for,
until a wait ends with an error.  The loop counts nothing, so on a pod whose containers come and go
it may never end.  On one whose containers last, each wait but a last one that fails hands out a
container that was not handed out before, and there are only so many of them.

* `Watch.Drive`, `Watch.drive`   what this loop comes to
* `drive_of_over`                a loop that has ended does nothing more
* `Gathers.await`                one wait on a pod whose containers last
* `Drive.Fits`, `fits_drive`     and the loop in turn
* `drive_of_lasting`             how many waits and looks it takes, and what it ends with
-/

namespace StepRunner.Watch

variable {σ : Type}

/-! ## the loop -/

/-- what waits for one container after the other come to -/
structure Drive where
  waits : Nat := 0
  /-- looks at the pod, those of all waits -/
  looks : Nat := 0
  /-- the snapshots that the waits are shown, the oldest first -/
  shown : List PodSnapshot := []
  /-- the containers that the waits return, the oldest first -/
  handed : List Observation := []
  /-- the error that has ended the loop, if one has -/
  error : Option RunError := none
  watch : Watch

/-- Waits for one container after the other, as long as one is left and no wait ends with an error,
and `allowed` times at most.  Before the next wait, `body` is done with the container that a wait
has returned. -/
def drive (platform : Platform σ) (interval : Nat) (body : Observation → World σ → World σ) :
    (allowed : Nat) → Watch → World σ → Drive
  | 0, w, _ => { watch := w }
  | allowed + 1, w, world =>
    if w.remaining then
      let (outcome, after, world') := w.await platform interval world
      let looks := world'.calls.length - world.calls.length
      let shown := w.shownBy platform interval world
      match outcome with
      | .error e => { waits := 1, looks, shown, error := some e, watch := after }
      | .ok o =>
        let rest := drive platform interval body allowed after (body o world')
        { rest with
          waits := rest.waits + 1
          looks := looks + rest.looks
          shown := shown ++ rest.shown
          handed := o :: rest.handed }
    else { watch := w }

/-- whether the loop has ended of itself -/
def Drive.IsOver (d : Drive) : Prop := d.error.isSome ∨ d.watch.remaining = false

variable {platform : Platform σ} {interval : Nat} {body : Observation → World σ → World σ}
  {allowed : Nat} {w : Watch} {world : World σ}

theorem drive_of_exhausted (hr : w.remaining = false) (allowed : Nat) (world : World σ) :
    w.drive platform interval body allowed world = { watch := w } := by
  cases allowed with
  | zero => rfl
  | succ allowed => rw [drive, hr]; rfl

theorem drive_of_error (hr : w.remaining = true) {e : RunError}
    (he : (w.await platform interval world).1 = .error e) (allowed : Nat) :
    w.drive platform interval body (allowed + 1) world =
      { waits := 1
        looks := (w.await platform interval world).2.2.calls.length - world.calls.length
        shown := w.shownBy platform interval world
        error := some e
        watch := (w.await platform interval world).2.1 } := by
  simp only [drive, hr, he, if_true]

theorem drive_of_ok (hr : w.remaining = true) {o : Observation}
    (ho : (w.await platform interval world).1 = .ok o) (allowed : Nat) :
    w.drive platform interval body (allowed + 1) world =
      let result := w.await platform interval world
      let rest := result.2.1.drive platform interval body allowed (body o result.2.2)
      { rest with
        waits := rest.waits + 1
        looks := result.2.2.calls.length - world.calls.length + rest.looks
        shown := w.shownBy platform interval world ++ rest.shown
        handed := o :: rest.handed } := by
  simp only [drive, hr, ho, if_true]

/-- a loop that has ended does nothing more, however many waits are allowed -/
theorem drive_of_over (h : (w.drive platform interval body allowed world).IsOver) (more : Nat) :
    w.drive platform interval body (allowed + more) world =
      w.drive platform interval body allowed world := by
  induction allowed generalizing w world with
  | zero =>
    obtain herror | hr := h
    · cases herror
    · exact drive_of_exhausted hr (0 + more) world
  | succ allowed ih =>
    rw [Nat.add_right_comm]
    cases hr : w.remaining with
    | false => rw [drive_of_exhausted hr, drive_of_exhausted hr]
    | true =>
      cases ho : (w.await platform interval world).1 with
      | error e => rw [drive_of_error hr ho, drive_of_error hr ho]
      | ok o =>
        rw [drive_of_ok hr ho] at h ⊢
        rw [drive_of_ok hr ho]
        simp only [ih h]

/-! ## on a pod whose containers last -/

theorem Ends.look {polls : Nat} {answer : Except ClusterError PodSnapshot} {after : Watch}
    {outcome : Outcome} (h : w.Ends polls answer after outcome) :
    w.Look polls answer after (some outcome) := by
  cases h with
  | refused e => exact .refused e
  | handed hs => exact .handed hs
  | nothingLeft hs hr => exact .nothingLeft hs hr
  | podFinished hs hr hp => exact .podFinished hs hp
  | limitReached hidle hl => exact .limitReached hidle.found

variable {pod : PodRef} {goal : Goal} {names : List String} {shown : List PodSnapshot}
  {out : List Observation}

theorem Gathers.afterLooks (h : w.Gathers pod goal names shown out) (hn : names.Nodup)
    {idle : List PodSnapshot} (hidle : w.Idles idle) (hl : Lasting goal names (shown ++ idle)) :
    (w.afterLooks idle).Gathers pod goal names (shown ++ idle) out := by
  induction idle generalizing w shown with
  | nil =>
    rw [List.append_nil]
    exact h
  | cons s idle ih =>
    rw [List.append_cons] at hl ⊢
    obtain ⟨hs, hrest⟩ := hidle
    have habsorb := h.absorb hn hl.of_append
    rw [hs.found, Option.toList_none, List.append_nil] at habsorb
    exact ih habsorb hrest hl

theorem Gathers.await (h : w.Gathers pod goal names shown out) (hn : names.Nodup)
    (hr : w.remaining = true) (hlimit : 0 < w.limit)
    (hl : Lasting goal names (shown ++ w.shownBy platform interval world)) :
    (w.await platform interval world).2.1.Gathers pod goal names
        (shown ++ w.shownBy platform interval world)
        (out ++ (w.await platform interval world).1.toOption.toList) ∧
      (w.await platform interval world).2.1.limit = w.limit ∧
      (w.await platform interval world).2.2.calls.length - world.calls.length ≤ w.limit := by
  obtain ⟨idle, last, hwaited⟩ := waited_of_await platform interval hr hlimit world
  rw [hwaited.shows, ← List.append_assoc] at hl ⊢
  have hgathers := (h.afterLooks hn hwaited.idles hl.of_append).look hn hl hwaited.ends.look
  have hlimit' : (w.await platform interval world).2.1.limit = w.limit := by
    rw [← (w.afterLooks_eq idle).2.2]
    exact hwaited.ends.look.limit_eq
  refine ⟨hgathers, hlimit', ?_⟩
  obtain ⟨made, hcalls, hlength, -⟩ := hwaited.calls
  have hwithin := hwaited.within
  rw [hcalls, List.length_append, hlength]
  omega

/-- A loop on such a pod, which was shown `shown` and has handed out `out` before: each wait is for a
container that is not among these. -/
structure Drive.Fits (pod : PodRef) (goal : Goal) (names : List String) (limit allowed : Nat)
    (shown : List PodSnapshot) (out : List Observation) (d : Drive) : Prop where
  watch : d.watch.Gathers pod goal names (shown ++ d.shown) (out ++ d.handed)
  waits : out.length + d.waits ≤ names.length
  looks : d.looks ≤ d.waits * limit
  isOver : names.length ≤ out.length + allowed → d.IsOver

theorem Gathers.fits_idle (h : w.Gathers pod goal names shown out) (limit : Nat)
    (hover : names.length ≤ out.length + allowed → w.remaining = false) :
    Drive.Fits pod goal names limit allowed shown out { watch := w } := by
  refine ⟨?_, h.length_le, Nat.zero_le _, fun hle => .inr (hover hle)⟩
  rw [List.append_nil, List.append_nil]
  exact h

theorem fits_drive (h : w.Gathers pod goal names shown out) (hne : names ≠ []) (hn : names.Nodup)
    (hlimit : 0 < w.limit)
    (hl : Lasting goal names (shown ++ (w.drive platform interval body allowed world).shown)) :
    Drive.Fits pod goal names w.limit allowed shown out
      (w.drive platform interval body allowed world) := by
  induction allowed generalizing w world shown out with
  | zero =>
    refine h.fits_idle w.limit fun hle => ?_
    rw [← Bool.not_eq_true]
    intro hr
    have hlt := h.length_lt hne hl.of_append hr
    omega
  | succ allowed ih =>
    cases hr : w.remaining with
    | false =>
      rw [drive_of_exhausted hr]
      exact h.fits_idle w.limit fun _ => hr
    | true =>
      have hlt := h.length_lt hne hl.of_append hr
      cases ho : (w.await platform interval world).1 with
      | error e =>
        rw [drive_of_error hr ho] at hl ⊢
        obtain ⟨hgathers, -, hlooks⟩ := h.await hn hr hlimit hl
        rw [ho] at hgathers
        refine ⟨hgathers, hlt, ?_, fun _ => .inl rfl⟩
        rw [Nat.one_mul]
        exact hlooks
      | ok o =>
        rw [drive_of_ok hr ho] at hl ⊢
        rw [← List.append_assoc] at hl
        obtain ⟨hgathers, hlimit', hlooks⟩ := h.await hn hr hlimit hl.of_append
        rw [ho] at hgathers
        have hrest := ih hgathers (hlimit'.symm ▸ hlimit) hl
        rw [hlimit'] at hrest
        obtain ⟨hwatch, hwaits, hlooks', hover⟩ := hrest
        have hlength : (out ++ (Except.ok o : Outcome).toOption.toList).length = out.length + 1 :=
          List.length_append
        refine ⟨?_, ?_, ?_, fun hle => ?_⟩
        · rw [List.append_assoc, List.append_assoc] at hwatch
          exact hwatch
        · rw [hlength, Nat.add_assoc, Nat.add_comm 1] at hwaits
          exact hwaits
        · rw [Nat.succ_mul, Nat.add_comm _ w.limit]
          exact Nat.add_le_add hlooks hlooks'
        · exact hover (by omega)

/-- **Waiting for one container after the other comes to its end** on a pod whose containers last,
whatever is done between two waits.  There are no more waits than containers, and each takes no more
looks than its limit says.  No container is handed out twice; where none is left at the end, all of
them were.  If there may be as many waits as containers, the loop ends of itself, with an error or
with none left, and more waits would change nothing. -/
theorem drive_of_lasting (platform : Platform σ) (interval : Nat)
    (body : Observation → World σ → World σ) (config : Config) (pod : PodRef) (goal : Goal)
    (names : List String) (hne : names ≠ []) (hn : names.Nodup) (allowed : Nat)
    (world : World σ) :
    let loop := fun allowed =>
      (begin pod goal config.pollLimit).drive platform interval body allowed world
    let d := loop allowed
    Lasting goal names d.shown →
      d.waits ≤ names.length ∧
      d.looks ≤ names.length * max 1 config.maxPolls.toNat ∧
      (d.handed.map (·.name)).Nodup ∧
      (d.watch.remaining = false → (d.handed.map (·.name)).Perm names) ∧
      (names.length ≤ allowed →
        (d.error.isSome ∨ d.watch.remaining = false) ∧ ∀ more, loop (allowed + more) = d) := by
  intro loop d hl
  have hlimit : 0 < (begin pod goal config.pollLimit).limit :=
    Nat.le_max_left 1 config.maxPolls.toNat
  have hfits : Drive.Fits pod goal names config.pollLimit allowed [] [] d :=
    fits_drive (gathers_begin pod goal config.pollLimit names) hne hn hlimit hl
  have hwaits : d.waits ≤ names.length := by
    have hwaits := hfits.waits
    rw [List.length_nil] at hwaits
    omega
  have hlooks : d.looks ≤ d.waits * max 1 config.maxPolls.toNat := hfits.looks
  refine ⟨hwaits, hlooks.trans (Nat.mul_le_mul_right _ hwaits), hfits.watch.nodup,
    hfits.watch.perm hn hl, fun hle => ?_⟩
  have hover : d.IsOver := hfits.isOver (by simpa using hle)
  exact ⟨hover, drive_of_over hover⟩

/-- a pod that lists no container at first, then two of which one is done, and then both done -/
theorem drive_of_scheduled :
    let clone := ContainerStatus.terminated "clone" 0
    let scheduled : PodSnapshot := { phase := .pending }
    let cloned : PodSnapshot :=
      { phase := .running, initStatuses := [clone], statuses := [.running "step" true] }
    let ended : PodSnapshot :=
      { phase := .succeeded, initStatuses := [clone], statuses := [.terminated "step" 0] }
    let platform : Platform Nat :=
      { create := fun _ looks => (.ok none, looks)
        fetch := fun _ looks => (.ok ([scheduled, cloned].getD looks ended), looks + 1)
        openLogs := fun _ _ looks => (.stream (.ofReads []), looks)
        delete := fun _ looks => (.ok (), looks)
        delay := fun _ _ _ => 0 }
    let config : Config := { maxPolls := 2 }
    let loop := fun allowed => (begin ⟨"ns", "p"⟩ .done config.pollLimit).drive platform 100
      (fun _ world => world) allowed { state := 0 }
    let d := loop 2
    Lasting .done ["step", "clone"] d.shown ∧ d.waits = 2 ∧ d.looks = 3 ∧
      d.handed.map (·.name) = ["clone", "step"] ∧ d.looks ≤ 2 * 2 ∧ ∀ more, loop (2 + more) = d := by
  intro clone scheduled cloned ended platform config loop d
  have hshown : d.shown = [scheduled, cloned, ended] := by decide +kernel
  have hl : Lasting .done ["step", "clone"] d.shown := by
    rw [hshown]
    exact ⟨⟨[scheduled], [cloned, ended], rfl, by decide, by decide⟩, by decide +kernel⟩
  obtain ⟨-, hlooks, -, -, hover⟩ :=
    drive_of_lasting platform 100 (fun _ world => world) config ⟨"ns", "p"⟩ .done ["step", "clone"]
      (by decide) (by decide) 2 { state := 0 } hl
  exact ⟨hl, by decide +kernel, by decide +kernel, by decide +kernel, hlooks,
    (hover (by decide)).2⟩

end StepRunner.Watch
