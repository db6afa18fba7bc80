import StepRunner.Proofs.Log.Sequence

/-!
# A scanner on any script of reads

A read brings bytes, none for the moment, or a failure, and more reads may follow upon each of
them.  What a scanner does is settled by what lies ahead of it at the start of a line: a line up to
its line feed, or up to a pause; a pause that comes before any byte; or a failure, wherever in a line
it comes.  The last two end the sequence for good.

* `Stands`               what lies ahead in some reads, and the reads behind it
* `exists_stands`        something does, whatever the reads
* `advance_of_stands`    one move of a scanner
* `exists_moves`         the moves come to an end
* `settled_of_script`    all of the moves, and the calls after them
-/

namespace StepRunner.Log

open Text (SanitizeOptions cr lf)

/-! ## what lies ahead -/

/-- what a scanner at the start of a line has before it -/
inductive Ahead where
  /-- a line, in the reads that bring its bytes -/
  | line (cuts : List (List UInt8))
  | ended
  | failed (f : ReadFailure)

/-- reads that bring bytes of a line, but not its end -/
def Midline (cuts : List (List UInt8)) : Prop := ∀ c ∈ cuts, c ≠ [] ∧ lf ∉ c

/-- a read that brings no bytes, and the reads behind it; behind the last read there is no other -/
inductive Pause : List Read → List Read → Prop
  | moment (reads : List Read) : Pause (.data [] :: reads) reads
  | forever : Pause [] []

/-- **What lies ahead in some reads**, and the reads behind it. -/
inductive Stands : List Read → Ahead → List Read → Prop
  /-- a line feed ends a line; what its read brings behind it is left -/
  | fed {cuts : List (List UInt8)} {last : List UInt8} (hcuts : Midline cuts) (hlast : lf ∉ last)
      (rest : List UInt8) (reads : List Read) :
      Stands (cuts.map .data ++ .data (last ++ lf :: rest) :: reads) (.line (cuts ++ [last]))
        (if rest = [] then reads else .data rest :: reads)
  /-- a pause ends a line that has begun -/
  | paused {cuts : List (List UInt8)} {reads left : List Read} (hcuts : Midline cuts)
      (hbegun : cuts ≠ []) (hpause : Pause reads left) :
      Stands (cuts.map .data ++ reads) (.line cuts) left
  /-- and all lines where none has -/
  | ended {reads left : List Read} (hpause : Pause reads left) : Stands reads .ended left
  /-- a failure ends all lines, and nothing comes of one that has begun -/
  | failed {cuts : List (List UInt8)} (hcuts : Midline cuts) (f : ReadFailure)
      (reads : List Read) : Stands (cuts.map .data ++ .failure f :: reads) (.failed f) reads

theorem Midline.nil : Midline [] := by
  intro c hc
  cases hc

theorem Midline.cons {c : List UInt8} {cuts : List (List UInt8)} (hne : c ≠ []) (hlf : lf ∉ c)
    (h : Midline cuts) : Midline (c :: cuts) :=
  List.forall_mem_cons.2 ⟨⟨hne, hlf⟩, h⟩

theorem Midline.not_mem_flatten {cuts : List (List UInt8)} (h : Midline cuts) :
    lf ∉ cuts.flatten := by
  intro hmem
  obtain ⟨c, hc, hlf⟩ := List.mem_flatten.1 hmem
  exact (h c hc).2 hlf

/-- with bytes of a line in front there lies a line ahead, or the same failure -/
theorem Stands.cons {reads left : List Read} {ahead : Ahead} (h : Stands reads ahead left)
    {c : List UInt8} (hne : c ≠ []) (hlf : lf ∉ c) :
    ∃ ahead', Stands (.data c :: reads) ahead' left := by
  cases h with
  | @fed cuts last hcuts hlast rest reads =>
    exact ⟨_, .fed (hcuts.cons hne hlf) hlast rest reads⟩
  | paused hcuts _ hpause =>
    exact ⟨_, .paused (hcuts.cons hne hlf) (List.cons_ne_nil _ _) hpause⟩
  | ended hpause =>
    exact ⟨_, .paused (Midline.nil.cons hne hlf) (List.cons_ne_nil _ _) hpause⟩
  | failed hcuts f => exact ⟨_, .failed (hcuts.cons hne hlf) f left⟩

/-- **Something lies ahead in all reads.** -/
theorem exists_stands (reads : List Read) : ∃ ahead left, Stands reads ahead left := by
  induction reads with
  | nil => exact ⟨_, _, .ended .forever⟩
  | cons r reads ih =>
    cases r with
    | failure f => exact ⟨_, _, .failed .nil f reads⟩
    | data bytes =>
      by_cases hnil : bytes = []
      · subst hnil
        exact ⟨_, _, .ended (.moment reads)⟩
      · by_cases hmem : lf ∈ bytes
        · obtain ⟨line, rest, rfl, hline⟩ := List.eq_append_cons_of_mem hmem
          exact ⟨_, _, .fed .nil hline rest reads⟩
        · obtain ⟨ahead, left, h⟩ := ih
          obtain ⟨ahead', h'⟩ := h.cons hnil hmem
          exact ⟨ahead', left, h'⟩

/-! ## one move -/

/-- what is found of it -/
def Ahead.found (collapse : Bool) : Ahead → Found
  | .line cuts => .line (LineBuffer.feed collapse {} cuts).finish
  | .ended => .ended
  | .failed f => .failed f

theorem readLine_of_midline (collapse : Bool) {cuts : List (List UInt8)} (h : Midline cuts)
    (after : List Read) :
    readLine collapse {} false (cuts.map .data ++ after) =
      readLine collapse (LineBuffer.feed collapse {} cuts) (!cuts.isEmpty) after :=
  readLine_of_not_mem collapse (fun c hc => (h c hc).1) h.not_mem_flatten {} false after

theorem readLine_of_stands (collapse : Bool) {reads left : List Read} {ahead : Ahead}
    (h : Stands reads ahead left) :
    readLine collapse {} false reads = (ahead.found collapse, left) := by
  cases h with
  | @fed cuts last hcuts hlast rest reads =>
    obtain ⟨byte, bytes, hcons⟩ := List.exists_cons_of_ne_nil
      (List.append_ne_nil_of_right_ne_nil last (List.cons_ne_nil lf rest))
    rw [readLine_of_midline collapse hcuts, hcons, readLine, ← hcons, splitLine?_append hlast]
    have hfeed : LineBuffer.feed collapse {} (cuts ++ [last]) =
        (LineBuffer.feed collapse {} cuts).take collapse last := List.foldl_append ..
    simp only [Ahead.found, hfeed, List.isEmpty_iff]
  | @paused cuts reads _ hcuts hbegun hpause =>
    rw [readLine_of_midline collapse hcuts, List.isEmpty_eq_false_iff.2 hbegun]
    cases hpause <;> rfl
  | ended hpause => cases hpause <;> rfl
  | failed hcuts f reads =>
    rw [readLine_of_midline collapse hcuts]
    rfl

namespace Scanner

/-- a scanner behind what lay ahead of it -/
def past (s : Scanner) (left : List Read) : Ahead → Scanner
  | .line cuts =>
    { s with
      reads := left
      line := lineText s.options (LineBuffer.feed s.options.fromLastCR {} cuts).finish
      linesRead := s.linesRead + 1 }
  | .ended => { s with reads := left, line := "", finished := true }
  | .failed f => { s with reads := left, line := "", finished := true, failure := some f }

/-- **One move of a scanner** is settled by what lies ahead of it. -/
theorem advance_of_stands {s : Scanner} (hs : s.finished = false) {ahead : Ahead}
    {left : List Read} (h : Stands s.reads ahead left) :
    (s.advance.1 = true ↔ ∃ cuts, ahead = .line cuts) ∧ s.advance.2.1 = s.past left ahead := by
  have hread := readLine_of_stands s.options.fromLastCR h
  unfold advance
  rw [hs]
  cases ahead with
  | line cuts => simp [hread, Ahead.found, past, hs]
  | ended => simp [hread, Ahead.found, past]
  | failed f => simp [hread, Ahead.found, past]

/-! ## all moves -/

theorem after_add (s : Scanner) (j k : Nat) : s.after (j + k) = (s.after j).after k := by
  induction j generalizing s with
  | zero => rw [Nat.zero_add]; rfl
  | succ j ih =>
    rw [Nat.succ_add]
    exact ih s.advance.2.1

theorem after_add_one (s : Scanner) (k : Nat) : s.after (k + 1) = (s.after k).advance.2.1 :=
  after_add s k 1

theorem linesRead_after (s : Scanner) (k : Nat) :
    (s.after k).linesRead =
      s.linesRead + (List.range k).countP fun j => (s.after j).advance.1 := by
  induction k with
  | zero => rfl
  | succ k ih =>
    rw [after_add_one, List.range_succ, List.countP_append, List.countP_singleton, ← Nat.add_assoc,
      ← ih]
    cases hmore : (s.after k).advance.1 with
    | true => exact linesRead_of_advance (Prod.ext hmore rfl : (s.after k).advance = (true, _, _))
    | false =>
      exact linesRead_of_no_advance (Prod.ext hmore rfl : (s.after k).advance = (false, _, _))

/-- a scanner that goes on for `n` moves, and not for another one -/
structure Moves (s : Scanner) (n : Nat) : Prop where
  going : ∀ k ≤ n, (s.after k).finished = false ∧ (s.after k).options = s.options ∧
    (s.after k).failure = s.failure
  moves : ∀ k < n, (s.after k).advance.1 = true
  stops : (s.after n).advance.1 = false

/-- **The moves of a scanner come to an end**, for each of them uses up a part of the reads. -/
theorem exists_moves {s : Scanner} (hs : s.finished = false) : ∃ n, s.Moves n := by
  generalize hsize : readsSize s.reads = size
  induction size using Nat.strongRecOn generalizing s with
  | ind size ih =>
    cases hmore : s.advance.1 with
    | false =>
      refine ⟨0, fun k hk => ?_, fun k hk => absurd hk (Nat.not_lt_zero k), hmore⟩
      rw [Nat.le_zero.1 hk]
      exact ⟨hs, rfl, rfl⟩
    | true =>
      have hlt := readsSize_lt_of_advance (Prod.ext hmore rfl : s.advance = (true, _, _))
      obtain ⟨ahead, left, h⟩ := exists_stands s.reads
      obtain ⟨hmove, hnext⟩ := advance_of_stands hs h
      obtain ⟨cuts, rfl⟩ := hmove.1 hmore
      have hsame : s.advance.2.1.finished = false ∧ s.advance.2.1.options = s.options ∧
          s.advance.2.1.failure = s.failure := by
        rw [hnext]
        exact ⟨hs, rfl, rfl⟩
      obtain ⟨n, hn⟩ := ih _ (hsize ▸ hlt) hsame.1 rfl
      refine ⟨n + 1, fun k hk => ?_, fun k hk => ?_, hn.stops⟩
      · cases k with
        | zero => exact ⟨hs, rfl, rfl⟩
        | succ k =>
          obtain ⟨hgoing, hoptions, hfailure⟩ := hn.going k (Nat.le_of_succ_le_succ hk)
          exact ⟨hgoing, hoptions.trans hsame.2.1, hfailure.trans hsame.2.2⟩
      · cases k with
        | zero => exact hmore
        | succ k => exact hn.moves k (Nat.lt_of_succ_lt_succ hk)

namespace Moves

variable {s : Scanner} {n : Nat}

theorem next (h : s.Moves n) {k : Nat} (hk : k ≤ n) {ahead : Ahead} {left : List Read}
    (hstands : Stands (s.after k).reads ahead left) :
    (k < n ↔ ∃ cuts, ahead = .line cuts) ∧ s.after (k + 1) = (s.after k).past left ahead := by
  obtain ⟨hmove, hnext⟩ := advance_of_stands (h.going k hk).1 hstands
  refine ⟨?_, (after_add_one s k).trans hnext⟩
  rw [← hmove]
  refine ⟨h.moves k, fun hmore => Nat.lt_of_le_of_ne hk ?_⟩
  rintro rfl
  exact absurd (h.stops.symm.trans hmore) (by decide)

theorem after_eq (h : s.Moves n) {k : Nat} (hk : n < k) :
    (s.after (n + 1)).finished = true ∧ (s.after (n + 1)).line = "" ∧
      s.after k = s.after (n + 1) := by
  obtain ⟨ahead, left, hstands⟩ := exists_stands (s.after n).reads
  obtain ⟨hmove, hnext⟩ := h.next (Nat.le_refl n) hstands
  have hfinished : (s.after (n + 1)).finished = true ∧ (s.after (n + 1)).line = "" := by
    rw [hnext]
    cases ahead with
    | line cuts => exact absurd (hmove.2 ⟨cuts, rfl⟩) (Nat.lt_irrefl n)
    | ended => exact ⟨rfl, rfl⟩
    | failed f => exact ⟨rfl, rfl⟩
  obtain ⟨j, rfl⟩ := Nat.exists_eq_add_of_lt hk
  refine ⟨hfinished.1, hfinished.2, ?_⟩
  rw [Nat.add_right_comm, after_add, after_of_finished hfinished.1]

theorem advance_iff (h : s.Moves n) (k : Nat) : (s.after k).advance.1 = true ↔ k < n := by
  obtain hk | hk := Nat.lt_or_ge n k
  · obtain ⟨hfinished, -, heq⟩ := h.after_eq hk
    rw [heq, advance_of_finished hfinished]
    exact iff_of_false Bool.false_ne_true (Nat.lt_asymm hk)
  · obtain ⟨ahead, left, hstands⟩ := exists_stands (s.after k).reads
    rw [(h.next hk hstands).1]
    exact (advance_of_stands (h.going k hk).1 hstands).1

theorem failure_iff (h : s.Moves n) (hs : s.failure = none) (f : ReadFailure) :
    (s.after (n + 1)).failure = some f ↔ ∃ left, Stands (s.after n).reads (.failed f) left := by
  constructor
  · intro hf
    obtain ⟨ahead, left, hstands⟩ := exists_stands (s.after n).reads
    obtain ⟨hmove, hnext⟩ := h.next (Nat.le_refl n) hstands
    rw [hnext] at hf
    cases ahead with
    | line cuts => exact absurd (hmove.2 ⟨cuts, rfl⟩) (Nat.lt_irrefl n)
    | ended =>
      have hnone := ((h.going n (Nat.le_refl n)).2.2).trans hs
      exact absurd (hnone.symm.trans hf) (by simp)
    | failed f' =>
      cases hf
      exact ⟨left, hstands⟩
  · rintro ⟨left, hstands⟩
    rw [(h.next (Nat.le_refl n) hstands).2]
    rfl

end Moves

theorem lineText_feed (options : SanitizeOptions) {cuts : List (List UInt8)}
    (h : cuts.flatten.length ≤ Limits.maxLineBytes) :
    lineText options (LineBuffer.feed options.fromLastCR {} cuts).finish =
      Text.sanitize options (content cuts.flatten) := by
  have hkeeps := (LineBuffer.Keeps.empty options.fromLastCR).feed cuts (by simpa using h)
  rw [List.nil_append] at hkeeps
  exact hkeeps.lineText_finish

/-- **A scanner is finite and final, whatever its reads.**  It counts its lines.  Call by call it
comes to the line that lies ahead; a pause within a line ends this line and no other.  A pause where
no line has begun, or a failure anywhere, ends all of them; only the failure is told.  From then on
no call changes anything, whatever there may be to read. -/
theorem settled_of_script (options : SanitizeOptions) (reads : List Read) :
    let s := ofReads options reads
    (∀ k, (s.after k).linesRead = (List.range k).countP fun j => (s.after j).advance.1) ∧
    ∃ n, (∀ k, (s.after k).advance.1 = true ↔ k < n) ∧ (∀ k ≤ n, (s.after k).failure = none) ∧
      (∀ k < n, ∃ cuts, Stands (s.after k).reads (.line cuts) (s.after (k + 1)).reads ∧
        (s.after (k + 1)).line =
          lineText options (LineBuffer.feed options.fromLastCR {} cuts).finish) ∧
      (∀ k ≤ n, ∀ cuts reads left, Midline cuts → Pause reads left →
        (s.after k).reads = cuts.map .data ++ reads →
          (cuts ≠ [] → k < n ∧ (s.after (k + 1)).reads = left ∧
            (s.after (k + 1)).line =
              lineText options (LineBuffer.feed options.fromLastCR {} cuts).finish ∧
            (cuts.flatten.length ≤ Limits.maxLineBytes →
              (s.after (k + 1)).line = Text.sanitize options (content cuts.flatten))) ∧
          (cuts = [] → k = n ∧ (s.after (k + 1)).failure = none)) ∧
      (∀ f, (s.after (n + 1)).failure = some f ↔
        ∃ left, Stands (s.after n).reads (.failed f) left) ∧
      ∀ k, n < k → (s.after k).line = "" ∧ s.after k = s.after (n + 1) ∧
        ∀ others, advance { s.after k with reads := others } =
          (false, { s.after k with reads := others }, []) := by
  intro s
  obtain ⟨n, hn⟩ := exists_moves (s := s) rfl
  have htext {k : Nat} (hk : k ≤ n) {cuts : List (List UInt8)} {left : List Read}
      (hnext : s.after (k + 1) = (s.after k).past left (.line cuts)) :
      (s.after (k + 1)).line =
        lineText options (LineBuffer.feed options.fromLastCR {} cuts).finish := by
    have hoptions : (s.after k).options = options := (hn.going k hk).2.1
    rw [hnext, past, hoptions]
  refine ⟨fun k => (linesRead_after s k).trans (Nat.zero_add _), n, hn.advance_iff,
    fun k hk => (hn.going k hk).2.2, fun k hk => ?_, ?_, hn.failure_iff rfl, fun k hk => ?_⟩
  · obtain ⟨ahead, left, hstands⟩ := exists_stands (s.after k).reads
    obtain ⟨hmove, hnext⟩ := hn.next (Nat.le_of_lt hk) hstands
    obtain ⟨cuts, rfl⟩ := hmove.1 hk
    refine ⟨cuts, ?_, htext (Nat.le_of_lt hk) hnext⟩
    rw [hnext]
    exact hstands
  · intro k hk cuts reads left hcuts hpause hreads
    constructor
    · intro hbegun
      have hstands : Stands (s.after k).reads (.line cuts) left := by
        rw [hreads]
        exact .paused hcuts hbegun hpause
      obtain ⟨hmove, hnext⟩ := hn.next hk hstands
      refine ⟨hmove.2 ⟨cuts, rfl⟩, by rw [hnext]; rfl, htext hk hnext, fun hlength => ?_⟩
      rw [htext hk hnext, lineText_feed options hlength]
    · rintro rfl
      have hstands : Stands (s.after k).reads .ended left := by
        rw [hreads]
        exact .ended hpause
      obtain ⟨hmove, hnext⟩ := hn.next hk hstands
      refine ⟨Nat.le_antisymm hk (Nat.le_of_not_lt fun hlt => ?_), ?_⟩
      · obtain ⟨cuts, hline⟩ := hmove.1 hlt
        cases hline
      · rw [hnext]
        exact (hn.going k hk).2.2
  · obtain ⟨hfinished, hline, heq⟩ := hn.after_eq hk
    rw [heq]
    exact ⟨hline, rfl, fun others => advance_of_finished hfinished⟩

end Scanner

end StepRunner.Log
