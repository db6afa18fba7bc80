import Mathlib.Algebra.GroupWithZero.Nat
import StepRunner.Proofs.Log.Lines

/-!
# The sequence of lines

All lines that a scanner comes to, as one list.  The list ends, for each line uses up a part of the
reads.

* `readsSize`            how much of some reads there is to go through
* `Scanner.lines`        the lines that a scanner has before it
* `lines_of_advance`     a move comes to the first of them
* `lines_of_no_advance`  where there is no move there is no line
* `Scanner.ending`       the scanner after all of them
* `Scanner.closing`      when this can be found out
* `linesRead_ending`     it has counted them
* `lines_readsOf`        the lines of a stream, each made of the reads of one physical line
-/

namespace StepRunner.Log

/-! ## going through reads -/

/-- how much of a read there is to go through; one that brings nothing counts, too -/
def Read.size : Read → Nat
  | .data bytes => bytes.length + 1
  | .failure _ => 1

def readsSize (reads : List Read) : Nat := (reads.map Read.size).sum

@[simp] theorem readsSize_cons (r : Read) (reads : List Read) :
    readsSize (r :: reads) = r.size + readsSize reads := rfl

theorem Read.size_pos (r : Read) : 0 < r.size := by
  cases r with
  | data bytes => exact Nat.succ_pos _
  | failure f => exact Nat.one_pos

theorem length_lt_of_splitLine? {chunk line rest : List UInt8}
    (h : splitLine? chunk = some (line, rest)) : rest.length < chunk.length := by
  unfold splitLine? at h
  dsimp only at h
  split at h
  next => cases h
  next b tail hdrop =>
    cases h
    have hlength := congrArg List.length hdrop
    rw [List.length_drop, List.length_cons] at hlength
    omega

variable {collapse : Bool} {b b' : LineBuffer} {reads left : List Read}

theorem readsSize_readLine_le (collapse : Bool) (b : LineBuffer) (begun : Bool)
    (reads : List Read) :
    readsSize (readLine collapse b begun reads).2 ≤ readsSize reads := by
  induction reads generalizing b begun with
  | nil => exact Nat.le_refl _
  | cons r reads ih =>
    have hrest : readsSize reads ≤ readsSize (r :: reads) := by
      rw [readsSize_cons]
      omega
    cases r with
    | failure f => exact hrest
    | data bytes =>
      cases bytes with
      | nil => exact hrest
      | cons byte bytes =>
        rw [readLine]
        split
        next => exact Nat.le_trans (ih _ true) hrest
        next line rest hsplit =>
          have hlt := length_lt_of_splitLine? hsplit
          dsimp only
          split
          · exact hrest
          · have hsize : Read.size (.data rest) ≤ Read.size (.data (byte :: bytes)) :=
              Nat.succ_le_succ (Nat.le_of_lt hlt)
            rw [readsSize_cons, readsSize_cons]
            omega

/-- **A line uses up a part of the reads.** -/
theorem readsSize_lt_of_line (h : readLine collapse b false reads = (.line b', left)) :
    readsSize left < readsSize reads := by
  cases reads with
  | nil => simp [readLine] at h
  | cons r reads =>
    have hpos := r.size_pos
    cases r with
    | failure f => cases h
    | data bytes =>
      cases bytes with
      | nil => simp [readLine] at h
      | cons byte bytes =>
        rw [readLine] at h
        split at h
        next =>
          have hle := readsSize_readLine_le collapse (b.take collapse (byte :: bytes)) true reads
          rw [h] at hle
          rw [readsSize_cons]
          exact Nat.lt_of_le_of_lt hle (by omega)
        next line rest hsplit =>
          have hlt := length_lt_of_splitLine? hsplit
          cases h
          split
          · rw [readsSize_cons]
            omega
          · have hsize : Read.size (.data rest) < Read.size (.data (byte :: bytes)) :=
              Nat.succ_lt_succ hlt
            rw [readsSize_cons, readsSize_cons]
            omega

namespace Scanner

theorem readsSize_lt_of_advance {s s' : Scanner} {warnings : List Warning}
    (h : s.advance = (true, s', warnings)) : readsSize s'.reads < readsSize s.reads := by
  unfold advance at h
  split at h
  next => cases h
  next =>
    split at h
    next b reads hread =>
      cases h
      exact readsSize_lt_of_line hread
    next => cases h
    next => cases h

/-! ## all lines -/

/-- the lines that a scanner comes to in its next moves, `fuel` at most -/
def linesWithin : (fuel : Nat) → Scanner → List String
  | 0, _ => []
  | fuel + 1, s =>
    match s.advance with
    | (true, s', _) => s'.line :: linesWithin fuel s'
    | (false, _, _) => []

/-- the lines that a scanner has before it; there are not more of them than there are reads to go
through -/
def lines (s : Scanner) : List String := s.linesWithin (readsSize s.reads + 1)

theorem linesWithin_eq {fuel : Nat} {s : Scanner} (h : readsSize s.reads < fuel) :
    s.linesWithin fuel = s.lines := by
  suffices hsame : ∀ more, readsSize s.reads < more → s.linesWithin fuel = s.linesWithin more from
    hsame _ (Nat.lt_succ_self _)
  intro more hmore
  induction fuel generalizing s more with
  | zero => exact absurd h (Nat.not_lt_zero _)
  | succ fuel ih =>
    obtain ⟨more, rfl⟩ := Nat.exists_eq_add_one_of_ne_zero (Nat.ne_zero_of_lt hmore)
    unfold linesWithin
    split
    next s' _ hadvance =>
      have hlt := readsSize_lt_of_advance hadvance
      rw [ih (by omega) more (by omega)]
    next => rfl

theorem lines_of_advance {s s' : Scanner} {warnings : List Warning}
    (h : s.advance = (true, s', warnings)) : s.lines = s'.line :: s'.lines := by
  have hlt := readsSize_lt_of_advance h
  have hstep : s.lines = s'.line :: s'.linesWithin (readsSize s.reads) := by
    unfold lines
    rw [linesWithin, h]
  rw [hstep, linesWithin_eq hlt]

theorem lines_of_no_advance {s s' : Scanner} {warnings : List Warning}
    (h : s.advance = (false, s', warnings)) : s.lines = [] := by
  unfold lines
  rw [linesWithin, h]

/-- the scanner when it has no line before it any more -/
def ending (s : Scanner) : Scanner := s.after (s.lines.length + 1)

theorem ending_of_advance {s s' : Scanner} {warnings : List Warning}
    (h : s.advance = (true, s', warnings)) : s.ending = s'.ending := by
  rw [ending, lines_of_advance h, List.length_cons, after, h]
  rfl

theorem ending_of_no_advance {s s' : Scanner} {warnings : List Warning}
    (h : s.advance = (false, s', warnings)) : s.ending = s' := by
  rw [ending, lines_of_no_advance h, List.length_nil, after, h]
  rfl

/-! ## when lines are there -/

/-- when all reads are there that a scanner goes through for its next lines, `fuel` of them, and then
to find out whether there is one more -/
def closingWithin : (fuel : Nat) → Scanner → (times : List Nat) → Nat
  | 0, s, times => lineTime s.reads times
  | fuel + 1, s, times =>
    let s' := s.advance.2.1
    max (lineTime s.reads times)
      (closingWithin fuel s' (times.drop (s.reads.length - s'.reads.length)))

/-- when all reads are there that a scanner goes through to its end -/
def closing (s : Scanner) (times : List Nat) : Nat := s.closingWithin s.lines.length times

theorem closing_of_advance {s s' : Scanner} {warnings : List Warning}
    (h : s.advance = (true, s', warnings)) (times : List Nat) :
    s.closing times = max (lineTime s.reads times)
      (s'.closing (times.drop (s.reads.length - s'.reads.length))) := by
  rw [closing, lines_of_advance h, List.length_cons, closingWithin, h]
  rfl

theorem closing_of_no_advance {s s' : Scanner} {warnings : List Warning}
    (h : s.advance = (false, s', warnings)) (times : List Nat) :
    s.closing times = lineTime s.reads times := by
  rw [closing, lines_of_no_advance h]
  rfl

theorem lineTime_le_closing (s : Scanner) (times : List Nat) :
    lineTime s.reads times ≤ s.closing times := by
  cases ha : s.advance with
  | mk more rest =>
    obtain ⟨s', warnings⟩ := rest
    cases more with
    | true =>
      rw [closing_of_advance ha]
      exact Nat.le_max_left ..
    | false => exact Nat.le_of_eq (closing_of_no_advance ha times).symm

/-! ## counting lines -/

theorem linesRead_of_advance {s s' : Scanner} {warnings : List Warning}
    (h : s.advance = (true, s', warnings)) : s'.linesRead = s.linesRead + 1 := by
  unfold advance at h
  split at h
  next => cases h
  next =>
    split at h
    next =>
      cases h
      rfl
    next => cases h
    next => cases h

theorem linesRead_of_no_advance {s s' : Scanner} {warnings : List Warning}
    (h : s.advance = (false, s', warnings)) : s'.linesRead = s.linesRead := by
  unfold advance at h
  split at h
  next =>
    cases h
    rfl
  next =>
    split at h
    next => cases h
    next =>
      cases h
      rfl
    next =>
      cases h
      rfl

theorem linesRead_ending (s : Scanner) : s.ending.linesRead = s.linesRead + s.lines.length := by
  generalize hlines : s.lines = lines
  induction lines generalizing s with
  | nil =>
    cases ha : s.advance with
    | mk more rest =>
      obtain ⟨s', warnings⟩ := rest
      cases more with
      | true => cases hlines.symm.trans (lines_of_advance ha)
      | false =>
        rw [ending_of_no_advance ha, linesRead_of_no_advance ha]
        rfl
  | cons line lines ih =>
    cases ha : s.advance with
    | mk more rest =>
      obtain ⟨s', warnings⟩ := rest
      cases more with
      | true =>
        obtain ⟨-, hrest⟩ := List.cons.inj (hlines.symm.trans (lines_of_advance ha))
        rw [ending_of_advance ha, ih s' hrest.symm, linesRead_of_advance ha, List.length_cons]
        omega
      | false => cases hlines.symm.trans (lines_of_no_advance ha)

/-! ## the lines of a stream -/

/-- **The lines of a stream are those of its physical lines**, one for each, made of the reads that
it comes in. -/
theorem lines_readsOf {chunks : List (List UInt8)} {ending : Option ReadFailure} {s : Scanner}
    (hs : s.finished = false) (hne : ∀ c ∈ chunks, c ≠ [])
    (hreads : s.reads = readsOf chunks ending) :
    (lineReads chunks ending.isNone).map List.flatten = physicalLines chunks.flatten ending.isNone ∧
      s.lines = (lineReads chunks ending.isNone).map fun reads =>
        lineText s.options (LineBuffer.feed s.options.fromLastCR {} reads).finish := by
  generalize hlines : physicalLines chunks.flatten ending.isNone = lines
  induction lines generalizing chunks s with
  | nil =>
    rw [lineReads_eq_nil hne hlines]
    have hno := readLine_readsOf_nil s.options.fromLastCR hne hlines
    rw [← hreads] at hno
    refine ⟨rfl, ?_⟩
    have hstop : s.advance = (false, s.advance.2.1, s.advance.2.2) :=
      Prod.ext (advance_of_no_line hs hno).1 rfl
    exact lines_of_no_advance hstop
  | cons line others ih =>
    obtain ⟨cuts, left, hcuts, hleft, -, hothers, hall, hread⟩ :=
      readLine_readsOf_cons s.options.fromLastCR hne hlines
    rw [← hreads] at hread
    obtain ⟨hmove, hnext⟩ := advance_of_line hs hread
    obtain ⟨hflatten, hrest⟩ :=
      ih (s := s.advance.2.1) (by rw [hnext]; exact hs) hleft (by rw [hnext]) hothers
    have hfirst : s.advance.2.1.line =
        lineText s.options (LineBuffer.feed s.options.fromLastCR {} cuts).finish := by
      rw [hnext]
    have hoptions : s.advance.2.1.options = s.options := by rw [hnext]
    rw [hall]
    constructor
    · rw [List.map_cons, hcuts, hflatten]
    · have hstep : s.advance = (true, s.advance.2.1, s.advance.2.2) := Prod.ext hmove rfl
      rw [lines_of_advance hstep, hrest, hfirst, hoptions]
      rfl

end Scanner

end StepRunner.Log
