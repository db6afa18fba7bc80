import StepRunner.Proofs.Log.Buffer

/-!
# The lines of a stream

A scanner against the plain definition of lines, whatever the reads: a stream is cut at its line
feeds, and each piece is sanitized.

* `physicalLines`             the pieces of a stream between its line feeds
* `lineReads`                 the reads that each of them comes in
* `readLine_of_not_mem`       reads without a line feed are taken into the line under way
* `readLine_of_append`        reads with one give the line before it and leave the rest
* `Scanner.after`             a scanner after several moves
* `after_physicalLines`       it moves once for each physical line and gives the text of that line
-/

namespace StepRunner.Log
open Text (SanitizeOptions beq_eq_false_of_not_mem cr dropWhile_append_of_not_mem lf
  takeWhile_append_of_not_mem takeWhile_of_not_mem)

/-! ## physical lines -/

/-- The physical lines of a stream: what line feeds end, and what stands behind the last line feed
if the stream comes to its end there and does not fail. -/
def physicalLines (bytes : List UInt8) (ended : Bool) : List (List UInt8) :=
  let pieces := bytes.splitOn lf
  if ended && pieces.getLast? != some [] then pieces else pieces.dropLast

theorem physicalLines_of_not_mem {bytes : List UInt8} (h : lf ∉ bytes) (ended : Bool) :
    physicalLines bytes ended = if ended && bytes != [] then [bytes] else [] := by
  have hpieces : bytes.splitOn lf = [bytes] := List.splitOnP_eq_singleton (beq_eq_false_of_not_mem h)
  unfold physicalLines
  rw [hpieces]
  rfl

theorem physicalLines_append {line : List UInt8} (h : lf ∉ line) (rest : List UInt8)
    (ended : Bool) :
    physicalLines (line ++ lf :: rest) ended = line :: physicalLines rest ended := by
  have hpieces : (line ++ lf :: rest).splitOn lf = line :: rest.splitOn lf :=
    List.splitOnP_append_cons_of_forall_mem (beq_eq_false_of_not_mem h) lf (by simp) rest
  have hne : rest.splitOn lf ≠ [] := List.splitOn_ne_nil lf rest
  unfold physicalLines
  rw [hpieces]
  simp only [List.getLast?_cons_of_ne_nil hne, List.dropLast_cons_of_ne_nil hne]
  split <;> rfl

/-- what stands behind the first line feed -/
def behindLine (bytes : List UInt8) : List UInt8 := (bytes.dropWhile (· != lf)).tail

theorem behindLine_append_of_not_mem {line : List UInt8} (h : lf ∉ line) (rest : List UInt8) :
    behindLine (line ++ rest) = behindLine rest := by
  rw [behindLine, dropWhile_append_of_not_mem h, behindLine]

theorem behindLine_append {line : List UInt8} (h : lf ∉ line) (rest : List UInt8) :
    behindLine (line ++ lf :: rest) = rest := by
  rw [behindLine_append_of_not_mem h, behindLine, List.dropWhile_cons_of_neg (by simp)]
  rfl

theorem behindLine_of_not_mem {bytes : List UInt8} (h : lf ∉ bytes) : behindLine bytes = [] := by
  rw [← List.append_nil bytes, behindLine_append_of_not_mem h]
  rfl

/-! ## the reads of a line -/

/-- puts a read in front of those of the first line; one without bytes is none -/
def addRead (chunk : List UInt8) : List (List (List UInt8)) → List (List (List UInt8))
  | [] => []
  | reads :: lines => (if chunk.isEmpty then reads else chunk :: reads) :: lines

/-- The bytes of some chunks line by line, and those of each line in the reads that they come in.
The last line is the one that no line feed has ended. -/
def splitReads : List (List UInt8) → List (List (List UInt8))
  | [] => [[]]
  | chunk :: chunks =>
    let pieces := chunk.splitOn lf
    pieces.dropLast.map ([·]) ++ addRead (pieces.getLast?.getD []) (splitReads chunks)

/-- the reads that each physical line of a stream comes in -/
def lineReads (chunks : List (List UInt8)) (ended : Bool) : List (List (List UInt8)) :=
  let lines := splitReads chunks
  if ended && lines.getLast? != some [] then lines else lines.dropLast

@[simp] theorem addRead_nil (lines : List (List (List UInt8))) : addRead [] lines = lines := by
  cases lines <;> rfl

theorem addRead_ne_nil {lines : List (List (List UInt8))} (h : lines ≠ []) (chunk : List UInt8) :
    addRead chunk lines ≠ [] := by
  cases lines with
  | nil => exact absurd rfl h
  | cons reads lines => simp [addRead]

theorem splitReads_ne_nil (chunks : List (List UInt8)) : splitReads chunks ≠ [] := by
  induction chunks with
  | nil => simp [splitReads]
  | cons chunk chunks ih =>
    intro hnil
    exact addRead_ne_nil ih _ (List.append_eq_nil_iff.1 hnil).2

theorem splitReads_cons_of_not_mem {chunk : List UInt8} (h : lf ∉ chunk)
    (chunks : List (List UInt8)) :
    splitReads (chunk :: chunks) = addRead chunk (splitReads chunks) := by
  have hpieces : chunk.splitOn lf = [chunk] := List.splitOnP_eq_singleton (beq_eq_false_of_not_mem h)
  rw [splitReads, hpieces]
  rfl

theorem splitReads_cons_append {line : List UInt8} (h : lf ∉ line) (rest : List UInt8)
    (chunks : List (List UInt8)) :
    splitReads ((line ++ lf :: rest) :: chunks) = [line] :: splitReads (rest :: chunks) := by
  have hpieces : (line ++ lf :: rest).splitOn lf = line :: rest.splitOn lf :=
    List.splitOnP_append_cons_of_forall_mem (beq_eq_false_of_not_mem h) lf (by simp) rest
  have hne : rest.splitOn lf ≠ [] := List.splitOn_ne_nil lf rest
  rw [splitReads, splitReads, hpieces]
  simp only [List.getLast?_cons_of_ne_nil hne, List.dropLast_cons_of_ne_nil hne]
  rfl

theorem splitReads_of_not_mem {chunks : List (List UInt8)} (hne : ∀ c ∈ chunks, c ≠ [])
    (h : lf ∉ chunks.flatten) : splitReads chunks = [chunks] := by
  induction chunks with
  | nil => rfl
  | cons chunk chunks ih =>
    obtain ⟨hchunk, hchunks⟩ := List.forall_mem_cons.1 hne
    rw [List.flatten_cons, List.mem_append, not_or] at h
    rw [splitReads_cons_of_not_mem h.1, ih hchunks h.2]
    simp [addRead, hchunk]

theorem lineReads_of_not_mem {chunks : List (List UInt8)} (hne : ∀ c ∈ chunks, c ≠ [])
    (h : lf ∉ chunks.flatten) (ended : Bool) :
    lineReads chunks ended = if ended && chunks != [] then [chunks] else [] := by
  unfold lineReads
  rw [splitReads_of_not_mem hne h]
  rfl

theorem lineReads_of_splitReads {chunks left : List (List UInt8)} {cuts : List (List UInt8)}
    (h : splitReads chunks = cuts :: splitReads left) (ended : Bool) :
    lineReads chunks ended = cuts :: lineReads left ended := by
  have hne := splitReads_ne_nil left
  unfold lineReads
  rw [h]
  simp only [List.getLast?_cons_of_ne_nil hne, List.dropLast_cons_of_ne_nil hne]
  split <;> rfl

/-! ## one line -/

theorem splitLine?_of_not_mem {chunk : List UInt8} (h : lf ∉ chunk) : splitLine? chunk = none := by
  simp only [splitLine?, takeWhile_of_not_mem h, List.drop_length]

theorem splitLine?_append {line : List UInt8} (h : lf ∉ line) (rest : List UInt8) :
    splitLine? (line ++ lf :: rest) = some (line, rest) := by
  have hline := takeWhile_append_of_not_mem h (lf :: rest)
  rw [List.takeWhile_cons_of_neg (by simp), List.append_nil] at hline
  simp only [splitLine?, hline, List.drop_left]

theorem exists_of_append_eq_lf {chunk others line rest : List UInt8} (h : lf ∉ chunk)
    (heq : chunk ++ others = line ++ lf :: rest) :
    ∃ tail, line = chunk ++ tail ∧ others = tail ++ lf :: rest := by
  rcases List.append_eq_append_iff.1 heq with ⟨tail, hline, hothers⟩ | ⟨tail, hchunk, hrest⟩
  · exact ⟨tail, hline, hothers⟩
  · cases tail with
    | nil => exact ⟨[], by simp [hchunk], by simpa using hrest.symm⟩
    | cons c tail =>
      rw [List.cons_append, List.cons.injEq] at hrest
      exact absurd (by simp [hchunk, hrest.1]) h

variable (collapse : Bool) {chunks : List (List UInt8)}

theorem readLine_of_not_mem (hne : ∀ c ∈ chunks, c ≠ []) (h : lf ∉ chunks.flatten)
    (b : LineBuffer) (begun : Bool) (after : List Read) :
    readLine collapse b begun (chunks.map .data ++ after) =
      readLine collapse (b.feed collapse chunks) (begun || !chunks.isEmpty) after := by
  induction chunks generalizing b begun with
  | nil => simp [LineBuffer.feed]
  | cons chunk chunks ih =>
    obtain ⟨hchunk, hrest⟩ := List.forall_mem_cons.1 hne
    rw [List.flatten_cons, List.mem_append, not_or] at h
    obtain ⟨byte, bytes, rfl⟩ := List.exists_cons_of_ne_nil hchunk
    rw [List.map_cons, List.cons_append, readLine, splitLine?_of_not_mem h.1]
    show readLine collapse (b.take collapse (byte :: bytes)) true (chunks.map .data ++ after) = _
    rw [ih hrest h.2]
    simp [LineBuffer.feed]

/-- Reads with a line feed give the line before it, whose reads were the buffer's, and leave the
bytes behind it. -/
theorem readLine_of_append (hne : ∀ c ∈ chunks, c ≠ []) {line rest : List UInt8}
    (hbytes : chunks.flatten = line ++ lf :: rest) (h : lf ∉ line) (b : LineBuffer) (begun : Bool)
    (after : List Read) :
    ∃ (cuts left : List (List UInt8)), cuts.flatten = line ∧ left.flatten = rest ∧
      (∀ c ∈ left, c ≠ []) ∧ splitReads chunks = cuts :: splitReads left ∧
      readLine collapse b begun (chunks.map .data ++ after) =
        (.line (b.feed collapse cuts).finish, left.map .data ++ after) := by
  induction chunks generalizing b begun line with
  | nil => simp at hbytes
  | cons chunk chunks ih =>
    obtain ⟨hchunk, hchunks⟩ := List.forall_mem_cons.1 hne
    obtain ⟨byte, bytes, hcons⟩ := List.exists_cons_of_ne_nil hchunk
    rw [List.flatten_cons] at hbytes
    rw [List.map_cons, List.cons_append, hcons, readLine, ← hcons]
    by_cases hmem : lf ∈ chunk
    · obtain ⟨front, back, hsplit, hfront⟩ := List.eq_append_cons_of_mem hmem
      have hcut : some (front, back ++ chunks.flatten) = some (line, rest) := by
        rw [← splitLine?_append hfront, ← splitLine?_append h, ← hbytes, hsplit]
        simp
      obtain ⟨rfl, rfl⟩ := Prod.mk.inj (Option.some.inj hcut)
      refine ⟨[front], if back.isEmpty then chunks else back :: chunks, by simp, ?_, ?_, ?_, ?_⟩
      · cases back <;> simp
      · cases back with
        | nil => exact hchunks
        | cons c back => exact List.forall_mem_cons.2 ⟨by simp, hchunks⟩
      · rw [hsplit, splitReads_cons_append hfront]
        cases back with
        | nil =>
          rw [splitReads_cons_of_not_mem List.not_mem_nil, addRead_nil]
          rfl
        | cons c back => rfl
      · rw [hsplit, splitLine?_append hfront]
        cases back <;> rfl
    · obtain ⟨tail, rfl, htail⟩ := exists_of_append_eq_lf hmem hbytes
      rw [List.mem_append, not_or] at h
      obtain ⟨cuts, left, hcuts, hleft, hne', hsplit, hread⟩ :=
        ih hchunks htail h.2 (b.take collapse chunk) true
      refine ⟨chunk :: cuts, left, by simp [hcuts], hleft, hne', ?_, ?_⟩
      · rw [splitReads_cons_of_not_mem hmem, hsplit]
        simp [addRead, hchunk]
      · rw [splitLine?_of_not_mem hmem]
        exact hread

/-! ## all lines -/

variable {ending : Option ReadFailure}

/-- the reads of a stream that comes in chunks and then to its end, or to a failure -/
def readsOf (chunks : List (List UInt8)) (ending : Option ReadFailure) : List Read :=
  chunks.map .data ++ (ending.map .failure).toList

theorem readLine_readsOf_nil (hne : ∀ c ∈ chunks, c ≠ [])
    (h : physicalLines chunks.flatten ending.isNone = []) :
    ∀ b reads, readLine collapse {} false (readsOf chunks ending) ≠ (.line b, reads) := by
  have hmem : lf ∉ chunks.flatten := by
    intro hmem
    obtain ⟨line, rest, hbytes, hline⟩ := List.eq_append_cons_of_mem hmem
    rw [hbytes, physicalLines_append hline] at h
    cases h
  rw [physicalLines_of_not_mem hmem] at h
  intro b reads
  rw [readsOf, readLine_of_not_mem collapse hne hmem]
  cases ending with
  | some f => simp [readLine]
  | none =>
    have hnil : chunks.flatten = [] := by simpa using h
    have : chunks = [] := by
      cases chunks with
      | nil => rfl
      | cons c chunks => exact absurd (List.append_eq_nil_iff.1 hnil).1 (hne c (by simp))
    simp [readLine, this]

theorem lineReads_eq_nil (hne : ∀ c ∈ chunks, c ≠ []) {ended : Bool}
    (h : physicalLines chunks.flatten ended = []) : lineReads chunks ended = [] := by
  have hmem : lf ∉ chunks.flatten := by
    intro hmem
    obtain ⟨line, rest, hbytes, hline⟩ := List.eq_append_cons_of_mem hmem
    rw [hbytes, physicalLines_append hline] at h
    cases h
  rw [physicalLines_of_not_mem hmem] at h
  rw [lineReads_of_not_mem hne hmem]
  cases ended with
  | false => rfl
  | true =>
    have hnil : chunks.flatten = [] := by simpa using h
    cases chunks with
    | nil => rfl
    | cons c chunks => exact absurd (List.append_eq_nil_iff.1 hnil).1 (hne c (by simp))

/-- Where physical lines are left, the first of them is found: the buffer was given its reads, and
what stands behind its line feed is left, with the other lines. -/
theorem readLine_readsOf_cons (hne : ∀ c ∈ chunks, c ≠ []) {line : List UInt8}
    {others : List (List UInt8)}
    (h : physicalLines chunks.flatten ending.isNone = line :: others) :
    ∃ (cuts left : List (List UInt8)), cuts.flatten = line ∧ (∀ c ∈ left, c ≠ []) ∧
      left.flatten = behindLine chunks.flatten ∧
      physicalLines left.flatten ending.isNone = others ∧
      lineReads chunks ending.isNone = cuts :: lineReads left ending.isNone ∧
      readLine collapse {} false (readsOf chunks ending) =
        (.line (LineBuffer.feed collapse {} cuts).finish, readsOf left ending) := by
  by_cases hmem : lf ∈ chunks.flatten
  · obtain ⟨front, rest, hbytes, hfront⟩ := List.eq_append_cons_of_mem hmem
    rw [hbytes, physicalLines_append hfront] at h
    obtain ⟨rfl, rfl⟩ := List.cons.inj h
    obtain ⟨cuts, left, hcuts, rfl, hleft, hsplit, hread⟩ :=
      readLine_of_append collapse hne hbytes hfront {} false
        (ending.map .failure).toList
    exact ⟨cuts, left, hcuts, hleft, by rw [hbytes, behindLine_append hfront], rfl,
      lineReads_of_splitReads hsplit _, hread⟩
  · rw [physicalLines_of_not_mem hmem] at h
    cases ending with
    | some f => cases h
    | none =>
      have hbytes : chunks.flatten ≠ [] := by
        intro hnil
        simp [hnil] at h
      have hchunks : chunks.isEmpty = false := by
        cases chunks with
        | nil => exact absurd rfl hbytes
        | cons c chunks => rfl
      rw [if_pos (by simpa using hbytes)] at h
      obtain ⟨rfl, rfl⟩ := List.cons.inj h
      refine ⟨chunks, [], rfl, by simp, (behindLine_of_not_mem hmem).symm, rfl, ?_, ?_⟩
      · rw [lineReads_of_not_mem hne hmem, if_pos]
        · rfl
        · simpa using List.isEmpty_eq_false_iff.1 hchunks
      · rw [readsOf, readLine_of_not_mem collapse hne hmem, hchunks]
        rfl

namespace Scanner

def after (s : Scanner) : Nat → Scanner
  | 0 => s
  | k + 1 => s.advance.2.1.after k

theorem advance_of_finished {s : Scanner} (h : s.finished = true) : s.advance = (false, s, []) := by
  simp [advance, h]

theorem after_of_finished {s : Scanner} (h : s.finished = true) (k : Nat) : s.after k = s := by
  induction k with
  | zero => rfl
  | succ k ih =>
    rw [after, advance_of_finished h]
    exact ih

theorem advance_of_line {s : Scanner} {b : LineBuffer} {reads : List Read}
    (hs : s.finished = false)
    (h : readLine s.options.fromLastCR {} false s.reads = (.line b, reads)) :
    s.advance.1 = true ∧ s.advance.2.1 =
      { s with reads, line := lineText s.options b, linesRead := s.linesRead + 1 } := by
  simp [advance, hs, h]

theorem advance_of_no_line {s : Scanner} (hs : s.finished = false)
    (h : ∀ b reads, readLine s.options.fromLastCR {} false s.reads ≠ (.line b, reads)) :
    s.advance.1 = false ∧ s.advance.2.1.finished = true := by
  unfold advance
  rw [hs]
  cases hread : readLine s.options.fromLastCR {} false s.reads with
  | mk found reads =>
    cases found with
    | line b => exact absurd hread (h b reads)
    | ended => exact ⟨rfl, rfl⟩
    | failed f => exact ⟨rfl, rfl⟩

/-- A scanner moves once for each physical line, and the text it comes to is that of a buffer that
was given the bytes of this line, cut in some way. -/
theorem after_readsOf (k : Nat) {s : Scanner} (hs : s.finished = false)
    (hne : ∀ c ∈ chunks, c ≠ []) (hreads : s.reads = readsOf chunks ending) :
    (s.after k).advance.1 = decide (k < (physicalLines chunks.flatten ending.isNone).length) ∧
    ∀ line, (physicalLines chunks.flatten ending.isNone)[k]? = some line →
      ∃ cuts : List (List UInt8), cuts.flatten = line ∧ (s.after (k + 1)).line =
        lineText s.options (LineBuffer.feed s.options.fromLastCR {} cuts).finish := by
  induction k generalizing s chunks with
  | zero =>
    cases hlines : physicalLines chunks.flatten ending.isNone with
    | nil =>
      have hno := readLine_readsOf_nil s.options.fromLastCR hne hlines
      rw [← hreads] at hno
      exact ⟨(advance_of_no_line hs hno).1, by simp⟩
    | cons line others =>
      obtain ⟨cuts, left, hcuts, -, -, -, -, hread⟩ :=
        readLine_readsOf_cons s.options.fromLastCR hne hlines
      rw [← hreads] at hread
      obtain ⟨hmove, hnext⟩ := advance_of_line hs hread
      refine ⟨hmove, fun l hl => ⟨cuts, ?_, ?_⟩⟩
      · rw [hcuts]
        simpa using hl
      · show s.advance.2.1.line = _
        rw [hnext]
  | succ k ih =>
    cases hlines : physicalLines chunks.flatten ending.isNone with
    | nil =>
      have hno := readLine_readsOf_nil s.options.fromLastCR hne hlines
      rw [← hreads] at hno
      have hend := (advance_of_no_line hs hno).2
      refine ⟨?_, by simp⟩
      rw [after, after_of_finished hend, advance_of_finished hend]
      rfl
    | cons line others =>
      obtain ⟨cuts, left, -, hleft, -, hothers, -, hread⟩ :=
        readLine_readsOf_cons s.options.fromLastCR hne hlines
      rw [← hreads] at hread
      obtain ⟨-, hnext⟩ := advance_of_line hs hread
      have hrest := ih (s := s.advance.2.1) (by rw [hnext]; exact hs) hleft (by rw [hnext])
      rw [hothers] at hrest
      simpa [after, hnext] using hrest

/-- **A scanner gives the lines of the plain definition, wherever the reads are cut.**  It moves
once for each physical line; the line it comes to is made of the bytes of that physical line alone,
and where this is not too long, it is the sanitized content of it. -/
theorem after_physicalLines (options : SanitizeOptions) (chunks : List (List UInt8))
    (hne : ∀ c ∈ chunks, c ≠ []) (ending : Option ReadFailure) (k : Nat) :
    let s := ofReads options (readsOf chunks ending)
    let lines := physicalLines chunks.flatten ending.isNone
    ((s.after k).advance.1 = true ↔ k < lines.length) ∧
    ∀ line, lines[k]? = some line →
      (∃ cuts : List (List UInt8), cuts.flatten = line ∧ (s.after (k + 1)).line =
        lineText options (LineBuffer.feed options.fromLastCR {} cuts).finish) ∧
      (line.length ≤ Limits.maxLineBytes →
        (s.after (k + 1)).line = Text.sanitize options (content line)) := by
  intro s lines
  obtain ⟨hmore, hline⟩ := after_readsOf k (s := s) rfl hne rfl
  refine ⟨by rw [hmore, decide_eq_true_iff], fun line hl => ?_⟩
  obtain ⟨cuts, hcuts, htext⟩ := hline line hl
  refine ⟨⟨cuts, hcuts, htext⟩, fun hlen => ?_⟩
  have hkeeps := (LineBuffer.Keeps.empty options.fromLastCR).feed cuts (by simpa [hcuts] using hlen)
  rw [List.nil_append, hcuts] at hkeeps
  exact htext.trans hkeeps.lineText_finish

theorem after_physicalLines_ending_across_reads :
    (∀ c ∈ [[0x6F, 0x0D, 0x6E, 0x0D], [0x0A, (0x78 : UInt8)]], c ≠ []) ∧
      ((ofReads .all (readsOf [[0x6F, 0x0D, 0x6E, 0x0D], [0x0A, 0x78]] none)).after 1).line
        = "n" := by
  refine ⟨by decide, ?_⟩
  have h := after_physicalLines .all [[0x6F, 0x0D, 0x6E, 0x0D], [0x0A, 0x78]] (by decide) none 0
  exact ((h.2 [0x6F, 0x0D, 0x6E, 0x0D] rfl).2 (by decide)).trans (by decide)

end Scanner

end StepRunner.Log
