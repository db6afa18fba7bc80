import Mathlib.Logic.Function.Iterate
import StepRunner.Proofs.Log.Frames

/-!
# Lines that are cut

A line that there is no room for is cut and marked.  The rest of it is left out up to its line feed,
and the lines behind it are those that would be there anyway.  Where nothing overwrites, it is the
beginning of the line that is kept, to the byte.

The carriage return of an ending takes room, too, until the line feed tells that it is one.  So a
content that fills the room is marked as cut where its line ends with a carriage return, though none
of it is missing.

* `LineBuffer.feed_plain`       where nothing overwrites, a buffer holds all that was read
* `plainText`                   the text of a line where nothing overwrites
* `Scanner.reads_after`         what is left to read behind some lines
* `Scanner.lines_of_plain`      the lines of a stream where nothing overwrites
* `length_lastFrame_lt`         what is overwritten takes no room
* `Scanner.line_of_content`     a line with room for its content
-/

namespace StepRunner.Log
open Text (SanitizeOptions cr lf)

/-! ## nothing overwrites -/

theorem LineBuffer.feed_plain (text : List UInt8) (reads : List (List UInt8)) :
    (holding text).feed false reads = holding (text ++ reads.flatten) := by
  induction reads generalizing text with
  | nil => simp [feed]
  | cons chunk reads ih =>
    have htake : (holding text).take false chunk = holding (text ++ chunk) :=
      append_holding text chunk
    rw [feed_cons, htake, ih, List.flatten_cons, List.append_assoc]

theorem LineBuffer.feed_of_not_mem (collapse : Bool) {reads : List (List UInt8)}
    (h : cr ∉ reads.flatten) : feed collapse {} reads = holding reads.flatten := by
  rw [← holding_nil]
  cases collapse with
  | false => exact feed_plain [] reads
  | true =>
    exact feed_of_no_return (fun _ hend => by simp at hend) fun hmem =>
      h (List.dropLast_subset _ hmem)

/-- the text of a line of any length where nothing overwrites: all of its content where there is
room for the line, or else its beginning, marked -/
def plainText (options : SanitizeOptions) (line : List UInt8) : String :=
  if line.length ≤ Limits.maxLineBytes then Text.sanitize options (content line)
  else Text.sanitize options (line.take Limits.maxLineBytes) ++ Limits.cutMark

theorem lineText_holding_self (options : SanitizeOptions) (line : List UInt8) :
    Scanner.lineText options (LineBuffer.holding line).finish = plainText options line :=
  lineText_holding_of_keeps fun hlen =>
    (LineBuffer.Keeps.empty options.fromLastCR).append (by simpa using hlen)

theorem lineText_feed_plain {options : SanitizeOptions} (hplain : options.fromLastCR = false)
    (reads : List (List UInt8)) :
    Scanner.lineText options (LineBuffer.feed options.fromLastCR {} reads).finish =
      plainText options reads.flatten := by
  rw [hplain, ← LineBuffer.holding_nil, LineBuffer.feed_plain, List.nil_append]
  exact lineText_holding_self options reads.flatten

namespace Scanner

variable {chunks : List (List UInt8)} {ending : Option ReadFailure}

theorem reads_after {k : Nat} {s : Scanner} (hs : s.finished = false) (hne : ∀ c ∈ chunks, c ≠ [])
    (hreads : s.reads = readsOf chunks ending)
    (hk : k ≤ (physicalLines chunks.flatten ending.isNone).length) :
    ∃ left : List (List UInt8), (∀ c ∈ left, c ≠ []) ∧
      left.flatten = behindLine^[k] chunks.flatten ∧ (s.after k).reads = readsOf left ending := by
  induction k generalizing s chunks with
  | zero => exact ⟨chunks, hne, rfl, hreads⟩
  | succ k ih =>
    cases hlines : physicalLines chunks.flatten ending.isNone with
    | nil => simp [hlines] at hk
    | cons line others =>
      obtain ⟨cuts, left, -, hleft, hbehind, hothers, -, hread⟩ :=
        readLine_readsOf_cons s.options.fromLastCR hne hlines
      rw [← hreads] at hread
      have hnext := (advance_of_line hs hread).2
      rw [hlines, List.length_cons] at hk
      obtain ⟨last, hlast, hflatten, hafter⟩ := ih (s := s.advance.2.1) (by rw [hnext]; exact hs)
        hleft (by rw [hnext]) (by rw [hothers]; omega)
      refine ⟨last, hlast, ?_, hafter⟩
      rw [hflatten, hbehind, Function.iterate_succ_apply]

theorem lines_eq_map_plainText {options : SanitizeOptions} (hplain : options.fromLastCR = false)
    (hne : ∀ c ∈ chunks, c ≠ []) :
    (ofReads options (readsOf chunks ending)).lines =
      (physicalLines chunks.flatten ending.isNone).map (plainText options) := by
  obtain ⟨hflatten, hlines⟩ :=
    lines_readsOf (s := ofReads options (readsOf chunks ending)) rfl hne rfl
  rw [hlines, ← hflatten, List.map_map]
  exact List.map_congr_left fun reads _ => lineText_feed_plain hplain reads

/-- **Where nothing overwrites, a line is cut to the byte.**  There is one line for each physical
line.  One that is too long comes to its first bytes, marked; what stands behind its line feed is
left to read, and all other lines are as they were if it were any line that is short enough. -/
theorem lines_of_plain (options : SanitizeOptions) (hplain : options.fromLastCR = false)
    (chunks : List (List UInt8)) (hne : ∀ c ∈ chunks, c ≠ []) (ending : Option ReadFailure) :
    let s := ofReads options (readsOf chunks ending)
    let lines := physicalLines chunks.flatten ending.isNone
    s.lines = lines.map (plainText options) ∧
    ∀ (k : Nat) (line : List UInt8), lines[k]? = some line → Limits.maxLineBytes < line.length →
      s.lines[k]? =
        some (Text.sanitize options (line.take Limits.maxLineBytes) ++ Limits.cutMark) ∧
      (∃ left : List (List UInt8), (∀ c ∈ left, c ≠ []) ∧
        left.flatten = behindLine^[k + 1] chunks.flatten ∧
        (s.after (k + 1)).reads = readsOf left ending) ∧
      ∀ (short : List UInt8) (chunks' : List (List UInt8)), short.length ≤ Limits.maxLineBytes →
        (∀ c ∈ chunks', c ≠ []) →
        physicalLines chunks'.flatten ending.isNone = lines.set k short →
        (ofReads options (readsOf chunks' ending)).lines =
          s.lines.set k (Text.sanitize options (content short)) := by
  intro s lines
  have hlines : s.lines = lines.map (plainText options) := lines_eq_map_plainText hplain hne
  refine ⟨hlines, fun k line hk hlong => ⟨?_, ?_, fun short chunks' hshort hne' hset => ?_⟩⟩
  · rw [hlines, List.getElem?_map, hk, Option.map_some, plainText, if_neg (Nat.not_le.2 hlong)]
  · have hlt : k < lines.length := (List.getElem?_eq_some_iff.1 hk).1
    exact reads_after rfl hne rfl hlt
  · have htext : plainText options short = Text.sanitize options (content short) := if_pos hshort
    rw [lines_eq_map_plainText hplain hne', hset, List.map_set, htext, hlines]

/-- a line that is one byte too long, against one of a single byte -/
theorem lines_of_plain_overlong :
    let long := List.replicate (Limits.maxLineBytes + 1) (0x78 : UInt8)
    let s := ofReads .none (readsOf [long, [lf, 0x79]] none)
    let cut := Text.sanitize .none (long.take Limits.maxLineBytes) ++ Limits.cutMark
    s.lines = [cut, "y"] ∧
      (∃ left : List (List UInt8), left.flatten = [0x79] ∧
        (s.after 1).reads = readsOf left none) ∧
      (ofReads .none (readsOf [[0x78, lf], [0x79]] none)).lines = s.lines.set 0 "x" := by
  intro long s cut
  have hlen : long.length = Limits.maxLineBytes + 1 := List.length_replicate
  have hlong : Limits.maxLineBytes < long.length := hlen ▸ Nat.lt_succ_self _
  have hnil : long ≠ [] := List.ne_nil_of_length_eq_add_one hlen
  have hlf : lf ∉ long := fun h => absurd (List.eq_of_mem_replicate h) (by decide)
  have hne : ∀ c ∈ [long, [lf, 0x79]], c ≠ [] := by simp [hnil]
  have hbytes : [long, [lf, 0x79]].flatten = long ++ lf :: [0x79] := by simp
  have hlines : physicalLines [long, [lf, 0x79]].flatten (none : Option ReadFailure).isNone =
      [long, [0x79]] := by
    rw [hbytes, physicalLines_append hlf]
    rfl
  obtain ⟨hall, hcut⟩ := lines_of_plain .none rfl [long, [lf, 0x79]] hne none
  rw [hlines] at hall hcut
  obtain ⟨hfirst, ⟨left, -, hleft, hreads⟩, hother⟩ := hcut 0 long rfl hlong
  have hshort : lf ∉ [(0x78 : UInt8)] := by decide
  refine ⟨?_, ⟨left, ?_, hreads⟩, hother [0x78] [[0x78, lf], [0x79]] (by decide) (by decide) ?_⟩
  · have hlast : plainText .none [0x79] = "y" := by decide
    have hhead : plainText .none long = cut := if_neg (Nat.not_le.2 hlong)
    exact hall.trans (by rw [List.map_cons, List.map_singleton, hhead, hlast])
  · rw [hleft, hbytes]
    exact behindLine_append hlf [0x79]
  · exact physicalLines_append hshort [0x79] true

end Scanner

/-! ## room for the content -/

theorem not_missed_of_length {reads : List (List UInt8)}
    (h : reads.flatten.length ≤ Limits.maxLineBytes + 1) : ¬ Missed reads := by
  rintro ⟨before, after, rfl, hmissed⟩
  have hmore : 0 < after.flatten.length := List.length_pos_iff.2 hmissed.more
  rw [List.flatten_append, List.length_append] at h
  have hroom : before.flatten.length ≤ Limits.maxLineBytes := by omega
  have hkeeps := (LineBuffer.Keeps.empty true).feed before hroom
  exact absurd (hkeeps.cut.symm.trans hmissed.cut) (by decide)

theorem lastFrame_of_not_mem_tail {line : List UInt8} (h : cr ∉ line.dropLast.tail) :
    lastFrame line = line := by
  obtain hno | ⟨front, rest, rfl, hrest, hlast⟩ := exists_last_return line
  · exact lastFrame_of_not_mem hno
  · rw [lastFrame_append hrest hlast]
    cases front with
    | nil => rfl
    | cons b front =>
      refine absurd ?_ h
      rw [List.cons_append, List.dropLast_cons_of_ne_nil (by simp), List.tail_cons,
        List.dropLast_append_of_ne_nil (by simp), List.dropLast_cons_of_ne_nil hrest]
      simp

/-- a carriage return within a line overwrites a part of it, which takes no room then -/
theorem length_lastFrame_lt {line : List UInt8} (h : cr ∈ line.dropLast.tail) :
    (lastFrame line).length < line.length := by
  obtain hno | ⟨front, rest, rfl, hrest, hlast⟩ := exists_last_return line
  · exact absurd (List.mem_of_mem_tail h) hno
  · rw [lastFrame_append hrest hlast]
    cases front with
    | nil =>
      rw [List.nil_append, List.dropLast_cons_of_ne_nil hrest, List.tail_cons] at h
      exact absurd h hlast
    | cons b front =>
      simp only [List.length_append, List.length_cons]
      omega

/-- where there is room for the content but not for the line, it is the ending that is cut off -/
theorem take_eq_content {line : List UInt8} (hlong : Limits.maxLineBytes < line.length)
    (hroom : (content line).length ≤ Limits.maxLineBytes) :
    line.length = Limits.maxLineBytes + 1 ∧ line.take Limits.maxLineBytes = content line := by
  unfold content at hroom ⊢
  split at hroom
  · rw [List.length_dropLast] at hroom
    have hlen : line.length = Limits.maxLineBytes + 1 := by omega
    refine ⟨hlen, ?_⟩
    rw [List.dropLast_eq_take, hlen, Nat.add_sub_cancel]
    split <;> rfl
  · omega

namespace Scanner

/-- **A line with room for its content comes to this content, but it may be marked.**  It is where
there is no room for the carriage return of its ending, unless a carriage return before that has
made some. -/
theorem line_of_content (options : SanitizeOptions) (chunks : List (List UInt8))
    (hne : ∀ c ∈ chunks, c ≠ []) (ending : Option ReadFailure) (k : Nat) (line : List UInt8)
    (hline : (physicalLines chunks.flatten ending.isNone)[k]? = some line)
    (hroom : (content line).length ≤ Limits.maxLineBytes) :
    let text := Text.sanitize options (content line)
    (ofReads options (readsOf chunks ending)).lines[k]? = some
      (if line.length ≤ Limits.maxLineBytes ∨
          options.fromLastCR = true ∧ cr ∈ line.dropLast.tail then text
        else text ++ Limits.cutMark) := by
  intro text
  obtain ⟨hflatten, hlines⟩ :=
    lines_readsOf (s := ofReads options (readsOf chunks ending)) rfl hne rfl
  rw [← hflatten, List.getElem?_map, Option.map_eq_some_iff] at hline
  obtain ⟨reads, hreads, rfl⟩ := hline
  rw [hlines, List.getElem?_map, hreads, Option.map_some]
  congr 1
  show lineText options (LineBuffer.feed options.fromLastCR {} reads).finish = _
  by_cases hlen : reads.flatten.length ≤ Limits.maxLineBytes
  · rw [if_pos (.inl hlen)]
    exact ((LineBuffer.Keeps.empty options.fromLastCR).feed reads hlen).lineText_finish
  · have hlong := Nat.not_le.1 hlen
    obtain ⟨hlength, htake⟩ := take_eq_content hlong hroom
    by_cases hcollapse : options.fromLastCR = true
    · have hfeed := LineBuffer.feed_of_not_missed (not_missed_of_length (Nat.le_of_eq hlength))
      rw [hcollapse, hfeed, lineText_holding hcollapse, frameText]
      by_cases hmem : cr ∈ reads.flatten.dropLast.tail
      · have hshort := length_lastFrame_lt hmem
        rw [if_pos (by omega), if_pos (.inr ⟨rfl, hmem⟩)]
      · rw [lastFrame_of_not_mem_tail hmem, if_neg hlen, htake,
          if_neg fun h => h.elim hlen fun hover => hmem hover.2]
    · rw [lineText_feed_plain (eq_false_of_ne_true hcollapse), plainText, if_neg hlen, htake,
        if_neg fun h => h.elim hlen fun hover => hcollapse hover.1]

/-- a content that fills the room, before an ending of two bytes -/
theorem line_of_content_marked :
    let full := List.replicate Limits.maxLineBytes (0x78 : UInt8)
    (ofReads .all (readsOf [full, [cr, lf]] none)).lines[0]? =
      some (Text.sanitize .all full ++ Limits.cutMark) := by
  intro full
  have hlen : full.length = Limits.maxLineBytes := List.length_replicate
  have hx : ∀ b ∈ full, b = 0x78 := fun b hb => List.eq_of_mem_replicate hb
  have hnil : full ≠ [] := by
    rintro hnil
    rw [hnil] at hlen
    exact absurd hlen (by decide)
  have hlf : lf ∉ full ++ [cr] := by
    intro h
    rcases List.mem_append.1 h with h | h
    · exact absurd (hx lf h) (by decide)
    · exact absurd h (by decide)
  have hcr : cr ∉ full := fun h => absurd (hx cr h) (by decide)
  have hbytes : [full, [cr, lf]].flatten = (full ++ [cr]) ++ lf :: [] := by simp
  have hcontent : content (full ++ [cr]) = full := by
    rw [content_append (by simp)]
    exact List.append_nil full
  have hline := line_of_content .all [full, [cr, lf]] (by simp [hnil]) none 0 (full ++ [cr])
    (by rw [hbytes, physicalLines_append hlf]; rfl)
    (by rw [hcontent]; exact Nat.le_of_eq hlen)
  rw [hline, hcontent, if_neg]
  rintro (hle | ⟨-, hmem⟩)
  · rw [List.length_append, hlen] at hle
    exact absurd hle (by decide)
  · rw [List.dropLast_concat] at hmem
    exact hcr (List.mem_of_mem_tail hmem)

end Scanner

end StepRunner.Log
