import StepRunner.Proofs.Log.Sequence

/-!
# Lines of any length that overwrite themselves

Where carriage returns overwrite, a line comes to its last frame: what stands from the last carriage
return on that more of the line follows.  The room of a buffer is for this frame only, so a line of
any length comes to it, wherever the reads are cut.

There is one exception.  A carriage return at the very end of a read is not looked for in this read,
for it may belong to the line ending.  It is kept until the next read tells; but where the line is
cut already, there is no room to keep it, and nothing tells any more that it has overwritten.

* `lastFrame`              what a line comes to
* `LineBuffer.holding`     the buffer that was given some bytes, none of them overwritten
* `Missed`                 the last frame of a line begins where the reads hide it
* `feed_of_not_missed`     else the buffer holds the last frame
* `lines_of_deliveries`    so two ways of cutting a stream that miss no frame give the same lines
-/

namespace StepRunner.Log
open Text (SanitizeOptions afterLastCR_append_cr cr lf takeWhile_append_of_not_mem
  takeWhile_of_not_mem)

/-! ## the last frame -/

/-- what stands from the last carriage return on that more of the line follows; all of the line
where there is none -/
def lastFrame (line : List UInt8) : List UInt8 := (LineBuffer.overwritten? line).getD line

namespace LineBuffer

theorem overwritten?_concat (init : List UInt8) (last : UInt8) :
    overwritten? (init ++ [last]) =
      let frame := init.reverse.takeWhile (· != cr)
      if frame.length = init.reverse.length then none
      else some (cr :: (frame.reverse ++ [last])) := by
  simp [overwritten?]

theorem overwritten?_eq_none {chunk : List UInt8} (h : cr ∉ chunk.dropLast) :
    overwritten? chunk = none := by
  rcases List.eq_nil_or_concat chunk with rfl | ⟨init, last, rfl⟩
  · rfl
  · rw [List.concat_eq_append, List.dropLast_concat] at h
    have hreverse : cr ∉ init.reverse := fun hmem => h (List.mem_reverse.1 hmem)
    rw [List.concat_eq_append, overwritten?_concat]
    simp only [takeWhile_of_not_mem hreverse, if_true]

theorem overwritten?_append {rest : List UInt8} (hrest : rest ≠ []) (h : cr ∉ rest.dropLast)
    (front : List UInt8) : overwritten? (front ++ cr :: rest) = some (cr :: rest) := by
  rcases List.eq_nil_or_concat rest with rfl | ⟨init, last, rfl⟩
  · exact absurd rfl hrest
  · rw [List.concat_eq_append] at h ⊢
    rw [List.dropLast_concat] at h
    have hreverse : cr ∉ init.reverse := fun hmem => h (List.mem_reverse.1 hmem)
    have hframe : (front ++ cr :: init).reverse.takeWhile (· != cr) = init.reverse := by
      rw [List.reverse_append, List.reverse_cons, List.append_assoc,
        takeWhile_append_of_not_mem hreverse, List.singleton_append,
        List.takeWhile_cons_of_neg (by simp), List.append_nil]
    have hsplit : front ++ cr :: (init ++ [last]) = (front ++ cr :: init) ++ [last] := by simp
    rw [hsplit, overwritten?_concat]
    simp only [hframe, List.length_reverse, List.length_append, List.length_cons,
      List.reverse_reverse]
    rw [if_neg (by omega)]

end LineBuffer

theorem lastFrame_of_not_mem {line : List UInt8} (h : cr ∉ line.dropLast) :
    lastFrame line = line := by
  rw [lastFrame, LineBuffer.overwritten?_eq_none h]
  rfl

theorem lastFrame_append {rest : List UInt8} (hrest : rest ≠ []) (h : cr ∉ rest.dropLast)
    (front : List UInt8) : lastFrame (front ++ cr :: rest) = cr :: rest := by
  rw [lastFrame, LineBuffer.overwritten?_append hrest h]
  rfl

theorem exists_last_return (line : List UInt8) :
    cr ∉ line.dropLast ∨
      ∃ front rest, line = front ++ cr :: rest ∧ rest ≠ [] ∧ cr ∉ rest.dropLast := by
  induction line with
  | nil => exact .inl List.not_mem_nil
  | cons b line ih =>
    obtain hno | ⟨front, rest, rfl, hrest, hlast⟩ := ih
    · by_cases hline : line = []
      · subst hline
        exact .inl List.not_mem_nil
      · by_cases hb : b = cr
        · exact .inr ⟨[], line, by rw [hb]; rfl, hline, hno⟩
        · left
          rw [List.dropLast_cons_of_ne_nil hline, List.mem_cons, not_or]
          exact ⟨Ne.symm hb, hno⟩
    · exact .inr ⟨b :: front, rest, rfl, hrest, hlast⟩

/-! ## buffers that hold a text -/

namespace LineBuffer

/-- the buffer that was given some bytes, none of them overwritten -/
def holding (text : List UInt8) : LineBuffer := append {} text

theorem holding_nil : holding [] = {} := append_nil {}

theorem holding_of_le {text : List UInt8} (h : text.length ≤ Limits.maxLineBytes) :
    holding text = ⟨text.toArray, false⟩ := by
  rw [holding, append_of_le {} text (by simpa using h)]
  simp

theorem holding_of_lt {text : List UInt8} (h : Limits.maxLineBytes < text.length) :
    holding text = ⟨(text.take Limits.maxLineBytes).toArray, true⟩ := by
  unfold holding append
  dsimp only
  rw [if_pos (by simpa using h)]
  simp

theorem cut_holding (text : List UInt8) :
    (holding text).cut = decide (Limits.maxLineBytes < text.length) := by
  by_cases h : text.length ≤ Limits.maxLineBytes
  · rw [holding_of_le h, decide_eq_false (Nat.not_lt.2 h)]
  · rw [holding_of_lt (Nat.not_le.1 h), decide_eq_true (Nat.not_le.1 h)]

theorem holding_append_of_lt {text : List UInt8} (h : Limits.maxLineBytes < text.length)
    (more : List UInt8) : holding (text ++ more) = holding text := by
  have hlong : Limits.maxLineBytes < (text ++ more).length := by
    rw [List.length_append]
    omega
  rw [holding_of_lt h, holding_of_lt hlong, List.take_append_of_le_length (Nat.le_of_lt h)]

theorem append_holding (text more : List UInt8) :
    (holding text).append more = holding (text ++ more) := by
  by_cases h : text.length ≤ Limits.maxLineBytes
  · rw [holding_of_le h]
    by_cases hmore : (text ++ more).length ≤ Limits.maxLineBytes
    · rw [holding_of_le hmore, append_of_le _ more (by simpa using hmore)]
      simp
    · have hlt := Nat.not_le.1 hmore
      rw [List.length_append] at hlt
      have hroom : Limits.maxLineBytes - text.length < more.length := by omega
      rw [holding_of_lt (Nat.not_le.1 hmore), List.take_append, List.take_of_length_le h]
      unfold append
      simp [hroom]
  · have hlt := Nat.not_le.1 h
    have hfull : min Limits.maxLineBytes text.length = Limits.maxLineBytes := by omega
    rw [holding_append_of_lt hlt, holding_of_lt hlt]
    unfold append
    cases more with
    | nil => simp
    | cons b more => simp [hfull]

/-! ## one read -/

theorem settle_holding {chunk : List UInt8} (hchunk : chunk ≠ []) (text : List UInt8) :
    (holding text).settle chunk =
      if text.length ≤ Limits.maxLineBytes ∧ text.getLast? = some cr then holding [cr]
      else holding text := by
  by_cases h : text.length ≤ Limits.maxLineBytes
  · have hone : holding [cr] = ⟨#[cr], false⟩ := holding_of_le (by decide)
    rw [holding_of_le h, settle_of_ne_nil rfl hchunk, hone]
    simp only [h, true_and, List.back?_toArray]
  · have hlt := Nat.not_le.1 h
    rw [if_neg fun hand => h hand.1]
    unfold settle
    rw [cut_holding, decide_eq_true hlt]
    rfl

/-- a read in which nothing overwrites is added to what is held; a carriage return held at the end
has overwritten the rest of it -/
theorem take_holding {chunk : List UInt8} (hchunk : chunk ≠ []) (h : cr ∉ chunk.dropLast)
    (text : List UInt8) :
    (holding text).take true chunk =
      if text.length ≤ Limits.maxLineBytes ∧ text.getLast? = some cr then holding (cr :: chunk)
      else holding (text ++ chunk) := by
  unfold take
  rw [if_pos rfl, overwritten?_eq_none h, settle_holding hchunk]
  dsimp only
  split
  · rw [append_holding]
    rfl
  · rw [append_holding]

theorem take_frame {rest : List UInt8} (hrest : rest ≠ []) (h : cr ∉ rest.dropLast)
    (b : LineBuffer) (front : List UInt8) :
    b.take true (front ++ cr :: rest) = holding (cr :: rest) := by
  unfold take
  rw [if_pos rfl, overwritten?_append hrest h]
  rfl

/-! ## several reads -/

@[simp] theorem feed_cons (collapse : Bool) (b : LineBuffer) (chunk : List UInt8)
    (reads : List (List UInt8)) :
    b.feed collapse (chunk :: reads) = (b.take collapse chunk).feed collapse reads := rfl

@[simp] theorem feed_append (collapse : Bool) (b : LineBuffer) (before after : List (List UInt8)) :
    b.feed collapse (before ++ after) = (b.feed collapse before).feed collapse after :=
  List.foldl_append

theorem exists_feed_holding (text : List UInt8) (reads : List (List UInt8)) :
    ∃ held, (holding text).feed true reads = holding held ∧
      held.getLast? = (text ++ reads.flatten).getLast? := by
  induction reads generalizing text with
  | nil => exact ⟨text, rfl, by simp⟩
  | cons chunk reads ih =>
    have hone : ∃ next, (holding text).take true chunk = holding next ∧
        next.getLast? = (text ++ chunk).getLast? := by
      by_cases hchunk : chunk = []
      · subst hchunk
        exact ⟨text, take_nil true _, by simp⟩
      · have hends (front : List UInt8) : (front ++ chunk).getLast? = chunk.getLast? := by
          rw [List.getLast?_append, List.getLast?_eq_some_getLast hchunk]
          rfl
        obtain hno | ⟨front, rest, rfl, hrest, hlast⟩ := exists_last_return chunk
        · rw [take_holding hchunk hno]
          split
          · exact ⟨cr :: chunk, rfl, (hends [cr]).trans (hends text).symm⟩
          · exact ⟨text ++ chunk, rfl, rfl⟩
        · refine ⟨cr :: rest, take_frame hrest hlast _ front, ?_⟩
          rw [hends, List.getLast?_append, List.getLast?_cons]
          rfl
    obtain ⟨next, htake, hnext⟩ := hone
    obtain ⟨held, hfeed, hheld⟩ := ih next
    refine ⟨held, by rw [feed_cons, htake, hfeed], ?_⟩
    rw [hheld, List.flatten_cons, ← List.append_assoc, List.getLast?_append, hnext,
      ← List.getLast?_append]

theorem not_mem_dropLast_of_cons {chunk : List UInt8} {reads : List (List UInt8)}
    (h : cr ∉ (chunk ++ reads.flatten).dropLast) :
    cr ∉ chunk.dropLast ∧ cr ∉ reads.flatten.dropLast ∧
      (chunk.getLast? = some cr → reads.flatten = []) := by
  by_cases hrest : reads.flatten = []
  · rw [hrest, List.append_nil] at h
    exact ⟨h, by simp [hrest], fun _ => hrest⟩
  · rw [List.dropLast_append_of_ne_nil hrest, List.mem_append, not_or] at h
    exact ⟨fun hmem => h.1 (List.dropLast_subset _ hmem), h.2,
      fun hlast => absurd (List.mem_of_getLast? hlast) h.1⟩

theorem feed_of_no_return {text : List UInt8} {reads : List (List UInt8)}
    (hheld : text.length ≤ Limits.maxLineBytes → text.getLast? = some cr → reads.flatten = [])
    (h : cr ∉ reads.flatten.dropLast) :
    (holding text).feed true reads = holding (text ++ reads.flatten) := by
  induction reads generalizing text with
  | nil => simp [feed]
  | cons chunk reads ih =>
    rw [List.flatten_cons] at hheld h ⊢
    obtain ⟨hchunk, hrest, hend⟩ := not_mem_dropLast_of_cons h
    rw [feed_cons]
    by_cases hnil : chunk = []
    · subst hnil
      rw [take_nil]
      exact ih hheld hrest
    · have hopen : ¬ (text.length ≤ Limits.maxLineBytes ∧ text.getLast? = some cr) :=
        fun hand => hnil (List.append_eq_nil_iff.1 (hheld hand.1 hand.2)).1
      rw [take_holding hnil hchunk, if_neg hopen, ih ?_ hrest, List.append_assoc]
      intro _ hlast
      rw [List.getLast?_append, List.getLast?_eq_some_getLast hnil] at hlast
      exact hend (by rw [List.getLast?_eq_some_getLast hnil]; exact hlast)

/-- a carriage return that is held at the end overwrites as soon as more comes -/
theorem feed_of_held_return {text : List UInt8} {reads : List (List UInt8)}
    (hlen : text.length ≤ Limits.maxLineBytes) (hlast : text.getLast? = some cr)
    (hmore : reads.flatten ≠ []) (h : cr ∉ reads.flatten.dropLast) :
    (holding text).feed true reads = holding (cr :: reads.flatten) := by
  induction reads with
  | nil => exact absurd rfl hmore
  | cons chunk reads ih =>
    rw [List.flatten_cons] at hmore h ⊢
    obtain ⟨hchunk, hrest, hend⟩ := not_mem_dropLast_of_cons h
    rw [feed_cons]
    by_cases hnil : chunk = []
    · subst hnil
      rw [take_nil]
      exact ih hmore hrest
    · rw [take_holding hnil hchunk, if_pos ⟨hlen, hlast⟩, feed_of_no_return ?_ hrest]
      · rfl
      · intro _ hlast'
        refine hend ?_
        rw [← hlast', ← List.singleton_append, List.getLast?_append,
          List.getLast?_eq_some_getLast hnil]
        rfl

end LineBuffer

/-! ## frames that are missed -/

/-- Reads that miss the last frame of a line: one of them ends with the carriage return that this
frame begins with, and the line was cut by then. -/
structure MissedAt (before after : List (List UInt8)) : Prop where
  ends : before.flatten.getLast? = some cr
  more : after.flatten ≠ []
  last : cr ∉ after.flatten.dropLast
  cut : (LineBuffer.feed true {} before).cut = true

def Missed (reads : List (List UInt8)) : Prop :=
  ∃ before after, reads = before ++ after ∧ MissedAt before after

theorem not_missed_of_ends {reads : List (List UInt8)}
    (h : ∀ chunk ∈ reads, chunk.getLast? ≠ some cr) : ¬ Missed reads := by
  rintro ⟨before, after, rfl, hmissed⟩
  have hends := hmissed.ends
  clear hmissed
  induction before with
  | nil => cases hends
  | cons chunk before ih =>
    obtain ⟨hchunk, hbefore⟩ := List.forall_mem_cons.1 h
    rw [List.flatten_cons, List.getLast?_append, Option.or_eq_some_iff] at hends
    obtain hlater | ⟨-, hfirst⟩ := hends
    · exact ih hbefore hlater
    · exact hchunk hfirst

theorem exists_read_of_flatten {reads : List (List UInt8)} {front rest : List UInt8} {b : UInt8}
    (h : reads.flatten = front ++ b :: rest) :
    (∃ before after, reads = before ++ after ∧ before.flatten = front ++ [b] ∧
      after.flatten = rest) ∨
    ∃ before left right after, reads = before ++ (left ++ b :: right) :: after ∧ right ≠ [] ∧
      right ++ after.flatten = rest := by
  induction reads generalizing front with
  | nil => simp at h
  | cons chunk reads ih =>
    have hlater {front' : List UInt8} (hfront : front = chunk ++ front')
        (h' : reads.flatten = front' ++ b :: rest) :
        (∃ before after, chunk :: reads = before ++ after ∧ before.flatten = front ++ [b] ∧
          after.flatten = rest) ∨
        ∃ before left right after, chunk :: reads = before ++ (left ++ b :: right) :: after ∧
          right ≠ [] ∧ right ++ after.flatten = rest := by
      obtain ⟨before, after, rfl, hbefore, hafter⟩ |
        ⟨before, left, right, after, rfl, hright, hrest⟩ := ih h'
      · exact .inl ⟨chunk :: before, after, rfl, by simp [hbefore, hfront], hafter⟩
      · exact .inr ⟨chunk :: before, left, right, after, rfl, hright, hrest⟩
    rw [List.flatten_cons] at h
    obtain ⟨front', hfront, h'⟩ | ⟨tail, hchunk, htail⟩ := List.append_eq_append_iff.1 h
    · exact hlater hfront h'
    · cases tail with
      | nil =>
        have hwhole : front = chunk ++ [] := by simpa using hchunk.symm
        exact hlater hwhole (by simpa using htail.symm)
      | cons c right =>
        rw [List.cons_append, List.cons.injEq] at htail
        obtain ⟨rfl, hrest⟩ := htail
        by_cases hright : right = []
        · subst hright
          exact .inl ⟨[chunk], reads, rfl, by simp [hchunk], by simpa using hrest.symm⟩
        · exact .inr ⟨[], front, right, reads, by simp [hchunk], hright, hrest.symm⟩

namespace LineBuffer

/-- **A line comes to its last frame** in whatever reads, unless they miss it. -/
theorem feed_of_not_missed {reads : List (List UInt8)} (h : ¬ Missed reads) :
    feed true {} reads = holding (lastFrame reads.flatten) := by
  obtain hno | ⟨front, rest, hflatten, hrest, hlast⟩ := exists_last_return reads.flatten
  · rw [lastFrame_of_not_mem hno, ← holding_nil]
    exact feed_of_no_return (fun _ hend => by simp at hend) hno
  rw [hflatten, lastFrame_append hrest hlast]
  obtain ⟨before, after, rfl, hbefore, hafter⟩ |
      ⟨before, left, right, after, rfl, hright, hrest'⟩ :=
    exists_read_of_flatten hflatten
  · -- the frame begins behind a read that ends with its carriage return
    obtain ⟨held, hfeed, hheld⟩ := exists_feed_holding [] before
    rw [holding_nil] at hfeed
    have hends : before.flatten.getLast? = some cr := by simp [hbefore]
    have huncut : held.length ≤ Limits.maxLineBytes := by
      refine Nat.not_lt.1 fun hlt => h ⟨before, after, rfl, hends, ?_, ?_, ?_⟩
      · rwa [hafter]
      · rwa [hafter]
      · rw [hfeed, cut_holding, decide_eq_true hlt]
    rw [List.nil_append, hends] at hheld
    rw [feed_append, hfeed, feed_of_held_return huncut hheld (by rwa [hafter]) (by rwa [hafter]),
      hafter]
  · -- it begins within a read
    subst hrest'
    obtain ⟨hno, hno', hend⟩ := not_mem_dropLast_of_cons hlast
    rw [feed_append, feed_cons, take_frame hright hno, feed_of_no_return ?_ hno']
    · rfl
    · intro _ hlast'
      refine hend ?_
      rw [← hlast', ← List.singleton_append, List.getLast?_append,
        List.getLast?_eq_some_getLast hright]
      rfl

theorem feed_of_missed {before after : List (List UInt8)} (h : MissedAt before after) :
    feed true {} (before ++ after) = feed true {} before := by
  obtain ⟨held, hfeed, -⟩ := exists_feed_holding [] before
  rw [holding_nil] at hfeed
  have hcut := h.cut
  rw [hfeed, cut_holding, decide_eq_true_iff] at hcut
  rw [feed_append, hfeed, feed_of_no_return (fun hle => absurd hcut (Nat.not_lt.2 hle)) h.last,
    holding_append_of_lt hcut]

end LineBuffer

/-! ## the text of a line -/

/-- the text of a line of any length: the whole line where there is room for its last frame, or else
the part of this frame that there is room for, marked -/
def frameText (options : SanitizeOptions) (line : List UInt8) : String :=
  if (lastFrame line).length ≤ Limits.maxLineBytes then Text.sanitize options (content line)
  else Text.sanitize options ((lastFrame line).take Limits.maxLineBytes) ++ Limits.cutMark

theorem lineText_of_cut {options : SanitizeOptions} {b : LineBuffer} (h : b.cut = true) :
    Scanner.lineText options b.finish = Text.sanitize options b.bytes.toList ++ Limits.cutMark := by
  have hfinish : b.finish = b := by simp [LineBuffer.finish, h]
  rw [hfinish, Scanner.lineText]
  simp only [h, if_true]

theorem lineText_holding_of_keeps {options : SanitizeOptions} {held line : List UInt8}
    (hkeeps : held.length ≤ Limits.maxLineBytes →
      LineBuffer.Keeps options.fromLastCR (LineBuffer.holding held) line) :
    Scanner.lineText options (LineBuffer.holding held).finish =
      if held.length ≤ Limits.maxLineBytes then Text.sanitize options (content line)
      else Text.sanitize options (held.take Limits.maxLineBytes) ++ Limits.cutMark := by
  by_cases hlen : held.length ≤ Limits.maxLineBytes
  · rw [if_pos hlen]
    exact (hkeeps hlen).lineText_finish
  · rw [if_neg hlen]
    have hlt := Nat.not_le.1 hlen
    have hcut : (LineBuffer.holding held).cut = true := by
      rw [LineBuffer.cut_holding, decide_eq_true hlt]
    rw [lineText_of_cut hcut, LineBuffer.holding_of_lt hlt]

theorem lineText_holding {options : SanitizeOptions} (hcollapse : options.fromLastCR = true)
    (line : List UInt8) :
    Scanner.lineText options (LineBuffer.holding (lastFrame line)).finish =
      frameText options line := by
  refine lineText_holding_of_keeps fun hlen => ?_
  rw [hcollapse]
  obtain hno | ⟨front, rest, rfl, hrest, hlast⟩ := exists_last_return line
  · rw [lastFrame_of_not_mem hno] at hlen ⊢
    exact (LineBuffer.Keeps.empty true).append (by simpa using hlen)
  · rw [lastFrame_append hrest hlast] at hlen ⊢
    exact LineBuffer.Keeps.frame hrest hlen

namespace Scanner

theorem lines_of_not_missed {options : SanitizeOptions} (hcollapse : options.fromLastCR = true)
    {chunks : List (List UInt8)} (hne : ∀ c ∈ chunks, c ≠ []) {ending : Option ReadFailure}
    (h : ∀ reads ∈ lineReads chunks ending.isNone, ¬ Missed reads) :
    (ofReads options (readsOf chunks ending)).lines =
      (physicalLines chunks.flatten ending.isNone).map (frameText options) := by
  obtain ⟨hflatten, hlines⟩ :=
    lines_readsOf (s := ofReads options (readsOf chunks ending)) rfl hne rfl
  rw [hlines, ← hflatten, List.map_map]
  refine List.map_congr_left fun reads hreads => ?_
  show lineText options (LineBuffer.feed options.fromLastCR {} reads).finish = _
  rw [hcollapse, LineBuffer.feed_of_not_missed (h reads hreads), lineText_holding hcollapse]
  rfl

/-- **How a stream is cut does not matter as long as no frame is missed.**  Two ways of cutting it
give equally many lines.  In each of them a line is its last frame, as far as there is room for it,
unless its reads miss this frame: then it is an earlier frame, marked as cut.  So the lines are the
same where no reads miss a frame. -/
theorem lines_of_deliveries (options : SanitizeOptions) (hcollapse : options.fromLastCR = true)
    (chunks chunks' : List (List UInt8)) (hne : ∀ c ∈ chunks, c ≠ []) (hne' : ∀ c ∈ chunks', c ≠ [])
    (hbytes : chunks.flatten = chunks'.flatten) (ending : Option ReadFailure) :
    let lines (chunks : List (List UInt8)) := (ofReads options (readsOf chunks ending)).lines
    let cuts (chunks : List (List UInt8)) := lineReads chunks ending.isNone
    (lines chunks).length = (lines chunks').length ∧
    (cuts chunks).map List.flatten = physicalLines chunks.flatten ending.isNone ∧
    (∀ (k : Nat) (reads : List (List UInt8)), (cuts chunks)[k]? = some reads →
      (¬ Missed reads → (lines chunks)[k]? = some (frameText options reads.flatten)) ∧
      ∀ before after, reads = before ++ after → MissedAt before after →
        (lines chunks)[k]? = some (Text.sanitize options
          (LineBuffer.feed true {} before).bytes.toList ++ Limits.cutMark)) ∧
    ((∀ reads ∈ cuts chunks, ¬ Missed reads) → (∀ reads ∈ cuts chunks', ¬ Missed reads) →
      lines chunks = lines chunks') := by
  intro lines cuts
  obtain ⟨hflatten, hlines⟩ :=
    lines_readsOf (s := ofReads options (readsOf chunks ending)) rfl hne rfl
  obtain ⟨hflatten', hlines'⟩ :=
    lines_readsOf (s := ofReads options (readsOf chunks' ending)) rfl hne' rfl
  refine ⟨?_, hflatten, fun k reads hk => ?_, fun h h' => ?_⟩
  · have hcount := congrArg List.length hflatten
    have hcount' := congrArg List.length hflatten'
    rw [List.length_map] at hcount hcount'
    show (ofReads options (readsOf chunks ending)).lines.length =
      (ofReads options (readsOf chunks' ending)).lines.length
    rw [hlines, hlines', List.length_map, List.length_map, hcount, hcount', hbytes]
  · have hline : (lines chunks)[k]? =
        some (lineText options (LineBuffer.feed true {} reads).finish) := by
      show (ofReads options (readsOf chunks ending)).lines[k]? = _
      rw [hlines, List.getElem?_map, hk, ← hcollapse]
      rfl
    constructor
    · intro h
      rw [hline, LineBuffer.feed_of_not_missed h, lineText_holding hcollapse]
    · rintro before after rfl h
      rw [hline, LineBuffer.feed_of_missed h, lineText_of_cut h.cut]
  · show (ofReads options (readsOf chunks ending)).lines =
      (ofReads options (readsOf chunks' ending)).lines
    rw [lines_of_not_missed hcollapse hne h, lines_of_not_missed hcollapse hne' h', hbytes]

/-- a line that is cut before its last frame begins; the frame is missed where its carriage return
ends the first read -/
theorem lines_of_deliveries_overlong :
    let long := List.replicate (Limits.maxLineBytes + 1) (0x78 : UInt8)
    let lines (chunks : List (List UInt8)) := (ofReads .all (readsOf chunks none)).lines
    lines [long, [cr, 0x6E]] = lines [long ++ [cr, 0x6E]] ∧
      (lines [long, [cr, 0x6E]])[0]? = some "n" ∧
      (lines [long ++ [cr], [0x6E]])[0]? = some (Text.sanitize .all
        (LineBuffer.feed true {} [long ++ [cr]]).bytes.toList ++ Limits.cutMark) := by
  intro long lines
  have hx : ∀ b ∈ long, b = 0x78 := fun b hb => List.eq_of_mem_replicate hb
  have hlen : long.length = Limits.maxLineBytes + 1 := List.length_replicate
  have hlf : lf ∉ long := fun hmem => absurd (hx lf hmem) (by decide)
  have hcr : cr ∉ long := fun hmem => absurd (hx cr hmem) (by decide)
  have hnil : long ≠ [] := List.ne_nil_of_length_eq_add_one hlen
  have hno : lf ∉ long ++ [cr, 0x6E] := by
    simp [hlf, show lf ≠ cr by decide, show lf ≠ 0x6E by decide]
  have hone {chunks : List (List UInt8)} (hne : ∀ c ∈ chunks, c ≠ []) (hc : chunks ≠ [])
      (hbytes : chunks.flatten = long ++ [cr, 0x6E]) : lineReads chunks true = [chunks] := by
    rw [lineReads_of_not_mem hne (hbytes ▸ hno), if_pos (by simpa using hc)]
  have hwhole : ∀ c ∈ [long ++ [cr, 0x6E]], c ≠ [] := by simp
  have hwithin : ∀ c ∈ [long, [cr, 0x6E]], c ≠ [] := by simp [hnil]
  have hends : ∀ c ∈ [long ++ [cr], [(0x6E : UInt8)]], c ≠ [] := by simp
  -- read in one piece, or cut before its carriage return, the frame is found
  have hfound := lines_of_deliveries .all rfl [long, [cr, 0x6E]] [long ++ [cr, 0x6E]] hwithin hwhole
    (by simp) none
  have hreads := hone hwithin (by simp) (by simp)
  have hreads' := hone hwhole (by simp) (by simp)
  have hkept : ¬ Missed [long, [cr, 0x6E]] := by
    refine not_missed_of_ends ?_
    have hlast : long.getLast? ≠ some cr := fun h => hcr (List.mem_of_getLast? h)
    simp [hlast, show (0x6E : UInt8) ≠ cr by decide]
  have hkept' : ¬ Missed [long ++ [cr, 0x6E]] := by
    refine not_missed_of_ends ?_
    simp [show (0x6E : UInt8) ≠ cr by decide]
  have htext : frameText .all (long ++ cr :: [0x6E]) = "n" := by
    unfold frameText
    rw [lastFrame_append (by simp) List.not_mem_nil, if_pos (by decide),
      content_append (by simp)]
    have hcontent : content [cr, 0x6E] = [cr, 0x6E] := by decide
    rw [hcontent]
    unfold Text.sanitize Text.sanitizedBytes
    simp only [Text.SanitizeOptions.all, if_true, afterLastCR_append_cr]
    decide
  -- cut behind it, it is missed
  have hlost := lines_of_deliveries .all rfl [long ++ [cr], [0x6E]] [long ++ [cr, 0x6E]] hends
    hwhole (by simp) none
  have hreads'' := hone hends (by simp) (by simp)
  have hmissed : MissedAt [long ++ [cr]] [[0x6E]] := by
    refine ⟨by simp, by simp, by simp, ?_⟩
    have htake : LineBuffer.feed true {} [long ++ [cr]] = LineBuffer.holding (long ++ [cr]) := by
      rw [← LineBuffer.holding_nil, LineBuffer.feed_of_no_return (fun _ hend => by simp at hend)
        (by simpa using hcr)]
      simp
    rw [htake, LineBuffer.cut_holding, decide_eq_true_iff, List.length_append, hlen]
    omega
  refine ⟨hfound.2.2.2 ?_ ?_, ?_, ?_⟩
  · simpa [hreads] using hkept
  · simpa [hreads'] using hkept'
  · have hfirst := (hfound.2.2.1 0 [long, [cr, 0x6E]] (by simp [hreads])).1 hkept
    rw [← htext]
    simpa using hfirst
  · exact (hlost.2.2.1 0 [long ++ [cr], [0x6E]] (by simp [hreads''])).2 _ _ rfl hmissed

end Scanner

end StepRunner.Log
