import StepRunner.Proofs.Log.Cuts
import StepRunner.Proofs.Log.Places
import StepRunner.Proofs.Log.Room

/-!
# The window on a line

What the buffer holds while a line comes in, behind each of its reads: a part of the line, no larger
than there is room for.  It is the beginning of the line, or else it begins with a carriage return,
and every other carriage return that it holds stands at its very end, where nothing tells yet whether
it overwrites.

* `lineAhead`                 the bytes of the line under way, whatever reads bring them
* `LineBuffer.Part`           a part of a line that nothing within it overwrites
* `LineBuffer.Part.take`      one read leaves a part of the line to hold
* `LineBuffer.Part.feed`      so do several
* `LineBuffer.Window`         what a buffer shows of a line
* `Scanner.window_of_script`  behind each read of each line the buffer is such a window
-/

namespace StepRunner.Log

open Text (SanitizeOptions cr lf takeWhile_append_of_not_mem takeWhile_of_not_mem)

/-! ## the line under way -/

/-- what some reads bring before a pause or a failure -/
def brought : List Read → List UInt8
  | .data (byte :: bytes) :: reads => byte :: bytes ++ brought reads
  | _ => []

/-- the line under way: what some reads bring up to the first line feed -/
def lineAhead (reads : List Read) : List UInt8 := (brought reads).takeWhile (· != lf)

theorem flatten_pieces (reads : List Read) : (pieces reads).flatten = lineAhead reads := by
  induction reads with
  | nil => rfl
  | cons r reads ih =>
    cases r with
    | failure f => rfl
    | data bytes =>
      cases bytes with
      | nil => rfl
      | cons byte bytes =>
        rw [pieces, lineAhead, brought]
        by_cases hmem : lf ∈ byte :: bytes
        · obtain ⟨line, rest, hsplit, hline⟩ := List.eq_append_cons_of_mem hmem
          rw [hsplit, splitLine?_append hline, List.append_assoc,
            takeWhile_append_of_not_mem hline, List.cons_append,
            List.takeWhile_cons_of_neg (by simp), List.append_nil]
          exact List.flatten_singleton
        · rw [splitLine?_of_not_mem hmem, takeWhile_append_of_not_mem hmem, List.flatten_cons, ih]
          rfl

theorem flatten_take_pieces (reads : List Read) (k : Nat) :
    ((pieces reads).take k).flatten <+: lineAhead reads := by
  rw [← flatten_pieces]
  conv => rhs; rw [← List.take_append_drop k (pieces reads), List.flatten_append]
  exact List.prefix_append _ _

namespace LineBuffer

/-! ## a part of a line -/

theorem eq_last_of_return {l : List UInt8} (h : cr ∉ l.dropLast) {i : Nat}
    (hi : l[i]? = some cr) : i + 1 = l.length := by
  have hlt : i < l.length := (List.getElem?_eq_some_iff.1 hi).1
  by_contra hne
  refine h (List.mem_of_getElem? (i := i) ?_)
  rw [List.getElem?_dropLast, if_pos (by omega), hi]

/-- A part of a line that nothing within it overwrites.  It goes on to where the line has come, unless
there is no room for that much. -/
structure Part (held line : List UInt8) : Prop where
  within : ∃ gone rest, line = gone ++ held ++ rest ∧ (gone = [] ∨ held[0]? = some cr) ∧
    (held.length ≤ Limits.maxLineBytes → rest = [])
  returns : ∀ i : Nat, held[i]? = some cr → i = 0 ∨ i + 1 = held.length

namespace Part

variable {held line chunk : List UInt8}

theorem nil : Part [] [] := ⟨⟨[], [], rfl, .inl rfl, fun _ => rfl⟩, nofun⟩

theorem frame {rest : List UInt8} (h : cr ∉ rest.dropLast) (front : List UInt8) :
    Part (cr :: rest) (front ++ cr :: rest) := by
  refine ⟨⟨front, [], (List.append_nil _).symm, .inr rfl, fun _ => rfl⟩, fun i hi => ?_⟩
  cases i with
  | zero => exact .inl rfl
  | succ i => exact .inr (congrArg (· + 1) (eq_last_of_return h hi))

/-- more bytes of a line, none of which overwrites, behind a part of it that goes on -/
theorem append (h : Part held line) (hroom : held.length ≤ Limits.maxLineBytes)
    (hlast : held.getLast? ≠ some cr) (hchunk : cr ∉ chunk.dropLast) :
    Part (held ++ chunk) (line ++ chunk) := by
  obtain ⟨gone, rest, hline, hgone, hrest⟩ := h.within
  refine ⟨⟨gone, [], ?_, hgone.imp_right fun hhead => ?_, fun _ => rfl⟩, fun i hi => ?_⟩
  · rw [hline, hrest hroom, List.append_nil, List.append_nil, List.append_assoc]
  · rw [List.getElem?_append_left (List.getElem?_eq_some_iff.1 hhead).1, hhead]
  · obtain hlt | hge := Nat.lt_or_ge i held.length
    · rw [List.getElem?_append_left hlt] at hi
      refine (h.returns i hi).imp_right fun hend => absurd ?_ hlast
      rw [List.getLast?_eq_getElem?, ← hend, Nat.add_sub_cancel, hi]
    · rw [List.getElem?_append_right hge] at hi
      have hend := eq_last_of_return hchunk hi
      rw [List.length_append]
      omega

/-- **One read leaves a part of the line to hold.** -/
theorem take (h : Part held line) (chunk : List UInt8) :
    ∃ held', (holding held).take true chunk = holding held' ∧ Part held' (line ++ chunk) := by
  by_cases hnil : chunk = []
  · exact ⟨held, by rw [hnil, take_nil], by rwa [hnil, List.append_nil]⟩
  · obtain hno | ⟨front, rest, rfl, hrest, hlast⟩ := exists_last_return chunk
    · rw [take_holding hnil hno]
      by_cases hends : held.length ≤ Limits.maxLineBytes ∧ held.getLast? = some cr
      · -- all that is held is overwritten, but the carriage return
        obtain ⟨gone, rest, hline, -, hrest⟩ := h.within
        obtain ⟨front, hfront⟩ := List.getLast?_eq_some_iff.1 hends.2
        have hwhole : line ++ chunk = (gone ++ front) ++ cr :: chunk := by
          rw [hline, hrest hends.1, hfront]
          simp
        rw [if_pos hends, hwhole]
        exact ⟨_, rfl, frame hno _⟩
      · rw [if_neg hends]
        by_cases hroom : held.length ≤ Limits.maxLineBytes
        · exact ⟨_, rfl, h.append hroom (fun hlast => hends ⟨hroom, hlast⟩) hno⟩
        · -- there is no room for more
          rw [holding_append_of_lt (Nat.not_le.1 hroom)]
          obtain ⟨gone, rest, hline, hgone, -⟩ := h.within
          refine ⟨held, rfl, ⟨gone, rest ++ chunk, ?_, hgone, fun hle => absurd hle hroom⟩, h.returns⟩
          rw [hline, List.append_assoc]
    · rw [← List.append_assoc]
      exact ⟨_, take_frame hrest hlast _ front, frame hlast _⟩

/-- **So do several reads.** -/
theorem feed (h : Part held line) (chunks : List (List UInt8)) :
    ∃ held', (holding held).feed true chunks = holding held' ∧
      Part held' (line ++ chunks.flatten) := by
  induction chunks generalizing held line with
  | nil => exact ⟨held, rfl, by rwa [List.flatten_nil, List.append_nil]⟩
  | cons chunk chunks ih =>
    obtain ⟨next, htake, hnext⟩ := h.take chunk
    obtain ⟨held', hfeed, hheld⟩ := ih hnext
    refine ⟨held', by rw [feed_cons, htake, hfeed], ?_⟩
    rwa [List.flatten_cons, ← List.append_assoc]

end Part

/-! ## the window -/

theorem toList_holding (held : List UInt8) :
    (holding held).bytes.toList = held.take Limits.maxLineBytes := by
  by_cases h : held.length ≤ Limits.maxLineBytes
  · rw [holding_of_le h, List.take_of_length_le h]
  · rw [holding_of_lt (Nat.not_le.1 h)]

/-- What a buffer shows of a line: never more than there is room for, and all of that where some of
the line was cut off.  Where nothing overwrites it is the beginning of the line.  Else it is a part
that stands at the beginning or begins with a carriage return, and there is no other one in it but at
its end. -/
structure Window (collapse : Bool) (b : LineBuffer) (line : List UInt8) : Prop where
  size_le : b.bytes.size ≤ Limits.maxLineBytes
  full : b.cut = true → b.bytes.size = Limits.maxLineBytes
  begins : collapse = false → b.bytes.toList <+: line
  within : collapse = true → ∃ gone rest, line = gone ++ b.bytes.toList ++ rest ∧
    (gone = [] ∨ b.bytes[0]? = some cr)
  returns : collapse = true → ∀ i : Nat, b.bytes[i]? = some cr → i = 0 ∨ i + 1 = b.bytes.size

theorem Part.window {held line : List UInt8} (h : Part held line) :
    Window true (holding held) line := by
  have hroomy : (holding held).Roomy := Roomy.empty.append held
  have hbytes := toList_holding held
  have hone : 0 < Limits.maxLineBytes := by decide
  refine ⟨hroomy.size_le, hroomy.size_eq, nofun, fun _ => ?_, fun _ i hi => ?_⟩
  · obtain ⟨gone, rest, hline, hgone, -⟩ := h.within
    refine ⟨gone, held.drop Limits.maxLineBytes ++ rest, ?_, hgone.imp_right fun hhead => ?_⟩
    · rw [hbytes, hline, ← List.append_assoc, List.append_assoc gone (held.take _),
        List.take_append_drop]
    · rw [← Array.getElem?_toList, hbytes, List.getElem?_take_of_lt hone, hhead]
  · have hsize : (holding held).bytes.size = min Limits.maxLineBytes held.length := by
      rw [← Array.length_toList, hbytes, List.length_take]
    have hlt : i < (holding held).bytes.size := (Array.getElem?_eq_some_iff.1 hi).1
    rw [← Array.getElem?_toList, hbytes, List.getElem?_take_of_lt (by omega)] at hi
    refine (h.returns i hi).imp_right fun hend => ?_
    omega

theorem window_feed (collapse : Bool) (chunks : List (List UInt8)) :
    Window collapse (feed collapse {} chunks) chunks.flatten := by
  rw [← holding_nil]
  cases collapse with
  | true =>
    obtain ⟨held, hfeed, hheld⟩ := Part.nil.feed chunks
    rw [hfeed]
    exact hheld.window
  | false =>
    have hroomy : (holding chunks.flatten).Roomy := Roomy.empty.append _
    rw [feed_plain, List.nil_append]
    refine ⟨hroomy.size_le, hroomy.size_eq, fun _ => ?_, nofun, nofun⟩
    rw [toList_holding]
    exact List.take_prefix _ _

end LineBuffer

/-! ## any stream -/

/-- **Behind each read of each line the buffer is a window on the line**, whatever the stream brings
and however many calls have gone before; and place by place, no place that is computed on the way is
out of range. -/
theorem Scanner.window_of_script (options : SanitizeOptions) (reads : List Read) (calls : Nat) :
    let collapse := options.fromLastCR
    let ahead := ((ofReads options reads).after calls).reads
    ∃ passed, walk? collapse {} false ahead = some (passed, readLine collapse {} false ahead) ∧
      passed.length = (pieces ahead).length ∧
      ∀ (k : Nat) (b : LineBuffer), passed[k]? = some b →
        let line := ((pieces ahead).take (k + 1)).flatten
        line <+: lineAhead ahead ∧ b.Window collapse line := by
  intro collapse ahead
  refine ⟨_, walk?_eq collapse {} false ahead, LineBuffer.length_passed .., fun k b hb => ?_⟩
  rw [LineBuffer.getElem?_passed hb]
  exact ⟨flatten_take_pieces ahead (k + 1), LineBuffer.window_feed collapse _⟩

end StepRunner.Log
