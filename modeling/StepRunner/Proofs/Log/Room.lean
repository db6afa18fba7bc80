import StepRunner.Proofs.Log.Cuts
import StepRunner.Proofs.Text.Sizes

/-!
# Room for a line

Whatever a stream brings, a buffer never holds more than there is room for, and it is full where a
part of the line was cut off.  So a line is as long as this room and the mark, but for what its gaps
take.

* `LineBuffer.Roomy`         a buffer that keeps to its room
* `LineBuffer.Roomy.take`    one read keeps that
* `roomy_of_readLine`        so whatever line is found keeps to it
* `Scanner.AtLine`           a scanner with such a line, or none
* `Scanner.AtLine.advance`   a move keeps that
* `Scanner.size_of_line`     the size of a line
-/

namespace StepRunner.Log
open Text (SanitizeOptions cr lf)

namespace LineBuffer

theorem size_append {b : LineBuffer} (h : b.bytes.size ≤ Limits.maxLineBytes) (chunk : List UInt8) :
    (b.append chunk).bytes.size = min (b.bytes.size + chunk.length) Limits.maxLineBytes := by
  unfold append
  dsimp only
  split
  · rw [← Array.length_toList, Array.toList_appendList, List.length_append, List.length_take,
      Array.length_toList]
    omega
  · rw [← Array.length_toList, Array.toList_appendList, List.length_append, Array.length_toList]
    omega

theorem cut_append {b : LineBuffer} {chunk : List UInt8} (h : (b.append chunk).cut = true) :
    b.cut = true ∨ Limits.maxLineBytes < b.bytes.size + chunk.length := by
  unfold append at h
  dsimp only at h
  split at h
  · exact .inr (by omega)
  · exact .inl h

/-- a buffer that keeps to its room, all of which it takes if something was cut off -/
structure Roomy (b : LineBuffer) : Prop where
  size_le : b.bytes.size ≤ Limits.maxLineBytes
  size_eq : b.cut = true → b.bytes.size = Limits.maxLineBytes

namespace Roomy

variable {b : LineBuffer}

theorem empty : Roomy {} := ⟨Nat.zero_le _, fun h => absurd h (by decide)⟩

theorem append (h : b.Roomy) (chunk : List UInt8) : (b.append chunk).Roomy := by
  have hsize := size_append h.size_le chunk
  refine ⟨hsize ▸ Nat.min_le_right _ _, fun hcut => ?_⟩
  rw [hsize]
  obtain hcut | hlong := cut_append hcut
  · have hfull := h.size_eq hcut
    omega
  · omega

theorem settle (h : b.Roomy) (chunk : List UInt8) : (b.settle chunk).Roomy := by
  unfold LineBuffer.settle
  split
  next hsettles =>
    simp only [Bool.and_eq_true, Bool.not_eq_true', decide_eq_true_eq] at hsettles
    have hone : 1 ≤ Limits.maxLineBytes := by decide
    exact ⟨hone, fun hcut => absurd (hsettles.1.1.symm.trans hcut) (by decide)⟩
  next => exact h

/-- **One read keeps a buffer to its room.** -/
theorem take (h : b.Roomy) (collapse : Bool) (chunk : List UInt8) :
    (b.take collapse chunk).Roomy := by
  unfold LineBuffer.take
  dsimp only
  split
  · split
    · exact empty.append _
    · exact (h.settle chunk).append chunk
  · exact h.append chunk

theorem finish (h : b.Roomy) : b.finish.Roomy := by
  unfold LineBuffer.finish
  split
  next hends =>
    simp only [Bool.and_eq_true, Bool.not_eq_true', decide_eq_true_eq] at hends
    refine ⟨?_, fun hcut => absurd (hends.1.symm.trans hcut) (by decide)⟩
    rw [Array.size_pop]
    exact Nat.le_trans (Nat.sub_le _ _) h.size_le
  next => exact h

end Roomy

end LineBuffer

/-- **Whatever line is found keeps to its room.** -/
theorem roomy_of_readLine {collapse begun : Bool} {b b' : LineBuffer} {reads left : List Read}
    (hb : b.Roomy) (h : readLine collapse b begun reads = (.line b', left)) : b'.Roomy := by
  induction reads generalizing b begun with
  | nil =>
    rw [readLine] at h
    split at h
    · cases h
      exact hb.finish
    · cases h
  | cons r reads ih =>
    cases r with
    | failure f => cases h
    | data bytes =>
      cases bytes with
      | nil =>
        rw [readLine] at h
        split at h
        · cases h
          exact hb.finish
        · cases h
      | cons byte bytes =>
        rw [readLine] at h
        split at h
        next => exact ih (hb.take collapse _) h
        next line rest _ =>
          cases h
          exact (hb.take collapse line).finish

namespace Scanner

/-- a scanner whose line is none or one that keeps to its room -/
def AtLine (options : SanitizeOptions) (s : Scanner) : Prop :=
  s.options = options ∧ (s.line = "" ∨ ∃ b : LineBuffer, b.Roomy ∧ s.line = lineText options b)

/-- **A move keeps that.** -/
theorem AtLine.advance {options : SanitizeOptions} {s : Scanner} (h : AtLine options s) :
    AtLine options s.advance.2.1 := by
  unfold Scanner.advance
  split
  · exact h
  · split
    next b reads hread =>
      refine ⟨h.1, .inr ⟨b, roomy_of_readLine .empty hread, ?_⟩⟩
      rw [← h.1]
    next => exact ⟨h.1, .inl rfl⟩
    next => exact ⟨h.1, .inl rfl⟩

theorem AtLine.after {options : SanitizeOptions} {s : Scanner} (h : AtLine options s) (k : Nat) :
    AtLine options (s.after k) := by
  induction k generalizing s with
  | zero => exact h
  | succ k ih => exact ih h.advance

theorem size_lineText_le (options : SanitizeOptions) {b : LineBuffer} (h : b.Roomy) :
    let text := lineText options b
    text.toList.count Text.Utf8.gap ≤ Limits.maxLineBytes ∧
      text.utf8ByteSize ≤ Limits.maxLineBytes + Limits.cutMark.utf8ByteSize +
        2 * text.toList.count Text.Utf8.gap := by
  have hsize := h.size_le
  obtain ⟨hcount, htext⟩ := Text.size_sanitize_le options b.bytes.toList
  rw [Array.length_toList] at hcount htext
  have hmark : Limits.cutMark.toList.count Text.Utf8.gap = 0 := by decide
  unfold lineText
  dsimp only
  split
  · rw [String.toList_append, List.count_append, hmark, String.utf8ByteSize_append]
    omega
  · omega

theorem line_of_not_mem {options : SanitizeOptions} {bytes : List UInt8} (hnil : bytes ≠ [])
    (hcr : cr ∉ bytes) (hlf : lf ∉ bytes) :
    ((ofReads options [.data bytes]).after 1).line = plainText options bytes := by
  have hlines : physicalLines [bytes].flatten (none : Option ReadFailure).isNone = [bytes] := by
    rw [List.flatten_singleton, physicalLines_of_not_mem hlf]
    simpa using hnil
  have hne : ∀ c ∈ [bytes], c ≠ [] := by simpa using hnil
  have hreads : (ofReads options [.data bytes]).reads = readsOf [bytes] none := rfl
  obtain ⟨cuts, rfl, hline⟩ := (after_readsOf 0 rfl hne hreads).2 bytes (by rw [hlines]; rfl)
  have hheld := LineBuffer.feed_of_not_mem options.fromLastCR hcr
  exact hline.trans (hheld ▸ lineText_holding_self options cuts.flatten)

/-- a line of bytes that are no text is three times as long, up to where it is cut -/
theorem size_of_gaps (options : SanitizeOptions) (n : Nat) :
    ((ofReads options [.data (List.replicate n 0xFF)]).after 1).line.utf8ByteSize =
      3 * min n Limits.maxLineBytes +
        if Limits.maxLineBytes < n then Limits.cutMark.utf8ByteSize else 0 := by
  cases n with
  | zero => rfl
  | succ n =>
    have hmem {b : UInt8} (hb : b ≠ 0xFF) : b ∉ List.replicate (n + 1) (0xFF : UInt8) :=
      fun h => hb (List.eq_of_mem_replicate h)
    have hcr := hmem (b := cr) (by decide)
    rw [line_of_not_mem (by simp) hcr (hmem (by decide)), plainText, List.length_replicate]
    split
    next hroom =>
      rw [content_of_not_mem hcr, Text.size_sanitize_replicate, if_neg (by omega)]
      omega
    next hlong =>
      rw [String.utf8ByteSize_append, List.take_replicate, Text.size_sanitize_replicate,
        if_pos (by omega)]
      omega

/-- **A line is as long as its room and the mark, but for what its gaps take.**  Each of them stands
for a byte that is no text, or for several, and takes three; so there are no more gaps than bytes
that there is room for, and a line of nothing else is three times as long. -/
theorem size_of_line (options : SanitizeOptions) :
    (∀ (reads : List Read) (k : Nat),
      let text := ((ofReads options reads).after k).line
      let gaps := text.toList.count Text.Utf8.gap
      gaps ≤ Limits.maxLineBytes ∧
        text.utf8ByteSize ≤ Limits.maxLineBytes + Limits.cutMark.utf8ByteSize + 2 * gaps) ∧
    ∀ n : Nat,
      ((ofReads options [.data (List.replicate n 0xFF)]).after 1).line.utf8ByteSize =
        3 * min n Limits.maxLineBytes +
          if Limits.maxLineBytes < n then Limits.cutMark.utf8ByteSize else 0 := by
  refine ⟨fun reads k => ?_, size_of_gaps options⟩
  have hstart : AtLine options (ofReads options reads) := ⟨rfl, .inl rfl⟩
  obtain ⟨-, hnone | ⟨b, hroomy, hline⟩⟩ := hstart.after k
  · rw [hnone]
    exact ⟨Nat.zero_le _, Nat.zero_le _⟩
  · rw [hline]
    exact size_lineText_le options hroomy

end Scanner

end StepRunner.Log
