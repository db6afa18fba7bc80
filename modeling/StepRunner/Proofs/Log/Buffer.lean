import StepRunner.Log.Scanner
import StepRunner.Proofs.Text.Sanitize

/-!
# The line under way

What the buffer of a scanner holds of the bytes it was given.

* `content`                   a physical line without the carriage return of its ending
* `LineBuffer.feed`           the buffer after several reads
* `LineBuffer.Keeps`          an uncut buffer against the bytes it was given: all of them, or those
                              from an overwriting carriage return on
* `Keeps.take`                one read keeps that, as long as there is room
* `Keeps.lineText_finish`     the text of such a buffer is the text of the whole line
-/

namespace StepRunner.Log
open Text (SanitizeOptions afterLastCR afterLastCR_append_cr cr lf)

def content (line : List UInt8) : List UInt8 :=
  if line.getLast? = some cr then line.dropLast else line

theorem content_of_not_mem {line : List UInt8} (h : cr ∉ line) : content line = line :=
  if_neg fun hlast => h (List.mem_of_getLast? hlast)

theorem content_append {rest : List UInt8} (hrest : rest ≠ []) (front : List UInt8) :
    content (front ++ rest) = front ++ content rest := by
  have hlast : (front ++ rest).getLast? = rest.getLast? := by
    rw [List.getLast?_append, List.getLast?_eq_some_getLast hrest]
    rfl
  unfold content
  rw [hlast, List.dropLast_append_of_ne_nil hrest]
  split <;> rfl

theorem content_cons {rest : List UInt8} (hrest : rest ≠ []) (b : UInt8) :
    content (b :: rest) = b :: content rest :=
  content_append hrest [b]

namespace LineBuffer

/-! ## one read -/

theorem eq_append_of_overwritten? {chunk frame : List UInt8} (h : overwritten? chunk = some frame) :
    ∃ front rest, chunk = front ++ frame ∧ frame = cr :: rest ∧ rest ≠ [] := by
  unfold overwritten? at h
  split at h
  next => cases h
  next last front hrev =>
    simp only [Option.ite_none_left_eq_some, Option.some.injEq] at h
    obtain ⟨hlen, rfl⟩ := h
    have hchunk : chunk = front.reverse ++ [last] := by
      rw [← List.reverse_reverse chunk, hrev, List.reverse_cons]
    have hsplit := List.takeWhile_append_dropWhile (p := (· != cr)) (l := front)
    cases hd : front.dropWhile (· != cr) with
    | nil =>
      rw [hd, List.append_nil] at hsplit
      exact absurd (congrArg List.length hsplit) hlen
    | cons c tail =>
      have hc : c = cr := by
        have := List.head?_dropWhile_not (· != cr) front
        simpa [hd] using this
      refine ⟨tail.reverse, (front.takeWhile (· != cr)).reverse ++ [last], ?_, rfl, by simp⟩
      rw [hd, hc] at hsplit
      rw [hchunk]
      conv => lhs; rw [← hsplit]
      simp

@[simp] theorem append_nil (b : LineBuffer) : b.append [] = b := by
  unfold append
  simp

@[simp] theorem take_nil (collapse : Bool) (b : LineBuffer) : b.take collapse [] = b := by
  cases collapse
  · exact append_nil b
  · show (b.settle []).append [] = b
    rw [append_nil]
    simp [settle]

theorem append_of_le (b : LineBuffer) (chunk : List UInt8)
    (h : b.bytes.size + chunk.length ≤ Limits.maxLineBytes) :
    b.append chunk = { b with bytes := b.bytes ++ chunk } := by
  have : ¬ Limits.maxLineBytes - b.bytes.size < chunk.length := by omega
  simp only [append, this, if_false]

/-- a carriage return held at the end is all that more bytes leave of an uncut line -/
theorem settle_of_ne_nil {b : LineBuffer} {chunk : List UInt8} (hcut : b.cut = false)
    (hchunk : chunk ≠ []) :
    b.settle chunk = if b.bytes.back? = some cr then { b with bytes := #[cr] } else b := by
  have : chunk.isEmpty = false := by simpa using hchunk
  simp [settle, hcut, this]

/-! ## an uncut line -/

/-- An uncut buffer against the bytes it was given: it holds all of them or, where carriage returns
overwrite, those from a carriage return on that more bytes follow. -/
structure Keeps (collapse : Bool) (b : LineBuffer) (line : List UInt8) : Prop where
  cut : b.cut = false
  kept : ∃ gone, line = gone ++ b.bytes.toList ∧
    (gone = [] ∨ collapse = true ∧ ∃ rest, b.bytes.toList = cr :: rest ∧ rest ≠ [])

namespace Keeps

variable {collapse : Bool} {b : LineBuffer} {line chunk : List UInt8}

theorem empty (collapse : Bool) : Keeps collapse {} [] := ⟨rfl, [], rfl, .inl rfl⟩

theorem size_le (h : Keeps collapse b line) : b.bytes.size ≤ line.length := by
  obtain ⟨gone, rfl, -⟩ := h.kept
  simp

theorem append (h : Keeps collapse b line)
    (hroom : (line ++ chunk).length ≤ Limits.maxLineBytes) :
    Keeps collapse (b.append chunk) (line ++ chunk) := by
  have hsize := h.size_le
  rw [List.length_append] at hroom
  rw [append_of_le b chunk (by omega)]
  obtain ⟨gone, hline, hgone⟩ := h.kept
  refine ⟨h.cut, gone, by simp [hline], ?_⟩
  rcases hgone with rfl | ⟨hcol, rest, hrest, hne⟩
  · exact .inl rfl
  · exact .inr ⟨hcol, rest ++ chunk, by simp [hrest], by simp [hne]⟩

theorem frame {gone rest : List UInt8} (hrest : rest ≠ [])
    (hroom : (cr :: rest).length ≤ Limits.maxLineBytes) :
    Keeps true (LineBuffer.append {} (cr :: rest)) (gone ++ cr :: rest) := by
  rw [append_of_le {} (cr :: rest) (by simpa using hroom)]
  exact ⟨rfl, gone, by simp, .inr ⟨rfl, rest, by simp, hrest⟩⟩

/-- **One read keeps an uncut line uncut**, as long as there is room for all of the line. -/
theorem take (h : Keeps collapse b line)
    (hroom : (line ++ chunk).length ≤ Limits.maxLineBytes) :
    Keeps collapse (b.take collapse chunk) (line ++ chunk) := by
  rcases List.eq_nil_or_concat chunk with rfl | hchunk
  · rw [take_nil, List.append_nil]
    exact h
  replace hchunk : chunk ≠ [] := by
    rintro rfl
    simp at hchunk
  cases collapse with
  | false => exact h.append hroom
  | true =>
    unfold LineBuffer.take
    rw [if_pos rfl]
    dsimp only
    cases hover : overwritten? chunk with
    | some kept =>
      obtain ⟨front, rest, rfl, rfl, hrest⟩ := eq_append_of_overwritten? hover
      simp only [List.length_append] at hroom
      rw [← List.append_assoc]
      exact frame hrest (by omega)
    | none =>
      show Keeps true ((b.settle chunk).append chunk) _
      rw [settle_of_ne_nil h.cut hchunk]
      split
      · -- the carriage return at the end has overwritten all that is held
        rename_i hback
        obtain ⟨gone, hline, -⟩ := h.kept
        obtain ⟨held, hheld⟩ : ∃ held, b.bytes.toList = held ++ [cr] := by
          rw [← Array.getLast?_toList] at hback
          exact List.getLast?_eq_some_iff.1 hback
        rw [hheld] at hline
        have hone : 1 ≤ line.length := by simp [hline]; omega
        rw [List.length_append] at hroom
        rw [append_of_le _ chunk (by simp; omega)]
        exact ⟨h.cut, gone ++ held, by simp [hline], .inr ⟨rfl, chunk, by simp, hchunk⟩⟩
      · exact h.append hroom

end Keeps

/-! ## a whole line -/

def feed (collapse : Bool) (b : LineBuffer) (reads : List (List UInt8)) : LineBuffer :=
  reads.foldl (take collapse) b

theorem Keeps.feed {collapse : Bool} {b : LineBuffer} {line : List UInt8}
    (h : Keeps collapse b line) (reads : List (List UInt8))
    (hroom : (line ++ reads.flatten).length ≤ Limits.maxLineBytes) :
    Keeps collapse (b.feed collapse reads) (line ++ reads.flatten) := by
  induction reads generalizing b line with
  | nil => simpa [LineBuffer.feed] using h
  | cons chunk reads ih =>
    rw [List.flatten_cons, ← List.append_assoc] at hroom ⊢
    refine ih (h.take ?_) hroom
    rw [List.length_append] at hroom
    omega

theorem finish_of_uncut {b : LineBuffer} (hcut : b.cut = false) :
    b.finish.cut = false ∧ b.finish.bytes.toList = content b.bytes.toList := by
  unfold finish content
  rw [Array.getLast?_toList]
  by_cases hback : b.bytes.back? = some cr
  · simp [hcut, hback]
  · simp [hcut, hback]

/-- **The text of an uncut line is that of all its bytes**, for what was not kept had been
overwritten. -/
theorem Keeps.lineText_finish {options : SanitizeOptions} {b : LineBuffer} {line : List UInt8}
    (h : Keeps options.fromLastCR b line) :
    Scanner.lineText options b.finish = Text.sanitize options (content line) := by
  obtain ⟨hcut, hbytes⟩ := finish_of_uncut h.cut
  have htext : Scanner.lineText options b.finish =
      Text.sanitize options (content b.bytes.toList) := by
    unfold Scanner.lineText
    rw [hcut, hbytes]
    rfl
  rw [htext]
  obtain ⟨gone, rfl, rfl | ⟨hcol, rest, hrest, hne⟩⟩ := h.kept
  · rfl
  · have hlast :
        afterLastCR (content (gone ++ cr :: rest)) = afterLastCR (content (cr :: rest)) := by
      rw [content_append (by simp), content_cons hne, afterLastCR_append_cr]
    unfold Text.sanitize Text.sanitizedBytes
    rw [hrest, hcol]
    simp only [if_true, hlast]

end LineBuffer

end StepRunner.Log
