import StepRunner.Text.Sanitize

/-!
# Bytes that are left out

What the two transforms of a line leave of it: never more bytes than there were, and all of them
where there is nothing to leave out.

* `takeWhile_append_of_not_mem`   bytes up to one that is not among the first of them
* `Escape.strip_of_not_mem`       without an ESC there is no sequence
* `afterLastCR_append_cr`         what stands before a carriage return does not matter
* `length_sanitizedBytes_le`      no transform adds a byte
* `sanitizedBytes_of_not_mem`     and where there is nothing to leave out, all bytes stay
-/

namespace StepRunner.Text

/-! ## a byte that is not there -/

theorem beq_eq_false_of_not_mem {a : UInt8} {bytes : List UInt8} (h : a ∉ bytes) :
    ∀ b ∈ bytes, (b == a) = false := by
  intro b hb
  rw [beq_eq_false_iff_ne]
  rintro rfl
  exact h hb

theorem takeWhile_append_of_not_mem {a : UInt8} {bytes : List UInt8} (h : a ∉ bytes)
    (rest : List UInt8) :
    (bytes ++ rest).takeWhile (· != a) = bytes ++ rest.takeWhile (· != a) :=
  List.takeWhile_append_of_pos fun b hb => by simp [bne, beq_eq_false_of_not_mem h b hb]

theorem takeWhile_of_not_mem {a : UInt8} {bytes : List UInt8} (h : a ∉ bytes) :
    bytes.takeWhile (· != a) = bytes := by
  have hall := takeWhile_append_of_not_mem h []
  rwa [List.takeWhile_nil, List.append_nil] at hall

theorem dropWhile_append_of_not_mem {a : UInt8} {bytes : List UInt8} (h : a ∉ bytes)
    (rest : List UInt8) : (bytes ++ rest).dropWhile (· != a) = rest.dropWhile (· != a) :=
  List.dropWhile_append_of_pos fun b hb => by simp [bne, beq_eq_false_of_not_mem h b hb]

/-! ## escape sequences -/

namespace Escape

theorem size_stripOnto_le (acc : Array UInt8) (skip : Nat) (bytes : List UInt8) :
    (stripOnto acc skip bytes).size ≤ acc.size + bytes.length := by
  induction bytes generalizing acc skip with
  | nil => cases skip <;> exact Nat.le_refl _
  | cons b bytes ih =>
    have hpush := ih (acc.push b) 0
    rw [Array.size_push] at hpush
    rw [List.length_cons]
    cases skip with
    | succ skip =>
      have hskip := ih acc skip
      rw [stripOnto]
      omega
    | zero =>
      rw [stripOnto]
      split
      · split
        next n _ =>
          have hskip := ih acc n
          omega
        next => omega
      · omega

theorem length_strip_le (bytes : List UInt8) : (strip bytes).length ≤ bytes.length := by
  have h := size_stripOnto_le #[] 0 bytes
  rwa [Array.size_empty, Nat.zero_add, ← Array.length_toList] at h

theorem stripOnto_of_not_mem {bytes : List UInt8} (h : esc ∉ bytes) (acc : Array UInt8) :
    stripOnto acc 0 bytes = acc ++ bytes := by
  induction bytes generalizing acc with
  | nil => simp [stripOnto]
  | cons b bytes ih =>
    rw [List.mem_cons, not_or] at h
    rw [stripOnto, if_neg (Ne.symm h.1), ih h.2]
    simp

theorem strip_of_not_mem {bytes : List UInt8} (h : esc ∉ bytes) : strip bytes = bytes := by
  rw [strip, stripOnto_of_not_mem h]
  simp

end Escape

/-! ## what is overwritten -/

theorem length_afterLastCR_le (bytes : List UInt8) : (afterLastCR bytes).length ≤ bytes.length := by
  have h := (List.takeWhile_sublist (l := bytes.reverse) (· != cr)).length_le
  rwa [List.length_reverse, ← List.length_reverse] at h

theorem afterLastCR_of_not_mem {bytes : List UInt8} (h : cr ∉ bytes) :
    afterLastCR bytes = bytes := by
  have hreverse : cr ∉ bytes.reverse := fun hmem => h (List.mem_reverse.1 hmem)
  rw [afterLastCR, takeWhile_of_not_mem hreverse, List.reverse_reverse]

theorem afterLastCR_append_cr (front rest : List UInt8) :
    afterLastCR (front ++ cr :: rest) = afterLastCR (cr :: rest) := by
  have hstop : ∀ l tail : List UInt8,
      (l ++ cr :: tail).takeWhile (· != cr) = l.takeWhile (· != cr) := by
    intro l tail
    induction l with
    | nil => rfl
    | cons b l ih => by_cases hb : b = cr <;> simp [hb, ih]
  unfold afterLastCR
  rw [List.reverse_append, List.reverse_cons, List.append_assoc]
  show ((rest.reverse ++ cr :: front.reverse).takeWhile (· != cr)).reverse =
    ((rest.reverse ++ [cr]).takeWhile (· != cr)).reverse
  rw [hstop, hstop]

/-! ## both transforms -/

theorem length_sanitizedBytes_le (options : SanitizeOptions) (bytes : List UInt8) :
    (sanitizedBytes options bytes).length ≤ bytes.length := by
  have hcr : (if options.fromLastCR then afterLastCR bytes else bytes).length ≤ bytes.length := by
    split
    · exact length_afterLastCR_le bytes
    · exact Nat.le_refl _
  unfold sanitizedBytes
  dsimp only
  split
  · exact Nat.le_trans (Escape.length_strip_le _) hcr
  · exact hcr

theorem sanitizedBytes_of_not_mem {bytes : List UInt8} (hcr : cr ∉ bytes)
    (hesc : Escape.esc ∉ bytes) (options : SanitizeOptions) :
    sanitizedBytes options bytes = bytes := by
  unfold sanitizedBytes
  rw [afterLastCR_of_not_mem hcr, ite_self]
  dsimp only
  rw [Escape.strip_of_not_mem hesc, ite_self]

end StepRunner.Text
