import StepRunner.Proofs.Text.Characters
import StepRunner.Proofs.Text.Residue

/-!
# Sanitizing text

The transforms of a line cut it at ASCII bytes only: behind a carriage return, before an ESC, and
behind the last byte of a sequence.  What they leave of a text are therefore some of its characters,
each with all of its bytes, and nothing is repaired.

* `Pattern.EndsAscii`        a pattern that ends with an ASCII byte
* `Escape.exists_strip`      stripping leaves some of the characters
* `exists_afterLastCR`       so does a carriage return
* `sanitize_of_text`         what is left of a text is a text, and shown as it is
-/

namespace StepRunner.Text

/-! ## where a sequence ends -/

namespace Pattern

/-- a pattern that ends with an ASCII byte -/
def EndsAscii (p : Pattern) : Prop :=
  ∀ x, p.Matches x → ∃ front b, x = front ++ [b] ∧ b.toNat < 0x80

namespace EndsAscii

theorem one {accepts : UInt8 → Bool} (h : ∀ b, accepts b = true → b.toNat < 0x80) :
    EndsAscii (.one accepts) := by
  intro x hx
  cases hx with
  | one hb => exact ⟨[], _, rfl, h _ hb⟩

theorem range {lo hi : UInt8} (h : hi.toNat < 0x80) : EndsAscii (.one (range lo hi)) := by
  refine one fun b hb => ?_
  simp only [Pattern.range, Bool.and_eq_true, decide_eq_true_eq, UInt8.le_iff_toNat_le] at hb
  omega

theorem byte {a : UInt8} (h : a.toNat < 0x80) : EndsAscii (byte a) :=
  one fun _ hb => beq_iff_eq.1 hb ▸ h

theorem seq {p q : Pattern} (h : q.EndsAscii) : EndsAscii (p.seq q) := by
  intro z hz
  cases hz with
  | @seq _ _ x y _ hy =>
    obtain ⟨front, b, rfl, hb⟩ := h y hy
    exact ⟨x ++ front, b, (List.append_assoc x front [b]).symm, hb⟩

theorem alt {p q : Pattern} (hp : p.EndsAscii) (hq : q.EndsAscii) : EndsAscii (p.alt q) := by
  intro x hx
  cases hx with
  | altFirst h => exact hp x h
  | altSecond h => exact hq x h

end EndsAscii

theorem Part.filterMap_kept?_sublist (parts : List Part) :
    (parts.filterMap Part.kept?).Sublist (parts.flatMap Part.bytes) := by
  induction parts with
  | nil => exact .refl _
  | cons part parts ih =>
    cases part with
    | kept b => exact ih.cons_cons b
    | found bytes => exact ih.trans (List.sublist_append_right _ _)

end Pattern

/-! ## stripping -/

namespace Escape
open Utf8 (bytesOf bytesOf_cons exists_of_ascii utf8EncodeChar_of_mem)

theorem strip_sublist (s : List UInt8) : (strip s).Sublist s := by
  obtain ⟨parts, hparts⟩ := exists_parted s
  have h := Pattern.Part.filterMap_kept?_sublist parts
  rwa [← strip_of_parted hparts, hparts.flatMap_bytes] at h

theorem pattern_endsAscii : pattern.EndsAscii := by
  have hbackslash : Pattern.EndsAscii (.seq (.byte 0x1B) (.byte 0x5C)) := .seq (.byte (by decide))
  refine .alt ?control (.alt ?command (.alt ?string ?short))
  case control => exact .seq (.seq (.seq (.seq (.range (by decide)))))
  case command => exact .seq (.seq (.seq (.alt (.byte (by decide)) hbackslash)))
  case string => exact .seq (.seq (.seq hbackslash))
  case short => exact .seq (.range (by decide))

theorem exists_of_mem_ends_bytesOf {chars : List Char} {rest : List UInt8}
    (h : rest ∈ pattern.ends (bytesOf chars)) :
    ∃ after, after <:+ chars ∧ after.length < chars.length ∧ rest = bytesOf after := by
  obtain ⟨x, hx, hbytes⟩ := Pattern.mem_ends_iff.1 h
  obtain ⟨front, b, rfl, hb⟩ := pattern_endsAscii x hx
  rw [List.append_assoc, List.singleton_append] at hbytes
  obtain ⟨before, c, after, rfl, -, hrest⟩ := exists_of_ascii hb hbytes
  refine ⟨after, ⟨before ++ [c], by simp⟩, ?_, hrest⟩
  rw [List.length_append, List.length_cons]
  omega

/-- **Stripping leaves some of the characters**, each with all of its bytes. -/
theorem exists_strip (chars : List Char) :
    ∃ left, left.Sublist chars ∧ strip (bytesOf chars) = bytesOf left := by
  generalize hlength : chars.length = n
  induction n using Nat.strongRecOn generalizing chars with
  | ind n ih =>
    cases chars with
    | nil => exact ⟨[], .refl _, rfl⟩
    | cons c chars =>
      obtain ⟨left, hleft, hstrip⟩ := ih chars.length (by simp [← hlength]) chars rfl
      by_cases hc : esc ∈ String.utf8EncodeChar c
      · have hesc := utf8EncodeChar_of_mem (by decide) hc
        have hbytes : bytesOf (c :: chars) = esc :: bytesOf chars := by
          rw [bytesOf_cons, hesc]
          rfl
        rw [hbytes, strip_cons, ← hbytes]
        split
        next rest hfound =>
          obtain ⟨after, hafter, hlt, rfl⟩ := exists_of_mem_ends_bytesOf (List.mem_of_head? hfound)
          obtain ⟨left, hleft, hstrip⟩ := ih after.length (hlength ▸ hlt) after rfl
          exact ⟨left, hleft.trans hafter.sublist, hstrip⟩
        next =>
          refine ⟨c :: left, hleft.cons_cons c, ?_⟩
          rw [hstrip, bytesOf_cons, hesc]
          rfl
      · refine ⟨c :: left, hleft.cons_cons c, ?_⟩
        rw [bytesOf_cons, strip_append_of_not_mem hc, hstrip, bytesOf_cons]

end Escape

/-! ## what is overwritten -/

theorem not_mem_afterLastCR (bytes : List UInt8) : cr ∉ afterLastCR bytes := by
  intro h
  have hall := List.all_takeWhile (p := (· != cr)) (l := bytes.reverse)
  exact absurd (List.all_eq_true.1 hall cr (List.mem_reverse.1 h)) (by decide)

theorem afterLastCR_cases (bytes : List UInt8) :
    afterLastCR bytes = bytes ∨ ∃ front, bytes = front ++ cr :: afterLastCR bytes := by
  have hsplit := List.takeWhile_append_dropWhile (p := (· != cr)) (l := bytes.reverse)
  cases hrest : bytes.reverse.dropWhile (· != cr) with
  | nil =>
    rw [hrest, List.append_nil] at hsplit
    exact .inl (by rw [afterLastCR, hsplit, List.reverse_reverse])
  | cons b rest =>
    have hstop := Escape.eq_false_of_dropWhile hrest
    have hb : b = cr := bne_eq_false_iff_eq.1 hstop
    refine .inr ⟨rest.reverse, ?_⟩
    rw [hrest, hb] at hsplit
    have hbytes := congrArg List.reverse hsplit
    rw [List.reverse_reverse, List.reverse_append, List.reverse_cons, List.append_assoc,
      List.singleton_append] at hbytes
    exact hbytes.symm

/-- **A carriage return leaves the characters behind it.** -/
theorem exists_afterLastCR (chars : List Char) :
    ∃ left, left.Sublist chars ∧ afterLastCR (Utf8.bytesOf chars) = Utf8.bytesOf left := by
  obtain hall | ⟨front, hfront⟩ := afterLastCR_cases (Utf8.bytesOf chars)
  · exact ⟨chars, .refl _, hall⟩
  · obtain ⟨before, c, after, rfl, -, hafter⟩ := Utf8.exists_of_ascii (by decide) hfront
    refine ⟨after, ?_, hafter⟩
    exact (List.sublist_cons_self c after).trans (List.sublist_append_right before _)

/-! ## both transforms -/

theorem exists_sanitizedBytes (options : SanitizeOptions) (chars : List Char) :
    ∃ left, left.Sublist chars ∧
      sanitizedBytes options (Utf8.bytesOf chars) = Utf8.bytesOf left := by
  have hcr : ∃ behind, behind.Sublist chars ∧
      (if options.fromLastCR then afterLastCR (Utf8.bytesOf chars) else Utf8.bytesOf chars) =
        Utf8.bytesOf behind := by
    split
    · exact exists_afterLastCR chars
    · exact ⟨chars, .refl _, rfl⟩
  obtain ⟨behind, hbehind, hbytes⟩ := hcr
  unfold sanitizedBytes
  rw [hbytes]
  dsimp only
  split
  · obtain ⟨left, hleft, hstrip⟩ := Escape.exists_strip behind
    exact ⟨left, hleft.trans hbehind, hstrip⟩
  · exact ⟨behind, hbehind, rfl⟩

theorem not_mem_sanitizedBytes {options : SanitizeOptions} (h : options.fromLastCR = true)
    (bytes : List UInt8) : cr ∉ sanitizedBytes options bytes := by
  unfold sanitizedBytes
  rw [if_pos h]
  dsimp only
  split
  · exact fun hmem => not_mem_afterLastCR bytes ((Escape.strip_sublist _).subset hmem)
  · exact not_mem_afterLastCR bytes

/-- **What is left of a text is a text, and shown as it is**: some of its characters in their order,
none of them a replacement for bytes that are no text, and all of them where there is neither a
carriage return nor an ESC.  With carriage returns that overwrite, none is left, be the bytes text
or not. -/
theorem sanitize_of_text (options : SanitizeOptions) (bytes : List UInt8) :
    (∀ text, Utf8.decode? bytes = some text → ∃ left,
      Utf8.decode? (sanitizedBytes options bytes) = some left ∧ sanitize options bytes = left ∧
        left.toList.Sublist text.toList ∧ (Utf8.encode left).Sublist bytes ∧
        ('\r' ∉ text.toList → '\x1B' ∉ text.toList → left = text)) ∧
    (options.fromLastCR = true → '\r' ∉ (sanitize options bytes).toList) := by
  constructor
  · intro text htext
    obtain rfl := Utf8.decode?_eq_some_iff.1 htext
    obtain ⟨left, hleft, hbytes⟩ := exists_sanitizedBytes options text.toList
    rw [← Utf8.encode_eq, ← Utf8.encode_ofList] at hbytes
    refine ⟨String.ofList left, Utf8.decode?_eq_some_iff.2 hbytes, ?_, ?_, ?_, ?_⟩
    · rw [sanitize, hbytes, Utf8.repair_encode]
    · rwa [String.toList_ofList]
    · rw [Utf8.encode_ofList, Utf8.encode_eq]
      exact Utf8.bytesOf_sublist hleft
    · intro hcr hesc
      have hall : sanitizedBytes options (Utf8.encode text) = Utf8.encode text := by
        rw [Utf8.encode_eq]
        refine sanitizedBytes_of_not_mem ?_ ?_ options
        · exact fun h => hcr ((Utf8.mem_bytesOf_iff (c := '\r') (by decide)).1 h)
        · exact fun h => hesc ((Utf8.mem_bytesOf_iff (c := '\x1B') (by decide)).1 h)
      have hsame := Utf8.decode?_eq_some_iff.2 (hall.symm.trans hbytes)
      rw [htext] at hsame
      exact (Option.some.inj hsame).symm
  · intro hcr h
    exact not_mem_sanitizedBytes hcr bytes
      (Utf8.mem_of_mem_repair (c := '\r') (by decide) (by decide) h)

/-- a command that sets a title, with a character of two bytes on either side and within -/
theorem sanitize_of_text_titled :
    let bytes := Utf8.encode "α\rβ\x1B]0;δ\x07γ"
    Utf8.decode? bytes = some "α\rβ\x1B]0;δ\x07γ" ∧
      (sanitize .all bytes = "βγ" ∧ (Utf8.encode "βγ").Sublist bytes) ∧
        '\r' ∉ (sanitize .all bytes).toList := by
  intro bytes
  have htext : Utf8.decode? bytes = some "α\rβ\x1B]0;δ\x07γ" := Utf8.decode?_eq_some_iff.2 rfl
  obtain ⟨hintact, hcr⟩ := sanitize_of_text .all bytes
  obtain ⟨left, -, hleft, -, hbytes, -⟩ := hintact _ htext
  have hshown : sanitize .all bytes = "βγ" := by decide
  rw [hshown] at hleft
  exact ⟨htext, ⟨hshown, hleft ▸ hbytes⟩, hcr rfl⟩

end StepRunner.Text
