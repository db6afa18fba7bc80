import Mathlib.Data.String.Basic
import StepRunner.Proofs.Text.Sanitize

/-!
# The size of sanitized text

The transforms of a line only leave bytes out, but the repair of what is left may add some.  A
character has the size of its bytes; a gap takes three, and may stand for one that is no text.  So a
text is larger than its bytes by two for each gap, at most.

* `Utf8.decode`               the characters of some bytes
* `Utf8.Holds`                a state that holds the first bytes of a character
* `Utf8.Paid`                 what comes of some bytes, paid for by them
* `Utf8.paid_feed`            one byte more pays for what it completes and for what is held then
* `size_sanitize_le`          the size of a text against that of the line
* `size_sanitize_replicate`   lines that are gaps throughout
-/

namespace StepRunner.Text

namespace Utf8

/-! ## the characters of some bytes -/

/-- the characters that some bytes come to, those owed at the end included -/
def decode : State → List UInt8 → List Char
  | s, [] => close s
  | s, b :: bytes => (feed s b).2 ++ decode (feed s b).1 bytes

theorem foldl_push (chars : List Char) (text : String) :
    chars.foldl String.push text = text ++ String.ofList chars := by
  induction chars generalizing text with
  | nil => simp
  | cons c chars ih =>
    rw [List.foldl_cons, ih, String.push_eq_append, String.append_assoc, String.singleton_eq_ofList,
      ← String.ofList_append, List.singleton_append]

theorem foldl_push_run (s : State) (text : String) (bytes : List UInt8) :
    (close (run s text bytes).1).foldl String.push (run s text bytes).2 =
      text ++ String.ofList (decode s bytes) := by
  induction bytes generalizing s text with
  | nil => exact foldl_push (close s) text
  | cons b bytes ih =>
    have hstep : run s text (b :: bytes) =
        run (feed s b).1 ((feed s b).2.foldl String.push text) bytes := rfl
    rw [hstep, ih, foldl_push, String.append_assoc, ← String.ofList_append, decode]

theorem repair_eq (bytes : List UInt8) : repair bytes = String.ofList (decode .between bytes) := by
  have h := foldl_push_run .between "" bytes
  rwa [String.empty_append] at h

/-! ## sizes of characters -/

theorem utf8Size_le {c : Char} :
    (c.toNat < 0x80 → c.utf8Size ≤ 1) ∧ (c.toNat < 0x800 → c.utf8Size ≤ 2) ∧
      (c.toNat < 0x10000 → c.utf8Size ≤ 3) := by
  have htwo (h : c.utf8Size = 2) : 0x80 ≤ c.toNat :=
    UInt32.lt_iff_toNat_lt.1 (Char.utf8Size_eq_two_iff.1 h).1
  have hthree (h : c.utf8Size = 3) : 0x800 ≤ c.toNat :=
    UInt32.lt_iff_toNat_lt.1 (Char.utf8Size_eq_three_iff.1 h).1
  have hfour (h : c.utf8Size = 4) : 0x10000 ≤ c.toNat :=
    UInt32.lt_iff_toNat_lt.1 (Char.utf8Size_eq_four_iff.1 h)
  have hsize := Char.utf8Size_eq c
  omega

theorem toNat_ofNat_eq (n : Nat) : (Char.ofNat n).toNat = n ∨ (Char.ofNat n).toNat = 0 := by
  by_cases h : n.isValidChar
  · have hchar : Char.ofNat n = Char.ofNatAux n h := dif_pos h
    rw [hchar]
    exact .inl rfl
  · have hchar : Char.ofNat n = ⟨0, by decide⟩ := dif_neg h
    rw [hchar]
    exact .inr rfl

theorem toNat_ofNat_le (n : Nat) : (Char.ofNat n).toNat ≤ n := by
  have h := toNat_ofNat_eq n
  omega

/-- `size` bytes, two at least, carry the bits of a character of that size -/
theorem utf8Size_ofNat_le {n size : Nat} (hsize : 2 ≤ size) (h : n < 2 ^ (5 * size + 1)) :
    (Char.ofNat n).utf8Size ≤ size := by
  have hn := toNat_ofNat_le n
  obtain rfl | rfl | hlarge : size = 2 ∨ size = 3 ∨ 4 ≤ size := by omega
  · exact utf8Size_le.2.1 (Nat.lt_of_le_of_lt hn h)
  · exact utf8Size_le.2.2 (Nat.lt_of_le_of_lt hn h)
  · exact Nat.le_trans (Char.utf8Size_le_four _) hlarge

/-! ## bytes pay for characters -/

/-- A state that holds the first `held` bytes of a character.  There are four bytes at most with
those that are missing, and whatever they are, the bits are no more than so many bytes carry. -/
def Holds (held : Nat) : State → Prop
  | .between => held = 0
  | .within more _ hi bits =>
    0 < held ∧ 0 < more ∧ held + more ≤ 4 ∧ hi ≤ 0xBF ∧
      (bits + 1) * 64 ^ more ≤ 2 ^ (5 * (held + more) + 1)

/-- What comes of `bytes` bytes: one of them for each character and for each byte that is held, and
they have the size of the characters, but for two bytes of each gap. -/
def Paid (bytes : Nat) (next : State × List Char) : Prop :=
  ∃ held, Holds held next.1 ∧ next.2.length + held ≤ bytes ∧
    String.utf8Len next.2 + held ≤ bytes + 2 * next.2.count gap

theorem holds_of_lead? {b : Nat} {s : State} (h : lead? b = some s) : Holds 1 s := by
  unfold lead? at h
  repeat' split at h
  all_goals cases h
  -- the lead byte of two, three or four bytes carries five, four or three bits
  all_goals
    refine ⟨by decide, by decide, by decide, by decide, ?_⟩
    omega

theorem utf8Len_gap (chars : List Char) :
    String.utf8Len (gap :: chars) = String.utf8Len chars + 3 := rfl

theorem paid_start (b : Nat) : Paid 1 (start b) := by
  unfold start
  split
  next hascii =>
    have hsize := utf8Size_le.1 (Nat.lt_of_le_of_lt (toNat_ofNat_le b) hascii)
    refine ⟨0, rfl, by simp, ?_⟩
    rw [String.utf8Len_cons]
    exact Nat.le_add_right_of_le (by simpa using hsize)
  next =>
    split
    next s hlead => exact ⟨1, holds_of_lead? hlead, by simp, by simp⟩
    next => exact ⟨0, rfl, by simp, by decide⟩

/-- **One byte more pays** for what it completes and for what is held after it. -/
theorem paid_feed {held : Nat} {s : State} (h : Holds held s) (b : UInt8) :
    Paid (held + 1) (feed s b) := by
  cases s with
  | between =>
    obtain rfl : held = 0 := h
    exact paid_start b.toNat
  | within more lo hi bits =>
    obtain ⟨hheld, hmore, hfour, hhi, hbits⟩ := h
    rw [feed]
    split
    next hin =>
      obtain ⟨more, rfl⟩ := Nat.exists_eq_add_one_of_ne_zero (Nat.ne_of_gt hmore)
      have hnext : (bits * 64 + (b.toNat - 0x80) + 1) * 64 ^ more ≤
          2 ^ (5 * (held + 1 + more) + 1) := by
        have hb : bits * 64 + (b.toNat - 0x80) + 1 ≤ (bits + 1) * 64 := by omega
        calc (bits * 64 + (b.toNat - 0x80) + 1) * 64 ^ more
            ≤ (bits + 1) * 64 * 64 ^ more := Nat.mul_le_mul_right _ hb
          _ = (bits + 1) * 64 ^ (more + 1) := by rw [Nat.pow_succ', Nat.mul_assoc]
          _ ≤ 2 ^ (5 * (held + 1 + more) + 1) := by
            rwa [Nat.add_right_comm held 1 more]
      dsimp only
      split
      next hlast =>
        obtain rfl : more = 0 := by omega
        rw [Nat.pow_zero, Nat.mul_one, Nat.add_zero] at hnext
        have hsize := utf8Size_ofNat_le (by omega) hnext
        refine ⟨0, rfl, by simp, ?_⟩
        rw [String.utf8Len_cons]
        exact Nat.le_add_right_of_le (by simpa using hsize)
      next hlast =>
        exact ⟨held + 1, ⟨Nat.succ_pos held, by omega, by omega, by decide, hnext⟩, by simp,
          by simp⟩
    next =>
      -- the bytes held are a gap, and this one starts anew
      obtain ⟨held', hs, hlength, hsize⟩ := paid_start b.toNat
      refine ⟨held', hs, ?_, ?_⟩
      · rw [List.length_cons]
        omega
      · rw [utf8Len_gap, List.count_cons_self]
        omega

theorem paid_close {held : Nat} {s : State} (h : Holds held s) : Paid held (.between, close s) := by
  cases s with
  | between => exact ⟨0, rfl, Nat.zero_le _, Nat.zero_le _⟩
  | within more lo hi bits =>
    have hheld := h.1
    refine ⟨0, rfl, hheld, ?_⟩
    show 3 ≤ held + 2
    omega

theorem paid_decode {held : Nat} {s : State} (h : Holds held s) (bytes : List UInt8) :
    Paid (held + bytes.length) (.between, decode s bytes) := by
  induction bytes generalizing held s with
  | nil => exact paid_close h
  | cons b bytes ih =>
    obtain ⟨held', hs, hlength, hsize⟩ := paid_feed h b
    obtain ⟨_, rfl, hlength', hsize'⟩ := ih hs
    dsimp only at hlength' hsize'
    refine ⟨0, rfl, ?_, ?_⟩
    · rw [decode, List.length_append, List.length_cons]
      omega
    · rw [decode, String.utf8Len_append, List.count_append, List.length_cons]
      omega

/-- **A repaired text has the size of its bytes, but for two bytes of each gap.**  There are no more
gaps than bytes. -/
theorem size_repair_le (bytes : List UInt8) :
    (repair bytes).toList.count gap ≤ bytes.length ∧
      (repair bytes).utf8ByteSize ≤ bytes.length + 2 * (repair bytes).toList.count gap := by
  have hbetween : Holds 0 .between := rfl
  obtain ⟨_, rfl, hlength, hsize⟩ := paid_decode hbetween bytes
  rw [repair_eq, String.toList_ofList, String.utf8ByteSize_ofList]
  have hcount := List.count_le_length (a := gap) (l := decode .between bytes)
  dsimp only at hlength hsize
  omega

theorem size_repair_replicate (n : Nat) :
    (repair (List.replicate n 0xFF)).utf8ByteSize = 3 * n := by
  rw [repair_eq, String.utf8ByteSize_ofList]
  induction n with
  | zero => rfl
  | succ n ih =>
    have hfeed : feed .between 0xFF = (.between, [gap]) := by decide
    rw [List.replicate_succ, decode, hfeed]
    show String.utf8Len (gap :: decode .between (List.replicate n 0xFF)) = 3 * (n + 1)
    rw [utf8Len_gap, ih, Nat.mul_succ]

end Utf8

/-! ## lines -/

/-- **A sanitized line has the size of the line, but for two bytes of each gap.** -/
theorem size_sanitize_le (options : SanitizeOptions) (bytes : List UInt8) :
    (sanitize options bytes).toList.count Utf8.gap ≤ bytes.length ∧
      (sanitize options bytes).utf8ByteSize ≤
        bytes.length + 2 * (sanitize options bytes).toList.count Utf8.gap := by
  have hlength := length_sanitizedBytes_le options bytes
  obtain ⟨hcount, hsize⟩ := Utf8.size_repair_le (sanitizedBytes options bytes)
  exact ⟨Nat.le_trans hcount hlength, Nat.le_trans hsize (Nat.add_le_add_right hlength _)⟩

theorem size_sanitize_replicate (options : SanitizeOptions) (n : Nat) :
    (sanitize options (List.replicate n 0xFF)).utf8ByteSize = 3 * n := by
  have hcr : cr ∉ List.replicate n (0xFF : UInt8) :=
    fun h => absurd (List.eq_of_mem_replicate h) (by decide)
  have hesc : Escape.esc ∉ List.replicate n (0xFF : UInt8) :=
    fun h => absurd (List.eq_of_mem_replicate h) (by decide)
  rw [sanitize, sanitizedBytes_of_not_mem hcr hesc, Utf8.size_repair_replicate]

end StepRunner.Text
