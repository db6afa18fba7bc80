import StepRunner.Proofs.Text.Sizes

/-!
# Characters and their bytes

The bytes of a text are those of its characters, one after the other.  An ASCII character is one
byte and no other character holds such a byte, so a text that is cut at an ASCII byte is cut between
two characters.  Bytes of a text need no repair, and the repair of any bytes has an ASCII character
only where there is a byte for it.

* `Utf8.bytesOf`                 the bytes of some characters
* `Utf8.exists_of_ascii`         a cut at an ASCII byte is one between characters
* `Utf8.repair_encode`           the bytes of a text come to this text
* `Utf8.decode?_eq_some_iff`     the bytes that are a text are those of the text
* `Utf8.mem_of_mem_repair`       an ASCII character comes from its byte
-/

namespace StepRunner.Text.Utf8

/-! ## the bytes of a text -/

/-- the bytes of some characters -/
def bytesOf (chars : List Char) : List UInt8 := chars.flatMap String.utf8EncodeChar

@[simp] theorem bytesOf_nil : bytesOf [] = [] := rfl

@[simp] theorem bytesOf_cons (c : Char) (chars : List Char) :
    bytesOf (c :: chars) = String.utf8EncodeChar c ++ bytesOf chars := rfl

@[simp] theorem bytesOf_append (chars more : List Char) :
    bytesOf (chars ++ more) = bytesOf chars ++ bytesOf more :=
  List.flatMap_append

theorem encode_ofList (chars : List Char) : encode (String.ofList chars) = bytesOf chars :=
  List.toList_data_toByteArray

theorem encode_eq (text : String) : encode text = bytesOf text.toList := by
  rw [← encode_ofList, String.ofList_toList]

theorem bytesOf_sublist {left chars : List Char} (h : left.Sublist chars) :
    (bytesOf left).Sublist (bytesOf chars) := by
  induction h with
  | slnil => exact .refl _
  | cons c _ ih => exact ih.trans (List.sublist_append_right _ _)
  | cons_cons c _ ih => exact (List.Sublist.refl _).append ih

theorem decode?_eq_some_iff {bytes : List UInt8} {text : String} :
    decode? bytes = some text ↔ bytes = encode text := by
  unfold decode?
  dsimp only
  split
  next hvalid =>
    rw [Option.some.injEq]
    constructor
    · rintro rfl
      rfl
    · rintro rfl
      rfl
  next hinvalid =>
    refine iff_of_false (by simp) ?_
    rintro rfl
    exact hinvalid text.isValidUTF8

/-! ## ASCII -/

theorem utf8EncodeChar_of_lt {c : Char} (h : c.toNat < 0x80) :
    String.utf8EncodeChar c = [UInt8.ofNat c.toNat] := by
  have hc : c.val.toNat ≤ 0x7F := Nat.le_of_lt_succ h
  rw [String.utf8EncodeChar, if_pos hc]
  rfl

theorem le_of_mem_utf8EncodeChar {c : Char} (h : 0x80 ≤ c.toNat) {b : UInt8}
    (hb : b ∈ String.utf8EncodeChar c) : 0x80 ≤ b.toNat := by
  have hc : ¬ c.val.toNat ≤ 0x7F := Nat.not_le_of_lt h
  rw [String.utf8EncodeChar, if_neg hc] at hb
  revert b
  repeat' split
  all_goals
    simp only [List.forall_mem_cons, List.not_mem_nil, false_implies, implies_true, and_true,
      UInt8.toNat_ofNat']
    omega

theorem utf8ByteSize_of_ascii {text : String} (h : ∀ c ∈ text.toList, c.toNat < 0x80) :
    text.utf8ByteSize = text.toList.length := by
  obtain ⟨chars, rfl⟩ : ∃ chars, text = String.ofList chars := ⟨_, String.ofList_toList.symm⟩
  rw [String.toList_ofList] at h ⊢
  rw [String.utf8ByteSize_ofList]
  induction chars with
  | nil => rfl
  | cons c chars ih =>
    obtain ⟨hc, hchars⟩ := List.forall_mem_cons.1 h
    have hsize : c.utf8Size = 1 := Nat.le_antisymm (utf8Size_le.1 hc) (Char.utf8Size_pos c)
    rw [String.utf8Len_cons, hsize, ih hchars, List.length_cons]

theorem bytesOf_of_ascii {chars : List Char} (h : ∀ c ∈ chars, c.toNat < 0x80) :
    bytesOf chars = chars.map fun c => UInt8.ofNat c.toNat := by
  induction chars with
  | nil => rfl
  | cons c chars ih =>
    obtain ⟨hc, hchars⟩ := List.forall_mem_cons.1 h
    rw [bytesOf_cons, utf8EncodeChar_of_lt hc, ih hchars]
    rfl

theorem ascii_of_bytesOf {chars : List Char} (h : ∀ b ∈ bytesOf chars, b.toNat < 0x80) :
    ∀ c ∈ chars, c.toNat < 0x80 := by
  intro c hc
  by_contra hhigh
  obtain ⟨b, hb⟩ := List.exists_mem_of_ne_nil _ (String.utf8EncodeChar_ne_nil (c := c))
  have hle := le_of_mem_utf8EncodeChar (Nat.le_of_not_lt hhigh) hb
  exact absurd (h b (List.mem_flatMap.2 ⟨c, hc, hb⟩)) (Nat.not_lt_of_le hle)

theorem utf8EncodeChar_of_mem {c : Char} {b : UInt8} (hb : b.toNat < 0x80)
    (h : b ∈ String.utf8EncodeChar c) : String.utf8EncodeChar c = [b] := by
  by_cases hc : c.toNat < 0x80
  · rw [utf8EncodeChar_of_lt hc, List.mem_singleton] at h
    rw [utf8EncodeChar_of_lt hc, h]
  · exact absurd (le_of_mem_utf8EncodeChar (Nat.le_of_not_lt hc) h) (Nat.not_le_of_lt hb)

/-- **A cut at an ASCII byte is a cut between characters.** -/
theorem exists_of_ascii {chars : List Char} {front rest : List UInt8} {b : UInt8}
    (hb : b.toNat < 0x80) (h : bytesOf chars = front ++ b :: rest) :
    ∃ before c after, chars = before ++ c :: after ∧ front = bytesOf before ∧
      rest = bytesOf after := by
  induction chars generalizing front with
  | nil => exact absurd h.symm (by simp)
  | cons c chars ih =>
    rw [bytesOf_cons, List.append_eq_append_iff] at h
    have hbehind (inner : List UInt8) (hfront : front = String.utf8EncodeChar c ++ inner)
        (hrest : bytesOf chars = inner ++ b :: rest) :
        ∃ before c' after, c :: chars = before ++ c' :: after ∧ front = bytesOf before ∧
          rest = bytesOf after := by
      obtain ⟨before, c', after, rfl, rfl, rfl⟩ := ih hrest
      exact ⟨c :: before, c', after, rfl, hfront, rfl⟩
    -- the byte stands behind the first character, or it is among its bytes
    obtain ⟨inner, hfront, hrest⟩ | ⟨inner, hc, hrest⟩ := h
    · exact hbehind inner hfront hrest
    · cases inner with
      | nil =>
        rw [List.append_nil] at hc
        exact hbehind [] (by rw [hc, List.append_nil]) hrest.symm
      | cons b' inner =>
        obtain ⟨rfl, rfl⟩ := List.cons.inj hrest
        have hsole := utf8EncodeChar_of_mem hb (c := c) (by rw [hc]; simp)
        rw [hsole] at hc
        obtain ⟨rfl, hinner⟩ | ⟨-, hnil⟩ := List.singleton_eq_append_iff.1 hc
        · obtain rfl : inner = [] := (List.cons.inj hinner).2
          exact ⟨[], c, chars, rfl, rfl, rfl⟩
        · cases hnil

theorem toNat_ofNat_of_ascii {c : Char} (h : c.toNat < 0x80) :
    (UInt8.ofNat c.toNat).toNat = c.toNat :=
  UInt8.toNat_ofNat_of_lt' (Nat.lt_trans h (by decide))

theorem mem_bytesOf_iff {c : Char} (hc : c.toNat < 0x80) {chars : List Char} :
    UInt8.ofNat c.toNat ∈ bytesOf chars ↔ c ∈ chars := by
  constructor
  · intro h
    obtain ⟨c', hmem, hb⟩ := List.mem_flatMap.1 h
    have hc' : c'.toNat < 0x80 := by
      by_contra hhigh
      have hle := le_of_mem_utf8EncodeChar (Nat.le_of_not_lt hhigh) hb
      rw [toNat_ofNat_of_ascii hc] at hle
      omega
    rw [utf8EncodeChar_of_lt hc', List.mem_singleton] at hb
    have hnat := congrArg UInt8.toNat hb
    rw [toNat_ofNat_of_ascii hc, toNat_ofNat_of_ascii hc'] at hnat
    exact Char.toNat_inj.1 hnat ▸ hmem
  · intro h
    exact List.mem_flatMap.2 ⟨c, h, by simp [utf8EncodeChar_of_lt hc]⟩

/-! ## reading a text back -/

theorem decode_within {lo hi bits more : Nat} {b : UInt8} (hmore : 1 < more)
    (hlo : lo ≤ b.toNat) (hhi : b.toNat ≤ hi) (bytes : List UInt8) :
    decode (.within more lo hi bits) (b :: bytes) =
      decode (.within (more - 1) 0x80 0xBF (bits * 64 + (b.toNat - 0x80))) bytes := by
  rw [decode, feed, if_pos ⟨hlo, hhi⟩]
  dsimp only
  rw [if_neg (Nat.not_le_of_lt hmore)]
  rfl

theorem decode_last {lo hi bits : Nat} {b : UInt8} (hlo : lo ≤ b.toNat) (hhi : b.toNat ≤ hi)
    (bytes : List UInt8) : decode (.within 1 lo hi bits) (b :: bytes) =
      Char.ofNat (bits * 64 + (b.toNat - 0x80)) :: decode .between bytes := by
  rw [decode, feed, if_pos ⟨hlo, hhi⟩]
  rfl

theorem decode_lead {s : State} {b : UInt8} (hb : 0x80 ≤ b.toNat) (hlead : lead? b.toNat = some s)
    (bytes : List UInt8) : decode .between (b :: bytes) = decode s bytes := by
  rw [decode, feed, start, if_neg (Nat.not_lt_of_le hb), hlead]
  rfl

/-- the byte that carries the bits from `n` on -/
theorem lead?_two {n : Nat} (h : 0x80 ≤ n) (h' : n < 0x800) :
    lead? (n / 64 + 0xC0) = some (.within 1 0x80 0xBF (n / 64)) := by
  rw [lead?, if_pos (by omega), Nat.add_sub_cancel]

theorem lead?_three {n : Nat} (h : 0x800 ≤ n) (h' : n < 0x10000) (hn : n.isValidChar) :
    ∃ lo hi, lead? (n / 4096 + 0xE0) = some (.within 2 lo hi (n / 4096)) ∧
      lo ≤ n / 64 % 64 + 0x80 ∧ n / 64 % 64 + 0x80 ≤ hi := by
  rw [lead?, if_neg (by omega)]
  by_cases hfirst : n / 4096 = 0
  · exact ⟨0xA0, 0xBF, by rw [if_pos (by omega), hfirst], by omega, by omega⟩
  · rw [if_neg (by omega)]
    by_cases hsurrogate : n / 4096 = 13
    · refine ⟨0x80, 0x9F, by rw [if_pos (by omega), hsurrogate], by omega, ?_⟩
      obtain hlow | hhigh := hn <;> omega
    · rw [if_neg (by omega), if_pos (by omega), Nat.add_sub_cancel]
      exact ⟨0x80, 0xBF, rfl, by omega, by omega⟩

theorem lead?_four {n : Nat} (h : 0x10000 ≤ n) (h' : n < 0x110000) :
    ∃ lo hi, lead? (n / 262144 + 0xF0) = some (.within 3 lo hi (n / 262144)) ∧
      lo ≤ n / 4096 % 64 + 0x80 ∧ n / 4096 % 64 + 0x80 ≤ hi := by
  rw [lead?, if_neg (by omega), if_neg (by omega), if_neg (by omega), if_neg (by omega)]
  by_cases hfirst : n / 262144 = 0
  · exact ⟨0x90, 0xBF, by rw [if_pos (by omega), hfirst], by omega, by omega⟩
  · rw [if_neg (by omega)]
    by_cases hlast : n / 262144 = 4
    · rw [if_neg (by omega), if_pos (by omega), hlast]
      exact ⟨0x80, 0x8F, rfl, by omega, by omega⟩
    · rw [if_pos (by omega), Nat.add_sub_cancel]
      exact ⟨0x80, 0xBF, rfl, by omega, by omega⟩

theorem toNat_continuation (n : Nat) : (UInt8.ofNat (n % 64 + 128)).toNat = n % 64 + 0x80 := by
  rw [UInt8.toNat_ofNat']
  omega

theorem decode_two {n : Nat} (h : 0x80 ≤ n) (h' : n < 0x800) (bytes : List UInt8) :
    decode .between (UInt8.ofNat (n / 64 % 32 + 192) :: UInt8.ofNat (n % 64 + 128) :: bytes) =
      Char.ofNat n :: decode .between bytes := by
  have hlead : (UInt8.ofNat (n / 64 % 32 + 192)).toNat = n / 64 + 0xC0 := by
    rw [UInt8.toNat_ofNat']
    omega
  have hlast := toNat_continuation n
  rw [decode_lead (by omega) (by rw [hlead]; exact lead?_two h h'),
    decode_last (by omega) (by omega), hlast]
  have hbits : n / 64 * 64 + (n % 64 + 0x80 - 0x80) = n := by omega
  rw [hbits]

theorem decode_three {n : Nat} (h : 0x800 ≤ n) (h' : n < 0x10000) (hn : n.isValidChar)
    (bytes : List UInt8) :
    decode .between (UInt8.ofNat (n / 4096 % 16 + 224) :: UInt8.ofNat (n / 64 % 64 + 128) ::
      UInt8.ofNat (n % 64 + 128) :: bytes) = Char.ofNat n :: decode .between bytes := by
  have hlead : (UInt8.ofNat (n / 4096 % 16 + 224)).toNat = n / 4096 + 0xE0 := by
    rw [UInt8.toNat_ofNat']
    omega
  have hnext := toNat_continuation (n / 64)
  have hlast := toNat_continuation n
  obtain ⟨lo, hi, hstate, hlo, hhi⟩ := lead?_three h h' hn
  rw [decode_lead (by omega) (by rw [hlead]; exact hstate),
    decode_within (by decide) (by omega) (by omega), decode_last (by omega) (by omega), hnext,
    hlast]
  have hbits : (n / 4096 * 64 + (n / 64 % 64 + 0x80 - 0x80)) * 64 + (n % 64 + 0x80 - 0x80) = n := by
    omega
  rw [hbits]

theorem decode_four {n : Nat} (h : 0x10000 ≤ n) (h' : n < 0x110000) (bytes : List UInt8) :
    decode .between (UInt8.ofNat (n / 262144 % 8 + 240) :: UInt8.ofNat (n / 4096 % 64 + 128) ::
      UInt8.ofNat (n / 64 % 64 + 128) :: UInt8.ofNat (n % 64 + 128) :: bytes) =
        Char.ofNat n :: decode .between bytes := by
  have hlead : (UInt8.ofNat (n / 262144 % 8 + 240)).toNat = n / 262144 + 0xF0 := by
    rw [UInt8.toNat_ofNat']
    omega
  have hnext := toNat_continuation (n / 4096)
  have hthird := toNat_continuation (n / 64)
  have hlast := toNat_continuation n
  obtain ⟨lo, hi, hstate, hlo, hhi⟩ := lead?_four h h'
  rw [decode_lead (by omega) (by rw [hlead]; exact hstate),
    decode_within (by decide) (by omega) (by omega),
    decode_within (by decide) (by omega) (by omega), decode_last (by omega) (by omega), hnext,
    hthird, hlast]
  have hbits : ((n / 262144 * 64 + (n / 4096 % 64 + 0x80 - 0x80)) * 64 +
      (n / 64 % 64 + 0x80 - 0x80)) * 64 + (n % 64 + 0x80 - 0x80) = n := by omega
  rw [hbits]

/-- **The bytes of a character come to this character.** -/
theorem decode_utf8EncodeChar (c : Char) (bytes : List UInt8) :
    decode .between (String.utf8EncodeChar c ++ bytes) = c :: decode .between bytes := by
  have hvalid : c.toNat.isValidChar := c.valid
  have hlt : c.toNat < 0x110000 := by
    obtain h | h := hvalid <;> omega
  have hval : c.val.toNat = c.toNat := rfl
  have hnat : Char.ofNat c.toNat = c := Char.ofNat_toNat c
  rw [String.utf8EncodeChar, hval]
  split
  next h =>
    have hn : (UInt8.ofNat c.toNat).toNat = c.toNat := toNat_ofNat_of_ascii (Nat.lt_succ_of_le h)
    rw [List.singleton_append, decode, feed, start, hn, if_pos (Nat.lt_succ_of_le h), hnat]
    rfl
  next h =>
    split
    next h' =>
      have htwo := decode_two (Nat.lt_of_not_le h) (Nat.lt_succ_of_le h') bytes
      rwa [hnat] at htwo
    next h' =>
      split
      next h'' =>
        have hthree := decode_three (Nat.lt_of_not_le h') (Nat.lt_succ_of_le h'') hvalid bytes
        rwa [hnat] at hthree
      next h'' =>
        have hfour := decode_four (Nat.lt_of_not_le h'') hlt bytes
        rwa [hnat] at hfour

theorem decode_bytesOf (chars : List Char) : decode .between (bytesOf chars) = chars := by
  induction chars with
  | nil => rfl
  | cons c chars ih => rw [bytesOf_cons, decode_utf8EncodeChar, ih]

/-- **The bytes of a text come to this text**, and nothing is repaired. -/
theorem repair_encode (text : String) : repair (encode text) = text := by
  rw [repair_eq, encode_eq, decode_bytesOf, String.ofList_toList]

theorem encode_injective : Function.Injective encode :=
  Function.LeftInverse.injective repair_encode

/-! ## where an ASCII character comes from -/

/-- whatever bytes are missing, they complete no ASCII character -/
def Wide : State → Prop
  | .between => True
  | .within more lo _ bits => 0x80 ≤ (bits * 64 + (lo - 0x80)) * 64 ^ (more - 1)

theorem wide_of_lead? {b : Nat} {s : State} (h : lead? b = some s) : Wide s := by
  unfold lead? at h
  repeat' split at h
  all_goals cases h
  all_goals
    show 0x80 ≤ _
    omega

theorem wide_start (b : Nat) : Wide (start b).1 := by
  unfold start
  split
  · trivial
  · split
    next s hlead => exact wide_of_lead? hlead
    next => trivial

theorem mem_start {b : UInt8} {c : Char} (hc : 0 < c.toNat) (hascii : c.toNat < 0x80)
    (h : c ∈ (start b.toNat).2) : b = UInt8.ofNat c.toNat := by
  unfold start at h
  split at h
  next hb =>
    rw [List.mem_singleton] at h
    obtain hn | hn := toNat_ofNat_eq b.toNat
    · rw [h, hn, UInt8.ofNat_toNat]
    · rw [h, hn] at hc
      exact absurd hc (Nat.lt_irrefl 0)
  next =>
    split at h
    · cases h
    · rw [List.mem_singleton] at h
      rw [h] at hascii
      exact absurd hascii (by decide)

theorem mem_feed {s : State} (hs : Wide s) {b : UInt8} {c : Char} (hc : 0 < c.toNat)
    (hascii : c.toNat < 0x80) (h : c ∈ (feed s b).2) : b = UInt8.ofNat c.toNat := by
  cases s with
  | between => exact mem_start hc hascii h
  | within more lo hi bits =>
    have hwide : 0x80 ≤ (bits * 64 + (lo - 0x80)) * 64 ^ (more - 1) := hs
    rw [feed] at h
    split at h
    next hin =>
      dsimp only at h
      split at h
      next hlast =>
        have hmore : more - 1 = 0 := by omega
        rw [hmore, Nat.pow_zero, Nat.mul_one] at hwide
        rw [List.mem_singleton] at h
        obtain hn | hn := toNat_ofNat_eq (bits * 64 + (b.toNat - 0x80))
        · rw [← h] at hn
          omega
        · rw [← h] at hn
          omega
      next => cases h
    next =>
      obtain rfl | h := List.mem_cons.1 h
      · exact absurd hascii (by decide)
      · exact mem_start hc hascii h

theorem wide_feed {s : State} (hs : Wide s) (b : UInt8) : Wide (feed s b).1 := by
  cases s with
  | between => exact wide_start b.toNat
  | within more lo hi bits =>
    have hwide : 0x80 ≤ (bits * 64 + (lo - 0x80)) * 64 ^ (more - 1) := hs
    rw [feed]
    split
    next hin =>
      dsimp only
      split
      next => trivial
      next hmore =>
        show 0x80 ≤ ((bits * 64 + (b.toNat - 0x80)) * 64 + (0x80 - 0x80)) * 64 ^ (more - 1 - 1)
        obtain ⟨rest, hrest⟩ : ∃ rest, more - 1 = rest + 1 := ⟨more - 2, by omega⟩
        rw [hrest] at hwide ⊢
        calc 0x80 ≤ (bits * 64 + (lo - 0x80)) * 64 ^ (rest + 1) := hwide
          _ ≤ (bits * 64 + (b.toNat - 0x80)) * 64 ^ (rest + 1) :=
            Nat.mul_le_mul_right _ (by omega)
          _ = ((bits * 64 + (b.toNat - 0x80)) * 64 + (0x80 - 0x80)) * 64 ^ (rest + 1 - 1) := by
            rw [Nat.add_sub_cancel, Nat.pow_succ', ← Nat.mul_assoc, Nat.sub_self, Nat.add_zero]
    next => exact wide_start b.toNat

theorem mem_decode {s : State} (hs : Wide s) {c : Char} (hc : 0 < c.toNat)
    (hascii : c.toNat < 0x80) {bytes : List UInt8} (h : c ∈ decode s bytes) :
    UInt8.ofNat c.toNat ∈ bytes := by
  induction bytes generalizing s with
  | nil =>
    cases s with
    | between => cases h
    | within more lo hi bits =>
      rw [decode, close, List.mem_singleton] at h
      rw [h] at hascii
      exact absurd hascii (by decide)
  | cons b bytes ih =>
    obtain h | h := List.mem_append.1 h
    · rw [mem_feed hs hc hascii h]
      exact List.mem_cons_self
    · exact List.mem_cons_of_mem b (ih (wide_feed hs b) h)

/-- **An ASCII character of a repaired text comes from its byte**, be the bytes text or not. -/
theorem mem_of_mem_repair {c : Char} (hc : 0 < c.toNat) (hascii : c.toNat < 0x80)
    {bytes : List UInt8} (h : c ∈ (repair bytes).toList) : UInt8.ofNat c.toNat ∈ bytes := by
  rw [repair_eq, String.toList_ofList] at h
  exact mem_decode (s := .between) trivial hc hascii h

end StepRunner.Text.Utf8
