import StepRunner.Proofs.Text.Pattern
import StepRunner.Proofs.Text.Sanitize

/-!
# The pattern of escape sequences

An escape sequence against the pattern that describes it.  Each kind of sequence has one end, so a
search that backtracks finds what the four kinds, tried in their order, find without it; and a text
is stripped of exactly the matches that such a search finds in it one after the other.

* `pattern`                  the four kinds of sequences, in order of preference
* `head?_ends_pattern`       the bytes that a sequence takes, by its pattern
* `strip_of_parted`          stripping keeps the bytes outside the matches
* `occurs_eq_false_iff`      whether there is a match at all
* `parted_of_strip`          a text is stripped of its successive matches
-/

namespace StepRunner.Text.Escape

open Pattern (byte range anyOf noneOf Part)

/-! ## the pattern -/

/-- a control sequence: ESC, `[`, parameter bytes, intermediate bytes and one final byte -/
def control : Pattern :=
  .seq (byte 0x1B) (.seq (byte 0x5B) (.seq (.many (range 0x30 0x3F))
    (.seq (.many (range 0x20 0x2F)) (.one (range 0x40 0x7E)))))

/-- an operating system command: ESC, `]`, bytes other than BEL and ESC, then BEL or ESC and a
backslash -/
def command : Pattern :=
  .seq (byte 0x1B) (.seq (byte 0x5D) (.seq (.many (noneOf [0x07, 0x1B]))
    (.alt (byte 0x07) (.seq (byte 0x1B) (byte 0x5C)))))

/-- a control string: ESC, one of `P X ^ _`, bytes other than ESC, then ESC and a backslash -/
def string : Pattern :=
  .seq (byte 0x1B) (.seq (.one (anyOf [0x50, 0x58, 0x5E, 0x5F])) (.seq (.many (noneOf [0x1B]))
    (.seq (byte 0x1B) (byte 0x5C))))

/-- a short escape: ESC and one byte from `0` to `~` -/
def short : Pattern := .seq (byte 0x1B) (.one (range 0x30 0x7E))

/-- the kinds of sequences, in order of preference -/
def kinds : List Pattern := [control, command, string, short]

def pattern : Pattern := .alt control (.alt command (.alt string short))

/-! ## each kind has one end -/

theorem range_eq_false {lo hi lo' hi' b : UInt8} (h : hi < lo' ∨ hi' < lo)
    (hb : range lo hi b = true) : range lo' hi' b = false := by
  simp only [range, Bool.and_eq_true, decide_eq_true_eq, UInt8.le_iff_toNat_le] at hb
  simp only [UInt8.lt_iff_toNat_lt] at h
  simp only [range, Bool.and_eq_false_iff, decide_eq_false_iff_not, UInt8.le_iff_toNat_le]
  omega

theorem ends_final {b : UInt8} (h : range 0x20 0x2F b = true) (s : List UInt8) :
    (Pattern.one (range 0x40 0x7E)).ends (b :: s) = [] := by
  rw [Pattern.ends, range_eq_false (.inl (by decide)) h]
  rfl

theorem ends_intermediates {b : UInt8} (h : range 0x30 0x3F b = true) (s : List UInt8) :
    (Pattern.seq (.many (range 0x20 0x2F)) (.one (range 0x40 0x7E))).ends (b :: s) = [] := by
  rw [Pattern.ends_many_seq fun b s hb => ends_final hb s,
    List.dropWhile_cons_of_neg (by rw [range_eq_false (.inr (by decide)) h]; decide),
    Pattern.ends, range_eq_false (.inl (by decide)) h]
  rfl

theorem ends_commandEnd {b : UInt8} (h : noneOf [0x07, 0x1B] b = true) (s : List UInt8) :
    (Pattern.alt (byte 0x07) (.seq (byte 0x1B) (byte 0x5C))).ends (b :: s) = [] := by
  simp only [noneOf, List.contains_cons, List.contains_nil, Bool.or_false, Bool.not_or,
    Bool.and_eq_true, Bool.not_eq_true'] at h
  simp [Pattern.ends, byte, h]

theorem ends_stringEnd {b : UInt8} (h : noneOf [0x1B] b = true) (s : List UInt8) :
    (Pattern.seq (byte 0x1B) (byte 0x5C)).ends (b :: s) = [] := by
  simp only [noneOf, List.contains_cons, List.contains_nil, Bool.or_false, Bool.not_eq_true'] at h
  simp [Pattern.ends, byte, h]

theorem control_sole : control.Sole :=
  .seq (.one _) (.seq (.one _) (.many_seq (fun _ s h => ends_intermediates h s)
    (.many_seq (fun _ s h => ends_final h s) (.one _))))

theorem command_sole : command.Sole := by
  refine .seq (.one _) (.seq (.one _) (.many_seq (fun _ s h => ends_commandEnd h s) ?_))
  refine .alt (fun s => ?_) (.one _) (.seq (.one _) (.one _))
  cases s with
  | nil => exact .inl rfl
  | cons b s =>
    by_cases hb : b = 0x07
    · exact .inr (by simp [Pattern.ends, byte, hb])
    · exact .inl (by simp [Pattern.ends, byte, hb])

theorem string_sole : string.Sole :=
  .seq (.one _) (.seq (.one _) (.many_seq (fun _ s h => ends_stringEnd h s)
    (.seq (.one _) (.one _))))

theorem short_sole : short.Sole := .seq (.one _) (.one _)

theorem sole_of_mem_kinds {kind : Pattern} (h : kind ∈ kinds) : kind.Sole := by
  simp only [kinds, List.mem_cons, List.not_mem_nil, or_false] at h
  obtain rfl | rfl | rfl | rfl := h
  · exact control_sole
  · exact command_sole
  · exact string_sole
  · exact short_sole

theorem ends_pattern (s : List UInt8) : pattern.ends s = kinds.flatMap (·.ends s) := by
  simp [pattern, kinds, Pattern.ends]

/-- **The first kind that is complete is found**, and its one end. -/
theorem head?_ends_pattern_iff {s rest : List UInt8} :
    (pattern.ends s).head? = some rest ↔ ∃ before kind after, kinds = before ++ kind :: after ∧
      (∃ x, kind.Matches x ∧ s = x ++ rest) ∧ ∀ k ∈ before, ∀ x, k.Matches x → ¬ x <+: s := by
  rw [ends_pattern, List.head?_flatMap, List.findSome?_eq_some_iff]
  have hsole {before after : List Pattern} {kind : Pattern}
      (hkinds : kinds = before ++ kind :: after) : kind.Sole :=
    sole_of_mem_kinds (by rw [hkinds]; simp)
  constructor
  · rintro ⟨before, kind, after, hkinds, hfound, hbefore⟩
    exact ⟨before, kind, after, hkinds, (hsole hkinds).head?_ends_iff.1 hfound,
      fun k hk => Pattern.head?_ends_eq_none_iff.1 (hbefore k hk)⟩
  · rintro ⟨before, kind, after, hkinds, hfound, hbefore⟩
    exact ⟨before, kind, after, hkinds, (hsole hkinds).head?_ends_iff.2 hfound,
      fun k hk => Pattern.head?_ends_eq_none_iff.2 (hbefore k hk)⟩

-- a control sequence without its final byte comes to a short escape
example : (pattern.ends [0x1B, 0x5B, 0x33, 0x31]).head? = some [0x33, 0x31] := by decide

/-! ## the bytes of a sequence -/

theorem drop_length_of_append {x rest s : List UInt8} (h : x ++ rest = s) :
    s.drop x.length = rest := by
  rw [← h, List.drop_left]

theorem eq_false_of_dropWhile {p : UInt8 → Bool} {s rest : List UInt8} {b : UInt8}
    (h : s.dropWhile p = b :: rest) : p b = false := by
  have hstop := List.head?_dropWhile_not p s
  rwa [h] at hstop

theorem ends_control (s : List UInt8) :
    (Pattern.seq (.many (range 0x30 0x3F))
      (.seq (.many (range 0x20 0x2F)) (.one (range 0x40 0x7E)))).ends s =
        ((control? s).map s.drop).toList := by
  rw [Pattern.ends_many_seq fun b s h => ends_intermediates h s,
    Pattern.ends_many_seq fun b s h => ends_final h s]
  show (Pattern.one isFinal).ends ((s.dropWhile isParameter).dropWhile isIntermediate) = _
  unfold control?
  dsimp only
  split
  next b rest hrest =>
    rw [hrest, Pattern.ends]
    have hs : s.takeWhile isParameter ++
        ((s.dropWhile isParameter).takeWhile isIntermediate ++ [b]) ++ rest = s := by
      rw [List.append_assoc, List.append_assoc, List.singleton_append, ← hrest,
        List.takeWhile_append_dropWhile, List.takeWhile_append_dropWhile]
    have hdrop := drop_length_of_append hs
    rw [List.length_append, List.length_append, List.length_singleton, ← Nat.add_assoc] at hdrop
    split
    · rw [Option.map_some, hdrop, Option.toList_some]
    · rfl
  next hrest =>
    rw [hrest]
    rfl

theorem ends_esc_seq (q : Pattern) (s : List UInt8) :
    ((byte 0x1B).seq q).ends (esc :: s) = q.ends s := by
  rw [Pattern.ends_byte_seq_cons, if_pos (by decide)]

theorem ends_close (rest : List UInt8) : (Pattern.seq (byte 0x1B) (byte 0x5C)).ends (esc :: rest) =
    if rest.head? = some backslash then [rest.tail] else [] := by
  rw [ends_esc_seq]
  cases rest with
  | nil => rfl
  | cons b rest => simp [Pattern.ends, byte, backslash]

theorem drop_of_close {text rest s : List UInt8} (hs : text ++ esc :: rest = s)
    (h : rest.head? = some backslash) : s.drop (text.length + 2) = rest.tail := by
  obtain ⟨tail, rfl⟩ := List.head?_eq_some_iff.1 h
  have hdrop : s.drop (text ++ [esc, backslash]).length = tail :=
    drop_length_of_append (by simpa using hs)
  rwa [List.length_append] at hdrop

theorem ends_command (s : List UInt8) :
    (Pattern.seq (.many (noneOf [0x07, 0x1B]))
      (.alt (byte 0x07) (.seq (byte 0x1B) (byte 0x5C)))).ends s =
        ((command? s).map s.drop).toList := by
  have hinner : noneOf [0x07, 0x1B] = fun b => b != bel && b != esc := by
    funext b
    simp only [noneOf, List.contains_cons, List.contains_nil, Bool.or_false, Bool.not_or]
    rfl
  rw [Pattern.ends_many_seq fun b s h => ends_commandEnd h s, hinner]
  unfold command?
  dsimp only
  split
  next b rest hrest =>
    have hs := List.takeWhile_append_dropWhile (p := fun b => b != bel && b != esc) (l := s)
    rw [hrest] at hs
    have hb := eq_false_of_dropWhile hrest
    simp only [Bool.and_eq_false_iff, bne_eq_false_iff_eq] at hb
    rw [hrest]
    obtain rfl | rfl := hb
    · have hdrop := drop_length_of_append ((List.append_assoc _ [bel] rest).trans hs)
      rw [List.length_append, List.length_singleton] at hdrop
      rw [if_pos rfl, Option.map_some, hdrop]
      rfl
    · rw [if_neg (by decide), Pattern.ends, ends_close]
      split
      next hclose => rw [Option.map_some, drop_of_close hs hclose]; rfl
      next => rfl
  next hrest =>
    rw [hrest]
    rfl

theorem ends_string (s : List UInt8) :
    (Pattern.seq (.many (noneOf [0x1B])) (.seq (byte 0x1B) (byte 0x5C))).ends s =
        ((string? s).map s.drop).toList := by
  have hinner : noneOf [0x1B] = fun b => b != esc := by
    funext b
    simp only [noneOf, List.contains_cons, List.contains_nil, Bool.or_false]
    rfl
  rw [Pattern.ends_many_seq fun b s h => ends_stringEnd h s, hinner]
  unfold string?
  dsimp only
  split
  next b rest hrest =>
    have hs := List.takeWhile_append_dropWhile (p := fun b => b != esc) (l := s)
    rw [hrest] at hs
    have hb := eq_false_of_dropWhile hrest
    obtain rfl : b = esc := bne_eq_false_iff_eq.1 hb
    rw [hrest, ends_close]
    split
    next hclose => rw [Option.map_some, drop_of_close hs hclose, Option.toList_some]
    next => rfl
  next hrest =>
    rw [hrest]
    rfl

theorem ends_pattern_of_ne {b : UInt8} (h : b ≠ esc) (s : List UInt8) :
    pattern.ends (b :: s) = [] := by
  have hb : b ≠ 0x1B := h
  simp [ends_pattern, kinds, control, command, string, short, Pattern.ends_byte_seq_cons, hb]

/-- the bytes that a sequence of a longer kind takes, given the byte that follows its ESC -/
def long? (b : UInt8) (s : List UInt8) : Option Nat :=
  if b = 0x5B then control? s
  else if b = 0x5D then command? s
  else if opensString b then string? s
  else none

theorem length?_cons (b : UInt8) (s : List UInt8) :
    length? (b :: s) = ((long? b s).map (· + 1)).or (if isShort b then some 1 else none) := by
  unfold length?
  cases hlong : long? b s
  all_goals
    rw [long?] at hlong
    dsimp only
    rw [hlong]
    rfl

theorem ends_pattern_cons (b : UInt8) (s : List UInt8) :
    pattern.ends (esc :: b :: s) =
      ((long? b s).map s.drop).toList ++ if isShort b then [s] else [] := by
  have hcontrol : control.ends (esc :: b :: s) =
      if b = 0x5B then ((control? s).map s.drop).toList else [] := by
    rw [control, ends_esc_seq, Pattern.ends_byte_seq_cons, ends_control]
  have hcommand : command.ends (esc :: b :: s) =
      if b = 0x5D then ((command? s).map s.drop).toList else [] := by
    rw [command, ends_esc_seq, Pattern.ends_byte_seq_cons, ends_command]
  have hstring : string.ends (esc :: b :: s) =
      if opensString b then ((string? s).map s.drop).toList else [] := by
    have hopens : anyOf [0x50, 0x58, 0x5E, 0x5F] b = opensString b := by
      simp only [anyOf, List.contains_cons, List.contains_nil, Bool.or_false, ← Bool.or_assoc]
      rfl
    rw [string, ends_esc_seq, Pattern.ends_one_seq_cons, ends_string,
      hopens]
  have hshort : short.ends (esc :: b :: s) = if isShort b then [s] else [] := by
    rw [short, ends_esc_seq]
    rfl
  rw [ends_pattern, kinds]
  simp only [List.flatMap_cons, List.flatMap_nil, List.append_nil, hcontrol, hcommand, hstring,
    hshort]
  -- no two of the longer kinds have a second byte in common
  unfold long?
  by_cases hopen : b = 0x5B
  · subst hopen
    simp [opensString]
  · by_cases hcommand : b = 0x5D
    · subst hcommand
      simp [opensString]
    · by_cases hstring : opensString b = true <;> simp [hopen, hcommand, hstring]

/-- **The bytes that a sequence takes are those of the pattern's preferred match.** -/
theorem head?_ends_pattern (s : List UInt8) :
    (pattern.ends (esc :: s)).head? = (length? s).map s.drop := by
  cases s with
  | nil => decide
  | cons b s =>
    rw [ends_pattern_cons, length?_cons, List.head?_append, Option.head?_toList]
    cases long? b s with
    | some n => rfl
    | none =>
      by_cases hshort : isShort b = true
      · simp [hshort]
      · simp [hshort]

/-! ## stripping -/

theorem toList_stripOnto (acc : Array UInt8) (skip : Nat) (s : List UInt8) :
    (stripOnto acc skip s).toList = acc.toList ++ strip (s.drop skip) := by
  induction s generalizing acc skip with
  | nil => cases skip <;> simp [stripOnto, strip]
  | cons b s ih =>
    cases skip with
    | succ skip => exact ih acc skip
    | zero =>
      rw [List.drop_zero, strip, stripOnto, stripOnto]
      split
      · split
        · rw [ih, ih #[]]
          rfl
        · rw [ih, ih (Array.push #[] b), Array.toList_push, List.append_assoc]
          rfl
      · rw [ih, ih (Array.push #[] b), Array.toList_push, List.append_assoc]
        rfl

theorem strip_cons (b : UInt8) (s : List UInt8) : strip (b :: s) =
    match (pattern.ends (b :: s)).head? with
    | some rest => strip rest
    | none => b :: strip s := by
  have hkept : (stripOnto (Array.push #[] b) 0 s).toList = b :: strip s :=
    toList_stripOnto _ 0 s
  rw [strip, stripOnto]
  by_cases hb : b = esc
  · rw [if_pos hb, hb, head?_ends_pattern]
    cases length? s with
    | some n => exact toList_stripOnto #[] n s
    | none => exact hb ▸ hkept
  · rw [if_neg hb, ends_pattern_of_ne hb]
    exact hkept

theorem strip_of_kept {b : UInt8} {s : List UInt8} (h : pattern.ends (b :: s) = []) :
    strip (b :: s) = b :: strip s := by
  rw [strip_cons, h]
  rfl

theorem strip_of_found {x rest : List UInt8} (hx : x ≠ [])
    (h : (pattern.ends (x ++ rest)).head? = some rest) : strip (x ++ rest) = strip rest := by
  obtain ⟨b, x, rfl⟩ := List.exists_cons_of_ne_nil hx
  rw [List.cons_append] at h ⊢
  rw [strip_cons, h]

/-- **Stripping keeps the bytes outside the matches.** -/
theorem strip_of_parted {s : List UInt8} {parts : List Part} (h : pattern.Parted s parts) :
    strip s = parts.filterMap Part.kept? := by
  induction h with
  | nil => rfl
  | kept hnone _ ih => rw [strip_of_kept hnone, ih]; rfl
  | found hx hsome _ ih => rw [strip_of_found hx hsome, ih]; rfl

/-! ## whether there is a match -/

theorem occurs_cons (b : UInt8) (s : List UInt8) :
    occurs (b :: s) = ((pattern.ends (b :: s)).head?.isSome || occurs s) := by
  rw [occurs]
  by_cases hb : b = esc
  · rw [hb, head?_ends_pattern, Option.isSome_map]
    simp
  · rw [ends_pattern_of_ne hb]
    simp [hb]

theorem isShort_of_long? {b : UInt8} {s : List UInt8} {n : Nat} (h : long? b s = some n) :
    isShort b = true := by
  unfold long? at h
  split at h
  next hb => exact hb ▸ by decide
  next =>
    split at h
    next hb => exact hb ▸ by decide
    next =>
      split at h
      next hb =>
        simp only [opensString, Bool.or_eq_true, decide_eq_true_eq] at hb
        obtain ((rfl | rfl) | rfl) | rfl := hb <;> decide
      next => cases h

/-- where a sequence begins, the byte behind its ESC may stand alone behind it -/
theorem exists_of_mem_ends {s rest : List UInt8} (h : rest ∈ pattern.ends s) :
    ∃ c tail, isShort c = true ∧ s = esc :: c :: tail := by
  cases s with
  | nil => cases h
  | cons b s =>
    by_cases hb : b = esc
    · subst hb
      cases s with
      | nil => cases h
      | cons c tail =>
        refine ⟨c, tail, ?_, rfl⟩
        rw [ends_pattern_cons, List.mem_append] at h
        obtain hlong | hshort := h
        · cases hn : long? c tail with
          | some n => exact isShort_of_long? hn
          | none =>
            rw [hn] at hlong
            cases hlong
        · split at hshort
          next hc => exact hc
          next => cases hshort
    · rw [ends_pattern_of_ne hb] at h
      cases h

theorem exists_of_matches {x : List UInt8} (h : pattern.Matches x) :
    ∃ c tail, isShort c = true ∧ x = esc :: c :: tail :=
  exists_of_mem_ends (Pattern.matches_iff.1 h)

theorem occurs_eq_false_iff {s : List UInt8} :
    occurs s = false ↔ ∀ x, pattern.Matches x → ¬ x <:+: s := by
  induction s with
  | nil =>
    refine ⟨fun _ x hx hnil => ?_, fun _ => rfl⟩
    obtain ⟨c, tail, -, rfl⟩ := exists_of_matches hx
    cases List.infix_nil.1 hnil
  | cons b s ih =>
    rw [occurs_cons, Bool.or_eq_false_iff, Option.isSome_eq_false_iff, Option.isNone_iff_eq_none,
      Pattern.head?_ends_eq_none_iff, ih]
    simp only [List.infix_cons_iff, not_or]
    constructor
    · rintro ⟨hfirst, hrest⟩ x hx
      exact ⟨hfirst x hx, hrest x hx⟩
    · intro h
      exact ⟨fun x hx => (h x hx).1, fun x hx => (h x hx).2⟩

theorem strip_eq_self_iff {s : List UInt8} : strip s = s ↔ occurs s = false := by
  induction s with
  | nil => exact iff_of_true rfl rfl
  | cons b s ih =>
    rw [occurs_cons]
    cases hends : (pattern.ends (b :: s)).head? with
    | none =>
      rw [strip_cons, hends, List.cons.injEq, ih]
      simp
    | some rest =>
      refine iff_of_false (fun hsame => ?_) (by simp)
      have hmem := List.mem_of_head? hends
      obtain ⟨x, hx, hs⟩ := Pattern.mem_ends_iff.1 hmem
      obtain ⟨c, tail, -, rfl⟩ := exists_of_matches hx
      have hle := length_strip_le rest
      rw [strip_cons, hends] at hsame
      dsimp only at hsame
      have hlength := congrArg List.length hs
      rw [← hsame, List.length_append, List.length_cons] at hlength
      omega

theorem exists_parted (s : List UInt8) : ∃ parts, pattern.Parted s parts :=
  Pattern.Parted.exists_parted (by decide) s

theorem occurs_of_parted {s : List UInt8} {parts : List Part} (h : pattern.Parted s parts) :
    occurs s = false ↔ ∀ x, Part.found x ∉ parts := by
  induction h with
  | nil => exact iff_of_true rfl fun x => List.not_mem_nil
  | @kept b rest parts hnone _ ih =>
    rw [occurs_cons, hnone, List.head?_nil, Option.isSome_none, Bool.false_or, ih]
    simp
  | @found x rest parts hx hsome _ ih =>
    refine iff_of_false (fun hnone => ?_) (fun h => h x List.mem_cons_self)
    obtain ⟨b, x, rfl⟩ := List.exists_cons_of_ne_nil hx
    rw [List.cons_append] at hsome hnone
    rw [occurs_cons, hsome] at hnone
    cases hnone

/-- **A text is stripped of its successive matches.**  It is parted in one way into the matches that
a search finds, one after the other, and the bytes outside of them, and these bytes are what
stripping leaves.  A match is one of the first kind that is complete at its place.  That nothing is
stripped is known beforehand, and all bytes stay then. -/
theorem parted_of_strip (bytes : List UInt8) :
    (∀ s rest, (pattern.ends s).head? = some rest ↔
      ∃ before kind after, [control, command, string, short] = before ++ kind :: after ∧
        (∃ x, kind.Matches x ∧ s = x ++ rest) ∧ ∀ k ∈ before, ∀ x, k.Matches x → ¬ x <+: s) ∧
    (∃ parts, pattern.Parted bytes parts ∧
      (∀ others, pattern.Parted bytes others → others = parts) ∧
      parts.flatMap Part.bytes = bytes ∧ strip bytes = parts.filterMap Part.kept? ∧
      (occurs bytes = false ↔ ∀ x, Part.found x ∉ parts)) ∧
    (occurs bytes = false ↔ ∀ x, pattern.Matches x → ¬ x <:+: bytes) ∧
    (occurs bytes = false ↔ strip bytes = bytes) := by
  refine ⟨fun s rest => head?_ends_pattern_iff, ?_, occurs_eq_false_iff, strip_eq_self_iff.symm⟩
  obtain ⟨parts, hparts⟩ := exists_parted bytes
  exact ⟨parts, hparts, fun _ => hparts.unique, hparts.flatMap_bytes, strip_of_parted hparts,
    occurs_of_parted hparts⟩

end StepRunner.Text.Escape
