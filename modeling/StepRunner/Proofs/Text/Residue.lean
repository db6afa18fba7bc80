import StepRunner.Proofs.Text.Escape

/-!
# What stripping leaves

Text without ESC stays, whatever complete sequences stand beside it.  What is left may hold a
sequence again, for bytes that stood apart come together.  This takes an ESC that begins nothing,
sequences right behind it, and a byte right behind these that the ESC then begins a sequence with.

* `strip_of_complete`    complete sequences go, and the text between them stays
* `Rejoined`             an ESC before sequences and a byte behind them that go with it
* `left_of_strip`        a sequence is left where bytes are rejoined, and nowhere else
-/

namespace StepRunner.Text.Escape

open Pattern (range Part)

/-! ## complete sequences -/

/-- a sequence of a longer kind, or a short escape that opens none of these -/
inductive Complete : List UInt8 → Prop
  | control {x : List UInt8} (h : control.Matches x) : Complete x
  | command {x : List UInt8} (h : command.Matches x) : Complete x
  | string {x : List UInt8} (h : string.Matches x) : Complete x
  | short {c : UInt8} (hc : range 0x30 0x7E c = true)
      (hopens : c ∉ [0x5B, 0x5D, 0x50, 0x58, 0x5E, 0x5F]) : Complete [0x1B, c]

theorem exists_of_control {x : List UInt8} (h : control.Matches x) :
    ∃ tail, x = 0x1B :: 0x5B :: tail := by
  obtain ⟨y, hy, rfl⟩ := Pattern.matches_byte_seq_iff.1 h
  obtain ⟨tail, -, rfl⟩ := Pattern.matches_byte_seq_iff.1 hy
  exact ⟨tail, rfl⟩

theorem exists_of_command {x : List UInt8} (h : command.Matches x) :
    ∃ tail, x = 0x1B :: 0x5D :: tail := by
  obtain ⟨y, hy, rfl⟩ := Pattern.matches_byte_seq_iff.1 h
  obtain ⟨tail, -, rfl⟩ := Pattern.matches_byte_seq_iff.1 hy
  exact ⟨tail, rfl⟩

theorem exists_of_string {x : List UInt8} (h : string.Matches x) :
    ∃ c tail, c ∈ [0x50, 0x58, 0x5E, 0x5F] ∧ x = 0x1B :: c :: tail := by
  obtain ⟨y, hy, rfl⟩ := Pattern.matches_byte_seq_iff.1 h
  cases hy with
  | seq hopener htail =>
    cases hopener with
    | one hc => exact ⟨_, _, List.contains_iff_mem.1 hc, rfl⟩

/-- the second byte tells the kinds apart -/
theorem not_prefix_of_ne {b c : UInt8} {tail tail' : List UInt8} (h : b ≠ c) :
    ¬ (0x1B : UInt8) :: b :: tail <+: 0x1B :: c :: tail' := by
  intro hprefix
  rw [List.cons_prefix_cons, List.cons_prefix_cons] at hprefix
  exact h hprefix.2.1

theorem not_control_of_ne {c : UInt8} {tail x : List UInt8} (h : c ≠ 0x5B)
    (hx : control.Matches x) : ¬ x <+: 0x1B :: c :: tail := by
  obtain ⟨tail', rfl⟩ := exists_of_control hx
  exact not_prefix_of_ne h.symm

theorem not_command_of_ne {c : UInt8} {tail x : List UInt8} (h : c ≠ 0x5D)
    (hx : command.Matches x) : ¬ x <+: 0x1B :: c :: tail := by
  obtain ⟨tail', rfl⟩ := exists_of_command hx
  exact not_prefix_of_ne h.symm

theorem found_of_complete {x : List UInt8} (h : Complete x) (rest : List UInt8) :
    (pattern.ends (x ++ rest)).head? = some rest := by
  rw [head?_ends_pattern_iff]
  cases h with
  | control h => exact ⟨[], control, [command, string, short], rfl, ⟨x, h, rfl⟩, by simp⟩
  | command h =>
    refine ⟨[control], command, [string, short], rfl, ⟨x, h, rfl⟩, ?_⟩
    obtain ⟨tail, rfl⟩ := exists_of_command h
    simp only [List.forall_mem_singleton]
    exact fun y => not_control_of_ne (by decide)
  | string h =>
    refine ⟨[control, command], string, [short], rfl, ⟨x, h, rfl⟩, ?_⟩
    obtain ⟨c, tail, hc, rfl⟩ := exists_of_string h
    simp only [List.forall_mem_cons, List.not_mem_nil, false_implies, implies_true, and_true]
    refine ⟨fun y => not_control_of_ne ?_, fun y => not_command_of_ne ?_⟩ <;>
      (rintro rfl; exact absurd hc (by decide))
  | @short c hc hopens =>
    have hx : short.Matches [0x1B, c] := Pattern.matches_byte_seq_iff.2 ⟨[c], .one hc, rfl⟩
    refine ⟨[control, command, string], short, [], rfl, ⟨_, hx, rfl⟩, ?_⟩
    simp only [List.mem_cons, List.not_mem_nil, or_false, not_or] at hopens
    simp only [List.forall_mem_cons, List.not_mem_nil, false_implies, implies_true, and_true]
    refine ⟨fun y => not_control_of_ne hopens.1, fun y => not_command_of_ne hopens.2.1, ?_⟩
    intro y hy
    obtain ⟨b, tail, hb, rfl⟩ := exists_of_string hy
    refine not_prefix_of_ne ?_
    rintro rfl
    simp [hopens] at hb

/-! ## text between sequences -/

theorem strip_append_of_not_mem {text : List UInt8} (h : esc ∉ text) (s : List UInt8) :
    strip (text ++ s) = text ++ strip s := by
  induction text with
  | nil => rfl
  | cons b text ih =>
    rw [List.mem_cons, not_or] at h
    rw [List.cons_append, strip_of_kept (ends_pattern_of_ne (Ne.symm h.1) _), ih h.2,
      List.cons_append]

theorem occurs_append_of_not_mem {text : List UInt8} (h : esc ∉ text) (s : List UInt8) :
    occurs (text ++ s) = occurs s := by
  induction text with
  | nil => rfl
  | cons b text ih =>
    rw [List.mem_cons, not_or] at h
    rw [List.cons_append, occurs_cons, ends_pattern_of_ne (Ne.symm h.1), ih h.2]
    rfl

theorem Complete.ne_nil {x : List UInt8} (h : Complete x) : x ≠ [] := by
  rintro rfl
  have hfound := found_of_complete h []
  cases hfound

theorem strip_append_of_complete {x : List UInt8} (h : Complete x) (s : List UInt8) :
    strip (x ++ s) = strip s :=
  strip_of_found h.ne_nil (found_of_complete h s)

theorem occurs_append_of_complete {x : List UInt8} (h : Complete x) (s : List UInt8) :
    occurs (x ++ s) = true := by
  have hfound := found_of_complete h s
  obtain ⟨b, x, rfl⟩ := List.exists_cons_of_ne_nil h.ne_nil
  rw [List.cons_append] at hfound ⊢
  rw [occurs_cons, hfound]
  rfl

/-- **Complete sequences go wherever they stand, and all text between them stays.**  Without one,
a text without ESC is as it was, and known to be. -/
theorem strip_of_complete (pieces : List (List UInt8 × List UInt8)) (last : List UInt8)
    (htexts : ∀ piece ∈ pieces, esc ∉ piece.1) (hlast : esc ∉ last)
    (hcomplete : ∀ piece ∈ pieces, Complete piece.2) :
    strip (pieces.flatMap (fun piece => piece.1 ++ piece.2) ++ last) =
        pieces.flatMap Prod.fst ++ last ∧
      occurs (pieces.flatMap (fun piece => piece.1 ++ piece.2) ++ last) = !pieces.isEmpty := by
  induction pieces with
  | nil =>
    have hnone := occurs_append_of_not_mem hlast []
    rw [List.append_nil] at hnone
    exact ⟨strip_of_not_mem hlast, hnone⟩
  | cons piece pieces ih =>
    obtain ⟨htext, htexts⟩ := List.forall_mem_cons.1 htexts
    obtain ⟨hpiece, hcomplete⟩ := List.forall_mem_cons.1 hcomplete
    rw [List.flatMap_cons, List.flatMap_cons, List.append_assoc, List.append_assoc,
      List.append_assoc, strip_append_of_not_mem htext, strip_append_of_complete hpiece,
      (ih htexts hcomplete).1, occurs_append_of_not_mem htext, occurs_append_of_complete hpiece]
    exact ⟨rfl, rfl⟩

/-- a colour, a title, a control string and a keypad mode, among text that looks like them -/
theorem strip_of_complete_of_four :
    let pieces : List (List UInt8 × List UInt8) :=
      [([0x5B, 0x6D], [0x1B, 0x5B, 0x31, 0x3B, 0x33, 0x32, 0x6D]),
        ([], [0x1B, 0x5D, 0x30, 0x3B, 0x74, 0x07]), ([0x07], [0x1B, 0x50, 0x71, 0x1B, 0x5C]),
        ([0x5C, 0xFF], [0x1B, 0x3D])]
    ((∀ piece ∈ pieces, esc ∉ piece.1) ∧ esc ∉ [(0x6D : UInt8)] ∧
        ∀ piece ∈ pieces, Complete piece.2) ∧
      strip (pieces.flatMap (fun piece => piece.1 ++ piece.2) ++ [0x6D]) =
        [0x5B, 0x6D, 0x07, 0x5C, 0xFF, 0x6D] := by
  intro pieces
  have htexts : ∀ piece ∈ pieces, esc ∉ piece.1 := by decide
  have hlast : esc ∉ [(0x6D : UInt8)] := by decide
  have hcomplete : ∀ piece ∈ pieces, Complete piece.2 := by
    simp only [pieces, List.forall_mem_cons]
    exact ⟨.control (by decide), .command (by decide), .string (by decide),
      .short (by decide) (by decide), by simp⟩
  exact ⟨⟨htexts, hlast, hcomplete⟩, (strip_of_complete pieces _ htexts hlast hcomplete).1⟩

/-! ## bytes that come together -/

/-- an ESC at which nothing matches, matches right behind it, and behind these a byte that may stand
alone behind ESC -/
def Rejoined (parts : List Part) : Prop :=
  ∃ (front back : List Part) (matched : List (List UInt8)) (c : UInt8),
    parts = front ++ .kept esc :: (matched.map .found ++ .kept c :: back) ∧
      matched ≠ [] ∧ range 0x30 0x7E c = true

theorem exists_map_found {parts : List Part} (h : ∀ part ∈ parts, part.kept? = none) :
    ∃ matched : List (List UInt8), parts = matched.map .found := by
  induction parts with
  | nil => exact ⟨[], rfl⟩
  | cons part parts ih =>
    obtain ⟨hpart, hparts⟩ := List.forall_mem_cons.1 h
    obtain ⟨matched, rfl⟩ := ih hparts
    cases part with
    | kept b => cases hpart
    | found x => exact ⟨x :: matched, rfl⟩

theorem filterMap_rejoined (front : List Part) (matched : List (List UInt8)) (c : UInt8)
    (back : List Part) :
    (front ++ Part.kept esc :: (matched.map .found ++ .kept c :: back)).filterMap Part.kept? =
      front.filterMap Part.kept? ++ [esc, c] ++ back.filterMap Part.kept? := by
  simp [Part.kept?]

theorem exists_of_filterMap {parts : List Part} {front back : List UInt8} {b c : UInt8}
    (h : parts.filterMap Part.kept? = front ++ b :: c :: back) :
    ∃ (ahead behind : List Part) (matched : List (List UInt8)),
      parts = ahead ++ .kept b :: (matched.map .found ++ .kept c :: behind) := by
  obtain ⟨ahead, behind, rfl, -, h⟩ := List.filterMap_eq_append_iff.1 h
  obtain ⟨before, part, behind, rfl, -, hb, h⟩ := List.filterMap_eq_cons_iff.1 h
  obtain ⟨between, part', behind, rfl, hbetween, hc, -⟩ := List.filterMap_eq_cons_iff.1 h
  obtain ⟨matched, rfl⟩ := exists_map_found hbetween
  cases part with
  | found x => cases hb
  | kept b' =>
    cases part' with
    | found x => cases hc
    | kept c' =>
      cases hb
      cases hc
      exact ⟨ahead ++ before, behind, matched, by simp⟩

variable {bytes : List UInt8} {parts : List Part}

/-- an ESC that is kept does not stand before a byte that may stand alone behind it -/
theorem not_parted_of_short {front back : List Part} {c : UInt8} (hc : range 0x30 0x7E c = true) :
    ¬ pattern.Parted bytes (front ++ .kept esc :: .kept c :: back) := by
  intro h
  have hback := h.of_append
  generalize hs : (Part.kept esc :: .kept c :: back).flatMap Part.bytes = s at hback
  cases hback with
  | kept hnone _ =>
    obtain rfl := (List.cons.inj hs).2
    have hnil : (if isShort c then [back.flatMap Part.bytes] else []) = [] :=
      (List.append_eq_nil_iff.1 ((ends_pattern_cons c _).symm.trans hnone)).2
    have hshort : isShort c = true := hc
    rw [if_pos hshort] at hnil
    cases hnil

theorem esc_prefix_of_found {x : List UInt8} {back : List Part}
    (h : pattern.Parted bytes (.found x :: back)) : ∃ tail, x = esc :: tail := by
  cases h with
  | found hx hsome _ =>
    obtain ⟨c, tail, -, hs⟩ := exists_of_mem_ends (List.mem_of_head? hsome)
    obtain ⟨b, x, rfl⟩ := List.exists_cons_of_ne_nil hx
    rw [(List.cons.inj hs).1]
    exact ⟨x, rfl⟩

theorem infix_of_rejoined (hparts : pattern.Parted bytes parts) (h : Rejoined parts) :
    [esc, esc] <:+: bytes := by
  obtain ⟨front, back, matched, c, rfl, hmatched, -⟩ := h
  obtain ⟨x, matched, rfl⟩ := List.exists_cons_of_ne_nil hmatched
  have hbytes := hparts.flatMap_bytes
  rw [List.append_cons] at hparts hbytes
  obtain ⟨tail, rfl⟩ := esc_prefix_of_found hparts.of_append
  refine ⟨front.flatMap Part.bytes,
    tail ++ (matched.map Part.found ++ Part.kept c :: back).flatMap Part.bytes, ?_⟩
  rw [← hbytes]
  simp [Part.bytes]

/-- **A sequence is left where bytes are rejoined, and nowhere else.** -/
theorem occurs_strip_iff (hparts : pattern.Parted bytes parts) :
    (∃ x, pattern.Matches x ∧ x <:+: strip bytes) ↔ Rejoined parts := by
  rw [strip_of_parted hparts]
  constructor
  · rintro ⟨x, hx, front, back, hleft⟩
    obtain ⟨c, tail, hc, rfl⟩ := exists_of_matches hx
    have hstrip : parts.filterMap Part.kept? = front ++ esc :: c :: (tail ++ back) := by
      rw [← hleft]
      simp
    obtain ⟨ahead, behind, matched, rfl⟩ := exists_of_filterMap hstrip
    refine ⟨ahead, behind, matched, c, rfl, ?_, hc⟩
    rintro rfl
    exact not_parted_of_short hc hparts
  · rintro ⟨front, back, matched, c, rfl, -, hc⟩
    have hshort : short.Matches [esc, c] := Pattern.matches_byte_seq_iff.2 ⟨[c], .one hc, rfl⟩
    refine ⟨[esc, c], .altSecond (.altSecond (.altSecond hshort)), ?_⟩
    rw [filterMap_rejoined]
    exact List.infix_append _ _ _

/-- **What is left holds a sequence, and another pass changes it, exactly if bytes are rejoined.**
Nowhere in it is there one if no two ESC stand side by side. -/
theorem left_of_strip (bytes : List UInt8) :
    ∃ parts, pattern.Parted bytes parts ∧ strip bytes = parts.filterMap Part.kept? ∧
      ((∃ x, pattern.Matches x ∧ x <:+: strip bytes) ↔ Rejoined parts) ∧
      (strip (strip bytes) = strip bytes ↔ ¬ Rejoined parts) ∧
      (¬ [esc, esc] <:+: bytes → ∀ x, pattern.Matches x → ¬ x <:+: strip bytes) := by
  obtain ⟨parts, hparts⟩ := exists_parted bytes
  have hleft := occurs_strip_iff hparts
  refine ⟨parts, hparts, strip_of_parted hparts, hleft, ?_, ?_⟩
  · rw [strip_eq_self_iff, occurs_eq_false_iff, ← hleft]
    simp
  · intro hpair x hx hinfix
    exact hpair (infix_of_rejoined hparts (hleft.1 ⟨x, hx, hinfix⟩))

/-- Of ESC, a reset and `[31m` a colour is left: the ESC began nothing, and the reset goes. -/
theorem colour_left_by_strip :
    let bytes := [0x1B, 0x1B, 0x5B, 0x6D, 0x5B, 0x33, 0x31, 0x6D]
    (∃ x, pattern.Matches x ∧ x <:+: strip bytes) ∧ strip (strip bytes) ≠ strip bytes := by
  intro bytes
  have hstrip : strip bytes = [0x1B, 0x5B, 0x33, 0x31, 0x6D] := by decide
  rw [hstrip]
  exact ⟨⟨[0x1B, 0x5B, 0x33, 0x31, 0x6D], by decide, List.infix_refl _⟩, by decide⟩

end StepRunner.Text.Escape
