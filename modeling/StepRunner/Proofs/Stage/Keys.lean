import StepRunner.Proofs.Stage.PodNames

/-!
# Keys of hashes

A hash is taken of the raw names of stage and step with a zero byte between them.  A name may have
zero bytes of its own, so the key says where all of them are, but not which one stands between the
names.  Two pairs of names have one key if and only if they are one pair, or a piece of one step's
name has moved to the stage's name.  In this case the pods have one name, too: a zero byte is
cleaned up to a dash, and a dash is what stands between the segments of a name.

* `hashedKey_eq_iff`         the pairs of names that have one key
* `dropEnd_collapse_append`  what is cleaned up before a dash and behind it
* `podStem_of_moved`         a piece that moves leaves the stem as it is
* `key_of_names`             one key is one pod
-/

namespace StepRunner

/-! ## the key as a text -/

theorem toList_append_zero (s t : String) :
    (s ++ "\x00" ++ t).toList = s.toList ++ '\x00' :: t.toList := by
  rw [String.toList_append, String.toList_append, List.append_assoc]
  rfl

theorem hashedKey_eq (stage step : String) :
    hashedKey stage step = Text.Utf8.encode (stage ++ "\x00" ++ step) := by
  have hzero : String.utf8EncodeChar '\x00' = [0] := by decide
  rw [hashedKey, Text.Utf8.encode_eq, Text.Utf8.encode_eq, Text.Utf8.encode_eq, toList_append_zero,
    Text.Utf8.bytesOf_append, Text.Utf8.bytesOf_cons, hzero, List.singleton_append]

/-- Two texts around a separator come to the same as two others if and only if they are these, or
the separators are two different ones and something stands between them. -/
theorem append_cons_eq_append_cons_iff {α : Type} {x : α} {s t s' t' : List α} :
    s ++ x :: t = s' ++ x :: t' ↔
      (s = s' ∧ t = t') ∨ (∃ inner, s' = s ++ x :: inner ∧ t = inner ++ x :: t') ∨
        ∃ inner, s = s' ++ x :: inner ∧ t' = inner ++ x :: t := by
  constructor
  · intro h
    obtain ⟨inner, hs, hrest⟩ | ⟨inner, hs, hrest⟩ := List.append_eq_append_iff.1 h
    · obtain ⟨rfl, ht⟩ | ⟨inner, rfl, ht⟩ := List.cons_eq_append_iff.1 hrest
      · exact .inl ⟨by rw [hs, List.append_nil], (List.cons.inj ht).2.symm⟩
      · exact .inr (.inl ⟨inner, hs, ht⟩)
    · obtain ⟨rfl, ht⟩ | ⟨inner, rfl, ht⟩ := List.cons_eq_append_iff.1 hrest
      · exact .inl ⟨by rw [hs, List.append_nil], (List.cons.inj ht).2⟩
      · exact .inr (.inr ⟨inner, hs, ht⟩)
  · rintro (⟨rfl, rfl⟩ | ⟨inner, rfl, rfl⟩ | ⟨inner, rfl, rfl⟩)
    · rfl
    · rw [List.append_assoc, List.cons_append]
    · rw [List.append_assoc, List.cons_append]

/-- a piece of the step's name, up to a zero, moves to the end of the stage's name -/
def Moved (stage step stage' step' : String) : Prop :=
  ∃ piece, stage' = stage ++ "\x00" ++ piece ∧ step = piece ++ "\x00" ++ step'

theorem moved_iff {stage step stage' step' : String} :
    Moved stage step stage' step' ↔ ∃ piece, stage'.toList = stage.toList ++ '\x00' :: piece ∧
      step.toList = piece ++ '\x00' :: step'.toList := by
  constructor
  · rintro ⟨piece, rfl, rfl⟩
    exact ⟨piece.toList, toList_append_zero _ _, toList_append_zero _ _⟩
  · rintro ⟨piece, hstage, hstep⟩
    refine ⟨String.ofList piece, String.toList_inj.1 ?_, String.toList_inj.1 ?_⟩
    · rw [toList_append_zero, String.toList_ofList, hstage]
    · rw [toList_append_zero, String.toList_ofList, hstep]

theorem hashedKey_eq_iff {stage step stage' step' : String} :
    hashedKey stage step = hashedKey stage' step' ↔
      (stage = stage' ∧ step = step') ∨
        Moved stage step stage' step' ∨ Moved stage' step' stage step := by
  rw [hashedKey_eq, hashedKey_eq, Text.Utf8.encode_injective.eq_iff, ← String.toList_inj,
    toList_append_zero, toList_append_zero, append_cons_eq_append_cons_iff, moved_iff, moved_iff,
    String.toList_inj, String.toList_inj]

theorem Moved.not_plain {stage step stage' step' : String} (h : Moved stage step stage' step') :
    ¬ (stage = stage' ∨ '\x00' ∉ stage.toList ∧ '\x00' ∉ stage'.toList) := by
  obtain ⟨piece, hstage, -⟩ := moved_iff.1 h
  rintro (rfl | ⟨-, hnone⟩)
  · have hlength := congrArg List.length hstage
    rw [List.length_append, List.length_cons] at hlength
    omega
  · rw [hstage] at hnone
    exact hnone (List.mem_append_right _ List.mem_cons_self)

/-! ## what is cleaned up before a dash and behind it -/

/-- A dash is kept if something is left on both sides of it.  The induction is on what stands before
the dash, so it is also about the part of a text that follows a dash. -/
theorem dropEnd_collapse_append (u v : List Char) (afterDash : Bool) :
    dropEnd (· = '-') (collapse afterDash (u ++ '-' :: v)) =
      let front := dropEnd (· = '-') (collapse afterDash u)
      let rest := dropEnd (· = '-') (collapse true v)
      if rest = [] then front
      else if front = [] then (if afterDash then rest else '-' :: rest)
      else front ++ '-' :: rest := by
  dsimp only
  generalize hrest : dropEnd (· = '-') (collapse true v) = rest
  induction u generalizing afterDash with
  | nil =>
    have hnil : dropEnd (· = '-') [] = [] := rfl
    rw [List.nil_append, collapse, collapse, if_pos rfl, hnil, if_pos rfl]
    cases afterDash with
    | true => simp [hrest]
    | false => simp [dropEnd_cons, hrest]
  | cons c u ih =>
    rw [List.cons_append, collapse, collapse]
    by_cases hdash : c = '-'
    · rw [if_pos hdash, if_pos hdash]
      cases afterDash with
      | true => exact ih true
      | false =>
        simp only [Bool.false_eq_true, if_false, dropEnd_cons, ih true, hdash]
        by_cases hempty : rest = [] <;>
          by_cases hnone : dropEnd (· = '-') (collapse true u) = [] <;> simp [hempty, hnone]
    · rw [if_neg hdash, if_neg hdash]
      simp only [dropEnd_cons, ih false, hdash]
      by_cases hempty : rest = [] <;>
        by_cases hnone : dropEnd (· = '-') (collapse false u) = [] <;> simp [hempty, hnone]

theorem joined_pair (s t : List Char) :
    joined [s, t] = if t = [] then s else if s = [] then t else s ++ '-' :: t := by
  cases s <;> cases t <;> simp [joined, List.intercalate, List.intersperse]

theorem dnsSegment_append_zero (s t : List Char) :
    dnsSegment lowered (s ++ '\x00' :: t) =
      joined [dnsSegment lowered s, dnsSegment lowered t] := by
  have hzero : (lowered '\x00').map dnsChar = ['-'] := by decide
  unfold dnsSegment
  rw [List.flatMap_append, List.flatMap_cons, List.map_append, List.map_append, hzero,
    List.singleton_append, dropEnd_collapse_append, joined_pair]
  rfl

/-! ## stems -/

theorem podStem_append (segments more : List (List Char)) :
    podStem (segments ++ more) = podStem segments ++ podStem more :=
  List.flatMap_append

theorem podStem_joined {segments : List (List Char)} (h : ∀ s ∈ segments, s = [] ∨ Dashed s) :
    podStem [joined segments] = podStem segments := by
  obtain ⟨hnone, hstem⟩ | ⟨hjoined, hstem⟩ := podStem_cases h
  · rw [hstem, joined, hnone]
    rfl
  · rw [hstem]
    simp [podStem, hjoined.ne_nil]

theorem podStem_dnsSegment_append_zero (s t : List Char) :
    podStem [dnsSegment lowered (s ++ '\x00' :: t)] =
      podStem [dnsSegment lowered s] ++ podStem [dnsSegment lowered t] := by
  rw [dnsSegment_append_zero, podStem_joined, ← podStem_append]
  · rfl
  · simp only [List.forall_mem_cons]
    exact ⟨dnsSegment_cases lowered s, dnsSegment_cases lowered t, by simp⟩

theorem podStem_of_moved {stage step stage' step' : String} (h : Moved stage step stage' step') :
    podStem [dnsSegment lowered stage.toList, dnsSegment lowered step.toList] =
      podStem [dnsSegment lowered stage'.toList, dnsSegment lowered step'.toList] := by
  have hpair (s t : List Char) : podStem [s, t] = podStem [s] ++ podStem [t] :=
    podStem_append [s] [t]
  obtain ⟨piece, hstage, hstep⟩ := moved_iff.1 h
  rw [hpair, hpair, hstage, hstep, podStem_dnsSegment_append_zero, podStem_dnsSegment_append_zero,
    List.append_assoc]

/-- **One key is one pod**, in every build and whatever the hash. -/
theorem podNameBy_of_hashedKey {stage step stage' step' : String}
    (h : hashedKey stage step = hashedKey stage' step') (digest : List UInt8 → List Char)
    (build : UInt64) : podNameBy lowered digest stage step build =
      podNameBy lowered digest stage' step' build := by
  have hstem : podStem [dnsSegment lowered stage.toList, dnsSegment lowered step.toList] =
      podStem [dnsSegment lowered stage'.toList, dnsSegment lowered step'.toList] := by
    obtain ⟨rfl, rfl⟩ | hmoved | hmoved := hashedKey_eq_iff.1 h
    · rfl
    · exact podStem_of_moved hmoved
    · exact (podStem_of_moved hmoved).symm
  unfold podNameBy podNameOf nameHashBy
  rw [h, hstem]

/-- **A key stands for a pair of names up to a piece that moves from one to the other.**  Within one
stage, and where the names of stages have no zero in them, it stands for one pair; and wherever two
pairs have one key, their pods have one name. -/
theorem key_of_names (stage step stage' step' : String) :
    (hashedKey stage step = hashedKey stage' step' ↔
        (stage = stage' ∧ step = step') ∨
          Moved stage step stage' step' ∨ Moved stage' step' stage step) ∧
      (stage = stage' ∨ '\x00' ∉ stage.toList ∧ '\x00' ∉ stage'.toList →
        hashedKey stage step = hashedKey stage' step' → stage = stage' ∧ step = step') ∧
      (hashedKey stage step = hashedKey stage' step' → ∀ digest build,
        podNameBy lowered digest stage step build =
          podNameBy lowered digest stage' step' build) := by
  refine ⟨hashedKey_eq_iff, fun hplain h => ?_, podNameBy_of_hashedKey⟩
  obtain hsame | hmoved | hmoved := hashedKey_eq_iff.1 h
  · exact hsame
  · exact absurd hplain hmoved.not_plain
  · exact absurd (hplain.imp Eq.symm And.symm) hmoved.not_plain

/-- two steps of a build that have one key, and so one pod -/
theorem key_of_names_with_zero :
    ("a\x00b", "c") ≠ ("a", "b\x00c") ∧ Moved "a" "b\x00c" "a\x00b" "c" ∧
      hashedKey "a\x00b" "c" = hashedKey "a" "b\x00c" ∧
        ∀ build, podName "a\x00b" "c" build = podName "a" "b\x00c" build := by
  have hmoved : Moved "a" "b\x00c" "a\x00b" "c" := ⟨"b", by decide, by decide⟩
  obtain ⟨hiff, -, hpods⟩ := key_of_names "a\x00b" "c" "a" "b\x00c"
  have hkey : hashedKey "a\x00b" "c" = hashedKey "a" "b\x00c" := hiff.2 (.inr (.inr hmoved))
  exact ⟨by decide, hmoved, hkey, hpods hkey Hash.Blake3.hex⟩

end StepRunner
