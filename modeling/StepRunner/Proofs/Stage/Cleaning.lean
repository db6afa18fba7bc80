import Mathlib.Data.List.Chain
import Mathlib.Data.List.DropRight
import StepRunner.Proofs.Pod.Spec
import StepRunner.Stage.Naming

/-!
# Cleaned names

What is left of a free name that is cleaned up, for a domain or for a label: only the characters
that may stand there, and none at an end that may not stand at an end.  For a domain no two dashes
are left side by side, whatever the lower case of a character is taken to be.

* `isPrefix_dropEnd`           trimming keeps a start of the text
* `isPrefix_dropEnd_append`    the longest that ends as it should
* `Dashed`                     words of letters and digits with one dash between them
* `Dashed.append_dash`         two of these with a dash between them
* `dnsSegment_cases`           a cleaned name is one of these, or empty
* `isLabelValue_labelValue`    a cleaned label value is one
* `labelValue_eq_self`         a label value is left as it is
* `labelValue_eq_empty_iff`    what nothing is left of
-/

namespace StepRunner

/-! ## trimming -/

theorem isPrefix_dropEnd (p : Char → Bool) (s : List Char) : dropEnd p s <+: s :=
  List.rdropWhile_prefix p s

theorem eq_false_of_mem_getLast?_dropEnd {p : Char → Bool} {s : List Char} {c : Char}
    (h : c ∈ (dropEnd p s).getLast?) : p c = false := by
  obtain ⟨hne, hc⟩ := List.mem_getLast?_eq_getLast h
  have hlast := List.rdropWhile_last_not p s hne
  rw [Bool.not_eq_true] at hlast
  exact hc ▸ hlast

/-- **Trimming keeps the longest start that ends as it should.** -/
theorem isPrefix_dropEnd_append {p : Char → Bool} {q : List Char}
    (hq : ∀ c ∈ q.getLast?, p c = false) (rest : List Char) : q <+: dropEnd p (q ++ rest) := by
  unfold dropEnd
  rw [List.reverse_append, List.dropWhile_append]
  split
  · cases hreverse : q.reverse with
    | nil => exact List.reverse_eq_nil_iff.1 hreverse ▸ List.nil_prefix
    | cons c front =>
      have hc : c ∈ q.getLast? := by
        rw [← List.head?_reverse, hreverse]
        exact rfl
      have hkept : ((c :: front).dropWhile p).reverse = q := by
        rw [List.dropWhile_cons_of_neg (by simp [hq c hc]), ← hreverse, List.reverse_reverse]
      exact hkept.symm ▸ List.prefix_rfl
  · rw [List.reverse_append, List.reverse_reverse]
    exact List.prefix_append _ _

theorem dropEnd_eq_self {p : Char → Bool} {s : List Char} (h : ∀ c ∈ s.getLast?, p c = false) :
    dropEnd p s = s := by
  have hstart := isPrefix_dropEnd_append h []
  rw [List.append_nil] at hstart
  exact (isPrefix_dropEnd p s).eq_of_length_le hstart.length_le

theorem dropEnd_cons (p : Char → Bool) (c : Char) (s : List Char) :
    dropEnd p (c :: s) = if dropEnd p s = [] ∧ p c = true then [] else c :: dropEnd p s := by
  unfold dropEnd
  rw [List.reverse_cons, List.dropWhile_append]
  cases s.reverse.dropWhile p with
  | nil => by_cases hc : p c = true <;> simp [hc]
  | cons d rest => simp

/-! ## words and dashes -/

/-- **Words of letters and digits with one dash between them**: a letter or digit at both ends, and
no two dashes side by side. -/
structure Dashed (s : List Char) : Prop where
  chars : ∀ c ∈ s, isDnsChar c = true ∨ c = '-'
  single : s.IsChain fun a b => a ≠ '-' ∨ b ≠ '-'
  first : s.head?.any isDnsChar = true
  last : s.getLast?.any isDnsChar = true

theorem ne_dash_of_isDnsChar {c : Char} (h : isDnsChar c = true) : c ≠ '-' := by
  rintro rfl
  exact absurd h (by decide)

namespace Dashed

variable {s t : List Char}

theorem ne_nil (h : Dashed s) : s ≠ [] := by
  rintro rfl
  exact absurd h.first (by decide)

theorem of_forall (hne : s ≠ []) (h : ∀ c ∈ s, isDnsChar c = true) : Dashed s where
  chars c hc := .inl (h c hc)
  single := by
    refine List.Pairwise.isChain (List.pairwise_of_forall_mem_list fun a ha b _ => ?_)
    exact .inl (ne_dash_of_isDnsChar (h a ha))
  first := by
    rw [List.head?_eq_some_head hne]
    exact h _ (List.head_mem hne)
  last := by
    rw [List.getLast?_eq_some_getLast hne]
    exact h _ (List.getLast_mem hne)

theorem of_dropEnd (hchars : ∀ c ∈ s, isDnsChar c = true ∨ c = '-')
    (hsingle : s.IsChain fun a b => a ≠ '-' ∨ b ≠ '-') (hfirst : ∀ c ∈ s.head?, c ≠ '-')
    (hne : dropEnd (· = '-') s ≠ []) : Dashed (dropEnd (· = '-') s) := by
  have hstart := isPrefix_dropEnd (· = '-') s
  have hletters (c) (hc : c ∈ dropEnd (· = '-') s) : isDnsChar c = true ∨ c = '-' :=
    hchars c (hstart.subset hc)
  refine ⟨hletters, hsingle.prefix hstart, ?_, ?_⟩
  · obtain ⟨rest, hrest⟩ := hstart
    rw [← hrest, List.head?_append_of_ne_nil _ hne, List.head?_eq_some_head hne] at hfirst
    rw [List.head?_eq_some_head hne]
    exact (hletters _ (List.head_mem hne)).resolve_right (hfirst _ rfl)
  · have hlast (c) (hc : c ∈ (dropEnd (· = '-') s).getLast?) : c ≠ '-' := by
      simpa using eq_false_of_mem_getLast?_dropEnd hc
    rw [List.getLast?_eq_some_getLast hne] at hlast ⊢
    exact (hletters _ (List.getLast_mem hne)).resolve_right (hlast _ rfl)

theorem dropEnd_take (h : Dashed s) {n : Nat} (hn : 0 < n) :
    Dashed (dropEnd (· = '-') (s.take n)) := by
  obtain ⟨c, rest, rfl⟩ := List.exists_cons_of_ne_nil h.ne_nil
  obtain ⟨n, rfl⟩ := Nat.exists_eq_add_one_of_ne_zero (Nat.ne_of_gt hn)
  have hc : c ≠ '-' := ne_dash_of_isDnsChar h.first
  refine of_dropEnd (fun b hb => h.chars b (List.mem_of_mem_take hb)) (h.single.take _) ?_ ?_
  · intro b hb
    obtain rfl : c = b := Option.some.inj hb
    exact hc
  · rw [List.take_succ_cons]
    have hkept : [c] <+: dropEnd (· = '-') ([c] ++ rest.take n) :=
      isPrefix_dropEnd_append (by simpa using hc) _
    intro hnil
    rw [List.singleton_append, hnil] at hkept
    cases List.prefix_nil.1 hkept

/-- **Words and dashes are put together with a dash between them.** -/
theorem append_dash (hs : Dashed s) (ht : Dashed t) : Dashed (s ++ '-' :: t) where
  chars c hc := by
    obtain hc | hc := List.mem_append.1 hc
    · exact hs.chars c hc
    · obtain rfl | hc := List.mem_cons.1 hc
      · exact .inr rfl
      · exact ht.chars c hc
  single := by
    refine List.isChain_append.2 ⟨hs.single, List.isChain_cons.2 ⟨fun c hc => ?_, ht.single⟩, ?_⟩
    · have hfirst := ht.first
      rw [Option.mem_def.1 hc] at hfirst
      exact .inr (ne_dash_of_isDnsChar hfirst)
    · intro c hc _ _
      have hlast := hs.last
      rw [Option.mem_def.1 hc] at hlast
      exact .inl (ne_dash_of_isDnsChar hlast)
  first := by
    rw [List.head?_append_of_ne_nil _ hs.ne_nil]
    exact hs.first
  last := by
    rw [List.getLast?_append_of_ne_nil _ (List.cons_ne_nil _ _),
      List.getLast?_cons_of_ne_nil ht.ne_nil]
    exact ht.last

end Dashed

/-! ## segments -/

theorem dnsChar_cases (c : Char) : isDnsChar (dnsChar c) = true ∨ dnsChar c = '-' := by
  unfold dnsChar
  split
  next h => exact .inl h
  next => exact .inr rfl

theorem collapse_sublist (afterDash : Bool) (s : List Char) : (collapse afterDash s).Sublist s := by
  induction s generalizing afterDash with
  | nil => exact .refl _
  | cons c s ih =>
    rw [collapse]
    split
    · split
      · exact (ih true).cons c
      · exact (ih true).cons_cons c
    · exact (ih false).cons_cons c

theorem isChain_collapse (afterDash : Bool) (s : List Char) :
    (collapse afterDash s).IsChain (fun a b => a ≠ '-' ∨ b ≠ '-') ∧
      (afterDash = true → ∀ c ∈ (collapse afterDash s).head?, c ≠ '-') := by
  induction s generalizing afterDash with
  | nil => exact ⟨.nil, fun _ c hc => by cases hc⟩
  | cons c s ih =>
    rw [collapse]
    split
    next hdash =>
      obtain ⟨hchain, hhead⟩ := ih true
      split
      next => exact ⟨hchain, fun _ => hhead rfl⟩
      next hafter =>
        refine ⟨List.isChain_cons.2 ⟨fun b hb => .inr (hhead rfl b hb), hchain⟩, ?_⟩
        exact fun h => absurd h hafter
    next hother =>
      refine ⟨List.isChain_cons.2 ⟨fun b _ => .inl hother, (ih false).1⟩, fun _ b hb => ?_⟩
      obtain rfl : c = b := Option.some.inj hb
      exact hother

/-- **A cleaned name is words with one dash between them**, or empty. -/
theorem dnsSegment_cases (lower : Char → List Char) (s : List Char) :
    dnsSegment lower s = [] ∨ Dashed (dnsSegment lower s) := by
  obtain ⟨hsingle, hfirst⟩ := isChain_collapse true ((s.flatMap lower).map dnsChar)
  refine or_iff_not_imp_left.2 (Dashed.of_dropEnd (fun c hc => ?_) hsingle (hfirst rfl))
  obtain ⟨a, -, rfl⟩ := List.mem_map.1 ((collapse_sublist _ _).subset hc)
  exact dnsChar_cases a

/-! ## label values -/

theorem isLabelChar_labelChar (c : Char) : isLabelChar (labelChar c) = true := by
  unfold labelChar
  split
  next h => exact h
  next => decide

theorem isLabelValue_labelValue (raw : String) : isLabelValue (labelValue raw) = true := by
  rw [isLabelValue_iff, labelValue, String.toList_ofList]
  generalize hmapped : (raw.toList.map labelChar).dropWhile (fun c => !isAlnum c) = mapped
  generalize hvalue : dropEnd (fun c => !isAlnum c)
    ((dropEnd (fun c => !isAlnum c) mapped).take maxLabelLength) = value
  have hcut : value <+: (dropEnd (fun c => !isAlnum c) mapped).take maxLabelLength :=
    hvalue ▸ isPrefix_dropEnd _ _
  have hstart : value <+: mapped :=
    hcut.trans ((List.take_prefix _ _).trans (isPrefix_dropEnd _ _))
  refine ⟨Nat.le_trans hcut.length_le (List.length_take_le _ _), fun c hc => ?_, fun c hc => ?_,
    fun c hc => ?_⟩
  · have hmem : c ∈ (raw.toList.map labelChar).dropWhile (fun c => !isAlnum c) :=
      hmapped ▸ hstart.subset hc
    obtain ⟨a, -, rfl⟩ := List.mem_map.1 ((List.dropWhile_sublist _).subset hmem)
    exact isLabelChar_labelChar a
  · have hstop := List.head?_dropWhile_not (fun c => !isAlnum c) (raw.toList.map labelChar)
    obtain ⟨rest, hrest⟩ := hstart
    rw [hmapped, ← hrest, List.head?_append, Option.mem_def.1 hc] at hstop
    simpa using hstop
  · rw [← hvalue] at hc
    simpa using eq_false_of_mem_getLast?_dropEnd hc

theorem isAlnum_labelChar (c : Char) : isAlnum (labelChar c) = isAlnum c := by
  unfold labelChar
  split
  next => rfl
  next h =>
    simp only [isLabelChar, Bool.or_eq_true, not_or, Bool.not_eq_true] at h
    rw [h.1.1.1]
    decide

theorem labelValue_eq_self {text : String} (h : isLabelValue text = true) :
    labelValue text = text := by
  obtain ⟨hfits, hchars, hfirst, hlast⟩ := isLabelValue_iff.1 h
  have hmapped : text.toList.map labelChar = text.toList :=
    (List.map_congr_left fun c hc => if_pos (hchars c hc)).trans (List.map_id' _)
  have hstart : text.toList.dropWhile (fun c => !isAlnum c) = text.toList := by
    refine List.dropWhile_eq_self_iff.2 fun hne => ?_
    have hc := hfirst _ (List.head?_eq_some_head (List.length_pos_iff.1 hne))
    rw [List.head_eq_getElem] at hc
    simp [hc]
  have hend : dropEnd (fun c => !isAlnum c) text.toList = text.toList :=
    dropEnd_eq_self fun c hc => by simp [hlast c hc]
  rw [labelValue, hmapped, hstart, hend, List.take_of_length_le hfits, hend, String.ofList_toList]

/-- **Nothing is left of a text without a letter or digit, and of no other**: trimming stops at the
first of them, and neither the cut nor the trimming behind it takes this one away. -/
theorem labelValue_eq_empty_iff {raw : String} :
    labelValue raw = "" ↔ ∀ c ∈ raw.toList, isAlnum c = false := by
  have hmapped : (∀ c ∈ raw.toList.map labelChar, isAlnum c = false) ↔
      ∀ c ∈ raw.toList, isAlnum c = false := by
    simp only [List.forall_mem_map, isAlnum_labelChar]
  rw [labelValue, ← hmapped, String.ofList_eq_empty_iff]
  cases hkept : (raw.toList.map labelChar).dropWhile (fun c => !isAlnum c) with
  | nil =>
    rw [List.dropWhile_eq_nil_iff] at hkept
    exact iff_of_true rfl fun c hc => by simpa using hkept c hc
  | cons first rest =>
    have hfirst : isAlnum first = true := by
      have hstop := List.head?_dropWhile_not (fun c => !isAlnum c) (raw.toList.map labelChar)
      rw [hkept] at hstop
      simpa using hstop
    have hmem : first ∈ raw.toList.map labelChar :=
      (List.dropWhile_sublist _).subset (hkept ▸ List.mem_cons_self)
    have hstays (s : List Char) : dropEnd (fun c => !isAlnum c) (first :: s) =
        first :: dropEnd (fun c => !isAlnum c) s := by
      rw [dropEnd_cons, if_neg (by simp [hfirst])]
    rw [hstays, maxLabelLength, List.take_succ_cons, hstays]
    refine iff_of_false (List.cons_ne_nil _ _) fun hnone => ?_
    rw [hnone first hmem] at hfirst
    cases hfirst

/-- **Cleaning up brings every text to a label value and leaves label values as they are**, so these
are all that it comes to, and cleaning up twice is cleaning up once. -/
theorem labelValue_retracts (text : String) :
    isLabelValue (labelValue text) = true ∧
      (isLabelValue text = true ↔ labelValue text = text) ∧
      labelValue (labelValue text) = labelValue text ∧
      ((∃ raw, labelValue raw = text) ↔ isLabelValue text = true) ∧
      (labelValue text = "" ↔ ∀ c ∈ text.toList, isAlnum c = false) := by
  have hvalid (raw : String) : isLabelValue (labelValue raw) = true := isLabelValue_labelValue raw
  refine ⟨hvalid text, ⟨labelValue_eq_self, fun h => ?_⟩, labelValue_eq_self (hvalid text),
    ⟨?_, fun h => ⟨text, labelValue_eq_self h⟩⟩, labelValue_eq_empty_iff⟩
  · rw [← h]
    exact hvalid text
  · rintro ⟨raw, rfl⟩
    exact hvalid raw

end StepRunner
