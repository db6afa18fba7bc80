import Mathlib.Data.Nat.Digits.Defs
import StepRunner.Proofs.Stage.Cleaning
import StepRunner.Proofs.Text.Characters

/-!
# Names of pods

A pod name is what can be read of stage and step, cut where there is no room for it, then a hash of
both and the number of the build.  Every part is words with one dash between them, and so is the
whole.  The number has no dash and the hash always has the same length, so both are read back from
the end, whatever stands before them.

* `HexDigest`                what a hash is relied on for
* `podStem_cases`            the words of a stem
* `Cut`                      the longest start that there is room for
* `exists_cut`               a name is such a start, a hash and a number
* `label_of_podName`         a name is one part of a domain
* `eq_of_podNameOf`          hash and build are read back from a name
* `eq_of_podName`            another build or another hash is another name
-/

namespace StepRunner

/-! ## the end of a name -/

def isHexDigit (c : Char) : Bool := ('0' ≤ c && c ≤ '9') || ('a' ≤ c && c ≤ 'f')

/-- what a hash is relied on for: lower-case hexadecimal digits, and enough of them for a name -/
def HexDigest (digest : List UInt8 → List Char) : Prop :=
  ∀ bytes, hashDigits ≤ (digest bytes).length ∧ ∀ c ∈ digest bytes, isHexDigit c = true

theorem isHexDigit_digit (n : Fin 16) : isHexDigit (Hash.Blake3.digit n) = true := by
  revert n
  decide

theorem length_hexOf (bytes : List UInt8) :
    (Hash.Blake3.hexOf bytes).length = 2 * bytes.length := by
  induction bytes with
  | nil => rfl
  | cons b bytes ih =>
    rw [Hash.Blake3.hexOf, List.flatMap_cons, List.length_append]
    show 2 + (Hash.Blake3.hexOf bytes).length = _
    rw [ih, List.length_cons]
    omega

theorem hexDigest_hex : HexDigest Hash.Blake3.hex := by
  intro bytes
  constructor
  · rw [Hash.Blake3.hex, length_hexOf, Hash.Blake3.hash, List.length_flatMap]
    simp [Hash.Blake3.bytesOf, hashDigits, List.map_const']
  · intro c hc
    obtain ⟨b, -, hc⟩ := List.mem_flatMap.1 hc
    simp only [List.mem_cons, List.not_mem_nil, or_false] at hc
    obtain rfl | rfl := hc <;> exact isHexDigit_digit _

theorem isDnsChar_of_isHexDigit {c : Char} (h : isHexDigit c = true) : isDnsChar c = true := by
  simp only [isHexDigit, isDnsChar, Bool.or_eq_true, Bool.and_eq_true, decide_eq_true_eq] at h ⊢
  obtain h | ⟨hlo, hhi⟩ := h
  · exact .inr h
  · exact .inl ⟨hlo, Char.le_trans hhi (by decide)⟩

theorem isDnsChar_of_mem_toDigits {n : Nat} {c : Char} (h : c ∈ Nat.toDigits 10 n) :
    isDnsChar c = true := by
  have hdigit := Nat.isDigit_of_mem_toDigits (by decide) (by decide) h
  rw [Char.isDigit_iff_toNat] at hdigit
  rw [isDnsChar, Bool.or_eq_true]
  exact .inr (by simpa [Char.le_def, UInt32.le_iff_toNat_le] using hdigit)

theorem length_nameHashBy {digest : List UInt8 → List Char} (h : HexDigest digest)
    (stage step : String) : (nameHashBy digest stage step).length = hashDigits :=
  List.length_take_of_le (h _).1

theorem dash_not_mem_toDigits (n : Nat) : '-' ∉ Nat.toDigits 10 n :=
  fun h => ne_dash_of_isDnsChar (isDnsChar_of_mem_toDigits h) rfl

theorem length_toDigits_le (build : UInt64) : (Nat.toDigits 10 build.toNat).length ≤ 20 :=
  Nat.toDigits_length 10 _ 20 (by decide) (Nat.lt_trans build.toNat_lt (by decide))

theorem podTail_eq (hash : List Char) (build : UInt64) :
    podTail hash build = hash ++ '-' :: (toString build.toNat).toList := by
  rw [podTail, Nat.toString_eq_ofList_toDigits, String.toList_ofList]

theorem length_podTail_le {hash : List Char} (h : hash.length = hashDigits) (build : UInt64) :
    (podTail hash build).length ≤ 27 := by
  have hdigits := length_toDigits_le build
  rw [podTail, List.length_append, List.length_cons, h, hashDigits]
  omega

theorem dashed_podTail {digest : List UInt8 → List Char} (h : HexDigest digest)
    (stage step : String) (build : UInt64) :
    Dashed (podTail (nameHashBy digest stage step) build) := by
  have hlength := length_nameHashBy h stage step
  have hhash : Dashed (nameHashBy digest stage step) := by
    refine .of_forall (fun hnil => ?_) fun c hc => ?_
    · rw [hnil] at hlength
      cases hlength
    · exact isDnsChar_of_isHexDigit ((h _).2 c (List.mem_of_mem_take hc))
  exact hhash.append_dash (.of_forall Nat.toDigits_ne_nil fun c hc => isDnsChar_of_mem_toDigits hc)

/-! ## what can be read -/

/-- the segments that are not empty, with a dash between them -/
def joined (segments : List (List Char)) : List Char :=
  ['-'].intercalate (segments.filter (!·.isEmpty))

theorem podStem_cases {segments : List (List Char)} (h : ∀ s ∈ segments, s = [] ∨ Dashed s) :
    (segments.filter (!·.isEmpty) = [] ∧ podStem segments = []) ∨
      (Dashed (joined segments) ∧ podStem segments = joined segments ++ ['-']) := by
  induction segments with
  | nil => exact .inl ⟨rfl, rfl⟩
  | cons s segments ih =>
    obtain ⟨hs, hsegments⟩ := List.forall_mem_cons.1 h
    have hstem : podStem (s :: segments) = podStem [s] ++ podStem segments := by
      simp [podStem]
    obtain rfl | hs := hs
    · exact ih hsegments
    · have hfilter : (s :: segments).filter (!·.isEmpty) = s :: segments.filter (!·.isEmpty) :=
        List.filter_cons_of_pos (by simpa using hs.ne_nil)
      have hfirst : podStem [s] = s ++ ['-'] := by
        simp [podStem, hs.ne_nil]
      refine .inr ?_
      rw [joined, hfilter, hstem, hfirst]
      obtain ⟨hnone, hrest⟩ | ⟨hrest, hjoined⟩ := ih hsegments
      · rw [hnone, hrest, List.intercalate_singleton, List.append_nil]
        exact ⟨hs, rfl⟩
      · have hne : segments.filter (!·.isEmpty) ≠ [] := by
          intro hnil
          exact hrest.ne_nil (by rw [joined, hnil]; rfl)
        have hcons : ['-'].intercalate (s :: segments.filter (!·.isEmpty)) =
            s ++ '-' :: joined segments := by
          rw [List.intercalate_cons_of_ne_nil hne, List.append_assoc]
          rfl
        rw [hcons, hjoined]
        exact ⟨hs.append_dash hrest, by simp⟩

/-- **The longest start that there is room for** and that does not end in a dash: all of the text
where it fits, and else what is left when it is cut. -/
structure Cut (room : Nat) (s p : List Char) : Prop where
  start : p <+: s
  fits : p.length ≤ room
  last : p.getLast? ≠ some '-'
  longest : ∀ q, q <+: s → q.length ≤ room → q.getLast? ≠ some '-' → q.length ≤ p.length

theorem cut_dropEnd (room : Nat) (s : List Char) :
    Cut room s (dropEnd (· = '-') (s.take room)) := by
  have hstart := isPrefix_dropEnd (· = '-') (s.take room)
  refine ⟨hstart.trans (List.take_prefix _ _),
    Nat.le_trans hstart.length_le (List.length_take_le _ _), fun h => ?_,
    fun q hq hfits hlast => ?_⟩
  · exact absurd (eq_false_of_mem_getLast?_dropEnd h) (by decide)
  · obtain ⟨rest, hrest⟩ := (List.prefix_take_iff.2 ⟨hq, hfits⟩)
    rw [← hrest]
    refine (isPrefix_dropEnd_append (fun c hc => ?_) rest).length_le
    rw [decide_eq_false_iff_not]
    rintro rfl
    exact hlast hc

theorem cutStem_append_dash {s : List Char} (hs : Dashed s) {room : Nat} :
    cutStem (room + 1) (s ++ ['-']) = dropEnd (· = '-') (s.take room) ++ ['-'] := by
  rw [cutStem, List.length_append, List.length_singleton, Nat.add_sub_cancel]
  split
  next hlong => rw [List.take_append_of_le_length (by omega)]
  next hshort =>
    rw [List.take_of_length_le (by omega), dropEnd_eq_self]
    intro c hc
    have hlast := hs.last
    rw [Option.mem_def.1 hc] at hlast
    simpa using ne_dash_of_isDnsChar hlast

/-- **A name is what there is room for of its segments, and its end.** -/
theorem exists_cut {segments : List (List Char)} (h : ∀ s ∈ segments, s = [] ∨ Dashed s)
    {hash : List Char} {build : UInt64} {room : Nat} (hroom : 0 < room)
    (hlength : room + 1 + (podTail hash build).length = maxLabelLength) :
    ∃ p, Cut room (joined segments) p ∧ (p = [] ∨ Dashed p) ∧
      (podNameOf segments hash build).toList =
        (if p = [] then [] else p ++ ['-']) ++ podTail hash build := by
  have hbudget : maxLabelLength - (podTail hash build).length = room + 1 := by omega
  refine ⟨dropEnd (· = '-') ((joined segments).take room), cut_dropEnd _ _, ?_⟩
  rw [podNameOf, String.toList_ofList, hbudget]
  obtain ⟨hnone, hstem⟩ | ⟨hjoined, hstem⟩ := podStem_cases h
  · have hempty : joined segments = [] := by
      rw [joined, hnone]
      rfl
    rw [hempty, hstem, List.take_nil]
    exact ⟨.inl rfl, rfl⟩
  · have hcut := hjoined.dropEnd_take hroom
    rw [hstem, cutStem_append_dash hjoined, if_neg hcut.ne_nil]
    exact ⟨.inr hcut, rfl⟩

/-! ## whole names -/

theorem toNat_lt_of_isDnsChar {c : Char} (h : isDnsChar c = true) : c.toNat < 0x80 := by
  simp only [isDnsChar, Bool.or_eq_true, Bool.and_eq_true, decide_eq_true_eq, Char.le_def,
    UInt32.le_iff_toNat_le] at h
  have hval : c.val.toNat = c.toNat := rfl
  have hz : 'z'.val.toNat = 122 := rfl
  have h9 : '9'.val.toNat = 57 := rfl
  omega

theorem Dashed.front_append {p ending : List Char} (hp : p = [] ∨ Dashed p)
    (hending : Dashed ending) :
    Dashed ((if p = [] then [] else p ++ ['-']) ++ ending) ∧
      ((if p = [] then [] else p ++ ['-']) ++ ending).length ≤ p.length + 1 + ending.length := by
  obtain rfl | hp := hp
  · exact ⟨hending, by simp⟩
  · rw [if_neg hp.ne_nil, List.append_assoc, List.singleton_append]
    refine ⟨hp.append_dash hending, ?_⟩
    rw [List.length_append, List.length_cons]
    omega

theorem Dashed.utf8ByteSize_eq {text : String} (h : Dashed text.toList) :
    text.utf8ByteSize = text.toList.length := by
  refine Text.Utf8.utf8ByteSize_of_ascii fun c hc => ?_
  obtain hc | rfl := h.chars c hc
  · exact toNat_lt_of_isDnsChar hc
  · decide

/-- **A pod name is one part of a domain**, whatever the lower case of a character: one to 63 bytes,
words of `a` to `z` and digits with one dash between them.  It ends with a hash of six digits and
the number of the build in full, and begins with what there is room for of the cleaned segments. -/
theorem label_of_podName (lower : Char → List Char) {digest : List UInt8 → List Char}
    (hdigest : HexDigest digest) (stage step : String) (build : UInt64) :
    let name := podNameBy lower digest stage step build
    let ending := nameHashBy digest stage step ++ '-' :: (toString build.toNat).toList
    (1 ≤ name.utf8ByteSize ∧ name.utf8ByteSize ≤ 63) ∧ Dashed name.toList ∧
      (nameHashBy digest stage step).length = 6 ∧
      ∃ p, Cut (63 - 1 - ending.length)
          (joined [dnsSegment lower stage.toList, dnsSegment lower step.toList]) p ∧
        name.toList = (if p = [] then [] else p ++ ['-']) ++ ending := by
  intro name ending
  have hending : podTail (nameHashBy digest stage step) build = ending := podTail_eq _ _
  have hhash := length_nameHashBy hdigest stage step
  have hshort := length_podTail_le hhash build
  have htail := dashed_podTail hdigest stage step build
  rw [hending] at hshort htail
  have hsegments : ∀ s ∈ [dnsSegment lower stage.toList, dnsSegment lower step.toList],
      s = [] ∨ Dashed s := by
    simp only [List.forall_mem_cons]
    exact ⟨dnsSegment_cases lower _, dnsSegment_cases lower _, by simp⟩
  have hlength : 63 - 1 - ending.length + 1 +
      (podTail (nameHashBy digest stage step) build).length = maxLabelLength := by
    rw [hending, maxLabelLength]
    omega
  obtain ⟨p, hcut, hp, hname⟩ := exists_cut hsegments (by omega) hlength
  rw [hending] at hname
  have hname : name.toList = (if p = [] then [] else p ++ ['-']) ++ ending := hname
  obtain ⟨hdashed, hsize⟩ := Dashed.front_append hp htail
  rw [← hname] at hdashed hsize
  have hfits := hcut.fits
  rw [hdashed.utf8ByteSize_eq]
  exact ⟨⟨List.length_pos_iff.2 hdashed.ne_nil, by omega⟩, hdashed, hhash, p, hcut, hname⟩

/-- letters outside ASCII beside a number with as many digits as there can be -/
theorem label_of_podName_of_umlauts :
    HexDigest Hash.Blake3.hex ∧
      let name := podName "Stäge" "Ünit" 18446744073709551615
      (1 ≤ name.utf8ByteSize ∧ name.utf8ByteSize ≤ 63) ∧ Dashed name.toList ∧
        (nameHash "Stäge" "Ünit").length = 6 ∧
        ∃ p, Cut 35 "st-ge-nit".toList p ∧ name.toList =
          (if p = [] then [] else p ++ ['-']) ++
            (nameHash "Stäge" "Ünit" ++ '-' :: "18446744073709551615".toList) := by
  refine ⟨hexDigest_hex, ?_⟩
  have hlabel := label_of_podName lowered hexDigest_hex "Stäge" "Ünit" 18446744073709551615
  have hnumber : toString (18446744073709551615 : UInt64).toNat = "18446744073709551615" := by
    decide
  have hjoined : joined [dnsSegment lowered "Stäge".toList, dnsSegment lowered "Ünit".toList] =
      "st-ge-nit".toList := by decide
  dsimp only at hlabel
  rw [hnumber, hjoined, List.length_append, hlabel.2.2.1] at hlabel
  exact hlabel

/-! ## reading a name back -/

theorem eq_of_append_dash {s t s' t' : List Char} (ht : '-' ∉ t) (ht' : '-' ∉ t')
    (h : s ++ '-' :: t = s' ++ '-' :: t') : s = s' ∧ t = t' := by
  have hnone {inner rest rest' : List Char} (hrest : '-' ∉ rest)
      (hinner : '-' :: rest = inner ++ '-' :: rest') : inner = [] := by
    cases inner with
    | nil => rfl
    | cons c inner =>
      refine absurd ?_ hrest
      rw [(List.cons.inj hinner).2]
      simp
  obtain ⟨inner, hs, hrest⟩ | ⟨inner, hs, hrest⟩ := List.append_eq_append_iff.1 h
  · obtain rfl := hnone ht hrest
    exact ⟨by rw [hs, List.append_nil], (List.cons.inj hrest).2⟩
  · obtain rfl := hnone ht' hrest
    exact ⟨by rw [hs, List.append_nil], (List.cons.inj hrest).2.symm⟩

/-- **Hash and build are read back from a name**, whatever stands before them. -/
theorem eq_of_podNameOf {segments segments' : List (List Char)} {hash hash' : List Char}
    {build build' : UInt64} (hlength : hash.length = hash'.length)
    (h : podNameOf segments hash build = podNameOf segments' hash' build') :
    build = build' ∧ hash = hash' := by
  have hlist := congrArg String.toList h
  simp only [podNameOf, String.toList_ofList, podTail, ← List.append_assoc] at hlist
  obtain ⟨hfront, hdigits⟩ :=
    eq_of_append_dash (dash_not_mem_toDigits _) (dash_not_mem_toDigits _) hlist
  have hnumber := congrArg (Nat.ofDigitChars 10 · 0) hdigits
  simp only [Nat.ofDigitChars_ten_toDigits] at hnumber
  exact ⟨UInt64.toNat_inj.1 hnumber, List.append_inj_right' hfront hlength⟩

/-- **Two names differ where the builds or the hashes do**, whatever is made of stage and step. -/
theorem eq_of_podName (lower : Char → List Char) {digest : List UInt8 → List Char}
    (hdigest : HexDigest digest) {stage step stage' step' : String} {build build' : UInt64}
    (h : podNameBy lower digest stage step build = podNameBy lower digest stage' step' build') :
    build = build' ∧ nameHashBy digest stage step = nameHashBy digest stage' step' := by
  refine eq_of_podNameOf ?_ h
  rw [length_nameHashBy hdigest, length_nameHashBy hdigest]

/-- two pairs of names that come to the same text, and to the same bytes for the hash -/
theorem eq_of_podName_of_zero :
    podName "a\x00b" "c" 7 = podName "a" "b\x00c" 7 ∧
      ((7 : UInt64) = 7 ∧ nameHash "a\x00b" "c" = nameHash "a" "b\x00c") := by
  have hkey : hashedKey "a\x00b" "c" = hashedKey "a" "b\x00c" := by decide
  have hstem : podStem [dnsSegment lowered "a\x00b".toList, dnsSegment lowered "c".toList] =
      podStem [dnsSegment lowered "a".toList, dnsSegment lowered "b\x00c".toList] := by decide
  have hname : podName "a\x00b" "c" 7 = podName "a" "b\x00c" 7 := by
    unfold podName podNameBy podNameOf nameHashBy
    rw [hkey, hstem]
  exact ⟨hname, eq_of_podName lowered hexDigest_hex hname⟩

end StepRunner
