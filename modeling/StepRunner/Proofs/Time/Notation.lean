import Mathlib.Algebra.Group.Nat.Defs
import Mathlib.Data.List.TakeWhile
import StepRunner.Time.Instant

/-!
# Instants read back

The one plain form that an instant is written in is read as that instant again: for every year that
a date can carry, every fraction, and leap seconds too.

* `number?_append`         a number is read up to its width, or up to the first other character
* `year?_yearText`         a year of four digits, or one with a sign
* `fraction?_fractionText` a fraction of 0, 3, 6 or 9 digits
* `Instant.WellFormed`     what makes three numbers an instant
* `parse?_render`          an instant is read from what it writes
-/

namespace StepRunner.Instant

/-! ## numbers -/

theorem toList_padded (width n : Nat) :
    (padded width n).toList =
      List.replicate (width - (Nat.toDigits 10 n).length) '0' ++ Nat.toDigits 10 n :=
  String.toList_ofList

theorem isDigit_of_mem_padded {width n : Nat} {c : Char} (h : c ∈ (padded width n).toList) :
    c.isDigit = true := by
  rw [toList_padded] at h
  obtain h | h := List.mem_append.1 h
  · obtain rfl := List.eq_of_mem_replicate h
    rfl
  · exact Nat.isDigit_of_mem_toDigits (by decide) (by decide) h

theorem padded_ne_nil (width n : Nat) : (padded width n).toList ≠ [] := by
  rw [toList_padded]
  exact List.append_ne_nil_of_right_ne_nil _ Nat.toDigits_ne_nil

theorem digitsValue_padded (width n : Nat) : digitsValue (padded width n).toList = n := by
  show Nat.ofDigitChars 10 _ 0 = n
  rw [toList_padded, Nat.ofDigitChars_append, Nat.ofDigitChars_replicate_zero, Nat.mul_zero,
    Nat.ofDigitChars_ten_toDigits]

theorem length_padded {width n : Nat} (hwidth : 0 < width) (h : n < 10 ^ width) :
    (padded width n).toList.length = width := by
  have hlength := (Nat.length_toDigits_le_iff (by decide) hwidth).2 h
  rw [toList_padded, List.length_append, List.length_replicate]
  omega

/-- text that does not go on with a digit -/
def Ends (rest : List Char) : Prop := ∀ c ∈ rest.head?, c.isDigit = false

theorem ends_cons {c : Char} {rest : List Char} (h : c.isDigit = false) : Ends (c :: rest) := by
  rintro _ ⟨⟩
  exact h

theorem takeWhile_of_ends {rest : List Char} (h : Ends rest) (width : Nat) :
    (rest.take width).takeWhile Char.isDigit = [] := by
  obtain _ | ⟨c, rest⟩ := rest
  · rw [List.take_nil]
    rfl
  · obtain _ | width := width
    · rfl
    · rw [List.take_succ_cons, List.takeWhile_cons_of_neg (by simp [h c rfl])]

theorem number?_append {width : Nat} {digits rest : List Char}
    (hdigits : ∀ c ∈ digits, c.isDigit = true) (hsome : digits ≠ [])
    (hwidth : digits.length ≤ width) (hends : digits.length = width ∨ Ends rest) :
    number? width (digits ++ rest) = some (digitsValue digits, rest) := by
  have hrest : (rest.take (width - digits.length)).takeWhile Char.isDigit = [] := by
    obtain hfull | hends := hends
    · rw [hfull, Nat.sub_self]
      rfl
    · exact takeWhile_of_ends hends _
  have hread : ((digits ++ rest).take width).takeWhile Char.isDigit = digits := by
    rw [List.take_append, List.take_of_length_le hwidth, List.takeWhile_append_of_pos hdigits,
      hrest, List.append_nil]
  unfold number?
  simp only [hread, List.isEmpty_eq_false_iff.2 hsome, List.drop_left, Bool.false_eq_true,
    if_false]

theorem number?_padded {width n : Nat} (hwidth : 0 < width) (h : n < 10 ^ width)
    (rest : List Char) :
    number? width ((padded width n).toList ++ rest) = some (n, rest) := by
  have hlength := length_padded hwidth h
  rw [number?_append (fun _ => isDigit_of_mem_padded) (padded_ne_nil width n) hlength.le
    (.inl hlength), digitsValue_padded]

/-! ## blanks -/

theorem skipBlanks_cons {c : Char} (h : isBlank c = false) (rest : List Char) :
    skipBlanks (c :: rest) = c :: rest :=
  List.dropWhile_cons_of_neg (by simp [h])

theorem isBlank_of_isDigit {c : Char} (h : c.isDigit = true) : isBlank c = false := by
  simp only [Char.isDigit, Bool.and_eq_true, decide_eq_true_eq, UInt32.le_iff_toNat_le] at h
  have hlow : 48 ≤ c.toNat := h.1
  have hhigh : c.toNat ≤ 57 := h.2
  simp only [isBlank, Bool.or_eq_false_iff, Bool.and_eq_false_iff, decide_eq_false_iff_not]
  omega

theorem skipBlanks_padded (width n : Nat) (rest : List Char) :
    skipBlanks ((padded width n).toList ++ rest) = (padded width n).toList ++ rest := by
  obtain ⟨c, digits, hdigits⟩ := List.exists_cons_of_ne_nil (padded_ne_nil width n)
  have hc : c.isDigit = true := isDigit_of_mem_padded (hdigits ▸ List.mem_cons_self)
  rw [hdigits]
  exact skipBlanks_cons (isBlank_of_isDigit hc) _

theorem field?_padded {n : Nat} (h : n < 100) (rest : List Char) :
    field? 2 ((padded 2 n).toList ++ rest) = some (n, rest) := by
  rw [field?, skipBlanks_padded]
  exact number?_padded (by decide) h rest

theorem separator?_cons {c : Char} (h : isBlank c = false) (rest : List Char) :
    separator? c (c :: rest) = some rest := by
  rw [separator?, skipBlanks_cons h]
  exact if_pos rfl

/-! ## years -/

theorem year?_yearText (year : Int) {rest : List Char} (hends : Ends rest) :
    year? ((yearText year).toList ++ rest) = some (year, rest) := by
  have hall (n : Nat) :
      number? ((padded 4 n).toList ++ rest).length ((padded 4 n).toList ++ rest) =
        some (n, rest) := by
    have hwidth : (padded 4 n).toList.length ≤ ((padded 4 n).toList ++ rest).length := by
      rw [List.length_append]
      omega
    rw [number?_append (fun _ => isDigit_of_mem_padded) (padded_ne_nil 4 n) hwidth (.inr hends),
      digitsValue_padded]
  unfold yearText
  split
  next hplain =>
    simp only [Bool.and_eq_true, decide_eq_true_eq] at hplain
    have hfits : year.toNat < 10 ^ 4 := by omega
    have hread := number?_padded (by decide) hfits rest
    obtain ⟨c, digits, hdigits⟩ := List.exists_cons_of_ne_nil (padded_ne_nil 4 year.toNat)
    have hc : c.isDigit = true := isDigit_of_mem_padded (hdigits ▸ List.mem_cons_self)
    rw [year?, skipBlanks_padded]
    split
    next hsign =>
      rw [hdigits] at hsign
      cases hsign
      cases hc
    next hsign =>
      rw [hdigits] at hsign
      cases hsign
      cases hc
    next =>
      rw [hread]
      exact congrArg (fun y => some (y, rest)) (by omega)
  next hsigned =>
    by_cases hneg : year < 0
    · rw [if_pos hneg, String.toList_append]
      show year? ('-' :: ((padded 4 year.natAbs).toList ++ rest)) = _
      rw [year?, skipBlanks_cons (by decide)]
      simp only [hall, Option.map_some]
      exact congrArg (fun y => some (y, rest)) (by omega)
    · rw [if_neg hneg, String.toList_append]
      show year? ('+' :: ((padded 4 year.natAbs).toList ++ rest)) = _
      rw [year?, skipBlanks_cons (by decide)]
      simp only [hall, Option.map_some]
      exact congrArg (fun y => some (y, rest)) (by omega)

/-! ## fractions -/

theorem fraction?_padded {width n : Nat} (hwidth : 0 < width) (hmost : width ≤ 9)
    (h : n < 10 ^ width) {rest : List Char} (hends : Ends rest) :
    fraction? ('.' :: ((padded width n).toList ++ rest)) = some (n * 10 ^ (9 - width), rest) := by
  have hlength := length_padded hwidth h
  have hread : number? 9 ((padded width n).toList ++ rest) = some (n, rest) := by
    rw [number?_append (fun _ => isDigit_of_mem_padded) (padded_ne_nil width n)
      (by omega) (.inr hends), digitsValue_padded]
  have hafter : rest.dropWhile Char.isDigit = rest := by
    obtain _ | ⟨c, rest⟩ := rest
    · rfl
    · exact List.dropWhile_cons_of_neg (by simp [hends c rfl])
  simp only [fraction?, hread, hafter, List.length_append, hlength, Nat.add_sub_cancel]
  rfl

theorem fraction?_fractionText {nano : Nat} (h : nano < 1000000000) {rest : List Char}
    (hends : Ends rest) (hpoint : '.' ∉ rest.head?) :
    fraction? ((fractionText nano).toList ++ rest) = some (nano, rest) := by
  have hread {width n : Nat} (hwidth : 0 < width) (hmost : width ≤ 9) (hfits : n < 10 ^ width)
      (hn : n * 10 ^ (9 - width) = nano) :
      fraction? (("." ++ padded width n).toList ++ rest) = some (nano, rest) := by
    rw [String.toList_append]
    show fraction? ('.' :: ((padded width n).toList ++ rest)) = _
    rw [fraction?_padded hwidth hmost hfits hends, hn]
  unfold fractionText
  split
  next hzero =>
    subst hzero
    show fraction? rest = _
    unfold fraction?
    split
    next => exact absurd rfl hpoint
    next => rfl
  split
  next => exact hread (by decide) (by decide) (by omega) (by omega)
  split
  next => exact hread (by decide) (by decide) (by omega) (by omega)
  next => exact hread (by decide) (by decide) (by omega) (by omega)

/-! ## instants -/

/-- A day of the calendar, a second of that day and a fraction.  A fraction from a whole second on
is the leap second that follows the last second of a minute. -/
structure WellFormed (t : Instant) : Prop where
  year : Date.inRange t.date.year = true
  month : 1 ≤ t.date.month ∧ t.date.month ≤ 12
  day : 1 ≤ t.date.day ∧ t.date.day ≤ Date.daysIn t.date.year t.date.month
  second : t.second < 86400
  nano : t.nano < 1000000000 ∨ t.second % 60 = 59 ∧ t.nano < 2000000000

theorem WellFormed.date {t : Instant} (h : t.WellFormed) :
    Date.of? t.date.year t.date.month t.date.day = some t.date := by
  rw [Date.of?, if_pos]
  simp only [h.year, h.month, h.day, decide_true, Bool.and_self]

theorem daysIn_le (year : Int) (month : Nat) : Date.daysIn year month ≤ 31 := by
  unfold Date.daysIn
  split_ifs <;> omega

theorem WellFormed.ofLocal? {t : Instant} (h : t.WellFormed) :
    ofLocal? t.date t.second t.nano 0 = some t := by
  have hsecond := h.second
  have hearly : ¬((t.second : Int) - 0 < 0) := by omega
  have hlate : ¬(86400 ≤ (t.second : Int) - 0) := by omega
  simp only [Instant.ofLocal?, if_neg hearly, if_neg hlate, h.year, if_true]
  rw [if_neg (by decide), Int.sub_zero, Int.toNat_natCast]

theorem bind_eq_of_eq {α β : Type} {x : Option α} {a : α} (h : x = some a) {f : α → Option β} :
    (x >>= f) = f a := by
  rw [h]
  rfl

theorem parse?_eq {text : String} {year : Int} {month day hour minute second nano : Nat}
    (htext : text.toList = (yearText year).toList ++ '-' :: ((padded 2 month).toList ++
      '-' :: ((padded 2 day).toList ++ 'T' :: ((padded 2 hour).toList ++
      ':' :: ((padded 2 minute).toList ++ ':' :: ((padded 2 second).toList ++
      ((fractionText nano).toList ++ ['Z'])))))))
    (hmonth : month ≤ 12) (hday : day ≤ 31) (hhour : hour < 24) (hminute : minute < 60)
    (hsecond : second ≤ 60) (hnano : nano < 1000000000) :
    parse? text = (Date.of? year month day).bind fun date =>
      if second = 60 then ofLocal? date (hour * 3600 + minute * 60 + 59) (nano + 1000000000) 0
      else ofLocal? date (hour * 3600 + minute * 60 + second) nano 0 := by
  have hyear (rest : List Char) :
      year? ((yearText year).toList ++ '-' :: rest) = some (year, '-' :: rest) :=
    year?_yearText year (ends_cons rfl)
  have hfraction : fraction? ((fractionText nano).toList ++ ['Z']) = some (nano, ['Z']) :=
    fraction?_fractionText hnano (ends_cons rfl) (by decide)
  have hzone : zone? (skipBlanks ['Z']) = some (0, []) := by decide
  have hrange : (!(skipBlanks []).isEmpty || decide (24 ≤ hour) || decide (60 ≤ minute) ||
      decide (61 ≤ second)) = false := by
    simp only [Bool.or_eq_false_iff, decide_eq_false_iff_not]
    exact ⟨⟨⟨rfl, by omega⟩, by omega⟩, by omega⟩
  have hdash (rest : List Char) : separator? '-' ('-' :: rest) = some rest :=
    separator?_cons (by decide) rest
  have hcolon (rest : List Char) : separator? ':' (':' :: rest) = some rest :=
    separator?_cons (by decide) rest
  have hfield {n : Nat} (h : n ≤ 60) (rest : List Char) :
      field? 2 ((padded 2 n).toList ++ rest) = some (n, rest) :=
    field?_padded (by omega) rest
  unfold parse?
  rw [htext]
  -- part after part, so that what follows a part is opened only when its value is known
  refine (bind_eq_of_eq (hyear _)).trans ?_
  refine (bind_eq_of_eq (hdash _)).trans ?_
  refine (bind_eq_of_eq (hfield (by omega) _)).trans ?_
  refine (bind_eq_of_eq (hdash _)).trans ?_
  refine (bind_eq_of_eq (hfield (by omega) _)).trans ?_
  refine (bind_eq_of_eq rfl).trans ?_
  refine (bind_eq_of_eq (hfield (by omega) _)).trans ?_
  refine (bind_eq_of_eq (hcolon _)).trans ?_
  refine (bind_eq_of_eq (hfield hminute.le _)).trans ?_
  refine (bind_eq_of_eq (hcolon _)).trans ?_
  refine (bind_eq_of_eq (hfield hsecond _)).trans ?_
  refine (bind_eq_of_eq hfraction).trans ?_
  refine (bind_eq_of_eq hzone).trans ?_
  refine congrArg (Option.bind _) (funext fun date => ?_)
  exact if_neg (by rw [hrange]; exact Bool.false_ne_true)

/-- **An instant is read from what it writes.** -/
theorem parse?_render {t : Instant} (h : t.WellFormed) : parse? t.render = some t := by
  have hsecond := h.second
  have hday : t.date.day ≤ 31 := Nat.le_trans h.day.2 (daysIn_le _ _)
  have hparts (a b c d e f g : String) :
      (a ++ "-" ++ b ++ "-" ++ c ++ "T" ++ d ++ ":" ++ e ++ ":" ++ f ++ g ++ "Z").toList =
        a.toList ++ '-' :: (b.toList ++ '-' :: (c.toList ++ 'T' :: (d.toList ++
          ':' :: (e.toList ++ ':' :: (f.toList ++ (g.toList ++ ['Z'])))))) := by
    simp
  by_cases hleap : 1000000000 ≤ t.nano
  · -- a leap second is written as second 60 and comes back as second 59
    obtain ⟨hlast, hnano⟩ : t.second % 60 = 59 ∧ t.nano < 2000000000 :=
      h.nano.resolve_left (by omega)
    have hclock : t.second / 3600 * 3600 + t.second / 60 % 60 * 60 + 59 = t.second := by omega
    unfold render
    simp only [hleap, if_true, hlast]
    rw [parse?_eq (hparts ..) h.month.2 hday (by omega) (by omega) (by omega) (by omega), h.date,
      Option.bind_some, if_pos rfl, hclock, Nat.sub_add_cancel hleap]
    exact h.ofLocal?
  · have hclock : t.second / 3600 * 3600 + t.second / 60 % 60 * 60 + t.second % 60 = t.second := by
      omega
    unfold render
    simp only [hleap, if_false, Nat.add_zero]
    rw [parse?_eq (hparts ..) h.month.2 hday (by omega) (by omega) (by omega) (by omega), h.date,
      Option.bind_some, if_neg (by omega), hclock]
    exact h.ofLocal?

end StepRunner.Instant
