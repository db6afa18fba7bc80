/-!
# Patterns of bytes

What a pattern finds in a text, by the rules of a search that backtracks: of two alternatives the
first one is preferred, of two repetitions the longer one, of two places the one further left, and
the search goes on from the end of what it has found.

* `Pattern.ends`          what may be left behind a match at the start of a text, preferred first
* `Pattern.Matches`       the texts that a pattern describes
* `mem_ends_iff`          the ends are those of these texts, all of them
* `Pattern.Parted`        a text parted into matches and the bytes outside of them
* `Parted.unique`         there is one such parting, at most
* `ends_many_seq`         a repetition that has to go on as long as it can
-/

namespace StepRunner.Text

/-- a pattern of bytes -/
inductive Pattern where
  /-- one byte of a class -/
  | one (accepts : UInt8 → Bool)
  /-- any number of bytes of a class, as many as there can be -/
  | many (accepts : UInt8 → Bool)
  | seq (first second : Pattern)
  /-- either of two, the first one by preference -/
  | alt (first second : Pattern)

namespace Pattern

/-! ## classes of bytes -/

def range (lo hi : UInt8) (b : UInt8) : Bool := lo ≤ b && b ≤ hi

def anyOf (bytes : List UInt8) (b : UInt8) : Bool := bytes.contains b

def noneOf (bytes : List UInt8) (b : UInt8) : Bool := !bytes.contains b

def byte (a : UInt8) : Pattern := .one fun b => b == a

/-! ## matches at the start of a text -/

/-- what is left behind some bytes of a class, the fewest bytes first -/
def endsOfMany (accepts : UInt8 → Bool) : List UInt8 → List (List UInt8)
  | [] => [[]]
  | b :: rest => if accepts b then endsOfMany accepts rest ++ [b :: rest] else [b :: rest]

/-- what may be left behind a match at the start of a text, preferred first -/
def ends : Pattern → List UInt8 → List (List UInt8)
  | .one _, [] => []
  | .one accepts, b :: rest => if accepts b then [rest] else []
  | .many accepts, s => endsOfMany accepts s
  | .seq p q, s => (p.ends s).flatMap q.ends
  | .alt p q, s => p.ends s ++ q.ends s

/-- the texts that a pattern describes -/
inductive Matches : Pattern → List UInt8 → Prop
  | one {accepts : UInt8 → Bool} {b : UInt8} (h : accepts b = true) : Matches (.one accepts) [b]
  | many {accepts : UInt8 → Bool} {x : List UInt8} (h : ∀ b ∈ x, accepts b = true) :
      Matches (.many accepts) x
  | seq {p q : Pattern} {x y : List UInt8} (hx : Matches p x) (hy : Matches q y) :
      Matches (.seq p q) (x ++ y)
  | altFirst {p q : Pattern} {x : List UInt8} (h : Matches p x) : Matches (.alt p q) x
  | altSecond {p q : Pattern} {x : List UInt8} (h : Matches q x) : Matches (.alt p q) x

theorem mem_endsOfMany_iff {accepts : UInt8 → Bool} {s rest : List UInt8} :
    rest ∈ endsOfMany accepts s ↔ ∃ x, (∀ b ∈ x, accepts b = true) ∧ s = x ++ rest := by
  induction s with
  | nil =>
    constructor
    · intro h
      exact ⟨[], by simp, by simpa [endsOfMany, eq_comm] using h⟩
    · rintro ⟨x, -, hx⟩
      simp [endsOfMany, (List.append_eq_nil_iff.1 hx.symm).2]
  | cons b s ih =>
    rw [endsOfMany]
    constructor
    · intro h
      by_cases hb : accepts b = true
      · rw [if_pos hb, List.mem_append, ih, List.mem_singleton] at h
        obtain ⟨x, hx, rfl⟩ | rfl := h
        · exact ⟨b :: x, List.forall_mem_cons.2 ⟨hb, hx⟩, rfl⟩
        · exact ⟨[], by simp, rfl⟩
      · rw [if_neg hb, List.mem_singleton] at h
        exact ⟨[], by simp, h.symm⟩
    · rintro ⟨x, hx, heq⟩
      cases x with
      | nil =>
        obtain rfl : b :: s = rest := heq
        split <;> simp
      | cons a x =>
        obtain ⟨rfl, rfl⟩ := List.cons.inj heq
        obtain ⟨ha, hx⟩ := List.forall_mem_cons.1 hx
        rw [if_pos ha, List.mem_append, ih]
        exact .inl ⟨x, hx, rfl⟩

/-- **The ends of a pattern are those of the texts that it describes.** -/
theorem mem_ends_iff {p : Pattern} {s rest : List UInt8} :
    rest ∈ p.ends s ↔ ∃ x, p.Matches x ∧ s = x ++ rest := by
  induction p generalizing s rest with
  | one accepts =>
    constructor
    · intro h
      cases s with
      | nil => cases h
      | cons b s =>
        rw [ends] at h
        split at h
        next hb =>
          rw [List.mem_singleton] at h
          exact ⟨[b], .one hb, by rw [h]; rfl⟩
        next => cases h
    · rintro ⟨x, hx, rfl⟩
      cases hx with
      | one hb => simp [ends, hb]
  | many accepts =>
    rw [ends, mem_endsOfMany_iff]
    constructor
    · rintro ⟨x, hx, rfl⟩
      exact ⟨x, .many hx, rfl⟩
    · rintro ⟨x, hx, rfl⟩
      cases hx with
      | many hx => exact ⟨x, hx, rfl⟩
  | seq p q ihp ihq =>
    rw [ends, List.mem_flatMap]
    constructor
    · rintro ⟨middle, hp, hq⟩
      obtain ⟨x, hx, rfl⟩ := ihp.1 hp
      obtain ⟨y, hy, rfl⟩ := ihq.1 hq
      exact ⟨x ++ y, .seq hx hy, (List.append_assoc x y rest).symm⟩
    · rintro ⟨z, hz, rfl⟩
      cases hz with
      | @seq _ _ x y hx hy =>
        rw [List.append_assoc]
        exact ⟨y ++ rest, ihp.2 ⟨x, hx, rfl⟩, ihq.2 ⟨y, hy, rfl⟩⟩
  | alt p q ihp ihq =>
    rw [ends, List.mem_append, ihp, ihq]
    constructor
    · rintro (⟨x, hx, hs⟩ | ⟨x, hx, hs⟩)
      · exact ⟨x, .altFirst hx, hs⟩
      · exact ⟨x, .altSecond hx, hs⟩
    · rintro ⟨x, hx, hs⟩
      cases hx with
      | altFirst hx => exact .inl ⟨x, hx, hs⟩
      | altSecond hx => exact .inr ⟨x, hx, hs⟩

theorem matches_iff {p : Pattern} {x : List UInt8} : p.Matches x ↔ [] ∈ p.ends x := by
  rw [mem_ends_iff]
  constructor
  · intro h
    exact ⟨x, h, (List.append_nil x).symm⟩
  · rintro ⟨y, hy, rfl⟩
    rwa [List.append_nil]

theorem head?_ends_eq_none_iff {p : Pattern} {s : List UInt8} :
    (p.ends s).head? = none ↔ ∀ x, p.Matches x → ¬ x <+: s := by
  rw [List.head?_eq_none_iff, List.eq_nil_iff_forall_not_mem]
  constructor
  · rintro h x hx ⟨rest, hs⟩
    exact h rest (mem_ends_iff.2 ⟨x, hx, hs.symm⟩)
  · intro h rest hmem
    obtain ⟨x, hx, hs⟩ := mem_ends_iff.1 hmem
    exact h x hx ⟨rest, hs.symm⟩

instance (p : Pattern) (x : List UInt8) : Decidable (p.Matches x) :=
  decidable_of_iff _ matches_iff.symm

/-! ## matches all over a text -/

/-- a part of a text: a byte outside the matches, or a match -/
inductive Part where
  | kept (b : UInt8)
  | found (bytes : List UInt8)
deriving DecidableEq, Repr

namespace Part

def bytes : Part → List UInt8
  | .kept b => [b]
  | .found bytes => bytes

def kept? : Part → Option UInt8
  | .kept b => some b
  | .found _ => none

end Part

/-- **A text parted at the matches of a pattern**: where there is one, the preferred one, and on from
its end; where there is none, one byte is kept, and on from the next. -/
inductive Parted (p : Pattern) : List UInt8 → List Part → Prop
  | nil : Parted p [] []
  | kept {b : UInt8} {rest : List UInt8} {parts : List Part} (h : p.ends (b :: rest) = [])
      (hrest : Parted p rest parts) : Parted p (b :: rest) (.kept b :: parts)
  | found {x rest : List UInt8} {parts : List Part} (hx : x ≠ [])
      (h : (p.ends (x ++ rest)).head? = some rest) (hrest : Parted p rest parts) :
      Parted p (x ++ rest) (.found x :: parts)

namespace Parted

variable {p : Pattern} {s : List UInt8} {parts : List Part}

theorem flatMap_bytes (h : p.Parted s parts) : parts.flatMap Part.bytes = s := by
  induction h with
  | nil => rfl
  | kept _ _ ih => rw [List.flatMap_cons, ih]; rfl
  | found _ _ _ ih => rw [List.flatMap_cons, ih]; rfl

/-- **There is one parting of a text, at most.** -/
theorem unique (h : p.Parted s parts) {others : List Part} (h' : p.Parted s others) :
    others = parts := by
  induction h generalizing others with
  | nil =>
    generalize hs : ([] : List UInt8) = s at h'
    cases h' with
    | nil => rfl
    | kept => cases hs
    | found hx => exact absurd (List.append_eq_nil_iff.1 hs.symm).1 hx
  | @kept b rest parts hnone _ ih =>
    generalize hs : b :: rest = s at h'
    cases h' with
    | nil => cases hs
    | kept _ hrest =>
      obtain ⟨rfl, rfl⟩ := List.cons.inj hs
      rw [ih hrest]
    | found _ hsome =>
      rw [← hs, hnone] at hsome
      cases hsome
  | @found x rest parts hx hsome _ ih =>
    generalize hs : x ++ rest = s at h'
    cases h' with
    | nil => exact absurd (List.append_eq_nil_iff.1 hs).1 hx
    | kept hnone =>
      rw [hs, hnone] at hsome
      cases hsome
    | @found x' rest' _ _ hsome' hrest =>
      obtain rfl : rest' = rest := by
        rw [hs, hsome'] at hsome
        exact Option.some.inj hsome
      rw [ih hrest, List.append_cancel_right hs]

theorem exists_parted (hp : ¬ p.Matches []) (s : List UInt8) : ∃ parts, p.Parted s parts := by
  generalize hlength : s.length = n
  induction n using Nat.strongRecOn generalizing s with
  | ind n ih =>
    cases s with
    | nil => exact ⟨[], .nil⟩
    | cons b s =>
      cases hends : p.ends (b :: s) with
      | nil =>
        obtain ⟨parts, hparts⟩ := ih s.length (by simp [← hlength]) s rfl
        exact ⟨.kept b :: parts, .kept hends hparts⟩
      | cons rest others =>
        have hmem : rest ∈ p.ends (b :: s) := by simp [hends]
        obtain ⟨x, hx, hs⟩ := mem_ends_iff.1 hmem
        have hne : x ≠ [] := by
          rintro rfl
          exact hp hx
        have hpos := List.length_pos_iff.2 hne
        have hlt : rest.length < n := by
          rw [← hlength, hs, List.length_append]
          omega
        obtain ⟨parts, hparts⟩ := ih rest.length hlt rest rfl
        rw [hs] at hends ⊢
        exact ⟨.found x :: parts, .found hne (by rw [hends]; rfl) hparts⟩

theorem of_append {front back : List Part} (h : p.Parted s (front ++ back)) :
    p.Parted (back.flatMap Part.bytes) back := by
  induction front generalizing s with
  | nil =>
    rw [List.nil_append] at h
    rwa [h.flatMap_bytes]
  | cons part front ih =>
    rw [List.cons_append] at h
    cases h with
    | kept _ hrest => exact ih hrest
    | found _ _ hrest => exact ih hrest

end Parted

/-! ## patterns with one end -/

theorem matches_byte_seq_iff {a : UInt8} {q : Pattern} {x : List UInt8} :
    ((byte a).seq q).Matches x ↔ ∃ y, q.Matches y ∧ x = a :: y := by
  constructor
  · intro h
    cases h with
    | seq hx hy =>
      cases hx with
      | one hb => exact ⟨_, hy, by rw [beq_iff_eq.1 hb]; rfl⟩
  · rintro ⟨y, hy, rfl⟩
    have hbyte : (byte a).Matches [a] := .one (beq_self_eq_true a)
    exact .seq hbyte hy

theorem ends_one_seq_cons (accepts : UInt8 → Bool) (q : Pattern) (b : UInt8) (s : List UInt8) :
    ((Pattern.one accepts).seq q).ends (b :: s) = if accepts b then q.ends s else [] := by
  simp only [ends]
  split <;> simp

theorem ends_byte_seq_cons (a : UInt8) (q : Pattern) (b : UInt8) (s : List UInt8) :
    ((byte a).seq q).ends (b :: s) = if b = a then q.ends s else [] := by
  rw [byte, ends_one_seq_cons]
  simp only [beq_iff_eq]

/-- **A repetition goes on as long as it can** where what follows it cannot begin with one of its
bytes. -/
theorem ends_many_seq {accepts : UInt8 → Bool} {q : Pattern}
    (h : ∀ b s, accepts b = true → q.ends (b :: s) = []) (s : List UInt8) :
    ((Pattern.many accepts).seq q).ends s = q.ends (s.dropWhile accepts) := by
  simp only [ends]
  induction s with
  | nil => simp [endsOfMany]
  | cons b s ih =>
    rw [endsOfMany, List.dropWhile_cons]
    split
    next hb => rw [List.flatMap_append, ih, List.flatMap_singleton, h b s hb, List.append_nil]
    next => rw [List.flatMap_singleton]

/-- a pattern that has one end at each place, at most -/
def Sole (p : Pattern) : Prop := ∀ s, (p.ends s).length ≤ 1

namespace Sole

theorem one (accepts : UInt8 → Bool) : Sole (.one accepts) := by
  intro s
  cases s with
  | nil => exact Nat.zero_le 1
  | cons b s =>
    rw [ends]
    split <;> simp

theorem seq {p q : Pattern} (hp : p.Sole) (hq : q.Sole) : Sole (p.seq q) := by
  intro s
  have hone := hp s
  rw [ends]
  match p.ends s, hone with
  | [], _ => exact Nat.zero_le 1
  | [rest], _ =>
    rw [List.flatMap_singleton]
    exact hq rest

theorem many_seq {accepts : UInt8 → Bool} {q : Pattern}
    (h : ∀ b s, accepts b = true → q.ends (b :: s) = []) (hq : q.Sole) :
    Sole ((Pattern.many accepts).seq q) := by
  intro s
  rw [ends_many_seq h]
  exact hq _

theorem alt {p q : Pattern} (h : ∀ s, p.ends s = [] ∨ q.ends s = []) (hp : p.Sole) (hq : q.Sole) :
    Sole (p.alt q) := by
  intro s
  rw [ends]
  obtain hnone | hnone := h s
  · rw [hnone, List.nil_append]
    exact hq s
  · rw [hnone, List.append_nil]
    exact hp s

theorem head?_ends_iff {p : Pattern} (hp : p.Sole) {s rest : List UInt8} :
    (p.ends s).head? = some rest ↔ ∃ x, p.Matches x ∧ s = x ++ rest := by
  rw [← mem_ends_iff]
  have hone := hp s
  match p.ends s, hone with
  | [], _ => simp
  | [other], _ => simp [eq_comm]

end Sole

end Pattern

end StepRunner.Text
