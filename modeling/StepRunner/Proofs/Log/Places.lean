import StepRunner.Proofs.Log.Frames

/-!
# A line read place by place

The next line once more, as a loop over places in a read and in the buffer: the place of a line
feed, that of the last carriage return, that from which a buffer is kept, that up to which there is
room.  A part of a list is taken between two places of it, and there is none where a place is out of
range.  This never happens: place by place the loop comes to what the plain definition does.

* `slice?`               the part of a list between two places
* `LineBuffer.takeAt?`   the line with the bytes of one read, place by place
* `LineBuffer.readAt?`   one read, up to the end of the line or of the read
* `walk?`                the next physical line, with the buffers on the way to it
* `pieces`               what each read brings of the line
* `walk?_eq`             the loop is the plain definition
-/

namespace StepRunner.Log

open Text (cr lf beq_eq_false_of_not_mem)

/-! ## places -/

/-- the part of a list between two places; none where a place is out of range -/
def slice? {α : Type} (l : List α) (start stop : Nat) : Option (List α) :=
  if start ≤ stop ∧ stop ≤ l.length then some ((l.take stop).drop start) else none

/-- the place before another one -/
def before? : Nat → Option Nat
  | 0 => none
  | n + 1 => some n

/-- the place of the last carriage return -/
def lastReturn? (l : List UInt8) : Option Nat :=
  (l.reverse.findIdx? (· == cr)).map fun i => l.length - 1 - i

theorem slice?_front {α : Type} (front rest : List α) :
    slice? (front ++ rest) 0 front.length = some front := by
  rw [slice?, if_pos ⟨Nat.zero_le _, by simp⟩, List.take_left, List.drop_zero]

theorem slice?_back {α : Type} {l front rest : List α} (h : l = front ++ rest) :
    slice? l front.length l.length = some rest := by
  rw [slice?, if_pos ⟨by simp [h], Nat.le_refl _⟩, List.take_length, h, List.drop_left]

theorem slice?_take {α : Type} {l : List α} {n : Nat} (h : n ≤ l.length) :
    slice? l 0 n = some (l.take n) := by
  rw [slice?, if_pos ⟨Nat.zero_le _, h⟩, List.drop_zero]

theorem findIdx?_of_not_mem {b : UInt8} {l : List UInt8} (h : b ∉ l) :
    l.findIdx? (· == b) = none :=
  List.findIdx?_eq_none_iff.2 (beq_eq_false_of_not_mem h)

theorem findIdx?_append {b : UInt8} {front : List UInt8} (h : b ∉ front) (rest : List UInt8) :
    (front ++ b :: rest).findIdx? (· == b) = some front.length := by
  rw [List.findIdx?_append, findIdx?_of_not_mem h, List.findIdx?_cons]
  simp

theorem lastReturn?_of_not_mem {l : List UInt8} (h : cr ∉ l) : lastReturn? l = none := by
  rw [lastReturn?, findIdx?_of_not_mem (by simpa using h)]
  rfl

theorem lastReturn?_append {rest : List UInt8} (h : cr ∉ rest) (front : List UInt8) :
    lastReturn? (front ++ cr :: rest) = some front.length := by
  have hreverse : (front ++ cr :: rest).reverse = rest.reverse ++ cr :: front.reverse := by simp
  rw [lastReturn?, hreverse, findIdx?_append (by simpa using h), Option.map_some,
    List.length_append, List.length_cons, List.length_reverse]
  congr 1
  omega

/-! ## one read -/

namespace LineBuffer

/-- a carriage return held at the end, kept from its place on -/
def settleAt? (b : LineBuffer) (chunk : List UInt8) : Option LineBuffer :=
  if !b.cut && !chunk.isEmpty && b.bytes.back? = some cr then do
    let last ← before? b.bytes.size
    let kept ← slice? b.bytes.toList last b.bytes.size
    return { b with bytes := kept.toArray }
  else some b

/-- the bytes up to the place where the room ends -/
def appendAt? (b : LineBuffer) (chunk : List UInt8) : Option LineBuffer :=
  let room := Limits.maxLineBytes - b.bytes.size
  if room < chunk.length then do
    let part ← slice? chunk 0 room
    return ⟨b.bytes ++ part, true⟩
  else some { b with bytes := b.bytes ++ chunk }

/-- The line with the bytes of one read.  The last byte is not searched for a carriage return, for
none overwrites unless more of the line follows. -/
def takeAt? (collapse : Bool) (b : LineBuffer) (chunk : List UInt8) : Option LineBuffer :=
  if collapse then do
    let b ← b.settleAt? chunk
    let searched ← slice? chunk 0 (chunk.length - 1)
    match lastReturn? searched with
    | some place => do
      let frame ← slice? chunk place chunk.length
      appendAt? {} frame
    | none => b.appendAt? chunk
  else b.appendAt? chunk

/-- one read: the line with what it brings of it, what is left of the read, and whether the line
ends there -/
def readAt? (collapse : Bool) (b : LineBuffer) (available : List UInt8) :
    Option (LineBuffer × List UInt8 × Bool) := do
  let feed := available.findIdx? (· == lf)
  let chunk ← match feed with
    | some place => slice? available 0 place
    | none => some available
  let next ← b.takeAt? collapse chunk
  let left ← slice? available (chunk.length + feed.isSome.toNat) available.length
  return (next, left, feed.isSome)

variable (collapse : Bool) (b : LineBuffer)

theorem settleAt?_eq (chunk : List UInt8) : b.settleAt? chunk = some (b.settle chunk) := by
  unfold settleAt? settle
  split
  next hsettles =>
    simp only [Bool.and_eq_true, decide_eq_true_eq] at hsettles
    rw [← Array.getLast?_toList] at hsettles
    obtain ⟨front, hfront⟩ := List.getLast?_eq_some_iff.1 hsettles.2
    have hsize : b.bytes.size = front.length + 1 := by
      rw [← Array.length_toList, hfront, List.length_append, List.length_singleton]
    have hkept : slice? b.bytes.toList front.length b.bytes.size = some [cr] :=
      slice?_back hfront
    rw [show before? b.bytes.size = some front.length by rw [hsize]; rfl]
    simp only [Option.bind_eq_bind, Option.bind_some, hkept]
    rfl
  next => rfl

theorem appendAt?_eq (chunk : List UInt8) : b.appendAt? chunk = some (b.append chunk) := by
  unfold appendAt? append
  dsimp only
  split
  next hlong =>
    rw [slice?_take (Nat.le_of_lt hlong)]
    rfl
  next => rfl

theorem takeAt?_eq (chunk : List UInt8) :
    b.takeAt? collapse chunk = some (b.take collapse chunk) := by
  unfold takeAt? take
  split
  next =>
    have hsearched : slice? chunk 0 (chunk.length - 1) = some chunk.dropLast := by
      rw [slice?_take (Nat.sub_le _ _), List.dropLast_eq_take]
    simp only [Option.bind_eq_bind, settleAt?_eq, hsearched, Option.bind_some]
    obtain hno | ⟨front, rest, rfl, hrest, hlast⟩ := exists_last_return chunk
    · rw [lastReturn?_of_not_mem hno, overwritten?_eq_none hno]
      exact appendAt?_eq _ chunk
    · rw [List.dropLast_append_of_ne_nil (List.cons_ne_nil _ _), List.dropLast_cons_of_ne_nil hrest,
        lastReturn?_append hlast, overwritten?_append hrest hlast]
      simp only [slice?_back rfl, Option.bind_some]
      exact appendAt?_eq {} _
  next => exact appendAt?_eq b chunk

/-- **No place in a read is out of range**, whatever is held and whatever the read brings. -/
theorem readAt?_eq (available : List UInt8) :
    b.readAt? collapse available = some (match splitLine? available with
      | none => (b.take collapse available, [], false)
      | some (line, rest) => (b.take collapse line, rest, true)) := by
  unfold readAt?
  by_cases hmem : lf ∈ available
  · obtain ⟨line, rest, rfl, hline⟩ := List.eq_append_cons_of_mem hmem
    have hleft : slice? (line ++ lf :: rest) (line.length + 1) (line ++ lf :: rest).length =
        some rest := by
      have hsplit : line ++ lf :: rest = (line ++ [lf]) ++ rest := by simp
      have h := slice?_back hsplit
      rwa [List.length_append, List.length_singleton] at h
    simp only [findIdx?_append hline, slice?_front, splitLine?_append hline, takeAt?_eq,
      Option.bind_eq_bind, Option.bind_some, Option.isSome_some, Bool.toNat_true, hleft]
    rfl
  · have hleft : slice? available available.length available.length = some [] :=
      slice?_back (List.append_nil _).symm
    simp only [findIdx?_of_not_mem hmem, splitLine?_of_not_mem hmem, takeAt?_eq,
      Option.bind_eq_bind, Option.bind_some, Option.isSome_none, Bool.toNat_false, Nat.add_zero,
      hleft]
    rfl

end LineBuffer

/-! ## one physical line -/

/-- The next physical line, place by place: the buffers on the way to it, one behind each read, and
then what is found and the reads left. -/
def walk? (collapse : Bool) (b : LineBuffer) (begun : Bool) :
    List Read → Option (List LineBuffer × Found × List Read)
  | [] => some ([], if begun then .line b.finish else .ended, [])
  | .failure f :: reads => some ([], .failed f, reads)
  | .data available :: reads =>
    if available.isEmpty then some ([], if begun then .line b.finish else .ended, reads)
    else do
      let (next, left, complete) ← b.readAt? collapse available
      if complete then
        return ([next], .line next.finish, if left.isEmpty then reads else .data left :: reads)
      else
        let (passed, outcome) ← walk? collapse next true reads
        return (next :: passed, outcome)

/-- what each read brings of the line under way, up to its line feed -/
def pieces : List Read → List (List UInt8)
  | .data (byte :: bytes) :: reads =>
    match splitLine? (byte :: bytes) with
    | none => (byte :: bytes) :: pieces reads
    | some (line, _) => [line]
  | _ => []

/-- the buffers behind each of several reads -/
def LineBuffer.passed (collapse : Bool) (b : LineBuffer) : List (List UInt8) → List LineBuffer
  | [] => []
  | chunk :: chunks => b.take collapse chunk :: (b.take collapse chunk).passed collapse chunks

theorem LineBuffer.length_passed (collapse : Bool) (b : LineBuffer) (chunks : List (List UInt8)) :
    (b.passed collapse chunks).length = chunks.length := by
  induction chunks generalizing b with
  | nil => rfl
  | cons chunk chunks ih => exact congrArg (· + 1) (ih _)

theorem LineBuffer.getElem?_passed {collapse : Bool} {b b' : LineBuffer}
    {chunks : List (List UInt8)} {k : Nat} (h : (b.passed collapse chunks)[k]? = some b') :
    b' = b.feed collapse (chunks.take (k + 1)) := by
  induction chunks generalizing b k with
  | nil => cases h
  | cons chunk chunks ih =>
    cases k with
    | zero => exact (Option.some.inj h).symm
    | succ k => exact ih h

/-- **Place by place, the loop comes to the line of the plain definition.** -/
theorem walk?_eq (collapse : Bool) (b : LineBuffer) (begun : Bool) (reads : List Read) :
    walk? collapse b begun reads =
      some (b.passed collapse (pieces reads), readLine collapse b begun reads) := by
  induction reads generalizing b begun with
  | nil => rfl
  | cons r reads ih =>
    cases r with
    | failure f => rfl
    | data available =>
      cases available with
      | nil => rfl
      | cons byte bytes =>
        rw [walk?, readLine, pieces, LineBuffer.readAt?_eq]
        cases splitLine? (byte :: bytes) with
        | none =>
          simp only [List.isEmpty_cons, Bool.false_eq_true, if_false, Option.bind_eq_bind,
            Option.bind_some, ih]
          rfl
        | some cut => rfl

end StepRunner.Log
