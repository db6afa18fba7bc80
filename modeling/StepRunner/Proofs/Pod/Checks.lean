import StepRunner.Proofs.Pod.Spec
import StepRunner.Proofs.Text.Characters

/-!
# The checks of a spec, in their order

A spec is checked one thing at a time, and refused for the first check that it fails.  What a check
asks does not depend on the others: each of them is put here on its own, and so is their order.

* `LabelBytes`                 a label value, byte by byte
* `isLabelValue_iff_bytes`     the values that a label may have
* `PodSpec.Check`              one thing that is asked of a spec
* `PodSpec.checks`             all of them, in their order
* `PodSpec.Fails`              what is said of a spec that fails a check
* `PodSpec.fault?_eq`          the fault of a spec is that of the first check that it fails
* `PodSpec.refusal_of_checks`  which specs are refused, and for what
-/

namespace StepRunner

/-! ## label values, byte by byte -/

/-- a digit, a letter `A` to `Z` or a letter `a` to `z` -/
def AlnumByte (b : UInt8) : Prop :=
  (0x30 ≤ b ∧ b ≤ 0x39) ∨ (0x41 ≤ b ∧ b ≤ 0x5A) ∨ (0x61 ≤ b ∧ b ≤ 0x7A)

/-- At most 63 bytes out of letters, digits, `.`, `_` and `-`, with a letter or digit at both
ends. -/
structure LabelBytes (bytes : List UInt8) : Prop where
  fits : bytes.length ≤ 63
  each : ∀ b ∈ bytes, AlnumByte b ∨ b = 0x2E ∨ b = 0x5F ∨ b = 0x2D
  first : ∃ b ∈ bytes.head?, AlnumByte b
  last : ∃ b ∈ bytes.getLast?, AlnumByte b

theorem isAlnum_iff {c : Char} :
    isAlnum c = true ↔ (48 ≤ c.toNat ∧ c.toNat ≤ 57) ∨ (65 ≤ c.toNat ∧ c.toNat ≤ 90) ∨
      (97 ≤ c.toNat ∧ c.toNat ≤ 122) := by
  simp only [isAlnum, Bool.or_eq_true, Bool.and_eq_true, decide_eq_true_eq, Char.le_def,
    UInt32.le_iff_toNat_le]
  show (97 ≤ c.toNat ∧ c.toNat ≤ 122 ∨ 65 ≤ c.toNat ∧ c.toNat ≤ 90) ∨
    48 ≤ c.toNat ∧ c.toNat ≤ 57 ↔ _
  omega

theorem isLabelChar_iff {c : Char} :
    isLabelChar c = true ↔ isAlnum c = true ∨ c = '.' ∨ c = '_' ∨ c = '-' := by
  rw [isLabelChar, Bool.or_eq_true, Bool.or_eq_true, Bool.or_eq_true, decide_eq_true_eq,
    decide_eq_true_eq, decide_eq_true_eq, or_assoc, or_assoc]

theorem toNat_lt_of_isLabelChar {c : Char} (h : isLabelChar c = true) : c.toNat < 0x80 := by
  obtain halnum | rfl | rfl | rfl := isLabelChar_iff.1 h
  · have hrange := isAlnum_iff.1 halnum
    omega
  all_goals decide

/-- the byte of an ASCII character -/
def byteOf (c : Char) : UInt8 := UInt8.ofNat c.toNat

theorem byteOf_inj {c d : Char} (hc : c.toNat < 0x80) (hd : d.toNat < 0x80) :
    byteOf c = byteOf d ↔ c = d := by
  rw [← UInt8.toNat_inj, byteOf, byteOf, Text.Utf8.toNat_ofNat_of_ascii hc,
    Text.Utf8.toNat_ofNat_of_ascii hd, Char.toNat_inj]

theorem alnumByte_byteOf {c : Char} (hc : c.toNat < 0x80) :
    AlnumByte (byteOf c) ↔ isAlnum c = true := by
  have hbyte : (byteOf c).toNat = c.toNat := Text.Utf8.toNat_ofNat_of_ascii hc
  rw [isAlnum_iff]
  simp only [AlnumByte, UInt8.le_iff_toNat_le, hbyte]
  exact .rfl

theorem labelByte_byteOf {c : Char} (hc : c.toNat < 0x80) :
    AlnumByte (byteOf c) ∨ byteOf c = 0x2E ∨ byteOf c = 0x5F ∨ byteOf c = 0x2D ↔
      isLabelChar c = true := by
  rw [isLabelChar_iff, alnumByte_byteOf hc, ← byteOf_inj hc (d := '.') (by decide),
    ← byteOf_inj hc (d := '_') (by decide), ← byteOf_inj hc (d := '-') (by decide)]
  rfl

theorem labelBytes_map_byteOf {chars : List Char} (hne : chars ≠ [])
    (hascii : ∀ c ∈ chars, c.toNat < 0x80) :
    LabelBytes (chars.map byteOf) ↔
      chars.length ≤ maxLabelLength ∧ (∀ c ∈ chars, isLabelChar c = true) ∧
        (∀ c ∈ chars.head?, isAlnum c = true) ∧ ∀ c ∈ chars.getLast?, isAlnum c = true := by
  have hhead : (chars.map byteOf).head? = some (byteOf (chars.head hne)) := by
    rw [List.head?_map, List.head?_eq_some_head hne, Option.map_some]
  have hlast : (chars.map byteOf).getLast? = some (byteOf (chars.getLast hne)) := by
    rw [List.getLast?_map, List.getLast?_eq_some_getLast hne, Option.map_some]
  have hfirst := alnumByte_byteOf (hascii _ (List.head_mem hne))
  have hend := alnumByte_byteOf (hascii _ (List.getLast_mem hne))
  rw [List.head?_eq_some_head hne, List.getLast?_eq_some_getLast hne]
  constructor
  · rintro ⟨hfits, heach, ⟨_, hb, hb'⟩, ⟨_, hd, hd'⟩⟩
    rw [hhead, Option.mem_some_iff] at hb
    rw [hlast, Option.mem_some_iff] at hd
    subst hb hd
    refine ⟨by rwa [List.length_map] at hfits, fun c hc => ?_, ?_, ?_⟩
    · exact (labelByte_byteOf (hascii c hc)).1 (heach _ (List.mem_map_of_mem hc))
    · exact fun c hc => Option.mem_some_iff.1 hc ▸ hfirst.1 hb'
    · exact fun c hc => Option.mem_some_iff.1 hc ▸ hend.1 hd'
  · rintro ⟨hfits, hchars, hc, hd⟩
    refine ⟨by rwa [List.length_map], ?_, ⟨_, hhead, hfirst.2 (hc _ rfl)⟩,
      ⟨_, hlast, hend.2 (hd _ rfl)⟩⟩
    exact List.forall_mem_map.2 fun c hc => (labelByte_byteOf (hascii c hc)).2 (hchars c hc)

theorem AlnumByte.toNat_lt {b : UInt8} (h : AlnumByte b) : b.toNat < 0x80 := by
  simp only [AlnumByte, UInt8.le_iff_toNat_le] at h
  have h9 : (0x39 : UInt8).toNat = 57 := rfl
  have hZ : (0x5A : UInt8).toNat = 90 := rfl
  have hz : (0x7A : UInt8).toNat = 122 := rfl
  omega

theorem LabelBytes.ascii {bytes : List UInt8} (h : LabelBytes bytes) :
    ∀ b ∈ bytes, b.toNat < 0x80 := by
  intro b hb
  obtain halnum | rfl | rfl | rfl := h.each b hb
  · exact halnum.toNat_lt
  all_goals decide

/-- **The values that a label may have**, byte by byte: a character that is no ASCII has bytes that
are none of these. -/
theorem isLabelValue_iff_bytes {text : String} :
    isLabelValue text = true ↔ text = "" ∨ LabelBytes (Text.Utf8.encode text) := by
  by_cases hne : text.toList = []
  · exact iff_of_true (by rw [isLabelValue, hne]; rfl) (.inl (String.toList_eq_nil_iff.1 hne))
  have hempty : text ≠ "" := fun h => hne (String.toList_eq_nil_iff.2 h)
  rw [or_iff_right hempty, isLabelValue_iff, Text.Utf8.encode_eq]
  constructor
  · intro h
    have hascii (c) (hc : c ∈ text.toList) : c.toNat < 0x80 :=
      toNat_lt_of_isLabelChar (h.2.1 c hc)
    rw [Text.Utf8.bytesOf_of_ascii hascii]
    exact (labelBytes_map_byteOf hne hascii).2 h
  · intro h
    have hascii := Text.Utf8.ascii_of_bytesOf h.ascii
    rw [Text.Utf8.bytesOf_of_ascii hascii] at h
    exact (labelBytes_map_byteOf hne hascii).1 h

namespace PodSpec

/-! ## checks -/

/-- one thing that is asked of a spec; containers are counted with init containers first, and labels
in key order -/
inductive Check where
  | name
  | namespaceName
  | app
  /-- a container has a name -/
  | named (index : Nat)
  /-- a container is not called like one before it -/
  | distinct (index : Nat)
  | label (index : Nat)

/-- what is asked of a spec, in the order in which it is asked -/
def checks (s : PodSpec) : List Check :=
  [.name, .namespaceName, .app] ++
    (List.range s.allContainers.length).flatMap (fun i => [.named i, .distinct i]) ++
      (List.range s.labels.entries.length).map .label

/-- the fault of a spec that fails a check, whatever else is wrong with it -/
def Fails (s : PodSpec) : Check → SpecFault → Prop
  | .name, fault => s.name = "" ∧ fault = .emptyName
  | .namespaceName, fault => s.namespaceName = "" ∧ fault = .emptyNamespace
  | .app, fault => s.containers = [] ∧ fault = .noContainer
  | .named i, fault => ∃ c, s.allContainers[i]? = some c ∧ c.name = "" ∧
    fault = .emptyContainerName
  | .distinct i, fault => ∃ c, s.allContainers[i]? = some c ∧
    (∃ j < i, ∃ d, s.allContainers[j]? = some d ∧ d.name = c.name) ∧
      fault = .duplicateContainer c.name
  | .label i, fault => ∃ e, s.labels.entries[i]? = some e ∧
    ¬ (e.2 = "" ∨ LabelBytes (Text.Utf8.encode e.2)) ∧ fault = .badLabel e.1 e.2

/-- a check on its own -/
def verdict? (s : PodSpec) : Check → Option SpecFault
  | .name => if s.name = "" then some .emptyName else none
  | .namespaceName => if s.namespaceName = "" then some .emptyNamespace else none
  | .app => if s.containers = [] then some .noContainer else none
  | .named i => s.allContainers[i]?.bind fun c =>
    if c.name = "" then some .emptyContainerName else none
  | .distinct i => s.allContainers[i]?.bind fun c =>
    if c.name ∈ (s.allContainers.take i).map (·.name) then some (.duplicateContainer c.name)
    else none
  | .label i => s.labels.entries[i]?.bind fun e =>
    if isLabelValue e.2 = false then some (.badLabel e.1 e.2) else none

theorem mem_names_take_iff {s : PodSpec} {i : Nat} {name : String} :
    name ∈ (s.allContainers.take i).map (·.name) ↔
      ∃ j < i, ∃ d, s.allContainers[j]? = some d ∧ d.name = name := by
  rw [List.mem_map]
  constructor
  · rintro ⟨d, hd, hname⟩
    obtain ⟨j, hj⟩ := List.mem_iff_getElem?.1 hd
    rw [List.getElem?_take] at hj
    split at hj
    next hlt => exact ⟨j, hlt, d, hj, hname⟩
    next => cases hj
  · rintro ⟨j, hlt, d, hj, hname⟩
    exact ⟨d, List.mem_iff_getElem?.2 ⟨j, by rwa [List.getElem?_take, if_pos hlt]⟩, hname⟩

theorem verdict?_eq_some_iff {s : PodSpec} {c : Check} {fault : SpecFault} :
    s.verdict? c = some fault ↔ s.Fails c fault := by
  have hcomm (other : SpecFault) : other = fault ↔ fault = other := eq_comm
  cases c with
  | name | namespaceName | app =>
    simp only [verdict?, Fails, Option.ite_some_none_eq_some, hcomm]
  | named i =>
    simp only [verdict?, Fails, Option.bind_eq_some_iff, Option.ite_some_none_eq_some, hcomm]
  | distinct i =>
    simp only [verdict?, Fails, Option.bind_eq_some_iff, Option.ite_some_none_eq_some, hcomm,
      mem_names_take_iff]
  | label i =>
    simp only [verdict?, Fails, Option.bind_eq_some_iff, Option.ite_some_none_eq_some, hcomm,
      ← isLabelValue_iff_bytes, Bool.not_eq_true]

/-! ## the first check that fails -/

/-- the names of containers are checked one after the other, each against those before it -/
theorem nameFault?_eq {s : PodSpec} {front rest : List ContainerSpec}
    (h : s.allContainers = front ++ rest) :
    nameFault? (front.map (·.name)).reverse (rest.map (·.name)) =
      ((List.range' front.length rest.length).flatMap fun i =>
        [.named i, .distinct i]).findSome? s.verdict? := by
  induction rest generalizing front with
  | nil => rfl
  | cons c rest ih =>
    have hc : s.allContainers[front.length]? = some c := by simp [h]
    have hnamed : s.verdict? (.named front.length) =
        if c.name = "" then some .emptyContainerName else none := by
      rw [verdict?, hc, Option.bind_some]
    have hbefore : s.allContainers.take front.length = front := by simp [h]
    have hdistinct : s.verdict? (.distinct front.length) =
        if c.name ∈ (front.map (·.name)).reverse then some (.duplicateContainer c.name)
        else none := by
      rw [verdict?, hc, Option.bind_some, hbefore]
      simp only [List.mem_reverse]
    have hsplit : s.allContainers = (front ++ [c]) ++ rest := by simp [h]
    have hrest := ih hsplit
    rw [List.map_append, List.reverse_append, List.length_append] at hrest
    rw [List.map_cons, nameFault?, List.length_cons, List.range'_succ, List.flatMap_cons,
      List.findSome?_append, List.findSome?_cons, List.findSome?_cons, List.findSome?_nil, hnamed,
      hdistinct]
    split
    next => rfl
    next =>
      split
      next => rfl
      next => exact hrest

theorem labelFault?_eq {s : PodSpec} {front rest : List (String × String)}
    (h : s.labels.entries = front ++ rest) :
    labelFault? rest =
      ((List.range' front.length rest.length).map Check.label).findSome? s.verdict? := by
  induction rest generalizing front with
  | nil => rfl
  | cons e rest ih =>
    have he : s.labels.entries[front.length]? = some e := by simp [h]
    have hlabel : s.verdict? (.label front.length) =
        if isLabelValue e.2 = false then some (.badLabel e.1 e.2) else none := by
      rw [verdict?, he, Option.bind_some]
    have hsplit : s.labels.entries = (front ++ [e]) ++ rest := by simp [h]
    have hrest := ih hsplit
    rw [List.length_append] at hrest
    rw [labelFault?, List.length_cons, List.range'_succ, List.map_cons, List.findSome?_cons, hlabel]
    cases isLabelValue e.2 with
    | true => exact hrest
    | false => rfl

/-- **The fault of a spec is that of the first check that it fails.** -/
theorem fault?_eq (s : PodSpec) : s.fault? = s.checks.findSome? s.verdict? := by
  have hnames := nameFault?_eq (s := s) (List.nil_append _).symm
  have hlabels := labelFault?_eq (s := s) (List.nil_append _).symm
  rw [List.length_nil, ← List.range_eq_range'] at hnames hlabels
  rw [fault?, checks, List.findSome?_append, List.findSome?_append, ← hlabels, ← hnames,
    List.map_nil, List.reverse_nil, List.findSome?_cons, List.findSome?_cons, List.findSome?_cons,
    List.findSome?_nil, verdict?, verdict?, verdict?]
  split
  next => rfl
  next =>
    split
    next => rfl
    next =>
      by_cases happ : s.containers = []
      · rw [if_pos happ, if_pos (List.isEmpty_iff.2 happ)]
        rfl
      · rw [if_neg happ, if_neg (mt List.isEmpty_iff.1 happ)]
        rfl

/-- **A spec is refused for the first check that it fails, and only if it fails one.** -/
theorem refusal?_eq_some_iff {s : PodSpec} {e : ClusterError} :
    s.refusal? = some e ↔ ∃ before c after fault, s.checks = before ++ c :: after ∧
      (∀ earlier ∈ before, ∀ other, ¬ s.Fails earlier other) ∧ s.Fails c fault ∧
        e = .invalidPodSpec s.name fault.text := by
  have hnone (c : Check) : s.verdict? c = none ↔ ∀ other, ¬ s.Fails c other := by
    simp only [← verdict?_eq_some_iff, Option.eq_none_iff_forall_ne_some, ne_eq]
  rw [refusal?, Option.map_eq_some_iff]
  constructor
  · rintro ⟨fault, hfault, rfl⟩
    rw [fault?_eq, List.findSome?_eq_some_iff] at hfault
    obtain ⟨before, c, after, hchecks, hc, hbefore⟩ := hfault
    exact ⟨before, c, after, fault, hchecks, fun earlier h => (hnone earlier).1 (hbefore earlier h),
      verdict?_eq_some_iff.1 hc, rfl⟩
  · rintro ⟨before, c, after, fault, hchecks, hbefore, hc, rfl⟩
    refine ⟨fault, ?_, rfl⟩
    rw [fault?_eq, List.findSome?_eq_some_iff]
    exact ⟨before, c, after, hchecks, verdict?_eq_some_iff.2 hc,
      fun earlier h => (hnone earlier).2 (hbefore earlier h)⟩

/-- **A spec is accepted if and only if it has a name and a namespace, an app container, containers
with names that are all different, and labels with values that may be used; any other is refused for
the first check that it fails.** -/
theorem refusal_of_checks (s : PodSpec) :
    (s.refusal? = none ↔ s.name ≠ "" ∧ s.namespaceName ≠ "" ∧ s.containers ≠ [] ∧
        (∀ c ∈ s.initContainers ++ s.containers, c.name ≠ "") ∧
        ((s.initContainers ++ s.containers).map (·.name)).Nodup ∧
        ∀ e ∈ s.labels.entries, e.2 = "" ∨ LabelBytes (Text.Utf8.encode e.2)) ∧
      ∀ e, s.refusal? = some e ↔ ∃ before c after fault, s.checks = before ++ c :: after ∧
        (∀ earlier ∈ before, ∀ other, ¬ s.Fails earlier other) ∧ s.Fails c fault ∧
          e = .invalidPodSpec s.name fault.text := by
  refine ⟨?_, fun e => refusal?_eq_some_iff⟩
  rw [refusal?_eq_none_iff]
  simp only [← isLabelValue_iff_bytes]
  constructor
  · intro h
    exact ⟨h.name, h.namespaceName, h.app, h.named, h.distinct, h.labels⟩
  · rintro ⟨hname, hnamespace, happ, hnamed, hdistinct, hlabels⟩
    exact ⟨hname, hnamespace, happ, hnamed, hdistinct, hlabels⟩

end PodSpec

end StepRunner
