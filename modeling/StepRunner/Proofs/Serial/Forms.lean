import Mathlib.Data.List.Nodup
import StepRunner.Json.Value

/-!
# Values in looser form

A written value says more than its reader asks for: a reader passes over members that it does not
know, and takes an optional member that is left out for null.  A form says where in a value this is
so, and a value is loosened by doing it there, at any depth and any number of times.

* `Form`               which parts of a value are records, and which members of them are optional
* `Form.Loosens`       one value is the other in looser form
* `Form.Slot`          what stands under one name of a record, before and after
* `Loosens.slots`      a loosened record, name by name
* `ReadsBack`          a value is read from what is written, in any looser form
* `ReadsBack.list`, `ReadsBack.record`   lists and records, from their parts
-/

namespace StepRunner

/-! ## forms -/

/-- the parts of a value that can be loosened -/
inductive Form where
  /-- a value that is read as it stands -/
  | plain
  | list (item : Form)
  /-- null, or a value -/
  | optional (value : Form)
  /-- an object with these members and no others that count -/
  | record (fields : List (String × Form))

namespace Form

/-- The members of a record and the members of a looser one, with `R` between their values: a member
may be left out where it is optional and null, and members of other names may be added. -/
inductive Members (R : Form → Json → Json → Prop) :
    List (String × Json) → List (String × Json) → List (String × Form) → Prop where
  | nil {fields} : Members R [] [] fields
  | kept {name form j j' ms ms' fields} (hknown : (name, form) ∈ fields) (hvalue : R form j j')
      (hrest : Members R ms ms' fields) : Members R ((name, j) :: ms) ((name, j') :: ms') fields
  | leftOut {name form ms ms' fields} (hknown : (name, optional form) ∈ fields)
      (hrest : Members R ms ms' fields) : Members R ((name, .null) :: ms) ms' fields
  | added {name j ms ms' fields} (hunknown : name ∉ fields.map (·.1))
      (hrest : Members R ms ms' fields) : Members R ms ((name, j) :: ms') fields

/-- the second value is the first in looser form -/
inductive Loosens : Form → Json → Json → Prop where
  | plain {j} : Loosens plain j j
  | list {item js js'} (hlength : js.length = js'.length)
      (hitems : ∀ {j j'}, (j, j') ∈ js.zip js' → Loosens item j j') :
      Loosens (list item) (.arr js) (.arr js')
  | null {form} : Loosens (optional form) .null .null
  | there {form j j'} (hsome : j ≠ .null) (hvalue : Loosens form j j') : Loosens (optional form) j j'
  /-- the members of an object come in any order -/
  | record {fields ms ms' ms''} (hmembers : Members Loosens ms ms' fields) (horder : ms'.Perm ms'') :
      Loosens (record fields) (.obj ms) (.obj ms'')

/-- what stands under one name of a record, and what stands there in the looser one -/
inductive Slot : Form → Option Json → Option Json → Prop where
  | there {form j j'} (hvalue : Loosens form j j') : Slot form (some j) (some j')
  | leftOut {form} : Slot (optional form) (some .null) none
  | missing {form} : Slot form none none

/-! ## what a looser value can be -/

theorem Loosens.items {item : Form} {js : List Json} {j : Json}
    (h : (Form.list item).Loosens (.arr js) j) :
    ∃ js', j = .arr js' ∧ List.Forall₂ item.Loosens js js' := by
  cases h with
  | @list _ _ js' hlength hitems => exact ⟨js', rfl, List.forall₂_iff_zip.2 ⟨hlength, hitems⟩⟩

theorem Loosens.of_optional {form : Form} {j j' : Json} (h : (Form.optional form).Loosens j j')
    (hsome : j ≠ .null) : form.Loosens j j' := by
  cases h with
  | null => exact absurd rfl hsome
  | there _ hvalue => exact hvalue

theorem Slot.exists_loosens {form : Form} {j : Json} {found : Option Json}
    (h : Slot form (some j) found) (hsome : j ≠ .null) :
    ∃ j', found = some j' ∧ form.Loosens j j' := by
  cases h with
  | there hvalue => exact ⟨_, rfl, hvalue⟩
  | leftOut => exact absurd rfl hsome

theorem Slot.of_null {form : Form} {found : Option Json}
    (h : (Form.optional form).Slot (some .null) found) : found = none ∨ found = some .null := by
  cases h with
  | there hvalue =>
    cases hvalue with
    | null => exact .inr rfl
    | there hsome => exact absurd rfl hsome
  | leftOut => exact .inl rfl

/-! ## looking up a member -/

theorem Slot.eq_none {form : Form} {found : Option Json} (h : Slot form none found) :
    found = none := by
  cases h
  rfl

/-- **The value under a name of a record is loosened, or left out.** -/
theorem Members.slot {ms ms' : List (String × Json)} {fields : List (String × Form)}
    (h : Members Loosens ms ms' fields) (hfields : (fields.map (·.1)).Nodup)
    (hms : (ms.map (·.1)).Nodup) {name : String} {form : Form} (hknown : (name, form) ∈ fields) :
    ∃ found, Slot form (Dict.find? name ms) found ∧ ∀ j, (name, j) ∈ ms' ↔ found = some j := by
  have hform {fields : List (String × Form)} (hfields : (fields.map (·.1)).Nodup)
      (hknown : (name, form) ∈ fields) {other : Form} (h : (name, other) ∈ fields) :
      other = form :=
    congrArg Prod.snd (List.inj_on_of_nodup_map hfields h hknown rfl)
  -- a record does not have a name again after its member
  have hlast {j : Json} {ms : List (String × Json)} {found : Option Json}
      (hms : (((name, j) :: ms).map (·.1)).Nodup) (hslot : Slot form (Dict.find? name ms) found) :
      found = none := by
    have hagain : ∀ e ∈ ms, e.1 ≠ name := fun e he hname =>
      (List.nodup_cons.1 hms).1 (List.mem_map.2 ⟨e, he, hname⟩)
    rw [Dict.find?_eq_none hagain] at hslot
    exact hslot.eq_none
  induction h with
  | nil => exact ⟨none, .missing, by simp⟩
  | @kept name' form' j j' ms ms' fields hmem hvalue _ ih =>
    obtain ⟨found, hslot, hfound⟩ := ih hfields (List.nodup_cons.1 hms).2 hknown
    by_cases hname : name = name'
    · subst hname
      obtain rfl := hform hfields hknown hmem
      obtain rfl := hlast hms hslot
      refine ⟨some j', ?_, fun w => ?_⟩
      · rw [Dict.find?, if_pos rfl]
        exact .there hvalue
      · simp [hfound, eq_comm]
    · refine ⟨found, ?_, fun w => ?_⟩
      · rwa [Dict.find?, if_neg hname]
      · simp [hfound, hname]
  | @leftOut name' form' ms ms' fields hmem _ ih =>
    obtain ⟨found, hslot, hfound⟩ := ih hfields (List.nodup_cons.1 hms).2 hknown
    by_cases hname : name = name'
    · subst hname
      obtain rfl := hform hfields hknown hmem
      obtain rfl := hlast hms hslot
      refine ⟨none, ?_, hfound⟩
      rw [Dict.find?, if_pos rfl]
      exact .leftOut
    · refine ⟨found, ?_, hfound⟩
      rwa [Dict.find?, if_neg hname]
  | @added name' j ms ms' fields hunknown _ ih =>
    obtain ⟨found, hslot, hfound⟩ := ih hfields hms hknown
    have hname : name ≠ name' := by
      rintro rfl
      exact hunknown (List.mem_map_of_mem hknown)
    refine ⟨found, hslot, fun w => ?_⟩
    simp [hfound, hname]

theorem get?_eq {ms : List (String × Json)} {name : String} {found : Option Json}
    (h : ∀ j, (name, j) ∈ ms ↔ found = some j) : Fields.get? ⟨ms⟩ name = found := by
  unfold Fields.get?
  obtain _ | j := found
  · refine Dict.find?_eq_none fun e he hname => ?_
    obtain rfl := hname
    cases (h e.2).1 (List.mem_reverse.1 he)
  · refine Dict.find?_of_mem (List.mem_reverse.2 ((h j).2 rfl)) fun w hw => ?_
    exact (Option.some.inj ((h w).1 (List.mem_reverse.1 hw))).symm

/-- the slots of a record: every name with what was written there, if anything was -/
def Slots (o : Fields) : List (String × Form) → List (Option Json) → Prop
  | (name, form) :: fields, written :: rest => Slot form written (o.get? name) ∧ Slots o fields rest
  | _, _ => True

theorem slots_of_forall {o : Fields} {written : String → Option Json} {fields : List (String × Form)}
    (h : ∀ name form, (name, form) ∈ fields → Slot form (written name) (o.get? name)) :
    Slots o fields ((fields.map (·.1)).map written) := by
  induction fields with
  | nil => trivial
  | cons field fields ih =>
    exact ⟨h _ _ List.mem_cons_self,
      ih fun name form hmem => h name form (List.mem_cons_of_mem _ hmem)⟩

theorem find?_filter {ms : List (String × Json)} (hms : (ms.map (·.1)).Nodup)
    (kept : String → Bool) {m : String × Json} (hm : m ∈ ms) :
    Dict.find? m.1 (ms.filter fun m => kept m.1) = if kept m.1 then some m.2 else none := by
  split
  next hkept =>
    refine Dict.find?_of_mem (List.mem_filter.2 ⟨hm, hkept⟩) fun w hw => ?_
    exact congrArg Prod.snd (List.inj_on_of_nodup_map hms (List.mem_filter.1 hw).1 hm rfl)
  next hkept =>
    refine Dict.find?_eq_none fun e he hname => hkept ?_
    exact hname ▸ (List.mem_filter.1 he).2

/-- **A loosened part of a record, name by name.** -/
theorem Loosens.slots_filter {fields : List (String × Form)} {ms : List (String × Json)} {j : Json}
    {kept : String → Bool}
    (h : (Form.record fields).Loosens (.obj (ms.filter fun m => kept m.1)) j)
    (hnames : ms.map (·.1) = fields.map (·.1)) (hfields : (fields.map (·.1)).Nodup) :
    ∃ ms', j = .obj ms' ∧
      Slots ⟨ms'⟩ fields (ms.map fun m => if kept m.1 then some m.2 else none) := by
  have hms : (ms.map (·.1)).Nodup := hnames ▸ hfields
  have hpart : ((ms.filter fun m => kept m.1).map (·.1)).Nodup :=
    hms.sublist (List.filter_sublist.map _)
  have hwritten : (ms.map fun m => if kept m.1 then some m.2 else none) =
      (fields.map (·.1)).map fun name => Dict.find? name (ms.filter fun m => kept m.1) := by
    rw [← hnames, List.map_map]
    exact List.map_congr_left fun m hm => (find?_filter hms kept hm).symm
  cases h with
  | @record _ _ ms' ms'' hmembers horder =>
    refine ⟨ms'', rfl, hwritten ▸ slots_of_forall fun name form hknown => ?_⟩
    obtain ⟨found, hslot, hfound⟩ := hmembers.slot hfields hpart hknown
    rwa [get?_eq fun j => horder.mem_iff.symm.trans (hfound j)]

theorem Loosens.slots {fields : List (String × Form)} {ms : List (String × Json)} {j : Json}
    (h : (Form.record fields).Loosens (.obj ms) j)
    (hnames : ms.map (·.1) = fields.map (·.1)) (hfields : (fields.map (·.1)).Nodup) :
    ∃ ms', j = .obj ms' ∧ Slots ⟨ms'⟩ fields (ms.map fun m => some m.2) := by
  refine @slots_filter fields ms j (fun _ => true) ?_ hnames hfields
  rwa [List.filter_true]

end Form

/-! ## reading back -/

/-- a value is read from what is written for it, in any looser form -/
structure ReadsBack {α : Type} (form : Form) (write : α → Json) (read : Json → Option α) (a : α) :
    Prop where
  /-- what is written has the form -/
  same : form.Loosens (write a) (write a)
  loose : ∀ j, form.Loosens (write a) j → read j = some a
  /-- null is no value -/
  null : read .null = none

namespace ReadsBack

open Form

variable {α : Type} {form : Form} {write : α → Json} {read : Json → Option α} {a : α}

theorem whole (h : ReadsBack form write read a) : read (write a) = some a :=
  h.loose _ h.same

theorem ne_null (h : ReadsBack form write read a) {j : Json} (hj : form.Loosens (write a) j) :
    j ≠ .null := by
  rintro rfl
  have hnull := h.loose _ hj
  rw [h.null] at hnull
  cases hnull

theorem of_whole (h : read (write a) = some a) (hnull : read .null = none) :
    ReadsBack .plain write read a := by
  refine ⟨.plain, fun j hj => ?_, hnull⟩
  cases hj
  exact h

/-! ## lists -/

theorem mapM_eq {l : List α} (h : ∀ a ∈ l, ReadsBack form write read a) {js : List Json}
    (hloose : List.Forall₂ form.Loosens (l.map write) js) : js.mapM read = some l := by
  induction l generalizing js with
  | nil =>
    cases hloose
    rfl
  | cons a l ih =>
    cases hloose with
    | cons hfirst hrest =>
      obtain ⟨ha, hl⟩ := List.forall_mem_cons.1 h
      rw [List.mapM_cons, ha.loose _ hfirst, Option.bind_eq_bind, Option.bind_some, ih hl hrest]
      rfl

theorem list {l : List α} (h : ∀ a ∈ l, ReadsBack form write read a) :
    ReadsBack (.list form) (.ofList write) (Json.list? read) l := by
  refine ⟨?_, fun j hj => ?_, rfl⟩
  · have hsame : List.Forall₂ form.Loosens (l.map write) (l.map write) :=
      List.forall₂_same.2 (List.forall_mem_map.2 fun a ha => (h a ha).same)
    exact .list rfl (List.forall₂_iff_zip.1 hsame).2
  · obtain ⟨js, rfl, hloose⟩ := hj.items
    exact mapM_eq h hloose

/-! ## members of a record -/

variable {name : String} {o : Fields}

theorem exists_found (h : ReadsBack form write read a)
    (hslot : Slot form (some (write a)) (o.get? name)) :
    ∃ j, o.get? name = some j ∧ read j = some a := by
  obtain ⟨j, hj, hloose⟩ := hslot.exists_loosens (h.ne_null h.same)
  exact ⟨j, hj, h.loose j hloose⟩

theorem required (h : ReadsBack form write read a)
    (hslot : Slot form (some (write a)) (o.get? name)) : o.required name read = some a := by
  obtain ⟨j, hj, hread⟩ := h.exists_found hslot
  rw [Fields.required, hj, Option.bind_some, hread]

theorem defaulted {usual : α} (h : ReadsBack form write read a)
    (hslot : Slot form (some (write a)) (o.get? name)) :
    o.defaulted name usual read = some a := by
  obtain ⟨j, hj, hread⟩ := h.exists_found hslot
  rw [Fields.defaulted, hj]
  exact hread

theorem defaulted_of_kept {kept : Bool} {usual : α} (h : ReadsBack form write read a)
    (hslot : Slot form (if kept then some (write a) else none) (o.get? name)) :
    o.defaulted name usual read = some (if kept then a else usual) := by
  cases kept with
  | true => exact h.defaulted hslot
  | false =>
    rw [Fields.defaulted, hslot.eq_none]
    rfl

theorem optional {v : Option α} (h : ∀ a ∈ v, ReadsBack form write read a)
    (hslot : Slot (.optional form) (some (Json.ofOption write v)) (o.get? name)) :
    o.optional name read = some v := by
  obtain _ | a := v
  · obtain hout | hnull := hslot.of_null
    · rw [Fields.optional, hout]
    · rw [Fields.optional, hnull]
  · have ha := h a rfl
    obtain ⟨j, hj, hloose⟩ := hslot.exists_loosens (ha.ne_null ha.same)
    have hloose := hloose.of_optional (ha.ne_null ha.same)
    have hsome := ha.ne_null hloose
    rw [Fields.optional, hj]
    split
    next hnone => cases hnone
    next hnull => exact absurd (Option.some.inj hnull) hsome
    next hfound =>
      obtain rfl := Option.some.inj hfound
      rw [ha.loose _ hloose]
      rfl

/-! ## records -/

/-- a member of a record has the name and the form of its field -/
def Fits (field : String × Form) (m : String × Json) : Prop :=
  field.1 = m.1 ∧ field.2.Loosens m.2 m.2

theorem fits (h : ReadsBack form write read a) : Fits (name, form) (name, write a) :=
  ⟨rfl, h.same⟩

theorem fits_optional {v : Option α} (h : ∀ a ∈ v, ReadsBack form write read a) :
    Fits (name, .optional form) (name, .ofOption write v) := by
  obtain _ | a := v
  · exact ⟨rfl, .null⟩
  · exact ⟨rfl, .there ((h a rfl).ne_null (h a rfl).same) (h a rfl).same⟩

theorem names_eq {fields : List (String × Form)} {ms : List (String × Json)}
    (h : List.Forall₂ Fits fields ms) : ms.map (·.1) = fields.map (·.1) := by
  induction h with
  | nil => rfl
  | cons hfits _ ih => rw [List.map_cons, List.map_cons, hfits.1, ih]

theorem members_same {part fields : List (String × Form)} {ms : List (String × Json)}
    (h : List.Forall₂ Fits part ms) (hpart : part ⊆ fields) : Members Loosens ms ms fields := by
  induction h with
  | nil => exact .nil
  | @cons field m _ _ hfits _ ih =>
    obtain ⟨hfield, hpart⟩ := List.cons_subset.1 hpart
    exact .kept (hfits.1 ▸ hfield) hfits.2 (ih hpart)

/-- **A record is read back when its reader takes what the slots hold.** -/
theorem record {fields : List (String × Form)} {ms : List (String × Json)}
    (hwrite : write a = .obj ms) (hfits : List.Forall₂ Fits fields ms)
    (hfields : (fields.map (·.1)).Nodup) (hnull : read .null = none)
    (hread : ∀ o : Fields, Slots o fields (ms.map fun m => some m.2) →
      read (.obj o.members) = some a) :
    ReadsBack (.record fields) write read a := by
  refine ⟨?_, fun j hj => ?_, hnull⟩
  · rw [hwrite]
    exact .record (members_same hfits (.refl fields)) (.refl ms)
  · rw [hwrite] at hj
    obtain ⟨ms', rfl, hslots⟩ := hj.slots (names_eq hfits) hfields
    exact hread ⟨ms'⟩ hslots

end ReadsBack

end StepRunner
