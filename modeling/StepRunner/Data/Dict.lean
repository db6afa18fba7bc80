/-!
# Dictionaries

Values under text keys, listed in ascending key order.  The order is part of the type, so two
dictionaries with the same entries are equal.

* `Dict β`         entries in ascending order of their keys
* `Dict.get?`      the value under a key
* `Dict.insert`    sets the value under a key
* `Dict.erase`     drops a key
* `Dict.ofList`    inserts from left to right: the last value of a key stays
-/

namespace StepRunner

/-- values under text keys, in ascending order of the keys -/
structure Dict (β : Type) where
  entries : List (String × β)
  ascending : entries.Pairwise (fun a b => a.1 < b.1)
deriving DecidableEq

namespace Dict

variable {β : Type}

/-! ## placing an entry -/

/-- the entry list with `v` under `k`, every other key as before -/
def place (k : String) (v : β) : List (String × β) → List (String × β)
  | [] => [(k, v)]
  | e :: rest =>
    if k < e.1 then (k, v) :: e :: rest
    else if k = e.1 then (k, v) :: rest
    else e :: place k v rest

theorem mem_of_mem_place {k : String} {v : β} {l : List (String × β)} {e : String × β}
    (h : e ∈ place k v l) : e = (k, v) ∨ e ∈ l := by
  induction l with
  | nil => simpa [place] using h
  | cons x rest ih =>
    unfold place at h
    split at h
    · simpa using h
    · split at h
      · rcases List.mem_cons.1 h with h | h
        · exact .inl h
        · exact .inr (List.mem_cons_of_mem _ h)
      · rcases List.mem_cons.1 h with h | h
        · exact .inr (h ▸ List.mem_cons_self)
        · exact (ih h).imp id (List.mem_cons_of_mem _)

theorem place_ascending (k : String) (v : β) {l : List (String × β)}
    (h : l.Pairwise (fun a b => a.1 < b.1)) :
    (place k v l).Pairwise (fun a b => a.1 < b.1) := by
  induction l with
  | nil => simp [place]
  | cons x rest ih =>
    obtain ⟨hx, hrest⟩ := List.pairwise_cons.1 h
    unfold place
    split
    next hk =>
      refine List.pairwise_cons.2 ⟨fun e he => ?_, h⟩
      rcases List.mem_cons.1 he with rfl | he
      · exact hk
      · exact String.lt_trans hk (hx e he)
    next hk =>
      split
      next he => exact List.pairwise_cons.2 ⟨fun e m => he ▸ hx e m, hrest⟩
      next he =>
        refine List.pairwise_cons.2 ⟨fun e m => ?_, ih hrest⟩
        rcases mem_of_mem_place m with rfl | m
        · exact Std.lt_of_le_of_ne (Std.not_lt.1 hk) (Ne.symm he)
        · exact hx e m

/-! ## operations -/

def empty : Dict β := ⟨[], .nil⟩

instance : EmptyCollection (Dict β) := ⟨empty⟩

instance : Inhabited (Dict β) := ⟨empty⟩

/-- the value that the first entry under `k` holds -/
def find? (k : String) : List (String × β) → Option β
  | [] => none
  | e :: rest => if k = e.1 then some e.2 else find? k rest

def get? (d : Dict β) (k : String) : Option β := find? k d.entries

def contains (d : Dict β) (k : String) : Bool := (d.get? k).isSome

def isEmpty (d : Dict β) : Bool := d.entries.isEmpty

def insert (d : Dict β) (k : String) (v : β) : Dict β :=
  ⟨place k v d.entries, place_ascending k v d.ascending⟩

def erase (d : Dict β) (k : String) : Dict β :=
  ⟨d.entries.filter (fun e => e.1 != k), d.ascending.filter _⟩

def ofList (l : List (String × β)) : Dict β :=
  l.foldl (fun d e => d.insert e.1 e.2) empty

theorem find?_place (k k' : String) (v : β) (l : List (String × β)) :
    find? k' (place k v l) = if k' = k then some v else find? k' l := by
  induction l with
  | nil => rfl
  | cons x rest ih =>
    by_cases hlt : k < x.1
    · simp only [place, hlt, if_true]
      rfl
    · by_cases he : k = x.1
      · simp only [place, if_neg hlt, if_pos he, find?]
        by_cases h : k' = k <;> simp [h, ← he]
      · simp only [place, if_neg hlt, if_neg he, find?, ih]
        by_cases hx : k' = x.1
        · simp [hx, Ne.symm he]
        · simp [hx]

theorem get?_insert (d : Dict β) (k k' : String) (v : β) :
    (d.insert k v).get? k' = if k' = k then some v else d.get? k' :=
  find?_place k k' v d.entries

theorem find?_filter (k k' : String) (l : List (String × β)) :
    find? k' (l.filter fun e => e.1 != k) = if k' = k then none else find? k' l := by
  induction l with
  | nil => simp [find?]
  | cons x rest ih =>
    by_cases hx : x.1 = k
    · rw [List.filter_cons_of_neg (by simp [hx]), ih]
      by_cases h : k' = k
      · rw [if_pos h, if_pos h]
      · rw [if_neg h, if_neg h, find?, if_neg (hx ▸ h)]
    · rw [List.filter_cons_of_pos (by simp [hx]), find?, find?, ih]
      by_cases h : k' = k
      · rw [if_pos h, if_pos h, if_neg (h ▸ Ne.symm hx)]
      · rw [if_neg h, if_neg h]

theorem get?_erase (d : Dict β) (k k' : String) :
    (d.erase k).get? k' = if k' = k then none else d.get? k' :=
  find?_filter k k' d.entries

/-! ## entries -/

theorem filter_eq_self_of_ne {k : String} {l : List (String × β)} (h : ∀ e ∈ l, e.1 ≠ k) :
    (l.filter fun e => e.1 != k) = l :=
  List.filter_eq_self.2 fun e he => by simpa using h e he

theorem keys_nodup (d : Dict β) : (d.entries.map (·.1)).Nodup :=
  List.pairwise_map.2 (d.ascending.imp fun h => Std.ne_of_lt h)

theorem get?_of_mem {d : Dict β} {e : String × β} (h : e ∈ d.entries) :
    d.get? e.1 = some e.2 := by
  obtain ⟨l, hascending⟩ := d
  show find? e.1 l = some e.2
  induction l with
  | nil => cases h
  | cons x rest ih =>
    obtain ⟨hx, hrest⟩ := List.pairwise_cons.1 hascending
    obtain rfl | h := List.mem_cons.1 h
    · rw [find?, if_pos rfl]
    · rw [find?, if_neg (Ne.symm (Std.ne_of_lt (hx e h)))]
      exact ih hrest h

theorem mem_of_mem_foldl_insert {l : List (String × β)} {d : Dict β} {e : String × β}
    (h : e ∈ (l.foldl (fun d e => d.insert e.1 e.2) d).entries) : e ∈ d.entries ∨ e ∈ l := by
  induction l generalizing d with
  | nil => exact .inl h
  | cons x rest ih =>
    obtain h | h := ih h
    · obtain rfl | h := mem_of_mem_place h
      · exact .inr List.mem_cons_self
      · exact .inl h
    · exact .inr (List.mem_cons_of_mem _ h)

theorem mem_of_mem_ofList {l : List (String × β)} {e : String × β} (h : e ∈ (ofList l).entries) :
    e ∈ l :=
  (mem_of_mem_foldl_insert h).resolve_left List.not_mem_nil

theorem eq_empty_of_entries {d : Dict β} (h : d.entries = []) : d = ∅ := by
  obtain ⟨l, hascending⟩ := d
  obtain rfl : l = [] := h
  rfl

theorem perm_erase {d : Dict β} {k : String} {v : β} (h : d.get? k = some v) :
    d.entries.Perm ((k, v) :: (d.erase k).entries) := by
  obtain ⟨l, hascending⟩ := d
  show l.Perm ((k, v) :: l.filter fun e => e.1 != k)
  induction l with
  | nil => cases h
  | cons x rest ih =>
    obtain ⟨hx, hrest⟩ := List.pairwise_cons.1 hascending
    by_cases hk : k = x.1
    · have hv : (k, v) = x := by
        have h : find? k (x :: rest) = some v := h
        rw [find?, if_pos hk] at h
        cases h
        rw [hk]
      have hlater (e) (he : e ∈ rest) : e.1 ≠ k := hk ▸ Ne.symm (Std.ne_of_lt (hx e he))
      rw [List.filter_cons_of_neg (by simp [hk]), filter_eq_self_of_ne hlater, hv]
    · have h : find? k (x :: rest) = some v := h
      rw [find?, if_neg hk] at h
      rw [List.filter_cons_of_pos (by simpa using Ne.symm hk)]
      exact ((ih hrest h).cons x).trans (List.Perm.swap ..)

theorem mem_of_get? {d : Dict β} {k : String} {v : β} (h : d.get? k = some v) :
    (k, v) ∈ d.entries :=
  (perm_erase h).mem_iff.2 List.mem_cons_self

theorem erase_of_get?_none {d : Dict β} {k : String} (h : d.get? k = none) : d.erase k = d := by
  have hother (e) (he : e ∈ d.entries) : e.1 ≠ k := by
    rintro rfl
    rw [get?_of_mem he] at h
    cases h
  obtain ⟨l, hascending⟩ := d
  unfold erase
  congr
  exact filter_eq_self_of_ne hother

theorem perm_place (k : String) (v : β) {l : List (String × β)}
    (h : l.Pairwise (fun a b => a.1 < b.1)) :
    (place k v l).Perm ((k, v) :: l.filter fun e => e.1 != k) := by
  induction l with
  | nil => exact .refl _
  | cons x rest ih =>
    obtain ⟨hx, hrest⟩ := List.pairwise_cons.1 h
    unfold place
    split
    next hlt =>
      rw [filter_eq_self_of_ne]
      intro e he
      rcases List.mem_cons.1 he with rfl | he
      · exact Ne.symm (Std.ne_of_lt hlt)
      · exact Ne.symm (Std.ne_of_lt (String.lt_trans hlt (hx e he)))
    next =>
      split
      next hk =>
        have hlater (e) (he : e ∈ rest) : e.1 ≠ k := hk ▸ Ne.symm (Std.ne_of_lt (hx e he))
        rw [List.filter_cons_of_neg (by simp [hk]), filter_eq_self_of_ne hlater]
      next hk =>
        rw [List.filter_cons_of_pos (by simpa using Ne.symm hk)]
        exact ((ih hrest).cons x).trans (List.Perm.swap ..)

theorem perm_insert (d : Dict β) (k : String) (v : β) :
    (d.insert k v).entries.Perm ((k, v) :: (d.erase k).entries) :=
  perm_place k v d.ascending

/-! ## lists of entries -/

theorem ext {d d' : Dict β} (h : d.entries = d'.entries) : d = d' := by
  obtain ⟨l, hascending⟩ := d
  obtain ⟨l', hascending'⟩ := d'
  obtain rfl : l = l' := h
  rfl

theorem place_of_lt {k : String} {l : List (String × β)} (h : ∀ e ∈ l, e.1 < k) (v : β) :
    place k v l = l ++ [(k, v)] := by
  induction l with
  | nil => rfl
  | cons x rest ih =>
    obtain ⟨hx, hrest⟩ := List.forall_mem_cons.1 h
    rw [place, if_neg (String.lt_asymm hx), if_neg (Ne.symm (Std.ne_of_lt hx)), ih hrest]
    rfl

theorem entries_foldl_insert {l : List (String × β)} {d : Dict β}
    (h : (d.entries ++ l).Pairwise (fun a b => a.1 < b.1)) :
    (l.foldl (fun d e => d.insert e.1 e.2) d).entries = d.entries ++ l := by
  induction l generalizing d with
  | nil => exact (List.append_nil _).symm
  | cons x rest ih =>
    have hinsert : (d.insert x.1 x.2).entries = d.entries ++ [x] :=
      place_of_lt (fun e he => (List.pairwise_append.1 h).2.2 e he x List.mem_cons_self) x.2
    have hsplit : d.entries ++ x :: rest = (d.insert x.1 x.2).entries ++ rest := by
      rw [hinsert, List.append_assoc]
      rfl
    rw [hsplit] at h ⊢
    exact ih h

/-- **A dictionary is made of its entries.** -/
theorem ofList_entries (d : Dict β) : ofList d.entries = d :=
  ext (entries_foldl_insert (d := empty) d.ascending)

theorem entries_eq_nil_iff {d : Dict β} : d.entries = [] ↔ d = ∅ :=
  ⟨eq_empty_of_entries, fun h => h ▸ rfl⟩

theorem find?_eq_none {k : String} {l : List (String × β)} (h : ∀ e ∈ l, e.1 ≠ k) :
    find? k l = none := by
  induction l with
  | nil => rfl
  | cons x rest ih =>
    obtain ⟨hx, hrest⟩ := List.forall_mem_cons.1 h
    rw [find?, if_neg (Ne.symm hx)]
    exact ih hrest

theorem find?_of_mem {k : String} {v : β} {l : List (String × β)} (h : (k, v) ∈ l)
    (honly : ∀ w, (k, w) ∈ l → w = v) : find? k l = some v := by
  induction l with
  | nil => cases h
  | cons x rest ih =>
    obtain ⟨k', w⟩ := x
    by_cases hk : k = k'
    · subst hk
      rw [find?, if_pos rfl, honly w List.mem_cons_self]
    · rw [find?, if_neg hk]
      refine ih ?_ fun w hw => honly w (List.mem_cons_of_mem _ hw)
      exact (List.mem_cons.1 h).resolve_left fun he => hk (congrArg Prod.fst he)

end Dict

end StepRunner
