import StackScript.Code.Basic

/-!
# Tables of slots

A table is proper when its names are distinct and the name at each place has that place as its slot.
Tables start empty or from distinct parameters, and a new name takes the next slot, so all tables of
a program whose parameters are distinct are proper.
-/

namespace StackScript.Slots

/-- The names of a table, in order. -/
def names (slots : Slots) : List String := slots.map (·.1)

/-- Distinct names, numbered in order. -/
structure Proper (slots : Slots) : Prop where
  nodup : slots.names.Nodup
  dense : slots.map (·.2) = List.range slots.length

variable {slots : Slots} {name other : String} {k : Nat}

theorem slot?_eq_none : slots.slot? name = none ↔ name ∉ slots.names := by
  induction slots with
  | nil => simp [slot?, names]
  | cons entry rest ih =>
    rw [slot?, List.find?_cons]
    by_cases h : entry.1 == name
    · have hname : entry.1 = name := by simpa using h
      simp [names, hname]
    · have hne : name ≠ entry.1 := fun heq => h (by simp [heq])
      simp only [h, names, List.map_cons, List.mem_cons, hne, false_or]
      exact ih

theorem mem_of_slot? (h : slots.slot? name = some k) : (name, k) ∈ slots := by
  obtain ⟨entry, hfind, rfl⟩ := Option.map_eq_some_iff.1 h
  have hname : entry.1 = name := by simpa using List.find?_some hfind
  exact hname ▸ List.mem_of_find?_eq_some hfind

theorem put_of_new (h : slots.slot? name = none) (k : Nat) :
    slots.put name k = slots ++ [(name, k)] := by
  rw [slot?_eq_none] at h
  induction slots with
  | nil => rfl
  | cons entry rest ih =>
    have hne : name ≠ entry.1 ∧ name ∉ names rest := by simpa [names] using h
    have hb : (entry.1 == name) = false := by
      simpa using fun heq : entry.1 = name => hne.1 heq.symm
    rw [put, hb, ih hne.2]
    rfl

theorem slot?_append_left {more : Slots} (h : slots.slot? name = some k) :
    Slots.slot? (slots ++ more) name = some k := by
  obtain ⟨entry, hfind, rfl⟩ := Option.map_eq_some_iff.1 h
  simp [slot?, List.find?_append, hfind]

theorem slot?_put (h : slots.slot? name = none) (k : Nat) :
    (slots.put name k).slot? name = some k := by
  have hfind : slots.find? (fun entry => entry.1 == name) = none := by simpa [slot?] using h
  simp [put_of_new h, slot?, List.find?_append, hfind]

theorem prefix_put (h : slots.slot? name = none) (k : Nat) : slots <+: slots.put name k := by
  simp [put_of_new h]

namespace Proper

theorem nil : Proper [] := ⟨by simp [names], rfl⟩

theorem append_new (h : slots.Proper) (hnew : slots.slot? name = none) :
    Proper (slots ++ [(name, slots.length)]) := by
  constructor
  · have := slot?_eq_none.1 hnew
    simp only [names, List.map_append, List.map_cons, List.map_nil]
    exact List.nodup_append.2 ⟨h.nodup, by simp, by
      intro a ha b hb
      simp only [List.mem_singleton] at hb
      rintro rfl
      exact this (hb ▸ ha)⟩
  · simp [h.dense, List.range_succ]

theorem put_new (h : slots.Proper) (hnew : slots.slot? name = none) :
    (slots.put name slots.length).Proper := by
  rw [put_of_new hnew]
  exact h.append_new hnew

theorem getElem? (h : slots.Proper) (hslot : slots.slot? name = some k) :
    slots[k]? = some (name, k) := by
  obtain ⟨i, hi⟩ := List.mem_iff_getElem?.1 (mem_of_slot? hslot)
  have hk : (slots.map (·.2))[i]? = some k := by simp [hi]
  rw [h.dense] at hk
  obtain ⟨hlt, rfl⟩ := List.getElem?_eq_some_iff.1 hk
  simpa using hi

theorem lt_length (h : slots.Proper) (hslot : slots.slot? name = some k) : k < slots.length :=
  (List.getElem?_eq_some_iff.1 (h.getElem? hslot)).1

theorem injective (h : slots.Proper) (hslot : slots.slot? name = some k)
    (hother : slots.slot? other = some k) : name = other := by
  have := (h.getElem? hslot).symm.trans (h.getElem? hother)
  simpa using this

theorem slot?_of_getElem? (h : slots.Proper) {entry : String × Nat} (hk : slots[k]? = some entry) :
    slots.slot? entry.1 = some k := by
  have hmem : entry.1 ∈ slots.names := List.mem_map.2 ⟨entry, List.mem_of_getElem? hk, rfl⟩
  cases hslot : slots.slot? entry.1 with
  | none => exact absurd hmem (slot?_eq_none.1 hslot)
  | some j =>
    have hj := h.getElem? hslot
    have hnames : slots.names[j]? = slots.names[k]? := by simp [names, hj, hk]
    have hlt : j < slots.names.length := by simpa [names] using h.lt_length hslot
    exact congrArg some ((List.getElem?_inj hlt h.nodup).1 hnames)

end Proper

variable {parameters : List String}

theorem foldl_put_of_new (h : parameters.Nodup) (n : Nat)
    (start : Slots) (hstart : ∀ name ∈ parameters, name ∉ start.names) :
    (parameters.zipIdx n).foldl (fun slots entry => slots.put entry.1 entry.2) start =
      start ++ parameters.zipIdx n := by
  induction parameters generalizing n start with
  | nil => simp
  | cons name rest ih =>
    obtain ⟨hname, hrest⟩ := List.nodup_cons.1 h
    have hnew : start.slot? name = none := slot?_eq_none.2 (hstart name (by simp))
    rw [List.zipIdx_cons, List.foldl_cons, put_of_new hnew, ih hrest (n + 1) _]
    · simp
    · intro other hother
      have hne : other ≠ name := fun heq => hname (heq ▸ hother)
      have := hstart other (by simp [hother])
      simpa [names, hne] using this

theorem ofParameters_eq (h : parameters.Nodup) : ofParameters parameters = parameters.zipIdx := by
  have := foldl_put_of_new h 0 [] (by simp [names])
  simpa [ofParameters] using this

theorem proper_ofParameters (h : parameters.Nodup) : (ofParameters parameters).Proper := by
  rw [ofParameters_eq h]
  exact ⟨by simpa [names] using h, by simp [List.range_eq_range']⟩

end StackScript.Slots
