import InjectionScan.Dictionary

/-! Looking up names in dictionaries. -/
namespace InjectionScan.Dictionary

variable {α : Type} {d : Dictionary α} {name key : String} {value : α}

theorem get?_empty (key : String) : (empty : Dictionary α).get? key = none := rfl

theorem find?_insertEntry (name key : String) (value : α) (es : List (String × α)) :
    (insertEntry name value es).find? (fun e => e.1 == key) =
      if name = key then some (name, value) else es.find? fun e => e.1 == key := by
  induction es with
  | nil => by_cases h : name = key <;> simp [insertEntry, h]
  | cons e es ih =>
    obtain ⟨k, v⟩ := e
    rw [insertEntry]
    split
    · by_cases h : name = key <;> simp [h]
    · split
      · next hk =>
        subst hk
        by_cases h : name = key <;> simp [h]
      · next hk =>
        by_cases h : k = key
        · subst h
          simp [hk]
        · simp [h, ih]

theorem get?_insert (d : Dictionary α) (name key : String) (value : α) :
    (d.insert name value).get? key = if name = key then some value else d.get? key := by
  rw [get?, insert, find?_insertEntry]
  by_cases h : name = key <;> simp [h, get?]

/-- No name has two entries. -/
theorem get?_eq_some_iff : d.get? name = some value ↔ (name, value) ∈ d.entries := by
  obtain ⟨es, h⟩ := d
  simp only [get?]
  induction es with
  | nil => simp
  | cons e es ih =>
    obtain ⟨k, v⟩ := e
    obtain ⟨hfirst, hrest⟩ := List.pairwise_cons.1 h
    by_cases hk : k = name
    · subst hk
      have hnot : (k, value) ∉ es := fun hmem => String.lt_irrefl k (hfirst _ hmem)
      simp [hnot, eq_comm]
    · simpa [hk, Ne.symm hk] using ih hrest

theorem isSome_get?_iff : (d.get? name).isSome = true ↔ name ∈ d.entries.map Prod.fst := by
  simp [get?, List.find?_isSome]

end InjectionScan.Dictionary
