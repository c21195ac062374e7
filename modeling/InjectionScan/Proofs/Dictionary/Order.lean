import InjectionScan.Proofs.Dictionary.Lookup

/-! A dictionary does not depend on the order in which its entries are given. -/
namespace InjectionScan.Dictionary

variable {α : Type} {d d' : Dictionary α} {es : List (String × α)}

theorem perm_insertEntry {name : String} (h : name ∉ es.map Prod.fst) (value : α) :
    (insertEntry name value es).Perm ((name, value) :: es) := by
  induction es with
  | nil => exact .refl _
  | cons e es ih =>
    obtain ⟨key, other⟩ := e
    obtain ⟨hkey, hrest⟩ : name ≠ key ∧ name ∉ es.map Prod.fst := by simpa using h
    rw [insertEntry]
    split
    · exact .refl _
    · exact ((ih hrest).cons _).trans (.swap _ _ es)

/-- Entries with new names are all kept. -/
theorem perm_entries_foldl (h : (d.entries.map Prod.fst ++ es.map Prod.fst).Nodup) :
    (es.foldl (fun d e => d.insert e.1 e.2) d).entries.Perm (d.entries ++ es) := by
  induction es generalizing d with
  | nil => simp
  | cons e es ih =>
    have hnew : e.1 ∉ d.entries.map Prod.fst := by
      intro hmem
      exact (List.nodup_append.1 h).2.2 e.1 hmem e.1 (by simp) rfl
    have hinsert : (d.insert e.1 e.2).entries.Perm (e :: d.entries) := perm_insertEntry hnew e.2
    have hnames : ((d.insert e.1 e.2).entries.map Prod.fst ++ es.map Prod.fst).Nodup := by
      refine (((hinsert.map Prod.fst).append_right _).nodup_iff).2 ?_
      rw [List.map_cons] at h
      exact List.perm_middle.nodup_iff.1 h
    rw [List.foldl_cons]
    exact ((ih hnames).trans (hinsert.append_right es)).trans List.perm_middle.symm

theorem nodup_names (d : Dictionary α) : (d.entries.map Prod.fst).Nodup := by
  rw [List.Nodup, List.pairwise_map]
  refine d.increasing.imp ?_
  intro a b hlt heq
  rw [heq] at hlt
  exact String.lt_irrefl _ hlt

theorem eq_of_perm_entries (h : d.entries.Perm d'.entries) : d = d' := by
  have hentries : d.entries = d'.entries := by
    refine h.eq_of_pairwise ?_ d.increasing d'.increasing
    intro a b _ _ hab hba
    exact absurd (String.lt_trans hab hba) (String.lt_irrefl _)
  cases d
  cases d'
  simp_all

theorem nodup_entries (d : Dictionary α) : d.entries.Nodup := by
  refine d.increasing.imp ?_
  rintro a _ hlt rfl
  exact String.lt_irrefl _ hlt

theorem eq_of_get?_eq (h : ∀ name, d.get? name = d'.get? name) : d = d' := by
  refine eq_of_perm_entries ((List.perm_ext_iff_of_nodup d.nodup_entries d'.nodup_entries).2 ?_)
  rintro ⟨name, value⟩
  rw [← get?_eq_some_iff, h, get?_eq_some_iff]

theorem ofList_of_perm (h : es.Perm d.entries) : ofList es = d := by
  have hnames : (es.map Prod.fst).Nodup := (h.map Prod.fst).nodup_iff.2 d.nodup_names
  have hkept : (ofList es).entries.Perm es := perm_entries_foldl (by simpa [empty] using hnames)
  exact eq_of_perm_entries (hkept.trans h)

end InjectionScan.Dictionary
