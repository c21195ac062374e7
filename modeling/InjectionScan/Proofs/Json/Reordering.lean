import InjectionScan.Proofs.Document.Reordering
import InjectionScan.Proofs.Json.Reading

/-! Reading a document back from its text does no more than reorder it. -/
namespace InjectionScan.Json

open Document

section Fields

variable {done fields : List (String × Document)}

theorem mem_insertField {key : String} {x : Document} {f : String × Document}
    (h : f ∈ insertField key x fields) : f = (key, x) ∨ f ∈ fields := by
  induction fields with
  | nil => simpa [insertField] using h
  | cons g fields ih =>
    obtain ⟨k, v⟩ := g
    rw [insertField] at h
    split at h
    · simpa using h
    · split at h
      · rcases List.mem_cons.1 h with h | h
        · exact .inl h
        · exact .inr (List.mem_cons_of_mem _ h)
      · rcases List.mem_cons.1 h with h | h
        · exact .inr (h ▸ List.mem_cons_self)
        · exact (ih h).imp_right (List.mem_cons_of_mem _)

/-- Every field that is read was written. -/
theorem mem_asReadFields {f : String × Document} (h : f ∈ asReadFields done fields) :
    f ∈ done ∨ ∃ g ∈ fields, f = (g.1, asRead g.2) := by
  induction fields generalizing done with
  | nil => exact .inl h
  | cons g fields ih =>
    rw [asReadFields] at h
    rcases ih h with h | ⟨g', hg', rfl⟩
    · rcases mem_insertField h with rfl | h
      · exact .inr ⟨g, List.mem_cons_self, rfl⟩
      · exact .inl h
    · exact .inr ⟨g', List.mem_cons_of_mem _ hg', rfl⟩

theorem perm_names_insertField {key : String} (h : key ∉ fields.map Prod.fst) (x : Document) :
    ((insertField key x fields).map Prod.fst).Perm (key :: fields.map Prod.fst) := by
  induction fields with
  | nil => exact .refl _
  | cons g fields ih =>
    obtain ⟨k, v⟩ := g
    simp only [List.map_cons, List.mem_cons, not_or] at h
    rw [insertField]
    split
    · exact .refl _
    · rw [if_neg h.1]
      exact ((ih h.2).cons k).trans (.swap key k _)

theorem perm_names_asReadFields (h : (done.map Prod.fst ++ fields.map Prod.fst).Nodup) :
    ((asReadFields done fields).map Prod.fst).Perm (done.map Prod.fst ++ fields.map Prod.fst) := by
  induction fields generalizing done with
  | nil => simp [asReadFields]
  | cons g fields ih =>
    have hnew : g.1 ∉ done.map Prod.fst := by
      intro hmem
      exact (List.nodup_append.1 h).2.2 g.1 hmem g.1 (by simp) rfl
    have hinsert := perm_names_insertField hnew (asRead g.2)
    have hmiddle : (done.map Prod.fst ++ (g :: fields).map Prod.fst).Perm
        ((insertField g.1 (asRead g.2) done).map Prod.fst ++ fields.map Prod.fst) :=
      List.perm_middle.trans (hinsert.symm.append_right _)
    rw [asReadFields]
    exact (ih (hmiddle.nodup_iff.1 h)).trans hmiddle.symm

end Fields

theorem asRead_eq_of_isAtom {d : Document} (h : d.isAtom = true) : asRead d = d := by
  cases d with
  | array => cases h
  | object => cases h
  | _ => rfl

namespace Exact

variable {d d' : Document}

theorem nodup_names {fields : List (String × Document)} (h : Exact (.object fields)) :
    (fields.map Prod.fst).Nodup := by
  cases h with
  | object hnames => exact hnames

theorem reordered_self (h : Exact d) : d.Reordered d := by
  induction h with
  | null => exact .atom rfl
  | bool b => exact .atom rfl
  | nat h => exact .atom rfl
  | string s => exact .atom rfl
  | array h ih => exact .array_self ih
  | object hnames h ih => exact .object_of_perm (.refl _) hnames ih

/-- Whatever the order of the fields is, the text still holds the document exactly. -/
theorem of_reordered (h : Exact d) (hd : d.Reordered d') : Exact d' := by
  induction hd with
  | atom => exact h
  | @array xs ys hlength hitems ih =>
    cases h with
    | array h =>
      refine .array fun y hy => ?_
      obtain ⟨i, hi, rfl⟩ := List.mem_iff_getElem.1 hy
      have hx : i < xs.length := hlength ▸ hi
      exact ih _ (getElem_mem_zip hx hi) (h _ (List.getElem_mem hx))
  | @object fs gs hnames hvalues ih =>
    cases h with
    | object hnodup h =>
      refine .object (hnames.nodup_iff.1 hnodup) ?_
      rintro ⟨name, y⟩ hy
      obtain ⟨⟨_, x⟩, hx, rfl⟩ := List.mem_map.1 (hnames.mem_iff.2 (List.mem_map_of_mem hy))
      exact ih _ x y hx hy (h _ hx)

/-- What is read from the text is the document reordered. -/
theorem reordered_asRead (h : Exact d) (hd : d.Reordered d') : d.Reordered (asRead d') := by
  induction hd with
  | @atom d hatom =>
    rw [asRead_eq_of_isAtom hatom]
    exact .atom hatom
  | @array xs ys hlength hitems ih =>
    cases h with
    | array h =>
      rw [asRead, asReadItems_eq]
      refine .array (by simpa using hlength) ?_
      rw [List.zip_map_right]
      intro p hp
      obtain ⟨q, hq, rfl⟩ := List.mem_map.1 hp
      exact ih q hq (h _ (List.of_mem_zip hq).1)
  | @object fs gs hnames hvalues ih =>
    cases h with
    | object hnodup h =>
      have hread : ((asReadFields [] gs).map Prod.fst).Perm (gs.map Prod.fst) :=
        perm_names_asReadFields (hnames.nodup_iff.1 hnodup)
      rw [asRead]
      refine .object (hnames.trans hread.symm) ?_
      intro name x y hx hy
      rcases mem_asReadFields hy with hy | ⟨g, hg, heq⟩
      · cases hy
      · cases heq
        exact ih _ x g.2 hx hg (h _ hx)

theorem decode_asRead {α : Type} {item : Decoder α} {dialect : Dialect} {a : α} (h : Exact d)
    (hitem : item.Finds dialect d a) : item dialect (asRead d) = .ok a :=
  hitem _ (h.reordered_asRead h.reordered_self)

end Exact

end InjectionScan.Json
