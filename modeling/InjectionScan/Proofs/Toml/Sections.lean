import InjectionScan.Proofs.Toml.Lines

/-! Documents that are laid out in sections are read back. -/
namespace InjectionScan.Toml

open Line

/-- Keys, each with the text of its value and the value. -/
abbrev Entries := List (String × String × Document)

/-- The object with the values of keys. -/
def objectOf (es : Entries) : Document := .object (es.map fun e => (e.1, e.2.2))

/-- A table with its keys and the tables inside it. -/
structure Section where
  name : String
  entries : Entries
  inner : List (String × Entries)

namespace Section

/-- The names of all that a table holds. -/
def names (s : Section) : List String := s.entries.map Prod.fst ++ s.inner.map Prod.fst

def innerLines (name : String) (inner : List (String × Entries)) : List Line :=
  inner.flatMap fun t => [blank, header [name, t.1]] ++ entryLines t.2

/-- The lines of a section, with a blank one in front. -/
def lines (s : Section) : List Line :=
  [blank, header [s.name]] ++ entryLines s.entries ++ innerLines s.name s.inner

def innerItems (inner : List (String × Entries)) : List (String × Item) :=
  inner.map fun t => (t.1, .table false false (itemsOf t.2))

/-- The table that the lines of a section make, under its name. -/
def item (s : Section) : String × Item :=
  (s.name, .table false false (itemsOf s.entries ++ innerItems s.inner))

/-- The fields of the object that a section stands for. -/
def fields (s : Section) : List (String × Document) :=
  (s.entries.map fun e => (e.1, e.2.2)) ++ s.inner.map fun t => (t.1, objectOf t.2)

/-- The section can be written: its headers need no quotes, no name stands twice in a table, and the
texts of the values are read as the values. -/
structure Sound (s : Section) : Prop where
  bare : IsBare s.name
  bareInner : ∀ t ∈ s.inner, IsBare t.1
  nodup : s.names.Nodup
  nodupInner : ∀ t ∈ s.inner, (t.2.map Prod.fst).Nodup
  reads : ∀ e ∈ s.entries, ReadsAs e.2.1 e.2.2
  readsInner : ∀ t ∈ s.inner, ∀ e ∈ t.2, ReadsAs e.2.1 e.2.2

end Section

section Tables

variable {d after : Draft} {root current : List (String × Item)} {name sub : String}

/-- The table of a draft, with the open one in its place. -/
def Closes (d : Draft) (entries : List (String × Item)) : Prop :=
  d.close = some (.table false false entries)

theorem lookup_append_new {α : Type} {xs : List (String × α)} (h : name ∉ xs.map Prod.fst) (x : α) :
    (xs ++ [(name, x)]).lookup name = some x := by
  rw [List.lookup_append, lookup_eq_none_iff_notMem.2 h, Option.none_or, lookup_cons_ite, if_pos rfl]

theorem setEntry_of_notMem {xs : List (String × Item)} (h : name ∉ xs.map Prod.fst) (x : Item) :
    Item.setEntry name x xs = xs ++ [(name, x)] := by
  induction xs with
  | nil => rfl
  | cons e xs ih =>
    simp only [List.map_cons, List.mem_cons, not_or] at h
    rw [Item.setEntry, if_neg (by simpa using Ne.symm h.1), ih h.2, List.cons_append]

theorem setEntry_append_new {xs : List (String × Item)} (h : name ∉ xs.map Prod.fst) (x y : Item) :
    Item.setEntry name y (xs ++ [(name, x)]) = xs ++ [(name, y)] := by
  induction xs with
  | nil => simp [Item.setEntry]
  | cons e xs ih =>
    simp only [List.map_cons, List.mem_cons, not_or] at h
    rw [List.cons_append, Item.setEntry, if_neg (by simpa using Ne.symm h.1), ih h.2,
      List.cons_append]

/-- A header opens an empty table under a new name. -/
theorem drafts_header (h : Closes d root) (hname : name ∉ root.map Prod.fst) :
    Drafts [blank, header [name]] d (draftOf root [name] []) := by
  have hnone := lookup_eq_none_iff_notMem.2 hname
  simp only [Closes] at h
  simp [Drafts, apply, Draft.openTable, h, Item.descend, Item.takeTable, hnone, draftOf, Item.fresh]

theorem closes_draftOf (hname : name ∉ root.map Prod.fst) (current : List (String × Item)) :
    Closes (draftOf root [name] current) (root ++ [(name, .table false false current)]) := by
  simp [Closes, Draft.close, draftOf, Item.descend, Item.putTable, setEntry_of_notMem hname]

/-- A header with two names opens an empty table in the last table. -/
theorem drafts_innerHeader (h : Closes d (root ++ [(name, .table false false current)]))
    (hname : name ∉ root.map Prod.fst) (hsub : sub ∉ current.map Prod.fst) :
    Drafts [blank, header [name, sub]] d
      (draftOf (root ++ [(name, .table false false current)]) [name, sub] []) := by
  have hnone := lookup_eq_none_iff_notMem.2 hsub
  simp only [Closes] at h
  simp [Drafts, apply, Draft.openTable, h, Item.descend, Item.takeTable, hnone,
    lookup_append_new hname, setEntry_append_new hname, draftOf, Item.fresh]

theorem closes_innerDraftOf (hname : name ∉ root.map Prod.fst) (hsub : sub ∉ current.map Prod.fst)
    (inner : List (String × Item)) :
    Closes (draftOf (root ++ [(name, .table false false current)]) [name, sub] inner)
      (root ++ [(name, .table false false (current ++ [(sub, .table false false inner)]))]) := by
  simp [Closes, Draft.close, draftOf, Item.descend, Item.putTable, lookup_append_new hname,
    setEntry_append_new hname, setEntry_of_notMem hsub]

/-- The tables inside a table come after its keys, in their order. -/
theorem exists_drafts_innerLines {inner : List (String × Entries)}
    (h : Closes d (root ++ [(name, .table false false current)]))
    (hname : name ∉ root.map Prod.fst)
    (hnames : (current.map Prod.fst ++ inner.map Prod.fst).Nodup)
    (hinner : ∀ t ∈ inner, (t.2.map Prod.fst).Nodup) :
    ∃ after, Drafts (Section.innerLines name inner) d after ∧
      Closes after (root ++ [(name, .table false false (current ++ Section.innerItems inner))]) := by
  induction inner generalizing d current with
  | nil => exact ⟨d, rfl, by simpa [Section.innerItems] using h⟩
  | cons t inner ih =>
    obtain ⟨hkeys, hothers⟩ := List.forall_mem_cons.1 hinner
    have hsub : t.1 ∉ current.map Prod.fst := by
      intro hmem
      exact (List.nodup_append.1 hnames).2.2 t.1 hmem t.1 (by simp) rfl
    have hopened := (drafts_innerHeader h hname hsub).append (drafts_entryLines_nil t.2 hkeys _ _)
    have hclosed := closes_innerDraftOf hname hsub (itemsOf t.2)
    obtain ⟨after, hdrafts, hcloses⟩ := ih hclosed (by simpa using hnames) hothers
    refine ⟨after, ?_, by simpa [Section.innerItems] using hcloses⟩
    have hlines : Section.innerLines name (t :: inner) =
        [blank, header [name, t.1]] ++ entryLines t.2 ++ Section.innerLines name inner := rfl
    rw [hlines]
    exact hopened.append hdrafts

theorem map_fst_itemsOf (es : Entries) : (itemsOf es).map Prod.fst = es.map Prod.fst := by
  rw [itemsOf, List.map_map]
  rfl

/-- A section adds its table to the tables before it. -/
theorem exists_drafts_lines {s : Section} (hs : s.Sound) (h : Closes d root)
    (hname : s.name ∉ root.map Prod.fst) :
    ∃ after, Drafts s.lines d after ∧ Closes after (root ++ [s.item]) := by
  have hentries : (s.entries.map Prod.fst).Nodup := (List.nodup_append.1 hs.nodup).1
  have hopened := (drafts_header h hname).append (drafts_entryLines_nil s.entries hentries _ _)
  have hnames : ((itemsOf s.entries).map Prod.fst ++ s.inner.map Prod.fst).Nodup := by
    rw [map_fst_itemsOf]
    exact hs.nodup
  obtain ⟨after, hdrafts, hcloses⟩ := exists_drafts_innerLines
    (closes_draftOf hname (itemsOf s.entries)) hname hnames hs.nodupInner
  exact ⟨after, hopened.append hdrafts, hcloses⟩

theorem exists_drafts_sections {ss : List Section} (hs : ∀ s ∈ ss, s.Sound) (h : Closes d root)
    (hnames : (root.map Prod.fst ++ ss.map Section.name).Nodup) :
    ∃ after, Drafts (ss.flatMap Section.lines) d after ∧
      Closes after (root ++ ss.map Section.item) := by
  induction ss generalizing d root with
  | nil => exact ⟨d, rfl, by simpa using h⟩
  | cons s ss ih =>
    obtain ⟨hfirst, hrest⟩ := List.forall_mem_cons.1 hs
    have hname : s.name ∉ root.map Prod.fst := by
      intro hmem
      exact (List.nodup_append.1 hnames).2.2 s.name hmem s.name (by simp) rfl
    obtain ⟨middle, hdrafts, hcloses⟩ := exists_drafts_lines hfirst h hname
    obtain ⟨after, hmore, hlast⟩ := ih hrest hcloses (by simpa [Section.item] using hnames)
    refine ⟨after, ?_, by simpa using hlast⟩
    rw [List.flatMap_cons]
    exact hdrafts.append hmore

end Tables

section Text

variable {ss : List Section}

/-- The lines of sections with blank lines between them. -/
def documentLines (ss : List Section) : List Line := (ss.flatMap Section.lines).tail

/-- The document that sections stand for. -/
def documentOf (ss : List Section) : Document :=
  .object (ss.map fun s => (s.name, .object s.fields))

/-- The blank line in front does nothing. -/
theorem foldlM_documentLines (ss : List Section) (d : Draft) :
    (documentLines ss).foldlM apply d = (ss.flatMap Section.lines).foldlM apply d := by
  cases ss <;> rfl

theorem sound_of_mem_title {path : List String} (h : (header path).Sound) :
    ∀ l ∈ [blank, header path], l.Sound := by
  simp only [List.forall_mem_cons]
  exact ⟨trivial, h, by simp⟩

theorem sound_of_mem_lines {s : Section} (hs : s.Sound) : ∀ l ∈ s.lines, l.Sound := by
  have htitle : (header [s.name]).Sound := ⟨by simp, by simp [depthLimit], by simpa using hs.bare⟩
  simp only [Section.lines, List.forall_mem_append]
  refine ⟨⟨sound_of_mem_title htitle, sound_of_mem_entryLines hs.reads⟩, ?_⟩
  intro l hl
  obtain ⟨t, ht, hl⟩ := List.mem_flatMap.1 hl
  have hinner : (header [s.name, t.1]).Sound :=
    ⟨by simp, by simp [depthLimit], by simpa using ⟨hs.bare, hs.bareInner t ht⟩⟩
  rcases List.mem_append.1 hl with hl | hl
  · exact sound_of_mem_title hinner l hl
  · exact sound_of_mem_entryLines (hs.readsInner t ht) l hl

theorem entryDocuments_append (xs ys : List (String × Item)) :
    Item.entryDocuments (xs ++ ys) = Item.entryDocuments xs ++ Item.entryDocuments ys := by
  induction xs with
  | nil => rfl
  | cons x xs ih =>
    rw [List.cons_append, Item.entryDocuments, ih, Item.entryDocuments, List.cons_append]

theorem entryDocuments_innerItems (inner : List (String × Entries)) :
    Item.entryDocuments (Section.innerItems inner) = inner.map fun t => (t.1, objectOf t.2) := by
  induction inner with
  | nil => rfl
  | cons t inner ih =>
    rw [Section.innerItems, List.map_cons, Item.entryDocuments, ← Section.innerItems, ih,
      Item.toDocument, entryDocuments_itemsOf, List.map_cons, objectOf]

theorem toDocument_items (ss : List Section) :
    (Item.table false false (ss.map Section.item)).toDocument = documentOf ss := by
  rw [Item.toDocument, documentOf]
  congr 1
  induction ss with
  | nil => rfl
  | cons s ss ih =>
    rw [List.map_cons, Section.item, Item.entryDocuments, ih, Item.toDocument,
      entryDocuments_append, entryDocuments_itemsOf, entryDocuments_innerItems, List.map_cons,
      Section.fields]

/-- A text in sections is read as their document. -/
theorem parse?_of_sections {text : String} (htext : text.toList = (documentLines ss).flatMap Line.text)
    (hnames : (ss.map Section.name).Nodup) (hs : ∀ s ∈ ss, s.Sound) :
    parse? text = some (documentOf ss) := by
  have hsound : ∀ l ∈ documentLines ss, l.Sound := by
    intro l hl
    obtain ⟨s, hmem, hl⟩ := List.mem_flatMap.1 (List.mem_of_mem_tail hl)
    exact sound_of_mem_lines (hs s hmem) l hl
  have hempty : Closes {} [] := rfl
  obtain ⟨after, hdrafts, hcloses⟩ := exists_drafts_sections hs hempty hnames
  rw [parse?_of_lines htext hsound, foldlM_documentLines, hdrafts, Option.bind_some, hcloses,
    Option.map_some, List.nil_append, toDocument_items]

end Text

end InjectionScan.Toml
