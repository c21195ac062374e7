import InjectionScan.Proofs.Codec.Config
import InjectionScan.Proofs.Toml.Sections

/-! The tables of a configuration, or some of them, laid out in sections. -/
namespace InjectionScan.Config

open Toml (Entries Section ReadsAs)

theorem Table.isBare_name (t : Table) : Toml.IsBare t.name := by
  cases t <;> decide

namespace Key

variable {c : Config} {k : Key} {patterns : List (String × List String)}

/-- The text of a value that stands on the line of its key. -/
def text? (c : Config) : Key → Option String
  | failOn => some (Toml.renderString c.general.failOn)
  | disabled => some (Toml.renderStrings c.rules.disabled)
  | paths => some (Toml.renderStrings c.ignore.paths)
  | findings => some (Toml.renderStrings c.ignore.findings)
  | format => some (Toml.renderString c.output.format)
  | color => some (if c.output.color then "true" else "false")
  | maxFindings => some (toString c.output.maxFindings)
  | severity | perPath => none

def entry? (c : Config) (k : Key) : Option (String × Document) :=
  (k.text? c).map fun text => (text, k.document c)

/-- The entries of a value that is a table, with the patterns for paths in the order given. -/
def entries? (patterns : List (String × List String)) (c : Config) : Key → Option Entries
  | severity => some (c.rules.severity.entries.map fun e =>
      (e.1, Toml.renderString e.2.name, e.2.encode))
  | perPath => some (patterns.map fun e => (e.1, Toml.renderStrings e.2, .strings e.2))
  | _ => none

theorem isBare_name (k : Key) : Toml.IsBare k.name := by
  cases k <;> decide

/-- A value is either on a line or in a table. -/
theorem isSome_entry?_eq (k : Key) : (k.entry? c).isSome = !(k.entries? patterns c).isSome := by
  cases k <;> rfl

theorem readsAs_of_entry? {e : String × Document} (hmax : c.output.maxFindings < Nat.pow 2 63)
    (h : k.entry? c = some e) : ReadsAs e.1 e.2 := by
  cases k with
  | failOn | format => exact Option.some.inj h ▸ Toml.readsAs_renderString _
  | disabled | paths | findings => exact Option.some.inj h ▸ Toml.readsAs_renderStrings _
  | color => exact Option.some.inj h ▸ Toml.readsAs_bool _
  | maxFindings => exact Option.some.inj h ▸ Toml.readsAs_nat hmax
  | severity | perPath => cases h

variable {es : Entries}

theorem readsAs_of_entries? (h : k.entries? patterns c = some es) :
    ∀ e ∈ es, ReadsAs e.2.1 e.2.2 := by
  intro e he
  cases k with
  | severity =>
    cases h
    obtain ⟨x, -, rfl⟩ := List.mem_map.1 he
    exact Toml.readsAs_renderString _
  | perPath =>
    cases h
    obtain ⟨x, -, rfl⟩ := List.mem_map.1 he
    exact Toml.readsAs_renderStrings _
  | _ => cases h

theorem nodup_of_entries? (hpatterns : patterns.Perm c.ignore.perPath.entries)
    (h : k.entries? patterns c = some es) : (es.map Prod.fst).Nodup := by
  cases k with
  | severity =>
    cases h
    rw [List.map_map]
    exact c.rules.severity.nodup_names
  | perPath =>
    cases h
    rw [List.map_map]
    exact (hpatterns.map Prod.fst).nodup_iff.2 c.ignore.perPath.nodup_names
  | _ => cases h

theorem reordered_of_entries? (hpatterns : patterns.Perm c.ignore.perPath.entries)
    (h : k.entries? patterns c = some es) :
    (k.document c).Reordered (Toml.objectOf es) := by
  cases k with
  | severity =>
    cases h
    rw [Toml.objectOf, List.map_map]
    exact reordered_entries (fun _ => .atom rfl) (.refl _)
  | perPath =>
    cases h
    rw [Toml.objectOf, List.map_map]
    exact reordered_entries .strings_self hpatterns
  | _ => cases h

end Key

/-- Keys and tables that a configuration does not have. A key of one table is a new one in another. -/
structure Extras where
  keys : Table → Entries
  tables : List Section
  newKeys : ∀ t, ∀ e ∈ keys t, ∀ k : Key, k.table = t → e.1 ≠ k.name
  nodupKeys : ∀ t, ((keys t).map Prod.fst).Nodup
  readKeys : ∀ t, ∀ e ∈ keys t, ReadsAs e.2.1 e.2.2
  newTables : ∀ x ∈ tables, ∀ t : Table, x.name ≠ t.name
  nodupTables : (tables.map Section.name).Nodup
  soundTables : ∀ x ∈ tables, x.Sound

def Extras.none : Extras where
  keys _ := []
  tables := []
  newKeys := by simp
  nodupKeys := by simp
  readKeys := by simp
  newTables := by simp
  nodupTables := by simp
  soundTables := by simp

section Names

variable {ι α β : Type} (name : ι → String) (f : ι → Option α)

theorem names_filterMap (is : List ι) :
    (is.filterMap fun i => (f i).map fun a => (name i, a)).map Prod.fst =
      (is.filter fun i => (f i).isSome).map name := by
  induction is with
  | nil => rfl
  | cons i is ih =>
    cases hi : f i with
    | none => simpa [hi] using ih
    | some a => simpa [hi] using ih

theorem values_filterMap (g : α → β) (is : List ι) :
    (is.filterMap fun i => (f i).map fun a => (name i, a)).map (fun e => (e.1, g e.2)) =
      is.filterMap fun i => ((f i).map g).map fun b => (name i, b) := by
  simp only [List.map_filterMap, Option.map_map, Function.comp_def]

end Names

variable {c : Config} {s : Selection} {x : Extras} {t : Table}
  {perPath : List (String × List String)}

/-- The section of a table: the lines of its keys, what is added, and its dictionaries. -/
def tableSection (perPath : List (String × List String)) (c : Config) (s : Selection) (x : Extras)
    (t : Table) : Section where
  name := t.name
  entries := ((t.keys.filter s.keys).filterMap fun k => (k.entry? c).map fun e => (k.name, e)) ++
    x.keys t
  inner := (t.keys.filter s.keys).filterMap fun k => (k.entries? perPath c).map fun es => (k.name, es)

/-- The sections of the tables that are kept, and the ones that are added. -/
def sections (perPath : List (String × List String)) (c : Config) (s : Selection) (x : Extras) :
    List Section :=
  (Table.all.filter s.tables).map (c.tableSection perPath s x) ++ x.tables

theorem mem_kept {k : Key} (h : k ∈ t.keys.filter s.keys) : k.table = t :=
  Key.mem_keys_iff.1 (List.mem_filter.1 h).1

theorem nodup_names_tableSection : (c.tableSection perPath s x t).names.Nodup := by
  have hkeys : t.keys.Nodup := by cases t <;> decide
  have hkept (p : Key → Bool) : (((t.keys.filter s.keys).filter p).map Key.name).Nodup :=
    ((hkeys.filter _).filter p).map Key.name_injective
  rw [Section.names, tableSection, List.map_append, names_filterMap, names_filterMap]
  refine List.nodup_append.2 ⟨List.nodup_append.2 ⟨hkept _, x.nodupKeys t, ?_⟩, hkept _, ?_⟩
  · rintro name hname _ hnew rfl
    obtain ⟨k, hk, rfl⟩ := List.mem_map.1 hname
    obtain ⟨e, he, heq⟩ := List.mem_map.1 hnew
    exact x.newKeys t e he k (mem_kept (List.mem_filter.1 hk).1) heq
  · rintro name hname _ hinner rfl
    obtain ⟨j, hj, rfl⟩ := List.mem_map.1 hinner
    have hj' := (List.mem_filter.1 hj).2
    rcases List.mem_append.1 hname with hname | hname
    · -- No key has both a line and a table.
      obtain ⟨k, hk, heq⟩ := List.mem_map.1 hname
      obtain rfl := Key.name_injective heq
      have hline := (List.mem_filter.1 hk).2
      rw [Key.isSome_entry?_eq, hj'] at hline
      cases hline
    · obtain ⟨e, he, heq⟩ := List.mem_map.1 hname
      exact x.newKeys t e he j (mem_kept (List.mem_filter.1 hj).1) heq

theorem mem_inner {p : String × Entries} (h : p ∈ (c.tableSection perPath s x t).inner) :
    ∃ k : Key, k.name = p.1 ∧ k.entries? perPath c = some p.2 := by
  obtain ⟨k, -, hk⟩ := List.mem_filterMap.1 h
  obtain ⟨es, hes, rfl⟩ := Option.map_eq_some_iff.1 hk
  exact ⟨k, rfl, hes⟩

theorem sound_tableSection (hmax : c.output.maxFindings < Nat.pow 2 63)
    (hperPath : perPath.Perm c.ignore.perPath.entries) : (c.tableSection perPath s x t).Sound where
  bare := t.isBare_name
  bareInner p hp := by
    obtain ⟨k, hname, -⟩ := mem_inner hp
    exact hname ▸ k.isBare_name
  nodup := nodup_names_tableSection
  nodupInner p hp := by
    obtain ⟨k, -, hes⟩ := mem_inner hp
    exact Key.nodup_of_entries? hperPath hes
  reads e he := by
    rcases List.mem_append.1 he with he | he
    · obtain ⟨k, -, hk⟩ := List.mem_filterMap.1 he
      obtain ⟨_, hentry, rfl⟩ := Option.map_eq_some_iff.1 hk
      exact Key.readsAs_of_entry? hmax hentry
    · exact x.readKeys t e he
  readsInner p hp := by
    obtain ⟨k, -, hes⟩ := mem_inner hp
    exact Key.readsAs_of_entries? hes

theorem nodup_names_sections : ((c.sections perPath s x).map Section.name).Nodup := by
  have hall : Table.all.Nodup := by decide
  rw [sections, List.map_append, List.map_map]
  refine List.nodup_append.2 ⟨(hall.filter _).map Table.name_injective, x.nodupTables, ?_⟩
  rintro name hname _ hnew rfl
  obtain ⟨t, -, rfl⟩ := List.mem_map.1 hname
  obtain ⟨y, hy, heq⟩ := List.mem_map.1 hnew
  exact x.newTables y hy t heq

theorem sound_of_mem_sections (hmax : c.output.maxFindings < Nat.pow 2 63)
    (hperPath : perPath.Perm c.ignore.perPath.entries) :
    ∀ y ∈ c.sections perPath s x, y.Sound := by
  intro y hy
  rcases List.mem_append.1 hy with hy | hy
  · obtain ⟨t, -, rfl⟩ := List.mem_map.1 hy
    exact sound_tableSection hmax hperPath
  · exact x.soundTables y hy

/-- A key is looked up on its line or in its table, whatever is added. -/
theorem lookup_fields {k : Key} (hk : k.table = t) :
    (c.tableSection perPath s x t).fields.lookup k.name =
      if s.keys k then
        ((k.entry? c).map Prod.snd).or ((k.entries? perPath c).map Toml.objectOf)
      else none := by
  have hnew : ((x.keys t).map fun e => (e.1, e.2.2)).lookup k.name = none := by
    rw [lookup_eq_none_iff_notMem, List.map_map]
    intro hmem
    obtain ⟨e, he, heq⟩ := List.mem_map.1 hmem
    exact x.newKeys t e he k hk heq
  have hkept : k ∈ t.keys.filter s.keys ↔ s.keys k = true := by
    rw [List.mem_filter, and_iff_right (Key.mem_keys_iff.2 hk)]
  simp only [Section.fields, tableSection, List.map_append]
  rw [values_filterMap, values_filterMap _ _ Toml.objectOf,
    List.lookup_append, List.lookup_append, lookup_filterMap Key.name_injective, hnew,
    lookup_filterMap Key.name_injective, Option.or_none]
  simp only [hkept]
  split
  · rfl
  · rfl

theorem holdsKeys_fields (hperPath : perPath.Perm c.ignore.perPath.entries) :
    c.HoldsKeys s t (c.tableSection perPath s x t).fields := by
  intro k hk
  rw [lookup_fields hk]
  split
  · next hkept =>
    cases hentries : k.entries? perPath c with
    | none =>
      have hline : (k.entry? c).isSome = true := by rw [Key.isSome_entry?_eq, hentries]; rfl
      obtain ⟨e, he⟩ := Option.isSome_iff_exists.1 hline
      obtain ⟨text, -, rfl⟩ := Option.map_eq_some_iff.1 he
      exact ⟨k.document c, by rw [he]; rfl, k.reordered_document c⟩
    | some es =>
      have hline : k.entry? c = none := by
        rw [← Option.not_isSome_iff_eq_none, Key.isSome_entry?_eq, hentries]
        exact Bool.false_ne_true
      exact ⟨_, by rw [hline]; rfl, Key.reordered_of_entries? hperPath hentries⟩
  · rfl

/-- The sections stand for a part of the configuration. -/
theorem isPart_documentOf (hperPath : perPath.Perm c.ignore.perPath.entries) :
    c.IsPart s (Toml.documentOf (c.sections perPath s x)) := by
  refine ⟨_, rfl, fun t => ?_⟩
  have hnew : (x.tables.map fun y => (y.name, Document.object y.fields)).lookup t.name = none := by
    rw [lookup_eq_none_iff_notMem, List.map_map]
    intro hmem
    obtain ⟨y, hy, heq⟩ := List.mem_map.1 hmem
    exact x.newTables y hy t heq
  have htable := lookup_map Table.name_injective
    (fun t => Document.object (c.tableSection perPath s x t).fields) (Table.all.filter s.tables) t
  have hkept : t ∈ Table.all.filter s.tables ↔ s.tables t = true := by
    rw [List.mem_filter, and_iff_right t.mem_all]
  rw [sections, List.map_append, List.map_map, List.lookup_append, hnew, Option.or_none]
  simp only [hkept] at htable
  split
  · next h =>
    rw [if_pos h] at htable
    exact ⟨_, htable, holdsKeys_fields hperPath⟩
  · next h =>
    rw [if_neg h] at htable
    exact htable

end InjectionScan.Config
