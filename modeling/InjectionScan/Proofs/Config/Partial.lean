import InjectionScan.Proofs.Config.RoundTrip

/-! A file may have any part of a configuration; the rest has its defaults. -/
namespace InjectionScan.Config

open Toml (Section documentOf documentLines)
open Json (Exact)

variable {c : Config} {s : Selection} {x : Extras} {t : Table}
  {perPath : List (String × List String)}

/-- The text of a part of a configuration, in sections. -/
def partText (perPath : List (String × List String)) (c : Config) (s : Selection) (x : Extras) :
    String :=
  String.ofList ((documentLines (c.sections perPath s x)).flatMap Toml.Line.text)

/-- The document of a part of a configuration. -/
def partDocument (perPath : List (String × List String)) (c : Config) (s : Selection) (x : Extras) :
    Document :=
  documentOf (c.sections perPath s x)

theorem parse?_partText (hmax : c.output.maxFindings < Nat.pow 2 63)
    (hperPath : perPath.Perm c.ignore.perPath.entries) :
    Toml.parse? (c.partText perPath s x) = some (c.partDocument perPath s x) :=
  Toml.parse?_of_sections String.toList_ofList nodup_names_sections
    (sound_of_mem_sections hmax hperPath)

/-- What is added can be written in JSON. -/
structure Extras.Exact (x : Extras) : Prop where
  keys : ∀ t, ∀ e ∈ x.keys t, Json.Exact e.2.2
  tables : ∀ y ∈ x.tables, Json.Exact (.object y.fields)

theorem map_fst_fields (y : Section) : y.fields.map Prod.fst = y.names := by
  simp only [Section.fields, Section.names, List.map_append, List.map_map]
  rfl

theorem exact_tableSection (hc : c.Fits) (hx : x.Exact)
    (hperPath : perPath.Perm c.ignore.perPath.entries) :
    Exact (.object (c.tableSection perPath s x t).fields) := by
  refine .object (by rw [map_fst_fields]; exact nodup_names_tableSection) fun f hf => ?_
  rcases List.mem_append.1 hf with hf | hf
  · obtain ⟨e, he, rfl⟩ := List.mem_map.1 hf
    rcases List.mem_append.1 he with he | he
    · obtain ⟨k, -, hk⟩ := List.mem_filterMap.1 he
      obtain ⟨_, hentry, rfl⟩ := Option.map_eq_some_iff.1 hk
      obtain ⟨text, -, rfl⟩ := Option.map_eq_some_iff.1 hentry
      exact k.exact_document hc
    · exact hx.keys t e he
  · obtain ⟨p, hp, rfl⟩ := List.mem_map.1 hf
    obtain ⟨k, -, hes⟩ := mem_inner hp
    exact (k.exact_document hc).of_reordered (Key.reordered_of_entries? hperPath hes)

theorem exact_partDocument (hc : c.Fits) (hx : x.Exact)
    (hperPath : perPath.Perm c.ignore.perPath.entries) : Exact (c.partDocument perPath s x) := by
  refine .object (by rw [List.map_map]; exact nodup_names_sections) fun f hf => ?_
  obtain ⟨y, hy, rfl⟩ := List.mem_map.1 hf
  rcases List.mem_append.1 hy with hy | hy
  · obtain ⟨t, -, rfl⟩ := List.mem_map.1 hy
    exact exact_tableSection hc hx hperPath
  · exact hx.tables y hy

/-- A part is found in its document, in whatever order that has its tables and keys. -/
theorem IsPart.finds {d : Document} (h : c.IsPart s d) (hc : c.Fits) :
    decode.Finds Json.dialect d (s.overlay c) :=
  fun _ hd => (h.of_reordered hd).decode_eq Json.readsNames hc

theorem load_of_parse {fs : FileSystem} {file : Path} {text : String} {d : Document}
    (hfile : fs.readText file = .ok text) (htext : Toml.parse? text = some d) (h : c.IsPart s d)
    (hc : c.Fits) : load fs file = .ok (s.overlay c) := by
  rw [load, hfile]
  exact ofText_of_parse htext h hc

/-- Whatever tables and keys of a configuration are left out, the rest is loaded over the defaults.
This holds for every document that has just this part of the configuration, from JSON and from a file.
Such documents can be written in both, with any new keys in the tables and any new tables. -/
theorem part_over_defaults (c : Config) (hc : c.Fits) (s : Selection) :
    ∃ r : Config, (∀ k : Key, k.get r = k.get (if s.keeps k then c else {})) ∧
      (∀ d, c.IsPart s d →
        decode Json.dialect d = .ok r ∧
        ∀ fs file text, fs.readText file = .ok text → Toml.parse? text = some d →
          load fs file = .ok r) ∧
      ∀ perPath, perPath.Perm c.ignore.perPath.entries → ∀ x : Extras,
        c.IsPart s (c.partDocument perPath s x) ∧
        (x.Exact → ∃ d, Json.parse? (Json.pretty 0 (c.partDocument perPath s x)) = some d ∧
          decode Json.dialect d = .ok r) ∧
        (c.output.maxFindings < Nat.pow 2 63 →
          ∀ fs file, fs.readText file = .ok (c.partText perPath s x) → load fs file = .ok r) := by
  refine ⟨s.overlay c, s.get_overlay c, fun d hd => ⟨?_, ?_⟩, ?_⟩
  · exact hd.decode_eq Json.readsNames hc
  · intro fs file text hfile htext
    exact load_of_parse hfile htext hd hc
  · intro perPath hperPath x
    have hpart : c.IsPart s (c.partDocument perPath s x) := isPart_documentOf hperPath
    refine ⟨hpart, fun hx => ?_, fun hmax fs file hfile => ?_⟩
    · have hexact : Exact (c.partDocument perPath s x) := exact_partDocument hc hx hperPath
      exact ⟨_, Json.parse?_pretty_self hexact, hexact.decode_asRead (hpart.finds hc)⟩
    · exact load_of_parse hfile (parse?_partText hmax hperPath) hpart hc

/-- A table that no configuration has. -/
def pluginsSection : Section where
  name := "plugins"
  entries := [("depth", toString 3, .nat 3)]
  inner := [("local", [("a b", Toml.renderString "\"", .string "\"")])]

theorem sound_pluginsSection : pluginsSection.Sound where
  bare := by decide
  bareInner t ht := by
    obtain rfl := List.mem_singleton.1 ht
    decide
  nodup := by decide
  nodupInner t ht := by
    obtain rfl := List.mem_singleton.1 ht
    decide
  reads e he := by
    obtain rfl := List.mem_singleton.1 he
    exact Toml.readsAs_nat (by decide)
  readsInner t ht e he := by
    obtain rfl := List.mem_singleton.1 ht
    obtain rfl := List.mem_singleton.1 he
    exact Toml.readsAs_renderString _

/-- A new table, and among the general keys one that belongs to another table. -/
def Extras.foreign : Extras where
  keys t := if t = .general then [("paths", Toml.renderStrings ["lib"], .strings ["lib"])] else []
  tables := [pluginsSection]
  newKeys := by
    intro t e he k hk
    split at he
    · next ht =>
      obtain rfl := List.mem_singleton.1 he
      obtain rfl := List.mem_singleton.1 (Key.mem_keys_iff.2 (hk.trans ht))
      decide
    · cases he
  nodupKeys := by intro t; split <;> simp
  readKeys := by
    intro t e he
    split at he
    · obtain rfl := List.mem_singleton.1 he
      exact Toml.readsAs_renderStrings _
    · cases he
  newTables := by
    intro y hy t
    obtain rfl := List.mem_singleton.1 hy
    cases t <;> decide
  nodupTables := by simp
  soundTables := by simpa using sound_pluginsSection

/-- Without its rules and its list of ignored paths. -/
def Selection.withoutRules : Selection := ⟨fun t => t != .rules, fun k => k != .paths⟩

theorem part_over_defaults_awkward :
    awkward.Fits ∧ ∃ r : Config,
      r.general.failOn = awkward.general.failOn ∧ r.rules.disabled = [] ∧
      r.ignore.paths = ({} : Ignore).paths ∧ r.ignore.findings = ["SQL-001"] ∧
      ∃ fs : FileSystem,
        fs.readText ⟨fileName⟩ =
          .ok (awkward.partText awkward.ignore.perPath.entries .withoutRules .foreign) ∧
        load fs ⟨fileName⟩ = .ok r := by
  have hfits : awkward.output.maxFindings < Nat.pow 2 64 := by decide
  obtain ⟨r, hkeys, -, htexts⟩ := part_over_defaults awkward hfits .withoutRules
  obtain ⟨-, -, hfile⟩ := htexts _ (.refl _) .foreign
  have hwritten : ∀ text, ∃ after,
      FileSystem.write ⟨.directory [], ⟨"/"⟩⟩ ⟨fileName⟩ text = .ok after := fun text => ⟨_, rfl⟩
  obtain ⟨after, hafter⟩ := hwritten
    (awkward.partText awkward.ignore.perPath.entries .withoutRules .foreign)
  have hread := FileSystem.readText_of_write hafter
  exact ⟨hfits, r, hkeys .failOn, hkeys .disabled, hkeys .paths, hkeys .findings, after, hread,
    hfile (by decide) after ⟨fileName⟩ hread⟩

end InjectionScan.Config
