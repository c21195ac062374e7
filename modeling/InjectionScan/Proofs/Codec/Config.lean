import InjectionScan.Codec.Config
import InjectionScan.Proofs.Codec.Finding

/-! Configurations are read from documents that have some of their tables and keys. -/
namespace InjectionScan.Config

/-- The tables of a configuration. -/
inductive Table where
  | general
  | rules
  | ignore
  | output
deriving DecidableEq, Repr

namespace Table

def all : List Table := [general, rules, ignore, output]

def name : Table → String
  | general => "general"
  | rules => "rules"
  | ignore => "ignore"
  | output => "output"

theorem mem_all (t : Table) : t ∈ all := by
  cases t <;> decide

theorem name_injective : Function.Injective name := by
  have hnames : (all.map name).Nodup := by decide
  exact fun t u h => List.inj_on_of_nodup_map hnames (mem_all t) (mem_all u) h

end Table

/-- The keys in the tables. A dictionary is one key. -/
inductive Key where
  | failOn
  | disabled
  | severity
  | paths
  | findings
  | perPath
  | format
  | color
  | maxFindings
deriving DecidableEq, Repr

/-- The keys of a table, in their order. -/
def Table.keys : Table → List Key
  | general => [.failOn]
  | rules => [.disabled, .severity]
  | ignore => [.paths, .findings, .perPath]
  | output => [.format, .color, .maxFindings]

namespace Key

def table : Key → Table
  | failOn => .general
  | disabled | severity => .rules
  | paths | findings | perPath => .ignore
  | format | color | maxFindings => .output

theorem mem_keys_iff {k : Key} {t : Table} : k ∈ t.keys ↔ k.table = t := by
  cases t <;> cases k <;> decide

def name : Key → String
  | failOn => "fail_on"
  | disabled => "disabled"
  | severity => "severity"
  | paths => "paths"
  | findings => "findings"
  | perPath => "per_path"
  | format => "format"
  | color => "color"
  | maxFindings => "max_findings"

theorem name_injective : Function.Injective name := by
  have hnames : ((Table.all.flatMap Table.keys).map name).Nodup := by decide
  have hall (k : Key) : k ∈ Table.all.flatMap Table.keys :=
    List.mem_flatMap.2 ⟨k.table, Table.mem_all _, mem_keys_iff.2 rfl⟩
  exact fun k j h => List.inj_on_of_nodup_map hnames (hall k) (hall j) h

def Value : Key → Type
  | failOn | format => String
  | disabled | paths | findings => List String
  | severity => Dictionary Severity
  | perPath => Dictionary (List String)
  | color => Bool
  | maxFindings => Nat

/-- The value of a key in a configuration. -/
def get (c : Config) : (k : Key) → k.Value
  | failOn => c.general.failOn
  | disabled => c.rules.disabled
  | severity => c.rules.severity
  | paths => c.ignore.paths
  | findings => c.ignore.findings
  | perPath => c.ignore.perPath
  | format => c.output.format
  | color => c.output.color
  | maxFindings => c.output.maxFindings

/-- The document of the value of a key. -/
def document (c : Config) : Key → Document
  | failOn => .string c.general.failOn
  | disabled => .strings c.rules.disabled
  | severity => encodeEntries Severity.encode c.rules.severity
  | paths => .strings c.ignore.paths
  | findings => .strings c.ignore.findings
  | perPath => encodeEntries Document.strings c.ignore.perPath
  | format => .string c.output.format
  | color => .bool c.output.color
  | maxFindings => .nat c.output.maxFindings

/-- A dictionary may have its entries in any order. -/
theorem reordered_entries {α : Type} {encode : α → Document} {d : Dictionary α}
    (h : ∀ a, (encode a).Reordered (encode a)) {entries : List (String × α)}
    (hentries : entries.Perm d.entries) :
    (encodeEntries encode d).Reordered (.object (entries.map fun e => (e.1, encode e.2))) := by
  refine .object_of_perm (hentries.symm.map _) ?_ fun f hf => ?_
  · rw [List.map_map]
    exact d.nodup_names
  · obtain ⟨e, -, rfl⟩ := List.mem_map.1 hf
    exact h e.2

theorem reordered_document (c : Config) (k : Key) : (k.document c).Reordered (k.document c) := by
  cases k with
  | disabled | paths | findings => exact .strings_self _
  | severity => exact reordered_entries (fun _ => .atom rfl) (.refl _)
  | perPath => exact reordered_entries .strings_self (.refl _)
  | _ => exact .atom rfl

end Key

/-- Which tables are kept, and which keys of the tables that are kept. -/
structure Selection where
  tables : Table → Bool
  keys : Key → Bool

namespace Selection

def everything : Selection := ⟨fun _ => true, fun _ => true⟩

def keeps (s : Selection) (k : Key) : Bool := s.tables k.table && s.keys k

/-- The configuration with what is kept; the rest has its default. -/
def overlay (s : Selection) (c : Config) : Config where
  general :=
    if s.tables .general then
      { failOn := if s.keys .failOn then c.general.failOn else ({} : General).failOn }
    else {}
  rules :=
    if s.tables .rules then
      { disabled := if s.keys .disabled then c.rules.disabled else []
        severity := if s.keys .severity then c.rules.severity else .empty }
    else {}
  ignore :=
    if s.tables .ignore then
      { paths := if s.keys .paths then c.ignore.paths else ({} : Ignore).paths
        findings := if s.keys .findings then c.ignore.findings else []
        perPath := if s.keys .perPath then c.ignore.perPath else .empty }
    else {}
  output :=
    if s.tables .output then
      { format := if s.keys .format then c.output.format else ({} : Output).format
        color := if s.keys .color then c.output.color else true
        maxFindings := if s.keys .maxFindings then c.output.maxFindings else 0 }
    else {}

theorem get_overlay (s : Selection) (c : Config) (k : Key) :
    k.get (s.overlay c) = k.get (if s.keeps k then c else {}) := by
  rw [keeps]
  cases ht : s.tables k.table with
  | false => cases k <;> simp only [Key.table] at ht <;> simp only [Key.get, overlay, ht] <;> rfl
  | true =>
    cases hk : s.keys k <;> cases k <;> simp only [Key.table] at ht <;>
      simp only [Key.get, overlay, ht, hk] <;> rfl

theorem overlay_everything (c : Config) : everything.overlay c = c := rfl

end Selection

variable {c : Config} {s : Selection} {t : Table} {dialect : Dialect}
  {entries : List (String × Document)}

/-- The entries of a table are those of its keys that are kept, with the values of a configuration, and
whatever else has another name. -/
def HoldsKeys (c : Config) (s : Selection) (t : Table) (entries : List (String × Document)) : Prop :=
  ∀ k : Key, k.table = t →
    if s.keys k then ∃ d, entries.lookup k.name = some d ∧ (k.document c).Reordered d
    else entries.lookup k.name = none

/-- The document has the tables and keys of a configuration that are kept, and no others of its tables
and keys. -/
def IsPart (c : Config) (s : Selection) (d : Document) : Prop :=
  ∃ tables, d = .object tables ∧ ∀ t : Table,
    if s.tables t then
      ∃ entries, tables.lookup t.name = some (.object entries) ∧ c.HoldsKeys s t entries
    else tables.lookup t.name = none

/-- A key that is kept is read, and one that is not has its default. -/
theorem HoldsKeys.reads {α : Type} {k : Key} (h : c.HoldsKeys s t entries) (hk : k.table = t)
    {item : Decoder α} {a : α} (hitem : item.Finds dialect (k.document c) a) (default : α) :
    (Record.fieldOr k.name item default).Reads dialect (fun name => entries.lookup name)
      (if s.keys k then a else default) := by
  have hkey := h k hk
  split at hkey
  · next hkept =>
    obtain ⟨d, hlookup, hd⟩ := hkey
    rw [if_pos hkept]
    exact Record.reads_fieldOr hlookup (hitem d hd) default
  · next hleft =>
    rw [if_neg hleft]
    exact Record.reads_fieldOr_absent item default hkey

theorem HoldsKeys.general (h : c.HoldsKeys s .general entries) (dialect : Dialect) :
    General.decode dialect (.object entries) =
      .ok { failOn := if s.keys .failOn then c.general.failOn else ({} : General).failOn } := by
  have hfail := h.reads (k := .failOn) rfl (Decoder.finds_text "a string" dialect _)
    ({} : General).failOn
  exact Record.decode_object "GeneralConfig" (hfail.map General.mk)

theorem HoldsKeys.rules (h : c.HoldsKeys s .rules entries) (hnames : dialect.ReadsNames) :
    Rules.decode dialect (.object entries) =
      .ok { disabled := if s.keys .disabled then c.rules.disabled else []
            severity := if s.keys .severity then c.rules.severity else .empty } := by
  have hdisabled := h.reads (k := .disabled) rfl (Decoder.finds_strings dialect _) []
  have hseverity := h.reads (k := .severity) rfl
    (Decoder.finds_dictionary fun e _ => Severity.finds_encode hnames e.2) .empty
  exact Record.decode_object "RulesConfig" ((hdisabled.map Rules.mk).seq hseverity)

theorem HoldsKeys.ignore (h : c.HoldsKeys s .ignore entries) (dialect : Dialect) :
    Ignore.decode dialect (.object entries) =
      .ok { paths := if s.keys .paths then c.ignore.paths else ({} : Ignore).paths
            findings := if s.keys .findings then c.ignore.findings else []
            perPath := if s.keys .perPath then c.ignore.perPath else .empty } := by
  have hpaths := h.reads (k := .paths) rfl (Decoder.finds_strings dialect _) ({} : Ignore).paths
  have hfindings := h.reads (k := .findings) rfl (Decoder.finds_strings dialect _) []
  have hperPath := h.reads (k := .perPath) rfl
    (Decoder.finds_dictionary fun e _ => Decoder.finds_strings dialect e.2) .empty
  exact Record.decode_object "IgnoreConfig" (((hpaths.map Ignore.mk).seq hfindings).seq hperPath)

theorem HoldsKeys.output (h : c.HoldsKeys s .output entries)
    (hmax : c.output.maxFindings < Nat.pow 2 64) (dialect : Dialect) :
    Output.decode dialect (.object entries) =
      .ok { format := if s.keys .format then c.output.format else ({} : Output).format
            color := if s.keys .color then c.output.color else true
            maxFindings := if s.keys .maxFindings then c.output.maxFindings else 0 } := by
  have hformat := h.reads (k := .format) rfl (Decoder.finds_text "a string" dialect _)
    ({} : Output).format
  have hcolor := h.reads (k := .color) rfl (Decoder.finds_bool dialect _) true
  have hcount := h.reads (k := .maxFindings) rfl (Decoder.finds_count hmax dialect) 0
  exact Record.decode_object "OutputConfig" (((hformat.map Output.mk).seq hcolor).seq hcount)

/-- A table that is kept is read, and one that is not has its default. -/
theorem reads_table {α : Type} {tables : List (String × Document)} (item : Decoder α) {a : α}
    (default : α)
    (h : if s.tables t then
        ∃ entries, tables.lookup t.name = some (.object entries) ∧ c.HoldsKeys s t entries
      else tables.lookup t.name = none)
    (hitem : ∀ entries, c.HoldsKeys s t entries → item dialect (.object entries) = .ok a) :
    (Record.fieldOr t.name item default).Reads dialect (fun name => tables.lookup name)
      (if s.tables t then a else default) := by
  split at h
  · next hkept =>
    obtain ⟨entries, hlookup, hentries⟩ := h
    rw [if_pos hkept]
    exact Record.reads_fieldOr hlookup (hitem entries hentries) default
  · next hleft =>
    rw [if_neg hleft]
    exact Record.reads_fieldOr_absent item default h

/-- A part of a configuration is read as the part over the defaults. -/
theorem IsPart.decode_eq {d : Document} (h : c.IsPart s d) (hnames : dialect.ReadsNames)
    (hmax : c.output.maxFindings < Nat.pow 2 64) : decode dialect d = .ok (s.overlay c) := by
  obtain ⟨tables, rfl, htables⟩ := h
  have hgeneral := reads_table General.decode {} (htables .general) fun _ h => h.general dialect
  have hrules := reads_table Rules.decode {} (htables .rules) fun _ h => h.rules hnames
  have hignore := reads_table Ignore.decode {} (htables .ignore) fun _ h => h.ignore dialect
  have houtput := reads_table Output.decode {} (htables .output) fun _ h => h.output hmax dialect
  have hread := (((hgeneral.map Config.mk).seq hrules).seq hignore).seq houtput
  exact Record.decode_object "ScanConfig" hread

/-- Of entries with different names the one of a name is found. -/
theorem lookup_filterMap {ι α : Type} [DecidableEq ι] {name : ι → String}
    (hname : Function.Injective name) (f : ι → Option α) (is : List ι) (i : ι) :
    (is.filterMap fun j => (f j).map fun a => (name j, a)).lookup (name i) =
      if i ∈ is then f i else none := by
  induction is with
  | nil => rfl
  | cons j is ih =>
    by_cases hij : i = j
    · subst hij
      cases hi : f i with
      | none => simp [hi, ih]
      | some a => simp [hi]
    · have hne : name i ≠ name j := fun h => hij (hname h)
      cases hj : f j with
      | none => simp [hj, ih, hij]
      | some a => simp [hj, ih, hij, lookup_cons_ite, hne]

theorem lookup_map {ι α : Type} [DecidableEq ι] {name : ι → String}
    (hname : Function.Injective name) (f : ι → α) (is : List ι) (i : ι) :
    (is.map fun j => (name j, f j)).lookup (name i) = if i ∈ is then some (f i) else none := by
  have h := lookup_filterMap hname (fun j => some (f j)) is i
  simpa using h

theorem HoldsKeys.of_reordered {entries' : List (String × Document)} (h : c.HoldsKeys s t entries)
    (hd : (Document.object entries).Reordered (.object entries')) : c.HoldsKeys s t entries' := by
  intro k hk
  have hkey := h k hk
  split at hkey
  · next hkept =>
    obtain ⟨x, hx, hvalue⟩ := hkey
    obtain ⟨y, hy, hxy⟩ := hd.exists_lookup hx
    rw [if_pos hkept]
    exact ⟨y, hy, hvalue.trans hxy⟩
  · next hleft =>
    rw [if_neg hleft]
    exact hd.lookup_eq_none hkey

/-- The fields of the object that stands for a table. -/
def Table.fields (c : Config) (t : Table) : List (String × Document) :=
  t.keys.map fun k => (k.name, k.document c)

theorem encode_eq (c : Config) :
    c.encode = .object (Table.all.map fun t => (t.name, .object (t.fields c))) := rfl

theorem isPart_encode (c : Config) : c.IsPart .everything c.encode := by
  refine ⟨_, encode_eq c, fun t => ?_⟩
  have htable := lookup_map Table.name_injective (fun t => Document.object (t.fields c)) Table.all t
  rw [if_pos t.mem_all] at htable
  refine ⟨_, htable, fun k hk => ?_⟩
  have hkey := lookup_map Key.name_injective (Key.document c) t.keys k
  rw [if_pos (Key.mem_keys_iff.2 hk)] at hkey
  exact ⟨_, hkey, k.reordered_document c⟩

/-- The order of tables and keys does not matter. -/
theorem IsPart.of_reordered {d d' : Document} (h : c.IsPart s d) (hd : d.Reordered d') :
    c.IsPart s d' := by
  obtain ⟨tables, rfl, htables⟩ := h
  obtain ⟨tables', rfl⟩ := hd.exists_object
  refine ⟨tables', rfl, fun t => ?_⟩
  have ht := htables t
  split at ht
  · next hkept =>
    obtain ⟨entries, hlookup, hentries⟩ := ht
    obtain ⟨d, hlookup', hd⟩ := hd.exists_lookup hlookup
    obtain ⟨entries', rfl⟩ := hd.exists_object
    rw [if_pos hkept]
    exact ⟨entries', hlookup', hentries.of_reordered hd⟩
  · next hleft =>
    rw [if_neg hleft]
    exact hd.lookup_eq_none ht

section Json

open Json (Exact Codec readsNames)

/-- The number of a configuration fits into 64 bits. -/
def Fits (c : Config) : Prop := c.output.maxFindings < Nat.pow 2 64

theorem exact_entries {α : Type} {encode : α → Document} (d : Dictionary α)
    (h : ∀ a, Exact (encode a)) : Exact (encodeEntries encode d) := by
  refine .object ?_ fun f hf => ?_
  · rw [List.map_map]
    exact d.nodup_names
  · obtain ⟨e, -, rfl⟩ := List.mem_map.1 hf
    exact h e.2

theorem Key.exact_document (hc : c.Fits) (k : Key) : Exact (k.document c) := by
  cases k with
  | failOn | format => exact .string _
  | disabled | paths | findings => exact Json.exact_strings _
  | severity => exact exact_entries _ fun _ => .string _
  | perPath => exact exact_entries _ Json.exact_strings
  | color => exact .bool _
  | maxFindings => exact .nat hc

theorem exact_encode (hc : c.Fits) : Exact c.encode := by
  have htables : (Table.all.map Table.name).Nodup := by decide
  have hkeys (t : Table) : (t.keys.map Key.name).Nodup := by cases t <;> decide
  rw [encode_eq]
  refine .object (by rwa [List.map_map]) fun f hf => ?_
  obtain ⟨t, -, rfl⟩ := List.mem_map.1 hf
  refine .object (by rw [Table.fields, List.map_map]; exact hkeys t) fun g hg => ?_
  obtain ⟨k, -, rfl⟩ := List.mem_map.1 hg
  exact k.exact_document hc

theorem yields_fits : decode.Yields Fits := by
  have houtput : Output.decode.Yields fun o => o.maxFindings < Nat.pow 2 64 := by
    have hcount : (Record.fieldOr "max_findings" Decoder.count 0).Yields (· < Nat.pow 2 64) :=
      Record.yields_fieldOr _ Decoder.yields_count (by decide)
    refine Record.yields_decode _ (.seq hcount (.seq (.any _) (.map (.any _) ?_)))
    intro format _ color _ count hcount
    exact hcount
  have htable : (Record.fieldOr "output" Output.decode {}).Yields
      fun o => o.maxFindings < Nat.pow 2 64 := Record.yields_fieldOr _ houtput (by decide)
  refine Record.yields_decode _ (.seq htable (.seq (.any _) (.seq (.any _) (.map (.any _) ?_))))
  intro general _ rules _ ignore _ output houtput
  exact houtput

theorem codec : Codec encode decode Fits where
  finds c hc d hd := by
    have hpart := (isPart_encode c).of_reordered hd
    rw [hpart.decode_eq readsNames hc, Selection.overlay_everything]
  writes _ hc := exact_encode hc
  yields := yields_fits

end Json

end InjectionScan.Config
