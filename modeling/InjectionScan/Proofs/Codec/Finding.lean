import InjectionScan.Codec.Finding
import InjectionScan.Proofs.Json.Canonical

/-! Findings and summaries are read back from their documents. -/
namespace InjectionScan

open Decoder (finds_text finds_count)
open Json (Exact Codec readsNames)
open Record (finds_field finds_object)

variable {dialect : Dialect}

theorem Severity.finds_encode (h : dialect.ReadsNames) (s : Severity) :
    decode.Finds dialect s.encode s := by
  refine Decoder.finds_of_isAtom rfl ?_
  rw [decode, encode, Decoder.choice, h]
  cases s <;> rfl

theorem Category.finds_encode (h : dialect.ReadsNames) (c : Category) :
    decode.Finds dialect c.encode c := by
  refine Decoder.finds_of_isAtom rfl ?_
  rw [decode, encode, Decoder.choice, h]
  cases c <;> rfl

/-- The numbers of a finding fit into 64 bits. -/
structure Finding.Fits (f : Finding) : Prop where
  line : f.line < Nat.pow 2 64
  column : f.column < Nat.pow 2 64

/-- The numbers of a summary fit into 64 bits. -/
structure Summary.Fits (s : Summary) : Prop where
  critical : s.critical < Nat.pow 2 64
  errors : s.errors < Nat.pow 2 64
  warnings : s.warnings < Nat.pow 2 64
  info : s.info < Nat.pow 2 64
  suppressed : s.suppressed < Nat.pow 2 64
  filesAnalyzed : s.filesAnalyzed < Nat.pow 2 64

section OptionalText

variable {fields : List (String × Document)} {name : String} {text : Option String}

theorem lookup_append_optionalField (h : name ∉ fields.map Prod.fst) :
    (fields ++ optionalField name text).lookup name = text.map Document.string := by
  rw [List.lookup_append, lookup_eq_none_iff_notMem.2 h, Option.none_or]
  cases text with
  | none => rfl
  | some s => rw [optionalField, lookup_cons_ite, if_pos rfl, Option.map_some]

theorem nodup_append_optionalField (hnames : (fields.map Prod.fst).Nodup)
    (h : name ∉ fields.map Prod.fst) :
    ((fields ++ optionalField name text).map Prod.fst).Nodup := by
  rw [List.map_append]
  cases text with
  | none => simpa [optionalField] using hnames
  | some s =>
    refine List.nodup_append.2 ⟨hnames, by simp [optionalField], ?_⟩
    rintro x hx _ hy rfl
    obtain rfl : x = name := by simpa [optionalField] using hy
    exact h hx

theorem exact_of_mem_optionalField : ∀ f ∈ optionalField name text, Exact f.2 := by
  cases text with
  | none => simp [optionalField]
  | some s => simpa [optionalField] using Exact.string s

theorem finds_optionalText (dialect : Dialect) (h : fields.lookup name = text.map Document.string) :
    (Record.fieldOr name (Decoder.optional Decoder.string) none).Finds dialect fields text := by
  cases text with
  | none => exact Record.finds_fieldOr_absent _ none h
  | some s => exact Record.finds_fieldOr h (Decoder.finds_of_isAtom rfl rfl) none

end OptionalText

namespace Finding

/-- The fields of the object that stands for a finding. -/
def fields (f : Finding) : List (String × Document) :=
  [("id", .string f.id), ("rule", .string f.rule), ("severity", f.severity.encode),
    ("category", f.category.encode), ("message", .string f.message),
    ("file", .string f.file.text), ("line", .nat f.line), ("column", .nat f.column)] ++
    optionalField "suggestion" f.suggestion

theorem encode_eq (f : Finding) : f.encode = .object f.fields := rfl

theorem lookup_suggestion (f : Finding) :
    f.fields.lookup "suggestion" = f.suggestion.map Document.string :=
  lookup_append_optionalField (by simp)

theorem finds_encode (h : dialect.ReadsNames) {f : Finding} (hf : f.Fits) :
    decode.Finds dialect f.encode f := by
  refine finds_object _ (.seq (.seq (.seq (.seq (.seq (.seq (.seq (.seq
    (.map _ (finds_field rfl ?id)) (finds_field rfl ?rule)) (finds_field rfl ?severity))
    (finds_field rfl ?category)) (finds_field rfl ?message)) (finds_field rfl ?file))
    (finds_field rfl ?line)) (finds_field rfl ?column)) ?suggestion)
  case id | rule | message | file => exact finds_text _ _ _
  case severity => exact Severity.finds_encode h _
  case category => exact Category.finds_encode h _
  case line => exact finds_count hf.line _
  case column => exact finds_count hf.column _
  case suggestion => exact finds_optionalText dialect f.lookup_suggestion

theorem yields_fits : decode.Yields Fits := by
  have hcount (name : String) := Record.yields_field name Decoder.yields_count
  refine Record.yields_decode "Finding" (.seq (.any _) (.seq (hcount _) (.seq (hcount _)
    (.seq (.any _) (.seq (.any _) (.seq (.any _) (.seq (.any _) (.seq (.any _)
      (.map (.any _) ?_)))))))))
  intro id _ rule _ severity _ category _ message _ file _ line hline column hcolumn suggestion _
  exact ⟨hline, hcolumn⟩

theorem nodup_fields (f : Finding) : (f.fields.map Prod.fst).Nodup :=
  nodup_append_optionalField (by simp) (by simp)

theorem exact_encode {f : Finding} (hf : f.Fits) : Exact f.encode := by
  refine .object f.nodup_fields ?_
  rw [List.forall_mem_append]
  refine ⟨?_, exact_of_mem_optionalField⟩
  simp only [List.forall_mem_cons]
  exact ⟨.string _, .string _, .string _, .string _, .string _, .string _, .nat hf.line,
    .nat hf.column, by simp⟩

theorem codec : Codec encode decode Fits where
  finds _ hf := finds_encode readsNames hf
  writes _ hf := exact_encode hf
  yields := yields_fits

end Finding

namespace Summary

/-- A summary is read under any title; the report has its own one. -/
theorem finds_encode {s : Summary} (hs : s.Fits) (dialect : Dialect) (title : String) :
    (record.decode title).Finds dialect s.encode s := by
  refine finds_object _ (.seq (.seq (.seq (.seq (.seq
    (.map _ (finds_field rfl ?critical)) (finds_field rfl ?errors)) (finds_field rfl ?warnings))
    (finds_field rfl ?info)) (finds_field rfl ?suppressed)) (finds_field rfl ?files))
  case critical => exact finds_count hs.critical _
  case errors => exact finds_count hs.errors _
  case warnings => exact finds_count hs.warnings _
  case info => exact finds_count hs.info _
  case suppressed => exact finds_count hs.suppressed _
  case files => exact finds_count hs.filesAnalyzed _

theorem exact_encode {s : Summary} (hs : s.Fits) : Exact s.encode := by
  refine .object (by simp) ?_
  simp only [List.forall_mem_cons]
  exact ⟨.nat hs.critical, .nat hs.errors, .nat hs.warnings, .nat hs.info, .nat hs.suppressed,
    .nat hs.filesAnalyzed, by simp⟩

theorem yields_fits (title : String) : (record.decode title).Yields Fits := by
  have hcount (name : String) := Record.yields_field name Decoder.yields_count
  refine Record.yields_decode title (.seq (hcount _) (.seq (hcount _) (.seq (hcount _)
    (.seq (hcount _) (.seq (hcount _) (.map (hcount _) ?_))))))
  intro critical hcritical errors herrors warnings hwarnings info hinfo suppressed hsuppressed
    filesAnalyzed hfiles
  exact ⟨hcritical, herrors, hwarnings, hinfo, hsuppressed, hfiles⟩

theorem codec (title : String) : Codec encode (record.decode title) Fits where
  finds _ hs := finds_encode hs _ title
  writes _ hs := exact_encode hs
  yields := yields_fits title

end Summary

end InjectionScan
