import InjectionScan.Document.Dialect
import InjectionScan.Proofs.Json.Reordering

/-! Types whose values are kept in JSON, each in one form. -/
namespace InjectionScan.Json

variable {α : Type}

theorem readsNames : Json.dialect.ReadsNames := fun _ _ => rfl

theorem parse?_pretty_self {d : Document} (h : Exact d) : parse? (pretty 0 d) = some (asRead d) := by
  have hread := parse?_pretty h [] (by simp)
  rwa [String.ofList_nil, String.append_empty] at hread

/-- The values that fit are written exactly and found again, and only such values are decoded. -/
structure Codec (encode : α → Document) (decode : Decoder α) (Fits : α → Prop) : Prop where
  finds : ∀ a, Fits a → decode.Finds Json.dialect (encode a) a
  writes : ∀ a, Fits a → Exact (encode a)
  yields : decode.Yields Fits

namespace Codec

theorem text (expected : String) : Codec Document.string (Decoder.text expected) fun _ => True where
  finds s _ := Decoder.finds_text expected _ s
  writes s _ := .string s
  yields _ _ _ _ := trivial

theorem list {encode : α → Document} {decode : Decoder α} {Fits : α → Prop}
    (h : Codec encode decode Fits) :
    Codec (fun xs => .array (xs.map encode)) (Decoder.list decode) fun xs => ∀ x ∈ xs, Fits x where
  finds xs hxs := Decoder.finds_list fun x hx => h.finds x (hxs x hx)
  writes xs hxs := by
    refine .array fun d hd => ?_
    obtain ⟨x, hx, rfl⟩ := List.mem_map.1 hd
    exact h.writes x (hxs x hx)
  yields := Decoder.yields_list h.yields

end Codec

theorem exact_strings (xs : List String) : Exact (.strings xs) :=
  (Codec.text "a string").list.writes xs fun _ _ => trivial

/-- Each value that fits has a canonical document. It is decoded as the value, in whatever order it has
its fields, and so is its text. Whatever is decoded is such a value: encoded again it is in canonical
form, which decoding and encoding leave as it is. -/
structure Canonical (encode : α → Document) (decode : Decoder α) (Fits : α → Prop) : Prop where
  decode_encode : ∀ a, Fits a → decode Json.dialect (encode a) = .ok a
  decode_reordered : ∀ a, Fits a → ∀ d, (encode a).Reordered d →
    decode Json.dialect d = .ok a ∧
      ∃ d', parse? (pretty 0 d) = some d' ∧ decode Json.dialect d' = .ok a
  settles : ∀ d a, decode Json.dialect d = .ok a →
    Fits a ∧ (decode Json.dialect (encode a)).map encode = .ok (encode a)

theorem Codec.canonical {encode : α → Document} {decode : Decoder α} {Fits : α → Prop}
    (h : Codec encode decode Fits) : Canonical encode decode Fits := by
  have hself : ∀ a, Fits a → decode Json.dialect (encode a) = .ok a :=
    fun a ha => h.finds a ha _ (h.writes a ha).reordered_self
  refine ⟨hself, fun a ha d hd => ⟨h.finds a ha d hd, asRead d, ?_, ?_⟩, fun d a hd => ?_⟩
  · exact parse?_pretty_self ((h.writes a ha).of_reordered hd)
  · exact h.finds a ha _ ((h.writes a ha).reordered_asRead hd)
  · have ha := h.yields _ d a hd
    refine ⟨ha, ?_⟩
    rw [hself a ha]
    rfl

end InjectionScan.Json
