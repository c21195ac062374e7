/-! How the names of files and text correspond. -/
namespace InjectionScan

/-- A name is written in characters, and each character of a text is written as one or more of them.
Not all names are written from text, but for every name there is a text to show. -/
class Naming where
  /-- How a character of a text is written in a name. -/
  spell : Char → List Char
  /-- The text that a name is written from. -/
  text? : String → Option String
  /-- The text that stands for a name. -/
  shown : String → String
  /-- The bytes that patterns are matched against. -/
  bytes : String → List UInt8
  text?_eq_some_iff {name text : String} :
    text? name = some text ↔ name.toList = text.toList.flatMap spell
  shown_of_text? {name text : String} : text? name = some text → shown name = text
  spell_ascii {c : Char} : c.toNat < 128 → spell c = [c]
  eq_of_mem_spell {c x : Char} : x ∈ spell c → x.toNat < 128 → c = x
  mem_of_mem_shown {name : String} {c : Char} :
    c ∈ (shown name).toList → c.toNat < 128 → c ∈ name.toList
  shown_of_ascii {name : String} : (∀ c ∈ (shown name).toList, c.toNat < 128) → shown name = name

namespace Naming

/-- Names that are text themselves. -/
instance plain : Naming where
  spell c := [c]
  text? := some
  shown name := name
  bytes name := name.toUTF8.toList
  text?_eq_some_iff := by simp [String.toList_inj]
  shown_of_text? := Option.some.inj
  spell_ascii _ := rfl
  eq_of_mem_spell h _ := (List.mem_singleton.1 h).symm
  mem_of_mem_shown h _ := h
  shown_of_ascii _ := rfl

/-- The name that is written from a text. -/
def spelled [Naming] (text : String) : String := String.ofList (text.toList.flatMap spell)

end Naming

end InjectionScan
