import InjectionScan.Proofs.Path.Relative
import Mathlib.Data.List.Basic
import Mathlib.Data.List.Induction

/-! Names that are written from text, in which plain characters stay as they are. -/
namespace InjectionScan

namespace Naming

/-- The characters of a given text can be tested by evaluation. -/
theorem ascii_of_all {cs : List Char} (h : (cs.all fun c => c.toNat < 128) = true) :
    ∀ c ∈ cs, c.toNat < 128 := by
  simpa using h

variable [Naming] {name text front : String} {c x : Char} {cs ns back : List Char}

theorem toList_spelled (text : String) : (spelled text).toList = text.toList.flatMap spell :=
  String.toList_ofList

theorem text?_eq_some_iff_spelled : text? name = some text ↔ name = spelled text := by
  rw [text?_eq_some_iff, ← toList_spelled, String.toList_inj]

@[simp] theorem text?_spelled (text : String) : text? (spelled text) = some text :=
  text?_eq_some_iff_spelled.2 rfl

@[simp] theorem shown_spelled (text : String) : shown (spelled text) = text :=
  shown_of_text? (text?_spelled text)

theorem spelled_inj {other : String} : spelled text = spelled other ↔ text = other := by
  refine ⟨fun h => ?_, congrArg spelled⟩
  rw [← shown_spelled text, h, shown_spelled]

theorem spelled_append (text other : String) :
    spelled (text ++ other) = spelled text ++ spelled other := by
  simp only [← String.toList_inj, toList_spelled, String.toList_append, List.flatMap_append]

theorem flatMap_spell_ascii (h : ∀ c ∈ cs, c.toNat < 128) : cs.flatMap spell = cs :=
  (List.flatMap_congr fun c hc => spell_ascii (h c hc)).trans (List.flatMap_singleton' cs)

theorem spelled_ascii (h : ∀ c ∈ text.toList, c.toNat < 128) : spelled text = text := by
  rw [← String.toList_inj, toList_spelled, flatMap_spell_ascii h]

theorem text?_ascii (h : ∀ c ∈ name.toList, c.toNat < 128) : text? name = some name :=
  text?_eq_some_iff_spelled.2 (spelled_ascii h).symm

theorem shown_ascii (h : ∀ c ∈ name.toList, c.toNat < 128) : shown name = name :=
  shown_of_text? (text?_ascii h)

theorem shown_eq_ascii_iff (h : ∀ c ∈ text.toList, c.toNat < 128) :
    shown name = text ↔ name = text := by
  constructor
  · rintro rfl
    exact (shown_of_ascii h).symm
  · rintro rfl
    exact shown_ascii h

/-- Text that is shown for a name is written as the name exactly if the name is text. -/
theorem spelled_shown_eq_iff : spelled (shown name) = name ↔ (text? name).isSome = true := by
  rw [Option.isSome_iff_exists]
  constructor
  · intro h
    exact ⟨shown name, text?_eq_some_iff_spelled.2 h.symm⟩
  · rintro ⟨text, h⟩
    rw [shown_of_text? h, text?_eq_some_iff_spelled.1 h]

theorem spell_ne_nil (c : Char) : spell c ≠ [] := by
  intro h
  have hempty : spelled (String.ofList [c]) = spelled "" := by
    simp [← String.toList_inj, toList_spelled, h]
  simpa using congrArg String.toList (spelled_inj.1 hempty)

theorem mem_flatMap_spell_iff (hx : x.toNat < 128) : x ∈ cs.flatMap spell ↔ x ∈ cs := by
  rw [List.mem_flatMap]
  constructor
  · rintro ⟨c, hc, hmem⟩
    rwa [← eq_of_mem_spell hmem hx]
  · intro hmem
    exact ⟨x, hmem, by rw [spell_ascii hx]; exact List.mem_singleton_self x⟩

/-- A plain end of a name is an end of its text. -/
theorem flatMap_spell_eq_append (hback : ∀ c ∈ back, c.toNat < 128)
    (h : cs.flatMap spell = ns ++ back) : ∃ start, cs = start ++ back ∧ ns = start.flatMap spell := by
  induction back using List.reverseRecOn generalizing cs with
  | nil => exact ⟨cs, by simp, by simpa using h.symm⟩
  | append_singleton back x ih =>
    obtain ⟨hrest, hx⟩ := List.forall_mem_append.1 hback
    have hx := hx x (List.mem_singleton_self x)
    rw [← List.append_assoc] at h
    rcases cs.eq_nil_or_concat' with rfl | ⟨start, c, rfl⟩
    · simp at h
    · rw [List.flatMap_append, List.flatMap_singleton] at h
      -- the last character of the name belongs to the last character of the text
      have hlast : x ∈ spell c := by
        have hgetLast := congrArg List.getLast? h
        rw [List.getLast?_append_of_ne_nil _ (spell_ne_nil c), List.getLast?_concat] at hgetLast
        exact List.mem_of_getLast? hgetLast
      obtain rfl := eq_of_mem_spell hlast hx
      rw [spell_ascii hx] at h
      obtain ⟨start', rfl, hns⟩ := ih hrest (List.append_cancel_right h)
      exact ⟨start', List.append_assoc _ _ _, hns⟩

theorem flatMap_spell_joinWith (hx : x.toNat < 128) (pieces : List (List Char)) :
    (Text.joinWith x pieces).flatMap spell =
      Text.joinWith x (pieces.map fun piece => piece.flatMap spell) := by
  induction pieces with
  | nil => rfl
  | cons piece pieces ih =>
    by_cases hpieces : pieces = []
    · rw [hpieces]
      rfl
    · rw [Text.joinWith_cons _ hpieces, List.flatMap_append, List.flatMap_cons, spell_ascii hx, ih,
        List.map_cons, Text.joinWith_cons _ (by simpa using hpieces)]
      rfl

/-- A plain separator stands between the same pieces in a name and in its text. -/
theorem splitOn_flatMap_spell (hx : x.toNat < 128) (cs : List Char) :
    Text.splitOn x (cs.flatMap spell) = (Text.splitOn x cs).map fun piece => piece.flatMap spell := by
  have hjoin : cs.flatMap spell =
      Text.joinWith x ((Text.splitOn x cs).map fun piece => piece.flatMap spell) := by
    rw [← flatMap_spell_joinWith hx, Text.joinWith_splitOn]
  rw [hjoin, Text.splitOn_joinWith (by simpa using Text.splitOn_ne_nil x cs)]
  intro piece hpiece
  obtain ⟨original, horiginal, rfl⟩ := List.mem_map.1 hpiece
  rw [mem_flatMap_spell_iff hx]
  exact Text.separator_notMem_of_mem_splitOn horiginal

theorem flatMap_spell_eq_ascii_iff (h : ∀ c ∈ ns, c.toNat < 128) :
    cs.flatMap spell = ns ↔ cs = ns := by
  constructor
  · intro heq
    obtain ⟨start, rfl, hstart⟩ := flatMap_spell_eq_append h (heq.trans (List.nil_append ns).symm)
    cases start with
    | nil => rfl
    | cons c start => simp [spell_ne_nil] at hstart
  · rintro rfl
    exact flatMap_spell_ascii h

end Naming

namespace Path

variable [Naming]

/-- A component of a path of text, as the path has it that is written from the text. -/
def Component.spelled : Component → Component
  | .name text => .name (Naming.spelled text)
  | c => c

/-- A component of a path as shown. -/
def Component.shown : Component → Component
  | .name text => .name (Naming.shown text)
  | c => c

def Component.isText : Component → Bool
  | .name text => (Naming.text? text).isSome
  | _ => true

theorem Component.spelled_injective : Function.Injective Component.spelled := by
  intro c d h
  cases c <;> cases d <;> simp_all [Component.spelled, Naming.spelled_inj]

@[simp] theorem Component.shown_spelled (c : Component) : c.spelled.shown = c := by
  cases c with
  | name text => exact congrArg _ (Naming.shown_spelled text)
  | root => rfl
  | here => rfl
  | up => rfl

theorem Component.spelled_shown_eq_iff {c : Component} : c.shown.spelled = c ↔ c.isText = true := by
  cases c with
  | name text => exact (Component.name.injEq _ _).to_iff.trans Naming.spelled_shown_eq_iff
  | root => exact iff_of_true rfl rfl
  | here => exact iff_of_true rfl rfl
  | up => exact iff_of_true rfl rfl

theorem shown_ofText (text : String) : (ofText text).shown = text := Naming.shown_spelled text

theorem isAbsolute_ofText (text : String) :
    (ofText text).isAbsolute = (Path.mk text).isAbsolute := by
  rw [isAbsolute, isAbsolute, ofText, Naming.toList_spelled]
  cases text.toList with
  | nil => rfl
  | cons c cs =>
    rw [List.flatMap_cons, List.head?_append_of_ne_nil _ (Naming.spell_ne_nil c), Bool.eq_iff_iff,
      beq_iff_eq, beq_iff_eq]
    constructor
    · intro h
      rw [Naming.eq_of_mem_spell (List.mem_of_head? h) (by decide)]
      rfl
    · intro h
      obtain rfl := Option.some.inj h
      rw [Naming.spell_ascii (by decide)]
      rfl

theorem component?_flatMap_spell (absolute : Bool) (cs : List Char) (i : Nat) :
    component? absolute (cs.flatMap Naming.spell, i) =
      (component? absolute (cs, i)).map Component.spelled := by
  by_cases hdots : cs = [] ∨ cs = ['.'] ∨ cs = ['.', '.']
  · have hascii : ∀ c ∈ cs, c.toNat < 128 := by
      rcases hdots with rfl | rfl | rfl <;> exact Naming.ascii_of_all (by decide)
    rw [Naming.flatMap_spell_ascii hascii]
    rcases hdots with rfl | rfl | rfl
    · rfl
    · rw [component?]
      split <;> rfl
    · rfl
  · obtain ⟨hempty, hdot, hup⟩ := by simpa only [not_or] using hdots
    rw [component?_eq_name hempty hdot hup, component?_eq_name]
    · simp [Component.spelled, Naming.spelled]
    · rwa [ne_eq, Naming.flatMap_spell_eq_ascii_iff (Naming.ascii_of_all (by decide))]
    · rwa [ne_eq, Naming.flatMap_spell_eq_ascii_iff (Naming.ascii_of_all (by decide))]
    · rwa [ne_eq, Naming.flatMap_spell_eq_ascii_iff (Naming.ascii_of_all (by decide))]

theorem segments_ofText (text : String) :
    (ofText text).segments =
      (Path.mk text).segments.map fun s => (s.1.flatMap Naming.spell, s.2) := by
  rw [segments, segments, isAbsolute_ofText, ofText, Naming.toList_spelled,
    Naming.splitOn_flatMap_spell (by decide)]
  split
  · rw [← List.map_tail, List.zipIdx_map]
    rfl
  · rw [List.zipIdx_map]
    rfl

/-- Writing a text as a name keeps its components apart. -/
theorem components_ofText (text : String) :
    (ofText text).components = (Path.mk text).components.map Component.spelled := by
  rw [components, components, isAbsolute_ofText, segments_ofText, List.filterMap_map,
    List.map_append, List.map_filterMap]
  congr 1
  · split <;> rfl
  · exact List.filterMap_congr fun s _ => component?_flatMap_spell _ s.1 s.2

theorem fileNameText?_ofText (text : String) :
    (ofText text).fileNameText? = (Path.mk text).fileName? := by
  rw [fileNameText?, fileName?, fileName?, components_ofText, List.getLast?_map]
  cases (Path.mk text).components.getLast? with
  | none => rfl
  | some c =>
    cases c with
    | name text => exact Naming.text?_spelled text
    | root => rfl
    | here => rfl
    | up => rfl

end Path

end InjectionScan
