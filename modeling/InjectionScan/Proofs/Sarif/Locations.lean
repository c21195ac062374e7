import InjectionScan.Output.Sarif
import InjectionScan.Proofs.FileSystem.Files
import InjectionScan.Proofs.Naming.Spelling
import InjectionScan.Proofs.Naming.Utf8
import InjectionScan.Proofs.Path.Redundancy
import Mathlib.Data.List.Forall2

/-! The names of files in a log, by which the files below the root are found again. -/
namespace InjectionScan.Sarif

open InjectionScan.Path

variable {root file : Path} {c : Component} {cs : List Component}

section Components

/-- A component that comes from a piece between slashes and can be written as one. -/
def IsInner (c : Component) : Prop :=
  inner? (componentText c).toList = some c ∧ '/' ∉ (componentText c).toList

theorem toList_componentText {absolute : Bool} {segment : List Char × Nat}
    (h : component? absolute segment = some c) : (componentText c).toList = segment.1 := by
  rw [component?.eq_def] at h
  split at h
  · cases h
  · split at h
    · cases h
      rfl
    · cases h
  · cases h
    rfl
  · cases h
    exact String.toList_ofList

theorem isInner_of_mem_tail (h : c ∈ file.components.tail) : IsInner c := by
  obtain ⟨piece, hpiece, hc⟩ := mem_tail_components_iff.1 h
  have htext : (componentText c).toList = piece := toList_componentText hc
  rw [IsInner, htext]
  exact ⟨hc, slash_notMem_of_mem_pieces (List.mem_of_mem_tail hpiece)⟩

/-- Components as one text. -/
def textOf (cs : List Component) : String := String.intercalate "/" (cs.map componentText)

theorem toList_textOf (cs : List Component) :
    (textOf cs).toList = Text.joinWith '/' (cs.map fun c => (componentText c).toList) := by
  rw [textOf, toList_intercalate, List.map_map]
  rfl

theorem filterMap_inner? (h : ∀ c ∈ cs, IsInner c) :
    (cs.map fun c => (componentText c).toList).filterMap inner? = cs := by
  rw [List.filterMap_map]
  exact (List.filterMap_congr fun c hc => (h c hc).1).trans List.filterMap_some

theorem ne_of_isInner (h : IsInner c) :
    (componentText c).toList ≠ [] ∧ (componentText c).toList ≠ ['.'] := by
  constructor <;> intro htext <;> rw [IsInner, htext] at h <;> cases h.1

/-- A text of components that can be written as pieces has those components. -/
theorem components_textOf (h : ∀ c ∈ cs, IsInner c) : (Path.mk (textOf cs)).components = cs := by
  have htext : Path.mk (textOf cs) =
      ⟨String.ofList (Text.joinWith '/' (cs.map fun c => (componentText c).toList))⟩ := by
    rw [← toList_textOf, String.ofList_toList]
  rw [htext, components_joinWith, filterMap_inner? h]
  · intro piece hpiece
    obtain ⟨c, hc, rfl⟩ := List.mem_map.1 hpiece
    exact (h c hc).2
  · intro piece hpiece
    obtain ⟨c, hc, rfl⟩ := List.mem_map.1 (List.mem_of_mem_head? hpiece)
    exact ne_of_isInner (h c hc)

theorem nil_mem_splitOn_textOf_iff (h : ∀ c ∈ cs, IsInner c) :
    [] ∈ Text.splitOn '/' (textOf cs).toList ↔ cs = [] := by
  rw [toList_textOf]
  by_cases hnil : cs = []
  · subst hnil
    simp [Text.joinWith, Text.splitOn]
  · rw [Text.splitOn_joinWith (by simpa using hnil)]
    · refine ⟨fun hmem => ?_, fun hcs => absurd hcs hnil⟩
      obtain ⟨c, hc, htext⟩ := List.mem_map.1 hmem
      exact absurd htext (ne_of_isInner (h c hc)).1
    · intro piece hpiece
      obtain ⟨c, hc, rfl⟩ := List.mem_map.1 hpiece
      exact (h c hc).2

theorem isInner_of_mem_drop (hroot : root.text ≠ "") (file : Path) :
    ∀ c ∈ file.components.drop root.components.length, IsInner c := by
  intro c hc
  obtain ⟨first, -, hcons⟩ := exists_components_eq_cons hroot
  rw [hcons, List.length_cons, Nat.add_comm, ← List.drop_drop, List.drop_one] at hc
  exact isInner_of_mem_tail ((List.drop_suffix _ _).mem hc)

@[simp] theorem map_shown_plain (cs : List Component) : cs.map (@Component.shown .plain) = cs := by
  refine (List.map_congr_left fun c _ => ?_).trans (List.map_id cs)
  cases c <;> rfl

variable [Naming]

theorem componentText_shown (c : Component) :
    componentText c.shown = Naming.shown (componentText c) := by
  cases c with
  | name text => rfl
  | root => exact (@Naming.shown_ascii _ "/" (Naming.ascii_of_all (by decide))).symm
  | here => exact (@Naming.shown_ascii _ "." (Naming.ascii_of_all (by decide))).symm
  | up => exact (@Naming.shown_ascii _ ".." (Naming.ascii_of_all (by decide))).symm

theorem map_shown_componentText (cs : List Component) :
    cs.map (fun c => Naming.shown (componentText c)) = (cs.map Component.shown).map componentText := by
  rw [List.map_map]
  exact List.map_congr_left fun c _ => (componentText_shown c).symm

/-- What is shown for a piece is a piece: it has no slash, and is redundant only if the piece is. -/
theorem isInner_shown (h : IsInner c) : IsInner c.shown := by
  cases c with
  | root => exact h
  | here => exact h
  | up => exact h
  | name text =>
    have hne : ∀ other : String, inner? other.toList ≠ some (.name text) →
        (∀ x ∈ other.toList, x.toNat < 128) → (Naming.shown text).toList ≠ other.toList := by
      intro other hother hascii heq
      rw [String.toList_inj, Naming.shown_eq_ascii_iff hascii] at heq
      exact hother (heq ▸ h.1)
    constructor
    · rw [Component.shown, componentText, inner?,
        component?_eq_name (hne "" (by simp [inner?, component?]) (by simp))
          (hne "." (by simp [inner?, component?]) (Naming.ascii_of_all (by decide)))
          (hne ".." (by simp [inner?, component?]) (Naming.ascii_of_all (by decide))),
        String.ofList_toList]
    · exact fun hslash => h.2 (Naming.mem_of_mem_shown hslash (by decide))

theorem forall_isInner_shown (h : ∀ c ∈ cs, IsInner c) : ∀ c ∈ cs.map Component.shown, IsInner c := by
  intro c hc
  obtain ⟨original, horiginal, rfl⟩ := List.mem_map.1 hc
  exact isInner_shown (h original horiginal)

end Components

section Below

variable [Naming]

theorem uriOf_below (h : root.components <+: file.components) :
    uriOf file root =
      textOf ((file.components.drop root.components.length).map Component.shown) := by
  cases hrelative : file.relativeTo? root with
  | none => exact absurd h (relativeTo?_eq_none_iff.1 hrelative)
  | some below =>
    rw [uriOf, hrelative, Option.getD_some, components_eq_of_relativeTo? hrelative, List.drop_left,
      map_shown_componentText]
    rfl

theorem uriOf_outside (h : ¬ root.components <+: file.components) :
    uriOf file root = textOf (file.components.map Component.shown) := by
  rw [uriOf, relativeTo?_eq_none_iff.2 h, Option.getD_none, map_shown_componentText]
  rfl

/-- Only components count. -/
theorem uriOf_congr {file' root' : Path} (hfile : file.components = file'.components)
    (hroot : root.components = root'.components) : uriOf file root = uriOf file' root' := by
  by_cases h : root.components <+: file.components
  · rw [uriOf_below h, uriOf_below (hfile ▸ hroot ▸ h), hfile, hroot]
  · rw [uriOf_outside h, uriOf_outside (hfile ▸ hroot ▸ h), hfile]

/-- Paths that are written from text have the name that their texts have. -/
theorem uriOf_ofText (file root : String) :
    uriOf (.ofText file) (.ofText root) = @uriOf .plain ⟨file⟩ ⟨root⟩ := by
  have hmap : ∀ cs : List Component,
      (cs.map Component.spelled).map Component.shown = cs.map (@Component.shown .plain) := by
    intro cs
    rw [List.map_map]
    refine List.map_congr_left fun c _ => (Component.shown_spelled c).trans ?_
    cases c <;> rfl
  have hbelow : (Path.ofText root).components <+: (Path.ofText file).components ↔
      (Path.mk root).components <+: (Path.mk file).components := by
    rw [components_ofText, components_ofText,
      List.prefix_map_iff_of_injective Component.spelled_injective]
  by_cases h : (Path.mk root).components <+: (Path.mk file).components
  · rw [uriOf_below (hbelow.2 h), @uriOf_below _ _ .plain h, components_ofText, components_ofText,
      List.length_map, ← List.map_drop, hmap]
  · rw [uriOf_outside (mt hbelow.1 h), @uriOf_outside _ _ .plain h, components_ofText, hmap]

/-- The name of a file has the components of the file below the root, as shown. -/
theorem components_uriOf (hroot : root.text ≠ "") (h : root.components <+: file.components) :
    (Path.mk (uriOf file root)).components =
      (file.components.drop root.components.length).map Component.shown := by
  rw [uriOf_below h, components_textOf (forall_isInner_shown (isInner_of_mem_drop hroot file))]

/-- The root with what is below it is the file, if that is text. -/
theorem components_join_uriOf (hroot : root.text ≠ "") (h : root.components <+: file.components) :
    (root.join (.ofText (uriOf file root))).components = file.components ↔
      ∀ c ∈ file.components.drop root.components.length, c.isText = true := by
  have hinner := forall_isInner_shown (isInner_of_mem_drop hroot file)
  have hcomponents := components_uriOf hroot h
  have hrelative : (Path.ofText (uriOf file root)).isAbsolute = false := by
    rw [isAbsolute_ofText]
    by_contra habsolute
    have hmem : .root ∈ (Path.mk (uriOf file root)).components := by
      rw [components, if_pos (by simpa using habsolute)]
      exact List.mem_append_left _ (List.mem_singleton_self _)
    rw [hcomponents] at hmem
    exact (hinner _ hmem).2 (by decide)
  have hhere : .here ∉ (Path.ofText (uriOf file root)).components := by
    rw [components_ofText, hcomponents]
    intro hmem
    obtain ⟨c, hc, hhere⟩ := List.mem_map.1 hmem
    obtain rfl : c = .here := Component.spelled_injective hhere
    exact absurd (hinner _ hc).1 (by decide)
  rw [components_join root hrelative hhere, components_ofText, hcomponents, List.map_map]
  obtain ⟨below, hbelow⟩ := h
  rw [← hbelow, List.drop_left, List.append_right_inj]
  have hsame : below.map (Component.spelled ∘ Component.shown) = below.map id ↔
      ∀ c ∈ below, c.shown.spelled = c := List.map_inj_left
  rw [← List.map_id below, List.map_map, Function.comp_id, hsame, List.map_id]
  exact forall₂_congr fun c _ => Component.spelled_shown_eq_iff

theorem nil_mem_splitOn_uriOf_iff (hroot : root.text ≠ "")
    (h : root.components <+: file.components) :
    [] ∈ Text.splitOn '/' (uriOf file root).toList ↔ file.components = root.components := by
  rw [uriOf_below h,
    nil_mem_splitOn_textOf_iff (forall_isInner_shown (isInner_of_mem_drop hroot file)),
    List.map_eq_nil_iff, List.drop_eq_nil_iff]
  constructor
  · exact fun hle => (h.eq_of_length_le hle).symm
  · exact fun heq => heq ▸ Nat.le_refl _

theorem uriOf_eq_iff {other : Path} (hroot : root.text ≠ "")
    (hfile : root.components <+: file.components) (hother : root.components <+: other.components) :
    uriOf file root = uriOf other root ↔
      (file.components.drop root.components.length).map Component.shown =
        (other.components.drop root.components.length).map Component.shown := by
  constructor
  · intro huri
    rw [← components_uriOf hroot hfile, huri, components_uriOf hroot hother]
  · intro hsame
    rw [uriOf_below hfile, uriOf_below hother, hsame]

end Below

section Identity

/-- The name of a file below a root, joined to the root, is the file again exactly if the names below
the root are text. It has no empty segment, unless the file is the root itself. Two files have the
same name exactly if what is below the root is shown alike; where that is text, they are the same
path. Redundant separators and dots, in the file or in the root, make no difference. -/
theorem uriOf_identifies_file [Naming] {root : Path} (hroot : root.text ≠ "") :
    (∀ file : Path, root.components <+: file.components →
      ((root.join (.ofText (uriOf file root))).components = file.components ↔
        ∀ c ∈ file.components.drop root.components.length, c.isText = true) ∧
      ([] ∈ Text.splitOn '/' (uriOf file root).toList ↔ file.components = root.components)) ∧
    (∀ file other : Path, root.components <+: file.components →
      root.components <+: other.components →
      (uriOf file root = uriOf other root ↔
        (file.components.drop root.components.length).map Component.shown =
          (other.components.drop root.components.length).map Component.shown) ∧
      ((∀ c ∈ file.components.drop root.components.length, c.isText = true) →
        (∀ c ∈ other.components.drop root.components.length, c.isText = true) →
        (uriOf file root = uriOf other root ↔ file.components = other.components))) ∧
    ∀ file file' root' : Path, file.SameButRedundant file' → root.SameButRedundant root' →
      uriOf file root = uriOf file' root' := by
  refine ⟨?_, ?_, ?_⟩
  · intro file h
    exact ⟨components_join_uriOf hroot h, nil_mem_splitOn_uriOf_iff hroot h⟩
  · intro file other hfile hother
    refine ⟨uriOf_eq_iff hroot hfile hother, fun htext hothertext => ?_⟩
    refine ⟨fun huri => ?_, fun hsame => uriOf_congr hsame rfl⟩
    rw [← (components_join_uriOf hroot hfile).2 htext, huri,
      (components_join_uriOf hroot hother).2 hothertext]
  · intro file file' root' hfile hroot'
    exact uriOf_congr hfile.components_eq hroot'.components_eq

/-- A file and its root with a redundant slash each, and without. The root alone is no text. -/
theorem uriOf_identifies_file_slashes :
    (Path.mk "r\xff/").components <+: (Path.mk "r\xff//../\xc3\xa9.js").components ∧
    ((Path.mk "r\xff/").join
        (@Path.ofText .utf8 (@uriOf .utf8 ⟨"r\xff//../\xc3\xa9.js"⟩ ⟨"r\xff/"⟩))).components =
      (Path.mk "r\xff//../\xc3\xa9.js").components ∧
    [] ∉ Text.splitOn '/' (@uriOf .utf8 ⟨"r\xff//../\xc3\xa9.js"⟩ ⟨"r\xff/"⟩).toList ∧
    @uriOf .utf8 ⟨"r\xff//../\xc3\xa9.js"⟩ ⟨"r\xff/"⟩ ≠
      @uriOf .utf8 ⟨"r\xff/\xc3\xa9.js"⟩ ⟨"r\xff/"⟩ ∧
    @uriOf .utf8 ⟨"r\xff//../\xc3\xa9.js"⟩ ⟨"r\xff/"⟩ =
      @uriOf .utf8 ⟨"r\xff/../\xc3\xa9.js"⟩ ⟨"r\xff"⟩ := by
  have hroot : (Path.mk "r\xff/").text ≠ "" := by decide
  have hfile : (Path.mk "r\xff/").components <+:
      (Path.mk "r\xff//../\xc3\xa9.js").components := by decide +kernel
  have hother : (Path.mk "r\xff/").components <+: (Path.mk "r\xff/\xc3\xa9.js").components := by
    decide +kernel
  have hslash : (Path.mk "r\xff/").SameButRedundant ⟨"r\xff"⟩ :=
    .symm _ _ (.rel _ _ (.lastSeparator (show "r\xff".toList ≠ [] by decide)))
  have hslashes : (Path.mk "r\xff//../\xc3\xa9.js").SameButRedundant
      ⟨"r\xff/../\xc3\xa9.js"⟩ :=
    .symm _ _ (.rel _ _ (.separator "r\xff".toList "../\xc3\xa9.js".toList))
  obtain ⟨hjoin, hsame, hredundant⟩ := @uriOf_identifies_file .utf8 _ hroot
  obtain ⟨hback, hempty⟩ := hjoin _ hfile
  obtain ⟨-, hdiffer⟩ := hsame _ _ hfile hother
  refine ⟨hfile, hback.2 (by decide +kernel), ?_, ?_, hredundant _ _ _ hslashes hslash⟩
  · rw [hempty]
    decide +kernel
  · rw [ne_eq, hdiffer (by decide +kernel) (by decide +kernel)]
    decide +kernel

/-- Two files below the root whose names are no text and are shown alike. Both have the same name,
which is the name of a third file. -/
theorem uriOf_confuses_files_shown_alike :
    (Path.mk "/repo").components <+: (Path.mk "/repo/caf\xe8.js").components ∧
    (Path.mk "/repo").components <+: (Path.mk "/repo/caf\xe9.js").components ∧
    (Path.mk "/repo/caf\xe8.js").components ≠ (Path.mk "/repo/caf\xe9.js").components ∧
    @uriOf .utf8 ⟨"/repo/caf\xe8.js"⟩ ⟨"/repo"⟩ = "caf\uFFFD.js" ∧
    @uriOf .utf8 ⟨"/repo/caf\xe9.js"⟩ ⟨"/repo"⟩ = "caf\uFFFD.js" ∧
    (Path.mk "/repo").join (@Path.ofText .utf8 "caf\uFFFD.js") =
      ⟨"/repo/caf\xef\xbf\xbd.js"⟩ := by
  decide +kernel

end Identity

section Outside

theorem exists_inner? {piece : List Char} (h : piece ≠ [] ∧ piece ≠ ['.']) :
    ∃ c, inner? piece = some c := by
  by_cases hup : piece = ['.', '.']
  · exact ⟨.up, by rw [hup]; rfl⟩
  · exact ⟨_, component?_eq_name h.1 h.2 hup true 0⟩

/-- Pieces that are not redundant are the texts of their components. -/
theorem map_toList_filterMap_inner? {pieces : List (List Char)}
    (h : ∀ piece ∈ pieces, piece ≠ [] ∧ piece ≠ ['.']) :
    (pieces.filterMap inner?).map (fun c => (componentText c).toList) = pieces := by
  induction pieces with
  | nil => rfl
  | cons piece pieces ih =>
    obtain ⟨hpiece, hpieces⟩ := List.forall_mem_cons.1 h
    obtain ⟨c, hc⟩ := exists_inner? hpiece
    rw [List.filterMap_cons_some hc, List.map_cons, ih hpieces, toList_componentText hc]

/-- Without redundant pieces all but the first are the texts of the components after the first. -/
theorem map_toList_components (hplain : file.IsPlain) (hempty : file.text ≠ "")
    (hroot : file.text ≠ "/") :
    ∃ c, leading file.pieces = [c] ∧
      file.components.map (fun c => (componentText c).toList) =
        (componentText c).toList :: file.pieces.tail := by
  obtain ⟨c, hc, hcomponents⟩ := exists_components_eq_cons hempty
  refine ⟨c, hc, ?_⟩
  rw [hcomponents, List.map_cons, map_toList_filterMap_inner?]
  exact (isPlain_iff.1 hplain).resolve_left hroot

theorem textOf_components_relative (hplain : file.IsPlain) (h : file.isAbsolute = false) :
    textOf file.components = file.text := by
  by_cases hempty : file.text = ""
  · rw [components_eq_nil_iff.2 hempty, hempty]
    rfl
  have hroot : file.text ≠ "/" := by
    intro hroot
    rw [isAbsolute, hroot] at h
    cases h
  obtain ⟨c, hc, htexts⟩ := map_toList_components hplain hempty hroot
  obtain ⟨first, rest, hpieces⟩ := List.exists_cons_of_ne_nil file.pieces_ne_nil
  rw [leading_of_relative h hpieces, Option.toList_eq_singleton_iff] at hc
  rw [toList_componentText hc, hpieces, List.tail_cons, ← hpieces] at htexts
  rw [← String.toList_inj, toList_textOf, htexts, joinWith_pieces]

/-- The root directory is a component of its own, and a slash stands between it and the next one. -/
theorem textOf_components_absolute (hplain : file.IsPlain) (h : file.isAbsolute = true)
    (hroot : file.text ≠ "/") : textOf file.components = "/" ++ file.text := by
  have hempty : file.text ≠ "" := by
    intro hempty
    rw [isAbsolute, hempty] at h
    cases h
  obtain ⟨c, hc, htexts⟩ := map_toList_components hplain hempty hroot
  obtain ⟨next, rest, hpieces⟩ := exists_pieces_of_absolute h
  rw [hpieces] at hc htexts
  obtain rfl : .root = c := by simpa [leading] using hc
  rw [← String.toList_inj, toList_textOf, htexts, String.toList_append, ← joinWith_pieces file,
    hpieces]
  rfl

theorem textOf_components_root (h : file.text = "/") : textOf file.components = file.text := by
  have hfile : file = ⟨"/"⟩ := by
    cases file
    exact congrArg Path.mk h
  rw [hfile]
  decide +kernel

end Outside

section Log

/-- The names of files in the locations of a result. -/
def Result.uris (r : Result) : List String := r.locations.map fun l => l.physical.artifact.uri

theorem uris_resultOf (rules : Dictionary Descriptor) (root : Path) (f : Finding) :
    Result.uris (resultOf rules root f) = [uriOf f.file root] := by
  rw [Result.uris, resultOf, List.map_singleton]

/-- The name of a file that is not below the root, and is written without redundant separators and
dots, is its text if it is relative or the root directory. Any other absolute path gets a slash
before its text. -/
theorem logOf_outside_uri (registry : Registry) (root : Path) (findings : List Finding) :
    ∃ run, (logOf registry root findings).runs = [run] ∧
      List.Forall₂ (fun f r => ¬ root.components <+: f.file.components → f.file.IsPlain →
        (f.file.isAbsolute = false ∨ f.file.text = "/" → Result.uris r = [f.file.text]) ∧
        (f.file.isAbsolute = true → f.file.text ≠ "/" → Result.uris r = ["/" ++ f.file.text]))
        findings run.results := by
  refine ⟨_, rfl, ?_⟩
  refine List.forall₂_map_right_iff.2 (List.forall₂_same.2 fun f _ houtside hplain => ?_)
  have huris : Result.uris (resultOf (rulesOf registry findings) root f) =
      [textOf f.file.components] := by
    rw [uris_resultOf, uriOf_outside houtside, map_shown_plain]
  rw [huris]
  refine ⟨?_, fun habsolute hroot => by rw [textOf_components_absolute hplain habsolute hroot]⟩
  rintro (hrelative | hroot)
  · rw [textOf_components_relative hplain hrelative]
  · rw [textOf_components_root hroot]

def findingIn (file : Path) : Finding where
  id := "SQL-001"
  rule := "sql-injection"
  severity := .critical
  category := .security
  message := "Potential SQL injection"
  file
  line := 3
  column := 2
  suggestion := none

/-- Two files that are not below the root, although one of them starts with its text. -/
theorem logOf_outside_uri_siblings :
    ∃ run, (logOf Registry.builtin ⟨"/repo"⟩
        [findingIn ⟨"../other/x.js"⟩, findingIn ⟨"/repository/x.js"⟩]).runs = [run] ∧
      run.results.map Result.uris = [["../other/x.js"], ["//repository/x.js"]] := by
  obtain ⟨run, hruns, hall⟩ := logOf_outside_uri Registry.builtin ⟨"/repo"⟩
    [findingIn ⟨"../other/x.js"⟩, findingIn ⟨"/repository/x.js"⟩]
  obtain ⟨first, rest, hfirst, hrest, hresults⟩ := List.forall₂_cons_left_iff.1 hall
  obtain ⟨second, rest, hsecond, hnil, rfl⟩ := List.forall₂_cons_left_iff.1 hrest
  obtain rfl := List.forall₂_nil_left_iff.1 hnil
  have hrelative := (hfirst (by decide +kernel) (by decide +kernel)).1 (by decide +kernel)
  have habsolute := (hsecond (by decide +kernel) (by decide +kernel)).2 (by decide) (by decide)
  refine ⟨run, hruns, ?_⟩
  rw [hresults, List.map_cons, List.map_cons, List.map_nil, hrelative, habsolute]
  rfl

/-- The name of an absolute path outside the root is not its text. -/
theorem logOf_outside_uri_altered :
    ¬ ∀ (registry : Registry) (root : Path) (f : Finding), root.text ≠ "" →
      ¬ root.components <+: f.file.components → f.file.IsPlain →
      ∀ run ∈ (logOf registry root [f]).runs, ∀ r ∈ run.results, Result.uris r = [f.file.text] := by
  intro h
  have huri := h Registry.builtin ⟨"/repo"⟩ (findingIn ⟨"/other/x.js"⟩) (by decide)
    (by decide +kernel) (by decide +kernel) _ (List.mem_singleton_self _) _
    (List.mem_singleton_self _)
  exact absurd huri (by decide +kernel)

end Log

end InjectionScan.Sarif
