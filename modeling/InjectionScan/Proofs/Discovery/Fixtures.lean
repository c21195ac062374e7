import InjectionScan.Proofs.Command.Fixtures
import InjectionScan.Proofs.Discovery.Extensions
import InjectionScan.Proofs.Naming.Spelling
import InjectionScan.Proofs.Naming.Utf8
import InjectionScan.Proofs.Text.Cutting

/-! Fixtures are the sources whose names are text with a longer ending, and all can be checked. -/
namespace InjectionScan

namespace Path

variable {p : Path} {name : String} {front e : List Char}

theorem fileNameText?_plain (p : Path) : @fileNameText? .plain p = p.fileName? :=
  Option.bind_fun_some _

/-- What follows the last dot of a name is its extension if something stands before that dot. -/
theorem extension?_of_fileName? (h : p.fileName? = some name)
    (hname : name.toList = front ++ '.' :: e) (hfront : front ≠ []) (he : '.' ∉ e) :
    p.extension? = some (String.ofList e) := by
  have hpieces : Text.splitOn '.' name.toList = Text.splitOn '.' front ++ [e] := by
    rw [hname, Text.splitOn_append, Text.splitOn_eq_singleton he]
  obtain ⟨piece, rest, hrest⟩ := List.exists_cons_of_ne_nil (Text.splitOn_ne_nil '.' front)
  -- With two pieces the first of them is all that stands before the dot.
  have hfirst : rest = [] → piece ≠ [] := by
    rintro rfl rfl
    have hjoin := Text.joinWith_splitOn '.' front
    rw [hrest] at hjoin
    exact hfront hjoin.symm
  rw [hrest] at hpieces
  rw [extension?, h]
  simp only [hpieces, List.getLast?_concat, Option.map_some]
  refine if_neg ?_
  cases rest <;> simp_all

end Path

namespace Discovery

open Command Expectation

variable {p : Path} {extensions : List String}

/-- The name of the file ends in `.test` and one of the extensions. -/
def NamesFixture (extensions : List String) (p : Path) : Prop :=
  ∃ name stem e, p.fileName? = some name ∧ e ∈ extensions ∧ name = stem ++ ".test" ++ e

theorem isSome_after?_test_iff {name e : String} :
    (Text.after? (".test" ++ e).toList.reverse name.toList.reverse).isSome = true ↔
      ∃ stem, name = stem ++ ".test" ++ e := by
  rw [Option.isSome_iff_exists]
  constructor
  · rintro ⟨rest, hrest⟩
    refine ⟨String.ofList rest.reverse, String.toList_inj.1 ?_⟩
    simpa using congrArg List.reverse (Text.after?_eq_some_iff.1 hrest)
  · rintro ⟨stem, rfl⟩
    exact ⟨stem.toList.reverse, Text.after?_eq_some_iff.2 (by simp)⟩

theorem isFixture_plain_iff : @isFixture .plain extensions p = true ↔ NamesFixture extensions p := by
  rw [isFixture, Path.fileNameText?_plain, NamesFixture]
  cases p.fileName? with
  | none => simp
  | some name =>
    simp only [List.any_eq_true, isSome_after?_test_iff, Option.some.injEq]
    constructor
    · rintro ⟨e, he, stem, hstem⟩
      exact ⟨name, stem, e, rfl, he, hstem⟩
    · rintro ⟨_, stem, e, rfl, he, hstem⟩
      exact ⟨e, he, stem, hstem⟩

instance : DecidablePred (NamesFixture extensions) :=
  fun _ => decidable_of_iff _ isFixture_plain_iff

section Names

variable [Naming]

/-- A name that is text has a plain ending if the text has it. -/
theorem spelled_eq_append_iff {text ending : String} (h : ∀ c ∈ ending.toList, c.toNat < 128) :
    (∃ stem, Naming.spelled text = stem ++ ending) ↔ ∃ stem, text = stem ++ ending := by
  constructor
  · rintro ⟨stem, hstem⟩
    rw [← String.toList_inj, Naming.toList_spelled, String.toList_append] at hstem
    obtain ⟨start, htext, -⟩ := Naming.flatMap_spell_eq_append h hstem
    exact ⟨String.ofList start, by simp [← String.toList_inj, htext]⟩
  · rintro ⟨stem, rfl⟩
    exact ⟨Naming.spelled stem, by rw [Naming.spelled_append, Naming.spelled_ascii h]⟩

/-- Fixtures are the files with such a name that is text. -/
theorem isFixture_iff (h : ∀ e ∈ extensions, ∀ c ∈ e.toList, c.toNat < 128) :
    isFixture extensions p = true ↔
      NamesFixture extensions p ∧ p.fileNameText?.isSome = true := by
  have hending : ∀ e ∈ extensions, ∀ c ∈ (".test" ++ e).toList, c.toNat < 128 := by
    intro e he
    rw [String.toList_append, List.forall_mem_append]
    exact ⟨Naming.ascii_of_all (by decide), h e he⟩
  rw [isFixture, NamesFixture, Path.fileNameText?]
  cases p.fileName? with
  | none => simp
  | some name =>
    rw [Option.bind_some]
    cases htext : Naming.text? name with
    | none => simp
    | some text =>
      obtain rfl := Naming.text?_eq_some_iff_spelled.1 htext
      simp only [List.any_eq_true, isSome_after?_test_iff, Option.some.injEq, Option.isSome_some,
        and_true, String.append_assoc]
      constructor
      · rintro ⟨e, he, hstem⟩
        obtain ⟨stem, hstem⟩ := (spelled_eq_append_iff (hending e he)).2 hstem
        exact ⟨_, stem, e, rfl, he, hstem⟩
      · rintro ⟨_, stem, e, rfl, he, hstem⟩
        exact ⟨e, he, (spelled_eq_append_iff (hending e he)).1 ⟨stem, hstem⟩⟩

/-- On names that are text, fixtures are told by the text. -/
theorem isFixture_ofText (extensions : List String) (text : String) :
    isFixture extensions (.ofText text) = @isFixture .plain extensions ⟨text⟩ := by
  unfold isFixture
  rw [Path.fileNameText?_ofText, Path.fileNameText?_plain]

end Names

theorem plain_of_mem_supportedExtensions :
    ∀ e ∈ Language.supportedExtensions, ∀ c ∈ e.toList, c.toNat < 128 := by
  have hall : ∀ e ∈ Language.supportedExtensions,
      (e.toList.all fun c => c.toNat < 128) = true := by decide
  exact fun e he => Naming.ascii_of_all (hall e he)

theorem dotted_of_mem_supportedExtensions : ∀ e ∈ Language.supportedExtensions,
    e.toList.head? = some '.' ∧ '.' ∉ e.toList.tail := by
  decide

section Discovery

variable [Naming]

theorem hasExtension_of_namesFixture (h : NamesFixture Language.supportedExtensions p) :
    hasExtension Language.supportedExtensions p = true := by
  obtain ⟨name, stem, e, hname, he, rfl⟩ := h
  obtain ⟨hhead, hdot⟩ := dotted_of_mem_supportedExtensions e he
  obtain ⟨letters, hletters⟩ := List.head?_eq_some_iff.1 hhead
  rw [hletters, List.tail_cons] at hdot
  have htext : (stem ++ ".test" ++ e).toList = (stem ++ ".test").toList ++ '.' :: letters := by
    rw [String.toList_append, hletters]
  have hplain : ∀ c ∈ (String.ofList letters).toList, c.toNat < 128 := by
    intro c hc
    rw [String.toList_ofList] at hc
    exact plain_of_mem_supportedExtensions e he c (hletters ▸ List.mem_cons_of_mem _ hc)
  have hextension : p.extensionText? = some (String.ofList letters) := by
    rw [Path.extensionText?, Path.extension?_of_fileName? hname htext (by simp) hdot]
    exact Naming.text?_ascii hplain
  have hsame : "." ++ String.ofList letters = e := by
    simp [← String.toList_inj, hletters]
  rw [hasExtension, hextension]
  simpa only [hsame, List.contains_iff_mem] using he

theorem isSome_ofPath?_of_namesFixture (h : NamesFixture Language.supportedExtensions p) :
    (Language.ofPath? p).isSome = true := by
  have hsource := hasExtension_of_namesFixture h
  rw [hasExtension_supportedExtensions, Bool.and_eq_true] at hsource
  exact hsource.1

theorem fixtures_eq_filter_sources (fs : FileSystem) (root : Path) (patterns : List String) :
    fixtures fs root Language.supportedExtensions patterns =
      (sources fs root Language.supportedExtensions patterns).map (List.filter fun p =>
        NamesFixture Language.supportedExtensions p ∧ p.fileNameText?.isSome = true) := by
  rw [sources, ← search_and, fixtures]
  refine congrArg _ (funext fun p => ?_)
  rw [Bool.eq_iff_iff, isFixture_iff plain_of_mem_supportedExtensions, Bool.and_eq_true,
    decide_eq_true_eq]
  exact ⟨fun h => ⟨hasExtension_of_namesFixture h.1, h⟩, And.right⟩

theorem namesFixture_of_mem_fixtures {fs : FileSystem} {root : Path} {patterns : List String}
    {found : List Path} (h : fixtures fs root Language.supportedExtensions patterns = .ok found)
    (hp : p ∈ found) : NamesFixture Language.supportedExtensions p := by
  rw [fixtures_eq_filter_sources] at h
  cases hsources : sources fs root Language.supportedExtensions patterns with
  | error e =>
    rw [hsources] at h
    cases h
  | ok files =>
    rw [hsources] at h
    obtain rfl := Except.ok.inj h
    exact (of_decide_eq_true (List.mem_filter.1 hp).2).1

/-- A file that has a language can be checked unless it cannot be read. -/
theorem unreadable_of_checkFile {registry : Registry} {config : Config} {fs : FileSystem}
    {e : AnalysisError} (hlanguage : (Language.ofPath? p).isSome = true)
    (h : checkFile registry config fs p = .error e) :
    ∃ cause, fs.readText p = .error cause ∧ e = .unreadable cause := by
  obtain ⟨language, hlanguage⟩ := Option.isSome_iff_exists.1 hlanguage
  rw [checkFile] at h
  cases hread : fs.readText p with
  | error cause =>
    rw [hread] at h
    exact ⟨cause, rfl, (Except.error.inj h).symm⟩
  | ok source =>
    rw [hread] at h
    simp only [checkSource, Registry.analyzeSource, hlanguage] at h
    cases h

end Discovery

/-- The fixtures are the sources, in their order, whose names are text and end in `.test` and an
extension. Each of them has a language, so that a check of all of them fails none for its language:
what cannot be checked cannot be read. -/
theorem fixtures_among_sources [Naming] :
    (∀ (fs : FileSystem) (root : Path) (patterns : List String),
      fixtures fs root Language.supportedExtensions patterns =
        (sources fs root Language.supportedExtensions patterns).map (List.filter fun p =>
          NamesFixture Language.supportedExtensions p ∧ p.fileNameText?.isSome = true) ∧
      ∀ found, fixtures fs root Language.supportedExtensions patterns = .ok found →
        ∀ p ∈ found, (Language.ofPath? p).isSome = true) ∧
    ∀ (env : Environment) (path : Option Path) (config : Config) (found : List Path),
      Config.find env.files (fixturesRoot env path) = .ok config →
      fixtures env.files (fixturesRoot env path) Language.supportedExtensions
        config.ignore.paths = .ok found → found ≠ [] →
        (test env path).stdout = (fixtureReport env.color (fixturesRoot env path)
          (checked Registry.builtin config env.files found)).1 ∧
        ∀ c ∈ checked Registry.builtin config env.files found,
          (∀ extension, c.2 ≠ .error (.unsupported extension)) ∧
          ∀ e, c.2 = .error e →
            ∃ cause, env.files.readText c.1 = .error cause ∧ e = .unreadable cause := by
  refine ⟨fun fs root patterns => ⟨fixtures_eq_filter_sources fs root patterns, ?_⟩, ?_⟩
  · intro found hfound p hp
    exact isSome_ofPath?_of_namesFixture (namesFixture_of_mem_fixtures hfound hp)
  · intro env path config found hconfig hfound hne
    refine ⟨(test_eq hconfig hfound).2 hne, fun c hc => ?_⟩
    obtain ⟨p, hp, rfl⟩ := List.mem_map.1 hc
    have hlanguage := isSome_ofPath?_of_namesFixture (namesFixture_of_mem_fixtures hfound hp)
    refine ⟨fun extension h => ?_, fun e h => unreadable_of_checkFile hlanguage h⟩
    obtain ⟨cause, -, hcause⟩ := unreadable_of_checkFile hlanguage h
    cases hcause

/-- A hidden fixture without a stem that an ignore file brings back, one whose name is no text, and
names that only look like those of fixtures. -/
def dotted : Environment where
  files :=
    { root := .directory
        [(".ignore", .file "!.test.js".toUTF8), (".test.js", .file "d.raw(x)".toUTF8),
          ("\xff.test.js", .file "".toUTF8), ("attest.js", .file "".toUTF8),
          ("a.test.JS", .file "".toUTF8), ("b.test.js.txt", .file "".toUTF8)]
      current := ⟨"/"⟩ }
  color := false
  elapsed := ""

/-- The fixture whose name is text is all that is left of the sources, and its check does not fail
for its language. -/
theorem fixtures_among_sources_dotted :
    @fixtures .utf8 dotted.files ⟨"/"⟩ Language.supportedExtensions ({} : Config).ignore.paths =
      .ok [⟨"/.test.js"⟩] ∧
    (∃ files, @sources .utf8 dotted.files ⟨"/"⟩ Language.supportedExtensions
        ({} : Config).ignore.paths = .ok files ∧
      files.filter (fun p => NamesFixture Language.supportedExtensions p ∧
        (@Path.fileNameText? .utf8 p).isSome = true) = [⟨"/.test.js"⟩]) ∧
    (@Language.ofPath? .utf8 ⟨"/.test.js"⟩).isSome = true ∧
    (@test .utf8 dotted none).stdout = (@fixtureReport .utf8 false ⟨"/"⟩
      (@checked Registry.builtin {} dotted.files [⟨"/.test.js"⟩] .utf8)).1 ∧
    ∀ extension, @checkFile .utf8 Registry.builtin {} dotted.files ⟨"/.test.js"⟩ ≠
      .error (.unsupported extension) := by
  obtain ⟨hall, htest⟩ := @fixtures_among_sources .utf8
  have hroot : fixturesRoot dotted none = ⟨"/"⟩ := by decide +kernel
  have hconfig : Config.find dotted.files (fixturesRoot dotted none) = .ok {} := by
    rw [hroot]
    decide +kernel
  have hfound : @fixtures .utf8 dotted.files ⟨"/"⟩ Language.supportedExtensions
      ({} : Config).ignore.paths = .ok [⟨"/.test.js"⟩] := by decide +kernel
  obtain ⟨hfilter, hlanguage⟩ := hall dotted.files ⟨"/"⟩ ({} : Config).ignore.paths
  obtain ⟨hstdout, hchecked⟩ := htest dotted none {} _ hconfig (hroot ▸ hfound) (by simp)
  rw [hroot] at hstdout
  refine ⟨hfound, ?_, hlanguage _ hfound _ (by simp), hstdout, (hchecked _ List.mem_cons_self).1⟩
  cases hsources : @sources .utf8 dotted.files ⟨"/"⟩ Language.supportedExtensions
      ({} : Config).ignore.paths with
  | error e =>
    rw [hsources, hfound] at hfilter
    cases hfilter
  | ok files =>
    rw [hsources, hfound] at hfilter
    exact ⟨files, rfl, (Except.ok.inj hfilter).symm⟩

/-- A source whose name has the ending of a fixture and is no text is not found as a fixture. -/
theorem fixtures_miss_name_without_text :
    let files : FileSystem :=
      { root := .directory [("\xff.test.js", .file "".toUTF8)], current := ⟨"/"⟩ }
    NamesFixture Language.supportedExtensions ⟨"/\xff.test.js"⟩ ∧
    @sources .utf8 files ⟨"/"⟩ Language.supportedExtensions [] = .ok [⟨"/\xff.test.js"⟩] ∧
    @fixtures .utf8 files ⟨"/"⟩ Language.supportedExtensions [] = .ok [] := by
  decide +kernel

end Discovery

end InjectionScan
