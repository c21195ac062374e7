import InjectionScan.Command.Test
import InjectionScan.Proofs.Expectation.Matching

/-! A check of fixtures succeeds exactly if annotations and findings correspond in all of them. -/
namespace InjectionScan.Command

open Expectation

variable {registry : Registry} {config : Config} {fs : FileSystem} {source : String}
  {file fixture : Path} {findings : List Finding} {fixtures : List Path} {env : Environment}
  {path : Option Path}

/-- As many expectations as possible are matched, and what is missing is what no finding meets. -/
structure BestMatching (es : List Expectation) (fs : List Finding) (o : Expectation.Outcome) :
    Prop where
  linesIncrease : es.Pairwise fun a b => a.line < b.line
  expectations : o.matched + o.missing.length = es.length
  findings : o.matched + o.unexpected.length = fs.length
  missing : o.missing = es.filter fun e => ¬ ∃ f ∈ fs, e.isMetBy f = true
  unexpected : o.unexpected.Sublist fs
  greatest : IsGreatest {n | ∃ p : Pairing es fs, p.size = n} o.matched
  passed : o.passed = true ↔ Corresponds es fs

theorem bestMatching_compare (file : Path) (source : String) (findings : List Finding) :
    BestMatching (parse source) findings (compare file (parse source) findings) where
  linesIncrease := linesIncrease_parse source
  expectations := matched_add_length_missing file _ findings
  findings := matched_add_length_unexpected file _ findings
  missing := missing_compare file (linesIncrease_parse source) findings
  unexpected := unexpected_sublist file _ findings
  greatest := isGreatest_matched (linesIncrease_parse source) findings file
  passed := passed_compare_iff (linesIncrease_parse source) findings file

theorem checkSource_eq_ok (h : registry.analyzeSource config source file = .ok findings) :
    checkSource registry config source file = .ok (compare file (parse source) findings) := by
  rw [checkSource, h]
  rfl

/-- A fixture can be read and analysed, and its annotations correspond to its findings. -/
def FixturePasses (registry : Registry) (config : Config) (fs : FileSystem) (fixture : Path) :
    Prop :=
  ∃ source findings, fs.readText fixture = .ok source ∧
    registry.analyzeSource config source fixture = .ok findings ∧
    Corresponds (parse source) findings

theorem hasPassed_checkFile_iff :
    hasPassed (checkFile registry config fs fixture) = true ↔
      FixturePasses registry config fs fixture := by
  rw [checkFile, FixturePasses]
  cases hr : fs.readText fixture with
  | error e => simp [hasPassed]
  | ok source =>
    cases ha : registry.analyzeSource config source fixture with
    | error e => simp [checkSource, ha, hasPassed, Except.map]
    | ok findings =>
      simp only [checkSource_eq_ok ha, hasPassed, (bestMatching_compare _ _ _).passed]
      simp [ha]

instance : DecidablePred (FixturePasses registry config fs) :=
  fun _ => decidable_of_iff _ hasPassed_checkFile_iff

/-- The last lines about some fixtures. -/
def countsText (passed failed : Nat) : String :=
  "\n  " ++ toString passed ++ " passed · " ++ toString failed ++ " failed\n"

section Report

variable (registry config fs) (color : Bool) (root : Path) (fixtures : List Path)

/-- The outcomes of some fixtures. -/
def checked [Naming] : List (Path × Except AnalysisError Expectation.Outcome) :=
  fixtures.map fun f => (f, checkFile registry config fs f)

theorem length_failed :
    ((checked registry config fs fixtures).filter fun c => !hasPassed c.2).length =
      (fixtures.filter fun f => ¬ FixturePasses registry config fs f).length := by
  simp [checked, List.filter_map, Function.comp_def, ← hasPassed_checkFile_iff]

theorem length_passed_add_failed :
    (fixtures.filter fun f => FixturePasses registry config fs f).length +
      (fixtures.filter fun f => ¬ FixturePasses registry config fs f).length =
      fixtures.length := by
  simpa using (List.filter_append_perm (fun f => decide (FixturePasses registry config fs f))
    fixtures).length_eq

theorem fixtureReport_text :
    (fixtureReport color root (checked registry config fs fixtures)).1 =
      String.join ((checked registry config fs fixtures).map fun c =>
        fixtureLines color (shownPath root c.1) c.2) ++
      countsText (fixtures.filter fun f => FixturePasses registry config fs f).length
        (fixtures.filter fun f => ¬ FixturePasses registry config fs f).length := by
  have hsum := length_passed_add_failed registry config fs fixtures
  have hpassed : (checked registry config fs fixtures).length -
      (fixtures.filter fun f => ¬ FixturePasses registry config fs f).length =
      (fixtures.filter fun f => FixturePasses registry config fs f).length := by
    rw [checked, List.length_map]
    omega
  rw [fixtureReport, length_failed, hpassed, countsText]
  simp only [String.append_assoc]

theorem fixtureReport_status :
    (fixtureReport color root (checked registry config fs fixtures)).2 = .success ↔
      ∀ f ∈ fixtures, FixturePasses registry config fs f := by
  rw [fixtureReport, length_failed]
  simp

end Report

/-- Where a check looks for fixtures. -/
def fixturesRoot (env : Environment) (path : Option Path) : Path :=
  resolved env.files (path.getD ⟨"."⟩)

/-- Without a fixture there is nothing to check, and that is a success. -/
theorem test_eq [Naming] (hc : Config.find env.files (fixturesRoot env path) = .ok config)
    (hd : Discovery.fixtures env.files (fixturesRoot env path) Language.supportedExtensions
      config.ignore.paths = .ok fixtures) :
    (test env path).result = .ok (fixtureReport env.color (fixturesRoot env path)
      (checked Registry.builtin config env.files fixtures)).2 ∧
    (fixtures ≠ [] → (test env path).stdout = (fixtureReport env.color (fixturesRoot env path)
      (checked Registry.builtin config env.files fixtures)).1) := by
  unfold fixturesRoot at *
  unfold test
  dsimp only
  rw [hc]
  dsimp only
  rw [hd]
  cases fixtures with
  | nil => exact ⟨by simp [fixtureReport, checked], fun h => absurd rfl h⟩
  | cons fixture fixtures => exact ⟨rfl, fun _ => rfl⟩

/-- The findings of a source are matched with its annotations as well as can be, and a fixture passes
exactly if they correspond one to one. A check of fixtures succeeds exactly if all of them can be
read and pass, and the counts it prints add up. -/
theorem fixtures_pass_iff_correspond :
    (∀ (registry : Registry) (config : Config) (source : String) (file : Path)
        (findings : List Finding),
      registry.analyzeSource config source file = .ok findings →
        ∃ o, checkSource registry config source file = .ok o ∧
          BestMatching (parse source) findings o) ∧
    (∀ (env : Environment) (path : Option Path) (config : Config) (fixtures : List Path),
      Config.find env.files (fixturesRoot env path) = .ok config →
      Discovery.fixtures env.files (fixturesRoot env path) Language.supportedExtensions
        config.ignore.paths = .ok fixtures →
        ∃ status, (test env path).result = .ok status ∧
          (status = .success ↔
            ∀ f ∈ fixtures, FixturePasses Registry.builtin config env.files f) ∧
          (fixtures ≠ [] → ∃ listing passed failed,
            (test env path).stdout = listing ++ countsText passed failed ∧
            passed = (fixtures.filter fun f =>
              FixturePasses Registry.builtin config env.files f).length ∧
            passed + failed = fixtures.length)) := by
  refine ⟨?_, ?_⟩
  · intro registry config source file findings h
    exact ⟨_, checkSource_eq_ok h, bestMatching_compare file source findings⟩
  · intro env path config fixtures hc hd
    obtain ⟨hresult, hstdout⟩ := test_eq hc hd
    refine ⟨_, hresult, fixtureReport_status _ _ _ _ _ _, fun hne => ?_⟩
    rw [hstdout hne, fixtureReport_text]
    exact ⟨_, _, _, rfl, rfl, length_passed_add_failed _ _ _ _⟩

/-- An annotation for one of two findings on a line. -/
def crowdedLine : String := "// <expect-error> sql-injection\nd.raw(x + y); d.raw(y + x)"

/-- A fixture with an annotation and the finding it speaks of. -/
def annotated : Environment where
  files :=
    { root := .directory
        [("a.test.js", .file "/* <expect-error> sql-injection: SQL */\nd.raw(x + y)".toUTF8)]
      current := ⟨"/"⟩ }
  color := false
  elapsed := ""

/-- The check of the annotated fixture succeeds. Of two findings on a line one is matched, so they do
not correspond to the one annotation. -/
theorem fixtures_pass_iff_correspond_annotated :
    (test annotated none).result = .ok .success ∧
    (∃ listing, (test annotated none).stdout = listing ++ countsText 1 0) ∧
    ∃ findings o, checkSource Registry.builtin {} crowdedLine ⟨"a.test.js"⟩ = .ok o ∧
      o.matched = 1 ∧ o.unexpected.length = 1 ∧
      IsGreatest {n | ∃ p : Pairing (parse crowdedLine) findings, p.size = n} 1 ∧
      ¬ Corresponds (parse crowdedLine) findings := by
  obtain ⟨hsource, htest⟩ := fixtures_pass_iff_correspond
  have hroot : fixturesRoot annotated none = ⟨"/"⟩ := by decide +kernel
  have hc : Config.find annotated.files (fixturesRoot annotated none) = .ok {} := by
    rw [hroot]
    decide +kernel
  have hd : Discovery.fixtures annotated.files (fixturesRoot annotated none)
      Language.supportedExtensions ({} : Config).ignore.paths = .ok [⟨"/a.test.js"⟩] := by
    rw [hroot]
    decide +kernel
  have hpasses : FixturePasses Registry.builtin {} annotated.files ⟨"/a.test.js"⟩ := by
    decide +kernel
  obtain ⟨status, hstatus, hsuccess, hcounts⟩ := htest annotated none {} _ hc hd
  have hlanguage : Language.ofPath? ⟨"a.test.js"⟩ = some .javascript := by decide +kernel
  have hcrowded : Registry.builtin.analyzeSource {} crowdedLine ⟨"a.test.js"⟩ =
      .ok (Registry.builtin.analyzeTree {} .javascript crowdedLine ⟨"a.test.js"⟩
        (Script.parse crowdedLine)) := by
    rw [Registry.analyzeSource, hlanguage]
  obtain ⟨o, ho, hbest⟩ := hsource _ _ _ _ _ hcrowded
  have hmatched : (checkSource Registry.builtin {} crowdedLine ⟨"a.test.js"⟩).map
      (fun o => (o.matched, o.unexpected.length, o.passed)) = .ok (1, 1, false) := by
    decide +kernel
  rw [ho] at hmatched
  obtain ⟨hone, hleft, hpassed⟩ : o.matched = 1 ∧ o.unexpected.length = 1 ∧ o.passed = false := by
    simpa [Except.map] using hmatched
  refine ⟨?_, ?_, _, o, ho, hone, hleft, hone ▸ hbest.greatest, ?_⟩
  · rw [hstatus, hsuccess.2 (by simpa using hpasses)]
  · obtain ⟨listing, passed, failed, hstdout, hcount, hsum⟩ := hcounts (by simp)
    obtain rfl : passed = 1 := by simpa [hpasses] using hcount
    obtain rfl : failed = 0 := by simpa using hsum
    exact ⟨listing, hstdout⟩
  · rw [← hbest.passed, hpassed]
    exact Bool.false_ne_true

end InjectionScan.Command
