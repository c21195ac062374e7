import InjectionScan.Analyzer
import InjectionScan.Proofs.Naming.Utf8
import InjectionScan.Proofs.Suppression.Inline

/-! The verdict on a finding depends on two physical lines of the file that is read for it. -/
namespace InjectionScan.Suppression

open Text FileSystem

variable {fs fs' : FileSystem} {file : Path} {f : Finding} {content content' : String}

/-- Texts with the same line of the finding and the same line before it. -/
structure AgreeAround (f : Finding) (content content' : String) : Prop where
  onLine : physicalLine? content f.line = physicalLine? content' f.line
  lineBefore : physicalLine? content (f.line - 1) = physicalLine? content' (f.line - 1)

theorem agreeAround_replaceLine {k : Nat} {line : List Char} (h : '\n' ∉ line)
    (hon : k ≠ f.line) (hbefore : k + 1 ≠ f.line) :
    AgreeAround f content (replaceLine content k line) where
  onLine := (physicalLine?_replaceLine_of_ne h content hon).symm
  lineBefore := by
    cases k with
    | zero => rfl
    | succ i => exact (physicalLine?_replaceLine_of_ne h content (by omega)).symm

theorem coveredIn_iff_of_readText (h : fs.readText file = .ok content) :
    CoveredIn fs file f ↔
      DirectiveOn content f.line f ∨ 1 < f.line ∧ DirectiveOn content (f.line - 1) f := by
  rw [CoveredIn, h]
  simp

theorem coveredIn_congr (h : fs.readText file = fs'.readText file) :
    CoveredIn fs file f ↔ CoveredIn fs' file f := by
  rw [CoveredIn, CoveredIn, h]

/-- Two files that agree around a finding give the same verdict on it. -/
theorem coveredIn_iff_of_agreeAround (h : fs.readText file = .ok content)
    (h' : fs'.readText file = .ok content') (ha : AgreeAround f content content') :
    CoveredIn fs file f ↔ CoveredIn fs' file f := by
  rw [coveredIn_iff_of_readText h, coveredIn_iff_of_readText h']
  simp only [DirectiveOn, ha.onLine, ha.lineBefore]

/-- Rows are counted by newline bytes alone. -/
theorem report_line (a : Analyzer) (config : Config) (source : String) (file : Path) (r : Remark) :
    (a.report config source file r).line =
      (source.toUTF8.toList.take r.node.start).count 10 + 1 := by
  rw [Analyzer.report, Syntax.Node.position, ofOffset_line]

/-- The line of a finding is the number of the one physical line on which its node starts. -/
theorem lineHolds_iff_report_line (a : Analyzer) (config : Config) (source : String) (file : Path)
    {r : Remark} (h : r.node.start ≤ source.utf8ByteSize) (k : Nat) :
    LineHolds source k r.node.start ↔ k = (a.report config source file r).line := by
  rw [← ofOffset_line_eq_iff h, eq_comm]
  rfl

theorem lines_getElem?_report_line (a : Analyzer) (config : Config) (source : String) (file : Path)
    {r : Remark} (h : r.node.start < source.utf8ByteSize) :
    ∃ line shown, physicalLine? source (a.report config source file r).line = some line ∧
      (lines source)[(a.report config source file r).line - 1]? = some shown ∧
      (line = shown ∨ line = shown ++ ['\r']) := by
  refine lines_getElem?_of_lineHolds ?_ h
  exact (lineHolds_iff_report_line a config source file (Nat.le_of_lt h) _).2 rfl

/-- Inline suppression is exact and local, up to files that are shown alike. Findings keep their
order, and those are suppressed for which the first file that is shown like theirs has a directive on
their line or on the line before. If all files are shown apart, that is their own file, however often
it is read, and files whose paths are text are shown apart. The line of a reported finding is the one
that its node starts on. Other lines of the file that is read and other files do not matter to the
verdict. -/
theorem splitInline_exact_local [Naming] (fs : FileSystem) (findings : List Finding) :
    (splitInline fs findings).kept =
      findings.filter (fun f => ¬ CoveredIn fs (fileFor findings f) f) ∧
    (splitInline fs findings).suppressed =
      (findings.filter fun f => CoveredIn fs (fileFor findings f) f).map
        (fun f => ⟨f, "inline"⟩) ∧
    (ShownApart findings →
      (splitInline fs findings).kept = findings.filter (fun f => ¬ SuppressedInline fs f) ∧
      (splitInline fs findings).suppressed =
        (findings.filter fun f => SuppressedInline fs f).map (fun f => ⟨f, "inline"⟩) ∧
      splitInline fs findings =
        splitBy (fun f => if isCovered (fileDirectives fs f.file) f then some "inline" else none)
          findings) ∧
    ((∀ f ∈ findings, (Naming.text? f.file.text).isSome = true) → ShownApart findings) ∧
    (∀ (a : Analyzer) (config : Config) (source : String) (file : Path) (r : Remark),
      (a.report config source file r).line =
        (source.toUTF8.toList.take r.node.start).count 10 + 1 ∧
      (r.node.start ≤ source.utf8ByteSize →
        (∀ k, LineHolds source k r.node.start ↔ k = (a.report config source file r).line) ∧
        (r.node.start < source.utf8ByteSize →
          ∃ line shown, physicalLine? source (a.report config source file r).line = some line ∧
            (lines source)[(a.report config source file r).line - 1]? = some shown ∧
            (line = shown ∨ line = shown ++ ['\r'])))) ∧
    (∀ (f : Finding) (file : Path) (target : List String) (old : ByteArray),
      fs.root.at? target = some (.file old) →
        (∀ content, fs.place? file = .ok target → fs.readText file = .ok content →
          (∀ content', AgreeAround f content content' →
            (CoveredIn (fs.withFile target content'.toUTF8) file f ↔ CoveredIn fs file f)) ∧
          (∀ k line, k ≠ f.line → k + 1 ≠ f.line → '\n' ∉ line →
            (CoveredIn (fs.withFile target (replaceLine content k line).toUTF8) file f ↔
              CoveredIn fs file f))) ∧
        (∀ bytes, fs.place? file ≠ .ok target →
          (CoveredIn (fs.withFile target bytes) file f ↔ CoveredIn fs file f))) := by
  refine ⟨kept_splitInline fs findings, suppressed_splitInline fs findings,
    splitInline_of_shownApart fs, shownApart_of_text, ?_, ?_⟩
  · intro a config source file r
    refine ⟨report_line a config source file r, fun h => ⟨?_, ?_⟩⟩
    · exact lineHolds_iff_report_line a config source file h
    · exact lines_getElem?_report_line a config source file
  · intro f file target old ht
    refine ⟨?_, ?_⟩
    · intro content hp hr
      have hsame : ∀ content', AgreeAround f content content' →
          (CoveredIn (fs.withFile target content'.toUTF8) file f ↔ CoveredIn fs file f) :=
        fun content' ha =>
          (coveredIn_iff_of_agreeAround hr (readText_withFile_self ht hp) ha).symm
      exact ⟨hsame, fun k line hon hbefore hline =>
        hsame _ (agreeAround_replaceLine hline hon hbefore)⟩
    · intro bytes hne
      exact coveredIn_congr (readText_withFile_of_ne ht hne)

/-- Line ends of both kinds, a return that ends no line, and a directive on the second line. -/
def mixedEnds : String := "x\r\n// sqlscan-ignore sql-injection\r\ny\n\rz"

def twoFiles : FileSystem where
  root := .directory [("a.js", .file mixedEnds.toUTF8), ("b.js", .file "w".toUTF8)]
  current := ⟨"/"⟩

def anyIdentifier : Analyzer :=
  .ofKind "sql-injection" "SQL" "" "" "identifier" .security .critical none

/-- The node at byte 36, where the third line starts. -/
def onThirdLine : Remark := ⟨.node (.rule .identifier) none 36 37 [], "", none⟩

def thirdLine : Finding := anyIdentifier.report {} mixedEnds ⟨"a.js"⟩ onThirdLine

theorem suppressedInline_twoFiles : SuppressedInline twoFiles thirdLine := by
  have hread : twoFiles.readText thirdLine.file = .ok mixedEnds := readText_of_readBytes rfl
  refine (coveredIn_iff_of_readText hread).2 (.inr ⟨by decide +kernel, ?_⟩)
  have hline : physicalLine? mixedEnds (thirdLine.line - 1) =
      some "// sqlscan-ignore sql-injection\r".toList := by decide +kernel
  have htokens : lineTokens "// sqlscan-ignore sql-injection\r".toList = ["sql-injection"] := by
    decide +kernel
  exact ⟨_, hline, "sql-injection", htokens ▸ List.mem_singleton_self _, .inr (.inr rfl)⟩

/-- A finding on the third line stays suppressed if the fourth line, all after the third line or the
other file is replaced. -/
theorem splitInline_exact_local_twoFiles :
    (@splitInline .utf8 twoFiles [thirdLine]).suppressed = [⟨thirdLine, "inline"⟩] ∧
    LineHolds mixedEnds 3 36 ∧
    (∃ line shown, physicalLine? mixedEnds 3 = some line ∧ (lines mixedEnds)[2]? = some shown ∧
      (line = shown ∨ line = shown ++ ['\r'])) ∧
    SuppressedInline (twoFiles.withFile ["a.js"]
      (replaceLine mixedEnds 4 "// sqlscan-ignore *".toList).toUTF8) thirdLine ∧
    SuppressedInline (twoFiles.withFile ["a.js"]
      "\n// sqlscan-ignore sql-injection\r\ny".toUTF8) thirdLine ∧
    SuppressedInline (twoFiles.withFile ["b.js"] ByteArray.empty) thirdLine := by
  have hread : twoFiles.readText thirdLine.file = .ok mixedEnds := readText_of_readBytes rfl
  have hline : (anyIdentifier.report {} mixedEnds ⟨"a.js"⟩ onThirdLine).line = 3 := by
    decide +kernel
  have hplaced : twoFiles.place? thirdLine.file = .ok ["a.js"] := rfl
  obtain ⟨-, -, hexact, happart, hplace, hlocal⟩ :=
    @splitInline_exact_local .utf8 twoFiles [thirdLine]
  obtain ⟨-, hsuppressed, -⟩ := hexact (happart (by decide +kernel))
  obtain ⟨-, hholds⟩ := hplace anyIdentifier {} mixedEnds ⟨"a.js"⟩ onThirdLine
  obtain ⟨hholds, hlines⟩ := hholds (by decide +kernel)
  rw [hline] at hlines
  obtain ⟨hsame, -⟩ := hlocal thirdLine thirdLine.file ["a.js"] _ rfl
  obtain ⟨hagree, hreplace⟩ := hsame mixedEnds hplaced hread
  obtain ⟨-, hother⟩ := hlocal thirdLine thirdLine.file ["b.js"] _ rfl
  refine ⟨?_, (hholds 3).2 hline.symm, hlines (by decide +kernel), ?_, ?_, ?_⟩
  · rw [hsuppressed, List.filter_cons_of_pos (by simpa using suppressedInline_twoFiles)]
    rfl
  · have hfourth := hreplace 4 "// sqlscan-ignore *".toList (by decide +kernel) (by decide +kernel)
    exact (hfourth (by decide)).2 suppressedInline_twoFiles
  · exact (hagree _ ⟨by decide +kernel, by decide +kernel⟩).2 suppressedInline_twoFiles
  · exact (hother _ (by simp [hplaced])).2 suppressedInline_twoFiles

/-- Two files that are shown alike, as neither name is text. Only the first one has a directive. -/
def shownAlike : FileSystem where
  root := .directory
    [("a\xfe.js", .file "// sqlscan-ignore SQL\nx".toUTF8), ("a\xff.js", .file "\nx".toUTF8)]
  current := ⟨"/"⟩

def secondLine (file : Path) : Finding where
  id := "SQL-001"
  rule := "sql-injection"
  severity := .critical
  category := .security
  message := ""
  file
  line := 2
  column := 1
  suggestion := none

/-- The directive in the first file suppresses the finding in the second one, which has none and is
kept as soon as the first file is emptied. -/
theorem splitInline_mixes_files_shown_alike :
    ¬ SuppressedInline shownAlike (secondLine ⟨"a\xff.js"⟩) ∧
    (@splitInline .utf8 shownAlike [secondLine ⟨"a\xfe.js"⟩, secondLine ⟨"a\xff.js"⟩]).kept = [] ∧
    (@splitInline .utf8 (shownAlike.withFile ["a\xfe.js"] ByteArray.empty)
      [secondLine ⟨"a\xfe.js"⟩, secondLine ⟨"a\xff.js"⟩]).kept =
        [secondLine ⟨"a\xfe.js"⟩, secondLine ⟨"a\xff.js"⟩] := by
  decide +kernel

end InjectionScan.Suppression
