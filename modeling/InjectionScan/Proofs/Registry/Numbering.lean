import InjectionScan.Proofs.Registry.Dependence

/-! Within a code findings are numbered without gaps, and no identifier is given twice. -/
namespace InjectionScan

/-- A finding as it is before it is numbered. -/
def Finding.withoutId (f : Finding) : Finding := { f with id := "" }

namespace Registry

variable {registry : Registry} {counters : List (String × Nat)} {findings : List Finding}

/-- The identifier of a code's finding with a number. -/
def idOf (code : String) (k : Nat) : String := code ++ "-" ++ threeDigits k

section Identifier

theorem threeDigits_eq_leftpad (k : Nat) :
    threeDigits k = String.ofList ((toString k).toList.leftpad 3 '0') := by
  simp [threeDigits, List.leftpad]

theorem toList_threeDigits (k : Nat) :
    (threeDigits k).toList =
      List.replicate (3 - (Nat.toDigits 10 k).length) '0' ++ Nat.toDigits 10 k := by
  simp [threeDigits]

/-- Read as a number, the digits give back what was written, however many there are. -/
theorem ofDigitChars_threeDigits (k : Nat) :
    Nat.ofDigitChars 10 (threeDigits k).toList 0 = k := by
  rw [toList_threeDigits, Nat.ofDigitChars_append, Nat.ofDigitChars_replicate_zero]
  simp

theorem dash_notMem_threeDigits (k : Nat) : '-' ∉ (threeDigits k).toList := by
  rw [toList_threeDigits, List.mem_append]
  rintro (h | h)
  · exact absurd (List.eq_of_mem_replicate h) (by decide)
  · exact absurd (Nat.isDigit_of_mem_toDigits (by decide) (by decide) h) (by decide)

/-- The last dash divides an identifier, whatever dashes and digits the code has. -/
theorem eq_of_append_dash {xs ys ds es : List Char} (hd : '-' ∉ ds) (he : '-' ∉ es)
    (h : xs ++ '-' :: ds = ys ++ '-' :: es) : xs = ys ∧ ds = es := by
  rcases List.append_eq_append_iff.1 h with ⟨zs, hy, hz⟩ | ⟨zs, hx, hz⟩
  · cases zs with
    | nil => exact ⟨by simpa using hy.symm, by simpa using hz⟩
    | cons z zs =>
      have hmem : ds = zs ++ '-' :: es := by simpa using (List.cons.inj hz).2
      exact absurd (by simp [hmem]) hd
  · cases zs with
    | nil => exact ⟨by simpa using hx, by simpa using hz.symm⟩
    | cons z zs =>
      have hmem : es = zs ++ '-' :: ds := by simpa using (List.cons.inj hz).2
      exact absurd (by simp [hmem]) he

theorem idOf_inj {c d : String} {j k : Nat} (h : idOf c j = idOf d k) : c = d ∧ j = k := by
  have hl := congrArg String.toList h
  simp only [idOf, String.toList_append, List.append_assoc] at hl
  obtain ⟨hc, hn⟩ := eq_of_append_dash (dash_notMem_threeDigits j) (dash_notMem_threeDigits k) hl
  refine ⟨String.toList_inj.1 hc, ?_⟩
  rw [← ofDigitChars_threeDigits j, hn, ofDigitChars_threeDigits]

end Identifier

section Counters

/-- How many findings of a code were numbered; none if it has no counter. -/
def counted (counters : List (String × Nat)) (code : String) : Nat :=
  (counters.lookup code).getD 0

theorem counted_cons (c code : String) (n : Nat) (counters : List (String × Nat)) :
    counted ((c, n) :: counters) code = if code = c then n else counted counters code := by
  by_cases h : code = c
  · simp [counted, h]
  · have hb : (code == c) = false := by simpa using h
    simp [counted, List.lookup_cons, h, hb]

theorem countUp_fst (code : String) (counters : List (String × Nat)) :
    (countUp code counters).1 = counted counters code + 1 := by
  induction counters with
  | nil => rfl
  | cons e counters ih =>
    obtain ⟨c, n⟩ := e
    rw [countUp, counted_cons]
    by_cases h : c = code
    · simp [h]
    · simp [h, Ne.symm h, ih]

theorem counted_countUp (code c : String) (counters : List (String × Nat)) :
    counted (countUp code counters).2 c = counted counters c + if c = code then 1 else 0 := by
  induction counters with
  | nil =>
    rw [countUp, counted_cons]
    by_cases h : c = code <;> simp [counted, h]
  | cons e counters ih =>
    obtain ⟨d, n⟩ := e
    rw [countUp, counted_cons]
    by_cases h : d = code
    · subst h
      by_cases hc : c = d <;> simp [counted_cons, hc]
    · by_cases hc : c = d
      · simp [counted_cons, h, hc]
      · simp [counted_cons, h, hc, ih]

end Counters

/-- The findings of one code get consecutive numbers, going on from its counter. -/
theorem numberAfter_ids (code : String) :
    ((registry.numberAfter counters findings).filter fun f => registry.codeOf f.rule = code).map
        Finding.id =
      (List.range' (counted counters code + 1)
        (findings.filter fun f => registry.codeOf f.rule = code).length).map (idOf code) := by
  induction findings generalizing counters with
  | nil => rfl
  | cons f fs ih =>
    have hnext := counted_countUp (registry.codeOf f.rule) code counters
    by_cases hcode : registry.codeOf f.rule = code
    · subst hcode
      simp only [numberAfter, List.filter_cons, decide_true, if_true, List.map_cons,
        List.length_cons, List.range'_succ]
      rw [ih, hnext, countUp_fst]
      simp [idOf]
    · have hne : ¬ code = registry.codeOf f.rule := fun he => hcode he.symm
      simp only [numberAfter, List.filter_cons, hcode, decide_false, Bool.false_eq_true, if_false]
      rw [ih, hnext]
      simp [hne]

/-- As many numbers are given to a code as it has findings. -/
theorem number_ids (code : String) :
    ((registry.number findings).filter fun f => registry.codeOf f.rule = code).map Finding.id =
      (List.range' 1 ((registry.number findings).filter fun f =>
        registry.codeOf f.rule = code).length).map (idOf code) := by
  have hids : ((registry.number findings).filter fun f =>
      registry.codeOf f.rule = code).map Finding.id = _ := numberAfter_ids code
  have hlength := congrArg List.length hids
  simp only [List.length_map, List.length_range'] at hlength
  rw [hids, hlength]
  rfl

theorem map_rule_numberAfter :
    (registry.numberAfter counters findings).map Finding.rule = findings.map Finding.rule := by
  induction findings generalizing counters with
  | nil => rfl
  | cons f fs ih => simp [numberAfter, ih]

theorem id_of_mem_numberAfter {f : Finding} (h : f ∈ registry.numberAfter counters findings) :
    ∃ k, counted counters (registry.codeOf f.rule) < k ∧
      f.id = idOf (registry.codeOf f.rule) k := by
  have hmem : f.id ∈ ((registry.numberAfter counters findings).filter fun g =>
      registry.codeOf g.rule = registry.codeOf f.rule).map Finding.id :=
    List.mem_map_of_mem (List.mem_filter.2 ⟨h, by simp⟩)
  rw [numberAfter_ids] at hmem
  obtain ⟨k, hk, hid⟩ := List.mem_map.1 hmem
  exact ⟨k, (List.mem_range'_1.1 hk).1, hid.symm⟩

/-- A number is past all numbers that its code had before, so no identifier comes again. -/
theorem nodup_ids_numberAfter :
    ((registry.numberAfter counters findings).map Finding.id).Nodup := by
  induction findings generalizing counters with
  | nil => exact List.nodup_nil
  | cons f fs ih =>
    simp only [numberAfter, List.map_cons, List.nodup_cons]
    refine ⟨?_, ih⟩
    intro hmem
    obtain ⟨g, hg, hid⟩ := List.mem_map.1 hmem
    obtain ⟨k, hk, hgid⟩ := id_of_mem_numberAfter hg
    obtain ⟨hcode, hnum⟩ := idOf_inj (hgid.symm.trans hid)
    rw [hcode, counted_countUp, if_pos rfl] at hk
    rw [countUp_fst] at hnum
    omega

/-- The code of the first analyzer of that name. -/
def firstCode? (registry : Registry) (rule : String) : Option String :=
  (List.find? (fun a => a.name == rule) registry).map Analyzer.code

theorem codeOf_of_firstCode? {rule code : String} (h : registry.firstCode? rule = some code) :
    registry.codeOf rule = code := by
  rw [codeOf, ← firstCode?, h, Option.getD_some]

theorem firstCode?_isSome {a : Analyzer} (h : a ∈ registry) :
    (registry.firstCode? a.name).isSome = true := by
  simp only [firstCode?, Option.isSome_map, List.find?_isSome]
  exact ⟨a, h, by simp⟩

theorem map_withoutId_numberAfter (counters : List (String × Nat)) (findings : List Finding) :
    (registry.numberAfter counters findings).map Finding.withoutId =
      findings.map Finding.withoutId := by
  induction findings generalizing counters with
  | nil => rfl
  | cons f findings ih => simp [numberAfter, ih, Finding.withoutId]

section Run

variable [Naming]

/-- The report of a run that drops no finding by its identifier. -/
def fullReport (registry : Registry) (config : Config) (fs : FileSystem) (files : List Path) :
    Report :=
  registry.runAll { config with ignore := { config.ignore with findings := [] } } fs files

/-- The findings of all files that can be analysed, before they are numbered. -/
def unnumbered (registry : Registry) (config : Config) (fs : FileSystem) (files : List Path) :
    List Finding :=
  files.flatMap fun file => (registry.analyzeFile config fs file).toOption.getD []

theorem unnumbered_congr {config config' : Config} {fs : FileSystem} {files : List Path}
    (h : config.rules = config'.rules) :
    registry.unnumbered config fs files = registry.unnumbered config' fs files := by
  simp [unnumbered, analyzeFile_congr h]

variable (registry : Registry) (config : Config) (fs : FileSystem) (files : List Path)

theorem runAll_findings :
    (registry.runAll config fs files).findings =
      (registry.number (registry.unnumbered config fs files)).filter fun f =>
        f.id ∉ config.ignore.findings := by
  simp [runAll, unnumbered, List.flatMap_map]

theorem fullReport_findings :
    (registry.fullReport config fs files).findings =
      registry.number (registry.unnumbered config fs files) := by
  have hrules : registry.unnumbered
      { config with ignore := { config.ignore with findings := [] } } fs files =
        registry.unnumbered config fs files := unnumbered_congr rfl
  rw [fullReport, runAll_findings, hrules]
  exact List.filter_eq_self.2 (by simp)

/-- Dropping findings by their identifiers leaves all else as it is without dropping. -/
theorem runAll_eq_filter :
    registry.runAll config fs files =
      { registry.fullReport config fs files with
        findings := (registry.fullReport config fs files).findings.filter fun f =>
          f.id ∉ config.ignore.findings } := by
  have hrules : ∀ file, registry.analyzeFile
      { config with ignore := { config.ignore with findings := [] } } fs file =
        registry.analyzeFile config fs file := fun file => analyzeFile_congr rfl
  rw [fullReport_findings, ← runAll_findings]
  simp only [fullReport, runAll, hrules]

theorem exists_of_mem_unnumbered {f : Finding} (h : f ∈ registry.unnumbered config fs files) :
    ∃ file findings, registry.analyzeFile config fs file = .ok findings ∧ f ∈ findings := by
  obtain ⟨file, -, hf⟩ := List.mem_flatMap.1 h
  cases hr : registry.analyzeFile config fs file with
  | error e => simp [hr, Except.toOption] at hf
  | ok findings =>
    simp only [hr, Except.toOption, Option.getD_some] at hf
    exact ⟨file, findings, hr, hf⟩

theorem withoutId_of_mem_unnumbered {f : Finding} (h : f ∈ registry.unnumbered config fs files) :
    f.withoutId = f := by
  obtain ⟨file, findings, hr, hf⟩ := exists_of_mem_unnumbered registry config fs files h
  rw [Finding.withoutId, ← id_of_mem_analyzeFile hr hf]

/-- Numbering changes nothing but identifiers. -/
theorem map_withoutId_fullReport :
    (registry.fullReport config fs files).findings.map Finding.withoutId =
      registry.unnumbered config fs files := by
  rw [fullReport_findings, number, map_withoutId_numberAfter]
  exact (List.map_congr_left fun f hf =>
    withoutId_of_mem_unnumbered registry config fs files hf).trans (List.map_id' _)

theorem firstCode?_of_mem_unnumbered {f : Finding} (h : f ∈ registry.unnumbered config fs files) :
    (registry.firstCode? f.rule).isSome = true := by
  obtain ⟨file, findings, hr, hf⟩ := exists_of_mem_unnumbered registry config fs files h
  obtain ⟨a, ha, hrule⟩ := rule_of_mem_analyzeFile hr hf
  rw [hrule]
  exact firstCode?_isSome ha

theorem firstCode?_of_mem_fullReport {f : Finding}
    (h : f ∈ (registry.fullReport config fs files).findings) :
    (registry.firstCode? f.rule).isSome = true := by
  have hrule : f.rule ∈ (registry.unnumbered config fs files).map Finding.rule := by
    rw [fullReport_findings, number] at h
    rw [← map_rule_numberAfter]
    exact List.mem_map_of_mem h
  obtain ⟨g, hg, hrule⟩ := List.mem_map.1 hrule
  rw [← hrule]
  exact firstCode?_of_mem_unnumbered registry config fs files hg

theorem firstCode?_eq_some_iff_of_mem_fullReport {f : Finding} {code : String}
    (h : f ∈ (registry.fullReport config fs files).findings) :
    registry.firstCode? f.rule = some code ↔ registry.codeOf f.rule = code := by
  have hsome := firstCode?_of_mem_fullReport registry config fs files h
  obtain ⟨c, hc⟩ := Option.isSome_iff_exists.1 hsome
  rw [hc, codeOf_of_firstCode? hc, Option.some_inj]

/-- Before some are dropped, the findings are those of one file after another, but for their
identifiers. Every finding has a code, the findings of one code are numbered from one on without gaps
and with at least three digits, and all identifiers differ. Those with a listed identifier are
dropped, and nothing else changes. -/
theorem runAll_identifiers :
    (registry.fullReport config fs files).findings.map Finding.withoutId =
        files.flatMap (fun file => (registry.analyzeFile config fs file).toOption.getD []) ∧
      ((registry.fullReport config fs files).findings.all fun f =>
        (registry.firstCode? f.rule).isSome) = true ∧
      (∀ code,
        let ofCode := (registry.fullReport config fs files).findings.filter fun f =>
          registry.firstCode? f.rule = some code
        ofCode.map Finding.id = (List.range' 1 ofCode.length).map fun k =>
          code ++ "-" ++ String.ofList ((toString k).toList.leftpad 3 '0')) ∧
      ((registry.fullReport config fs files).findings.map Finding.id).Nodup ∧
      registry.runAll config fs files =
        { registry.fullReport config fs files with
          findings := (registry.fullReport config fs files).findings.filter fun f =>
            f.id ∉ config.ignore.findings } := by
  refine ⟨map_withoutId_fullReport registry config fs files, ?_, ?_, ?_,
    runAll_eq_filter registry config fs files⟩
  · rw [List.all_eq_true]
    intro f hf
    exact firstCode?_of_mem_fullReport registry config fs files hf
  · intro code ofCode
    have hcodes : ofCode = (registry.fullReport config fs files).findings.filter fun f =>
        registry.codeOf f.rule = code := by
      refine List.filter_congr fun f hf => ?_
      rw [decide_eq_decide]
      exact firstCode?_eq_some_iff_of_mem_fullReport registry config fs files hf
    simp only [← threeDigits_eq_leftpad, hcodes, fullReport_findings]
    exact number_ids code
  · rw [fullReport_findings]
    exact nodup_ids_numberAfter

end Run

/-- Two analyzers with one code, one whose code starts with theirs and a dash, and a second one of a
name. -/
def repeatedCodes : Registry :=
  [.ofKind "calls" "SQL-1" "" "" "call_expression" .security .critical none,
    .ofKind "names" "SQL" "" "" "identifier" .style .info none,
    .ofKind "numbers" "SQL" "" "" "number" .style .info none,
    .ofKind "names" "TEXT" "" "" "string" .style .info none]

def twoScripts : FileSystem where
  root := .directory [("a.js", .file "f(1)".toUTF8), ("b.js", .file "g('')".toUTF8)]
  current := ⟨"/"⟩

/-- The numbers go on from one file to the next and leave a gap only where a finding is dropped. -/
theorem runAll_identifiers_repeatedCodes :
    let config : Config := { ignore := { findings := ["SQL-002"] } }
    let files : List Path := [⟨"a.js"⟩, ⟨"b.js"⟩]
    (repeatedCodes.fullReport config twoScripts files).findings.map
        (fun f => (f.id, f.rule, f.file.text)) =
      [("SQL-1-001", "calls", "a.js"), ("SQL-001", "names", "a.js"), ("SQL-002", "numbers", "a.js"),
        ("SQL-1-002", "calls", "b.js"), ("SQL-003", "names", "b.js"), ("SQL-004", "names", "b.js")] ∧
    ((repeatedCodes.fullReport config twoScripts files).findings.filter fun f =>
        repeatedCodes.firstCode? f.rule = some "SQL").map Finding.id =
      ["SQL-001", "SQL-002", "SQL-003", "SQL-004"] ∧
    ((repeatedCodes.fullReport config twoScripts files).findings.map Finding.id).Nodup ∧
    (repeatedCodes.runAll config twoScripts files).findings.map Finding.id =
      ["SQL-1-001", "SQL-001", "SQL-1-002", "SQL-003", "SQL-004"] := by
  intro config files
  obtain ⟨-, -, hnumbers, hnodup, hdropped⟩ :=
    runAll_identifiers repeatedCodes config twoScripts files
  refine ⟨by decide +kernel, (hnumbers "SQL").trans (by decide +kernel), hnodup, ?_⟩
  rw [hdropped]
  decide +kernel

end Registry

end InjectionScan
