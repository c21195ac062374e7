import InjectionScan.Proofs.Suppression.Directive
import InjectionScan.Suppression.Filter
import Mathlib.Data.List.Basic

/-! Files are read once for all findings in files that are shown alike. -/
namespace InjectionScan.Suppression

open Text

variable {fs : FileSystem} {findings : List Finding} {f : Finding} {content : String} {k : Nat}

section Split

variable {reason? reason?' : Finding → Option String}

theorem splitBy_congr (h : ∀ f ∈ findings, reason? f = reason?' f) :
    splitBy reason? findings = splitBy reason?' findings := by
  rw [splitBy, splitBy]
  congr 1
  · exact List.filter_congr fun f hf => by rw [h f hf]
  · exact List.filterMap_congr fun f hf => by rw [h f hf]

/-- The suppressed findings are the others, in the same order. -/
theorem findings_suppressed_splitBy :
    (splitBy reason? findings).suppressed.map Suppressed.finding =
      findings.filter fun f => (reason? f).isSome := by
  induction findings with
  | nil => rfl
  | cons f findings ih =>
    simp only [splitBy] at ih ⊢
    cases hr : reason? f with
    | none => simp [hr, ih]
    | some reason => simp [hr, ih]

/-- No finding is lost or doubled. -/
theorem perm_splitBy (reason? : Finding → Option String) (findings : List Finding) :
    ((splitBy reason? findings).kept ++
      (splitBy reason? findings).suppressed.map Suppressed.finding).Perm findings := by
  rw [findings_suppressed_splitBy, splitBy]
  simpa using List.filter_append_perm (fun f => (reason? f).isNone) findings

/-- With one reason only, the suppressed findings are those that have it. -/
theorem suppressed_splitBy_const (p : Finding → Bool) (reason : String) :
    (splitBy (fun f => if p f then some reason else none) findings).suppressed =
      (findings.filter p).map fun f => ⟨f, reason⟩ := by
  induction findings with
  | nil => rfl
  | cons f findings ih =>
    simp only [splitBy] at ih ⊢
    by_cases hp : p f
    · simpa [hp] using ih
    · simpa [hp] using ih

end Split

section Cache

variable [Naming]

/-- The file that is read for a finding: that of the first finding whose file is shown alike. -/
def fileFor (findings : List Finding) (f : Finding) : Path :=
  ((findings.find? fun g => g.file.shown == f.file.shown).map Finding.file).getD f.file

/-- No two files with findings are shown alike. -/
def ShownApart (findings : List Finding) : Prop :=
  ∀ f ∈ findings, ∀ g ∈ findings, f.file.shown = g.file.shown → f.file = g.file

/-- One more finding whose file is read if none that is shown alike is known yet. -/
def know (fs : FileSystem) (known : List (String × List (Nat × List String))) (f : Finding) :
    List (String × List (Nat × List String)) :=
  if (known.lookup f.file.shown).isSome then known
  else (f.file.shown, fileDirectives fs f.file) :: known

theorem lookup_know (known : List (String × List (Nat × List String))) (f : Finding)
    (key : String) :
    (know fs known f).lookup key = (known.lookup key).or
      (if f.file.shown == key then some (fileDirectives fs f.file) else none) := by
  rw [know]
  by_cases hkey : f.file.shown = key
  · subst hkey
    cases hknown : known.lookup f.file.shown with
    | none => simp
    | some found => simp [hknown]
  · have hne : (key == f.file.shown) = false := by simpa using fun h => hkey h.symm
    split <;> simp [List.lookup_cons, hne, hkey]

theorem lookup_foldl_know (known : List (String × List (Nat × List String)))
    (findings : List Finding) (key : String) :
    (findings.foldl (know fs) known).lookup key = (known.lookup key).or
      ((findings.find? fun g => g.file.shown == key).map fun g => fileDirectives fs g.file) := by
  induction findings generalizing known with
  | nil => simp
  | cons f findings ih =>
    rw [List.foldl_cons, ih, lookup_know, Option.or_assoc, List.find?_cons]
    cases f.file.shown == key with
    | true => simp
    | false => simp

/-- A finding gets the directives of the first file that is shown like its own. -/
theorem lookup_allDirectives (h : f ∈ findings) :
    (allDirectives fs findings).lookup f.file.shown =
      some (fileDirectives fs (fileFor findings f)) := by
  have hlookup : (allDirectives fs findings).lookup f.file.shown =
      (findings.find? fun g => g.file.shown == f.file.shown).map
        fun g => fileDirectives fs g.file :=
    (lookup_foldl_know [] findings f.file.shown).trans Option.none_or
  have hsome : (findings.find? fun g => g.file.shown == f.file.shown).isSome = true :=
    List.find?_isSome.2 ⟨f, h, beq_self_eq_true _⟩
  obtain ⟨g, hg⟩ := Option.isSome_iff_exists.1 hsome
  rw [hlookup, fileFor, hg]
  rfl

theorem splitInline_eq_splitBy (fs : FileSystem) (findings : List Finding) :
    splitInline fs findings =
      splitBy (fun f => if isCovered (fileDirectives fs (fileFor findings f)) f then some "inline"
        else none) findings := by
  refine splitBy_congr fun f hf => ?_
  rw [lookup_allDirectives hf, Option.getD_some]

theorem ShownApart.subset {some : List Finding} (h : ShownApart findings)
    (hsome : some ⊆ findings) : ShownApart some :=
  fun f hf g hg => h f (hsome hf) g (hsome hg)

/-- Whatever part of the findings the files are read for, each finding gets its own file. -/
theorem fileFor_of_shownApart {some : List Finding} (h : ShownApart findings)
    (hsome : some ⊆ findings) (hf : f ∈ findings) : fileFor some f = f.file := by
  rw [fileFor]
  cases hfind : some.find? fun g => g.file.shown == f.file.shown with
  | none => rfl
  | some g =>
    have hshown : g.file.shown = f.file.shown := by simpa using List.find?_some hfind
    exact h g (hsome (List.mem_of_find?_eq_some hfind)) f hf hshown

theorem shownApart_of_text (h : ∀ f ∈ findings, (Naming.text? f.file.text).isSome = true) :
    ShownApart findings := by
  intro f hf g hg hshown
  obtain ⟨text, htext⟩ := Option.isSome_iff_exists.1 (h f hf)
  obtain ⟨other, hother⟩ := Option.isSome_iff_exists.1 (h g hg)
  rw [Path.shown, Path.shown, Naming.shown_of_text? htext, Naming.shown_of_text? hother] at hshown
  subst hshown
  have hsame := (Naming.text?_eq_some_iff.1 htext).trans (Naming.text?_eq_some_iff.1 hother).symm
  exact congrArg Path.mk (String.toList_inj.1 hsame)

end Cache

section Verdict

/-- A token stands for all findings, for those with a code or for those of a rule. -/
def Matches (f : Finding) (token : String) : Prop :=
  token = "*" ∨ token = codeOfId f.id ∨ token = f.rule

/-- The physical line with that number has a directive with a token for the finding. -/
def DirectiveOn (content : String) (k : Nat) (f : Finding) : Prop :=
  ∃ line, physicalLine? content k = some line ∧ ∃ token ∈ lineTokens line, Matches f token

/-- A file can be read as text, and a directive for the finding is on the finding's line or on the
line before. -/
def CoveredIn (fs : FileSystem) (file : Path) (f : Finding) : Prop :=
  ∃ content, fs.readText file = .ok content ∧
    (DirectiveOn content f.line f ∨ 1 < f.line ∧ DirectiveOn content (f.line - 1) f)

/-- The finding's own file has a directive for it. -/
def SuppressedInline (fs : FileSystem) (f : Finding) : Prop := CoveredIn fs f.file f

theorem covers_iff {tokens : List String} :
    covers tokens f = true ↔ ∃ token ∈ tokens, Matches f token := by
  simp [covers, Matches, or_assoc]

theorem covers_tokensOn_iff : covers (tokensOn content k) f = true ↔ DirectiveOn content k f := by
  rw [covers_iff, tokensOn, DirectiveOn]
  cases physicalLine? content k with
  | none => simp
  | some line => simp

theorem isCovered_directives_iff :
    isCovered (directives content) f = true ↔
      DirectiveOn content f.line f ∨ 1 < f.line ∧ DirectiveOn content (f.line - 1) f := by
  simp only [isCovered, any_lookup_directives, Bool.or_eq_true, Bool.and_eq_true,
    decide_eq_true_eq, covers_tokensOn_iff]

theorem isCovered_fileDirectives_iff {file : Path} :
    isCovered (fileDirectives fs file) f = true ↔ CoveredIn fs file f := by
  rw [fileDirectives, CoveredIn]
  cases fs.readText file with
  | error e => simp [isCovered]
  | ok content => simp [isCovered_directives_iff]

instance {file : Path} : Decidable (CoveredIn fs file f) :=
  decidable_of_iff (isCovered (fileDirectives fs file) f = true) isCovered_fileDirectives_iff

instance : Decidable (SuppressedInline fs f) := inferInstanceAs (Decidable (CoveredIn fs f.file f))

variable [Naming]

theorem kept_splitInline (fs : FileSystem) (findings : List Finding) :
    (splitInline fs findings).kept =
      findings.filter fun f => ¬ CoveredIn fs (fileFor findings f) f := by
  rw [splitInline_eq_splitBy, splitBy]
  refine List.filter_congr fun f _ => ?_
  rw [Bool.eq_iff_iff, decide_eq_true_iff, ← isCovered_fileDirectives_iff]
  split <;> simp_all

theorem suppressed_splitInline (fs : FileSystem) (findings : List Finding) :
    (splitInline fs findings).suppressed =
      (findings.filter fun f => CoveredIn fs (fileFor findings f) f).map
        fun f => ⟨f, "inline"⟩ := by
  rw [splitInline_eq_splitBy, suppressed_splitBy_const]
  congr 1
  refine List.filter_congr fun f _ => ?_
  rw [Bool.eq_iff_iff, decide_eq_true_iff, isCovered_fileDirectives_iff]

theorem findings_suppressed_splitInline (fs : FileSystem) (findings : List Finding) :
    (splitInline fs findings).suppressed.map Suppressed.finding =
      findings.filter fun f => CoveredIn fs (fileFor findings f) f := by
  rw [suppressed_splitInline, List.map_map]
  exact List.map_id _

/-- If all files are shown apart, a finding is judged by its own file. -/
theorem coveredIn_fileFor_iff {some : List Finding} (h : ShownApart findings)
    (hsome : some ⊆ findings) (hf : f ∈ findings) :
    CoveredIn fs (fileFor some f) f ↔ SuppressedInline fs f := by
  rw [fileFor_of_shownApart h hsome hf, SuppressedInline]

/-- If all files are shown apart, each file counts for its own findings, as if it were read anew for
every one of them. -/
theorem splitInline_of_shownApart (fs : FileSystem) (h : ShownApart findings) :
    (splitInline fs findings).kept = findings.filter (fun f => ¬ SuppressedInline fs f) ∧
    (splitInline fs findings).suppressed =
      (findings.filter fun f => SuppressedInline fs f).map (fun f => ⟨f, "inline"⟩) ∧
    splitInline fs findings =
      splitBy (fun f => if isCovered (fileDirectives fs f.file) f then some "inline" else none)
        findings := by
  have hown : ∀ f ∈ findings, CoveredIn fs (fileFor findings f) f ↔ SuppressedInline fs f :=
    fun f hf => coveredIn_fileFor_iff h (List.Subset.refl _) hf
  rw [kept_splitInline, suppressed_splitInline]
  refine ⟨?_, ?_, ?_⟩
  · exact List.filter_congr fun f hf => decide_eq_decide.2 (not_congr (hown f hf))
  · exact congrArg _ (List.filter_congr fun f hf => decide_eq_decide.2 (hown f hf))
  · rw [splitInline_eq_splitBy]
    refine splitBy_congr fun f hf => ?_
    rw [fileFor_of_shownApart h (List.Subset.refl _) hf]

/-- Where all paths are text, they are told apart as if every path were its own text. -/
theorem splitInline_eq_plain (fs : FileSystem)
    (h : ∀ f ∈ findings, (Naming.text? f.file.text).isSome = true) :
    splitInline fs findings = @splitInline .plain fs findings := by
  have hplain : @ShownApart .plain findings := @shownApart_of_text _ .plain fun _ _ => rfl
  rw [(splitInline_of_shownApart fs (shownApart_of_text h)).2.2,
    (@splitInline_of_shownApart _ .plain fs hplain).2.2]

end Verdict

end InjectionScan.Suppression
