import InjectionScan.Proofs.Dictionary.Lookup
import InjectionScan.Proofs.Path.Relative
import InjectionScan.Proofs.Suppression.Tokens
import InjectionScan.Proofs.Text.ByteOrder

/-! The outcome of rules for paths does not depend on the order of the entries. -/
namespace InjectionScan.Suppression

open Text

variable {perPath perPath' : Dictionary (List String)} {root : Path} {findings : List Finding}
  {f : Finding} {text reason : String} {rules : List (String × List Wildcard × List String)}
  {entries : List (String × List String)}

/-- The text of an entry is a pattern that fits the path of a finding, and one of its tokens is for
the finding. -/
def Applies [Naming] (perPath : Dictionary (List String)) (root : Path) (f : Finding)
    (text : String) : Prop :=
  FitsPath text root f ∧ ∃ tokens, perPath.get? text = some tokens ∧ ∃ token ∈ tokens, Matches f token

/-- Of the texts that apply the one whose bytes come first. -/
def LeastApplying [Naming] (perPath : Dictionary (List String)) (root : Path) (f : Finding)
    (text : String) : Prop :=
  Applies perPath root f text ∧
    ∀ text', Applies perPath root f text' → text.toUTF8.toList ≤ text'.toUTF8.toList

section Procedure

/-- The rules of entries in any order, sorted by the bytes of their texts. What is no pattern is no
rule. -/
def sortedRules (entries : List (String × List String)) :
    List (String × List Wildcard × List String) :=
  (entries.filterMap fun (text, tokens) =>
    (Wildcard.parse? text).map fun pattern => (text, pattern, tokens)).mergeSort
      fun a b => decide (a.1.toUTF8.toList ≤ b.1.toUTF8.toList)

/-- Puts a finding behind those that are kept or those that are suppressed. -/
def put (reason? : Finding → Option String) (split : Split) (f : Finding) : Split :=
  match reason? f with
  | some reason => { split with suppressed := split.suppressed ++ [⟨f, reason⟩] }
  | none => { split with kept := split.kept ++ [f] }

/-- Takes the findings one by one. -/
def splitInTurn [Naming] (entries : List (String × List String)) (root : Path)
    (findings : List Finding) : Split :=
  findings.foldl (put (pathReason? (sortedRules entries) root)) ⟨[], []⟩

/-- Without entries no finding is looked at. -/
def splitOrSkip [Naming] (entries : List (String × List String)) (root : Path)
    (findings : List Finding) : Split :=
  if entries.isEmpty then ⟨findings, []⟩ else splitInTurn entries root findings

theorem foldl_put (reason? : Finding → Option String) (findings : List Finding) (split : Split) :
    findings.foldl (put reason?) split =
      ⟨split.kept ++ (splitBy reason? findings).kept,
        split.suppressed ++ (splitBy reason? findings).suppressed⟩ := by
  induction findings generalizing split with
  | nil => simp [splitBy]
  | cons f findings ih =>
    rw [List.foldl_cons, ih]
    cases hf : reason? f <;> simp [put, splitBy, hf]

theorem splitInTurn_eq [Naming] (entries : List (String × List String)) (root : Path)
    (findings : List Finding) :
    splitInTurn entries root findings =
      splitBy (pathReason? (sortedRules entries) root) findings := by
  rw [splitInTurn, foldl_put, List.nil_append, List.nil_append]

/-- Nothing is suppressed without entries, so nothing has to be looked at. -/
theorem splitOrSkip_eq [Naming] (entries : List (String × List String)) (root : Path)
    (findings : List Finding) :
    splitOrSkip entries root findings = splitInTurn entries root findings := by
  rw [splitOrSkip]
  split
  · next hnil =>
    have hrules : sortedRules entries = [] := by
      rw [List.isEmpty_iff.1 hnil, sortedRules, List.filterMap_nil, List.mergeSort_nil]
    rw [splitInTurn_eq, hrules]
    simp [splitBy, pathReason?]
  · rfl

end Procedure

section Order

/-- All rules of a dictionary, in the order of the bytes of their texts. -/
structure InOrder (perPath : Dictionary (List String))
    (rules : List (String × List Wildcard × List String)) : Prop where
  mem_iff : ∀ text pattern tokens, (text, pattern, tokens) ∈ rules ↔
    perPath.get? text = some tokens ∧ Wildcard.parse? text = some pattern
  sorted : rules.Pairwise fun a b => a.1.toUTF8.toList ≤ b.1.toUTF8.toList

theorem inOrder_pathRules (perPath : Dictionary (List String)) :
    InOrder perPath (pathRules perPath) where
  mem_iff text pattern tokens := by
    rw [mem_pathRules_iff, Dictionary.get?_eq_some_iff]
  sorted := by
    refine List.Pairwise.filterMap _ ?_ perPath.increasing
    rintro ⟨text, tokens⟩ ⟨text', tokens'⟩ hlt rule hrule rule' hrule'
    obtain ⟨pattern, -, rfl⟩ := Option.map_eq_some_iff.1 hrule
    obtain ⟨pattern', -, rfl⟩ := Option.map_eq_some_iff.1 hrule'
    exact toUTF8_le_toUTF8_iff.2 (String.not_lt.1 (String.lt_asymm hlt))

theorem inOrder_sortedRules (h : entries.Perm perPath.entries) :
    InOrder perPath (sortedRules entries) where
  mem_iff text pattern tokens := by
    rw [← (inOrder_pathRules perPath).mem_iff, sortedRules, List.mem_mergeSort]
    exact (h.filterMap _).mem_iff
  sorted := by
    refine (List.pairwise_mergeSort ?_ ?_ _).imp fun hle => of_decide_eq_true hle
    · intro a b c hab hbc
      rw [decide_eq_true_eq, toUTF8_le_toUTF8_iff] at hab hbc ⊢
      exact String.le_trans hab hbc
    · intro a b
      rw [Bool.or_eq_true, decide_eq_true_eq, decide_eq_true_eq, toUTF8_le_toUTF8_iff,
        toUTF8_le_toUTF8_iff]
      exact String.le_total a.1 b.1

theorem suppressedByPath_iff [Naming] :
    SuppressedByPath perPath root f ↔ ∃ text, Applies perPath root f text := by
  constructor
  · rintro ⟨⟨text, tokens⟩, hmem, hfits, htoken⟩
    exact ⟨text, hfits, tokens, Dictionary.get?_eq_some_iff.2 hmem, htoken⟩
  · rintro ⟨text, hfits, tokens, hget, htoken⟩
    exact ⟨(text, tokens), Dictionary.get?_eq_some_iff.1 hget, hfits, htoken⟩

theorem InOrder.applies_iff [Naming] (h : InOrder perPath rules) :
    Applies perPath root f text ↔
      ∃ pattern tokens, (text, pattern, tokens) ∈ rules ∧
        (Wildcard.fits pattern ((f.file.relativeTo? root).getD f.file).shown.toList &&
          covers tokens f) = true := by
  simp only [h.mem_iff, Bool.and_eq_true, covers_iff]
  constructor
  · rintro ⟨⟨pattern, hparse, hfits⟩, tokens, hget, htoken⟩
    exact ⟨pattern, tokens, ⟨hget, hparse⟩, hfits, htoken⟩
  · rintro ⟨pattern, tokens, ⟨hget, hparse⟩, hfits, htoken⟩
    exact ⟨⟨pattern, hparse, hfits⟩, tokens, hget, htoken⟩

theorem LeastApplying.eq [Naming] {text' : String} (h : LeastApplying perPath root f text)
    (h' : LeastApplying perPath root f text') : text = text' :=
  String.le_antisymm (toUTF8_le_toUTF8_iff.1 (h.2 text' h'.1))
    (toUTF8_le_toUTF8_iff.1 (h'.2 text h.1))

/-- The first rule found is the least that applies. -/
theorem InOrder.exists_least [Naming] (h : InOrder perPath rules)
    (hreason : pathReason? rules root f = some reason) :
    ∃ text, LeastApplying perPath root f text ∧ reason = "per-path rule: " ++ text := by
  obtain ⟨⟨text, pattern, tokens⟩, hfind, rfl⟩ := Option.map_eq_some_iff.1 hreason
  obtain ⟨hfires, before, after, hrules, hbefore⟩ := List.find?_eq_some_iff_append.1 hfind
  have hmem : (text, pattern, tokens) ∈ rules := List.mem_of_find?_eq_some hfind
  refine ⟨text, ⟨h.applies_iff.2 ⟨pattern, tokens, hmem, hfires⟩, fun text' happlies => ?_⟩, rfl⟩
  obtain ⟨pattern', tokens', hmem', hfires'⟩ := h.applies_iff.1 happlies
  have hsorted := h.sorted
  rw [hrules] at hmem' hsorted
  rcases List.mem_append.1 hmem' with hmem' | hmem'
  · have hno := hbefore _ hmem'
    simp [hfires'] at hno
  · rcases List.mem_cons.1 hmem' with heq | hmem'
    · cases heq
      exact List.le_refl _
    · exact (List.pairwise_cons.1 (List.pairwise_append.1 hsorted).2.1).1 _ hmem'

/-- The reason for a finding names the least rule that applies, whichever list of the rules in order
is searched. -/
theorem pathReason?_eq_some_iff [Naming] (h : InOrder perPath rules) :
    pathReason? rules root f = some reason ↔
      ∃ text, LeastApplying perPath root f text ∧ reason = "per-path rule: " ++ text := by
  constructor
  · exact h.exists_least
  · rintro ⟨text, hleast, rfl⟩
    obtain ⟨pattern, tokens, hmem, hfires⟩ := h.applies_iff.1 hleast.1
    have hsome : (pathReason? rules root f).isSome = true := by
      rw [pathReason?, Option.isSome_map, List.find?_isSome]
      exact ⟨_, hmem, hfires⟩
    obtain ⟨reason, hreason⟩ := Option.isSome_iff_exists.1 hsome
    obtain ⟨text', hleast', rfl⟩ := h.exists_least hreason
    rw [hreason, hleast.eq hleast']

theorem splitBy_pathReason?_congr [Naming] {rules' : List (String × List Wildcard × List String)}
    (h : InOrder perPath rules) (h' : InOrder perPath' rules')
    (happlies : ∀ f text, Applies perPath root f text ↔ Applies perPath' root f text) :
    splitBy (pathReason? rules root) findings = splitBy (pathReason? rules' root) findings := by
  refine splitBy_congr fun f _ => Option.ext fun reason => ?_
  rw [pathReason?_eq_some_iff h, pathReason?_eq_some_iff h']
  simp only [LeastApplying, happlies]

end Order

/-- Rules for paths do not depend on the order of the entries. Whatever order these have, sorting the
rules and taking the findings one by one gives the split, and so it does if nothing is done without
entries. Kept and suppressed findings stay in their order. A finding is suppressed exactly if some
entry applies to it, and the reason names the least one, byte by byte. Entries without a pattern have
no effect. Patterns are compared with the path below the root if the finding is there, and with its
own path otherwise. -/
theorem splitByPath_exact [Naming] (perPath : Dictionary (List String)) (root : Path)
    (findings : List Finding) :
    (∀ entries, entries.Perm perPath.entries →
      splitInTurn entries root findings = splitByPath perPath root findings ∧
      splitOrSkip entries root findings = splitByPath perPath root findings) ∧
    (splitByPath perPath root findings).kept =
      findings.filter (fun f => ¬ SuppressedByPath perPath root f) ∧
    (splitByPath perPath root findings).suppressed.map Suppressed.finding =
      findings.filter (fun f => SuppressedByPath perPath root f) ∧
    (∀ f, SuppressedByPath perPath root f ↔ ∃ text, Applies perPath root f text) ∧
    (∀ s ∈ (splitByPath perPath root findings).suppressed,
      ∃ text, LeastApplying perPath root s.finding text ∧ s.reason = "per-path rule: " ++ text) ∧
    (∀ perPath', (∀ text, (Wildcard.parse? text).isSome = true →
        perPath'.get? text = perPath.get? text) →
      splitByPath perPath' root findings = splitByPath perPath root findings) ∧
    ∀ file : Path,
      (root.components <+: file.components → ∃ below, file.relativeTo? root = some below ∧
        file.components = root.components ++ below.components ∧
        below.text.toList <:+: file.text.toList) ∧
      (¬ root.components <+: file.components → file.relativeTo? root = none) := by
  have hrules := inOrder_pathRules perPath
  refine ⟨fun entries hperm => ?_, kept_splitByPath perPath root findings,
    findings_suppressed_splitByPath perPath root findings, fun f => suppressedByPath_iff,
    fun s hs => ?_, fun perPath' hagree => ?_,
    fun file => ⟨fun hbelow => ?_, Path.relativeTo?_eq_none_iff.2⟩⟩
  · rw [splitOrSkip_eq, splitInTurn_eq, and_self]
    exact splitBy_pathReason?_congr (inOrder_sortedRules hperm) hrules fun _ _ => Iff.rfl
  · obtain ⟨f, -, hf⟩ := List.mem_filterMap.1 hs
    obtain ⟨reason, hreason, rfl⟩ := Option.map_eq_some_iff.1 hf
    exact hrules.exists_least hreason
  · refine splitBy_pathReason?_congr (inOrder_pathRules perPath') hrules fun f text => ?_
    refine and_congr_right fun ⟨pattern, hparse, _⟩ => ?_
    rw [hagree text (by rw [hparse]; rfl)]
  · obtain ⟨below, hsome⟩ := Option.ne_none_iff_exists'.1
      fun hnone => Path.relativeTo?_eq_none_iff.1 hnone hbelow
    exact ⟨below, hsome, Path.components_eq_of_relativeTo? hsome,
      Path.text_infix_of_relativeTo? hsome⟩

/-- Rules that overlap: one for all scripts with a token for other findings, one that is no pattern
and two for the sources. -/
def overlapping : Dictionary (List String) :=
  .ofList [("src/**", ["*"]), ("src/*", ["XSS"]), ("**/*.js", ["SQL"]), ("[", ["*"])]

def findingIn (file : String) : Finding :=
  ⟨"XSS-001", "xss", .warning, .security, "", ⟨file⟩, 1, 1, none⟩

theorem splitByPath_exact_overlapping :
    [("src/*", ["XSS"]), ("[", ["*"]), ("src/**", ["*"]), ("**/*.js", ["SQL"])].Perm
      overlapping.entries ∧
    splitOrSkip [("src/*", ["XSS"]), ("[", ["*"]), ("src/**", ["*"]), ("**/*.js", ["SQL"])] ⟨"/r"⟩
        [findingIn "lib/b.js", findingIn "/r/src/a.js"] =
      ⟨[findingIn "lib/b.js"], [⟨findingIn "/r/src/a.js", "per-path rule: src/*"⟩]⟩ ∧
    LeastApplying overlapping ⟨"/r"⟩ (findingIn "/r/src/a.js") "src/*" ∧
    splitByPath (overlapping.insert "[" ["SQL"]) ⟨"/r"⟩
        [findingIn "lib/b.js", findingIn "/r/src/a.js"] =
      splitByPath overlapping ⟨"/r"⟩ [findingIn "lib/b.js", findingIn "/r/src/a.js"] ∧
    (∃ below, Path.relativeTo? ⟨"/r/src/a.js"⟩ ⟨"/r"⟩ = some below ∧
      below.components = [.name "src", .name "a.js"]) ∧
    Path.relativeTo? ⟨"lib/b.js"⟩ ⟨"/r"⟩ = none := by
  have hperm : [("src/*", ["XSS"]), ("[", ["*"]), ("src/**", ["*"]), ("**/*.js", ["SQL"])].Perm
      overlapping.entries := by decide +kernel
  have hsplit : splitByPath overlapping ⟨"/r"⟩
      [findingIn "lib/b.js", findingIn "/r/src/a.js"] =
      ⟨[findingIn "lib/b.js"], [⟨findingIn "/r/src/a.js", "per-path rule: src/*"⟩]⟩ := by
    decide +kernel
  obtain ⟨horder, -, -, -, hreason, hinvalid, hpath⟩ :=
    splitByPath_exact overlapping ⟨"/r"⟩ [findingIn "lib/b.js", findingIn "/r/src/a.js"]
  refine ⟨hperm, (horder _ hperm).2.trans hsplit, ?_, ?_, ?_, ?_⟩
  · obtain ⟨text, hleast, htext⟩ :=
      hreason ⟨findingIn "/r/src/a.js", "per-path rule: src/*"⟩ (by simp [hsplit])
    obtain rfl : "src/*" = text := (String.append_right_inj "per-path rule: ").1 htext
    exact hleast
  · refine hinvalid _ fun text hvalid => ?_
    rw [Dictionary.get?_insert, if_neg]
    rintro rfl
    exact absurd hvalid (by decide +kernel)
  · obtain ⟨below, hsome, hcomponents, -⟩ := (hpath ⟨"/r/src/a.js"⟩).1 (by decide +kernel)
    have hfile : Path.components ⟨"/r/src/a.js"⟩ =
        Path.components ⟨"/r"⟩ ++ [.name "src", .name "a.js"] := by decide +kernel
    exact ⟨below, hsome, List.append_cancel_left (hcomponents.symm.trans hfile)⟩
  · exact (hpath ⟨"lib/b.js"⟩).2 (by decide +kernel)

end InjectionScan.Suppression
