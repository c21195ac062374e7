import InjectionScan.Proofs.Suppression.Grammar
import InjectionScan.Proofs.Suppression.Inline

/-! Stars before the close of a comment are a word of their own. -/
namespace InjectionScan.Suppression

open Text

variable {line rest cs front said tail : List Char} {ws : List (List Char)} {stars : Nat}

/-- A line up to the end of a directive in a block comment. -/
def openedComment (front said : List Char) : List Char :=
  front ++ "/* sqlscan-ignore ".toList ++ said

/-- The line with a blank, a number of stars and a slash as the close of the comment. -/
def closedComment (front said : List Char) (stars : Nat) (tail : List Char) : List Char :=
  openedComment front said ++ ' ' :: (List.replicate stars '*' ++ '/' :: tail)

/-- At the end of the line the comment of its first directive is open, and all words are tokens. -/
def StaysOpen (line : List Char) : Prop :=
  ∃ rest, afterMarker? line = some rest ∧ ¬ "*/".toList <:+: rest ∧ ∀ word ∈ words rest, IsToken word

section Extension

/-- A directive stays the first one if the line goes on. -/
theorem afterMarker?_append (h : afterMarker? line = some rest) (cs : List Char) :
    afterMarker? (line ++ cs) = some (rest ++ cs) := by
  obtain ⟨front, b, heq, hb, hfirst⟩ := afterMarker?_eq_some_iff.1 h
  refine afterMarker?_eq_some_iff.2 ⟨front, b, by simp [heq], hb, fun front' b' rest' heq' hb' => ?_⟩
  by_contra hlt
  -- An earlier directive would lie within the line.
  have hstart : front' ++ marker ++ [b'] <+: line := by
    have hlong : front' ++ marker ++ [b'] <+: line ++ cs := ⟨rest', by rw [heq']; simp⟩
    refine List.prefix_of_prefix_length_le hlong (List.prefix_append line cs) ?_
    rw [heq]
    simp only [List.length_append, List.length_cons, List.length_nil]
    omega
  obtain ⟨tail, htail⟩ := hstart
  exact hlt (hfirst front' b' tail (by rw [← htail]; simp) hb')

theorem openedComment_eq (front said : List Char) :
    openedComment front said = (front ++ "/* ".toList) ++ (marker ++ ' ' :: said) := by
  have hopening : "/* sqlscan-ignore ".toList = "/* ".toList ++ marker ++ [' '] := by decide
  rw [openedComment, hopening]
  simp only [List.append_assoc, List.singleton_append]

theorem exists_afterMarker?_openedComment (front said : List Char) :
    ∃ rest, afterMarker? (openedComment front said) = some rest := by
  rw [← Option.isSome_iff_exists, Option.isSome_iff_ne_none, afterMarker?_eq]
  intro hnone
  have hhere := firstPlace?_eq_none_iff.1 hnone _ _ (openedComment_eq front said)
  rw [directiveAt?_eq_some_iff.2 ⟨' ', by decide, rfl⟩] at hhere
  cases hhere

/-- A word that does not hold a character ends before it. -/
theorem prefix_of_prefix_append_cons {word : List Char} {d : Char} (hd : d ∉ word)
    (h : word <+: cs ++ d :: rest) : word <+: cs := by
  induction cs generalizing word with
  | nil =>
    cases word with
    | nil => exact List.nil_prefix
    | cons w ws => exact absurd (List.cons_prefix_cons.1 h).1 (by rintro rfl; simp at hd)
  | cons c cs ih =>
    cases word with
    | nil => exact List.nil_prefix
    | cons w ws =>
      obtain ⟨rfl, hrest⟩ := List.cons_prefix_cons.1 h
      exact List.cons_prefix_cons.2 ⟨rfl, ih (fun hmem => hd (List.mem_cons_of_mem w hmem)) hrest⟩

theorem directiveAt?_append_slash (h : directiveAt? cs = none) (rest : List Char) :
    directiveAt? (cs ++ '/' :: rest) = none := by
  rw [Option.eq_none_iff_forall_ne_some] at h ⊢
  intro left hleft
  obtain ⟨b, hb, heq⟩ := directiveAt?_eq_some_iff.1 hleft
  have hslash : '/' ∉ marker ++ [b] := by
    intro hmem
    rcases List.mem_append.1 hmem with hmem | hmem
    · exact absurd hmem (by decide)
    · obtain rfl := List.mem_singleton.1 hmem
      exact absurd hb (by decide)
  have hfront : marker ++ [b] <+: cs ++ '/' :: rest := ⟨left, by rw [heq]; simp⟩
  obtain ⟨tail, htail⟩ := prefix_of_prefix_append_cons hslash hfront
  exact h tail (directiveAt?_eq_some_iff.2 ⟨b, hb, by rw [← htail]; simp⟩)

theorem directiveAt?_cons_of_ne {c : Char} (hc : c ≠ 's') (cs : List Char) :
    directiveAt? (c :: cs) = none := by
  rw [Option.eq_none_iff_forall_ne_some]
  intro rest hrest
  obtain ⟨b, -, heq⟩ := directiveAt?_eq_some_iff.1 hrest
  rw [show marker = 's' :: marker.tail by decide, List.cons_append] at heq
  exact hc (List.cons.inj heq).1

/-- Where no directive comes before, the one in the comment is the first. -/
theorem afterMarker?_openedComment (h : afterMarker? front = none) (said : List Char) :
    afterMarker? (openedComment front said) = some said := by
  have hopening : openedComment front said =
      front ++ '/' :: '*' :: ' ' :: (marker ++ ' ' :: said) := by
    rw [openedComment_eq, show "/* ".toList = ['/', '*', ' '] from rfl]
    simp
  rw [afterMarker?_eq] at h ⊢
  rw [hopening]
  clear hopening
  induction front with
  | nil =>
    have hmarker : firstPlace? directiveAt? (marker ++ ' ' :: said) = some said := by
      have hhere : directiveAt? (marker ++ ' ' :: said) = some said :=
        directiveAt?_eq_some_iff.2 ⟨' ', by decide, rfl⟩
      exact firstPlace?_eq_some_iff.2 ⟨[], _, rfl, hhere, fun _ _ _ hlt => absurd hlt (by simp)⟩
    simp only [List.nil_append, firstPlace?, directiveAt?_cons_of_ne (c := '/') (by decide),
      directiveAt?_cons_of_ne (c := '*') (by decide), directiveAt?_cons_of_ne (c := ' ') (by decide),
      Option.none_or]
    exact hmarker
  | cons c front ih =>
    obtain ⟨hhere, hlater⟩ := Option.or_eq_none_iff.1 h
    have hnone := directiveAt?_append_slash hhere ('*' :: ' ' :: (marker ++ ' ' :: said))
    rw [List.cons_append] at hnone ⊢
    rw [firstPlace?, hnone, Option.none_or, ih hlater]

end Extension

section Stars

theorem before_stars (m : Nat) (tail : List Char) :
    before ['*', '/'] (List.replicate (m + 1) '*' ++ '/' :: tail) = List.replicate m '*' := by
  induction m with
  | zero => rfl
  | succ m ih =>
    rw [List.replicate_succ, List.cons_append, before, ih]
    rfl

/-- All stars but the last stand before the close. -/
theorem before_close (h : ¬ ['*', '/'] <:+: cs) (m : Nat) (tail : List Char) :
    before ['*', '/'] (cs ++ ' ' :: (List.replicate (m + 1) '*' ++ '/' :: tail)) =
      cs ++ ' ' :: List.replicate m '*' := by
  induction cs with
  | nil =>
    rw [List.nil_append, before, before_stars]
    rfl
  | cons c cs ih =>
    have hnone : after? ['*', '/']
        (c :: (cs ++ ' ' :: (List.replicate (m + 1) '*' ++ '/' :: tail))) = none := by
      refine after?_eq_none_iff.2 fun rest heq => ?_
      obtain ⟨rfl, hnext⟩ := List.cons.inj heq
      cases cs with
      | nil => exact absurd (List.cons.inj hnext).1 (by decide)
      | cons d cs =>
        obtain ⟨rfl, -⟩ := List.cons.inj hnext
        exact h ⟨[], cs, rfl⟩
    rw [List.cons_append, before, hnone]
    simp only [Option.isSome_none, Bool.false_eq_true, if_false, List.cons_append]
    rw [ih fun hclose => h (hclose.trans (List.suffix_cons c cs).isInfix)]

theorem words_stars (m : Nat) :
    words (List.replicate (m + 1) '*') = [List.replicate (m + 1) '*'] := by
  refine words_of_noBlank (by simp) fun c hc => ?_
  rw [List.eq_of_mem_replicate hc]
  decide

end Stars

section Tokens

theorem dropEnd_of_isToken {word : List Char} (h : isToken word = true) :
    dropEnd isStop word = word := by
  refine isStem_iff.1 ⟨[], (List.append_nil word).symm, by simp, fun c hc hmark => ?_⟩
  have hmem : c ∈ word := List.mem_of_mem_getLast? hc
  rcases isToken_iff.1 h with rfl | ⟨-, hall⟩
  · obtain rfl := List.mem_singleton.1 hmem
    exact absurd (isStop_iff.2 hmark) (by decide)
  · rcases hmark with rfl | rfl | rfl
    · exact absurd (hall _ hmem) (by decide)
    · exact absurd (hall _ hmem) (by decide)
    · exact absurd (hall _ hmem) (by decide)

theorem tokensOf_append (ws vs : List (List Char)) :
    tokensOf (ws ++ vs) =
      if ws.all isToken then ws.map String.ofList ++ tokensOf vs else tokensOf ws := by
  induction ws with
  | nil => rfl
  | cons word ws ih =>
    rw [List.cons_append, tokensOf, tokensOf, ih]
    by_cases hword : isToken word = true
    · simp only [dropEnd_of_isToken hword, hword, List.all_cons, Bool.true_and, List.map_cons,
        List.cons_append, if_true]
      split <;> rfl
    · -- after a word that is no token, or has marks, nothing follows
      have hstem : isToken (dropEnd isStop word) = true →
          (dropEnd isStop word).length ≠ word.length := by
        intro htoken hlength
        rw [isStem_iff.1 (length_dropEnd_eq_iff.1 hlength)] at htoken
        exact hword htoken
      simp only [hword, List.all_cons, Bool.false_and, Bool.false_eq_true, if_false]
      split
      · next htoken => rw [if_neg (hstem htoken), if_neg (hstem htoken)]
      · rfl

end Tokens

section Close

theorem lineTokens_closedComment (h : afterMarker? (openedComment front said) = some rest)
    (stars : Nat) (tail : List Char) :
    lineTokens (closedComment front said stars tail) =
      tokensOf (words (before ['*', '/']
        (rest ++ ' ' :: (List.replicate stars '*' ++ '/' :: tail)))) := by
  rw [lineTokens, closedComment, afterMarker?_append h]

theorem lineTokens_openedComment (h : afterMarker? (openedComment front said) = some rest) :
    lineTokens (openedComment front said) = tokensOf (words (before ['*', '/'] rest)) := by
  rw [lineTokens, h]

/-- Stars that are not alone stand for nothing. -/
theorem tokensOf_stars (m : Nat) :
    tokensOf (words (List.replicate m '*')) = if m = 1 then ["*"] else [] := by
  match m with
  | 0 => rfl
  | 1 => decide +kernel
  | m + 2 =>
    have hstem : dropEnd isStop (List.replicate (m + 2) '*') = List.replicate (m + 2) '*' := by
      refine isStem_iff.1 ⟨[], (List.append_nil _).symm, by simp, fun c hc hmark => ?_⟩
      rw [List.eq_of_mem_replicate (List.mem_of_mem_getLast? hc)] at hmark
      exact absurd (isStop_iff.2 hmark) (by decide)
    have hno : ¬ isToken (List.replicate (m + 2) '*') = true := by
      intro htoken
      rcases isToken_iff.1 htoken with hone | ⟨-, hall⟩
      · exact absurd (congrArg List.length hone) (by simp)
      · exact absurd (hall '*' (by simp)) (by decide)
    rw [words_stars, tokensOf, hstem, if_neg hno, if_neg (by omega)]

theorem tokensOf_words_before (h : ¬ ['*', '/'] <:+: rest) (m : Nat) (tail : List Char) :
    tokensOf (words (before ['*', '/']
        (rest ++ ' ' :: (List.replicate (m + 1) '*' ++ '/' :: tail)))) =
      tokensOf (words rest) ++ if m = 1 ∧ (words rest).all isToken = true then ["*"] else [] := by
  have hwords : words (before ['*', '/']
      (rest ++ ' ' :: (List.replicate (m + 1) '*' ++ '/' :: tail))) =
        words rest ++ words (List.replicate m '*') := by
    rw [before_close h, words_append_cons (by decide)]
  have hown := tokensOf_append (words rest) []
  rw [List.append_nil] at hown
  rw [hwords, tokensOf_append, tokensOf_stars]
  by_cases hall : (words rest).all isToken = true
  · rw [hall, if_pos rfl, show tokensOf [] = [] from rfl, List.append_nil] at hown
    simp [hall, hown]
  · simp [hall]

theorem staysOpen_iff (h : afterMarker? line = some rest) :
    StaysOpen line ↔ ¬ ['*', '/'] <:+: rest ∧ (words rest).all isToken = true := by
  simp only [StaysOpen, h, Option.some.injEq, exists_eq_left', List.all_eq_true, isToken_iff]
  rfl

theorem exists_word_of_mem (h : WordsIn cs ws) {c : Char} (hc : c ∈ cs) (hblank : isBlank c = false) :
    ∃ word ∈ ws, c ∈ word := by
  induction h with
  | blank hblanks =>
    rw [hblanks c hc] at hblank
    cases hblank
  | word hblanks _ _ _ _ ih =>
    rcases List.mem_append.1 hc with hc | hc
    · rcases List.mem_append.1 hc with hc | hc
      · rw [hblanks c hc] at hblank
        cases hblank
      · exact ⟨_, List.mem_cons_self, hc⟩
    · obtain ⟨word, hword, hmem⟩ := ih hc
      exact ⟨word, List.mem_cons_of_mem _ hword, hmem⟩

/-- Where no directive comes before, the list stays open after tokens and nothing else. -/
theorem staysOpen_openedComment_iff (h : afterMarker? front = none) :
    StaysOpen (openedComment front said) ↔ ∀ word ∈ words said, IsToken word := by
  rw [staysOpen_iff (afterMarker?_openedComment h said)]
  simp only [List.all_eq_true, isToken_iff]
  refine ⟨And.right, fun hall => ⟨fun hclose => ?_, hall⟩⟩
  -- a close within the words would put a slash into one of them
  have hslash : '/' ∈ said := hclose.mem (by decide)
  obtain ⟨word, hword, hmem⟩ := exists_word_of_mem (wordsIn_words said) hslash (by decide)
  rcases hall word hword with rfl | ⟨-, hnames⟩
  · exact absurd hmem (by decide)
  · exact absurd (hnames _ hmem) (by decide)

/-- The close of a comment brings the token `*` if it has two stars and the list of tokens is open
before it, and otherwise nothing. -/
theorem lineTokens_closedComment_eq (front said tail : List Char) (h : 0 < stars) :
    (stars = 2 ∧ StaysOpen (openedComment front said) →
      lineTokens (closedComment front said stars tail) =
        lineTokens (openedComment front said) ++ ["*"]) ∧
    (¬ (stars = 2 ∧ StaysOpen (openedComment front said)) →
      lineTokens (closedComment front said stars tail) =
        lineTokens (openedComment front said)) := by
  obtain ⟨m, rfl⟩ : ∃ m, stars = m + 1 := ⟨stars - 1, by omega⟩
  obtain ⟨rest, hrest⟩ := exists_afterMarker?_openedComment front said
  rw [staysOpen_iff hrest, lineTokens_closedComment hrest, lineTokens_openedComment hrest]
  by_cases hclosed : ['*', '/'] <:+: rest
  · rw [before_append_eq_before hclosed _ (by decide)]
    simp [hclosed]
  · rw [tokensOf_words_before hclosed, before_eq_self hclosed (by decide)]
    constructor
    · rintro ⟨hstars, -, hall⟩
      rw [if_pos ⟨by omega, hall⟩]
    · intro hno
      rw [if_neg fun hstar => hno ⟨by omega, hclosed, hstar.2⟩, List.append_nil]

theorem lookup_directives_of_lineAt {content : String} {n : Nat} (h : LineAt content n line) :
    (directives content).lookup n = if lineTokens line = [] then none else some (lineTokens line) := by
  obtain ⟨hpos, hline⟩ := h
  rw [directives, lookup_directivesFrom, if_neg (by omega), hline]
  cases hl : lineTokens line <;> simp [Option.filter, hl]

theorem covers_append_star (tokens : List String) (f : Finding) :
    covers (tokens ++ ["*"]) f = true := by
  simp [covers]

/-- The close of a comment is a token only if it has two stars. A plain close adds nothing to the
tokens of the line, and the tokens and the entry of the line are the same with any other number of
stars; two stars after a list of tokens that is still open add the token `*`, so that the line covers
every finding. In the first directive of a line the list is open if it has only tokens. -/
theorem comment_close_tokens (front said tail : List Char) (stars : Nat) (h : 0 < stars) :
    lineTokens (closedComment front said 1 tail) = lineTokens (openedComment front said) ∧
    (¬ (stars = 2 ∧ StaysOpen (openedComment front said)) →
      lineTokens (closedComment front said stars tail) =
        lineTokens (closedComment front said 1 tail)) ∧
    (StaysOpen (openedComment front said) →
      lineTokens (closedComment front said 2 tail) =
        lineTokens (closedComment front said 1 tail) ++ ["*"] ∧
      ∀ f, covers (lineTokens (closedComment front said 2 tail)) f = true) ∧
    (∀ content content' n n', LineAt content n (closedComment front said stars tail) →
      LineAt content' n' (closedComment front said 1 tail) →
      ((directives content).lookup n = (directives content').lookup n' ↔
        ¬ (stars = 2 ∧ StaysOpen (openedComment front said)))) ∧
    (afterMarker? front = none →
      (StaysOpen (openedComment front said) ↔ ∀ word ∈ words said, IsToken word)) := by
  have hplain : lineTokens (closedComment front said 1 tail) =
      lineTokens (openedComment front said) :=
    (lineTokens_closedComment_eq front said tail (by decide)).2 (by simp)
  obtain ⟨hstar, hnone⟩ := lineTokens_closedComment_eq front said tail h
  rw [← hplain] at hstar hnone
  refine ⟨hplain, hnone, fun hopen => ?_, fun content content' n n' hline hline' => ?_,
    staysOpen_openedComment_iff⟩
  · have htwo := (lineTokens_closedComment_eq front said tail (show 0 < 2 by decide)).1 ⟨rfl, hopen⟩
    rw [htwo, hplain]
    exact ⟨rfl, covers_append_star _⟩
  · rw [lookup_directives_of_lineAt hline, lookup_directives_of_lineAt hline']
    constructor
    · intro heq hopen
      rw [hstar hopen, if_neg (by simp)] at heq
      split at heq
      · cases heq
      · exact absurd (Option.some.inj heq) (by simp)
    · intro hno
      rw [hnone hno]

/-- Three stars close a comment with one token, and its entry is that of the plain close. -/
theorem comment_close_tokens_threeStars :
    0 < 3 ∧ closedComment [] "XSS".toList 3 " db()".toList =
      "/* sqlscan-ignore XSS ***/ db()".toList ∧
    lineTokens "/* sqlscan-ignore XSS ***/ db()".toList = ["XSS"] ∧
    (directives "/* sqlscan-ignore XSS ***/ db()").lookup 1 =
      (directives "/* sqlscan-ignore XSS */ db()").lookup 1 ∧
    StaysOpen "/* sqlscan-ignore XSS".toList := by
  have hstarred : closedComment [] "XSS".toList 3 " db()".toList =
      "/* sqlscan-ignore XSS ***/ db()".toList := by decide +kernel
  have hclosed : closedComment [] "XSS".toList 1 " db()".toList =
      "/* sqlscan-ignore XSS */ db()".toList := by decide +kernel
  have hopened : openedComment [] "XSS".toList = "/* sqlscan-ignore XSS".toList := by decide +kernel
  obtain ⟨hplain, hsame, -, hentry, hopen⟩ :=
    comment_close_tokens [] "XSS".toList " db()".toList 3 (by decide)
  rw [hstarred, hclosed] at hsame hentry
  rw [hopened] at hplain hopen
  refine ⟨by decide, hstarred, ?_, ?_, (hopen rfl).2 ?_⟩
  · rw [hsame (by simp), ← hclosed, hplain]
    decide +kernel
  · exact (hentry _ _ 1 1 ⟨by decide, by decide +kernel⟩ ⟨by decide, by decide +kernel⟩).2 (by simp)
  · have hall : (words "XSS".toList).all isToken = true := by decide +kernel
    exact fun word hword => isToken_iff.1 (List.all_eq_true.1 hall word hword)

/-- A comment that names one rule and is closed by two stars has the token for all findings, which
the plain close does not give. -/
theorem double_star_close_is_wildcard :
    directives "/* sqlscan-ignore XSS **/" = [(1, ["XSS", "*"])] ∧
    directives "/* sqlscan-ignore XSS */" = [(1, ["XSS"])] ∧
    ¬ ∀ front said tail stars, 0 < stars →
      lineTokens (closedComment front said stars tail) =
        lineTokens (closedComment front said 1 tail) := by
  refine ⟨by decide +kernel, by decide +kernel, fun h => ?_⟩
  exact absurd (h [] "XSS".toList [] 2 (by decide)) (by decide +kernel)

end Close

end InjectionScan.Suppression
