import InjectionScan.Proofs.Expectation.Matching
import InjectionScan.Proofs.Text.Pattern
import InjectionScan.Proofs.Text.PhysicalLine

/-! The grammar of annotations, and the pattern that describes it. -/
namespace InjectionScan.Expectation

open Text

variable {line text tail rest cs front said : List Char} {rule : String} {message : Option String}
  {source : String} {n : Nat}

/-- Letters, marks, digits, connectors and `-`. -/
def IsNameChar (c : Char) : Prop := isWordChar c = true ∨ c = '-'

/-- The name of a rule, as an annotation may give it. -/
def IsName (rule : String) : Prop := rule.toList ≠ [] ∧ ∀ c ∈ rule.toList, IsNameChar c

/-- Text without blanks around it. -/
def Trimmed (cs : List Char) : Prop :=
  (∀ c ∈ cs.head?, isBlank c = false) ∧ ∀ c ∈ cs.getLast?, isBlank c = false

/-- The message in the text after a colon: what is left without the blanks around it and one close of
a comment at its end, if anything is. -/
def MessageIn (text : List Char) (message : Option String) : Prop :=
  ∃ lead said gap close trail, text = lead ++ said ++ gap ++ close ++ trail ∧
    (∀ c ∈ lead ++ gap ++ trail, isBlank c = true) ∧ Trimmed said ∧
    (close = "*/".toList ∨ close = [] ∧ ¬ "*/".toList <:+ said) ∧
    message = if said = [] then none else some (String.ofList said)

/-- After the rule comes a colon with a message, or at most the close of a comment. -/
def Ending (tail : List Char) (message : Option String) : Prop :=
  (∃ blanks text, tail = blanks ++ ':' :: text ∧ (∀ c ∈ blanks, isBlank c = true) ∧
    MessageIn text message) ∨
  ∃ lead close trail, tail = lead ++ close ++ trail ∧ (∀ c ∈ lead ++ trail, isBlank c = true) ∧
    (close = [] ∨ close = "*/".toList) ∧ message = none

/-- An annotation at the front of a text. -/
def AnnotationAt (cs : List Char) (rule : String) (message : Option String) : Prop :=
  ∃ blanks tail, cs = "<expect-error>".toList ++ blanks ++ rule.toList ++ tail ∧
    blanks ≠ [] ∧ (∀ c ∈ blanks, isBlank c = true) ∧
    IsName rule ∧ (∀ c ∈ tail.head?, ¬ IsNameChar c) ∧ Ending tail message

/-- The first annotation on a line. -/
def Annotation (line : List Char) (rule : String) (message : Option String) : Prop :=
  ∃ front rest, line = front ++ rest ∧ AnnotationAt rest rule message ∧
    ∀ front' rest', line = front' ++ rest' → front'.length < front.length →
      ∀ rule' message', ¬ AnnotationAt rest' rule' message'

section Characters

theorem isRuleChar_iff {c : Char} : isRuleChar c = true ↔ IsNameChar c := by
  simp [isRuleChar, IsNameChar]

theorem isRuleChar_eq_false_iff {c : Char} : isRuleChar c = false ↔ ¬ IsNameChar c := by
  rw [← isRuleChar_iff, Bool.not_eq_true]

theorem exists_range_of_inRanges {ranges : List (Nat × Nat)} {c : Char}
    (h : inRanges ranges c = true) : ∃ r ∈ ranges, r.1 ≤ c.toNat ∧ c.toNat ≤ r.2 := by
  fun_induction inRanges ranges c with
  | case1 => cases h
  | case2 => cases h
  | case3 first last ranges c hfirst hlast =>
    exact ⟨(first, last), List.mem_cons_self, by simpa using hfirst, hlast⟩
  | case4 first last ranges c _ _ ih =>
    obtain ⟨r, hr, hbounds⟩ := ih h
    exact ⟨r, List.mem_cons_of_mem _ hr, hbounds⟩

/-- No blank is part of a name. -/
theorem isBlank_of_isRuleChar {c : Char} (h : isRuleChar c = true) : isBlank c = false := by
  by_contra hblank
  rw [Bool.not_eq_false] at hblank
  obtain ⟨r, hr, hlo, hhi⟩ := exists_range_of_inRanges hblank
  have hnone : ∀ r ∈ blanks, ∀ k ∈ List.range' r.1 (r.2 + 1 - r.1),
      isRuleChar (Char.ofNat k) = false := by decide +kernel
  have hc := hnone r hr c.toNat (List.mem_range'_1.2 ⟨hlo, by omega⟩)
  rw [Char.ofNat_toNat, h] at hc
  cases hc

end Characters

section Close

theorem dropClose_of_trimEnd_eq (h : trimEnd cs = front ++ ['*', '/']) :
    dropClose cs = trimEnd front := by
  simp [dropClose, h]

theorem dropClose_of_not_suffix (h : ¬ ['*', '/'] <:+ trimEnd cs) : dropClose cs = trimEnd cs := by
  simp only [dropClose]
  split
  · next rest hrest =>
    refine absurd ⟨rest.reverse, ?_⟩ h
    rw [← List.reverse_reverse (trimEnd cs), hrest]
    simp
  · rfl

/-- What is left ends in no blank, and after it come blanks and at most one close. -/
theorem dropClose_eq_iff :
    dropClose cs = front ↔
      ∃ gap close trail, cs = front ++ gap ++ close ++ trail ∧
        (∀ c ∈ gap ++ trail, isBlank c = true) ∧ (∀ c ∈ front.getLast?, isBlank c = false) ∧
        (close = ['*', '/'] ∨ close = [] ∧ ¬ ['*', '/'] <:+ front) := by
  constructor
  · intro h
    obtain ⟨trail, hcs, htrail, hlast⟩ := dropEnd_eq_iff.1 (rfl : dropEnd isBlank cs = trimEnd cs)
    by_cases hclose : ['*', '/'] <:+ trimEnd cs
    · obtain ⟨before, hbefore⟩ := hclose
      rw [dropClose_of_trimEnd_eq hbefore.symm] at h
      obtain ⟨gap, hgap, hblanks, hend⟩ := dropEnd_eq_iff.1 h
      refine ⟨gap, ['*', '/'], trail, ?_, ?_, hend, .inl rfl⟩
      · rw [← hgap, hbefore]
        exact hcs
      · exact List.forall_mem_append.2 ⟨hblanks, htrail⟩
    · rw [dropClose_of_not_suffix hclose] at h
      subst h
      refine ⟨[], [], trail, ?_, by simpa using htrail, hlast, .inr ⟨rfl, hclose⟩⟩
      rw [List.append_nil, List.append_nil]
      exact hcs
  · rintro ⟨gap, close, trail, rfl, hblanks, hend, hclose⟩
    obtain ⟨hgap, htrail⟩ := List.forall_mem_append.1 hblanks
    rcases hclose with rfl | ⟨rfl, hno⟩
    · have htrim : trimEnd (front ++ gap ++ ['*', '/'] ++ trail) = front ++ gap ++ ['*', '/'] := by
        refine dropEnd_eq_iff.2 ⟨trail, rfl, htrail, fun c hc => ?_⟩
        simp only [List.getLast?_append, List.getLast?_cons_cons, List.getLast?_singleton,
          Option.some_or, Option.mem_def, Option.some.injEq] at hc
        subst hc
        decide
      rw [dropClose_of_trimEnd_eq htrim]
      exact dropEnd_eq_iff.2 ⟨gap, rfl, hgap, hend⟩
    · have htrim : trimEnd (front ++ gap ++ [] ++ trail) = front := by
        refine dropEnd_eq_iff.2 ⟨gap ++ trail, by simp, hblanks, hend⟩
      rw [dropClose_of_not_suffix (by rwa [htrim]), htrim]

theorem dropClose_eq_nil_iff :
    dropClose cs = [] ↔
      ∃ lead close trail, cs = lead ++ close ++ trail ∧ (∀ c ∈ lead ++ trail, isBlank c = true) ∧
        (close = [] ∨ close = ['*', '/']) := by
  rw [dropClose_eq_iff]
  constructor
  · rintro ⟨gap, close, trail, hcs, hblanks, -, hclose⟩
    exact ⟨gap, close, trail, by simpa using hcs, hblanks, hclose.symm.imp And.left id⟩
  · rintro ⟨lead, close, trail, hcs, hblanks, hclose⟩
    refine ⟨lead, close, trail, by simpa using hcs, hblanks, by simp, ?_⟩
    exact hclose.symm.imp id fun h => ⟨h, by decide⟩

/-- After the blanks in front comes nothing, or a close and blanks. -/
theorem dropClose_eq_nil_iff_dropWhile :
    dropClose cs = [] ↔
      cs.dropWhile isBlank = [] ∨
        ∃ trail, cs.dropWhile isBlank = ['*', '/'] ++ trail ∧ ∀ c ∈ trail, isBlank c = true := by
  rw [dropClose_eq_nil_iff]
  constructor
  · rintro ⟨lead, close, trail, rfl, hall, hclose⟩
    obtain ⟨hlead, htrail⟩ := List.forall_mem_append.1 hall
    rcases hclose with rfl | rfl
    · rw [List.append_nil]
      exact .inl (List.dropWhile_eq_nil_iff.2 hall)
    · rw [List.append_assoc]
      exact .inr ⟨trail, dropWhile_append_of_stop hlead (by rintro c ⟨⟩; decide), htrail⟩
  · have hcut := List.takeWhile_append_dropWhile (p := isBlank) (l := cs)
    have hblanks : ∀ c ∈ cs.takeWhile isBlank, isBlank c = true := fun c hc =>
      List.mem_takeWhile_imp hc
    rintro (hnil | ⟨trail, hclose, htrail⟩)
    · refine ⟨cs.takeWhile isBlank, [], [], ?_, by simpa using hblanks, .inl rfl⟩
      rw [hnil] at hcut
      simpa using hcut.symm
    · refine ⟨cs.takeWhile isBlank, ['*', '/'], trail, ?_, ?_, .inr rfl⟩
      · rw [List.append_assoc, ← hclose, hcut]
      · exact List.forall_mem_append.2 ⟨hblanks, htrail⟩

theorem dropClose_cons_ne_nil {c : Char} (hblank : isBlank c = false) (hstar : c ≠ '*')
    (cs : List Char) : dropClose (c :: cs) ≠ [] := by
  rw [ne_eq, dropClose_eq_nil_iff_dropWhile, List.dropWhile_cons_of_neg (by simp [hblank])]
  rintro (hnil | ⟨trail, hclose, -⟩)
  · cases hnil
  · exact hstar (List.cons.inj hclose).1

/-- Reading from one character on, the close is looked for at the same place. -/
theorem dropClose_cons (c : Char) (cs : List Char) :
    dropClose (c :: cs) = [] ∨ dropClose (c :: cs) = c :: dropClose cs := by
  obtain ⟨gap, close, trail, heq, hblanks, hlast, hclose⟩ :=
    dropClose_eq_iff.1 (rfl : dropClose (c :: cs) = dropClose (c :: cs))
  cases hleft : dropClose (c :: cs) with
  | nil => exact .inl rfl
  | cons d front =>
    right
    rw [hleft] at heq hlast hclose
    obtain ⟨rfl, hcs⟩ := List.cons.inj heq
    have hrest : dropClose cs = front := by
      refine dropClose_eq_iff.2 ⟨gap, close, trail, hcs, hblanks, fun x hx => hlast x ?_, ?_⟩
      · rw [List.getLast?_cons, Option.mem_def.1 hx]
        rfl
      · exact hclose.imp id fun ⟨hnil, hno⟩ =>
          ⟨hnil, fun hsuffix => hno (hsuffix.trans (List.suffix_cons c front))⟩
    rw [hrest]

end Close

section Message

theorem trimEnd_dropWhile (h : ∀ c ∈ cs.getLast?, isBlank c = false) :
    trimEnd (cs.dropWhile isBlank) = cs.dropWhile isBlank := by
  refine dropEnd_eq_iff.2 ⟨[], (List.append_nil _).symm, by simp, fun c hc => h c ?_⟩
  conv_lhs => rw [← List.takeWhile_append_dropWhile (p := isBlank) (l := cs)]
  rw [List.getLast?_append, Option.mem_def.1 hc]
  rfl

/-- Blanks in front do not make a close of what has none. -/
theorem close_suffix_of_append {lead : List Char} (hlead : ∀ c ∈ lead, isBlank c = true)
    (hne : said ≠ []) (h : ['*', '/'] <:+ lead ++ said) : ['*', '/'] <:+ said := by
  by_cases hlength : 2 ≤ said.length
  · exact List.suffix_of_suffix_length_le h (List.suffix_append lead said) hlength
  · have hpos := List.length_pos_of_ne_nil hne
    obtain ⟨c, rfl⟩ := List.length_eq_one_iff.1 (show said.length = 1 by omega)
    obtain ⟨front, hfront⟩ := h
    have hstar : lead = front ++ ['*'] := by
      have hcut := List.append_inj_left' (hfront.symm.trans
        (show front ++ ['*', '/'] = (front ++ ['*']) ++ ['/'] by simp)) rfl
      exact hcut
    exact absurd (hlead '*' (by simp [hstar])) (by decide)

/-- The message as it is read: what is left of the text after the colon. -/
def messageFrom (text : List Char) : Option String :=
  if (trim (dropClose text)).isEmpty then none else some (String.ofList (trim (dropClose text)))

theorem MessageIn.messageFrom_eq (h : MessageIn text message) : messageFrom text = message := by
  obtain ⟨lead, said, gap, close, trail, rfl, hblanks, ⟨hhead, hlast⟩, hclose, rfl⟩ := h
  obtain ⟨hleadgap, htrail⟩ := List.forall_mem_append.1 hblanks
  obtain ⟨hlead, hgap⟩ := List.forall_mem_append.1 hleadgap
  by_cases hsaid : said = []
  · subst hsaid
    have hnil : dropClose (lead ++ [] ++ gap ++ close ++ trail) = [] := by
      rw [List.append_nil]
      exact dropClose_eq_nil_iff.2 ⟨lead ++ gap, close, trail, rfl, hblanks,
        hclose.symm.imp And.left id⟩
    rw [messageFrom, hnil]
    rfl
  · have hleft : dropClose (lead ++ said ++ gap ++ close ++ trail) = lead ++ said := by
      refine dropClose_eq_iff.2 ⟨gap, close, trail, rfl, List.forall_mem_append.2 ⟨hgap, htrail⟩,
        ?_, ?_⟩
      · intro c hc
        rw [List.getLast?_append_of_ne_nil _ hsaid] at hc
        exact hlast c hc
      · exact hclose.imp id fun ⟨hnil, hno⟩ =>
          ⟨hnil, fun hsuffix => hno (close_suffix_of_append hlead hsaid hsuffix)⟩
    have htrim : trim (lead ++ said) = said := by
      rw [trim, dropWhile_append_of_stop hlead hhead]
      exact dropEnd_eq_iff.2 ⟨[], (List.append_nil said).symm, by simp, hlast⟩
    rw [messageFrom, hleft, htrim, if_neg hsaid]
    simp [hsaid]

theorem messageIn_messageFrom (text : List Char) : MessageIn text (messageFrom text) := by
  obtain ⟨gap, close, trail, htext, hblanks, hlast, hclose⟩ :=
    dropClose_eq_iff.1 (rfl : dropClose text = dropClose text)
  have htrim : trim (dropClose text) = (dropClose text).dropWhile isBlank :=
    trimEnd_dropWhile hlast
  obtain ⟨hgap, htrail⟩ := List.forall_mem_append.1 hblanks
  refine ⟨(dropClose text).takeWhile isBlank, (dropClose text).dropWhile isBlank, gap, close, trail,
    ?_, ?_, ⟨not_of_mem_head?_dropWhile _ _, ?_⟩, ?_, ?_⟩
  · rw [List.takeWhile_append_dropWhile]
    exact htext
  · refine List.forall_mem_append.2 ⟨List.forall_mem_append.2 ⟨?_, hgap⟩, htrail⟩
    exact fun c hc => List.mem_takeWhile_imp hc
  · obtain ⟨-, -, -, hend⟩ := dropEnd_eq_iff.1 htrim
    exact hend
  · exact hclose.imp id fun ⟨hnil, hno⟩ =>
      ⟨hnil, fun hsuffix => hno (hsuffix.trans (List.dropWhile_suffix _))⟩
  · rw [messageFrom, htrim]
    simp

theorem messageIn_iff : MessageIn text message ↔ messageFrom text = message := by
  constructor
  · exact MessageIn.messageFrom_eq
  · rintro rfl
    exact messageIn_messageFrom text

end Message

section Body

/-- What follows the rule, as it is read. -/
def endingOf? (tail : List Char) : Option (Option String) :=
  match tail.dropWhile isBlank with
  | ':' :: text => some (messageFrom text)
  | left => if (dropClose left).isEmpty then some none else none

theorem endingOf?_of_colon (h : tail.dropWhile isBlank = ':' :: text) :
    endingOf? tail = some (messageFrom text) := by
  rw [endingOf?, h]
  rfl

theorem endingOf?_of_no_colon (h : ∀ text, tail.dropWhile isBlank ≠ ':' :: text) :
    endingOf? tail = if (dropClose (tail.dropWhile isBlank)).isEmpty then some none else none := by
  rw [endingOf?]
  split
  · next text heq => exact absurd heq (h text)
  · rfl

theorem Ending.of_endingOf? (h : endingOf? tail = some message) : Ending tail message := by
  have hcut := List.takeWhile_append_dropWhile (p := isBlank) (l := tail)
  have hblanks : ∀ c ∈ tail.takeWhile isBlank, isBlank c = true := fun c hc =>
    List.mem_takeWhile_imp hc
  by_cases hcolon : ∃ text, tail.dropWhile isBlank = ':' :: text
  · obtain ⟨text, htext⟩ := hcolon
    rw [endingOf?_of_colon htext, Option.some.injEq] at h
    exact .inl ⟨_, text, by rw [← htext, hcut], hblanks, messageIn_iff.2 h⟩
  · rw [endingOf?_of_no_colon (not_exists.1 hcolon)] at h
    split at h
    · next hnil =>
      obtain ⟨lead, close, trail, heq, hall, hclose⟩ :=
        dropClose_eq_nil_iff.1 (List.isEmpty_iff.1 hnil)
      obtain ⟨hlead, htrail⟩ := List.forall_mem_append.1 hall
      refine .inr ⟨tail.takeWhile isBlank ++ lead, close, trail, ?_, ?_, hclose,
        (Option.some.inj h).symm⟩
      · conv_lhs => rw [← hcut, heq]
        simp
      · exact List.forall_mem_append.2 ⟨List.forall_mem_append.2 ⟨hblanks, hlead⟩, htrail⟩
    · cases h

theorem Ending.endingOf?_eq (h : Ending tail message) : endingOf? tail = some message := by
  rcases h with ⟨blanks, text, rfl, hblanks, hmessage⟩ | ⟨lead, close, trail, rfl, hall, hclose, rfl⟩
  · have htext : (blanks ++ ':' :: text).dropWhile isBlank = ':' :: text :=
      dropWhile_append_of_stop hblanks (by rintro c ⟨⟩; decide)
    rw [endingOf?_of_colon htext, messageIn_iff.1 hmessage]
  · have hleft := dropClose_eq_nil_iff_dropWhile.1
      (dropClose_eq_nil_iff.2 ⟨lead, close, trail, rfl, hall, hclose⟩)
    rw [endingOf?_of_no_colon]
    · have hnil : dropClose ((lead ++ close ++ trail).dropWhile isBlank) = [] := by
        rw [dropClose_eq_nil_iff_dropWhile, List.dropWhile_idempotent]
        exact hleft
      rw [hnil]
      rfl
    · intro text htext
      rcases hleft with hleft | ⟨trail, hleft, -⟩
      · rw [hleft] at htext
        cases htext
      · rw [hleft] at htext
        exact absurd (List.cons.inj htext).1 (by decide)

theorem endingOf?_eq_some_iff : endingOf? tail = some message ↔ Ending tail message :=
  ⟨Ending.of_endingOf?, Ending.endingOf?_eq⟩

theorem body?_cons (b : Char) (cs : List Char) :
    body? (b :: cs) =
      if isBlank b then
        if ((cs.dropWhile isBlank).takeWhile isRuleChar).isEmpty then none
        else (endingOf? ((cs.dropWhile isBlank).dropWhile isRuleChar)).map
          (String.ofList ((cs.dropWhile isBlank).takeWhile isRuleChar), ·)
      else none := by
  simp only [body?]
  by_cases hb : isBlank b = true
  · rw [if_pos hb, if_pos hb]
    split
    · rfl
    · split
      · next text htext =>
        rw [endingOf?_of_colon htext]
        rfl
      · next hcolon =>
        rw [endingOf?_of_no_colon hcolon]
        split <;> rfl
  · rw [if_neg hb, if_neg hb]

theorem AnnotationAt.of_body? (h : (after? marker cs).bind body? = some (rule, message)) :
    AnnotationAt cs rule message := by
  obtain ⟨left, hleft, hbody⟩ := Option.bind_eq_some_iff.1 h
  rw [after?_eq_some_iff] at hleft
  cases left with
  | nil => cases hbody
  | cons b left =>
    rw [body?_cons] at hbody
    split at hbody
    · next hb =>
      split at hbody
      · cases hbody
      · next hrule =>
        obtain ⟨_, hending, heq⟩ := Option.map_eq_some_iff.1 hbody
        cases heq
        refine ⟨b :: left.takeWhile isBlank, _, ?_, by simp, ?_, ⟨?_, ?_⟩, ?_,
          endingOf?_eq_some_iff.1 hending⟩
        · rw [hleft, show "<expect-error>".toList = marker from rfl, String.toList_ofList,
            List.append_assoc, List.append_assoc, List.takeWhile_append_dropWhile,
            List.cons_append, List.takeWhile_append_dropWhile]
        · exact List.forall_mem_cons.2 ⟨hb, fun c hc => List.mem_takeWhile_imp hc⟩
        · simpa using hrule
        · rw [String.toList_ofList]
          exact fun c hc => isRuleChar_iff.1 (List.mem_takeWhile_imp hc)
        · intro c hc
          exact isRuleChar_eq_false_iff.1 (not_of_mem_head?_dropWhile _ _ c hc)
    · cases hbody

theorem AnnotationAt.body?_eq (h : AnnotationAt cs rule message) :
    (after? marker cs).bind body? = some (rule, message) := by
  obtain ⟨blanks, tail, hcs, hne, hblanks, ⟨hrule, hnames⟩, hstop, hending⟩ := h
  rw [Option.bind_eq_some_iff]
  rw [show "<expect-error>".toList = marker from rfl] at hcs
  obtain ⟨b, blanks, rfl⟩ := List.exists_cons_of_ne_nil hne
  obtain ⟨hb, hblanks⟩ := List.forall_mem_cons.1 hblanks
  have hname : ∀ c ∈ rule.toList, isRuleChar c = true := fun c hc => isRuleChar_iff.2 (hnames c hc)
  have hend : ∀ c ∈ tail.head?, isRuleChar c = false := fun c hc =>
    isRuleChar_eq_false_iff.2 (hstop c hc)
  have hskip : (blanks ++ (rule.toList ++ tail)).dropWhile isBlank = rule.toList ++ tail := by
    refine dropWhile_append_of_stop hblanks fun c hc => isBlank_of_isRuleChar (hname c ?_)
    rw [List.head?_append_of_ne_nil _ hrule] at hc
    exact List.mem_of_mem_head? hc
  refine ⟨b :: (blanks ++ (rule.toList ++ tail)), after?_eq_some_iff.2 ?_, ?_⟩
  · rw [hcs, List.append_assoc, List.append_assoc, List.cons_append]
  · rw [body?_cons, if_pos hb, hskip, takeWhile_append_of_stop hname hend,
      dropWhile_append_of_stop hname hend, if_neg (by simpa using hrule),
      endingOf?_eq_some_iff.2 hending, String.ofList_toList]
    rfl

theorem annotationAt_iff :
    (after? marker cs).bind body? = some (rule, message) ↔ AnnotationAt cs rule message :=
  ⟨AnnotationAt.of_body?, AnnotationAt.body?_eq⟩

end Body

section Reading

theorem ofLine?_eq (cs : List Char) :
    ofLine? cs = firstPlace? (fun cs => (after? marker cs).bind body?) cs := by
  induction cs with
  | nil => rfl
  | cons c cs ih =>
    rw [ofLine?, firstPlace?, ih]
    cases (after? marker (c :: cs)).bind body? <;> rfl

theorem ofLine?_eq_some_iff : ofLine? line = some (rule, message) ↔ Annotation line rule message := by
  rw [ofLine?_eq, firstPlace?_eq_some_iff]
  simp only [annotationAt_iff, Annotation, Option.eq_none_iff_forall_ne_some, Prod.forall, ne_eq]

theorem mem_parseFrom_iff {e : Expectation} {ls : List (List Char)} :
    e ∈ parseFrom n ls ↔
      ∃ i line, ls[i]? = some line ∧ ofLine? line = some (e.rule, e.message) ∧
        e.line = n + i + 1 := by
  induction ls generalizing n with
  | nil => simp [parseFrom]
  | cons line ls ih =>
    have hlater : e ∈ parseFrom (n + 1) ls ↔
        ∃ i line', (line :: ls)[i + 1]? = some line' ∧ ofLine? line' = some (e.rule, e.message) ∧
          e.line = n + (i + 1) + 1 := by
      simp only [ih, List.getElem?_cons_succ, Nat.add_assoc, Nat.add_comm 1]
    rw [parseFrom]
    constructor
    · intro hmem
      split at hmem
      · next rule message hread =>
        rcases List.mem_cons.1 hmem with rfl | hmem
        · exact ⟨0, line, rfl, hread, rfl⟩
        · obtain ⟨i, line', h⟩ := hlater.1 hmem
          exact ⟨i + 1, line', h⟩
      · obtain ⟨i, line', h⟩ := hlater.1 hmem
        exact ⟨i + 1, line', h⟩
    · rintro ⟨i, line', hline, hread, he⟩
      cases i with
      | zero =>
        cases hline
        rw [hread]
        obtain ⟨eline, rule, message⟩ := e
        cases he
        exact List.mem_cons_self
      | succ i =>
        have hmem := hlater.2 ⟨i, line', hline, hread, he⟩
        split
        · exact List.mem_cons_of_mem _ hmem
        · exact hmem

theorem mem_parse_iff {e : Expectation} :
    e ∈ parse source ↔
      ∃ n line, LineAt source n line ∧ Annotation line e.rule e.message ∧ e.line = n + 1 := by
  rw [parse, mem_parseFrom_iff]
  simp only [ofLine?_eq_some_iff]
  constructor
  · rintro ⟨i, line, hline, hread, he⟩
    exact ⟨i + 1, line, ⟨by omega, hline⟩, hread, by omega⟩
  · rintro ⟨n, line, ⟨hpos, hline⟩, hread, he⟩
    exact ⟨n - 1, line, hline, hread, by omega⟩

end Reading

section Capture

/-- At most one close, with blanks around it, up to the end of the line. -/
def closePattern : Pattern :=
  .seq (.many isBlank) (.seq (.optional (.literal "*/".toList)) (.seq (.many isBlank) .atEnd))

/-- A colon with a message, or no message. -/
def choicePattern : Pattern :=
  .seq (.optional
    (.seq (.literal [':']) (.seq (.many isBlank) (.group 2 (.few fun c => c != '\n'))))) closePattern

/-- The pattern `<expect-error>\s+([\w\-]+)\s*(?::\s*(.*?))?\s*(?:\*/)?\s*$`. -/
def annotationPattern : Pattern :=
  .seq (.literal "<expect-error>".toList)
    (.seq (.several isBlank)
      (.seq (.group 1 (.several isRuleChar)) (.seq (.many isBlank) choicePattern)))

/-- The message among the groups, without blanks around it; none if nothing is left. -/
def messageOf (groups : List (Nat × List Char)) : Option String :=
  ((groups.lookup 2).map fun text => String.ofList (trim text)).filter fun message => message != ""

theorem captures_blanks (cs : List Char) :
    (Pattern.seq (.many isBlank) .atEnd).captures cs =
      if cs.dropWhile isBlank = [] then some [] else none := by
  rw [Pattern.captures_many_seq, Pattern.captures_atEnd]
  · simp
  · intro _ front c rest _ _ _
    rw [Pattern.captures_atEnd]
    rfl

theorem captures_closePattern (cs : List Char) :
    closePattern.captures cs = if (dropClose cs).isEmpty then some [] else none := by
  have hclose (cs : List Char) :
      (Pattern.seq (.optional (.literal "*/".toList)) (.seq (.many isBlank) .atEnd)).captures cs =
        ((after? ['*', '/'] cs).bind fun trail =>
          if trail.dropWhile isBlank = [] then some [] else none).or
        (if cs.dropWhile isBlank = [] then some [] else none) := by
    rw [Pattern.captures_optional_seq, Pattern.captures_literal_seq, captures_blanks,
      show "*/".toList = ['*', '/'] from rfl]
    simp only [captures_blanks]
  rw [closePattern, Pattern.captures_many_seq]
  · simp only [hclose, List.dropWhile_idempotent, List.isEmpty_iff]
    cases hafter : after? ['*', '/'] (cs.dropWhile isBlank) with
    | none =>
      have hnil : dropClose cs = [] ↔ cs.dropWhile isBlank = [] := by
        rw [dropClose_eq_nil_iff_dropWhile]
        refine or_iff_left ?_
        rintro ⟨trail, htrail, -⟩
        exact after?_eq_none_iff.1 hafter trail htrail
      simp only [hnil, Option.bind_none, Option.none_or]
    | some trail =>
      rw [after?_eq_some_iff] at hafter
      have hnil : dropClose cs = [] ↔ trail.dropWhile isBlank = [] := by
        rw [dropClose_eq_nil_iff_dropWhile, hafter, List.dropWhile_eq_nil_iff]
        simp
      have hne : cs.dropWhile isBlank ≠ [] := by
        rw [hafter]
        exact List.cons_ne_nil _ _
      simp only [hnil, Option.bind_some, if_neg hne, Option.or_none]
  · -- if a shorter run is followed by blanks only, so is the longest
    intro hlongest front c rest heq hfront hc
    rw [hclose, after?_close_of_isBlank hc, Option.bind_none, Option.none_or, if_neg]
    intro hnil
    have hall : cs.dropWhile isBlank = [] := by
      rw [heq, List.dropWhile_append_of_pos hfront, hnil]
    rw [hclose, hall] at hlongest
    cases hlongest

theorem captures_message (h : '\n' ∉ text) :
    (Pattern.seq (.group 2 (.few fun c => c != '\n')) closePattern).captures text =
      some [(2, dropClose text)] := by
  have hend : (dropClose []).isEmpty = true := rfl
  rw [Pattern.captures_group_few_seq (forall_ne_newline h) (q := fun cs => (dropClose cs).isEmpty) hend,
    captures_closePattern, if_pos (drop_upTo (q := fun cs => (dropClose cs).isEmpty) hend text),
    upTo_isEmpty rfl dropClose_cons]
  · rfl
  · intro front rest _
    rw [captures_closePattern]
    cases (dropClose rest).isEmpty <;> rfl

theorem captures_choicePattern_colon (h : '\n' ∉ text) :
    choicePattern.captures (':' :: text) = some [(2, dropClose (text.dropWhile isBlank))] := by
  have hsub : '\n' ∉ text.dropWhile isBlank := mt (List.dropWhile_suffix _).mem h
  have hafter : after? [':'] (':' :: text) = some text := after?_eq_some_iff.2 rfl
  rw [choicePattern, Pattern.captures_optional_seq, Pattern.captures_seq_assoc,
    Pattern.captures_literal_seq, hafter, Option.bind_some, Pattern.captures_seq_assoc,
    Pattern.captures_many_seq, captures_message hsub]
  · rfl
  · simp [captures_message hsub]

theorem captures_choicePattern_of_ne (h : ∀ text, cs ≠ ':' :: text) :
    choicePattern.captures cs = if (dropClose cs).isEmpty then some [] else none := by
  have hafter : after? [':'] cs = none := after?_eq_none_iff.2 h
  rw [choicePattern, Pattern.captures_optional_seq, Pattern.captures_seq_assoc,
    Pattern.captures_literal_seq, hafter, Option.bind_none, Option.none_or, captures_closePattern]

theorem captures_tail (tail : List Char) :
    (Pattern.seq (.many isBlank) choicePattern).captures tail =
      choicePattern.captures (tail.dropWhile isBlank) := by
  refine Pattern.captures_many_seq fun hlongest front c rest heq hfront hc => ?_
  have hcolon : ∀ text, c :: rest ≠ ':' :: text := by
    intro text htext
    rw [(List.cons.inj htext).1] at hc
    exact absurd hc (by decide)
  -- what a shorter run leaves ends in the same way as what the longest leaves
  have hsame : tail.dropWhile isBlank = rest.dropWhile isBlank := by
    rw [heq, List.dropWhile_append_of_pos hfront, List.dropWhile_cons_of_pos hc]
  rw [captures_choicePattern_of_ne hcolon, if_neg]
  rw [List.isEmpty_iff, dropClose_eq_nil_iff_dropWhile, List.dropWhile_cons_of_pos hc, ← hsame,
    ← List.dropWhile_idempotent, ← dropClose_eq_nil_iff_dropWhile]
  intro hnil
  rw [captures_choicePattern_of_ne, hnil] at hlongest
  · cases hlongest
  · intro text htext
    rw [htext] at hnil
    exact dropClose_cons_ne_nil (by decide) (by decide) text hnil

theorem captures_tail_of_isRuleChar {c : Char} (h : isRuleChar c = true) (rest : List Char) :
    (Pattern.seq (.many isBlank) choicePattern).captures (c :: rest) = none := by
  have hblank := isBlank_of_isRuleChar h
  have hcolon : ∀ text, c :: rest ≠ ':' :: text := by
    intro text htext
    rw [(List.cons.inj htext).1] at h
    exact absurd h (by decide +kernel)
  have hstar : c ≠ '*' := by
    rintro rfl
    exact absurd h (by decide +kernel)
  rw [captures_tail, List.dropWhile_cons_of_neg (by simp [hblank]),
    captures_choicePattern_of_ne hcolon, if_neg]
  simpa using dropClose_cons_ne_nil hblank hstar rest

/-- The groups after a marker and one blank. -/
theorem captures_rule (cs : List Char) :
    (Pattern.seq (.many isBlank) (.seq (.group 1 (.several isRuleChar))
        (.seq (.many isBlank) choicePattern))).captures cs =
      if ((cs.dropWhile isBlank).takeWhile isRuleChar).isEmpty then none
      else (choicePattern.captures
          (((cs.dropWhile isBlank).dropWhile isRuleChar).dropWhile isBlank)).map
        ((1, (cs.dropWhile isBlank).takeWhile isRuleChar) :: ·) := by
  have hgroup := Pattern.captures_group_several_seq (n := 1)
    fun c rest hc => captures_tail_of_isRuleChar (c := c) hc rest
  rw [Pattern.captures_many_seq, hgroup, captures_tail]
  intro _ front c rest _ _ hc
  have hname : isRuleChar c = false := by
    by_contra hname
    rw [isBlank_of_isRuleChar (by simpa using hname)] at hc
    cases hc
  rw [hgroup, List.takeWhile_cons_of_neg (by simp [hname])]
  rfl

/-- Blanks in front of the message are dropped before the close is or after it. -/
theorem trim_dropClose_dropWhile (text : List Char) :
    trim (dropClose (text.dropWhile isBlank)) = trim (dropClose text) := by
  induction text with
  | nil => rfl
  | cons c text ih =>
    by_cases hc : isBlank c = true
    · rw [List.dropWhile_cons_of_pos hc, ih]
      rcases dropClose_cons c text with hnil | hcons
      · have hrest : dropClose text = [] := by
          rw [dropClose_eq_nil_iff_dropWhile, List.dropWhile_cons_of_pos hc,
            ← dropClose_eq_nil_iff_dropWhile] at hnil
          exact hnil
        rw [hnil, hrest]
      · rw [hcons, trim, trim, List.dropWhile_cons_of_pos hc]
    · rw [List.dropWhile_cons_of_neg hc]

/-- The rule and the message among the groups. -/
def readGroups (groups : List (Nat × List Char)) : String × Option String :=
  (String.ofList ((groups.lookup 1).getD []), messageOf groups)

theorem messageOf_colon (name text : List Char) :
    messageOf [(1, name), (2, dropClose (text.dropWhile isBlank))] = messageFrom text := by
  have hlookup : [(1, name), (2, dropClose (text.dropWhile isBlank))].lookup 2 =
      some (dropClose (text.dropWhile isBlank)) := rfl
  rw [messageOf, hlookup, Option.map_some, trim_dropClose_dropWhile, messageFrom]
  cases trim (dropClose text) with
  | nil => rfl
  | cons c cs =>
    simp [Option.filter]

/-- What follows the rule is read as it is captured. -/
theorem map_captures_choicePattern (name : List Char) (h : '\n' ∉ tail) :
    (choicePattern.captures (tail.dropWhile isBlank)).map
        (fun groups => readGroups ((1, name) :: groups)) =
      (endingOf? tail).map (String.ofList name, ·) := by
  by_cases hcolon : ∃ text, tail.dropWhile isBlank = ':' :: text
  · obtain ⟨text, htext⟩ := hcolon
    have hsub : '\n' ∉ text := by
      have hrest := mt (List.dropWhile_suffix isBlank).mem h
      rw [htext] at hrest
      exact mt (List.mem_cons_of_mem ':') hrest
    rw [endingOf?_of_colon htext, htext, captures_choicePattern_colon hsub, Option.map_some,
      Option.map_some, readGroups, messageOf_colon]
    rfl
  · rw [endingOf?_of_no_colon (not_exists.1 hcolon),
      captures_choicePattern_of_ne (not_exists.1 hcolon)]
    split <;> rfl

theorem captures_annotationPattern (h : '\n' ∉ cs) :
    (annotationPattern.captures cs).map readGroups = (after? marker cs).bind body? := by
  rw [annotationPattern, Pattern.captures_literal_seq,
    show "<expect-error>".toList = marker from rfl]
  cases hafter : after? marker cs with
  | none => rfl
  | some left =>
    have hleft : '\n' ∉ left := notMem_of_after? h hafter
    rw [Option.bind_some, Option.bind_some, Pattern.captures_several_seq]
    cases left with
    | nil => rfl
    | cons b left =>
      rw [body?_cons]
      by_cases hb : isBlank b = true
      · simp only [hb, if_true]
        rw [captures_rule]
        split
        · rfl
        · rw [Option.map_map, Function.comp_def, map_captures_choicePattern]
          have hrest : '\n' ∉ left := mt (List.mem_cons_of_mem b) hleft
          exact mt ((List.dropWhile_suffix _).trans (List.dropWhile_suffix _)).mem hrest
      · simp [hb]

theorem find?_annotationPattern (h : '\n' ∉ line) :
    (annotationPattern.find? line).map readGroups = ofLine? line := by
  rw [Pattern.find?, ofLine?_eq, ← firstPlace?_map]
  exact firstPlace?_congr fun rest hrest => captures_annotationPattern (mt hrest.mem h)

/-- The first annotation of a line is what the pattern matches. -/
theorem annotation_iff_find? (h : '\n' ∉ line) :
    Annotation line rule message ↔
      ∃ groups, annotationPattern.find? line = some groups ∧
        readGroups groups = (rule, message) := by
  rw [← ofLine?_eq_some_iff, ← find?_annotationPattern h, Option.map_eq_some_iff]

end Capture

section Comment

/-- A message that an annotation can give: one line, with no blanks around it and no close of a
comment at its end. -/
def IsMessage (message : String) : Prop :=
  message.toList ≠ [] ∧ Trimmed message.toList ∧ '\n' ∉ message.toList ∧
    ¬ "*/".toList <:+ message.toList

/-- A comment that holds an annotation only. -/
def comment (opening closing rule message : String) : String :=
  opening ++ "<expect-error> " ++ rule ++ ": " ++ message ++ closing

/-- An annotation after text in which no marker can begin is the first one. -/
theorem AnnotationAt.annotation_append {opening : List Char} (hopening : '<' ∉ opening)
    (h : AnnotationAt rest rule message) : Annotation (opening ++ rest) rule message := by
  refine ⟨opening, rest, rfl, h, fun front' rest' heq hlt rule' message' hat => hopening ?_⟩
  obtain ⟨blanks, tail, hmarker, -⟩ := hat
  obtain ⟨more, hfront, -⟩ | ⟨between, hbetween, hrest⟩ := List.append_eq_append_iff.1 heq
  · rw [hfront, List.length_append] at hlt
    omega
  · cases between with
    | nil => simp [hbetween] at hlt
    | cons c between =>
      -- the marker would begin with a character of the opening
      rw [hrest] at hmarker
      rw [hbetween, (List.cons.inj hmarker).1]
      exact List.mem_append_right front' List.mem_cons_self

theorem messageIn_comment {closing message : String} (hmessage : IsMessage message)
    (hclosing : closing = "" ∨ closing = " */") :
    MessageIn (' ' :: (message.toList ++ closing.toList)) (some message) := by
  obtain ⟨hne, htrimmed, -, hclose⟩ := hmessage
  have hsome : some message = if message.toList = [] then none
      else some (String.ofList message.toList) := by
    rw [if_neg hne, String.ofList_toList]
  rcases hclosing with rfl | rfl
  · exact ⟨[' '], message.toList, [], [], [], by simp, List.all_eq_true.1 (by decide), htrimmed,
      .inr ⟨rfl, hclose⟩, hsome⟩
  · exact ⟨[' '], message.toList, [' '], "*/".toList, [], by simp, List.all_eq_true.1 (by decide),
      htrimmed, .inl rfl, hsome⟩

theorem annotation_comment {opening closing message : String} (hopening : '<' ∉ opening.toList)
    (hclosing : closing = "" ∨ closing = " */") (hrule : IsName rule)
    (hmessage : IsMessage message) :
    Annotation (comment opening closing rule message).toList rule (some message) := by
  have hcut : (comment opening closing rule message).toList = opening.toList ++
      ("<expect-error>".toList ++ [' '] ++ rule.toList ++
        ':' :: ' ' :: (message.toList ++ closing.toList)) := by
    simp [comment]
  rw [hcut]
  refine AnnotationAt.annotation_append hopening
    ⟨[' '], _, rfl, by simp, List.all_eq_true.1 (by decide), hrule, ?_,
      .inl ⟨[], _, rfl, by simp, ?_⟩⟩
  · rintro c ⟨⟩
    rw [← isRuleChar_eq_false_iff]
    decide +kernel
  · exact messageIn_comment hmessage hclosing

theorem lines_ofList (hne : line ≠ []) (h : '\n' ∉ line) : lines (String.ofList line) = [line] := by
  rw [lines_eq, physicalLines, String.toList_ofList, splitOn_eq_singleton h, linesOf,
    if_neg (by simpa using hne)]

/-- A comment that holds an annotation is read as this annotation. -/
theorem parse_comment {opening closing message : String} (hopening : '<' ∉ opening.toList)
    (hline : '\n' ∉ opening.toList) (hclosing : closing = "" ∨ closing = " */")
    (hrule : IsName rule) (hmessage : IsMessage message) :
    parse (comment opening closing rule message) = [⟨2, rule, some message⟩] := by
  have hread := ofLine?_eq_some_iff.2 (annotation_comment hopening hclosing hrule hmessage)
  have hnewline : '\n' ∉ (comment opening closing rule message).toList := by
    have hname : '\n' ∉ rule.toList := fun hmem =>
      absurd (isRuleChar_iff.2 (hrule.2 _ hmem)) (by decide +kernel)
    have hend : '\n' ∉ closing.toList := by rcases hclosing with rfl | rfl <;> decide
    simp [comment, hline, hname, hmessage.2.2.1, hend]
  have hne : (comment opening closing rule message).toList ≠ [] := by simp [comment]
  have hlines := lines_ofList hne hnewline
  rw [String.ofList_toList] at hlines
  rw [parse, hlines, parseFrom, hread]
  rfl

/-- An annotation is what the grammar says. The lines that are spoken of increase, and one is exactly
if the line before it has an annotation, which gives the rule and the message; the first annotation
of a line may be taken from the grammar or from the pattern, and there is one only. A rule and a
message that are written in a comment are read from it. -/
theorem parse_exact (source : String) :
    LinesIncrease (parse source) ∧
    (∀ e, e ∈ parse source ↔
      ∃ n line, LineAt source n line ∧ Annotation line e.rule e.message ∧ e.line = n + 1) ∧
    (∀ e, e ∈ parse source ↔
      ∃ n line groups, LineAt source n line ∧ annotationPattern.find? line = some groups ∧
        readGroups groups = (e.rule, e.message) ∧ e.line = n + 1) ∧
    (∀ line rule message rule' message', Annotation line rule message →
      Annotation line rule' message' → rule = rule' ∧ message = message') ∧
    ∀ rule message, IsName rule → IsMessage message →
      parse (comment "// " "" rule message) = [⟨2, rule, some message⟩] ∧
      parse (comment "/* " " */" rule message) = [⟨2, rule, some message⟩] := by
  refine ⟨linesIncrease_parse source, fun e => mem_parse_iff, fun e => ?_, ?_, ?_⟩
  · rw [mem_parse_iff]
    refine exists_congr fun n => exists_congr fun line => ?_
    rw [exists_and_left]
    refine and_congr_right fun hline => ?_
    rw [annotation_iff_find? (newline_notMem_of_lineAt hline)]
    simp only [← and_assoc, exists_and_right]
  · intro line rule message rule' message' h h'
    rw [← ofLine?_eq_some_iff] at h h'
    exact Prod.mk.inj (Option.some.inj (h.symm.trans h'))
  · intro rule message hrule hmessage
    exact ⟨parse_comment (by decide) (by decide) (.inl rfl) hrule hmessage,
      parse_comment (by decide) (by decide) (.inr rfl) hrule hmessage⟩

/-- A marker before the annotation that counts, a marker without a blank after it, and an annotation
without a message. -/
def mixedAnnotations : String :=
  "x(); /* <expect-error> a <expect-error>\tsql-injection : at: b */ c */\n" ++
    "// <expect-error>: none\n/* <expect-error> \u00e9t\u00e9_1 */"

theorem parse_exact_mixed :
    parse mixedAnnotations =
      [⟨2, "sql-injection", some "at: b */ c"⟩, ⟨4, "\u00e9t\u00e9_1", none⟩] ∧
    (∃ n line, LineAt mixedAnnotations n line ∧
      Annotation line "sql-injection" (some "at: b */ c") ∧ 2 = n + 1 ∧
      ∀ rule message, Annotation line rule message →
        "sql-injection" = rule ∧ some "at: b */ c" = message) ∧
    (∃ n line groups, LineAt mixedAnnotations n line ∧
      annotationPattern.find? line = some groups ∧
      readGroups groups = ("\u00e9t\u00e9_1", none) ∧ 4 = n + 1) ∧
    IsName "sql-injection" ∧ IsMessage "at: b */ c <expect-error> d" ∧
    parse (comment "/* " " */" "sql-injection" "at: b */ c <expect-error> d") =
      [⟨2, "sql-injection", some "at: b */ c <expect-error> d"⟩] := by
  have hparse : parse mixedAnnotations =
      [⟨2, "sql-injection", some "at: b */ c"⟩, ⟨4, "\u00e9t\u00e9_1", none⟩] := by
    decide +kernel
  obtain ⟨-, hgrammar, hpattern, hone, hcomment⟩ := parse_exact mixedAnnotations
  have hname : IsName "sql-injection" := by
    refine ⟨by decide, fun c hc => isRuleChar_iff.1 ?_⟩
    have hall : "sql-injection".toList.all isRuleChar = true := by decide +kernel
    exact List.all_eq_true.1 hall c hc
  have hmessage : IsMessage "at: b */ c <expect-error> d" := by
    refine ⟨by decide, ⟨?_, ?_⟩, by decide, by decide⟩ <;>
    · rintro c ⟨⟩
      decide
  obtain ⟨n, line, hline, hat, hn⟩ :=
    (hgrammar ⟨2, "sql-injection", some "at: b */ c"⟩).1 (by simp [hparse])
  refine ⟨hparse, ⟨n, line, hline, hat, hn, fun rule message => hone line _ _ rule message hat⟩,
    ?_, hname, hmessage, (hcomment _ _ hname hmessage).2⟩
  exact (hpattern ⟨4, "\u00e9t\u00e9_1", none⟩).1 (by simp [hparse])

end Comment

end InjectionScan.Expectation
