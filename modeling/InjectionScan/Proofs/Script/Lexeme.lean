import InjectionScan.Proofs.Text.PhysicalLine
import InjectionScan.Script.Markup

/-! Lexemes are read forwards. -/
namespace InjectionScan.Script.Cursor

open InjectionScan.Text (byteLength byteLength_cons)

variable {c d e : Cursor} {o o' : Option Cursor} {p : Char → Bool}

/-- The second cursor stands in the same text as the first, at the same place or further on. -/
structure Reaches (c d : Cursor) : Prop where
  offset_le : c.offset ≤ d.offset
  end_eq : d.offset + byteLength d.rest = c.offset + byteLength c.rest

/-- Where a reader gives a cursor, it stands further on. -/
def Leads (c : Cursor) (o : Option Cursor) : Prop := ∀ d, o = some d → c.Reaches d

theorem Reaches.refl (c : Cursor) : c.Reaches c := ⟨Nat.le_refl _, rfl⟩

theorem Reaches.trans (hd : c.Reaches d) (he : d.Reaches e) : c.Reaches e :=
  ⟨Nat.le_trans hd.offset_le he.offset_le, he.end_eq.trans hd.end_eq⟩

/-- The cursor behind the next character. -/
theorem reaches_tail (x : Char) (xs : List Char) (n : Nat) :
    Reaches ⟨x :: xs, n⟩ ⟨xs, n + x.utf8Size⟩ := by
  refine ⟨Nat.le_add_right _ _, ?_⟩
  simp only [byteLength_cons]
  omega

theorem Reaches.leads (h : c.Reaches d) (ho : d.Leads o) : c.Leads o :=
  fun e he => h.trans (ho e he)

namespace Leads

theorem none : c.Leads none := nofun

theorem some (h : c.Reaches d) : c.Leads (some d) := by
  rintro _ ⟨⟩
  exact h

theorem bind {f : Cursor → Option Cursor} (h : c.Leads o) (hf : ∀ d : Cursor, d.Leads (f d)) :
    c.Leads (o.bind f) := by
  intro e he
  obtain ⟨d, hd, he⟩ := Option.bind_eq_some_iff.1 he
  exact (h d hd).trans (hf d e he)

theorem map {f : Cursor → Cursor} (h : c.Leads o) (hf : ∀ d : Cursor, d.Reaches (f d)) :
    c.Leads (o.map f) := by
  intro e he
  obtain ⟨d, hd, rfl⟩ := Option.map_eq_some_iff.1 he
  exact (h d hd).trans (hf d)

theorem or (h : c.Leads o) (h' : c.Leads o') : c.Leads (o.or o') := by
  cases o with
  | none => simpa using h'
  | some d => simpa using h

/-- A part that may be missing. -/
theorem getD (h : c.Leads o) : c.Reaches (o.getD c) := by
  cases o with
  | none => exact .refl c
  | some d => exact h d rfl

theorem further (h : c.Leads o) (h' : c.Leads o') : c.Leads (Cursor.further o o') := by
  unfold Cursor.further
  split
  · split
    · exact h'
    · exact h
  · exact h
  · exact h'

theorem foldl_further {os : List (Option Cursor)} (h : c.Leads o) (hos : ∀ o' ∈ os, c.Leads o') :
    c.Leads (os.foldl Cursor.further o) := by
  induction os generalizing o with
  | nil => exact h
  | cons o' os ih =>
    refine ih (h.further (hos o' List.mem_cons_self)) ?_
    intro o'' ho
    exact hos o'' (List.mem_cons_of_mem _ ho)

end Leads

/-! ### Characters and fixed texts -/

theorem next?_reaches {x : Char} (h : c.next? = some (x, d)) : c.Reaches d := by
  obtain ⟨rest, offset⟩ := c
  cases rest with
  | nil => cases h
  | cons y ys =>
    cases h
    exact reaches_tail x ys offset

theorem one?_leads (c : Cursor) (p : Char → Bool) : c.Leads (c.one? p) := by
  obtain ⟨rest, offset⟩ := c
  cases rest with
  | nil => exact .none
  | cons x xs =>
    simp only [one?]
    split
    · exact .some (reaches_tail x xs offset)
    · exact .none

theorem skipWhile_reaches (p : Char → Bool) (c : Cursor) : c.Reaches (c.skipWhile p) := by
  have hrun : ∀ xs n, Reaches ⟨xs, n⟩ (skipWhile.run p xs n) := by
    intro xs
    induction xs with
    | nil =>
      intro n
      exact .refl _
    | cons x xs ih =>
      intro n
      rw [skipWhile.run]
      split
      · exact (reaches_tail x xs n).trans (ih _)
      · exact .refl _
  exact hrun c.rest c.offset

theorem lit?_leads (text : String) (c : Cursor) : c.Leads (c.lit? text) := by
  have hrun : ∀ ts xs n, Leads ⟨xs, n⟩ (lit?.run ts xs n) := by
    intro ts
    induction ts with
    | nil =>
      intro xs n
      exact .some (.refl _)
    | cons t ts ih =>
      intro xs n
      cases xs with
      | nil => exact .none
      | cons x xs =>
        rw [lit?.run]
        split
        · exact (reaches_tail x xs n).leads (ih _ _)
        · exact .none
  exact hrun text.toList c.rest c.offset

theorem upTo_reaches (n : Nat) (p : Char → Bool) (c : Cursor) : c.Reaches (c.upTo n p) := by
  fun_induction upTo n p c with
  | case1 c n x xs hrest hp ih =>
    obtain ⟨rest, offset⟩ := c
    obtain rfl : rest = x :: xs := hrest
    exact (reaches_tail x xs offset).trans ih
  | case2 => exact .refl _
  | case3 => exact .refl _

theorem hexDigits?_leads (n : Nat) (c : Cursor) : c.Leads (hexDigits? n c) := by
  induction n generalizing c with
  | zero => exact .some (.refl c)
  | succ n ih => exact (one?_leads c _).bind ih

theorem codePoint?_leads (c : Cursor) : c.Leads c.codePoint? := by
  refine (lit?_leads "u" c).bind fun c => ?_
  split
  · next inner hinner =>
    refine (lit?_leads _ c inner hinner).leads ?_
    exact (one?_leads inner _).bind fun d => (skipWhile_reaches _ d).leads (lit?_leads _ _)
  · exact hexDigits?_leads 4 c

/-! ### Names and numbers -/

theorem nameParts_reaches (xs : List Char) (n skip : Nat) :
    Reaches ⟨xs, n⟩ (nameParts xs n skip) := by
  fun_induction nameParts xs n skip with
  | case1 => exact .refl _
  | case2 x xs n skip ih => exact (reaches_tail x xs n).trans ih
  | case3 x xs n hpart ih => exact (reaches_tail x xs n).trans ih
  | case4 x xs n hpart hx e he ih =>
    obtain rfl : x = '\\' := by simpa using hx
    exact (reaches_tail _ xs n).trans ih
  | case5 => exact .refl _
  | case6 => exact .refl _

theorem name?_leads (c : Cursor) : c.Leads c.name? :=
  ((one?_leads c _).or ((lit?_leads _ c).bind codePoint?_leads)).map fun tail =>
    nameParts_reaches tail.rest tail.offset 0

theorem privateName?_leads (c : Cursor) : c.Leads c.privateName? :=
  (lit?_leads _ c).bind name?_leads

theorem digits?_leads (p : Char → Bool) (c : Cursor) : c.Leads (c.digits? p) := by
  have hrun : ∀ fuel c, Reaches c (digits?.run p c fuel) := by
    intro fuel
    induction fuel with
    | nil =>
      intro c
      exact .refl c
    | cons x fuel ih =>
      intro c
      rw [digits?.run]
      split
      · next d hd => exact (one?_leads c p d hd).trans (ih d)
      · split
        · next d hd =>
          have hunderscore : c.Leads ((c.lit? "_").bind (one? · p)) :=
            (lit?_leads _ c).bind fun d => one?_leads d p
          exact (hunderscore d hd).trans (ih d)
        · exact .refl c
  exact (one?_leads c p).map fun first => hrun first.rest first

theorem exponent?_leads (c : Cursor) : c.Leads c.exponent? := by
  refine (one?_leads c _).bind fun c => ?_
  split
  · next signed hsigned => exact (one?_leads c _ signed hsigned).leads (digits?_leads _ signed)
  · exact digits?_leads _ c

theorem based?_leads (lower upper : String) (p : Char → Bool) (c : Cursor) :
    c.Leads (c.based? lower upper p) :=
  ((lit?_leads lower c).or (lit?_leads upper c)).bind fun c =>
    (digits?_leads p c).bind fun c => .some (lit?_leads "n" c).getD

theorem wholePart?_leads (c : Cursor) : c.Leads c.wholePart? := by
  have hzero := lit?_leads "0" c
  refine Leads.or ?_ hzero
  refine (hzero.getD.leads (one?_leads _ _)).map fun first => ?_
  exact ((digits?_leads _ first).or ((lit?_leads _ first).bind (digits?_leads _))).getD

theorem number?_leads (c : Cursor) : c.Leads c.number? := by
  refine Leads.none.foldl_further ?_
  simp only [List.mem_cons, List.not_mem_nil, or_false]
  rintro o (rfl | rfl | rfl | rfl | rfl | rfl | rfl)
  · exact based?_leads _ _ _ c
  · exact based?_leads _ _ _ c
  · exact based?_leads _ _ _ c
  · exact (wholePart?_leads c).bind fun c => (lit?_leads _ c).bind fun c =>
      .some ((digits?_leads _ c).getD.trans (exponent?_leads _).getD)
  · exact (lit?_leads _ c).bind fun c => (digits?_leads _ c).bind fun c => .some (exponent?_leads c).getD
  · exact (wholePart?_leads c).bind exponent?_leads
  · exact (digits?_leads _ c).bind fun c => .some (lit?_leads _ c).getD

/-! ### Escapes, comments and running text -/

theorem escape?_leads (c : Cursor) : c.Leads c.escape? := by
  refine (lit?_leads _ c).bind fun c => Leads.none.foldl_further ?_
  simp only [List.mem_cons, List.not_mem_nil, or_false]
  rintro o (rfl | rfl | rfl | rfl | rfl)
  · exact (one?_leads c _).bind fun d => one?_leads d _
  · exact one?_leads c _
  · exact (one?_leads c _).map (upTo_reaches _ _)
  · exact (lit?_leads _ c).bind (hexDigits?_leads 2)
  · exact codePoint?_leads c

theorem comment?_leads (c : Cursor) : c.Leads c.comment? := by
  have hclose : ∀ xs n, Leads ⟨xs, n⟩ (comment?.close xs n) := by
    intro xs n
    fun_induction comment?.close xs n with
    | case1 xs n => exact .some ((reaches_tail '*' _ n).trans (reaches_tail '/' xs _))
    | case2 x xs n _ ih => exact (reaches_tail x xs n).leads ih
    | case3 => exact .none
  unfold comment?
  split
  · next body hbody => exact .some ((lit?_leads _ c body hbody).trans (skipWhile_reaches _ body))
  · split
    · next body hbody => exact (lit?_leads _ c body hbody).leads (hclose body.rest body.offset)
    · exact .none

theorem htmlComment?_leads (c : Cursor) : c.Leads c.htmlComment? :=
  ((lit?_leads _ c).or (lit?_leads _ c)).map (skipWhile_reaches _)

theorem templateChars_reaches (c : Cursor) : c.Reaches c.templateChars := by
  have hrun : ∀ xs n, Reaches ⟨xs, n⟩ (templateChars.run xs n) := by
    intro xs n
    fun_induction templateChars.run xs n with
    | case1 => exact .refl _
    | case2 => exact .refl _
    | case3 x xs n _ _ ih => exact (reaches_tail x xs n).trans ih
    | case4 => exact .refl _
  exact hrun c.rest c.offset

theorem regexPattern?_leads (c : Cursor) : c.Leads c.regexPattern? := by
  have hrun : ∀ xs n inClass, Leads ⟨xs, n⟩ (regexPattern?.run xs n inClass) := by
    intro xs n inClass
    fun_induction regexPattern?.run xs n inClass with
    | case1 => exact .none
    | case2 x xs n inClass _ ih =>
      exact ((reaches_tail '\\' _ n).trans (reaches_tail x xs _)).leads ih
    | case3 => exact .none
    | case4 x xs n _ _ ih => exact (reaches_tail x xs n).leads ih
    | case5 => exact .some (.refl _)
    | case6 x xs n inClass _ _ _ _ ih => exact (reaches_tail x xs n).leads ih
    | case7 => exact .none
  intro d hd
  obtain ⟨e, he, hd⟩ := Option.bind_eq_some_iff.1 hd
  split at hd
  · cases hd
  · cases hd
    exact hrun c.rest c.offset false d he

/-! ### Markup -/

theorem tagName?_leads (c : Cursor) : c.Leads c.tagName? := by
  refine Leads.further ?_ (name?_leads c)
  exact (one?_leads c _).bind fun d => (skipWhile_reaches _ d).leads
    ((lit?_leads _ _).bind fun c => .some (skipWhile_reaches _ c))

theorem characterReference?_leads (c : Cursor) : c.Leads c.characterReference? := by
  refine (lit?_leads _ c).bind fun c => Leads.bind ?_ (lit?_leads _)
  refine Leads.or ((one?_leads c _).map (upTo_reaches _ _)) (Leads.or ?_ ?_)
  · exact ((lit?_leads _ c).bind fun d => one?_leads d _).map (upTo_reaches _ _)
  · exact (((lit?_leads _ c).or (lit?_leads _ c)).bind fun d => one?_leads d _).map (upTo_reaches _ _)

theorem markupText_reaches (c : Cursor) : c.Reaches c.markupText.1 := by
  have hrun : ∀ xs n atBreak saw, Reaches ⟨xs, n⟩ (markupText.run xs n atBreak saw).1 := by
    intro xs n atBreak saw
    fun_induction markupText.run xs n atBreak saw with
    | case1 => exact .refl _
    | case2 => exact .refl _
    | case3 x xs n _ saw _ hx ih =>
      obtain rfl : x = '\n' := by simpa using hx
      exact (reaches_tail _ xs n).trans ih
    | case4 x xs n _ saw _ _ still ih => exact (reaches_tail x xs n).trans ih
  exact hrun c.rest c.offset false false

end InjectionScan.Script.Cursor
