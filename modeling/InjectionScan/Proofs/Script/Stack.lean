import InjectionScan.Proofs.Script.Lexeme
import InjectionScan.Proofs.Syntax.Nesting

/-! The finished nodes of a parser stand in a row up to the cursor. -/
namespace InjectionScan.Script

open InjectionScan.Syntax InjectionScan.Syntax.Node InjectionScan.Text

/-- The finished nodes stand in a row up to the cursor, in a text of that many bytes. -/
structure State.Sound (size : Nat) (s : State) : Prop where
  height_eq : s.height = s.nodes.length
  end_eq : s.cursor.offset + byteLength s.cursor.rest = size
  row : Row 0 s.nodes.reverse s.cursor.offset

/-- The state in which a parser ends, done or stuck. -/
def Outcome.state {α : Type} : Outcome α → State
  | .done _ s => s
  | .stuck s => s

/-- Started where something is known of the state, the parser leaves the stack sound. -/
def KeepsWhere (P : State → Prop) {α : Type} (p : Parser α) : Prop :=
  ∀ ⦃size s⦄, s.Sound size → P s → (p s).state.Sound size

/-- Started at the cursor, the parser leaves the stack sound. -/
class Keeps (c : Cursor) {α : Type} (p : Parser α) : Prop where
  sound : KeepsWhere (fun s => s.cursor = c) p

variable {α β : Type} {c d : Cursor} {p q : Parser α} {f : α → Parser β} {size low high base : Nat}
  {s t : State} {k : Kind} {n : Node} {ns : List Node}

theorem Parser.bind_eq_of_done {a : α} (h : p s = .done a t) : (p >>= f) s = f a t := by
  change (match p s with
    | .done a t => f a t
    | .stuck t => .stuck t) = f a t
  rw [h]

theorem Parser.bind_eq_of_stuck (h : p s = .stuck t) : (p >>= f) s = .stuck t := by
  change (match p s with
    | .done a t => f a t
    | .stuck t => .stuck t) = .stuck t
  rw [h]

theorem Parser.exists_of_bind_eq_done {b : β} (h : (p >>= f) s = .done b t) :
    ∃ a u, p s = .done a u ∧ f a u = .done b t := by
  cases hp : p s with
  | done a u => exact ⟨a, u, rfl, (bind_eq_of_done hp).symm.trans h⟩
  | stuck u => cases (bind_eq_of_stuck hp).symm.trans h

theorem Parser.eq_of_lookAhead {o : Option α} (h : lookAhead p s = .done o t) : t = s := by
  unfold lookAhead at h
  cases hp : p s with
  | done a u =>
    rw [hp] at h
    cases h
    rfl
  | stuck u =>
    rw [hp] at h
    cases h
    rfl

theorem Keeps.sound_of_done {a : α} [hp : Keeps s.cursor p] (hs : s.Sound size)
    (h : p s = .done a t) : t.Sound size := by
  have hsound := hp.sound hs rfl
  rw [h] at hsound
  exact hsound

namespace KeepsWhere

variable {P Q : State → Prop}

theorem of_keeps (h : ∀ d, Keeps d p) : KeepsWhere P p :=
  fun _ s hs _ => (h s.cursor).sound hs rfl

/-- What is known after the first part is of use to the second. -/
theorem bind (hp : KeepsWhere P p)
    (hpost : ∀ {size s a t}, s.Sound size → P s → p s = .done a t → Q t)
    (hf : ∀ a, KeepsWhere Q (f a)) : KeepsWhere P (p >>= f) := by
  intro size s hs hP
  have hfirst := hp hs hP
  cases h : p s with
  | done a t =>
    rw [h] at hfirst
    rw [Parser.bind_eq_of_done h]
    exact hf a hfirst (hpost hs hP h)
  | stuck t =>
    rw [h] at hfirst
    rw [Parser.bind_eq_of_stuck h]
    exact hfirst

theorem andThen (hp : KeepsWhere P p) (hf : ∀ a d, Keeps d (f a)) : KeepsWhere P (p >>= f) :=
  hp.bind (Q := fun _ => True) (fun _ _ _ => trivial) fun a => of_keeps (hf a)

end KeepsWhere

/-- A repetition keeps what each of its rounds keeps. -/
theorem loop_invariant {P : State → Prop} {step : Parser Bool} (h : ∀ s, P s → P (step s).state)
    (hs : P s) : P (Parser.loop step s).state := by
  have hrun : ∀ n s, P s → P (Parser.loop.run step n s).state := by
    intro n
    induction n with
    | zero =>
      intro s hs
      exact hs
    | succ n ih =>
      intro s hs
      have hstep := h s hs
      rw [Parser.loop.run]
      cases hround : step s with
      | done more t =>
        rw [hround] at hstep
        cases more with
        | true => exact ih t hstep
        | false => exact hstep
      | stuck t =>
        rw [hround] at hstep
        exact hstep
  exact hrun s.limit s hs

/-! ### Parsers put together -/

namespace Keeps

/-- A parser that changes neither the cursor nor the stack. -/
theorem of_state_eq (h : ∀ s, (p s).state = s) : Keeps c p where
  sound _ _ hs _ := (h _).symm ▸ hs

theorem andThen (hp : Keeps c p) (hf : ∀ a d, Keeps d (f a)) : Keeps c (p >>= f) :=
  ⟨hp.sound.andThen hf⟩

/-- What comes after a part that is known to keep the stack sound. -/
theorem after [hp : Keeps c p] (hf : ∀ a d, Keeps d (f a)) : Keeps c (p >>= f) := hp.andThen hf

instance [Keeps c p] [hf : ∀ a d, Keeps d (f a)] : Keeps c (p >>= f) := after hf

/-- What follows a look at the cursor starts there. -/
theorem atCursor {f : Cursor → Parser β} (h : Keeps c (f c)) : Keeps c (Parser.cursor >>= f) where
  sound size s hs hc := by
    subst hc
    exact h.sound hs rfl

instance {f : Cursor → Parser β} [h : Keeps c (f c)] : Keeps c (Parser.cursor >>= f) := atCursor h

instance (a : α) : Keeps c (pure a : Parser α) := of_state_eq fun _ => rfl

instance : Keeps c (Parser.fail : Parser α) := of_state_eq fun _ => rfl

/-- After a failure nothing follows. -/
instance : Keeps c (Parser.fail >>= f) := of_state_eq fun _ => rfl

instance {t : Prop} [Decidable t] [Keeps c p] [Keeps c q] : Keeps c (if t then p else q) := by
  split <;> assumption

instance (b : Bool) : Keeps c (Parser.guard b) := by
  unfold Parser.guard
  infer_instance

theorem orElse (hp : Keeps c p) (hq : Keeps c q) : Keeps c (Parser.orElse p q) where
  sound size s hs hc := by
    have hfirst := hp.sound hs hc
    unfold Parser.orElse
    cases h : p s with
    | done a t =>
      rw [h] at hfirst
      exact hfirst
    | stuck t => exact hq.sound hs hc

instance [hp : Keeps c p] [hq : Keeps c q] : Keeps c (Parser.orElse p q) := hp.orElse hq

instance : Keeps c (Parser.lookAhead p) := by
  refine of_state_eq fun s => ?_
  unfold Parser.lookAhead
  cases p s <;> rfl

instance [hp : Keeps c p] : Keeps c (Parser.strictly p) where
  sound size s hs hc := by
    have hstrict : ({ s with repairing := false } : State).Sound size := ⟨hs.1, hs.2, hs.3⟩
    have hfirst := hp.sound hstrict hc
    unfold Parser.strictly
    cases h : p { s with repairing := false } with
    | done a t =>
      rw [h] at hfirst
      exact ⟨hfirst.1, hfirst.2, hfirst.3⟩
    | stuck t =>
      rw [h] at hfirst
      exact ⟨hfirst.1, hfirst.2, hfirst.3⟩

theorem repeated {step : Parser Bool} (h : ∀ d, Keeps d step) : Keeps c (Parser.loop step) where
  sound size _ hs _ := loop_invariant (P := State.Sound size) (fun s hs => (h s.cursor).sound hs rfl) hs

instance {step : Parser Bool} [h : ∀ d, Keeps d step] : Keeps c (Parser.loop step) := repeated h

instance : Keeps c Parser.height := of_state_eq fun _ => rfl

instance : Keeps c Parser.isRepairing := of_state_eq fun _ => rfl

instance : Keeps c (Parser.nodeAt? base) := of_state_eq fun _ => rfl

/-! ### Leaves -/

theorem leaf (h : c.Reaches d) : Keeps c (Parser.leaf k d) where
  sound size s hs hc := by
    subst hc
    refine ⟨congrArg (· + 1) hs.height_eq, h.end_eq.trans hs.end_eq, ?_⟩
    have hleaf : (Node.node k none s.cursor.offset d.offset []).Nested := nested_iff_row.2 h.offset_le
    change Row 0 (List.reverse (_ :: s.nodes)) d.offset
    rw [List.reverse_cons]
    exact hs.row.append (Row.singleton_iff.2 ⟨Nat.le_refl _, hleaf, Nat.le_refl _⟩)

theorem afterLeaf {f : Unit → Parser β} [hf : ∀ a d, Keeps d (f a)] (h : c.Reaches d) :
    Keeps c (Parser.leaf k d >>= f) :=
  (leaf h).andThen hf

/-- What follows a move of the cursor starts where it moved to. -/
theorem moveTo {f : Unit → Parser β} (h : c.Reaches d) (hf : Keeps d (f ())) :
    Keeps c (Parser.setCursor d >>= f) where
  sound size s hs hc := by
    subst hc
    have hmoved : ({ s with cursor := d } : State).Sound size :=
      ⟨hs.height_eq, h.end_eq.trans hs.end_eq, hs.row.mono (Nat.le_refl _) h.offset_le⟩
    exact hf.sound hmoved rfl

end Keeps

namespace Parser

instance skipGap_keeps (markup : Bool) : Keeps c (skipGap markup) := by
  unfold skipGap
  refine .repeated fun c => .atCursor ?_
  refine .moveTo (Cursor.skipWhile_reaches _ c) ?_
  split
  · next stop hstop => exact .afterLeaf (Cursor.comment?_leads _ stop hstop)
  · split
    · next stop hstop =>
      split at hstop
      · exact .afterLeaf (Cursor.htmlComment?_leads _ stop hstop)
      · cases hstop
    · infer_instance

instance skip_keeps : Keeps c skip := skipGap_keeps false

instance start_keeps : Keeps c start := by
  unfold start
  infer_instance

instance statementEnds_keeps (comments : Bool) : Keeps c (statementEnds comments) where
  sound size s hs _ := by
    have hrun : ∀ n s, s.Sound size → (statementEnds.run comments n s).state.Sound size := by
      intro n
      induction n with
      | zero =>
        intro s hs
        exact hs
      | succ n ih =>
        intro s hs
        rw [statementEnds.run]
        split
        · exact hs
        · dsimp only
          split
          · next stop hstop =>
            have hread := (Cursor.skipWhile_reaches isSpace s.cursor)
            have hleaf := (Keeps.moveTo (f := fun _ => leaf (.rule .comment) stop) hread
              (Keeps.leaf (Cursor.comment?_leads _ stop hstop))).sound hs rfl
            exact ih _ hleaf
          · exact hs
    exact hrun s.limit s hs

instance mark?_keeps : Keeps c mark? := by
  unfold mark?
  infer_instance

instance peekMark_keeps : Keeps c peekMark := by
  unfold peekMark
  infer_instance

instance peekWord_keeps : Keeps c peekWord := by
  unfold peekWord
  infer_instance

instance exactly_keeps (text : String) : Keeps c (exactly text) := by
  unfold exactly
  refine .atCursor ?_
  split
  · next stop hstop => exact .leaf (Cursor.lit?_leads text c stop hstop)
  · infer_instance

instance token_keeps (text : String) : Keeps c (token text) := by
  unfold token
  infer_instance

instance token?_keeps (text : String) : Keeps c (token? text) := by
  unfold token?
  infer_instance

instance keyword_keeps (text : String) : Keeps c (keyword text) := by
  unfold keyword
  infer_instance

instance keyword?_keeps (text : String) : Keeps c (keyword? text) := by
  unfold keyword?
  infer_instance

instance name_keeps (r : Rule) : Keeps c (name r) := by
  unfold name
  refine .after fun _ c => .atCursor ?_
  split
  · next stop hstop => exact .leaf (Cursor.name?_leads c stop hstop)
  · infer_instance

/-! ### Closing a rule -/

/-- The parts that are taken off the stack stand between the nodes below the height and the comments
that stay on top. -/
theorem exists_takeFrom_eq (hs : s.height = s.nodes.length) (base : Nat) :
    ∃ comments parts below, s.nodes = comments ++ (parts.reverse ++ below) ∧
      (∀ n ∈ comments, n.isComment = true) ∧ (comments ++ below).length - base = comments.length ∧
      takeFrom base s =
        .done parts { s with nodes := comments ++ below, height := (comments ++ below).length } := by
  obtain ⟨above, habove⟩ : ∃ above, s.nodes.take (s.height - base) = above := ⟨_, rfl⟩
  have hsplit : above ++ s.nodes.drop (s.height - base) = s.nodes := by
    rw [← habove, List.take_append_drop]
  have htaken : above.takeWhile Node.isComment ++
      above.drop (above.takeWhile Node.isComment).length = above :=
    List.prefix_iff_eq_append.1 (List.takeWhile_prefix _)
  have hlength := congrArg List.length htaken
  have hall := congrArg List.length hsplit
  have hbelow := List.length_drop (i := s.height - base) (l := s.nodes)
  rw [List.length_append] at hlength hall
  refine ⟨above.takeWhile Node.isComment, (above.drop (above.takeWhile Node.isComment).length).reverse,
    s.nodes.drop (s.height - base), ?_, List.all_eq_true.1 List.all_takeWhile, ?_, ?_⟩
  · rw [List.reverse_reverse, ← List.append_assoc, htaken, hsplit]
  · rw [List.length_append]
    omega
  · have hheight : s.height - (above.drop (above.takeWhile Node.isComment).length).length =
        (above.takeWhile Node.isComment ++ s.nodes.drop (s.height - base)).length := by
      rw [List.length_append]
      omega
    rw [← hheight, ← habove]
    rfl

/-- A node that fits between the nodes below a height and the comments above it. -/
theorem sound_insertAt (hheight : s.height = s.nodes.length)
    (hend : s.cursor.offset + byteLength s.cursor.rest = size)
    (hbelow : Row 0 (s.nodes.drop (s.height - base)).reverse low) (hn : Row low [n] high)
    (habove : Row high (s.nodes.take (s.height - base)).reverse s.cursor.offset) :
    (insertAt base n s).state.Sound size := by
  refine ⟨?_, hend, ?_⟩
  · have hsplit := congrArg List.length (List.take_append_drop (s.height - base) s.nodes)
    rw [List.length_append] at hsplit
    simp only [insertAt, Outcome.state, List.length_append, List.length_cons]
    omega
  · simp only [insertAt, Outcome.state, List.reverse_append, List.reverse_cons, List.append_assoc]
    exact hbelow.append (hn.append habove)

theorem sound_push (hs : s.Sound size) (hn : n.Nested) (hstart : s.cursor.offset ≤ n.start)
    (hstop : n.stop ≤ s.cursor.offset) : (push n s).state.Sound size := by
  refine ⟨congrArg (· + 1) hs.height_eq, hs.end_eq, ?_⟩
  change Row 0 (n :: s.nodes).reverse s.cursor.offset
  rw [List.reverse_cons]
  exact hs.row.append (Row.singleton_iff.2 ⟨hstart, hn, hstop⟩)

/-- A rule that keeps its parts in a row, whatever it does to them, can be closed anywhere. -/
theorem closeWith_keeps {arrange : List Node → List Node}
    (h : ∀ {low high parts}, Row low parts high → Row low (arrange parts) high) :
    Keeps c (closeWith k base arrange) where
  sound size s hs _ := by
    obtain ⟨comments, parts, below, hnodes, -, hheight, htake⟩ := exists_takeFrom_eq hs.height_eq base
    have hrow := hs.row
    rw [hnodes, List.reverse_append, List.reverse_append, List.reverse_reverse, List.append_assoc,
      Row.append_iff] at hrow
    obtain ⟨low, hbelow, hrow⟩ := hrow
    obtain ⟨high, hparts, hcomments⟩ := Row.append_iff.1 hrow
    unfold closeWith
    rw [bind_eq_of_done htake]
    have hempty : ({ s with
        nodes := comments ++ below, height := (comments ++ below).length } : State).Sound size := by
      refine ⟨rfl, hs.end_eq, ?_⟩
      rw [List.reverse_append]
      exact hbelow.append (hcomments.mono hparts.low_le_high (Nat.le_refl _))
    have hpoint := sound_push (n := .node k none s.cursor.offset s.cursor.offset []) hempty
      (nested_iff_row.2 (Nat.le_refl _)) (Nat.le_refl _) (Nat.le_refl _)
    cases hfirst : parts.head? with
    | none => exact hpoint
    | some first =>
      cases hlast : parts.getLast? with
      | none => exact hpoint
      | some last =>
        obtain ⟨hrow, hlow, hhigh⟩ := hparts.shrink hfirst hlast
        have hnode : (Node.node k none first.start last.stop (arrange parts)).Nested :=
          nested_iff_row.2 (h hrow)
        refine sound_insertAt rfl hs.end_eq ?_ (Row.singleton_iff.2 ⟨hlow, hnode, hhigh⟩) ?_
        · rw [hheight, List.drop_left]
          exact hbelow
        · rw [hheight, List.take_left]
          exact hcomments

instance close_keeps (r : Rule) : Keeps c (close r base) := closeWith_keeps id

theorem labelFirst_replaces (role : Role) (ns : List Node) :
    List.Forall₂ Replaces (labelFirst role ns) ns := by
  cases ns with
  | nil => exact .nil
  | cons n ns => exact .cons (withRole_replaces _ n) (List.forall₂_same.2 fun m _ => .refl m)

theorem labelLast_replaces (last : Role) (ns : List Node) :
    List.Forall₂ Replaces (labelEnds.labelLast last ns) ns := by
  fun_induction labelEnds.labelLast last ns with
  | case1 => exact .nil
  | case2 n => exact .cons (withRole_replaces _ n) .nil
  | case3 n ns _ ih => exact .cons (.refl n) ih

theorem labelEnds_replaces (first last : Role) (ns : List Node) :
    List.Forall₂ Replaces (labelEnds first last ns) ns := by
  cases ns with
  | nil => exact .nil
  | cons n ns => exact .cons (withRole_replaces _ n) (labelLast_replaces last ns)

instance closeWith_labelFirst_keeps (role : Role) : Keeps c (closeWith k base (labelFirst role)) :=
  closeWith_keeps (Row.replace (labelFirst_replaces role _))

instance closeWith_labelEnds_keeps (first last : Role) :
    Keeps c (closeWith k base (labelEnds first last)) :=
  closeWith_keeps (Row.replace (labelEnds_replaces first last _))

/-! ### Changing a node -/

theorem modify_replaces {i : Nat} {g : Node → Node} (h : ∀ n, ns[i]? = some n → (g n).Replaces n) :
    List.Forall₂ Replaces (ns.modify i g) ns := by
  induction ns generalizing i with
  | nil => exact List.forall₂_nil_right_iff.2 (List.modify_nil g i)
  | cons n ns ih =>
    cases i with
    | zero => exact .cons (h n rfl) (List.forall₂_same.2 fun m _ => .refl m)
    | succ i => exact .cons (.refl n) (ih h)

theorem sound_modifyAt {g : Node → Node} (hs : s.Sound size)
    (h : ∀ n, s.nodes[s.height - 1 - base]? = some n → (g n).Replaces n) :
    (modifyAt base g s).state.Sound size := by
  refine ⟨hs.height_eq.trans (List.length_modify ..).symm, hs.end_eq, ?_⟩
  exact Row.replace (List.forall₂_reverse_iff.2 (modify_replaces h)) hs.row

instance modifyAt_withKind_keeps (k : Kind) : Keeps c (modifyAt base (Node.withKind k)) where
  sound _ _ hs _ := sound_modifyAt hs fun n _ => withKind_replaces k n

end Parser

/-! ### The node at a height -/

/-- That node stands at the height. -/
def State.HasAt (base : Nat) (n : Node) (s : State) : Prop :=
  base < s.height ∧ s.nodes[s.height - 1 - base]? = some n

theorem State.HasAt.leaf (h : s.HasAt base n) : (Parser.leaf k d s).state.HasAt base n := by
  obtain ⟨hlt, hn⟩ := h
  refine ⟨Nat.lt_succ_of_lt hlt, ?_⟩
  have hindex : s.height + 1 - 1 - base = (s.height - 1 - base) + 1 := by omega
  change (_ :: s.nodes)[s.height + 1 - 1 - base]? = some n
  rw [hindex, List.getElem?_cons_succ, hn]

/-- Comments are put on top, so nodes stay at their heights. -/
theorem State.HasAt.skipGap (markup : Bool) (h : s.HasAt base n) :
    (Parser.skipGap markup s).state.HasAt base n := by
  unfold Parser.skipGap
  refine loop_invariant (fun s hs => ?_) h
  have hmoved : ({ s with cursor := s.cursor.skipWhile isSpace } : State).HasAt base n := hs
  rw [Parser.bind_eq_of_done (show Parser.cursor s = .done s.cursor s from rfl)]
  rw [Parser.bind_eq_of_done
    (show Parser.setCursor _ s = .done () { s with cursor := s.cursor.skipWhile isSpace } from rfl)]
  cases (s.cursor.skipWhile isSpace).comment? with
  | some stop => exact hmoved.leaf
  | none =>
    cases (if markup = true then (s.cursor.skipWhile isSpace).htmlComment? else none) with
    | some stop => exact hmoved.leaf
    | none => exact hmoved

namespace KeepsWhere

theorem afterMark {f : Option String → Parser β}
    (hf : ∀ mark, KeepsWhere (State.HasAt base n) (f mark)) :
    KeepsWhere (State.HasAt base n) (Parser.peekMark >>= f) := by
  refine bind (of_keeps fun _ => inferInstance) (fun {size s mark t} _ hn h => ?_) hf
  have hskip := hn.skipGap false
  unfold Parser.peekMark Parser.skip at h
  cases hgap : Parser.skipGap false s with
  | done a u =>
    rw [hgap] at hskip
    rw [Parser.bind_eq_of_done hgap] at h
    cases h
    exact hskip
  | stuck u =>
    rw [Parser.bind_eq_of_stuck hgap] at h
    cases h

/-- What follows a look at the node at a height knows that node. -/
theorem atNode {f : Option Node → Parser β} (hnone : Keeps c (f none))
    (hsome : ∀ n, KeepsWhere (State.HasAt base n) (f (some n))) :
    Keeps c (Parser.nodeAt? base >>= f) where
  sound size s hs hc := by
    rw [Parser.bind_eq_of_done (show Parser.nodeAt? base s = .done _ s from rfl)]
    split
    · next hlt =>
      cases hn : s.nodes[s.height - 1 - base]? with
      | none => exact hnone.sound hs hc
      | some n => exact hsome n hs ⟨hlt, hn⟩
    · exact hnone.sound hs hc

theorem replaceAt {m : Node} (h : m.Replaces n) :
    KeepsWhere (State.HasAt base n) (Parser.modifyAt base fun _ => m) := by
  intro size s hs hn
  refine Parser.sound_modifyAt hs fun n' hn' => ?_
  obtain rfl : n = n' := Option.some.inj (hn.2.symm.trans hn')
  exact h

end KeepsWhere

/-! ### The top of the stack -/

/-- No comment stands on top of the stack. -/
def State.Solid (s : State) : Prop := ∀ n ∈ s.nodes.head?, n.isComment = false

namespace Parser

theorem solid_of_leaf {a : Unit} (hk : k.isComment = false) (h : leaf k d s = .done a t) : t.Solid := by
  cases h
  rintro n ⟨⟩
  exact hk

theorem solid_of_exactly {text : String} {a : Unit} (h : exactly text s = .done a t) : t.Solid := by
  unfold exactly at h
  rw [bind_eq_of_done (show cursor s = .done s.cursor s from rfl)] at h
  cases hlit : s.cursor.lit? text with
  | none =>
    rw [hlit] at h
    cases h
  | some stop =>
    rw [hlit] at h
    exact solid_of_leaf rfl h

end Parser

/-- The state that is left when parts were taken off the stack, down to a height. -/
structure State.Lacks (size base low : Nat) (parts : List Node) (s : State) : Prop where
  height_eq : s.height = s.nodes.length
  end_eq : s.cursor.offset + byteLength s.cursor.rest = size
  height_le : s.height ≤ base
  below : Row 0 s.nodes.reverse low
  parts_row : Row low parts s.cursor.offset

namespace State.Lacks

variable {parts : List Node}

/-- Other nodes can be put where the parts stood. -/
theorem sound_put (h : s.Lacks size base low parts) (hns : Row low ns s.cursor.offset) :
    ({ s with nodes := ns.reverse ++ s.nodes, height := s.height + ns.length } : State).Sound size := by
  refine ⟨?_, h.end_eq, ?_⟩
  · rw [List.length_append, List.length_reverse, Nat.add_comm]
    exact congrArg (ns.length + ·) h.height_eq
  · rw [List.reverse_append, List.reverse_reverse]
    exact h.below.append hns

theorem sound (h : s.Lacks size base low parts) : s.Sound size :=
  ⟨h.height_eq, h.end_eq, h.below.mono (Nat.le_refl _) h.parts_row.low_le_high⟩

theorem insertAt_eq (h : s.Lacks size base low parts) (n : Node) :
    Parser.insertAt base n s = .done () { s with nodes := n :: s.nodes, height := s.height + 1 } := by
  unfold Parser.insertAt
  rw [Nat.sub_eq_zero_of_le h.height_le]
  rfl

theorem sound_insertAt (h : s.Lacks size base low parts) (hn : Row low [n] s.cursor.offset) :
    (Parser.insertAt base n s).state.Sound size := by
  rw [h.insertAt_eq]
  exact h.sound_put hn

end State.Lacks

namespace Parser

/-- Under a solid top no comments stay on the stack when parts are taken off it. -/
theorem exists_takeFrom_eq_of_solid (hs : s.Sound size) (htop : s.Solid) (base : Nat) :
    ∃ parts u low, takeFrom base s = .done parts u ∧ u.Lacks size base low parts := by
  obtain ⟨comments, parts, below, hnodes, hcomments, hheight, htake⟩ :=
    exists_takeFrom_eq hs.height_eq base
  cases comments with
  | cons n comments =>
    have hsolid := htop n (by rw [hnodes]; rfl)
    rw [hcomments n List.mem_cons_self] at hsolid
    cases hsolid
  | nil =>
    have hrow := hs.row
    rw [hnodes, List.nil_append, List.reverse_append, List.reverse_reverse] at hrow
    obtain ⟨low, hbelow, hparts⟩ := Row.append_iff.1 hrow
    exact ⟨parts, _, low, htake, rfl, hs.end_eq, Nat.le_of_sub_eq_zero hheight, hbelow, hparts⟩

theorem solid_of_closeWith {arrange : List Node → List Node} {a : Unit} (hs : s.Sound size)
    (htop : s.Solid) (hk : k.isComment = false) (h : closeWith k base arrange s = .done a t) :
    t.Solid := by
  obtain ⟨parts, u, low, htake, hu⟩ := exists_takeFrom_eq_of_solid hs htop base
  unfold closeWith at h
  rw [bind_eq_of_done htake] at h
  cases hfirst : parts.head? with
  | none =>
    rw [hfirst] at h
    cases h
    rintro n ⟨⟩
    exact hk
  | some first =>
    cases hlast : parts.getLast? with
    | none =>
      rw [hfirst, hlast] at h
      cases h
      rintro n ⟨⟩
      exact hk
    | some last =>
      rw [hfirst, hlast] at h
      cases (hu.insertAt_eq _).symm.trans h
      rintro n ⟨⟩
      exact hk

end Parser

theorem KeepsWhere.afterTake {f : List Node → Parser β}
    (hf : ∀ {size low parts s}, s.Lacks size base low parts → (f parts s).state.Sound size) :
    KeepsWhere State.Solid (Parser.takeFrom base >>= f) := by
  intro size s hs htop
  obtain ⟨parts, u, low, htake, hu⟩ := Parser.exists_takeFrom_eq_of_solid hs htop base
  rw [Parser.bind_eq_of_done htake]
  exact hf hu

end InjectionScan.Script
