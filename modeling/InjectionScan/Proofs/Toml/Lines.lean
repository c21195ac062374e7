import InjectionScan.Proofs.Document.Decoding
import InjectionScan.Proofs.Toml.Values

/-! A document is read line by line. -/
namespace InjectionScan.Toml

section Keys

variable {rest : List Char}

/-- Characters that a written key starts with. -/
def startsKey (c : Char) : Bool := isBareChar c || c == '"' || c == '\''

theorem exists_renderKey_eq_cons (s : String) :
    ∃ c cs, (renderKey s).toList = c :: cs ∧ startsKey c = true := by
  rw [renderKey]
  split
  · next h =>
    simp only [Bool.and_eq_true, Bool.not_eq_true', List.all_eq_true] at h
    obtain ⟨c, cs, hcs⟩ := List.exists_cons_of_ne_nil (show s.toList ≠ [] by simpa using h.1)
    exact ⟨c, cs, hcs, by simp [startsKey, h.2 c (by simp [hcs])]⟩
  · rw [String.toList_ofList]
    cases Quoting.ofKey s.toList with
    | basic => exact ⟨'"', _, rfl, by decide⟩
    | literal => exact ⟨'\'', _, rfl, by decide⟩
    | multilineBasic => exact ⟨'"', _, rfl, by decide⟩
    | multilineLiteral => exact ⟨'\'', _, rfl, by decide⟩

theorem ne_of_startsKey {c x : Char} (h : startsKey c = true) (hx : startsKey x = false) : c ≠ x := by
  rintro rfl
  rw [h] at hx
  cases hx

theorem isSpace_of_startsKey {c : Char} (h : startsKey c = true) : isSpace c = false := by
  simp [isSpace, ne_of_startsKey h (show startsKey ' ' = false by decide),
    ne_of_startsKey h (show startsKey '\t' = false by decide)]

theorem key?_renderKey (name : String) (rest : List Char) :
    key? ((renderKey name).toList ++ ' ' :: '=' :: rest) = some ([name], '=' :: rest) := by
  have hstop : ∀ c ∈ (' ' :: '=' :: rest).head?, isBareChar c = false := by simp [isBareChar]
  have hread := simpleKey?_renderKey name hstop
  obtain ⟨c, cs, hcs, hc⟩ := exists_renderKey_eq_cons name
  rw [hcs, List.cons_append] at hread ⊢
  have hskip : skipSpaces (' ' :: '=' :: rest) = '=' :: rest := rfl
  rw [key?, keyParts?, skipSpaces_cons (isSpace_of_startsKey hc), hread]
  simp [hskip, depthLimit]

/-- A name that is written as it is. -/
def IsBare (name : String) : Prop := name.toList ≠ [] ∧ ∀ c ∈ name.toList, isBareChar c = true

instance (name : String) : Decidable (IsBare name) :=
  decidable_of_iff (name.toList ≠ [] ∧ name.toList.all isBareChar = true)
    (by rw [IsBare, List.all_eq_true])

theorem IsBare.exists_eq_cons {name : String} (h : IsBare name) :
    ∃ c cs, name.toList = c :: cs ∧ startsKey c = true := by
  obtain ⟨c, cs, hcs⟩ := List.exists_cons_of_ne_nil h.1
  exact ⟨c, cs, hcs, by simp [startsKey, h.2 c (by simp [hcs])]⟩

theorem IsBare.simpleKey? {name : String} (h : IsBare name)
    (hstop : ∀ c ∈ rest.head?, isBareChar c = false) :
    Toml.simpleKey? (skipSpaces (name.toList ++ rest)) = some (name, rest) := by
  have hread := simpleKey?_bare h.1 h.2 hstop
  obtain ⟨c, cs, hcs, hc⟩ := h.exists_eq_cons
  rw [String.ofList_toList] at hread
  rw [hcs, List.cons_append] at hread ⊢
  rwa [skipSpaces_cons (isSpace_of_startsKey hc)]

/-- A path with dots between its names. -/
def dotted (path : List String) : List Char := ['.'].intercalate (path.map String.toList)

theorem keyParts?_dotted {fuel : Nat} {name : String} {names : List String}
    (hfuel : names.length < fuel) (h : ∀ x ∈ name :: names, IsBare x) (rest : List Char) :
    keyParts? fuel (dotted (name :: names) ++ ']' :: rest) = some (name :: names, ']' :: rest) := by
  induction names generalizing name fuel with
  | nil =>
    obtain ⟨fuel, rfl⟩ : ∃ k, fuel = k + 1 := ⟨fuel - 1, by omega⟩
    have hname := (h name List.mem_cons_self).simpleKey?
      (show ∀ c ∈ (']' :: rest).head?, isBareChar c = false by simp [isBareChar])
    rw [dotted, List.map_singleton, List.intercalate_singleton, keyParts?, hname]
    rfl
  | cons other names ih =>
    obtain ⟨fuel, rfl⟩ : ∃ k, fuel = k + 1 := ⟨fuel - 1, by omega⟩
    have hothers := ih (show names.length < fuel by simpa using hfuel)
      fun x hx => h x (List.mem_cons_of_mem _ hx)
    have htext : dotted (name :: other :: names) ++ ']' :: rest =
        name.toList ++ '.' :: (dotted (other :: names) ++ ']' :: rest) := by
      simp [dotted, List.intercalate_cons_cons]
    have hname := (h name List.mem_cons_self).simpleKey?
      (show ∀ c ∈ ('.' :: (dotted (other :: names) ++ ']' :: rest)).head?, isBareChar c = false by
        simp [isBareChar])
    have hskip := skipSpaces_cons (show isSpace '.' = false by decide)
      (dotted (other :: names) ++ ']' :: rest)
    rw [htext, keyParts?, hname]
    simp only [hskip, hothers]

theorem length_le_length_dotted (path : List String) :
    path.length ≤ (dotted path).length + 1 := by
  induction path with
  | nil => simp
  | cons name names ih =>
    cases names with
    | nil => simp
    | cons other names =>
      simp [dotted, List.intercalate_cons_cons] at ih ⊢
      omega

theorem key?_dotted {path : List String} (hpath : path ≠ []) (hdepth : path.length < depthLimit)
    (h : ∀ x ∈ path, IsBare x) (rest : List Char) :
    key? (dotted path ++ ']' :: rest) = some (path, ']' :: rest) := by
  obtain ⟨name, names, rfl⟩ := List.exists_cons_of_ne_nil hpath
  have hlength := length_le_length_dotted (name :: names)
  have hfuel : names.length < (dotted (name :: names) ++ ']' :: rest).length + 1 := by
    simp at hlength ⊢
    omega
  rw [key?, keyParts?_dotted hfuel h]
  exact if_pos hdepth

theorem header?_dotted {path : List String} (hpath : path ≠ []) (hdepth : path.length < depthLimit)
    (h : ∀ x ∈ path, IsBare x) (draft : Draft) (rest : List Char) :
    header? draft ('[' :: (dotted path ++ ']' :: rest)) =
      (draft.openTable path).map fun d => (d, rest) := by
  have hkey := key?_dotted hpath hdepth h rest
  obtain ⟨name, names, rfl⟩ := List.exists_cons_of_ne_nil hpath
  obtain ⟨c, cs, hcs, hc⟩ := (h name List.mem_cons_self).exists_eq_cons
  have htext : ∃ tail, dotted (name :: names) ++ ']' :: rest = c :: tail := by
    cases names with
    | nil => exact ⟨_, by simp [dotted, hcs]; rfl⟩
    | cons other names => exact ⟨_, by simp [dotted, List.intercalate_cons_cons, hcs]; rfl⟩
  obtain ⟨tail, htail⟩ := htext
  rw [htail] at hkey ⊢
  simp [header?, ne_of_startsKey hc (show startsKey '[' = false by decide), hkey]

end Keys

/-- A line of a document. -/
inductive Line where
  | blank
  /-- The header of a table. -/
  | header (path : List String)
  /-- A key with the text of its value, and the value. -/
  | entry (name text : String) (value : Document)

namespace Line

def text : Line → List Char
  | blank => ['\n']
  | header path => '[' :: (dotted path ++ [']', '\n'])
  | entry name text _ => (pair name text).toList

/-- What a line does to the document so far. -/
def apply (draft : Draft) : Line → Option Draft
  | blank => some draft
  | header path => draft.openTable path
  | entry name _ value => draft.addKey [name] value

/-- The line is read as what it stands for. -/
def Sound : Line → Prop
  | blank => True
  | header path => path ≠ [] ∧ path.length < depthLimit ∧ ∀ x ∈ path, IsBare x
  | entry _ text value => ReadsAs text value

theorem toList_pair (name text : String) (rest : List Char) :
    (pair name text).toList ++ rest =
      (renderKey name).toList ++ ' ' :: '=' :: ' ' :: (text.toList ++ '\n' :: rest) := by
  simp [pair]

theorem pair?_entry {text : String} {value : Document} (h : ReadsAs text value) (name : String)
    (draft : Draft) (rest : List Char) :
    pair? draft ((pair name text).toList ++ rest) =
      (draft.addKey [name] value).map fun d => (d, '\n' :: rest) := by
  have hvalue := h ((' ' :: (text.toList ++ '\n' :: rest)).length + 1) rest (by simp; omega)
  have hskip : skipSpaces (' ' :: (text.toList ++ '\n' :: rest)) =
      skipSpaces (text.toList ++ '\n' :: rest) := rfl
  rw [toList_pair, pair?, key?_renderKey]
  simp only [hskip, hvalue]

/-- One line is read, and the lines after it follow. -/
theorem lines?_append {l : Line} (h : l.Sound) (fuel : Nat) (draft : Draft) (rest : List Char) :
    lines? (fuel + 1) draft (l.text ++ rest) = (l.apply draft).bind fun d => lines? fuel d rest := by
  cases l with
  | blank => rfl
  | header path =>
    have hread := header?_dotted h.1 h.2.1 h.2.2 draft ('\n' :: rest)
    have htext : (header path).text ++ rest = '[' :: (dotted path ++ ']' :: '\n' :: rest) := by
      simp [text]
    rw [htext, lines?, skipSpaces_cons (by decide)]
    simp only [hread, apply]
    cases draft.openTable path <;> rfl
  | entry name value d =>
    have hread := pair?_entry h name draft rest
    obtain ⟨c, cs, hcs, hc⟩ := exists_renderKey_eq_cons name
    have hne : ∀ x, startsKey x = false → (c == x) = false := fun x hx => by
      simpa using ne_of_startsKey hc hx
    rw [toList_pair, hcs, List.cons_append] at hread
    rw [text, toList_pair, hcs, List.cons_append, lines?,
      skipSpaces_cons (isSpace_of_startsKey hc)]
    simp only [hread, apply, hne '#' (by decide), hne '\n' (by decide), hne '\r' (by decide),
      hne '[' (by decide), Bool.or_self, Bool.false_eq_true, if_false]
    cases draft.addKey [name] d <;> rfl

theorem exists_text_eq_cons {l : Line} (h : l.Sound) :
    ∃ c cs, l.text = c :: cs ∧ c ≠ byteOrderMark := by
  cases l with
  | blank => exact ⟨_, _, rfl, by decide⟩
  | header path => exact ⟨_, _, rfl, by decide⟩
  | entry name value d =>
    obtain ⟨c, cs, hcs, hc⟩ := exists_renderKey_eq_cons name
    refine ⟨c, cs ++ ' ' :: '=' :: ' ' :: (value.toList ++ ['\n']), ?_,
      ne_of_startsKey hc (by decide)⟩
    have htext := toList_pair name value []
    rw [List.append_nil, hcs] at htext
    rw [text, htext, List.cons_append]

/-- All lines are read one after the other. -/
theorem lines?_flatMap {ls : List Line} {fuel : Nat} (hfuel : ls.length < fuel)
    (h : ∀ l ∈ ls, l.Sound) (draft : Draft) :
    lines? fuel draft (ls.flatMap text) = ls.foldlM apply draft := by
  induction ls generalizing fuel draft with
  | nil =>
    obtain ⟨fuel, rfl⟩ : ∃ k, fuel = k + 1 := ⟨fuel - 1, by omega⟩
    rfl
  | cons l ls ih =>
    obtain ⟨fuel, rfl⟩ : ∃ k, fuel = k + 1 := ⟨fuel - 1, by omega⟩
    have htail : ∀ draft, lines? fuel draft (ls.flatMap text) = ls.foldlM apply draft :=
      ih (by simpa using hfuel) fun l hl => h l (List.mem_cons_of_mem _ hl)
    rw [List.flatMap_cons, lines?_append (h l List.mem_cons_self), List.foldlM_cons]
    exact congrArg (l.apply draft).bind (funext htail)

theorem length_le_length_flatMap {ls : List Line} (h : ∀ l ∈ ls, l.Sound) :
    ls.length ≤ (ls.flatMap text).length := by
  induction ls with
  | nil => simp
  | cons l ls ih =>
    obtain ⟨c, cs, hcs, -⟩ := exists_text_eq_cons (h l List.mem_cons_self)
    have htail := ih fun l hl => h l (List.mem_cons_of_mem _ hl)
    rw [List.flatMap_cons, hcs, List.length_append, List.length_cons, List.length_cons]
    omega

/-- The document of a text is what its lines make of the empty draft. -/
theorem parse?_of_lines {s : String} {ls : List Line} (hs : s.toList = ls.flatMap text)
    (h : ∀ l ∈ ls, l.Sound) :
    parse? s = ((ls.foldlM apply {}).bind Draft.close).map Item.toDocument := by
  have hmark : s.toList.head? ≠ some byteOrderMark := by
    rw [hs]
    cases ls with
    | nil => simp
    | cons l ls =>
      obtain ⟨c, cs, hcs, hc⟩ := exists_text_eq_cons (h l List.mem_cons_self)
      simpa [hcs] using hc
  have hlength := length_le_length_flatMap h
  simp only [parse?, beq_iff_eq, if_neg hmark]
  rw [hs, lines?_flatMap (by omega) h]

end Line

section Entries

variable {es : List (String × String × Document)}

/-- The lines of keys, each with the text of its value and the value. -/
def entryLines (es : List (String × String × Document)) : List Line :=
  es.map fun e => .entry e.1 e.2.1 e.2.2

theorem flatMap_entryLines (es : List (String × String × Document)) :
    (entryLines es).flatMap Line.text = es.flatMap fun e => (pair e.1 e.2.1).toList := by
  rw [entryLines, List.flatMap_map]
  rfl

theorem sound_of_mem_entryLines (h : ∀ e ∈ es, ReadsAs e.2.1 e.2.2) :
    ∀ l ∈ entryLines es, l.Sound := by
  intro l hl
  obtain ⟨e, he, rfl⟩ := List.mem_map.1 hl
  exact h e he

/-- A draft in which a table is open under its header. -/
def draftOf (root : List (String × Item)) (path : List String) (current : List (String × Item)) :
    Draft :=
  { root := .table false false root, current := .table false false current, path }

theorem addKey_draftOf {root current : List (String × Item)} {path : List String} {name : String}
    (h : current.lookup name = none) (d : Document) :
    (draftOf root path current).addKey [name] d =
      some (draftOf root path (current ++ [(name, .value d)])) := by
  simp [draftOf, Draft.addKey, Item.addKey, Item.descend, Item.addEntry, h]

/-- The lines turn one draft into another. -/
def Drafts (ls : List Line) (before after : Draft) : Prop :=
  ls.foldlM Line.apply before = some after

theorem Drafts.append {ls more : List Line} {before middle after : Draft}
    (h : Drafts ls before middle) (hmore : Drafts more middle after) :
    Drafts (ls ++ more) before after := by
  rw [Drafts, List.foldlM_append, h]
  exact hmore

/-- The items that entries make. -/
def itemsOf (es : List (String × String × Document)) : List (String × Item) :=
  es.map fun e => (e.1, .value e.2.2)

/-- Entries with new names go to the end of the open table, in their order. -/
theorem drafts_entryLines {current : List (String × Item)}
    (h : (current.map Prod.fst ++ es.map Prod.fst).Nodup) (root : List (String × Item))
    (path : List String) :
    Drafts (entryLines es) (draftOf root path current)
      (draftOf root path (current ++ itemsOf es)) := by
  induction es generalizing current with
  | nil => simp [Drafts, entryLines, itemsOf]
  | cons e es ih =>
    have hnew : current.lookup e.1 = none := by
      apply lookup_eq_none_iff_notMem.2
      intro hmem
      exact (List.nodup_append.1 h).2.2 e.1 hmem e.1 (by simp) rfl
    have hfirst : Drafts [.entry e.1 e.2.1 e.2.2] (draftOf root path current)
        (draftOf root path (current ++ [(e.1, .value e.2.2)])) := by
      rw [Drafts, List.foldlM_cons, Line.apply, addKey_draftOf hnew]
      rfl
    have hrest := @ih (current ++ [(e.1, .value e.2.2)]) (by simpa using h)
    rw [List.append_assoc] at hrest
    exact hfirst.append hrest

/-- Entries under a header make its table. -/
theorem drafts_entryLines_nil (es : List (String × String × Document))
    (h : (es.map Prod.fst).Nodup) (root : List (String × Item)) (path : List String) :
    Drafts (entryLines es) (draftOf root path []) (draftOf root path (itemsOf es)) := by
  have hnames : (([] : List (String × Item)).map Prod.fst ++ es.map Prod.fst).Nodup := h
  exact drafts_entryLines hnames root path

theorem entryDocuments_itemsOf (es : List (String × String × Document)) :
    Item.entryDocuments (itemsOf es) = es.map fun e => (e.1, e.2.2) := by
  induction es with
  | nil => rfl
  | cons e es ih =>
    rw [itemsOf, List.map_cons, Item.entryDocuments, ← itemsOf, ih]
    rfl

end Entries

end InjectionScan.Toml
