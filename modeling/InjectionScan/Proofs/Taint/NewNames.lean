import InjectionScan.Proofs.Taint.Transfer

/-! A statement at the end that declares new names only takes no finding out. -/
namespace InjectionScan.Taint

open Syntax Node

variable {source source' more : String} {table : Bindings} {root root' statement n : Node}
  {name : String} {value : Node}

section Growing

theorem within_bind (h : table.get? name = none) (value : Node) :
    Bindings.Within Eq table (table.bind name value) := by
  intro key bound hkey
  have hne : ¬ (name = key ∧ name ≠ "") := by
    rintro ⟨rfl, -⟩
    rw [h] at hkey
    cases hkey
  exact ⟨bound, by rw [get?_bind, if_neg hne, hkey], rfl⟩

/-- The second tree is the first one with a statement more at its end. -/
structure Appends (root statement root' : Node) : Prop where
  top : IsTop root
  top' : IsTop root'
  children : root'.children = root.children ++ [statement]

/-- The table of the longer program goes on from that of the shorter one. -/
theorem Appends.collect_eq (h : Appends root statement root') (source : String) :
    Bindings.collect source root' =
      statement.preorder.foldl (Bindings.record source) (Bindings.collect source root) := by
  rw [h.top'.collect_eq, h.top.collect_eq, h.children, preorderAll_append, List.foldl_append]
  simp [preorderAll]

theorem Appends.within (h : Appends root statement root')
    (hnew : ∀ name, Recorded source statement name → ¬ Recorded source root name) :
    Bindings.Within Eq (Bindings.collect source root) (Bindings.collect source root') := by
  intro name value hvalue
  have hrecorded : Recorded source root name := by
    rw [← isSome_get?_collect_iff, hvalue]
    rfl
  refine ⟨value, ?_, rfl⟩
  rw [h.collect_eq, get?_foldl_record_of_not_records, hvalue]
  intro n hn hrecords
  exact hnew name ⟨n, hn, hrecords⟩ hrecorded

theorem Appends.injections_sublist (h : Appends root statement root')
    (hnew : ∀ name, Recorded source statement name → ¬ Recorded source root name) :
    (injections source root).Sublist (injections source root') := by
  rw [h.top.injections_eq, h.top'.injections_eq, h.children, preorderAll_append,
    List.filter_append]
  refine (List.monotone_filter_right _ ?_).trans (List.sublist_append_left _ _)
  intro call hcall
  simp only [decide_eq_true_eq] at hcall ⊢
  exact hcall.transfer (keepsReading_eq source) (h.within hnew) rfl

end Growing

section Sources

variable (h : IsTop root) (hplaces : KeepPlaces source source' root.children)

include hplaces

theorem forall₂_same_of_keepPlaces :
    List.Forall₂ (fun m n => m = n ∧ ∀ k ∈ m.preorder, k.text source = k.text source')
      root.children root.children := by
  refine List.forall₂_same.2 fun n hn => ⟨rfl, fun k hk => (hplaces k ?_).1⟩
  rw [preorderAll_eq_flatMap]
  exact List.mem_flatMap.2 ⟨n, hn, hk⟩

include h

theorem IsTop.collect_eq_of_keepPlaces :
    Bindings.collect source root = Bindings.collect source' root := by
  have hreading := keepsReading_same source source'
  have htables := related_foldl_record hreading
    (hreading.preorderAll _ _ (forall₂_same_of_keepPlaces hplaces))
  rw [h.collect_eq, h.collect_eq]
  refine Dictionary.eq_of_get?_eq fun name => ?_
  exact eq_of_rel (fun hsame => hsame.1) (htables name)

/-- A report depends on the source only through the texts and places of the statements. -/
theorem IsTop.run_eq_of_keepPlaces (config : Config) (file : Path) :
    sqlInjection.run config source file root = sqlInjection.run config source' file root := by
  have hcalls : injections source root = injections source' root := by
    have hreads := forall₂_injections (keepsReading_same source source') h h
      (forall₂_same_of_keepPlaces hplaces)
    rw [← List.forall₂_eq_eq_eq]
    exact hreads.imp fun _ _ hsame => hsame.1
  rw [sqlInjection_run_eq_map, sqlInjection_run_eq_map, ← hcalls]
  refine List.map_congr_left fun call hcall => ?_
  rw [h.injections_eq] at hcall
  simp [Analyzer.report, (hplaces call (List.mem_filter.1 hcall).1).2]

end Sources

section Reports

theorem Appends.run_sublist (h : Appends root statement root')
    (hnew : ∀ name, Recorded source statement name → ¬ Recorded source root name)
    (config : Config) (file : Path) :
    (sqlInjection.run config source file root).Sublist
      (sqlInjection.run config source file root') := by
  rw [sqlInjection_run_eq_map, sqlInjection_run_eq_map]
  exact (h.injections_sublist hnew).map _

/-- A name that is new in a table hides no taint. So a statement that is added to a program and
declares new names only leaves every finding as it is, whether the source has the statement already
or goes on with it, and what takes a finding out declares a name again. -/
theorem new_names_keep_findings (source : String) (config : Config) (file : Path) :
    (∀ (table : Bindings) name value n?, table.get? name = none →
      isTainted table source n? = true →
      isTainted (table.bind name value) source n? = true) ∧
    (∀ root statement root', Appends root statement root' →
      (∀ name, Recorded source statement name → ¬ Recorded source root name) →
      (sqlInjection.run config source file root).Sublist
        (sqlInjection.run config source file root')) ∧
    (∀ more root statement root', Appends root statement root' →
      Inside source root.children →
      (∀ name, Recorded (source ++ more) statement name → ¬ Recorded source root name) →
      (sqlInjection.run config source file root).Sublist
        (sqlInjection.run config (source ++ more) file root')) ∧
    ∀ root statement root', Appends root statement root' →
      ∀ f ∈ sqlInjection.run config source file root,
        f ∉ sqlInjection.run config source file root' →
        ∃ name, Recorded source root name ∧ Recorded source statement name := by
  refine ⟨fun table name value n? hfree ht => ?_, fun root statement root' h hnew => ?_,
    fun more root statement root' h hinside hnew => ?_, fun root statement root' h f hf hlost => ?_⟩
  · obtain ⟨n, rfl, htainted⟩ := isTainted_iff.1 ht
    exact isTainted_iff.2
      ⟨n, rfl, htainted.transfer (keepsReading_eq source) (within_bind hfree value) rfl⟩
  · exact h.run_sublist hnew config file
  · have hplaces := hinside.keepPlaces_append more
    rw [h.top.run_eq_of_keepPlaces hplaces]
    refine h.run_sublist (fun name hstatement hroot => hnew name hstatement ?_) config file
    rwa [← isSome_get?_collect_iff, h.top.collect_eq_of_keepPlaces hplaces,
      isSome_get?_collect_iff]
  · by_contra hnone
    refine hlost ((h.run_sublist ?_ config file).subset hf)
    exact fun name hstatement hroot => hnone ⟨name, hroot, hstatement⟩

theorem appends_withChildren (h : IsTop root) (statement : Node) :
    Appends root statement (root.withChildren (root.children ++ [statement])) :=
  ⟨h, h.withChildren _, children_withChildren _ _⟩

instance : Decidable (Recorded source root name) :=
  decidable_of_iff _ isSome_get?_collect_iff

theorem not_recorded_of_declared?
    (h : ∀ n ∈ statement.preorder, ∀ d ∈ Bindings.declared? source' n, ¬ Recorded source root d.1) :
    ∀ name, Recorded source' statement name → ¬ Recorded source root name := by
  rintro name ⟨n, hn, -, value, hd⟩
  exact h n hn _ (declared?_eq_some_iff.2 hd)

/-- A program with a finding. -/
def queryOfSum : String := "var q=a+b;db.query(q);"

/-- The statement that the program goes on with in a longer text. -/
def nextStatement (more : String) : Node :=
  ((Script.parse (queryOfSum ++ more)).children.getLast?).getD (Script.parse more)

def withNext (more : String) : Node :=
  (Script.parse queryOfSum).withChildren
    ((Script.parse queryOfSum).children ++ [nextStatement more])

/-- A statement with a new name leaves the finding, and one that declares its name again does not. -/
theorem new_names_keep_findings_query :
    let root := Script.parse queryOfSum
    let table := Bindings.collect queryOfSum root
    (table.get? "p" = none ∧ isTainted table queryOfSum (table.get? "q") = true ∧
      isTainted (table.bind "p" root) queryOfSum (table.get? "q") = true) ∧
    (Inside queryOfSum root.children ∧
      (sqlInjection.run {} queryOfSum ⟨"a.js"⟩ root).Sublist
        (sqlInjection.run {} (queryOfSum ++ "var p=q;") ⟨"a.js"⟩ (withNext "var p=q;"))) ∧
    sqlInjection.run {} (queryOfSum ++ "var q=1;") ⟨"a.js"⟩ root ≠ [] ∧
    sqlInjection.run {} (queryOfSum ++ "var q=1;") ⟨"a.js"⟩ (withNext "var q=1;") = [] ∧
    ∃ name, Recorded (queryOfSum ++ "var q=1;") root name ∧
      Recorded (queryOfSum ++ "var q=1;") (nextStatement "var q=1;") name := by
  intro root table
  have hscript : Inside queryOfSum root.children ∧ table.get? "p" = none ∧
      isTainted table queryOfSum (table.get? "q") = true := by
    decide +kernel
  have hnext : ∀ n ∈ (nextStatement "var p=q;").preorder,
      ∀ d ∈ Bindings.declared? (queryOfSum ++ "var p=q;") n, ¬ Recorded queryOfSum root d.1 := by
    decide +kernel
  have hagain : sqlInjection.run {} (queryOfSum ++ "var q=1;") ⟨"a.js"⟩ root ≠ [] ∧
      sqlInjection.run {} (queryOfSum ++ "var q=1;") ⟨"a.js"⟩ (withNext "var q=1;") = [] := by
    decide +kernel
  obtain ⟨hinside, hfree, htainted⟩ := hscript
  obtain ⟨hfound, hlost⟩ := hagain
  obtain ⟨f, hf⟩ := List.exists_mem_of_ne_nil _ hfound
  have happends (more : String) : Appends root (nextStatement more) (withNext more) :=
    appends_withChildren (isTop_parse queryOfSum) _
  refine ⟨⟨hfree, htainted, ?_⟩, ⟨hinside, ?_⟩, hfound, hlost, ?_⟩
  · exact (new_names_keep_findings queryOfSum {} ⟨"a.js"⟩).1 _ _ _ _ hfree htainted
  · exact (new_names_keep_findings queryOfSum {} ⟨"a.js"⟩).2.2.1 "var p=q;" _ _ _
      (happends _) hinside (not_recorded_of_declared? hnext)
  · exact (new_names_keep_findings (queryOfSum ++ "var q=1;") {} ⟨"a.js"⟩).2.2.2 _ _ _
      (happends _) f hf (by rw [hlost]; exact List.not_mem_nil)

end Reports

end InjectionScan.Taint
