import TableShell.Proofs.DefinitionLayout
import TableShell.Proofs.Excerpts

/-
What is accepted as the definition of a table.

An accepted text is a layout of a definition up to its first closing parenthesis, and the table is
that of the layout. What stands behind is not looked at, as long as no group of parentheses is
opened and closed there, so a text may be accepted that the grammar of definitions does not have.
-/
namespace TableShell
namespace Text

/-- No part of a text split at a character has that character. -/
theorem not_mem_of_mem_splitOn {c : Char} {s part : List Char} (h : part ∈ s.splitOn c) :
    c ∉ part := by
  induction s generalizing part with
  | nil =>
    rw [List.splitOn_nil, List.mem_singleton] at h
    exact h ▸ List.not_mem_nil
  | cons d s ih =>
    rw [List.splitOn_cons_eq_if_modifyHead] at h
    split at h
    · rcases List.mem_cons.1 h with rfl | h
      · exact List.not_mem_nil
      · exact ih h
    · next hd =>
      obtain ⟨first, parts, hs⟩ := List.exists_cons_of_ne_nil (List.splitOn_ne_nil c s)
      rw [hs] at ih
      rw [hs, List.modifyHead_cons] at h
      rcases List.mem_cons.1 h with rfl | h
      · rw [List.mem_cons, not_or]
        exact ⟨fun hc => hd (beq_iff_eq.2 hc.symm), ih List.mem_cons_self⟩
      · exact ih (List.mem_cons_of_mem _ h)

/-- The part of a trimmed text in front of a blank is not blank, and it has blanks at its end
only. -/
theorem exists_trim_append {a r : List Char} {c : Char} (hs : Trimmed (a ++ c :: r))
    (hc : isBlank c = true) :
    trim a ≠ [] ∧ ∃ b, (∀ d ∈ b, isBlank d = true) ∧ a = trim a ++ b := by
  obtain ⟨w, b, hw, hb, ha⟩ := exists_append_trim a
  have hhead : ∀ d t, a ++ c :: r = d :: t → ¬ isBlank d = true := by
    intro d t he
    rw [hs.1 d (by rw [he]; rfl)]
    decide
  have hwNil : w = [] := by
    cases w with
    | nil => rfl
    | cons d w =>
      rw [ha] at hhead
      exact absurd (hw d List.mem_cons_self) (hhead d _ rfl)
  rw [hwNil, List.nil_append] at ha
  refine ⟨fun hempty => ?_, b, hb, ha⟩
  -- a blank part would put a blank in front of the text
  rw [hempty, List.nil_append] at ha
  subst ha
  cases a with
  | nil => exact hhead c r rfl hc
  | cons d a => exact hhead d _ rfl (hb d List.mem_cons_self)

end Text

/-! ### Columns that make a table -/

theorem DataType.not_mem_of_toLower {s : String} {t : DataType} (h : s.toLower = t.text) :
    '(' ∉ s.toList := by
  intro hm
  have hlower := List.mem_map_of_mem (f := Char.toLower) hm
  rw [← Text.toList_toLower, h] at hlower
  revert hlower
  cases t <;> decide

/-- Columns that are declared once each have neither a name nor a type with a parenthesis in it,
if a table can be made of them. -/
theorem Table.not_mem_of_create {name : String} {columns : List (String × String)} {table : Table}
    (h : create name columns = .ok table) (hn : (columns.map Prod.fst).Nodup) :
    ∀ e ∈ columns, '(' ∉ e.1.toList ∧ '(' ∉ e.2.toList := by
  intro e he
  rw [← OrderedMap.settled_of_nodup hn] at he
  cases h ▸ judged_create name columns with
  | created _ _ hnames hschema =>
    obtain ⟨a, -, -, htype⟩ := exists_mem_of_forall₂ hschema he
    have hname := (Name.isValid_iff.1 (hnames e he)).2
    exact ⟨fun hm => absurd (hname _ hm) (by decide), DataType.not_mem_of_toLower htype⟩

namespace Definition

open Text

/-! ### Clauses that are read -/

theorem readClauses_cons_eq_ok {clause : List Char} {clauses : List (List Char)}
    {columns : List (String × String)} (h : readClauses (clause :: clauses) = .ok columns) :
    ∃ column rest, readClause clause = .ok column ∧ readClauses clauses = .ok rest ∧
      columns = column :: rest := by
  rw [readClauses] at h
  split at h
  · exact absurd h (by simp)
  · next column hc =>
    split at h
    · exact absurd h (by simp)
    · next rest hcs => exact ⟨column, rest, hc, hcs, (Except.ok.inj h).symm⟩

/-- What is read as a column and its type is a clause for them: the blanks before the last word part
the two. -/
theorem exists_clause {s : List Char} (hs : Trimmed s) (hfree : ∀ c ∈ s, c ≠ ',' ∧ c ≠ ')')
    {column : String × String} (h : readClause s = .ok column) :
    ∃ clause : Clause, clause.text = s ∧ clause.declared = column := by
  rw [readClause] at h
  split at h
  · exact absurd h (by simp)
  · next before type hcut =>
    obtain ⟨c, hc, htype, rfl⟩ := cutLast?_eq_some_iff.1 hcut
    obtain ⟨hne, b, hb, hbefore⟩ := exists_trim_append hs hc
    have htypeNil : type ≠ [] := by
      rintro rfl
      exact absurd hc (by rw [hs.2 c (by simp)]; decide)
    rw [List.forall_mem_append, List.forall_mem_cons] at hfree
    let clause : Clause := {
      column := trim before
      gap := b ++ [c]
      type := type
      column_ne_nil := hne
      column_trimmed := trimmed_trim before
      column_free := fun d hd => hfree.1 d (trim_subset before hd)
      gap_ne_nil := by simp
      gap_blank := List.forall_mem_append.2 ⟨hb, List.forall_mem_singleton.2 hc⟩
      type_ne_nil := htypeNil
      type_free := fun d hd => ⟨htype d hd, hfree.2.2 d hd⟩ }
    refine ⟨clause, ?_, Except.ok.inj h⟩
    conv_rhs => rw [hbefore]
    simp [Clause.text, clause]

theorem exists_part {s : List Char} (hfree : ∀ c ∈ s, c ≠ ',' ∧ c ≠ ')')
    {column : String × String} (h : readClause (trim s) = .ok column) :
    ∃ (part : Part) (clause : Clause), part.text = s ∧ part.clause = some clause ∧
      clause.declared = column := by
  obtain ⟨a, b, ha, hb, hs⟩ := exists_append_trim s
  obtain ⟨clause, htext, hdeclared⟩ :=
    exists_clause (trimmed_trim s) (fun c hc => hfree c (trim_subset s hc)) h
  refine ⟨⟨a, some clause, b, ha, hb⟩, clause, ?_, rfl, hdeclared⟩
  rw [Part.text, Option.map_some, Option.getD_some, htext, ← hs]

theorem exists_blank_part {s : List Char} (h : trim s = []) :
    ∃ part : Part, part.text = s ∧ part.clause = none := by
  obtain ⟨a, b, ha, hb, hs⟩ := exists_append_trim s
  refine ⟨⟨a, none, b, ha, hb⟩, ?_, rfl⟩
  rw [Part.text, Option.map_none, Option.getD_none, ← h, ← hs]

/-- The parts of a list whose clauses are read. -/
theorem exists_parts_of_readClauses {texts : List (List Char)}
    (hfree : ∀ text ∈ texts, ∀ c ∈ text, c ≠ ',' ∧ c ≠ ')') {columns : List (String × String)}
    (h : readClauses ((texts.map trim).filter fun clause => !clause.isEmpty) = .ok columns) :
    ∃ parts : List Part, parts.map Part.text = texts ∧
      (parts.filterMap Part.clause).map Clause.declared = columns := by
  induction texts generalizing columns with
  | nil => exact ⟨[], rfl, Except.ok.inj h⟩
  | cons text texts ih =>
    rw [List.forall_mem_cons] at hfree
    rw [List.map_cons] at h
    by_cases hempty : trim text = []
    · rw [List.filter_cons_of_neg (by simp [hempty])] at h
      obtain ⟨parts, htexts, hcolumns⟩ := ih hfree.2 h
      obtain ⟨part, htext, hnone⟩ := exists_blank_part hempty
      refine ⟨part :: parts, by rw [List.map_cons, htext, htexts], ?_⟩
      rw [List.filterMap_cons_none hnone, hcolumns]
    · rw [List.filter_cons_of_pos (by simp [hempty])] at h
      obtain ⟨column, columns', hcolumn, hrest, rfl⟩ := readClauses_cons_eq_ok h
      obtain ⟨parts, htexts, hcolumns⟩ := ih hfree.2 hrest
      obtain ⟨part, clause, htext, hclause, hdeclared⟩ := exists_part hfree.1 hcolumn
      refine ⟨part :: parts, by rw [List.map_cons, htext, htexts], ?_⟩
      rw [List.filterMap_cons_some hclause, List.map_cons, hdeclared, hcolumns]

theorem exists_layout_of_readClauses {head list : List Char} (hhead : '(' ∉ head)
    (hlist : ')' ∉ list) {columns : List (String × String)}
    (h : readClauses (clauses list) = .ok columns) :
    ∃ layout : Layout, layout.head = head ∧ layout.list = list ∧ layout.name = trim head ∧
      layout.columns = columns := by
  have hfree : ∀ text ∈ list.splitOn ',', ∀ c ∈ text, c ≠ ',' ∧ c ≠ ')' := by
    intro text ht c hc
    exact ⟨fun e => not_mem_of_mem_splitOn ht (e ▸ hc), fun e => hlist (splitOn_subset ht (e ▸ hc))⟩
  obtain ⟨parts, htexts, hcolumns⟩ := exists_parts_of_readClauses hfree h
  obtain ⟨a, b, ha, hb, hs⟩ := exists_append_trim head
  let layout : Layout := {
    before := a
    name := trim head
    between := b
    parts := parts
    name_trimmed := trimmed_trim head
    name_free := fun hm => hhead (trim_subset head hm)
    before_blank := ha
    between_blank := hb }
  refine ⟨layout, hs.symm, ?_, rfl, hcolumns⟩
  rw [Layout.list, show layout.parts = parts from rfl, htexts, List.intercalate_splitOn]

/-- A text is accepted if it is a layout with no group behind it and the layout makes a table, and
the table is the one it makes. -/
theorem readTable_eq_ok_iff {text : String} {table : Table} :
    readTable text = .ok table ↔ ∃ (layout : Layout) (rest : List Char),
      behindPhrase text.toList = layout.followedBy rest ∧ group? rest = none ∧
        layout.create = .ok table := by
  constructor
  · intro h
    simp only [readTable, read] at h
    rw [behindPhrase]
    generalize (strip? Char.toLower "create table ".toList (trimStart text.toList)).getD
      text.toList = s at h ⊢
    cases hg : group? s with
    | none =>
      -- without a group there is no column
      rw [hg] at h
      exact absurd rfl (Table.create_eq_ok h).2.1
    | some group =>
      obtain ⟨list, rest⟩ := group
      obtain ⟨head, hhead, hlist, rfl⟩ := group?_eq_some_iff.1 hg
      simp only [hg, takeWhile_head hhead] at h
      cases hrest : group? rest with
      | some group => simp [hrest] at h
      | none =>
        cases hc : readClauses (clauses list) with
        | error cause => simp [hrest, hc] at h
        | ok columns =>
          simp only [hrest, hc, Option.isSome_none, Bool.false_eq_true, if_false] at h
          obtain ⟨layout, rfl, rfl, hname, hcolumns⟩ := exists_layout_of_readClauses hhead hlist hc
          refine ⟨layout, rest, rfl, hrest, ?_⟩
          rw [Layout.create, hname, hcolumns]
          exact h
  · rintro ⟨layout, rest, hs, hrest, hcreate⟩
    rw [layout.readTable_followedBy hs hrest, hcreate]

/-! ### The grammar -/

/-- A text of the grammar: a valid name and a list of columns in the only parentheses, with nothing
but blanks about them. -/
def Grammatical (s : List Char) : Prop :=
  ∃ layout : Layout, layout.text = s ∧ Name.isValid (String.ofList layout.name) = true ∧
    '(' ∉ layout.list

theorem Grammatical.exists_group {s : List Char} (h : Grammatical s) :
    ∃ list rest, group? s = some (list, rest) ∧ '(' ∉ list ∧ ∀ c ∈ rest, isBlank c = true := by
  obtain ⟨layout, rfl, -, hlist⟩ := h
  exact ⟨layout.list, layout.after, layout.group?_followedBy _, hlist, layout.after_blank⟩

theorem Clause.not_mem_text {clause : Clause} {c : Char} (hc : isBlank c = false)
    (h : c ∉ clause.column ∧ c ∉ clause.type) : c ∉ clause.text := by
  simp only [text, List.mem_append, not_or]
  exact ⟨⟨h.1, not_mem_of_blank hc clause.gap_blank⟩, h.2⟩

namespace Layout

variable (layout : Layout)

/-- A layout with something behind it is of the grammar if it has no parentheses inside and only
blanks behind it. -/
theorem grammatical_followedBy_iff (hn : Name.isValid (String.ofList layout.name) = true)
    (rest : List Char) :
    Grammatical (layout.followedBy rest) ↔
      '(' ∉ layout.list ∧ ∀ c ∈ rest, isBlank c = true := by
  constructor
  · intro h
    obtain ⟨list, behind, hgroup, hlist, hbehind⟩ := h.exists_group
    rw [layout.group?_followedBy rest, Option.some.injEq, Prod.mk.injEq] at hgroup
    obtain ⟨rfl, rfl⟩ := hgroup
    exact ⟨hlist, hbehind⟩
  · rintro ⟨hlist, hrest⟩
    exact ⟨{ layout with after := rest, after_blank := hrest }, rfl, hn, hlist⟩

/-- Columns without a parenthesis are laid out without a parenthesis. -/
theorem not_mem_list_of_columns
    (h : ∀ e ∈ layout.columns, '(' ∉ e.1.toList ∧ '(' ∉ e.2.toList) : '(' ∉ layout.list := by
  refine not_mem_intercalate (by decide) (List.forall_mem_map.2 fun part hp => ?_)
  simp only [Part.text, List.mem_append, not_or]
  refine ⟨⟨not_mem_of_blank (by decide) part.before_blank, ?_⟩,
    not_mem_of_blank (by decide) part.after_blank⟩
  cases hclause : part.clause with
  | none => exact List.not_mem_nil
  | some clause =>
    have hm : clause.declared ∈ layout.columns :=
      List.mem_map_of_mem (List.mem_filterMap.2 ⟨part, hp, hclause⟩)
    have hfree := h _ hm
    simp only [Clause.declared, String.toList_ofList] at hfree
    exact Clause.not_mem_text (by decide) hfree

end Layout

/-- An accepted text is a layout of the table's name and columns with something behind it that is
no group and does not matter. So it is a text of the grammar just if only blanks stand behind the
layout and no parenthesis inside; a parenthesis can stand inside only where a column is declared
twice. -/
theorem readTable_grammatical_iff {text : String} {table : Table}
    (h : readTable text = .ok table) :
    ∃ (layout : Layout) (rest : List Char),
      behindPhrase text.toList = layout.followedBy rest ∧ group? rest = none ∧
        Table.create (String.ofList layout.name) layout.columns = .ok table ∧
        (∀ other, group? other = none →
          readTable (String.ofList (layout.followedBy other)) = .ok table) ∧
        (Grammatical (behindPhrase text.toList) ↔
          '(' ∉ layout.list ∧ ∀ c ∈ rest, isBlank c = true) ∧
        ((layout.columns.map Prod.fst).Nodup → '(' ∉ layout.list) := by
  obtain ⟨layout, rest, hs, hrest, hcreate⟩ := readTable_eq_ok_iff.1 h
  have hname := (Table.create_eq_ok hcreate).1
  refine ⟨layout, rest, hs, hrest, hcreate, fun other hother => ?_, ?_, fun hn => ?_⟩
  · have hbehind : behindPhrase (String.ofList (layout.followedBy other)).toList =
        layout.followedBy other := by
      rw [String.toList_ofList, layout.behindPhrase_followedBy hname]
    rw [layout.readTable_followedBy hbehind hother, hcreate]
  · rw [hs, layout.grammatical_followedBy_iff hname]
  · exact layout.not_mem_list_of_columns (Table.not_mem_of_create hcreate hn)

/-- An accepted text of the grammar. -/
theorem readTable_grammatical_phrase :
    readTable "CREATE table t\n( id int, )\t" =
        .ok ⟨"t", [⟨"id", .int⟩], [.empty "id" .int], 0⟩ ∧
      Grammatical (behindPhrase "CREATE table t\n( id int, )\t".toList) := by
  have h : readTable "CREATE table t\n( id int, )\t" =
      .ok ⟨"t", [⟨"id", .int⟩], [.empty "id" .int], 0⟩ := by decide +kernel
  obtain ⟨layout, rest, hs, -, -, -, hiff, -⟩ := readTable_grammatical_iff h
  have hgroup := layout.group?_followedBy rest
  rw [← hs, show group? (behindPhrase "CREATE table t\n( id int, )\t".toList) =
    some (" id int, ".toList, ['\t']) by decide +kernel, Option.some.injEq, Prod.mk.injEq] at hgroup
  refine ⟨h, hiff.2 ?_⟩
  rw [← hgroup.1, ← hgroup.2]
  exact ⟨by decide, List.all_eq_true.1 rfl⟩

/-- A second group that is opened and not closed is dropped. -/
theorem readTable_not_grammatical :
    readTable "test (id int) (name double" =
        .ok ⟨"test", [⟨"id", .int⟩], [.empty "id" .int], 0⟩ ∧
      ¬ Grammatical (behindPhrase "test (id int) (name double".toList) := by
  refine ⟨by decide +kernel, fun h => ?_⟩
  obtain ⟨list, rest, hgroup, -, hrest⟩ := h.exists_group
  rw [show group? (behindPhrase "test (id int) (name double".toList) =
    some ("id int".toList, " (name double".toList) by decide +kernel, Option.some.injEq,
    Prod.mk.injEq] at hgroup
  exact absurd (hrest '(' (hgroup.2 ▸ by decide)) (by decide)

/-- A parenthesis in the type that a column declared twice does not get. -/
example : readTable "t (a (x, a int)" = .ok ⟨"t", [⟨"a", .int⟩], [.empty "a" .int], 0⟩ := by
  decide +kernel

end Definition
end TableShell
