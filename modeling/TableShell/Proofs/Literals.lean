import TableShell.Statement.Query
import TableShell.Proofs.Keywords
import TableShell.Proofs.Quoting

/-
Literals in conditions.

A condition trims blanks and quotes off the ends of its text, where a field list takes a quoted text
apart. The two ways agree on a literal exactly where the text in it has no quote.
-/
namespace TableShell
namespace Query

open Text

theorem isWordChar_of_mem_where : ∀ c ∈ "where".toList, isWordChar c = true :=
  List.all_eq_true.1 (by decide +kernel)

theorem isBlankOrQuote_of_isBlank {c : Char} (h : isBlank c = true) : isBlankOrQuote c = true := by
  rw [isBlankOrQuote, h, Bool.true_or]

/-- Trimming quotes off a text with its quotes doubled gives the text only where nothing was
doubled: what the trimming leaves is as long as the doubled text. -/
theorem trimOf_doubled_iff {s : List Char} :
    trimOf isBlankOrQuote (Fields.doubled s) = trim s ↔ Fields.quoteChar ∉ s := by
  obtain ⟨a, b, ha, hb, hs⟩ := exists_append_trim s
  have ha' : ∀ c ∈ a, isBlankOrQuote c = true := fun c hc => isBlankOrQuote_of_isBlank (ha c hc)
  have hb' : ∀ c ∈ b, isBlankOrQuote c = true := fun c hc => isBlankOrQuote_of_isBlank (hb c hc)
  have hqa := not_mem_of_blank Fields.isBlank_quoteChar ha
  have hqb := not_mem_of_blank Fields.isBlank_quoteChar hb
  have hdoubled : Fields.doubled s = a ++ Fields.doubled (trim s) ++ b := by
    rw [hs, Fields.doubled_append, Fields.doubled_append, Fields.doubled_eq_self hqa,
      Fields.doubled_eq_self hqb, ← hs]
  have hmem : Fields.quoteChar ∉ s ↔ Fields.quoteChar ∉ trim s := by
    have happ : Fields.quoteChar ∈ s ↔ Fields.quoteChar ∈ a ++ trim s ++ b := by rw [← hs]
    simp only [happ, List.mem_append, hqa, hqb, false_or, or_false]
  rw [hdoubled, trimOf_append ha' hb', hmem]
  constructor
  · intro h
    rw [← Fields.doubled_eq_self_iff]
    have hends : trimOf isBlankOrQuote (Fields.doubled (trim s)) = Fields.doubled (trim s) := by
      refine trimOf_eq_self ?_ ?_
      · intro c hc
        rw [Fields.head?_doubled, ← h] at hc
        exact head?_trimOf hc
      · intro c hc
        rw [Fields.getLast?_doubled, ← h] at hc
        exact getLast?_trimOf hc
    rw [← hends, h]
  · intro h
    rw [Fields.doubled_eq_self h]
    have hq : ∀ c ∈ trim s, isBlank c = false → isBlankOrQuote c = false := by
      intro c hc hblank
      have hne : c ≠ Fields.quoteChar := fun e => h (e ▸ hc)
      rw [isBlankOrQuote, hblank, beq_eq_false_iff_ne.2 hne, Bool.or_false]
    exact trimOf_eq_self
      (fun c hc => hq c (List.mem_of_mem_head? hc) ((trimmed_trim s).1 c hc))
      (fun c hc => hq c (List.mem_of_mem_getLast? hc) ((trimmed_trim s).2 c hc))

/-- The query for the rows that have the text, quoted, under a column. -/
def comparison (table column text : String) : String :=
  table ++ " where " ++ column ++ " = " ++ literal text

section Comparison

variable {table column : String}

theorem toList_comparison (table column text : String) :
    (comparison table column text).toList = table.toList ++ ' ' :: ("where".toList ++ ' ' ::
      (column.toList ++ ' ' :: '=' :: ' ' :: Fields.quoted text.toList)) := by
  have hwhere : " where ".toList = ' ' :: ("where".toList ++ [' ']) := rfl
  have hequals : " = ".toList = [' ', '=', ' '] := rfl
  unfold comparison literal
  simp only [String.toList_append, hwhere, hequals, String.toList_ofList, List.append_assoc,
    List.cons_append, List.nil_append]

/-- A table of whatever name is not taken for the phrase in front of a query. -/
theorem strip?_comparison (ht : Name.isValid table = true) {s : List Char} :
    strip? Char.toLower "select * from ".toList (table.toList ++ ' ' :: 'w' :: s) = none := by
  have hn := (Name.isValid_iff.1 ht).2
  have hphrase : "select * from ".toList = "select".toList ++ ' ' :: "* from ".toList := rfl
  rw [hphrase, strip?_append_cons (by decide) (by decide)
    fun c hc => Name.toLower_ne_space (hn c hc)]
  split <;> rfl

/-- A condition that compares a column with a quoted text. -/
theorem readCondition?_comparison (hc : Name.isValid column = true) (s : List Char) :
    readCondition? (' ' :: (column.toList ++ ' ' :: '=' :: ' ' :: Fields.quoted s)) =
      if (trimOf isBlankOrQuote (Fields.doubled s)).isEmpty then none
      else some ⟨column, String.ofList (trimOf isBlankOrQuote (Fields.doubled s))⟩ := by
  obtain ⟨hne, hn⟩ := Name.isValid_iff.1 hc
  have hcut : cut? (· == '=') (' ' :: (column.toList ++ ' ' :: '=' :: ' ' :: Fields.quoted s)) =
      some (' ' :: (column.toList ++ [' ']), ' ' :: Fields.quoted s) := by
    have happ : ' ' :: (column.toList ++ ' ' :: '=' :: ' ' :: Fields.quoted s) =
        ' ' :: (column.toList ++ [' ']) ++ '=' :: ' ' :: Fields.quoted s := by
      rw [List.cons_append, List.append_assoc, List.singleton_append]
    rw [happ]
    refine cut?_append ?_ rfl _
    intro c hm
    rcases List.mem_cons.1 hm with rfl | hm
    · decide
    · rcases List.mem_append.1 hm with hm | hm
      · exact beq_eq_false_iff_ne.2 (Name.ne_of_isNameChar (hn c hm) (by decide))
      · rw [List.mem_singleton.1 hm]
        decide
  have htrim : trim (' ' :: (column.toList ++ [' '])) = column.toList := by
    rw [trim, trimStart_cons_of_blank rfl]
    exact trim_append_blank hne (Name.trimmed_of_isNameChar hn) (List.all_eq_true.1 rfl)
  have htext : trimOf isBlankOrQuote (' ' :: Fields.quoted s) =
      trimOf isBlankOrQuote (Fields.doubled s) :=
    trimOf_append (a := [' ', Fields.quoteChar]) (b := [Fields.quoteChar])
      (List.all_eq_true.1 rfl) (List.all_eq_true.1 rfl) _
  have hempty : column.toList.isEmpty = false := List.isEmpty_eq_false_iff.2 hne
  simp only [readCondition?, hcut, Option.getD_some, htrim, htext, hempty, Bool.false_or,
    String.ofList_toList]

/-- A comparison is read with what trimming leaves of the doubled text. -/
theorem read_comparison (ht : Name.isValid table = true)
    (hw : isPhrase "where".toList table.toList = false) (hc : Name.isValid column = true)
    (text : String) :
    read (comparison table column text) =
      if (trimOf isBlankOrQuote (Fields.doubled text.toList)).isEmpty then .error .selectSyntax
      else .ok ⟨table, some ⟨column,
        String.ofList (trimOf isBlankOrQuote (Fields.doubled text.toList))⟩⟩ := by
  obtain ⟨hne, hn⟩ := Name.isValid_iff.1 ht
  obtain ⟨c, n, hs⟩ := List.exists_cons_of_ne_nil hne
  have hstart : ∀ r, trimStart (table.toList ++ r) = table.toList ++ r := by
    intro r
    rw [hs]
    have hc := hn c (hs ▸ List.mem_cons_self)
    exact trimStart_cons_of_not_blank (Name.isBlank_of_isNameChar hc) _
  have hfind : ∀ r, findWord? "where".toList some false
      (table.toList ++ ' ' :: ("where".toList ++ ' ' :: r)) =
        some (table.toList ++ [' '], ' ' :: r) := by
    intro r
    rw [findWord?_name (by decide) isWordChar_of_mem_where
        (fun c hc => Name.isWordChar_of_isNameChar (hn c hc)) (by decide)
        fun h => absurd h (Name.map_foldCase hn hw),
      findWord?_keyword (by decide) (by decide) rfl rfl, Option.map_some]
  have htrim : trim (table.toList ++ [' ']) = table.toList :=
    trim_append_blank hne (Name.trimmed_of_isNameChar hn) (List.all_eq_true.1 rfl)
  have hempty : table.toList.isEmpty = false := List.isEmpty_eq_false_iff.2 hne
  have hstrip := strip?_comparison ht (s := "here".toList ++ ' ' ::
    (column.toList ++ ' ' :: '=' :: ' ' :: Fields.quoted text.toList))
  simp only [read, toList_comparison, hstart]
  rw [show "where".toList = 'w' :: "here".toList from rfl, List.cons_append, hstrip,
    Option.getD_none, ← List.cons_append, ← show "where".toList = 'w' :: "here".toList from rfl,
    hfind]
  simp only [htrim, hempty, readCondition?_comparison hc, Bool.false_eq_true, if_false,
    String.ofList_toList]
  by_cases h : (trimOf isBlankOrQuote (Fields.doubled text.toList)).isEmpty = true
  · rw [if_pos h, if_pos h]
  · rw [if_neg h, if_neg h]

end Comparison

end Query
end TableShell
