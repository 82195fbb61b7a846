import TableShell.Proofs.InsertionLayout

/-
Reading back a written insertion.

`Insertion.statement` writes an insertion with every text quoted. Reading finds its table and its
texts; it finds its columns as long as no text holds a mark that the column list could run to.
-/
namespace TableShell

namespace Text

namespace Fields

/-- Where a list of names runs on behind a closing parenthesis, that parenthesis gets into the field
of the last name. -/
theorem exists_mem_split {names : List String} (hne : names ≠ [])
    (hn : ∀ n ∈ names, Name.isValid n = true) (s : List Char) :
    ∃ field ∈ split ([',', ' '].intercalate (names.map String.toList) ++ ')' :: s),
      ')' ∈ field := by
  induction names with
  | nil => exact absurd rfl hne
  | cons n names ih =>
    have hv := hn n List.mem_cons_self
    cases names with
    | nil =>
      simp only [List.map_cons, List.map_nil, List.intercalate_singleton]
      obtain ⟨c, n, hs, hb, hq, hcomma⟩ := exists_bare hv
      rw [hs, split, rawField_bare hb hq hcomma]
      refine ⟨_, List.mem_cons_self, mem_trim (by decide) ?_⟩
      rw [List.takeWhile_cons, if_pos (by decide)]
      exact List.mem_append_right _ List.mem_cons_self
    | cons n' names =>
      have hnames : ∀ u ∈ n' :: names, Name.isValid u = true :=
        fun u hu => hn u (List.mem_cons_of_mem _ hu)
      obtain ⟨field, hf, hm⟩ := ih (List.cons_ne_nil _ _) hnames
      refine ⟨field, ?_, hm⟩
      simp only [List.map_cons] at hf ⊢
      rw [List.intercalate_cons_cons, List.append_assoc, List.append_assoc, List.cons_append,
        List.singleton_append, split_isRead_append (isRead_name hv)]
      exact List.mem_cons_of_mem _ hf

end Fields
end Text

namespace Insertion

open Text

/-- The statement that enters a text, quoted, under each of the columns. -/
def statement (table : String) (given : List (String × String)) : String :=
  "insert into " ++ table ++ " (" ++ ", ".intercalate (given.map Prod.fst) ++ ") values (" ++
    ", ".intercalate (given.map fun g => literal g.2) ++ ")"

/-- What the statement says: each column once, at its first place and with its last text. -/
structure Enters (insertion : Insertion) (table : String) (given : List (String × String)) :
    Prop where
  table_eq : insertion.table = table
  keys_eq : insertion.values.keys = (given.map Prod.fst).eraseDups
  get?_eq : ∀ column, insertion.values.get? column =
    (given.reverse.lookup column).map fun s => .text (trimmed s)

section Statement

variable {table : String} {given : List (String × String)}

/-- The value list as it is written. -/
def valueText (given : List (String × String)) : List Char :=
  [',', ' '].intercalate ((given.map fun g => g.2.toList).map Fields.quoted)

theorem toList_statement (table : String) (given : List (String × String)) :
    (statement table given).toList = layout table (given.map Prod.fst) (valueText given) := by
  have htexts : (given.map fun g => literal g.2).map String.toList =
      (given.map fun g => g.2.toList).map Fields.quoted := by
    simp [literal, Function.comp_def]
  unfold statement
  rw [toList_layout, htexts, valueText]

theorem columns_ne_nil (hne : given ≠ []) : given.map Prod.fst ≠ [] :=
  fun h => hne (List.map_eq_nil_iff.1 h)

theorem columns_valid (hc : ∀ g ∈ given, Name.isValid g.1 = true) :
    ∀ n ∈ given.map Prod.fst, Name.isValid n = true := by
  intro n hn
  obtain ⟨g, hg, rfl⟩ := List.mem_map.1 hn
  exact hc g hg

theorem valueText_ne_nil (hne : given ≠ []) : valueText given ≠ [] := by
  refine intercalate_ne_nil (by simpa using hne) ?_
  intro t ht
  obtain ⟨s, -, rfl⟩ := List.mem_map.1 ht
  exact Fields.quoted_ne_nil s

theorem not_mem_valueText (hl : ∀ g ∈ given, '\n' ∉ g.2.toList) : '\n' ∉ valueText given := by
  apply not_mem_intercalate (by decide)
  intro t ht
  simp only [List.map_map, List.mem_map, Function.comp_apply] at ht
  obtain ⟨g, hg, rfl⟩ := ht
  exact Fields.not_mem_quoted (by decide) (hl g hg)

/-- The value list is marked exactly where one of the texts is. -/
theorem marked_valueText (given : List (String × String)) :
    marked (valueText given ++ [')']) = given.any fun g => marked g.2.toList := by
  rw [valueText, marked_intercalate_quoted, List.any_map]
  rfl

theorem read_statement_of_not_marked (ht : Name.isValid table = true)
    (hv : isPhrase "values".toList table.toList = false) (hne : given ≠ [])
    (hc : ∀ g ∈ given, Name.isValid g.1 = true) (hl : ∀ g ∈ given, '\n' ∉ g.2.toList)
    (hm : ∀ g ∈ given, ¬ Marked g.2.toList) :
    read (statement table given) =
      .ok ⟨table, .ofList (given.map fun g => (g.1, .text (trimmed g.2)))⟩ := by
  have htexts : valueText given =
      [',', ' '].intercalate (given.map fun g => Fields.quoted g.2.toList) := by
    rw [valueText, List.map_map]
    rfl
  have hnot : marked (valueText given ++ [')']) = false := by
    rw [marked_valueText, List.any_eq_false]
    exact fun g hg hmg => hm g hg (marked_iff.1 hmg)
  have hs := toList_statement table given
  rw [htexts] at hnot hs
  exact read_texts ht hv hne hc (fun g _ => Fields.isRead_quoted g.2.toList)
    (fun g _ => Fields.quoted_ne_nil g.2.toList)
    (fun g hg => Fields.not_mem_quoted (by decide) (hl g hg)) hnot hs

/-- Where a text is marked, a column that is no name comes out of the statement, if anything
does. -/
theorem exists_key_of_marked (ht : Name.isValid table = true)
    (hv : isPhrase "values".toList table.toList = false) (hne : given ≠ [])
    (hc : ∀ g ∈ given, Name.isValid g.1 = true) (hl : ∀ g ∈ given, '\n' ∉ g.2.toList)
    (hm : ∃ g ∈ given, Marked g.2.toList) {insertion : Insertion}
    (h : read (statement table given) = .ok insertion) :
    ∃ key ∈ insertion.values.keys, ')' ∈ key.toList := by
  have hmarked : marked (valueText given ++ [')']) = true := by
    rw [marked_valueText, List.any_eq_true]
    obtain ⟨g, hg, hmg⟩ := hm
    exact ⟨g, hg, marked_iff.2 hmg⟩
  have hl' := not_mem_valueText hl
  obtain ⟨list, hlist⟩ :=
    columnList?_of_marked (columns_ne_nil hne) (columns_valid hc) hl' hmarked
  rw [read_layout ht hv (columns_ne_nil hne) (columns_valid hc) (valueText_ne_nil hne) hl'
    (toList_statement table given) hlist, pair] at h
  split at h
  · next hlen =>
    obtain ⟨field, hf, hmf⟩ := Fields.exists_mem_split (columns_ne_nil hne) (columns_valid hc) list
    refine ⟨String.ofList field, ?_, by rwa [String.toList_ofList]⟩
    rw [← Except.ok.inj h, OrderedMap.mem_keys_ofList, List.map_fst_zip (Nat.le_of_eq hlen)]
    exact List.mem_map_of_mem hf
  · exact absurd h (by simp)

theorem enters_ofList (table : String) (given : List (String × String)) :
    Enters ⟨table, .ofList (given.map fun g => (g.1, .text (trimmed g.2)))⟩ table given where
  table_eq := rfl
  keys_eq := by
    rw [OrderedMap.keys_ofList, List.map_map]
    rfl
  get?_eq column := by
    rw [OrderedMap.get?_ofList, ← List.map_reverse]
    exact OrderedMap.lookup_map given.reverse (fun s => Value.text (trimmed s)) column

/-- A written insertion is read as what it says exactly where no text holds a mark: a closing
parenthesis and behind it, but for blanks, the whole word `values`. -/
theorem read_statement_enters_iff (ht : Name.isValid table = true)
    (hv : isPhrase "values".toList table.toList = false) (hne : given ≠ [])
    (hc : ∀ g ∈ given, Name.isValid g.1 = true) (hl : ∀ g ∈ given, '\n' ∉ g.2.toList) :
    (∃ insertion, read (statement table given) = .ok insertion ∧ insertion.Enters table given) ↔
      ∀ g ∈ given, ¬ Marked g.2.toList := by
  constructor
  · intro h g hg hm
    obtain ⟨insertion, hr, hi⟩ := h
    obtain ⟨key, hk, hparen⟩ := exists_key_of_marked ht hv hne hc hl ⟨g, hg, hm⟩ hr
    rw [hi.keys_eq, List.mem_eraseDups] at hk
    obtain ⟨g', hg', rfl⟩ := List.mem_map.1 hk
    have hname := (Name.isValid_iff.1 (hc g' hg')).2 _ hparen
    exact absurd hname (by decide)
  · intro hm
    exact ⟨_, read_statement_of_not_marked ht hv hne hc hl hm, enters_ofList table given⟩

end Statement

/-- Commas, quotes, parentheses and the keyword itself in a text do no harm, and neither does a
column or the table with a keyword in its name. -/
theorem read_statement_enters_unmarked :
    let given := [("values", "it's (a, b)"), ("n", " values (1) "), ("values", ")value s")]
    ∃ insertion, read (statement "my_values" given) = .ok insertion ∧
      insertion.Enters "my_values" given := by
  intro given
  have hm : ∀ g ∈ given, marked g.2.toList = false := by decide +kernel
  refine (read_statement_enters_iff (by decide) (by decide) (by decide) (by decide)
    (by decide)).2 ?_
  intro g hg h
  rw [← marked_iff, hm g hg] at h
  exact absurd h (by decide)

/-- A marked text moves the end of the column list into the value list: the text is entered, and
no error reported, under a column that the statement does not name. -/
theorem read_statement_marked :
    let given := [("c", "x) values y")]
    read (statement "t" given) =
        .ok ⟨"t", .ofList [("c) values (\x27x", .text "x) values y")]⟩ ∧
      ¬ ∃ insertion, read (statement "t" given) = .ok insertion ∧ insertion.Enters "t" given := by
  intro given
  have hr : read (statement "t" given) =
      .ok ⟨"t", .ofList [("c) values (\x27x", .text "x) values y")]⟩ := by
    decide +kernel
  refine ⟨hr, ?_⟩
  intro h
  obtain ⟨insertion, hi, he⟩ := h
  have hk := he.keys_eq
  rw [← Except.ok.inj (hr.symm.trans hi)] at hk
  exact absurd hk (by decide +kernel)

end Insertion
end TableShell
