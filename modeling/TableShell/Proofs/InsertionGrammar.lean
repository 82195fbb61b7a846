import TableShell.Proofs.InsertionSearches

/-
Insertions as their grammar divides them.

The column list and the value list are found by searches that do not know of each other. Where they
come to the same keyword, the texts that a statement is taken apart into divide it as the grammar
has it. They come to different ones exactly where a keyword that could close the column list stands
behind one that could open the value list; the value list is then open before the column list has
closed.
-/
namespace TableShell
namespace Insertion

open Text

/-- The texts for the table, the columns and the values that a trimmed statement is taken apart
into. -/
def texts? (s : List Char) : Option (List Char × List Char × List Char) :=
  (target? s).bind fun target =>
  (cut? (· == '(') target).bind fun (table, lists) =>
    if table.isEmpty || !onOneLine table || !isShaped lists then none
    else
      (columnList? lists).bind fun columns =>
      (valueList? target).map fun values => (table, columns, values)

theorem read_eq (statement : String) :
    read statement =
      match texts? (trim statement.toList) with
      | none => .error .insertSyntax
      | some (table, columns, values) => pair (trim table) columns values := by
  rw [read, texts?]
  cases target? (trim statement.toList) with
  | none => rfl
  | some target =>
    simp only [Option.bind_some]
    cases cut? (· == '(') target with
    | none => rfl
    | some parts =>
      simp only [Option.bind_some]
      split
      · rfl
      · cases columnList? parts.2 with
        | none => rfl
        | some columns => cases valueList? target <;> rfl

/-- The statement is `insert into table (columns) values (values)`: the keywords in any letter case,
blanks behind the first two, and blanks or nothing around the third. -/
def Divides (s table columns values : List Char) : Prop :=
  ∃ insert blanks₁ into blanks₂ blanks₃ word blanks₄,
    s = insert ++ blanks₁ ++ into ++ blanks₂ ++ table ++ '(' :: columns ++ ')' :: blanks₃ ++ word ++
      blanks₄ ++ '(' :: values ++ [')'] ∧
    insert.map foldCase = "insert".toList ∧ into.map foldCase = "into".toList ∧
    word.map foldCase = "values".toList ∧ blanks₁ ≠ [] ∧ blanks₂ ≠ [] ∧
    ∀ blanks ∈ [blanks₁, blanks₂, blanks₃, blanks₄], ∀ c ∈ blanks, isBlank c = true

/-- A keyword that could close the column list stands behind one that could open the value list. -/
def Crossed (s : List Char) : Prop :=
  ∃ target table lists columns values closing opening,
    target? s = some target ∧ target = table ++ '(' :: lists ∧ '(' ∉ table ∧
    ClosesAt lists columns closing ∧ OpensAt target opening values ∧
    closing.length < opening.length

theorem skipBlanks?_eq_some_iff {s r : List Char} :
    skipBlanks? s = some r ↔ (∀ c, r.head? = some c → isBlank c = false) ∧
      ∃ blanks, s = blanks ++ r ∧ blanks ≠ [] ∧ ∀ c ∈ blanks, isBlank c = true := by
  constructor
  · intro h
    cases s with
    | nil => exact absurd h (by simp [skipBlanks?])
    | cons c s =>
      rw [skipBlanks?] at h
      split at h
      · next hc =>
        obtain rfl := Option.some.inj h
        refine ⟨fun d hd => head?_trimStart hd, c :: s.takeWhile isBlank, ?_, by simp, ?_⟩
        · rw [List.cons_append]
          exact congrArg (c :: ·) List.takeWhile_append_dropWhile.symm
        · intro d hd
          rcases List.mem_cons.1 hd with rfl | hd
          · exact hc
          · exact List.all_eq_true.1 List.all_takeWhile d hd
      · exact absurd h (by simp)
  · intro h
    obtain ⟨hhead, blanks, rfl, hne, hb⟩ := h
    obtain ⟨c, blanks, rfl⟩ := List.exists_cons_of_ne_nil hne
    rw [List.cons_append, skipBlanks?, if_pos (hb c List.mem_cons_self),
      trimStart_append fun d hd => hb d (List.mem_cons_of_mem c hd), trimStart_eq_self hhead]

theorem target?_eq_some_iff {s target : List Char} :
    target? s = some target ↔ (∀ c, target.head? = some c → isBlank c = false) ∧
      ∃ insert blanks₁ into blanks₂, s = insert ++ (blanks₁ ++ (into ++ (blanks₂ ++ target))) ∧
        insert.map foldCase = "insert".toList ∧ into.map foldCase = "into".toList ∧
        (blanks₁ ≠ [] ∧ ∀ c ∈ blanks₁, isBlank c = true) ∧
        (blanks₂ ≠ [] ∧ ∀ c ∈ blanks₂, isBlank c = true) := by
  have hinto : ∀ p ∈ "into".toList, isWordChar p = true :=
    List.all_eq_true.1 (by decide +kernel)
  simp only [target?, Option.bind_eq_some_iff, strip?_eq_some_iff, skipBlanks?_eq_some_iff]
  constructor
  · intro h
    obtain ⟨s₁, ⟨insert, hi, rfl⟩, s₂, ⟨-, b₁, rfl, hb₁⟩, s₃, ⟨into, ho, rfl⟩, hhead, b₂, rfl,
      hb₂⟩ := h
    exact ⟨hhead, insert, b₁, into, b₂, rfl, hi, ho, hb₁, hb₂⟩
  · intro h
    obtain ⟨hhead, insert, b₁, into, b₂, rfl, hi, ho, hb₁, hb₂⟩ := h
    refine ⟨_, ⟨insert, hi, rfl⟩, _, ⟨?_, b₁, rfl, hb₁⟩, _, ⟨into, ho, rfl⟩, hhead, b₂, rfl, hb₂⟩
    intro c hc
    rw [← trimStart_keyword (by decide) hinto ho] at hc
    exact head?_trimStart hc

/-- What there is to a statement that is taken apart. -/
theorem texts?_eq_some_iff {s table columns values : List Char} :
    texts? s = some (table, columns, values) ↔
      ∃ target lists, target? s = some target ∧ target = table ++ '(' :: lists ∧ '(' ∉ table ∧
        table ≠ [] ∧ '\n' ∉ table ∧ isShaped lists = true ∧ columnList? lists = some columns ∧
        valueList? target = some values := by
  constructor
  · intro h
    obtain ⟨target, ht, h⟩ := Option.bind_eq_some_iff.1 h
    obtain ⟨⟨table', lists⟩, hcut, h⟩ := Option.bind_eq_some_iff.1 h
    obtain ⟨c, hc, hn, hs⟩ := cut?_eq_some_iff.1 hcut
    simp only at h
    split at h
    · exact absurd h (by simp)
    · next hguard =>
      obtain ⟨columns', hcolumns, h⟩ := Option.bind_eq_some_iff.1 h
      obtain ⟨values', hvalues, h⟩ := Option.map_eq_some_iff.1 h
      simp only [Prod.mk.injEq] at h
      obtain ⟨rfl, rfl, rfl⟩ := h
      rw [Bool.or_eq_true, Bool.or_eq_true, not_or, not_or, List.isEmpty_iff, Bool.not_eq_true,
        Bool.not_eq_true, Bool.not_eq_false', Bool.not_eq_false', onOneLine_iff] at hguard
      refine ⟨target, lists, ht, ?_, ?_, hguard.1.1, hguard.1.2, hguard.2, hcolumns, hvalues⟩
      · rw [hs, beq_iff_eq.1 hc]
      · exact fun hm => absurd (hn _ hm) (by decide)
  · intro h
    obtain ⟨target, lists, ht, rfl, hparen, hne, hline, hshaped, hcolumns, hvalues⟩ := h
    have hcut : cut? (· == '(') (table ++ '(' :: lists) = some (table, lists) :=
      cut?_append (fun d hd => beq_eq_false_iff_ne.2 (ne_of_mem_of_not_mem hd hparen)) rfl lists
    simp only [texts?, ht, hcut, Option.bind_some, List.isEmpty_eq_false_iff.2 hne,
      onOneLine_iff.2 hline, hshaped, hcolumns, hvalues, Option.map_some, Bool.not_true,
      Bool.or_self, Bool.false_eq_true, if_false]

/-- A value list opens behind one keyword only. -/
theorem opensAt_unique {target behind behind' values : List Char}
    (h : OpensAt target behind values) (h' : OpensAt target behind' values) : behind = behind' := by
  obtain ⟨before, word, hs, hw, -, -, -, blanks, rfl, hb⟩ := h
  obtain ⟨before', word', hs', hw', -, -, -, blanks', rfl, hb'⟩ := h'
  have hlast : ∀ {before word : List Char}, word.map foldCase = "values".toList →
      trimEnd (before ++ word) = before ++ word := by
    intro before word hw
    apply trimEnd_eq_self
    intro c hc
    have hne : word ≠ [] := by
      rintro rfl
      exact absurd hw (by decide)
    rw [List.getLast?_append_of_ne_nil _ hne] at hc
    exact isBlank_of_mem_keyword isWordChar_of_mem_values hw (List.mem_of_getLast? hc)
  rw [hs, ← List.append_assoc, ← List.append_assoc, ← List.append_assoc, ← List.append_assoc,
    List.append_left_inj] at hs'
  have htrim := congrArg trimEnd hs'
  rw [trimEnd_append hb, trimEnd_append hb', hlast hw, hlast hw'] at htrim
  rw [htrim, List.append_right_inj] at hs'
  rw [hs']

/-- A keyword that could close the column list and could open the value list too. -/
theorem exists_shared {lists : List Char} (h : isShaped lists = true) (table : List Char) :
    ∃ columns behind values, ClosesAt lists columns behind ∧
      OpensAt (table ++ '(' :: lists) behind values := by
  obtain ⟨columns, behind, values, -, hc, hl⟩ := isShaped_iff.1 h
  exact ⟨columns, behind, values, hc, opensAt_of_closesAt hc hl table⟩

/-- Where the lists divide the statement, they share a keyword. -/
theorem exists_shared_of_divides {s target table lists columns closing values opening : List Char}
    (h : Divides s table columns values) (ht : target? s = some target)
    (htarget : target = table ++ '(' :: lists) (hne : table ≠ [])
    (hc : ClosesAt lists columns closing) (ho : OpensAt target opening values) :
    ∃ behind, ClosesAt lists columns behind ∧ OpensAt target behind values := by
  obtain ⟨insert, b₁, into, b₂, b₃, word, b₄, hs, hi, hinto, hw, hb₁, hb₂, hb⟩ := h
  obtain ⟨hhead, -⟩ := target?_eq_some_iff.1 ht
  obtain ⟨-, -, -, -, -, hvalues, hline, -⟩ := ho
  have hlist : IsList (b₄ ++ '(' :: (values ++ [')'])) values :=
    ⟨hvalues, hline, b₄, rfl, hb b₄ (by simp)⟩
  have ht' : target? s = some (table ++ '(' :: (columns ++ ')' :: (b₃ ++ (word ++
      (b₄ ++ '(' :: (values ++ [')'])))))) := by
    refine target?_eq_some_iff.2 ⟨?_, insert, b₁, into, b₂, ?_, hi, hinto,
      ⟨hb₁, hb b₁ (by simp)⟩, ⟨hb₂, hb b₂ (by simp)⟩⟩
    · intro c h
      rw [List.head?_append_of_ne_nil _ hne] at h
      rw [htarget, List.head?_append_of_ne_nil _ hne] at hhead
      exact hhead c h
    · rw [hs]
      simp only [List.append_assoc, List.cons_append]
  rw [ht, htarget, Option.some.injEq, List.append_right_inj, List.cons.injEq] at ht'
  have hcloses : ClosesAt lists columns (b₄ ++ '(' :: (values ++ [')'])) :=
    ⟨hc.1, b₃, word, ht'.2, hb b₃ (by simp), hw, atBoundary_of_isList hlist⟩
  exact ⟨_, hcloses, htarget ▸ opensAt_of_closesAt hcloses hlist table⟩

/-- Where they share a keyword, they divide it. -/
theorem divides_of_shared {s target table lists columns behind values : List Char}
    (ht : target? s = some target) (htarget : target = table ++ '(' :: lists)
    (hc : ClosesAt lists columns behind) (ho : OpensAt target behind values) :
    Divides s table columns values := by
  obtain ⟨-, insert, b₁, into, b₂, rfl, hi, hinto, ⟨hne₁, hb₁⟩, ⟨hne₂, hb₂⟩⟩ :=
    target?_eq_some_iff.1 ht
  obtain ⟨-, b₃, word, rfl, hb₃, hw, -⟩ := hc
  obtain ⟨-, -, -, -, -, -, -, b₄, rfl, hb₄⟩ := ho
  refine ⟨insert, b₁, into, b₂, b₃, word, b₄, ?_, hi, hinto, hw, hne₁, hne₂, ?_⟩
  · rw [htarget]
    simp only [List.append_assoc, List.cons_append]
  · simp only [List.forall_mem_cons]
    exact ⟨hb₁, hb₂, hb₃, hb₄, by simp⟩

theorem behind_eq_of_length_eq {lists table columns closing opening values : List Char}
    (hc : ClosesAt lists columns closing) (ho : OpensAt (table ++ '(' :: lists) opening values)
    (h : closing.length = opening.length) : closing = opening := by
  obtain ⟨-, blanks, word, rfl, -⟩ := hc
  obtain ⟨before, word', hs, -⟩ := ho
  have hs' : (table ++ '(' :: (columns ++ ')' :: (blanks ++ word))) ++ closing =
      (before ++ word') ++ opening := by
    rw [List.append_assoc before, ← hs]
    simp only [List.append_assoc, List.cons_append]
  exact List.append_inj_right' hs' h

/-- The texts that a statement is taken apart into divide it as the grammar has it exactly where no
keyword that could close the column list stands behind one that could open the value list. -/
theorem divides_iff {s table columns values : List Char}
    (h : texts? s = some (table, columns, values)) :
    Divides s table columns values ↔ ¬ Crossed s := by
  obtain ⟨target, lists, ht, htarget, hparen, hne, -, hshaped, hcolumns, hvalues⟩ :=
    texts?_eq_some_iff.1 h
  obtain ⟨closing, hc, hleast⟩ := columnList?_spec hcolumns
  obtain ⟨opening, ho, hgreatest⟩ := valueList?_spec hvalues
  constructor
  · intro hdivides hcrossed
    obtain ⟨target', table', lists', columns', values', closing', opening', ht', htarget', hparen',
      hc', ho', hlt⟩ := hcrossed
    obtain rfl := Option.some.inj (ht.symm.trans ht')
    obtain ⟨rfl, rfl⟩ := append_cons_injective hparen hparen' (htarget.symm.trans htarget')
    obtain ⟨behind, hcs, hos⟩ := exists_shared_of_divides hdivides ht htarget hne hc ho
    have h₁ := hleast _ _ hc'
    have h₂ := hgreatest _ _ ho'
    have h₃ := length_behind_le hc hcs (Nat.le_refl _)
    rw [opensAt_unique ho hos] at h₂
    have h₄ := length_behind_le hcs hc (Nat.le_refl _)
    omega
  · intro hcrossed
    obtain ⟨columns', behind, values', hcs, hos⟩ := exists_shared hshaped table
    rw [← htarget] at hos
    have h₁ := hleast _ _ hcs
    have h₂ := hgreatest _ _ hos
    have h₃ : opening.length ≤ closing.length := by
      by_contra hlt
      exact hcrossed ⟨target, table, lists, columns, values, closing, opening, ht, htarget, hparen,
        hc, ho, by omega⟩
    have heq : closing = opening := behind_eq_of_length_eq hc (htarget ▸ ho) (by omega)
    exact divides_of_shared ht htarget hc (heq ▸ ho)

/-- The insertion is what texts for the table, the columns and the values come to: the columns are
paired with the values, and one named again keeps its first place and takes its last value. -/
structure Pairs (insertion : Insertion) (table columns values : List Char) : Prop where
  not_mem_table : '(' ∉ table
  table_ne_nil : trim table ≠ []
  table_eq : insertion.table = String.ofList (trim table)
  length_eq : (Fields.split columns).length = (Fields.split values).length
  values_eq : insertion.values = .ofList (((Fields.split columns).map String.ofList).zip
    ((Fields.split values).map fun s => .text (String.ofList s)))

theorem trim_ne_nil {s : List Char} (hne : s ≠ []) (h : ∀ c, s.head? = some c → isBlank c = false) :
    trim s ≠ [] := by
  intro htrim
  obtain ⟨a, b, ha, hb, hs⟩ := exists_append_trim s
  rw [htrim, List.append_nil] at hs
  obtain ⟨c, t, rfl⟩ := List.exists_cons_of_ne_nil hne
  have hc : c ∈ a ++ b := hs ▸ List.mem_cons_self
  have hblank : isBlank c = true := (List.mem_append.1 hc).elim (ha c) (hb c)
  rw [h c rfl] at hblank
  exact Bool.false_ne_true hblank

theorem pairs_of_pair {table columns values : List Char} {insertion : Insertion}
    (hn : '(' ∉ table) (hne : trim table ≠ [])
    (h : pair (trim table) columns values = .ok insertion) :
    insertion.Pairs table columns values := by
  rw [pair] at h
  split at h
  · next hlen =>
    rw [List.length_map, List.length_map] at hlen
    obtain rfl := Except.ok.inj h
    exact ⟨hn, hne, rfl, hlen, rfl⟩
  · exact absurd h (by simp)

/-- Whatever is read is what the texts that the statement is taken apart into come to. They divide
the statement as the grammar has it, so that no part of it is read twice, exactly where no keyword
that could close the column list stands behind one that could open the value list. -/
theorem read_divides_iff {statement : String} {insertion : Insertion}
    (h : read statement = .ok insertion) :
    ∃ table columns values, texts? (trim statement.toList) = some (table, columns, values) ∧
      insertion.Pairs table columns values ∧
      (Divides (trim statement.toList) table columns values ↔
        ¬ Crossed (trim statement.toList)) := by
  rw [read_eq] at h
  cases htexts : texts? (trim statement.toList) with
  | none =>
    rw [htexts] at h
    exact absurd h (by simp)
  | some texts =>
    obtain ⟨table, columns, values⟩ := texts
    rw [htexts] at h
    obtain ⟨target, lists, ht, htarget, hparen, hne, -⟩ := texts?_eq_some_iff.1 htexts
    have hhead := (target?_eq_some_iff.1 ht).1
    rw [htarget, List.head?_append_of_ne_nil _ hne] at hhead
    exact ⟨table, columns, values, rfl, pairs_of_pair hparen (trim_ne_nil hne hhead) h,
      divides_iff htexts⟩

/-- The keyword as a column and in texts, a column twice, and parentheses in the texts. -/
theorem read_divides_mixed :
    let statement := " Insert into my_values (values, n, n)VALUES ('x) value', ' values (', 1) "
    ∃ insertion, read statement = .ok insertion ∧ insertion.table = "my_values" ∧
      insertion.values = .ofList [("values", .text "x) value"), ("n", .text "1")] ∧
      ∃ table columns values, insertion.Pairs table columns values ∧
        Divides (trim statement.toList) table columns values ∧
        ¬ Crossed (trim statement.toList) := by
  intro statement
  have hread : read statement = .ok ⟨"my_values",
      .ofList [("values", .text "x) value"), ("n", .text "1")]⟩ := by
    decide +kernel
  obtain ⟨table, columns, values, htexts, hpairs, hdivides⟩ := read_divides_iff hread
  have hvalue : texts? (trim statement.toList) = some ("my_values ".toList,
      "values, n, n".toList, "'x) value', ' values (', 1".toList) := by
    decide +kernel
  obtain ⟨rfl, rfl, rfl⟩ : _ ∧ _ ∧ _ := by
    simpa only [htexts, Option.some.injEq, Prod.mk.injEq] using hvalue
  have hd : Divides (trim statement.toList) "my_values ".toList "values, n, n".toList
      "'x) value', ' values (', 1".toList :=
    ⟨"Insert".toList, [' '], "into".toList, [' '], [], "VALUES".toList, [' '], by decide +kernel,
      by decide, by decide, by decide, by decide, by decide, by simp; decide⟩
  exact ⟨_, hread, rfl, rfl, _, _, _, hpairs, hd, hdivides.1 hd⟩

/-- In a table named like the keyword the value list begins where the column list does: what is read
is no division of the statement. -/
theorem read_keyword_not_divides :
    let statement := "insert into values (a) values (1)"
    let insertion : Insertion := ⟨"values", .ofList [("a", .text "a) values (1")]⟩
    read statement = .ok insertion ∧
      ¬ ∃ table columns values, Divides (trim statement.toList) table columns values ∧
        insertion.Pairs table columns values := by
  intro statement insertion
  refine ⟨by decide +kernel, ?_⟩
  intro h
  obtain ⟨table, columns, values, hdivides, hpairs⟩ := h
  obtain ⟨insert, b₁, into, b₂, b₃, word, b₄, hs, -⟩ := hdivides
  have hcount : (trim statement.toList).count '(' = 2 := by decide +kernel
  have hlast : cutLast? (· == '(') (trim statement.toList) =
      some ("insert into values (a) values ".toList, ['1', ')']) := by
    decide +kernel
  have hparen : '(' ∉ values := by
    rw [hs] at hcount
    simp only [List.count_append, List.count_cons, beq_self_eq_true, if_true] at hcount
    exact List.count_eq_zero.1 (by omega)
  have hvalues : values ++ [')'] = ['1', ')'] := by
    rw [hs, List.append_assoc, List.cons_append, cutLast?_append _ rfl] at hlast
    · exact (Prod.mk.inj (Option.some.inj hlast)).2
    · intro d hd
      have hd' : d ∈ values ∨ d = ')' := by simpa using hd
      rcases hd' with hd' | rfl
      · exact beq_eq_false_iff_ne.2 (ne_of_mem_of_not_mem hd' hparen)
      · rfl
  have hone : values = ['1'] := (List.append_inj' hvalues rfl).1
  have hsplit : Fields.split ['1'] = [['1']] := by decide +kernel
  have hlength := hpairs.length_eq
  have hmap := hpairs.values_eq
  rw [hone, hsplit] at hlength hmap
  obtain ⟨name, hname⟩ := List.length_eq_one_iff.1 hlength
  rw [hname] at hmap
  have htext : [Value.text "a) values (1"] = [.text "1"] := congrArg OrderedMap.values hmap
  exact absurd htext (by decide)

end Insertion
end TableShell
