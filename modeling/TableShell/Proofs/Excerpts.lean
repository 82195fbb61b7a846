import TableShell.Proofs.Failures
import TableShell.Proofs.InsertionGrammar

/-
What is read out of a text has no characters but those of the text.

So it is for trimming, cutting and splitting, for the statements read by them, and for the causes of
failures: an error repeats only what the command said.
-/
namespace TableShell

namespace Text

theorem trimOf_subset (p : Char → Bool) (s : List Char) : trimOf p s ⊆ s := by
  intro c hc
  have hc := List.dropWhile_subset p (List.mem_reverse.1 hc)
  exact List.dropWhile_subset p (List.mem_reverse.1 hc)

theorem trim_subset (s : List Char) : trim s ⊆ s :=
  trimOf_subset isBlank s

theorem strip?_subset {fold : Char → Char} {phrase s r : List Char}
    (h : strip? fold phrase s = some r) : r ⊆ s := by
  obtain ⟨_, -, rfl⟩ := strip?_eq_some_iff.1 h
  exact List.subset_append_right _ _

/-- A phrase in front is left out where it is there. -/
theorem getD_strip?_subset (fold : Char → Char) (phrase s : List Char) :
    (strip? fold phrase (trimStart s)).getD s ⊆ s := by
  cases h : strip? fold phrase (trimStart s) with
  | none => exact List.Subset.refl s
  | some r => exact List.Subset.trans (strip?_subset h) (List.dropWhile_subset isBlank)

theorem cut?_subset {p : Char → Bool} {s a b : List Char} (h : cut? p s = some (a, b)) :
    a ⊆ s ∧ b ⊆ s := by
  obtain ⟨c, -, -, rfl⟩ := cut?_eq_some_iff.1 h
  exact ⟨List.subset_append_left a _,
    List.Subset.trans (List.subset_cons_self c b) (List.subset_append_right a _)⟩

theorem cutLast?_subset {p : Char → Bool} {s a b : List Char} (h : cutLast? p s = some (a, b)) :
    a ⊆ s ∧ b ⊆ s := by
  obtain ⟨c, -, -, rfl⟩ := cutLast?_eq_some_iff.1 h
  exact ⟨List.subset_append_left a _,
    List.Subset.trans (List.subset_cons_self c b) (List.subset_append_right a _)⟩

theorem subset_intercalate {sep t : List Char} {ts : List (List Char)} (h : t ∈ ts) :
    t ⊆ sep.intercalate ts := by
  induction ts with
  | nil => exact absurd h List.not_mem_nil
  | cons t' ts ih =>
    cases ts with
    | nil =>
      rw [List.intercalate_singleton, List.mem_singleton.1 h]
      exact List.Subset.refl t'
    | cons t'' ts =>
      rw [List.intercalate_cons_cons]
      rcases List.mem_cons.1 h with rfl | h
      · exact List.Subset.trans (List.subset_append_left t sep) (List.subset_append_left _ _)
      · exact List.Subset.trans (ih h) (List.subset_append_right _ _)

theorem splitOn_subset {c : Char} {s part : List Char} (h : part ∈ s.splitOn c) : part ⊆ s := by
  have hparts : part ⊆ [c].intercalate (s.splitOn c) := subset_intercalate h
  rwa [List.intercalate_splitOn] at hparts

theorem findWord?_subset {α : Type} {word : List Char} {accept : List Char → Option α}
    {inWord : Bool} {s before : List Char} {a : α}
    (h : findWord? word accept inWord s = some (before, a)) : before ⊆ s := by
  obtain ⟨t, -, rfl, -⟩ := findWord?_spec h
  exact List.subset_append_left before t

namespace Fields

theorem body_subset (s : List Char) : (body s).1 ⊆ s ∧ (body s).2 ⊆ s := by
  fun_induction body s with
  | case1 => exact ⟨List.Subset.refl _, List.Subset.refl _⟩
  | case2 => exact ⟨List.nil_subset _, List.nil_subset _⟩
  | case3 c hc => exact ⟨List.Subset.refl _, List.nil_subset _⟩
  | case4 s rest ih =>
    have hs : s ⊆ quoteChar :: quoteChar :: s :=
      List.Subset.trans (List.subset_cons_self _ _) (List.subset_cons_self _ _)
    exact ⟨List.cons_subset.2 ⟨List.mem_cons_self, List.Subset.trans ih.1 hs⟩,
      List.Subset.trans ih.2 hs⟩
  | case5 d s hd => exact ⟨List.nil_subset _, List.subset_cons_self _ _⟩
  | case6 c d s hc rest ih =>
    have hs : d :: s ⊆ c :: d :: s := List.subset_cons_self _ _
    exact ⟨List.cons_subset.2 ⟨List.mem_cons_self, List.Subset.trans ih.1 hs⟩,
      List.Subset.trans ih.2 hs⟩

theorem rawField_subset (s : List Char) : (rawField s).1 ⊆ s ∧ (rawField s).2 ⊆ s := by
  have hs : trimStart s ⊆ s := List.dropWhile_subset isBlank
  rw [rawField]
  split
  · exact ⟨List.nil_subset s, List.nil_subset s⟩
  · next c r hr =>
    rw [hr] at hs
    split
    · obtain ⟨hfield, hrest⟩ := body_subset r
      have hr : r ⊆ s := List.Subset.trans (List.subset_cons_self c r) hs
      refine ⟨List.append_subset.2 ⟨List.Subset.trans hfield hr, ?_⟩, ?_⟩
      · exact List.Subset.trans (List.takeWhile_subset _) (List.Subset.trans hrest hr)
      · exact List.Subset.trans (List.dropWhile_subset _) (List.Subset.trans hrest hr)
    · exact ⟨List.Subset.trans (List.takeWhile_subset _) hs,
        List.Subset.trans (List.dropWhile_subset _) hs⟩

theorem split_subset {s field : List Char} (h : field ∈ split s) : field ⊆ s := by
  induction s using split.induct with
  | case1 s raw ih =>
    obtain ⟨hfirst, hrest⟩ := rawField_subset s
    rw [split] at h
    rcases List.mem_cons.1 h with rfl | h
    · exact List.Subset.trans (trim_subset _) hfirst
    · split at h
      · exact absurd h List.not_mem_nil
      · next c r hr =>
        rw [hr] at hrest
        exact List.Subset.trans (ih c r hr h)
          (List.Subset.trans (List.subset_cons_self c r) hrest)

end Fields
end Text

open Text

/-! ### Errors -/

/-- What the message of an error repeats of the command. -/
def Error.echo : Error → List Char
  | invalidName name | invalidColumnName name | databaseExists name | tableExists name
  | missingType name | unsupportedType name | unknownDatabase name | unknownTable name =>
    name.toList
  | _ => []

theorem Name.echo_of_check {name : String} {cause : Error} (h : check name = .error cause) :
    cause.echo ⊆ name.toList := by
  rw [check] at h
  split at h
  · exact absurd h (by simp)
  · rw [← Except.error.inj h]
    exact List.Subset.refl _

theorem Table.echo_of_create {name : String} {columns : List (String × String)} {cause : Error}
    (h : create name columns = .error cause) {s : List Char} (hn : name.toList ⊆ s)
    (hs : ∀ e ∈ columns, e.1.toList ⊆ s ∧ e.2.toList ⊆ s) : cause.echo ⊆ s := by
  have hfirst : ∀ {p : String × String → Bool} {e : String × String},
      (OrderedMap.settled columns).find? p = some e → e.1.toList ⊆ s ∧ e.2.toList ⊆ s :=
    fun hf => hs _ (OrderedMap.mem_of_mem_settled (List.mem_of_find?_eq_some hf))
  cases h ▸ judged_create name columns with
  | invalidName _ => exact hn
  | noColumns _ _ => exact List.nil_subset s
  | invalidColumnName _ hf => exact (hfirst hf).1
  | unsupportedType _ _ hf => exact (hfirst hf).2

/-! ### Statements -/

namespace Definition

theorem group?_subset {s block rest : List Char} (h : group? s = some (block, rest)) :
    block ⊆ s := by
  obtain ⟨⟨before, behind⟩, hopen, hclose⟩ := Option.bind_eq_some_iff.1 h
  exact List.Subset.trans (cut?_subset hclose).1 (cut?_subset hopen).2

theorem clauses_subset {block clause : List Char} (h : clause ∈ clauses block) :
    clause ⊆ block := by
  obtain ⟨part, hm, rfl⟩ := List.mem_map.1 (List.mem_filter.1 h).1
  exact List.Subset.trans (trim_subset part) (splitOn_subset hm)

theorem readClause_subset {clause : List Char} {column : String × String}
    (h : readClause clause = .ok column) :
    column.1.toList ⊆ clause ∧ column.2.toList ⊆ clause := by
  rw [readClause] at h
  split at h
  · exact absurd h (by simp)
  · next before behind hc =>
    obtain ⟨hbefore, hbehind⟩ := cutLast?_subset hc
    rw [← Except.ok.inj h, String.toList_ofList, String.toList_ofList]
    exact ⟨List.Subset.trans (trim_subset before) hbefore, hbehind⟩

theorem readClauses_subset {parts : List (List Char)} {columns : List (String × String)}
    (h : readClauses parts = .ok columns) {s : List Char} (hs : ∀ part ∈ parts, part ⊆ s) :
    ∀ e ∈ columns, e.1.toList ⊆ s ∧ e.2.toList ⊆ s := by
  induction parts generalizing columns with
  | nil =>
    rw [← Except.ok.inj h]
    exact fun e he => absurd he List.not_mem_nil
  | cons part parts ih =>
    rw [List.forall_mem_cons] at hs
    rw [readClauses] at h
    split at h
    · exact absurd h (by simp)
    · next column hc =>
      split at h
      · exact absurd h (by simp)
      · next columns' hcs =>
        obtain ⟨hname, htype⟩ := readClause_subset hc
        rw [← Except.ok.inj h, List.forall_mem_cons]
        exact ⟨⟨List.Subset.trans hname hs.1, List.Subset.trans htype hs.1⟩, ih hcs hs.2⟩

theorem echo_of_readClauses {parts : List (List Char)} {cause : Error}
    (h : readClauses parts = .error cause) : ∃ part ∈ parts, cause.echo ⊆ part := by
  induction parts with
  | nil => exact absurd h (by simp [readClauses])
  | cons part parts ih =>
    rw [readClauses] at h
    split at h
    · next hc =>
      rw [readClause] at hc
      split at hc
      · rw [← Except.error.inj h, ← Except.error.inj hc]
        refine ⟨part, List.mem_cons_self, ?_⟩
        rw [Error.echo, String.toList_ofList]
        exact List.Subset.refl part
      · exact absurd hc (by simp)
    · split at h
      · next hc =>
        obtain ⟨part', hm, hecho⟩ := ih (hc.trans h)
        exact ⟨part', List.mem_cons_of_mem part hm, hecho⟩
      · exact absurd h (by simp)

theorem read_subset {text : String} {definition : Definition} (h : read text = .ok definition) :
    definition.name.toList ⊆ text.toList ∧
      ∀ e ∈ definition.columns, e.1.toList ⊆ text.toList ∧ e.2.toList ⊆ text.toList := by
  have hs := getD_strip?_subset Char.toLower "create table ".toList text.toList
  simp only [read] at h
  generalize (strip? Char.toLower "create table ".toList (trimStart text.toList)).getD
    text.toList = s at h hs
  have hname : (String.ofList (trim (s.takeWhile (· != '(')))).toList ⊆ text.toList := by
    rw [String.toList_ofList]
    exact List.Subset.trans (trim_subset _) (List.Subset.trans (List.takeWhile_subset _) hs)
  split at h
  · rw [← Except.ok.inj h]
    exact ⟨hname, fun e he => absurd he List.not_mem_nil⟩
  · next block rest hg =>
    have hblock : block ⊆ text.toList := List.Subset.trans (group?_subset hg) hs
    split at h
    · exact absurd h (by simp)
    · split at h
      · exact absurd h (by simp)
      · next columns hc =>
        rw [← Except.ok.inj h]
        refine ⟨hname, readClauses_subset hc fun clause hm => ?_⟩
        exact List.Subset.trans (clauses_subset hm) hblock

theorem echo_of_read {text : String} {cause : Error} (h : read text = .error cause) :
    cause.echo ⊆ text.toList := by
  have hs := getD_strip?_subset Char.toLower "create table ".toList text.toList
  simp only [read] at h
  generalize (strip? Char.toLower "create table ".toList (trimStart text.toList)).getD
    text.toList = s at h hs
  split at h
  · exact absurd h (by simp)
  · next block rest hg =>
    have hblock : block ⊆ text.toList := List.Subset.trans (group?_subset hg) hs
    split at h
    · rw [← Except.error.inj h]
      exact List.nil_subset _
    · split at h
      · next hc =>
        rw [← Except.error.inj h]
        obtain ⟨clause, hm, hecho⟩ := echo_of_readClauses hc
        exact List.Subset.trans hecho (List.Subset.trans (clauses_subset hm) hblock)
      · exact absurd h (by simp)

theorem echo_of_readTable {text : String} {cause : Error} (h : readTable text = .error cause) :
    cause.echo ⊆ text.toList := by
  rw [readTable] at h
  split at h
  · next hc =>
    rw [← Except.error.inj h]
    exact echo_of_read hc
  · next definition hd =>
    obtain ⟨hname, hcolumns⟩ := read_subset hd
    exact Table.echo_of_create h hname hcolumns

theorem readTable_subset {text : String} {table : Table} (h : readTable text = .ok table) :
    table.name.toList ⊆ text.toList := by
  rw [readTable] at h
  split at h
  · exact absurd h (by simp)
  · next definition hd =>
    obtain ⟨-, -, schema, rfl⟩ := Table.create_eq_ok h
    exact (read_subset hd).1

end Definition

namespace Query

theorem read_subset {text : String} {query : Query} (h : read text = .ok query) :
    query.table.toList ⊆ text.toList := by
  have hs := getD_strip?_subset Char.toLower "select * from ".toList text.toList
  simp only [read] at h
  generalize (strip? Char.toLower "select * from ".toList (trimStart text.toList)).getD
    text.toList = s at h hs
  split at h
  · split at h
    · exact absurd h (by simp)
    · rw [← Except.ok.inj h, String.toList_ofList]
      exact List.Subset.trans (trim_subset s) hs
  · next before clause hf =>
    split at h
    · exact absurd h (by simp)
    · split at h
      · exact absurd h (by simp)
      · rw [← Except.ok.inj h, String.toList_ofList]
        exact List.Subset.trans (trim_subset before) (List.Subset.trans (findWord?_subset hf) hs)

theorem echo_of_read {text : String} {cause : Error} (h : read text = .error cause) :
    cause.echo = [] := by
  simp only [read] at h
  generalize (strip? Char.toLower "select * from ".toList (trimStart text.toList)).getD
    text.toList = s at h
  split at h
  · split at h
    · rw [← Except.error.inj h]
      rfl
    · exact absurd h (by simp)
  · split at h
    · rw [← Except.error.inj h]
      rfl
    · split at h
      · rw [← Except.error.inj h]
        rfl
      · exact absurd h (by simp)

end Query

namespace Insertion

/-- The texts that a statement which can be read is taken apart into, and what is made of them. -/
theorem exists_texts_of_read {statement : String} {insertion : Insertion}
    (h : read statement = .ok insertion) :
    ∃ table columns values, texts? (trim statement.toList) = some (table, columns, values) ∧
      insertion.table = String.ofList (trim table) ∧
      ∀ e ∈ insertion.values.entries, ∃ field ∈ Fields.split values,
        e.2 = .text (String.ofList field) := by
  rw [read_eq] at h
  split at h
  · exact absurd h (by simp)
  · next table columns values ht =>
    simp only [pair] at h
    split at h
    · refine ⟨table, columns, values, ht, ?_⟩
      rw [← Except.ok.inj h]
      refine ⟨rfl, fun e he => ?_⟩
      have hvalue := (List.of_mem_zip (OrderedMap.mem_entries_ofList he)).2
      obtain ⟨field, hf, hv⟩ := List.mem_map.1 hvalue
      exact ⟨field, hf, hv.symm⟩
    · exact absurd h (by simp)

theorem table_subset {statement : String} {insertion : Insertion}
    (h : read statement = .ok insertion) : insertion.table.toList ⊆ statement.toList := by
  obtain ⟨table, columns, values, ht, htable, -⟩ := exists_texts_of_read h
  obtain ⟨target, lists, htarget, rfl, -⟩ := texts?_eq_some_iff.1 ht
  obtain ⟨-, insert, b₁, into, b₂, hs, -⟩ := target?_eq_some_iff.1 htarget
  have hmem : table ⊆ trim statement.toList := by
    intro c hc
    rw [hs]
    simp only [List.mem_append, hc, true_or, or_true]
  rw [htable, String.toList_ofList]
  exact List.Subset.trans (trim_subset table) (List.Subset.trans hmem (trim_subset _))

theorem echo_of_read {statement : String} {cause : Error} (h : read statement = .error cause) :
    cause.echo = [] := by
  rw [read_eq] at h
  split at h
  · rw [← Except.error.inj h]
    rfl
  · simp only [pair] at h
    split at h
    · exact absurd h (by simp)
    · rw [← Except.error.inj h]
      rfl

end Insertion

/-! ### Commands -/

namespace Command

/-- The text that a command carries. -/
def text : Command → List Char
  | createDatabase s | useDatabase s | createTable s | select s | insert s => s.toList
  | _ => []

theorem eq_of_alone {phrase : String} {command found : Command} {s : List Char}
    (h : alone phrase command s = some found) : found = command := by
  rw [alone] at h
  split at h
  · exact (Option.some.inj h).symm
  · exact absurd h (by simp)

theorem exists_behind {phrase : String} {command : List Char → Command} {found : Command}
    {s : List Char} (h : behind phrase command s = some found) :
    ∃ r, r ⊆ s ∧ found = command r := by
  obtain ⟨r, hr, he⟩ := Option.map_eq_some_iff.1 h
  exact ⟨r, strip?_subset hr, he.symm⟩

/-- What a form takes over from a line is an excerpt of it, in an insertion the whole line. -/
theorem text_subset_of_mem_forms {form : List Char → Option Command} (hm : form ∈ forms)
    {s : List Char} {command : Command} (h : form s = some command) : command.text ⊆ s := by
  simp only [forms, List.mem_cons, List.not_mem_nil, or_false] at hm
  -- three phrases alone, two with a name behind, two with a statement, and the insertion
  rcases hm with rfl | rfl | rfl | rfl | rfl | rfl | rfl | rfl
  iterate 3
    · rw [eq_of_alone h]
      exact List.nil_subset s
  iterate 2
    · obtain ⟨r, hr, rfl⟩ := exists_behind h
      rw [text, String.toList_ofList]
      exact List.Subset.trans (trim_subset r) hr
  iterate 2
    · obtain ⟨r, hr, rfl⟩ := exists_behind h
      rw [text, String.toList_ofList]
      exact hr
  · obtain ⟨r, -, rfl⟩ := exists_behind h
    rw [text, String.toList_ofList]
    exact List.Subset.refl s

theorem text_classify_subset (line : String) : (classify line).text ⊆ trim line.toList := by
  rw [classify]
  cases h : forms.findSome? fun form => form (trim line.toList) with
  | none => exact List.nil_subset _
  | some command =>
    obtain ⟨form, hm, hc⟩ := List.exists_of_findSome?_eq_some h
    exact text_subset_of_mem_forms hm hc

end Command

/-- An error repeats only what the command said. -/
theorem Session.echo_of_failure {session : Session} {command : Command} {cause : Error}
    (h : session.Failure command cause) : cause.echo ⊆ command.text := by
  cases h with
  | noActiveDatabase hc hd => exact List.nil_subset _
  | invalidDatabase h =>
    rw [Database.create] at h
    split at h
    · next hc =>
      rw [← Except.error.inj h]
      exact Name.echo_of_check hc
    · exact absurd h (by simp)
  | databaseExists hm => exact List.Subset.refl _
  | unknownDatabase hm => exact List.Subset.refl _
  | invalidDefinition h => exact Definition.echo_of_readTable h
  | tableExists hd ht hm => exact Definition.readTable_subset ht
  | invalidQuery h =>
    rw [Query.echo_of_read h]
    exact List.nil_subset _
  | unknownSelected hd hq hm => exact Query.read_subset hq
  | invalidInsertion h =>
    rw [Insertion.echo_of_read h]
    exact List.nil_subset _
  | unknownTarget hd hi hm => exact Insertion.table_subset hi
  | unknownCommand hc => exact List.nil_subset _

end TableShell
