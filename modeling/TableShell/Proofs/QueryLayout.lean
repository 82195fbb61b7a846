import TableShell.Proofs.DefinitionLayout
import TableShell.Proofs.Literals
import TableShell.Proofs.WholeWords

/-
The layouts of a query.

A query is laid out as its table and, if it has a condition, blanks, the keyword in any letter case,
blanks, the column, an equals sign and the value. Blanks may stand about all of it and about the
equals sign, and about the value single quotes as well. The table, the column and the value may hold
the keyword as a part of longer words, and the column and the value as a word: the search for the
keyword finds the one behind the table, and the first equals sign is the one behind the column.
-/
namespace TableShell
namespace Text

/-- A text without the phrase that may stand in front of it. -/
def withoutPhrase (phrase s : List Char) : List Char :=
  (strip? Char.toLower phrase (trimStart s)).getD s

end Text

namespace Query

open Text

/-- The texts in front of the keyword and behind it. -/
def parts (s : List Char) : List Char × Option (List Char) :=
  match findWord? "where".toList some false s with
  | none => (s, none)
  | some (table, clause) => (table, some clause)

def readClause : Option (List Char) → Except Error (Option Condition)
  | none => .ok none
  | some clause =>
    match readCondition? clause with
    | none => .error .selectSyntax
    | some condition => .ok (some condition)

/-- The query of a table and of a clause, if there is one. -/
def ofParts : List Char × Option (List Char) → Except Error Query
  | (table, clause) =>
    if trim table = [] then .error .selectSyntax
    else
      match readClause clause with
      | .error e => .error e
      | .ok condition => .ok ⟨String.ofList (trim table), condition⟩

theorem read_eq (text : String) :
    read text = ofParts (parts (withoutPhrase "select * from ".toList text.toList)) := by
  simp only [read, withoutPhrase, parts]
  generalize (strip? Char.toLower "select * from ".toList (trimStart text.toList)).getD
    text.toList = s
  cases findWord? "where".toList some false s with
  | none => simp only [ofParts, readClause, List.isEmpty_iff]
  | some parts =>
    simp only [ofParts, readClause, List.isEmpty_iff]
    cases readCondition? parts.2 <;> rfl

/-- What a query can name as its table: any trimmed text without the keyword in it that is not read
as the phrase in front. -/
structure Source where
  name : List Char
  name_ne_nil : name ≠ []
  name_trimmed : Trimmed name
  no_keyword : ¬ (wholeWord "where".toList).Occurs name
  no_phrase : ¬ "select * from ".toList <+: (name ++ [' ']).map Char.toLower

/-- A condition as it is written behind the table. -/
structure Clause where
  before : List Char := [' ']
  keyword : List Char := "where".toList
  between : List Char := [' ']
  column : List Char
  gap : List Char := [' ']
  opening : List Char := [' ']
  value : List Char
  closing : List Char := []
  before_ne_nil : before ≠ [] := by decide
  before_blank : ∀ c ∈ before, isBlank c = true := by exact List.all_eq_true.1 rfl
  keyword_eq : keyword.map Char.toLower = "where".toList := by decide
  between_ne_nil : between ≠ [] := by decide
  between_blank : ∀ c ∈ between, isBlank c = true := by exact List.all_eq_true.1 rfl
  column_ne_nil : column ≠ []
  column_trimmed : Trimmed column
  column_free : '=' ∉ column
  gap_blank : ∀ c ∈ gap, isBlank c = true := by exact List.all_eq_true.1 rfl
  opening_mixed : ∀ c ∈ opening, isBlankOrQuote c = true := by exact List.all_eq_true.1 rfl
  value_ne_nil : value ≠ []
  value_head : ∀ c, value.head? = some c → isBlankOrQuote c = false
  value_last : ∀ c, value.getLast? = some c → isBlankOrQuote c = false
  closing_mixed : ∀ c ∈ closing, isBlankOrQuote c = true := by exact List.all_eq_true.1 rfl

namespace Clause

/-- The text behind the keyword. -/
def body (clause : Clause) : List Char :=
  clause.between ++ clause.column ++ clause.gap ++
    '=' :: (clause.opening ++ clause.value ++ clause.closing)

def text (clause : Clause) : List Char :=
  clause.before ++ (clause.keyword ++ clause.body)

def condition (clause : Clause) : Condition :=
  ⟨String.ofList clause.column, String.ofList clause.value⟩

end Clause

/-- A query as it is written, from its table on. -/
structure Layout where
  before : List Char := []
  source : Source
  clause : Option Clause
  after : List Char := []
  before_blank : ∀ c ∈ before, isBlank c = true := by exact List.all_eq_true.1 rfl
  after_blank : ∀ c ∈ after, isBlank c = true := by exact List.all_eq_true.1 rfl

namespace Layout

/-- The text behind the table. -/
def rest (layout : Layout) : List Char :=
  (layout.clause.map Clause.text).getD [] ++ layout.after

def text (layout : Layout) : List Char :=
  layout.before ++ (layout.source.name ++ layout.rest)

def query (layout : Layout) : Query :=
  ⟨String.ofList layout.source.name, layout.clause.map Clause.condition⟩

end Layout

/-! ### The phrase -/

/-- Behind each blank of the phrase but the last a character follows that is neither a blank nor the
start of the keyword. -/
theorem phrase_step {t r : List Char} {c d : Char}
    (h : "select * from ".toList = t ++ c :: d :: r) (hc : isBlank c = true) :
    isBlank d = false ∧ d ≠ 'w' := by
  have hsteps : ∀ k < 14, (("select * from ".toList.drop k).head?.all fun c => !isBlank c) ∨
      (("select * from ".toList.drop (k + 1)).head?.all fun d => !isBlank d && d != 'w') := by
    decide
  have hlength := congrArg List.length h
  have hdrop : ∀ k, ("select * from ".toList.drop (t.length + k)) = (c :: d :: r).drop k := by
    intro k
    rw [h, List.drop_append]
    simp
  have hstep := hsteps t.length (by simp at hlength; omega)
  rw [hdrop 1, ← Nat.add_zero t.length, hdrop 0] at hstep
  simpa [hc] using hstep

/-- A table is not read as the phrase whatever blanks stand behind it, with nothing more or with the
keyword behind the blanks. -/
theorem Source.not_phrase (source : Source) {s : List Char}
    (hs : ∀ c t, s = c :: t → isBlank c = true ∧
      ∀ d, t.head? = some d → isBlank d = true ∨ d.toLower = 'w') :
    ¬ "select * from ".toList <+: (source.name ++ s).map Char.toLower := by
  intro h
  have hspace := source.no_phrase
  obtain ⟨u, hu⟩ := h
  rw [List.map_append] at hspace hu
  rcases List.append_eq_append_iff.1 hu with ⟨a, ha, -⟩ | ⟨a, ha, hmap⟩
  · exact hspace (ha ▸ (List.prefix_append _ a).trans (List.prefix_append _ _))
  cases a with
  | nil =>
    rw [List.append_nil] at ha
    exact hspace (ha ▸ List.prefix_append _ _)
  | cons c a =>
    -- the phrase runs over the end of the table into the blanks
    obtain ⟨c, t, rfl, rfl, ht⟩ := List.map_eq_cons_iff.1 hmap
    obtain ⟨hc, hd⟩ := hs c t rfl
    rw [Definition.toLower_of_isBlank hc] at ha
    cases a with
    | nil =>
      have hlast := congrArg List.getLast? ha
      rw [List.getLast?_concat] at hlast
      rw [ha, ← Option.some.inj hlast] at hspace
      exact hspace (List.prefix_refl _)
    | cons d a =>
      obtain ⟨d, t, rfl, rfl, -⟩ := List.map_eq_cons_iff.1 ht
      obtain ⟨hblank, hw⟩ := phrase_step ha hc
      rcases hd d rfl with hd | hd
      · rw [Definition.toLower_of_isBlank hd, hd] at hblank
        exact absurd hblank (by decide)
      · exact hw hd

/-! ### Reading a layout -/

theorem Clause.body_boundary (clause : Clause) (after : List Char) :
    atBoundary (clause.body ++ after) = true := by
  obtain ⟨c, between, hc⟩ := List.exists_cons_of_ne_nil clause.between_ne_nil
  have hb := clause.between_blank c (hc ▸ List.mem_cons_self)
  simp only [body, hc, List.cons_append, atBoundary, isWordChar_of_isBlank hb, Bool.not_false]

theorem Clause.foldCase_keyword (clause : Clause) :
    clause.keyword.map foldCase = "where".toList :=
  map_foldCase_of_map_toLower clause.keyword_eq (by decide)

/-- A clause opens with a blank, and behind it another or the keyword follows. -/
theorem Clause.head_text (clause : Clause) {after t : List Char} {c : Char}
    (h : clause.text ++ after = c :: t) :
    isBlank c = true ∧ ∀ d, t.head? = some d → isBlank d = true ∨ d.toLower = 'w' := by
  obtain ⟨b, blanks, hbefore⟩ := List.exists_cons_of_ne_nil clause.before_ne_nil
  have hblank := clause.before_blank
  rw [hbefore, List.forall_mem_cons] at hblank
  rw [text, hbefore, List.cons_append, List.cons_append, List.cons.injEq] at h
  obtain ⟨rfl, rfl⟩ := h
  refine ⟨hblank.1, fun d hd => ?_⟩
  cases blanks with
  | cons b' blanks =>
    rw [← Option.some.inj hd]
    exact Or.inl (hblank.2 b' List.mem_cons_self)
  | nil =>
    obtain ⟨k, keyword, hk, hlower, -⟩ := List.map_eq_cons_iff.1 clause.keyword_eq
    rw [hk] at hd
    rw [← Option.some.inj hd]
    exact Or.inr hlower

/-- The condition is read whatever blanks stand behind it. -/
theorem Clause.readCondition?_body (clause : Clause) {after : List Char}
    (hafter : ∀ c ∈ after, isBlank c = true) :
    readCondition? (clause.body ++ after) = some clause.condition := by
  have hcut : cut? (· == '=') (clause.body ++ after) =
      some (clause.between ++ clause.column ++ clause.gap,
        clause.opening ++ clause.value ++ (clause.closing ++ after)) := by
    have happ : clause.body ++ after = clause.between ++ clause.column ++ clause.gap ++
        '=' :: (clause.opening ++ clause.value ++ (clause.closing ++ after)) := by
      simp [body]
    rw [happ]
    refine cut?_append (fun c hc => ?_) rfl _
    rw [beq_eq_false_iff_ne]
    rintro rfl
    simp only [List.mem_append] at hc
    rcases hc with (hc | hc) | hc
    · exact absurd (clause.between_blank _ hc) (by decide)
    · exact clause.column_free hc
    · exact absurd (clause.gap_blank _ hc) (by decide)
  have hclosing : ∀ c ∈ clause.closing ++ after, isBlankOrQuote c = true :=
    List.forall_mem_append.2
      ⟨clause.closing_mixed, fun c hc => isBlankOrQuote_of_isBlank (hafter c hc)⟩
  have hcolumn : trim (clause.between ++ clause.column ++ clause.gap) = clause.column := by
    rw [trim_between clause.between_blank clause.gap_blank, trim_eq_self clause.column_trimmed]
  have hvalue : trimOf isBlankOrQuote
      (clause.opening ++ clause.value ++ (clause.closing ++ after)) = clause.value := by
    rw [trimOf_append clause.opening_mixed hclosing,
      trimOf_eq_self clause.value_head clause.value_last]
  simp only [readCondition?, hcut, Option.getD_some, hcolumn, hvalue,
    List.isEmpty_eq_false_iff.2 clause.column_ne_nil,
    List.isEmpty_eq_false_iff.2 clause.value_ne_nil, Bool.or_false, Bool.false_eq_true, if_false]
  rfl

theorem parts_of_findWord? {s : List Char} (h : findWord? "where".toList some false s = none) :
    parts s = (s, none) := by
  rw [parts, h]

/-- The keyword behind a text without it, and behind blanks, is the one that is found. -/
theorem parts_keyword {t w n s : List Char} (ht : findWord? "where".toList some false t = none)
    (hne : w ≠ []) (hw : ∀ c ∈ w, isBlank c = true) (hn : n.map foldCase = "where".toList)
    (hs : atBoundary s = true) : parts (t ++ (w ++ (n ++ s))) = (t ++ w, some s) := by
  obtain ⟨c, w, rfl⟩ := List.exists_cons_of_ne_nil hne
  rw [List.forall_mem_cons] at hw
  rw [parts, List.cons_append, findWord?_append_cons (by decide) isWordChar_of_mem_where
      (isWordChar_of_isBlank hw.1), ht,
    findWord?_append_blank (by decide) isWordChar_of_mem_where hw.2,
    findWord?_keyword (by decide) hn hs rfl]
  simp

namespace Layout

variable (layout : Layout)

theorem withoutPhrase_text :
    withoutPhrase "select * from ".toList layout.text = layout.text := by
  obtain ⟨c, name, hname⟩ := List.exists_cons_of_ne_nil layout.source.name_ne_nil
  have hc : isBlank c = false := layout.source.name_trimmed.1 c (by rw [hname]; rfl)
  have hstart : trimStart layout.text = layout.source.name ++ layout.rest := by
    rw [text, trimStart_append layout.before_blank, hname, List.cons_append,
      trimStart_cons_of_not_blank hc]
  have hrest : ∀ c t, layout.rest = c :: t → isBlank c = true ∧
      ∀ d, t.head? = some d → isBlank d = true ∨ d.toLower = 'w' := by
    intro c t h
    rw [rest] at h
    cases hclause : layout.clause with
    | none =>
      rw [hclause] at h
      have hblank := layout.after_blank
      rw [show layout.after = c :: t from h, List.forall_mem_cons] at hblank
      exact ⟨hblank.1, fun d hd => Or.inl (hblank.2 d (List.mem_of_mem_head? hd))⟩
    | some clause =>
      rw [hclause, Option.map_some, Option.getD_some] at h
      exact clause.head_text h
  rw [withoutPhrase, hstart, strip?_eq_none_iff.2 (layout.source.not_phrase hrest),
    Option.getD_none]

theorem parts_text : ∃ table clause, parts layout.text = (table, clause) ∧
    trim table = layout.source.name ∧
    readClause clause = .ok (layout.clause.map Clause.condition) := by
  have hname : findWord? "where".toList some false (layout.before ++ layout.source.name) =
      none := by
    rw [findWord?_append_blank (by decide) isWordChar_of_mem_where layout.before_blank,
      (findWord?_eq_none_iff (by decide) isWordChar_of_mem_where).2 layout.source.no_keyword,
      Option.map_none]
  have htrim : ∀ b : List Char, (∀ c ∈ b, isBlank c = true) →
      trim (layout.before ++ layout.source.name ++ b) = layout.source.name := fun b hb => by
    rw [trim_between layout.before_blank hb, trim_eq_self layout.source.name_trimmed]
  cases hclause : layout.clause with
  | none =>
    have htext : layout.text = layout.before ++ layout.source.name ++ layout.after := by
      simp [text, rest, hclause]
    refine ⟨_, none, ?_, htrim _ layout.after_blank, rfl⟩
    rw [htext, parts_of_findWord?]
    rw [findWord?_blank_append (by decide) isWordChar_of_mem_where layout.after_blank, hname,
      Option.map_none]
  | some clause =>
    have htext : layout.text = layout.before ++ layout.source.name ++
        (clause.before ++ (clause.keyword ++ (clause.body ++ layout.after))) := by
      simp [text, rest, hclause, Clause.text]
    refine ⟨_, _, htext ▸ parts_keyword hname clause.before_ne_nil clause.before_blank
      clause.foldCase_keyword (clause.body_boundary layout.after), htrim _ clause.before_blank, ?_⟩
    simp only [readClause, clause.readCondition?_body layout.after_blank, Option.map_some]

/-- A query is read as it is written, wherever blanks and quotes stand in it that mean nothing. -/
theorem layout_read_back : read (String.ofList layout.text) = .ok layout.query := by
  obtain ⟨table, clause, hparts, htable, hclause⟩ := layout.parts_text
  have hlist : (String.ofList layout.text).toList = layout.text := String.toList_ofList
  rw [read_eq, hlist, layout.withoutPhrase_text, hparts, ofParts, htable,
    if_neg layout.source.name_ne_nil, hclause]
  rfl

/-- A table and a column with the keyword in their names, a value with the marks in it that may
stand about it, and a query whose table is all but the phrase. -/
theorem layout_read_back_mixed :
    read "\t somewhere\nwHeRe\u00a0 where x = \x27 a=\x27b where c\x27 \n" =
        .ok ⟨"somewhere", some ⟨"where x", "a=\x27b where c"⟩⟩ ∧
      read "select *\t" = .ok ⟨"select *", none⟩ := by
  have hkeyword : ∀ {name : List Char}, findWord? "where".toList some false name = none →
      ¬ (wholeWord "where".toList).Occurs name :=
    (findWord?_eq_none_iff (by decide) isWordChar_of_mem_where).1
  let somewhere : Source := {
    name := "somewhere".toList
    name_ne_nil := by decide
    name_trimmed := trimmed_iff.2 (by decide)
    no_keyword := hkeyword (by decide +kernel)
    no_phrase := by decide }
  let clause : Clause := {
    before := ['\n']
    keyword := "wHeRe".toList
    between := ['\u00a0', ' ']
    column := "where x".toList
    opening := [' ', '\x27', ' ']
    value := "a=\x27b where c".toList
    closing := ['\x27']
    column_ne_nil := by decide
    column_trimmed := trimmed_iff.2 (by decide)
    column_free := by decide
    value_ne_nil := by decide
    value_head := fun c hc => Option.some.inj hc ▸ rfl
    value_last := fun c hc => Option.some.inj hc ▸ rfl }
  let select : Source := {
    name := "select *".toList
    name_ne_nil := by decide
    name_trimmed := trimmed_iff.2 (by decide)
    no_keyword := hkeyword (by decide +kernel)
    no_phrase := by decide }
  exact ⟨layout_read_back
      { before := ['\t', ' '], source := somewhere, clause, after := [' ', '\n'] },
    layout_read_back { source := select, clause := none, after := ['\t'] }⟩

end Layout

end Query
end TableShell
