import TableShell.Proofs.CommandForms
import TableShell.Proofs.QueryLayout
import TableShell.Session

/-
Statements that are read with their phrase and without it.

A definition or a query is handed on without its phrase, and whoever reads it leaves out a phrase in
front once more. So the line and what is handed on of it are read alike unless the phrase is written
twice. Then the line names a table with the phrase in its name, which is another table or none, and
the two readings agree only where both fail before the name is looked at.
-/
namespace TableShell

open Text

namespace Text

/-- Trimming takes no character away but blanks. -/
theorem countP_trim (s : List Char) : (trim s).countP (!isBlank ·) = s.countP (!isBlank ·) := by
  obtain ⟨a, b, ha, hb, hs⟩ := exists_append_trim s
  have hzero : ∀ w : List Char, (∀ c ∈ w, isBlank c = true) → w.countP (!isBlank ·) = 0 := by
    intro w hw
    rw [List.countP_eq_zero]
    exact fun c hc => by simp [hw c hc]
  have hcount := congrArg (List.countP (!isBlank ·)) hs
  rw [List.countP_append, List.countP_append, hzero a ha, hzero b hb] at hcount
  omega

theorem trim_append_ne {t : List Char} {c : Char} (hc : c ∈ t) (hb : isBlank c = false)
    (s : List Char) : trim (t ++ s) ≠ trim s := by
  intro h
  have hcount := congrArg (List.countP (!isBlank ·)) h
  have hpos : 0 < t.countP (!isBlank ·) := List.countP_pos_iff.2 ⟨c, hc, by simp [hb]⟩
  rw [countP_trim, countP_trim, List.countP_append] at hcount
  omega

theorem isBlank_of_toLower {c p : Char} (h : c.toLower = p) (hp : isBlank p = false) :
    isBlank c = false := by
  rw [← isBlank_toLower, h, hp]

/-! ### The phrase -/

variable {phrase s r : List Char}

/-- Behind the phrase of a trimmed text the text itself has blanks more. -/
theorem withoutPhrase_of_trim (h : strip? Char.toLower phrase (trim s) = some r) :
    ∃ w, (∀ c ∈ w, isBlank c = true) ∧ withoutPhrase phrase s = r ++ w := by
  obtain ⟨w, hw, hs⟩ := exists_trimStart_append s
  obtain ⟨n, hn, ht⟩ := strip?_eq_some_iff.1 h
  refine ⟨w, hw, ?_⟩
  rw [withoutPhrase, hs, ht, List.append_assoc, strip?_append hn, Option.getD_some]

/-- The text starts with the phrase, but for blanks. -/
def Repeats (phrase s : List Char) : Prop :=
  phrase <+: (trimStart s).map Char.toLower

instance (phrase s : List Char) : Decidable (Repeats phrase s) :=
  inferInstanceAs (Decidable (phrase <+: (trimStart s).map Char.toLower))

theorem withoutPhrase_of_not_repeats (h : ¬ Repeats phrase s) : withoutPhrase phrase s = s := by
  rw [withoutPhrase, strip?_eq_none_iff.2 h, Option.getD_none]

theorem withoutPhrase_of_repeats (h : Repeats phrase s) :
    ∃ w n, (∀ c ∈ w, isBlank c = true) ∧ n.map Char.toLower = phrase ∧
      s = (w ++ n) ++ withoutPhrase phrase s := by
  obtain ⟨r, hr⟩ := exists_strip?_iff.2 h
  obtain ⟨n, hn, hs⟩ := strip?_eq_some_iff.1 hr
  refine ⟨s.takeWhile isBlank, n, fun c hc => List.all_eq_true.1 List.all_takeWhile c hc, hn, ?_⟩
  rw [withoutPhrase, hr, Option.getD_some, List.append_assoc, ← hs]
  exact List.takeWhile_append_dropWhile.symm

/-- What stands behind the phrase of a text is read like the text itself, where blanks at the end do
not matter and the phrase once more in front does, unless the reading is of some kind. -/
theorem withoutPhrase_alike_iff {α : Type} {f : List Char → α} {p : α → Prop}
    (hright : ∀ {w : List Char}, (∀ c ∈ w, isBlank c = true) → ∀ s, f (s ++ w) = f s)
    (hphrase : ∀ {w n : List Char}, (∀ c ∈ w, isBlank c = true) → n.map Char.toLower = phrase →
      ∀ s, f (w ++ n ++ s) = f s ↔ p (f (w ++ n ++ s)))
    (h : strip? Char.toLower phrase (trim s) = some r) :
    f (withoutPhrase phrase s) = f (withoutPhrase phrase r) ↔
      ¬ Repeats phrase r ∨ p (f (withoutPhrase phrase s)) := by
  obtain ⟨w, hw, hs⟩ := withoutPhrase_of_trim h
  rw [hs, hright hw]
  by_cases hrepeats : Repeats phrase r
  · obtain ⟨w, n, hw, hn, hr⟩ := withoutPhrase_of_repeats hrepeats
    have halike := hphrase hw hn (withoutPhrase phrase r)
    rw [← hr] at halike
    rw [halike, or_iff_right (not_not_intro hrepeats)]
  · rw [withoutPhrase_of_not_repeats hrepeats]
    exact iff_of_true rfl (Or.inl hrepeats)

end Text

namespace Command

variable {line rest : String}

theorem strip?_of_createTable (h : classify line = createTable rest) :
    strip? Char.toLower "create table ".toList (trim line.toList) = some rest.toList := by
  cases recognised_iff.2 ⟨h, by simp⟩ with
  | createTable hr => exact hr.trans (congrArg some String.toList_ofList.symm)

theorem strip?_of_select (h : classify line = select rest) :
    strip? Char.toLower "select * from ".toList (trim line.toList) = some rest.toList := by
  cases recognised_iff.2 ⟨h, by simp⟩ with
  | select hr => exact hr.trans (congrArg some String.toList_ofList.symm)

end Command

/-- An error about a name is about the name of the table. -/
theorem Table.create_eq_invalidName {name name' : String} {columns : List (String × String)}
    (h : create name columns = .error (.invalidName name')) : name = name' := by
  cases h ▸ judged_create name columns with
  | invalidName _ => rfl

namespace Definition

/-- The name in a text without the phrase in front. -/
def nameOf (s : List Char) : List Char :=
  trim (s.takeWhile (· != '('))

/-- The columns declared in it. -/
def readColumns (s : List Char) : Except Error (List (String × String)) :=
  match group? s with
  | none => .ok []
  | some (block, rest) =>
    if (group? rest).isSome then .error .createTableSyntax else readClauses (clauses block)

/-- The table of a text without the phrase in front. -/
def tableOf (s : List Char) : Except Error Table :=
  (readColumns s).bind (Table.create (String.ofList (nameOf s)))

theorem readTable_eq (text : String) :
    readTable text = tableOf (withoutPhrase "create table ".toList text.toList) := by
  simp only [readTable, read, tableOf, readColumns, withoutPhrase]
  generalize (strip? Char.toLower "create table ".toList (trimStart text.toList)).getD
    text.toList = s
  cases group? s with
  | none => rfl
  | some parts =>
    cases hrest : (group? parts.2).isSome with
    | true => simp only [hrest, if_true]; rfl
    | false =>
      simp only [hrest, Bool.false_eq_true, if_false]
      cases readClauses (clauses parts.1) <;> rfl

theorem group?_append_right {w : List Char} (hw : ∀ c ∈ w, isBlank c = true) (s : List Char) :
    group? (s ++ w) = (group? s).map fun (block, rest) => (block, rest ++ w) := by
  have hparen : ∀ {p : Char}, isBlank p = false → ∀ c ∈ w, (c == p) = false := by
    intro p hp c hc
    rw [beq_eq_false_iff_ne]
    rintro rfl
    exact not_mem_of_blank hp hw hc
  rw [group?, group?, cut?_append_right (hparen (by decide))]
  cases cut? (· == '(') s with
  | none => rfl
  | some parts => exact cut?_append_right (hparen (by decide)) parts.2

theorem group?_append_left {t : List Char} (ht : '(' ∉ t) (s : List Char) :
    group? (t ++ s) = group? s := by
  have hparen : ∀ c ∈ t, (c == '(') = false := fun c hc =>
    beq_eq_false_iff_ne.2 fun h => ht (h ▸ hc)
  rw [group?, group?, cut?_append_left hparen]
  cases cut? (· == '(') s <;> rfl

theorem nameOf_append_right {w : List Char} (hw : ∀ c ∈ w, isBlank c = true) (s : List Char) :
    nameOf (s ++ w) = nameOf s := by
  have hopen : ∀ c ∈ w, (c != '(') = true := fun c hc =>
    bne_iff_ne.2 fun h => not_mem_of_blank (by decide) hw (h ▸ hc)
  have hall : (w ++ []).takeWhile (· != '(') = w := by
    rw [List.takeWhile_append_of_pos hopen, List.takeWhile_nil, List.append_nil]
  rw [List.append_nil] at hall
  rw [nameOf, nameOf, List.takeWhile_append, hall]
  split
  · next h => rw [(List.takeWhile_prefix _).eq_of_length h, trim_append hw]
  · rfl

theorem readColumns_append_right {w : List Char} (hw : ∀ c ∈ w, isBlank c = true)
    (s : List Char) : readColumns (s ++ w) = readColumns s := by
  rw [readColumns, readColumns, group?_append_right hw]
  cases group? s with
  | none => rfl
  | some parts => simp only [Option.map_some, group?_append_right hw, Option.isSome_map]

/-- Blanks at its end do not matter to a definition. -/
theorem tableOf_append_right {w : List Char} (hw : ∀ c ∈ w, isBlank c = true) (s : List Char) :
    tableOf (s ++ w) = tableOf s := by
  rw [tableOf, tableOf, readColumns_append_right hw, nameOf_append_right hw]

theorem readColumns_append_left {t : List Char} (ht : '(' ∉ t) (s : List Char) :
    readColumns (t ++ s) = readColumns s := by
  rw [readColumns, readColumns, group?_append_left ht]

theorem readClauses_error {parts : List (List Char)} {e : Error}
    (h : readClauses parts = .error e) : ∃ column, e = .missingType column := by
  induction parts with
  | nil => exact absurd h (by simp [readClauses])
  | cons part parts ih =>
    rw [readClauses, readClause] at h
    split at h
    · next hclause =>
      split at hclause
      · rw [← Except.error.inj h, ← Except.error.inj hclause]
        exact ⟨_, rfl⟩
      · exact absurd hclause (by simp)
    · split at h
      · next hrest =>
        rw [Except.error.inj h] at hrest
        exact ih hrest
      · exact absurd h (by simp)

theorem readColumns_error {s : List Char} {e : Error} (h : readColumns s = .error e) :
    e = .createTableSyntax ∨ ∃ column, e = .missingType column := by
  rw [readColumns] at h
  split at h
  · exact absurd h (by simp)
  · split at h
    · exact Or.inl (Except.error.inj h).symm
    · exact Or.inr (readClauses_error h)

section Phrase

variable {w n : List Char} (hw : ∀ c ∈ w, isBlank c = true)
  (hn : n.map Char.toLower = "create table ".toList)

include hw hn

theorem not_mem_phrase : '(' ∉ w ++ n := by
  rw [List.mem_append, not_or]
  refine ⟨not_mem_of_blank (by decide) hw, fun h => ?_⟩
  exact absurd (hn ▸ List.mem_map_of_mem (f := Char.toLower) h) (by decide)

theorem nameOf_phrase_append (s : List Char) :
    nameOf (w ++ n ++ s) = trim (w ++ n ++ s.takeWhile (· != '(')) := by
  have hopen : ∀ c ∈ w ++ n, (c != '(') = true := by
    intro c hc
    rw [bne_iff_ne]
    rintro rfl
    exact not_mem_phrase hw hn hc
  rw [nameOf, List.takeWhile_append_of_pos hopen]

/-- The phrase makes no part of a name. -/
theorem not_isValid_nameOf_phrase (s : List Char) :
    ¬ Name.isValid (String.ofList (nameOf (w ++ n ++ s))) = true := by
  intro hvalid
  obtain ⟨-, hchars⟩ := Name.isValid_iff.1 hvalid
  rw [String.toList_ofList, nameOf_phrase_append hw hn] at hchars
  obtain ⟨b, hb, hs⟩ := exists_trimStart_append (w ++ n ++ s.takeWhile (· != '('))
  have hhead : ∀ c, (n ++ s.takeWhile (· != '(')).head? = some c → isBlank c = false := by
    intro c hc
    obtain ⟨d, n, rfl, hd, -⟩ := List.map_eq_cons_iff.1 hn
    rw [← Option.some.inj hc]
    exact isBlank_of_toLower hd (by decide)
  have hstart := trimStart_eq_self hhead
  rw [List.append_assoc, trimStart_append hw, hstart] at hs
  have hphrase := strip?_append hn (s.takeWhile (· != '(') ++ ['('])
  rw [← List.append_assoc, hs, ← List.append_assoc w, strip?_head hchars hb []] at hphrase
  exact absurd hphrase (by simp)

/-- With the phrase in front once more the name is not valid, so that only an error which comes
before the name is the same. -/
theorem tableOf_phrase_append (s : List Char) :
    tableOf (w ++ n ++ s) = tableOf s ↔
      tableOf (w ++ n ++ s) = .error .createTableSyntax ∨
        ∃ column, tableOf (w ++ n ++ s) = .error (.missingType column) := by
  rw [tableOf, tableOf, readColumns_append_left (not_mem_phrase hw hn)]
  cases hc : readColumns s with
  | error e =>
    simp only [Except.bind, true_iff]
    rcases readColumns_error hc with rfl | ⟨column, rfl⟩
    · exact Or.inl rfl
    · exact Or.inr ⟨column, rfl⟩
  | ok columns =>
    have hinvalid : Table.create (String.ofList (nameOf (w ++ n ++ s))) columns =
        .error (.invalidName (String.ofList (nameOf (w ++ n ++ s)))) := by
      rw [Table.create, Name.check, if_neg (not_isValid_nameOf_phrase hw hn s)]
    simp only [Except.bind, hinvalid]
    refine iff_of_false (fun h => ?_) (by simp)
    have hname := congrArg String.toList (Table.create_eq_invalidName h.symm)
    rw [String.toList_ofList, String.toList_ofList, nameOf_phrase_append hw hn] at hname
    obtain ⟨c, n, rfl, hc, -⟩ := List.map_eq_cons_iff.1 hn
    exact trim_append_ne (List.mem_append_right w List.mem_cons_self)
      (isBlank_of_toLower hc (by decide)) _ hname.symm

end Phrase

/-- What is handed on of a definition is read like the whole line, unless it has the phrase once
more. -/
theorem readTable_rest_iff {line rest : String}
    (h : Command.classify line = .createTable rest) :
    readTable line = readTable rest ↔ ¬ Repeats "create table ".toList rest.toList ∨
      readTable line = .error .createTableSyntax ∨
        ∃ column, readTable line = .error (.missingType column) := by
  rw [readTable_eq line, readTable_eq rest]
  exact withoutPhrase_alike_iff
    (p := fun table => table = .error .createTableSyntax ∨
      ∃ column, table = .error (.missingType column))
    tableOf_append_right tableOf_phrase_append (Command.strip?_of_createTable h)

end Definition

namespace Query

theorem readCondition?_append_right {w : List Char} (hw : ∀ c ∈ w, isBlank c = true)
    (s : List Char) : readCondition? (s ++ w) = readCondition? s := by
  have hequals : ∀ c ∈ w, (c == '=') = false := by
    intro c hc
    rw [beq_eq_false_iff_ne]
    rintro rfl
    exact not_mem_of_blank (by decide) hw hc
  have hmixed : ∀ c ∈ w, isBlankOrQuote c = true := fun c hc => isBlankOrQuote_of_isBlank (hw c hc)
  have htrimOf : ∀ t, trimOf isBlankOrQuote (t ++ w) = trimOf isBlankOrQuote t :=
    trimOf_append (a := []) (List.forall_mem_nil _) hmixed
  rw [readCondition?, readCondition?, cut?_append_right hequals]
  cases cut? (· == '=') s with
  | none => simp only [Option.map_none, Option.getD_none, trim_append hw]
  | some sides => simp only [Option.map_some, Option.getD_some, htrimOf]

/-- Blanks at its end do not matter to a query. -/
theorem ofParts_append_right {w : List Char} (hw : ∀ c ∈ w, isBlank c = true) (s : List Char) :
    ofParts (parts (s ++ w)) = ofParts (parts s) := by
  rw [parts, parts, findWord?_blank_append (by decide) isWordChar_of_mem_where hw]
  cases findWord? "where".toList some false s with
  | none => simp only [Option.map_none, ofParts, trim_append hw]
  | some sides => simp only [Option.map_some, ofParts, readClause, readCondition?_append_right hw]

theorem readClause_error {clause : Option (List Char)} {e : Error}
    (h : readClause clause = .error e) : e = .selectSyntax := by
  cases clause with
  | none => exact absurd h (by simp [readClause])
  | some clause =>
    rw [readClause] at h
    split at h
    · exact (Except.error.inj h).symm
    · exact absurd h (by simp)

section Phrase

variable {w n : List Char} (hw : ∀ c ∈ w, isBlank c = true)
  (hn : n.map Char.toLower = "select * from ".toList)

include hw hn

/-- The keyword is found behind the phrase: it starts with no letter of the phrase. -/
theorem parts_phrase_append (s : List Char) :
    parts (w ++ n ++ s) = (w ++ n ++ (parts s).1, (parts s).2) := by
  have hfirst : ∀ c ∈ w ++ n, foldCase c ≠ 'w' := by
    rw [List.forall_mem_append]
    constructor
    · intro c hc hfold
      rw [foldCase_of_not_word (isWordChar_of_isBlank (hw c hc))] at hfold
      exact not_mem_of_blank (by decide) hw (hfold ▸ hc)
    · intro c hc hfold
      have hm : foldCase c ∈ "select * from ".toList :=
        map_foldCase_of_map_toLower hn (by decide) ▸ List.mem_map_of_mem hc
      rw [hfold] at hm
      exact absurd hm (by decide)
  have hin : inWordBehind false (w ++ n) = false := by
    obtain ⟨m, l, rfl, -, hl⟩ := List.map_eq_append_iff.1
      (hn.trans (show _ = "select * from".toList ++ [' '] from rfl))
    obtain ⟨c, rfl, hc⟩ := List.map_eq_singleton_iff.1 hl
    rw [← List.append_assoc, inWordBehind_append_singleton, eq_space_of_toLower hc]
    decide +kernel
  have hfind : findWord? "where".toList some false (w ++ n ++ s) =
      (findWord? "where".toList some (inWordBehind false (w ++ n)) s).map
        fun (before, r) => (w ++ n ++ before, r) :=
    findWord?_append_of_ne hfirst false s
  rw [parts, parts, hfind, hin]
  cases findWord? "where".toList some false s <;> rfl

/-- With the phrase in front once more another table is named, if a query is read at all. -/
theorem ofParts_phrase_append (s : List Char) :
    ofParts (parts (w ++ n ++ s)) = ofParts (parts s) ↔
      ofParts (parts (w ++ n ++ s)) = .error .selectSyntax := by
  obtain ⟨c, m, hm, hc, -⟩ := List.map_eq_cons_iff.1 hn
  have hmem : c ∈ w ++ n := List.mem_append_right w (hm ▸ List.mem_cons_self)
  have hblank := isBlank_of_toLower hc (by decide)
  rw [parts_phrase_append hw hn]
  generalize parts s = sides
  obtain ⟨table, clause⟩ := sides
  have hne : trim (w ++ n ++ table) ≠ [] :=
    List.ne_nil_of_mem (mem_trim hblank (List.mem_append_left table hmem))
  simp only [ofParts, if_neg hne]
  cases hclause : readClause clause with
  | error e =>
    rw [readClause_error hclause]
    simp
  | ok condition =>
    refine iff_of_false (fun h => ?_) (fun h => absurd h (by simp))
    by_cases htable : trim table = []
    · rw [if_pos htable] at h
      exact absurd h (by simp)
    · rw [if_neg htable] at h
      have hname := congrArg String.toList (Query.mk.inj (Except.ok.inj h)).1
      rw [String.toList_ofList, String.toList_ofList] at hname
      exact trim_append_ne hmem hblank table hname

end Phrase

theorem read_rest_iff {line rest : String} (h : Command.classify line = .select rest) :
    read line = read rest ↔
      ¬ Repeats "select * from ".toList rest.toList ∨ read line = .error .selectSyntax := by
  rw [read_eq line, read_eq rest]
  exact withoutPhrase_alike_iff (f := fun s => ofParts (parts s))
    (p := fun query => query = .error .selectSyntax)
    ofParts_append_right ofParts_phrase_append (Command.strip?_of_select h)

end Query

namespace Session

/-- A definition and a query are read alike with their phrase and without it, and the line can be
run for what is handed on, unless the phrase is written twice. Then the readings agree only in the
errors that do not depend on the name. -/
theorem phrase_stripped_once_iff (line rest : String) :
    (Command.classify line = .createTable rest →
      (Definition.readTable line = Definition.readTable rest ↔
        ¬ Repeats "create table ".toList rest.toList ∨
          Definition.readTable line = .error .createTableSyntax ∨
          ∃ column, Definition.readTable line = .error (.missingType column)) ∧
      (¬ Repeats "create table ".toList rest.toList →
        ∀ session : Session, session.process line = session.respond (.createTable line))) ∧
    (Command.classify line = .select rest →
      (Query.read line = Query.read rest ↔
        ¬ Repeats "select * from ".toList rest.toList ∨
          Query.read line = .error .selectSyntax) ∧
      (¬ Repeats "select * from ".toList rest.toList →
        ∀ session : Session, session.process line = session.respond (.select line))) := by
  constructor
  · intro h
    have hiff := Definition.readTable_rest_iff h
    refine ⟨hiff, fun hrepeats session => ?_⟩
    have hread := hiff.2 (Or.inl hrepeats)
    simp only [process, h, respond, execute, createTable, hread]
  · intro h
    have hiff := Query.read_rest_iff h
    refine ⟨hiff, fun hrepeats session => ?_⟩
    have hread := hiff.2 (Or.inl hrepeats)
    simp only [process, h, respond, execute, select, hread]

/-- A definition with blanks about it, one with the phrase twice that fails for a column, and a
query. -/
theorem phrase_stripped_once_iff_mixed :
    empty.process "CREATE table  t (a int)\n" =
        empty.respond (.createTable "CREATE table  t (a int)\n") ∧
      Definition.readTable "create table create table t (a)" =
        Definition.readTable "create table t (a)" ∧
      Query.read " Select * From t where a = 1" = Query.read "t where a = 1" := by
  have hplain : Command.classify "CREATE table  t (a int)\n" = .createTable " t (a int)" := by
    decide +kernel
  have htwice : Command.classify "create table create table t (a)" =
      .createTable "create table t (a)" := by decide +kernel
  have hquery : Command.classify " Select * From t where a = 1" = .select "t where a = 1" := by
    decide +kernel
  have hprocess := ((phrase_stripped_once_iff _ _).1 hplain).2 (by decide)
  refine ⟨hprocess empty, ?_, ?_⟩
  · exact ((phrase_stripped_once_iff _ _).1 htwice).1.2
      (Or.inr (Or.inr ⟨"a", by decide +kernel⟩))
  · exact ((phrase_stripped_once_iff _ _).2 hquery).1.2 (Or.inl (by decide))

/-- With the phrase twice the line names a table that cannot be, and what is handed on does not. -/
theorem phrase_stripped_twice :
    (Command.classify "create table create table t (a int)" =
        .createTable "create table t (a int)" ∧
      Definition.readTable "create table create table t (a int)" =
        .error (.invalidName "create table t") ∧
      Definition.readTable "create table create table t (a int)" ≠
        Definition.readTable "create table t (a int)") ∧
      Command.classify "select * from select * from t" = .select "select * from t" ∧
      Query.read "select * from select * from t" = .ok ⟨"select * from t", none⟩ ∧
      Query.read "select * from select * from t" ≠ Query.read "select * from t" := by
  decide +kernel

end Session
end TableShell
