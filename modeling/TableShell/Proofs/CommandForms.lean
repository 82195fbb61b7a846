import Mathlib.Data.List.Basic
import TableShell.Command
import TableShell.Proofs.Keywords
import TableShell.Proofs.Quoting

/-
The forms of a command line.

No phrase of a form is the beginning of another, so a line has one form at most and it does not
matter in which order the forms are tried. What stands behind a phrase is never blank, for a phrase
that something has to follow ends in a space and the line does not. A command is therefore had back
from its phrase in lower case with the text that it carries.
-/
namespace TableShell

namespace Text

theorem eq_space_of_toLower {c : Char} (h : c.toLower = ' ') : c = ' ' := by
  have hcode := Name.toNat_toLower c
  rw [h, show ' '.toNat = 32 from rfl] at hcode
  have hc : c.toNat = 32 := by split at hcode <;> omega
  exact Char.toNat_inj.1 hc

/-- What stands behind a phrase with a space at its end, in a text without blanks at its own. -/
theorem strip?_trimmed {phrase s r : List Char} (hs : Trimmed s)
    (hp : phrase.getLast? = some ' ') (h : strip? Char.toLower phrase s = some r) :
    r ≠ [] ∧ ∀ c, r.getLast? = some c → isBlank c = false := by
  obtain ⟨n, rfl, rfl⟩ := strip?_eq_some_iff.1 h
  have hne : r ≠ [] := by
    rintro rfl
    rw [List.getLast?_map] at hp
    obtain ⟨c, hc, hlower⟩ := Option.map_eq_some_iff.1 hp
    have hb := hs.2 c (by rw [List.append_nil, hc])
    rw [eq_space_of_toLower hlower] at hb
    exact absurd hb (by decide)
  refine ⟨hne, fun c hc => hs.2 c ?_⟩
  rw [List.getLast?_append_of_ne_nil _ hne, hc]

theorem trim_ne_nil_of_last {s : List Char} (hne : s ≠ [])
    (hlast : ∀ c, s.getLast? = some c → isBlank c = false) : trim s ≠ [] :=
  List.ne_nil_of_mem (mem_trim (hlast _ (List.getLast?_eq_some_getLast hne)) (List.getLast_mem hne))

/-- A phrase in lower case is read where a text follows that does not end in a blank. -/
theorem strip?_trim_append (phrase : String)
    (hlower : phrase.toList.map Char.toLower = phrase.toList)
    (hhead : phrase.toList.head?.any (!isBlank ·) = true) {r : List Char} (hne : r ≠ [])
    (hlast : ∀ c, r.getLast? = some c → isBlank c = false) :
    strip? Char.toLower phrase.toList (trim (phrase ++ String.ofList r).toList) = some r := by
  have htrimmed : Trimmed (phrase.toList ++ r) := by
    constructor
    · intro c hc
      cases hp : phrase.toList.head? with
      | none => rw [hp] at hhead; exact absurd hhead (by decide)
      | some p =>
        rw [List.head?_append, hp, Option.some_or, Option.some.injEq] at hc
        subst hc
        simpa [hp] using hhead
    · intro c hc
      rw [List.getLast?_append_of_ne_nil _ hne] at hc
      exact hlast c hc
  rw [String.toList_append, String.toList_ofList, trim_eq_self htrimmed, strip?_append hlower]

end Text

namespace Command

open Text

/-! ### Forms -/

/-- Where one function at most has a result, the first result is that of this function. -/
theorem findSome?_of_apart {α β : Type} {f : α → Option β} {l : List α}
    (h : l.Pairwise fun a b => f a = none ∨ f b = none) {a : α} (ha : a ∈ l) {b : β}
    (hb : f a = some b) : l.findSome? f = some b := by
  induction l with
  | nil => exact absurd ha List.not_mem_nil
  | cons a' l ih =>
    obtain ⟨happart, h⟩ := List.pairwise_cons.1 h
    rcases List.mem_cons.1 ha with rfl | ha
    · rw [List.findSome?_cons, hb]
    · have hnone : f a' = none := by simpa [hb] using happart a ha
      rw [List.findSome?_cons, hnone]
      exact ih h ha

theorem findSome?_eq_of_perm {α β : Type} {f : α → Option β} {l l' : List α} (hp : l'.Perm l)
    (h : l.Pairwise fun a b => f a = none ∨ f b = none) : l'.findSome? f = l.findSome? f := by
  cases hl : l'.findSome? f with
  | none =>
    rw [eq_comm, List.findSome?_eq_none_iff]
    rw [List.findSome?_eq_none_iff] at hl
    exact fun a ha => hl a (hp.mem_iff.2 ha)
  | some b =>
    obtain ⟨a, ha, hb⟩ := List.exists_of_findSome?_eq_some hl
    exact (findSome?_of_apart h (hp.mem_iff.1 ha) hb).symm

/-- The phrases of the forms, in their order. -/
def phrases : List String :=
  ["quit", "list databases", "list tables", "create database ", "use database ", "create table ",
    "select * from ", "insert into "]

/-- How a trimmed line is recognised as a command. -/
inductive Recognised (s : List Char) : Command → Prop
  | quit (h : isPhrase "quit".toList s = true) : Recognised s quit
  | listDatabases (h : isPhrase "list databases".toList s = true) : Recognised s listDatabases
  | listTables (h : isPhrase "list tables".toList s = true) : Recognised s listTables
  | createDatabase {r : List Char} (h : strip? Char.toLower "create database ".toList s = some r) :
    Recognised s (createDatabase (String.ofList (trim r)))
  | useDatabase {r : List Char} (h : strip? Char.toLower "use database ".toList s = some r) :
    Recognised s (useDatabase (String.ofList (trim r)))
  | createTable {r : List Char} (h : strip? Char.toLower "create table ".toList s = some r) :
    Recognised s (createTable (String.ofList r))
  | select {r : List Char} (h : strip? Char.toLower "select * from ".toList s = some r) :
    Recognised s (select (String.ofList r))
  | insert {r : List Char} (h : strip? Char.toLower "insert into ".toList s = some r) :
    Recognised s (insert (String.ofList s))

theorem alone_eq_some_iff {phrase : String} {command found : Command} {s : List Char} :
    alone phrase command s = some found ↔
      isPhrase phrase.toList s = true ∧ command = found := by
  rw [alone, Option.ite_none_right_eq_some, Option.some.injEq]

theorem behind_eq_some_iff {phrase : String} {command : List Char → Command} {found : Command}
    {s : List Char} : behind phrase command s = some found ↔
      ∃ r, strip? Char.toLower phrase.toList s = some r ∧ command r = found :=
  Option.map_eq_some_iff

theorem exists_form_iff {s : List Char} {command : Command} :
    (∃ form ∈ forms, form s = some command) ↔ Recognised s command := by
  constructor
  · intro h
    obtain ⟨form, hm, h⟩ := h
    simp only [forms, List.mem_cons, List.not_mem_nil, or_false] at hm
    rcases hm with rfl | rfl | rfl | rfl | rfl | rfl | rfl | rfl
    · obtain ⟨hs, rfl⟩ := alone_eq_some_iff.1 h
      exact .quit hs
    · obtain ⟨hs, rfl⟩ := alone_eq_some_iff.1 h
      exact .listDatabases hs
    · obtain ⟨hs, rfl⟩ := alone_eq_some_iff.1 h
      exact .listTables hs
    · obtain ⟨r, hs, rfl⟩ := behind_eq_some_iff.1 h
      exact .createDatabase hs
    · obtain ⟨r, hs, rfl⟩ := behind_eq_some_iff.1 h
      exact .useDatabase hs
    · obtain ⟨r, hs, rfl⟩ := behind_eq_some_iff.1 h
      exact .createTable hs
    · obtain ⟨r, hs, rfl⟩ := behind_eq_some_iff.1 h
      exact .select hs
    · obtain ⟨r, hs, rfl⟩ := behind_eq_some_iff.1 h
      exact .insert hs
  · intro h
    cases h with
    | quit h => exact ⟨_, List.getElem_mem (n := 0) (by decide), alone_eq_some_iff.2 ⟨h, rfl⟩⟩
    | listDatabases h =>
      exact ⟨_, List.getElem_mem (n := 1) (by decide), alone_eq_some_iff.2 ⟨h, rfl⟩⟩
    | listTables h => exact ⟨_, List.getElem_mem (n := 2) (by decide), alone_eq_some_iff.2 ⟨h, rfl⟩⟩
    | createDatabase h =>
      exact ⟨_, List.getElem_mem (n := 3) (by decide), behind_eq_some_iff.2 ⟨_, h, rfl⟩⟩
    | useDatabase h =>
      exact ⟨_, List.getElem_mem (n := 4) (by decide), behind_eq_some_iff.2 ⟨_, h, rfl⟩⟩
    | createTable h =>
      exact ⟨_, List.getElem_mem (n := 5) (by decide), behind_eq_some_iff.2 ⟨_, h, rfl⟩⟩
    | select h => exact ⟨_, List.getElem_mem (n := 6) (by decide), behind_eq_some_iff.2 ⟨_, h, rfl⟩⟩
    | insert h => exact ⟨_, List.getElem_mem (n := 7) (by decide), behind_eq_some_iff.2 ⟨_, h, rfl⟩⟩

theorem prefix_of_alone {phrase : String} {command : Command} {s : List Char}
    (h : alone phrase command s ≠ none) : phrase.toList <+: s.map Char.toLower := by
  obtain ⟨found, h⟩ := Option.ne_none_iff_exists'.1 h
  have hs : s.map Char.toLower = phrase.toList := beq_iff_eq.1 (alone_eq_some_iff.1 h).1
  exact ⟨[], by rw [List.append_nil, hs]⟩

theorem prefix_of_behind {phrase : String} {command : List Char → Command} {s : List Char}
    (h : behind phrase command s ≠ none) : phrase.toList <+: s.map Char.toLower := by
  obtain ⟨found, h⟩ := Option.ne_none_iff_exists'.1 h
  obtain ⟨r, hr, -⟩ := behind_eq_some_iff.1 h
  exact exists_strip?_iff.1 ⟨r, hr⟩

/-- A form has lines that start with its phrase only. -/
theorem prefix_of_form {p : String × (List Char → Option Command)} (hm : p ∈ phrases.zip forms)
    {s : List Char} (h : p.2 s ≠ none) : p.1.toList <+: s.map Char.toLower := by
  simp only [phrases, forms, List.zip_cons_cons, List.zip_nil_right, List.mem_cons,
    List.not_mem_nil, or_false] at hm
  rcases hm with rfl | rfl | rfl | rfl | rfl | rfl | rfl | rfl
  iterate 3
    · exact prefix_of_alone h
  iterate 5
    · exact prefix_of_behind h

theorem forms_apart (s : List Char) :
    forms.Pairwise fun form form' => form s = none ∨ form' s = none := by
  have hphrases : phrases.Pairwise fun p q =>
      ¬ p.toList <+: q.toList ∧ ¬ q.toList <+: p.toList := by decide
  rw [show phrases = (phrases.zip forms).map Prod.fst from rfl, List.pairwise_map] at hphrases
  rw [show forms = (phrases.zip forms).map Prod.snd from rfl, List.pairwise_map]
  refine hphrases.imp_of_mem fun {p q} hp hq hpq => ?_
  by_contra h
  rw [not_or] at h
  -- two beginnings of one line, of which the shorter is the beginning of the longer
  rcases List.prefix_or_prefix_of_prefix (prefix_of_form hp h.1) (prefix_of_form hq h.2) with h | h
  · exact hpq.1 h
  · exact hpq.2 h

/-! ### Classifying -/

variable {line : String} {command : Command}

/-- A line is classified as what it is recognised as. -/
theorem recognised_iff :
    Recognised (trim line.toList) command ↔ classify line = command ∧ command ≠ unknown := by
  rw [← exists_form_iff, classify]
  constructor
  · intro h
    obtain ⟨form, hm, hform⟩ := h
    refine ⟨by rw [findSome?_of_apart (forms_apart _) hm hform, Option.getD_some], ?_⟩
    rintro rfl
    cases exists_form_iff.1 ⟨form, hm, hform⟩
  · intro h
    obtain ⟨rfl, hne⟩ := h
    cases hfind : forms.findSome? fun form => form (trim line.toList) with
    | none => rw [hfind] at hne; exact absurd rfl hne
    | some command => exact List.exists_of_findSome?_eq_some hfind

theorem classify_eq_unknown_iff :
    classify line = unknown ↔ ∀ form ∈ forms, form (trim line.toList) = none := by
  rw [classify, ← List.findSome?_eq_none_iff]
  cases hfind : forms.findSome? fun form => form (trim line.toList) with
  | none => simp
  | some command =>
    have h := recognised_iff.1 (exists_form_iff.1 (List.exists_of_findSome?_eq_some hfind))
    simpa using h.2

/-- What the text of a command is like that a trimmed line is recognised as. -/
def Carries (s : List Char) : Command → Prop
  | createDatabase name | useDatabase name => name ≠ "" ∧ Trimmed name.toList
  | createTable text | select text =>
    text ≠ "" ∧ ∀ c, text.toList.getLast? = some c → isBlank c = false
  | insert statement => statement = String.ofList s
  | quit | listDatabases | listTables | unknown => True

/-- The phrase of a command in lower case with its text behind it. An insertion has the phrase in
its text. -/
def canonical : Command → String
  | quit => "quit"
  | listDatabases => "list databases"
  | listTables => "list tables"
  | createDatabase name => "create database " ++ name
  | useDatabase name => "use database " ++ name
  | createTable definition => "create table " ++ definition
  | select query => "select * from " ++ query
  | insert statement => statement
  | unknown => ""

theorem ofList_ne {s : List Char} (h : s ≠ []) : String.ofList s ≠ "" :=
  fun he => h (by simpa using congrArg String.toList he)

theorem carries_name {r : List Char}
    (h : r ≠ [] ∧ ∀ c, r.getLast? = some c → isBlank c = false) :
    String.ofList (trim r) ≠ "" ∧ Trimmed (String.ofList (trim r)).toList :=
  ⟨ofList_ne (trim_ne_nil_of_last h.1 h.2), by rw [String.toList_ofList]; exact trimmed_trim r⟩

theorem carries_statement {r : List Char}
    (h : r ≠ [] ∧ ∀ c, r.getLast? = some c → isBlank c = false) :
    String.ofList r ≠ "" ∧ ∀ c, (String.ofList r).toList.getLast? = some c → isBlank c = false :=
  ⟨ofList_ne h.1, by rw [String.toList_ofList]; exact h.2⟩

theorem Recognised.carries {s : List Char} (hs : Trimmed s) (h : Recognised s command) :
    command.Carries s := by
  cases h with
  | quit h | listDatabases h | listTables h => trivial
  | createDatabase h | useDatabase h => exact carries_name (strip?_trimmed hs rfl h)
  | createTable h | select h => exact carries_statement (strip?_trimmed hs rfl h)
  | insert h => rfl

/-- The canonical text of a command is recognised as the command. -/
theorem Recognised.canonical {s : List Char} (hs : Trimmed s) (h : Recognised s command) :
    Recognised (trim command.canonical.toList) command := by
  cases h with
  | quit h => exact .quit (by decide)
  | listDatabases h => exact .listDatabases (by decide)
  | listTables h => exact .listTables (by decide)
  | createDatabase h =>
    have hr := strip?_trimmed hs rfl h
    have hback := strip?_trim_append "create database " (by decide) (by decide)
      (trim_ne_nil_of_last hr.1 hr.2) (trimmed_trim _).2
    have h := Recognised.createDatabase hback
    rwa [trim_trim] at h
  | useDatabase h =>
    have hr := strip?_trimmed hs rfl h
    have hback := strip?_trim_append "use database " (by decide) (by decide)
      (trim_ne_nil_of_last hr.1 hr.2) (trimmed_trim _).2
    have h := Recognised.useDatabase hback
    rwa [trim_trim] at h
  | createTable h =>
    have hr := strip?_trimmed hs rfl h
    exact .createTable (strip?_trim_append _ (by decide) (by decide) hr.1 hr.2)
  | select h =>
    have hr := strip?_trimmed hs rfl h
    exact .select (strip?_trim_append _ (by decide) (by decide) hr.1 hr.2)
  | insert h =>
    have hline : (Command.insert (String.ofList s)).canonical.toList = s := String.toList_ofList
    rw [hline, trim_eq_self hs]
    exact .insert h

/-- A line is classified by its phrase. It has one form at most and is unknown where it has none.
The command carries a text that is not blank, and its canonical text is classified as the
command. -/
theorem classify_unambiguous (line : String) :
    (∀ command, Recognised (trim line.toList) command ↔
      classify line = command ∧ command ≠ unknown) ∧
      (forms.Pairwise fun form form' =>
        form (trim line.toList) = none ∨ form' (trim line.toList) = none) ∧
      (∀ order : List (List Char → Option Command), order.Perm forms →
        (order.findSome? fun form => form (trim line.toList)).getD unknown = classify line) ∧
      (classify line = unknown ↔ ∀ form ∈ forms, form (trim line.toList) = none) ∧
      (classify line).Carries (trim line.toList) ∧
      classify (classify line).canonical = classify line := by
  refine ⟨fun command => recognised_iff, forms_apart _, fun order horder => ?_,
    classify_eq_unknown_iff, ?_⟩
  · rw [findSome?_eq_of_perm horder (forms_apart _), classify]
  by_cases hne : classify line = unknown
  · rw [hne]
    exact ⟨trivial, rfl⟩
  · have h := recognised_iff.2 ⟨rfl, hne⟩
    exact ⟨h.carries (trimmed_trim _), (recognised_iff.1 (h.canonical (trimmed_trim _))).1⟩

/-- A text that starts with a blank and with the phrase once more, recognised from the last form to
the first, and a phrase with nothing behind it. -/
theorem classify_unambiguous_repeated :
    (forms.reverse.findSome? fun form =>
        form (trim "\tCREATE table  Create Table t (a int) ".toList)).getD unknown =
          createTable " Create Table t (a int)" ∧
      classify "create table  Create Table t (a int)" = createTable " Create Table t (a int)" ∧
      classify "use database \n" = unknown := by
  have hclassify : classify "\tCREATE table  Create Table t (a int) " =
      createTable " Create Table t (a int)" := by decide +kernel
  obtain ⟨-, -, horder, -, -, hback⟩ :=
    classify_unambiguous "\tCREATE table  Create Table t (a int) "
  simp only [hclassify] at hback
  refine ⟨(horder _ forms.reverse_perm).trans hclassify, hback, ?_⟩
  exact (classify_unambiguous "use database \n").2.2.2.1.2 (by decide)

end Command
end TableShell
