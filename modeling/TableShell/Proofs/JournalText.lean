import Mathlib.Data.List.Basic
import TableShell.Journal
import TableShell.Name

/-
Records of the journal, read back from their texts.

A text is read by its words, the runs of the characters that names have. Numerals and valid names
are words, so the record of an event with such names says which event it is.
-/
namespace TableShell

/-! ### Words -/

/-- The character is in no word. -/
def isMark (c : Char) : Bool :=
  !Name.isNameChar c

/-- The runs of name characters in a text. -/
def words (s : List Char) : List String :=
  ((s.splitOnP isMark).filter fun w => !w.isEmpty).map String.ofList

theorem words_append_cons {c : Char} (hc : isMark c = true) (s r : List Char) :
    words (s ++ c :: r) = words s ++ words r := by
  rw [words, List.splitOnP_append_cons s r hc, List.filter_append, List.map_append]
  rfl

/-- A whole text that is a word. -/
theorem words_of_forall {w : List Char} (hne : w ≠ []) (h : ∀ c ∈ w, Name.isNameChar c = true) :
    words w = [String.ofList w] := by
  have hs : w.splitOnP isMark = [w] :=
    List.splitOnP_eq_singleton fun c hc => by rw [isMark, h c hc]; rfl
  simp [words, hs, hne]

/-- A name in front of a text that begins outside of a word. -/
theorem words_name {name : String} (hn : Name.isValid name = true) {s : List Char}
    (hs : s.head?.all isMark = true) : words (name.toList ++ s) = name :: words s := by
  obtain ⟨hne, hchars⟩ := Name.isValid_iff.1 hn
  have hname := words_of_forall hne hchars
  rw [String.ofList_toList] at hname
  cases s with
  | nil => rw [List.append_nil, hname]; rfl
  | cons c s =>
    have hrest : words (c :: s) = words s := words_append_cons hs [] s
    rw [words_append_cons hs, hname, hrest]
    rfl

/-- The text has these words and ends outside of them. -/
def Leads (s : List Char) (ws : List String) : Prop :=
  s.getLast?.any isMark = true ∧ words s = ws

instance (s : List Char) (ws : List String) : Decidable (Leads s ws) :=
  inferInstanceAs (Decidable (_ ∧ _))

theorem words_append {s : List Char} {ws : List String} (h : Leads s ws) (r : List Char) :
    words (s ++ r) = ws ++ words r := by
  obtain ⟨hs, rfl⟩ := h
  obtain ⟨c, hlast, hc⟩ := (Option.any_eq_true _ _).1 hs
  obtain ⟨s, rfl⟩ := List.getLast?_eq_some_iff.1 hlast
  rw [List.append_assoc, List.singleton_append, words_append_cons hc, words_append_cons hc,
    show words [] = [] from rfl, List.append_nil]

/-- A name behind a fixed text, where what follows begins outside of a word. -/
theorem words_append_name {s : List Char} {ws : List String} (h : Leads s ws) {name : String}
    (hn : Name.isValid name = true) {r : List Char} (hr : r.head?.all isMark = true) :
    words (s ++ (name.toList ++ r)) = ws ++ name :: words r := by
  rw [words_append h, words_name hn hr]

theorem head?_append_all {s : List Char} (h : s.head?.any isMark = true) (r : List Char) :
    (s ++ r).head?.all isMark = true := by
  obtain ⟨c, hhead, hc⟩ := (Option.any_eq_true _ _).1 h
  obtain ⟨s, rfl⟩ := List.head?_eq_some_iff.1 hhead
  exact hc

namespace Event

theorem isValid_numeral (n : Nat) : Name.isValid (numeral n) = true := by
  have hn : ¬ (n : Int) < 0 := by omega
  rw [Name.isValid_iff, numeral, String.toList_ofList]
  refine ⟨Numeral.Integer.write_ne_nil _, fun c hc => ?_⟩
  rw [Numeral.Integer.write, if_neg hn] at hc
  have hd := Nat.isDigit_of_mem_toDigits (by decide) (by decide) hc
  rw [Name.isNameChar, Char.isAlphanum, hd, Bool.or_true, Bool.true_or]

theorem numeral_eq_toString (n : Nat) : numeral n = toString n := by
  have hn : ¬ (n : Int) < 0 := by omega
  rw [numeral, Numeral.Integer.write, if_neg hn]
  rfl

theorem message_rowInserted (table : String) (row : Nat) :
    (rowInserted table row).message =
      "table " ++ table ++ ": row " ++ toString row ++ " inserted" := by
  rw [← numeral_eq_toString]
  rfl

theorem message_rowsSelected (table : String) (found total : Nat) :
    (rowsSelected table found total).message =
      "table " ++ table ++ ": " ++ toString found ++ " of " ++ toString total ++
        " rows selected" := by
  rw [← numeral_eq_toString, ← numeral_eq_toString]
  rfl

/-! ### Reading -/

def readNat? (word : String) : Option Nat :=
  (Numeral.Integer.read? word.toList).map Int.toNat

theorem readNat?_numeral (n : Nat) : readNat? (numeral n) = some n := by
  rw [readNat?, numeral, String.toList_ofList, Numeral.Integer.read?_write]
  rfl

/-- The event that the words of a record announce. -/
def ofWords : List String → Option Event
  | ["database", database, "created"] => some (databaseCreated database)
  | ["active", "database", "switched", "to", database] => some (databaseActivated database)
  | ["database", database, "table", table, "created"] => some (tableCreated database table)
  | ["table", table, "row", row, "inserted"] => (readNat? row).map (rowInserted table)
  | ["table", table, found, "of", total, "rows", "selected"] =>
    (readNat? found).bind fun found => (readNat? total).map (rowsSelected table found)
  | _ => none

/-- The event that a record announces; none where it is the record of a failure. -/
def read? (record : String) : Option Event :=
  ofWords (words record.toList)

/-- The names in the event are valid; the record of a failure is not read back. -/
def Named : Event → Prop
  | databaseCreated database | databaseActivated database => Name.isValid database = true
  | tableCreated database table => Name.isValid database = true ∧ Name.isValid table = true
  | rowInserted table _ | rowsSelected table _ _ => Name.isValid table = true
  | commandFailed _ => True

section

variable {database table : String} (hd : Name.isValid database = true)
  (ht : Name.isValid table = true)

include hd in
theorem words_databaseCreated :
    words (databaseCreated database).message.toList = ["database", database, "created"] := by
  have hlead : Leads "database ".toList ["database"] := by decide +kernel
  have htail : words " created".toList = ["created"] := by decide +kernel
  show words ("database " ++ database ++ " created").toList = _
  rw [String.toList_append, String.toList_append, List.append_assoc,
    words_append_name hlead hd (by decide +kernel), htail]
  rfl

include hd in
theorem words_databaseActivated :
    words (databaseActivated database).message.toList =
      ["active", "database", "switched", "to", database] := by
  have hlead : Leads "active database switched to ".toList
      ["active", "database", "switched", "to"] := by decide +kernel
  show words ("active database switched to " ++ database).toList = _
  rw [String.toList_append, ← List.append_nil database.toList, words_append_name hlead hd rfl]
  rfl

include hd ht in
theorem words_tableCreated :
    words (tableCreated database table).message.toList =
      ["database", database, "table", table, "created"] := by
  have hlead : Leads "database ".toList ["database"] := by decide +kernel
  have htable : Leads ": table ".toList ["table"] := by decide +kernel
  have hmark : ": table ".toList.head?.any isMark = true := by decide +kernel
  have htail : words " created".toList = ["created"] := by decide +kernel
  show words ("database " ++ database ++ ": table " ++ table ++ " created").toList = _
  simp only [String.toList_append, List.append_assoc]
  rw [words_append_name hlead hd (head?_append_all hmark _),
    words_append_name htable ht (by decide +kernel), htail]
  rfl

include ht in
theorem words_rowInserted (row : Nat) :
    words (rowInserted table row).message.toList =
      ["table", table, "row", numeral row, "inserted"] := by
  have hlead : Leads "table ".toList ["table"] := by decide +kernel
  have hrow : Leads ": row ".toList ["row"] := by decide +kernel
  have hmark : ": row ".toList.head?.any isMark = true := by decide +kernel
  have htail : words " inserted".toList = ["inserted"] := by decide +kernel
  show words ("table " ++ table ++ ": row " ++ numeral row ++ " inserted").toList = _
  simp only [String.toList_append, List.append_assoc]
  rw [words_append_name hlead ht (head?_append_all hmark _),
    words_append_name hrow (isValid_numeral row) (by decide +kernel), htail]
  rfl

include ht in
theorem words_rowsSelected (found total : Nat) :
    words (rowsSelected table found total).message.toList =
      ["table", table, numeral found, "of", numeral total, "rows", "selected"] := by
  have hlead : Leads "table ".toList ["table"] := by decide +kernel
  have hfound : Leads ": ".toList [] := by decide +kernel
  have hof : Leads " of ".toList ["of"] := by decide +kernel
  have hmark : ": ".toList.head?.any isMark = true ∧ " of ".toList.head?.any isMark = true := by
    decide +kernel
  have htail : words " rows selected".toList = ["rows", "selected"] := by decide +kernel
  show words ("table " ++ table ++ ": " ++ numeral found ++ " of " ++ numeral total ++
    " rows selected").toList = _
  simp only [String.toList_append, List.append_assoc]
  rw [words_append_name hlead ht (head?_append_all hmark.1 _),
    words_append_name hfound (isValid_numeral found) (head?_append_all hmark.2 _),
    words_append_name hof (isValid_numeral total) (by decide +kernel), htail]
  rfl

end

theorem read?_commandFailed (cause : Error) : read? (commandFailed cause).message = none := by
  have hlead : Leads "command failed: ".toList ["command", "failed"] := by decide +kernel
  have hwords : words (commandFailed cause).message.toList =
      ["command", "failed"] ++ words cause.message.toList := by
    show words ("command failed: " ++ cause.message).toList = _
    rw [String.toList_append, words_append hlead]
  rw [read?, hwords, ofWords.eq_def]
  split <;> simp_all

/-- The record of a change or of a selection says which it is. -/
theorem read?_message {event : Event} (h : event.Named) :
    read? event.message =
      match event with
      | commandFailed _ => none
      | _ => some event := by
  cases event with
  | databaseCreated database => rw [read?, words_databaseCreated h, ofWords]
  | databaseActivated database => rw [read?, words_databaseActivated h, ofWords]
  | tableCreated database table => rw [read?, words_tableCreated h.1 h.2, ofWords]
  | rowInserted table row =>
    rw [read?, words_rowInserted h, ofWords, readNat?_numeral, Option.map_some]
  | rowsSelected table found total =>
    rw [read?, words_rowsSelected h, ofWords, readNat?_numeral, readNat?_numeral,
      Option.bind_some, Option.map_some]
  | commandFailed cause => exact read?_commandFailed cause

end Event
end TableShell
