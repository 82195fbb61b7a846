import TableShell.Error
import TableShell.OrderedMap
import TableShell.Text.Cut
import TableShell.Text.Fields
import TableShell.Text.Word
import TableShell.Value

/-
Insertions: `insert into table (columns) values (values)`.

Both lists are field lists. The shape of the statement is checked first, then the two lists are
found, each by a search of its own:

* the column list opens with the first parenthesis and runs, within its line, as far as a closing
  parenthesis with the whole word `values` behind it allows;
* the value list opens behind the leftmost whole word `values` that leaves a list up to the end of
  the statement, and runs to that end.

A name or a text that contains these marks can thus move one list and not the other.
-/
namespace TableShell

structure Insertion where
  table : String
  values : OrderedMap Value
deriving DecidableEq

namespace Insertion

open Text

/-- The statement behind `insert into` and the blanks that follow. -/
def target? (s : List Char) : Option (List Char) :=
  (strip? foldCase "insert".toList s).bind fun s =>
  (skipBlanks? s).bind fun s =>
  (strip? foldCase "into".toList s).bind fun s =>
  skipBlanks? s

def onOneLine (s : List Char) : Bool :=
  !s.contains '\n'

/-- The list that opens behind blanks and closes at the end of the text: not empty, on one line. -/
def lastList? (s : List Char) : Option (List Char) :=
  match trimStart s with
  | [] => none
  | c :: s =>
    let list := s.dropLast
    if c == '(' && s.getLast? == some ')' && !list.isEmpty && onOneLine list then some list
    else none

/-- The text behind the keyword, when the keyword comes first but for blanks. -/
def behindValues? (s : List Char) : Option (List Char) :=
  stripWord? "values".toList (trimStart s)

/-- A closing parenthesis comes on this line, with nothing behind it but the keyword and the value
list. -/
def closes : List Char → Bool
  | [] => false
  | c :: s => (c == ')' && ((behindValues? s).bind lastList?).isSome) || (c != '\n' && closes s)

/-- The longest text on one line up to a closing parenthesis with the keyword behind it. -/
def longest? : List Char → Option (List Char)
  | [] => none
  | c :: s =>
    if c = '\n' then none
    else
      match longest? s with
      | some list => some (c :: list)
      | none => if c = ')' ∧ (behindValues? s).isSome then some [] else none

/-- Behind its opening parenthesis the column list has a character at least, and then closes. -/
def isShaped : List Char → Bool
  | [] => false
  | c :: s => c != '\n' && closes s

/-- The column list, of one character at least, taken from behind its opening parenthesis. -/
def columnList? : List Char → Option (List Char)
  | [] => none
  | c :: s => if c = '\n' then none else (longest? s).map (c :: ·)

/-- The value list of a statement behind `insert into`. -/
def valueList? (s : List Char) : Option (List Char) :=
  (findWord? "values".toList lastList? false s).map (·.2)

/-- Pairs columns with values. A column named again keeps its place and takes its last value. -/
def pair (table columns values : List Char) : Except Error Insertion :=
  let names := (Fields.split columns).map String.ofList
  let texts := (Fields.split values).map fun s => Value.text (String.ofList s)
  if names.length = texts.length then .ok ⟨String.ofList table, .ofList (names.zip texts)⟩
  else .error .countMismatch

def read (statement : String) : Except Error Insertion :=
  match target? (trim statement.toList) with
  | none => .error .insertSyntax
  | some target =>
    match cut? (· == '(') target with
    | none => .error .insertSyntax
    | some (table, lists) =>
      if table.isEmpty || !onOneLine table || !isShaped lists then .error .insertSyntax
      else
        match columnList? lists, valueList? target with
        | some columns, some values => pair (trim table) columns values
        | _, _ => .error .insertSyntax

end Insertion
end TableShell
