import TableShell.Text.Phrase
import TableShell.Text.WordTable

/-
Word characters and the search for a keyword that stands as a whole word.

A keyword is whole when neither the character before it nor the character behind it is a word
character. Keywords are given in lower case and found up to simple case folding.
-/
namespace TableShell
namespace Text

def isWordChar (c : Char) : Bool :=
  c.isAlphanum || c == '_' ||
    (128 ≤ c.toNat && wordRanges.any fun (first, last) => first ≤ c.toNat && c.toNat ≤ last)

/-- Simple case folding onto the lower-case ASCII letters. The long s and the Kelvin sign are the
only characters beyond ASCII that fold to one. -/
def foldCase (c : Char) : Char :=
  if c = '\u017f' then 's' else if c = '\u212a' then 'k' else c.toLower

/-- No word character comes first. -/
def atBoundary : List Char → Bool
  | [] => true
  | c :: _ => !isWordChar c

/-- The text behind the keyword, when the text starts with the keyword and a boundary follows. -/
def stripWord? (word s : List Char) : Option (List Char) :=
  (strip? foldCase word s).filter atBoundary

/-- The leftmost whole keyword whose continuation `accept` takes: the text before it and what was
accepted. `inWord` says whether a word character stands before the text. -/
def findWord? {α : Type} (word : List Char) (accept : List Char → Option α) (inWord : Bool) :
    List Char → Option (List Char × α)
  | [] => none
  | c :: s =>
    match if inWord then none else (stripWord? word (c :: s)).bind accept with
    | some a => some ([], a)
    | none => (findWord? word accept (isWordChar c) s).map fun (before, a) => (c :: before, a)

theorem stripWord?_eq_some_iff {word s r : List Char} :
    stripWord? word s = some r ↔ strip? foldCase word s = some r ∧ atBoundary r = true := by
  simp [stripWord?, Option.filter_eq_some_iff]

end Text
end TableShell
