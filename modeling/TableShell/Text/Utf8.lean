/-
Decoding of bytes as UTF-8, with a replacement character for what is ill formed.

The decoder runs byte by byte. Its state between two bytes is the sequence it is inside of, if
any: the range the next byte has to be in, how many bytes follow that one, and the bits gathered
so far. A byte out of range ends the sequence with one replacement character and is then read as
the first byte of another, so each maximal ill-formed beginning of a sequence gives one
replacement character.
-/
namespace TableShell
namespace Text
namespace Utf8

def replacement : Char := '\ufffd'

/-- A sequence begun and not ended. -/
structure Pending where
  low : Nat
  high : Nat
  more : Nat
  code : Nat
deriving DecidableEq, Repr

/-- Reads the first byte of a sequence. The narrowed ranges behind the bytes E0, ED, F0 and F4
shut out overlong forms, surrogates and codes past the last plane. -/
def first (b : Nat) : List Char × Option Pending :=
  if b < 0x80 then ([Char.ofNat b], none)
  else if b < 0xC2 then ([replacement], none)
  else if b < 0xE0 then ([], some ⟨0x80, 0xBF, 0, b - 0xC0⟩)
  else if b = 0xE0 then ([], some ⟨0xA0, 0xBF, 1, 0⟩)
  else if b = 0xED then ([], some ⟨0x80, 0x9F, 1, 0xD⟩)
  else if b < 0xF0 then ([], some ⟨0x80, 0xBF, 1, b - 0xE0⟩)
  else if b = 0xF0 then ([], some ⟨0x90, 0xBF, 2, 0⟩)
  else if b < 0xF4 then ([], some ⟨0x80, 0xBF, 2, b - 0xF0⟩)
  else if b = 0xF4 then ([], some ⟨0x80, 0x8F, 2, 4⟩)
  else ([replacement], none)

/-- Reads one byte: the characters it completes, and the sequence still pending behind it. -/
def step : Option Pending → Nat → List Char × Option Pending
  | none, b => first b
  | some p, b =>
    if p.low ≤ b ∧ b ≤ p.high then
      let code := 64 * p.code + (b - 0x80)
      if p.more = 0 then ([Char.ofNat code], none)
      else ([], some ⟨0x80, 0xBF, p.more - 1, code⟩)
    else
      let next := first b
      (replacement :: next.1, next.2)

def decodeFrom : Option Pending → List UInt8 → List Char
  | none, [] => []
  | some _, [] => [replacement]
  | p, b :: bs =>
    let next := step p b.toNat
    next.1 ++ decodeFrom next.2 bs

def decode (bytes : List UInt8) : String :=
  String.ofList (decodeFrom none bytes)

theorem decodeFrom_cons (p : Option Pending) (b : UInt8) (bs : List UInt8) :
    decodeFrom p (b :: bs) = (step p b.toNat).1 ++ decodeFrom (step p b.toNat).2 bs := by
  cases p <;> rfl

/-- An ASCII byte is never inside a sequence that is still well formed. -/
theorem step_of_lt {b : Nat} (h : b < 0x80) {p : Option Pending}
    (hp : ∀ q, p = some q → 0x80 ≤ q.low) :
    step p b = ((p.map fun _ => replacement).toList ++ [Char.ofNat b], none) := by
  have hf : first b = ([Char.ofNat b], none) := by simp only [first, h, if_true]
  cases p with
  | none => simp only [step, hf, Option.map_none, Option.toList_none, List.nil_append]
  | some q =>
    have := hp q rfl
    have hn : ¬ (q.low ≤ b ∧ b ≤ q.high) := by omega
    simp only [step, hn, if_false, hf, Option.map_some, Option.toList_some, List.singleton_append]

end Utf8
end Text
end TableShell
