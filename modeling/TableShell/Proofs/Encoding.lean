import TableShell.Text.Utf8

/-
Encoded text, and line feeds in what is decoded.

Decoding inverts the encoding of a text. A line feed comes out of the decoder only where its byte
went in, and that byte is never swallowed: whatever sequence stands open before it is given up, and
decoding starts anew behind it. So it makes no difference whether lines are cut before decoding or
after.
-/
namespace TableShell
namespace Text
namespace Utf8

/-- The bytes of a text in UTF-8. -/
def encode (s : String) : List UInt8 :=
  s.toUTF8.data.toList

theorem encode_ofList (s : List Char) :
    encode (String.ofList s) = s.flatMap String.utf8EncodeChar := by
  rw [encode, String.toUTF8, String.toByteArray_ofList, List.utf8Encode, List.data_toByteArray]

/-- What is true of every sequence that a decoder is inside of: its next byte is no ASCII one, and
the code it comes to is beyond ASCII too. -/
structure Pending.Sound (p : Pending) : Prop where
  low_le : 0x80 ≤ p.low
  code_le : 2 ≤ 64 * p.code + (p.low - 0x80)
  code_le_of_last : p.more = 0 → 2 ≤ p.code

theorem Pending.sound_mk {low high more code : Nat} (h₁ : 0x80 ≤ low)
    (h₂ : 2 ≤ 64 * code + (low - 0x80)) (h₃ : more = 0 → 2 ≤ code) :
    Sound ⟨low, high, more, code⟩ :=
  ⟨h₁, h₂, h₃⟩

/-- The three things that a first byte can be. -/
theorem first_cases (b : Nat) :
    (b < 0x80 ∧ first b = ([Char.ofNat b], none)) ∨ first b = ([replacement], none) ∨
      ∃ p : Pending, p.Sound ∧ first b = ([], some p) := by
  unfold first
  split
  · next h => exact Or.inl ⟨h, rfl⟩
  right
  split
  · exact Or.inl rfl
  repeat' (split; exact Or.inr ⟨_, Pending.sound_mk (by omega) (by omega) (by omega), rfl⟩)
  exact Or.inl rfl

/-- The three things that a byte can do inside of a sequence: end it badly and be read as a first
one, complete it, or go on with it. -/
theorem step_cases {p : Pending} (hp : p.Sound) (b : Nat) :
    step (some p) b = (replacement :: (first b).1, (first b).2) ∨
      (∃ n, 0x80 ≤ n ∧ step (some p) b = ([Char.ofNat n], none)) ∨
      ∃ q : Pending, q.Sound ∧ step (some p) b = ([], some q) := by
  obtain ⟨hlow, hcode, hlast⟩ := hp
  rw [step]
  split
  · next hb =>
    right
    simp only
    split
    · next hm => exact Or.inl ⟨_, by have := hlast hm; omega, rfl⟩
    · exact Or.inr ⟨_, Pending.sound_mk (by omega) (by omega) (by omega), rfl⟩
  · exact Or.inl rfl

theorem ofNat_eq_newline {n : Nat} (h : Char.ofNat n = '\n') : n = 10 := by
  by_cases hn : n.isValidChar
  · rw [Char.ofNat, dif_pos hn] at h
    exact congrArg Char.toNat h
  · rw [Char.ofNat, dif_neg hn] at h
    exact absurd h (by decide)

/-- A state that a decoder can come to. -/
def IsSound (state : Option Pending) : Prop :=
  ∀ p, state = some p → p.Sound

theorem isSound_none : IsSound none := by
  rintro p ⟨⟩

theorem isSound_first (b : Nat) : IsSound (first b).2 := by
  intro q hq
  rcases first_cases b with ⟨-, h⟩ | h | ⟨p, hp, h⟩ <;> rw [h] at hq <;> cases hq
  exact hp

theorem isSound_step {state : Option Pending} (hs : IsSound state) (b : Nat) :
    IsSound (step state b).2 := by
  cases state with
  | none => exact isSound_first b
  | some p =>
    rcases step_cases (hs p rfl) b with h | ⟨n, -, h⟩ | ⟨q, hq, h⟩
    · rw [h]
      exact isSound_first b
    · rw [h]
      exact isSound_none
    · rw [h]
      rintro q ⟨⟩
      exact hq

theorem eq_of_newline_mem_first {b : Nat} (h : '\n' ∈ (first b).1) : b = 10 := by
  rcases first_cases b with ⟨-, hb⟩ | hb | ⟨p, -, hb⟩ <;> rw [hb] at h
  · exact ofNat_eq_newline (List.mem_singleton.1 h).symm
  · exact absurd h (by decide)
  · exact absurd h List.not_mem_nil

theorem eq_of_newline_mem_step {state : Option Pending} (hs : IsSound state) {b : Nat}
    (h : '\n' ∈ (step state b).1) : b = 10 := by
  cases state with
  | none => exact eq_of_newline_mem_first h
  | some p =>
    rcases step_cases (hs p rfl) b with hb | ⟨n, hn, hb⟩ | ⟨q, -, hb⟩ <;> rw [hb] at h
    · rcases List.mem_cons.1 h with h | h
      · exact absurd h (by decide)
      · exact eq_of_newline_mem_first h
    · have := ofNat_eq_newline (List.mem_singleton.1 h).symm
      omega
    · exact absurd h List.not_mem_nil

theorem newline_not_mem_decodeFrom {state : Option Pending} (hs : IsSound state) {bs : List UInt8}
    (h : 10 ∉ bs) : '\n' ∉ decodeFrom state bs := by
  induction bs generalizing state with
  | nil => cases state <;> simp [decodeFrom, replacement]
  | cons b bs ih =>
    rw [List.mem_cons, not_or] at h
    rw [decodeFrom_cons, List.mem_append, not_or]
    refine ⟨fun hm => h.1 ?_, ih (isSound_step hs _) h.2⟩
    exact UInt8.toNat_inj.1 (eq_of_newline_mem_step hs hm).symm

/-- A line feed ends whatever was begun, so that decoding starts anew behind it. -/
theorem decodeFrom_append_newline {state : Option Pending} (hs : IsSound state)
    (a bs : List UInt8) :
    decodeFrom state (a ++ 10 :: bs) = decodeFrom state a ++ '\n' :: decodeFrom none bs := by
  induction a generalizing state with
  | nil =>
    rw [List.nil_append, decodeFrom_cons,
      step_of_lt (by decide) fun p hp => (hs p hp).low_le]
    cases state <;> rfl
  | cons b a ih =>
    rw [List.cons_append, decodeFrom_cons, decodeFrom_cons, ih (isSound_step hs _),
      List.append_assoc]

/-- A sequence that was begun comes to a character, if only to a replacement. -/
theorem decodeFrom_some_ne_nil {p : Pending} (hp : p.Sound) (bs : List UInt8) :
    decodeFrom (some p) bs ≠ [] := by
  induction bs generalizing p with
  | nil => exact List.cons_ne_nil _ _
  | cons b bs ih =>
    rw [decodeFrom_cons]
    rcases step_cases hp b.toNat with h | ⟨n, -, h⟩ | ⟨q, hq, h⟩ <;> rw [h]
    · exact List.cons_ne_nil _ _
    · exact List.cons_ne_nil _ _
    · exact ih hq

theorem decodeFrom_none_ne_nil {bs : List UInt8} (h : bs ≠ []) : decodeFrom none bs ≠ [] := by
  obtain ⟨b, bs, rfl⟩ := List.exists_cons_of_ne_nil h
  rw [decodeFrom_cons, step]
  rcases first_cases b.toNat with ⟨-, hb⟩ | hb | ⟨p, hp, hb⟩ <;> rw [hb]
  · exact List.cons_ne_nil _ _
  · exact List.cons_ne_nil _ _
  · exact decodeFrom_some_ne_nil hp bs

/-! ### Encoded text -/

/-- The last byte of a sequence. -/
theorem decodeFrom_last {p : Pending} {b : Nat} (hm : p.more = 0) (hlow : p.low ≤ b)
    (hhigh : b ≤ p.high) (hb : b < 256) (bs : List UInt8) :
    decodeFrom (some p) (UInt8.ofNat b :: bs) =
      Char.ofNat (64 * p.code + (b - 0x80)) :: decodeFrom none bs := by
  rw [decodeFrom_cons, UInt8.toNat_ofNat', Nat.mod_eq_of_lt hb, step, if_pos ⟨hlow, hhigh⟩]
  simp only [hm, if_true, List.singleton_append]

/-- A byte in the middle of a sequence. -/
theorem decodeFrom_more {p : Pending} {b n : Nat} (hm : p.more = n + 1) (hlow : p.low ≤ b)
    (hhigh : b ≤ p.high) (hb : b < 256) (bs : List UInt8) :
    decodeFrom (some p) (UInt8.ofNat b :: bs) =
      decodeFrom (some ⟨0x80, 0xBF, n, 64 * p.code + (b - 0x80)⟩) bs := by
  have hne : p.more ≠ 0 := by omega
  have hn : p.more - 1 = n := by omega
  rw [decodeFrom_cons, UInt8.toNat_ofNat', Nat.mod_eq_of_lt hb, step, if_pos ⟨hlow, hhigh⟩]
  simp only [hne, if_false, hn, List.nil_append]

theorem decodeFrom_begun {b : Nat} {p : Pending} (h : first b = ([], some p)) (hb : b < 256)
    (bs : List UInt8) : decodeFrom none (UInt8.ofNat b :: bs) = decodeFrom (some p) bs := by
  rw [decodeFrom_cons, UInt8.toNat_ofNat', Nat.mod_eq_of_lt hb, step, h, List.nil_append]

theorem first_two {n : Nat} (h₁ : 0x7F < n) (h₂ : n ≤ 0x7FF) :
    first (n / 64 % 32 + 192) = ([], some ⟨0x80, 0xBF, 0, n / 64⟩) := by
  have hcode : n / 64 % 32 + 192 - 0xC0 = n / 64 := by omega
  rw [first, if_neg (by omega), if_neg (by omega), if_pos (by omega), hcode]

theorem exists_first_three {n : Nat} (h₁ : 0x7FF < n) (h₂ : n ≤ 0xFFFF)
    (hv : n < 0xD800 ∨ 0xDFFF < n) : ∃ p : Pending,
      first (n / 4096 % 16 + 224) = ([], some p) ∧ p.more = 1 ∧ p.code = n / 4096 ∧
        p.low ≤ n / 64 % 64 + 128 ∧ n / 64 % 64 + 128 ≤ p.high := by
  rw [first, if_neg (by omega), if_neg (by omega), if_neg (by omega)]
  split
  · exact ⟨_, rfl, rfl, by simp only; omega, by simp only; omega, by simp only; omega⟩
  split
  · exact ⟨_, rfl, rfl, by simp only; omega, by simp only; omega, by simp only; omega⟩
  rw [if_pos (by omega)]
  exact ⟨_, rfl, rfl, by simp only; omega, by simp only; omega, by simp only; omega⟩

theorem exists_first_four {n : Nat} (h₁ : 0xFFFF < n) (h₂ : n < 0x110000) : ∃ p : Pending,
    first (n / 262144 % 8 + 240) = ([], some p) ∧ p.more = 2 ∧ p.code = n / 262144 ∧
      p.low ≤ n / 4096 % 64 + 128 ∧ n / 4096 % 64 + 128 ≤ p.high := by
  rw [first, if_neg (by omega), if_neg (by omega), if_neg (by omega), if_neg (by omega),
    if_neg (by omega), if_neg (by omega)]
  split
  · exact ⟨_, rfl, rfl, by simp only; omega, by simp only; omega, by simp only; omega⟩
  split
  · exact ⟨_, rfl, rfl, by simp only; omega, by simp only; omega, by simp only; omega⟩
  rw [if_pos (by omega)]
  exact ⟨_, rfl, rfl, by simp only; omega, by simp only; omega, by simp only; omega⟩

/-- The bytes of a character are decoded to it, whatever follows them. -/
theorem decodeFrom_utf8EncodeChar (c : Char) (bs : List UInt8) :
    decodeFrom none (String.utf8EncodeChar c ++ bs) = c :: decodeFrom none bs := by
  have hv : c.toNat < 0xD800 ∨ 0xDFFF < c.toNat ∧ c.toNat < 0x110000 := c.valid
  have hc : ∀ n, n = c.toNat → Char.ofNat n = c := by
    rintro n rfl
    exact Char.ofNat_toNat c
  simp only [String.utf8EncodeChar, show c.val.toNat = c.toNat from rfl]
  generalize c.toNat = n at hv hc
  split
  · next h₁ =>
    rw [List.singleton_append, decodeFrom_cons, UInt8.toNat_ofNat', Nat.mod_eq_of_lt (by omega),
      step, first, if_pos (by omega), hc n rfl, List.singleton_append]
  split
  · next h₁ h₂ =>
    simp only [List.cons_append, List.nil_append]
    rw [decodeFrom_begun (first_two (by omega) h₂) (by omega),
      decodeFrom_last rfl (by simp only; omega) (by simp only; omega) (by omega)]
    simp only
    rw [hc _ (by omega)]
  split
  · next h₁ h₂ h₃ =>
    obtain ⟨p, hp, hm, hcode, hlow, hhigh⟩ := exists_first_three (n := n) (by omega) h₃ (by omega)
    simp only [List.cons_append, List.nil_append]
    rw [decodeFrom_begun hp (by omega), decodeFrom_more hm hlow hhigh (by omega),
      decodeFrom_last rfl (by simp only; omega) (by simp only; omega) (by omega)]
    simp only [hcode]
    rw [hc _ (by omega)]
  · next h₁ h₂ h₃ =>
    obtain ⟨p, hp, hm, hcode, hlow, hhigh⟩ := exists_first_four (n := n) (by omega) (by omega)
    simp only [List.cons_append, List.nil_append]
    rw [decodeFrom_begun hp (by omega), decodeFrom_more hm hlow hhigh (by omega),
      decodeFrom_more rfl (by simp only; omega) (by simp only; omega) (by omega),
      decodeFrom_last rfl (by simp only; omega) (by simp only; omega) (by omega)]
    simp only [hcode]
    rw [hc _ (by omega)]

theorem decodeFrom_flatMap (s : List Char) (bs : List UInt8) :
    decodeFrom none (s.flatMap String.utf8EncodeChar ++ bs) = s ++ decodeFrom none bs := by
  induction s with
  | nil => rfl
  | cons c s ih =>
    rw [List.flatMap_cons, List.append_assoc, decodeFrom_utf8EncodeChar, ih, List.cons_append]

theorem decode_flatMap (s : List Char) :
    decode (s.flatMap String.utf8EncodeChar) = String.ofList s := by
  have h := decodeFrom_flatMap s []
  rw [List.append_nil, decodeFrom, List.append_nil] at h
  rw [decode, h]

/-- A text is read back from its bytes. -/
theorem decode_encode (s : String) : decode (encode s) = s := by
  have h : encode s = s.toList.flatMap String.utf8EncodeChar := by
    rw [← encode_ofList, String.ofList_toList]
  rw [h, decode_flatMap, String.ofList_toList]

/-- Encoded text has the byte of a line feed only where it has a line feed, since decoding would
otherwise come upon one. -/
theorem newline_not_mem_encode {s : List Char} (h : '\n' ∉ s) :
    10 ∉ s.flatMap String.utf8EncodeChar := by
  intro hm
  obtain ⟨a, b, hab⟩ := List.append_of_mem hm
  have hs := decodeFrom_flatMap s []
  rw [List.append_nil, decodeFrom, List.append_nil, hab,
    decodeFrom_append_newline isSound_none] at hs
  rw [← hs] at h
  exact h (List.mem_append_right _ List.mem_cons_self)

end Utf8
end Text
end TableShell
