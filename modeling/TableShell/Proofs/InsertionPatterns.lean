import TableShell.Proofs.InsertionGrammar

/-
Insertions as four patterns describe them.

One pattern is of the whole statement. Three more find its head, its column list and its value list,
each by a search of its own. A statement that the first pattern matches and that names a table has
all three, so that reading it fails for one cause only: the lists have fields in different number.
-/
namespace TableShell

namespace Text

/-- What a pattern is made of: the ends of the text, the bound of a word, a keyword up to simple
case folding, a character, some number of blanks or more, and one character or more on one line. -/
inductive Piece
  | first
  | last
  | boundary
  | keyword (word : List Char)
  | mark (c : Char)
  | blanks (least : Nat)
  | line

/-- The piece matches the text, where that stands between two others. -/
def Piece.Matches (before s after : List Char) : Piece → Prop
  | first => s = [] ∧ before = []
  | last => s = [] ∧ after = []
  | boundary => s = [] ∧ before.getLast?.any isWordChar ≠ after.head?.any isWordChar
  | keyword word => s.map foldCase = word
  | mark c => s = [c]
  | blanks least => least ≤ s.length ∧ ∀ c ∈ s, isBlank c = true
  | line => s ≠ [] ∧ '\n' ∉ s

abbrev Pattern := List Piece

namespace Pattern

def Matches : Pattern → List Char → List Char → List Char → Prop
  | [], _, s, _ => s = []
  | p :: ps, before, s, after =>
    ∃ a b, s = a ++ b ∧ p.Matches before a (b ++ after) ∧ Matches ps (before ++ a) b after

/-- The pattern matches somewhere in the text. -/
def Occurs (p : Pattern) (s : List Char) : Prop :=
  ∃ before m after, s = before ++ (m ++ after) ∧ p.Matches before m after

theorem matches_append {p q : Pattern} {before s after : List Char} :
    Matches (p ++ q) before s after ↔
      ∃ a b, s = a ++ b ∧ p.Matches before a (b ++ after) ∧ q.Matches (before ++ a) b after := by
  induction p generalizing before s with
  | nil =>
    simp only [List.nil_append, Matches]
    constructor
    · intro h
      exact ⟨[], s, rfl, rfl, by rwa [List.append_nil]⟩
    · intro h
      obtain ⟨_, b, rfl, rfl, hb⟩ := h
      rwa [List.append_nil] at hb
  | cons piece p ih =>
    simp only [List.cons_append, Matches, ih]
    constructor
    · intro h
      obtain ⟨a, _, rfl, ha, b, c, rfl, hb, hc⟩ := h
      rw [List.append_assoc] at ha hc
      exact ⟨a ++ b, c, (List.append_assoc a b c).symm, ⟨a, b, rfl, ha, hb⟩, hc⟩
    · intro h
      obtain ⟨_, c, rfl, ⟨a, b, rfl, ha, hb⟩, hc⟩ := h
      rw [← List.append_assoc] at ha hc
      exact ⟨a, b ++ c, List.append_assoc a b c, ha, b, c, rfl, hb, hc⟩

end Pattern

/-- A pattern with a part that is captured, of one character or more on one line. -/
structure Group where
  opens : Pattern
  closes : Pattern

namespace Group

/-- The group matches from the end of `start` on, around the block. -/
def At (g : Group) (s start block : List Char) : Prop :=
  ∃ a b after, s = start ++ (a ++ (block ++ (b ++ after))) ∧
    g.opens.Matches start a (block ++ (b ++ after)) ∧
    Piece.line.Matches (start ++ a) block (b ++ after) ∧
    g.closes.Matches (start ++ a ++ block) b after

/-- The block that a search captures: of the leftmost place, and there the longest. -/
def Captures (g : Group) (s block : List Char) : Prop :=
  ∃ start, g.At s start block ∧ ∀ start' block', g.At s start' block' →
    start.length ≤ start'.length ∧
      (start.length = start'.length → block'.length ≤ block.length)

end Group

section Keyword

variable {word : List Char}

theorem isWordChar_of_mem_keyword (hw : ∀ p ∈ word, isWordChar p = true) {n : List Char}
    (h : n.map foldCase = word) {c : Char} (hc : c ∈ n) : isWordChar c = true := by
  have hm : foldCase c ∈ word := h ▸ List.mem_map_of_mem hc
  by_contra hn
  exact ne_of_not_word hw (Bool.eq_false_iff.2 hn) hm rfl

theorem boundary_matches_behind (hne : word ≠ []) (hw : ∀ p ∈ word, isWordChar p = true)
    {n before s after : List Char} (h : n.map foldCase = word) :
    Piece.boundary.Matches (before ++ n) s after ↔ s = [] ∧ atBoundary after = true := by
  have hn : n ≠ [] := by
    rintro rfl
    exact hne h.symm
  have hlast : (before ++ n).getLast?.any isWordChar = true := by
    rw [List.getLast?_append_of_ne_nil _ hn, List.getLast?_eq_some_getLast hn, Option.any_some]
    exact isWordChar_of_mem_keyword hw h (List.getLast_mem hn)
  rw [Piece.Matches, hlast]
  refine and_congr_right fun _ => ?_
  cases after with
  | nil => simp [atBoundary]
  | cons c after => simp [atBoundary]

theorem boundary_matches_before (hne : word ≠ []) (hw : ∀ p ∈ word, isWordChar p = true)
    {n before s after : List Char} (h : n.map foldCase = word) :
    Piece.boundary.Matches before s (n ++ after) ↔
      s = [] ∧ ∀ c, before.getLast? = some c → isWordChar c = false := by
  cases n with
  | nil => exact absurd h.symm hne
  | cons d n =>
    rw [Piece.Matches, List.cons_append, List.head?_cons, Option.any_some,
      isWordChar_of_mem_keyword hw h List.mem_cons_self]
    refine and_congr_right fun _ => ?_
    cases before.getLast? <;> simp

end Keyword
end Text

namespace Insertion

open Text

/-- The keywords in front of the table, with the blanks behind them. -/
def head : Pattern :=
  [.first, .keyword "insert".toList, .blanks 1, .keyword "into".toList, .blanks 1]

/-- The whole statement. -/
def shape : Pattern :=
  head ++ [.line, .mark '(', .line, .mark ')', .blanks 0, .keyword "values".toList, .blanks 0,
    .mark '(', .line, .mark ')', .last]

def columnGroup : Group where
  opens := [.mark '(']
  closes := [.mark ')', .blanks 0, .keyword "values".toList, .boundary]

def valueGroup : Group where
  opens := [.boundary, .keyword "values".toList, .blanks 0, .mark '(']
  closes := [.mark ')', .last]

/-- Behind the longest match of the head stands the rest. -/
def Heads (s rest : List Char) : Prop :=
  ∃ m, s = m ++ rest ∧ head.Matches [] m rest ∧
    ∀ m' rest', s = m' ++ rest' → head.Matches [] m' rest' → m'.length ≤ m.length

/-- Nothing but blanks stands between the head and the first parenthesis. -/
def Nameless (s : List Char) : Prop :=
  ∃ m blanks rest, s = m ++ (blanks ++ '(' :: rest) ∧
    head.Matches [] m (blanks ++ '(' :: rest) ∧ ∀ c ∈ blanks, isBlank c = true

/-- What the searches for the head and for the two lists find. -/
structure Finds (s rest columns values : List Char) : Prop where
  heads : Heads s rest
  columns_captured : columnGroup.Captures rest columns
  values_captured : valueGroup.Captures rest values

/-! ### The head -/

theorem head_matches_iff {before m after : List Char} : head.Matches before m after ↔
    before = [] ∧ ∃ insert blanks₁ into blanks₂, m = insert ++ (blanks₁ ++ (into ++ blanks₂)) ∧
      insert.map foldCase = "insert".toList ∧ into.map foldCase = "into".toList ∧
      (blanks₁ ≠ [] ∧ ∀ c ∈ blanks₁, isBlank c = true) ∧
      (blanks₂ ≠ [] ∧ ∀ c ∈ blanks₂, isBlank c = true) := by
  simp only [head, Pattern.Matches, Piece.Matches, Nat.one_le_iff_ne_zero, ne_eq,
    List.length_eq_zero_iff]
  constructor
  · intro h
    obtain ⟨_, _, rfl, ⟨rfl, rfl⟩, i, _, rfl, hi, b₁, _, rfl, hb₁, o, _, rfl, ho, b₂, _, rfl, hb₂,
      rfl⟩ := h
    exact ⟨rfl, i, b₁, o, b₂, by simp, hi, ho, hb₁, hb₂⟩
  · intro h
    obtain ⟨rfl, i, b₁, o, b₂, rfl, hi, ho, hb₁, hb₂⟩ := h
    exact ⟨[], _, rfl, ⟨rfl, rfl⟩, i, _, rfl, hi, b₁, _, rfl, hb₁, o, b₂, rfl, ho, b₂, [],
      (List.append_nil b₂).symm, hb₂, rfl⟩

/-- The blanks behind a match of the head belong to a longer match. -/
theorem target?_of_head {m rest : List Char} (h : head.Matches [] m rest) :
    target? (m ++ rest) = some (trimStart rest) := by
  obtain ⟨-, i, b₁, o, b₂, rfl, hi, ho, hb₁, hne, hb₂⟩ := head_matches_iff.1 h
  refine target?_eq_some_iff.2 ⟨fun c hc => head?_trimStart hc, i, b₁, o,
    b₂ ++ rest.takeWhile isBlank, ?_, hi, ho, hb₁, by simp [hne], ?_⟩
  · have hrest : rest = rest.takeWhile isBlank ++ trimStart rest :=
      List.takeWhile_append_dropWhile.symm
    simp only [List.append_assoc]
    rw [← hrest]
  · intro c hc
    rcases List.mem_append.1 hc with hc | hc
    · exact hb₂ c hc
    · exact List.all_eq_true.1 List.all_takeWhile c hc

theorem heads_of_target? {s rest : List Char} (h : target? s = some rest) : Heads s rest := by
  obtain ⟨-, i, b₁, o, b₂, hs, hi, ho, hb₁, hb₂⟩ := target?_eq_some_iff.1 h
  refine ⟨i ++ (b₁ ++ (o ++ b₂)), by simp [hs],
    head_matches_iff.2 ⟨rfl, i, b₁, o, b₂, rfl, hi, ho, hb₁, hb₂⟩, ?_⟩
  intro m' rest' hs' hm'
  have htrim := target?_of_head hm'
  rw [← hs', h, Option.some.injEq] at htrim
  have hle : rest.length ≤ rest'.length := by
    rw [htrim]
    exact (List.dropWhile_suffix isBlank).length_le
  have hlength := congrArg List.length (hs.symm.trans hs')
  simp only [List.length_append] at hlength ⊢
  omega

/-! ### The lists -/

theorem columnGroup_at_iff {s start block : List Char} : columnGroup.At s start block ↔
    ∃ lists behind, s = start ++ '(' :: lists ∧ block ≠ [] ∧ ClosesAt lists block behind := by
  simp only [Group.At, columnGroup, Pattern.Matches]
  constructor
  · intro h
    obtain ⟨_, _, behind, rfl, ⟨_, _, rfl, rfl, rfl⟩, ⟨hne, hl⟩, _, _, rfl, rfl, bs, _, rfl,
      ⟨-, hbs⟩, n, _, rfl, hn, _, _, rfl, hboundary, rfl⟩ := h
    obtain ⟨rfl, hb⟩ := (boundary_matches_behind (by decide) isWordChar_of_mem_values hn).1
      hboundary
    exact ⟨block ++ ')' :: (bs ++ (n ++ behind)), behind, by simp, hne, hl, bs, n, rfl, hbs, hn,
      hb⟩
  · intro h
    obtain ⟨_, behind, rfl, hne, hl, bs, n, rfl, hbs, hn, hb⟩ := h
    refine ⟨['('], ')' :: (bs ++ n), behind, by simp, ⟨['('], [], rfl, rfl, rfl⟩, ⟨hne, hl⟩,
      [')'], bs ++ n, rfl, rfl, bs, n, rfl, ⟨Nat.zero_le _, hbs⟩, n, [], by simp, hn, [], [], rfl,
      ?_, rfl⟩
    exact (boundary_matches_behind (by decide) isWordChar_of_mem_values hn).2 ⟨rfl, hb⟩

theorem valueGroup_at_iff {s start block : List Char} : valueGroup.At s start block ↔
    ∃ word behind, s = start ++ (word ++ behind) ∧ word.map foldCase = "values".toList ∧
      (∀ c, start.getLast? = some c → isWordChar c = false) ∧ IsList behind block := by
  simp only [Group.At, valueGroup, Pattern.Matches]
  constructor
  · intro h
    obtain ⟨_, _, after, rfl, ⟨_, _, rfl, hboundary, n, _, rfl, hn, bs, _, rfl, ⟨-, hbs⟩, _, _,
      rfl, rfl, rfl⟩, ⟨hne, hl⟩, _, _, rfl, rfl, _, _, rfl, ⟨rfl, hafter⟩, rfl⟩ := h
    obtain rfl : after = [] := hafter
    rw [List.append_assoc] at hboundary
    obtain ⟨rfl, hstart⟩ := (boundary_matches_before (by decide) isWordChar_of_mem_values hn).1
      hboundary
    exact ⟨n, bs ++ '(' :: (block ++ [')']), by simp, hn, hstart, hne, hl, bs, rfl, hbs⟩
  · intro h
    obtain ⟨n, _, rfl, hn, hstart, hne, hl, bs, rfl, hbs⟩ := h
    refine ⟨n ++ (bs ++ ['(']), [')'], [], by simp, ⟨[], n ++ (bs ++ ['(']), rfl, ?_, n,
      bs ++ ['('], rfl, hn, bs, ['('], rfl, ⟨Nat.zero_le _, hbs⟩, ['('], [], rfl, rfl, rfl⟩,
      ⟨hne, hl⟩, [')'], [], rfl, rfl, [], [], rfl, ⟨rfl, rfl⟩, rfl⟩
    rw [List.append_assoc]
    exact (boundary_matches_before (by decide) isWordChar_of_mem_values hn).2 ⟨rfl, hstart⟩

/-- Nothing in front of the first parenthesis matches the column group. -/
theorem captures_columnList? {table lists columns : List Char} (hparen : '(' ∉ table)
    (h : columnList? lists = some columns) :
    columnGroup.Captures (table ++ '(' :: lists) columns := by
  obtain ⟨hne, ⟨behind, hc⟩, hlongest⟩ := columnList?_longest h
  refine ⟨table, columnGroup_at_iff.2 ⟨lists, behind, rfl, hne, hc⟩, ?_⟩
  intro start' block' h'
  obtain ⟨lists', behind', hs, -, hc'⟩ := columnGroup_at_iff.1 h'
  have hle : table.length ≤ start'.length := by
    by_contra hlt
    have hshort : start' ++ ['('] <+: table := by
      refine List.prefix_of_prefix_length_le ⟨lists', ?_⟩ ⟨'(' :: lists, hs⟩ ?_
      · rw [List.append_assoc, List.singleton_append]
      · rw [List.length_append, List.length_singleton]
        omega
    exact hparen (hshort.subset (by simp))
  refine ⟨hle, fun hlen => ?_⟩
  obtain ⟨rfl, htail⟩ := List.append_inj hs hlen
  obtain rfl := (List.cons.inj htail).2
  exact hlongest _ _ hc'

theorem captures_valueList? {target values : List Char} (h : valueList? target = some values) :
    valueGroup.Captures target values := by
  obtain ⟨behind, ⟨start, word, hs, hw, hin, hl⟩, hgreatest⟩ := valueList?_spec h
  refine ⟨start, valueGroup_at_iff.2 ⟨word, behind, hs, hw, hin, hl⟩, ?_⟩
  intro start' block' h'
  obtain ⟨word', behind', hs', hw', hin', hl'⟩ := valueGroup_at_iff.1 h'
  have hle := hgreatest block' behind' ⟨start', word', hs', hw', hin', hl'⟩
  have hword : word.length = word'.length := by
    rw [← List.length_map foldCase, hw, ← hw', List.length_map]
  have hlength := congrArg List.length (hs.symm.trans hs')
  simp only [List.length_append] at hlength
  refine ⟨by omega, fun hlen => ?_⟩
  obtain ⟨rfl, htail⟩ := List.append_inj (hs.symm.trans hs') hlen
  obtain ⟨rfl, rfl⟩ := List.append_inj htail hword
  have hblock := (lastList?_eq_some_iff.2 hl).symm.trans (lastList?_eq_some_iff.2 hl')
  exact Nat.le_of_eq (congrArg List.length (Option.some.inj hblock).symm)

/-! ### The whole statement -/

theorem shape_occurs_iff {s : List Char} : shape.Occurs s ↔
    ∃ m table lists, s = m ++ (table ++ '(' :: lists) ∧
      head.Matches [] m (table ++ '(' :: lists) ∧ (table ≠ [] ∧ '\n' ∉ table) ∧
      isShaped lists = true := by
  simp only [Pattern.Occurs, shape, Pattern.matches_append, isShaped_iff]
  constructor
  · intro h
    obtain ⟨before, _, after, rfl, m, _, rfl, hm, table, _, rfl, ht, _, _, rfl, rfl, columns, _,
      rfl, ⟨hne, hl⟩, _, _, rfl, rfl, bs, _, rfl, ⟨-, hbs⟩, n, _, rfl, hn, bs', _, rfl, ⟨-, hbs'⟩,
      _, _, rfl, rfl, values, _, rfl, ⟨hne', hl'⟩, _, _, rfl, rfl, _, _, rfl, ⟨rfl, hafter⟩, rfl⟩ :=
      h
    obtain rfl : after = [] := hafter
    obtain ⟨rfl, -⟩ := head_matches_iff.1 hm
    have hlist : IsList (bs' ++ '(' :: (values ++ [')'])) values := ⟨hne', hl', bs', rfl, hbs'⟩
    refine ⟨m, table, columns ++ ')' :: (bs ++ (n ++ (bs' ++ '(' :: (values ++ [')'])))), by simp,
      by simpa using hm, ht, columns, _, values, hne, ?_, hlist⟩
    exact ⟨hl, bs, n, rfl, hbs, hn, atBoundary_of_isList hlist⟩
  · intro h
    obtain ⟨m, table, _, rfl, hm, ht, columns, _, values, hne, ⟨hl, bs, n, rfl, hbs, hn, -⟩, hne',
      hl', bs', rfl, hbs'⟩ := h
    refine ⟨[], m ++ (table ++ '(' :: (columns ++ ')' :: (bs ++ (n ++ (bs' ++ '(' ::
      (values ++ [')'])))))), [], by simp, m, _, rfl, by simpa using hm, ?_⟩
    exact ⟨table, _, rfl, ht, ['('], _, rfl, rfl, columns, _, rfl, ⟨hne, hl⟩, [')'], _, rfl, rfl,
      bs, _, rfl, ⟨Nat.zero_le _, hbs⟩, n, _, rfl, hn, bs', _, rfl, ⟨Nat.zero_le _, hbs'⟩, ['('],
      _, rfl, rfl, values, _, rfl, ⟨hne', hl'⟩, [')'], [], rfl, rfl, [], [], rfl, ⟨rfl, rfl⟩, rfl⟩

/-- What stands in front of the list of a shaped text may hold a parenthesis too: the list opens
with the first. -/
theorem exists_first_parenthesis {table lists : List Char} (hline : '\n' ∉ table)
    (h : isShaped lists = true) :
    ∃ name lists', table ++ '(' :: lists = name ++ '(' :: lists' ∧ '(' ∉ name ∧ '\n' ∉ name ∧
      isShaped lists' = true := by
  cases hcut : cut? (· == '(') table with
  | none =>
    refine ⟨table, lists, rfl, fun hm => ?_, hline, h⟩
    exact absurd (cut?_eq_none_iff.1 hcut _ hm) (by decide)
  | some parts =>
    obtain ⟨name, more⟩ := parts
    obtain ⟨c, hc, hname, rfl⟩ := cut?_eq_some_iff.1 hcut
    obtain rfl : c = '(' := beq_iff_eq.1 hc
    simp only [List.mem_append, List.mem_cons, not_or] at hline
    obtain ⟨hline, -, hmore⟩ := hline
    obtain ⟨columns, behind, values, hne, ⟨hcolumns, r, hr⟩, hl⟩ := isShaped_iff.1 h
    refine ⟨name, more ++ '(' :: lists, by simp, fun hm => absurd (hname _ hm) (by decide), hline,
      isShaped_iff.2 ⟨more ++ '(' :: columns, behind, values, by simp, ⟨?_, r, ?_⟩, hl⟩⟩
    · simp only [List.mem_append, List.mem_cons, not_or]
      exact ⟨hmore, by decide, hcolumns⟩
    · obtain ⟨word, rfl, hw⟩ := hr
      exact ⟨word, by simp, hw⟩

/-- A statement is taken apart exactly where the whole pattern matches it and a table is named. -/
theorem exists_texts?_iff {s : List Char} :
    (∃ texts, texts? s = some texts) ↔ shape.Occurs s ∧ ¬ Nameless s := by
  constructor
  · intro h
    obtain ⟨⟨table, columns, values⟩, h⟩ := h
    obtain ⟨target, lists, ht, rfl, hparen, hne, hline, hshaped, -⟩ := texts?_eq_some_iff.1 h
    obtain ⟨m, rfl, hm, -⟩ := heads_of_target? ht
    refine ⟨shape_occurs_iff.2 ⟨m, table, lists, rfl, hm, ⟨hne, hline⟩, hshaped⟩, ?_⟩
    intro hnameless
    -- a head that ends at the first parenthesis leaves no table in front of it
    obtain ⟨m', blanks, rest, hs, hm', hb⟩ := hnameless
    have htarget := target?_of_head hm'
    rw [← hs, ht, trimStart_append hb, trimStart_cons_of_not_blank (by decide),
      Option.some.injEq] at htarget
    obtain ⟨c, table, rfl⟩ := List.exists_cons_of_ne_nil hne
    rw [(List.cons.inj htarget).1] at hparen
    exact hparen List.mem_cons_self
  · intro h
    obtain ⟨hshape, hnameless⟩ := h
    obtain ⟨m, table, lists, rfl, hm, ⟨-, hline⟩, hshaped⟩ := shape_occurs_iff.1 hshape
    have hsplit : table.takeWhile isBlank ++ trimStart table = table :=
      List.takeWhile_append_dropWhile
    have hline' : '\n' ∉ trimStart table := fun hm =>
      hline ((List.dropWhile_suffix isBlank).subset hm)
    obtain ⟨name, lists', hname, hparen, hnl, hshaped'⟩ := exists_first_parenthesis hline' hshaped
    have ht : target? (m ++ (table ++ '(' :: lists)) = some (name ++ '(' :: lists') := by
      rw [target?_of_head hm, trimStart_append_cons (by decide), hname]
    have hne : name ≠ [] := by
      rintro rfl
      -- the whole pattern then read blanks as the table that the longest head takes for its own
      have hblanks : table ++ '(' :: lists = table.takeWhile isBlank ++ '(' :: lists' := by
        rw [List.nil_append] at hname
        rw [← hname, ← List.append_assoc, hsplit]
      exact hnameless ⟨m, table.takeWhile isBlank, lists', by rw [hblanks], hblanks ▸ hm,
        fun c hc => List.all_eq_true.1 List.all_takeWhile c hc⟩
    obtain ⟨columns, behind, values, hnc, hc, hl⟩ := isShaped_iff.1 hshaped'
    obtain ⟨columns', hcolumns⟩ := exists_columnList? hnc hc
    obtain ⟨values', hvalues⟩ := exists_valueList? (opensAt_of_closesAt hc hl name)
    exact ⟨_, texts?_eq_some_iff.2 ⟨_, lists', ht, rfl, hparen, hne, hnl, hshaped', hcolumns,
      hvalues⟩⟩

theorem finds_of_texts? {s table columns values : List Char}
    (h : texts? s = some (table, columns, values)) : ∃ rest, Finds s rest columns values := by
  obtain ⟨target, lists, ht, rfl, hparen, -, -, -, hcolumns, hvalues⟩ := texts?_eq_some_iff.1 h
  exact ⟨_, heads_of_target? ht, captures_columnList? hparen hcolumns, captures_valueList? hvalues⟩

theorem pair_eq_error_iff {table columns values : List Char} {cause : Error} :
    pair table columns values = .error cause ↔
      cause = .countMismatch ∧ (Fields.split columns).length ≠ (Fields.split values).length := by
  rw [pair, List.length_map, List.length_map]
  split
  · next h => simp [h]
  · next h => simp [h, eq_comm]

theorem exists_pair_eq_ok_iff {table columns values : List Char} :
    (∃ insertion, pair table columns values = .ok insertion) ↔
      (Fields.split columns).length = (Fields.split values).length := by
  rw [pair, List.length_map, List.length_map]
  split
  · next h => simp [h]
  · next h => simp [h]

/-- Reading a statement fails for its syntax exactly where the whole pattern does not match or no
table is named. Otherwise the searches for the head and for both lists find something, and reading
fails only for the number of fields, exactly where the two lists differ in it. -/
theorem read_fails_iff (statement : String) :
    let s := trim statement.toList
    (read statement = .error .insertSyntax ↔ ¬ shape.Occurs s ∨ Nameless s) ∧
      (read statement = .error .insertSyntax ∨
        ∃ rest columns values, Finds s rest columns values ∧
          (read statement = .error .countMismatch ↔
            (Fields.split columns).length ≠ (Fields.split values).length) ∧
          ((∃ insertion, read statement = .ok insertion) ↔
            (Fields.split columns).length = (Fields.split values).length)) := by
  intro s
  have hiff := exists_texts?_iff (s := s)
  rw [read_eq]
  cases htexts : texts? s with
  | none =>
    have hnone : ¬ ∃ texts, texts? s = some texts := by simp [htexts]
    rw [hiff, not_and_or, not_not] at hnone
    exact ⟨⟨fun _ => hnone, fun _ => rfl⟩, Or.inl rfl⟩
  | some texts =>
    obtain ⟨table, columns, values⟩ := texts
    obtain ⟨hshape, hnameless⟩ := hiff.1 ⟨_, htexts⟩
    obtain ⟨rest, hfinds⟩ := finds_of_texts? htexts
    refine ⟨?_, Or.inr ⟨rest, columns, values, hfinds, ?_, exists_pair_eq_ok_iff⟩⟩
    · simp [pair_eq_error_iff, hshape, hnameless]
    · simp [pair_eq_error_iff]

end Insertion
end TableShell
