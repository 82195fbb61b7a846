import Mathlib.Data.Bool.AllAny
import TableShell.Statement.Definition
import TableShell.Proofs.Growth
import TableShell.Proofs.FieldLists
import TableShell.Proofs.Keywords

/-
The layouts of a table definition.

A definition is laid out as its name and, in parentheses, its clauses with commas between them.
Blanks may stand about the name, the parentheses and the commas, and a clause may be blank as a
whole. However it is laid out it is read as the table of its name and its columns, or as the error
they make.
-/
namespace TableShell
namespace Definition

open Text

/-- A column as it is declared: its name and its type with blanks between them. -/
structure Clause where
  column : List Char
  gap : List Char := [' ']
  type : List Char
  column_ne_nil : column ≠ []
  column_trimmed : Trimmed column
  column_free : ∀ c ∈ column, c ≠ ',' ∧ c ≠ ')'
  gap_ne_nil : gap ≠ [] := by decide
  gap_blank : ∀ c ∈ gap, isBlank c = true := by exact List.all_eq_true.1 rfl
  type_ne_nil : type ≠ []
  type_free : ∀ c ∈ type, isBlank c = false ∧ c ≠ ',' ∧ c ≠ ')'

namespace Clause

def text (clause : Clause) : List Char :=
  clause.column ++ clause.gap ++ clause.type

def declared (clause : Clause) : String × String :=
  (String.ofList clause.column, String.ofList clause.type)

end Clause

/-- What stands between two commas: blanks, or a clause with blanks about it. -/
structure Part where
  before : List Char := []
  clause : Option Clause
  after : List Char := []
  before_blank : ∀ c ∈ before, isBlank c = true := by exact List.all_eq_true.1 rfl
  after_blank : ∀ c ∈ after, isBlank c = true := by exact List.all_eq_true.1 rfl

namespace Part

def text (part : Part) : List Char :=
  part.before ++ (part.clause.map Clause.text).getD [] ++ part.after

end Part

/-- A definition as it is written, from its name on. -/
structure Layout where
  before : List Char := []
  name : List Char
  between : List Char := []
  parts : List Part
  after : List Char := []
  name_trimmed : Trimmed name
  name_free : '(' ∉ name
  before_blank : ∀ c ∈ before, isBlank c = true := by exact List.all_eq_true.1 rfl
  between_blank : ∀ c ∈ between, isBlank c = true := by exact List.all_eq_true.1 rfl
  after_blank : ∀ c ∈ after, isBlank c = true := by exact List.all_eq_true.1 rfl

namespace Layout

/-- The text up to the opening parenthesis. -/
def head (layout : Layout) : List Char :=
  layout.before ++ layout.name ++ layout.between

/-- The text inside the parentheses. -/
def list (layout : Layout) : List Char :=
  [','].intercalate (layout.parts.map Part.text)

/-- The text up to the closing parenthesis, with something behind it. -/
def followedBy (layout : Layout) (rest : List Char) : List Char :=
  layout.head ++ '(' :: (layout.list ++ ')' :: rest)

def text (layout : Layout) : List Char :=
  layout.followedBy layout.after

def clauses (layout : Layout) : List Clause :=
  layout.parts.filterMap Part.clause

/-- The columns declared and their types. -/
def columns (layout : Layout) : List (String × String) :=
  layout.clauses.map Clause.declared

/-- The table of the name and the columns. -/
def create (layout : Layout) : Except Error Table :=
  Table.create (String.ofList layout.name) layout.columns

end Layout

/-! ### Reading clauses -/

namespace Clause

variable (clause : Clause)

theorem text_ne_nil : clause.text ≠ [] := by
  simp [text, clause.column_ne_nil]

theorem text_trimmed : Trimmed clause.text := by
  constructor
  · intro c hc
    rw [text, List.append_assoc, List.head?_append] at hc
    obtain ⟨d, column, hd⟩ := List.exists_cons_of_ne_nil clause.column_ne_nil
    rw [hd] at hc
    exact clause.column_trimmed.1 c (hd ▸ hc)
  · intro c hc
    rw [text, List.getLast?_append_of_ne_nil _ clause.type_ne_nil] at hc
    exact (clause.type_free c (List.mem_of_mem_getLast? hc)).1

theorem free_of_mem_text : ∀ c ∈ clause.text, c ≠ ',' ∧ c ≠ ')' := by
  simp only [text, List.forall_mem_append]
  refine ⟨⟨clause.column_free, fun c hc => ?_⟩, fun c hc => (clause.type_free c hc).2⟩
  constructor <;> rintro rfl <;> exact absurd (clause.gap_blank _ hc) (by decide)

/-- A clause is parted at the last of the blanks before its type. -/
theorem readClause_text : readClause clause.text = .ok clause.declared := by
  obtain ⟨gap, c, hgap⟩ : ∃ gap c, clause.gap = gap ++ [c] :=
    ⟨_, _, (List.dropLast_append_getLast clause.gap_ne_nil).symm⟩
  have hblank := clause.gap_blank
  rw [hgap, List.forall_mem_append] at hblank
  have hcut : cutLast? isBlank clause.text = some (clause.column ++ gap, clause.type) := by
    have htext : clause.text = clause.column ++ gap ++ c :: clause.type := by
      simp [text, hgap]
    rw [htext]
    exact cutLast?_append _ (hblank.2 c List.mem_cons_self) fun d hd => (clause.type_free d hd).1
  rw [readClause, hcut]
  simp only [trim_append_blank clause.column_ne_nil clause.column_trimmed hblank.1, declared]

end Clause

theorem readClauses_text (clauses : List Clause) :
    readClauses (clauses.map Clause.text) = .ok (clauses.map Clause.declared) := by
  induction clauses with
  | nil => rfl
  | cons clause clauses ih =>
    simp only [List.map_cons, readClauses, clause.readClause_text, ih]

namespace Part

variable (part : Part)

theorem trim_text : trim part.text = (part.clause.map Clause.text).getD [] := by
  rw [text, trim_between part.before_blank part.after_blank]
  cases part.clause with
  | none => rfl
  | some clause => exact trim_eq_self clause.text_trimmed

theorem free_of_mem_text : ∀ c ∈ part.text, c ≠ ',' ∧ c ≠ ')' := by
  have hblank : ∀ w : List Char, (∀ c ∈ w, isBlank c = true) → ∀ c ∈ w, c ≠ ',' ∧ c ≠ ')' := by
    intro w hw c hc
    constructor <;> rintro rfl <;> exact absurd (hw _ hc) (by decide)
  simp only [text, List.forall_mem_append]
  refine ⟨⟨hblank _ part.before_blank, ?_⟩, hblank _ part.after_blank⟩
  cases part.clause with
  | none => exact List.forall_mem_nil _
  | some clause => exact clause.free_of_mem_text

end Part

namespace Layout

variable (layout : Layout)

/-- Blank parts are passed over, and there is a blank one where there is no part at all. -/
theorem clauses_list : Definition.clauses layout.list = layout.clauses.map Clause.text := by
  have hparts : ∀ parts : List Part,
      ((parts.map Part.text).map trim).filter (fun clause => !clause.isEmpty) =
        (parts.filterMap Part.clause).map Clause.text := by
    intro parts
    induction parts with
    | nil => rfl
    | cons part parts ih =>
      rw [List.map_cons, List.map_cons, part.trim_text, List.filter_cons, ih]
      cases hclause : part.clause with
      | none => rw [List.filterMap_cons_none hclause]; rfl
      | some clause =>
        have hne : clause.text.isEmpty = false := List.isEmpty_eq_false_iff.2 clause.text_ne_nil
        rw [List.filterMap_cons_some hclause, Option.map_some, Option.getD_some, hne]
        rfl
  rw [Definition.clauses, list, clauses]
  cases hp : layout.parts with
  | nil => rfl
  | cons part parts =>
    rw [List.splitOn_intercalate, hparts]
    · exact List.forall_mem_map.2 fun p _ hm => (p.free_of_mem_text ',' hm).1 rfl
    · exact List.cons_ne_nil _ _

theorem readClauses_list :
    readClauses (Definition.clauses layout.list) = .ok layout.columns := by
  rw [layout.clauses_list, readClauses_text, columns]

theorem not_mem_list : ')' ∉ layout.list :=
  not_mem_intercalate (by decide)
    (List.forall_mem_map.2 fun p _ hm => (p.free_of_mem_text ')' hm).2 rfl)

theorem not_mem_head : '(' ∉ layout.head := by
  simp only [head, List.mem_append, not_or]
  exact ⟨⟨not_mem_of_blank (by decide) layout.before_blank, layout.name_free⟩,
    not_mem_of_blank (by decide) layout.between_blank⟩

theorem trim_head : trim layout.head = layout.name := by
  rw [head, trim_between layout.before_blank layout.between_blank, trim_eq_self layout.name_trimmed]

end Layout

/-! ### Reading a definition -/

/-- The text of a definition without the phrase in front. -/
def behindPhrase (s : List Char) : List Char :=
  (strip? Char.toLower "create table ".toList (trimStart s)).getD s

theorem group?_eq_some_iff {s list rest : List Char} :
    group? s = some (list, rest) ↔
      ∃ head, '(' ∉ head ∧ ')' ∉ list ∧ s = head ++ '(' :: (list ++ ')' :: rest) := by
  have hmem : ∀ (c : Char) (t : List Char), (∀ d ∈ t, (d == c) = false) ↔ c ∉ t := by
    intro c t
    simp only [beq_eq_false_iff_ne]
    exact ⟨fun h hc => h c hc rfl, fun h d hd hdc => h (hdc ▸ hd)⟩
  rw [group?, Option.bind_eq_some_iff]
  constructor
  · rintro ⟨⟨head, behind⟩, hopen, hclose⟩
    obtain ⟨c, hc, hhead, rfl⟩ := cut?_eq_some_iff.1 hopen
    obtain ⟨d, hd, hlist, rfl⟩ := cut?_eq_some_iff.1 hclose
    obtain rfl := beq_iff_eq.1 hc
    obtain rfl := beq_iff_eq.1 hd
    exact ⟨head, (hmem _ head).1 hhead, (hmem _ list).1 hlist, rfl⟩
  · rintro ⟨head, hhead, hlist, rfl⟩
    exact ⟨(head, list ++ ')' :: rest), cut?_append ((hmem _ head).2 hhead) rfl _,
      cut?_append ((hmem _ list).2 hlist) rfl rest⟩

theorem group?_eq_none {s : List Char} (h : '(' ∉ s) : group? s = none := by
  rw [Option.eq_none_iff_forall_ne_some]
  rintro ⟨list, rest⟩ hg
  obtain ⟨head, -, -, rfl⟩ := group?_eq_some_iff.1 hg
  exact h (List.mem_append_right head List.mem_cons_self)

theorem takeWhile_head {head : List Char} (h : '(' ∉ head) (s : List Char) :
    (head ++ '(' :: s).takeWhile (· != '(') = head := by
  have hne : ∀ c ∈ head, (c != '(') = true := fun c hc => bne_iff_ne.2 fun e => h (e ▸ hc)
  rw [List.takeWhile_append_of_pos hne, List.takeWhile_cons_of_neg (by simp), List.append_nil]

namespace Layout

variable (layout : Layout)

theorem group?_followedBy (rest : List Char) :
    group? (layout.followedBy rest) = some (layout.list, rest) :=
  group?_eq_some_iff.2 ⟨layout.head, layout.not_mem_head, layout.not_mem_list, rfl⟩

/-- A definition is read as the table it makes, whatever stands behind it that is no group. -/
theorem readTable_followedBy {text : String} {rest : List Char}
    (hs : behindPhrase text.toList = layout.followedBy rest) (hrest : group? rest = none) :
    readTable text = layout.create := by
  have hgroup := layout.group?_followedBy rest
  have hhead := takeWhile_head layout.not_mem_head (layout.list ++ ')' :: rest)
  rw [behindPhrase] at hs
  simp only [readTable, read, hs, hgroup, hrest, Option.isSome_none, Bool.false_eq_true, if_false,
    layout.readClauses_list]
  rw [followedBy, hhead, layout.trim_head]
  rfl

/-- A definition laid out with nothing but blanks behind it. -/
theorem readTable_text
    (h : strip? Char.toLower "create table ".toList (trimStart layout.text) = none) :
    readTable (String.ofList layout.text) = layout.create := by
  have hs : behindPhrase (String.ofList layout.text).toList = layout.followedBy layout.after := by
    rw [String.toList_ofList, behindPhrase, h, Option.getD_none, text]
  exact layout.readTable_followedBy hs
    (group?_eq_none (not_mem_of_blank (by decide) layout.after_blank))

end Layout

/-! ### The phrase and a name -/

theorem toLower_of_isBlank {c : Char} (h : isBlank c = true) : c.toLower = c := by
  have hall : ∀ n ∈ blankCodes, (Char.ofNat n).toLower = Char.ofNat n := by decide
  have hc := hall _ (toNat_mem_blankCodes h)
  rwa [Char.ofNat_toNat] at hc

/-- No name starts with the phrase, whatever blanks stand behind the name: the phrase has a blank
inside and ends in another word. -/
theorem strip?_head {n w : List Char} (hn : ∀ c ∈ n, Name.isNameChar c = true)
    (hw : ∀ c ∈ w, isBlank c = true) (s : List Char) :
    strip? Char.toLower "create table ".toList (n ++ w ++ '(' :: s) = none := by
  have hopen : ∀ {t : List Char}, '(' ∉ t.map Char.toLower → '(' ∉ t := fun h hm =>
    h (List.mem_map_of_mem (f := Char.toLower) hm)
  rw [Option.eq_none_iff_forall_ne_some]
  intro r hr
  obtain ⟨h, hh, hs⟩ := strip?_eq_some_iff.1 hr
  have hhead : '(' ∉ n ++ w := by
    rw [List.mem_append, not_or]
    exact ⟨fun hm => absurd (hn _ hm) (by decide), not_mem_of_blank (by decide) hw⟩
  -- the phrase has no parenthesis, so it ends before the one behind the name
  obtain ⟨k, hk⟩ : ∃ k, n ++ w = h ++ k := by
    refine ⟨r.takeWhile (· != '('), ?_⟩
    have hne : ∀ c ∈ h, (c != '(') = true := fun c hc => bne_iff_ne.2 fun e =>
      absurd (e ▸ hc) (hopen (by rw [hh]; decide))
    rw [← takeWhile_head hhead s, hs, List.takeWhile_append_of_pos hne]
  obtain ⟨first, second, rfl, hfirst, hsecond⟩ :=
    List.map_eq_append_iff.1 (hh.trans (show _ = "create ".toList ++ "table ".toList from rfl))
  rw [List.append_assoc, List.append_eq_append_iff] at hk
  rcases hk with ⟨a, -, hwa⟩ | ⟨b, hb, -⟩
  · -- the second word would be all blanks
    have hblank : ∀ c ∈ second, c.toLower ≠ 't' := by
      intro c hc hlower
      have hcb : isBlank c = true := hw c (hwa ▸ by simp [hc])
      rw [toLower_of_isBlank hcb] at hlower
      rw [hlower] at hcb
      exact absurd hcb (by decide)
    have hm : 't' ∈ second.map Char.toLower := by rw [hsecond]; decide
    obtain ⟨c, hc, hlower⟩ := List.mem_map.1 hm
    exact hblank c hc hlower
  · -- the name would have the blank inside the phrase
    have hm : ' ' ∈ first.map Char.toLower := by rw [hfirst]; decide
    obtain ⟨c, hc, hlower⟩ := List.mem_map.1 hm
    exact Name.toLower_ne_space (hn c (hb ▸ List.mem_append_left b hc)) hlower

theorem Layout.behindPhrase_followedBy (layout : Layout)
    (h : Name.isValid (String.ofList layout.name) = true) (rest : List Char) :
    behindPhrase (layout.followedBy rest) = layout.followedBy rest := by
  obtain ⟨hne, hn⟩ := Name.isValid_iff.1 h
  rw [String.toList_ofList] at hne hn
  have hstart : trimStart (layout.followedBy rest) =
      layout.name ++ layout.between ++ '(' :: (layout.list ++ ')' :: rest) := by
    obtain ⟨c, name, hc⟩ := List.exists_cons_of_ne_nil hne
    have hb : isBlank c = false := Name.isBlank_of_isNameChar (hn c (hc ▸ List.mem_cons_self))
    rw [followedBy, head, List.append_assoc, List.append_assoc,
      trimStart_append layout.before_blank, hc, List.cons_append, trimStart_cons_of_not_blank hb]
    simp
  rw [behindPhrase, hstart, strip?_head hn layout.between_blank, Option.getD_none]

end Definition

/-! ### Printing a definition -/

/-- No column of a schema is declared over in its declaration. -/
theorem Schema.settled_declaration {schema : Schema} (h : (schema.map Attribute.name).Nodup) :
    OrderedMap.settled (declaration schema) = declaration schema := by
  apply OrderedMap.settled_of_nodup
  rw [declaration, List.map_map]
  exact h

namespace Table

/-- The definition of a table as a text. -/
def definition (table : Table) : String :=
  table.name ++ " (" ++
    ", ".intercalate (table.schema.map fun a => a.name ++ " " ++ a.type.text) ++ ")"

theorem create_declaration_of_wellFormed {table : Table} (h : table.WellFormed) :
    create table.name table.schema.declaration = .ok
      ⟨table.name, table.schema, table.schema.map fun a => .empty a.name a.type, 0⟩ := by
  have hsettled := Schema.settled_declaration h.names_nodup
  refine create_of_judged (.created h.name_valid ?_ ?_ ?_)
  · exact mt List.map_eq_nil_iff.1 h.schema_ne_nil
  · rw [hsettled]
    exact List.forall_mem_map.2 h.names_valid
  · rw [hsettled, Schema.declaration, List.forall₂_map_left_iff, List.forall₂_same]
    exact fun a _ => ⟨rfl, DataType.read_eq_ok_iff.1 (DataType.read_text a.type)⟩

theorem create_declaration {name : String} {columns : List (String × String)} {table : Table}
    (h : create name columns = .ok table) :
    create table.name (Schema.declaration table.schema) = .ok table := by
  rw [create_declaration_of_wellFormed (create_wellFormed h)]
  obtain ⟨-, -, schema, rfl⟩ := create_eq_ok h
  rfl

theorem definition_insertAll (table : Table) (givens : List (OrderedMap Value)) :
    (table.insertAll givens).definition = table.definition := by
  rw [definition, name_insertAll, schema_insertAll, definition]

end Table

namespace Definition

open Text

/-- A comma and a blank between texts is a comma between them and a blank before each but the
first. -/
theorem intercalate_comma_blank (t : List Char) (ts : List (List Char)) :
    [',', ' '].intercalate (t :: ts) = [','].intercalate (t :: ts.map (' ' :: ·)) := by
  have hcons : ∀ (u : List Char) (us : List (List Char)),
      [','].intercalate ((' ' :: u) :: us) = ' ' :: [','].intercalate (u :: us) := by
    intro u us
    cases us with
    | nil => rfl
    | cons u' us => rfl
  induction ts generalizing t with
  | nil => rfl
  | cons t' ts ih =>
    rw [List.intercalate_cons_cons, ih, List.map_cons, List.intercalate_cons_cons, hcons]
    simp

/-- The clause that declares an attribute. -/
def Clause.ofAttribute (a : Attribute) (h : Name.isValid a.name = true) : Clause where
  column := a.name.toList
  type := a.type.text.toList
  column_ne_nil := (Name.isValid_iff.1 h).1
  column_trimmed := Name.trimmed_of_isNameChar (Name.isValid_iff.1 h).2
  column_free c hc :=
    have hn := (Name.isValid_iff.1 h).2 c hc
    ⟨Name.ne_of_isNameChar hn (by decide), Name.ne_of_isNameChar hn (by decide)⟩
  type_ne_nil := by cases a.type <;> decide
  type_free := List.all_iff_forall_prop.1 (by cases a.type <;> decide)

section Printed

variable {w : List Char} (hw : ∀ c ∈ w, isBlank c = true)

/-- The clause of an attribute with blanks before it. -/
def Part.ofAttribute (a : Attribute) (h : Name.isValid a.name = true) : Part where
  before := w
  clause := some (Clause.ofAttribute a h)
  before_blank := hw

theorem Part.text_ofAttribute {a : Attribute} (h : Name.isValid a.name = true) :
    (ofAttribute hw a h).text = w ++ (a.name ++ " " ++ a.type.text).toList := by
  simp [text, ofAttribute, Clause.text, Clause.ofAttribute]

theorem declared_ofAttribute_cons {a : Attribute} (h : Name.isValid a.name = true)
    (parts : List Part) :
    ((Part.ofAttribute hw a h :: parts).filterMap Part.clause).map Clause.declared =
      (a.name, a.type.text) :: (parts.filterMap Part.clause).map Clause.declared := by
  rw [List.filterMap_cons_some (f := Part.clause) rfl, List.map_cons]
  simp [Clause.declared, Clause.ofAttribute]

include hw in
/-- The clauses of a schema, each with the same blanks before it. -/
theorem exists_parts {schema : Schema} (h : ∀ a ∈ schema, Name.isValid a.name = true) :
    ∃ parts : List Part,
      parts.map Part.text = schema.map (fun a => w ++ (a.name ++ " " ++ a.type.text).toList) ∧
        (parts.filterMap Part.clause).map Clause.declared = schema.declaration := by
  induction schema with
  | nil => exact ⟨[], rfl, rfl⟩
  | cons a schema ih =>
    rw [List.forall_mem_cons] at h
    obtain ⟨parts, htext, hdeclared⟩ := ih h.2
    refine ⟨Part.ofAttribute hw a h.1 :: parts, ?_, ?_⟩
    · rw [List.map_cons, List.map_cons, htext, Part.text_ofAttribute]
    · rw [declared_ofAttribute_cons, hdeclared]
      rfl

end Printed

/-- The printed definition of a table is a layout of it. -/
theorem exists_layout {table : Table} (h : table.WellFormed) :
    ∃ layout : Layout, table.definition.toList = layout.text ∧
      String.ofList layout.name = table.name ∧ layout.columns = table.schema.declaration := by
  obtain ⟨hne, hn⟩ := Name.isValid_iff.1 h.name_valid
  have hvalid := h.names_valid
  obtain ⟨a, schema, hs⟩ := List.exists_cons_of_ne_nil h.schema_ne_nil
  rw [hs, List.forall_mem_cons] at hvalid
  obtain ⟨parts, htext, hdeclared⟩ := exists_parts (w := [' ']) (List.all_eq_true.1 rfl) hvalid.2
  let layout : Layout := {
    name := table.name.toList
    between := [' ']
    parts := Part.ofAttribute (List.forall_mem_nil _) a hvalid.1 :: parts
    name_trimmed := Name.trimmed_of_isNameChar hn
    name_free := fun hm => absurd (hn _ hm) (by decide) }
  refine ⟨layout, ?_, String.ofList_toList, ?_⟩
  · have hlist : layout.list = [',', ' '].intercalate
        (table.schema.map fun a => (a.name ++ " " ++ a.type.text).toList) := by
      rw [Layout.list, List.map_cons, Part.text_ofAttribute, htext, hs, List.map_cons,
        intercalate_comma_blank, List.map_map, List.nil_append]
      rfl
    rw [Layout.text, Layout.followedBy, hlist]
    simp [Table.definition, Layout.head, layout, Function.comp_def]
  · rw [Layout.columns, Layout.clauses, declared_ofAttribute_cons, hdeclared, hs]
    rfl

/-- A definition in any layout is read as the table of its name and its columns, or as the error
they make, unless the phrase could be read in front of it. The printed definition of a table is read
as the table without its rows. -/
theorem readTable_layout :
    (∀ layout : Layout,
      strip? Char.toLower "create table ".toList (trimStart layout.text) = none →
        readTable (String.ofList layout.text) =
          Table.create (String.ofList layout.name) layout.columns) ∧
      ∀ (name : String) (columns : List (String × String)) (table : Table)
        (givens : List (OrderedMap Value)), Table.create name columns = .ok table →
          readTable (table.insertAll givens).definition = .ok table := by
  refine ⟨fun layout => layout.readTable_text, fun name columns table givens h => ?_⟩
  have hw := Table.create_wellFormed h
  obtain ⟨layout, htext, hname, hcolumns⟩ := exists_layout hw
  have hphrase := layout.behindPhrase_followedBy (hname ▸ hw.name_valid) layout.after
  rw [Table.definition_insertAll, layout.readTable_followedBy (htext ▸ hphrase)
    (group?_eq_none (not_mem_of_blank (by decide) layout.after_blank)), Layout.create, hname,
    hcolumns, Table.create_declaration h]

/-- A name like the first word of the phrase, blank clauses, a column with a blank and a type with a
parenthesis in it; and the definition of a table with a row. -/
theorem readTable_layout_spread :
    readTable " create\n( id \t INT ,, full name\u2003varchar(9 ,\n)\n" =
        .error (.invalidColumnName "full name") ∧
      readTable "t (id int, name varchar)" =
        Table.create "t" [("id", "INT"), ("name", "int"), ("name", "Varchar")] := by
  constructor
  · let id : Clause := {
      column := ['i', 'd']
      gap := [' ', '\t', ' ']
      type := ['I', 'N', 'T']
      column_ne_nil := by decide
      column_trimmed := trimmed_iff.2 (by decide)
      column_free := List.all_iff_forall_prop.1 (by decide)
      type_ne_nil := by decide
      type_free := List.all_iff_forall_prop.1 (by decide) }
    let name : Clause := {
      column := "full name".toList
      gap := ['\u2003']
      type := "varchar(9".toList
      column_ne_nil := by decide
      column_trimmed := trimmed_iff.2 (by decide)
      column_free := List.all_iff_forall_prop.1 (by decide)
      type_ne_nil := by decide
      type_free := List.all_iff_forall_prop.1 (by decide) }
    let layout : Layout := {
      before := [' ']
      name := "create".toList
      between := ['\n']
      parts := [{ before := [' '], clause := some id, after := [' '] }, { clause := none },
        { before := [' '], clause := some name, after := [' '] },
        { clause := none, after := ['\n'] }]
      after := ['\n']
      name_trimmed := trimmed_iff.2 (by decide)
      name_free := by decide }
    exact (readTable_layout.1 layout (by decide +kernel)).trans (by decide +kernel)
  · let table : Table := ⟨"t", [⟨"id", .int⟩, ⟨"name", .varchar⟩],
      [.empty "id" .int, .empty "name" .varchar], 0⟩
    exact readTable_layout.2 "t" [("id", "INT"), ("name", "int"), ("name", "Varchar")] table
      [.ofList [("id", .int 7)]] (by decide +kernel)

end Definition
end TableShell
