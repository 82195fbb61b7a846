import TableShell.Proofs.Isolation
import TableShell.Proofs.Reconstruction

/-
Rows given as lists of pairs.

Where a row is given as a list of columns with their values, all that counts is, for each column of
the table, the last value given for it. So the pairs may come in any order in which those of one
column keep theirs, and pairs for columns that the table lacks may come and go.
-/
namespace TableShell

namespace OrderedMap

variable {α : Type}

/-- The values under a name, in order. -/
def valuesOf (key : String) (es : List (String × α)) : List α :=
  (es.filter fun e => e.1 == key).map Prod.snd

theorem valuesOf_concat (key : String) (es : List (String × α)) (e : String × α) :
    valuesOf key (es ++ [e]) = valuesOf key es ++ if key = e.1 then [e.2] else [] := by
  by_cases h : key = e.1
  · simp [valuesOf, h]
  · simp [valuesOf, h, Ne.symm h]

/-- Under a name the map of a list of entries has the last value. -/
theorem get?_ofList_eq_getLast? (es : List (String × α)) (key : String) :
    (ofList es).get? key = (valuesOf key es).getLast? := by
  induction es using List.reverseRecOn with
  | nil => rfl
  | append_singleton es e ih =>
    rw [ofList_concat, get?_insert, ih, valuesOf_concat]
    split
    · rw [List.getLast?_concat]
    · rw [List.append_nil]

end OrderedMap

/-- The cell that a list of pairs comes to: the last value for the column, converted to its type,
and null where there is none. -/
def Attribute.cellOf (a : Attribute) (pairs : List (String × Value)) : Value :=
  match (OrderedMap.valuesOf a.name pairs).getLast? with
  | none => .null
  | some value => value.coerce a.type

namespace Schema

variable {schema : Schema} {pairs pairs' : List (String × Value)}

theorem record_ofList (schema : Schema) (pairs : List (String × Value)) :
    schema.record (.ofList pairs) = schema.map fun a => (a.name, a.cellOf pairs) := by
  refine List.map_congr_left fun a _ => ?_
  rw [OrderedMap.get?_ofList_eq_getLast?, Attribute.cellOf]
  cases (OrderedMap.valuesOf a.name pairs).getLast? <;> rfl

/-- The pairs for columns of the schema. -/
def known (schema : Schema) (pairs : List (String × Value)) : List (String × Value) :=
  pairs.filter fun pair => pair.1 ∈ schema.map Attribute.name

/-- The pairs for columns of the schema are the same in another order, in which the values of one
column come as they did. Pairs for other columns may be any. -/
structure Rearranged (schema : Schema) (pairs pairs' : List (String × Value)) : Prop where
  perm : (schema.known pairs).Perm (schema.known pairs')
  order : ∀ a ∈ schema, OrderedMap.valuesOf a.name pairs = OrderedMap.valuesOf a.name pairs'

theorem Rearranged.cellOf_eq (h : schema.Rearranged pairs pairs') {a : Attribute}
    (ha : a ∈ schema) : a.cellOf pairs = a.cellOf pairs' := by
  rw [Attribute.cellOf, Attribute.cellOf, h.order a ha]

end Schema

namespace Table

variable {table : Table}

/-- Tables that are built, or stored in a session that commands reach. -/
inductive Reached (table : Table) : Prop
  | built (h : table.Built)
  | stored {session : Session} (h : session.Reachable) {database name : String}
      (ht : session.catalog.table? database name = some table)

theorem Reached.wellFormed (h : table.Reached) : table.WellFormed := by
  cases h with
  | built h => exact h.wellFormed
  | stored h ht =>
    obtain ⟨database, hd, ht⟩ := Option.bind_eq_some_iff.1 ht
    have hdatabase := Catalog.wellFormed_of_database? h.wellFormed.catalog_wellFormed hd
    exact Database.wellFormed_of_table? hdatabase ht

/-- Two rows lead to one table if they have one record. -/
theorem insert_eq_insert_iff (h : table.WellFormed) {given given' : OrderedMap Value} :
    table.insert given = table.insert given' ↔
      table.schema.record given = table.schema.record given' := by
  constructor
  · intro he
    have hrecords := congrArg records he
    rw [records_insert h, records_insert h] at hrecords
    exact List.singleton_inj.1 (List.append_cancel_left hrecords)
  · intro he
    refine ext_records (insert_wellFormed h given) (insert_wellFormed h given') rfl rfl ?_
    rw [records_insert h, records_insert h, he]

/-- A row given as a list of pairs is added with the last value for each column, null where there is
none. Lists lead to one table exactly if they come to the same cells, and so do rearranged ones. -/
theorem insert_rearranged (h : table.Reached) (pairs : List (String × Value)) :
    let grown := table.insert (.ofList pairs)
    (grown.name = table.name ∧ grown.schema = table.schema) ∧
      (grown.select none).map OrderedMap.entries =
        (table.select none).map OrderedMap.entries ++
          [table.schema.map fun a => (a.name, a.cellOf pairs)] ∧
      ∀ pairs', (grown = table.insert (.ofList pairs') ↔
          ∀ a ∈ table.schema, a.cellOf pairs = a.cellOf pairs') ∧
        (table.schema.Rearranged pairs pairs' → grown = table.insert (.ofList pairs')) := by
  intro grown
  have hw := h.wellFormed
  have hcells : ∀ pairs', grown = table.insert (.ofList pairs') ↔
      ∀ a ∈ table.schema, a.cellOf pairs = a.cellOf pairs' := by
    intro pairs'
    rw [insert_eq_insert_iff hw, Schema.record_ofList, Schema.record_ofList, List.map_inj_left]
    simp only [Prod.mk.injEq, true_and]
  refine ⟨⟨rfl, rfl⟩, ?_, fun pairs' => ⟨hcells pairs', fun hr => ?_⟩⟩
  · rw [entries_select_none (insert_wellFormed hw _), entries_select_none hw, records_insert hw,
      Schema.record_ofList]
  · exact (hcells pairs').2 fun a ha => hr.cellOf_eq ha

/-- A column given twice, and columns that the table lacks in between. -/
theorem insert_rearranged_repeated :
    let session := (Session.start .empty).run [.createDatabase "d", .useDatabase "d",
      .createTable "t (n int, s varchar, m int)", .insert "insert into t (s) values (1)"]
    let table : Table := ⟨"t", [⟨"n", .int⟩, ⟨"s", .varchar⟩, ⟨"m", .int⟩],
      [⟨"n", .int, .ints #[0], #[true]⟩, ⟨"s", .varchar, .texts #["1"], #[false]⟩,
        ⟨"m", .int, .ints #[0], #[true]⟩], 1⟩
    let pairs := [("n", .text "1"), ("x", .null), ("s", .int 7), ("n", .text " 2.7")]
    let pairs' := [("y", .int 3), ("s", .int 7), ("n", .text "1"), ("N", .null),
      ("n", .text " 2.7"), ("y", .int 4)]
    session.catalog.table? "d" "t" = some table ∧
      table.insert (.ofList pairs) = table.insert (.ofList pairs') ∧
      ((table.insert (.ofList pairs)).select none).map OrderedMap.entries =
        [[("n", .null), ("s", .text "1"), ("m", .null)],
          [("n", .int 2), ("s", .text "7"), ("m", .null)]] := by
  intro session table pairs pairs'
  have ht : session.catalog.table? "d" "t" = some table := by decide +kernel
  obtain ⟨-, hrow, hlists⟩ := insert_rearranged (.stored ⟨.empty, .empty, _, rfl⟩ ht) pairs
  have hrearranged : table.schema.Rearranged pairs pairs' :=
    ⟨by decide +kernel, by decide +kernel⟩
  exact ⟨ht, (hlists pairs').2 hrearranged, hrow.trans (by decide +kernel)⟩

end Table

end TableShell
