import Svp.Exec.Json
import Svp.Lib.KeySort

/-!
# The canonical logical row stream of an index

`visitLogicalRowStream` walks the named tables of an index database and emits,
for each, its descriptor and its rows in the order of `selectRowsQuery`: by the
declared primary key, or by every column of a table that declares none. Rows
SQLite cannot tell apart by the ordering columns come in scan order, which is
insertion order.

The stream, and with it the logical digest, is free of insertion order exactly
when rows that tie in the ordering columns agree in every column
(`visitLogicalRowStream_canonical_iff`). A primary key that admits NULL lets two
rows tie and differ (`nullKey_order_shows`).
-/

namespace Svp.Package

open Svp.Exec Svp.Lib

/-- A double as SQLite stores one; a NaN becomes NULL. -/
structure SqlReal where
  bits : UInt64
  isNumber : bits.toNat % 2 ^ 63 ≤ 0x7FF0000000000000
deriving DecidableEq

/-- A stored value, by storage class. -/
inductive SqlValue
  | null
  | integer (value : Int64)
  | real (value : SqlReal)
  | text (bytes : Bytes)
  | blob (bytes : Bytes)
deriving DecidableEq

/-- The values of one row in ordinal column order. -/
abbrev Row := List SqlValue

/-- One table of a database: its `CREATE` text and its rows in scan order. -/
structure Table where
  sql : String
  rows : List Row

abbrev IndexDatabase := String → Option Table

/-- One result row of `PRAGMA table_info` or `PRAGMA table_xinfo`; only the
latter reports `hidden`. -/
structure PragmaColumn where
  cid : Int
  name : Option String
  type : Option String
  notnull : Int
  defaultValue : Option String
  pk : Int
  hidden : Int

/-- What SQLite reports of the table a schema text makes. -/
structure SqliteSchema where
  tableInfo : String → List PragmaColumn
  tableXinfo : String → List PragmaColumn

structure TableColumn where
  name : String
  primaryKeyOrder : Int
deriving DecidableEq

def lowerHex (bytes : Bytes) : String := String.ofList (bytes.flatMap hexByte)

def kBlake3PatternPrefix : String := "blake3:"

/-- `std::isspace` in the C locale. -/
def isSpace (character : Char) : Bool :=
  character = ' ' || (character.toNat ≥ 0x09 && character.toNat ≤ 0x0D)

/-- The loop of `normalized_sql`: the text so far, and whether a space is due. -/
def normalizeFrom : List Char → List Char → Bool → List Char
  | [], output, _ => output
  | character :: rest, output, pendingSpace =>
    if isSpace character then normalizeFrom rest output (!output.isEmpty)
    else normalizeFrom rest ((if pendingSpace then output ++ [' '] else output) ++ [character]) false

def normalizedSql (value : String) : String :=
  let output := normalizeFrom value.toList [] false
  String.ofList (if output.getLast? = some ' ' then output.dropLast else output)

def sqliteValueToJson : SqlValue → Json
  | .null => .array [.string "null"]
  | .integer value => .array [.string "integer", .integer value.toInt]
  | .real value => .array [.string "real", .float value.bits]
  | .text bytes => .array [.string "text", .string (lowerHex bytes)]
  | .blob bytes => .array [.string "blob", .string (lowerHex bytes)]

section
variable (schema : SqliteSchema) (database : IndexDatabase)

/-- The schema text of a table; an absent table has none. -/
def readTableSql (tableName : String) : String := ((database tableName).map Table.sql).getD ""

def tableRows (tableName : String) : List Row := ((database tableName).map Table.rows).getD []

/-- The columns `PRAGMA table_info` names; an absent table reports none. -/
def readTableColumns (tableName : String) : List TableColumn :=
  (((database tableName).map fun table => schema.tableInfo table.sql).getD []).filterMap fun column =>
    column.name.map fun name => ⟨name, column.pk⟩

/-- One column of the schema fingerprint, fields in key order. -/
def fingerprintColumn (column : PragmaColumn) : Json :=
  .object [("cid", .integer column.cid),
    ("default", (column.defaultValue.map Json.string).getD .null),
    ("hidden", .integer column.hidden),
    ("name", .string (column.name.getD "")),
    ("notnull", .integer column.notnull),
    ("pk", .integer column.pk),
    ("type", .string (column.type.getD ""))]

variable (lib : JsonLibrary) (blake3 : Bytes → Blake3Digest)

def blake3ForBytes (bytes : Bytes) : String := kBlake3PatternPrefix ++ lowerHex (blake3 bytes).bytes

def schemaFingerprintFor (tableName : String) : String :=
  let columns := ((database tableName).map fun table => schema.tableXinfo table.sql).getD []
  blake3ForBytes blake3 (dump lib (.object [("columns", .array (columns.map fingerprintColumn)),
    ("sql", .string (normalizedSql (readTableSql database tableName))),
    ("table", .string tableName)]))

end

/-- The primary-key columns in key order. -/
def primaryKeyColumns (columns : List TableColumn) : List TableColumn :=
  sortByKey TableColumn.primaryKeyOrder (columns.filter fun column => 0 < column.primaryKeyOrder)

def orderColumns (columns : List TableColumn) : List TableColumn :=
  if (primaryKeyColumns columns).isEmpty then columns else primaryKeyColumns columns

/-- The value a row holds in a named column. -/
def valueOf (columns : List TableColumn) (row : Row) (name : String) : SqlValue :=
  (((columns.map TableColumn.name).zip row).lookup name).getD .null

/-- Doubles compare by sign and magnitude; the two zeros share a place. -/
def SqlReal.place (value : SqlReal) : Int :=
  if value.bits.toNat < 2 ^ 63 then value.bits.toNat else 2 ^ 63 - value.bits.toNat

def upperHexDigit (n : Nat) : Char :=
  if n < 10 then Char.ofNat (48 + n) else Char.ofNat (55 + n)

/-- `hex()` of SQLite. -/
def sqlHex (bytes : Bytes) : List Char :=
  bytes.flatMap fun byte => [upperHexDigit (byte.toNat / 16), upperHexDigit (byte.toNat % 16)]

/-- The four results of the ordering expressions of a column, NULL lowest: the
rank of the storage class, the number, the text in byte order, the hex of the
blob. The rank decides before an integer meets a real. -/
abbrev OrderKey := Nat ×ₗ WithBot Int ×ₗ WithBot (List Nat) ×ₗ WithBot (List Char)

def canonicalOrderExpression : SqlValue → OrderKey
  | .null => toLex (0, toLex (⊥, toLex (⊥, ⊥)))
  | .integer value => toLex (1, toLex (value.toInt, toLex (⊥, ⊥)))
  | .real value => toLex (2, toLex (value.place, toLex (⊥, ⊥)))
  | .text bytes => toLex (3, toLex (⊥, toLex (WithBot.some (bytes.map UInt8.toNat), ⊥)))
  | .blob bytes => toLex (4, toLex (⊥, toLex (⊥, WithBot.some (sqlHex bytes))))

/-- What `ORDER BY` sorts a row by. -/
def orderKey (columns : List TableColumn) (row : Row) : List OrderKey :=
  (orderColumns columns).map fun column => canonicalOrderExpression (valueOf columns row column.name)

/-- The result row of the query. -/
def selectedRow (columns : List TableColumn) (row : Row) : List SqlValue :=
  columns.map fun column => valueOf columns row column.name

/-- The result of the query of `select_rows_query`: ties stay in scan order. -/
def selectRowsQuery (columns : List TableColumn) (rows : List Row) : List (List SqlValue) :=
  (sortByKey (orderKey columns) rows).map (selectedRow columns)

structure LogicalTableDescriptor where
  name : String
  schemaFingerprint : String
  columnNames : List String
  primaryKeyColumns : List String

/-- The calls a visitor receives. -/
inductive StreamEvent
  | onTable (table : LogicalTableDescriptor)
  | onRow (table : LogicalTableDescriptor) (values : Json)

def emitTableRows (table : LogicalTableDescriptor) (columns : List TableColumn) (rows : List Row) :
    List StreamEvent :=
  if columns.isEmpty then []
  else (selectRowsQuery columns rows).map fun values =>
    .onRow table (.array (values.map sqliteValueToJson))

section
variable (schema : SqliteSchema) (lib : JsonLibrary) (blake3 : Bytes → Blake3Digest)
  (database : IndexDatabase)

def tableDescriptor (tableName : String) : LogicalTableDescriptor :=
  let columns := readTableColumns schema database tableName
  ⟨tableName, schemaFingerprintFor schema database lib blake3 tableName,
    columns.map TableColumn.name, (primaryKeyColumns columns).map TableColumn.name⟩

def visitTable (tableName : String) : List StreamEvent :=
  let table := tableDescriptor schema lib blake3 database tableName
  .onTable table :: emitTableRows table (readTableColumns schema database tableName)
    (tableRows database tableName)

/-- Every call of a visit, in order; `std::set` walks the names in byte order. -/
def visitLogicalRowStream (tableNames : Finset String) : List StreamEvent :=
  (tableNames.sort (· ≤ ·)).flatMap (visitTable schema lib blake3 database)

/-- The bytes hashed so far and the rows counted. -/
structure HashingVisitor where
  hashed : Bytes := []
  rowCount : Nat := 0

def HashingVisitor.updateStream (visitor : HashingVisitor) (value : Json) : HashingVisitor :=
  { visitor with hashed := visitor.hashed ++ dump lib value ++ [0x0A] }

def HashingVisitor.receive (visitor : HashingVisitor) : StreamEvent → HashingVisitor
  | .onTable table =>
    ((visitor.updateStream lib (.array [.string "table", .string table.name])).updateStream lib
      (.array [.string "schema", .string table.name, .string table.schemaFingerprint])).updateStream lib
      (.array [.string "columns", .string table.name, .array (table.columnNames.map Json.string)])
  | .onRow table values =>
    let visitor := visitor.updateStream lib (.array [.string "row", .string table.name, values])
    { visitor with rowCount := visitor.rowCount + 1 }

structure LogicalRowStreamSummary where
  blake3 : String
  tableCount : Nat
  rowCount : Nat

def computeLogicalRowStreamSummary (tableNames : Finset String) : LogicalRowStreamSummary :=
  let visitor := (visitLogicalRowStream schema lib blake3 database tableNames).foldl
    (HashingVisitor.receive lib) {}
  ⟨blake3ForBytes blake3 visitor.hashed, tableNames.card, visitor.rowCount⟩

end

def SqlReal.IsZero (value : SqlReal) : Prop := value.bits.toNat % 2 ^ 63 = 0

/-- Values the ordering expressions do not tell apart: equal ones, and the two
zeros. -/
def SameScalar (a b : SqlValue) : Prop :=
  a = b ∨ ∃ x y : SqlReal, a = .real x ∧ b = .real y ∧ x.IsZero ∧ y.IsZero

theorem SqlReal.place_eq_iff {x y : SqlReal} :
    x.place = y.place ↔ x = y ∨ (x.IsZero ∧ y.IsZero) := by
  have boundX := x.bits.toNat_lt
  have boundY := y.bits.toNat_lt
  have ext : x = y ↔ x.bits.toNat = y.bits.toNat := by
    cases x
    cases y
    simp [UInt64.toNat_inj]
  rw [ext]
  unfold place IsZero
  split <;> split <;> omega

theorem upperHexDigit_inj : ∀ a < 16, ∀ b < 16, upperHexDigit a = upperHexDigit b → a = b := by
  decide

theorem sqlHex_injective : Function.Injective sqlHex := by
  intro a b same
  induction a generalizing b with
  | nil =>
    cases b with
    | nil => rfl
    | cons byte rest => cases same
  | cons byte rest ih =>
    cases b with
    | nil => cases same
    | cons other others =>
      rw [sqlHex, sqlHex, List.flatMap_cons, List.flatMap_cons] at same
      obtain ⟨high, tail⟩ := List.cons.inj same
      obtain ⟨low, tail⟩ := List.cons.inj tail
      have bound := byte.toNat_lt
      have otherBound := other.toNat_lt
      have high := upperHexDigit_inj _ (by omega) _ (by omega) high
      have low := upperHexDigit_inj _ (Nat.mod_lt _ (by decide)) _ (Nat.mod_lt _ (by decide)) low
      have bytes : byte = other := UInt8.toNat_inj.mp (by omega)
      rw [bytes, ih tail]

theorem lowerHex_injective : Function.Injective lowerHex := by
  intro a b same
  have pairs := congrArg (fun text : String => hexPairs text.toList) same
  simpa [lowerHex, String.toList_ofList, hexPairs_flatMap] using pairs

theorem toNat_map_injective : Function.Injective (List.map UInt8.toNat) :=
  List.map_injective_iff.mpr fun _ _ => UInt8.toNat_inj.mp

theorem canonicalOrderExpression_eq_iff {a b : SqlValue} :
    canonicalOrderExpression a = canonicalOrderExpression b ↔ SameScalar a b := by
  unfold SameScalar
  cases a <;> cases b <;>
    simp [canonicalOrderExpression, Int64.toInt_inj, SqlReal.place_eq_iff,
      toNat_map_injective.eq_iff, sqlHex_injective.eq_iff]

theorem sqliteValueToJson_injective : Function.Injective sqliteValueToJson := by
  intro a b same
  cases a <;> cases b <;>
    simp_all [sqliteValueToJson, Int64.toInt_inj, lowerHex_injective.eq_iff]
  case real.real x y =>
    cases x
    cases y
    simpa using same

theorem orderKey_eq_iff {columns : List TableColumn} {a b : Row} :
    orderKey columns a = orderKey columns b ↔ ∀ column ∈ orderColumns columns,
      SameScalar (valueOf columns a column.name) (valueOf columns b column.name) := by
  rw [orderKey, orderKey, List.map_inj_left]
  exact forall₂_congr fun _ _ => canonicalOrderExpression_eq_iff

/-- The values of a row as the stream carries them. -/
def serializedRow (columns : List TableColumn) (row : Row) : List Json :=
  (selectedRow columns row).map sqliteValueToJson

theorem serializedRow_eq_iff {columns : List TableColumn} {a b : Row} :
    serializedRow columns a = serializedRow columns b ↔
      selectedRow columns a = selectedRow columns b :=
  (List.map_injective_iff.mpr sqliteValueToJson_injective).eq_iff

/-- Databases whose named tables have the same schema text and the same rows,
in any order. -/
def SameContents (tableNames : Finset String) (left right : IndexDatabase) : Prop :=
  ∀ name ∈ tableNames, Option.Rel
    (fun a b : Table => a.sql = b.sql ∧ a.rows.Perm b.rows) (left name) (right name)

section
variable (schema : SqliteSchema) (lib : JsonLibrary) (blake3 : Bytes → Blake3Digest)
  (tableNames : Finset String) (database : IndexDatabase)

/-- Every database of the same contents gives the same stream and the same
summary. -/
def InsertionOrderHidden : Prop :=
  ∀ other : IndexDatabase, SameContents tableNames other database →
    visitLogicalRowStream schema lib blake3 other tableNames =
        visitLogicalRowStream schema lib blake3 database tableNames ∧
      computeLogicalRowStreamSummary schema lib blake3 other tableNames =
        computeLogicalRowStreamSummary schema lib blake3 database tableNames

/-- Rows of a table that tie in the `ORDER BY` serialize alike. -/
def TiesSerializeAlike : Prop :=
  ∀ name ∈ tableNames, ∀ a ∈ tableRows database name, ∀ b ∈ tableRows database name,
    orderKey (readTableColumns schema database name) a =
        orderKey (readTableColumns schema database name) b →
      serializedRow (readTableColumns schema database name) a =
        serializedRow (readTableColumns schema database name) b

/-- Rows of a table that agree in every ordering column agree in every column. -/
def OrderTellsRowsApart : Prop :=
  ∀ name ∈ tableNames, ∀ a ∈ tableRows database name, ∀ b ∈ tableRows database name,
    (∀ column ∈ orderColumns (readTableColumns schema database name),
      SameScalar (valueOf (readTableColumns schema database name) a column.name)
        (valueOf (readTableColumns schema database name) b column.name)) →
      selectedRow (readTableColumns schema database name) a =
        selectedRow (readTableColumns schema database name) b

end

section
variable {schema : SqliteSchema} {lib : JsonLibrary} {blake3 : Bytes → Blake3Digest}
  {tableNames : Finset String} {database other : IndexDatabase}

theorem tiesSerializeAlike_iff :
    TiesSerializeAlike schema tableNames database ↔
      OrderTellsRowsApart schema tableNames database := by
  unfold TiesSerializeAlike OrderTellsRowsApart
  simp only [orderKey_eq_iff, serializedRow_eq_iff]

theorem emitTableRows_eq (table : LogicalTableDescriptor) {columns : List TableColumn}
    (named : columns ≠ []) (rows : List Row) :
    emitTableRows table columns rows =
      ((sortByKey (orderKey columns) rows).map (serializedRow columns)).map fun values =>
        .onRow table (.array values) := by
  rw [emitTableRows, if_neg (by simpa using named), selectRowsQuery, List.map_map, List.map_map]
  rfl

theorem tableRows_of_some {name : String} {table : Table} (found : database name = some table) :
    tableRows database name = table.rows := by
  rw [tableRows, found]
  rfl

/-- The part of a visit that belongs to one table depends on the schema text and
on the rows in their sorted order. -/
theorem visitTable_eq {name : String} {a b : Table} (left : other name = some a)
    (right : database name = some b) (sql : a.sql = b.sql) :
    visitTable schema lib blake3 other name = visitTable schema lib blake3 database name ↔
      emitTableRows (tableDescriptor schema lib blake3 database name)
          (readTableColumns schema database name) a.rows =
        emitTableRows (tableDescriptor schema lib blake3 database name)
          (readTableColumns schema database name) b.rows := by
  have columns : readTableColumns schema other name = readTableColumns schema database name := by
    simp [readTableColumns, left, right, sql]
  have descriptor : tableDescriptor schema lib blake3 other name =
      tableDescriptor schema lib blake3 database name := by
    simp [tableDescriptor, columns, schemaFingerprintFor, readTableSql, left, right, sql]
  simp [visitTable, columns, descriptor, tableRows_of_some left, tableRows_of_some right]

theorem visitTable_congr {name : String} (same : other name = database name) :
    visitTable schema lib blake3 other name = visitTable schema lib blake3 database name := by
  simp [visitTable, tableDescriptor, schemaFingerprintFor, readTableSql, readTableColumns,
    tableRows, same]

/-- Rows told apart by the order come out in one order. -/
theorem visitTable_of_tellsApart (told : OrderTellsRowsApart schema tableNames database)
    (same : SameContents tableNames other database) {name : String} (inNames : name ∈ tableNames) :
    visitTable schema lib blake3 other name = visitTable schema lib blake3 database name := by
  generalize found : database name = right
  generalize foundOther : other name = left
  have related := same name inNames
  rw [found, foundOther] at related
  cases related with
  | none => exact visitTable_congr (foundOther.trans found.symm)
  | some tables =>
    refine (visitTable_eq foundOther found tables.1).mpr ?_
    by_cases named : readTableColumns schema database name = []
    · simp [emitTableRows, named]
    · rw [emitTableRows_eq _ named, emitTableRows_eq _ named]
      refine congrArg _ (sortByKey_order_free (fun a inA b inB tie => ?_) tables.2)
      have rows := tableRows_of_some found
      exact tiesSerializeAlike_iff.mpr told name inNames a (rows ▸ inA) b (rows ▸ inB) tie

theorem insertionOrderHidden_of_tellsApart
    (told : OrderTellsRowsApart schema tableNames database) :
    InsertionOrderHidden schema lib blake3 tableNames database := by
  intro other same
  have visit : visitLogicalRowStream schema lib blake3 other tableNames =
      visitLogicalRowStream schema lib blake3 database tableNames :=
    List.flatMap_congr fun name inSorted =>
      visitTable_of_tellsApart told same ((Finset.mem_sort _).mp inSorted)
  refine ⟨visit, ?_⟩
  rw [computeLogicalRowStreamSummary, computeLogicalRowStreamSummary, visit]

/-- Where two walks over distinct names agree as a whole and at every other
name, they agree at a name of the walk. -/
theorem eq_at_of_flatMap_eq {α β : Type} {names : List α} (nodup : names.Nodup) {f g : α → List β}
    {name : α} (inNames : name ∈ names) (elsewhere : ∀ other, other ≠ name → f other = g other)
    (same : names.flatMap f = names.flatMap g) : f name = g name := by
  obtain ⟨before, after, rfl⟩ := List.append_of_mem inNames
  have apart := List.nodup_append.mp nodup
  have first : before.flatMap f = before.flatMap g := List.flatMap_congr fun other inBefore =>
    elsewhere other (apart.2.2 other inBefore name List.mem_cons_self)
  have last : after.flatMap f = after.flatMap g := List.flatMap_congr fun other inAfter =>
    elsewhere other fun equal => (List.nodup_cons.mp apart.2.1).1 (equal ▸ inAfter)
  rw [List.flatMap_append, List.flatMap_append, List.flatMap_cons, List.flatMap_cons, first,
    last] at same
  exact List.append_cancel_right (List.append_cancel_left same)

/-- The database with the rows of one table in another order. -/
def reordered (database : IndexDatabase) (name : String) (table : Table) (rows : List Row) :
    IndexDatabase :=
  Function.update database name (some { table with rows })

theorem reordered_self (name : String) (table : Table) (rows : List Row) :
    reordered database name table rows name = some { table with rows } :=
  Function.update_self _ _ _

theorem reordered_of_ne {name other : String} (apart : other ≠ name) (table : Table)
    (rows : List Row) : reordered database name table rows other = database other :=
  Function.update_of_ne apart _ _

theorem sameContents_reordered {name : String} {table : Table} (found : database name = some table)
    {rows : List Row} (perm : rows.Perm table.rows) :
    SameContents tableNames (reordered database name table rows) database := by
  intro name' _
  by_cases here : name' = name
  · rw [here, reordered_self, found]
    exact .some ⟨rfl, perm⟩
  · rw [reordered_of_ne here]
    cases database name' with
    | none => exact .none
    | some table => exact .some ⟨rfl, List.Perm.refl _⟩

theorem tellsApart_of_insertionOrderHidden
    (hidden : InsertionOrderHidden schema lib blake3 tableNames database) :
    OrderTellsRowsApart schema tableNames database := by
  refine tiesSerializeAlike_iff.mp fun name inNames => ?_
  by_cases named : readTableColumns schema database name = []
  · simp [named, serializedRow, selectedRow]
  · generalize found : database name = table
    cases table with
    | none => simp [tableRows, found]
    | some table =>
      rw [tableRows_of_some found]
      refine sortByKey_order_free_iff.mp fun others perm => ?_
      have visit := (hidden _ (sameContents_reordered found perm)).1
      have atName : visitTable schema lib blake3 (reordered database name table others) name =
          visitTable schema lib blake3 database name :=
        eq_at_of_flatMap_eq (tableNames.sort_nodup (· ≤ ·)) ((Finset.mem_sort _).mpr inNames)
          (fun other apart => visitTable_congr (reordered_of_ne apart table others)) visit
      rw [visitTable_eq (reordered_self name table others) found rfl, emitTableRows_eq _ named,
        emitTableRows_eq _ named] at atName
      refine List.map_injective_iff.mpr (fun a b equal => ?_) atName
      simpa using equal

/-- The stream and the digest are free of insertion order, and ties serialize
alike, exactly when rows that agree in every ordering column agree in every
column. -/
theorem visitLogicalRowStream_canonical_iff (schema : SqliteSchema) (lib : JsonLibrary)
    (blake3 : Bytes → Blake3Digest) (tableNames : Finset String) (database : IndexDatabase) :
    (InsertionOrderHidden schema lib blake3 tableNames database ↔
        OrderTellsRowsApart schema tableNames database) ∧
      (TiesSerializeAlike schema tableNames database ↔
        OrderTellsRowsApart schema tableNames database) :=
  ⟨⟨tellsApart_of_insertionOrderHidden, insertionOrderHidden_of_tellsApart⟩,
    tiesSerializeAlike_iff⟩

/-- Without a declared key every column orders, and only the sign of a zero is
not seen. -/
theorem selectedRow_eq_of_noKey {columns : List TableColumn} (noKey : primaryKeyColumns columns = [])
    {a b : Row}
    (tie : ∀ column ∈ orderColumns columns,
      SameScalar (valueOf columns a column.name) (valueOf columns b column.name))
    (noZero : ∀ column ∈ columns, ∀ value : SqlReal,
      valueOf columns a column.name = .real value → ¬value.IsZero) :
    selectedRow columns a = selectedRow columns b := by
  rw [orderColumns, noKey] at tie
  refine List.map_congr_left fun column inColumns => ?_
  rcases tie column inColumns with equal | ⟨x, _, left, _, zero, _⟩
  · exact equal
  · exact absurd zero (noZero column inColumns x left)

end

/-- The columns of `CREATE TABLE t(k TEXT PRIMARY KEY, v INTEGER)`. -/
def keyedColumns : List PragmaColumn :=
  [⟨0, some "k", some "TEXT", 0, none, 1, 0⟩, ⟨1, some "v", some "INTEGER", 0, none, 0, 0⟩]

def keyedSchema : SqliteSchema := ⟨fun _ => keyedColumns, fun _ => keyedColumns⟩

def nullKeyTable (first second : Int64) : Table :=
  ⟨"CREATE TABLE t(k TEXT PRIMARY KEY, v INTEGER)",
    [[.null, .integer first], [.null, .integer second]]⟩

/-- A table of two rows without a key value, inserted in the order given. -/
def nullKeyIndex (first second : Int64) : IndexDatabase :=
  fun name => if name = "t" then some (nullKeyTable first second) else none

/-- The two rows tie on their NULL keys, so the order they were inserted in
shows in the stream. -/
theorem nullKey_order_shows :
    SameContents {"t"} (nullKeyIndex 2 1) (nullKeyIndex 1 2) ∧
      (∀ (lib : JsonLibrary) (blake3 : Bytes → Blake3Digest),
        visitLogicalRowStream keyedSchema lib blake3 (nullKeyIndex 2 1) {"t"} ≠
          visitLogicalRowStream keyedSchema lib blake3 (nullKeyIndex 1 2) {"t"}) ∧
      ¬TiesSerializeAlike keyedSchema {"t"} (nullKeyIndex 1 2) := by
  have columns : readTableColumns keyedSchema (nullKeyIndex 1 2) "t" = [⟨"k", 1⟩, ⟨"v", 0⟩] := rfl
  refine ⟨fun name inNames => ?_, fun lib blake3 same => ?_, fun alike => ?_⟩
  · rw [Finset.mem_singleton.mp inNames]
    exact .some ⟨rfl, List.Perm.swap _ _ _⟩
  · simp only [visitLogicalRowStream, Finset.sort_singleton, List.flatMap_singleton] at same
    have rows := (visitTable_eq (a := nullKeyTable 2 1) (b := nullKeyTable 1 2) rfl rfl rfl).mp same
    rw [columns, emitTableRows, emitTableRows] at rows
    have events := List.map_injective_iff.mpr (fun a b equal =>
      List.map_injective_iff.mpr sqliteValueToJson_injective (by simpa using equal)) rows
    revert events
    decide
  · have serialized := alike "t" (Finset.mem_singleton_self _) [.null, .integer 1]
      (List.mem_cons_self) [.null, .integer 2] (List.mem_cons_of_mem _ List.mem_cons_self) rfl
    rw [columns, serializedRow_eq_iff] at serialized
    revert serialized
    decide

end Svp.Package
