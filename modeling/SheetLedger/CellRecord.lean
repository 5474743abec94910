import SheetLedger.Cell
import SheetLedger.Datum

/-!
# Cells as records

The form in which cells are exchanged: a record with seven fields, or the list of their values in
the same order. All of them are needed; a record may have further fields, a list may not.
-/

namespace SheetLedger.Cell

/-- A cell from the values of its seven fields. -/
def ofValues? (id sheet column row raw computed version : Datum) : Option Cell := do
  return {
    id := ← id.word?
    sheet := ← sheet.text?
    slot := ⟨← column.word?, ← row.word?⟩
    raw := ← raw.text?
    computed := ← computed.text?
    version := ← version.word? }

/-- The cell that a record or a list describes. -/
def ofDatum? : Datum → Option Cell
  | .record fields => do
    ofValues?
      (← fields.lookup "id") (← fields.lookup "spreadsheetId")
      (← fields.lookup "columnIndex") (← fields.lookup "rowIndex")
      (← fields.lookup "rawValue") (← fields.lookup "computedValue")
      (← fields.lookup "version")
  | .list [id, sheet, column, row, raw, computed, version] =>
    ofValues? id sheet column row raw computed version
  | _ => none

/-- The record that describes a cell. -/
def toDatum (cell : Cell) : Datum :=
  .record [
    ("id", .integer cell.id),
    ("spreadsheetId", .text cell.sheet),
    ("columnIndex", .integer cell.slot.column),
    ("rowIndex", .integer cell.slot.row),
    ("rawValue", .text cell.raw),
    ("computedValue", .text cell.computed),
    ("version", .integer cell.version)]

end SheetLedger.Cell
