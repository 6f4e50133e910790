import Rhiza.Materializer.Result

/-! # Reading stored results back

The reader understands everything the writer accepts. It gives the result back exactly when
the reader's own charges fit its budget.
-/

namespace Rhiza.Materializer

open Foundations
open Commands (maxReturningRows maxSQLStatements)

/-! ## What is written -/

namespace Cell

def bytes : Cell → ByteString
  | .null => [0]
  | .integer n => 1 :: int64 n
  | .real bits => 2 :: BigEndian.bytes 8 bits.toNat
  | .text s => 3 :: (uint32 s.length ++ s)
  | .blob b => 4 :: (uint32 b.length ++ b)
  | .other => []

/-- The cell can be stored. -/
def Storable : Cell → Prop
  | .null | .integer _ | .real _ => True
  | .text s => s.length ≤ maxMutationResultBytes - 4
  | .blob b => b.length ≤ maxMutationResultBytes - 4
  | .other => False

/-- What the reader charges for the value, beside the charge of its place. -/
def readCharge : Cell → ℕ
  | .null => 65
  | .integer _ | .real _ => 80
  | .text s => s.length
  | .blob b => b.length
  | .other => 0

end Cell

def rowBytes (row : List Cell) : ByteString := uint32 row.length ++ row.flatMap Cell.bytes

def rowReadCharge (row : List Cell) : ℕ :=
  row.length * maxSQLCellCharge + (row.map Cell.readCharge).sum

namespace SQLStatementResult

def bytes (statement : SQLStatementResult) : ByteString :=
  int64 statement.rowsAffected ++ int64 statement.lastInsertID ++
    uint32 statement.columns.length ++
    statement.columns.flatMap (fun column => uint32 column.length ++ column) ++
    uint32 statement.rows.length ++ statement.rows.flatMap rowBytes

structure Storable (statement : SQLStatementResult) : Prop where
  columnCount : statement.columns.length ≤ maxSQLResultColumns
  rowCount : statement.rows.length ≤ maxReturningRows
  columns : ∀ column ∈ statement.columns, column.length ≤ maxMutationResultBytes - 4
  rows : ∀ row ∈ statement.rows,
    row.length = statement.columns.length ∧ ∀ cell ∈ row, cell.Storable

def readCharge (statement : SQLStatementResult) : ℕ :=
  (statement.columns.map fun column => column.length + maxSQLColumnCharge).sum +
    statement.rows.length * maxSQLRowCharge + (statement.rows.map rowReadCharge).sum

end SQLStatementResult

namespace SQLCommandResult

def bytes (result : SQLCommandResult) : ByteString :=
  resultMagic ++ uint32 result.statements.length ++
    result.statements.flatMap SQLStatementResult.bytes ++ uint32 result.error.length ++ result.error

structure Storable (result : SQLCommandResult) : Prop where
  statementCount : result.statements.length ≤ maxSQLStatements
  statements : ∀ statement ∈ result.statements, statement.Storable
  length : result.bytes.length ≤ maxMutationResultBytes

/-- All the reader charges for the result. -/
def readCharge (result : SQLCommandResult) : ℕ :=
  result.statements.length * maxSQLStatementCharge +
    (result.statements.map SQLStatementResult.readCharge).sum + result.error.length

end SQLCommandResult

theorem writeBytes_eq_ok {value dst dst' : ByteString} :
    writeBytes value dst = .ok dst' ↔ dst' = dst ++ (uint32 value.length ++ value) ∧
      dst'.length ≤ maxMutationResultBytes := by
  simp only [writeBytes, seq_eq_ok, require_eq_ok, not_or, Nat.not_lt]
  have hlimit : 4 ≤ maxMutationResultBytes := by decide
  constructor
  · rintro ⟨hsize, heq⟩
    cases heq
    refine ⟨rfl, ?_⟩
    simp only [List.length_append, uint32, BigEndian.length_bytes]
    omega
  · rintro ⟨rfl, hlen⟩
    simp only [List.length_append, uint32, BigEndian.length_bytes] at hlen
    exact ⟨by omega, rfl⟩

theorem writes_bytes (value : ByteString) :
    Writes maxMutationResultBytes (writeBytes value) (uint32 value.length ++ value)
      (value.length ≤ maxMutationResultBytes - 4) where
  sound {dst dst'} h := by
    obtain ⟨rfl, hlen⟩ := writeBytes_eq_ok.mp h
    simp only [List.length_append, uint32, BigEndian.length_bytes] at hlen
    exact ⟨rfl, by omega⟩
  complete {dst} _ hlen := writeBytes_eq_ok.mpr ⟨rfl, hlen⟩

theorem writes_cell (cell : Cell) :
    Writes maxMutationResultBytes (writeSQLValue cell) cell.bytes cell.Storable := by
  cases cell with
  | null | integer | real => exact Writes.limited _ _ tooLong
  | text s =>
    exact ((Writes.append _ [3]).seq (writes_bytes s)).congr rfl (by simp [Cell.Storable])
  | blob b =>
    exact ((Writes.append _ [4]).seq (writes_bytes b)).congr rfl (by simp [Cell.Storable])
  | other => exact ⟨fun h => (nomatch h), fun h => h.elim⟩

theorem writes_row (columns : ℕ) (row : List Cell) :
    Writes maxMutationResultBytes (writeRow columns row) (rowBytes row)
      (row.length = columns ∧ ∀ cell ∈ row, cell.Storable) := by
  have hcells := (Writes.append maxMutationResultBytes (uint32 row.length)).seq
    (Writes.fold writes_cell row)
  have hrow := Writes.check (q := row.length = columns) "invalid cell count" hcells
  exact hrow.congr rfl (by rw [true_and])

theorem writes_statement (statement : SQLStatementResult) :
    Writes maxMutationResultBytes (writeStatement statement) statement.bytes
      statement.Storable := by
  have hcolumns := (Writes.append maxMutationResultBytes (int64 statement.rowsAffected ++
    int64 statement.lastInsertID ++ uint32 statement.columns.length)).seq
      (Writes.fold writes_bytes statement.columns)
  have hrows := (Writes.append maxMutationResultBytes (uint32 statement.rows.length)).seq
    (Writes.fold (writes_row statement.columns.length) statement.rows)
  have hpart := Writes.check (q := statement.columns.length ≤ maxSQLResultColumns)
    "invalid column count" (Writes.check (q := statement.rows.length ≤ maxReturningRows)
      "invalid row count" (hcolumns.seq hrows))
  refine hpart.congr ?_ ?_
  · simp only [SQLStatementResult.bytes, List.append_assoc]
  · constructor
    · rintro ⟨hwide, hrowCount, ⟨-, hnames⟩, -, hcells⟩
      exact ⟨hwide, hrowCount, hnames, hcells⟩
    · rintro ⟨hwide, hrowCount, hnames, hcells⟩
      exact ⟨hwide, hrowCount, ⟨trivial, hnames⟩, trivial, hcells⟩

variable {result : SQLCommandResult}

/-- A result with statements is encoded exactly when it can be stored. -/
theorem encodeSQLResult_eq_ok {encoded : ByteString} (hne : result.statements ≠ []) :
    encodeSQLResult result = .ok encoded ↔ encoded = result.bytes ∧ result.Storable := by
  have hwrites := (Writes.fold writes_statement result.statements).seq (writes_bytes result.error)
  have hbytes : result.bytes = resultMagic ++ uint32 result.statements.length ++
      (result.statements.flatMap SQLStatementResult.bytes ++
        (uint32 result.error.length ++ result.error)) := by
    simp only [SQLCommandResult.bytes, List.append_assoc]
  have hrun : encodeSQLResult result = .ok encoded ↔
      result.statements.length ≤ maxSQLStatements ∧
        (result.statements.foldlM (fun dst statement => writeStatement statement dst)
          (resultMagic ++ uint32 result.statements.length) >>= writeBytes result.error) =
            .ok encoded := by
    rw [encodeSQLResult, if_neg hne, seq_eq_ok, require_eq_ok]
  rw [hrun]
  constructor
  · rintro ⟨hcount, henc⟩
    obtain ⟨rfl, hparts, herror⟩ := hwrites.sound henc
    -- The error text is written last, and checked against what the buffer then holds.
    obtain ⟨_, -, hlast⟩ := bind_eq_ok.mp henc
    have hlen := (writeBytes_eq_ok.mp hlast).2
    exact ⟨hbytes.symm, hcount, hparts, hbytes ▸ hlen⟩
  · rintro ⟨rfl, hcount, hparts, hlen⟩
    refine ⟨hcount, ?_⟩
    rw [hbytes]
    refine hwrites.complete ⟨hparts, ?_⟩ (hbytes ▸ hlen)
    rw [hbytes] at hlen
    simp only [List.length_append, uint32, BigEndian.length_bytes] at hlen
    omega

/-! ## What is read -/

theorem reads_uint32 {n : ℕ} (h : n < 2 ^ 32) (message : String) :
    Reads (readUint32 message) (uint32 n) 0 n :=
  Reads.word (by simpa using h) message

theorem reads_uint64 (n : UInt64) : Reads readUint64 (BigEndian.bytes 8 n.toNat) 0 n := by
  have hlt : n.toNat < 256 ^ 8 := n.toNat_lt
  have hword := (Reads.word hlt "EOF").map UInt64.ofNat
  rwa [UInt64.ofNat_toNat] at hword

theorem reads_int64 (n : Int64) : Reads readInt64 (int64 n) 0 n :=
  (reads_uint64 n.toUInt64).map UInt64.toInt64

theorem reads_budgetBytes {value : ByteString} {maximum : ℕ} (hmaximum : value.length ≤ maximum)
    (hlen : value.length < 2 ^ 32) (overhead : ℕ) :
    Reads (readBudgetBytes overhead maximum) (uint32 value.length ++ value)
      (value.length + overhead) value := by
  have htake := Reads.take value rfl overBudget
  have hspend := (Reads.spend (value.length + overhead) overBudget).seq htake
  have hcheck := (Reads.check hmaximum overBudget).seq hspend
  exact ((reads_uint32 hlen overBudget).bind _ hcheck).congr rfl (by omega)

theorem reads_byte (b : UInt8) : Reads readByte [b] 0 b :=
  (Reads.take [b] rfl "EOF").map fun s : ByteString => s.headD 0

theorem reads_cell {cell : Cell} (h : cell.Storable) :
    Reads readSQLValueBudget cell.bytes cell.readCharge cell := by
  have hlimit : ∀ s : ByteString, s.length ≤ maxMutationResultBytes - 4 →
      s.length ≤ maxCellBytes ∧ s.length < 2 ^ 32 := by
    intro s hs
    simp only [maxMutationResultBytes, maxCellBytes] at hs ⊢
    omega
  cases cell with
  | null =>
    have hread := (Reads.spend 65 overBudget).map fun _ => Cell.null
    exact ((reads_byte 0).bind readTagged hread).congr rfl (Nat.zero_add _)
  | integer n =>
    have hread := (Reads.spend 80 overBudget).seq ((reads_int64 n).map Cell.integer)
    exact ((reads_byte 1).bind readTagged hread).congr rfl (Nat.zero_add _)
  | real bits =>
    have hread := (Reads.spend 80 overBudget).seq ((reads_uint64 bits).map Cell.real)
    exact ((reads_byte 2).bind readTagged hread).congr rfl (Nat.zero_add _)
  | text s =>
    have hread := (reads_budgetBytes (hlimit s h).1 (hlimit s h).2 0).map Cell.text
    exact ((reads_byte 3).bind readTagged hread).congr rfl (by simp [Cell.readCharge])
  | blob b =>
    have hread := (reads_budgetBytes (hlimit b h).1 (hlimit b h).2 0).map Cell.blob
    exact ((reads_byte 4).bind readTagged hread).congr rfl (by simp [Cell.readCharge])
  | other => exact h.elim

theorem reads_row {row : List Cell} (hcells : ∀ cell ∈ row, cell.Storable)
    (hlen : row.length < 2 ^ 32) :
    Reads (readRow row.length) (rowBytes row) (rowReadCharge row) row := by
  have hprice : 0 < maxSQLCellCharge := by decide
  have hmany := Reads.many Cell.bytes Cell.readCharge fun cell hcell =>
    reads_cell (hcells cell hcell)
  have hspend := (Reads.spendEach hprice row.length overBudget).seq hmany
  have hcheck := (Reads.check (rfl : row.length = row.length) "invalid cell count").seq hspend
  refine ((reads_uint32 hlen "invalid cell count").bind _ hcheck).congr rfl ?_
  rw [rowReadCharge, Nat.zero_add, Nat.zero_add]

theorem reads_statement {statement : SQLStatementResult} (h : statement.Storable) :
    Reads readStatement statement.bytes statement.readCharge statement := by
  have hwide : statement.columns.length < 2 ^ 32 := Nat.lt_of_le_of_lt h.columnCount (by decide)
  have hrowCount : statement.rows.length < 2 ^ 32 := Nat.lt_of_le_of_lt h.rowCount (by decide)
  have hprice : 0 < maxSQLRowCharge := by decide
  have hrows := Reads.many rowBytes rowReadCharge fun row hrow => by
    have hread := reads_row (h.rows row hrow).2 (by rw [(h.rows row hrow).1]; exact hwide)
    rwa [(h.rows row hrow).1] at hread
  have hcolumns := Reads.many (fun column => uint32 column.length ++ column)
    (fun column => column.length + maxSQLColumnCharge) fun column hcolumn => by
      have hsize := h.columns column hcolumn
      simp only [maxMutationResultBytes] at hsize
      exact reads_budgetBytes (show column.length ≤ maxMutationResultBytes from
        Nat.le_trans hsize (by decide)) (by omega) maxSQLColumnCharge
  have hread : Reads readStatement _ _ statement :=
    (reads_int64 statement.rowsAffected).bind _
      ((reads_int64 statement.lastInsertID).bind _
        ((reads_uint32 hwide "invalid column count").bind _
          ((Reads.check h.columnCount "invalid column count").seq
            (hcolumns.bind _
              ((reads_uint32 hrowCount "invalid row count").bind _
                ((Reads.check h.rowCount "invalid row count").seq
                  ((Reads.spendEach hprice statement.rows.length "invalid row count").seq
                    (hrows.map fun rows => SQLStatementResult.mk statement.columns rows
                      statement.rowsAffected statement.lastInsertID))))))))
  refine hread.congr ?_ ?_
  · simp only [SQLStatementResult.bytes, List.append_assoc]
  · simp only [SQLStatementResult.readCharge]
    omega

theorem reads_result (h : result.Storable) :
    Reads readResult result.bytes result.readCharge result := by
  have hcount : result.statements.length < 2 ^ 32 := Nat.lt_of_le_of_lt h.statementCount (by decide)
  have herror : result.error.length ≤ maxMutationResultBytes := by
    refine Nat.le_trans ?_ h.length
    simp only [SQLCommandResult.bytes, List.length_append]
    omega
  have hparts := Reads.many SQLStatementResult.bytes SQLStatementResult.readCharge
    fun statement hmem => reads_statement (h.statements statement hmem)
  have hread : Reads readResult _ _ result :=
    (Reads.take resultMagic rfl "invalid result encoding").bind _
      ((Reads.check rfl "invalid result encoding").seq
        ((reads_uint32 hcount "invalid statement count").bind _
          ((Reads.check h.statementCount "invalid statement count").seq
            ((Reads.spend (result.statements.length * maxSQLStatementCharge)
                "invalid statement count").seq
              (hparts.bind _
                (((reads_budgetBytes herror (Nat.lt_of_le_of_lt herror (by decide)) 0).relabel
                  "invalid trailing result data").map
                    fun error => SQLCommandResult.mk result.statements error))))))
  refine hread.congr ?_ ?_
  · simp only [SQLCommandResult.bytes, List.append_assoc]
  · simp only [SQLCommandResult.readCharge]
    omega

/-- A stored result is read back exactly when the reader's charges fit its budget. -/
theorem toOption_decodeSQLResult (h : result.Storable) :
    (decodeSQLResult result.bytes).toOption =
      if result.readCharge ≤ maxResultBytes then some result else none := by
  have hfin := (reads_result h).finish maxResultBytes "invalid trailing result data"
  rw [decodeSQLResult, require, if_pos h.length, ok_bind, Reads.toOption_bind, hfin]
  by_cases hcost : result.readCharge ≤ maxResultBytes
  · simp only [if_pos hcost]
    rfl
  · simp only [if_neg hcost, Option.bind_none]

theorem decodeSQLResult_bytes (h : result.Storable) :
    decodeSQLResult result.bytes = .ok result ↔ result.readCharge ≤ maxResultBytes := by
  rw [← toOption_eq_some, toOption_decodeSQLResult h]
  split <;> simp_all

end Rhiza.Materializer
