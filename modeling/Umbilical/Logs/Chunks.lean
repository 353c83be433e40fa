import Umbilical.Python.Text
import Umbilical.Shared.Lines
import Mathlib.Data.List.Sort

set_option autoImplicit false

/-!
# The chunks of a log

A log is kept in chunks of lines, each compressed by a method of its own. The
libraries that all compressors but the raw one wrap are not part of the repository.
-/

namespace Umbilical.Logs

open Python Lines

/-- A `CompressorInterface` with its compress object. -/
structure Compressor where
  available : Bool
  CompressObj : Type
  new : CompressObj
  compress : CompressObj → List UInt8 → List UInt8 × CompressObj
  flush : CompressObj → List UInt8 × CompressObj
  read : List UInt8 → Option (List UInt8)

namespace Compressor

variable (compressor : Compressor)

/-- The outputs of `compress` for one piece after another, and then that of `flush`, joined. -/
def compressAll (obj : compressor.CompressObj) : List (List UInt8) → List UInt8 × compressor.CompressObj
  | [] => compressor.flush obj
  | piece :: pieces =>
      let (bytes, obj) := compressor.compress obj piece
      let (rest, obj) := compressAll obj pieces
      (bytes ++ rest, obj)

/-- A compress object that is new or has been flushed. -/
inductive Reusable : compressor.CompressObj → Prop where
  | new : Reusable compressor.new
  | flushed {obj} (pieces : List (List UInt8)) : Reusable obj → Reusable (compressor.compressAll obj pieces).2

/-- What is promised of every compressor. -/
structure Lawful : Prop where
  available : compressor.available = true
  read_compressAll : ∀ obj, compressor.Reusable obj → ∀ pieces,
    compressor.read (compressor.compressAll obj pieces).1 = some pieces.flatten

end Compressor

def RawCompressor : Compressor where
  available := true
  CompressObj := Unit
  new := ()
  compress _ data := (data, ())
  flush _ := ([], ())
  read := some

theorem RawCompressor.compressAll_eq (obj : RawCompressor.CompressObj) (pieces : List (List UInt8)) :
    (RawCompressor.compressAll obj pieces).1 = pieces.flatten := by
  induction pieces generalizing obj with
  | nil => rfl
  | cons piece pieces ih =>
    simp only [Compressor.compressAll, ih]
    rfl

theorem RawCompressor.lawful : RawCompressor.Lawful where
  available := rfl
  read_compressAll obj _ pieces := by
    rw [RawCompressor.compressAll_eq]
    rfl

/-- The names of `COMPRESSION_MODE`, by their ids. -/
inductive Method where
  | raw
  | gz
  | bz2
  | lz4
  | zstd
  | br
  deriving DecidableEq

/-- The compressors that wrap a library. -/
structure Compressors where
  gz : Compressor
  bz2 : Compressor
  lz4 : Compressor
  zstd : Compressor
  br : Compressor

namespace Compressors

variable (compressors : Compressors)

def byId : Method → Compressor
  | .raw => RawCompressor
  | .gz => compressors.gz
  | .bz2 => compressors.bz2
  | .lz4 => compressors.lz4
  | .zstd => compressors.zstd
  | .br => compressors.br

/-- The configuration names a method, or none that exists. -/
def configured (logCompressionMethod : Option Method) : Method := logCompressionMethod.getD .raw

def Lawful : Prop := ∀ method, (compressors.byId method).Lawful

/-- `_get_compressor(compressed).read(content)` -/
def read (compressed : Method) (content : List UInt8) : Option (List UInt8) :=
  if (compressors.byId compressed).available then (compressors.byId compressed).read content else none

variable {compressors}

theorem Lawful.read_compressAll (lawful : compressors.Lawful) (method : Method)
    {obj : (compressors.byId method).CompressObj} (reusable : (compressors.byId method).Reusable obj)
    (pieces : List (List UInt8)) :
    compressors.read method ((compressors.byId method).compressAll obj pieces).1 = some pieces.flatten := by
  rw [read, if_pos (lawful method).available]
  exact (lawful method).read_compressAll obj reusable pieces

theorem read_raw (content : List UInt8) : compressors.read .raw content = some content := rfl

end Compressors

/-- Nothing is ever compressed. -/
def uncompressed : Compressors := ⟨RawCompressor, RawCompressor, RawCompressor, RawCompressor, RawCompressor⟩

theorem uncompressed_lawful : uncompressed.Lawful := by
  intro method
  cases method <;> exact RawCompressor.lawful

/-- A row of `logchunks`. -/
structure Chunk where
  firstLine : Nat
  lastLine : Nat
  content : List UInt8
  compressed : Method
  deriving DecidableEq

/-- A log with its rows of `logchunks`, which every query asks for in the order of their first lines. -/
structure Log where
  numLines : Nat
  chunks : List Chunk
  deriving DecidableEq

def Log.new : Log where
  numLines := 0
  chunks := []

def Log.insert (log : Log) (chunk : Chunk) : Log :=
  { log with chunks := log.chunks.orderedInsert (fun left right => left.firstLine ≤ right.firstLine) chunk }

/-- The chunks are contiguous and disjoint, and cover the lines from one line up to another. -/
def Covers : Nat → List Chunk → Nat → Prop
  | start, [], stop => start = stop
  | start, chunk :: chunks, stop =>
      chunk.firstLine = start ∧ chunk.firstLine ≤ chunk.lastLine ∧ Covers (chunk.lastLine + 1) chunks stop

instance (start : Nat) (chunks : List Chunk) (stop : Nat) : Decidable (Covers start chunks stop) := by
  induction chunks generalizing start with
  | nil => exact inferInstanceAs (Decidable (start = stop))
  | cons chunk chunks ih =>
    have := ih (chunk.lastLine + 1)
    exact inferInstanceAs (Decidable (_ ∧ _))

section Reading

variable (compressors : Compressors) (firstLine : Nat) (lastLine : Option Nat)

/-- `_thd_get_chunks` -/
def getChunks (log : Log) (batchFirstLine : Nat) (batch : Nat) : List Chunk :=
  (log.chunks.filter fun chunk => lastLine.all (chunk.firstLine ≤ ·) && batchFirstLine ≤ chunk.lastLine).take batch

def skipLines : Nat → List Text → Nat × List Text
  | lineIdx, [] => (lineIdx, [])
  | lineIdx, line :: lines =>
      if lineIdx < firstLine then skipLines (lineIdx + 1) lines else (lineIdx, line :: lines)

def yieldLines : Nat → List Text → List Text
  | _, [] => []
  | lineIdx, line :: lines => if lastLine.all (lineIdx ≤ ·) then line :: yieldLines (lineIdx + 1) lines else []

def iterUncompressLines (chunk : Chunk) : Option (List Text) := do
  let data ← compressors.read chunk.compressed chunk.content
  -- the line end that was stripped from the chunk is added back
  let text ← decodeUtf8 (data ++ utf8 ['\n'])
  let (lineIdx, lines) := skipLines firstLine chunk.firstLine (readLines '\n' (universal '\n' '\r' false text))
  return yieldLines lastLine lineIdx lines

/-- How far `iter_log_lines` has come. -/
structure Reader where
  batchFirstLine : Nat
  lines : List Text
  finished : Bool
  deriving DecidableEq

namespace Reader

def new : Reader where
  batchFirstLine := firstLine
  lines := []
  finished := false

def CHUNK_BATCH_SIZE : Nat := 100

/-- One batch query, and the lines of its chunks. -/
def fetch (log : Log) (reader : Reader) : Option Reader :=
  match (getChunks lastLine log reader.batchFirstLine CHUNK_BATCH_SIZE).getLast? with
  | none => some { reader with finished := true }
  | some last => do
      let lines ← (getChunks lastLine log reader.batchFirstLine CHUNK_BATCH_SIZE).mapM
        (iterUncompressLines compressors firstLine lastLine)
      return {
        batchFirstLine := max reader.batchFirstLine last.lastLine + 1
        lines := reader.lines ++ lines.flatten
        finished := false }

/-- At most so many batch queries. -/
def fetchAll (log : Log) : Nat → Reader → Option Reader
  | 0, _ => none
  | queries + 1, reader => do
      let reader ← reader.fetch compressors firstLine lastLine log
      if reader.finished then some reader else fetchAll log queries reader

end Reader

/-- The lines that `iter_log_lines` yields. Each query but the last one finds a chunk that no earlier one found. -/
def iterLogLines (log : Log) : Option (List Text) :=
  ((Reader.new firstLine).fetchAll compressors firstLine lastLine log (log.chunks.length + 1)).map Reader.lines

end Reading

def getLogLines (compressors : Compressors) (log : Log) (firstLine lastLine : Nat) : Option Text :=
  (iterLogLines compressors firstLine (some lastLine) log).map List.flatten

end Umbilical.Logs
