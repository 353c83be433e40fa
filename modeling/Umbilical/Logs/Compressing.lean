import Umbilical.Logs.Appending

set_option autoImplicit false

/-!
# Compressing a log

`compressLog` groups the chunks of a log by their sizes in one transaction, and
puts one chunk in the place of each group in a transaction of its own.
-/

namespace Umbilical.Logs

/-- The rows behind the first one, with the last group and its size so far. -/
def groupChunks (groupFirstLine groupLastLine groupSize : Nat) : List Chunk → List (Nat × Nat)
  | [] => [(groupFirstLine, groupLastLine)]
  | chunk :: chunks =>
      -- the compressed size counts
      if groupSize + chunk.content.length ≤ MAX_CHUNK_SIZE ∧ chunk.lastLine - groupFirstLine ≤ MAX_CHUNK_LINES then
        groupChunks groupFirstLine chunk.lastLine (groupSize + chunk.content.length) chunks
      else
        (groupFirstLine, groupLastLine) ::
          groupChunks chunk.firstLine chunk.lastLine chunk.content.length chunks

/-- `_thd_gather_chunks_to_process` -/
def gatherChunksToProcess (force : Bool) (log : Log) : List (Nat × Nat) :=
  match log.chunks with
  | [] => []
  | chunk :: chunks =>
      let groupedChunks := groupChunks chunk.firstLine chunk.lastLine chunk.content.length chunks
      if force = false ∧ log.chunks.length ≤ groupedChunks.length then [] else groupedChunks

def inGroup (group : Nat × Nat) (chunk : Chunk) : Bool := group.1 ≤ chunk.firstLine && chunk.lastLine ≤ group.2

/-- `_thd_get_chunks_content` -/
def getChunksContent (log : Log) (group : Nat × Nat) : List Chunk := log.chunks.filter (inGroup group)

/-- The transaction of `_thd_replace_chunks_by_new_grouped_chunk`. -/
def replaceChunksByNewGroupedChunk (log : Log) (chunk : Chunk) : Log :=
  Log.insert { log with chunks := log.chunks.filter fun other => !inGroup (chunk.firstLine, chunk.lastLine) other } chunk

section Recompressing

variable (compressors : Compressors) (method : Method)

/-- `_thd_recompress_chunks`: the new content and the bytes that it saves, unless a chunk cannot be read. -/
def recompressChunks (obj : (compressors.byId method).CompressObj) (chunks : List Chunk) :
    Option (List UInt8 × Int × (compressors.byId method).CompressObj) := do
  let contents ← chunks.mapM fun chunk => compressors.read chunk.compressed chunk.content
  -- the line ends between the chunks come back
  let (content, obj) := (compressors.byId method).compressAll obj (contents.intersperse [10])
  return (content, (chunks.map fun chunk => (chunk.content.length : Int)).sum - content.length, obj)

/-- The chunk for a group. -/
def groupedChunk (log : Log) (obj : (compressors.byId method).CompressObj) (group : Nat × Nat) :
    Option (Chunk × Int × (compressors.byId method).CompressObj) := do
  let (content, saved, obj) ← recompressChunks compressors method obj (getChunksContent log group)
  return (⟨group.1, group.2, content, method⟩, saved, obj)

end Recompressing

/-- A log with a `compressLog` under way, which has these groups before it. -/
structure Compression (compressors : Compressors) where
  log : Log
  method : Method
  obj : (compressors.byId method).CompressObj
  groups : List (Nat × Nat)
  /-- `none` once a chunk could not be read. -/
  totalBytesSaved : Option Int

namespace Compression

variable {compressors : Compressors}

def new (log : Log) : Compression compressors where
  log := log
  method := .raw
  obj := (compressors.byId .raw).new
  groups := []
  totalBytesSaved := some 0

/-- The beginning of a `compressLog`, when no other one is under way. -/
def gather (configured : Option Method) (force : Bool) (state : Compression compressors) : Compression compressors :=
  match state.groups with
  | [] => {
      log := state.log
      method := Compressors.configured configured
      obj := (compressors.byId (Compressors.configured configured)).new
      groups := gatherChunksToProcess force state.log
      totalBytesSaved := some 0 }
  | _ :: _ => state

/-- The next group; shows of how many chunks it is and the chunk that comes in their place. -/
def replace (state : Compression compressors) : Compression compressors × List (Nat × Chunk) :=
  match state.groups with
  | [] => (state, [])
  | group :: groups =>
      match groupedChunk compressors state.method state.log state.obj group with
      | none => ({ state with groups := [], totalBytesSaved := none }, [])
      | some (chunk, saved, obj) =>
          ({ state with
              log := replaceChunksByNewGroupedChunk state.log chunk
              obj := obj
              groups := groups
              totalBytesSaved := state.totalBytesSaved.map (· + saved) },
            [((getChunksContent state.log group).length, chunk)])

theorem replace_eq {state : Compression compressors} {group : Nat × Nat} {groups : List (Nat × Nat)}
    (ahead : state.groups = group :: groups) {chunk : Chunk} {saved : Int} {obj : (compressors.byId state.method).CompressObj}
    (result : groupedChunk compressors state.method state.log state.obj group = some (chunk, saved, obj)) :
    state.replace = ({ state with
        log := replaceChunksByNewGroupedChunk state.log chunk
        obj := obj
        groups := groups
        totalBytesSaved := state.totalBytesSaved.map (· + saved) },
      [((getChunksContent state.log group).length, chunk)]) := by
  rw [replace, ahead]
  simp only [result]

/-- So many transactions of it. -/
def transactions (state : Compression compressors) : Nat → Compression compressors
  | 0 => state
  | n + 1 => state.replace.1.transactions n

end Compression

/-- `compressLog`, stopped after so many of its transactions. -/
def compressLog (compressors : Compressors) (configured : Option Method) (force : Bool) (transactions : Nat) (log : Log) :
    Compression compressors :=
  ((Compression.new log).gather configured force).transactions transactions

end Umbilical.Logs
