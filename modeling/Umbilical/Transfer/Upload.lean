import Umbilical.Transfer.Manager

set_option autoImplicit false

/-!
# Uploading a file

`WorkerFileUploadCommand` together with the master that writes what it sends.
-/

namespace Umbilical.Transfer

open Python

variable {τ : Type}

/-- A file on the worker. -/
structure Source (τ : Type) where
  content : List UInt8
  accessTime : τ
  modifiedTime : τ

structure WorkerFileUploadCommand where
  path : String
  remaining : Option Nat
  blocksize : Nat
  keepstamp : Bool
  stderr : Option String
  rc : Nat
  /-- What there is still to read, while the file is open. -/
  fp : Option (List UInt8)
  interrupted : Bool

namespace WorkerFileUploadCommand

def setup (path : String) (maxsize : Option Nat) (blocksize : Nat) (keepstamp : Bool) : WorkerFileUploadCommand where
  path := path
  remaining := maxsize
  blocksize := blocksize
  keepstamp := keepstamp
  stderr := none
  rc := 0
  fp := none
  interrupted := false

def truncate (command : WorkerFileUploadCommand) : WorkerFileUploadCommand :=
  match command.stderr with
  | none => { command with stderr := some (truncating command.path), rc := 1 }
  | some _ => command

def length (command : WorkerFileUploadCommand) : Nat := allowed command.blocksize command.remaining

/-- What `fp.read(length)` leaves to read, and what of `remaining` the block leaves. -/
def advance (command : WorkerFileUploadCommand) (rest : List UInt8) : WorkerFileUploadCommand :=
  { command with
    fp := some (rest.drop command.length)
    remaining := command.remaining.map (· - (rest.take command.length).length) }

def writeBlock (command : WorkerFileUploadCommand) (wire : Wire τ) :
    Except PyException Bool × WorkerFileUploadCommand × Wire τ :=
  match command.interrupted, command.fp with
  | true, _ | false, none => (.ok true, command, wire)
  | false, some rest =>
    if command.length = 0 then (.ok true, command.truncate, wire)
    else if rest.take command.length = [] then (.ok true, command.advance rest, wire)
    else
      match wire.getMessageResult (.updateUploadFileWrite (rest.take command.length)) with
      | (.error why, wire) => (.error why, command.advance rest, wire)
      | (.ok _, wire) => (.ok false, command.advance rest, wire)

/-- How much there is still to read. -/
def unread (command : WorkerFileUploadCommand) : Nat := (command.fp.getD []).length

theorem unread_of_continues {command command' : WorkerFileUploadCommand} {wire wire' : Wire τ}
    (continues : command.writeBlock wire = (.ok false, command', wire')) : command'.unread < command.unread := by
  unfold writeBlock at continues
  split at continues
  · cases continues
  · cases continues
  · rename_i rest _ opened
    split at continues
    · cases continues
    split at continues
    · cases continues
    rename_i something block
    split at continues
    · cases continues
    cases continues
    have nonempty : rest ≠ [] := fun empty => block (by rw [empty, List.take_nil])
    have size := List.length_pos_iff.mpr nonempty
    simp only [unread, advance, opened, Option.getD_some, List.length_drop]
    omega

def loop (command : WorkerFileUploadCommand) (wire : Wire τ) : Option PyException × WorkerFileUploadCommand × Wire τ :=
  match _outcome : command.writeBlock wire with
  | (.ok true, command, wire) => (none, command, wire)
  | (.ok false, command, wire) => command.loop wire
  | (.error why, command, wire) => (some why, command, wire)
termination_by command.unread
decreasing_by exact unread_of_continues _outcome

def openFile (command : WorkerFileUploadCommand) : Option (Source τ) → WorkerFileUploadCommand
  | some source => { command with fp := some source.content }
  | none =>
    let path := command.path
    { command with fp := none, stderr := some s!"Cannot open file '{path}' for upload", rc := 1 }

/-- The failure of `_close_ok`, if it has one. -/
def closeOk (source : Option (Source τ)) (command : WorkerFileUploadCommand) (wire : Wire τ) :
    Option PyException × Wire τ :=
  match wire.getMessageResult .updateUploadFileClose with
  | (.error why, wire) => (some why, wire)
  | (.ok _, wire) =>
    if command.keepstamp then
      match wire.getMessageResult (.updateUploadFileUtime (source.map (·.accessTime)) (source.map (·.modifiedTime))) with
      | (.error why, wire) => (some why, wire)
      | (.ok _, wire) => (none, wire)
    else (none, wire)

/-- An error of the writer's `close` is ignored, and the failure of the loop kept. -/
def closeErr (command : WorkerFileUploadCommand) (wire : Wire τ) : WorkerFileUploadCommand × Wire τ :=
  let (_, wire) := wire.getMessageResult .updateUploadFileClose
  ({ command with rc := 1 }, wire)

def start (command : WorkerFileUploadCommand) (source : Option (Source τ)) (wire : Wire τ) : Ended × Wire τ :=
  match (command.openFile source).loop wire with
  | (none, command, wire) =>
    let (failure, wire) := command.closeOk source wire
    (⟨finished command.rc command.stderr, failure⟩, wire)
  | (some why, command, wire) =>
    let (command, wire) := command.closeErr wire
    (⟨finished command.rc command.stderr, some why⟩, wire)

end WorkerFileUploadCommand

open WorkerFileUploadCommand

/-- What an upload is for: a file of the master, in the place of what is there, or a string. -/
inductive Receiver (τ : Type) where
  | file (destfile : Option (File τ)) (mode : Option Nat)
  | string

namespace Receiver

def writer (maxsize : Option Nat) : Receiver τ → Writer τ
  | .file destfile mode => .file (.new destfile maxsize mode)
  | .string => .string .new

def destfile : Receiver τ → Option (File τ)
  | .file destfile _ => destfile
  | .string => none

/-- A block can be written: a string takes those that are UTF-8 on their own. -/
def Takes (receiver : Receiver τ) (block : List UInt8) : Prop :=
  match receiver with
  | .file _ _ => True
  | .string => (decodeUtf8 block).isSome

/-- The writer after so many bytes. -/
def Holding (receiver : Receiver τ) (maxsize : Option Nat) (bytes : List UInt8) (writer : Writer τ) : Prop :=
  match receiver with
  | .file destfile mode => writer = .file ⟨destfile, mode, some bytes, maxsize.map (· - bytes.length)⟩
  | .string => ∃ text, writer = .string ⟨text⟩ ∧ utf8 text = bytes

end Receiver

variable {receiver : Receiver τ} {maxsize : Option Nat} {writer writer' : Writer τ} {bytes block : List UInt8}

theorem Receiver.writer_holding (receiver : Receiver τ) (maxsize : Option Nat) :
    receiver.Holding maxsize [] (receiver.writer maxsize) := by
  cases receiver with
  | file destfile mode => cases maxsize <;> rfl
  | string => exact ⟨[], rfl, rfl⟩

theorem Receiver.Holding.destfile_eq (holding : receiver.Holding maxsize bytes writer) :
    writer.destfile = receiver.destfile := by
  cases receiver with
  | file destfile mode =>
    cases holding
    rfl
  | string =>
    obtain ⟨text, rfl, _⟩ := holding
    rfl

theorem Receiver.Holding.remoteWrite (holding : receiver.Holding maxsize bytes writer)
    (within : ∀ most, maxsize = some most → bytes.length + block.length ≤ most) (takes : receiver.Takes block) :
    ∃ writer', writer.remoteWrite block = .ok writer' ∧ receiver.Holding maxsize (bytes ++ block) writer' := by
  cases receiver with
  | file destfile mode =>
    cases holding
    cases maxsize with
    | none => exact ⟨_, rfl, rfl⟩
    | some most =>
      have fits := within most rfl
      have short : ¬ block.length > most - bytes.length := by omega
      refine ⟨_, ?_, rfl⟩
      simp only [Writer.remoteWrite, FileWriter.remoteWrite, Option.map_some, if_neg short, Except.map,
        List.length_append, Nat.sub_add_eq]
  | string =>
    obtain ⟨text, rfl, same⟩ := holding
    obtain ⟨more, decoded⟩ := Option.isSome_iff_exists.mp takes
    refine ⟨.string ⟨text ++ more⟩, ?_, text ++ more, rfl, ?_⟩
    · simp only [Writer.remoteWrite, StringFileWriter.remoteWrite, decoded, Except.map]
    · rw [utf8_append, same, utf8_of_decodeUtf8 decoded]

theorem Receiver.Holding.not_remoteWrite (holding : receiver.Holding maxsize bytes writer)
    (refuses : ¬ receiver.Takes block) : ∃ why, writer.remoteWrite block = .error why := by
  cases receiver with
  | file destfile mode => exact absurd trivial refuses
  | string =>
    obtain ⟨text, rfl, _⟩ := holding
    have none : decodeUtf8 block = none := by simpa [Receiver.Takes] using refuses
    exact ⟨.unicodeDecodeError block, by simp only [Writer.remoteWrite, StringFileWriter.remoteWrite, none, Except.map]⟩

/-- The destination is as it was. -/
def Untouched (receiver : Receiver τ) (commandId : Nat) (manager : Manager τ) : Prop :=
  (manager.commandIdToWriterMap commandId).bind Writer.destfile = receiver.destfile

def Request.isWrite : Request τ → Bool
  | .updateUploadFileWrite _ => true
  | _ => false

/-- The connection after the first `count` bytes of the content, in whole blocks. -/
structure Sent (receiver : Receiver τ) (maxsize : Option Nat) (content : List UInt8) (count : Nat) (wire : Wire τ) :
    Prop where
  writer : ∃ writer, wire.writer = some writer ∧ receiver.Holding maxsize (content.take count) writer
  exchanges : ∀ exchange ∈ wire.exchanges, exchange.1.isWrite ∧ Untouched receiver wire.commandId exchange.2

/-- A command that has read so much, and found no end yet. -/
structure Reading (content : List UInt8) (initial : WorkerFileUploadCommand) (count : Nat)
    (command : WorkerFileUploadCommand) : Prop where
  state : command = { initial with
    fp := some (content.drop count)
    remaining := initial.remaining.map (· - count) }
  read : count ≤ content.length
  within : ∀ most, initial.remaining = some most → count ≤ most

variable {content : List UInt8} {count : Nat} {wire wire' : Wire τ} {initial command : WorkerFileUploadCommand}

theorem Wire.getMessageResult_write (found : wire.writer = some writer) :
    wire.getMessageResult (.updateUploadFileWrite block) =
      match writer.remoteWrite block with
      | .error why => (.error why, { wire with exchanges := wire.exchanges ++ [(.updateUploadFileWrite block, wire.manager)] })
      | .ok writer =>
        let manager := wire.manager.setWriter wire.commandId writer
        (.ok none, { wire with manager, exchanges := wire.exchanges ++ [(.updateUploadFileWrite block, manager)] }) := by
  have registered : wire.manager.commandIdToWriterMap wire.commandId = some writer := found
  simp only [Wire.getMessageResult, Manager.onMessage, Manager.callUpdateUploadFileWrite, Manager.callWriter, registered]
  cases writer.remoteWrite block <;> rfl

theorem Sent.write (sent : Sent receiver maxsize content count wire)
    (within : ∀ most, maxsize = some most → (content.take count).length + block.length ≤ most)
    (next : content.take count ++ block = content.take (count + block.length)) (takes : receiver.Takes block) :
    ∃ wire', wire.getMessageResult (.updateUploadFileWrite block) = (.ok none, wire') ∧
      Sent receiver maxsize content (count + block.length) wire' := by
  obtain ⟨writer, found, holding⟩ := sent.writer
  obtain ⟨writer', written, holding'⟩ := holding.remoteWrite within takes
  let manager := wire.manager.setWriter wire.commandId writer'
  let exchanges := wire.exchanges ++ [(Request.updateUploadFileWrite block, manager)]
  refine ⟨{ wire with manager, exchanges }, ?_, ?_, ?_⟩
  · rw [Wire.getMessageResult_write found, written]
  · refine ⟨writer', ?_, next ▸ holding'⟩
    simp [Wire.writer, manager, Manager.setWriter]
  · intro exchange member
    rcases List.mem_append.mp member with earlier | now
    · exact sent.exchanges exchange earlier
    · obtain rfl := List.mem_singleton.mp now
      refine ⟨rfl, ?_⟩
      simp [Untouched, manager, Manager.setWriter, holding'.destfile_eq]

theorem Sent.not_write (sent : Sent receiver maxsize content count wire) (refuses : ¬ receiver.Takes block) :
    ∃ why wire', wire.getMessageResult (.updateUploadFileWrite block) = (.error why, wire') := by
  obtain ⟨writer, found, holding⟩ := sent.writer
  obtain ⟨why, refused⟩ := holding.not_remoteWrite refuses
  exact ⟨why, _, by rw [Wire.getMessageResult_write found, refused]⟩

/-- What is still to be sent. -/
def ahead (initial : WorkerFileUploadCommand) (content : List UInt8) (count : Nat) : List UInt8 :=
  (limited initial.remaining content).drop count

namespace Reading

variable (reading : Reading content initial count command)
include reading

theorem fp_eq : command.fp = some (content.drop count) := by rw [reading.state]

theorem interrupted_eq : command.interrupted = initial.interrupted := by rw [reading.state]

theorem length_eq : command.length = allowed initial.blocksize (initial.remaining.map (· - count)) := by
  rw [reading.state]
  rfl

theorem block_eq : (content.drop count).take command.length = (ahead initial content count).take initial.blocksize := by
  rw [reading.length_eq, take_allowed, limited_drop]
  rfl

theorem count_le : count ≤ (limited initial.remaining content).length := by
  cases limit : initial.remaining with
  | none => exact reading.read
  | some most => simpa using ⟨reading.within most limit, reading.read⟩

theorem advance : Reading content initial (count + ((content.drop count).take command.length).length)
    (command.advance (content.drop count)) := by
  have size : ((content.drop count).take command.length).length ≤ content.length - count := by
    simp [List.length_take]
  have most : ((content.drop count).take command.length).length ≤ command.length := by simp [List.length_take]
  have read := reading.read
  refine ⟨?_, by omega, ?_⟩
  · have left : (content.drop count).drop command.length =
        content.drop (count + ((content.drop count).take command.length).length) := by
      rw [← List.drop_drop, drop_length_take]
    rw [WorkerFileUploadCommand.advance, left]
    simp only [reading.state, Option.map_map, Function.comp_def, Nat.sub_sub]
  · intro limit limits
    have within := reading.within limit limits
    rw [reading.length_eq, limits, Option.map_some, allowed_eq_min] at most
    rw [reading.length_eq, limits, Option.map_some, allowed_eq_min]
    omega

/-- At the end of what is to be sent, the loop ends, and says whether it came to the limit. -/
theorem writeBlock_of_nil (positive : 0 < initial.blocksize) (running : initial.interrupted = false)
    (nothing : ahead initial content count = []) :
    command.writeBlock wire =
      (.ok true, if initial.remaining = some (limited initial.remaining content).length then command.truncate
        else command.advance (content.drop count), wire) := by
  have all : (limited initial.remaining content).length = count := by
    have past := List.drop_eq_nil_iff.mp nothing
    exact Nat.le_antisymm past reading.count_le
  rw [all]
  have runs := reading.interrupted_eq.trans running
  by_cases limit : initial.remaining = some count
  · have zero : command.length = 0 := by
      rw [reading.length_eq, limit]
      exact (allowed_eq_zero positive).mpr (by simp)
    simp [writeBlock, runs, reading.fp_eq, zero, limit]
  · have more : command.length ≠ 0 := by
      rw [reading.length_eq]
      intro zero
      obtain ⟨most, limits, _⟩ := Option.map_eq_some_iff.mp ((allowed_eq_zero positive).mp zero)
      have within := reading.within most limits
      have same : most = count := by omega
      exact limit (same ▸ limits)
    have empty : (content.drop count).take command.length = [] := by rw [reading.block_eq, nothing, List.take_nil]
    simp only [writeBlock, runs, reading.fp_eq, more, empty, limit, if_false, if_true]

theorem writeBlock_of_ne_nil (positive : 0 < initial.blocksize) (running : initial.interrupted = false)
    (something : ahead initial content count ≠ []) :
    command.writeBlock wire =
      match wire.getMessageResult (.updateUploadFileWrite ((ahead initial content count).take initial.blocksize)) with
      | (.error why, wire) => (.error why, command.advance (content.drop count), wire)
      | (.ok _, wire) => (.ok false, command.advance (content.drop count), wire) := by
  have runs := reading.interrupted_eq.trans running
  have nonempty : (ahead initial content count).take initial.blocksize ≠ [] := by
    simp [something, Nat.ne_of_gt positive]
  have more : command.length ≠ 0 := by
    intro zero
    apply nonempty
    rw [← reading.block_eq, zero, List.take_zero]
  simp only [writeBlock, runs, reading.fp_eq, more, reading.block_eq, nonempty, if_false]

end Reading

/-- Every block of what is still to be sent can be written. -/
def Writable (receiver : Receiver τ) (blocksize : Nat) (data : List UInt8) : Prop :=
  ∀ block ∈ blocks blocksize data, receiver.Takes block

/-- How the updates of a command that met with no failure read. -/
def outcome (path : String) (maxsize : Option Nat) (content : List UInt8) : List Update :=
  if maxsize = some (limited maxsize content).length then finished 1 (some (truncating path)) else finished 0 none

/-- What the loop ends with, by whether every block ahead can be written. -/
structure Looped (receiver : Receiver τ) (initial : WorkerFileUploadCommand) (content : List UInt8) (count : Nat)
    (failure : Option PyException) (command : WorkerFileUploadCommand) (wire : Wire τ) : Prop where
  sent : Writable receiver initial.blocksize (ahead initial content count) →
    failure = none ∧ Sent receiver initial.remaining content (limited initial.remaining content).length wire
  updates : Writable receiver initial.blocksize (ahead initial content count) →
    finished command.rc command.stderr = outcome initial.path initial.remaining content
  keepstamp : command.keepstamp = initial.keepstamp
  failed : ¬ Writable receiver initial.blocksize (ahead initial content count) → failure.isSome

theorem Reading.loop_of_nil (positive : 0 < initial.blocksize) (running : initial.interrupted = false)
    (fresh : initial.stderr = none ∧ initial.rc = 0) (reading : Reading content initial count command)
    (sent : Sent receiver initial.remaining content count wire) (nothing : ahead initial content count = []) :
    ∃ failure command' wire', command.loop wire = (failure, command', wire') ∧
      Looped receiver initial content count failure command' wire' := by
  have all : (limited initial.remaining content).length = count :=
    Nat.le_antisymm (List.drop_eq_nil_iff.mp nothing) reading.count_le
  have writable : Writable receiver initial.blocksize (ahead initial content count) := by simp [Writable, nothing]
  let command' := if initial.remaining = some (limited initial.remaining content).length then command.truncate
    else command.advance (content.drop count)
  refine ⟨none, command', wire, ?_, fun _ => ⟨rfl, all ▸ sent⟩, fun _ => ?_, ?_, fun refuses => absurd writable refuses⟩
  · rw [WorkerFileUploadCommand.loop, reading.writeBlock_of_nil positive running nothing]
  · unfold outcome command'
    split
    · simp only [WorkerFileUploadCommand.truncate, reading.state, fresh.1]
    · simp only [WorkerFileUploadCommand.advance, reading.state, fresh.1, fresh.2]
  · unfold command'
    split
    · simp only [WorkerFileUploadCommand.truncate, reading.state, fresh.1]
    · simp only [WorkerFileUploadCommand.advance, reading.state]

/-- The loop sends what there is up to the limit, or ends with the failure of a write. -/
theorem Reading.loop (positive : 0 < initial.blocksize) (running : initial.interrupted = false)
    (fresh : initial.stderr = none ∧ initial.rc = 0) (reading : Reading content initial count command)
    (sent : Sent receiver initial.remaining content count wire) :
    ∃ failure command' wire', command.loop wire = (failure, command', wire') ∧
      Looped receiver initial content count failure command' wire' := by
  -- By induction on how much there is ahead.
  generalize size : (ahead initial content count).length = left
  induction left using Nat.strongRecOn generalizing count command wire with
  | _ left ih =>
    by_cases nothing : ahead initial content count = []
    · exact reading.loop_of_nil positive running fresh sent nothing
    have cut := blocks_eq_cons positive nothing
    let block := (ahead initial content count).take initial.blocksize
    by_cases takes : receiver.Takes block
    · have next : content.take count ++ block = content.take (count + block.length) := by
        rw [List.take_add]
        congr 1
        unfold block
        rw [← reading.block_eq, take_length_take]
      have reading' : Reading content initial (count + block.length) (command.advance (content.drop count)) := by
        have advanced := reading.advance
        rwa [reading.block_eq] at advanced
      have within : ∀ most, initial.remaining = some most → (content.take count).length + block.length ≤ most := by
        intro most limits
        have below := reading'.within most limits
        have taken := List.length_take_le count content
        omega
      obtain ⟨wire', answered, sent'⟩ := sent.write within next takes
      have rest : (ahead initial content count).drop initial.blocksize = ahead initial content (count + block.length) := by
        rw [← drop_length_take]
        exact List.drop_drop
      have shorter : (ahead initial content (count + block.length)).length < left := by
        have some := List.length_pos_iff.mpr nothing
        rw [← rest, List.length_drop]
        omega
      obtain ⟨failure, command', wire'', looped, result⟩ := ih _ shorter reading' sent' rfl
      have same : Writable receiver initial.blocksize (ahead initial content count) ↔
          Writable receiver initial.blocksize (ahead initial content (count + block.length)) := by
        simp only [Writable, cut, List.forall_mem_cons, rest]
        exact and_iff_right takes
      refine ⟨failure, command', wire'', ?_, ?_⟩
      · rw [WorkerFileUploadCommand.loop, reading.writeBlock_of_ne_nil positive running nothing, answered]
        exact looped
      · exact ⟨fun writable => result.sent (same.mp writable), fun writable => result.updates (same.mp writable),
          result.keepstamp, fun refuses => result.failed (mt same.mpr refuses)⟩
    · obtain ⟨why, wire', refused⟩ := sent.not_write takes
      have refuses : ¬ Writable receiver initial.blocksize (ahead initial content count) := by
        intro writable
        exact takes (writable _ (cut ▸ List.mem_cons_self))
      refine ⟨some why, command.advance (content.drop count), wire', ?_, ?_⟩
      · rw [WorkerFileUploadCommand.loop, reading.writeBlock_of_ne_nil positive running nothing, refused]
      · refine ⟨fun writable => absurd writable refuses, fun writable => absurd writable refuses, ?_, fun _ => rfl⟩
        simp only [WorkerFileUploadCommand.advance, reading.state]

/-- What the master is to have: a file with the content and, if these are kept, the times, or a string. -/
def Stored (content : List UInt8) (times : Option (τ × τ)) : Writer τ → Prop
  | .file writer => ∃ placed, writer.destfile = some placed ∧ placed.content = content ∧
      ∀ stamp, times = some stamp → placed.times = some stamp
  | .string writer => utf8 writer.buffer = content ∧ decodeUtf8 content = some writer.buffer

def Request.isClose : Request τ → Bool
  | .updateUploadFileClose => true
  | _ => false

structure Uploaded (receiver : Receiver τ) (path : String) (maxsize : Option Nat) (keepstamp : Bool)
    (source : Source τ) (ended : Ended) (wire : Wire τ) : Prop where
  stored : ∃ writer, wire.writer = some writer ∧ Stored (limited maxsize source.content)
    (if keepstamp then some (source.accessTime, source.modifiedTime) else none) writer
  appears : ∀ exchange ∈ wire.exchanges.takeWhile (fun exchange => !exchange.1.isClose),
    Untouched receiver wire.commandId exchange.2
  whole : ended = .whole ↔ Fits maxsize source.content
  truncated : ended = .truncated path ↔ ¬ Fits maxsize source.content

theorem Uploaded.failure_eq {path : String} {keepstamp : Bool} {source : Source τ} {ended : Ended}
    (uploaded : Uploaded receiver path maxsize keepstamp source ended wire) : ended.failure = none := by
  by_cases fits : Fits maxsize source.content
  · rw [uploaded.whole.mpr fits]
    rfl
  · rw [uploaded.truncated.mpr fits]
    rfl

theorem Receiver.Holding.remoteClose (holding : receiver.Holding maxsize bytes writer) :
    ∃ writer', writer.remoteClose = .ok writer' ∧ Stored bytes none writer' := by
  cases receiver with
  | file destfile mode =>
    cases holding
    exact ⟨_, rfl, _, rfl, rfl, by simp⟩
  | string =>
    obtain ⟨text, rfl, same⟩ := holding
    refine ⟨_, rfl, same, ?_⟩
    rw [← same]
    exact decodeUtf8_utf8 text

theorem Sent.close (sent : Sent receiver maxsize content count wire) :
    ∃ wire', wire.getMessageResult .updateUploadFileClose = (.ok none, wire') ∧ wire'.commandId = wire.commandId ∧
      (∃ writer, wire'.writer = some writer ∧ Stored (content.take count) none writer) ∧
      wire'.exchanges.takeWhile (fun exchange => !exchange.1.isClose) = wire.exchanges := by
  obtain ⟨writer, found, holding⟩ := sent.writer
  obtain ⟨writer', closed, stored⟩ := holding.remoteClose
  have registered : wire.manager.commandIdToWriterMap wire.commandId = some writer := found
  let manager := wire.manager.setWriter wire.commandId writer'
  let exchanges := wire.exchanges ++ [(Request.updateUploadFileClose, manager)]
  refine ⟨{ wire with manager, exchanges }, ?_, rfl, ⟨writer', ?_, stored⟩, ?_⟩
  · simp only [Wire.getMessageResult, Manager.onMessage, Manager.callUpdateUploadFileClose, Manager.callWriter,
      registered, closed, manager, exchanges]
  · simp [Wire.writer, manager, Manager.setWriter]
  · have before : ∀ exchange ∈ wire.exchanges, (!exchange.1.isClose) = true := by
      rintro ⟨request, manager⟩ member
      have writes := (sent.exchanges _ member).1
      cases request <;> first | rfl | cases writes
    exact (List.takeWhile_append_of_pos before).trans (List.append_nil _)

theorem Writer.remoteUtime_two (writer : Writer τ) (first second : Argument τ) :
    ∃ why, writer.remoteUtime [first, second] = .error why := by
  cases writer <;> simp [remoteUtime, FileWriter.remoteUtime, Except.map]

/-- The times never arrive: the call the master makes is not one the writer's method takes. -/
theorem Wire.getMessageResult_utime (wire : Wire τ) (accessTime modifiedTime : Option τ) :
    ∃ why, (wire.getMessageResult (.updateUploadFileUtime accessTime modifiedTime)).1 = .error why := by
  simp only [Wire.getMessageResult, Manager.onMessage, Manager.callUpdateUploadFileUtime, Manager.callWriter]
  cases wire.manager.commandIdToWriterMap wire.commandId with
  | none => exact ⟨_, rfl⟩
  | some writer =>
    obtain ⟨why, raised⟩ := writer.remoteUtime_two (.str "access_time") (.str "modified_time")
    refine ⟨why, ?_⟩
    simp only [raised]

variable {path : String} {blocksize : Nat} {keepstamp : Bool} {source : Source τ}

theorem closeOk_keepstamp (source : Option (Source τ)) (wire : Wire τ) (keeps : command.keepstamp = true) :
    (command.closeOk source wire).1 ≠ none := by
  unfold closeOk
  split
  · simp
  · rename_i wire' _
    rw [if_pos keeps]
    obtain ⟨why, raised⟩ :=
      wire'.getMessageResult_utime (source.map (·.accessTime)) (source.map (·.modifiedTime))
    split
    · simp
    · rename_i answered
      rw [answered] at raised
      cases raised

theorem outcome_eq (path : String) (maxsize : Option Nat) (content : List UInt8) :
    outcome path maxsize content =
      if ∃ most, maxsize = some most ∧ most ≤ content.length then finished 1 (some (truncating path))
      else finished 0 none := by
  unfold outcome
  congr 1
  cases maxsize with
  | none => simp
  | some most =>
    simp only [limited_some, List.length_take, Option.some.injEq, exists_eq_left', eq_iff_iff]
    omega

/-- The end tells a whole file from a truncated one, except that it calls truncated a file of `maxsize` exactly. -/
theorem outcome_iff {failure : Option PyException} :
    (((⟨outcome path maxsize content, failure⟩ : Ended) = .whole ↔ Fits maxsize content) ∧
      ((⟨outcome path maxsize content, failure⟩ : Ended) = .truncated path ↔ ¬ Fits maxsize content)) ↔
    failure = none ∧ maxsize ≠ some content.length := by
  rw [outcome_eq]
  cases maxsize with
  | none => simp [Fits, Ended.whole, Ended.truncated, finished]
  | some most =>
    by_cases reached : most ≤ content.length
    · have fits : ¬ Fits (some most) content ↔ most ≠ content.length := by
        simp only [Fits, Option.some.injEq, forall_eq']
        omega
      simp only [Option.some.injEq, exists_eq_left', reached, if_true, fits]
      simp only [Ended.whole, Ended.truncated, finished, Ended.mk.injEq, true_and, ne_eq, Option.some.injEq]
      constructor
      · rintro ⟨whole, truncated⟩
        by_cases same : most = content.length
        · have all : Fits (some most) content := by simp [Fits, same]
          simpa using (whole.mpr all).1
        · exact ⟨truncated.mpr same, same⟩
      · rintro ⟨none, differ⟩
        refine ⟨?_, by simp [none, differ]⟩
        simp [fits.mpr differ]
    · have fits : Fits (some most) content := by
        simp only [Fits, Option.some.injEq, forall_eq']
        omega
      have differ : most ≠ content.length := by omega
      simp [Ended.whole, Ended.truncated, finished, reached, fits, differ]

theorem reading_start (path : String) (maxsize : Option Nat) (blocksize : Nat) (keepstamp : Bool) (source : Source τ) :
    Reading source.content (setup path maxsize blocksize keepstamp) 0
      ((setup path maxsize blocksize keepstamp).openFile (some source)) := by
  refine ⟨?_, Nat.zero_le _, fun _ _ => Nat.zero_le _⟩
  cases maxsize <;> rfl

theorem sent_start (receiver : Receiver τ) (registered : wire.writer = some (receiver.writer maxsize))
    (fresh : wire.exchanges = []) : Sent receiver maxsize content 0 wire := by
  refine ⟨⟨_, registered, receiver.writer_holding maxsize⟩, ?_⟩
  rw [fresh]
  exact fun _ member => nomatch member

/-- A block that cannot be written ends the command with a failure. -/
theorem start_refused (receiver : Receiver τ) (registered : wire.writer = some (receiver.writer maxsize))
    (fresh : wire.exchanges = []) (positive : 0 < blocksize)
    (refuses : ¬ Writable receiver blocksize (limited maxsize source.content)) :
    ((setup path maxsize blocksize keepstamp).start (some source) wire).1.failure ≠ none := by
  obtain ⟨failure, command, wire', looped, result⟩ :=
    (reading_start path maxsize blocksize keepstamp source).loop positive rfl ⟨rfl, rfl⟩ (sent_start receiver registered fresh)
  obtain ⟨why, rfl⟩ := Option.isSome_iff_exists.mp (result.failed refuses)
  rw [start, looped]
  exact nofun

/-- Where every block can be written, the command ends as the loop and the closing messages leave it. -/
theorem start_written (receiver : Receiver τ) (registered : wire.writer = some (receiver.writer maxsize))
    (fresh : wire.exchanges = []) (positive : 0 < blocksize)
    (writable : Writable receiver blocksize (limited maxsize source.content)) :
    ∃ (command : WorkerFileUploadCommand) (wire' : Wire τ), command.keepstamp = keepstamp ∧
      Sent receiver maxsize source.content (limited maxsize source.content).length wire' ∧
      (setup path maxsize blocksize keepstamp).start (some source) wire =
        (⟨outcome path maxsize source.content, (command.closeOk (some source) wire').1⟩,
          (command.closeOk (some source) wire').2) := by
  obtain ⟨failure, command, wire', looped, result⟩ :=
    (reading_start path maxsize blocksize keepstamp source).loop positive rfl ⟨rfl, rfl⟩ (sent_start receiver registered fresh)
  obtain ⟨rfl, sent⟩ := result.sent writable
  have updates := result.updates writable
  refine ⟨command, wire', result.keepstamp, sent, ?_⟩
  rw [start, looped]
  simp only [updates]
  rfl

theorem uploaded_iff_of_closed {command : WorkerFileUploadCommand} (off : command.keepstamp = false)
    (sent : Sent receiver maxsize source.content (limited maxsize source.content).length wire) :
    Uploaded receiver path maxsize false source
        ⟨outcome path maxsize source.content, (command.closeOk (some source) wire).1⟩
        (command.closeOk (some source) wire).2 ↔
      maxsize ≠ some source.content.length := by
  obtain ⟨wire', closed, same, stored, exchanges⟩ := sent.close
  have ends : command.closeOk (some source) wire = (none, wire') := by
    simp only [closeOk, closed, off]
    rfl
  have told := @outcome_iff maxsize source.content path none
  simp only [ends]
  constructor
  · intro uploaded
    exact (told.mp ⟨uploaded.whole, uploaded.truncated⟩).2
  · intro differ
    obtain ⟨whole, truncated⟩ := told.mpr ⟨rfl, differ⟩
    refine ⟨?_, ?_, whole, truncated⟩
    · simpa [take_limited] using stored
    · rw [exchanges, same]
      intro exchange member
      exact (sent.exchanges exchange member).2

/-- An upload delivers the file when the times are not to be kept, `maxsize` is not the very length of the file, and
every block can be written as it comes. -/
theorem upload_delivers_iff (receiver : Receiver τ) (maxsize : Option Nat) (wire : Wire τ)
    (registered : wire.writer = some (receiver.writer maxsize)) (fresh : wire.exchanges = []) (path : String)
    (blocksize : Nat) (positive : 0 < blocksize) (keepstamp : Bool) (source : Source τ) :
    Uploaded receiver path maxsize keepstamp source
        ((setup path maxsize blocksize keepstamp).start (some source) wire).1
        ((setup path maxsize blocksize keepstamp).start (some source) wire).2 ↔
      keepstamp = false ∧ maxsize ≠ some source.content.length ∧
        Writable receiver blocksize (limited maxsize source.content) := by
  by_cases writable : Writable receiver blocksize (limited maxsize source.content)
  · obtain ⟨command, wire', keeps, sent, ends⟩ := start_written receiver registered fresh positive writable
    rw [ends]
    cases keepstamp with
    | true =>
      constructor
      · intro uploaded
        exact absurd uploaded.failure_eq (closeOk_keepstamp (some source) wire' keeps)
      · rintro ⟨off, _⟩
        cases off
    | false =>
      rw [uploaded_iff_of_closed keeps sent]
      simp [writable]
  · constructor
    · intro uploaded
      exact absurd uploaded.failure_eq (start_refused receiver registered fresh positive writable)
    · rintro ⟨_, _, holds⟩
      exact absurd holds writable

/-- A master that is to receive a file from its command 0. -/
def receiving (receiver : Receiver Nat) (maxsize : Option Nat) : Wire Nat where
  manager := ⟨fun commandId => if commandId = 0 then some (receiver.writer maxsize) else none, fun _ => none⟩
  commandId := 0
  exchanges := []

theorem bytes_delivered :
    Uploaded .string "from" (some 2) false ⟨[65, 66, 67], 0, 0⟩
        ((setup "from" (some 2) 2 false).start (some ⟨[65, 66, 67], 0, 0⟩) (receiving .string (some 2))).1
        ((setup "from" (some 2) 2 false).start (some ⟨[65, 66, 67], 0, 0⟩) (receiving .string (some 2))).2 ↔
      false = false ∧ some 2 ≠ some [65, 66, 67].length ∧
        Writable (.string : Receiver Nat) 2 (limited (some 2) [65, 66, 67]) :=
  upload_delivers_iff .string (some 2) (receiving .string (some 2)) rfl rfl "from" 2 (by decide) false ⟨[65, 66, 67], 0, 0⟩

/-- A character of two bytes is not delivered in blocks of one. -/
theorem split_character_not_delivered :
    ¬ Uploaded .string "from" none false ⟨utf8 "é".toList, 0, 0⟩
        ((setup "from" none 1 false).start (some ⟨utf8 "é".toList, 0, 0⟩) (receiving .string none)).1
        ((setup "from" none 1 false).start (some ⟨utf8 "é".toList, 0, 0⟩) (receiving .string none)).2 := by
  have two : utf8 "é".toList = [195, 169] := by decide
  have refuses : ¬ Writable (.string : Receiver Nat) 1 (limited none (utf8 "é".toList)) := by
    intro writable
    have first : [195] ∈ blocks 1 [(195 : UInt8), 169] := by
      rw [blocks_eq_cons Nat.one_pos (by simp)]
      exact List.mem_cons_self
    have takes := writable [195] (by rw [limited_none, two]; exact first)
    simp only [Receiver.Takes] at takes
    revert takes
    decide +kernel
  intro uploaded
  exact start_refused .string rfl rfl Nat.one_pos refuses uploaded.failure_eq

end Umbilical.Transfer
