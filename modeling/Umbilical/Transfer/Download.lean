import Umbilical.Transfer.Manager

set_option autoImplicit false

/-!
# Downloading a file

`WorkerFileDownloadCommand` together with the master it reads from.
-/

namespace Umbilical.Transfer

variable {τ : Type}

structure WorkerFileDownloadCommand where
  path : String
  bytesRemaining : Option Nat
  blocksize : Nat
  stderr : Option String
  rc : Nat
  /-- What the file at `path` holds, while it is open. -/
  fp : Option (List UInt8)
  interrupted : Bool

namespace WorkerFileDownloadCommand

def setup (path : String) (maxsize : Option Nat) (blocksize : Nat) : WorkerFileDownloadCommand where
  path := path
  bytesRemaining := maxsize
  blocksize := blocksize
  stderr := none
  rc := 0
  fp := none
  interrupted := false

def truncate (command : WorkerFileDownloadCommand) : WorkerFileDownloadCommand :=
  match command.stderr with
  | none => { command with stderr := some (truncating command.path), rc := 1 }
  | some _ => command

/-- Whether the loop is over. `None` counts as no data, as the end of the file does. -/
def writeData (command : WorkerFileDownloadCommand) (data : Option (List UInt8)) :
    Except PyException Bool × WorkerFileDownloadCommand :=
  match data with
  | none | some [] => (.ok true, command)
  | some data =>
    match command.bytesRemaining with
    | none => (.ok false, { command with fp := command.fp.map (· ++ data) })
    | some remaining =>
      let command := { command with bytesRemaining := some (remaining - data.length) }
      if data.length ≤ remaining then (.ok false, { command with fp := command.fp.map (· ++ data) })
      else (.error .assertionError, command)

def readBlock (command : WorkerFileDownloadCommand) (wire : Wire τ) :
    Except PyException Bool × WorkerFileDownloadCommand × Wire τ :=
  if command.interrupted ∨ command.fp = none then (.ok true, command, wire)
  else
    let length := allowed command.blocksize command.bytesRemaining
    if length = 0 then (.ok true, command.truncate, wire)
    else
      match wire.getMessageResult (.updateReadFile length) with
      | (.error why, wire) => (.error why, command, wire)
      | (.ok data, wire) =>
        let (done, command) := command.writeData data
        (done, command, wire)

/-- The loop, for so many blocks at most. What is sent in answer to a read may keep it going for ever. -/
def loop : Nat → WorkerFileDownloadCommand → Wire τ →
    Option (Option PyException × WorkerFileDownloadCommand × Wire τ)
  | 0, _, _ => none
  | fuel + 1, command, wire =>
    match command.readBlock wire with
    | (.ok true, command, wire) => some (none, command, wire)
    | (.ok false, command, wire) => loop fuel command wire
    | (.error why, command, wire) => some (some why, command, wire)

def openFile (command : WorkerFileDownloadCommand) (opens : Bool) : WorkerFileDownloadCommand :=
  if opens then { command with fp := some [] }
  else
    let path := command.path
    { command with stderr := some s!"Cannot open file '{path}' for download", rc := 1 }

/-- The end of the command, what the file holds then, and the connection. -/
def start (command : WorkerFileDownloadCommand) (opens : Bool) (wire : Wire τ) (fuel : Nat) :
    Option (Ended × Option (List UInt8) × Wire τ) :=
  (loop fuel (command.openFile opens) wire).map fun (failure, command, wire) =>
    -- An error of the reader's `close` is logged; that of the loop is passed on.
    let (_, wire) := wire.getMessageResult .updateReadFileClose
    (⟨finished command.rc command.stderr, failure⟩, command.fp, wire)

end WorkerFileDownloadCommand

open WorkerFileDownloadCommand

/-- The file on the worker is the source up to `maxsize`, and the end of the command says which of the two it is. -/
structure Downloaded (path : String) (maxsize : Option Nat) (source : List UInt8) (ended : Ended)
    (file : Option (List UInt8)) : Prop where
  content : file = some (limited maxsize source)
  whole : ended = .whole ↔ Fits maxsize source
  truncated : ended = .truncated path ↔ ¬ Fits maxsize source

variable {wire : Wire τ} {command : WorkerFileDownloadCommand} {written : List UInt8}

theorem loop_none_allowed (running : command.interrupted = false) (opened : command.fp = some written)
    (nothing : allowed command.blocksize command.bytesRemaining = 0) (fuel : Nat) :
    loop (fuel + 1) command wire = some (none, command.truncate, wire) := by
  simp [loop, readBlock, running, opened, nothing]

/-- The first answer ends the loop, whatever the reader has read. -/
theorem loop_read {reader : FileReader} (registered : wire.manager.commandIdToReaderMap wire.commandId = some reader)
    (running : command.interrupted = false) (opened : command.fp = some written)
    (something : allowed command.blocksize command.bytesRemaining ≠ 0) (fuel : Nat) :
    ∃ wire', loop (fuel + 1) command wire = some (none, command, wire') := by
  let request : Request τ := .updateReadFile (allowed command.blocksize command.bytesRemaining)
  have answered : wire.getMessageResult request = (.ok none, (wire.getMessageResult request).2) := by
    simp [Wire.getMessageResult, Manager.onMessage, Manager.callUpdateReadFile, Manager.callReader, registered, request]
  refine ⟨(wire.getMessageResult request).2, ?_⟩
  have goes : ¬ (command.interrupted = true ∨ command.fp = none) := by simp [running, opened]
  rw [loop, readBlock, if_neg goes]
  simp only [something, if_false]
  rw [answered]
  rfl

/-- What a download comes to: an empty file, said to be truncated if nothing was to be transferred. -/
theorem start_eq {reader : FileReader} (registered : wire.manager.commandIdToReaderMap wire.commandId = some reader)
    (path : String) {blocksize : Nat} (positive : 0 < blocksize) (maxsize : Option Nat) (fuel : Nat) :
    ∃ wire', (setup path maxsize blocksize).start true wire (fuel + 1) =
      some (if maxsize = some 0 then .truncated path else .whole, some [], wire') := by
  let command := (setup path maxsize blocksize).openFile true
  by_cases nothing : maxsize = some 0
  · have looped : loop (fuel + 1) command wire = some (none, command.truncate, wire) := by
      have opened : command.fp = some [] := rfl
      apply loop_none_allowed rfl opened
      exact (allowed_eq_zero positive).mpr nothing
    refine ⟨(wire.getMessageResult .updateReadFileClose).2, ?_⟩
    rw [start, looped, if_pos nothing]
    rfl
  · obtain ⟨wire', looped⟩ : ∃ wire', loop (fuel + 1) command wire = some (none, command, wire') := by
      have opened : command.fp = some [] := rfl
      apply loop_read registered rfl opened
      exact mt (allowed_eq_zero positive).mp nothing
    refine ⟨(wire'.getMessageResult .updateReadFileClose).2, ?_⟩
    rw [start, looped, if_neg nothing]
    rfl

theorem downloaded_iff {path : String} {maxsize : Option Nat} {source : List UInt8} :
    Downloaded path maxsize source (if maxsize = some 0 then .truncated path else .whole) (some []) ↔
      (source = [] ↔ maxsize ≠ some 0) := by
  by_cases nothing : maxsize = some 0
  · subst nothing
    have fits : Fits (some 0) source ↔ source = [] := by simp [Fits]
    rw [if_pos rfl]
    constructor
    · intro downloaded
      have long := downloaded.truncated.mp rfl
      simpa [fits] using long
    · intro exactly
      have long : ¬ Fits (some 0) source := by simpa [fits] using exactly
      refine ⟨by simp, ?_, by simp [long]⟩
      simp [long, (Ended.whole_ne_truncated path).symm]
  · rw [if_neg nothing]
    constructor
    · intro downloaded
      have empty : limited maxsize source = [] := (Option.some.inj downloaded.content).symm
      have all := limited_eq_self_iff.mpr (downloaded.whole.mp rfl)
      have none : source = [] := all.symm.trans empty
      simp [nothing, none]
    · intro exactly
      obtain rfl := exactly.mpr nothing
      have fits : Fits maxsize [] := by simp [Fits]
      refine ⟨by simp, by simp [fits], ?_⟩
      simp [fits, Ended.whole_ne_truncated]

/-- A download delivers the file when nothing was to be transferred: when one of the source and `maxsize` is empty,
and the other is not. -/
theorem download_delivers_iff (wire : Wire τ) (source : List UInt8)
    (registered : wire.manager.commandIdToReaderMap wire.commandId = some ⟨some source⟩)
    (path : String) (blocksize : Nat) (positive : 0 < blocksize) (maxsize : Option Nat) :
    ∃ ended file,
      (∀ fuel, ∃ wire', (setup path maxsize blocksize).start true wire (fuel + 1) = some (ended, file, wire')) ∧
      (Downloaded path maxsize source ended file ↔ (source = [] ↔ maxsize ≠ some 0)) :=
  ⟨_, _, start_eq registered path positive maxsize, downloaded_iff⟩

/-- A master that is to send a file to its command 0. -/
def reading (source : List UInt8) : Wire Nat where
  manager := ⟨fun _ => none, fun commandId => if commandId = 0 then some ⟨some source⟩ else none⟩
  commandId := 0
  exchanges := []

theorem empty_download_delivers :
    ∃ ended file,
      (∀ fuel, ∃ wire', (setup "to" (some 2) 1).start true (reading []) (fuel + 1) = some (ended, file, wire')) ∧
      (Downloaded "to" (some 2) [] ended file ↔ (([] : List UInt8) = [] ↔ some 2 ≠ some 0)) :=
  download_delivers_iff (reading []) [] rfl "to" 1 (by decide) (some 2)

/-- Of a file of one byte nothing arrives, and the command ends as if all had. -/
theorem byte_not_downloaded :
    (∀ fuel, ∃ wire', (setup "to" none 1).start true (reading [65]) (fuel + 1) = some (.whole, some [], wire')) ∧
      ¬ Downloaded "to" none [65] .whole (some []) := by
  have registered : (reading [65]).manager.commandIdToReaderMap 0 = some ⟨some [65]⟩ := rfl
  refine ⟨start_eq registered "to" Nat.one_pos none, fun downloaded => ?_⟩
  cases downloaded.content

end Umbilical.Transfer
