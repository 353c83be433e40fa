import Umbilical.Python.Text
import Umbilical.Shared.Blocks
import Mathlib.Logic.Function.Basic

set_option autoImplicit false

/-!
# The master's end of a file transfer

The messages a worker sends while it transfers a file over the msgpack protocol, the file
objects of the master they are for, and what the master answers. `τ` is what a file system
has for a time.
-/

namespace Umbilical.Transfer

open Python

/-- An exception the master answers with, which it sends as `str(e)`. -/
inductive PyException where
  | keyError (text : String)
  | typeError (text : String)
  | attributeError (text : String)
  | fileNotFoundError
  | assertionError
  | unicodeDecodeError (block : List UInt8)
  deriving DecidableEq

structure File (τ : Type) where
  content : List UInt8
  /-- Access and modification time, where `os.utime` has set them. -/
  times : Option (τ × τ)
  mode : Option Nat
  deriving DecidableEq

/-- A positional argument of `remote_utime`. -/
inductive Argument (τ : Type) where
  | str (text : String)
  | tuple (accessed modified : τ)

structure FileWriter (τ : Type) where
  destfile : Option (File τ)
  mode : Option Nat
  /-- What the temporary file holds, while it is open. -/
  fp : Option (List UInt8)
  remaining : Option Nat

structure StringFileWriter where
  buffer : Text

inductive Writer (τ : Type) where
  | file (writer : FileWriter τ)
  | string (writer : StringFileWriter)

structure FileReader where
  fp : Option (List UInt8)

variable {τ : Type}

namespace FileWriter

def new (destfile : Option (File τ)) (maxsize mode : Option Nat) : FileWriter τ where
  destfile := destfile
  mode := mode
  fp := some []
  remaining := maxsize

def remoteWrite (writer : FileWriter τ) (data : List UInt8) : Except PyException (FileWriter τ) :=
  match writer.fp with
  | none => .error (.attributeError "'NoneType' object has no attribute 'write'")
  | some written =>
    match writer.remaining with
    | some remaining =>
      let data := if data.length > remaining then data.take remaining else data
      .ok { writer with fp := some (written ++ data), remaining := some (remaining - data.length) }
    | none => .ok { writer with fp := some (written ++ data) }

def remoteUtime (writer : FileWriter τ) (arguments : List (Argument τ)) : Except PyException (FileWriter τ) :=
  match arguments with
  | [.tuple accessed modified] =>
    match writer.destfile with
    | some file => .ok { writer with destfile := some { file with times := some (accessed, modified) } }
    | none => .error .fileNotFoundError
  | [.str _] => .error (.typeError "utime: 'times' must be either a tuple of two ints or None")
  | _ =>
    -- The method itself is one of the arguments Python counts.
    let given := arguments.length + 1
    .error (.typeError s!"FileWriter.remote_utime() takes 2 positional arguments but {given} were given")

def remoteClose (writer : FileWriter τ) : Except PyException (FileWriter τ) :=
  match writer.fp with
  | none => .error (.attributeError "'NoneType' object has no attribute 'close'")
  | some written =>
    -- `destfile` is unlinked, the temporary file takes its name, and its mode is changed.
    .ok { writer with fp := none, destfile := some ⟨written, none, writer.mode⟩ }

end FileWriter

namespace StringFileWriter

def new : StringFileWriter := ⟨[]⟩

def remoteWrite (writer : StringFileWriter) (data : List UInt8) : Except PyException StringFileWriter :=
  match decodeUtf8 data with
  | some text => .ok ⟨writer.buffer ++ text⟩
  | none => .error (.unicodeDecodeError data)

def remoteClose (writer : StringFileWriter) : Except PyException StringFileWriter := .ok writer

end StringFileWriter

namespace Writer

def remoteWrite (writer : Writer τ) (data : List UInt8) : Except PyException (Writer τ) :=
  match writer with
  | .file writer => (writer.remoteWrite data).map .file
  | .string writer => (writer.remoteWrite data).map .string

def remoteUtime (writer : Writer τ) (arguments : List (Argument τ)) : Except PyException (Writer τ) :=
  match writer with
  | .file writer => (writer.remoteUtime arguments).map .file
  | .string _ =>
    -- The base class has the method, with the same two parameters, to raise `NotImplementedError`.
    let given := arguments.length + 1
    .error (.typeError s!"FileWriterImpl.remote_utime() takes 2 positional arguments but {given} were given")

def remoteClose (writer : Writer τ) : Except PyException (Writer τ) :=
  match writer with
  | .file writer => writer.remoteClose.map .file
  | .string writer => writer.remoteClose.map .string

def destfile : Writer τ → Option (File τ)
  | .file writer => writer.destfile
  | .string _ => none

/-- The bytes the master has of the upload. -/
def received : Writer τ → List UInt8
  | .file writer =>
    match writer.fp, writer.destfile with
    | some written, _ => written
    | none, some placed => placed.content
    | none, none => []
  | .string writer => utf8 writer.buffer

end Writer

namespace FileReader

def remoteRead (reader : FileReader) (maxlength : Nat) : List UInt8 × FileReader :=
  match reader.fp with
  | none => ([], reader)
  | some rest => (rest.take maxlength, ⟨some (rest.drop maxlength)⟩)

def remoteClose (_ : FileReader) : FileReader := ⟨none⟩

/-- A `StringFileReader` is a `FileReader` over the bytes of its string. -/
def ofString (text : Text) : FileReader := ⟨some (utf8 text)⟩

end FileReader

/-- What a worker asks while a file is transferred. -/
inductive Request (τ : Type) where
  | updateUploadFileWrite (args : List UInt8)
  | updateUploadFileUtime (accessTime modifiedTime : Option τ)
  | updateUploadFileClose
  | updateReadFile (length : Nat)
  | updateReadFileClose

/-- The `result` of a response, or the exception that stands for `is_exception`. -/
abbrev Response := Except PyException (Option (List UInt8))

structure Manager (τ : Type) where
  commandIdToWriterMap : Nat → Option (Writer τ)
  commandIdToReaderMap : Nat → Option FileReader

namespace Manager

def setWriter (manager : Manager τ) (commandId : Nat) (writer : Writer τ) : Manager τ :=
  { manager with commandIdToWriterMap := Function.update manager.commandIdToWriterMap commandId (some writer) }

def setReader (manager : Manager τ) (commandId : Nat) (reader : FileReader) : Manager τ :=
  { manager with commandIdToReaderMap := Function.update manager.commandIdToReaderMap commandId (some reader) }

/-- A handler that calls a method of the command's file writer and answers `None`. -/
def callWriter (call : Writer τ → Except PyException (Writer τ)) (manager : Manager τ) (commandId : Nat) :
    Response × Manager τ :=
  match manager.commandIdToWriterMap commandId with
  | none => (.error (.keyError "unknown \"command_id\""), manager)
  | some writer =>
    match call writer with
    | .error raised => (.error raised, manager)
    | .ok writer => (.ok none, manager.setWriter commandId writer)

def callUpdateUploadFileWrite (args : List UInt8) : Manager τ → Nat → Response × Manager τ :=
  callWriter (·.remoteWrite args)

def callUpdateUploadFileUtime (_accessTime _modifiedTime : Option τ) : Manager τ → Nat → Response × Manager τ :=
  -- The names of the keys are passed, in two arguments.
  callWriter (·.remoteUtime [.str "access_time", .str "modified_time"])

def callUpdateUploadFileClose : Manager τ → Nat → Response × Manager τ :=
  callWriter (·.remoteClose)

/-- A handler that calls a method of the command's file reader. The `result` it sends is `None` from beginning to end:
neither handler assigns to it what the method returns. -/
def callReader (call : FileReader → FileReader) (manager : Manager τ) (commandId : Nat) : Response × Manager τ :=
  match manager.commandIdToReaderMap commandId with
  | none => (.error (.keyError "unknown \"command_id\""), manager)
  | some reader => (.ok none, manager.setReader commandId (call reader))

def callUpdateReadFile (length : Nat) : Manager τ → Nat → Response × Manager τ :=
  callReader fun reader => (reader.remoteRead length).2

def callUpdateReadFileClose : Manager τ → Nat → Response × Manager τ :=
  callReader (·.remoteClose)

def onMessage (manager : Manager τ) (commandId : Nat) : Request τ → Response × Manager τ
  | .updateUploadFileWrite args => manager.callUpdateUploadFileWrite args commandId
  | .updateUploadFileUtime accessTime modifiedTime =>
    manager.callUpdateUploadFileUtime accessTime modifiedTime commandId
  | .updateUploadFileClose => manager.callUpdateUploadFileClose commandId
  | .updateReadFile length => manager.callUpdateReadFile length commandId
  | .updateReadFileClose => manager.callUpdateReadFileClose commandId

end Manager

/-- The connection as a command on the worker sees it: each request is answered before the next is made. -/
structure Wire (τ : Type) where
  manager : Manager τ
  commandId : Nat
  /-- The requests so far, each with the master as it was after it. -/
  exchanges : List (Request τ × Manager τ)

namespace Wire

def getMessageResult (wire : Wire τ) (request : Request τ) : Response × Wire τ :=
  let (response, manager) := wire.manager.onMessage wire.commandId request
  (response, { wire with manager, exchanges := wire.exchanges ++ [(request, manager)] })

def writer (wire : Wire τ) : Option (Writer τ) := wire.manager.commandIdToWriterMap wire.commandId

end Wire

/-- The text of `stderr` after a transfer that came to `maxsize`. -/
def truncating (path : String) : String := s!"Maximum filesize reached, truncating file '{path}'"

/-- What a transfer command sends when it ends. -/
inductive Update where
  | rc (code : Nat)
  | stderr (text : String)
  deriving DecidableEq

def finished (rc : Nat) (stderr : Option String) : List Update :=
  match stderr with
  | none => [.rc rc]
  | some text => [.rc rc, .stderr text]

/-- The end of a transfer command: the updates of `finished`, and the failure that `complete` carries. -/
structure Ended where
  updates : List Update
  failure : Option PyException
  deriving DecidableEq

/-- With `rc` 0 and no `stderr`. -/
def Ended.whole : Ended := ⟨finished 0 none, none⟩

/-- With `rc` 1 and the truncation message. -/
def Ended.truncated (path : String) : Ended := ⟨finished 1 (some (truncating path)), none⟩

theorem Ended.whole_ne_truncated (path : String) : Ended.whole ≠ .truncated path := by
  simp [whole, truncated, finished]

/-- The content is no longer than `maxsize`. -/
def Fits (maxsize : Option Nat) (content : List UInt8) : Prop :=
  ∀ most, maxsize = some most → content.length ≤ most

end Umbilical.Transfer
