import SqlEngine.Library.Program
import SqlEngine.Library.ByteCodec

/-! One directory of regular files under POSIX calls and buffered C streams.

A file remembers the contents it had since its last `fsync`, a directory entry what its
name stood for since the directory was last synced. A crash keeps, for every name, one
of these meanings, and for every file, byte by byte, one of these contents. A file is
known by its name here: a stream stays on the name it was opened under. -/
namespace SqlEngine.Library

inductive Errno where
  | enoent
  | eexist
  | eacces
  | erofs
  | einval
  | enotsup
  | enametoolong
  | eio
  deriving DecidableEq, Repr

/-- The largest offset of a file, that of a signed 64-bit `off_t` and `long`. -/
def maxFileSize : Nat := 2 ^ 63 - 1

abbrev Path := List UInt8

/-- A regular file: what a read returns, and the contents since the last `fsync`. -/
structure File where
  bytes : List UInt8
  older : List (List UInt8)
  fits : bytes.length ≤ maxFileSize
  deriving DecidableEq

/-- A name of the directory: what it stands for, and what it stood for since the
directory was last synced. -/
structure Entry where
  now : Option File
  before : List (Option File)
  deriving DecidableEq

/-- An open file: its name, the offset of the next access, and the bytes that were
written to the stream and not passed on. -/
structure Stream where
  path : Path
  position : Nat
  pending : List UInt8
  deriving DecidableEq

structure World where
  entries : Path → Entry
  streams : Nat → Option Stream
  next : Nat
  output : List UInt8

/-- The calls. A descriptor and the stream that is made of it share their number. -/
inductive Call where
  | access (path : Path)
  | openFile (path : Path) (create : Bool)
  | mkstemp (template : Path)
  | fchmod (handle : Nat)
  | fdopen (handle : Nat)
  | close (handle : Nat)
  | read (handle count : Nat)
  | fopen (path : Path)
  | fseek (handle : Nat) (target : Option Nat)
  | ftell (handle : Nat)
  | fread (handle count : Nat)
  | fwrite (handle : Nat) (data : List UInt8)
  | fflush (handle : Nat)
  | fsync (handle : Nat)
  | ftruncate (handle length : Nat)
  | fclose (handle : Nat)
  | unlink (path : Path)
  | rename (source target : Path)
  | openDirectory (path : Path)
  | fsyncDirectory
  | closeDirectory
  | allocate
  | print (data : List UInt8)

/-- What a call returns; `fread` returns the bytes it got. -/
@[reducible] def Answer : Call → Type
  | .openFile _ _ | .fopen _ | .ftell _ => Except Errno Nat
  | .mkstemp _ => Except Errno (Nat × Path)
  | .read _ _ => Except Errno (List UInt8)
  | .fread _ _ => List UInt8
  | .allocate => Bool
  | .print _ => Unit
  | _ => Except Errno Unit

/-- How a call turns out. A failing call that passes on buffered bytes passes on the
first `written` of them and keeps the next `kept`. The suffix names a temporary file. -/
structure Choice where
  error : Option Errno := none
  written : Nat := 0
  kept : Nat := 0
  suffix : List UInt8 := []
  deriving DecidableEq

namespace World

/-- An empty directory, and no open file. -/
def empty : World :=
  { entries := fun _ => { now := none, before := [] }, streams := fun _ => none, next := 0,
    output := [] }

/-- The file a name stands for. -/
def file (w : World) (path : Path) : Option File := (w.entries path).now

def setEntry (w : World) (path : Path) (entry : Entry) : World :=
  { w with entries := fun p => if p = path then entry else w.entries p }

/-- The content of a file changes; its name still stands for it. -/
def setFile (w : World) (path : Path) (file : File) : World :=
  w.setEntry path { (w.entries path) with now := some file }

/-- A name comes to stand for something else. -/
def rebind (w : World) (path : Path) (now : Option File) : World :=
  w.setEntry path { now, before := (w.entries path).now :: (w.entries path).before }

def setStream (w : World) (handle : Nat) (stream : Option Stream) : World :=
  { w with streams := fun h => if h = handle then stream else w.streams h }

/-- A new handle on a name. -/
def opened (w : World) (path : Path) : World :=
  { w.setStream w.next (some { path, position := 0, pending := [] }) with next := w.next + 1 }

/-- Bytes reach a file at an offset. -/
def write (w : World) (path : Path) (offset : Nat) (data : List UInt8) : World :=
  match w.file path with
  | none => w
  | some file =>
    if data = [] then w
    else if fits : (patch file.bytes offset data).length ≤ maxFileSize then
      w.setFile path
        { bytes := patch file.bytes offset data, older := file.older ++ [file.bytes], fits }
    else w

/-- A stream passes on the first `written` of some bytes and keeps the next `kept`. -/
def passOn (w : World) (handle : Nat) (stream : Stream) (data : List UInt8)
    (written kept : Nat) : World :=
  (w.write stream.path stream.position (data.take written)).setStream handle
    (some { stream with
      position := stream.position + (data.take written).length
      pending := (data.drop written).take kept })

/-- The bytes behind an offset fit in a file. -/
def Roomy (offset : Nat) (data : List UInt8) : Prop :=
  data = [] ∨ offset + data.length ≤ maxFileSize

instance : Decidable (Roomy offset data) := inferInstanceAs (Decidable (_ ∨ _))

/-- A stream passes all its buffered bytes on, or fails because no file is that large. -/
def flush (w : World) (handle : Nat) (stream : Stream) : Except Errno Unit × World :=
  if Roomy stream.position stream.pending then
    (.ok (), w.passOn handle stream stream.pending stream.pending.length 0)
  else (.error .eio, w)

/-- The content of a file after the last `fsync` becomes durable. -/
def syncFile (w : World) (path : Path) : World :=
  match w.file path with
  | none => w
  | some file => w.setFile path { file with older := [] }

/-- What every name stands for becomes durable. -/
def syncDirectory (w : World) : World :=
  { w with entries := fun p => { (w.entries p) with before := [] } }

end World

open World

/-- A call on an open handle. -/
def onStream (w : World) (handle : Nat) (bad : α) (act : Stream → α × World) : α × World :=
  match w.streams handle with
  | none => (bad, w)
  | some stream => act stream

/-- What a call does under a choice, if it does not fail. -/
def succeed (w : World) (choice : Choice) : (call : Call) → Answer call × World
  | .access path => (if (w.file path).isSome then .ok () else .error .enoent, w)
  | .openFile path create =>
    if create then
      if (w.file path).isSome then (.error .eexist, w)
      else (.ok w.next,
        (w.rebind path (some { bytes := [], older := [], fits := Nat.zero_le _ })).opened path)
    else if (w.file path).isSome then (.ok w.next, w.opened path)
    else (.error .enoent, w)
  | .mkstemp template =>
    let path := template.take (template.length - 6) ++ choice.suffix
    (.ok (w.next, path),
      (w.rebind path (some { bytes := [], older := [], fits := Nat.zero_le _ })).opened path)
  | .fchmod _ => (.ok (), w)
  | .fdopen _ => (.ok (), w)
  | .close handle => (.ok (), w.setStream handle none)
  | .read handle count =>
    onStream w handle (.error .eio) fun stream =>
      match w.file stream.path with
      | none => (.error .eio, w)
      | some file =>
        let data := slice file.bytes stream.position count
        (.ok data, w.setStream handle
          (some { stream with position := stream.position + data.length }))
  | .fopen path => if (w.file path).isSome then (.ok w.next, w.opened path) else (.error .enoent, w)
  | .fseek handle target =>
    onStream w handle (.error .eio) fun stream =>
      match w.flush handle stream with
      | (.error e, w) => (.error e, w)
      | (.ok (), w) =>
        match target, w.file stream.path with
        | some position, _ =>
          (.ok (), w.setStream handle (some { stream with position, pending := [] }))
        | none, some file =>
          (.ok (), w.setStream handle
            (some { stream with position := file.bytes.length, pending := [] }))
        | none, none => (.error .eio, w)
  | .ftell handle =>
    onStream w handle (.error .eio) fun stream =>
      if stream.position + stream.pending.length ≤ maxFileSize then
        (.ok (stream.position + stream.pending.length), w)
      else (.error .eio, w)
  | .fread handle count =>
    onStream w handle [] fun stream =>
      match w.file stream.path with
      | none => ([], w)
      | some file =>
        let data := slice file.bytes stream.position count
        (data, w.setStream handle (some { stream with position := stream.position + data.length }))
  | .fwrite handle data =>
    onStream w handle (.error .eio) fun stream =>
      (.ok (), w.setStream handle (some { stream with pending := stream.pending ++ data }))
  | .fflush handle => onStream w handle (.error .eio) fun stream => w.flush handle stream
  | .fsync handle => onStream w handle (.error .eio) fun stream => (.ok (), w.syncFile stream.path)
  | .ftruncate handle length =>
    onStream w handle (.error .eio) fun stream =>
      match w.file stream.path with
      | none => (.error .eio, w)
      | some file =>
        if fits : length ≤ maxFileSize then
          (.ok (), w.setFile stream.path
            { bytes := resize file.bytes length, older := file.older ++ [file.bytes],
              fits := by simpa using fits })
        else (.error .einval, w)
  | .fclose handle =>
    onStream w handle (.error .eio) fun stream =>
      let (answer, w) := w.flush handle stream
      (answer, w.setStream handle none)
  | .unlink path => if (w.file path).isSome then (.ok (), w.rebind path none)
      else (.error .enoent, w)
  | .rename source target =>
    match w.file source with
    | none => (.error .enoent, w)
    | some file =>
      if source = target then (.ok (), w)
        else (.ok (), (w.rebind target (some file)).rebind source none)
  | .openDirectory _ => (.ok (), w)
  | .fsyncDirectory => (.ok (), w.syncDirectory)
  | .closeDirectory => (.ok (), w)
  | .allocate => (true, w)
  | .print data => ((), { w with output := w.output ++ data })

/-- What a call does when it fails. Closing a handle gives it up all the same. -/
def fail (w : World) (choice : Choice) (error : Errno) : (call : Call) → Answer call × World
  | .access _ | .fchmod _ | .fdopen _ | .fsync _ | .ftruncate _ _ | .unlink _ | .rename _ _
  | .openDirectory _ | .fsyncDirectory | .closeDirectory => (.error error, w)
  | .openFile _ _ | .fopen _ | .ftell _ => (.error error, w)
  | .mkstemp _ => (.error error, w)
  | .read _ _ => (.error error, w)
  | .close handle => (.error error, w.setStream handle none)
  | .fseek handle _ | .fflush handle =>
    onStream w handle (.error error) fun stream =>
      (.error error, w.passOn handle stream stream.pending choice.written choice.kept)
  | .fread handle count =>
    onStream w handle [] fun stream =>
      match w.file stream.path with
      | none => ([], w)
      | some file =>
        let data := slice file.bytes stream.position (min choice.written (count - 1))
        (data, w.setStream handle (some { stream with position := stream.position + data.length }))
  | .fwrite handle data =>
    onStream w handle (.error error) fun stream =>
      (.error error, w.passOn handle stream (stream.pending ++ data) choice.written choice.kept)
  | .fclose handle =>
    onStream w handle (.error error) fun stream =>
      (.error error,
        (w.passOn handle stream stream.pending choice.written choice.kept).setStream handle none)
  | .allocate => (false, w)
  | .print _ => ((), w)

/-- One call under a choice. -/
def act (w : World) (choice : Choice) (call : Call) : Answer call × World :=
  match choice.error with
  | none => succeed w choice call
  | some error => fail w choice error call

/-- Which calls may fail: any call; `access` too, which then denies a file; and a sync of
the directory with the answer that it is not supported. -/
structure Faults where
  calls : Bool
  access : Bool
  unsupported : Bool

/-- No call fails. -/
def Faults.none : Faults := { calls := false, access := false, unsupported := false }

/-- Every call may fail. -/
def Faults.any : Faults := { calls := true, access := true, unsupported := true }

/-- Every call may fail, but `access` tells the truth. -/
def Faults.seeing : Faults := { calls := true, access := false, unsupported := true }

/-- Every call may fail, but the directory can be synced. -/
def Faults.syncable : Faults := { calls := true, access := true, unsupported := false }

def isPortableSuffix (suffix : List UInt8) : Bool :=
  suffix.length = 6 && suffix.all fun c =>
    (48 ≤ c && c ≤ 57) || (65 ≤ c && c ≤ 90) || (97 ≤ c && c ≤ 122)

/-- The choices a call has. A failure never claims that a file is missing or exists
already, and a temporary file gets a name that is not taken. -/
def Allowed (faults : Faults) (w : World) (choice : Choice) (call : Call) : Prop :=
  match choice.error with
  | none =>
    match call with
    | .mkstemp template =>
      isPortableSuffix choice.suffix = true ∧
        w.file (template.take (template.length - 6) ++ choice.suffix) = .none
    | _ => True
  | some error =>
    faults.calls = true ∧ error ≠ .enoent ∧ error ≠ .eexist ∧
      match call with
      | .access _ => faults.access = true
      | .fsyncDirectory => error = .einval ∨ error = .enotsup → faults.unsupported = true
      | .print _ => False
      | _ => True

/-- The steps of the file system. -/
def Steps (faults : Faults) : Program.Step Call Answer World := fun call w answer after =>
  ∃ choice, Allowed faults w choice call ∧ act w choice call = (answer, after)

/-- A program over files, streams and memory. -/
abbrev Prog := Program Call Answer

namespace Posix

def call (c : Call) : Prog (Answer c) := Program.perform c

def access (path : Path) : Prog (Except Errno Unit) := call (.access path)

def openFile (path : Path) (create : Bool) : Prog (Except Errno Nat) := call (.openFile path create)

def mkstemp (template : Path) : Prog (Except Errno (Nat × Path)) := call (.mkstemp template)

def fchmod (handle : Nat) : Prog (Except Errno Unit) := call (.fchmod handle)

def fdopen (handle : Nat) : Prog (Except Errno Unit) := call (.fdopen handle)

def close (handle : Nat) : Prog (Except Errno Unit) := call (.close handle)

def read (handle count : Nat) : Prog (Except Errno (List UInt8)) := call (.read handle count)

def fopen (path : Path) : Prog (Except Errno Nat) := call (.fopen path)

/-- `fseek` to an offset, or to the end of the file. -/
def fseek (handle : Nat) (target : Option Nat) : Prog (Except Errno Unit) :=
  call (.fseek handle target)

def ftell (handle : Nat) : Prog (Except Errno Nat) := call (.ftell handle)

def fread (handle count : Nat) : Prog (List UInt8) := call (.fread handle count)

def fwrite (handle : Nat) (data : List UInt8) : Prog (Except Errno Unit) :=
  call (.fwrite handle data)

def fflush (handle : Nat) : Prog (Except Errno Unit) := call (.fflush handle)

def fsync (handle : Nat) : Prog (Except Errno Unit) := call (.fsync handle)

def ftruncate (handle length : Nat) : Prog (Except Errno Unit) := call (.ftruncate handle length)

def fclose (handle : Nat) : Prog (Except Errno Unit) := call (.fclose handle)

def unlink (path : Path) : Prog (Except Errno Unit) := call (.unlink path)

def rename (source target : Path) : Prog (Except Errno Unit) := call (.rename source target)

def openDirectory (path : Path) : Prog (Except Errno Unit) := call (.openDirectory path)

def fsyncDirectory : Prog (Except Errno Unit) := call .fsyncDirectory

def closeDirectory : Prog (Except Errno Unit) := call .closeDirectory

def allocate : Prog Bool := call .allocate

def print (data : List UInt8) : Prog Unit := call (.print data)

end Posix

/-! ## Crashes -/

/-- The bytes a crash may leave of a file: each of them, and the length, is one of the
contents since the last `fsync`. -/
structure Torn (file : File) (bytes : List UInt8) : Prop where
  longEnough : ∃ content ∈ file.bytes :: file.older, content.length ≤ bytes.length
  shortEnough : ∃ content ∈ file.bytes :: file.older, bytes.length ≤ content.length
  byte : ∀ i < bytes.length, ∃ content ∈ file.bytes :: file.older, bytes.getD i 0 = content.getD i 0

/-- What a crash may leave of a directory entry. -/
def Survives (entry after : Entry) : Prop :=
  after.before = [] ∧
    ((none ∈ entry.now :: entry.before ∧ after.now = none) ∨
      ∃ file left, some file ∈ entry.now :: entry.before ∧ after.now = some left ∧ left.older = [] ∧
        Torn file left.bytes)

/-- A crash: every entry survives in some form, and the process is gone. -/
structure Crash (w after : World) : Prop where
  entries : ∀ path, Survives (w.entries path) (after.entries path)
  streams : ∀ handle, after.streams handle = none

end SqlEngine.Library
