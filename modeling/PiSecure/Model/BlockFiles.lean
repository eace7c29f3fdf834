import Mathlib.Data.Char
import Mathlib.Data.List.Lex
import Mathlib.Data.List.Sort
import PiSecure.Model.Peer

/-! # Block files

The bytes under the block store of `storage.cpp`: payloads are appended as
frames to numbered files, and the index over them is made again by scanning the
files when the store is opened. The chain-level model keeps the same payloads as
a log.
-/

namespace PiSecure

structure BlockPos where
  file : Nat
  offset : Nat
  size : Nat
deriving DecidableEq

/-- The most that a block file holds. -/
def kMaxBlockFileSize : Nat := 128 * 1024 * 1024

/-- The regular files of the block directory with their contents. -/
abbrev Directory := List (Text × Bytes)

namespace Directory

def contents (directory : Directory) (name : Text) : Option Bytes := directory.lookup name

/-- Opens a file to append to it; a file that is not there is made. -/
def append (directory : Directory) (name : Text) (bytes : Bytes) : Directory :=
  if directory.any fun entry => entry.1 == name then
    directory.map fun entry => if entry.1 = name then (name, entry.2 ++ bytes) else entry
  else directory ++ [(name, bytes)]

end Directory

/-- The part of `Storage` over the block files: the directory, and in memory the
index and the end of the current file. -/
structure BlockFiles where
  directory : Directory
  index : List BlockPos
  currentFile : Nat
  currentFileSize : Nat
  nextIndex : Nat
deriving DecidableEq

/-! ## Names -/

/-- A number with zeros in front up to five digits, `%05u`. -/
def padded (number : Nat) : Text :=
  List.replicate (5 - (Json.decimal number).length) '0' ++ Json.decimal number

/-- `file_path`. -/
def fileName (number : Nat) : Text := "blk".toList ++ padded number ++ ".dat".toList

/-- Whether a whole name is `blk`, five digits and `.dat`. -/
def isBlockFile (name : Text) : Bool :=
  name.length == 12 && name.take 3 == "blk".toList && (name.drop 8 == ".dat".toList) &&
    ((name.drop 3).take 5).all Char.isDigit

/-- The number in the five digits of a name. -/
def fileNumber (name : Text) : Nat := Nat.ofDigitChars 10 ((name.drop 3).take 5) 0

/-! ## Scanning -/

/-- The payload length of what looks like a frame: a length that is not zero and
fits in the file, with a brace behind it. -/
def frameAt (bytes : Bytes) (offset : Nat) : Option Nat :=
  let len := readLe (field bytes offset 4)
  if 0 < len ∧ offset + 4 + len ≤ bytes.length ∧ bytes[offset + 4]? = some 123 then some len
  else none

/-- The loop over the offsets of a file. Every pass moves on, so it ends within
as many passes as there are bytes. -/
def scanFile (file : Nat) (bytes : Bytes) : Nat → Nat → List BlockPos
  | 0, _ => []
  | fuel + 1, offset =>
      if offset + 4 ≤ bytes.length then
        match frameAt bytes offset with
        | some len => ⟨file, offset, len⟩ :: scanFile file bytes fuel (offset + 4 + len)
        | none => scanFile file bytes fuel (offset + 1)
      else []

/-- The block files of a directory, in the order of their names. -/
def blockFiles (directory : Directory) : Directory :=
  (directory.filter fun entry => isBlockFile entry.1).insertionSort fun first second =>
    first.1 ≤ second.1

/-- `Storage::init`, which is `scan_existing`. -/
def scanExisting (directory : Directory) : BlockFiles :=
  let files := blockFiles directory
  let index := files.flatMap fun entry =>
    scanFile (fileNumber entry.1) entry.2 entry.2.length 0
  match files.getLast? with
  | none => ⟨directory.append (fileName 0) [], index, 0, 0, index.length⟩
  | some last => ⟨directory, index, fileNumber last.1, last.2.length, index.length⟩

namespace BlockFiles

/-- `rotate_if_needed`. -/
def rotateIfNeeded (store : BlockFiles) (upcoming : Nat) : BlockFiles :=
  if store.currentFileSize + upcoming ≤ kMaxBlockFileSize then store
  else { store with currentFile := store.currentFile + 1, currentFileSize := 0 }

/-- The bytes that `append_block` writes: the length as a word, and the payload. -/
def frame (payload : Bytes) : Bytes := u32Bytes payload.length ++ payload

/-- `append_block`. -/
def appendBlock (store : BlockFiles) (payload : Bytes) : BlockFiles :=
  let rotated := store.rotateIfNeeded (4 + payload.length)
  { directory := rotated.directory.append (fileName rotated.currentFile) (frame payload)
    index := rotated.index ++
      [⟨rotated.currentFile, rotated.currentFileSize, payload.length % 2 ^ 32⟩]
    currentFile := rotated.currentFile
    currentFileSize := rotated.currentFileSize + (4 + payload.length)
    nextIndex := rotated.nextIndex + 1 }

/-- What is on disk when the process is killed in `append_block` after this many
bytes of the frame. -/
def killedAppend (store : BlockFiles) (payload : Bytes) (kept : Nat) : Directory :=
  let rotated := store.rotateIfNeeded (4 + payload.length)
  rotated.directory.append (fileName rotated.currentFile) ((frame payload).take kept)

/-- `read_block`. -/
def readBlock (store : BlockFiles) (index : Nat) : Option Bytes :=
  match store.index[index]? with
  | none => none
  | some pos =>
      match store.directory.contents (fileName pos.file) with
      | none => none
      | some bytes =>
          let len := readLe (field bytes pos.offset 4)
          if bytes.length < pos.offset + 4 ∨ len ≠ pos.size then none
          else if bytes.length < pos.offset + 4 + len then none
          else some (field bytes (pos.offset + 4) len)

end BlockFiles

end PiSecure
