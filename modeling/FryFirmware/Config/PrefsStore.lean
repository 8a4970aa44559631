import FryFirmware.Config.Store
import FryFirmware.Lib.JsonProperties
import Mathlib.Data.List.Basic
import Mathlib.Tactic.Common

/-!
# The ESP8266 store

`src/esp8266/prefs_store.cpp`: one JSON file for each namespace, read whole when the
namespace is opened and written whole, through a temporary file and a rename, at every
change. The file system is mounted; its writes may be short and its renames are atomic.
-/

set_option autoImplicit false

namespace FryFirmware.Config.PrefsStore

open Lib.Json

/-- The serializer and the reader of ArduinoJson on documents of the store, and the
base64 encoder of the core. -/
structure Codec where
  serializeJson : Document → Bytes
  deserializeJson : Bytes → Option Document
  base64 : Bytes → Bytes
  reads_serialized : ∀ document, deserializeJson (serializeJson document) = some document
  /-- `IncompleteInput`. -/
  rejects_cut : ∀ document part, part <+: serializeJson document → part ≠ serializeJson document →
    deserializeJson part = none

def base64Alphabet : Bytes := text "ABCDEFGHIJKLMNOPQRSTUVWXYZabcdefghijklmnopqrstuvwxyz0123456789+/"

def base64Digit (index : Nat) : UInt8 := base64Alphabet.getD (index % 64) 0

def base64Encode : Bytes → Bytes
  | [] => []
  | [a] => [base64Digit (a.toNat / 4), base64Digit (a.toNat * 16), 61, 61]
  | [a, b] =>
      [base64Digit (a.toNat / 4), base64Digit (a.toNat * 16 + b.toNat / 16),
        base64Digit (b.toNat * 4), 61]
  | a :: b :: c :: rest =>
      base64Digit (a.toNat / 4) :: base64Digit (a.toNat % 4 * 16 + b.toNat / 16) ::
        base64Digit (b.toNat % 16 * 4 + c.toNat / 64) :: base64Digit c.toNat :: base64Encode rest

/-- A codec for the documents that the store writes. -/
def flatJson : Codec where
  serializeJson := serialize
  deserializeJson := deserialize
  base64 := base64Encode
  reads_serialized := deserialize_serialize
  rejects_cut := fun _ _ => deserialize_cut

/-! ## The file system -/

/-- The file of a namespace and the temporary file beside it. -/
structure Disk where
  file : Option Bytes
  tmp : Option Bytes := none
  deriving DecidableEq, Repr

inductive FsOp where
  | removeTmp
  | openTmp
  | writeTmp (bytes : Bytes)
  | rename
  deriving DecidableEq, Repr

def FsOp.apply (disk : Disk) : FsOp → Disk
  | .removeTmp => { disk with tmp := none }
  | .openTmp => { disk with tmp := some [] }
  | .writeTmp bytes => { disk with tmp := disk.tmp.map fun written => written ++ bytes }
  | .rename => { file := disk.tmp, tmp := none }

/-- What the heap, the file system and the power supply do during one session. -/
structure Environment where
  /-- `fs_ensure` and the allocation of the document succeed. -/
  begins : Bool := true
  opens : Bool := true
  /-- No error, such as `NoMemory`, on a text that could be read. -/
  parses : Bool := true
  /-- The new value, or the buffer it is encoded in, finds memory. -/
  assigns : Bool := true
  allocates : Bool := true
  tmpOpens : Bool := true
  /-- How many bytes of the new text reach the temporary file. -/
  accepted : Nat
  renames : Bool := true
  /-- A reset after this many operations of the file system. -/
  reset : Option Nat := none
  deriving DecidableEq, Repr

/-! ## A handle -/

structure Handle where
  isOpen : Bool := false
  readOnly : Bool := false
  dirty : Bool := false
  doc : Document := .null
  deriving DecidableEq, Repr

variable (codec : Codec) (environment : Environment)

/-- The document, and whether the file was read. -/
def load (disk : Disk) : Document × Bool :=
  match disk.file with
  | none => (.null, false)
  | some content =>
      if environment.opens then
        match (if environment.parses then codec.deserializeJson content else none) with
        | some document => (document, true)
        -- corrupt file -> defaults
        | none => (.null, false)
      else (.null, false)

/-- Drops a temporary file that an interrupted write left. -/
def loadOps (disk : Disk) : List FsOp := if disk.tmp.isSome then [.removeTmp] else []

def begin (readOnly : Bool) (disk : Disk) : Handle × List FsOp :=
  if environment.begins then
    ({ isOpen := true, readOnly, dirty := false, doc := (load codec environment disk).1 }, loadOps disk)
  else ({}, [])

def save (handle : Handle) : Handle × List FsOp × Bool :=
  if handle.readOnly then (handle, [], false)
  else if environment.tmpOpens then
    let written := (codec.serializeJson handle.doc).take environment.accepted
    if environment.renames then
      ({ handle with dirty := false }, [.openTmp, .writeTmp written, .rename], true)
    else (handle, [.openTmp, .writeTmp written, .removeTmp], false)
  else (handle, [], false)

def finish (handle : Handle) : List FsOp :=
  if handle.isOpen && handle.dirty then (save codec environment handle).2.1 else []

/-- `doc[key] = value`: without memory the key is left absent or null. -/
def assign (document : Document) (key : Bytes) (value : Value) : Document :=
  if environment.assigns then document.set key value else document.remove key

/-- What the `put` functions have in common: the new document is saved, and the result
does not depend on how that goes. -/
def put (handle : Handle) (key : Bytes) (value : Value) (size : Nat) : Handle × List FsOp × Nat :=
  if !handle.isOpen || handle.readOnly then (handle, [], 0)
  else
    let saved := save codec environment { handle with doc := assign environment handle.doc key value }
    (saved.1, saved.2.1, size)

def putString (handle : Handle) (key value : Bytes) : Handle × List FsOp × Nat :=
  put codec environment handle key (.string value) value.length

def putBool (handle : Handle) (key : Bytes) (value : Bool) : Handle × List FsOp × Nat :=
  put codec environment handle key (.bool value) 1

def signed (value : Int32) : Number :=
  ⟨value.toInt, by have := value.le_toInt; have := value.toInt_lt; omega⟩

def unsigned (value : UInt32) : Number :=
  ⟨value.toNat, by have := value.toNat_lt; omega⟩

def putInt (handle : Handle) (key : Bytes) (value : Int32) : Handle × List FsOp × Nat :=
  put codec environment handle key (.number (signed value)) 4

def putUInt (handle : Handle) (key : Bytes) (value : UInt32) : Handle × List FsOp × Nat :=
  put codec environment handle key (.number (unsigned value)) 4

def putUChar (handle : Handle) (key : Bytes) (value : UInt8) : Handle × List FsOp × Nat :=
  let result := putUInt codec environment handle key value.toUInt32
  (result.1, result.2.1, if result.2.2 ≠ 0 then 1 else 0)

def base64Mark : Bytes := [98, 54, 52, 58]

def putBytes (handle : Handle) (key value : Bytes) : Handle × List FsOp × Nat :=
  if !environment.allocates then (handle, [], 0)
  else put codec environment handle key (.string (base64Mark ++ codec.base64 value)) value.length

def remove (handle : Handle) (key : Bytes) : Handle × List FsOp × Bool :=
  if !handle.isOpen || handle.readOnly then (handle, [], false)
  else save codec environment { handle with doc := handle.doc.remove key }

/-! ## A session -/

inductive Change where
  | putString (key value : Bytes)
  | putBool (key : Bytes) (value : Bool)
  | putInt (key : Bytes) (value : Int32)
  | putUInt (key : Bytes) (value : UInt32)
  | putUChar (key : Bytes) (value : UInt8)
  | putBytes (key value : Bytes)
  | remove (key : Bytes)
  deriving DecidableEq, Repr

def Change.run (handle : Handle) : Change → Handle × List FsOp
  | .putString key value => let result := PrefsStore.putString codec environment handle key value
                            (result.1, result.2.1)
  | .putBool key value => let result := PrefsStore.putBool codec environment handle key value
                          (result.1, result.2.1)
  | .putInt key value => let result := PrefsStore.putInt codec environment handle key value
                         (result.1, result.2.1)
  | .putUInt key value => let result := PrefsStore.putUInt codec environment handle key value
                          (result.1, result.2.1)
  | .putUChar key value => let result := PrefsStore.putUChar codec environment handle key value
                           (result.1, result.2.1)
  | .putBytes key value => let result := PrefsStore.putBytes codec environment handle key value
                           (result.1, result.2.1)
  | .remove key => let result := PrefsStore.remove codec environment handle key
                   (result.1, result.2.1)

/-- The operations of `begin`, one change and `end`. -/
def sessionOps (readOnly : Bool) (change : Change) (disk : Disk) : List FsOp :=
  let opened := begin codec environment readOnly disk
  let changed := change.run codec environment opened.1
  opened.2 ++ changed.2 ++ finish codec environment changed.1

/-- The disk after the session, or at the reset. -/
def session (readOnly : Bool) (change : Change) (disk : Disk) : Disk :=
  let ops := sessionOps codec environment readOnly change disk
  match environment.reset with
  | none => ops.foldl FsOp.apply disk
  | some done => (ops.take done).foldl FsOp.apply disk

end FryFirmware.Config.PrefsStore
