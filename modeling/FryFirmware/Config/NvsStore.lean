import FryFirmware.Config.Store
import Mathlib.Algebra.Ring.Nat
import Mathlib.Data.List.FinRange
import Mathlib.Tactic.Common

/-!
# The NVS store of the ESP32 family

`src/core/kv_store.h` over `lib/fry_core/nvs_absent.h`: a handle that skips the
read-only open of a namespace remembered as absent, with the readers of
`src/core/fry_config.cpp` that `ensureMinerKey` calls. What `nvs_open` answers is an
input; a read-only open never succeeds without the namespace, a writable one creates
it, and a started `Preferences` object refuses a second `begin`.
-/

set_option autoImplicit false

namespace FryFirmware.Config.Nvs

abbrev Name := Text

inductive Entry where
  | string (text : Text)
  | blob (bytes : List UInt8)
  | u8 (value : UInt8)
  | u32 (value : UInt32)
  deriving DecidableEq, Repr

abbrev Entries := List (Text × Entry)

/-! ## The flash partition -/

/-- The namespaces that exist, with what they hold. -/
abbrev Flash := List (Name × Entries)

namespace Flash

def has (flash : Flash) (name : Name) : Bool := (flash.lookup name).isSome

def entries (flash : Flash) (name : Name) : Entries := (flash.lookup name).getD []

def create (flash : Flash) (name : Name) : Flash :=
  if flash.has name then flash else flash ++ [(name, [])]

/-- Changes the entries of one namespace. -/
def change (flash : Flash) (name : Name) (edit : Entries → Entries) : Flash :=
  flash.map fun space => if space.1 = name then (space.1, edit space.2) else space

end Flash

/-! ## The memory of absent namespaces -/

abbrev kCapacity : Nat := 8
abbrev kMaxNameLen : Nat := 24

instance : NeZero kCapacity := ⟨by decide⟩

/-- `NvsAbsentCache`; a slot in use holds its name. -/
structure NvsAbsentCache where
  slots : Fin kCapacity → Option Name := fun _ => none
  size : Int := 0
  next : Fin kCapacity := 0

namespace NvsAbsentCache

def find (cache : NvsAbsentCache) (name : Name) : Option (Fin kCapacity) :=
  if name = [] then none
  else (List.finRange kCapacity).find? fun i => cache.slots i = some name

def isAbsent (cache : NvsAbsentCache) (name : Name) : Bool := (cache.find name).isSome

/-- The names that fit a slot. -/
def cacheable (name : Name) : Bool := name.length ≠ 0 && name.length < kMaxNameLen

def noteAbsent (cache : NvsAbsentCache) (name : Name) : NvsAbsentCache :=
  if cacheable name then
    match cache.find name with
    | some i => { cache with slots := Function.update cache.slots i (some name) }
    | none =>
        let i := cache.next
        { slots := Function.update cache.slots i (some name)
          size := if (cache.slots i).isSome then cache.size else cache.size + 1
          next := i + 1 }
  else cache

def notePresent (cache : NvsAbsentCache) (name : Name) : NvsAbsentCache :=
  match cache.find name with
  | none => cache
  | some i => { cache with slots := Function.update cache.slots i none, size := cache.size - 1 }

end NvsAbsentCache

/-! ## Preferences -/

/-- What `nvs_open` answers: it is granted, or it fails for want of memory, space or
anything else, a writable one perhaps after it created the namespace. -/
structure OpenAnswer where
  granted : Bool := true
  created : Bool := false
  deriving DecidableEq, Repr

structure Preferences where
  started : Bool := false
  readOnly : Bool := false
  name : Name := []
  deriving DecidableEq, Repr

namespace Preferences

def begin (prefs : Preferences) (flash : Flash) (name : Name) (readOnly : Bool) (answer : OpenAnswer) :
    Preferences × Flash × Bool :=
  if prefs.started then (prefs, flash, false)
  else if readOnly then
    if flash.has name && answer.granted then ({ started := true, readOnly, name }, flash, true)
    else ({ prefs with readOnly }, flash, false)
  else if answer.granted then ({ started := true, readOnly, name }, flash.create name, true)
  else ({ prefs with readOnly }, if answer.created then flash.create name else flash, false)

/-- The entries an open handle sees. -/
def view (prefs : Preferences) (flash : Flash) : Option Entries :=
  if prefs.started then some (flash.entries prefs.name) else none

/-- `put*`, `remove` and `clear`, which may fail. -/
def edit (prefs : Preferences) (flash : Flash) (change : Entries → Entries) (done : Bool) : Flash :=
  if prefs.started && !prefs.readOnly && done then flash.change prefs.name change else flash

end Preferences

/-! ## NvsStore -/

/-- A handle; `name` is set while it is started. -/
structure NvsStore where
  prefs : Preferences := {}
  name : Option Name := none
  started : Bool := false
  deriving DecidableEq, Repr

namespace NvsStore

/-- The result: the handle, the memory, the flash, and what `begin` returns. -/
def begin (store : NvsStore) (cache : NvsAbsentCache) (flash : Flash) (name : Option Name) (readOnly : Bool)
    (answer : OpenAnswer) : NvsStore × NvsAbsentCache × Flash × Bool :=
  match name with
  | none => ({ store with name := none, started := false }, cache, flash, false)
  | some name =>
      if readOnly && cache.isAbsent name then
        ({ store with name := none, started := false }, cache, flash, false)
      else
        match store.prefs.begin flash name readOnly answer with
        | (prefs, flash, true) =>
            ({ prefs, name := some name, started := true }, cache.notePresent name, flash, true)
        | (prefs, flash, false) =>
            ({ prefs, name := none, started := false },
              if readOnly then cache.noteAbsent name else cache, flash, false)

def finish (store : NvsStore) : NvsStore :=
  { prefs := { store.prefs with started := false }, name := none, started := false }

def noteWritten (store : NvsStore) (cache : NvsAbsentCache) : NvsAbsentCache :=
  if store.started then
    match store.name with
    | some name => cache.notePresent name
    | none => cache
  else cache

/-- What the getters of the handle read; without it they return their defaults. -/
def view (store : NvsStore) (flash : Flash) : Option Entries :=
  if store.started then store.prefs.view flash else none

end NvsStore

/-! ## Getters -/

def isKey (view : Option Entries) (key : Text) : Bool :=
  (view.bind fun entries => entries.lookup key).isSome

/-- `getString` into a buffer: nothing where the string does not fit. -/
def getStringBuffer (view : Option Entries) (key : Text) (maxLen : Nat) : Option Text :=
  match view.bind fun entries => entries.lookup key with
  | some (.string value) => if value.length < maxLen then some value else none
  | _ => none

def getString (view : Option Entries) (key defaultValue : Text) : Text :=
  match view.bind fun entries => entries.lookup key with
  | some (.string value) => value
  | _ => defaultValue

def getBytes (view : Option Entries) (key : Text) : List UInt8 :=
  match view.bind fun entries => entries.lookup key with
  | some (.blob value) => value
  | _ => []

/-! ## The process -/

structure System where
  flash : Flash
  cache : NvsAbsentCache := {}
  handles : Nat → NvsStore := fun _ => {}

/-- One call on one handle. -/
inductive Op where
  | begin (handle : Nat) (name : Option Name) (readOnly : Bool) (answer : OpenAnswer)
  | finish (handle : Nat)
  | edit (handle : Nat) (change : Entries → Entries) (done : Bool)
  /-- `isKey` and the getters change nothing. -/
  | read (handle : Nat) (key : Text)

def step (system : System) : Op → System
  | .begin handle name readOnly answer =>
      let result := (system.handles handle).begin system.cache system.flash name readOnly answer
      { flash := result.2.2.1, cache := result.2.1
        handles := Function.update system.handles handle result.1 }
  | .finish handle =>
      { system with handles := Function.update system.handles handle (system.handles handle).finish }
  | .edit handle change done =>
      { system with
        cache := (system.handles handle).noteWritten system.cache
        flash := (system.handles handle).prefs.edit system.flash change done }
  | .read _ _ => system

def run (system : System) (ops : List Op) : System := ops.foldl step system

/-! ## fry_config -/

/-- `KvStore p; p.begin(name, true); ...; p.end();`: the reader sees what the handle
sees. -/
def withFresh {α : Type} (name : Name) (answer : OpenAnswer) (reader : Option Entries → α) (system : System) :
    System × α :=
  let opened := ({} : NvsStore).begin system.cache system.flash (some name) true answer
  ({ system with cache := opened.2.1, flash := opened.2.2.1 }, reader (opened.1.view opened.2.2.1))

/-- Whether a key is stored, and the key where it fits the buffer. -/
def readMinerKey (outLen : Nat) (view : Option Entries) : Bool × Option Text :=
  (isKey view (text "minerKey"), getStringBuffer view (text "minerKey") outLen)

/-- The salt, if there is one of 16 bytes. -/
def readSalt (view : Option Entries) : Option (List UInt8) :=
  if isKey view (text "salt") && (getBytes view (text "salt")).length = 16 then
    some (getBytes view (text "salt"))
  else none

def readKeySrc (view : Option Entries) : Text := getString view (text "keySrc") []

def getMinerKey (outLen : Nat) (answer : OpenAnswer) : System → System × (Bool × Option Text) :=
  withFresh (text "fry") answer (readMinerKey outLen)

def getSalt (answer : OpenAnswer) : System → System × Option (List UInt8) :=
  withFresh (text "fry") answer readSalt

def getKeySrc (answer : OpenAnswer) : System → System × Text :=
  withFresh (text "fry") answer readKeySrc

end FryFirmware.Config.Nvs
