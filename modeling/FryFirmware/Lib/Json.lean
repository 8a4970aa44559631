import Mathlib.Data.Nat.Digits.Defs
import Mathlib.Data.Nat.Digits.Lemmas
import Mathlib.Data.List.Basic
import Mathlib.Tactic.Common

/-!
# Flat JSON documents

Documents of one level, members with string, boolean and integer values, their text
and its reader. A document is read back from its text, and from no part of the text
that stops before its end.
-/

set_option autoImplicit false

namespace FryFirmware.Lib.Json

abbrev Bytes := List UInt8

/-- The integers of 32 bits, signed or unsigned. -/
abbrev Number := { number : Int // -2147483648 ≤ number ∧ number < 4294967296 }

inductive Value where
  | string (text : Bytes)
  | bool (flag : Bool)
  | number (number : Number)
  deriving DecidableEq, Repr

abbrev Member := Bytes × Value

/-- A document: nothing at all, or an object with its members in order. -/
inductive Document where
  | null
  | object (members : List Member)
  deriving DecidableEq, Repr

/-! ## Members -/

namespace Document

def members : Document → List Member
  | .null => []
  | .object members => members

def get (document : Document) (key : Bytes) : Option Value := document.members.lookup key

/-- Replaces the member in its place, or adds it at the end. -/
def setMember (key : Bytes) (value : Value) : List Member → List Member
  | [] => [(key, value)]
  | member :: rest =>
      if member.1 = key then (key, value) :: rest else member :: setMember key value rest

def set (document : Document) (key : Bytes) (value : Value) : Document :=
  .object (setMember key value document.members)

def remove (document : Document) (key : Bytes) : Document :=
  match document with
  | .null => .null
  | .object members => .object (members.filter fun member => member.1 ≠ key)

end Document

/-! ## Text -/

/-- The letter that stands for a byte behind a backslash. -/
def escapeCode (byte : UInt8) : Option UInt8 :=
  if byte = 34 then some 34
  else if byte = 92 then some 92
  else if byte = 8 then some 98
  else if byte = 12 then some 102
  else if byte = 10 then some 110
  else if byte = 13 then some 114
  else if byte = 9 then some 116
  else none

def unescape (code : UInt8) : Option UInt8 :=
  if code = 34 then some 34
  else if code = 92 then some 92
  else if code = 98 then some 8
  else if code = 102 then some 12
  else if code = 110 then some 10
  else if code = 114 then some 13
  else if code = 116 then some 9
  else none

/-- The text of a string after its opening quote. -/
def charsText : Bytes → Bytes
  | [] => [34]
  | byte :: rest =>
      match escapeCode byte with
      | some code => 92 :: code :: charsText rest
      | none => byte :: charsText rest

def natText (number : Nat) : Bytes :=
  if number = 0 then [48] else (Nat.digits 10 number).reverse.map fun digit => digit.toUInt8 + 48

def numberText (number : Int) : Bytes :=
  if number < 0 then 45 :: natText number.natAbs else natText number.natAbs

def trueText : Bytes := [116, 114, 117, 101]
def falseText : Bytes := [102, 97, 108, 115, 101]
def nullText : Bytes := [110, 117, 108, 108]

def Value.text : Value → Bytes
  | .string text => 34 :: charsText text
  | .bool true => trueText
  | .bool false => falseText
  | .number size => numberText size

def memberText (member : Member) : Bytes := 34 :: charsText member.1 ++ 58 :: member.2.text

def membersText : List Member → Bytes
  | [] => [125]
  | [member] => memberText member ++ [125]
  | member :: rest => memberText member ++ 44 :: membersText rest

def serialize : Document → Bytes
  | .null => nullText
  | .object members => 123 :: membersText members

/-! ## Readers -/

/-- Reads a value off the front of a text. -/
abbrev Reader (α : Type) := Bytes → Option (α × Bytes)

namespace Reader

variable {α β : Type}

def lift (value : Option α) : Reader α := fun text => value.map fun value => (value, text)

def bind (read : Reader α) (later : α → Reader β) : Reader β := fun text =>
  (read text).bind fun result => later result.1 result.2

def map (read : Reader α) (change : α → β) : Reader β := read.bind fun value => lift (some (change value))

def next : Reader UInt8
  | [] => none
  | byte :: rest => some (byte, rest)

/-- Chooses by the first byte, and leaves it. -/
def peek (choose : UInt8 → Reader α) : Reader α
  | [] => none
  | byte :: rest => choose byte (byte :: rest)

def consume : Bytes → Reader Unit
  | [] => lift (some ())
  | expected :: fixed => next.bind fun byte => if byte = expected then consume fixed else lift none

end Reader

open Reader (lift next peek consume)

def readChars : Reader Bytes
  | [] => none
  | [byte] => if byte = 34 then some ([], []) else none
  | byte :: code :: rest =>
      if byte = 34 then some ([], code :: rest)
      else if byte = 92 then
        (unescape code).bind fun plain =>
          (readChars rest).map fun (text, after) => (plain :: text, after)
      else (readChars (code :: rest)).map fun (text, after) => (byte :: text, after)

def isDigit (byte : UInt8) : Bool := 48 ≤ byte.toNat && byte.toNat ≤ 57

def digitsValue (digits : Bytes) : Nat :=
  digits.foldl (fun value digit => value * 10 + (digit - 48).toNat) 0

/-- The digits up to the byte that ends them, which has to be there. -/
def readNat : Reader Nat := fun text =>
  if text.takeWhile isDigit = [] ∨ text.dropWhile isDigit = [] then none
  else some (digitsValue (text.takeWhile isDigit), text.dropWhile isDigit)

def toNumber (number : Int) : Option Number :=
  if inRange : -2147483648 ≤ number ∧ number < 4294967296 then some ⟨number, inRange⟩ else none

def readNumber : Reader Number :=
  peek fun byte =>
    if byte = 45 then next.bind fun _ => readNat.bind fun size => lift (toNumber (-size))
    else readNat.bind fun size => lift (toNumber size)

def readValue : Reader Value :=
  peek fun byte =>
    if byte = 34 then next.bind fun _ => readChars.map .string
    else if byte = 116 then (consume trueText).map fun _ => .bool true
    else if byte = 102 then (consume falseText).map fun _ => .bool false
    else readNumber.map .number

def readMember : Reader Member :=
  (consume [34]).bind fun _ => readChars.bind fun key =>
    (consume [58]).bind fun _ => readValue.map fun value => (key, value)

/-- The members up to the closing brace, at most `limit` of them. -/
def readMembers : Nat → Reader (List Member)
  | 0 => lift none
  | limit + 1 =>
      readMember.bind fun member => next.bind fun byte =>
        if byte = 44 then (readMembers limit).map fun rest => member :: rest
        else if byte = 125 then lift (some [member])
        else lift none

def readObject : Reader (List Member) :=
  peek fun byte =>
    if byte = 125 then next.map fun _ => []
    else fun text => readMembers text.length text

def readDocument : Reader Document :=
  peek fun byte =>
    if byte = 123 then next.bind fun _ => readObject.map .object
    else (consume nullText).map fun _ => .null

/-- What follows the document is ignored. -/
def deserialize (text : Bytes) : Option Document := (readDocument text).map fun result => result.1

end FryFirmware.Lib.Json
