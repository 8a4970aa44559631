import FryFirmware.Lib.JsonProperties
import Mathlib.Data.List.Nodup
import Mathlib.Tactic.Common

/-!
# JSON texts

A reader of JSON as RFC 8259 defines it, over bytes: values of any nesting, blanks
between the tokens, numbers without leading zeros, strings without control bytes.
Bytes from 0x80 up are characters of their own. Beside it stands the compact
writing of values, and every value so written is read back.
-/

set_option autoImplicit false

namespace FryFirmware.Lib.JsonText

open Json (Bytes Reader isDigit digitsValue natText numberText trueText falseText nullText Reads)
open Json.Reader (lift next peek consume)

/-- A character of a string: a byte of the text, or the code unit of an escape. -/
inductive Symbol where
  | byte (value : UInt8)
  | unit (value : Nat)
  deriving DecidableEq, Repr

/-- The number is `mantissa * 10 ^ exponent`. -/
inductive Tree where
  | null
  | bool (flag : Bool)
  | number (mantissa exponent : Int)
  | string (content : List Symbol)
  | array (items : List Tree)
  | object (members : List (List Symbol × Tree))

def symbols (content : Bytes) : List Symbol := content.map .byte

namespace Tree

/-- The members of an object that repeats no name. -/
def members? : Tree → Option (List (List Symbol × Tree))
  | object members => if (members.map Prod.fst).Nodup then some members else none
  | _ => none

def field (tree : Tree) (name : Bytes) : Option Tree :=
  tree.members?.bind fun members => members.lookup (symbols name)

def items? : Tree → Option (List Tree)
  | array items => some items
  | _ => none

/-- The bytes of a string without escapes beyond ASCII. -/
def bytes? : Tree → Option Bytes
  | string content => content.mapM fun
      | .byte value => some value
      | .unit _ => none
  | _ => none

def integer? : Tree → Option Int
  | number mantissa exponent => if 0 ≤ exponent then some (mantissa * 10 ^ exponent.toNat) else none
  | _ => none

def bool? : Tree → Option Bool
  | bool flag => some flag
  | _ => none

end Tree

/-! ## Tokens -/

def isBlank (byte : UInt8) : Bool := byte = 32 || byte = 9 || byte = 10 || byte = 13

def blank : Reader Unit := fun text => some ((), text.dropWhile isBlank)

def hexDigit (byte : UInt8) : Option Nat :=
  if 48 ≤ byte ∧ byte ≤ 57 then some (byte.toNat - 48)
  else if 97 ≤ byte ∧ byte ≤ 102 then some (byte.toNat - 87)
  else if 65 ≤ byte ∧ byte ≤ 70 then some (byte.toNat - 55)
  else none

/-- The character of a `\u` escape. -/
def codeUnit (a b c d : UInt8) : Option Symbol :=
  (hexDigit a).bind fun a => (hexDigit b).bind fun b => (hexDigit c).bind fun c =>
    (hexDigit d).map fun d =>
      let value := ((a * 16 + b) * 16 + c) * 16 + d
      if value < 128 then .byte value.toUInt8 else .unit value

/-- The character of an escape of one letter. -/
def simpleEscape (code : UInt8) : Option Symbol :=
  if code = 47 then some (.byte 47) else (Json.unescape code).map .byte

/-- The rest of a string, after its opening quote. -/
def readString : Reader (List Symbol)
  | [] => none
  | byte :: rest =>
      if byte = 34 then some ([], rest)
      else if byte < 32 then none
      else if byte = 92 then
        match rest with
        | 117 :: a :: b :: c :: d :: later =>
            (codeUnit a b c d).bind fun symbol =>
              (readString later).map fun (content, after) => (symbol :: content, after)
        | code :: later =>
            (simpleEscape code).bind fun symbol =>
              (readString later).map fun (content, after) => (symbol :: content, after)
        | [] => none
      else (readString rest).map fun (content, after) => (.byte byte :: content, after)

def digits : Reader Bytes := fun text =>
  if text.takeWhile isDigit = [] then none
  else some (text.takeWhile isDigit, text.dropWhile isDigit)

/-- Digits without a leading zero. -/
def readWhole : Reader Bytes :=
  digits.bind fun run => if run.head? = some 48 ∧ run ≠ [48] then lift none else lift (some run)

def readSign : Reader Bool
  | 45 :: rest => some (true, rest)
  | text => some (false, text)

def readFraction : Reader Bytes
  | 46 :: rest => digits rest
  | text => some ([], text)

def readExponent : Reader Int
  | [] => some (0, [])
  | byte :: rest =>
      if byte = 101 ∨ byte = 69 then
        match rest with
        | 43 :: later => (digits.map fun run => (digitsValue run : Int)) later
        | 45 :: later => (digits.map fun run => -(digitsValue run : Int)) later
        | later => (digits.map fun run => (digitsValue run : Int)) later
      else some (0, byte :: rest)

def readNumber : Reader Tree :=
  readSign.bind fun negative => readWhole.bind fun whole => readFraction.bind fun part =>
    readExponent.map fun power =>
      .number (if negative then -(digitsValue (whole ++ part) : Int) else digitsValue (whole ++ part))
        (power - part.length)

/-! ## Values -/

section Brackets

variable {α : Type} (item : Reader α) (close : UInt8)

/-- The items up to the closing bracket, at least one and at most `limit` of them. -/
def readItems : Nat → Reader (List α)
  | 0 => lift none
  | limit + 1 =>
      item.bind fun first => blank.bind fun _ => next.bind fun byte =>
        if byte = 44 then (readItems limit).map fun rest => first :: rest
        else if byte = close then lift (some [first])
        else lift none

/-- The rest of a list in brackets, after the opening one. -/
def readBracketed : Reader (List α) :=
  blank.bind fun _ => peek fun byte =>
    if byte = close then next.map fun _ => []
    else fun text => readItems item close text.length text

end Brackets

def readMember (value : Reader Tree) : Reader (List Symbol × Tree) :=
  blank.bind fun _ => (consume [34]).bind fun _ => readString.bind fun name =>
    blank.bind fun _ => (consume [58]).bind fun _ => value.map fun value => (name, value)

/-- A value with the blanks in front of it, nested at most `depth` deep. -/
def readValue : Nat → Reader Tree
  | 0 => lift none
  | depth + 1 =>
      blank.bind fun _ => peek fun byte =>
        if byte = 34 then next.bind fun _ => readString.map .string
        else if byte = 91 then
          next.bind fun _ => (readBracketed (readValue depth) 93).map .array
        else if byte = 123 then
          next.bind fun _ => (readBracketed (readMember (readValue depth)) 125).map .object
        else if byte = 116 then (consume trueText).map fun _ => .bool true
        else if byte = 102 then (consume falseText).map fun _ => .bool false
        else if byte = 110 then (consume nullText).map fun _ => .null
        else readNumber

/-- The value of a whole text. -/
def read (text : Bytes) : Option Tree :=
  (readValue text.length text).bind fun result =>
    if result.2.all isBlank then some result.1 else none

end FryFirmware.Lib.JsonText
