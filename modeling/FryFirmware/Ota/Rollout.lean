import FryFirmware.Config.Store
import FryFirmware.Ota.Sha256
import Mathlib

/-!
# The staged-rollout gate

The two ends of the manifest's `rollout` object: `parse_rollout` of
`tools/make_manifest.py`, which writes it, and `evaluateRollout` of
`lib/fry_core/ota_rollout_json.h`, which reads it on the board. Between them the
manifest is a tree of JSON values.
-/

set_option autoImplicit false

namespace FryFirmware.Ota

open FryFirmware.Config (Text text)

/-- A value of a parsed document. -/
inductive Variant where
  | null
  | boolean (flag : Bool)
  | integer (number : Int)
  | float (numeral : Text)
  | string (content : Text)
  | array (elements : List Variant)
  | object (members : List (Text × Variant))
  deriving Repr

namespace Variant

/-- The pairs of `as<JsonObjectConst>()`, none where the value is no object. -/
def members : Variant → List (Text × Variant)
  | .object members => members
  | _ => []

def elements : Variant → List Variant
  | .array elements => elements
  | _ => []

/-- `operator[]`: the first member of that name, or null. -/
def get (value : Variant) (key : Text) : Variant := (value.members.lookup key).getD .null

/-- `as<int>()` where `is<int>()` holds: an integer of 32 bits. -/
def int? : Variant → Option Int
  | .integer number => if -2147483648 ≤ number ∧ number < 2147483648 then some number else none
  | _ => none

def isArray : Variant → Bool
  | .array _ => true
  | _ => false

def isObject : Variant → Bool
  | .object _ => true
  | _ => false

/-- `c_str()`: the bytes up to the first NUL. -/
def cString (content : Text) : Text := content.takeWhile (· ≠ 0)

/-- `as<const char*>()`: null where the value is no string. -/
def chars? : Variant → Option Text
  | .string content => some (cString content)
  | _ => none

end Variant

/-! ## The board -/

def kRolloutPrefixHexLen : Nat := 16

abbrev Digest := { bytes : List UInt8 // bytes.length = 32 }

def Digest.byte (digest : Digest) (i : Nat) : UInt8 := digest.val.getD i 0

def hexVal (c : UInt8) : Int :=
  if 48 ≤ c ∧ c ≤ 57 then c.toNat - 48
  else if 97 ≤ c ∧ c ≤ 102 then c.toNat - 97 + 10
  else if 65 ≤ c ∧ c ≤ 70 then c.toNat - 65 + 10
  else -1

def rolloutBucket (digest : Digest) : UInt32 :=
  ((digest.byte 0).toUInt32 <<< 24 ||| (digest.byte 1).toUInt32 <<< 16 |||
    (digest.byte 2).toUInt32 <<< 8 ||| (digest.byte 3).toUInt32) % 100

/-- `0123456789abcdef` -/
def lowerHex : List UInt8 := text "0123456789abcdef"

/-- What `rolloutPrefixHex` writes, without the NUL. -/
def rolloutPrefixHex (digest : Digest) : Text :=
  (List.range (kRolloutPrefixHexLen / 2)).flatMap fun i =>
    [lowerHex.getD (digest.byte i >>> 4).toNat 0, lowerHex.getD (digest.byte i &&& 0x0F).toNat 0]

/-- The loop of `isRolloutHexPrefix` after `n` characters. -/
def isRolloutHexPrefixFrom (n : Nat) : Text → Bool
  | [] => n = kRolloutPrefixHexLen
  | c :: rest =>
      if hexVal c < 0 then false
      else if n + 1 > kRolloutPrefixHexLen then false
      else isRolloutHexPrefixFrom (n + 1) rest

def isRolloutHexPrefix : Option Text → Bool
  | none => false
  | some s => isRolloutHexPrefixFrom 0 s

def rolloutPrefixMatches (manifestEntry : Option Text) (devicePrefix : Text) : Bool :=
  if !isRolloutHexPrefix manifestEntry then false
  else
    (List.range kRolloutPrefixHexLen).all fun i =>
      hexVal ((manifestEntry.getD []).getD i 0) = hexVal (devicePrefix.getD i 0)

def rolloutEligible (lo hi bucket : UInt32) (inAllow : Bool) : Bool :=
  inAllow || (bucket ≥ lo && bucket ≤ hi)

inductive RolloutVerdict where
  | Absent
  | Malformed
  | Eligible
  | NotEligible
  deriving DecidableEq, Repr

def rolloutAllows (v : RolloutVerdict) : Bool := v ≠ .NotEligible

/-- The value that the walk over the pairs finds under a name. -/
def namedMember (name : Text) (members : List (Text × Variant)) : Option Variant :=
  (members.find? fun pair => Variant.cString pair.1 = name).map Prod.snd

/-- The value of the last pair of that name, which the second walk keeps. -/
def lastMember (name : Text) (members : List (Text × Variant)) : Option Variant :=
  namedMember name members.reverse

def evaluateRollout (manifest : Variant) (digest : Digest) : RolloutVerdict :=
  match namedMember (text "rollout") manifest.members with
  | none => .Absent
  | some r =>
      if !r.isObject then .Malformed
      else
        match (r.get (text "bucket_lo")).int?, (r.get (text "bucket_hi")).int? with
        | some lo, some hi =>
            if lo < 0 ∨ hi > 99 ∨ lo > hi then .Malformed
            else if r.members.any fun pair =>
                decide (Variant.cString pair.1 ≠ text "allow") &&
                  (pair.2.isObject || pair.2.isArray) then .Malformed
            else
              let va := lastMember (text "allow") r.members
              if va.any fun allow => !allow.isArray then .Malformed
              else
                let allow := (va.getD .null).elements
                if allow.any fun e => !isRolloutHexPrefix e.chars? then .Malformed
                else
                  let inAllow := allow.any fun e =>
                    rolloutPrefixMatches e.chars? (rolloutPrefixHex digest)
                  if rolloutEligible (UInt32.ofInt lo) (UInt32.ofInt hi) (rolloutBucket digest)
                      inAllow then .Eligible
                  else .NotEligible
        | _, _ => .Malformed

/-! ## The generator -/

namespace Manifest

/-- Where `str.splitlines` ends a line. -/
def isLineBreak (c : Char) : Bool :=
  [0x0a, 0x0b, 0x0c, 0x0d, 0x1c, 0x1d, 0x1e, 0x85, 0x2028, 0x2029].contains c.toNat

def splitlines : List Char → List (List Char)
  | [] => []
  | '\r' :: '\n' :: rest => [] :: splitlines rest
  | c :: rest =>
      if isLineBreak c then [] :: splitlines rest
      else
        match splitlines rest with
        | [] => [[c]]
        | line :: lines => (c :: line) :: lines

/-- `str.isspace`, for one character. -/
def isSpace (c : Char) : Bool :=
  [0x09, 0x0a, 0x0b, 0x0c, 0x0d, 0x1c, 0x1d, 0x1e, 0x1f, 0x20, 0x85, 0xa0, 0x1680, 0x2000, 0x2001,
    0x2002, 0x2003, 0x2004, 0x2005, 0x2006, 0x2007, 0x2008, 0x2009, 0x200a, 0x2028, 0x2029, 0x202f,
    0x205f, 0x3000].contains c.toNat

def strip (line : List Char) : List Char := (line.dropWhile isSpace).rdropWhile isSpace

def isHexDigit (c : Char) : Bool :=
  ('0' ≤ c && c ≤ '9') || ('a' ≤ c && c ≤ 'f') || ('A' ≤ c && c ≤ 'F')

/-- `re.fullmatch(r"[0-9a-fA-F]{16}", entry)` -/
def fullmatch (entry : List Char) : Bool := entry.length = 16 && entry.all isHexDigit

def MAX_ROLLOUT_ALLOW : Nat := 64

/-- The argument of `--rollout-allow`: its path, and what reading the file gives, the
decoded text or the text of the `OSError`. Bytes that are no UTF-8 end the program. -/
structure AllowFile where
  path : String
  read : Except String (List Char)

inductive RolloutError where
  | allowNeedsRange
  | notTogether
  | outOfRange (lo hi : Int)
  | notOrdered (lo hi : Int)
  | cannotRead (error : String)
  | notPrefix (path : String) (line : Nat)
  | tooMany (count : Nat)
  deriving DecidableEq, Repr

/-- The text of the `SystemExit`. -/
def RolloutError.message : RolloutError → String
  | .allowNeedsRange => "make_manifest: --rollout-allow needs --rollout-lo and --rollout-hi"
  | .notTogether => "make_manifest: --rollout-lo and --rollout-hi must be given together"
  | .outOfRange lo hi =>
      "make_manifest: --rollout-lo/--rollout-hi must be 0..99 (got " ++ toString lo ++ ", " ++
        toString hi ++ ")"
  | .notOrdered lo hi =>
      "make_manifest: --rollout-lo (" ++ toString lo ++ ") must not exceed --rollout-hi (" ++
        toString hi ++ ")"
  | .cannotRead error => "make_manifest: cannot read --rollout-allow file: " ++ error
  | .notPrefix path line =>
      "make_manifest: --rollout-allow " ++ path ++ ":" ++ toString line ++
        " is not a 16-hex SHA-256 prefix " ++
        "(rollout allow entries are never raw keys or full digests)"
  | .tooMany count =>
      "make_manifest: --rollout-allow has " ++ toString count ++
        " distinct entries; the rollout allow list " ++ "is capped at " ++
        toString MAX_ROLLOUT_ALLOW

structure Rollout where
  bucket_lo : Int
  bucket_hi : Int
  allow : Option (List (List Char)) := none
  deriving DecidableEq, Repr

/-- The loop over the lines, with the set of prefixes so far as a list without repeats. -/
def collectPrefixes (path : String) :
    Nat → List (List Char) → List (List Char) → Except RolloutError (List (List Char))
  | _, prefixes, [] => .ok prefixes
  | n, prefixes, line :: lines =>
      let entry := strip line
      if entry = [] then collectPrefixes path (n + 1) prefixes lines
      else if !fullmatch entry then .error (.notPrefix path n)
      else collectPrefixes path (n + 1) (prefixes.insert (entry.map Char.toLower)) lines

def readAllow (file : AllowFile) : Except RolloutError (List (List Char)) :=
  match file.read with
  | .error error => .error (.cannotRead error)
  | .ok contents =>
      match collectPrefixes file.path 1 [] (splitlines contents) with
      | .error error => .error error
      | .ok prefixes =>
          if prefixes.length > MAX_ROLLOUT_ALLOW then .error (.tooMany prefixes.length)
          else .ok (prefixes.insertionSort (· ≤ ·))

def parse_rollout (lo hi : Option Int) (allow : Option AllowFile) :
    Except RolloutError (Option Rollout) :=
  match lo, hi with
  | none, none => if allow.isSome then .error .allowNeedsRange else .ok none
  | some lo, some hi =>
      if ¬ (0 ≤ lo ∧ lo ≤ 99 ∧ 0 ≤ hi ∧ hi ≤ 99) then .error (.outOfRange lo hi)
      else if lo > hi then .error (.notOrdered lo hi)
      else
        match allow with
        | none => .ok (some ⟨lo, hi, none⟩)
        | some file =>
            match readAllow file with
            | .error error => .error error
            | .ok prefixes => .ok (some ⟨lo, hi, some prefixes⟩)
  | _, _ => .error .notTogether

/-- A string of ASCII characters in the document. -/
def asciiText (entry : List Char) : Text := entry.map fun c => c.toNat.toUInt8

/-- The object as `json.dump` orders its keys. -/
def Rollout.toVariant (rollout : Rollout) : Variant :=
  .object <|
    (match rollout.allow with
      | none => []
      | some entries =>
          [(text "allow", .array (entries.map fun entry => .string (asciiText entry)))]) ++
    [(text "bucket_hi", .integer rollout.bucket_hi), (text "bucket_lo", .integer rollout.bucket_lo)]

/-- The manifest that `main` dumps. -/
def manifest (firmware_version channel : Text) (builds : List (Text × Variant))
    (rollout : Option Rollout) : Variant :=
  .object <|
    [(text "builds", .object builds), (text "channel", .string channel),
      (text "firmware_version", .string firmware_version), (text "olostep_kill", .boolean false)] ++
    (match rollout with
      | none => []
      | some rollout => [(text "rollout", rollout.toVariant)])

end Manifest

end FryFirmware.Ota
