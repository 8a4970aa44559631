import FryFirmware.Identity.KeyPolicy
import Mathlib.Data.List.Basic
import Mathlib.Tactic.Common

/-!
# Server words in the log

`sanitizeDetail` of `lib/fry_core/reg_result.cpp`, with `maskMinerKeyLast4` of
`key_policy.cpp`. A C string is its bytes in front of the NUL, `none` the null pointer;
what a function writes is its value, again without the NUL.
-/

set_option autoImplicit false

namespace FryFirmware.Identity

open Config

def kMaxDetail : Nat := 120

def ellipsis : Text := [0xE2, 0x80, 0xA6]

def hasKeyPrefix (s : Text) : Bool := (text "FEM-").isPrefixOf s || (text "IOT-").isPrefixOf s

def maskMinerKeyLast4 (key : Text) (outCap : Nat) : Text :=
  if outCap = 0 || key = [] then []
  else
    let n := key.length
    let showTail : Bool := n ≥ 12
    let showPrefix := showTail && hasKeyPrefix key
    let need := (if showPrefix then 4 else 0) + 3 + (if showTail then 4 else 0)
    if outCap < need + 1 then []
    else
      (if showPrefix then key.take 4 else []) ++ ellipsis ++
        (if showTail then (key.drop (n - 4)).map fun c => if 0x21 ≤ c && c ≤ 0x7E then c else 63 else [])

/-- The mask of a token, a long one by a stand-in of twelve bytes. -/
def maskTokenLast4 (src : Text) : Text :=
  let standIn := if src.length ≤ 11 then src else src.take 4 ++ text "xxxx" ++ src.drop (src.length - 4)
  maskMinerKeyLast4 standIn 12

def alnumRun (p : Text) : Nat := (p.takeWhile isAlnum).length

/-- How many bytes at the front are one key-shaped token; 0 where there is none. -/
def tokenLen (minerKey rest : Text) : Nat :=
  if minerKey.length ≥ 8 && minerKey.isPrefixOf rest then minerKey.length
  else if hasKeyPrefix rest && alnumRun (rest.drop 4) ≥ 8 then 4 + alnumRun (rest.drop 4)
  else 0

def plainChar (c : UInt8) : UInt8 :=
  if c = 34 then 39
  else if c = 92 then 47
  else if c < 0x20 || c > 0x7E then 63
  else c

/-- The loop of `sanitizeDetail`; every turn reads at least one byte. -/
def detailLoop (minerKey : Text) (cap : Nat) (last4 : Bool) : Nat → Text → Text → Text
  | 0, _, out => out
  | _, [], out => out
  | fuel + 1, c :: rest, out =>
      if out.length < cap then
        let len := tokenLen minerKey (c :: rest)
        if len ≠ 0 && last4 then
          let masked := maskTokenLast4 ((c :: rest).take len)
          -- all or nothing: a mask that no longer fits ends the text
          if masked.length = 0 || out.length + masked.length > cap then out
          else detailLoop minerKey cap last4 fuel ((c :: rest).drop len) (out ++ masked)
        else if len ≠ 0 then
          let keep := if len ≥ 6 then 6 else len
          detailLoop minerKey cap last4 fuel ((c :: rest).drop len)
            ((out ++ (c :: rest).take keep ++ text "...").take cap)
        else detailLoop minerKey cap last4 fuel rest (out ++ [plainChar c])
      else out

def sanitizeDetail (input minerKey : Option Text) (outCap : Nat) (last4 : Bool) : Text :=
  if outCap = 0 then []
  else
    match input with
    | none => []
    | some s =>
        let cap := if outCap - 1 < kMaxDetail then outCap - 1 else kMaxDetail
        detailLoop (minerKey.getD []) cap last4 s.length s []

def sanitizeServerDetail (input minerKey : Option Text) (outCap : Nat) : Text :=
  sanitizeDetail input minerKey outCap false

def sanitizeServerDetailLast4 (input minerKey : Option Text) (outCap : Nat) : Text :=
  sanitizeDetail input minerKey outCap true

end FryFirmware.Identity
