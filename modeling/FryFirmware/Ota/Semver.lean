import FryFirmware.Config.Store
import Mathlib.Data.List.Basic
import Mathlib.Tactic.Common

/-!
# Version order

`lib/fry_core/semver.cpp`: SemVer precedence over C strings, with 32-bit components
that wrap around.
-/

set_option autoImplicit false

namespace FryFirmware.Ota

open Config (Text)

def isDigit (c : UInt8) : Bool := 48 ≤ c && c ≤ 57

def dot : UInt8 := 46

/-- The digits at the front as a number, and what follows one dot behind them. -/
def nextComponentFrom (v : UInt32) : Text → UInt32 × Text
  | [] => (v, [])
  | c :: rest =>
      if isDigit c then nextComponentFrom (v * 10 + (c - 48).toUInt32) rest
      else if c = dot then (v, rest)
      else (v, [])

def nextComponent (p : Text) : UInt32 × Text := nextComponentFrom 0 p

def compareComponents (pa pb : Text) : Nat → Int
  | 0 => 0
  | left + 1 =>
      let (ca, pa) := nextComponent pa
      let (cb, pb) := nextComponent pb
      if ca < cb then -1
      else if ca > cb then 1
      else compareComponents pa pb left

def compareSemver (a b : Text) : Int := compareComponents a b 3

/-- What follows the first `-` behind the numeric core. -/
def preRelease (v : Text) : Text :=
  match v.dropWhile fun c => isDigit c || c = dot with
  | [] => []
  | c :: rest => if c = 45 then rest else []

def endOfPre (c : UInt8) : Bool := c = 43

def endOfIdent (c : UInt8) : Bool := endOfPre c || c = dot

def hasPre (p : Text) : Bool :=
  match p with
  | [] => false
  | c :: _ => !endOfPre c

/-- The identifier at `p`, and whether it is all digits. -/
def identAt (p : Text) : Text × Bool :=
  let ident := p.takeWhile fun c => !endOfIdent c
  (ident, ident ≠ [] && ident.all isDigit)

/-- Leading zeros, but not the last digit. -/
def skipZeros : Text → Text
  | [] => []
  | [c] => [c]
  | c :: d :: rest => if c = 48 then skipZeros (d :: rest) else c :: d :: rest

def compareBytes : Text → Text → Int
  | [], [] => 0
  | [], _ :: _ => -1
  | _ :: _, [] => 1
  | a :: as, b :: bs => if a ≠ b then (if a < b then -1 else 1) else compareBytes as bs

def compareIdent (a : Text) (na : Bool) (b : Text) (nb : Bool) : Int :=
  if na && nb then
    let a := skipZeros a
    let b := skipZeros b
    if a.length ≠ b.length then (if a.length < b.length then -1 else 1) else compareBytes a b
  else if na ≠ nb then (if na then -1 else 1)
  else compareBytes a b

/-- Identifier by identifier; where one ends first, the longer is greater. -/
def comparePre (pa pb : Text) : Int :=
  let c := compareIdent (identAt pa).1 (identAt pa).2 (identAt pb).1 (identAt pb).2
  if c ≠ 0 then c
  else
    match restA : pa.drop (identAt pa).1.length, pb.drop (identAt pb).1.length with
    | moreA :: nextA, moreB :: nextB =>
        if moreA = dot ∧ moreB = dot then comparePre nextA nextB
        else if moreA = dot then 1
        else if moreB = dot then -1
        else 0
    | moreA :: _, [] => if moreA = dot then 1 else 0
    | [], moreB :: _ => if moreB = dot then -1 else 0
    | [], [] => 0
termination_by pa.length
decreasing_by
  have shorter := congrArg List.length restA
  simp only [List.length_drop, List.length_cons] at shorter
  omega

def compareSemverPrecedence (a b : Text) : Int :=
  let core := compareSemver a b
  if core ≠ 0 then core
  else
    let pa := preRelease a
    let pb := preRelease b
    if !hasPre pa || !hasPre pb then
      if hasPre pa = hasPre pb then 0 else if hasPre pa then -1 else 1
    else comparePre pa pb

def isNewerVersionOta (latest current : Text) : Bool := compareSemverPrecedence latest current > 0

/-! ## No version is newer than itself -/

theorem compareComponents_self (p : Text) (left : Nat) : compareComponents p p left = 0 := by
  induction left generalizing p with
  | zero => rfl
  | succ left ih =>
      have irreflexive : ¬ (nextComponent p).1 < (nextComponent p).1 := UInt32.lt_irrefl _
      simp only [compareComponents, gt_iff_lt, if_neg irreflexive]
      exact ih _

theorem compareBytes_self (a : Text) : compareBytes a a = 0 := by
  induction a with
  | nil => rfl
  | cons c rest ih => simpa [compareBytes] using ih

theorem compareIdent_self (a : Text) (na : Bool) : compareIdent a na a na = 0 := by
  cases na <;> simp [compareIdent, compareBytes_self]

theorem comparePre_self (p : Text) : comparePre p p = 0 := by
  induction size : p.length using Nat.strongRecOn generalizing p with
  | ind size ih =>
      subst size
      rw [comparePre]
      simp only [compareIdent_self]
      split
      · next differs => exact absurd rfl differs
      · split
        · next moreA nextA moreB nextB restA restB =>
            obtain ⟨rfl, rfl⟩ : moreA = moreB ∧ nextA = nextB := by simp_all
            have shorter := congrArg List.length restA
            simp only [List.length_drop, List.length_cons] at shorter
            have same := ih nextA.length (by omega) nextA rfl
            split
            · exact same
            · split
              · simp_all
              · rfl
        · simp_all
        · simp_all
        · rfl

theorem isNewerVersionOta_self (v : Text) : isNewerVersionOta v v = false := by
  have core : compareSemver v v = 0 := compareComponents_self v 3
  simp only [isNewerVersionOta, compareSemverPrecedence, core]
  split
  · next differs => exact absurd rfl differs
  · split
    · simp
    · simp [comparePre_self]

end FryFirmware.Ota
