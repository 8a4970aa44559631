import FryFirmware.Lib.Joined
import Mathlib.Data.List.Basic
import Mathlib.Tactic.Common

/-!
# Parts of a URL

Where RFC 3986 finds the scheme and the authority of a URL, and the host and the port in
an authority without userinfo.
-/

set_option autoImplicit false

namespace FryFirmware.Lib.Url

def notColon (c : UInt8) : Bool := c ≠ 58

/-- `/`, `?` and `#` end an authority. -/
def inAuthority (c : UInt8) : Bool := c ≠ 47 && c ≠ 63 && c ≠ 35

def schemeOf (url : List UInt8) : List UInt8 := url.takeWhile notColon

/-- What stands between `//` behind the scheme and the end of the authority. -/
def authorityOf (url : List UInt8) : Option (List UInt8) :=
  match url.dropWhile notColon with
  | 58 :: 47 :: 47 :: rest => some (rest.takeWhile inAuthority)
  | _ => none

variable {scheme rest : List UInt8}

theorem schemeOf_eq (plain : ∀ c ∈ scheme, notColon c = true) :
    schemeOf (scheme ++ 58 :: 47 :: 47 :: rest) = scheme :=
  takeWhile_run plain fun c first => by cases first; rfl

theorem authorityOf_eq (plain : ∀ c ∈ scheme, notColon c = true) :
    authorityOf (scheme ++ 58 :: 47 :: 47 :: rest) = some (rest.takeWhile inAuthority) := by
  rw [authorityOf, dropWhile_run plain fun c first => by cases first; rfl]
  rfl

end FryFirmware.Lib.Url
