import FryFirmware.Lib.Decimal
import FryFirmware.Lib.Joined
import FryFirmware.Lib.Octets
import Mathlib.Data.List.Basic
import Mathlib.Tactic.Common
import Mathlib.Tactic.Ring

/-!
# Internet addresses as text

Dotted quads, the text forms of RFC 4291, section 2.2, and the numbers-and-dots notation
that `inet_aton` reads.
-/

set_option autoImplicit false

namespace FryFirmware.Lib.InetText

open Json (isDigit digitsValue)

/-! ## Dotted quads -/

/-- A byte in decimal, without a zero in front. -/
def Octet (digits : List UInt8) (v : UInt8) : Prop :=
  Decimal.Canonical digits ∧ digitsValue digits = v.toNat

inductive Quad : List UInt8 → UInt8 → UInt8 → UInt8 → UInt8 → Prop where
  | dotted {p q r t : List UInt8} {a b c d : UInt8} :
      Octet p a → Octet q b → Octet r c → Octet t d →
      Quad (p ++ 46 :: (q ++ 46 :: (r ++ 46 :: t))) a b c d

theorem Octet.length_le {digits : List UInt8} {v : UInt8} (octet : Octet digits v) :
    digits.length ≤ 3 := by
  obtain ⟨canonical, value⟩ := octet
  by_contra long
  have large := canonical.le_value (by omega)
  have byte : v.toNat < 256 := v.toNat_lt
  have power : 10 ^ 3 ≤ 10 ^ (digits.length - 1) := Nat.pow_le_pow_right (by decide) (by omega)
  omega

theorem Octet.unique {digits : List UInt8} {v w : UInt8} (one : Octet digits v)
    (other : Octet digits w) : v = w :=
  UInt8.toNat.inj (one.2.symm.trans other.2)

theorem isDigit_dot : isDigit 46 = false := by decide

theorem Octet.mem {digits : List UInt8} {v c : UInt8} (octet : Octet digits v) (member : c ∈ digits) :
    isDigit c = true :=
  octet.1.2.1 c member

theorem Quad.mem {s : List UInt8} {a b c d x : UInt8} (quad : Quad s a b c d) (member : x ∈ s) :
    isDigit x = true ∨ x = 46 := by
  obtain ⟨first, second, third, fourth⟩ := quad
  simp only [List.mem_append, List.mem_cons] at member
  rcases member with here | rfl | here | rfl | here | rfl | here
  · exact .inl (first.mem here)
  · exact .inr rfl
  · exact .inl (second.mem here)
  · exact .inr rfl
  · exact .inl (third.mem here)
  · exact .inr rfl
  · exact .inl (fourth.mem here)

theorem Quad.dot_mem {s : List UInt8} {a b c d : UInt8} (quad : Quad s a b c d) : (46 : UInt8) ∈ s := by
  obtain ⟨-, -, -, -⟩ := quad
  simp

/-! ## Hexadecimal numbers -/

def hexDigit (c : UInt8) : Option Nat :=
  if 48 ≤ c ∧ c ≤ 57 then some (c.toNat - 48)
  else if 97 ≤ c ∧ c ≤ 102 then some (c.toNat - 87)
  else if 65 ≤ c ∧ c ≤ 70 then some (c.toNat - 55)
  else none

/-- The number with these digits; every digit is below the base. -/
def number (base : Nat) (digits : List UInt8) : Option Nat :=
  digits.foldlM (fun n c => (hexDigit c).bind fun d => if d < base then some (n * base + d) else none) 0

theorem number_append (base : Nat) (digits : List UInt8) (c : UInt8) :
    number base (digits ++ [c]) = (number base digits).bind fun n =>
      (hexDigit c).bind fun d => if d < base then some (n * base + d) else none := by
  simp [number, List.foldlM_append]

/-! ## Text forms of IPv6 addresses -/

/-- Sixteen bits as one to four hexadecimal digits. -/
def Group (t : List UInt8) (v : UInt16) : Prop :=
  1 ≤ t.length ∧ t.length ≤ 4 ∧ number 16 t = some v.toNat

def pair (high low : UInt8) : UInt16 := UInt16.ofNat (high.toNat * 256 + low.toNat)

/-- Groups; where `tail` is set, the last two may be a dotted quad. -/
inductive Pieces (tail : Bool) : List (List UInt8) → List UInt16 → Prop where
  | none : Pieces tail [] []
  | quad {t : List UInt8} {a b c d : UInt8} :
      tail = true → Quad t a b c d → Pieces tail [t] [pair a b, pair c d]
  | group {t : List UInt8} {v : UInt16} {parts : List (List UInt8)} {groups : List UInt16} :
      Group t v → Pieces tail parts groups → Pieces tail (t :: parts) (v :: groups)

def colons (parts : List (List UInt8)) : List UInt8 := [58].intercalate parts

/-- The text forms of RFC 4291, section 2.2: all eight groups, or `::` in the place of one
or more that are zero. -/
inductive Ipv6 : List UInt8 → List UInt16 → Prop where
  | full {parts : List (List UInt8)} {groups : List UInt16} :
      Pieces true parts groups → groups.length = 8 → Ipv6 (colons parts) groups
  | compressed {left right : List (List UInt8)} {high low : List UInt16} {zeros : Nat} :
      Pieces false left high → Pieces true right low → 1 ≤ zeros →
      high.length + zeros + low.length = 8 →
      Ipv6 (colons left ++ 58 :: 58 :: colons right) (high ++ List.replicate zeros 0 ++ low)

/-- The bytes of an address, in network order. -/
def octets (groups : List UInt16) : List UInt8 :=
  groups.flatMap fun v => [UInt8.ofNat (v.toNat / 256), UInt8.ofNat (v.toNat % 256)]

/-! ## Numbers and dots -/

/-- One number: hexadecimal behind `0x`, octal behind `0`, and else decimal. -/
def readPart : List UInt8 → Option Nat
  | [] => none
  | 48 :: x :: rest => if x = 120 ∨ x = 88 then number 16 rest else number 8 (x :: rest)
  | digits => number 10 digits

/-- Each number is a byte, and the last one takes the `room` that is left. -/
def fill : Nat → List Nat → Option Nat
  | 0, _ => none
  | _, [] => none
  | room + 1, [last] => if last < 256 ^ (room + 1) then some last else none
  | room + 1, v :: rest => if v < 256 then (fill room rest).map (v * 256 ^ room + ·) else none

def dropDot (host : List UInt8) : List UInt8 :=
  if host.getLast? = some 46 then host.dropLast else host

/-- One to four numbers with dots between them, and a dot at the end or none. -/
def aton (host : List UInt8) : Option Nat :=
  (((dropDot host).splitOn 46).mapM readPart).bind (fill 4)

/-! ## Digits -/

theorem number_mem {base n : Nat} {digits : List UInt8} (read : number base digits = some n) {c : UInt8}
    (member : c ∈ digits) : ∃ d, hexDigit c = some d ∧ d < base := by
  induction digits using List.reverseRecOn generalizing n with
  | nil => cases member
  | append_singleton digits last ih =>
      rw [number_append] at read
      obtain ⟨m, front, rest⟩ := Option.bind_eq_some_iff.mp read
      obtain ⟨d, digit, small⟩ := Option.bind_eq_some_iff.mp rest
      rcases List.mem_append.mp member with here | here
      · exact ih front here
      · obtain rfl := List.mem_singleton.mp here
        exact ⟨d, digit, by by_contra large; simp [large] at small⟩

theorem number_lt {base n : Nat} {digits : List UInt8} (read : number base digits = some n) :
    n < base ^ digits.length := by
  induction digits using List.reverseRecOn generalizing n with
  | nil =>
      cases read
      simp
  | append_singleton digits last ih =>
      rw [number_append] at read
      obtain ⟨m, front, rest⟩ := Option.bind_eq_some_iff.mp read
      obtain ⟨d, -, value⟩ := Option.bind_eq_some_iff.mp rest
      split at value
      · next small =>
        cases value
        have less := Decimal.scale_lt base (ih front) small
        rwa [List.length_append, List.length_singleton, Nat.pow_succ]
      · cases value

/-! ## Pieces -/

theorem hexDigit_colon : hexDigit 58 = none := by decide

theorem hexDigit_dot : hexDigit 46 = none := by decide

theorem Group.not_mem {t : List UInt8} {v : UInt16} (group : Group t v) {c : UInt8}
    (plain : hexDigit c = none) : c ∉ t := by
  intro member
  obtain ⟨d, digit, -⟩ := number_mem group.2.2 member
  rw [plain] at digit
  cases digit

theorem Pieces.plain {tail : Bool} {parts : List (List UInt8)} {groups : List UInt16}
    (pieces : Pieces tail parts groups) : ∀ t ∈ parts, t ≠ [] ∧ (58 : UInt8) ∉ t := by
  induction pieces with
  | none => exact nofun
  | quad _ quad =>
      intro t member
      obtain rfl := List.mem_singleton.mp member
      refine ⟨List.ne_nil_of_mem quad.dot_mem, fun colon => ?_⟩
      rcases quad.mem colon with digit | dot
      · exact absurd digit (by decide)
      · exact absurd dot (by decide)
  | group group _ ih =>
      intro t member
      rcases List.mem_cons.mp member with rfl | later
      · exact ⟨List.ne_nil_of_length_pos group.1, group.not_mem hexDigit_colon⟩
      · exact ih t later

theorem length_octets (groups : List UInt16) : (octets groups).length = 2 * groups.length := by
  induction groups with
  | nil => rfl
  | cons v groups ih =>
      rw [octets, List.flatMap_cons, List.length_append, ← octets, ih, List.length_cons]
      simp only [List.length_cons, List.length_nil]
      omega

theorem Ipv6.length {s : List UInt8} {groups : List UInt16} (shape : Ipv6 s groups) :
    groups.length = 8 := by
  cases shape with
  | full _ eight => exact eight
  | compressed _ _ _ eight => simpa [Nat.add_assoc] using eight

/-! ## Networks -/

/-- The number these bytes make up in network order. -/
def value (bytes : List UInt8) : Nat := bytes.foldl (fun n c => n * 256 + c.toNat) 0

/-- The first `bits` of the 128 bits of an address are those of the network. -/
def InNet (net bits address : Nat) : Prop := address / 2 ^ (128 - bits) = net / 2 ^ (128 - bits)

theorem value_append (front back : List UInt8) :
    value (front ++ back) = value front * 256 ^ back.length + value back ∧
      value back < 256 ^ back.length := by
  induction back using List.reverseRecOn with
  | nil => simp [value]
  | append_singleton back c ih =>
      obtain ⟨split, small⟩ := ih
      have byte : c.toNat < 256 := c.toNat_lt
      have last (s : List UInt8) : value (s ++ [c]) = value s * 256 + c.toNat := by simp [value]
      rw [← List.append_assoc, last, split, last, List.length_append, List.length_singleton, Nat.pow_succ]
      constructor
      · ring
      · exact Decimal.scale_lt 256 small byte

/-- A network that the first bytes decide. -/
theorem inNet_front {net bits : Nat} (front back : List UInt8) (whole : front.length + back.length = 16)
    (short : bits ≤ 8 * front.length) : InNet net bits (value (front ++ back)) ↔
      value front / 2 ^ (8 * front.length - bits) = net / 2 ^ (128 - bits) := by
  obtain ⟨split, small⟩ := value_append front back
  have power : 2 ^ (128 - bits) = 256 ^ back.length * 2 ^ (8 * front.length - bits) := by
    rw [show 256 = 2 ^ 8 by rfl, ← Nat.pow_mul, ← Nat.pow_add]
    congr 1
    omega
  have shifted : value (front ++ back) / 256 ^ back.length = value front := by
    rw [split, Nat.mul_comm, Nat.mul_add_div (Nat.pow_pos (by decide)), Nat.div_eq_of_lt small,
      Nat.add_zero]
  rw [InNet, power, ← Nat.div_div_eq_div_mul, shifted]

theorem value_inj {a b : List UInt8} (same : a.length = b.length) (equal : value a = value b) : a = b := by
  induction a generalizing b with
  | nil => exact (List.length_eq_zero_iff.mp same.symm).symm
  | cons c a ih =>
      cases b with
      | nil => simp at same
      | cons d b =>
          rw [List.length_cons, List.length_cons, Nat.add_right_cancel_iff] at same
          obtain ⟨splitA, smallA⟩ := value_append [c] a
          obtain ⟨splitB, smallB⟩ := value_append [d] b
          rw [List.singleton_append] at splitA splitB
          rw [splitA, splitB, same] at equal
          rw [same] at smallA
          have high := congrArg (· / 256 ^ b.length) equal
          have low := congrArg (· % 256 ^ b.length) equal
          have positive : 0 < 256 ^ b.length := Nat.pow_pos (by decide)
          simp only [Nat.mul_comm _ (256 ^ b.length), Nat.mul_add_div positive, Nat.mul_add_mod,
            Nat.div_eq_of_lt smallA, Nat.div_eq_of_lt smallB, Nat.mod_eq_of_lt smallA,
            Nat.mod_eq_of_lt smallB, Nat.add_zero] at high low
          have first : c = d := UInt8.toNat.inj (by simpa [value] using high)
          rw [first, ih same low]

/-- In a network of whole bytes, the first bytes are those of the network. -/
theorem inNet_bytes {net : Nat} (front back expected : List UInt8)
    (whole : expected.length + back.length = 16) (same : front.length = expected.length)
    (known : net / 2 ^ (128 - 8 * expected.length) = value expected)
    (inside : InNet net (8 * expected.length) (value (front ++ back))) : front = expected := by
  have equal := (inNet_front front back (by omega) (by omega)).mp inside
  rw [same, Nat.sub_self, Nat.pow_zero, Nat.div_one, known] at equal
  exact value_inj same equal

/-! ## What numbers and dots denote -/

theorem hexDigit_decimal : ∀ c : UInt8, ((hexDigit c).any (· < 10) = true → isDigit c = true) ∧
    (isDigit c = true → hexDigit c = some (c - 48).toNat) :=
  forall_byte (by decide +kernel)

theorem number_digits {base n : Nat} {digits : List UInt8} (small : base ≤ 10)
    (read : number base digits = some n) : ∀ c ∈ digits, isDigit c = true := by
  intro c member
  obtain ⟨d, digit, below⟩ := number_mem read member
  refine (hexDigit_decimal c).1 ?_
  rw [digit]
  exact decide_eq_true (show d < 10 by omega)

theorem number_decimal {digits : List UInt8} (all : ∀ c ∈ digits, isDigit c = true) :
    number 10 digits = some (digitsValue digits) := by
  induction digits using List.reverseRecOn with
  | nil => rfl
  | append_singleton digits c ih =>
      have front := ih fun d member => all d (List.mem_append_left _ member)
      obtain ⟨low, value, small⟩ := Decimal.digit_lt (all c (by simp))
      have digit := (hexDigit_decimal c).2 (all c (by simp))
      rw [number_append, front, digit, Option.bind_some, Option.bind_some, if_pos (by omega),
        Decimal.digitsValue_append]

/-- A part holds no dot. -/
theorem readPart_no_dot {t : List UInt8} {v : Nat} (read : readPart t = some v) : (46 : UInt8) ∉ t := by
  have plain {base n : Nat} {digits : List UInt8} (read : number base digits = some n) :
      (46 : UInt8) ∉ digits := by
    intro member
    obtain ⟨d, digit, -⟩ := number_mem read member
    rw [hexDigit_dot] at digit
    cases digit
  unfold readPart at read
  split at read
  · cases read
  · next x rest =>
    split at read
    · next hex =>
      have free := plain read
      rcases hex with rfl | rfl
      all_goals simpa using free
    · have free := plain read
      simpa using free
  · exact plain read

theorem Octet.readPart {digits : List UInt8} {v : UInt8} (octet : Octet digits v) :
    readPart digits = some v.toNat := by
  obtain ⟨⟨filled, all, leading⟩, value⟩ := octet
  have decimal := number_decimal all
  rw [value] at decimal
  unfold InetText.readPart
  split
  · exact absurd rfl filled
  · simp at leading
  · exact decimal

theorem fill_lt {room last a : Nat} {values : List Nat} (filled : fill room (values ++ [last]) = some a) :
    values.length < room ∧ ∀ v ∈ values, v < 256 := by
  induction values generalizing room a with
  | nil =>
      cases room with
      | zero => cases filled
      | succ room => exact ⟨Nat.succ_pos _, nofun⟩
  | cons v values ih =>
      cases room with
      | zero => cases filled
      | succ room =>
          obtain ⟨w, rest, shape⟩ := List.exists_cons_of_ne_nil (l := values ++ [last]) (by simp)
          rw [List.cons_append, shape, fill, ← shape] at filled
          · split at filled
            · next byte =>
              obtain ⟨later, others, -⟩ := Option.map_eq_some_iff.mp filled
              obtain ⟨short, bytes⟩ := ih others
              refine ⟨Nat.succ_lt_succ short, fun u member => ?_⟩
              rcases List.mem_cons.mp member with rfl | inside
              · exact byte
              · exact bytes u inside
            · cases filled
          · nofun

theorem splitOn_map {f : UInt8 → UInt8} {sep : UInt8} (same : ∀ c, f c = sep ↔ c = sep)
    (s : List UInt8) : (s.map f).splitOn sep = (s.splitOn sep).map (List.map f) := by
  induction s with
  | nil => rfl
  | cons c s ih =>
      rw [List.map_cons, List.splitOn_cons_eq_if_modifyHead, List.splitOn_cons_eq_if_modifyHead, ih]
      by_cases at_end : c = sep
      · simp [at_end, (same sep).mpr rfl]
      · have other : f c ≠ sep := fun eq => at_end ((same c).mp eq)
        cases parts : s.splitOn sep with
        | nil => exact absurd parts (List.splitOn_ne_nil sep s)
        | cons part rest => simp [at_end, other]

theorem Octet.not_mem {digits : List UInt8} {v c : UInt8} (octet : Octet digits v)
    (other : isDigit c = false) : c ∉ digits := by
  intro member
  rw [octet.mem member] at other
  cases other

/-- A dotted quad denotes the address of its four bytes. -/
theorem Quad.aton {s : List UInt8} {a b c d : UInt8} (quad : Quad s a b c d) :
    aton s = some (a.toNat * 256 ^ 3 + (b.toNat * 256 ^ 2 + (c.toNat * 256 ^ 1 + d.toNat))) := by
  obtain @⟨p, q, r, t, _, _, _, _, first, second, third, fourth⟩ := quad
  have whole : dropDot (p ++ 46 :: (q ++ 46 :: (r ++ 46 :: t))) = p ++ 46 :: (q ++ 46 :: (r ++ 46 :: t)) := by
    refine if_neg fun ends => fourth.not_mem isDigit_dot (List.mem_of_getLast? ?_)
    simpa [List.getLast?_append, List.getLast?_cons, List.getLast?_eq_some_getLast fourth.1.1] using ends
  have bytes := (⟨a.toNat_lt, b.toNat_lt, c.toNat_lt, d.toNat_lt⟩ :
    a.toNat < 256 ∧ b.toNat < 256 ∧ c.toNat < 256 ∧ d.toNat < 256)
  rw [InetText.aton, whole, List.splitOn_append_cons_self_of_not_mem (first.not_mem isDigit_dot),
    List.splitOn_append_cons_self_of_not_mem (second.not_mem isDigit_dot),
    List.splitOn_append_cons_self_of_not_mem (third.not_mem isDigit_dot),
    List.splitOn_eq_singleton (fourth.not_mem isDigit_dot)]
  simp [first.readPart, second.readPart, third.readPart, fourth.readPart, fill, bytes]

end FryFirmware.Lib.InetText
