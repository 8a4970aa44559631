import Mathlib.Algebra.Ring.Nat
import Mathlib.Data.List.Basic
import Mathlib.Tactic.Common

/-!
# Aligned blocks of addresses

A block of `width`-bit addresses is named by the bits its members begin with. It
has two halves, and leaving an address out of it keeps the half without that
address.
-/

set_option autoImplicit false

namespace FryFirmware.Lib

/-- The addresses whose first `length` bits are the number `index`. -/
structure Block (width : Nat) where
  length : Nat
  index : Nat
  length_le : length ≤ width
  index_lt : index < 2 ^ length
  deriving DecidableEq, Repr

namespace Block

variable {width : Nat}

def size (b : Block width) : Nat := 2 ^ (width - b.length)

/-- The first address. -/
def net (b : Block width) : Nat := b.index * b.size

instance : Membership Nat (Block width) := ⟨fun b a => a / b.size = b.index⟩

instance (a : Nat) (b : Block width) : Decidable (a ∈ b) :=
  inferInstanceAs (Decidable (a / b.size = b.index))

/-- The block of this length around an address. -/
def around (length address : Nat) (length_le : length ≤ width) (address_lt : address < 2 ^ width) :
    Block width where
  length := length
  index := address / 2 ^ (width - length)
  length_le := length_le
  index_lt := by
    apply Nat.div_lt_of_lt_mul
    rwa [← Nat.pow_add, Nat.sub_add_cancel length_le]

/-- The upper or the lower half. -/
def half (b : Block width) (wide : b.length < width) (upper : Bool) : Block width where
  length := b.length + 1
  index := 2 * b.index + upper.toNat
  length_le := wide
  index_lt := by
    have bound := b.index_lt
    have bit := upper.toNat_lt
    rw [Nat.pow_succ]
    omega

/-- The address is in the upper half, if it is in the block. -/
def isUpper (b : Block width) (address : Nat) : Bool :=
  address / 2 ^ (width - (b.length + 1)) % 2 = 1

/-- The half without the address, or the block itself when the address is outside. -/
def away (b : Block width) (address : Nat) : Option (Block width) :=
  if address ∈ b then
    if wide : b.length < width then some (b.half wide !(b.isUpper address)) else none
  else some b

/-- What is left after each of the addresses in turn. -/
def avoid (b : Block width) (excluded : List Nat) : Option (Block width) :=
  excluded.foldlM away b

/-- A loop that leaves out the first of the addresses that is still inside, until
none is or nothing is left; `none` where it runs on after so many turns. -/
def dodge (excluded : List Nat) : (turns : Nat) → Block width → Option (Option (Block width))
  | 0, _ => none
  | turns + 1, b =>
      match excluded.find? fun x => x ∈ b with
      | none => some (some b)
      | some x =>
          match b.away x with
          | none => some none
          | some c => dodge excluded turns c

variable {b c : Block width} {a x y : Nat}

/-! ## Members -/

theorem mem_iff : a ∈ b ↔ a / b.size = b.index := Iff.rfl

theorem size_pos (b : Block width) : 0 < b.size := Nat.two_pow_pos _

theorem net_mem (b : Block width) : b.net ∈ b := Nat.mul_div_cancel _ b.size_pos

theorem net_lt (b : Block width) : b.net < 2 ^ width := by
  have whole : 2 ^ b.length * b.size = 2 ^ width := by
    rw [size, ← Nat.pow_add, Nat.add_sub_cancel' b.length_le]
  rw [← whole]
  exact Nat.mul_lt_mul_of_pos_right b.index_lt b.size_pos

theorem mem_around {length address : Nat} (length_le : length ≤ width)
    (address_lt : address < 2 ^ width) : address ∈ around length address length_le address_lt :=
  rfl

theorem eq_of_net (lengths : b.length = c.length) (nets : b.net = c.net) : b = c := by
  have sizes : b.size = c.size := by rw [size, size, lengths]
  have indices : b.index = c.index := by
    rw [net, net, sizes] at nets
    exact Nat.eq_of_mul_eq_mul_right c.size_pos nets
  cases b
  cases c
  simp_all

theorem mem_full (full : b.length = width) : a ∈ b ↔ a = b.net := by
  have single : b.size = 1 := by rw [size, full, Nat.sub_self, Nat.pow_zero]
  rw [mem_iff, net, single, Nat.div_one, Nat.mul_one]

/-! ## Halves -/

theorem size_half (wide : b.length < width) (upper : Bool) :
    b.size = 2 * (b.half wide upper).size := by
  rw [size, size, half, show width - b.length = (width - (b.length + 1)) + 1 by omega, Nat.pow_succ,
    Nat.mul_comm]

@[simp] theorem length_half (wide : b.length < width) (upper : Bool) :
    (b.half wide upper).length = b.length + 1 := rfl

@[simp] theorem index_half (wide : b.length < width) (upper : Bool) :
    (b.half wide upper).index = 2 * b.index + upper.toNat := rfl

theorem net_half (wide : b.length < width) (upper : Bool) :
    (b.half wide upper).net = b.net + upper.toNat * (b.half wide upper).size := by
  rw [net, net, index_half, size_half wide upper, Nat.add_mul, Nat.mul_assoc, Nat.mul_left_comm]

theorem mem_half_iff (wide : b.length < width) (upper : Bool) :
    a ∈ b.half wide upper ↔ a ∈ b ∧ b.isUpper a = upper := by
  have whole : a / b.size = a / (b.half wide upper).size / 2 := by
    rw [Nat.div_div_eq_div_mul, Nat.mul_comm, ← size_half wide upper]
  have marked : b.isUpper a = decide (a / (b.half wide upper).size % 2 = 1) := rfl
  rw [mem_iff, mem_iff, whole, marked, index_half]
  generalize a / (b.half wide upper).size = position
  cases upper
  · simp only [Bool.toNat_false, decide_eq_false_iff_not]
    omega
  · simp only [Bool.toNat_true, decide_eq_true_eq]
    omega

/-! ## Leaving addresses out -/

theorem away_outside (outside : a ∉ b) : b.away a = some b := if_neg outside

theorem away_inside (inside : a ∈ b) (wide : b.length < width) :
    b.away a = some (b.half wide !(b.isUpper a)) := by
  rw [away, if_pos inside, dif_pos wide]

theorem away_eq_none_iff : b.away a = none ↔ a ∈ b ∧ b.length = width := by
  have bound := b.length_le
  unfold away
  by_cases inside : a ∈ b
  · by_cases wide : b.length < width
    · simp [inside, wide, Nat.ne_of_lt wide]
    · simp [inside, show b.length = width by omega]
  · simp [inside]

/-- What is left is a part of the block, without the address and at most one bit
longer. -/
theorem away_eq_some (left : b.away a = some c) :
    (∀ y, y ∈ c ↔ y ∈ b ∧ (a ∈ b → b.isUpper y = !(b.isUpper a))) ∧
      (c = b ∨ c.length = b.length + 1) := by
  by_cases inside : a ∈ b
  · by_cases wide : b.length < width
    · rw [away_inside inside wide, Option.some.injEq] at left
      subst left
      exact ⟨fun y => by simp [mem_half_iff, inside], .inr rfl⟩
    · have full : b.length = width := Nat.le_antisymm b.length_le (by omega)
      rw [away_eq_none_iff.mpr ⟨inside, full⟩] at left
      cases left
  · rw [away_outside inside, Option.some.injEq] at left
    subst left
    exact ⟨fun y => by simp [inside], .inl rfl⟩

theorem away_subset (left : b.away a = some c) (member : y ∈ c) : y ∈ b :=
  (((away_eq_some left).1 y).mp member).1

theorem away_not_mem (left : b.away a = some c) : a ∉ c := by
  intro member
  obtain ⟨inside, bit⟩ := ((away_eq_some left).1 a).mp member
  have flipped := bit inside
  cases upper : b.isUpper a <;> simp [upper] at flipped

theorem away_length (left : b.away a = some c) :
    b.length ≤ c.length ∧ c.length ≤ b.length + 1 := by
  rcases (away_eq_some left).2 with rfl | longer <;> omega

@[simp] theorem avoid_nil (b : Block width) : b.avoid [] = some b := rfl

@[simp] theorem avoid_cons (b : Block width) (x : Nat) (excluded : List Nat) :
    b.avoid (x :: excluded) = (b.away x).bind (·.avoid excluded) := rfl

/-- What is left is a part of the block, without any of the addresses. -/
theorem avoid_eq_some {excluded : List Nat} (left : b.avoid excluded = some c) :
    (∀ y ∈ c, y ∈ b ∧ y ∉ excluded) ∧ b.length ≤ c.length := by
  induction excluded generalizing b with
  | nil =>
      cases left
      exact ⟨fun y member => ⟨member, List.not_mem_nil⟩, Nat.le_refl _⟩
  | cons x excluded ih =>
      obtain ⟨middle, first, later⟩ := Option.bind_eq_some_iff.mp left
      obtain ⟨inside, longer⟩ := ih later
      refine ⟨fun y member => ?_, Nat.le_trans (away_length first).1 longer⟩
      obtain ⟨here, apart⟩ := inside y member
      refine ⟨away_subset first here, ?_⟩
      rw [List.mem_cons, not_or]
      refine ⟨?_, apart⟩
      rintro rfl
      exact away_not_mem first here

theorem avoid_outside {excluded : List Nat} (outside : ∀ x ∈ excluded, x ∉ b) :
    b.avoid excluded = some b := by
  induction excluded with
  | nil => rfl
  | cons x excluded ih =>
      rw [avoid_cons, away_outside (outside x List.mem_cons_self), Option.bind_some]
      exact ih fun y member => outside y (List.mem_cons_of_mem _ member)

theorem avoid_append (b : Block width) (front back : List Nat) :
    b.avoid (front ++ back) = (b.avoid front).bind (·.avoid back) :=
  List.foldlM_append

/-- The loop ends, with what is left after each address in turn. -/
theorem dodge_eq (excluded : List Nat) {turns : Nat} (enough : width - b.length < turns) :
    b.dodge excluded turns = some (b.avoid excluded) := by
  induction turns generalizing b with
  | zero => omega
  | succ turns ih =>
      rw [dodge]
      cases first : excluded.find? fun x => x ∈ b with
      | none =>
          rw [avoid_outside]
          simpa using List.find?_eq_none.mp first
      | some x =>
          obtain ⟨inside, front, back, rfl, outside⟩ := List.find?_eq_some_iff_append.mp first
          replace inside : x ∈ b := of_decide_eq_true inside
          replace outside : ∀ y ∈ front, y ∉ b := by simpa using outside
          rw [avoid_append, avoid_outside outside, Option.bind_some, avoid_cons]
          cases left : b.away x with
          | none => simp only [left, Option.bind_none]
          | some c =>
              have apart : ∀ y ∈ front ++ [x], y ∉ c := by
                intro y member
                obtain here | last := List.mem_append.mp member
                · exact fun later => outside y here (away_subset left later)
                · rw [List.mem_singleton.mp last]
                  exact away_not_mem left
              have longer : c.length = b.length + 1 := by
                rcases (away_eq_some left).2 with same | longer
                · exact absurd (same ▸ inside) (away_not_mem left)
                · exact longer
              have bound := c.length_le
              simp only [left, Option.bind_some]
              rw [ih (by omega), ← List.singleton_append, ← List.append_assoc, avoid_append,
                avoid_outside apart]
              rfl

theorem eq_of_away_none (none : b.away a = none) (member : y ∈ b) : y = a := by
  obtain ⟨inside, full⟩ := away_eq_none_iff.mp none
  rw [(mem_full full).mp member, (mem_full full).mp inside]

/-- Of a block with nothing left after two addresses, both halves are one of them. -/
theorem eq_of_away_away_none (left : b.away x = some c) (none : c.away y = none) (member : a ∈ b) :
    a = x ∨ a = y := by
  obtain ⟨inside, full⟩ := away_eq_none_iff.mp none
  obtain ⟨members, rfl | longer⟩ := away_eq_some left
  · exact .inr (eq_of_away_none none member)
  · by_cases here : a ∈ c
    · exact .inr (eq_of_away_none none here)
    · have wide : b.length < width := by omega
      have split : x ∈ b ∧ b.isUpper a = b.isUpper x := by
        rw [members] at here
        by_contra apart
        apply here
        refine ⟨member, fun inBlock => ?_⟩
        have differ : b.isUpper a ≠ b.isUpper x := fun same => apart ⟨inBlock, same⟩
        exact Bool.eq_not.mpr differ
      have other : (b.half wide (b.isUpper x)).length = width := by rw [length_half]; omega
      have mine := (mem_half_iff wide _).mpr ⟨member, split.2⟩
      have excluded := (mem_half_iff wide _).mpr ⟨split.1, rfl⟩
      rw [mem_full other] at mine excluded
      exact .inl (mine.trans excluded.symm)

/-- Nothing is left of a block with up to two addresses left out only if they are
all it has. -/
theorem avoid_eq_none_iff {excluded : List Nat} (few : excluded.length ≤ 2) :
    b.avoid excluded = none ↔ ∀ y ∈ b, y ∈ excluded := by
  constructor
  · intro none y member
    match excluded, few with
    | [], _ => cases none
    | [x], _ =>
        rw [avoid_cons, Option.bind_eq_none_iff] at none
        cases left : b.away x with
        | none => exact List.mem_singleton.mpr (eq_of_away_none left member)
        | some c => cases none c left
    | [x, z], _ =>
        rw [avoid_cons, Option.bind_eq_none_iff] at none
        cases left : b.away x with
        | none => exact List.mem_cons.mpr (.inl (eq_of_away_none left member))
        | some c =>
            have later := none c left
            rw [avoid_cons, Option.bind_eq_none_iff] at later
            cases last : c.away z with
            | none => simpa using eq_of_away_away_none left last member
            | some d => cases later d last
  · intro all
    cases left : b.avoid excluded with
    | none => rfl
    | some c =>
        obtain ⟨inside, apart⟩ := (avoid_eq_some left).1 c.net c.net_mem
        exact absurd (all _ inside) apart

end Block

end FryFirmware.Lib
