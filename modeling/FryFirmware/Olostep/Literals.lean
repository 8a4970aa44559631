import FryFirmware.Lib.InetText
import FryFirmware.Olostep.Guard
import Mathlib.Data.List.Basic
import Mathlib.Tactic.Common

/-!
# Address literals

The readers of addresses accept exactly the text forms.
-/

set_option autoImplicit false

namespace FryFirmware.Olostep

open Lib Lib.InetText
open Config (Text text)
open Lib.Json (isDigit digitsValue)

/-! ## Dotted quads -/

theorem strictLabel_octet {s rest : Text} {v : UInt8} (read : strictLabel s = some (v, rest)) :
    ∃ digits, Octet digits v ∧ s = digits ++ rest := by
  obtain ⟨digits, tail, rfl, inside, -, taken, -⟩ := run_split isDigit s
  simp only [strictLabel, taken, List.drop_left] at read
  split at read
  · cases read
  · split at read
    · cases read
    · next filled =>
      split at read
      · cases read
      · next leading =>
        split at read
        · cases read
        · next small =>
          cases read
          refine ⟨digits, ⟨⟨?_, inside, ?_⟩, ?_⟩, rfl⟩
          · rintro rfl
            exact filled rfl
          · by_contra both
            rw [not_or, not_not] at both
            exact leading ⟨by omega, both.2⟩
          · exact (UInt8.toNat_ofNat_of_lt' (Nat.lt_succ_of_le (Nat.le_of_not_lt small))).symm

theorem strictLabel_eq {digits : Text} {v : UInt8} (octet : Octet digits v) (rest : Text)
    (ends : ∀ c ∈ rest.head?, isDigit c = false) : strictLabel (digits ++ rest) = some (v, rest) := by
  have taken : (digits ++ rest).takeWhile isDigit = digits := takeWhile_run octet.1.2.1 ends
  have short := octet.length_le
  have byte : v.toNat < 256 := v.toNat_lt
  obtain ⟨⟨filled, -, leading⟩, value⟩ := octet
  simp only [strictLabel, taken, List.drop_left]
  rw [if_neg (by omega), if_neg (by simpa using filled), if_neg, if_neg (by omega), value,
    UInt8.ofNat_toNat]
  rintro ⟨long, zero⟩
  rcases leading with one | other
  · omega
  · exact other zero

theorem strictLabelDot_octet {s rest : Text} {v : UInt8} (read : strictLabelDot s = some (v, rest)) :
    ∃ digits, Octet digits v ∧ s = digits ++ 46 :: rest := by
  unfold strictLabelDot at read
  split at read
  · next label =>
    cases read
    exact strictLabel_octet label
  · cases read

theorem strictLabelDot_eq {digits rest : Text} {v : UInt8} (octet : Octet digits v) :
    strictLabelDot (digits ++ 46 :: rest) = some (v, rest) := by
  have label := strictLabel_eq octet (46 :: rest) (by simp [isDigit_dot])
  simp only [strictLabelDot, label]

theorem parseStrictV4_iff {s : Text} {q : Ip4} : parseStrictV4 s = some q ↔ Quad s q.a q.b q.c q.d := by
  constructor
  · intro read
    unfold parseStrictV4 at read
    obtain ⟨⟨a, s₁⟩, first, later⟩ := Option.bind_eq_some_iff.mp read
    obtain ⟨⟨b, s₂⟩, second, later⟩ := Option.bind_eq_some_iff.mp later
    obtain ⟨⟨c, s₃⟩, third, later⟩ := Option.bind_eq_some_iff.mp later
    obtain ⟨⟨d, s₄⟩, fourth, answer⟩ := Option.bind_eq_some_iff.mp later
    obtain ⟨p, octetP, rfl⟩ := strictLabelDot_octet first
    obtain ⟨q, octetQ, rfl⟩ := strictLabelDot_octet second
    obtain ⟨r, octetR, rfl⟩ := strictLabelDot_octet third
    obtain ⟨t, octetT, rfl⟩ := strictLabel_octet fourth
    dsimp only at answer
    split at answer
    · next ended =>
      cases answer
      obtain rfl : s₄ = [] := ended
      rw [List.append_nil]
      exact .dotted octetP octetQ octetR octetT
    · cases answer
  · intro quad
    obtain ⟨a, b, c, d⟩ := q
    obtain ⟨first, second, third, fourth⟩ := quad
    have last := strictLabel_eq fourth [] nofun
    rw [List.append_nil] at last
    simp [parseStrictV4, strictLabelDot_eq first, strictLabelDot_eq second, strictLabelDot_eq third,
      last]

/-! ## Groups -/

theorem hexDigit_byte : ∀ c : UInt8, (hexDigit c = if isHex c then some (hexVal c).toNat else none) ∧
    (isHex c = true → (hexVal c).toNat < 16) :=
  forall_byte (by decide +kernel)

theorem hexDigit_eq (c : UInt8) : hexDigit c = if isHex c then some (hexVal c).toNat else none :=
  (hexDigit_byte c).1

theorem hexVal_lt (c : UInt8) (hex : isHex c = true) : (hexVal c).toNat < 16 := (hexDigit_byte c).2 hex

/-- The digits so far, as long as they are at most four. -/
theorem groupValue_eq {t : Text} {v : Nat} (read : number 16 t = some v) (short : t.length ≤ 4) :
    (groupValue t).toNat = v := by
  induction t using List.reverseRecOn generalizing v with
  | nil =>
      cases read
      rfl
  | append_singleton t c ih =>
      rw [List.length_append, List.length_singleton] at short
      rw [number_append] at read
      obtain ⟨n, front, rest⟩ := Option.bind_eq_some_iff.mp read
      obtain ⟨d, digit, value⟩ := Option.bind_eq_some_iff.mp rest
      have folded := ih front (by omega)
      have small := number_lt front
      have power : 16 ^ t.length ≤ 16 ^ 3 := Nat.pow_le_pow_right (by decide) (by omega)
      rw [hexDigit_eq] at digit
      split at digit
      · next isDigit =>
        cases digit
        have few := hexVal_lt c isDigit
        rw [if_pos few] at value
        cases value
        rw [groupValue] at folded ⊢
        rw [List.foldl_append, List.foldl_cons, List.foldl_nil, UInt16.toNat_or, UInt16.toNat_shiftLeft,
          folded]
        have shifted : n <<< 4 % 65536 = n * 16 := by
          rw [Nat.shiftLeft_eq]
          exact Nat.mod_eq_of_lt (by omega)
        have joined := @or_shifted n _ 4 few
        simpa [shifted] using joined
      · cases digit

theorem number_all {t : Text} (all : t.all isHex = true) : ∃ v, number 16 t = some v := by
  induction t using List.reverseRecOn with
  | nil => exact ⟨0, rfl⟩
  | append_singleton t c ih =>
      rw [List.all_append, Bool.and_eq_true] at all
      obtain ⟨v, read⟩ := ih all.1
      have last : isHex c = true := by simpa using all.2
      refine ⟨v * 16 + (hexVal c).toNat, ?_⟩
      rw [number_append, read, hexDigit_eq, if_pos last]
      simp [hexVal_lt c last]

theorem pairOf_eq (high low : UInt8) : pairOf high low = pair high low := by
  have top : high.toNat < 256 := high.toNat_lt
  have bottom : low.toNat < 256 := low.toNat_lt
  apply UInt16.toNat.inj
  rw [pairOf, pair, UInt16.toNat_or, UInt16.toNat_shiftLeft, UInt8.toNat_toUInt16, UInt8.toNat_toUInt16,
    UInt16.toNat_ofNat_of_lt' (by change _ < 65536; omega)]
  have shifted : high.toNat <<< 8 % 65536 = high.toNat * 256 := by
    rw [Nat.shiftLeft_eq]
    exact Nat.mod_eq_of_lt (by omega)
  have joined := @or_shifted high.toNat _ 8 bottom
  simpa [shifted] using joined

theorem bytesOf_eq (g : List UInt16) : bytesOf g = octets g := by
  unfold bytesOf octets
  congr 1
  funext v
  have word : v.toNat < 65536 := v.toNat_lt
  have high : (v >>> 8).toUInt8 = UInt8.ofNat (v.toNat / 256) := by
    apply UInt8.toNat.inj
    rw [UInt16.toNat_toUInt8, UInt16.toNat_shiftRight, UInt8.toNat_ofNat_of_lt' (by change _ < 256; omega)]
    change v.toNat >>> 8 % 256 = v.toNat / 256
    rw [Nat.shiftRight_eq_div_pow]
    omega
  have low : (v &&& 0xFF).toUInt8 = UInt8.ofNat (v.toNat % 256) := by
    apply UInt8.toNat.inj
    rw [UInt16.toNat_toUInt8, UInt16.toNat_and, UInt8.toNat_ofNat_of_lt' (by change _ < 256; omega)]
    have mask := Nat.and_two_pow_sub_one_eq_mod v.toNat 8
    change (v.toNat &&& (2 ^ 8 - 1)) % 256 = v.toNat % 256
    omega
  rw [high, low]

theorem number_hex {t : Text} {v : Nat} (read : number 16 t = some v) : t.all isHex = true := by
  refine List.all_eq_true.mpr fun c member => ?_
  obtain ⟨d, digit, -⟩ := number_mem read member
  rw [hexDigit_eq] at digit
  by_contra other
  rw [if_neg other] at digit
  cases digit

theorem Pieces.groupsOf {tail : Bool} {parts : List Text} {g : List UInt16}
    (pieces : Pieces tail parts g) : groupsOf tail parts = some g := by
  induction pieces with
  | none => rfl
  | @quad t a b c d allowed quad =>
      have read : parseStrictV4 t = some ⟨a, b, c, d⟩ := parseStrictV4_iff.mpr quad
      simp [Olostep.groupsOf, List.ne_nil_of_mem quad.dot_mem, quad.dot_mem, allowed, read, pairOf_eq]
  | @group t v parts g group _ ih =>
      have filled : t ≠ [] := List.ne_nil_of_length_pos group.1
      have short : ¬ t.length > 4 := by have := group.2.1; omega
      have value : groupValue t = v := UInt16.toNat.inj (groupValue_eq group.2.2 group.2.1)
      rw [Olostep.groupsOf, if_neg filled, if_neg (by simpa using group.not_mem hexDigit_dot),
        if_neg short, if_neg (by simpa using number_hex group.2.2), ih, value, Option.map_some]

theorem groupsOf_pieces {tail : Bool} {parts : List Text} {g : List UInt16}
    (read : groupsOf tail parts = some g) : Pieces tail parts g := by
  induction parts generalizing g with
  | nil =>
      cases read
      exact .none
  | cons t rest ih =>
      unfold groupsOf at read
      split at read
      · cases read
      · next filled =>
        split at read
        · split at read
          · cases read
          · next last =>
            obtain ⟨q, quad, rfl⟩ := Option.map_eq_some_iff.mp read
            simp only [Bool.or_eq_true, Bool.not_eq_true', decide_eq_true_eq, not_or, not_not,
              Bool.not_eq_false] at last
            obtain ⟨allowed, rfl⟩ := last
            rw [pairOf_eq, pairOf_eq]
            exact .quad allowed (parseStrictV4_iff.mp quad)
        · split at read
          · cases read
          · next short =>
            split at read
            · cases read
            · next all =>
              obtain ⟨later, groups, rfl⟩ := Option.map_eq_some_iff.mp read
              obtain ⟨v, number⟩ := @number_all t (by simpa using all)
              refine .group ⟨List.length_pos_of_ne_nil filled, by omega, ?_⟩ (ih groups)
              rw [number, groupValue_eq number (by omega)]

theorem colons_ne_nil {t : Text} {rest : List Text} (filled : t ≠ []) : colons (t :: rest) ≠ [] := by
  cases rest with
  | nil => simpa [colons] using filled
  | cons second rest => simp [colons, List.intercalate_cons_cons]

theorem parseGroups_iff {tail : Bool} {s : Text} {g : List UInt16} :
    parseGroups s tail = some g ↔ ∃ parts, Pieces tail parts g ∧ s = colons parts := by
  constructor
  · intro read
    unfold parseGroups at read
    split at read
    · next empty =>
      cases read
      exact ⟨[], .none, empty⟩
    · exact ⟨_, groupsOf_pieces read, (List.intercalate_splitOn 58).symm⟩
  · rintro ⟨parts, pieces, rfl⟩
    have plain := pieces.plain
    cases parts with
    | nil =>
        cases pieces
        rfl
    | cons t rest =>
        have filled : colons (t :: rest) ≠ [] := colons_ne_nil (plain t List.mem_cons_self).1
        have split : splitColon (colons (t :: rest)) = t :: rest :=
          List.splitOn_intercalate 58 (fun t member => (plain t member).2) nofun
        rw [parseGroups, if_neg filled, split]
        exact Pieces.groupsOf pieces

/-! ## Two colons -/

theorem find_some {needle s : Text} {i : Nat} (found : find needle s = some i) :
    ∃ front back, s = front ++ needle ++ back ∧ front.length = i := by
  induction s generalizing i with
  | nil =>
      unfold find at found
      split at found
      · next empty =>
        cases found
        exact ⟨[], [], by simp [empty], rfl⟩
      · cases found
  | cons c s ih =>
      unfold find at found
      split at found
      · next here =>
        cases found
        obtain ⟨back, eq⟩ := List.isPrefixOf_iff_prefix.mp here
        exact ⟨[], back, eq.symm, rfl⟩
      · obtain ⟨j, later, rfl⟩ := Option.map_eq_some_iff.mp found
        obtain ⟨front, back, rfl, length⟩ := ih later
        exact ⟨c :: front, back, rfl, congrArg (· + 1) length⟩

theorem find_absent {needle s : Text} (absent : ¬ needle <:+: s) : find needle s = none := by
  cases found : find needle s with
  | none => rfl
  | some i =>
      obtain ⟨front, back, rfl, -⟩ := find_some found
      exact absurd ⟨front, back, rfl⟩ absent

/-- The first occurrence is where the letters so far and all but the last letter of the
needle hold none. -/
theorem find_first (front init back : Text) (last : UInt8)
    (absent : ¬ (init ++ [last]) <:+: front ++ init) :
    find (init ++ [last]) (front ++ (init ++ [last]) ++ back) = some front.length := by
  induction front with
  | nil =>
      obtain ⟨c, rest, eq⟩ := @List.exists_cons_of_ne_nil _ (init ++ [last]) (by simp)
      rw [List.nil_append, eq]
      simp [find]
  | cons c front ih =>
      have later := ih fun inside => absent (inside.trans (List.suffix_cons c _).isInfix)
      have other : ¬ (init ++ [last]).isPrefixOf (c :: (front ++ (init ++ [last]) ++ back)) = true := by
        intro here
        refine absent (List.IsPrefix.isInfix (List.prefix_of_prefix_length_le
          (List.isPrefixOf_iff_prefix.mp here) ⟨[last] ++ back, by simp⟩ (by simp)))
      rw [List.cons_append, List.cons_append, find, if_neg other, later]
      rfl

theorem colons_behind {tail : Bool} {parts : List Text} {g : List UInt16}
    (pieces : Pieces tail parts g) : ¬ [58, 58] <:+: colons parts ++ [58] := by
  cases parts with
  | nil => exact fun inside => absurd inside.length_le (by simp [colons])
  | cons t rest =>
      intro inside
      exact no_pair pieces.plain nofun (inside.trans (List.suffix_cons 58 _).isInfix)

theorem colons_before {tail : Bool} {parts : List Text} {g : List UInt16}
    (pieces : Pieces tail parts g) : ¬ [58, 58] <:+: 58 :: colons parts := by
  cases parts with
  | nil => exact fun inside => absurd inside.length_le (by simp [colons])
  | cons t rest =>
      intro inside
      refine no_pair pieces.plain nofun (inside.trans (List.IsPrefix.isInfix ⟨[58], ?_⟩))
      simp [colons]

theorem pair_of_colons : text "::" = [58] ++ [58] := by decide

theorem readV6_ipv6 {s : Text} {g : List UInt16} (read : readV6 s = some g) : Ipv6 s g := by
  unfold readV6 at read
  cases found : find (text "::") s with
  | none =>
      simp only [found] at read
      cases groups : parseGroups s true with
      | none => simp [groups] at read
      | some all =>
          simp only [groups] at read
          split at read
          · cases read
          · next eight =>
            cases read
            obtain ⟨parts, pieces, rfl⟩ := parseGroups_iff.mp groups
            exact .full pieces (by omega)
  | some dc =>
      simp only [found] at read
      split at read
      · cases read
      · cases first : parseGroups (s.take dc) false with
        | none => simp [first] at read
        | some high =>
            cases second : parseGroups (s.drop (dc + 2)) true with
            | none => simp [first, second] at read
            | some low =>
                simp only [first, second] at read
                split at read
                · cases read
                · next few =>
                  cases read
                  obtain ⟨front, back, rfl, rfl⟩ := find_some found
                  rw [pair_of_colons] at first second ⊢
                  obtain ⟨left, piecesL, eqL⟩ := parseGroups_iff.mp first
                  obtain ⟨right, piecesR, eqR⟩ := parseGroups_iff.mp second
                  simp only [List.append_assoc, List.take_left] at eqL
                  have dropped : (front ++ ([58] ++ [58] ++ back)).drop (front.length + 2) = back := by
                    rw [← List.drop_drop, List.drop_left]
                    rfl
                  rw [List.append_assoc, dropped] at eqR
                  subst eqL eqR
                  have shape := @Ipv6.compressed _ _ _ _ (8 - high.length - low.length) piecesL piecesR
                    (by omega) (by omega)
                  simpa using shape

theorem Ipv6.readV6 {s : Text} {g : List UInt16} (shape : Ipv6 s g) : readV6 s = some g := by
  cases shape with
  | @full parts _ pieces eight =>
      have absent : ¬ (text "::") <:+: colons parts := fun inside =>
        colons_behind pieces (inside.trans (List.prefix_append _ _).isInfix)
      have read := parseGroups_iff.mpr ⟨parts, pieces, rfl⟩
      simp [Olostep.readV6, find_absent absent, read, eight]
  | @compressed left right high low zeros piecesL piecesR positive eight =>
      have first : find (text "::") (colons left ++ 58 :: 58 :: colons right) =
          some (colons left).length := by
        have found := find_first (colons left) [58] (colons right) 58 (colons_behind piecesL)
        simpa [pair_of_colons] using found
      have dropped : (colons left ++ 58 :: 58 :: colons right).drop ((colons left).length + 1) =
          58 :: colons right := by
        rw [← List.drop_drop, List.drop_left]
        rfl
      have rest : (colons left ++ 58 :: 58 :: colons right).drop ((colons left).length + 2) =
          colons right := by
        rw [← List.drop_drop, List.drop_left]
        rfl
      have second : find (text "::") (58 :: colons right) = none := find_absent (colons_before piecesR)
      have readL := parseGroups_iff.mpr ⟨left, piecesL, rfl⟩
      have readR := parseGroups_iff.mpr ⟨right, piecesR, rfl⟩
      have filled : 8 - high.length - low.length = zeros := by omega
      simp only [Olostep.readV6, first, dropped, second, rest, List.take_left, readL, readR, filled]
      rw [if_neg (by simp), if_neg (by omega)]

theorem parseV6_iff {s : Text} {bytes : Ip6} :
    parseV6 s = some bytes ↔ ∃ g, Ipv6 s g ∧ bytes = octets g := by
  constructor
  · intro read
    obtain ⟨g, groups, rfl⟩ := Option.map_eq_some_iff.mp read
    exact ⟨g, readV6_ipv6 groups, bytesOf_eq g⟩
  · rintro ⟨g, shape, rfl⟩
    rw [parseV6, Ipv6.readV6 shape, Option.map_some, bytesOf_eq]

end FryFirmware.Olostep
