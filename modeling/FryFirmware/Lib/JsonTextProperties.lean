import FryFirmware.Lib.Joined
import FryFirmware.Lib.JsonText
import Mathlib.Data.Nat.Digits.Lemmas
import Mathlib.Tactic.Common

/-!
# What is written is read

The compact writing of values as a relation, and its reading back. Behind it, what a
string is read as when its content was put between the quotes as it stands.
-/

set_option autoImplicit false

namespace FryFirmware.Lib.JsonText

open Json (Bytes Reader isDigit digitsValue natText numberText trueText falseText nullText Reads bind_eq
  digit_ne natText_digits natText_cons digitsValue_natText)
open Json.Reader (lift next peek consume)

/-- Needs no escape. -/
def Plain (content : Bytes) : Prop := ∀ byte ∈ content, byte ≠ 34 ∧ byte ≠ 92 ∧ 32 ≤ byte

instance (content : Bytes) : Decidable (Plain content) := List.decidableBAll _ content

/-- A comma or a closing bracket follows, or nothing. -/
def EndsToken (rest : Bytes) : Prop := ∀ byte ∈ rest.head?, byte = 44 ∨ byte = 93 ∨ byte = 125

/-- The compact texts of values nested less than `depth` deep. -/
inductive Writes : Nat → Bytes → Tree → Prop where
  | string {depth content} : Plain content →
      Writes (depth + 1) (34 :: content ++ [34]) (.string (symbols content))
  | integer {depth} (number : Int) : Writes (depth + 1) (numberText number) (.number number 0)
  | bool {depth} (flag : Bool) :
      Writes (depth + 1) (if flag then trueText else falseText) (.bool flag)
  | array {depth} {items : List (Bytes × Tree)} : (∀ item ∈ items, Writes depth item.1 item.2) →
      Writes (depth + 1) (91 :: [44].intercalate (items.map Prod.fst) ++ [93])
        (.array (items.map Prod.snd))
  | object {depth} {members : List (Bytes × Bytes × Tree)} : (∀ member ∈ members, Plain member.1) →
      (∀ member ∈ members, Writes depth member.2.1 member.2.2) →
      Writes (depth + 1)
        (123 :: [44].intercalate (members.map fun member => 34 :: member.1 ++ 34 :: 58 :: member.2.1) ++
          [125])
        (.object (members.map fun member => (symbols member.1, member.2.2)))

theorem Writes.mono {depth more : Nat} {text : Bytes} {tree : Tree} (writes : Writes depth text tree)
    (deeper : depth ≤ more) : Writes more text tree := by
  induction writes generalizing more with
  | string plain =>
      obtain ⟨rest, rfl⟩ := Nat.exists_eq_add_of_le' deeper
      exact .string plain
  | integer number =>
      obtain ⟨rest, rfl⟩ := Nat.exists_eq_add_of_le' deeper
      exact .integer number
  | bool flag =>
      obtain ⟨rest, rfl⟩ := Nat.exists_eq_add_of_le' deeper
      exact .bool flag
  | array _ ih =>
      cases more with
      | zero => cases deeper
      | succ more => exact .array fun item member => ih item member (Nat.le_of_succ_le_succ deeper)
  | object plain _ ih =>
      cases more with
      | zero => cases deeper
      | succ more =>
          exact .object plain fun item member => ih item member (Nat.le_of_succ_le_succ deeper)

/-! ## Strings -/

theorem readString_quote (rest : Bytes) : readString (34 :: rest) = some ([], rest) := by
  rw [readString.eq_def]
  simp

theorem readString_control {byte : UInt8} (control : byte < 32) (rest : Bytes) :
    readString (byte :: rest) = none := by
  have quote : byte ≠ 34 := by
    rintro rfl
    exact absurd control (by decide)
  rw [readString.eq_def]
  simp [quote, control]

theorem readString_byte {byte : UInt8} (quote : byte ≠ 34) (backslash : byte ≠ 92)
    (printed : ¬ byte < 32) (rest : Bytes) : readString (byte :: rest) =
      (readString rest).map fun (content, after) => (.byte byte :: content, after) := by
  rw [readString.eq_def]
  simp [quote, backslash, printed]

/-- An escape takes one letter, which may be a quote, or a `u` with four digits. -/
theorem readString_escape {text rest : Bytes} {read : List Symbol}
    (done : readString (92 :: text) = some (read, rest)) :
    ∃ used symbol later others, text = used ++ later ∧ read = symbol :: others ∧
      readString later = some (others, rest) ∧ used ≠ [] ∧ (34 ∈ used → used = [34]) := by
  rw [readString.eq_def] at done
  simp only [show ¬ (92 : UInt8) = 34 by decide, show ¬ (92 : UInt8) < 32 by decide, if_false,
    if_true] at done
  split at done
  · next a b c d later =>
      obtain ⟨symbol, escape, done⟩ := Option.bind_eq_some_iff.mp done
      obtain ⟨⟨others, after⟩, here, same⟩ := Option.map_eq_some_iff.mp done
      cases same
      refine ⟨[117, a, b, c, d], symbol, later, others, rfl, rfl, here, nofun, fun quote => ?_⟩
      have digit : hexDigit 34 = none := rfl
      simp only [List.mem_cons, List.not_mem_nil, or_false] at quote
      rcases quote with odd | rfl | rfl | rfl | rfl
      · cases odd
      all_goals simp [codeUnit, digit] at escape
  · next code later _ =>
      obtain ⟨symbol, -, done⟩ := Option.bind_eq_some_iff.mp done
      obtain ⟨⟨others, after⟩, here, same⟩ := Option.map_eq_some_iff.mp done
      cases same
      refine ⟨[code], symbol, later, others, rfl, rfl, here, nofun, fun quote => ?_⟩
      rw [List.mem_singleton.mp quote]
  · cases done

theorem readString_plain {content : Bytes} (plain : Plain content) (rest : Bytes) :
    readString (content ++ 34 :: rest) = some (symbols content, rest) := by
  induction content with
  | nil => exact readString_quote rest
  | cons byte content ih =>
      obtain ⟨quote, backslash, printed⟩ := plain byte List.mem_cons_self
      have later := ih fun other member => plain other (List.mem_cons_of_mem _ member)
      rw [List.cons_append, readString_byte quote backslash (UInt8.not_lt.mpr printed), later]
      rfl

/-- A content put between quotes as it stands, with `,"` behind it: it is read back only
where it needs no escape. Otherwise the string read is shorter, or it takes the closing
quote along and ends at the next one. -/
theorem readString_cases {content after rest : Bytes} {read : List Symbol}
    (done : readString (content ++ 34 :: 44 :: 34 :: after) = some (read, rest)) :
    (Plain content ∧ read = symbols content ∧ rest = 44 :: 34 :: after) ∨
      read.length < content.length ∨ rest = after := by
  induction size : content.length using Nat.strongRecOn generalizing content read with
  | ind n ih =>
  subst size
  cases content with
  | nil =>
      rw [List.nil_append, readString_quote] at done
      cases done
      exact .inl ⟨nofun, rfl, rfl⟩
  | cons byte content =>
      by_cases quote : byte = 34
      · rw [quote, List.cons_append, readString_quote] at done
        cases done
        exact .inr (.inl (Nat.succ_pos _))
      by_cases backslash : byte = 92
      · rw [backslash] at done
        obtain ⟨used, symbol, later, others, split, rfl, here, some_used, quoted⟩ :=
          readString_escape done
        rcases List.append_eq_append_iff.mp split with ⟨beyond, rfl, outside⟩ | ⟨inside, rfl, rfl⟩
        · -- The escape reaches the closing quote.
          cases beyond with
          | nil =>
              rw [List.nil_append] at outside
              rw [← outside, readString_quote] at here
              cases here
              have filled := List.length_pos_iff.mpr some_used
              rw [List.append_nil] at filled
              exact .inr (.inl (by simpa using filled))
          | cons head beyond =>
              rw [List.cons_append, List.cons.injEq] at outside
              obtain ⟨rfl, outside⟩ := outside
              have alone := quoted (by simp)
              obtain ⟨rfl, rfl⟩ : content = [] ∧ beyond = [] := by
                cases content with
                | nil => exact ⟨rfl, (List.cons.inj alone).2⟩
                | cons first content =>
                    have longer := congrArg List.length alone
                    simp at longer
              rw [List.nil_append] at outside
              rw [← outside, readString_byte (by decide) (by decide) (by decide), readString_quote] at here
              cases here
              exact .inr (.inr rfl)
        · have filled := List.length_pos_iff.mpr some_used
          have shorter : inside.length < (byte :: (used ++ inside)).length := by simp
          rcases ih _ shorter here rfl with ⟨-, rfl, -⟩ | less | same
          · refine .inr (.inl ?_)
            simp only [symbols, List.length_cons, List.length_map, List.length_append]
            omega
          · refine .inr (.inl ?_)
            simp only [List.length_cons, List.length_append]
            omega
          · exact .inr (.inr same)
      by_cases control : byte < 32
      · rw [List.cons_append, readString_control control] at done
        cases done
      rw [List.cons_append, readString_byte quote backslash control] at done
      obtain ⟨⟨others, after'⟩, here, same⟩ := Option.map_eq_some_iff.mp done
      cases same
      rcases ih _ (Nat.lt_succ_self _) here rfl with ⟨plain, rfl, rfl⟩ | less | same
      · refine .inl ⟨?_, rfl, rfl⟩
        exact List.forall_mem_cons.mpr ⟨⟨quote, backslash, UInt8.not_lt.mp control⟩, plain⟩
      · exact .inr (.inl (Nat.succ_lt_succ less))
      · exact .inr (.inr same)

/-! ## Numbers -/

theorem digits_run {run rest : Bytes} (filled : run ≠ []) (all : ∀ byte ∈ run, isDigit byte = true)
    (ends : ∀ byte ∈ rest.head?, isDigit byte = false) : digits (run ++ rest) = some (run, rest) := by
  rw [digits, takeWhile_run all ends, dropWhile_run all ends, if_neg filled]

theorem natText_head (size : Nat) : natText size = [48] ∨ (natText size).head? ≠ some 48 := by
  unfold natText
  split
  · exact .inl rfl
  · next positive =>
      right
      have filled : Nat.digits 10 size ≠ [] := Nat.digits_ne_nil_iff_ne_zero.mpr positive
      rw [List.head?_map, List.head?_reverse, List.getLast?_eq_some_getLast filled]
      have lead := Nat.getLast_digit_ne_zero 10 positive
      have small := Nat.digits_lt_base (m := size) (by decide : 1 < 10) (List.getLast_mem filled)
      simp only [Option.map_some, ne_eq, Option.some.injEq]
      generalize (Nat.digits 10 size).getLast filled = digit at lead small
      interval_cases digit
      · exact absurd rfl lead
      all_goals decide

theorem EndsToken.cases {rest : Bytes} (ends : EndsToken rest) :
    rest = [] ∨ ∃ byte tail, rest = byte :: tail ∧ (byte = 44 ∨ byte = 93 ∨ byte = 125) := by
  cases rest with
  | nil => exact .inl rfl
  | cons byte tail => exact .inr ⟨byte, tail, rfl, ends byte rfl⟩

theorem EndsToken.digit {rest : Bytes} (ends : EndsToken rest) :
    ∀ byte ∈ rest.head?, isDigit byte = false := by
  intro byte first
  rcases ends byte first with rfl | rfl | rfl <;> rfl

theorem readWhole_natText (size : Nat) {rest : Bytes} (ends : EndsToken rest) :
    readWhole (natText size ++ rest) = some (natText size, rest) := by
  obtain ⟨filled, all⟩ := natText_digits size
  rw [readWhole, bind_eq (digits_run filled all ends.digit), if_neg]
  · rfl
  · rintro ⟨zero, more⟩
    exact (natText_head size).elim more fun other => other zero

theorem readFraction_none {rest : Bytes} (ends : EndsToken rest) : readFraction rest = some ([], rest) := by
  rcases ends.cases with rfl | ⟨byte, tail, rfl, rfl | rfl | rfl⟩ <;> rfl

theorem readExponent_none {rest : Bytes} (ends : EndsToken rest) : readExponent rest = some (0, rest) := by
  rcases ends.cases with rfl | ⟨byte, tail, rfl, rfl | rfl | rfl⟩ <;> rfl

theorem reads_numberText (number : Int) : Reads readNumber (numberText number) (.number number 0) EndsToken := by
  intro rest ends
  have rest_of (negative : Bool) (text : Bytes) (signed : readSign text = some (negative, natText number.natAbs ++ rest)) :
      readNumber text = some (.number (if negative then -(number.natAbs : Int) else number.natAbs) 0, rest) := by
    rw [readNumber, bind_eq signed, bind_eq (readWhole_natText _ ends), bind_eq (readFraction_none ends),
      Reader.map, bind_eq (readExponent_none ends), List.append_nil, digitsValue_natText]
    rfl
  unfold numberText
  split
  · next negative =>
      rw [rest_of true _ rfl, if_pos rfl, Int.ofNat_natAbs_of_nonpos (Int.le_of_lt negative), Int.neg_neg]
  · next positive =>
      obtain ⟨byte, tail, text, digit⟩ := natText_cons number.natAbs
      have unsigned : readSign (natText number.natAbs ++ rest) =
          some (false, natText number.natAbs ++ rest) := by
        rw [text, List.cons_append]
        have other : byte ≠ 45 := digit_ne digit rfl
        rw [readSign.eq_def]
        split
        · next same => exact absurd (List.cons.inj same).1 other
        · rfl
      rw [rest_of false _ unsigned, if_neg Bool.false_ne_true, Int.natAbs_of_nonneg (Int.not_lt.mp positive)]

/-! ## Lists in brackets -/

section Brackets

variable {α : Type} {item : Reader α} {close : UInt8}

theorem next_cons (byte : UInt8) (rest : Bytes) : next (byte :: rest) = some (byte, rest) := rfl

theorem blank_none {text : Bytes} (ink : ∀ byte ∈ text.head?, isBlank byte = false) :
    blank text = some ((), text) := by
  cases text with
  | nil => rfl
  | cons byte text =>
      rw [blank, List.dropWhile_cons_of_neg (by simp [ink byte rfl])]

/-- The items of a compact list, each with its text. -/
theorem reads_items {items : List (Bytes × α)} (bracket : close = 93 ∨ close = 125)
    (each : ∀ pair ∈ items, Reads item pair.1 pair.2 EndsToken) (filled : items ≠ []) {limit : Nat}
    (enough : items.length ≤ limit) (rest : Bytes) :
    readItems item close limit ([44].intercalate (items.map Prod.fst) ++ close :: rest) =
      some (items.map Prod.snd, rest) := by
  induction items generalizing limit with
  | nil => exact absurd rfl filled
  | cons pair items ih =>
      cases limit with
      | zero => cases enough
      | succ limit =>
          have first := each pair List.mem_cons_self
          cases items with
          | nil =>
              have closes : EndsToken (close :: rest) := by
                rintro _ ⟨⟩
                exact .inr bracket
              have ink : ∀ byte ∈ (close :: rest).head?, isBlank byte = false := by
                rintro _ ⟨⟩
                rcases bracket with rfl | rfl <;> rfl
              have other : close ≠ 44 := by rcases bracket with rfl | rfl <;> decide
              have read := first _ closes
              simp only [List.map_cons, List.map_nil, List.intercalate_singleton]
              rw [readItems, bind_eq read, bind_eq (blank_none ink), bind_eq (next_cons close rest),
                if_neg other, if_pos rfl]
              rfl
          | cons second items =>
              have comma : EndsToken (44 :: ([44].intercalate ((second :: items).map Prod.fst) ++
                  close :: rest)) := by
                rintro _ ⟨⟩
                exact .inl rfl
              have read := first _ comma
              have later := ih (fun other member => each other (List.mem_cons_of_mem _ member)) nofun
                (Nat.le_of_succ_le_succ enough)
              rw [List.map_cons, List.map_cons, List.intercalate_cons_cons, ← List.map_cons,
                List.append_assoc, List.append_assoc, List.singleton_append]
              rw [readItems, bind_eq read, bind_eq (blank_none (by rintro _ ⟨⟩; rfl)),
                bind_eq (next_cons 44 _), if_pos rfl, Reader.map, bind_eq later]
              rfl

/-- Every item takes room in the text. -/
theorem length_le_intercalate {items : List Bytes} (filled : ∀ text ∈ items, text ≠ []) :
    items.length ≤ ([44].intercalate items).length := by
  induction items with
  | nil => exact Nat.zero_le _
  | cons text items ih =>
      have some_text := List.length_pos_iff.mpr (filled text List.mem_cons_self)
      cases items with
      | nil => simpa using Nat.succ_le_of_lt some_text
      | cons second items =>
          have later := ih fun other member => filled other (List.mem_cons_of_mem _ member)
          rw [List.intercalate_cons_cons]
          simp only [List.length_append, List.length_cons] at later ⊢
          omega

/-- Begins with a byte that is neither blank nor a closing bracket. -/
def Begins (text : Bytes) : Prop :=
  ∃ byte tail, text = byte :: tail ∧ isBlank byte = false ∧ byte ≠ 93 ∧ byte ≠ 125

theorem reads_bracketed {items : List (Bytes × α)} (bracket : close = 93 ∨ close = 125)
    (begins : ∀ pair ∈ items, Begins pair.1)
    (each : ∀ pair ∈ items, Reads item pair.1 pair.2 EndsToken) (rest : Bytes) :
    readBracketed item close ([44].intercalate (items.map Prod.fst) ++ close :: rest) =
      some (items.map Prod.snd, rest) := by
  cases items with
  | nil =>
      have ink : ∀ byte ∈ (close :: rest).head?, isBlank byte = false := by
        rintro _ ⟨⟩
        rcases bracket with rfl | rfl <;> rfl
      simp only [List.map_nil, List.intercalate_nil, List.nil_append]
      rw [readBracketed, bind_eq (blank_none ink), peek, if_pos rfl]
      rfl
  | cons pair items =>
      obtain ⟨byte, tail, text, ink, array, object⟩ := begins pair List.mem_cons_self
      have other : byte ≠ close := by rcases bracket with rfl | rfl <;> assumption
      have enough : (pair :: items).length ≤
          ([44].intercalate ((pair :: items).map Prod.fst) ++ close :: rest).length := by
        have room := @length_le_intercalate ((pair :: items).map Prod.fst) (by
          intro text member
          obtain ⟨known, here, rfl⟩ := List.mem_map.mp member
          obtain ⟨byte, tail, text, -⟩ := begins known here
          rw [text]
          exact List.cons_ne_nil _ _)
        rw [List.length_map] at room
        rw [List.length_append]
        omega
      have read := reads_items bracket each (List.cons_ne_nil _ _) enough rest
      obtain ⟨more, whole⟩ : ∃ more, [44].intercalate ((pair :: items).map Prod.fst) ++ close :: rest =
          byte :: more := by
        cases items with
        | nil => exact ⟨_, by simp only [List.map_cons, List.map_nil, List.intercalate_singleton, text]; rfl⟩
        | cons second items =>
            exact ⟨_, by
              simp only [List.map_cons, List.intercalate_cons_cons, text]
              rfl⟩
      rw [whole] at read ⊢
      rw [readBracketed, bind_eq (blank_none (by rintro _ ⟨⟩; exact ink)), peek, if_neg other]
      exact read

end Brackets

/-! ## Values -/

theorem Writes.begins {depth : Nat} {text : Bytes} {tree : Tree} (writes : Writes depth text tree) :
    Begins text := by
  cases writes with
  | string plain => exact ⟨34, _, rfl, rfl, by decide, by decide⟩
  | integer number =>
      unfold numberText
      split
      · exact ⟨45, _, rfl, rfl, by decide, by decide⟩
      · obtain ⟨byte, tail, text, digit⟩ := natText_cons number.natAbs
        refine ⟨byte, tail, text, ?_, digit_ne digit rfl, digit_ne digit rfl⟩
        simp [isBlank, @digit_ne byte 32 digit rfl, @digit_ne byte 9 digit rfl,
          @digit_ne byte 10 digit rfl, @digit_ne byte 13 digit rfl]
  | bool flag =>
      cases flag with
      | true => exact ⟨116, _, rfl, rfl, by decide, by decide⟩
      | false => exact ⟨102, _, rfl, rfl, by decide, by decide⟩
  | array => exact ⟨91, _, rfl, rfl, by decide, by decide⟩
  | object => exact ⟨123, _, rfl, rfl, by decide, by decide⟩

theorem reads_member {value : Reader Tree} {name text : Bytes} {tree : Tree} (plain : Plain name)
    (begins : Begins text) (reads : Reads value text tree EndsToken) :
    Reads (readMember value) (34 :: name ++ 34 :: 58 :: text) (symbols name, tree) EndsToken := by
  intro rest ends
  obtain ⟨byte, tail, start, ink, -⟩ := begins
  have named := readString_plain plain (58 :: (text ++ rest))
  have read := reads rest ends
  have quote : consume [34] (34 :: (name ++ 34 :: 58 :: (text ++ rest))) =
      some ((), name ++ 34 :: 58 :: (text ++ rest)) := rfl
  have colon : consume [58] (58 :: (text ++ rest)) = some ((), text ++ rest) := rfl
  rw [show 34 :: name ++ 34 :: 58 :: text ++ rest = 34 :: (name ++ 34 :: 58 :: (text ++ rest)) by simp,
    readMember, bind_eq (blank_none (by rintro _ ⟨⟩; rfl)), bind_eq quote, bind_eq named,
    bind_eq (blank_none (by rintro _ ⟨⟩; rfl)), bind_eq colon, Reader.map, bind_eq read]
  rfl

theorem readValue_cons (depth : Nat) {byte : UInt8} {tail : Bytes} (ink : isBlank byte = false) :
    readValue (depth + 1) (byte :: tail) =
      (if byte = 34 then next.bind fun _ => readString.map .string
      else if byte = 91 then next.bind fun _ => (readBracketed (readValue depth) 93).map .array
      else if byte = 123 then
        next.bind fun _ => (readBracketed (readMember (readValue depth)) 125).map .object
      else if byte = 116 then (consume trueText).map fun _ => .bool true
      else if byte = 102 then (consume falseText).map fun _ => .bool false
      else if byte = 110 then (consume nullText).map fun _ => .null
      else readNumber) (byte :: tail) := by
  rw [readValue, bind_eq (blank_none (by rintro _ ⟨⟩; exact ink))]
  rfl

/-- What is written is read, whatever token or end follows. -/
theorem Writes.reads {depth : Nat} {text : Bytes} {tree : Tree} (writes : Writes depth text tree) :
    Reads (readValue depth) text tree EndsToken := by
  induction writes with
  | @string depth content plain =>
      intro rest ends
      have read := readString_plain plain rest
      rw [show 34 :: content ++ [34] ++ rest = 34 :: (content ++ 34 :: rest) by simp,
        readValue_cons depth rfl, if_pos rfl, bind_eq (next_cons _ _), Reader.map, bind_eq read]
      rfl
  | @integer depth number =>
      intro rest ends
      have read := reads_numberText number rest ends
      obtain ⟨byte, tail, start, ink, -⟩ := (@Writes.integer depth number).begins
      have sign : byte = 45 ∨ isDigit byte = true := by
        unfold numberText at start
        split at start
        · exact .inl (List.cons.inj start).1.symm
        · obtain ⟨first, more, text, digit⟩ := natText_cons number.natAbs
          rw [text] at start
          exact .inr ((List.cons.inj start).1 ▸ digit)
      have other (letter : UInt8) (not_sign : letter ≠ 45) (not_digit : isDigit letter = false) :
          byte ≠ letter := by
        rcases sign with rfl | digit
        · exact not_sign.symm
        · exact digit_ne digit not_digit
      rw [start, List.cons_append] at read ⊢
      rw [readValue_cons depth ink, if_neg (other 34 (by decide) rfl), if_neg (other 91 (by decide) rfl),
        if_neg (other 123 (by decide) rfl), if_neg (other 116 (by decide) rfl),
        if_neg (other 102 (by decide) rfl), if_neg (other 110 (by decide) rfl), read]
  | @bool depth flag =>
      intro rest ends
      cases flag with
      | true => exact readValue_cons depth rfl
      | false => exact readValue_cons depth rfl
  | @array depth items writes ih =>
      intro rest ends
      have read := @reads_bracketed _ (readValue depth) 93 items (.inl rfl)
        (fun pair member => (writes pair member).begins) ih rest
      rw [show 91 :: [44].intercalate (items.map Prod.fst) ++ [93] ++ rest =
          91 :: ([44].intercalate (items.map Prod.fst) ++ 93 :: rest) by simp,
        readValue_cons depth rfl, if_neg (by decide), if_pos rfl, bind_eq (next_cons _ _), Reader.map,
        bind_eq read]
      rfl
  | @object depth members plain writes ih =>
      intro rest ends
      have read := @reads_bracketed _ (readMember (readValue depth)) 125
        (members.map fun member => (34 :: member.1 ++ 34 :: 58 :: member.2.1, (symbols member.1, member.2.2)))
        (.inr rfl)
        (by
          intro pair known
          obtain ⟨member, here, rfl⟩ := List.mem_map.mp known
          exact ⟨34, _, rfl, rfl, by decide, by decide⟩)
        (by
          intro pair known
          obtain ⟨member, here, rfl⟩ := List.mem_map.mp known
          exact reads_member (plain member here) (writes member here).begins (ih member here))
        rest
      simp only [List.map_map, Function.comp_def] at read
      rw [show ∀ list : Bytes, 123 :: list ++ [125] ++ rest = 123 :: (list ++ 125 :: rest) by simp,
        readValue_cons depth rfl, if_neg (by decide), if_neg (by decide), if_pos rfl, bind_eq (next_cons _ _),
        Reader.map, bind_eq read]
      rfl

/-- A whole text that was written. -/
theorem read_of_writes {depth : Nat} {text : Bytes} {tree : Tree} (writes : Writes depth text tree)
    (deep : depth ≤ text.length) : read text = some tree := by
  have reads := (writes.mono deep).reads [] (fun _ absent => nomatch absent)
  rw [List.append_nil] at reads
  rw [read, reads]
  rfl

/-- The compact text of an object, given member by member. -/
theorem Writes.object_text {depth : Nat} (members : List (Bytes × Bytes × Tree)) {text : Bytes}
    (same : 123 :: [44].intercalate (members.map fun member =>
      34 :: member.1 ++ 34 :: 58 :: member.2.1) ++ [125] = text)
    (plain : ∀ member ∈ members, Plain member.1)
    (writes : ∀ member ∈ members, Writes depth member.2.1 member.2.2) :
    Writes (depth + 1) text (.object (members.map fun member => (symbols member.1, member.2.2))) :=
  same ▸ .object plain writes

/-! ## Reading back a text that may not be well formed -/

theorem bind_some {α β : Type} {read : Reader α} {later : α → Reader β} {text : Bytes}
    {result : β × Bytes} (done : read.bind later text = some result) :
    ∃ value rest, read text = some (value, rest) ∧ later value rest = some result := by
  obtain ⟨⟨value, rest⟩, first, second⟩ := Option.bind_eq_some_iff.mp done
  exact ⟨value, rest, first, second⟩

theorem map_some {α β : Type} {read : Reader α} {change : α → β} {text rest : Bytes} {result : β}
    (done : read.map change text = some (result, rest)) :
    ∃ value, read text = some (value, rest) ∧ result = change value := by
  obtain ⟨value, after, first, second⟩ := bind_some done
  cases second
  exact ⟨value, first, rfl⟩

theorem readValue_of_read {text : Bytes} {tree : Tree} (done : read text = some tree) :
    ∃ rest, readValue text.length text = some (tree, rest) := by
  obtain ⟨⟨value, rest⟩, here, kept⟩ := Option.bind_eq_some_iff.mp done
  obtain ⟨-, same⟩ := Option.ite_none_right_eq_some.mp kept
  exact ⟨rest, Option.some.inj same ▸ here⟩

/-- The first item of a list, and what comes behind it. -/
theorem readItems_first {α : Type} {item : Reader α} {close : UInt8} {limit : Nat} {text rest : Bytes}
    {items : List α} (done : readItems item close limit text = some (items, rest)) :
    ∃ first others after, item text = some (first, after) ∧ items = first :: others ∧
      ((∃ tail less, after.dropWhile isBlank = 44 :: tail ∧
          readItems item close less tail = some (others, rest)) ∨
        after.dropWhile isBlank = close :: rest) := by
  cases limit with
  | zero => cases done
  | succ limit =>
      obtain ⟨first, after, here, done⟩ := bind_some done
      obtain ⟨_, _, ⟨⟩, done⟩ := bind_some done
      obtain ⟨byte, tail, behind, done⟩ := bind_some done
      have found : after.dropWhile isBlank = byte :: tail := by
        cases behindText : after.dropWhile isBlank with
        | nil =>
            rw [behindText] at behind
            cases behind
        | cons other more =>
            rw [behindText] at behind
            cases behind
            rfl
      split at done
      · next comma =>
          obtain ⟨others, later, rfl⟩ := map_some done
          exact ⟨first, others, after, here, rfl, .inl ⟨tail, limit, comma ▸ found, later⟩⟩
      · split at done
        · next closes =>
            cases done
            exact ⟨first, [], after, here, rfl, .inr (closes ▸ found)⟩
        · cases done

theorem readBracketed_some {α : Type} {item : Reader α} {close byte : UInt8} {tail rest : Bytes}
    {items : List α} (ink : isBlank byte = false) (other : byte ≠ close)
    (done : readBracketed item close (byte :: tail) = some (items, rest)) :
    ∃ limit, readItems item close limit (byte :: tail) = some (items, rest) := by
  rw [readBracketed, bind_eq (blank_none (by rintro _ ⟨⟩; exact ink)), peek, if_neg other] at done
  exact ⟨_, done⟩

theorem readValue_string {depth : Nat} {text rest : Bytes} {tree : Tree}
    (done : readValue depth (34 :: text) = some (tree, rest)) :
    ∃ content, readString text = some (content, rest) ∧ tree = .string content := by
  cases depth with
  | zero => cases done
  | succ depth =>
      rw [readValue_cons depth rfl, if_pos rfl, bind_eq (next_cons _ _)] at done
      exact map_some done

theorem readValue_array {depth : Nat} {byte : UInt8} {tail rest : Bytes} {tree : Tree}
    (ink : isBlank byte = false) (other : byte ≠ 93)
    (done : readValue depth (91 :: byte :: tail) = some (tree, rest)) :
    ∃ less limit items, depth = less + 1 ∧
      readItems (readValue less) 93 limit (byte :: tail) = some (items, rest) ∧ tree = .array items := by
  cases depth with
  | zero => cases done
  | succ depth =>
      rw [readValue_cons depth rfl, if_neg (by decide), if_pos rfl, bind_eq (next_cons _ _)] at done
      obtain ⟨items, here, rfl⟩ := map_some done
      obtain ⟨limit, listed⟩ := readBracketed_some ink other here
      exact ⟨depth, limit, items, rfl, listed, rfl⟩

/-- The first member of an object, which stands there as it was written. -/
theorem readValue_object {depth : Nat} {name text rest : Bytes} {tree : Tree} (plain : Plain name)
    (done : readValue depth (123 :: 34 :: name ++ 34 :: 58 :: text) = some (tree, rest)) :
    ∃ less value others after, depth = less + 1 ∧ readValue less text = some (value, after) ∧
      tree = .object ((symbols name, value) :: others) ∧
      ∃ byte tail, after.dropWhile isBlank = byte :: tail ∧ (byte = 44 ∨ byte = 125) := by
  cases depth with
  | zero => cases done
  | succ depth =>
      rw [List.cons_append, List.cons_append, readValue_cons depth rfl, if_neg (by decide),
        if_neg (by decide), if_pos rfl, bind_eq (next_cons _ _)] at done
      obtain ⟨members, here, rfl⟩ := map_some done
      obtain ⟨limit, listed⟩ := readBracketed_some rfl (by decide) here
      obtain ⟨first, others, after, member, rfl, behind⟩ := readItems_first listed
      have quote : consume [34] (34 :: (name ++ 34 :: 58 :: text)) = some ((), name ++ 34 :: 58 :: text) := rfl
      have colon : consume [58] (58 :: text) = some ((), text) := rfl
      rw [readMember, bind_eq (blank_none (by rintro _ ⟨⟩; rfl)), bind_eq quote,
        bind_eq (readString_plain plain _), bind_eq (blank_none (by rintro _ ⟨⟩; rfl)), bind_eq colon]
        at member
      obtain ⟨value, read, rfl⟩ := map_some member
      refine ⟨depth, value, others, after, rfl, read, rfl, ?_⟩
      rcases behind with ⟨tail, less, comma, -⟩ | closes
      · exact ⟨44, tail, comma, .inl rfl⟩
      · exact ⟨125, rest, closes, .inr rfl⟩

/-! ## Members -/

theorem symbols_inj {left right : Bytes} : symbols left = symbols right ↔ left = right := by
  rw [symbols, symbols, List.map_inj_right fun _ _ same => Symbol.byte.inj same]

theorem bytes?_symbols (content : Bytes) : (Tree.string (symbols content)).bytes? = some content := by
  rw [Tree.bytes?, symbols, List.mapM_map]
  exact mapM_iff.mpr (List.forall₂_same.mpr fun _ _ => rfl)

theorem bytes?_some {content : List Symbol} {bytes : Bytes}
    (done : (Tree.string content).bytes? = some bytes) : content = symbols bytes := by
  have each := mapM_iff.mp done
  induction each with
  | nil => rfl
  | @cons symbol byte content bytes here _ ih =>
      cases symbol with
      | unit value => cases here
      | byte value =>
          cases here
          exact congrArg (_ :: ·) (ih (mapM_iff.mpr ‹_›))

theorem field_first {name : Bytes} {value found : Tree} {others : List (List Symbol × Tree)}
    (done : (Tree.object ((symbols name, value) :: others)).field name = some found) : found = value := by
  obtain ⟨members, here, looked⟩ := Option.bind_eq_some_iff.mp done
  simp only [Tree.members?] at here
  split at here
  · cases here
    rw [List.lookup_cons_self] at looked
    exact (Option.some.inj looked).symm
  · cases here

theorem integer?_number (number : Int) : (Tree.number number 0).integer? = some number := by
  simp [Tree.integer?]

end FryFirmware.Lib.JsonText
