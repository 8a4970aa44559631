import FryFirmware.Lib.Json
import Mathlib.Data.List.TakeWhile
import Mathlib.Data.Nat.Digits.Lemmas
import Mathlib.Tactic.Common

/-!
# Round trip and truncation

Every reader takes its text off the front of a longer one, and what it reads from a
text it reads from every longer text. Together they give both laws of the documents.
-/

set_option autoImplicit false

namespace FryFirmware.Lib.Json

open Reader (lift next peek consume)

variable {α β : Type}

/-! ## Members -/

@[simp] theorem get_null (key : Bytes) : Document.null.get key = none := rfl

theorem get_set_self (document : Document) (key : Bytes) (value : Value) :
    (document.set key value).get key = some value := by
  show (Document.setMember key value document.members).lookup key = some value
  induction document.members with
  | nil => simp [Document.setMember]
  | cons member rest ih =>
      unfold Document.setMember
      split
      · simp
      · have other : (key == member.1) = false := beq_false_of_ne (Ne.symm ‹_›)
        rw [List.lookup_cons, other]
        exact ih

theorem get_set_other (document : Document) {key other : Bytes} (value : Value) (different : other ≠ key) :
    (document.set key value).get other = document.get other := by
  show (Document.setMember key value document.members).lookup other = document.members.lookup other
  have missed : (other == key) = false := beq_false_of_ne different
  induction document.members with
  | nil => simp [Document.setMember, List.lookup_cons, missed]
  | cons member rest ih =>
      unfold Document.setMember
      split
      · rename_i same
        rw [List.lookup_cons, List.lookup_cons, same, missed]
      · rw [List.lookup_cons, List.lookup_cons, ih]

theorem get_remove_self (document : Document) (key : Bytes) : (document.remove key).get key = none := by
  cases document with
  | null => rfl
  | object members =>
      refine List.lookup_eq_none_iff.mpr fun member kept => ?_
      have different := of_decide_eq_true (List.mem_filter.mp kept).2
      exact bne_iff_ne.mpr (Ne.symm different)

theorem get_remove_other (document : Document) {key other : Bytes} (different : other ≠ key) :
    (document.remove key).get other = document.get other := by
  cases document with
  | null => rfl
  | object members =>
      show (members.filter fun member => member.1 ≠ key).lookup other = members.lookup other
      induction members with
      | nil => rfl
      | cons member rest ih =>
          by_cases same : member.1 = key
          · have missed : (other == member.1) = false := beq_false_of_ne (same ▸ different)
            rw [List.filter_cons_of_neg (by simpa using same), ih, List.lookup_cons, missed]
          · rw [List.filter_cons_of_pos (by simpa using same), List.lookup_cons, List.lookup_cons, ih]

/-! ## Readers of longer texts -/

/-- What is read from a text is read from all texts that begin with it. -/
def Extends (read : Reader α) : Prop :=
  ∀ text value rest more, read text = some (value, rest) → read (text ++ more) = some (value, rest ++ more)

theorem extends_lift (value : Option α) : Extends (lift value) := by
  intro text result rest more done
  obtain ⟨found, here, same⟩ := Option.map_eq_some_iff.mp done
  obtain ⟨rfl, rfl⟩ := Prod.mk.inj same
  rw [lift, here]
  rfl

theorem Extends.bind {read : Reader α} {later : α → Reader β} (first : Extends read)
    (second : ∀ value, Extends (later value)) : Extends (read.bind later) := by
  intro text value rest more done
  obtain ⟨⟨middle, remaining⟩, here, after⟩ := Option.bind_eq_some_iff.mp done
  exact Option.bind_eq_some_iff.mpr
    ⟨_, first text middle remaining more here, second middle remaining value rest more after⟩

theorem Extends.map {read : Reader α} (first : Extends read) (change : α → β) :
    Extends (read.map change) :=
  first.bind fun _ => extends_lift _

theorem extends_next : Extends next := by
  intro text value rest more done
  cases text with
  | nil => cases done
  | cons byte text => cases done; rfl

theorem extends_peek {choose : UInt8 → Reader α} (chosen : ∀ byte, Extends (choose byte)) :
    Extends (peek choose) := by
  intro text value rest more done
  cases text with
  | nil => cases done
  | cons byte text => exact chosen byte _ value rest more done

theorem extends_ite {condition : Prop} [Decidable condition] {first second : Reader α}
    (yes : Extends first) (no : Extends second) : Extends (if condition then first else second) := by
  split
  · exact yes
  · exact no

theorem extends_consume (fixed : Bytes) : Extends (consume fixed) := by
  induction fixed with
  | nil => exact extends_lift _
  | cons expected fixed ih =>
      exact .bind extends_next fun byte => extends_ite ih (extends_lift none)

theorem extends_readChars : Extends readChars := by
  intro text value rest more done
  induction text using readChars.induct generalizing value with
  | case1 => cases done
  | case2 =>
      cases done
      cases more <;> rfl
  | case3 byte plain => simp [readChars, plain] at done
  | case4 code text =>
      cases done
      rfl
  | case5 code text other ih =>
      simp only [readChars, other, if_false, if_true, List.cons_append, Option.bind_eq_some_iff,
        Option.map_eq_some_iff] at done ⊢
      obtain ⟨plain, decoded, ⟨tail, after⟩, here, same⟩ := done
      obtain ⟨rfl, rfl⟩ := Prod.mk.inj same
      exact ⟨plain, decoded, _, ih tail here, rfl⟩
  | case6 byte code text other plain ih =>
      simp only [readChars, other, plain, if_false, List.cons_append, Option.map_eq_some_iff] at done ⊢
      obtain ⟨⟨tail, after⟩, here, same⟩ := done
      obtain ⟨rfl, rfl⟩ := Prod.mk.inj same
      exact ⟨_, ih tail here, rfl⟩

theorem readNat_eq {text : Bytes} {size : Nat} {rest : Bytes} :
    readNat text = some (size, rest) ↔
      ∃ digits, digits ≠ [] ∧ (∀ digit ∈ digits, isDigit digit = true) ∧ digitsValue digits = size ∧
        text = digits ++ rest ∧ ∃ byte tail, rest = byte :: tail ∧ isDigit byte = false := by
  constructor
  · intro done
    unfold readNat at done
    split at done
    · cases done
    · rename_i present
      obtain ⟨some_digits, more⟩ := not_or.mp present
      cases done
      refine ⟨_, some_digits, fun digit member => List.mem_takeWhile_imp member, rfl,
        (List.takeWhile_append_dropWhile ..).symm, ?_⟩
      cases ended : text.dropWhile isDigit with
      | nil => exact absurd ended more
      | cons byte tail =>
          have stops := List.head_dropWhile_not isDigit (l := text) (by simp [ended])
          simp only [ended, List.head_cons] at stops
          exact ⟨byte, tail, rfl, stops⟩
  · rintro ⟨digits, some_digits, all, rfl, rfl, byte, tail, rfl, stops⟩
    have taken : (digits ++ byte :: tail).takeWhile isDigit = digits := by
      simp [List.takeWhile_append_of_pos all, stops]
    have left : (digits ++ byte :: tail).dropWhile isDigit = byte :: tail := by
      simp [List.dropWhile_append_of_pos all, stops]
    simp [readNat, taken, left, some_digits]

theorem extends_readNat : Extends readNat := by
  intro text size rest more done
  obtain ⟨digits, some_digits, all, value, rfl, byte, tail, rfl, stops⟩ := readNat_eq.mp done
  exact readNat_eq.mpr ⟨digits, some_digits, all, value, by simp, byte, tail ++ more, rfl, stops⟩

theorem extends_readNumber : Extends readNumber := by
  refine extends_peek fun byte => extends_ite ?_ ?_
  · exact .bind extends_next fun _ => .bind extends_readNat fun _ => extends_lift _
  · exact .bind extends_readNat fun _ => extends_lift _

theorem extends_readValue : Extends readValue := by
  refine extends_peek fun byte => extends_ite ?_ (extends_ite ?_ (extends_ite ?_ ?_))
  · exact .bind extends_next fun _ => .map extends_readChars _
  · exact (extends_consume _).map _
  · exact (extends_consume _).map _
  · exact .map extends_readNumber _

theorem extends_readMember : Extends readMember :=
  (extends_consume _).bind fun _ => .bind extends_readChars fun _ =>
    (extends_consume _).bind fun _ => .map extends_readValue _

theorem extends_readMembers (limit : Nat) : Extends (readMembers limit) := by
  induction limit with
  | zero => exact extends_lift none
  | succ limit ih =>
      exact .bind extends_readMember fun member => .bind extends_next fun byte =>
        extends_ite (ih.map _) (extends_ite (extends_lift _) (extends_lift none))

/-- A higher limit changes no result. -/
theorem readMembers_mono {limit : Nat} {text : Bytes} {result : List Member × Bytes} (more : Nat)
    (done : readMembers limit text = some result) : readMembers (limit + more) text = some result := by
  induction limit generalizing text result with
  | zero => cases done
  | succ limit ih =>
      rw [Nat.succ_add]
      obtain ⟨⟨member, text₁⟩, first, done⟩ := Option.bind_eq_some_iff.mp done
      obtain ⟨⟨byte, text₂⟩, second, done⟩ := Option.bind_eq_some_iff.mp done
      refine Option.bind_eq_some_iff.mpr ⟨_, first, Option.bind_eq_some_iff.mpr ⟨_, second, ?_⟩⟩
      dsimp only at done ⊢
      split
      · rw [if_pos ‹_›] at done
        obtain ⟨tail, third, same⟩ := Option.bind_eq_some_iff.mp done
        exact Option.bind_eq_some_iff.mpr ⟨tail, ih third, same⟩
      · rwa [if_neg ‹_›] at done

theorem extends_readObject : Extends readObject := by
  refine extends_peek fun byte => extends_ite (.map extends_next _) ?_
  intro text members rest more done
  show readMembers (text ++ more).length (text ++ more) = _
  rw [List.length_append]
  exact readMembers_mono more.length (extends_readMembers _ text members rest more done)

theorem extends_readDocument : Extends readDocument := by
  refine extends_peek fun byte => extends_ite ?_ ((extends_consume _).map _)
  exact .bind extends_next fun _ => .map extends_readObject _

/-! ## Round trip -/

/-- Of a text and what follows it, the reader takes the text. -/
def Reads (read : Reader α) (text : Bytes) (value : α) (follow : Bytes → Prop) : Prop :=
  ∀ rest, follow rest → read (text ++ rest) = some (value, rest)

theorem bind_eq {read : Reader α} {later : α → Reader β} {text rest : Bytes} {value : α}
    (first : read text = some (value, rest)) : read.bind later text = later value rest := by
  rw [Reader.bind, first]
  rfl

theorem unescape_escapeCode {byte code : UInt8} (escaped : escapeCode byte = some code) :
    unescape code = some byte := by
  unfold escapeCode at escaped
  repeat' split at escaped
  all_goals first
    | (cases escaped; subst byte; rfl)
    | cases escaped

theorem escapeCode_plain {byte : UInt8} (plain : escapeCode byte = none) : byte ≠ 34 ∧ byte ≠ 92 := by
  constructor
  · rintro rfl
    cases plain
  · rintro rfl
    cases plain

theorem readChars_charsText (text rest : Bytes) : readChars (charsText text ++ rest) = some (text, rest) := by
  induction text with
  | nil => cases rest <;> rfl
  | cons byte text ih =>
      cases escaped : escapeCode byte with
      | some code =>
          simp [charsText, escaped, readChars, unescape_escapeCode escaped, ih]
      | none =>
          obtain ⟨quote, backslash⟩ := escapeCode_plain escaped
          simp only [charsText, escaped, List.cons_append]
          cases remaining : charsText text ++ rest with
          | nil => simp [remaining, readChars] at ih
          | cons code tail =>
              rw [remaining] at ih
              simp [readChars, quote, backslash, ih]

theorem digit_toUInt8 {digit : Nat} (small : digit < 10) :
    isDigit (digit.toUInt8 + 48) = true ∧ (digit.toUInt8 + 48 - 48).toNat = digit := by
  interval_cases digit <;> exact ⟨rfl, rfl⟩

theorem digitsValue_reverse (digits : List Nat) (small : ∀ digit ∈ digits, digit < 10) :
    digitsValue (digits.reverse.map fun digit => digit.toUInt8 + 48) = Nat.ofDigits 10 digits := by
  unfold digitsValue
  rw [List.map_reverse, List.foldl_reverse]
  induction digits with
  | nil => rfl
  | cons digit digits ih =>
      have first := (digit_toUInt8 (small digit List.mem_cons_self)).2
      have later := ih fun other member => small other (List.mem_cons_of_mem _ member)
      simp only [List.map_cons, List.foldr_cons, first, later, Nat.ofDigits_cons]
      ring

theorem natText_digits (size : Nat) :
    natText size ≠ [] ∧ ∀ digit ∈ natText size, isDigit digit = true := by
  unfold natText
  split
  · refine ⟨List.cons_ne_nil _ _, fun digit member => ?_⟩
    obtain rfl := List.mem_singleton.mp member
    rfl
  · refine ⟨by simpa [Nat.digits_eq_nil_iff_eq_zero] using ‹_›, fun digit member => ?_⟩
    obtain ⟨value, here, rfl⟩ := List.mem_map.mp member
    exact (digit_toUInt8 (Nat.digits_lt_base (by decide) (List.mem_reverse.mp here))).1

theorem digitsValue_natText (size : Nat) : digitsValue (natText size) = size := by
  unfold natText
  split
  · exact ‹size = 0›.symm ▸ rfl
  · rw [digitsValue_reverse _ fun digit => Nat.digits_lt_base (by decide)]
    exact Nat.ofDigits_digits 10 size

/-- Begins with a byte that ends a number. -/
def EndsNumber (rest : Bytes) : Prop := ∃ byte tail, rest = byte :: tail ∧ isDigit byte = false

theorem reads_nat (size : Nat) : Reads readNat (natText size) size EndsNumber := by
  intro rest ended
  obtain ⟨some_digits, all⟩ := natText_digits size
  exact readNat_eq.mpr ⟨natText size, some_digits, all, digitsValue_natText size, rfl, ended⟩

theorem digit_ne {byte other : UInt8} (digit : isDigit byte = true) (different : isDigit other = false) :
    byte ≠ other := by
  rintro rfl
  exact Bool.false_ne_true (different.symm.trans digit)

theorem natText_cons (size : Nat) : ∃ byte tail, natText size = byte :: tail ∧ isDigit byte = true := by
  obtain ⟨some_digits, all⟩ := natText_digits size
  cases text : natText size with
  | nil => exact absurd text some_digits
  | cons byte tail => exact ⟨byte, tail, rfl, all byte (text ▸ List.mem_cons_self)⟩

theorem toNumber_self (number : Number) : toNumber number.1 = some number :=
  dif_pos number.2

theorem reads_number (number : Number) : Reads readNumber (numberText number.1) number EndsNumber := by
  intro rest ended
  have size := reads_nat number.1.natAbs rest ended
  unfold numberText
  split
  · have negative : toNumber (-(number.1.natAbs : Int)) = some number := by
      rw [Int.ofNat_natAbs_of_nonpos (Int.le_of_lt ‹_›), Int.neg_neg]
      exact toNumber_self number
    simp only [readNumber, peek, Reader.bind, next, List.cons_append, if_true, Option.bind_some, size,
      negative, lift, Option.map_some]
  · have positive : toNumber (number.1.natAbs : Int) = some number := by
      rw [Int.natAbs_of_nonneg (Int.not_lt.mp ‹_›)]
      exact toNumber_self number
    obtain ⟨byte, tail, text, digit⟩ := natText_cons number.1.natAbs
    have unsigned : byte ≠ 45 := digit_ne digit rfl
    rw [text, List.cons_append] at size ⊢
    show (if byte = 45 then _ else readNat.bind fun size => lift (toNumber size) : Reader Number) _ = _
    rw [if_neg unsigned, bind_eq size, positive]
    rfl

/-- No number is taken for a value of another kind. -/
theorem numberText_cons (number : Int) :
    ∃ byte tail, numberText number = byte :: tail ∧ byte ≠ 34 ∧ byte ≠ 116 ∧ byte ≠ 102 := by
  unfold numberText
  split
  · exact ⟨45, _, rfl, by decide, by decide, by decide⟩
  · obtain ⟨byte, tail, text, digit⟩ := natText_cons number.natAbs
    exact ⟨byte, tail, text, digit_ne digit rfl, digit_ne digit rfl, digit_ne digit rfl⟩

theorem reads_value (value : Value) : Reads readValue value.text value EndsNumber := by
  intro rest ended
  cases value with
  | string text =>
      simp [Value.text, readValue, peek, Reader.bind, Reader.map, next, readChars_charsText, lift]
  | bool flag =>
      cases flag with
      | true => rfl
      | false => rfl
  | number number =>
      have read := reads_number number rest ended
      obtain ⟨byte, tail, text, string, yes, no⟩ := numberText_cons number.1
      show readValue (numberText number.1 ++ rest) = _
      rw [text, List.cons_append] at read ⊢
      simp [readValue, peek, string, yes, no, Reader.map, Reader.bind, read, lift]

theorem reads_member (member : Member) : Reads readMember (memberText member) member EndsNumber := by
  intro rest ended
  have value := reads_value member.2 rest ended
  simp [memberText, readMember, consume, Reader.bind, Reader.map, next, lift, readChars_charsText, value]

theorem reads_members (members : List Member) (some_members : members ≠ []) {limit : Nat}
    (enough : members.length ≤ limit) (rest : Bytes) :
    readMembers limit (membersText members ++ rest) = some (members, rest) := by
  induction members generalizing limit with
  | nil => exact absurd rfl some_members
  | cons member members ih =>
      cases limit with
      | zero => cases enough
      | succ limit =>
          cases members with
          | nil =>
              have first := reads_member member (125 :: rest) ⟨125, rest, rfl, rfl⟩
              simp [membersText, readMembers, Reader.bind, first, next, lift]
          | cons second members =>
              have first := reads_member member (44 :: (membersText (second :: members) ++ rest))
                ⟨44, _, rfl, rfl⟩
              have later := ih (List.cons_ne_nil _ _) (Nat.le_of_succ_le_succ enough)
              simp [membersText, readMembers, Reader.bind, Reader.map, first, next, lift, later]

/-- Every member takes room in the text. -/
theorem length_le_membersText (members : List Member) : members.length ≤ (membersText members).length := by
  induction members with
  | nil => exact Nat.zero_le _
  | cons member members ih =>
      cases members with
      | nil => simp [membersText]
      | cons second members =>
          simp only [membersText, List.length_append, List.length_cons] at ih ⊢
          omega

theorem reads_object (members : List Member) (rest : Bytes) :
    readObject (membersText members ++ rest) = some (members, rest) := by
  cases members with
  | nil => rfl
  | cons member members =>
      have all := reads_members (member :: members) (List.cons_ne_nil _ _)
        ((length_le_membersText _).trans (by simp : _ ≤ (membersText (member :: members) ++ rest).length)) rest
      obtain ⟨tail, text⟩ : ∃ tail, membersText (member :: members) = 34 :: tail := by
        cases members with
        | nil => exact ⟨_, rfl⟩
        | cons => exact ⟨_, rfl⟩
      rw [text, List.cons_append] at all ⊢
      exact all

theorem reads_document (document : Document) (rest : Bytes) :
    readDocument (serialize document ++ rest) = some (document, rest) := by
  cases document with
  | null => rfl
  | object members =>
      simp [serialize, readDocument, peek, Reader.bind, Reader.map, next, lift, reads_object]

/-- A document is read back from its text. -/
theorem deserialize_serialize (document : Document) :
    deserialize (serialize document) = some document := by
  have read := reads_document document []
  rw [List.append_nil] at read
  simp [deserialize, read]

/-- A text that was cut short is not read. -/
theorem deserialize_cut {document : Document} {part : Bytes} (cut : part <+: serialize document)
    (short : part ≠ serialize document) : deserialize part = none := by
  obtain ⟨missing, whole⟩ := cut
  cases read : readDocument part with
  | none => simp [deserialize, read]
  | some result =>
      exfalso
      obtain ⟨found, rest⟩ := result
      have longer := extends_readDocument part found rest missing read
      have all := reads_document document []
      rw [List.append_nil, ← whole, longer] at all
      have nothing : rest ++ missing = [] := (Prod.mk.inj (Option.some.inj all)).2
      rw [(List.append_eq_nil_iff.mp nothing).2, List.append_nil] at whole
      exact short whole

end FryFirmware.Lib.Json
