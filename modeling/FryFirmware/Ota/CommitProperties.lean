import FryFirmware.Ota.Commit
import FryFirmware.Ota.Sha256Properties
import Mathlib.Data.List.Basic
import Mathlib.Data.List.GetD
import Mathlib.Data.List.Infix
import Mathlib.Tactic.Common

/-!
# What reaches the Updater

The digest comparison first, then the Updater along the log of its calls, one
turn of the stream loop, and whole downloads.
-/

set_option autoImplicit false

namespace FryFirmware.Ota

/-! ## The digest comparison -/

theorem asciiLowerChar_idem (c : UInt8) : asciiLowerChar (asciiLowerChar c) = asciiLowerChar c := by
  unfold asciiLowerChar
  by_cases upper : c ≥ 65 ∧ c ≤ 90
  · have low := UInt8.le_iff_toNat_le.mp upper.1
    have high := UInt8.le_iff_toNat_le.mp upper.2
    have sum : (c + 32).toNat = c.toNat + 32 := by
      rw [UInt8.toNat_add]
      have : (90 : UInt8).toNat = 90 := rfl
      have : (32 : UInt8).toNat = 32 := rfl
      omega
    have past : ¬ c + 32 ≤ 90 := by
      rw [UInt8.le_iff_toNat_le, sum]
      have : (65 : UInt8).toNat = 65 := rfl
      have : (90 : UInt8).toNat = 90 := rfl
      omega
    simp [upper, past]
  · simp [upper]

theorem asciiLowerChar_ne_zero {c : UInt8} (nonzero : c ≠ 0) : asciiLowerChar c ≠ 0 := by
  unfold asciiLowerChar
  split
  case isTrue upper =>
    intro zero
    have sum := congrArg UInt8.toNat zero
    have high := UInt8.le_iff_toNat_le.mp upper.2
    rw [UInt8.toNat_add] at sum
    have : (90 : UInt8).toNat = 90 := rfl
    have : (32 : UInt8).toNat = 32 := rfl
    have : (0 : UInt8).toNat = 0 := rfl
    omega
  case isFalse => exact nonzero

theorem asciiLowerInPlace_string {text : List UInt8} (nonzero : ∀ c ∈ text, c ≠ 0) :
    asciiLowerInPlace (text ++ [0]) = text.map asciiLowerChar ++ [0] := by
  induction text with
  | nil => rfl
  | cons c rest ih =>
      have visible := nonzero c List.mem_cons_self
      simp [asciiLowerInPlace, visible, ih fun c' member => nonzero c' (List.mem_cons_of_mem _ member)]

theorem sha256HexMatchesFrom_iff (hex expect : List UInt8) (i left : Nat) :
    sha256HexMatchesFrom hex expect i left = true ↔
      ∀ j, i ≤ j → j < i + left → hex.getD j 0 ≠ 0 ∧
        asciiLowerChar (hex.getD j 0) = asciiLowerChar (expect.getD j 0) := by
  induction left generalizing i with
  | zero =>
      simp only [sha256HexMatchesFrom, true_iff]
      intro j lower upper
      omega
  | succ left ih =>
      unfold sha256HexMatchesFrom
      by_cases ended : hex.getD i 0 = 0
      · rw [if_pos ended]
        exact iff_of_false Bool.false_ne_true fun all =>
          (all i (Nat.le_refl _) (by omega)).1 ended
      rw [if_neg ended]
      by_cases differs : asciiLowerChar (hex.getD i 0) ≠ asciiLowerChar (expect.getD i 0)
      · rw [if_pos differs]
        exact iff_of_false Bool.false_ne_true fun all =>
          differs (all i (Nat.le_refl _) (by omega)).2
      rw [if_neg differs, ih]
      constructor
      · intro rest j lower upper
        obtain here | later := Nat.eq_or_lt_of_le lower
        · exact here ▸ ⟨ended, not_not.mp differs⟩
        · exact rest j later (by omega)
      · intro all j lower upper
        exact all j (by omega) (by omega)

theorem hexDigits_nonzero (data : List UInt8) : ∀ c ∈ hexDigits data, c ≠ 0 := by
  have digit (n : Nat) (small : n ≤ 15) : kHex.getD n 0 ≠ 0 := by
    have all : ∀ n < 16, kHex.getD n 0 ≠ 0 := by decide
    exact all n (by omega)
  intro c member
  obtain ⟨byte, -, position⟩ := List.mem_flatMap.mp member
  have nibble (x : UInt8) : (x &&& 0x0f).toNat ≤ 15 := by
    rw [UInt8.toNat_and]
    exact Nat.and_le_right
  obtain high | low := List.mem_cons.mp position
  · rw [high]
    exact digit _ (nibble _)
  · rw [List.mem_singleton.mp low]
    exact digit _ (nibble _)

/-- The check passes exactly for 64 characters that spell the same text, up to ASCII
case. -/
theorem sha256HexMatches_text {text expect : List UInt8} (digits : text.length = 64)
    (nonzero : ∀ c ∈ text, c ≠ 0) :
    sha256HexMatches (text ++ [0]) expect expect.length = true ↔
      expect.length = 64 ∧ text.map asciiLowerChar = expect.map asciiLowerChar := by
  rw [sha256HexMatches]
  by_cases long : expect.length = 64
  · have terminated : (text ++ [0]).getD 64 0 = 0 := by
      simp [digits]
    have inside (j : Nat) (inText : j < text.length) : (text ++ [0]).getD j 0 = text[j] := by
      rw [List.getD_eq_getElem?_getD, List.getElem?_append_left inText]
      simp [inText]
    have wanted (j : Nat) (inExpect : j < expect.length) : expect.getD j 0 = expect[j] :=
      List.getD_eq_getElem _ _ inExpect
    rw [if_neg (by simpa using long), terminated, decide_eq_true rfl, Bool.and_true,
      sha256HexMatchesFrom_iff]
    constructor
    · intro all
      refine ⟨long, List.ext_getElem (by simp [digits, long]) ?_⟩
      intro j inText inExpect
      have small : j < 64 := by simpa [digits] using inText
      have same := (all j (Nat.zero_le _) (by omega)).2
      rw [inside j (by omega), wanted j (by omega)] at same
      simpa using same
    · intro ⟨_, same⟩ j _ upper
      have inText : j < text.length := by omega
      have inExpect : j < expect.length := by omega
      have pointwise : asciiLowerChar text[j] = asciiLowerChar expect[j] := by
        have := congrArg (fun text => text[j]?) same
        simpa [inText, inExpect] using this
      rw [inside j inText, wanted j inExpect]
      exact ⟨nonzero _ (List.getElem_mem _), pointwise⟩
  · simp [long]

theorem bytesToHexUpper_eq {digest : List UInt8} (size : digest.length = 32) :
    bytesToHexUpper digest 65 = hexDigits digest ++ [0] := by
  rw [bytesToHexUpper, if_neg (by omega)]

/-- So it passes exactly for a digest that spells the same hash. -/
theorem sha256HexMatches_iff {digest expect : List UInt8} (size : digest.length = 32) :
    sha256HexMatches (asciiLowerInPlace (bytesToHexUpper digest 65)) expect expect.length = true ↔
      expect.length = 64 ∧ (hexDigits digest).map asciiLowerChar = expect.map asciiLowerChar := by
  have digits : ((hexDigits digest).map asciiLowerChar).length = 64 := by
    rw [List.length_map, hexDigits_length, size]
  have nonzero : ∀ c ∈ (hexDigits digest).map asciiLowerChar, c ≠ 0 :=
    List.forall_mem_map.mpr fun c member => asciiLowerChar_ne_zero (hexDigits_nonzero digest c member)
  have twice : asciiLowerChar ∘ asciiLowerChar = asciiLowerChar := funext asciiLowerChar_idem
  rw [bytesToHexUpper_eq size, asciiLowerInPlace_string (hexDigits_nonzero digest),
    sha256HexMatches_text digits nonzero, List.map_map, twice]

/-! ## The log -/

/-- The bytes read from the stream. -/
def readBytes (log : List Action) : List UInt8 :=
  log.flatMap fun
    | .read bytes => bytes
    | _ => []

def writes (log : List Action) : List (List UInt8) :=
  log.filterMap fun
    | .write data _ => some data
    | _ => none

def received (log : List Action) : List UInt8 := (writes log).flatten

@[simp]
theorem readBytes_append (first second : List Action) :
    readBytes (first ++ second) = readBytes first ++ readBytes second := by
  simp [readBytes]

@[simp]
theorem writes_append (first second : List Action) :
    writes (first ++ second) = writes first ++ writes second := by
  simp [writes]

@[simp]
theorem received_append (first second : List Action) :
    received (first ++ second) = received first ++ received second := by
  simp [received]

@[simp] theorem readBytes_nil : readBytes [] = [] := rfl
@[simp] theorem received_nil : received [] = [] := rfl
@[simp] theorem readBytes_read (bytes : List UInt8) : readBytes [.read bytes] = bytes := by
  simp [readBytes]
@[simp] theorem readBytes_write (data : List UInt8) (n : Nat) : readBytes [.write data n] = [] := rfl
@[simp] theorem readBytes_judge (m : Bool) : readBytes [.judge m] = [] := rfl
@[simp] theorem readBytes_end (e r : Bool) : readBytes [.endUpdate e r] = [] := rfl
@[simp] theorem received_read (bytes : List UInt8) : received [.read bytes] = [] := rfl
@[simp] theorem received_write (data : List UInt8) (n : Nat) : received [.write data n] = data := by
  simp [received, writes]
@[simp] theorem received_judge (m : Bool) : received [.judge m] = [] := rfl
@[simp] theorem received_end (e r : Bool) : received [.endUpdate e r] = [] := rfl

/-- When an action may happen, given what happened before: bytes go to the Updater in
the order of the stream and after they were read, the digest is judged while a byte
is missing, and `end(true)` comes after the whole image with a matching digest. -/
def Allowed (total : Nat) (shaExpect : List UInt8) (before : List Action) : Action → Prop
  | .read _ => True
  | .write data _ => received before ++ data <+: readBytes before
  | .judge _ => (received before).length < total
  | .endUpdate false _ => True
  | .endUpdate true _ =>
      (readBytes before).length = total ∧ received before = readBytes before ∧
        shaExpect.length = 64 ∧
        (hexDigits (sha256 (readBytes before))).map asciiLowerChar = shaExpect.map asciiLowerChar

def LogLaw (total : Nat) (shaExpect : List UInt8) (log : List Action) : Prop :=
  ∀ before action after, log = before ++ action :: after → Allowed total shaExpect before action

theorem logLaw_nil (total : Nat) (shaExpect : List UInt8) : LogLaw total shaExpect [] := by
  intro before action after split
  cases before <;> cases split

theorem LogLaw.snoc {total : Nat} {shaExpect : List UInt8} {log : List Action} {action : Action}
    (law : LogLaw total shaExpect log) (allowed : Allowed total shaExpect log action) :
    LogLaw total shaExpect (log ++ [action]) := by
  intro before action' after split
  obtain ended | ⟨rest, last, shape⟩ := after.eq_nil_or_concat'
  · rw [ended] at split
    obtain ⟨same, single⟩ := List.append_inj' split rfl
    rw [← same, ← (List.cons.inj single).1]
    exact allowed
  · rw [shape, ← List.cons_append, ← List.append_assoc] at split
    exact law before action' rest (List.append_inj' split rfl).1

/-! ## The Updater along its log -/

variable {υ : Type} {U : Updater υ} {idle : υ} {total : Nat}

/-- The Updater of `d` is the begun one after the writes in the log. -/
def Follows (U : Updater υ) (idle : υ) (total : Nat) (d : Device υ) : Prop :=
  d.updater = U.after idle total (writes d.log)

theorem Follows.write {d : Device υ} (follows : Follows U idle total d) (data : List UInt8) :
    Follows U idle total (d.write U data).1 := by
  unfold Follows at *
  simp [Device.write, writes, Updater.after, Updater.feed, follows]

theorem Follows.note {d : Device υ} (follows : Follows U idle total d) {action : Action}
    (quiet : writes [action] = []) : Follows U idle total (d.note action) := by
  unfold Follows at *
  rw [Device.note, writes_append, quiet, List.append_nil]
  exact follows

/-- While bytes are missing, ending the update without `evenIfRemaining` stages
nothing. -/
theorem Follows.discard {d : Device υ} (described : U.Described idle total)
    (follows : Follows U idle total d) (missing : (received d.log).length < total) :
    U.staged (discard U d).updater = false := by
  show U.staged (U.endUpdate d.updater false).1 = false
  rw [follows]
  refine described.unfinished _ ?_
  obtain error | progress := described.progress_le (writes d.log)
  · exact Or.inl error
  · exact Or.inr (Nat.lt_of_le_of_lt progress missing)

/-- `part` was given to the Updater, in one write or, where it is empty, in none. -/
def Given (U : Updater υ) (part : List UInt8) (d d' : Device υ) : Prop :=
  (part = [] ∧ d' = d) ∨ d' = (d.write U part).1

theorem Given.follows {part : List UInt8} {d d' : Device υ} (given : Given U part d d')
    (follows : Follows U idle total d) : Follows U idle total d' := by
  obtain ⟨-, rfl⟩ | rfl := given
  · exact follows
  · exact follows.write part

theorem Given.received {part : List UInt8} {d d' : Device υ} (given : Given U part d d') :
    received d'.log = received d.log ++ part := by
  obtain ⟨rfl, rfl⟩ | rfl := given
  · simp
  · simp [Device.write]

theorem Given.readBytes {part : List UInt8} {d d' : Device υ} (given : Given U part d d') :
    readBytes d'.log = readBytes d.log := by
  obtain ⟨rfl, rfl⟩ | rfl := given
  · simp
  · simp [Device.write]

theorem Given.law {part shaExpect : List UInt8} {d d' : Device υ} (given : Given U part d d')
    (law : LogLaw total shaExpect d.log)
    (next : Ota.received d.log ++ part <+: Ota.readBytes d.log) : LogLaw total shaExpect d'.log := by
  obtain ⟨rfl, rfl⟩ | rfl := given
  · exact law
  · exact law.snoc next

/-! ## `HeldTailWriter.write` -/

/-- A write either fails, having given the Updater some of the bytes and not the
last one of the stream, or gives it all of them but that one. -/
theorem HeldTailWriter.write_cases {w : HeldTailWriter} (d : Device υ) {data : List UInt8}
    (some : data ≠ []) (open' : w.held = false) (pending : w.seen < w.total) :
    (w.write U d data).2.2 = false ∧ (∃ part, part <+: data ∧ w.seen + part.length < w.total ∧
        Given U part d (w.write U d data).2.1) ∨
      (w.write U d data).2.2 = true ∧ w.seen + data.length < w.total ∧
        Given U data d (w.write U d data).2.1 ∧
        (w.write U d data).1 = { w with seen := w.seen + data.length } ∨
      (w.write U d data).2.2 = true ∧ w.seen + data.length = w.total ∧
        ∃ part last, data = part ++ [last] ∧ Given U part d (w.write U d data).2.1 ∧
          (w.write U d data).1 =
            { w with tail := last, held := true, seen := w.seen + data.length } := by
  have nonzero : data.length ≠ 0 := fun zero => some (List.length_eq_zero_iff.mp zero)
  obtain ⟨front, last, split⟩ : ∃ front last, data = front ++ [last] :=
    ⟨data.dropLast, data.getLast some, (List.dropLast_concat_getLast some).symm⟩
  have size : data.length = front.length + 1 := by rw [split]; simp
  unfold HeldTailWriter.write
  dsimp only
  rw [if_neg nonzero]
  by_cases long : w.seen + data.length > w.total
  · rw [if_pos (Or.inr long)]
    exact Or.inl ⟨rfl, [], List.nil_prefix, pending, Or.inl ⟨rfl, rfl⟩⟩
  rw [if_neg (by simp [open', long])]
  by_cases more : w.seen + data.length < w.total
  · rw [if_pos more]
    by_cases accepted : (d.write U data).2 = data.length
    · rw [if_neg (by simpa using accepted)]
      exact Or.inr (Or.inl ⟨rfl, more, Or.inr rfl, rfl⟩)
    · rw [if_pos accepted]
      exact Or.inl ⟨rfl, data, List.prefix_refl _, more, Or.inr rfl⟩
  · rw [if_neg more]
    have whole : w.seen + data.length = w.total := by omega
    have taken : data.take (data.length - 1) = front := by
      rw [split]
      simp
    have ending : data.getD (data.length - 1) 0 = last := by
      rw [split]
      simp
    have given : Given U front d
        (if data.length > 1 then d.write U (data.take (data.length - 1)) else (d, data.length - 1)).1 := by
      split
      case isTrue => exact Or.inr (by rw [taken])
      case isFalse single => exact Or.inl ⟨List.length_eq_zero_iff.mp (by omega), rfl⟩
    by_cases accepted : (if data.length > 1 then d.write U (data.take (data.length - 1))
        else (d, data.length - 1)).2 = data.length - 1
    · rw [if_neg (by simpa using accepted)]
      refine Or.inr (Or.inr ⟨rfl, whole, front, last, split, given, ?_⟩)
      rw [ending]
    · rw [if_pos accepted]
      refine Or.inl ⟨rfl, front, ?_, by omega, given⟩
      rw [split]
      exact List.prefix_append _ _

/-! ## One turn of the loop -/

/-- The loop after `readBytes log` of the stream. -/
structure Streams (U : Updater υ) (idle : υ) (total : Nat) (shaExpect : List UInt8)
    (s : Streaming υ) : Prop where
  follows : Follows U idle total s.device
  law : LogLaw total shaExpect s.device.log
  hashed : s.sha = ({} : Sha256).update (readBytes s.device.log)
  counted : (readBytes s.device.log).length = s.done
  seen : s.upd.seen = s.done
  size : s.upd.total = total
  open' : s.upd.held = false → s.done < total ∧ received s.device.log = readBytes s.device.log
  held : s.upd.held = true →
    s.done = total ∧ readBytes s.device.log = received s.device.log ++ [s.upd.tail]

/-- The update was dropped with `end(false)`. -/
structure Dropped (U : Updater υ) (total : Nat) (shaExpect : List UInt8) (d : Device υ) :
    Prop where
  law : LogLaw total shaExpect d.log
  clear : U.staged d.updater = false
  last : ∃ rest result, d.log = rest ++ [.endUpdate false result]

variable {shaExpect : List UInt8}

/-- The Updater never has the last byte before the digest is judged. -/
theorem Streams.missing {s : Streaming υ} (streams : Streams U idle total shaExpect s) :
    (received s.device.log).length < total := by
  cases held : s.upd.held with
  | false =>
      obtain ⟨pending, same⟩ := streams.open' held
      rw [same, streams.counted]
      exact pending
  | true =>
      obtain ⟨whole, split⟩ := streams.held held
      have size := congrArg List.length split
      rw [streams.counted, List.length_append, List.length_singleton] at size
      omega

theorem dropped_discard {d : Device υ} (described : U.Described idle total)
    (follows : Follows U idle total d) (law : LogLaw total shaExpect d.log)
    (missing : (received d.log).length < total) : Dropped U total shaExpect (discard U d) where
  law := law.snoc trivial
  clear := follows.discard described missing
  last := ⟨d.log, _, rfl⟩

theorem Streams.turn {s : Streaming υ} (described : U.Described idle total)
    (streams : Streams U idle total shaExpect s) (pending : s.done < total) (t : Turn) :
    ((s.turn U t).2 ≠ .failed ∧ Streams U idle total shaExpect (s.turn U t).1) ∨
      ((s.turn U t).2 = .failed ∧ Dropped U total shaExpect (s.turn U t).1.device) := by
  cases t with
  | idle connected now =>
      unfold Streaming.turn
      dsimp only
      split
      · exact Or.inl ⟨nofun, streams⟩
      split
      · exact Or.inl ⟨nofun, streams⟩
      · exact Or.inl ⟨nofun, streams⟩
  | available bytes now =>
      unfold Streaming.turn
      dsimp only
      by_cases empty : bytes.length = 0
      · rw [if_pos empty]
        exact Or.inl ⟨nofun, streams⟩
      rw [if_neg empty]
      have some : bytes ≠ [] := fun nil => empty (by rw [nil]; rfl)
      have opened : s.upd.held = false := by
        cases held : s.upd.held with
        | false => rfl
        | true =>
            have := (streams.held held).1
            omega
      have room : s.upd.seen < s.upd.total := by rw [streams.seen, streams.size]; exact pending
      obtain ⟨-, same⟩ := streams.open' opened
      have noted : Follows U idle total (s.device.note (.read bytes)) := streams.follows.note rfl
      have notedLaw : LogLaw total shaExpect (s.device.note (.read bytes)).log :=
        streams.law.snoc trivial
      have notedReceived : received (s.device.note (.read bytes)).log = readBytes s.device.log := by
        simp [Device.note, same]
      have notedRead : readBytes (s.device.note (.read bytes)).log =
          readBytes s.device.log ++ bytes := by
        simp [Device.note]
      have next {part : List UInt8} (front : part <+: bytes) :
          received (s.device.note (.read bytes)).log ++ part <+:
            readBytes (s.device.note (.read bytes)).log := by
        rw [notedReceived, notedRead]
        exact (List.prefix_append_right_inj _).mpr front
      obtain ⟨refused, part, front, short, given⟩ | ⟨accepted, more, given, writer⟩ |
          ⟨accepted, whole, part, last, split, given, writer⟩ :=
        s.upd.write_cases (s.device.note (.read bytes)) some opened room
      · refine Or.inr ?_
        rw [if_pos (by rw [refused]; rfl)]
        refine ⟨rfl, dropped_discard described (given.follows noted) (given.law notedLaw (next front)) ?_⟩
        rw [given.received, notedReceived, List.length_append, streams.counted]
        rw [streams.seen, streams.size] at short
        exact short
      · refine Or.inl ?_
        rw [if_neg (by rw [accepted]; decide)]
        refine ⟨nofun, given.follows noted, given.law notedLaw (next (List.prefix_refl _)), ?_, ?_,
          ?_, ?_, ?_, ?_⟩
        · rw [given.readBytes, notedRead, ← update_append, ← streams.hashed]
        · rw [given.readBytes, notedRead, List.length_append, streams.counted]
        · rw [writer]
          exact congrArg (· + bytes.length) streams.seen
        · rw [writer]
          exact streams.size
        · intro _
          rw [streams.seen, streams.size] at more
          exact ⟨more, by rw [given.received, given.readBytes, notedReceived, notedRead]⟩
        · intro held
          rw [writer] at held
          exact absurd held (by rw [opened]; decide)
      · refine Or.inl ?_
        rw [if_neg (by rw [accepted]; decide)]
        have front : part <+: bytes := by rw [split]; exact List.prefix_append _ _
        refine ⟨nofun, given.follows noted, given.law notedLaw (next front), ?_, ?_, ?_, ?_, ?_, ?_⟩
        · rw [given.readBytes, notedRead, ← update_append, ← streams.hashed]
        · rw [given.readBytes, notedRead, List.length_append, streams.counted]
        · rw [writer]
          exact congrArg (· + bytes.length) streams.seen
        · rw [writer]
          exact streams.size
        · intro stillOpen
          rw [writer] at stillOpen
          cases stillOpen
        · intro _
          rw [streams.seen, streams.size] at whole
          refine ⟨whole, ?_⟩
          rw [given.received, given.readBytes, notedReceived, notedRead, writer, List.append_assoc,
            ← split]

/-! ## The whole loop -/

/-- `leave` at the end of the loop: the stream is complete, or a turn broke it off. -/
theorem Streams.run {len : Nat} {s : Streaming υ} (described : U.Described idle len)
    (streams : Streams U idle len shaExpect s) (turns : List Turn) :
    ((s.run U len turns).2 ≠ .failed ∧ Streams U idle len shaExpect (s.run U len turns).1) ∨
      ((s.run U len turns).2 = .failed ∧ Dropped U len shaExpect (s.run U len turns).1.device) := by
  induction turns generalizing s with
  | nil =>
      unfold Streaming.run
      refine Or.inl ⟨?_, streams⟩
      dsimp only
      split <;> nofun
  | cons t rest ih =>
      unfold Streaming.run
      by_cases pending : s.done < len
      · rw [if_pos pending]
        dsimp only
        by_cases again : (s.turn U t).2 = .again
        · rw [if_pos again]
          obtain ⟨-, next⟩ | ⟨failed, -⟩ := streams.turn described pending t
          · exact ih next
          · rw [failed] at again
            cases again
        · rw [if_neg again]
          exact streams.turn described pending t
      · rw [if_neg pending]
        exact Or.inl ⟨nofun, streams⟩

def Turn.bytes : Turn → List UInt8
  | .available bytes _ => bytes
  | .idle _ _ => []

theorem HeldTailWriter.write_readBytes (w : HeldTailWriter) (d : Device υ) (data : List UInt8) :
    readBytes (w.write U d data).2.1.log = readBytes d.log := by
  unfold HeldTailWriter.write
  dsimp only
  split
  · rfl
  split
  · rfl
  split
  · split <;> simp [Device.write]
  · split <;> split <;> simp [Device.write]

theorem Streaming.turn_readBytes (s : Streaming υ) (t : Turn) :
    readBytes (s.turn U t).1.device.log = readBytes s.device.log ++ t.bytes := by
  cases t with
  | idle connected now =>
      unfold Streaming.turn
      dsimp only
      split
      · simp [Turn.bytes]
      split <;> simp [Turn.bytes]
  | available bytes now =>
      unfold Streaming.turn
      dsimp only
      by_cases empty : bytes.length = 0
      · rw [if_pos empty]
        simp [Turn.bytes, List.length_eq_zero_iff.mp empty]
      rw [if_neg empty]
      split
      · simp [discard, Device.endUpdate, HeldTailWriter.write_readBytes, Device.note, Turn.bytes]
      · simp [HeldTailWriter.write_readBytes, Device.note, Turn.bytes]

/-- The loop reads a front part of the stream. -/
theorem Streaming.run_readBytes (len : Nat) (s : Streaming υ) (turns : List Turn) :
    readBytes (s.run U len turns).1.device.log <+:
      readBytes s.device.log ++ turns.flatMap Turn.bytes := by
  induction turns generalizing s with
  | nil =>
      unfold Streaming.run
      exact List.prefix_append _ _
  | cons t rest ih =>
      unfold Streaming.run
      split
      · dsimp only
        split
        · refine (ih _).trans ?_
          rw [Streaming.turn_readBytes, List.flatMap_cons, List.append_assoc]
        · rw [Streaming.turn_readBytes, List.flatMap_cons, ← List.append_assoc]
          exact List.prefix_append _ _
      · exact List.prefix_append _ _

/-! ## The digest check and the commit -/

/-- What a finished update leaves: an action that staged the image, or none that did. -/
structure Concluded (U : Updater υ) (total : Nat) (shaExpect : List UInt8)
    (result : Device υ × Bool) : Prop where
  law : LogLaw total shaExpect result.1.log
  last : ∃ rest even ended, result.1.log = rest ++ [.endUpdate even ended] ∧
    ((even && ended) = result.2)
  clear : result.2 = false → U.staged result.1.updater = false

theorem Dropped.concluded {d : Device υ} {total : Nat} (dropped : Dropped U total shaExpect d) :
    Concluded U total shaExpect (d, false) where
  law := dropped.law
  last := by
    obtain ⟨rest, ended, split⟩ := dropped.last
    exact ⟨rest, false, ended, split, rfl⟩
  clear _ := dropped.clear

theorem commit_concluded {w : HeldTailWriter} {d : Device υ} (described : U.Described idle total)
    (follows : Follows U idle total d) (law : LogLaw total shaExpect d.log) (held : w.held = true)
    (whole : (readBytes d.log).length = total) (split : readBytes d.log = received d.log ++ [w.tail])
    (long : shaExpect.length = 64)
    (same : (hexDigits (sha256 (readBytes d.log))).map asciiLowerChar =
      shaExpect.map asciiLowerChar) :
    Concluded U total shaExpect (w.commit U d) := by
  have written : Follows U idle total (d.write U [w.tail]).1 := follows.write _
  have writtenLaw : LogLaw total shaExpect (d.write U [w.tail]).1.log :=
    law.snoc (by rw [Allowed, split])
  unfold HeldTailWriter.commit
  rw [if_neg (by rw [held]; decide)]
  dsimp only
  split
  case isTrue refused =>
    refine ⟨writtenLaw.snoc trivial, ⟨_, false, _, rfl, rfl⟩, fun _ => ?_⟩
    have error : U.hasError (d.write U [w.tail]).1.updater = true := by
      have := described.refused (writes d.log) [w.tail]
      rw [← follows] at this
      exact this refused
    show U.staged (U.endUpdate (d.write U [w.tail]).1.updater false).1 = false
    rw [written] at error ⊢
    exact described.unfinished _ (Or.inl error)
  case isFalse accepted =>
    have readSame : readBytes (d.write U [w.tail]).1.log = readBytes d.log := by simp [Device.write]
    have receivedWhole : received (d.write U [w.tail]).1.log = readBytes d.log := by
      simp [Device.write, split]
    refine ⟨writtenLaw.snoc ?_, ⟨_, true, _, rfl, by simp [Device.endUpdate]⟩, fun failed => ?_⟩
    · show (readBytes (d.write U [w.tail]).1.log).length = total ∧ _
      rw [readSame, receivedWhole]
      exact ⟨whole, rfl, long, same⟩
    · show U.staged (U.endUpdate (d.write U [w.tail]).1.updater true).1 = false
      have failed : (U.endUpdate (d.write U [w.tail]).1.updater true).2 = false := failed
      rw [written] at failed ⊢
      exact described.failed _ failed

theorem Streams.judge {s : Streaming υ} (described : U.Described idle total)
    (streams : Streams U idle total shaExpect s) (whole : s.done = total) :
    Concluded U total shaExpect (s.judge U shaExpect) := by
  have digest : s.sha.finish = sha256 (readBytes s.device.log) := by
    rw [streams.hashed, finish_update]
  have matches' := @sha256HexMatches_iff (sha256 (readBytes s.device.log)) shaExpect (sha256_length _)
  unfold Streaming.judge
  dsimp only
  rw [digest]
  generalize sha256HexMatches (asciiLowerInPlace (bytesToHexUpper (sha256 (readBytes s.device.log)) 65))
    shaExpect shaExpect.length = matched at matches' ⊢
  have judged : Follows U idle total (s.device.note (.judge matched)) := streams.follows.note rfl
  have judgedLaw : LogLaw total shaExpect (s.device.note (.judge matched)).log :=
    streams.law.snoc streams.missing
  have sameReceived : received (s.device.note (.judge matched)).log = received s.device.log := by
    simp [Device.note]
  have sameRead : readBytes (s.device.note (.judge matched)).log = readBytes s.device.log := by
    simp [Device.note]
  cases matched with
  | false =>
      have dropped : Dropped U total shaExpect (discard U (s.device.note (.judge false))) :=
        dropped_discard described judged judgedLaw (by rw [sameReceived]; exact streams.missing)
      obtain ⟨law, last, -⟩ := dropped.concluded
      exact ⟨law, last, fun _ => described.cleared _ dropped.clear⟩
  | true =>
      obtain ⟨long, same⟩ := matches'.mp rfl
      have held : s.upd.held = true := by
        cases held : s.upd.held with
        | true => rfl
        | false =>
            have := (streams.open' held).1
            omega
      obtain ⟨-, split⟩ := streams.held held
      exact commit_concluded described judged judgedLaw held
        (by rw [sameRead, streams.counted, whole]) (by rw [sameRead, sameReceived, split]) long
        (by rw [sameRead]; exact same)

end FryFirmware.Ota
