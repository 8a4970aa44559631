import FryFirmware.Identity.ServerDetail
import FryFirmware.Lib.Joined
import FryFirmware.Lib.Octets
import Mathlib.Data.List.Basic
import Mathlib.Tactic.Common

/-!
# What the log shows of a key

A server text as letters and key-shaped tokens, what of it reaches the log, and when the
body of a miner key does.
-/

set_option autoImplicit false

namespace FryFirmware.Identity

open Lib
open Config

/-! ## Letters and tokens -/

inductive Piece where
  | raw (c : UInt8)
  | token (t : Text)

namespace Piece

def source : Piece → Text
  | raw c => [c]
  | token t => t

/-- In the log: of a token the prefix and the last four letters. -/
def shown : Piece → Text
  | raw c => [plainChar c]
  | token t => t.take 4 ++ ellipsis ++ t.drop (t.length - 4)

def width : Piece → Nat
  | raw _ => 1
  | token _ => 11

end Piece

/-- The text from left to right, a token wherever one begins. -/
def pieces (key : Text) : Text → List Piece
  | [] => []
  | c :: rest =>
      if tokenLen key (c :: rest) = 0 then .raw c :: pieces key rest
      else .token ((c :: rest).take (tokenLen key (c :: rest))) ::
        pieces key ((c :: rest).drop (tokenLen key (c :: rest)))
termination_by s => s.length
decreasing_by
  all_goals simp only [List.length_cons, List.length_drop]
  all_goals omega

def widthOf (ps : List Piece) : Nat := (ps.map Piece.width).sum

/-- The first pieces for which there is room. -/
def fit : Nat → List Piece → List Piece
  | _, [] => []
  | room, p :: ps => if p.width ≤ room then p :: fit (room - p.width) ps else []

theorem fit_front (room : Nat) (ps : List Piece) :
    fit room ps <+: ps ∧ widthOf (fit room ps) ≤ room := by
  induction ps generalizing room with
  | nil => exact ⟨List.prefix_refl _, Nat.zero_le _⟩
  | cons p ps ih =>
      unfold fit
      split
      · next fits =>
        obtain ⟨front, short⟩ := ih (room - p.width)
        refine ⟨List.prefix_cons_inj p |>.mpr front, ?_⟩
        simp only [widthOf, List.map_cons, List.sum_cons] at short ⊢
        omega
      · exact ⟨List.nil_prefix, Nat.zero_le _⟩

theorem front_fit {room : Nat} {front ps : List Piece} (begins : front <+: ps)
    (fits : widthOf front ≤ room) : front <+: fit room ps := by
  induction front generalizing room ps with
  | nil => exact List.nil_prefix
  | cons p front ih =>
      obtain ⟨later, rfl⟩ := begins
      simp only [widthOf, List.map_cons, List.sum_cons] at fits
      rw [List.cons_append, fit, if_pos (by omega)]
      refine List.prefix_cons_inj p |>.mpr (ih (List.prefix_append _ _) ?_)
      simp only [widthOf]
      omega

/-! ## Tokens of a miner key -/

structure IsBody (body : Text) : Prop where
  length : body.length = 32
  alnum : ∀ c ∈ body, isAlnum c = true

def keyOf (body : Text) : Text := text "FEM-" ++ body

structure KeyToken (t : Text) : Prop where
  begins : t.take 4 = text "FEM-" ∨ t.take 4 = text "IOT-"
  long : 12 ≤ t.length
  alnum : ∀ c ∈ t.drop 4, isAlnum c = true

theorem hasKeyPrefix_iff {s : Text} :
    hasKeyPrefix s = true ↔ s.take 4 = text "FEM-" ∨ s.take 4 = text "IOT-" := by
  rw [hasKeyPrefix, Bool.or_eq_true, List.isPrefixOf_iff_prefix, List.isPrefixOf_iff_prefix,
    List.prefix_iff_eq_take, List.prefix_iff_eq_take, eq_comm, @eq_comm _ (text "IOT-")]
  rfl

theorem length_keyOf {body : Text} (key : IsBody body) : (keyOf body).length = 36 := by
  rw [keyOf, List.length_append, key.length]
  rfl

theorem IsBody.token {body : Text} (key : IsBody body) : KeyToken (keyOf body) := by
  refine ⟨.inl rfl, ?_, key.alnum⟩
  rw [length_keyOf key]
  decide

theorem tokenLen_token {body s : Text} (key : IsBody body) (found : tokenLen (keyOf body) s ≠ 0) :
    KeyToken (s.take (tokenLen (keyOf body) s)) ∧ tokenLen (keyOf body) s ≤ s.length := by
  unfold tokenLen at found ⊢
  split
  · next own =>
    rw [Bool.and_eq_true, List.isPrefixOf_iff_prefix] at own
    rw [← List.prefix_iff_eq_take.mp own.2]
    exact ⟨key.token, own.2.length_le⟩
  · next other =>
    rw [if_neg other] at found
    split
    · next shape =>
      rw [Bool.and_eq_true, hasKeyPrefix_iff, decide_eq_true_eq] at shape
      have run := List.takeWhile_prefix isAlnum (l := s.drop 4)
      have short := run.length_le
      rw [List.length_drop] at short
      have inside : 4 + alnumRun (s.drop 4) ≤ s.length := by
        have eight := shape.2
        unfold alnumRun at eight ⊢
        omega
      refine ⟨⟨?_, ?_, ?_⟩, inside⟩
      · rw [List.take_take, Nat.min_eq_left (by omega)]
        exact shape.1
      · rw [List.length_take]
        omega
      · intro c member
        rw [List.drop_take, Nat.add_sub_cancel_left, alnumRun, ← List.prefix_iff_eq_take.mp run] at member
        exact List.mem_takeWhile_imp member
    · next none_found => exact absurd (if_neg none_found) found

theorem tokenLen_key {body s : Text} (key : IsBody body) (begins : keyOf body <+: s) :
    tokenLen (keyOf body) s = 36 := by
  rw [tokenLen, if_pos, length_keyOf key]
  rw [Bool.and_eq_true, List.isPrefixOf_iff_prefix, length_keyOf key]
  exact ⟨by decide, begins⟩

/-! ## Division into pieces -/

theorem source_pieces (key : Text) (s : Text) : (pieces key s).flatMap Piece.source = s := by
  induction s using pieces.induct key with
  | case1 => simp [pieces]
  | case2 c rest plain ih => rw [pieces, if_pos plain, List.flatMap_cons, ih]; rfl
  | case3 c rest found ih =>
      rw [pieces, if_neg found, List.flatMap_cons, ih]
      exact List.take_append_drop _ _

theorem source_raw (letters : Text) : (letters.map Piece.raw).flatMap Piece.source = letters := by
  induction letters with
  | nil => rfl
  | cons c letters ih => rw [List.map_cons, List.flatMap_cons, ih]; rfl

theorem token_pieces {body s : Text} (key : IsBody body) :
    ∀ t, .token t ∈ pieces (keyOf body) s → KeyToken t := by
  induction s using pieces.induct (keyOf body) with
  | case1 => simp [pieces]
  | case2 c rest plain ih =>
      intro t member
      rw [pieces, if_pos plain] at member
      exact ih t (by simpa using member)
  | case3 c rest found ih =>
      intro t member
      rw [pieces, if_neg found] at member
      rcases List.mem_cons.mp member with same | later
      · cases same
        exact (tokenLen_token key found).1
      · exact ih t later

/-- What follows some pieces is divided as a text of its own. -/
theorem pieces_behind {key s : Text} {front back : List Piece} (divided : pieces key s = front ++ back) :
    pieces key (back.flatMap Piece.source) = back := by
  induction front generalizing s with
  | nil =>
      rw [List.nil_append] at divided
      rw [← divided, source_pieces]
  | cons p front ih =>
      cases s with
      | nil => simp [pieces] at divided
      | cons c rest =>
          rw [pieces] at divided
          split at divided
          · exact ih (List.cons.inj divided).2
          · exact ih (List.cons.inj divided).2

/-! ## What reaches the log -/

theorem plainChar_alnum : ∀ c : UInt8, (isAlnum c = true → plainChar c = c) ∧
    (isAlnum (plainChar c) = true → plainChar c = c) ∧
    (isAlnum c = true → (0x21 ≤ c && c ≤ 0x7E) = true) :=
  forall_byte (by decide +kernel)

theorem KeyToken.tail {t : Text} (token : KeyToken t) :
    ∀ c ∈ t.drop (t.length - 4), isAlnum c = true := by
  intro c member
  have long := token.long
  have later : t.drop (t.length - 4) = (t.drop 4).drop (t.length - 8) := by
    rw [List.drop_drop]
    congr 1
    omega
  rw [later] at member
  exact token.alnum c (List.mem_of_mem_drop member)

theorem KeyToken.length_shown {t : Text} (token : KeyToken t) : (Piece.token t).shown.length = 11 := by
  have long := token.long
  simp only [Piece.shown, ellipsis, List.length_append, List.length_take, List.length_drop,
    List.length_cons, List.length_nil]
  omega

/-- The mask of a long value in a buffer of twelve bytes. -/
theorem maskMinerKeyLast4_long {key : Text} (long : 12 ≤ key.length) :
    maskMinerKeyLast4 key 12 = (if hasKeyPrefix key then key.take 4 else []) ++ ellipsis ++
      (key.drop (key.length - 4)).map fun c => if 0x21 ≤ c && c ≤ 0x7E then c else 63 := by
  have given : ¬ key = [] := by
    rintro rfl
    exact absurd long (by decide)
  have room : ¬ 12 < (if hasKeyPrefix key then 4 else 0) + 3 + 4 + 1 := by
    split <;> decide
  rw [maskMinerKeyLast4, if_neg (by simpa using given)]
  simp only [ge_iff_le, long, decide_true, Bool.true_and, if_true, if_neg room]

/-- The stand-in masks as the token does: the mask shows a token's length class, its first
four characters and its last four. -/
theorem maskTokenLast4_standIn (src : Text) : maskTokenLast4 src = maskMinerKeyLast4 src 12 := by
  by_cases short : src.length ≤ 11
  · rw [maskTokenLast4, if_pos short]
  have four : (text "xxxx").length = 4 := by decide
  have first : (src.take 4 ++ text "xxxx" ++ src.drop (src.length - 4)).take 4 = src.take 4 := by
    rw [List.append_assoc, List.take_append_of_le_length (by rw [List.length_take]; omega), List.take_take]
    rfl
  have length : (src.take 4 ++ text "xxxx" ++ src.drop (src.length - 4)).length = 12 := by
    simp only [List.length_append, List.length_take, List.length_drop, four]
    omega
  have last : (src.take 4 ++ text "xxxx" ++ src.drop (src.length - 4)).drop 8 = src.drop (src.length - 4) := by
    have eight : (src.take 4 ++ text "xxxx").length = 8 := by
      simp only [List.length_append, List.length_take, four]
      omega
    rw [← eight, List.drop_left]
  have shape : hasKeyPrefix (src.take 4 ++ text "xxxx" ++ src.drop (src.length - 4)) = hasKeyPrefix src := by
    rw [Bool.eq_iff_iff, hasKeyPrefix_iff, hasKeyPrefix_iff, first]
  rw [maskTokenLast4, if_neg short, maskMinerKeyLast4_long (Nat.le_of_eq length.symm),
    maskMinerKeyLast4_long (Nat.lt_of_not_le short), length, shape, first, last]

theorem KeyToken.mask {t : Text} (token : KeyToken t) : maskTokenLast4 t = (Piece.token t).shown := by
  have long := token.long
  have graphic : (t.drop (t.length - 4)).map (fun c => if 0x21 ≤ c && c ≤ 0x7E then c else 63) =
      t.drop (t.length - 4) := by
    refine (List.map_congr_left fun c member => ?_).trans (List.map_id _)
    exact if_pos ((plainChar_alnum c).2.2 (token.tail c member))
  have shape := hasKeyPrefix_iff.mpr token.begins
  rw [maskTokenLast4_standIn, maskMinerKeyLast4_long long, if_pos shape, graphic]
  rfl

theorem width_shown {p : Piece} (token : ∀ t, p = .token t → KeyToken t) : p.shown.length = p.width := by
  cases p with
  | raw c => rfl
  | token t => exact (token t rfl).length_shown

theorem length_shown {ps : List Piece} (tokens : ∀ t, .token t ∈ ps → KeyToken t) :
    (ps.flatMap Piece.shown).length = widthOf ps := by
  induction ps with
  | nil => rfl
  | cons p ps ih =>
      rw [List.flatMap_cons, List.length_append, ih fun t member => tokens t (List.mem_cons_of_mem _ member),
        width_shown fun t same => tokens t (same ▸ List.mem_cons_self)]
      rfl

/-- The loop writes the pieces for which there is room. -/
theorem detailLoop_eq {body s out : Text} {cap fuel : Nat} (key : IsBody body) (enough : s.length ≤ fuel)
    (short : out.length ≤ cap) : detailLoop (keyOf body) cap true fuel s out =
      out ++ (fit (cap - out.length) (pieces (keyOf body) s)).flatMap Piece.shown := by
  induction fuel generalizing s out with
  | zero =>
      obtain rfl := List.length_eq_zero_iff.mp (Nat.le_zero.mp enough)
      simp [detailLoop, pieces, fit]
  | succ fuel ih =>
      cases s with
      | nil => simp [detailLoop, pieces, fit]
      | cons c rest =>
          rw [List.length_cons] at enough
          rw [detailLoop, pieces]
          by_cases plain : tokenLen (keyOf body) (c :: rest) = 0
          · by_cases room : out.length < cap
            · rw [if_pos room, plain, if_pos rfl, fit, if_pos (show Piece.width (.raw c) ≤ _ by
                change 1 ≤ cap - out.length; omega)]
              have later := @ih rest (out ++ [plainChar c]) (by omega)
                (by rw [List.length_append, List.length_singleton]; omega)
              rw [List.length_append, List.length_singleton] at later
              simpa [Piece.width, Piece.shown, Nat.sub_sub] using later
            · rw [if_neg room, if_pos plain, fit, if_neg (show ¬ Piece.width (.raw c) ≤ _ by
                change ¬ 1 ≤ cap - out.length; omega)]
              simp
          · obtain ⟨token, inside⟩ := tokenLen_token key plain
            have mask := token.mask
            have eleven := token.length_shown
            rw [if_neg plain]
            generalize tokenLen (keyOf body) (c :: rest) = len at *
            have smaller : ((c :: rest).drop len).length ≤ fuel := by
              rw [List.length_drop, List.length_cons]
              omega
            by_cases room : 11 ≤ cap - out.length
            · rw [if_pos (by omega), fit, if_pos (show Piece.width (.token _) ≤ _ from room)]
              have later := @ih _ (out ++ (Piece.token ((c :: rest).take len)).shown) smaller
                (by rw [List.length_append, eleven]; omega)
              rw [List.length_append, eleven] at later
              have fits : ¬ cap < out.length + 11 := by omega
              simpa [plain, mask, eleven, fits, Piece.width, Nat.sub_sub] using later
            · rw [fit, if_neg (show ¬ Piece.width (.token _) ≤ _ from room)]
              have full : cap < out.length + 11 := by omega
              simp [plain, mask, eleven, full]

theorem sanitize_eq {body s : Text} (key : IsBody body) (outCap : Nat) :
    sanitizeServerDetailLast4 (some s) (some (keyOf body)) outCap =
      (fit (min 120 (outCap - 1)) (pieces (keyOf body) s)).flatMap Piece.shown := by
  unfold sanitizeServerDetailLast4 sanitizeDetail
  split
  · next none_left =>
    subst none_left
    have empty : fit (min 120 (0 - 1)) (pieces (keyOf body) s) = [] := by
      rw [show min 120 (0 - 1) = 0 from rfl]
      cases pieces (keyOf body) s with
      | nil => rfl
      | cons p ps => cases p <;> rfl
    rw [empty]
    rfl
  · have cap : (if outCap - 1 < kMaxDetail then outCap - 1 else kMaxDetail) = min 120 (outCap - 1) := by
      unfold kMaxDetail
      split <;> omega
    simp only [cap, Option.getD_some]
    rw [detailLoop_eq key (Nat.le_refl _) (Nat.zero_le _)]
    rfl

/-! ## Alphanumerics in and out -/

theorem alnum_before {w front rest : Text} {x : UInt8} (alnum : ∀ c ∈ w, isAlnum c = true)
    (other : isAlnum x = false) : w <+: front ++ x :: rest ↔ w <+: front := by
  constructor
  · intro begins
    rcases Nat.lt_or_ge front.length w.length with longer | shorter
    · obtain ⟨back, whole⟩ := begins
      have member : x ∈ w := by
        have place : w[front.length]? = some x := by
          have same := congrArg (fun l : Text => l[front.length]?) whole
          simpa [List.getElem?_append_left longer] using same
        exact List.mem_of_getElem? place
      rw [alnum x member] at other
      cases other
    · exact List.prefix_of_prefix_length_le begins (List.prefix_append _ _) shorter
  · exact fun begins => begins.trans (List.prefix_append _ _)

theorem KeyToken.split {t : Text} (token : KeyToken t) :
    ∃ letters tail, letters ++ 45 :: tail = t ∧ letters ++ 45 :: (ellipsis ++ t.drop (t.length - 4)) =
      (Piece.token t).shown := by
  refine ⟨(t.take 4).take 3, t.drop 4, ?_, ?_⟩
  all_goals
    have letters : t.take 4 = (t.take 4).take 3 ++ [45] := by
      rcases token.begins with fem | iot
      · rw [fem]; rfl
      · rw [iot]; rfl
  · calc (t.take 4).take 3 ++ 45 :: t.drop 4 = ((t.take 4).take 3 ++ [45]) ++ t.drop 4 := by simp
      _ = t := by rw [← letters, List.take_append_drop]
  · calc (t.take 4).take 3 ++ 45 :: (ellipsis ++ t.drop (t.length - 4)) =
        ((t.take 4).take 3 ++ [45]) ++ (ellipsis ++ t.drop (t.length - 4)) := by simp
      _ = _ := by rw [← letters, ← List.append_assoc]; rfl

/-- Alphanumerics at the front of a text are at the front of what is shown of it, and the
other way round. -/
theorem alnum_shown {w : Text} {ps : List Piece} (alnum : ∀ c ∈ w, isAlnum c = true)
    (tokens : ∀ t, .token t ∈ ps → KeyToken t) :
    w <+: ps.flatMap Piece.source ↔ w <+: ps.flatMap Piece.shown := by
  induction ps generalizing w with
  | nil => rfl
  | cons p ps ih =>
      rw [List.flatMap_cons, List.flatMap_cons]
      cases p with
      | raw c =>
          cases w with
          | nil => simp
          | cons d w =>
              have rest := ih (fun e member => alnum e (List.mem_cons_of_mem _ member))
                fun t member => tokens t (List.mem_cons_of_mem _ member)
              have first : d = c ↔ d = plainChar c := by
                have letter := alnum d List.mem_cons_self
                constructor
                · rintro rfl
                  exact ((plainChar_alnum d).1 letter).symm
                · rintro rfl
                  exact (plainChar_alnum c).2.1 letter
              simp only [Piece.source, Piece.shown, List.singleton_append, List.cons_prefix_cons, first, rest]
      | token t =>
          obtain ⟨letters, tail, whole, mask⟩ := (tokens t List.mem_cons_self).split
          rw [← mask, show Piece.source (.token t) = t from rfl, ← whole, List.append_assoc, List.append_assoc,
            List.cons_append, List.cons_append, alnum_before alnum (by decide), alnum_before alnum (by decide)]

/-! ## Tokens that run into the key -/

/-- A token ends inside the first three letters of an occurrence of the key, and there is
room for all that is shown up to the end of this occurrence. -/
def RunsInto (key s : Text) (cap : Nat) : Prop :=
  ∃ front t mid back start, pieces key s = front ++ .token t :: mid ++ back ∧
    start <:+ t ∧ 1 ≤ start.length ∧ start.length ≤ 3 ∧ key <+: start ++ mid.flatMap Piece.source ∧
    widthOf (front ++ .token t :: mid) ≤ cap

/-- Letters that begin no token are pieces of their own. -/
theorem raw_letters {letters w : Text} {ps : List Piece} (tokens : ∀ t, .token t ∈ ps → KeyToken t)
    (plain : ∀ c ∈ letters, c ≠ 70 ∧ c ≠ 73) (begins : letters ++ w <+: ps.flatMap Piece.source) :
    ∃ later, ps = letters.map .raw ++ later ∧ w <+: later.flatMap Piece.source := by
  induction letters generalizing ps with
  | nil => exact ⟨ps, rfl, begins⟩
  | cons c letters ih =>
      cases ps with
      | nil => exact absurd (List.prefix_nil.mp begins) nofun
      | cons p ps =>
          obtain ⟨notF, notI⟩ := plain c List.mem_cons_self
          cases p with
          | raw d =>
              rw [List.flatMap_cons, List.cons_append] at begins
              obtain ⟨rfl, rest⟩ := List.cons_prefix_cons.mp begins
              obtain ⟨later, rfl, w_begins⟩ :=
                ih (fun t member => tokens t (List.mem_cons_of_mem _ member))
                  (fun e member => plain e (List.mem_cons_of_mem _ member)) rest
              exact ⟨later, rfl, w_begins⟩
          | token t =>
              have first := (tokens t List.mem_cons_self).begins
              cases t with
              | nil => exact absurd first (by decide)
              | cons e t =>
                  rw [List.flatMap_cons, List.cons_append] at begins
                  obtain ⟨rfl, -⟩ := List.cons_prefix_cons.mp begins
                  rcases first with fem | iot
                  · exact absurd (List.cons.inj fem).1 notF
                  · exact absurd (List.cons.inj iot).1 notI

/-- Of the letters at the end, those that are no pieces of their own end a token. -/
theorem letters_behind {front : List Piece} {u w : Text} (tokens : ∀ t, .token t ∈ front → w.length ≤ t.length)
    (ends : front.flatMap Piece.source = u ++ w) :
    (∃ f, front = f ++ w.map .raw ∧ f.flatMap Piece.source = u) ∨
    ∃ f t start rest, w = start ++ rest ∧ start ≠ [] ∧ front = f ++ .token t :: rest.map .raw ∧ start <:+ t := by
  induction w using List.reverseRecOn generalizing front with
  | nil => exact .inl ⟨front, by simp, by simpa using ends⟩
  | append_singleton w c ih =>
      rcases front.eq_nil_or_concat' with rfl | ⟨front, p, rfl⟩
      · simp at ends
      · rw [List.flatMap_append, List.flatMap_singleton, ← List.append_assoc] at ends
        cases p with
        | raw d =>
            obtain ⟨before, same⟩ := List.append_inj' ends rfl
            cases same
            have shorter : ∀ t, .token t ∈ front → w.length ≤ t.length := by
              intro t member
              have long := tokens t (List.mem_append_left _ member)
              rw [List.length_append] at long
              omega
            rcases ih shorter before with ⟨f, rfl, flat⟩ | ⟨f, t, start, rest, rfl, filled, rfl, behind⟩
            · exact .inl ⟨f, by simp, flat⟩
            · exact .inr ⟨f, t, start, rest ++ [c], by simp, filled, by simp, behind⟩
        | token t =>
            have long := tokens t (by simp)
            refine .inr ⟨front, t, w ++ [c], [], by simp, by simp, by simp, ?_⟩
            have whole : w ++ [c] <:+ front.flatMap Piece.source ++ t := ⟨u, by rw [← List.append_assoc]; exact ends.symm⟩
            exact List.suffix_of_suffix_length_le whole (List.suffix_append _ _) long

/-! ## The body of the key in the log -/

/-- Every occurrence of the body is inside an occurrence of the whole key. -/
def OnlyInKeys (body s : Text) : Prop :=
  ∀ u v, s = u ++ body ++ v → ∃ u' v', s = u' ++ keyOf body ++ v' ∧ u'.length ≤ u.length ∧
    u.length + body.length ≤ u'.length + (keyOf body).length

/-- Such an occurrence is the end of the key. -/
theorem OnlyInKeys.behind {body s u v : Text} (inside : OnlyInKeys body s) (key : IsBody body)
    (whole : s = u ++ body ++ v) : ∃ u', u = u' ++ text "FEM-" := by
  obtain ⟨u', v', around, first, last⟩ := inside u v whole
  rw [length_keyOf key, key.length] at last
  have hyphen : s[u'.length + 3]? = some 45 := by
    rw [around, List.append_assoc, List.getElem?_append_right (by omega), Nat.add_sub_cancel_left]
    rfl
  have far : u.length = u'.length + 4 := by
    by_contra other
    have letter : body[u'.length + 3 - u.length]? = some 45 := by
      rw [whole, List.append_assoc, List.getElem?_append_right (by omega),
        List.getElem?_append_left (by rw [key.length]; omega)] at hyphen
      exact hyphen
    have alnum := key.alnum 45 (List.mem_of_getElem? letter)
    exact absurd alnum (by decide)
  refine ⟨u', ?_⟩
  have same : u ++ (body ++ v) = (u' ++ text "FEM-") ++ (body ++ v') := by
    rw [← List.append_assoc, ← whole, around, keyOf]
    simp
  exact (List.append_inj same (by rw [List.length_append, far]; rfl)).1

theorem RunsInto.leak {body s : Text} {cap : Nat} (key : IsBody body) (runs : RunsInto (keyOf body) s cap) :
    body <:+: (fit cap (pieces (keyOf body) s)).flatMap Piece.shown := by
  obtain ⟨front, t, mid, back, start, divided, -, some_start, few, begins, room⟩ := runs
  have tokens : ∀ t, .token t ∈ mid → KeyToken t := fun t member =>
    token_pieces key t (by rw [divided]; simp [member])
  have shown : front ++ .token t :: mid <+: fit cap (pieces (keyOf body) s) :=
    front_fit ⟨back, divided.symm⟩ room
  have letters : ∃ rest, (∀ c ∈ rest, c ≠ 70 ∧ c ≠ 73) ∧ rest ++ body <+: mid.flatMap Piece.source := by
    have three : start <+: keyOf body := List.prefix_of_prefix_length_le (List.prefix_append _ _) begins
      (by rw [length_keyOf key]; omega)
    refine ⟨(text "FEM-").drop start.length, fun c member => ?_, ?_⟩
    · have later : (text "FEM-").drop start.length = [69, 77, 45].drop (start.length - 1) := by
        rw [show ([69, 77, 45] : Text) = (text "FEM-").drop 1 by decide, List.drop_drop]
        congr 1
        omega
      rw [later] at member
      have other : ∀ d ∈ ([69, 77, 45] : Text), d ≠ 70 ∧ d ≠ 73 := by decide +kernel
      exact other c (List.mem_of_mem_drop member)
    · obtain ⟨behind, whole⟩ := three
      rw [← whole] at begins
      have same : (text "FEM-").drop start.length ++ body = behind := by
        have cut := congrArg (List.drop start.length) whole
        rw [List.drop_left, keyOf, List.drop_append_of_le_length (by change _ ≤ 4; omega)] at cut
        exact cut.symm
      rw [same]
      exact (List.prefix_append_right_inj start).mp begins
  obtain ⟨rest, plain, behind⟩ := letters
  obtain ⟨later, rfl, in_source⟩ := raw_letters tokens plain behind
  have in_shown := (alnum_shown key.alnum fun t member => tokens t (List.mem_append_right _ member)).mp in_source
  obtain ⟨hidden, whole⟩ := shown
  rw [← whole]
  have inside : body <:+: (later.flatMap Piece.shown) := in_shown.isInfix
  refine inside.trans ⟨(front ++ Piece.token t :: rest.map Piece.raw).flatMap Piece.shown, hidden.flatMap Piece.shown, ?_⟩
  simp [List.flatMap_append, List.append_assoc]

/-- Where a piece shows the beginning of the body, the body stands in the text behind it. -/
theorem body_at {body before start : Text} {p : Piece} {later : List Piece} (key : IsBody body)
    (token : ∀ t, p = .token t → KeyToken t) (tokens : ∀ t, .token t ∈ later → KeyToken t)
    (split : p.shown = before ++ start) (filled : start ≠ [])
    (begins : body <+: start ++ later.flatMap Piece.shown) :
    ∃ front behind, p.source = front ++ behind ∧ body <+: behind ++ later.flatMap Piece.source ∧
      (front = [] ∨ ∃ d, front.getLast? = some d ∧ isAlnum d = true) := by
  have short : start.length ≤ 11 := by
    have whole := width_shown token
    rw [split, List.length_append] at whole
    have eleven : p.width ≤ 11 := by cases p <;> simp [Piece.width]
    omega
  have start_body : start <+: body := List.prefix_of_prefix_length_le (List.prefix_append _ _) begins
    (by rw [key.length]; omega)
  have alnum : ∀ c ∈ start, isAlnum c = true := fun c member => key.alnum c (start_body.subset member)
  obtain ⟨rest, rfl⟩ := start_body
  have rest_begins : rest <+: later.flatMap Piece.source :=
    (alnum_shown (fun c member => key.alnum c (List.mem_append_right _ member)) tokens).mpr
      ((List.prefix_append_right_inj start).mp begins)
  have body_begins := (List.prefix_append_right_inj start).mpr rest_begins
  cases p with
  | raw c =>
      have single : before = [] ∧ start = [plainChar c] := by
        cases before with
        | nil => exact ⟨rfl, split.symm⟩
        | cons d before =>
            have last := (List.cons.inj split).2
            exact absurd (List.append_eq_nil_iff.mp last.symm).2 filled
      obtain ⟨-, rfl⟩ := single
      have same := (plainChar_alnum c).2.1 (alnum _ List.mem_cons_self)
      rw [same] at body_begins
      exact ⟨[], [c], rfl, by rw [same]; exact body_begins, .inl rfl⟩
  | token t =>
      have shape := token t rfl
      obtain ⟨z, last⟩ : ∃ z, t.drop (t.length - 4) = z ++ start := by
        have no_mark : (0xA6 : UInt8) ∉ start := fun member => absurd (alnum _ member) (by decide)
        have cut : (t.take 4 ++ [0xE2, 0x80]) ++ 0xA6 :: t.drop (t.length - 4) = before ++ start := by
          rw [← split]
          simp [Piece.shown, ellipsis]
        rcases List.append_eq_append_iff.mp cut with ⟨z, -, here⟩ | ⟨z, -, here⟩
        · cases z with
          | nil => exact absurd (by rw [← List.nil_append start, ← here]; exact List.mem_cons_self) no_mark
          | cons c z => exact ⟨z, (List.cons.inj here).2⟩
        · exact absurd (by rw [here]; simp) no_mark
      have long := shape.long
      have whole : t = (t.take (t.length - 4) ++ z) ++ start := by
        rw [List.append_assoc, ← last, List.take_append_drop]
      refine ⟨t.take (t.length - 4) ++ z, start, whole, body_begins, .inr ?_⟩
      have front : t.take (t.length - 4) ++ z <+: t := ⟨start, whole.symm⟩
      have eight : 8 ≤ (t.take (t.length - 4) ++ z).length := by
        rw [List.length_append, List.length_take]
        omega
      generalize t.take (t.length - 4) ++ z = f at front eight
      have some_letter : f.drop 4 ≠ [] := by
        intro empty
        have none_left := congrArg List.length empty
        rw [List.length_drop, List.length_nil] at none_left
        omega
      refine ⟨(f.drop 4).getLast some_letter, ?_, ?_⟩
      · rw [← List.getLast?_eq_some_getLast, List.getLast?_drop, if_neg (by omega)]
      · obtain ⟨rest, rfl⟩ := front
        refine shape.alnum _ ?_
        rw [List.drop_append_of_le_length (by omega)]
        exact List.mem_append_left _ (List.getLast_mem some_letter)

theorem runsInto_of_leak {body s : Text} {cap : Nat} (key : IsBody body) (inside : OnlyInKeys body s)
    (leak : body <:+: (fit cap (pieces (keyOf body) s)).flatMap Piece.shown) :
    RunsInto (keyOf body) s cap := by
  obtain ⟨⟨hidden, divided⟩, room⟩ := fit_front cap (pieces (keyOf body) s)
  have tokens : ∀ t, .token t ∈ fit cap (pieces (keyOf body) s) → KeyToken t := fun t member =>
    token_pieces key t (by rw [← divided]; exact List.mem_append_left _ member)
  generalize fit cap (pieces (keyOf body) s) = ps at leak divided room tokens
  have some_letter : body ≠ [] := by
    intro empty
    have length := key.length
    rw [empty] at length
    cases length
  obtain ⟨front, p, later, before, start, rfl, split, filled, begins⟩ := infix_flatMap some_letter leak
  obtain ⟨head, behind, source, at_body, ends⟩ := body_at key (fun t same => tokens t (by simp [same]))
    (fun t member => tokens t (by simp [member])) split filled begins
  obtain ⟨rest, body_here⟩ := at_body
  have text_eq : s = (front.flatMap Piece.source ++ head) ++ body ++
      (rest ++ hidden.flatMap Piece.source) := by
    calc s = (pieces (keyOf body) s).flatMap Piece.source := (source_pieces _ s).symm
      _ = front.flatMap Piece.source ++ head ++ (behind ++ later.flatMap Piece.source) ++
          hidden.flatMap Piece.source := by rw [← divided]; simp [source]
      _ = _ := by rw [← body_here]; simp
  obtain ⟨u', hyphen⟩ := inside.behind key text_eq
  obtain rfl : head = [] := by
    rcases ends with empty | ⟨d, last, letter⟩
    · exact empty
    · have same := congrArg List.getLast? hyphen
      rw [List.getLast?_append, last, List.getLast?_append] at same
      cases same
      exact absurd letter (by decide)
  rw [List.append_nil] at hyphen text_eq
  have long : ∀ t, .token t ∈ front → (text "FEM-").length ≤ t.length := fun t member => by
    have twelve := (tokens t (by simp [member])).long
    change 4 ≤ t.length
    omega
  have key_rest : ∀ r : Text, r ++ body <+: r ++ (p :: later).flatMap Piece.source := fun r => by
    refine (List.prefix_append_right_inj r).mpr ⟨rest, ?_⟩
    rw [List.flatMap_cons, source]
    exact body_here
  rcases letters_behind long hyphen with ⟨f, rfl, -⟩ | ⟨f, t, first, letters, whole, some_first, rfl, ends_token⟩
  · -- with all four letters as pieces of their own, a token would begin at the first of them
    exfalso
    have behind_f := pieces_behind (show pieces (keyOf body) s =
      f ++ ((text "FEM-").map Piece.raw ++ p :: later ++ hidden) by rw [← divided]; simp)
    have flat : ((text "FEM-").map Piece.raw ++ p :: later ++ hidden).flatMap Piece.source =
        70 :: (text "EM-" ++ (p :: later).flatMap Piece.source ++ hidden.flatMap Piece.source) := by
      rw [List.flatMap_append, List.flatMap_append, source_raw]
      rfl
    have begins_key : keyOf body <+: ((text "FEM-").map Piece.raw ++ p :: later ++ hidden).flatMap Piece.source := by
      refine (key_rest (text "FEM-")).trans ⟨hidden.flatMap Piece.source, ?_⟩
      rw [List.flatMap_append, List.flatMap_append, source_raw]
    have found := tokenLen_key key begins_key
    rw [flat] at behind_f found
    rw [pieces, found, if_neg (by decide)] at behind_f
    cases (List.cons.inj behind_f).1
  · refine ⟨f, t, letters.map .raw ++ p :: later, hidden, first, ?_, ends_token, ?_, ?_, ?_, ?_⟩
    · rw [← divided]
      simp
    · exact List.length_pos_of_ne_nil some_first
    · by_contra large
      have four : first.length + letters.length = 4 := by
        rw [← List.length_append, ← whole]
        rfl
      obtain rfl : letters = [] := List.length_eq_zero_iff.mp (by omega)
      rw [List.append_nil] at whole
      subst whole
      have last := List.suffix_iff_eq_drop.mp ends_token
      refine absurd ((tokens t (by simp)).tail 45 ?_) (by decide)
      rw [show t.length - 4 = t.length - (text "FEM-").length from rfl, ← last]
      decide
    · rw [List.flatMap_append, source_raw, ← List.append_assoc, ← whole]
      exact key_rest (text "FEM-")
    · simpa using room

/-! ## Printable text -/

/-- Printable ASCII without double quotes and backslashes, and whole ellipses. -/
inductive LogText : Text → Prop where
  | nil : LogText []
  | char {c : UInt8} {rest : Text} :
      0x20 ≤ c ∧ c ≤ 0x7E ∧ c ≠ 34 ∧ c ≠ 92 → LogText rest → LogText (c :: rest)
  | ellipsis {rest : Text} : LogText rest → LogText (ellipsis ++ rest)

theorem LogText.letters {s rest : Text} (plain : ∀ c ∈ s, 0x20 ≤ c ∧ c ≤ 0x7E ∧ c ≠ 34 ∧ c ≠ 92)
    (later : LogText rest) : LogText (s ++ rest) := by
  induction s with
  | nil => exact later
  | cons c s ih =>
      exact .char (plain c List.mem_cons_self) (ih fun d member => plain d (List.mem_cons_of_mem _ member))

theorem printable : ∀ c : UInt8,
    (0x20 ≤ plainChar c ∧ plainChar c ≤ 0x7E ∧ plainChar c ≠ 34 ∧ plainChar c ≠ 92) ∧
    (isAlnum c = true → 0x20 ≤ c ∧ c ≤ 0x7E ∧ c ≠ 34 ∧ c ≠ 92) :=
  forall_byte (by decide +kernel)

theorem logText_shown {ps : List Piece} (tokens : ∀ t, .token t ∈ ps → KeyToken t) :
    LogText (ps.flatMap Piece.shown) := by
  induction ps with
  | nil => exact .nil
  | cons p ps ih =>
      have later := ih fun t member => tokens t (List.mem_cons_of_mem _ member)
      rw [List.flatMap_cons]
      cases p with
      | raw c => exact .char (printable c).1 later
      | token t =>
          have token := tokens t List.mem_cons_self
          rw [Piece.shown, List.append_assoc, List.append_assoc]
          refine .letters ?_ (.ellipsis (.letters (fun c member => (printable c).2 (token.tail c member)) later))
          rcases token.begins with fem | iot
          · rw [fem]
            decide +kernel
          · rw [iot]
            decide +kernel

/-! ## When the key stays out of the log -/

/-- What the log may say about a server text when the board has this key. -/
structure Hides (body s out : Text) (outCap : Nat) : Prop where
  key : ¬ body <:+: out
  last4 : ∃ ps, ps <+: pieces (keyOf body) s ∧ out = ps.flatMap Piece.shown ∧
    ∀ t, .token t ∈ ps → KeyToken t
  short : out.length ≤ 120
  fits : out.length < outCap ∨ outCap = 0 ∧ out = []
  printed : LogText out

/-- The body of the key stays out of the log exactly if no token runs into the key. -/
theorem hides_iff {body s : Text} (outCap : Nat) (key : IsBody body) (inside : OnlyInKeys body s) :
    Hides body s (sanitizeServerDetailLast4 (some s) (some (keyOf body)) outCap) outCap ↔
      ¬ RunsInto (keyOf body) s (min 120 (outCap - 1)) := by
  have written := sanitize_eq (s := s) key outCap
  constructor
  · intro hides runs
    refine hides.key ?_
    rw [written]
    exact runs.leak key
  · intro free
    obtain ⟨front, room⟩ := fit_front (min 120 (outCap - 1)) (pieces (keyOf body) s)
    have tokens : ∀ t, .token t ∈ fit (min 120 (outCap - 1)) (pieces (keyOf body) s) → KeyToken t :=
      fun t member => token_pieces key t (front.subset member)
    have length := length_shown tokens
    rw [← written] at length
    refine ⟨?_, ⟨_, front, written, tokens⟩, by omega, ?_, ?_⟩
    · rw [written]
      exact fun leak => free (runsInto_of_leak key inside leak)
    · cases outCap with
      | zero => exact .inr ⟨rfl, List.length_eq_zero_iff.mp (by omega)⟩
      | succ n => exact .inl (by omega)
    · rw [written]
      exact logText_shown tokens

/-- Occurrences are found by trying every place. -/
theorem onlyInKeys_of_places {body s : Text} (filled : body ≠ [])
    (places : ∀ i < s.length, (s.drop i).take body.length = body →
      4 ≤ i ∧ (s.drop (i - 4)).take (keyOf body).length = keyOf body) : OnlyInKeys body s := by
  intro u v whole
  have here : (s.drop u.length).take body.length = body := by
    rw [whole, List.append_assoc, List.drop_left, List.take_left]
  have within : u.length < s.length := by
    have positive := List.length_pos_of_ne_nil filled
    rw [whole, List.length_append, List.length_append]
    omega
  obtain ⟨four, found⟩ := places u.length within here
  have length : (keyOf body).length = 4 + body.length := List.length_append
  refine ⟨s.take (u.length - 4), (s.drop (u.length - 4)).drop (keyOf body).length, ?_, ?_, ?_⟩
  · calc s = s.take (u.length - 4) ++ s.drop (u.length - 4) := (List.take_append_drop _ _).symm
      _ = s.take (u.length - 4) ++ ((s.drop (u.length - 4)).take (keyOf body).length ++
          (s.drop (u.length - 4)).drop (keyOf body).length) :=
        congrArg (s.take (u.length - 4) ++ ·) (List.take_append_drop _ _).symm
      _ = _ := by rw [found, List.append_assoc]
  · rw [List.length_take]
    omega
  · rw [List.length_take]
    omega

def exampleBody : Text := text "ABCDEFGHIJKLMNOPQRSTUVWXYZ012345"

theorem exampleBody_body : IsBody exampleBody := ⟨by decide, by decide +kernel⟩

theorem hides_iff_plain :
    Hides exampleBody (text "key FEM-ABCDEFGHIJKLMNOPQRSTUVWXYZ012345 unknown")
        (sanitizeServerDetailLast4 (some (text "key FEM-ABCDEFGHIJKLMNOPQRSTUVWXYZ012345 unknown"))
          (some (keyOf exampleBody)) 128) 128 ↔
      ¬ RunsInto (keyOf exampleBody) (text "key FEM-ABCDEFGHIJKLMNOPQRSTUVWXYZ012345 unknown")
        (min 120 (128 - 1)) :=
  hides_iff 128 exampleBody_body (onlyInKeys_of_places (by decide) (by decide +kernel))

/-- A token that ends in `FEM` takes the prefix of the key behind it, and the body follows in
the clear. -/
theorem key_in_the_log :
    ¬ ∀ (body s : Text) (outCap : Nat), IsBody body → OnlyInKeys body s →
      Hides body s (sanitizeServerDetailLast4 (some s) (some (keyOf body)) outCap) outCap := by
  intro hides
  have hidden := (hides exampleBody (text "IOT-AAAAAAAAFEM-ABCDEFGHIJKLMNOPQRSTUVWXYZ012345") 128
    exampleBody_body (onlyInKeys_of_places (by decide) (by decide +kernel))).key
  exact hidden (by decide +kernel)

end FryFirmware.Identity
