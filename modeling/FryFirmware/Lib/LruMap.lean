import Mathlib.Data.List.Induction
import Mathlib.Logic.Function.Basic
import Mathlib.Tactic.Common

/-!
# Maps that forget

A map whose entries live for a time and may be evicted, seen as the replay of
what was done to it. `Remembered` and `lastUse` read an entry off the events
alone: the last record of a key that nothing evicted since, and its last use.
-/

set_option autoImplicit false

namespace FryFirmware.Lib

variable {κ ν : Type} [DecidableEq κ]

/-- An entry: its value, when it was recorded, for how long, and its last use. -/
structure Memo (ν : Type) where
  value : ν
  stored : Nat
  ttl : Nat
  used : Nat
  deriving DecidableEq, Repr

def Memo.expires (memo : Memo ν) : Nat := memo.stored + memo.ttl

/-- What a call does to the map. A record may evict another key. -/
inductive LruChange (κ ν : Type) where
  | keep
  | touch (key : κ)
  | record (key : κ) (value : ν) (ttl : Nat) (evicted : Option κ)
  deriving DecidableEq, Repr

structure LruEvent (κ ν : Type) where
  moment : Nat
  change : LruChange κ ν
  deriving DecidableEq, Repr

/-- The key has a new entry, or none, after the event. -/
def LruChange.Drops (key : κ) : LruChange κ ν → Prop
  | .keep | .touch _ => False
  | .record recorded _ _ evicted => recorded = key ∨ evicted = some key

instance (key : κ) : (change : LruChange κ ν) → Decidable (change.Drops key)
  | .keep | .touch _ => isFalse id
  | .record _ _ _ _ => inferInstanceAs (Decidable (_ ∨ _))

/-- The event counts as a use of the key. -/
def LruChange.uses (key : κ) : LruChange κ ν → Bool
  | .keep => false
  | .touch touched => touched = key
  | .record recorded _ _ _ => recorded = key

abbrev LruMap (κ ν : Type) := κ → Option (Memo ν)

namespace LruMap

def evict (m : LruMap κ ν) : Option κ → LruMap κ ν
  | none => m
  | some key => Function.update m key none

def apply (m : LruMap κ ν) (event : LruEvent κ ν) : LruMap κ ν :=
  match event.change with
  | .keep => m
  | .touch key => Function.update m key ((m key).map fun memo => { memo with used := event.moment })
  | .record key value ttl evicted =>
      Function.update (m.evict evicted) key
        (some { value, stored := event.moment, ttl, used := event.moment })

/-- The map after the events, from the empty one. -/
def replay (events : List (LruEvent κ ν)) : LruMap κ ν :=
  events.foldl apply fun _ => none

@[simp] theorem replay_nil (key : κ) : replay ([] : List (LruEvent κ ν)) key = none := rfl

theorem replay_append (events : List (LruEvent κ ν)) (event : LruEvent κ ν) :
    replay (events ++ [event]) = (replay events).apply event := by
  simp only [replay, List.foldl_append, List.foldl_cons, List.foldl_nil]

theorem apply_record_same (m : LruMap κ ν) (moment : Nat) (key : κ) (value : ν) (ttl : Nat)
    (evicted : Option κ) :
    m.apply ⟨moment, .record key value ttl evicted⟩ key =
      some { value, stored := moment, ttl, used := moment } :=
  Function.update_self _ _ _

/-- A record of another key changes an entry only by evicting it. -/
theorem apply_record_other {m : LruMap κ ν} {moment ttl : Nat} {key other : κ} {value : ν}
    {evicted : Option κ} (apart : other ≠ key) :
    m.apply ⟨moment, .record key value ttl evicted⟩ other =
      if evicted = some other then none else m other := by
  simp only [apply, Function.update_of_ne apart]
  cases evicted with
  | none => rfl
  | some gone =>
      by_cases same : other = gone
      · subst same
        simp [evict]
      · rw [evict, Function.update_of_ne same, if_neg]
        exact fun equal => same (Option.some.inj equal).symm

theorem apply_touch {m : LruMap κ ν} {moment : Nat} {touched key : κ} :
    m.apply ⟨moment, .touch touched⟩ key =
      (m key).map fun memo => if touched = key then { memo with used := moment } else memo := by
  by_cases same : key = touched
  · subst same
    simp [apply]
  · simp [apply, Function.update_of_ne same, Ne.symm same]

end LruMap

/-! ## What the events remember -/

/-- The last record of the key, with nothing after it that replaced or evicted it. -/
def Remembered (events : List (LruEvent κ ν)) (key : κ) (value : ν) (stored ttl : Nat) : Prop :=
  ∃ before evicted after, events = before ++ ⟨stored, .record key value ttl evicted⟩ :: after ∧
    ∀ event ∈ after, ¬ event.change.Drops key

/-- The moment of the key's last record or touch. -/
def lastUse (events : List (LruEvent κ ν)) (key : κ) : Option Nat :=
  (events.reverse.find? fun event => event.change.uses key).map LruEvent.moment

omit [DecidableEq κ] in
theorem not_remembered_nil {key : κ} {value : ν} {stored ttl : Nat} :
    ¬ Remembered [] key value stored ttl := by
  rintro ⟨before, evicted, after, same, _⟩
  cases before <;> cases same

omit [DecidableEq κ] in
/-- Only the last event decides whether an older record is still remembered. -/
theorem remembered_append {events : List (LruEvent κ ν)} {event : LruEvent κ ν} {key : κ}
    {value : ν} {stored ttl : Nat} :
    Remembered (events ++ [event]) key value stored ttl ↔
      (∃ evicted, event = ⟨stored, .record key value ttl evicted⟩) ∨
        (Remembered events key value stored ttl ∧ ¬ event.change.Drops key) := by
  constructor
  · rintro ⟨before, evicted, after, same, kept⟩
    rcases List.eq_nil_or_concat after with rfl | ⟨middle, last, rfl⟩
    · left
      obtain ⟨_, equal⟩ := List.append_inj' same rfl
      exact ⟨evicted, (List.cons.inj equal).1⟩
    · right
      rw [List.concat_eq_append, ← List.cons_append, ← List.append_assoc] at same
      obtain ⟨front, equal⟩ := List.append_inj' same rfl
      have ends : event = last := (List.cons.inj equal).1
      refine ⟨⟨before, evicted, middle, front, fun other present => ?_⟩, ?_⟩
      · exact kept other (by rw [List.concat_eq_append]; exact List.mem_append_left _ present)
      · rw [ends]
        exact kept last (by rw [List.concat_eq_append]; exact List.mem_append_right _ (.head _))
  · rintro (⟨evicted, rfl⟩ | ⟨⟨before, evicted, after, rfl, kept⟩, stays⟩)
    · exact ⟨events, evicted, [], rfl, fun _ present => absurd present List.not_mem_nil⟩
    · refine ⟨before, evicted, after ++ [event], by simp, fun other present => ?_⟩
      rcases List.mem_append.mp present with old | new
      · exact kept other old
      · rw [List.mem_singleton.mp new]
        exact stays

theorem lastUse_append (events : List (LruEvent κ ν)) (event : LruEvent κ ν) (key : κ) :
    lastUse (events ++ [event]) key =
      if event.change.uses key then some event.moment else lastUse events key := by
  simp only [lastUse, List.reverse_append, List.reverse_cons, List.reverse_nil, List.nil_append,
    List.cons_append, List.find?_cons]
  split
  · next used => simp [used]
  · next unused => simp [unused]

/-- The replayed map holds exactly what is remembered. -/
theorem replay_remembers (events : List (LruEvent κ ν)) (key : κ) (value : ν) (stored ttl : Nat) :
    Remembered events key value stored ttl ↔
      ∃ memo, LruMap.replay events key = some memo ∧
        memo.value = value ∧ memo.stored = stored ∧ memo.ttl = ttl := by
  induction events using List.reverseRecOn with
  | nil => exact iff_of_false not_remembered_nil (by simp)
  | append_singleton events event ih =>
      obtain ⟨moment, change⟩ := event
      rw [remembered_append, ih, LruMap.replay_append]
      cases change with
      | keep => simp [LruMap.apply, LruChange.Drops]
      | touch touched =>
          simp only [LruMap.apply_touch, LruChange.Drops, LruEvent.mk.injEq, reduceCtorEq, and_false,
            exists_false, false_or, not_false_eq_true, and_true, Option.map_eq_some_iff]
          constructor
          · rintro ⟨memo, found, rfl, rfl, rfl⟩
            refine ⟨_, ⟨memo, found, rfl⟩, ?_⟩
            split <;> exact ⟨rfl, rfl, rfl⟩
          · rintro ⟨_, ⟨memo, found, rfl⟩, same⟩
            refine ⟨memo, found, ?_⟩
            split at same <;> exact same
      | record recorded new life evicted =>
          by_cases own : recorded = key
          · subst own
            rw [LruMap.apply_record_same]
            simp only [LruEvent.mk.injEq, LruChange.record.injEq, LruChange.Drops, true_or,
              not_true_eq_false, and_false, or_false, true_and, Option.some.injEq]
            constructor
            · rintro ⟨_, rfl, rfl, rfl, _⟩
              exact ⟨_, rfl, rfl, rfl, rfl⟩
            · rintro ⟨_, rfl, rfl, rfl, rfl⟩
              exact ⟨evicted, rfl, rfl, rfl, rfl⟩
          · rw [LruMap.apply_record_other (Ne.symm own)]
            simp only [LruEvent.mk.injEq, LruChange.record.injEq, own, false_and, and_false,
              exists_false, false_or, LruChange.Drops]
            by_cases gone : evicted = some key
            · simp [gone]
            · simp [gone]

/-- An entry carries the moment of its last use. -/
theorem replay_used {events : List (LruEvent κ ν)} {key : κ} {memo : Memo ν}
    (held : LruMap.replay events key = some memo) : lastUse events key = some memo.used := by
  induction events using List.reverseRecOn generalizing memo with
  | nil => cases held
  | append_singleton events event ih =>
      obtain ⟨moment, change⟩ := event
      rw [LruMap.replay_append] at held
      rw [lastUse_append]
      cases change with
      | keep => exact ih held
      | touch touched =>
          rw [LruMap.apply_touch, Option.map_eq_some_iff] at held
          obtain ⟨old, found, rfl⟩ := held
          by_cases own : touched = key
          · simp [LruChange.uses, own]
          · simp [LruChange.uses, own, ih found]
      | record recorded new life evicted =>
          by_cases own : recorded = key
          · subst own
            rw [LruMap.apply_record_same] at held
            cases held
            simp [LruChange.uses]
          · rw [LruMap.apply_record_other (Ne.symm own)] at held
            split at held
            · cases held
            · simp [LruChange.uses, own, ih held]

end FryFirmware.Lib
