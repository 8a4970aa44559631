import FryFirmware.Identity.OwnerChange
import Mathlib.Data.List.Basic
import Mathlib.Tactic.Common

/-!
# The key a board has been given

What boots, `ensureMinerKey`, owner keys, factory resets and the loss of the stored
key make of the key of a board, in any order. Power may be lost in `ensureMinerKey`
after any number of its writes.
-/

set_option autoImplicit false

namespace FryFirmware.Identity

open Lib Config
open Lib.Program (get put tell)

/-! ## Events -/

/-- `writes`: how many writes of `ensureMinerKey` the power lasts for. -/
inductive Event where
  | boot (freshSalt : Random16) (writes : Nat)
  | ensure (freshSalt : Random16) (writes : Nat)
  | ownerKey (key : Text) (transport : KeyTransport)
  | factoryReset
  | loseKey
  deriving DecidableEq, Repr

def ensureRun (board : Board) (w : World) (freshSalt : Random16) (writes : Nat) :
    Outcome World Action Text :=
  (ensureMinerKey board freshSalt).run Action.apply w (List.replicate writes .done)

/-- The board after `ensureMinerKey`, or after the restart where power is lost in it. -/
def ensured (board : Board) (w : World) (freshSalt : Random16) (writes : Nat) : World :=
  let outcome := ensureRun board w freshSalt writes
  if outcome.value.isSome then outcome.state else restart outcome.state

def Event.step (board : Board) (w : World) : Event → World
  | .boot freshSalt writes => ensured board (restart w) freshSalt writes
  | .ensure freshSalt writes => ensured board w freshSalt writes
  | .ownerKey key transport => ((setOwnerKey board key transport).exec Action.apply w).1
  | .factoryReset => (Identity.factoryReset.exec Action.apply w).1
  | .loseKey => { w with store := { w.store with minerKey := none } }

def afterEvents (board : Board) (w : World) (events : List Event) : World :=
  events.foldl (Event.step board) w

/-- `ensureMinerKey` begins to store a key of the board's own where none is stored. -/
def Gives (outcome : Outcome World Action Text) (key : Text) : Prop :=
  ∃ step ∈ outcome.steps, step.action = .setMinerKey .board key ∧ step.before.store.getMinerKey = []

/-- The board derives this key from its salt. -/
def Event.Derives (board : Board) (w : World) (key : Text) : Event → Prop
  | .boot freshSalt writes => Gives (ensureRun board (restart w) freshSalt writes) key
  | .ensure freshSalt writes => Gives (ensureRun board w freshSalt writes) key
  | _ => False

/-- The events that run `ensureMinerKey`. -/
def Event.Ensures : Event → Prop
  | .boot _ _ => True
  | .ensure _ _ => True
  | _ => False

def Event.offered : Event → Option Text
  | .ownerKey key _ => some key
  | _ => none

/-! ## What is said of the key -/

/-- The stored key is as it was, or its 32 hex digits have moved to the other namespace. -/
def SameIdentity (key key' : Text) : Prop :=
  key' = key ∨ ∃ hex : Text, hex.length = 32 ∧ (∀ c ∈ hex, isHexAnyCase c = true) ∧
    key = text "IOT-" ++ hex ∧ key' = text "FEM-" ++ hex

/-- Whatever follows, the board derives no key, and what it stores is this key or one
that its owner offers later. -/
def OwnerOnly (board : Board) (key : Text) (w : World) : Prop :=
  ∀ later, (∀ event : Event, ∀ derived, ¬ event.Derives board (afterEvents board w later) derived) ∧
    ((afterEvents board w later).store.minerKey = none ∨
      ∃ stored ∈ key :: later.filterMap Event.offered,
        (afterEvents board w later).store.minerKey = some stored)

/-- A board in this state derives a key once none is stored. -/
def MayDerive (board : Board) (s : Store) : Prop :=
  board.model = .deviceKeeps ∨ (s.getSalt.isSome ∧ s.getKeySrc ≠ text "user")

instance (board : Board) (s : Store) : Decidable (MayDerive board s) :=
  inferInstanceAs (Decidable (_ ∨ _))

/-! ## What `ensureMinerKey` does -/

theorem legacy_nonempty {key : Text} (legacy : isLegacyMinerKey key = true) : key ≠ [] := by
  intro empty
  subst empty
  exact absurd legacy (by decide)

theorem getMinerKey_some {s : Store} (stored : s.getMinerKey ≠ []) :
    s.minerKey = some s.getMinerKey := by
  cases key : s.minerKey with
  | none => exact absurd (by simp [Store.getMinerKey, key]) stored
  | some value => simp [Store.getMinerKey, key]

theorem ensureRun_keeps (board : Board) {w : World} (freshSalt : Random16) (writes : Nat)
    (stored : w.store.getMinerKey ≠ []) (plain : isLegacyMinerKey w.store.getMinerKey = false) :
    ensureRun board w freshSalt writes = ⟨w, some w.store.getMinerKey, []⟩ := by
  have present : w.store.minerKey.isSome = true := by rw [getMinerKey_some stored]; rfl
  unfold ensureRun ensureMinerKey
  rw [run_get_bind]
  simp only [decideBootKey, present, stored, plain, ne_eq, not_false_eq_true, and_self, if_true,
    if_false, Bool.false_eq_true, reduceCtorEq, or_self]
  rfl

/-- A legacy key is moved by one write. -/
theorem ensureRun_migrates (board : Board) {w : World} (freshSalt : Random16) (writes : Nat)
    (legacy : isLegacyMinerKey w.store.getMinerKey = true) :
    ∃ migrated value ending, migrated = text "FEM-" ++ w.store.getMinerKey.drop 4 ∧
      ensureRun board w freshSalt writes =
        ⟨if writes = 0 then w else (Action.setMinerKey .board migrated).apply w, value,
          [⟨w, .setMinerKey .board migrated, ending⟩]⟩ := by
  have stored := legacy_nonempty legacy
  have present : w.store.minerKey.isSome = true := by rw [getMinerKey_some stored]; rfl
  have runs : ensureRun board w freshSalt writes =
      (do
        let _ ← storeKey .board (text "FEM-" ++ w.store.getMinerKey.drop 4) 2
        pure (text "FEM-" ++ w.store.getMinerKey.drop 4) : Prog Text).run Action.apply w
          (List.replicate writes .done) := by
    unfold ensureRun ensureMinerKey
    rw [run_get_bind]
    simp only [decideBootKey, migrateLegacyMinerKey, present, stored, legacy, ne_eq,
      not_false_eq_true, and_self, if_true, if_false, reduceCtorEq, or_self]
  cases writes with
  | zero => exact ⟨_, none, .cut, rfl, runs⟩
  | succ writes =>
      rw [List.replicate_succ, storeKey_run] at runs
      exact ⟨_, some _, .took, rfl, runs⟩

theorem ensureRun_waits (board : Board) {w : World} (freshSalt : Random16) (writes : Nat)
    (empty : w.store.getMinerKey = []) (without : ¬ MayDerive board w.store) :
    ensureRun board w freshSalt writes = ⟨w, some [], []⟩ := by
  obtain ⟨supplied, guarded⟩ := not_or.mp without
  unfold ensureRun ensureMinerKey
  rw [run_get_bind]
  have waits : decideBootKeySalted board.model w.store.minerKey.isSome [] w.store.getSalt.isSome
      (w.store.getKeySrc = text "user") = .wait := by
    simp only [decideBootKeySalted, decideBootKey, supplied, ne_eq, not_true_eq_false, and_false,
      if_false, reduceCtorEq, or_false, true_and]
    refine if_neg fun both => guarded ⟨both.1, ?_⟩
    simpa using both.2
  simp only [empty, decideBootKey, supplied, ne_eq, not_true_eq_false, and_false, if_false,
    reduceCtorEq, or_false, if_true, waits]
  rfl

/-- The branch that mints a key or derives it again. -/
def deriveKey (keyOf : List UInt8 → Text) (freshSalt : Random16) : Option (List UInt8) → Prog Text
  | some salt => do
      let _ ← put (.setMinerKey .board (keyOf salt))
      pure (keyOf salt)
  | none => do
      let _ ← put (.setSalt freshSalt.val)
      let _ ← put (.setMinerKey .board (keyOf freshSalt.val))
      pure (keyOf freshSalt.val)

theorem decideBootKeySalted_derives {board : Board} {s : Store} (may : MayDerive board s) :
    decideBootKeySalted board.model s.minerKey.isSome [] s.getSalt.isSome
        (s.getKeySrc = text "user") = .mint ∨
      decideBootKeySalted board.model s.minerKey.isSome [] s.getSalt.isSome
        (s.getKeySrc = text "user") = .recover := by
  unfold decideBootKeySalted decideBootKey
  rw [if_neg (show ¬ (s.minerKey.isSome = true ∧ ([] : Text) ≠ []) from fun both => both.2 rfl)]
  obtain keeps | ⟨salted, unwritten⟩ := may
  · rw [if_pos keeps]
    dsimp only
    split
    · exact Or.inr rfl
    · exact Or.inl rfl
  · have waits : (if board.model = .deviceKeeps then BootKeyAction.mint else .wait) = .wait ∨
        (if board.model = .deviceKeeps then BootKeyAction.mint else .wait) = .mint := by
      split
      · exact Or.inr rfl
      · exact Or.inl rfl
    exact Or.inr (if_pos ⟨waits, salted, by simpa using unwritten⟩)

theorem ensureRun_derives (board : Board) {w : World} (freshSalt : Random16) (writes : Nat)
    (empty : w.store.getMinerKey = []) (may : MayDerive board w.store) :
    ensureRun board w freshSalt writes =
      (deriveKey (computeMinerKey board.mac6) freshSalt w.store.getSalt).run Action.apply w
        (List.replicate writes .done) := by
  have asks : decideBootKey board.model w.store.minerKey.isSome [] = .wait ∨
      decideBootKey board.model w.store.minerKey.isSome [] = .mint := by
    unfold decideBootKey
    rw [if_neg fun both => both.2 rfl]
    split
    · exact Or.inr rfl
    · exact Or.inl rfl
  unfold ensureRun ensureMinerKey
  rw [run_get_bind]
  simp only [empty, asks, if_true]
  obtain minted | recovered := decideBootKeySalted_derives may
  · rw [minted]
    cases w.store.getSalt <;> rfl
  · rw [recovered]
    cases w.store.getSalt <;> rfl

/-! ## What an event does -/

theorem store_ensured (board : Board) (w : World) (freshSalt : Random16) (writes : Nat) :
    (ensured board w freshSalt writes).store = (ensureRun board w freshSalt writes).state.store := by
  unfold ensured
  dsimp only
  split
  · rfl
  · rfl

/-- Boots and calls run `ensureMinerKey` on the same store. -/
theorem Event.Ensures.run (board : Board) {event : Event} (ensures : event.Ensures) (w : World) :
    ∃ w' freshSalt writes, w'.store = w.store ∧
      (event.step board w).store = (ensureRun board w' freshSalt writes).state.store ∧
      ∀ key, event.Derives board w key ↔ Gives (ensureRun board w' freshSalt writes) key := by
  cases event with
  | boot freshSalt writes =>
      exact ⟨restart w, freshSalt, writes, rfl, store_ensured board _ _ _, fun _ => Iff.rfl⟩
  | ensure freshSalt writes =>
      exact ⟨w, freshSalt, writes, rfl, store_ensured board _ _ _, fun _ => Iff.rfl⟩
  | _ => exact absurd ensures id

theorem Event.Derives.ensures {board : Board} {w : World} {key : Text} {event : Event}
    (derives : event.Derives board w key) : event.Ensures := by
  cases event with
  | boot freshSalt writes => trivial
  | ensure freshSalt writes => trivial
  | _ => exact derives

theorem ensureRun_identity (board : Board) {w : World} (freshSalt : Random16) (writes : Nat)
    (stored : w.store.getMinerKey ≠ []) :
    SameIdentity w.store.getMinerKey
      (ensureRun board w freshSalt writes).state.store.getMinerKey := by
  cases legacy : isLegacyMinerKey w.store.getMinerKey with
  | false =>
      rw [ensureRun_keeps board freshSalt writes stored legacy]
      exact Or.inl rfl
  | true =>
      obtain ⟨migrated, value, ending, same, runs⟩ := ensureRun_migrates board freshSalt writes legacy
      rw [runs]
      dsimp only
      split
      · exact Or.inl rfl
      · unfold isLegacyMinerKey hasKeyShape at legacy
        rw [Bool.and_eq_true, Bool.and_eq_true, decide_eq_true_eq, beq_iff_eq,
          List.all_eq_true] at legacy
        obtain ⟨⟨size, front⟩, digits⟩ := legacy
        refine Or.inr ⟨w.store.getMinerKey.drop 4, ?_, digits, ?_, same⟩
        · rw [List.length_drop, size]
        · rw [← front, List.take_append_drop]

/-- A stored salt is used and never replaced. -/
theorem ensureRun_salt (board : Board) {w : World} (freshSalt : Random16) (writes : Nat)
    {salt : List UInt8} (salted : w.store.getSalt = some salt) :
    (ensureRun board w freshSalt writes).state.store.getSalt = some salt := by
  by_cases empty : w.store.getMinerKey = []
  · by_cases may : MayDerive board w.store
    · rw [ensureRun_derives board freshSalt writes empty may, salted]
      cases writes with
      | zero => exact salted
      | succ writes => exact salted
    · rw [ensureRun_waits board freshSalt writes empty may]
      exact salted
  · cases legacy : isLegacyMinerKey w.store.getMinerKey with
    | false =>
        rw [ensureRun_keeps board freshSalt writes empty legacy]
        exact salted
    | true =>
        obtain ⟨migrated, value, ending, _, runs⟩ := ensureRun_migrates board freshSalt writes legacy
        rw [runs]
        dsimp only
        split
        · exact salted
        · exact salted

theorem getSalt_setSalt (freshSalt : Random16) (w : World) :
    ((Action.setSalt freshSalt.val).apply w).store.getSalt = some freshSalt.val :=
  Option.filter_eq_some_iff.mpr ⟨rfl, decide_eq_true freshSalt.property⟩

/-- A run whose last step begins to store this key, and no step before it any. -/
theorem gives_last {outcome : Outcome World Action Text} {front : List (Step World Action)}
    {last : Step World Action} {given : Text} (steps : outcome.steps = front ++ [last])
    (action : last.action = .setMinerKey .board given) (without : last.before.store.getMinerKey = [])
    (salts : ∀ step ∈ front, ∃ salt, step.action = .setSalt salt) (key : Text) :
    Gives outcome key ↔ key = given := by
  unfold Gives
  rw [steps]
  constructor
  · rintro ⟨step, member, stores, _⟩
    obtain before | here := List.mem_append.mp member
    · obtain ⟨salt, other⟩ := salts step before
      rw [other] at stores
      cases stores
    · obtain rfl := List.mem_singleton.mp here
      rw [action] at stores
      cases stores
      rfl
  · intro same
    subst same
    exact ⟨last, List.mem_append_right _ List.mem_cons_self, action, without⟩

theorem deriveKey_gives (keyOf : List UInt8 → Text) (w : World) (freshSalt : Random16)
    (writes : Nat) (key : Text) (empty : w.store.getMinerKey = []) :
    Gives ((deriveKey keyOf freshSalt w.store.getSalt).run Action.apply w
        (List.replicate writes .done)) key ↔
      ∃ salt, ((deriveKey keyOf freshSalt w.store.getSalt).run Action.apply w
        (List.replicate writes .done)).state.store.getSalt = some salt ∧ key = keyOf salt := by
  have unique {given : List UInt8} {stored : Option (List UInt8)} (same : stored = some given) :
      key = keyOf given ↔ ∃ salt, stored = some salt ∧ key = keyOf salt := by
    subst same
    simp
  have nothing : ∀ step ∈ ([] : List (Step World Action)), ∃ salt, step.action = .setSalt salt :=
    fun _ member => absurd member List.not_mem_nil
  cases salted : w.store.getSalt with
  | some salt =>
      cases writes with
      | zero => exact (gives_last (List.nil_append _).symm rfl empty nothing key).trans (unique salted)
      | succ writes =>
          exact (gives_last (List.nil_append _).symm rfl empty nothing key).trans (unique salted)
  | none =>
      have fresh := getSalt_setSalt freshSalt w
      have salts : ∀ step ∈ [(⟨w, .setSalt freshSalt.val, .took⟩ : Step World Action)],
          ∃ salt, step.action = .setSalt salt := by
        intro step member
        obtain rfl := List.mem_singleton.mp member
        exact ⟨_, rfl⟩
      obtain _ | _ | writes := writes
      · constructor
        · rintro ⟨step, member, stores, _⟩
          obtain rfl := List.mem_singleton.mp member
          cases stores
        · intro ⟨salt, stored, _⟩
          exact absurd (salted.symm.trans stored) nofun
      · exact (gives_last (List.singleton_append).symm rfl empty salts key).trans (unique fresh)
      · exact (gives_last (List.singleton_append).symm rfl empty salts key).trans (unique fresh)

/-- The key that is given comes from the salt that is stored with it. -/
theorem gives_iff (board : Board) (w : World) (freshSalt : Random16) (writes : Nat) (key : Text) :
    Gives (ensureRun board w freshSalt writes) key ↔
      w.store.getMinerKey = [] ∧ MayDerive board w.store ∧
        ∃ salt, (ensureRun board w freshSalt writes).state.store.getSalt = some salt ∧
          key = computeMinerKey board.mac6 salt := by
  by_cases empty : w.store.getMinerKey = []
  · by_cases may : MayDerive board w.store
    · rw [ensureRun_derives board freshSalt writes empty may]
      refine (deriveKey_gives _ w freshSalt writes key empty).trans ?_
      exact ⟨fun given => ⟨empty, may, given⟩, fun all => all.2.2⟩
    · rw [ensureRun_waits board freshSalt writes empty may]
      constructor
      · rintro ⟨step, member, _⟩
        cases member
      · intro ⟨_, derives, _⟩
        exact absurd derives may
  · constructor
    · rintro ⟨step, member, _, without⟩
      cases legacy : isLegacyMinerKey w.store.getMinerKey with
      | false =>
          rw [ensureRun_keeps board freshSalt writes empty legacy] at member
          cases member
      | true =>
          obtain ⟨migrated, value, ending, _, runs⟩ := ensureRun_migrates board freshSalt writes legacy
          rw [runs] at member
          obtain rfl := List.mem_singleton.mp member
          exact absurd without empty
    · intro ⟨nothing, _⟩
      exact absurd nothing empty

theorem factoryReset_exec (w : World) :
    (factoryReset.exec Action.apply w).1.store.minerKey = w.store.minerKey ∧
      (factoryReset.exec Action.apply w).1.store.salt = w.store.salt ∧
      (factoryReset.exec Action.apply w).1.store.keySrc = w.store.keySrc :=
  ⟨rfl, rfl, rfl⟩

theorem getSalt_congr {s s' : Store} (same : s'.salt = s.salt) : s'.getSalt = s.getSalt := by
  unfold Store.getSalt
  rw [same]

theorem step_salt (board : Board) (event : Event) {w : World} {salt : List UInt8}
    (salted : w.store.getSalt = some salt) :
    (event.step board w).store.getSalt = some salt := by
  have ensuring (ensures : event.Ensures) : (event.step board w).store.getSalt = some salt := by
    obtain ⟨w', freshSalt, writes, same, store, _⟩ := ensures.run board w
    rw [store]
    exact ensureRun_salt board freshSalt writes (same ▸ salted)
  cases event with
  | boot freshSalt writes => exact ensuring trivial
  | ensure freshSalt writes => exact ensuring trivial
  | ownerKey key transport =>
      show ((setOwnerKey board key transport).exec Action.apply w).1.store.getSalt = some salt
      obtain same | ⟨_, _, _, same, _⟩ := setOwnerKey_cases board w key transport
      · rw [same]
        exact salted
      · exact (getSalt_congr same).trans salted
  | factoryReset => exact (getSalt_congr (factoryReset_exec w).2.1).trans salted
  | loseKey => exact salted

theorem afterEvents_salt (board : Board) (events : List Event) {w : World} {salt : List UInt8}
    (salted : w.store.getSalt = some salt) :
    (afterEvents board w events).store.getSalt = some salt := by
  induction events generalizing w with
  | nil => exact salted
  | cons event rest ih => exact ih (step_salt board event salted)

/-- The salt of a derived key is stored from there on. -/
theorem Event.Derives.salt {board : Board} {w : World} {key : Text} {event : Event}
    (derives : event.Derives board w key) :
    ∃ salt, (event.step board w).store.getSalt = some salt ∧
      key = computeMinerKey board.mac6 salt := by
  obtain ⟨w', freshSalt, writes, _, store, given⟩ := derives.ensures.run board w
  obtain ⟨_, _, salt, salted, same⟩ := (gives_iff board w' freshSalt writes key).mp ((given key).mp derives)
  exact ⟨salt, store ▸ salted, same⟩

theorem derives_once {board : Board} {w : World} {key key' : Text} {event event' : Event}
    {later : List Event} (derives : event.Derives board w key)
    (again : event'.Derives board (afterEvents board (event.step board w) later) key') :
    key' = key := by
  obtain ⟨salt, salted, same⟩ := derives.salt
  obtain ⟨salt', salted', same'⟩ := again.salt
  have kept := step_salt board event' (afterEvents_salt board later salted)
  obtain rfl := Option.some.inj (kept.symm.trans salted')
  exact same'.trans same.symm

/-! ## The owner's key -/

/-- The board derives no key, and what is stored is one of these, which its owner offered. -/
structure OwnersKey (board : Board) (keys : List Text) (w : World) : Prop where
  guarded : ¬ MayDerive board w.store
  stored : w.store.minerKey = none ∨
    ∃ key ∈ keys, isAcceptableOwnerKey key = true ∧ w.store.minerKey = some key

theorem mayDerive_congr {board : Board} {s s' : Store} (salt : s'.salt = s.salt)
    (keySrc : s'.keySrc = s.keySrc) : MayDerive board s' ↔ MayDerive board s := by
  unfold MayDerive Store.getKeySrc
  rw [getSalt_congr salt, keySrc]

theorem OwnersKey.congr {board : Board} {keys : List Text} {w w' : World}
    (owners : OwnersKey board keys w) (key : w'.store.minerKey = w.store.minerKey)
    (salt : w'.store.salt = w.store.salt) (keySrc : w'.store.keySrc = w.store.keySrc) :
    OwnersKey board keys w' where
  guarded := fun may => owners.guarded ((mayDerive_congr salt keySrc).mp may)
  stored := key ▸ owners.stored

theorem OwnersKey.unchanged {board : Board} {keys : List Text} {w : World}
    (owners : OwnersKey board keys w) (freshSalt : Random16) (writes : Nat) :
    (ensureRun board w freshSalt writes).state = w := by
  obtain nothing | ⟨key, _, acceptable, stored⟩ := owners.stored
  · have empty : w.store.getMinerKey = [] := by rw [Store.getMinerKey, nothing]; rfl
    rw [ensureRun_waits board freshSalt writes empty owners.guarded]
  · obtain ⟨nonempty, plain⟩ := modern_plain (acceptable_modern acceptable)
    have same : w.store.getMinerKey = key := by rw [Store.getMinerKey, stored]; rfl
    rw [ensureRun_keeps board freshSalt writes (same ▸ nonempty) (same ▸ plain)]

theorem written_guarded {board : Board} {s : Store} (supplied : board.model ≠ .deviceKeeps)
    (written : s.keySrc = some (text "user")) : ¬ MayDerive board s := by
  rintro (keeps | ⟨_, unwritten⟩)
  · exact supplied keeps
  · exact unwritten (by rw [Store.getKeySrc, written]; rfl)

theorem OwnersKey.step {board : Board} {keys : List Text} {w : World}
    (owners : OwnersKey board keys w) {event : Event}
    (offers : ∀ key, event.offered = some key → key ∈ keys) :
    OwnersKey board keys (event.step board w) := by
  have ensuring (ensures : event.Ensures) : OwnersKey board keys (event.step board w) := by
    obtain ⟨w', freshSalt, writes, same, store, _⟩ := ensures.run board w
    have owners' : OwnersKey board keys w' :=
      owners.congr (by rw [same]) (by rw [same]) (by rw [same])
    rw [owners'.unchanged, same] at store
    exact owners.congr (by rw [store]) (by rw [store]) (by rw [store])
  cases event with
  | boot freshSalt writes => exact ensuring trivial
  | ensure freshSalt writes => exact ensuring trivial
  | ownerKey key transport =>
      show OwnersKey board keys ((setOwnerKey board key transport).exec Action.apply w).1
      obtain same | ⟨accepted, different, stored, _, keySrc⟩ :=
        setOwnerKey_cases board w key transport
      · exact same.symm ▸ owners
      · obtain ⟨acceptable, supplied⟩ := evaluate_accept accepted
        exact ⟨written_guarded (supplied different) keySrc,
          Or.inr ⟨key, offers key rfl, acceptable, stored⟩⟩
  | factoryReset =>
      obtain ⟨key, salt, keySrc⟩ := factoryReset_exec w
      exact owners.congr key salt keySrc
  | loseKey => exact ⟨fun may => owners.guarded may, Or.inl rfl⟩

theorem OwnersKey.after {board : Board} {keys : List Text} {w : World}
    (owners : OwnersKey board keys w) {later : List Event}
    (offers : ∀ event ∈ later, ∀ key, event.offered = some key → key ∈ keys) :
    OwnersKey board keys (afterEvents board w later) := by
  induction later generalizing w with
  | nil => exact owners
  | cons event rest ih =>
      refine ih (owners.step (offers event List.mem_cons_self)) ?_
      exact fun other member => offers other (List.mem_cons_of_mem _ member)

theorem OwnersKey.derives_nothing {board : Board} {keys : List Text} {w : World}
    (owners : OwnersKey board keys w) (event : Event) (key : Text) :
    ¬ event.Derives board w key := by
  intro derives
  obtain ⟨w', freshSalt, writes, same, _, given⟩ := derives.ensures.run board w
  obtain ⟨_, may, _⟩ := (gives_iff board w' freshSalt writes key).mp ((given key).mp derives)
  exact owners.guarded (same ▸ may)

theorem OwnersKey.ownerOnly {board : Board} {key : Text} {w : World}
    (owners : OwnersKey board [key] w) : OwnerOnly board key w := by
  intro later
  have widened : OwnersKey board (key :: later.filterMap Event.offered) w := by
    refine ⟨owners.guarded, owners.stored.imp id ?_⟩
    rintro ⟨stored, member, rest⟩
    obtain rfl := List.mem_singleton.mp member
    exact ⟨stored, List.mem_cons_self, rest⟩
  have offers : ∀ event ∈ later, ∀ offered, event.offered = some offered →
      offered ∈ key :: later.filterMap Event.offered := fun event member offered same =>
    List.mem_cons_of_mem _ (List.mem_filterMap.mpr ⟨event, member, same⟩)
  have after := widened.after offers
  refine ⟨after.derives_nothing, after.stored.imp id ?_⟩
  rintro ⟨stored, member, _, same⟩
  exact ⟨stored, member, same⟩

/-- Where a key may be derived and none is stored, one write is enough to derive one. -/
theorem ensureRun_gives {board : Board} {w : World} (freshSalt : Random16) (writes : Nat)
    (empty : w.store.getMinerKey = []) (may : MayDerive board w.store) :
    ∃ key, Gives (ensureRun board w freshSalt (writes + 1)) key := by
  have salted : ∃ salt,
      (ensureRun board w freshSalt (writes + 1)).state.store.getSalt = some salt := by
    cases salted : w.store.getSalt with
    | some salt => exact ⟨salt, ensureRun_salt board freshSalt _ salted⟩
    | none =>
        refine ⟨freshSalt.val, ?_⟩
        rw [ensureRun_derives board freshSalt _ empty may, salted]
        cases writes with
        | zero => exact getSalt_setSalt freshSalt w
        | succ writes => exact getSalt_setSalt freshSalt w
  obtain ⟨salt, stored⟩ := salted
  exact ⟨_, (gives_iff board w freshSalt _ _).mpr ⟨empty, may, salt, stored, rfl⟩⟩

theorem sameKey_stored {s : Store} {key : Text} (same : sameKey s key = true) :
    s.minerKey = some key := by
  unfold sameKey at same
  rw [decide_eq_true_eq] at same
  rw [getMinerKey_some same.1, same.2]

theorem ownerOnly_iff {board : Board} {w : World} {key : Text} {transport : KeyTransport}
    (accepted : evaluate board w.store key transport = .accept) :
    OwnerOnly board key ((Event.ownerKey key transport).step board w) ↔
      sameKey w.store key = false ∨ ¬ MayDerive board w.store := by
  obtain ⟨acceptable, supplied⟩ := evaluate_accept accepted
  cases same : sameKey w.store key with
  | false =>
      obtain ⟨stored, _, keySrc⟩ := setOwnerKey_store accepted same
      have owners : OwnersKey board [key] ((Event.ownerKey key transport).step board w) :=
        ⟨written_guarded (supplied same) keySrc,
          Or.inr ⟨key, List.mem_cons_self, acceptable, stored⟩⟩
      exact ⟨fun _ => Or.inl rfl, fun _ => owners.ownerOnly⟩
  | true =>
      have unchanged : (Event.ownerKey key transport).step board w = w :=
        setOwnerKey_unchanged fun _ => same
      rw [unchanged]
      constructor
      · intro only
        refine Or.inr fun may => ?_
        obtain ⟨derived, gives⟩ :=
          ensureRun_gives (w := Event.loseKey.step board w) (sixteen 0) 0 rfl may
        exact (only [.loseKey]).1 (.ensure (sixteen 0) 1) derived gives
      · intro guarded
        have owners : OwnersKey board [key] w :=
          ⟨guarded.resolve_left nofun,
            Or.inr ⟨key, List.mem_cons_self, acceptable, sameKey_stored same⟩⟩
        exact owners.ownerOnly

/-! ## The identity of a board -/

/-- In every state `ensureMinerKey` leaves a stored key, or moves a legacy one; what
is derived once is all that is derived later; and a key that the owner writes over
another one, or where none is stored, is the end of derived keys. To write the stored
key again changes nothing: keys are derived after it where they were before it. -/
theorem identity_stable (board : Board) (w : World) :
    (∀ event : Event, event.Ensures → w.store.getMinerKey ≠ [] →
        SameIdentity w.store.getMinerKey (event.step board w).store.getMinerKey) ∧
      (∀ (event event' : Event) (later : List Event) (key key' : Text), event.Derives board w key →
        event'.Derives board (afterEvents board (event.step board w) later) key' → key' = key) ∧
      ∀ key transport, evaluate board w.store key transport = .accept →
        (OwnerOnly board key ((Event.ownerKey key transport).step board w) ↔
            sameKey w.store key = false ∨ ¬ MayDerive board w.store) ∧
          (sameKey w.store key = true → (Event.ownerKey key transport).step board w = w) := by
  refine ⟨fun event ensures stored => ?_, fun event event' later key key' derives again => ?_,
    fun key transport accepted => ⟨ownerOnly_iff accepted, fun same => ?_⟩⟩
  · obtain ⟨w', freshSalt, writes, store, after, _⟩ := ensures.run board w
    rw [after, ← store]
    exact ensureRun_identity board freshSalt writes (store ▸ stored)
  · exact derives_once derives again
  · exact setOwnerKey_unchanged fun _ => same

def suppliedBoard : Board := ⟨.userSupplied, [1, 2, 3], []⟩

def mintingBoard : Board := ⟨.deviceKeeps, [1, 2, 3], []⟩

def legacyKey : Text := text "IOT-0123456789abcdef0123456789abcdef"

def movedKey : Text := text "FEM-0123456789abcdef0123456789abcdef"

/-- A board of the first firmware: its key, and the salt it was made of. -/
def legacyWorld : World := { store := { minerKey := some legacyKey, salt := some (sixteen 7).val } }

/-- A legacy key, a mint that loses power between salt and key, and a new owner's key. -/
theorem identity_stable_events :
    SameIdentity legacyKey ((Event.boot (sixteen 0) 2).step suppliedBoard legacyWorld).store.getMinerKey ∧
      (Event.ensure (sixteen 0) 1).Derives mintingBoard {}
        (computeMinerKey mintingBoard.mac6 (sixteen 0).val) ∧
      (Event.boot (sixteen 1) 2).Derives mintingBoard
        ((Event.ensure (sixteen 0) 1).step mintingBoard {})
        (computeMinerKey mintingBoard.mac6 (sixteen 0).val) ∧
      (∀ key, (Event.boot (sixteen 1) 2).Derives mintingBoard
        ((Event.ensure (sixteen 0) 1).step mintingBoard {}) key →
          key = computeMinerKey mintingBoard.mac6 (sixteen 0).val) ∧
      OwnerOnly suppliedBoard movedKey ((Event.ownerKey movedKey .usb).step suppliedBoard {}) := by
  have minted : (Event.ensure (sixteen 0) 1).Derives mintingBoard {}
      (computeMinerKey mintingBoard.mac6 (sixteen 0).val) :=
    (gives_iff mintingBoard {} (sixteen 0) 1 _).mpr
      ⟨rfl, Or.inl rfl, (sixteen 0).val, by decide +kernel, rfl⟩
  refine ⟨(identity_stable suppliedBoard legacyWorld).1 (.boot (sixteen 0) 2) trivial (by decide),
    minted, ?_, fun key again => ?_, ?_⟩
  · exact (gives_iff mintingBoard _ (sixteen 1) 2 _).mpr
      ⟨by decide +kernel, Or.inl rfl, (sixteen 0).val, by decide +kernel, rfl⟩
  · exact (identity_stable mintingBoard {}).2.1 _ _ [] _ key minted again
  · exact ((identity_stable suppliedBoard {}).2.2 movedKey .usb (by decide +kernel)).1.mpr
      (Or.inl (by decide))

/-- The legacy board after its next boot. -/
def movedWorld : World := afterEvents suppliedBoard legacyWorld [.boot (sixteen 0) 2]

/-- The moved key, sent back by its owner and then lost: the board derives another. -/
theorem resent_key_replaced :
    movedWorld.store.minerKey = some movedKey ∧
      evaluate suppliedBoard movedWorld.store movedKey .usb = .accept ∧
      (afterEvents suppliedBoard movedWorld
          [.ownerKey movedKey .usb, .loseKey, .boot (sixteen 0) 2]).store.minerKey =
        some (computeMinerKey suppliedBoard.mac6 (sixteen 7).val) ∧
      computeMinerKey suppliedBoard.mac6 (sixteen 7).val ≠ movedKey ∧
      ¬ OwnerOnly suppliedBoard movedKey
        ((Event.ownerKey movedKey .usb).step suppliedBoard movedWorld) := by
  have accepted : evaluate suppliedBoard movedWorld.store movedKey .usb = .accept := by
    decide +kernel
  refine ⟨by decide +kernel, accepted, by decide +kernel, by decide +kernel, fun only => ?_⟩
  obtain different | guarded := (ownerOnly_iff accepted).mp only
  · exact absurd different (by decide +kernel)
  · exact guarded (by decide +kernel)

end FryFirmware.Identity
