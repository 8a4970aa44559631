import FryFirmware.Identity.TokenPair
import Mathlib.Data.List.Basic
import Mathlib.Data.List.Nodup
import Mathlib.Tactic.Common

/-!
# A new owner key and a power loss

`setOwnerKey` stores the key first and clears what belongs to the old one after it,
write by write. Which of these writes are still to come when power is lost decides
whether anything of the old identity stays beside the new key.
-/

set_option autoImplicit false

namespace FryFirmware.Identity

open Lib Config
open Lib.Program (get put tell)

/-! ## What belongs to an identity -/

inductive Item where
  | installId
  | deviceToken
  | shdwInstallId
  | shdwDevToken
  | vpn
  | keyOk
  deriving DecidableEq, Repr

def Present (s : Store) : Item → Prop
  | .installId => s.getInstallId ≠ []
  | .deviceToken => s.getDeviceToken ≠ []
  | .shdwInstallId => s.getShadowId ≠ []
  | .shdwDevToken => s.getShadowToken ≠ []
  | .vpn => s.vpn ≠ {}
  | .keyOk => s.getKeyOk = true

instance (s : Store) : (item : Item) → Decidable (Present s item)
  | .installId => inferInstanceAs (Decidable (¬ _ = _))
  | .deviceToken => inferInstanceAs (Decidable (¬ _ = _))
  | .shdwInstallId => inferInstanceAs (Decidable (¬ _ = _))
  | .shdwDevToken => inferInstanceAs (Decidable (¬ _ = _))
  | .vpn => inferInstanceAs (Decidable (¬ _ = _))
  | .keyOk => inferInstanceAs (Decidable (_ = _))

def Origins.of (o : Origins) : Item → Nat
  | .installId => o.installId
  | .deviceToken => o.deviceToken
  | .shdwInstallId => o.shdwInstallId
  | .shdwDevToken => o.shdwDevToken
  | .vpn => o.vpn
  | .keyOk => o.keyOk

/-- Something stored belongs to another identity than the stored key. -/
def Mixed (w : World) : Prop := ∃ item, Present w.store item ∧ w.origins.of item ≠ w.identity

theorem mixed_iff (w : World) :
    (∃ item ∈ [Item.installId, .deviceToken, .shdwInstallId, .shdwDevToken, .vpn, .keyOk],
      Present w.store item ∧ w.origins.of item ≠ w.identity) ↔ Mixed w := by
  constructor
  · intro ⟨item, _, both⟩
    exact ⟨item, both⟩
  · intro ⟨item, both⟩
    exact ⟨item, by cases item <;> simp, both⟩

instance (w : World) : Decidable (Mixed w) := decidable_of_iff _ (mixed_iff w)

/-- A board all of whose store belongs to one identity. -/
def owned (store : Store) (ram : Ram) : World := { store := store, ram := ram }

/-- Everything stored belongs to the identity of the stored key. -/
def Whole (w : World) : Prop := ∀ item, Present w.store item → w.origins.of item = w.identity

theorem whole_iff (w : World) : Whole w ↔ ¬ Mixed w := by
  constructor
  · intro whole ⟨item, present, other⟩
    exact other (whole item present)
  · intro pureState item present
    exact Decidable.byContradiction fun other => pureState ⟨item, present, other⟩

theorem whole_owned (store : Store) (ram : Ram) : Whole (owned store ram) := by
  intro item _
  cases item <;> rfl

/-! ## The interrupted change -/

/-- The board after `done` writes of an owner-key change and a power loss. -/
def interrupted (board : Board) (w : World) (key : Text) (transport : KeyTransport) (done : Nat) :
    World :=
  restart ((setOwnerKey board key transport).run Action.apply w (List.replicate done .done)).state

/-- What may follow: boots, registrations, and the same key again. -/
inductive Later where
  | boot (freshSalt : Random16)
  | register (r : Registration)
  | rewrite (transport : KeyTransport)

def Later.request (key : Text) : Later → Request
  | .boot freshSalt => .boot freshSalt
  | .register r => .register r
  | .rewrite transport => .setOwnerKey key transport

def afterwards (board : Board) (key : Text) (w : World) (later : List Later) : World :=
  later.foldl (fun w step => (((step.request key).program board).exec Action.apply w).1) w

/-- The new key is stored and nothing that belongs to an identity. -/
def Clean (key : Text) (s : Store) : Prop := s.minerKey = some key ∧ ∀ item, ¬ Present s item

/-- The interrupted change left the old store or a clean new one, and nothing mixed
comes of it. -/
def CrashAtomic (board : Board) (w : World) (key : Text) (transport : KeyTransport) (done : Nat) :
    Prop :=
  ((interrupted board w key transport done).store = w.store ∨
      Clean key (interrupted board w key transport done).store) ∧
    ∀ later, ¬ Mixed (afterwards board key (interrupted board w key transport done) later)

/-- The writes after the key itself, in order, by the item each of them clears; the one
to `keySrc` clears none. -/
def clearing (s : Store) : List (Option Item) :=
  [some .installId, some .deviceToken] ++
    (if s.shdwInstallId.isSome then [some .shdwInstallId] else []) ++
    (if s.shdwDevToken.isSome then [some .shdwDevToken] else []) ++
    [some .vpn, none, some .keyOk]

/-- Every item whose clearing is still to come is absent. -/
def NothingLeft (s : Store) (cleared : Nat) : Prop :=
  ∀ item, some item ∈ (clearing s).drop cleared → ¬ Present s item

/-! ## Where the change stands -/

/-- The write that clears this item, or else the one to `keySrc`. -/
def clearAction : Option Item → Action
  | some .installId => .removeInstallId
  | some .deviceToken => .removeDeviceToken
  | some .shdwInstallId => .removeShadowId
  | some .shdwDevToken => .removeShadowToken
  | some .vpn => .clearVpn
  | none => .setKeySrc (text "user")
  | some .keyOk => .setKeyOk false

def clearAll (items : List (Option Item)) (w : World) : World :=
  items.foldl (fun w item => (clearAction item).apply w) w

theorem forgetInstallation_run (w : World) (done : Nat) :
    (forgetInstallation.run Action.apply w (List.replicate done .done)).state =
      clearAll ((clearing w.store).take done) w := by
  obtain ⟨⟨minerKey, salt, keySrc, keyOk, installId, deviceToken, shadowId, shadowToken, healAt,
    apiBase, vpn⟩, ram, identity, origins, issued⟩ := w
  cases shadowId <;> cases shadowToken <;>
    rcases done with _ | _ | _ | _ | _ | _ | _ | _ | done <;> rfl

theorem forgetInstallation_exec (w : World) :
    (forgetInstallation.exec Action.apply w).1 = clearAll (clearing w.store) w := by
  obtain ⟨⟨minerKey, salt, keySrc, keyOk, installId, deviceToken, shadowId, shadowToken, healAt,
    apiBase, vpn⟩, ram, identity, origins, issued⟩ := w
  cases shadowId <;> cases shadowToken <;> rfl

/-- The board right after the new key is stored. -/
def keyed (key : Text) (w : World) : World := (Action.setMinerKey .owner key).apply w

theorem clearing_keyed (key : Text) (w : World) :
    clearing (keyed key w).store = clearing w.store :=
  rfl

/-- The first attempt stores the key where its write takes effect. -/
theorem storeKey_run {α : Type} (writer : Writer) (key : Text) (left : Nat) (rest : Bool → Prog α)
    (w : World) (fates : List Fate) :
    (storeKey writer key (left + 1) >>= rest).run Action.apply w (.done :: fates) =
      ((rest true).run Action.apply ((Action.setMinerKey writer key).apply w) fates).cons
        ⟨w, .setMinerKey writer key, .took⟩ := by
  have taken : ((Action.setMinerKey writer key).apply w).store.minerKey = some key := by
    cases writer <;> rfl
  show (((if ((Action.setMinerKey writer key).apply w).store.minerKey = some key then pure true
    else storeKey writer key left : Prog Bool) >>= rest).run Action.apply
      ((Action.setMinerKey writer key).apply w) fates).cons _ = _
  rw [if_pos taken]
  rfl

theorem storeKey_exec (key : Text) (left : Nat) (w : World) :
    (storeKey .owner key (left + 1)).exec Action.apply w = (keyed key w, true) := by
  show (if (keyed key w).store.minerKey = some key then pure true
    else storeKey .owner key left : Prog Bool).exec Action.apply (keyed key w) = _
  rw [if_pos (show (keyed key w).store.minerKey = some key from rfl)]
  rfl

theorem setOwnerKey_run {board : Board} {w : World} {key : Text} {transport : KeyTransport}
    (accepted : evaluate board w.store key transport = .accept)
    (different : sameKey w.store key = false) (done : Nat) :
    ((setOwnerKey board key transport).run Action.apply w (List.replicate (done + 1) .done)).state =
      clearAll ((clearing w.store).take done) (keyed key w) := by
  have changed : ¬ sameKey w.store key = true := by
    rw [different]
    exact Bool.false_ne_true
  unfold setOwnerKey
  rw [run_get_bind]
  dsimp only
  rw [if_neg (not_not.mpr accepted), if_neg changed, List.replicate_succ, storeKey_run,
    cons_state, if_neg (by decide), run_bind_pure forgetInstallation]
  exact forgetInstallation_run (keyed key w) done

theorem setOwnerKey_exec {board : Board} {w : World} {key : Text} {transport : KeyTransport}
    (accepted : evaluate board w.store key transport = .accept)
    (different : sameKey w.store key = false) :
    ((setOwnerKey board key transport).exec Action.apply w).1 =
      clearAll (clearing w.store) (keyed key w) := by
  have changed : ¬ sameKey w.store key = true := by
    rw [different]
    exact Bool.false_ne_true
  unfold setOwnerKey
  rw [exec_get_bind]
  dsimp only
  rw [if_neg (not_not.mpr accepted), if_neg changed, exec_bind, storeKey_exec, if_neg (by simp),
    exec_bind, ← clearing_keyed key, ← forgetInstallation_exec]
  rfl

/-- A refused key and the stored one leave the board as it is. -/
theorem setOwnerKey_unchanged {board : Board} {w : World} {key : Text} {transport : KeyTransport}
    (nothing : evaluate board w.store key transport = .accept → sameKey w.store key = true) :
    ((setOwnerKey board key transport).exec Action.apply w).1 = w := by
  unfold setOwnerKey
  rw [exec_get_bind]
  dsimp only
  split
  · rfl
  · next accepted =>
    rw [if_pos (nothing (Decidable.not_not.mp accepted))]
    rfl

/-- Another one is stored, and the salt stays. -/
theorem setOwnerKey_store {board : Board} {w : World} {key : Text} {transport : KeyTransport}
    (accepted : evaluate board w.store key transport = .accept)
    (different : sameKey w.store key = false) :
    ((setOwnerKey board key transport).exec Action.apply w).1.store.minerKey = some key ∧
      ((setOwnerKey board key transport).exec Action.apply w).1.store.salt = w.store.salt ∧
      ((setOwnerKey board key transport).exec Action.apply w).1.store.keySrc = some (text "user") := by
  rw [setOwnerKey_exec accepted different, ← clearing_keyed key, ← forgetInstallation_exec]
  obtain ⟨⟨minerKey, salt, keySrc, keyOk, installId, deviceToken, shadowId, shadowToken, healAt,
    apiBase, vpn⟩, ram, identity, origins, issued⟩ := w
  cases shadowId <;> cases shadowToken <;> exact ⟨rfl, rfl, rfl⟩

/-- What the whole of `setOwnerKey` does to the key. -/
theorem setOwnerKey_cases (board : Board) (w : World) (key : Text) (transport : KeyTransport) :
    ((setOwnerKey board key transport).exec Action.apply w).1 = w ∨
      evaluate board w.store key transport = .accept ∧ sameKey w.store key = false ∧
        ((setOwnerKey board key transport).exec Action.apply w).1.store.minerKey = some key ∧
        ((setOwnerKey board key transport).exec Action.apply w).1.store.salt = w.store.salt ∧
        ((setOwnerKey board key transport).exec Action.apply w).1.store.keySrc =
          some (text "user") := by
  by_cases changes : evaluate board w.store key transport = .accept ∧ sameKey w.store key = false
  · exact Or.inr ⟨changes.1, changes.2, setOwnerKey_store changes.1 changes.2⟩
  · refine Or.inl (setOwnerKey_unchanged fun accepted => ?_)
    exact eq_true_of_ne_false fun different => changes ⟨accepted, different⟩

/-! ## What clearing leaves -/

theorem absent_clearAction (item : Item) (w : World) :
    ¬ Present ((clearAction (some item)).apply w).store item := by
  cases item with
  | keyOk => exact Bool.false_ne_true
  | _ => exact fun present => present rfl

/-- A write clears no item but its own. -/
theorem clearAction_other {target : Option Item} {item : Item} (other : target ≠ some item)
    (w : World) :
    (Present ((clearAction target).apply w).store item ↔ Present w.store item) ∧
      ((clearAction target).apply w).origins.of item = w.origins.of item := by
  cases target with
  | none => cases item <;> exact ⟨Iff.rfl, rfl⟩
  | some target =>
      cases target <;> cases item <;> first
        | exact ⟨Iff.rfl, rfl⟩
        | exact absurd rfl other

theorem clearAction_frame (target : Option Item) (w : World) :
    ((clearAction target).apply w).store.minerKey = w.store.minerKey ∧
      ((clearAction target).apply w).identity = w.identity := by
  cases target with
  | none => exact ⟨rfl, rfl⟩
  | some item => cases item <;> exact ⟨rfl, rfl⟩

theorem clearAll_frame (items : List (Option Item)) (w : World) :
    (clearAll items w).store.minerKey = w.store.minerKey ∧
      (clearAll items w).identity = w.identity := by
  induction items generalizing w with
  | nil => exact ⟨rfl, rfl⟩
  | cons target rest ih =>
      obtain ⟨key, identity⟩ := clearAction_frame target w
      exact ⟨(ih _).1.trans key, (ih _).2.trans identity⟩

theorem present_clearAll (items : List (Option Item)) (w : World) (item : Item) :
    Present (clearAll items w).store item ↔ Present w.store item ∧ some item ∉ items := by
  induction items generalizing w with
  | nil => exact ⟨fun present => ⟨present, List.not_mem_nil⟩, fun both => both.1⟩
  | cons target rest ih =>
      refine (ih _).trans ?_
      rw [List.mem_cons, not_or]
      by_cases own : target = some item
      · subst own
        constructor
        · exact fun both => absurd both.1 (absent_clearAction item w)
        · exact fun both => absurd rfl both.2.1
      · rw [(clearAction_other own w).1]
        exact ⟨fun both => ⟨both.1, Ne.symm own, both.2⟩, fun both => ⟨both.1, both.2.2⟩⟩

/-- What is left has the origin it had. -/
theorem origins_clearAll {items : List (Option Item)} {w : World} {item : Item}
    (left : some item ∉ items) : (clearAll items w).origins.of item = w.origins.of item := by
  induction items generalizing w with
  | nil => rfl
  | cons target rest ih =>
      rw [List.mem_cons, not_or] at left
      exact (ih left.2).trans (clearAction_other (Ne.symm left.1) w).2

/-! ## The crash states -/

theorem clearing_nodup (s : Store) : (clearing s).Nodup := by
  unfold clearing
  cases s.shdwInstallId.isSome <;> cases s.shdwDevToken.isSome <;> decide

theorem mem_clearing {s : Store} {item : Item} (present : Present s item) :
    some item ∈ clearing s := by
  have stored {value : Option Text} (some : value.getD [] ≠ []) : value.isSome = true := by
    cases value with
    | none => exact absurd rfl some
    | some => rfl
  cases item with
  | shdwInstallId => simp [clearing, stored present]
  | shdwDevToken => simp [clearing, stored present]
  | _ => simp [clearing]

theorem not_mem_take_iff {s : Store} {item : Item} (present : Present s item) (cleared : Nat) :
    some item ∉ (clearing s).take cleared ↔ some item ∈ (clearing s).drop cleared := by
  constructor
  · intro left
    have member := mem_clearing present
    rw [← List.take_append_drop cleared (clearing s), List.mem_append] at member
    exact member.resolve_left left
  · intro toCome done
    exact List.disjoint_take_drop (clearing_nodup s) (Nat.le_refl cleared) done toCome

theorem interrupted_zero {board : Board} {w : World} {key : Text} {transport : KeyTransport}
    (accepted : evaluate board w.store key transport = .accept)
    (different : sameKey w.store key = false) :
    interrupted board w key transport 0 = restart w := by
  have changed : ¬ sameKey w.store key = true := by
    rw [different]
    exact Bool.false_ne_true
  unfold interrupted setOwnerKey
  rw [run_get_bind]
  dsimp only
  rw [if_neg (not_not.mpr accepted), if_neg changed]
  rfl

theorem interrupted_succ {board : Board} {w : World} {key : Text} {transport : KeyTransport}
    (accepted : evaluate board w.store key transport = .accept)
    (different : sameKey w.store key = false) (done : Nat) :
    interrupted board w key transport (done + 1) =
      restart (clearAll ((clearing w.store).take done) (keyed key w)) :=
  congrArg restart (setOwnerKey_run accepted different done)

theorem present_interrupted {board : Board} {w : World} {key : Text} {transport : KeyTransport}
    (accepted : evaluate board w.store key transport = .accept)
    (different : sameKey w.store key = false) (done : Nat) (item : Item) :
    Present (interrupted board w key transport (done + 1)).store item ↔
      Present w.store item ∧ some item ∈ (clearing w.store).drop done := by
  have unkeyed : Present (keyed key w).store item ↔ Present w.store item := by
    cases item <;> exact Iff.rfl
  rw [interrupted_succ accepted different]
  refine (present_clearAll _ _ item).trans ?_
  rw [unkeyed]
  exact and_congr_right fun present => not_mem_take_iff present done

/-- With nothing left to clear the interrupted change is a finished one. -/
theorem interrupted_clean {board : Board} {w : World} {key : Text} {transport : KeyTransport}
    (accepted : evaluate board w.store key transport = .accept)
    (different : sameKey w.store key = false) {done : Nat} (nothing : NothingLeft w.store done) :
    Clean key (interrupted board w key transport (done + 1)).store := by
  constructor
  · rw [interrupted_succ accepted different]
    exact (clearAll_frame _ _).1
  · intro item present
    obtain ⟨before, toCome⟩ := (present_interrupted accepted different done item).mp present
    exact nothing item toCome before

/-- Otherwise an old item stands beside the new key. -/
theorem interrupted_mixed {board : Board} {w : World} {key : Text} {transport : KeyTransport}
    (accepted : evaluate board w.store key transport = .accept)
    (different : sameKey w.store key = false) (whole : Whole w) {done : Nat}
    (something : ¬ NothingLeft w.store done) :
    Mixed (interrupted board w key transport (done + 1)) := by
  obtain ⟨item, more⟩ := not_forall.mp something
  rw [Classical.not_imp, not_not] at more
  obtain ⟨toCome, before⟩ := more
  refine ⟨item, (present_interrupted accepted different done item).mpr ⟨before, toCome⟩, ?_⟩
  have left := (not_mem_take_iff before done).mpr toCome
  have old : (keyed key w).origins.of item = w.identity := whole item before
  rw [interrupted_succ accepted different]
  show (clearAll _ _).origins.of item ≠ (clearAll _ _).identity
  rw [origins_clearAll left, (clearAll_frame _ _).2, old]
  exact Nat.ne_of_lt (Nat.lt_succ_self w.identity)

/-! ## Undisturbed programs keep one identity -/

/-- The execution whose writes all take effect ends as `post` says. -/
def Undisturbed {α : Type} (program : Prog α) (post : α → World → Prop) (w : World) : Prop :=
  program.Holds Action.apply (fun step => step.ending = .took) (fun _ => True) (fun _ => True) post w

section

variable {α β : Type} {w : World}

theorem undisturbed_put_bind {action : Action} {rest : Bool → Prog β} {post : β → World → Prop}
    (after : Undisturbed (rest true) post (action.apply w)) :
    Undisturbed (put action >>= rest) post w :=
  holds_put_bind (fun _ => ⟨trivial, after⟩) nofun nofun

def KeepsWhole (program : Prog α) : Prop :=
  program.Maintains Action.apply (fun step => step.ending = .took) (fun _ => True) (fun _ => True)
    Whole

theorem keepsWhole_pure (value : α) : KeepsWhole (pure value : Prog α) := maintains_pure value

theorem KeepsWhole.bind {program : Prog α} {rest : α → Prog β} (first : KeepsWhole program)
    (second : ∀ value, KeepsWhole (rest value)) : KeepsWhole (program >>= rest) :=
  Program.Maintains.bind first second

theorem KeepsWhole.when {program : Prog Unit} (keeps : KeepsWhole program) (condition : Bool) :
    KeepsWhole (when condition program) :=
  maintains_ite keeps (keepsWhole_pure ())

theorem keepsWhole_put {action : Action} {rest : Bool → Prog β}
    (same : ∀ w, Whole w → Whole (action.apply w)) (later : KeepsWhole (rest true)) :
    KeepsWhole (put action >>= rest) :=
  fun w whole => undisturbed_put_bind (later _ (same w whole))

theorem keepsWhole_tell {action : Action} {rest : Unit → Prog β}
    (same : ∀ w, Whole w → Whole (action.apply w)) (later : KeepsWhole (rest ())) :
    KeepsWhole (tell action >>= rest) :=
  fun w whole => holds_tell_bind trivial (later _ (same w whole))

/-! ### Actions -/

theorem whole_keyAction {action : Action} (key : KeyAction .board action) (whole : Whole w) :
    Whole (action.apply w) := by
  intro item
  have held := whole item
  cases action with
  | setMinerKey writer =>
      cases key
      cases item <;> exact held
  | setSalt => cases item <;> exact held
  | _ => cases key

theorem whole_clears {action : Action} (clears : Clears action) (whole : Whole w) :
    Whole (action.apply w) := by
  intro item
  have held := whole item
  cases action with
  | boot => cases item <;> exact held
  | _ =>
      cases clears <;> cases item <;> first
        | exact held
        | exact fun present => absurd rfl present
        | exact fun _ => rfl

theorem whole_fresh {action : Action}
    (fresh : (∃ id, action = .setInstallId .fresh id) ∨ ∃ token, action = .setDeviceToken .fresh token)
    (whole : Whole w) : Whole (action.apply w) := by
  intro item
  have held := whole item
  obtain ⟨id, rfl⟩ | ⟨token, rfl⟩ := fresh
  · cases item with
    | installId => exact fun _ => rfl
    | _ => exact held
  · cases item with
    | deviceToken => exact fun _ => rfl
    | _ => exact held

/-- The stamp of the heal, and the notes. -/
def Elsewhere : Action → Prop
  | .putHealAt _ => True
  | .latchHeal _ => True
  | .releaseLatch => True
  | .issue _ _ => True
  | .attempt => True
  | _ => False

theorem whole_elsewhere {action : Action} (elsewhere : Elsewhere action) (whole : Whole w) :
    Whole (action.apply w) := by
  intro item
  have held := whole item
  cases action with
  | _ => cases elsewhere <;> cases item <;> exact held

theorem whole_setInstallId {id : Text} (own : w.origins.shdwInstallId = w.identity)
    (whole : Whole w) : Whole ((Action.setInstallId .shadow id).apply w) := by
  intro item
  have held := whole item
  cases item with
  | installId => exact fun _ => own
  | _ => exact held

theorem whole_setDeviceToken {token : Text} (own : w.origins.shdwDevToken = w.identity)
    (whole : Whole w) : Whole ((Action.setDeviceToken .shadow token).apply w) := by
  intro item
  have held := whole item
  cases item with
  | deviceToken => exact fun _ => own
  | _ => exact held

theorem whole_putShadowId {id : Text} (own : w.origins.installId = w.identity) (whole : Whole w) :
    Whole ((Action.putShadowId id).apply w) := by
  intro item
  have held := whole item
  cases item with
  | shdwInstallId => exact fun _ => own
  | _ => exact held

theorem whole_putShadowToken {token : Text} (own : w.origins.deviceToken = w.identity)
    (whole : Whole w) : Whole ((Action.putShadowToken token).apply w) := by
  intro item
  have held := whole item
  cases item with
  | shdwDevToken => exact fun _ => own
  | _ => exact held

/-! ### Programs -/

theorem keepsWhole_keyActions {program : Prog α} (only : program.Only (KeyAction .board)) :
    KeepsWhole program :=
  only.maintains (fun _ _ _ _ _ => trivial) (fun _ _ key whole => whole_keyAction key whole)
    fun _ _ => trivial

theorem keepsWhole_clearing {program : Prog α} (only : program.Only Clears) : KeepsWhole program :=
  only.maintains (fun _ _ _ _ _ => trivial) (fun _ _ clears whole => whole_clears clears whole)
    fun _ _ => trivial

theorem keepsWhole_ensureInstallId (random : Random16) : KeepsWhole (ensureInstallId random) :=
  maintains_get_bind fun _ => maintains_ite (keepsWhole_pure _)
    (keepsWhole_put (fun _ => whole_fresh (Or.inl ⟨_, rfl⟩)) (keepsWhole_pure _))

theorem keepsWhole_storeIssued (token : Text) :
    KeepsWhole (do let _ ← put (.setDeviceToken .fresh token)) :=
  keepsWhole_put (fun _ => whole_fresh (Or.inr ⟨_, rfl⟩)) (keepsWhole_pure _)

/-- The shadow pair that is copied back belongs to the identity of the key. -/
theorem keepsWhole_restoreTokenPair : KeepsWhole restoreTokenPair := by
  intro w whole
  unfold restoreTokenPair
  refine holds_get_bind ?_
  dsimp only
  split
  · exact whole
  rename_i complete
  rw [not_or, List.length_eq_zero_iff, List.length_eq_zero_iff] at complete
  have ownId : w.origins.shdwInstallId = w.identity := whole .shdwInstallId complete.1
  have ownToken : w.origins.shdwDevToken = w.identity := whole .shdwDevToken complete.2
  refine undisturbed_put_bind (undisturbed_put_bind ?_)
  have restored : Whole ((Action.setDeviceToken .shadow w.store.getShadowToken).apply
      ((Action.setInstallId .shadow w.store.getShadowId).apply w)) :=
    whole_setDeviceToken ownToken (whole_setInstallId ownId whole)
  refine maintains_get_bind (fun r => maintains_ite (keepsWhole_pure false) ?_) _ restored
  exact (keepsWhole_clearing dropTokenPairShadow_only).bind fun _ => keepsWhole_pure true

/-- The live pair that is stashed belongs to the identity of the key. -/
theorem keepsWhole_stashTokenPair : KeepsWhole stashTokenPair := by
  intro w whole
  unfold stashTokenPair
  refine holds_get_bind ?_
  dsimp only
  split
  · exact whole
  rename_i complete
  rw [not_or, List.length_eq_zero_iff, List.length_eq_zero_iff] at complete
  have ownId : w.origins.installId = w.identity := whole .installId complete.1
  have ownToken : w.origins.deviceToken = w.identity := whole .deviceToken complete.2
  refine undisturbed_put_bind (undisturbed_put_bind ?_)
  exact maintains_get_bind (fun r => keepsWhole_pure _) _
    (whole_putShadowToken ownToken (whole_putShadowId ownId whole))

theorem keepsWhole_healRetry (h : HealInput) : KeepsWhole (healRetry h) := by
  unfold healRetry
  refine (keepsWhole_clearing clearInstallation_only).bind fun _ => ?_
  refine (keepsWhole_ensureInstallId h.random).bind fun newId => ?_
  refine KeepsWhole.bind (KeepsWhole.when ?_ _) fun _ => maintains_ite ?_ ?_
  · exact fun w whole => holds_tell trivial (whole_elsewhere trivial whole)
  · exact keepsWhole_restoreTokenPair.bind fun _ => keepsWhole_pure false
  · exact ((keepsWhole_storeIssued _).when _).bind fun _ => keepsWhole_clearing confirmKey_only

theorem keepsWhole_healStaleTokenIfDue (board : Board) (h : HealInput) (code : Int)
    (tokenSent : Bool) : KeepsWhole (healStaleTokenIfDue board h code tokenSent) := by
  have window : KeepsWhole (healInWindow h) := by
    unfold healInWindow
    refine keepsWhole_stashTokenPair.bind fun _ => maintains_ite (keepsWhole_pure false) ?_
    refine keepsWhole_tell (fun _ => whole_elsewhere trivial) ?_
    refine keepsWhole_put (fun _ => whole_elsewhere trivial) ?_
    exact maintains_get_bind fun _ => maintains_ite (keepsWhole_pure false) (keepsWhole_healRetry h)
  have released : KeepsWhole (tell .releaseLatch) :=
    fun w whole => holds_tell trivial (whole_elsewhere trivial whole)
  unfold healStaleTokenIfDue
  refine maintains_get_bind fun _ => (released.when _).bind fun _ => maintains_get_bind fun _ => ?_
  refine maintains_ite (keepsWhole_pure false) (maintains_ite (keepsWhole_pure false) ?_)
  exact maintains_ite (keepsWhole_pure false) window

theorem keepsWhole_registerAttempts (board : Board) (h : HealInput) (installId : Text)
    (tokenSent : Bool) (answers : List Answer) :
    KeepsWhole (registerAttempts board h installId tokenSent answers) := by
  induction answers with
  | nil => exact keepsWhole_pure false
  | cons answer rest ih =>
      unfold registerAttempts
      refine maintains_ite ?_ (maintains_ite ?_ ih)
      · have stored : KeepsWhole (do
            tell (.issue installId answer.token)
            let _ ← put (.setDeviceToken .fresh answer.token)) :=
          keepsWhole_tell (fun _ => whole_elsewhere trivial) (keepsWhole_storeIssued _)
        exact (stored.when _).bind fun _ => keepsWhole_clearing confirmKey_only
      · exact keepsWhole_healStaleTokenIfDue board h answer.code tokenSent

theorem keepsWhole_registerInstallation (board : Board) (r : Registration) :
    KeepsWhole (registerInstallation board r) := by
  have recovered : KeepsWhole recoverOrphanedTokenPair :=
    maintains_get_bind fun _ => maintains_ite (keepsWhole_clearing dropTokenPairShadow_only)
      (keepsWhole_restoreTokenPair.bind fun _ => keepsWhole_pure ())
  unfold registerInstallation
  refine (keepsWhole_keyActions (ensureMinerKey_only board r.freshSalt)).bind fun minerKey => ?_
  refine maintains_ite (keepsWhole_pure false) (recovered.bind fun _ => ?_)
  refine (keepsWhole_ensureInstallId r.random).bind fun installId => ?_
  refine keepsWhole_tell (fun _ => whole_elsewhere trivial) (maintains_get_bind fun _ => ?_)
  exact keepsWhole_registerAttempts board r.heal installId _ _

end

/-! ## Crash atomicity -/

theorem whole_of_clean {key : Text} {w : World} (clean : Clean key w.store) : Whole w :=
  fun item present => absurd present (clean.2 item)

theorem whole_restart {w : World} (whole : Whole w) : Whole (restart w) :=
  whole_clears (show Clears .boot from trivial) whole

theorem clean_setOwnerKey {board : Board} {w : World} {key : Text} {transport : KeyTransport}
    (accepted : evaluate board w.store key transport = .accept)
    (different : sameKey w.store key = false) :
    Clean key ((setOwnerKey board key transport).exec Action.apply w).1.store := by
  rw [setOwnerKey_exec accepted different]
  refine ⟨(clearAll_frame _ _).1, fun item present => ?_⟩
  obtain ⟨before, left⟩ := (present_clearAll _ _ item).mp present
  have stored : Present w.store item := by cases item <;> exact before
  exact left (mem_clearing stored)

theorem whole_setOwnerKey {board : Board} {w : World} (key : Text) (transport : KeyTransport)
    (whole : Whole w) : Whole ((setOwnerKey board key transport).exec Action.apply w).1 := by
  obtain same | ⟨accepted, different, _⟩ := setOwnerKey_cases board w key transport
  · exact same.symm ▸ whole
  · exact whole_of_clean (clean_setOwnerKey accepted different)

theorem whole_later (board : Board) (key : Text) (step : Later) {w : World} (whole : Whole w) :
    Whole (((step.request key).program board).exec Action.apply w).1 := by
  cases step with
  | boot freshSalt =>
      have keeps : KeepsWhole (do
          tell .boot
          let _ ← ensureMinerKey board freshSalt) :=
        keepsWhole_tell (fun _ => whole_restart)
          ((keepsWhole_keyActions (ensureMinerKey_only board freshSalt)).bind fun _ =>
            keepsWhole_pure ())
      exact (keeps w whole).exec fun _ took => took
  | register r =>
      have keeps : KeepsWhole (do let _ ← registerInstallation board r) :=
        (keepsWhole_registerInstallation board r).bind fun _ => keepsWhole_pure ()
      exact (keeps w whole).exec fun _ took => took
  | rewrite transport =>
      show Whole ((do let _ ← setOwnerKey board key transport : Prog Unit).exec Action.apply w).1
      rw [exec_bind]
      exact whole_setOwnerKey key transport whole

theorem whole_afterwards (board : Board) (key : Text) (later : List Later) {w : World}
    (whole : Whole w) : Whole (afterwards board key w later) := by
  induction later generalizing w with
  | nil => exact whole
  | cons step rest ih => exact ih (whole_later board key step whole)

/-- An accepted different key, with power lost after any number of its writes: the
change is atomic exactly where the key itself is not written yet, or nothing of what
the writes to come would clear is there. -/
theorem interrupted_crashAtomic_iff (board : Board) (store : Store) (ram : Ram) (key : Text)
    (transport : KeyTransport) (done : Nat)
    (accepted : evaluate board store key transport = .accept)
    (different : sameKey store key = false) :
    CrashAtomic board (owned store ram) key transport done ↔
      done = 0 ∨ NothingLeft store (done - 1) := by
  have whole := whole_owned store ram
  cases done with
  | zero =>
      refine ⟨fun _ => Or.inl rfl, fun _ => ?_⟩
      rw [CrashAtomic, interrupted_zero (w := owned store ram) accepted different]
      refine ⟨Or.inl rfl, fun later => ?_⟩
      exact (whole_iff _).mp (whole_afterwards board key later (whole_restart whole))
  | succ done =>
      constructor
      · intro atomic
        refine Or.inr (Classical.byContradiction fun something => ?_)
        exact atomic.2 [] (interrupted_mixed (w := owned store ram) accepted different whole something)
      · intro nothing
        have clean := interrupted_clean (w := owned store ram) accepted different
          (nothing.resolve_left (Nat.succ_ne_zero done))
        refine ⟨Or.inr clean, fun later => ?_⟩
        exact (whole_iff _).mp (whole_afterwards board key later (whole_of_clean clean))

def newKey : Text := text "FEM-AAAAAAAAAAAAAAAAAAAAAAAAAAAAAAAA"

/-- Power lost right after the two removals of the live pair: nothing else was there. -/
theorem interrupted_crashAtomic_cleared :
    CrashAtomic staleBoard (owned staleWorld.store {}) newKey .usb 3 := by
  refine (interrupted_crashAtomic_iff staleBoard staleWorld.store {} newKey .usb 3
    (by decide +kernel) (by decide +kernel)).mpr (Or.inr fun item toCome => ?_)
  have left : item = .vpn ∨ item = .keyOk := by
    simpa [clearing, staleWorld] using toCome
  obtain rfl | rfl := left
  · exact fun present => present rfl
  · exact Bool.false_ne_true

def afterCrash : List Later :=
  [.boot (sixteen 0), .register { staleRegistration with answers := [⟨-1, []⟩, ⟨-1, []⟩] },
    .rewrite .usb, .register { staleRegistration with answers := [⟨200, text "tok-3"⟩] }]

/-- Power lost right after the key: the old installation stays beside it through a
boot, a registration that no server answers, the same key again and a registration
that the server accepts. -/
theorem interrupted_mixed_afterCrash :
    evaluate staleBoard staleWorld.store newKey .usb = .accept ∧
      sameKey staleWorld.store newKey = false ∧
      ¬ CrashAtomic staleBoard (owned staleWorld.store {}) newKey .usb 1 := by
  have mixed : Mixed (afterwards staleBoard newKey
      (interrupted staleBoard (owned staleWorld.store {}) newKey .usb 1) afterCrash) := by
    decide +kernel
  exact ⟨by decide +kernel, by decide +kernel, fun atomic => atomic.2 afterCrash mixed⟩

end FryFirmware.Identity
