import FryFirmware.Identity.MinerKey
import FryFirmware.Ota.Sha256Properties
import Mathlib.Data.List.Basic
import Mathlib.Tactic.Common

/-!
# What the key programs are made of

The actions of each program, so that an invariant of the actions is one of the
program, and the ids that are minted.
-/

set_option autoImplicit false

namespace FryFirmware.Identity

open Lib Config
open Lib.Program (get put tell)

/-! ## Minted ids -/

theorem mintedId_length (random : Random16) : (mintedId random).length = 32 := by
  rw [mintedId, List.length_map, Ota.hexDigits_length, random.property]

theorem mintedId_nonempty (random : Random16) : mintedId random ≠ [] := by
  intro empty
  have size := mintedId_length random
  rw [empty] at size
  cases size

/-! ## Shapes of a key -/

theorem acceptable_modern {key : Text} (acceptable : isAcceptableOwnerKey key = true) :
    key.take 4 = text "FEM-" := by
  simp only [isAcceptableOwnerKey, hasKeyShape, Bool.and_eq_true, beq_iff_eq] at acceptable
  exact acceptable.1.2

theorem modern_plain {key : Text} (modern : key.take 4 = text "FEM-") :
    key ≠ [] ∧ isLegacyMinerKey key = false := by
  have different : (text "FEM-" == text "IOT-") = false := by decide
  constructor
  · intro empty
    rw [empty] at modern
    exact absurd modern (by decide)
  · simp [isLegacyMinerKey, hasKeyShape, modern, different]

/-- An accepted key is well formed, and a board that keeps its own accepts no other. -/
theorem evaluate_accept {board : Board} {s : Store} {key : Text} {transport : KeyTransport}
    (accepted : evaluate board s key transport = .accept) :
    isAcceptableOwnerKey key = true ∧ (sameKey s key = false → board.model ≠ .deviceKeeps) := by
  unfold evaluate mayWriteKey at accepted
  dsimp only at accepted
  split at accepted
  · cases accepted
  · split at accepted
    · cases accepted
    · next valid =>
      refine ⟨by simpa using valid, fun different keeps => ?_⟩
      rw [different, Bool.and_false, if_neg Bool.false_ne_true, if_pos keeps] at accepted
      cases accepted

/-! ## Actions -/

/-- The miner key, stored by this writer, or the salt. -/
def KeyAction (writer : Writer) : Action → Prop
  | .setMinerKey other _ => other = writer
  | .setSalt _ => True
  | _ => False

/-- What is removed or reset where an installation ends. -/
def Clears : Action → Prop
  | .removeInstallId => True
  | .removeDeviceToken => True
  | .removeShadowId => True
  | .removeShadowToken => True
  | .clearVpn => True
  | .setKeySrc _ => True
  | .setKeyOk _ => True
  | .boot => True
  | _ => False

theorem only_when {among : Action → Prop} {program : Prog Unit} (only : program.Only among)
    (condition : Bool) : (when condition program).Only among :=
  only_ite only trivial

theorem only_put {among : Action → Prop} {action : Action} (first : among action) :
    (do let _ ← put action : Prog Unit).Only among :=
  only_put_bind first fun _ => trivial

theorem storeKey_only (writer : Writer) (key : Text) (left : Nat) :
    (storeKey writer key left).Only (KeyAction writer) := by
  induction left with
  | zero => trivial
  | succ left ih => exact only_put_bind rfl fun _ => only_get_bind fun w => only_ite trivial ih

theorem ensureMinerKey_only (board : Board) (freshSalt : Random16) :
    (ensureMinerKey board freshSalt).Only (KeyAction .board) := by
  unfold ensureMinerKey
  refine only_get_bind fun w => ?_
  have stored (key : Text) : (do
      let _ ← put (.setMinerKey .board key)
      pure key : Prog Text).Only (KeyAction .board) :=
    only_put_bind rfl fun _ => trivial
  dsimp only
  split
  · trivial
  · trivial
  · split
    · trivial
    · exact (storeKey_only .board _ 2).bind fun _ => trivial
  all_goals
    split
    · exact stored _
    · exact only_put_bind trivial fun _ => stored _

theorem clearInstallation_only : clearInstallation.Only Clears :=
  only_put_bind trivial fun _ => only_put trivial

theorem clearIdentityShadows_only : clearIdentityShadows.Only Clears :=
  only_get_bind fun _ => (only_when (only_put trivial) _).bind fun _ =>
    only_get_bind fun _ => only_when (only_put trivial) _

theorem forgetInstallation_only : forgetInstallation.Only Clears :=
  clearInstallation_only.bind fun _ => clearIdentityShadows_only.bind fun _ =>
    only_put_bind trivial fun _ => only_put_bind trivial fun _ => only_put trivial

/-- What an owner's new key changes: the key, and what is cleared after it. -/
def OwnerChanges (key : Text) : Action → Prop
  | .setMinerKey writer stored => writer = .owner ∧ stored = key
  | action => Clears action

theorem clears_ownerChanges {key : Text} {action : Action} (clears : Clears action) :
    OwnerChanges key action := by
  cases action with
  | setMinerKey writer stored => cases clears
  | _ => exact clears

theorem storeKey_ownerChanges (key : Text) (left : Nat) :
    (storeKey .owner key left).Only (OwnerChanges key) := by
  induction left with
  | zero => trivial
  | succ left ih => exact only_put_bind ⟨rfl, rfl⟩ fun _ => only_get_bind fun w => only_ite trivial ih

theorem setOwnerKey_only (board : Board) (key : Text) (transport : KeyTransport) :
    (setOwnerKey board key transport).Only (OwnerChanges key) := by
  refine only_get_bind fun w => only_ite trivial (only_ite trivial ?_)
  refine (storeKey_ownerChanges key 2).bind fun storedOk => only_ite trivial ?_
  exact (forgetInstallation_only.mono fun _ clears => clears_ownerChanges clears).bind fun _ => trivial

/-! ## Refusals -/

/-- Every write takes effect. -/
abbrev Stored {α : Type} (program : Prog α) (post : α → World → Prop) (w : World) : Prop :=
  program.Holds Action.apply Step.Took (fun _ => True) (fun _ => True) post w

theorem stored_put_bind {α : Type} {action : Action} {rest : Bool → Prog α}
    {post : α → World → Prop} {w : World} (after : Stored (rest true) post (action.apply w)) :
    Stored (put action >>= rest) post w :=
  holds_put_bind (fun _ => ⟨trivial, after⟩) nofun nofun

/-- A store that takes the key does so at the first attempt. -/
theorem stored_storeKey (writer : Writer) (key : Text) (left : Nat) (w : World) :
    Stored (storeKey writer key (left + 1)) (fun storedOk _ => storedOk = true) w := by
  refine stored_put_bind (holds_get_bind (holds_ite (fun _ => rfl) fun other => ?_))
  cases writer <;> exact absurd rfl other

/-- A refused key changes nothing. -/
theorem stored_setOwnerKey (board : Board) (key : Text) (transport : KeyTransport) (w : World) :
    Stored (setOwnerKey board key transport) (fun verdict w' => verdict ≠ .accept → w' = w) w := by
  refine holds_get_bind (holds_ite (fun _ => fun _ => rfl) fun accepted => ?_)
  have taken : evaluate board w.store key transport = .accept := Decidable.not_not.mp accepted
  refine holds_ite (fun _ => fun refused => absurd taken refused) fun _ => ?_
  refine (stored_storeKey .owner key 1 w).bind fun storedOk w' ok => ?_
  refine holds_ite (fun failed => by simp [ok] at failed) fun _ => ?_
  exact (holds_trivially forgetInstallation w').bind fun _ _ _ => fun refused => absurd taken refused

/-- With every write stored the verdict is that of `evaluate`. -/
theorem exec_setOwnerKey (board : Board) (key : Text) (transport : KeyTransport) (w : World) :
    ((setOwnerKey board key transport).exec Action.apply w).2 = evaluate board w.store key transport := by
  have holds : Stored (setOwnerKey board key transport)
      (fun verdict _ => verdict = evaluate board w.store key transport) w := by
    refine holds_get_bind (holds_ite (fun _ => rfl) fun _ => holds_ite (fun _ => rfl) fun _ => ?_)
    refine (stored_storeKey .owner key 1 w).bind fun storedOk w' ok => ?_
    refine holds_ite (fun failed => by simp [ok] at failed) fun _ => ?_
    exact (holds_trivially forgetInstallation w').bind fun _ _ _ => rfl
  exact holds.exec fun _ took => took

theorem computeMinerKey_nonempty (mac6 salt : List UInt8) : computeMinerKey mac6 salt ≠ [] :=
  List.append_ne_nil_of_left_ne_nil (by decide) _

theorem migrated_nonempty {key migrated : Text} (migrates : migrateLegacyMinerKey key = some migrated) :
    migrated ≠ [] := by
  unfold migrateLegacyMinerKey at migrates
  split at migrates
  · cases migrates
    exact List.append_ne_nil_of_left_ne_nil (by decide) _
  · cases migrates

/-- A board without a key after `ensureMinerKey` is as it was. -/
theorem stored_ensureMinerKey (board : Board) (freshSalt : Random16) (w : World) :
    Stored (ensureMinerKey board freshSalt) (fun key w' => key = [] → w' = w) w := by
  have minted (salt : List UInt8) (w' : World) : Stored (do
      let _ ← put (.setMinerKey .board (computeMinerKey board.mac6 salt))
      pure (computeMinerKey board.mac6 salt) : Prog Text) (fun key w' => key = [] → w' = w) w' :=
    stored_put_bind fun empty => absurd empty (computeMinerKey_nonempty _ _)
  unfold ensureMinerKey
  refine holds_get_bind ?_
  dsimp only
  split
  · exact fun _ => rfl
  · exact fun _ => rfl
  · split
    · exact fun _ => rfl
    · next migrated migrates =>
      exact (holds_trivially (storeKey .board migrated 2) w).bind fun _ _ _ => fun empty =>
        absurd empty (migrated_nonempty migrates)
  all_goals
    split
    · exact minted _ _
    · exact stored_put_bind (minted _ _)

theorem factoryReset_only : factoryReset.Only Clears := by
  unfold factoryReset
  refine only_put_bind trivial fun _ => only_put_bind trivial fun _ => ?_
  refine only_put_bind trivial fun _ => only_put_bind trivial fun _ => ?_
  exact only_put_bind trivial fun _ => ⟨trivial, trivial⟩

end FryFirmware.Identity
