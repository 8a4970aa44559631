import FryFirmware.Provisioning.Safety
import Mathlib.Data.List.Basic
import Mathlib.Data.List.Induction
import Mathlib.Tactic.Common

/-!
# Where a committed miner key comes from

The key staged over BLE is global to the transport. Over any run it is the value of a
write to characteristic 09 that was encrypted, accepted, and made on the connection
that is still up; the wallet write stores no other key.
-/

set_option autoImplicit false

namespace FryFirmware.Provisioning

open Lib Config
open Lib.Program (get put tell)
open Identity (Board KeyTransport KeyWriteVerdict Random16 keyAllowsJoin checkOwnerKey)

/-! ## A started board -/

/-- What `ensureMinerKey` decides on this store. -/
def bootKey (board : Board) (s : Store) : Identity.BootKeyAction :=
  let action := Identity.decideBootKey board.model s.minerKey.isSome s.getMinerKey
  if action = .wait ∨ action = .mint then
    Identity.decideBootKeySalted board.model s.minerKey.isSome s.getMinerKey s.getSalt.isSome
      (s.getKeySrc = text "user")
  else action

/-- There is a key that is kept, or none that the board could make. -/
def KeySettled (board : Board) (s : Store) : Prop :=
  bootKey board s = .keep ∨ bootKey board s = .wait

/-- `setup` as far as the transports are concerned. -/
def startUp (board : Board) (freshSalt : Random16) (d : Device) : Device :=
  { d.reboot with
    identity := ((Identity.ensureMinerKey board freshSalt).exec Identity.Action.apply
      d.reboot.identity).1 }

variable {board : Board}

theorem bootKey_stored {s : Store} {key : Text} (stored : s.minerKey = some key) (present : key ≠ [])
    (modern : Identity.isLegacyMinerKey key = false) : bootKey board s = .keep := by
  simp [bootKey, Identity.decideBootKey, Store.getMinerKey, stored, present, modern]

/-- A key of the board's or an owner's making is kept. -/
theorem bootKey_modern {s : Store} {key : Text} (stored : s.minerKey = some key)
    (modern : key.take 4 = text "FEM-") : bootKey board s = .keep := by
  obtain ⟨present, plain⟩ := Identity.modern_plain modern
  exact bootKey_stored stored present plain

theorem take_made (rest : Text) : (text "FEM-" ++ rest).take 4 = text "FEM-" := rfl

theorem migrated_modern {key migrated : Text}
    (migrates : Identity.migrateLegacyMinerKey key = some migrated) :
    migrated.take 4 = text "FEM-" := by
  unfold Identity.migrateLegacyMinerKey at migrates
  split at migrates
  · cases migrates
    exact take_made _
  · cases migrates

theorem bootKey_legacy {s : Store} (migrates : bootKey board s = .migrateLegacy) :
    Identity.isLegacyMinerKey s.getMinerKey = true := by
  cases legacy : Identity.isLegacyMinerKey s.getMinerKey with
  | true => rfl
  | false =>
      exfalso
      simp only [bootKey, Identity.decideBootKeySalted, Identity.decideBootKey, legacy] at migrates
      grind

/-- A key that the board stores itself settles the matter. -/
theorem settles_made {w : Identity.World} {key : Text} (modern : key.take 4 = text "FEM-") :
    KeySettled board (Identity.Action.apply (.setMinerKey .board key) w).store :=
  Or.inl (bootKey_modern rfl modern)

/-- `ensureMinerKey` leaves nothing to do for itself. -/
theorem ensureMinerKey_settles (freshSalt : Random16) (w : Identity.World) :
    KeySettled board
      ((Identity.ensureMinerKey board freshSalt).exec Identity.Action.apply w).1.store := by
  unfold Identity.ensureMinerKey
  rw [exec_get_bind]
  dsimp only
  split
  · next decision => exact Or.inr decision
  · next decision => exact Or.inl decision
  · next decision =>
    split
    · next stays =>
      have legacy := bootKey_legacy decision
      simp [Identity.migrateLegacyMinerKey, legacy] at stays
    · next migrated migrates =>
      have stored : ((Identity.storeKey .board migrated 2).exec Identity.Action.apply w).1 =
          Identity.Action.apply (.setMinerKey .board migrated) w := by
        show ((if some migrated = some migrated then pure true else _ : Identity.Prog Bool).exec
          Identity.Action.apply _).1 = _
        rw [if_pos rfl]
        rfl
      rw [exec_bind, stored]
      exact settles_made (migrated_modern migrates)
  all_goals
    split
    · exact settles_made (take_made _)
    · exact settles_made (take_made _)

/-! ## What the identity programs store -/

/-- Every owner or board key that is stored is this one. -/
def StoresOnly (key : Text) (step : Step Identity.World Identity.Action) : Prop :=
  ∀ writer stored, step.action = .setMinerKey writer stored → stored = key

/-- A settled board has nothing to store. -/
theorem holds_ensureMinerKey (freshSalt : Random16) {w : Identity.World}
    {crash : Identity.World → Prop} (settled : KeySettled board w.store) :
    (Identity.ensureMinerKey board freshSalt).Holds Identity.Action.apply (fun _ => True)
      (fun _ => False) crash (fun _ w' => w' = w) w := by
  unfold Identity.ensureMinerKey
  refine holds_get_bind ?_
  dsimp only
  split
  · exact rfl
  · exact rfl
  · next decision =>
    obtain keep | wait := settled
    · exact nomatch decision.symm.trans keep
    · exact nomatch decision.symm.trans wait
  · next decision =>
    obtain keep | wait := settled
    · exact nomatch decision.symm.trans keep
    · exact nomatch decision.symm.trans wait
  · next decision =>
    obtain keep | wait := settled
    · exact nomatch decision.symm.trans keep
    · exact nomatch decision.symm.trans wait

theorem holds_storeKey {key : Text} (modern : key.take 4 = text "FEM-") (left : Nat)
    {w : Identity.World} (settled : KeySettled board w.store) :
    (Identity.storeKey .owner key left).Holds Identity.Action.apply (fun _ => True) (StoresOnly key)
      (fun w' => KeySettled board w'.store)
      (fun storedOk w' => KeySettled board w'.store ∧ (storedOk = true → w'.store.minerKey = some key))
      w := by
  induction left generalizing w with
  | zero => exact ⟨settled, nofun⟩
  | succ left ih =>
      have only : StoresOnly key ⟨w, .setMinerKey .owner key, .took⟩ := by
        rintro _ _ ⟨⟩
        rfl
      have taken : KeySettled board (Identity.Action.apply (.setMinerKey .owner key) w).store :=
        Or.inl (bootKey_modern rfl modern)
      have again (w : Identity.World) (settled : KeySettled board w.store) : (do
          let w ← get
          if w.store.minerKey = some key then pure true
          else Identity.storeKey .owner key left : Identity.Prog Bool).Holds Identity.Action.apply
          (fun _ => True) (StoresOnly key) (fun w' => KeySettled board w'.store)
          (fun storedOk w' =>
            KeySettled board w'.store ∧ (storedOk = true → w'.store.minerKey = some key)) w :=
        holds_get_bind (holds_ite (fun same => ⟨settled, fun _ => same⟩) fun _ => ih settled)
      exact holds_put_bind (fun _ => ⟨only, again _ taken⟩)
        (fun _ => ⟨only, fun _ => again _ settled⟩) fun _ => ⟨only, settled⟩

theorem holds_setOwnerKey (key : Text) (transport : KeyTransport) {w : Identity.World}
    (settled : KeySettled board w.store) :
    (Identity.setOwnerKey board key transport).Holds Identity.Action.apply (fun _ => True)
      (StoresOnly key) (fun w' => KeySettled board w'.store) (fun _ w' => KeySettled board w'.store)
      w := by
  refine holds_get_bind (holds_ite (fun _ => settled) fun accepted => holds_ite (fun _ => settled) fun _ => ?_)
  have modern := Identity.acceptable_modern (Identity.evaluate_accept (Decidable.not_not.mp accepted)).1
  refine (holds_storeKey modern 2 settled).bind fun storedOk w' ⟨settled', stored⟩ => ?_
  refine holds_ite (fun _ => settled') fun ok => ?_
  have kept : Identity.forgetInstallation.Maintains Identity.Action.apply (fun _ => True) (StoresOnly key)
      (fun w' => KeySettled board w'.store) (fun w' => w'.store.minerKey = some key) := by
    refine Identity.forgetInstallation_only.maintains ?_ ?_ fun w held => Or.inl (bootKey_modern held modern)
    · rintro action ending w clears - writer other rfl
      cases clears
    · intro action w clears held
      cases action <;> first | exact held | cases clears
  refine (kept w' (stored (by simpa using ok))).bind fun _ w'' held => ?_
  exact Or.inl (bootKey_modern held modern)

/-! ## Every request leaves the board settled -/

/-- An action of the transport that concerns no key. -/
def Plain : Action → Prop
  | .identity _ => False
  | .stageKey _ => False
  | _ => True

/-- The staged key is dropped at most. -/
def Ordinary : Action → Prop
  | .stageKey key => key = []
  | _ => True

theorem plain_ordinary {action : Action} (plain : Plain action) : Ordinary action := by
  cases action with
  | stageKey key => cases plain
  | _ => trivial

theorem feed_plain (ev : ProvEvent) (given : ProvInputs) : (feed ev given).Only Plain :=
  only_tell trivial

theorem setWifi_plain (ssid pass : Text) : (setWifi ssid pass).Only Plain :=
  only_put_bind trivial fun _ => only_put_bind trivial fun _ => trivial

theorem setWallet_plain (wallet : Text) : (setWallet wallet).Only Plain :=
  only_put_bind trivial fun _ => trivial

theorem setProvDone_plain : setProvDone.Only Plain := only_put_bind trivial fun _ => trivial

theorem commitOnWallet_plain (given : ProvInputs) {persist : Prog Unit} (only : persist.Only Plain) :
    (commitOnWallet given persist).Only Plain :=
  only_get_bind fun _ => only_ite (only.bind fun _ => only_tell trivial) (only_tell trivial)

theorem commitStaged_plain (given : ProvInputs) (wallet : Text) :
    (commitStaged given wallet).Only Plain :=
  commitOnWallet_plain given
    (only_get_bind fun _ => (setWifi_plain _ _).bind fun _ => setWallet_plain wallet)

theorem commitForm_plain (form : Form) : (commitForm form).Only Plain :=
  (commitOnWallet_plain _ ((setWifi_plain _ _).bind fun _ => setWallet_plain _)).bind
    fun _ => trivial

theorem sendProvisionError_plain (http : Nat) (reason : String) :
    (sendProvisionError http reason).Only Plain :=
  only_get_bind fun _ => trivial

theorem refuseKey_plain (verdict : KeyWriteVerdict) : (refuseKey verdict).Only Plain := by
  refine only_tell_bind trivial ?_
  cases verdict <;> exact sendProvisionError_plain _ _

theorem commitWifiOnlyCredentials_plain (ssid pass : Option Text) :
    (commitWifiOnlyCredentials ssid pass).Only Plain := by
  cases ssid with
  | none => trivial
  | some ssid =>
      have restarts : resetForWifiOnlyCommit.Only Plain :=
        only_get_bind fun _ => only_ite (only_tell trivial) trivial
      have persists : (do
          setWifi (cString ssid) (cString (pass.getD []))
          setProvDone : Prog Unit).Only Plain :=
        (setWifi_plain _ _).bind fun _ => setProvDone_plain
      refine restarts.bind fun _ => only_tell_bind trivial (only_ite trivial ?_)
      refine Program.Only.bind (only_get_bind fun _ => ?_) fun _ => only_get_bind fun _ => trivial
      exact only_ite (persists.bind fun _ => only_tell trivial) (only_tell trivial)

theorem notify_plain (notification : Notification) : (notify notification).Only Plain := by
  cases notification <;> exact only_tell trivial

def Device.KeySettled (board : Board) (d : Device) : Prop :=
  Provisioning.KeySettled board d.identity.store

/-- The board is settled before the program and wherever it ends. -/
abbrev Settling (board : Board) {α : Type} (program : Prog α) : Prop :=
  program.Maintains Action.apply (fun _ => True) (fun _ => True) (Device.KeySettled board)
    (Device.KeySettled board)

theorem settling_plain {α : Type} {program : Prog α} (only : program.Only Plain) :
    Settling board program := by
  refine only.maintains (fun _ _ _ _ _ => trivial) (fun action d plain settled => ?_) fun _ settled => settled
  cases action with
  | identity action => cases plain
  | _ => exact settled

theorem settling_stageKey (key : Text) : Settling board (tell (.stageKey key)) :=
  fun _ settled => holds_tell trivial settled

theorem settling_ensureMinerKey (freshSalt : Random16) :
    Settling board (onIdentity (Identity.ensureMinerKey board freshSalt)) := by
  intro d settled
  have alone : (Identity.ensureMinerKey board freshSalt).Holds Identity.Action.apply (fun _ => True)
      (fun _ => False) (fun w => KeySettled board w.store) (fun _ w' => w' = d.identity) d.identity :=
    holds_ensureMinerKey freshSalt settled
  refine (identityComponent.holds_zoom alone (fun _ _ _ _ => trivial) (fun _ _ _ _ => trivial)
    fun _ held => held).mono ?_
  rintro _ _ ⟨_, rfl, rfl⟩
  exact settled

theorem settling_setOwnerKey (key : Text) (transport : KeyTransport) :
    Settling board (onIdentity (Identity.setOwnerKey board key transport)) := by
  intro d settled
  refine (identityComponent.holds_zoom (holds_setOwnerKey key transport settled)
    (fun _ _ _ _ => trivial) (fun _ _ _ _ => trivial) fun _ held => held).mono ?_
  rintro _ _ ⟨_, rfl, held⟩
  exact held

/-- The verdict on a key decides nothing about the next boot. -/
theorem settling_setKeyOk (ok : Bool) : Settling board (setKeyOk ok) := by
  intro d settled
  have alone : (do
      let _ ← put (.setKeyOk ok) : Identity.Prog Unit).Holds Identity.Action.apply (fun _ => True)
      (fun _ => True) (fun w => KeySettled board w.store) (fun _ w => KeySettled board w.store)
      d.identity :=
    holds_put_bind (fun _ => ⟨trivial, settled⟩) (fun _ => ⟨trivial, fun _ => settled⟩)
      fun _ => ⟨trivial, settled⟩
  refine (identityComponent.holds_zoom alone (fun _ _ _ _ => trivial) (fun _ _ _ _ => trivial)
    fun _ held => held).mono ?_
  rintro _ _ ⟨_, rfl, held⟩
  exact held

theorem settling_writeKey (value : List UInt8) (encrypted : Bool) :
    Settling board (writeKey board value encrypted) := by
  refine maintains_ite (maintains_pure ()) (maintains_get_bind fun _ => ?_)
  refine maintains_ite (maintains_pure ()) (maintains_ite (settling_stageKey _) ?_)
  exact (settling_stageKey _).bind fun _ => settling_plain (only_tell trivial)

theorem settling_writeWallet (value : List UInt8) (freshSalt : Random16) :
    Settling board (writeWallet board value freshSalt) := by
  have committed (given : ProvInputs) (wallet : Text) : Settling board (commitStaged given wallet) :=
    settling_plain (commitStaged_plain given wallet)
  refine maintains_get_bind fun _ => maintains_ite ?_ (committed _ _)
  refine (settling_ensureMinerKey freshSalt).bind fun _ => maintains_get_bind fun _ => ?_
  refine maintains_ite (settling_plain (feed_plain _ _)) (maintains_ite ?_ (committed _ _))
  refine (settling_setOwnerKey _ _).bind fun _ => (settling_stageKey _).bind fun _ => ?_
  exact maintains_ite (settling_plain (feed_plain _ _)) (committed _ _)

theorem settling_onWrite (write : Write) : Settling board (onWrite board write) := by
  obtain ⟨characteristic, value, encrypted, freshSalt⟩ := write
  refine maintains_get_bind fun _ => ?_
  cases characteristic with
  | keyWrite => exact settling_writeKey value encrypted
  | ssid =>
      exact maintains_ite (maintains_pure ())
        (settling_plain (only_tell_bind trivial (only_tell trivial)))
  | pass =>
      exact maintains_ite (maintains_pure ())
        (settling_plain (only_tell_bind trivial (only_tell trivial)))
  | wallet => exact maintains_ite (maintains_pure ()) (settling_writeWallet value freshSalt)

theorem settling_handleProvision (form : Form) (apSecure : Bool) (freshSalt : Random16) :
    Settling board (handleProvision board form apSecure freshSalt) := by
  have refused (http : Nat) (reason : String) : Settling board (sendProvisionError http reason) :=
    settling_plain (sendProvisionError_plain http reason)
  have fed (ev : ProvEvent) (given : ProvInputs) : Settling board (feed ev given) :=
    settling_plain (feed_plain ev given)
  have committed : Settling board (commitForm form) := settling_plain (commitForm_plain form)
  refine maintains_get_bind fun _ => maintains_ite (refused _ _) (maintains_ite (refused _ _) ?_)
  refine (fed _ _).bind fun _ => maintains_ite (refused _ _) ?_
  refine maintains_ite ((fed _ _).bind fun _ => refused _ _) (maintains_ite ?_ ?_)
  · refine (settling_setOwnerKey _ _).bind fun verdict => maintains_ite ?_ committed
    exact settling_plain (refuseKey_plain verdict)
  · refine (settling_ensureMinerKey freshSalt).bind fun _ => maintains_ite ?_ committed
    exact (fed _ _).bind fun _ => refused _ _

theorem settling_handle (request : Request) : Settling board (request.handle board) := by
  have done {α : Type} (value : α) : Settling board (pure value : Prog α) := maintains_pure value
  cases request with
  | write written => exact (settling_onWrite written).bind fun _ => done none
  | readKey freshSalt =>
      exact ((settling_ensureMinerKey freshSalt).bind fun _ => done ()).bind fun _ => done none
  | connect => exact (settling_stageKey []).bind fun _ => done none
  | disconnect => exact (settling_stageKey []).bind fun _ => done none
  | tick idle =>
      have ticked : Settling board (tick idle) :=
        maintains_get_bind fun _ => maintains_ite (settling_stageKey []) (done ())
      exact ticked.bind fun _ => done none
  | provision form apSecure freshSalt =>
      exact (settling_handleProvision form apSecure freshSalt).bind fun reply => done (some reply)
  | improv ssid pass =>
      exact (settling_plain (commitWifiOnlyCredentials_plain ssid pass)).bind fun _ => done none
  | usbKey key =>
      exact ((settling_setOwnerKey (cString key) .usb).bind fun _ => done ()).bind fun _ => done none
  | keyOk ok => exact (settling_setKeyOk ok).bind fun _ => done none
  | notify notification =>
      exact (settling_plain (notify_plain notification)).bind fun _ => done none
  | reset =>
      exact (settling_plain (feed_plain _ _)).bind fun _ => done none

theorem settling_serve (request : Request) : Settling board (request.serve board) := by
  have offered (commit : Option Commit) : Settling board (tell (.offer commit)) :=
    settling_plain (only_tell trivial)
  refine Program.Maintains.bind ?_ fun _ => maintains_pure ()
  exact maintains_get_bind fun _ => (offered _).bind fun _ => settling_handle request

/-- No run unsettles the board. -/
theorem run_settled {d : Device} (settled : d.KeySettled board)
    (requests : List (Request × List Fate)) : (runAll board d requests).KeySettled board := by
  have kept : ∀ request ∈ requests, ∀ s : Device, s.KeySettled board →
      (request.1.serve board).Holds Action.apply (fun _ => True) (fun _ => True)
        (fun s' => s'.reboot.KeySettled board) (fun _ s' => s'.KeySettled board) s :=
    fun request _ => settling_serve request.1
  have held : (∀ step ∈ stepsAll board d requests, True) ∧
      (runAll board d requests).KeySettled board :=
    sessions_hold kept settled fun _ _ => trivial
  exact held.2

theorem startUp_settled (freshSalt : Random16) (d : Device) :
    (startUp board freshSalt d).KeySettled board :=
  ensureMinerKey_settles freshSalt d.reboot.identity

/-! ## The staged key -/

theorem onIdentity_ordinary {α : Type} (program : Identity.Prog α) :
    (onIdentity program).Only Ordinary :=
  identityComponent.zoom_only (only_anything program) fun _ _ => trivial

theorem ordinary_of_plain {α : Type} {program : Prog α} (only : program.Only Plain) :
    program.Only Ordinary :=
  only.mono fun _ plain => plain_ordinary plain

/-- What a write to the wallet characteristic may do. -/
def WalletAction : Action → Prop
  | .identity _ | .putSsid _ | .putPass _ | .putWallet _ => True
  | .stageKey key => key = []
  | .feed ev _ => ev = .walletWritten ∨ ev = .keyMissing ∨ ev = .keyRejected
  | _ => False

theorem commitStaged_only (given : ProvInputs) (wallet : Text) :
    (commitStaged given wallet).Only WalletAction := by
  have wifi (ssid pass : Text) : (setWifi ssid pass).Only WalletAction :=
    only_put_bind trivial fun _ => only_put_bind trivial fun _ => trivial
  have stored : (setWallet wallet).Only WalletAction := only_put_bind trivial fun _ => trivial
  have fed : (feed .walletWritten given).Only WalletAction := only_tell (Or.inl rfl)
  refine only_get_bind fun _ => only_ite ?_ fed
  exact Program.Only.bind (only_get_bind fun d => (wifi _ _).bind fun _ => stored) fun _ => fed

theorem writeWallet_only (value : List UInt8) (freshSalt : Random16) :
    (writeWallet board value freshSalt).Only WalletAction := by
  have identity {α : Type} (program : Identity.Prog α) : (onIdentity program).Only WalletAction :=
    identityComponent.zoom_only (only_anything program) fun _ _ => trivial
  have missing (given : ProvInputs) : (feed .keyMissing given).Only WalletAction :=
    only_tell (Or.inr (Or.inl rfl))
  have rejected (verdict : KeyWriteVerdict) : (rejectKey verdict).Only WalletAction :=
    only_tell (Or.inr (Or.inr rfl))
  refine only_get_bind fun _ => only_ite ?_ (commitStaged_only _ _)
  refine (identity _).bind fun _ => only_get_bind fun _ => only_ite (missing _) ?_
  refine only_ite ((identity _).bind fun verdict => only_tell_bind rfl ?_) (commitStaged_only _ _)
  exact only_ite (rejected verdict) (commitStaged_only _ _)

theorem walletAction_ordinary {action : Action} (wallet : WalletAction action) : Ordinary action := by
  cases action with
  | stageKey key => exact wallet
  | _ => trivial

theorem handleProvision_ordinary (form : Form) (apSecure : Bool) (freshSalt : Random16) :
    (handleProvision board form apSecure freshSalt).Only Ordinary := by
  have refused (http : Nat) (reason : String) : (sendProvisionError http reason).Only Ordinary :=
    ordinary_of_plain (sendProvisionError_plain http reason)
  have committed : (commitForm form).Only Ordinary := ordinary_of_plain (commitForm_plain form)
  refine only_get_bind fun _ => only_ite (refused _ _) (only_ite (refused _ _) ?_)
  refine only_tell_bind trivial (only_ite (refused _ _) ?_)
  refine only_ite (only_tell_bind trivial (refused _ _)) (only_ite ?_ ?_)
  · refine (onIdentity_ordinary _).bind fun verdict => only_ite ?_ committed
    exact ordinary_of_plain (refuseKey_plain verdict)
  · refine (onIdentity_ordinary _).bind fun _ => only_ite ?_ committed
    exact only_tell_bind trivial (refused _ _)

theorem onWrite_ordinary (write : Write) (other : write.characteristic ≠ .keyWrite) :
    (onWrite board write).Only Ordinary := by
  obtain ⟨characteristic, value, encrypted, freshSalt⟩ := write
  refine only_get_bind fun _ => ?_
  cases characteristic with
  | keyWrite => exact absurd rfl other
  | ssid => exact only_ite trivial (only_tell_bind trivial (only_tell trivial))
  | pass => exact only_ite trivial (only_tell_bind trivial (only_tell trivial))
  | wallet =>
      exact only_ite trivial
        ((writeWallet_only value freshSalt).mono fun _ wallet => walletAction_ordinary wallet)

theorem clearStagedKey_ordinary : clearStagedKey.Only Ordinary := only_tell rfl

theorem onReadKey_ordinary (freshSalt : Random16) : (onReadKey board freshSalt).Only Ordinary :=
  (onIdentity_ordinary _).bind fun _ => trivial

theorem handleSetMinerKey_ordinary (key : Text) : (handleSetMinerKey board key).Only Ordinary :=
  (onIdentity_ordinary _).bind fun _ => trivial

/-- Only a write to 09 stages a key. -/
theorem serve_ordinary (request : Request)
    (other : ∀ write, request = .write write → write.characteristic ≠ .keyWrite) :
    (request.serve board).Only Ordinary := by
  have handled : (request.handle board).Only Ordinary := by
    cases request with
    | write written => exact (onWrite_ordinary written (other written rfl)).bind fun _ => trivial
    | readKey freshSalt => exact (onReadKey_ordinary freshSalt).bind fun _ => trivial
    | connect => exact clearStagedKey_ordinary.bind fun _ => trivial
    | disconnect => exact clearStagedKey_ordinary.bind fun _ => trivial
    | tick idle =>
        have ticked : (tick idle).Only Ordinary :=
          only_get_bind fun _ => only_ite clearStagedKey_ordinary trivial
        exact ticked.bind fun _ => trivial
    | provision form apSecure freshSalt =>
        exact (handleProvision_ordinary form apSecure freshSalt).bind fun _ => trivial
    | improv ssid pass =>
        exact (ordinary_of_plain (commitWifiOnlyCredentials_plain ssid pass)).bind fun _ => trivial
    | usbKey key => exact (handleSetMinerKey_ordinary key).bind fun _ => trivial
    | keyOk ok => exact (onIdentity_ordinary _).bind fun _ => trivial
    | notify notification =>
        exact (ordinary_of_plain (notify_plain notification)).bind fun _ => trivial
    | reset => exact only_tell_bind trivial trivial
  exact Program.Only.bind (only_get_bind fun _ => only_tell_bind trivial handled) fun _ => trivial

/-- The staged key after an ordinary program, however it ends. -/
theorem ordinary_run {α : Type} {program : Prog α} (only : program.Only Ordinary) (d : Device)
    (fates : List Fate) :
    (program.run Action.apply d fates).state.pendingKey = [] ∨
      (program.run Action.apply d fates).state.pendingKey = d.pendingKey := by
  have kept : program.Maintains Action.apply (fun _ => True) (fun _ => True)
      (fun d' => d'.pendingKey = [] ∨ d'.pendingKey = d.pendingKey)
      (fun d' => d'.pendingKey = [] ∨ d'.pendingKey = d.pendingKey) := by
    refine only.maintains (fun _ _ _ _ _ => trivial) (fun action d' ordinary held => ?_)
      fun _ held => held
    cases action with
    | stageKey key => exact Or.inl ordinary
    | _ => exact held
  have ends := (kept d (Or.inr rfl)).run fun step (_ : step ∈ (program.run Action.apply d fates).steps) =>
    trivial
  cases value : (program.run Action.apply d fates).value with
  | none => exact ends.2.2 value
  | some result => exact ends.2.1 result value

theorem copyAttrValue_whole {value : List UInt8} (length : value.length = 36)
    (acceptable : Identity.isAcceptableOwnerKey (copyAttrValue value 40) = true) :
    copyAttrValue value 40 = value := by
  simp only [Identity.isAcceptableOwnerKey, Identity.hasKeyShape, Bool.and_eq_true,
    decide_eq_true_eq] at acceptable
  have all : value.take 39 = value := List.take_of_length_le (by omega)
  have front : (value.take 39).takeWhile (· ≠ 0) <+: value.take 39 := List.takeWhile_prefix _
  have whole := front.eq_of_length (acceptable.1.1.trans (by rw [all, length]))
  exact whole.trans all

/-- The key that an accepted write stages is the value written. -/
theorem accepted_write {s : Store} {value : List UInt8}
    (accepted : (if value.length = 36 then checkOwnerKey board s (copyAttrValue value 40) .ble
      else .badKey) = .accept) :
    copyAttrValue value 40 = value ∧ checkOwnerKey board s value .ble = .accept := by
  split at accepted
  · next length =>
    have whole := copyAttrValue_whole length (Identity.evaluate_accept accepted).1
    exact ⟨whole, whole ▸ accepted⟩
  · cases accepted

/-- What a write to 09 leaves staged. -/
def KeyWriteStages (board : Board) (d : Device) (value : List UInt8) (encrypted : Bool) (d' : Device) :
    Prop :=
  d'.pendingKey = [] ∨ d'.pendingKey = d.pendingKey ∨
    (encrypted = true ∧ value = d'.pendingKey ∧
      checkOwnerKey board d.identity.store d'.pendingKey .ble = .accept)

theorem holds_writeKey (d : Device) (value : List UInt8) (encrypted : Bool) :
    (writeKey board value encrypted).Holds Action.apply (fun _ => True) (fun _ => True)
      (fun _ => True) (fun _ => KeyWriteStages board d value encrypted) d := by
  have same : KeyWriteStages board d value encrypted d := Or.inr (Or.inl rfl)
  refine holds_ite (fun _ => same) fun secured => holds_get_bind (holds_ite (fun _ => same) fun _ => ?_)
  refine holds_ite (fun accepted => ?_) fun _ => ?_
  · obtain ⟨whole, taken⟩ := accepted_write accepted
    refine holds_tell trivial (Or.inr (Or.inr ⟨by simpa using secured, whole.symm, ?_⟩))
    exact (congrArg (fun key => checkOwnerKey board d.identity.store key .ble) whole).trans taken
  · exact holds_tell_bind trivial (holds_tell trivial (Or.inl rfl))

theorem holds_keyWrite (d : Device) (value : List UInt8) (encrypted : Bool) (freshSalt : Random16) :
    ((Request.write ⟨.keyWrite, value, encrypted, freshSalt⟩).serve board).Holds Action.apply
      (fun _ => True) (fun _ => True) (fun _ => True)
      (fun _ => KeyWriteStages board d value encrypted) d := by
  let offered : Device := { d with offer := none }
  refine holds_map (fun _ => ()) (holds_get_bind (holds_tell_bind trivial ?_))
  refine holds_map (fun _ => none) (holds_get_bind ?_)
  exact (holds_writeKey offered value encrypted).mono fun _ _ held => held

/-- The request ran to its end and leaves the connection as it is. -/
def Carries (board : Board) (d : Device) (request : Request × List Fate) : Prop :=
  request.1 ≠ .connect ∧ request.1 ≠ .disconnect ∧
    ((request.1.serve board).run Action.apply d request.2).value.isSome = true

/-- Between these requests the connection stays up and the power on. -/
def Uninterrupted (board : Board) (d : Device) : List (Request × List Fate) → Prop
  | [] => True
  | request :: rest => Carries board d request ∧ Uninterrupted board (runAll board d [request]) rest

theorem Uninterrupted.snoc {d : Device} {requests : List (Request × List Fate)}
    {request : Request × List Fate} (held : Uninterrupted board d requests)
    (carries : Carries board (runAll board d requests) request) :
    Uninterrupted board d (requests ++ [request]) := by
  induction requests generalizing d with
  | nil => exact ⟨carries, trivial⟩
  | cons first rest ih => exact ⟨held.1, ih held.2 carries⟩

/-- What a request leaves staged: nothing, or what was, or the accepted value that was written. -/
def StagedBy (board : Board) (d : Device) (request : Request × List Fate) (d' : Device) : Prop :=
  d'.pendingKey = [] ∨ (d'.pendingKey = d.pendingKey ∧ Carries board d request) ∨
    ∃ write, request.1 = .write write ∧ write.characteristic = .keyWrite ∧ write.encrypted = true ∧
      write.value = d'.pendingKey ∧ checkOwnerKey board d.identity.store d'.pendingKey .ble = .accept

theorem run_staged (d : Device) (request : Request) (fates : List Fate)
    (finished : ((request.serve board).run Action.apply d fates).value.isSome = true) :
    StagedBy board d (request, fates) ((request.serve board).run Action.apply d fates).state := by
  have ordinary (stays : request ≠ .connect ∧ request ≠ .disconnect)
      (other : ∀ write, request = .write write → write.characteristic ≠ .keyWrite) :
      StagedBy board d (request, fates) ((request.serve board).run Action.apply d fates).state := by
    obtain cleared | kept := ordinary_run (serve_ordinary request other) d fates
    · exact Or.inl cleared
    · exact Or.inr (Or.inl ⟨kept, stays.1, stays.2, finished⟩)
  cases request with
  | connect => exact Or.inl rfl
  | disconnect => exact Or.inl rfl
  | write written =>
      obtain ⟨characteristic, value, encrypted, freshSalt⟩ := written
      by_cases keyWrite : characteristic = .keyWrite
      · subst keyWrite
        obtain ⟨result, ended⟩ := Option.isSome_iff_exists.mp finished
        obtain cleared | kept | ⟨secured, whole, accepted⟩ :=
          ((holds_keyWrite d value encrypted freshSalt).run fun _ _ => trivial).2.1 result ended
        · exact Or.inl cleared
        · exact Or.inr (Or.inl ⟨kept, nofun, nofun, finished⟩)
        · exact Or.inr (Or.inr ⟨_, rfl, rfl, secured, whole, accepted⟩)
      · refine ordinary ⟨nofun, nofun⟩ ?_
        rintro _ ⟨rfl⟩
        exact keyWrite
  | readKey | tick | provision | improv | usbKey | keyOk | notify | reset =>
      exact ordinary ⟨nofun, nofun⟩ nofun

theorem serve_staged (d : Device) (request : Request × List Fate) :
    StagedBy board d request (runAll board d [request]) := by
  obtain ⟨request, fates⟩ := request
  show StagedBy board d (request, fates) (if _ then _ else _)
  split
  · next finished => exact run_staged d request fates finished
  · exact Or.inl rfl

/-- The key was written to 09 over an encrypted link, accepted, and the connection of that
write is still up. -/
def Provenance (board : Board) (d : Device) (requests : List (Request × List Fate)) (key : Text) :
    Prop :=
  ∃ before write fates since, requests = before ++ (.write write, fates) :: since ∧
    write.characteristic = .keyWrite ∧ write.encrypted = true ∧ write.value = key ∧
    checkOwnerKey board (runAll board d before).identity.store key .ble = .accept ∧
    Uninterrupted board (runAll board d (before ++ [(.write write, fates)])) since

theorem runAll_append (d : Device) (front back : List (Request × List Fate)) :
    runAll board d (front ++ back) = runAll board (runAll board d front) back :=
  List.foldl_append

/-- Whatever is staged was accepted on this connection. -/
theorem staged_provenance {d : Device} (fresh : d.pendingKey = [])
    (requests : List (Request × List Fate)) (staged : (runAll board d requests).pendingKey ≠ []) :
    Provenance board d requests (runAll board d requests).pendingKey := by
  induction requests using List.reverseRecOn with
  | nil => exact absurd fresh staged
  | append_singleton requests request ih =>
      rw [runAll_append] at staged ⊢
      obtain cleared | ⟨kept, carries⟩ | ⟨write, written, keyWrite, secured, whole, accepted⟩ :=
        serve_staged (runAll board d requests) request
      · exact absurd cleared staged
      · rw [kept] at staged ⊢
        obtain ⟨before, write, fates, since, rfl, keyWrite, secured, whole, accepted, held⟩ := ih staged
        refine ⟨before, write, fates, since ++ [request], by simp, keyWrite, secured, whole, accepted, ?_⟩
        refine held.snoc ?_
        rwa [← runAll_append, List.append_assoc]
      · obtain ⟨_, fates⟩ := request
        obtain rfl := written
        exact ⟨requests, write, fates, [], rfl, keyWrite, secured, whole, accepted, trivial⟩

/-! ## The wallet write -/

/-- Of the miner keys, the step stores this one at most, and only if it is one. -/
def StoresKey (key : Text) (step : Step Device Action) : Prop :=
  ∀ writer stored, step.action = .identity (.setMinerKey writer stored) → key ≠ [] ∧ stored = key

theorem storesKey_plain {α : Type} {program : Prog α} (only : program.Only Plain) (key : Text)
    (d : Device) :
    program.Holds Action.apply (fun _ => True) (StoresKey key) (fun _ => True) (fun _ _ => True) d := by
  have kept : program.Maintains Action.apply (fun _ => True) (StoresKey key) (fun _ => True)
      (fun _ => True) := by
    refine only.maintains ?_ (fun _ _ _ _ => trivial) fun _ _ => trivial
    rintro action ending s plain - writer stored rfl
    cases plain
  exact kept d trivial

theorem storesKey_onIdentity {α : Type} {program : Identity.Prog α} {d : Device} {key : Text}
    {required : Step Identity.World Identity.Action → Prop} {crash : Identity.World → Prop}
    {post : α → Identity.World → Prop}
    (holds : program.Holds Identity.Action.apply (fun _ => True) required crash post d.identity)
    (only : ∀ step, required step → ∀ writer stored, step.action = .setMinerKey writer stored →
      key ≠ [] ∧ stored = key) :
    (onIdentity program).Holds Action.apply (fun _ => True) (StoresKey key) (fun _ => True)
      (fun value d' => ∃ identity, d' = { d with identity := identity } ∧ post value identity) d := by
  refine identityComponent.holds_zoom holds (fun _ _ _ _ => trivial) ?_ fun _ _ => trivial
  rintro s action ending held writer stored ⟨⟩
  exact only _ held writer stored rfl

/-- A wallet write stores the staged key and no other. -/
theorem holds_writeWallet {d : Device} (settled : d.KeySettled board) (value : List UInt8)
    (freshSalt : Random16) :
    (writeWallet board value freshSalt).Holds Action.apply (fun _ => True) (StoresKey d.pendingKey)
      (fun _ => True) (fun _ _ => True) d := by
  have committed (given : ProvInputs) (wallet : Text) (s : Device) :
      (commitStaged given wallet).Holds Action.apply (fun _ => True) (StoresKey d.pendingKey)
        (fun _ => True) (fun _ _ => True) s :=
    storesKey_plain (commitStaged_plain given wallet) _ s
  have fed (ev : ProvEvent) (given : ProvInputs) (s : Device) :
      (feed ev given).Holds Action.apply (fun _ => True) (StoresKey d.pendingKey)
        (fun _ => True) (fun _ _ => True) s :=
    storesKey_plain (feed_plain ev given) _ s
  refine holds_get_bind (holds_ite (fun _ => ?_) fun _ => committed _ _ d)
  have ensured : (Identity.ensureMinerKey board freshSalt).Holds Identity.Action.apply (fun _ => True)
      (fun _ => False) (fun _ => True) (fun _ w' => w' = d.identity) d.identity :=
    holds_ensureMinerKey freshSalt settled
  refine (storesKey_onIdentity ensured fun _ nothing => nothing.elim).bind ?_
  rintro stored _ ⟨_, rfl, rfl⟩
  refine holds_get_bind (holds_ite (fun _ => fed _ _ _) fun _ => ?_)
  refine holds_ite (fun staged => ?_) fun _ => committed _ _ _
  refine (storesKey_onIdentity (holds_setOwnerKey d.pendingKey .ble settled) ?_).bind fun verdict s _ => ?_
  · intro step only writer stored action
    exact ⟨staged, only writer stored action⟩
  · refine holds_tell_bind (fun _ _ => nofun) ?_
    exact holds_ite (fun _ => fed _ _ _) fun _ => committed _ _ _

/-- The machine is told of a missing or a refused key. -/
def RefusesKey : Action → Prop
  | .feed .keyMissing _ => True
  | .feed .keyRejected _ => True
  | _ => False

/-- Credentials, wallet or marker are written. -/
def PersistsCommit : Action → Prop
  | .putSsid _ => True
  | .putPass _ => True
  | .putWallet _ => True
  | .putProvDone => True
  | _ => False

/-- A wallet write refuses the key or persists the commit, never both. -/
theorem writeWallet_splits (value : List UInt8) (freshSalt : Random16) :
    (writeWallet board value freshSalt).Splits Action.apply (fun action => ¬ PersistsCommit action)
      fun action => ¬ RefusesKey action := by
  have persists : (commitStaged { walletValid := value.length = 58 } (copyAttrValue value 64)).Splits
      Action.apply (fun action => ¬ PersistsCommit action) fun action => ¬ RefusesKey action := by
    refine splits_second (only_get_bind fun _ => ?_)
    have wifi (ssid pass : Text) : (setWifi ssid pass).Only fun action => ¬ RefusesKey action :=
      only_put_bind id fun _ => only_put_bind id fun _ => trivial
    have wallet (wallet : Text) : (setWallet wallet).Only fun action => ¬ RefusesKey action :=
      only_put_bind id fun _ => trivial
    refine only_ite (Program.Only.bind (only_get_bind fun d => ?_) fun _ => only_tell id) (only_tell id)
    exact (wifi _ _).bind fun _ => wallet _
  have refuses (ev : ProvEvent) (given : ProvInputs) : (feed ev given).Splits Action.apply
      (fun action => ¬ PersistsCommit action) fun action => ¬ RefusesKey action :=
    splits_first (only_tell id)
  have either {α : Type} (program : Identity.Prog α) : (onIdentity program).Only fun action =>
      ¬ PersistsCommit action ∧ ¬ RefusesKey action :=
    identityComponent.zoom_only (only_anything program) fun _ _ => ⟨id, id⟩
  refine splits_get_bind fun _ => splits_ite ?_ persists
  refine splits_bind (either _) fun _ => splits_get_bind fun _ => splits_ite (refuses _ _) ?_
  refine splits_ite (splits_bind (either _) fun verdict => ?_) persists
  exact splits_bind (only_tell ⟨id, id⟩) fun _ => splits_ite (refuses _ _) persists

/-! ## Whole runs -/

/-- Each miner key that a wallet write stores has a provenance. -/
def CommittedKeysHaveProvenance (board : Board) (d : Device) (requests : List (Request × List Fate)) :
    Prop :=
  ∀ front write fates back, requests = front ++ (.write write, fates) :: back →
    write.characteristic = .wallet →
    ∀ step ∈ (((Request.write write).serve board).run Action.apply (runAll board d front) fates).steps,
    ∀ writer key, step.action = .identity (.setMinerKey writer key) → Provenance board d front key

/-- A write to 09 over an unencrypted link changes nothing. -/
def PlainKeyWritesIgnored (board : Board) (d : Device) (requests : List (Request × List Fate)) : Prop :=
  ∀ front write fates back, requests = front ++ (.write write, fates) :: back →
    write.characteristic = .keyWrite → write.encrypted = false →
    runAll board d (front ++ [(.write write, fates)]) = { runAll board d front with offer := none }

/-- A wallet write that is refused for the key writes no credentials and no wallet. -/
def RefusedCommitsPersistNothing (board : Board) (d : Device) (requests : List (Request × List Fate)) :
    Prop :=
  ∀ front write fates back, requests = front ++ (.write write, fates) :: back →
    write.characteristic = .wallet →
    let steps := (((Request.write write).serve board).run Action.apply (runAll board d front) fates).steps
    (∃ step ∈ steps, RefusesKey step.action) → ∀ step ∈ steps, ¬ PersistsCommit step.action

theorem serve_wallet (d : Device) (value : List UInt8) (encrypted : Bool) (freshSalt : Random16)
    (settled : d.KeySettled board) :
    ((Request.write ⟨.wallet, value, encrypted, freshSalt⟩).serve board).Holds Action.apply
      (fun _ => True) (StoresKey d.pendingKey) (fun _ => True) (fun _ _ => True) d := by
  refine holds_map (fun _ => ()) (holds_get_bind (holds_tell_bind (fun _ _ => nofun) ?_))
  refine holds_map (fun _ => none) (holds_get_bind (holds_ite (fun _ => trivial) fun _ => ?_))
  have offered : Device.KeySettled board
    { d with offer := some ⟨d.pendingSsid, d.pendingPass, some (copyAttrValue value 64)⟩ } := settled
  exact holds_writeWallet offered value freshSalt

theorem serve_wallet_splits (value : List UInt8) (encrypted : Bool) (freshSalt : Random16) :
    ((Request.write ⟨.wallet, value, encrypted, freshSalt⟩).serve board).Splits Action.apply
      (fun action => ¬ PersistsCommit action) fun action => ¬ RefusesKey action := by
  refine splits_map (fun _ => ()) (splits_get_bind fun _ => splits_bind (only_tell ⟨id, id⟩) fun _ => ?_)
  refine splits_map (fun _ => none) (splits_get_bind fun _ => splits_ite ?_ ?_)
  · exact splits_first trivial
  · exact writeWallet_splits value freshSalt

/-- Over every run of a started board a wallet write commits only keys that this connection
wrote over an encrypted link and the board accepted. -/
theorem staged_key_provenance (board : Board) (freshSalt : Random16) (d : Device)
    (requests : List (Request × List Fate)) :
    CommittedKeysHaveProvenance board (startUp board freshSalt d) requests ∧
      PlainKeyWritesIgnored board (startUp board freshSalt d) requests ∧
      RefusedCommitsPersistNothing board (startUp board freshSalt d) requests := by
  refine ⟨?_, ?_, ?_⟩
  · rintro front ⟨characteristic, value, encrypted, salt⟩ fates back - wallet step member writer key action
    obtain rfl : characteristic = .wallet := wallet
    have settled : (runAll board (startUp board freshSalt d) front).KeySettled board :=
      run_settled (startUp_settled freshSalt d) front
    have stores := ((serve_wallet _ value encrypted salt settled).run fun _ _ => trivial).1 step member
    obtain ⟨staged, rfl⟩ := stores writer key action
    exact staged_provenance rfl front staged
  · rintro front ⟨characteristic, value, encrypted, salt⟩ fates back - keyWrite plain
    obtain rfl : characteristic = .keyWrite := keyWrite
    obtain rfl : encrypted = false := plain
    rw [runAll_append]
    rfl
  · rintro front ⟨characteristic, value, encrypted, salt⟩ fates back - wallet steps ⟨refusal, member, refuses⟩
    obtain rfl : characteristic = .wallet := wallet
    obtain persists | accepts := serve_wallet_splits value encrypted salt _ fates
    · exact persists
    · exact absurd refuses (accepts refusal member)

end FryFirmware.Provisioning
