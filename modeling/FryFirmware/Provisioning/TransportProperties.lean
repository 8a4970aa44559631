import FryFirmware.Identity.MinerKeyProperties
import FryFirmware.Provisioning.FsmProperties
import FryFirmware.Provisioning.Transports
import Mathlib.Data.List.Basic
import Mathlib.Tactic.Common

/-!
# What is stored while the machine connects

Each handler persists a commit before it feeds it, so that in every state in between
a machine that is ready to connect finds the credentials of the last accepted commit.
-/

set_option autoImplicit false

namespace FryFirmware.Provisioning

open Lib Config
open Lib.Program (get put tell)
open Identity (Board KeyTransport KeyWriteVerdict Random16 keyAllowsJoin)

/-! ## The invariant -/

/-- The credentials of the commit are stored, with its wallet or the marker. -/
def Device.Stores (d : Device) (commit : Commit) : Prop :=
  d.ssid = some commit.ssid ∧ d.pass = some commit.pass ∧
    match commit.wallet with
    | some wallet => d.wallet = some wallet
    | none => d.provDone = some true

structure Sound (d : Device) : Prop where
  settled : d.fsm.Settled
  ready : d.fsm.state = .connecting → ∃ commit, d.accepted = some commit ∧ d.Stores commit

variable {d : Device}

theorem sound_reboot (d : Device) : Sound d.reboot := ⟨ProvisioningFsm.settled_initially, nofun⟩

theorem sound_booted (booted : d.Booted) : Sound d := booted ▸ sound_reboot d

/-- While no join is to come the store may change. -/
theorem sound_unready {d' : Device} (sound : Sound d) (same : d'.fsm = d.fsm)
    (unready : d.fsm.state ≠ .connecting) : Sound d' := by
  refine ⟨same ▸ sound.settled, fun connecting => ?_⟩
  rw [same] at connecting
  exact absurd connecting unready

theorem unready_of (provisioning : d.fsm.state = .provisioning) : d.fsm.state ≠ .connecting := by
  simp [provisioning]

/-- An event that commits nothing. -/
theorem sound_feed (sound : Sound d) {ev : ProvEvent} {given : ProvInputs}
    (nothing : d.fsm.state = .provisioning →
      ¬ (ev = .wifiOnlyCommit ∨ ev = .walletWritten ∧ given.walletValid = true)) :
    Sound (Action.apply (.feed ev given) d) := by
  refine ⟨ProvisioningFsm.feed_settled sound.settled ev given, fun connecting => ?_⟩
  obtain ⟨before, _⟩ | ⟨before, _, commits⟩ := ProvisioningFsm.feed_connecting connecting
  · obtain ⟨commit, accepted, stores⟩ := sound.ready before
    have still : d.enters (d.fsm.feed ev given) = false := by
      simp [Device.enters, ProvisioningFsm.readyToConnect, before]
    refine ⟨commit, ?_, stores⟩
    rw [← accepted]
    exact if_neg (by simp [still])
  · exact absurd commits (nothing before)

/-- The event that commits what is stored already. -/
theorem sound_commit (sound : Sound d) {ev : ProvEvent} {given : ProvInputs} {commit : Commit}
    (provisioning : d.fsm.state = .provisioning) (offer : d.offer = some commit)
    (stores : d.Stores commit) : Sound (Action.apply (.feed ev given) d) := by
  refine ⟨ProvisioningFsm.feed_settled sound.settled ev given, fun connecting => ?_⟩
  have entered : d.enters (d.fsm.feed ev given) = true := by
    have ready : (d.fsm.feed ev given).state = .connecting := connecting
    simp [Device.enters, ProvisioningFsm.readyToConnect, provisioning, ready]
  exact ⟨commit, (if_pos entered).trans offer, stores⟩

/-! ## Programs that keep it visible -/

/-- With a store that takes every write, all states of the run are sound. -/
abbrev Visible {α : Type} (program : Prog α) (post : α → Device → Prop) (d : Device) : Prop :=
  program.Holds Action.apply Step.Took (Step.Keeps Action.apply Sound) (fun d => Sound d.reboot) post d

theorem visible_feed (sound : Sound d) {ev : ProvEvent} {given : ProvInputs}
    (nothing : d.fsm.state = .provisioning →
      ¬ (ev = .wifiOnlyCommit ∨ ev = .walletWritten ∧ given.walletValid = true)) :
    Visible (feed ev given) (fun _ d' => d' = Action.apply (.feed ev given) d ∧ Sound d') d :=
  holds_tell_keeps sound (sound_feed sound nothing) ⟨rfl, sound_feed sound nothing⟩

theorem visible_stageKey (sound : Sound d) (key : Text) :
    Visible (tell (.stageKey key)) (fun _ => Sound) d :=
  holds_tell_keeps sound ⟨sound.settled, sound.ready⟩ ⟨sound.settled, sound.ready⟩

/-- The identity programs touch nothing that the invariant speaks of. -/
theorem visible_onIdentity {α : Type} (program : Identity.Prog α) (sound : Sound d) :
    Visible (onIdentity program) (fun _ d' => ∃ identity, d' = { d with identity := identity } ∧ Sound d')
      d := by
  have kept (identity : Identity.World) : Sound { d with identity := identity } :=
    ⟨sound.settled, sound.ready⟩
  have alone : program.Holds Identity.Action.apply (fun _ => True) (fun _ => True) (fun _ => True)
      (fun _ _ => True) d.identity := holds_trivially program d.identity
  refine (identityComponent.holds_zoom alone (fun _ _ _ _ => trivial) ?_
    fun _ _ => sound_reboot _).mono ?_
  · intro identity action ending _
    refine ⟨kept identity, ?_⟩
    cases ending <;> exact kept _
  · rintro _ _ ⟨identity, rfl, _⟩
    exact ⟨identity, rfl, kept identity⟩

/-! ## Commits -/

theorem visible_setWifi (sound : Sound d) (unready : d.fsm.state ≠ .connecting) (ssid pass : Text) :
    Visible (setWifi ssid pass)
      (fun _ d' => d' = { d with ssid := some ssid, pass := some pass } ∧ Sound d') d := by
  have first : Sound { d with ssid := some ssid } := sound_unready sound rfl unready
  have second : Sound { d with ssid := some ssid, pass := some pass } := sound_unready sound rfl unready
  refine holds_put_bind (fun _ => ⟨⟨sound, first⟩, ?_⟩) nofun nofun
  exact holds_put_bind (fun _ => ⟨⟨first, second⟩, rfl, second⟩) nofun nofun

theorem visible_persistWallet (sound : Sound d) (unready : d.fsm.state ≠ .connecting)
    (ssid pass wallet : Text) :
    Visible (do
        setWifi ssid pass
        setWallet wallet)
      (fun _ d' => d' = { d with ssid := some ssid, pass := some pass, wallet := some wallet } ∧ Sound d')
      d := by
  refine (visible_setWifi sound unready ssid pass).bind ?_
  rintro _ _ ⟨rfl, before⟩
  have after : Sound { d with ssid := some ssid, pass := some pass, wallet := some wallet } :=
    sound_unready sound rfl unready
  exact holds_put_bind (fun _ => ⟨⟨before, after⟩, rfl, after⟩) nofun nofun

theorem visible_persistMarker (sound : Sound d) (unready : d.fsm.state ≠ .connecting)
    (ssid pass : Text) :
    Visible (do
        setWifi ssid pass
        setProvDone)
      (fun _ d' => d' = { d with ssid := some ssid, pass := some pass, provDone := some true } ∧ Sound d')
      d := by
  refine (visible_setWifi sound unready ssid pass).bind ?_
  rintro _ _ ⟨rfl, before⟩
  have after : Sound { d with ssid := some ssid, pass := some pass, provDone := some true } :=
    sound_unready sound rfl unready
  exact holds_put_bind (fun _ => ⟨⟨before, after⟩, rfl, after⟩) nofun nofun

/-- A persisted commit may be fed. -/
theorem visible_commitOnWallet {persist : Prog Unit} {commit : Commit} (sound : Sound d)
    (offer : d.offer = some commit) (given : ProvInputs)
    (persists : d.fsm.state = .provisioning → Visible persist
      (fun _ d' => d'.fsm = d.fsm ∧ d'.offer = d.offer ∧ d'.Stores commit ∧ Sound d') d) :
    Visible (commitOnWallet given persist) (fun _ => Sound) d := by
  refine holds_get_bind ?_
  dsimp only
  split
  · next accepted =>
    refine (persists accepted.1).bind fun _ d' ⟨fsm, same, stores, sound'⟩ => ?_
    have after : Sound (Action.apply (.feed .walletWritten given) d') :=
      sound_commit sound' (fsm ▸ accepted.1) (same ▸ offer) stores
    exact holds_tell_keeps sound' after after
  · next refused =>
    refine (visible_feed sound fun provisioning commits => ?_).mono fun _ _ both => both.2
    obtain event | ⟨_, valid⟩ := commits
    · cases event
    · exact refused ⟨provisioning, valid⟩

theorem visible_commitWifiOnly {persist : Prog Unit} {commit : Commit} (sound : Sound d)
    (offer : d.offer = some commit)
    (persists : d.fsm.state = .provisioning → Visible persist
      (fun _ d' => d'.fsm = d.fsm ∧ d'.offer = d.offer ∧ d'.Stores commit ∧ Sound d') d) :
    Visible (commitWifiOnly persist) (fun _ => Sound) d := by
  refine holds_get_bind ?_
  dsimp only
  split
  · next provisioning =>
    refine (persists provisioning).bind fun _ d' ⟨fsm, same, stores, sound'⟩ => ?_
    have after : Sound (Action.apply (.feed .wifiOnlyCommit {}) d') :=
      sound_commit sound' (fsm ▸ provisioning) (same ▸ offer) stores
    exact holds_tell_keeps sound' after after
  · next other =>
    exact (visible_feed sound fun provisioning => absurd provisioning other).mono fun _ _ both => both.2

/-! ## The handlers -/

theorem visible_commitStaged {wallet : Text} (sound : Sound d)
    (offer : d.offer = some ⟨d.pendingSsid, d.pendingPass, some wallet⟩) (given : ProvInputs) :
    Visible (commitStaged given wallet) (fun _ => Sound) d := by
  refine visible_commitOnWallet sound offer given fun provisioning => holds_get_bind ?_
  refine (visible_persistWallet sound (unready_of provisioning) d.pendingSsid d.pendingPass wallet).mono ?_
  rintro _ _ ⟨rfl, sound'⟩
  exact ⟨rfl, rfl, ⟨rfl, rfl, rfl⟩, sound'⟩

theorem visible_rejectKey (sound : Sound d) (verdict : KeyWriteVerdict) :
    Visible (rejectKey verdict) (fun _ => Sound) d :=
  (visible_feed sound fun _ => by simp).mono fun _ _ both => both.2

theorem visible_writeWallet (board : Board) (value : List UInt8) (freshSalt : Random16)
    (sound : Sound d)
    (offer : d.offer = some ⟨d.pendingSsid, d.pendingPass, some (copyAttrValue value 64)⟩) :
    Visible (writeWallet board value freshSalt) (fun _ => Sound) d := by
  refine holds_get_bind ?_
  dsimp only
  split
  · refine (visible_onIdentity (Identity.ensureMinerKey board freshSalt) sound).bind ?_
    rintro stored _ ⟨identity, rfl, sound⟩
    refine holds_get_bind ?_
    dsimp only
    split
    · exact (visible_feed sound fun _ => by simp).mono fun _ _ both => both.2
    · split
      · refine (visible_onIdentity (Identity.setOwnerKey board d.pendingKey .ble) sound).bind ?_
        rintro verdict _ ⟨changed, rfl, sound⟩
        refine holds_tell_bind ⟨sound, ⟨sound.settled, sound.ready⟩⟩ ?_
        have sound : Sound { d with identity := changed, pendingKey := [] } :=
          ⟨sound.settled, sound.ready⟩
        split
        · exact visible_rejectKey sound verdict
        · exact visible_commitStaged sound offer _
      · exact visible_commitStaged sound offer _
  · exact visible_commitStaged sound offer _

theorem visible_writeKey (board : Board) (value : List UInt8) (encrypted : Bool) (sound : Sound d) :
    Visible (writeKey board value encrypted) (fun _ => Sound) d := by
  refine holds_ite (fun _ => sound) fun _ => holds_get_bind (holds_ite (fun _ => sound) fun _ => ?_)
  refine holds_ite (fun _ => visible_stageKey sound _) fun _ => ?_
  exact (visible_stageKey sound []).bind fun _ _ sound' => visible_rejectKey sound' _

theorem visible_onWrite (board : Board) (write : Write) (sound : Sound d)
    (offer : d.offer = (Request.write write).offer d) :
    Visible (onWrite board write) (fun _ => Sound) d := by
  obtain ⟨characteristic, value, encrypted, freshSalt⟩ := write
  refine holds_get_bind ?_
  cases characteristic with
  | keyWrite => exact visible_writeKey board value encrypted sound
  | ssid =>
      refine holds_ite (fun _ => sound) fun _ => ?_
      have staged : Sound { d with pendingSsid := copyAttrValue value 33 } :=
        ⟨sound.settled, sound.ready⟩
      refine holds_tell_bind ⟨sound, staged⟩ ?_
      exact (visible_feed staged fun _ => by simp).mono fun _ _ both => both.2
  | pass =>
      refine holds_ite (fun _ => sound) fun _ => ?_
      have staged : Sound { d with pendingPass := copyAttrValue value 65 } :=
        ⟨sound.settled, sound.ready⟩
      refine holds_tell_bind ⟨sound, staged⟩ ?_
      exact (visible_feed staged fun _ => by simp).mono fun _ _ both => both.2
  | wallet =>
      exact holds_ite (fun _ => sound) fun _ => visible_writeWallet board value freshSalt sound offer

theorem visible_sendProvisionError (sound : Sound d) (http : Nat) (reason : String) :
    Visible (sendProvisionError http reason) (fun _ => Sound) d :=
  sound

theorem visible_refuseKey (sound : Sound d) (verdict : KeyWriteVerdict) :
    Visible (refuseKey verdict) (fun _ => Sound) d := by
  refine (visible_rejectKey sound verdict).bind fun _ d' sound' => ?_
  cases verdict <;> exact visible_sendProvisionError sound' _ _

theorem visible_commitForm (form : Form) (sound : Sound d)
    (offer : d.offer = some ⟨cString form.ssid, cString form.pass, some (cString form.wallet)⟩) :
    Visible (commitForm form) (fun _ => Sound) d := by
  refine (visible_commitOnWallet sound offer _ fun provisioning => ?_).bind fun _ _ sound' => sound'
  refine (visible_persistWallet sound (unready_of provisioning) _ _ _).mono ?_
  rintro _ _ ⟨rfl, sound'⟩
  exact ⟨rfl, rfl, ⟨rfl, rfl, rfl⟩, sound'⟩

theorem visible_handleProvision (board : Board) (form : Form) (apSecure : Bool) (freshSalt : Random16)
    (sound : Sound d)
    (offer : d.offer = some ⟨cString form.ssid, cString form.pass, some (cString form.wallet)⟩) :
    Visible (handleProvision board form apSecure freshSalt) (fun _ => Sound) d := by
  refine holds_get_bind (holds_ite (fun _ => visible_sendProvisionError sound _ _) fun _ => ?_)
  refine holds_ite (fun _ => visible_sendProvisionError sound _ _) fun _ => ?_
  refine (visible_feed sound fun _ => by simp).bind ?_
  rintro _ _ ⟨rfl, sound⟩
  refine holds_ite (fun _ => visible_sendProvisionError sound _ _) fun _ => ?_
  refine holds_ite (fun invalid => ?_) fun _ => holds_ite (fun _ => ?_) fun _ => ?_
  · refine (visible_feed sound fun _ => ?_).bind fun _ _ both => visible_sendProvisionError both.2 _ _
    simpa using invalid
  · refine (visible_onIdentity (Identity.setOwnerKey board _ _) sound).bind ?_
    rintro verdict _ ⟨identity, rfl, sound⟩
    exact holds_ite (fun _ => visible_refuseKey sound verdict) fun _ => visible_commitForm form sound offer
  · refine (visible_onIdentity (Identity.ensureMinerKey board freshSalt) sound).bind ?_
    rintro stored _ ⟨identity, rfl, sound⟩
    refine holds_ite (fun _ => ?_) fun _ => visible_commitForm form sound offer
    exact (visible_feed sound fun _ => by simp).bind fun _ _ both =>
      visible_sendProvisionError both.2 _ _

theorem visible_commitWifiOnlyCredentials (ssid pass : Option Text) (sound : Sound d)
    (offer : d.offer = (Request.improv ssid pass).offer d) :
    Visible (commitWifiOnlyCredentials ssid pass) (fun _ => Sound) d := by
  cases ssid with
  | none => exact sound
  | some ssid =>
      have restarted : Visible resetForWifiOnlyCommit (fun _ d' => d'.offer = d.offer ∧ Sound d') d := by
        refine holds_get_bind ?_
        split
        · refine (visible_feed sound fun _ => by simp).mono ?_
          rintro _ _ ⟨rfl, sound'⟩
          exact ⟨rfl, sound'⟩
        · exact ⟨rfl, sound⟩
      refine restarted.bind fun _ e ⟨same, sound⟩ => ?_
      dsimp only
      refine (visible_feed sound fun _ => by simp).bind ?_
      rintro _ _ ⟨rfl, sound⟩
      split
      · exact sound
      · refine (visible_commitWifiOnly sound (same.trans offer) fun provisioning => ?_).bind
          fun _ _ sound' => sound'
        refine (visible_persistMarker sound (unready_of provisioning) _ _).mono ?_
        rintro _ _ ⟨rfl, sound'⟩
        exact ⟨rfl, rfl, ⟨rfl, rfl, rfl⟩, sound'⟩

theorem visible_clearStagedKey (sound : Sound d) : Visible clearStagedKey (fun _ => Sound) d :=
  visible_stageKey sound []

theorem visible_tick (idle : Bool) (sound : Sound d) : Visible (tick idle) (fun _ => Sound) d :=
  holds_get_bind (holds_ite (fun _ => visible_clearStagedKey sound) fun _ => sound)

theorem visible_onReadKey (board : Board) (freshSalt : Random16) (sound : Sound d) :
    Visible (onReadKey board freshSalt) (fun _ => Sound) d :=
  (visible_onIdentity (Identity.ensureMinerKey board freshSalt) sound).bind
    fun _ _ ⟨_, _, sound'⟩ => sound'

theorem visible_handleSetMinerKey (board : Board) (key : Text) (sound : Sound d) :
    Visible (handleSetMinerKey board key) (fun _ => Sound) d :=
  (visible_onIdentity (Identity.setOwnerKey board (cString key) .usb) sound).bind
    fun _ _ ⟨_, _, sound'⟩ => sound'

theorem visible_setKeyOk (ok : Bool) (sound : Sound d) : Visible (setKeyOk ok) (fun _ => Sound) d :=
  (visible_onIdentity _ sound).mono fun _ _ ⟨_, _, sound'⟩ => sound'

theorem visible_notify (notification : Notification) (sound : Sound d) :
    Visible (notify notification) (fun _ => Sound) d := by
  cases notification <;> exact (visible_feed sound fun _ => by simp).mono fun _ _ both => both.2

theorem visible_handle (board : Board) (request : Request) (sound : Sound d)
    (offer : d.offer = request.offer d) : Visible (request.handle board) (fun _ => Sound) d := by
  cases request with
  | write written => exact (visible_onWrite board written sound offer).bind fun _ _ sound' => sound'
  | readKey freshSalt => exact (visible_onReadKey board freshSalt sound).bind fun _ _ sound' => sound'
  | connect => exact (visible_clearStagedKey sound).bind fun _ _ sound' => sound'
  | disconnect => exact (visible_clearStagedKey sound).bind fun _ _ sound' => sound'
  | tick idle => exact (visible_tick idle sound).bind fun _ _ sound' => sound'
  | provision form apSecure freshSalt =>
      exact (visible_handleProvision board form apSecure freshSalt sound offer).bind
        fun _ _ sound' => sound'
  | improv ssid pass =>
      exact (visible_commitWifiOnlyCredentials ssid pass sound offer).bind fun _ _ sound' => sound'
  | usbKey key => exact (visible_handleSetMinerKey board key sound).bind fun _ _ sound' => sound'
  | keyOk ok => exact (visible_setKeyOk ok sound).bind fun _ _ sound' => sound'
  | notify notification => exact (visible_notify notification sound).bind fun _ _ sound' => sound'
  | reset => exact (visible_feed sound fun _ => by simp).bind fun _ _ both => both.2

theorem visible_serve (board : Board) (request : Request) (sound : Sound d) :
    Visible (request.serve board) (fun _ => Sound) d := by
  have offered : Sound { d with offer := request.offer d } := ⟨sound.settled, sound.ready⟩
  have answered : Visible (request.answer board) (fun _ => Sound) d :=
    holds_get_bind (holds_tell_bind ⟨sound, offered⟩
      (visible_handle board request offered (by cases request <;> rfl)))
  exact answered.bind fun _ _ sound' => sound'

/-- Every state that a run shows is sound. -/
theorem run_sound (board : Board) (sound : Sound d) (requests : List (Request × List Fate))
    (stored : ∀ step ∈ stepsAll board d requests, step.Took) :
    (∀ step ∈ stepsAll board d requests, Sound step.before ∧ Sound (step.after Action.apply)) ∧
      Sound (runAll board d requests) := by
  exact sessions_hold (fun request _ _ sound => visible_serve board request.1 sound) sound stored

end FryFirmware.Provisioning
