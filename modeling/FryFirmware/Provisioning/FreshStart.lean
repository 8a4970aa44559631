import FryFirmware.Lib.TwoRuns
import FryFirmware.Provisioning.KeyProvenance
import Mathlib.Data.List.Basic
import Mathlib.Tactic.Common

/-!
# An SSID write after an error

The machine starts over with an SSID write in `Error`, but the buffers of the BLE
transport are not the machine's. What comes of the writes that follow is compared with
the same writes on a transport that was just booted, with the same store and staged key.
-/

set_option autoImplicit false

namespace FryFirmware.Provisioning

open Lib Config
open Lib.Program (get put tell)
open Identity (Board KeyTransport KeyWriteVerdict Random16 keyAllowsJoin checkOwnerKey)

/-! ## The two runs -/

/-- One write, on a store that takes what is written. -/
def afterWrite (board : Board) (d : Device) (write : Write) : Device :=
  (((Request.write write).serve board).exec Action.apply d).1

def afterWrites (board : Board) (d : Device) (writes : List Write) : Device :=
  writes.foldl (afterWrite board) d

/-- The state and the error that are reported after each write. -/
def reports (board : Board) (d : Device) : List Write → List (ProvState × ProvErr)
  | [] => []
  | write :: rest =>
      ((afterWrite board d write).fsm.state, (afterWrite board d write).fsm.err) ::
        reports board (afterWrite board d write) rest

/-- The stored SSID, password and wallet. -/
def persisted (d : Device) : Option Text × Option Text × Option Text := (d.ssid, d.pass, d.wallet)

/-- A transport that was just booted, with this store and this staged key. -/
def freshTransport (d : Device) : Device :=
  { d with fsm := {}, pendingSsid := [], pendingPass := [], offer := none, accepted := none }

/-- The writes are reported, and finally persisted, as on a transport that was just booted. -/
def AsFromIdle (board : Board) (d : Device) (writes : List Write) : Prop :=
  reports board d writes = reports board (freshTransport d) writes ∧
    persisted (afterWrites board d writes) = persisted (afterWrites board (freshTransport d) writes)

instance (board : Board) (d : Device) (writes : List Write) : Decidable (AsFromIdle board d writes) :=
  inferInstanceAs (Decidable (_ ∧ _))

/-- The SSID write that starts over: it is valid, and it is not dropped. -/
def StartsOver (d : Device) (write : Write) : Prop :=
  write.characteristic = .ssid ∧ (1 ≤ write.value.length ∧ write.value.length ≤ 32) ∧
    dropUntrusted d write.encrypted = false

instance (d : Device) (write : Write) : Decidable (StartsOver d write) :=
  inferInstanceAs (Decidable (_ ∧ _))

/-! ## Which wallet write commits -/

/-- The key that a wallet commit needs: one is stored or staged, and the staged one is accepted. -/
def keyReady (board : Board) (d : Device) (freshSalt : Random16) : Bool :=
  let ensured := (Identity.ensureMinerKey board freshSalt).exec Identity.Action.apply d.identity
  keyAllowsJoin board.model (ensured.2 ≠ [] || d.pendingKey ≠ []) &&
    (d.pendingKey = [] ||
      Identity.evaluate board ensured.1.store d.pendingKey .ble = .accept)

/-- A wallet of 58 bytes in `Provisioning`, with its key. -/
def acceptsWallet (board : Board) (d : Device) (write : Write) : Bool :=
  write.characteristic = .wallet && !dropUntrusted d write.encrypted &&
    (d.fsm.state = .provisioning && write.value.length = 58) && keyReady board d write.freshSalt

/-- A wallet write commits and no password was written before it. -/
def CommitsUnwrittenPass (board : Board) (d : Device) (writes : List Write) : Prop :=
  ∃ before wallet since, writes = before ++ wallet :: since ∧
    (∀ write ∈ before, write.characteristic ≠ .pass) ∧
    acceptsWallet board (afterWrites board d before) wallet = true

/-! ## What no password decides -/

/-- The two boards agree on all but passwords. -/
structure Alike (s t : Device) : Prop where
  identity : s.identity = t.identity
  ssid : s.ssid = t.ssid
  wallet : s.wallet = t.wallet
  provDone : s.provDone = t.provDone
  fsm : s.fsm = t.fsm
  pendingSsid : s.pendingSsid = t.pendingSsid
  pendingKey : s.pendingKey = t.pendingKey

variable {board : Board} {s t : Device}

theorem identity_alike (action : Identity.Action) :
    ActAlike Action.apply Alike (.identity action) (.identity action) :=
  fun _ _ alike => { alike with identity := congrArg action.apply alike.identity }

theorem feed_alike (ev : ProvEvent) (given : ProvInputs) :
    ActAlike Action.apply Alike (.feed ev given) (.feed ev given) :=
  fun _ _ alike => { alike with fsm := congrArg (fun m => m.feed ev given) alike.fsm }

theorem stageKey_alike (key : Text) :
    ActAlike Action.apply Alike (.stageKey key) (.stageKey key) :=
  fun _ _ alike => { alike with pendingKey := rfl }

theorem putPass_alike (pass pass' : Text) :
    ActAlike Action.apply Alike (.putPass pass) (.putPass pass') :=
  fun _ _ alike => { alike with }

theorem offer_alike (offer offer' : Option Commit) :
    ActAlike Action.apply Alike (.offer offer) (.offer offer') :=
  fun _ _ alike => { alike with }

theorem related_feed (ev : ProvEvent) (given : ProvInputs) :
    (feed ev given).Related Action.apply Alike (feed ev given) :=
  related_tell (feed_alike ev given)

theorem related_onIdentity {α : Type} (program : Identity.Prog α) :
    (onIdentity program).Related Action.apply Alike (onIdentity program) :=
  identityComponent.related_zoom (fun _ _ alike => alike.identity) identity_alike program

theorem related_commitStaged (given : ProvInputs) (wallet : Text) :
    (commitStaged given wallet).Related Action.apply Alike (commitStaged given wallet) := by
  refine related_get_bind fun s t alike => related_ite (by rw [alike.fsm]) ?_ (related_feed _ _)
  refine Program.Related.bind (related_get_bind fun s t alike => ?_) fun _ => related_feed _ _
  refine Program.Related.bind ?_ fun _ => ?_
  · rw [alike.pendingSsid]
    exact related_put_bind (fun _ _ alike => { alike with ssid := rfl }) fun _ =>
      related_put_bind (putPass_alike _ _) fun _ => rfl
  · exact related_put_bind (fun _ _ alike => { alike with wallet := rfl }) fun _ => rfl

theorem related_writeWallet (value : List UInt8) (freshSalt : Random16) :
    (writeWallet board value freshSalt).Related Action.apply Alike
      (writeWallet board value freshSalt) := by
  refine related_get_bind fun s t alike => related_ite (by rw [alike.fsm]) ?_ (related_commitStaged _ _)
  refine (related_onIdentity _).bind fun stored => related_get_bind fun s t alike => ?_
  rw [alike.pendingKey]
  refine related_ite Iff.rfl (related_feed _ _) (related_ite Iff.rfl ?_ (related_commitStaged _ _))
  refine (related_onIdentity _).bind fun verdict => related_tell_bind (stageKey_alike _) ?_
  exact related_ite Iff.rfl (related_feed _ _) (related_commitStaged _ _)

theorem related_writeKey (value : List UInt8) (encrypted : Bool) :
    (writeKey board value encrypted).Related Action.apply Alike (writeKey board value encrypted) := by
  refine related_ite Iff.rfl rfl (related_get_bind fun s t alike => ?_)
  rw [alike.fsm, alike.identity]
  refine related_ite Iff.rfl rfl (related_ite Iff.rfl (related_tell (stageKey_alike _)) ?_)
  exact related_tell_bind (stageKey_alike _) (related_feed _ _)

theorem related_onWrite (write : Write) :
    (onWrite board write).Related Action.apply Alike (onWrite board write) := by
  obtain ⟨characteristic, value, encrypted, freshSalt⟩ := write
  refine related_get_bind fun s t alike => ?_
  have dropped : dropUntrusted s encrypted = true ↔ dropUntrusted t encrypted = true := by
    rw [dropUntrusted, dropUntrusted, alike.fsm]
  cases characteristic with
  | keyWrite => exact related_writeKey value encrypted
  | ssid =>
      refine related_ite dropped rfl (related_tell_bind ?_ (related_feed _ _))
      exact fun _ _ alike => { alike with pendingSsid := rfl }
  | pass =>
      refine related_ite dropped rfl (related_tell_bind ?_ (related_feed _ _))
      exact fun _ _ alike => { alike with }
  | wallet => exact related_ite dropped rfl (related_writeWallet value freshSalt)

theorem related_serve (write : Write) :
    ((Request.write write).serve board).Related Action.apply Alike
      ((Request.write write).serve board) := by
  refine Program.Related.bind (related_get_bind fun s t _ => ?_) fun _ => rfl
  exact related_tell_bind (offer_alike _ _) ((related_onWrite write).bind fun _ => rfl)

theorem afterWrite_alike (board : Board) (alike : Alike s t) (write : Write) :
    Alike (afterWrite board s write) (afterWrite board t write) :=
  ((related_serve write).exec alike).1

theorem afterWrites_alike (board : Board) (alike : Alike s t) (writes : List Write) :
    Alike (afterWrites board s writes) (afterWrites board t writes) := by
  induction writes generalizing s t with
  | nil => exact alike
  | cons write rest ih => exact ih (afterWrite_alike board alike write)

theorem reports_alike (alike : Alike s t) (writes : List Write) :
    reports board s writes = reports board t writes := by
  induction writes generalizing s t with
  | nil => rfl
  | cons write rest ih =>
      have next := afterWrite_alike board alike write
      show (_, _) :: _ = (_, _) :: _
      rw [next.fsm, ih next]

/-! ## What happens to the passwords -/

variable {d : Device}

theorem afterWrite_eq (write : Write) :
    afterWrite board d write =
      ((onWrite board write).exec Action.apply { d with offer := (Request.write write).offer d }).1 := by
  show ((Request.serve board (.write write)).exec Action.apply d).1 = _
  simp only [Request.serve, Request.answer, Request.handle, exec_bind]
  rfl

theorem exec_onIdentity {α : Type} (program : Identity.Prog α) (d : Device) :
    (onIdentity program).exec Action.apply d =
      ({ d with identity := (program.exec Identity.Action.apply d.identity).1 },
        (program.exec Identity.Action.apply d.identity).2) :=
  identityComponent.exec_zoom program d

/-- A staged commit in `Provisioning` stores the staged password. -/
theorem exec_commitStaged_accepts {given : ProvInputs} {wallet : Text}
    (provisioning : d.fsm.state = .provisioning) (valid : given.walletValid = true) :
    ((commitStaged given wallet).exec Action.apply d).1.pass = some d.pendingPass ∧
      ((commitStaged given wallet).exec Action.apply d).1.fsm.state = .connecting := by
  unfold commitStaged commitOnWallet
  rw [exec_get_bind]
  dsimp only
  rw [if_pos ⟨provisioning, valid⟩]
  refine ⟨rfl, ?_⟩
  show (d.fsm.feed .walletWritten given).state = .connecting
  simp [ProvisioningFsm.feed, ProvisioningFsm.startsOver, provisioning, ProvisioningFsm.feedState,
    ProvisioningFsm.feedProvisioning, valid, ProvisioningFsm.commit]

theorem exec_commitStaged_refuses {given : ProvInputs} {wallet : Text}
    (refused : ¬ (d.fsm.state = .provisioning ∧ given.walletValid = true)) :
    ((commitStaged given wallet).exec Action.apply d).1.pass = d.pass := by
  unfold commitStaged commitOnWallet
  rw [exec_get_bind]
  dsimp only
  rw [if_neg refused]
  rfl

/-- The staged password is stored and a join is to come, or the stored one stays. -/
def PassOutcome (d : Device) (commits : Bool) (d' : Device) : Prop :=
  if commits then d'.pass = some d.pendingPass ∧ d'.fsm.state = .connecting else d'.pass = d.pass

/-- The password is stored exactly where the wallet write has its key. -/
theorem exec_writeWallet (value : List UInt8) (freshSalt : Random16)
    (provisioning : d.fsm.state = .provisioning) (length : value.length = 58) :
    PassOutcome d (keyReady board d freshSalt)
      ((writeWallet board value freshSalt).exec Action.apply d).1 := by
  unfold writeWallet
  rw [exec_get_bind]
  dsimp only
  rw [if_pos ⟨provisioning, by simp [length]⟩, exec_bind, exec_onIdentity, exec_get_bind]
  dsimp only
  generalize ensured : (Identity.ensureMinerKey board freshSalt).exec Identity.Action.apply d.identity =
    result
  cases allowed : keyAllowsJoin board.model (result.2 ≠ [] || d.pendingKey ≠ []) with
  | false =>
      have refused : keyReady board d freshSalt = false := by
        simp only [keyReady, ensured, allowed, Bool.false_and]
      rw [if_pos (by simp), refused]
      rfl
  | true =>
      rw [if_neg (by simp)]
      by_cases staged : d.pendingKey = []
      · have ready : keyReady board d freshSalt = true := by
          simp only [keyReady, ensured, allowed]
          simp [staged]
        rw [if_neg (by simp [staged]), ready]
        exact exec_commitStaged_accepts provisioning (by simp [length])
      · rw [if_pos staged, exec_bind, exec_onIdentity, exec_tell_bind, Identity.exec_setOwnerKey]
        dsimp only
        by_cases accepted : Identity.evaluate board result.1.store d.pendingKey .ble = .accept
        · have ready : keyReady board d freshSalt = true := by
            simp only [keyReady, ensured, allowed]
            simp [accepted]
          rw [if_neg (by simp [accepted]), ready]
          exact exec_commitStaged_accepts provisioning (by simp [length])
        · have refused : keyReady board d freshSalt = false := by
            simp only [keyReady, ensured, allowed]
            simp [staged, accepted]
          rw [if_pos accepted, refused]
          rfl

/-- What a write to 09 may do. -/
def KeyWriteAction : Action → Prop
  | .stageKey _ => True
  | .feed ev _ => ev = .keyRejected
  | _ => False

theorem writeKey_only (value : List UInt8) (encrypted : Bool) :
    (writeKey board value encrypted).Only KeyWriteAction :=
  only_ite trivial (only_get_bind fun _ => only_ite trivial
    (only_ite (only_tell trivial) (only_tell_bind trivial (only_tell rfl))))

theorem keyWriteAction_pass {action : Action} (keyWrite : KeyWriteAction action) (d : Device) :
    (action.apply d).pass = d.pass := by
  cases action with
  | stageKey | feed => rfl
  | _ => cases keyWrite

theorem afterWrite_pass (board : Board) (d : Device) (write : Write) :
    PassOutcome d (acceptsWallet board d write) (afterWrite board d write) := by
  obtain ⟨characteristic, value, encrypted, freshSalt⟩ := write
  rw [afterWrite_eq]
  unfold onWrite
  rw [exec_get_bind]
  cases characteristic with
  | keyWrite =>
      exact (writeKey_only value encrypted).exec_frame Device.pass
        (fun action d keyWrite => keyWriteAction_pass keyWrite d) _
  | ssid =>
      dsimp only
      split <;> rfl
  | pass =>
      dsimp only
      split <;> rfl
  | wallet =>
      let offered := { d with offer := (Request.write ⟨.wallet, value, encrypted, freshSalt⟩).offer d }
      dsimp only
      split
      · next dropped =>
        have refused : acceptsWallet board d ⟨.wallet, value, encrypted, freshSalt⟩ = false := by
          have same : dropUntrusted d encrypted = true := dropped
          simp [acceptsWallet, same]
        rw [refused]
        rfl
      · next kept =>
        have same : dropUntrusted d encrypted = false := Bool.eq_false_iff.mpr kept
        by_cases commits : d.fsm.state = .provisioning ∧ value.length = 58
        · have ready : acceptsWallet board d ⟨.wallet, value, encrypted, freshSalt⟩ =
              keyReady board offered freshSalt := by
            simp only [acceptsWallet, same, commits.1, commits.2]
            rfl
          rw [ready]
          exact exec_writeWallet value freshSalt commits.1 commits.2
        · have refused : acceptsWallet board d ⟨.wallet, value, encrypted, freshSalt⟩ = false := by
            simp only [acceptsWallet]
            simp [commits]
          rw [refused]
          unfold writeWallet
          rw [exec_get_bind]
          dsimp only
          rw [if_neg (by simpa using commits)]
          exact exec_commitStaged_refuses (by simpa using commits)

theorem keyWriteAction_pendingPass {action : Action} (keyWrite : KeyWriteAction action) (d : Device) :
    (action.apply d).pendingPass = d.pendingPass := by
  cases action with
  | stageKey | feed => rfl
  | _ => cases keyWrite

theorem walletAction_pendingPass {action : Action} (wallet : WalletAction action) (d : Device) :
    (action.apply d).pendingPass = d.pendingPass := by
  cases action with
  | stagePass pass => cases wallet
  | _ => rfl

/-- Only a write to 02 changes the staged password. -/
theorem afterWrite_pendingPass (board : Board) (d : Device) (write : Write) :
    (afterWrite board d write).pendingPass =
      if write.characteristic = .pass ∧ dropUntrusted d write.encrypted = false then
        copyAttrValue write.value 65
      else d.pendingPass := by
  obtain ⟨characteristic, value, encrypted, freshSalt⟩ := write
  rw [afterWrite_eq]
  unfold onWrite
  rw [exec_get_bind]
  cases characteristic with
  | keyWrite =>
      exact (writeKey_only value encrypted).exec_frame Device.pendingPass
        (fun action d keyWrite => keyWriteAction_pendingPass keyWrite d) _
  | ssid =>
      dsimp only
      split <;> rfl
  | wallet =>
      dsimp only
      split
      · rfl
      · exact (writeWallet_only value freshSalt).exec_frame Device.pendingPass
          (fun action d wallet => walletAction_pendingPass wallet d) _
  | pass =>
      dsimp only
      cases dropped : dropUntrusted d encrypted with
      | true =>
          rw [if_pos (by exact dropped), if_neg (by simp)]
          rfl
      | false =>
          rw [if_neg (by exact Bool.eq_false_iff.mp dropped), if_pos ⟨rfl, rfl⟩]
          rfl

/-! ## Before a join -/

theorem feed_unjoined {m : ProvisioningFsm} (unjoined : m.wifiUp = false) {ev : ProvEvent}
    (other : ev ≠ .wifiUp) (given : ProvInputs) : (m.feed ev given).wifiUp = false := by
  refine Bool.eq_false_iff.mpr fun joined => ?_
  obtain ⟨_, before | ⟨_, event⟩⟩ := ProvisioningFsm.feed_wifiUp joined fun _ => unjoined
  · exact absurd before (by simp [unjoined])
  · exact other event

/-- Of the events, only the report of a join closes the latch. -/
def NoJoin : Action → Prop
  | .feed ev _ => ev ≠ .wifiUp
  | _ => True

theorem onWrite_noJoin (write : Write) : (onWrite board write).Only NoJoin := by
  obtain ⟨characteristic, value, encrypted, freshSalt⟩ := write
  refine only_get_bind fun _ => ?_
  cases characteristic with
  | keyWrite =>
      refine (writeKey_only value encrypted).mono fun action keyWrite => ?_
      cases action with
      | feed ev given =>
          obtain rfl : ev = .keyRejected := keyWrite
          exact nofun
      | _ => trivial
  | ssid => exact only_ite trivial (only_tell_bind trivial (only_tell nofun))
  | pass => exact only_ite trivial (only_tell_bind trivial (only_tell nofun))
  | wallet =>
      refine only_ite trivial ((writeWallet_only value freshSalt).mono fun action wallet => ?_)
      cases action with
      | feed ev given => obtain rfl | rfl | rfl := wallet <;> exact nofun
      | _ => trivial

theorem afterWrite_unjoined (unjoined : d.fsm.wifiUp = false) (write : Write) :
    (afterWrite board d write).fsm.wifiUp = false := by
  have kept : (onWrite board write).Maintains Action.apply (fun _ => True) (fun _ => True)
      (fun d => d.fsm.wifiUp = false) fun d => d.fsm.wifiUp = false := by
    refine (onWrite_noJoin write).maintains (fun _ _ _ _ _ => trivial) (fun action d other held => ?_)
      fun _ held => held
    cases action with
    | feed ev given => exact feed_unjoined held other given
    | _ => exact held
  rw [afterWrite_eq]
  exact (kept { d with offer := (Request.write write).offer d } unjoined).exec fun _ _ => trivial

theorem unjoined_kept (unjoined : d.fsm.wifiUp = false) (encrypted : Bool) :
    dropUntrusted d encrypted = false := by
  simp [dropUntrusted, ProvisioningFsm.acceptsUntrustedWrites, ProvisioningFsm.runningError, unjoined]

/-! ## After a commit -/

/-- No write takes the machine out of `Connecting`. -/
theorem afterWrite_connecting (connecting : d.fsm.state = .connecting) (write : Write) :
    (afterWrite board d write).fsm.state = .connecting := by
  have stays (m : ProvisioningFsm) (given : ProvInputs) (there : m.state = .connecting) :
      m.feed .ssidWritten given = m ∧ m.feed .passWritten given = m ∧ m.feed .walletWritten given = m := by
    simp [ProvisioningFsm.feed, ProvisioningFsm.startsOver, there, ProvisioningFsm.feedState,
      ProvisioningFsm.feedConnecting]
  obtain ⟨characteristic, value, encrypted, freshSalt⟩ := write
  rw [afterWrite_eq]
  unfold onWrite
  rw [exec_get_bind]
  cases characteristic with
  | keyWrite =>
      dsimp only
      unfold writeKey
      split
      · exact connecting
      · rw [exec_get_bind, if_pos (Or.inl connecting)]
        exact connecting
  | ssid =>
      dsimp only
      split
      · exact connecting
      · exact (congrArg ProvisioningFsm.state (stays d.fsm _ connecting).1).trans connecting
  | pass =>
      dsimp only
      split
      · exact connecting
      · exact (congrArg ProvisioningFsm.state (stays d.fsm _ connecting).2.1).trans connecting
  | wallet =>
      dsimp only
      split
      · exact connecting
      · unfold writeWallet commitStaged commitOnWallet
        rw [exec_get_bind]
        dsimp only
        rw [if_neg (by simp [connecting]), exec_get_bind]
        dsimp only
        rw [if_neg (by simp [connecting])]
        exact (congrArg ProvisioningFsm.state (stays d.fsm _ connecting).2.2).trans connecting

theorem afterWrites_connecting (connecting : d.fsm.state = .connecting) (writes : List Write) :
    (afterWrites board d writes).pass = d.pass := by
  induction writes generalizing d with
  | nil => rfl
  | cons write rest ih =>
      have refused : acceptsWallet board d write = false := by
        simp [acceptsWallet, connecting]
      have same := afterWrite_pass board d write
      rw [refused] at same
      exact (ih (afterWrite_connecting connecting write)).trans same

/-! ## When the runs agree -/

theorem acceptsWallet_alike (alike : Alike s t) (write : Write) :
    acceptsWallet board s write = acceptsWallet board t write := by
  simp only [acceptsWallet, keyReady, dropUntrusted, alike.fsm, alike.identity, alike.pendingKey]

theorem commitsUnwrittenPass_cons (write : Write) (rest : List Write) :
    CommitsUnwrittenPass board d (write :: rest) ↔
      acceptsWallet board d write = true ∨
        (write.characteristic ≠ .pass ∧ CommitsUnwrittenPass board (afterWrite board d write) rest) := by
  constructor
  · rintro ⟨before, wallet, since, same, unwritten, accepts⟩
    cases before with
    | nil =>
        obtain ⟨rfl, rfl⟩ := List.cons.inj same
        exact Or.inl accepts
    | cons first before =>
        obtain ⟨rfl, rfl⟩ := List.cons.inj same
        obtain ⟨other, unwritten⟩ := List.forall_mem_cons.mp unwritten
        exact Or.inr ⟨other, before, wallet, since, rfl, unwritten, accepts⟩
  · rintro (accepts | ⟨other, before, wallet, since, rfl, unwritten, accepts⟩)
    · exact ⟨[], write, rest, rfl, List.forall_mem_nil _, accepts⟩
    · exact ⟨write :: before, wallet, since, rfl, List.forall_mem_cons.mpr ⟨other, unwritten⟩, accepts⟩

/-- With the same password stored and staged nothing differs any more. -/
theorem afterWrites_same (board : Board) (alike : Alike s t) (staged : s.pendingPass = t.pendingPass)
    (stored : s.pass = t.pass) (writes : List Write) :
    (afterWrites board s writes).pass = (afterWrites board t writes).pass := by
  induction writes generalizing s t with
  | nil => exact stored
  | cons write rest ih =>
      refine ih (afterWrite_alike board alike write) ?_ ?_
      · rw [afterWrite_pendingPass, afterWrite_pendingPass, dropUntrusted, dropUntrusted, alike.fsm, staged]
      · have left := afterWrite_pass board s write
        have right := afterWrite_pass board t write
        rw [← acceptsWallet_alike alike] at right
        cases accepts : acceptsWallet board s write with
        | true =>
            rw [accepts] at left right
            rw [left.1, right.1, staged]
        | false =>
            rw [accepts] at left right
            exact left.trans (stored.trans right.symm)

/-- Which password is stored in the end differs exactly where one is committed that was not
written since. -/
theorem pass_agrees_iff (board : Board) (alike : Alike s t) (unjoined : s.fsm.wifiUp = false) (stored : s.pass = t.pass)
    (writes : List Write) :
    (afterWrites board s writes).pass = (afterWrites board t writes).pass ↔
      s.pendingPass = t.pendingPass ∨ ¬ CommitsUnwrittenPass board s writes := by
  induction writes generalizing s t with
  | nil =>
      have nothing : ¬ CommitsUnwrittenPass board s [] := by
        rintro ⟨before, wallet, since, same, -⟩
        cases before <;> cases same
      exact ⟨fun _ => Or.inr nothing, fun _ => stored⟩
  | cons write rest ih =>
      rw [commitsUnwrittenPass_cons]
      have left := afterWrite_pass board s write
      have right := afterWrite_pass board t write
      rw [← acceptsWallet_alike alike] at right
      cases accepts : acceptsWallet board s write with
      | true =>
          rw [accepts] at left right
          have final : (afterWrites board s (write :: rest)).pass = some s.pendingPass :=
            (afterWrites_connecting left.2 rest).trans left.1
          have final' : (afterWrites board t (write :: rest)).pass = some t.pendingPass :=
            (afterWrites_connecting right.2 rest).trans right.1
          rw [final, final']
          simp
      | false =>
          rw [accepts] at left right
          have next := afterWrite_alike board alike write
          have agree : (afterWrite board s write).pass = (afterWrite board t write).pass :=
            left.trans (stored.trans right.symm)
          have staged := afterWrite_pendingPass board s write
          have staged' := afterWrite_pendingPass board t write
          rw [unjoined_kept unjoined] at staged
          rw [unjoined_kept (alike.fsm ▸ unjoined)] at staged'
          by_cases written : write.characteristic = .pass
          · rw [if_pos ⟨written, rfl⟩] at staged staged'
            have same := afterWrites_same board next (staged.trans staged'.symm) agree rest
            exact ⟨fun _ => Or.inr (by simp [written]), fun _ => same⟩
          · rw [if_neg fun both => written both.1] at staged staged'
            have later := ih next (afterWrite_unjoined unjoined write) agree
            rw [staged, staged'] at later
            show (afterWrites board (afterWrite board s write) rest).pass =
              (afterWrites board (afterWrite board t write) rest).pass ↔ _
            simpa [written] using later

/-- The write that starts over leaves the machine in `Provisioning`, wherever it came from. -/
theorem afterWrite_startsOver (board : Board) {write : Write} (starts : StartsOver d write)
    (fed : d.fsm.state = .error ∨ d.fsm = {}) :
    ∃ offer accepted, afterWrite board d write =
      { d with
        fsm := { state := .provisioning }
        pendingSsid := copyAttrValue write.value 33
        offer := offer
        accepted := accepted } := by
  obtain ⟨characteristic, value, encrypted, freshSalt⟩ := write
  obtain ⟨rfl, valid, kept⟩ := starts
  have kept : dropUntrusted d encrypted = false := kept
  have fed : d.fsm.feed .ssidWritten
      { ssidValid := 1 ≤ value.length ∧ value.length ≤ 32, linkTrusted := encrypted } =
      { state := .provisioning } := by
    obtain error | idle := fed
    · have anew : d.fsm.startsOver .ssidWritten
          { ssidValid := 1 ≤ value.length ∧ value.length ≤ 32, linkTrusted := encrypted } = true := by
        simp only [dropUntrusted, ProvisioningFsm.acceptsUntrustedWrites, Bool.not_not] at kept
        cases encrypted <;> simp_all [ProvisioningFsm.startsOver]
      rw [ProvisioningFsm.feed_over anew, ProvisioningFsm.feedIdle_fresh, if_pos (by simpa using valid)]
    · rw [idle]
      simp [ProvisioningFsm.feed, ProvisioningFsm.startsOver, ProvisioningFsm.feedState,
        ProvisioningFsm.feedIdle, ProvisioningFsm.moveTo, valid]
  rw [afterWrite_eq]
  unfold onWrite
  rw [exec_get_bind]
  dsimp only
  rw [if_neg (by exact Bool.eq_false_iff.mp kept), ← fed]
  exact ⟨_, _, rfl⟩

/-- The writes that begin with an SSID in `Error` do what they do from `Idle` exactly where no
password is left staged, or none is committed that was not written since. -/
theorem as_from_idle_iff (board : Board) (d : Device)
    (history : List (Request × List Fate)) (error : (runAll board d history).fsm.state = .error)
    (first : Write) (starts : StartsOver (runAll board d history) first) (rest : List Write) :
    AsFromIdle board (runAll board d history) (first :: rest) ↔
      (runAll board d history).pendingPass = [] ∨
        ¬ CommitsUnwrittenPass board (runAll board d history) (first :: rest) := by
  generalize runAll board d history = s at error starts
  have fresh : StartsOver (freshTransport s) first := ⟨starts.1, starts.2.1, unjoined_kept rfl _⟩
  obtain ⟨offer, accepted, left⟩ := afterWrite_startsOver board starts (Or.inl error)
  obtain ⟨offer', accepted', right⟩ := afterWrite_startsOver board fresh (Or.inr rfl)
  have alike : Alike (afterWrite board s first) (afterWrite board (freshTransport s) first) := by
    rw [left, right]
    exact ⟨rfl, rfl, rfl, rfl, rfl, rfl, rfl⟩
  have final := afterWrites_alike board alike rest
  have reported : reports board s (first :: rest) = reports board (freshTransport s) (first :: rest) := by
    show (_, _) :: _ = (_, _) :: _
    rw [alike.fsm, reports_alike alike]
  have notYet : CommitsUnwrittenPass board s (first :: rest) ↔
      CommitsUnwrittenPass board (afterWrite board s first) rest := by
    rw [commitsUnwrittenPass_cons]
    simp [acceptsWallet, starts.1]
  have agree := pass_agrees_iff board alike (by rw [left]) (by rw [left, right]; rfl) rest
  rw [notYet]
  have staged : (afterWrite board s first).pendingPass = s.pendingPass := by rw [left]
  have staged' : (afterWrite board (freshTransport s) first).pendingPass = [] := by
    rw [right]
    rfl
  rw [staged, staged'] at agree
  rw [← agree]
  constructor
  · intro same
    exact congrArg (fun stored : Option Text × Option Text × Option Text => stored.2.1) same.2
  · intro same
    refine ⟨reported, ?_⟩
    exact Prod.ext final.ssid (Prod.ext same final.wallet)

/-! ## A password left over -/

def failedAttempt : List (Request × List Fate) :=
  [ (.write ⟨.ssid, text "home", false, exampleSalt⟩, []),
    (.write ⟨.pass, text "secret", false, exampleSalt⟩, []),
    (.write ⟨.wallet, List.replicate 58 65, false, exampleSalt⟩, [.done, .done, .done]),
    (.notify .wifiAuthFail, []),
    (.disconnect, []) ]

def openNetwork : Write := ⟨.ssid, text "cafe", false, exampleSalt⟩

/-- A second attempt, for a network without a password. -/
def secondAttempt : List Write := [⟨.wallet, List.replicate 58 66, false, exampleSalt⟩]

theorem as_from_idle_iff_second :
    AsFromIdle exampleBoard (runAll exampleBoard keyedDevice failedAttempt)
        (openNetwork :: secondAttempt) ↔
      (runAll exampleBoard keyedDevice failedAttempt).pendingPass = [] ∨
        ¬ CommitsUnwrittenPass exampleBoard (runAll exampleBoard keyedDevice failedAttempt)
          (openNetwork :: secondAttempt) :=
  as_from_idle_iff exampleBoard keyedDevice failedAttempt (by decide +kernel) openNetwork
    (by decide +kernel) secondAttempt

/-- The password of the first attempt is committed with the SSID of the second. -/
theorem left_over_password_committed :
    ¬ ∀ (board : Board) (d : Device) (history : List (Request × List Fate)) (first : Write)
      (rest : List Write), d.Booted → (runAll board d history).fsm.state = .error →
      StartsOver (runAll board d history) first →
      AsFromIdle board (runAll board d history) (first :: rest) := by
  intro claim
  have same := claim exampleBoard keyedDevice failedAttempt openNetwork secondAttempt rfl
    (by decide +kernel) (by decide +kernel)
  exact absurd same (by decide +kernel)

end FryFirmware.Provisioning
