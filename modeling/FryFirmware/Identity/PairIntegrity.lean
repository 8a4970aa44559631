import FryFirmware.Identity.TokenPair
import Mathlib.Data.List.Basic
import Mathlib.Tactic.Common

/-!
# Tokens beside the ids they were issued for

A registration must not go out with an id and a token that the server issued for
another one. Three kinds of step can bring such a pair about; a run without them
keeps both pairs sound.
-/

set_option autoImplicit false

namespace FryFirmware.Identity

open Lib Config
open Lib.Program (get put tell)

/-! ## Sound pairs -/

/-- Half a pair, or one the server issued. -/
def Unmixed (issued : List (Text × Text)) (id token : Text) : Prop :=
  id = [] ∨ token = [] ∨ (id, token) ∈ issued

instance (issued : List (Text × Text)) (id token : Text) : Decidable (Unmixed issued id token) :=
  inferInstanceAs (Decidable (_ ∨ _))

/-- An id as `ensureInstallId` takes it for one, or none. -/
def ValidId (id : Text) : Prop := id = [] ∨ id.length = 32

instance (id : Text) : Decidable (ValidId id) := inferInstanceAs (Decidable (_ ∨ _))

def LiveSound (w : World) : Prop :=
  ValidId w.store.getInstallId ∧ Unmixed w.issued w.store.getInstallId w.store.getDeviceToken

def ShadowSound (w : World) : Prop :=
  ValidId w.store.getShadowId ∧ Unmixed w.issued w.store.getShadowId w.store.getShadowToken

def PairsSound (w : World) : Prop := LiveSound w ∧ ShadowSound w

instance (w : World) : Decidable (PairsSound w) :=
  inferInstanceAs (Decidable ((_ ∧ _) ∧ (_ ∧ _)))

/-- At the start of an attempt, a complete live pair is one the server issued. -/
def AttemptSound (step : Step World Action) : Prop :=
  step.action = .attempt →
    Unmixed step.before.issued step.before.store.getInstallId step.before.store.getDeviceToken

instance (step : Step World Action) : Decidable (AttemptSound step) :=
  inferInstanceAs (Decidable (_ → _))

/-- The steps that do not tear a pair: no id is minted while a token is stored, and the
second write of a stash or a restore, whether it takes effect or not, leaves no token
beside an id it was not issued for. -/
def Untorn (step : Step World Action) : Prop :=
  match step.action, step.ending with
  | .setInstallId .fresh _, .took => step.before.store.getDeviceToken = []
  | .putShadowToken token, .took =>
      Unmixed step.before.issued step.before.store.getShadowId token
  | .putShadowToken _, _ =>
      Unmixed step.before.issued step.before.store.getShadowId step.before.store.getShadowToken
  | .setDeviceToken .shadow token, .took =>
      Unmixed step.before.issued step.before.store.getInstallId token
  | .setDeviceToken .shadow _, _ =>
      Unmixed step.before.issued step.before.store.getInstallId step.before.store.getDeviceToken
  | _, _ => True

/-- All executions of a program from here whose steps are untorn start their attempts
with a sound pair, and keep both pairs sound where power is lost. -/
def Guarded {α : Type} (program : Prog α) (post : α → World → Prop) (w : World) : Prop :=
  program.Holds Action.apply Untorn AttemptSound (fun w' => PairsSound (restart w')) post w

section

variable {α β : Type} {w : World}

/-- A write that is no attempt and needs no condition. -/
theorem guarded_put_bind {action : Action} {rest : Bool → Prog β} {post : β → World → Prop}
    (other : action ≠ .attempt) (sound : PairsSound w)
    (took : Guarded (rest true) post (action.apply w))
    (lost : ∀ reported, Guarded (rest reported) post w) : Guarded (put action >>= rest) post w :=
  holds_put_bind (fun _ => ⟨fun attempt => absurd attempt other, took⟩)
    (fun _ => ⟨fun attempt => absurd attempt other, lost⟩)
    (fun _ => ⟨fun attempt => absurd attempt other, sound⟩)

theorem guarded_tell_bind {action : Action} {rest : Unit → Prog β} {post : β → World → Prop}
    (other : action ≠ .attempt) (after : Guarded (rest ()) post (action.apply w)) :
    Guarded (tell action >>= rest) post w :=
  holds_tell_bind (fun attempt => absurd attempt other) after

/-- The program keeps both pairs sound. -/
def KeepsSound (program : Prog α) : Prop :=
  program.Maintains Action.apply Untorn AttemptSound (fun w => PairsSound (restart w)) PairsSound

theorem keepsSound_pure (value : α) : KeepsSound (pure value : Prog α) := maintains_pure value

theorem KeepsSound.bind {program : Prog α} {rest : α → Prog β} (first : KeepsSound program)
    (second : ∀ value, KeepsSound (rest value)) : KeepsSound (program >>= rest) :=
  Program.Maintains.bind first second

theorem KeepsSound.when {program : Prog Unit} (keeps : KeepsSound program) (condition : Bool) :
    KeepsSound (when condition program) :=
  maintains_ite keeps (keepsSound_pure ())

/-- One write that keeps both pairs sound. -/
theorem keepsSound_put {action : Action} {rest : Bool → Prog β} (other : action ≠ .attempt)
    (same : ∀ w, PairsSound w → PairsSound (action.apply w))
    (later : ∀ reported, KeepsSound (rest reported)) : KeepsSound (put action >>= rest) :=
  fun w sound => guarded_put_bind other sound (later true _ (same w sound))
    fun reported => later reported w sound

theorem keepsSound_tell {action : Action} {rest : Unit → Prog β} (other : action ≠ .attempt)
    (same : ∀ w, PairsSound w → PairsSound (action.apply w)) (later : KeepsSound (rest ())) :
    KeepsSound (tell action >>= rest) :=
  fun w sound => guarded_tell_bind other (later _ (same w sound))

theorem keepsSound_get {rest : World → Prog β} (later : ∀ w, KeepsSound (rest w)) :
    KeepsSound (get >>= rest) :=
  maintains_get_bind later

theorem keepsSound_ite {condition : Prop} [Decidable condition] {first second : Prog α}
    (yes : KeepsSound first) (no : KeepsSound second) :
    KeepsSound (if condition then first else second) :=
  maintains_ite yes no

/-! ## Removals and plain writes -/

theorem sound_keyAction {writer : Writer} {action : Action} (key : KeyAction writer action)
    (sound : PairsSound w) : PairsSound (action.apply w) := by
  cases action with
  | setMinerKey other => cases other <;> exact sound
  | setSalt => exact sound
  | _ => cases key

theorem sound_clears {action : Action} (clears : Clears action) (sound : PairsSound w) :
    PairsSound (action.apply w) := by
  cases action with
  | removeInstallId => exact ⟨⟨Or.inl rfl, Or.inl rfl⟩, sound.2⟩
  | removeDeviceToken => exact ⟨⟨sound.1.1, Or.inr (Or.inl rfl)⟩, sound.2⟩
  | removeShadowId => exact ⟨sound.1, Or.inl rfl, Or.inl rfl⟩
  | removeShadowToken => exact ⟨sound.1, sound.2.1, Or.inr (Or.inl rfl)⟩
  | clearVpn => exact sound
  | setKeySrc => exact sound
  | setKeyOk => exact sound
  | boot => exact sound
  | _ => cases clears

theorem keepsSound_keyActions {writer : Writer} {program : Prog α}
    (only : program.Only (KeyAction writer)) : KeepsSound program :=
  only.maintains (fun _ _ _ key _ attempt => by cases attempt; cases key)
    (fun _ _ key sound => sound_keyAction key sound) fun _ sound => sound

theorem keepsSound_clearing {program : Prog α} (only : program.Only Clears) :
    KeepsSound program :=
  only.maintains (fun _ _ _ clears _ attempt => by cases attempt; cases clears)
    (fun _ _ clears sound => sound_clears clears sound) fun _ sound => sound

theorem Unmixed.issue {issued : List (Text × Text)} {id token : Text}
    (unmixed : Unmixed issued id token) (pair : Text × Text) : Unmixed (pair :: issued) id token := by
  obtain empty | empty | known := unmixed
  · exact Or.inl empty
  · exact Or.inr (Or.inl empty)
  · exact Or.inr (Or.inr (List.mem_cons_of_mem _ known))

theorem sound_issue (id token : Text) (w : World) (sound : PairsSound w) :
    PairsSound ((Action.issue id token).apply w) :=
  ⟨⟨sound.1.1, sound.1.2.issue _⟩, sound.2.1, sound.2.2.issue _⟩

theorem keepsSound_dropTokenPairShadow : KeepsSound dropTokenPairShadow :=
  keepsSound_clearing dropTokenPairShadow_only

theorem keepsSound_setOwnerKey (board : Board) (key : Text) (transport : KeyTransport) :
    KeepsSound (setOwnerKey board key transport) := by
  unfold setOwnerKey
  refine keepsSound_get fun w => keepsSound_ite (keepsSound_pure _) ?_
  refine keepsSound_ite (keepsSound_pure _) ?_
  refine (keepsSound_keyActions (storeKey_only .owner key 2)).bind fun storedOk => ?_
  refine keepsSound_ite (keepsSound_pure _) ?_
  exact (keepsSound_clearing forgetInstallation_only).bind fun _ => keepsSound_pure _

/-! ## Ids, stash and restore -/

/-- The stored id is the one handed out, or its write was lost and there is none. -/
def Ensured (id : Text) (w : World) : Prop :=
  w.store.getInstallId = id ∨ w.store.getInstallId = []

theorem guarded_ensureInstallId (random : Random16) {w : World} (sound : PairsSound w) :
    Guarded (ensureInstallId random) (fun id w' => PairsSound w' ∧ Ensured id w' ∧ id ≠ []) w := by
  unfold ensureInstallId
  refine holds_get_bind ?_
  split
  case isTrue long =>
    refine ⟨sound, Or.inl rfl, fun empty => ?_⟩
    rw [empty] at long
    cases long
  case isFalse short =>
    have none : w.store.getInstallId = [] := sound.1.1.resolve_right short
    refine holds_put_bind (fun untorn => ⟨(by simp [AttemptSound]), ?_⟩)
      (fun _ => ⟨(by simp [AttemptSound]), fun _ => ?_⟩) (fun _ => ⟨(by simp [AttemptSound]), sound⟩)
    · have noToken : w.store.getDeviceToken = [] := untorn
      exact ⟨⟨⟨Or.inr (mintedId_length random), Or.inr (Or.inl noToken)⟩, sound.2⟩, Or.inl rfl,
        mintedId_nonempty random⟩
    · exact ⟨sound, Or.inr none, mintedId_nonempty random⟩

theorem keepsSound_ensureInstallId (random : Random16) : KeepsSound (ensureInstallId random) :=
  fun _ sound => (guarded_ensureInstallId random sound).mono fun _ _ ensured => ensured.1

/-- The second write of a stash settles the shadow pair, whatever becomes of it. -/
theorem guarded_putShadowToken {token : Text} {rest : Bool → Prog β} {w : World}
    (live : LiveSound w) (valid : ValidId w.store.getShadowId)
    (later : ∀ reported, KeepsSound (rest reported)) :
    Guarded (put (.putShadowToken token) >>= rest) (fun _ w' => PairsSound w') w := by
  refine holds_put_bind (fun untorn => ⟨(by simp [AttemptSound]), ?_⟩)
    (fun untorn => ⟨(by simp [AttemptSound]), fun reported => ?_⟩)
    (fun untorn => ⟨(by simp [AttemptSound]), live, valid, untorn⟩)
  · exact later true _ ⟨live, valid, untorn⟩
  · exact later reported w ⟨live, valid, untorn⟩

theorem keepsSound_stashTokenPair : KeepsSound stashTokenPair := by
  intro w sound
  unfold stashTokenPair
  refine holds_get_bind ?_
  dsimp only
  split
  · exact sound
  have readBack (wrote : Bool) : KeepsSound (do
      let r ← get
      pure (wrote && r.store.getShadowId.length > 0 && r.store.getShadowToken.length > 0 &&
        pairsMatchByteForByte r.store.getShadowId w.store.getInstallId &&
        pairsMatchByteForByte r.store.getShadowToken w.store.getDeviceToken)) :=
    keepsSound_get fun _ => keepsSound_pure _
  refine guarded_put_bind (by simp) sound ?_ fun reported => ?_
  · exact guarded_putShadowToken sound.1 sound.1.1 readBack
  · cases reported with
    | false => exact readBack false w sound
    | true => exact guarded_putShadowToken sound.1 sound.2.1 readBack

/-- The second write of a restore settles the live pair, whatever becomes of it. -/
theorem guarded_restoreToken {token : Text} {rest : Bool → Prog β} {w : World}
    (shadow : ShadowSound w) (valid : ValidId w.store.getInstallId)
    (later : ∀ reported, KeepsSound (rest reported)) :
    Guarded (put (.setDeviceToken .shadow token) >>= rest) (fun _ w' => PairsSound w') w := by
  refine holds_put_bind (fun untorn => ⟨(by simp [AttemptSound]), ?_⟩)
    (fun untorn => ⟨(by simp [AttemptSound]), fun reported => ?_⟩)
    (fun untorn => ⟨(by simp [AttemptSound]), ⟨valid, untorn⟩, shadow⟩)
  · exact later true _ ⟨⟨valid, untorn⟩, shadow⟩
  · exact later reported w ⟨⟨valid, untorn⟩, shadow⟩

theorem keepsSound_restoreTokenPair : KeepsSound restoreTokenPair := by
  intro w sound
  unfold restoreTokenPair
  refine holds_get_bind ?_
  dsimp only
  split
  · exact sound
  have readBack : KeepsSound (do
      let r ← get
      if !pairsMatchByteForByte w.store.getShadowId r.store.getInstallId ||
          !pairsMatchByteForByte w.store.getShadowToken r.store.getDeviceToken then pure false
      else do
        dropTokenPairShadow
        pure true) :=
    keepsSound_get fun _ => keepsSound_ite (keepsSound_pure false)
      (keepsSound_dropTokenPairShadow.bind fun _ => keepsSound_pure true)
  refine guarded_put_bind (by simp) sound ?_ fun _ => ?_
  · exact guarded_restoreToken sound.2 sound.2.1 fun _ => readBack
  · exact guarded_restoreToken sound.2 sound.1.1 fun _ => readBack

theorem keepsSound_recoverOrphanedTokenPair : KeepsSound recoverOrphanedTokenPair :=
  keepsSound_get fun _ => keepsSound_ite keepsSound_dropTokenPairShadow
    (keepsSound_restoreTokenPair.bind fun _ => keepsSound_pure ())

/-! ## Heals and registrations -/

/-- A token issued for the id handed out is stored beside that id or none. -/
theorem guarded_storeIssued {id token : Text} {rest : Bool → Prog β} {w : World}
    (sound : PairsSound w) (ensured : Ensured id w) (issued : (id, token) ∈ w.issued)
    (later : ∀ reported, KeepsSound (rest reported)) :
    Guarded (put (.setDeviceToken .fresh token) >>= rest) (fun _ w' => PairsSound w') w := by
  have unmixed : Unmixed w.issued w.store.getInstallId token := by
    obtain same | none := ensured
    · rw [same]
      exact Or.inr (Or.inr issued)
    · exact Or.inl none
  exact guarded_put_bind (by simp) sound (later true _ ⟨⟨sound.1.1, unmixed⟩, sound.2⟩)
    fun reported => later reported w sound

theorem keepsSound_healRetry (h : HealInput) : KeepsSound (healRetry h) := by
  unfold healRetry
  refine (keepsSound_clearing clearInstallation_only).bind fun _ w sound => ?_
  refine (guarded_ensureInstallId h.random sound).bind fun newId w both => ?_
  obtain ⟨sound, ensured, -⟩ := both
  dsimp only
  by_cases answered : (h.reply.begun && isSuccess h.reply.code) = true
  · by_cases usable : h.reply.usableToken = []
    · have refused : healTokenUsable h.reply.usableToken.length = false := by
        rw [usable]
        rfl
      simp only [answered, refused, Bool.true_and, Bool.not_false, if_true]
      refine (KeepsSound.when ?_ _ w sound).bind fun _ w sound => ?_
      · exact fun w sound =>
          holds_tell (by simp [AttemptSound]) (sound_issue _ _ w sound)
      · exact (keepsSound_restoreTokenPair.bind fun _ => keepsSound_pure false) w sound
    · have taken : h.reply.usableToken = h.reply.token := by
        unfold HealReply.usableToken at usable ⊢
        split
        · rfl
        · rename_i unread
          rw [if_neg unread] at usable
          exact absurd rfl usable
      have some : h.reply.token ≠ [] := taken ▸ usable
      have accepted : healTokenUsable h.reply.token.length = true := by
        simp [healTokenUsable, List.length_pos_iff, some]
      have long : decide (h.reply.token.length > 0) = true := by
        simp [List.length_pos_iff, some]
      simp only [taken, answered, accepted, long, Bool.and_self, Bool.not_true, Bool.false_eq_true,
        if_false, when, if_true]
      refine guarded_tell_bind (by simp) ?_
      refine Program.Holds.bind
        (guarded_storeIssued (sound_issue newId h.reply.token w sound) ensured List.mem_cons_self
          fun _ => keepsSound_pure ()) fun _ w sound => ?_
      exact keepsSound_clearing confirmKey_only w sound
  · have unanswered : (h.reply.begun && isSuccess h.reply.code) = false := by simpa using answered
    simp only [unanswered, Bool.false_and, Bool.not_false, if_true, when, Bool.false_eq_true, if_false]
    exact (keepsSound_restoreTokenPair.bind fun _ => keepsSound_pure false) w sound

theorem keepsSound_healStaleTokenIfDue (board : Board) (h : HealInput) (code : Int)
    (tokenSent : Bool) : KeepsSound (healStaleTokenIfDue board h code tokenSent) := by
  have window : KeepsSound (healInWindow h) := by
    unfold healInWindow
    refine keepsSound_stashTokenPair.bind fun stashed => keepsSound_ite (keepsSound_pure false) ?_
    refine keepsSound_tell (by simp) (fun _ sound => sound) ?_
    refine keepsSound_put (by simp) (fun _ sound => sound) fun _ => keepsSound_get fun _ => ?_
    exact keepsSound_ite (keepsSound_pure false) (keepsSound_healRetry h)
  have released : KeepsSound (tell .releaseLatch) :=
    fun w sound => holds_tell (by simp [AttemptSound]) sound
  unfold healStaleTokenIfDue
  refine keepsSound_get fun _ => (released.when _).bind fun _ => keepsSound_get fun _ => ?_
  refine keepsSound_ite (keepsSound_pure false) (keepsSound_ite (keepsSound_pure false) ?_)
  exact keepsSound_ite (keepsSound_pure false) window

theorem guarded_registerAttempts (board : Board) (h : HealInput) {installId : Text}
    (tokenSent : Bool) (answers : List Answer) {w : World} (sound : PairsSound w)
    (ensured : Ensured installId w) :
    Guarded (registerAttempts board h installId tokenSent answers) (fun _ w' => PairsSound w') w := by
  induction answers with
  | nil => exact sound
  | cons answer rest ih =>
      unfold registerAttempts
      split
      · have stored : Guarded (when (decide (answer.token.length > 0)) (do
            tell (.issue installId answer.token)
            let _ ← put (.setDeviceToken .fresh answer.token))) (fun _ w' => PairsSound w') w := by
          unfold Identity.when
          split
          · refine guarded_tell_bind (by simp) ?_
            exact guarded_storeIssued (sound_issue installId answer.token w sound) ensured
              List.mem_cons_self fun _ => keepsSound_pure ()
          · exact sound
        exact stored.bind fun _ => keepsSound_clearing confirmKey_only
      split
      · exact keepsSound_healStaleTokenIfDue board h answer.code tokenSent w sound
      · exact ih

theorem keepsSound_registerInstallation (board : Board) (r : Registration) :
    KeepsSound (registerInstallation board r) := by
  unfold registerInstallation
  refine (keepsSound_keyActions (ensureMinerKey_only board r.freshSalt)).bind fun minerKey => ?_
  refine keepsSound_ite (keepsSound_pure false) ?_
  refine keepsSound_recoverOrphanedTokenPair.bind fun _ w sound => ?_
  refine (guarded_ensureInstallId r.random sound).bind fun installId w both => ?_
  obtain ⟨sound, ensured, -⟩ := both
  -- the attempt starts here, with the live pair sound
  refine holds_tell_bind (fun _ => sound.1.2) ?_
  exact guarded_registerAttempts board r.heal _ _ sound ensured

theorem keepsSound_putPoc (board : Board) (freshSalt : Random16) (synced : Bool) (code : Int) :
    KeepsSound (putPoc board freshSalt synced code) := by
  have settled : KeepsSound (do
      dropTokenPairShadow
      tell .shadowsSettled) :=
    keepsSound_dropTokenPairShadow.bind fun _ w sound =>
      holds_tell (by simp [AttemptSound]) sound
  unfold putPoc
  refine (keepsSound_keyActions (ensureMinerKey_only board freshSalt)).bind fun minerKey => ?_
  refine keepsSound_ite (keepsSound_pure ()) (keepsSound_ite (keepsSound_pure ()) ?_)
  refine keepsSound_get fun _ => (keepsSound_dropTokenPairShadow.when _).bind fun _ => ?_
  exact keepsSound_get fun _ => settled.when _

theorem keepsSound_renewLease (board : Board) (freshSalt random : Random16) :
    KeepsSound (renewLease board freshSalt random) := by
  unfold renewLease
  refine (keepsSound_keyActions (ensureMinerKey_only board freshSalt)).bind fun minerKey => ?_
  exact keepsSound_ite (keepsSound_pure ())
    ((keepsSound_ensureInstallId random).bind fun _ => keepsSound_pure ())

theorem keepsSound_program (board : Board) (request : Request) :
    KeepsSound (request.program board) := by
  cases request with
  | boot freshSalt =>
      exact keepsSound_tell (by simp) (fun _ sound => sound)
        ((keepsSound_keyActions (ensureMinerKey_only board freshSalt)).bind fun _ => keepsSound_pure ())
  | register r => exact (keepsSound_registerInstallation board r).bind fun _ => keepsSound_pure ()
  | putPoc freshSalt synced code => exact keepsSound_putPoc board freshSalt synced code
  | renewLease freshSalt random => exact keepsSound_renewLease board freshSalt random
  | setOwnerKey key transport =>
      exact (keepsSound_setOwnerKey board key transport).bind fun _ => keepsSound_pure ()
  | factoryReset => exact keepsSound_clearing factoryReset_only

end

/-! ## Runs -/

/-- In every run whose steps tear no pair, each registration attempt starts with a
token issued for the live id, or without one of the two. -/
theorem requests_attemptsSound (board : Board) (w : World) (requests : List (Request × List Fate))
    (sound : PairsSound w) (untorn : ∀ step ∈ steps board w requests, Untorn step) :
    ∀ step ∈ steps board w requests, AttemptSound step :=
  (sessions_hold (fun request _ w sound => keepsSound_program board request.1 w sound) sound
    untorn).1

instance (step : Step World Action) : Decidable (Untorn step) := by
  unfold Untorn
  split <;> infer_instance

/-- The heal of the stale token, with power lost and the pair restored in between. -/
theorem requests_attemptsSound_healed :
    PairsSound staleWorld ∧
      ∀ step ∈ steps staleBoard staleWorld
          [(.register staleRegistration, List.replicate 4 .done),
            (.register { staleRegistration with answers := [⟨200, []⟩] }, List.replicate 8 .done)],
        AttemptSound step :=
  ⟨by decide +kernel,
    requests_attemptsSound staleBoard staleWorld _ (by decide +kernel) (by decide +kernel)⟩

/-- A factory reset that loses power between the two removals, and the registration
after it: a fresh id goes out with the token of the old one. -/
theorem reset_tornPair :
    PairsSound staleWorld ∧
      ¬ ∀ step ∈ steps staleBoard staleWorld
          [(.factoryReset, [.done]), (.register staleRegistration, List.replicate 8 .done)],
        AttemptSound step := by
  decide +kernel

end FryFirmware.Identity
