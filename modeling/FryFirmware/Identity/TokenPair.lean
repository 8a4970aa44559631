import FryFirmware.Identity.MinerKeyProperties
import FryFirmware.Identity.Registration
import Mathlib.Data.List.Basic
import Mathlib.Tactic.Common

/-!
# A complete pair at every moment

While no owner key changes and nothing is reset, the live pair or the shadow pair
is complete in every state, whatever writes fail and wherever power is lost.
-/

set_option autoImplicit false

namespace FryFirmware.Identity

open Lib Config
open Lib.Program (get put tell)

/-! ## Small facts -/

theorem pairsMatchByteForByte_iff (a b : Text) : pairsMatchByteForByte a b = true ↔ a = b := by
  induction a generalizing b with
  | nil => cases b <;> simp [pairsMatchByteForByte]
  | cons x xs ih =>
      cases b with
      | nil => simp [pairsMatchByteForByte]
      | cons y ys =>
          by_cases same : x = y
          · simp [pairsMatchByteForByte, same, ih]
          · simp [pairsMatchByteForByte, same]

theorem liveRecovery_dropShadows_iff (s : Store) :
    liveRecovery s = .dropShadows ↔ liveComplete s := by
  unfold liveRecovery recoveryFor liveComplete
  by_cases id : s.getInstallId = [] <;> by_cases token : s.getDeviceToken = [] <;>
    simp [id, token, List.length_pos_iff]

theorem dropTokenPairShadow_only : dropTokenPairShadow.Only Clears :=
  only_get_bind fun _ => only_ite trivial
    (only_ite trivial (only_put_bind trivial fun _ => only_put trivial))

theorem confirmKey_only : (do
    let w ← get
    when (!w.store.getKeyOk) (do let _ ← put (.setKeyOk true))
    pure true : Prog Bool).Only Clears :=
  only_get_bind fun _ => (only_when (only_put trivial) _).bind fun _ => trivial

/-! ## The invariant -/

/-- One of the two pairs is complete. -/
def Kept (s : Store) : Prop := liveComplete s ∨ shadowComplete s

/-- A step from a complete pair to a complete pair, that touches a shadow key only
beside a complete live pair. -/
structure Unstranded (step : Step World Action) : Prop where
  before : Kept step.before.store
  after : Kept (step.after Action.apply).store
  guarded : step.action = .removeShadowId ∨ step.action = .removeShadowToken →
    liveComplete step.before.store

/-- All executions of a program from here are made of such steps. -/
def Safe {α : Type} (program : Prog α) (post : α → World → Prop) (w : World) : Prop :=
  program.Holds Action.apply (fun _ => True) Unstranded (fun w => Kept w.store) post w

section

variable {α β : Type} {w : World}

theorem safe_put_bind {action : Action} {rest : Bool → Prog β} {post : β → World → Prop}
    (kept : Kept w.store) (after : Kept (action.apply w).store)
    (guarded : action = .removeShadowId ∨ action = .removeShadowToken → liveComplete w.store)
    (took : Safe (rest true) post (action.apply w)) (lost : ∀ reported, Safe (rest reported) post w) :
    Safe (put action >>= rest) post w :=
  holds_put_bind (fun _ => ⟨⟨kept, after, guarded⟩, took⟩) (fun _ => ⟨⟨kept, kept, guarded⟩, lost⟩)
    (fun _ => ⟨⟨kept, kept, guarded⟩, kept⟩)

/-- A write that leaves the four keys alone. -/
theorem safe_plain_bind {action : Action} {rest : Bool → Prog β} {post : β → World → Prop}
    (kept : Kept w.store) (same : Kept w.store → Kept (action.apply w).store)
    (other : action ≠ .removeShadowId ∧ action ≠ .removeShadowToken)
    (took : Safe (rest true) post (action.apply w)) (lost : ∀ reported, Safe (rest reported) post w) :
    Safe (put action >>= rest) post w :=
  safe_put_bind kept (same kept) (fun touches => absurd touches (not_or.mpr other)) took lost

theorem safe_tell_bind {action : Action} {rest : Unit → Prog β} {post : β → World → Prop}
    (kept : Kept w.store) (same : Kept w.store → Kept (action.apply w).store)
    (other : action ≠ .removeShadowId ∧ action ≠ .removeShadowToken)
    (after : Safe (rest ()) post (action.apply w)) : Safe (tell action >>= rest) post w :=
  holds_tell_bind ⟨kept, same kept, fun touches => absurd touches (not_or.mpr other)⟩ after

/-- The program keeps a complete pair. -/
def Keeps (program : Prog α) : Prop :=
  program.Maintains Action.apply (fun _ => True) Unstranded (fun w => Kept w.store)
    fun w => Kept w.store

theorem keeps_pure (value : α) : Keeps (pure value : Prog α) := maintains_pure value

theorem Keeps.bind {program : Prog α} {rest : α → Prog β} (first : Keeps program)
    (second : ∀ value, Keeps (rest value)) : Keeps (program >>= rest) :=
  Program.Maintains.bind first second

theorem Keeps.when {program : Prog Unit} (keeps : Keeps program) (condition : Bool) :
    Keeps (when condition program) :=
  maintains_ite keeps (keeps_pure ())

/-! ## Programs -/

theorem kept_keyAction {writer : Writer} {action : Action} (key : KeyAction writer action)
    (kept : Kept w.store) : Kept (action.apply w).store := by
  cases action with
  | setMinerKey other => cases other <;> exact kept
  | setSalt => exact kept
  | _ => cases key

theorem unstranded_keyAction {writer : Writer} {action : Action} (key : KeyAction writer action)
    (ending : Ending) (kept : Kept w.store) : Unstranded ⟨w, action, ending⟩ := by
  refine ⟨kept, ?_, fun touches => ?_⟩
  · cases ending with
    | took => exact kept_keyAction key kept
    | lost => exact kept
    | cut => exact kept
  · obtain same | same := touches
    · cases same
      cases key
    · cases same
      cases key

theorem keeps_ensureMinerKey (board : Board) (freshSalt : Random16) :
    Keeps (ensureMinerKey board freshSalt) :=
  (ensureMinerKey_only board freshSalt).maintains
    (fun _ ending _ key kept => unstranded_keyAction key ending kept)
    (fun _ _ key kept => kept_keyAction key kept) fun _ kept => kept

theorem kept_setInstallId {s : Source} {id : Text} (some : id ≠ []) (kept : Kept w.store) :
    Kept ((Action.setInstallId s id).apply w).store := by
  obtain ⟨-, token⟩ | shadow := kept
  · cases s <;> exact Or.inl ⟨some, token⟩
  · cases s <;> exact Or.inr shadow

theorem kept_setDeviceToken {s : Source} {token : Text} (some : token ≠ []) (kept : Kept w.store) :
    Kept ((Action.setDeviceToken s token).apply w).store := by
  obtain ⟨id, -⟩ | shadow := kept
  · cases s <;> exact Or.inl ⟨id, some⟩
  · cases s <;> exact Or.inr shadow

theorem keeps_ensureInstallId (random : Random16) : Keeps (ensureInstallId random) := by
  intro w kept
  unfold ensureInstallId
  refine holds_get_bind ?_
  split
  · exact kept
  · have after := kept_setInstallId (s := .fresh) (mintedId_nonempty random) kept
    exact safe_put_bind kept after (by simp) after fun _ => kept

theorem keeps_dropTokenPairShadow : Keeps dropTokenPairShadow := by
  intro w kept
  unfold dropTokenPairShadow
  refine holds_get_bind ?_
  split
  · exact kept
  rename_i recovery
  have live := (liveRecovery_dropShadows_iff w.store).mp (not_not.mp recovery)
  split
  · exact kept
  have second (w : World) (live : liveComplete w.store) :
      Safe (do let _ ← put .removeShadowToken) (fun _ w' => Kept w'.store) w :=
    safe_put_bind (Or.inl live) (Or.inl live) (fun _ => live) (Or.inl live) fun _ => Or.inl live
  exact safe_put_bind kept (Or.inl live) (fun _ => live) (second _ live) fun _ => second w live

theorem keeps_restoreTokenPair : Keeps restoreTokenPair := by
  intro w kept
  unfold restoreTokenPair
  refine holds_get_bind ?_
  dsimp only
  split
  · exact kept
  rename_i complete
  obtain ⟨id, token⟩ : w.store.getShadowId ≠ [] ∧ w.store.getShadowToken ≠ [] := by
    rw [not_or, List.length_eq_zero_iff, List.length_eq_zero_iff] at complete
    exact complete
  generalize w.store.getShadowId = shadowId at id
  generalize w.store.getShadowToken = shadowToken at token
  have readBack (w : World) (kept : Kept w.store) :
      Safe (do
        let r ← get
        if !pairsMatchByteForByte shadowId r.store.getInstallId ||
            !pairsMatchByteForByte shadowToken r.store.getDeviceToken then pure false
        else do
          dropTokenPairShadow
          pure true) (fun _ w' => Kept w'.store) w := by
    refine holds_get_bind ?_
    split
    · exact kept
    · exact (keeps_dropTokenPairShadow.bind fun _ => keeps_pure true) w kept
  have second (w : World) (kept : Kept w.store) :
      Safe (do
        let _ ← put (.setDeviceToken .shadow shadowToken)
        let r ← get
        if !pairsMatchByteForByte shadowId r.store.getInstallId ||
            !pairsMatchByteForByte shadowToken r.store.getDeviceToken then pure false
        else do
          dropTokenPairShadow
          pure true) (fun _ w' => Kept w'.store) w := by
    have after := kept_setDeviceToken (s := .shadow) token kept
    exact safe_put_bind kept after (by simp) (readBack _ after) fun _ => readBack w kept
  have after := kept_setInstallId (s := .shadow) id kept
  exact safe_put_bind kept after (by simp) (second _ after) fun _ => second w kept

theorem keeps_recoverOrphanedTokenPair : Keeps recoverOrphanedTokenPair := by
  intro w kept
  unfold recoverOrphanedTokenPair
  refine holds_get_bind ?_
  split
  · exact keeps_dropTokenPairShadow w kept
  · exact (keeps_restoreTokenPair.bind fun _ => keeps_pure ()) w kept

/-- A stash that reports success leaves a complete shadow pair. -/
theorem safe_stashTokenPair {w : World} (kept : Kept w.store) :
    Safe stashTokenPair (fun stashed w' => Kept w'.store ∧ (stashed = true → shadowComplete w'.store))
      w := by
  unfold stashTokenPair
  refine holds_get_bind ?_
  dsimp only
  split
  · exact ⟨kept, nofun⟩
  rename_i complete
  have live : liveComplete w.store := by
    rw [not_or, List.length_eq_zero_iff, List.length_eq_zero_iff] at complete
    exact complete
  generalize savedId : w.store.getInstallId = id
  generalize savedToken : w.store.getDeviceToken = token
  have proof (wrote : Bool) (w : World) (live : liveComplete w.store) :
      Safe (do
        let r ← get
        pure (wrote && r.store.getShadowId.length > 0 && r.store.getShadowToken.length > 0 &&
          pairsMatchByteForByte r.store.getShadowId id &&
          pairsMatchByteForByte r.store.getShadowToken token))
        (fun stashed w' => Kept w'.store ∧ (stashed = true → shadowComplete w'.store)) w := by
    refine ⟨Or.inl live, fun stashed => ?_⟩
    simp only [Bool.and_eq_true, decide_eq_true_eq, List.length_pos_iff] at stashed
    exact ⟨stashed.1.1.1.2, stashed.1.1.2⟩
  have second (wroteId : Bool) (w : World) (live : liveComplete w.store) :
      Safe (do
        let wrote ← if wroteId then put (.putShadowToken token) else pure false
        let r ← get
        pure (wrote && r.store.getShadowId.length > 0 && r.store.getShadowToken.length > 0 &&
          pairsMatchByteForByte r.store.getShadowId id &&
          pairsMatchByteForByte r.store.getShadowToken token))
        (fun stashed w' => Kept w'.store ∧ (stashed = true → shadowComplete w'.store)) w := by
    cases wroteId with
    | false => exact proof false w live
    | true =>
        exact safe_put_bind (Or.inl live) (Or.inl live) (by simp) (proof true _ live)
          fun reported => proof reported w live
  exact safe_put_bind kept (Or.inl live) (by simp) (second true _ live) fun reported =>
    second reported w live

/-- Beside a complete shadow pair the live one may be cleared. -/
theorem safe_clearInstallation {w : World} (shadow : shadowComplete w.store) :
    Safe clearInstallation (fun _ w' => shadowComplete w'.store) w := by
  have second (w : World) (shadow : shadowComplete w.store) :
      Safe (do let _ ← put .removeDeviceToken) (fun _ w' => shadowComplete w'.store) w :=
    safe_put_bind (Or.inr shadow) (Or.inr shadow) (by simp) shadow fun _ => shadow
  exact safe_put_bind (Or.inr shadow) (Or.inr shadow) (by simp) (second _ shadow)
    fun _ => second w shadow

theorem keeps_setKeyOk : Keeps (do
    let w ← get
    when (!w.store.getKeyOk) (do let _ ← put (.setKeyOk true))
    pure true) := by
  intro w kept
  refine holds_get_bind ?_
  refine (Keeps.bind (Keeps.when ?_ _) fun _ => keeps_pure true) w kept
  exact fun w kept => safe_plain_bind kept id ⟨nofun, nofun⟩ kept fun _ => kept

theorem safe_healRetry (h : HealInput) {w : World} (shadow : shadowComplete w.store) :
    Safe (healRetry h) (fun _ w' => Kept w'.store) w := by
  unfold healRetry
  refine (safe_clearInstallation shadow).bind fun _ w shadow => ?_
  refine (keeps_ensureInstallId h.random w (Or.inr shadow)).bind fun newId w kept => ?_
  dsimp only
  refine (Keeps.when ?_ _ w kept).bind fun _ w kept => ?_
  · exact fun w kept => safe_tell_bind kept id ⟨nofun, nofun⟩ kept
  split
  · exact (keeps_restoreTokenPair.bind fun _ => keeps_pure false) w kept
  · have tokenStored : Safe (when (decide (h.reply.usableToken.length > 0))
        (do let _ ← put (.setDeviceToken .fresh h.reply.usableToken)))
        (fun _ w' => Kept w'.store) w := by
      unfold Identity.when
      split
      case isTrue usable =>
        have some := List.length_pos_iff.mp (of_decide_eq_true usable)
        have after := kept_setDeviceToken (s := .fresh) some kept
        exact safe_put_bind kept after (by simp) after fun _ => kept
      case isFalse => exact kept
    exact tokenStored.bind fun _ w kept => keeps_setKeyOk w kept

theorem keeps_healInWindow (h : HealInput) : Keeps (healInWindow h) := by
  intro w kept
  unfold healInWindow
  refine (safe_stashTokenPair kept).bind fun stashed w both => ?_
  obtain ⟨kept, shadow⟩ := both
  cases stashed with
  | false => exact kept
  | true =>
      have shadow := shadow rfl
      have stamped (w : World) (shadow : shadowComplete w.store) :
          Safe (do
            let w ← get
            if w.store.getHealAt ≠ h.epochNow then pure false else healRetry h)
            (fun _ w' => Kept w'.store) w := by
        refine holds_get_bind ?_
        split
        · exact Or.inr shadow
        · exact safe_healRetry h shadow
      refine safe_tell_bind kept id ⟨nofun, nofun⟩ ?_
      exact safe_plain_bind kept id ⟨nofun, nofun⟩ (stamped _ shadow) fun _ => stamped _ shadow

theorem keeps_healStaleTokenIfDue (board : Board) (h : HealInput) (code : Int) (tokenSent : Bool) :
    Keeps (healStaleTokenIfDue board h code tokenSent) := by
  intro w kept
  unfold healStaleTokenIfDue
  refine holds_get_bind ?_
  refine (Keeps.when ?_ _ w kept).bind fun _ w kept => ?_
  · exact fun w kept => safe_tell_bind kept id ⟨nofun, nofun⟩ kept
  refine holds_get_bind ?_
  split
  · exact kept
  split
  · exact kept
  split
  · exact kept
  · exact keeps_healInWindow h w kept

theorem keeps_registerAttempts (board : Board) (h : HealInput) (installId : Text) (tokenSent : Bool)
    (answers : List Answer) : Keeps (registerAttempts board h installId tokenSent answers) := by
  induction answers with
  | nil => exact keeps_pure false
  | cons answer rest ih =>
      intro w kept
      unfold registerAttempts
      split
      · have tokenStored : Safe (when (decide (answer.token.length > 0)) (do
            tell (.issue installId answer.token)
            let _ ← put (.setDeviceToken .fresh answer.token))) (fun _ w' => Kept w'.store) w := by
          unfold Identity.when
          split
          case isTrue usable =>
            have some := List.length_pos_iff.mp (of_decide_eq_true usable)
            refine safe_tell_bind kept id ⟨nofun, nofun⟩ ?_
            have after := kept_setDeviceToken (w := (Action.issue installId answer.token).apply w)
              (s := .fresh) some kept
            exact safe_put_bind kept after (by simp) after fun _ => kept
          case isFalse => exact kept
        exact tokenStored.bind fun _ w kept => keeps_setKeyOk w kept
      split
      · exact keeps_healStaleTokenIfDue board h answer.code tokenSent w kept
      · exact ih w kept

theorem keeps_registerInstallation (board : Board) (r : Registration) :
    Keeps (registerInstallation board r) := by
  unfold registerInstallation
  refine (keeps_ensureMinerKey board r.freshSalt).bind fun minerKey => ?_
  split
  · exact keeps_pure false
  refine keeps_recoverOrphanedTokenPair.bind fun _ => ?_
  refine (keeps_ensureInstallId r.random).bind fun installId => ?_
  intro w kept
  refine safe_tell_bind kept id ⟨nofun, nofun⟩ ?_
  exact keeps_registerAttempts board r.heal installId _ _ _ kept

theorem keeps_putPoc (board : Board) (freshSalt : Random16) (synced : Bool) (code : Int) :
    Keeps (putPoc board freshSalt synced code) := by
  unfold putPoc
  refine (keeps_ensureMinerKey board freshSalt).bind fun minerKey => ?_
  split
  · exact keeps_pure ()
  split
  · exact keeps_pure ()
  intro w kept
  refine holds_get_bind ?_
  refine (keeps_dropTokenPairShadow.when _ w kept).bind fun _ w kept => ?_
  refine holds_get_bind ?_
  refine Keeps.when (keeps_dropTokenPairShadow.bind fun _ => ?_) _ w kept
  exact fun w kept => safe_tell_bind kept id ⟨nofun, nofun⟩ kept

theorem keeps_renewLease (board : Board) (freshSalt random : Random16) :
    Keeps (renewLease board freshSalt random) := by
  unfold renewLease
  refine (keeps_ensureMinerKey board freshSalt).bind fun minerKey => ?_
  split
  · exact keeps_pure ()
  · exact (keeps_ensureInstallId random).bind fun _ => keeps_pure ()

end

/-! ## Sessions -/

/-- Neither a new owner key nor a factory reset. -/
def Request.plain : Request → Bool
  | .setOwnerKey _ _ => false
  | .factoryReset => false
  | _ => true

theorem keeps_program (board : Board) {request : Request} (plain : request.plain = true) :
    Keeps (request.program board) := by
  cases request with
  | boot freshSalt =>
      intro w kept
      refine safe_tell_bind kept id ⟨nofun, nofun⟩ ?_
      exact ((keeps_ensureMinerKey board freshSalt).bind fun _ => keeps_pure ()) _ kept
  | register r => exact (keeps_registerInstallation board r).bind fun _ => keeps_pure ()
  | putPoc freshSalt synced code => exact keeps_putPoc board freshSalt synced code
  | renewLease freshSalt random => exact keeps_renewLease board freshSalt random
  | setOwnerKey key transport => cases plain
  | factoryReset => cases plain

/-- From a complete live pair, through any boots, registrations, heals, reports and
leases with any failed writes and any power losses, one pair is complete before and
after every step, and a shadow key goes only beside a complete live pair. -/
theorem requests_unstranded (board : Board) (w : World) (requests : List (Request × List Fate))
    (plain : ∀ request ∈ requests, request.1.plain = true) (live : liveComplete w.store) :
    (∀ step ∈ steps board w requests, Unstranded step) ∧ Kept (reached board w requests).store := by
  have keeps : ∀ request ∈ requests, ∀ w : World, Kept w.store →
      (request.1.program board).Holds Action.apply (fun _ => True) Unstranded
        (fun w' => Kept (restart w').store) (fun _ w' => Kept w'.store) w :=
    fun request member w kept => keeps_program board (plain request member) w kept
  exact sessions_hold keeps (Or.inl live) fun _ _ => trivial

/-- A board whose token the server no longer takes: the heal's first registration
loses power between the two removals of the cleared pair, the next one restores it. -/
def staleBoard : Board := ⟨.userSupplied, [0x12, 0x34, 0x56], text "https://api.example.net"⟩

def staleWorld : World :=
  { store :=
      { minerKey := some (text "FEM-0123456789ABCDEF0123456789ABCDEF")
        installId := some (text "0123456789abcdef0123456789abcdef")
        deviceToken := some (text "tok-1")
        apiBase := some (text "https://wg.example.net") }
    issued := [(text "0123456789abcdef0123456789abcdef", text "tok-1")] }

def staleRegistration : Registration :=
  { freshSalt := sixteen 0
    random := sixteen 1
    answers := [⟨404, []⟩]
    heal := ⟨5000, 1790000000, sixteen 2, ⟨true, 200, 40, text "tok-2"⟩⟩ }

theorem requests_unstranded_healed :
    let requests : List (Request × List Fate) :=
      [(.register staleRegistration, List.replicate 4 .done),
        (.register { staleRegistration with answers := [⟨200, []⟩] }, List.replicate 8 .done)]
    (reached staleBoard staleWorld requests).store.installId = staleWorld.store.installId ∧
      ((∀ step ∈ steps staleBoard staleWorld requests, Unstranded step) ∧
        Kept (reached staleBoard staleWorld requests).store) := by
  intro requests
  refine ⟨by decide +kernel, requests_unstranded staleBoard staleWorld requests ?_ ?_⟩
  · intro request member
    obtain rfl | rfl : request = _ ∨ request = _ := by simpa [requests] using member
    · rfl
    · rfl
  · decide +kernel

end FryFirmware.Identity
