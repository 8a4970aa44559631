import FryFirmware.Provisioning.TransportProperties
import Mathlib.Data.List.Basic
import Mathlib.Tactic.Common

/-!
# Provisioning over whole runs

What a refused `/provision` and an untrusted write leave alone, and in which order a
run comes to `Connected`.
-/

set_option autoImplicit false

namespace FryFirmware.Provisioning

open Lib Config
open Lib.Program (get put tell)
open Identity (Board KeyTransport KeyWriteVerdict Random16 keyAllowsJoin)

/-! ## A refused request -/

/-- Identity, credentials, wallet and marker are stored as before. -/
structure SameStore (d d' : Device) : Prop where
  identity : d'.identity = d.identity
  ssid : d'.ssid = d.ssid
  pass : d'.pass = d.pass
  wallet : d'.wallet = d.wallet
  provDone : d'.provDone = d.provDone

variable {d d' : Device}

theorem SameStore.refl (d : Device) : SameStore d d := ⟨rfl, rfl, rfl, rfl, rfl⟩

theorem SameStore.feed (same : SameStore d d') (ev : ProvEvent) (given : ProvInputs) :
    SameStore d (Action.apply (.feed ev given) d') :=
  ⟨same.identity, same.ssid, same.pass, same.wallet, same.provDone⟩

/-- The store takes every write. -/
abbrev Stored {α : Type} (program : Prog α) (post : α → Device → Prop) (d : Device) : Prop :=
  program.Holds Action.apply Step.Took (fun _ => True) (fun _ => True) post d

theorem stored_onIdentity {α : Type} {program : Identity.Prog α} {post : α → Identity.World → Prop}
    (holds : Identity.Stored program post d.identity) :
    Stored (onIdentity program)
      (fun value d' => ∃ identity, d' = { d with identity := identity } ∧ post value identity) d :=
  identityComponent.holds_zoom holds (fun _ _ _ took => took) (fun _ _ _ _ => trivial)
    fun _ _ => trivial

/-- What a reply other than 200 promises. -/
def Refusal (d : Device) (reply : Reply) (d' : Device) : Prop := reply.http ≠ 200 → SameStore d d'

theorem stored_commitForm (form : Form) (d e : Device) :
    Stored (commitForm form) (Refusal e) d :=
  (holds_trivially _ d).bind fun _ _ _ => fun other => absurd rfl other

theorem stored_refuseKey (same : SameStore d d') (verdict : KeyWriteVerdict) :
    Stored (refuseKey verdict) (Refusal d) d' := by
  refine holds_tell_bind trivial ?_
  cases verdict <;> exact fun _ => same.feed _ _

theorem stored_handleProvision (board : Board) (form : Form) (apSecure : Bool) (freshSalt : Random16)
    (d : Device) : Stored (handleProvision board form apSecure freshSalt) (Refusal d) d := by
  refine holds_get_bind (holds_ite (fun _ => fun _ => .refl d) fun _ => ?_)
  refine holds_ite (fun _ => fun _ => .refl d) fun _ => holds_tell_bind trivial ?_
  have fed := SameStore.feed (.refl d) .ssidWritten
    { ssidValid := 1 ≤ form.ssid.length ∧ form.ssid.length ≤ 32, linkTrusted := apSecure }
  refine holds_ite (fun _ => fun _ => fed) fun _ => ?_
  refine holds_ite (fun _ => ?_) fun _ => holds_ite (fun _ => ?_) fun _ => ?_
  · exact holds_tell_bind trivial fun _ => fed.feed _ _
  · refine (stored_onIdentity (Identity.stored_setOwnerKey board _ _ _)).bind ?_
    rintro verdict _ ⟨identity, rfl, refused⟩
    refine holds_ite (fun other => ?_) fun _ => stored_commitForm form _ d
    obtain rfl := refused other
    exact stored_refuseKey fed verdict
  · refine (stored_onIdentity (Identity.stored_ensureMinerKey board freshSalt _)).bind ?_
    rintro key _ ⟨identity, rfl, keyless⟩
    refine holds_ite (fun refused => ?_) fun _ => stored_commitForm form _ d
    have empty : key = [] := by simp_all [keyAllowsJoin]
    obtain rfl := keyless empty
    exact holds_tell_bind trivial fun _ => fed.feed _ _

theorem stored_unanswered (program : Prog Unit) (d e : Device) :
    Stored (do
        program
        return none)
      (fun reply d' => ∀ sent, reply = some sent → Refusal e sent d') d :=
  (holds_trivially program d).bind fun _ _ _ => nofun

/-- Only `/provision` is answered, and a refusal leaves the store alone. -/
theorem stored_answer (board : Board) (request : Request) (d : Device) :
    Stored (request.answer board) (fun reply d' => ∀ sent, reply = some sent → Refusal d sent d') d := by
  refine holds_get_bind (holds_tell_bind trivial ?_)
  cases request with
  | write written => exact stored_unanswered (onWrite board written) _ d
  | readKey freshSalt => exact stored_unanswered (onReadKey board freshSalt) _ d
  | connect => exact stored_unanswered clearStagedKey _ d
  | disconnect => exact stored_unanswered clearStagedKey _ d
  | tick idle => exact stored_unanswered (tick idle) _ d
  | provision form apSecure freshSalt =>
      refine (stored_handleProvision board form apSecure freshSalt _).bind ?_
      rintro reply d' refusal _ ⟨rfl⟩ other
      have same := refusal other
      exact ⟨same.identity, same.ssid, same.pass, same.wallet, same.provDone⟩
  | improv ssid pass =>
      exact (holds_trivially (commitWifiOnlyCredentials ssid pass) _).bind fun _ _ _ => nofun
  | usbKey key => exact stored_unanswered (handleSetMinerKey board key) _ d
  | keyOk ok => exact stored_unanswered (setKeyOk ok) _ d
  | notify notification => exact stored_unanswered (notify notification) _ d
  | reset => exact stored_unanswered (feed .reset {}) _ d

/-! ## An untrusted request -/

/-- A write over an unencrypted link, or `/provision` over the open network. -/
def Untrusted : Request → Prop
  | .write written => written.encrypted = false
  | .provision _ apSecure _ => apSecure = false
  | _ => False

theorem onWrite_dropped (board : Board) (write : Write) (plain : write.encrypted = false)
    (running : d.fsm.runningError = true) (fates : List Fate) :
    ((onWrite board write).run Action.apply d fates).state = d := by
  have dropped : dropUntrusted d write.encrypted = true := by
    simp [dropUntrusted, plain, ProvisioningFsm.acceptsUntrustedWrites, running]
  obtain ⟨characteristic, value, encrypted, freshSalt⟩ := write
  obtain rfl : encrypted = false := plain
  unfold onWrite
  rw [run_get_bind]
  cases characteristic with
  | keyWrite => rfl
  | ssid | pass | wallet =>
      dsimp only
      rw [if_pos dropped]
      rfl

theorem handleProvision_dropped (board : Board) (form : Form) (freshSalt : Random16)
    (running : d.fsm.runningError = true) (fates : List Fate) :
    ((handleProvision board form false freshSalt).run Action.apply d fates).state = d := by
  have error : d.fsm.state = .error := by
    simp only [ProvisioningFsm.runningError, Bool.and_eq_true, decide_eq_true_eq] at running
    exact running.1.1
  unfold handleProvision
  rw [run_get_bind, if_neg (by simp [error]),
    if_pos (by simp [ProvisioningFsm.acceptsUntrustedWrites, running])]
  rfl

/-- While the board runs with an error, an untrusted request changes nothing. -/
theorem untrusted_dropped (board : Board) (request : Request) (untrusted : Untrusted request)
    (running : d.fsm.runningError = true) (fates : List Fate) :
    ((request.serve board).run Action.apply d fates).state = { d with offer := request.offer d } := by
  have served : ((request.serve board).run Action.apply d fates).state =
      ((request.handle board).run Action.apply { d with offer := request.offer d } fates).state :=
    run_bind_pure (request.answer board) (fun _ => ()) d fates
  have still : ({ d with offer := request.offer d } : Device).fsm.runningError = true := running
  rw [served]
  cases request with
  | write written =>
      exact (run_bind_pure (onWrite board written) (fun _ => none) _ fates).trans
        (onWrite_dropped board written untrusted still fates)
  | provision form apSecure freshSalt =>
      obtain rfl : apSecure = false := untrusted
      exact (run_bind_pure (handleProvision board form false freshSalt) some _ fates).trans
        (handleProvision_dropped board form freshSalt still fates)
  | readKey | connect | disconnect | tick | improv | usbKey | keyOk | notify | reset => cases untrusted

/-! ## The way to `Connected` -/

def Commits (step : Step Device Action) : Prop :=
  step.before.fsm.state = .provisioning ∧ (step.after Action.apply).fsm.state = .connecting

/-- The join is reported while it is awaited. -/
def Joins (step : Step Device Action) : Prop :=
  (∃ given, step.action = .feed .wifiUp given) ∧ step.before.fsm.state = .connecting

def Registers (step : Step Device Action) : Prop := ∃ given, step.action = .feed .apiOk given

/-- The machine starts again from the beginning. -/
def Resets (step : Step Device Action) : Prop :=
  ∃ ev given, step.action = .feed ev given ∧ step.before.fsm.resets ev given = true

/-- There is a commit among the steps, and no reset after it. -/
def Committed (steps : List (Step Device Action)) : Prop :=
  ∃ before commit since, steps = before ++ commit :: since ∧ Commits commit ∧
    ∀ step ∈ since, ¬ Resets step

/-- There is a commit among the steps, a join after it, and no reset since. -/
def Joined (steps : List (Step Device Action)) : Prop :=
  ∃ before commit between join since, steps = before ++ commit :: (between ++ join :: since) ∧
    Commits commit ∧ Joins join ∧ ∀ step ∈ between ++ join :: since, ¬ Resets step

theorem Committed.snoc {steps : List (Step Device Action)} {last : Step Device Action}
    (committed : Committed steps) (onward : ¬ Resets last) : Committed (steps ++ [last]) := by
  obtain ⟨before, commit, since, rfl, commits, clear⟩ := committed
  refine ⟨before, commit, since ++ [last], by simp, commits, fun step member => ?_⟩
  obtain earlier | now := List.mem_append.mp member
  · exact clear step earlier
  · exact List.mem_singleton.mp now ▸ onward

theorem Committed.join {steps : List (Step Device Action)} {last : Step Device Action}
    (committed : Committed steps) (joins : Joins last) (onward : ¬ Resets last) :
    Joined (steps ++ [last]) := by
  obtain ⟨before, commit, since, rfl, commits, clear⟩ := committed
  refine ⟨before, commit, since, last, [], by simp, commits, joins, fun step member => ?_⟩
  obtain earlier | now := List.mem_append.mp member
  · exact clear step earlier
  · exact List.mem_singleton.mp now ▸ onward

theorem Joined.snoc {steps : List (Step Device Action)} {last : Step Device Action}
    (joined : Joined steps) (onward : ¬ Resets last) : Joined (steps ++ [last]) := by
  obtain ⟨before, commit, between, join, since, rfl, commits, joins, clear⟩ := joined
  refine ⟨before, commit, between, join, since ++ [last], by simp, commits, joins,
    fun step member => ?_⟩
  rw [← List.cons_append, ← List.append_assoc] at member
  obtain earlier | now := List.mem_append.mp member
  · exact clear step earlier
  · exact List.mem_singleton.mp now ▸ onward

/-- What the machine tells of the steps that led to it. -/
structure History (steps : List (Step Device Action)) (d : Device) : Prop where
  settled : d.fsm.Settled
  connecting : d.fsm.state = .connecting → Committed steps
  wifiUp : d.fsm.wifiUp = true → Joined steps

/-- A step feeds the machine, or leaves it alone. -/
theorem step_fsm (step : Step Device Action) (took : step.Took) :
    (∃ ev given, step.action = .feed ev given ∧
        (step.after Action.apply).fsm = step.before.fsm.feed ev given) ∨
      ((∀ ev given, step.action ≠ .feed ev given) ∧
        (step.after Action.apply).fsm = step.before.fsm) := by
  obtain ⟨before, action, ending⟩ := step
  obtain rfl : ending = .took := took
  cases action with
  | feed ev given => exact Or.inl ⟨ev, given, rfl, rfl⟩
  | _ => exact Or.inr ⟨fun _ _ => nofun, rfl⟩

theorem history_step {steps : List (Step Device Action)} {step : Step Device Action}
    (history : History steps step.before) (took : step.Took) :
    History (steps ++ [step]) (step.after Action.apply) := by
  obtain ⟨ev, given, action, fed⟩ | ⟨other, same⟩ := step_fsm step took
  · have onward (stays : step.before.fsm.resets ev given = false) : ¬ Resets step := by
      rintro ⟨_, _, again, anew⟩
      cases action.symm.trans again
      simp [stays] at anew
    refine ⟨?_, fun connecting => ?_, fun joined => ?_⟩
    · rw [fed]
      exact ProvisioningFsm.feed_settled history.settled ev given
    · have into := connecting
      rw [fed] at into
      obtain ⟨before, stays⟩ | ⟨before, _⟩ := ProvisioningFsm.feed_connecting into
      · exact (history.connecting before).snoc (onward stays)
      · exact ⟨steps, step, [], rfl, ⟨before, connecting⟩, List.forall_mem_nil _⟩
    · rw [fed] at joined
      obtain ⟨stays, before | ⟨before, rfl⟩⟩ := ProvisioningFsm.feed_wifiUp joined history.settled
      · exact (history.wifiUp before).snoc (onward stays)
      · exact (history.connecting before).join ⟨⟨given, action⟩, before⟩ (onward stays)
  · have onward : ¬ Resets step := fun ⟨ev, given, action, _⟩ => other ev given action
    refine ⟨?_, fun connecting => ?_, fun joined => ?_⟩
    · rw [same]
      exact history.settled
    · rw [same] at connecting
      exact (history.connecting connecting).snoc onward
    · rw [same] at joined
      exact (history.wifiUp joined).snoc onward

theorem history_linked {past steps : List (Step Device Action)} {s s' : Device}
    (history : History past s) (linked : Linked Action.apply s steps s')
    (took : ∀ step ∈ steps, step.Took) : History (past ++ steps) s' := by
  obtain ⟨ended, _⟩ := linked_history (fun _ _ took history => history_step history took) history
    linked took
  exact ended

/-- `Connected` is entered by a registration, after a commit and a join. -/
theorem connected_entry {front back : List (Step Device Action)} {step : Step Device Action}
    {s s' : Device} (fresh : s.fsm = {}) (linked : Linked Action.apply s (front ++ step :: back) s')
    (took : ∀ other ∈ front ++ step :: back, other.Took)
    (outside : step.before.fsm.state ≠ .connected)
    (inside : (step.after Action.apply).fsm.state = .connected) :
    Registers step ∧ Joined front := by
  obtain ⟨middle, first, before, _⟩ := linked_append.mp linked
  have initially : History [] s := by
    refine ⟨?_, fun connecting => ?_, fun joined => ?_⟩
    · rw [fresh]
      exact ProvisioningFsm.settled_initially
    · rw [fresh] at connecting
      cases connecting
    · rw [fresh] at joined
      cases joined
  have history := history_linked initially first fun other member =>
    took other (List.mem_append_left _ member)
  obtain ⟨ev, given, action, fed⟩ | ⟨_, same⟩ := step_fsm step (took step (by simp))
  · rw [fed] at inside
    obtain already | ⟨rfl, joined⟩ := ProvisioningFsm.feed_connected inside
    · exact absurd already outside
    · exact ⟨⟨given, action⟩, history.wifiUp (before ▸ joined)⟩
  · rw [same] at inside
    exact absurd inside outside

/-! ## Whole runs -/

/-- The stored credentials are those of the last accepted commit wherever a join is to come. -/
def PersistedWhenReady (board : Board) (d : Device) (requests : List (Request × List Fate)) : Prop :=
  ∀ step ∈ stepsAll board d requests, ∀ s ∈ [step.before, step.after Action.apply],
    s.fsm.readyToConnect = true → ∃ commit, s.accepted = some commit ∧ s.Stores commit

/-- A reply other than 200 stands for an unchanged store. -/
def RefusalsKeepStore (board : Board) (d : Device) (requests : List (Request × List Fate)) : Prop :=
  ∀ front request back, requests = front ++ request :: back →
    let before := runAll board d front
    let outcome := (request.1.answer board).run Action.apply before request.2
    ∀ reply, outcome.value = some (some reply) → reply.http ≠ 200 → SameStore before outcome.state

/-- `Connected` is entered by a registration after a commit and a join, without a reset between. -/
def ConnectedInOrder (board : Board) (d : Device) (requests : List (Request × List Fate)) : Prop :=
  ∀ front step back, stepsAll board d requests = front ++ step :: back →
    step.before.fsm.state ≠ .connected → (step.after Action.apply).fsm.state = .connected →
    Registers step ∧ Joined front

/-- An untrusted request changes nothing while the board runs with an error. -/
def UntrustedIgnored (board : Board) (d : Device) (requests : List (Request × List Fate)) : Prop :=
  ∀ front request back, requests = front ++ request :: back → Untrusted request.1 →
    let before := runAll board d front
    before.fsm.runningError = true →
      runAll board d (front ++ [request]) = { before with offer := request.1.offer before }

theorem request_stored {board : Board} {front back : List (Request × List Fate)}
    {request : Request × List Fate}
    (stored : ∀ step ∈ stepsAll board d (front ++ request :: back), step.Took) :
    ∀ step ∈ ((request.1.serve board).run Action.apply (runAll board d front) request.2).steps,
      step.Took :=
  fun step member => stored step (mem_stepsOf member)

theorem took_powered {step : Step Device Action} (took : step.Took) : step.ending ≠ .cut := by
  rw [show step.ending = .took from took]
  simp

/-- Provisioning is safe over every run, from every start of the board, in which the store
takes each write. -/
theorem provisioning_safe (board : Board) (d : Device) (booted : d.Booted)
    (requests : List (Request × List Fate))
    (stored : ∀ step ∈ stepsAll board d requests, step.Took) :
    PersistedWhenReady board d requests ∧ RefusalsKeepStore board d requests ∧
      ConnectedInOrder board d requests ∧ UntrustedIgnored board d requests := by
  refine ⟨?_, ?_, ?_, ?_⟩
  · intro step member s here ready
    obtain ⟨before, after⟩ := (run_sound board (sound_booted booted) requests stored).1 step member
    have sound : Sound s := by
      obtain rfl | here := List.mem_cons.mp here
      · exact before
      · exact List.mem_singleton.mp here ▸ after
    exact sound.ready (by simpa [ProvisioningFsm.readyToConnect] using ready)
  · rintro front request back rfl before outcome reply sent other
    have steps : outcome.steps = ((request.1.serve board).run Action.apply before request.2).steps := by
      unfold Request.serve
      rw [run_map]
    have took : ∀ step ∈ outcome.steps, step.Took := steps ▸ request_stored stored
    exact ((stored_answer board request.1 before).run took).2.1 _ sent reply rfl other
  · intro front step back split outside inside
    have linked : Linked Action.apply d (front ++ step :: back) (runAll board d requests) :=
      split ▸ stepsOf_linked d requests fun step member => took_powered (stored step member)
    have fresh : d.fsm = {} := by
      rw [← booted]
      rfl
    exact connected_entry fresh linked (fun other member => stored other (split ▸ member)) outside inside
  · rintro front request back rfl untrusted before running
    have served : runAll board d (front ++ [request]) =
        serve Action.apply (Request.serve board) Device.reboot before request := List.foldl_append ..
    rw [served, serve_powered fun step member => took_powered (request_stored stored step member)]
    exact untrusted_dropped board request.1 untrusted running request.2

/-- A start of a board that has a key. -/
def keyedDevice : Device :=
  { identity := { store := { minerKey := some (text "FEM-0123456789abcdef0123456789ABCDEF") } } }

def exampleBoard : Board := ⟨.userSupplied, [1, 2, 3], []⟩

def exampleSalt : Random16 := Identity.sixteen 7

/-- A commit over BLE whose registration fails, what then is ignored, and the success. -/
def exampleRequests : List (Request × List Fate) :=
  [ (.write ⟨.ssid, text "home", false, exampleSalt⟩, []),
    (.write ⟨.pass, text "secret", false, exampleSalt⟩, []),
    (.write ⟨.wallet, List.replicate 58 65, false, exampleSalt⟩, [.done, .done, .done]),
    (.notify .wifiUp, []),
    (.notify (.apiFail .unreachable), []),
    (.write ⟨.ssid, text "other", false, exampleSalt⟩, []),
    (.provision ⟨text "other", [], List.replicate 58 66, []⟩ false exampleSalt, []),
    (.notify .apiOk, []) ]

theorem provisioning_safe_example :
    PersistedWhenReady exampleBoard keyedDevice exampleRequests ∧
      RefusalsKeepStore exampleBoard keyedDevice exampleRequests ∧
      ConnectedInOrder exampleBoard keyedDevice exampleRequests ∧
      UntrustedIgnored exampleBoard keyedDevice exampleRequests :=
  provisioning_safe exampleBoard keyedDevice rfl exampleRequests (by
    show ∀ step ∈ stepsAll exampleBoard keyedDevice exampleRequests, step.ending = .took
    decide +kernel)

end FryFirmware.Provisioning
