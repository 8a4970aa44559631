import FryFirmware.Boot.Loop
import FryFirmware.Provisioning.FsmProperties
import Mathlib.Data.List.Basic
import Mathlib.Tactic.Common

/-!
# Restarts for new settings

In `Ready` the loop restarts as soon as the machine is ready to connect. A machine that
has settled when `Ready` is entered is so only after another commit; one that still
waits for its registration is so at once.
-/

set_option autoImplicit false

namespace FryFirmware.Boot

open Lib Config
open Lib.Program (get put tell)
open Identity (Board Random16)
open Provisioning (Device ProvEvent ProvisioningFsm onIdentity notify)

/-! ## What a restart stands for -/

/-- A transport's commit is accepted in `Ready`. -/
def AcceptsCommit (step : Step Node Action) : Prop :=
  step.before.phase = .ready ∧ step.before.device.fsm.state = .provisioning ∧
    (step.after Action.apply).device.fsm.state = .connecting ∧
    ∃ ev given, step.action = .device (.feed ev given) ∧
      (ev = .wifiOnlyCommit ∨ ev = .walletWritten ∧ given.walletValid = true)

/-- A commit was accepted since `Ready` was entered, and `Ready` was not left. -/
def CommittedInReady (past : List (Step Node Action)) : Prop :=
  ∃ before commit since, past = before ++ commit :: since ∧ AcceptsCommit commit ∧
    ∀ step ∈ commit :: since, step.before.phase = .ready

/-- Whenever `loop` restarts for new settings in `Ready`, some were committed there. -/
def NoSpuriousRestart (steps : List (Step Node Action)) : Prop :=
  ∀ front restart back, steps = front ++ restart :: back → restart.action = .restartToApply →
    restart.before.phase = .ready ∧ CommittedInReady front

/-- `Ready` is entered by a machine that awaits no registration. -/
def EntersSettled (step : Step Node Action) : Prop :=
  step.action = .setPhase .ready → step.before.device.fsm.state ≠ .connecting

theorem CommittedInReady.snoc {past : List (Step Node Action)} {step : Step Node Action}
    (committed : CommittedInReady past) (ready : step.before.phase = .ready) :
    CommittedInReady (past ++ [step]) := by
  obtain ⟨before, commit, since, rfl, accepts, within⟩ := committed
  refine ⟨before, commit, since ++ [step], by simp, accepts, fun other member => ?_⟩
  rw [← List.cons_append] at member
  obtain earlier | now := List.mem_append.mp member
  · exact within other earlier
  · exact List.mem_singleton.mp now ▸ ready

/-- In `Ready` a machine that is ready to connect tells of a commit. -/
def TellsCommit (past : List (Step Node Action)) (n : Node) : Prop :=
  n.phase = .ready → n.device.fsm.state = .connecting → CommittedInReady past

/-- The step leaves phase and machine as they were. -/
theorem tellsCommit_same {past : List (Step Node Action)} {step : Step Node Action}
    (tells : TellsCommit past step.before)
    (phase : (step.after Action.apply).phase = step.before.phase)
    (fsm : (step.after Action.apply).device.fsm = step.before.device.fsm) :
    TellsCommit (past ++ [step]) (step.after Action.apply) := by
  intro ready connecting
  rw [phase] at ready
  rw [fsm] at connecting
  exact (tells ready connecting).snoc ready

theorem tellsCommit_step (past : List (Step Node Action)) (step : Step Node Action)
    (settled : EntersSettled step) (tells : TellsCommit past step.before) :
    TellsCommit (past ++ [step]) (step.after Action.apply) := by
  obtain ⟨n, action, ending⟩ := step
  cases ending with
  | lost | cut => exact tellsCommit_same tells rfl rfl
  | took =>
      cases action with
      | device action =>
          cases action with
          | feed ev given =>
              intro ready connecting
              obtain ⟨before, _⟩ | ⟨before, _, commits⟩ := ProvisioningFsm.feed_connecting connecting
              · exact (tells ready before).snoc ready
              · exact ⟨past, _, [], rfl, ⟨ready, before, connecting, ev, given, rfl, commits⟩,
                  List.forall_mem_singleton.mpr ready⟩
          | _ => exact tellsCommit_same tells rfl rfl
      | setPhase phase =>
          rintro rfl connecting
          exact absurd connecting (settled rfl)
      | goTo position => exact tellsCommit_same tells rfl rfl
      | restartToApply | restart => exact nofun

/-! ## Where the loop restarts -/

/-- A restart for new settings is one of the loop in `Ready`, with a join to come. -/
def RestartsReady (step : Step Node Action) : Prop :=
  step.action = .restartToApply →
    step.before.phase = .ready ∧ step.before.device.fsm.readyToConnect = true

/-- Anything but a restart for new settings. -/
def Quiet (action : Action) : Prop := action ≠ .restartToApply

/-- All executions of the program restart only where the loop does. -/
abbrev Restrained {α : Type} (program : Prog α) : Prop :=
  program.Maintains Action.apply (fun _ => True) RestartsReady (fun _ => True) (fun _ => True)

theorem restrained_quiet {α : Type} {program : Prog α} (quiet : program.Only Quiet) :
    Restrained program :=
  quiet.maintains (fun _ _ _ quiet _ restarts => absurd restarts quiet) (fun _ _ _ _ => trivial)
    fun _ _ => trivial

theorem onDevice_quiet {α : Type} (program : Provisioning.Prog α) : (onDevice program).Only Quiet :=
  deviceComponent.zoom_only (only_anything program) fun _ _ => nofun

theorem goTo_quiet (position : Position) : (goTo position).Only Quiet := only_tell nofun

theorem setPhase_quiet (phase : BootPhase) : (setPhase phase).Only Quiet := only_tell nofun

theorem setup_quiet (board : Board) (freshSalt : Random16) : (setup board freshSalt).Only Quiet :=
  (onDevice_quiet _).bind fun _ => only_get_bind fun _ =>
    (setPhase_quiet _).bind fun _ => goTo_quiet .pass

theorem joined_quiet (outcome : Option Provisioning.ProvErr) : (joined outcome).Only Quiet := by
  cases outcome with
  | none => exact (onDevice_quiet _).bind fun _ => goTo_quiet _
  | some err => exact (setPhase_quiet _).bind fun _ => goTo_quiet _

theorem report_quiet (chip : Chip) (board : Board) (due : Option Registering) :
    (report chip board due).Only Quiet := by
  cases due with
  | none => exact goTo_quiet .pass
  | some r => exact (onDevice_quiet _).bind fun _ => goTo_quiet .pass

theorem restrained_loop (idle : Bool) : Restrained (loop idle) := by
  refine fun n _ => holds_get_bind ?_
  cases phase : n.phase with
  | awaitingProvisioning =>
      have quiet : (do
          onDevice (Provisioning.tick idle)
          let n ← get
          if n.device.fsm.readyToConnect then setPhase .connectingWifi : Prog Unit).Only Quiet :=
        (onDevice_quiet _).bind fun _ => only_get_bind fun _ => only_ite (setPhase_quiet _) trivial
      exact restrained_quiet quiet n trivial
  | connectingWifi => exact restrained_quiet (goTo_quiet .joining) n trivial
  | ready =>
      -- the phase stays as it was while the transport is served
      have kept : (onDevice (Provisioning.tick idle)).Maintains Action.apply (fun _ => True)
          RestartsReady (fun _ => True) (fun n => n.phase = .ready) := by
        intro n ready
        have alone : (Provisioning.tick idle).Holds Provisioning.Action.apply (fun _ => True)
            (fun _ => True) (fun _ => True) (fun _ _ => True) n.device := holds_trivially _ _
        refine (deviceComponent.holds_zoom alone (fun _ _ _ _ => trivial) (fun _ _ _ _ => nofun)
          fun _ _ => trivial).mono ?_
        rintro _ _ ⟨_, rfl, -⟩
        exact ready
      refine (kept n phase).bind fun _ m ready => holds_get_bind (holds_ite (fun joins => ?_) fun _ => ?_)
      · exact fun _ => ⟨fun _ => ⟨ready, joins⟩, trivial⟩
      · exact restrained_quiet (goTo_quiet .reporting) m trivial

theorem restrained_whenAt (position : Position) {program : Prog Unit} (restrained : Restrained program) :
    Restrained (whenAt position program) :=
  maintains_get_bind fun _ => maintains_ite restrained (maintains_pure ())

theorem restrained_serve (chip : Chip) (board : Board) (event : Event) :
    Restrained (event.serve chip board) := by
  cases event with
  | setup freshSalt => exact restrained_whenAt .off (restrained_quiet (setup_quiet board freshSalt))
  | request asked =>
      exact maintains_get_bind fun _ =>
        maintains_ite (restrained_quiet (onDevice_quiet _)) (maintains_pure ())
  | loop idle => exact restrained_whenAt .pass (restrained_loop idle)
  | joined outcome => exact restrained_whenAt .joining (restrained_quiet (joined_quiet outcome))
  | notifyFailure =>
      refine maintains_get_bind fun n => ?_
      cases n.position with
      | failing err =>
          exact restrained_quiet ((onDevice_quiet _).bind fun _ => goTo_quiet .pass)
      | _ => exact maintains_pure ()
  | register r =>
      exact restrained_whenAt .registering
        (restrained_quiet ((onDevice_quiet _).bind fun _ => goTo_quiet .finishing))
  | enterReady =>
      exact restrained_whenAt .finishing
        (restrained_quiet ((setPhase_quiet .ready).bind fun _ => goTo_quiet .pass))
  | report due => exact restrained_whenAt .reporting (restrained_quiet (report_quiet chip board due))
  | restart => exact restrained_quiet (only_tell nofun)

/-! ## A deferred registration -/

def exampleBoard : Board := ⟨.userSupplied, [1, 2, 3], []⟩

/-- A board with a key and nothing else. -/
def keyedDevice : Device :=
  { identity := { store := { minerKey := some (text "FEM-0123456789abcdef0123456789ABCDEF") } } }

def exampleRandom : Random16 := ⟨List.replicate 16 7, rfl⟩

/-- A registration that waits this long for the gate, and is then accepted. -/
def acceptedAfter (gateMs : Nat) : Registering where
  gateMs := gateMs
  allocated := true
  registration :=
    { freshSalt := exampleRandom
      random := exampleRandom
      answers := [⟨200, text "token"⟩]
      heal := ⟨0, 0, exampleRandom, ⟨false, 0, 0, []⟩⟩ }

def homeForm : Provisioning.Form := ⟨text "home", text "secret", List.replicate 58 65, []⟩

def stored : List Fate := List.replicate 8 .done

/-- The board is provisioned over its access point, joins, registers after this wait, and runs. -/
def firstSetup (gateMs : Nat) : List (Event × List Fate) :=
  [ (.setup exampleRandom, stored),
    (.request (.provision homeForm false exampleRandom), stored),
    (.loop false, []),
    (.loop false, []),
    (.joined none, []),
    (.register (acceptedAfter gateMs), stored),
    (.enterReady, []),
    (.loop false, []) ]

/-- The same board, which then gets another network over USB. -/
def thenMoved : List (Event × List Fate) :=
  firstSetup 0 ++
    [ (.report none, []),
      (.request (.improv (some (text "cafe")) none), stored),
      (.loop false, []) ]

/-! ## Whole runs -/

/-- Over every run in which `Ready` is entered by settled machines only, a restart for new
settings follows a commit accepted in `Ready`. -/
theorem restart_after_commit (chip : Chip) (board : Board) (d : Device)
    (events : List (Event × List Fate))
    (settled : ∀ step ∈ stepsAll chip board (poweredOn d) events, EntersSettled step) :
    NoSpuriousRestart (stepsAll chip board (poweredOn d) events) := by
  intro front restart back split restarts
  have granted : ∀ step ∈ stepsAll chip board (poweredOn d) events, True := fun _ _ => trivial
  have restrained : ∀ step ∈ stepsAll chip board (poweredOn d) events, RestartsReady step :=
    (sessions_hold (fun event _ => restrained_serve chip board event.1) trivial granted).1
  have member : restart ∈ stepsAll chip board (poweredOn d) events := by simp [split]
  obtain ⟨ready, joins⟩ := restrained restart member restarts
  have initially : TellsCommit [] (poweredOn d) := nofun
  have forgets (past : List (Step Node Action)) (n : Node) (_ : TellsCommit past n) :
      TellsCommit past n.reboot := nofun
  have tells := stepsOf_history tellsCommit_step forgets initially events settled front restart back split
  exact ⟨ready, tells ready (by simpa [ProvisioningFsm.readyToConnect] using joins)⟩

theorem restart_after_commit_moved :
    NoSpuriousRestart (stepsAll .esp8266 exampleBoard (poweredOn keyedDevice) thenMoved) :=
  restart_after_commit .esp8266 exampleBoard keyedDevice thenMoved (by
    show ∀ step ∈ stepsAll .esp8266 exampleBoard (poweredOn keyedDevice) thenMoved,
      step.action = .setPhase .ready → step.before.device.fsm.state ≠ .connecting
    decide +kernel)

/-- The steps of a first setup whose registration is deferred. -/
def spuriousSteps : List (Step Node Action) :=
  stepsAll .esp8266 exampleBoard (poweredOn keyedDevice) (firstSetup 9000)

/-- The restart at their end has no commit in `Ready` before it. -/
theorem restart_without_commit :
    ¬ ∀ (chip : Chip) (board : Board) (d : Device) (events : List (Event × List Fate)),
      NoSpuriousRestart (stepsAll chip board (poweredOn d) events) := by
  intro claim
  have ends : spuriousSteps.getLast?.map Step.action = some .restartToApply := by decide +kernel
  have uncommitted : ∀ step ∈ spuriousSteps,
      step.before.phase = .ready → step.before.device.fsm.state ≠ .provisioning := by
    decide +kernel
  obtain ⟨restart, last, restarts⟩ := Option.map_eq_some_iff.mp ends
  obtain ⟨front, split⟩ := List.getLast?_eq_some_iff.mp last
  obtain ⟨_, before, commit, since, rfl, accepts, _⟩ :=
    claim .esp8266 exampleBoard keyedDevice (firstSetup 9000) front restart [] split restarts
  exact uncommitted commit (by simp [split]) accepts.1 accepts.2.1

/-! ## What leaves the machine waiting -/

/-- Each verdict on a joined machine ends its wait. -/
theorem verdict_settles {m : ProvisioningFsm} {ev : ProvEvent} (given : Provisioning.ProvInputs)
    (verdict : ev = .apiOk ∧ m.wifiUp = true ∨ ev = .apiFail ∨ ev = .keyMissing) :
    (m.feed ev given).state ≠ .connecting := by
  intro connecting
  obtain ⟨before, stays⟩ | ⟨_, _, commits⟩ := ProvisioningFsm.feed_connecting connecting
  · rw [ProvisioningFsm.feed_onward stays] at connecting
    obtain ⟨rfl, joined⟩ | rfl | rfl := verdict <;>
      simp_all [ProvisioningFsm.feedState, ProvisioningFsm.feedConnecting, ProvisioningFsm.moveTo]
  · obtain ⟨rfl, _⟩ | rfl | rfl := verdict <;> simp at commits

theorem holds_onIdentity_fsm {α : Type} (program : Identity.Prog α) (d : Device) :
    (onIdentity program).Holds Provisioning.Action.apply (fun _ => True) (fun _ => True)
      (fun _ => True) (fun _ d' => d'.fsm = d.fsm) d := by
  have alone : program.Holds Identity.Action.apply (fun _ => True) (fun _ => True)
      (fun _ => True) (fun _ _ => True) d.identity := holds_trivially _ _
  refine (Provisioning.identityComponent.holds_zoom alone (fun _ _ _ _ => trivial)
    (fun _ _ _ _ => trivial) fun _ _ => trivial).mono ?_
  rintro _ _ ⟨_, rfl, -⟩
  rfl

/-- A registration of a joined machine ends its wait, unless it is deferred. -/
theorem registered_settles (chip : Chip) (board : Board) (r : Registering) (d : Device)
    (answered : r.deferred chip = false) (joined : d.fsm.wifiUp = true) :
    (registerInstallation chip board r).Holds Provisioning.Action.apply (fun _ => True)
      (fun _ => True) (fun _ => True) (fun _ d' => d'.fsm.state ≠ .connecting) d := by
  unfold registerInstallation
  rw [if_neg (by simp [answered])]
  refine (holds_onIdentity_fsm _ d).bind fun minerKey keyed same => ?_
  refine holds_ite (fun _ => ?_) fun _ => ?_
  · exact holds_tell_bind trivial (verdict_settles _ (Or.inr (Or.inr rfl)))
  · refine (holds_onIdentity_fsm _ keyed).bind fun registered after unchanged => ?_
    refine holds_ite (fun _ => ?_) fun _ => ?_
    · refine holds_tell_bind trivial (verdict_settles _ (Or.inl ⟨rfl, ?_⟩))
      rw [unchanged, same]
      exact joined
    · exact holds_tell_bind trivial (verdict_settles _ (Or.inr (Or.inl rfl)))

/-- A deferred one leaves the board as it was. -/
theorem deferred_waits (chip : Chip) (board : Board) (r : Registering) (d : Device)
    (deferred : r.deferred chip = true) (fates : List Fate) :
    ((registerInstallation chip board r).run Provisioning.Action.apply d fates).state = d := by
  unfold registerInstallation
  rw [if_pos deferred]
  rfl

/-- `Ready` entered by a waiting machine ends with the next pass. -/
theorem waiting_restarts (n : Node) (waiting : n.device.fsm.state = .connecting) (idle : Bool) :
    (loop idle).exec Action.apply (enterReady.exec Action.apply n).1 = (n.reboot, ()) := by
  have entered : (enterReady.exec Action.apply n).1 =
      { n with phase := .ready, position := .pass } := rfl
  have quiet : (Provisioning.tick idle).exec Provisioning.Action.apply n.device = (n.device, ()) := by
    unfold Provisioning.tick
    rw [exec_get_bind, if_neg (by simp [waiting])]
    rfl
  rw [entered]
  unfold loop
  rw [exec_get_bind]
  dsimp only
  rw [exec_bind]
  unfold onDevice
  rw [deviceComponent.exec_zoom]
  show ((do
      let n ← get
      if n.device.fsm.readyToConnect then tell .restartToApply else goTo .reporting : Prog Unit).exec
    Action.apply { n with device := ((Provisioning.tick idle).exec _ n.device).1, phase := .ready, position := .pass }) = _
  rw [quiet, exec_get_bind, if_pos (by simp [ProvisioningFsm.readyToConnect, waiting])]
  rfl

end FryFirmware.Boot
