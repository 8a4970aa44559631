import FryFirmware.Provisioning.Fsm
import Mathlib.Data.List.Basic
import Mathlib.Tactic.Common

/-!
# What one event does to the machine

An event resets the machine, or starts it over with an SSID, or moves on from its
state. From these three forms follow the ways into each state and to the latch.
-/

set_option autoImplicit false

namespace FryFirmware.Provisioning.ProvisioningFsm

variable {m : ProvisioningFsm} {ev : ProvEvent} {given : ProvInputs}

/-! ## The three forms of an event -/

theorem feed_reset (m : ProvisioningFsm) (given : ProvInputs) :
    m.feed .reset given = if m.state = .idle then m else {} := by
  cases state : m.state <;>
    simp [feed, startsOver, feedState, state, feedIdle, feedProvisioning, feedConnecting, feedError]

theorem startsOver_event (anew : m.startsOver ev given = true) : ev = .ssidWritten := by
  simp only [startsOver, Bool.and_eq_true, decide_eq_true_eq] at anew
  exact anew.1.2

theorem feed_over (anew : m.startsOver ev given = true) :
    m.feed ev given = feedIdle {} .ssidWritten given := by
  obtain rfl := startsOver_event anew
  simp [feed, anew, feedState]

theorem feed_onward (stays : m.resets ev given = false) : m.feed ev given = m.feedState ev given := by
  obtain ⟨event, anew⟩ : ¬ ev = .reset ∧ m.startsOver ev given = false := by
    simpa [resets, Bool.or_eq_false_iff] using stays
  simp [feed, anew, event]

/-- Each event is of one of the three forms. -/
theorem feed_forms (m : ProvisioningFsm) (ev : ProvEvent) (given : ProvInputs) :
    (ev = .reset ∧ m.feed ev given = if m.state = .idle then m else {}) ∨
      (m.startsOver ev given = true ∧ m.feed ev given = feedIdle {} .ssidWritten given) ∨
      (m.resets ev given = false ∧ m.feed ev given = m.feedState ev given) := by
  by_cases event : ev = .reset
  · subst event
    exact Or.inl ⟨rfl, feed_reset m given⟩
  · cases anew : m.startsOver ev given with
    | true => exact Or.inr (Or.inl ⟨rfl, feed_over anew⟩)
    | false =>
        have stays : m.resets ev given = false := by simp [resets, event, anew]
        exact Or.inr (Or.inr ⟨stays, feed_onward stays⟩)

theorem feedIdle_fresh (given : ProvInputs) :
    feedIdle {} .ssidWritten given =
      if given.ssidValid then { state := .provisioning } else { state := .error, err := .badSsid } :=
  rfl

/-! ## The latch -/

/-- Before a commit the latch is open. -/
def Settled (m : ProvisioningFsm) : Prop :=
  m.state = .idle ∨ m.state = .provisioning → m.wifiUp = false

theorem settled_initially : Settled {} := fun _ => rfl

theorem feed_settled (settled : m.Settled) (ev : ProvEvent) (given : ProvInputs) :
    (m.feed ev given).Settled := by
  obtain ⟨_, same⟩ | ⟨_, same⟩ | ⟨_, same⟩ := feed_forms m ev given
  · rw [same]
    split
    · exact settled
    · exact settled_initially
  · rw [same, feedIdle_fresh]
    split <;> exact fun _ => rfl
  · rw [same]
    obtain ⟨state, err, wifiUp⟩ := m
    cases state <;> cases ev <;>
      simp_all [Settled, feedState, feedIdle, feedProvisioning, feedConnecting, feedError, moveTo,
        commit] <;> grind

/-- The latch was closed before, or this is the join. -/
theorem feed_wifiUp (joined : (m.feed ev given).wifiUp = true) (settled : m.Settled) :
    m.resets ev given = false ∧ (m.wifiUp = true ∨ m.state = .connecting ∧ ev = .wifiUp) := by
  obtain ⟨_, same⟩ | ⟨_, same⟩ | ⟨stays, same⟩ := feed_forms m ev given
  · rw [same] at joined
    split at joined
    · next idle => exact absurd (settled (Or.inl idle)) (by simp [joined])
    · cases joined
  · rw [same, feedIdle_fresh] at joined
    split at joined <;> cases joined
  · refine ⟨stays, ?_⟩
    rw [same] at joined
    obtain ⟨state, err, wifiUp⟩ := m
    cases state <;> cases ev <;>
      simp_all [feedState, feedIdle, feedProvisioning, feedConnecting, feedError, moveTo, commit] <;>
      grind

/-! ## The ways into a state -/

/-- Into `Connecting` only by a commit. -/
theorem feed_connecting (connecting : (m.feed ev given).state = .connecting) :
    (m.state = .connecting ∧ m.resets ev given = false) ∨
      (m.state = .provisioning ∧ m.feed ev given = commit ∧
        (ev = .wifiOnlyCommit ∨ ev = .walletWritten ∧ given.walletValid = true)) := by
  obtain ⟨_, same⟩ | ⟨_, same⟩ | ⟨stays, same⟩ := feed_forms m ev given
  · rw [same] at connecting
    split at connecting
    · next idle => rw [idle] at connecting; cases connecting
    · cases connecting
  · rw [same, feedIdle_fresh] at connecting
    split at connecting <;> cases connecting
  · rw [same] at connecting ⊢
    rw [stays]
    obtain ⟨state, err, wifiUp⟩ := m
    cases state <;> cases ev <;>
      simp_all [feedState, feedIdle, feedProvisioning, feedConnecting, feedError, moveTo] <;> grind

/-- Into `Connected` only by a registration after the join. -/
theorem feed_connected (connected : (m.feed ev given).state = .connected) :
    m.state = .connected ∨ (ev = .apiOk ∧ m.wifiUp = true) := by
  obtain ⟨_, same⟩ | ⟨_, same⟩ | ⟨_, same⟩ := feed_forms m ev given
  · rw [same] at connected
    split at connected
    · exact Or.inl connected
    · cases connected
  · rw [same, feedIdle_fresh] at connected
    split at connected <;> cases connected
  · rw [same] at connected
    obtain ⟨state, err, wifiUp⟩ := m
    cases state <;> cases ev <;>
      simp_all [feedState, feedIdle, feedProvisioning, feedConnecting, feedError, moveTo, commit,
        runningError] <;> grind

/-- Into `Provisioning` only by a valid SSID. -/
theorem feed_provisioning (provisioning : (m.feed ev given).state = .provisioning) :
    m.state = .provisioning ∨ (ev = .ssidWritten ∧ given.ssidValid = true) := by
  obtain ⟨_, same⟩ | ⟨anew, same⟩ | ⟨_, same⟩ := feed_forms m ev given
  · rw [same] at provisioning
    split at provisioning
    · exact Or.inl provisioning
    · cases provisioning
  · rw [same, feedIdle_fresh] at provisioning
    split at provisioning
    · next valid => exact Or.inr ⟨startsOver_event anew, valid⟩
    · cases provisioning
  · rw [same] at provisioning
    obtain ⟨state, err, wifiUp⟩ := m
    cases state <;> cases ev <;>
      simp_all [feedState, feedIdle, feedProvisioning, feedConnecting, feedError, moveTo, commit] <;>
      grind

end FryFirmware.Provisioning.ProvisioningFsm
