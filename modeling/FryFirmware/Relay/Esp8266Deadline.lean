import FryFirmware.Relay.Esp8266Properties
import Mathlib.Tactic.Common

/-!
# The idle deadline of the single-client relay

Only a relay that relays looks at its deadline. In the handshake it notes each
activity, but a client that stays connected and says nothing keeps it for good.
-/

set_option autoImplicit false

namespace FryFirmware.Relay.Esp8266

variable {connects : Target → Bool} {relay : VpnSocks5} {input : Tick}

/-! ## What waits in the buffer -/

/-- What the handshake has read is not enough to answer, and the buffer has room. -/
structure Waiting (relay : VpnSocks5) : Prop where
  greeting : relay.state = .greeting →
    (parseGreeting relay.buf {} 0).1 = .needMoreData ∧ relay.buf.length < kGreetingBufMax
  awaitingConnect : relay.state = .awaitingConnect →
    (parseConnectRequest relay.buf {} 0).1 = .needMoreData ∧ relay.buf.length < kConnectBufMax

theorem waiting_listening (state : relay.state = .listening) : Waiting relay := by
  constructor
  · intro other
    cases state.symm.trans other
  · intro other
    cases state.symm.trans other

theorem waiting_relaying (state : relay.state = .relaying) : Waiting relay := by
  constructor
  · intro other
    cases state.symm.trans other
  · intro other
    cases state.symm.trans other

theorem fill_state (limit : Nat) : (fill relay limit input).state = relay.state := by
  unfold fill
  split <;> rfl

theorem greet_waiting (state : relay.state = .greeting) : Waiting (greet relay input) := by
  unfold greet
  split
  · exact waiting_listening rfl
  · dsimp only
    split
    · constructor
      · nofun
      · intro _
        exact ⟨rfl, Nat.succ_pos 261⟩
    · next needs =>
      split
      · exact waiting_listening rfl
      · next room =>
        constructor
        · intro _
          exact ⟨needs, Nat.lt_of_not_le room⟩
        · intro other
          rw [fill_state, state] at other
          cases other
    · exact waiting_listening rfl

theorem awaitConnect_waiting (state : relay.state = .awaitingConnect) :
    Waiting (awaitConnect connects relay input) := by
  unfold awaitConnect
  split
  · exact waiting_listening rfl
  · dsimp only
    split
    · split
      · exact waiting_relaying rfl
      · exact waiting_listening rfl
    · next needs =>
      split
      · exact waiting_listening rfl
      · next room =>
        constructor
        · intro other
          rw [fill_state, state] at other
          cases other
        · intro _
          exact ⟨congrArg Prod.fst needs, Nat.lt_of_not_le room⟩
    · exact waiting_listening rfl

theorem close_waiting (close : Prop) [Decidable close] (state : relay.state = .relaying) :
    Waiting (if close then resetToListening relay else relay) := by
  split
  · exact waiting_listening rfl
  · exact waiting_relaying state

theorem pumpRelay_waiting (state : relay.state = .relaying) : Waiting (pumpRelay relay input) := by
  have pumped : (pumpUpstream (pumpClient relay input) input).state = .relaying := by
    simp only [pumpUpstream, pumpClient, writeClient, readUpstream, writeUpstream, readClient, state]
  unfold pumpRelay
  dsimp only
  generalize pumpUpstream (pumpClient relay input) input = after at pumped ⊢
  refine close_waiting _ ?_
  split
  · exact pumped
  · exact pumped

theorem listen_waiting (state : relay.state = .listening) : Waiting (listen relay input) := by
  unfold listen
  split
  · constructor
    · intro _
      exact ⟨rfl, Nat.succ_pos 15⟩
    · nofun
  · exact waiting_listening state

/-- Every call leaves a handshake that waits. -/
theorem tick_waiting (waiting : Waiting relay) : Waiting (tick connects relay input) := by
  unfold tick
  split
  · exact waiting
  · dsimp only
    split
    · next state => exact listen_waiting state
    · next state => exact greet_waiting state
    · next state => exact awaitConnect_waiting state
    · next state => exact pumpRelay_waiting state

theorem run_waiting {inputs : List Tick} (waiting : Waiting relay) :
    Waiting (inputs.foldl (tick connects) relay) := by
  induction inputs generalizing relay with
  | nil => exact waiting
  | cons input inputs ih => exact ih (tick_waiting waiting)

/-! ## A silent client -/

/-- Nothing has come from the client, and nothing moves. -/
def Silent (relay : VpnSocks5) (input : Tick) : Prop :=
  (arrive relay input).clientIn = [] ∧ upstreamChunk (arrive relay input) kCopyBufSize input = []

instance (relay : VpnSocks5) (input : Tick) : Decidable (Silent relay input) :=
  inferInstanceAs (Decidable (_ ∧ _))

/-- The last activity is longer ago than the limit. -/
def Overdue (relay : VpnSocks5) (input : Tick) : Prop := input.later - relay.lastActivityMs > kIdleTimeoutMs

instance (relay : VpnSocks5) (input : Tick) : Decidable (Overdue relay input) :=
  inferInstanceAs (Decidable (_ > _))

theorem fill_silent {limit : Nat} (silent : relay.clientIn = []) : fill relay limit input = relay := by
  unfold fill
  exact if_neg (not_not.mpr silent)

/-- A handshake that waits goes on waiting for as long as the client is connected. -/
theorem greet_silent (waiting : Waiting relay) (state : relay.state = .greeting) (silent : relay.clientIn = []) :
    (greet relay input).state = .listening ↔ input.clientConnected = false := by
  obtain ⟨needs, room⟩ := waiting.greeting state
  unfold greet
  rw [fill_silent silent]
  dsimp only
  rw [needs]
  cases connected : input.clientConnected with
  | true => simp [state, Nat.not_le_of_lt room]
  | false => simp [resetToListening]

theorem awaitConnect_silent (waiting : Waiting relay) (state : relay.state = .awaitingConnect)
    (silent : relay.clientIn = []) :
    (awaitConnect connects relay input).state = .listening ↔ input.clientConnected = false := by
  obtain ⟨needs, room⟩ := waiting.awaitingConnect state
  unfold awaitConnect
  rw [fill_silent silent]
  rcases parsed : parseConnectRequest relay.buf {} 0 with ⟨result, request, consumed⟩
  obtain rfl : result = .needMoreData := by rw [← needs, parsed]
  dsimp only
  rw [parsed]
  cases connected : input.clientConnected with
  | true => simp [state, Nat.not_le_of_lt room]
  | false => simp [resetToListening]

/-- The deadline ends a relay in which nothing moves. -/
theorem pumpRelay_silent (silent : relay.clientIn = []) (still : upstreamChunk relay kCopyBufSize input = [])
    (overdue : Overdue relay input) : (pumpRelay relay input).state = .listening := by
  have nothing : ¬ (clientChunk relay kCopyBufSize input ≠ [] ∨ upstreamChunk relay kCopyBufSize input ≠ []) := by
    simp [clientChunk, silent, still]
  have last : (pumpUpstream (pumpClient relay input) input).lastActivityMs = relay.lastActivityMs := by
    simp only [pumpUpstream, pumpClient, writeClient, readUpstream, writeUpstream, readClient]
  unfold Overdue at overdue
  unfold pumpRelay
  dsimp only
  rw [if_neg nothing, last, if_pos (by simp [overdue])]
  rfl

/-! ## The server stays up -/

theorem fill_server (limit : Nat) : (fill relay limit input).server = relay.server := by
  unfold fill
  split <;> rfl

theorem greet_server : (greet relay input).server = relay.server := by
  have filled : (fill relay kGreetingBufMax input).server = relay.server := fill_server kGreetingBufMax
  unfold greet
  split
  · rfl
  · dsimp only
    generalize fill relay kGreetingBufMax input = after at filled ⊢
    split
    · exact filled
    · split <;> exact filled
    · exact filled

theorem awaitConnect_server : (awaitConnect connects relay input).server = relay.server := by
  have filled : (fill relay kConnectBufMax input).server = relay.server := fill_server kConnectBufMax
  unfold awaitConnect
  split
  · rfl
  · dsimp only
    generalize fill relay kConnectBufMax input = after at filled ⊢
    split
    · split <;> exact filled
    · split <;> exact filled
    · exact filled

theorem pumpRelay_server : (pumpRelay relay input).server = relay.server := by
  have pumped : (pumpUpstream (pumpClient relay input) input).server = relay.server := by
    simp only [pumpUpstream, pumpClient, writeClient, readUpstream, writeUpstream, readClient]
  unfold pumpRelay
  dsimp only
  generalize pumpUpstream (pumpClient relay input) input = after at pumped ⊢
  split
  · split <;> exact pumped
  · split <;> exact pumped

theorem listen_server : (listen relay input).server = relay.server := by
  unfold listen
  split <;> rfl

theorem tick_server : (tick connects relay input).server = relay.server := by
  unfold tick
  split
  · rfl
  · dsimp only
    split
    · exact listen_server
    · exact greet_server
    · exact awaitConnect_server
    · exact pumpRelay_server

theorem run_server {inputs : List Tick} : (inputs.foldl (tick connects) relay).server = relay.server := by
  induction inputs generalizing relay with
  | nil => rfl
  | cons input inputs ih => exact ih.trans tick_server

/-! ## The deadline -/

/-- Past its deadline a silent client loses the relay exactly in `Relaying`, or once it is
disconnected. -/
theorem deadline_iff (connects : Target → Bool) (inputs : List Tick) (input : Tick)
    (busy : (run connects inputs).state ≠ .listening) (silent : Silent (run connects inputs) input)
    (overdue : Overdue (run connects inputs) input) :
    (tick connects (run connects inputs) input).state = .listening ↔
      (run connects inputs).state = .relaying ∨ input.clientConnected = false := by
  have server : (run connects inputs).server = true := run_server
  have waiting : Waiting (run connects inputs) := run_waiting (waiting_listening rfl)
  generalize run connects inputs = relay at busy silent overdue server waiting ⊢
  have arrived : Waiting (arrive relay input) := ⟨waiting.greeting, waiting.awaitingConnect⟩
  obtain ⟨silent, still⟩ := silent
  unfold tick
  rw [if_neg (by simp [server])]
  dsimp only
  cases state : relay.state with
  | listening => exact absurd state busy
  | greeting =>
      have state : (arrive relay input).state = .greeting := state
      rw [state]
      simpa using greet_silent arrived state silent
  | awaitingConnect =>
      have state : (arrive relay input).state = .awaitingConnect := state
      rw [state]
      simpa using awaitConnect_silent arrived state silent
  | relaying =>
      have state : (arrive relay input).state = .relaying := state
      rw [state]
      simpa using pumpRelay_silent silent still overdue

/-- A client that connects and says nothing, and the relay an hour later. -/
def silentClient : List Tick := [{ hasClient := true, now := 1000, later := 1000 }]

def hourLater : Tick := { now := 3601000, later := 3601000 }

theorem deadline_iff_silentClient :
    ¬ (tick (fun _ => true) (run (fun _ => true) silentClient) hourLater).state = .listening := by
  rw [deadline_iff (fun _ => true) silentClient hourLater (by decide +kernel) (by decide +kernel)
    (by decide +kernel)]
  decide +kernel

/-- The client that is silent in its greeting is not dropped at the deadline. -/
theorem greeting_held :
    (run (fun _ => true) silentClient).state = .greeting ∧
      Silent (run (fun _ => true) silentClient) hourLater ∧
      Overdue (run (fun _ => true) silentClient) hourLater ∧
      (tick (fun _ => true) (run (fun _ => true) silentClient) hourLater).state = .greeting := by
  decide +kernel

end FryFirmware.Relay.Esp8266
