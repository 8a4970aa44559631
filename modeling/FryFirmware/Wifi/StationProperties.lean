import FryFirmware.Lib.Stretch
import FryFirmware.Lib.Wait
import FryFirmware.Wifi.Station
import Mathlib.Data.List.Induction

/-!
# How a join ends, and when the watchdog acts

A join ends at the first turn that finds an address or is out of time, and its error says
what the callbacks told. The watchdog asks for a reconnect only after twenty seconds
without a connection, and again as long as there is none.
-/

set_option autoImplicit false

namespace FryFirmware.Wifi

open Lib Lib.OrderedTrace
open Ota (LinkUp LinkStamps)
open Provisioning (ProvErr)

/-! ## Callbacks -/

def WifiEvent.isConnected : WifiEvent → Bool
  | .connected _ => true
  | _ => false

def WifiEvent.reason : WifiEvent → Option UInt8
  | .disconnected reason => some reason
  | _ => none

def WifiEvent.linkUp : WifiEvent → Option LinkUp
  | .connected time => some (.associated time)
  | _ => none

def associated (events : List WifiEvent) : Bool := events.any WifiEvent.isConnected

theorem associated_append (front back : List WifiEvent) :
    associated (front ++ back) = (associated front || associated back) :=
  List.any_append

/-- What the callbacks of an attempt say of its failure: an association or a DHCP timeout first, and
else the last reason for a disconnect. -/
def joinError (events : List WifiEvent) : ProvErr :=
  if associated events = true ∨ .dhcpTimeout ∈ events then .noIp
  else if (events.filterMap WifiEvent.reason).getLast? = some 201 then .badSsid else .wifiAuth

namespace Station

theorem onEvents_append (s : Station) (front back : List WifiEvent) :
    s.onEvents (front ++ back) = (s.onEvents front).onEvents back :=
  List.foldl_append

/-- The statics after some callbacks. -/
theorem onEvents_eq (s : Station) (events : List WifiEvent) :
    s.onEvents events =
      { s with
        lastDiscReason := (events.filterMap WifiEvent.reason).getLast?.getD s.lastDiscReason
        l2Associated := s.l2Associated || associated events
        dhcpTimedOut := s.dhcpTimedOut || decide (.dhcpTimeout ∈ events)
        stamps := (events.filterMap WifiEvent.linkUp).foldl LinkStamps.stamp s.stamps } := by
  induction events using List.reverseRecOn with
  | nil => simp [onEvents, associated]
  | append_singleton events event ih =>
      rw [onEvents_append, ih]
      cases event <;>
        simp [onEvents, onEvent, associated, WifiEvent.isConnected, WifiEvent.reason, WifiEvent.linkUp,
          List.filterMap_cons]

end Station

/-! ## Joining -/

section

variable {timeoutMs : UInt32} {start gap : Nat} {turns : Nat → Turn}

/-- The callbacks in front of turn `n`. -/
def seen (turns : Nat → Turn) (n : Nat) : List WifiEvent := (List.range n).flatMap fun j => (turns j).events

theorem seen_succ (n : Nat) : seen turns (n + 1) = seen turns n ++ (turns n).events := by
  simp [seen, List.range_succ]

/-- The budget that turn `n` is judged by. -/
def budgetAt (timeoutMs : UInt32) (turns : Nat → Turn) (n : Nat) : UInt32 :=
  if associated (seen turns n) then timeoutMs + kDhcpExtensionMs else timeoutMs

def waits (timeoutMs : UInt32) (start : Nat) (turns : Nat → Turn) (n : Nat) : Bool :=
  decide (counter (turns n).time - counter start < budgetAt timeoutMs turns n) && !(turns n).connected

/-- The statics behind turn `n`, with the outcome. -/
def joinedAt (timeoutMs : UInt32) (start : Nat) (turns : Nat → Turn) (s : Station) (n : Nat) :
    Station × Nat × Bool :=
  if counter (turns n).time - counter start < budgetAt timeoutMs turns n then
    ({ s.onEvents (seen turns (n + 1)) with everConnected := true }.detected (turns n).detected, n, true)
  else (s.onEvents (seen turns (n + 1)), n, false)

/-- The loop is a wait of `Lib.waitFrom`: its budget and its flag are functions of the callbacks. -/
theorem connectLoop_eq {s : Station} (fresh : s.l2Associated = false) (fuel n : Nat) :
    connectLoop start turns fuel n (budgetAt timeoutMs turns n) (associated (seen turns n))
        (s.onEvents (seen turns n)) =
      (waitFrom (waits timeoutMs start turns) fuel n).map (joinedAt timeoutMs start turns s) := by
  induction fuel generalizing n with
  | zero => rfl
  | succ fuel ih =>
      have next : (s.onEvents (seen turns n)).onEvents (turns n).events = s.onEvents (seen turns (n + 1)) := by
        rw [seen_succ, Station.onEvents_append]
      have flag : (s.onEvents (seen turns (n + 1))).l2Associated =
          (associated (seen turns n) || associated (turns n).events) := by
        rw [Station.onEvents_eq, fresh, Bool.false_or, seen_succ, associated_append]
      rw [connectLoop, waitFrom]
      simp only [next]
      by_cases inside : counter (turns n).time - counter start < budgetAt timeoutMs turns n
      · by_cases connected : (turns n).connected = true
        · simp [waits, inside, connected, joinedAt]
        · have held : waits timeoutMs start turns n = true := by simp [waits, inside, connected]
          rw [if_pos inside, if_neg connected, if_pos held, ← ih (n + 1), flag, budgetAt, budgetAt]
          simp only [seen_succ, associated_append]
          cases associated (seen turns n) <;> cases associated (turns n).events <;> rfl
      · simp [waits, inside, joinedAt]

/-- How long turn `n` still waits, in real time. -/
def limitAt (timeoutMs : UInt32) (turns : Nat → Turn) (n : Nat) : Nat :=
  timeoutMs.toNat + if associated (seen turns n) then kDhcpExtensionMs.toNat else 0

theorem limitAt_le (n : Nat) : limitAt timeoutMs turns n ≤ timeoutMs.toNat + kDhcpExtensionMs.toNat := by
  rw [limitAt]
  split <;> omega

theorem limitAt_succ (n : Nat) : limitAt timeoutMs turns n ≤ limitAt timeoutMs turns (n + 1) := by
  rw [limitAt, limitAt, seen_succ, associated_append]
  cases associated (seen turns n) with
  | true => simp
  | false => simp

theorem inside_iff (short : timeoutMs.toNat + kDhcpExtensionMs.toNat < 2 ^ 32) {n : Nat}
    (started : start ≤ (turns n).time) (recent : (turns n).time < start + 2 ^ 32) :
    counter (turns n).time - counter start < budgetAt timeoutMs turns n ↔
      (turns n).time < start + limitAt timeoutMs turns n := by
  have whole : (budgetAt timeoutMs turns n).toNat = limitAt timeoutMs turns n := by
    rw [budgetAt, limitAt]
    split
    · rw [UInt32.toNat_add, Nat.mod_eq_of_lt short]
    · rfl
  rw [← UInt32.not_le, elapsed_iff started recent, whole, Nat.not_le]

/-- The statics that `connect` begins with. -/
def Station.attempting (s : Station) : Station :=
  { s with lastDiscReason := 0, l2Associated := false, dhcpTimedOut := false }

theorem Station.error_eq (s : Station) (events : List WifiEvent) :
    (if (s.attempting.onEvents events).l2Associated || (s.attempting.onEvents events).dhcpTimedOut then
      ProvErr.noIp
    else classifyWifiDisconnect (s.attempting.onEvents events).lastDiscReason) = joinError events := by
  simp only [onEvents_eq, attempting, Bool.false_or, Bool.or_eq_true, decide_eq_true_eq, joinError]
  split
  · rfl
  · rw [classifyWifiDisconnect]
    cases (events.filterMap WifiEvent.reason).getLast? <;> simp

theorem connect_eq (s : Station) :
    connect timeoutMs start turns s =
      (waitFrom (waits timeoutMs start turns) (connectTurns timeoutMs) 0).map fun n =>
        if counter (turns n).time - counter start < budgetAt timeoutMs turns n then
          ({ s.attempting.onEvents (seen turns (n + 1)) with everConnected := true }.detected
            (turns n).detected, none)
        else (s.attempting.onEvents (seen turns (n + 1)), some (joinError (seen turns (n + 1)))) := by
  have whole : connectLoop start turns (connectTurns timeoutMs) 0 timeoutMs false s.attempting =
      (waitFrom (waits timeoutMs start turns) (connectTurns timeoutMs) 0).map
        (joinedAt timeoutMs start turns s.attempting) :=
    @connectLoop_eq timeoutMs start turns s.attempting rfl (connectTurns timeoutMs) 0
  have ends : connect timeoutMs start turns s =
      (connectLoop start turns (connectTurns timeoutMs) 0 timeoutMs false s.attempting).bind fun r =>
        some (r.1, if r.2.2 then none
          else some (if r.1.l2Associated || r.1.dhcpTimedOut then .noIp
            else classifyWifiDisconnect r.1.lastDiscReason)) := rfl
  rw [ends, whole]
  cases waitFrom (waits timeoutMs start turns) (connectTurns timeoutMs) 0 with
  | none => rfl
  | some n =>
      simp only [Option.map_some, Option.bind_some, joinedAt]
      split
      · rfl
      · simp only [Bool.false_eq_true, if_false, s.error_eq]

/-- A join ends at the first turn that finds an address or is out of its time, which an association
seen in an earlier turn extends once; and the error is the one that its callbacks give. -/
theorem join_reports (polled : Polled kConnectPollMs.toNat gap start fun n => (turns n).time)
    (short : timeoutMs.toNat + kDhcpExtensionMs.toNat + gap ≤ 2 ^ 32) (s : Station) :
    ∃ n s' outcome, connect timeoutMs start turns s = some (s', outcome) ∧
      (∀ j, j < n → (turns j).connected = false ∧ (turns j).time < start + limitAt timeoutMs turns j) ∧
      (turns n).time < start + limitAt timeoutMs turns n + gap ∧
      (outcome = none ∧ (turns n).connected = true ∧ (turns n).time < start + limitAt timeoutMs turns n ∨
        outcome = some (joinError (seen turns (n + 1))) ∧
          start + limitAt timeoutMs turns n ≤ (turns n).time) ∧
      s'.everConnected = (s.everConnected || outcome.isNone) ∧
      s'.stamps = ((seen turns (n + 1)).filterMap WifiEvent.linkUp ++
        if outcome = none then [LinkUp.detected (turns n).detected] else []).foldl LinkStamps.stamp s.stamps := by
  have some_gap : 0 < gap := by
    have := polled.first
    omega
  have in_time : ∀ n, (turns n).time < start + (timeoutMs.toNat + kDhcpExtensionMs.toNat) + gap →
      (counter (turns n).time - counter start < budgetAt timeoutMs turns n ↔
        (turns n).time < start + limitAt timeoutMs turns n) := fun n soon =>
    inside_iff (by omega) (polled.started n) (by omega)
  have bounded : ∀ n, start + (timeoutMs.toNat + kDhcpExtensionMs.toNat) ≤ (turns n).time →
      (turns n).time < start + (timeoutMs.toNat + kDhcpExtensionMs.toNat) + gap →
      waits timeoutMs start turns n = false := fun n late soon => by
    have out := (in_time n soon).not.mpr (by have := @limitAt_le timeoutMs turns n; omega)
    simp [waits, out]
  have room : timeoutMs.toNat + kDhcpExtensionMs.toNat ≤
      ((timeoutMs.toNat + kDhcpExtensionMs.toNat) / kConnectPollMs.toNat + 1) * kConnectPollMs.toNat := by
    have := Nat.lt_div_mul_add (a := timeoutMs.toNat + kDhcpExtensionMs.toNat) (b := kConnectPollMs.toNat) (by decide)
    rw [Nat.succ_mul]
    omega
  obtain ⟨n, found⟩ := wait_ends polled bounded _ room
  obtain ⟨-, -, free, earlier⟩ := waitFrom_eq_some_iff.mp found
  have inside := held_inside polled bounded fun j before => earlier j (Nat.zero_le j) before
  have soon := polled.soon inside
  have held : ∀ j, j < n → (turns j).connected = false ∧
      (turns j).time < start + limitAt timeoutMs turns j := fun j before => by
    have waiting := earlier j (Nat.zero_le j) before
    simp only [waits, Bool.and_eq_true, decide_eq_true_eq, Bool.not_eq_true'] at waiting
    exact ⟨waiting.2, (in_time j (by have := inside j before; omega)).mp waiting.1⟩
  have close : (turns n).time < start + limitAt timeoutMs turns n + gap := by
    cases n with
    | zero =>
        have := polled.first
        omega
    | succ n =>
        have := polled.near n
        have := (held n (Nat.lt_succ_self n)).2
        have := @limitAt_succ timeoutMs turns n
        omega
  by_cases in_budget : counter (turns n).time - counter start < budgetAt timeoutMs turns n
  · have found_address : (turns n).connected = true := by simpa [waits, in_budget] using free
    refine ⟨n, _, none, by rw [connect_eq, connectTurns, found, Option.map_some, if_pos in_budget],
      held, close, .inl ⟨rfl, found_address, (in_time n soon).mp in_budget⟩, ?_, ?_⟩
    · simp [Station.detected]
    · simp [Station.detected, Station.onEvents_eq, Station.attempting]
  · refine ⟨n, _, some (joinError (seen turns (n + 1))),
      by rw [connect_eq, connectTurns, found, Option.map_some, if_neg in_budget],
      held, close, .inr ⟨rfl, Nat.not_lt.mp ((in_time n soon).not.mp in_budget)⟩, ?_, ?_⟩
    · simp [Station.onEvents_eq, Station.attempting]
    · simp [Station.onEvents_eq, Station.attempting]

end

/-- A lease that takes longer than the time of the attempt. -/
def slowLease (n : Nat) : Turn :=
  { events := if n = 70 then [.connected 37400] else [], time := 20000 + 250 * n,
    connected := n ≥ 150, detected := 20000 + 250 * n }

theorem join_reports_slow :
    ∃ n s' outcome, connect WIFI_CONNECT_TIMEOUT_MS 20000 slowLease {} = some (s', outcome) ∧
      (slowLease n).time < 20000 + limitAt WIFI_CONNECT_TIMEOUT_MS slowLease n + 251 := by
  have polled : Polled kConnectPollMs.toNat 251 20000 fun n => (slowLease n).time := by
    refine ⟨by decide, fun n => ?_, fun n => ?_⟩ <;>
      simp only [slowLease, kConnectPollMs, UInt32.reduceToNat] <;> omega
  obtain ⟨n, s', outcome, joined, -, close, -⟩ := @join_reports WIFI_CONNECT_TIMEOUT_MS 20000 251 slowLease polled (by decide) {}
  exact ⟨n, s', outcome, joined, close⟩

/-! ## The watchdog -/

/-- The last stamped look that found the link down: every later one did too, and nothing but that look
asked for a reconnect since. -/
def DownSince (trace : List Note) (lost : Nat) : Prop :=
  ∃ front back, trace = front ++ .looked lost false :: back ∧
    ∀ note ∈ back, (∀ time, note ≠ .looked time true) ∧ ∀ time, note = .reconnected time → time = lost

theorem DownSince.append {trace notes : List Note} {lost : Nat} (down : DownSince trace lost)
    (calm : ∀ note ∈ notes, (∀ time, note ≠ .looked time true) ∧ ∀ time, note ≠ .reconnected time) :
    DownSince (trace ++ notes) lost := by
  obtain ⟨front, back, rfl, since⟩ := down
  refine ⟨front, back ++ notes, by simp, fun note member => ?_⟩
  rcases List.mem_append.mp member with earlier | later
  · exact since note earlier
  · exact ⟨(calm note later).1, fun time same => absurd same ((calm note later).2 time)⟩

/-- What may follow. -/
def Watched (before : List Note) : Note → Prop
  | .looked time _ => ∀ earlier up, .looked earlier up ∈ before → earlier + kMaintainMs.toNat ≤ time
  | .reconnected time => ∃ lost, DownSince before lost ∧ lost + kReconnectMs.toNat < time
  | .linkUp (.detected time) =>
      ∃ earlier lost, before = earlier ++ [.looked time true] ∧ DownSince earlier lost
  | .linkUp (.associated _) => True

/-- A look that found the link down, and every later one did too, and no reconnect behind it. -/
def Unanswered (trace : List Note) (time : Nat) : Prop :=
  ∃ front back, trace = front ++ .looked time false :: back ∧
    ∀ note ∈ back, (∀ later, note ≠ .looked later true) ∧ ∀ later, note = .reconnected later → later ≤ time

theorem Unanswered.concat {trace : List Note} {note : Note} {time : Nat}
    (unanswered : Unanswered (trace ++ [note]) time) :
    note = .looked time false ∨ Unanswered trace time ∧ (∀ later, note ≠ .looked later true) ∧
      ∀ later, note = .reconnected later → later ≤ time := by
  obtain ⟨front, back, split, since⟩ := unanswered
  induction back using List.reverseRecOn with
  | nil =>
      obtain ⟨-, one⟩ := List.append_inj' split rfl
      cases one
      exact .inl rfl
  | append_singleton back last _ =>
      rw [← List.cons_append, ← List.append_assoc] at split
      obtain ⟨rfl, one⟩ := List.append_inj' split rfl
      cases one
      refine .inr ⟨⟨front, back, rfl, fun note member => since note (List.mem_append_left _ member)⟩, ?_⟩
      exact since note (by simp)

/-- The state of the watchdog, with the time of its last pass and of its last look. -/
structure Watching (gap : Nat) (s : Station) (trace : List Note) (now check : Nat) : Prop where
  joined : s.everConnected = true
  checked : s.lastCheck = counter check
  passed : check ≤ now
  soon : now < check + kMaintainMs.toNat
  looks : ∀ time up, .looked time up ∈ trace → time ≤ check
  down : s.lost ≠ 0 → ∃ lost, s.lost = counter lost ∧ lost ≤ check ∧ check ≤ lost + kReconnectMs.toNat ∧
    DownSince trace lost ∧ ∀ time, Unanswered trace time → lost ≤ time + kMaintainMs.toNat + gap
  up : s.lost = 0 → ∀ time, Unanswered trace time → time = check ∧ counter check = 0
  ordered : Ordered Watched trace

theorem watching_start (gap : Nat) {s : Station} (joined : s.everConnected = true) (unchecked : s.lastCheck = 0)
    (unlost : s.lost = 0) : Watching gap s [] 0 0 where
  joined := joined
  checked := unchecked
  passed := Nat.le_refl 0
  soon := by decide
  looks := nofun
  down lost := absurd unlost lost
  up _ time unanswered := by
    obtain ⟨front, back, split, -⟩ := unanswered
    simp at split
  ordered := trivial

section

variable {gap now check : Nat} {s : Station} {trace : List Note}

theorem Watching.event (watching : Watching gap s trace now check) (e : WifiEvent) :
    Watching gap (s.onEvent e) (trace ++ callbackNotes e) now check := by
  obtain ⟨joined, checked, passed, soon, looks, down, up, ordered⟩ := watching
  cases e with
  | disconnected reason => rw [callbackNotes, List.append_nil]; exact ⟨joined, checked, passed, soon, looks, down, up, ordered⟩
  | dhcpTimeout => rw [callbackNotes, List.append_nil]; exact ⟨joined, checked, passed, soon, looks, down, up, ordered⟩
  | connected time =>
      have before : ∀ x, Unanswered (trace ++ [.linkUp (.associated time)]) x → Unanswered trace x :=
        fun x unanswered => (unanswered.concat.resolve_left nofun).1
      refine ⟨joined, checked, passed, soon, ?_, fun lost => ?_, fun unlost x unanswered => ?_, ?_⟩
      · intro x was_up member
        exact looks x was_up (by simpa [callbackNotes] using member)
      · obtain ⟨since, same, low, high, down_since, answered⟩ := down lost
        refine ⟨since, same, low, high, down_since.append (by simp [callbackNotes]), ?_⟩
        exact fun x unanswered => answered x (before x unanswered)
      · exact up unlost x (before x unanswered)
      · exact ordered_append.mpr ⟨ordered, trivial, trivial⟩

/-- A look is due when five seconds really passed. -/
theorem Watching.due_iff (watching : Watching gap s trace now check) {time : Nat} (later : now ≤ time)
    (near : time < now + gap) (short : kMaintainMs.toNat + gap ≤ 2 ^ 32) :
    counter time - s.lastCheck < kMaintainMs ↔ time < check + kMaintainMs.toNat := by
  have passed := watching.passed
  have soon := watching.soon
  rw [watching.checked, ← UInt32.not_le, elapsed_iff (by omega) (by omega), Nat.not_le]

theorem Watching.may_look (watching : Watching gap s trace now check) {time : Nat}
    (due : check + kMaintainMs.toNat ≤ time) (up : Bool) : Watched trace (.looked time up) := by
  intro earlier was_up member
  have := watching.looks earlier was_up member
  omega

/-- A look that finds the link up. -/
theorem Watching.found_up (watching : Watching gap s trace now check) {time : Nat}
    (due : check + kMaintainMs.toNat ≤ time) {s' : Station} {notes : List Note}
    (same : s' = { s with stamps := s'.stamps, lastCheck := counter time, lost := 0 })
    (noted : notes = [] ∨ s.lost ≠ 0 ∧ notes = [.linkUp (.detected time)]) :
    Watching gap s' (trace ++ .looked time true :: notes) time time := by
  have few : ∀ note ∈ notes, note = .linkUp (.detected time) := by
    rintro note member
    rcases noted with rfl | ⟨-, rfl⟩
    · cases member
    · exact List.mem_singleton.mp member
  have none_unanswered : ∀ x, ¬ Unanswered (trace ++ .looked time true :: notes) x := by
    intro x unanswered
    have first : ¬ Unanswered (trace ++ [.looked time true]) x := fun open_look => by
      rcases open_look.concat with other | ⟨-, never, -⟩
      · cases other
      · exact never time rfl
    rcases noted with rfl | ⟨-, rfl⟩
    · exact first unanswered
    · rw [List.append_cons] at unanswered
      exact first (unanswered.concat.resolve_left nofun).1
  rw [same]
  refine ⟨watching.joined, rfl, Nat.le_refl _, Nat.lt_add_of_pos_right (by decide), ?_,
    fun lost => absurd rfl lost, fun _ x unanswered => absurd unanswered (none_unanswered x), ?_⟩
  · intro x was_up member
    rcases List.mem_append.mp member with earlier | now
    · have := watching.looks x was_up earlier
      omega
    · rcases List.mem_cons.mp now with one | behind
      · cases one
        exact Nat.le_refl _
      · cases few _ behind
  · rw [List.append_cons]
    refine ordered_append.mpr ⟨ordered_append.mpr ⟨watching.ordered, watching.may_look due _, trivial⟩, ?_⟩
    rcases noted with rfl | ⟨was_lost, rfl⟩
    · trivial
    · obtain ⟨lost, -, -, -, down_since, -⟩ := watching.down was_lost
      exact ⟨⟨trace, lost, rfl, down_since⟩, trivial⟩

/-- A look that finds the link down, with the stamp that the outage has then. -/
theorem Watching.found_down (watching : Watching gap s trace now check) {time : Nat}
    (due : check + kMaintainMs.toNat ≤ time) {lost : Nat} (low : lost ≤ time)
    (high : time ≤ lost + kReconnectMs.toNat)
    (down_since : DownSince (trace ++ [.looked time false]) lost)
    (answered : ∀ x, Unanswered trace x → lost ≤ x + kMaintainMs.toNat + gap)
    (anew : counter lost = 0 → lost = time ∧ ∀ x, ¬ Unanswered trace x) :
    Watching gap { s with lastCheck := counter time, lost := counter lost }
      (trace ++ [.looked time false]) time time := by
  refine ⟨watching.joined, rfl, Nat.le_refl _, Nat.lt_add_of_pos_right (by decide), ?_, ?_, ?_, ?_⟩
  · intro x was_up member
    rcases List.mem_append.mp member with earlier | now
    · have := watching.looks x was_up earlier
      omega
    · cases List.mem_singleton.mp now
      exact Nat.le_refl _
  · refine fun _ => ⟨lost, rfl, low, high, down_since, fun x unanswered => ?_⟩
    rcases unanswered.concat with one | ⟨before, -⟩
    · cases one
      omega
    · exact answered x before
  · intro unlost x unanswered
    obtain ⟨rfl, none_before⟩ := anew unlost
    rcases unanswered.concat with one | ⟨before, -⟩
    · cases one
      exact ⟨rfl, unlost⟩
    · exact absurd before (none_before x)
  · exact ordered_append.mpr ⟨watching.ordered, watching.may_look due _, trivial⟩

/-- A look that asks for a reconnect begins the time until the next one. -/
theorem Watching.asked (watching : Watching gap s trace now check) {time : Nat}
    (due : check + kMaintainMs.toNat ≤ time) {lost : Nat} (down_since : DownSince trace lost)
    (late : lost + kReconnectMs.toNat < time) :
    Watching gap { s with lastCheck := counter time, lost := counter time }
      (trace ++ [.looked time false, .reconnected time]) time time := by
  have down_still : DownSince (trace ++ [.looked time false]) lost := down_since.append (by simp)
  have only_now : ∀ x, Unanswered (trace ++ [.looked time false, .reconnected time]) x → x = time := by
    intro x unanswered
    rw [List.append_cons] at unanswered
    obtain ⟨open_look, -, behind⟩ := unanswered.concat.resolve_left nofun
    rcases open_look.concat with one | ⟨before, -⟩
    · cases one
      rfl
    · obtain ⟨front, back, rfl, -⟩ := before
      have := watching.looks x false (by simp)
      have := behind time rfl
      omega
  refine ⟨watching.joined, rfl, Nat.le_refl _, Nat.lt_add_of_pos_right (by decide), ?_, ?_, ?_, ?_⟩
  · intro x was_up member
    rcases List.mem_append.mp member with earlier | now
    · have := watching.looks x was_up earlier
      omega
    · simp only [List.mem_cons, Note.looked.injEq, reduceCtorEq, List.not_mem_nil, or_false] at now
      omega
  · refine fun _ => ⟨time, rfl, Nat.le_refl _, Nat.le_add_right _ _, ⟨trace, [.reconnected time], rfl, ?_⟩, ?_⟩
    · simp
    · intro x unanswered
      rw [only_now x unanswered]
      omega
  · exact fun zero x unanswered => ⟨only_now x unanswered, zero⟩
  · rw [List.append_cons]
    refine ordered_append.mpr ⟨ordered_append.mpr ⟨watching.ordered, watching.may_look due _, trivial⟩, ?_⟩
    exact ⟨⟨lost, down_still, late⟩, trivial⟩

theorem Watching.pass (watching : Watching gap s trace now check) {time : Nat} (later : now ≤ time)
    (near : time < now + gap) (short : kReconnectMs.toNat + kMaintainMs.toNat + gap ≤ 2 ^ 32) (up : Bool) :
    ∃ check', Watching gap (maintain s time up).1 (trace ++ (maintain s time up).2) time check' := by
  have due_iff := watching.due_iff later near (by omega)
  have passed := watching.passed
  have soon := watching.soon
  rw [maintain]
  by_cases early : counter time - s.lastCheck < kMaintainMs
  · rw [if_pos early, List.append_nil]
    exact ⟨check, { watching with passed := Nat.le_trans passed later, soon := due_iff.mp early }⟩
  · have due : check + kMaintainMs.toNat ≤ time := Nat.not_lt.mp (due_iff.not.mp early)
    rw [if_neg early]
    refine ⟨time, ?_⟩
    cases up with
    | true =>
        by_cases was_lost : s.lost ≠ 0
        · simp only [if_true, if_pos was_lost]
          exact watching.found_up due rfl (.inr ⟨was_lost, rfl⟩)
        · simp only [if_true, if_neg was_lost]
          refine watching.found_up due ?_ (.inl rfl)
          rw [not_not] at was_lost
          simp [was_lost]
    | false =>
        have ever : (!s.everConnected) = false := by rw [watching.joined]; rfl
        simp only [Bool.false_eq_true, if_false, ever]
        by_cases was_lost : s.lost = 0
        · have quiet : ¬ counter time - counter time > kReconnectMs := by simp [kReconnectMs]
          simp only [was_lost, if_true, if_neg quiet]
          have none_before : counter time = 0 → ∀ x, ¬ Unanswered trace x := by
            intro zero x unanswered
            have other := (watching.up was_lost x unanswered).2
            have apart := toNat_elapsed (Nat.le_trans passed later)
            rw [zero, other, Nat.mod_eq_of_lt (by omega)] at apart
            have some_time : 0 < kMaintainMs.toNat := by decide
            simp only [UInt32.sub_self, UInt32.toNat_zero] at apart
            omega
          refine watching.found_down due (Nat.le_refl _) (Nat.le_add_right _ _)
            ⟨trace, [], rfl, nofun⟩ ?_ fun zero => ⟨rfl, none_before zero⟩
          intro x unanswered
          rw [(watching.up was_lost x unanswered).1]
          omega
        · obtain ⟨lost, same, low, high, down_since, answered⟩ := watching.down was_lost
          have exact_gap : counter time - s.lost > kReconnectMs ↔ lost + kReconnectMs.toNat < time := by
            rw [same]
            exact more_elapsed_iff (by omega) (by omega)
          simp only [if_neg was_lost]
          by_cases asks : counter time - s.lost > kReconnectMs
          · simp only [if_pos asks]
            exact watching.asked due down_since (exact_gap.mp asks)
          · simp only [if_neg asks]
            have inside := exact_gap.not.mp asks
            rw [same] at was_lost ⊢
            exact watching.found_down due (by omega) (by omega) (down_since.append (by simp)) answered
              fun zero => absurd zero was_lost

end

/-! ## Whole runs -/

def Happening.passTime : Happening → Option Nat
  | .event _ => none
  | .pass time _ => some time

/-- The passes of a run that begins with the counter. -/
def passTimes (happenings : List Happening) : List Nat := happenings.filterMap Happening.passTime

def lastPass (happenings : List Happening) : Nat := (passTimes happenings).getLastD 0

theorem watch_concat (s : Station) (happenings : List Happening) (h : Happening) :
    watch s (happenings ++ [h]) = advance step (watch s happenings) h := by
  rw [watch, run_concat]
  rfl

section

variable {gap : Nat} {s : Station} {happenings : List Happening}

theorem watch_watching (joined : s.everConnected = true) (unchecked : s.lastCheck = 0) (unlost : s.lost = 0)
    (short : kReconnectMs.toNat + kMaintainMs.toNat + gap ≤ 2 ^ 32)
    (steady : Stretch.Steady id gap (0 :: passTimes happenings)) :
    ∃ check, Watching gap (watch s happenings).1 (watch s happenings).2 (lastPass happenings) check := by
  induction happenings using List.reverseRecOn with
  | nil => exact ⟨0, watching_start gap joined unchecked unlost⟩
  | append_singleton happenings h ih =>
      rw [passTimes, List.filterMap_append, ← passTimes, ← List.cons_append] at steady
      obtain ⟨check, watching⟩ := ih steady.front
      rw [watch_concat]
      cases h with
      | event e =>
          have same : lastPass (happenings ++ [.event e]) = lastPass happenings := by
            simp [lastPass, passTimes, Happening.passTime]
          rw [same]
          exact ⟨check, watching.event e⟩
      | pass time up =>
          have same : lastPass (happenings ++ [.pass time up]) = time := by
            simp [lastPass, passTimes, Happening.passTime]
          have near : lastPass happenings ≤ time ∧ time < lastPass happenings + gap := by
            refine (List.isChain_append.mp steady).2.2 _ ?_ time (by simp [Happening.passTime])
            simp [List.getLast?_cons, List.getLastD_eq_getLast?]
          rw [same]
          exact watching.pass near.1 near.2 short up

/-- The watchdog looks every five seconds at most. It asks for a reconnect only more than twenty
seconds behind a look since which the link was down and none was asked for, and stamps an address only
at the end of an outage. And it goes on asking: no look that found the link down stays without a later
reconnect, or a later look that finds it up, for thirty seconds and a pass. -/
theorem reconnects_while_down (joined : s.everConnected = true) (unchecked : s.lastCheck = 0)
    (unlost : s.lost = 0) (short : kReconnectMs.toNat + kMaintainMs.toNat + gap ≤ 2 ^ 32)
    (steady : Stretch.Steady id gap (0 :: passTimes happenings)) :
    Ordered Watched (watch s happenings).2 ∧
      ∀ time, Unanswered (watch s happenings).2 time →
        lastPass happenings < time + kReconnectMs.toNat + 2 * kMaintainMs.toNat + gap := by
  obtain ⟨check, watching⟩ := watch_watching joined unchecked unlost short steady
  refine ⟨watching.ordered, fun time unanswered => ?_⟩
  have soon := watching.soon
  by_cases was_lost : s.lost = (watch s happenings).1.lost
  · obtain ⟨rfl, -⟩ := watching.up (was_lost ▸ unlost) time unanswered
    omega
  · rw [unlost] at was_lost
    obtain ⟨lost, -, -, high, -, answered⟩ := watching.down (Ne.symm was_lost)
    have := answered time unanswered
    omega

end

/-- The link goes down for half a minute. -/
def linkLost : List Happening :=
  [.pass 30000 true, .pass 40000 false, .pass 50000 false, .event (.disconnected 200), .pass 60500 false,
    .pass 70000 false, .event (.connected 74000), .pass 76000 true]

theorem reconnects_while_down_lost :
    Ordered Watched (watch { everConnected := true } linkLost).2 :=
  (@reconnects_while_down 30001 { everConnected := true } linkLost rfl rfl rfl (by decide)
    (by rw [Stretch.Steady]; decide)).1

def linkUps (trace : List Note) : List LinkUp :=
  trace.filterMap fun
    | .linkUp l => some l
    | _ => none

theorem step_stamps (s : Station) (h : Happening) :
    (step s h).1.stamps = (linkUps (step s h).2).foldl LinkStamps.stamp s.stamps := by
  cases h with
  | event e => cases e <;> rfl
  | pass time up =>
      rw [step, maintain]
      split
      · rfl
      · dsimp only
        split
        · split <;> rfl
        · split
          · rfl
          · split <;> split <;> rfl

/-- The stamps of a station are those of its link-ups, so that the boot gate over them is the one of
`connectAnchorMs`. -/
theorem watch_stamps (s : Station) (happenings : List Happening) :
    (watch s happenings).1.stamps =
      (linkUps (watch s happenings).2).foldl LinkStamps.stamp s.stamps := by
  induction happenings using List.reverseRecOn with
  | nil => rfl
  | append_singleton happenings h ih =>
      rw [watch_concat, advance, step_stamps, ih, linkUps, linkUps, linkUps, List.filterMap_append,
        List.foldl_append]

end FryFirmware.Wifi
