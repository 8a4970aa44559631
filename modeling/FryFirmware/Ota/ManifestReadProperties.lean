import FryFirmware.Ota.ManifestRead
import Mathlib.Data.List.Basic
import Mathlib.Tactic.Common

/-!
# What the manifest reader answers

The reader ends on every behaviour of the network, and each of its answers says what is
in the sink.
-/

set_option autoImplicit false

namespace FryFirmware.Ota.Manifest

open Config (Text)

/-! ## The network -/

namespace Net

theorem arrive_taken (net : Net) (a : Arrival) : (net.arrive a).taken = net.taken := by
  cases a <;> simp only [arrive] <;> split <;> rfl

theorem arrive_fin {net : Net} (closed : net.wire = .fin) (a : Arrival) : net.arrive a = net := by
  cases a <;> simp [arrive, closed]

theorem arriveAll_taken (net : Net) (arrivals : List Arrival) : (net.arriveAll arrivals).taken = net.taken := by
  induction arrivals generalizing net with
  | nil => rfl
  | cons a arrivals ih => exact (ih (net.arrive a)).trans (net.arrive_taken a)

theorem arriveAll_fin {net : Net} (closed : net.wire = .fin) (arrivals : List Arrival) :
    net.arriveAll arrivals = net := by
  induction arrivals with
  | nil => rfl
  | cons a arrivals ih => rw [arriveAll, List.foldl_cons, arrive_fin closed]; exact ih

theorem taken_prefix (net : Net) : net.taken <+: net.sent := by
  rw [sent, List.append_assoc]
  exact List.prefix_append _ _

end Net

/-! ## One turn -/

section

variable (expected : Nat) (timeoutMs : UInt32)

/-- Between two turns the sink has all that was read, and no request went beyond the
announced length. -/
structure Sound (r : Reader) : Prop where
  sink : r.sink = r.net.taken
  got : r.got = r.net.taken.length
  within : r.got ≤ expected
  asked : ∀ q ∈ r.requests, q.1 + q.2 ≤ expected
  last : r.last = nowMs r.lastAt
  past : r.lastAt ≤ r.clock

/-- What each answer says. -/
structure Answered (answer : ManifestRead) (r : Reader) : Prop where
  asked : ∀ q ∈ r.requests, q.1 + q.2 ≤ expected
  ok : answer = .Ok → expected ≤ r.net.sent.length ∧ r.sink = r.net.sent.take expected
  closed : answer = .Closed → r.net.wire = .fin ∧ r.sink = r.net.sent ∧ r.net.sent.length < expected
  silent : answer = .TimedOut → r.lastAt + timeoutMs.toNat ≤ r.clock
  partly : answer ≠ .Ok → r.sink <+: r.net.sent ∧ r.sink.length < expected
  other : answer ≠ .Ok → answer ≠ .Closed → answer ≠ .TimedOut → r.sink ≠ r.net.sent

/-- A turn that goes on read bytes, or waited less than the timeout and idled. -/
def Continues (r : Reader) (t : Turn) (r' : Reader) : Prop :=
  r.got < r'.got ∨
    r'.got = r.got ∧ r'.last = r.last ∧ nowMs (r.clock + t.wait) - r.last < timeoutMs ∧
      r'.clock = r.clock + t.wait + 1 + t.idle

variable {expected timeoutMs}

theorem Sound.net {r : Reader} (sound : Sound expected r) {net : Net} (same : net.taken = r.net.taken) :
    Sound expected { r with net := net } where
  sink := sound.sink.trans same.symm
  got := sound.got.trans (congrArg List.length same.symm)
  within := sound.within
  asked := sound.asked
  last := sound.last
  past := sound.past

theorem Sound.ask {r : Reader} (sound : Sound expected r) {want : Nat} (few : want ≤ expected - r.got) :
    Sound expected { r with requests := (r.got, want) :: r.requests } where
  sink := sound.sink
  got := sound.got
  within := sound.within
  asked := by
    intro q member
    rcases List.mem_cons.mp member with rfl | earlier
    · have room := sound.within
      dsimp only
      omega
    · exact sound.asked q earlier
  last := sound.last
  past := sound.past

/-- The 32-bit difference is never more than the time that passed. -/
theorem elapsed_le {before now : Nat} (past : before ≤ now) :
    (nowMs now - nowMs before).toNat ≤ now - before := by
  rw [nowMs, nowMs, ← UInt32.ofNat_sub past, UInt32.toNat_ofNat']
  exact Nat.mod_le _ _

theorem noByte_spec {r : Reader} (sound : Sound expected r) (more : r.got < expected) (t : Turn) :
    (∃ r', r.noByte timeoutMs t = (r', none) ∧ Sound expected r' ∧ Continues timeoutMs r t r') ∨
      ∃ r' answer, r.noByte timeoutMs t = (r', some answer) ∧ Answered expected timeoutMs answer r' := by
  have past := sound.past
  simp only [Reader.noByte]
  split
  · next late =>
    refine .inr ⟨_, _, rfl, ?_⟩
    refine ⟨sound.asked, nofun, nofun, fun _ => ?_, fun _ => ?_, fun _ _ silent => absurd rfl silent⟩
    · have elapsed := @elapsed_le r.lastAt (r.clock + t.wait) (by omega)
      have enough := UInt32.le_iff_toNat_le.mp late
      rw [sound.last] at enough
      dsimp only at enough ⊢
      omega
    · refine ⟨sound.sink ▸ r.net.taken_prefix, ?_⟩
      rw [sound.sink, ← sound.got]
      exact more
  · next early =>
    refine .inl ⟨_, rfl, ?_, .inr ⟨rfl, rfl, UInt32.not_le.mp early, rfl⟩⟩
    exact ⟨sound.sink, sound.got, sound.within, sound.asked, sound.last, by dsimp only; omega⟩

/-- A connection that was closed before it had nothing queued has ended. -/
theorem closed_sent {net : Net} {t : Turn} (closed : net.connected t = false) (arrivals : List Arrival)
    (nothing : ¬ (net.arriveAll arrivals).available (net.connected t) t > 0) :
    (net.arriveAll arrivals).wire = .fin ∧ (net.arriveAll arrivals).sent = (net.arriveAll arrivals).taken := by
  have fin : net.wire = .fin := by
    simp only [Net.connected, Bool.or_eq_false_iff, Bool.not_eq_false', decide_eq_true_eq] at closed
    exact closed.1
  rw [Net.arriveAll_fin fin] at nothing ⊢
  have empty : net.queue = [] := by
    by_contra queued
    rw [Net.available, closed, if_pos ⟨rfl, queued⟩] at nothing
    omega
  refine ⟨fin, ?_⟩
  simp [Net.sent, empty, fin, Wire.inFlight]

/-- The bytes of a read are the next of the queue, and no more than were asked for. -/
theorem read_spec (net : Net) (want : Nat) (t : Turn) :
    (∃ rest, net.queue = net.read want t ++ rest) ∧ (net.read want t).length ≤ want := by
  refine ⟨⟨_, (List.take_append_drop _ _).symm⟩, ?_⟩
  rw [Net.read, List.length_take]
  omega

/-- What `append` keeps, or leaves out. -/
theorem append_spec (body bytes : Text) (memory : Bool) :
    append body bytes memory = (body ++ bytes, true) ∨ append body bytes memory = (body, false) := by
  unfold append
  split
  · exact .inr rfl
  · split
    · exact .inl rfl
    · exact .inr rfl

theorem turn_spec {r : Reader} (sound : Sound expected r) (more : r.got < expected) (t : Turn) :
    (∃ r', r.turn expected timeoutMs t = (r', none) ∧ Sound expected r' ∧ Continues timeoutMs r t r') ∨
      ∃ r' answer, r.turn expected timeoutMs t = (r', some answer) ∧ Answered expected timeoutMs answer r' := by
  have kept := ((r.net.arriveAll t.first).arriveAll_taken t.second).trans (r.net.arriveAll_taken t.first)
  have third := ((r.net.arriveAll t.first).arriveAll t.second).arriveAll_taken t.third
  have ended := @closed_sent (r.net.arriveAll t.first) t
  simp only [Reader.turn]
  generalize (r.net.arriveAll t.first).connected t = opened at ended ⊢
  have ended := fun closed => ended closed t.second
  generalize (r.net.arriveAll t.first).arriveAll t.second = net at kept third ended ⊢
  split
  · next queued =>
    generalize few : min (min (net.available opened t).toNat kManifestReadChunk) (expected - r.got) = want
    have room : want ≤ expected - r.got := few ▸ Nat.min_le_right _ _
    have asked := (sound.net (third.trans kept)).ask room
    obtain ⟨⟨rest, next⟩, short⟩ := read_spec (net.arriveAll t.third) want t
    generalize (net.arriveAll t.third).read want t = bytes at next short ⊢
    generalize net.arriveAll t.third = net at asked next ⊢
    split
    · next some_bytes =>
      rcases append_spec r.sink bytes t.memory with kept | refused
      · rw [kept]
        refine .inl ⟨_, rfl, ?_, .inl (by dsimp only; omega)⟩
        constructor
        · exact congrArg (· ++ bytes) asked.sink
        · rw [List.length_append]
          exact congrArg (· + bytes.length) asked.got
        · dsimp only
          omega
        · exact asked.asked
        · rfl
        · exact Nat.le_refl _
      · rw [refused]
        refine .inr ⟨_, _, rfl, ?_⟩
        have sink : r.sink = net.taken := asked.sink
        have got : r.got = net.taken.length := asked.got
        constructor
        · exact asked.asked
        · nofun
        · nofun
        · nofun
        · intro _
          refine ⟨?_, by rw [sink]; omega⟩
          rw [sink, Net.sent, List.append_assoc, List.append_assoc]
          exact List.prefix_append _ _
        · intro _ _ _ all
          have lengths := congrArg List.length (sink.symm.trans all)
          simp only [Net.sent, List.length_append] at lengths
          omega
    · next no_bytes =>
      obtain rfl : bytes = [] := List.length_eq_zero_iff.mp (by omega)
      simp only [List.append_nil, List.length_nil, List.drop_zero]
      exact noByte_spec asked more t
  · next nothing =>
    cases opened with
    | false =>
        obtain ⟨fin, all⟩ := ended rfl nothing
        have sink : r.sink = net.taken := sound.sink.trans kept.symm
        have got : r.got = net.taken.length := sound.got.trans (congrArg List.length kept.symm)
        refine .inr ⟨_, _, rfl, sound.asked, nofun, fun _ => ?_, nofun, fun _ => ?_, fun _ closed => ?_⟩
        · refine ⟨fin, sink.trans all.symm, ?_⟩
          rw [all, ← got]
          exact more
        · refine ⟨sink ▸ net.taken_prefix, ?_⟩
          rw [sink, ← got]
          exact more
        · exact absurd rfl closed
    | true => exact noByte_spec (sound.net kept) more t

/-! ## The run -/

variable (expected timeoutMs)

/-- From turn `n` on the loop ends, with an answer that says what it should. -/
def Ends (turns : Nat → Turn) (n : Nat) (r : Reader) : Prop :=
  ∃ least answer r', (∀ fuel, least ≤ fuel → r.loop expected timeoutMs turns fuel n = some (answer, r')) ∧
    Answered expected timeoutMs answer r'

/-- Nowhere does the clock go once around while the reader waits. -/
def Paced (turns : Nat → Turn) : Prop :=
  ∀ n, 1 + (turns n).idle + (turns (n + 1)).wait ≤ 2 ^ 32 - timeoutMs.toNat

/-- The reader waits since `waited` milliseconds, less than the timeout, and idled then. -/
structure Waits (turns : Nat → Turn) (n : Nat) (r : Reader) (waited : Nat) : Prop where
  short : waited < timeoutMs.toNat
  clock : ∃ before, r.clock = before + 1 + (turns n).idle ∧ (nowMs before - r.last).toNat = waited

variable {expected timeoutMs}

theorem ends_full {turns : Nat → Turn} {n : Nat} {r : Reader} (sound : Sound expected r)
    (full : ¬ r.got < expected) : Ends expected timeoutMs turns n r := by
  have all : r.got = expected := Nat.le_antisymm sound.within (Nat.not_lt.mp full)
  have length : r.net.taken.length = expected := sound.got.symm.trans all
  refine ⟨1, .Ok, r, fun fuel enough => ?_, ?_⟩
  · obtain ⟨fuel, rfl⟩ := Nat.exists_eq_add_of_le' enough
    rw [Reader.loop, if_neg full]
  refine ⟨sound.asked, fun _ => ⟨?_, ?_⟩, nofun, nofun, fun other => absurd rfl other,
    fun other => absurd rfl other⟩
  · rw [← length]
    exact r.net.taken_prefix.length_le
  · rw [sound.sink, ← length]
    exact List.prefix_iff_eq_take.mp r.net.taken_prefix

theorem ends_of_turn {turns : Nat → Turn} {n : Nat} {r : Reader} (sound : Sound expected r)
    (next : ∀ r', Sound expected r' → Continues timeoutMs r (turns n) r' →
      Ends expected timeoutMs turns (n + 1) r') : Ends expected timeoutMs turns n r := by
  by_cases more : r.got < expected
  · rcases turn_spec sound more (turns n) with ⟨r', step, sound', continues⟩ | ⟨r', answer, step, answered⟩
    · obtain ⟨least, answer, last, run, answered⟩ := next r' sound' continues
      refine ⟨least + 1, answer, last, fun fuel enough => ?_, answered⟩
      obtain ⟨fuel, rfl⟩ := Nat.exists_eq_add_of_le' enough
      rw [← Nat.add_assoc, Reader.loop, if_pos more, step]
      exact run (fuel + least) (Nat.le_add_left _ _)
    · refine ⟨1, answer, r', fun fuel enough => ?_, answered⟩
      obtain ⟨fuel, rfl⟩ := Nat.exists_eq_add_of_le' enough
      rw [Reader.loop, if_pos more, step]
  · exact ends_full sound more

theorem nowMs_add (clock more : Nat) (last : UInt32) :
    (nowMs (clock + more) - last).toNat = ((nowMs clock - last).toNat + more) % 2 ^ 32 := by
  have bound := last.toNat_lt
  simp only [nowMs, UInt32.toNat_sub, UInt32.toNat_ofNat']
  omega

/-- A turn that goes on without bytes waits longer than before. -/
theorem Waits.next {turns : Nat → Turn} (paced : Paced timeoutMs turns) {n waited : Nat} {r r' : Reader}
    (waits : Waits timeoutMs turns n r waited) (last : r'.last = r.last)
    (early : nowMs (r.clock + (turns (n + 1)).wait) - r.last < timeoutMs)
    (clock : r'.clock = r.clock + (turns (n + 1)).wait + 1 + (turns (n + 1)).idle) :
    ∃ waited', waited < waited' ∧ Waits timeoutMs turns (n + 1) r' waited' := by
  obtain ⟨short, before, now, since⟩ := waits
  refine ⟨_, ?_, UInt32.lt_iff_toNat_lt.mp early, r.clock + (turns (n + 1)).wait, clock, by rw [last]⟩
  have total : r.clock + (turns (n + 1)).wait = before + (1 + (turns n).idle + (turns (n + 1)).wait) := by
    omega
  have pace := paced n
  rw [total, nowMs_add, since]
  omega

/-- Once it waits, it times out unless bytes come. -/
theorem ends_waiting {turns : Nat → Turn} (paced : Paced timeoutMs turns) {left : Nat}
    (fewer : ∀ n r, Sound expected r → expected - r.got < left → Ends expected timeoutMs turns n r)
    {n waited : Nat} {r : Reader} (sound : Sound expected r) (missing : expected - r.got ≤ left)
    (waits : Waits timeoutMs turns n r waited) :
    Ends expected timeoutMs turns (n + 1) r := by
  induction room : timeoutMs.toNat - waited using Nat.strongRecOn generalizing n waited r with
  | ind room ih =>
      refine ends_of_turn sound fun r' sound' continues => ?_
      have short := waits.short
      have within := sound'.within
      rcases continues with bytes | ⟨got, last, early, clock⟩
      · exact fewer (n + 1 + 1) r' sound' (by omega)
      · obtain ⟨waited', longer, waits'⟩ := waits.next paced last early clock
        exact ih (timeoutMs.toNat - waited') (by omega) sound' (by omega) waits' rfl

theorem ends {turns : Nat → Turn} (paced : Paced timeoutMs turns) (left : Nat) {n : Nat} {r : Reader}
    (sound : Sound expected r) (missing : expected - r.got ≤ left) : Ends expected timeoutMs turns n r := by
  induction left using Nat.strongRecOn generalizing n r with
  | ind left ih =>
      have fewer : ∀ n r, Sound expected r → expected - r.got < left → Ends expected timeoutMs turns n r :=
        fun n r sound less => ih (expected - r.got) less sound (Nat.le_refl _)
      refine ends_of_turn sound fun r' sound' continues => ?_
      have within := sound'.within
      rcases continues with bytes | ⟨got, last, early, clock⟩
      · exact fewer (n + 1) r' sound' (by omega)
      · refine ends_waiting paced fewer sound' (by omega)
          ⟨UInt32.lt_iff_toNat_lt.mp early, r.clock + (turns n).wait, clock, by rw [last]⟩

end

/-! ## The body -/

end FryFirmware.Ota.Manifest
