import FryFirmware.Relay.Pool
import Mathlib.Tactic.Common

/-!
# Accepting clients

`acceptClients` evicts only for an admitted peer, only from a full pool, and
only the handshake that has been silent the longest. Its two scans agree because
nothing changes the pool between them.
-/

set_option autoImplicit false

namespace FryFirmware.Relay

open Lib

/-! ## Free slots -/

/-- The scan answers -1, or the index of a null pointer. -/
theorem freeFrom_spec (i : Nat) (slots : Pool) :
    (freeFrom i slots = -1 ∧ ∀ slot ∈ slots, slot ≠ none) ∨
      ∃ k, freeFrom i slots = ((i + k : Nat) : Int) ∧ slots[k]? = some none := by
  induction slots generalizing i with
  | nil => exact .inl ⟨rfl, fun _ present => absurd present List.not_mem_nil⟩
  | cons slot slots ih =>
      cases slot with
      | none => exact .inr ⟨0, rfl, rfl⟩
      | some s =>
          rcases ih (i + 1) with ⟨full, rest⟩ | ⟨k, free, found⟩
          · refine .inl ⟨full, fun slot present => ?_⟩
            rcases List.mem_cons.mp present with rfl | later
            · exact Option.some_ne_none s
            · exact rest slot later
          · refine .inr ⟨k + 1, ?_, found⟩
            rw [freeFrom, free, Nat.add_right_comm, Nat.add_assoc]

theorem poolFreeIndex_spec (slots : Pool) :
    (poolFreeIndex slots = -1 ∧ ∀ slot ∈ slots, slot ≠ none) ∨
      ∃ k : Nat, poolFreeIndex slots = k ∧ slots[k]? = some none := by
  rcases freeFrom_spec 0 slots with full | ⟨k, free, found⟩
  · exact .inl full
  · rw [Nat.zero_add] at free
    exact .inr ⟨k, free, found⟩

/-! ## Evictable slots -/

/-- How long a slot has been silent. -/
def silence (now : UInt32) (s : Slot) : UInt32 := elapsed now s.lastActivityMs

/-- The slot at `k` is the most silent handshake of the pool, and silent enough. -/
structure MostSilent (now minAgeMs : UInt32) (slots : Pool) (k : Nat) (s : Slot) : Prop where
  present : slots[k]? = some (some s)
  handshake : isHandshake s = true
  silent : minAgeMs ≤ silence now s
  longest : ∀ other, some other ∈ slots → isHandshake other = true →
    silence now other ≤ silence now s

/-- What the scan of `poolEvictIndex` knows after the slots `seen`. -/
def Scanned (now minAgeMs : UInt32) (seen : Pool) (best : Int) (bestAge : UInt32) : Prop :=
  (best = -1 ∧ ∀ other, some other ∈ seen → isHandshake other = true →
    ¬ minAgeMs ≤ silence now other) ∨
  ∃ (k : Nat) (s : Slot), best = k ∧ silence now s = bestAge ∧ MostSilent now minAgeMs seen k s

/-- A slot that is not the new best leaves the scan as it is. -/
theorem Scanned.skip {now minAgeMs : UInt32} {seen : Pool} {best : Int} {bestAge : UInt32}
    (scanned : Scanned now minAgeMs seen best bestAge) {slot : Option Slot}
    (worse : ∀ s, slot = some s → isHandshake s = true →
      ¬ (minAgeMs ≤ silence now s ∧ (best < 0 ∨ bestAge < silence now s))) :
    Scanned now minAgeMs (seen ++ [slot]) best bestAge := by
  rcases scanned with ⟨rfl, young⟩ | ⟨k, s, rfl, rfl, most⟩
  · refine .inl ⟨rfl, fun other present handshake old => ?_⟩
    rcases List.mem_append.mp present with before | last
    · exact young other before handshake old
    · exact worse other (List.mem_singleton.mp last).symm handshake ⟨old, .inl (by decide)⟩
  · refine .inr ⟨k, s, rfl, rfl, ?_, most.handshake, most.silent, fun other present handshake => ?_⟩
    · exact List.getElem?_append_left (List.getElem?_eq_some_iff.mp most.present).1 ▸ most.present
    · rcases List.mem_append.mp present with before | last
      · exact most.longest other before handshake
      · have fails := worse other (List.mem_singleton.mp last).symm handshake
        have silent := most.silent
        by_contra longer
        have strictly : silence now s < silence now other := UInt32.not_le.mp longer
        exact fails ⟨UInt32.le_trans silent (UInt32.le_of_lt strictly), .inr strictly⟩

/-- A slot more silent than all before it becomes the best. -/
theorem Scanned.take {now minAgeMs : UInt32} {seen : Pool} {best : Int} {bestAge : UInt32}
    (scanned : Scanned now minAgeMs seen best bestAge) {s : Slot} (handshake : isHandshake s = true)
    (silent : minAgeMs ≤ silence now s) (better : best < 0 ∨ bestAge < silence now s) :
    Scanned now minAgeMs (seen ++ [some s]) (seen.length : Nat) (silence now s) := by
  refine .inr ⟨seen.length, s, rfl, rfl, by simp, handshake, silent, fun other present shakes => ?_⟩
  rcases List.mem_append.mp present with before | last
  · rcases scanned with ⟨_, young⟩ | ⟨k, old, rfl, rfl, most⟩
    · have short := young other before shakes
      exact UInt32.le_trans (UInt32.le_of_lt (UInt32.not_le.mp short)) silent
    · have longer := better.resolve_left (by omega)
      exact UInt32.le_trans (most.longest other before shakes) (UInt32.le_of_lt longer)
  · cases List.mem_singleton.mp last
    exact UInt32.le_refl _

theorem evictFrom_scanned (now minAgeMs : UInt32) (slots : Pool) {seen : Pool} {best : Int}
    {bestAge : UInt32} (scanned : Scanned now minAgeMs seen best bestAge) :
    ∃ age, Scanned now minAgeMs (seen ++ slots)
      (evictFrom now minAgeMs seen.length best bestAge slots) age := by
  induction slots generalizing seen best bestAge with
  | nil => exact ⟨bestAge, by rwa [List.append_nil]⟩
  | cons slot slots ih =>
      have shift : seen ++ slot :: slots = (seen ++ [slot]) ++ slots := by simp
      have length : (seen ++ [slot]).length = seen.length + 1 := by simp
      rw [shift]
      cases slot with
      | none =>
          rw [evictFrom, ← length]
          refine ih (scanned.skip fun s same => ?_)
          cases same
      | some s =>
          rw [evictFrom, ← length]
          dsimp only
          split
          · next calm =>
            refine ih (scanned.skip fun other same shakes => ?_)
            cases same
            simp [shakes] at calm
          · next shaking =>
            have handshake : isHandshake s = true := by simpa using shaking
            split
            · next better => exact ih (scanned.take handshake better.1 better.2)
            · next worse =>
              refine ih (scanned.skip fun other same _ => ?_)
              cases same
              exact worse

/-- The answer is -1, or the index of the most silent handshake. -/
theorem poolEvictIndex_spec (slots : Pool) (now minAgeMs : UInt32) :
    poolEvictIndex slots now minAgeMs = -1 ∨
      ∃ (k : Nat) (s : Slot), poolEvictIndex slots now minAgeMs = k ∧
        MostSilent now minAgeMs slots k s := by
  have start : Scanned now minAgeMs [] (-1) 0 :=
    .inl ⟨rfl, fun _ present => absurd present List.not_mem_nil⟩
  obtain ⟨age, scanned⟩ := evictFrom_scanned now minAgeMs slots start
  rcases scanned with ⟨none, _⟩ | ⟨k, s, index, _, most⟩
  · exact .inl none
  · exact .inr ⟨k, s, index, most⟩

/-! ## The law of the evictions -/

/-- An eviction made room for an admitted peer in a full pool, and took the most
silent handshake. -/
structure EvictionLaw (guard : GuardConfig) (now : UInt32) (e : Eviction) : Prop where
  admitted : e.peer.wholeAddress = true ∧ peerAdmitted e.peer.address guard = true
  full : ∀ slot ∈ e.pool, slot ≠ none
  stalled : ∃ s, MostSilent now kRelayEvictMinAgeMs e.pool e.index s

/-- What `acceptClients` has done to the pool it was given. -/
structure AcceptLaw (guard : GuardConfig) (now : UInt32) (slots : Pool) (a : Acceptor) : Prop where
  length : a.slots.length = slots.length
  evictions : ∀ e ∈ a.evictions, EvictionLaw guard now e
  /-- A slot is still in its place, or it was evicted there. -/
  kept : ∀ (i : Nat) (s : Slot), slots[i]? = some (some s) →
    a.slots[i]? = some (some s) ∨
      ∃ e ∈ a.evictions, e.index = i ∧ e.pool[i]? = some (some s)

variable {guard : GuardConfig} {now finGraceMs : UInt32} {fdSetSize : Int} {slots : Pool}

theorem acceptLaw_start (guard : GuardConfig) (now : UInt32) (slots : Pool) (stats : RelayStats) :
    AcceptLaw guard now slots { slots, stats } where
  length := rfl
  evictions := fun _ present => absurd present List.not_mem_nil
  kept := fun _ _ => .inl

/-- Only the counters and the closed descriptors changed. -/
theorem AcceptLaw.bookkeeping {a b : Acceptor} (law : AcceptLaw guard now slots a)
    (sameSlots : b.slots = a.slots) (sameEvictions : b.evictions = a.evictions) :
    AcceptLaw guard now slots b where
  length := sameSlots ▸ law.length
  evictions := sameEvictions ▸ law.evictions
  kept := by
    rw [sameSlots, sameEvictions]
    exact law.kept

/-- A new slot was put where there was none. -/
theorem AcceptLaw.fill {a b : Acceptor} (law : AcceptLaw guard now slots a) {k : Nat}
    (vacant : a.slots[k]? = some none) {fresh : Slot}
    (put : b.slots = a.slots.set k (some fresh)) (sameEvictions : b.evictions = a.evictions) :
    AcceptLaw guard now slots b where
  length := by rw [put, List.length_set, law.length]
  evictions := sameEvictions ▸ law.evictions
  kept := by
    intro i s present
    rw [put, sameEvictions]
    rcases law.kept i s present with here | evicted
    · left
      have elsewhere : k ≠ i := by
        rintro rfl
        rw [vacant] at here
        cases here
      rw [List.getElem?_set_ne elsewhere, here]
    · exact .inr evicted

theorem putSlot_inside {k : Nat} (inside : k < slots.length) (slot : Option Slot) :
    putSlot slots k slot = some (slots.set k slot) := by
  unfold putSlot
  rw [if_pos ⟨Int.natCast_nonneg k, by simpa using inside⟩, Int.toNat_natCast]

/-- With a free index at hand the rest of the turn stays inside the array. -/
theorem occupy_law {a : Acceptor} (law : AcceptLaw guard now slots a) {k : Nat}
    (vacant : a.slots[k]? = some none) (peer : Peer) :
    ∃ b, occupy a k peer now finGraceMs fdSetSize = some b ∧ AcceptLaw guard now slots b := by
  have inside := (List.getElem?_eq_some_iff.mp vacant).1
  unfold occupy
  split
  · exact ⟨_, rfl, law.bookkeeping rfl rfl⟩
  · split
    · exact ⟨_, rfl, law.bookkeeping rfl rfl⟩
    · rw [putSlot_inside inside]
      exact ⟨_, rfl, law.fill vacant rfl rfl⟩

theorem slotAt_present {k : Nat} {s : Slot} (present : slots[k]? = some (some s)) :
    slotAt slots k = some s := by
  unfold slotAt
  rw [if_neg (Int.not_lt.mpr (Int.natCast_nonneg k)), Int.toNat_natCast, present]
  rfl

/-- Evicting the most silent handshake of a full pool leaves its index free. -/
theorem evict_law {a : Acceptor} (law : AcceptLaw guard now slots a) {peer : Peer}
    (admitted : peer.wholeAddress = true ∧ peerAdmitted peer.address guard = true)
    (full : ∀ slot ∈ a.slots, slot ≠ none) {k : Nat} {s : Slot}
    (index : poolEvictIndex a.slots now kRelayEvictMinAgeMs = k)
    (most : MostSilent now kRelayEvictMinAgeMs a.slots k s) :
    ∃ b, evict a peer now = some (b, (k : Int)) ∧ AcceptLaw guard now slots b ∧
      b.slots[k]? = some none := by
  have inside := (List.getElem?_eq_some_iff.mp most.present).1
  unfold evict releaseSlot
  simp only [index, slotAt_present most.present, putSlot_inside inside, Option.map_some,
    Option.bind_eq_bind, Option.bind_some, Option.pure_def]
  refine ⟨_, rfl, ⟨?_, ?_, ?_⟩, ?_⟩
  · exact List.length_set.trans law.length
  · intro e present
    rcases List.mem_append.mp present with old | new
    · exact law.evictions e old
    · rw [List.mem_singleton.mp new]
      exact ⟨admitted, full, s, by rwa [Int.toNat_natCast]⟩
  · intro i t present
    dsimp only
    rcases law.kept i t present with here | ⟨e, old, at_, held⟩
    · by_cases same : k = i
      · right
        refine ⟨_, List.mem_append_right _ (List.mem_singleton_self _), ?_, here⟩
        rw [Int.toNat_natCast, same]
      · left
        rw [List.getElem?_set_ne same, here]
    · exact .inr ⟨e, List.mem_append_left _ old, at_, held⟩
  · exact List.getElem?_set_self inside

/-- One turn that has room to make never leaves the array. -/
theorem acceptPeer_law {a : Acceptor} (law : AcceptLaw guard now slots a) (peer : Peer)
    (room : ¬ (poolFreeIndex a.slots < 0 ∧
      poolEvictIndex a.slots now kRelayEvictMinAgeMs < 0)) :
    ∃ b, acceptPeer guard now finGraceMs fdSetSize a peer = some b ∧
      AcceptLaw guard now slots b := by
  have noted : AcceptLaw guard now slots { a with accepted := true } := law.bookkeeping rfl rfl
  unfold acceptPeer
  dsimp only
  split
  · exact ⟨_, rfl, law.bookkeeping rfl rfl⟩
  · next admission =>
    have admitted : peer.wholeAddress = true ∧ peerAdmitted peer.address guard = true := by
      simpa using admission
    rcases poolFreeIndex_spec a.slots with ⟨none, full⟩ | ⟨k, free, vacant⟩
    · rw [if_pos (by rw [none]; decide)]
      rcases poolEvictIndex_spec a.slots now kRelayEvictMinAgeMs with nobody | ⟨k, s, index, most⟩
      · exact absurd ⟨by rw [none]; decide, by rw [nobody]; decide⟩ room
      · obtain ⟨b, evicted, after, vacant⟩ := evict_law noted admitted full index most
        rw [evicted, Option.bind_some]
        exact occupy_law after vacant peer
    · rw [if_neg (by rw [free]; exact Int.not_lt.mpr (Int.natCast_nonneg k)), free]
      exact occupy_law noted vacant peer

theorem acceptTurns_law {a : Acceptor} (law : AcceptLaw guard now slots a) (turns : Nat)
    (peers : List Peer) :
    ∃ b, acceptTurns guard now finGraceMs fdSetSize turns a peers = some b ∧
      AcceptLaw guard now slots b := by
  induction turns generalizing a peers with
  | zero => exact ⟨a, rfl, law⟩
  | succ turns ih =>
      simp only [acceptTurns]
      split
      · exact ⟨a, rfl, law⟩
      · next room =>
        cases peers with
        | nil => exact ⟨a, rfl, law⟩
        | cons peer peers =>
            obtain ⟨b, accepted, after⟩ := acceptPeer_law law peer room
            dsimp only
            rw [accepted, Option.bind_some]
            exact ih after peers

/-- A slot past the handshake is never evicted. -/
theorem AcceptLaw.busy {a : Acceptor} (law : AcceptLaw guard now slots a) {i : Nat} {s : Slot}
    (present : slots[i]? = some (some s)) (past : isHandshake s = false) :
    a.slots[i]? = some (some s) := by
  rcases law.kept i s present with here | ⟨e, done, rfl, held⟩
  · exact here
  · obtain ⟨silent, most⟩ := (law.evictions e done).stalled
    have same : silent = s := by
      have both := most.present.symm.trans held
      rwa [Option.some.injEq, Option.some.injEq] at both
    have handshake : isHandshake s = true := same ▸ most.handshake
    rw [handshake] at past
    cases past

/-- `acceptClients` never leaves the slot array, and evicts only by the law. -/
theorem acceptClients_evictions (guard : GuardConfig) (slots : Pool) (stats : RelayStats)
    (now finGraceMs : UInt32) (fdSetSize : Int) (peers : List Peer) :
    ∃ a, acceptClients guard slots stats now finGraceMs fdSetSize peers = some a ∧
      AcceptLaw guard now slots a ∧
      ∀ (i : Nat) (s : Slot), slots[i]? = some (some s) →
        s.phase = .needConnect ∨ s.phase = .connecting ∨ s.phase = .relay ∨ s.phase = .flush →
        a.slots[i]? = some (some s) := by
  have ran : ∃ a, acceptClients guard slots stats now finGraceMs fdSetSize peers = some a ∧
      AcceptLaw guard now slots a :=
    acceptTurns_law (acceptLaw_start guard now slots stats) slots.length peers
  obtain ⟨a, done, law⟩ := ran
  refine ⟨a, done, law, fun i s present phase => law.busy present ?_⟩
  rcases phase with phase | phase | phase | phase <;> simp [isHandshake, phase]

/-- A client that has said nothing since it was accepted at time 0. -/
def silentSlot : Slot := slotInit (.filled kBufSize 0) (.filled kBufSize 0) 5 0

def relayingSlot : Slot := { silentSlot with phase := .relay, clientFd := 6, upFd := 7 }

/-- A peer from the server's address 10.77.0.1. -/
def serverPeer : Peer where
  fd := 8
  wholeAddress := true
  address := 0x0A4D0001
  nonBlocking := true
  memory := some (.filled kBufSize 0, .filled kBufSize 0)
  noDelay := true

theorem acceptClients_evictions_full :
    ∃ a, acceptClients { serverIp := 0x0A4D0001 } [some silentSlot, some relayingSlot] {} 5000 500 64
        [serverPeer] = some a ∧ a.slots[1]? = some (some relayingSlot) := by
  obtain ⟨a, done, _, busy⟩ := acceptClients_evictions { serverIp := 0x0A4D0001 }
    [some silentSlot, some relayingSlot] {} 5000 500 64 [serverPeer]
  exact ⟨a, done, busy 1 relayingSlot rfl (.inr (.inr (.inl rfl)))⟩

end FryFirmware.Relay
