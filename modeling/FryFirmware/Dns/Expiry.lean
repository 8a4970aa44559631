import FryFirmware.Dns.CacheLru
import Mathlib.Data.List.Basic
import Mathlib.Tactic.Common

/-!
# Whether an expired entry comes back

Runs over a real time without end, of which the counter shows the last 32 bits. Beside
the cache, the run remembers when each entry was stored.
-/

set_option autoImplicit false

namespace FryFirmware.Dns

open Lib

/-! ## Runs -/

/-- The cache, and the real time of the put that wrote each entry. -/
structure Aged where
  cache : DnsCache := fun _ => {}
  storedAt : Fin kDnsCacheEntries → Nat := fun _ => 0

def Recorded (host : Host) : Prop := host ≠ [] ∧ host.length < kDnsHostCap

instance (host : Host) : Decidable (Recorded host) := inferInstanceAs (Decidable (_ ∧ _))

def DnsCache.written (cache : DnsCache) (now : UInt32) : CacheCall → Option (Fin kDnsCacheEntries)
  | .lookup _ => none
  | .blocked _ => none
  | .store host ip _ => if ip ≠ 0 ∧ Recorded host then some (cache.victim host now) else none
  | .storeFailure host _ => if Recorded host then some (cache.victim host now) else none

def Aged.serve (base : UInt32) (a : Aged) (c : TimedCall) : Aged where
  cache := a.cache.perform (clockAt base c.moment) c.call
  storedAt :=
    match a.cache.written (clockAt base c.moment) c.call with
    | none => a.storedAt
    | some i => Function.update a.storedAt i c.moment

/-- The calls on an empty cache, with the counter at `base` first. -/
def Aged.run (base : UInt32) (calls : List TimedCall) : Aged := calls.foldl (Aged.serve base) {}

/-- The calls are in the order of time, from `start` on, with lifetimes that the counter
can tell from the past. -/
def Timely (start : Nat) : List TimedCall → Prop
  | [] => True
  | c :: calls => start ≤ c.moment ∧ c.call.Short ∧ Timely c.moment calls

instance timelyDecidable : (start : Nat) → (calls : List TimedCall) → Decidable (Timely start calls)
  | _, [] => isTrue trivial
  | _, c :: calls =>
      have := timelyDecidable c.moment calls
      inferInstanceAs (Decidable (_ ∧ _ ∧ _))

def Aged.dueAt (a : Aged) (i : Fin kDnsCacheEntries) : Nat := a.storedAt i + (a.cache i).ttlMs.toNat

def Aged.Names (a : Aged) (i : Fin kDnsCacheEntries) (host : Host) : Prop :=
  (a.cache i).valid = true ∧ dnsHostEq (a.cache i).host host = true

/-- Whatever the cache answers comes from an entry whose time is not over. -/
structure AnswersInTime (base : UInt32) (a : Aged) (host : Host) (time : Nat) : Prop where
  lookup : ∀ ip, (a.cache.lookup host (clockAt base time)).2 = some ip →
    ∃ i, a.Names i host ∧ (a.cache i).ip = ip ∧ time ≤ a.dueAt i
  blocked : a.cache.blocked host (clockAt base time) = true →
    ∃ i, a.Names i host ∧ (a.cache i).ip = 0 ∧ time ≤ a.dueAt i

/-! ## What every call keeps -/

/-- The stamps show the real times, and no two entries have one name. -/
structure Kept (base : UInt32) (now : Nat) (a : Aged) : Prop where
  stamped : ∀ i, (a.cache i).valid = true → (a.cache i).storedMs = clockAt base (a.storedAt i) ∧
    a.storedAt i ≤ now ∧ (a.cache i).ttlMs.toNat < 2 ^ 31
  named : ∀ i, (a.cache i).valid = true → (a.cache i).host ≠ []
  unique : ∀ i j, (a.cache i).valid = true → a.Names j (a.cache i).host → i = j

variable {base : UInt32} {now : Nat} {a : Aged}

theorem Kept.later (kept : Kept base now a) {later : Nat} (after : now ≤ later) :
    Kept base later a where
  stamped := by
    intro i valid
    obtain ⟨stamp, past, short⟩ := kept.stamped i valid
    exact ⟨stamp, Nat.le_trans past after, short⟩
  named := kept.named
  unique := kept.unique

/-- An entry has expired by the counter when its time was over less than half its range
ago, each time round. -/
theorem Kept.expired_iff (kept : Kept base now a) {i : Fin kDnsCacheEntries}
    (valid : (a.cache i).valid = true) {time : Nat} (late : a.dueAt i < time) :
    (a.cache i).expired (clockAt base time) = true ↔ (time - a.dueAt i) % 2 ^ 32 < 2 ^ 31 := by
  obtain ⟨stamp, -, short⟩ := kept.stamped i valid
  have baseBound := base.toNat_lt
  rw [Aged.dueAt] at late ⊢
  rw [DnsCacheEntry.expired, stamp]
  simp only [dnsReached, nonnegative, clockAt, decide_eq_true_eq, UInt32.toNat_sub,
    UInt32.toNat_add, UInt32.toNat_ofNat']
  omega

theorem Aged.Names.host {i : Fin kDnsCacheEntries} {host other : Host} (names : a.Names i host)
    (same : dnsHostEq host other = true) : a.Names i other := by
  refine ⟨names.1, ?_⟩
  rw [dnsHostEq_iff] at same ⊢
  exact (dnsHostEq_iff.mp names.2).trans same

theorem Kept.one (kept : Kept base now a) {host : Host} {i j : Fin kDnsCacheEntries}
    (first : a.Names i host) (second : a.Names j host) : i = j := by
  refine kept.unique i j first.1 (second.host ?_)
  rw [dnsHostEq_iff]
  exact (dnsHostEq_iff.mp first.2).symm

theorem names_folded {host : Host} {i : Fin kDnsCacheEntries} :
    a.Names i (foldHost host) ↔ a.Names i host := by
  rw [Aged.Names, Aged.Names, dnsHostEq_iff, dnsHostEq_iff, foldHost_idem]

theorem Kept.victim_own (kept : Kept base now a) {host : Host} {i : Fin kDnsCacheEntries}
    (names : a.Names i host) (moment : UInt32) : a.cache.victim host moment = i := by
  have found : (List.finRange kDnsCacheEntries).find?
      (fun i => (a.cache i).valid && dnsHostEq (a.cache i).host host) = some i := by
    apply find_only
    · simp [names.1, names.2]
    · intro j same
      rw [Bool.and_eq_true] at same
      exact kept.one same names
  rw [DnsCache.victim, found]

def freshEntry (host : Host) (ip now ttlMs : UInt32) : DnsCacheEntry :=
  { host := host.map dnsFoldChar, ip, storedMs := now, ttlMs, usedMs := now, valid := true }

theorem put_recorded {host : Host} (recorded : Recorded host) (cache : DnsCache)
    (ip now ttlMs : UInt32) : cache.put host ip now ttlMs =
      Function.update cache (cache.victim host now) (freshEntry host ip now ttlMs) := by
  rw [DnsCache.put, if_neg recorded.1, if_neg (Nat.not_le.mpr recorded.2), freshEntry]

theorem put_unrecorded {host : Host} (unrecorded : ¬ Recorded host) (cache : DnsCache)
    (ip now ttlMs : UInt32) : cache.put host ip now ttlMs = cache := by
  rw [DnsCache.put]
  by_cases empty : host = []
  · rw [if_pos empty]
  · rw [if_neg empty, if_pos (Nat.not_lt.mp fun fits => unrecorded ⟨empty, fits⟩)]

/-- A put dates the entry that it writes, which takes the place of an entry of the same
name if there is one. -/
theorem Kept.put (kept : Kept base now a) {host : Host} (some : host ≠ []) (ip : UInt32) {ttl : UInt32}
    (short : ttl.toNat < 2 ^ 31) :
    Kept base now ⟨Function.update a.cache (a.cache.victim host (clockAt base now))
      (freshEntry host ip (clockAt base now) ttl),
      Function.update a.storedAt (a.cache.victim host (clockAt base now)) now⟩ := by
  have own {i : Fin kDnsCacheEntries} (names : a.Names i host) :
      a.cache.victim host (clockAt base now) = i := kept.victim_own names _
  generalize a.cache.victim host (clockAt base now) = v at own ⊢
  constructor
  · intro i valid
    by_cases here : i = v
    · subst here
      simp only [Function.update_self]
      exact ⟨rfl, Nat.le_refl now, short⟩
    · simp only [Function.update_of_ne here] at valid ⊢
      exact kept.stamped i valid
  · intro i valid
    by_cases here : i = v
    · subst here
      simp only [Function.update_self]
      exact fun empty => some (List.map_eq_nil_iff.mp empty)
    · simp only [Function.update_of_ne here] at valid ⊢
      exact kept.named i valid
  · intro i j valid names
    by_cases first : i = v <;> by_cases second : j = v
    · exact first.trans second.symm
    · subst first
      simp only [Aged.Names, Function.update_self, Function.update_of_ne second] at names
      exact own (names_folded.mp names)
    · subst second
      simp only [Aged.Names, Function.update_self, Function.update_of_ne first] at names valid
      refine (own ⟨valid, ?_⟩).symm
      have same := dnsHostEq_iff.mp names.2
      rw [dnsHostEq_iff, ← same]
      exact foldHost_idem host
    · simp only [Aged.Names, Function.update_of_ne first, Function.update_of_ne second] at names valid
      exact kept.unique i j valid names

theorem Kept.serve (kept : Kept base now a) {c : TimedCall} (after : now ≤ c.moment)
    (short : c.call.Short) : Kept base c.moment (a.serve base c) := by
  replace kept := kept.later after
  obtain ⟨moment, call⟩ := c
  cases call with
  | lookup host =>
      constructor
      · intro i valid
        obtain ⟨used, entry⟩ := lookup_entry a.cache host (clockAt base moment) i
        simp only [Aged.serve, DnsCache.perform, DnsCache.written, entry] at valid ⊢
        exact kept.stamped i valid
      · intro i valid
        obtain ⟨used, entry⟩ := lookup_entry a.cache host (clockAt base moment) i
        simp only [Aged.serve, DnsCache.perform, entry] at valid ⊢
        exact kept.named i valid
      · intro i j valid names
        obtain ⟨used, first⟩ := lookup_entry a.cache host (clockAt base moment) i
        obtain ⟨used', second⟩ := lookup_entry a.cache host (clockAt base moment) j
        simp only [Aged.Names, Aged.serve, DnsCache.perform, first, second] at valid names
        exact kept.unique i j valid names
  | blocked host => exact kept
  | store host ip ttlMs =>
      simp only [Aged.serve, DnsCache.perform, DnsCache.written, DnsCache.store]
      by_cases zero : ip = 0
      · simpa [zero] using kept
      · by_cases recorded : Recorded host
        · simp only [zero, ne_eq, not_false_eq_true, true_and, if_pos recorded, if_false,
            put_recorded recorded]
          exact kept.put recorded.1 ip short
        · simp only [zero, ne_eq, not_false_eq_true, true_and, if_neg recorded, if_false,
            put_unrecorded recorded]
          exact kept
  | storeFailure host ttlMs =>
      simp only [Aged.serve, DnsCache.perform, DnsCache.written, DnsCache.storeFailure]
      by_cases recorded : Recorded host
      · simp only [if_pos recorded, put_recorded recorded]
        exact kept.put recorded.1 0 short
      · simp only [if_neg recorded, put_unrecorded recorded]
        exact kept

theorem kept_calls {start : Nat} {calls : List TimedCall} (timely : Timely start calls)
    (kept : Kept base start a) :
    Kept base (lastMoment start calls) (calls.foldl (Aged.serve base) a) := by
  induction calls generalizing start a with
  | nil => exact kept
  | cons c calls ih => exact ih timely.2.2 (kept.serve timely.1 timely.2.1)

theorem kept_run {calls : List TimedCall} (timely : Timely 0 calls) :
    Kept base (lastMoment 0 calls) (Aged.run base calls) :=
  kept_calls timely ⟨nofun, nofun, nofun⟩

/-! ## Answers -/

/-- What both searches find is an entry of the name that has not expired by the
counter. -/
theorem find_holds {cache : DnsCache} {host : Host} {moment : UInt32} {i : Fin kDnsCacheEntries}
    (found : (List.finRange kDnsCacheEntries).find?
      (fun i => DnsCache.holds (cache i) host moment) = some i) :
    (cache i).valid = true ∧ (cache i).expired moment = false ∧
      dnsHostEq (cache i).host host = true := by
  have holds := List.find?_some found
  simpa [DnsCache.holds, and_assoc] using holds

theorem lookup_eq_some {cache : DnsCache} {host : Host} {moment ip : UInt32} :
    (cache.lookup host moment).2 = some ip ↔ host ≠ [] ∧ ip ≠ 0 ∧
      ∃ i, (List.finRange kDnsCacheEntries).find?
        (fun i => DnsCache.holds (cache i) host moment) = some i ∧ (cache i).ip = ip := by
  unfold DnsCache.lookup DnsCache.find
  by_cases empty : host = []
  · simp [empty]
  · rw [if_neg empty]
    cases (List.finRange kDnsCacheEntries).find?
        (fun i => DnsCache.holds (cache i) host moment) with
    | none => simp
    | some i =>
        simp only [Option.some.injEq, exists_eq_left', empty, ne_eq, not_false_eq_true, true_and]
        by_cases zero : (cache i).ip = 0
        · rw [if_pos zero]
          refine iff_of_false (fun none => by cases none) ?_
          rintro ⟨some, rfl⟩
          exact some zero
        · rw [if_neg zero, Option.some.injEq]
          exact ⟨fun same => ⟨same ▸ zero, same⟩, And.right⟩

theorem blocked_iff {cache : DnsCache} {host : Host} {moment : UInt32} :
    cache.blocked host moment = true ↔ host ≠ [] ∧
      ∃ i, (List.finRange kDnsCacheEntries).find?
        (fun i => DnsCache.holds (cache i) host moment) = some i ∧ (cache i).ip = 0 := by
  unfold DnsCache.blocked
  by_cases empty : host = []
  · simp [empty]
  · rw [if_neg empty]
    cases (List.finRange kDnsCacheEntries).find?
        (fun i => DnsCache.holds (cache i) host moment) with
    | none => simp
    | some i => simp [empty]

/-- An unexpired entry of the name is what both searches find. -/
theorem Kept.find_eq (kept : Kept base now a) {host : Host} {i : Fin kDnsCacheEntries}
    (names : a.Names i host) {moment : UInt32} (alive : (a.cache i).expired moment = false) :
    (List.finRange kDnsCacheEntries).find?
      (fun i => DnsCache.holds (a.cache i) host moment) = some i := by
  apply find_only
  · simp [DnsCache.holds, names.1, names.2, alive]
  · intro j holds
    simp only [DnsCache.holds, Bool.and_eq_true] at holds
    exact kept.one ⟨holds.1.1, holds.2⟩ names

/-- The entry of the name, if its time is over, is so for less than half the range of
the counter, each time round. -/
def WithinHalf (a : Aged) (host : Host) (time : Nat) : Prop :=
  ∀ i, a.Names i host → a.dueAt i < time → (time - a.dueAt i) % 2 ^ 32 < 2 ^ 31

theorem Kept.answersInTime_iff (kept : Kept base now a) (host : Host) (time : Nat) :
    AnswersInTime base a host time ↔ WithinHalf a host time := by
  constructor
  · intro inTime i names late
    rw [← kept.expired_iff names.1 late]
    by_contra dead
    rw [Bool.not_eq_true] at dead
    have found := kept.find_eq names dead
    have some : host ≠ [] := by
      rintro rfl
      exact kept.named i names.1 (List.map_eq_nil_iff.mp (dnsHostEq_iff.mp names.2))
    have never (j : Fin kDnsCacheEntries) (same : a.Names j host) (early : time ≤ a.dueAt j) : False := by
      rw [kept.one same names] at early
      omega
    by_cases zero : (a.cache i).ip = 0
    · obtain ⟨j, same, -, early⟩ := inTime.blocked (blocked_iff.mpr ⟨some, i, found, zero⟩)
      exact never j same early
    · obtain ⟨j, same, -, early⟩ :=
        inTime.lookup _ (lookup_eq_some.mpr ⟨some, zero, i, found, rfl⟩)
      exact never j same early
  · intro within
    have early {i : Fin kDnsCacheEntries} (found : (List.finRange kDnsCacheEntries).find?
        (fun i => DnsCache.holds (a.cache i) host (clockAt base time)) = some i) :
        a.Names i host ∧ time ≤ a.dueAt i := by
      obtain ⟨valid, alive, same⟩ := find_holds found
      refine ⟨⟨valid, same⟩, Nat.not_lt.mp fun late => ?_⟩
      have expired := (kept.expired_iff valid late).mpr (within i ⟨valid, same⟩ late)
      rw [alive] at expired
      cases expired
    constructor
    · intro ip answered
      obtain ⟨-, -, i, found, address⟩ := lookup_eq_some.mp answered
      exact ⟨i, (early found).1, address, (early found).2⟩
    · intro answered
      obtain ⟨-, i, found, failure⟩ := blocked_iff.mp answered
      exact ⟨i, (early found).1, failure, (early found).2⟩

/-- After any calls, at any later time, no answer comes from an entry whose time is over
exactly when it is over for less than half the range of the counter, each time round. -/
theorem run_answersInTime_iff (base : UInt32) (calls : List TimedCall) (timely : Timely 0 calls)
    (host : Host) (time : Nat) :
    AnswersInTime base (Aged.run base calls) host time ↔
      WithinHalf (Aged.run base calls) host time :=
  (kept_run timely).answersInTime_iff host time

def resolvedOnce : List TimedCall := [⟨0, .store [0x61] 0x01020304 300000⟩]

theorem run_answersInTime_iff_resolvedOnce :
    AnswersInTime 0 (Aged.run 0 resolvedOnce) [0x61] 1000 ↔
      WithinHalf (Aged.run 0 resolvedOnce) [0x61] 1000 :=
  run_answersInTime_iff 0 resolvedOnce (by decide) [0x61] 1000

/-- It is answered again from the 25th day on. -/
theorem resolvedOnce_returns :
    Timely 0 resolvedOnce ∧
      ((Aged.run 0 resolvedOnce).cache.lookup [0x61] (clockAt 0 (300000 + 2 ^ 31))).2 =
        some 0x01020304 ∧
      ¬ AnswersInTime 0 (Aged.run 0 resolvedOnce) [0x61] (300000 + 2 ^ 31) := by
  have answered : ((Aged.run 0 resolvedOnce).cache.lookup [0x61] (clockAt 0 (300000 + 2 ^ 31))).2 =
      some 0x01020304 := by decide +kernel
  refine ⟨by decide, answered, fun inTime => ?_⟩
  obtain ⟨i, names, -, early⟩ := inTime.lookup _ answered
  have due : ∀ i, (Aged.run 0 resolvedOnce).dueAt i ≤ 300000 := by decide +kernel
  have bound := due i
  omega

end FryFirmware.Dns
