import FryFirmware.Dns.Cache

/-!
# What the cache remembers

A name is missing when no unexpired entry holds it. Putting another name, or
waiting, keeps it missing; putting the name itself makes the cache answer.
-/

set_option autoImplicit false

namespace FryFirmware.Dns

open Lib

/-! ## Host names -/

/-- A name as the cache compares it. -/
def foldHost (host : Host) : Host := host.map dnsFoldChar

theorem dnsFoldChar_idem (c : UInt8) : dnsFoldChar (dnsFoldChar c) = dnsFoldChar c := by
  unfold dnsFoldChar
  split
  · rename_i upper
    rw [UInt8.le_iff_toNat_le, UInt8.le_iff_toNat_le] at upper
    have lower : ¬ (65 ≤ c - 65 + 97 ∧ c - 65 + 97 ≤ 90) := by
      rw [UInt8.le_iff_toNat_le, UInt8.le_iff_toNat_le, UInt8.toNat_add, UInt8.toNat_sub]
      simp only [UInt8.reduceToNat] at upper ⊢
      omega
    rw [if_neg lower]
  · rfl

theorem foldHost_idem (host : Host) : foldHost (foldHost host) = foldHost host := by
  simp [foldHost, dnsFoldChar_idem]

theorem dnsHostEq_iff {a b : Host} : dnsHostEq a b = true ↔ foldHost a = foldHost b := by
  induction a generalizing b with
  | nil => cases b <;> simp [dnsHostEq, foldHost]
  | cons head tail ih =>
      cases b with
      | nil => simp [dnsHostEq, foldHost]
      | cons other rest =>
          simp only [dnsHostEq, foldHost, List.map_cons, List.cons.injEq]
          split
          · rename_i differ
            simp [differ]
          · rename_i same
            rw [not_not] at same
            simpa only [same, true_and, foldHost] using ih

/-! ## Time -/

/-- The counter `elapsed` milliseconds after it read `base`. -/
def clockAt (base : UInt32) (elapsed : Nat) : UInt32 := base + UInt32.ofNat elapsed

/-- Within half the range of the counter a deadline is reached when its time has
come. -/
theorem dnsReached_iff {base ttl : UInt32} {stored elapsed : Nat} (ordered : stored ≤ elapsed)
    (window : elapsed < 2 ^ 31) (short : ttl.toNat < 2 ^ 31) :
    dnsReached (clockAt base elapsed) (clockAt base stored + ttl) = true ↔
      stored + ttl.toNat ≤ elapsed := by
  have baseBound := base.toNat_lt
  simp only [dnsReached, nonnegative, clockAt, decide_eq_true_eq, UInt32.toNat_sub,
    UInt32.toNat_add, UInt32.toNat_ofNat']
  omega

/-- Every entry was stored within the window and lives for a short time. -/
def Dated (cache : DnsCache) (base : UInt32) (elapsed : Nat) : Prop :=
  ∀ i, (cache i).valid = true →
    (∃ stored, stored ≤ elapsed ∧ (cache i).storedMs = clockAt base stored) ∧
      (cache i).ttlMs.toNat ≤ 2 ^ 30

theorem Dated.later {cache : DnsCache} {base : UInt32} {elapsed later : Nat}
    (dated : Dated cache base elapsed) (ordered : elapsed ≤ later) : Dated cache base later := by
  intro i valid
  obtain ⟨⟨stored, before, stamp⟩, short⟩ := dated i valid
  exact ⟨⟨stored, Nat.le_trans before ordered, stamp⟩, short⟩

def Missing (cache : DnsCache) (host : Host) (now : UInt32) : Prop :=
  ∀ i, DnsCache.holds (cache i) host now = false

/-- What has expired stays expired within the window. -/
theorem Missing.later {cache : DnsCache} {base : UInt32} {elapsed later : Nat} {host : Host}
    (missing : Missing cache host (clockAt base elapsed)) (dated : Dated cache base elapsed)
    (ordered : elapsed ≤ later) (window : later < 2 ^ 31) :
    Missing cache host (clockAt base later) := by
  intro i
  have before := missing i
  simp only [DnsCache.holds, Bool.and_eq_false_iff, Bool.not_eq_false'] at before ⊢
  rcases before with (invalid | expired) | other
  · exact .inl (.inl invalid)
  · cases valid : (cache i).valid with
    | false => exact .inl (.inl rfl)
    | true =>
        obtain ⟨⟨stored, past, stamp⟩, short⟩ := dated i valid
        refine .inl (.inr ?_)
        rw [DnsCacheEntry.expired, stamp, dnsReached_iff (by omega) (by omega) (by omega)] at expired ⊢
        omega
  · exact .inr other

/-! ## Looking up -/

theorem find_eq_none {cache : DnsCache} {host : Host} {now : UInt32} (missing : Missing cache host now) :
    cache.find host now = none := by
  unfold DnsCache.find
  split
  · rfl
  · rw [List.find?_eq_none]
    intro i _
    simp [missing i]

theorem lookup_missing {cache : DnsCache} {host : Host} {now : UInt32}
    (missing : Missing cache host now) : cache.lookup host now = (cache, none) := by
  simp [DnsCache.lookup, find_eq_none missing]

/-- Neither a positive nor a negative answer means the name is missing. -/
theorem missing_of_unanswered {cache : DnsCache} {host : Host} {now : UInt32} (named : host ≠ [])
    (unanswered : (cache.lookup host now).2 = none) (unblocked : cache.blocked host now = false) :
    Missing cache host now := by
  unfold DnsCache.lookup DnsCache.find at unanswered
  unfold DnsCache.blocked at unblocked
  rw [if_neg named] at unanswered unblocked
  cases found : (List.finRange kDnsCacheEntries).find? fun i =>
      DnsCache.holds (cache i) host now with
  | none =>
      intro i
      have absent := List.find?_eq_none.mp found i (List.mem_finRange i)
      simpa using absent
  | some i =>
      simp only [found, decide_eq_false_iff_not] at unblocked
      simp [found, unblocked] at unanswered

/-- A lookup only moves the stamp of an entry. -/
theorem lookup_entry (cache : DnsCache) (host : Host) (now : UInt32) (i : Fin kDnsCacheEntries) :
    ∃ used, (cache.lookup host now).1 i = { cache i with usedMs := used } := by
  unfold DnsCache.lookup
  split
  · exact ⟨_, rfl⟩
  · rename_i hit found
    split
    · exact ⟨_, rfl⟩
    · by_cases own : i = hit
      · subst own
        exact ⟨now, by simp⟩
      · exact ⟨_, by simp [own]; rfl⟩

theorem holds_stamp (e : DnsCacheEntry) (used : UInt32) (host : Host) (now : UInt32) :
    DnsCache.holds { e with usedMs := used } host now = DnsCache.holds e host now := rfl

theorem Missing.lookup {cache : DnsCache} {host : Host} {now : UInt32}
    (missing : Missing cache host now) (other : Host) (moment : UInt32) :
    Missing (cache.lookup other moment).1 host now := by
  intro i
  obtain ⟨used, entry⟩ := lookup_entry cache other moment i
  rw [entry, holds_stamp]
  exact missing i

theorem Dated.lookup {cache : DnsCache} {base : UInt32} {elapsed : Nat}
    (dated : Dated cache base elapsed) (host : Host) (now : UInt32) :
    Dated (cache.lookup host now).1 base elapsed := by
  intro i
  obtain ⟨used, entry⟩ := lookup_entry cache host now i
  rw [entry]
  exact dated i

/-! ## Storing -/

theorem put_entry (cache : DnsCache) (host : Host) (ip now ttl : UInt32)
    (i : Fin kDnsCacheEntries) :
    cache.put host ip now ttl i = cache i ∨
      (host ≠ [] ∧ cache.put host ip now ttl i =
        { host := foldHost host, ip, storedMs := now, ttlMs := ttl, usedMs := now, valid := true }) := by
  unfold DnsCache.put
  split
  · exact .inl rfl
  · rename_i named
    split
    · exact .inl rfl
    · by_cases own : i = cache.victim host now
      · subst own
        exact .inr ⟨named, by simp [foldHost]⟩
      · exact .inl (by simp [own])

theorem Missing.put {cache : DnsCache} {host other : Host} {now moment ip ttl : UInt32}
    (missing : Missing cache host now) (differ : dnsHostEq other host = false) :
    Missing (cache.put other ip moment ttl) host now := by
  intro i
  rcases put_entry cache other ip moment ttl i with same | ⟨_, fresh⟩
  · rw [same]
    exact missing i
  · rw [fresh]
    have apart : dnsHostEq (foldHost other) host = false := by
      cases same : dnsHostEq (foldHost other) host with
      | false => rfl
      | true =>
          rw [dnsHostEq_iff, foldHost_idem, ← dnsHostEq_iff, differ] at same
          cases same
    simp [DnsCache.holds, apart]

theorem Dated.put {cache : DnsCache} {base : UInt32} {elapsed : Nat}
    (dated : Dated cache base elapsed) (host : Host) (ip : UInt32) {ttl : UInt32}
    (short : ttl.toNat ≤ 2 ^ 30) :
    Dated (cache.put host ip (clockAt base elapsed) ttl) base elapsed := by
  intro i
  rcases put_entry cache host ip (clockAt base elapsed) ttl i with same | ⟨_, fresh⟩
  · rw [same]
    exact dated i
  · rw [fresh]
    exact fun _ => ⟨⟨elapsed, Nat.le_refl _, rfl⟩, short⟩

/-- What the cache says about a name: an address, a recent failure, or nothing. -/
def DnsCache.answers (cache : DnsCache) (host : Host) (now : UInt32) (ip : UInt32) : Prop :=
  if ip = 0 then cache.blocked host now = true else (cache.lookup host now).2 = some ip

theorem not_expired_at_once (now ttl : UInt32) (positive : 0 < ttl.toNat)
    (short : ttl.toNat ≤ 2 ^ 30) : dnsReached now (now + ttl) = false := by
  have bound := now.toNat_lt
  simp only [dnsReached, nonnegative, decide_eq_false_iff_not, UInt32.toNat_sub, UInt32.toNat_add]
  omega

/-- A name that was missing is answered right after it was put. -/
theorem put_answers {cache : DnsCache} {host : Host} {now ttl : UInt32} (ip : UInt32)
    (missing : Missing cache host now) (named : host ≠ []) (fits : host.length < kDnsHostCap)
    (positive : 0 < ttl.toNat) (short : ttl.toNat ≤ 2 ^ 30) :
    (cache.put host ip now ttl).answers host now ip := by
  have stored : cache.put host ip now ttl = Function.update cache (cache.victim host now)
      { host := foldHost host, ip, storedMs := now, ttlMs := ttl, usedMs := now, valid := true } := by
    unfold DnsCache.put
    rw [if_neg named, if_neg (by omega)]
    rfl
  generalize cache.put host ip now ttl = after at stored
  generalize cache.victim host now = victim at stored
  have held : DnsCache.holds (after victim) host now = true := by
    have same : dnsHostEq (foldHost host) host = true := by
      rw [dnsHostEq_iff, foldHost_idem]
    rw [stored, Function.update_self]
    simp [DnsCache.holds, DnsCacheEntry.expired, same, not_expired_at_once now ttl positive short]
  have alone : ∀ i, DnsCache.holds (after i) host now = true → i = victim := by
    intro i holds
    by_contra other
    rw [stored, Function.update_of_ne other, missing i] at holds
    cases holds
  have found : (List.finRange kDnsCacheEntries).find?
      (fun i => DnsCache.holds (after i) host now) = some victim := by
    cases result : (List.finRange kDnsCacheEntries).find?
        (fun i => DnsCache.holds (after i) host now) with
    | none =>
        have absent := List.find?_eq_none.mp result victim (List.mem_finRange _)
        exact absurd held absent
    | some i =>
        have holds : DnsCache.holds (after i) host now = true := by
          simpa using List.find?_some result
        rw [alone i holds]
  have address : (after victim).ip = ip := by rw [stored, Function.update_self]
  unfold DnsCache.answers
  split
  · rename_i zero
    simp only [DnsCache.blocked, named, ↓reduceIte, found, address, zero, decide_true]
  · rename_i nonzero
    simp only [DnsCache.lookup, DnsCache.find, named, ↓reduceIte, found, address, nonzero]

end FryFirmware.Dns
