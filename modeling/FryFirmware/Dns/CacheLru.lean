import FryFirmware.Lib.LruMap
import FryFirmware.Dns.CacheProperties

/-!
# The cache as a least-recently-used map

Beside the cache runs the list of what its calls did: which name was recorded,
which one it evicted, which one a hit touched. Inside half the counter's range
the entries are exactly what that list remembers.
-/

set_option autoImplicit false

namespace FryFirmware.Dns

open Lib

inductive CacheCall where
  | lookup (host : Host)
  | blocked (host : Host)
  | store (host : Host) (ip ttlMs : UInt32)
  | storeFailure (host : Host) (ttlMs : UInt32)

/-- A call, so many milliseconds after the counter's first reading. -/
structure TimedCall where
  moment : Nat
  call : CacheCall

def DnsCache.perform (cache : DnsCache) (now : UInt32) : CacheCall → DnsCache
  | .lookup host => (cache.lookup host now).1
  | .blocked _ => cache
  | .store host ip ttlMs => cache.store host ip now ttlMs
  | .storeFailure host ttlMs => cache.storeFailure host now ttlMs

/-- The name whose entry a put of `host` overwrites. -/
def DnsCache.evictedBy (cache : DnsCache) (host : Host) (now : UInt32) : Option Host :=
  let entry := cache (cache.victim host now)
  if entry.valid && !dnsHostEq entry.host host then some entry.host else none

/-- What a put does; an empty or overlong name is not recorded. -/
def DnsCache.recordOf (cache : DnsCache) (host : Host) (ip now ttlMs : UInt32) :
    LruChange Host UInt32 :=
  if host = [] then .keep
  else if host.length ≥ kDnsHostCap then .keep
  else .record (foldHost host) ip ttlMs.toNat (cache.evictedBy host now)

/-- What a call does to the map of names. -/
def DnsCache.changeOf (cache : DnsCache) (now : UInt32) : CacheCall → LruChange Host UInt32
  | .lookup host =>
      match (cache.lookup host now).2 with
      | none => .keep
      | some _ => .touch (foldHost host)
  | .blocked _ => .keep
  | .store host ip ttlMs => if ip = 0 then .keep else cache.recordOf host ip now ttlMs
  | .storeFailure host ttlMs => cache.recordOf host 0 now ttlMs

/-- A cache and what its calls did. -/
structure Served where
  cache : DnsCache := fun _ => {}
  trace : List (LruEvent Host UInt32) := []

def Served.serve (base : UInt32) (s : Served) (c : TimedCall) : Served where
  cache := s.cache.perform (clockAt base c.moment) c.call
  trace := s.trace ++ [⟨c.moment, s.cache.changeOf (clockAt base c.moment) c.call⟩]

/-- The calls on an empty cache, with the counter at `base` first. -/
def Served.run (base : UInt32) (calls : List TimedCall) : Served :=
  calls.foldl (Served.serve base) {}

def CacheCall.Short : CacheCall → Prop
  | .lookup _ | .blocked _ => True
  | .store _ _ ttlMs | .storeFailure _ ttlMs => ttlMs.toNat < 2 ^ 31

instance : (call : CacheCall) → Decidable call.Short
  | .lookup _ | .blocked _ => isTrue trivial
  | .store _ _ _ | .storeFailure _ _ => inferInstanceAs (Decidable (_ < _))

/-- Time does not run back and stays in the window, from `start` on. -/
def InWindow (start : Nat) : List TimedCall → Prop
  | [] => start < 2 ^ 31
  | c :: calls => start ≤ c.moment ∧ c.call.Short ∧ InWindow c.moment calls

instance inWindowDecidable : (start : Nat) → (calls : List TimedCall) → Decidable (InWindow start calls)
  | _, [] => inferInstanceAs (Decidable (_ < _))
  | _, c :: calls =>
      have := inWindowDecidable c.moment calls
      inferInstanceAs (Decidable (_ ∧ _ ∧ _))

def lastMoment (start : Nat) : List TimedCall → Nat
  | [] => start
  | c :: calls => lastMoment c.moment calls

/-! ## Entries and memories -/

/-- A valid entry holds what the map remembers of its name. -/
structure Holds (base : UInt32) (now : Nat) (e : DnsCacheEntry) (memo : Memo UInt32) : Prop where
  folded : foldHost e.host = e.host
  named : e.host ≠ []
  ip : e.ip = memo.value
  stored : e.storedMs = clockAt base memo.stored
  ttl : e.ttlMs.toNat = memo.ttl
  used : e.usedMs = clockAt base memo.used
  short : memo.ttl < 2 ^ 31
  past : memo.stored ≤ now
  recent : memo.used ≤ now

/-- The valid entries are the map's, one for each name. -/
structure Represents (base : UInt32) (now : Nat) (cache : DnsCache) (m : LruMap Host UInt32) :
    Prop where
  entry : ∀ i, (cache i).valid = true → ∃ memo, m (cache i).host = some memo ∧
    Holds base now (cache i) memo
  held : ∀ key memo, m key = some memo → ∃ i, (cache i).valid = true ∧ (cache i).host = key
  unique : ∀ i j, (cache i).valid = true → (cache j).valid = true →
    (cache i).host = (cache j).host → i = j

variable {base : UInt32} {now : Nat} {cache : DnsCache} {m : LruMap Host UInt32}

theorem Holds.later {e : DnsCacheEntry} {memo : Memo UInt32} (holds : Holds base now e memo)
    {later : Nat} (after : now ≤ later) : Holds base later e memo :=
  { holds with
    past := Nat.le_trans holds.past after
    recent := Nat.le_trans holds.recent after }

theorem Represents.later (represents : Represents base now cache m) {later : Nat}
    (after : now ≤ later) : Represents base later cache m where
  entry := by
    intro i valid
    obtain ⟨memo, found, holds⟩ := represents.entry i valid
    exact ⟨memo, found, holds.later after⟩
  held := represents.held
  unique := represents.unique

theorem represents_start (base : UInt32) :
    Represents base 0 (fun _ => {}) (LruMap.replay ([] : List (LruEvent Host UInt32))) where
  entry := nofun
  held := nofun
  unique := nofun

/-- An entry has expired when its time is over. -/
theorem Holds.expired {e : DnsCacheEntry} {memo : Memo UInt32} (holds : Holds base now e memo)
    (window : now < 2 ^ 31) : e.expired (clockAt base now) = true ↔ memo.expires ≤ now := by
  have short : e.ttlMs.toNat < 2 ^ 31 := holds.ttl ▸ holds.short
  rw [DnsCacheEntry.expired, holds.stored, dnsReached_iff holds.past window short, holds.ttl]
  rfl

theorem Holds.same {e : DnsCacheEntry} {memo : Memo UInt32} (holds : Holds base now e memo)
    {host : Host} : dnsHostEq e.host host = true ↔ e.host = foldHost host := by
  rw [dnsHostEq_iff, holds.folded]

/-- Valid entries with the same name are one entry. -/
theorem Represents.one (represents : Represents base now cache m) {i j : Fin kDnsCacheEntries}
    (left : (cache i).valid = true) (right : (cache j).valid = true)
    (same : dnsHostEq (cache i).host (cache j).host = true) : i = j := by
  obtain ⟨_, _, first⟩ := represents.entry i left
  obtain ⟨_, _, second⟩ := represents.entry j right
  apply represents.unique i j left right
  rw [first.same, second.folded] at same
  exact same

/-! ## Answers -/

/-- A search over the entries finds the only one it can find. -/
theorem find_only {p : Fin kDnsCacheEntries → Bool} {i : Fin kDnsCacheEntries} (found : p i = true)
    (only : ∀ j, p j = true → j = i) : (List.finRange kDnsCacheEntries).find? p = some i := by
  cases result : (List.finRange kDnsCacheEntries).find? p with
  | none => exact absurd found (List.find?_eq_none.mp result i (List.mem_finRange i))
  | some j => rw [only j (List.find?_some result)]

/-- The entry answers for `host`: it has the name and its time is not over. -/
theorem Represents.holds_iff (represents : Represents base now cache m) (window : now < 2 ^ 31)
    {host : Host} {i : Fin kDnsCacheEntries} :
    DnsCache.holds (cache i) host (clockAt base now) = true ↔
      (cache i).valid = true ∧ (cache i).host = foldHost host ∧
        ∃ memo, m (foldHost host) = some memo ∧ (cache i).ip = memo.value ∧ now < memo.expires := by
  rw [DnsCache.holds, Bool.and_eq_true, Bool.and_eq_true, Bool.not_eq_true']
  constructor
  · rintro ⟨⟨valid, fresh⟩, same⟩
    obtain ⟨memo, found, holds⟩ := represents.entry i valid
    have name := holds.same.mp same
    refine ⟨valid, name, memo, name ▸ found, holds.ip, ?_⟩
    rw [← Bool.not_eq_true, holds.expired window] at fresh
    omega
  · rintro ⟨valid, name, memo, found, _, fresh⟩
    obtain ⟨own, stored, holds⟩ := represents.entry i valid
    rw [name, found] at stored
    cases stored
    refine ⟨⟨valid, ?_⟩, holds.same.mpr name⟩
    rw [← Bool.not_eq_true, holds.expired window]
    omega

/-- `DnsCache.find` without a name, or without an entry of the name. -/
theorem search_silent {host : Host} {found : Option (Fin kDnsCacheEntries)}
    (nothing : host = [] ∨ found = none) : (if host = [] then none else found) = none := by
  split
  · rfl
  · next named => exact nothing.resolve_left named

/-- The search of `lookup` and `blocked` finds what the map remembers and is
still alive, and nothing else. -/
theorem Represents.find (represents : Represents base now cache m) (window : now < 2 ^ 31)
    (host : Host) :
    (∃ i memo, host ≠ [] ∧
      (List.finRange kDnsCacheEntries).find?
        (fun i => DnsCache.holds (cache i) host (clockAt base now)) = some i ∧
      (cache i).host = foldHost host ∧
      m (foldHost host) = some memo ∧ (cache i).ip = memo.value ∧ now < memo.expires) ∨
    (((host = [] ∨ (List.finRange kDnsCacheEntries).find?
        (fun i => DnsCache.holds (cache i) host (clockAt base now)) = none)) ∧
      ∀ memo, m (foldHost host) = some memo → memo.expires ≤ now) := by
  by_cases alive : ∃ memo, m (foldHost host) = some memo ∧ now < memo.expires
  · obtain ⟨memo, found, fresh⟩ := alive
    obtain ⟨i, valid, name⟩ := represents.held _ memo found
    obtain ⟨own, stored, holds⟩ := represents.entry i valid
    rw [name, found] at stored
    cases stored
    left
    refine ⟨i, memo, ?_, ?_, name, found, holds.ip, fresh⟩
    · rintro rfl
      exact holds.named name
    · apply find_only
      · exact (represents.holds_iff window).mpr ⟨valid, name, memo, found, holds.ip, fresh⟩
      · intro j other
        obtain ⟨valid', name', _⟩ := (represents.holds_iff window).mp other
        exact represents.unique j i valid' valid (name'.trans name.symm)
  · right
    refine ⟨?_, fun memo found => Nat.le_of_not_lt fun fresh => alive ⟨memo, found, fresh⟩⟩
    right
    rw [List.find?_eq_none]
    intro i _ holds
    obtain ⟨_, _, memo, found, _, fresh⟩ := (represents.holds_iff window).mp holds
    exact alive ⟨memo, found, fresh⟩

/-- `lookup` answers the address the map remembers, while it lives. -/
theorem Represents.lookup_iff (represents : Represents base now cache m) (window : now < 2 ^ 31)
    (host : Host) (ip : UInt32) :
    (cache.lookup host (clockAt base now)).2 = some ip ↔
      ip ≠ 0 ∧ ∃ memo, m (foldHost host) = some memo ∧ memo.value = ip ∧ now < memo.expires := by
  unfold DnsCache.lookup DnsCache.find
  rcases represents.find window host with
    ⟨i, memo, named, search, _, found, address, fresh⟩ | ⟨nothing, stale⟩
  · rw [if_neg named, search]
    dsimp only
    rw [address]
    split
    · next zero =>
      refine iff_of_false nofun ?_
      rintro ⟨nonzero, other, same, rfl, _⟩
      rw [found] at same
      cases same
      exact nonzero zero
    · next nonzero =>
      constructor
      · rintro ⟨⟩
        exact ⟨nonzero, memo, found, rfl, fresh⟩
      · rintro ⟨_, other, same, rfl, _⟩
        rw [found] at same
        cases same
        rfl
  · rw [search_silent nothing]
    refine iff_of_false nofun ?_
    rintro ⟨_, memo, found, _, fresh⟩
    have late := stale memo found
    omega

/-- `blocked` answers true while the map remembers a failure. -/
theorem Represents.blocked_iff (represents : Represents base now cache m) (window : now < 2 ^ 31)
    (host : Host) :
    cache.blocked host (clockAt base now) = true ↔
      ∃ memo, m (foldHost host) = some memo ∧ memo.value = 0 ∧ now < memo.expires := by
  unfold DnsCache.blocked
  rcases represents.find window host with
    ⟨i, memo, named, search, _, found, address, fresh⟩ | ⟨nothing, stale⟩
  · rw [if_neg named, search]
    simp only [address, decide_eq_true_eq]
    constructor
    · exact fun zero => ⟨memo, found, zero, fresh⟩
    · rintro ⟨other, same, zero, _⟩
      rw [found] at same
      cases same
      exact zero
  · have refuted : ¬ ∃ memo, m (foldHost host) = some memo ∧ memo.value = 0 ∧ now < memo.expires := by
      rintro ⟨memo, found, _, fresh⟩
      have late := stale memo found
      omega
    refine iff_of_false ?_ refuted
    split
    · nofun
    · next named =>
      rw [nothing.resolve_left named]
      nofun

/-! ## A hit -/

/-- What a lookup does to the cache: nothing, or it stamps the entry it hit. -/
theorem Represents.lookup_cases (represents : Represents base now cache m) (window : now < 2 ^ 31)
    (host : Host) :
    ((cache.lookup host (clockAt base now)).2 = none ∧
      (cache.lookup host (clockAt base now)).1 = cache) ∨
    ∃ i ip, (cache.lookup host (clockAt base now)).2 = some ip ∧
      (cache i).valid = true ∧ (cache i).host = foldHost host ∧
      (cache.lookup host (clockAt base now)).1 =
        Function.update cache i { cache i with usedMs := clockAt base now } := by
  unfold DnsCache.lookup DnsCache.find
  rcases represents.find window host with
    ⟨i, memo, named, search, name, found, address, fresh⟩ | ⟨nothing, stale⟩
  · have holds : DnsCache.holds (cache i) host (clockAt base now) = true := by
      simpa only using List.find?_some search
    have valid := ((represents.holds_iff window).mp holds).1
    rw [if_neg named, search]
    dsimp only
    split
    · exact .inl ⟨rfl, rfl⟩
    · exact .inr ⟨i, (cache i).ip, rfl, valid, name, rfl⟩
  · rw [search_silent nothing]
    exact .inl ⟨rfl, rfl⟩

/-- Stamping an entry is touching its name. -/
theorem Represents.touch (represents : Represents base now cache m) {i : Fin kDnsCacheEntries}
    {key : Host} (valid : (cache i).valid = true) (name : (cache i).host = key) :
    Represents base now (Function.update cache i { cache i with usedMs := clockAt base now })
      (m.apply ⟨now, .touch key⟩) := by
  have hosts : ∀ j, (Function.update cache i { cache i with usedMs := clockAt base now } j).host =
      (cache j).host := by
    intro j
    by_cases own : j = i
    · rw [own, Function.update_self]
    · rw [Function.update_of_ne own]
  have valids : ∀ j, (Function.update cache i { cache i with usedMs := clockAt base now } j).valid =
      (cache j).valid := by
    intro j
    by_cases own : j = i
    · rw [own, Function.update_self]
    · rw [Function.update_of_ne own]
  constructor
  · intro j stillValid
    rw [valids] at stillValid
    obtain ⟨memo, found, holds⟩ := represents.entry j stillValid
    rw [hosts, LruMap.apply_touch, found]
    refine ⟨_, rfl, ?_⟩
    dsimp only
    by_cases own : j = i
    · subst own
      rw [Function.update_self, if_pos name.symm]
      exact { holds with used := rfl, recent := Nat.le_refl _ }
    · have other : key ≠ (cache j).host := by
        intro same
        exact own (represents.unique j i stillValid valid (same.symm.trans name.symm))
      rw [Function.update_of_ne own, if_neg other]
      exact holds
  · intro other memo found
    rw [LruMap.apply_touch, Option.map_eq_some_iff] at found
    obtain ⟨old, held, _⟩ := found
    obtain ⟨j, valid', name'⟩ := represents.held other old held
    exact ⟨j, by rw [valids]; exact valid', by rw [hosts]; exact name'⟩
  · intro j k left right same
    rw [valids] at left right
    rw [hosts, hosts] at same
    exact represents.unique j k left right same

/-! ## A put -/

/-- The entry of the name itself is overwritten when there is one. -/
theorem Represents.victim_own (represents : Represents base now cache m) {host : Host}
    {i : Fin kDnsCacheEntries} (valid : (cache i).valid = true)
    (name : (cache i).host = foldHost host) (moment : UInt32) : cache.victim host moment = i := by
  have search : (List.finRange kDnsCacheEntries).find?
      (fun i => (cache i).valid && dnsHostEq (cache i).host host) = some i := by
    apply find_only
    · obtain ⟨_, _, holds⟩ := represents.entry i valid
      rw [Bool.and_eq_true]
      exact ⟨valid, holds.same.mpr name⟩
    · intro j other
      rw [Bool.and_eq_true] at other
      obtain ⟨_, _, holds⟩ := represents.entry j other.1
      exact represents.unique j i other.1 valid ((holds.same.mp other.2).trans name.symm)
  rw [DnsCache.victim, search]

theorem evictedBy_eq_some {host other : Host} {moment : UInt32} :
    cache.evictedBy host moment = some other ↔
      (cache (cache.victim host moment)).valid = true ∧
      dnsHostEq (cache (cache.victim host moment)).host host = false ∧
      (cache (cache.victim host moment)).host = other := by
  unfold DnsCache.evictedBy
  dsimp only
  split
  · next apart =>
    rw [Bool.and_eq_true, Bool.not_eq_true'] at apart
    rw [Option.some.injEq]
    exact ⟨fun same => ⟨apart.1, apart.2, same⟩, fun all => all.2.2⟩
  · next same =>
    refine iff_of_false nofun ?_
    rintro ⟨valid, apart, _⟩
    exact same (by rw [valid, apart]; rfl)

/-- Overwriting the victim is recording the name and evicting the victim's. -/
theorem Represents.put (represents : Represents base now cache m) {host : Host} (named : host ≠ [])
    (ip : UInt32) {ttl : UInt32} (short : ttl.toNat < 2 ^ 31) :
    Represents base now
      (Function.update cache (cache.victim host (clockAt base now))
        { host := foldHost host, ip, storedMs := clockAt base now, ttlMs := ttl,
          usedMs := clockAt base now, valid := true })
      (m.apply ⟨now, .record (foldHost host) ip ttl.toNat
        (cache.evictedBy host (clockAt base now))⟩) := by
  generalize chosen : cache.victim host (clockAt base now) = v
  have other : ∀ i, i ≠ v → (cache i).valid = true → (cache i).host ≠ foldHost host := by
    intro i apart valid name
    exact apart ((represents.victim_own valid name (clockAt base now)).symm.trans chosen)
  have stays : ∀ i, i ≠ v → (cache i).valid = true →
      m.apply ⟨now, .record (foldHost host) ip ttl.toNat (cache.evictedBy host (clockAt base now))⟩
        (cache i).host = m (cache i).host := by
    intro i apart valid
    rw [LruMap.apply_record_other (other i apart valid), if_neg]
    intro evicted
    obtain ⟨old, _, name⟩ := evictedBy_eq_some.mp evicted
    rw [chosen] at old name
    exact apart (represents.unique i v valid old name.symm)
  constructor
  · intro i valid
    by_cases own : i = v
    · subst own
      rw [Function.update_self]
      refine ⟨_, LruMap.apply_record_same _ _ _ _ _ _, ?_⟩
      exact ⟨foldHost_idem host, by simpa [foldHost] using named, rfl, rfl, rfl, rfl, short,
        Nat.le_refl _, Nat.le_refl _⟩
    · rw [Function.update_of_ne own] at valid ⊢
      rw [stays i own valid]
      exact represents.entry i valid
  · intro key memo found
    by_cases own : key = foldHost host
    · exact ⟨v, by rw [Function.update_self], by rw [Function.update_self, own]⟩
    · rw [LruMap.apply_record_other own] at found
      split at found
      · cases found
      · next kept =>
        obtain ⟨i, valid, name⟩ := represents.held key memo found
        have apart : i ≠ v := by
          rintro rfl
          apply kept
          rw [evictedBy_eq_some, chosen]
          refine ⟨valid, ?_, name⟩
          obtain ⟨_, _, holds⟩ := represents.entry i valid
          rw [← Bool.not_eq_true, holds.same, name]
          exact own
        exact ⟨i, by rwa [Function.update_of_ne apart], by rwa [Function.update_of_ne apart]⟩
  · intro i j left right same
    by_cases leftOwn : i = v
    · by_cases rightOwn : j = v
      · rw [leftOwn, rightOwn]
      · rw [leftOwn, Function.update_self, Function.update_of_ne rightOwn] at same
        rw [Function.update_of_ne rightOwn] at right
        exact absurd same.symm (other j rightOwn right)
    · by_cases rightOwn : j = v
      · rw [rightOwn, Function.update_self, Function.update_of_ne leftOwn] at same
        rw [Function.update_of_ne leftOwn] at left
        exact absurd same (other i leftOwn left)
      · rw [Function.update_of_ne leftOwn] at left same
        rw [Function.update_of_ne rightOwn] at right same
        exact represents.unique i j left right same

/-- A put records what `recordOf` says. -/
theorem Represents.recorded (represents : Represents base now cache m) (host : Host) (ip : UInt32)
    {ttl : UInt32} (short : ttl.toNat < 2 ^ 31) :
    Represents base now (cache.put host ip (clockAt base now) ttl)
      (m.apply ⟨now, cache.recordOf host ip (clockAt base now) ttl⟩) := by
  unfold DnsCache.put DnsCache.recordOf
  split
  · exact represents
  · next named =>
    split
    · exact represents
    · exact represents.put named ip short

/-! ## Runs -/

/-- A call does to the cache what `changeOf` says it does to the map. -/
theorem Represents.perform (represents : Represents base now cache m) (window : now < 2 ^ 31)
    {call : CacheCall} (short : call.Short) :
    Represents base now (cache.perform (clockAt base now) call)
      (m.apply ⟨now, cache.changeOf (clockAt base now) call⟩) := by
  cases call with
  | lookup host =>
      simp only [DnsCache.perform, DnsCache.changeOf]
      rcases represents.lookup_cases window host with ⟨silent, same⟩ | ⟨i, ip, answer, valid, name, stamped⟩
      · rw [silent, same]
        exact represents
      · rw [answer, stamped]
        exact represents.touch valid name
  | blocked host => exact represents
  | store host ip ttlMs =>
      simp only [DnsCache.perform, DnsCache.store, DnsCache.changeOf]
      split
      · exact represents
      · exact represents.recorded host ip short
  | storeFailure host ttlMs => exact represents.recorded host 0 short

theorem lastMoment_window {start : Nat} {calls : List TimedCall} (inWindow : InWindow start calls) :
    start ≤ lastMoment start calls ∧ lastMoment start calls < 2 ^ 31 := by
  induction calls generalizing start with
  | nil => exact ⟨Nat.le_refl start, inWindow⟩
  | cons c calls ih =>
      obtain ⟨bound, window⟩ := ih inWindow.2.2
      exact ⟨Nat.le_trans inWindow.1 bound, window⟩

theorem represents_calls {start : Nat} {calls : List TimedCall} (inWindow : InWindow start calls)
    {s : Served} (represents : Represents base start s.cache (LruMap.replay s.trace)) :
    Represents base (lastMoment start calls) (calls.foldl (Served.serve base) s).cache
      (LruMap.replay (calls.foldl (Served.serve base) s).trace) := by
  induction calls generalizing start s with
  | nil => exact represents
  | cons c calls ih =>
      obtain ⟨after, short, rest⟩ := inWindow
      apply ih rest
      have window := Nat.lt_of_le_of_lt (lastMoment_window rest).1 (lastMoment_window rest).2
      have performed := (represents.later after).perform window short
      rw [← LruMap.replay_append] at performed
      exact performed

theorem represents_run {calls : List TimedCall} (inWindow : InWindow 0 calls) :
    Represents base (lastMoment 0 calls) (Served.run base calls).cache
      (LruMap.replay (Served.run base calls).trace) :=
  represents_calls inWindow (represents_start base)

/-! ## Which entry a put overwrites -/

/-- Within the window the signed difference of two stamps orders them. -/
theorem nonnegative_iff {left right : Nat} (leftWindow : left < 2 ^ 31) (rightWindow : right < 2 ^ 31) :
    nonnegative (clockAt base left - clockAt base right) = true ↔ right ≤ left := by
  have baseBound := base.toNat_lt
  simp only [nonnegative, clockAt, decide_eq_true_eq, UInt32.toNat_sub, UInt32.toNat_add,
    UInt32.toNat_ofNat']
  omega

/-- A fold that keeps the better of two keeps the best of all. -/
theorem foldl_least {α : Type} {key : α → Nat} {keeps : α → α → Bool}
    (agrees : ∀ best i, keeps best i = true ↔ key best ≤ key i) (items : List α) (start : α) :
    key (items.foldl (fun best i => if keeps best i then best else i) start) ≤ key start ∧
      ∀ i ∈ items, key (items.foldl (fun best i => if keeps best i then best else i) start) ≤ key i := by
  induction items generalizing start with
  | nil => exact ⟨Nat.le_refl _, fun _ present => absurd present List.not_mem_nil⟩
  | cons item items ih =>
      rw [List.foldl_cons]
      split
      · next keep =>
        obtain ⟨first, rest⟩ := ih start
        refine ⟨first, fun i present => ?_⟩
        rcases List.mem_cons.mp present with rfl | later
        · exact Nat.le_trans first ((agrees start i).mp keep)
        · exact rest i later
      · next change =>
        obtain ⟨first, rest⟩ := ih item
        have better : key item ≤ key start := by
          have worse := mt (agrees start item).mpr change
          omega
        refine ⟨Nat.le_trans first better, fun i present => ?_⟩
        rcases List.mem_cons.mp present with rfl | later
        · exact first
        · exact rest i later

/-- `lru` is an entry whose last use is oldest. -/
theorem lru_oldest {uses : Fin kDnsCacheEntries → Nat} (window : ∀ i, uses i < 2 ^ 31)
    (stamps : ∀ i, (cache i).usedMs = clockAt base (uses i)) (i : Fin kDnsCacheEntries) :
    uses cache.lru ≤ uses i := by
  have agrees : ∀ best i, nonnegative ((cache i).usedMs - (cache best).usedMs) = true ↔
      uses best ≤ uses i := by
    intro best i
    rw [stamps, stamps, nonnegative_iff (window i) (window best)]
  obtain ⟨first, rest⟩ := foldl_least agrees (List.finRange kDnsCacheEntries).tail ⟨0, by decide⟩
  have every : ∀ i : Fin kDnsCacheEntries, i = ⟨0, by decide⟩ ∨
      i ∈ (List.finRange kDnsCacheEntries).tail := by decide
  rcases every i with rfl | later
  · exact first
  · exact rest i later

/-- The three kinds of entry a put may overwrite, in the order it prefers them. -/
inductive Preferred (trace : List (LruEvent Host UInt32)) (now : Nat) (cache : DnsCache)
    (host : Host) (v : Fin kDnsCacheEntries) : Prop where
  | own (valid : (cache v).valid = true) (same : dnsHostEq (cache v).host host = true)
  | idle (new : ∀ i, (cache i).valid = true → dnsHostEq (cache i).host host = false)
      (free : (cache v).valid = false ∨ ∃ ip stored ttl,
        Remembered trace (cache v).host ip stored ttl ∧ stored + ttl ≤ now)
  | oldest (new : ∀ i, (cache i).valid = true → dnsHostEq (cache i).host host = false)
      (full : ∀ i, (cache i).valid = true ∧ ∃ ip stored ttl,
        Remembered trace (cache i).host ip stored ttl ∧ now < stored + ttl)
      (longest : ∀ i, ∃ first used, lastUse trace (cache v).host = some first ∧
        lastUse trace (cache i).host = some used ∧ first ≤ used)

variable {trace : List (LruEvent Host UInt32)}

theorem Represents.remembered (represents : Represents base now cache (LruMap.replay trace))
    {i : Fin kDnsCacheEntries} (valid : (cache i).valid = true) :
    ∃ memo, Holds base now (cache i) memo ∧
      Remembered trace (cache i).host memo.value memo.stored memo.ttl ∧
      lastUse trace (cache i).host = some memo.used := by
  obtain ⟨memo, found, holds⟩ := represents.entry i valid
  refine ⟨memo, holds, ?_, replay_used found⟩
  exact (replay_remembers trace _ _ _ _).mpr ⟨memo, found, rfl, rfl, rfl⟩

theorem Represents.victim (represents : Represents base now cache (LruMap.replay trace))
    (window : now < 2 ^ 31) (host : Host) :
    Preferred trace now cache host (cache.victim host (clockAt base now)) := by
  unfold DnsCache.victim
  cases own : (List.finRange kDnsCacheEntries).find?
      fun i => (cache i).valid && dnsHostEq (cache i).host host with
  | some v =>
      have found : ((cache v).valid && dnsHostEq (cache v).host host) = true := by
        simpa only using List.find?_some own
      rw [Bool.and_eq_true] at found
      exact .own found.1 found.2
  | none =>
      have new : ∀ i, (cache i).valid = true → dnsHostEq (cache i).host host = false := by
        intro i valid
        have apart := List.find?_eq_none.mp own i (List.mem_finRange i)
        simpa only [valid, Bool.true_and, Bool.not_eq_true] using apart
      dsimp only
      cases free : (List.finRange kDnsCacheEntries).find?
          fun i => !(cache i).valid || (cache i).expired (clockAt base now) with
      | some v =>
          have found : (!(cache v).valid || (cache v).expired (clockAt base now)) = true := by
            simpa only using List.find?_some free
          apply Preferred.idle new
          cases valid : (cache v).valid with
          | false => exact .inl rfl
          | true =>
              right
              obtain ⟨memo, holds, remembers, _⟩ := represents.remembered valid
              rw [valid, Bool.not_true, Bool.false_or, holds.expired window] at found
              exact ⟨_, _, _, remembers, found⟩
      | none =>
          have busy : ∀ i, (cache i).valid = true ∧
              (cache i).expired (clockAt base now) = false := by
            intro i
            have taken := List.find?_eq_none.mp free i (List.mem_finRange i)
            simpa using taken
          have memos := fun i => represents.remembered (busy i).1
          choose memo holds remembers uses using memos
          have oldest := lru_oldest (fun i => Nat.lt_of_le_of_lt (holds i).recent window)
            (fun i => (holds i).used)
          apply Preferred.oldest new
          · intro i
            refine ⟨(busy i).1, _, _, _, remembers i, ?_⟩
            have fresh := (busy i).2
            rw [← Bool.not_eq_true, (holds i).expired window] at fresh
            exact Nat.lt_of_not_le fresh
          · exact fun i => ⟨_, _, uses _, uses i, oldest i⟩

/-! ## The law -/

/-- The entry a call may change. -/
def DnsCache.Writes (cache : DnsCache) (now : UInt32) (i : Fin kDnsCacheEntries) : CacheCall → Prop
  | .lookup host => (cache i).valid = true ∧ dnsHostEq (cache i).host host = true
  | .blocked _ => False
  | .store host _ _ | .storeFailure host _ => i = cache.victim host now

/-- What the cache does `now`, given what its calls recorded, evicted and touched. -/
structure LruLaw (base : UInt32) (now : Nat) (s : Served) : Prop where
  unique : ∀ i j, (s.cache i).valid = true → (s.cache j).valid = true →
    dnsHostEq (s.cache i).host (s.cache j).host = true → i = j
  lookup : ∀ host ip, (s.cache.lookup host (clockAt base now)).2 = some ip ↔
    ip ≠ 0 ∧ ∃ stored ttl, Remembered s.trace (foldHost host) ip stored ttl ∧ now < stored + ttl
  blocked : ∀ host, s.cache.blocked host (clockAt base now) = true ↔
    ∃ stored ttl, Remembered s.trace (foldHost host) 0 stored ttl ∧ now < stored + ttl
  victim : ∀ host, Preferred s.trace now s.cache host (s.cache.victim host (clockAt base now))
  frame : ∀ call i, s.cache.perform (clockAt base now) call i ≠ s.cache i →
    s.cache.Writes (clockAt base now) i call

theorem put_frame {host : Host} {ip moment ttl : UInt32} {i : Fin kDnsCacheEntries}
    (changed : cache.put host ip moment ttl i ≠ cache i) : i = cache.victim host moment := by
  by_contra other
  apply changed
  unfold DnsCache.put
  split
  · rfl
  · split
    · rfl
    · exact Function.update_of_ne other _ _

theorem Represents.frame (represents : Represents base now cache m) (window : now < 2 ^ 31)
    {call : CacheCall} {i : Fin kDnsCacheEntries}
    (changed : cache.perform (clockAt base now) call i ≠ cache i) :
    cache.Writes (clockAt base now) i call := by
  cases call with
  | lookup host =>
      simp only [DnsCache.perform] at changed
      rcases represents.lookup_cases window host with ⟨_, same⟩ | ⟨hit, ip, _, valid, name, stamped⟩
      · rw [same] at changed
        exact absurd rfl changed
      · rw [stamped] at changed
        by_cases own : i = hit
        · subst own
          obtain ⟨_, _, holds⟩ := represents.entry i valid
          exact ⟨valid, holds.same.mpr name⟩
        · exact absurd (Function.update_of_ne own _ _) changed
  | blocked host => exact changed rfl
  | store host ip ttlMs =>
      simp only [DnsCache.perform, DnsCache.store] at changed
      split at changed
      · exact absurd rfl changed
      · exact put_frame changed
  | storeFailure host ttlMs => exact put_frame changed

/-- What a search of the small map finds alive is what its calls remember. -/
theorem fresh_remembered (trace : List (LruEvent Host UInt32)) (host : Host) (ip : UInt32) (now : Nat) :
    (∃ memo, LruMap.replay trace host = some memo ∧ memo.value = ip ∧ now < memo.expires) ↔
      ∃ stored ttl, Remembered trace host ip stored ttl ∧ now < stored + ttl := by
  constructor
  · rintro ⟨memo, found, value, fresh⟩
    exact ⟨_, _, (replay_remembers _ _ _ _ _).mpr ⟨memo, found, value, rfl, rfl⟩, fresh⟩
  · rintro ⟨stored, ttl, remembers, fresh⟩
    obtain ⟨memo, found, value, rfl, rfl⟩ := (replay_remembers _ _ _ _ _).mp remembers
    exact ⟨memo, found, value, fresh⟩

theorem Represents.law {s : Served} (represents : Represents base now s.cache (LruMap.replay s.trace))
    (window : now < 2 ^ 31) : LruLaw base now s where
  unique := fun i j left right same => represents.one left right same
  lookup := by
    intro host ip
    rw [represents.lookup_iff window, fresh_remembered]
  blocked := by
    intro host
    rw [represents.blocked_iff window, fresh_remembered]
  victim := represents.victim window
  frame := fun _ _ => represents.frame window

/-- After any calls inside the window the cache is the small map its calls wrote. -/
theorem cache_refines_lruMap (base : UInt32) {calls : List TimedCall} (inWindow : InWindow 0 calls)
    {now : Nat} (after : lastMoment 0 calls ≤ now) (window : now < 2 ^ 31) :
    LruLaw base now (Served.run base calls) :=
  ((represents_run inWindow).later after).law window

/-- Five names, the second looked up again before the fifth evicts the first. -/
def fiveNames : List TimedCall :=
  [⟨0, .store [97] 1 9000⟩, ⟨10, .store [98] 2 9000⟩, ⟨20, .storeFailure [99] 9000⟩,
    ⟨30, .store [100] 4 9000⟩, ⟨40, .lookup [66]⟩, ⟨50, .store [101] 5 9000⟩]

theorem cache_refines_lruMap_fiveNames :
    LruLaw 4294967290 60 (Served.run 4294967290 fiveNames) ∧
      ((Served.run 4294967290 fiveNames).cache.lookup [97] (clockAt 4294967290 60)).2 = none ∧
      ((Served.run 4294967290 fiveNames).cache.lookup [98] (clockAt 4294967290 60)).2 = some 2 :=
  ⟨cache_refines_lruMap 4294967290 (by decide) (by decide) (by decide), by decide +kernel,
    by decide +kernel⟩

/-! ## Calls that record nothing -/

/-- The name, address and lifetime a call asks to record. -/
def CacheCall.stores : CacheCall → Option (Host × UInt32 × UInt32)
  | .lookup _ | .blocked _ => none
  | .store host ip ttlMs => some (host, ip, ttlMs)
  | .storeFailure host ttlMs => some (host, 0, ttlMs)

/-- The last call that asked to record the name. -/
def LatestStore (calls : List TimedCall) (host : Host) (ip : UInt32) (stored ttl : Nat) : Prop :=
  ∃ before call after name life, calls = before ++ ⟨stored, call⟩ :: after ∧
    call.stores = some (name, ip, life) ∧ life.toNat = ttl ∧ dnsHostEq name host = true ∧
    ∀ later ∈ after, ∀ asked, later.call.stores = some asked → dnsHostEq asked.1 host = false

def evictedName : LruChange Host UInt32 → Option Host
  | .keep | .touch _ => none
  | .record _ _ _ evicted => evicted

/-- Answers come from the last store of a name, whatever it asked to record. -/
def AnswersLatest (base : UInt32) (calls : List TimedCall) (now : Nat) : Prop :=
  ∀ host ip stored ttl, LatestStore calls host ip stored ttl → now < stored + ttl →
    (∀ event ∈ (Served.run base calls).trace, evictedName event.change ≠ some (foldHost host)) →
    ((Served.run base calls).cache.lookup host (clockAt base now)).2 =
        (if ip = 0 then none else some ip) ∧
      (Served.run base calls).cache.blocked host (clockAt base now) = decide (ip = 0)

/-- A store of address 0 leaves the older address; a failure of an empty or an
overlong name leaves the name unblocked. -/
theorem refused_stores_record_nothing :
    ¬ AnswersLatest 0 [⟨0, .store [97] 7 1000⟩, ⟨1, .store [97] 0 1000⟩] 2 ∧
    ¬ AnswersLatest 0 [⟨0, .storeFailure [] 1000⟩] 1 ∧
    ¬ AnswersLatest 0 [⟨0, .storeFailure (List.replicate 256 97) 1000⟩] 1 := by
  refine ⟨fun answers => ?_, fun answers => ?_, fun answers => ?_⟩
  · have answered := answers [97] 0 1 1000
      ⟨[⟨0, .store [97] 7 1000⟩], _, [], [97], 1000, rfl, rfl, rfl, rfl, nofun⟩ (by decide)
      (by decide +kernel)
    exact absurd answered.1 (by decide +kernel)
  · have answered := answers [] 0 0 1000 ⟨[], _, [], [], 1000, rfl, rfl, rfl, rfl, nofun⟩ (by decide)
      (by decide +kernel)
    exact absurd answered.2 (by decide +kernel)
  · have answered := answers (List.replicate 256 97) 0 0 1000
      ⟨[], _, [], List.replicate 256 97, 1000, rfl, rfl, rfl, by decide +kernel, nofun⟩ (by decide)
      (by decide +kernel)
    exact absurd answered.2 (by decide +kernel)

end FryFirmware.Dns
