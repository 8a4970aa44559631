import FryFirmware.Ota.TlsSession
import Mathlib.Data.List.Induction

/-!
# What the sessions of a boot have in common

Whatever the calls before it were, a session gets the anchors of its own host and a clock
that was set, and buffers that its peer can be expected to fill.
-/

set_option autoImplicit false

namespace FryFirmware.Ota.Tls

open Lib Lib.OrderedTrace
open Config (Text text)

/-! ## What a trace says -/

/-- When SNTP was started. -/
def starts (trace : List Note) : List Nat :=
  trace.filterMap fun
    | .sntpStarted time => some time
    | _ => none

/-- The hashes of the hosts that answered yes, in order. -/
def honoured (trace : List Note) : List UInt64 :=
  trace.filterMap fun
    | .probed host true => some (hostHash host)
    | _ => none

/-- How a call ended. -/
def Note.isOutcome : Note → Bool
  | .refused _ | .opened _ => true
  | _ => false

def outcomes (trace : List Note) : List Note := trace.filter Note.isOutcome

theorem starts_append (front back : List Note) : starts (front ++ back) = starts front ++ starts back :=
  List.filterMap_append

theorem honoured_append (front back : List Note) :
    honoured (front ++ back) = honoured front ++ honoured back :=
  List.filterMap_append

/-- The hash of an answer belongs to a host that was asked and said yes. -/
theorem mem_honoured_iff {trace : List Note} {hash : UInt64} :
    hash ∈ honoured trace ↔ ∃ host, .probed host true ∈ trace ∧ hostHash host = hash := by
  rw [honoured, List.mem_filterMap]
  constructor
  · rintro ⟨note, member, same⟩
    split at same
    · next host => exact ⟨host, member, Option.some.inj same⟩
    · cases same
  · rintro ⟨host, member, rfl⟩
    exact ⟨_, member, rfl⟩

theorem hostHash_ne_zero (host : Text) : hostHash host ≠ 0 := by
  rw [hostHash]
  split
  · decide
  · next proper => exact proper

/-! ## What every event keeps -/

/-- The state agrees with what was done so far. -/
structure Reached (s : TlsState) (trace : List Note) : Prop where
  anchors : ∀ list ∈ s.list, s.set = list
  cache : s.mflnCache.Holds 0 (honoured trace)
  kicked : s.ntpKicked = !(starts trace).isEmpty
  stamp : ∀ time ∈ (starts trace).getLast?, s.ntpKickedMs = counter time

theorem Reached.cached_iff {s : TlsState} {trace : List Note} (reached : Reached s trace) (host : Text) :
    hostHash host ∈ s.mflnCache.slots ↔ hostHash host ∈ Ring.recent 4 (honoured trace) :=
  reached.cache.mem_iff (hostHash_ne_zero host)

/-- An event that only ends a call, or says nothing of it. -/
theorem Reached.silent {s s' : TlsState} {trace notes : List Note} (reached : Reached s trace)
    (anchors : ∀ list ∈ s'.list, s'.set = list) (cache : s'.mflnCache = s.mflnCache)
    (kicked : s'.ntpKicked = s.ntpKicked) (stamp : s'.ntpKickedMs = s.ntpKickedMs)
    (quiet : ∀ note ∈ notes, note.isOutcome = true) : Reached s' (trace ++ notes) := by
  have no_starts : starts notes = [] := by
    rw [starts, List.filterMap_eq_nil_iff]
    intro note member
    have outcome := quiet note member
    cases note <;> first | rfl | cases outcome
  have no_answers : honoured notes = [] := by
    rw [honoured, List.filterMap_eq_nil_iff]
    intro note member
    have outcome := quiet note member
    cases note <;> first | rfl | cases outcome
  obtain ⟨-, cache', kicked', stamp'⟩ := reached
  constructor
  · exact anchors
  · rw [honoured_append, no_answers, List.append_nil, cache]
    exact cache'
  · rw [starts_append, no_starts, List.append_nil, kicked]
    exact kicked'
  · rw [starts_append, no_starts, List.append_nil, stamp]
    exact stamp'

theorem Reached.kick {s : TlsState} {trace : List Note} (reached : Reached s trace) (k : Kick) :
    Reached (kickSntpIfNeeded s k).1 (trace ++ (kickSntpIfNeeded s k).2) := by
  rw [kickSntpIfNeeded]
  split
  · rwa [List.append_nil]
  · split
    · rwa [List.append_nil]
    · constructor
      · exact reached.anchors
      · rw [honoured_append]
        simpa [honoured] using reached.cache
      · simp [starts]
      · simp [starts]

theorem ensureTrustAnchors_spec {s : TlsState} {want : TrustSet} (layoutOk : Bool)
    (anchors : ∀ list ∈ s.list, s.set = list) (some_set : want ≠ .None) :
    ((ensureTrustAnchors s want layoutOk).2 = true ↔ s.list = some want ∨ layoutOk = true) ∧
      ((ensureTrustAnchors s want layoutOk).2 = true →
        (ensureTrustAnchors s want layoutOk).1.list = some want) ∧
      (∀ list ∈ (ensureTrustAnchors s want layoutOk).1.list,
        (ensureTrustAnchors s want layoutOk).1.set = list) ∧
      ensureTrustAnchors s want layoutOk =
        ({ s with
            list := (ensureTrustAnchors s want layoutOk).1.list
            set := (ensureTrustAnchors s want layoutOk).1.set },
          (ensureTrustAnchors s want layoutOk).2) := by
  obtain ⟨list, set, ntpKicked, ntpKickedMs, lastRefusalHeap, mflnCache⟩ := s
  rw [ensureTrustAnchors]
  simp only at anchors ⊢
  split
  · next resident =>
    obtain ⟨present, rfl⟩ := resident
    obtain ⟨list, rfl⟩ := Option.isSome_iff_exists.mp present
    cases anchors list rfl
    exact ⟨iff_of_true rfl (.inl rfl), fun _ => rfl, anchors, rfl⟩
  · next absent =>
    rw [anchorListFor, if_neg some_set]
    have not_resident : list ≠ some want := by
      rintro rfl
      exact absent ⟨rfl, anchors want rfl⟩
    cases layoutOk with
    | false => exact ⟨iff_of_false nofun (by simp [not_resident]), nofun, nofun, rfl⟩
    | true => exact ⟨iff_of_true rfl (.inr rfl), fun _ => rfl, by rintro _ ⟨⟩; rfl, rfl⟩

/-- What asking for a host does, and what the answer is. -/
theorem Reached.ask {s : TlsState} {trace : List Note} (reached : Reached s trace) {host : Text}
    (some_host : host ≠ []) (answer : Bool) :
    Reached { s with mflnCache := (mflnHonours s.mflnCache (some host) answer).1 }
        (trace ++ if (mflnHonours s.mflnCache (some host) answer).2.2 then [.probed host answer] else []) ∧
      ((mflnHonours s.mflnCache (some host) answer).2.1 = true ↔
        hostHash host ∈ Ring.recent 4 (honoured trace) ∨ answer = true) ∧
      ((mflnHonours s.mflnCache (some host) answer).2.2 = true ↔
        hostHash host ∉ Ring.recent 4 (honoured trace)) := by
  have cached := reached.cached_iff host
  rw [mflnHonours]
  simp only [if_neg some_host]
  split
  · next known =>
    refine ⟨by simpa using reached, iff_of_true rfl (.inl (cached.mp known)), ?_⟩
    exact iff_of_false nofun fun unknown => unknown (cached.mp known)
  · next unknown =>
    have not_recent := mt cached.mpr unknown
    refine ⟨?_, by simp [not_recent], iff_of_true rfl not_recent⟩
    constructor
    · exact reached.anchors
    · cases answer with
      | false => simpa [honoured] using reached.cache
      | true => simpa [honoured] using reached.cache.push (hostHash host)
    · simpa [starts] using reached.kicked
    · simpa [starts] using reached.stamp

theorem begin_isOutcome (s : TlsState) (c : Call) (url : Text) (rx : UInt16) :
    (begin s c url rx).isOutcome = true := by
  rw [begin]
  split <;> rfl

theorem Reached.openSession {s : TlsState} {trace : List Note} (reached : Reached s trace) {c : Call}
    {url host : Text} (some_host : host ≠ []) :
    Reached (openSession s c url host).1 (trace ++ (openSession s c url host).2) := by
  have ends : ∀ {s'} {note : Note}, Reached s' trace → note.isOutcome = true →
      Reached s' (trace ++ [note]) := fun kept outcome =>
    kept.silent kept.anchors rfl rfl rfl fun x member => by rwa [List.mem_singleton.mp member]
  rw [Tls.openSession]
  split
  · exact reached.silent reached.anchors rfl rfl rfl (by simp [Note.isOutcome])
  · exact ends reached (begin_isOutcome _ _ _ _)
  · exact ends reached (begin_isOutcome _ _ _ _)
  · exact ends reached (begin_isOutcome _ _ _ _)
  · rw [← List.append_assoc]
    have asked := (reached.ask some_host c.honours).1
    exact asked.silent asked.anchors rfl rfl rfl fun x member => by
      rw [List.mem_singleton.mp member]
      exact begin_isOutcome _ _ _ _

theorem Reached.call {s : TlsState} {trace : List Note} (reached : Reached s trace) (c : Call) :
    Reached (beginHttpsUrl s c).1 (trace ++ (beginHttpsUrl s c).2) := by
  have fresh : Reached { s with lastRefusalHeap := false } trace :=
    ⟨reached.anchors, reached.cache, reached.kicked, reached.stamp⟩
  have ends : ∀ {s'} {before : List Note} {why : Refusal}, Reached s' (trace ++ before) →
      Reached s' (trace ++ (before ++ [.refused why])) := fun kept => by
    rw [← List.append_assoc]
    exact kept.silent kept.anchors rfl rfl rfl (by simp [Note.isOutcome])
  have refused : ∀ {s'} {why : Refusal}, Reached s' trace → Reached s' (trace ++ [.refused why]) :=
    fun kept => kept.silent kept.anchors rfl rfl rfl (by simp [Note.isOutcome])
  rw [beginHttpsUrl]
  cases c.url with
  | none => exact refused fresh
  | some url =>
      simp only
      cases extractHost url 64 with
      | none => exact refused fresh
      | some host =>
          simp only
          split
          · exact refused fresh
          · next trusted =>
            split
            · exact ends (fresh.kick c.kick)
            · have some_host : host ≠ [] := by
                rintro rfl
                exact trusted (by decide)
              obtain ⟨-, -, anchors, same⟩ :=
                ensureTrustAnchors_spec c.layoutOk fresh.anchors trusted
              have kept : Reached (ensureTrustAnchors { s with lastRefusalHeap := false }
                  (trustSetForHost host) c.layoutOk).1 trace := by
                rw [same]
                exact ⟨anchors, reached.cache, reached.kicked, reached.stamp⟩
              split
              · exact refused kept
              · exact kept.openSession some_host

/-- Whatever the events of a boot were, the state agrees with what they did. -/
theorem after_reached (events : List Event) : Reached (after events).1 (after events).2 := by
  refine run_invariant ⟨nofun, Ring.blank_holds 3 0, rfl, nofun⟩ ?_ events
  intro s trace event reached
  cases event with
  | call c => exact reached.call c
  | release =>
      rw [step, releaseTrustAnchors, List.append_nil]
      split
      · exact reached
      · exact ⟨nofun, reached.cache, reached.kicked, reached.stamp⟩
  | startDelay kick => exact reached.kick kick

/-! ## What a session gets -/

/-- The heap of the call is not below the floors of its session. -/
def Affordable (c : Call) : Prop :=
  (sessionPlan c.heap c.mflnProbeWorthwhile c.smallReply).affordable = true

/-- The receive buffer of a session: 512 bytes only for a peer that may honour MFLN, and did so or
could not be asked, and a large one only on a heap that has room for it. -/
structure Fitting (c : Call) (honours : Prop) (rx : UInt16) : Prop where
  small : rx = 512 ↔ c.mflnProbeWorthwhile = true ∧ (¬ Affordable c ∨ honours)
  medium : rx = 8192 ↔ c.mflnProbeWorthwhile = false ∧ c.smallReply = true
  large : rx = 512 ∨ rx = 8192 ∨ rx = 16384
  roomy : rx ≠ 512 → Affordable c

/-- The buffer that `openSession` asks for. -/
def rxFor (c : Call) (honours : Bool) : Option UInt16 :=
  match (sessionPlan c.heap c.mflnProbeWorthwhile c.smallReply).sizing with
  | .Refuse => none
  | .Small => some 512
  | .Big => some 16384
  | .Medium => some 8192
  | .ProbeFirst => some (if honours then 512 else 16384)

theorem rxFor_none_iff {c : Call} {honours : Bool} :
    rxFor c honours = none ↔ c.mflnProbeWorthwhile = false ∧ ¬ Affordable c := by
  rw [rxFor, Affordable, sessionPlan, planTls]
  cases c.mflnProbeWorthwhile <;> cases c.smallReply <;> simp only <;>
    generalize heapGatePass _ _ _ _ = affordable <;> cases affordable <;> simp

theorem rxFor_fitting {c : Call} {honours : Bool} {rx : UInt16} (asked : rxFor c honours = some rx) :
    Fitting c (honours = true) rx := by
  rw [rxFor, sessionPlan, planTls] at asked
  have affordable_iff : Affordable c ↔
      (sessionPlan c.heap c.mflnProbeWorthwhile c.smallReply).affordable = true := Iff.rfl
  rw [sessionPlan, planTls] at affordable_iff
  revert asked affordable_iff
  cases worthwhile : c.mflnProbeWorthwhile <;> cases small : c.smallReply <;> simp only <;>
    generalize heapGatePass _ _ _ _ = affordable <;> cases affordable <;>
    intro asked affordable_iff <;> cases honours <;> cases asked <;>
    constructor <;> simp [worthwhile, small, affordable_iff]

/-! ## What a call does -/

/-- The call gets past the host, the clock and the anchors. -/
structure Ready (s : TlsState) (c : Call) (url host : Text) : Prop where
  named : c.url = some url
  extracted : extractHost url 64 = some host
  trusted : trustSetForHost host ≠ .None
  sane : kMinSaneEpoch ≤ c.now
  loads : s.list = some (trustSetForHost host) ∨ c.layoutOk = true

theorem kick_notes (s : TlsState) (k : Kick) :
    (∀ note ∈ (kickSntpIfNeeded s k).2, ∃ time, note = .sntpStarted time) ∧
      (kickSntpIfNeeded s k).1.lastRefusalHeap = s.lastRefusalHeap := by
  rw [kickSntpIfNeeded]
  split
  · exact ⟨nofun, rfl⟩
  · split
    · exact ⟨nofun, rfl⟩
    · exact ⟨by simp, rfl⟩

theorem started_quiet {front : List Note} (started : ∀ note ∈ front, ∃ time, note = .sntpStarted time) :
    ∀ note ∈ front, note.isOutcome = false := by
  intro note member
  obtain ⟨time, rfl⟩ := started note member
  rfl

/-- A call that does not get so far is refused, and not for the heap. -/
theorem begin_not_ready {s : TlsState} (anchors : ∀ list ∈ s.list, s.set = list) {c : Call}
    (unready : ∀ url host, ¬ Ready s c url host) :
    ∃ front why, (beginHttpsUrl s c).2 = front ++ [.refused why] ∧ why ≠ .heap ∧
      (∀ note ∈ front, ∃ time, note = .sntpStarted time) ∧
      (beginHttpsUrl s c).1.lastRefusalHeap = false := by
  rw [beginHttpsUrl]
  cases some_url : c.url with
  | none => exact ⟨[], .host, rfl, nofun, nofun, rfl⟩
  | some url =>
      simp only
      cases some_host : extractHost url 64 with
      | none => exact ⟨[], .host, rfl, nofun, nofun, rfl⟩
      | some host =>
          simp only
          split
          · exact ⟨[], .unknownHost, rfl, nofun, nofun, rfl⟩
          · next trusted =>
            split
            · obtain ⟨started, same⟩ := kick_notes { s with lastRefusalHeap := false } c.kick
              exact ⟨_, .clock, rfl, nofun, started, same⟩
            · next sane =>
              obtain ⟨loads, -, -, same⟩ := ensureTrustAnchors_spec (s := { s with lastRefusalHeap := false })
                c.layoutOk anchors trusted
              split
              · exact ⟨[], .anchors, rfl, nofun, nofun, by rw [same]⟩
              · next loaded =>
                refine absurd ⟨some_url, some_host, trusted, ?_, loads.mp ?_⟩ (unready url host)
                · simpa [tlsClockSane] using sane
                · simpa using loaded

/-- A call that does goes on with the anchors of its host. -/
theorem begin_ready {s : TlsState} {trace : List Note} (reached : Reached s trace) {c : Call}
    {url host : Text} (ready : Ready s c url host) :
    ∃ s', Reached s' trace ∧ s'.list = some (trustSetForHost host) ∧ s'.lastRefusalHeap = false ∧
      beginHttpsUrl s c = openSession s' c url host := by
  obtain ⟨some_url, some_host, trusted, sane, loads⟩ := ready
  obtain ⟨loads_iff, list, anchors, same⟩ := ensureTrustAnchors_spec
    (s := { s with lastRefusalHeap := false }) c.layoutOk reached.anchors trusted
  have loaded := loads_iff.mpr loads
  have clock : tlsClockSane c.now = true := decide_eq_true sane
  have kept : Reached (ensureTrustAnchors { s with lastRefusalHeap := false } (trustSetForHost host)
      c.layoutOk).1 trace := by
    rw [same]
    exact ⟨anchors, reached.cache, reached.kicked, reached.stamp⟩
  refine ⟨_, kept, list loaded, by rw [same], ?_⟩
  rw [beginHttpsUrl, some_url]
  simp only [some_host, if_neg trusted, clock, loaded, Bool.not_true, Bool.false_eq_true, if_false]

/-- Behind the anchors it is the heap that decides, and then the client. -/
theorem openSession_cases (s : TlsState) (c : Call) (url host : Text) :
    rxFor c (mflnHonours s.mflnCache (some host) c.honours).2.1 = none ∧
        openSession s c url host = ({ s with lastRefusalHeap := true }, [.refused .heap]) ∨
      ∃ s' front rx, rxFor c (mflnHonours s.mflnCache (some host) c.honours).2.1 = some rx ∧
        openSession s c url host = (s', front ++ [begin s c url rx]) ∧
        (∀ note ∈ front, note.isOutcome = false) ∧ s'.lastRefusalHeap = s.lastRefusalHeap := by
  rw [openSession, rxFor]
  cases (sessionPlan c.heap c.mflnProbeWorthwhile c.smallReply).sizing with
  | Refuse => exact .inl ⟨rfl, rfl⟩
  | Small => exact .inr ⟨s, [], 512, rfl, rfl, nofun, rfl⟩
  | Big => exact .inr ⟨s, [], 16384, rfl, rfl, nofun, rfl⟩
  | Medium => exact .inr ⟨s, [], 8192, rfl, rfl, nofun, rfl⟩
  | ProbeFirst =>
      refine .inr ⟨_, if (mflnHonours s.mflnCache (some host) c.honours).2.2 then
        [.probed host c.honours] else [], _, rfl, rfl, fun note member => ?_, rfl⟩
      split at member
      · rw [List.mem_singleton.mp member]
        rfl
      · cases member

theorem mem_outcome_iff {front : List Note} {last note : Note}
    (quiet : ∀ x ∈ front, x.isOutcome = false) (outcome : note.isOutcome = true) :
    note ∈ front ++ [last] ↔ note = last := by
  rw [List.mem_append, List.mem_singleton]
  refine ⟨fun either => either.resolve_left fun earlier => ?_, .inr⟩
  rw [quiet note earlier] at outcome
  cases outcome

/-! ## Sessions -/

/-- The host is known to honour MFLN: it was asked, said yes, and few others did since. -/
def Known (trace : List Note) (host : Text) : Prop := hostHash host ∈ Ring.recent 4 (honoured trace)

theorem Ready.some_host {s : TlsState} {c : Call} {url host : Text} (ready : Ready s c url host) :
    host ≠ [] := by
  rintro rfl
  exact ready.trusted (by decide)

/-- The host of a call is determined by its URL. -/
theorem Ready.unique {s : TlsState} {c : Call} {url url' host host' : Text}
    (ready : Ready s c url host) (ready' : Ready s c url' host') : url' = url ∧ host' = host := by
  have same := ready'.named
  rw [ready.named, Option.some.injEq] at same
  subst same
  have same_host := ready'.extracted
  rw [ready.extracted, Option.some.injEq] at same_host
  exact ⟨rfl, same_host.symm⟩

theorem Fitting.unique {c : Call} {honours : Prop} {rx rx' : UInt16} (fits : Fitting c honours rx)
    (fits' : Fitting c honours rx') : rx = rx' := by
  have small : rx = 512 ↔ rx' = 512 := fits.small.trans fits'.small.symm
  have medium : rx = 8192 ↔ rx' = 8192 := fits.medium.trans fits'.medium.symm
  rcases fits.large with one | one | one <;> rcases fits'.large with other | other | other <;>
    simp_all

theorem Fitting.congr {c : Call} {honours honours' : Prop} {rx : UInt16} (fits : Fitting c honours rx)
    (same : honours ↔ honours') : Fitting c honours' rx := by
  rwa [← same]

/-- No buffer fits when the peer refuses MFLN and the heap is short. -/
theorem Fitting.not_refused {c : Call} {honours : Prop} {rx : UInt16} (fits : Fitting c honours rx) :
    ¬ (c.mflnProbeWorthwhile = false ∧ ¬ Affordable c) := by
  rintro ⟨not_worthwhile, short⟩
  have large : rx ≠ 512 := fun small => by
    have worthwhile := (fits.small.mp small).1
    rw [not_worthwhile] at worthwhile
    cases worthwhile
  exact short (fits.roomy large)

section

variable {s : TlsState} {trace : List Note} {c : Call}

/-- A call opens a session exactly when everything it needs is there, and this is the session. -/
theorem Reached.opened_iff (reached : Reached s trace) (session : Session) :
    .opened session ∈ (beginHttpsUrl s c).2 ↔
      ∃ url host rx, Ready s c url host ∧ c.begins = true ∧
        Fitting c (Known trace host ∨ c.honours = true) rx ∧
        session = { url, anchors := some (trustSetForHost host), x509Time := c.now, rx, tx := 512 } := by
  by_cases unready : ∀ url host, ¬ Ready s c url host
  · obtain ⟨front, why, notes, -, started, -⟩ := begin_not_ready reached.anchors unready
    rw [notes, mem_outcome_iff (started_quiet started) rfl]
    refine iff_of_false nofun ?_
    rintro ⟨url, host, rx, ready, -⟩
    exact unready url host ready
  · simp only [not_forall, not_not] at unready
    obtain ⟨url, host, ready⟩ := unready
    obtain ⟨s', kept, list, -, same⟩ := begin_ready reached ready
    have answer_iff : (mflnHonours s'.mflnCache (some host) c.honours).2.1 = true ↔
        Known trace host ∨ c.honours = true := (kept.ask ready.some_host c.honours).2.1
    rw [same]
    rcases openSession_cases s' c url host with ⟨none_fits, ends⟩ | ⟨s'', front, rx, asked, ends, quiet, -⟩
    · rw [ends]
      refine iff_of_false (by simp) ?_
      rintro ⟨url', host', rx, -, -, fits, -⟩
      exact fits.not_refused (rxFor_none_iff.mp none_fits)
    · have fits := (rxFor_fitting asked).congr answer_iff
      rw [ends, mem_outcome_iff quiet rfl, begin, list]
      constructor
      · intro opened
        split at opened
        · next begins =>
          cases opened
          exact ⟨url, host, rx, ready, begins, fits, rfl⟩
        · cases opened
      · rintro ⟨url', host', rx', ready', begins, fits', rfl⟩
        obtain ⟨rfl, rfl⟩ := ready.unique ready'
        rw [if_pos begins, fits.unique fits']

/-- `lastRefusalWasHeap` behind a call: everything else was there, and the heap was too short for a
peer that does not honour MFLN. -/
theorem Reached.heap_iff (reached : Reached s trace) :
    (beginHttpsUrl s c).1.lastRefusalHeap = true ↔
      ∃ url host, Ready s c url host ∧ c.mflnProbeWorthwhile = false ∧ ¬ Affordable c := by
  by_cases unready : ∀ url host, ¬ Ready s c url host
  · obtain ⟨-, -, -, -, -, flag⟩ := begin_not_ready reached.anchors unready
    rw [flag]
    refine iff_of_false nofun ?_
    rintro ⟨url, host, ready, -⟩
    exact unready url host ready
  · simp only [not_forall, not_not] at unready
    obtain ⟨url, host, ready⟩ := unready
    obtain ⟨s', -, -, flag, same⟩ := begin_ready reached ready
    rw [same]
    rcases openSession_cases s' c url host with ⟨none_fits, ends⟩ | ⟨s'', front, rx, asked, ends, -, kept⟩
    · rw [ends]
      exact iff_of_true rfl ⟨url, host, ready, rxFor_none_iff.mp none_fits⟩
    · rw [ends]
      refine iff_of_false (by simp [kept, flag]) ?_
      rintro ⟨-, -, -, refused⟩
      exact (rxFor_fitting asked).not_refused refused

end

/-! ## Every boot -/

theorem after_concat (events : List Event) (event : Event) :
    after (events ++ [event]) = OrderedTrace.advance step (after events) event := by
  rw [after, run_concat, after]

/-- Whatever was called before, a call opens a session exactly when its URL names a host with
trust anchors, the clock was set, the anchors load and the heap is not too short for the peer.
The session then has the anchors of that host, the clock, and the buffer that fits. -/
theorem session_opens_iff (events : List Event) (c : Call) (session : Session) :
    .opened session ∈ (step (after events).1 (.call c)).2 ↔
      ∃ url host rx, Ready (after events).1 c url host ∧ c.begins = true ∧
        Fitting c (Known (after events).2 host ∨ c.honours = true) rx ∧
        session = { url, anchors := some (trustSetForHost host), x509Time := c.now, rx, tx := 512 } :=
  (after_reached events).opened_iff session

def Event.isCall : Event → Bool
  | .call _ => true
  | _ => false

theorem after_between {before between : List Event} (others : ∀ event ∈ between, event.isCall = false) :
    (after (before ++ between)).1.lastRefusalHeap = (after before).1.lastRefusalHeap := by
  induction between using List.reverseRecOn with
  | nil => rw [List.append_nil]
  | append_singleton between event ih =>
      rw [← List.append_assoc, after_concat,
        ← ih fun x member => others x (List.mem_append_left _ member)]
      cases event with
      | call c => exact absurd (others (.call c) (by simp)) nofun
      | release =>
          simp only [advance, step, releaseTrustAnchors]
          split <;> rfl
      | startDelay kick => exact (kick_notes _ _).2

/-- Whatever happened before and since, `lastRefusalWasHeap` says of the last call that everything
else was there and the heap was too short for a peer that does not honour MFLN. -/
theorem lastRefusalWasHeap_iff {before between : List Event} (c : Call)
    (others : ∀ event ∈ between, event.isCall = false) :
    (after (before ++ [.call c] ++ between)).1.lastRefusalHeap = true ↔
      ∃ url host, Ready (after before).1 c url host ∧ c.mflnProbeWorthwhile = false ∧
        ¬ Affordable c := by
  rw [after_between others, after_concat]
  exact (after_reached before).heap_iff

/-- A call on a heap of this size, with a clock that was set. -/
def callOf (url : Text) (mflnProbeWorthwhile : Bool) (heap : HeapSample) : Call :=
  { url := some url, mflnProbeWorthwhile, smallReply := true, now := 1790000000,
    kick := { now := 1790000000, time := 20000, done := 20000 }, layoutOk := true, heap,
    honours := true, begins := true }

theorem lastRefusalWasHeap_iff_short :
    (after ([] ++ [.call (callOf (text "https://github.com/m.json") false ⟨24000, 20000⟩)] ++
      [.release])).1.lastRefusalHeap = true := by
  refine (lastRefusalWasHeap_iff _ (by simp [Event.isCall])).mpr
    ⟨text "https://github.com/m.json", text "github.com", ⟨rfl, ?_, ?_, ?_, ?_⟩, rfl, ?_⟩
  · decide
  · decide
  · decide
  · exact .inr rfl
  · rw [Affordable]
    decide

/-- The redirects of a download ask for a session as the loop that follows them has it: there
`ready` stands for the clock, the anchors, the heap and the client. -/
theorem opens_as_redirect (events : List Event) {c : Call} {url : Text} (named : c.url = some url)
    {ready : Bool}
    (everything : ready = true ↔ kMinSaneEpoch ≤ c.now ∧ c.begins = true ∧
      ¬ (c.mflnProbeWorthwhile = false ∧ ¬ Affordable c) ∧
      ∀ host ∈ extractHost url 64,
        (after events).1.list = some (trustSetForHost host) ∨ c.layoutOk = true) :
    (∃ session, .opened session ∈ (step (after events).1 (.call c)).2) ↔
      Ota.beginHttpsUrl url ready = true := by
  simp only [session_opens_iff]
  rw [Ota.beginHttpsUrl]
  constructor
  · rintro ⟨session, url', host, rx, ready', begins, fits, -⟩
    have same := ready'.named
    rw [named, Option.some.injEq] at same
    subst same
    simp only [ready'.extracted, if_neg ready'.trusted]
    refine everything.mpr ⟨ready'.sane, begins, fits.not_refused, fun other member => ?_⟩
    rw [Option.mem_def, ready'.extracted, Option.some.injEq] at member
    rw [← member]
    exact ready'.loads
  · intro opens
    cases extracted : extractHost url 64 with
    | none => simp [extracted] at opens
    | some host =>
        simp only [extracted] at opens
        split at opens
        · cases opens
        · next trusted =>
          obtain ⟨sane, begins, not_refused, loads⟩ := everything.mp opens
          have honoured_or_not : ∃ b : Bool, b = true ↔ Known (after events).2 host ∨ c.honours = true := by
            by_cases known : Known (after events).2 host ∨ c.honours = true
            · exact ⟨true, iff_of_true rfl known⟩
            · exact ⟨false, iff_of_false nofun known⟩
          obtain ⟨b, answer_iff⟩ := honoured_or_not
          cases asked : rxFor c b with
          | none => exact absurd (rxFor_none_iff.mp asked) not_refused
          | some rx =>
              exact ⟨_, url, host, rx, ⟨named, extracted, trusted, sane, loads host extracted⟩, begins,
                (rxFor_fitting asked).congr answer_iff, rfl⟩

/-! ## The gate of the manifest -/

def takenByTheClients : Nat := kBearsslStackThunkBytes.toNat + kOtaClientsBytes.toNat

/-- The floors of a peer that does not honour MFLN are the gate, less what the clients take. -/
theorem affordable_iff {c : Call} (not_worthwhile : c.mflnProbeWorthwhile = false) :
    Affordable c ↔
      (sessionGate false c.smallReply).freeTotal.toNat ≤ c.heap.freeTotal.toNat + takenByTheClients ∧
      (sessionGate false c.smallReply).block.toNat ≤ c.heap.maxBlock.toNat + takenByTheClients := by
  have taken : (kBearsslStackThunkBytes + kOtaClientsBytes).toNat = takenByTheClients := by decide
  rw [Affordable, sessionPlan, planTls, not_worthwhile, tlsFloorsAtBegin]
  simp only [heapGatePass, Bool.false_eq_true, if_false, Bool.and_eq_true, decide_eq_true_eq, ge_iff_le,
    floored_sub_le_iff, taken]

theorem heapGatePass_iff {g : HeapSample} {gate : TlsFloors} :
    heapGatePass g.freeTotal g.maxBlock gate.freeTotal gate.block = true ↔
      gate.freeTotal.toNat ≤ g.freeTotal.toNat ∧ gate.block.toNat ≤ g.maxBlock.toNat := by
  simp only [heapGatePass, Bool.and_eq_true, decide_eq_true_eq, ge_iff_le, UInt32.le_iff_toNat_le]

/-- The gate a caller asks before its clients exist, and the floors behind them, agree: a heap
that passed, and lost no more than the clients may take, is not refused; and one that did
not, and lost no less, opens no session to a peer that does not honour MFLN. -/
theorem gate_carries_over (events : List Event) (c : Call) (g : HeapSample) (gate : TlsFloors)
    (same : gate = sessionGate c.mflnProbeWorthwhile c.smallReply) :
    (heapGatePass g.freeTotal g.maxBlock gate.freeTotal gate.block = true →
      g.freeTotal.toNat ≤ c.heap.freeTotal.toNat + takenByTheClients →
      g.maxBlock.toNat ≤ c.heap.maxBlock.toNat + takenByTheClients →
      (after (events ++ [.call c])).1.lastRefusalHeap = false) ∧
    (heapGatePass g.freeTotal g.maxBlock gate.freeTotal gate.block = false →
      c.mflnProbeWorthwhile = false →
      c.heap.freeTotal.toNat + takenByTheClients ≤ g.freeTotal.toNat →
      c.heap.maxBlock.toNat + takenByTheClients ≤ g.maxBlock.toNat →
      ∀ session, .opened session ∉ (step (after events).1 (.call c)).2) := by
  constructor
  · intro passed free block
    rw [heapGatePass_iff, same] at passed
    by_contra refused
    have refused : (after (events ++ [.call c])).1.lastRefusalHeap = true := by simpa using refused
    rw [after_concat] at refused
    obtain ⟨-, -, -, not_worthwhile, short⟩ := (after_reached events).heap_iff.mp refused
    rw [affordable_iff not_worthwhile] at short
    rw [not_worthwhile] at passed
    exact short ⟨by omega, by omega⟩
  · intro failed not_worthwhile free block session opened
    obtain ⟨url, host, rx, -, -, fits, -⟩ := (session_opens_iff events c session).mp opened
    have enough : Affordable c := by
      by_contra short
      exact fits.not_refused ⟨not_worthwhile, short⟩
    rw [affordable_iff not_worthwhile] at enough
    rw [same, not_worthwhile] at failed
    have passed := heapGatePass_iff.mpr ⟨Nat.le_trans enough.1 free, Nat.le_trans enough.2 block⟩
    rw [failed] at passed
    cases passed

theorem gate_carries_over_manifest :
    (after ([] ++ [.call (callOf (text "https://github.com/m.json") false ⟨23256, 23088⟩)])).1.lastRefusalHeap =
      false :=
  (gate_carries_over [] (callOf (text "https://github.com/m.json") false ⟨23256, 23088⟩) ⟨29976, 29808⟩
    ⟨29976, 29808⟩ rfl).1 (by decide) (by decide) (by decide)

/-! ## The clock is started once in ten minutes -/

/-- When an event may start SNTP. -/
def Event.kick : Event → Option Kick
  | .call c => some c.kick
  | .release => none
  | .startDelay k => some k

/-- The events read the counter in the order of time. -/
structure Timely (events : List Event) : Prop where
  ordered : (events.filterMap Event.kick).Pairwise fun k later => k.done ≤ later.time
  each : ∀ k ∈ events.filterMap Event.kick, k.time ≤ k.done

theorem kick_starts (s : TlsState) (k : Kick) :
    starts (kickSntpIfNeeded s k).2 = [] ∨ starts (kickSntpIfNeeded s k).2 = [k.done] ∧
      ntpRestartDue s.ntpKicked (counter k.time) s.ntpKickedMs kNtpRestartIntervalMs = true := by
  rw [kickSntpIfNeeded]
  split
  · exact .inl rfl
  · split
    · exact .inl rfl
    · next due => exact .inr ⟨rfl, by simpa using due⟩

theorem openSession_starts (s : TlsState) (c : Call) (url host : Text) :
    starts (openSession s c url host).2 = [] := by
  have ends : ∀ rx, starts [begin s c url rx] = [] := fun rx => by
    rw [begin]
    split <;> rfl
  rw [openSession]
  split
  · rfl
  · exact ends 512
  · exact ends 16384
  · exact ends 8192
  · rw [starts_append, ends, List.append_nil]
    split <;> rfl

/-- A call starts SNTP as `kickSntpIfNeeded` does, or not at all. -/
theorem begin_starts (s : TlsState) (c : Call) :
    starts (beginHttpsUrl s c).2 = [] ∨
      starts (beginHttpsUrl s c).2 =
        starts (kickSntpIfNeeded { s with lastRefusalHeap := false } c.kick).2 := by
  rw [beginHttpsUrl]
  split
  · exact .inl rfl
  · split
    · exact .inl rfl
    · simp only
      split
      · exact .inl rfl
      · split
        · exact .inr (by rw [starts_append]; simp [starts])
        · split
          · exact .inl rfl
          · exact .inl (openSession_starts _ _ _ _)

/-- What an event starts, it starts at its time, and only when a start is due. -/
theorem step_starts (s : TlsState) (event : Event) :
    starts (step s event).2 = [] ∨ ∃ k ∈ event.kick, starts (step s event).2 = [k.done] ∧
      ntpRestartDue s.ntpKicked (counter k.time) s.ntpKickedMs kNtpRestartIntervalMs = true := by
  cases event with
  | call c =>
      rw [step]
      rcases begin_starts s c with none_started | same
      · exact .inl none_started
      · rw [same]
        exact (kick_starts _ c.kick).imp_right fun started => ⟨c.kick, rfl, started⟩
  | release => exact .inl rfl
  | startDelay k => exact (kick_starts s k).imp_right fun started => ⟨k, rfl, started⟩

theorem starts_kicks (events : List Event) :
    ∀ time ∈ starts (after events).2, ∃ k ∈ events.filterMap Event.kick, k.done = time := by
  induction events using List.reverseRecOn with
  | nil => nofun
  | append_singleton events event ih =>
      intro time member
      rw [after_concat, advance, starts_append, List.mem_append] at member
      rw [List.filterMap_append]
      rcases member with earlier | now
      · obtain ⟨k, kicked, same⟩ := ih time earlier
        exact ⟨k, List.mem_append_left _ kicked, same⟩
      · rcases step_starts (after events).1 event with none_started | ⟨k, own, started, -⟩
        · rw [none_started] at now
          cases now
        · rw [started, List.mem_singleton] at now
          refine ⟨k, List.mem_append_right _ ?_, now.symm⟩
          rw [Option.mem_def] at own
          simp [own]

/-- The starts lie at least the interval apart. -/
def Apart (trace : List Note) : Prop :=
  (starts trace).Pairwise fun start later => start + kNtpRestartIntervalMs.toNat ≤ later

/-- A time that is the interval behind the last start is so behind all of them. -/
theorem Apart.all {trace : List Note} (apart : Apart trace) {time : Nat}
    (behind : ∀ start ∈ (starts trace).getLast?, start + kNtpRestartIntervalMs.toNat ≤ time) :
    ∀ start ∈ starts trace, start + kNtpRestartIntervalMs.toNat ≤ time := by
  rw [Apart] at apart
  rcases List.eq_nil_or_concat (starts trace) with none_yet | ⟨earlier, last, split⟩
  · rw [none_yet]
    nofun
  · rw [List.concat_eq_append] at split
    have final := behind last (by rw [split]; simp)
    rw [split] at apart ⊢
    intro start member
    rcases List.mem_append.mp member with before | one
    · have := (List.pairwise_append.mp apart).2.2 start before last (by simp)
      omega
    · rw [List.mem_singleton.mp one]
      exact final

section

variable {s : TlsState} {trace : List Note} {time : Nat}

theorem Reached.restart_iff (reached : Reached s trace) :
    ntpRestartDue s.ntpKicked (counter time) s.ntpKickedMs kNtpRestartIntervalMs = true ↔
      ∀ start ∈ (starts trace).getLast?, kNtpRestartIntervalMs ≤ counter time - counter start := by
  have stamp := reached.stamp
  rw [ntpRestartDue, reached.kicked]
  cases last : (starts trace).getLast? with
  | none =>
      rw [List.getLast?_eq_none_iff] at last
      simp [last]
  | some start =>
      have some_started : (starts trace).isEmpty = false := by
        rw [List.isEmpty_eq_false_iff]
        rintro none_started
        rw [none_started] at last
        cases last
      simp [some_started, stamp start last]

theorem Reached.apart_of_due (reached : Reached s trace) (apart : Apart trace)
    (past : ∀ start ∈ starts trace, start ≤ time)
    (due : ntpRestartDue s.ntpKicked (counter time) s.ntpKickedMs kNtpRestartIntervalMs = true) :
    ∀ start ∈ starts trace, start + kNtpRestartIntervalMs.toNat ≤ time :=
  apart.all fun start last =>
    passed_of_elapsed (past start (List.mem_of_getLast? last)) (reached.restart_iff.mp due start last)

theorem Reached.due_iff (reached : Reached s trace) (apart : Apart trace)
    (past : ∀ start ∈ starts trace, start ≤ time)
    (recent : ∀ start ∈ (starts trace).getLast?, time < start + 2 ^ 32) :
    ntpRestartDue s.ntpKicked (counter time) s.ntpKickedMs kNtpRestartIntervalMs = true ↔
      ∀ start ∈ starts trace, start + kNtpRestartIntervalMs.toNat ≤ time := by
  refine ⟨reached.apart_of_due apart past, fun all => reached.restart_iff.mpr fun start last => ?_⟩
  have member := List.mem_of_getLast? last
  exact (elapsed_iff (past start member) (recent start last)).mpr (all start member)

end

theorem after_apart {events : List Event} (timely : Timely events) : Apart (after events).2 := by
  induction events using List.reverseRecOn with
  | nil => exact List.Pairwise.nil
  | append_singleton events event ih =>
      obtain ⟨ordered, each⟩ := timely
      rw [List.filterMap_append] at ordered each
      have apart := ih ⟨(List.pairwise_append.mp ordered).1, fun k member =>
        each k (List.mem_append_left _ member)⟩
      rw [after_concat, advance, Apart, starts_append]
      rcases step_starts (after events).1 event with none_started | ⟨k, own, started, due⟩
      · rwa [none_started, List.append_nil]
      · have kicked : k ∈ [event].filterMap Event.kick := by
          rw [Option.mem_def] at own
          simp [own]
        have order := each k (List.mem_append_right _ kicked)
        have past : ∀ start ∈ starts (after events).2, start ≤ k.time := fun start member => by
          obtain ⟨x, earlier, rfl⟩ := starts_kicks events start member
          exact (List.pairwise_append.mp ordered).2.2 x earlier k kicked
        have behind := (after_reached events).apart_of_due apart past due
        rw [started]
        refine List.pairwise_append.mpr ⟨apart, List.pairwise_singleton _ _, fun start member x one => ?_⟩
        rw [List.mem_singleton.mp one]
        exact Nat.le_trans (behind start member) order

/-- SNTP is never started twice within ten minutes, whatever the counter does; and, once asked with
the clock unset, it is started unless it was in the last ten minutes. -/
theorem sntp_paced {events : List Event} (timely : Timely events) :
    (starts (after events).2).Pairwise (fun start later => start + kNtpRestartIntervalMs.toNat ≤ later) ∧
      ∀ k : Kick, k.now < kMinSaneEpoch → (∀ x ∈ events.filterMap Event.kick, x.done ≤ k.time) →
        (∀ start ∈ (starts (after events).2).getLast?, k.time < start + 2 ^ 32) →
        (.sntpStarted k.done ∈ (step (after events).1 (.startDelay k)).2 ↔
          ∀ start ∈ starts (after events).2, start + kNtpRestartIntervalMs.toNat ≤ k.time) := by
  refine ⟨after_apart timely, fun k unset later recent => ?_⟩
  have past : ∀ start ∈ starts (after events).2, start ≤ k.time := fun start member => by
    obtain ⟨x, earlier, rfl⟩ := starts_kicks events start member
    exact later x earlier
  rw [← (after_reached events).due_iff (after_apart timely) past recent, step, kickSntpIfNeeded,
    tlsClockSane, if_neg (by simpa using unset)]
  split
  · next not_due => exact iff_of_false nofun (by simpa using not_due)
  · next due => exact iff_of_true (by simp) (by simpa using due)

theorem sntp_paced_wrap :
    (starts (after [.startDelay ⟨0, 4294967000, 4294967001⟩, .startDelay ⟨0, 4295267000, 4295267001⟩]).2).Pairwise
      fun start later => start + kNtpRestartIntervalMs.toNat ≤ later :=
  (sntp_paced ⟨by decide, by decide⟩).1

/-! ## Hosts are asked again only when they were forgotten -/

/-- A host is asked only while it is not known. -/
def AskedUnknown (before : List Note) : Note → Prop
  | .probed host _ => ¬ Known before host
  | _ => True

theorem asks_free {notes : List Note} (quiet : ∀ note ∈ notes, ∀ host honours, note ≠ .probed host honours)
    (before : List Note) : OrderedFrom AskedUnknown before notes := by
  refine orderedFrom_free fun note member front => ?_
  cases note with
  | probed host honours => exact absurd rfl (quiet _ member host honours)
  | sntpStarted | refused | opened => trivial

theorem begin_asks (s : TlsState) (c : Call) (url : Text) (rx : UInt16) (before : List Note) :
    OrderedFrom AskedUnknown before [begin s c url rx] := by
  refine asks_free (fun note member host honours same => ?_) before
  have outcome := begin_isOutcome s c url rx
  rw [← List.mem_singleton.mp member, same] at outcome
  cases outcome

theorem Reached.openSession_asks {s : TlsState} {trace : List Note} (reached : Reached s trace) {c : Call}
    {url host : Text} (some_host : host ≠ []) :
    OrderedFrom AskedUnknown trace (Tls.openSession s c url host).2 := by
  rw [Tls.openSession]
  split
  · exact asks_free (by simp) _
  · exact begin_asks _ _ _ _ _
  · exact begin_asks _ _ _ _ _
  · exact begin_asks _ _ _ _ _
  · refine orderedFrom_append.mpr ⟨?_, begin_asks _ _ _ _ _⟩
    split
    · next asked => exact ⟨(reached.ask some_host c.honours).2.2.mp asked, trivial⟩
    · trivial

theorem Reached.call_asks {s : TlsState} {trace : List Note} (reached : Reached s trace) (c : Call) :
    OrderedFrom AskedUnknown trace (beginHttpsUrl s c).2 := by
  by_cases unready : ∀ url host, ¬ Ready s c url host
  · obtain ⟨front, why, notes, -, started, -⟩ := begin_not_ready reached.anchors unready
    rw [notes]
    refine asks_free (fun note member host honours same => ?_) trace
    rw [same, List.mem_append] at member
    rcases member with earlier | last
    · obtain ⟨time, other⟩ := started _ earlier
      cases other
    · cases List.mem_singleton.mp last
  · simp only [not_forall, not_not] at unready
    obtain ⟨url, host, ready⟩ := unready
    obtain ⟨s', kept, -, -, same⟩ := begin_ready reached ready
    rw [same]
    exact kept.openSession_asks ready.some_host

theorem after_asks (events : List Event) : Ordered AskedUnknown (after events).2 := by
  induction events using List.reverseRecOn with
  | nil => trivial
  | append_singleton events event ih =>
      rw [after_concat, advance]
      refine ordered_append.mpr ⟨ih, ?_⟩
      cases event with
      | call c => exact (after_reached events).call_asks c
      | release => trivial
      | startDelay k =>
          refine asks_free (fun note member host honours same => ?_) _
          obtain ⟨time, rfl⟩ := (kick_notes _ k).1 note member
          cases same

/-- Of hosts that are asked only while they are not known, the last few differ. -/
theorem recent_honoured_nodup {trace : List Note} (asks : Ordered AskedUnknown trace) :
    (Ring.recent 4 (honoured trace)).Nodup := by
  induction trace using List.reverseRecOn with
  | nil => exact List.nodup_nil
  | append_singleton trace note ih =>
      obtain ⟨before, last, -⟩ := ordered_append.mp asks
      rw [honoured_append]
      cases note with
      | probed host honours =>
          cases honours with
          | true => exact Ring.recent_nodup (ih before) last
          | false => simpa [honoured] using ih before
      | sntpStarted | refused | opened => simpa [honoured] using ih before

/-- Once a host has said that it honours MFLN, it is not asked again before four other hosts, all
different, have said so too. -/
theorem asked_again_after_four (events : List Event) :
    ∀ front host between again answer back,
      (after events).2 = front ++ .probed host true :: between ++ .probed again answer :: back →
      hostHash again = hostHash host →
      ∃ others : List Text, (others.map hostHash).Nodup ∧ others.length = 4 ∧
        ∀ other ∈ others, hostHash other ≠ hostHash host ∧ .probed other true ∈ between := by
  intro front host between again answer back split same
  have asks := after_asks events
  rw [split] at asks
  have unknown : AskedUnknown (front ++ .probed host true :: between) (.probed again answer) :=
    (orderedFrom_iff.mp asks) _ _ back rfl
  have before := (ordered_append.mp asks).1
  have distinct := recent_honoured_nodup before
  have parts : honoured (front ++ .probed host true :: between) =
      honoured front ++ hostHash host :: honoured between := by
    rw [honoured_append]
    rfl
  rw [AskedUnknown, Known, same, parts] at unknown
  rw [parts] at distinct
  obtain ⟨inside, four⟩ := Ring.recent_behind unknown
  have each : ∀ hash ∈ Ring.recent 4 (honoured front ++ hostHash host :: honoured between),
      ∃ other, .probed other true ∈ between ∧ hostHash other = hash :=
    fun hash member => mem_honoured_iff.mp (inside.subset member)
  choose! name asked hashed using each
  have hashes : (Ring.recent 4 (honoured front ++ hostHash host :: honoured between)).map
      (hostHash ∘ name) = Ring.recent 4 (honoured front ++ hostHash host :: honoured between) :=
    (List.map_congr_left (g := id) fun hash member => hashed hash member).trans (List.map_id _)
  refine ⟨_, by rw [List.map_map, hashes]; exact distinct, by rw [List.length_map, four], ?_⟩
  intro other member
  obtain ⟨hash, found, rfl⟩ := List.mem_map.mp member
  refine ⟨fun equal => ?_, asked hash found⟩
  rw [hashed hash found] at equal
  exact unknown (equal ▸ found)

/-- Five hosts on a roomy heap, and the first of them again. -/
def sixCalls : List Event :=
  [text "a", text "b", text "c", text "d", text "e", text "a"].map fun label =>
    .call (callOf (text "https://" ++ label ++ text ".githubusercontent.com/x") true ⟨60000, 50000⟩)

theorem asked_again_after_four_first :
    ∃ others : List Text, (others.map hostHash).Nodup ∧ others.length = 4 ∧
      ∀ other ∈ others, hostHash other ≠ hostHash (text "a.githubusercontent.com") ∧
        .probed other true ∈ ((after sixCalls).2.drop 1).take 9 :=
  asked_again_after_four sixCalls [] (text "a.githubusercontent.com") _
    (text "a.githubusercontent.com") true ((after sixCalls).2.drop 11) (by decide +kernel) rfl

end FryFirmware.Ota.Tls
