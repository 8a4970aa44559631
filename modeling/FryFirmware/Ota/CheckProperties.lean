import FryFirmware.Ota.Check
import FryFirmware.Ota.RedirectProperties
import FryFirmware.Ota.SettleProperties
import FryFirmware.Ota.TlsSessionProperties

/-!
# What a check does and reports

The loop that follows redirects, with its sessions, refines the one that only decides
which to follow. A check ends with the first call that is refused, and it asks for a
short retry on account of the heap exactly when the heap refused something.
-/

set_option autoImplicit false

namespace FryFirmware.Ota.Tls

open Lib Lib.OrderedTrace
open Config (Text text)
open Manifest (ManifestRead)

/-! ## One call -/

/-- A call ends with one outcome, and the flag of the helper says whether it was the heap. -/
theorem Reached.call_shape {s : TlsState} {trace : List Note} (reached : Reached s trace) (c : Call) :
    ∃ front last, (beginHttpsUrl s c).2 = front ++ [last] ∧
      (∀ note ∈ front, note.isOutcome = false) ∧ last.isOutcome = true ∧
      ((beginHttpsUrl s c).1.lastRefusalHeap = true ↔ last = .refused .heap) := by
  by_cases unready : ∀ url host, ¬ Ready s c url host
  · obtain ⟨front, why, notes, other, started, flag⟩ := begin_not_ready reached.anchors unready
    exact ⟨front, _, notes, started_quiet started, rfl, by simp [flag, other]⟩
  · simp only [not_forall, not_not] at unready
    obtain ⟨url, host, ready⟩ := unready
    obtain ⟨s', -, -, flag, same⟩ := begin_ready reached ready
    rw [same]
    rcases openSession_cases s' c url host with ⟨-, ends⟩ | ⟨s'', front, rx, -, ends, quiet, kept⟩
    · exact ⟨[], _, by rw [ends]; rfl, nofun, rfl, by simp [ends]⟩
    · refine ⟨front, _, by rw [ends], quiet, begin_isOutcome _ _ _ _, ?_⟩
      rw [ends, begin]
      split <;> simp [kept, flag]

/-- The sessions that were opened, in order. -/
def sessionsOf (trace : List Note) : List Session :=
  trace.filterMap fun
    | .opened session => some session
    | _ => none

theorem sessionsOf_append (front back : List Note) :
    sessionsOf (front ++ back) = sessionsOf front ++ sessionsOf back :=
  List.filterMap_append

theorem outcomes_append (front back : List Note) :
    outcomes (front ++ back) = outcomes front ++ outcomes back :=
  List.filter_append ..

section

variable {notes : List Note}

theorem sessionsOf_quiet (quiet : ∀ note ∈ notes, note.isOutcome = false) : sessionsOf notes = [] := by
  rw [sessionsOf, List.filterMap_eq_nil_iff]
  intro note member
  have other := quiet note member
  cases note with
  | opened session => cases other
  | sntpStarted | probed | refused => rfl

theorem outcomes_quiet (quiet : ∀ note ∈ notes, note.isOutcome = false) : outcomes notes = [] :=
  List.filter_eq_nil_iff.mpr fun note member => by simp [quiet note member]

theorem opens_quiet (quiet : ∀ note ∈ notes, note.isOutcome = false) : notes.any Note.isOpened = false := by
  rw [List.any_eq_false]
  intro note member opened
  have other := quiet note member
  cases note with
  | opened session => cases other
  | sntpStarted | probed | refused => cases opened

end

/-! ## A check as a run of the helper -/

/-- What the check did is what the helper does at some events behind these. -/
def Ran (events : List Event) (s : CheckState) : Prop :=
  ∃ more, after (events ++ more) = (s.tls, (after events).2 ++ s.done)

/-- The outcomes of a check that may go on: sessions only, and no flag. -/
structure Clean (s : CheckState) : Prop where
  flag : s.heapRefused = false
  opened : ∀ note ∈ outcomes s.done, note.isOpened = true

/-- A check that is over: only its last call may have been refused, and the flag says whether that
was the heap. -/
structure Over (s : CheckState) : Prop where
  flag : s.heapRefused = true ↔ (outcomes s.done).getLast? = some (.refused .heap)
  opened : ∀ note ∈ (outcomes s.done).dropLast, note.isOpened = true

theorem Clean.ended {s : CheckState} (clean : Clean s) : Over s where
  flag := by
    rw [clean.flag]
    refine iff_of_false nofun fun last => ?_
    have opened := clean.opened _ (List.mem_of_getLast? last)
    cases opened
  opened note member := clean.opened note ((List.dropLast_sublist _).subset member)

section

variable {events : List Event} {s : CheckState} {c : Call}

theorem Ran.reached (ran : Ran events s) : Reached s.tls ((after events).2 ++ s.done) := by
  obtain ⟨more, same⟩ := ran
  have reached := after_reached (events ++ more)
  rwa [same] at reached

theorem ran_start (events : List Event) : Ran events { tls := (after events).1 } :=
  ⟨[], by rw [List.append_nil, List.append_nil]⟩

theorem Ran.step (ran : Ran events s) (event : Event) (flag : Bool) :
    Ran events { tls := (step s.tls event).1, done := s.done ++ (step s.tls event).2, heapRefused := flag } := by
  obtain ⟨more, same⟩ := ran
  refine ⟨more ++ [event], ?_⟩
  rw [← List.append_assoc, after_concat, advance, same, List.append_assoc]

theorem Ran.beginHttps (ran : Ran events s) (c : Call) : Ran events (s.beginHttps c).1 :=
  ran.step (.call c) _

theorem Ran.noteRefusal (ran : Ran events s) : Ran events s.noteRefusal := ran

theorem Ran.release (ran : Ran events s) : Ran events { s with tls := releaseTrustAnchors s.tls } := by
  have released := ran.step .release s.heapRefused
  rwa [Tls.step, List.append_nil] at released

/-- A call that returns true leaves a check that may go on; one that returns false ends it. -/
theorem beginHttps_spec (ran : Ran events s) (clean : Clean s) (c : Call) :
    ((s.beginHttps c).2 = true → Clean (s.beginHttps c).1 ∧
      ∃ session, .opened session ∈ (beginHttpsUrl s.tls c).2 ∧
        sessionsOf (s.beginHttps c).1.done = sessionsOf s.done ++ [session]) ∧
      ((s.beginHttps c).2 = false → Over (s.beginHttps c).1.noteRefusal ∧
        sessionsOf (s.beginHttps c).1.done = sessionsOf s.done) := by
  obtain ⟨front, last, notes, quiet, outcome, flag⟩ := ran.reached.call_shape c
  have added : outcomes (s.done ++ (beginHttpsUrl s.tls c).2) = outcomes s.done ++ [last] := by
    have ends : outcomes [last] = [last] := List.filter_cons_of_pos outcome
    rw [notes, outcomes_append, outcomes_append, outcomes_quiet quiet, ends, List.nil_append]
  have opens : (s.beginHttps c).2 = last.isOpened := by
    simp only [CheckState.beginHttps, notes, List.any_append, opens_quiet quiet, List.any_cons,
      List.any_nil, Bool.or_false, Bool.false_or]
  have sessions : sessionsOf (s.done ++ (beginHttpsUrl s.tls c).2) = sessionsOf s.done ++ sessionsOf [last] := by
    rw [notes, sessionsOf_append, sessionsOf_append, sessionsOf_quiet quiet, List.nil_append]
  rw [opens]
  constructor
  · intro opened
    refine ⟨⟨clean.flag, fun note member => ?_⟩, ?_⟩
    · simp only [CheckState.beginHttps, added] at member
      rcases List.mem_append.mp member with earlier | one
      · exact clean.opened note earlier
      · rw [List.mem_singleton.mp one]
        exact opened
    · cases last with
      | opened session => exact ⟨session, by simp [notes], sessions⟩
      | sntpStarted | probed | refused => cases opened
  · intro refused
    refine ⟨⟨?_, ?_⟩, ?_⟩
    · simp only [CheckState.noteRefusal, CheckState.beginHttps, added, clean.flag, Bool.false_or,
        List.getLast?_concat, Option.some.injEq]
      exact flag
    · simp only [CheckState.noteRefusal, CheckState.beginHttps, added, List.dropLast_concat]
      exact clean.opened
    · cases last with
      | opened session => cases refused
      | sntpStarted | probed | refused => exact sessions.trans (List.append_nil _)

end

/-! ## The loop of redirects -/

/-- The loop looks at the answers of its own requests only. -/
theorem followHops_congr {answers answers' : Nat → Answer} {fuel n : Nat} {hops : UInt8}
    (same : ∀ j, n ≤ j → answers j = answers' j) :
    Ota.followHops answers fuel n hops = Ota.followHops answers' fuel n hops := by
  induction fuel generalizing n hops with
  | zero => rfl
  | succ fuel ih =>
      rw [Ota.followHops, Ota.followHops, same n (Nat.le_refl n),
        ih fun j later => same j (Nat.le_of_succ_le later)]

/-- The answers as the loop that only decides has them. -/
def plainAnswers (answers : Nat → Hop) (ready : Nat → Bool) (n : Nat) : Answer :=
  { code := (answers n).code, location := (answers n).location, ready := ready n }

/-- The session for a Location: the anchors of its host, and no buffer of 512 bytes. -/
def hopSession (manifest : Bool) (hop : Hop) : Session :=
  { url := hop.location, anchors := (extractHost hop.location 64).map trustSetForHost,
    x509Time := hop.moment.now, rx := if manifest then 8192 else 16384, tx := 512 }

/-- A Location that was followed names a host with anchors. -/
def FollowedTo (hop : Hop) : Prop :=
  ∃ hops host, decideRedirect hop.code hops (some hop.location) = .Follow ∧
    extractHost hop.location 64 = some host ∧ trustSetForHost host ≠ .None

/-- What a run of the loop from request `n` leaves. -/
structure Followed (manifest : Bool) (answers : Nat → Hop) (events : List Event) (n : Nat)
    (s s' : CheckState) (code : Int) (requests : Nat) : Prop where
  ran : Ran events s'
  ended : Clean s' ∨ Over s' ∧ code = -1
  later : n < requests
  sessions : sessionsOf s'.done =
    sessionsOf s.done ++ (List.range' n (requests - 1 - n)).map fun j => hopSession manifest (answers j)
  followed : ∀ j, n ≤ j → j + 1 < requests → FollowedTo (answers j)

section

variable {manifest : Bool} {answers : Nat → Hop} {events : List Event} {s : CheckState}

/-- A session that a hop opens is the one for its Location. -/
theorem hop_session (ran : Ran events s) {hop : Hop} {session : Session}
    (opened : .opened session ∈ (beginHttpsUrl s.tls (hop.moment.call hop.location false manifest)).2) :
    session = hopSession manifest hop ∧
      ∃ host, extractHost hop.location 64 = some host ∧ trustSetForHost host ≠ .None := by
  obtain ⟨url, host, rx, ready, -, fits, rfl⟩ := (ran.reached.opened_iff session).mp opened
  obtain rfl : hop.location = url := Option.some.inj ready.named
  refine ⟨?_, host, ready.extracted, ready.trusted⟩
  have sized : rx = if manifest then 8192 else 16384 := by
    have small : rx ≠ 512 := fun small => by
      have worthwhile := (fits.small.mp small).1
      cases worthwhile
    cases manifest with
    | true => exact fits.medium.mpr ⟨rfl, rfl⟩
    | false =>
        have large : rx ≠ 8192 := fun medium => by
          have reply := (fits.medium.mp medium).2
          cases reply
        exact (fits.large.resolve_left small).resolve_left large
  rw [sized, hopSession, ready.extracted]
  rfl

theorem beginNextHop_eq (s : CheckState) {hop : Hop} (short : hop.location.length ≤ kHopLocationMax) :
    beginNextHop s hop manifest =
      if (s.beginHttps (hop.moment.call hop.location false manifest)).2 then
        ((s.beginHttps (hop.moment.call hop.location false manifest)).1, true)
      else ((s.beginHttps (hop.moment.call hop.location false manifest)).1.noteRefusal, false) := by
  rw [beginNextHop, if_neg (Nat.not_lt.mpr short)]

/-- The next hop begins as it does for the loop that only decides. -/
theorem beginNextHop_spec (ran : Ran events s) (clean : Clean s) (hop : Hop) :
    Ota.beginNextHop hop.location (beginNextHop s hop manifest).2 = (beginNextHop s hop manifest).2 ∧
      Ran events (beginNextHop s hop manifest).1 ∧
      ((beginNextHop s hop manifest).2 = true → Clean (beginNextHop s hop manifest).1 ∧
        sessionsOf (beginNextHop s hop manifest).1.done =
          sessionsOf s.done ++ [hopSession manifest hop] ∧
        ∃ host, extractHost hop.location 64 = some host ∧ trustSetForHost host ≠ .None) ∧
      ((beginNextHop s hop manifest).2 = false → Over (beginNextHop s hop manifest).1 ∧
        sessionsOf (beginNextHop s hop manifest).1.done = sessionsOf s.done) := by
  by_cases short : hop.location.length ≤ kHopLocationMax
  · have next := ran.beginHttps (hop.moment.call hop.location false manifest)
    obtain ⟨goes_on, ends⟩ := beginHttps_spec ran clean (hop.moment.call hop.location false manifest)
    rw [beginNextHop_eq s short, Ota.beginNextHop, if_neg (Nat.not_lt.mpr short)]
    cases begun : (s.beginHttps (hop.moment.call hop.location false manifest)).2 with
    | true =>
        obtain ⟨clean', session, opened, sessions⟩ := goes_on begun
        obtain ⟨rfl, host, extracted, trusted⟩ := hop_session ran opened
        rw [if_pos rfl]
        refine ⟨?_, next, fun _ => ⟨clean', sessions, host, extracted, trusted⟩,
          fun refused => absurd refused.symm Bool.false_ne_true⟩
        simp only [Ota.beginHttpsUrl, extracted, if_neg trusted]
    | false =>
        rw [if_neg Bool.false_ne_true]
        refine ⟨?_, next, fun goes => absurd goes Bool.false_ne_true, fun _ => ends begun⟩
        rw [Ota.beginHttpsUrl]
        split <;> simp
  · rw [beginNextHop, Ota.beginNextHop, if_pos (Nat.not_le.mp short), if_pos (Nat.not_le.mp short)]
    exact ⟨rfl, ran, fun goes => absurd goes Bool.false_ne_true, fun _ => ⟨clean.ended, rfl⟩⟩

theorem followHops_refines (ran : Ran events s) (clean : Clean s) (fuel n : Nat) (hops : UInt8) :
    ∃ ready : Nat → Bool,
      (followHops manifest answers fuel n hops s).map (fun run => (run.2.1, run.2.2)) =
        Ota.followHops (plainAnswers answers ready) fuel n hops ∧
      ∀ s' code requests, followHops manifest answers fuel n hops s = some (s', code, requests) →
        Followed manifest answers events n s s' code requests := by
  induction fuel generalizing n hops s with
  | zero => exact ⟨fun _ => false, rfl, nofun⟩
  | succ fuel ih =>
      simp only [followHops, Ota.followHops, plainAnswers]
      -- a loop that ends at its first answer
      have stops : ∀ s' code, Ran events s' → (Clean s' ∨ Over s' ∧ code = -1) →
          sessionsOf s'.done = sessionsOf s.done →
          Followed manifest answers events n s s' code (n + 1) := by
        intro s' code ran' ended same
        refine ⟨ran', ended, Nat.lt_succ_self n, ?_, fun j late soon => by omega⟩
        rw [same, Nat.add_sub_cancel, Nat.sub_self]
        exact (List.append_nil _).symm
      cases decision : decideRedirect (answers n).code hops (some (answers n).location) with
      | NotRedirect =>
          refine ⟨fun _ => false, rfl, ?_⟩
          rintro s' code requests ⟨⟩
          exact stops s _ ran (.inl clean) rfl
      | Follow =>
          obtain ⟨same, next, goes_on, ends⟩ := @beginNextHop_spec manifest _ _ ran clean (answers n)
          cases begun : (beginNextHop s (answers n) manifest).2 with
          | true =>
              obtain ⟨clean', one, host, extracted, trusted⟩ := goes_on begun
              obtain ⟨ready, refines, followed⟩ := ih next clean' (n + 1) (hops + 1)
              refine ⟨fun j => if j = n then true else ready j, ?_, ?_⟩
              · rw [begun] at same
                simp only [if_true, same]
                rw [refines]
                refine followHops_congr fun j later => ?_
                simp only [plainAnswers, if_neg (Nat.ne_of_gt later)]
              · intro s' code requests run
                simp only [if_true] at run
                obtain ⟨ran', ended, later, sessions, rest⟩ := followed s' code requests run
                refine ⟨ran', ended, Nat.lt_of_succ_lt later, ?_, fun j late soon => ?_⟩
                · have length : requests - 1 - n = requests - 1 - (n + 1) + 1 := by omega
                  rw [sessions, one, length, List.range'_succ, List.map_cons, List.append_assoc]
                  rfl
                · rcases Nat.eq_or_lt_of_le late with rfl | behind
                  · exact ⟨hops, host, decision, extracted, trusted⟩
                  · exact rest j behind soon
          | false =>
              obtain ⟨ended, none_more⟩ := ends begun
              rw [begun] at same
              refine ⟨fun _ => false, by simp only [same, Bool.false_eq_true, if_false, Option.map], ?_⟩
              simp only [Bool.false_eq_true, if_false]
              rintro s' code requests ⟨⟩
              exact stops _ _ next (.inr ⟨ended, rfl⟩) none_more
      | TooMany | NoLocation | NotHttps | UnknownHost =>
          refine ⟨fun _ => false, rfl, ?_⟩
          rintro s' code requests ⟨⟩
          exact stops s _ ran (.inl clean) rfl

theorem getFollowingHops_spec (ran : Ran events s) (clean : Clean s) (isHttps : Bool) :
    ∃ s' code requests ready, getFollowingHops isHttps manifest answers s = some (s', code, requests) ∧
      Ota.getFollowingHops isHttps (plainAnswers answers ready) hopRequests = some (code, requests) ∧
      requests ≤ hopRequests ∧ Followed manifest answers events 0 s s' code requests := by
  cases isHttps with
  | false =>
      refine ⟨s, _, 1, fun _ => false, rfl, rfl, by decide, ran, .inl clean, Nat.zero_lt_one, ?_, nofun⟩
      exact (List.append_nil _).symm
  | true =>
      obtain ⟨ready, refines, followed⟩ := followHops_refines ran clean hopRequests 0 0
      obtain ⟨code, requests, ends, few⟩ :=
        followHops_bounded (plainAnswers answers ready) hopRequests 0 0 rfl (by decide) (by decide)
      rw [ends] at refines
      obtain ⟨⟨s', code', requests'⟩, run, same⟩ := Option.map_eq_some_iff.mp refines
      cases same
      exact ⟨s', code', requests', ready, run, ends, few, followed s' code' requests' run⟩

end

/-- Redirects are followed over sessions of their own: whatever the state of the helper is, request
`j + 1` of a run goes over the session for the Location of answer `j`, there are five of these at most,
and the run ends as the loop that only decides does. -/
theorem hops_on_sessions (manifest : Bool) (answers : Nat → Hop) (events : List Event) :
    ∃ s' code requests ready,
      getFollowingHops true manifest answers { tls := (after events).1 } = some (s', code, requests) ∧
      Ota.getFollowingHops true (plainAnswers answers ready) hopRequests = some (code, requests) ∧
      0 < requests ∧ requests ≤ kMaxRedirectHops.toNat + 1 ∧
      sessionsOf s'.done = (List.range (requests - 1)).map (fun j => hopSession manifest (answers j)) ∧
      (∀ j, j + 1 < requests → FollowedTo (answers j)) ∧
      (∃ more, after (events ++ more) = (s'.tls, (after events).2 ++ s'.done)) ∧
      (s'.heapRefused = true ↔ (outcomes s'.done).getLast? = some (.refused .heap)) ∧
      (code ≠ -1 → ∀ note ∈ outcomes s'.done, note.isOpened = true) := by
  have clean : Clean { tls := (after events).1 } := ⟨rfl, nofun⟩
  obtain ⟨s', code, requests, ready, run, plain, few, ran, ended, later, sessions, followed⟩ :=
    getFollowingHops_spec (ran_start events) clean true
  refine ⟨s', code, requests, ready, run, plain, later, few, ?_, fun j => followed j (Nat.zero_le j), ran, ?_, ?_⟩
  · rw [sessions, Nat.sub_zero, ← List.range_eq_range']
    rfl
  · rcases ended with clean' | ⟨ended, -⟩
    · exact clean'.ended.flag
    · exact ended.flag
  · intro answered
    rcases ended with clean' | ⟨-, failed⟩
    · exact clean'.opened
    · exact absurd failed answered

/-! ## A whole check -/

section

variable {events : List Event} {s : CheckState}

theorem otaBeginUrl_spec (ran : Ran events s) (clean : Clean s) (url : Text) (smallReply : Bool)
    (m : Moment) (plainBegins : Bool) :
    Ran events (otaBeginUrl s url smallReply m plainBegins).1 ∧
      ((otaBeginUrl s url smallReply m plainBegins).2 = true →
        Clean (otaBeginUrl s url smallReply m plainBegins).1 ∧
          (sessionsOf (otaBeginUrl s url smallReply m plainBegins).1.done).length ≤
            (sessionsOf s.done).length + 1) ∧
      ((otaBeginUrl s url smallReply m plainBegins).2 = false →
        ∀ s', s' = (if isHttpsUrl url then (otaBeginUrl s url smallReply m plainBegins).1.noteRefusal
            else (otaBeginUrl s url smallReply m plainBegins).1) →
          Ran events s' ∧ Over s' ∧ sessionsOf s'.done = sessionsOf s.done) := by
  rw [otaBeginUrl]
  split
  · obtain ⟨goes_on, ends⟩ := beginHttps_spec ran clean (m.call url (!githubHost url) smallReply)
    refine ⟨ran.beginHttps _, fun begun => ?_, fun failed => ?_⟩
    · obtain ⟨clean', session, -, sessions⟩ := goes_on begun
      exact ⟨clean', by rw [sessions, List.length_append, List.length_singleton]⟩
    · rintro s' rfl
      exact ⟨(ran.beginHttps _).noteRefusal, ends failed⟩
  · refine ⟨ran, fun _ => ⟨clean, Nat.le_succ _⟩, fun _ => ?_⟩
    rintro s' rfl
    exact ⟨ran, clean.ended, rfl⟩

/-- The requests of one file take few sessions. -/
theorem Followed.few {manifest : Bool} {answers : Nat → Hop} {s' : CheckState} {code : Int} {requests : Nat}
    (followed : Followed manifest answers events 0 s s' code requests) (bounded : requests ≤ hopRequests) :
    (sessionsOf s'.done).length + 1 ≤ (sessionsOf s.done).length + hopRequests := by
  have later := followed.later
  rw [followed.sessions, List.length_append, List.length_map, List.length_range']
  omega

theorem downloadAndApply_spec (ran : Ran events s) (clean : Clean s) (d : Download) :
    ∃ s' updated, downloadAndApply s d = some (s', updated) ∧ Ran events s' ∧ Over s' ∧
      (updated = true → Clean s') ∧
      (sessionsOf s'.done).length ≤ (sessionsOf s.done).length + hopRequests := by
  have clean' : Clean { s with tls := releaseTrustAnchors s.tls } :=
    ⟨clean.flag, clean.opened⟩
  simp only [downloadAndApply]
  split
  · exact ⟨_, _, rfl, ran.release, clean'.ended, nofun, Nat.le_add_right _ _⟩
  · obtain ⟨next, goes_on, ends⟩ :=
      otaBeginUrl_spec ran.release clean' d.url false d.moment d.plainBegins
    split
    · next failed =>
      obtain ⟨ran', ended, same⟩ := ends (by simpa using failed) _ rfl
      exact ⟨_, _, rfl, ran', ended, nofun, same ▸ Nat.le_add_right _ _⟩
    · next begun =>
      obtain ⟨clean'', one⟩ := goes_on (by simpa using begun)
      obtain ⟨s', code, requests, -, run, -, few, followed⟩ :=
        @getFollowingHops_spec false d.answers _ _ next clean'' (isHttpsUrl d.url)
      have all := (followed.few few).trans (Nat.add_le_add_right one hopRequests)
      refine ⟨s', _, by rw [run]; rfl, followed.ran, ?_, ?_, by simp only at all; omega⟩
      · rcases followed.ended with clean_end | ⟨ended, -⟩
        · exact clean_end.ended
        · exact ended
      · intro updated
        rcases followed.ended with clean_end | ⟨-, rfl⟩
        · exact clean_end
        · cases updated

end

/-- The gate before the clients finds too little heap. -/
def Check.GateRefuses (c : Check) : Prop :=
  c.keyed = true ∧ isHttpsUrl c.manifestUrl = true ∧
    heapGatePass c.gate.freeTotal c.gate.maxBlock HEAP_GATE_OTA_MANIFEST HEAP_GATE_OTA_MANIFEST_BLOCK = false

/-- What a check behind these events leaves. -/
structure Checked (events : List Event) (c : Check) (r : CheckEnd) : Prop where
  ran : Ran events r.state
  heap : r.state.heapRefused = true ↔
    c.GateRefuses ∨ (outcomes r.state.done).getLast? = some (.refused .heap)
  opened : ∀ note ∈ (outcomes r.state.done).dropLast, note.isOpened = true
  read : r.readFailed = true →
    Clean r.state ∧ r.updated = false ∧ manifestReadRetrySoon c.read = true
  updated : r.updated = true → Clean r.state
  few : (sessionsOf r.state.done).length ≤ 2 * hopRequests

section

variable {events : List Event} {c : Check} {s : CheckState}

/-- A check that the gate let pass, and that is over. -/
theorem Over.checked (ended : Over s) (ran : Ran events s) (passed : ¬ c.GateRefuses)
    (few : (sessionsOf s.done).length ≤ 2 * hopRequests) (base : UInt32) :
    Checked events c { state := s, base } where
  ran := ran
  heap := ended.flag.trans ⟨.inr, fun either => either.resolve_left passed⟩
  opened := ended.opened
  read := nofun
  updated := nofun
  few := few

theorem checkSessions_spec {tls : TlsState} (ran : Ran events { tls }) (keyed : c.keyed = true)
    (base : UInt32) : ∃ r, checkSessions tls base c = some r ∧ Checked events c r := by
  have clean : Clean { tls } := ⟨rfl, nofun⟩
  simp only [checkSessions]
  split
  · next gate =>
    simp only [Bool.and_eq_true, Bool.not_eq_true'] at gate
    have refuses : c.GateRefuses := ⟨keyed, gate⟩
    exact ⟨_, rfl, ran, iff_of_true rfl (.inl refuses), nofun, nofun, nofun, Nat.zero_le _⟩
  · next gate =>
    have passed : ¬ c.GateRefuses := fun refuses => gate (by simp [refuses.2.1, refuses.2.2])
    split
    · exact ⟨_, rfl, clean.ended.checked ran passed (Nat.zero_le _) base⟩
    · obtain ⟨next, goes_on, ends⟩ := otaBeginUrl_spec ran clean c.manifestUrl true c.moment c.plainBegins
      split
      · next failed =>
        obtain ⟨ran', ended, same⟩ := ends (by simpa using failed) _ rfl
        exact ⟨_, rfl, ended.checked ran' passed (same ▸ Nat.zero_le _) base⟩
      · next begun =>
        obtain ⟨clean', one⟩ := goes_on (by simpa using begun)
        obtain ⟨s', code, requests, -, run, -, few, followed⟩ :=
          @getFollowingHops_spec true c.answers _ _ next clean' (isHttpsUrl c.manifestUrl)
        have all : (sessionsOf s'.done).length ≤ hopRequests :=
          Nat.le_of_succ_le_succ ((followed.few few).trans (by rw [Nat.add_comm]; exact Nat.add_le_add_left one _))
        have fits : (sessionsOf s'.done).length ≤ 2 * hopRequests := by omega
        rw [run]
        simp only [Option.bind_eq_bind, Option.bind_some]
        split
        · have ended : Over s' := followed.ended.elim Clean.ended And.left
          exact ⟨_, rfl, ended.checked followed.ran passed fits base⟩
        · next answered =>
          have clean'' : Clean s' := by
            rcases followed.ended with clean_end | ⟨-, rfl⟩
            · exact clean_end
            · exact absurd (by decide) answered
          split
          · exact ⟨_, rfl, { clean''.ended.checked followed.ran passed fits base with
              read := fun soon => ⟨clean'', rfl, soon⟩ }⟩
          · split
            · exact ⟨_, rfl, clean''.ended.checked followed.ran passed fits base⟩
            · next d _ =>
              obtain ⟨s'', updated, run', ran', ended, applied, more⟩ :=
                downloadAndApply_spec followed.ran clean'' d
              rw [run']
              exact ⟨_, rfl, { ended.checked ran' passed (by omega) base with read := nofun, updated := applied }⟩

/-- What `checkNow` leaves behind it, whatever happened before: the helper is where a run of its own
would have brought it, only the last call of a check is ever refused, and the two flags that shorten the
wait for the next check say which of the two things went wrong. -/
theorem check_reports {gap : Nat} (short : kOtaSettleMaxMs.toNat + gap ≤ 2 ^ 32)
    (steady : c.start.Steady gap) (base : UInt32) :
    ∃ r, checkNow (after events).1 base c = some r ∧
      (∃ more, after (events ++ more) = (r.state.tls, (after events).2 ++ r.state.done)) ∧
      (r.state.heapRefused = true ↔
        c.GateRefuses ∨ (outcomes r.state.done).getLast? = some (.refused .heap)) ∧
      (∀ note ∈ (outcomes r.state.done).dropLast, note.isOpened = true) ∧
      (r.readFailed = true → r.state.heapRefused = false ∧ r.updated = false ∧
        manifestReadRetrySoon c.read = true) ∧
      (r.updated = true → r.state.heapRefused = false ∧ r.readFailed = false ∧
        ∀ note ∈ outcomes r.state.done, note.isOpened = true) ∧
      (sessionsOf r.state.done).length ≤ 2 * (kMaxRedirectHops.toNat + 1) := by
  have clean : Clean { tls := (after events).1 } := ⟨rfl, nofun⟩
  have whole : ∃ r, checkNow (after events).1 base c = some r ∧ Checked events c r := by
    rw [checkNow]
    split
    · next keyless =>
      have passed : ¬ c.GateRefuses := fun refuses => by simp [refuses.1] at keyless
      exact ⟨_, rfl, clean.ended.checked (ran_start events) passed (Nat.zero_le _) base⟩
    · next keyed =>
      split
      · next unnamed =>
        have passed : ¬ c.GateRefuses := fun refuses => by
          have https := refuses.2.1
          rw [unnamed] at https
          cases https
        exact ⟨_, rfl, clean.ended.checked (ran_start events) passed (Nat.zero_le _) base⟩
      · obtain ⟨n, line, settled, -⟩ := settleBeforeCheck_ends base steady short
        simp only [settled, Option.bind_eq_bind, Option.bind_some]
        exact checkSessions_spec (ran_start events).release (by simpa using keyed) _
  obtain ⟨r, done, checked⟩ := whole
  refine ⟨r, done, checked.ran, checked.heap, checked.opened, ?_, ?_, checked.few⟩
  · intro failed
    obtain ⟨clean', not_updated, soon⟩ := checked.read failed
    exact ⟨clean'.flag, not_updated, soon⟩
  · intro updated
    refine ⟨(checked.updated updated).flag, ?_, (checked.updated updated).opened⟩
    cases read : r.readFailed with
    | false => rfl
    | true =>
        have not_updated := (checked.read read).2.1
        rw [updated] at not_updated
        cases not_updated

end

/-- A moment with this much heap and a clock that was set. -/
def momentOf (heap : HeapSample) : Moment :=
  { now := 1790000000, kick := { now := 1790000000, time := 90000, done := 90000 }, layoutOk := true,
    heap, honours := false, begins := true }

/-- A release moves its manifest once, and the heap is too short for the second session. -/
def splitHeapCheck : Check where
  keyed := true
  manifestUrl := text "https://github.com/m.json"
  start := quietStart 70000 39448
  gate := ⟨45000, 39448⟩
  allocated := true
  moment := momentOf ⟨39000, 32000⟩
  plainBegins := true
  answers := fun _ =>
    { code := 302, location := text "https://objects.githubusercontent.com/m.json",
      moment := momentOf ⟨39000, 20000⟩ }
  read := .Ok
  plan := none

theorem check_reports_split :
    ∃ r, checkNow (after []).1 0 splitHeapCheck = some r ∧ (sessionsOf r.state.done).length ≤ 12 := by
  obtain ⟨r, done, -, -, -, -, -, few⟩ :=
    @check_reports [] splitHeapCheck 21 (by decide) (quietStart_steady _ _) 0
  exact ⟨r, done, few⟩

end FryFirmware.Ota.Tls
