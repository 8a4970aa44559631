import FryFirmware.Dns.JobsProperties
import FryFirmware.Relay.FinProperties

/-!
# Job accounting over whole runs

The pool invariant together with the slots: a slot that points at a job waits
for it or is on its way out. Every atomic step of the relay and of the
resolvers keeps the invariant.
-/

set_option autoImplicit false

namespace FryFirmware.Dns

open Lib Relay

variable {n : Nat}

/-! ## Slots that may hold a job -/

/-- The phases in which a slot may still point at a job. -/
def Waits (s : Slot) : Prop :=
  s.phase = .needConnect ∨ s.phase = .flush ∨ s.phase = .closed

/-- The request stays, and a waiting slot stays one. -/
structure Stays (s t : Slot) : Prop where
  req : t.req = s.req
  waits : Waits s → Waits t

theorem Stays.refl (s : Slot) : Stays s s := ⟨rfl, id⟩

theorem Stays.trans {s t u : Slot} (first : Stays s t) (second : Stays t u) : Stays s u :=
  ⟨second.req.trans first.req, fun waits => second.waits (first.waits waits)⟩

theorem stays_of_quiet {s t : Slot} (quiet : Quiet s t) : Stays s t := by
  refine ⟨quiet.req, fun waits => ?_⟩
  rcases quiet.phase with same | closed
  · rwa [Waits, same]
  · exact .inr (.inr closed)

theorem queueClient_req (s : Slot) (d : List UInt8) : (queueClient s d).req = s.req := by
  unfold queueClient compactClient
  dsimp only
  repeat' split
  all_goals rfl

theorem stays_connectFailed (s : Slot) (why : CloseReason) (now : UInt32) :
    Stays s (connectFailed s why now) :=
  ⟨queueClient_req s kReplyFail, fun _ => .inr (.inl rfl)⟩

theorem waits_not_reading {s : Slot} (waits : Waits s) (side : Side) :
    (recvDest s side).2.2 = 0 := by
  rcases waits with phase | phase | phase <;> cases side <;> simp [recvDest, isHandshake, phase]

theorem waits_doRecv {s : Slot} (waits : Waits s) (side : Side) (answer : Relay.RecvAnswer)
    (now : UInt32) : (doRecv s side answer now).1 = s := by
  have refused := waits_not_reading waits side
  unfold doRecv
  dsimp only
  rw [if_pos refused]
  exact recvDest_refused side refused

theorem stays_onSendData (s : Slot) (toward : Side) (n : Nat) : Stays s (onSendData s toward n) := by
  cases toward with
  | up =>
      unfold onSendData
      dsimp only
      split <;> exact ⟨rfl, id⟩
  | client =>
      unfold onSendData
      dsimp only
      split
      · split
        · refine Stays.trans ?_ (stays_of_quiet (quiet_closeSlot _ _))
          exact ⟨rfl, id⟩
        · exact ⟨rfl, id⟩
      · split
        · refine Stays.trans ?_ (stays_of_quiet (quiet_closeSlot _ _))
          exact ⟨rfl, id⟩
        · exact ⟨rfl, id⟩

theorem stays_onSend (s : Slot) (toward : Side) (ret : Int) (err : Errno) (now : UInt32) :
    Stays s (onSend s toward ret err now) := by
  unfold onSend
  split
  · exact .refl s
  · refine Stays.trans ?_ (stays_of_quiet (quiet_relayUpdate _ now))
    split
    · dsimp only
      split
      · exact (stays_onSendData s toward _).trans (stays_of_quiet (quiet_touch _ now))
      · exact stays_onSendData s toward _
    · exact .refl s
    · exact .refl s
    · exact stays_of_quiet (quiet_closeSlot s _)
    · exact stays_of_quiet (quiet_closeSlot s _)

theorem stays_doSend (s : Slot) (toward : Side) (answer : Relay.SendAnswer) (now : UInt32) :
    Stays s (doSend s toward answer now).1 := by
  unfold doSend
  dsimp only
  split
  · exact .refl s
  · exact stays_onSend s toward _ _ now

theorem stays_onTimer (s : Slot) (t : Timing) (now : UInt32) : Stays s (onTimer s t now) := by
  unfold onTimer
  repeat' split
  all_goals first
    | exact .refl s
    | exact stays_of_quiet (quiet_closeSlot s _)
    | exact stays_connectFailed s _ now
    | exact ⟨rfl, id⟩

theorem stays_forwardFin (s : Slot) (side : Side) (drained : List (List UInt8)) (now : UInt32) :
    Stays s (Relay.forwardFin s side drained now).1 := by
  have drains : ∀ t, Stays t (drainAndClose t side drained) := by
    intro t
    cases side <;> unfold drainAndClose <;> dsimp only <;> split <;> exact ⟨rfl, id⟩
  rw [forwardFin_eq]
  dsimp only
  split
  · exact (stays_of_quiet (quiet_takeFinAction s side)).trans
      ((drains _).trans (stays_of_quiet (quiet_onSideClosed _ side now)))
  · exact stays_of_quiet (quiet_takeFinAction s side)

/-- Outside `needConnect` a waiting slot keeps waiting for the same host. -/
theorem service_waits {s : Slot} (waits : Waits s) (now : UInt32) (op : ServiceOp) :
    Waits (service s now op) ∧ (service s now op).req = s.req := by
  have stays : Stays s (service s now op) := by
    cases op with
    | recv side answer =>
        simp only [service, waits_doRecv waits]
        exact .refl s
    | send toward answer => exact stays_doSend s toward answer now
    | timer t => exact stays_onTimer s t now
    | connectResult ok =>
        have other : s.phase ≠ .connecting := by
          rcases waits with phase | phase | phase <;> simp [phase]
        simp only [service, if_neg other]
        exact .refl s
    | forwardFin side drained => exact stays_forwardFin s side drained now
  exact ⟨stays.waits waits, stays.req⟩

/-! ## The invariant -/

/-- Where the relay task stands inside `needConnect`. -/
def Controlled (w : State n) : Prop :=
  match w.control with
  | .idle | .sweeping _ => True
  | .looking i => (∃ s, w.slots i = some s ∧ s.phase = .needConnect) ∧
      ∀ k, w.job i = some k → (w.jobs k).cached = false
  | .polling i => (∃ s, w.slots i = some s ∧ s.phase = .needConnect) ∧ ∃ k, w.job i = some k
  | .taking i => (∃ s, w.slots i = some s ∧ s.phase = .needConnect) ∧
      ∃ k, w.job i = some k ∧ (w.jobs k).done = true

/-- A slot's pointer designates a job of its own host. -/
def Pointed (w : State n) : Prop :=
  ∀ i k, w.job i = some k →
    ∃ s, w.slots i = some s ∧ Waits s ∧ dnsHostEq (hostOf s) (w.jobs k).host = true

structure Accounted (w : State n) : Prop where
  pooled : Pooled w
  pointed : Pointed w
  controlled : Controlled w

theorem accounted_start (base : UInt32) : Accounted ({ base } : State n) := by
  refine ⟨⟨?_, ?_, ?_, ?_, ?_, ?_, ?_, ?_, ?_, ?_, ?_⟩, ?_, trivial⟩
  · intro k
    exact (references_eq_zero_iff.mpr fun _ points => by cases points).symm
  · intro _ _ points
    cases points
  · intro _ live
    cases live
  · intro _ _ live
    cases live
  · intro _ live
    cases live
  · intro _ live
    cases live
  · intro _ live
    cases live
  · intro _ valid
    cases valid
  · intro _ running
    cases running
  · exact List.nodup_nil
  · intro _ live
    cases live
  · intro _ _ points
    cases points

/-! ## Steps -/

/-- Pointers that remain keep their host. -/
theorem Pointed.shrunk {w v : State n} (pointed : Pointed w) (pooled : Pooled w) (after : Pooled v)
    (retains : Retains w.jobs v.jobs) (slots : v.slots = w.slots)
    (pointers : ∀ i k, v.job i = some k → w.job i = some k) : Pointed v := by
  intro i k points
  have before := pointers i k points
  obtain ⟨s, present, waits, same⟩ := pointed i k before
  refine ⟨s, slots ▸ present, waits, ?_⟩
  rcases retains k (pooled.live i k before) with ⟨_, host⟩ | ⟨dead, _⟩
  · rwa [host]
  · rw [after.live i k points] at dead
    cases dead

/-- A slot without a job may become anything. -/
theorem Pointed.setSlot_free {w : State n} (pointed : Pointed w) {i : Fin n}
    (free : w.job i = none) (s : Option Slot) : Pointed (w.setSlot i s) := by
  intro j k points
  have held : w.job j = some k := points
  have other : j ≠ i := by
    intro same
    rw [same, free] at held
    cases held
  obtain ⟨slot, present, waits, same⟩ := pointed j k held
  refine ⟨slot, ?_, waits, same⟩
  simp only [State.setSlot, Function.update_of_ne other]
  exact present

/-- A slot that stays a waiting one keeps its pointer right. -/
theorem Pointed.setSlot_waiting {w : State n} (pointed : Pointed w) {i : Fin n} {s t : Slot}
    (present : w.slots i = some s) (waits : Waits s → Waits t) (req : t.req = s.req) :
    Pointed (w.setSlot i t) := by
  intro j k points
  obtain ⟨slot, was, waiting, same⟩ := pointed j k points
  by_cases own : j = i
  · subst own
    rw [present] at was
    cases was
    refine ⟨t, by simp [State.setSlot], waits waiting, ?_⟩
    rw [hostOf, req]
    exact same
  · refine ⟨slot, ?_, waiting, same⟩
    simp only [State.setSlot, Function.update_of_ne own]
    exact was

theorem settleSlot_pointers {w : State n} (pooled : Pooled w) (i : Fin n) :
    (∀ j k, (w.settleSlot i).job j = some k → w.job j = some k) ∧
      ∀ k, (w.settleSlot i).job i = some k →
        w.settleSlot i = w ∧ (w.jobs k).cached = false := by
  rcases finished_or_waiting w i with ⟨k, points, done⟩ | waiting
  · rw [settleSlot_done pooled points done]
    refine ⟨dropped_pointers, fun l held => ?_⟩
    simp at held
  · rw [settleSlot_waiting waiting]
    refine ⟨fun _ _ => id, fun k points => ⟨rfl, ?_⟩⟩
    cases cached : (w.jobs k).cached with
    | false => rfl
    | true =>
        have done := (pooled.settled k (pooled.live i k points) cached).1
        rw [waiting k points] at done
        cases done

theorem dnsDropSlot_pointers (w : State n) (i : Fin n) :
    (w.dnsDropSlot i).job i = none ∧
      ∀ j k, (w.dnsDropSlot i).job j = some k → w.job j = some k :=
  ⟨Function.update_self .., dropped_pointers⟩

/-- `dnsDropSlot`, then the slot is replaced. -/
theorem accounted_dropSlot {w : State n} (accounted : Accounted w) (idle : w.control = .idle)
    (i : Fin n) (s : Option Slot) :
    Accounted ((w.dnsDropSlot i).setSlot i s) ∧
      Retains w.jobs ((w.dnsDropSlot i).setSlot i s).jobs := by
  obtain ⟨pooled, retains⟩ := pooled_dnsDropSlot accounted.pooled i
  obtain ⟨free, pointers⟩ := dnsDropSlot_pointers w i
  have pointed := accounted.pointed.shrunk accounted.pooled pooled retains rfl pointers
  refine ⟨⟨pooled.frame _ w.control, pointed.setSlot_free free s, ?_⟩, retains⟩
  have control : ((w.dnsDropSlot i).setSlot i s).control = .idle := idle
  simp only [Controlled, control]

theorem lookup_unanswered {cache : DnsCache} {host : Host} {now : UInt32}
    (unanswered : (cache.lookup host now).2 = none) : (cache.lookup host now).1 = cache := by
  unfold DnsCache.lookup at unanswered ⊢
  split
  · rfl
  · rename_i i found
    rw [found] at unanswered
    dsimp only at unanswered
    split at unanswered
    · rename_i zero
      rw [if_pos zero]
    · cases unanswered

/-- The pool after a lookup. -/
theorem Pooled.looked {w : State n} (pooled : Pooled w) (host : Host) :
    Pooled { w with cache := (w.cache.lookup host w.now).1 } :=
  ⟨pooled.refs, pooled.live, pooled.named, pooled.unique, pooled.settled, pooled.answered,
    fun k live cached => (pooled.missing k live cached).lookup host w.now,
    pooled.dated.lookup host w.now, pooled.tasks, pooled.alone, pooled.resolving⟩

theorem stays_onConnectResult {s : Slot} (phase : s.phase = .needConnect) (now : UInt32) :
    Stays s (onConnectResult s false now) := by
  have failed : onConnectResult s false now = connectFailed s .connectFail now := by
    simp [onConnectResult, phase]
  rw [failed]
  exact stays_connectFailed s _ now

theorem beginJob_frame (w : State n) (i : Fin n) (host : Host) (started : Bool) :
    (w.beginJob i host started).slots = w.slots ∧ (w.beginJob i host started).clock = w.clock := by
  unfold State.beginJob State.dnsStart
  dsimp only
  split
  · exact ⟨rfl, rfl⟩
  · repeat' split
    all_goals exact ⟨rfl, rfl⟩

/-- A slot without a job asks for one. -/
theorem accounted_beginJob {w : State n} (pooled : Pooled w) (pointed : Pointed w) {i : Fin n}
    {s : Slot} (present : w.slots i = some s) (phase : s.phase = .needConnect)
    (free : w.job i = none) (missing : hostOf s ≠ [] → Missing w.cache (hostOf s) w.now)
    (started : Bool) :
    Accounted (w.beginJob i (hostOf s) started) ∧
      Retains w.jobs (w.beginJob i (hostOf s) started).jobs := by
  obtain ⟨after, retains, others, own⟩ := pooled_beginJob pooled free missing started
  obtain ⟨slots, _⟩ := beginJob_frame w i (hostOf s) started
  refine ⟨⟨after, ?_, ?_⟩, retains⟩
  · intro j k points
    by_cases mine : j = i
    · subst mine
      rcases own with ⟨none, _⟩ | ⟨l, held, _, same⟩
      · rw [none] at points
        cases points
      · rw [held] at points
        cases points
        exact ⟨s, slots ▸ present, .inl phase, same⟩
    · have before := others j mine ▸ points
      obtain ⟨slot, was, waits, same⟩ := pointed j k before
      refine ⟨slot, slots ▸ was, waits, ?_⟩
      rcases retains k (pooled.live j k before) with ⟨_, host⟩ | ⟨dead, _⟩
      · rwa [host]
      · rw [after.live j k points] at dead
        cases dead
  · rcases own with ⟨_, control⟩ | ⟨l, held, control, _⟩
    · simp only [Controlled, control]
    · simp only [Controlled, control]
      exact ⟨⟨s, slots ▸ present, phase⟩, l, held⟩

/-- The middle of `needConnect`. A cache hit finds the slot without a job: a job
that is still pending has no unexpired entry. -/
theorem accounted_look {w : State n} (accounted : Accounted w) {i : Fin n} {s : Slot}
    (control : w.control = .looking i) (present : w.slots i = some s) (answer : ConnectAnswer)
    (started : Bool) :
    Accounted (w.look i s answer started) ∧ Retains w.jobs (w.look i s answer started).jobs := by
  have standing := accounted.controlled
  simp only [Controlled, control] at standing
  obtain ⟨⟨slot, same, phase⟩, uncached⟩ := standing
  rw [present] at same
  cases same
  have pooled := accounted.pooled
  have looked := pooled.looked (hostOf s)
  have pointed := accounted.pointed
  unfold State.look
  dsimp only
  split
  · rename_i hit
    have free : w.job i = none := by
      cases points : w.job i with
      | none => rfl
      | some k =>
          exfalso
          obtain ⟨_, was, _, sameHost⟩ := pointed i k points
          rw [present] at was
          cases was
          have missing := pooled.missing k (pooled.live i k points) (uncached k points)
          have absent : Missing w.cache (hostOf s) w.now := by
            intro j
            have none := missing j
            unfold DnsCache.holds at none ⊢
            cases valid : (w.cache j).valid && !(w.cache j).expired w.now with
            | false => rfl
            | true =>
                rw [valid, Bool.true_and] at none
                rw [Bool.true_and]
                cases matches_ : dnsHostEq (w.cache j).host (hostOf s) with
                | false => rfl
                | true =>
                    rw [dnsHostEq_iff] at matches_ sameHost
                    rw [dnsHostEq_iff.mpr (matches_.trans sameHost)] at none
                    cases none
          rw [lookup_missing absent] at hit
          cases hit
    exact ⟨⟨looked.frame _ .idle, pointed.setSlot_free free _, trivial⟩, .refl _⟩
  · rename_i miss
    have unanswered : (w.cache.lookup (hostOf s) w.now).2 = none := by
      simpa using miss
    have unchanged := lookup_unanswered unanswered
    split
    · have stays := stays_onConnectResult phase w.now
      exact ⟨⟨looked.frame _ .idle, pointed.setSlot_waiting present stays.waits stays.req, trivial⟩,
        .refl _⟩
    · rename_i open_
      split
      · rename_i free
        refine accounted_beginJob looked pointed present phase free (fun named => ?_) started
        have unblocked : w.cache.blocked (hostOf s) w.now = false := by
          rw [unchanged] at open_
          simpa using open_
        dsimp only
        rw [unchanged]
        exact missing_of_unanswered named unanswered unblocked
      · rename_i k points
        refine ⟨⟨looked.frame _ (.polling i), pointed, ?_⟩, .refl _⟩
        exact ⟨⟨s, present, phase⟩, k, points⟩

theorem accounted_take {w : State n} (accounted : Accounted w) {i : Fin n} {k : JobId} {s : Slot}
    (control : w.control = .taking i) (points : w.job i = some k) (answer : ConnectAnswer) :
    Accounted (w.take i k s answer) ∧ Retains w.jobs (w.take i k s answer).jobs := by
  have standing := accounted.controlled
  simp only [Controlled, control] at standing
  obtain ⟨_, l, held, done⟩ := standing
  rw [points] at held
  cases held
  obtain ⟨pooled, retains⟩ := pooled_settleSlot accounted.pooled i
  obtain ⟨pointers, kept⟩ := settleSlot_pointers accounted.pooled i
  have pointed := accounted.pointed.shrunk accounted.pooled pooled retains rfl pointers
  have free : (w.settleSlot i).job i = none := by
    rw [settleSlot_done accounted.pooled points done]
    exact Function.update_self ..
  unfold State.take
  dsimp only
  split <;>
    exact ⟨⟨pooled.frame _ .idle, pointed.setSlot_free free _, trivial⟩, retains⟩

theorem accounted_taskStep {w : State n} (accounted : Accounted w) (index : Nat)
    (answer : HostAnswer) :
    Accounted (w.taskStep index answer) ∧ Retains w.jobs (w.taskStep index answer).jobs := by
  obtain ⟨pooled, touches⟩ := pooled_taskStep accounted.pooled index answer
  have frame : (w.taskStep index answer).slots = w.slots ∧
      (w.taskStep index answer).job = w.job ∧ (w.taskStep index answer).control = w.control := by
    unfold State.taskStep
    split <;> exact ⟨rfl, rfl, rfl⟩
  obtain ⟨slots, job, control⟩ := frame
  refine ⟨⟨pooled, accounted.pointed.shrunk accounted.pooled pooled touches.retains slots ?_, ?_⟩,
    touches.retains⟩
  · intro i k points
    rwa [job] at points
  · have standing := accounted.controlled
    unfold Controlled at standing ⊢
    rw [control, slots, job]
    split
    · trivial
    · trivial
    · rename_i i looking
      simp only [looking] at standing
      exact ⟨standing.1, fun k points => (touches.cached k).trans (standing.2 k points)⟩
    · rename_i i polling
      simpa only [polling] using standing
    · rename_i i taking
      simp only [taking] at standing
      obtain ⟨slot, k, points, done⟩ := standing
      exact ⟨slot, k, points, touches.done k done⟩

/-- Time passes while the relay waits. -/
theorem accounted_tick {w : State n} (accounted : Accounted w) (idle : w.control = .idle) (ms : Nat)
    (window : w.clock + ms < 2 ^ 31) : Accounted { w with clock := w.clock + ms } := by
  obtain ⟨pooled, pointed, _⟩ := accounted
  refine ⟨⟨pooled.refs, pooled.live, pooled.named, pooled.unique, pooled.settled, pooled.answered,
    fun k live cached => ?_, pooled.dated.later (Nat.le_add_right _ _), pooled.tasks, pooled.alone,
    pooled.resolving⟩, pointed, ?_⟩
  · exact (pooled.missing k live cached).later pooled.dated (Nat.le_add_right _ _) window
  · simp only [Controlled, idle]

theorem Accounted.idle {w : State n} (accounted : Accounted w) (idle : w.control = .idle)
    {slots : Fin n → Option Slot} (pointed : Pointed { w with slots := slots }) :
    Accounted { w with slots := slots } := by
  refine ⟨accounted.pooled.frame slots w.control, pointed, ?_⟩
  simp only [Controlled, idle]

/-- Every atomic step keeps the accounts, and frees only finished jobs. -/
theorem accounted_step {w : State n} (accounted : Accounted w) (op : Op n)
    (window : (w.step op).clock < 2 ^ 31) :
    Accounted (w.step op) ∧ Retains w.jobs (w.step op).jobs := by
  have same : Accounted w ∧ Retains w.jobs w.jobs := ⟨accounted, .refl _⟩
  have pooled := accounted.pooled
  have pointed := accounted.pointed
  unfold State.step at window ⊢
  cases op with
  | tick ms =>
      dsimp only at window ⊢
      split
      · rename_i idle
        rw [if_pos idle] at window
        exact ⟨accounted_tick accounted idle ms window, .refl _⟩
      · exact same
  | task index answer => exact accounted_taskStep accounted index answer
  | sweep =>
      dsimp only
      split
      · exact ⟨⟨pooled.frame w.slots _, pointed, trivial⟩, .refl _⟩
      · exact same
  | sweepJob =>
      dsimp only
      split
      · exact ⟨⟨pooled.frame w.slots .idle, pointed, trivial⟩, .refl _⟩
      · rename_i k rest _
        obtain ⟨after, retains⟩ := pooled_sweepJob pooled k
        have framed := after.frame w.slots (.sweeping rest)
        exact ⟨⟨framed, pointed.shrunk pooled framed retains rfl (fun _ _ => id), trivial⟩, retains⟩
      · exact same
  | needConnect i =>
      dsimp only
      split
      · rename_i s present
        split
        · rename_i begins
          obtain ⟨after, retains⟩ := pooled_settleSlot pooled i
          obtain ⟨pointers, kept⟩ := settleSlot_pointers pooled i
          have framed := after.frame w.slots (.looking i)
          refine ⟨⟨framed, pointed.shrunk pooled framed retains rfl pointers, ?_⟩, retains⟩
          refine ⟨⟨s, present, begins.2⟩, fun k points => ?_⟩
          obtain ⟨unchanged, uncached⟩ := kept k points
          dsimp only
          rw [unchanged]
          exact uncached
        · exact same
      · exact same
  | look answer started =>
      dsimp only
      split
      · rename_i i control
        split
        · rename_i s present
          exact accounted_look accounted control present answer started
        · exact same
      · exact same
  | poll =>
      dsimp only
      split
      · rename_i i control
        have standing := accounted.controlled
        simp only [Controlled, control] at standing
        split
        · rename_i k points
          cases done : (w.jobs k).done with
          | true =>
              exact ⟨⟨pooled.frame w.slots (.taking i), pointed, standing.1, k, points, done⟩,
                .refl _⟩
          | false => exact ⟨⟨pooled.frame w.slots .idle, pointed, trivial⟩, .refl _⟩
        · exact same
      · exact same
  | take answer =>
      dsimp only
      split
      · rename_i i control
        split
        · rename_i k s points _
          exact accounted_take accounted control points answer
        · exact same
      · exact same
  | service i at_ op =>
      dsimp only
      split
      · rename_i s present
        split
        · rename_i idle
          refine ⟨accounted.idle idle ?_, .refl _⟩
          cases points : w.job i with
          | none => exact pointed.setSlot_free points _
          | some k =>
              obtain ⟨_, was, waits, _⟩ := pointed i k points
              rw [present] at was
              cases was
              obtain ⟨still, req⟩ := service_waits waits at_ op
              exact pointed.setSlot_waiting present (fun _ => still) req
        · exact same
      · exact same
  | release i =>
      dsimp only
      split
      · split
        · rename_i closed
          exact accounted_dropSlot accounted closed.1 i none
        · exact same
      · exact same
  | forceClose i why =>
      dsimp only
      split
      · rename_i s present
        split
        · rename_i idle
          have quiet : Stays s (slotForceClose s why.reason) :=
            stays_of_quiet (quiet_closeSlot s why.reason)
          have closed : Accounted (w.setSlot i (slotForceClose s why.reason)) :=
            accounted.idle idle (pointed.setSlot_waiting present quiet.waits quiet.req)
          exact accounted_dropSlot closed idle i none
        · exact same
      · exact same
  | accept i c2u u2c clientFd finGraceMs =>
      dsimp only
      split
      · exact same
      · split
        · rename_i idle
          exact accounted_dropSlot accounted idle i _
        · exact same

/-! ## Runs -/

theorem step_clock (w : State n) (op : Op n) : w.clock ≤ (w.step op).clock := by
  cases op with
  | tick ms =>
      simp only [State.step]
      split
      · exact Nat.le_add_right _ _
      · exact Nat.le_refl _
  | task index answer =>
      simp only [State.step, State.taskStep]
      split <;> exact Nat.le_refl _
  | look answer started =>
      simp only [State.step, State.look]
      repeat' split
      all_goals first
        | exact Nat.le_refl _
        | exact Nat.le_of_eq (by rw [(beginJob_frame _ _ _ _).2])
  | take answer =>
      simp only [State.step, State.take]
      repeat' split
      all_goals exact Nat.le_refl _
  | sweep | sweepJob | needConnect | poll | service | release | forceClose | accept =>
      simp only [State.step]
      repeat' split
      all_goals exact Nat.le_refl _

theorem run_clock (w : State n) (ops : List (Op n)) : w.clock ≤ (w.run ops).clock := by
  induction ops generalizing w with
  | nil => exact Nat.le_refl _
  | cons op ops ih => exact Nat.le_trans (step_clock w op) (ih (w.step op))

theorem accounted_run {w : State n} (accounted : Accounted w) (ops : List (Op n))
    (window : (w.run ops).clock < 2 ^ 31) : Accounted (w.run ops) := by
  induction ops generalizing w with
  | nil => exact accounted
  | cons op ops ih =>
      have within : (w.step op).clock < 2 ^ 31 :=
        Nat.lt_of_le_of_lt (run_clock (w.step op) ops) window
      exact ih (accounted_step accounted op within).1 window

/-! ## Sweeping -/

/-- What can happen while the relay is inside `sweep`. -/
def DuringSweep : Op n → Prop
  | .sweepJob | .task _ _ => True
  | _ => False

theorem taskStep_done {w : State n} (pooled : Pooled w) {k : JobId}
    (done : (w.jobs k).done = true) (index : Nat) (answer : HostAnswer) :
    (w.taskStep index answer).jobs k = w.jobs k := by
  unfold State.taskStep
  split
  · rfl
  · rename_i task selected
    have other := pooled.idle_of_done done task (List.mem_of_getElem? selected)
    exact Function.update_of_ne (Ne.symm other) ..

theorem sweepJob_other {jobs : DnsJobs} {k l : JobId} (other : k ≠ l) (cache : DnsCache)
    (now : UInt32) :
    (DnsJobs.sweepJob jobs l cache now kDnsTtlMs kDnsFailTtlMs).1 k = jobs k := by
  unfold DnsJobs.sweepJob DnsJobs.finish DnsJobs.freeSlot
  dsimp only
  repeat' split
  all_goals simp [Function.update_of_ne other]

theorem sweepJob_dead {jobs : DnsJobs} {k : JobId} (dead : (jobs k).live = false) (l : JobId)
    (cache : DnsCache) (now : UInt32) :
    ((DnsJobs.sweepJob jobs l cache now kDnsTtlMs kDnsFailTtlMs).1 k).live = false := by
  by_cases own : k = l
  · subst own
    simp [DnsJobs.sweepJob, dead]
  · rw [sweepJob_other own]
    exact dead

/-- Inside a sweep no job comes to life. -/
theorem dead_during_sweep {w : State n} (accounted : Accounted w) {k : JobId}
    (dead : (w.jobs k).live = false) {op : Op n} (during : DuringSweep op) :
    ((w.step op).jobs k).live = false := by
  cases op with
  | sweepJob =>
      simp only [State.step]
      split
      · exact dead
      · exact sweepJob_dead dead _ _ _
      · exact dead
  | task index answer =>
      have touches := (pooled_taskStep accounted.pooled index answer).2
      exact (touches.live k).trans dead
  | _ => exact during.elim

theorem duringSweep_clock {w : State n} {op : Op n} (during : DuringSweep op) :
    (w.step op).clock = w.clock ∧ (w.step op).base = w.base := by
  cases op with
  | sweepJob =>
      simp only [State.step]
      repeat' split
      all_goals exact ⟨rfl, rfl⟩
  | task index answer =>
      simp only [State.step, State.taskStep]
      split <;> exact ⟨rfl, rfl⟩
  | _ => exact during.elim

theorem dead_after_sweep {w : State n} (accounted : Accounted w) (window : w.clock < 2 ^ 31)
    {k : JobId} (dead : (w.jobs k).live = false) {ops : List (Op n)}
    (during : ∀ op ∈ ops, DuringSweep op) : ((w.run ops).jobs k).live = false := by
  induction ops generalizing w with
  | nil => exact dead
  | cons op ops ih =>
      have here := during op List.mem_cons_self
      have within : (w.step op).clock < 2 ^ 31 := by rwa [(duringSweep_clock here).1]
      exact ih (accounted_step accounted op within).1 within
        (dead_during_sweep accounted dead here)
        (fun later present => during later (List.mem_cons_of_mem _ present))

/-- A finished job nobody refers to, in the part of the pool still to be swept. -/
structure Due (w : State n) (k : JobId) (job : DnsJob) (rest : List JobId) : Prop where
  same : w.jobs k = job
  live : job.live = true
  done : job.done = true
  unreferenced : job.refs = 0
  control : w.control = .sweeping rest
  ahead : k ∈ rest

/-- Its turn frees the job and puts its answer into the cache. -/
theorem Due.turn {w : State n} {k : JobId} {job : DnsJob} {rest : List JobId}
    (accounted : Accounted w) (due : Due w k job (k :: rest)) :
    ((w.step .sweepJob).jobs k).live = false ∧
      (w.step .sweepJob).cache.answers job.host (w.step .sweepJob).now job.answer := by
  obtain ⟨same, live, done, unreferenced, control, _⟩ := due
  subst same
  have pooled := accounted.pooled
  have uncached : (w.jobs k).cached = false := by
    cases cached : (w.jobs k).cached with
    | false => rfl
    | true =>
        have referenced := (pooled.settled k live cached).2
        omega
  have step : w.step .sweepJob = { w with
      jobs := Function.update w.jobs k {}
      cache := DnsJobs.settle (w.jobs k) w.cache w.now kDnsTtlMs kDnsFailTtlMs
      control := .sweeping rest } := by
    simp only [State.step, control, sweepJob_done live done, unreferenced, ↓reduceIte, settledCache,
      uncached, Bool.false_eq_true]
  rw [step]
  refine ⟨by simp, ?_⟩
  exact settle_answers (pooled.missing k live uncached) (pooled.named k live).1
    (pooled.named k live).2 (pooled.answered k live done)

theorem Due.wait {w : State n} {k : JobId} {job : DnsJob} {rest : List JobId}
    (accounted : Accounted w) (due : Due w k job rest) {op : Op n} (during : DuringSweep op) :
    (op = .sweepJob ∧ ∃ later, rest = k :: later) ∨ ∃ later, Due (w.step op) k job later := by
  obtain ⟨same, live, done, unreferenced, control, ahead⟩ := due
  cases op with
  | sweepJob =>
      cases rest with
      | nil => cases ahead
      | cons head later =>
          by_cases own : head = k
          · exact .inl ⟨rfl, later, by rw [own]⟩
          · refine .inr ⟨later, ?_, live, done, unreferenced, ?_, ?_⟩
            · simp only [State.step, control]
              rw [sweepJob_other (Ne.symm own)]
              exact same
            · simp only [State.step, control]
            · exact (List.mem_cons.mp ahead).resolve_left (Ne.symm own)
  | task index answer =>
      have finished : (w.jobs k).done = true := by rw [same]; exact done
      refine .inr ⟨rest, ?_, live, done, unreferenced, ?_, ahead⟩
      · exact (taskStep_done accounted.pooled finished index answer).trans same
      · rw [← control]
        simp only [State.step, State.taskStep]
        split <;> rfl
  | _ => exact during.elim

/-- A sweep that runs to its end frees the job, with its answer put into the
cache on the way. -/
theorem Due.swept {w : State n} {k : JobId} {job : DnsJob} {rest : List JobId}
    (accounted : Accounted w) (window : w.clock < 2 ^ 31) (due : Due w k job rest)
    {ops : List (Op n)} (during : ∀ op ∈ ops, DuringSweep op)
    (ended : (w.run ops).control = .idle) :
    ((w.run ops).jobs k).live = false ∧
      ∃ early, early <+: ops ∧
        (w.run early).cache.answers job.host (w.run early).now job.answer := by
  induction ops generalizing w rest with
  | nil =>
      have idle : w.control = .idle := ended
      rw [due.control] at idle
      cases idle
  | cons op ops ih =>
      have here := during op List.mem_cons_self
      have later : ∀ op ∈ ops, DuringSweep op :=
        fun next present => during next (List.mem_cons_of_mem _ present)
      have within : (w.step op).clock < 2 ^ 31 := by rwa [(duringSweep_clock here).1]
      have after := (accounted_step accounted op within).1
      rcases due.wait accounted here with ⟨rfl, tail, rfl⟩ | ⟨tail, still⟩
      · obtain ⟨dead, answered⟩ := due.turn accounted
        refine ⟨dead_after_sweep after within dead later, [.sweepJob], ?_, answered⟩
        exact List.prefix_append [Op.sweepJob] ops
      · obtain ⟨dead, early, front, answered⟩ := ih after within still later ended
        exact ⟨dead, op :: early, List.cons_prefix_cons.mpr ⟨rfl, front⟩, answered⟩

/-! ## The law -/

/-- What the job accounts promise in one state. -/
structure JobLaw (w : State n) : Prop where
  refs : ∀ k, (w.jobs k).live = true → (w.jobs k).refs = references w.job k
  pointer : ∀ i k, w.job i = some k → (w.jobs k).live = true ∧
    ∃ s, w.slots i = some s ∧ dnsHostEq (hostOf s) (w.jobs k).host = true
  unique : ∀ k l, (w.jobs k).live = true → (w.jobs l).live = true →
    dnsHostEq (w.jobs k).host (w.jobs l).host = true → k = l
  connected : ∀ i s, w.slots i = some s → s.phase = .connecting ∨ s.phase = .relay →
    w.job i = none
  /-- A running resolver has the job it was started for, and alone. -/
  resolver : ∀ task ∈ w.tasks, (w.jobs task.job).live = true ∧
    (w.jobs task.job).done = false ∧ (w.jobs task.job).host = task.name
  exclusive : (w.tasks.map Task.job).Nodup
  /-- A live job keeps its name, or it is freed: finished, without a running
  resolver and with no pointer left. -/
  freed : ∀ op, (w.step op).clock < 2 ^ 31 → ∀ k, (w.jobs k).live = true →
    (((w.step op).jobs k).live = true ∧ ((w.step op).jobs k).host = (w.jobs k).host) ∨
      (((w.step op).jobs k).live = false ∧ (w.jobs k).done = true ∧
        (∀ task ∈ w.tasks, task.job ≠ k) ∧ ∀ i, (w.step op).job i ≠ some k)
  /-- A sweep frees every finished job nobody refers to and caches its answer. -/
  swept : w.control = .idle → ∀ k, (w.jobs k).live = true → (w.jobs k).done = true →
    (w.jobs k).refs = 0 → ∀ ops : List (Op n), (∀ op ∈ ops, DuringSweep op) →
    ((w.step .sweep).run ops).control = .idle →
    (((w.step .sweep).run ops).jobs k).live = false ∧
      ∃ early, early <+: ops ∧
        ((w.step .sweep).run early).cache.answers (w.jobs k).host
          ((w.step .sweep).run early).now (w.jobs k).answer

theorem Accounted.jobLaw {w : State n} (accounted : Accounted w) (window : w.clock < 2 ^ 31) :
    JobLaw w where
  refs := fun k _ => accounted.pooled.refs k
  pointer := by
    intro i k points
    obtain ⟨s, present, _, same⟩ := accounted.pointed i k points
    exact ⟨accounted.pooled.live i k points, s, present, same⟩
  unique := accounted.pooled.unique
  connected := by
    intro i s present phase
    cases points : w.job i with
    | none => rfl
    | some k =>
        obtain ⟨_, was, waits, _⟩ := accounted.pointed i k points
        rw [present] at was
        cases was
        rcases waits with waiting | waiting | waiting <;> simp [waiting] at phase
  resolver := by
    intro task running
    have resolves := accounted.pooled.tasks task running
    exact ⟨resolves.live, resolves.unfinished, resolves.named⟩
  exclusive := accounted.pooled.alone
  freed := by
    intro op within k live
    obtain ⟨after, retains⟩ := accounted_step accounted op within
    rcases retains k live with kept | ⟨dead, done⟩
    · exact .inl kept
    · refine .inr ⟨dead, done, accounted.pooled.idle_of_done done, fun i points => ?_⟩
      rw [after.pooled.live i k points] at dead
      cases dead
  swept := by
    intro idle k live done unreferenced ops during ended
    have begun : w.step .sweep = { w with control := .sweeping (List.finRange kDnsJobs) } := by
      simp only [State.step, idle, ↓reduceIte]
    have due : Due (w.step .sweep) k (w.jobs k) (List.finRange kDnsJobs) := by
      rw [begun]
      exact ⟨rfl, live, done, unreferenced, rfl, List.mem_finRange k⟩
    have within : (w.step .sweep).clock < 2 ^ 31 := by
      rw [begun]
      exact window
    exact due.swept (accounted_step accounted .sweep within).1 within during ended

/-- Job accounting holds in every state of every interleaving over a window
shorter than half the counter's range. -/
theorem dns_run_jobLaw (base : UInt32) (ops : List (Op n))
    (window : (({ base } : State n).run ops).clock < 2 ^ 31) :
    JobLaw (({ base } : State n).run ops) :=
  (accounted_run (accounted_start base) ops window).jobLaw window

/-- A client asked for the host `a` and the resolver is about to write `ok`, across
a wrap of the counter. -/
def pendingLookup : List (Op 1) :=
  [.tick 40, .accept 0 (.filled kBufSize 0) (.filled kBufSize 0) 5 500,
    .service 0 40 (.recv .client (.returns [5, 1, 0, 5, 1, 0, 3, 1, 97, 0, 80] .other)),
    .needConnect 0, .look .fails true, .poll, .task 0 ⟨true, 9⟩, .task 0 ⟨true, 9⟩]

theorem dns_run_jobLaw_pendingLookup :
    ((({ base := 4294967290 } : State 1).run pendingLookup).jobs ⟨0, by decide⟩).live = true ∧
      JobLaw (({ base := 4294967290 } : State 1).run pendingLookup) :=
  ⟨by decide +kernel, dns_run_jobLaw 4294967290 pendingLookup (by decide +kernel)⟩

end FryFirmware.Dns
