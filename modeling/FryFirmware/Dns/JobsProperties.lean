import FryFirmware.Dns.Jobs
import FryFirmware.Dns.CacheProperties
import FryFirmware.Lib.References

/-!
# The invariant of the job pool

References are counted, every pointer designates a live job of the right name,
a running resolver has its job to itself, and a job without a cached answer has
no unexpired cache entry.
-/

set_option autoImplicit false

namespace FryFirmware.Dns

open Lib Relay

variable {n : Nat}

/-- What the job holds before the task's next access. -/
def Prepared (job : DnsJob) : TaskPc → Prop
  | .resolve => job.ok = false
  | .writeIp addr => addr ≠ 0 ∧ job.ok = false
  | .writeOk => job.ip ≠ 0
  | .writeDone => job.ok = true → job.ip ≠ 0

/-- What a resolver may rely on while it runs. -/
structure Resolves (job : DnsJob) (task : Task) : Prop where
  live : job.live = true
  unfinished : job.done = false
  named : job.host = task.name
  prepared : Prepared job task.pc

structure Pooled (w : State n) : Prop where
  refs : ∀ k, (w.jobs k).refs = references w.job k
  live : ∀ i k, w.job i = some k → (w.jobs k).live = true
  named : ∀ k, (w.jobs k).live = true →
    (w.jobs k).host ≠ [] ∧ (w.jobs k).host.length < kDnsHostCap
  unique : ∀ k l, (w.jobs k).live = true → (w.jobs l).live = true →
    dnsHostEq (w.jobs k).host (w.jobs l).host = true → k = l
  settled : ∀ k, (w.jobs k).live = true → (w.jobs k).cached = true →
    (w.jobs k).done = true ∧ 0 < (w.jobs k).refs
  answered : ∀ k, (w.jobs k).live = true → (w.jobs k).done = true → (w.jobs k).ok = true →
    (w.jobs k).ip ≠ 0
  missing : ∀ k, (w.jobs k).live = true → (w.jobs k).cached = false →
    Missing w.cache (w.jobs k).host w.now
  dated : Dated w.cache w.base w.clock
  tasks : ∀ task ∈ w.tasks, Resolves (w.jobs task.job) task
  alone : (w.tasks.map Task.job).Nodup
  resolving : ∀ k, (w.jobs k).live = true → (w.jobs k).done = false →
    ∃ task ∈ w.tasks, task.job = k

/-- A live job stays, or it was finished and is free now. -/
def Retains (jobs after : DnsJobs) : Prop :=
  ∀ k, (jobs k).live = true →
    ((after k).live = true ∧ (after k).host = (jobs k).host) ∨
      ((after k).live = false ∧ (jobs k).done = true)

theorem Retains.refl (jobs : DnsJobs) : Retains jobs jobs :=
  fun _ live => .inl ⟨live, rfl⟩

theorem State.now_eq (w : State n) : w.now = clockAt w.base w.clock := rfl

/-! ## Resolver accesses -/

theorem Pooled.idle_of_done {w : State n} (pooled : Pooled w) {k : JobId}
    (done : (w.jobs k).done = true) : ∀ task ∈ w.tasks, task.job ≠ k := by
  intro task running same
  have unfinished := (pooled.tasks task running).unfinished
  rw [same, done] at unfinished
  cases unfinished

/-- An access of a resolver to its own job, as seen by the relay. -/
theorem advance_same (task : Task) (job : DnsJob) (answer : HostAnswer) :
    (task.advance job answer).1.host = job.host ∧ (task.advance job answer).1.live = job.live ∧
      (task.advance job answer).1.refs = job.refs ∧
      (task.advance job answer).1.cached = job.cached := by
  unfold Task.advance
  split <;> exact ⟨rfl, rfl, rfl, rfl⟩

/-- The task goes on with its job, or the job is done. -/
theorem advance_next {task : Task} {job : DnsJob} (resolves : Resolves job task)
    (answer : HostAnswer) :
    match (task.advance job answer).2 with
    | some next => next.job = task.job ∧ Resolves (task.advance job answer).1 next
    | none => (task.advance job answer).1.done = true ∧
        ((task.advance job answer).1.ok = true → (task.advance job answer).1.ip ≠ 0) := by
  obtain ⟨live, unfinished, named, prepared⟩ := resolves
  obtain ⟨id, name, pc⟩ := task
  cases pc with
  | resolve =>
      refine ⟨rfl, live, unfinished, named, ?_⟩
      have unset : job.ok = false := prepared
      by_cases found : (answer.ok && decide (answer.addr ≠ 0)) = true
      · have address : answer.addr ≠ 0 := by
          simp only [Bool.and_eq_true, decide_eq_true_eq] at found
          exact found.2
        simp only [found, ↓reduceIte]
        exact ⟨address, unset⟩
      · simp only [found, Bool.false_eq_true, ↓reduceIte]
        intro set
        rw [Task.advance] at set
        rw [unset] at set
        cases set
  | writeIp addr => exact ⟨rfl, live, unfinished, named, prepared.1⟩
  | writeOk => exact ⟨rfl, live, unfinished, named, fun _ => prepared⟩
  | writeDone => exact ⟨rfl, prepared⟩

/-- What only resolvers write may change; nothing finished is taken back. -/
structure Touches (jobs after : DnsJobs) : Prop where
  host : ∀ k, (after k).host = (jobs k).host
  live : ∀ k, (after k).live = (jobs k).live
  refs : ∀ k, (after k).refs = (jobs k).refs
  cached : ∀ k, (after k).cached = (jobs k).cached
  done : ∀ k, (jobs k).done = true → (after k).done = true

theorem Touches.retains {jobs after : DnsJobs} (touches : Touches jobs after) :
    Retains jobs after :=
  fun k live => .inl ⟨(touches.live k).trans live, touches.host k⟩

/-- The part of the invariant that does not look at what resolvers write. -/
theorem Pooled.touched {w : State n} {after : DnsJobs} {tasks : List Task} (pooled : Pooled w)
    (touches : Touches w.jobs after)
    (answered : ∀ k, (after k).live = true → (after k).done = true → (after k).ok = true →
      (after k).ip ≠ 0)
    (running : ∀ task ∈ tasks, Resolves (after task.job) task)
    (alone : (tasks.map Task.job).Nodup)
    (resolving : ∀ k, (after k).live = true → (after k).done = false →
      ∃ task ∈ tasks, task.job = k) :
    Pooled { w with jobs := after, tasks := tasks } where
  refs := fun k => (touches.refs k).trans (pooled.refs k)
  live := fun i k points => (touches.live k).trans (pooled.live i k points)
  named := by
    intro k
    rw [touches.live, touches.host]
    exact pooled.named k
  unique := by
    intro k l
    rw [touches.live, touches.live, touches.host, touches.host]
    exact pooled.unique k l
  settled := by
    intro k
    rw [touches.live, touches.cached, touches.refs]
    intro live cached
    obtain ⟨done, referenced⟩ := pooled.settled k live cached
    exact ⟨touches.done k done, referenced⟩
  answered := answered
  missing := by
    intro k
    rw [touches.live, touches.cached, touches.host]
    exact pooled.missing k
  dated := pooled.dated
  tasks := running
  alone := alone
  resolving := resolving

theorem touches_update {jobs : DnsJobs} {k : JobId} {job : DnsJob}
    (host : job.host = (jobs k).host) (live : job.live = (jobs k).live)
    (refs : job.refs = (jobs k).refs) (cached : job.cached = (jobs k).cached)
    (done : (jobs k).done = true → job.done = true) :
    Touches jobs (Function.update jobs k job) := by
  constructor <;> intro l <;> by_cases own : l = k
  all_goals first
    | (subst own; simpa only [Function.update_self] using by assumption)
    | simp [Function.update_of_ne own]

/-- With one resolver per job, the others are about other jobs. -/
theorem others_differ {front back : List Task} {task : Task}
    (alone : ((front ++ task :: back).map Task.job).Nodup) :
    ∀ other ∈ front ++ back, other.job ≠ task.job := by
  intro other present same
  have moved : ((task :: (front ++ back)).map Task.job).Nodup :=
    (List.perm_middle.map Task.job).nodup_iff.mp alone
  rw [List.map_cons, List.nodup_cons] at moved
  exact moved.1 (same ▸ List.mem_map_of_mem present)

/-- A resolver goes on or ends with what it makes of its job; the others stay. -/
theorem Pooled.replaced {w : State n} (pooled : Pooled w) {front back : List Task} {task : Task}
    (split : w.tasks = front ++ task :: back) {job : DnsJob}
    (touches : Touches w.jobs (Function.update w.jobs task.job job)) {more : Option Task}
    (goesOn : ∀ next ∈ more, next.job = task.job ∧ Resolves job next)
    (ends : more = none → job.done = true)
    (answered : job.done = true → job.ok = true → job.ip ≠ 0) :
    Pooled { w with
      jobs := Function.update w.jobs task.job job, tasks := front ++ (more.toList ++ back) } := by
  have alone := pooled.alone
  rw [split] at alone
  have differ := others_differ alone
  have elsewhere {k : JobId} (other : k ≠ task.job) :
      Function.update w.jobs task.job job k = w.jobs k := Function.update_of_ne other ..
  refine pooled.touched touches ?_ ?_ ?_ ?_
  · intro k
    by_cases own : k = task.job
    · subst own
      rw [Function.update_self]
      exact fun _ => answered
    · rw [elsewhere own]
      exact pooled.answered k
  · intro other present
    have either : other ∈ more ∨ other ∈ front ++ back := by
      simp only [List.mem_append, Option.mem_toList] at present ⊢
      exact or_left_comm.mp present
    rcases either with next | others
    · obtain ⟨sameJob, resolves⟩ := goesOn other next
      rw [sameJob, Function.update_self]
      exact resolves
    · rw [elsewhere (differ other others)]
      refine pooled.tasks other ?_
      rw [split]
      exact (List.mem_append.mp others).elim (List.mem_append_left _)
        fun later => List.mem_append_right _ (List.mem_cons_of_mem _ later)
  · cases more with
    | none =>
        have moved := (List.perm_middle.map Task.job).nodup_iff.mp alone
        rw [List.map_cons, List.nodup_cons] at moved
        exact moved.2
    | some next => simpa [(goesOn next rfl).1] using alone
  · intro k
    by_cases own : k = task.job
    · subst own
      rw [Function.update_self]
      intro _ unfinished
      cases more with
      | none =>
          rw [ends rfl] at unfinished
          cases unfinished
      | some next => exact ⟨next, by simp, (goesOn next rfl).1⟩
    · rw [elsewhere own]
      intro live unfinished
      obtain ⟨other, present, about⟩ := pooled.resolving k live unfinished
      have notThis : other ≠ task := fun this => own (about.symm.trans (this ▸ rfl))
      rw [split] at present
      refine ⟨other, ?_, about⟩
      rcases List.mem_append.mp present with earlier | later
      · exact List.mem_append_left _ earlier
      · have after := (List.mem_cons.mp later).resolve_left notThis
        exact List.mem_append_right _ (List.mem_append_right _ after)

theorem pooled_taskStep {w : State n} (pooled : Pooled w) (index : Nat) (answer : HostAnswer) :
    Pooled (w.taskStep index answer) ∧ Touches w.jobs (w.taskStep index answer).jobs := by
  unfold State.taskStep
  cases selected : w.tasks[index]? with
  | none => exact ⟨pooled, ⟨fun _ => rfl, fun _ => rfl, fun _ => rfl, fun _ => rfl, fun _ => id⟩⟩
  | some task =>
      obtain ⟨inside, same⟩ := List.getElem?_eq_some_iff.mp selected
      have resolves := pooled.tasks task (List.mem_of_getElem? selected)
      obtain ⟨host, live, refs, cached⟩ := advance_same task (w.jobs task.job) answer
      have goes := advance_next resolves answer
      have touches : Touches w.jobs (Function.update w.jobs task.job
          (task.advance (w.jobs task.job) answer).1) :=
        touches_update host live refs cached (by simp [resolves.unfinished])
      have split : w.tasks = w.tasks.take index ++ task :: w.tasks.drop (index + 1) := by
        rw [← same, ← List.drop_eq_getElem_cons inside, List.take_append_drop]
      refine ⟨?_, touches⟩
      dsimp only
      cases moved : (task.advance (w.jobs task.job) answer).2 with
      | some next =>
          rw [moved] at goes
          have changed : w.tasks.set index next =
              w.tasks.take index ++ ((some next).toList ++ w.tasks.drop (index + 1)) :=
            List.set_eq_take_append_cons_drop.trans (if_pos inside)
          dsimp only
          rw [changed]
          refine pooled.replaced split touches ?_ (fun none => by cases none) fun done => ?_
          · intro other member
            obtain rfl := Option.some.inj member
            exact goes
          · rw [goes.2.unfinished] at done
            cases done
      | none =>
          rw [moved] at goes
          have nobody : ∀ next ∈ (none : Option Task), next.job = task.job ∧
              Resolves (task.advance (w.jobs task.job) answer).1 next := fun _ none => by cases none
          dsimp only
          rw [List.eraseIdx_eq_take_drop_succ]
          exact pooled.replaced split touches nobody (fun _ => goes.1) fun _ => goes.2

/-! ## Settling an answer -/

/-- What a finished job has to say: its address, or zero for a failure. -/
def DnsJob.answer (job : DnsJob) : UInt32 := if job.ok then job.ip else 0

theorem missing_settle {cache : DnsCache} {job : DnsJob} {host : Host} {now : UInt32}
    (missing : Missing cache host now) (differ : dnsHostEq job.host host = false) :
    Missing (DnsJobs.settle job cache now kDnsTtlMs kDnsFailTtlMs) host now := by
  unfold DnsJobs.settle DnsCache.store DnsCache.storeFailure
  repeat' split
  · exact missing
  · exact missing.put differ
  · exact missing.put differ

theorem dated_settle {cache : DnsCache} {base : UInt32} {elapsed : Nat}
    (dated : Dated cache base elapsed) (job : DnsJob) :
    Dated (DnsJobs.settle job cache (clockAt base elapsed) kDnsTtlMs kDnsFailTtlMs) base elapsed := by
  unfold DnsJobs.settle DnsCache.store DnsCache.storeFailure
  repeat' split
  · exact dated
  · exact dated.put _ _ (by decide)
  · exact dated.put _ _ (by decide)

theorem settle_answers {cache : DnsCache} {job : DnsJob} {now : UInt32}
    (missing : Missing cache job.host now) (named : job.host ≠ [])
    (fits : job.host.length < kDnsHostCap) (address : job.ok = true → job.ip ≠ 0) :
    (DnsJobs.settle job cache now kDnsTtlMs kDnsFailTtlMs).answers job.host now job.answer := by
  unfold DnsJobs.settle DnsJob.answer DnsCache.store DnsCache.storeFailure
  cases resolved : job.ok with
  | true =>
      simp only [↓reduceIte, address resolved]
      exact put_answers job.ip missing named fits (by decide) (by decide)
  | false =>
      simp only [Bool.false_eq_true, ↓reduceIte]
      exact put_answers 0 missing named fits (by decide) (by decide)

/-! ## Giving references back -/

/-- The job lost references at most, and may have been cached. -/
structure Shrinks (job after : DnsJob) : Prop where
  live : after.live = true
  host : after.host = job.host
  ip : after.ip = job.ip
  ok : after.ok = job.ok
  done : after.done = job.done
  cached : after.cached = true → job.done = true ∧ 0 < after.refs

/-- One job changes under the relay's hands: it shrinks, or it was finished and
is freed without a reference. -/
structure Gives (w : State n) (k : JobId) (after : DnsJob) (held : Fin n → Option JobId)
    (cache : DnsCache) : Prop where
  live : (w.jobs k).live = true
  pointers : ∀ i l, held i = some l → w.job i = some l
  refs : after.refs = references held k
  others : ∀ l, l ≠ k → references held l = references w.job l
  record : Shrinks (w.jobs k) after ∨
    (after.live = false ∧ (w.jobs k).done = true ∧ references held k = 0)
  dated : Dated cache w.base w.clock
  missing : ∀ l, l ≠ k → (w.jobs l).live = true → (w.jobs l).cached = false →
    Missing cache (w.jobs l).host w.now
  missingOwn : after.live = true → after.cached = false → Missing cache after.host w.now

theorem Gives.retains {w : State n} {k : JobId} {after : DnsJob} {held : Fin n → Option JobId}
    {cache : DnsCache} (gives : Gives w k after held cache) :
    Retains w.jobs (Function.update w.jobs k after) := by
  intro l live
  by_cases own : l = k
  · subst own
    rw [Function.update_self]
    rcases gives.record with shrinks | ⟨dead, done, _⟩
    · exact .inl ⟨shrinks.live, shrinks.host⟩
    · exact .inr ⟨dead, done⟩
  · rw [Function.update_of_ne own]
    exact .inl ⟨live, rfl⟩

/-- A job of the pool after the change, told apart from the others. -/
theorem Gives.cases {w : State n} {k : JobId} {after : DnsJob} {held : Fin n → Option JobId}
    {cache : DnsCache} (gives : Gives w k after held cache) {l : JobId}
    (live : (Function.update w.jobs k after l).live = true) :
    (w.jobs l).live = true ∧ (Function.update w.jobs k after l).host = (w.jobs l).host ∧
      (Function.update w.jobs k after l).ip = (w.jobs l).ip ∧
      (Function.update w.jobs k after l).ok = (w.jobs l).ok ∧
      (Function.update w.jobs k after l).done = (w.jobs l).done := by
  by_cases own : l = k
  · subst own
    rw [Function.update_self] at live ⊢
    rcases gives.record with shrinks | ⟨dead, _⟩
    · exact ⟨gives.live, shrinks.host, shrinks.ip, shrinks.ok, shrinks.done⟩
    · rw [dead] at live
      cases live
  · rw [Function.update_of_ne own] at live ⊢
    exact ⟨live, rfl, rfl, rfl, rfl⟩

theorem Pooled.given {w : State n} (pooled : Pooled w) {k : JobId} {after : DnsJob}
    {held : Fin n → Option JobId} {cache : DnsCache} (gives : Gives w k after held cache) :
    Pooled { w with jobs := Function.update w.jobs k after, job := held, cache := cache } where
  refs := by
    intro l
    by_cases own : l = k
    · subst own
      simpa only [Function.update_self] using gives.refs
    · simp only [Function.update_of_ne own]
      exact (pooled.refs l).trans (gives.others l own).symm
  live := by
    intro i l points
    have was := gives.pointers i l points
    by_cases own : l = k
    · subst own
      simp only [Function.update_self]
      rcases gives.record with shrinks | ⟨_, _, unreferenced⟩
      · exact shrinks.live
      · exact absurd points (references_eq_zero_iff.mp unreferenced i)
    · simp only [Function.update_of_ne own]
      exact pooled.live i l was
  named := by
    intro l live
    obtain ⟨was, host, _⟩ := gives.cases live
    rw [host]
    exact pooled.named l was
  unique := by
    intro l m liveL liveM same
    obtain ⟨wasL, hostL, _⟩ := gives.cases liveL
    obtain ⟨wasM, hostM, _⟩ := gives.cases liveM
    rw [hostL, hostM] at same
    exact pooled.unique l m wasL wasM same
  settled := by
    intro l live cached
    by_cases own : l = k
    · subst own
      simp only [Function.update_self] at live cached ⊢
      rcases gives.record with shrinks | ⟨dead, _⟩
      · rw [shrinks.done]
        exact shrinks.cached cached
      · rw [dead] at live
        cases live
    · simp only [Function.update_of_ne own] at live cached ⊢
      exact pooled.settled l live cached
  answered := by
    intro l live
    obtain ⟨was, _, ip, ok, done⟩ := gives.cases live
    rw [ip, ok, done]
    exact pooled.answered l was
  missing := by
    intro l live
    by_cases own : l = k
    · subst own
      simp only [Function.update_self] at live ⊢
      exact gives.missingOwn live
    · simp only [Function.update_of_ne own] at live ⊢
      exact gives.missing l own live
  dated := gives.dated
  tasks := by
    intro task running
    have resolves := pooled.tasks task running
    by_cases own : task.job = k
    · simp only [own, Function.update_self]
      rw [own] at resolves
      rcases gives.record with shrinks | ⟨_, done, _⟩
      · refine ⟨shrinks.live, shrinks.done.trans resolves.unfinished,
          shrinks.host.trans resolves.named, ?_⟩
        have prepared := resolves.prepared
        cases pc : task.pc <;> rw [pc] at prepared <;>
          simpa only [Prepared, shrinks.ok, shrinks.ip] using prepared
      · rw [resolves.unfinished] at done
        cases done
    · simp only [Function.update_of_ne own]
      exact resolves
  alone := pooled.alone
  resolving := by
    intro l live
    obtain ⟨was, _, _, _, done⟩ := gives.cases live
    rw [done]
    exact pooled.resolving l was

/-- The answer reaches the cache, unless it is there already. -/
def settledCache (w : State n) (k : JobId) : DnsCache :=
  if (w.jobs k).cached then w.cache
  else DnsJobs.settle (w.jobs k) w.cache w.now kDnsTtlMs kDnsFailTtlMs

theorem Pooled.dated_settled {w : State n} (pooled : Pooled w) (k : JobId) :
    Dated (settledCache w k) w.base w.clock := by
  unfold settledCache
  split
  · exact pooled.dated
  · rw [State.now_eq]
    exact dated_settle pooled.dated _

/-- Settling one job leaves every other unsettled name missing. -/
theorem Pooled.missing_settled {w : State n} (pooled : Pooled w) {k l : JobId}
    (live : (w.jobs k).live = true) (other : l ≠ k) (alive : (w.jobs l).live = true)
    (uncached : (w.jobs l).cached = false) : Missing (settledCache w k) (w.jobs l).host w.now := by
  have missing := pooled.missing l alive uncached
  unfold settledCache
  split
  · exact missing
  · apply missing_settle missing
    cases same : dnsHostEq (w.jobs k).host (w.jobs l).host with
    | false => rfl
    | true => exact absurd (pooled.unique k l live alive same).symm other

theorem Pooled.held {w : State n} (pooled : Pooled w) {i : Fin n} {k : JobId}
    (points : w.job i = some k) :
    (w.jobs k).live = true ∧ 0 < (w.jobs k).refs ∧
      references (Function.update w.job i none) k = (w.jobs k).refs - 1 ∧
      ∀ l, l ≠ k → references (Function.update w.job i none) l = references w.job l := by
  refine ⟨pooled.live i k points, ?_, ?_, ?_⟩
  · rw [pooled.refs]
    exact references_pos points
  · rw [references_drop points, if_pos rfl, pooled.refs]
  · intro l other
    rw [references_drop points, if_neg (Ne.symm other), Nat.sub_zero]

theorem dropped_pointers {held : Fin n → Option JobId} {i : Fin n} (j : Fin n) (l : JobId)
    (points : Function.update held i none j = some l) : held j = some l := by
  by_cases own : j = i
  · subst own
    simp at points
  · rwa [Function.update_of_ne own] at points

/-- `finishSlot` settles a finished job and drops the slot's reference. -/
theorem settleSlot_done {w : State n} (pooled : Pooled w) {i : Fin n} {k : JobId}
    (points : w.job i = some k) (done : (w.jobs k).done = true) :
    w.settleSlot i = { w with
      jobs := Function.update w.jobs k
        (if (w.jobs k).refs = 1 then {}
          else { w.jobs k with cached := true, refs := (w.jobs k).refs - 1 })
      job := Function.update w.job i none
      cache := settledCache w k } := by
  obtain ⟨live, referenced, _⟩ := pooled.held points
  have some : ¬ (w.jobs k).refs = 0 := by omega
  have last : (w.jobs k).refs - 1 = 0 ↔ (w.jobs k).refs = 1 := by omega
  unfold State.settleSlot DnsJobs.finishSlot DnsJobs.finish settledCache
  rw [points]
  cases cached : (w.jobs k).cached with
  | true =>
      by_cases one : (w.jobs k).refs = 1 <;>
        simp [live, done, cached, DnsJobs.release, DnsJobs.freeSlot, last, one, some]
  | false =>
      by_cases one : (w.jobs k).refs = 1 <;>
        simp [live, done, cached, DnsJobs.release, DnsJobs.freeSlot, last, one, some]

/-- Without a finished job `finishSlot` changes nothing. -/
theorem settleSlot_waiting {w : State n} {i : Fin n}
    (waiting : ∀ k, w.job i = some k → (w.jobs k).done = false) : w.settleSlot i = w := by
  unfold State.settleSlot DnsJobs.finishSlot DnsJobs.finish
  cases points : w.job i with
  | none => simp [← points]
  | some k => simp [waiting k points, ← points]

theorem finished_or_waiting (w : State n) (i : Fin n) :
    (∃ k, w.job i = some k ∧ (w.jobs k).done = true) ∨
      ∀ k, w.job i = some k → (w.jobs k).done = false := by
  cases w.job i with
  | none => exact .inr fun k same => by cases same
  | some k =>
      cases done : (w.jobs k).done with
      | true => exact .inl ⟨k, rfl, done⟩
      | false =>
          refine .inr fun l same => ?_
          cases same
          exact done

theorem pooled_settleSlot {w : State n} (pooled : Pooled w) (i : Fin n) :
    Pooled (w.settleSlot i) ∧ Retains w.jobs (w.settleSlot i).jobs := by
  rcases finished_or_waiting w i with ⟨k, points, done⟩ | waiting
  · obtain ⟨live, referenced, own, others⟩ := pooled.held points
    have gives : Gives w k
        (if (w.jobs k).refs = 1 then {}
          else { w.jobs k with cached := true, refs := (w.jobs k).refs - 1 })
        (Function.update w.job i none) (settledCache w k) := by
      refine ⟨live, dropped_pointers, ?_, others, ?_, pooled.dated_settled k,
        fun l other => pooled.missing_settled live other, ?_⟩
      · rw [own]
        split
        · rename_i one
          rw [one]
        · rfl
      · split
        · rename_i one
          exact .inr ⟨rfl, done, by rw [own, one]⟩
        · exact .inl ⟨live, rfl, rfl, rfl, rfl, fun _ => ⟨done, by dsimp only; omega⟩⟩
      · split
        · intro dead
          cases dead
        · intro _ uncached
          cases uncached
    rw [settleSlot_done pooled points done]
    exact ⟨pooled.given gives, gives.retains⟩
  · rw [settleSlot_waiting waiting]
    exact ⟨pooled, .refl w.jobs⟩

/-- `dnsDropSlot` gives the reference of a slot back. -/
theorem dnsDropSlot_some {w : State n} (pooled : Pooled w) {i : Fin n} {k : JobId}
    (points : w.job i = some k) :
    w.dnsDropSlot i = { w with
      jobs := Function.update w.jobs k
        (if (w.jobs k).refs = 1 ∧ (w.jobs k).cached = true then {}
          else { w.jobs k with refs := (w.jobs k).refs - 1 })
      job := Function.update w.job i none
      cache := w.cache } := by
  obtain ⟨live, referenced, _⟩ := pooled.held points
  have some : ¬ (w.jobs k).refs = 0 := by omega
  have last : (w.jobs k).refs - 1 = 0 ↔ (w.jobs k).refs = 1 := by omega
  unfold State.dnsDropSlot DnsJobs.release
  rw [points]
  by_cases freed : (w.jobs k).refs = 1 ∧ (w.jobs k).cached = true
  · simp [live, DnsJobs.freeSlot, freed.1, freed.2]
  · have kept : ¬ ((w.jobs k).refs = 1 ∧ (w.jobs k).cached = true) := freed
    simp only [live, Bool.not_true, some, decide_false, Bool.or_self, Bool.false_eq_true, ↓reduceIte,
      Function.update_self, last, Bool.and_eq_true, decide_eq_true_eq, kept]

theorem pooled_dnsDropSlot {w : State n} (pooled : Pooled w) (i : Fin n) :
    Pooled (w.dnsDropSlot i) ∧ Retains w.jobs (w.dnsDropSlot i).jobs := by
  cases points : w.job i with
  | none =>
      have same : w.dnsDropSlot i = w := by
        have nothing : Function.update w.job i none = w.job := by
          rw [← points, Function.update_eq_self]
        unfold State.dnsDropSlot
        rw [nothing, points]
        rfl
      rw [same]
      exact ⟨pooled, .refl w.jobs⟩
  | some k =>
      obtain ⟨live, referenced, own, others⟩ := pooled.held points
      have gives : Gives w k
          (if (w.jobs k).refs = 1 ∧ (w.jobs k).cached = true then {}
            else { w.jobs k with refs := (w.jobs k).refs - 1 })
          (Function.update w.job i none) w.cache := by
        refine ⟨live, dropped_pointers, ?_, others, ?_, pooled.dated,
          fun l _ => pooled.missing l, ?_⟩
        · rw [own]
          split
          · rename_i last
            rw [last.1]
          · rfl
        · split
          · rename_i last
            exact .inr ⟨rfl, (pooled.settled k live last.2).1, by rw [own, last.1]⟩
          · rename_i more
            refine .inl ⟨live, rfl, rfl, rfl, rfl, fun cached => ?_⟩
            have several : (w.jobs k).refs ≠ 1 := fun one => more ⟨one, cached⟩
            exact ⟨(pooled.settled k live cached).1, by dsimp only; omega⟩
        · split
          · intro dead
            cases dead
          · exact fun _ => pooled.missing k live
      rw [dnsDropSlot_some pooled points]
      exact ⟨pooled.given gives, gives.retains⟩

/-- One turn of `sweep` on a finished job. -/
theorem sweepJob_done {w : State n} {k : JobId} (live : (w.jobs k).live = true)
    (done : (w.jobs k).done = true) :
    DnsJobs.sweepJob w.jobs k w.cache w.now kDnsTtlMs kDnsFailTtlMs =
      (Function.update w.jobs k
        (if (w.jobs k).refs = 0 then {} else { w.jobs k with cached := true }),
        settledCache w k) := by
  unfold DnsJobs.sweepJob DnsJobs.finish settledCache
  cases cached : (w.jobs k).cached with
  | true =>
      have same : { w.jobs k with cached := true } = w.jobs k := by rw [← cached]
      by_cases unreferenced : (w.jobs k).refs = 0
      · simp [live, done, cached, DnsJobs.freeSlot, unreferenced]
      · rw [same, Function.update_eq_self_iff.mpr]
        · simp [live, done, cached, unreferenced]
        · simp [unreferenced]
  | false =>
      by_cases unreferenced : (w.jobs k).refs = 0 <;>
        simp [live, done, cached, DnsJobs.freeSlot, unreferenced]

/-- A job that is not finished, or not live, has no turn. -/
theorem sweepJob_waiting {w : State n} (pooled : Pooled w) {k : JobId}
    (waiting : (w.jobs k).live = true → (w.jobs k).done = false) :
    DnsJobs.sweepJob w.jobs k w.cache w.now kDnsTtlMs kDnsFailTtlMs = (w.jobs, w.cache) := by
  unfold DnsJobs.sweepJob DnsJobs.finish
  cases live : (w.jobs k).live with
  | false => simp
  | true =>
      have unfinished := waiting live
      have uncached : (w.jobs k).cached = false := by
        cases cached : (w.jobs k).cached with
        | false => rfl
        | true =>
            rw [(pooled.settled k live cached).1] at unfinished
            cases unfinished
      simp [live, unfinished, uncached]

theorem pooled_sweepJob {w : State n} (pooled : Pooled w) (k : JobId) :
    Pooled { w with
      jobs := (DnsJobs.sweepJob w.jobs k w.cache w.now kDnsTtlMs kDnsFailTtlMs).1
      cache := (DnsJobs.sweepJob w.jobs k w.cache w.now kDnsTtlMs kDnsFailTtlMs).2 } ∧
      Retains w.jobs (DnsJobs.sweepJob w.jobs k w.cache w.now kDnsTtlMs kDnsFailTtlMs).1 := by
  by_cases finished : (w.jobs k).live = true ∧ (w.jobs k).done = true
  · obtain ⟨live, done⟩ := finished
    have gives : Gives w k (if (w.jobs k).refs = 0 then {} else { w.jobs k with cached := true })
        w.job (settledCache w k) := by
      refine ⟨live, fun _ _ => id, ?_, fun _ _ => rfl, ?_, pooled.dated_settled k,
        fun l other => pooled.missing_settled live other, ?_⟩
      · rw [← pooled.refs]
        split
        · rename_i zero
          exact zero.symm
        · rfl
      · split
        · rename_i zero
          exact .inr ⟨rfl, done, by rw [← pooled.refs, zero]⟩
        · exact .inl ⟨live, rfl, rfl, rfl, rfl, fun _ => ⟨done, by dsimp only; omega⟩⟩
      · split
        · intro dead
          cases dead
        · intro _ uncached
          cases uncached
    rw [sweepJob_done live done]
    exact ⟨pooled.given gives, gives.retains⟩
  · rw [sweepJob_waiting pooled]
    · exact ⟨pooled, .refl w.jobs⟩
    · intro live
      cases done : (w.jobs k).done with
      | false => rfl
      | true => exact absurd ⟨live, done⟩ finished

/-! ## Taking references -/

/-- A slot without a job joins a live one. -/
theorem Pooled.attached {w : State n} (pooled : Pooled w) {i : Fin n} {k : JobId}
    (free : w.job i = none) (live : (w.jobs k).live = true) :
    Pooled { w with
      jobs := Function.update w.jobs k { w.jobs k with refs := (w.jobs k).refs + 1 }
      job := Function.update w.job i (some k) } := by
  have same : ∀ l, (Function.update w.jobs k { w.jobs k with refs := (w.jobs k).refs + 1 } l) =
      { w.jobs l with refs := (w.jobs l).refs + if k = l then 1 else 0 } := by
    intro l
    by_cases own : l = k
    · subst own
      simp
    · rw [Function.update_of_ne own, if_neg (Ne.symm own)]
      rfl
  refine ⟨?_, ?_, ?_, ?_, ?_, ?_, ?_, pooled.dated, ?_, pooled.alone, ?_⟩
  · intro l
    dsimp only
    rw [same, references_take free, ← pooled.refs]
  · intro j l points
    dsimp only at points ⊢
    rw [same]
    by_cases own : j = i
    · subst own
      rw [Function.update_self] at points
      cases points
      exact live
    · rw [Function.update_of_ne own] at points
      exact pooled.live j l points
  · intro l
    dsimp only
    rw [same]
    exact pooled.named l
  · intro l m
    dsimp only
    rw [same, same]
    exact pooled.unique l m
  · intro l
    dsimp only
    rw [same]
    intro alive cached
    obtain ⟨done, referenced⟩ := pooled.settled l alive cached
    exact ⟨done, Nat.lt_of_lt_of_le referenced (Nat.le_add_right _ _)⟩
  · intro l
    dsimp only
    rw [same]
    exact pooled.answered l
  · intro l
    dsimp only
    rw [same]
    exact pooled.missing l
  · intro task running
    dsimp only
    rw [same]
    obtain ⟨alive, unfinished, named, prepared⟩ := pooled.tasks task running
    refine ⟨alive, unfinished, named, ?_⟩
    cases pc : task.pc <;> rw [pc] at prepared <;> exact prepared
  · intro l
    dsimp only
    rw [same]
    exact pooled.resolving l

/-- A new job in a free place, with its resolver or already failed. -/
theorem Pooled.created {w : State n} (pooled : Pooled w) {i : Fin n} {k : JobId} {host : Host}
    (free : w.job i = none) (dead : (w.jobs k).live = false) (named : host ≠ [])
    (fits : host.length < kDnsHostCap) (missing : Missing w.cache host w.now)
    (unknown : ∀ l, (w.jobs l).live = true → dnsHostEq (w.jobs l).host host = false)
    (started : Bool) :
    Pooled { w with
      jobs := Function.update w.jobs k
        { host, done := !started, refs := 1, live := true }
      job := Function.update w.job i (some k)
      tasks := if started then w.tasks ++ [⟨k, host, .resolve⟩] else w.tasks } := by
  have unpointed : ∀ j, w.job j ≠ some k := by
    intro j points
    rw [pooled.live j k points] at dead
    cases dead
  have unresolved : ∀ task ∈ w.tasks, task.job ≠ k := by
    intro task running same
    have alive := (pooled.tasks task running).live
    rw [same, dead] at alive
    cases alive
  refine ⟨?_, ?_, ?_, ?_, ?_, ?_, ?_, pooled.dated, ?_, ?_, ?_⟩
  · intro l
    dsimp only
    rw [references_take free]
    by_cases own : l = k
    · subst own
      rw [Function.update_self, references_eq_zero_iff.mpr unpointed, if_pos rfl]
    · rw [Function.update_of_ne own, if_neg (Ne.symm own), ← pooled.refs, Nat.add_zero]
  · intro j l points
    dsimp only at points ⊢
    by_cases own : l = k
    · subst own
      rw [Function.update_self]
    · rw [Function.update_of_ne own]
      by_cases mine : j = i
      · subst mine
        rw [Function.update_self] at points
        cases points
        exact absurd rfl own
      · rw [Function.update_of_ne mine] at points
        exact pooled.live j l points
  · intro l
    dsimp only
    by_cases own : l = k
    · subst own
      rw [Function.update_self]
      exact fun _ => ⟨named, fits⟩
    · rw [Function.update_of_ne own]
      exact pooled.named l
  · intro l m
    dsimp only
    by_cases ownL : l = k
    · by_cases ownM : m = k
      · exact fun _ _ _ => ownL.trans ownM.symm
      · subst ownL
        rw [Function.update_self, Function.update_of_ne ownM]
        intro _ alive same
        rw [dnsHostEq_iff] at same
        have differ := unknown m alive
        rw [dnsHostEq_iff.mpr same.symm] at differ
        cases differ
    · by_cases ownM : m = k
      · subst ownM
        rw [Function.update_self, Function.update_of_ne ownL]
        intro alive _ same
        rw [unknown l alive] at same
        cases same
      · rw [Function.update_of_ne ownL, Function.update_of_ne ownM]
        exact pooled.unique l m
  · intro l
    dsimp only
    by_cases own : l = k
    · subst own
      rw [Function.update_self]
      intro _ cached
      cases cached
    · rw [Function.update_of_ne own]
      exact pooled.settled l
  · intro l
    dsimp only
    by_cases own : l = k
    · subst own
      rw [Function.update_self]
      intro _ _ resolved
      cases resolved
    · rw [Function.update_of_ne own]
      exact pooled.answered l
  · intro l
    dsimp only
    by_cases own : l = k
    · subst own
      rw [Function.update_self]
      exact fun _ _ => missing
    · rw [Function.update_of_ne own]
      exact pooled.missing l
  · intro task running
    dsimp only at running ⊢
    have old : task ∈ w.tasks → Resolves
        (Function.update w.jobs k { host, done := !started, refs := 1, live := true } task.job)
        task := by
      intro before
      rw [Function.update_of_ne (unresolved task before)]
      exact pooled.tasks task before
    cases started with
    | false => exact old running
    | true =>
        rcases List.mem_append.mp running with before | fresh
        · exact old before
        · rw [List.mem_singleton] at fresh
          subst fresh
          rw [Function.update_self]
          exact ⟨rfl, rfl, rfl, rfl⟩
  · dsimp only
    cases started with
    | false => exact pooled.alone
    | true =>
        simp only [↓reduceIte, List.map_append, List.map_cons, List.map_nil]
        rw [List.nodup_append_comm, List.singleton_append, List.nodup_cons]
        refine ⟨?_, pooled.alone⟩
        intro present
        obtain ⟨task, running, same⟩ := List.mem_map.mp present
        exact unresolved task running same
  · intro l
    dsimp only
    by_cases own : l = k
    · subst own
      rw [Function.update_self]
      intro _ unfinished
      cases started with
      | false => cases unfinished
      | true => exact ⟨⟨l, host, .resolve⟩, by simp, rfl⟩
    · rw [Function.update_of_ne own]
      intro alive unfinished
      obtain ⟨task, running, about⟩ := pooled.resolving l alive unfinished
      refine ⟨task, ?_, about⟩
      split
      · exact List.mem_append_left _ running
      · exact running

theorem find_live {jobs : DnsJobs} {host : Host} {k : JobId}
    (found : DnsJobs.find jobs host = some k) :
    (jobs k).live = true ∧ dnsHostEq (jobs k).host host = true := by
  unfold DnsJobs.find at found
  split at found
  · cases found
  · have holds := List.find?_some found
    simpa only [Bool.and_eq_true] using holds

theorem find_none {jobs : DnsJobs} {host : Host} (named : host ≠ [])
    (absent : DnsJobs.find jobs host = none) :
    ∀ l, (jobs l).live = true → dnsHostEq (jobs l).host host = false := by
  intro l live
  unfold DnsJobs.find at absent
  rw [if_neg named] at absent
  have differ := List.find?_eq_none.mp absent l (List.mem_finRange l)
  simpa [live] using differ

/-- Slots and control are no part of the pool. -/
theorem Pooled.frame {w : State n} (pooled : Pooled w) (slots : Fin n → Option Slot)
    (control : Control n) : Pooled { w with slots := slots, control := control } :=
  ⟨pooled.refs, pooled.live, pooled.named, pooled.unique, pooled.settled, pooled.answered,
    pooled.missing, pooled.dated, pooled.tasks, pooled.alone, pooled.resolving⟩

/-- What `beginJob` leaves behind: no pointer, or one to a live job of the name. -/
theorem pooled_beginJob {w : State n} (pooled : Pooled w) {i : Fin n} {host : Host}
    (free : w.job i = none) (missing : host ≠ [] → Missing w.cache host w.now) (started : Bool) :
    Pooled (w.beginJob i host started) ∧ Retains w.jobs (w.beginJob i host started).jobs ∧
      (∀ j, j ≠ i → (w.beginJob i host started).job j = w.job j) ∧
      (((w.beginJob i host started).job i = none ∧
          (w.beginJob i host started).control = .idle) ∨
        ∃ k, (w.beginJob i host started).job i = some k ∧
          (w.beginJob i host started).control = .polling i ∧
          dnsHostEq host ((w.beginJob i host started).jobs k).host = true) := by
  have elsewhere : ∀ target : Option JobId, ∀ j, j ≠ i →
      Function.update w.job i target j = w.job j :=
    fun _ _ other => Function.update_of_ne other ..
  have unchanged : Function.update w.job i none = w.job := by
    rw [← free, Function.update_eq_self]
  unfold State.beginJob DnsJobs.begin
  cases found : DnsJobs.find w.jobs host with
  | some k =>
      obtain ⟨live, same⟩ := find_live found
      refine ⟨(pooled.attached free live).frame w.slots (.polling i), ?_, elsewhere _, .inr ?_⟩
      · intro l alive
        left
        dsimp only
        by_cases own : l = k
        · subst own
          simp [alive]
        · simp [own, alive]
      · refine ⟨k, by simp, rfl, ?_⟩
        simp only [Bool.false_eq_true, ↓reduceIte, Function.update_self]
        rw [dnsHostEq_iff] at same ⊢
        exact same.symm
  | none =>
      by_cases empty : host = []
      · simp only [empty, ↓reduceIte, unchanged]
        exact ⟨pooled.frame w.slots .idle, .refl _, fun _ _ => trivial, .inl ⟨free, trivial⟩⟩
      by_cases long : host.length ≥ kDnsHostCap
      · simp only [empty, long, ↓reduceIte, unchanged]
        exact ⟨pooled.frame w.slots .idle, .refl _, fun _ _ => trivial, .inl ⟨free, trivial⟩⟩
      simp only [empty, long, ↓reduceIte]
      cases place : (List.finRange kDnsJobs).find? fun k => !(w.jobs k).live with
      | none =>
          simp only [unchanged]
          exact ⟨pooled.frame w.slots .idle, .refl _, fun _ _ => trivial, .inl ⟨free, trivial⟩⟩
      | some k =>
          have dead : (w.jobs k).live = false := by
            simpa using List.find?_some place
          have created := pooled.created free dead empty (by omega) (missing empty)
            (find_none empty found) started
          have retains : Retains w.jobs (Function.update w.jobs k
              { host, done := !started, refs := 1, live := true }) := by
            intro l alive
            have own : l ≠ k := by
              intro same
              rw [same, dead] at alive
              cases alive
            rw [Function.update_of_ne own]
            exact .inl ⟨alive, rfl⟩
          have same : dnsHostEq host host = true := dnsHostEq_iff.mpr rfl
          cases started with
          | true =>
              simp only [State.dnsStart, ↓reduceIte, Function.update_self]
              exact ⟨created.frame w.slots (.polling i), retains, elsewhere _,
                .inr ⟨k, rfl, trivial, by simpa using same⟩⟩
          | false =>
              simp only [State.dnsStart, ↓reduceIte, Function.update_self, Bool.false_eq_true,
                Function.update_idem]
              exact ⟨created.frame w.slots (.polling i), retains, elsewhere _,
                .inr ⟨k, rfl, trivial, by simpa using same⟩⟩

end FryFirmware.Dns
