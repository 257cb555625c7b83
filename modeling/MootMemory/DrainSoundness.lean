import MootMemory.DrainWorld
import MootMemory.ReferenceCorpus

namespace MootMemory

variable {sub : CorpusSubstrate} {setup : DrainSetup}

namespace IngestQueue

variable {queue : IngestQueue} {succeeded : List (List IngestItem)}
  {fromSlice : Blob → Option IngestJob}

/-- Every row was there with its status, or is new, or has an answer that it may have. -/
structure Settles (fromSlice : Blob → Option IngestJob) (succeeded : List (List IngestItem))
    (queue queue' : IngestQueue) : Prop where
  nextSession : queue'.nextSession = queue.nextSession
  known : ∀ job ∈ queue.known, job ∈ queue'.known
  rows : ∀ row ∈ queue'.jobs.rows, row ∈ queue.jobs.rows ∨ row.status = .new ∨
    ∃ status, row.status = .answered status ∧
      (status = .done → row.job.Ingested fromSlice succeeded)

theorem Settles.refl (queue : IngestQueue) : Settles fromSlice succeeded queue queue :=
  ⟨rfl, fun _ h => h, fun _ h => Or.inl h⟩

theorem settles_replyBatch {completions : List (Job × ObservationStatus)}
    (h : ∀ completion ∈ completions, completion.1 ∈ queue.known ∧
      (completion.2 = .done → completion.1.Ingested fromSlice succeeded)) :
    Settles fromSlice succeeded queue (queue.replyBatch completions) where
  nextSession := by
    clear h
    induction completions generalizing queue with
    | nil => rfl
    | cons completion completions ih => exact ih
  known job hjob := by rwa [known_replyBatch]
  rows row hrow := by
    rcases mem_replyBatch _ hrow with hbefore | ⟨completion, hcompletion, hid, hstatus⟩
    · exact Or.inl hbefore
    · refine Or.inr (Or.inr ⟨completion.2, hstatus, fun hdone => ?_⟩)
      have hrowKnown := job_mem_known _ hrow
      rw [known_replyBatch] at hrowKnown
      have hsame := eq_of_mem_known _ hrowKnown (h completion hcompletion).1 hid
      rw [hsame]
      exact (h completion hcompletion).2 hdone

theorem settles_reply {job : Job} {status : ObservationStatus} (hjob : job ∈ queue.known)
    (h : status = .done → job.Ingested fromSlice succeeded) :
    Settles fromSlice succeeded queue (queue.reply job status) :=
  @settles_replyBatch queue succeeded fromSlice [(job, status)] fun completion hcompletion => by
    rw [List.mem_singleton.mp hcompletion]
    exact ⟨hjob, h⟩

theorem settles_replySession {session : QueueSession} {status : ObservationStatus}
    (h : status = .done → ∀ row ∈ queue.jobs.rows, row.status = .inFlight session →
      row.job.Ingested fromSlice succeeded) :
    Settles fromSlice succeeded queue (queue.replySession session status) where
  nextSession := rfl
  known job hjob := by rwa [known_replySession]
  rows row hrow := by
    obtain ⟨old, hold, rfl⟩ := (mem_restatus _).mp hrow
    by_cases hflight : old.status = .inFlight session
    · exact Or.inr (Or.inr ⟨status, if_pos hflight, fun hdone => h hdone old hold hflight⟩)
    · left
      rwa [if_neg hflight]

theorem settles_reclaim (streamId : IngestStream) :
    Settles fromSlice succeeded queue (queue.reclaim streamId) where
  nextSession := rfl
  known job hjob := by rwa [known_reclaim]
  rows row hrow := by
    obtain ⟨old, hold, rfl⟩ := (mem_restatus _).mp hrow
    cases hstatus : old.status with
    | inFlight session =>
      by_cases hstream : old.job.streamId = streamId
      · exact Or.inr (Or.inl (if_pos hstream))
      · left
        dsimp only
        rw [if_neg hstream]
        convert hold using 2
        exact hstatus.symm
    | new => exact Or.inr (Or.inl rfl)
    | answered status =>
      left
      dsimp only
      convert hold using 2
      exact hstatus.symm

theorem settles_enqueued {job : Job} {jobs : KeyedTable QueuedJob.id}
    (h : queue.jobs.insert? ⟨job, .new⟩ = some jobs) :
    Settles fromSlice succeeded queue { queue with jobs } := by
  have hrows := (KeyedTable.insert?_eq_some_iff.mp h).2
  refine ⟨rfl, fun job hjob => ?_, fun row hrow => ?_⟩
  · obtain ⟨row, hrow, rfl⟩ := List.mem_map.mp hjob
    refine List.mem_map_of_mem ?_
    show row ∈ jobs.rows
    rw [hrows]
    exact List.mem_append_left _ hrow
  · change row ∈ jobs.rows at hrow
    rw [hrows] at hrow
    rcases List.mem_append.mp hrow with hrow | hrow
    · exact Or.inl hrow
    · rw [List.mem_singleton.mp hrow]
      exact Or.inr (Or.inl rfl)

end IngestQueue

namespace DrainWorld

variable {w w' : DrainWorld sub}

/-- What a thread may think it claimed: jobs of the queue, which hold all that is in flight under
their session. -/
def Claims (queue : IngestQueue) (claim : QueueSession × List Job) : Prop :=
  claim.1.number < queue.nextSession ∧ (∀ job ∈ claim.2, job ∈ queue.known) ∧
    ∀ row ∈ queue.jobs.rows, row.status = .inFlight claim.1 → row.job ∈ claim.2

/-- No job is done that was not ingested, and no session is in flight that is still to come. -/
structure SoundQueue (setup : DrainSetup) (queue : IngestQueue)
    (succeeded : List (List IngestItem)) : Prop where
  done : ∀ row ∈ queue.jobs.rows, row.status = .answered .done →
    row.job.Ingested setup.fromSlice succeeded
  sessions : ∀ row ∈ queue.jobs.rows, ∀ session, row.status = .inFlight session →
    session.number < queue.nextSession

/-- The queue is sound, and no thread is about to answer what it should not. -/
structure Sound (setup : DrainSetup) (w : DrainWorld sub) : Prop where
  queue : SoundQueue setup w.queue w.succeeded
  safe : ∀ thread ∈ w.threads, thread.drain.Safe setup.fromSlice ⟨w.succeeded, thread.claims⟩
  claims : ∀ thread ∈ w.threads, ∀ claim ∈ thread.claims, Claims w.queue claim

theorem SoundQueue.settles {queue queue' : IngestQueue} {succeeded : List (List IngestItem)}
    (h : SoundQueue setup queue succeeded)
    (hsettles : IngestQueue.Settles setup.fromSlice succeeded queue queue') :
    SoundQueue setup queue' succeeded where
  done row hrow hdone := by
    rcases hsettles.rows row hrow with hrow | hnew | ⟨status, hstatus, hanswer⟩
    · exact h.done row hrow hdone
    · rw [hnew] at hdone
      cases hdone
    · rw [hstatus, JobStatus.answered.injEq] at hdone
      exact hanswer hdone
  sessions row hrow session hflight := by
    rw [hsettles.nextSession]
    rcases hsettles.rows row hrow with hrow | hnew | ⟨status, hstatus, -⟩
    · exact h.sessions row hrow session hflight
    · rw [hnew] at hflight
      cases hflight
    · rw [hstatus] at hflight
      cases hflight

theorem Claims.settles {queue queue' : IngestQueue} {succeeded : List (List IngestItem)}
    {claim : QueueSession × List Job} {fromSlice : Blob → Option IngestJob}
    (h : Claims queue claim) (hsettles : IngestQueue.Settles fromSlice succeeded queue queue') :
    Claims queue' claim := by
  obtain ⟨hnumber, hknown, hflight⟩ := h
  refine ⟨hsettles.nextSession ▸ hnumber, fun job hjob => hsettles.known job (hknown job hjob),
    fun row hrow hstatus => ?_⟩
  rcases hsettles.rows row hrow with hrow | hnew | ⟨status, hanswered, -⟩
  · exact hflight row hrow hstatus
  · rw [hnew] at hstatus
    cases hstatus
  · rw [hanswered] at hstatus
    cases hstatus

/-- A claim takes new jobs only, under a session that nothing is in flight under yet. -/
theorem claimed_rows {queue : IngestQueue} {streamId : IngestStream} {process : Nat}
    {row : QueuedJob} (h : row ∈ (queue.drainForStream streamId process).jobs.rows) :
    row ∈ queue.jobs.rows ∨ row.job ∈ queue.pending streamId ∧
      row.status = .inFlight ⟨queue.nextSession, process⟩ := by
  obtain ⟨old, hold, rfl⟩ := (IngestQueue.mem_restatus _).mp h
  by_cases hpending : old.job.streamId = streamId ∧ old.status = .new
  · refine Or.inr ⟨(IngestQueue.mem_pending _).mpr ⟨?_, hpending.1⟩, if_pos hpending⟩
    rw [← hpending.2]
    exact hold
  · left
    rwa [if_neg hpending]

theorem SoundQueue.claimed {queue : IngestQueue} {succeeded : List (List IngestItem)}
    (h : SoundQueue setup queue succeeded) (streamId : IngestStream) (process : Nat) :
    SoundQueue setup (queue.drainForStream streamId process) succeeded where
  done row hrow hdone := by
    rcases claimed_rows hrow with hrow | ⟨-, hflight⟩
    · exact h.done row hrow hdone
    · rw [hflight] at hdone
      cases hdone
  sessions row hrow session hflight := by
    show session.number < queue.nextSession + 1
    rcases claimed_rows hrow with hrow | ⟨-, hfresh⟩
    · exact Nat.lt_succ_of_lt (h.sessions row hrow session hflight)
    · rw [hfresh, JobStatus.inFlight.injEq] at hflight
      rw [← hflight]
      exact Nat.lt_succ_self _

/-- The claims made before stay what they were, and the new one is as it should be. -/
theorem Claims.claimed {queue : IngestQueue} {claim : QueueSession × List Job}
    (h : Claims queue claim) (streamId : IngestStream) (process : Nat) :
    Claims (queue.drainForStream streamId process) claim := by
  obtain ⟨hnumber, hknown, hflight⟩ := h
  refine ⟨Nat.lt_succ_of_lt hnumber, fun job hjob => ?_, fun row hrow hstatus => ?_⟩
  · rw [IngestQueue.known_drainForStream]
    exact hknown job hjob
  · rcases claimed_rows hrow with hrow | ⟨-, hfresh⟩
    · exact hflight row hrow hstatus
    · rw [hstatus, JobStatus.inFlight.injEq] at hfresh
      rw [hfresh] at hnumber
      exact absurd hnumber (Nat.lt_irrefl _)

theorem claims_new {queue : IngestQueue} {succeeded : List (List IngestItem)}
    (h : SoundQueue setup queue succeeded) (streamId : IngestStream) (process : Nat) :
    Claims (queue.drainForStream streamId process)
      (⟨queue.nextSession, process⟩, queue.pending streamId) := by
  refine ⟨Nat.lt_succ_self _, fun job hjob => ?_, fun row hrow hstatus => ?_⟩
  · rw [IngestQueue.known_drainForStream]
    exact List.mem_map_of_mem ((IngestQueue.mem_pending _).mp hjob).1
  · rcases claimed_rows hrow with hrow | ⟨hpending, -⟩
    · exact absurd (h.sessions row hrow _ hstatus) (Nat.lt_irrefl _)
    · exact hpending

/-- What a step may do to the queue and to what is remembered of ingests. -/
structure Advances (setup : DrainSetup) (w w' : DrainWorld sub) : Prop where
  queue : SoundQueue setup w'.queue w'.succeeded
  claims : ∀ claim, Claims w.queue claim → Claims w'.queue claim
  succeeded : ∀ items ∈ w.succeeded, items ∈ w'.succeeded
  known : ∀ job ∈ w.queue.known, job ∈ w'.queue.known

theorem SoundQueue.mono {queue : IngestQueue} {succeeded succeeded' : List (List IngestItem)}
    (h : SoundQueue setup queue succeeded) (hle : ∀ items ∈ succeeded, items ∈ succeeded') :
    SoundQueue setup queue succeeded' :=
  ⟨fun row hrow hdone => (h.done row hrow hdone).mono hle, h.sessions⟩

theorem Advances.of_settles (h : SoundQueue setup w.queue w.succeeded)
    (hsettles : IngestQueue.Settles setup.fromSlice w.succeeded w.queue w'.queue)
    (hsucceeded : ∀ items ∈ w.succeeded, items ∈ w'.succeeded) : Advances setup w w' where
  queue := (h.settles hsettles).mono hsucceeded
  claims _ hclaim := hclaim.settles hsettles
  succeeded := hsucceeded
  known := hsettles.known

theorem Advances.of_eq (h : SoundQueue setup w.queue w.succeeded) (hqueue : w'.queue = w.queue)
    (hsucceeded : ∀ items ∈ w.succeeded, items ∈ w'.succeeded) : Advances setup w w' := by
  refine .of_settles h ?_ hsucceeded
  rw [hqueue]
  exact .refl _

theorem Advances.called (h : SoundQueue setup w.queue w.succeeded) (call : CorpusCall sub)
    (corpus : Corpus sub) : Advances setup w (w.called call corpus) :=
  .of_eq h rfl fun _ hitems => List.mem_append_left _ hitems

/-- An action of a thread that may take it. -/
theorem Advances.does {act : DrainAct sub} {answer : act.Answer} {process : Nat}
    {claims : List (QueueSession × List Job)} (h : SoundQueue setup w.queue w.succeeded)
    (hclaims : ∀ claim ∈ claims, Claims w.queue claim)
    (hpre : act.Pre setup.fromSlice ⟨w.succeeded, claims⟩)
    (hdoes : act.Does setup process w answer w') :
    Advances setup w w' ∧
      w'.succeeded = (DrainKnows.learn ⟨w.succeeded, claims⟩ act answer).succeeded ∧
      ∀ claim ∈ (DrainKnows.learn ⟨w.succeeded, claims⟩ act answer).claims,
        Claims w'.queue claim := by
  have hknown : ∀ job, DrainKnows.Claimed ⟨w.succeeded, claims⟩ job → job ∈ w.queue.known := by
    rintro job ⟨claim, hclaim, hjob⟩
    exact (hclaims claim hclaim).2.1 job hjob
  -- What is left to say of a step that claims nothing and ends no call well.
  have hkept : ∀ {w₁ : DrainWorld sub}, Advances setup w w₁ → w₁.succeeded = w.succeeded →
      Advances setup w w₁ ∧ w₁.succeeded = w.succeeded ∧ ∀ claim ∈ claims, Claims w₁.queue claim :=
    fun hadvances hsame =>
      ⟨hadvances, hsame, fun claim hclaim => hadvances.claims claim (hclaims claim hclaim)⟩
  cases hdoes with
  | claimed streamId =>
    have hadvances : Advances setup w
        { w with queue := w.queue.drainForStream streamId process } :=
      ⟨h.claimed streamId process, fun _ hclaim => hclaim.claimed streamId process,
        fun _ hitems => hitems, fun job hjob => by rwa [IngestQueue.known_drainForStream]⟩
    refine ⟨hadvances, rfl, fun claim hclaim => ?_⟩
    rcases List.mem_append.mp hclaim with hclaim | hclaim
    · exact hadvances.claims claim (hclaims claim hclaim)
    · rw [List.mem_singleton.mp hclaim]
      exact claims_new h streamId process
  | claimFailed streamId => exact hkept (.of_eq h rfl fun _ hitems => hitems) rfl
  | deferred ok => exact hkept (.of_eq h rfl fun _ hitems => hitems) rfl
  | returned hrun =>
    refine ⟨.called h _ _, rfl, fun claim hclaim => ?_⟩
    exact (Advances.called h _ _).claims claim (hclaims claim hclaim)
  | failed hrun => exact hkept (.of_eq h rfl fun _ hitems => hitems) rfl
  | replied job status landed =>
    refine hkept (.of_settles h ?_ fun _ hitems => hitems) rfl
    dsimp only
    split
    next => exact IngestQueue.settles_reply (hknown job hpre.1) hpre.2
    next => exact .refl _
  | repliedSession session status =>
    obtain ⟨batch, hbatch, hjobs⟩ := hpre
    refine hkept (.of_settles h ?_ fun _ hitems => hitems) rfl
    exact IngestQueue.settles_replySession fun hdone row hrow hflight =>
      hjobs hdone _ ((hclaims _ hbatch).2.2 row hrow hflight)
  | sessionFailed session status landed =>
    obtain ⟨batch, hbatch, hjobs⟩ := hpre
    refine hkept (.of_settles h ?_ fun _ hitems => hitems) rfl
    dsimp only
    split
    next =>
      exact IngestQueue.settles_replySession fun hdone row hrow hflight =>
        hjobs hdone _ ((hclaims _ hbatch).2.2 row hrow hflight)
    next => exact .refl _
  | repliedBatch hlanded =>
    refine hkept (.of_settles h ?_ fun _ hitems => hitems) rfl
    refine IngestQueue.settles_replyBatch fun completion hcompletion => ?_
    obtain ⟨hclaimed, hdone⟩ := hpre completion (hlanded.subset hcompletion)
    exact ⟨hknown _ hclaimed, hdone⟩

/-- The threads that take no part in a step know as much as before. -/
theorem Sound.of_advances (h : w.Sound setup) (hadvances : Advances setup w w')
    (hthreads : ∀ thread ∈ w'.threads, thread ∈ w.threads ∨
      thread.drain.Safe setup.fromSlice ⟨w'.succeeded, thread.claims⟩ ∧
        ∀ claim ∈ thread.claims, Claims w'.queue claim) : w'.Sound setup where
  queue := hadvances.queue
  safe thread hthread := by
    rcases hthreads thread hthread with hthread | ⟨hsafe, -⟩
    · exact @Drain.Safe.mono sub setup.fromSlice ⟨w.succeeded, thread.claims⟩
        ⟨w'.succeeded, thread.claims⟩ thread.drain ⟨hadvances.succeeded, rfl⟩ (h.safe thread hthread)
    · exact hsafe
  claims thread hthread claim hclaim := by
    rcases hthreads thread hthread with hthread | ⟨-, hclaims⟩
    · exact hadvances.claims claim (h.claims thread hthread claim hclaim)
    · exact hclaims claim hclaim

/-- A thread that begins a pass has claimed nothing in it. -/
theorem safe_pass (streamId : IngestStream) (ingestFailureActive : Bool) (know : DrainKnows) :
    Drain.Safe setup.fromSlice know
      (setup.pass streamId ingestFailureActive : Drain sub) := by
  cases streamId with
  | encodeStream => exact safe_drainWithQueue ingestFailureActive know
  | importStream => exact safe_drainImportWithQueue setup.onDisk know

theorem mem_replace {pre post : List (DrainThread sub)} {old thread : DrainThread sub}
    {new : List (DrainThread sub)} (hw : w.threads = pre ++ old :: post)
    (h : thread ∈ pre ++ new ++ post) : thread ∈ w.threads ∨ thread ∈ new := by
  rw [hw]
  rcases List.mem_append.mp h with h | h
  · rcases List.mem_append.mp h with h | h
    · exact Or.inl (List.mem_append_left _ h)
    · exact Or.inr h
  · exact Or.inl (List.mem_append_right _ (List.mem_cons_of_mem _ h))

theorem checkLease_fst (thread : DrainThread sub) (loop : DrainLoop) (ingestFailureActive : Bool) :
    ∃ leases, (w.checkLease setup thread loop ingestFailureActive).1 = { w with leases } := by
  unfold checkLease
  split
  next =>
    split
    next => exact ⟨w.leases, rfl⟩
    next => exact ⟨_, rfl⟩
  next => exact ⟨w.leases, rfl⟩

/-- The thread stays outside a pass, or begins one. -/
theorem checkLease_snd (thread : DrainThread sub) (loop : DrainLoop) (ingestFailureActive : Bool) :
    (∃ loop', (w.checkLease setup thread loop ingestFailureActive).2 = { thread with loop := loop' }) ∨
      ∃ loop', (w.checkLease setup thread loop ingestFailureActive).2 =
        thread.begin setup loop' ingestFailureActive := by
  unfold checkLease
  split
  next =>
    split
    next => exact Or.inl ⟨_, rfl⟩
    next =>
      dsimp only
      split
      next => exact Or.inr ⟨_, rfl⟩
      next => exact Or.inl ⟨_, rfl⟩
  next => exact Or.inr ⟨_, rfl⟩

theorem release_eq (owner : Nat) (streamId : IngestStream) :
    ∃ leases, w.release owner streamId = { w with leases } := by
  unfold release
  split
  next =>
    split
    next => exact ⟨_, rfl⟩
    next => exact ⟨w.leases, rfl⟩
  next => exact ⟨w.leases, rfl⟩

theorem Sound.step {event : DrainEvent sub} (h : w.Sound setup)
    (hstep : DrainWorld.Step setup w event w') :
    w'.Sound setup ∧ ∀ job ∈ w.queue.known, job ∈ w'.queue.known := by
  have hsame : ∀ {w₁ : DrainWorld sub}, Advances setup w w₁ →
      (∀ thread ∈ w₁.threads, thread ∈ w.threads ∨
        thread.drain.Safe setup.fromSlice ⟨w₁.succeeded, thread.claims⟩ ∧
          ∀ claim ∈ thread.claims, Claims w₁.queue claim) →
      w₁.Sound setup ∧ ∀ job ∈ w.queue.known, job ∈ w₁.queue.known :=
    fun hadvances hthreads => ⟨h.of_advances hadvances hthreads, hadvances.known⟩
  have hkept : ∀ {w₁ : DrainWorld sub}, w₁.queue = w.queue → w₁.succeeded = w.succeeded →
      Advances setup w w₁ := fun hqueue hsucceeded =>
    .of_eq h.queue hqueue fun _ hitems => hsucceeded ▸ hitems
  cases hstep with
  | enqueued hinsert =>
    exact hsame (.of_settles h.queue (IngestQueue.settles_enqueued hinsert) fun _ hitems => hitems)
      fun thread hthread => Or.inl hthread
  | ticked hnow => exact hsame (hkept rfl rfl) fun thread hthread => Or.inl hthread
  | mounted streamId leased hprocess =>
    refine hsame (hkept rfl rfl) fun thread hthread => ?_
    rcases List.mem_append.mp hthread with hthread | hthread
    · exact Or.inl hthread
    · rw [List.mem_singleton.mp hthread]
      exact Or.inr ⟨trivial, fun claim hclaim => absurd hclaim List.not_mem_nil⟩
  | pumped streamId ingestFailureActive hprocess =>
    refine hsame (hkept rfl rfl) fun thread hthread => ?_
    rcases List.mem_append.mp hthread with hthread | hthread
    · exact Or.inl hthread
    · rw [List.mem_singleton.mp hthread]
      exact Or.inr ⟨safe_pass _ _ _, fun claim hclaim => absurd hclaim List.not_mem_nil⟩
  | @checked pre post old loop ingestFailureActive hw hloop htop =>
    obtain ⟨leases, hleases⟩ := @checkLease_fst sub setup w old loop ingestFailureActive
    rw [hleases]
    refine hsame (hkept rfl rfl) fun thread hthread => ?_
    rcases mem_replace hw hthread with hthread | hthread
    · exact Or.inl hthread
    have hold : old ∈ w.threads := hw ▸ List.mem_append_right _ List.mem_cons_self
    rw [List.mem_singleton.mp hthread]
    right
    rcases @checkLease_snd sub setup w old loop ingestFailureActive with
      ⟨loop', hnew⟩ | ⟨loop', hnew⟩
    · rw [hnew]
      exact ⟨h.safe old hold, h.claims old hold⟩
    · rw [hnew]
      exact ⟨safe_pass _ _ _, fun claim hclaim => absurd hclaim List.not_mem_nil⟩
  | reclaimed ingestFailureActive hw hloop hreclaim =>
    refine hsame (.of_settles h.queue (IngestQueue.settles_reclaim _) fun _ hitems => hitems)
      fun thread hthread => ?_
    rcases mem_replace hw hthread with hthread | hthread
    · exact Or.inl hthread
    · rw [List.mem_singleton.mp hthread]
      exact Or.inr ⟨safe_pass _ _ _, fun claim hclaim => absurd hclaim List.not_mem_nil⟩
  | @acted w₁ pre post old act next answer hw hact hdoes =>
    have hold : old ∈ w.threads := hw ▸ List.mem_append_right _ List.mem_cons_self
    have hsafe := h.safe old hold
    rw [hact] at hsafe
    obtain ⟨hadvances, hlearnt, hclaims⟩ :=
      Advances.does h.queue (h.claims old hold) hsafe.1 hdoes
    refine hsame ⟨hadvances.queue, hadvances.claims, hadvances.succeeded, hadvances.known⟩
      fun thread hthread => ?_
    rcases mem_replace hw hthread with hthread | hthread
    · exact Or.inl hthread
    · rw [List.mem_singleton.mp hthread]
      refine Or.inr ⟨?_, hclaims⟩
      have hnext := hsafe.2 answer
      show Drain.Safe setup.fromSlice ⟨w₁.succeeded, _⟩ (next answer)
      rw [hlearnt]
      exact hnext
  | panicked hw hact hrun =>
    refine hsame (hkept rfl rfl) fun thread hthread => ?_
    rcases mem_replace hw hthread with hthread | hthread
    · exact Or.inl hthread
    · exact absurd hthread List.not_mem_nil
  | @finished pre post old loop hw hloop hpass hdone =>
    refine hsame (hkept rfl rfl) fun thread hthread => ?_
    rcases mem_replace hw hthread with hthread | hthread
    · exact Or.inl hthread
    · have hold : old ∈ w.threads := hw ▸ List.mem_append_right _ List.mem_cons_self
      rw [List.mem_singleton.mp hthread]
      exact Or.inr ⟨h.safe old hold, h.claims old hold⟩
  | @stopped pre post old hw hdone htop =>
    obtain ⟨leases, hleases⟩ := @release_eq sub w old.process old.streamId
    rw [hleases]
    refine hsame (hkept rfl rfl) fun thread hthread => ?_
    rcases mem_replace hw hthread with hthread | hthread
    · exact Or.inl hthread
    · exact absurd hthread List.not_mem_nil
  | crashed process =>
    exact hsame (hkept rfl rfl) fun thread hthread => Or.inl (List.mem_filter.mp hthread).1
  | called hrun => exact hsame (.called h.queue _ _) fun thread hthread => Or.inl hthread
  | callFailed hrun => exact hsame (hkept rfl rfl) fun thread hthread => Or.inl hthread

theorem Start.sound (h : w.Start) : w.Sound setup := by
  have hrows : w.queue.jobs.rows = [] := by
    rw [h.queue]
    rfl
  have hthreads : ∀ thread, thread ∉ w.threads := by
    rw [h.threads]
    exact fun _ => List.not_mem_nil
  refine ⟨⟨fun row hrow => ?_, fun row hrow => ?_⟩, fun thread hthread => ?_, fun thread hthread => ?_⟩
  · exact absurd (hrows ▸ hrow) List.not_mem_nil
  · exact absurd (hrows ▸ hrow) List.not_mem_nil
  · exact absurd hthread (hthreads thread)
  · exact absurd hthread (hthreads thread)

theorem Sound.run (h : w.Sound setup) (hrun : Relation.ReflTransGen (DrainWorld.Steps setup) w w') :
    w'.Sound setup ∧ ∀ job ∈ w.queue.known, job ∈ w'.queue.known := by
  induction hrun with
  | refl => exact ⟨h, fun _ hjob => hjob⟩
  | tail _ hstep ih =>
    obtain ⟨event, hstep⟩ := hstep
    obtain ⟨hsound, hknown⟩ := ih.1.step hstep
    exact ⟨hsound, fun job hjob => hknown job (ih.2 job hjob)⟩

end DrainWorld

/-- In every run of drainers over a queue: a job that carries a text and is done was in an ingest
that went well, and a job once enqueued is for good in one place. -/
theorem done_means_ingested {w₀ w w' : DrainWorld sub} (hstart : w₀.Start)
    (h : Relation.ReflTransGen (DrainWorld.Steps setup) w₀ w)
    (h' : Relation.ReflTransGen (DrainWorld.Steps setup) w w') :
    (∀ row ∈ w.queue.jobs.rows, row.status = .answered .done →
      ∀ ingestJob, setup.fromSlice row.job.payload = some ingestJob → ingestJob.text ≠ "" →
        ∃ items ∈ w.succeeded, ⟨ingestJob.text, ingestJob.sourceId,
          ingestJob.capturedAtMillis⟩ ∈ items) ∧
      ∀ row ∈ w.queue.jobs.rows, ∃! row', row' ∈ w'.queue.jobs.rows ∧ row'.job = row.job := by
  have hsound := (hstart.sound.run h).1
  refine ⟨hsound.queue.done, fun row hrow => ?_⟩
  have hknown := (hsound.run h').2 row.job (IngestQueue.job_mem_known _ hrow)
  obtain ⟨row', hrow', hjob⟩ := List.mem_map.mp hknown
  refine ⟨row', ⟨hrow', hjob⟩, fun other hother => ?_⟩
  refine w'.queue.jobs.eq_of_key_eq hother.1 hrow' ?_
  show other.job.id = row'.job.id
  rw [hother.2, hjob]

namespace ReferenceCorpus

/-- Every payload is read as the same job. -/
def drainSetup : DrainSetup where
  weighting := floats.weighting
  fromSlice _ := some ⟨"s", "alpha beta", "1970-01-01T00:00:00.000Z"⟩
  onDisk := false
  leaseHeartbeatSecs := 10
  leaseTtlSecs := 30

def undrained : DrainWorld referenceCorpus where
  queue := ⟨.empty, 0⟩
  corpus := opened fixedModels
  succeeded := []
  now := 0
  leases _ := none
  dead := []
  threads := []

def encodeJob : Job := ⟨"j", .encodeStream, []⟩

def encodeItems : List IngestItem := (fitJobs drainSetup.fromSlice [encodeJob]).map (·.2)

/-- The pass over the one job, after the deferral. -/
def encodePass : Drain referenceCorpus :=
  .act (.call (.ingestBatch encodeItems)) fun ok =>
    if ok then retire ⟨0, 0⟩ [encodeJob]
    else Program.each [encodeJob] (ingestOneAndReply drainSetup.fromSlice .ingest) .done

/-- A pump over one job, from its claim on. -/
theorem exists_pass : ∃ next : Option (QueueSession × List Job) → Drain referenceCorpus,
    drainSetup.pass .encodeStream false = .act (.drainForStream .encodeStream) next ∧
      next (some (⟨0, 0⟩, [encodeJob])) =
        .act .beginDeferredVectorIndex fun ok => if !ok then .done else encodePass := by
  have hfit : fitJobs drainSetup.fromSlice [encodeJob] =
      [(encodeJob, IngestJob.item ⟨"s", "alpha beta", "1970-01-01T00:00:00.000Z"⟩)] := by
    simp [fitJobs, drainSetup]
  have hunfit : unfit drainSetup.fromSlice encodeJob = none := by
    simp [unfit, drainSetup]
  have hjobs : (fitJobs drainSetup.fromSlice [encodeJob]).map (·.1) = [encodeJob] := by
    rw [hfit]
    rfl
  have hne : fitJobs drainSetup.fromSlice [encodeJob] ≠ [] := by
    rw [hfit]
    exact List.cons_ne_nil _ _
  refine ⟨_, rfl, ?_⟩
  simp only [encodePass, encodeItems, answerUnfit, ingestFit, Program.each, hunfit, hne, hjobs,
    List.foldr_cons, List.foldr_nil, List.cons_ne_nil, if_false, Bool.false_eq_true]

/-- A job is enqueued, claimed by a pump, ingested and retired. -/
theorem exists_drained : ∃ w : DrainWorld referenceCorpus,
    Relation.ReflTransGen (DrainWorld.Steps drainSetup) undrained w ∧
      w.queue.jobs.rows = [⟨encodeJob, .answered .done⟩] := by
  obtain ⟨next, hpass, hnext⟩ := exists_pass
  have hrun : (CorpusCall.ingestBatch encodeItems).run drainSetup.weighting oneThread
      ⟨opened fixedModels, []⟩ =
        .ok () ⟨(opened fixedModels).batchIngested encodeItems, []⟩ :=
    does_ingestBatch oneThread encodeItems (opened fixedModels)
  let queue : IngestQueue := ⟨KeyedTable.empty.put ⟨encodeJob, .new⟩, 0⟩
  let claimed : IngestQueue := queue.drainForStream .encodeStream 0
  let thread (claims : List (QueueSession × List Job)) (drain : Drain referenceCorpus) :
      DrainThread referenceCorpus := ⟨0, .encodeStream, none, claims, drain⟩
  let world (queue : IngestQueue) (threads : List (DrainThread referenceCorpus)) :
      DrainWorld referenceCorpus := { undrained with queue, threads }
  let claim : QueueSession × List Job := (⟨0, 0⟩, [encodeJob])
  let begin : Drain referenceCorpus :=
    .act .beginDeferredVectorIndex fun ok => if !ok then .done else encodePass
  have henqueued : DrainWorld.Steps drainSetup undrained (world queue []) :=
    ⟨_, @DrainWorld.Step.enqueued _ drainSetup undrained encodeJob queue.jobs rfl⟩
  have hpumped : DrainWorld.Steps drainSetup (world queue [])
      (world queue [thread [] (drainSetup.pass .encodeStream false)]) :=
    ⟨_, @DrainWorld.Step.pumped _ drainSetup (world queue []) 0 .encodeStream false
      List.not_mem_nil⟩
  have hclaimed : DrainWorld.Steps drainSetup
      (world queue [thread [] (drainSetup.pass .encodeStream false)])
      (world claimed [thread [claim] begin]) := by
    have hstep := @DrainWorld.Step.acted _ drainSetup
      (world queue [thread [] (drainSetup.pass .encodeStream false)]) _ [] []
      (thread [] (drainSetup.pass .encodeStream false)) (.drainForStream .encodeStream) next
      (some claim) rfl hpass (.claimed .encodeStream)
    rw [hnext] at hstep
    exact ⟨_, hstep⟩
  have hbegun : DrainWorld.Steps drainSetup (world claimed [thread [claim] begin])
      (world claimed [thread [claim] encodePass]) :=
    ⟨_, @DrainWorld.Step.acted _ drainSetup (world claimed [thread [claim] begin]) _ [] []
      (thread [claim] begin) .beginDeferredVectorIndex _ true rfl rfl (.deferred true)⟩
  let ingested : DrainWorld referenceCorpus :=
    { world claimed [thread [claim] (retire ⟨0, 0⟩ [encodeJob])] with
      corpus := (opened fixedModels).batchIngested encodeItems
      succeeded := [encodeItems] }
  have hcalled : DrainWorld.Steps drainSetup (world claimed [thread [claim] encodePass]) ingested :=
    ⟨_, @DrainWorld.Step.acted _ drainSetup (world claimed [thread [claim] encodePass]) _ [] []
      (thread [claim] encodePass) (.call (.ingestBatch encodeItems)) _ true rfl rfl
      (.returned hrun)⟩
  have hretired := @DrainWorld.Step.acted _ drainSetup ingested _ [] []
    (thread [claim] (retire ⟨0, 0⟩ [encodeJob])) (.replySession ⟨0, 0⟩ .done) _ _ rfl rfl
    (.repliedSession ⟨0, 0⟩ .done)
  exact ⟨_, .tail (.tail (.tail (.tail (.tail (.tail .refl henqueued) hpumped) hclaimed) hbegun)
    hcalled) ⟨_, hretired⟩, rfl⟩

end ReferenceCorpus

/-- A run in which a job is done. -/
theorem done_means_ingested_reference :
    ∃ w : DrainWorld referenceCorpus,
      w.queue.jobs.rows = [⟨ReferenceCorpus.encodeJob, .answered .done⟩] ∧
      (∀ row ∈ w.queue.jobs.rows, row.status = .answered .done →
        ∀ ingestJob, ReferenceCorpus.drainSetup.fromSlice row.job.payload = some ingestJob →
          ingestJob.text ≠ "" → ∃ items ∈ w.succeeded, ⟨ingestJob.text, ingestJob.sourceId,
            ingestJob.capturedAtMillis⟩ ∈ items) ∧
      ∀ row ∈ w.queue.jobs.rows, ∃! row', row' ∈ w.queue.jobs.rows ∧ row'.job = row.job := by
  obtain ⟨w, hrun, hrows⟩ := ReferenceCorpus.exists_drained
  have hstart : ReferenceCorpus.undrained.Start := ⟨rfl, rfl⟩
  exact ⟨w, hrows, done_means_ingested hstart hrun .refl⟩

end MootMemory
