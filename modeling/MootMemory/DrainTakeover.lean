import MootMemory.DrainSoundness

namespace MootMemory

variable {sub : CorpusSubstrate} {setup : DrainSetup}

namespace IngestQueue

variable {queue : IngestQueue}

/-- The process has a job of the stream in flight. -/
def ClaimedBy (queue : IngestQueue) (streamId : IngestStream) (process : Nat) : Prop :=
  ∃ row ∈ queue.jobs.rows, row.job.streamId = streamId ∧
    ∃ session, row.status = .inFlight session ∧ session.process = process

theorem not_claimedBy_reclaim (streamId : IngestStream) (process : Nat) :
    ¬(queue.reclaim streamId).ClaimedBy streamId process := by
  rintro ⟨row, hrow, hstream, session, hflight, -⟩
  obtain ⟨old, hold, rfl⟩ := (mem_restatus _).mp hrow
  change old.job.streamId = streamId at hstream
  dsimp only at hflight
  split at hflight
  next => cases (if_pos hstream).symm.trans hflight
  next hnot => exact hnot session hflight

/-- Nothing goes in flight but what is claimed by one that lives. -/
def Flies (lives : Nat → Prop) (queue queue' : IngestQueue) : Prop :=
  ∀ streamId process, queue'.ClaimedBy streamId process →
    queue.ClaimedBy streamId process ∨ lives process

variable {lives : Nat → Prop}

theorem Flies.of_rows {queue' : IngestQueue}
    (h : ∀ row ∈ queue'.jobs.rows, ∀ session, row.status = .inFlight session →
      row ∈ queue.jobs.rows ∨ lives session.process) : Flies lives queue queue' := by
  rintro streamId process ⟨row, hrow, hstream, session, hflight, rfl⟩
  rcases h row hrow session hflight with hold | hlives
  · exact Or.inl ⟨row, hold, hstream, session, hflight, rfl⟩
  · exact Or.inr hlives

theorem Flies.refl (queue : IngestQueue) : Flies lives queue queue := fun _ _ h => Or.inl h

theorem flies_drainForStream (streamId : IngestStream) {process : Nat} (h : lives process) :
    Flies lives queue (queue.drainForStream streamId process) :=
  .of_rows fun row hrow session hflight => by
    rcases DrainWorld.claimed_rows hrow with hold | ⟨-, hfresh⟩
    · exact Or.inl hold
    · rw [hflight, JobStatus.inFlight.injEq] at hfresh
      rw [hfresh]
      exact Or.inr h

theorem flies_replyBatch (completions : List (Job × ObservationStatus)) :
    Flies lives queue (queue.replyBatch completions) :=
  .of_rows fun row hrow session hflight => by
    rcases mem_replyBatch _ hrow with hold | ⟨completion, -, -, hanswered⟩
    · exact Or.inl hold
    · rw [hanswered] at hflight
      cases hflight

theorem flies_reply (job : Job) (status : ObservationStatus) :
    Flies lives queue (queue.reply job status) :=
  flies_replyBatch [(job, status)]

theorem flies_of_settles {queue' : IngestQueue} {fromSlice : Blob → Option IngestJob}
    {succeeded : List (List IngestItem)} (h : Settles fromSlice succeeded queue queue') :
    Flies lives queue queue' :=
  .of_rows fun row hrow session hflight => by
    rcases h.rows row hrow with hold | hnew | ⟨status, hanswered, -⟩
    · exact Or.inl hold
    · rw [hnew] at hflight
      cases hflight
    · rw [hanswered] at hflight
      cases hflight

theorem flies_replySession (session : QueueSession) (status : ObservationStatus) :
    Flies lives queue (queue.replySession session status) :=
  .of_rows fun row hrow other hflight => by
    obtain ⟨old, hold, rfl⟩ := (mem_restatus _).mp hrow
    by_cases hsession : old.status = .inFlight session
    · cases (if_pos hsession).symm.trans hflight
    · left
      rwa [if_neg hsession]

theorem flies_does {act : DrainAct sub} {answer : act.Answer} {process : Nat}
    {w w' : DrainWorld sub} (hdoes : act.Does setup process w answer w') (h : lives process) :
    Flies lives w.queue w'.queue ∧ w'.dead = w.dead := by
  cases hdoes with
  | claimed streamId => exact ⟨flies_drainForStream streamId h, rfl⟩
  | claimFailed | deferred | returned | failed => exact ⟨.refl _, rfl⟩
  | replied job status landed =>
    refine ⟨?_, rfl⟩
    dsimp only
    split
    next => exact flies_reply job status
    next => exact .refl _
  | repliedSession session status => exact ⟨flies_replySession session status, rfl⟩
  | sessionFailed session status landed =>
    refine ⟨?_, rfl⟩
    dsimp only
    split
    next => exact flies_replySession session status
    next => exact .refl _
  | repliedBatch hlanded => exact ⟨flies_replyBatch _, rfl⟩

end IngestQueue

/-- The loop has just gained the lease, and has begun its next pass. -/
def DrainLoop.TakingOver (loop : DrainLoop) : Prop := loop.gained = true ∧ loop.phase = .inPass

def DrainThread.TakingOver (thread : DrainThread sub) : Prop :=
  ∃ loop ∈ thread.loop, loop.TakingOver

namespace DrainWorld

variable {w w' : DrainWorld sub}

/-- A job of the stream is in flight that was claimed by a process that has died. -/
def Orphaned (w : DrainWorld sub) (streamId : IngestStream) : Prop :=
  ∃ process ∈ w.dead, w.queue.ClaimedBy streamId process

/-- Who has just taken over has no orphans. -/
def TakenOver (w : DrainWorld sub) : Prop :=
  ∀ thread ∈ w.threads, thread.TakingOver → ¬w.Orphaned thread.streamId

/-- The lease passes to the loop. -/
def Gains (setup : DrainSetup) (w : DrainWorld sub) (thread : DrainThread sub)
    (loop : DrainLoop) : Prop :=
  loop.leased = true ∧ w.refreshDue setup loop = true ∧
    ¬w.Blocked thread.process thread.streamId ∧ ¬w.Holds thread.process thread.streamId

end DrainWorld

/-- A loop that has reclaimed once gains the lease again only where no orphans are; and no process
dies with jobs in flight while another is just taking over. -/
def DrainEvent.Orderly (setup : DrainSetup) (w : DrainWorld sub) : DrainEvent sub → Prop
  | .check thread loop =>
    w.Gains setup thread loop → loop.reclaimedOnMount = true → ¬w.Orphaned thread.streamId
  | .crash process => ∀ thread ∈ w.threads, thread.TakingOver → thread.process ≠ process →
      ¬w.queue.ClaimedBy thread.streamId process
  | .other => True

namespace DrainWorld

variable {w w' : DrainWorld sub}

/-- The threads are of processes that live, and who has just taken over has no orphans. -/
structure Manned (w : DrainWorld sub) : Prop where
  alive : ∀ thread ∈ w.threads, thread.process ∉ w.dead
  takenOver : w.TakenOver

/-- A stream gains no orphans by what a living process claims. -/
theorem not_orphaned_of_flies {streamId : IngestStream}
    (hflies : IngestQueue.Flies (· ∉ w.dead) w.queue w'.queue) (hdead : w'.dead = w.dead)
    (h : ¬w.Orphaned streamId) : ¬w'.Orphaned streamId := by
  rintro ⟨process, hprocess, hclaimed⟩
  rw [hdead] at hprocess
  rcases hflies _ _ hclaimed with hold | hlives
  · exact h ⟨process, hprocess, hold⟩
  · exact hlives hprocess

/-- After a step in which nobody dies, only the threads it made can be taking over badly. -/
theorem Manned.of_flies (h : w.Manned) (hflies : IngestQueue.Flies (· ∉ w.dead) w.queue w'.queue)
    (hdead : w'.dead = w.dead)
    (hthreads : ∀ thread ∈ w'.threads, thread ∈ w.threads ∨
      thread.process ∉ w.dead ∧ (thread.TakingOver → ¬w'.Orphaned thread.streamId)) :
    w'.Manned where
  alive thread hthread := by
    rw [hdead]
    rcases hthreads thread hthread with hold | ⟨hlives, -⟩
    · exact h.alive thread hold
    · exact hlives
  takenOver thread hthread htaking := by
    rcases hthreads thread hthread with hold | ⟨-, hnew⟩
    · exact not_orphaned_of_flies hflies hdead (h.takenOver thread hold htaking)
    · exact hnew htaking

theorem not_takingOver_of_not_gained {thread : DrainThread sub}
    (h : ∀ loop ∈ thread.loop, loop.gained = false) : ¬thread.TakingOver := by
  rintro ⟨loop, hloop, hgained, -⟩
  rw [h loop hloop] at hgained
  exact absurd hgained Bool.false_ne_true

theorem not_takingOver_of_phase {thread : DrainThread sub}
    (h : ∀ loop ∈ thread.loop, loop.phase ≠ .inPass) : ¬thread.TakingOver := by
  rintro ⟨loop, hloop, -, hphase⟩
  exact h loop hloop hphase

theorem checkLease_eq (thread : DrainThread sub) (loop : DrainLoop) (ingestFailureActive : Bool) :
    (w.checkLease setup thread loop ingestFailureActive).2.process = thread.process ∧
      (w.checkLease setup thread loop ingestFailureActive).2.streamId = thread.streamId := by
  rcases checkLease_snd thread loop ingestFailureActive with ⟨loop', hnew⟩ | ⟨loop', hnew⟩
  · rw [hnew]
    exact ⟨rfl, rfl⟩
  · rw [hnew]
    exact ⟨rfl, rfl⟩

/-- A check leaves a thread taking over just where it gains the lease after its one reclaim. -/
theorem takingOver_checkLease {thread : DrainThread sub} {loop : DrainLoop}
    (ingestFailureActive : Bool) (htop : loop.phase = .atTop) :
    (w.checkLease setup thread loop ingestFailureActive).2.TakingOver ↔
      w.Gains setup thread loop ∧ loop.reclaimedOnMount = true := by
  unfold checkLease Gains
  by_cases hdue : loop.leased = true ∧ w.refreshDue setup loop = true
  · rw [if_pos hdue]
    by_cases hblocked : w.Blocked thread.process thread.streamId
    · rw [if_pos hblocked]
      refine iff_of_false (not_takingOver_of_phase ?_) fun h => h.1.2.2.1 hblocked
      rintro loop' ⟨rfl⟩ hphase
      cases htop.symm.trans hphase
    rw [if_neg hblocked]
    dsimp only
    by_cases hflag : loop.reclaimedOnMount = true
    · rw [if_pos hflag]
      by_cases hholds : w.Holds thread.process thread.streamId
      · refine iff_of_false (not_takingOver_of_not_gained ?_) fun h => h.1.2.2.2 hholds
        rintro loop' ⟨rfl⟩
        simp [hholds]
      · refine iff_of_true ⟨_, rfl, ?_, rfl⟩ ⟨⟨hdue.1, hdue.2, hblocked, hholds⟩, hflag⟩
        simp [hholds]
    · rw [if_neg hflag]
      refine iff_of_false (not_takingOver_of_phase ?_) fun h => hflag h.2
      rintro loop' ⟨rfl⟩ hphase
      cases hphase
  · rw [if_neg hdue]
    refine iff_of_false (not_takingOver_of_not_gained ?_) fun h => hdue ⟨h.1.1, h.1.2.1⟩
    rintro loop' ⟨rfl⟩
    rfl

theorem Manned.step {event : DrainEvent sub} (h : w.Manned)
    (hstep : DrainWorld.Step setup w event w') (horderly : event.Orderly setup w) : w'.Manned := by
  have hkept : ∀ {w₁ : DrainWorld sub}, w₁.queue = w.queue → w₁.dead = w.dead →
      (∀ thread ∈ w₁.threads, thread ∈ w.threads ∨
        thread.process ∉ w.dead ∧ (thread.TakingOver → ¬w₁.Orphaned thread.streamId)) →
      w₁.Manned := fun hqueue hdead => h.of_flies (hqueue ▸ .refl _) hdead
  cases hstep with
  | enqueued hinsert =>
    have hsettles := @IngestQueue.settles_enqueued w.queue [] (fun _ => none) _ _ hinsert
    exact h.of_flies (IngestQueue.flies_of_settles hsettles) rfl fun _ => Or.inl
  | ticked hnow => exact hkept rfl rfl fun _ => Or.inl
  | mounted streamId leased hprocess =>
    refine hkept rfl rfl fun thread hthread => ?_
    rcases List.mem_append.mp hthread with hold | hnew
    · exact Or.inl hold
    · rw [List.mem_singleton.mp hnew]
      refine Or.inr ⟨hprocess, fun htaking => absurd htaking (not_takingOver_of_not_gained ?_)⟩
      rintro loop ⟨rfl⟩
      rfl
  | pumped streamId ingestFailureActive hprocess =>
    refine hkept rfl rfl fun thread hthread => ?_
    rcases List.mem_append.mp hthread with hold | hnew
    · exact Or.inl hold
    · rw [List.mem_singleton.mp hnew]
      refine Or.inr ⟨hprocess, fun htaking => absurd htaking (not_takingOver_of_not_gained ?_)⟩
      intro loop hloop
      cases hloop
  | @checked pre post old loop ingestFailureActive hw hloop htop =>
    obtain ⟨leases, hleases⟩ := @checkLease_fst sub setup w old loop ingestFailureActive
    obtain ⟨hprocess, hstream⟩ := @checkLease_eq sub setup w old loop ingestFailureActive
    rw [hleases]
    refine hkept rfl rfl fun thread hthread => ?_
    rcases mem_replace hw hthread with hold | hnew
    · exact Or.inl hold
    · have hmem : old ∈ w.threads := hw ▸ List.mem_append_right _ List.mem_cons_self
      rw [List.mem_singleton.mp hnew, hprocess, hstream]
      refine Or.inr ⟨h.alive old hmem, fun htaking => ?_⟩
      obtain ⟨hgains, hflag⟩ := (takingOver_checkLease ingestFailureActive htop).mp htaking
      exact horderly hgains hflag
  | @reclaimed pre post old loop ingestFailureActive hw hloop hreclaim =>
    have hsettles := @IngestQueue.settles_reclaim w.queue [] (fun _ => none) old.streamId
    refine h.of_flies (IngestQueue.flies_of_settles hsettles) rfl fun thread hthread => ?_
    rcases mem_replace hw hthread with hold | hnew
    · exact Or.inl hold
    · have hmem : old ∈ w.threads := hw ▸ List.mem_append_right _ List.mem_cons_self
      rw [List.mem_singleton.mp hnew]
      refine Or.inr ⟨h.alive old hmem, fun _ horphaned => ?_⟩
      obtain ⟨process, -, hclaimed⟩ := horphaned
      exact IngestQueue.not_claimedBy_reclaim _ _ hclaimed
  | @acted w₁ pre post old act next answer hw hact hdoes =>
    have hmem : old ∈ w.threads := hw ▸ List.mem_append_right _ List.mem_cons_self
    obtain ⟨hflies, hdead⟩ :=
      @IngestQueue.flies_does sub setup (· ∉ w.dead) _ _ _ _ _ hdoes (h.alive old hmem)
    refine h.of_flies hflies hdead fun thread hthread => ?_
    rcases mem_replace hw hthread with hold | hnew
    · exact Or.inl hold
    · rw [List.mem_singleton.mp hnew]
      refine Or.inr ⟨h.alive old hmem, fun htaking => absurd htaking ?_⟩
      refine not_takingOver_of_not_gained fun loop hloop => ?_
      obtain ⟨before, -, rfl⟩ := Option.mem_map.mp hloop
      rfl
  | panicked hw hact hrun =>
    refine hkept rfl rfl fun thread hthread => ?_
    rcases mem_replace hw hthread with hold | hnew
    · exact Or.inl hold
    · exact absurd hnew List.not_mem_nil
  | @finished pre post old loop hw hloop hpass hdone =>
    refine hkept rfl rfl fun thread hthread => ?_
    rcases mem_replace hw hthread with hold | hnew
    · exact Or.inl hold
    · have hmem : old ∈ w.threads := hw ▸ List.mem_append_right _ List.mem_cons_self
      rw [List.mem_singleton.mp hnew]
      refine Or.inr ⟨h.alive old hmem, fun htaking => absurd htaking (not_takingOver_of_phase ?_)⟩
      rintro loop' ⟨rfl⟩ hphase
      cases hphase
  | @stopped pre post old hw hdone htop =>
    obtain ⟨leases, hleases⟩ := @release_eq sub w old.process old.streamId
    rw [hleases]
    refine hkept rfl rfl fun thread hthread => ?_
    rcases mem_replace hw hthread with hold | hnew
    · exact Or.inl hold
    · exact absurd hnew List.not_mem_nil
  | crashed process =>
    refine ⟨fun thread hthread => ?_, fun thread hthread htaking => ?_⟩
    · obtain ⟨hold, hother⟩ := List.mem_filter.mp hthread
      rw [decide_eq_true_eq] at hother
      rintro hmem
      rcases List.mem_cons.mp hmem with hsame | hmem
      · exact hother hsame
      · exact h.alive thread hold hmem
    · obtain ⟨hold, hother⟩ := List.mem_filter.mp hthread
      rw [decide_eq_true_eq] at hother
      rintro ⟨other, hdied, hclaimed⟩
      rcases List.mem_cons.mp hdied with rfl | hdied
      · exact horderly thread hold htaking hother hclaimed
      · exact h.takenOver thread hold htaking ⟨other, hdied, hclaimed⟩
  | called hrun => exact hkept rfl rfl fun _ => Or.inl
  | callFailed hrun => exact hkept rfl rfl fun _ => Or.inl

/-- A step that is not orderly leaves an orphan to one who has just taken over. -/
theorem orderly_of_takenOver {event : DrainEvent sub}
    (hstep : DrainWorld.Step setup w event w') (h : w'.TakenOver) : event.Orderly setup w := by
  cases hstep with
  | @checked pre post old loop ingestFailureActive hw hloop htop =>
    intro hgains hflag horphaned
    obtain ⟨leases, hleases⟩ := @checkLease_fst sub setup w old loop ingestFailureActive
    obtain ⟨-, hstream⟩ := @checkLease_eq sub setup w old loop ingestFailureActive
    refine h _ (List.mem_append_left _ (List.mem_append_right _ List.mem_cons_self))
      ((takingOver_checkLease ingestFailureActive htop).mpr ⟨hgains, hflag⟩) ?_
    rw [hleases, hstream]
    exact horphaned
  | crashed process =>
    intro thread hthread htaking hother hclaimed
    refine h thread (List.mem_filter.mpr ⟨hthread, decide_eq_true hother⟩) htaking ?_
    exact ⟨process, List.mem_cons_self, hclaimed⟩
  | _ => trivial

def OrderlySteps (setup : DrainSetup) (w w' : DrainWorld sub) : Prop :=
  ∃ event, DrainWorld.Step setup w event w' ∧ event.Orderly setup w

theorem Start.manned (h : w.Start) : w.Manned := by
  have hthreads : ∀ thread, thread ∉ w.threads := by
    rw [h.threads]
    exact fun _ => List.not_mem_nil
  exact ⟨fun thread hthread => absurd hthread (hthreads thread),
    fun thread hthread => absurd hthread (hthreads thread)⟩

theorem Manned.run (h : w.Manned) (hrun : Relation.ReflTransGen (OrderlySteps setup) w w') :
    w'.Manned := by
  induction hrun with
  | refl => exact h
  | tail _ hstep ih =>
    obtain ⟨event, hstep, horderly⟩ := hstep
    exact ih.step hstep horderly

end DrainWorld

/-- Who has just taken over has no orphans as long as every step is orderly, and no longer. -/
theorem takenOver_iff_orderly {w₀ w : DrainWorld sub} (hstart : w₀.Start)
    (h : Relation.ReflTransGen (DrainWorld.OrderlySteps setup) w₀ w) :
    w.TakenOver ∧ ∀ event w', DrainWorld.Step setup w event w' →
      (w'.TakenOver ↔ event.Orderly setup w) := by
  have hmanned := hstart.manned.run h
  refine ⟨hmanned.takenOver, fun event w' hstep => ⟨fun h' => ?_, fun horderly => ?_⟩⟩
  · exact DrainWorld.orderly_of_takenOver hstep h'
  · exact (hmanned.step hstep horderly).takenOver

namespace ReferenceCorpus

/-- A loop of the process that has made its claim, and what is left of its pass. -/
def claimant (process now session : Nat) (jobs : List Job) (drain : Drain referenceCorpus) :
    DrainThread referenceCorpus :=
  ⟨process, .encodeStream, some ⟨true, some now, true, false, .inPass⟩,
    [(⟨session, process⟩, jobs)], drain⟩

/-- A loop that is not blocked mounts, reclaims what is in flight and claims it. -/
theorem exists_mounted (w : DrainWorld referenceCorpus) {process : Nat} (hprocess : process ∉ w.dead)
    (hblocked : ¬w.Blocked process .encodeStream) : ∃ drain : Drain referenceCorpus,
    (w.queue.jobs.rows = [] → drain = .done) ∧
      Relation.ReflTransGen (DrainWorld.OrderlySteps drainSetup) w
        { w.acquire drainSetup process .encodeStream with
          queue := (w.queue.reclaim .encodeStream).drainForStream .encodeStream process
          threads := w.threads ++ [claimant process w.now w.queue.nextSession
            ((w.queue.reclaim .encodeStream).pending .encodeStream) drain] } := by
  let loop : DrainLoop := ⟨true, none, false, false, .atTop⟩
  let mounted : DrainThread referenceCorpus := ⟨process, .encodeStream, some loop, [], .done⟩
  let gained : Bool := !decide (w.Holds process .encodeStream)
  let held : DrainLoop := ⟨true, some w.now, false, gained, .atReclaim⟩
  let holder : DrainThread referenceCorpus := ⟨process, .encodeStream, some held, [], .done⟩
  let w₁ := w.withThreads (w.threads ++ [mounted])
  let acquired := w.acquire drainSetup process .encodeStream
  let threads (thread : DrainThread referenceCorpus) := w.threads ++ [thread] ++ []
  have hthreads : ∀ thread, threads thread = w.threads ++ [thread] := fun _ => List.append_nil _
  have hmount : DrainWorld.OrderlySteps drainSetup w w₁ :=
    ⟨_, @DrainWorld.Step.mounted _ drainSetup w process .encodeStream true hprocess, trivial⟩
  have hcheck : DrainWorld.OrderlySteps drainSetup w₁ (acquired.withThreads (threads holder)) := by
    have hchecked : w₁.checkLease drainSetup mounted loop false =
        (w₁.acquire drainSetup process .encodeStream, holder) := by
      have hfree : ¬w₁.Blocked mounted.process mounted.streamId := hblocked
      rw [DrainWorld.checkLease, if_pos ⟨rfl, rfl⟩, if_neg hfree]
      rfl
    have hstep := @DrainWorld.Step.checked _ drainSetup w₁ w.threads [] mounted loop false rfl rfl
      rfl
    rw [hchecked] at hstep
    exact ⟨.check mounted loop, hstep, fun _ hflag => absurd hflag Bool.false_ne_true⟩
  let reclaimed : DrainWorld referenceCorpus :=
    { acquired with queue := w.queue.reclaim .encodeStream }
  let runner : DrainThread referenceCorpus := ⟨process, .encodeStream,
    some ⟨true, some w.now, true, gained, .inPass⟩, [], drainSetup.pass .encodeStream false⟩
  have hreclaim : DrainWorld.OrderlySteps drainSetup (acquired.withThreads (threads holder))
      (reclaimed.withThreads (threads runner)) :=
    ⟨_, @DrainWorld.Step.reclaimed _ drainSetup (acquired.withThreads (threads holder)) w.threads []
      holder held false (hthreads holder) rfl rfl, trivial⟩
  let claim : QueueSession × List Job :=
    (⟨w.queue.nextSession, process⟩, reclaimed.queue.pending .encodeStream)
  obtain ⟨next, hpass, hnext⟩ : ∃ next : Option (QueueSession × List Job) → Drain referenceCorpus,
      drainSetup.pass .encodeStream false = .act (.drainForStream .encodeStream) next ∧
        ∀ session, next (some (session, [])) = .done := ⟨_, rfl, fun _ => rfl⟩
  have hclaim : DrainWorld.OrderlySteps drainSetup (reclaimed.withThreads (threads runner))
      ({ reclaimed with queue := reclaimed.queue.drainForStream .encodeStream process }.withThreads
        (threads (claimant process w.now w.queue.nextSession claim.2 (next (some claim))))) := by
    have hstep := @DrainWorld.Step.acted _ drainSetup (reclaimed.withThreads (threads runner)) _
      w.threads [] runner (.drainForStream .encodeStream) next (some claim) (hthreads runner) hpass
      (.claimed .encodeStream)
    exact ⟨_, hstep, trivial⟩
  refine ⟨next (some claim), fun hempty => ?_, ?_⟩
  · have hnone : claim.2 = [] := by
      simp [claim, reclaimed, IngestQueue.pending, IngestQueue.reclaim, IngestQueue.restatus, hempty]
    show next (some (claim.1, claim.2)) = .done
    rw [hnone, hnext]
  · rw [← hthreads]
    exact .tail (.tail (.tail (.tail .refl hmount) hcheck) hreclaim) hclaim

/-- A loop that mounted over an empty queue, at the top again. -/
def veteran : DrainThread referenceCorpus :=
  ⟨0, .encodeStream, some ⟨true, some 0, true, false, .atTop⟩, [(⟨0, 0⟩, [])], .done⟩

/-- One process stalled after its first pass, another took over, claimed a job and died. -/
def stranded : DrainWorld referenceCorpus where
  queue := ⟨⟨[⟨encodeJob, .inFlight ⟨1, 1⟩⟩], List.nodup_singleton _⟩, 2⟩
  corpus := opened fixedModels
  succeeded := []
  now := 200
  leases := Function.update (Function.update (fun _ => none) .encodeStream (some ⟨0, 30⟩))
    .encodeStream (some ⟨1, 130⟩)
  dead := [1]
  threads := [veteran]

theorem stranded_reached :
    Relation.ReflTransGen (DrainWorld.OrderlySteps drainSetup) undrained stranded := by
  obtain ⟨drain, hdrain, hfirst⟩ := @exists_mounted undrained 0 List.not_mem_nil (by decide)
  obtain rfl := hdrain rfl
  let idle : DrainWorld referenceCorpus :=
    { undrained with
      queue := ⟨.empty, 1⟩
      leases := Function.update (fun _ => none) .encodeStream (some ⟨0, 30⟩)
      threads := [veteran] }
  have hfinished : DrainWorld.OrderlySteps drainSetup
      { undrained.acquire drainSetup 0 .encodeStream with
        queue := (undrained.queue.reclaim .encodeStream).drainForStream .encodeStream 0
        threads := [claimant 0 0 0 [] .done] } idle :=
    ⟨_, @DrainWorld.Step.finished _ drainSetup _ [] [] (claimant 0 0 0 [] .done) _ rfl rfl rfl rfl,
      trivial⟩
  let waiting : DrainWorld referenceCorpus :=
    { idle with
      queue := ⟨KeyedTable.empty.put ⟨encodeJob, .new⟩, 1⟩
      now := 100 }
  have henqueued : DrainWorld.OrderlySteps drainSetup idle { waiting with now := 0 } :=
    ⟨_, @DrainWorld.Step.enqueued _ drainSetup idle encodeJob waiting.queue.jobs rfl, trivial⟩
  have hlater : DrainWorld.OrderlySteps drainSetup { waiting with now := 0 } waiting :=
    ⟨_, @DrainWorld.Step.ticked _ drainSetup { waiting with now := 0 } 100 (Nat.zero_le _), trivial⟩
  obtain ⟨next, -, hsecond⟩ := @exists_mounted waiting 1 List.not_mem_nil (by decide)
  have hcrashed : DrainWorld.OrderlySteps drainSetup
      { waiting.acquire drainSetup 1 .encodeStream with
        queue := (waiting.queue.reclaim .encodeStream).drainForStream .encodeStream 1
        threads := [veteran] ++ [claimant 1 100 1
          ((waiting.queue.reclaim .encodeStream).pending .encodeStream) next] }
      { stranded with now := 100 } := by
    refine ⟨_, @DrainWorld.Step.crashed _ drainSetup _ 1, fun thread hthread htaking _ => ?_⟩
    refine absurd htaking (DrainWorld.not_takingOver_of_not_gained fun loop hloop => ?_)
    rcases List.mem_append.mp hthread with hthread | hthread
    · rw [List.mem_singleton.mp hthread] at hloop
      cases hloop
      rfl
    · rw [List.mem_singleton.mp hthread] at hloop
      cases hloop
      rfl
  have hlast : DrainWorld.OrderlySteps drainSetup { stranded with now := 100 } stranded :=
    ⟨_, @DrainWorld.Step.ticked _ drainSetup { stranded with now := 100 } 200 (by decide), trivial⟩
  have hidle := Relation.ReflTransGen.tail (Relation.ReflTransGen.tail hfirst hfinished) henqueued
  exact .tail (.tail ((hidle.tail hlater).trans hsecond) hcrashed) hlast

/-- The process that stalled comes back to the lease. It has reclaimed before, and goes on. -/
theorem exists_orphaned : ∃ w,
    DrainWorld.Steps drainSetup stranded w ∧ ¬w.TakenOver := by
  have hstep := @DrainWorld.Step.checked _ drainSetup stranded [] [] veteran
    ⟨true, some 0, true, false, .atTop⟩ false rfl rfl rfl
  refine ⟨_, ⟨_, hstep⟩, fun h => ?_⟩
  have horderly := DrainWorld.orderly_of_takenOver hstep h ⟨rfl, by decide, by decide, by decide⟩ rfl
  exact horderly ⟨1, List.mem_cons_self, _, List.mem_cons_self, rfl, _, rfl, rfl⟩

end ReferenceCorpus

/-- A run to where the next step is not orderly. -/
theorem takenOver_iff_orderly_reference :
    ∃ w : DrainWorld referenceCorpus, w.Orphaned .encodeStream ∧ w.TakenOver ∧
      ∀ event w', DrainWorld.Step ReferenceCorpus.drainSetup w event w' →
        (w'.TakenOver ↔ event.Orderly ReferenceCorpus.drainSetup w) := by
  refine ⟨ReferenceCorpus.stranded, ?_, ?_⟩
  · exact ⟨1, List.mem_cons_self, _, List.mem_cons_self, rfl, _, rfl, rfl⟩
  · exact takenOver_iff_orderly ⟨rfl, rfl⟩ ReferenceCorpus.stranded_reached

/-- Not in every run has who has just taken over no orphans. -/
theorem not_takenOver : ∃ w₀ w : DrainWorld referenceCorpus, w₀.Start ∧
    Relation.ReflTransGen (DrainWorld.Steps ReferenceCorpus.drainSetup) w₀ w ∧ ¬w.TakenOver := by
  obtain ⟨w, hstep, hnot⟩ := ReferenceCorpus.exists_orphaned
  have hrun : Relation.ReflTransGen (DrainWorld.Steps ReferenceCorpus.drainSetup)
      ReferenceCorpus.undrained ReferenceCorpus.stranded :=
    ReferenceCorpus.stranded_reached.lift id fun _ _ ⟨event, hstep, _⟩ => ⟨event, hstep⟩
  exact ⟨_, w, ⟨rfl, rfl⟩, hrun.tail hstep, hnot⟩

end MootMemory
