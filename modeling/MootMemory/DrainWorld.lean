import MootMemory.DrainPrograms

namespace MootMemory

/-- What the drainers of an estate are set up with: how its queue is read, whether the estate is a
file, and the times of a lease, which are the queue's own. -/
structure DrainSetup where
  weighting : ImpactWeighting
  fromSlice : Blob → Option IngestJob
  onDisk : Bool
  leaseHeartbeatSecs : Nat
  leaseTtlSecs : Nat

structure DrainLease where
  owner : Nat
  expiresAt : Nat

inductive LoopPhase where
  | atTop
  | atReclaim
  | inPass
deriving DecidableEq

/-- What a drain loop keeps from pass to pass. That the lease has just been gained is remembered
until the pass makes its claim. -/
structure DrainLoop where
  leased : Bool
  heldLeaseAt : Option Nat
  reclaimedOnMount : Bool
  gained : Bool
  phase : LoopPhase

variable (sub : CorpusSubstrate)

/-- A thread that drains a stream: a loop, or a pump. Its claims of the pass are remembered. -/
structure DrainThread where
  process : Nat
  streamId : IngestStream
  loop : Option DrainLoop
  claims : List (QueueSession × List Job)
  drain : Drain sub

/-- An estate with its queue and its leases, and all that drain it. -/
structure DrainWorld where
  queue : IngestQueue
  corpus : Corpus sub
  succeeded : List (List IngestItem)
  now : Nat
  leases : IngestStream → Option DrainLease
  dead : List Nat
  threads : List (DrainThread sub)

variable {sub} (setup : DrainSetup)

/-- A pass over a stream. -/
def DrainSetup.pass (streamId : IngestStream) (ingestFailureActive : Bool) : Drain sub :=
  match streamId with
  | .encodeStream => drainWithQueue setup.fromSlice ingestFailureActive
  | .importStream => drainImportWithQueue setup.fromSlice setup.onDisk

namespace DrainThread

variable (thread : DrainThread sub)

def begin (loop : Option DrainLoop) (ingestFailureActive : Bool) : DrainThread sub :=
  { thread with
    loop := loop.map fun loop => { loop with phase := .inPass }
    claims := []
    drain := setup.pass thread.streamId ingestFailureActive }

end DrainThread

namespace DrainWorld

variable (w : DrainWorld sub)

/-- The owner has the lease, and it has not expired. -/
def Holds (owner : Nat) (streamId : IngestStream) : Prop :=
  ∃ lease ∈ w.leases streamId, lease.owner = owner ∧ w.now < lease.expiresAt

/-- `try_acquire` fails where another owner's lease has not expired. -/
def Blocked (owner : Nat) (streamId : IngestStream) : Prop :=
  ∃ lease ∈ w.leases streamId, lease.owner ≠ owner ∧ w.now < lease.expiresAt

instance (owner : Nat) (streamId : IngestStream) : Decidable (w.Holds owner streamId) :=
  inferInstanceAs (Decidable (∃ lease ∈ w.leases streamId, _))

instance (owner : Nat) (streamId : IngestStream) : Decidable (w.Blocked owner streamId) :=
  inferInstanceAs (Decidable (∃ lease ∈ w.leases streamId, _))

def acquire (owner : Nat) (streamId : IngestStream) : DrainWorld sub :=
  let lease : DrainLease := ⟨owner, w.now + setup.leaseTtlSecs⟩
  { w with leases := Function.update w.leases streamId (some lease) }

/-- `release`, by whom it belongs to. -/
def release (owner : Nat) (streamId : IngestStream) : DrainWorld sub :=
  match w.leases streamId with
  | some lease =>
    if lease.owner = owner then { w with leases := Function.update w.leases streamId none } else w
  | none => w

def refreshDue (loop : DrainLoop) : Bool :=
  match loop.heldLeaseAt with
  | some t => setup.leaseHeartbeatSecs ≤ w.now - t
  | none => true

/-- A loop before its pass: it looks after its lease where that is due, and stands by without. -/
def checkLease (thread : DrainThread sub) (loop : DrainLoop) (ingestFailureActive : Bool) :
    DrainWorld sub × DrainThread sub :=
  if loop.leased ∧ w.refreshDue setup loop then
    if w.Blocked thread.process thread.streamId then
      (w, { thread with loop := some { loop with heldLeaseAt := none } })
    else
      let loop := { loop with
        heldLeaseAt := some w.now
        gained := !decide (w.Holds thread.process thread.streamId) }
      (w.acquire setup thread.process thread.streamId,
        if loop.reclaimedOnMount then thread.begin setup (some loop) ingestFailureActive
        else { thread with loop := some { loop with phase := .atReclaim } })
  else (w, thread.begin setup (some { loop with gained := false }) ingestFailureActive)

/-- A lease gained for the first time: what is in flight goes back. -/
def reclaimOnMount (thread : DrainThread sub) (loop : DrainLoop) (ingestFailureActive : Bool) :
    DrainWorld sub × DrainThread sub :=
  ({ w with queue := w.queue.reclaim thread.streamId },
    thread.begin setup (some { loop with reclaimedOnMount := true }) ingestFailureActive)

def withThreads (threads : List (DrainThread sub)) : DrainWorld sub := { w with threads }

/-- A call on the corpus that ends well is remembered. -/
def called (call : CorpusCall sub) (corpus : Corpus sub) : DrainWorld sub :=
  { w with corpus, succeeded := w.succeeded ++ [call.items] }

end DrainWorld

/-- An action of a process's thread, with its answer. A claim that fails claims nothing; the other
calls of the queue may fail before or after they are done. -/
inductive DrainAct.Does (process : Nat) :
    DrainWorld sub → (act : DrainAct sub) → act.Answer → DrainWorld sub → Prop
  | claimed {w : DrainWorld sub} (streamId : IngestStream) :
      Does process w (.drainForStream streamId)
        (some (⟨w.queue.nextSession, process⟩, w.queue.pending streamId))
        { w with queue := w.queue.drainForStream streamId process }
  | claimFailed {w : DrainWorld sub} (streamId : IngestStream) :
      Does process w (.drainForStream streamId) none w
  | deferred {w : DrainWorld sub} (ok : Bool) : Does process w .beginDeferredVectorIndex ok w
  | returned {w : DrainWorld sub} {call : CorpusCall sub} {threads : Threads}
      {faults : List (Option CorpusKitError)} {s : Session sub}
      (h : call.run setup.weighting threads ⟨w.corpus, faults⟩ = .ok () s) :
      Does process w (.call call) true (w.called call s.corpus)
  | failed {w : DrainWorld sub} {call : CorpusCall sub} {threads : Threads}
      {faults : List (Option CorpusKitError)} {e : CorpusKitError} {s : Session sub}
      (h : call.run setup.weighting threads ⟨w.corpus, faults⟩ = .error (.err e) s) :
      Does process w (.call call) false { w with corpus := s.corpus }
  | replied {w : DrainWorld sub} (job : Job) (status : ObservationStatus) (landed : Bool) :
      Does process w (.reply job status) ()
        { w with queue := if landed then w.queue.reply job status else w.queue }
  | repliedSession {w : DrainWorld sub} (session : QueueSession) (status : ObservationStatus) :
      Does process w (.replySession session status)
        (w.queue.jobs.rows.countP fun row => row.status = .inFlight session)
        { w with queue := w.queue.replySession session status }
  | sessionFailed {w : DrainWorld sub} (session : QueueSession) (status : ObservationStatus)
      (landed : Bool) : Does process w (.replySession session status) (0 : Nat)
        { w with queue := if landed then w.queue.replySession session status else w.queue }
  | repliedBatch {w : DrainWorld sub} {completions landed : List (Job × ObservationStatus)}
      (h : landed.Sublist completions) :
      Does process w (.replyBatch completions) () { w with queue := w.queue.replyBatch landed }

/-- The steps that tell which process takes over from which; the others are all one. -/
inductive DrainEvent (sub : CorpusSubstrate) where
  | check (thread : DrainThread sub) (loop : DrainLoop)
  | crash (process : Nat)
  | other

/-- One step of the estate, of whoever takes it. -/
inductive DrainWorld.Step : DrainWorld sub → DrainEvent sub → DrainWorld sub → Prop
  | enqueued {w : DrainWorld sub} {job : Job} {jobs : KeyedTable QueuedJob.id}
      (h : w.queue.jobs.insert? ⟨job, .new⟩ = some jobs) :
      Step w .other { w with queue := { w.queue with jobs } }
  | ticked {w : DrainWorld sub} {now : Nat} (h : w.now ≤ now) : Step w .other { w with now }
  | mounted {w : DrainWorld sub} {process : Nat} (streamId : IngestStream) (leased : Bool)
      (h : process ∉ w.dead) :
      Step w .other (w.withThreads (w.threads ++
        [⟨process, streamId, some ⟨leased, none, false, false, .atTop⟩, [], .done⟩]))
  | pumped {w : DrainWorld sub} {process : Nat} (streamId : IngestStream)
      (ingestFailureActive : Bool) (h : process ∉ w.dead) :
      Step w .other (w.withThreads (w.threads ++
        [⟨process, streamId, none, [], setup.pass streamId ingestFailureActive⟩]))
  | checked {w : DrainWorld sub} {pre post : List (DrainThread sub)} {thread : DrainThread sub}
      {loop : DrainLoop} (ingestFailureActive : Bool) (hw : w.threads = pre ++ thread :: post)
      (hloop : thread.loop = some loop) (htop : loop.phase = .atTop) :
      Step w (.check thread loop) ((w.checkLease setup thread loop ingestFailureActive).1.withThreads
        (pre ++ [(w.checkLease setup thread loop ingestFailureActive).2] ++ post))
  | reclaimed {w : DrainWorld sub} {pre post : List (DrainThread sub)} {thread : DrainThread sub}
      {loop : DrainLoop} (ingestFailureActive : Bool) (hw : w.threads = pre ++ thread :: post)
      (hloop : thread.loop = some loop) (hreclaim : loop.phase = .atReclaim) :
      Step w .other ((w.reclaimOnMount setup thread loop ingestFailureActive).1.withThreads
        (pre ++ [(w.reclaimOnMount setup thread loop ingestFailureActive).2] ++ post))
  | acted {w w' : DrainWorld sub} {pre post : List (DrainThread sub)} {thread : DrainThread sub}
      {act : DrainAct sub} {next : act.Answer → Drain sub} {answer : act.Answer}
      (hw : w.threads = pre ++ thread :: post) (hact : thread.drain = .act act next)
      (hdoes : act.Does setup thread.process w answer w') :
      Step w .other (w'.withThreads (pre ++ [{ thread with
        loop := thread.loop.map fun loop => { loop with gained := false }
        claims := (DrainKnows.learn ⟨w.succeeded, thread.claims⟩ act answer).claims
        drain := next answer }] ++ post))
  | panicked {w : DrainWorld sub} {pre post : List (DrainThread sub)} {thread : DrainThread sub}
      {call : CorpusCall sub} {next : Bool → Drain sub} {threads : Threads}
      {faults : List (Option CorpusKitError)} {s : Session sub}
      (hw : w.threads = pre ++ thread :: post) (hact : thread.drain = .act (.call call) next)
      (h : call.run setup.weighting threads ⟨w.corpus, faults⟩ = .error .panic s) :
      Step w .other { w with corpus := s.corpus, threads := pre ++ [] ++ post }
  | finished {w : DrainWorld sub} {pre post : List (DrainThread sub)} {thread : DrainThread sub}
      {loop : DrainLoop} (hw : w.threads = pre ++ thread :: post)
      (hloop : thread.loop = some loop) (hpass : loop.phase = .inPass)
      (hdone : thread.drain = .done) :
      Step w .other (w.withThreads
        (pre ++ [{ thread with loop := some { loop with phase := .atTop } }] ++ post))
  | stopped {w : DrainWorld sub} {pre post : List (DrainThread sub)} {thread : DrainThread sub}
      (hw : w.threads = pre ++ thread :: post) (hdone : thread.drain = .done)
      (htop : ∀ loop ∈ thread.loop, loop.phase = .atTop) :
      Step w .other ((w.release thread.process thread.streamId).withThreads (pre ++ [] ++ post))
  | crashed {w : DrainWorld sub} (process : Nat) :
      Step w (.crash process) { w with
        dead := process :: w.dead
        threads := w.threads.filter fun thread => thread.process ≠ process }
  | called {w : DrainWorld sub} {call : CorpusCall sub} {threads : Threads}
      {faults : List (Option CorpusKitError)} {s : Session sub}
      (h : call.run setup.weighting threads ⟨w.corpus, faults⟩ = .ok () s) :
      Step w .other (w.called call s.corpus)
  | callFailed {w : DrainWorld sub} {call : CorpusCall sub} {threads : Threads}
      {faults : List (Option CorpusKitError)} {e : CorpusFault} {s : Session sub}
      (h : call.run setup.weighting threads ⟨w.corpus, faults⟩ = .error e s) :
      Step w .other { w with corpus := s.corpus }

def DrainWorld.Steps (w w' : DrainWorld sub) : Prop := ∃ event, DrainWorld.Step setup w event w'

/-- An estate with an empty queue that nobody drains yet. -/
structure DrainWorld.Start (w : DrainWorld sub) : Prop where
  queue : w.queue.jobs = .empty
  threads : w.threads = []

end MootMemory
