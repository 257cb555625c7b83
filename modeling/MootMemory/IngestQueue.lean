import MootMemory.CorpusTypes

namespace MootMemory

/-- What the queue carries for one source. -/
structure IngestJob where
  sourceId : String
  text : String
  capturedAtIso8601 : String
deriving DecidableEq, Repr

section Iso8601

/-- An integer with a sign or without. -/
def parseInt (bytes : List UInt8) : Option Int :=
  let digits (bytes : List UInt8) : Option Int :=
    if bytes ≠ [] ∧ bytes.all (fun b => 48 ≤ b && b ≤ 57) then
      some (bytes.foldl (fun n b => n * 10 + (b.toNat - 48)) 0 : Nat)
    else none
  match bytes with
  | 43 :: rest => digits rest
  | 45 :: rest => (digits rest).map fun n => -n
  | _ => digits bytes

/-- Days from 1970-01-01. -/
def daysFromCivil (y m d : Int) : Int :=
  let y := if m ≤ 2 then y - 1 else y
  let era := (if 0 ≤ y then y else y - 399).tdiv 400
  let yoe := y - era * 400
  let doy := (153 * (if 2 < m then m - 3 else m + 9) + 2).tdiv 5 + d - 1
  let doe := yoe * 365 + yoe.tdiv 4 - yoe.tdiv 100 + doy
  era * 146097 + doe - 719468

/-- `YYYY-MM-DDThh:mm:ss.sssZ` in milliseconds. -/
def iso8601ToMillis (s : String) : Option Int :=
  let b := s.toUTF8.data.toList
  let field (start stop : Nat) : Option Int := parseInt ((b.take stop).drop start)
  if b.length ≠ 24 ∨ b[4]? ≠ some 45 ∨ b[7]? ≠ some 45 ∨ b[10]? ≠ some 84 ∨ b[13]? ≠ some 58 ∨
      b[16]? ≠ some 58 ∨ b[19]? ≠ some 46 ∨ b[23]? ≠ some 90 then none
  else do
    let y ← field 0 4
    let m ← field 5 7
    let d ← field 8 10
    let hh ← field 11 13
    let mm ← field 14 16
    let ss ← field 17 19
    let frac ← field 20 23
    pure ((daysFromCivil y m d * 86400 + hh * 3600 + mm * 60 + ss) * 1000 + frac)

/-- A stamp that cannot be read stands for the epoch. -/
def IngestJob.capturedAtMillis (job : IngestJob) : Int :=
  (iso8601ToMillis job.capturedAtIso8601).getD 0

end Iso8601

/-- The streams of a corpus's queue. -/
inductive IngestStream where
  | encodeStream
  | importStream
deriving DecidableEq, Repr

structure Job where
  id : String
  streamId : IngestStream
  payload : Blob
deriving DecidableEq, Repr

/-- The tag of a claim, with the process that made it. -/
structure QueueSession where
  number : Nat
  process : Nat
deriving DecidableEq, Repr

/-- What a job is answered with. -/
inductive ObservationStatus where
  | done
  | blocked
deriving DecidableEq, Repr

/-- Where a job is. -/
inductive JobStatus where
  | new
  | inFlight (session : QueueSession)
  | answered (status : ObservationStatus)
deriving DecidableEq, Repr

structure QueuedJob where
  job : Job
  status : JobStatus
deriving DecidableEq, Repr

def QueuedJob.id (row : QueuedJob) : String := row.job.id

/-- The queue of an estate. Claims are numbered on, so that each session is a fresh one. -/
structure IngestQueue where
  jobs : KeyedTable QueuedJob.id
  nextSession : Nat

namespace IngestQueue

variable (queue : IngestQueue)

/-- Every row gets a new status. -/
def restatus (f : QueuedJob → JobStatus) : IngestQueue :=
  { queue with
    jobs := ⟨queue.jobs.rows.map fun row => { row with status := f row }, by
      have hids : (queue.jobs.rows.map fun row => { row with status := f row }).map QueuedJob.id =
          queue.jobs.rows.map QueuedJob.id := by
        rw [List.map_map]
        rfl
      rw [hids]
      exact queue.jobs.nodup⟩ }

/-- The jobs of a stream that nobody has claimed. -/
def pending (streamId : IngestStream) : List Job :=
  (queue.jobs.rows.filter fun row => row.job.streamId = streamId ∧ row.status = .new).map (·.job)

/-- `drain_for_stream`: all new jobs of the stream go to a fresh session. -/
def drainForStream (streamId : IngestStream) (process : Nat) : IngestQueue :=
  { queue.restatus (fun row =>
      if row.job.streamId = streamId ∧ row.status = .new then
        .inFlight ⟨queue.nextSession, process⟩
      else row.status) with
    nextSession := queue.nextSession + 1 }

/-- `reply`, whatever the status was. -/
def reply (job : Job) (status : ObservationStatus) : IngestQueue :=
  queue.restatus fun row => if row.id = job.id then .answered status else row.status

def replyBatch (completions : List (Job × ObservationStatus)) : IngestQueue :=
  completions.foldl (fun queue completion => queue.reply completion.1 completion.2) queue

/-- `reply_session`: what of the session is still in flight. -/
def replySession (session : QueueSession) (status : ObservationStatus) : IngestQueue :=
  queue.restatus fun row =>
    if row.status = .inFlight session then .answered status else row.status

/-- `reclaim_in_flight_for_stream`. -/
def reclaim (streamId : IngestStream) : IngestQueue :=
  queue.restatus fun row =>
    match row.status with
    | .inFlight _ => if row.job.streamId = streamId then .new else row.status
    | _ => row.status

theorem mem_restatus {f : QueuedJob → JobStatus} {row : QueuedJob} :
    row ∈ (queue.restatus f).jobs.rows ↔
      ∃ old ∈ queue.jobs.rows, row = { old with status := f old } := by
  rw [restatus, List.mem_map]
  exact exists_congr fun old => and_congr_right fun _ => eq_comm

/-- What jobs are in the queue; their places apart. -/
def known : List Job := queue.jobs.rows.map (·.job)

@[simp] theorem known_restatus (f : QueuedJob → JobStatus) :
    (queue.restatus f).known = queue.known := by
  rw [known, restatus, List.map_map]
  rfl

@[simp] theorem known_drainForStream (streamId : IngestStream) (process : Nat) :
    (queue.drainForStream streamId process).known = queue.known := known_restatus _ _

@[simp] theorem known_replySession (session : QueueSession) (status : ObservationStatus) :
    (queue.replySession session status).known = queue.known := known_restatus _ _

@[simp] theorem known_reclaim (streamId : IngestStream) :
    (queue.reclaim streamId).known = queue.known := known_restatus _ _

@[simp] theorem known_replyBatch (completions : List (Job × ObservationStatus)) :
    (queue.replyBatch completions).known = queue.known := by
  induction completions generalizing queue with
  | nil => rfl
  | cons completion completions ih => exact (ih _).trans (known_restatus _ _)

/-- A row after a batch of replies is the one before, or has an answer of the batch for its job. -/
theorem mem_replyBatch {completions : List (Job × ObservationStatus)} {row : QueuedJob}
    (h : row ∈ (queue.replyBatch completions).jobs.rows) : row ∈ queue.jobs.rows ∨
      ∃ completion ∈ completions, row.id = completion.1.id ∧ row.status = .answered completion.2 := by
  induction completions generalizing queue with
  | nil => exact Or.inl h
  | cons completion completions ih =>
    rcases ih _ h with hbefore | ⟨other, hother, hrow⟩
    · obtain ⟨old, hold, rfl⟩ := (mem_restatus _).mp hbefore
      by_cases hid : old.id = completion.1.id
      · exact Or.inr ⟨completion, List.mem_cons_self, hid, if_pos hid⟩
      · left
        rwa [if_neg hid]
    · exact Or.inr ⟨other, List.mem_cons_of_mem _ hother, hrow⟩

theorem job_mem_known {row : QueuedJob} (h : row ∈ queue.jobs.rows) : row.job ∈ queue.known :=
  List.mem_map_of_mem h

/-- Jobs of one id are one job. -/
theorem eq_of_mem_known {job job' : Job} (h : job ∈ queue.known) (h' : job' ∈ queue.known)
    (hid : job.id = job'.id) : job = job' := by
  obtain ⟨row, hrow, rfl⟩ := List.mem_map.mp h
  obtain ⟨row', hrow', rfl⟩ := List.mem_map.mp h'
  rw [queue.jobs.eq_of_key_eq hrow hrow' hid]

theorem mem_pending {streamId : IngestStream} {job : Job} : job ∈ queue.pending streamId ↔
    ⟨job, .new⟩ ∈ queue.jobs.rows ∧ job.streamId = streamId := by
  rw [pending, List.mem_map]
  constructor
  · rintro ⟨row, hrow, rfl⟩
    rw [List.mem_filter, decide_eq_true_eq] at hrow
    obtain ⟨hrow, hstream, hnew⟩ := hrow
    refine ⟨?_, hstream⟩
    rw [← hnew]
    exact hrow
  · rintro ⟨hrow, hstream⟩
    exact ⟨_, List.mem_filter.mpr ⟨hrow, by simpa using hstream⟩, rfl⟩

end IngestQueue

end MootMemory
