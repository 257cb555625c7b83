import MootMemory.IngestQueue
import MootMemory.WorkClaims
import MootMemory.ShardAgreement

namespace MootMemory

variable (sub : CorpusSubstrate)

/-- What a drainer does to the queue and the corpus, one thing at a time. -/
inductive DrainAct where
  | drainForStream (streamId : IngestStream)
  | beginDeferredVectorIndex
  | call (call : CorpusCall sub)
  | reply (job : Job) (status : ObservationStatus)
  | replySession (session : QueueSession) (status : ObservationStatus)
  | replyBatch (completions : List (Job × ObservationStatus))

variable {sub}

/-- What comes of it: the claimed jobs with their session, unless the claim fails; whether it went
well; how many jobs a session's answer found. -/
@[reducible] def DrainAct.Answer : DrainAct sub → Type
  | .drainForStream _ => Option (QueueSession × List Job)
  | .beginDeferredVectorIndex | .call _ => Bool
  | .reply _ _ | .replyBatch _ => Unit
  | .replySession _ _ => Nat

abbrev Drain (sub : CorpusSubstrate) := Program (DrainAct sub) DrainAct.Answer

def ingestMaxAttempts : Nat := 8

variable (fromSlice : Blob → Option IngestJob)

def IngestJob.item (job : IngestJob) : IngestItem := ⟨job.text, job.sourceId, job.capturedAtMillis⟩

/-- The answer to a job that there is nothing to ingest for. -/
def unfit (job : Job) : Option ObservationStatus :=
  match fromSlice job.payload with
  | none => some .blocked
  | some ingestJob => if ingestJob.text = "" then some .done else none

/-- The jobs to ingest, with what they carry. -/
def fitJobs (batch : List Job) : List (Job × IngestItem) :=
  batch.filterMap fun job =>
    match fromSlice job.payload with
    | none => none
    | some ingestJob => if ingestJob.text = "" then none else some (job, ingestJob.item)

def answerUnfit (batch : List Job) (rest : Drain sub) : Drain sub :=
  Program.each batch (fun job rest =>
    match unfit fromSlice job with
    | some status => .act (.reply job status) fun _ => rest
    | none => rest) rest

/-- A job is done only after its ingest went well, and blocked after so many failures. -/
def retryIngest (job : Job) (call : CorpusCall sub) (rest : Drain sub) : Nat → Drain sub
  | 0 => .act (.reply job .blocked) fun _ => rest
  | attempts + 1 => .act (.call call) fun ok =>
    if ok then .act (.reply job .done) fun _ => rest else retryIngest job call rest attempts

/-- `ingest_one_and_reply`, with the call that it makes for an item. -/
def ingestOneAndReply (one : IngestItem → CorpusCall sub) (job : Job) (rest : Drain sub) :
    Drain sub :=
  match fromSlice job.payload with
  | none => .act (.reply job .blocked) fun _ => rest
  | some ingestJob =>
    if ingestJob.text = "" then .act (.reply job .done) fun _ => rest
    else retryIngest job (one ingestJob.item) rest ingestMaxAttempts

/-- A session's answer retires the batch; where it finds nothing, the jobs are answered by name. -/
def retire (session : QueueSession) (jobs : List Job) : Drain sub :=
  .act (.replySession session .done) fun completed =>
    if completed = 0 then .act (.replyBatch (jobs.map fun job => (job, .done))) fun _ => .done
    else .done

/-- The batch is ingested in one call, and job by job where that fails. -/
def ingestFit (all : List IngestItem → CorpusCall sub) (one : IngestItem → CorpusCall sub)
    (session : QueueSession) (batch : List Job) : Drain sub :=
  let fit := fitJobs fromSlice batch
  if fit = [] then .done
  else .act (.call (all (fit.map (·.2)))) fun ok =>
    if ok then retire session (fit.map (·.1))
    else Program.each (fit.map (·.1)) (ingestOneAndReply fromSlice one) .done

/-- `drain_with_queue`. The failure hook of the tests makes it go job by job from the start. -/
def drainWithQueue (ingestFailureActive : Bool) : Drain sub :=
  .act (.drainForStream .encodeStream) fun claimed =>
    match claimed with
    | none => .done
    | some (session, batch) =>
      if batch = [] then .done
      else .act .beginDeferredVectorIndex fun ok =>
        if !ok then .done
        else if ingestFailureActive then
          Program.each batch (ingestOneAndReply fromSlice .ingest) .done
        else answerUnfit fromSlice batch (ingestFit fromSlice .ingestBatch .ingest session batch)

/-- `drain_import_with_queue`. -/
def drainImportWithQueue (onDisk : Bool) : Drain sub :=
  .act (.drainForStream .importStream) fun claimed =>
    match claimed with
    | none => .done
    | some (session, batch) =>
      if batch = [] then .done
      else answerUnfit fromSlice batch (ingestFit fromSlice (.ingestBatchImport onDisk)
        (fun item => .ingestBatchImport onDisk [item]) session batch)

section Safety

/-- What a drainer knows: the ingests that went well, and the jobs it claimed. -/
structure DrainKnows where
  succeeded : List (List IngestItem)
  claims : List (QueueSession × List Job)

/-- If the job carries a text, an ingest of just what it carries went well. -/
def Job.Ingested (succeeded : List (List IngestItem)) (job : Job) : Prop :=
  ∀ ingestJob, fromSlice job.payload = some ingestJob → ingestJob.text ≠ "" →
    ∃ items ∈ succeeded, ingestJob.item ∈ items

/-- The job was claimed. -/
def DrainKnows.Claimed (know : DrainKnows) (job : Job) : Prop :=
  ∃ claim ∈ know.claims, job ∈ claim.2

/-- Nothing is answered but what was claimed, and nothing is done but what was ingested. -/
def DrainAct.Pre (know : DrainKnows) : DrainAct sub → Prop
  | .drainForStream _ | .beginDeferredVectorIndex | .call _ => True
  | .reply job status => know.Claimed job ∧ (status = .done → job.Ingested fromSlice know.succeeded)
  | .replySession session status => ∃ batch, (session, batch) ∈ know.claims ∧
      (status = .done → ∀ job ∈ batch, job.Ingested fromSlice know.succeeded)
  | .replyBatch completions => ∀ completion ∈ completions, know.Claimed completion.1 ∧
      (completion.2 = .done → completion.1.Ingested fromSlice know.succeeded)

def DrainKnows.learn (know : DrainKnows) : (act : DrainAct sub) → act.Answer → DrainKnows
  | .drainForStream _, some claim => { know with claims := know.claims ++ [claim] }
  | .call call, true => { know with succeeded := know.succeeded ++ [call.items] }
  | _, _ => know

abbrev Drain.Safe (know : DrainKnows) (drain : Drain sub) : Prop :=
  Program.Safe (DrainAct.Pre fromSlice) DrainKnows.learn know drain

variable {fromSlice}

/-- Who knows of more ingests, and of the same claims. -/
structure DrainKnows.Le (know know' : DrainKnows) : Prop where
  succeeded : ∀ items ∈ know.succeeded, items ∈ know'.succeeded
  claims : know'.claims = know.claims

variable {know know' : DrainKnows} {job : Job} {batch : List Job} {session : QueueSession}

theorem Job.Ingested.mono {succeeded succeeded' : List (List IngestItem)}
    (h : job.Ingested fromSlice succeeded) (hle : ∀ items ∈ succeeded, items ∈ succeeded') :
    job.Ingested fromSlice succeeded' := by
  intro ingestJob hjob htext
  obtain ⟨items, hitems, hitem⟩ := h ingestJob hjob htext
  exact ⟨items, hle items hitems, hitem⟩

theorem DrainAct.Pre.mono {act : DrainAct sub} (hle : know.Le know') (h : act.Pre fromSlice know) :
    act.Pre fromSlice know' := by
  have hclaimed : ∀ job, know.Claimed job → know'.Claimed job := by
    rintro job ⟨claim, hclaim, hjob⟩
    exact ⟨claim, hle.claims ▸ hclaim, hjob⟩
  cases act with
  | drainForStream streamId => trivial
  | beginDeferredVectorIndex => trivial
  | call call => trivial
  | reply job status => exact ⟨hclaimed job h.1, fun hdone => (h.2 hdone).mono hle.succeeded⟩
  | replySession session status =>
    obtain ⟨batch, hbatch, hjobs⟩ := h
    exact ⟨batch, hle.claims ▸ hbatch, fun hdone job hjob => (hjobs hdone job hjob).mono hle.succeeded⟩
  | replyBatch completions =>
    intro completion hcompletion
    obtain ⟨hjob, hdone⟩ := h completion hcompletion
    exact ⟨hclaimed _ hjob, fun h => (hdone h).mono hle.succeeded⟩

theorem DrainKnows.Le.learn (hle : know.Le know') (act : DrainAct sub) (answer : act.Answer) :
    (know.learn act answer).Le (know'.learn act answer) := by
  cases act with
  | drainForStream streamId =>
    cases answer with
    | none => exact hle
    | some claim =>
      refine ⟨hle.succeeded, ?_⟩
      show know'.claims ++ [claim] = know.claims ++ [claim]
      rw [hle.claims]
  | beginDeferredVectorIndex => exact hle
  | call call =>
    cases answer with
    | false => exact hle
    | true =>
      refine ⟨fun items hitems => ?_, hle.claims⟩
      rcases List.mem_append.mp hitems with hitems | hitems
      · exact List.mem_append_left _ (hle.succeeded items hitems)
      · exact List.mem_append_right _ hitems
  | reply job status => exact hle
  | replySession session status => exact hle
  | replyBatch completions => exact hle

theorem Drain.Safe.mono {drain : Drain sub} (hle : know.Le know')
    (h : drain.Safe fromSlice know) : drain.Safe fromSlice know' :=
  @Program.Safe.mono _ _ _ (DrainAct.Pre fromSlice) DrainKnows.learn DrainKnows.Le
    (fun hle hpre => DrainAct.Pre.mono hle hpre) (fun {_ _ a answer} hle => hle.learn a answer) _ _
    hle _ h

/-- A rest that is safe wherever the claims are known. -/
def SafeWith (fromSlice : Blob → Option IngestJob) (claims : List (QueueSession × List Job))
    (rest : Drain sub) : Prop :=
  ∀ know : DrainKnows, know.claims = claims → rest.Safe fromSlice know

variable {claims : List (QueueSession × List Job)} {rest : Drain sub}

theorem safeWith_done : @SafeWith sub fromSlice claims .done := fun _ _ => trivial

/-- A job that carries no text, or nothing readable, may be answered at once. -/
theorem ingested_of_unfit {succeeded : List (List IngestItem)}
    (h : unfit fromSlice job = some .done) : job.Ingested fromSlice succeeded := by
  intro ingestJob hjob htext
  rw [unfit, hjob] at h
  dsimp only at h
  rw [if_neg htext] at h
  cases h

theorem SafeWith.reply (hrest : SafeWith fromSlice claims rest) {status : ObservationStatus}
    (hclaimed : ∃ claim ∈ claims, job ∈ claim.2) (hknow : know.claims = claims)
    (hdone : status = .done → job.Ingested fromSlice know.succeeded) :
    Drain.Safe fromSlice know (.act (.reply job status) fun _ => rest) := by
  refine ⟨⟨?_, hdone⟩, fun _ => hrest _ hknow⟩
  rw [DrainKnows.Claimed, hknow]
  exact hclaimed

theorem SafeWith.retryIngest (hrest : SafeWith fromSlice claims rest)
    (hclaimed : ∃ claim ∈ claims, job ∈ claim.2) {ingestJob : IngestJob}
    (hjob : fromSlice job.payload = some ingestJob) {call : CorpusCall sub}
    (hcall : ingestJob.item ∈ call.items) (attempts : Nat) :
    SafeWith fromSlice claims (MootMemory.retryIngest job call rest attempts) := by
  induction attempts with
  | zero =>
    intro know hknow
    exact hrest.reply hclaimed hknow fun h => by cases h
  | succ attempts ih =>
    intro know hknow
    refine ⟨trivial, fun ok => ?_⟩
    cases ok with
    | false => exact ih _ hknow
    | true =>
      refine hrest.reply hclaimed hknow fun _ ingestJob' hjob' _ => ?_
      rw [hjob, Option.some.injEq] at hjob'
      subst hjob'
      exact ⟨call.items, List.mem_append_right _ (List.mem_singleton_self _), hcall⟩

theorem SafeWith.ingestOneAndReply (hrest : SafeWith fromSlice claims rest)
    (hclaimed : ∃ claim ∈ claims, job ∈ claim.2) {one : IngestItem → CorpusCall sub}
    (hone : ∀ item, item ∈ (one item).items) :
    SafeWith fromSlice claims (MootMemory.ingestOneAndReply fromSlice one job rest) := by
  unfold MootMemory.ingestOneAndReply
  cases hjob : fromSlice job.payload with
  | none => exact fun know hknow => hrest.reply hclaimed hknow fun h => by cases h
  | some ingestJob =>
    dsimp only
    split
    next htext =>
      refine fun know hknow => hrest.reply hclaimed hknow fun _ => ?_
      exact ingested_of_unfit (by rw [unfit, hjob]; exact if_pos htext)
    next => exact hrest.retryIngest hclaimed hjob (hone _) _

/-- Rounds over claimed jobs, each of them safe before a safe rest. -/
theorem SafeWith.each {round : Job → Drain sub → Drain sub} (hrest : SafeWith fromSlice claims rest)
    (hround : ∀ job ∈ batch, ∀ rest, SafeWith fromSlice claims rest →
      SafeWith fromSlice claims (round job rest)) :
    SafeWith fromSlice claims (Program.each batch round rest) := fun _ hknow =>
  Program.safe_each (P := fun know : DrainKnows => know.claims = claims) hround hrest hknow

theorem mem_fitJobs {pair : Job × IngestItem} (h : pair ∈ fitJobs fromSlice batch) :
    pair.1 ∈ batch ∧ ∃ ingestJob, fromSlice pair.1.payload = some ingestJob ∧
      pair.2 = ingestJob.item := by
  obtain ⟨job, hjob, hfit⟩ := List.mem_filterMap.mp h
  cases hdecode : fromSlice job.payload with
  | none =>
    rw [hdecode] at hfit
    cases hfit
  | some ingestJob =>
    rw [hdecode] at hfit
    dsimp only at hfit
    split at hfit
    next => cases hfit
    next =>
      cases hfit
      exact ⟨hjob, ingestJob, hdecode, rfl⟩

/-- A claimed job with a text is among those to ingest. -/
theorem item_mem_fitJobs (hjob : job ∈ batch) {ingestJob : IngestJob}
    (hdecode : fromSlice job.payload = some ingestJob) (htext : ingestJob.text ≠ "") :
    (job, ingestJob.item) ∈ fitJobs fromSlice batch := by
  refine List.mem_filterMap.mpr ⟨job, hjob, ?_⟩
  rw [hdecode]
  exact if_neg htext

theorem SafeWith.ingestFit {all : List IngestItem → CorpusCall sub}
    {one : IngestItem → CorpusCall sub} (hall : ∀ items, (all items).items = items)
    (hone : ∀ item, item ∈ (one item).items) (hclaim : (session, batch) ∈ claims) :
    SafeWith fromSlice claims (MootMemory.ingestFit fromSlice all one session batch) := by
  have hclaimed : ∀ job ∈ (fitJobs fromSlice batch).map (·.1), ∃ claim ∈ claims, job ∈ claim.2 := by
    intro job hjob
    obtain ⟨pair, hpair, rfl⟩ := List.mem_map.mp hjob
    exact ⟨_, hclaim, (mem_fitJobs hpair).1⟩
  unfold MootMemory.ingestFit
  dsimp only
  split
  next => exact safeWith_done
  next =>
    intro know hknow
    refine ⟨trivial, fun ok => ?_⟩
    cases ok with
    | false =>
      exact safeWith_done.each (fun job hjob rest hrest =>
        hrest.ingestOneAndReply (hclaimed job hjob) hone) _ hknow
    | true =>
      have hingested : ∀ job ∈ batch, job.Ingested fromSlice
          (know.succeeded ++ [(all ((fitJobs fromSlice batch).map (·.2))).items]) := by
        intro job hjob ingestJob hdecode htext
        refine ⟨_, List.mem_append_right _ (List.mem_singleton_self _), ?_⟩
        rw [hall]
        exact List.mem_map.mpr ⟨_, item_mem_fitJobs hjob hdecode htext, rfl⟩
      refine ⟨⟨batch, hknow ▸ hclaim, fun _ => hingested⟩, fun completed => ?_⟩
      dsimp only
      split
      next =>
        refine ⟨fun completion hcompletion => ?_, fun _ => trivial⟩
        obtain ⟨job, hjob, rfl⟩ := List.mem_map.mp hcompletion
        obtain ⟨pair, hpair, rfl⟩ := List.mem_map.mp hjob
        obtain ⟨claim, hmem, hin⟩ := hclaimed _ hjob
        exact ⟨⟨claim, hknow ▸ hmem, hin⟩, fun _ => hingested _ (mem_fitJobs hpair).1⟩
      next => trivial

theorem SafeWith.answerUnfit (hclaim : (session, batch) ∈ claims)
    (hrest : SafeWith fromSlice claims rest) :
    SafeWith fromSlice claims (MootMemory.answerUnfit fromSlice batch rest) := by
  refine hrest.each fun job hjob rest hrest => ?_
  cases hunfit : unfit fromSlice job with
  | none => exact hrest
  | some status =>
    refine fun know hknow => hrest.reply ⟨_, hclaim, hjob⟩ hknow fun hdone => ?_
    subst hdone
    exact ingested_of_unfit hunfit

/-- A pass of the encode drainer answers nothing that it should not. -/
theorem safe_drainWithQueue (ingestFailureActive : Bool) (know : DrainKnows) :
    @Drain.Safe sub fromSlice know (drainWithQueue fromSlice ingestFailureActive) := by
  refine ⟨trivial, fun claimed => ?_⟩
  cases claimed with
  | none => trivial
  | some claim =>
    obtain ⟨session, batch⟩ := claim
    have hclaim : (session, batch) ∈ know.claims ++ [(session, batch)] :=
      List.mem_append_right _ (List.mem_singleton_self _)
    dsimp only
    split
    next => trivial
    next =>
      refine ⟨trivial, fun ok => ?_⟩
      cases ok with
      | false => trivial
      | true =>
        cases ingestFailureActive with
        | true =>
          exact safeWith_done.each (fun job hjob rest hrest =>
            hrest.ingestOneAndReply ⟨_, hclaim, hjob⟩ fun _ => List.mem_singleton_self _) _ rfl
        | false =>
          exact (SafeWith.ingestFit (fun _ => rfl) (fun _ => List.mem_singleton_self _)
            hclaim).answerUnfit hclaim _ rfl

theorem safe_drainImportWithQueue (onDisk : Bool) (know : DrainKnows) :
    @Drain.Safe sub fromSlice know (drainImportWithQueue fromSlice onDisk) := by
  refine ⟨trivial, fun claimed => ?_⟩
  cases claimed with
  | none => trivial
  | some claim =>
    obtain ⟨session, batch⟩ := claim
    have hclaim : (session, batch) ∈ know.claims ++ [(session, batch)] :=
      List.mem_append_right _ (List.mem_singleton_self _)
    dsimp only
    split
    next => trivial
    next =>
      exact (SafeWith.ingestFit (fun _ => rfl) (fun _ => List.mem_singleton_self _)
        hclaim).answerUnfit hclaim _ rfl

end Safety

end MootMemory
