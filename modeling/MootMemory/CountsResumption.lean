import MootMemory.BasisProvider
import MootMemory.ReferenceCorpus

namespace MootMemory

section RandomIndexing

variable {math : BasisMath} {sub : CorpusSubstrate}

theorem length_riIndexVector (term : String) :
    (riIndexVector math sub term).length = riDimension := by
  unfold riIndexVector
  generalize List.range riNonzeros = draws
  have hstart : (List.replicate riDimension (0 : F32)).length = riDimension :=
    List.length_replicate
  dsimp only
  generalize List.replicate riDimension (0 : F32) = vec at hstart ⊢
  induction draws generalizing vec with
  | nil => exact hstart
  | cons i draws ih => exact ih _ (by rw [List.length_set, hstart])

/-- Every context vector has the length that training counts on. -/
def RandomIndexingProvider.Whole (p : RandomIndexingProvider) : Prop :=
  ∀ entry ∈ p.vocab.entries, entry.2.length = riDimension

theorem whole_getD {p : RandomIndexingProvider} (hp : p.Whole) (key : String) :
    ((p.vocab.get? key).getD (List.replicate riDimension 0)).length = riDimension := by
  cases hget : p.vocab.get? key with
  | none => exact List.length_replicate
  | some cv =>
    obtain ⟨entry, hentry, _, rfl⟩ := OrderedMap.mem_of_get? hget
    exact hp entry hentry

/-- A loop that can take every step from where it is runs to its end there. -/
theorem foldlM_reaches {α σ : Type} {step : σ → α → Option σ} {P : σ → Prop} {Q : α → Prop}
    (h : ∀ s x, P s → Q x → ∃ s', step s x = some s' ∧ P s') {l : List α} (hl : ∀ x ∈ l, Q x)
    {s : σ} (hs : P s) : ∃ s', l.foldlM step s = some s' ∧ P s' := by
  induction l generalizing s with
  | nil => exact ⟨s, rfl, hs⟩
  | cons x l ih =>
    obtain ⟨t, ht, hPt⟩ := h s x hs (hl x List.mem_cons_self)
    obtain ⟨s', hs', hPs'⟩ := ih (fun y hy => hl y (List.mem_cons_of_mem _ hy)) hPt
    exact ⟨s', by rw [List.foldlM_cons, ht]; exact hs', hPs'⟩

/-- Nothing but the context vectors changes, and they keep their length. -/
def RandomIndexingProvider.Extends (f p : RandomIndexingProvider) : Prop :=
  p = { f with vocab := p.vocab } ∧ p.Whole

theorem reaches_addNeighbour (math : BasisMath) (i : Nat) {cv : List F32} {neighbour : List F32 × Nat}
    (hcv : cv.length = riDimension) (hneighbour : neighbour.1.length = riDimension) :
    ∃ out, RandomIndexingProvider.addNeighbour math i cv neighbour = some out ∧
      out.length = riDimension := by
  unfold RandomIndexingProvider.addNeighbour
  split
  next => exact ⟨cv, rfl, hcv⟩
  next =>
    have hruns := (isSome_addInto math hcv).mpr hneighbour.ge
    obtain ⟨out, hout⟩ := Option.isSome_iff_exists.mp hruns
    exact ⟨out, hout, (length_addInto hout).trans hcv⟩

theorem extends_trainAt {f p : RandomIndexingProvider} {idxVecs : List (List F32)} {window : Nat}
    (hidx : ∀ v ∈ idxVecs, v.length = riDimension) (hp : f.Extends p) (position : String × Nat) :
    ∃ p', p.trainAt math idxVecs window position = some p' ∧ f.Extends p' := by
  obtain ⟨key, i⟩ := position
  rw [RandomIndexingProvider.trainAt]
  dsimp only
  split
  next => exact ⟨p, rfl, hp⟩
  next =>
    have hneighbours : ∀ neighbour ∈ (idxVecs.zipIdx.drop (i - window)).take
        (min (i + window) (idxVecs.length - 1) + 1 - (i - window)),
        neighbour.1.length = riDimension := fun neighbour hmem =>
      hidx _ (List.fst_mem_of_mem_zipIdx (List.mem_of_mem_drop (List.mem_of_mem_take hmem)))
    obtain ⟨cv, hcv, hlen⟩ := foldlM_reaches (P := fun cv : List F32 => cv.length = riDimension)
      (Q := fun neighbour : List F32 × Nat => neighbour.1.length = riDimension)
      (fun _ _ => reaches_addNeighbour math i) hneighbours (whole_getD hp.2 key)
    have hwhole : ({ p with vocab := p.vocab.insert key cv } : RandomIndexingProvider).Whole :=
      OrderedMap.forall_values_insert (P := fun v : List F32 => v.length = riDimension) hp.2 hlen
    refine ⟨_, by rw [hcv]; rfl, ?_, hwhole⟩
    rw [hp.1]

theorem extends_train {f p : RandomIndexingProvider} (hp : f.Extends p) (terms : List String)
    (window : Nat) : ∃ p', p.train math sub terms window = some p' ∧ f.Extends p' := by
  have hidx : ∀ v ∈ terms.map (riIndexVector math sub), v.length = riDimension := by
    intro v hv
    obtain ⟨term, _, rfl⟩ := List.mem_map.mp hv
    exact length_riIndexVector term
  exact foldlM_reaches (Q := fun _ => True)
    (fun _ position hp _ => extends_trainAt hidx hp position) (fun _ _ => trivial) hp

end RandomIndexing

namespace BasisProvider

variable (math : BasisMath) (sub : CorpusSubstrate)

/-- The texts of one session, folded in one after another. -/
def foldTexts (p : BasisProvider) (texts : List String) :
    Except (Stop BasisCodecError) BasisProvider :=
  texts.foldlM (fun p text => orPanic (p.addToCounts math sub text)) p

/-- Every session starts from what the one before it wrote. -/
def runSessions (fresh : BasisProvider) :
    List (List String) → Except (Stop BasisCodecError) BasisProvider
  | [] => .ok fresh
  | first :: rest => do
    let p ← fresh.foldTexts math sub first
    rest.foldlM (fun p texts => do
      (← fresh.restoreCounts p.serializeCounts).foldTexts math sub texts) p

/-- Nothing but what the counts blob keeps tells the provider from the fresh one. -/
inductive Anchored : BasisProvider → BasisProvider → Prop
  | randomIndexing {f p : RandomIndexingProvider} (h : f.Extends p) :
      Anchored (.randomIndexing f) (.randomIndexing p)
  | ppmi (f : PpmiProvider) (counts : PpmiCounts) :
      Anchored (.ppmi f) (.ppmi { f with toPpmiCounts := counts })
  | lsa (f : LsaProvider) (vocab : TermMap Nat) (n : Nat) :
      Anchored (.lsa f) (.lsa { f with counts := .fromRestored vocab n })
  | nmf (f : NmfProvider) (vocab : TermMap Nat) (n : Nat) :
      Anchored (.nmf f) (.nmf { f with counts := .fromRestored vocab n })

variable {math sub} {fresh p : BasisProvider}

theorem Fresh.anchored (h : fresh.Fresh) : Anchored fresh fresh := by
  cases h with
  | randomIndexing modelId modelVersion projectionSeed =>
    exact .randomIndexing ⟨rfl, fun entry hentry => by cases hentry⟩
  | ppmi modelId modelVersion projectionSeed => exact .ppmi _ .empty
  | lsa rank svdSweeps projectionSeed => exact .lsa _ .empty 0
  | nmf rank maxIterations seed projectionSeed => exact .nmf _ .empty 0

theorem anchored_counts (vocab : TermMap Nat) (n : Nat) (text : String) :
    let counts := (TermDocumentCounts.fromRestored vocab n).addDocumentForCountsAnchor sub text
    counts = .fromRestored counts.vocab counts.documentCount :=
  TermDocumentCounts.fromRestored_addDocumentForCountsAnchor sub
    (by rw [TermDocumentCounts.documentCount_fromRestored]; rfl)

theorem Anchored.addToCounts (h : Anchored fresh p) (text : String) :
    ∃ p', p.addToCounts math sub text = some p' ∧ Anchored fresh p' := by
  cases h with
  | randomIndexing h =>
    obtain ⟨p', hp', hext⟩ := extends_train h (defaultKeywordTokens sub text) riWindow
    exact ⟨.randomIndexing p', by
      show (RandomIndexingProvider.train _ _ _ _ _).map _ = _
      rw [hp']
      rfl, .randomIndexing hext⟩
  | ppmi f counts =>
    exact ⟨_, rfl, .ppmi f (counts.train sub (defaultKeywordTokens sub text) ppmiWindow)⟩
  | lsa f vocab n =>
    refine ⟨_, rfl, ?_⟩
    rw [LsaProvider.addToCounts, anchored_counts vocab n text]
    exact .lsa f _ _
  | nmf f vocab n =>
    refine ⟨_, rfl, ?_⟩
    rw [NmfProvider.addToCounts, anchored_counts vocab n text]
    exact .nmf f _ _

/-- A fresh provider that reads the counts blob is the one that wrote it. -/
theorem Anchored.restoreCounts (h : Anchored fresh p) (hfit : p.CountsFit) :
    fresh.restoreCounts p.serializeCounts = .ok p := by
  cases h with
  | @randomIndexing f p h =>
    have hrestored := RandomIndexingProvider.restoreCounts_serializeCounts (p := f) (q := p) hfit
    show (f.restoreCounts p.serializeCounts >>= _) = _
    rw [hrestored, ← h.1]
    rfl
  | ppmi f counts =>
    have hrestored := PpmiProvider.restoreCounts_serializeCounts (p := f) hfit
    show (f.restoreCounts (PpmiProvider.serializeCounts _) >>= _) = _
    rw [hrestored]
    rfl
  | lsa f vocab n =>
    have hrestored := LsaProvider.restoreCounts_serializeCounts (p := f) hfit
    show (f.restoreCounts (LsaProvider.serializeCounts _) >>= _) = _
    rw [hrestored, TermDocumentCounts.documentCount_fromRestored]
    rfl
  | nmf f vocab n =>
    have hrestored := NmfProvider.restoreCounts_serializeCounts (p := f) hfit
    show (f.restoreCounts (NmfProvider.serializeCounts _) >>= _) = _
    rw [hrestored, TermDocumentCounts.documentCount_fromRestored]
    rfl

variable (math sub) in
theorem Anchored.foldTexts (h : Anchored fresh p) (texts : List String) :
    ∃ p', p.foldTexts math sub texts = .ok p' ∧ Anchored fresh p' := by
  induction texts generalizing p with
  | nil => exact ⟨p, rfl, h⟩
  | cons text texts ih =>
    obtain ⟨t, ht, hanchored⟩ := h.addToCounts text
    obtain ⟨p', hp', h'⟩ := ih hanchored
    refine ⟨p', ?_, h'⟩
    rw [BasisProvider.foldTexts, List.foldlM_cons, ht]
    exact hp'

theorem foldTexts_append (p : BasisProvider) (texts more : List String) :
    p.foldTexts math sub (texts ++ more) =
      p.foldTexts math sub texts >>= fun q => q.foldTexts math sub more := by
  rw [BasisProvider.foldTexts, List.foldlM_append]
  rfl

/-- The sessions behind the first ones do what one provider does with their texts. -/
theorem foldlM_sessions {done : List String} {rest : List (List String)}
    (hdone : fresh.foldTexts math sub done = .ok p) (hanchored : Anchored fresh p)
    (hfit : ∀ n q, fresh.foldTexts math sub ((done ++ rest.flatten).take n) = .ok q → q.CountsFit) :
    rest.foldlM (fun p texts => do
        (← fresh.restoreCounts p.serializeCounts).foldTexts math sub texts) p =
      fresh.foldTexts math sub (done ++ rest.flatten) := by
  induction rest generalizing done p with
  | nil =>
    rw [List.flatten_nil, List.append_nil, hdone]
    rfl
  | cons texts rest ih =>
    have hp : p.CountsFit := hfit done.length p (by rw [List.take_left' rfl, hdone])
    obtain ⟨q, hq, hnext⟩ := hanchored.foldTexts math sub texts
    rw [List.flatten_cons, ← List.append_assoc] at hfit ⊢
    have hdone' : fresh.foldTexts math sub (done ++ texts) = .ok q := by
      rw [foldTexts_append, hdone]
      exact hq
    rw [List.foldlM_cons, hanchored.restoreCounts hp, ← ih hdone' hnext hfit]
    show (p.foldTexts math sub texts >>= _) = _
    rw [hq]
    rfl

/-- Counts that go through restarts are those of one provider that is never restarted. -/
theorem serializeCounts_runSessions (hfresh : fresh.Fresh) (sessions : List (List String))
    (hfit : ∀ n q, fresh.foldTexts math sub (sessions.flatten.take n) = .ok q → q.CountsFit) :
    ∃ p q, fresh.runSessions math sub sessions = .ok p ∧
      fresh.foldTexts math sub sessions.flatten = .ok q ∧
      p.serializeCounts = q.serializeCounts := by
  obtain ⟨q, hq, _⟩ := hfresh.anchored.foldTexts math sub sessions.flatten
  refine ⟨q, q, ?_, hq, rfl⟩
  rw [← hq]
  cases sessions with
  | nil => rfl
  | cons first rest =>
    obtain ⟨p, hp, hanchored⟩ := hfresh.anchored.foldTexts math sub first
    rw [List.flatten_cons] at hfit ⊢
    rw [runSessions, ← foldlM_sessions hp hanchored hfit, hp]
    rfl

section Restart

def restarted : BasisProvider := .lsa (.new 2 30 7)

theorem countsFit_restarted {n : Nat} {q : BasisProvider}
    (h : restarted.foldTexts referenceMath referenceCorpus (["ab c", "c d c"].take n) = .ok q) :
    q.CountsFit := by
  have hall : ∀ k ≤ 2, ((restarted.foldTexts referenceMath referenceCorpus
      (["ab c", "c d c"].take k)).toOption.all fun q => decide q.CountsFit) = true := by
    decide +kernel
  have htake : ["ab c", "c d c"].take n = ["ab c", "c d c"].take (min n 2) :=
    List.take_eq_take_min
  have hfits := hall (min n 2) (Nat.min_le_right n 2)
  rw [← htake, h] at hfits
  exact of_decide_eq_true hfits

/-- Two sessions of one document each. -/
theorem serializeCounts_runSessions_lsa :
    ∃ p q, restarted.runSessions referenceMath referenceCorpus [["ab c"], ["c d c"]] = .ok p ∧
      restarted.foldTexts referenceMath referenceCorpus [["ab c"], ["c d c"]].flatten = .ok q ∧
      p.serializeCounts = q.serializeCounts :=
  serializeCounts_runSessions (.lsa 2 30 7) _ fun _ _ => countsFit_restarted

end Restart

end BasisProvider

end MootMemory
