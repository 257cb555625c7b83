import MootMemory.BasisMath
import MootMemory.TermDocumentCounts

namespace MootMemory

/-- What an embedding answers, or how it ends early. -/
abbrev Lane := Except (Stop VectorKitError)

def zeroEngram : Engram := ⟨0, 0, 0, 0⟩

variable (math : BasisMath) (sub : CorpusSubstrate)

/-- A term as the tables key it. -/
def lowered (term : String) : String := String.ofList (sub.toLowercase term)

/-- One term's vector is added to the sum, if it has one, and counted. -/
def addTerm (dim : Nat) (table : TermMap (List F32)) (acc : List F32 × Nat) (term : String) :
    Option (List F32 × Nat) :=
  match table.get? term with
  | some cv => do some (← addInto math dim acc.1 cv, acc.2 + 1)
  | none => some acc

/-- The normalised sum of the vectors of the text's terms, `none` where no term has one. -/
def contextVector (dim : Nat) (table : TermMap (List F32)) (text : String) :
    Lane (Option (List F32)) :=
  let terms := defaultKeywordTokens sub text
  if text = "" ∨ terms = [] then .ok none
  else do
    let (sum, hitCount) ← orPanic
      (terms.foldlM (addTerm math dim table) (List.replicate dim 0, 0))
    .ok (if hitCount = 0 then none else some (math.l2Normalize sum))

/-- `embed_float` around the vector of a text: no basis and no terms give no vector, terms that
are all unknown an error. -/
def floatLane {ν : Type} (untrained : Prop) [Decidable untrained] (named : String)
    (table : TermMap ν) (text : String) (vector : Lane (Option (List F32))) : Lane (List F32) :=
  let terms := defaultKeywordTokens sub text
  if untrained ∨ text = "" ∨ terms = [] then .ok []
  else if ¬ terms.any table.contains then
    .error (.err (.embedFloatVocabMiss
      s!"{named} size {table.size}, but 0 of {terms.length} query token(s) matched"))
  else do .ok ((← vector).getD [])

/-- How often each known term is asked for, under its index; and whether any is known. -/
def countHits (basisVocab : TermMap Nat) (terms : List String) : IndexMap Nat × Bool :=
  terms.foldl (fun acc term =>
    match basisVocab.get? term with
    | some idx => (acc.1.increment idx, true)
    | none => acc) (.empty, false)

/-- `ln(1 + count)`. -/
def termFrequency (count : Nat) : F32 := math.ln (math.add f32One (math.ofNat count))

/-- The folded-in numbers, each with whether it counts as one that is not zero, as a normalised
vector; `none` if nothing is left of it. -/
def normalised (folded : List (F32 × Bool)) : Option (List F32) :=
  if ¬ folded.any (·.2) then none
  else
    let v := math.l2Normalize (folded.map (·.1))
    if v.all math.isZero then none else some v

/-- The engram and the vector of one computation. -/
def pairOf (seed : UInt64) (vector : Option (List F32)) : Engram × List F32 :=
  match vector with
  | some v => if v = [] then (zeroEngram, []) else (math.project v seed, v)
  | none => (zeroEngram, [])

end MootMemory
