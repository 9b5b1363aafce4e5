import Shoveler.Common.Swapping
import Shoveler.Model.Expression

/-!
# Vector search

`search.zig`: the candidates nearest to a query vector, by distance and
then by key. The distances are `f64` values there; the search itself does
no more than compare them, so it is written for any type of distances with
a comparison. With the `score` of a metric it is the search of the source.
-/

namespace Shoveler

/-- `DistanceMetric`. -/
inductive DistanceMetric where
  | squaredL2
  | l2
  | cosine
deriving DecidableEq, Repr

/-- `Candidate`. -/
structure Candidate where
  key : UInt64
  vector : List UInt32
deriving DecidableEq, Repr

/-- `SearchResult`. -/
structure SearchResult (δ : Type) where
  key : UInt64
  distance : δ
deriving DecidableEq

namespace VectorSearch

/-- `score`. -/
def score : DistanceMetric → List UInt32 → List UInt32 → Result Float
  | .squaredL2 => Shoveler.squaredL2
  | .l2 => Shoveler.l2
  | .cosine => cosineDistance

section Distances

variable {δ : Type} [LT δ] [DecidableLT δ]

/-- `resultComesAfter`. -/
def resultComesAfter (left right : SearchResult δ) : Bool :=
  if left.distance > right.distance then true
  else if left.distance < right.distance then false
  else decide (left.key > right.key)

/-- `sortResults`. -/
def sortResults (results : List (SearchResult δ)) : List (SearchResult δ) :=
  if results.length < 2 then results else Swapping.sortInPlace resultComesAfter results

variable (score : List UInt32 → List UInt32 → Result δ)

/-- A round of the first loop of `topK`. -/
def scoreCandidate (query : List UInt32) (candidate : Candidate) : Result (SearchResult δ) := do
  return ⟨candidate.key, ← score query candidate.vector⟩

/-- `topK`; the metric is given by its `score`. -/
def topK (query : List UInt32) (candidates : List Candidate) (limit : ℕ) :
    Result (List (SearchResult δ)) :=
  if limit = 0 ∨ candidates.isEmpty then .ok []
  else do
    let scored ← candidates.mapM (scoreCandidate score query)
    return (sortResults scored).take (min limit scored.length)

end Distances

end VectorSearch

end Shoveler
