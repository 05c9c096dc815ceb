import EdgeClient.Vision.Types

/-!
# The gallery matcher

The matcher keeps the normalized templates in one matrix, the distinct identities
in order, and for every template the position of its owner. A query is compared
with every template; the best similarity of each identity decides the match.
-/

namespace EdgeClient.Vision

open Basis

variable {F D : Type} [FloatOps F] [FloatOps D] [FloatPair F D]

/-- Scale an embedding to unit length. -/
def normalizeEmbedding (D : Type) [FloatOps D] [FloatPair F D] (embedding : Embedding F) :
    Except String (Embedding F) :=
  let norm : D := sqrt (dotProduct embedding embedding)
  if isFinite norm = false ∨ norm < lit 1e-12 then
    throw "Norm embedding ArcFace nol/tidak valid"
  else
    let inv : F := narrow (lit 1 / norm)
    return fun j => embedding j * inv

/-- Outcome of comparing one query with the gallery. -/
structure GalleryMatch (F : Type) where
  /-- Whether there was anything to compare. -/
  valid : Bool
  /-- Identity with the best similarity. -/
  identityId : String
  /-- Similarity of that identity. -/
  bestSimilarity : F
  /-- Best similarity among the other identities. -/
  secondSimilarity : F
  /-- Distance between the two. -/
  margin : F

/-- The match before any comparison. -/
def GalleryMatch.empty : GalleryMatch F where
  valid := false
  identityId := ""
  bestSimilarity := lit (-1)
  secondSimilarity := lit (-1)
  margin := lit 0

/-- The loaded gallery. -/
structure GalleryMatcher (F : Type) where
  /-- Normalized template embeddings. -/
  matrix : List (Embedding F)
  /-- Position in `identities` of the owner of each template. -/
  owners : List ℕ
  /-- The distinct identities in increasing order. -/
  identities : List String
  /-- Buffer for the best similarity of each identity. -/
  best : List F

/-- The matcher before the first load. -/
def GalleryMatcher.empty : GalleryMatcher F := ⟨[], [], [], []⟩

/-- Number of templates. -/
def GalleryMatcher.size (g : GalleryMatcher F) : ℕ := g.matrix.length

/-- `std::lower_bound`: the first position whose element is not below `id`. -/
def lowerBound (identities : List String) (id : String) : ℕ :=
  identities.findIdx fun s => decide (id ≤ s)

/-- Replace the gallery. An invalid template leaves the old gallery in place. Everything is built
aside, and the members are swapped at the end. -/
def GalleryMatcher.replace (D : Type) [FloatOps D] [FloatPair F D]
    (templates : List (GalleryTemplate F)) : Except String (GalleryMatcher F) := do
  let names ← templates.mapM fun t =>
    if t.identityId = "" then throw "Empty gallery identity" else return t.identityId
  let identities := (names.insertionSort (· ≤ ·)).destutter (· ≠ ·)
  let matrix ← templates.mapM fun t =>
    if (List.finRange kEmbeddingSize).all fun j => isFinite (t.embedding j) then
      normalizeEmbedding D t.embedding
    else throw "Non-finite embedding"
  return {
    matrix
    owners := templates.map fun t => lowerBound identities t.identityId
    identities
    best := List.replicate identities.length (lit 0) }

/-- Best similarity of each identity: the templates are visited in order and each
one raises the entry of its owner. -/
def GalleryMatcher.similarities (D : Type) [FloatOps D] [FloatPair F D]
    (g : GalleryMatcher F) (query : Embedding F) : List F :=
  (g.matrix.zip g.owners).foldl (fun best entry =>
    best.modify entry.2 fun old =>
      stdMax old (stdClamp (narrow (dotProduct query entry.1 : D)) (lit (-1)) (lit 1)))
    (List.replicate g.best.length (lit (-1)))

/-- One step of the pass that finds first and second place. The pass goes over the identities,
each with the best similarity of its templates. -/
def GalleryMatch.consider (out : GalleryMatch F) (similarity : F) (identity : String) :
    GalleryMatch F :=
  if out.valid = false ∨ out.bestSimilarity < similarity then
    { out with
      secondSimilarity := out.bestSimilarity
      bestSimilarity := similarity
      identityId := identity
      valid := true }
  else { out with secondSimilarity := stdMax out.secondSimilarity similarity }

/-- Compare a query with the gallery. The buffer of the matcher is overwritten. An empty gallery
matches nothing. Otherwise a query that is not finite throws, and one that is too short matches
nothing. -/
def GalleryMatcher.match (D : Type) [FloatOps D] [FloatPair F D] (g : GalleryMatcher F)
    (input : Embedding F) : Except String (GalleryMatch F × GalleryMatcher F) :=
  if g.matrix = [] then return (.empty, g)
  else if (List.finRange kEmbeddingSize).any fun j => isFinite (input j) = false then
    throw "Non-finite query"
  else
    let norm : D := sqrt (dotProduct input input)
    if norm < lit 1e-12 then return (.empty, g)
    else
      let inverseNorm : F := narrow (lit 1 / norm)
      let best := g.similarities D fun j => input j * inverseNorm
      let out := (best.zip g.identities).foldl (fun out entry => out.consider entry.1 entry.2)
        GalleryMatch.empty
      let margin := if g.identities.length = 1 then lit 2
        else out.bestSimilarity - out.secondSimilarity
      return ({ out with margin }, { g with best })

/-- The buffer keeps its length from one match to the next. -/
theorem GalleryMatcher.length_similarities (g : GalleryMatcher F) (query : Embedding F) :
    (g.similarities D query).length = g.best.length := by
  have hlen : ∀ (entries : List (Embedding F × ℕ)) (best : List F),
      (entries.foldl (fun best entry => best.modify entry.2 fun old =>
        stdMax old (stdClamp (narrow (dotProduct query entry.1 : D)) (lit (-1)) (lit 1)))
        best).length = best.length := by
    intro entries
    induction entries with
    | nil => intro best; rfl
    | cons entry entries ih => intro best; rw [List.foldl_cons, ih, List.length_modify]
  unfold similarities
  rw [hlen, List.length_replicate]

/-- Two galleries with the same contents, whatever their buffers hold. -/
structure GalleryMatcher.Same (g g' : GalleryMatcher F) : Prop where
  matrix_eq : g.matrix = g'.matrix
  owners_eq : g.owners = g'.owners
  identities_eq : g.identities = g'.identities
  length_best_eq : g.best.length = g'.best.length

omit [FloatOps F] in
/-- A matcher holds the gallery that it holds. -/
theorem GalleryMatcher.Same.refl (g : GalleryMatcher F) : g.Same g := ⟨rfl, rfl, rfl, rfl⟩

omit [FloatOps F] in
/-- Holding the same gallery does not depend on the order. -/
theorem GalleryMatcher.Same.symm {g g' : GalleryMatcher F} (h : g.Same g') : g'.Same g :=
  ⟨h.1.symm, h.2.symm, h.3.symm, h.4.symm⟩

omit [FloatOps F] in
/-- Matchers that hold the gallery of a third one hold the same gallery. -/
theorem GalleryMatcher.Same.trans {g g' g'' : GalleryMatcher F} (h : g.Same g')
    (h' : g'.Same g'') : g.Same g'' :=
  ⟨h.1.trans h'.1, h.2.trans h'.2, h.3.trans h'.3, h.4.trans h'.4⟩

omit [FloatOps F] in
/-- Matchers of the same gallery report the same size. -/
theorem GalleryMatcher.Same.size_eq {g g' : GalleryMatcher F} (h : g.Same g') :
    g.size = g'.size := by
  unfold size
  rw [h.matrix_eq]

/-- A comparison leaves the contents of the gallery alone. Only the buffer of the similarities is
written. -/
theorem GalleryMatcher.same_of_match {g g' : GalleryMatcher F} {query : Embedding F}
    {m : GalleryMatch F} (hmatch : g.match D query = .ok (m, g')) : g'.Same g := by
  unfold GalleryMatcher.match at hmatch
  split at hmatch
  · cases hmatch
    exact .refl g
  split at hmatch
  · cases hmatch
  dsimp only at hmatch
  split at hmatch
  · cases hmatch
    exact .refl g
  · cases hmatch
    exact ⟨rfl, rfl, rfl, length_similarities g _⟩

/-- The result of a comparison depends only on the contents of the gallery. -/
theorem GalleryMatcher.Same.match_eq {g g' : GalleryMatcher F} (hsame : g.Same g')
    (query : Embedding F) :
    (g.match D query).map Prod.fst = (g'.match D query).map Prod.fst := by
  have hsimilarities : ∀ q : Embedding F, g.similarities D q = g'.similarities D q := by
    intro q
    simp only [similarities, hsame.matrix_eq, hsame.owners_eq, hsame.length_best_eq]
  unfold GalleryMatcher.match
  simp only [hsame.matrix_eq, hsame.identities_eq, hsimilarities]
  split
  · rfl
  split
  · rfl
  split <;> rfl

end EdgeClient.Vision
