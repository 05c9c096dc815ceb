import EdgeClient.Basis.Runs
import EdgeClient.Basis.StatefulPrograms
import EdgeClient.Vision.ExactEmbeddings

/-!
# What a comparison with the gallery means

The value of an identity is the best cosine of the query with one of its templates. The match
is the identity with the best value, the smallest one when several have it, and the margin is
the distance to the best value of another identity. The matcher computes this in one pass over
the templates and one over the identities, whatever was compared or refused before.
-/

namespace EdgeClient.Vision

open Basis Basis.Extended

/-! ## The reference -/

/-- The components of an embedding of finite numbers. -/
noncomputable def components (v : Embedding (Extended ℝ)) : Components := fun j => (v j).number

/-- The components of an embedding of numbers are these numbers. -/
@[simp] theorem components_exact (x : Components) : components (exactEmbedding x) = x := rfl

/-- The cosine of a query and a template, between -1 and 1. -/
noncomputable def clampedCosine (x : Components) (t : GalleryTemplate (Extended ℝ)) : ℝ :=
  max (-1) (min (∑ j, unitEmbedding x j * unitEmbedding (components t.embedding) j) 1)

/-- The best cosine of the templates of an identity. -/
def Scores (templates : List (GalleryTemplate (Extended ℝ))) (x : Components) (identity : String)
    (v : ℝ) : Prop :=
  IsGreatest {c | ∃ t ∈ templates, t.identityId = identity ∧ c = clampedCosine x t} v

/-- What a comparison of a query with these templates says. It is stated on the set of templates,
without the rows and the sorting of the code. -/
structure Reference (templates : List (GalleryTemplate (Extended ℝ))) (x : Components)
    (m : GalleryMatch (Extended ℝ)) : Prop where
  /-- There is nothing to compare. -/
  invalid : m.valid = false ↔ templates = [] ∨ embeddingNorm x < 1e-12
  /-- Then nothing is said. -/
  empty : m.valid = false → m = .empty
  /-- The match has the best value, and is the smallest identity that has it. -/
  winner : m.valid = true → ∃ best, m.bestSimilarity = .fin best ∧
    Scores templates x m.identityId best ∧
    ∀ identity v, Scores templates x identity v → v ≤ best ∧ (v = best → m.identityId ≤ identity)
  /-- A single identity has the largest margin. -/
  single : m.valid = true → (∀ t ∈ templates, t.identityId = m.identityId) →
    m.margin = .fin 2 ∧ m.secondSimilarity = .fin (-1)
  /-- Otherwise the margin is the distance to the best other identity. -/
  several : m.valid = true → (∃ t ∈ templates, t.identityId ≠ m.identityId) →
    ∃ best second, m.bestSimilarity = .fin best ∧ m.secondSimilarity = .fin second ∧
      IsGreatest {v | ∃ identity ≠ m.identityId, Scores templates x identity v} second ∧
      m.margin = .fin (best - second)

/-- A template that can be loaded. -/
def Loadable (t : GalleryTemplate (Extended ℝ)) : Prop :=
  t.identityId ≠ "" ∧ ∃ y, t.embedding = exactEmbedding y ∧ 1e-12 ≤ embeddingNorm y

section Uniqueness

variable {templates templates' : List (GalleryTemplate (Extended ℝ))} {x : Components}

/-- The scores depend on the set of templates only. -/
theorem scores_congr (h : ∀ t, t ∈ templates ↔ t ∈ templates') {identity : String} {v : ℝ} :
    Scores templates x identity v ↔ Scores templates' x identity v := by
  simp only [Scores, h]

/-- Neither the order nor the repetition of templates matters. So the reference says one thing
about a query. -/
theorem Reference.unique {m m' : GalleryMatch (Extended ℝ)} (h : Reference templates x m)
    (h' : Reference templates' x m') (hsame : ∀ t, t ∈ templates ↔ t ∈ templates') : m = m' := by
  have hnil : templates = [] ↔ templates' = [] := by
    simp only [List.eq_nil_iff_forall_not_mem, hsame]
  cases hvalid : m.valid with
  | false =>
    have hvalid' : m'.valid = false := by
      rw [h'.invalid, ← hnil]
      exact h.invalid.mp hvalid
    rw [h.empty hvalid, h'.empty hvalid']
  | true =>
    have hvalid' : m'.valid = true := by
      rw [← Bool.not_eq_false, h'.invalid, ← hnil, ← h.invalid, hvalid]
      simp
    obtain ⟨best, hbest, hscores, hmax⟩ := h.winner hvalid
    obtain ⟨best', hbest', hscores', hmax'⟩ := h'.winner hvalid'
    rw [← scores_congr hsame] at hscores'
    obtain ⟨hle, hsmallest⟩ := hmax _ _ hscores'
    obtain ⟨hle', hsmallest'⟩ := hmax' _ _ ((scores_congr hsame).mp hscores)
    have hvalue : best = best' := le_antisymm hle' hle
    have hidentity : m.identityId = m'.identityId :=
      le_antisymm (hsmallest hvalue.symm) (hsmallest' hvalue)
    have hrest : m.margin = m'.margin ∧ m.secondSimilarity = m'.secondSimilarity := by
      by_cases hall : ∀ t ∈ templates, t.identityId = m.identityId
      · have hall' : ∀ t ∈ templates', t.identityId = m'.identityId := by
          intro t ht
          rw [← hidentity]
          exact hall t ((hsame t).mpr ht)
        obtain ⟨hmargin, hsecond⟩ := h.single hvalid hall
        obtain ⟨hmargin', hsecond'⟩ := h'.single hvalid' hall'
        rw [hmargin, hmargin', hsecond, hsecond']
        exact ⟨rfl, rfl⟩
      · push Not at hall
        obtain ⟨t, ht, hne⟩ := hall
        obtain ⟨b, second, hb, hsecond, hgreatest, hmargin⟩ := h.several hvalid ⟨t, ht, hne⟩
        obtain ⟨b', second', hb', hsecond', hgreatest', hmargin'⟩ :=
          h'.several hvalid' ⟨t, (hsame t).mp ht, hidentity ▸ hne⟩
        have hset : {v | ∃ identity ≠ m.identityId, Scores templates x identity v} =
            {v | ∃ identity ≠ m'.identityId, Scores templates' x identity v} := by
          simp only [hidentity, scores_congr hsame]
        rw [hset] at hgreatest
        have heq : second = second' := hgreatest.unique hgreatest'
        rw [hmargin, hmargin', hsecond, hsecond', heq]
        rw [hbest] at hb
        rw [hbest'] at hb'
        cases hb
        cases hb'
        rw [hvalue]
        exact ⟨rfl, rfl⟩
    cases m
    cases m'
    simp only at hvalid hvalid' hidentity hrest hbest hbest'
    rw [hvalid, hvalid', hidentity, hrest.1, hrest.2, hbest, hbest', hvalue]

end Uniqueness

/-! ## The distinct identities -/

/-- The distinct identities of a list of names, in order. -/
def distinctIdentities (names : List String) : List String :=
  (names.insertionSort (· ≤ ·)).destutter (· ≠ ·)

/-- The identities are sorted and then freed of repetitions, as in the code. -/
theorem distinctIdentities_eq (names : List String) :
    distinctIdentities names = (names.insertionSort (· ≤ ·)).dedup :=
  (List.pairwise_insertionSort (· ≤ ·) names).destutter_eq_dedup

/-- The identities that are kept are those of the templates. -/
theorem mem_distinctIdentities {names : List String} {id : String} :
    id ∈ distinctIdentities names ↔ id ∈ names := by
  rw [distinctIdentities_eq, List.mem_dedup, List.mem_insertionSort]

/-- The identities are in strict order. -/
theorem distinctIdentities_sorted (names : List String) :
    (distinctIdentities names).Pairwise (· < ·) := by
  have hle : (distinctIdentities names).Pairwise (· ≤ ·) :=
    (List.pairwise_insertionSort (· ≤ ·) names).sublist (List.destutter_sublist _ _)
  have hne : (distinctIdentities names).Nodup := by
    rw [distinctIdentities_eq]
    exact List.nodup_dedup _
  exact (hle.and hne).imp fun h => lt_of_le_of_ne h.1 h.2

/-- The binary search finds the identity. -/
theorem lowerBound_eq {ids : List String} (hsorted : ids.Pairwise (· < ·)) {i : ℕ} {id : String}
    (hi : ids[i]? = some id) : lowerBound ids id = i := by
  obtain ⟨hlt, hid⟩ := List.getElem?_eq_some_iff.mp hi
  rw [lowerBound, List.findIdx_eq hlt]
  refine ⟨by simp [hid], fun j hj => ?_⟩
  have hbefore : ids[j] < ids[i] := List.pairwise_iff_getElem.mp hsorted j i (by omega) hlt hj
  rw [hid] at hbefore
  simpa using hbefore

/-! ## The pass over the templates -/

/-- The value of an entry after the pass: the largest of what its templates say. -/
structure Raised {α : Type} (c : α → ℝ) (entries : List (α × ℕ)) (i : ℕ) (b r : ℝ) : Prop where
  /-- It does not fall. -/
  start : b ≤ r
  /-- No template says more. -/
  upper : ∀ e ∈ entries, e.2 = i → c e.1 ≤ r
  /-- It is the first value, or a template says it. -/
  attained : r = b ∨ ∃ e ∈ entries, e.2 = i ∧ c e.1 = r

/-- A pass that raises the entries of the owners. An entry without owners stays at its first
value. -/
theorem raise_all {α : Type} {score : α → Extended ℝ} {c : α → ℝ} {entries : List (α × ℕ)}
    (hscore : ∀ e ∈ entries, score e.1 = .fin (c e.1)) {best : List (Extended ℝ)} {i : ℕ} {b : ℝ}
    (hb : best[i]? = some (.fin b)) :
    ∃ r, (entries.foldl
        (fun best e => best.modify e.2 fun old => stdMax old (score e.1)) best)[i]? =
      some (.fin r) ∧ Raised c entries i b r := by
  induction entries generalizing best b with
  | nil => exact ⟨b, hb, le_rfl, fun e he => absurd he List.not_mem_nil, Or.inl rfl⟩
  | cons e entries ih =>
    obtain ⟨he, hrest⟩ := List.forall_mem_cons.mp hscore
    have hnext : (best.modify e.2 fun old => stdMax old (score e.1))[i]? =
        some (.fin (if e.2 = i then max b (c e.1) else b)) := by
      rw [List.getElem?_modify, hb]
      by_cases hi : e.2 = i
      · simp [hi, he]
      · simp [hi]
    obtain ⟨r, hr, hraised⟩ := ih hrest hnext
    refine ⟨r, hr, ?_, ?_, ?_⟩
    · refine le_trans ?_ hraised.start
      split
      · exact le_max_left _ _
      · exact le_rfl
    · intro e' he' hi
      obtain rfl | he' := List.mem_cons.mp he'
      · have hstart := hraised.start
        rw [if_pos hi] at hstart
        exact (le_max_right _ _).trans hstart
      · exact hraised.upper e' he' hi
    · obtain hsame | ⟨e', he', hi, hc⟩ := hraised.attained
      · by_cases hi : e.2 = i
        · rw [if_pos hi] at hsame
          obtain hmax | hmax := max_choice b (c e.1)
          · exact Or.inl (hsame.trans hmax)
          · exact Or.inr ⟨e, List.mem_cons_self, hi, (hsame.trans hmax).symm⟩
        · rw [if_neg hi] at hsame
          exact Or.inl hsame
      · exact Or.inr ⟨e', List.mem_cons_of_mem _ he', hi, hc⟩

/-! ## The pass over the identities -/

/-- First and second place among these values. The second one is the best of the other
identities. -/
structure Places (values : List (ℝ × String)) (m : GalleryMatch (Extended ℝ)) (best second : ℝ) :
    Prop where
  /-- There is a match. -/
  valid : m.valid = true
  /-- Its value. -/
  best_eq : m.bestSimilarity = .fin best
  /-- The value of the second place. -/
  second_eq : m.secondSimilarity = .fin second
  /-- It has its value. -/
  mem : (best, m.identityId) ∈ values
  /-- It is the best one, and the smallest of the best. -/
  upper : ∀ p ∈ values, p.1 ≤ best ∧ (p.1 = best → m.identityId ≤ p.2)
  /-- Nobody else is better than the second place. -/
  others : ∀ p ∈ values, p.2 ≠ m.identityId → p.1 ≤ second
  /-- The second place is somebody, unless there is nobody else. -/
  second_mem : (∃ p ∈ values, p.2 ≠ m.identityId ∧ p.1 = second) ∨
    second = -1 ∧ ∀ p ∈ values, p.2 = m.identityId

/-- The pass over a list of values. -/
noncomputable def considerAll (values : List (ℝ × String)) : GalleryMatch (Extended ℝ) :=
  values.foldl (fun out p => out.consider (.fin p.1) p.2) .empty

/-- The pass finds first and second place, when the identities come in order. Equal values keep
the first identity, which is the smallest one. -/
theorem places_considerAll {values : List (ℝ × String)} (hne : values ≠ [])
    (hsorted : (values.map (·.2)).Pairwise (· < ·)) (hlow : ∀ p ∈ values, -1 ≤ p.1) :
    ∃ best second, Places values (considerAll values) best second := by
  induction values using List.reverseRecOn with
  | nil => exact absurd rfl hne
  | append_singleton values p ih =>
    have hstep : considerAll (values ++ [p]) = (considerAll values).consider (.fin p.1) p.2 := by
      simp [considerAll]
    rw [hstep]
    rw [List.map_append, List.pairwise_append] at hsorted
    obtain ⟨hsorted, -, hlast⟩ := hsorted
    have hlater : ∀ q ∈ values, q.2 < p.2 := by
      intro q hq
      exact hlast _ (List.mem_map_of_mem hq) _ (by simp)
    by_cases hvalues : values = []
    · subst hvalues
      have hfirst : (considerAll []).consider (.fin p.1) p.2 =
          { GalleryMatch.empty with
            secondSimilarity := GalleryMatch.empty.bestSimilarity
            bestSimilarity := .fin p.1
            identityId := p.2
            valid := true } := if_pos (Or.inl rfl)
      rw [hfirst]
      refine ⟨p.1, -1, rfl, rfl, ?_, by simp, by simp, by simp, Or.inr ⟨rfl, by simp⟩⟩
      simp [GalleryMatch.empty, lit_def]
    · obtain ⟨best, second, h⟩ := ih hvalues hsorted fun q hq => hlow q (List.mem_append_left _ hq)
      have hp : -1 ≤ p.1 := hlow p (by simp)
      have hother : p.2 ≠ (considerAll values).identityId := (hlater _ h.mem).ne'
      unfold GalleryMatch.consider
      by_cases hbetter : best < p.1
      · -- A new first place; the old one is second.
        rw [if_pos (Or.inr (by rw [h.best_eq, fin_lt]; exact hbetter))]
        refine ⟨p.1, best, rfl, rfl, h.best_eq, by simp, ?_, ?_, ?_⟩
        · intro q hq
          obtain hq | hq := List.mem_append.mp hq
          · have hle := (h.upper q hq).1
            exact ⟨hle.trans hbetter.le, fun heq => absurd (heq ▸ hle) (not_le.mpr hbetter)⟩
          · rw [List.mem_singleton.mp hq]
            exact ⟨le_rfl, fun _ => le_rfl⟩
        · intro q hq hne
          obtain hq | hq := List.mem_append.mp hq
          · exact (h.upper q hq).1
          · rw [List.mem_singleton.mp hq] at hne
            exact absurd rfl hne
        · exact Or.inl ⟨_, List.mem_append_left _ h.mem, hother.symm, rfl⟩
      · rw [if_neg (by rw [h.best_eq, fin_lt, h.valid]; simpa using hbetter)]
        have hle : p.1 ≤ best := not_lt.mp hbetter
        refine ⟨best, max second p.1, h.valid, h.best_eq, ?_, List.mem_append_left _ h.mem,
          ?_, ?_, ?_⟩
        · simp [h.second_eq]
        · intro q hq
          obtain hq | hq := List.mem_append.mp hq
          · exact h.upper q hq
          · rw [List.mem_singleton.mp hq]
            exact ⟨hle, fun _ => (hlater _ h.mem).le⟩
        · intro q hq hne
          obtain hq | hq := List.mem_append.mp hq
          · exact (h.others q hq hne).trans (le_max_left _ _)
          · rw [List.mem_singleton.mp hq]
            exact le_max_right _ _
        · left
          obtain hmax | hmax := max_choice second p.1
          · obtain ⟨q, hq, hne, hsecond⟩ | ⟨hsecond, -⟩ := h.second_mem
            · exact ⟨q, List.mem_append_left _ hq, hne, hsecond.trans hmax.symm⟩
            · -- Everybody else has the lowest value.
              have hlowest : p.1 = max second p.1 := by
                rw [hmax, hsecond]
                have hbound : p.1 ≤ second := hmax ▸ le_max_right _ _
                linarith
              exact ⟨p, by simp, hother, hlowest⟩
          · exact ⟨p, by simp, hother, hmax.symm⟩

/-! ## The loaded gallery -/

/-- The unit vector of a template. -/
noncomputable def templateRow (t : GalleryTemplate (Extended ℝ)) : Embedding (Extended ℝ) :=
  exactEmbedding (unitEmbedding (components t.embedding))

/-- The matcher that has loaded these templates. -/
noncomputable def loaded (templates : List (GalleryTemplate (Extended ℝ))) :
    GalleryMatcher (Extended ℝ) :=
  let identities := distinctIdentities (templates.map (·.identityId))
  { matrix := templates.map templateRow
    owners := templates.map fun t => lowerBound identities t.identityId
    identities
    best := List.replicate identities.length (lit 0) }

section Loading

variable {templates : List (GalleryTemplate (Extended ℝ))}

/-- The names are collected if none is empty. The first empty one ends the pass. -/
theorem names_eq_ok {names : List String} :
    (templates.mapM fun t =>
      if t.identityId = "" then throw "Empty gallery identity" else return t.identityId) =
        (.ok names : Except String (List String)) ↔
      (∀ t ∈ templates, t.identityId ≠ "") ∧ names = templates.map (·.identityId) := by
  rw [mapM_eq_ok]
  constructor
  · intro h
    induction h with
    | nil => simp
    | cons hfirst _ ih =>
      split at hfirst
      · cases hfirst
      · rename_i hname
        cases hfirst
        simpa [hname] using ih
  · rintro ⟨hnames, rfl⟩
    rw [List.forall₂_map_right_iff, List.forall₂_same]
    intro t ht
    exact if_neg (hnames t ht)

/-- The row of a template that can be loaded. Its components have to be finite, and its length
must not be too small. -/
theorem row_eq_ok {t : GalleryTemplate (Extended ℝ)} {row : Embedding (Extended ℝ)} :
    (if (List.finRange kEmbeddingSize).all fun j => isFinite (t.embedding j) then
        normalizeEmbedding (Extended ℝ) t.embedding
      else throw "Non-finite embedding") = .ok row ↔
      (∃ y, t.embedding = exactEmbedding y ∧ 1e-12 ≤ embeddingNorm y) ∧ row = templateRow t := by
  constructor
  · intro h
    split at h
    · obtain ⟨y, hy, hnorm, hrow⟩ := normalizeEmbedding_exact.mp h
      exact ⟨⟨y, hy, hnorm⟩, by rw [hrow, templateRow, hy, components_exact]⟩
    · cases h
  · rintro ⟨⟨y, hy, hnorm⟩, rfl⟩
    have hfinite :
        ((List.finRange kEmbeddingSize).all fun j => isFinite (t.embedding j)) = true := by
      rw [List.all_eq_true]
      intro j _
      rw [hy]
      rfl
    rw [if_pos hfinite]
    exact normalizeEmbedding_exact.mpr ⟨y, hy, hnorm, by rw [templateRow, hy, components_exact]⟩

/-- `replace` loads the templates when every one of them can be loaded. The matcher does not
depend on the order in which they were given, except for that of its rows. -/
theorem replace_eq_ok {g : GalleryMatcher (Extended ℝ)} :
    GalleryMatcher.replace (Extended ℝ) templates = .ok g ↔
      (∀ t ∈ templates, Loadable t) ∧ g = loaded templates := by
  have hmatrix : ∀ matrix : List (Embedding (Extended ℝ)), (templates.mapM fun t =>
      if (List.finRange kEmbeddingSize).all fun j => isFinite (t.embedding j) then
        normalizeEmbedding (Extended ℝ) t.embedding
      else throw "Non-finite embedding") = .ok matrix ↔
        (∀ t ∈ templates, ∃ y, t.embedding = exactEmbedding y ∧ 1e-12 ≤ embeddingNorm y) ∧
          matrix = templates.map templateRow := by
    intro matrix
    rw [mapM_eq_ok]
    constructor
    · intro h
      induction h with
      | nil => simp
      | cons hfirst _ ih =>
        obtain ⟨hlong, rfl⟩ := row_eq_ok.mp hfirst
        simpa [hlong] using ih
    · rintro ⟨hlong, rfl⟩
      rw [List.forall₂_map_right_iff, List.forall₂_same]
      intro t ht
      exact row_eq_ok.mpr ⟨hlong t ht, rfl⟩
  unfold GalleryMatcher.replace
  constructor
  · intro h
    obtain ⟨names, hnames, h⟩ := bind_eq_ok.mp h
    obtain ⟨matrix, hrows, h⟩ := bind_eq_ok.mp h
    obtain ⟨hne, rfl⟩ := names_eq_ok.mp hnames
    obtain ⟨hlong, rfl⟩ := (hmatrix matrix).mp hrows
    cases h
    exact ⟨fun t ht => ⟨hne t ht, hlong t ht⟩, rfl⟩
  · rintro ⟨hall, rfl⟩
    rw [names_eq_ok.mpr ⟨fun t ht => (hall t ht).1, rfl⟩]
    change (_ >>= fun _ => _) = _
    rw [(hmatrix _).mpr ⟨fun t ht => (hall t ht).2, rfl⟩]
    rfl

end Loading

/-! ## The comparison -/

/-- What a template says about a query. -/
noncomputable def rowCosine (x : Components) (row : Embedding (Extended ℝ)) : ℝ :=
  max (-1) (min (∑ j, unitEmbedding x j * components row j) 1)

/-- The row of a template is compared as its embedding is. -/
theorem rowCosine_templateRow (x : Components) (t : GalleryTemplate (Extended ℝ)) :
    rowCosine x (templateRow t) = clampedCosine x t := rfl

/-- No similarity is below minus one, as the code clamps it. -/
theorem neg_one_le_rowCosine (x : Components) (row : Embedding (Extended ℝ)) :
    -1 ≤ rowCosine x row := le_max_left _ _

/-- The code computes it. -/
theorem score_exact (x y : Components) :
    stdClamp (narrow (dotProduct (exactEmbedding (unitEmbedding x)) (exactEmbedding y) :
        Extended ℝ) : Extended ℝ) (lit (-1)) (lit 1) = .fin (rowCosine x (exactEmbedding y)) := by
  rw [narrow_eq, dotProduct_exact, lit_def, lit_def, stdClamp_fin (by norm_num)]
  simp [rowCosine]

section Comparing

variable {templates : List (GalleryTemplate (Extended ℝ))} {x : Components}

/-- The distinct identities of a gallery. -/
abbrev identitiesOf (templates : List (GalleryTemplate (Extended ℝ))) : List String :=
  distinctIdentities (templates.map (·.identityId))

/-- The values of the identities, as the code computes them. Each is the best cosine of the
templates of the identity, between minus one and one. -/
theorem similarity_scores {i : ℕ} {id : String} (hi : (identitiesOf templates)[i]? = some id) :
    ∃ v, ((loaded templates).similarities (Extended ℝ) (exactEmbedding (unitEmbedding x)))[i]? =
      some (.fin v) ∧ Scores templates x id v := by
  have hentries : (loaded templates).matrix.zip (loaded templates).owners =
      templates.map fun t => (templateRow t, lowerBound (identitiesOf templates) t.identityId) := by
    rw [loaded, List.zip_map']
  have hsorted := distinctIdentities_sorted (templates.map (·.identityId))
  have howner : ∀ t ∈ templates, lowerBound (identitiesOf templates) t.identityId = i ↔
      t.identityId = id := by
    intro t ht
    have hmem : t.identityId ∈ identitiesOf templates :=
      mem_distinctIdentities.mpr (List.mem_map_of_mem ht)
    obtain ⟨k, hk⟩ := List.mem_iff_getElem?.mp hmem
    rw [lowerBound_eq hsorted hk]
    constructor
    · rintro rfl
      rw [hi] at hk
      exact (Option.some.inj hk).symm
    · intro heq
      rw [← lowerBound_eq hsorted hk, heq]
      exact lowerBound_eq hsorted hi
  have hlength : i < (identitiesOf templates).length :=
    (List.getElem?_eq_some_iff.mp hi).1
  have hstart : (List.replicate (loaded templates).best.length (lit (-1) : Extended ℝ))[i]? =
      some (.fin (-1)) := by
    have hbest : (loaded templates).best.length = (identitiesOf templates).length :=
      List.length_replicate
    rw [hbest, List.getElem?_replicate, if_pos hlength, lit_def]
    simp
  have hscore : ∀ e ∈ (loaded templates).matrix.zip (loaded templates).owners,
      stdClamp (narrow (dotProduct (exactEmbedding (unitEmbedding x)) e.1 : Extended ℝ) :
        Extended ℝ) (lit (-1)) (lit 1) = .fin (rowCosine x e.1) := by
    intro e he
    rw [hentries] at he
    obtain ⟨t, -, rfl⟩ := List.mem_map.mp he
    exact score_exact x _
  have hall := @raise_all _ (fun row =>
    stdClamp (narrow (dotProduct (exactEmbedding (unitEmbedding x)) row : Extended ℝ))
      (lit (-1)) (lit 1)) (rowCosine x) _ hscore _ _ _ hstart
  obtain ⟨v, hv, hraised⟩ := hall
  refine ⟨v, hv, ?_, ?_⟩
  · obtain hlow | ⟨e, he, hei, hev⟩ := hraised.attained
    · -- A template of the identity says at least -1 as well.
      have hmem : id ∈ templates.map (·.identityId) :=
        mem_distinctIdentities.mp (List.mem_of_getElem? hi)
      obtain ⟨t, ht, hid⟩ := List.mem_map.mp hmem
      refine ⟨t, ht, hid, ?_⟩
      have hupper := hraised.upper (templateRow t, lowerBound (identitiesOf templates) t.identityId)
        (hentries ▸ List.mem_map_of_mem ht) ((howner t ht).mpr hid)
      have hge := neg_one_le_rowCosine x (templateRow t)
      rw [rowCosine_templateRow] at hupper hge
      linarith
    · rw [hentries] at he
      obtain ⟨t, ht, rfl⟩ := List.mem_map.mp he
      exact ⟨t, ht, (howner t ht).mp hei, hev.symm⟩
  · rintro c ⟨t, ht, hid, rfl⟩
    exact hraised.upper (templateRow t, lowerBound (identitiesOf templates) t.identityId)
      (hentries ▸ List.mem_map_of_mem ht) ((howner t ht).mpr hid)

/-- The values of all identities. They are listed in the order of the identities. -/
theorem exists_values (templates : List (GalleryTemplate (Extended ℝ))) (x : Components) :
    ∃ values : List (ℝ × String),
      ((loaded templates).similarities (Extended ℝ) (exactEmbedding (unitEmbedding x))).zip
          (loaded templates).identities = values.map (fun p => (.fin p.1, p.2)) ∧
        values.map (·.2) = identitiesOf templates ∧ ∀ p ∈ values, Scores templates x p.2 p.1 := by
  generalize hsims :
    (loaded templates).similarities (Extended ℝ) (exactEmbedding (unitEmbedding x)) =
    sims
  have hlength : sims.length = (identitiesOf templates).length := by
    rw [← hsims, GalleryMatcher.length_similarities]
    exact List.length_replicate
  have helement : ∀ p ∈ sims.zip (identitiesOf templates),
      ∃ v, p.1 = .fin v ∧ Scores templates x p.2 v := by
    intro p hp
    obtain ⟨i, hi⟩ := List.mem_iff_getElem?.mp hp
    rw [List.getElem?_zip_eq_some] at hi
    obtain ⟨v, hv, hscores⟩ := similarity_scores (x := x) hi.2
    rw [hsims, hi.1] at hv
    exact ⟨v, Option.some.inj hv, hscores⟩
  refine ⟨(sims.zip (identitiesOf templates)).map fun p => (p.1.number, p.2), ?_, ?_, ?_⟩
  · rw [List.map_map]
    conv_lhs => rw [← List.map_id (sims.zip _)]
    apply List.map_congr_left
    intro p hp
    obtain ⟨v, hv, -⟩ := helement p hp
    have hnumber : (.fin p.1.number : Extended ℝ) = p.1 := by
      rw [hv]
      rfl
    simp only [id, Function.comp_apply, hnumber]
  · rw [List.map_map]
    exact List.map_snd_zip hlength.ge
  · intro q hq
    obtain ⟨p, hp, rfl⟩ := List.mem_map.mp hq
    obtain ⟨v, hv, hscores⟩ := helement p hp
    simpa only [hv, number_fin] using hscores

/-- First and second place say what the reference says. A gallery with one identity has no second
place, and its margin is the largest one. -/
theorem reference_of_places {values : List (ℝ × String)} {m : GalleryMatch (Extended ℝ)}
    {best second : ℝ} (hne : templates ≠ []) (hlong : ¬ embeddingNorm x < 1e-12)
    (hids : values.map (·.2) = identitiesOf templates)
    (hscores : ∀ p ∈ values, Scores templates x p.2 p.1) (h : Places values m best second) :
    Reference templates x
      { m with
        margin := if (identitiesOf templates).length = 1 then lit 2
          else m.bestSimilarity - m.secondSimilarity } := by
  have hmem : ∀ t ∈ templates, ∃ p ∈ values, p.2 = t.identityId := by
    intro t ht
    have hid : t.identityId ∈ values.map (·.2) := by
      rw [hids]
      exact mem_distinctIdentities.mpr (List.mem_map_of_mem ht)
    obtain ⟨p, hp, heq⟩ := List.mem_map.mp hid
    exact ⟨p, hp, heq⟩
  have hvalue : ∀ {identity v}, Scores templates x identity v → (v, identity) ∈ values := by
    intro identity v hv
    obtain ⟨t, ht, hid, -⟩ := hv.1
    obtain ⟨p, hp, hpid⟩ := hmem t ht
    have hsame : p = (v, identity) := by
      have hscore := hscores p hp
      rw [hpid, hid] at hscore
      exact Prod.ext (hscore.unique hv) (hpid.trans hid)
    exact hsame ▸ hp
  have hsorted : (values.map (·.2)).Pairwise (· < ·) := hids ▸ distinctIdentities_sorted _
  have hwinner : Scores templates x m.identityId best := hscores _ h.mem
  refine ⟨?_, ?_, fun _ => ?_, fun _ hall => ?_, fun _ hother => ?_⟩
  · simp [h.valid, hne, hlong]
  · intro hvalid
    simp [h.valid] at hvalid
  · exact ⟨best, h.best_eq, hwinner, fun identity v hv => h.upper _ (hvalue hv)⟩
  · have hone : identitiesOf templates = [m.identityId] := by
      have hall' : ∀ id ∈ identitiesOf templates, id = m.identityId := by
        intro id hid
        obtain ⟨t, ht, rfl⟩ := List.mem_map.mp (mem_distinctIdentities.mp hid)
        exact hall t ht
      have hin : m.identityId ∈ identitiesOf templates := hids ▸ List.mem_map_of_mem h.mem
      have hnodup : (identitiesOf templates).Nodup := by
        rw [← hids]
        exact hsorted.imp ne_of_lt
      generalize identitiesOf templates = ids at hall' hin hnodup
      cases ids with
      | nil => cases hin
      | cons a rest =>
        cases rest with
        | nil => rw [hall' a List.mem_cons_self]
        | cons b rest =>
          have hab : a = b := (hall' a (by simp)).trans (hall' b (by simp)).symm
          simp [hab] at hnodup
    have hlength : (identitiesOf templates).length = 1 := by rw [hone]; rfl
    refine ⟨?_, ?_⟩
    · simp [hlength, lit_def]
    · obtain ⟨p, hp, hne', -⟩ | ⟨hsecond, -⟩ := h.second_mem
      · have hid : p.2 ∈ identitiesOf templates := hids ▸ List.mem_map_of_mem hp
        rw [hone, List.mem_singleton] at hid
        exact absurd hid hne'
      · rw [h.second_eq, hsecond]
  · obtain ⟨t, ht, hne'⟩ := hother
    obtain ⟨q, hq, hqid⟩ := hmem t ht
    have hmany : (identitiesOf templates).length ≠ 1 := by
      intro hone
      obtain ⟨a, ha⟩ := List.length_eq_one_iff.mp hone
      have hm : m.identityId ∈ identitiesOf templates := hids ▸ List.mem_map_of_mem h.mem
      have hq' : q.2 ∈ identitiesOf templates := hids ▸ List.mem_map_of_mem hq
      rw [ha, List.mem_singleton] at hm hq'
      exact hne' (hqid.symm.trans (hq'.trans hm.symm))
    refine ⟨best, second, h.best_eq, h.second_eq, ⟨?_, ?_⟩, ?_⟩
    · obtain ⟨p, hp, hpne, hpsecond⟩ | ⟨-, hsame⟩ := h.second_mem
      · exact ⟨p.2, hpne, hpsecond ▸ hscores p hp⟩
      · exact absurd (hqid.symm.trans (hsame q hq)) hne'
    · rintro v ⟨identity, hidentity, hv⟩
      exact h.others _ (hvalue hv) hidentity
    · simp [hmany, h.best_eq, h.second_eq]

/-- A loaded matcher answers every query as the reference does. The cases are those of the code:
no templates, a query that is too short, and a comparison. -/
theorem match_loaded (templates : List (GalleryTemplate (Extended ℝ))) (x : Components) :
    ∃ m g, (loaded templates).match (Extended ℝ) (exactEmbedding x) = .ok (m, g) ∧
      Reference templates x m := by
  have hnothing : ∀ h : templates = [] ∨ embeddingNorm x < 1e-12,
      Reference templates x .empty := by
    intro h
    refine ⟨iff_of_true rfl h, fun _ => rfl, ?_, ?_, ?_⟩ <;> intro hvalid <;> cases hvalid
  unfold GalleryMatcher.match
  by_cases hne : templates = []
  · have hmatrix : (loaded templates).matrix = [] := by
      rw [hne]
      rfl
    rw [if_pos hmatrix]
    exact ⟨_, _, rfl, hnothing (Or.inl hne)⟩
  have hmatrix : (loaded templates).matrix ≠ [] := by
    simpa [loaded] using hne
  have hfinite : ¬ ((List.finRange kEmbeddingSize).any fun j =>
      isFinite (exactEmbedding x j) = false) = true := by
    simp [exactEmbedding]
  rw [if_neg hmatrix, if_neg hfinite]
  dsimp only
  rw [sqrt_dotProduct_exact]
  by_cases hshort : embeddingNorm x < 1e-12
  · rw [if_pos (fin_lt_shortest.mpr hshort)]
    exact ⟨_, _, rfl, hnothing (Or.inr hshort)⟩
  rw [if_neg (fin_lt_shortest.not.mpr hshort), scale_exact (not_lt.mp hshort)]
  obtain ⟨values, hzip, hids, hscores⟩ := exists_values templates x
  rw [hzip, List.foldl_map]
  have hvalues : values ≠ [] := by
    rintro rfl
    have hnone : identitiesOf templates = [] := hids.symm
    obtain ⟨t, ht⟩ := List.exists_mem_of_ne_nil templates hne
    have hmem : t.identityId ∈ identitiesOf templates :=
      mem_distinctIdentities.mpr (List.mem_map_of_mem ht)
    rw [hnone] at hmem
    cases hmem
  have hlow : ∀ p ∈ values, -1 ≤ p.1 := by
    intro p hp
    obtain ⟨t, -, -, hvalue⟩ := (hscores p hp).1
    rw [hvalue]
    exact le_max_left _ _
  obtain ⟨best, second, hplaces⟩ :=
    places_considerAll hvalues (hids ▸ distinctIdentities_sorted _) hlow
  exact ⟨_, _, rfl, reference_of_places hne hshort hids hscores hplaces⟩

end Comparing

/-! ## Runs of the matcher -/

/-- A call of the matcher. -/
inductive MatcherCall
  /-- `replace`. -/
  | replace (templates : List (GalleryTemplate (Extended ℝ)))
  /-- `match`. -/
  | match (query : Embedding (Extended ℝ))

/-- A matcher with the contents of a loaded one answers every query as the reference does. So the
answer does not depend on the queries that were asked before. -/
theorem GalleryMatcher.Same.answers {g : GalleryMatcher (Extended ℝ)}
    {templates : List (GalleryTemplate (Extended ℝ))} (h : g.Same (loaded templates))
    (x : Components) : ∃ m g', g.match (Extended ℝ) (exactEmbedding x) = .ok (m, g') ∧
      Reference templates x m := by
  obtain ⟨m, g', hmatch, href⟩ := match_loaded templates x
  have hresult := h.match_eq (D := Extended ℝ) (exactEmbedding x)
  rw [hmatch] at hresult
  cases hrun : g.match (Extended ℝ) (exactEmbedding x) with
  | error e =>
    rw [hrun] at hresult
    cases hresult
  | ok result =>
    obtain ⟨m', g''⟩ := result
    rw [hrun] at hresult
    cases hresult
    exact ⟨_, g'', rfl, href⟩

namespace MatcherCall

/-- The matcher after a call; a call that throws leaves it as it is. -/
noncomputable def perform (call : MatcherCall) (g : GalleryMatcher (Extended ℝ)) :
    GalleryMatcher (Extended ℝ) :=
  match call with
  | .replace templates =>
    match GalleryMatcher.replace (Extended ℝ) templates with
    | .ok next => next
    | .error _ => g
  | .match query =>
    match g.match (Extended ℝ) query with
    | .ok (_, next) => next
    | .error _ => g

open Classical in
/-- The templates after a call: those that could be loaded take the place of the old ones. -/
noncomputable def install (call : MatcherCall) (templates : List (GalleryTemplate (Extended ℝ))) :
    List (GalleryTemplate (Extended ℝ)) :=
  match call with
  | .replace next => if ∀ t ∈ next, Loadable t then next else templates
  | .match _ => templates

/-- A call keeps the contents of the matcher those of the installed templates. A `replace` that
throws keeps the old ones. -/
theorem same_perform {call : MatcherCall} {g : GalleryMatcher (Extended ℝ)}
    {templates : List (GalleryTemplate (Extended ℝ))} (h : g.Same (loaded templates)) :
    (call.perform g).Same (loaded (call.install templates)) := by
  cases call with
  | replace next =>
    simp only [perform, install]
    by_cases hall : ∀ t ∈ next, Loadable t
    · rw [replace_eq_ok.mpr ⟨hall, rfl⟩, if_pos hall]
      exact .refl _
    · rw [if_neg hall]
      cases hrun : GalleryMatcher.replace (Extended ℝ) next with
      | ok g' => exact absurd (replace_eq_ok.mp hrun).1 hall
      | error e => exact h
  | «match» query =>
    simp only [perform, install]
    cases hrun : g.match (Extended ℝ) query with
    | ok result => exact (GalleryMatcher.same_of_match hrun).trans h
    | error e => exact h

/-- Queries keep the contents of the matcher. -/
theorem same_queries (queries : List (Embedding (Extended ℝ))) {g : GalleryMatcher (Extended ℝ)}
    {templates : List (GalleryTemplate (Extended ℝ))} (h : g.Same (loaded templates)) :
    (runFrom perform g (queries.map .match)).Same (loaded templates) := by
  induction queries generalizing g with
  | nil => exact h
  | cons query queries ih => exact ih (same_perform h)

/-- A matcher without templates. -/
theorem same_empty : (GalleryMatcher.empty : GalleryMatcher (Extended ℝ)).Same (loaded []) :=
  ⟨rfl, rfl, rfl, rfl⟩

end MatcherCall

/-- After any calls, those that threw included, a finite query is answered as the reference
says for the templates installed last; and the reference says the same for templates in
another order or repeated. -/
theorem match_reference (calls : List MatcherCall) (x : Components) :
    ∃ m g, (runFrom MatcherCall.perform .empty calls).match (Extended ℝ) (exactEmbedding x) =
        .ok (m, g) ∧
      Reference (runFrom MatcherCall.install [] calls) x m ∧
      ∀ templates m', (∀ t, t ∈ templates ↔ t ∈ runFrom MatcherCall.install [] calls) →
        Reference templates x m' → m' = m := by
  have hsame : (runFrom MatcherCall.perform .empty calls).Same
      (loaded (runFrom MatcherCall.install [] calls)) := by
    have hstart := MatcherCall.same_empty
    revert hstart
    generalize (GalleryMatcher.empty : GalleryMatcher (Extended ℝ)) = g
    generalize ([] : List (GalleryTemplate (Extended ℝ))) = templates
    intro hstart
    induction calls generalizing g templates with
    | nil => exact hstart
    | cons call calls ih => exact ih _ _ (MatcherCall.same_perform hstart)
  obtain ⟨m, g, hmatch, href⟩ := hsame.answers x
  exact ⟨m, g, hmatch, href, fun templates m' hsets href' => href'.unique href hsets⟩

end EdgeClient.Vision
