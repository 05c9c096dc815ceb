import EdgeClient.Vision.Scrfd

/-!
# What the face detector returns in exact arithmetic

On finite outputs of the network everything the detector computes is a number. The overlap of
two boxes lies between zero and one and does not depend on their order; suppression keeps
boxes that do not overlap too much, and each box it drops overlaps a box with at least its
score. What is returned lies inside the frame and is the box of an anchor, mapped through the
inverse of the letterbox and clamped.
-/

namespace EdgeClient.Vision.Scrfd

open Basis Extended

variable {K : Type} [Field K] [LinearOrder K] [IsStrictOrderedRing K] [RootOps K]

/-! ## The outputs of the network -/

section Outputs

variable {F : Type} [FloatOps F] {c : ScrfdConfig F} {blobs : List (TensorBlob F)}

/-- Number of anchors of a stride on the network input. -/
def anchorCount (stride : ℕ) : ℕ := 640 / stride * (640 / stride) * numAnchors

/-- The outputs of a stride fit together. There is one score, one box and one set of landmarks for
each anchor. -/
structure LevelBlobs.Fits (P : F → Prop) (level : LevelBlobs F) : Prop where
  /-- The stride is one of the network. -/
  known : level.stride ∈ strides
  /-- There are two anchors for each cell. -/
  anchors : level.anchors = anchorCount level.stride
  /-- One score for each anchor. -/
  scores : level.scores.length = level.anchors
  /-- Four distances for each anchor. -/
  bbox : level.bbox.length = level.anchors * 4
  /-- Five points for each anchor. -/
  kps : level.kps.length = level.anchors * 10
  /-- The scores are numbers of the network. -/
  scores_mem : ∀ v ∈ level.scores, P v
  /-- The distances are numbers of the network. -/
  bbox_mem : ∀ v ∈ level.bbox, P v
  /-- The points are numbers of the network. -/
  kps_mem : ∀ v ∈ level.kps, P v

/-- An output of a stride has a number of rows that is right for it. -/
structure PartFits (P : F → Prop) (stride columns : ℕ) (data : List F) : Prop where
  /-- It has the size of the anchors. -/
  length : data.length = anchorCount stride * columns
  /-- It holds numbers of the network. -/
  mem : ∀ v ∈ data, P v

/-- The outputs that were found for a stride fit it. -/
structure LevelParts.Fits (P : F → Prop) (stride : ℕ) (parts : LevelParts F) : Prop where
  /-- The stride is one of the network. -/
  known : stride ∈ strides
  /-- There are two anchors for each cell. -/
  anchors : parts.anchors = anchorCount stride
  /-- The scores, if they were found. -/
  scores : ∀ data ∈ parts.scores, PartFits P stride 1 data
  /-- The boxes, if they were found. -/
  bbox : ∀ data ∈ parts.bbox, PartFits P stride 4 data
  /-- The landmarks, if they were found. -/
  kps : ∀ data ∈ parts.kps, PartFits P stride 10 data

omit [FloatOps F] in
/-- A blob with rows holds as many values as its rows need, neither more nor less. -/
theorem length_of_rowCount {blob : TensorBlob F} (h : rowCount blob ≠ 0) :
    blob.data.length = rowCount blob * lastDimension blob := by
  unfold rowCount at h ⊢
  dsimp only at h ⊢
  split at h
  · exact absurd rfl h
  · rename_i hdim
    rw [if_neg hdim]
    obtain ⟨-, hrest⟩ := not_or.mp hdim
    exact (Nat.div_mul_cancel (Nat.dvd_of_mod_eq_zero (not_not.mp hrest))).symm

/-- A stride found for a number of anchors is one of the three strides, and the number is that of
its grid. -/
theorem strideForAnchorCount_spec {anchors stride : ℕ}
    (h : strideForAnchorCount anchors 640 640 = stride) (hstride : stride ≠ 0) :
    stride ∈ strides ∧ anchors = anchorCount stride := by
  unfold strideForAnchorCount at h
  cases hfind : strides.find? fun stride =>
      anchors = 640 / stride * (640 / stride) * numAnchors with
  | none =>
    rw [hfind] at h
    exact absurd h.symm hstride
  | some found =>
    rw [hfind] at h
    cases h
    exact ⟨List.mem_of_find?_eq_some hfind, by simpa [anchorCount] using List.find?_some hfind⟩

/-- Each stride has anchors. -/
theorem anchorCount_pos {stride : ℕ} (h : stride ∈ strides) : 0 < anchorCount stride := by
  simp only [strides, List.mem_cons, List.not_mem_nil, or_false] at h
  rcases h with rfl | rfl | rfl <;> decide

/-- One output is put where it belongs. The stride is found from the number of rows, which is
different for each stride. -/
theorem placeBlob_fits {P : F → Prop} {levels levels' : ℕ → Option (LevelParts F)}
    {blob : TensorBlob F} (hsize : c.inputWidth = 640 ∧ c.inputHeight = 640)
    (hblob : ∀ v ∈ blob.data, P v)
    (hlevels : ∀ stride, ∀ parts ∈ levels stride, parts.Fits P stride)
    (h : placeBlob c levels blob = .ok levels') :
    ∀ stride, ∀ parts ∈ levels' stride, parts.Fits P stride := by
  unfold placeBlob at h
  rw [hsize.1, hsize.2] at h
  dsimp only at h
  generalize hplace : strideForAnchorCount (rowCount blob) 640 640 = place at h
  split at h
  · cases h
  rename_i hzero
  obtain ⟨hmem, hrows⟩ := strideForAnchorCount_spec hplace hzero
  have hpart : PartFits P place (lastDimension blob) blob.data := by
    refine ⟨?_, hblob⟩
    rw [← hrows]
    exact length_of_rowCount (by rw [hrows]; exact (anchorCount_pos hmem).ne')
  have hold : LevelParts.Fits P place
      { (levels place).getD {} with anchors := rowCount blob } := by
    cases hfound : levels place with
    | none => exact ⟨hmem, hrows, by simp, by simp, by simp⟩
    | some parts =>
      have hparts := hlevels place parts hfound
      exact ⟨hmem, hrows, hparts.scores, hparts.bbox, hparts.kps⟩
  have hput : ∀ new : LevelParts F, new.Fits P place →
      ∀ stride, ∀ parts ∈ Function.update levels place (some new) stride,
        parts.Fits P stride := by
    intro new hnew stride parts hparts
    by_cases hstride : stride = place
    · subst hstride
      rw [Function.update_self] at hparts
      cases hparts
      exact hnew
    · rw [Function.update_of_ne hstride] at hparts
      exact hlevels stride parts hparts
  split at h
  · rename_i hdim
    rw [hdim] at hpart
    cases h
    refine hput _ ⟨hmem, hrows, ?_, hold.bbox, hold.kps⟩
    rintro data ⟨⟩
    exact hpart
  split at h
  · rename_i hdim
    rw [hdim] at hpart
    cases h
    refine hput _ ⟨hmem, hrows, hold.scores, ?_, hold.kps⟩
    rintro data ⟨⟩
    exact hpart
  split at h
  · rename_i hdim
    rw [hdim] at hpart
    cases h
    refine hput _ ⟨hmem, hrows, hold.scores, hold.bbox, ?_⟩
    rintro data ⟨⟩
    exact hpart
  · cases h

omit [FloatOps F] in
/-- A complete stride is taken as it was found. A stride with a missing part is refused. -/
theorem orderedLevel_fits {P : F → Prop} {levels : ℕ → Option (LevelParts F)} {stride : ℕ}
    {level : LevelBlobs F} (hlevels : ∀ stride, ∀ parts ∈ levels stride, parts.Fits P stride)
    (h : orderedLevel levels stride = .ok level) : level.Fits P ∧ level.stride = stride := by
  unfold orderedLevel at h
  split at h
  · cases h
  · rename_i anchors scores bbox kps hfound
    cases h
    have hparts := hlevels stride _ hfound
    have hscores := hparts.scores scores rfl
    have hbbox := hparts.bbox bbox rfl
    have hkps := hparts.kps kps rfl
    have hanchors : anchors = anchorCount stride := hparts.anchors
    refine ⟨⟨hparts.known, hanchors, ?_, ?_, ?_, hscores.mem, hbbox.mem, hkps.mem⟩, rfl⟩
    · rw [hscores.length, hanchors, mul_one]
    · rw [hbbox.length, hanchors]
    · rw [hkps.length, hanchors]
  · cases h

/-- Outputs that are accepted fit together at each of the three strides. The invariant of the loop
is that the parts placed so far fit. -/
theorem organizeOutputs_fits {P : F → Prop} {levels : List (LevelBlobs F)}
    (hsize : c.inputWidth = 640 ∧ c.inputHeight = 640)
    (hblobs : ∀ blob ∈ blobs, ∀ v ∈ blob.data, P v)
    (h : organizeOutputs c blobs = .ok levels) :
    levels.map LevelBlobs.stride = strides ∧ ∀ level ∈ levels, level.Fits P := by
  obtain ⟨found, hfound, h⟩ := bind_eq_ok.mp h
  have hparts : ∀ stride, ∀ parts ∈ found stride, parts.Fits P stride := by
    refine foldlM_ok (fun _ levels => ∀ stride, ∀ parts ∈ levels stride, parts.Fits P stride)
      (by simp) ?_ hfound
    intro pre blob post levels levels' hsplit hlevels hplace
    exact placeBlob_fits hsize (hblobs blob (by rw [hsplit]; simp)) hlevels hplace
  have hlevels : List.Forall₂ (fun level stride => level.Fits P ∧ level.stride = stride) levels
      strides := ((mapM_eq_ok.mp h).imp fun stride level => orderedLevel_fits hparts).flip
  obtain ⟨hfits, hstrides⟩ := (List.forall₂_and_left _ _).mp hlevels
  refine ⟨?_, hfits⟩
  rw [← List.forall₂_eq_eq_eq, List.forall₂_map_left_iff]
  exact hstrides

end Outputs

/-! ## The overlap of two boxes -/

/-- A detection whose coordinates are numbers. -/
def exact (d : FaceDetection K) : FaceDetection (Extended K) where
  x1 := fin d.x1
  y1 := fin d.y1
  x2 := fin d.x2
  y2 := fin d.y2
  score := fin d.score
  landmarks := fun p => ⟨fin (d.landmarks p).x, fin (d.landmarks p).y⟩

/-- The pixels between two edges, both counted; none when the edges are crossed. -/
def span (low high : K) : K := max 0 (high - low + 1)

/-- The pixels of a box. -/
def boxArea (d : FaceDetection K) : K := span d.x1 d.x2 * span d.y1 d.y2

/-- The pixels that two boxes share. -/
def sharedArea (a b : FaceDetection K) : K :=
  span (max a.x1 b.x1) (min a.x2 b.x2) * span (max a.y1 b.y1) (min a.y2 b.y2)

/-- The shared part of the pixels of two boxes. -/
def overlap (a b : FaceDetection K) : K :=
  sharedArea a b / (boxArea a + boxArea b - sharedArea a b)

omit [RootOps K] [IsStrictOrderedRing K] in
/-- The length of an interval is never negative, even where the ends are in the wrong order. -/
theorem span_nonneg (low high : K) : 0 ≤ span low high := le_max_left _ _

omit [RootOps K] in
/-- An interval within another one is not longer. -/
theorem span_mono {low high low' high' : K} (hlow : low ≤ low') (hhigh : high' ≤ high) :
    span low' high' ≤ span low high := max_le_max le_rfl (by linarith)

omit [RootOps K] in
/-- The shared area of two boxes is not negative. -/
theorem sharedArea_nonneg (a b : FaceDetection K) : 0 ≤ sharedArea a b :=
  mul_nonneg (span_nonneg _ _) (span_nonneg _ _)

omit [RootOps K] [IsStrictOrderedRing K] in
/-- The shared area does not depend on the order of the boxes. -/
theorem sharedArea_comm (a b : FaceDetection K) : sharedArea a b = sharedArea b a := by
  unfold sharedArea
  rw [max_comm a.x1, min_comm a.x2, max_comm a.y1, min_comm a.y2]

omit [RootOps K] in
/-- Boxes share at most the area of either. -/
theorem sharedArea_le (a b : FaceDetection K) : sharedArea a b ≤ boxArea a :=
  mul_le_mul (span_mono (le_max_left _ _) (min_le_left _ _))
    (span_mono (le_max_left _ _) (min_le_left _ _)) (span_nonneg _ _) (span_nonneg _ _)

omit [RootOps K] [IsStrictOrderedRing K] in
/-- The overlap of two boxes does not depend on their order. -/
theorem overlap_comm (a b : FaceDetection K) : overlap a b = overlap b a := by
  unfold overlap
  rw [sharedArea_comm, add_comm (boxArea a)]

omit [RootOps K] in
/-- The union of two boxes has at least the pixels that they share. -/
theorem sharedArea_le_union (a b : FaceDetection K) :
    sharedArea a b ≤ boxArea a + boxArea b - sharedArea a b := by
  have ha := sharedArea_le a b
  have hb := sharedArea_le b a
  rw [sharedArea_comm b a] at hb
  linarith

omit [RootOps K] in
/-- The overlap is a proportion, also for boxes without pixels. -/
theorem overlap_mem (a b : FaceDetection K) : 0 ≤ overlap a b ∧ overlap a b ≤ 1 := by
  have hshared := sharedArea_nonneg a b
  have hunion := sharedArea_le_union a b
  exact ⟨div_nonneg hshared (hshared.trans hunion), div_le_one_of_le₀ hunion (hshared.trans hunion)⟩

/-- `iou_inclusive` calculates the overlap. The pixels at both ends count, and empty intersections
have no area. -/
theorem iouInclusive_exact (a b : FaceDetection K) :
    iouInclusive (exact a) (exact b) = fin (overlap a b) := by
  have hcalc : iouInclusive (exact a) (exact b) =
      if (fin (boxArea a + boxArea b - sharedArea a b) : Extended K) ≤ fin 0 then fin 0
      else fin (sharedArea a b) / fin (boxArea a + boxArea b - sharedArea a b) := by
    unfold iouInclusive
    simp only [exact, lit_def, stdMax_fin, stdMin_fin, fin_sub, fin_add, fin_mul, Rat.cast_zero,
      Rat.cast_one]
    rfl
  rw [hcalc]
  have hunion := sharedArea_le_union a b
  split
  · rename_i hempty
    have hshared := le_antisymm (hunion.trans (fin_le.mp hempty)) (sharedArea_nonneg a b)
    rw [overlap, hshared, zero_div]
  · rename_i hempty
    exact fin_div _ (not_le.mp (mt fin_le.mpr hempty)).ne'

/-! ## Suppression -/

/-- What `std::sort` promises: the same detections by non-increasing score, those of equal
score in any order. -/
def SortsByScore (sort : List (FaceDetection (Extended K)) → List (FaceDetection (Extended K))) :
    Prop :=
  ∀ detections : List (FaceDetection K),
    (sort (detections.map exact)).Perm (detections.map exact) ∧
      (sort (detections.map exact)).Pairwise fun earlier later => ¬ earlier.score < later.score

/-- A stable sort by score. -/
def sortByScore (detections : List (FaceDetection (Extended K))) :
    List (FaceDetection (Extended K)) :=
  detections.mergeSort fun a b => decide (b.score.number ≤ a.score.number)

omit [IsStrictOrderedRing K] in
/-- The merge sort by decreasing score is one of the orders that `std::sort` may leave. -/
theorem sortByScore_sorts : SortsByScore (sortByScore (K := K)) := by
  intro detections
  refine ⟨List.mergeSort_perm _ _, ?_⟩
  have hsorted : (sortByScore (detections.map exact)).Pairwise fun a b =>
      decide (b.score.number ≤ a.score.number) = true :=
    List.pairwise_mergeSort (by simpa using fun a b c hab hbc => hbc.trans hab)
      (by simpa using fun a b => le_total _ _) (detections.map exact)
  refine hsorted.imp_of_mem fun {a b} ha hb hab => ?_
  obtain ⟨a, -, rfl⟩ := List.mem_map.mp ((List.mergeSort_perm _ _).mem_iff.mp ha)
  obtain ⟨b, -, rfl⟩ := List.mem_map.mp ((List.mergeSort_perm _ _).mem_iff.mp hb)
  exact fun h => not_lt.mpr (of_decide_eq_true hab) (fin_lt.mp h)

/-- What is kept of candidates, and what is dropped. -/
structure Selection {α : Type} (threshold : Extended K) (box : α → FaceDetection K)
    (candidates kept dropped : List α) : Prop where
  /-- Every candidate is kept or dropped. -/
  perm : candidates.Perm (kept ++ dropped)
  /-- Kept candidates come by non-increasing score. -/
  ordered : kept.Pairwise fun earlier later => (box later).score ≤ (box earlier).score
  /-- No two kept candidates overlap above the threshold. -/
  apart : kept.Pairwise fun earlier later =>
    ¬ threshold < iouInclusive (exact (box earlier)) (exact (box later)) ∧
      ¬ threshold < iouInclusive (exact (box later)) (exact (box earlier))
  /-- A dropped candidate overlaps a kept one of at least its score above the threshold. -/
  covered : ∀ d ∈ dropped, ∃ k ∈ kept,
    threshold < iouInclusive (exact (box d)) (exact (box k)) ∧ (box d).score ≤ (box k).score

/-- Suppression selects. The labels say which anchor a box comes from, and sorting and suppressing
ignore them. -/
theorem nms_selects {α : Type}
    {sort : List (FaceDetection (Extended K)) → List (FaceDetection (Extended K))}
    (hsort : SortsByScore sort) (threshold : Extended K) (box : α → FaceDetection K)
    (candidates : List α) :
    ∃ kept dropped, nms sort threshold (candidates.map fun a => exact (box a)) =
        kept.map (fun a => exact (box a)) ∧ Selection threshold box candidates kept dropped := by
  obtain ⟨hperm, hsorted⟩ := hsort (candidates.map box)
  rw [List.map_map] at hperm hsorted
  obtain ⟨ordered, horder, hordered⟩ := exists_perm_of_perm_map hperm
  obtain ⟨dropped, hrun⟩ := suppressed_suppress (fun accepted candidate => decide
    (threshold < iouInclusive (exact (box candidate)) (exact (box accepted)))) ordered
  have hscores : ordered.Pairwise fun earlier later =>
      (box later).score ≤ (box earlier).score := by
    rw [hordered, List.pairwise_map] at hsorted
    exact hsorted.imp fun h => not_lt.mp (mt fin_lt.mpr h)
  refine ⟨_, dropped, ?_, horder.symm.trans hrun.perm, hscores.sublist hrun.sublist, ?_, ?_⟩
  · have hmapped := suppress_map (fun accepted candidate => decide
      (threshold < iouInclusive candidate accepted)) (fun a => exact (box a)) ordered
    rw [← hmapped]
    exact congrArg _ hordered
  · refine hrun.free.imp fun {earlier later} h => ?_
    have hlater := of_decide_eq_false h
    refine ⟨?_, hlater⟩
    rwa [iouInclusive_exact, overlap_comm, ← iouInclusive_exact]
  · intro d hd
    obtain ⟨k, hk, habove, hfront⟩ := hrun.cause d hd
    have hscore := List.pairwise_pair.mp (hscores.sublist hfront)
    exact ⟨k, hk, of_decide_eq_true habove, hscore⟩

/-! ## The boxes of the anchors -/

/-- An anchor: the outputs of its stride, and its number there. -/
abbrev Anchor (K : Type) := LevelBlobs (Extended K) × ℕ

/-- Left edge of the cell of an anchor: there are two anchors for each cell, and the cells
come row by row. -/
def gridX (a : Anchor K) : ℕ := a.2 / 2 % (640 / a.1.stride) * a.1.stride

/-- Upper edge of the cell of an anchor. -/
def gridY (a : Anchor K) : ℕ := a.2 / 2 / (640 / a.1.stride) * a.1.stride

/-- The box and the landmarks of an anchor on the network input. The distances and the offsets are
multiples of the stride, from the point of the grid. -/
def anchorBox (a : Anchor K) : FaceDetection K :=
  let bbox := fun k => (a.1.bbox.getD (a.2 * 4 + k) (lit 0)).number
  let kps := fun k => (a.1.kps.getD (a.2 * 10 + k) (lit 0)).number
  { x1 := gridX a - bbox 0 * a.1.stride
    y1 := gridY a - bbox 1 * a.1.stride
    x2 := gridX a + bbox 2 * a.1.stride
    y2 := gridY a + bbox 3 * a.1.stride
    score := (a.1.scores.getD a.2 (lit 0)).number
    landmarks := fun p =>
      ⟨gridX a + kps (p * 2) * a.1.stride, gridY a + kps (p * 2 + 1) * a.1.stride⟩ }

/-- The anchors with a sufficient score. -/
def scoredAnchors (c : ScrfdConfig (Extended K)) (levels : List (LevelBlobs (Extended K))) :
    List (Anchor K) :=
  levels.flatMap fun level => ((List.range level.anchors).filter fun i =>
    ¬ level.scores.getD i (lit 0) < c.scoreThreshold).map fun i => (level, i)

omit [IsStrictOrderedRing K] in
/-- An entry of finite outputs is a number. -/
theorem fin_number_getD {data : List (Extended K)} (h : ∀ v ∈ data, isFinite v = true) (i : ℕ) :
    fin (data.getD i (lit 0)).number = data.getD i (lit 0) := by
  apply fin_number
  rw [List.getD_eq_getElem?_getD]
  cases hv : data[i]? with
  | none => rfl
  | some v => exact h v (List.mem_of_getElem? hv)

variable {c : ScrfdConfig (Extended K)} {levels : List (LevelBlobs (Extended K))}
  {level : LevelBlobs (Extended K)} {W H : ℕ}

omit [IsStrictOrderedRing K] in
/-- A literal that is a whole number is that number of the field. -/
theorem lit_natCast (n : ℕ) : (lit (n : ℚ) : Extended K) = fin (n : K) := by
  rw [lit_def, Rat.cast_natCast]

omit [IsStrictOrderedRing K] in
/-- The candidate of an anchor is its box. -/
theorem anchorCandidate_exact (hsize : c.inputWidth = 640 ∧ c.inputHeight = 640)
    (hlevel : level.Fits fun v => isFinite v = true) (i : ℕ) :
    anchorCandidate c level i = exact (anchorBox (level, i)) := by
  unfold anchorCandidate exact anchorBox gridX gridY
  simp only [numAnchors, hsize.1, lit_natCast, ← fin_sub, ← fin_add, ← fin_mul,
    fin_number_getD hlevel.scores_mem, fin_number_getD hlevel.bbox_mem,
    fin_number_getD hlevel.kps_mem]

omit [IsStrictOrderedRing K] in
/-- The candidates of a stride are the boxes of its anchors with a sufficient score. -/
theorem levelCandidates_exact (hsize : c.inputWidth = 640 ∧ c.inputHeight = 640)
    (hlevel : level.Fits fun v => isFinite v = true) :
    levelCandidates c level =
      .ok ((scoredAnchors c [level]).map fun a => exact (anchorBox a)) := by
  unfold levelCandidates
  rw [if_neg (by simp [hlevel.scores, hlevel.bbox, hlevel.kps])]
  unfold scoredAnchors
  rw [List.flatMap_singleton, List.map_map]
  refine congrArg Except.ok (List.map_congr_left fun i _ => ?_)
  exact anchorCandidate_exact hsize hlevel i

omit [IsStrictOrderedRing K] in
/-- The candidates of the outputs are the boxes of the anchors with a sufficient score. -/
theorem candidates_exact (hsize : c.inputWidth = 640 ∧ c.inputHeight = 640)
    (hlevels : ∀ level ∈ levels, level.Fits fun v => isFinite v = true) :
    ∃ candidates, levels.mapM (levelCandidates c) = .ok candidates ∧
      candidates.flatten = (scoredAnchors c levels).map fun a => exact (anchorBox a) := by
  refine ⟨levels.map fun level => (scoredAnchors c [level]).map fun a => exact (anchorBox a),
    mapM_eq_ok.mpr ?_, ?_⟩
  · rw [List.forall₂_map_right_iff]
    exact List.forall₂_same.mpr fun level hlevel =>
      levelCandidates_exact hsize (hlevels level hlevel)
  · unfold scoredAnchors
    simp only [List.flatMap_singleton]
    rw [List.map_flatMap, List.flatMap_def]

omit [IsStrictOrderedRing K] in
/-- The anchors that are kept are all those of the levels, except where the score is below the
threshold. -/
theorem mem_scoredAnchors {a : Anchor K} : a ∈ scoredAnchors c levels ↔
    a.1 ∈ levels ∧ a.2 < a.1.anchors ∧ ¬ a.1.scores.getD a.2 (lit 0) < c.scoreThreshold := by
  obtain ⟨level, i⟩ := a
  simp only [scoredAnchors, List.mem_flatMap, List.mem_map, List.mem_filter, List.mem_range,
    decide_eq_true_iff, Prod.mk.injEq]
  constructor
  · rintro ⟨level', hlevel, i', ⟨hi, hscore⟩, rfl, rfl⟩
    exact ⟨hlevel, hi, hscore⟩
  · rintro ⟨hlevel, hi, hscore⟩
    exact ⟨level, hlevel, i, ⟨hi, hscore⟩, rfl, rfl⟩

omit [IsStrictOrderedRing K] in
/-- No anchor is a candidate twice. The strides are different, and the anchors of a stride are
numbered. -/
theorem nodup_scoredAnchors (hstrides : levels.map LevelBlobs.stride = strides) :
    ((scoredAnchors c levels).map fun a => (a.1.stride, a.2)).Nodup := by
  have hdistinct : levels.Pairwise fun l l' => l.stride ≠ l'.stride := by
    rw [← List.pairwise_map (f := LevelBlobs.stride), hstrides]
    decide
  unfold scoredAnchors
  rw [List.map_flatMap, List.nodup_flatMap]
  constructor
  · intro level hlevel
    rw [List.map_map]
    refine List.Nodup.map ?_ (List.nodup_range.filter _)
    intro i j h
    exact congrArg Prod.snd h
  · refine hdistinct.imp fun {l l'} hne => ?_
    intro key hkey hkey'
    obtain ⟨a, ha, rfl⟩ := List.mem_map.mp hkey
    obtain ⟨a', ha', heq⟩ := List.mem_map.mp hkey'
    obtain ⟨i, -, rfl⟩ := List.mem_map.mp ha
    obtain ⟨i', -, rfl⟩ := List.mem_map.mp ha'
    exact hne (congrArg Prod.fst heq).symm

/-! ## The frame -/

/-- Scale of the letterbox. -/
def scaleOf (W H : ℕ) : K := min (640 / W) (640 / H)

/-- Empty pixels of the letterbox in front of an edge of length `n`. -/
def padOf (W H n : ℕ) : K := (640 - n * scaleOf W H) / 2

/-- Where the letterbox puts a coordinate along an edge of length `n`. -/
def place (W H n : ℕ) (x : K) : K := x * scaleOf W H + padOf W H n

/-- The inverse of the letterbox. -/
def unplace (W H n : ℕ) (v : K) : K := (v - padOf W H n) / scaleOf W H

/-- A coordinate mapped into the frame and clamped to it. -/
def frameCoordinate (W H n : ℕ) (v : K) : K := max 0 (min (unplace W H n v) (n - 1))

/-- A detection mapped into the frame. -/
def inFrame (W H : ℕ) (d : FaceDetection K) : FaceDetection K where
  x1 := frameCoordinate W H W d.x1
  y1 := frameCoordinate W H H d.y1
  x2 := frameCoordinate W H W d.x2
  y2 := frameCoordinate W H H d.y2
  score := d.score
  landmarks := fun p =>
    ⟨frameCoordinate W H W (d.landmarks p).x, frameCoordinate W H H (d.landmarks p).y⟩

omit [RootOps K] in
/-- The factor of the letterbox is positive for every frame with pixels. -/
theorem scaleOf_pos (hW : 1 ≤ W) (hH : 1 ≤ H) : (0 : K) < scaleOf W H := by
  have hW' : (0 : K) < W := by exact_mod_cast hW
  have hH' : (0 : K) < H := by exact_mod_cast hH
  exact lt_min (by positivity) (by positivity)

omit [RootOps K] in
/-- The two maps between the frame and the letterbox are inverse to each other. -/
theorem unplace_place (hW : 1 ≤ W) (hH : 1 ≤ H) (n : ℕ) (x : K) :
    unplace W H n (place W H n x) = x ∧ place W H n (unplace W H n x) = x := by
  have hscale : (scaleOf W H : K) ≠ 0 := (scaleOf_pos hW hH).ne'
  unfold unplace place
  rw [add_sub_cancel_right, mul_div_cancel_right₀ _ hscale, div_mul_cancel₀ _ hscale,
    sub_add_cancel]
  exact ⟨rfl, rfl⟩

/-- Whether the box of an anchor has pixels in the frame. -/
def visible (W H : ℕ) (a : Anchor K) : Bool :=
  (inFrame W H (anchorBox a)).x1 < (inFrame W H (anchorBox a)).x2 ∧
    (inFrame W H (anchorBox a)).y1 < (inFrame W H (anchorBox a)).y2

omit [RootOps K] in
/-- A coordinate brought back to the frame is within the frame. -/
theorem frameCoordinate_mem {n : ℕ} (hn : 1 ≤ n) (v : K) :
    0 ≤ frameCoordinate W H n v ∧ frameCoordinate W H n v ≤ n - 1 := by
  have hn' : (1 : K) ≤ n := by exact_mod_cast hn
  exact ⟨le_max_left _ _, max_le (by linarith) (min_le_right _ _)⟩

/-- The transform of the preprocessor is the letterbox. -/
theorem letterbox_exact (hsize : c.inputWidth = 640 ∧ c.inputHeight = 640)
    (hW : 1 ≤ W) (hH : 1 ≤ H) :
    letterbox c W H = ⟨fin (scaleOf W H), fin (padOf W H W), fin (padOf W H H)⟩ := by
  have hW' : (W : K) ≠ 0 := by exact_mod_cast (by omega : W ≠ 0)
  have hH' : (H : K) ≠ 0 := by exact_mod_cast (by omega : H ≠ 0)
  have hhalf : (lit (1 / 2) : Extended K) = fin (1 / 2) := by
    rw [lit_def]
    norm_num
  have hinput : (lit (640 : ℕ) : Extended K) = fin 640 := by
    rw [lit_natCast, Nat.cast_ofNat]
  unfold letterbox padOf scaleOf
  simp only [hsize.1, hsize.2, hinput, hhalf, lit_natCast, fin_div _ hW', fin_div _ hH',
    stdMin_fin, fin_mul, fin_sub, mul_one_div]

/-- `decode` maps a coordinate through the inverse of the letterbox and clamps it. -/
theorem unmap_exact {n : ℕ} (hW : 1 ≤ W) (hH : 1 ≤ H) (hn : 1 ≤ n) (v : K) :
    unmap (fin (padOf W H n)) (lit 1 / fin (scaleOf W H)) (lit (n - 1 : ℕ)) (fin v) =
      fin (frameCoordinate W H n v) := by
  unfold unmap clampf frameCoordinate unplace
  rw [lit_natCast, lit_def, lit_def, fin_div _ (scaleOf_pos hW hH).ne', fin_sub, fin_mul,
    stdMin_fin, stdMax_fin, Nat.cast_sub hn, Rat.cast_one, Rat.cast_zero, Nat.cast_one,
    mul_one_div]

/-- The inverse letterbox of the code is the exact one on every detection. Its factor is the
smaller of the two ratios, computed once for the frame. -/
theorem toFrame_exact (hsize : c.inputWidth = 640 ∧ c.inputHeight = 640)
    (hW : 1 ≤ W) (hH : 1 ≤ H) (d : FaceDetection K) :
    toFrame (letterbox c W H) W H (exact d) = exact (inFrame W H d) := by
  rw [letterbox_exact hsize hW hH]
  unfold toFrame exact inFrame
  simp only [unmap_exact hW hH hW, unmap_exact hW hH hH]

/-- `decode` returns the boxes of the kept anchors that do not collapse in the frame. The order of
the boxes is that of the kept anchors. -/
theorem decode_exact (hsize : c.inputWidth = 640 ∧ c.inputHeight = 640)
    {sort : List (FaceDetection (Extended K)) → List (FaceDetection (Extended K))}
    (hlevels : ∀ level ∈ levels, level.Fits fun v => isFinite v = true)
    (hW : 1 ≤ W) (hH : 1 ≤ H) {kept : List (Anchor K)}
    (hkept : nms sort c.nmsThreshold ((scoredAnchors c levels).map fun a => exact (anchorBox a)) =
      kept.map fun a => exact (anchorBox a)) :
    decode c sort levels W H =
      .ok ((kept.filter (visible W H)).map fun a => exact (inFrame W H (anchorBox a))) := by
  obtain ⟨candidates, hcandidates, hflat⟩ := candidates_exact hsize hlevels
  refine bind_eq_ok.mpr ⟨candidates, hcandidates, ?_⟩
  dsimp only
  rw [hflat, hkept, List.map_map]
  have hmap : (toFrame (letterbox c W H) W H ∘ fun a : Anchor K => exact (anchorBox a)) =
      fun a => exact (inFrame W H (anchorBox a)) :=
    funext fun a => toFrame_exact hsize hW hH (anchorBox a)
  rw [hmap, List.filter_map]
  refine congrArg (fun l => Except.ok (List.map _ l)) (List.filter_congr fun a _ => ?_)
  exact decide_eq_decide.mpr (and_congr fin_lt fin_lt)

/-- A detection with pixels whose box and landmarks are inside the frame. The box has an extent,
and everything is between the first and the last pixel. -/
structure InFrame (W H : ℕ) (d : FaceDetection K) : Prop where
  /-- The left edge is inside. -/
  left : 0 ≤ d.x1
  /-- The box has a width. -/
  width : d.x1 < d.x2
  /-- The right edge is inside. -/
  right : d.x2 ≤ W - 1
  /-- The upper edge is inside. -/
  top : 0 ≤ d.y1
  /-- The box has a height. -/
  height : d.y1 < d.y2
  /-- The lower edge is inside. -/
  bottom : d.y2 ≤ H - 1
  /-- The landmarks are inside. -/
  landmarks : ∀ p, (0 ≤ (d.landmarks p).x ∧ (d.landmarks p).x ≤ W - 1) ∧
    0 ≤ (d.landmarks p).y ∧ (d.landmarks p).y ≤ H - 1

omit [RootOps K] in
/-- A box that does not collapse in the frame is inside it. -/
theorem inFrame_of_lt (hW : 1 ≤ W) (hH : 1 ≤ H) {d : FaceDetection K}
    (hx : (inFrame W H d).x1 < (inFrame W H d).x2) (hy : (inFrame W H d).y1 < (inFrame W H d).y2) :
    InFrame W H (inFrame W H d) where
  left := (frameCoordinate_mem hW _).1
  width := hx
  right := (frameCoordinate_mem hW _).2
  top := (frameCoordinate_mem hH _).1
  height := hy
  bottom := (frameCoordinate_mem hH _).2
  landmarks _ := ⟨frameCoordinate_mem hW _, frameCoordinate_mem hH _⟩

omit [IsStrictOrderedRing K] in
/-- An accepted configuration has the one supported input size, by which the strides are told
apart. -/
theorem size_of_validateConfig (h : validateConfig c = .ok ()) :
    c.inputWidth = 640 ∧ c.inputHeight = 640 := by
  unfold validateConfig at h
  split at h
  · cases h
  · rename_i hsize
    exact ⟨not_not.mp (not_or.mp hsize).1, not_not.mp (not_or.mp hsize).2⟩

/-- Suppression keeps candidates by non-increasing score that do not overlap above the
threshold, and what it drops overlaps a kept candidate of at least its score. What `decode`
returns are the boxes of the distinct kept anchors, with a sufficient score, that have pixels in
the frame, mapped through the inverse of the letterbox and clamped, and all of it is inside the
frame. -/
theorem detections_from_kept_anchors
    {sort : List (FaceDetection (Extended K)) → List (FaceDetection (Extended K))}
    {blobs : List (TensorBlob (Extended K))} (hsort : SortsByScore sort)
    (hconfig : validateConfig c = .ok ()) (hthreshold : isFinite c.scoreThreshold = true)
    (hblobs : organizeOutputs c blobs = .ok levels)
    (hfinite : ∀ blob ∈ blobs, ∀ v ∈ blob.data, isFinite v = true) (hW : 1 ≤ W) (hH : 1 ≤ H) :
    (∀ candidates : List (FaceDetection K), ∃ kept dropped,
      nms sort c.nmsThreshold (candidates.map exact) = kept.map exact ∧
        Selection c.nmsThreshold id candidates kept dropped) ∧
    ∃ candidates, ∃ kept dropped : List (Anchor K),
      levels.mapM (levelCandidates c) = .ok candidates ∧
      nms sort c.nmsThreshold candidates.flatten = kept.map (fun a => exact (anchorBox a)) ∧
      Selection c.nmsThreshold anchorBox (scoredAnchors c levels) kept dropped ∧
      (kept.map fun a => (a.1.stride, a.2)).Nodup ∧
      (∀ a ∈ kept, a.1 ∈ levels ∧ a.2 < anchorCount a.1.stride ∧
        c.scoreThreshold ≤ fin (anchorBox a).score) ∧
      decode c sort levels W H =
        .ok ((kept.filter (visible W H)).map fun a => exact (inFrame W H (anchorBox a))) ∧
      (∀ a ∈ kept.filter (visible W H), InFrame W H (inFrame W H (anchorBox a))) ∧
      ∀ n (x : K), unplace W H n (place W H n x) = x ∧ place W H n (unplace W H n x) = x := by
  have hsize := size_of_validateConfig hconfig
  obtain ⟨hstrides, hlevels⟩ := organizeOutputs_fits hsize hfinite hblobs
  refine ⟨fun candidates => nms_selects hsort c.nmsThreshold id candidates, ?_⟩
  obtain ⟨candidates, hcandidates, hflat⟩ := candidates_exact hsize hlevels
  obtain ⟨kept, dropped, hnms, hselection⟩ :=
    nms_selects hsort c.nmsThreshold anchorBox (scoredAnchors c levels)
  refine ⟨candidates, kept, dropped, hcandidates, hflat ▸ hnms, hselection, ?_, ?_,
    decode_exact hsize hlevels hW hH hnms, ?_, unplace_place hW hH⟩
  · have hall := (hselection.perm.map _).nodup_iff.mp (nodup_scoredAnchors hstrides)
    rw [List.map_append] at hall
    exact hall.sublist (List.sublist_append_left _ _)
  · intro a ha
    obtain ⟨hlevel, hi, hscore⟩ :=
      mem_scoredAnchors.mp (hselection.perm.mem_iff.mpr (List.mem_append_left _ ha))
    refine ⟨hlevel, (hlevels _ hlevel).anchors ▸ hi, ?_⟩
    obtain ⟨t, ht⟩ := exists_fin_of_isFinite hthreshold
    have hfin : fin (anchorBox a).score = a.1.scores.getD a.2 (lit 0) :=
      fin_number_getD (hlevels _ hlevel).scores_mem a.2
    rw [ht, fin_le]
    rw [← hfin, ht, fin_lt] at hscore
    exact not_lt.mp hscore
  · intro a ha
    obtain ⟨hx, hy⟩ := of_decide_eq_true (List.mem_filter.mp ha).2
    exact inFrame_of_lt hW hH hx hy

/-! ## A sample -/

/-- An output with the same number everywhere. -/
def constantOutput (stride columns : ℕ) (value : Extended ℚ) : TensorBlob (Extended ℚ) :=
  ⟨[1, columns], List.replicate (anchorCount stride * columns) value⟩

/-- Scores of a stride: the network sees one face, at an anchor in the middle of the largest
stride. -/
def sampleScores (stride : ℕ) : TensorBlob (Extended ℚ) :=
  ⟨[1, 1], (List.range (anchorCount stride)).map fun i =>
    if stride = 32 ∧ i = 420 then fin (3 / 4) else fin 0⟩

/-- Outputs with these scores, and the same box around the cell at every anchor. -/
def sampleOutputs : List (TensorBlob (Extended ℚ)) :=
  strides.flatMap fun stride => [sampleScores stride, constantOutput stride 4 (fin 1),
    constantOutput stride 10 (fin 0)]

/-- The outputs of a stride, put together. -/
def sampleLevel (stride : ℕ) : LevelBlobs (Extended ℚ) where
  stride := stride
  anchors := anchorCount stride
  scores := (sampleScores stride).data
  bbox := (constantOutput stride 4 (fin 1)).data
  kps := (constantOutput stride 10 (fin 0)).data

/-- The sample outputs are accepted. -/
theorem sampleOutputs_organized :
    organizeOutputs {} sampleOutputs = .ok (strides.map sampleLevel) := by
  simp [organizeOutputs, sampleOutputs, sampleLevel, sampleScores, strides, constantOutput,
    placeBlob, rowCount, lastDimension, anchorCount, numAnchors, strideForAnchorCount,
    orderedLevel, -List.reduceReplicate]
  rfl

/-- The sample outputs are finite. -/
theorem sampleOutputs_finite : ∀ blob ∈ sampleOutputs, ∀ v ∈ blob.data, isFinite v = true := by
  intro blob hblob v hv
  obtain ⟨stride, -, hblob⟩ := List.mem_flatMap.mp hblob
  simp only [List.mem_cons, List.not_mem_nil, or_false] at hblob
  rcases hblob with rfl | rfl | rfl
  · obtain ⟨i, -, rfl⟩ := List.mem_map.mp hv
    split <;> rfl
  · rw [List.eq_of_mem_replicate hv]
    rfl
  · rw [List.eq_of_mem_replicate hv]
    rfl

/-- Only one anchor of the sample has a sufficient score. All other scores are zero. -/
theorem mem_sampleAnchors {a : Anchor ℚ} :
    a ∈ scoredAnchors {} (strides.map sampleLevel) ↔ a = (sampleLevel 32, 420) := by
  obtain ⟨level, i⟩ := a
  rw [mem_scoredAnchors]
  constructor
  · rintro ⟨hlevel, hi, hscore⟩
    obtain ⟨stride, hstride, rfl⟩ := List.mem_map.mp hlevel
    have hi : i < anchorCount stride := hi
    have hvalue : (sampleLevel stride).scores.getD i (lit 0) =
        if stride = 32 ∧ i = 420 then fin (3 / 4) else fin 0 := by
      simp [sampleLevel, sampleScores, hi]
    rw [hvalue] at hscore
    split at hscore
    · rename_i hplace
      rw [hplace.1, hplace.2]
    · exact absurd (by decide +kernel) hscore
  · intro heq
    cases heq
    refine ⟨by simp [strides], by decide, ?_⟩
    have hvalue : (sampleLevel 32).scores.getD 420 (lit 0) = fin (3 / 4) := by
      simp [sampleLevel, sampleScores, anchorCount, numAnchors]
    rw [hvalue]
    decide +kernel

/-- The face of the sample outputs in a frame of 1920 by 1080 pixels: its box is three times as
large as in the letterbox. -/
def sampleDetection : FaceDetection ℚ := ⟨864, 444, 1056, 636, 3 / 4, fun _ => ⟨960, 540⟩⟩

/-- The box of the anchor, mapped into the frame. The factor of the letterbox is a third. -/
theorem inFrame_sample : inFrame 1920 1080 (anchorBox (sampleLevel 32, 420)) = sampleDetection := by
  have hcoordinates : ∀ d, d = inFrame 1920 1080 (anchorBox (sampleLevel 32, 420)) →
      (d.x1, d.y1, d.x2, d.y2, d.score) = (864, 444, 1056, 636, 3 / 4) ∧
        ∀ p, ((d.landmarks p).x, (d.landmarks p).y) = (960, 540) := by
    rintro d rfl
    decide +kernel
  obtain ⟨hbox, hlandmarks⟩ := hcoordinates _ rfl
  generalize inFrame 1920 1080 (anchorBox (sampleLevel 32, 420)) = d at hbox hlandmarks ⊢
  obtain ⟨x1, y1, x2, y2, score, landmarks⟩ := d
  cases hbox
  have hpoints : landmarks = fun _ => ⟨960, 540⟩ := by
    funext p
    obtain ⟨hx, hy⟩ := Prod.ext_iff.mp (hlandmarks p)
    exact congrArg₂ Point2f.mk hx hy
  rw [hpoints]
  rfl

/-- The sample outputs, for a frame of 1920 by 1080 pixels. The one detection is given with its
box and its landmarks. -/
theorem detections_from_kept_anchors_sample :
    decode {} sortByScore (strides.map sampleLevel) 1920 1080 = .ok [exact sampleDetection] ∧
      InFrame 1920 1080 sampleDetection := by
  obtain ⟨-, candidates, kept, dropped, -, -, hselection, hnodup, -, hdecode, hinside, -⟩ :=
    detections_from_kept_anchors sortByScore_sorts (by decide +kernel) rfl sampleOutputs_organized
      sampleOutputs_finite (by decide : 1 ≤ 1920) (by decide : 1 ≤ 1080)
  have hsame : ∀ a ∈ kept, a = (sampleLevel 32, 420) := fun a ha =>
    mem_sampleAnchors.mp (hselection.perm.mem_iff.mpr (List.mem_append_left _ ha))
  have hmem : (sampleLevel 32, 420) ∈ kept := by
    have hcandidate := hselection.perm.mem_iff.mp (mem_sampleAnchors.mpr rfl)
    rcases List.mem_append.mp hcandidate with hkept | hdropped
    · exact hkept
    · obtain ⟨k, hk, -⟩ := hselection.covered _ hdropped
      exact hsame k hk ▸ hk
  have hkept : kept = [(sampleLevel 32, 420)] := by
    cases kept with
    | nil => cases hmem
    | cons a rest =>
      cases rest with
      | nil => rw [hsame a List.mem_cons_self]
      | cons b rest =>
        have hboth := (hsame a List.mem_cons_self).trans (hsame b (by simp)).symm
        simp [hboth] at hnodup
  have hvisible : visible 1920 1080 (sampleLevel 32, 420) = true := by
    rw [visible, inFrame_sample]
    decide +kernel
  have hfilter : kept.filter (visible 1920 1080) = [(sampleLevel 32, 420)] := by
    rw [hkept, List.filter_cons_of_pos hvisible, List.filter_nil]
  rw [hfilter] at hdecode hinside
  rw [List.map_singleton, inFrame_sample] at hdecode
  refine ⟨hdecode, ?_⟩
  rw [← inFrame_sample]
  exact hinside _ (List.mem_singleton_self _)

end EdgeClient.Vision.Scrfd
