import EdgeClient.Basis.StatefulPrograms
import EdgeClient.Storage.GalleryRepository
import EdgeClient.Storage.Statements
import EdgeClient.Vision.ExactEmbeddings

/-!
# The stored gallery is replaced as a whole

The new templates are checked before the transaction is opened. Its statements delete the old
gallery and insert the new one row by row. Whichever call fails, the old gallery remains; and
what is loaded after a success are the entries of the new gallery, ordered by their identifiers.
-/

namespace EdgeClient.Storage

open Basis Vision

/-- The revision of a gallery. -/
def GallerySnapshot.metadata {F : Type} (g : GallerySnapshot F) : GalleryMetadata :=
  ⟨g.version, g.etag, g.modelId, g.modelSha256⟩

/-- The templates of a gallery with their identifiers. -/
def GallerySnapshot.entries {F : Type} (g : GallerySnapshot F) :
    List (String × GalleryTemplate F) :=
  g.templateIds.zip g.templates

namespace GalleryRepository

section AnyFormat

variable {F D : Type} [FloatOps F] [FloatOps D] [FloatPair F D]

omit [FloatOps F] in
/-- The revision that is loaded alone is the one that is loaded with the templates. -/
theorem loadMetadata_eq (t : GalleryTables F) : loadMetadata t = (load t).metadata := by
  unfold loadMetadata load
  cases t.state <;> rfl

/-! ## The statements of `replace` -/

/-- `DELETE FROM gallery_template`. -/
def deleteTemplates (t : GalleryTables F) : Except Thrown (GalleryTables F) :=
  return { t with templates := .empty }

/-- `DELETE FROM gallery_state`. -/
def deleteState (t : GalleryTables F) : Except Thrown (GalleryTables F) :=
  return { t with state := none }

/-- `INSERT INTO gallery_state`. -/
def insertState (g : GallerySnapshot F) (t : GalleryTables F) : Except Thrown (GalleryTables F) :=
  match t.state with
  | some _ => throw .storageError
  | none => return { t with state := some g.metadata }

/-- `INSERT INTO gallery_template`. -/
def insertEntry (entry : String × GalleryTemplate F) (t : GalleryTables F) :
    Except Thrown (GalleryTables F) := do
  let templates ← insertTemplate t.templates entry
  return { t with templates }

/-- The statements of the transaction. -/
def replaceStatements (g : GallerySnapshot F) (values : List (GalleryTemplate F)) :
    List (GalleryTables F → Except Thrown (GalleryTables F)) :=
  [deleteTemplates, deleteState, insertState g] ++ (g.templateIds.zip values).map insertEntry

/-- `replace`, call by call. -/
def replaceOn (D : Type) [FloatOps D] [FloatPair F D] (faults : ℕ → Bool) (g : GallerySnapshot F)
    (c : Connection (GalleryTables F)) : Except Thrown Unit × Connection (GalleryTables F) :=
  match checked D g with
  | .error e => (.error e, c)
  | .ok values => c.run faults (Connection.transaction (replaceStatements g values))

omit [FloatOps F] in
/-- The statements of the insertions fill the table of the templates and touch nothing else. The
loop over the statements is the loop over the entries, lifted to the tables. -/
theorem runAll_insertEntry (entries : List (String × GalleryTemplate F)) (t : GalleryTables F) :
    Connection.runAll (entries.map insertEntry) t = (do
      let templates ← entries.foldlM insertTemplate t.templates
      return { t with templates }) := by
  induction entries generalizing t with
  | nil => rfl
  | cons entry entries ih =>
    have hfirst : Connection.runAll ((entry :: entries).map insertEntry) t =
        insertEntry entry t >>= Connection.runAll (entries.map insertEntry) := List.foldlM_cons
    rw [hfirst, List.foldlM_cons]
    cases hinsert : insertTemplate t.templates entry with
    | error e => simp [insertEntry, hinsert, bind, Except.bind]
    | ok templates =>
      have hentry : insertEntry entry t = .ok { t with templates } := by
        simp [insertEntry, hinsert, bind, Except.bind, pure, Except.pure]
      rw [hentry]
      exact ih { t with templates }

/-- The statements do what `replace` does to the tables. The statements are listed in the order in
which the source runs them. -/
theorem replace_eq (g : GallerySnapshot F) (t : GalleryTables F) :
    replace D g t = (do
      let values ← checked D g
      return ((), ← Connection.runAll (replaceStatements g values) t)) := by
  unfold replace
  congr 1
  funext values
  have hstatements : Connection.runAll (replaceStatements g values) t =
      Connection.runAll ((g.templateIds.zip values).map insertEntry)
        { state := some g.metadata, templates := .empty } := rfl
  rw [hstatements, runAll_insertEntry, bind_assoc]
  rfl

/-! ## The rows of a gallery -/

/-- The row of an entry. -/
def row (entry : String × GalleryTemplate F) : TemplateRow F :=
  ⟨entry.1, entry.2.identityId, entry.2.embedding⟩

omit [FloatOps F] in
/-- The templates are inserted behind the rows that are there, in their order. The table orders
its rows only when they are loaded. -/
theorem insertTemplates_rows {rows rows' : Table String (TemplateRow F) TemplateRow.templateId}
    {entries : List (String × GalleryTemplate F)}
    (h : entries.foldlM insertTemplate rows = .ok rows') :
    rows'.rows = rows.rows ++ entries.map row := by
  induction entries generalizing rows with
  | nil =>
    cases h
    simp
  | cons entry entries ih =>
    rw [List.foldlM_cons] at h
    obtain ⟨next, hfirst, hrest⟩ := bind_eq_ok.mp h
    have hnext : next.rows = rows.rows ++ [row entry] := by
      unfold insertTemplate at hfirst
      cases hinsert : rows.insert ⟨entry.1, entry.2.identityId, entry.2.embedding⟩ with
      | none =>
        rw [hinsert] at hfirst
        cases hfirst
      | some inserted =>
        rw [hinsert] at hfirst
        cases hfirst
        exact (Table.insert_eq_some hinsert).2
    rw [ih hrest, hnext, List.append_assoc, List.map_cons, List.singleton_append]

omit [FloatOps F] in
/-- Entries with new and distinct identifiers can be inserted. Each insertion finds its identifier
free: it is not among the old rows, and the entries in front have other ones. -/
theorem insertTemplates_ok {rows : Table String (TemplateRow F) TemplateRow.templateId}
    {entries : List (String × GalleryTemplate F)}
    (hfresh : ∀ r ∈ rows, r.templateId ∉ entries.map Prod.fst)
    (hdistinct : (entries.map Prod.fst).Nodup) :
    ∃ rows', entries.foldlM insertTemplate rows = .ok rows' := by
  induction entries generalizing rows with
  | nil => exact ⟨rows, rfl⟩
  | cons entry entries ih =>
    rw [List.map_cons, List.nodup_cons] at hdistinct
    obtain ⟨next, hnext⟩ := Table.insert_of_free (t := rows) (r := row entry)
      fun r hr heq => hfresh r hr (heq ▸ List.mem_cons_self)
    have hfirst : insertTemplate rows entry = .ok next := by
      unfold insertTemplate
      rw [show rows.insert ⟨entry.1, entry.2.identityId, entry.2.embedding⟩ = some next from hnext]
      rfl
    rw [List.foldlM_cons]
    refine exists_ok_bind hfirst (ih (fun r hr => ?_) hdistinct.2)
    rcases (Table.mem_of_insert hnext).mp hr with hold | rfl
    · exact fun hmem => hfresh r hold (List.mem_cons_of_mem _ hmem)
    · exact hdistinct.1

omit [FloatOps F] in
/-- What is loaded when the rows are those of the entries. Loading sorts the rows by their
identifiers, so that it gives a permutation of the entries. -/
theorem load_entries {t : GalleryTables F} {m : GalleryMetadata}
    {entries : List (String × GalleryTemplate F)} (hstate : t.state = some m)
    (hrows : t.templates.rows = entries.map row) :
    (load t).metadata = m ∧ (load t).templateIds.length = (load t).templates.length ∧
      (load t).entries.Perm entries ∧ (load t).templateIds.Pairwise (· < ·) := by
  unfold load
  rw [hstate]
  dsimp only
  generalize hsorted :
    t.templates.rows.insertionSort (fun a b => a.templateId ≤ b.templateId) = sorted
  have hperm : sorted.Perm (entries.map row) := by
    rw [← hsorted, ← hrows]
    exact List.perm_insertionSort _ _
  refine ⟨rfl, by simp, ?_, ?_⟩
  · have hentries : sorted.map (fun r => (r.templateId,
        (⟨r.identityId, r.embedding⟩ : GalleryTemplate F))) =
        (sorted.map (·.templateId)).zip (sorted.map fun r => ⟨r.identityId, r.embedding⟩) := by
      rw [List.zip_map']
    rw [GallerySnapshot.entries, ← hentries]
    have hback : (entries.map row).map (fun r => (r.templateId,
        (⟨r.identityId, r.embedding⟩ : GalleryTemplate F))) = entries := by
      rw [List.map_map]
      exact List.map_id entries
    exact hback ▸ hperm.map _
  · have hnodup : (sorted.map (·.templateId)).Nodup := by
      rw [(hperm.map _).nodup_iff, ← hrows]
      exact t.templates.nodup
    have hle : (sorted.map (·.templateId)).Pairwise (· ≤ ·) := by
      rw [← hsorted, List.pairwise_map]
      exact List.pairwise_insertionSort (fun a b : TemplateRow F => a.templateId ≤ b.templateId) _
    exact (hle.and hnodup).imp fun hboth => lt_of_le_of_ne hboth.1 hboth.2

/-- What `replace` checks. Each template has been checked and replaced by its normalized form. -/
theorem checked_ok {g : GallerySnapshot F} {values : List (GalleryTemplate F)}
    (h : checked D g = .ok values) : g.templateIds.length = g.templates.length ∧ g.version ≠ "" ∧
      List.Forall₂ (fun t v => checkTemplate D t = .ok v) g.templates values := by
  unfold checked at h
  split at h
  · cases h
  · rename_i hgood
    simp only [not_or, ne_eq, not_not] at hgood
    exact ⟨hgood.1, hgood.2, mapM_eq_ok.mp h⟩

/-- What is loaded after a replacement. The old rows are deleted first, so that the loaded gallery
has the new entries and no others. -/
theorem load_replace {g : GallerySnapshot F} {t t' : GalleryTables F}
    (h : replace D g t = .ok ((), t')) :
    (load t').metadata = g.metadata ∧ (load t').templateIds.length = (load t').templates.length ∧
      (load t').templateIds.Pairwise (· < ·) ∧ g.templateIds.length = g.templates.length ∧
      ∃ values, List.Forall₂ (fun t v => checkTemplate D t = .ok v) g.templates values ∧
        (load t').entries.Perm (g.templateIds.zip values) := by
  unfold replace at h
  obtain ⟨values, hvalues, h⟩ := bind_eq_ok.mp h
  obtain ⟨rows, hrows, h⟩ := bind_eq_ok.mp h
  cases h
  obtain ⟨hlength, -, hchecked⟩ := checked_ok hvalues
  have hinserted := insertTemplates_rows hrows
  obtain ⟨hmetadata, hsame, hperm, hsorted⟩ := load_entries (t := ⟨some g.metadata, rows⟩) rfl
    (hinserted.trans (List.nil_append _))
  exact ⟨hmetadata, hsame, hsorted, hlength, values, hchecked, hperm⟩

end AnyFormat

/-! ## The round trip -/

/-- A template and its normalized form. -/
def Normalized (t v : GalleryTemplate (Extended ℝ)) : Prop :=
  v.identityId = t.identityId ∧ ∃ x, t.embedding = exactEmbedding x ∧
    v.embedding = exactEmbedding (unitEmbedding x)

/-- A loaded gallery is this one, with normalized templates in the order of their
identifiers. -/
structure Restores (g loaded : GallerySnapshot (Extended ℝ)) : Prop where
  /-- The revision is the same. -/
  metadata : loaded.metadata = g.metadata
  /-- Every template has an identifier, before and after. -/
  paired : g.templateIds.length = g.templates.length ∧
    loaded.templateIds.length = loaded.templates.length
  /-- The entries are the same. -/
  entries : ∃ values, List.Forall₂ Normalized g.templates values ∧
    loaded.entries.Perm (g.templateIds.zip values)
  /-- The identifiers are distinct and in order. -/
  sorted : loaded.templateIds.Pairwise (· < ·)

/-- An accepted template is stored as the unit embedding of the one given, under the same
identity. -/
theorem normalized_of_checked {t v : GalleryTemplate (Extended ℝ)}
    (h : checkTemplate (Extended ℝ) t = .ok v) : Normalized t v := by
  unfold checkTemplate at h
  split at h
  · cases h
  obtain ⟨u, hu, h⟩ := bind_eq_ok.mp h
  cases h
  refine ⟨rfl, ?_⟩
  unfold normalizeGalleryEmbedding at hu
  cases hnormal : normalizeEmbedding (Extended ℝ) t.embedding with
  | error e =>
    rw [hnormal] at hu
    cases hu
  | ok u' =>
    rw [hnormal] at hu
    cases hu
    obtain ⟨x, hx, -, hunit⟩ := normalizeEmbedding_exact.mp hnormal
    exact ⟨x, hx, hunit⟩

/-- A replacement either throws, and then the same gallery is loaded as before, or it
succeeds, and then the new gallery is loaded. -/
theorem replace_restores_or_keeps (faults : ℕ → Bool) (g : GallerySnapshot (Extended ℝ))
    (t : GalleryTables (Extended ℝ)) :
    let (result, after) := replaceOn (Extended ℝ) faults g ⟨t, none⟩
    after.pending = none ∧ loadMetadata after.stored = (load after.stored).metadata ∧
      (((∃ e, result = .error e) ∧ load after.stored = load t) ∨
        (result = .ok () ∧ Restores g (load after.stored))) := by
  unfold replaceOn
  cases hchecked : checked (Extended ℝ) g with
  | error e => exact ⟨rfl, loadMetadata_eq t, Or.inl ⟨⟨e, rfl⟩, rfl⟩⟩
  | ok values =>
    obtain ⟨e, hrun⟩ | ⟨t', hall, hrun⟩ :=
      Connection.run_transaction faults (replaceStatements g values) t
    · dsimp only
      rw [hrun]
      exact ⟨rfl, loadMetadata_eq t, Or.inl ⟨⟨e, rfl⟩, rfl⟩⟩
    · have hreplace : replace (Extended ℝ) g t = .ok ((), t') := by
        rw [replace_eq, hchecked]
        change (do return ((), ← Connection.runAll (replaceStatements g values) t)) = _
        rw [hall]
        rfl
      obtain ⟨hmetadata, hsame, hsorted, hlength, values, hnormal, hperm⟩ := load_replace hreplace
      dsimp only
      rw [hrun]
      refine ⟨rfl, loadMetadata_eq t', Or.inr ⟨rfl, hmetadata, ⟨hlength, hsame⟩, ?_, hsorted⟩⟩
      exact ⟨values, hnormal.imp fun _ _ => normalized_of_checked, hperm⟩

/-! ## A gallery that can be stored -/

/-- A gallery that `replace` accepts: it has a version, distinct identifiers, and named
templates that can be normalized. -/
structure Storable (g : GallerySnapshot (Extended ℝ)) : Prop where
  /-- Every template has an identifier. -/
  paired : g.templateIds.length = g.templates.length
  /-- It has a version. -/
  version : g.version ≠ ""
  /-- The identifiers are distinct. -/
  distinct : g.templateIds.Nodup
  /-- The templates have names and are not too short. -/
  templates : ∀ t ∈ g.templates, t.identityId ≠ "" ∧
    ∃ x, t.embedding = exactEmbedding x ∧ 1e-12 ≤ embeddingNorm x

variable {g : GallerySnapshot (Extended ℝ)}

/-- The checks in front of the transaction let the gallery through. Each template passes by
itself, so the pass over all of them does. -/
theorem checked_storable (h : Storable g) : ∃ values, checked (Extended ℝ) g = .ok values := by
  have htemplate : ∀ t ∈ g.templates, ∃ v, checkTemplate (Extended ℝ) t = .ok v := by
    intro t ht
    obtain ⟨hname, x, hx, hlong⟩ := h.templates t ht
    unfold checkTemplate normalizeGalleryEmbedding
    rw [if_neg hname, normalizeEmbedding_exact.mpr ⟨x, hx, hlong, rfl⟩]
    exact ⟨_, rfl⟩
  unfold checked
  rw [if_neg (by simp [h.paired, h.version])]
  exact mapM_ok.mpr htemplate

/-- The repository stores the gallery, whatever gallery it had before. The tables are emptied
first, so the insertions only need distinct names among themselves. -/
theorem replace_storable (h : Storable g) (t : GalleryTables (Extended ℝ)) :
    ∃ t', replace (Extended ℝ) g t = .ok ((), t') := by
  obtain ⟨values, hchecked⟩ := checked_storable h
  have hlength := (checked_ok hchecked).2.2.length_eq
  have hnames : (g.templateIds.zip values).map Prod.fst = g.templateIds :=
    List.map_fst_zip (h.paired.trans hlength).le
  have hinserted : ∃ rows, (g.templateIds.zip values).foldlM insertTemplate .empty = .ok rows :=
    insertTemplates_ok (fun r hr => absurd hr Table.not_mem_empty) (hnames.symm ▸ h.distinct)
  obtain ⟨rows, hrows⟩ := hinserted
  exact ⟨_, bind_eq_ok.mpr ⟨values, hchecked, bind_eq_ok.mpr ⟨rows, hrows, rfl⟩⟩⟩

/-- When no call of SQLite fails, the replacement succeeds and the new gallery is loaded. Together
with the general case this says that a gallery is kept only when something really failed. -/
theorem replaceOn_succeeds (h : Storable g) (t : GalleryTables (Extended ℝ)) :
    ∃ t', replaceOn (Extended ℝ) (fun _ => false) g ⟨t, none⟩ = (.ok (), ⟨t', none⟩) ∧
      Restores g (load t') := by
  obtain ⟨t', hreplace⟩ := replace_storable h t
  obtain ⟨hmetadata, hsame, hsorted, hlength, values, hnormal, hperm⟩ := load_replace hreplace
  refine ⟨t', ?_, hmetadata, ⟨hlength, hsame⟩,
    ⟨values, hnormal.imp fun _ _ => normalized_of_checked, hperm⟩, hsorted⟩
  rw [replace_eq] at hreplace
  obtain ⟨values, hchecked, hreplace⟩ := bind_eq_ok.mp hreplace
  obtain ⟨rest, hall, hreplace⟩ := bind_eq_ok.mp hreplace
  cases hreplace
  unfold replaceOn
  rw [hchecked]
  exact Connection.run_transaction_ok hall

end GalleryRepository

end EdgeClient.Storage
