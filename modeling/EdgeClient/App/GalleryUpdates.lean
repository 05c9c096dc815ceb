import EdgeClient.App.GalleryConsistency

/-!
# No update of the gallery is lost

The worker commits a gallery first and sets the flag afterwards; the owner takes the flag first
and loads the gallery afterwards. As long as neither the flag nor the reload of the owner is
set, and neither thread is about to set it, the installed gallery is the stored one. There is
one way around the flag: a `COMMIT` that takes effect although an error is reported leaves the
step of the worker by an exception, in front of the assignment to the flag.
-/

namespace EdgeClient.App.EdgeApplication

open Basis Vision Storage Sync

variable {F D : Type} [FloatOps F] [FloatOps D] [FloatPair F D]
variable {E : Type} [FloatOps E] [FloatPair F E]
variable {w : Wire E} {device modelHash : String} {cfg : BiometricAttendanceConfig F} {clock : ℤ}
  {tables : Tables} {gallery : GalleryTables F} {s₀ : EdgeApplication F D}

/-- The snapshot is the stored one, unless the flag says otherwise, the worker is about to set
it, or a transaction of the worker was applied but reported as failed. -/
def UpToDate (s : EdgeApplication F D) (snapshot : GallerySnapshot F) : Prop :=
  s.dirty = false → s.replaced = false → s.unreported = false →
    snapshot = GalleryRepository.load s.gallery

/-- What the place of the owner says about an update. -/
def Notified (s : EdgeApplication F D) : Place F → Prop
  | .setReload => True
  | .load => s.galleryReload = true
  | .install snapshot => s.galleryReload = true ∧ s.UpToDate snapshot
  | .publish _ => s.galleryReload = true ∧ s.UpToDate s.installed
  | .clearReload => s.galleryReload = true ∧ s.UpToDate s.installed
  | .installFailed _ => s.galleryReload = true
  | _ => s.galleryReload = false → s.UpToDate s.installed

omit [FloatPair F D] in
/-- Committing records has nothing to do with the gallery. The flag may be set meanwhile, but it
is not read here. -/
theorem notified_commitNext {s : EdgeApplication F D} (o : Outcome) (hplace : s.place = .commit)
    (h : s.galleryReload = false → s.UpToDate s.installed) :
    (s.commitNext o).Notified (s.commitNext o).place := by
  rcases s.commitNext_cases o with ⟨record, rest, tables, -, -, heq⟩ | ⟨-, heq⟩ |
    ⟨record, rest, e, tables, -, -, ⟨-, heq⟩ | ⟨-, heq⟩⟩
  · rw [heq]
    dsimp only
    rw [hplace]
    exact h
  · rw [heq]
    exact h
  · rw [heq]
    exact h
  · rw [heq]
    exact h

/-- Every step of the owner keeps an update in mind. Between the exchange of the flag and the
assignment of the owner, its place remembers the update. -/
theorem notified_step {s : EdgeApplication F D} (hsound : Sound w device s)
    (h : s.Notified s.place) (c : Circumstances F) : (s.step w c).Notified (s.step w c).place := by
  have hidle := hsound.idle
  unfold step
  cases hplace : s.place with
  | loopTest =>
    rw [hplace] at h
    dsimp only
    split
    · exact h
    · exact h
  | pendingTest =>
    rw [hplace] at h
    dsimp only
    rcases s.testPending_cases with ⟨-, heq⟩ | ⟨-, ⟨-, heq⟩ | ⟨-, heq⟩⟩ <;>
    · rw [heq]
      exact h
  | commit =>
    rw [hplace] at h
    exact notified_commitNext c.outcome hplace h
  | takeDirty =>
    rw [hplace] at h
    dsimp only
    cases hdirty : s.dirty with
    | true => exact trivial
    | false => exact fun hreload _ => h hreload hdirty
  | setReload => exact nofun
  | reloadTest =>
    rw [hplace] at h
    dsimp only
    split
    · rename_i hreload
      exact hreload.1
    · exact h
  | load =>
    rw [hplace] at h hidle
    dsimp only
    rcases loadGallery_cases c.outcome (hidle rfl) with heq | heq
    · rw [heq]
      exact h
    · rw [heq]
      exact ⟨h, fun _ _ _ => rfl⟩
  | install snapshot =>
    rw [hplace] at h
    dsimp only
    rcases s.installGallery_cases c.interrupted snapshot with ⟨what, heq⟩ | ⟨matcher, -, heq⟩
    · rw [heq]
      exact h.1
    · rw [heq]
      exact h
  | publish snapshot =>
    rw [hplace] at h
    exact h
  | clearReload =>
    rw [hplace] at h
    exact fun _ => h.2
  | installFailed e =>
    rw [hplace] at h
    intro hreload
    exact absurd (h.symm.trans hreload) nofun
  | waitFrame =>
    rw [hplace] at h
    dsimp only
    rcases s.waitForFrame_cases c with heq | ⟨what, processor, -, heq⟩ | ⟨events, processor, -, heq⟩
      <;>
    · rw [heq]
      exact h
  | stage frame =>
    rw [hplace] at h hidle
    dsimp only
    rcases stageFrame_cases w c.random frame (hidle rfl) with ⟨e, -, -, heq⟩ | ⟨next, -, heq⟩ <;>
    · rw [heq]
      exact h
  | finish =>
    rw [hplace] at h
    dsimp only
    split
    · exact h
    · exact h
  | returned => exact h
  | thrown e => exact h

omit [FloatPair F D] in
/-- The flags may only be set. At each place the notification is either the flag, the place
itself, or a snapshot that is up to date. -/
theorem Notified.of_flags {s t : EdgeApplication F D} {place : Place F} (h : s.Notified place)
    (hreload : t.galleryReload = s.galleryReload) (hinstalled : t.installed = s.installed)
    (hdate : ∀ snapshot, s.UpToDate snapshot → t.UpToDate snapshot) : t.Notified place := by
  unfold Notified at h ⊢
  rw [hreload, hinstalled]
  cases place with
  | setReload => exact trivial
  | load => exact h
  | install snapshot => exact ⟨h.1, hdate _ h.2⟩
  | publish snapshot => exact ⟨h.1, hdate _ h.2⟩
  | clearReload => exact ⟨h.1, hdate _ h.2⟩
  | installFailed e => exact h
  | _ => exact fun hreload => hdate _ (h hreload)

/-- A transaction of the worker that is reported as committed is kept in mind, and one that is
not applied changes nothing. -/
theorem notified_replaceGallery {s : EdgeApplication F D} (h : s.Notified s.place) (o : Outcome)
    (snapshot : GallerySnapshot F) :
    (s.replaceGallery o snapshot).Notified (s.replaceGallery o snapshot).place := by
  unfold replaceGallery
  cases htransact : transact o (GalleryRepository.replace D snapshot) s.gallery with
  | mk result gallery =>
    cases result with
    | ok _ => exact h.of_flags rfl rfl fun _ _ _ hreplaced => nomatch hreplaced
    | error e =>
      refine h.of_flags rfl rfl fun other hdate hdirty hreplaced hunreported => ?_
      obtain ⟨hbefore, hunapplied⟩ := Bool.or_eq_false_iff.mp hunreported
      have hgallery : gallery = s.gallery := transact_unapplied htransact hunapplied
      dsimp only
      rw [hgallery]
      exact hdate hdirty hreplaced hbefore

/-- Whatever happens, an update is kept in mind. The worker can only bring an update about or
announce it; it installs nothing. -/
theorem notified_perform {s : EdgeApplication F D} (hsound : Sound w device s)
    (h : s.Notified s.place) (a : Action F) : (s.perform w a).Notified (s.perform w a).place := by
  cases a with
  | step c => exact notified_step hsound h c
  | replace o snapshot =>
    unfold perform
    dsimp only
    split
    · exact h
    · exact notified_replaceGallery h o snapshot
  | setDirty =>
    unfold perform
    dsimp only
    split
    · exact h.of_flags rfl rfl fun _ _ hdirty => nomatch hdirty
    · exact h
  | stop =>
    unfold perform
    dsimp only
    split
    · exact h
    · exact h.of_flags rfl rfl fun _ hdate => hdate
  | elapse ms => exact h.of_flags rfl rfl fun _ hdate => hdate

/-- Without a reload the installed gallery is published and up to date. The places at which a
reload is pending are excluded by the hypothesis. -/
theorem published_of_notified {s : EdgeApplication F D} {place : Place F}
    (hsound : s.PlaceSound place)
    (h : s.Notified place) (hreload : s.galleryReload = false) (hplace : place ≠ .setReload) :
    s.Published ∧ s.UpToDate s.installed := by
  have hnot : s.galleryReload ≠ true := by
    rw [hreload]
    exact nofun
  cases place with
  | setReload => exact absurd rfl hplace
  | load => exact absurd h hnot
  | install snapshot => exact absurd h.1 hnot
  | publish snapshot => exact absurd h.1 hnot
  | clearReload => exact absurd h.1 hnot
  | installFailed e => exact absurd h hnot
  | stage frame => exact ⟨hsound.1, h hreload⟩
  | thrown e => exact ⟨hsound.1, h hreload⟩
  | _ => exact ⟨hsound, h hreload⟩

/-- No update of the gallery is lost: with the flag clear, no reload pending, neither thread
about to set one of the two, and no transaction applied behind a reported failure, the version
of the coordinator and the templates in the matcher are those of the stored gallery. -/
theorem no_update_lost (h : start cfg device modelHash clock tables gallery = .ok s₀)
    (actions : List (Action F)) :
    let s := after w s₀ actions
    s.dirty = false → s.galleryReload = false → s.replaced = false → s.place ≠ .setReload →
      s.unreported = false →
      s.coordinator.version = (GalleryRepository.load s.gallery).version ∧
        HoldsTemplates D s.processor.gallery (GalleryRepository.load s.gallery) := by
  intro s hdirty hreload hreplaced hplace hunreported
  have hboth : Sound w device s ∧ s.Notified s.place := by
    have hstart : s₀.Notified s₀.place := by
      obtain ⟨loaded, -, rfl⟩ := start_ok h
      exact fun _ _ _ _ => rfl
    have hstep : ∀ (a : Action F) (t : EdgeApplication F D), Sound w device t ∧ t.Notified t.place →
        Sound w device (t.perform w a) ∧ (t.perform w a).Notified (t.perform w a).place :=
      fun a t ht => ⟨ht.1.perform a, notified_perform ht.1 ht.2 a⟩
    exact run_preserves hstep actions ⟨sound_start h, hstart⟩
  obtain ⟨hsound, hnotified⟩ := hboth
  obtain ⟨hpublished, hdate⟩ := published_of_notified hsound.place hnotified hreload hplace
  have hinstalled := hdate hdirty hreplaced hunreported
  rw [← hinstalled]
  exact ⟨hpublished.1, hsound.matcher⟩

/-- After the installation the gallery is the stored one. All the hypotheses hold of the last
state of the run by evaluation. -/
theorem no_update_lost_sample :
    (after sampleWire begun visitActions).coordinator.version = (GalleryRepository.load
        (after sampleWire begun visitActions).gallery).version ∧
      HoldsTemplates (Extended ℚ) (after sampleWire begun visitActions).processor.gallery
        (GalleryRepository.load (after sampleWire begun visitActions).gallery) := by
  have hplace : (after sampleWire begun visitActions).place ≠ .setReload := by
    intro heq
    have hclosed : (after sampleWire begun visitActions).place.open = false := by decide +kernel
    rw [heq] at hclosed
    cases hclosed
  exact no_update_lost (w := sampleWire) start_begun visitActions (by decide +kernel)
    (by decide +kernel) (by decide +kernel) hplace (by decide +kernel)

/-- Nothing says that a gallery waits, but the version is not that of the stored gallery. -/
def Unannounced (s : EdgeApplication F D) : Prop :=
  s.dirty = false ∧ s.galleryReload = false ∧ s.replaced = false ∧
    s.coordinator.version ≠ (GalleryRepository.load s.gallery).version

/-- Whether an update is unannounced is found from the flags and the two versions. -/
instance (s : EdgeApplication F D) : Decidable s.Unannounced :=
  inferInstanceAs (Decidable (_ ∧ _ ∧ _ ∧ _))

/-- The `COMMIT` of the worker takes effect, but an error is reported. -/
def unreportedActions : List (Action (Extended ℚ)) :=
  .replace .uncertain visitorGallery :: List.replicate 8 (.step visit)

/-- Between the exchange of the flag and the assignment of the owner neither says that a
gallery waits; and a commit that was reported as failed is not announced at all. -/
theorem update_unannounced :
    (after sampleWire begun (visitActions.take 5)).Unannounced ∧
      (after sampleWire begun unreportedActions).Unannounced :=
  ⟨by decide +kernel, by decide +kernel⟩

end EdgeClient.App.EdgeApplication
