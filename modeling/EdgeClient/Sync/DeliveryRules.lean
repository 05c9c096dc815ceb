import EdgeClient.Storage.OutboxRules
import EdgeClient.Sync.AttendanceSync

/-!
# What a batch and its answer say

A batch can be written exactly when every row of it can, and the receipts that are
accepted from the server are different and belong to rows of the batch.
-/

namespace EdgeClient.Sync

open Basis Storage

variable {D : Type} [FloatOps D] {w : Wire D} {device : String}

/-- The accepted receipts belong to the batch. -/
structure Receipts (sent : List AttendanceRecord) (receipts : List DeliveryReceipt) : Prop where
  /-- Every receipt is for a row of the batch. -/
  sent : ∀ r ∈ receipts, r.eventId ∈ sent.map (·.id)
  /-- Every receipt says what became of its event. -/
  valid : ∀ r ∈ receipts, OutboxRepository.validDisposition r.disposition = true
  /-- No event has two receipts. -/
  distinct : (receipts.map (·.eventId)).Nodup

/-- No receipts are receipts of any batch. -/
theorem Receipts.none (sent : List AttendanceRecord) : Receipts sent [] := by
  refine ⟨?_, ?_, List.nodup_nil⟩
  · intro r hr
    cases hr
  · intro r hr
    cases hr

omit [FloatOps D] in
/-- One more accepted result keeps the receipts those of the batch: it names a row that was sent
and has no receipt yet. -/
theorem parseReceipt_receipts {sent : List AttendanceRecord} {seen receipts : List DeliveryReceipt}
    {v : Json D} (hseen : Receipts sent seen) (h : parseReceipt sent seen v = .ok receipts) :
    Receipts sent receipts := by
  unfold parseReceipt at h
  obtain ⟨a, -, h⟩ := bind_eq_ok.mp h
  obtain ⟨eventId, -, h⟩ := bind_eq_ok.mp h
  obtain ⟨disposition, -, h⟩ := bind_eq_ok.mp h
  split at h
  · cases h
  · rename_i hgood
    cases h
    simp only [not_or, not_not, Bool.not_eq_false] at hgood
    obtain ⟨hsent, hnew, hvalid⟩ := hgood
    refine ⟨fun r hr => ?_, fun r hr => ?_, ?_⟩
    · rcases List.mem_append.mp hr with hold | hlast
      · exact hseen.sent r hold
      · rw [List.mem_singleton.mp hlast]
        exact hsent
    · rcases List.mem_append.mp hr with hold | hlast
      · exact hseen.valid r hold
      · rw [List.mem_singleton.mp hlast]
        exact hvalid
    · rw [List.map_append, List.map_singleton, List.nodup_append]
      refine ⟨hseen.distinct, List.nodup_singleton _, ?_⟩
      rintro id hid id' hid' rfl
      rw [List.mem_singleton.mp hid'] at hid
      exact hnew hid

/-- An accepted answer holds receipts of the batch. The invariant of the loop is that the receipts
read so far are receipts of the batch. -/
theorem parseReceipts_receipts {json : String} {sent : List AttendanceRecord}
    {receipts : List DeliveryReceipt} (h : parseReceipts w json sent = .ok receipts) :
    Receipts sent receipts := by
  unfold parseReceipts at h
  obtain ⟨o, -, h⟩ := bind_eq_ok.mp h
  obtain ⟨version, -, h⟩ := bind_eq_ok.mp h
  split at h
  · cases h
  · obtain ⟨list, -, h⟩ := bind_eq_ok.mp h
    split at h
    · cases h
    · have hstep : ∀ pre (v : Json D) post seen seen', list = pre ++ v :: post →
          Receipts sent seen → parseReceipt sent seen v = .ok seen' → Receipts sent seen' :=
        fun _ _ _ _ _ _ hseen hv => parseReceipt_receipts hseen hv
      exact foldlM_ok (fun _ seen => Receipts sent seen) (Receipts.none sent) hstep h

end EdgeClient.Sync
