import Earshot.Effects.Linked
import Earshot.History.Hold
/-!
# What an operation does to a recording

A recording is created pending, stored by an upload while pending, failed
by the sweep while pending, and deleted with its call; a claim marks it and
changes nothing else of it. `recordingStep_of_catalogStep` says which of
these an operation did, so that what recordings have in common with other
tables is argued once for each kind of change.
-/

namespace Earshot

open Relational

namespace Catalog

/-- One recording's row before and after an operation. -/
inductive RecordingStep (S : CallStore) (c : Catalog) (op : Op) (k : ProjectId × String) :
    Option RecordingRow → Option RecordingRow → Prop where
  /-- Nothing but a claim's mark. -/
  | kept {before after : Option RecordingRow}
      (h : after.map (·.toRecording) = before.map (·.toRecording)) :
      RecordingStep S c op k before after
  | created {row : RecordingRow} (hpending : row.state = .pending) (hblob : row.blobKey = none) :
      RecordingStep S c op k none (some row)
  | stored {row : RecordingRow} (upload : Upload) (now : UnixNano) (hpending : row.state = .pending)
      (hop : op = .finishUpload k.1 k.2 upload now) :
      RecordingStep S c op k (some row) (some (storeRecording k upload now row))
  | failed {row : RecordingRow} (uploading fetching : List (ProjectId × String)) (now : UnixNano)
      (hpending : row.state = .pending) (hop : op = .failStaleUploads uploading fetching now)
      (hfetching : k ∉ fetching) (huploading : k ∉ uploading) :
      RecordingStep S c op k (some row) (some { row with state := .failed })
  | deleted {row : RecordingRow} (now : UnixNano) (hop : op = .purgeCall row.callKey now) :
      RecordingStep S c op k (some row) none

variable {S : CallStore} {c c' d : Catalog} {op : Op} {k : ProjectId × String}

/-- An operation that leaves the recordings alone. -/
theorem RecordingStep.of_eq (h : c'.recordings = c.recordings) :
    RecordingStep S c op k (c.recordings.find? k) (c'.recordings.find? k) := by
  rw [h]
  exact .kept rfl

theorem recordings_insertCalls {p : ProjectId} {targets : List CallTarget} {preset : CapturePreset}
    {due : Option UnixNano} (h : c.insertCalls p targets preset due = some c') :
    c'.recordings = c.recordings :=
  (onlyCalls_insertCalls h).recordings

/-- **An upload stores one pending recording**, and changes no other. -/
theorem find?_finishUpload {p : ProjectId} {recordingId : String} {upload : Upload}
    {now : UnixNano} (h : c.finishUpload S p recordingId upload now = some c') :
    ∃ row, c.recordings.find? (p, recordingId) = some row ∧ row.state = .pending ∧
      ∀ k, c'.recordings.find? k =
        (c.recordings.find? k).map (storeRecording (p, recordingId) upload now) := by
  obtain ⟨row, hrow, hpending, rfl⟩ := finishUpload_eq_some h
  refine ⟨row, hrow, hpending, fun k => ?_⟩
  have hrecordings : ∀ e : Catalog, ∀ item,
      (e.addCallEvidence S row.callKey item now).recordings = e.recordings := fun e item =>
    (onlyCalls_addCallEvidence).recordings
  rw [hrecordings, Table.find?_patch, show row.key = (p, recordingId) from Table.key_of_find? hrow]

/-- **What an operation does to a recording.** -/
theorem recordingStep_of_catalogStep (h : CatalogStep S c op c') (k : ProjectId × String) :
    RecordingStep S c op k (c.recordings.find? k) (c'.recordings.find? k) := by
  cases h with
  | provisionProject | setCapturePreset | beginProjectDeletion | releaseLeases
  | collectExpiredTombstones => exact .of_eq rfl
  | recordSpans hrec =>
      rename_i p prepared rejected now preset c₁ counts
      obtain ⟨preset, d, hrecorded, honly, -⟩ := recorded_of_catalogStep
        (CatalogStep.recordSpans hrec : CatalogStep S c (.recordSpans p prepared rejected now) _)
      exact .of_eq (honly.recordings.trans hrecorded.recordings)
  | createRecording hrun =>
      rcases createRecording_cases hrun with rfl | rfl | ⟨-, hnone, c₁, h₁, rfl⟩
      · exact .of_eq rfl
      · exact .of_eq (onlyCalls_bumpCounter _ _ _).recordings
      · rename_i p manifest now result
        rw [show c₁.recordings = c.recordings from recordings_insertCalls h₁, Table.find?_insert]
        by_cases hk : (pendingRecording p manifest
            (c.recordingTarget S p manifest.sessionKey now).callId now).key = k
        · rw [if_pos hk, ← hk, show c.recordings.find? (pendingRecording p manifest
            (c.recordingTarget S p manifest.sessionKey now).callId now).key = none from hnone]
          exact .created rfl rfl
        · rw [if_neg hk, Option.or_none]
          exact .kept rfl
  | finishUpload hrun =>
      rename_i p recordingId upload now
      obtain ⟨row, hrow, hpending, hfind⟩ := find?_finishUpload hrun
      rw [hfind]
      by_cases hk : k = (p, recordingId)
      · rw [hk, hrow]
        exact .stored upload now hpending rfl
      · cases hr : c.recordings.find? k with
        | none => exact .kept rfl
        | some r =>
            have hne : r.key ≠ (p, recordingId) := by
              rw [show r.key = k from Table.key_of_find? hr]
              exact hk
            rw [Option.map_some, storeRecording, if_neg hne]
            exact .kept rfl
  | failStaleUploads uploading fetching now =>
      rw [find?_failStaleUploads]
      cases hr : c.recordings.find? k with
      | none => exact .kept rfl
      | some row =>
          rw [Option.map_some, failRecording]
          split
          · rename_i hexpired
            have hkey : row.key = k := Table.key_of_find? hr
            cases hcall : c.calls.find? row.callKey with
            | none =>
                rw [uploadExpired, hcall] at hexpired
                cases hexpired
            | some r =>
                obtain ⟨hpending, hfetching, huploading, -⟩ :=
                  (uploadExpired_iff hcall).mp hexpired
                rw [hkey] at hfetching huploading
                exact .failed uploading fetching now hpending rfl hfetching huploading
          · exact .kept rfl
  | collectParkedTraces hrun =>
      refine .of_eq (collectParkedTraces_induction (P := fun d => d.recordings = c.recordings)
        (fun d d' row hd _ _ hone => ?_) hrun rfl)
      rcases collectParkedTrace_cases hone with ⟨name, n, -, rfl⟩ | ⟨-, -, d₁, hins, rfl⟩
      · rw [(onlyCalls_bumpCounter _ _ _).recordings]
        exact hd
      · exact (onlyCalls_insertCall hins).recordings.trans hd
  | claim hrun =>
      obtain ⟨d, haside, ⟨-, rfl⟩ | ⟨r, preset, -, -, -, -, -, -, rfl⟩⟩ := claim_cases hrun
      · exact .of_eq haside.onlyCalls.recordings
      · refine .kept ?_
        show ((d.recordings.patch (markRecording r.key r.nextRevision)
          (markRecording_key _ _)).find? k).map _ = _
        rw [Table.find?_patch, haside.onlyCalls.recordings, Option.map_map]
        cases c.recordings.find? k with
        | none => rfl
        | some row =>
            simp only [Option.map_some, Function.comp_apply, markRecording_columns]
  | finish hrun =>
      rename_i claim now
      obtain ⟨r, -, -, -, ⟨-, rfl⟩ | ⟨-, -, rfl⟩⟩ := finish_cases hrun
      · exact .of_eq rfl
      · exact .of_eq (@onlyCalls_finished c now claim).recordings
  | fail hrun =>
      obtain ⟨r, -, -, -, attempts, due, rfl⟩ := fail_eq_some hrun
      exact .of_eq rfl
  | purgeCall hrun =>
      rename_i k' now
      obtain ⟨r, hr, -, hkeys⟩ := purgeCall_eq_some hrun
      rw [hkeys.recordings]
      show RecordingStep S c _ k _ ((c.recordings.delete (·.callKey = k')).find? k)
      rw [Table.find?_delete]
      cases hrow : c.recordings.find? k with
      | none => exact .kept rfl
      | some row =>
          by_cases hcall : row.callKey = k'
          · rw [Option.filter_some, decide_eq_true hcall]
            exact .deleted now (by rw [hcall])
          · rw [Option.filter_some, decide_eq_false hcall]
            exact .kept rfl

end Catalog

end Earshot
