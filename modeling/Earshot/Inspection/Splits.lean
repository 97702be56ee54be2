import Earshot.Inspection.Flac
import Earshot.Inspection.Walks
import Earshot.Inspection.Wav
/-!
# Inspections

The three inspectors of uploaded bodies, and what an upload's inspection says:
how its chunks were cut does not matter, and its outcome is that of the body.
-/

namespace Earshot.Inspection

/-- The formats of `MediaInspector`. -/
inductive Media where
  | wav
  | flac
  | ogg
  deriving DecidableEq

/-- An upload in chunks, inspected. -/
def inspect : Media → List (List UInt8) → Outcome
  | .wav => inspectWav
  | .flac => inspectFlac
  | .ogg => inspectOgg

/-- What a body of a format holds. -/
def BodyOf : Media → List UInt8 → ℕ → Option ℕ → Prop
  | .wav => WavBody
  | .flac => FlacBody
  | .ogg => OggBody

/-- **An upload's outcome is its body's.** -/
theorem inspect_iff (media : Media) (chunks : List (List UInt8)) (channels : ℕ)
    (duration : Option ℕ) :
    inspect media chunks = .ok (channels, duration) ↔
      BodyOf media chunks.flatten channels duration := by
  cases media with
  | wav => exact inspectWav_iff chunks channels duration
  | flac => exact inspectFlac_iff chunks channels duration
  | ogg => exact inspectOgg_iff chunks channels duration

theorem inspect_error {media : Media} {chunks : List (List UInt8)} {e : Failure}
    (h : inspect media chunks = .error e) : ∃ text, e = .header text := by
  cases media with
  | wav => exact inspectWav_error h
  | flac => exact inspectFlac_error h
  | ogg => exact inspectOgg_error h

/-- An upload is refused exactly where its body holds nothing. -/
theorem inspect_refused_iff (media : Media) (chunks : List (List UInt8)) :
    (∃ text, inspect media chunks = .error (.header text)) ↔
      ∀ channels duration, ¬ BodyOf media chunks.flatten channels duration := by
  constructor
  · rintro ⟨text, h⟩ channels duration hbody
    cases h.symm.trans ((inspect_iff media chunks channels duration).mpr hbody)
  · intro h
    cases hresult : inspect media chunks with
    | error e =>
      obtain ⟨text, rfl⟩ := inspect_error hresult
      exact ⟨text, rfl⟩
    | ok result => exact absurd ((inspect_iff media chunks _ _).mp hresult) (h _ _)

/-- The duration of the pages of a walk is bounded. -/
theorem walkDuration_le {first : OggPage} {later : List OggPage} {ending : Ending}
    {preSkip : ℕ} : ∀ d ∈ walkDuration first later ending preSkip, d ≤ MAX_DURATION_MS := by
  intro d h
  unfold walkDuration oggDuration at h
  split at h
  · obtain ⟨g, _, hg⟩ := Option.mem_bind_iff.mp h
    split at hg
    · exact bounded_le d hg
    · cases hg
  · cases h

/-- A duration given is in bounds. -/
theorem bodyOf_duration_le {media : Media} {body : List UInt8} {channels d : ℕ}
    (h : BodyOf media body channels (some d)) : d ≤ MAX_DURATION_MS := by
  cases media with
  | wav =>
    obtain ⟨fmt, start, size, _, _, _, hd⟩ := h
    exact wavDuration_le hd.symm
  | flac =>
    obtain ⟨info, _, _, hd⟩ := h
    exact plausible_le bounded_le hd.symm
  | ogg =>
    obtain ⟨first, later, ending, preSkip, _, _, hd⟩ := h
    exact plausible_le walkDuration_le hd.symm

/-- **An inspection does not depend on how the upload was split.** Any chunks
give what the whole body at once gives, which is what the body holds, or a
header error in both; nothing else is raised, and a duration is in bounds. -/
theorem inspect_of_chunks (media : Media) (chunks : List (List UInt8)) :
    (∀ channels duration, inspect media chunks = .ok (channels, duration) ↔
      inspect media [chunks.flatten] = .ok (channels, duration)) ∧
    ((∃ text, inspect media chunks = .error (.header text)) ↔
      ∃ text, inspect media [chunks.flatten] = .error (.header text)) ∧
    inspect media chunks ≠ .error .other ∧
    (∀ channels duration, inspect media chunks = .ok (channels, duration) ↔
      BodyOf media chunks.flatten channels duration) ∧
    ∀ channels d, inspect media chunks = .ok (channels, some d) → d ≤ MAX_DURATION_MS := by
  have hwhole : [chunks.flatten].flatten = chunks.flatten := List.flatten_singleton
  refine ⟨fun channels duration => ?_, ?_, fun h => ?_, inspect_iff media chunks,
    fun channels d h => bodyOf_duration_le ((inspect_iff media chunks _ _).mp h)⟩
  · rw [inspect_iff, inspect_iff, hwhole]
  · rw [inspect_refused_iff, inspect_refused_iff, hwhole]
  · obtain ⟨text, he⟩ := inspect_error h
    cases he

/-! ## A first page's granule position -/

/-- A page that holds an `OpusHead` of one channel, at a granule position of a second. -/
def soundingHead : OggPage where
  header := [79, 103, 103, 83, 0, 2, 128, 187, 0, 0, 0, 0, 0, 0, 7, 0, 0, 0, 0, 0, 0, 0, 0, 0, 0,
    0, 1, 19]
  body := [79, 112, 117, 115, 72, 101, 97, 100, 1, 1, 0, 0, 128, 187, 0, 0, 0, 0, 0]

/-- **The first page's granule position is not read**, so the last one of the
stream's pages is not always the duration. -/
theorem not_lastGranule_of_stream :
    ¬ ∀ (chunks : List (List UInt8)) (channels : ℕ) (duration : Option ℕ),
      inspect .ogg chunks = .ok (channels, duration) ↔
        ∃ first later ending preSkip, walkPages chunks.flatten = (first :: later, ending) ∧
          OggHeader first channels preSkip ∧
          duration = plausibleDurationMs
            (walkDuration first (first :: later) ending preSkip) chunks.flatten.length := by
  intro h
  have hwhole : ∀ p ∈ [soundingHead], Whole p := by
    intro p hp
    rw [List.mem_singleton.mp hp]
    exact ⟨⟨rfl, by decide, rfl⟩, rfl⟩
  have hwalk : walkPages [soundingHead.bytes].flatten = ([soundingHead], .boundary) := by
    have := walkPages_pages hwhole []
    rw [walkPages_broken OggInspector.partial_nil, List.append_nil] at this
    exact this
  have hheader : OggHeader soundingHead 1 0 := ⟨rfl, by decide, rfl, rfl⟩
  have hcode : inspect .ogg [soundingHead.bytes] = .ok (1, none) :=
    (inspect_iff .ogg _ _ _).mpr ⟨_, _, _, _, hwalk, hheader, by decide⟩
  have hclaimed := (h [soundingHead.bytes] 1 (some 1000)).mpr
    ⟨_, _, _, _, hwalk, hheader, by decide⟩
  cases hcode.symm.trans hclaimed

end Earshot.Inspection
