import Earshot.Signals.Peaks
import Earshot.Signals.Resampler
import Earshot.Signals.ZeroRuns
/-!
# Scans of a recording

The scans that run at the source's rate take a recording block by block, and
say of the whole recording what one scan of it would.
-/

namespace Earshot.Signals

/-- `Source`: a recording opened for decoding. One without a rate or channels
is refused. -/
structure Source where
  rate : ℕ
  channels : ℕ
  rate_pos : 0 < rate
  channels_pos : 0 < channels

/-- **Streaming scans are whole-track scans.** Whatever the blocks: the zero
runs found are the track's maximal runs, in order; the peaks file is the
whole track's, pixel by pixel, and its header is read back; and the
resampler never reads outside its buffer and makes the track's outputs, one
for every step of the new rate. -/
theorem scans_of_blocks (source : Source) (R : Rounding) :
    (∀ (minimum : ℤ) (blocks : List (List ℤ)),
      ((blocks.foldl ZeroRuns.feed (ZeroRuns.new minimum)).finish.Pairwise
          fun a b => a.2 < b.1) ∧
        ∀ run, run ∈ (blocks.foldl ZeroRuns.feed (ZeroRuns.new minimum)).finish ↔
          ∃ start stop : ℕ, run = ((start : ℤ), (stop : ℤ)) ∧
            IsRun minimum blocks.flatten start stop) ∧
      (∀ blocks : List (List (Fin source.channels → ℤ)),
        (blocks.foldl Peaks.feed (Peaks.new source.channels source.rate)).finish =
            ([blocks.flatten].foldl Peaks.feed (Peaks.new source.channels source.rate)).finish ∧
          (blocks.foldl Peaks.feed (Peaks.new source.channels source.rate)).finish =
            (PeaksHeader.pack ⟨source.rate, SAMPLES_PER_PIXEL,
              (trackPixels blocks.flatten).length, source.channels⟩).map
                (· ++ bodyOf (trackPixels blocks.flatten)) ∧
          ((∀ row ∈ blocks.flatten, ∀ c, -32768 ≤ row c ∧ row c ≤ 32767) →
            (bodyOf (trackPixels blocks.flatten)).map Peaks.signed =
              (trackPixels blocks.flatten).flatMap fun pixel =>
                (List.finRange source.channels).flatMap fun c => [(pixel c).1, (pixel c).2]) ∧
          ∀ file, (blocks.foldl Peaks.feed
              (Peaks.new source.channels source.rate)).finish = some file →
            readHeader file = .ok ⟨source.rate, SAMPLES_PER_PIXEL,
              (trackPixels blocks.flatten).length, source.channels⟩) ∧
      ∀ (rateOut : ℕ) (hout : 0 < rateOut) (blocks : List (List ℤ)), ∃ outputs,
        (R.filter source.rate_pos hout).run (R.filter source.rate_pos hout).new blocks =
            some outputs ∧
          (outputs.length : ℤ) = ⌈(blocks.flatten.length * rateOut / source.rate : ℚ)⌉ ∧
          ∀ i, i < outputs.length → outputs[i]? =
            some ((R.filter source.rate_pos hout).outputOf blocks.flatten i) := by
  refine ⟨fun minimum blocks => (ZeroRuns.holds_feed minimum blocks).finish, fun blocks => ?_,
    fun rateOut hout blocks => ?_⟩
  · have hflatten : [blocks.flatten].flatten = blocks.flatten := List.flatten_singleton
    refine ⟨?_, Peaks.finish_feed _ _, Peaks.signed_bodyOf_trackPixels, fun file hfile => ?_⟩
    · rw [Peaks.finish_feed, Peaks.finish_feed, hflatten]
    · exact Peaks.readHeader_finish (Int.natCast_pos.mpr source.rate_pos) source.channels_pos hfile
  · set F := R.filter source.rate_pos hout with hF
    have hratio : (F.up / F.down : ℚ) = rateOut / source.rate :=
      R.filter_ratio source.rate_pos hout
    refine ⟨_, F.run_new blocks, ?_, fun i hi => ?_⟩
    · rw [Filter.length_outputsOf, mul_div_assoc, hratio, mul_div_assoc]
    · rw [Filter.outputsOf, List.length_map, rangeFrom, List.length_map, List.length_range] at hi
      rw [Filter.outputsOf, List.getElem?_map, rangeFrom, List.getElem?_map,
        List.getElem?_range hi]
      exact congrArg (fun index => some (F.outputOf blocks.flatten index)) (Int.zero_add _)

def telephone : Source := ⟨8000, 1, Nat.succ_pos _, Nat.succ_pos _⟩

/-- Three samples of a telephone call, in two blocks, at twice the rate. -/
theorem scans_of_blocks_telephone : ∃ outputs,
    (Rounding.binary64.filter telephone.rate_pos (show 0 < 16000 by decide)).run
        (Rounding.binary64.filter telephone.rate_pos (show 0 < 16000 by decide)).new
        [[100, -200], [300]] = some outputs ∧
      (outputs.length : ℤ) = 6 := by
  obtain ⟨outputs, hrun, hlength, -⟩ :=
    (scans_of_blocks telephone .binary64).2.2 16000 (by decide) [[100, -200], [300]]
  refine ⟨outputs, hrun, hlength.trans ?_⟩
  rw [show (([[100, -200], [300]] : List (List ℤ)).flatten.length * (16000 : ℕ) / telephone.rate : ℚ)
    = (6 : ℤ) by norm_num [telephone]]
  exact Int.ceil_intCast 6

end Earshot.Signals
