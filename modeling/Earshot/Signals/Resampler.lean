import Mathlib.Algebra.Order.Floor.Ring
import Mathlib.Data.Nat.Cast.Field
import Mathlib.Data.Rat.Floor
import Mathlib.Tactic.Linarith
import Mathlib.Tactic.Positivity
import Mathlib.Tactic.FieldSimp
import Earshot.Common.Binary64
import Earshot.Common.Run
/-!
# Streaming resampling

A rational resampler that keeps the input it still needs. Each output is a
product of a window of the input and a row of the filter's taps; which
window and which row is what is modelled, and the product is not. The
output of a track is the same however it is cut into blocks, and no block is
read outside what is kept.

A position outside the buffer has no sample: the array would wrap a
negative one, or refuse it.
-/

namespace Earshot.Signals

/-! ## The filter -/

def ZERO_CROSSINGS : ℚ := 16
def ROLLOFF : ℚ := 94 / 100
def CHUNK : ℤ := 16384

/-- Floating-point rounding, to a small part of a positive value. -/
structure Rounding where
  round : ℚ → ℚ
  below : ∀ x, 0 < x → 7 / 8 * x ≤ round x
  above : ∀ x, 0 < x → round x ≤ 9 / 8 * x

/-- The rates, by their divisor, and half the filter's width. -/
structure Filter where
  up : ℕ
  down : ℕ
  half : ℕ
  up_pos : 0 < up
  down_pos : 0 < down
  half_pos : 0 < half
  /-- The filter is wider than the step from an output to the next. -/
  wide : down ≤ up * half

namespace Rounding

variable (R : Rounding)

theorem pos {x : ℚ} (h : 0 < x) : 0 < R.round x :=
  lt_of_lt_of_le (by positivity) (R.below x h)

/-- What 53 binary digits lose of a positive value. -/
theorem abs_sub_binary64_le {x : ℚ} (h : 0 < x) :
    |x - Binary64.roundHalfEven (x / 2 ^ (Binary64.exponent x - 52)) *
      2 ^ (Binary64.exponent x - 52)| ≤ 1 / 8 * x := by
  have hleading := Binary64.pow_exponent_le h.ne'
  rw [abs_of_pos h] at hleading
  have hunit : (2 : ℚ) ^ (Binary64.exponent x - 52) ≤ 1 / 4 * x := by
    rw [zpow_sub₀ two_ne_zero]
    calc (2 : ℚ) ^ Binary64.exponent x / 2 ^ (52 : ℤ) ≤ x / 2 ^ (52 : ℤ) := by gcongr
      _ ≤ 1 / 4 * x := by norm_num; linarith
  refine (Binary64.abs_sub_roundHalfEven_mul_le (by positivity) x).trans ?_
  linarith

/-- Rounding to the 53 binary digits of a float, of any exponent. -/
def binary64 : Rounding where
  round x := Binary64.roundHalfEven (x / 2 ^ (Binary64.exponent x - 52)) *
    2 ^ (Binary64.exponent x - 52)
  below x hx := by linarith [(abs_le.mp (abs_sub_binary64_le hx)).2]
  above x hx := by linarith [(abs_le.mp (abs_sub_binary64_le hx)).1]

/-- Cycles per input sample, of rates in the ratio `ratio`. -/
def cutoff (ratio : ℚ) : ℚ :=
  R.round (R.round (1 / 2 * min 1 (R.round ratio)) * R.round ROLLOFF)

/-- `math.ceil(ZERO_CROSSINGS / (2 * cutoff))` -/
def half (ratio : ℚ) : ℕ := ⌈R.round (ZERO_CROSSINGS / R.round (2 * R.cutoff ratio))⌉₊

/-- What is rounded from a bounded value is bounded. -/
theorem le_of_le {x y : ℚ} (hx : 0 < x) (h : x ≤ y) : R.round x ≤ 9 / 8 * y :=
  (R.above x hx).trans (by linarith)

/-- **The filter spans the step between two outputs.** -/
theorem one_le_half {ratio : ℚ} (h : 0 < ratio) : 1 ≤ R.half ratio * ratio := by
  have hratio := R.pos h
  have hmin : 0 < min 1 (R.round ratio) := lt_min one_pos hratio
  have hrolloff : 0 < ROLLOFF := by norm_num [ROLLOFF]
  have hhalf : 0 < R.round (1 / 2 * min 1 (R.round ratio)) := R.pos (by linarith)
  have hcut : 0 < R.cutoff ratio := R.pos (mul_pos hhalf (R.pos hrolloff))
  have htwice : 0 < R.round (2 * R.cutoff ratio) := R.pos (by linarith)
  have h1 : R.round (1 / 2 * min 1 (R.round ratio)) ≤ 9 / 8 * (1 / 2 * (9 / 8 * ratio)) :=
    R.le_of_le (by linarith) (by linarith [min_le_right 1 (R.round ratio), R.above ratio h])
  have h2 : R.round ROLLOFF ≤ 9 / 8 * (94 / 100) := R.above ROLLOFF hrolloff
  have h3 : R.cutoff ratio ≤
      9 / 8 * (9 / 8 * (1 / 2 * (9 / 8 * ratio)) * (9 / 8 * (94 / 100))) :=
    R.le_of_le (mul_pos hhalf (R.pos hrolloff))
      (mul_le_mul h1 h2 (R.pos hrolloff).le (by linarith))
  have h4 : R.round (2 * R.cutoff ratio) ≤ 2 * ratio :=
    (R.above _ (by linarith)).trans (by linarith)
  have hzero : 0 < ZERO_CROSSINGS / R.round (2 * R.cutoff ratio) :=
    div_pos (by norm_num [ZERO_CROSSINGS]) htwice
  have h5 : 8 / ratio ≤ ZERO_CROSSINGS / R.round (2 * R.cutoff ratio) := by
    rw [div_le_div_iff₀ h htwice, ZERO_CROSSINGS]
    linarith
  have h6 : 7 / ratio ≤ R.round (ZERO_CROSSINGS / R.round (2 * R.cutoff ratio)) := by
    refine le_trans ?_ (R.below _ hzero)
    have height : 7 / ratio = 7 / 8 * (8 / ratio) := by field_simp
    rw [height]
    linarith
  have h7 : 7 / ratio ≤ (R.half ratio : ℚ) := h6.trans (Nat.le_ceil _)
  have h8 := mul_le_mul_of_nonneg_right h7 h.le
  rw [div_mul_cancel₀ _ h.ne'] at h8
  linarith

/-- `Resampler.__init__` -/
def filter {rateIn rateOut : ℕ} (hin : 0 < rateIn) (hout : 0 < rateOut) : Filter :=
  let divisor := rateIn.gcd rateOut
  let up := rateOut / divisor
  let down := rateIn / divisor
  have hup : 0 < up := Nat.div_pos (Nat.le_of_dvd hout (Nat.gcd_dvd_right _ _))
    (Nat.gcd_pos_of_pos_left _ hin)
  have hdown : 0 < down := Nat.div_pos (Nat.le_of_dvd hin (Nat.gcd_dvd_left _ _))
    (Nat.gcd_pos_of_pos_left _ hin)
  have hratio : (0 : ℚ) < up / down := div_pos (Nat.cast_pos.mpr hup) (Nat.cast_pos.mpr hdown)
  have hone := R.one_le_half hratio
  { up
    down
    half := R.half (up / down)
    up_pos := hup
    down_pos := hdown
    half_pos := by
      rcases Nat.eq_zero_or_pos (R.half (up / down)) with hzero | hpos
      · rw [hzero, Nat.cast_zero, zero_mul] at hone
        linarith
      · exact hpos
    wide := by
      rw [← mul_div_assoc, le_div_iff₀ (Nat.cast_pos.mpr hdown), one_mul] at hone
      rw [Nat.mul_comm]
      exact_mod_cast hone }

end Rounding

/-! ## The resampler -/

/-- What an output is a product of: samples, and a row of the taps. -/
structure Output where
  samples : List ℤ
  row : ℤ

structure Resampler where
  buffer : List ℤ
  /-- The track's position of the buffer's first sample. -/
  start : ℤ
  received : ℤ
  next : ℤ

/-- `range(first, stop)` -/
def rangeFrom (first stop : ℤ) : List ℤ :=
  (List.range (stop - first).toNat).map fun j : ℕ => first + (j : ℤ)

/-- `buffer[positions]` -/
def window (buffer : List ℤ) (positions : List ℤ) : Option (List ℤ) :=
  positions.mapM fun p => if p < 0 then none else buffer[p.toNat]?

namespace Filter

variable (F : Filter)

/-- `_offsets` -/
def offsets : List ℤ := (List.range (2 * F.half)).map fun j : ℕ => (j : ℤ) - F.half + 1

/-- `_base` -/
def base (index : ℤ) : ℤ := index * F.down / F.up

/-- The taps an output is made with. -/
def row (index : ℤ) : ℤ := if F.up = 1 then 0 else index * F.down % F.up

/-- How many outputs there are before the input's position `x`. -/
def outputsBefore (x : ℤ) : ℤ := -(-x * F.up / F.down)

def new : Resampler := ⟨List.replicate (F.half - 1) 0, -(F.half - 1), 0, 0⟩

def outputAt (r : Resampler) (index : ℤ) : Option Output :=
  (window r.buffer (F.offsets.map fun offset => F.base index - r.start + offset)).map
    fun samples => ⟨samples, F.row index⟩

/-- The outputs from `first` on, a chunk at a time. -/
def produceFrom (r : Resampler) (first stop : ℤ) : Option (List Output) :=
  if first < stop then do
    let outputs ← (rangeFrom first (min stop (first + CHUNK))).mapM (F.outputAt r)
    let rest ← produceFrom r (first + CHUNK) stop
    return outputs ++ rest
  else some []
  termination_by (stop - first).toNat
  decreasing_by unfold CHUNK; omega

/-- What is kept once the outputs before `stop` are made. -/
def advance (r : Resampler) (stop : ℤ) : Resampler :=
  if r.next < stop then
    let keepFrom := F.base stop + (-(F.half : ℤ) + 1) - r.start
    { r with
      buffer := r.buffer.drop (max 0 keepFrom).toNat
      start := r.start + max 0 keepFrom
      next := stop }
  else r

/-- `_produce` -/
def produce (r : Resampler) (stop : ℤ) : Option (List Output × Resampler) :=
  (F.produceFrom r r.next stop).map fun outputs => (outputs, F.advance r stop)

/-- A block after the buffer. -/
def receive (r : Resampler) (samples : List ℤ) : Resampler where
  buffer := r.buffer ++ samples
  start := r.start
  received := r.received + samples.length
  next := r.next

/-- `feed` -/
def feed (r : Resampler) (samples : List ℤ) : Option (List Output × Resampler) :=
  let fed := receive r samples
  let lastComplete := fed.received - 1 - F.half
  if lastComplete < 0 then some ([], fed) else F.produce fed (F.outputsBefore (lastComplete + 1))

/-- `flush` -/
def flush (r : Resampler) : Option (List Output × Resampler) :=
  F.produce { r with buffer := r.buffer ++ List.replicate F.half 0 } (F.outputsBefore r.received)

/-- The outputs of blocks, and of the flush after them. -/
def run : Resampler → List (List ℤ) → Option (List Output)
  | r, [] => (F.flush r).map Prod.fst
  | r, block :: blocks => (F.feed r block).bind fun fed =>
      (run fed.2 blocks).map fun rest => fed.1 ++ rest

end Filter

/-! ## The whole track -/

/-- A track's sample, and silence outside it. -/
def sampleAt (track : List ℤ) (p : ℤ) : ℤ := if p < 0 then 0 else track[p.toNat]?.getD 0

namespace Filter

variable (F : Filter)

/-- **Output `index` of a track.** -/
def outputOf (track : List ℤ) (index : ℤ) : Output :=
  ⟨F.offsets.map fun offset => sampleAt track (index * F.down / F.up + offset),
    index * F.down % F.up⟩

/-- **The outputs of a track.** -/
def outputsOf (track : List ℤ) (first stop : ℤ) : List Output :=
  (rangeFrom first stop).map (F.outputOf track)

end Filter

/-! ## Positions -/

namespace Filter

variable {F : Filter}

theorem row_eq (index : ℤ) : F.row index = index * F.down % F.up := by
  unfold row
  split
  · rename_i h
    rw [h, Nat.cast_one, Int.emod_one]
  · rfl

theorem outputsBefore_spec (x : ℤ) :
    x * F.up ≤ F.outputsBefore x * F.down ∧ F.outputsBefore x * F.down < x * F.up + F.down := by
  have hdown : (0 : ℤ) < F.down := Int.natCast_pos.mpr F.down_pos
  have hdiv := Int.mul_ediv_add_emod (-x * F.up) F.down
  have hnonneg := Int.emod_nonneg (-x * F.up) hdown.ne'
  have hlt := Int.emod_lt_of_pos (-x * F.up) hdown
  unfold outputsBefore
  rw [Int.mul_comm] at hdiv
  rw [Int.neg_mul]
  rw [Int.neg_mul] at hdiv hnonneg hlt ⊢
  omega

theorem outputsBefore_nonneg {x : ℤ} (h : 0 ≤ x) : 0 ≤ F.outputsBefore x := by
  have hdown : (0 : ℤ) < F.down := Int.natCast_pos.mpr F.down_pos
  have hup : (0 : ℤ) ≤ x * F.up := Int.mul_nonneg h (Int.natCast_nonneg _)
  have hle := (outputsBefore_spec (F := F) x).1
  by_contra hneg
  have := Int.mul_neg_of_neg_of_pos (Int.not_le.mp hneg) hdown
  omega

/-- The outputs before a position are those whose input is before it. -/
theorem base_lt {x index : ℤ} (h : index < F.outputsBefore x) : F.base index < x := by
  have hup : (0 : ℤ) < F.up := Int.natCast_pos.mpr F.up_pos
  have hlt := (outputsBefore_spec (F := F) x).2
  refine Int.ediv_lt_of_lt_mul hup ?_
  have hstep : (index + 1) * F.down ≤ F.outputsBefore x * F.down :=
    Int.mul_le_mul_of_nonneg_right h (Int.natCast_nonneg _)
  rw [Int.add_mul, Int.one_mul] at hstep
  omega

/-- An output whose input is before a position is before it. -/
theorem lt_outputsBefore {x index : ℤ} (h : F.base index < x) : index < F.outputsBefore x := by
  have hdown : (0 : ℤ) < F.down := Int.natCast_pos.mpr F.down_pos
  have hlt : index * F.down < x * F.up :=
    Int.lt_mul_of_ediv_lt (Int.natCast_pos.mpr F.up_pos) h
  have hle := (outputsBefore_spec (F := F) x).1
  exact Int.lt_of_mul_lt_mul_right (by omega) hdown.le

theorem outputsBefore_mono {x y : ℤ} (h : x ≤ y) : F.outputsBefore x ≤ F.outputsBefore y := by
  by_contra hlt
  have hbase := base_lt (Int.not_le.mp hlt)
  exact absurd (lt_outputsBefore (F := F) (hbase.trans_le h)) (lt_irrefl _)

/-- The next output's input is less than a filter's half after the position. -/
theorem base_outputsBefore_lt (x : ℤ) : F.base (F.outputsBefore x) < x + F.half := by
  have hup : (0 : ℤ) < F.up := Int.natCast_pos.mpr F.up_pos
  have hlt := (outputsBefore_spec (F := F) x).2
  have hwide : (F.down : ℤ) ≤ F.half * F.up := by
    have := F.wide
    rw [Nat.mul_comm] at this
    exact_mod_cast this
  refine Int.ediv_lt_of_lt_mul hup ?_
  rw [Int.add_mul]
  omega

theorem base_mono {i j : ℤ} (h : i ≤ j) : F.base i ≤ F.base j :=
  Int.ediv_le_ediv (Int.natCast_pos.mpr F.up_pos)
    (Int.mul_le_mul_of_nonneg_right h (Int.natCast_nonneg _))

/-! ## What is kept -/

/-- The buffer holds `f` from its start up to `stop`. -/
structure Covers (f : ℤ → ℤ) (stop : ℤ) (r : Resampler) : Prop where
  length : (r.buffer.length : ℤ) = stop - r.start
  get : ∀ j, j < r.buffer.length → r.buffer[j]? = some (f (r.start + j))

variable {f : ℤ → ℤ} {stop : ℤ} {r : Resampler}

theorem Covers.window (h : Covers f stop r) (positions : List ℤ)
    (hp : ∀ p ∈ positions, r.start ≤ p ∧ p < stop) :
    window r.buffer (positions.map fun p => p - r.start) = some (positions.map f) := by
  unfold Signals.window
  induction positions with
  | nil => rfl
  | cons p positions ih =>
    obtain ⟨⟨hlow, hhigh⟩, hrest⟩ := List.forall_mem_cons.mp hp
    have hlength := h.length
    have hget := h.get (p - r.start).toNat (by omega)
    rw [show r.start + ((p - r.start).toNat : ℤ) = p by omega] at hget
    rw [List.map_cons, List.mapM_cons, if_neg (by omega), hget, ih hrest, List.map_cons]
    rfl

/-- The window of an output that the buffer covers. -/
theorem Covers.outputAt (h : Covers f stop r) {index : ℤ}
    (hlow : r.start ≤ F.base index - F.half + 1) (hhigh : F.base index + F.half < stop) :
    F.outputAt r index =
      some ⟨F.offsets.map fun offset => f (F.base index + offset), F.row index⟩ := by
  have hwindow := h.window (F.offsets.map fun offset => F.base index + offset) <| by
    intro p hp
    obtain ⟨offset, hoffset, rfl⟩ := List.mem_map.mp hp
    obtain ⟨j, hj, rfl⟩ := List.mem_map.mp hoffset
    have hj := List.mem_range.mp hj
    omega
  rw [List.map_map, List.map_map] at hwindow
  unfold Filter.outputAt
  have hpositions : (F.offsets.map fun offset => F.base index - r.start + offset) =
      F.offsets.map ((fun p => p - r.start) ∘ fun offset => F.base index + offset) := by
    refine List.map_congr_left fun offset _ => ?_
    rw [Function.comp_apply]
    omega
  rw [hpositions, hwindow]
  rfl

theorem mapM_eq_some {α β : Type} {g : α → Option β} {k : α → β} {items : List α}
    (h : ∀ item ∈ items, g item = some (k item)) : items.mapM g = some (items.map k) := by
  induction items with
  | nil => rfl
  | cons item items ih =>
    obtain ⟨hitem, hrest⟩ := List.forall_mem_cons.mp h
    rw [List.mapM_cons, hitem, ih hrest, List.map_cons]
    rfl

theorem mem_rangeFrom {first stop index : ℤ} :
    index ∈ rangeFrom first stop ↔ first ≤ index ∧ index < stop := by
  rw [rangeFrom, List.mem_map]
  constructor
  · rintro ⟨j, hj, rfl⟩
    have hj := List.mem_range.mp hj
    omega
  · rintro ⟨hlow, hhigh⟩
    exact ⟨(index - first).toNat, List.mem_range.mpr (by omega), by omega⟩

theorem rangeFrom_append {first middle stop : ℤ} (hfirst : first ≤ middle) (hstop : middle ≤ stop) :
    rangeFrom first middle ++ rangeFrom middle stop = rangeFrom first stop := by
  unfold rangeFrom
  rw [show (stop - first).toNat = (middle - first).toNat + (stop - middle).toNat by omega,
    List.range_add, List.map_append, List.map_map]
  congr 1
  refine List.map_congr_left fun j _ => ?_
  rw [Function.comp_apply]
  push_cast
  omega

theorem rangeFrom_max (first stop : ℤ) :
    rangeFrom first (max first stop) = rangeFrom first stop := by
  unfold rangeFrom
  rw [show (max first stop - first).toNat = (stop - first).toNat by omega]

theorem rangeFrom_self {first stop : ℤ} (h : stop ≤ first) : rangeFrom first stop = [] := by
  rw [rangeFrom, show (stop - first).toNat = 0 by omega]
  rfl

/-- **The chunks are one range.** -/
theorem produceFrom_eq {k : ℤ → Output} (first stop : ℤ)
    (h : ∀ index, first ≤ index → index < stop → F.outputAt r index = some (k index)) :
    F.produceFrom r first stop = some ((rangeFrom first stop).map k) := by
  induction first using produceFrom.induct stop with
  | case1 first hlt ih =>
    have hchunk : (rangeFrom first (min stop (first + CHUNK))).mapM (F.outputAt r) =
        some ((rangeFrom first (min stop (first + CHUNK))).map k) :=
      mapM_eq_some fun index hindex => by
        obtain ⟨hlow, hhigh⟩ := mem_rangeFrom.mp hindex
        exact h index hlow (by omega)
    have hpos : (0 : ℤ) < CHUNK := by decide
    rw [produceFrom, if_pos hlt, hchunk,
      ih fun index hlow hhigh => h index (by omega) hhigh]
    show some (_ ++ _) = _
    rw [← List.map_append]
    congr 2
    rcases Int.le_total stop (first + CHUNK) with hle | hle
    · rw [min_eq_left hle, rangeFrom_self hle, List.append_nil]
    · rw [min_eq_right hle, rangeFrom_append (by omega) hle]
  | case2 first hle =>
    rw [produceFrom, if_neg hle, rangeFrom_self (by omega)]
    rfl

/-- **What is made and what is kept**: the outputs up to `stop`, whose windows
end before `covered`. -/
theorem Covers.produce (h : Covers f stop r) (last : ℤ)
    (hstart : r.start = F.base r.next - F.half + 1)
    (hlast : ∀ index, index < last → F.base index + F.half < stop)
    (hkeep : F.base last - F.half + 1 ≤ stop) :
    ∃ r', F.produce r last = some ((rangeFrom r.next last).map (fun index =>
        ⟨F.offsets.map fun offset => f (F.base index + offset), F.row index⟩), r') ∧
      Covers f stop r' ∧ r'.received = r.received ∧ r'.next = max r.next last ∧
      r'.start = F.base r'.next - F.half + 1 := by
  refine ⟨F.advance r last, ?_, ?_⟩
  · rw [Filter.produce, produceFrom_eq r.next last fun index hlow hhigh => ?_]
    · rfl
    · refine h.outputAt ?_ (hlast index hhigh)
      have := base_mono (F := F) hlow
      omega
  · unfold Filter.advance
    split
    · rename_i hlt
      have hmono := base_mono (F := F) hlt.le
      have hlength := h.length
      have hfrom : 0 ≤ F.base last + (-(F.half : ℤ) + 1) - r.start := by omega
      dsimp only
      rw [max_eq_right hlt.le, max_eq_right hfrom]
      refine ⟨⟨?_, fun j hj => ?_⟩, rfl, rfl, ?_⟩
      · dsimp only
        rw [List.length_drop]
        omega
      · dsimp only at hj ⊢
        rw [List.length_drop] at hj
        rw [List.getElem?_drop, h.get _ (by omega)]
        congr 2
        omega
      · omega
    · rename_i hle
      exact ⟨h, rfl, (max_eq_left (by omega)).symm, hstart⟩

/-! ## Blocks -/

theorem sampleAt_append {track block : List ℤ} {p : ℤ} (h : p < track.length) :
    sampleAt (track ++ block) p = sampleAt track p := by
  unfold sampleAt
  split
  · rfl
  · rw [List.getElem?_append_left (by omega)]

theorem sampleAt_append_right {track block : List ℤ} (j : ℕ) :
    sampleAt (track ++ block) (track.length + j) = block[j]?.getD 0 := by
  unfold sampleAt
  rw [if_neg (by omega), List.getElem?_append_right (by omega)]
  congr 2
  omega

theorem sampleAt_of_le {track : List ℤ} {p : ℤ} (h : (track.length : ℤ) ≤ p) :
    sampleAt track p = 0 := by
  unfold sampleAt
  rw [if_neg (by omega), List.getElem?_eq_none (by omega)]
  rfl

/-- A block after what is kept. -/
theorem Covers.append {g : ℤ → ℤ} (h : Covers f stop r) (block : List ℤ) (received : ℤ)
    (hold : ∀ p, p < stop → g p = f p)
    (hnew : ∀ j, j < block.length → block[j]? = some (g (stop + j))) :
    Covers g (stop + block.length)
      { r with buffer := r.buffer ++ block, received } := by
  have hlength := h.length
  refine ⟨?_, fun j hj => ?_⟩
  · dsimp only
    rw [List.length_append]
    omega
  · dsimp only at hj ⊢
    rw [List.length_append] at hj
    by_cases hlt : j < r.buffer.length
    · rw [List.getElem?_append_left hlt, h.get j hlt, hold _ (by omega)]
    · rw [List.getElem?_append_right (by omega), hnew _ (by omega)]
      congr 2
      omega

/-- **What a resampler holds after a track**, and which outputs it has made. -/
structure Holds (F : Filter) (track : List ℤ) (r : Resampler) : Prop where
  covers : Covers (sampleAt track) track.length r
  received : r.received = track.length
  start : r.start = F.base r.next - F.half + 1
  next_nonneg : 0 ≤ r.next
  next : r.next = 0 ∨ F.base (r.next - 1) + F.half < track.length

theorem holds_new (F : Filter) : Holds F [] F.new where
  covers := by
    have hpos := F.half_pos
    refine ⟨?_, fun j hj => ?_⟩
    · show ((List.replicate (F.half - 1) (0 : ℤ)).length : ℤ) = _
      rw [List.length_replicate]
      show ((F.half - 1 : ℕ) : ℤ) = ((0 : ℕ) : ℤ) - -((F.half : ℤ) - 1)
      omega
    · have hlt : j < F.half - 1 := by rwa [Filter.new, List.length_replicate] at hj
      show (List.replicate (F.half - 1) (0 : ℤ))[j]? = some (sampleAt [] (-((F.half : ℤ) - 1) + j))
      rw [List.getElem?_replicate_of_lt hlt]
      unfold sampleAt
      split <;> rfl
  received := rfl
  start := by
    show -((F.half : ℤ) - 1) = 0 * F.down / F.up - F.half + 1
    rw [Int.zero_mul, Int.zero_ediv]
    omega
  next_nonneg := Int.le_refl 0
  next := Or.inl rfl

/-- **The outputs of a track that has not ended** are those of the track. -/
theorem outputsOf_congr {track track' : List ℤ} {first stop : ℤ}
    (h : ∀ index, first ≤ index → index < stop → ∀ p, p ≤ F.base index + F.half →
      sampleAt track p = sampleAt track' p) :
    F.outputsOf track first stop = F.outputsOf track' first stop := by
  refine List.map_congr_left fun index hindex => ?_
  obtain ⟨hlow, hhigh⟩ := mem_rangeFrom.mp hindex
  unfold outputOf
  congr 1
  refine List.map_congr_left fun offset hoffset => ?_
  obtain ⟨j, hj, rfl⟩ := List.mem_map.mp hoffset
  have hj := List.mem_range.mp hj
  refine h index hlow hhigh _ ?_
  show F.base index + _ ≤ _
  omega

theorem Holds.feed {track : List ℤ} (h : Holds F track r) (block : List ℤ) :
    ∃ r', F.feed r block = some (F.outputsOf (track ++ block) r.next r'.next, r') ∧
      Holds F (track ++ block) r' ∧ r.next ≤ r'.next := by
  have hlength : ((track ++ block).length : ℤ) = track.length + block.length := by
    rw [List.length_append]
    push_cast
    rfl
  set fed := receive r block with hfed
  have hreceived : fed.received = track.length + block.length := by
    show r.received + (block.length : ℤ) = _
    rw [h.received]
  have hcovers : Covers (sampleAt (track ++ block)) (track.length + block.length) fed :=
    h.covers.append block _ (fun p hp => sampleAt_append hp)
      (fun j hj => by rw [sampleAt_append_right, List.getElem?_eq_getElem hj]; rfl)
  unfold Filter.feed
  dsimp only
  rw [hreceived]
  have hfedNext : fed.next = r.next := rfl
  split
  · refine ⟨fed, ?_, ⟨?_, ?_, h.start, h.next_nonneg, ?_⟩, Int.le_refl _⟩
    · rw [outputsOf, hfedNext, rangeFrom_self (Int.le_refl _)]
      rfl
    · rw [hlength]
      exact hcovers
    · rw [hlength]
      exact hreceived
    · refine h.next.imp id fun hnext => ?_
      rw [hlength]
      show F.base (r.next - 1) + F.half < _
      omega
  · rename_i hcomplete
    rw [show (track.length : ℤ) + block.length - 1 - F.half + 1 =
      track.length + block.length - F.half by omega]
    have hkeep := base_outputsBefore_lt (F := F) (track.length + block.length - F.half)
    have hmade : ∀ index, index < F.outputsBefore (track.length + block.length - F.half) →
        F.base index + F.half < track.length + block.length := by
      intro index hindex
      have := base_lt hindex
      omega
    set last := F.outputsBefore (track.length + block.length - F.half)
    obtain ⟨r', hproduce, hcovers', hreceived', hnext, hstart⟩ :=
      hcovers.produce last h.start hmade (by omega)
    rw [hfedNext] at hproduce hnext
    refine ⟨r', ?_, ⟨?_, ?_, hstart, ?_, ?_⟩, ?_⟩
    · rw [hproduce, hnext, outputsOf, rangeFrom_max]
      congr 2
      refine List.map_congr_left fun index _ => ?_
      rw [outputOf, row_eq]
      rfl
    · rw [hlength]
      exact hcovers'
    · rw [hlength, hreceived']
      exact hreceived
    · rw [hnext]
      exact h.next_nonneg.trans (le_max_left _ _)
    · rw [hnext, hlength]
      rcases Int.le_total last r.next with hle | hle
      · rw [max_eq_left hle]
        exact h.next.imp id fun hbase => by omega
      · rw [max_eq_right hle]
        exact Or.inr (hmade (last - 1) (by omega))
    · rw [hnext]
      exact le_max_left _ _

/-- The outputs made are those of the track, however it goes on. -/
theorem Holds.outputsOf_append {track : List ℤ} (h : Holds F track r) (block : List ℤ) {first : ℤ}
    (hfirst : 0 ≤ first) :
    F.outputsOf (track ++ block) first r.next = F.outputsOf track first r.next := by
  refine outputsOf_congr fun index hlow hhigh p hp => ?_
  rcases h.next with hzero | hbase
  · omega
  · have hmono := base_mono (F := F) (show index ≤ r.next - 1 by omega)
    exact sampleAt_append (by omega)

theorem Holds.next_le {track : List ℤ} (h : Holds F track r) :
    r.next ≤ F.outputsBefore track.length := by
  rcases h.next with hzero | hbase
  · rw [hzero]
    exact outputsBefore_nonneg (Int.natCast_nonneg _)
  · have : r.next - 1 < F.outputsBefore track.length := lt_outputsBefore (by omega)
    omega

/-- **The flush makes the rest**, with silence after the track. -/
theorem Holds.flush {track : List ℤ} (h : Holds F track r) :
    ∃ r', F.flush r = some (F.outputsOf track r.next (F.outputsBefore track.length), r') := by
  have hcovers : Covers (sampleAt track) (track.length + F.half)
      { r with buffer := r.buffer ++ List.replicate F.half 0 } := by
    have hzeros := h.covers.append (g := sampleAt track) (List.replicate F.half 0)
      r.received (fun p _ => rfl) (fun j hj => by
        rw [List.length_replicate] at hj
        rw [List.getElem?_replicate_of_lt hj, sampleAt_of_le (by omega)])
    rwa [List.length_replicate] at hzeros
  have hkeep := base_outputsBefore_lt (F := F) track.length
  obtain ⟨r', hproduce, -⟩ := hcovers.produce (F.outputsBefore track.length) h.start
    (fun index hindex => by have := base_lt hindex; omega) (by omega)
  refine ⟨r', ?_⟩
  unfold Filter.flush
  rw [show F.outputsBefore r.received = F.outputsBefore track.length by rw [h.received], hproduce,
    outputsOf]
  congr 2
  refine List.map_congr_left fun index _ => ?_
  rw [outputOf, row_eq]
  rfl

theorem outputsOf_append_range {track : List ℤ} {first middle stop : ℤ} (hfirst : first ≤ middle)
    (hstop : middle ≤ stop) :
    F.outputsOf track first middle ++ F.outputsOf track middle stop =
      F.outputsOf track first stop := by
  unfold outputsOf
  rw [← List.map_append, rangeFrom_append hfirst hstop]

/-- **The outputs of a run are those of the whole track.** -/
theorem Holds.run {track : List ℤ} (h : Holds F track r) (blocks : List (List ℤ)) :
    F.run r blocks = some (F.outputsOf (track ++ blocks.flatten) r.next
      (F.outputsBefore (track ++ blocks.flatten).length)) := by
  induction blocks generalizing r track with
  | nil =>
    obtain ⟨r', hflush⟩ := h.flush
    rw [List.flatten_nil, List.append_nil, Filter.run, hflush]
    rfl
  | cons block blocks ih =>
    obtain ⟨r', hfeed, hholds, hle⟩ := h.feed block
    have hrest := ih hholds
    have hnext := hholds.next_le
    rw [Filter.run, hfeed, Option.bind_some, hrest, Option.map_some, List.flatten_cons,
      ← List.append_assoc, ← hholds.outputsOf_append blocks.flatten h.next_nonneg]
    refine congrArg some (outputsOf_append_range hle (hnext.trans (outputsBefore_mono ?_)))
    rw [show (track ++ block ++ blocks.flatten).length = _ from List.length_append]
    omega

/-- **A track is resampled as a whole**, however it is cut. -/
theorem run_new (F : Filter) (blocks : List (List ℤ)) :
    F.run F.new blocks =
      some (F.outputsOf blocks.flatten 0 (F.outputsBefore blocks.flatten.length)) :=
  (holds_new F).run blocks

theorem length_outputsOf (track : List ℤ) :
    ((F.outputsOf track 0 (F.outputsBefore track.length)).length : ℤ) =
      ⌈(track.length * F.up / F.down : ℚ)⌉ := by
  have hnonneg := outputsBefore_nonneg (F := F) (Int.natCast_nonneg track.length)
  have hdown : (0 : ℚ) < F.down := Nat.cast_pos.mpr F.down_pos
  obtain ⟨hle, hlt⟩ := outputsBefore_spec (F := F) track.length
  rw [outputsOf, List.length_map, rangeFrom, List.length_map, List.length_range, Int.sub_zero,
    Int.toNat_of_nonneg hnonneg]
  refine (Int.ceil_eq_iff.mpr ⟨?_, ?_⟩).symm
  · rw [lt_div_iff₀ hdown, sub_mul, one_mul, sub_lt_iff_lt_add]
    exact_mod_cast hlt
  · rw [div_le_iff₀ hdown]
    exact_mod_cast hle

end Filter

/-- The filter's rates are the two rates. -/
theorem Rounding.filter_ratio (R : Rounding) {rateIn rateOut : ℕ} (hin : 0 < rateIn)
    (hout : 0 < rateOut) :
    ((R.filter hin hout).up / (R.filter hin hout).down : ℚ) = rateOut / rateIn := by
  have hdivisor : (rateIn.gcd rateOut : ℚ) ≠ 0 :=
    Nat.cast_ne_zero.mpr (Nat.gcd_pos_of_pos_left _ hin).ne'
  show ((rateOut / rateIn.gcd rateOut : ℕ) / (rateIn / rateIn.gcd rateOut : ℕ) : ℚ) = _
  rw [Nat.cast_div (Nat.gcd_dvd_right _ _) hdivisor, Nat.cast_div (Nat.gcd_dvd_left _ _) hdivisor,
    div_div_div_cancel_right₀ hdivisor]

end Earshot.Signals
