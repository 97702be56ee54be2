import Earshot.Client.Transport
import Mathlib.Algebra.BigOperators.Group.List.Basic
import Mathlib.Algebra.Order.Ring.Nat
import Mathlib.Data.Nat.ModEq
/-!
# The browser's recorder

`EarshotBrowserRecorder` buffers snapshots and device events, counts what it
loses, merges the notes it is handed, and drains all of it into a payload. Up to
its `stop`; what a snapshot says of the platform is given with it.

`owed` is what the recorder has of the observations: those buffered, and the
losses its counters and its pending notes tell of. Every operation accounts for
it (`owed_observe`, `owed_recordCoverage`, `owed_drain`).
-/

namespace Earshot.Client

/-! ## Buffers -/

/-- A ring of slots: `count` of them from `head` on are taken. -/
structure DropOldestBuffer (α : Type*) where
  capacity : ℕ
  items : List (Option α)
  head : ℕ
  count : ℕ
  length_items : items.length = capacity
  count_le : count ≤ capacity
  head_lt : head < capacity ∨ capacity = 0
  filled : ∀ i < count, ∃ x, items[(head + i) % capacity]? = some (some x)

namespace DropOldestBuffer

variable {α : Type*}

/-- `constructor` -/
def new (capacity : ℕ) : DropOldestBuffer α where
  capacity
  items := List.replicate capacity none
  head := 0
  count := 0
  length_items := List.length_replicate
  count_le := Nat.zero_le _
  head_lt := (Nat.eq_zero_or_pos capacity).symm
  filled i hi := absurd hi (Nat.not_lt_zero i)

/-- A taken slot stays taken when another is written. -/
theorem filled_set {items : List (Option α)} {j k : ℕ} {item : α}
    (h : (∃ x, items[k]? = some (some x)) ∨ j = k ∧ k < items.length) :
    ∃ x, (items.set j (some item))[k]? = some (some x) := by
  rw [List.getElem?_set]
  rcases h with ⟨x, hx⟩ | ⟨rfl, hlt⟩
  · split
    · next heq =>
      subst heq
      rw [if_pos (List.getElem?_eq_some_iff.mp hx).1]
      exact ⟨item, rfl⟩
    · exact ⟨x, hx⟩
  · rw [if_pos rfl, if_pos hlt]
    exact ⟨item, rfl⟩

/-- `push`: whether it dropped the oldest item. -/
def push (b : DropOldestBuffer α) (item : α) : DropOldestBuffer α × Bool :=
  if h : b.count < b.capacity then
    ({ b with
        items := b.items.set ((b.head + b.count) % b.capacity) (some item)
        count := b.count + 1
        length_items := by rw [List.length_set, b.length_items]
        count_le := h
        filled := fun i hi => by
          refine filled_set ((Nat.lt_succ_iff_lt_or_eq.mp hi).imp (b.filled i) fun heq => ?_)
          rw [heq, b.length_items]
          exact ⟨rfl, Nat.mod_lt _ (Nat.zero_lt_of_lt h)⟩ }, false)
  else
    ({ b with
        items := b.items.set b.head (some item)
        head := (b.head + 1) % b.capacity
        length_items := by rw [List.length_set, b.length_items]
        head_lt := (Nat.eq_zero_or_pos b.capacity).symm.imp (Nat.mod_lt _) id
        filled := fun i hi => by
          have hcount : b.count = b.capacity := Nat.le_antisymm b.count_le (Nat.le_of_not_lt h)
          have hhead := b.head_lt.resolve_right (by omega)
          rw [Nat.mod_add_mod, Nat.add_assoc]
          rcases Nat.lt_or_ge (1 + i) b.count with hlt | hge
          · exact filled_set (Or.inl (b.filled (1 + i) hlt))
          · -- the slot after the last is the one just written
            have hlast : 1 + i = b.capacity := by omega
            rw [hlast, Nat.add_mod_right, Nat.mod_eq_of_lt hhead]
            exact filled_set (Or.inr ⟨rfl, by rw [b.length_items]; exact hhead⟩) }, true)

/-- What is read at an index of the ring. -/
def slot (b : DropOldestBuffer α) (i : ℕ) : Option α :=
  (b.items[(b.head + i) % b.capacity]?).join

/-- The items, oldest first. -/
def contents (b : DropOldestBuffer α) : List α := (List.range b.count).filterMap b.slot

/-- `drain` -/
def drain (b : DropOldestBuffer α) : List α × DropOldestBuffer α := (b.contents, new b.capacity)

@[simp] theorem length_contents (b : DropOldestBuffer α) : b.contents.length = b.count := by
  unfold contents
  have hall : ∀ n ≤ b.count, ((List.range n).filterMap b.slot).length = n := by
    intro n
    induction n with
    | zero => intro _; rfl
    | succ n ih =>
        intro hle
        obtain ⟨x, hx⟩ := b.filled n hle
        have hslot : b.slot n = some x := by rw [slot, hx]; rfl
        rw [List.range_succ, List.filterMap_append, List.length_append, ih (Nat.le_of_succ_le hle)]
        simp [hslot]
  exact hall b.count (Nat.le_refl _)

/-- A push adds an item, or puts it in place of one. -/
theorem count_push (b : DropOldestBuffer α) (item : α) :
    (b.push item).1.count + (b.push item).2.toNat = b.count + 1 := by
  unfold push
  split
  · rfl
  · rfl

end DropOldestBuffer

/-! ## The recorder -/

structure CoverageCounters where
  droppedSnapshots : ℕ
  droppedDeviceEvents : ℕ
  statsErrors : ℕ
  statsOverlaps : ℕ
  permissionErrors : ℕ
  renderTimingUnpopulated : ℕ
  droppedCoverageNotes : ℕ
  deriving DecidableEq, Repr

/-- `zeroCounters` -/
def CoverageCounters.zero : CoverageCounters := ⟨0, 0, 0, 0, 0, 0, 0⟩

structure SignalAvailability where
  sampledStats : Bool
  audioInbound : Bool
  processingDelay : Bool
  playout : Bool
  renderTimingMissing : Bool
  deriving DecidableEq, Repr

/-- `zeroAvailability` -/
def SignalAvailability.zero : SignalAvailability := ⟨false, false, false, false, false⟩

/-- The recorder; `recorded` counts what it was ever given and decides nothing. -/
structure Recorder where
  captureVersion : ℕ
  sessionId : String
  snapshots : DropOldestBuffer String
  deviceEvents : DropOldestBuffer String
  counters : CoverageCounters
  availability : SignalAvailability
  pendingCoverage : List CaptureCoverage
  drainSequence : ℕ
  recorded : ℕ

def MAX_PENDING_COVERAGE : ℕ := 32

def CONTINUOUS_CAPTURE_VERSION : ℕ := 2

/-- What the browser shows the recorder. -/
inductive Observation where
  /-- A snapshot, and what its statistics say of the platform. -/
  | snapshot (text : String) (audioInbound processingDelay playout : Bool)
  | deviceEvent (text : String)
  | statsError
  | statsOverlap
  | permissionError
  | renderTimingUnpopulated
  | renderTimingMissing
  deriving DecidableEq, Repr

namespace Recorder

/-- `constructor` -/
def new (captureVersion : ℕ) (sessionId : String) (maxSnapshots maxDeviceEvents : ℕ) :
    Recorder where
  captureVersion
  sessionId
  snapshots := .new maxSnapshots
  deviceEvents := .new maxDeviceEvents
  counters := .zero
  availability := .zero
  pendingCoverage := []
  drainSequence := 0
  recorded := 0

/-- `pushSnapshot` -/
def pushSnapshot (r : Recorder) (snapshot : String) : Recorder :=
  let out := r.snapshots.push snapshot
  { r with
    snapshots := out.1
    counters := { r.counters with
      droppedSnapshots := r.counters.droppedSnapshots + out.2.toNat }
    recorded := r.recorded + 1 }

/-- `pushDeviceEvent` -/
def pushDeviceEvent (r : Recorder) (event : String) : Recorder :=
  let out := r.deviceEvents.push event
  { r with
    deviceEvents := out.1
    counters := { r.counters with
      droppedDeviceEvents := r.counters.droppedDeviceEvents + out.2.toNat }
    recorded := r.recorded + 1 }

/-- `noteStatsAvailability` -/
def noteStatsAvailability (r : Recorder) (audioInbound processingDelay playout : Bool) :
    Recorder :=
  { r with
    availability :=
      { sampledStats := true
        audioInbound := r.availability.audioInbound || audioInbound
        processingDelay := r.availability.processingDelay || processingDelay
        playout := r.availability.playout || playout
        renderTimingMissing := r.availability.renderTimingMissing } }

/-- One observation, or a failure to make one. -/
def observe (r : Recorder) : Observation → Recorder
  | .snapshot text audioInbound processingDelay playout =>
      (r.noteStatsAvailability audioInbound processingDelay playout).pushSnapshot text
  | .deviceEvent text => r.pushDeviceEvent text
  | .statsError =>
      { r with counters := { r.counters with statsErrors := r.counters.statsErrors + 1 } }
  | .statsOverlap =>
      { r with counters := { r.counters with statsOverlaps := r.counters.statsOverlaps + 1 } }
  | .permissionError =>
      { r with
        counters := { r.counters with permissionErrors := r.counters.permissionErrors + 1 } }
  | .renderTimingUnpopulated =>
      { r with
        counters := { r.counters with
          renderTimingUnpopulated := r.counters.renderTimingUnpopulated + 1 } }
  | .renderTimingMissing =>
      { r with availability := { r.availability with renderTimingMissing := true } }

/-- Two notes of one gap. -/
def sameGap (item note : CaptureCoverage) : Bool :=
  item.signal = note.signal && item.availability = note.availability &&
    item.reason = note.reason

/-- A note merged into the first one of its gap. -/
def mergeNote (note : CaptureCoverage) : List CaptureCoverage → List CaptureCoverage
  | [] => []
  | item :: notes =>
      if sameGap item note then
        (match note.droppedCount with
        | none => item
        | some count => { item with droppedCount := some (item.droppedCount.getD 0 + count) })
          :: notes
      else item :: mergeNote note notes

/-- `recordCoverage`; a note without a signal is refused. -/
def recordCoverage (r : Recorder) (note : CaptureCoverage) : Recorder :=
  if note.signal = "" then r
  else if r.pendingCoverage.any fun item => sameGap item note then
    { r with pendingCoverage := mergeNote note r.pendingCoverage }
  else if MAX_PENDING_COVERAGE ≤ r.pendingCoverage.length then
    { r with
      counters := { r.counters with
        droppedCoverageNotes := r.counters.droppedCoverageNotes + 1 } }
  else { r with pendingCoverage := r.pendingCoverage ++ [note] }

/-- A counter's note, once it has counted. -/
def counterNote (signal availability reason : String) (count : ℕ) : List CaptureCoverage :=
  if 0 < count then [⟨signal, availability, reason, some count⟩] else []

/-- `platformCoverage` -/
def platformCoverage (r : Recorder) : List CaptureCoverage :=
  (if r.availability.renderTimingMissing then
    [⟨"audio.render_timing", "not_observed", "getoutputtimestamp_unavailable", none⟩] else []) ++
  (if r.availability.audioInbound then
    ⟨"webrtc.audio_decode_time", "not_observed", "decode_time_is_video_only_in_w3c_stats", none⟩ ::
      (if !r.availability.processingDelay then
        [⟨"webrtc.processing_delay", "not_observed", "member_not_exposed", none⟩] else [])
    else []) ++
  (if r.availability.sampledStats && !r.availability.playout then
    [⟨"webrtc.playout", "not_observed", "media_playout_stat_not_exposed", none⟩] else [])

/-- `buildCoverage` -/
def buildCoverage (r : Recorder) : List CaptureCoverage :=
  counterNote "webrtc.snapshots" "partial" "buffer_overflow_oldest_dropped"
    r.counters.droppedSnapshots ++
  counterNote "device.events" "partial" "buffer_overflow_oldest_dropped"
    r.counters.droppedDeviceEvents ++
  counterNote "webrtc.getstats" "partial" "getstats_failed" r.counters.statsErrors ++
  counterNote "webrtc.getstats_overlap" "partial" "overlapping_sample_skipped"
    r.counters.statsOverlaps ++
  counterNote "device.permission_query" "not_observed" "permission_query_failed"
    r.counters.permissionErrors ++
  counterNote "audio.render_timing" "partial" "output_timestamp_unpopulated"
    r.counters.renderTimingUnpopulated ++
  counterNote "capture.coverage" "partial" "coverage_buffer_overflow"
    r.counters.droppedCoverageNotes ++
  r.platformCoverage ++ r.pendingCoverage

/-- `drain`, of a call that goes on. -/
def drain (r : Recorder) : Recorder × CapturePayload :=
  let continuous := r.captureVersion = CONTINUOUS_CAPTURE_VERSION
  let drainSequence := if continuous then r.drainSequence + 1 else r.drainSequence
  ({ r with
      snapshots := r.snapshots.drain.2
      deviceEvents := r.deviceEvents.drain.2
      counters := .zero
      availability := .zero
      pendingCoverage := []
      drainSequence },
    { captureVersion := r.captureVersion
      sessionId := r.sessionId
      snapshots := r.snapshots.drain.1
      deviceEvents := r.deviceEvents.drain.1
      coverage := r.buildCoverage
      drainSequence := if continuous then some drainSequence else none
      resync := none })

end Recorder

/-! ## Losses -/

/-- The gaps that are lost observations: a buffer that overflowed, and a payload
that was not delivered. -/
def LOSS_GAPS : List (String × String × String) :=
  [("webrtc.snapshots", "partial", "buffer_overflow_oldest_dropped"),
    ("device.events", "partial", "buffer_overflow_oldest_dropped"),
    ("capture.upload", "partial", QUEUE_OVERFLOW_REASON),
    ("capture.upload", "partial", UPLOAD_RESYNC_REASON)]

namespace CaptureCoverage

/-- It tells of lost observations. -/
def isLoss (note : CaptureCoverage) : Bool :=
  LOSS_GAPS.contains (note.signal, note.availability, note.reason)

/-- The observations it says are lost. -/
def lost (note : CaptureCoverage) : ℕ := if note.isLoss then note.droppedCount.getD 0 else 0

end CaptureCoverage

/-- The observations some notes say are lost. -/
def losses (notes : List CaptureCoverage) : ℕ := (notes.map (·.lost)).sum

@[simp] theorem losses_nil : losses [] = 0 := rfl

@[simp] theorem losses_cons (note : CaptureCoverage) (notes : List CaptureCoverage) :
    losses (note :: notes) = note.lost + losses notes := by
  rw [losses, List.map_cons, List.sum_cons]
  rfl

@[simp] theorem losses_append (notes notes' : List CaptureCoverage) :
    losses (notes ++ notes') = losses notes + losses notes' := by
  rw [losses, List.map_append, List.sum_append]
  rfl

/-- The observations a payload answers for. -/
def CapturePayload.weight (p : CapturePayload) : ℕ := p.observations + losses p.coverage

namespace Recorder

/-- The observations buffered. -/
def buffered (r : Recorder) : ℕ := r.snapshots.count + r.deviceEvents.count

/-- **What the recorder has of the observations.** -/
def owed (r : Recorder) : ℕ :=
  r.buffered + losses r.pendingCoverage + r.counters.droppedSnapshots +
    r.counters.droppedDeviceEvents

/-- What is recorded is owed. -/
theorem owed_observe (r : Recorder) (observation : Observation) :
    (r.observe observation).recorded + r.owed =
      r.recorded + (r.observe observation).owed := by
  cases observation with
  | snapshot text audioInbound processingDelay playout =>
      have h := r.snapshots.count_push text
      simp only [observe, noteStatsAvailability, pushSnapshot, owed, buffered]
      omega
  | deviceEvent text =>
      have h := r.deviceEvents.count_push text
      simp only [observe, pushDeviceEvent, owed, buffered]
      omega
  | _ => rfl

/-- Notes of one gap are losses alike. -/
theorem isLoss_of_sameGap {item note : CaptureCoverage} (h : sameGap item note = true) :
    item.isLoss = note.isLoss := by
  simp only [sameGap, Bool.and_eq_true, decide_eq_true_eq] at h
  rw [CaptureCoverage.isLoss, CaptureCoverage.isLoss, h.1.1, h.1.2, h.2]

/-- Merging adds what the note says is lost. -/
theorem losses_mergeNote (note : CaptureCoverage) : ∀ {notes : List CaptureCoverage},
    (notes.any fun item => sameGap item note) = true →
    losses (mergeNote note notes) = losses notes + note.lost := by
  intro notes
  induction notes with
  | nil => intro h; cases h
  | cons item notes ih =>
      intro h
      unfold mergeNote
      split
      · next hsame =>
        have hloss := isLoss_of_sameGap hsame
        rw [losses_cons, losses_cons]
        cases hcount : note.droppedCount with
        | none =>
            have hlost : note.lost = 0 := by simp [CaptureCoverage.lost, hcount]
            rw [hlost, Nat.add_zero]
        | some count =>
            have hmerged : CaptureCoverage.lost
                { item with droppedCount := some (item.droppedCount.getD 0 + count) } =
                  item.lost + note.lost := by
              simp only [CaptureCoverage.lost, hcount, Option.getD_some, ← hloss]
              split
              · next hitem =>
                have hitem : item.isLoss = true := hitem
                rw [if_pos hitem, if_pos hitem]
              · next hitem =>
                have hitem : ¬ item.isLoss = true := hitem
                rw [if_neg hitem, if_neg hitem]
            dsimp only
            rw [hmerged]
            omega
      · next hne =>
        rw [List.any_cons, Bool.or_eq_true] at h
        rw [losses_cons, losses_cons, ih (h.resolve_left hne), Nat.add_assoc]

theorem droppedNotes_le_recordCoverage (r : Recorder) (note : CaptureCoverage) :
    r.counters.droppedCoverageNotes ≤ (r.recordCoverage note).counters.droppedCoverageNotes := by
  unfold recordCoverage
  split
  · exact Nat.le_refl _
  · split
    · exact Nat.le_refl _
    · split
      · exact Nat.le_succ _
      · exact Nat.le_refl _

@[simp] theorem recorded_recordCoverage (r : Recorder) (note : CaptureCoverage) :
    (r.recordCoverage note).recorded = r.recorded := by
  unfold recordCoverage
  split
  · rfl
  · split
    · rfl
    · split <;> rfl

/-- **A note that finds room is owed.** -/
theorem owed_recordCoverage {r : Recorder} {note : CaptureCoverage}
    (h : (r.recordCoverage note).counters.droppedCoverageNotes = 0) :
    (r.recordCoverage note).owed = r.owed + note.lost := by
  unfold recordCoverage at h ⊢
  split
  · next hsignal =>
    have hlost : note.lost = 0 := by
      simp [CaptureCoverage.lost, CaptureCoverage.isLoss, LOSS_GAPS, hsignal]
    rw [hlost, Nat.add_zero]
  · next hsignal =>
    rw [if_neg hsignal] at h
    split
    · next hmerge =>
      simp only [owed, buffered, losses_mergeNote note hmerge]
      omega
    · next hnew =>
      rw [if_neg hnew] at h
      split
      · next hfull =>
        rw [if_pos hfull] at h
        exact absurd h (Nat.succ_ne_zero _)
      · simp only [owed, buffered, losses_append, losses_cons, losses_nil]
        omega

/-- **Notes that all find room are owed.** -/
theorem owed_foldl_recordCoverage : ∀ (notes : List CaptureCoverage) (r : Recorder),
    (notes.foldl recordCoverage r).counters.droppedCoverageNotes = 0 →
    (notes.foldl recordCoverage r).owed = r.owed + losses notes ∧
      (notes.foldl recordCoverage r).recorded = r.recorded ∧
      r.counters.droppedCoverageNotes = 0 := by
  intro notes
  induction notes with
  | nil => exact fun r h => ⟨rfl, rfl, h⟩
  | cons note notes ih =>
      intro r h
      obtain ⟨howed, hrecorded, hzero⟩ := ih (r.recordCoverage note) h
      refine ⟨?_, hrecorded.trans (recorded_recordCoverage r note),
        Nat.le_zero.mp (hzero ▸ droppedNotes_le_recordCoverage r note)⟩
      rw [List.foldl_cons, howed, owed_recordCoverage hzero, losses_cons, Nat.add_assoc]

/-! ### Draining -/

theorem losses_counterNote (signal availability reason : String) (count : ℕ) :
    losses (counterNote signal availability reason count) =
      if LOSS_GAPS.contains (signal, availability, reason) then count else 0 := by
  unfold counterNote
  split
  · rw [losses_cons, losses_nil, Nat.add_zero]
    rfl
  · next hzero =>
    rw [Nat.eq_zero_of_not_pos hzero, ite_self]
    rfl

theorem losses_platformCoverage (r : Recorder) : losses r.platformCoverage = 0 := by
  unfold platformCoverage
  rw [losses_append, losses_append]
  cases r.availability.renderTimingMissing <;> cases r.availability.audioInbound <;>
    cases r.availability.processingDelay <;>
    cases r.availability.sampledStats && !r.availability.playout <;> decide

/-- What a drain's notes say is lost. -/
theorem losses_buildCoverage (r : Recorder) :
    losses r.buildCoverage = losses r.pendingCoverage + r.counters.droppedSnapshots +
      r.counters.droppedDeviceEvents := by
  unfold buildCoverage
  simp only [losses_append, losses_counterNote, losses_platformCoverage]
  rw [if_pos (by decide), if_pos (by decide), if_neg (by decide), if_neg (by decide),
    if_neg (by decide), if_neg (by decide), if_neg (by decide)]
  omega

/-- **A drain takes all that is owed.** -/
theorem weight_drain (r : Recorder) : r.drain.2.weight = r.owed := by
  have hobservations : r.drain.2.observations = r.buffered := by
    simp only [drain, CapturePayload.observations, DropOldestBuffer.drain,
      DropOldestBuffer.length_contents, buffered]
  rw [CapturePayload.weight, hobservations, show r.drain.2.coverage = r.buildCoverage from rfl,
    losses_buildCoverage, owed]
  omega

theorem owed_drain (r : Recorder) : r.drain.1.owed = 0 := rfl

end Recorder

end Earshot.Client
