import Earshot.Browser.Ledger
import Earshot.Common.Run
/-!
# Runs of accepted drains

What a browser call is for: drains are accepted one after the other, each
wholly, and the process may restart between any two. A drain that is
refused, or answered as a replay, changes nothing here. After a restart the
call is rebuilt from what it journaled and from its ledger, which may hold
the fence of a drain that was interrupted.
-/

namespace Earshot

variable {Carry : Type}

/-- A drain a call accepted: the call as the drain found it, and the entries
it journaled. -/
structure Accepted (Carry : Type) where
  before : CaptureCall Carry
  drain : CaptureDrain
  decision : Decision
  entries : List JournalEntry
  /-- How many times the process had restarted. -/
  restarts : ℕ

/-- The drains a decision declares lost. -/
def Accepted.lost (a : Accepted Carry) : List ℕ :=
  match a.decision with
  | .applyGap resync =>
      List.range' (max resync.missedFrom (a.before.applied + 1))
        (CaptureCall.lostDrains a.before.applied resync)
  | .apply | .replay => []

/-- What its deltas were taken from. -/
def Accepted.carryIn (C : CaptureConfig Carry) (a : Accepted Carry) : Option Carry :=
  (a.before.atFacts C a.drain a.decision).carry

/-- What it left for the next drain's. -/
def Accepted.carryOut (C : CaptureConfig Carry) (a : Accepted Carry) : Option Carry :=
  (C.applyWebrtcStats (a.carryIn C) a.drain.snapshots).carry

structure CallRun (Carry : Type) where
  call : CaptureCall Carry
  accepted : List (Accepted Carry)
  restarts : ℕ

inductive CallOp where
  | drain (drain : CaptureDrain)
  /-- The call is next rebuilt for this drain, with this fence. -/
  | restart (drain : CaptureDrain) (retry : Option DrainIdentity)

/-- Sealing assembles a journal's bytes, without best effort. -/
def CaptureConfig.seal (C : CaptureConfig Carry) (bytes : Bytes) :
    Except AssemblyError AssemblyResult :=
  match C.codec.read bytes with
  | none => .error .trailingBytes
  | some entries => assembleIncident entries 0 false

namespace CallRun

/-- What the call journaled. -/
def entries (s : CallRun Carry) : List JournalEntry := s.accepted.flatMap (·.entries)

variable (C : CaptureConfig Carry)

/-- Before its first drain. -/
def opened (drain : CaptureDrain) : CallRun Carry := ⟨.fresh C drain true, [], 0⟩

/-- The journal of what was accepted, framed. -/
def journal (s : CallRun Carry) : Option Bytes := framesFrom C.codec.encodeFrame 1 s.entries

/-- The registry takes what the drain journals: its entries, their frames,
and a journal grown by them. -/
def takes (s : CallRun Carry) (entries : List JournalEntry) : Bool :=
  C.preflightEntries s.accepted.isEmpty entries &&
    match C.frameEntries (s.entries.length + 1) entries, s.journal C with
    | .ok frames, some journal => journal.length + frames.length ≤ C.maxCaptureJournalBytes
    | _, _ => false

/-- A drain that is sequenced next, recorded, and taken. -/
def accept (s : CallRun Carry) (drain : CaptureDrain) : Option (CallRun Carry) :=
  match s.call.classify C drain with
  | .error _ | .ok .replay => none
  | .ok decision =>
      if s.call.finalized then none
      else
        match s.call.project C drain decision with
        | (false, _) => none
        | (true, call) =>
            let (entries, call) := call.settle drain (s.call.identityOf C drain)
            if s.takes C entries then
              let through := s.entries.length + entries.length
              let records := if s.accepted = [] then entries.length - 1 else entries.length
              some
                { s with
                  call := call.rememberOutcome drain (drain.outcome through records)
                  accepted := s.accepted ++ [⟨s.call, drain, decision, entries, s.restarts⟩] }
            else none

/-- The call as it is rebuilt; a call that has accepted nothing is made
again. -/
def restart (s : CallRun Carry) (drain : CaptureDrain) (retry : Option DrainIdentity) :
    Option (CallRun Carry) :=
  if retry.any (fun r => r.sequence ≤ s.call.applied || s.call.finalized) then none
  else if s.accepted = [] then
    some { s with
      call := { CaptureCall.fresh C drain true with retry := retry }
      restarts := s.restarts + 1 }
  else if drain.callMetadataDigest C.hash = s.call.callMetadataDigest then
    some { s with
      call := .rebuild C drain { s.call.ledger with retry := retry } s.entries
        (closeObserved s.entries)
      restarts := s.restarts + 1 }
  else none

def step (s : CallRun Carry) : CallOp → Option (CallRun Carry)
  | .drain drain => s.accept C drain
  | .restart drain retry => s.restart C drain retry

/-- A state some run of a call reaches. -/
def Reached (s : CallRun Carry) : Prop :=
  ∃ drain ops, s = Transition.run (step C) (opened C drain) ops

end CallRun

/-! ## A small configuration -/

/-- Frames that name their entry by its place in a table. -/
def tableCodec (table : List JournalEntry) : FrameCodec where
  encodeFrame := fun _ entry =>
    if table.idxOf entry < min table.length 256 then some [.ofNat (table.idxOf entry)] else none
  read := fun bytes => bytes.mapM fun byte => table[byte.toNat]?
  frame_ne_nil := by
    intro _ entry h
    split at h <;> cases h
  read_frames := by
    intro entries bytes hhead hframes
    clear hhead
    generalize (1 : ℕ) = sequence at hframes
    induction entries generalizing sequence bytes with
    | nil =>
        cases hframes
        rfl
    | cons entry entries ih =>
        obtain ⟨frame, hframe, hrest⟩ := Option.bind_eq_some_iff.mp hframes
        obtain ⟨rest, htail, rfl⟩ := Option.map_eq_some_iff.mp hrest
        dsimp only at hframe
        split at hframe
        · next hlt =>
          cases hframe
          obtain ⟨hlength, hbyte⟩ := lt_min_iff.mp hlt
          have hnat : (UInt8.ofNat (table.idxOf entry)).toNat = table.idxOf entry :=
            UInt8.toNat_ofNat_of_lt' hbyte
          have hentry : table[table.idxOf entry]? = some entry := by
            rw [List.getElem?_eq_getElem hlength, List.getElem_idxOf]
          rw [List.singleton_append, List.mapM_cons, hnat, hentry, ih rest _ htail]
          rfl
        · cases hframe

/-- Its engines derive one event of each device event, and carry the last
snapshot. -/
def smallCapture (table : List JournalEntry) : CaptureConfig Sample where
  durable := true
  hash :=
    { metadata := fun traceId _ _ => traceId.getD ""
      content := fun content => String.ofList (List.replicate content.snapshots.length 's') }
  recorder :=
    { maxRecords := 64
      maxCaptureBytes := 64
      adapterSize := 1
      coverageSize := fun _ => 1
      factSize := fun _ => 1
      takes := fun draft => draft.name ≠ "refused" }
  codec := tableCodec table
  applyWebrtcStats := fun carry snapshots => ⟨⟨[], []⟩, (snapshots.getLast?).or carry⟩
  applyAudioGraph := fun events =>
    ⟨[], events.map fun event => ⟨.event, event.body, none, event.body, 0, []⟩⟩
  governed := fun _ => true
  maxPerProject := 8
  maxJournalRecords := 64
  maxJournalRecords_pos := by decide
  maxCaptureJournalBytes := 64

/-- A drain of device events, with what it gave up on and how it ended. -/
def smallDrain (sequence : ℕ) (events : List String) (resync : Option ResyncClaim)
    (ending : Option CaptureEnd) : CaptureDrain where
  traceId := none
  spanId := none
  clockUncertaintyMs := 0
  drainSequence := sequence
  snapshots := []
  deviceEvents := events.map fun body => ⟨none, body⟩
  coverage := []
  rejectionCoverage := []
  resync := resync
  ending := ending

end Earshot
