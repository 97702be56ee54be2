import Earshot.Calls.Closer
/-!
# Purging calls

A purge deletes a call and every row of its evidence, moves its key to the
next generation, and leaves a tombstone for the key and one for each of
the call's traces; expired tombstones are collected later. The incidents
of its revisions and its blobs are outside the model.
-/

namespace Earshot

open Relational

/-- 24 hours. -/
def TOMBSTONE_GRACE_NANO : ℕ := 24 * 3600 * SECOND

namespace Catalog

/-- The traces bound to a call. -/
def tracesOf (c : Catalog) (k : CallKey) : List TraceId :=
  (c.callTraces.rows.filter fun r => r.projectId = k.1 && r.callId = some k.2).map (·.traceId)

/-- `delete_calls`, for one call: spans, traces, recordings, revisions, the
call, then the resources no span names any more. -/
def deleteCall (c : Catalog) (k : CallKey) : Catalog :=
  let digests := (c.callSpans k).map (·.resourceDigest)
  { c with
    spans := c.spans.delete fun s => c.bound k s.traceKey
    callTraces := c.callTraces.delete fun r => r.projectId = k.1 && r.callId = some k.2
    recordings := c.recordings.delete (·.callKey = k)
    callRevisions := c.callRevisions.delete (·.callKey = k)
    calls := c.calls.delete (·.key = k) }.deleteUnreferencedResources k.1 digests

/-- The key's next call is a new call: its generation moves on. -/
def bumpGeneration (c : Catalog) (p : ProjectId) (fingerprint : String) (generation : ℕ) :
    Catalog :=
  { c with
    callKeyGenerations :=
      if (c.callKeyGenerations.find? (p, fingerprint)).isSome then
        c.callKeyGenerations.patch
          (fun r => if r.key = (p, fingerprint) then { r with generation := r.generation + 1 } else r)
          fun r => by split <;> rfl
      else c.callKeyGenerations.insert ⟨p, fingerprint, generation + 1⟩ }

/-- One tombstone, renewed when it is there already. -/
def putTombstone (c : Catalog) (row : CallTombstone) : Catalog :=
  { c with
    callTombstones :=
      if (c.callTombstones.find? row.key).isSome then
        c.callTombstones.patch
          (fun r => if r.key = row.key then { r with expiresAtUnixNano := row.expiresAtUnixNano }
            else r)
          fun r => by split <;> rfl
      else c.callTombstones.insert row }

/-- The tombstones a purge leaves, key first. -/
def purgeTombstones (S : CallStore) (c : Catalog) (r : Call) (expires : UnixNano) :
    List CallTombstone :=
  ⟨r.projectId, r.keyFingerprint, r.generation, expires⟩ ::
    (c.tracesOf r.key).map fun t => ⟨r.projectId, S.traceKeyFingerprint r.projectId t, 0, expires⟩

/-- `_purge_locked`; a call that does not exist is not found. -/
def purgeCall (S : CallStore) (c : Catalog) (k : CallKey) (now : UnixNano) : Option Catalog := do
  let r ← c.calls.find? k
  let expires := now + S.timings.longQuietNano + TOMBSTONE_GRACE_NANO
  return (c.purgeTombstones S r expires).foldl putTombstone
    ((c.deleteCall k).bumpGeneration r.projectId r.keyFingerprint r.generation)

/-- `collect_expired_tombstones`: up to `limit` that expired by `now`. -/
def collectExpiredTombstones (c : Catalog) (now : UnixNano) (limit : ℕ) : Catalog :=
  let expired := ((c.callTombstones.rows.filter fun r => r.expiresAtUnixNano ≤ now).insertionSort
    fun a b => a.expiresAtUnixNano ≤ b.expiresAtUnixNano).take limit
  { c with
    callTombstones := c.callTombstones.delete fun r =>
      r.expiresAtUnixNano ≤ now && (expired.map (·.key)).contains r.key }

end Catalog

end Earshot
