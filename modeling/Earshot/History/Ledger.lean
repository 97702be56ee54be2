import Earshot.History.View
/-!
# Every call's ledger

Each operation of the system is one step of the ledger of every call it
does not purge (`ledger_step`): evidence arrives, a claim takes a snapshot
and marks, a finish stores a revision or discards an empty snapshot, a
failure gives the revision up. So a call's ledger is sound after every run
that does not purge the call (`tracked_worldAfter`), and the stored
revisions are the claims that settled as one.
-/

namespace Earshot

open Relational Snapshots

/-! ## Snapshots of claims -/

namespace CallClaim

variable {claim : CallClaim}

/-- A claim, as the snapshot it took. -/
def snapshot (claim : CallClaim) : Snapshot Item where
  revision := claim.revision
  token := claim.leaseToken
  final := claim.final
  first := claim.closeReason == .endSignal
  items := fun
    | .span t x => (t, x) ∈ claim.spanKeys
    | .recording r => r ∈ claim.recordings

theorem span_mem_snapshot {t : TraceId} {x : SpanId} :
    Item.span t x ∈ claim.snapshot.items ↔ (t, x) ∈ claim.spanKeys := Iff.rfl

theorem recording_mem_snapshot {r : Recording} :
    Item.recording r ∈ claim.snapshot.items ↔ r ∈ claim.recordings := Iff.rfl

/-- `materialize` builds no revision from an empty snapshot. -/
theorem isEmpty_iff : claim.isEmpty = true ↔ claim.snapshot.items = ∅ := by
  rw [isEmpty, Bool.and_eq_true, List.isEmpty_iff, List.isEmpty_iff, Set.eq_empty_iff_forall_notMem]
  constructor
  · rintro ⟨hspans, hrecordings⟩ (⟨t, x⟩ | r)
    · rw [span_mem_snapshot, hspans]
      exact List.not_mem_nil
    · rw [recording_mem_snapshot, hrecordings]
      exact List.not_mem_nil
  · intro hall
    exact ⟨List.eq_nil_iff_forall_not_mem.mpr fun ⟨t, x⟩ => hall (.span t x),
      List.eq_nil_iff_forall_not_mem.mpr fun r => hall (.recording r)⟩

end CallClaim

/-! ## The ledger -/

/-- The ledger of one call. -/
def World.ledger (w : World) (k : CallKey) : Ledger Item where
  held := w.catalog.Holds k
  urgent := w.catalog.Urgent k
  dirty := (w.catalog.head k).dirty
  latest := (w.catalog.head k).latest
  pending := (w.catalog.head k).pending
  token := (w.catalog.head k).token
  ended := (w.catalog.head k).ended
  stored := {s | ∃ claim, (claim, .revision) ∈ w.settled ∧ claim.key = k ∧ claim.snapshot = s}
  issued := {s | ∃ claim ∈ w.claims, claim.key = k ∧ claim.snapshot = s}
  settled := (w.settled.filter (·.1.key = k)).map (·.1.leaseToken)

/-- The stored revisions of a call are its claims that settled as one. -/
structure World.Revises (w : World) (k : CallKey) : Prop where
  settled : ∀ v ∈ w.catalog.callRevisions, v.callKey = k →
    ∃ claim now, (claim, .revision) ∈ w.settled ∧ v = Catalog.revisionRow claim now
  stored : ∀ claim, (claim, .revision) ∈ w.settled → claim.key = k →
    ∃ now, Catalog.revisionRow claim now ∈ w.catalog.callRevisions

/-- **What the past of a call comes to**: its revisions are settled claims,
and its ledger is sound. -/
structure Tracked (w : World) (k : CallKey) : Prop where
  linked : w.catalog.Linked
  settled_mem : ∀ x ∈ w.settled, x.1 ∈ w.claims
  revises : w.Revises k
  sound : (w.ledger k).Sound REVISION_CAP

namespace Catalog

variable {S : CallStore} {c c' d : Catalog} {k : CallKey} {now : UnixNano}

/-! ## Operations that bring nothing -/

/-- Same calls, but for columns the closers do not decide by. -/
theorem brings_onlyCalls (h : OnlyCalls c c') (hhead : (c.head k).Arrives (c'.head k)) :
    Brings c c' k :=
  .of_tables h.spans h.callTraces h.recordings hhead

theorem brings_bumpCounter {p : ProjectId} {name : OtlpCounterName} {n : ℕ} :
    Brings c (c.bumpCounter p name n) k := by
  have hcalls : (c.bumpCounter p name n).calls.find? k = c.calls.find? k := by
    rw [calls_bumpCounter]
  exact brings_onlyCalls (onlyCalls_bumpCounter _ _ _) (head_congr hcalls ▸ .refl _)

theorem head_aside (h : Aside c d) : d.head k = c.head k := by
  rcases h.calls k with hk | hk
  · exact head_congr hk
  · rw [head, hk, head]
    cases c.calls.find? k <;> rfl

theorem brings_aside (h : Aside c d) : Brings c d k :=
  brings_onlyCalls h.onlyCalls (head_aside h ▸ .refl _)

theorem head_updateCall_of_ne {k' : CallKey} (f : Call → Call) (hf : ∀ r, (f r).key = r.key)
    (h : k ≠ k') : (c.updateCall k' f hf).head k = c.head k :=
  head_congr (find?_updateCall_of_ne f hf h)

theorem brings_updateCall_of_ne {k' : CallKey} (f : Call → Call) (hf : ∀ r, (f r).key = r.key)
    (h : k ≠ k') : Brings c (c.updateCall k' f hf) k :=
  brings_onlyCalls (onlyCalls_updateCall _ _) (head_updateCall_of_ne f hf h ▸ .refl _)

theorem brings_releaseLeases : Brings c c.releaseLeases k := by
  have hhead : c.releaseLeases.head k = c.head k := by
    rw [head, releaseLeases, Table.find?_patch, head]
    cases c.calls.find? k <;> rfl
  exact .of_tables rfl rfl rfl (hhead ▸ .refl _)

theorem brings_finished_of_ne {claim : CallClaim} (h : k ≠ claim.key) :
    Brings c (c.finished claim now) k := by
  have hnote : OnlyCalls { c.updateCall claim.key (Call.close (some claim.revision))
      (Call.close_key _) with callRevisions := c.callRevisions.insert (revisionRow claim now) }
      (c.finished claim now) :=
    onlyCalls_noteEvidencePastCap.trans (onlyCalls_updateCall _ _)
  exact .of_tables hnote.spans hnote.callTraces hnote.recordings
    (head_congr (find?_calls_finished_of_ne h) ▸ .refl _)

/-- A claim of another call marks nothing of this one. -/
theorem brings_claimed_of_ne {r : Call} (h : k ≠ r.key) : Brings c (c.claimed r now) k := by
  have hspan : ∀ s : Span, s.projectId = k.1 ∧ c.binding s.traceKey = some k.2 →
      c.markSpan r.key r.nextRevision s = s := by
    rintro s ⟨hp, hb⟩
    rw [markSpan, if_neg]
    rintro ⟨-, hbound⟩
    obtain ⟨hp', hb'⟩ := bound_iff.mp hbound
    exact h (Prod.ext (hp.symm.trans hp') (Option.some.inj (hb.symm.trans hb')))
  have hrec : ∀ x : RecordingRow, x.callKey = k → markRecording r.key r.nextRevision x = x := by
    intro x hx
    rw [markRecording, if_neg]
    rintro ⟨hx', -⟩
    exact h (hx.symm.trans hx')
  have hcall : ∀ s, s ∈ (c.claimed r now).callSpans k ↔ s ∈ c.callSpans k := by
    intro s
    rw [mem_callSpans, mem_callSpans, mem_spans_claimed]
    constructor
    · rintro ⟨⟨s₀, hs₀, rfl⟩, hp, hb⟩
      obtain ⟨hkey, -, -, -, hpid⟩ := markSpan_columns (c := c) r.key r.nextRevision s₀
      rw [hpid] at hp
      rw [hkey] at hb
      rw [hspan s₀ ⟨hp, hb⟩]
      exact ⟨hs₀, hp, hb⟩
    · rintro ⟨hs, hp, hb⟩
      exact ⟨⟨s, hs, hspan s ⟨hp, hb⟩⟩, hp, hb⟩
  refine .of_rows (fun s hs => (hcall s).mpr hs) (fun s hs hno => absurd ((hcall s).mp hs) hno)
    ?_ ?_ (head_congr (find?_calls_claimed_of_ne h) ▸ .refl _)
  · intro x hx hk _
    exact mem_recordings_claimed.mpr ⟨x, hx, hrec x hk⟩
  · intro x hx hk _
    obtain ⟨x₀, hx₀, rfl⟩ := mem_recordings_claimed.mp hx
    have hk₀ : x₀.callKey = k := by
      rw [← hk, RecordingRow.callKey, RecordingRow.callKey, markRecording_columns]
    rw [hrec x₀ hk₀]
    exact Or.inl hx₀

/-- A purge of another call leaves this one alone. -/
theorem brings_deleteCall_of_ne {k' : CallKey} (h : k' ≠ k) : Brings c (c.deleteCall k') k := by
  have hfree : ∀ s : Span, s.projectId = k.1 → c.binding s.traceKey = some k.2 →
      c.bound k' s.traceKey = false := by
    intro s hp hb
    by_contra hbound
    obtain ⟨hp', hb'⟩ := bound_iff.mp (Bool.eq_true_of_not_eq_false hbound)
    exact h (Prod.ext (hp'.symm.trans hp) (Option.some.inj (hb'.symm.trans hb)))
  have hcall : ∀ s, s ∈ (c.deleteCall k').callSpans k ↔ s ∈ c.callSpans k := by
    intro s
    rw [mem_callSpans, mem_callSpans, mem_spans_deleteCall, binding, find?_callTraces_deleteCall]
    constructor
    · rintro ⟨⟨hs, hno⟩, hp, hb⟩
      rw [if_neg (by rw [hno]; exact Bool.false_ne_true)] at hb
      exact ⟨hs, hp, hb⟩
    · rintro ⟨hs, hp, hb⟩
      have hno := hfree s hp hb
      refine ⟨⟨hs, hno⟩, hp, ?_⟩
      rw [if_neg (by rw [hno]; exact Bool.false_ne_true)]
      exact hb
  have hhead : (c.deleteCall k').calls.find? k = c.calls.find? k := by
    rw [find?_calls_deleteCall, if_neg h.symm]
  refine .of_rows (fun s hs => (hcall s).mpr hs) (fun s hs hno => absurd ((hcall s).mp hs) hno)
    ?_ ?_ (head_congr hhead ▸ .refl _)
  · intro x hx hk _
    exact mem_recordings_deleteCall.mpr ⟨hx, fun hx' => h (hx'.symm.trans hk)⟩
  · intro x hx _ _
    exact Or.inl (mem_recordings_deleteCall.mp hx).1

theorem brings_onlyKeys (h : OnlyKeys c c') : Brings c c' k :=
  .of_tables h.spans h.callTraces h.recordings
    (head_congr (congrArg (·.find? k) h.calls) ▸ .refl _)

/-! ## Marks and snapshots -/

theorem holds_congr (hspans : c'.spans = c.spans) (htraces : c'.callTraces = c.callTraces)
    (hrecordings : c'.recordings = c.recordings) : c'.Holds k = c.Holds k := by
  have hcall : c'.callSpans k = c.callSpans k := by
    rw [callSpans, callSpans, hspans]
    exact List.filter_congr fun s _ => bound_congr htraces k s.traceKey
  funext e m
  cases e with
  | span t x => rw [Holds, Holds, hcall]
  | recording r => rw [Holds, Holds, hrecordings]

theorem urgent_congr (hspans : c'.spans = c.spans) (htraces : c'.callTraces = c.callTraces) :
    c'.Urgent k = c.Urgent k := by
  have hcall : c'.callSpans k = c.callSpans k := by
    rw [callSpans, callSpans, hspans]
    exact List.filter_congr fun s _ => bound_congr htraces k s.traceKey
  funext e
  cases e with
  | span t x => rw [Urgent, Urgent, hcall]
  | recording r => rfl

theorem mem_callSpans_claimed {r : Call} {s : Span} :
    s ∈ (c.claimed r now).callSpans r.key ↔
      ∃ s₀ ∈ c.callSpans r.key, { s₀ with
        firstRevision := some (s₀.firstRevision.getD r.nextRevision) } = s := by
  have hmark : ∀ s₀ ∈ c.callSpans r.key, c.markSpan r.key r.nextRevision s₀ =
      { s₀ with firstRevision := some (s₀.firstRevision.getD r.nextRevision) } := by
    intro s₀ hs₀
    obtain ⟨-, hp, hb⟩ := mem_callSpans.mp hs₀
    rw [markSpan]
    split
    · rename_i hnone
      rw [hnone.1, Option.getD_none]
    · rename_i hno
      cases hr : s₀.firstRevision with
      | none => exact absurd ⟨hr, bound_iff.mpr ⟨hp, hb⟩⟩ hno
      | some n => rw [Option.getD_some, ← hr]
  rw [mem_callSpans, mem_spans_claimed]
  constructor
  · rintro ⟨⟨s₀, hs₀, rfl⟩, hp, hb⟩
    obtain ⟨hkey, -, -, -, hpid⟩ := markSpan_columns (c := c) r.key r.nextRevision s₀
    rw [hpid] at hp
    rw [hkey] at hb
    have hmem : s₀ ∈ c.callSpans r.key := mem_callSpans.mpr ⟨hs₀, hp, hb⟩
    exact ⟨s₀, hmem, (hmark s₀ hmem).symm⟩
  · rintro ⟨s₀, hmem, rfl⟩
    obtain ⟨hs₀, hp, hb⟩ := mem_callSpans.mp hmem
    exact ⟨⟨s₀, hs₀, hmark s₀ hmem⟩, hp, hb⟩

/-- **A claim marks what no revision held.** -/
theorem holds_claimed {r : Call} (e : Item) (m : Option ℕ) :
    (c.claimed r now).Holds r.key e m ↔
      ∃ m₀, c.Holds r.key e m₀ ∧ m = some (m₀.getD r.nextRevision) := by
  cases e with
  | span t x =>
      constructor
      · rintro ⟨s, hs, ht, hx, rfl⟩
        obtain ⟨s₀, hs₀, rfl⟩ := mem_callSpans_claimed.mp hs
        exact ⟨_, ⟨s₀, hs₀, ht, hx, rfl⟩, rfl⟩
      · rintro ⟨m₀, ⟨s₀, hs₀, ht, hx, rfl⟩, rfl⟩
        exact ⟨_, mem_callSpans_claimed.mpr ⟨s₀, hs₀, rfl⟩, ht, hx, rfl⟩
  | recording rec =>
      have hmark : ∀ x₀ : RecordingRow, x₀.callKey = r.key → x₀.state = .stored →
          (markRecording r.key r.nextRevision x₀).firstRevision =
            some (x₀.firstRevision.getD r.nextRevision) := by
        intro x₀ hk hst
        rw [markRecording]
        split
        · rename_i hnone
          rw [hnone.2.2, Option.getD_none]
        · rename_i hno
          cases hr : x₀.firstRevision with
          | none => exact absurd ⟨hk, hst, hr⟩ hno
          | some n => rfl
      constructor
      · rintro ⟨x, hx, hk, hst, rfl, rfl⟩
        obtain ⟨x₀, hx₀, rfl⟩ := mem_recordings_claimed.mp hx
        rw [RecordingRow.callKey, markRecording_columns] at hk
        rw [markRecording_columns] at hst
        exact ⟨_, ⟨x₀, hx₀, hk, hst, (markRecording_columns _ _ _).symm, rfl⟩, hmark x₀ hk hst⟩
      · rintro ⟨m₀, ⟨x₀, hx₀, hk, hst, rfl, rfl⟩, rfl⟩
        refine ⟨_, mem_recordings_claimed.mpr ⟨x₀, hx₀, rfl⟩, ?_, ?_, markRecording_columns _ _ _,
          hmark x₀ hk hst⟩
        · rw [RecordingRow.callKey, markRecording_columns]
          exact hk
        · rw [markRecording_columns]
          exact hst

theorem urgent_claimed {r : Call} : (c.claimed r now).Urgent r.key = c.Urgent r.key := by
  funext e
  cases e with
  | span t x =>
      refine propext ⟨?_, ?_⟩
      · rintro ⟨s, hs, ht, hx, htail⟩
        obtain ⟨s₀, hs₀, rfl⟩ := mem_callSpans_claimed.mp hs
        exact ⟨s₀, hs₀, ht, hx, htail⟩
      · rintro ⟨s₀, hs₀, ht, hx, htail⟩
        exact ⟨_, mem_callSpans_claimed.mpr ⟨s₀, hs₀, rfl⟩, ht, hx, htail⟩
  | recording rec => rfl

theorem mem_snapshotKeys {t : TraceId} {x : SpanId} : (t, x) ∈ c.snapshotKeys k ↔
    ∃ s ∈ c.callSpans k, s.traceId = t ∧ s.spanId = x := by
  simp only [snapshotKeys, List.mem_insertionSort, List.mem_map, Prod.mk.injEq]

theorem mem_storedForCall {r : Recording} : r ∈ c.storedForCall k ↔
    ∃ row ∈ c.recordings, row.callKey = k ∧ row.state = .stored ∧ row.toRecording = r := by
  simp only [storedForCall, List.mem_insertionSort, List.mem_map, List.mem_filter,
    Bool.and_eq_true, decide_eq_true_eq, Table.mem_def, and_assoc]

/-- A claim's snapshot is everything the call holds. -/
theorem mem_snapshot_claimOf {r : Call} {preset : CapturePreset} (e : Item) :
    e ∈ (c.claimOf r preset).snapshot.items ↔ ∃ m, c.Holds r.key e m := by
  cases e with
  | span t x =>
      rw [CallClaim.span_mem_snapshot]
      change (t, x) ∈ c.snapshotKeys r.key ↔ _
      rw [mem_snapshotKeys]
      constructor
      · rintro ⟨s, hs, ht, hx⟩
        exact ⟨_, s, hs, ht, hx, rfl⟩
      · rintro ⟨_, s, hs, ht, hx, -⟩
        exact ⟨s, hs, ht, hx⟩
  | recording rec =>
      rw [CallClaim.recording_mem_snapshot]
      change rec ∈ c.storedForCall r.key ↔ _
      rw [mem_storedForCall]
      constructor
      · rintro ⟨x, hx, hk, hst, hrec⟩
        exact ⟨_, x, hx, hk, hst, hrec, rfl⟩
      · rintro ⟨_, x, hx, hk, hst, hrec, -⟩
        exact ⟨x, hx, hk, hst, hrec⟩

theorem closeReason_eq_endSignal {r : Call} : c.closeReason r = .endSignal ↔
    r.endSignalUnixNano.isSome = true ∧ c.hasFinal r.key = false := by
  rw [closeReason]
  cases r.endSignalUnixNano.isSome <;> cases c.hasFinal r.key <;>
    cases r.latestRevision.isSome <;> simp

theorem finality_revisionRow {claim : CallClaim} :
    (revisionRow claim now).finality = .final ↔ claim.final = true := by
  change (if claim.final then Finality.final else .provisional) = .final ↔ _
  cases claim.final <;> simp

end Catalog

/-! ## Steps -/

variable {S : CallStore} {w w' : World} {k : CallKey}

theorem stored_congr (h : w'.settled = w.settled) :
    (w'.ledger k).stored = (w.ledger k).stored := by
  rw [World.ledger, World.ledger, h]

theorem settled_congr (h : w'.settled = w.settled) :
    (w'.ledger k).settled = (w.ledger k).settled := by
  rw [World.ledger, World.ledger, h]

theorem issued_congr (h : w'.claims = w.claims) :
    (w'.ledger k).issued = (w.ledger k).issued := by
  rw [World.ledger, World.ledger, h]

/-- Evidence that arrives at the call is an arrival at its ledger. -/
theorem step_of_brings (hb : Catalog.Brings w.catalog w'.catalog k)
    (hstored : (w'.ledger k).stored = (w.ledger k).stored)
    (hissued : (w'.ledger k).issued = (w.ledger k).issued)
    (hsettled : (w'.ledger k).settled = (w.ledger k).settled) :
    Ledger.Step REVISION_CAP (w.ledger k) (w'.ledger k) := by
  refine .arrive {e | w'.catalog.Holds k e none ∧ ¬ w.catalog.Holds k e none} ?_
  refine ⟨?_, hb.urgent, hb.head.dirty, ?_, hb.head.latest, hb.head.pending, hb.head.token,
    hb.head.ended, hstored, hissued, hsettled⟩
  · intro e m
    constructor
    · intro hm
      cases m with
      | none =>
          by_cases hold : w.catalog.Holds k e none
          · exact Or.inl hold
          · exact Or.inr ⟨⟨hm, hold⟩, rfl⟩
      | some r => exact Or.inl (hb.marked e r hm)
    · rintro (hold | ⟨hnew, rfl⟩)
      · exact hb.keeps e m hold
      · exact hnew.1
  · rintro e ⟨hnone, hnew⟩ hurgent
    exact hb.noted e hnone hnew hurgent

/-- Evidence that arrives while no claim is made or settled. -/
theorem step_of_brings_past (hb : Catalog.Brings w.catalog w'.catalog k)
    (hclaims : w'.claims = w.claims) (hsettled : w'.settled = w.settled) :
    Ledger.Step REVISION_CAP (w.ledger k) (w'.ledger k) :=
  step_of_brings hb (stored_congr hsettled) (issued_congr hclaims) (settled_congr hsettled)

theorem World.Revises.congr (h : w.Revises k)
    (hrows : ∀ v, v.callKey = k → (v ∈ w'.catalog.callRevisions ↔ v ∈ w.catalog.callRevisions))
    (hsettled : ∀ claim, (claim, .revision) ∈ w'.settled ↔ (claim, .revision) ∈ w.settled) :
    w'.Revises k := by
  refine ⟨fun v hv hk => ?_, fun claim hmem hk => ?_⟩
  · obtain ⟨claim, now, hmem, heq⟩ := h.settled v ((hrows v hk).mp hv) hk
    exact ⟨claim, now, (hsettled claim).mpr hmem, heq⟩
  · obtain ⟨now, hrow⟩ := h.stored claim ((hsettled claim).mp hmem) hk
    have hk' : (Catalog.revisionRow claim now).callKey = k := hk
    exact ⟨now, (hrows _ hk').mpr hrow⟩

/-- A final revision is stored in the catalog when the ledger has one. -/
theorem Tracked.unfinal_iff (ht : Tracked w k) :
    (w.ledger k).Unfinal ↔ w.catalog.hasFinal k = false := by
  rw [← not_iff_not, Bool.not_eq_false, Ledger.not_unfinal, Catalog.hasFinal_iff]
  constructor
  · rintro ⟨s, ⟨claim, hmem, hk, rfl⟩, hfin⟩
    obtain ⟨now, hrow⟩ := ht.revises.stored claim hmem hk
    exact ⟨_, hrow, hk, Catalog.finality_revisionRow.mpr hfin⟩
  · rintro ⟨v, hv, hk, hfin⟩
    obtain ⟨claim, now, hmem, rfl⟩ := ht.revises.settled v hv hk
    exact ⟨claim.snapshot, ⟨claim, hmem, hk, rfl⟩, Catalog.finality_revisionRow.mp hfin⟩

/-- Setting calls aside leaves every ledger as it was. -/
theorem ledger_aside {d : Catalog} (h : Catalog.Aside w.catalog d) :
    ({ w with catalog := d } : World).ledger k = w.ledger k := by
  have honly := h.onlyCalls
  rw [World.ledger, World.ledger, Catalog.holds_congr honly.spans honly.callTraces
    honly.recordings, Catalog.urgent_congr honly.spans honly.callTraces, Catalog.head_aside h]

/-- **A claim is a claim of its call's ledger.** -/
theorem step_of_claimed (ht : Tracked w k) {r : Call} {preset : CapturePreset} {now : UnixNano}
    (hr : w.catalog.calls.find? k = some r) (huncapped : w.catalog.uncapped r = true)
    (hcatalog : w'.catalog = w.catalog.claimed r now)
    (hclaims : w'.claims = w.catalog.claimOf r preset :: w.claims)
    (hsettled : w'.settled = w.settled) :
    Ledger.Step REVISION_CAP (w.ledger k) (w'.ledger k) := by
  obtain rfl : r.key = k := Table.key_of_find? hr
  have hhead : w.catalog.head r.key = r.head := Catalog.head_of_find? hr
  have hhead' : w'.catalog.head r.key = (r.lease r.nextRevision now).head := by
    rw [hcatalog]
    exact Catalog.head_of_find? (Catalog.find?_calls_claimed_self hr)
  have hnext : r.nextRevision = (w.ledger r.key).next := by
    rw [Ledger.next, Ledger.top]
    change _ = (w.catalog.head r.key).latest.getD 0 + 1
    rw [hhead]
    change r.latestRevision.elim 1 (· + 1) = r.latestRevision.getD 0 + 1
    cases r.latestRevision <;> rfl
  have hended : (w.ledger r.key).ended = r.endSignalUnixNano.isSome := by
    change (w.catalog.head r.key).ended = _
    rw [hhead]
    rfl
  refine .claim (w.catalog.claimOf r preset).snapshot ?_
  refine ⟨?_, hnext, ?_, hended.symm, ?_, Catalog.mem_snapshot_claimOf, ?_, ?_, ?_, ?_, ?_, ?_,
    ?_, ?_, ?_⟩
  · rw [Ledger.Uncapped, hended, ht.unfinal_iff]
    rw [Catalog.uncapped, Call.uncapped, Bool.or_eq_true, Bool.and_eq_true,
      Bool.not_eq_true'] at huncapped
    refine huncapped.imp (fun hlt => ?_) id
    change (w.catalog.head r.key).latest.getD 0 < REVISION_CAP
    rw [hhead]
    change r.latestRevision.getD 0 < REVISION_CAP
    cases hl : r.latestRevision with
    | none => exact Nat.zero_lt_succ 15
    | some n =>
        rw [hl, Option.all_some, decide_eq_true_eq] at hlt
        exact hlt
  · change r.leaseToken + 1 = (w.catalog.head r.key).token + 1
    rw [hhead]
    rfl
  · rw [hended, ht.unfinal_iff, ← Catalog.closeReason_eq_endSignal]
    change (w.catalog.closeReason r == .endSignal) = true ↔ _
    rw [beq_iff_eq]
  · intro e m
    change w'.catalog.Holds r.key e m ↔ _
    rw [hcatalog, ← hnext]
    exact Catalog.holds_claimed e m
  · change w'.catalog.Urgent r.key = _
    rw [hcatalog]
    exact Catalog.urgent_claimed
  · change (w'.catalog.head r.key).latest = (w.catalog.head r.key).latest
    rw [hhead, hhead']
    rfl
  · rw [← hnext]
    change (w'.catalog.head r.key).pending = _
    rw [hhead']
    rfl
  · change (w'.catalog.head r.key).token = (w.catalog.head r.key).token + 1
    rw [hhead, hhead']
    rfl
  · rw [hended]
    change (w'.catalog.head r.key).ended = _
    rw [hhead']
    rfl
  · exact stored_congr hsettled
  · ext s
    change (∃ claim ∈ w'.claims, claim.key = r.key ∧ claim.snapshot = s) ↔
      s = _ ∨ ∃ claim ∈ w.claims, claim.key = r.key ∧ claim.snapshot = s
    rw [hclaims]
    constructor
    · rintro ⟨claim, hmem, hk, rfl⟩
      rcases List.mem_cons.mp hmem with rfl | hmem
      · exact Or.inl rfl
      · exact Or.inr ⟨claim, hmem, hk, rfl⟩
    · rintro (rfl | ⟨claim, hmem, hk, rfl⟩)
      · exact ⟨_, List.mem_cons_self, rfl, rfl⟩
      · exact ⟨claim, List.mem_cons_of_mem _ hmem, hk, rfl⟩
  · exact settled_congr hsettled

/-- What a commit by a claim's holder does to the ledger of its call: its
token is the call's, its revision pending. -/
theorem settle_of_holds {claim : CallClaim} {r r' : Call} {outcome : Settlement}
    (hclaim : claim ∈ w.claims) (hr : w.catalog.calls.find? claim.key = some r)
    (htok : r.leaseToken = claim.leaseToken) (hrev : r.pendingRevision = some claim.revision)
    (hspans : w'.catalog.spans = w.catalog.spans)
    (htraces : w'.catalog.callTraces = w.catalog.callTraces)
    (hrecordings : w'.catalog.recordings = w.catalog.recordings)
    (hr' : w'.catalog.calls.find? claim.key = some r') (hpending : r'.pendingRevision = none)
    (htoken : r'.leaseToken = r.leaseToken)
    (hended : r'.endSignalUnixNano = r.endSignalUnixNano) (hclaims : w'.claims = w.claims)
    (hsettled : w'.settled = (claim, outcome) :: w.settled) :
    Ledger.Settle (w.ledger claim.key) (w'.ledger claim.key) claim.snapshot := by
  have hhead : w.catalog.head claim.key = r.head := Catalog.head_of_find? hr
  have hhead' : w'.catalog.head claim.key = r'.head := Catalog.head_of_find? hr'
  refine ⟨⟨claim, hclaim, rfl, rfl⟩, ?_, ?_, ?_, ?_, ?_, ?_, ?_, ?_, ?_⟩
  · change claim.leaseToken = (w.catalog.head claim.key).token
    rw [hhead]
    exact htok.symm
  · change (w.catalog.head claim.key).pending = some claim.revision
    rw [hhead]
    exact hrev
  · exact Catalog.holds_congr hspans htraces hrecordings
  · exact Catalog.urgent_congr hspans htraces
  · change (w'.catalog.head claim.key).pending = none
    rw [hhead']
    exact hpending
  · change (w'.catalog.head claim.key).token = (w.catalog.head claim.key).token
    rw [hhead, hhead']
    exact htoken
  · change (w'.catalog.head claim.key).ended = (w.catalog.head claim.key).ended
    rw [hhead, hhead']
    exact congrArg Option.isSome hended
  · exact issued_congr hclaims
  · change (w'.settled.filter _).map _ = _
    rw [hsettled, List.filter_cons_of_pos (by simp), List.map_cons]
    rfl

/-- A commit of another call's claim. -/
theorem step_of_brings_settled {claim : CallClaim} {outcome : Settlement} (hk : k ≠ claim.key)
    (hb : Catalog.Brings w.catalog w'.catalog k) (hclaims : w'.claims = w.claims)
    (hsettled : w'.settled = (claim, outcome) :: w.settled) :
    Ledger.Step REVISION_CAP (w.ledger k) (w'.ledger k) := by
  refine step_of_brings hb ?_ ?_ ?_
  · ext s
    change (∃ claim, (claim, .revision) ∈ w'.settled ∧ _) ↔ _
    rw [hsettled]
    constructor
    · rintro ⟨claim', hmem, hk', hs⟩
      rcases List.mem_cons.mp hmem with heq | hmem
      · exact absurd (hk'.symm.trans (congrArg (fun x => x.1.key) heq)) hk
      · exact ⟨claim', hmem, hk', hs⟩
    · rintro ⟨claim', hmem, hk', hs⟩
      exact ⟨claim', List.mem_cons_of_mem _ hmem, hk', hs⟩
  · exact issued_congr hclaims
  · change (w'.settled.filter _).map _ = _
    rw [hsettled, List.filter_cons_of_neg (by simpa using hk.symm)]
    rfl

/-! ## What an operation adds to the past -/

/-- The operation is a closer's, on a claim. -/
def Op.closes : Op → Bool
  | .claim _ _ | .finish _ _ | .fail _ _ _ => true
  | _ => false

theorem past_of_step {op : Op} (h : step S w op = some w') (hop : op.closes = false) :
    w'.claims = w.claims ∧ w'.settled = w.settled := by
  cases op with
  | claim | finish | fail => cases hop
  | provisionProject | failStaleUploads | releaseLeases | collectExpiredTombstones =>
      obtain rfl := Option.some.inj h
      exact ⟨rfl, rfl⟩
  | setCapturePreset | beginProjectDeletion | recordSpans | createRecording | finishUpload
  | collectParkedTraces | purgeCall =>
      obtain ⟨out, -, rfl⟩ := Option.map_eq_some_iff.mp h
      exact ⟨rfl, rfl⟩

theorem step_claim_eq_some {uploading : List CallKey} {now : UnixNano}
    (h : step S w (.claim uploading now) = some w') :
    ∃ claim?, w.catalog.claim S now uploading = some (w'.catalog, claim?) ∧
      w'.claims = claim?.toList ++ w.claims ∧ w'.settled = w.settled := by
  obtain ⟨⟨c', claim?⟩, hrun, rfl⟩ := Option.map_eq_some_iff.mp h
  exact ⟨claim?, hrun, rfl, rfl⟩

theorem step_finish_eq_some {claim : CallClaim} {now : UnixNano}
    (h : step S w (.finish claim now) = some w') :
    claim ∈ w.claims ∧ w.catalog.finish claim now = some w'.catalog ∧ w'.claims = w.claims ∧
      w'.settled = (claim, if claim.isEmpty then .closedWithoutRevision else .revision) ::
        w.settled := by
  rw [step] at h
  split at h
  · rename_i hmem
    obtain ⟨c', hrun, rfl⟩ := Option.map_eq_some_iff.mp h
    exact ⟨hmem, hrun, rfl, rfl⟩
  · cases h

theorem step_fail_eq_some {claim : CallClaim} {code : String} {now : UnixNano}
    (h : step S w (.fail claim code now) = some w') :
    claim ∈ w.claims ∧ w.catalog.fail S claim code now = some w'.catalog ∧
      w'.claims = w.claims ∧ w'.settled = (claim, .failed) :: w.settled := by
  rw [step] at h
  split at h
  · rename_i hmem
    obtain ⟨c', hrun, rfl⟩ := Option.map_eq_some_iff.mp h
    exact ⟨hmem, hrun, rfl, rfl⟩
  · cases h

/-! ## One step of the system, one step of the ledger -/

/-- What evidence, project and key operations bring a call they do not
purge. -/
theorem brings_of_catalogStep {c c' : Catalog} {op : Op} (hl : c.Linked)
    (h : CatalogStep S c op c') (hcloses : op.closes = false) (hpurges : op.purges k = false) :
    Catalog.Brings c c' k := by
  have hrefl : Catalog.Brings c c k := .of_tables rfl rfl rfl (.refl _)
  cases h with
  | provisionProject p preset => exact .of_tables rfl rfl rfl (.refl _)
  | setCapturePreset | beginProjectDeletion => exact .of_tables rfl rfl rfl (.refl _)
  | recordSpans hrec =>
      exact ((((Catalog.brings_recorded hl (recorded_of_record hrec)).trans
        Catalog.brings_bumpCounter).trans Catalog.brings_bumpCounter).trans
          Catalog.brings_bumpCounter).trans Catalog.brings_bumpCounter
  | createRecording hrun => exact Catalog.brings_createRecording hrun
  | finishUpload hrun => exact Catalog.brings_finishUpload hl hrun
  | failStaleUploads => exact Catalog.brings_failStaleUploads
  | collectParkedTraces hrun => exact Catalog.brings_collectParkedTraces hl hrun
  | claim | finish | fail => cases hcloses
  | releaseLeases => exact Catalog.brings_releaseLeases
  | purgeCall hrun =>
      obtain ⟨r, -, -, hkeys⟩ := Catalog.purgeCall_eq_some hrun
      have hne : ∀ {k'}, (k' == k) = false → k' ≠ k := fun h => by simpa using h
      exact (Catalog.brings_deleteCall_of_ne (hne hpurges)).trans (Catalog.brings_onlyKeys hkeys)
  | collectExpiredTombstones limit now =>
      exact Catalog.brings_onlyKeys Catalog.onlyKeys_collectExpiredTombstones

/-- Only a finish stores a revision, and only a purge deletes one. -/
theorem callRevisions_of_catalogStep {c c' : Catalog} {op : Op} (h : CatalogStep S c op c')
    (hcloses : op.closes = false) (hpurges : op.purges k = false) (v : CallRevision)
    (hv : v.callKey = k) : v ∈ c'.callRevisions ↔ v ∈ c.callRevisions := by
  cases h with
  | provisionProject | setCapturePreset | beginProjectDeletion | failStaleUploads
  | releaseLeases | collectExpiredTombstones => exact Iff.rfl
  | recordSpans hrec =>
      rw [(Catalog.onlyCalls_bumpCounter _ _ _).callRevisions,
        (Catalog.onlyCalls_bumpCounter _ _ _).callRevisions,
        (Catalog.onlyCalls_bumpCounter _ _ _).callRevisions,
        (Catalog.onlyCalls_bumpCounter _ _ _).callRevisions,
        (recorded_of_record hrec).callRevisions]
  | createRecording hrun =>
      rcases Catalog.createRecording_cases hrun with rfl | rfl | ⟨-, -, c₁, h₁, rfl⟩
      · exact Iff.rfl
      · rw [(Catalog.onlyCalls_bumpCounter _ _ _).callRevisions]
      · change v ∈ c₁.callRevisions ↔ _
        rw [(Catalog.onlyCalls_insertCalls h₁).callRevisions]
  | finishUpload hrun =>
      obtain ⟨row, -, -, rfl⟩ := Catalog.finishUpload_eq_some hrun
      rw [Catalog.onlyCalls_addCallEvidence.callRevisions]
  | collectParkedTraces hrun =>
      exact Catalog.collectParkedTraces_induction
        (P := fun d => v ∈ d.callRevisions ↔ v ∈ c.callRevisions)
        (fun d d' row hd _ _ hone => by rwa [Catalog.callRevisions_collectParkedTrace hone])
        hrun Iff.rfl
  | claim | finish | fail => cases hcloses
  | purgeCall hrun =>
      obtain ⟨r, -, -, hkeys⟩ := Catalog.purgeCall_eq_some hrun
      rw [hkeys.callRevisions, Catalog.mem_callRevisions_deleteCall, hv]
      have hne : ∀ {k'}, (k' == k) = false → k ≠ k' := fun h => Ne.symm (by simpa using h)
      exact and_iff_left (hne hpurges)

/-- A claim is a claim of one ledger, and brings the others nothing. -/
theorem ledger_step_claim (ht : Tracked w k) {uploading : List CallKey} {now : UnixNano}
    (h : step S w (.claim uploading now) = some w') :
    Ledger.Step REVISION_CAP (w.ledger k) (w'.ledger k) := by
  obtain ⟨claim?, hrun, hclaims, hsettled⟩ := step_claim_eq_some h
  obtain ⟨d, ha, ⟨rfl, hc⟩ | ⟨r, preset, hr, -, huncapped, -, -, rfl, hc⟩⟩ :=
    Catalog.claim_cases hrun
  · exact step_of_brings_past (hc ▸ Catalog.brings_aside ha) hclaims hsettled
  · by_cases hk : k = r.key
    · -- setting broken calls aside first leaves the ledger as it was
      have ht' : Tracked { w with catalog := d } k := by
        refine ⟨ht.linked.aside ha, ht.settled_mem, ht.revises.congr (fun v _ => ?_) fun _ => Iff.rfl,
          ledger_aside ha ▸ ht.sound⟩
        rw [ha.onlyCalls.callRevisions]
      rw [← ledger_aside ha]
      exact step_of_claimed ht' (hk ▸ hr) huncapped hc hclaims hsettled
    · refine step_of_brings (hc ▸ (Catalog.brings_aside ha).trans
        (Catalog.brings_claimed_of_ne hk)) ?_ ?_ ?_
      · exact stored_congr hsettled
      · ext s
        change (∃ claim ∈ w'.claims, _) ↔ _
        rw [hclaims]
        constructor
        · rintro ⟨claim, hmem, hk', hs⟩
          rcases List.mem_cons.mp hmem with rfl | hmem
          · exact absurd hk'.symm hk
          · exact ⟨claim, hmem, hk', hs⟩
        · rintro ⟨claim, hmem, hk', hs⟩
          exact ⟨claim, List.mem_cons_of_mem _ hmem, hk', hs⟩
      · exact settled_congr hsettled

/-- Another settlement stores nothing. -/
theorem stored_of_settled {claim : CallClaim} {outcome : Settlement} (hne : outcome ≠ .revision)
    (hsettled : w'.settled = (claim, outcome) :: w.settled) :
    (w'.ledger k).stored = (w.ledger k).stored := by
  ext s
  change (∃ claim', (claim', .revision) ∈ w'.settled ∧ _) ↔ _
  rw [hsettled]
  constructor
  · rintro ⟨claim', hmem, hrest⟩
    rcases List.mem_cons.mp hmem with heq | hmem
    · exact absurd (Prod.mk.inj heq).2.symm hne
    · exact ⟨claim', hmem, hrest⟩
  · rintro ⟨claim', hmem, hrest⟩
    exact ⟨claim', List.mem_cons_of_mem _ hmem, hrest⟩

/-- **A finish stores the snapshot, or discards an empty one.** -/
theorem ledger_step_finish {claim : CallClaim} {now : UnixNano}
    (h : step S w (.finish claim now) = some w') :
    Ledger.Step REVISION_CAP (w.ledger k) (w'.ledger k) := by
  obtain ⟨hmem, hrun, hclaims, hsettled⟩ := step_finish_eq_some h
  obtain ⟨r, hr, htok, hrev, ⟨hempty, hc⟩ | ⟨hempty, -, hc⟩⟩ := Catalog.finish_cases hrun
  · by_cases hk : k = claim.key
    · subst hk
      have hr' : w'.catalog.calls.find? claim.key = some (r.close none) := by
        rw [hc, Catalog.find?_updateCall_self, hr, Option.map_some]
      have hsettle := settle_of_holds hmem hr htok hrev (by rw [hc]; rfl) (by rw [hc]; rfl)
        (by rw [hc]; rfl) hr' rfl rfl rfl hclaims hsettled
      rw [hempty, if_pos rfl] at hsettled
      refine .discard _ hsettle (CallClaim.isEmpty_iff.mp hempty) ?_ ?_ ?_
      · change (w'.catalog.head claim.key).dirty = (w.catalog.head claim.key).dirty
        rw [Catalog.head_of_find? hr, Catalog.head_of_find? hr']
        rfl
      · change (w'.catalog.head claim.key).latest = (w.catalog.head claim.key).latest
        rw [Catalog.head_of_find? hr, Catalog.head_of_find? hr']
        rfl
      · exact stored_of_settled (by rintro ⟨⟩) hsettled
    · exact step_of_brings_settled hk (hc ▸ Catalog.brings_updateCall_of_ne _ _ hk) hclaims
        hsettled
  · by_cases hk : k = claim.key
    · subst hk
      obtain ⟨final, hr'⟩ : ∃ final, w'.catalog.calls.find? claim.key =
          some ((r.close (some claim.revision)).noted final).project :=
        ⟨_, hc ▸ Catalog.find?_calls_finished_self hr⟩
      have hhead' : w'.catalog.head claim.key = (r.close (some claim.revision)).head := by
        rw [Catalog.head_of_find? hr']
        change ((r.close (some claim.revision)).noted final).head = _
        exact Call.head_noted
      have honly : Catalog.OnlyCalls { w.catalog.updateCall claim.key
          (Call.close (some claim.revision)) (Call.close_key _) with
          callRevisions := w.catalog.callRevisions.insert (Catalog.revisionRow claim now) }
          w'.catalog :=
        hc ▸ Catalog.onlyCalls_noteEvidencePastCap.trans (Catalog.onlyCalls_updateCall _ _)
      have hcols : ∀ r : Call, (r.noted final).project.leaseToken = r.leaseToken ∧
          (r.noted final).project.pendingRevision = r.pendingRevision ∧
          (r.noted final).project.endSignalUnixNano = r.endSignalUnixNano := by
        intro r
        unfold Call.noted
        split <;> exact ⟨rfl, rfl, rfl⟩
      have hsettle := settle_of_holds hmem hr htok hrev honly.spans honly.callTraces
        honly.recordings hr' (hcols _).2.1 (hcols _).1 (hcols _).2.2 hclaims hsettled
      rw [hempty, if_neg Bool.false_ne_true] at hsettled
      refine .finish _ hsettle ?_ ?_ ?_
      · change (w'.catalog.head claim.key).dirty = (w.catalog.head claim.key).dirty
        rw [Catalog.head_of_find? hr, hhead']
        rfl
      · change (w'.catalog.head claim.key).latest = some claim.revision
        rw [hhead']
        rfl
      · ext s
        change (∃ claim', (claim', .revision) ∈ w'.settled ∧ _) ↔ _ ∨ _
        rw [hsettled]
        constructor
        · rintro ⟨claim', hmem', hk', hs⟩
          rcases List.mem_cons.mp hmem' with heq | hmem'
          · exact Or.inl ((Prod.mk.inj heq).1 ▸ hs.symm)
          · exact Or.inr ⟨claim', hmem', hk', hs⟩
        · rintro (rfl | ⟨claim', hmem', hk', hs⟩)
          · exact ⟨claim, List.mem_cons_self, rfl, rfl⟩
          · exact ⟨claim', List.mem_cons_of_mem _ hmem', hk', hs⟩
    · exact step_of_brings_settled hk (hc ▸ Catalog.brings_finished_of_ne hk) hclaims hsettled

/-- A failure gives the pending revision up and leaves the call dirty. -/
theorem ledger_step_fail {claim : CallClaim} {code : String} {now : UnixNano}
    (h : step S w (.fail claim code now) = some w') :
    Ledger.Step REVISION_CAP (w.ledger k) (w'.ledger k) := by
  obtain ⟨hmem, hrun, hclaims, hsettled⟩ := step_fail_eq_some h
  obtain ⟨r, hr, htok, hrev, attempts, due, hc⟩ := Catalog.fail_eq_some hrun
  by_cases hk : k = claim.key
  · subst hk
    have hr' : w'.catalog.calls.find? claim.key = some (r.fail attempts due code) := by
      rw [hc, Catalog.find?_updateCall_self, hr, Option.map_some]
    have hsettle := settle_of_holds hmem hr htok hrev (by rw [hc]; rfl) (by rw [hc]; rfl)
      (by rw [hc]; rfl) hr' rfl rfl rfl hclaims hsettled
    refine .fail _ hsettle ?_ ?_ ?_
    · change (w'.catalog.head claim.key).dirty = true
      rw [Catalog.head_of_find? hr']
      rfl
    · change (w'.catalog.head claim.key).latest = (w.catalog.head claim.key).latest
      rw [Catalog.head_of_find? hr, Catalog.head_of_find? hr']
      rfl
    · exact stored_of_settled (by rintro ⟨⟩) hsettled
  · exact step_of_brings_settled hk (hc ▸ Catalog.brings_updateCall_of_ne _ _ hk) hclaims hsettled

/-- **Each operation is one step of the ledger of every call it does not
purge.** -/
theorem ledger_step (ht : Tracked w k) {op : Op} (hop : op.purges k = false)
    (h : step S w op = some w') : Ledger.Step REVISION_CAP (w.ledger k) (w'.ledger k) := by
  cases hcloses : op.closes with
  | false =>
      obtain ⟨hclaims, hsettled⟩ := past_of_step h hcloses
      exact step_of_brings_past
        (brings_of_catalogStep ht.linked (catalogStep_of_step h) hcloses hop) hclaims hsettled
  | true =>
      cases op with
      | claim uploading now => exact ledger_step_claim ht h
      | finish claim now => exact ledger_step_finish h
      | fail claim code now => exact ledger_step_fail h
      | _ => cases hcloses

/-! ## Runs -/

/-- The revision rows of a call stay its claims settled as one. -/
theorem World.Revises.step (ht : w.Revises k) {op : Op} (hop : op.purges k = false)
    (h : Earshot.step S w op = some w') : w'.Revises k := by
  cases hcloses : op.closes with
  | false =>
      obtain ⟨-, hsettled⟩ := past_of_step h hcloses
      exact ht.congr (callRevisions_of_catalogStep (catalogStep_of_step h) hcloses hop)
        fun claim => by rw [hsettled]
  | true =>
      cases op with
      | claim uploading now =>
          obtain ⟨claim?, hrun, -, hsettled⟩ := step_claim_eq_some h
          refine ht.congr (fun v _ => ?_) fun claim => by rw [hsettled]
          obtain ⟨d, ha, ⟨-, hc⟩ | ⟨r, preset, -, -, -, -, -, -, hc⟩⟩ := Catalog.claim_cases hrun
          · rw [hc, ha.onlyCalls.callRevisions]
          · rw [hc]
            change v ∈ d.callRevisions ↔ _
            rw [ha.onlyCalls.callRevisions]
      | fail claim code now =>
          obtain ⟨-, hrun, -, hsettled⟩ := step_fail_eq_some h
          obtain ⟨r, -, -, -, attempts, due, hc⟩ := Catalog.fail_eq_some hrun
          refine ht.congr (fun v _ => ?_) fun claim' => ?_
          · rw [hc]
            exact Iff.rfl
          · rw [hsettled, List.mem_cons]
            simp
      | finish claim now =>
          obtain ⟨-, hrun, -, hsettled⟩ := step_finish_eq_some h
          obtain ⟨r, -, -, -, ⟨hempty, hc⟩ | ⟨hempty, hnew, hc⟩⟩ := Catalog.finish_cases hrun
          · refine ht.congr (fun v _ => ?_) fun claim' => ?_
            · rw [hc]
              exact Iff.rfl
            · rw [hsettled, hempty, List.mem_cons]
              simp
          · rw [hempty, if_neg Bool.false_ne_true] at hsettled
            have hnone : w.catalog.callRevisions.find? (Catalog.revisionRow claim now).key =
                none := by
              by_contra hne
              obtain ⟨v, hv⟩ := Option.ne_none_iff_exists'.mp hne
              exact hnew v (Table.mem_of_find? hv) (Table.key_of_find? hv)
            refine ⟨?_, ?_⟩
            all_goals rw [hsettled, hc, Catalog.callRevisions_finished]
            · intro v hv hk
              rcases Table.mem_insert.mp hv with hv | ⟨rfl, -⟩
              · obtain ⟨claim', now', hmem, heq⟩ := ht.settled v hv hk
                exact ⟨claim', now', List.mem_cons_of_mem _ hmem, heq⟩
              · exact ⟨claim, now, List.mem_cons_self, rfl⟩
            · intro claim' hmem hk
              rcases List.mem_cons.mp hmem with heq | hmem
              · obtain ⟨rfl, -⟩ := Prod.mk.inj heq
                exact ⟨now, Table.mem_insert.mpr (Or.inr ⟨rfl, hnone⟩)⟩
              · obtain ⟨now', hrow⟩ := ht.stored claim' hmem hk
                exact ⟨now', Table.mem_insert.mpr (Or.inl hrow)⟩
      | _ => cases hcloses

theorem settled_mem_of_step {op : Op} (hmem : ∀ x ∈ w.settled, x.1 ∈ w.claims)
    (h : step S w op = some w') : ∀ x ∈ w'.settled, x.1 ∈ w'.claims := by
  cases hcloses : op.closes with
  | false =>
      obtain ⟨hclaims, hsettled⟩ := past_of_step h hcloses
      rw [hclaims, hsettled]
      exact hmem
  | true =>
      cases op with
      | claim uploading now =>
          obtain ⟨claim?, -, hclaims, hsettled⟩ := step_claim_eq_some h
          rw [hclaims, hsettled]
          exact fun x hx => List.mem_append_right _ (hmem x hx)
      | finish claim now =>
          obtain ⟨hclaim, -, hclaims, hsettled⟩ := step_finish_eq_some h
          rw [hclaims, hsettled]
          exact List.forall_mem_cons.mpr ⟨hclaim, hmem⟩
      | fail claim code now =>
          obtain ⟨hclaim, -, hclaims, hsettled⟩ := step_fail_eq_some h
          rw [hclaims, hsettled]
          exact List.forall_mem_cons.mpr ⟨hclaim, hmem⟩
      | _ => cases hcloses

theorem Tracked.step (ht : Tracked w k) {op : Op} (hop : op.purges k = false)
    (h : Earshot.step S w op = some w') : Tracked w' k := by
  exact ⟨linked_step ht.linked (catalogStep_of_step h), settled_mem_of_step ht.settled_mem h,
    ht.revises.step hop h, ht.sound.step (ledger_step ht hop h)⟩

theorem Tracked.init : Tracked .init k where
  linked := Catalog.linked_empty
  settled_mem _ h := absurd h List.not_mem_nil
  revises := ⟨fun _ h => absurd h List.not_mem_nil, fun _ h => absurd h List.not_mem_nil⟩
  sound := by
    have hempty : World.init.ledger k = .empty (World.init.catalog.Urgent k) := by
      refine Ledger.ext ?_ rfl rfl rfl rfl rfl rfl ?_ ?_ rfl
      · funext e m
        refine propext ⟨fun h => ?_, False.elim⟩
        cases e with
        | span | recording => exact absurd h.choose_spec.1 List.not_mem_nil
      · exact Set.eq_empty_of_forall_notMem fun s h => absurd h.choose_spec.1 List.not_mem_nil
      · exact Set.eq_empty_of_forall_notMem fun s h => absurd h.choose_spec.1 List.not_mem_nil
    rw [hempty]
    exact Ledger.Sound.empty

/-- **The ledger of a call is sound after every run that does not purge
it.** -/
theorem tracked_worldAfter (S : CallStore) (k : CallKey) (ops : List Op)
    (hops : ∀ op ∈ ops, op.purges k = false) : Tracked (worldAfter S ops) k :=
  Transition.run_induction (P := fun w => Tracked w k)
    (fun _ _ _ (hop : Op.purges k _ = false) ht h => ht.step hop h) ops _ hops .init

end Earshot
