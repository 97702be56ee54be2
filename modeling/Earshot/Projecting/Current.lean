import Earshot.Projecting.Projector
/-!
# A projection that is not stale is right

However passes, changes, prices and deletions interleave, a stored projection
that its stamps do not call stale is what `compute_projection` makes of the
call as it was read since it last changed, at the prices there are now
(`current_projection`), whether it was computed in full or repriced any number
of times. And a pass that nothing disturbs leaves the call's projection current
(`pass_current`), so a stale one does not stay so.
-/

namespace Earshot.Projecting

open Relational Costs

variable {σ φ ψ δ : Type} {E : Engine σ φ ψ δ}

/-! ## Digests -/

/-- The digest is one that a row with the projection may have. -/
inductive Digests (E : Engine σ φ ψ δ) : δ → Projection φ ψ → Prop where
  | projection (p : Projection φ ψ) : Digests E (E.sha256 (.projection p)) p
  | repriced {stored : δ} {p : Projection φ ψ} (h : Digests E stored p) (columns : CostColumns)
      (items : List CostItem) : Digests E (E.sha256 (.repriced (some stored) columns items))
        { p with columns := columns, costItems := items }

/-- **An equal digest is an equal projection.** -/
theorem Digests.unique (hsha : Function.Injective E.sha256) {d : δ} {p q : Projection φ ψ}
    (h : Digests E d p) (h' : Digests E d q) : p = q := by
  induction h generalizing q with
  | projection p =>
    generalize hd : E.sha256 (.projection p) = d at h'
    cases h' with
    | projection q => exact Digested.projection.inj (hsha hd)
    | repriced h' columns items => cases hsha hd
  | repriced h columns items ih =>
    generalize hd : E.sha256 (.repriced _ columns items) = d at h'
    cases h' with
    | projection q => cases hsha hd
    | repriced h' columns' items' =>
      obtain ⟨hstored, rfl, rfl⟩ := Digested.repriced.inj (hsha hd)
      rw [ih (Option.some.inj hstored ▸ h')]

/-- A row whose digest is a whole projection's has that projection. -/
theorem Digests.eq_projection (hsha : Function.Injective E.sha256) {p q : Projection φ ψ}
    (h : Digests E (E.sha256 (.projection p)) q) : q = p :=
  h.unique hsha (.projection p)

/-! ## What every order keeps -/

/-- The projection of the call as it was read at some time since it last changed. -/
def Computes (E : Engine σ φ ψ δ) (call : ProjectedCall σ) (prices : List PriceRow)
    (p : Projection φ ψ) : Prop :=
  ∃ source ∈ call.since,
    p = E.computeProjection call.key.1 call.firstEvidenceUnixNano source prices

/-- A reprice of it is its projection at the new prices. -/
theorem Computes.reprice {call : ProjectedCall σ} {prices prices' : List PriceRow}
    {p : Projection φ ψ} (h : Computes E call prices p) :
    Computes E call prices' { p with
      columns := costColumns (E.cost call.key.1 call.firstEvidenceUnixNano prices' p.usage)
      costItems := (E.cost call.key.1 call.firstEvidenceUnixNano prices' p.usage).items } := by
  obtain ⟨source, hsource, rfl⟩ := h
  exact ⟨source, hsource, rfl⟩

/-- The prices were read at the versions, and are still all there are while the
versions are where they were. -/
def ReadAt (c : Catalog σ φ ψ δ) (p : String) (versions : ℕ × ℕ) (prices : List PriceRow) :
    Prop :=
  ¬ c.store.dying p → versions ≤ PriceStore.versions p c.store ∧
    (versions = PriceStore.versions p c.store → prices = c.store.priceRows p)

/-- What a pass under way will compute from is the call's, while it has not changed. -/
def Reads (E : Engine σ φ ψ δ) (call : ProjectedCall σ) (snap : Snapshot σ ψ δ) : Prop :=
  match snap.reading with
  | .full source => source ∈ call.since
  | .reprice usage detail => ∃ d p prices, snap.storedDigest = some d ∧ Digests E d p ∧
      Computes E call prices p ∧ p.usage = usage ∧ p.detail = detail

structure RowInv (E : Engine σ φ ψ δ) (c : Catalog σ φ ψ δ) (row : ProjectionRow φ ψ δ) :
    Prop where
  digests : Digests E row.inputDigest row.projection
  call : ∃ call, c.calls.find? row.key = some call ∧ row.sourceSeq ≤ call.projectionSeq ∧
    (row.sourceSeq = call.projectionSeq → ∃ prices, Computes E call prices row.projection ∧
      ReadAt c row.key.1 row.versions prices)

structure PassInv (E : Engine σ φ ψ δ) (c : Catalog σ φ ψ δ) (snap : Snapshot σ ψ δ)
    (computed : Computed φ ψ δ) : Prop where
  used : snap.key ∈ c.used
  computed : E.compute snap = some computed
  read : ReadAt c snap.key.1 snap.versions snap.prices
  call : ∀ call, c.calls.find? snap.key = some call → snap.projectionSeq ≤ call.projectionSeq ∧
    snap.firstEvidenceUnixNano = call.firstEvidenceUnixNano ∧
    (snap.projectionSeq = call.projectionSeq → Reads E call snap)

structure Inv (E : Engine σ φ ψ δ) (c : Catalog σ φ ψ δ) : Prop where
  rows : ∀ key row, c.projections.find? key = some row → RowInv E c row
  passes : ∀ entry ∈ c.inFlight, PassInv E c entry.1 entry.2
  used : ∀ key call, c.calls.find? key = some call → key ∈ c.used

variable {c c' : Catalog σ φ ψ δ}

theorem Inv.empty : Inv E (Catalog.empty : Catalog σ φ ψ δ) where
  rows := nofun
  passes := nofun
  used := nofun

/-- A call some time later: what it was read as since it last changed still
counts unless it has changed again. -/
structure CallLater (call call' : ProjectedCall σ) : Prop where
  key : call'.key = call.key
  firstEvidence : call'.firstEvidenceUnixNano = call.firstEvidenceUnixNano
  le : call.projectionSeq ≤ call'.projectionSeq
  since : call.projectionSeq = call'.projectionSeq → call.since ⊆ call'.since

theorem CallLater.refl {call : ProjectedCall σ} : CallLater call call :=
  ⟨rfl, rfl, le_rfl, fun _ => List.Subset.refl _⟩

theorem CallLater.moved {call : ProjectedCall σ} {source : σ} {revision : Option ℕ} :
    CallLater call { call.moved source with latestRevision := revision } :=
  ⟨rfl, rfl, Nat.le_succ _, fun h => absurd h (Nat.succ_ne_self _).symm⟩

theorem CallLater.drifted {call : ProjectedCall σ} {source : σ} :
    CallLater call (call.drifted source) :=
  ⟨rfl, rfl, le_rfl, fun _ => List.subset_cons_self _ _⟩

section Later

variable {call call' : ProjectedCall σ}

theorem Computes.later {prices : List PriceRow} {p : Projection φ ψ}
    (h : Computes E call prices p) (hcall : CallLater call call')
    (hseq : call.projectionSeq = call'.projectionSeq) : Computes E call' prices p := by
  obtain ⟨source, hsource, rfl⟩ := h
  exact ⟨source, hcall.since hseq hsource, by rw [hcall.key, hcall.firstEvidence]⟩

theorem Reads.later {snap : Snapshot σ ψ δ} (h : Reads E call snap)
    (hcall : CallLater call call') (hseq : call.projectionSeq = call'.projectionSeq) :
    Reads E call' snap := by
  unfold Reads at h ⊢
  split at h
  · exact hcall.since hseq h
  · obtain ⟨d, p, prices, hd, hdigests, hcomputes, husage, hdetail⟩ := h
    exact ⟨d, p, prices, hd, hdigests, hcomputes.later hcall hseq, husage, hdetail⟩

theorem ReadAt.later {p : String} {versions : ℕ × ℕ} {prices : List PriceRow}
    (h : ReadAt c p versions prices) (hstore : PriceStore.Later c.store c'.store) :
    ReadAt c' p versions prices := by
  intro hdying
  obtain ⟨hle, hread⟩ := h fun hd => hdying (hstore.dying p hd)
  exact (hstore.tracks p hdying).still hle hread

end Later

theorem RowInv.later {row : ProjectionRow φ ψ δ} (h : RowInv E c row)
    (hstore : PriceStore.Later c.store c'.store)
    (hcalls : ∀ call, c.calls.find? row.key = some call →
      ∃ call', c'.calls.find? row.key = some call' ∧ CallLater call call') : RowInv E c' row where
  digests := h.digests
  call := by
    obtain ⟨call, hcall, hle, hread⟩ := h.call
    obtain ⟨call', hcall', hlater⟩ := hcalls call hcall
    refine ⟨call', hcall', hle.trans hlater.le, fun heq => ?_⟩
    have hseq : row.sourceSeq = call.projectionSeq := le_antisymm hle (heq ▸ hlater.le)
    obtain ⟨prices, hcomputes, hprices⟩ := hread hseq
    exact ⟨prices, hcomputes.later hlater (hseq.symm.trans heq), hprices.later hstore⟩

/-- A pass outlives whatever happens to its call: it ends, or is later, or is
deleted for good. -/
theorem PassInv.later {snap : Snapshot σ ψ δ} {computed : Computed φ ψ δ}
    (h : PassInv E c snap computed) (hstore : PriceStore.Later c.store c'.store)
    (hused : c.used ⊆ c'.used)
    (hcalls : ∀ call', c'.calls.find? snap.key = some call' →
      ∃ call, c.calls.find? snap.key = some call ∧ CallLater call call') :
    PassInv E c' snap computed where
  used := hused h.used
  computed := h.computed
  read := h.read.later hstore
  call call' hcall' := by
    obtain ⟨call, hcall, hlater⟩ := hcalls call' hcall'
    obtain ⟨hle, hfirst, hreads⟩ := h.call call hcall
    refine ⟨hle.trans hlater.le, hfirst.trans hlater.firstEvidence.symm, fun heq => ?_⟩
    have hseq : snap.projectionSeq = call.projectionSeq := le_antisymm hle (heq ▸ hlater.le)
    exact (hreads hseq).later hlater (hseq.symm.trans heq)

/-- A change to the projections and the passes alone. -/
theorem Inv.of_same (h : Inv E c)
    (hsame : c'.store = c.store ∧ c'.calls = c.calls ∧ c'.used = c.used)
    (hrows : ∀ key row, c'.projections.find? key = some row → RowInv E c row)
    (hpasses : ∀ entry ∈ c'.inFlight, PassInv E c entry.1 entry.2) : Inv E c' := by
  obtain ⟨hstore, hcalls, hused⟩ := hsame
  have hlater : PriceStore.Later c.store c'.store := hstore ▸ .refl
  refine ⟨fun key row hrow => ?_, fun entry hentry => ?_, fun key call hcall => ?_⟩
  · exact (hrows key row hrow).later hlater fun x hx => ⟨x, hcalls ▸ hx, .refl⟩
  · exact (hpasses entry hentry).later hlater (hused ▸ List.Subset.refl _)
      fun x hx => ⟨x, hcalls ▸ hx, .refl⟩
  · exact hused ▸ h.used key call (hcalls ▸ hcall)

/-! ## Changes to a call -/

theorem Inv.putCall (h : Inv E c) {call call' : ProjectedCall σ}
    (hcall : c.calls.find? call.key = some call) (hlater : CallLater call call') :
    Inv E { c with calls := c.calls.put call' } where
  rows key row hrow := by
    refine (h.rows key row hrow).later .refl fun x hx => ?_
    dsimp only
    rw [Table.find?_put, hlater.key]
    split
    · next hkey =>
      obtain rfl := Option.some.inj ((hkey ▸ hcall).symm.trans hx)
      exact ⟨call', rfl, hlater⟩
    · exact ⟨x, hx, .refl⟩
  passes entry hentry := by
    refine (h.passes entry hentry).later .refl (List.Subset.refl _) fun x hx => ?_
    dsimp only at hx
    rw [Table.find?_put, hlater.key] at hx
    split at hx
    · next hkey =>
      obtain rfl := Option.some.inj hx
      exact ⟨call, hkey ▸ hcall, hlater⟩
    · exact ⟨x, hx, .refl⟩
  used key x hx := by
    dsimp only at hx
    rw [Table.find?_put, hlater.key] at hx
    split at hx
    · next hkey => exact hkey ▸ h.used call.key call hcall
    · exact h.used key x hx

/-- A new call is nobody's yet. -/
theorem Inv.openCall (h : Inv E c) {call : ProjectedCall σ} (hnew : call.key ∉ c.used) :
    Inv E { c with calls := c.calls.put call, used := call.key :: c.used } where
  rows key row hrow := by
    refine (h.rows key row hrow).later .refl fun x hx => ⟨x, ?_, .refl⟩
    have hne : ¬ call.key = row.key := fun heq => hnew (heq ▸ h.used row.key x hx)
    dsimp only
    rw [Table.find?_put, if_neg hne]
    exact hx
  passes entry hentry := by
    refine (h.passes entry hentry).later .refl (List.subset_cons_self _ _)
      fun x hx => ⟨x, ?_, .refl⟩
    have hne : ¬ call.key = entry.1.key := fun heq => hnew (heq ▸ (h.passes entry hentry).used)
    dsimp only at hx
    rwa [Table.find?_put, if_neg hne] at hx
  used key x hx := by
    dsimp only at hx
    rw [Table.find?_put] at hx
    split at hx
    · next hkey => exact hkey ▸ List.mem_cons_self
    · exact List.mem_cons_of_mem _ (h.used key x hx)

theorem Inv.deleteCall (h : Inv E c) (key : String × String) :
    Inv E { c with
      calls := c.calls.delete fun call => decide (call.key = key)
      projections := c.projections.delete fun row => decide (row.key = key) } := by
  have hspared {k : String × String} (hk : k ≠ key) :
      (c.calls.delete fun call => decide (call.key = key)).find? k = c.calls.find? k :=
    Table.find?_delete_of_ne fun call _ hcall => decide_eq_false (hcall ▸ hk)
  have hleft {k : String × String} {call : ProjectedCall σ}
      (hk : (c.calls.delete fun call => decide (call.key = key)).find? k = some call) :
      c.calls.find? k = some call := by
    rw [Table.find?_delete] at hk
    exact (Option.filter_eq_some_iff.mp hk).1
  refine ⟨fun k row hrow => ?_, fun entry hentry => ?_, fun k call hcall => ?_⟩
  · dsimp only at hrow
    rw [Table.find?_delete] at hrow
    obtain ⟨hrow, hkey⟩ := Option.filter_eq_some_iff.mp hrow
    refine (h.rows k row hrow).later .refl fun x hx => ⟨x, ?_, .refl⟩
    exact (hspared (by simpa using hkey)).trans hx
  · exact (h.passes entry hentry).later .refl (List.Subset.refl _)
      fun x hx => ⟨x, hleft hx, .refl⟩
  · exact h.used k call (hleft hcall)

/-! ## A pass -/

theorem Inv.snapshot (h : Inv E c) {key : String × String} {snap : Snapshot σ ψ δ}
    {computed : Computed φ ψ δ} (hsnap : c.snapshot key = some snap)
    (hcomputed : E.compute snap = some computed) : PassInv E c snap computed := by
  obtain ⟨call, hcall, hsnap⟩ := Option.bind_eq_some_iff.mp hsnap
  obtain ⟨_, -, hsnap⟩ := Option.bind_eq_some_iff.mp hsnap
  obtain ⟨revision, -, rfl⟩ := Option.map_eq_some_iff.mp hsnap
  refine ⟨h.used key call hcall, hcomputed, fun _ => ⟨le_rfl, fun _ => rfl⟩, fun x hx => ?_⟩
  obtain rfl := Option.some.inj (hcall.symm.trans hx)
  refine ⟨le_rfl, rfl, fun _ => ?_⟩
  change match Catalog.reading call (c.projections.find? key) with
    | .full source => source ∈ call.since
    | .reprice usage detail => ∃ d p prices, (c.projections.find? key).map (·.inputDigest) = some d ∧
        Digests E d p ∧ Computes E call prices p ∧ p.usage = usage ∧ p.detail = detail
  cases hrow : c.projections.find? key with
  | none => exact List.mem_cons_self
  | some row =>
    rw [Catalog.reading]
    by_cases honly : row.sourceSeq = call.projectionSeq ∧
        row.projectionVersion = CALL_PROJECTION_VERSION
    · rw [if_pos honly]
      -- the stored row is of the call as it is, so a reprice of it will be too
      have hinv : RowInv E c row := h.rows key row hrow
      obtain ⟨x, hx, -, hread⟩ := hinv.call
      rw [Table.key_of_find? hrow] at hx
      obtain rfl := Option.some.inj (hcall.symm.trans hx)
      obtain ⟨prices, hcomputes, -⟩ := hread honly.1
      exact ⟨row.inputDigest, row.projection, prices, rfl, hinv.digests, hcomputes, rfl, rfl⟩
    · rw [if_neg honly]
      exact List.mem_cons_self

/-- What the write leaves is the call's projection at the prices the pass read. -/
theorem PassInv.written [DecidableEq δ] (hsha : Function.Injective E.sha256)
    {snap : Snapshot σ ψ δ} {computed : Computed φ ψ δ} {call : ProjectedCall σ}
    {stored : Option (ProjectionRow φ ψ δ)} {row : ProjectionRow φ ψ δ}
    (h : PassInv E c snap computed) (hcall : c.calls.find? snap.key = some call)
    (hseq : call.projectionSeq = snap.projectionSeq)
    (hstored : stored.map (·.inputDigest) = snap.storedDigest)
    (hrows : ∀ old, stored = some old → RowInv E c old)
    (hrow : Catalog.written snap stored computed = some row) :
    (row.key = snap.key ∧ row.sourceSeq = snap.projectionSeq ∧ row.versions = snap.versions ∧
      row.projectionVersion = CALL_PROJECTION_VERSION) ∧
    Digests E row.inputDigest row.projection ∧ Computes E call snap.prices row.projection := by
  obtain ⟨-, hfirst, hreads⟩ := h.call call hcall
  have hreads := hreads hseq.symm
  have hcomputed := h.computed
  unfold Reads at hreads
  unfold Engine.compute at hcomputed
  rw [hfirst, ← Table.key_of_find? hcall] at hcomputed
  split at hreads
  · next source hfull =>
    rw [hfull] at hcomputed
    dsimp only at hcomputed
    split at hcomputed
    · obtain rfl := Option.some.inj hcomputed
      have hcomputes : Computes E call snap.prices
          (E.computeProjection call.key.1 call.firstEvidenceUnixNano source snap.prices) :=
        ⟨source, hreads, rfl⟩
      cases stored with
      | none =>
        obtain rfl := Option.some.inj hrow
        exact ⟨⟨rfl, rfl, rfl, rfl⟩, .projection _, hcomputes⟩
      | some old =>
        obtain rfl := Option.some.inj hrow
        -- an unchanged digest only has its stamps moved
        have hkept : (if old.inputDigest = E.sha256 (.projection
            (E.computeProjection call.key.1 call.firstEvidenceUnixNano source snap.prices)) then
            old.projection else
            E.computeProjection call.key.1 call.firstEvidenceUnixNano source snap.prices) =
            E.computeProjection call.key.1 call.firstEvidenceUnixNano source snap.prices := by
          split
          · next hsame => exact (hsame ▸ (hrows old rfl).digests).eq_projection hsha
          · rfl
        refine ⟨⟨rfl, rfl, rfl, rfl⟩, ?_, ?_⟩
        · rw [Snapshot.stamp, hkept]
          exact .projection _
        · rw [Snapshot.stamp, hkept]
          exact hcomputes
    · cases hcomputed
  · next usage detail hreprice =>
    obtain ⟨d, p, prices, hd, hdigests, hcomputes, rfl, rfl⟩ := hreads
    rw [hreprice] at hcomputed
    dsimp only at hcomputed
    split at hcomputed
    · obtain rfl := Option.some.inj hcomputed
      obtain ⟨old, rfl, rfl⟩ := Option.map_eq_some_iff.mp hrow
      have hold : old.inputDigest = d := Option.some.inj (hstored.trans hd)
      -- the digest is the snapshot's, so the projection is
      obtain rfl := (hold ▸ (hrows old rfl).digests).unique hsha hdigests
      rw [hd]
      exact ⟨⟨rfl, rfl, rfl, rfl⟩, hdigests.repriced _ _, hcomputes.reprice⟩
    · cases hcomputed

theorem Inv.write [DecidableEq δ] (hsha : Function.Injective E.sha256) (h : Inv E c)
    {snap : Snapshot σ ψ δ} {computed : Computed φ ψ δ} (hpass : PassInv E c snap computed)
    (hwrite : c.write snap computed = some c') : Inv E c' := by
  obtain ⟨call, hcall, hwrite⟩ := Option.bind_eq_some_iff.mp hwrite
  split at hwrite
  · next hsame =>
    obtain ⟨-, hseq, -, hstored⟩ := hsame
    obtain rfl := Option.some.inj hwrite
    cases hrow : Catalog.written snap (c.projections.find? snap.key) computed with
    | none => exact h
    | some row =>
      obtain ⟨⟨hkey, hsource, hversions, -⟩, hdigests, hcomputes⟩ :=
        hpass.written hsha hcall hseq hstored (fun old hold => h.rows snap.key old hold) hrow
      have hnew : RowInv E c row := by
        refine ⟨hdigests, call, hkey ▸ hcall, (hsource.trans hseq.symm).le, fun _ => ?_⟩
        exact ⟨snap.prices, hcomputes, hkey ▸ hversions ▸ hpass.read⟩
      refine h.of_same ⟨rfl, rfl, rfl⟩ (fun k x hx => ?_) h.passes
      dsimp only [Option.elim] at hx
      rw [Table.find?_put] at hx
      split at hx
      · exact Option.some.inj hx ▸ hnew
      · exact h.rows k x hx
  · cases hwrite

/-- **One transaction.** -/
theorem Inv.step [DecidableEq δ] (hsha : Function.Injective E.sha256) (h : Inv E c) {op : Catalog.Op σ}
    (hstep : c.step E op = some c') : Inv E c' := by
  cases op with
  | prices op =>
    obtain ⟨store, hstore, rfl⟩ := Option.map_eq_some_iff.mp hstep
    have hlater : PriceStore.Later c.store store := PriceStore.step_later hstore
    exact ⟨fun key row hrow => (h.rows key row hrow).later hlater fun x hx => ⟨x, hx, .refl⟩,
      fun entry hentry => (h.passes entry hentry).later hlater (List.Subset.refl _)
        fun x hx => ⟨x, hx, .refl⟩, h.used⟩
  | openCall key firstEvidenceUnixNano source =>
    simp only [Catalog.step] at hstep
    split at hstep
    · next hnew =>
      obtain rfl := Option.some.inj hstep
      exact @Inv.openCall _ _ _ _ E c h ⟨key, 0, none, firstEvidenceUnixNano, source, []⟩ hnew.2
    · cases hstep
  | recordRevision key revision source =>
    obtain ⟨call, hcall, rfl⟩ := Option.map_eq_some_iff.mp hstep
    exact h.putCall (Table.key_of_find? hcall ▸ hcall) .moved
  | touchCall key source =>
    obtain ⟨call, hcall, rfl⟩ := Option.map_eq_some_iff.mp hstep
    exact h.putCall (Table.key_of_find? hcall ▸ hcall)
      (@CallLater.moved _ call source call.latestRevision)
  | drift key source =>
    obtain ⟨call, hcall, rfl⟩ := Option.map_eq_some_iff.mp hstep
    exact h.putCall (Table.key_of_find? hcall ▸ hcall) .drifted
  | deleteCall key =>
    obtain ⟨call, -, rfl⟩ := Option.map_eq_some_iff.mp hstep
    exact h.deleteCall key
  | snapshot key =>
    obtain ⟨snap, hsnap, hstep⟩ := Option.bind_eq_some_iff.mp hstep
    obtain ⟨computed, hcomputed, rfl⟩ := Option.map_eq_some_iff.mp hstep
    exact h.of_same ⟨rfl, rfl, rfl⟩ h.rows
      (List.forall_mem_cons.mpr ⟨h.snapshot hsnap hcomputed, h.passes⟩)
  | write pass =>
    obtain ⟨entry, hentry, rfl⟩ := Option.map_eq_some_iff.mp hstep
    have hleft : Inv E { c with inFlight := c.inFlight.eraseIdx pass } :=
      h.of_same ⟨rfl, rfl, rfl⟩ h.rows fun x hx => h.passes x (List.mem_of_mem_eraseIdx hx)
    dsimp only
    cases hwrite : Catalog.write { c with inFlight := c.inFlight.eraseIdx pass } entry.1 entry.2 with
    | none => exact hleft
    | some c₁ =>
      have hpass := h.passes entry (List.mem_of_getElem? hentry)
      exact hleft.write hsha (hpass.later .refl (List.Subset.refl _) fun x hx => ⟨x, hx, .refl⟩)
        hwrite

theorem Inv.run [DecidableEq δ] (hsha : Function.Injective E.sha256) (ops : List (Catalog.Op σ)) :
    Inv E (Catalog.run E .empty ops) :=
  Transition.run_invariant (fun _ _ _ h hstep => h.step hsha hstep) ops _ .empty

/-! ## Current -/

variable [DecidableEq δ]

/-- **A projection that is not stale is right.** However passes, changes of
calls, prices and deletions interleave: in a project that is not being deleted,
a projection whose stamps do not call it stale is what `compute_projection`
gives at the prices there are now, of the call as it was read since
`projection_seq` last moved. -/
theorem current_projection (hsha : Function.Injective E.sha256) (ops : List (Catalog.Op σ))
    {call : ProjectedCall σ} {row : ProjectionRow φ ψ δ}
    (hcall : (Catalog.run E .empty ops).calls.find? row.key = some call)
    (hrow : (Catalog.run E .empty ops).projections.find? row.key = some row)
    (halive : ¬ (Catalog.run E .empty ops).store.dying row.key.1)
    (hcurrent : ¬ (Catalog.run E .empty ops).Stale call row) :
    ∃ source ∈ call.since, row.projection =
      E.computeProjection call.key.1 call.firstEvidenceUnixNano source
        ((Catalog.run E .empty ops).store.priceRows row.key.1) := by
  have h : RowInv E (Catalog.run E .empty ops) row := (Inv.run hsha ops).rows _ row hrow
  obtain ⟨x, hx, hle, hread⟩ := h.call
  obtain rfl := Option.some.inj (hcall.symm.trans hx)
  simp only [Catalog.Stale, not_or, not_lt] at hcurrent
  obtain ⟨hseq, hproject, hbuiltin, -⟩ := hcurrent
  obtain ⟨prices, ⟨source, hsource, hprojection⟩, hprices⟩ := hread (le_antisymm hle hseq)
  obtain ⟨hversions, hsame⟩ := hprices halive
  rw [Table.key_of_find? hcall] at hproject hbuiltin
  have heq : row.versions = PriceStore.versions row.key.1 (Catalog.run E .empty ops).store :=
    le_antisymm hversions ⟨hproject, hbuiltin⟩
  exact ⟨source, hsource, hsame heq ▸ hprojection⟩

/-- A release whose digests are what they are taken of. -/
def spelledOut : Engine Unit Unit Unit
    (List (Option (Projection Unit Unit ⊕ CostColumns × List CostItem))) where
  lower := id
  spelled := some
  summary := id
  usage := fun _ => []
  detail := id
  fits := fun _ => true
  sha256
    | .projection p => [some (.inl p)]
    | .repriced none columns items => [some (.inr (columns, items))]
    | .repriced (some stored) columns items => some (.inr (columns, items)) :: none :: stored

theorem spelledOut_injective : Function.Injective spelledOut.sha256 := by
  rintro (p | ⟨_ | d, columns, items⟩) (q | ⟨_ | d', columns', items'⟩) h <;>
    simp_all [spelledOut]

/-- A call that is projected, and repriced once a price was added. -/
def repriced : List (Catalog.Op Unit) :=
  [.prices (.provision "p"), .openCall ("p", "c") 5 (), .recordRevision ("p", "c") 1 (),
    .snapshot ("p", "c"), .write 0, .prices (.add none PriceStore.shipped 7),
    .snapshot ("p", "c"), .write 0]

def repricedRow : ProjectionRow Unit Unit
    (List (Option (Projection Unit Unit ⊕ CostColumns × List CostItem))) where
  key := ("p", "c")
  sourceSeq := 1
  versions := (0, 1)
  projectionVersion := CALL_PROJECTION_VERSION
  inputDigest :=
    [some (.inr (⟨none, none, 0⟩, [])), none, some (.inl ⟨(), ⟨none, none, 0⟩, [], (), []⟩)]
  projection := ⟨(), ⟨none, none, 0⟩, [], (), []⟩

theorem current_projection_repriced :
    ∃ source ∈ (⟨("p", "c"), 1, some 1, 5, (), []⟩ : ProjectedCall Unit).since,
      repricedRow.projection =
        spelledOut.computeProjection "p" 5 source
          ((Catalog.run spelledOut .empty repriced).store.priceRows "p") :=
  @current_projection _ _ _ _ spelledOut _ spelledOut_injective repriced _ repricedRow (by rfl)
    (by rfl) (by rintro ⟨r, hr, hdead⟩; cases hr; cases hdead) (by decide)

/-- A pass that reprices has a row to reprice. -/
theorem PassInv.exists_written {c : Catalog σ φ ψ δ} {snap : Snapshot σ ψ δ}
    {computed : Computed φ ψ δ} {call : ProjectedCall σ} {stored : Option (ProjectionRow φ ψ δ)}
    (h : PassInv E c snap computed) (hcall : c.calls.find? snap.key = some call)
    (hseq : call.projectionSeq = snap.projectionSeq)
    (hstored : stored.map (·.inputDigest) = snap.storedDigest) :
    ∃ row, Catalog.written snap stored computed = some row := by
  cases stored with
  | some old => cases computed <;> exact ⟨_, rfl⟩
  | none =>
    have hreads := (h.call call hcall).2.2 hseq.symm
    have hcomputed := h.computed
    unfold Reads at hreads
    unfold Engine.compute at hcomputed
    split at hreads
    · next source hfull =>
      rw [hfull] at hcomputed
      dsimp only at hcomputed
      split at hcomputed
      · obtain rfl := Option.some.inj hcomputed
        exact ⟨_, rfl⟩
      · cases hcomputed
    · obtain ⟨d, -, -, hd, -⟩ := hreads
      cases hstored.trans hd

/-- From any state that a run may reach. -/
theorem Inv.pass (hsha : Function.Injective E.sha256) (h : Inv E c) {key : String × String}
    {snap : Snapshot σ ψ δ} {computed : Computed φ ψ δ} (hactive : c.store.isActive key.1 = true)
    (hsnap : c.snapshot key = some snap) (hcomputed : E.compute snap = some computed) :
    ∃ call row, (Catalog.run E c [.snapshot key, .write 0]).calls.find? key = some call ∧
      (Catalog.run E c [.snapshot key, .write 0]).projections.find? key = some row ∧
      ¬ (Catalog.run E c [.snapshot key, .write 0]).Stale call row := by
  have hpass : PassInv E c snap computed := h.snapshot hsnap hcomputed
  have hread := hsnap
  obtain ⟨call, hcall, hread⟩ := Option.bind_eq_some_iff.mp hread
  obtain ⟨_, -, hread⟩ := Option.bind_eq_some_iff.mp hread
  obtain ⟨revision, hrevision, hread⟩ := Option.map_eq_some_iff.mp hread
  have hfind : c.calls.find? snap.key = some call := by rw [← hread]; exact hcall
  have hseq : call.projectionSeq = snap.projectionSeq := by rw [← hread]
  have hstored : (c.projections.find? snap.key).map (·.inputDigest) = snap.storedDigest := by
    rw [← hread]
  obtain ⟨row, hrow⟩ := hpass.exists_written hfind hseq hstored
  obtain ⟨⟨hkey, hsource, hversions, hversion⟩, -⟩ :=
    hpass.written hsha hfind hseq hstored (fun old hold => h.rows snap.key old hold) hrow
  have hwrite : c.write snap computed = some { c with projections := c.projections.put row } := by
    have hsame : c.store.isActive snap.key.1 ∧ call.projectionSeq = snap.projectionSeq ∧
        call.latestRevision = some snap.revision ∧
        (c.projections.find? snap.key).map (·.inputDigest) = snap.storedDigest :=
      ⟨by rw [← hread]; exact hactive, hseq, by rw [← hread]; exact hrevision, hstored⟩
    rw [Catalog.write, hfind, Option.bind_some, if_pos hsame, hrow]
    rfl
  have hrun : Catalog.run E c [.snapshot key, .write 0] =
      { c with projections := c.projections.put row } := by
    have hfirst : c.step E (.snapshot key) =
        some { c with inFlight := (snap, computed) :: c.inFlight } := by
      rw [Catalog.step, hsnap, Option.bind_some, hcomputed, Option.map_some]
    have hsecond : Catalog.step E { c with inFlight := (snap, computed) :: c.inFlight }
        (.write 0) = some ((c.write snap computed).getD c) := rfl
    rw [Catalog.run, Transition.run_cons, Transition.next_of_some hfirst, Transition.run_cons,
      Transition.next_of_some hsecond, hwrite]
    rfl
  rw [hrun]
  refine ⟨call, row, hcall, ?_, ?_⟩
  · have hkey' : row.key = key := by rw [hkey, ← hread]
    exact Table.find?_put.trans (if_pos hkey')
  · rintro (h | h | h | h)
    · rw [hsource, hseq] at h
      exact Nat.lt_irrefl _ h
    · rw [hversions, ← hread, Table.key_of_find? hcall] at h
      exact Nat.lt_irrefl _ h
    · rw [hversions, ← hread, Table.key_of_find? hcall] at h
      exact Nat.lt_irrefl _ h
    · rw [hversion] at h
      exact Nat.lt_irrefl _ h

/-- **A pass that nothing disturbs leaves the projection current**, whatever
came before it, if the project takes writes and the catalog can store it. -/
theorem pass_current (hsha : Function.Injective E.sha256) (ops : List (Catalog.Op σ))
    {key : String × String} {snap : Snapshot σ ψ δ} {computed : Computed φ ψ δ}
    (hactive : (Catalog.run E .empty ops).store.isActive key.1 = true)
    (hsnap : (Catalog.run E .empty ops).snapshot key = some snap)
    (hcomputed : E.compute snap = some computed) :
    ∃ call row, (Catalog.run E .empty (ops ++ [.snapshot key, .write 0])).calls.find? key =
        some call ∧
      (Catalog.run E .empty (ops ++ [.snapshot key, .write 0])).projections.find? key =
        some row ∧
      ¬ (Catalog.run E .empty (ops ++ [.snapshot key, .write 0])).Stale call row := by
  have hrun : Catalog.run E .empty (ops ++ [.snapshot key, .write 0]) =
      Catalog.run E (Catalog.run E .empty ops) [.snapshot key, .write 0] :=
    Transition.run_append _ _ _ _
  rw [hrun]
  exact (Inv.run hsha ops).pass hsha hactive hsnap hcomputed

theorem pass_current_first :
    ∃ call row, (Catalog.run spelledOut .empty (repriced.take 3 ++
        [.snapshot ("p", "c"), .write 0])).calls.find? ("p", "c") = some call ∧
      (Catalog.run spelledOut .empty (repriced.take 3 ++
        [.snapshot ("p", "c"), .write 0])).projections.find? ("p", "c") = some row ∧
      ¬ (Catalog.run spelledOut .empty (repriced.take 3 ++
        [.snapshot ("p", "c"), .write 0])).Stale call row :=
  pass_current spelledOut_injective (repriced.take 3) (by rfl) (by rfl) (by rfl)

end Earshot.Projecting
