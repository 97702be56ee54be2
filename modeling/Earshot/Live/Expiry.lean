import Earshot.Live.Following
/-!
# Expiry

A pass of `expire` finds the sessions that nobody appended to for long enough,
under the registry's lock, and removes them one by one after it let go of it.
A capture goes to its owner's handler, which checks again: in one step where
calls are kept in memory, and under the call's drain lock where they are
durable, whose ledger is marked first. Any other session is dropped as it is.
Between any two steps of a pass, everything else may happen.
-/

namespace Earshot

namespace Live

open Checkpoint
open Relational

variable {α κ π : Type}

/-! ## What a session is at a time -/

inductive SessionState where
  | live
  | stale
  | abandoned
  | finalized
  deriving DecidableEq

/-- Who disposes of captures. -/
inductive CaptureOwner where
  | memory
  | durable
  deriving DecidableEq

structure ExpiryConfig where
  staleAfterNano : ℕ
  sessionTtlNano : ℕ
  /-- `_capture_expiry_handler` -/
  handler : Option CaptureOwner
  /-- The project of the followed directory. -/
  projectId : String

/-- What the age of a session is told by. -/
structure Stamp where
  source : Source
  closeObserved : Bool
  lastAppendUnixNano : ℕ
  deriving DecidableEq

def LiveSession.stamp (session : LiveSession κ π) : Stamp :=
  ⟨session.source, session.closeObserved, session.lastAppendUnixNano⟩

namespace ExpiryConfig

variable (X : ExpiryConfig)

/-- `_LiveSession.state` -/
def state (stamp : Stamp) (now : ℕ) : SessionState :=
  if stamp.closeObserved then .finalized
  else if stamp.lastAppendUnixNano + X.sessionTtlNano ≤ now then .abandoned
  else if stamp.lastAppendUnixNano + X.staleAfterNano ≤ now then .stale
  else .live

/-- Who is asked to remove a session of a source. -/
def ownerOf (source : Source) : Option CaptureOwner :=
  if source = .capture then X.handler else none

end ExpiryConfig

/-! ## Passes -/

/-- What `expire_session` reads of a ledger. -/
structure CaptureOwnership where
  /-- The project, the call and the correlation key are the call's. -/
  owned : Bool
  finalized : Bool
  sealed : Bool
  expired : Bool
  deriving DecidableEq

/-- A session that a pass found abandoned, as it was found. -/
structure Found where
  key : String × String
  seen : Stamp
  seenAt : ℕ

/-- Where a pass is with its next session. -/
inductive Phase where
  | waiting
  /-- The drain lock is held, and the session is still abandoned. -/
  | checked
  /-- The ledger says that the call expired. -/
  | marked
  deriving DecidableEq

structure Pass where
  stale : List Found
  phase : Phase

/-- How the next step of a pass ends. -/
inductive ExpiryFate where
  | done
  /-- `ProjectInactiveError` -/
  | inactive
  /-- An `OSError` before the ledger is written. -/
  | refused
  /-- An `OSError` after the ledger was written. -/
  | torn
  deriving DecidableEq

/-- A session that a pass removed, when, and what the call's ledger then said. -/
structure Expired (κ π : Type) where
  session : LiveSession κ π
  removedAt : ℕ
  ledger : Option CaptureOwnership

structure Expiring (κ π : Type) where
  registry : Registry κ π
  ledgers : String × String → Option CaptureOwnership
  passes : List Pass
  /-- What passes removed. Nothing reads it. -/
  expired : List (Expired κ π)

/-- Whether a pass holds a call's drain lock. -/
def Pass.holds (pass : Pass) (key : String × String) : Bool :=
  pass.phase ≠ .waiting && pass.stale.head?.any fun found => decide (found.key = key)

namespace Expiring

variable (X : ExpiryConfig) (e : Expiring κ π)

/-- `_retain_drain_lock` waits. -/
def held (key : String × String) : Bool := e.passes.any fun pass => pass.holds key

/-- `_detach_session_locked`, of one that expired. -/
def detach (key : String × String) (now : ℕ) : Expiring κ π :=
  match e.registry.sessions.find? key with
  | none => e
  | some session =>
      { e with
        registry := { e.registry with
          sessions := e.registry.sessions.delete fun other => decide (other.key = key) }
        expired := e.expired ++ [⟨session, now, e.ledgers key⟩] }

/-- `drop_capture_session_if_abandoned` -/
def detachIfAbandoned (key : String × String) (now : ℕ) : Expiring κ π :=
  match e.registry.sessions.find? key with
  | none => e
  | some session =>
      if session.source = .capture ∧ X.state session.stamp now = .abandoned then e.detach key now
      else e

/-- A pass goes on with what is left. -/
def goOn (index : ℕ) (rest : List Found) : Expiring κ π :=
  { e with passes := e.passes.set index ⟨rest, .waiting⟩ }

/-- `expire_session`, until the drain lock is held and the session is seen. -/
def check (index : ℕ) (found : Found) (rest : List Found) (now : ℕ) : Expiring κ π :=
  if e.held found.key then e
  else
    match e.registry.sessions.find? found.key with
    | none => e.goOn index rest
    | some session =>
        if X.state session.stamp now = .abandoned then
          { e with
            passes := e.passes.set index ⟨⟨found.key, session.stamp, now⟩ :: rest, .checked⟩ }
        else e.goOn index rest

/-- `expire_session`, of the ledger. -/
def mark (index : ℕ) (found : Found) (rest : List Found) (fate : ExpiryFate) : Expiring κ π :=
  match e.ledgers found.key with
  | none => e.goOn index rest
  | some ledger =>
      if fate = .refused ∨ ledger.owned = false ∨ ledger.finalized = true ∨
          ledger.sealed = true then e.goOn index rest
      else
        let marked := { e with
          ledgers := Function.update e.ledgers found.key (some { ledger with expired := true }) }
        if fate = .torn ∧ ledger.expired = false then marked.goOn index rest
        else { marked with passes := e.passes.set index ⟨found :: rest, .marked⟩ }

/-- The next step of a pass. -/
def turn (index now : ℕ) (fate : ExpiryFate) : Expiring κ π :=
  match e.passes[index]? with
  | none | some ⟨[], _⟩ => e
  | some ⟨found :: rest, .waiting⟩ =>
      match X.ownerOf found.seen.source with
      | none => (e.detach found.key now).goOn index rest
      | some .memory =>
          if fate = .inactive then e.goOn index rest
          else (e.detachIfAbandoned X found.key now).goOn index rest
      | some .durable =>
          if fate = .inactive then e.goOn index rest else e.check X index found rest now
  | some ⟨found :: rest, .checked⟩ => e.mark index found rest fate
  | some ⟨found :: rest, .marked⟩ => (e.detach found.key now).goOn index rest

def staleAt (now : ℕ) : List Found :=
  (e.registry.sessions.rows.filter fun session =>
    decide (X.state session.stamp now = .abandoned)).map fun session =>
      ⟨session.key, session.stamp, now⟩

/-- The scan of `expire`. -/
def scan (now : ℕ) : Expiring κ π :=
  { e with passes := e.passes ++ [⟨e.staleAt X now, .waiting⟩] }

end Expiring

/-! ## Everything else -/

/-- A step of a pass, or of anything else that goes on. -/
inductive ExpiryOp (α κ π : Type) where
  | scan (now : ℕ)
  | turn (index now : ℕ) (fate : ExpiryFate)
  | upload (upload : Upload)
  | publish (now : ℕ) (tracked : TrackedFile) (file : JournalFile α) (allowReplacement : Bool)
  /-- A drain appends the entries of its call. -/
  | append (append : Append α)
  /-- A drain rebuilds its call's session. -/
  | rebuild (session : LiveSession κ π)
  /-- A drain or a seal writes its call's ledger. -/
  | ledger (key : String × String) (ledger : Option CaptureOwnership)
  /-- A session is sealed, superseded or rolled back, or its project deleted. -/
  | drop (key : String × String)
  | join (subscriber : ℕ) (key : String × String)
  | leave (subscriber : ℕ) (key : String × String)

namespace Expiring

/-- The subscribers of a session change. -/
def subscribing (e : Expiring κ π) (key : String × String) (change : List ℕ → List ℕ) :
    Expiring κ π :=
  match e.registry.sessions.find? key with
  | none => e
  | some session =>
      { e with registry := { e.registry with
          sessions := e.registry.sessions.put
            { session with subscribers := change session.subscribers } } }

/-- No pass has begun. -/
def init (registry : Registry κ π) (ledgers : String × String → Option CaptureOwnership) :
    Expiring κ π := ⟨registry, ledgers, [], []⟩

variable [DecidableEq κ] (R : Governance α κ π) (config : LiveConfig) (X : ExpiryConfig)
  (encode : ℕ → Checkpoint.JournalEntry α → Option Bytes) (e : Expiring κ π)

/-- One step. What needs a drain lock that a pass holds waits for it. -/
def step : ExpiryOp α κ π → Expiring κ π
  | .scan now => e.scan X now
  | .turn index now fate => e.turn X index now fate
  | .upload upload => { e with registry := (acceptFrames R config e.registry upload).2 }
  | .publish now tracked file allowReplacement =>
      { e with registry :=
          (publishReplayBatch R config X.projectId e.registry now tracked file
            allowReplacement).registry }
  | .append append =>
      if e.held append.key then e
      else { e with registry := acceptRecords R config encode e.registry append }
  | .rebuild session =>
      if e.held session.key ∨ (e.registry.sessions.find? session.key).isSome = true ∨
          session.source ≠ .capture then e
      else { e with registry := { e.registry with sessions := e.registry.sessions.put session } }
  | .ledger key ledger =>
      if e.held key then e else { e with ledgers := Function.update e.ledgers key ledger }
  | .drop key =>
      { e with registry := { e.registry with
          sessions := e.registry.sessions.delete fun other => decide (other.key = key) } }
  | .join subscriber key => e.subscribing key (· ++ [subscriber])
  | .leave subscriber key => e.subscribing key (·.filter (· ≠ subscriber))

def run (ops : List (ExpiryOp α κ π)) : Expiring κ π := ops.foldl (step R config X encode) e

end Expiring

/-! ## Soundness -/

section Soundness

variable (X : ExpiryConfig)

/-- What was removed was abandoned then, and the ledger of a durable capture
said so before. -/
structure Expired.Sound (removed : Expired κ π) : Prop where
  abandoned : X.state removed.session.stamp removed.removedAt = .abandoned
  marked : removed.session.source = .capture → X.handler = some .durable →
    ∃ ledger, removed.ledger = some ledger ∧ ledger.owned = true ∧ ledger.expired = true

/-- A session that a pass will remove without another look at it. -/
def Pass.Condemns (pass : Pass) (found : Found) : Prop :=
  (found ∈ pass.stale ∧ X.ownerOf found.seen.source = none) ∨
    (pass.phase ≠ .waiting ∧ pass.stale.head? = some found)

theorem Pass.Condemns.mem {X : ExpiryConfig} {pass : Pass} {found : Found}
    (h : pass.Condemns X found) : found ∈ pass.stale :=
  h.elim And.left fun h => List.mem_of_head? h.2

/-- A session that is still there has not been appended to, closed or replaced. -/
def Spared (e e' : Expiring κ π) (key : String × String) : Prop :=
  ∀ session', e'.registry.sessions.find? key = some session' →
    ∃ session, e.registry.sessions.find? key = some session ∧ session.stamp = session'.stamp

/-! ### What a pass rests on -/

/-- What a pass rests on: what it condemned is still as it was found, and was
abandoned then, and what it will remove is marked. -/
structure Pass.Kept (e : Expiring κ π) (pass : Pass) : Prop where
  abandoned : ∀ found, pass.Condemns X found → X.state found.seen found.seenAt = .abandoned
  same : ∀ found, pass.Condemns X found → ∀ session,
    e.registry.sessions.find? found.key = some session → session.stamp = found.seen
  marked : pass.phase = .marked → ∀ found, pass.stale.head? = some found →
    ∃ ledger, e.ledgers found.key = some ledger ∧ ledger.owned = true ∧ ledger.expired = true

structure Expiring.Inv (e : Expiring κ π) : Prop where
  kept : ∀ pass ∈ e.passes, pass.Kept X e
  sound : ∀ removed ∈ e.expired, removed.Sound X

variable {X} {e e' : Expiring κ π}

theorem Spared.of_registry (h : e'.registry = e.registry) (key : String × String) :
    Spared e e' key := by
  intro session' hfind
  exact ⟨session', h ▸ hfind, rfl⟩

/-- A pass rests on the sessions it condemned and on the ledger it marked. -/
theorem Pass.Kept.transfer {pass : Pass} (hkept : pass.Kept X e)
    (hspared : ∀ found, pass.Condemns X found → Spared e e' found.key)
    (hledger : ∀ found, pass.phase = .marked → pass.stale.head? = some found →
      ∀ ledger, e.ledgers found.key = some ledger → ledger.owned = true →
        ledger.expired = true → ∃ ledger', e'.ledgers found.key = some ledger' ∧
          ledger'.owned = true ∧ ledger'.expired = true) : pass.Kept X e' := by
  refine ⟨hkept.abandoned, ?_, ?_⟩
  · intro found hfound session' hfind
    obtain ⟨session, hsession, hstamp⟩ := hspared found hfound session' hfind
    rw [← hstamp]
    exact hkept.same found hfound session hsession
  · intro hphase found hhead
    obtain ⟨ledger, hledger', howned, hexpired⟩ := hkept.marked hphase found hhead
    exact hledger found hphase hhead ledger hledger' howned hexpired

/-- What is left of a pass rests on less. -/
theorem Pass.Kept.rest {found : Found} {rest : List Found} {phase : Phase}
    (hkept : Pass.Kept X e ⟨found :: rest, phase⟩) : Pass.Kept X e ⟨rest, .waiting⟩ := by
  have hold : ∀ other, Pass.Condemns X ⟨rest, .waiting⟩ other →
      Pass.Condemns X ⟨found :: rest, phase⟩ other := by
    rintro other (⟨hmem, howner⟩ | ⟨hphase, -⟩)
    · exact .inl ⟨List.mem_cons_of_mem _ hmem, howner⟩
    · exact absurd rfl hphase
  exact ⟨fun other h => hkept.abandoned other (hold other h),
    fun other h => hkept.same other (hold other h), fun h => by cases h⟩

/-- A pass that changes is all that has to be seen. -/
theorem Expiring.Inv.set {index : ℕ} {pass : Pass} (hinv : e.Inv X) (hkept : pass.Kept X e) :
    Expiring.Inv X { e with passes := e.passes.set index pass } := by
  have htransfer : ∀ other : Pass, other.Kept X e →
      other.Kept X { e with passes := e.passes.set index pass } := fun other hother =>
    hother.transfer (fun _ _ => Spared.of_registry rfl _)
      fun _ _ _ ledger hledger howned hexpired => ⟨ledger, hledger, howned, hexpired⟩
  refine ⟨?_, hinv.sound⟩
  intro other hother
  rcases List.mem_or_eq_of_mem_set hother with hmem | rfl
  · exact htransfer other (hinv.kept other hmem)
  · exact htransfer _ hkept

theorem Expiring.Inv.goOn {index : ℕ} {found : Found} {rest : List Found} {phase : Phase}
    (hinv : e.Inv X) (hkept : Pass.Kept X e ⟨found :: rest, phase⟩) :
    (e.goOn index rest).Inv X := hinv.set hkept.rest

/-! ### Removals -/

@[simp]
theorem Expiring.detach_passes (key : String × String) (now : ℕ) :
    (e.detach key now).passes = e.passes := by
  rw [Expiring.detach]
  split <;> rfl

@[simp]
theorem Expiring.detach_ledgers (key : String × String) (now : ℕ) :
    (e.detach key now).ledgers = e.ledgers := by
  rw [Expiring.detach]
  split <;> rfl

/-- A removal touches nothing that stays. -/
theorem Expiring.detach_spared (key : String × String) (now : ℕ) (other : String × String) :
    Spared e (e.detach key now) other := by
  intro session' hfind
  rw [Expiring.detach] at hfind
  split at hfind
  · exact ⟨session', hfind, rfl⟩
  · rw [Table.find?_delete, Option.filter_eq_some_iff] at hfind
    exact ⟨session', hfind.1, rfl⟩

theorem Pass.Kept.detach {pass : Pass} (hkept : pass.Kept X e) (key : String × String)
    (now : ℕ) : pass.Kept X (e.detach key now) := by
  refine hkept.transfer (fun _ _ => Expiring.detach_spared key now _) ?_
  intro found _ _ ledger hledger howned hexpired
  rw [Expiring.detach_ledgers]
  exact ⟨ledger, hledger, howned, hexpired⟩

/-- A session that is abandoned now, and marked where it is a durable capture,
may be removed. -/
theorem Expiring.Inv.detach {key : String × String} {now : ℕ} (hinv : e.Inv X)
    (habandoned : ∀ session, e.registry.sessions.find? key = some session →
      X.state session.stamp now = .abandoned)
    (hmarked : ∀ session, e.registry.sessions.find? key = some session →
      session.source = .capture → X.handler = some .durable →
      ∃ ledger, e.ledgers key = some ledger ∧ ledger.owned = true ∧ ledger.expired = true) :
    (e.detach key now).Inv X := by
  refine ⟨?_, ?_⟩
  · intro pass hpass
    rw [Expiring.detach_passes] at hpass
    exact (hinv.kept pass hpass).detach key now
  · intro removed hremoved
    rw [Expiring.detach] at hremoved
    split at hremoved
    · exact hinv.sound removed hremoved
    · next session hfind =>
      rcases List.mem_append.mp hremoved with hold | hnew
      · exact hinv.sound removed hold
      · obtain rfl := List.mem_singleton.mp hnew
        exact ⟨habandoned session hfind, hmarked session hfind⟩

/-- What was abandoned stays so as the clock goes on. -/
theorem ExpiryConfig.abandoned_mono {stamp : Stamp} {before now : ℕ}
    (h : X.state stamp before = .abandoned) (hle : before ≤ now) :
    X.state stamp now = .abandoned := by
  unfold ExpiryConfig.state at h ⊢
  split at h
  · cases h
  · next hopen =>
    split at h
    · next hold => rw [if_neg hopen, if_pos (Nat.le_trans hold hle)]
    · split at h <;> cases h

/-- A condemned session may be removed. -/
theorem Pass.Kept.abandoned_now {pass : Pass} {found : Found} {now : ℕ}
    (hkept : pass.Kept X e) (hfound : pass.Condemns X found) (hle : found.seenAt ≤ now)
    {session : LiveSession κ π} (hfind : e.registry.sessions.find? found.key = some session) :
    X.state session.stamp now = .abandoned := by
  rw [hkept.same found hfound session hfind]
  exact X.abandoned_mono (hkept.abandoned found hfound) hle

/-- **The handler of memory captures looks again**, in the step that removes. -/
theorem Expiring.Inv.detachIfAbandoned {key : String × String} {now : ℕ} (hinv : e.Inv X)
    (hmemory : X.handler = some .memory) : (e.detachIfAbandoned X key now).Inv X := by
  rw [Expiring.detachIfAbandoned]
  split
  · exact hinv
  · next session hfind =>
    split
    · next hstill =>
      refine hinv.detach (fun other hother => ?_) fun _ _ _ hdurable => ?_
      · obtain rfl := Option.some.inj (hfind.symm.trans hother)
        exact hstill.2
      · exact absurd (hmemory.symm.trans hdurable) (by decide)
    · exact hinv

theorem Expiring.detachIfAbandoned_spared (key : String × String) (now : ℕ)
    (other : String × String) : Spared e (e.detachIfAbandoned X key now) other := by
  rw [Expiring.detachIfAbandoned]
  split
  · exact Spared.of_registry rfl other
  · split
    · exact Expiring.detach_spared key now other
    · exact Spared.of_registry rfl other

theorem Pass.Kept.detachIfAbandoned {pass : Pass} (hkept : pass.Kept X e)
    (key : String × String) (now : ℕ) : pass.Kept X (e.detachIfAbandoned X key now) := by
  rw [Expiring.detachIfAbandoned]
  split
  · exact hkept
  · split
    · exact hkept.detach key now
    · exact hkept

/-- **The handler of durable captures looks again** under the drain lock. -/
theorem Expiring.Inv.check {index : ℕ} {found : Found} {rest : List Found} {now : ℕ}
    {phase : Phase} (hinv : e.Inv X) (hkept : Pass.Kept X e ⟨found :: rest, phase⟩) :
    (e.check X index found rest now).Inv X := by
  rw [Expiring.check]
  split
  · exact hinv
  · split
    · exact hinv.goOn hkept
    · next session hfind =>
      split
      · next hstill =>
        refine hinv.set ⟨?_, ?_, fun h => by cases h⟩
        · rintro other (⟨hmem, howner⟩ | ⟨-, hhead⟩)
          · rcases List.mem_cons.mp hmem with rfl | hmem
            · exact hstill
            · exact hkept.rest.abandoned other (.inl ⟨hmem, howner⟩)
          · obtain rfl := Option.some.inj hhead
            exact hstill
        · rintro other (⟨hmem, howner⟩ | ⟨-, hhead⟩) session' hfind'
          · rcases List.mem_cons.mp hmem with rfl | hmem
            · obtain rfl := Option.some.inj (hfind.symm.trans hfind')
              rfl
            · exact hkept.rest.same other (.inl ⟨hmem, howner⟩) session' hfind'
          · obtain rfl := Option.some.inj hhead
            obtain rfl := Option.some.inj (hfind.symm.trans hfind')
            rfl
      · exact hinv.goOn hkept

/-- A call that is marked stays so when another is. -/
theorem Pass.Kept.update {pass : Pass} (hkept : pass.Kept X e) (key : String × String)
    {ledger : CaptureOwnership} (howned : ledger.owned = true) :
    pass.Kept X { e with
      ledgers := Function.update e.ledgers key (some { ledger with expired := true }) } := by
  refine hkept.transfer (fun _ _ => Spared.of_registry rfl _) ?_
  intro found _ _ ledger' hledger' howned' hexpired'
  rcases eq_or_ne found.key key with heq | hne
  · rw [heq]
    exact ⟨_, Function.update_self _ _ _, howned, rfl⟩
  · exact ⟨ledger', (Function.update_of_ne hne _ _).trans hledger', howned', hexpired'⟩

/-- **The ledger is marked** before the session is removed. -/
theorem Expiring.Inv.mark {index : ℕ} {found : Found} {rest : List Found} {fate : ExpiryFate}
    (hinv : e.Inv X) (hkept : Pass.Kept X e ⟨found :: rest, .checked⟩) :
    (e.mark index found rest fate).Inv X := by
  rw [Expiring.mark]
  split
  · exact hinv.goOn hkept
  · next ledger hledger =>
    split
    · exact hinv.goOn hkept
    · next hproven =>
      have howned : ledger.owned = true := by
        simpa using fun h => hproven (.inr (.inl h))
      have hmarked : Expiring.Inv X { e with
          ledgers := Function.update e.ledgers found.key (some { ledger with expired := true }) } :=
        ⟨fun pass hpass => (hinv.kept pass hpass).update found.key howned, hinv.sound⟩
      have hpass := hkept.update found.key howned
      dsimp only
      split
      · exact hmarked.goOn hpass
      · have hold : ∀ other, Pass.Condemns X ⟨found :: rest, .marked⟩ other →
            Pass.Condemns X ⟨found :: rest, .checked⟩ other :=
          fun _ h => h.imp_right fun h => ⟨by simp, h.2⟩
        refine hmarked.set ⟨fun other h => hpass.abandoned other (hold other h),
          fun other h => hpass.same other (hold other h), ?_⟩
        intro _ other hhead
        obtain rfl := Option.some.inj hhead
        exact ⟨_, Function.update_self _ _ _, howned, rfl⟩

/-- A pass touches nothing that stays. -/
theorem Expiring.turn_spared (index now : ℕ) (fate : ExpiryFate) (other : String × String) :
    Spared e (e.turn X index now fate) other := by
  rw [Expiring.turn]
  split
  · exact Spared.of_registry rfl other
  · exact Spared.of_registry rfl other
  · next found rest _ =>
    split
    · exact Expiring.detach_spared found.key now other
    · split
      · exact Spared.of_registry rfl other
      · exact Expiring.detachIfAbandoned_spared found.key now other
    · split
      · exact Spared.of_registry rfl other
      · refine Spared.of_registry ?_ other
        rw [Expiring.check]
        split
        · rfl
        · split
          · rfl
          · split <;> rfl
  · refine Spared.of_registry ?_ other
    rw [Expiring.mark]
    split
    · rfl
    · split
      · rfl
      · dsimp only
        split <;> rfl
  · next found rest _ => exact Expiring.detach_spared found.key now other

/-- **One step of a pass** removes nothing but what is abandoned then. -/
theorem Expiring.Inv.turn {index now : ℕ} {fate : ExpiryFate} (hinv : e.Inv X)
    (hclock : ∀ pass, e.passes[index]? = some pass → ∀ found, pass.Condemns X found →
      found.seenAt ≤ now) : (e.turn X index now fate).Inv X := by
  rw [Expiring.turn]
  split
  · exact hinv
  · exact hinv
  · next found rest hpass =>
    have hkept := hinv.kept _ (List.mem_of_getElem? hpass)
    split
    · next howner =>
      have hcondemned : Pass.Condemns X ⟨found :: rest, .waiting⟩ found :=
        .inl ⟨List.mem_cons_self, howner⟩
      refine Expiring.Inv.goOn (hinv.detach (fun session hfind =>
        hkept.abandoned_now hcondemned (hclock _ hpass found hcondemned) hfind) ?_)
        (hkept.detach found.key now)
      intro session hfind hcapture hdurable
      rw [← hkept.same found hcondemned session hfind, ExpiryConfig.ownerOf,
        LiveSession.stamp, if_pos hcapture, hdurable] at howner
      cases howner
    · next howner =>
      have hmemory : X.handler = some .memory := by
        rw [ExpiryConfig.ownerOf] at howner
        split at howner
        · exact howner
        · cases howner
      split
      · exact hinv.goOn hkept
      · exact (hinv.detachIfAbandoned hmemory).goOn (hkept.detachIfAbandoned found.key now)
    · split
      · exact hinv.goOn hkept
      · exact hinv.check hkept
  · next found rest hpass => exact hinv.mark (hinv.kept _ (List.mem_of_getElem? hpass))
  · next found rest hpass =>
    have hkept := hinv.kept _ (List.mem_of_getElem? hpass)
    have hcondemned : Pass.Condemns X ⟨found :: rest, .marked⟩ found :=
      .inr ⟨by simp, rfl⟩
    refine Expiring.Inv.goOn (hinv.detach (fun session hfind =>
      hkept.abandoned_now hcondemned (hclock _ hpass found hcondemned) hfind)
      fun _ _ _ _ => hkept.marked rfl found rfl) (hkept.detach found.key now)

end Soundness

/-! ### Runs -/

section Runs

variable [DecidableEq κ] (R : Governance α κ π) (config : LiveConfig) (X : ExpiryConfig)
  (encode : ℕ → Checkpoint.JournalEntry α → Option Bytes)

/-- No condemned session is touched, and the clock is not put back before it is
removed. -/
def Expiring.Quiet (e : Expiring κ π) (op : ExpiryOp α κ π) : Prop :=
  (∀ pass ∈ e.passes, ∀ found, pass.Condemns X found →
    Spared e (e.step R config X encode op) found.key) ∧
  ∀ index now fate, op = .turn index now fate →
    ∀ pass, e.passes[index]? = some pass → ∀ found, pass.Condemns X found → found.seenAt ≤ now

def Expiring.QuietRun : Expiring κ π → List (ExpiryOp α κ π) → Prop
  | _, [] => True
  | e, op :: ops => e.Quiet R config X encode op ∧ (e.step R config X encode op).QuietRun ops

variable {R config X encode} {e e' : Expiring κ π}

omit [DecidableEq κ] in
/-- A pass that marked a call holds its drain lock. -/
theorem Expiring.held_of_marked {pass : Pass} {found : Found} (hpass : pass ∈ e.passes)
    (hphase : pass.phase = .marked) (hhead : pass.stale.head? = some found) :
    e.held found.key = true := by
  rw [Expiring.held, List.any_eq_true]
  refine ⟨pass, hpass, ?_⟩
  rw [Pass.holds, hphase, hhead]
  simp

omit [DecidableEq κ] in
/-- What goes on beside the passes spares what they condemned, and waits for the
drain locks they hold. -/
theorem Expiring.Inv.beside (hinv : e.Inv X) (hpasses : e'.passes = e.passes)
    (hexpired : e'.expired = e.expired)
    (hspared : ∀ pass ∈ e.passes, ∀ found, pass.Condemns X found → Spared e e' found.key)
    (hledgers : ∀ key, e.held key = true → e'.ledgers key = e.ledgers key) : e'.Inv X := by
  refine ⟨?_, ?_⟩
  · intro pass hpass
    rw [hpasses] at hpass
    refine (hinv.kept pass hpass).transfer (hspared pass hpass) ?_
    intro found hphase hhead ledger hledger howned hexpired
    refine ⟨ledger, ?_, howned, hexpired⟩
    rw [hledgers found.key (Expiring.held_of_marked hpass hphase hhead), hledger]
  · rw [hexpired]
    exact hinv.sound

omit [DecidableEq κ] in
/-- A scan finds what is abandoned. -/
theorem Expiring.Inv.scan {now : ℕ} (hinv : e.Inv X) : (e.scan X now).Inv X := by
  refine ⟨?_, hinv.sound⟩
  intro pass hpass
  rcases List.mem_append.mp hpass with hold | hnew
  · exact (hinv.kept pass hold).transfer (fun _ _ => Spared.of_registry rfl _)
      fun _ _ _ ledger hledger howned hexpired => ⟨ledger, hledger, howned, hexpired⟩
  · obtain rfl := List.mem_singleton.mp hnew
    have hfound : ∀ found, Pass.Condemns X ⟨e.staleAt X now, .waiting⟩ found →
        ∃ session ∈ e.registry.sessions.rows, X.state session.stamp now = .abandoned ∧
          found = ⟨session.key, session.stamp, now⟩ := by
      rintro found (⟨hmem, -⟩ | ⟨hphase, -⟩)
      · obtain ⟨session, hsession, rfl⟩ := List.mem_map.mp hmem
        obtain ⟨hrow, hstate⟩ := List.mem_filter.mp hsession
        exact ⟨session, hrow, of_decide_eq_true hstate, rfl⟩
      · exact absurd rfl hphase
    refine ⟨?_, ?_, fun h => by cases h⟩
    · intro found hcondemned
      obtain ⟨session, -, hstate, rfl⟩ := hfound found hcondemned
      exact hstate
    · intro found hcondemned session' hfind
      obtain ⟨session, hrow, -, rfl⟩ := hfound found hcondemned
      obtain rfl := Option.some.inj ((Table.find?_of_mem hrow).symm.trans hfind)
      rfl

omit [DecidableEq κ] in
theorem Expiring.subscribing_passes (key : String × String) (change : List ℕ → List ℕ) :
    (e.subscribing key change).passes = e.passes ∧
      (e.subscribing key change).expired = e.expired ∧
      (e.subscribing key change).ledgers = e.ledgers := by
  rw [Expiring.subscribing]
  split <;> exact ⟨rfl, rfl, rfl⟩

/-- **One step** keeps what the passes rest on, where it is quiet. -/
theorem Expiring.Inv.step {op : ExpiryOp α κ π} (hinv : e.Inv X)
    (hquiet : e.Quiet R config X encode op) : (e.step R config X encode op).Inv X := by
  obtain ⟨hspared, hclock⟩ := hquiet
  cases op with
  | scan now => exact hinv.scan
  | turn index now fate => exact hinv.turn (hclock index now fate rfl)
  | upload upload => exact hinv.beside rfl rfl hspared fun _ _ => rfl
  | publish now tracked file allowReplacement =>
    exact hinv.beside rfl rfl hspared fun _ _ => rfl
  | append append =>
    by_cases hheld : e.held append.key = true
    · rw [Expiring.step, if_pos hheld]
      exact hinv
    · rw [Expiring.step, if_neg hheld] at hspared ⊢
      exact hinv.beside rfl rfl hspared fun _ _ => rfl
  | rebuild session =>
    rw [Expiring.step] at hspared ⊢
    split at hspared
    · next h =>
      rw [if_pos h]
      exact hinv
    · next h =>
      rw [if_neg h]
      exact hinv.beside rfl rfl hspared fun _ _ => rfl
  | ledger key ledger =>
    by_cases hheld : e.held key = true
    · rw [Expiring.step, if_pos hheld]
      exact hinv
    · rw [Expiring.step, if_neg hheld] at hspared ⊢
      refine hinv.beside rfl rfl hspared fun other hother => ?_
      have hne : other ≠ key := by
        rintro rfl
        exact hheld hother
      exact Function.update_of_ne hne _ _
  | drop key => exact hinv.beside rfl rfl hspared fun _ _ => rfl
  | join subscriber key =>
    obtain ⟨hpasses, hexpired, hledgers⟩ :=
      Expiring.subscribing_passes (e := e) key (· ++ [subscriber])
    exact hinv.beside hpasses hexpired hspared fun other _ => congrFun hledgers other
  | leave subscriber key =>
    obtain ⟨hpasses, hexpired, hledgers⟩ :=
      Expiring.subscribing_passes (e := e) key (·.filter (· ≠ subscriber))
    exact hinv.beside hpasses hexpired hspared fun other _ => congrFun hledgers other

theorem Expiring.Inv.run : ∀ {ops : List (ExpiryOp α κ π)} {e : Expiring κ π}, e.Inv X →
    e.QuietRun R config X encode ops → (e.run R config X encode ops).Inv X := by
  intro ops
  induction ops with
  | nil => exact fun hinv _ => hinv
  | cons op ops ih => exact fun hinv hquiet => ih (hinv.step hquiet.1) hquiet.2

omit [DecidableEq κ] in
theorem Expiring.seenAt_of_staleAt {now : ℕ} {found : Found} (h : found ∈ e.staleAt X now) :
    found.seenAt = now := by
  obtain ⟨session, -, rfl⟩ := List.mem_map.mp h
  rfl

omit [DecidableEq κ] in
theorem Expiring.init_inv (registry : Registry κ π)
    (ledgers : String × String → Option CaptureOwnership) :
    (Expiring.init registry ledgers).Inv X :=
  ⟨fun _ h => absurd h List.not_mem_nil, fun _ h => absurd h List.not_mem_nil⟩

variable (R config X encode)

/-- **Expiry removes only what is abandoned**, and marks a durable capture
before, in every run in which no condemned session is touched and the clock is
not put back before a removal. -/
theorem expired_sound (registry : Registry κ π)
    (ledgers : String × String → Option CaptureOwnership) (ops : List (ExpiryOp α κ π))
    (hquiet : (Expiring.init registry ledgers).QuietRun R config X encode ops) :
    ∀ removed ∈ ((Expiring.init registry ledgers).run R config X encode ops).expired,
      removed.Sound X :=
  (Expiring.Inv.run (Expiring.init_inv registry ledgers) hquiet).sound

end Runs

/-! ### A session that comes back to life -/

/-- A header, and a record. -/
def briefGovernance : Governance Unit Unit Unit :=
  { sampleGovernance with
    decodeEntry := fun
      | [1] => some (.opened (sampleHeader "first" "session"))
      | [3] => some (.record ())
      | _ => none }

def briefExpiry : ExpiryConfig :=
  { staleAfterNano := 10
    sessionTtlNano := 900
    handler := some .durable
    projectId := "project" }

/-- An upload of one frame. -/
def briefUpload (sequence : ℕ) (body : UInt8) (now : ℕ) : Upload :=
  { projectId := "project"
    sessionId := "session"
    payload := Frame.bytes ⟨sequence, [body]⟩
    now := now }

/-- A pass that nothing disturbs. -/
def undisturbed : List (ExpiryOp Unit Unit Unit) :=
  [.upload (briefUpload 1 1 0), .scan 900, .turn 0 901 .done]

/-- An upload goes on between the scan and the removal. -/
def disturbed : List (ExpiryOp Unit Unit Unit) :=
  [.upload (briefUpload 1 1 0), .scan 900, .upload (briefUpload 2 3 900), .turn 0 901 .done]

/-- The session is removed, and was abandoned. -/
theorem expired_sound_undisturbed :
    ((Expiring.init Registry.empty fun _ => none).run briefGovernance smallConfig
      briefExpiry (fun _ _ => none) undisturbed).expired.length = 1 ∧
    ∀ removed ∈ ((Expiring.init Registry.empty fun _ => none).run briefGovernance smallConfig
      briefExpiry (fun _ _ => none) undisturbed).expired, removed.Sound briefExpiry := by
  refine ⟨by decide +kernel, expired_sound briefGovernance smallConfig briefExpiry
    (fun _ _ => none) Registry.empty (fun _ => none) undisturbed
    ⟨⟨?_, ?_⟩, ⟨?_, ?_⟩, ⟨?_, ?_⟩, trivial⟩⟩
  · exact fun pass hpass => absurd hpass List.not_mem_nil
  · rintro _ _ _ ⟨⟩
  · exact fun pass hpass => absurd hpass List.not_mem_nil
  · rintro _ _ _ ⟨⟩
  · exact fun pass _ found _ => Expiring.turn_spared _ _ _ _
  · rintro index now fate ⟨⟩ pass hpass found hcondemned
    obtain rfl := Option.some.inj hpass
    rw [Expiring.seenAt_of_staleAt hcondemned.mem]
    decide

/-- **A session that is uploaded to after the scan is dropped all the same.** -/
theorem not_expired_sound_disturbed :
    ¬ ∀ removed ∈ ((Expiring.init Registry.empty fun _ => none).run briefGovernance smallConfig
      briefExpiry (fun _ _ => none) disturbed).expired, removed.Sound briefExpiry := by
  intro hsound
  have hstates : ((Expiring.init Registry.empty fun _ => none).run briefGovernance smallConfig
      briefExpiry (fun _ _ => none) disturbed).expired.map (fun removed =>
        briefExpiry.state removed.session.stamp removed.removedAt) = [.live] := by
    decide +kernel
  obtain ⟨removed, hremoved⟩ := List.exists_mem_of_length_pos
    (l := ((Expiring.init Registry.empty fun _ => none).run briefGovernance smallConfig
      briefExpiry (fun _ _ => none) disturbed).expired)
    (by rw [← List.length_map, hstates]; decide)
  have hlive := List.mem_map_of_mem (f := fun removed : Expired Unit Unit =>
    briefExpiry.state removed.session.stamp removed.removedAt) hremoved
  rw [hstates, List.mem_singleton, (hsound removed hremoved).abandoned] at hlive
  cases hlive

end Live

end Earshot
