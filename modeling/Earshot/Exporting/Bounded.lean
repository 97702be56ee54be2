import Earshot.Checkpoint.Framing
import Earshot.Common.Run
/-!
# The exporter in the background

`BoundedAsyncExporter`: callers submit, one worker takes the items off a
bounded queue and sends each with retries. Each section under the lock, each
queue operation and each try of the transport is a step of its own, so callers,
the worker and a shutdown interleave; how the transport answers, and whether
the time for another try is left, the step says. An error in the pause between
two tries ends the worker: the item it has then gets no verdict.
-/

namespace Earshot.Exporting

structure ExportItem where
  bundleId : String
  payload : Bytes
  contentType : String
  deriving DecidableEq

/-- The failures a status shows. -/
inductive LastFailure where
  | closed
  | queueBytesFull
  | queueFull
  | permanentRejection
  | retryable
  | transport
  | attemptDeadlineExceeded
  | shutdownDuringRetry
  deriving DecidableEq

inductive DiagnosticCode where
  | closed
  | queueBytesFull
  | queueFull
  | rejected
  | failed
  deriving DecidableEq

structure ExportDiagnostic where
  code : DiagnosticCode
  bundleId : String
  attempt : ℕ
  retryable : Bool
  deriving DecidableEq

/-- How the transport answers one try: with nothing, or by raising an
`Exception`. -/
inductive Answer where
  | sent
  | permanent
  | retryable
  | failure
  deriving DecidableEq

/-- One try of the transport. Its entry is the number of accepted items that
were settled before, so it tells two submits of one item apart. -/
structure Try where
  entry : ℕ
  item : ExportItem
  answer : Answer
  deriving DecidableEq

/-- What became of an item the worker is done with. -/
inductive Verdict where
  | sent
  | rejected
  | failed
  deriving DecidableEq

/-- Where the worker is. -/
inductive Worker where
  /-- At the queue. -/
  | idle
  /-- It has taken the item, and not yet accounted for it. -/
  | taken (item : ExportItem)
  /-- It makes the given try. -/
  | trying (item : ExportItem) (attempt : ℕ)
  /-- It waits before the next. -/
  | waiting (item : ExportItem) (attempt : ℕ)
  /-- `finally` -/
  | settled (item : ExportItem)
  /-- `task_done` -/
  | finishing (item : ExportItem)
  | exited
  /-- `finally`, an error being on its way out of `_send_with_retry`. -/
  | raising (item : ExportItem)
  /-- `task_done`, with the error. -/
  | unwinding (item : ExportItem)
  /-- The error ended the thread. -/
  | dead (item : ExportItem)
  deriving DecidableEq

/-- `longWaits`: whether `max_backoff` and `total_attempt_deadline` are both more
than a wait may be, `threading.TIMEOUT_MAX`. -/
structure Limits where
  capacity : ℕ
  maxQueueBytes : ℕ
  maxAttempts : ℕ
  longWaits : Bool
  positive : 1 ≤ maxAttempts

/-- `base_backoff * 2 ** e` raises `OverflowError` past this exponent. -/
def MAX_FLOAT_EXPONENT : ℕ := 1023

/-- The exporter of one process. `submitted` is what `submit` returned true
for, `tries` the tries of the transport, and `verdicts` what became of
the items the worker is done with. -/
structure BoundedExporter where
  queue : List ExportItem
  unfinished : ℕ
  worker : Worker
  closed : Bool
  stopRequested : Bool
  queuedBytes : ℕ
  inFlightBytes : ℕ
  highWaterBytes : ℕ
  accepted : ℕ
  sent : ℕ
  dropped : ℕ
  failed : ℕ
  rejected : ℕ
  retried : ℕ
  overflow : ℕ
  lastFailure : Option LastFailure
  diagnostics : List ExportDiagnostic
  submitted : List ExportItem
  tries : List Try
  verdicts : List (ExportItem × Verdict)

namespace BoundedExporter

def new : BoundedExporter :=
  ⟨[], 0, .idle, false, false, 0, 0, 0, 0, 0, 0, 0, 0, 0, 0, none, [], [], [], []⟩

inductive Op where
  | submit (item : ExportItem)
  | shutdown
  /-- `_stop_requested` is set and the queue is empty. -/
  | exit
  /-- `queue.get` -/
  | take
  /-- The worker accounts for what it took. -/
  | account
  /-- One try, and whether the time for another is up. -/
  | try (answer : Answer) (late : Bool)
  /-- The wait before the next try is over. -/
  | wake
  /-- `_stop_requested.wait` raises: the wait is too long. -/
  | waitRaises
  | release
  | taskDone
  /-- `_ensure_pid` in the child of a fork. -/
  | fork
  deriving DecidableEq

variable (L : Limits)

def notify (s : BoundedExporter) (code : DiagnosticCode) (item : ExportItem) (attempt : ℕ)
    (retryable : Bool) : BoundedExporter :=
  { s with diagnostics := s.diagnostics ++ [⟨code, item.bundleId, attempt, retryable⟩] }

def drop (s : BoundedExporter) (failure : LastFailure) : BoundedExporter :=
  { s with dropped := s.dropped + 1, lastFailure := some failure }

/-- `submit` -/
def submit (s : BoundedExporter) (item : ExportItem) : BoundedExporter :=
  if s.closed then (s.drop .closed).notify .closed item 0 false
  else if L.maxQueueBytes < s.queuedBytes + s.inFlightBytes + item.payload.length then
    { s.drop .queueBytesFull with overflow := s.overflow + 1 }.notify .queueBytesFull item 0 false
  else if s.queue.length < L.capacity then
    { s with
      queue := s.queue ++ [item]
      unfinished := s.unfinished + 1
      queuedBytes := s.queuedBytes + item.payload.length
      highWaterBytes :=
        max s.highWaterBytes (s.queuedBytes + item.payload.length + s.inFlightBytes)
      accepted := s.accepted + 1
      submitted := s.submitted ++ [item] }
  else { s.drop .queueFull with overflow := s.overflow + 1 }.notify .queueFull item 0 false

/-- The item is given up. -/
def giveUp (s : BoundedExporter) (item : ExportItem) (attempt : ℕ) (failure : LastFailure) :
    BoundedExporter :=
  let s := { s with
    failed := s.failed + 1
    lastFailure := some failure
    worker := .settled item
    verdicts := s.verdicts ++ [(item, Verdict.failed)] }
  s.notify .failed item attempt false

/-- What follows a try that failed and may be made again. -/
def retry (s : BoundedExporter) (item : ExportItem) (attempt : ℕ) (failure : LastFailure)
    (late : Bool) : BoundedExporter :=
  let s := { s with lastFailure := some failure }
  if L.maxAttempts ≤ attempt then s.giveUp item attempt failure
  -- `2 ** (attempt - 1)` is no float
  else if MAX_FLOAT_EXPONENT < attempt - 1 then { s with worker := .raising item }
  else if late then s.giveUp item attempt .attemptDeadlineExceeded
  else
    let s := { s with retried := s.retried + 1, worker := .waiting item attempt }
    s.notify .failed item attempt true

/-- One round of `_send_with_retry`. -/
def sendWithRetry (s : BoundedExporter) (item : ExportItem) (attempt : ℕ) (answer : Answer)
    (late : Bool) : BoundedExporter :=
  let s := { s with tries := s.tries ++ [Try.mk s.verdicts.length item answer] }
  match answer with
  | .sent => { s with
      sent := s.sent + 1
      worker := .settled item
      verdicts := s.verdicts ++ [(item, Verdict.sent)] }
  | .permanent =>
    let s := { s with
      rejected := s.rejected + 1
      lastFailure := some .permanentRejection
      worker := .settled item
      verdicts := s.verdicts ++ [(item, Verdict.rejected)] }
    s.notify .rejected item attempt false
  | .retryable => s.retry L item attempt .retryable late
  | .failure => s.retry L item attempt .transport late

def step (s : BoundedExporter) : Op → Option BoundedExporter
  | .submit item => some (s.submit L item)
  | .shutdown => some (if s.closed then s else { s with closed := true, stopRequested := true })
  | .exit =>
    if s.worker = .idle ∧ s.stopRequested ∧ s.queue = [] then some { s with worker := .exited }
    else none
  | .take =>
    match s.worker, s.queue with
    | .idle, item :: rest => some { s with queue := rest, worker := .taken item }
    | _, _ => none
  | .account =>
    match s.worker with
    | .taken item => some { s with
        queuedBytes := s.queuedBytes - item.payload.length
        inFlightBytes := s.inFlightBytes + item.payload.length
        worker := .trying item 1 }
    | _ => none
  | .try answer late =>
    match s.worker with
    | .trying item attempt => some (s.sendWithRetry L item attempt answer late)
    | _ => none
  | .wake =>
    match s.worker with
    | .waiting item attempt =>
      some (if s.stopRequested then s.giveUp item attempt .shutdownDuringRetry
        else { s with worker := .trying item (attempt + 1) })
    | _ => none
  | .waitRaises =>
    match s.worker with
    | .waiting item _ => if L.longWaits then some { s with worker := .raising item } else none
    | _ => none
  | .release =>
    match s.worker with
    | .settled item => some { s with
        inFlightBytes := s.inFlightBytes - item.payload.length, worker := .finishing item }
    | .raising item => some { s with
        inFlightBytes := s.inFlightBytes - item.payload.length, worker := .unwinding item }
    | _ => none
  | .taskDone =>
    match s.worker with
    | .finishing _ => some { s with unfinished := s.unfinished - 1, worker := .idle }
    | .unwinding item => some { s with unfinished := s.unfinished - 1, worker := .dead item }
    | _ => none
  | .fork => some { new with
      closed := s.closed, worker := if s.closed then .exited else .idle }

abbrev run : BoundedExporter → List Op → BoundedExporter := Transition.run (step L)

end BoundedExporter

/-! ## What the worker holds -/

/-- The limits let an error out of the pause between two tries. -/
def Limits.Escapes (L : Limits) : Prop :=
  MAX_FLOAT_EXPONENT + 2 < L.maxAttempts ∨ L.longWaits = true

namespace Worker

/-- The item it has that got no verdict. -/
def hand : Worker → List ExportItem
  | .taken item | .trying item _ | .waiting item _ => [item]
  | .raising item | .unwinding item | .dead item => [item]
  | _ => []

/-- Whether a task it took is not done. -/
def busy : Worker → ℕ
  | .idle | .exited | .dead _ => 0
  | _ => 1

/-- The bytes it has taken and not yet accounted for. -/
def unaccounted : Worker → ℕ
  | .taken item => item.payload.length
  | _ => 0

def inFlight : Worker → ℕ
  | .trying item _ | .waiting item _ | .settled item | .raising item => item.payload.length
  | _ => 0

/-- The bytes of the item it has, from the queue to the release. -/
def held (w : Worker) : ℕ := w.unaccounted + w.inFlight

/-- How often the entry after the settled ones was tried. -/
def Tried (L : Limits) (made : ℕ) : Worker → Prop
  | .trying _ attempt => made + 1 = attempt ∧ attempt ≤ L.maxAttempts
  | .waiting _ attempt => made = attempt ∧ attempt < L.maxAttempts
  | .raising _ | .unwinding _ | .dead _ => L.Escapes
  | _ => made = 0

end Worker

namespace BoundedExporter

/-- The tries of one accepted entry. -/
def tried (tries : List Try) (entry : ℕ) : ℕ := tries.countP (·.entry = entry)

/-- What holds of the exporter while the worker is at a place: each accepted
item is settled, in hand or queued, in the order of acceptance. -/
structure Place (L : Limits) (s : BoundedExporter) (w : Worker) : Prop where
  order : s.submitted = s.verdicts.map Prod.fst ++ w.hand ++ s.queue
  unfinished : s.unfinished = s.queue.length + w.busy
  queued : s.queuedBytes = (s.queue.flatMap (·.payload)).length + w.unaccounted
  inFlight : s.inFlightBytes = w.inFlight
  tried : w.Tried L (tried s.tries s.verdicts.length)
  exited : w = .exited → s.closed = true ∧ s.queue = []

/-- Each try is of an accepted item that the settled ones come before, and no
entry is tried too often. -/
structure Tries (L : Limits) (s : BoundedExporter) (tries : List Try) : Prop where
  most : ∀ entry, tried tries entry ≤ L.maxAttempts
  named : ∀ t ∈ tries, t.entry ≤ s.verdicts.length ∧ s.submitted[t.entry]? = some t.item

/-- What every step keeps; the counters count. -/
structure Inv (L : Limits) (s : BoundedExporter) : Prop where
  place : Place L s s.worker
  tries : Tries L s s.tries
  accepted : s.accepted = s.submitted.length
  sent : s.sent = s.verdicts.countP (·.2 = .sent)
  rejected : s.rejected = s.verdicts.countP (·.2 = .rejected)
  failed : s.failed = s.verdicts.countP (·.2 = .failed)
  delivered : s.sent = s.tries.countP (·.answer = .sent)
  refused : s.rejected = s.tries.countP (·.answer = .permanent)
  room : s.queue.length ≤ L.capacity
  used : s.queuedBytes + s.inFlightBytes ≤ s.highWaterBytes
  bytes : s.highWaterBytes ≤ L.maxQueueBytes
  stopped : s.stopRequested = true → s.closed = true

variable {L : Limits} {s s' : BoundedExporter} {item : ExportItem} {attempt : ℕ} {w : Worker}

theorem Inv.new : Inv L new where
  place := ⟨rfl, rfl, rfl, rfl, rfl, by rintro ⟨⟩⟩
  tries := ⟨fun _ => Nat.zero_le _, by rintro _ ⟨⟩⟩
  accepted := rfl
  sent := rfl
  rejected := rfl
  failed := rfl
  delivered := rfl
  refused := rfl
  room := Nat.zero_le _
  used := Nat.le_refl _
  bytes := Nat.zero_le _
  stopped := by rintro ⟨⟩

/-- What the invariant says where the worker stands at a known place. -/
theorem Inv.seen (h : Inv L s) (hworker : s.worker = w) : Place L s w := hworker ▸ h.place

theorem Inv.notify (h : Inv L s) (code : DiagnosticCode) (retryable : Bool) :
    Inv L (s.notify code item attempt retryable) :=
  { h with place := { h.place with }, tries := { h.tries with } }

theorem Inv.drop (h : Inv L s) (failure : LastFailure) : Inv L (s.drop failure) :=
  { h with place := { h.place with }, tries := { h.tries with } }

/-- **An item is accepted.** -/
theorem Inv.enqueue (h : Inv L s) (hopen : s.closed = false)
    (hbytes : s.queuedBytes + s.inFlightBytes + item.payload.length ≤ L.maxQueueBytes)
    (hroom : s.queue.length < L.capacity) :
    Inv L { s with
      queue := s.queue ++ [item]
      unfinished := s.unfinished + 1
      queuedBytes := s.queuedBytes + item.payload.length
      highWaterBytes :=
        max s.highWaterBytes (s.queuedBytes + item.payload.length + s.inFlightBytes)
      accepted := s.accepted + 1
      submitted := s.submitted ++ [item] } := by
  have hp := h.place
  have hunfinished := hp.unfinished
  have hqueued := hp.queued
  have hhigh := h.bytes
  have hplace : Place L { s with
      queue := s.queue ++ [item]
      unfinished := s.unfinished + 1
      queuedBytes := s.queuedBytes + item.payload.length
      highWaterBytes :=
        max s.highWaterBytes (s.queuedBytes + item.payload.length + s.inFlightBytes)
      accepted := s.accepted + 1
      submitted := s.submitted ++ [item] } s.worker :=
    { hp with
      order := by rw [hp.order, List.append_assoc _ s.queue]
      unfinished := by
        simp only [List.length_append, List.length_singleton]
        omega
      queued := by
        simp only [List.flatMap_append, List.length_append, List.flatMap_singleton]
        omega
      exited := fun hex => by
        have hclosed := (hp.exited hex).1
        rw [hopen] at hclosed
        cases hclosed }
  refine
    { h with
      place := hplace
      tries := ⟨h.tries.most, fun t ht => ⟨(h.tries.named t ht).1, ?_⟩⟩
      accepted := by rw [h.accepted, List.length_append]; rfl
      room := by
        rw [List.length_append, List.length_singleton]
        exact hroom
      used := by
        dsimp only
        omega
      bytes := by
        dsimp only
        omega }
  have hnamed := (h.tries.named t ht).2
  rw [List.getElem?_append_left (List.getElem?_eq_some_iff.mp hnamed).1]
  exact hnamed

theorem Inv.submit (h : Inv L s) : Inv L (s.submit L item) := by
  have hfull (failure : LastFailure) (code : DiagnosticCode) :
      Inv L ({ s.drop failure with overflow := s.overflow + 1 }.notify code item 0 false) := by
    have hdrop := h.drop failure
    have hover : Inv L { s.drop failure with overflow := s.overflow + 1 } :=
      { hdrop with place := { hdrop.place with }, tries := { hdrop.tries with } }
    exact hover.notify code false
  unfold BoundedExporter.submit
  split
  · exact (h.drop .closed).notify .closed false
  · next hopen =>
    split
    · exact hfull _ _
    · next hbytes =>
      split
      · next hroom => exact h.enqueue (Bool.eq_false_iff.mpr hopen) (Nat.le_of_not_lt hbytes) hroom
      · exact hfull _ _

/-- **The item in hand is settled** one way, after the tries it had. -/
theorem Inv.settle (h : Inv L s) (v : Verdict) (sent rejected failed : ℕ)
    (failure : Option LastFailure) {tries : List Try} (hhand : s.worker.hand = [item])
    (hbusy : s.worker.busy = 1) (hflight : s.worker.inFlight = item.payload.length)
    (hun : s.worker.unaccounted = 0) (htries : Tries L s tries)
    (hsent : sent = s.sent + [v].countP (· = .sent))
    (hrejected : rejected = s.rejected + [v].countP (· = .rejected))
    (hfailed : failed = s.failed + [v].countP (· = .failed))
    (hdelivered : sent = tries.countP (·.answer = .sent))
    (hrefused : rejected = tries.countP (·.answer = .permanent)) :
    Inv L { s with
      sent := sent
      rejected := rejected
      failed := failed
      lastFailure := failure
      worker := .settled item
      tries := tries
      verdicts := s.verdicts ++ [(item, v)] } := by
  have hp := h.place
  have hplace : Place L { s with
      sent := sent
      rejected := rejected
      failed := failed
      lastFailure := failure
      worker := .settled item
      tries := tries
      verdicts := s.verdicts ++ [(item, v)] } (.settled item) :=
    { order := by
        rw [hp.order, hhand]
        simp [Worker.hand]
      unfinished := by
        rw [hp.unfinished, hbusy]
        rfl
      queued := by
        rw [hp.queued, hun]
        rfl
      inFlight := hp.inFlight.trans hflight
      tried := by
        -- no try so far is of the entry that comes next
        refine List.countP_eq_zero.mpr fun t ht => ?_
        have hle := (htries.named t ht).1
        simp only [List.length_append, List.length_singleton, decide_eq_true_eq]
        omega
      exited := by rintro ⟨⟩ }
  exact
    { h with
      place := hplace
      tries := ⟨htries.most, fun t ht => ⟨by
        have hle := (htries.named t ht).1
        simp only [List.length_append, List.length_singleton]
        omega, (htries.named t ht).2⟩⟩
      sent := by
        rw [hsent, List.countP_append, h.sent]
        simp [List.countP_cons]
      rejected := by
        rw [hrejected, List.countP_append, h.rejected]
        simp [List.countP_cons]
      failed := by
        rw [hfailed, List.countP_append, h.failed]
        simp [List.countP_cons]
      delivered := hdelivered
      refused := hrefused }

theorem Inv.giveUp (h : Inv L s) {tries : List Try} {before : Option LastFailure}
    (hhand : s.worker.hand = [item]) (hbusy : s.worker.busy = 1)
    (hflight : s.worker.inFlight = item.payload.length) (hun : s.worker.unaccounted = 0)
    (failure : LastFailure) (htries : Tries L s tries)
    (hdelivered : s.sent = tries.countP (·.answer = .sent))
    (hrefused : s.rejected = tries.countP (·.answer = .permanent)) :
    Inv L ({ s with tries := tries, lastFailure := before }.giveUp item attempt failure) := by
  have hsettled := h.settle .failed _ _ _ (some failure) hhand hbusy hflight hun htries
    rfl rfl rfl hdelivered hrefused
  exact hsettled.notify .failed false

/-- **A try is counted** for the entry in hand. -/
theorem Inv.counted (h : Inv L s) (hworker : s.worker = .trying item attempt) (answer : Answer) :
    Tries L s (s.tries ++ [Try.mk s.verdicts.length item answer]) ∧
      tried (s.tries ++ [Try.mk s.verdicts.length item answer]) s.verdicts.length = attempt := by
  have hp := h.seen hworker
  obtain ⟨hmade, hmost⟩ := hp.tried
  have hcount (entry : ℕ) : tried (s.tries ++ [Try.mk s.verdicts.length item answer]) entry =
      tried s.tries entry + if s.verdicts.length = entry then 1 else 0 := by
    simp [tried, List.countP_append, List.countP_cons]
  refine ⟨⟨fun entry => ?_, fun t ht => ?_⟩, by rw [hcount, if_pos rfl, hmade]⟩
  · rw [hcount]
    split
    · next heq =>
      rw [← heq, hmade]
      exact hmost
    · exact h.tries.most entry
  · rcases List.mem_append.mp ht with ht | ht
    · exact h.tries.named t ht
    · rw [List.mem_singleton.mp ht]
      refine ⟨Nat.le_refl _, ?_⟩
      dsimp only
      rw [hp.order, List.append_assoc]
      simp [Worker.hand]

/-- **One try** settles the item, leaves a further one within the limit, or an
error of the pause takes the worker. -/
theorem Inv.sendWithRetry (h : Inv L s) (hworker : s.worker = .trying item attempt)
    (answer : Answer) (late : Bool) : Inv L (s.sendWithRetry L item attempt answer late) := by
  have hp := h.seen hworker
  obtain ⟨htries, htried⟩ := h.counted hworker answer
  have hhand : s.worker.hand = [item] := by rw [hworker]; rfl
  have hbusy : s.worker.busy = 1 := by rw [hworker]; rfl
  have hflight : s.worker.inFlight = item.payload.length := by rw [hworker]; rfl
  have hun : s.worker.unaccounted = 0 := by rw [hworker]; rfl
  have hcounts (a : Answer) :
      (s.tries ++ [Try.mk s.verdicts.length item answer]).countP (·.answer = a) =
        s.tries.countP (·.answer = a) + if answer = a then 1 else 0 := by
    simp [List.countP_append, List.countP_cons]
  have hretry (failure : LastFailure) (hsent : answer ≠ .sent) (hpermanent : answer ≠ .permanent) :
      Inv L ({ s with tries := s.tries ++ [Try.mk s.verdicts.length item answer] }.retry L item
        attempt failure late) := by
    have hdelivered := h.delivered.trans ((hcounts .sent).trans (if_neg hsent ▸ rfl)).symm
    have hrefused := h.refused.trans ((hcounts .permanent).trans (if_neg hpermanent ▸ rfl)).symm
    unfold BoundedExporter.retry
    split
    · exact h.giveUp hhand hbusy hflight hun _ htries hdelivered hrefused
    · next hleft =>
      split
      · next hlarge =>
        have hescapes : L.Escapes := Or.inl (by omega)
        exact
          { h with
            place := ⟨hp.order, hp.unfinished, hp.queued, hp.inFlight, hescapes, by rintro ⟨⟩⟩
            tries := { htries with }
            delivered := hdelivered
            refused := hrefused }
      · split
        · exact h.giveUp hhand hbusy hflight hun _ htries hdelivered hrefused
        · refine Inv.notify ?_ .failed true
          exact
            { h with
              place := ⟨hp.order, hp.unfinished, hp.queued, hp.inFlight,
                ⟨htried, Nat.lt_of_not_le hleft⟩, by rintro ⟨⟩⟩
              tries := { htries with }
              delivered := hdelivered
              refused := hrefused }
  unfold BoundedExporter.sendWithRetry
  cases answer with
  | sent =>
    exact h.settle .sent _ _ _ _ hhand hbusy hflight hun htries rfl rfl rfl
      (by rw [hcounts, if_pos rfl, h.delivered])
        (by rw [hcounts, if_neg (by decide), h.refused]; rfl)
  | permanent =>
    have hsettled := h.settle .rejected s.sent (s.rejected + 1) _ (some .permanentRejection) hhand
      hbusy hflight hun htries rfl rfl rfl
      (by rw [hcounts, if_neg (by decide), h.delivered]; rfl)
      (by rw [hcounts, if_pos rfl, h.refused])
    exact hsettled.notify .rejected false
  | retryable | failure => exact hretry _ (by decide) (by decide)

/-- The worker moves on, and the item it has stays where it is. -/
theorem Inv.move (h : Inv L s) {unfinished inFlightBytes : ℕ}
    (hplace : Place L { s with
      worker := w, unfinished := unfinished, inFlightBytes := inFlightBytes } w)
    (hless : inFlightBytes ≤ s.inFlightBytes) :
    Inv L { s with worker := w, unfinished := unfinished, inFlightBytes := inFlightBytes } := by
  have hused := h.used
  exact
    { h with
      place := hplace
      tries := { h.tries with }
      used := by
        dsimp only
        omega }

theorem Inv.shutdown (h : Inv L s) : Inv L { s with closed := true, stopRequested := true } :=
  { h with
    place := { h.place with exited := fun hex => ⟨rfl, (h.place.exited hex).2⟩ }
    tries := { h.tries with }
    stopped := fun _ => rfl }

theorem Inv.take (h : Inv L s) {rest : List ExportItem} (hidle : s.worker = .idle)
    (hqueue : s.queue = item :: rest) : Inv L { s with queue := rest, worker := .taken item } := by
  have hp := h.seen hidle
  have horder := hp.order
  have hunfinished := hp.unfinished
  have hqueued := hp.queued
  have hroom := h.room
  rw [hqueue] at horder hunfinished hqueued hroom
  have hplace : Place L { s with queue := rest, worker := .taken item } (.taken item) :=
    { order := by
        rw [horder]
        simp [Worker.hand]
      unfinished := hunfinished
      queued := by
        rw [hqueued]
        simp [Worker.unaccounted, Nat.add_comm]
      inFlight := hp.inFlight
      tried := hp.tried
      exited := by rintro ⟨⟩ }
  exact { h with place := hplace, tries := { h.tries with }, room := Nat.le_of_succ_le hroom }

theorem Inv.account (h : Inv L s) (htaken : s.worker = .taken item) :
    Inv L { s with
      queuedBytes := s.queuedBytes - item.payload.length
      inFlightBytes := s.inFlightBytes + item.payload.length
      worker := .trying item 1 } := by
  have hp := h.seen htaken
  have hqueued := hp.queued
  have hin := hp.inFlight
  have hused := h.used
  simp only [Worker.unaccounted] at hqueued
  simp only [Worker.inFlight] at hin
  have hplace : Place L { s with
      queuedBytes := s.queuedBytes - item.payload.length
      inFlightBytes := s.inFlightBytes + item.payload.length
      worker := .trying item 1 } (.trying item 1) :=
    { order := hp.order
      unfinished := hp.unfinished
      queued := by
        dsimp only [Worker.unaccounted]
        omega
      inFlight := by
        dsimp only [Worker.inFlight]
        omega
      tried := ⟨congrArg (· + 1) hp.tried, L.positive⟩
      exited := by rintro ⟨⟩ }
  exact
    { h with
      place := hplace
      tries := { h.tries with }
      used := by
        dsimp only
        omega }

theorem Inv.wake (h : Inv L s) (hworker : s.worker = .waiting item attempt) :
    Inv L (if s.stopRequested then s.giveUp item attempt .shutdownDuringRetry
      else { s with worker := .trying item (attempt + 1) }) := by
  have hp := h.seen hworker
  split
  · exact h.giveUp (by rw [hworker]; rfl) (by rw [hworker]; rfl) (by rw [hworker]; rfl)
      (by rw [hworker]; rfl) _ h.tries h.delivered h.refused
  · obtain ⟨hmade, hleft⟩ := hp.tried
    exact h.move ⟨hp.order, hp.unfinished, hp.queued, hp.inFlight,
      ⟨congrArg (· + 1) hmade, hleft⟩, by rintro ⟨⟩⟩ (Nat.le_refl _)

/-- The item's bytes are released, with a verdict or an error. -/
theorem Inv.release (h : Inv L s) {w' : Worker} (hworker : s.worker = w)
    (hflight : w.inFlight = item.payload.length)
    (hsame : w'.hand = w.hand ∧ w'.busy = w.busy ∧ w'.unaccounted = w.unaccounted ∧
      w'.inFlight = 0) (htried : ∀ made, w.Tried L made → w'.Tried L made)
    (hexited : w' ≠ .exited) :
    Inv L { s with inFlightBytes := s.inFlightBytes - item.payload.length, worker := w' } := by
  have hp := h.seen hworker
  obtain ⟨hhand, hbusy, hun, hnone⟩ := hsame
  refine h.move ⟨?_, ?_, ?_, ?_, htried _ hp.tried, fun hex => absurd hex hexited⟩ (Nat.sub_le _ _)
  · rw [hhand]
    exact hp.order
  · rw [hbusy]
    exact hp.unfinished
  · rw [hun]
    exact hp.queued
  · have hin := hp.inFlight
    rw [hflight] at hin
    dsimp only
    omega

/-- The task is done, and the worker goes back to the queue, or dies. -/
theorem Inv.taskDone (h : Inv L s) {w' : Worker} (hworker : s.worker = w) (hbusy : w.busy = 1)
    (hidle : w'.busy = 0)
    (hsame : w'.hand = w.hand ∧ w'.unaccounted = w.unaccounted ∧ w'.inFlight = w.inFlight)
    (htried : ∀ made, w.Tried L made → w'.Tried L made) (hexited : w' ≠ .exited) :
    Inv L { s with unfinished := s.unfinished - 1, worker := w' } := by
  have hp := h.seen hworker
  obtain ⟨hhand, hun, hflight⟩ := hsame
  refine h.move ⟨?_, ?_, ?_, ?_, htried _ hp.tried, fun hex => absurd hex hexited⟩ (Nat.le_refl _)
  · rw [hhand]
    exact hp.order
  · have hunfinished := hp.unfinished
    rw [hbusy] at hunfinished
    rw [hidle]
    dsimp only
    omega
  · rw [hun]
    exact hp.queued
  · rw [hflight]
    exact hp.inFlight

theorem Inv.fork {closed : Bool} :
    Inv L { BoundedExporter.new with
      closed := closed, worker := if closed then .exited else .idle } := by
  have hnew : Inv L BoundedExporter.new := Inv.new
  cases closed with
  | true =>
    exact
      { hnew with
        place := ⟨rfl, rfl, rfl, rfl, rfl, fun _ => ⟨rfl, rfl⟩⟩
        tries := { hnew.tries with }
        stopped := by rintro ⟨⟩ }
  | false => exact hnew

/-- **Every step keeps the invariant.** -/
theorem Inv.step (h : Inv L s) {op : Op} (hstep : step L s op = some s') : Inv L s' := by
  cases op with
  | submit item => exact Option.some.inj hstep ▸ h.submit
  | shutdown =>
    obtain rfl := Option.some.inj hstep
    split
    · exact h
    · exact h.shutdown
  | exit =>
    simp only [BoundedExporter.step] at hstep
    split at hstep
    · next hdone =>
      obtain rfl := Option.some.inj hstep
      have hp := h.seen hdone.1
      exact h.move ⟨hp.order, hp.unfinished, hp.queued, hp.inFlight, hp.tried,
        fun _ => ⟨h.stopped hdone.2.1, hdone.2.2⟩⟩ (Nat.le_refl _)
    · cases hstep
  | take =>
    simp only [BoundedExporter.step] at hstep
    split at hstep
    · next item rest hidle hqueue => exact Option.some.inj hstep ▸ h.take hidle hqueue
    · cases hstep
  | account =>
    simp only [BoundedExporter.step] at hstep
    split at hstep
    · next item htaken => exact Option.some.inj hstep ▸ h.account htaken
    · cases hstep
  | «try» answer late =>
    simp only [BoundedExporter.step] at hstep
    split at hstep
    · next hworker => exact Option.some.inj hstep ▸ h.sendWithRetry hworker answer late
    · cases hstep
  | wake =>
    simp only [BoundedExporter.step] at hstep
    split at hstep
    · next hworker => exact Option.some.inj hstep ▸ h.wake hworker
    · cases hstep
  | waitRaises =>
    simp only [BoundedExporter.step] at hstep
    split at hstep
    · next hworker =>
      split at hstep
      · next hlong =>
        have hp := h.seen hworker
        exact Option.some.inj hstep ▸ h.move ⟨hp.order, hp.unfinished, hp.queued, hp.inFlight,
          Or.inr hlong, by rintro ⟨⟩⟩ (Nat.le_refl _)
      · cases hstep
    · cases hstep
  | release =>
    simp only [BoundedExporter.step] at hstep
    split at hstep
    · next item hworker =>
      exact Option.some.inj hstep ▸
        h.release hworker rfl ⟨rfl, rfl, rfl, rfl⟩ (fun _ ht => ht) (by rintro ⟨⟩)
    · next item hworker =>
      exact Option.some.inj hstep ▸
        h.release hworker rfl ⟨rfl, rfl, rfl, rfl⟩ (fun _ ht => ht) (by rintro ⟨⟩)
    · cases hstep
  | taskDone =>
    simp only [BoundedExporter.step] at hstep
    split at hstep
    · next item hworker =>
      exact Option.some.inj hstep ▸
        h.taskDone hworker rfl rfl ⟨rfl, rfl, rfl⟩ (fun _ ht => ht) (by rintro ⟨⟩)
    · next item hworker =>
      exact Option.some.inj hstep ▸
        h.taskDone hworker rfl rfl ⟨rfl, rfl, rfl⟩ (fun _ ht => ht) (by rintro ⟨⟩)
    · cases hstep
  | fork => exact Option.some.inj hstep ▸ Inv.fork

theorem Inv.run (ops : List Op) : Inv L (run L .new ops) :=
  Transition.run_invariant (fun _ _ _ h hstep => h.step hstep) ops _ .new

/-- **No accepted item is lost, and none is settled twice.** However callers,
the worker, a shutdown and a fork interleave, what the process accepted is, in
order, what has a verdict, the one item in the worker's hand and what is queued;
each count of the status is the number of its verdicts, and of the tries so
answered; once the worker has exited every accepted item has its verdict; and
the worker dies with an item in hand only where the limits let the pause raise. -/
theorem accepted_accounted (ops : List Op) :
    (run L .new ops).submitted = (run L .new ops).verdicts.map Prod.fst ++
      (run L .new ops).worker.hand ++ (run L .new ops).queue ∧
    (run L .new ops).accepted = (run L .new ops).submitted.length ∧
    (run L .new ops).sent = (run L .new ops).verdicts.countP (·.2 = .sent) ∧
    (run L .new ops).rejected = (run L .new ops).verdicts.countP (·.2 = .rejected) ∧
    (run L .new ops).failed = (run L .new ops).verdicts.countP (·.2 = .failed) ∧
    (run L .new ops).sent = (run L .new ops).tries.countP (·.answer = .sent) ∧
    (run L .new ops).rejected = (run L .new ops).tries.countP (·.answer = .permanent) ∧
    ((run L .new ops).worker = .exited →
      (run L .new ops).submitted = (run L .new ops).verdicts.map Prod.fst ∧
      (run L .new ops).unfinished = 0) ∧
    ∀ item, (run L .new ops).worker = .dead item →
      1025 < L.maxAttempts ∨ L.longWaits = true := by
  have h : Inv L (run L .new ops) := Inv.run ops
  refine ⟨h.place.order, h.accepted, h.sent, h.rejected, h.failed, h.delivered, h.refused,
    fun hex => ⟨?_, ?_⟩, fun item hdead => (h.seen hdead).tried⟩
  · rw [h.place.order, hex, (h.place.exited hex).2]
    simp [Worker.hand]
  · rw [h.place.unfinished, hex, (h.place.exited hex).2]
    rfl

/-- **The queue is bounded.** What is queued and what the worker has taken and
not released together never pass the byte limit, nor the queue its capacity; and
each accepted item is tried at most as often as the limit says, whichever other
is equal to it. -/
theorem queue_bounded (ops : List Op) :
    ((run L .new ops).queue.flatMap (·.payload)).length + (run L .new ops).worker.held ≤
      L.maxQueueBytes ∧
    (run L .new ops).queue.length ≤ L.capacity ∧
    (∀ t ∈ (run L .new ops).tries, (run L .new ops).submitted[t.entry]? = some t.item) ∧
    ∀ entry, (run L .new ops).tries.countP (·.entry = entry) ≤ L.maxAttempts := by
  have h : Inv L (run L .new ops) := Inv.run ops
  refine ⟨?_, h.room, fun t ht => (h.tries.named t ht).2, h.tries.most⟩
  have hqueued := h.place.queued
  have hin := h.place.inFlight
  have hused := h.used
  have hbytes := h.bytes
  rw [Worker.held]
  omega

end BoundedExporter

end Earshot.Exporting
