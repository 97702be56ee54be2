import Earshot.Common.Run
import Earshot.Inspection.Bodies
import Mathlib.Algebra.Order.Ring.Nat
/-!
# Ogg Opus pages

The pages of a streamed Ogg Opus body. The first page's body is read whole, for
its `OpusHead`; of every later page only the header is read. The walk keeps a
page header that is not whole, or how much of a body is still to pass; what it
knows is what a walk of the whole body (`walkPages`) gives.
-/

namespace Earshot.Inspection

def PAGE_HEADER : ℕ := 27
def OPUS_HEAD : ℕ := 19
def NO_GRANULE : ℕ := 18446744073709551615
def OPUS_RATE : ℕ := 48000

/-- The bytes of `OggS` and `OpusHead`. -/
def OGGS : List UInt8 := [79, 103, 103, 83]
def OPUS_MAGIC : List UInt8 := [79, 112, 117, 115, 72, 101, 97, 100]

/-- A byte, read where the bytes are long enough. -/
def byteAt (bytes : List UInt8) (i : ℕ) : ℕ := (bytes.getD i 0).toNat

/-- The bytes of body a page header declares. -/
def bodySize (header : List UInt8) : ℕ := ((header.drop PAGE_HEADER).map UInt8.toNat).sum

def headerSerial (header : List UInt8) : List UInt8 := slice header 14 4
def headerGranule (header : List UInt8) : ℕ := leNat (slice header 6 8)

/-! ## The inspector -/

/-- `OggInspector`; the header is complete once the head is `some`. -/
structure OggInspector where
  /-- The channels and the pre-skip. -/
  head : Option (ℕ × ℕ)
  header : List UInt8
  skip : ℕ
  firstBody : Option (List UInt8)
  serial : Option (List UInt8)
  granule : Option ℕ
  otherStream : Bool
  lost : Bool

/-- `_read_head` -/
def readHead (packet : List UInt8) : Except Failure (ℕ × ℕ) :=
  if packet.take 8 ≠ OPUS_MAGIC then
    .error (.header "the Ogg stream does not hold Opus; Earshot reads Ogg Opus only")
  else if packet.length < OPUS_HEAD then
    .error (.header "the OpusHead packet is too short")
  else (unpack packet 10 2).bind fun preSkip =>
    if byteAt packet 9 < 1 then .error (.header "the OpusHead describes no audio")
    else .ok (byteAt packet 9, preSkip)

namespace OggInspector

def new : OggInspector := ⟨none, [], 0, none, none, none, false, false⟩

/-- `_page` -/
def page (w : OggInspector) (header : List UInt8) : Except Failure OggInspector :=
  let w := { w with skip := bodySize header }
  match w.serial with
  | none =>
    if byteAt header 4 ≠ 0 ∨ byteAt header 5 &&& 2 = 0 then
      .error (.header "the Ogg stream does not start with a first page")
    else .ok { w with serial := some (headerSerial header), firstBody := some [] }
  | some serial =>
    if headerSerial header ≠ serial then .ok { w with otherStream := true }
    else if headerGranule header ≠ NO_GRANULE then
      .ok { w with granule := some (headerGranule header) }
    else .ok w

/-- A round of `feed` in a page's body; how many bytes it took. -/
def passBody (w : OggInspector) (view : List UInt8) : Except Failure (OggInspector × ℕ) :=
  let taken := min w.skip view.length
  let w := { w with
    firstBody := w.firstBody.map (· ++ view.take taken), skip := w.skip - taken }
  if w.skip = 0 then
    match w.firstBody with
    | some body => (readHead body).bind fun head =>
        .ok ({ w with head := some head, firstBody := none }, taken)
    | none => .ok (w, taken)
  else .ok (w, taken)

/-- How long the page header being read is, as far as is known. -/
def wanted (header : List UInt8) : ℕ :=
  PAGE_HEADER + if PAGE_HEADER ≤ header.length then byteAt header 26 else 0

/-- A round of `feed` in a page's header; how many bytes it took. -/
def readHeader (w : OggInspector) (view : List UInt8) : Except Failure (OggInspector × ℕ) :=
  let taken := min (wanted w.header - w.header.length) view.length
  let header := w.header ++ view.take taken
  if 4 ≤ header.length ∧ header.take 4 ≠ OGGS then
    if w.head = none then .error (.header "the body is not an Ogg stream")
    else .ok ({ w with header := header, lost := true }, taken)
  else if PAGE_HEADER ≤ header.length ∧ header.length = PAGE_HEADER + byteAt header 26 then
    (page w header).bind fun w =>
      if w.skip = 0 ∧ w.firstBody.isSome = true then
        .error (.header "the first Ogg page carries no packet")
      else .ok ({ w with header := [] }, taken)
  else .ok ({ w with header := header }, taken)

/-- A round of `feed`'s loop. -/
def round (w : OggInspector) (view : List UInt8) : Except Failure (OggInspector × ℕ) :=
  if w.skip ≠ 0 then passBody w view else readHeader w view

/-- The loop of `feed`; a round that takes nothing would go on for ever. -/
def feedView (w : OggInspector) (view : List UInt8) : Except Failure OggInspector :=
  if _hview : view = [] then .ok w
  else
    (round w view).bind fun r =>
      if r.1.lost = true then .ok r.1
      else if _htaken : r.2 = 0 then .error .other
      else feedView r.1 (view.drop r.2)
  termination_by view.length
  decreasing_by
    have := List.length_pos_of_ne_nil _hview
    rw [List.length_drop]
    omega

/-- `feed` -/
def feed (w : OggInspector) (chunk : List UInt8) : Except Failure OggInspector :=
  if w.lost = true ∨ chunk = [] then .ok w else feedView w chunk

end OggInspector

/-- The duration of the samples after the pre-skip, where there are any. -/
def oggDuration (granule : Option ℕ) (preSkip : ℕ) : Option ℕ :=
  granule.bind fun g =>
    if preSkip ≤ g then boundedDurationMs ((g - preSkip) * 1000 / OPUS_RATE) else none

/-- `finish` and `duration_ms` -/
def OggInspector.finish (w : OggInspector) (total : ℕ) : Outcome :=
  match w.head with
  | none => .error (.header "the body ends before its Ogg Opus header does")
  | some (channels, preSkip) =>
    let onABoundary := w.header = [] ∧ w.skip = 0 ∧ w.lost = false
    let duration :=
      if onABoundary ∧ w.otherStream = false then oggDuration w.granule preSkip else none
    .ok (channels, plausibleDurationMs duration total)

/-- An upload in chunks, and its end. -/
def inspectOgg (chunks : List (List UInt8)) : Outcome :=
  (Streaming.feedAll OggInspector.feed OggInspector.new chunks).bind fun w =>
    w.finish chunks.flatten.length

/-! ## The whole body -/

/-- A page: its header, and its body or as much of it as there is. -/
structure OggPage where
  header : List UInt8
  body : List UInt8
  deriving DecidableEq

/-- What a walk ends at: a page boundary, a header or a body that is not whole,
or bytes that begin no page. -/
inductive Ending where
  | boundary
  | header
  | body
  | lost
  deriving DecidableEq

/-- The page header a body begins with. -/
def pageHeader (body : List UInt8) : Option (List UInt8) :=
  if PAGE_HEADER ≤ body.length ∧ PAGE_HEADER + byteAt body 26 ≤ body.length then
    some (body.take (PAGE_HEADER + byteAt body 26))
  else none

theorem pageHeader_length {body header : List UInt8} (h : pageHeader body = some header) :
    PAGE_HEADER ≤ header.length ∧ header.length ≤ body.length := by
  unfold pageHeader at h
  split at h
  · obtain rfl := Option.some.inj h
    rw [List.length_take]
    omega
  · cases h

/-- **The pages of a body**, and what their walk ends at. -/
def walkPages (body : List UInt8) : List OggPage × Ending :=
  if body = [] then ([], .boundary)
  else if 4 ≤ body.length ∧ body.take 4 ≠ OGGS then ([], .lost)
  else match _hheader : pageHeader body with
    | none => ([], .header)
    | some header =>
      let rest := body.drop header.length
      if rest.length < bodySize header then ([⟨header, rest⟩], .body)
      else
        let walked := walkPages (rest.drop (bodySize header))
        (⟨header, rest.take (bodySize header)⟩ :: walked.1, walked.2)
  termination_by body.length
  decreasing_by
    have := pageHeader_length _hheader
    unfold PAGE_HEADER at this
    simp only [List.length_drop]
    omega

/-- **The first page of an Ogg Opus stream**: it begins the stream, and its body
is an `OpusHead`. -/
structure OggHeader (first : OggPage) (channels preSkip : ℕ) : Prop where
  version : byteAt first.header 4 = 0
  begins : byteAt first.header 5 &&& 2 ≠ 0
  whole : first.body.length = bodySize first.header
  head : readHead first.body = .ok (channels, preSkip)

/-- The last granule position of a stream among some pages. -/
def lastGranule (serial : List UInt8) (pages : List OggPage) : Option ℕ :=
  ((pages.filter fun p =>
    headerSerial p.header = serial ∧ headerGranule p.header ≠ NO_GRANULE).map fun p =>
      headerGranule p.header).getLast?

/-- The duration of a walk whose pages after the first are `later`. -/
def walkDuration (first : OggPage) (later : List OggPage) (ending : Ending) (preSkip : ℕ) :
    Option ℕ :=
  if ending = .boundary ∧ ∀ p ∈ later, headerSerial p.header = headerSerial first.header then
    oggDuration (lastGranule (headerSerial first.header) later) preSkip
  else none

/-- **What an Ogg Opus body holds**: the channels its first page gives, and the
duration of the walk after it, where the body can hold it. -/
def OggBody (body : List UInt8) (channels : ℕ) (duration : Option ℕ) : Prop :=
  ∃ first later ending preSkip, walkPages body = (first :: later, ending) ∧
    OggHeader first channels preSkip ∧
    duration = plausibleDurationMs (walkDuration first later ending preSkip) body.length

/-! ## The walk, page by page -/

/-- A page header that is whole. -/
structure PageHeader (header : List UInt8) : Prop where
  capture : header.take 4 = OGGS
  long : PAGE_HEADER ≤ header.length
  length_eq : header.length = PAGE_HEADER + byteAt header 26

/-- The start of a page header, not whole. -/
structure Partial (tail : List UInt8) : Prop where
  capture : 4 ≤ tail.length → tail.take 4 = OGGS
  short : tail.length < OggInspector.wanted tail

/-- A page that is whole. -/
def Whole (p : OggPage) : Prop := PageHeader p.header ∧ p.body.length = bodySize p.header

def OggPage.bytes (p : OggPage) : List UInt8 := p.header ++ p.body

theorem byteAt_append {bytes more : List UInt8} {i : ℕ} (h : i < bytes.length) :
    byteAt (bytes ++ more) i = byteAt bytes i := by
  unfold byteAt
  rw [List.getD_eq_getElem?_getD, List.getD_eq_getElem?_getD, List.getElem?_append_left h]

theorem pageHeader_append {header : List UInt8} (h : PageHeader header) (rest : List UInt8) :
    pageHeader (header ++ rest) = some header := by
  have hlong := h.long
  have hlength := h.length_eq
  unfold PAGE_HEADER at hlong
  unfold pageHeader
  rw [byteAt_append (by omega), ← hlength, if_pos, List.take_left]
  rw [List.length_append]
  exact ⟨Nat.le_trans h.long (Nat.le_add_right _ _), Nat.le_add_right _ _⟩

/-- A page's walk. -/
theorem walkPages_page {header : List UInt8} (h : PageHeader header) (rest : List UInt8) :
    walkPages (header ++ rest) =
      if rest.length < bodySize header then ([⟨header, rest⟩], .body)
      else (⟨header, rest.take (bodySize header)⟩ :: (walkPages (rest.drop (bodySize header))).1,
        (walkPages (rest.drop (bodySize header))).2) := by
  have hlong := h.long
  unfold PAGE_HEADER at hlong
  have hne : header ++ rest ≠ [] := by
    intro hnil
    rw [(List.append_eq_nil_iff.mp hnil).1] at hlong
    cases hlong
  have hcapture : ¬ (4 ≤ (header ++ rest).length ∧ (header ++ rest).take 4 ≠ OGGS) := by
    rw [List.take_append_of_le_length (by omega), h.capture]
    exact fun h => h.2 rfl
  rw [walkPages, if_neg hne, if_neg hcapture]
  split
  · rename_i hnone
    rw [pageHeader_append h] at hnone
    cases hnone
  · rename_i header' hsome
    rw [pageHeader_append h] at hsome
    obtain rfl := Option.some.inj hsome
    rw [List.drop_left]

/-- **Whole pages are walked one after the other.** -/
theorem walkPages_pages {pages : List OggPage} (h : ∀ p ∈ pages, Whole p) (tail : List UInt8) :
    walkPages ((pages.map OggPage.bytes).flatten ++ tail) =
      (pages ++ (walkPages tail).1, (walkPages tail).2) := by
  induction pages with
  | nil => rfl
  | cons p pages ih =>
    obtain ⟨hheader, hbody⟩ := h p (.head _)
    have hrest := ih fun q hq => h q (.tail _ hq)
    rw [List.map_cons, List.flatten_cons, OggPage.bytes, List.append_assoc, List.append_assoc,
      walkPages_page hheader, if_neg (by rw [List.length_append]; omega), ← hbody,
      List.drop_left, List.take_left, hrest]
    rfl

theorem walkPages_broken {tail : List UInt8} (h : Partial tail) :
    walkPages tail = ([], if tail = [] then .boundary else .header) := by
  rw [walkPages]
  by_cases hnil : tail = []
  · rw [if_pos hnil, if_pos hnil]
  rw [if_neg hnil, if_neg fun hlost => hlost.2 (h.capture hlost.1), if_neg hnil]
  split
  · rfl
  · rename_i header hsome
    have hshort := h.short
    unfold OggInspector.wanted at hshort
    unfold pageHeader at hsome
    split at hsome
    · rename_i hlong
      rw [if_pos hlong.1] at hshort
      omega
    · cases hsome

theorem walkPages_lost {tail : List UInt8} (hlong : 4 ≤ tail.length) (hlost : tail.take 4 ≠ OGGS) :
    walkPages tail = ([], .lost) := by
  have hne : tail ≠ [] := by
    rintro rfl
    cases hlong
  rw [walkPages, if_neg hne, if_pos ⟨hlong, hlost⟩]

end Earshot.Inspection
