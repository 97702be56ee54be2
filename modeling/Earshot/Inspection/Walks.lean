import Earshot.Inspection.Ogg
/-!
# Ogg walks, chunk by chunk

What an Ogg inspector holds between two rounds of its loop is given by the
bytes it has passed: the pages they hold, and the page they break off in. Each
round keeps this, so the outcome is that of the whole body's walk.
-/

namespace Earshot.Inspection

namespace OggInspector

/-- What is known of a stream after its first page and some later ones. -/
def tracked (first : OggPage) (later : List OggPage) (head : ℕ × ℕ) : OggInspector where
  head := some head
  header := []
  skip := 0
  firstBody := none
  serial := some (headerSerial first.header)
  granule := lastGranule (headerSerial first.header) later
  otherStream := decide (∃ p ∈ later, headerSerial p.header ≠ headerSerial first.header)
  lost := false

/-- The bytes of a stream's whole pages. -/
def pagesBytes (pages : List OggPage) : List UInt8 := (pages.map OggPage.bytes).flatten

theorem pagesBytes_append (pages more : List OggPage) :
    pagesBytes (pages ++ more) = pagesBytes pages ++ pagesBytes more := by
  unfold pagesBytes
  rw [List.map_append, List.flatten_append]

/-- A stream's first pages, whole, the first of them an `OpusHead`. -/
structure Walked (first : OggPage) (later : List OggPage) (head : ℕ × ℕ) : Prop where
  pages : ∀ p ∈ first :: later, Whole p
  header : OggHeader first head.1 head.2

/-- **What an inspector holds** of the bytes it has passed. -/
inductive Holds : List UInt8 → OggInspector → Prop
  /-- Before the first page's header is whole. -/
  | start {tail : List UInt8} : Partial tail →
      Holds tail { new with header := tail }
  /-- In the first page's body. -/
  | first {header part : List UInt8} : PageHeader header → byteAt header 4 = 0 →
      byteAt header 5 &&& 2 ≠ 0 → part.length < bodySize header →
      Holds (header ++ part) { new with
        skip := bodySize header - part.length
        firstBody := some part
        serial := some (headerSerial header) }
  /-- Before a later page's header is whole. -/
  | page {first : OggPage} {later : List OggPage} {head : ℕ × ℕ} {tail : List UInt8} :
      Walked first later head → Partial tail →
      Holds (pagesBytes (first :: later) ++ tail)
        { tracked first later head with header := tail }
  /-- In a later page's body. -/
  | body {first : OggPage} {later : List OggPage} {head : ℕ × ℕ} {header part : List UInt8} :
      Walked first later head → PageHeader header → part.length < bodySize header →
      Holds (pagesBytes (first :: later) ++ (header ++ part))
        { tracked first (later ++ [⟨header, part⟩]) head with
          skip := bodySize header - part.length }
  /-- Where no page begins. -/
  | lost {first : OggPage} {later : List OggPage} {head : ℕ × ℕ} {tail kept : List UInt8} :
      Walked first later head → 4 ≤ tail.length → tail.take 4 ≠ OGGS →
      Holds (pagesBytes (first :: later) ++ tail)
        { tracked first later head with header := kept, lost := true }

/-- A body that holds an Ogg Opus header. -/
def HasHeader (body : List UInt8) : Prop :=
  ∃ first later ending channels preSkip, walkPages body = (first :: later, ending) ∧
    OggHeader first channels preSkip

/-- **Why an inspector failed**: no body that starts with these bytes has a header. -/
def Fails (bytes : List UInt8) (e : Failure) : Prop :=
  (∃ text, e = .header text) ∧ ∀ more, ¬ HasHeader (bytes ++ more)

theorem fails_append {bytes : List UInt8} {e : Failure} (h : Fails bytes e)
    (more : List UInt8) : Fails (bytes ++ more) e := by
  refine ⟨h.1, fun more' => ?_⟩
  rw [List.append_assoc]
  exact h.2 _

/-! ## Page headers -/

theorem partial_nil : Partial [] :=
  ⟨by rintro ⟨⟩, by decide⟩

/-- What a round adds to a page header that is not whole. -/
theorem header_grows {tail view : List UInt8} (htail : Partial tail) (hview : view ≠ []) :
    min (wanted tail - tail.length) view.length ≠ 0 ∧
      ∀ header, header = tail ++ view.take
          (min (wanted tail - tail.length) view.length) →
        header.length ≤ wanted tail ∧
          (¬ (PAGE_HEADER ≤ header.length ∧
            header.length = PAGE_HEADER + byteAt header 26) →
            header.length < wanted header) := by
  have hshort := htail.short
  have hpos := List.length_pos_of_ne_nil hview
  refine ⟨by omega, ?_⟩
  rintro header rfl
  set taken := min (wanted tail - tail.length) view.length with htaken
  have hlength : (tail ++ view.take taken).length = tail.length + taken := by
    rw [List.length_append, List.length_take]
    omega
  have hle : (tail ++ view.take taken).length ≤ wanted tail := by omega
  refine ⟨hle, fun hwhole => ?_⟩
  by_cases hlong : PAGE_HEADER ≤ (tail ++ view.take taken).length
  · have hne : (tail ++ view.take taken).length ≠
        PAGE_HEADER + byteAt (tail ++ view.take taken) 26 := fun h => hwhole ⟨hlong, h⟩
    unfold wanted at hle ⊢
    rw [if_pos hlong]
    by_cases htail : PAGE_HEADER ≤ tail.length
    · rw [if_pos htail] at hle
      rw [byteAt_append (by unfold PAGE_HEADER at htail; omega)] at hne ⊢
      omega
    · rw [if_neg htail] at hle
      omega
  · unfold wanted
    omega

/-! ## Known pages -/

theorem lastGranule_append (serial : List UInt8) (pages : List OggPage) (p : OggPage) :
    lastGranule serial (pages ++ [p]) =
      if headerSerial p.header = serial ∧ headerGranule p.header ≠ NO_GRANULE then
        some (headerGranule p.header)
      else lastGranule serial pages := by
  unfold lastGranule
  rw [List.filter_append, List.map_append]
  by_cases h : headerSerial p.header = serial ∧ headerGranule p.header ≠ NO_GRANULE
  · rw [if_pos h, List.filter_cons, if_pos (decide_eq_true h)]
    exact List.getLast?_concat
  · rw [if_neg h, List.filter_cons, if_neg (by rw [decide_eq_true_eq]; exact h), List.filter_nil,
      List.map_nil, List.append_nil]

/-- What is known of pages is known from their headers. -/
theorem tracked_body (first : OggPage) (later : List OggPage) (head : ℕ × ℕ)
    (header part part' : List UInt8) :
    tracked first (later ++ [⟨header, part⟩]) head =
      tracked first (later ++ [⟨header, part'⟩]) head := by
  unfold tracked
  rw [lastGranule_append, lastGranule_append]
  simp only [List.mem_append, List.mem_singleton, or_and_right, exists_or, exists_eq_left]

/-- **A later page's header, read.** -/
theorem page_tracked (first : OggPage) (later : List OggPage) (head : ℕ × ℕ)
    (kept header : List UInt8) :
    page { tracked first later head with header := kept } header =
      .ok { tracked first (later ++ [⟨header, []⟩]) head with
        header := kept, skip := bodySize header } := by
  unfold page tracked
  dsimp only
  rw [lastGranule_append]
  simp only [List.mem_append, List.mem_singleton, or_and_right, exists_or, exists_eq_left]
  by_cases hserial : headerSerial header = headerSerial first.header
  · rw [if_neg (not_not.mpr hserial)]
    by_cases hgranule : headerGranule header ≠ NO_GRANULE
    · rw [if_pos hgranule, if_pos ⟨hserial, hgranule⟩]
      simp only [hserial, ne_eq, not_true_eq_false, or_false]
    · rw [if_neg hgranule, if_neg fun h => hgranule h.2]
      simp only [hserial, ne_eq, not_true_eq_false, or_false]
  · rw [if_pos hserial, if_neg fun h => hserial h.1]
    simp only [hserial, ne_eq, not_false_eq_true, or_true, decide_true]

theorem walked_append {first : OggPage} {later : List OggPage} {head : ℕ × ℕ}
    (h : Walked first later head) {p : OggPage} (hp : Whole p) :
    Walked first (later ++ [p]) head := by
  refine ⟨fun q hq => ?_, h.header⟩
  rcases List.mem_append.mp (List.cons_append ▸ hq : q ∈ (first :: later) ++ [p]) with hq | hq
  · exact h.pages q hq
  · rw [List.mem_singleton.mp hq]
    exact hp

/-- A later page's body, as far as it is passed; whole, it is a page. -/
theorem holds_body {first : OggPage} {later : List OggPage} {head : ℕ × ℕ}
    {header part : List UInt8} (h : Walked first later head) (hheader : PageHeader header)
    (hpart : part.length ≤ bodySize header) :
    Holds (pagesBytes (first :: later) ++ (header ++ part))
      { tracked first (later ++ [⟨header, part⟩]) head with
        skip := bodySize header - part.length } := by
  by_cases hwhole : part.length = bodySize header
  · have hpage := Holds.page (walked_append h (p := ⟨header, part⟩) ⟨hheader, hwhole⟩) partial_nil
    rw [List.append_nil, ← List.cons_append, pagesBytes_append] at hpage
    rw [hwhole, Nat.sub_self]
    have hbytes : pagesBytes [⟨header, part⟩] = header ++ part := by
      unfold pagesBytes OggPage.bytes
      rw [List.map_singleton, List.flatten_singleton]
    rw [hbytes] at hpage
    exact hpage
  · exact .body h hheader (by omega)

/-! ## A round -/

/-- A first page that a body starts with, and that holds no head. -/
theorem not_hasHeader {header : List UInt8} (hheader : PageHeader header) (rest : List UInt8)
    (h : ∀ channels preSkip, ¬ OggHeader ⟨header, rest.take (bodySize header)⟩ channels preSkip) :
    ¬ HasHeader (header ++ rest) := by
  rintro ⟨first, later, ending, channels, preSkip, hwalk, hfirst⟩
  rw [walkPages_page hheader] at hwalk
  split at hwalk
  · rename_i hshort
    obtain ⟨hpages, _⟩ := Prod.mk.inj hwalk
    obtain ⟨rfl, _⟩ := List.cons.inj hpages
    exact Nat.ne_of_lt hshort hfirst.whole
  · obtain ⟨hpages, _⟩ := Prod.mk.inj hwalk
    obtain ⟨rfl, _⟩ := List.cons.inj hpages
    exact h _ _ hfirst

theorem readHead_error {packet : List UInt8} {e : Failure} (h : readHead packet = .error e) :
    ∃ text, e = .header text := by
  unfold readHead at h
  split at h
  · exact ⟨_, (Except.error.inj h).symm⟩
  split at h
  · exact ⟨_, (Except.error.inj h).symm⟩
  rename_i hlong
  unfold OPUS_HEAD at hlong
  rw [unpack_eq (by omega)] at h
  change (if _ then _ else _) = _ at h
  split at h
  · exact ⟨_, (Except.error.inj h).symm⟩
  · cases h

/-- What a round of the loop leaves, or why it failed. -/
def RoundHolds (bytes view : List UInt8) (result : Except Failure (OggInspector × ℕ)) : Prop :=
  (∀ w' taken, result = .ok (w', taken) →
    taken ≠ 0 ∧ Holds (bytes ++ view.take taken) w') ∧
  ∀ e, result = .error e → Fails (bytes ++ view) e

/-- What is known after the first page. -/
theorem tracked_first (first : OggPage) (head : ℕ × ℕ) :
    tracked first [] head =
      ⟨some head, [], 0, none, some (headerSerial first.header), none, false, false⟩ := by
  unfold tracked lastGranule
  simp only [List.not_mem_nil, false_and, exists_false, decide_false, List.filter_nil,
    List.map_nil, List.getLast?_nil]

/-- **A round in a body.** -/
theorem holds_passBody {bytes view : List UInt8} {w : OggInspector} (h : Holds bytes w)
    (hskip : w.skip ≠ 0) (hview : view ≠ []) : RoundHolds bytes view (w.passBody view) := by
  have hpos := List.length_pos_of_ne_nil hview
  cases h with
  | start | page | lost => exact absurd rfl hskip
  | @first header part hheader hversion hbegins hpart =>
    unfold passBody
    dsimp only [Option.map_some]
    set taken := min (bodySize header - part.length) view.length with htaken
    have hlength : (part ++ view.take taken).length = part.length + taken := by
      rw [List.length_append, List.length_take]
      omega
    by_cases hdone : bodySize header - part.length - taken = 0
    · rw [if_pos hdone]
      have hsize : (part ++ view.take taken).length = bodySize header := by omega
      cases hhead : readHead (part ++ view.take taken) with
      | error e =>
        refine ⟨by rintro _ _ ⟨⟩, fun e' he => ?_⟩
        obtain rfl := Except.error.inj he
        refine ⟨readHead_error hhead, fun more => ?_⟩
        rw [List.append_assoc, List.append_assoc]
        refine not_hasHeader hheader _ fun channels preSkip hfirst => ?_
        have hbody : (part ++ (view ++ more)).take (bodySize header) = part ++ view.take taken := by
          rw [← List.take_append_drop taken view, List.append_assoc, ← List.append_assoc part,
            ← hsize, List.take_left, List.take_append_drop]
        have := hfirst.head
        dsimp only at this
        rw [hbody, hhead] at this
        cases this
      | ok head =>
        refine ⟨fun w' n hw => ?_, by rintro _ ⟨⟩⟩
        obtain ⟨rfl, rfl⟩ := Prod.mk.inj (Except.ok.inj hw)
        refine ⟨by omega, ?_⟩
        have hwalked : Walked ⟨header, part ++ view.take taken⟩ [] head := by
          refine ⟨fun p hp => ?_, ⟨hversion, hbegins, hsize, hhead⟩⟩
          rw [List.mem_singleton.mp hp]
          exact ⟨hheader, hsize⟩
        have hpage := Holds.page hwalked partial_nil
        rw [tracked_first] at hpage
        unfold pagesBytes OggPage.bytes at hpage
        rw [List.map_singleton, List.flatten_singleton, List.append_nil,
          ← List.append_assoc] at hpage
        rw [hdone]
        exact hpage
    · rw [if_neg hdone]
      refine ⟨fun w' n hw => ?_, by rintro _ ⟨⟩⟩
      obtain ⟨rfl, rfl⟩ := Prod.mk.inj (Except.ok.inj hw)
      refine ⟨by omega, ?_⟩
      rw [List.append_assoc, Nat.sub_sub, ← hlength]
      exact .first hheader hversion hbegins (by omega)
  | @body first later head header part hwalked hheader hpart =>
    unfold passBody
    dsimp only [tracked, Option.map_none]
    set taken := min (bodySize header - part.length) view.length with htaken
    have hlength : (part ++ view.take taken).length = part.length + taken := by
      rw [List.length_append, List.length_take]
      omega
    rw [ite_self]
    refine ⟨fun w' n hw => ?_, by rintro _ ⟨⟩⟩
    obtain ⟨rfl, rfl⟩ := Prod.mk.inj (Except.ok.inj hw)
    refine ⟨by omega, ?_⟩
    have hbody := holds_body hwalked hheader
      (show (part ++ view.take taken).length ≤ bodySize header by omega)
    rw [tracked_body _ _ _ header _ part, hlength, ← Nat.sub_sub] at hbody
    rw [List.append_assoc, List.append_assoc]
    exact hbody

/-- A page header that a round has made whole, or not. -/
theorem header_cases {tail view header : List UInt8} (htail : Partial tail) (hview : view ≠ [])
    (hheader : header = tail ++ view.take (min (wanted tail - tail.length) view.length))
    (hcapture : ¬ (4 ≤ header.length ∧ header.take 4 ≠ OGGS)) :
    (PAGE_HEADER ≤ header.length ∧ header.length = PAGE_HEADER + byteAt header 26 →
      PageHeader header) ∧
    (¬ (PAGE_HEADER ≤ header.length ∧ header.length = PAGE_HEADER + byteAt header 26) →
      Partial header) := by
  have hfour : 4 ≤ header.length → header.take 4 = OGGS := fun hlong =>
    not_not.mp fun hne => hcapture ⟨hlong, hne⟩
  refine ⟨fun hwhole => ⟨hfour (Nat.le_trans (by decide) hwhole.1), hwhole.1, hwhole.2⟩,
    fun hwhole => ⟨hfour, ((header_grows htail hview).2 header hheader).2 hwhole⟩⟩

/-- **A round in the first page's header.** -/
theorem holds_readHeader_start {tail view : List UInt8} (htail : Partial tail)
    (hview : view ≠ []) :
    RoundHolds tail view (readHeader { new with header := tail } view) := by
  have htaken := (header_grows htail hview).1
  unfold readHeader
  dsimp only
  generalize hheader : tail ++ view.take (min (wanted tail - tail.length) view.length) = header
  have hsplit : ∀ more, tail ++ view ++ more =
      header ++ (view.drop (min (wanted tail - tail.length) view.length) ++ more) := by
    intro more
    rw [← hheader, List.append_assoc, List.append_assoc tail, ← List.append_assoc (view.take _),
      List.take_append_drop]
  by_cases hlost : 4 ≤ header.length ∧ header.take 4 ≠ OGGS
  · rw [if_pos hlost, if_pos (show new.head = none from rfl)]
    refine ⟨by rintro _ _ ⟨⟩, fun e he => ⟨⟨_, (Except.error.inj he).symm⟩, fun more => ?_⟩⟩
    rintro ⟨first, later, ending, channels, preSkip, hwalk, _⟩
    rw [hsplit, walkPages_lost (by rw [List.length_append]; omega)
      (by rw [List.take_append_of_le_length hlost.1]; exact hlost.2)] at hwalk
    cases hwalk
  rw [if_neg hlost]
  obtain ⟨hwhole, hbroken⟩ := header_cases htail hview hheader.symm hlost
  by_cases hcomplete : PAGE_HEADER ≤ header.length ∧
      header.length = PAGE_HEADER + byteAt header 26
  · rw [if_pos hcomplete]
    unfold page
    dsimp only [new]
    by_cases hbegins : byteAt header 4 ≠ 0 ∨ byteAt header 5 &&& 2 = 0
    · rw [if_pos hbegins]
      refine ⟨by rintro _ _ ⟨⟩, fun e he => ⟨⟨_, (Except.error.inj he).symm⟩, fun more => ?_⟩⟩
      rw [hsplit]
      refine not_hasHeader (hwhole hcomplete) _ fun channels preSkip hfirst => ?_
      rcases hbegins with h | h
      · exact h hfirst.version
      · exact hfirst.begins h
    rw [if_neg hbegins]
    obtain ⟨hversion, hbegins⟩ := not_or.mp hbegins
    dsimp only [Except.bind]
    by_cases hempty : bodySize header = 0
    · rw [if_pos ⟨hempty, rfl⟩]
      refine ⟨by rintro _ _ ⟨⟩, fun e he => ⟨⟨_, (Except.error.inj he).symm⟩, fun more => ?_⟩⟩
      rw [hsplit]
      refine not_hasHeader (hwhole hcomplete) _ fun channels preSkip hfirst => ?_
      have := hfirst.head
      dsimp only at this
      rw [hempty, List.take_zero] at this
      cases this
    · rw [if_neg fun h => hempty h.1]
      refine ⟨fun w' n hw => ?_, by rintro _ ⟨⟩⟩
      obtain ⟨rfl, rfl⟩ := Prod.mk.inj (Except.ok.inj hw)
      have hfirst := Holds.first (hwhole hcomplete) (not_not.mp hversion) hbegins
        (show ([] : List UInt8).length < bodySize header from Nat.pos_of_ne_zero hempty)
      rw [List.append_nil] at hfirst
      rw [hheader]
      exact ⟨htaken, hfirst⟩
  · rw [if_neg hcomplete]
    refine ⟨fun w' n hw => ?_, by rintro _ ⟨⟩⟩
    obtain ⟨rfl, rfl⟩ := Prod.mk.inj (Except.ok.inj hw)
    rw [hheader]
    exact ⟨htaken, .start (hbroken hcomplete)⟩

/-- **A round in a later page's header.** -/
theorem holds_readHeader_page {first : OggPage} {later : List OggPage} {head : ℕ × ℕ}
    {tail view : List UInt8} (hwalked : Walked first later head) (htail : Partial tail)
    (hview : view ≠ []) :
    RoundHolds (pagesBytes (first :: later) ++ tail) view
      (readHeader { tracked first later head with header := tail } view) := by
  have htaken := (header_grows htail hview).1
  unfold readHeader
  dsimp only
  generalize hheader : tail ++ view.take (min (wanted tail - tail.length) view.length) = header
  by_cases hlost : 4 ≤ header.length ∧ header.take 4 ≠ OGGS
  · rw [if_pos hlost, if_neg (by rintro ⟨⟩)]
    refine ⟨fun w' n hw => ?_, by rintro _ ⟨⟩⟩
    obtain ⟨rfl, rfl⟩ := Prod.mk.inj (Except.ok.inj hw)
    rw [List.append_assoc, hheader]
    exact ⟨htaken, .lost hwalked hlost.1 hlost.2⟩
  rw [if_neg hlost]
  obtain ⟨hwhole, hbroken⟩ := header_cases htail hview hheader.symm hlost
  by_cases hcomplete : PAGE_HEADER ≤ header.length ∧
      header.length = PAGE_HEADER + byteAt header 26
  · rw [if_pos hcomplete, page_tracked]
    dsimp only [Except.bind]
    rw [if_neg (by rintro ⟨_, ⟨⟩⟩)]
    refine ⟨fun w' n hw => ?_, by rintro _ ⟨⟩⟩
    obtain ⟨rfl, rfl⟩ := Prod.mk.inj (Except.ok.inj hw)
    have hbody := holds_body hwalked (hwhole hcomplete)
      (show ([] : List UInt8).length ≤ bodySize header from Nat.zero_le _)
    rw [List.append_nil] at hbody
    rw [List.append_assoc, hheader]
    exact ⟨htaken, hbody⟩
  · rw [if_neg hcomplete]
    refine ⟨fun w' n hw => ?_, by rintro _ ⟨⟩⟩
    obtain ⟨rfl, rfl⟩ := Prod.mk.inj (Except.ok.inj hw)
    rw [List.append_assoc, hheader]
    exact ⟨htaken, .page hwalked (hbroken hcomplete)⟩

/-- **A round of the loop.** -/
theorem holds_round {bytes view : List UInt8} {w : OggInspector} (h : Holds bytes w)
    (hlost : w.lost = false) (hview : view ≠ []) : RoundHolds bytes view (w.round view) := by
  unfold round
  by_cases hskip : w.skip ≠ 0
  · rw [if_pos hskip]
    exact holds_passBody h hskip hview
  · rw [if_neg hskip]
    cases h with
    | first _ _ _ hpart => exact absurd (Nat.sub_ne_zero_of_lt hpart) hskip
    | body _ _ hpart => exact absurd (Nat.sub_ne_zero_of_lt hpart) hskip
    | lost _ _ _ => cases hlost
    | start htail => exact holds_readHeader_start htail hview
    | page hwalked htail => exact holds_readHeader_page hwalked htail hview

/-! ## Chunks -/

/-- Bytes after the walk is lost change nothing. -/
theorem holds_lost {bytes : List UInt8} {w : OggInspector} (h : Holds bytes w)
    (hlost : w.lost = true) (more : List UInt8) : Holds (bytes ++ more) w := by
  cases h with
  | lost hwalked hlong hcapture =>
    rw [List.append_assoc]
    refine .lost hwalked (by rw [List.length_append]; omega) ?_
    rw [List.take_append_of_le_length hlong]
    exact hcapture
  | start | first | page | body => cases hlost

/-- **The loop of a chunk.** -/
theorem holds_feedView {bytes view : List UInt8} {w : OggInspector} (h : Holds bytes w)
    (hlost : w.lost = false) :
    (∀ w', feedView w view = .ok w' → Holds (bytes ++ view) w') ∧
      ∀ e, feedView w view = .error e → Fails (bytes ++ view) e := by
  induction hn : view.length using Nat.strongRecOn generalizing bytes view w with
  | _ n ih =>
    rw [feedView]
    by_cases hview : view = []
    · rw [dif_pos hview, hview, List.append_nil]
      exact ⟨fun w' hw => Except.ok.inj hw ▸ h, by rintro _ ⟨⟩⟩
    rw [dif_neg hview]
    obtain ⟨hok, herror⟩ := holds_round h hlost hview
    cases hround : w.round view with
    | error e =>
      refine ⟨by rintro _ ⟨⟩, fun e' he => ?_⟩
      obtain rfl := Except.error.inj he
      exact herror e hround
    | ok r =>
      obtain ⟨htaken, hholds⟩ := hok r.1 r.2 hround
      have hsplit : bytes ++ view = bytes ++ view.take r.2 ++ view.drop r.2 := by
        rw [List.append_assoc, List.take_append_drop]
      dsimp only [Except.bind]
      by_cases hlost' : r.1.lost = true
      · rw [if_pos hlost', hsplit]
        exact ⟨fun w' hw => Except.ok.inj hw ▸ holds_lost hholds hlost' _, by rintro _ ⟨⟩⟩
      · rw [if_neg hlost', dif_neg htaken, hsplit]
        have hpos := List.length_pos_of_ne_nil hview
        exact ih _ (by rw [List.length_drop]; omega) hholds (Bool.eq_false_iff.mpr hlost') rfl

/-- **A chunk fed is read as if it had come with the bytes before.** -/
theorem holds_feed {bytes chunk : List UInt8} {w : OggInspector} (h : Holds bytes w) :
    (∀ w', feed w chunk = .ok w' → Holds (bytes ++ chunk) w') ∧
      ∀ e, feed w chunk = .error e → Fails (bytes ++ chunk) e := by
  unfold feed
  by_cases hlost : w.lost = true
  · rw [if_pos (.inl hlost)]
    exact ⟨fun w' hw => Except.ok.inj hw ▸ holds_lost h hlost _, by rintro _ ⟨⟩⟩
  by_cases hchunk : chunk = []
  · rw [if_pos (.inr hchunk), hchunk, List.append_nil]
    exact ⟨fun w' hw => Except.ok.inj hw ▸ h, by rintro _ ⟨⟩⟩
  · rw [if_neg (by rintro (h | h); exacts [hlost h, hchunk h])]
    exact holds_feedView h (Bool.eq_false_iff.mpr hlost)

theorem holds_new : Holds [] new := .start partial_nil

/-- What is held of an upload, or why it failed. -/
theorem fed (chunks : List (List UInt8)) :
    (∀ w, Streaming.feedAll feed new chunks = .ok w → Holds chunks.flatten w) ∧
      ∀ e, Streaming.feedAll feed new chunks = .error e → Fails chunks.flatten e :=
  @Streaming.feedAll_spec _ _ _ feed Holds Fails (fun _ _ _ _ hw h => (holds_feed hw).1 _ h)
    (fun _ _ _ _ hw h => (holds_feed hw).2 _ h) (fun _ _ h => fails_append h) _ _ holds_new chunks

/-! ## The end -/

/-- **What an inspector holds at the end is the walk of the body.** -/
theorem Holds.walk {bytes : List UInt8} {w : OggInspector} (h : Holds bytes w) :
    (w.head = none ∧ ¬ HasHeader bytes) ∨
      ∃ first later head ending, w.head = some head ∧
        walkPages bytes = (first :: later, ending) ∧ OggHeader first head.1 head.2 ∧
        w.granule = lastGranule (headerSerial first.header) later ∧
        (w.otherStream = false ↔
          ∀ p ∈ later, headerSerial p.header = headerSerial first.header) ∧
        (w.header = [] ∧ w.skip = 0 ∧ w.lost = false ↔ ending = .boundary) := by
  have hother : ∀ (first : OggPage) (later : List OggPage) (head : ℕ × ℕ),
      (tracked first later head).otherStream = false ↔
        ∀ p ∈ later, headerSerial p.header = headerSerial first.header := by
    intro first later head
    unfold tracked
    rw [decide_eq_false_iff_not, not_exists]
    exact forall_congr' fun p => by rw [not_and, not_not]
  cases h with
  | start htail =>
    refine .inl ⟨rfl, ?_⟩
    rintro ⟨first, later, ending, channels, preSkip, hwalk, _⟩
    rw [walkPages_broken htail] at hwalk
    cases hwalk
  | @first header part hheader _ _ hpart =>
    refine .inl ⟨rfl, ?_⟩
    rintro ⟨first, later, ending, channels, preSkip, hwalk, hfirst⟩
    rw [walkPages_page hheader, if_pos hpart] at hwalk
    obtain ⟨hpages, _⟩ := Prod.mk.inj hwalk
    obtain ⟨rfl, _⟩ := List.cons.inj hpages
    exact Nat.ne_of_lt hpart hfirst.whole
  | @page first later head tail hwalked htail =>
    refine .inr ⟨first, later, head, if tail = [] then .boundary else .header, rfl, ?_,
      hwalked.header, rfl, hother _ _ head, ?_⟩
    · unfold pagesBytes
      rw [walkPages_pages hwalked.pages, walkPages_broken htail, List.append_nil]
    · by_cases hnil : tail = []
      · rw [if_pos hnil, hnil]
        exact ⟨fun _ => rfl, fun _ => ⟨rfl, rfl, rfl⟩⟩
      · rw [if_neg hnil]
        exact ⟨fun h => absurd h.1 hnil, by rintro ⟨⟩⟩
  | @body first later head header part hwalked hheader hpart =>
    refine .inr ⟨first, later ++ [⟨header, part⟩], head, .body, rfl, ?_, hwalked.header, rfl,
      hother _ _ head, fun h => absurd h.2.1 (Nat.sub_ne_zero_of_lt hpart), by rintro ⟨⟩⟩
    unfold pagesBytes
    rw [walkPages_pages hwalked.pages, walkPages_page hheader, if_pos hpart]
    rfl
  | @lost first later head tail kept hwalked hlong hcapture =>
    refine .inr ⟨first, later, head, .lost, rfl, ?_, hwalked.header, rfl, hother _ _ head,
      fun h => absurd h.2.2 (by rintro ⟨⟩), by rintro ⟨⟩⟩
    unfold pagesBytes
    rw [walkPages_pages hwalked.pages, walkPages_lost hlong hcapture, List.append_nil]

end OggInspector

/-- **An upload is its body.** -/
theorem inspectOgg_iff (chunks : List (List UInt8)) (channels : ℕ) (duration : Option ℕ) :
    inspectOgg chunks = .ok (channels, duration) ↔ OggBody chunks.flatten channels duration := by
  obtain ⟨hok, herror⟩ := OggInspector.fed chunks
  unfold inspectOgg OggBody
  cases hfeed : Streaming.feedAll OggInspector.feed OggInspector.new chunks with
  | error e =>
    refine ⟨by rintro ⟨⟩, fun ⟨first, later, ending, preSkip, hwalk, hheader, _⟩ => ?_⟩
    have := (herror e hfeed).2 []
    rw [List.append_nil] at this
    exact absurd ⟨first, later, ending, channels, preSkip, hwalk, hheader⟩ this
  | ok w =>
    show w.finish _ = _ ↔ _
    unfold OggInspector.finish
    rcases (hok w hfeed).walk with ⟨hhead, hnone⟩ |
      ⟨first, later, head, ending, hhead, hwalk, hheader, hgranule, hother, hboundary⟩
    · rw [hhead]
      refine ⟨by rintro ⟨⟩, fun ⟨first, later, ending, preSkip, hwalk, hheader, _⟩ => ?_⟩
      exact absurd ⟨first, later, ending, channels, preSkip, hwalk, hheader⟩ hnone
    · have hduration : (if (w.header = [] ∧ w.skip = 0 ∧ w.lost = false) ∧
          w.otherStream = false then oggDuration w.granule head.2 else none) =
          walkDuration first later ending head.2 := by
        unfold walkDuration
        rw [hgranule]
        simp only [hboundary, hother]
      rw [hhead]
      dsimp only
      rw [hduration]
      constructor
      · intro h
        obtain ⟨rfl, rfl⟩ := Prod.mk.inj (Except.ok.inj h)
        exact ⟨first, later, ending, head.2, hwalk, hheader, rfl⟩
      · rintro ⟨first', later', ending', preSkip, hwalk', hheader', rfl⟩
        obtain ⟨hpages, rfl⟩ := Prod.mk.inj (hwalk.symm.trans hwalk')
        obtain ⟨rfl, rfl⟩ := List.cons.inj hpages
        obtain ⟨rfl, rfl⟩ := Prod.mk.inj (Except.ok.inj (hheader.head.symm.trans hheader'.head))
        rfl

/-- An upload that is refused is refused for its header. -/
theorem inspectOgg_error {chunks : List (List UInt8)} {e : Failure}
    (h : inspectOgg chunks = .error e) : ∃ text, e = .header text := by
  unfold inspectOgg at h
  cases hfeed : Streaming.feedAll OggInspector.feed OggInspector.new chunks with
  | error e' =>
    rw [hfeed] at h
    obtain rfl := Except.error.inj h
    exact ((OggInspector.fed chunks).2 e' hfeed).1
  | ok w =>
    rw [hfeed] at h
    change w.finish _ = _ at h
    unfold OggInspector.finish at h
    split at h
    · exact ⟨_, (Except.error.inj h).symm⟩
    · cases h

end Earshot.Inspection
