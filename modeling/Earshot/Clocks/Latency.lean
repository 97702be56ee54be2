import Earshot.Clocks.Calibrated
import Mathlib.Tactic.NormNum
/-!
# What a latency says

The order of the declared relations is of no consequence. A latency through
truthful relations is sound when the relation that is used fits its end point,
and with a single relation only then.
-/

namespace Earshot

namespace Clocks

/-! ## The order of relations -/

/-- The order tells candidates apart. -/
theorem Candidate.order_injective : Function.Injective Candidate.order := by
  rintro ⟨value, uncertainty, relationId⟩ ⟨value', uncertainty', relationId'⟩ h
  simp only [Candidate.order, toLex_inj, Prod.mk.injEq] at h
  obtain ⟨hknown, hbound, hvalue, hid⟩ := h
  rw [hvalue, hid]
  rcases uncertainty with _ | u <;> rcases uncertainty' with _ | u' <;>
    simp_all

instance : Std.Antisymm fun a b : Candidate => a.order ≤ b.order :=
  ⟨fun _ _ hab hba => Candidate.order_injective (le_antisymm hab hba)⟩

instance : IsTrans Candidate fun a b => a.order ≤ b.order :=
  ⟨fun _ _ _ hab hbc => hab.trans hbc⟩

instance : Std.Total fun a b : Candidate => a.order ≤ b.order :=
  ⟨fun a b => le_total a.order b.order⟩

theorem insertionSort_perm {candidates others : List Candidate} (h : candidates.Perm others) :
    (candidates.insertionSort fun a b => a.order ≤ b.order) =
      others.insertionSort fun a b => a.order ≤ b.order :=
  (((List.perm_insertionSort _ candidates).trans h).trans
    (List.perm_insertionSort _ others).symm).eq_of_pairwise'
    (List.pairwise_insertionSort _ candidates) (List.pairwise_insertionSort _ others)

theorem reconcile_perm {candidates others : List Candidate} (h : candidates.Perm others) :
    reconcile candidates = reconcile others := by
  rw [reconcile, reconcile, insertionSort_perm h]

theorem leastRefusal_perm {refusals others : List RefusedAlignment} (h : refusals.Perm others) :
    leastRefusal refusals = leastRefusal others := by
  simp only [leastRefusal, List.contains_iff_mem, h.mem_iff]

theorem byPair_perm {relations others : List ClockRelation} (h : relations.Perm others)
    (source target : String) : (byPair relations source target).Perm
      (byPair others source target) :=
  (((List.perm_insertionSort _ relations).trans h).trans
    (List.perm_insertionSort _ others).symm).filter _

theorem reaching_perm {relations others : List ClockRelation} (h : relations.Perm others)
    (domain target : String) : (reaching relations domain target).Perm
      (reaching others domain target) :=
  ((byPair_perm h domain target).map _).append ((byPair_perm h target domain).map _)

theorem align_perm {relations others : List ClockRelation} (h : relations.Perm others)
    (point : TimePoint) (target : String) :
    align relations point target = align others point target := by
  have hc := fun domain wall =>
    reconcile_perm ((reaching_perm h domain target).filterMap (candidateOf wall))
  have hr := fun domain wall =>
    leastRefusal_perm ((reaching_perm h domain target).filterMap (refusalOf wall))
  simp only [align, hc, hr]

/-- **The order of the relations does not matter.** -/
theorem comparableDelta_perm {relations others : List ClockRelation} (h : relations.Perm others)
    (start stop : TimePoint) :
    comparableDelta relations start stop = comparableDelta others start stop := by
  simp only [comparableDelta, calibratedDelta, align_perm h]

/-! ## The relation that is used -/

theorem mem_byPair {relations : List ClockRelation} {source target : String}
    {relation : ClockRelation} : relation ∈ byPair relations source target ↔
      relation ∈ relations ∧ relation.fromClockDomainId = source ∧
        relation.toClockDomainId = target := by
  rw [byPair, List.mem_filter, List.mem_insertionSort, decide_eq_true_iff]

/-- A relation reaches a domain forward, or in reverse. -/
theorem mem_reaching {relations : List ClockRelation} {domain target : String}
    {item : ClockRelation × Bool} : item ∈ reaching relations domain target ↔
      item.1 ∈ relations ∧
        if item.2 then item.1.fromClockDomainId = domain ∧ item.1.toClockDomainId = target
        else item.1.fromClockDomainId = target ∧ item.1.toClockDomainId = domain := by
  obtain ⟨relation, forward⟩ := item
  rw [reaching, List.mem_append, List.mem_map, List.mem_map]
  cases forward <;> simp [mem_byPair]

theorem candidateOf_eq_some {wall : ℤ} {item : ClockRelation × Bool} {candidate : Candidate}
    (h : candidateOf wall item = some candidate) :
    item.1.mapWall wall item.2 = .ok candidate.value ∧
      candidate.uncertainty = item.1.uncertaintyNano := by
  rw [candidateOf] at h
  split at h
  · next happly =>
    obtain rfl := Option.some.inj h
    exact ⟨item.1.mapWall_of_apply happly, rfl⟩
  · cases h

/-- What is reconciled is the least candidate. -/
theorem head_of_reconcile {candidates : List Candidate} {aligned : ℤ} {added : Option ℕ}
    (h : reconcile candidates = some (.ok (aligned, added))) : ∃ least ∈ candidates,
      (candidates.insertionSort fun a b => a.order ≤ b.order).head? = some least ∧
      least.value = aligned ∧ least.uncertainty = added := by
  rw [reconcile] at h
  split at h
  · cases h
  · next least rest hsorted =>
    split at h
    · cases h
    · have hpair := Prod.mk.inj (Except.ok.inj (Option.some.inj h))
      refine ⟨least, ?_, by rw [hsorted, List.head?_cons], hpair.1, hpair.2⟩
      rw [← List.mem_insertionSort (fun a b : Candidate => a.order ≤ b.order), hsorted]
      exact List.mem_cons_self

/-- An aligned coordinate is that of the relation that is used. -/
theorem used_of_reconcile {relations : List ClockRelation} {domain target : String} {wall : ℤ}
    {aligned : ℤ} {added : Option ℕ}
    (h : reconcile ((reaching relations domain target).filterMap (candidateOf wall)) =
      some (.ok (aligned, added))) : ∃ item ∈ used relations domain target wall,
      item ∈ reaching relations domain target ∧
      item.1.mapWall wall item.2 = .ok aligned ∧ item.1.uncertaintyNano = added := by
  obtain ⟨least, hmem, hhead, rfl, rfl⟩ := head_of_reconcile h
  obtain ⟨item, hitem, hgives⟩ := List.mem_filterMap.mp hmem
  have hsome : (used relations domain target wall).isSome = true := by
    rw [used, List.find?_isSome]
    refine ⟨item, hitem, ?_⟩
    rw [decide_eq_true_iff, hhead, hgives]
    exact ⟨rfl, rfl⟩
  obtain ⟨chosen, hchosen⟩ := Option.isSome_iff_exists.mp hsome
  have hfound := List.find?_some hchosen
  rw [decide_eq_true_iff, hhead] at hfound
  obtain ⟨hmap, hadded⟩ := candidateOf_eq_some hfound.2
  exact ⟨chosen, hchosen, List.mem_of_find?_eq_some hchosen, hmap, hadded.symm⟩

/-- What a known interval between two domains is derived from. -/
structure Derived (relations : List ClockRelation) (start stop : TimePoint)
    (domain other : String) (first last : ℕ) (item : ClockRelation × Bool) (own : ℕ)
    (aligned : ℤ) : Prop where
  domainOf : stop.clockDomainId = some other
  source : start.sourceTimeUnixNano = some first
  wall : stop.sourceTimeUnixNano = some last
  used : item ∈ used relations other domain last
  reaches : item ∈ reaching relations other domain
  mapped : item.1.mapWall last item.2 = .ok aligned
  known : item.1.uncertaintyNano = some own
  uncertainty : (comparableDelta relations start stop).uncertainty =
    some (start.bound + stop.bound + own)
  nanoseconds : (comparableDelta relations start stop).nanoseconds = some (aligned - first)

/-- A known interval between domains is derived from the relation that is used. -/
theorem derived_of_known {relations : List ClockRelation} {start stop : TimePoint}
    {domain : String} (hdomain : start.clockDomainId = some domain)
    (hne : start.clockDomainId ≠ stop.clockDomainId)
    (hknown : (comparableDelta relations start stop).uncertainty.isSome = true) :
    ∃ other first last item own aligned,
      Derived relations start stop domain other first last item own aligned := by
  rcases hother : stop.clockDomainId with _ | other
  · rw [comparableDelta, hdomain, hother] at hknown
    cases hknown
  have hdiff : domain ≠ other := by
    rintro rfl
    exact hne (hdomain.trans hother.symm)
  have hempty : domain ≠ "" ∧ other ≠ "" :=
    ⟨fun h => start.named (h ▸ hdomain), fun h => stop.named (h ▸ hother)⟩
  rcases hfirst : start.sourceTimeUnixNano with _ | first
  · simp [comparableDelta, hdomain, hother, hdiff, hempty, hfirst, crossClockDomain] at hknown
  rcases hlast : stop.sourceTimeUnixNano with _ | last
  · simp [comparableDelta, hdomain, hother, hdiff, hempty, hfirst, hlast,
      crossClockDomain] at hknown
  have hdelta : comparableDelta relations start stop =
      calibratedDelta relations start stop domain first := by
    simp [comparableDelta, hdomain, hother, hdiff, hempty, hfirst, hlast]
  rw [hdelta, calibratedDelta] at hknown
  rcases hrec : reconcile ((reaching relations other domain).filterMap (candidateOf last)) with
    _ | reconciled
  · have halign : align relations stop domain = (leastRefusal
        ((reaching relations other domain).filterMap (refusalOf last))).map .error := by
      simp [align, hother, hlast, hempty, Ne.symm hdiff, hrec]
    rw [halign] at hknown
    cases hrefused : leastRefusal ((reaching relations other domain).filterMap (refusalOf last))
      <;> simp [hrefused, crossClockDomain] at hknown
  have halign : align relations stop domain = some reconciled := by
    simp [align, hother, hlast, hempty, Ne.symm hdiff, hrec]
  rw [halign] at hknown
  obtain refused | ⟨aligned, added⟩ := reconciled
  · simp at hknown
  obtain ⟨item, hused, hreach, hmap, hadded⟩ := used_of_reconcile hrec
  rw [calibratedDelta, halign] at hdelta
  simp only at hdelta hknown
  split at hknown
  · simp at hknown
  · next hforward =>
    rw [if_neg hforward] at hdelta
    obtain ⟨own, rfl⟩ : ∃ own, added = some own := by
      simpa [Option.isSome_iff_exists] using hknown
    refine ⟨other, first, last, item, own, aligned,
      ⟨hother, hfirst, hlast, hused, hreach, hmap, hadded, ?_, ?_⟩⟩
    · rw [hdelta]
      rfl
    · rw [hdelta]

/-- **Soundness.** Through truthful relations, a latency is an interval around the
true one when the relation that is used fits its end point. -/
theorem sound_of_fits {relations : List ClockRelation} {start stop : TimePoint}
    (hfits : Fits relations start stop) : Sound relations start stop := by
  intro Instant wall first last htrue hstart hstop hne domain hdomain value hvalue bound hbound
  obtain ⟨other, firstSource, lastSource, item, own, aligned, derived⟩ :=
    derived_of_known hdomain hne (Option.isSome_iff_exists.mpr ⟨bound, hbound⟩)
  obtain ⟨relation, forward⟩ := item
  have hfit := hfits domain hdomain other derived.domainOf lastSource derived.wall _ derived.used
  obtain ⟨hmem, hdirection⟩ := mem_reaching.mp derived.reaches
  have hrelation := htrue relation hmem
  have hreads := hstop other derived.domainOf lastSource derived.wall
  have hown : relation.bound = own := by rw [ClockRelation.bound, derived.known]; rfl
  have hwithin : |wall domain last - aligned| ≤ stop.bound + own + 1 := by
    cases forward with
    | true =>
      obtain ⟨hfrom, hto⟩ := hdirection
      obtain ⟨hlow, hhigh, hround⟩ := hfit
      simp only at hfrom hto
      subst hfrom hto
      exact ClockRelation.forward_within hrelation derived.known hlow hhigh hround derived.mapped
        hreads
    | false =>
      obtain ⟨hfrom, hto⟩ := hdirection
      obtain ⟨hleast, hmost, hround⟩ := hfit
      simp only at hfrom hto
      subst hfrom hto
      rw [hown] at hround
      exact ClockRelation.reverse_within hrelation derived.known hleast hmost hround derived.mapped
        hreads
  have hread := hstart domain hdomain firstSource derived.source
  obtain rfl : aligned - firstSource = value :=
    Option.some.inj (derived.nanoseconds.symm.trans hvalue)
  obtain rfl : start.bound + stop.bound + own = bound :=
    Option.some.inj (derived.uncertainty.symm.trans hbound)
  push_cast
  calc |wall domain last - wall domain first - (aligned - firstSource)|
      = |(wall domain last - aligned) - (wall domain first - firstSource)| := by
        congr 1
        ring
    _ ≤ |wall domain last - aligned| + |wall domain first - firstSource| := abs_sub _ _
    _ ≤ start.bound + stop.bound + own + 1 := by linarith

/-! ## A world against a relation -/

/-- Two instants: `p` and `y` are what the domain reads, `w` and `x` what any
other domain does. -/
def twoInstants (domain : String) (p y w x : ℚ) : String → Bool → ℚ := fun name later =>
  if name = domain then if later then y else p else if later then x else w

/-- A direction to err in. -/
theorem exists_sign (z : ℚ) : ∃ sign : ℚ, |sign| = 1 ∧ sign * z = |z| := by
  rcases le_total 0 z with hz | hz
  · exact ⟨1, abs_one, by rw [one_mul, abs_of_nonneg hz]⟩
  · exact ⟨-1, by rw [abs_neg, abs_one], by rw [abs_of_nonpos hz, neg_one_mul]⟩

/-- Errors of one direction add up. -/
theorem abs_add_sign {sign z more : ℚ} (hsign : |sign| = 1) (hz : sign * z = |z|)
    (hmore : 0 ≤ more) : |z + sign * more| = |z| + more := by
  have hsquare : sign * sign = 1 := by
    rcases eq_or_eq_neg_of_abs_eq hsign with rfl | rfl <;> norm_num
  have heq : z + sign * more = sign * (|z| + more) := by
    rw [mul_add, ← hz, ← mul_assoc, hsquare, one_mul]
  rw [heq, abs_mul, hsign, one_mul, abs_of_nonneg (add_nonneg (abs_nonneg z) hmore)]

section Single

variable {relation : ClockRelation} {start stop : TimePoint} {domain other : String}
  {first last own : ℕ} {aligned : ℤ} {forward : Bool}

/-- With one relation, a world in which it is truthful and that the points read
bounds what is derived. -/
theorem Derived.within (hsound : Sound [relation] start stop)
    (hdomain : start.clockDomainId = some domain)
    (derived : Derived [relation] start stop domain other first last (relation, forward) own
      aligned)
    (hdiff : domain ≠ other) {p y w x : ℚ}
    (htrue : Truthful (twoInstants domain p y w x) relation)
    (hp : |p - first| ≤ start.bound) (hx : |x - last| ≤ stop.bound) :
    |y - p - (aligned - first)| ≤ start.bound + stop.bound + own + 1 := by
  have hwithin := hsound Bool (twoInstants domain p y w x) false true
    (by
      intro r hr
      rw [List.mem_singleton.mp hr]
      exact htrue)
    (by
      intro name hname source hsource
      obtain rfl := Option.some.inj (hdomain.symm.trans hname)
      obtain rfl := Option.some.inj (derived.source.symm.trans hsource)
      simpa [twoInstants] using hp)
    (by
      intro name hname source hsource
      obtain rfl := Option.some.inj (derived.domainOf.symm.trans hname)
      obtain rfl := Option.some.inj (derived.wall.symm.trans hsource)
      simpa [twoInstants, hdiff.symm] using hx)
    (by
      rw [hdomain, derived.domainOf]
      exact fun h => hdiff (Option.some.inj h))
    domain hdomain _ derived.nanoseconds _ derived.uncertainty
  have hcast : ((start.bound + stop.bound + own : ℕ) : ℚ) + 1 =
      start.bound + stop.bound + own + 1 := by
    push_cast
    rfl
  rw [hcast] at hwithin
  simpa [twoInstants] using hwithin

/-- **Only then, forward.** A sound use of a relation fits. -/
theorem Derived.fits_forward (hsound : Sound [relation] start stop)
    (hdomain : start.clockDomainId = some domain)
    (derived : Derived [relation] start stop domain other first last (relation, true) own
      aligned) : relation.Fits true last stop.bound := by
  obtain ⟨-, hfrom, hto⟩ := mem_reaching.mp derived.reaches
  simp only at hfrom hto
  have hdiff : domain ≠ other := hto ▸ hfrom ▸ relation.distinct.symm
  have htrue : ∀ p y x : ℚ, (relation.inWindow x → |y - relation.affine x| ≤ own) →
      Truthful (twoInstants domain p y (relation.inverse p) x) relation := by
    intro p y x hlater later hwin bound hbound
    obtain rfl := Option.some.inj (derived.known.symm.trans hbound)
    cases later with
    | true =>
      simp only [twoInstants, hfrom, hto, hdiff.symm, if_true, if_false] at hwin ⊢
      exact hlater hwin
    | false => simp [twoInstants, hfrom, hto, hdiff.symm, relation.affine_inverse]
  -- Outside of the window the relation says nothing of the end point.
  have hwindow : ∀ x : ℚ, |x - last| ≤ stop.bound → relation.inWindow x := by
    intro x hx
    by_contra hout
    have hfar := derived.within hsound hdomain hdiff
      (htrue first (aligned + (start.bound + stop.bound + own + 2)) x fun h => absurd h hout)
      (by simp) hx
    have hlarge : (aligned : ℚ) + (start.bound + stop.bound + own + 2) - first -
        (aligned - first) = start.bound + stop.bound + own + 2 := by
      ring
    rw [hlarge, abs_of_nonneg (by positivity)] at hfar
    linarith
  refine ⟨hwindow _ (by simp), hwindow _ (by simp), ?_⟩
  obtain ⟨sign, hsign, hz⟩ := exists_sign (relation.affine last - aligned)
  have hfar := derived.within hsound hdomain hdiff
    (p := first - sign * start.bound) (x := last + sign * stop.bound)
    (htrue _ (relation.affine (last + sign * stop.bound) + sign * own) _
      fun _ => by simp [abs_mul, hsign])
    (by simp [abs_mul, hsign]) (by simp [abs_mul, hsign])
  have hsum : relation.affine (last + sign * stop.bound) + sign * own -
      (first - sign * start.bound) - (aligned - first) =
      relation.affine last - aligned +
        sign * (relation.slope * stop.bound + own + start.bound) := by
    rw [relation.affine_add]
    ring
  have hmore : 0 ≤ relation.slope * stop.bound + own + start.bound := by
    have := relation.slope_pos
    positivity
  have hround := relation.abs_affine_sub_of_mapWall derived.mapped
  rw [Int.cast_natCast] at hround
  have hslope : relation.slope * stop.bound = stop.bound + relation.drift * stop.bound := by
    rw [ClockRelation.slope]
    ring
  rw [hsum, abs_add_sign hsign hz hmore, hround] at hfar
  linarith

/-- **Only then, in reverse.** A sound use of a relation fits. -/
theorem Derived.fits_reverse (hsound : Sound [relation] start stop)
    (hdomain : start.clockDomainId = some domain)
    (derived : Derived [relation] start stop domain other first last (relation, false) own
      aligned) : relation.Fits false last stop.bound := by
  obtain ⟨-, hfrom, hto⟩ := mem_reaching.mp derived.reaches
  simp only at hfrom hto
  have hdiff : domain ≠ other := hto ▸ hfrom ▸ relation.distinct
  have htrue : ∀ p y x : ℚ, (relation.inWindow y → |x - relation.affine y| ≤ own) →
      Truthful (twoInstants domain p y (relation.affine p) x) relation := by
    intro p y x hlater later hwin bound hbound
    obtain rfl := Option.some.inj (derived.known.symm.trans hbound)
    cases later with
    | true =>
      simp only [twoInstants, hfrom, hto, hdiff.symm, if_true, if_false] at hwin ⊢
      exact hlater hwin
    | false => simp [twoInstants, hfrom, hto, hdiff.symm]
  -- Where the truth is outside of the window, the relation says nothing of it.
  have hwindow : ∀ y : ℚ, start.bound + stop.bound + own + 1 < |y - aligned| →
      relation.inWindow y := by
    intro y hy
    by_contra hout
    have hfar := derived.within hsound hdomain hdiff (p := first) (x := last)
      (htrue first y last fun h => absurd h hout) (by simp) (by simp)
    rw [sub_sub_sub_cancel_right] at hfar
    linarith
  have hbounds : (0 : ℚ) ≤ start.bound + stop.bound + own := by positivity
  refine ⟨?_, ?_, ?_⟩
  · rcases hleast : relation.validFromUnixNano with _ | least
    · rfl
    · have hlow := le_abs_self ((aligned : ℚ) - least)
      have hfar := (hwindow
        (aligned - (start.bound + stop.bound + own + 2 + |(aligned : ℚ) - least|)) (by
          rw [sub_sub_cancel_left, abs_neg, abs_of_nonneg (by positivity)]
          have := abs_nonneg ((aligned : ℚ) - least)
          linarith)).1 least hleast
      linarith
  · rcases hmost : relation.validToUnixNano with _ | most
    · rfl
    · have hhigh := neg_abs_le ((aligned : ℚ) - most)
      have hfar := (hwindow
        (aligned + (start.bound + stop.bound + own + 2 + |(aligned : ℚ) - most|)) (by
          rw [add_sub_cancel_left, abs_of_nonneg (by positivity)]
          have := abs_nonneg ((aligned : ℚ) - most)
          linarith)).2 most hmost
      linarith
  · obtain ⟨sign, hsign, hz⟩ := exists_sign (relation.inverse last - aligned)
    have hfar := derived.within hsound hdomain hdiff
      (p := first - sign * start.bound) (x := last + sign * stop.bound)
      (htrue _ (relation.inverse (last + sign * (stop.bound + own))) _
        fun _ => by
          rw [relation.affine_inverse]
          simp [mul_add, abs_mul, hsign])
      (by simp [abs_mul, hsign]) (by simp [abs_mul, hsign])
    have hsum : relation.inverse (last + sign * (stop.bound + own)) -
        (first - sign * start.bound) - (aligned - first) =
        relation.inverse last - aligned +
          sign * ((stop.bound + own) / relation.slope + start.bound) := by
      rw [relation.inverse_add]
      ring
    have hmore : 0 ≤ (stop.bound + own) / relation.slope + start.bound := by
      have := relation.slope_pos
      positivity
    have hround := relation.abs_inverse_sub_of_mapWall derived.mapped
    rw [Int.cast_natCast] at hround
    have hown : relation.bound = own := by
      rw [ClockRelation.bound, derived.known]
      rfl
    rw [hsum, abs_add_sign hsign hz hmore, hround] at hfar
    rw [hown]
    linarith

end Single

/-- With a single relation, soundness needs the fit. -/
theorem fits_of_sound {relation : ClockRelation} {start stop : TimePoint}
    (hknown : (comparableDelta [relation] start stop).uncertainty.isSome = true)
    (hsound : Sound [relation] start stop) : Fits [relation] start stop := by
  intro domain hdomain other hother wall hwall item hitem
  by_cases hne : start.clockDomainId = stop.clockDomainId
  · obtain rfl : domain = other := Option.some.inj (hdomain.symm.trans (hne.trans hother))
    have hreach := (mem_reaching.mp (List.mem_of_find?_eq_some hitem)).2
    split at hreach
    · exact absurd (hreach.1.trans hreach.2.symm) item.1.distinct
    · exact absurd (hreach.1.trans hreach.2.symm) item.1.distinct
  · obtain ⟨other', first, last, chosen, own, aligned, derived⟩ :=
      derived_of_known hdomain hne hknown
    obtain rfl := Option.some.inj (hother.symm.trans derived.domainOf)
    obtain rfl := Option.some.inj (hwall.symm.trans derived.wall)
    obtain rfl := Option.some.inj (hitem.symm.trans derived.used)
    obtain ⟨only, forward⟩ := item
    obtain rfl := List.mem_singleton.mp (mem_reaching.mp derived.reaches).1
    cases forward with
    | true => exact derived.fits_forward hsound hdomain
    | false => exact derived.fits_reverse hsound hdomain

/-! ## Soundness -/

/-- **A latency is what the evidence bounds when the relation that is used fits
its end point, and with a single relation only then.** The order of the
relations is of no consequence. -/
theorem calibrated_sound (relations : List ClockRelation) (start stop : TimePoint) :
    (∀ others, relations.Perm others →
      comparableDelta others start stop = comparableDelta relations start stop) ∧
    (Fits relations start stop → Sound relations start stop) ∧
    ∀ relation, relations = [relation] →
      (comparableDelta relations start stop).uncertainty.isSome = true →
      (Sound relations start stop ↔ Fits relations start stop) := by
  refine ⟨fun others hperm => (comparableDelta_perm hperm start stop).symm, sound_of_fits, ?_⟩
  rintro relation rfl hknown
  exact ⟨fits_of_sound hknown, sound_of_fits⟩

/-- The wall clock of `b` runs half as fast again in `a`. -/
def drifting : ClockRelation where
  relationId := "r"
  fromClockDomainId := "b"
  toClockDomainId := "a"
  offsetNano := 0
  driftPpm := some 500000
  uncertaintyNano := some 0
  referenceUnixNano := some 0
  validFromUnixNano := none
  validToUnixNano := none
  distinct := by decide
  ordered := by simp
  float := by
    intro ppm h
    obtain rfl := Option.some.inj h
    decide +kernel
  bounded := by
    intro ppm h
    obtain rfl := Option.some.inj h
    norm_num [MAX_CLOCK_DRIFT_PPM]
  anchored := by simp

def startOfA : TimePoint := ⟨some 0, none, none, some "a", some 0, by simp⟩

/-- A point of `b` that is known to a microsecond. -/
def stopOfB : TimePoint := ⟨some 1000000, none, none, some "b", some 1000, by simp⟩

/-- A drift stretches the end point's bound: the latency is 1,501,500 where
1,500,000 is derived, to within 1,000. -/
theorem not_sound_drifting : ¬ Sound [drifting] startOfA stopOfB := by
  intro hsound
  have hnanos : (comparableDelta [drifting] startOfA stopOfB).nanoseconds = some 1500000 := by
    decide +kernel
  have hbound : (comparableDelta [drifting] startOfA stopOfB).uncertainty = some 1000 := by
    decide +kernel
  have hother : "b" ≠ "a" := by decide
  have hwithin := hsound Bool (twoInstants "a" 0 1501500 0 1001000) false true
    (by
      intro relation hrelation later _ bound hown
      obtain rfl := List.mem_singleton.mp hrelation
      cases later <;>
        norm_num [twoInstants, hother, drifting, ClockRelation.affine, ClockRelation.correction,
          ClockRelation.drift, ClockRelation.reference] at hown ⊢)
    (by
      intro name hname source hsource
      obtain rfl := Option.some.inj hname
      obtain rfl := Option.some.inj hsource
      norm_num [twoInstants, startOfA, TimePoint.bound])
    (by
      intro name hname source hsource
      obtain rfl := Option.some.inj hname
      obtain rfl := Option.some.inj hsource
      norm_num [twoInstants, hother, stopOfB, TimePoint.bound])
    (by decide) "a" rfl _ hnanos _ hbound
  norm_num [twoInstants] at hwithin

end Clocks

end Earshot
