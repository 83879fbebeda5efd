import HiddenSteps.Redaction.Detectors
import HiddenSteps.Text.RegexLaws

/-!
# DetectorLaws — what every detection looks like, and when detection returns

* `cuts_of_detectAll`: a detection starts and ends on a character boundary of the text;
* `detectAll_sorted`: the detections are ordered by where they start;
* `detectAll_isSome_iff`: only the slices of the dashless social security number can panic.
-/

namespace HiddenSteps
namespace Redaction

open Text

/-! ## Card number windows -/

theorem mem_charIndices {s : List Char} {start : Nat} {p : Char × Nat}
    (h : p ∈ charIndices start s) :
    ∃ u v, s = u ++ p.1 :: v ∧ p.2 = start + byteLen u := by
  induction s generalizing start with
  | nil => simp [charIndices] at h
  | cons c cs ih =>
      rcases List.mem_cons.1 h with rfl | h
      · exact ⟨[], cs, rfl, by simp⟩
      · rcases ih h with ⟨u, v, rfl, hp⟩
        exact ⟨c :: u, v, rfl, by rw [hp, byteLen_cons, Nat.add_assoc]⟩

theorem charIndices_sorted (s : List Char) (start : Nat) :
    (charIndices start s).Pairwise fun p q => p.2 < q.2 := by
  induction s generalizing start with
  | nil => exact List.Pairwise.nil
  | cons c cs ih =>
      refine List.pairwise_cons.2 ⟨?_, ih _⟩
      intro q hq
      rcases mem_charIndices hq with ⟨u, v, _, hq⟩
      have hpos := c.utf8Size_pos
      simp only [hq]
      omega

theorem utf8Size_of_isDigit {c : Char} (h : c.isDigit = true) : c.utf8Size = 1 := by
  rw [Char.utf8Size_eq_one_iff]
  simp only [Char.isDigit, Bool.and_eq_true, decide_eq_true_eq] at h
  exact UInt32.le_trans h.2 (by decide)

/-- The first and the last digit of a window lie at boundaries of the candidate. -/
theorem cuts_of_luhnWindow {candidate : List Char} {start len i : Nat} {s : Span}
    (h : luhnWindow ((charIndices start candidate).filter fun p => p.1.isDigit) len i =
      some (some s)) :
    start ≤ s.start ∧ s.start ≤ s.stop ∧
      Cuts candidate (s.start - start) (s.stop - start) := by
  rcases Option.bind_eq_some_iff.1 h with ⟨window, hwindow, h⟩
  split at h
  case isFalse => simp at h
  rcases Option.bind_eq_some_iff.1 h with ⟨first, hfirst, h⟩
  rcases Option.bind_eq_some_iff.1 h with ⟨last, hlast, h⟩
  cases h
  have hsub := (windowAt_eq_some hwindow).1.trans List.filter_sublist
  have hdigit : last.1.isDigit = true :=
    (List.mem_filter.1 ((windowAt_eq_some hwindow).1.subset (List.mem_of_getLast? hlast))).2
  rcases mem_charIndices (hsub.subset (List.mem_of_head? hfirst)) with ⟨u, v, hu, hfst⟩
  rcases mem_charIndices (hsub.subset (List.mem_of_getLast? hlast)) with ⟨u', v', hu', hlst⟩
  -- the digits of a window stand in the order of the text
  have hle : first.2 ≤ last.2 := by
    have hsorted := (charIndices_sorted candidate start).sublist hsub
    cases window with
    | nil => simp at hfirst
    | cons p ps =>
        cases hfirst
        have hmem := List.mem_of_getLast? hlast
        rcases List.mem_cons.1 hmem with rfl | hmem
        · exact Nat.le_refl _
        · exact Nat.le_of_lt ((List.pairwise_cons.1 hsorted).1 last hmem)
  refine ⟨by simp only [hfst]; omega, by simp only; omega, cuts_of_boundaries ?_ ?_ ?_⟩
  · show first.2 - start ≤ last.2 + 1 - start
    omega
  · refine splitAtByte_isSome_iff.2 ⟨u, first.1 :: v, hu, ?_⟩
    show byteLen u = first.2 - start
    omega
  · -- the window ends one byte after its last digit starts, which is right for ASCII digits
    refine splitAtByte_isSome_iff.2 ⟨u' ++ [last.1], v', by simp [hu'], ?_⟩
    show byteLen (u' ++ [last.1]) = last.2 + 1 - start
    simp only [byteLen_append, byteLen_cons, byteLen_nil, utf8Size_of_isDigit hdigit]
    omega

theorem cuts_of_findLuhnValidWindow {candidate : List Char} {start : Nat} {s : Span}
    (h : findLuhnValidWindow candidate start = some (some s)) :
    start ≤ s.start ∧ s.start ≤ s.stop ∧
      Cuts candidate (s.start - start) (s.stop - start) := by
  unfold findLuhnValidWindow at h
  simp only at h
  split at h
  · simp at h
  · rcases of_firstOf h with ⟨len, _, h⟩
    rcases Option.bind_eq_some_iff.1 h with ⟨lastStart, _, h⟩
    rcases of_firstOf h with ⟨i, _, h⟩
    exact cuts_of_luhnWindow h

theorem luhnWindow_isSome {positions : List (Char × Nat)} {len i : Nat} (hlen : 0 < len)
    (hi : i + len ≤ positions.length) : (luhnWindow positions len i).isSome := by
  have hwindow : windowAt positions i len = some ((positions.drop i).take len) := by
    simp [windowAt, hi]
  have hne : (positions.drop i).take len ≠ [] := by
    apply List.ne_nil_of_length_pos
    simp only [List.length_take, List.length_drop]
    omega
  rcases Option.isSome_iff_exists.1 (List.isSome_head?.2 hne) with ⟨first, hfirst⟩
  rcases Option.isSome_iff_exists.1 (List.getLast?_isSome.2 hne) with ⟨last, hlast⟩
  simp only [luhnWindow, hwindow, Option.bind_some, hfirst, hlast, bind]
  split <;> rfl

/-- No subtraction underflows and no window runs over the end. -/
theorem findLuhnValidWindow_isSome (candidate : List Char) (start : Nat) :
    (findLuhnValidWindow candidate start).isSome := by
  unfold findLuhnValidWindow
  simp only
  split
  · rfl
  · apply firstOf_isSome
    intro len hlen
    -- no length tried exceeds the number of digits
    rw [List.mem_reverse, List.mem_range'_1] at hlen
    have hle : len ≤ ((charIndices start candidate).filter fun p => p.1.isDigit).length := by
      omega
    simp only [checkedSub, if_pos hle, bind, Option.bind_some]
    apply firstOf_isSome
    intro i hi
    rw [List.mem_range] at hi
    exact luhnWindow_isSome (by omega) (by omega)

/-! ## Detections cut the text -/

/-- The detection starts and ends on a character boundary. -/
def Detection.Within (text : List Char) (d : Detection) : Prop :=
  Cuts text d.start d.stop

/-- What the format-specific detectors report: a detection of high confidence inside the text. -/
def Detection.Certain (text : List Char) (d : Detection) : Prop :=
  d.Within text ∧ d.confidence = .high

theorem certain_of_pushMatches {text : List Char} {pattern : Text.Pattern} {category : Category}
    {d : Detection} (h : d ∈ pushMatches text pattern category .high) : d.Certain text := by
  rcases List.mem_map.1 h with ⟨m, hm, rfl⟩
  exact ⟨cuts_of_mem_findIter hm, rfl⟩

theorem certain_of_pushValues {text : List Char} {pattern : Text.Pattern} {category : Category}
    {d : Detection} (h : d ∈ pushValues text pattern category) : d.Certain text := by
  rcases List.mem_filterMap.1 h with ⟨m, hm, h⟩
  rcases Option.map_eq_some_iff.1 h with ⟨v, hv, rfl⟩
  exact ⟨cuts_of_get hm hv, rfl⟩

theorem certain_of_governmentId {text : List Char} {pattern : Text.Pattern} {m : Match}
    (hm : m ∈ findIter pattern text) {area group serial : List Char} {d : Detection}
    (h : governmentId m area group serial = some d) : d.Certain text := by
  unfold governmentId at h
  split at h
  · cases h
    exact ⟨cuts_of_mem_findIter hm, rfl⟩
  · cases h

theorem certain_of_separatedSsn {text : List Char} {pattern : Text.Pattern} {ds : List Detection}
    (h : collect (separatedSsn text) (findIter pattern text) = some ds) {d : Detection}
    (hd : d ∈ ds) : d.Certain text := by
  rcases mem_of_collect h hd with ⟨m, hm, h⟩
  simp only [separatedSsn, bind, Option.bind_eq_some_iff] at h
  rcases h with ⟨_, _, _, _, _, _, h⟩
  exact certain_of_governmentId hm (Option.some.inj h)

theorem certain_of_dashlessSsn {text : List Char} {pattern : Text.Pattern} {ds : List Detection}
    (h : collect (dashlessSsn text) (findIter pattern text) = some ds) {d : Detection}
    (hd : d ∈ ds) : d.Certain text := by
  rcases mem_of_collect h hd with ⟨m, hm, h⟩
  simp only [dashlessSsn, bind, Option.bind_eq_some_iff] at h
  rcases h with ⟨_, _, _, _, _, _, _, _, h⟩
  exact certain_of_governmentId hm (Option.some.inj h)

theorem certain_of_cardNumber {text : List Char} {pattern : Text.Pattern} {ds : List Detection}
    (h : collect (cardNumber text) (findIter pattern text) = some ds) {d : Detection}
    (hd : d ∈ ds) : d.Certain text := by
  rcases mem_of_collect h hd with ⟨m, _, h⟩
  rcases Option.bind_eq_some_iff.1 h with ⟨candidate, hcandidate, h⟩
  rcases Option.bind_eq_some_iff.1 h with ⟨window, hwindow, h⟩
  rcases Option.map_eq_some_iff.1 (Option.some.inj h) with ⟨s, rfl, rfl⟩
  rcases cuts_of_findLuhnValidWindow hwindow with ⟨hle, hstop, hcuts⟩
  -- the candidate lies between `a` and `c`, and the window cuts the candidate
  rcases slice_eq_some hcandidate with ⟨a, c, rfl, ha, _⟩
  have hcuts := (hcuts.append_left a).append_right c
  rw [ha, Nat.add_sub_cancel' hle, Nat.add_sub_cancel' (Nat.le_trans hle hstop)] at hcuts
  exact ⟨hcuts, rfl⟩

theorem certain_of_highConfidence {sc : Scanner} {text : List Char} {ds : List Detection}
    (h : highConfidence sc text = some ds) : ∀ d ∈ ds, d.Certain text := by
  simp only [highConfidence, bind, Option.bind_eq_some_iff, Option.some.injEq] at h
  rcases h with ⟨dashed, hdashed, spaced, hspaced, dashless, hdashless, cards, hcards, rfl⟩
  intro d hd
  simp only [List.mem_append] at hd
  rcases hd with (((hd | hd) | hd) | hd) | hd
  · -- the eight formats report a whole match or its first group
    rcases hd with ((((((hd | hd) | hd) | hd) | hd) | hd) | hd) | hd
    all_goals first | exact certain_of_pushMatches hd | exact certain_of_pushValues hd
  · exact certain_of_separatedSsn hdashed hd
  · exact certain_of_separatedSsn hspaced hd
  · exact certain_of_dashlessSsn hdashless hd
  · exact certain_of_cardNumber hcards hd

/-! ## The ambiguous pass -/

/-- The token is shaped like a secret of no known format. -/
def secretShaped (sc : Scanner) (token : List Char) : Bool :=
  !looksLikeCommonHexId token && (token.any fun c => c.isAlpha) &&
    (token.any fun c => !c.isAlpha) && sc.highEntropy token

/-- A detection overlaps the span. -/
def claimed (detections : List Detection) (s : Span) : Bool :=
  detections.any fun d => rangesOverlap d.start d.stop s.start s.stop

/-- The candidate is no part of a detection and is shaped like a secret. -/
def Refused (sc : Scanner) (text : List Char) (ds : List Detection) (m : Match) : Prop :=
  claimed ds m.span = false ∧
    ∃ token, slice text m.span.start m.span.stop = some token ∧ secretShaped sc token = true

/-- The ambiguous pass adds the whole candidate when it is refused, and nothing else. -/
theorem pushAmbiguous_eq_some {sc : Scanner} {text : List Char} {ds ds' : List Detection}
    {m : Match} (h : pushAmbiguous sc text ds m = some ds') :
    Refused sc text ds m ∧ ds' = ds ++ [.ofSpan m.span .ambiguousSecret .ambiguous] ∨
      ¬ Refused sc text ds m ∧ ds' = ds := by
  unfold pushAmbiguous at h
  split at h
  · -- claimed by an earlier detection
    rename_i hclaimed
    refine Or.inr ⟨fun hrefused => ?_, (Option.some.inj h).symm⟩
    exact absurd hclaimed (by rw [← claimed, hrefused.1]; exact Bool.false_ne_true)
  · rename_i hclaimed
    have hclaimed : claimed ds m.span = false := eq_false_of_ne_true hclaimed
    rcases Option.bind_eq_some_iff.1 h with ⟨token, htoken, h⟩
    -- the slice of the candidate is the only token to judge
    have hrefused : Refused sc text ds m ↔ secretShaped sc token = true := by
      constructor
      · rintro ⟨-, token', htoken', hshape⟩
        rwa [Option.some.inj (htoken.symm.trans htoken')]
      · exact fun hshape => ⟨hclaimed, token, htoken, hshape⟩
    rw [hrefused]
    simp only at h
    split at h
    · rename_i hhex
      exact Or.inr ⟨by simp [secretShaped, hhex], (Option.some.inj h).symm⟩
    · rename_i hhex
      split at h
      · rename_i hshape
        refine Or.inl ⟨?_, (Option.some.inj h).symm⟩
        simpa [secretShaped, hhex] using hshape
      · rename_i hshape
        refine Or.inr ⟨?_, (Option.some.inj h).symm⟩
        simpa [secretShaped, hhex] using hshape

theorem within_of_foldlM_pushAmbiguous {sc : Scanner} {text : List Char} {ms : List Match}
    {ds ds' : List Detection} (hms : ∀ m ∈ ms, Cuts text m.span.start m.span.stop)
    (h : ms.foldlM (pushAmbiguous sc text) ds = some ds') (hds : ∀ d ∈ ds, d.Within text) :
    ∀ d ∈ ds', d.Within text := by
  induction ms generalizing ds with
  | nil =>
      cases h
      exact hds
  | cons m ms ih =>
      rcases Option.bind_eq_some_iff.1 h with ⟨ds₁, hstep, hrest⟩
      refine ih (fun m hm => hms m (List.mem_cons_of_mem _ hm)) hrest ?_
      rcases pushAmbiguous_eq_some hstep with ⟨-, rfl⟩ | ⟨-, rfl⟩
      · intro d hd
        rcases List.mem_append.1 hd with hd | hd
        · exact hds d hd
        · rcases List.mem_singleton.1 hd with rfl
          exact hms m List.mem_cons_self
      · exact hds

theorem mem_sortByStart {ds : List Detection} {d : Detection} : d ∈ sortByStart ds ↔ d ∈ ds :=
  (List.perm_insertionSort _ ds).mem_iff

theorem sortByStart_sorted (ds : List Detection) :
    (sortByStart ds).Pairwise fun a b => a.start ≤ b.start := by
  unfold sortByStart
  exact List.pairwise_insertionSort (r := fun a b : Detection => a.start ≤ b.start) ds

/-- Every detection starts and ends on a character boundary. -/
theorem within_of_detectAll {sc : Scanner} {text : List Char} {ds : List Detection}
    (h : detectAll sc text = some ds) : ∀ d ∈ ds, d.Within text := by
  rcases Option.bind_eq_some_iff.1 h with ⟨high, hhigh, h⟩
  rcases Option.bind_eq_some_iff.1 h with ⟨all, hall, h⟩
  cases h
  intro d hd
  exact within_of_foldlM_pushAmbiguous (fun m hm => cuts_of_mem_findIter hm) hall
    (fun d hd => (certain_of_highConfidence hhigh d hd).1) d (mem_sortByStart.1 hd)

theorem detectAll_sorted {sc : Scanner} {text : List Char} {ds : List Detection}
    (h : detectAll sc text = some ds) : SortedByStart (ds.map Detection.span) := by
  rcases Option.bind_eq_some_iff.1 h with ⟨high, _, h⟩
  rcases Option.bind_eq_some_iff.1 h with ⟨all, _, h⟩
  cases h
  exact List.pairwise_map.2 (sortByStart_sorted all)

theorem detectAll_bounded {sc : Scanner} {text : List Char} {ds : List Detection}
    (h : detectAll sc text = some ds) :
    Bounded (utf8Bytes text).length (ds.map Detection.span) := by
  intro s hs
  rcases List.mem_map.1 hs with ⟨d, hd, rfl⟩
  have hcuts := within_of_detectAll h d hd
  rw [length_utf8Bytes]
  exact ⟨hcuts.le, hcuts.stop_le⟩

/-! ## Where a detection comes from -/

section Sources

variable {sc : Scanner} {text : List Char} {ms : List Match} {ds ds' : List Detection}
  {d : Detection}

theorem mem_of_foldlM_pushAmbiguous (h : ms.foldlM (pushAmbiguous sc text) ds = some ds')
    (hd : d ∈ ds) : d ∈ ds' := by
  induction ms generalizing ds with
  | nil =>
      cases h
      exact hd
  | cons m ms ih =>
      rcases Option.bind_eq_some_iff.1 h with ⟨ds₁, hstep, hrest⟩
      rcases pushAmbiguous_eq_some hstep with ⟨-, rfl⟩ | ⟨-, rfl⟩
      · exact ih hrest (List.mem_append_left _ hd)
      · exact ih hrest hd

theorem category_of_foldlM_pushAmbiguous
    (h : ms.foldlM (pushAmbiguous sc text) ds = some ds') (hd : d ∈ ds') :
    d ∈ ds ∨ d.category = .ambiguousSecret := by
  induction ms generalizing ds with
  | nil =>
      cases h
      exact Or.inl hd
  | cons m ms ih =>
      rcases Option.bind_eq_some_iff.1 h with ⟨ds₁, hstep, hrest⟩
      rcases pushAmbiguous_eq_some hstep with ⟨-, rfl⟩ | ⟨-, rfl⟩
      · rcases ih hrest with hd | hd
        · rcases List.mem_append.1 hd with hd | hd
          · exact Or.inl hd
          · rcases List.mem_singleton.1 hd with rfl
            exact Or.inr rfl
        · exact Or.inr hd
      · exact ih hrest

/-- Where a detection comes from: passwords from the key/value pattern, cards from the card loop,
everything else from the other detectors. -/
theorem source_of_highConfidence (h : highConfidence sc text = some ds) (hd : d ∈ ds) :
    d ∈ pushValues text (keyValueSecret sc.classes) .password ∨
      (∃ m ∈ findIter (creditCardCandidate sc.classes) text, cardNumber text m = some (some d)) ∨
      d.category ≠ .password ∧ d.category ≠ .creditCard := by
  simp only [highConfidence, bind, Option.bind_eq_some_iff, Option.some.injEq] at h
  rcases h with ⟨dashed, hdashed, spaced, hspaced, dashless, hdashless, cards, hcards, rfl⟩
  have hother : ∀ {c : Category}, d.category = c → c ≠ .password → c ≠ .creditCard →
      d.category ≠ .password ∧ d.category ≠ .creditCard := by
    rintro _ rfl hpassword hcard
    exact ⟨hpassword, hcard⟩
  have hgovernment : ∀ {m : Match} {area group serial : List Char},
      governmentId m area group serial = some d → d.category = .governmentId := by
    intro m area group serial h
    unfold governmentId at h
    split at h
    · cases h
      rfl
    · cases h
  have hpush : ∀ {p : Text.Pattern} {c : Category} {k : Confidence},
      d ∈ pushMatches text p c k → d.category = c := by
    intro p c k h
    rcases List.mem_map.1 h with ⟨m, _, rfl⟩
    rfl
  have hseparated : ∀ {sep : String} {found : List Detection},
      collect (separatedSsn text) (findIter (ssnSeparated sc.classes sep) text) = some found →
      d ∈ found → d.category = .governmentId := by
    intro sep found hfound hd
    rcases mem_of_collect hfound hd with ⟨m, _, h⟩
    simp only [separatedSsn, bind, Option.bind_eq_some_iff, Option.some.injEq] at h
    rcases h with ⟨_, _, _, _, _, _, h⟩
    exact hgovernment h
  simp only [List.mem_append] at hd
  rcases hd with (((hd | hd) | hd) | hd) | hd
  · rcases hd with ((hd | hd) | hd) | hd
    · have hcategory : d.category = .privateKey ∨ d.category = .apiKeyOrToken := by
        rcases hd with (((hd | hd) | hd) | hd) | hd
        · exact Or.inl (hpush hd)
        all_goals exact Or.inr (hpush hd)
      rcases hcategory with hcategory | hcategory
      · exact Or.inr (Or.inr (hother hcategory (by decide) (by decide)))
      · exact Or.inr (Or.inr (hother hcategory (by decide) (by decide)))
    · exact Or.inl hd
    · rcases List.mem_filterMap.1 hd with ⟨m, _, h⟩
      rcases Option.map_eq_some_iff.1 h with ⟨v, _, rfl⟩
      exact Or.inr (Or.inr (hother (c := .medical) rfl (by decide) (by decide)))
    · exact Or.inr (Or.inr (hother (hpush hd) (by decide) (by decide)))
  · exact Or.inr (Or.inr (hother (hseparated hdashed hd) (by decide) (by decide)))
  · exact Or.inr (Or.inr (hother (hseparated hspaced hd) (by decide) (by decide)))
  · rcases mem_of_collect hdashless hd with ⟨m, _, h⟩
    simp only [dashlessSsn, bind, Option.bind_eq_some_iff, Option.some.injEq] at h
    rcases h with ⟨_, _, _, _, _, _, _, _, h⟩
    exact Or.inr (Or.inr (hother (hgovernment h) (by decide) (by decide)))
  · exact Or.inr (Or.inl (mem_of_collect hcards hd))

/-- The ambiguous pass keeps all detections and adds ambiguous ones. -/
theorem detectAll_eq_some (h : detectAll sc text = some ds) :
    ∃ high, highConfidence sc text = some high ∧ (∀ d ∈ high, d ∈ ds) ∧
      ∀ d ∈ ds, d.category ≠ .ambiguousSecret → d ∈ high := by
  rcases Option.bind_eq_some_iff.1 h with ⟨high, hhigh, h⟩
  rcases Option.bind_eq_some_iff.1 h with ⟨all, hall, h⟩
  cases h
  refine ⟨high, hhigh, fun d hd => ?_, fun d hd hcategory => ?_⟩
  · exact mem_sortByStart.2 (mem_of_foldlM_pushAmbiguous hall hd)
  · exact (category_of_foldlM_pushAmbiguous hall (mem_sortByStart.1 hd)).resolve_right hcategory

end Sources

/-! ## When detection returns -/

theorem capture_isSome {text : List Char} {pattern : Text.Pattern} {m : Match}
    (hm : m ∈ findIter pattern text) {i : Nat} (hbinds : pattern.binds i = true) :
    (capture text m i).isSome := by
  rcases get_of_binds hbinds hm with ⟨s, hs⟩
  have hcuts := cuts_of_get hm hs
  simpa [capture, hs] using hcuts.slice_isSome

theorem separatedSsn_isSome (u : UnicodeClasses) (sep : String) {text : List Char} {m : Match}
    (hm : m ∈ findIter (ssnSeparated u sep) text) : (separatedSsn text m).isSome := by
  obtain ⟨area, harea⟩ := Option.isSome_iff_exists.1 (capture_isSome hm (i := 1) rfl)
  obtain ⟨group, hgroup⟩ := Option.isSome_iff_exists.1
    (capture_isSome hm (i := 2) (by simp [ssnSeparated, Pattern.cat, Pattern.binds]))
  obtain ⟨serial, hserial⟩ := Option.isSome_iff_exists.1
    (capture_isSome hm (i := 3) (by simp [ssnSeparated, Pattern.cat, Pattern.binds]))
  simp [separatedSsn, harea, hgroup, hserial]

theorem cardNumber_isSome (text : List Char) (pattern : Text.Pattern) {m : Match}
    (hm : m ∈ findIter pattern text) : (cardNumber text m).isSome := by
  obtain ⟨candidate, hcandidate⟩ :=
    Option.isSome_iff_exists.1 (cuts_of_mem_findIter hm).slice_isSome
  obtain ⟨window, hwindow⟩ :=
    Option.isSome_iff_exists.1 (findLuhnValidWindow_isSome candidate m.span.start)
  simp [cardNumber, hcandidate, hwindow]

theorem pushAmbiguous_isSome (sc : Scanner) {text : List Char} (ds : List Detection) {m : Match}
    (hm : Cuts text m.span.start m.span.stop) : (pushAmbiguous sc text ds m).isSome := by
  rcases Option.isSome_iff_exists.1 hm.slice_isSome with ⟨token, htoken⟩
  unfold pushAmbiguous
  split
  · rfl
  · simp only [htoken, bind, Option.bind_some]
    split
    · rfl
    · split <;> rfl

theorem foldlM_pushAmbiguous_isSome {sc : Scanner} {text : List Char} {ms : List Match}
    {ds : List Detection} (hms : ∀ m ∈ ms, Cuts text m.span.start m.span.stop) :
    (ms.foldlM (pushAmbiguous sc text) ds).isSome := by
  induction ms generalizing ds with
  | nil => rfl
  | cons m ms ih =>
      obtain ⟨ds', hds'⟩ := Option.isSome_iff_exists.1
        (pushAmbiguous_isSome sc ds (hms m List.mem_cons_self))
      simpa [List.foldlM_cons, hds'] using
        ih fun m hm => hms m (List.mem_cons_of_mem _ hm)

/-- Only the fixed slices of the dashless social security number can panic. -/
theorem detectAll_isSome_iff {sc : Scanner} {text : List Char} :
    (detectAll sc text).isSome ↔
      ∀ m ∈ findIter (ssnDashless sc.classes) text, (dashlessSsn text m).isSome := by
  rw [← collect_isSome_iff]
  -- every other loop returns on every text
  have hseparated : ∀ sep, ∃ ds,
      collect (separatedSsn text) (findIter (ssnSeparated sc.classes sep) text) = some ds :=
    fun sep => Option.isSome_iff_exists.1
      (collect_isSome_iff.2 fun m hm => separatedSsn_isSome sc.classes sep hm)
  rcases hseparated "-" with ⟨dashed, hdashed⟩
  rcases hseparated " " with ⟨spaced, hspaced⟩
  obtain ⟨cards, hcards⟩ := Option.isSome_iff_exists.1
    (collect_isSome_iff.2 fun m hm =>
      cardNumber_isSome text (creditCardCandidate sc.classes) hm)
  have hambiguous : ∀ ds, ((findIter (highEntropyCandidate sc.classes) text).foldlM
      (pushAmbiguous sc text) ds).isSome := fun ds =>
    foldlM_pushAmbiguous_isSome fun m hm => cuts_of_mem_findIter hm
  cases hdashless : collect (dashlessSsn text) (findIter (ssnDashless sc.classes) text) with
  | none => simp [detectAll, highConfidence, hdashless]
  | some dashless =>
      simp only [detectAll, highConfidence, ssnDashed, ssnSpaced, hdashed, hspaced, hdashless,
        hcards, bind, Option.bind_some, Option.isSome_some, iff_true]
      rcases Option.isSome_iff_exists.1 (hambiguous _) with ⟨all, hall⟩
      rw [hall]
      rfl

end Redaction
end HiddenSteps
