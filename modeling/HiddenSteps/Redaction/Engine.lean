import HiddenSteps.Redaction.DetectorLaws

/-!
# Engine — scanning a text and cutting the detections out of it
-/

namespace HiddenSteps
namespace Redaction

open Text

inductive RedactionOutcome where
  | clean (text : List Char)
  | redacted (text : List Char)
  | drop
  deriving DecidableEq, Repr

/-- `[REDACTED:<category>]` -/
def redactionMarker (category : Category) : List Char :=
  "[REDACTED:".toList ++ category.label.toList ++ [']']

/-- The loop of `apply_redactions`: the text built so far, the cursor and the detections to come. -/
def applyRedactionsFrom (text : List Char) :
    List Char → Nat → List Detection → Option (List Char)
  | result, cursor, [] => (sliceFrom text cursor).map (result ++ ·)
  | result, cursor, d :: ds =>
      -- a detection that begins inside the last one is skipped as a whole
      if d.start < cursor then applyRedactionsFrom text result cursor ds
      else
        (slice text cursor d.start).bind fun before =>
          applyRedactionsFrom text (result ++ before ++ redactionMarker d.category) d.stop ds

def applyRedactions (text : List Char) (detections : List Detection) : Option (List Char) :=
  applyRedactionsFrom text [] 0 detections

namespace RedactionEngine

def scan (sc : Scanner) (text : List Char) : Option RedactionOutcome := do
  let detections ← detectAll sc text
  if detections.isEmpty then some (.clean text)
  -- one uncertain detection refuses the whole text
  else if detections.any fun d => d.confidence == .ambiguous then some .drop
  else (applyRedactions text detections).map .redacted

end RedactionEngine

/-! ## The slices between detections -/

theorem applyRedactionsFrom_isSome {text : List Char} {ds : List Detection}
    (hds : ∀ d ∈ ds, d.Within text) (result : List Char) {cursor : Nat}
    (hcursor : (splitAtByte text cursor).isSome) :
    (applyRedactionsFrom text result cursor ds).isSome := by
  induction ds generalizing result cursor with
  | nil => simpa [applyRedactionsFrom, sliceFrom] using hcursor
  | cons d ds ih =>
      have htail : ∀ d ∈ ds, d.Within text := fun d hd => hds d (List.mem_cons_of_mem _ hd)
      have hd := hds d List.mem_cons_self
      unfold applyRedactionsFrom
      split
      · exact ih htail result hcursor
      · rename_i hle
        obtain ⟨before, hbefore⟩ := Option.isSome_iff_exists.1
          (cuts_of_boundaries (Nat.le_of_not_lt hle) hcursor hd.start_isSome).slice_isSome
        simpa [hbefore] using ih htail _ hd.stop_isSome

/-- Cutting out what `detectAll` returned never panics. -/
theorem applyRedactions_isSome {sc : Scanner} {text : List Char} {ds : List Detection}
    (h : detectAll sc text = some ds) : (applyRedactions text ds).isSome :=
  applyRedactionsFrom_isSome (within_of_detectAll h) [] (by simp)

namespace RedactionEngine

/-- Scanning returns exactly when detection does. -/
theorem scan_isSome_iff {sc : Scanner} {text : List Char} :
    (scan sc text).isSome ↔ (detectAll sc text).isSome := by
  cases h : detectAll sc text with
  | none => simp [scan, h]
  | some ds =>
      rcases Option.isSome_iff_exists.1 (applyRedactions_isSome h) with ⟨out, hout⟩
      simp only [scan, h, hout, bind, Option.bind_some, Option.isSome_some, iff_true]
      split
      · rfl
      · split <;> rfl

/-- A redacted text comes from high-confidence detections only. -/
theorem scan_eq_redacted {sc : Scanner} {text out : List Char}
    (h : scan sc text = some (.redacted out)) :
    ∃ ds, detectAll sc text = some ds ∧ (∀ d ∈ ds, d.confidence = .high) ∧
      applyRedactions text ds = some out := by
  rcases Option.bind_eq_some_iff.1 h with ⟨ds, hds, h⟩
  split at h
  · simp at h
  · split at h
    · simp at h
    · rename_i hany
      rcases Option.map_eq_some_iff.1 h with ⟨out', hout, heq⟩
      cases heq
      refine ⟨ds, hds, ?_, hout⟩
      intro d hd
      cases hc : d.confidence with
      | high => rfl
      | ambiguous =>
          exact absurd (List.any_eq_true.2 ⟨d, hd, by simp [hc]⟩) hany

/-- A text is dropped for an ambiguous detection, and for nothing else. -/
theorem scan_eq_drop_iff {sc : Scanner} {text : List Char} :
    scan sc text = some .drop ↔
      ∃ ds, detectAll sc text = some ds ∧ ∃ d ∈ ds, d.confidence = .ambiguous := by
  constructor
  · intro h
    rcases Option.bind_eq_some_iff.1 h with ⟨ds, hds, h⟩
    split at h
    · simp at h
    · split at h
      · rename_i hany
        rcases List.any_eq_true.1 hany with ⟨d, hd, hambiguous⟩
        exact ⟨ds, hds, d, hd, beq_iff_eq.1 hambiguous⟩
      · simp at h
  · rintro ⟨ds, hds, d, hd, hambiguous⟩
    have hne : ds ≠ [] := List.ne_nil_of_mem hd
    have hany : ∃ d ∈ ds, d.confidence = .ambiguous := ⟨d, hd, hambiguous⟩
    simp [scan, hds, hne, hany]

/-- Conversely, high-confidence detections are cut out. -/
theorem scan_of_high {sc : Scanner} {text : List Char} {ds : List Detection}
    (hds : detectAll sc text = some ds) (hne : ds ≠ []) (hhigh : ∀ d ∈ ds, d.confidence = .high) :
    scan sc text = (applyRedactions text ds).map .redacted := by
  have hnone : ∀ d ∈ ds, d.confidence ≠ .ambiguous := by
    intro d hd
    simp [hhigh d hd]
  simpa [scan, hds, hne] using hnone

end RedactionEngine

end Redaction
end HiddenSteps
