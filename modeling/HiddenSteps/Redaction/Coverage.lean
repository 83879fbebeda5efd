import HiddenSteps.Redaction.Engine

/-!
# Coverage — what a redacted text still holds

The redacted text is rebuilt as a list of pieces, stretches of the input and inserted markers, so
that "the output without its markers" has a meaning even when the input itself spells a marker.
The engine skips a detection that starts before the end of the last one it cut out; the main
result says exactly when nothing of a skipped detection is left behind.
-/

namespace HiddenSteps
namespace Redaction

open Text

/-- A stretch of a redacted text. -/
inductive Piece where
  | kept (text : List Char)
  | marker (category : Category)
  deriving DecidableEq, Repr

namespace Piece

def render : Piece → List Char
  | kept text => text
  | marker category => redactionMarker category

/-- What the piece holds of the input. -/
def original : Piece → List Char
  | kept text => text
  | marker _ => []

end Piece

/-- The pieces that the redaction loop appends from a cursor on. -/
def piecesFrom (text : List Char) : Nat → List Detection → Option (List Piece)
  | cursor, [] => (sliceFrom text cursor).map fun rest => [.kept rest]
  | cursor, d :: ds =>
      if d.start < cursor then piecesFrom text cursor ds
      else
        (slice text cursor d.start).bind fun before =>
          (piecesFrom text d.stop ds).map fun ps => .kept before :: .marker d.category :: ps

theorem applyRedactionsFrom_eq (text : List Char) (ds : List Detection) (result : List Char)
    (cursor : Nat) :
    applyRedactionsFrom text result cursor ds =
      (piecesFrom text cursor ds).map fun ps => result ++ ps.flatMap Piece.render := by
  induction ds generalizing result cursor with
  | nil =>
      cases h : sliceFrom text cursor <;> simp [applyRedactionsFrom, piecesFrom, h, Piece.render]
  | cons d ds ih =>
      unfold applyRedactionsFrom piecesFrom
      split
      · exact ih result cursor
      · cases slice text cursor d.start with
        | none => rfl
        | some before =>
            simp only [Option.bind_some, ih, Option.map_map]
            congr 1
            funext ps
            simp [Piece.render]

/-- A text is redacted when all that is detected is certain, and into the pieces in between. -/
theorem redacted_iff_pieces {sc : Scanner} {text out : List Char} :
    RedactionEngine.scan sc text = some (.redacted out) ↔
      ∃ ds ps, detectAll sc text = some ds ∧ ds ≠ [] ∧ (∀ d ∈ ds, d.confidence = .high) ∧
        piecesFrom text 0 ds = some ps ∧ out = ps.flatMap Piece.render := by
  have hpieces : ∀ ds, applyRedactions text ds =
      (piecesFrom text 0 ds).map fun ps => ps.flatMap Piece.render := by
    intro ds
    simpa [applyRedactions] using applyRedactionsFrom_eq text ds [] 0
  constructor
  · intro hscan
    rcases RedactionEngine.scan_eq_redacted hscan with ⟨ds, hds, hhigh, hout⟩
    rw [hpieces] at hout
    rcases Option.map_eq_some_iff.1 hout with ⟨ps, hps, rfl⟩
    have hne : ds ≠ [] := by
      rintro rfl
      simp [RedactionEngine.scan, hds] at hscan
    exact ⟨ds, ps, hds, hne, hhigh, hps, rfl⟩
  · rintro ⟨ds, ps, hds, hne, hhigh, hps, rfl⟩
    rw [RedactionEngine.scan_of_high hds hne hhigh, hpieces, hps]
    rfl

/-- Without the markers, the pieces hold the bytes between the kept detections. -/
theorem original_of_piecesFrom {text : List Char} {ds : List Detection} {cursor : Nat}
    {ps : List Piece} (h : piecesFrom text cursor ds = some ps) :
    utf8Bytes (ps.flatMap Piece.original) =
      gaps (utf8Bytes text) cursor (ds.map Detection.span) := by
  induction ds generalizing cursor ps with
  | nil =>
      rcases Option.map_eq_some_iff.1 h with ⟨rest, hrest, rfl⟩
      simpa [Piece.original, gaps] using utf8Bytes_sliceFrom hrest
  | cons d ds ih =>
      simp only [List.map_cons, gaps, Detection.span]
      unfold piecesFrom at h
      split at h
      · -- a skipped detection makes no piece
        rename_i hlt
        rw [if_pos hlt]
        exact ih h
      · rename_i hle
        rcases Option.bind_eq_some_iff.1 h with ⟨before, hbefore, h⟩
        rcases Option.map_eq_some_iff.1 h with ⟨ps', hps', rfl⟩
        rw [if_neg hle]
        simp only [List.flatMap_cons, Piece.original, List.nil_append, utf8Bytes_append,
          utf8Bytes_slice hbefore, ih hps']

/-- Taking the inserted markers out of the redacted text leaves, in order, exactly the bytes that
lie in no detection. -/
def RedactionCoversDetections (sc : Scanner) (text : List Char) : Prop :=
  ∀ out, RedactionEngine.scan sc text = some (.redacted out) →
    ∃ ds ps, detectAll sc text = some ds ∧ piecesFrom text 0 ds = some ps ∧
      out = ps.flatMap Piece.render ∧
      utf8Bytes (ps.flatMap Piece.original) =
        uncovered (utf8Bytes text) (ds.map Detection.span)

/-- No detection that is skipped reaches past the end of the last one cut out, up to bytes that
later ones cut out anyway. -/
def SkippedTailsClosed (sc : Scanner) (text : List Char) : Prop :=
  ∀ ds, detectAll sc text = some ds → (∀ d ∈ ds, d.confidence = .high) →
    TailsClosed 0 0 (ds.map Detection.span)

theorem covers_of_skippedTailsClosed {sc : Scanner} {text : List Char}
    (htails : SkippedTailsClosed sc text) : RedactionCoversDetections sc text := by
  intro out hscan
  rcases redacted_iff_pieces.1 hscan with ⟨ds, ps, hds, -, hhigh, hps, rfl⟩
  refine ⟨ds, ps, hds, hps, rfl, ?_⟩
  rw [original_of_piecesFrom hps]
  exact (gaps_eq_uncovered_iff _ _ (detectAll_bounded hds) (detectAll_sorted hds)).2
    (htails ds hds hhigh)

/-- The redacted text covers the detections exactly when no detection that is skipped reaches past
the end of the last one cut out, up to bytes that later ones cut out anyway. -/
theorem redactionCoversDetections_iff (sc : Scanner) (text : List Char) :
    RedactionCoversDetections sc text ↔
      ∀ ds, detectAll sc text = some ds → (∀ d ∈ ds, d.confidence = .high) →
        TailsClosed 0 0 (ds.map Detection.span) := by
  constructor
  · intro hcovers ds hds hhigh
    by_cases hne : ds = []
    · subst hne
      exact Nat.le_refl 0
    -- high-confidence detections are cut out, so the result has to cover them
    rcases Option.isSome_iff_exists.1 (applyRedactions_isSome hds) with ⟨out, hout⟩
    have hscan : RedactionEngine.scan sc text = some (.redacted out) := by
      rw [RedactionEngine.scan_of_high hds hne hhigh, hout]
      rfl
    rcases hcovers out hscan with ⟨ds', ps, hds', hps, _, hbytes⟩
    obtain rfl : ds' = ds := Option.some.inj (hds'.symm.trans hds)
    rw [original_of_piecesFrom hps] at hbytes
    exact (gaps_eq_uncovered_iff _ _ (detectAll_bounded hds) (detectAll_sorted hds)).1 hbytes
  · exact covers_of_skippedTailsClosed

/-- A card number in the place of a password: both detections start at the first digit, the
password ends at the first space, and the rest of the card number stays. -/
theorem card_after_password_leaks :
    ¬ RedactionCoversDetections .reference "password: 4532 0151 1283 0366".toList := by
  intro hcovers
  have hds : detectAll .reference "password: 4532 0151 1283 0366".toList =
      some [⟨10, 14, .password, .high⟩, ⟨10, 29, .creditCard, .high⟩] := by decide +kernel
  have hscan : RedactionEngine.scan .reference "password: 4532 0151 1283 0366".toList =
      some (.redacted "password: [REDACTED:password] 0151 1283 0366".toList) := by decide +kernel
  rcases hcovers _ hscan with ⟨ds, ps, hds', hps, _, hbytes⟩
  obtain rfl := Option.some.inj (hds'.symm.trans hds)
  rw [original_of_piecesFrom hps] at hbytes
  exact absurd hbytes (by decide +kernel)

/-! ## A stretch of the text -/

/-- The stretch `v` between `b` and `a` is detected, and no output of a scan holds it: what a
redacted text holds of the input comes from the two sides. -/
structure StretchRemoved (sc : Scanner) (b v a : List Char) : Prop where
  covered : ∃ ds, detectAll sc (b ++ v ++ a) = some ds ∧
    ∀ i, byteLen b ≤ i → i < byteLen (b ++ v) → Covered (ds.map Detection.span) i
  not_clean : ∀ out, RedactionEngine.scan sc (b ++ v ++ a) ≠ some (.clean out)
  cut_out : ∀ out, RedactionEngine.scan sc (b ++ v ++ a) = some (.redacted out) →
    ∃ (ps : List Piece) (l r : List UInt8), out = ps.flatMap Piece.render ∧
      utf8Bytes (ps.flatMap Piece.original) = l ++ r ∧
      l.Sublist (utf8Bytes b) ∧ r.Sublist (utf8Bytes a)

theorem stretchRemoved_of_covered {sc : Scanner} {b v a : List Char} {ds : List Detection}
    (hv : v ≠ []) (hds : detectAll sc (b ++ v ++ a) = some ds)
    (hcovered : ∀ i, byteLen b ≤ i → i < byteLen (b ++ v) → Covered (ds.map Detection.span) i)
    (htails : SkippedTailsClosed sc (b ++ v ++ a)) : StretchRemoved sc b v a := by
  refine ⟨⟨ds, hds, hcovered⟩, ?_, ?_⟩
  · intro out hout
    have hpos : 0 < byteLen v :=
      Nat.lt_of_lt_of_le (List.length_pos_iff.2 hv) (length_le_byteLen v)
    rcases hcovered (byteLen b) (Nat.le_refl _) (by rw [byteLen_append]; omega) with ⟨s, hs, -⟩
    have hne : ds ≠ [] := by
      rintro rfl
      cases hs
    -- a text with a detection is redacted or dropped
    simp only [RedactionEngine.scan, hds, bind, Option.bind_some, List.isEmpty_iff, hne, if_false]
      at hout
    split at hout
    · cases hout
    · rcases Option.map_eq_some_iff.1 hout with ⟨_, _, h⟩
      cases h
  · intro out hout
    rcases covers_of_skippedTailsClosed htails out hout with ⟨ds', ps, hds', -, hrender, hbytes⟩
    obtain rfl : ds' = ds := Option.some.inj (hds'.symm.trans hds)
    rw [utf8Bytes_append, utf8Bytes_append] at hbytes
    have haround : ∃ l r, uncovered (utf8Bytes b ++ utf8Bytes v ++ utf8Bytes a)
        (ds'.map Detection.span) = l ++ r ∧ l.Sublist (utf8Bytes b) ∧ r.Sublist (utf8Bytes a) :=
      uncovered_around (by simpa using hcovered)
    rcases haround with ⟨l, r, hlr, hl, hr⟩
    exact ⟨ps, l, r, hrender, hbytes.trans hlr, hl, hr⟩

end Redaction
end HiddenSteps
