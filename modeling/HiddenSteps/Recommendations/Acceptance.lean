import HiddenSteps.Domain.Serialize
import HiddenSteps.Recommendations.Extraction
import HiddenSteps.Recommendations.Synthesizer
import Mathlib.Data.List.TakeWhile

/-!
# Acceptance — which answers a synthesizer takes

An answer is acceptable if the object in it holds the fields asked for, the names in them are those
of a category and of two levels, the confidence is in range and no text contradicts the detected
count.  Exactly these answers are taken, and the recommendation is made of their fields.
-/

namespace HiddenSteps
namespace Recommendations

open Text Patterns

/-! ## The object in an answer -/

/-- What is open at a place of a text: braces, a string, and in it a backslash. -/
structure Place where
  depth : Int32
  inString : Bool
  escaped : Bool

namespace Place

def start : Place := { depth := 0, inString := false, escaped := false }

/-- The place behind a character. -/
def next (place : Place) (c : Char) : Place :=
  if place.inString then
    if place.escaped then { place with escaped := false }
    else if c = '\\' then { place with escaped := true }
    else if c = '\x22' then { place with inString := false }
    else place
  else if c = '\x22' then { place with inString := true }
  else if c = '\x7b' then { place with depth := place.depth + 1 }
  else if c = '\x7d' then { place with depth := place.depth - 1 }
  else place

/-- A closing brace here ends the object. -/
def Ending (place : Place) : Prop :=
  place.inString = false ∧ place.depth = 1

instance (place : Place) : Decidable place.Ending :=
  inferInstanceAs (Decidable (_ ∧ _))

end Place

/-- `object` runs from the first opening brace of `text` to the first closing brace that leaves
neither a brace nor a string open. -/
def IsFirstObject (text object : List Char) : Prop :=
  ∃ before inner after, text = before ++ '\x7b' :: inner ++ '\x7d' :: after ∧
    object = '\x7b' :: inner ++ ['\x7d'] ∧ '\x7b' ∉ before ∧
    (inner.foldl Place.next (Place.start.next '\x7b')).Ending ∧
    ∀ earlier later, inner = earlier ++ '\x7d' :: later →
      ¬ (earlier.foldl Place.next (Place.start.next '\x7b')).Ending

theorem closeObject_cons (place : Place) (c : Char) (rest : List Char) :
    closeObject place.depth place.inString place.escaped (c :: rest) =
      if c = '\x7d' ∧ place.Ending then some [c]
      else (closeObject (place.next c).depth (place.next c).inString (place.next c).escaped
        rest).map (c :: ·) := by
  obtain ⟨depth, inString, escaped⟩ := place
  have hlast : depth - 1 = 0 ↔ depth = 1 := Int32.sub_eq_iff_eq_add
  cases inString with
  | true => cases escaped <;> simp only [closeObject, Place.next, Place.Ending] <;> grind
  | false => simp only [closeObject, Place.next, Place.Ending, hlast]; grind

/-- The scan ends at the first closing brace where it may end. -/
theorem closeObject_eq_some_iff {place : Place} {text object : List Char} :
    closeObject place.depth place.inString place.escaped text = some object ↔
      ∃ inner after, text = inner ++ '\x7d' :: after ∧ object = inner ++ ['\x7d'] ∧
        (inner.foldl Place.next place).Ending ∧
        ∀ earlier later, inner = earlier ++ '\x7d' :: later →
          ¬ (earlier.foldl Place.next place).Ending := by
  induction text generalizing place object with
  | nil => simp [closeObject]
  | cons c rest ih =>
      rw [closeObject_cons]
      split
      · rename_i hend
        rcases hend with ⟨rfl, hend⟩
        constructor
        · intro h
          cases h
          exact ⟨[], rest, rfl, rfl, hend, by simp⟩
        · rintro ⟨inner, after, htext, rfl, -, hfirst⟩
          cases inner with
          | nil => rfl
          | cons d inner =>
              -- the scan has ended before
              cases htext
              exact absurd hend (hfirst [] inner rfl)
      · rename_i hend
        simp only [Option.map_eq_some_iff, ih]
        constructor
        · rintro ⟨object, ⟨inner, after, rfl, rfl, hlast, hfirst⟩, rfl⟩
          refine ⟨c :: inner, after, rfl, rfl, hlast, ?_⟩
          intro earlier later heq
          cases earlier with
          | nil =>
              intro hhere
              exact hend ⟨(List.cons.inj heq).1, hhere⟩
          | cons d earlier =>
              cases heq
              exact hfirst earlier later rfl
        · rintro ⟨inner, after, htext, rfl, hlast, hfirst⟩
          cases inner with
          | nil =>
              cases htext
              exact absurd ⟨rfl, hlast⟩ hend
          | cons d inner =>
              cases htext
              refine ⟨_, ⟨inner, after, rfl, rfl, hlast, ?_⟩, rfl⟩
              rintro earlier later rfl
              exact hfirst (c :: earlier) later rfl

theorem extractJsonObject_eq_some_iff {text object : List Char} :
    extractJsonObject text = some object ↔ IsFirstObject text object := by
  have hopen : ∀ rest, closeObject 0 false false ('\x7b' :: rest) =
      (closeObject (Place.start.next '\x7b').depth (Place.start.next '\x7b').inString
        (Place.start.next '\x7b').escaped rest).map ('\x7b' :: ·) := by
    intro rest
    rw [closeObject_open]
    rfl
  constructor
  · intro h
    by_cases hbrace : '\x7b' ∈ text
    · obtain ⟨before, rest, rfl, hbefore⟩ := List.eq_append_cons_of_mem hbrace
      rw [extractJsonObject_behind hbefore, hopen, Option.map_eq_some_iff] at h
      obtain ⟨object, h, rfl⟩ := h
      obtain ⟨inner, after, rfl, rfl, hlast, hfirst⟩ := closeObject_eq_some_iff.1 h
      exact ⟨before, inner, after, by simp, rfl, hbefore, hlast, hfirst⟩
    · have hskip : text.dropWhile (· != '\x7b') = [] :=
        List.dropWhile_eq_nil_iff.2 fun c hc => bne_iff_ne.2 fun heq => hbrace (heq ▸ hc)
      rw [extractJsonObject, hskip] at h
      cases h
  · rintro ⟨before, inner, after, rfl, rfl, hbefore, hlast, hfirst⟩
    rw [List.append_assoc, List.cons_append, extractJsonObject_behind hbefore, hopen,
      closeObject_eq_some_iff.2 ⟨inner, after, rfl, rfl, hlast, hfirst⟩]
    rfl

/-! ## The fields of an acceptable answer -/

/-- No text of the fields contradicts the count. -/
structure Consistent (u : UnicodeClasses) (count : Nat) (fields : SynthesizedFields) : Prop where
  why : contradictsOccurrenceCount u fields.why count = false
  title : contradictsOccurrenceCount u fields.title count = false
  privacyImplications : contradictsOccurrenceCount u fields.privacyImplications count = false
  implementationEffort : contradictsOccurrenceCount u fields.implementationEffort count = false
  assumptions : ∀ text ∈ fields.assumptions, contradictsOccurrenceCount u text count = false
  ignoredInformation :
    ∀ text ∈ fields.ignoredInformation, contradictsOccurrenceCount u text count = false
  alternatives : ∀ a ∈ fields.alternatives,
    contradictsOccurrenceCount u a.approach count = false ∧
      contradictsOccurrenceCount u a.tradeoff count = false

/-- An answer is acceptable, with these fields in its object. -/
structure Acceptable (ext : Externals) (detected : DetectedPattern) (text : String)
    (fields : SynthesizedFields) : Prop where
  read : ∃ object, IsFirstObject text.toList object ∧ ext.parseFields object = .ok fields
  consistent : Consistent ext.classes detected.occurrenceCount fields
  category : ∃ category : RecommendationCategory, fields.category = category.variant
  difficulty : ∃ level : Level, fields.difficulty = level.variant
  maintenanceBurden : ∃ level : Level, fields.maintenanceBurden = level.variant
  confidence_nonneg : 0 ≤ fields.confidence
  confidence_le_one : fields.confidence ≤ 1

/-- A recommendation says what the fields say; its saving is that of the pattern. -/
structure MadeOf (providerId : String) (patternId : Nat) (detected : DetectedPattern)
    (now : Timestamp) (fields : SynthesizedFields) (rec : Recommendation) : Prop where
  id : rec.id = none
  patternId : rec.patternId = patternId
  createdAt : rec.createdAt = now
  title : rec.title = fields.title
  category : rec.category.variant = fields.category
  why : rec.why = fields.why
  confidence : rec.confidence = fields.confidence
  timeSaved : rec.estimatedTimeSavedMinutes =
    detected.estimatedMinutesPerOccurrence * detected.occurrenceCount
  difficulty : rec.difficulty.variant = fields.difficulty
  maintenanceBurden : rec.maintenanceBurden.variant = fields.maintenanceBurden
  privacyImplications : rec.privacyImplications = fields.privacyImplications
  implementationEffort : rec.implementationEffort = fields.implementationEffort
  alternatives : rec.alternatives = fields.alternatives.map fun a => ⟨a.approach, a.tradeoff⟩
  assumptions : rec.assumptions = fields.assumptions
  ignoredInformation : rec.ignoredInformation = fields.ignoredInformation
  generatingProvider : rec.generatingProvider = providerId
  status : rec.status = .suggested
  dismissalReason : rec.dismissalReason = none

theorem parseAnswer_eq_ok_iff {ext : Externals} {text : String} {fields : SynthesizedFields} :
    parseAnswer ext text = .ok fields ↔
      ∃ object, IsFirstObject text.toList object ∧ ext.parseFields object = .ok fields := by
  simp only [← extractJsonObject_eq_some_iff, parseAnswer]
  split
  · rename_i hnone
    simp [hnone]
  · rename_i object hobject
    split
    · rename_i e he
      simp [hobject, he]
    · rename_i fields' hfields
      simp [hobject, hfields]

theorem checkNarrative_eq_ok_iff {ext : Externals} {detected : DetectedPattern}
    {fields : SynthesizedFields} :
    checkNarrative ext detected fields = .ok () ↔
      Consistent ext.classes detected.occurrenceCount fields := by
  have hchecked : checkNarrative ext detected fields = .ok () ↔
      ∀ text ∈ contradictionCheckFields fields,
        contradictsOccurrenceCount ext.classes text detected.occurrenceCount = false := by
    simp [checkNarrative]
  rw [hchecked]
  simp only [contradictionCheckFields, List.forall_mem_append, List.forall_mem_cons,
    List.forall_mem_flatMap]
  constructor
  · rintro ⟨⟨⟨⟨hwhy, htitle, hprivacy, heffort, -⟩, hassumptions⟩, hignored⟩, halternatives⟩
    exact ⟨hwhy, htitle, hprivacy, heffort, hassumptions, hignored, fun a ha =>
      ⟨(halternatives a ha).1, (halternatives a ha).2.1⟩⟩
  · intro h
    exact ⟨⟨⟨⟨h.why, h.title, h.privacyImplications, h.implementationEffort, by simp⟩,
      h.assumptions⟩, h.ignoredInformation⟩, fun a ha =>
      ⟨(h.alternatives a ha).1, (h.alternatives a ha).2, by simp⟩⟩

theorem parseCategory_eq_ok_iff {value : String} {category : RecommendationCategory} :
    parseCategory value = .ok category ↔ value = category.variant := by
  constructor
  · intro h
    simp only [parseCategory] at h
    split_ifs at h <;> cases h <;> assumption
  · rintro rfl
    cases category <;> rfl

theorem parseLevel_eq_ok_iff {value : String} {level : Level} :
    parseLevel value = .ok level ↔ value = level.variant := by
  constructor
  · intro h
    simp only [parseLevel] at h
    split_ifs at h <;> cases h <;> assumption
  · rintro rfl
    cases level <;> rfl

theorem checkConfidence_eq_ok_iff {ext : Externals} {confidence : ℚ} :
    checkConfidence ext confidence = .ok () ↔ 0 ≤ confidence ∧ confidence ≤ 1 := by
  simp [checkConfidence]

/-- An answer is taken exactly if it is acceptable, and the recommendation is made of its fields. -/
theorem tryBuild_eq_ok_iff {ext : Externals} {providerId : String} {patternId : Nat}
    {detected : DetectedPattern} {now : Timestamp} {text : String} {rec : Recommendation} :
    tryBuild ext providerId patternId detected now text = .ok rec ↔
      ∃ fields, Acceptable ext detected text fields ∧
        MadeOf providerId patternId detected now fields rec := by
  simp only [tryBuild, bind_eq_ok, parseAnswer_eq_ok_iff, parseCategory_eq_ok_iff,
    parseLevel_eq_ok_iff]
  constructor
  · rintro ⟨fields, hread, ⟨⟩, hnarrative, category, hcategory, difficulty, hdifficulty, burden,
      hburden, ⟨⟩, hconfidence, h⟩
    rcases checkConfidence_eq_ok_iff.1 hconfidence with ⟨hnonneg, hle⟩
    cases h
    exact ⟨fields,
      ⟨hread, checkNarrative_eq_ok_iff.1 hnarrative, ⟨_, hcategory⟩, ⟨_, hdifficulty⟩,
        ⟨_, hburden⟩, hnonneg, hle⟩,
      ⟨rfl, rfl, rfl, rfl, hcategory.symm, rfl, rfl, rfl, hdifficulty.symm, hburden.symm, rfl, rfl,
        rfl, rfl, rfl, rfl, rfl, rfl⟩⟩
  · rintro ⟨fields, hacceptable, hmade⟩
    refine ⟨fields, hacceptable.read, (), checkNarrative_eq_ok_iff.2 hacceptable.consistent,
      rec.category, hmade.category.symm, rec.difficulty, hmade.difficulty.symm,
      rec.maintenanceBurden, hmade.maintenanceBurden.symm, (), checkConfidence_eq_ok_iff.2
        ⟨hacceptable.confidence_nonneg, hacceptable.confidence_le_one⟩, ?_⟩
    cases rec
    cases hmade
    simp_all

theorem Acceptable.exists_madeOf {ext : Externals} {detected : DetectedPattern} {text : String}
    {fields : SynthesizedFields} (h : Acceptable ext detected text fields) (providerId : String)
    (patternId : Nat) (now : Timestamp) :
    ∃ rec, MadeOf providerId patternId detected now fields rec := by
  rcases h.category with ⟨category, hcategory⟩
  rcases h.difficulty with ⟨difficulty, hdifficulty⟩
  rcases h.maintenanceBurden with ⟨burden, hburden⟩
  exact
    ⟨{ id := none, patternId := patternId, createdAt := now, title := fields.title
       category := category, why := fields.why, confidence := fields.confidence
       estimatedTimeSavedMinutes :=
         detected.estimatedMinutesPerOccurrence * detected.occurrenceCount
       difficulty := difficulty, maintenanceBurden := burden
       privacyImplications := fields.privacyImplications
       implementationEffort := fields.implementationEffort
       alternatives := fields.alternatives.map fun a => ⟨a.approach, a.tradeoff⟩
       assumptions := fields.assumptions, ignoredInformation := fields.ignoredInformation
       generatingProvider := providerId, status := .suggested, dismissalReason := none },
      rfl, rfl, rfl, rfl, hcategory.symm, rfl, rfl, rfl, hdifficulty.symm, hburden.symm, rfl, rfl,
      rfl, rfl, rfl, rfl, rfl, rfl⟩

/-- What is not taken is not acceptable. -/
theorem tryBuild_eq_error_iff {ext : Externals} {providerId : String} {patternId : Nat}
    {detected : DetectedPattern} {now : Timestamp} {text : String} :
    (∃ reason, tryBuild ext providerId patternId detected now text = .error reason) ↔
      ∀ fields, ¬ Acceptable ext detected text fields := by
  constructor
  · rintro ⟨reason, hreason⟩ fields hacceptable
    rcases hacceptable.exists_madeOf providerId patternId now with ⟨rec, hmade⟩
    rw [tryBuild_eq_ok_iff.2 ⟨fields, hacceptable, hmade⟩] at hreason
    cases hreason
  · intro h
    cases hbuild : tryBuild ext providerId patternId detected now text with
    | error reason => exact ⟨reason, rfl⟩
    | ok rec =>
        rcases tryBuild_eq_ok_iff.1 hbuild with ⟨fields, hacceptable, -⟩
        exact absurd hacceptable (h fields)

end Recommendations
end HiddenSteps
