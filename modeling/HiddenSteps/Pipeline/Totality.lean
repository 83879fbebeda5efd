import HiddenSteps.Pipeline.Process

/-!
# Totality — the texts the pipeline survives

The dashless social security number is sliced at the byte offsets 3, 5 and 9 of a run of nine
Unicode decimal digits.  Nothing else in detection, redaction or summarising can panic, so the
pipeline returns on a text exactly when those offsets are character boundaries in every such run.
-/

namespace HiddenSteps
namespace Pipeline

open Text Redaction

/-! ## Runs of nine digits -/

/-- `run` is a run of nine decimal digits with no word character on either side. -/
structure NineDigits (u : UnicodeClasses) (pre run post : List Char) : Prop where
  length : run.length = 9
  decimal : ∀ c ∈ run, u.isDecimal c = true
  before : pre.getLast?.any u.isWord = false
  after : post.head?.any u.isWord = false

/-- The byte offsets 3, 5 and 9 are character boundaries. -/
def CutsAtSsnOffsets (run : List Char) : Prop :=
  ∀ n ∈ [3, 5, 9], ∃ a b, run = a ++ b ∧ byteLen a = n

/-- Every run of nine digits of the text has boundaries at the offsets 3, 5 and 9. -/
def NineDigitRunsCut (u : UnicodeClasses) (text : List Char) : Prop :=
  ∀ pre run post, text = pre ++ run ++ post → NineDigits u pre run post → CutsAtSsnOffsets run

/-- The match of the dashless pattern that covers `run`. -/
def ssnMatch (pre run : List Char) : Match :=
  let s : Span := ⟨byteLen pre, byteLen (pre ++ run)⟩
  { span := s, groups := [(1, s)] }

theorem NineDigits.ne_nil {u : UnicodeClasses} {pre run post : List Char}
    (h : NineDigits u pre run post) : run ≠ [] := by
  rintro rfl
  exact absurd h.length (by simp)

/-- The dashless pattern stops at most at one place: behind nine digits. -/
theorem run_ssnDashless (u : UnicodeClasses) (c : Cursor) :
    run (ssnDashless u) c =
      if c.atBoundary u.isWord then
        if 9 ≤ c.rest.length ∧ (c.rest.take 9).all u.isDecimal then
          if ((c.advance 9).close 1 c.offset).atBoundary u.isWord then
            [(c.advance 9).close 1 c.offset]
          else []
        else []
      else [] := by
  have hdigits := run_exactly_cls u.isDecimal 9 c
  simp only [ssnDashless, Pattern.cat, wordBound, digit, run]
  by_cases hstart : c.atBoundary u.isWord
  · rw [if_pos hstart, if_pos hstart, List.flatMap_cons, List.flatMap_nil, List.append_nil, hdigits]
    by_cases hnine : 9 ≤ c.rest.length ∧ (c.rest.take 9).all u.isDecimal
    · rw [if_pos hnine, if_pos hnine, List.map_cons, List.map_nil, List.flatMap_cons,
        List.flatMap_nil, List.append_nil]
    · rw [if_neg hnine, if_neg hnine, List.map_nil, List.flatMap_nil]
  · rw [if_neg hstart, if_neg hstart, List.flatMap_nil]

/-- Where the dashless pattern matches, it matches a run of nine digits. -/
theorem matchAt_ssnDashless {u : UnicodeClasses} {pre rest : List Char} {m : Match} :
    matchAt (ssnDashless u) pre.getLast? rest (byteLen pre) = some m ↔
      ∃ run post, rest = run ++ post ∧ NineDigits u pre run post ∧ m = ssnMatch pre run := by
  have hrun := run_ssnDashless u
  -- a boundary before a digit means that no word character precedes it
  have hword : ∀ c : Char, u.isDecimal c = true → u.isWord c = true := u.word_of_decimal
  constructor
  · intro h
    rcases Option.map_eq_some_iff.1 h with ⟨d, hd, rfl⟩
    rw [hrun] at hd
    split at hd
    case isFalse => simp at hd
    case isTrue hstart =>
      split at hd
      case isFalse => simp at hd
      case isTrue hdigits =>
        split at hd
        case isFalse => simp at hd
        case isTrue hstop =>
          cases hd
          simp only at hdigits
          rcases hdigits with ⟨hlen, hall⟩
          refine ⟨rest.take 9, rest.drop 9, (List.take_append_drop 9 rest).symm, ?_, ?_⟩
          · have htake : (rest.take 9).length = 9 := by simpa using hlen
            have hall : ∀ c ∈ rest.take 9, u.isDecimal c = true := List.all_eq_true.1 hall
            obtain ⟨c, cs, hrest⟩ : ∃ c cs, rest = c :: cs :=
              List.exists_cons_of_length_pos (by omega)
            have hfirst : u.isWord c = true := hword c (hall c (by simp [hrest]))
            obtain ⟨l, hl⟩ : ∃ l, (rest.take 9).getLast? = some l :=
              Option.isSome_iff_exists.1 (List.getLast?_isSome.2 (by
                rintro hnil
                simp [hnil] at htake))
            have hlast : u.isWord l = true := hword l (hall l (List.mem_of_getLast? hl))
            refine ⟨htake, hall, ?_, ?_⟩
            · simpa [Cursor.atBoundary, hrest, hfirst] using hstart
            · simpa [Cursor.atBoundary, Cursor.close, Cursor.advance, hl, hlast] using hstop
          · simp [Match.upToCursor, ssnMatch, Cursor.close, Cursor.advance]
  · rintro ⟨run, post, rfl, hnine, rfl⟩
    have htake : (run ++ post).take 9 = run := List.take_left' hnine.length
    have hdrop : (run ++ post).drop 9 = post := List.drop_left' hnine.length
    obtain ⟨c, cs, rfl⟩ : ∃ c cs, run = c :: cs := List.exists_cons_of_ne_nil hnine.ne_nil
    obtain ⟨l, hl⟩ : ∃ l, (c :: cs).getLast? = some l :=
      Option.isSome_iff_exists.1 (List.getLast?_isSome.2 (by simp))
    have hfirst : u.isWord c = true := hword c (hnine.decimal c List.mem_cons_self)
    have hlast : u.isWord l = true := hword l (hnine.decimal l (List.mem_of_getLast? hl))
    let start : Cursor :=
      { prev := pre.getLast?, rest := c :: cs ++ post, offset := byteLen pre, groups := [] }
    have hstart : start.atBoundary u.isWord = true := by
      simp [start, Cursor.atBoundary, hnine.before, hfirst]
    have hdigits : 9 ≤ (c :: cs ++ post).length ∧ ((c :: cs ++ post).take 9).all u.isDecimal := by
      refine ⟨by rw [List.length_append, hnine.length]; omega, ?_⟩
      rw [htake]
      exact List.all_eq_true.2 hnine.decimal
    have hstop : ((start.advance 9).close 1 start.offset).atBoundary u.isWord = true := by
      simp only [Cursor.atBoundary, Cursor.close, Cursor.advance, start, htake, hdrop, hl,
        Option.some_or, Option.any_some, hlast, hnine.after]
      rfl
    show (run (ssnDashless u) start).head?.map (Match.upToCursor start.offset) = _
    rw [hrun, if_pos hstart, if_pos hdigits, if_pos hstop]
    simp only [List.head?_cons, Option.map_some, Match.upToCursor, ssnMatch, Cursor.close,
      Cursor.advance, start, htake, byteLen_append]

/-- The slices of a matched run return exactly when its offsets 3, 5 and 9 are boundaries. -/
theorem dashlessSsn_isSome_iff {pre run post : List Char} :
    (dashlessSsn (pre ++ run ++ post) (ssnMatch pre run)).isSome ↔ CutsAtSsnOffsets run := by
  have hcapture : capture (pre ++ run ++ post) (ssnMatch pre run) 1 = some run := by
    simp only [capture, Match.get, ssnMatch, List.find?_cons_of_pos, Option.map_some,
      Option.bind_some, beq_self_eq_true, slice_append]
  have hslices : (dashlessSsn (pre ++ run ++ post) (ssnMatch pre run)).isSome ↔
      (slice run 0 3).isSome ∧ (slice run 3 5).isSome ∧ (slice run 5 9).isSome := by
    simp only [dashlessSsn, hcapture, bind, Option.bind_some]
    -- the three slices fail independently
    cases slice run 0 3 <;> cases slice run 3 5 <;> cases slice run 5 9 <;> simp
  rw [hslices]
  simp only [slice_isSome_iff]
  constructor
  · rintro ⟨h1, h2, h3⟩ n hn
    simp only [List.mem_cons, List.not_mem_nil, or_false] at hn
    rcases hn with rfl | rfl | rfl
    · exact splitAtByte_isSome_iff.1 h1.stop_isSome
    · exact splitAtByte_isSome_iff.1 h2.stop_isSome
    · exact splitAtByte_isSome_iff.1 h3.stop_isSome
  · intro h
    have h0 : (splitAtByte run 0).isSome := by simp
    have h3 := splitAtByte_isSome_iff.2 (h 3 (by simp))
    have h5 := splitAtByte_isSome_iff.2 (h 5 (by simp))
    have h9 := splitAtByte_isSome_iff.2 (h 9 (by simp))
    exact ⟨cuts_of_boundaries (by omega) h0 h3, cuts_of_boundaries (by omega) h3 h5,
      cuts_of_boundaries (by omega) h5 h9⟩

/-- Detection returns exactly on the texts whose runs of nine digits cut cleanly. -/
theorem detectAll_isSome_iff_nineDigitRunsCut {sc : Scanner} {text : List Char} :
    (detectAll sc text).isSome ↔ NineDigitRunsCut sc.classes text := by
  rw [detectAll_isSome_iff]
  constructor
  · rintro h pre run post rfl hnine
    -- the pattern matches at the run, so the match is reported or one that runs over its start
    have hm := matchAt_ssnDashless.2 ⟨run, post, rfl, hnine, rfl⟩
    have hlen : 0 < byteLen run := by
      have := length_le_byteLen run
      have := hnine.length
      omega
    rcases findIter_complete hm (by simpa [ssnMatch] using hlen) with hmem | ⟨m', hmem, hin⟩
    · rw [← List.append_assoc] at hmem
      exact dashlessSsn_isSome_iff.1 (h _ hmem)
    · -- a match that runs over the start of the run would make its left neighbour a digit
      exfalso
      rcases mem_findIter hmem with ⟨a, r, htext, hm'⟩
      rcases matchAt_ssnDashless.1 hm' with ⟨run', post', rfl, hnine', rfl⟩
      rcases hin with ⟨hstart, hstop⟩
      simp only [ssnMatch] at hstart hstop
      obtain ⟨b, rfl, hb⟩ : ∃ b, pre = a ++ b ∧ b ≠ [] := by
        rcases List.append_eq_append_iff.1 htext with ⟨b, rfl, _⟩ | ⟨b, rfl, _⟩
        · simp only [byteLen_append] at hstart
          omega
        · refine ⟨b, rfl, ?_⟩
          rintro rfl
          simp at hstart
      simp only [List.append_assoc, List.append_cancel_left_eq] at htext
      obtain ⟨l, hl⟩ : ∃ l, b.getLast? = some l :=
        Option.isSome_iff_exists.1 (List.getLast?_isSome.2 hb)
      have hlmem : l ∈ run' := by
        rcases List.append_eq_append_iff.1 htext with ⟨c, hc, _⟩ | ⟨c, hc, _⟩
        · rw [hc]
          exact List.mem_append_left _ (List.mem_of_getLast? hl)
        · -- the earlier run would end before the later one starts
          exfalso
          simp only [byteLen_append, hc] at hstop
          omega
      -- the left neighbour of the run is a digit of the earlier one, hence a word character
      have hword := sc.classes.word_of_decimal l (hnine'.decimal l hlmem)
      have hbefore := hnine.before
      rw [List.getLast?_append, hl] at hbefore
      simp [hword] at hbefore
  · rintro h m hmem
    rcases mem_findIter hmem with ⟨a, r, rfl, hm⟩
    rcases matchAt_ssnDashless.1 hm with ⟨run, post, rfl, hnine, rfl⟩
    rw [← List.append_assoc]
    exact dashlessSsn_isSome_iff.2 (h a run post (by simp) hnine)

/-! ## The whole pipeline -/

/-- The texts of a signal that go through the redaction engine. -/
def scannedTexts (pipeline : EventPipeline) (payload : CapturedPayload) : List String :=
  ((pipeline.extractFields (classify payload)).getD []).filterMap fun
    | (_, .redactable text) => some text
    | (_, .passthrough _) => none

theorem summarize_isSome {sc : Scanner} {fields : List (String × FieldValue)}
    (h : ∀ name text, (name, FieldValue.redactable text) ∈ fields →
      (RedactionEngine.scan sc text.toList).isSome) (summary : List (String × Json)) :
    (EventPipeline.summarize sc fields summary).isSome := by
  induction fields generalizing summary with
  | nil => rfl
  | cons field fields ih =>
      have htail := fun name text hmem => h name text (List.mem_cons_of_mem _ hmem)
      rcases field with ⟨name, value⟩
      cases value with
      | passthrough value => exact ih htail _
      | redactable text =>
          obtain ⟨outcome, houtcome⟩ := Option.isSome_iff_exists.1 (h name text List.mem_cons_self)
          cases outcome with
          | clean t => simpa [EventPipeline.summarize, houtcome] using ih htail _
          | redacted t => simpa [EventPipeline.summarize, houtcome] using ih htail _
          | drop => simp [EventPipeline.summarize, houtcome]

theorem process_isSome {pipeline : EventPipeline} {signal : CapturedSignal}
    (h : ∀ text ∈ scannedTexts pipeline signal.payload,
      (RedactionEngine.scan pipeline.redactor text.toList).isSome)
    (level : PrivacyLevel) (now : Timestamp) : (pipeline.process signal level now).isSome := by
  unfold EventPipeline.process
  simp only
  split
  · rfl
  · split
    · rfl
    · rename_i fields hfields
      rw [Option.isSome_map]
      refine summarize_isSome (fun name text hmem => h text ?_) []
      rw [scannedTexts, hfields]
      exact List.mem_filterMap.2 ⟨_, hmem, rfl⟩

/-- Detection, redaction and the pipeline on any signal that carries the text all return. -/
structure PipelineReturnsOn (pipeline : EventPipeline) (text : String) : Prop where
  detect : (detectAll pipeline.redactor text.toList).isSome
  scan : (RedactionEngine.scan pipeline.redactor text.toList).isSome
  process : ∀ signal level now, scannedTexts pipeline signal.payload = [text] →
    (pipeline.process signal level now).isSome

/-- The pipeline returns on a text exactly when every run of nine decimal digits in it, alone
between non-word characters, has character boundaries at its byte offsets 3, 5 and 9. -/
theorem pipelineReturnsOn_iff (pipeline : EventPipeline) (text : String) :
    PipelineReturnsOn pipeline text ↔
      NineDigitRunsCut pipeline.redactor.classes text.toList := by
  constructor
  · intro h
    exact detectAll_isSome_iff_nineDigitRunsCut.1 h.detect
  · intro h
    have hdetect := detectAll_isSome_iff_nineDigitRunsCut.2 h
    have hscan := RedactionEngine.scan_isSome_iff.2 hdetect
    refine ⟨hdetect, hscan, fun signal level now htexts => process_isSome ?_ level now⟩
    intro t ht
    rw [htexts, List.mem_singleton] at ht
    rw [ht]
    exact hscan

/-- Nine Arabic-Indic digits take two bytes each, so the slice of the first three bytes panics. -/
theorem arabicIndic_digits_panic :
    ¬ PipelineReturnsOn (.new .reference)
      "\u0661\u0662\u0663\u0664\u0665\u0666\u0667\u0668\u0669" := by
  intro h
  have hnone : detectAll Scanner.reference
      "\u0661\u0662\u0663\u0664\u0665\u0666\u0667\u0668\u0669".toList = none := by
    decide +kernel
  have hdetect := h.detect
  simp only [EventPipeline.new, hnone] at hdetect
  cases hdetect

/-- A window title made of ASCII digits only is harmless. -/
example : (EventPipeline.process (.new .reference)
    ⟨"linux.active_window", .windowTitle "file 123456789"⟩ .contextAware 0).isSome = true := by
  decide +kernel

end Pipeline
end HiddenSteps
