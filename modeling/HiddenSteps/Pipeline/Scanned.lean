import HiddenSteps.Pipeline.Totality

/-!
# Scanned — which strings of a signal reach its summary

A field of a summary holds what the redaction engine makes of a string of the payload, or a string
that is passed through without a scan.  The strings that are passed through are the content type of
a clipboard signal and the operation of a file signal, whatever the source has put there.
-/

namespace HiddenSteps

/-! ## Strings of a JSON value -/

/-- A string is a value of a JSON value, at any depth. -/
inductive Json.Holds : Json → String → Prop where
  | string (s : String) : Json.Holds (.string s) s
  | item {items : List Json} {item : Json} {s : String} (hitem : item ∈ items)
      (h : Json.Holds item s) : Json.Holds (.array items) s
  | field {fields : List (String × Json)} {name : String} {value : Json} {s : String}
      (hfield : (name, value) ∈ fields) (h : Json.Holds value s) : Json.Holds (.object fields) s

namespace Json

theorem holds_string_iff {t s : String} : (Json.string t).Holds s ↔ s = t := by
  constructor
  · rintro ⟨⟩
    rfl
  · rintro rfl
    exact .string s

theorem not_holds_number {n : Int} {s : String} : ¬ (Json.number n).Holds s := by
  rintro ⟨⟩

theorem mem_insertField_self (name : String) (value : Json) (fields : List (String × Json)) :
    (name, value) ∈ insertField name value fields := by
  induction fields with
  | nil => exact List.mem_cons_self
  | cons f fields ih =>
      unfold insertField
      split
      · exact List.mem_cons_self
      · split
        · exact List.mem_cons_self
        · exact List.mem_cons_of_mem _ ih

theorem of_mem_insertField {name : String} {value : Json} {fields : List (String × Json)}
    {f : String × Json} (h : f ∈ insertField name value fields) : f = (name, value) ∨ f ∈ fields := by
  induction fields with
  | nil => exact Or.inl (List.mem_singleton.1 h)
  | cons g fields ih =>
      unfold insertField at h
      split at h
      · exact (List.mem_cons.1 h).imp_right (List.mem_cons_of_mem _)
      · split at h
        · exact List.mem_cons.1 h
        · rcases List.mem_cons.1 h with rfl | h
          · exact Or.inr List.mem_cons_self
          · exact (ih h).imp_right (List.mem_cons_of_mem _)

theorem mem_insertField_of_ne {name : String} {value : Json} {fields : List (String × Json)}
    {f : String × Json} (hf : f ∈ fields) (hne : f.1 ≠ name) : f ∈ insertField name value fields := by
  induction fields with
  | nil => cases hf
  | cons g fields ih =>
      unfold insertField
      split
      · rename_i hsame
        rcases List.mem_cons.1 hf with rfl | hf
        · exact absurd (beq_iff_eq.1 hsame) hne
        · exact List.mem_cons_of_mem _ hf
      · split
        · exact List.mem_cons_of_mem _ hf
        · rcases List.mem_cons.1 hf with rfl | hf
          · exact List.mem_cons_self
          · exact List.mem_cons_of_mem _ (ih hf)

end Json

namespace Pipeline

open Redaction

/-! ## What the engine makes of a string -/

/-- A string is what the redaction engine makes of a text. -/
def Survives (redactor : Scanner) (text s : String) : Prop :=
  RedactionEngine.scan redactor text.toList = some (.clean s.toList) ∨
    RedactionEngine.scan redactor text.toList = some (.redacted s.toList)

theorem Survives.not_drop {redactor : Scanner} {text s : String} (h : Survives redactor text s) :
    RedactionEngine.scan redactor text.toList ≠ some .drop := by
  rcases h with h | h <;> simp [h]

/-- A field of a summary is what becomes of a field of a signal. -/
def FieldValue.Becomes (redactor : Scanner) : FieldValue → Json → Prop
  | .passthrough value, json => json = value
  | .redactable text, json => ∃ s, json = .string s ∧ Survives redactor text s

namespace EventPipeline

section

variable {redactor : Scanner} {fields : List (String × FieldValue)}
  {acc summary : List (String × Json)}

/-- One field of a signal is summarised, then the others. -/
theorem summarize_cons {name : String} {value : FieldValue}
    (h : summarize redactor ((name, value) :: fields) acc = some (some summary)) :
    ∃ json, value.Becomes redactor json ∧
      summarize redactor fields (Json.insertField name json acc) = some (some summary) := by
  cases value with
  | passthrough value => exact ⟨value, rfl, h⟩
  | redactable text =>
      rcases Option.bind_eq_some_iff.1 h with ⟨outcome, hscan, h⟩
      cases outcome with
      | clean t =>
          exact ⟨.string (String.ofList t), ⟨_, rfl, Or.inl (by rw [hscan, String.toList_ofList])⟩, h⟩
      | redacted t =>
          exact ⟨.string (String.ofList t), ⟨_, rfl, Or.inr (by rw [hscan, String.toList_ofList])⟩, h⟩
      | drop => cases h

/-- A summary holds nothing but what becomes of the fields. -/
theorem of_mem_summarize (h : summarize redactor fields acc = some (some summary))
    {name : String} {json : Json} (hmem : (name, json) ∈ summary) :
    (name, json) ∈ acc ∨ ∃ value, (name, value) ∈ fields ∧ value.Becomes redactor json := by
  induction fields generalizing acc with
  | nil =>
      cases h
      exact Or.inl hmem
  | cons field fields ih =>
      rcases field with ⟨name', value⟩
      rcases summarize_cons h with ⟨json', hbecomes, hrest⟩
      rcases ih hrest with hacc | ⟨value', hvalue, hbecomes'⟩
      · rcases Json.of_mem_insertField hacc with heq | hacc
        · cases heq
          exact Or.inr ⟨value, List.mem_cons_self, hbecomes⟩
        · exact Or.inl hacc
      · exact Or.inr ⟨value', List.mem_cons_of_mem _ hvalue, hbecomes'⟩

theorem mem_summarize_of_acc (h : summarize redactor fields acc = some (some summary))
    {f : String × Json} (hf : f ∈ acc) (hfresh : f.1 ∉ fields.map Prod.fst) : f ∈ summary := by
  induction fields generalizing acc with
  | nil =>
      cases h
      exact hf
  | cons field fields ih =>
      rcases field with ⟨name, value⟩
      rcases summarize_cons h with ⟨json, -, hrest⟩
      rw [List.map_cons, List.mem_cons, not_or] at hfresh
      exact ih hrest (Json.mem_insertField_of_ne hf hfresh.1) hfresh.2

/-- A summary holds what becomes of every field. -/
theorem mem_summarize (h : summarize redactor fields acc = some (some summary))
    (hnames : (fields.map Prod.fst).Nodup) {name : String} {value : FieldValue}
    (hmem : (name, value) ∈ fields) :
    ∃ json, (name, json) ∈ summary ∧ value.Becomes redactor json := by
  induction fields generalizing acc with
  | nil => cases hmem
  | cons field fields ih =>
      rcases field with ⟨name', value'⟩
      rcases summarize_cons h with ⟨json, hbecomes, hrest⟩
      rcases List.nodup_cons.1 hnames with ⟨hfresh, hnames⟩
      rcases List.mem_cons.1 hmem with heq | hmem
      · cases heq
        exact ⟨json, mem_summarize_of_acc hrest (Json.mem_insertField_self _ _ _) hfresh, hbecomes⟩
      · exact ih hrest hnames hmem

/-- A summary is made if every scanned text survives. -/
theorem summarize_of_survive
    (h : ∀ name text, (name, FieldValue.redactable text) ∈ fields → ∃ s, Survives redactor text s) :
    ∃ summary, summarize redactor fields acc = some (some summary) := by
  induction fields generalizing acc with
  | nil => exact ⟨acc, rfl⟩
  | cons field fields ih =>
      have htail : ∀ name text, (name, FieldValue.redactable text) ∈ fields →
          ∃ s, Survives redactor text s :=
        fun name text hmem => h name text (List.mem_cons_of_mem _ hmem)
      rcases field with ⟨name, value⟩
      cases value with
      | passthrough value => exact ih htail
      | redactable text =>
          rcases h name text List.mem_cons_self with ⟨s, hscan | hscan⟩
          · rw [summarize, hscan]
            exact ih htail
          · rw [summarize, hscan]
            exact ih htail

end

end EventPipeline

/-! ## The strings of a signal -/

/-- The string of a field of a signal. -/
def FieldValue.text : FieldValue → Option String
  | .redactable text => some text
  | .passthrough (.string s) => some s
  | .passthrough _ => none

/-- The strings of a payload and the fields they go to; a screenshot has the text that is extracted
from it. -/
def textsOf (extract : List UInt8 → Option String) : CapturedPayload → List (String × String)
  | .appFocusChange app => [("app", app)]
  | .windowTitle title => [("title", title)]
  | .shortcutInvoked shortcut => [("shortcut", shortcut)]
  | .browserDomainVisited domain => [("domain", domain)]
  | .clipboardMetadata contentType _ => [("content_type", contentType)]
  | .fileOperation path operation => [("path", path), ("operation", operation)]
  | .ocrText text => [("text", text)]
  | .screenshot rawBytes => (extract rawBytes).toList.map fun text => ("text", text)
  | .accessibilityTree serialized => [("tree", serialized)]

/-- The strings of some fields. -/
def fieldTexts (fields : List (String × FieldValue)) : List (String × String) :=
  fields.filterMap fun f => f.2.text.map fun text => (f.1, text)

/-- The texts of a signal that are passed through. -/
def passedTexts (pipeline : EventPipeline) (payload : CapturedPayload) : List String :=
  ((pipeline.extractFields (classify payload)).getD []).filterMap fun
    | (_, .passthrough (.string s)) => some s
    | _ => none

/-- A field is a text to be scanned, a string or a number. -/
inductive FieldValue.Shape : FieldValue → Prop where
  | scanned (text : String) : FieldValue.Shape (.redactable text)
  | string (s : String) : FieldValue.Shape (.passthrough (.string s))
  | number (n : Int) : FieldValue.Shape (.passthrough (.number n))

section

variable {pipeline : EventPipeline} {payload : CapturedPayload}
  {fields : List (String × FieldValue)}

theorem names_extractFields (h : pipeline.extractFields (classify payload) = some fields) :
    (fields.map Prod.fst).Nodup := by
  cases payload with
  | screenshot rawBytes =>
      rcases Option.map_eq_some_iff.1 h with ⟨text, -, rfl⟩
      exact List.nodup_singleton _
  | _ =>
      cases h
      simp

theorem shape_extractFields (h : pipeline.extractFields (classify payload) = some fields) :
    ∀ f ∈ fields, f.2.Shape := by
  cases payload with
  | screenshot rawBytes =>
      rcases Option.map_eq_some_iff.1 h with ⟨text, -, rfl⟩
      simp [FieldValue.Shape.scanned]
  | _ =>
      cases h
      simp [FieldValue.Shape.scanned, FieldValue.Shape.string, FieldValue.Shape.number]

/-- Every string of a payload is in one field of the signal. -/
theorem textsOf_eq (h : pipeline.extractFields (classify payload) = some fields) :
    textsOf pipeline.extract payload = fieldTexts fields := by
  cases payload with
  | screenshot rawBytes =>
      rcases Option.map_eq_some_iff.1 h with ⟨text, htext, rfl⟩
      rw [textsOf, htext]
      rfl
  | _ =>
      cases h
      rfl

theorem mem_fieldTexts {name text : String} :
    (name, text) ∈ fieldTexts fields ↔ ∃ value, (name, value) ∈ fields ∧ value.text = some text := by
  unfold fieldTexts
  rw [List.mem_filterMap]
  constructor
  · rintro ⟨⟨name', value⟩, hmem, hf⟩
    rcases Option.map_eq_some_iff.1 hf with ⟨text', htext, heq⟩
    cases heq
    exact ⟨value, hmem, htext⟩
  · rintro ⟨value, hmem, htext⟩
    exact ⟨(name, value), hmem, by rw [htext, Option.map_some]⟩

end

/-! ## Invocations of the text extractor -/

/-- The bytes the extractor is invoked on, and the fields. -/
def EventPipeline.extractFieldsTraced (pipeline : EventPipeline) :
    ClassifiedSignal → List (List UInt8) × Option (List (String × FieldValue))
  | .fields _ fields => ([], some fields)
  | .requiresExtraction _ rawBytes =>
      ([rawBytes], (pipeline.extract rawBytes).map fun text => [("text", .redactable text)])

/-- `process` with the bytes the extractor is invoked on. -/
def EventPipeline.processTraced (pipeline : EventPipeline) (signal : CapturedSignal)
    (privacyLevel : PrivacyLevel) (now : Timestamp) : List (List UInt8) × Option PipelineOutcome :=
  let classified := classify signal.payload
  let signalType := classified.signalType
  if minimumLevelFor signalType > privacyLevel then
    ([], some (.dropped .signalNotAllowedAtCurrentLevel))
  else
    let extracted := pipeline.extractFieldsTraced classified
    ( extracted.1,
      match extracted.2 with
      | none => some (.dropped .ocrUnavailable)
      | some fields =>
          (summarize pipeline.redactor fields []).map fun
            | none => .dropped .redactionUncertain
            | some summary =>
                let ttlExpiresAt :=
                  if privacyLevel == .maximumAssistance then pipeline.deepModeTtl.map (now + ·)
                  else none
                .summarized (.new now signal.sourceId signalType privacyLevel (.object summary)
                  ttlExpiresAt) )

theorem processTraced_outcome (pipeline : EventPipeline) (signal : CapturedSignal)
    (level : PrivacyLevel) (now : Timestamp) :
    (pipeline.processTraced signal level now).2 = pipeline.process signal level now := by
  unfold EventPipeline.processTraced EventPipeline.process
  generalize classify signal.payload = classified
  cases classified with
  | fields signalType fields =>
      simp only
      split <;> rfl
  | requiresExtraction signalType rawBytes =>
      simp only
      split <;> rfl

/-! ## Redaction cannot be bypassed -/

/-- Every string of the summary is what the engine makes of a string of the payload, no string that
should be dropped goes into a summary, and the level admits the signal before its text is
extracted. -/
structure RedactionBinds (pipeline : EventPipeline) (signal : CapturedSignal)
    (level : PrivacyLevel) (now : Timestamp) : Prop where
  survive : ∀ event, (pipeline.processTraced signal level now).2 = some (.summarized event) →
    ∃ summary, event.summary = .object summary ∧
      ∀ name json, (name, json) ∈ summary → ∀ s, json.Holds s →
        ∃ text, (name, text) ∈ textsOf pipeline.extract signal.payload ∧
          Survives pipeline.redactor text s
  kept : ∀ event, (pipeline.processTraced signal level now).2 = some (.summarized event) →
    ∀ name text, (name, text) ∈ textsOf pipeline.extract signal.payload →
      RedactionEngine.scan pipeline.redactor text.toList ≠ some .drop
  admitted : ∀ event, (pipeline.processTraced signal level now).2 = some (.summarized event) →
    minimumLevelFor event.signalType ≤ level
  unextracted : level < minimumLevelFor (classify signal.payload).signalType →
    (pipeline.processTraced signal level now).1 = []

/-- The scan leaves every text that is passed through as it is, or the signal is above the level, or
a scanned text of it does not survive. -/
def PassesSafely (pipeline : EventPipeline) (signal : CapturedSignal) (level : PrivacyLevel) : Prop :=
  (∀ text ∈ passedTexts pipeline signal.payload, Survives pipeline.redactor text text) ∨
    level < minimumLevelFor (classify signal.payload).signalType ∨
    ∃ text ∈ scannedTexts pipeline signal.payload, ∀ s, ¬ Survives pipeline.redactor text s

theorem mem_scannedTexts {pipeline : EventPipeline} {payload : CapturedPayload}
    {fields : List (String × FieldValue)}
    (h : pipeline.extractFields (classify payload) = some fields) {text : String} :
    text ∈ scannedTexts pipeline payload ↔ ∃ name, (name, FieldValue.redactable text) ∈ fields := by
  rw [scannedTexts, h, Option.getD_some, List.mem_filterMap]
  constructor
  · rintro ⟨⟨name, value⟩, hmem, hf⟩
    cases value with
    | redactable text' =>
        cases hf
        exact ⟨name, hmem⟩
    | passthrough value => cases hf
  · rintro ⟨name, hmem⟩
    exact ⟨_, hmem, rfl⟩

theorem mem_passedTexts {pipeline : EventPipeline} {payload : CapturedPayload}
    {fields : List (String × FieldValue)}
    (h : pipeline.extractFields (classify payload) = some fields) {text : String} :
    text ∈ passedTexts pipeline payload ↔
      ∃ name, (name, FieldValue.passthrough (.string text)) ∈ fields := by
  rw [passedTexts, h, Option.getD_some, List.mem_filterMap]
  constructor
  · rintro ⟨⟨name, value⟩, hmem, hf⟩
    split at hf
    · rename_i heq
      cases heq
      cases hf
      exact ⟨name, hmem⟩
    · cases hf
  · rintro ⟨name, hmem⟩
    exact ⟨_, hmem, rfl⟩

/-- When redaction binds a signal that is summarised, the scan leaves the passed texts as they are. -/
theorem survives_of_binds {pipeline : EventPipeline} {signal : CapturedSignal}
    {level : PrivacyLevel} {now : Timestamp} (h : RedactionBinds pipeline signal level now)
    (hlevel : minimumLevelFor (classify signal.payload).signalType ≤ level)
    (hscanned : ∀ text ∈ scannedTexts pipeline signal.payload,
      ∃ s, Survives pipeline.redactor text s) :
    ∀ text ∈ passedTexts pipeline signal.payload, Survives pipeline.redactor text text := by
  intro text htext
  cases hfields : pipeline.extractFields (classify signal.payload) with
  | none =>
      rw [passedTexts, hfields] at htext
      cases htext
  | some fields =>
      have hnames := names_extractFields hfields
      -- every scanned text survives, so there is a summary
      obtain ⟨summary, hsummary⟩ :
          ∃ summary, EventPipeline.summarize pipeline.redactor fields [] = some (some summary) :=
        EventPipeline.summarize_of_survive fun name text hmem =>
          hscanned text ((mem_scannedTexts hfields).2 ⟨name, hmem⟩)
      rcases EventPipeline.process_of_summary hlevel hfields hsummary now with
        ⟨event, hprocess, hevent⟩
      rcases (mem_passedTexts hfields).1 htext with ⟨name, hmem⟩
      rcases EventPipeline.mem_summarize hsummary hnames hmem with ⟨json, hjson, rfl⟩
      rw [← processTraced_outcome] at hprocess
      rcases h.survive event hprocess with ⟨summary', hsummary', hsurvive⟩
      obtain rfl : summary = summary' := Json.object.inj (hevent.symm.trans hsummary')
      rcases hsurvive name _ hjson text (.string text) with ⟨text', htext', hsurvives⟩
      rw [textsOf_eq hfields] at htext'
      rcases mem_fieldTexts.1 htext' with ⟨value, hvalue, hvalueText⟩
      -- the name of a field determines the field
      have hsame : (name, value) = (name, FieldValue.passthrough (.string text)) :=
        List.inj_on_of_nodup_map hnames hvalue hmem rfl
      cases hsame
      cases hvalueText
      exact hsurvives

/-- What is summarised has only scanned strings and strings that are passed unchanged. -/
theorem binds_of_passesSafely {pipeline : EventPipeline} {signal : CapturedSignal}
    {level : PrivacyLevel} (h : PassesSafely pipeline signal level) (now : Timestamp) :
    RedactionBinds pipeline signal level now := by
  have hsafe : ∀ event fields summary,
      pipeline.process signal level now = some (.summarized event) →
      pipeline.extractFields (classify signal.payload) = some fields →
      EventPipeline.summarize pipeline.redactor fields [] = some (some summary) →
      ∀ name text, (name, FieldValue.passthrough (.string text)) ∈ fields →
        Survives pipeline.redactor text text := by
    intro event fields summary hprocess hfields hsummary name text hmem
    rcases h with hpassed | hlevel | ⟨scanned, hscanned, hlost⟩
    · exact hpassed text ((mem_passedTexts hfields).2 ⟨name, hmem⟩)
    · rcases EventPipeline.process_eq_summarized hprocess with ⟨_, _, hadmitted, -⟩
      exact absurd hlevel hadmitted.not_gt
    -- a text that does not survive leaves no summary
    · rcases (mem_scannedTexts hfields).1 hscanned with ⟨name', hmem'⟩
      rcases EventPipeline.mem_summarize hsummary (names_extractFields hfields) hmem' with
        ⟨json, -, s, -, hsurvives⟩
      exact absurd hsurvives (hlost s)
  constructor
  · intro event hprocess
    rw [processTraced_outcome] at hprocess
    rcases EventPipeline.process_eq_summarized hprocess with
      ⟨fields, summary, -, hfields, hsummary, ttl, rfl⟩
    refine ⟨summary, rfl, ?_⟩
    intro name json hjson s hs
    rw [textsOf_eq hfields]
    rcases EventPipeline.of_mem_summarize hsummary hjson with hnil | ⟨value, hmem, hbecomes⟩
    · cases hnil
    · cases shape_extractFields hfields _ hmem with
      | scanned text =>
          rcases hbecomes with ⟨out, rfl, hsurvives⟩
          rw [Json.holds_string_iff] at hs
          exact ⟨text, mem_fieldTexts.2 ⟨_, hmem, rfl⟩, hs ▸ hsurvives⟩
      | string text =>
          cases hbecomes
          rw [Json.holds_string_iff] at hs
          exact ⟨text, mem_fieldTexts.2 ⟨_, hmem, rfl⟩,
            hs ▸ hsafe _ fields summary hprocess hfields hsummary name text hmem⟩
      | number n =>
          cases hbecomes
          exact absurd hs Json.not_holds_number
  · intro event hprocess name text htext
    rw [processTraced_outcome] at hprocess
    rcases EventPipeline.process_eq_summarized hprocess with
      ⟨fields, summary, -, hfields, hsummary, ttl, rfl⟩
    rw [textsOf_eq hfields] at htext
    rcases mem_fieldTexts.1 htext with ⟨value, hmem, hvalue⟩
    cases shape_extractFields hfields _ hmem with
    | scanned text' =>
        cases hvalue
        rcases EventPipeline.mem_summarize hsummary (names_extractFields hfields) hmem with
          ⟨json, -, s, -, hsurvives⟩
        exact hsurvives.not_drop
    | string text' =>
        cases hvalue
        exact (hsafe _ fields summary hprocess hfields hsummary name _ hmem).not_drop
    | number n => cases hvalue
  · intro event hprocess
    rw [processTraced_outcome] at hprocess
    exact (process_level hprocess).2.2
  · intro hlevel
    rw [EventPipeline.processTraced, if_pos hlevel]

/-- Redaction binds a signal exactly if the scan leaves the texts that are passed through as they
are, or the signal is not summarised for its level or for another text. -/
theorem redactionBinds_iff (pipeline : EventPipeline) (signal : CapturedSignal)
    (level : PrivacyLevel) (now : Timestamp) :
    RedactionBinds pipeline signal level now ↔ PassesSafely pipeline signal level := by
  constructor
  · intro h
    by_cases hlevel : level < minimumLevelFor (classify signal.payload).signalType
    · exact Or.inr (Or.inl hlevel)
    · by_cases hlost : ∃ text ∈ scannedTexts pipeline signal.payload,
          ∀ s, ¬ Survives pipeline.redactor text s
      · exact Or.inr (Or.inr hlost)
      · push Not at hlost
        exact Or.inl (survives_of_binds h (not_lt.1 hlevel) hlost)
  · exact fun h => binds_of_passesSafely h now

/-- The owner of the clipboard names its format like an address of a person. -/
theorem clipboard_format_stored_unscanned :
    ¬ ∀ pipeline signal level now, RedactionBinds pipeline signal level now := by
  intro h
  let contentType := "alice@example.com"
  have hbinds := h (.new .reference)
    ⟨"linux.clipboard_metadata", .clipboardMetadata contentType 5⟩ .workflowMetadata 0
  have hsurvives : Survives .reference contentType contentType :=
    survives_of_binds hbinds le_rfl (by rintro text ⟨⟩) contentType List.mem_cons_self
  have hscan : RedactionEngine.scan .reference contentType.toList =
      some (.redacted "[REDACTED:email]".toList) := by
    decide +kernel
  rw [Survives, hscan] at hsurvives
  simp [contentType] at hsurvives

end Pipeline
end HiddenSteps
