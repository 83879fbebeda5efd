import HiddenSteps.Redaction.Coverage
import HiddenSteps.Text.Separators

/-!
# Rescan — what a second scan makes of a redacted text

The ambiguous pass passes over a candidate as soon as a detection touches it, while the redaction
cuts out the detection only.  What is left of the candidate can be a token that the engine refuses
when it scans the redacted text.

* `dropped_iff_refused`: a text is dropped exactly when one of its candidates is refused;
* `candidates_render`: no candidate of a redacted text reaches into a marker, so they are those of
  the stretches that were kept, each read by itself;
* `stableUnderRescan_of_keepsNoSecret`: without a secret in a kept stretch, the engine does not drop
  what it has redacted.
-/

namespace HiddenSteps
namespace Redaction

open Text

/-! ## When a text is dropped -/

section Drop

variable {sc : Scanner} {text : List Char} {ms : List Match} {ds ds' : List Detection}

/-- What the ambiguous pass adds, it adds for a refused candidate. -/
theorem refused_of_foldlM_pushAmbiguous (h : ms.foldlM (pushAmbiguous sc text) ds = some ds')
    {d : Detection} (hd : d ∈ ds') : d ∈ ds ∨ ∃ m ∈ ms, Refused sc text ds m := by
  induction ms generalizing ds with
  | nil =>
      cases h
      exact Or.inl hd
  | cons m ms ih =>
      rcases Option.bind_eq_some_iff.1 h with ⟨ds₁, hstep, hrest⟩
      rcases pushAmbiguous_eq_some hstep with ⟨hrefused, rfl⟩ | ⟨-, rfl⟩
      · exact Or.inr ⟨m, List.mem_cons_self, hrefused⟩
      · rcases ih hrest with hmem | ⟨m', hm', hrefused⟩
        · exact Or.inl hmem
        · exact Or.inr ⟨m', List.mem_cons_of_mem _ hm', hrefused⟩

/-- The pass adds an ambiguous detection when some candidate is refused. -/
theorem ambiguous_of_refused (h : ms.foldlM (pushAmbiguous sc text) ds = some ds') {m : Match}
    (hm : m ∈ ms) (hrefused : Refused sc text ds m) : ∃ d ∈ ds', d.confidence = .ambiguous := by
  induction ms generalizing ds with
  | nil => cases hm
  | cons m' ms ih =>
      rcases Option.bind_eq_some_iff.1 h with ⟨ds₁, hstep, hrest⟩
      rcases pushAmbiguous_eq_some hstep with ⟨-, rfl⟩ | ⟨hfine, rfl⟩
      · -- the first candidate is refused itself
        exact ⟨_, mem_of_foldlM_pushAmbiguous hrest
          (List.mem_append_right _ List.mem_cons_self), rfl⟩
      · rcases List.mem_cons.1 hm with rfl | hm
        · exact absurd hrefused hfine
        · exact ih hrest hm hrefused

end Drop

/-- A text is dropped exactly when one of its candidates, claimed by no format-specific detector, is
shaped like a secret. -/
theorem dropped_iff_refused {sc : Scanner} {text : List Char} :
    RedactionEngine.scan sc text = some .drop ↔
      ∃ high, highConfidence sc text = some high ∧
        ∃ m ∈ findIter (highEntropyCandidate sc.classes) text, Refused sc text high m := by
  rw [RedactionEngine.scan_eq_drop_iff]
  constructor
  · rintro ⟨ds, hds, d, hd, hambiguous⟩
    rcases Option.bind_eq_some_iff.1 hds with ⟨high, hhigh, hds⟩
    rcases Option.bind_eq_some_iff.1 hds with ⟨all, hall, hds⟩
    cases hds
    refine ⟨high, hhigh, ?_⟩
    rcases refused_of_foldlM_pushAmbiguous hall (mem_sortByStart.1 hd) with hmem | hrefused
    · -- the format-specific detectors are certain
      have hcertain := (certain_of_highConfidence hhigh d hmem).2
      rw [hambiguous] at hcertain
      cases hcertain
    · exact hrefused
  · rintro ⟨high, hhigh, m, hm, hrefused⟩
    have hsome : ((findIter (highEntropyCandidate sc.classes) text).foldlM
        (pushAmbiguous sc text) high).isSome :=
      foldlM_pushAmbiguous_isSome fun m hm => cuts_of_mem_findIter hm
    rcases Option.isSome_iff_exists.1 hsome with ⟨all, hall⟩
    rcases ambiguous_of_refused hall hm hrefused with ⟨d, hd, hambiguous⟩
    refine ⟨sortByStart all, ?_, d, mem_sortByStart.2 hd, hambiguous⟩
    simp [detectAll, hhigh, hall]

/-! ## Candidates and markers -/

/-- The punctuation of a marker. -/
def IsMarkerPunctuation (c : Char) : Prop :=
  c = '[' ∨ c = ':' ∨ c = ']'

theorem highEntropyCandidate_avoids (u : UnicodeClasses) :
    (highEntropyCandidate u).Avoids IsMarkerPunctuation := by
  have hword : ∀ c, IsMarkerPunctuation c → u.isWord c = false := by
    rintro c (rfl | rfl | rfl)
    all_goals exact u.word_ascii _ (by decide)
  refine ⟨hword, ?_, hword⟩
  rintro c (rfl | rfl | rfl)
  all_goals decide

theorem highEntropyCandidate_minLength (u : UnicodeClasses) :
    (highEntropyCandidate u).minLength = 20 := rfl

theorem Category.length_label (category : Category) : category.label.toList.length < 20 := by
  cases category <;> decide

theorem redactionMarker_eq (category : Category) :
    redactionMarker category =
      '[' :: ("REDACTED".toList ++ ':' :: (category.label.toList ++ [']'])) := by
  have hopening : "[REDACTED:".toList = '[' :: ("REDACTED".toList ++ [':']) := by decide
  unfold redactionMarker
  simp only [hopening, List.cons_append, List.append_assoc, List.nil_append]

/-- No candidate lies in a marker or reaches into one. -/
theorem candidates_append_marker (u : UnicodeClasses) (category : Category) (s t : List Char) :
    findIter (highEntropyCandidate u) (s ++ redactionMarker category ++ t) =
      findIter (highEntropyCandidate u) s ++ (findIter (highEntropyCandidate u) t).map
        (Match.shift (byteLen s + byteLen (redactionMarker category))) := by
  have havoids := highEntropyCandidate_avoids u
  have hpos : 0 < (highEntropyCandidate u).minLength := by
    rw [highEntropyCandidate_minLength]
    decide
  -- the two words of a marker are too short for a candidate
  have hredacted : findIter (highEntropyCandidate u) "REDACTED".toList = [] :=
    findIter_of_short (by rw [highEntropyCandidate_minLength]; decide)
  have hlabel : findIter (highEntropyCandidate u) category.label.toList = [] :=
    findIter_of_short (by rw [highEntropyCandidate_minLength]; exact category.length_label)
  have htext : s ++ redactionMarker category ++ t =
      s ++ '[' :: ("REDACTED".toList ++ ':' :: (category.label.toList ++ ']' :: t)) := by
    rw [redactionMarker_eq]
    simp only [List.cons_append, List.append_assoc, List.nil_append]
  have hlen : byteLen (redactionMarker category) = '['.utf8Size + (byteLen "REDACTED".toList +
      (':'.utf8Size + (byteLen category.label.toList + ']'.utf8Size))) := by
    simp only [redactionMarker_eq, byteLen_cons, byteLen_append, byteLen_nil, Nat.add_zero]
  rw [htext, findIter_append_separator havoids hpos (Or.inl rfl),
    findIter_append_separator havoids hpos (Or.inr (Or.inl rfl)),
    findIter_append_separator havoids hpos (Or.inr (Or.inr rfl)), hredacted, hlabel, hlen]
  simp only [List.nil_append, List.map_map, Function.comp_def, Match.shift_shift, Nat.add_assoc]

/-! ## The stretches a redaction keeps -/

/-- A stretch of the input and the byte offset where the redacted text has it. -/
structure Stretch where
  offset : Nat
  text : List Char
  deriving DecidableEq, Repr

/-- The kept stretches among the pieces that follow from an offset on. -/
def stretches : Nat → List Piece → List Stretch
  | _, [] => []
  | offset, .kept text :: ps => ⟨offset, text⟩ :: stretches (offset + byteLen text) ps
  | offset, .marker category :: ps => stretches (offset + byteLen (redactionMarker category)) ps

theorem mem_stretches {ps : List Piece} {offset : Nat} {k : Stretch} (h : k ∈ stretches offset ps) :
    ∃ pre post, ps.flatMap Piece.render = pre ++ k.text ++ post ∧ k.offset = offset + byteLen pre := by
  induction ps generalizing offset with
  | nil => cases h
  | cons p ps ih =>
      -- behind the first piece the stretch lies as far on as the piece is long
      have hlater : k ∈ stretches (offset + byteLen p.render) ps →
          ∃ pre post, (p :: ps).flatMap Piece.render = pre ++ k.text ++ post ∧
            k.offset = offset + byteLen pre := by
        intro h
        rcases ih h with ⟨pre, post, hrender, hoffset⟩
        refine ⟨p.render ++ pre, post, by simp [hrender], ?_⟩
        rw [hoffset, byteLen_append, Nat.add_assoc]
      cases p with
      | kept text =>
          rcases List.mem_cons.1 h with rfl | h
          · exact ⟨[], ps.flatMap Piece.render, rfl, rfl⟩
          · exact hlater h
      | marker category =>
          refine hlater ?_
          simpa only [stretches, Piece.render] using h

/-- The candidates of a redacted text are those of the kept stretches, each read by itself. -/
theorem candidates_render (u : UnicodeClasses) {text : List Char} {ds : List Detection}
    {cursor : Nat} {ps : List Piece} (h : piecesFrom text cursor ds = some ps) (offset : Nat) :
    (findIter (highEntropyCandidate u) (ps.flatMap Piece.render)).map (Match.shift offset) =
      (stretches offset ps).flatMap fun k =>
        (findIter (highEntropyCandidate u) k.text).map (Match.shift k.offset) := by
  induction ds generalizing cursor ps offset with
  | nil =>
      rcases Option.map_eq_some_iff.1 h with ⟨rest, -, rfl⟩
      simp [stretches, Piece.render]
  | cons d ds ih =>
      unfold piecesFrom at h
      split at h
      · -- a skipped detection makes no piece
        exact ih h offset
      · rcases Option.bind_eq_some_iff.1 h with ⟨before, -, h⟩
        rcases Option.map_eq_some_iff.1 h with ⟨ps', hps', rfl⟩
        have hrender : (Piece.kept before :: .marker d.category :: ps').flatMap Piece.render =
            before ++ redactionMarker d.category ++ ps'.flatMap Piece.render := by
          simp [Piece.render]
        rw [hrender, candidates_append_marker, List.map_append, List.map_map]
        simp only [stretches, List.flatMap_cons]
        rw [← ih hps']
        simp [Function.comp_def, Nat.add_assoc]

/-! ## Stability -/

/-- The engine does not drop what it has redacted itself. -/
def StableUnderRescan (sc : Scanner) (text : List Char) : Prop :=
  ∀ out, RedactionEngine.scan sc text = some (.redacted out) →
    RedactionEngine.scan sc out ≠ some .drop

/-- No candidate of the text is shaped like a secret. -/
def HoldsNoSecret (sc : Scanner) (text : List Char) : Prop :=
  ∀ m ∈ findIter (highEntropyCandidate sc.classes) text, ∀ token,
    slice text m.span.start m.span.stop = some token → secretShaped sc token = false

/-- No stretch of the text that its redaction keeps holds a secret, each stretch read by itself. -/
def KeepsNoSecret (sc : Scanner) (text : List Char) : Prop :=
  ∀ ds ps, detectAll sc text = some ds → ds ≠ [] → (∀ d ∈ ds, d.confidence = .high) →
    piecesFrom text 0 ds = some ps → ∀ k ∈ stretches 0 ps, HoldsNoSecret sc k.text

/-- What the engine stores in place of the text holds no secret. -/
def LeavesNoSecret (sc : Scanner) (text : List Char) : Prop :=
  ∀ out, RedactionEngine.scan sc text = some (.redacted out) → HoldsNoSecret sc out

section Output

variable {sc : Scanner} {ps : List Piece}

/-- A candidate of a kept stretch is the same token in the redacted text. -/
theorem slice_shift {k : Stretch} (hk : k ∈ stretches 0 ps) {m : Match}
    (hm : Cuts k.text m.span.start m.span.stop) :
    slice (ps.flatMap Piece.render) (k.offset + m.span.start) (k.offset + m.span.stop) =
      slice k.text m.span.start m.span.stop := by
  rcases mem_stretches hk with ⟨pre, post, hrender, hoffset⟩
  rw [Nat.zero_add] at hoffset
  rcases Option.isSome_iff_exists.1 hm.slice_isSome with ⟨token, htoken⟩
  rw [htoken, hrender, hoffset]
  exact slice_inside htoken pre post

theorem mem_candidates_render_iff {text : List Char} {ds : List Detection}
    (hps : piecesFrom text 0 ds = some ps) {m' : Match} :
    m' ∈ findIter (highEntropyCandidate sc.classes) (ps.flatMap Piece.render) ↔
      ∃ k ∈ stretches 0 ps, ∃ m ∈ findIter (highEntropyCandidate sc.classes) k.text,
        m.shift k.offset = m' := by
  have hcandidates : findIter (highEntropyCandidate sc.classes) (ps.flatMap Piece.render) =
      (stretches 0 ps).flatMap fun k =>
        (findIter (highEntropyCandidate sc.classes) k.text).map (Match.shift k.offset) := by
    simpa using candidates_render sc.classes hps 0
  simp only [hcandidates, List.mem_flatMap, List.mem_map]

/-- A redacted text holds a secret exactly when one of the stretches does. -/
theorem holdsNoSecret_render_iff {text : List Char} {ds : List Detection}
    (hps : piecesFrom text 0 ds = some ps) :
    HoldsNoSecret sc (ps.flatMap Piece.render) ↔
      ∀ k ∈ stretches 0 ps, HoldsNoSecret sc k.text := by
  constructor
  · intro h k hk m hm token htoken
    refine h (m.shift k.offset) ((mem_candidates_render_iff hps).2 ⟨k, hk, m, hm, rfl⟩) token ?_
    rw [← htoken]
    exact slice_shift hk (cuts_of_mem_findIter hm)
  · intro h m' hm' token htoken
    rcases (mem_candidates_render_iff hps).1 hm' with ⟨k, hk, m, hm, rfl⟩
    refine h k hk m hm token ?_
    rw [← htoken]
    exact (slice_shift hk (cuts_of_mem_findIter hm)).symm

end Output

/-- A text without a secret is not dropped. -/
theorem scan_ne_drop_of_holdsNoSecret {sc : Scanner} {text : List Char}
    (h : HoldsNoSecret sc text) : RedactionEngine.scan sc text ≠ some .drop := by
  intro hdrop
  rcases dropped_iff_refused.1 hdrop with ⟨high, -, m, hm, -, token, htoken, hshape⟩
  rw [h m hm token htoken] at hshape
  cases hshape

/-- The redacted text holds no secret exactly when no kept stretch of the input does, and then it is
not dropped by a second scan.  The converse of the last part fails where a detector claims the
secret together with the marker before it. -/
theorem stableUnderRescan_of_keepsNoSecret (sc : Scanner) (text : List Char) :
    (KeepsNoSecret sc text ↔ LeavesNoSecret sc text) ∧
      (KeepsNoSecret sc text → StableUnderRescan sc text) := by
  have hleaves : KeepsNoSecret sc text ↔ LeavesNoSecret sc text := by
    constructor
    · intro hkeeps out hscan
      rcases redacted_iff_pieces.1 hscan with ⟨ds, ps, hds, hne, hhigh, hps, rfl⟩
      exact (holdsNoSecret_render_iff hps).2 (hkeeps ds ps hds hne hhigh hps)
    · intro hleaves ds ps hds hne hhigh hps
      have hscan : RedactionEngine.scan sc text = some (.redacted (ps.flatMap Piece.render)) :=
        redacted_iff_pieces.2 ⟨ds, ps, hds, hne, hhigh, hps, rfl⟩
      exact (holdsNoSecret_render_iff hps).1 (hleaves _ hscan)
  refine ⟨hleaves, ?_⟩
  intro hkeeps out hscan
  exact scan_ne_drop_of_holdsNoSecret (hleaves.1 hkeeps out hscan)

/-- An address between two words. -/
theorem address_stable :
    KeepsNoSecret .reference "mail alice@example.com today".toList ∧
      StableUnderRescan .reference "mail alice@example.com today".toList := by
  have hdetect : detectAll .reference "mail alice@example.com today".toList =
      some [⟨5, 22, .email, .high⟩] := by decide +kernel
  have hpieces : piecesFrom "mail alice@example.com today".toList 0 [⟨5, 22, .email, .high⟩] =
      some [.kept "mail ".toList, .marker .email, .kept " today".toList] := by decide +kernel
  have hkeeps : KeepsNoSecret .reference "mail alice@example.com today".toList := by
    intro ds ps hds _ _ hps k hk m hm
    rw [hdetect] at hds
    cases hds
    rw [hpieces] at hps
    cases hps
    have hshort : k.text.length < (highEntropyCandidate Scanner.reference.classes).minLength := by
      simp only [stretches, List.mem_cons, List.not_mem_nil, or_false] at hk
      rcases hk with rfl | rfl <;> decide
    rw [findIter_of_short hshort] at hm
    cases hm
  exact ⟨hkeeps, (stableUnderRescan_of_keepsNoSecret .reference _).2 hkeeps⟩

/-- A secret behind an e-mail address: the candidate reaches from the domain over the slash, the
redaction cuts the address out and keeps the secret. -/
theorem secret_after_email_dropped_on_rescan :
    ¬ StableUnderRescan .reference "git@github.com/xK9mQ2vP7zR4wN8tL1bH5cD3".toList := by
  intro hstable
  have hscan : RedactionEngine.scan .reference "git@github.com/xK9mQ2vP7zR4wN8tL1bH5cD3".toList =
      some (.redacted "[REDACTED:email]/xK9mQ2vP7zR4wN8tL1bH5cD3".toList) := by decide +kernel
  have hrescan : RedactionEngine.scan .reference
      "[REDACTED:email]/xK9mQ2vP7zR4wN8tL1bH5cD3".toList = some .drop := by decide +kernel
  exact hstable _ hscan hrescan

end Redaction
end HiddenSteps
