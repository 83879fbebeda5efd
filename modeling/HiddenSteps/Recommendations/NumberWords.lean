import HiddenSteps.Recommendations.Validate
import HiddenSteps.Text.Words
import Mathlib.Data.List.Nodup

/-!
# NumberWords — words that stand for a number, and the keywords behind them

The tables below say what a number word stands for.  `onesWordValue_iff` and `tensWordValue_iff`
compare the lookups of `Validate` with them, the rest is what tells the words of a narrative apart.
-/

namespace HiddenSteps
namespace Recommendations

open Text

/-! ## Numbers as words -/

def unitNumbers : List (String × Nat) :=
  [("one", 1), ("two", 2), ("three", 3), ("four", 4), ("five", 5), ("six", 6), ("seven", 7),
    ("eight", 8), ("nine", 9)]

def teenNumbers : List (String × Nat) :=
  [("ten", 10), ("eleven", 11), ("twelve", 12), ("thirteen", 13), ("fourteen", 14),
    ("fifteen", 15), ("sixteen", 16), ("seventeen", 17), ("eighteen", 18), ("nineteen", 19)]

def tensNumbers : List (String × Nat) :=
  [("twenty", 20), ("thirty", 30), ("forty", 40), ("fifty", 50), ("sixty", 60), ("seventy", 70),
    ("eighty", 80), ("ninety", 90)]

def spelledNumbers : List (String × Nat) :=
  unitNumbers ++ teenNumbers ++ tensNumbers

def adverbNumbers : List (String × Nat) := [("once", 1), ("twice", 2)]

theorem unitNumbers_spelled : unitNumbers ⊆ spelledNumbers := by
  intro e he
  exact List.mem_append_left _ (List.mem_append_left _ he)

theorem teenNumbers_spelled : teenNumbers ⊆ spelledNumbers := by
  intro e he
  exact List.mem_append_left _ (List.mem_append_right _ he)

theorem tensNumbers_spelled : tensNumbers ⊆ spelledNumbers :=
  List.subset_append_right _ _

/-- The word stands for the number, in any letter case. -/
def NumberWord (numbers : List (String × Nat)) (w : List Char) (n : Nat) : Prop :=
  ∃ e ∈ numbers, e.2 = n ∧ lowercased w = e.1.toList

theorem NumberWord.of_subset {numbers numbers' : List (String × Nat)} {w : List Char} {n : Nat}
    (h : NumberWord numbers w n) (hsub : numbers ⊆ numbers') : NumberWord numbers' w n := by
  rcases h with ⟨e, he, hn, hw⟩
  exact ⟨e, hsub he, hn, hw⟩

/-- A word stands for one number. -/
theorem NumberWord.unique {numbers : List (String × Nat)} {w : List Char} {m n : Nat}
    (hm : NumberWord numbers w m) (hn : NumberWord numbers w n)
    (hsub : numbers ⊆ spelledNumbers ++ adverbNumbers) : m = n := by
  have htable : ∀ e ∈ spelledNumbers ++ adverbNumbers, ∀ e' ∈ spelledNumbers ++ adverbNumbers,
      e.1 = e'.1 → e.2 = e'.2 := by decide
  rcases hm with ⟨e, he, rfl, hw⟩
  rcases hn with ⟨e', he', rfl, hw'⟩
  exact htable e (hsub he) e' (hsub he') (String.toList_inj.1 (hw.symm.trans hw'))

theorem NumberWord.not_adverb {w : List Char} {m n : Nat} (hm : NumberWord spelledNumbers w m) :
    ¬ NumberWord adverbNumbers w n := by
  have htable : ∀ e ∈ spelledNumbers, ∀ e' ∈ adverbNumbers, e.1 ≠ e'.1 := by decide
  rcases hm with ⟨e, he, -, hw⟩
  rintro ⟨e', he', -, hw'⟩
  exact htable e he e' he' (String.toList_inj.1 (hw.symm.trans hw'))

/-- Looking a word up in a list that counts up is reading it in the table. -/
theorem wordValue_iff {words : List String} {first step : Nat} {numbers : List (String × Nat)}
    (hnodup : words.Nodup)
    (hnumbers : numbers = words.zipIdx.map fun e => (e.1, first + step * e.2)) {w : List Char}
    {n : Nat} : wordValue words first step w = some n ↔ NumberWord numbers w n := by
  subst hnumbers
  rw [wordValue, Option.map_eq_some_iff]
  constructor
  · rintro ⟨i, hi, rfl⟩
    rcases List.findIdx?_eq_some_iff_getElem.1 hi with ⟨hlt, hword, -⟩
    refine ⟨(words[i], first + step * i), ?_, rfl, (beq_iff_eq.1 hword).symm⟩
    exact List.mem_map.2 ⟨(words[i], i), List.mem_zipIdx_iff_getElem?.2 (by simp), rfl⟩
  · rintro ⟨_, he, rfl, hw⟩
    rcases List.mem_map.1 he with ⟨⟨s, i⟩, hmem, rfl⟩
    rcases List.getElem?_eq_some_iff.1 (List.mem_zipIdx_iff_getElem?.1 hmem) with ⟨hlt, hs⟩
    refine ⟨i, List.findIdx?_eq_some_iff_getElem.2 ⟨hlt, ?_, ?_⟩, rfl⟩
    · exact beq_iff_eq.2 (by rw [hs, hw])
    · intro j hj hfound
      have hsame : words[j] = words[i] := by
        apply String.toList_inj.1
        rw [hs, ← hw, beq_iff_eq.1 hfound]
      have hidx := (List.Nodup.getElem_inj_iff hnodup).1 hsame
      omega

theorem onesWordValue_iff {w : List Char} {n : Nat} :
    onesWordValue w = some n ↔ NumberWord (unitNumbers ++ teenNumbers) w n :=
  wordValue_iff (by decide) (by decide)

theorem tensWordValue_iff {w : List Char} {n : Nat} :
    tensWordValue w = some n ↔ NumberWord tensNumbers w n :=
  wordValue_iff (by decide) (by decide)

/-- The value that a single word is looked up for. -/
theorem singleWordValue_iff {w : List Char} {n : Nat} :
    (onesWordValue w).or (tensWordValue w) = some n ↔ NumberWord spelledNumbers w n := by
  have hleft : unitNumbers ++ teenNumbers ⊆ spelledNumbers := List.subset_append_left _ _
  have hright : tensNumbers ⊆ spelledNumbers := List.subset_append_right _ _
  constructor
  · intro h
    rcases Option.or_eq_some_iff.1 h with h | ⟨-, h⟩
    · exact (onesWordValue_iff.1 h).of_subset hleft
    · exact (tensWordValue_iff.1 h).of_subset hright
  · intro h
    cases hones : onesWordValue w with
    | some m =>
        have hm := (onesWordValue_iff.1 hones).of_subset hleft
        rw [Option.some_or, hm.unique h (List.subset_append_left _ _)]
    | none =>
        rcases h with ⟨e, he, hn, hw⟩
        rcases List.mem_append.1 he with he | he
        · rw [onesWordValue_iff.2 ⟨e, he, hn, hw⟩] at hones
          cases hones
        · exact tensWordValue_iff.2 ⟨e, he, hn, hw⟩

/-! ## Keywords -/

def keywords : List String := ["times", "occurrences", "instances"]

/-- A keyword as the patterns read it. -/
def Keyword (k : List Char) : Prop :=
  ∃ s ∈ keywords, Spells s k

/-- The words that say a count. -/
def countWords : List String :=
  (spelledNumbers ++ adverbNumbers).map Prod.fst

/-- The words the patterns are made of. -/
def vocabulary : List String :=
  countWords ++ keywords

theorem countWords_subset : countWords ⊆ vocabulary :=
  List.subset_append_left _ _

theorem keywords_subset : keywords ⊆ vocabulary :=
  List.subset_append_right _ _

theorem spelledNumbers_subset : spelledNumbers.map Prod.fst ⊆ countWords :=
  List.map_subset _ (List.subset_append_left _ _)

theorem adverbNumbers_subset : adverbNumbers.map Prod.fst ⊆ countWords :=
  List.map_subset _ (List.subset_append_right _ _)

theorem unitNumbers_subset : unitNumbers.map Prod.fst ⊆ countWords :=
  List.Subset.trans (List.map_subset _ unitNumbers_spelled) spelledNumbers_subset

theorem teenNumbers_subset : teenNumbers.map Prod.fst ⊆ countWords :=
  List.Subset.trans (List.map_subset _ teenNumbers_spelled) spelledNumbers_subset

theorem tensNumbers_subset : tensNumbers.map Prod.fst ⊆ countWords :=
  List.Subset.trans (List.map_subset _ tensNumbers_spelled) spelledNumbers_subset

theorem vocabulary_letters : ∀ s ∈ vocabulary, s.toList ≠ [] ∧
    ∀ c ∈ s.toList, c.isLower = true ∧ c ≠ 'k' := by
  have hall : ∀ s ∈ vocabulary, s.toList ≠ [] ∧
      s.toList.all (fun c => c.isLower = true ∧ c ≠ 'k') = true := by decide
  exact fun s hs => ⟨(hall s hs).1, List.all_iff_forall_prop.1 (hall s hs).2⟩

theorem lower_ascii {c : Char} (h : c.isLower = true) : c.toNat < 128 ∧ c.toLower = c := by
  have hall : ∀ n : Fin 128, (Char.ofNat n).isLower = true →
      (Char.ofNat n).toLower = Char.ofNat n := by decide
  have hlt : c.toNat < 128 := by
    have hbounds : (decide ('a'.val ≤ c.val) && decide (c.val ≤ 'z'.val)) = true := h
    have hle : c.toNat ≤ 'z'.toNat :=
      UInt32.le_iff_toNat_le.1 (of_decide_eq_true (Bool.and_eq_true_iff.1 hbounds).2)
    have hz : 'z'.toNat = 122 := rfl
    omega
  have hc := hall ⟨c.toNat, hlt⟩
  simp only [Char.ofNat_toNat] at hc
  exact ⟨hlt, hc h⟩

theorem map_toLower_of_mem {s : String} (hs : s ∈ vocabulary) :
    s.toList.map Char.toLower = s.toList := by
  have hletters := (vocabulary_letters s hs).2
  calc
    s.toList.map Char.toLower = s.toList.map id :=
      List.map_congr_left fun c hc => (lower_ascii (hletters c hc).1).2
    _ = s.toList := List.map_id _

/-- A word of the vocabulary in some letter case is spelled. -/
theorem spells_of_lowercased {s : String} (hs : s ∈ vocabulary) {w : List Char}
    (hw : lowercased w = s.toList) : Spells s w := by
  have hfold : w.map foldCase = w.map Char.toLower := by
    refine List.map_congr_left fun c hc => ?_
    have hmem : c.toLower ∈ s.toList := by
      rw [← hw]
      exact List.mem_map_of_mem hc
    have hascii := (lower_ascii ((vocabulary_letters s hs).2 _ hmem).1).1
    -- the two characters that fold beyond ASCII are their own lower case
    have hne : ∀ x : Char, x.toLower = x → ¬ x.toNat < 128 → c ≠ x := by
      rintro x hx hlarge rfl
      rw [hx] at hascii
      exact hlarge hascii
    have hlong : c ≠ '\u017F' := hne _ (by decide) (by decide)
    have hkelvin : c ≠ '\u212A' := hne _ (by decide) (by decide)
    rw [foldCase, if_neg hlong, if_neg hkelvin]
  rw [Spells, map_toLower_of_mem hs, hfold]
  exact hw

/-- What `\w` and `\s` are beyond the values on ASCII. -/
structure WordTable (u : UnicodeClasses) : Prop where
  space_apart : ∀ c, u.isSpace c = true → u.isWord c = false
  long_s : u.isWord '\u017F' = true

theorem ne_long_s {c : Char} (hc : c.toNat < 128) : (c == '\u017F') = false := by
  rw [beq_eq_false_iff_ne]
  rintro rfl
  exact absurd hc (by decide)

/-- The classes restricted to ASCII and the long s. -/
def asciiAndLongS : UnicodeClasses where
  isDecimal c := c.isDigit
  isWord c := c.isAlphanum || c == '_' || c == '\u017F'
  isSpace c := c == ' ' || (9 ≤ c.toNat && c.toNat ≤ 13)
  decimal_ascii _ _ := rfl
  word_ascii c hc := by rw [ne_long_s hc, Bool.or_false]
  space_ascii := UnicodeClasses.asciiAndArabicIndic.space_ascii
  word_of_decimal c hc := by rw [Char.isAlphanum, hc, Bool.or_true, Bool.true_or, Bool.true_or]

theorem wordTable_asciiAndLongS : WordTable asciiAndLongS where
  space_apart c hc := by
    have hall : ∀ n : Fin 128, asciiAndLongS.isSpace (Char.ofNat n) = true →
        asciiAndLongS.isWord (Char.ofNat n) = false := by decide
    have hlt : c.toNat < 128 := by
      simp only [asciiAndLongS, Bool.or_eq_true, Bool.and_eq_true, decide_eq_true_eq,
        beq_iff_eq] at hc
      rcases hc with rfl | hc
      · decide
      · omega
    have hc' := hall ⟨c.toNat, hlt⟩
    simp only [Char.ofNat_toNat] at hc'
    exact hc' hc
  long_s := by decide

section Letters

variable {u : UnicodeClasses} {s : String} {w : List Char}

theorem letters_of_spells (hs : s ∈ vocabulary) (hw : Spells s w) :
    w ≠ [] ∧ ∀ c ∈ w, (foldCase c).isLower = true ∧ foldCase c ≠ 'k' := by
  rw [Spells, map_toLower_of_mem hs] at hw
  rcases vocabulary_letters s hs with ⟨hne, hletters⟩
  constructor
  · rintro rfl
    exact hne hw.symm
  · intro c hc
    apply hletters
    rw [← hw]
    exact List.mem_map_of_mem hc

/-- Its letters are word characters. -/
theorem word_of_spells (hu : WordTable u) (hs : s ∈ vocabulary) (hw : Spells s w) :
    ∀ c ∈ w, u.isWord c = true := by
  intro c hc
  rcases (letters_of_spells hs hw).2 c hc with ⟨hlower, hk⟩
  by_cases hlong : c = '\u017F'
  · rw [hlong]
    exact hu.long_s
  · have hascii : c.toNat < 128 := by
      by_contra hnot
      have hfold : foldCase c = c := by
        by_cases hkelvin : c = '\u212A'
        · exact absurd (by rw [hkelvin]; rfl) hk
        · rw [foldCase, if_neg hlong, if_neg hkelvin]
          exact toLower_of_not_ascii (Nat.le_of_not_lt hnot)
      rw [hfold] at hlower
      exact hnot (lower_ascii hlower).1
    have hall : ∀ n : Fin 128, (foldCase (Char.ofNat n)).isLower = true →
        (Char.ofNat n).isAlphanum = true := by decide
    have hc := hall ⟨c.toNat, hascii⟩
    simp only [Char.ofNat_toNat] at hc
    rw [u.word_ascii c hascii, hc hlower]
    rfl

/-- Letters are no digits. -/
theorem not_decimal_of_lower {c : Char} (h : c.toLower.isLower = true) :
    u.isDecimal c = false := by
  have hascii : c.toNat < 128 := by
    by_contra hnot
    rw [toLower_of_not_ascii (Nat.le_of_not_lt hnot)] at h
    exact hnot (lower_ascii h).1
  have hall : ∀ n : Fin 128, (Char.ofNat n).toLower.isLower = true →
      (Char.ofNat n).isDigit = false := by decide
  have hc := hall ⟨c.toNat, hascii⟩
  simp only [Char.ofNat_toNat] at hc
  rw [u.decimal_ascii c hascii, hc h]

end Letters

namespace Keyword

variable {u : UnicodeClasses} {k k' : List Char}

theorem ne_nil (h : Keyword k) : k ≠ [] := by
  rcases h with ⟨s, hs, hk⟩
  exact (letters_of_spells (keywords_subset hs) hk).1

theorem word (h : Keyword k) (hu : WordTable u) : ∀ c ∈ k, u.isWord c = true := by
  rcases h with ⟨s, hs, hk⟩
  exact word_of_spells hu (keywords_subset hs) hk

/-- No keyword ends another one. -/
theorem eq_of_suffix (h : Keyword k) (h' : Keyword k') (hsuffix : k <:+ k') : k = k' := by
  have htable : ∀ s ∈ keywords, ∀ s' ∈ keywords, s.toList <:+ s'.toList →
      s.toList.length = s'.toList.length := by decide
  rcases h with ⟨s, hs, hk⟩
  rcases h' with ⟨s', hs', hk'⟩
  rw [Spells, map_toLower_of_mem (keywords_subset hs)] at hk
  rw [Spells, map_toLower_of_mem (keywords_subset hs')] at hk'
  have hlen := htable s hs s' hs' (by rw [← hk, ← hk']; exact hsuffix.map foldCase)
  rw [← hk, ← hk', List.length_map, List.length_map] at hlen
  exact hsuffix.eq_of_length hlen

/-- A keyword has an `e`. -/
theorem not_decimal (h : Keyword k) : ∃ c ∈ k, u.isDecimal c = false := by
  have htable : ∀ s ∈ keywords, 'e' ∈ s.toList := by decide
  rcases h with ⟨s, hs, hk⟩
  rw [Spells, map_toLower_of_mem (keywords_subset hs)] at hk
  have hmem := htable s hs
  rw [← hk] at hmem
  rcases List.mem_map.1 hmem with ⟨c, hc, hfold⟩
  have hlower := (toLower_of_foldCase hfold (by decide) (by decide) (by decide)).2
  exact ⟨c, hc, not_decimal_of_lower (by rw [hlower]; rfl)⟩

end Keyword

/-! ## Words in front of a keyword -/

/-- A word that does not end in a keyword. -/
structure Head (u : UnicodeClasses) (x : List Char) : Prop where
  ne_nil : x ≠ []
  word : ∀ c ∈ x, u.isWord c = true
  apart : ∀ k, Keyword k → ¬ k <:+ x

/-- A decimal numeral, its digits from any script. -/
def Numeral (u : UnicodeClasses) (x : List Char) : Prop :=
  x ≠ [] ∧ ∀ c ∈ x, u.isDecimal c = true

/-- A word that says a count, as the patterns read it. -/
def CountWord (x : List Char) : Prop :=
  ∃ s ∈ countWords, Spells s x

section Heads

variable {u : UnicodeClasses} {x : List Char}

theorem Numeral.head (h : Numeral u x) : Head u x := by
  refine ⟨h.1, fun c hc => u.word_of_decimal c (h.2 c hc), fun k hk hsuffix => ?_⟩
  rcases hk.not_decimal (u := u) with ⟨c, hc, hnot⟩
  rw [h.2 c (hsuffix.subset hc)] at hnot
  cases hnot

theorem CountWord.head (h : CountWord x) (hu : WordTable u) : Head u x := by
  have htable : ∀ s ∈ countWords, ∀ s' ∈ keywords, ¬ s'.toList <:+ s.toList := by
    decide
  rcases h with ⟨s, hs, hx⟩
  have hmem := countWords_subset hs
  refine ⟨(letters_of_spells hmem hx).1, word_of_spells hu hmem hx, ?_⟩
  rintro k ⟨s', hs', hk⟩ hsuffix
  rw [Spells, map_toLower_of_mem hmem] at hx
  rw [Spells, map_toLower_of_mem (keywords_subset hs')] at hk
  apply htable s hs s' hs'
  rw [← hx, ← hk]
  exact hsuffix.map foldCase

theorem NumberWord.spells {numbers : List (String × Nat)} {n : Nat} (h : NumberWord numbers x n)
    (hsub : numbers.map Prod.fst ⊆ countWords) :
    ∃ s ∈ numbers.map Prod.fst, Spells s x := by
  rcases h with ⟨e, he, -, hx⟩
  have hmem : e.1 ∈ numbers.map Prod.fst := List.mem_map_of_mem he
  exact ⟨e.1, hmem, spells_of_lowercased (countWords_subset (hsub hmem)) hx⟩

theorem NumberWord.head {numbers : List (String × Nat)} {n : Nat} (h : NumberWord numbers x n)
    (hsub : numbers.map Prod.fst ⊆ countWords) (hu : WordTable u) : Head u x := by
  rcases h.spells hsub with ⟨s, hs, hx⟩
  exact CountWord.head ⟨s, hsub hs, hx⟩ hu

/-- A number word is no numeral. -/
theorem NumberWord.not_numeral {numbers : List (String × Nat)} {n : Nat}
    (h : NumberWord numbers x n) (hsub : numbers.map Prod.fst ⊆ countWords) : ¬ Numeral u x := by
  rcases h with ⟨e, he, -, hx⟩
  have hmem : e.1 ∈ vocabulary := countWords_subset (hsub (List.mem_map_of_mem he))
  rintro ⟨hne, hdecimal⟩
  obtain ⟨c, cs, rfl⟩ := List.exists_cons_of_ne_nil hne
  have hlower : c.toLower ∈ e.1.toList := by
    rw [← hx]
    exact List.mem_cons_self
  have hnot := not_decimal_of_lower (u := u) ((vocabulary_letters _ hmem).2 _ hlower).1
  rw [hdecimal c List.mem_cons_self] at hnot
  cases hnot

end Heads

end Recommendations
end HiddenSteps
