import HiddenSteps.Redaction.DetectorLaws

/-!
# CardWindows — which digits of a candidate the Luhn search takes

A candidate of at most nineteen digits is searched through three windows: all its digits, all but
the last, all but the first.  `findLuhnValidWindow_eq` says so, and `holds_window_iff` when the
window that is found holds a given stretch of the digits.
-/

namespace HiddenSteps
namespace Redaction

open Text

/-- The ASCII digits of a text. -/
def asciiDigits (t : List Char) : List Char :=
  t.filter Char.isDigit

@[simp] theorem asciiDigits_append (s t : List Char) :
    asciiDigits (s ++ t) = asciiDigits s ++ asciiDigits t :=
  List.filter_append ..

/-- A non-empty word of ASCII digits. -/
structure Digits (D : List Char) : Prop where
  ne_nil : D ≠ []
  digit : ∀ c ∈ D, c.isDigit = true

theorem Digits.asciiDigits {D : List Char} (h : Digits D) : asciiDigits D = D :=
  List.filter_eq_self.2 h.digit

/-! ## The digits of a candidate -/

/-- The digits of a candidate with the bytes where they stand. -/
def digitPositions (candidate : List Char) (start : Nat) : List (Char × Nat) :=
  (charIndices start candidate).filter fun p => p.1.isDigit

theorem charIndices_append (s t : List Char) (start : Nat) :
    charIndices start (s ++ t) = charIndices start s ++ charIndices (start + byteLen s) t := by
  induction s generalizing start with
  | nil => simp [charIndices]
  | cons c s ih => simp [charIndices, ih, Nat.add_assoc]

theorem digitPositions_append (s t : List Char) (start : Nat) :
    digitPositions (s ++ t) start =
      digitPositions s start ++ digitPositions t (start + byteLen s) := by
  rw [digitPositions, charIndices_append, List.filter_append]
  rfl

theorem map_fst_digitPositions (t : List Char) (start : Nat) :
    (digitPositions t start).map Prod.fst = asciiDigits t := by
  induction t generalizing start with
  | nil => rfl
  | cons c t ih =>
      have hcons : (digitPositions (c :: t) start).map Prod.fst =
          if c.isDigit then c :: asciiDigits t else asciiDigits t := by
        rw [← ih (start + c.utf8Size)]
        simp only [digitPositions, charIndices, List.filter_cons]
        split <;> rfl
      rw [hcons, asciiDigits, asciiDigits, List.filter_cons]

theorem length_digitPositions (t : List Char) (start : Nat) :
    (digitPositions t start).length = (asciiDigits t).length := by
  rw [← map_fst_digitPositions t start, List.length_map]

theorem digitPositions_sorted (t : List Char) (start : Nat) :
    (digitPositions t start).Pairwise fun p q => p.2 < q.2 :=
  (charIndices_sorted t start).sublist List.filter_sublist

/-- Digits stand one byte apart, so the first and the last one tell where a word of digits lies. -/
theorem Digits.ends {D : List Char} (h : Digits D) (start : Nat) :
    ∃ first ps ps' last, digitPositions D start = first :: ps ∧ first.2 = start ∧
      digitPositions D start = ps' ++ [last] ∧ last.2 + 1 = start + byteLen D := by
  obtain ⟨c, cs, hcs⟩ := List.exists_cons_of_ne_nil h.ne_nil
  obtain ⟨ds, d, hds⟩ : ∃ ds d, D = ds ++ [d] :=
    ⟨D.dropLast, D.getLast h.ne_nil, (List.dropLast_append_getLast h.ne_nil).symm⟩
  have hc : c.isDigit = true := h.digit c (by rw [hcs]; exact List.mem_cons_self)
  have hd : d.isDigit = true := h.digit d (by rw [hds]; simp)
  refine ⟨(c, start), digitPositions cs (start + c.utf8Size), digitPositions ds start,
    (d, start + byteLen ds), ?_, rfl, ?_, ?_⟩
  · rw [hcs]
    simp [digitPositions, charIndices, hc]
  · rw [hds, digitPositions_append]
    simp [digitPositions, charIndices, hd]
  · rw [hds, byteLen_append]
    simp [utf8Size_of_isDigit hd, Nat.add_assoc]

/-! ## The search -/

/-- From the first to behind the last digit of a window. -/
def windowSpan (window : List (Char × Nat)) : Span :=
  ⟨(window.head?.map Prod.snd).getD 0, (window.getLast?.map Prod.snd).getD 0 + 1⟩

theorem luhnValid_of_short {digits : List Char} (h : digits.length < 13) :
    luhnValid digits = false := by
  have hle : (digits.filterMap toDigit).length ≤ digits.length := List.length_filterMap_le ..
  rw [luhnValid, if_pos (by omega)]

theorem luhnWindow_eq {positions : List (Char × Nat)} {len i : Nat} (hlen : 0 < len)
    (hi : i + len ≤ positions.length) :
    luhnWindow positions len i =
      if luhnValid (((positions.drop i).take len).map Prod.fst) then
        some (some (windowSpan ((positions.drop i).take len)))
      else some none := by
  have hwindow : windowAt positions i len = some ((positions.drop i).take len) := by
    rw [windowAt, if_pos hi]
  generalize (positions.drop i).take len = window at hwindow ⊢
  have hne : window ≠ [] := by
    apply List.ne_nil_of_length_pos
    rw [(windowAt_eq_some hwindow).2]
    exact hlen
  rcases Option.isSome_iff_exists.1 (List.isSome_head?.2 hne) with ⟨first, hfirst⟩
  rcases Option.isSome_iff_exists.1 (List.getLast?_isSome.2 hne) with ⟨last, hlast⟩
  simp only [luhnWindow, hwindow, hfirst, hlast, windowSpan, bind, Option.bind_some,
    Option.map_some, Option.getD_some]

/-- The window that is found among all digits, all but the last and all but the first. -/
def firstLuhnWindow (positions : List (Char × Nat)) : Option Span :=
  if luhnValid (positions.map Prod.fst) then some (windowSpan positions)
  else if luhnValid (positions.dropLast.map Prod.fst) then some (windowSpan positions.dropLast)
  else if luhnValid (positions.tail.map Prod.fst) then some (windowSpan positions.tail)
  else none

/-- Nineteen digits or fewer are searched through three windows. -/
theorem findLuhnValidWindow_eq {candidate : List Char} {start : Nat}
    (h : (asciiDigits candidate).length ≤ 19) :
    findLuhnValidWindow candidate start =
      some (firstLuhnWindow (digitPositions candidate start)) := by
  rw [← length_digitPositions candidate start] at h
  unfold findLuhnValidWindow firstLuhnWindow
  rw [← digitPositions]
  generalize digitPositions candidate start = ps at h ⊢
  have hdrop : ps.dropLast = ps.take (ps.length - 1) := List.dropLast_eq_take
  have htail : ps.tail = ps.drop 1 := List.drop_one.symm
  by_cases hshort : ps.length < 13
  · -- no window is long enough
    rw [if_pos hshort, luhnValid_of_short (by simpa using hshort),
      luhnValid_of_short (by rw [List.length_map, List.length_dropLast]; omega),
      luhnValid_of_short (by rw [List.length_map, List.length_tail]; omega)]
    rfl
  · rw [if_neg hshort, Nat.min_eq_left h]
    have hall : luhnWindow ps ps.length 0 =
        if luhnValid (ps.map Prod.fst) then some (some (windowSpan ps)) else some none := by
      rw [luhnWindow_eq (by omega) (by omega), List.drop_zero, List.take_length]
    rcases Nat.lt_or_eq_of_le (Nat.not_lt.1 hshort) with hlong | hthirteen
    · -- all digits, and the two windows one digit shorter
      have hlens : (List.range' (max (ps.length - 1) 13)
          (ps.length + 1 - max (ps.length - 1) 13)).reverse = [ps.length, ps.length - 1] := by
        rw [Nat.max_eq_left (by omega), show ps.length + 1 - (ps.length - 1) = 2 by omega]
        simp only [List.range', List.reverse_cons, List.reverse_nil, List.nil_append,
          List.cons_append, List.cons.injEq, and_true]
        omega
      have hfirst : luhnWindow ps (ps.length - 1) 0 =
          if luhnValid (ps.dropLast.map Prod.fst) then some (some (windowSpan ps.dropLast))
          else some none := by
        rw [luhnWindow_eq (by omega) (by omega), List.drop_zero, hdrop]
      have hsecond : luhnWindow ps (ps.length - 1) 1 =
          if luhnValid (ps.tail.map Prod.fst) then some (some (windowSpan ps.tail))
          else some none := by
        rw [luhnWindow_eq (by omega) (by omega), htail, List.take_of_length_le (by simp)]
      dsimp only
      rw [hlens]
      simp only [firstOf, checkedSub, Nat.le_refl, Nat.sub_le, if_true, Nat.sub_self,
        show ps.length - (ps.length - 1) = 1 by omega, bind, Option.bind_some, List.range_succ,
        List.range_zero, List.nil_append, List.cons_append, hall, hfirst, hsecond]
      split_ifs <;> rfl
    · -- thirteen digits are the only window
      have hlens : (List.range' (max (ps.length - 1) 13)
          (ps.length + 1 - max (ps.length - 1) 13)).reverse = [ps.length] := by
        rw [← hthirteen]
        rfl
      have hfirst : luhnValid (ps.dropLast.map Prod.fst) = false :=
        luhnValid_of_short (by rw [List.length_map, List.length_dropLast]; omega)
      have hsecond : luhnValid (ps.tail.map Prod.fst) = false :=
        luhnValid_of_short (by rw [List.length_map, List.length_tail]; omega)
      dsimp only
      rw [hlens, hfirst, hsecond, if_neg Bool.false_ne_true, if_neg Bool.false_ne_true]
      simp only [firstOf, checkedSub, Nat.le_refl, if_true, Nat.sub_self, bind, Option.bind_some,
        List.range_succ, List.range_zero, List.nil_append, hall]
      split_ifs <;> rfl

/-! ## Which window holds a stretch of digits -/

/-- Among the digits `x ++ D ++ y`, the first window that passes holds all of `D`. -/
def FirstWindowHolds (x D y : List Char) : Prop :=
  luhnValid (x ++ D ++ y) = true ∨
    (luhnValid (x ++ D ++ y).dropLast = true ∧ y ≠ []) ∨
    (luhnValid (x ++ D ++ y).dropLast = false ∧ luhnValid (x ++ D ++ y).tail = true ∧ x ≠ [])

instance (x D y : List Char) : Decidable (FirstWindowHolds x D y) :=
  inferInstanceAs (Decidable (_ ∨ _ ∨ _))

/-- The span holds the bytes from `i` to `j`. -/
def Holds (s : Span) (i j : Nat) : Prop :=
  s.start ≤ i ∧ j ≤ s.stop

section Window

variable {window : List (Char × Nat)} {p : Char × Nat}

theorem windowSpan_start_le (hsorted : window.Pairwise fun p q => p.2 < q.2) (hp : p ∈ window) :
    (windowSpan window).start ≤ p.2 := by
  cases window with
  | nil => cases hp
  | cons q window =>
      show q.2 ≤ p.2
      rcases List.mem_cons.1 hp with rfl | hp
      · exact Nat.le_refl _
      · exact Nat.le_of_lt ((List.pairwise_cons.1 hsorted).1 p hp)

theorem lt_windowSpan_stop (hsorted : window.Pairwise fun p q => p.2 < q.2) (hp : p ∈ window) :
    p.2 < (windowSpan window).stop := by
  obtain ⟨window, q, rfl⟩ : ∃ ps q, window = ps ++ [q] := by
    have hne := List.ne_nil_of_mem hp
    exact ⟨window.dropLast, window.getLast hne, (List.dropLast_append_getLast hne).symm⟩
  have hstop : (windowSpan (window ++ [q])).stop = q.2 + 1 := by simp [windowSpan]
  rw [hstop]
  rcases List.mem_append.1 hp with hp | hp
  · have hlt := (List.pairwise_append.1 hsorted).2.2 p hp q (List.mem_singleton_self q)
    omega
  · rcases List.mem_singleton.1 hp with rfl
    exact Nat.lt_succ_self _

/-- A window with the first and the last digit of a stretch holds the stretch. -/
theorem holds_of_mem {first last : Char × Nat} (hsorted : window.Pairwise fun p q => p.2 < q.2)
    (hfirst : first ∈ window) (hlast : last ∈ window) :
    Holds (windowSpan window) first.2 (last.2 + 1) :=
  ⟨windowSpan_start_le hsorted hfirst, lt_windowSpan_stop hsorted hlast⟩

/-- Without its last digit, a window holds the digits up to `last` when others follow them. -/
theorem holds_dropLast_iff {ps S : List (Char × Nat)} {first last : Char × Nat}
    (hsorted : (ps ++ [last] ++ S).Pairwise fun p q => p.2 < q.2) (hfirst : first ∈ ps ++ [last])
    (hne : (ps ++ [last] ++ S).dropLast ≠ []) :
    Holds (windowSpan (ps ++ [last] ++ S).dropLast) first.2 (last.2 + 1) ↔ S ≠ [] := by
  constructor
  · rintro ⟨-, hstop⟩ rfl
    rw [List.append_nil, List.dropLast_concat] at hne hstop
    rw [List.append_nil] at hsorted
    -- the window ends with a digit in front of `last`
    have hq := List.getLast_mem hne
    have hlt := (List.pairwise_append.1 hsorted).2.2 _ hq last (List.mem_singleton_self _)
    have hspan : (windowSpan ps).stop = (ps.getLast hne).2 + 1 := by
      simp [windowSpan, List.getLast?_eq_some_getLast hne]
    omega
  · intro hS
    have hcut : (ps ++ [last] ++ S).dropLast = ps ++ [last] ++ S.dropLast :=
      List.dropLast_append_of_ne_nil hS
    refine holds_of_mem (hsorted.sublist (List.dropLast_sublist _)) ?_ ?_
    · rw [hcut]
      exact List.mem_append_left _ hfirst
    · rw [hcut]
      simp

/-- Without its first digit, a window holds the digits from `first` on when others precede them. -/
theorem holds_tail_iff {P ps : List (Char × Nat)} {first last : Char × Nat}
    (hsorted : (P ++ first :: ps).Pairwise fun p q => p.2 < q.2) (hlast : last ∈ first :: ps)
    (hne : (P ++ first :: ps).tail ≠ []) :
    Holds (windowSpan (P ++ first :: ps).tail) first.2 (last.2 + 1) ↔ P ≠ [] := by
  cases P with
  | nil =>
      simp only [List.nil_append, List.tail_cons, ne_eq, not_true_eq_false, iff_false] at hne hsorted ⊢
      rintro ⟨hstart, -⟩
      obtain ⟨q, ps, rfl⟩ := List.exists_cons_of_ne_nil hne
      have hlt := (List.pairwise_cons.1 hsorted).1 q List.mem_cons_self
      have hspan : (windowSpan (q :: ps)).start = q.2 := rfl
      omega
  | cons q P =>
      simp only [ne_eq, reduceCtorEq, not_false_eq_true, iff_true]
      refine holds_of_mem (hsorted.sublist (List.tail_sublist _)) ?_ ?_
      · simp
      · exact List.mem_append_right P hlast

end Window

/-- The window that is found holds the digits `D` exactly when the first one that passes does. -/
theorem holds_window_iff {p D s : List Char} (hD : Digits D) (start : Nat) :
    (∃ span, firstLuhnWindow (digitPositions (p ++ D ++ s) start) = some span ∧
      Holds span (start + byteLen p) (start + byteLen (p ++ D))) ↔
      FirstWindowHolds (asciiDigits p) D (asciiDigits s) := by
  have hsorted := digitPositions_sorted (p ++ D ++ s) start
  have hmap := map_fst_digitPositions (p ++ D ++ s) start
  rw [asciiDigits_append, asciiDigits_append, hD.asciiDigits] at hmap
  rcases hD.ends (start + byteLen p) with ⟨first, qs, qs', last, hfirst, hbefore, hlast, hbehind⟩
  have hps : digitPositions (p ++ D ++ s) start = digitPositions p start ++
      digitPositions D (start + byteLen p) ++ digitPositions s (start + byteLen (p ++ D)) := by
    rw [digitPositions_append, digitPositions_append]
  have hstop : start + byteLen (p ++ D) = last.2 + 1 := by
    rw [hbehind, byteLen_append, Nat.add_assoc]
  -- there are digits before and behind `D` when there are positions of such
  have hx : asciiDigits p ≠ [] ↔ digitPositions p start ≠ [] := by
    rw [← map_fst_digitPositions p start, ne_eq, ne_eq, List.map_eq_nil_iff]
  have hy : asciiDigits s ≠ [] ↔ digitPositions s (start + byteLen (p ++ D)) ≠ [] := by
    rw [← map_fst_digitPositions s (start + byteLen (p ++ D)), ne_eq, ne_eq, List.map_eq_nil_iff]
  have hne : ∀ window : List (Char × Nat), luhnValid (window.map Prod.fst) = true → window ≠ [] := by
    rintro _ hvalid rfl
    cases hvalid
  rw [FirstWindowHolds, hx, hy]
  generalize digitPositions (p ++ D ++ s) start = ps at *
  generalize digitPositions p start = P at *
  generalize digitPositions s (start + byteLen (p ++ D)) = S at *
  generalize digitPositions D (start + byteLen p) = Q at *
  rw [hstop, ← hbefore]
  have hleft : ps = P ++ first :: (qs ++ S) := by simp [hps, hfirst]
  have hright : ps = P ++ qs' ++ [last] ++ S := by simp [hps, hlast]
  have hlastmem : last ∈ first :: (qs ++ S) := by
    rw [← List.cons_append, ← hfirst, hlast]
    simp
  have hfirstmem : first ∈ P ++ qs' ++ [last] := by
    rw [List.append_assoc, ← hlast, hfirst]
    simp
  rw [firstLuhnWindow, List.map_dropLast, List.map_tail, hmap]
  cases hall : luhnValid (asciiDigits p ++ D ++ asciiDigits s) with
  | true =>
      have hwhole : Holds (windowSpan ps) first.2 (last.2 + 1) :=
        holds_of_mem hsorted (by simp [hleft]) (by simp [hright])
      simpa using hwhole
  | false =>
      cases hdrop : luhnValid (asciiDigits p ++ D ++ asciiDigits s).dropLast with
      | true =>
          have hcut := hne ps.dropLast (by rw [List.map_dropLast, hmap]; exact hdrop)
          rw [hright] at hsorted hcut ⊢
          simpa using holds_dropLast_iff hsorted hfirstmem hcut
      | false =>
          cases htail : luhnValid (asciiDigits p ++ D ++ asciiDigits s).tail with
          | true =>
              have hcut := hne ps.tail (by rw [List.map_tail, hmap]; exact htail)
              rw [hleft] at hsorted hcut ⊢
              simpa using holds_tail_iff hsorted hlastmem hcut
          | false => simp

end Redaction
end HiddenSteps
