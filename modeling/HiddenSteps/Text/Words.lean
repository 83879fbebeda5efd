import HiddenSteps.Text.CharClasses
import HiddenSteps.Text.Language

/-!
# Words — literals, alternatives and what a greedy repetition prefers

* `reads_caseless`, `reads_any`: what fixed words and alternatives of them read;
* `run_star_cls_then`, `head_run_atLeast_cls`: a greedy repetition of a class takes all of the
  class that is there, unless what follows in the pattern needs some of it back.
-/

namespace HiddenSteps
namespace Text

variable {pre w post : List Char} {gs : List (Nat × Span)}

/-! ## Fixed words -/

/-- One class after the other. -/
theorem reads_classes {α : Type} (f : α → Char → Bool) (cs : List α) :
    Reads (.cat (cs.map fun c => .cls (f c))) pre w post gs ↔
      gs = [] ∧ List.Forall₂ (fun c x => f c x = true) cs w := by
  induction cs generalizing pre w gs with
  | nil =>
      constructor
      · rintro ⟨rfl, rfl⟩
        exact ⟨rfl, .nil⟩
      · rintro ⟨rfl, h⟩
        cases h
        exact ⟨rfl, rfl⟩
  | cons c cs ih =>
      cases cs with
      | nil =>
          constructor
          · rintro ⟨x, hx, rfl, rfl⟩
            exact ⟨rfl, .cons hx .nil⟩
          · rintro ⟨rfl, h⟩
            cases h with
            | cons hx h =>
                cases h
                exact ⟨_, hx, rfl, rfl⟩
      | cons c' cs =>
          constructor
          · rintro ⟨_, v, _, gv, rfl, rfl, ⟨x, hx, rfl, rfl⟩, hv⟩
            rcases ih.1 hv with ⟨rfl, hall⟩
            exact ⟨rfl, .cons hx hall⟩
          · rintro ⟨rfl, h⟩
            cases h with
            | @cons _ x _ v hx h =>
                exact ⟨[x], v, [], [], rfl, rfl, ⟨x, hx, rfl, rfl⟩, ih.2 ⟨rfl, h⟩⟩

/-- A character as a caseless literal sees it. -/
def foldCase (c : Char) : Char :=
  if c = '\u017F' then 's' else if c = '\u212A' then 'k' else c.toLower

theorem toLower_ascii {c : Char} (h : c.toNat < 128) : c.toLower.toNat < 128 := by
  have hall : ∀ n : Fin 128, (Char.ofNat n).toLower.toNat < 128 := by decide
  have hc := hall ⟨c.toNat, h⟩
  rwa [Char.ofNat_toNat] at hc

theorem toLower_of_not_ascii {c : Char} (h : 128 ≤ c.toNat) : c.toLower = c := by
  have hnot : ¬ (c.val ≥ 'A'.val ∧ c.val ≤ 'Z'.val) := by
    rintro ⟨-, hle⟩
    have hle : c.toNat ≤ 'Z'.toNat := UInt32.le_iff_toNat_le.1 hle
    have hz : 'Z'.toNat = 90 := rfl
    omega
  exact dif_neg hnot

/-- Folding makes an ASCII character of an ASCII character only, but for `s` and `k`. -/
theorem toLower_of_foldCase {c d : Char} (h : foldCase c = d) (hd : d.toNat < 128) (hs : d ≠ 's')
    (hk : d ≠ 'k') : c.toNat < 128 ∧ c.toLower = d := by
  unfold foldCase at h
  split at h
  · exact absurd h.symm hs
  · split at h
    · exact absurd h.symm hk
    · refine ⟨?_, h⟩
      by_contra hc
      rw [toLower_of_not_ascii (Nat.le_of_not_lt hc)] at h
      rw [h] at hc
      exact hc hd

theorem caselessEq_iff {c d : Char} (hc : c.toNat < 128) :
    caselessEq c d = true ↔ foldCase d = c.toLower := by
  have hlower := toLower_ascii hc
  have hnot : ∀ x : Char, 128 ≤ x.toNat → x ≠ c.toLower := by
    rintro x hx rfl
    omega
  have hlong : d.toNat = 0x17F ↔ d = '\u017F' :=
    ⟨fun h => Char.toNat_inj.1 (h.trans (by decide)), fun h => by rw [h]; rfl⟩
  have hkelvin : d.toNat = 0x212A ↔ d = '\u212A' :=
    ⟨fun h => Char.toNat_inj.1 (h.trans (by decide)), fun h => by rw [h]; rfl⟩
  simp only [caselessEq, foldCase, Bool.or_eq_true, Bool.and_eq_true, beq_iff_eq, hlong, hkelvin]
  by_cases hs : d = '\u017F'
  · subst hs
    have hne : '\u017F' ≠ c.toLower := hnot _ (by decide)
    simp [hne, eq_comm (a := 's')]
  · by_cases hk : d = '\u212A'
    · subst hk
      have hne : '\u212A' ≠ c.toLower := hnot _ (by decide)
      simp [hne, eq_comm (a := 'k')]
    · simp [hs, hk]

/-- The word spells the literal, up to case. -/
def Spells (s : String) (w : List Char) : Prop :=
  w.map foldCase = s.toList.map Char.toLower

instance (s : String) (w : List Char) : Decidable (Spells s w) :=
  inferInstanceAs (Decidable (_ = _))

theorem reads_caseless {s : String} (hs : ∀ c ∈ s.toList, c.toNat < 128) :
    Reads (.caseless s) pre w post gs ↔ gs = [] ∧ Spells s w := by
  rw [Pattern.caseless, reads_classes caselessEq s.toList, Spells]
  refine and_congr_right fun _ => ?_
  generalize s.toList = cs at hs ⊢
  induction cs generalizing w with
  | nil =>
      cases w with
      | nil => simp
      | cons x w => exact iff_of_false (by rintro ⟨⟩) (by rintro ⟨⟩)
  | cons c cs ih =>
      have hc := hs c List.mem_cons_self
      have ih := fun w => ih (w := w) fun d hd => hs d (List.mem_cons_of_mem _ hd)
      cases w with
      | nil => exact iff_of_false (by rintro ⟨⟩) (by rintro ⟨⟩)
      | cons x w => simp [List.forall₂_cons, caselessEq_iff hc, ih]

theorem spells_append {s t : String} :
    Spells (s ++ t) w ↔ ∃ v v', w = v ++ v' ∧ Spells s v ∧ Spells t v' := by
  simp only [Spells, String.toList_append, List.map_append]
  exact List.map_eq_append_iff

/-! ## Alternatives -/

theorem reads_any {p : Pattern} {ps : List Pattern} :
    Reads (.any p ps) pre w post gs ↔ ∃ q ∈ p :: ps, Reads q pre w post gs := by
  induction ps generalizing p with
  | nil => simp [Pattern.any]
  | cons q ps ih =>
      show Reads p pre w post gs ∨ Reads (.any q ps) pre w post gs ↔ _
      rw [ih]
      simp

/-! ## Trailing characters of a class -/

/-- Two texts that end outside a class are cut off in one way from what follows in the class. -/
theorem append_inj_of_last {p : Char → Bool} {A B s t : List Char} (h : A ++ s = B ++ t)
    (hs : ∀ x ∈ s, p x = true) (ht : ∀ x ∈ t, p x = true) (hA : ∃ x ∈ A.getLast?, p x = false)
    (hB : ∃ x ∈ B.getLast?, p x = false) : A = B ∧ s = t := by
  -- one text is not longer than the other, since it would end inside the class
  have hcut : ∀ {A B r t : List Char}, A = B ++ r → (∀ x ∈ r ++ t, p x = true) →
      (∃ x ∈ A.getLast?, p x = false) → r = [] := by
    rintro _ B r t rfl hr ⟨x, hx, hpx⟩
    cases hlast : r.getLast? with
    | none => exact List.getLast?_eq_none_iff.1 hlast
    | some y =>
        rw [List.getLast?_append, hlast] at hx
        cases hx
        rw [hr x (List.mem_append_left _ (List.mem_of_getLast? hlast))] at hpx
        cases hpx
  rcases List.append_eq_append_iff.1 h with ⟨r, hBA, hsr⟩ | ⟨r, hAB, htr⟩
  · obtain rfl := hcut hBA (hsr ▸ hs) hB
    exact ⟨by simpa using hBA.symm, by simpa using hsr⟩
  · obtain rfl := hcut hAB (htr ▸ ht) hA
    exact ⟨by simpa using hAB, by simpa using htr.symm⟩

/-! ## Greedy repetition -/

/-- A cursor where nothing can be read has no results. -/
theorem run_eq_nil {p : Pattern} {rest : List Char}
    (h : ∀ w post gs, rest = w ++ post → ¬ Reads p pre w post gs) (gs₀ : List (Nat × Span)) :
    run p (.between pre rest gs₀) = [] := by
  rw [List.eq_nil_iff_forall_not_mem]
  intro d hd
  rcases (run_describes p pre rest gs₀ d).1 hd with ⟨w, post, gs, hrest, -, hw⟩
  exact h w post gs hrest hw

theorem run_cls_then {p : Char → Bool} {x : Char} (hx : p x = true) (b : Pattern)
    (rest : List Char) :
    run (.seq (.cls p) b) (.between pre (x :: rest) gs) = run b (.between (pre ++ [x]) rest gs) := by
  simp [run, Cursor.consume, Cursor.between, hx]

/-- The cursors behind the beginnings of `v`, the longest first. -/
def descending (pre : List Char) : List Char → List Char → List (Nat × Span) → List Cursor
  | [], rest, gs => [.between pre rest gs]
  | x :: v, rest, gs => descending (pre ++ [x]) v rest gs ++ [.between pre (x :: v ++ rest) gs]

theorem head_descending (pre v rest : List Char) (gs : List (Nat × Span)) :
    (descending pre v rest gs).head? = some (.between (pre ++ v) rest gs) := by
  induction v generalizing pre with
  | nil => simp [descending]
  | cons x v ih => simp [descending, List.head?_append, ih]

section Greedy

variable {p : Char → Bool} {v rest : List Char}

theorem upTo_consume (hv : ∀ x ∈ v, p x = true) (hrest : ∀ x ∈ rest.head?, p x = false) {n : Nat}
    (hn : v.length ≤ n) :
    upTo (Cursor.consume p) true n (.between pre (v ++ rest) gs) = descending pre v rest gs := by
  induction v generalizing pre n with
  | nil =>
      have hnone : (Cursor.between pre rest gs).consume p = [] := by
        cases rest with
        | nil => rfl
        | cons y rest => simp [Cursor.consume, Cursor.between, hrest y rfl]
      cases n with
      | zero => rfl
      | succ n => simp [upTo, descending, hnone]
  | cons x v ih =>
      obtain ⟨n, rfl⟩ := Nat.exists_eq_add_of_le' (Nat.lt_of_lt_of_le (Nat.zero_lt_succ _) hn)
      have hx := hv x List.mem_cons_self
      have hstep : (Cursor.between pre (x :: v ++ rest) gs).consume p =
          [.between (pre ++ [x]) (v ++ rest) gs] := by
        simp [Cursor.consume, Cursor.between, hx]
      have hadvance : (Cursor.between pre (x :: v ++ rest) gs).offset <
          (Cursor.between (pre ++ [x]) (v ++ rest) gs).offset := by
        have hpos := x.utf8Size_pos
        simp only [Cursor.between, byteLen_append, byteLen_cons, byteLen_nil]
        omega
      have hrec : upTo (Cursor.consume p) true n (.between (pre ++ [x]) (v ++ rest) gs) =
          descending (pre ++ [x]) v rest gs :=
        ih (fun y hy => hv y (List.mem_cons_of_mem _ hy)) (by simpa using hn)
      simp only [upTo, hstep, List.filter_cons, hadvance, decide_true, if_true, List.filter_nil,
        List.flatMap_cons, List.flatMap_nil, List.append_nil, hrec, descending]

/-- Where what follows cannot start inside the class, a repetition of the class takes all of it. -/
theorem run_star_cls_then {b : Pattern} (hv : ∀ x ∈ v, p x = true)
    (hrest : ∀ x ∈ rest.head?, p x = false)
    (hb : ∀ pre x xs gs, p x = true → run b (.between pre (x :: xs) gs) = []) :
    run (.seq (.star (.cls p)) b) (.between pre (v ++ rest) gs) =
      run b (.between (pre ++ v) rest gs) := by
  have hfuel : v.length ≤ (Cursor.between pre (v ++ rest) gs).rest.length := by
    simp [Cursor.between]
  have hrun : run (.star (.cls p)) (.between pre (v ++ rest) gs) = descending pre v rest gs := by
    have hupTo := @upTo_consume pre gs p v rest hv hrest _ hfuel
    simpa [Pattern.star, run, times] using hupTo
  rw [run, hrun]
  clear hfuel hrun
  induction v generalizing pre with
  | nil => simp [descending]
  | cons x v ih =>
      have hrec : (descending (pre ++ [x]) v rest gs).flatMap (run b) =
          run b (.between (pre ++ [x] ++ v) rest gs) :=
        ih fun y hy => hv y (List.mem_cons_of_mem _ hy)
      rw [descending, List.flatMap_append, hrec]
      simp [hb pre x (v ++ rest) gs (hv x List.mem_cons_self)]

/-- A repetition of a class prefers all of the class. -/
theorem head_run_atLeast_cls {n : Nat} (hv : ∀ x ∈ v, p x = true)
    (hrest : ∀ x ∈ rest.head?, p x = false) (hn : n ≤ v.length) :
    (run (.atLeast n (.cls p)) (.between pre (v ++ rest) gs)).head? =
      some (.between (pre ++ v) rest gs) := by
  have hsplit : v = v.take n ++ v.drop n := (List.take_append_drop n v).symm
  have htimes : times (Cursor.consume p) n (.between pre (v ++ rest) gs) =
      [.between (pre ++ v.take n) (v.drop n ++ rest) gs] := by
    have hlen : n ≤ (Cursor.between pre (v ++ rest) gs).rest.length := by
      simp only [Cursor.between, List.length_append]
      omega
    have htake : (v ++ rest).take n = v.take n := List.take_append_of_le_length hn
    have hdrop : (v ++ rest).drop n = v.drop n ++ rest := List.drop_append_of_le_length hn
    have hall : (v.take n).all p = true :=
      List.all_eq_true.2 fun x hx => hv x (List.mem_of_mem_take hx)
    rw [times_consume, if_pos ⟨hlen, by simpa [Cursor.between, htake] using hall⟩]
    simp [Cursor.advance, Cursor.between, htake, hdrop, List.getLast?_append]
  have hupTo : upTo (Cursor.consume p) true (v.drop n ++ rest).length
      (.between (pre ++ v.take n) (v.drop n ++ rest) gs) =
      descending (pre ++ v.take n) (v.drop n) rest gs :=
    upTo_consume (fun x hx => hv x (List.mem_of_mem_drop hx)) hrest (by simp)
  simp only [Pattern.atLeast, run, htimes, List.flatMap_cons, List.flatMap_nil, List.append_nil]
  show (upTo (Cursor.consume p) true (v.drop n ++ rest).length _).head? = _
  rw [hupTo, head_descending, List.append_assoc, List.take_append_drop]

end Greedy

/-- An optional class is taken when what follows cannot start with it. -/
theorem run_opt_cls_then {p : Char → Bool} {x : Char} (hx : p x = true) {b : Pattern}
    {rest : List Char} (hb : run b (.between pre (x :: rest) gs) = []) :
    run (.seq (.opt (.cls p)) b) (.between pre (x :: rest) gs) =
      run b (.between (pre ++ [x]) rest gs) := by
  have hpos := x.utf8Size_pos
  have hopt : run (.opt (.cls p)) (.between pre (x :: rest) gs) =
      [.between (pre ++ [x]) rest gs, .between pre (x :: rest) gs] := by
    simp [Pattern.opt, run, times, upTo, Cursor.consume, Cursor.between, hx, hpos]
  rw [run, hopt]
  simp [hb]

end Text
end HiddenSteps
