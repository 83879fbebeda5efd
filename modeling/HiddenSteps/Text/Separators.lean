import HiddenSteps.Text.RegexLaws
import Mathlib.Data.List.Forall2

/-!
# Separators — matching inside one field of a text

A separator is a character that a pattern never consumes and that its word boundaries take for the
end of a word.  A pattern that consumes something sees a field between two separators as if it were
the whole text:

* `run_inside`: from a cursor in the field the pattern stops at the same places;
* `findIter_append_separator`: the matches in `u ++ s :: v` are those in `u` and those in `v`,
  shifted to where `v` starts.
-/

namespace HiddenSteps
namespace Text

/-! ## How much a pattern consumes -/

namespace Pattern

/-- A number of characters that every match consumes. -/
def minLength : Pattern → Nat
  | eps => 0
  | cls _ => 1
  | wordBoundary _ => 0
  | seq a b => a.minLength + b.minLength
  | alt a b => min a.minLength b.minLength
  | rep _ lo _ a => lo * a.minLength
  | group _ a => a.minLength

/-- The pattern consumes no separator and takes none for a word character. -/
def Avoids (sep : Char → Prop) : Pattern → Prop
  | eps => True
  | cls p => ∀ x, sep x → p x = false
  | wordBoundary w => ∀ x, sep x → w x = false
  | seq a b => a.Avoids sep ∧ b.Avoids sep
  | alt a b => a.Avoids sep ∧ b.Avoids sep
  | rep _ _ _ a => a.Avoids sep
  | group _ a => a.Avoids sep

end Pattern

/-- Every result of a step lies at least `n` characters further on. -/
def AdvancesBy (n : Nat) (step : Cursor → List Cursor) : Prop :=
  ∀ c d, d ∈ step c → ∃ w gs, Consumes c w gs d ∧ n ≤ w.length

theorem times_advancesBy {step : Cursor → List Cursor} {n : Nat} (hstep : AdvancesBy n step)
    (k : Nat) : AdvancesBy (k * n) (times step k) := by
  intro c d h
  induction k generalizing c with
  | zero =>
      rcases List.mem_singleton.1 h with rfl
      exact ⟨[], [], .refl _, by simp⟩
  | succ k ih =>
      rcases List.mem_flatMap.1 h with ⟨e, he, hd⟩
      rcases hstep c e he with ⟨w, gs, hw, hn⟩
      rcases ih e hd with ⟨w', gs', hw', hk⟩
      refine ⟨_, _, hw.trans hw', ?_⟩
      rw [List.length_append, Nat.succ_mul]
      omega

theorem run_advancesBy (p : Pattern) : AdvancesBy p.minLength (run p) := by
  induction p with
  | eps =>
      intro c d h
      rcases List.mem_singleton.1 h with rfl
      exact ⟨[], [], .refl _, Nat.le_refl _⟩
  | cls p =>
      intro c d h
      rcases consume_consumes h with ⟨x, _, hx⟩
      exact ⟨[x], [], hx, Nat.le_refl _⟩
  | wordBoundary w =>
      intro c d h
      rcases run_consumes (.wordBoundary w) c d h with ⟨w', gs, hw⟩
      exact ⟨w', gs, hw, Nat.zero_le _⟩
  | seq a b iha ihb =>
      intro c d h
      rcases List.mem_flatMap.1 h with ⟨e, he, hd⟩
      rcases iha c e he with ⟨w, gs, hw, hlen⟩
      rcases ihb e d hd with ⟨w', gs', hw', hlen'⟩
      refine ⟨_, _, hw.trans hw', ?_⟩
      rw [List.length_append]
      exact Nat.add_le_add hlen hlen'
  | alt a b iha ihb =>
      intro c d h
      rcases List.mem_append.1 h with h | h
      · rcases iha c d h with ⟨w, gs, hw, hlen⟩
        exact ⟨w, gs, hw, Nat.le_trans (Nat.min_le_left _ _) hlen⟩
      · rcases ihb c d h with ⟨w, gs, hw, hlen⟩
        exact ⟨w, gs, hw, Nat.le_trans (Nat.min_le_right _ _) hlen⟩
  | rep greedy lo hi a iha =>
      intro c d h
      rcases List.mem_flatMap.1 h with ⟨e, he, hd⟩
      rcases times_advancesBy iha lo c e he with ⟨w, gs, hw, hlen⟩
      -- what the optional iterations consume comes on top
      rcases upTo_advances (run_consumes a) greedy _ e d hd with ⟨w', gs', hw'⟩
      refine ⟨_, _, hw.trans hw', ?_⟩
      rw [List.length_append]
      exact Nat.le_trans hlen (Nat.le_add_right _ _)
  | group i a iha =>
      intro c d h
      rcases List.mem_map.1 h with ⟨e, he, rfl⟩
      rcases iha c e he with ⟨w, gs, hw, hlen⟩
      exact ⟨w, _, hw.close i, hlen⟩

/-- Where less is left than every match consumes, there is no match. -/
theorem matchAt_of_short {p : Pattern} {rest : List Char} (h : rest.length < p.minLength)
    (prev : Option Char) (offset : Nat) : matchAt p prev rest offset = none := by
  rw [matchAt, Option.map_eq_none_iff, List.head?_eq_none_iff, List.eq_nil_iff_forall_not_mem]
  intro d hd
  rcases run_advancesBy p _ d hd with ⟨w, gs, hw, hlen⟩
  have hrest := congrArg List.length hw.rest
  simp only [List.length_append] at hrest
  omega

theorem matchAt_nil {p : Pattern} (hp : 0 < p.minLength) (prev : Option Char) (offset : Nat) :
    matchAt p prev [] offset = none := by
  have hshort : ([] : List Char).length < p.minLength := hp
  exact matchAt_of_short hshort prev offset

/-! ## Fuel -/

/-- A repetition advances at most once for each character left. -/
theorem upTo_fuel {step : Cursor → List Cursor} (hstep : Advances step) (greedy : Bool) {c : Cursor}
    {n k : Nat} (hn : c.rest.length ≤ n) (hk : c.rest.length ≤ k) :
    upTo step greedy n c = upTo step greedy k c := by
  -- an iteration that advances leaves fewer characters
  have hless : ∀ {c d}, d ∈ (step c).filter (fun d => c.offset < d.offset) →
      d.rest.length < c.rest.length := by
    intro c d hd
    rcases List.mem_filter.1 hd with ⟨hmem, hlt⟩
    rcases hstep c d hmem with ⟨w, gs, hw⟩
    cases w with
    | nil => simp [hw.offset] at hlt
    | cons x w =>
        rw [hw.rest, List.length_append, List.length_cons]
        omega
  -- so with none left there is no further iteration
  have hstop : ∀ {c : Cursor} {n : Nat}, c.rest = [] → upTo step greedy n c = [c] := by
    intro c n hrest
    cases n with
    | zero => rfl
    | succ n =>
        have hnil : (step c).filter (fun d => c.offset < d.offset) = [] := by
          rw [List.eq_nil_iff_forall_not_mem]
          intro d hd
          have hlt := hless hd
          simp [hrest] at hlt
        simp [upTo, hnil]
  induction n generalizing c k with
  | zero =>
      have hrest : c.rest = [] := List.length_eq_zero_iff.1 (Nat.le_zero.1 hn)
      rw [hstop hrest, hstop hrest]
  | succ n ih =>
      cases k with
      | zero =>
          have hrest : c.rest = [] := List.length_eq_zero_iff.1 (Nat.le_zero.1 hk)
          rw [hstop hrest, hstop hrest]
      | succ k =>
          have hmore : ((step c).filter fun d => c.offset < d.offset).flatMap (upTo step greedy n) =
              ((step c).filter fun d => c.offset < d.offset).flatMap (upTo step greedy k) := by
            refine List.flatMap_congr fun d hd => ?_
            have hlt := hless hd
            exact ih (by omega) (by omega)
          simp only [upTo, hmore]

/-! ## Cursors in a field -/

/-- The span further on by `k` bytes. -/
def Span.shift (k : Nat) (s : Span) : Span := ⟨k + s.start, k + s.stop⟩

/-- The match further on by `k` bytes, groups included. -/
def Match.shift (k : Nat) (m : Match) : Match :=
  ⟨m.span.shift k, m.groups.map fun g => (g.1, g.2.shift k)⟩

/-- The neighbour on the left is the same, or it is a separator where the field starts. -/
def SameNeighbour (sep : Char → Prop) (prev prev' : Option Char) : Prop :=
  prev' = prev ∨ prev = none ∧ ∃ x, prev' = some x ∧ sep x

/-- `d` is the cursor `c` of a field that starts at byte `k` of a text and is followed by `z`. -/
structure Inside (sep : Char → Prop) (z : List Char) (k : Nat) (c d : Cursor) : Prop where
  rest : d.rest = c.rest ++ z
  prev : SameNeighbour sep c.prev d.prev
  offset : d.offset = k + c.offset
  groups : d.groups = c.groups.map fun g => (g.1, g.2.shift k)

/-- Nothing or a separator follows. -/
def Ends (sep : Char → Prop) (z : List Char) : Prop :=
  ∀ x ∈ z.head?, sep x

theorem ends_nil (sep : Char → Prop) : Ends sep [] := by
  simp [Ends]

theorem ends_cons {sep : Char → Prop} {x : Char} (h : sep x) (z : List Char) :
    Ends sep (x :: z) := by
  simpa [Ends] using h

section Field

variable {sep : Char → Prop} {z : List Char} {k : Nat} {c d : Cursor}

theorem Inside.atBoundary (h : Inside sep z k c d) (hz : Ends sep z) {w : Char → Bool}
    (hw : ∀ x, sep x → w x = false) : d.atBoundary w = c.atBoundary w := by
  have hleft : d.prev.any w = c.prev.any w := by
    rcases h.prev with hprev | ⟨hprev, x, hx, hsep⟩
    · rw [hprev]
    · simp [hprev, hx, hw x hsep]
  have hright : d.rest.head?.any w = c.rest.head?.any w := by
    rw [h.rest]
    cases hrest : c.rest with
    | cons y ys => rfl
    | nil =>
        -- at the end of the field the text goes on with a separator, if at all
        cases hhead : z.head? with
        | none => simp [hhead]
        | some x => simp [hhead, hw x (hz x hhead)]
  rw [Cursor.atBoundary, Cursor.atBoundary, hleft, hright]

theorem Inside.consume (h : Inside sep z k c d) (hz : Ends sep z) {p : Char → Bool}
    (hp : ∀ x, sep x → p x = false) :
    List.Forall₂ (Inside sep z k) (c.consume p) (d.consume p) := by
  rcases c with ⟨prev, rest, offset, groups⟩
  rcases d with ⟨prev', rest', offset', groups'⟩
  rcases h with ⟨hrest, hprev, hoffset, hgroups⟩
  simp only at hrest hprev hoffset hgroups
  subst hrest
  cases rest with
  | nil =>
      cases z with
      | nil => exact .nil
      | cons x z => simp [Cursor.consume, hp x (hz x rfl)]
  | cons x xs =>
      cases hx : p x with
      | false => simp [Cursor.consume, hx]
      | true =>
          simp only [Cursor.consume, List.cons_append, hx, if_true]
          refine .cons ⟨rfl, Or.inl rfl, ?_, hgroups⟩ .nil
          simp [hoffset, Nat.add_assoc]

theorem Inside.close (h : Inside sep z k c d) (i start : Nat) :
    Inside sep z k (c.close i start) (d.close i (k + start)) := by
  refine ⟨h.rest, h.prev, h.offset, ?_⟩
  simp [Cursor.close, Span.shift, h.groups, h.offset]

/-- Cursor by cursor, a step does in the text what it does in the field. -/
def StepsInside (sep : Char → Prop) (z : List Char) (k : Nat) (step : Cursor → List Cursor) :
    Prop :=
  ∀ ⦃c d⦄, Inside sep z k c d → List.Forall₂ (Inside sep z k) (step c) (step d)

theorem flatMap_inside {f g : Cursor → List Cursor} {cs ds : List Cursor}
    (hcs : List.Forall₂ (Inside sep z k) cs ds)
    (hfg : ∀ ⦃c d⦄, Inside sep z k c d → List.Forall₂ (Inside sep z k) (f c) (g d)) :
    List.Forall₂ (Inside sep z k) (cs.flatMap f) (ds.flatMap g) :=
  List.rel_flatMap hcs hfg

theorem times_inside {step : Cursor → List Cursor} (hstep : StepsInside sep z k step) (n : Nat) :
    StepsInside sep z k (times step n) := by
  induction n with
  | zero => exact fun _ _ h => .cons h .nil
  | succ n ih => exact fun _ _ h => flatMap_inside (hstep h) ih

theorem upTo_inside {step : Cursor → List Cursor} (hstep : StepsInside sep z k step)
    (greedy : Bool) (n : Nat) : StepsInside sep z k (upTo step greedy n) := by
  induction n with
  | zero => exact fun _ _ h => .cons h .nil
  | succ n ih =>
      intro c d h
      -- an iteration advances in the text when it does in the field
      have hfilter : List.Forall₂ (Inside sep z k)
          ((step c).filter fun e => c.offset < e.offset)
          ((step d).filter fun e => d.offset < e.offset) := by
        refine List.rel_filter ?_ (hstep h)
        intro e f hef
        simp only [decide_eq_true_eq, h.offset, hef.offset]
        omega
      have hmore := flatMap_inside hfilter ih
      cases greedy with
      | true => exact List.rel_append hmore (.cons h .nil)
      | false => exact .cons h hmore

/-- A pattern that avoids the separators stops at the same places in the field and in the text. -/
theorem run_inside {p : Pattern} (hp : p.Avoids sep) (hz : Ends sep z) :
    StepsInside sep z k (run p) := by
  induction p with
  | eps => exact fun _ _ h => .cons h .nil
  | cls p => exact fun _ _ h => h.consume hz hp
  | wordBoundary w =>
      intro c d h
      simp only [run, h.atBoundary hz hp]
      split
      · exact .cons h .nil
      · exact .nil
  | seq a b iha ihb => exact fun _ _ h => flatMap_inside (iha hp.1 h) (ihb hp.2)
  | alt a b iha ihb => exact fun _ _ h => List.rel_append (iha hp.1 h) (ihb hp.2 h)
  | rep greedy lo hi a iha =>
      intro c d h
      refine flatMap_inside (times_inside (iha hp) lo h) fun e f hef => ?_
      cases hi with
      | some n => exact upTo_inside (iha hp) greedy _ hef
      | none =>
          -- the text has more fuel than the field, which makes no difference in the field
          have hfuel : upTo (run a) greedy e.rest.length e = upTo (run a) greedy f.rest.length e :=
            upTo_fuel (run_consumes a) greedy (Nat.le_refl _) (by simp [hef.rest])
          simp only [hfuel]
          exact upTo_inside (iha hp) greedy _ hef
  | group i a iha =>
      intro c d h
      simp only [run, List.forall₂_map_left_iff, List.forall₂_map_right_iff, h.offset]
      exact (iha hp h).imp fun e f hef => hef.close i c.offset

end Field

/-! ## Matches in a field -/

section Matches

variable {sep : Char → Prop} {p : Pattern}

@[simp] theorem Match.shift_span (k : Nat) (m : Match) : (m.shift k).span = m.span.shift k := rfl

@[simp] theorem Match.shift_shift (j k : Nat) (m : Match) :
    (m.shift k).shift j = m.shift (j + k) := by
  simp [Match.shift, Span.shift, Nat.add_assoc]

@[simp] theorem Match.shift_zero : Match.shift 0 = id := by
  funext m
  simp [Match.shift, Span.shift]

/-- The match at a position of the field is the one at that position of the text. -/
theorem matchAt_inside (hp : p.Avoids sep) {z : List Char} (hz : Ends sep z)
    {prev prev' : Option Char} (hprev : SameNeighbour sep prev prev') (rest : List Char)
    (k offset : Nat) :
    matchAt p prev' (rest ++ z) (k + offset) = (matchAt p prev rest offset).map (Match.shift k) := by
  have hrun : List.Forall₂ (Inside sep z k) (run p ⟨prev, rest, offset, []⟩)
      (run p ⟨prev', rest ++ z, k + offset, []⟩) :=
    run_inside hp hz ⟨rfl, hprev, rfl, rfl⟩
  -- the preferred stops of the two runs belong together
  unfold matchAt
  generalize run p ⟨prev, rest, offset, []⟩ = cs at hrun ⊢
  generalize run p ⟨prev', rest ++ z, k + offset, []⟩ = ds at hrun ⊢
  cases hrun with
  | nil => rfl
  | cons h _ => simp [Match.upToCursor, Match.shift, Span.shift, h.offset, h.groups]

/-- A pattern with something to consume has no empty match. -/
theorem matchAt_advances (hp : 0 < p.minLength) {prev : Option Char} {rest : List Char}
    {offset : Nat} {m : Match} (h : matchAt p prev rest offset = some m) :
    offset < m.span.stop ∧ m.span.stop ≤ offset + byteLen rest := by
  rcases Option.map_eq_some_iff.1 h with ⟨d, hd, rfl⟩
  rcases run_advancesBy p _ d (List.mem_of_head? hd) with ⟨w, gs, hw, hlen⟩
  have hpos := length_le_byteLen w
  have hrest : rest = w ++ d.rest := hw.rest
  have hstop : (Match.upToCursor offset d).span.stop = offset + byteLen w := hw.offset
  rw [hstop, hrest, byteLen_append]
  omega

/-- Behind the last match, and with something to consume, an attempt is a match. -/
theorem attempt_eq_matchAt (hp : 0 < p.minLength) {last : Option Nat} {offset : Nat}
    (hlast : ∀ e ∈ last, e ≤ offset) (prev : Option Char) (rest : List Char) :
    attempt p last prev rest offset = matchAt p prev rest offset := by
  have hblocked : last.any (offset < ·) = false := by
    cases last with
    | none => rfl
    | some e => simpa using hlast e rfl
  unfold attempt
  rw [hblocked, if_neg (by simp)]
  cases hm : matchAt p prev rest offset with
  | none => rfl
  | some m =>
      -- the match stops further on than the last one
      have hlt := matchAt_advances hp hm
      refine Option.filter_some_pos (bne_iff_ne.2 ?_)
      rintro rfl
      have hle := hlast m.span.stop rfl
      omega

theorem scan_eq_scan_none (hp : 0 < p.minLength) {last : Option Nat} {offset : Nat}
    (hlast : ∀ e ∈ last, e ≤ offset) (prev : Option Char) (rest : List Char) :
    scan p last prev rest offset = scan p none prev rest offset := by
  induction rest generalizing last prev offset with
  | nil =>
      have hnone : ∀ e ∈ (none : Option Nat), e ≤ offset := by simp
      simp only [scan, attempt_eq_matchAt hp hlast, attempt_eq_matchAt hp hnone]
  | cons c cs ih =>
      have hnone : ∀ e ∈ (none : Option Nat), e ≤ offset := by simp
      have hnext : ∀ e ∈ last, e ≤ offset + c.utf8Size := fun e he =>
        Nat.le_trans (hlast e he) (Nat.le_add_right _ _)
      simp only [scan, attempt_eq_matchAt hp hlast, attempt_eq_matchAt hp hnone, ih hnext]

/-- An attempt in the field succeeds when it does in the text. -/
theorem attempt_inside (hp : p.Avoids sep) {z : List Char} (hz : Ends sep z)
    {prev prev' : Option Char} (hprev : SameNeighbour sep prev prev') (last : Option Nat)
    (rest : List Char) (k offset : Nat) :
    attempt p (last.map (k + ·)) prev' (rest ++ z) (k + offset) =
      (attempt p last prev rest offset).map (Match.shift k) := by
  have hblocked : (last.map (k + ·)).any (k + offset < ·) = last.any (offset < ·) := by
    cases last <;> simp
  have hstop : (fun m : Match => last.map (k + ·) != some m.span.stop) ∘ Match.shift k =
      fun m => last != some m.span.stop := by
    funext m
    rw [Bool.eq_iff_iff]
    cases last <;> simp [Span.shift]
  unfold attempt
  rw [hblocked, matchAt_inside hp hz hprev]
  split
  · rfl
  · rw [Option.filter_map, hstop]

/-- Scanning a field and what follows it: the matches of the field, then those of the rest. -/
theorem scan_inside (hp : p.Avoids sep) (hpos : 0 < p.minLength) {z : List Char} (hz : Ends sep z)
    (k : Nat) {rest : List Char} {last : Option Nat} {prev prev' : Option Char} {offset : Nat}
    (hprev : SameNeighbour sep prev prev') (hlast : ∀ e ∈ last, e ≤ offset + byteLen rest) :
    scan p (last.map (k + ·)) prev' (rest ++ z) (k + offset) =
      (scan p last prev rest offset).map (Match.shift k) ++
        scan p none (rest.getLast?.or prev') z (k + offset + byteLen rest) := by
  induction rest generalizing last prev prev' offset with
  | nil =>
      have hlast : ∀ e ∈ last, e ≤ offset := hlast
      have hend : ∀ e ∈ last.map (k + ·), e ≤ k + offset := by
        intro e he
        rcases Option.map_eq_some_iff.1 he with ⟨e', he', rfl⟩
        exact Nat.add_le_add_left (hlast e' he') k
      have hnone : attempt p last prev [] offset = none :=
        (attempt_eq_matchAt hpos hlast _ _).trans (matchAt_nil hpos _ _)
      simp [scan, hnone, scan_eq_scan_none hpos hend]
  | cons c cs ih =>
      have hend : k + offset + byteLen (c :: cs) = k + (offset + c.utf8Size) + byteLen cs := by
        simp only [byteLen_cons, Nat.add_assoc]
      have hneighbour : (c :: cs).getLast?.or prev' = cs.getLast?.or (some c) := by
        simp [List.getLast?_cons]
      have hattempt : attempt p (last.map (k + ·)) prev' (c :: (cs ++ z)) (k + offset) =
          (attempt p last prev (c :: cs) offset).map (Match.shift k) :=
        attempt_inside hp hz hprev last (c :: cs) k offset
      have hoffset : k + offset + c.utf8Size = k + (offset + c.utf8Size) := Nat.add_assoc ..
      rw [hend, hneighbour, List.cons_append]
      simp only [scan, hattempt, hoffset]
      cases hfield : attempt p last prev (c :: cs) offset with
      | none =>
          have hlast : ∀ e ∈ last, e ≤ offset + c.utf8Size + byteLen cs := by
            simpa only [byteLen_cons, Nat.add_assoc] using hlast
          exact ih (Or.inl rfl) hlast
      | some m =>
          -- the scan goes on behind a match that lies in the field
          have hstop : ∀ e ∈ some m.span.stop, e ≤ offset + c.utf8Size + byteLen cs := by
            rintro e ⟨⟩
            have hle := (matchAt_advances hpos (attempt_eq_some hfield)).2
            simpa only [byteLen_cons, Nat.add_assoc] using hle
          exact congrArg (m.shift k :: ·) (ih (Or.inl rfl) hstop)

/-! ## Matches in a text with separators -/

/-- At a separator nothing is reported. -/
theorem scan_cons_separator (hp : p.Avoids sep) (hpos : 0 < p.minLength) {s : Char} (hs : sep s)
    (prev : Option Char) (v : List Char) (offset : Nat) :
    scan p none prev (s :: v) offset =
      (findIter p v).map (Match.shift (offset + s.utf8Size)) := by
  have hnone : attempt p none prev (s :: v) offset = none := by
    -- the field in front of the separator is empty
    have hempty : matchAt p prev ([] ++ s :: v) (0 + offset) =
        (matchAt p prev [] offset).map (Match.shift 0) :=
      matchAt_inside hp (ends_cons hs v) (Or.inl rfl) [] 0 offset
    rw [matchAt_nil hpos] at hempty
    rw [attempt_eq_matchAt hpos (by simp)]
    simpa using hempty
  -- behind the separator a field starts that goes on to the end of the text
  have hfield : scan p none (some s) v (offset + s.utf8Size) =
      (findIter p v).map (Match.shift (offset + s.utf8Size)) := by
    have hneighbour : SameNeighbour sep none (some s) := Or.inr ⟨rfl, s, rfl, hs⟩
    have hlast : ∀ e ∈ (none : Option Nat), e ≤ 0 + byteLen v := by simp
    have hnil : ∀ prev offset, scan p none prev [] offset = [] := by
      intro prev offset
      rw [scan, attempt_eq_matchAt hpos (by simp), matchAt_nil hpos, Option.toList_none]
    have hinside := scan_inside hp hpos (ends_nil sep) (offset + s.utf8Size) hneighbour hlast
    simpa [findIter, hnil] using hinside
  simp only [scan, hnone, hfield]

/-- The matches on both sides of a separator. -/
theorem findIter_append_separator (hp : p.Avoids sep) (hpos : 0 < p.minLength) {s : Char}
    (hs : sep s) (u v : List Char) :
    findIter p (u ++ s :: v) =
      findIter p u ++ (findIter p v).map (Match.shift (byteLen u + s.utf8Size)) := by
  have hneighbour : SameNeighbour sep none none := Or.inl rfl
  have hlast : ∀ e ∈ (none : Option Nat), e ≤ 0 + byteLen u := by simp
  have hinside := scan_inside hp hpos (ends_cons hs v) 0 hneighbour hlast
  simpa [findIter, scan_cons_separator hp hpos hs] using hinside

/-- A text shorter than every match. -/
theorem findIter_of_short {t : List Char} (h : t.length < p.minLength) : findIter p t = [] := by
  rw [List.eq_nil_iff_forall_not_mem]
  intro m hm
  rcases mem_findIter hm with ⟨a, r, rfl, hmatch⟩
  have hshort : r.length < p.minLength := by
    rw [List.length_append] at h
    omega
  rw [matchAt_of_short hshort] at hmatch
  cases hmatch

end Matches

end Text
end HiddenSteps
