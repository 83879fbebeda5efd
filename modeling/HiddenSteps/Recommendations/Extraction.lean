import HiddenSteps.Recommendations.Prompt
import HiddenSteps.Text.JsonText

/-!
# Extraction — which part of an answer is taken for its object

A JSON object behind a text without braces is extracted whole, whatever follows it.  The scan is
not started again behind the first opening brace, so the first object is extracted exactly if no
opening brace stands before it.
-/

namespace HiddenSteps
namespace Recommendations

open JsonText

/-- `i32::MAX` -/
def maxDepth : Nat := 2 ^ 31 - 1

/-- The scan passes over the text outside strings, at any depth that leaves room for `n` levels. -/
def PassedOver (n : Nat) (s : List Char) : Prop :=
  ∀ depth, 0 < depth → depth + n ≤ maxDepth → ∀ rest,
    closeObject (.ofNat depth) false false (s ++ rest) =
      (closeObject (.ofNat depth) false false rest).map (s ++ ·)

namespace PassedOver

variable {n m : Nat} {s t : List Char}

theorem nil : PassedOver n [] := by
  intro depth _ _ rest
  simp

theorem append (hs : PassedOver n s) (ht : PassedOver n t) : PassedOver n (s ++ t) := by
  intro depth hpos hroom rest
  rw [List.append_assoc, hs depth hpos hroom, ht depth hpos hroom, Option.map_map]
  congr 1
  funext object
  exact (List.append_assoc s t object).symm

theorem mono (hs : PassedOver n s) (h : n ≤ m) : PassedOver m s :=
  fun depth hpos hroom => hs depth hpos (by omega)

theorem char {c : Char} (hquote : c ≠ '\x22') (hopen : c ≠ '\x7b') (hclose : c ≠ '\x7d') :
    PassedOver n [c] := by
  intro depth _ _ rest
  simp [closeObject, hquote, hopen, hclose]

theorem plain (h : ∀ c ∈ s, c ∉ ['\x22', '\x7b', '\x7d']) : PassedOver n s := by
  induction s with
  | nil => exact nil
  | cons c s ih =>
      have hc := h c List.mem_cons_self
      simp only [List.mem_cons, List.not_mem_nil, or_false, not_or] at hc
      exact (char hc.1 hc.2.1 hc.2.2).append (ih fun c hc => h c (List.mem_cons_of_mem _ hc))

theorem separated {c : Char} (hs : PassedOver n s) (hc : c ∉ ['\x22', '\x7b', '\x7d'])
    (ht : PassedOver n t) : PassedOver n (s ++ c :: t) :=
  hs.append (append (s := [c]) (plain (by simpa using hc)) ht)

theorem bracketed (hs : PassedOver n s) : PassedOver n ('[' :: s ++ [']']) :=
  separated (s := []) nil (by decide) (hs.append (plain (List.all_iff_forall_prop.1 (by decide))))

end PassedOver

/-! ## Strings -/

theorem isHexDigit_ne {c : Char} (h : isHexDigit c = true) : c ≠ '\\' ∧ c ≠ '\x22' := by
  constructor
  · rintro rfl
    exact absurd h (by decide)
  · rintro rfl
    exact absurd h (by decide)

theorem closeObject_char {c : List Char} (h : CharText c) (depth : Int32) (rest : List Char) :
    closeObject depth true false (c ++ rest) =
      (closeObject depth true false rest).map (c ++ ·) := by
  cases h with
  | unescaped _ hquote hescape => simp [closeObject, hquote, hescape]
  | escaped h => simp [closeObject, Function.comp_def]
  | unicode ha hb hc hd =>
      simp [closeObject, isHexDigit_ne ha, isHexDigit_ne hb, isHexDigit_ne hc, isHexDigit_ne hd,
        Function.comp_def]

theorem closeObject_chars {s : List Char} (h : CharsText s) (depth : Int32) (rest : List Char) :
    closeObject depth true false (s ++ rest) =
      (closeObject depth true false rest).map (s ++ ·) := by
  induction h with
  | nil => simp
  | cons hc _ ih => simp [closeObject_char hc, ih, Function.comp_def]

variable {n : Nat} {s : List Char}

/-- The braces of a string are passed over like its other characters. -/
theorem PassedOver.string (h : StringText s) : PassedOver n s := by
  rcases h with ⟨chars, rfl, hchars⟩
  intro depth _ _ rest
  simp [closeObject, closeObject_chars hchars, Function.comp_def]

/-! ## Numbers and whitespace -/

theorem not_mem_structural_of_isDigit {c : Char} (h : c.isDigit = true) :
    c ∉ ['\x22', '\x7b', '\x7d'] := by
  intro hc
  simp only [List.mem_cons, List.not_mem_nil, or_false] at hc
  rcases hc with rfl | rfl | rfl <;> exact absurd h (by decide)

theorem PassedOver.digits (h : ∀ c ∈ s, c.isDigit = true) : PassedOver n s :=
  .plain fun c hc => not_mem_structural_of_isDigit (h c hc)

theorem PassedOver.whitespace (h : Whitespace s) : PassedOver n s := by
  refine .plain fun c hc => ?_
  have hmem := h c hc
  simp only [List.mem_cons, List.not_mem_nil, or_false] at hmem
  rcases hmem with rfl | rfl | rfl | rfl <;> decide

theorem PassedOver.number (h : NumberText s) : PassedOver n s := by
  rcases h with ⟨minus, int, frac, exp, rfl, hminus, hint, hfrac, hexp⟩
  refine .append (.append (.append ?_ ?_) ?_) ?_
  · have hsigns : ∀ minus ∈ ([[], ['-']] : List (List Char)),
        minus.all (fun c => c ∉ ['\x22', '\x7b', '\x7d']) = true := by decide
    exact .plain (List.all_iff_forall_prop.1 (hsigns minus hminus))
  · rcases hint with rfl | ⟨first, rest, rfl, hfirst, -, hrest⟩
    · exact .digits (List.all_iff_forall_prop.1 (by decide))
    · exact .digits (List.forall_mem_cons.2 ⟨hfirst, hrest⟩)
  · rcases hfrac with rfl | ⟨digits, rfl, -, hdigits⟩
    · exact .nil
    · exact .append (s := ['.']) (.plain (List.all_iff_forall_prop.1 (by decide))) (.digits hdigits)
  · rcases hexp with rfl | ⟨e, sign, digits, rfl, he, hsign, -, hdigits⟩
    · exact .nil
    · have hes : ∀ c ∈ ['e', 'E', '+', '-'], c ∉ ['\x22', '\x7b', '\x7d'] :=
        List.all_iff_forall_prop.1 (by decide)
      have hsub : ∀ sign ∈ ([[], ['+'], ['-']] : List (List Char)),
          sign ⊆ ['e', 'E', '+', '-'] := by simp
      refine .append (.plain (List.forall_mem_cons.2 ⟨hes e ?_, fun c hc => ?_⟩)) (.digits hdigits)
      · exact List.mem_append_left ['+', '-'] he
      · exact hes c (hsub sign hsign hc)

/-! ## Objects -/

theorem closeObject_open (depth : Int32) (escaped : Bool) (rest : List Char) :
    closeObject depth false escaped ('\x7b' :: rest) =
      (closeObject (depth + 1) false escaped rest).map ('\x7b' :: ·) := by
  simp [closeObject]

theorem closeObject_close (depth : Int32) (escaped : Bool) (rest : List Char) :
    closeObject depth false escaped ('\x7d' :: rest) =
      if depth - 1 = 0 then some ['\x7d']
      else (closeObject (depth - 1) false escaped rest).map ('\x7d' :: ·) := by
  simp [closeObject]

theorem ofNat_ne_zero {depth : Nat} (hpos : 0 < depth) (hmax : depth ≤ maxDepth) :
    Int32.ofNat depth ≠ 0 := by
  intro h
  have hint := congrArg Int32.toInt h
  rw [Int32.toInt_ofNat_of_lt (by unfold maxDepth at hmax; omega)] at hint
  exact absurd (Int.natCast_eq_zero.1 hint) hpos.ne'

/-- What is passed over between two braces is passed over with them, one level deeper. -/
theorem PassedOver.object (h : PassedOver n s) : PassedOver (n + 1) ('\x7b' :: s ++ ['\x7d']) := by
  intro depth hpos hroom rest
  have hinner := h (depth + 1) (Nat.succ_pos depth) (by omega) ('\x7d' :: rest)
  have hopen : Int32.ofNat depth + 1 = Int32.ofNat (depth + 1) := (Int32.ofNat_add depth 1).symm
  have hclose : Int32.ofNat (depth + 1) - 1 = Int32.ofNat depth := by
    rw [← hopen]
    exact Int32.add_sub_cancel _ _
  have hne := ofNat_ne_zero hpos (by omega)
  have htext : '\x7b' :: s ++ ['\x7d'] ++ rest = '\x7b' :: (s ++ '\x7d' :: rest) := by simp
  rw [htext, closeObject_open, hopen, hinner, closeObject_close, hclose, if_neg hne,
    Option.map_map, Option.map_map]
  congr 1
  funext object
  simp

/-- At depth zero the closing brace ends the scan. -/
theorem closeObject_object (h : PassedOver n s) (hn : n + 1 ≤ maxDepth) (rest : List Char) :
    closeObject 0 false false ('\x7b' :: s ++ '\x7d' :: rest) =
      some ('\x7b' :: s ++ ['\x7d']) := by
  have hinner := h 1 Nat.one_pos (by omega) ('\x7d' :: rest)
  have hopen : (0 : Int32) + 1 = Int32.ofNat 1 := rfl
  have hclose : Int32.ofNat 1 - 1 = 0 := rfl
  rw [List.cons_append, closeObject_open, hopen, hinner, closeObject_close, if_pos hclose]
  rfl

/-! ## The grammar -/

mutual

theorem PassedOver.value {n : Nat} {s : List Char} : ValueText n s → PassedOver n s
  | .word h => .plain (by
      simp only [List.mem_cons, List.not_mem_nil, or_false] at h
      rcases h with rfl | rfl | rfl <;> exact List.all_iff_forall_prop.1 (by decide))
  | .number h => .number h
  | .string h => .string h
  | .emptyArray h => .bracketed (.whitespace h)
  | .array h => .bracketed (.values h)
  | .object h => .objectText h

theorem PassedOver.values {n : Nat} {s : List Char} : ValuesText n s → PassedOver n s
  | .last hws hvalue hws' => ((whitespace hws).append (.value hvalue)).append (.whitespace hws')
  | .more hws hvalue hws' hvalues =>
      separated (((whitespace hws).append (.value hvalue)).append (.whitespace hws'))
        (by decide) (.values hvalues)

theorem PassedOver.objectText {n : Nat} {s : List Char} : ObjectText n s → PassedOver n s
  | .empty h => .object (.whitespace h)
  | .members h => .object (.members h)

theorem PassedOver.members {n : Nat} {s : List Char} : MembersText n s → PassedOver n s
  | .last h => .member h
  | .more h hmembers => .separated (.member h) (by decide) (.members hmembers)

theorem PassedOver.member {n : Nat} {s : List Char} : MemberText n s → PassedOver n s
  | .mk h₁ hname h₂ h₃ hvalue h₄ => by
      have hbefore := ((whitespace h₁).append (.string hname)).append (whitespace h₂ (n := n))
      have hafter := ((whitespace h₃).append (.value hvalue)).append (whitespace h₄)
      simpa using hbefore.separated (by decide) hafter

end

/-- The scan starts at the first opening brace. -/
theorem extractJsonObject_behind {before rest : List Char} (h : '\x7b' ∉ before) :
    extractJsonObject (before ++ '\x7b' :: rest) = closeObject 0 false false ('\x7b' :: rest) := by
  have hskip : ∀ c ∈ before, (c != '\x7b') = true := fun c hc =>
    bne_iff_ne.2 fun heq => h (heq ▸ hc)
  have hstart : (before ++ '\x7b' :: rest).dropWhile (· != '\x7b') = '\x7b' :: rest := by
    rw [List.dropWhile_append_of_pos hskip]
    rfl
  rw [extractJsonObject, hstart]

/-- An object is extracted whole from behind a text without opening braces. -/
theorem extractJsonObject_object {n : Nat} {before object after : List Char}
    (hobject : ObjectText n object) (hn : n ≤ maxDepth) (hbefore : '\x7b' ∉ before) :
    extractJsonObject (before ++ object ++ after) = some object := by
  obtain ⟨k, inner, rfl, rfl, hinner⟩ :
      ∃ k inner, n = k + 1 ∧ object = '\x7b' :: inner ++ ['\x7d'] ∧ PassedOver k inner := by
    cases hobject with
    | empty h => exact ⟨_, _, rfl, rfl, .whitespace h⟩
    | members h => exact ⟨_, _, rfl, rfl, .members h⟩
  have htext : before ++ ('\x7b' :: inner ++ ['\x7d']) ++ after =
      before ++ '\x7b' :: (inner ++ '\x7d' :: after) := by simp
  rw [htext, extractJsonObject_behind hbefore]
  exact closeObject_object hinner hn after

/-- An escaped quote and a brace inside a string, between prose and a second object. -/
theorem extractJsonObject_quoted_brace :
    extractJsonObject ("Sure: ".toList ++ "\x7b\"why\":\"\\\"\x7d\"\x7d".toList ++ " \x7b\x7d".toList) =
      some "\x7b\"why\":\"\\\"\x7d\"\x7d".toList := by
  have hnone : Whitespace [] := by simp [Whitespace]
  have hchar : ∀ c ∈ ['w', 'h', 'y', '\x7d'], CharText [c] := by
    intro c hc
    simp only [List.mem_cons, List.not_mem_nil, or_false] at hc
    rcases hc with rfl | rfl | rfl | rfl <;> exact .unescaped (by decide) (by decide) (by decide)
  have hname : StringText "\"why\"".toList :=
    ⟨_, rfl, .cons (hchar 'w' (by decide)) (.cons (hchar 'h' (by decide))
      (.cons (hchar 'y' (by decide)) .nil))⟩
  have hvalue : StringText "\"\\\"\x7d\"".toList :=
    ⟨_, rfl, .cons (.escaped (c := '\x22') (by decide)) (.cons (hchar '\x7d' (by decide)) .nil)⟩
  have hobject : ObjectText 1 "\x7b\"why\":\"\\\"\x7d\"\x7d".toList :=
    .members (.last (.mk hnone hname hnone hnone (.string hvalue) hnone))
  exact extractJsonObject_object hobject (by decide) (by decide)

/-! ## The first object -/

/-- The scan that starts at the opening brace of `start` closes behind `object`. -/
def Closes (start object : List Char) : Prop :=
  (∃ rest, start = '\x7b' :: rest) ∧ closeObject 0 false false start = some object

/-- `start` is the text from the leftmost opening brace on from which the scan closes. -/
structure FirstClosing (text before start object : List Char) : Prop where
  split : text = before ++ start
  closes : Closes start object
  first : ∀ earlier later, before = earlier ++ later → later ≠ [] →
    ∀ other, ¬ Closes (later ++ start) other

/-- The first balanced object is returned, and none only if there is none. -/
structure ExtractsFirst (text : List Char) : Prop where
  found : ∀ before start object, FirstClosing text before start object →
    extractJsonObject text = some object
  missed : extractJsonObject text = none →
    ∀ before start object, text = before ++ start → ¬ Closes start object

/-- If a scan of the text closes, there is a leftmost one. -/
theorem exists_firstClosing {text before start object : List Char} (htext : text = before ++ start)
    (h : Closes start object) : ∃ before start object, FirstClosing text before start object := by
  induction before generalizing text with
  | nil => exact ⟨[], start, object, htext, h, by simp⟩
  | cons c before ih =>
      by_cases hhere : ∃ object, Closes text object
      · obtain ⟨object, hobject⟩ := hhere
        exact ⟨[], text, object, rfl, hobject, by simp⟩
      · obtain ⟨before', start', object', hsplit, hcloses, hfirst⟩ := ih rfl
        refine ⟨c :: before', start', object', by rw [htext, List.cons_append, hsplit]; rfl,
          hcloses, ?_⟩
        intro earlier later heq hlater other hother
        cases earlier with
        | nil =>
            -- the whole text, which does not close
            refine hhere ⟨other, ?_⟩
            have hwhole : later = c :: before' := heq.symm
            rw [htext, List.cons_append, hsplit]
            rwa [hwhole] at hother
        | cons d earlier =>
            exact hfirst earlier later (List.cons.inj heq).2 hlater other hother

/-- The first balanced object is found exactly if no opening brace stands before it. -/
theorem extractsFirst_iff (text : List Char) :
    ExtractsFirst text ↔
      ∀ before start object, FirstClosing text before start object → '\x7b' ∉ before := by
  constructor
  · intro h before start object hclosing hmem
    -- the scan starts at a brace before the object, where it does not close
    obtain ⟨earlier, later, rfl, hnone⟩ := List.eq_append_cons_of_mem hmem
    have hscan := h.found _ _ _ hclosing
    rw [hclosing.split, List.append_assoc, List.cons_append, extractJsonObject_behind hnone]
      at hscan
    exact hclosing.first earlier ('\x7b' :: later) rfl (List.cons_ne_nil _ _) object
      ⟨⟨_, rfl⟩, hscan⟩
  · intro h
    have hfound : ∀ before start object, FirstClosing text before start object →
        extractJsonObject text = some object := by
      intro before start object hclosing
      obtain ⟨⟨rest, rfl⟩, hscan⟩ := hclosing.closes
      rw [hclosing.split, extractJsonObject_behind (h _ _ _ hclosing)]
      exact hscan
    refine ⟨hfound, ?_⟩
    intro hnone before start object htext hcloses
    obtain ⟨before', start', object', hclosing⟩ := exists_firstClosing htext hcloses
    rw [hfound _ _ _ hclosing] at hnone
    cases hnone

/-- A brace in the prose hides the object behind it. -/
theorem brace_hides_object : ¬ ∀ text, ExtractsFirst text := by
  intro h
  have hnone : extractJsonObject "Type \x7b, then \x7b\x7d".toList = none := by decide +kernel
  exact (h _).missed hnone "Type \x7b, then ".toList "\x7b\x7d".toList _ rfl
    ⟨⟨_, rfl⟩, rfl⟩

end Recommendations
end HiddenSteps
