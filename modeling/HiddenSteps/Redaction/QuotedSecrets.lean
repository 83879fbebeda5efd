import HiddenSteps.Redaction.Coverage
import HiddenSteps.Pipeline.Totality
import HiddenSteps.Text.Words

/-!
# QuotedSecrets — what the key/value pattern takes of a quoted value

The pattern allows a quote in front of the value and one behind it, but its value stops at a space, a
comma or a semicolon inside the quotes as well.

* `reads_keyValueSecret`: what the pattern reads;
* `matchAt_quoted`: at a keyword with a quoted value the match takes the value;
* `eq_start_of_value`: nothing else takes the first character of a quoted value.
-/

namespace HiddenSteps
namespace Redaction

open Text Pipeline

variable {u : UnicodeClasses} {pre w post : List Char} {gs : List (Nat × Span)}

/-! ## Keywords -/

/-- The keywords, with the two ways to join their parts. -/
def secretKeywords : List String :=
  ["password", "passwd", "pwd", "api_key", "api-key", "apikey", "secret", "access_key",
    "access-key", "accesskey", "auth_token", "auth-token", "authtoken", "bearer"]

/-- A keyword in any letter case. -/
def IsSecretKeyword (K : List Char) : Prop :=
  ∃ s ∈ secretKeywords, Spells s K

instance (K : List Char) : Decidable (IsSecretKeyword K) :=
  inferInstanceAs (Decidable (∃ s ∈ secretKeywords, Spells s K))

/-- The keyword part of `keyValueSecret`. -/
def secretKeyword : Text.Pattern :=
  let dash := Pattern.opt (oneOf ['_', '-'])
  .any (.caseless "password") [.caseless "passwd", .caseless "pwd",
    .cat [.caseless "api", dash, .caseless "key"], .caseless "apikey", .caseless "secret",
    .cat [.caseless "access", dash, .caseless "key"],
    .cat [.caseless "auth", dash, .caseless "token"], .caseless "bearer"]

theorem keyValueSecret_eq : keyValueSecret u = .seq secretKeyword (assigned u 4) := rfl

theorem foldCase_eq_joiner {c d : Char} (hd : d = '_' ∨ d = '-') : foldCase c = d ↔ c = d := by
  have hall : ∀ n : Fin 128, ∀ d ∈ ['_', '-'], (Char.ofNat n).toLower = d → Char.ofNat n = d :=
    fun n => List.all_iff_forall_prop.1 (by revert n; decide)
  constructor
  · intro h
    have hd' : d.toNat < 128 ∧ d ≠ 's' ∧ d ≠ 'k' := by rcases hd with rfl | rfl <;> decide
    rcases toLower_of_foldCase h hd'.1 hd'.2.1 hd'.2.2 with ⟨hc, hlower⟩
    have hcd := hall ⟨c.toNat, hc⟩ d (by simpa using hd)
    rw [Char.ofNat_toNat] at hcd
    exact hcd hlower
  · rintro rfl
    rcases hd with rfl | rfl <;> rfl

theorem reads_joined {s t : String} (hs : ∀ c ∈ s.toList, c.toNat < 128)
    (ht : ∀ c ∈ t.toList, c.toNat < 128) :
    Reads (.cat [.caseless s, .opt (oneOf ['_', '-']), .caseless t]) pre w post gs ↔
      gs = [] ∧ (Spells (s ++ "_" ++ t) w ∨ Spells (s ++ "-" ++ t) w ∨ Spells (s ++ t) w) := by
  have hjoiner : ∀ {j : String} {d : Char} {v : List Char}, j.toList = [d] → d = '_' ∨ d = '-' →
      (Spells j v ↔ v = [d]) := by
    intro j d v hj hd
    have hlower : d.toLower = d := by rcases hd with rfl | rfl <;> rfl
    rw [Spells, hj, List.map_singleton, hlower, List.map_eq_singleton_iff]
    constructor
    · rintro ⟨c, rfl, hc⟩
      rw [(foldCase_eq_joiner hd).1 hc]
    · rintro rfl
      exact ⟨d, rfl, (foldCase_eq_joiner hd).2 rfl⟩
  have hunderscore : ∀ {v : List Char}, Spells "_" v ↔ v = ['_'] := hjoiner rfl (Or.inl rfl)
  have hhyphen : ∀ {v : List Char}, Spells "-" v ↔ v = ['-'] := hjoiner rfl (Or.inr rfl)
  simp only [spells_append, hunderscore, hhyphen]
  constructor
  · rintro ⟨v, _, _, _, rfl, rfl, hv, j, v', _, _, rfl, rfl, hj, hv'⟩
    rcases (reads_caseless hs).1 hv with ⟨rfl, hs⟩
    rcases (reads_caseless ht).1 hv' with ⟨rfl, ht⟩
    rcases reads_opt.1 hj with ⟨rfl, rfl⟩ | ⟨-, c, hc, rfl, rfl⟩
    · exact ⟨rfl, Or.inr (Or.inr ⟨v, v', rfl, hs, ht⟩)⟩
    · have hc : c = '_' ∨ c = '-' := by simpa using hc
      rcases hc with rfl | rfl
      · exact ⟨rfl, Or.inl ⟨v ++ ['_'], v', by simp, ⟨v, ['_'], rfl, hs, rfl⟩, ht⟩⟩
      · exact ⟨rfl, Or.inr (Or.inl ⟨v ++ ['-'], v', by simp, ⟨v, ['-'], rfl, hs, rfl⟩, ht⟩)⟩
  · -- the three ways differ in what stands between the parts
    have hread : ∀ {v j v' : List Char}, Spells s v → Spells t v' →
        (j = [] ∨ ∃ c, (c = '_' ∨ c = '-') ∧ j = [c]) →
        Reads (.cat [.caseless s, .opt (oneOf ['_', '-']), .caseless t]) pre (v ++ (j ++ v')) post
          [] := by
      intro v j v' hv hv' hj
      refine ⟨v, j ++ v', [], [], rfl, rfl, (reads_caseless hs).2 ⟨rfl, hv⟩, j, v', [], [], rfl, rfl,
        reads_opt.2 ?_, (reads_caseless ht).2 ⟨rfl, hv'⟩⟩
      rcases hj with rfl | ⟨c, hc, rfl⟩
      · exact Or.inl ⟨rfl, rfl⟩
      · exact Or.inr ⟨List.cons_ne_nil _ _, c, by simpa using hc, rfl, rfl⟩
    rintro ⟨rfl, ⟨_, v', rfl, ⟨v, _, rfl, hv, rfl⟩, hv'⟩ | ⟨_, v', rfl, ⟨v, _, rfl, hv, rfl⟩, hv'⟩ |
      ⟨v, v', rfl, hv, hv'⟩⟩
    · simpa using hread hv hv' (j := ['_']) (Or.inr ⟨'_', Or.inl rfl, rfl⟩)
    · simpa using hread hv hv' (j := ['-']) (Or.inr ⟨'-', Or.inr rfl, rfl⟩)
    · simpa using hread hv hv' (j := []) (Or.inl rfl)

theorem reads_secretKeyword :
    Reads secretKeyword pre w post gs ↔ gs = [] ∧ IsSecretKeyword w := by
  have hapi : Reads (.cat [.caseless "api", .opt (oneOf ['_', '-']), .caseless "key"]) pre w post
      gs ↔ gs = [] ∧ (Spells "api_key" w ∨ Spells "api-key" w ∨ Spells "apikey" w) :=
    reads_joined (List.all_iff_forall_prop.1 (by decide)) (List.all_iff_forall_prop.1 (by decide))
  have haccess : Reads (.cat [.caseless "access", .opt (oneOf ['_', '-']), .caseless "key"]) pre w
      post gs ↔ gs = [] ∧ (Spells "access_key" w ∨ Spells "access-key" w ∨ Spells "accesskey" w) :=
    reads_joined (List.all_iff_forall_prop.1 (by decide)) (List.all_iff_forall_prop.1 (by decide))
  have hauth : Reads (.cat [.caseless "auth", .opt (oneOf ['_', '-']), .caseless "token"]) pre w
      post gs ↔ gs = [] ∧ (Spells "auth_token" w ∨ Spells "auth-token" w ∨ Spells "authtoken" w) :=
    reads_joined (List.all_iff_forall_prop.1 (by decide)) (List.all_iff_forall_prop.1 (by decide))
  have hword : ∀ s ∈ ["password", "passwd", "pwd", "apikey", "secret", "bearer"],
      (Reads (.caseless s) pre w post gs ↔ gs = [] ∧ Spells s w) := by
    have hascii : ∀ s ∈ ["password", "passwd", "pwd", "apikey", "secret", "bearer"],
        s.toList.all (fun c => c.toNat < 128) = true := by decide
    exact fun s hs => reads_caseless (List.all_iff_forall_prop.1 (hascii s hs))
  simp only [List.forall_mem_cons] at hword
  simp only [secretKeyword, reads_any, List.mem_cons, List.not_mem_nil, or_false, exists_eq_or_imp,
    exists_eq_left, hapi, haccess, hauth, hword, IsSecretKeyword, secretKeywords,
    ← and_or_left, or_assoc, or_self_left]

/-- No keyword ends with another one. -/
theorem IsSecretKeyword.eq_of_suffix {K K' A B : List Char} (hK : IsSecretKeyword K)
    (hK' : IsSecretKeyword K') (h : A ++ K = B ++ K') : A = B ∧ K = K' := by
  have hfree : ∀ s ∈ secretKeywords, ∀ t ∈ secretKeywords,
      s.toList.map Char.toLower <:+ t.toList.map Char.toLower → s = t := by decide
  rcases hK with ⟨s, hs, hspell⟩
  rcases hK' with ⟨t, ht, hspell'⟩
  have hlen : K.length = K'.length := by
    rw [← List.length_map foldCase, ← @List.length_map _ _ K' foldCase, hspell, hspell']
    rcases List.append_eq_append_iff.1 h with ⟨c, -, rfl⟩ | ⟨c, -, rfl⟩
    · rw [hfree t ht s hs ⟨c.map foldCase, by rw [← hspell, ← hspell', List.map_append]⟩]
    · rw [hfree s hs t ht ⟨c.map foldCase, by rw [← hspell, ← hspell', List.map_append]⟩]
  exact List.append_inj' h hlen

/-- No keyword starts with another one. -/
theorem IsSecretKeyword.eq_of_beginning {K K' A B : List Char} (hK : IsSecretKeyword K)
    (hK' : IsSecretKeyword K') (h : K ++ A = K' ++ B) : K = K' ∧ A = B := by
  have hfree : ∀ s ∈ secretKeywords, ∀ t ∈ secretKeywords,
      s.toList.map Char.toLower <+: t.toList.map Char.toLower → s = t := by decide
  rcases hK with ⟨s, hs, hspell⟩
  rcases hK' with ⟨t, ht, hspell'⟩
  have hlen : K.length = K'.length := by
    rw [← List.length_map foldCase, ← @List.length_map _ _ K' foldCase, hspell, hspell']
    rcases List.append_eq_append_iff.1 h with ⟨c, rfl, -⟩ | ⟨c, rfl, -⟩
    · rw [hfree s hs t ht ⟨c.map foldCase, by rw [← hspell, ← hspell', List.map_append]⟩]
    · rw [hfree t ht s hs ⟨c.map foldCase, by rw [← hspell, ← hspell', List.map_append]⟩]
  exact List.append_inj h hlen

/-- A keyword ends with a letter. -/
theorem IsSecretKeyword.last (u : UnicodeClasses) {K : List Char} (hK : IsSecretKeyword K) :
    ∃ c ∈ K.getLast?, u.isSpace c = false := by
  have hends : ∀ s ∈ secretKeywords, (s.toList.map Char.toLower).getLast?.any
      (['d', 'y', 't', 'n', 'r'].contains ·) = true := by decide
  have hletter : ∀ n : Fin 128, (Char.ofNat n).toLower ∈ ['d', 'y', 't', 'n', 'r'] →
      (Char.ofNat n == ' ' || (9 ≤ (Char.ofNat n).toNat && (Char.ofNat n).toNat ≤ 13)) = false := by
    decide
  have hplain : ∀ d ∈ ['d', 'y', 't', 'n', 'r'], d.toNat < 128 ∧ d ≠ 's' ∧ d ≠ 'k' :=
    List.all_iff_forall_prop.1 (by decide)
  rcases hK with ⟨s, hs, hspell⟩
  rcases (Option.any_eq_true _ _).1 (hends s hs) with ⟨d, hd, hcontains⟩
  have hmem := List.contains_iff_mem.1 hcontains
  rw [← hspell, List.getLast?_map] at hd
  rcases Option.map_eq_some_iff.1 hd with ⟨c, hc, hfold⟩
  refine ⟨c, hc, ?_⟩
  have hd' := hplain d hmem
  rcases toLower_of_foldCase hfold hd'.1 hd'.2.1 hd'.2.2 with ⟨hascii, hlower⟩
  have hspace := hletter ⟨c.toNat, hascii⟩
  rw [Char.ofNat_toNat, hlower] at hspace
  rw [u.space_ascii c hascii]
  exact hspace hmem

/-! ## Values -/

/-- A character of a value. -/
def valueChar (u : UnicodeClasses) (c : Char) : Bool :=
  !(u.isSpace c || quotes.contains c || c == ',' || c == ';')

theorem mem_quotes {c : Char} : c ∈ quotes ↔ c = '\x27' ∨ c = '\x22' := by
  simp [quotes]

/-- What follows the spaces behind the sign: the value, with or without quotes. -/
def quotedValue (u : UnicodeClasses) (n : Nat) : Text.Pattern :=
  .cat [.opt (oneOf quotes), .group 1 (.atLeast n (.cls (valueChar u))), .opt (oneOf quotes)]

theorem assigned_eq (n : Nat) :
    assigned u n =
      .seq (spaces u) (.seq (oneOf [':', '=']) (.seq (spaces u) (quotedValue u n))) := rfl

/-- Nothing or one quote. -/
def OptionalQuote (w : List Char) : Prop :=
  w = [] ∨ ∃ q ∈ quotes, w = [q]

theorem reads_optionalQuote :
    Reads (.opt (oneOf quotes)) pre w post gs ↔ gs = [] ∧ OptionalQuote w := by
  rw [reads_opt]
  constructor
  · rintro (⟨rfl, rfl⟩ | ⟨-, q, hq, rfl, rfl⟩)
    · exact ⟨rfl, Or.inl rfl⟩
    · exact ⟨rfl, Or.inr ⟨q, by simpa using hq, rfl⟩⟩
  · rintro ⟨rfl, rfl | ⟨q, hq, rfl⟩⟩
    · exact Or.inl ⟨rfl, rfl⟩
    · exact Or.inr ⟨List.cons_ne_nil _ _, q, by simpa using hq, rfl, rfl⟩

theorem reads_quotedValue {n : Nat} (h : Reads (quotedValue u n) pre w post gs) :
    ∃ qo v qo', w = qo ++ v ++ qo' ∧ OptionalQuote qo ∧ n ≤ v.length ∧
      (∀ c ∈ v, valueChar u c = true) ∧ OptionalQuote qo' ∧
      gs = [(1, ⟨byteLen (pre ++ qo), byteLen (pre ++ qo ++ v)⟩)] := by
  rcases h with ⟨qo, _, _, _, rfl, rfl, hqo, v, qo', _, _, rfl, rfl, ⟨_, rfl, hv⟩, hqo'⟩
  rcases reads_optionalQuote.1 hqo with ⟨rfl, hopen⟩
  rcases reads_optionalQuote.1 hqo' with ⟨rfl, hclose⟩
  rcases reads_atLeast_cls.1 hv with ⟨hn, hall, rfl⟩
  exact ⟨qo, v, qo', by simp, hopen, hn, hall, hclose, by simp⟩

/-- A keyword, a sign and a value. -/
structure KeyValue (u : UnicodeClasses) (K s₁ : List Char) (c : Char) (s₂ qo v : List Char) :
    Prop where
  keyword : IsSecretKeyword K
  spaces₁ : ∀ x ∈ s₁, u.isSpace x = true
  sign : c = ':' ∨ c = '='
  spaces₂ : ∀ x ∈ s₂, u.isSpace x = true
  quote : OptionalQuote qo
  value : ∀ x ∈ v, valueChar u x = true

theorem reads_keyValueSecret (h : Reads (keyValueSecret u) pre w post gs) :
    ∃ K s₁ c s₂ qo v r, KeyValue u K s₁ c s₂ qo v ∧ w = K ++ s₁ ++ [c] ++ s₂ ++ qo ++ v ++ r ∧
      gs = [(1, ⟨byteLen (pre ++ (K ++ s₁ ++ [c] ++ s₂ ++ qo)),
        byteLen (pre ++ (K ++ s₁ ++ [c] ++ s₂ ++ qo ++ v))⟩)] := by
  rw [keyValueSecret_eq, assigned_eq] at h
  rcases h with ⟨K, _, _, _, rfl, rfl, hK, s₁, _, _, _, rfl, rfl, hs₁, _, _, _, _, rfl, rfl,
    ⟨c, hc, rfl, rfl⟩, s₂, _, _, _, rfl, rfl, hs₂, hvalue⟩
  rcases reads_secretKeyword.1 hK with ⟨rfl, hkeyword⟩
  rcases reads_star_cls.1 hs₁ with ⟨hspaces₁, rfl⟩
  rcases reads_star_cls.1 hs₂ with ⟨hspaces₂, rfl⟩
  rcases reads_quotedValue hvalue with ⟨qo, v, r, rfl, hqo, -, hv, -, rfl⟩
  refine ⟨K, s₁, c, s₂, qo, v, r, ⟨hkeyword, hspaces₁, by simpa using hc, hspaces₂, hqo, hv⟩,
    by simp, ?_⟩
  simp

/-! ## The match at a keyword with a quoted value -/

/-- A keyword, a sign and a value of at least four characters between two equal quotes. -/
structure QuotedSecret (u : UnicodeClasses) (K s₁ : List Char) (c : Char) (s₂ : List Char)
    (q : Char) (V : List Char) : Prop where
  keyword : IsSecretKeyword K
  spaces₁ : ∀ x ∈ s₁, u.isSpace x = true
  sign : c = ':' ∨ c = '='
  spaces₂ : ∀ x ∈ s₂, u.isSpace x = true
  quote : q ∈ quotes
  length : 4 ≤ V.length
  unquoted : ∀ x ∈ V, x ∉ quotes
  one_line : ∀ x ∈ V, x ≠ '\n' ∧ x ≠ '\r'

/-- From the keyword to the quote in front of the value. -/
def front (K s₁ : List Char) (c : Char) (s₂ : List Char) (q : Char) : List Char :=
  K ++ s₁ ++ [c] ++ s₂ ++ [q]

theorem not_isSpace_of_mem {c : Char} (h : c ∈ [':', '=', '\x27', '\x22']) :
    u.isSpace c = false := by
  have hascii : ∀ c ∈ [':', '=', '\x27', '\x22'], c.toNat < 128 ∧
      (c == ' ' || (9 ≤ c.toNat && c.toNat ≤ 13)) = false :=
    List.all_iff_forall_prop.1 (by decide)
  rw [u.space_ascii c (hascii c h).1]
  exact (hascii c h).2

theorem not_isSpace_of_quote {q : Char} (h : q ∈ quotes) : u.isSpace q = false :=
  not_isSpace_of_mem (by rcases mem_quotes.1 h with rfl | rfl <;> simp)

theorem not_valueChar_of_quote {q : Char} (h : q ∈ quotes) : valueChar u q = false := by
  simp [valueChar, h]

theorem not_valueChar_of_space {x : Char} (h : u.isSpace x = true) : valueChar u x = false := by
  simp [valueChar, h]

/-- All the keyword part can do at a keyword is read it. -/
theorem run_secretKeyword_then {K : List Char} (hK : IsSecretKeyword K) (b : Text.Pattern)
    (rest : List Char) :
    (run (.seq secretKeyword b) (.between pre (K ++ rest) gs)).head? =
      (run b (.between (pre ++ K) rest gs)).head? := by
  have hmem : .between (pre ++ K) rest gs ∈ run secretKeyword (.between pre (K ++ rest) gs) :=
    (run_describes _ _ _ _ _).2 ⟨K, rest, [], rfl, rfl, reads_secretKeyword.2 ⟨rfl, hK⟩⟩
  have hall : ∀ d ∈ run secretKeyword (.between pre (K ++ rest) gs),
      d = .between (pre ++ K) rest gs := by
    intro d hd
    rcases (run_describes _ _ _ _ _).1 hd with ⟨w, post, gs', hrest, rfl, hw⟩
    rcases reads_secretKeyword.1 hw with ⟨rfl, hkeyword⟩
    rcases hK.eq_of_beginning hkeyword hrest with ⟨rfl, rfl⟩
    rfl
  rw [run]
  generalize run secretKeyword (.between pre (K ++ rest) gs) = ds at hmem hall
  -- the results are copies of one cursor
  induction ds with
  | nil => cases hmem
  | cons d ds ih =>
      obtain rfl := hall d List.mem_cons_self
      rw [List.flatMap_cons, List.head?_append]
      cases hhead : (run b (.between (pre ++ K) rest gs)).head? with
      | some e => rfl
      | none =>
          cases ds with
          | nil => rfl
          | cons d' ds =>
              have hd' := hall d' (by simp)
              rw [Option.none_or, ih (by simp [hd']) fun e he => hall e (List.mem_cons_of_mem _ he),
                hhead]

/-- The value of a match at a value without spaces, commas and semicolons is all of it. -/
theorem run_quotedValue {q : Char} {V a : List Char} (hq : q ∈ quotes) (hlen : 4 ≤ V.length)
    (hV : ∀ x ∈ V, valueChar u x = true) :
    ∃ d ∈ (run (quotedValue u 4) (.between pre (q :: (V ++ q :: a)) [])).head?,
      d.groups = [(1, ⟨byteLen (pre ++ [q]), byteLen (pre ++ [q] ++ V)⟩)] ∧
        byteLen (pre ++ [q]) ≤ d.offset := by
  have hnone : run (.cat [.group 1 (.atLeast 4 (.cls (valueChar u))), .opt (oneOf quotes)])
      (.between pre (q :: (V ++ q :: a)) []) = [] := by
    refine run_eq_nil ?_ []
    rintro w post gs hrest ⟨v, _, _, _, rfl, rfl, ⟨_, rfl, hv⟩, -⟩
    rcases reads_atLeast_cls.1 hv with ⟨hn, hall, rfl⟩
    cases v with
    | nil => simp at hn
    | cons x v =>
        -- a value does not start with a quote
        have hxq : q = x := (List.cons.inj hrest).1
        have hx := hall x List.mem_cons_self
        rw [← hxq, not_valueChar_of_quote hq] at hx
        cases hx
  have hopen : run (quotedValue u 4) (.between pre (q :: (V ++ q :: a)) []) =
      run (.cat [.group 1 (.atLeast 4 (.cls (valueChar u))), .opt (oneOf quotes)])
        (.between (pre ++ [q]) (V ++ q :: a) []) :=
    run_opt_cls_then (by simpa using hq) hnone
  have hhead : (run (.atLeast 4 (.cls (valueChar u)))
      (.between (pre ++ [q]) (V ++ q :: a) [])).head? = some (.between (pre ++ [q] ++ V) (q :: a) []) :=
    head_run_atLeast_cls hV (by rintro x ⟨⟩; exact not_valueChar_of_quote hq) hlen
  have hcat : run (.cat [.group 1 (.atLeast 4 (.cls (valueChar u))), .opt (oneOf quotes)])
        (.between (pre ++ [q]) (V ++ q :: a) []) =
      ((run (.atLeast 4 (.cls (valueChar u))) (.between (pre ++ [q]) (V ++ q :: a) [])).map
        (Cursor.close 1 (byteLen (pre ++ [q])))).flatMap (run (.opt (oneOf quotes))) := rfl
  rw [hopen, hcat]
  generalize run (.atLeast 4 (.cls (valueChar u))) (.between (pre ++ [q]) (V ++ q :: a) []) = ds
    at hhead
  cases ds with
  | nil => cases hhead
  | cons e ds =>
      obtain rfl := Option.some.inj hhead
      -- the optional quote behind the value closes no group
      let after : Cursor := .between (pre ++ [q] ++ V) (q :: a)
        [(1, ⟨byteLen (pre ++ [q]), byteLen (pre ++ [q] ++ V)⟩)]
      have hne : run (.opt (oneOf quotes)) after ≠ [] := by
        simp [Pattern.opt, run, times, upTo]
      obtain ⟨d, hd⟩ := Option.isSome_iff_exists.1 (List.isSome_head?.2 hne)
      have hmem := List.mem_of_head? hd
      rcases (run_describes _ _ _ _ _).1 hmem with ⟨w, post, gs', -, rfl, hw⟩
      obtain rfl := (reads_optionalQuote.1 hw).1
      refine ⟨.between (pre ++ [q] ++ V ++ w) post _, ?_, rfl, ?_⟩
      · rw [List.map_cons, List.flatMap_cons, List.head?_append]
        show _ ∈ (run (.opt (oneOf quotes)) after).head?.or _
        rw [hd]
        rfl
      · simp only [Cursor.between, byteLen_append]
        omega

/-- The sign does not start with a space. -/
theorem run_sign_of_space (p : Text.Pattern) {x : Char} {xs : List Char} {gs : List (Nat × Span)}
    (hx : u.isSpace x = true) :
    run (.seq (oneOf [':', '=']) p) (.between pre (x :: xs) gs) = [] := by
  refine run_eq_nil ?_ gs
  rintro w post gs hrest ⟨_, v, _, _, rfl, rfl, ⟨y, hy, rfl, rfl⟩, -⟩
  obtain rfl : x = y := (List.cons.inj hrest).1
  have hy : x = ':' ∨ x = '=' := by simpa using hy
  rw [not_isSpace_of_mem (by rcases hy with rfl | rfl <;> simp)] at hx
  cases hx

/-- Nor does the value. -/
theorem run_quotedValue_of_space {x : Char} {xs : List Char} {gs : List (Nat × Span)}
    (hx : u.isSpace x = true) : run (quotedValue u 4) (.between pre (x :: xs) gs) = [] := by
  refine run_eq_nil ?_ gs
  intro w post gs hrest hw
  rcases reads_quotedValue hw with ⟨_, v, _, rfl, rfl | ⟨q', hq', rfl⟩, hn, hall, -⟩
  · cases v with
    | nil => simp at hn
    | cons y v =>
        cases hrest
        have hy := hall x List.mem_cons_self
        rw [not_valueChar_of_space hx] at hy
        cases hy
  · cases hrest
    rw [not_isSpace_of_quote hq'] at hx
    cases hx

/-- In front of the quote there is one way to match, so what the pattern prefers is decided there. -/
theorem run_front {K s₁ s₂ V a : List Char} {c q : Char} (h : QuotedSecret u K s₁ c s₂ q V)
    (b : List Char) :
    (run (keyValueSecret u) (.between b (front K s₁ c s₂ q ++ (V ++ q :: a)) [])).head? =
      (run (quotedValue u 4) (.between (b ++ K ++ s₁ ++ [c] ++ s₂) (q :: (V ++ q :: a)) [])).head? := by
  have hsep : u.isSpace c = false := by
    rcases h.sign with rfl | rfl <;> exact not_isSpace_of_mem (by simp)
  have hsign : ([':', '='].contains c) = true := by
    rcases h.sign with rfl | rfl <;> rfl
  have htext : front K s₁ c s₂ q ++ (V ++ q :: a) =
      K ++ (s₁ ++ (c :: (s₂ ++ (q :: (V ++ q :: a))))) := by simp [front]
  rw [htext, keyValueSecret_eq, run_secretKeyword_then h.keyword, assigned_eq]
  rw [spaces, run_star_cls_then h.spaces₁ (by rintro x ⟨⟩; exact hsep)
    fun _ _ _ _ => run_sign_of_space _]
  rw [oneOf, run_cls_then hsign]
  rw [run_star_cls_then h.spaces₂ (by rintro x ⟨⟩; exact not_isSpace_of_quote h.quote)
    fun _ _ _ _ => run_quotedValue_of_space]

/-- At a keyword with a quoted value of the class, the value is what the match captures. -/
theorem matchAt_quoted {K s₁ s₂ V a : List Char} {c q : Char} (h : QuotedSecret u K s₁ c s₂ q V)
    (hV : ∀ x ∈ V, valueChar u x = true) (b : List Char) :
    ∃ m, matchAt (keyValueSecret u) b.getLast? (front K s₁ c s₂ q ++ (V ++ q :: a)) (byteLen b) =
      some m ∧ byteLen b < m.span.stop ∧
        m.get 1 = some ⟨byteLen (b ++ front K s₁ c s₂ q), byteLen (b ++ front K s₁ c s₂ q ++ V)⟩ := by
  rcases @run_quotedValue u (b ++ K ++ s₁ ++ [c] ++ s₂) q V a h.quote h.length hV with
    ⟨d, hd, hgroups, hoffset⟩
  have hb : b ++ K ++ s₁ ++ [c] ++ s₂ ++ [q] = b ++ front K s₁ c s₂ q := by simp [front]
  rw [hb] at hgroups hoffset
  refine ⟨.upToCursor (byteLen b) d, ?_, ?_, ?_⟩
  · show (run _ (.between b _ [])).head?.map _ = _
    rw [run_front h, hd]
    rfl
  · have hpos := q.utf8Size_pos
    have hlt : byteLen b < byteLen (b ++ front K s₁ c s₂ q) := by
      simp only [front, byteLen_append, byteLen_cons]
      omega
    exact Nat.lt_of_lt_of_le hlt hoffset
  · simp [Match.get, Match.upToCursor, hgroups]

/-! ## Who takes the value -/

/-- A value that covers the first character of a quoted value starts there: it holds no quote. -/
theorem starts_behind_quote {K s₁ s₂ V K' s₁' s₂' qo v b a z : List Char} {c q c' : Char}
    (h : QuotedSecret u K s₁ c s₂ q V) (h' : KeyValue u K' s₁' c' s₂' qo v)
    (htext : b ++ front K s₁ c s₂ q ++ V ++ q :: a =
      pre ++ (K' ++ s₁' ++ [c'] ++ s₂' ++ qo ++ v) ++ z)
    (hstart : byteLen (pre ++ (K' ++ s₁' ++ [c'] ++ s₂' ++ qo)) ≤
      byteLen (b ++ front K s₁ c s₂ q))
    (hstop : byteLen (b ++ front K s₁ c s₂ q) <
      byteLen (pre ++ (K' ++ s₁' ++ [c'] ++ s₂' ++ qo ++ v))) :
    pre ++ (K' ++ s₁' ++ [c'] ++ s₂' ++ qo) = b ++ front K s₁ c s₂ q := by
  have htext' : (pre ++ (K' ++ s₁' ++ [c'] ++ s₂' ++ qo)) ++ (v ++ z) =
      (b ++ front K s₁ c s₂ q) ++ (V ++ q :: a) := by
    calc
      _ = pre ++ (K' ++ s₁' ++ [c'] ++ s₂' ++ qo ++ v) ++ z := by simp
      _ = b ++ front K s₁ c s₂ q ++ V ++ q :: a := htext.symm
      _ = (b ++ front K s₁ c s₂ q) ++ (V ++ q :: a) := by simp
  rcases append_of_byteLen_le htext' hstart with ⟨t, hfront, hvz⟩
  rcases List.eq_nil_or_concat t with rfl | ⟨t, x, rfl⟩
  · simpa using hfront.symm
  · exfalso
    rw [List.concat_eq_append] at hfront hvz
    have hx : x = q := by
      have hends : pre ++ (K' ++ s₁' ++ [c'] ++ s₂' ++ qo) ++ t ++ [x] =
          b ++ (K ++ s₁ ++ [c] ++ s₂) ++ [q] := by simpa [front] using hfront.symm
      exact List.singleton_injective (List.append_inj' hends rfl).2
    have hmem : x ∈ v := by
      have hvz' : t ++ x :: (V ++ q :: a) = [] ++ v ++ z := by simpa using hvz.symm
      refine mem_of_covers hvz' (Nat.zero_le _) ?_
      rw [hfront] at hstop
      have hpos := x.utf8Size_pos
      simp only [byteLen_append, byteLen_cons, byteLen_nil] at hstop ⊢
      omega
    have hvalue := h'.value x hmem
    rw [hx, not_valueChar_of_quote h.quote] at hvalue
    cases hvalue

/-- A value behind a quote has that quote: without one it would start behind a space or a sign. -/
theorem quote_of_starts {K s₁ s₂ V K' s₁' s₂' qo v b : List Char} {c q c' : Char}
    (h : QuotedSecret u K s₁ c s₂ q V) (h' : KeyValue u K' s₁' c' s₂' qo v)
    (hcut : pre ++ (K' ++ s₁' ++ [c'] ++ s₂' ++ qo) = b ++ front K s₁ c s₂ q) :
    ∃ q', qo = [q'] := by
  rcases h'.quote with rfl | ⟨q', -, rfl⟩
  · exfalso
    have hlast : u.isSpace q = true ∨ c' = q := by
      rcases List.eq_nil_or_concat s₂' with rfl | ⟨s, x, rfl⟩
      · right
        have hends : pre ++ (K' ++ s₁') ++ [c'] = b ++ (K ++ s₁ ++ [c] ++ s₂) ++ [q] := by
          simpa [front] using hcut
        exact List.singleton_injective (List.append_inj' hends rfl).2
      · left
        have hends : pre ++ (K' ++ s₁' ++ [c'] ++ s) ++ [x] =
            b ++ (K ++ s₁ ++ [c] ++ s₂) ++ [q] := by simpa [front] using hcut
        rw [← List.singleton_injective (List.append_inj' hends rfl).2]
        exact h'.spaces₂ x (by simp)
    rcases hlast with hspace | rfl
    · rw [not_isSpace_of_quote h.quote] at hspace
      cases hspace
    · have hq := mem_quotes.1 h.quote
      rcases h'.sign with rfl | rfl <;> simp at hq
  · exact ⟨q', rfl⟩

/-- A value that covers the first character of a quoted value belongs to the same keyword. -/
theorem eq_start_of_value {K s₁ s₂ V K' s₁' s₂' qo v b a z : List Char} {c q c' : Char}
    (h : QuotedSecret u K s₁ c s₂ q V) (h' : KeyValue u K' s₁' c' s₂' qo v)
    (htext : b ++ front K s₁ c s₂ q ++ V ++ q :: a =
      pre ++ (K' ++ s₁' ++ [c'] ++ s₂' ++ qo ++ v) ++ z)
    (hstart : byteLen (pre ++ (K' ++ s₁' ++ [c'] ++ s₂' ++ qo)) ≤
      byteLen (b ++ front K s₁ c s₂ q))
    (hstop : byteLen (b ++ front K s₁ c s₂ q) <
      byteLen (pre ++ (K' ++ s₁' ++ [c'] ++ s₂' ++ qo ++ v))) : pre = b := by
  have hsign : ∀ {c : Char}, c = ':' ∨ c = '=' → u.isSpace c = false := by
    rintro c (rfl | rfl) <;> exact not_isSpace_of_mem (by simp)
  have hcut := starts_behind_quote h h' htext hstart hstop
  rcases quote_of_starts h h' hcut with ⟨q', rfl⟩
  -- from the quote back to the keyword, each part ends where the other one does
  have hcut' : (pre ++ K' ++ s₁' ++ [c']) ++ s₂' ++ [q'] = (b ++ K ++ s₁ ++ [c]) ++ s₂ ++ [q] := by
    simpa [front] using hcut
  have hspaces := (List.append_inj' hcut' rfl).1
  have hbehind := (append_inj_of_last hspaces h'.spaces₂ h.spaces₂
    ⟨c', by simp, hsign h'.sign⟩ ⟨c, by simp, hsign h.sign⟩).1
  have hbefore := (List.append_inj' hbehind rfl).1
  have hkeyword : pre ++ K' = b ++ K := by
    rcases h'.keyword.last u with ⟨x, hx, hxs⟩
    rcases h.keyword.last u with ⟨y, hy, hys⟩
    refine (append_inj_of_last hbefore h'.spaces₁ h.spaces₁ ⟨x, ?_, hxs⟩ ⟨y, ?_, hys⟩).1
    · rw [List.getLast?_append, Option.mem_def.1 hx]
      rfl
    · rw [List.getLast?_append, Option.mem_def.1 hy]
      rfl
  exact (h'.keyword.eq_of_suffix h.keyword hkeyword).1

/-! ## Covered by passwords -/

/-- The detections of category `password` are the values of the key/value pattern. -/
theorem mem_detectAll_password {sc : Scanner} {text : List Char} {ds : List Detection}
    {d : Detection} (h : detectAll sc text = some ds) :
    (d ∈ ds ∧ d.category = .password) ↔
      ∃ m ∈ findIter (keyValueSecret sc.classes) text, ∃ v, m.get 1 = some v ∧
        d = .ofSpan v .password .high := by
  rcases detectAll_eq_some h with ⟨high, hhigh, hkept, hback⟩
  constructor
  · rintro ⟨hd, hcategory⟩
    have hmem := hback d hd (by rw [hcategory]; decide)
    rcases source_of_highConfidence hhigh hmem with hvalue | ⟨m, -, hcard⟩ | ⟨hne, -⟩
    · rcases List.mem_filterMap.1 hvalue with ⟨m, hm, hvalue⟩
      rcases Option.map_eq_some_iff.1 hvalue with ⟨v, hv, rfl⟩
      exact ⟨m, hm, v, hv, rfl⟩
    · exfalso
      rcases Option.bind_eq_some_iff.1 hcard with ⟨candidate, _, hcard⟩
      rcases Option.bind_eq_some_iff.1 hcard with ⟨window, _, hcard⟩
      rcases Option.map_eq_some_iff.1 (Option.some.inj hcard) with ⟨s, _, rfl⟩
      cases hcategory
    · exact absurd hcategory hne
  · rintro ⟨m, hm, v, hv, rfl⟩
    have hvalue : .ofSpan v .password .high ∈ pushValues text (keyValueSecret sc.classes) .password :=
      List.mem_filterMap.2 ⟨m, hm, by rw [hv]; rfl⟩
    simp only [highConfidence, bind, Option.bind_eq_some_iff, Option.some.injEq] at hhigh
    rcases hhigh with ⟨dashed, _, spaced, _, dashless, _, cards, _, rfl⟩
    refine ⟨hkept _ ?_, rfl⟩
    simp only [List.mem_append]
    exact Or.inl (Or.inl (Or.inl (Or.inl (Or.inl (Or.inl (Or.inr hvalue))))))

/-- Every byte of `v` lies in a password. -/
def PasswordCovered (sc : Scanner) (b v a : List Char) : Prop :=
  ∃ ds, detectAll sc (b ++ v ++ a) = some ds ∧
    ∀ i, byteLen b ≤ i → i < byteLen (b ++ v) →
      ∃ d ∈ ds, d.category = .password ∧ d.span.Covers i

/-- The value has no character where the pattern stops, and no match runs over its keyword. -/
structure Taken (u : UnicodeClasses) (b front V rest : List Char) : Prop where
  unbroken : ∀ x ∈ V, u.isSpace x = false ∧ x ≠ ',' ∧ x ≠ ';'
  free : ∀ m ∈ findIter (keyValueSecret u) (b ++ front ++ V ++ rest),
    ¬ m.span.Inside (byteLen b)

section Quoted

variable {sc : Scanner} {b K s₁ s₂ V a : List Char} {c q : Char}

theorem QuotedSecret.valueChar_iff (h : QuotedSecret u K s₁ c s₂ q V) :
    (∀ x ∈ V, valueChar u x = true) ↔
      ∀ x ∈ V, u.isSpace x = false ∧ x ≠ ',' ∧ x ≠ ';' := by
  refine forall₂_congr fun x hx => ?_
  have hq := h.unquoted x hx
  simp [valueChar, hq, and_assoc]

/-- The match that captures the value of a covered byte of a quoted value. -/
theorem value_of_passwordCovered {ds : List Detection} {i : Nat} {text : List Char}
    (hds : detectAll sc text = some ds)
    (h : ∃ d ∈ ds, d.category = .password ∧ d.span.Covers i) :
    ∃ pre K s₁ c s₂ qo v r z gs, KeyValue sc.classes K s₁ c s₂ qo v ∧
      text = pre ++ (K ++ s₁ ++ [c] ++ s₂ ++ qo ++ v ++ r) ++ z ∧
      .ofReading pre (K ++ s₁ ++ [c] ++ s₂ ++ qo ++ v ++ r) gs ∈
        findIter (keyValueSecret sc.classes) text ∧
      byteLen (pre ++ (K ++ s₁ ++ [c] ++ s₂ ++ qo)) ≤ i ∧
      i < byteLen (pre ++ (K ++ s₁ ++ [c] ++ s₂ ++ qo ++ v)) := by
  rcases h with ⟨d, hd, hcategory, hi⟩
  rcases (mem_detectAll_password hds).1 ⟨hd, hcategory⟩ with ⟨m, hm, s, hs, rfl⟩
  rcases reads_of_mem_findIter hm with ⟨pre, w, z, gs, htext, rfl, hw⟩
  rcases reads_keyValueSecret hw with ⟨K, s₁, c, s₂, qo, v, r, hkv, rfl, rfl⟩
  obtain rfl := Option.some.inj hs
  exact ⟨pre, K, s₁, c, s₂, qo, v, r, z, _, hkv, htext, hm, hi⟩

/-- A covered value has no character where the pattern stops. -/
theorem unbroken_of_passwordCovered (h : QuotedSecret sc.classes K s₁ c s₂ q V)
    (hcovered : PasswordCovered sc (b ++ front K s₁ c s₂ q) V (q :: a)) :
    ∀ x ∈ V, valueChar sc.classes x = true := by
  rcases hcovered with ⟨ds, hds, hcovered⟩
  intro x hx
  obtain ⟨V₁, V₂, rfl⟩ := List.append_of_mem hx
  have hlt : byteLen (b ++ front K s₁ c s₂ q ++ V₁) <
      byteLen (b ++ front K s₁ c s₂ q ++ (V₁ ++ x :: V₂)) := by
    have hpos := x.utf8Size_pos
    simp only [byteLen_append, byteLen_cons]
    omega
  -- the first byte of the character lies in a value, and so does the character
  rcases value_of_passwordCovered hds (hcovered _ (by simp) hlt) with
    ⟨pre, K', s₁', c', s₂', qo, v, r, z, gs, hkv, htext, -, hstart, hstop⟩
  have hchar : (b ++ front K s₁ c s₂ q ++ V₁) ++ x :: (V₂ ++ q :: a) =
      (pre ++ (K' ++ s₁' ++ [c'] ++ s₂' ++ qo)) ++ v ++ (r ++ z) := by simpa using htext
  exact hkv.value x (mem_of_covers hchar hstart (by simpa using hstop))

/-- The first character of a covered value is captured at its keyword, so no other match runs over
the keyword. -/
theorem free_of_passwordCovered (h : QuotedSecret sc.classes K s₁ c s₂ q V)
    (hcovered : PasswordCovered sc (b ++ front K s₁ c s₂ q) V (q :: a)) :
    ∀ m ∈ findIter (keyValueSecret sc.classes) (b ++ front K s₁ c s₂ q ++ V ++ q :: a),
      ¬ m.span.Inside (byteLen b) := by
  rcases hcovered with ⟨ds, hds, hcovered⟩
  intro m hm hin
  have hlt : byteLen (b ++ front K s₁ c s₂ q) < byteLen (b ++ front K s₁ c s₂ q ++ V) := by
    have hV := length_le_byteLen V
    have hlen := h.length
    rw [byteLen_append _ V]
    omega
  rcases value_of_passwordCovered hds (hcovered _ (Nat.le_refl _) hlt) with
    ⟨pre, K', s₁', c', s₂', qo, v, r, z, gs, hkv, htext, hmem, hstart, hstop⟩
  have hpre : pre = b := by
    refine eq_start_of_value (a := a) (z := r ++ z) h hkv ?_ hstart hstop
    simpa using htext
  subst hpre
  have hcovers : (Match.ofReading pre (K' ++ s₁' ++ [c'] ++ s₂' ++ qo ++ v ++ r) gs).span.Covers
      (byteLen pre) := by
    refine ⟨Nat.le_refl _, ?_⟩
    simp only [Match.ofReading, byteLen_append] at hstop ⊢
    omega
  have heq := eq_of_mem_findIter hm hmem ⟨Nat.le_of_lt hin.1, hin.2⟩ hcovers
  rw [heq] at hin
  exact Nat.lt_irrefl _ hin.1

theorem passwordCovered_of_taken {ds : List Detection} (h : QuotedSecret sc.classes K s₁ c s₂ q V)
    (htaken : Taken sc.classes b (front K s₁ c s₂ q) V (q :: a))
    (hds : detectAll sc (b ++ front K s₁ c s₂ q ++ V ++ q :: a) = some ds) :
    PasswordCovered sc (b ++ front K s₁ c s₂ q) V (q :: a) := by
  refine ⟨ds, hds, fun i hi hi' => ?_⟩
  rcases matchAt_quoted (a := a) h (h.valueChar_iff.2 htaken.unbroken) b with ⟨m, hm, hne, hvalue⟩
  have htext : b ++ (front K s₁ c s₂ q ++ (V ++ q :: a)) =
      b ++ front K s₁ c s₂ q ++ V ++ q :: a := by simp
  have hmem : m ∈ findIter (keyValueSecret sc.classes)
      (b ++ front K s₁ c s₂ q ++ V ++ q :: a) := by
    rcases findIter_complete hm hne with hmem | ⟨m', hmem, hin⟩
    · rwa [htext] at hmem
    · rw [htext] at hmem
      exact absurd hin (htaken.free m' hmem)
  rcases (mem_detectAll_password hds).2 ⟨m, hmem, _, hvalue, rfl⟩ with ⟨hd, hcategory⟩
  exact ⟨_, hd, hcategory, hi, hi'⟩

/-- A quoted value is covered by passwords exactly when it has no space, comma or semicolon and no
match of the pattern runs over its keyword.  No scan returns a part of it then, unless the engine
leaves the tail of a detection that it skips. -/
theorem quotedSecret_removed_iff (h : QuotedSecret sc.classes K s₁ c s₂ q V) :
    (PasswordCovered sc (b ++ front K s₁ c s₂ q) V (q :: a) ↔
      NineDigitRunsCut sc.classes (b ++ front K s₁ c s₂ q ++ V ++ q :: a) ∧
        Taken sc.classes b (front K s₁ c s₂ q) V (q :: a)) ∧
    (NineDigitRunsCut sc.classes (b ++ front K s₁ c s₂ q ++ V ++ q :: a) →
      Taken sc.classes b (front K s₁ c s₂ q) V (q :: a) →
      SkippedTailsClosed sc (b ++ front K s₁ c s₂ q ++ V ++ q :: a) →
        StretchRemoved sc (b ++ front K s₁ c s₂ q) V (q :: a)) := by
  have hiff : PasswordCovered sc (b ++ front K s₁ c s₂ q) V (q :: a) ↔
      NineDigitRunsCut sc.classes (b ++ front K s₁ c s₂ q ++ V ++ q :: a) ∧
        Taken sc.classes b (front K s₁ c s₂ q) V (q :: a) := by
    rw [← detectAll_isSome_iff_nineDigitRunsCut]
    constructor
    · intro hcovered
      have hsome : (detectAll sc (b ++ front K s₁ c s₂ q ++ V ++ q :: a)).isSome := by
        rcases hcovered with ⟨ds, hds, -⟩
        exact Option.isSome_iff_exists.2 ⟨ds, hds⟩
      exact ⟨hsome, h.valueChar_iff.1 (unbroken_of_passwordCovered h hcovered),
        free_of_passwordCovered h hcovered⟩
    · rintro ⟨hsome, htaken⟩
      rcases Option.isSome_iff_exists.1 hsome with ⟨ds, hds⟩
      exact passwordCovered_of_taken h htaken hds
  refine ⟨hiff, fun hcut htaken htails => ?_⟩
  have hV : V ≠ [] := List.ne_nil_of_length_pos (Nat.lt_of_lt_of_le (Nat.zero_lt_succ 3) h.length)
  rcases hiff.2 ⟨hcut, htaken⟩ with ⟨ds, hds, hcovered⟩
  refine stretchRemoved_of_covered hV hds (fun i hi hi' => ?_) htails
  rcases hcovered i hi hi' with ⟨d, hd, -, hcovers⟩
  exact ⟨d.span, List.mem_map_of_mem hd, hcovers⟩

end Quoted

/-- A single-word value is removed. -/
theorem quoted_word_removed :
    StretchRemoved .reference "password: '".toList "hunter2".toList "'".toList := by
  have hds : detectAll .reference "password: 'hunter2'".toList =
      some [⟨11, 18, .password, .high⟩] := by decide +kernel
  have h : QuotedSecret Scanner.reference.classes "password".toList [] ':' [' '] '\x27'
      "hunter2".toList :=
    ⟨by decide, List.all_iff_forall_prop.1 (by decide), by decide,
      List.all_iff_forall_prop.1 (by decide), by decide, by decide,
      List.all_iff_forall_prop.1 (by decide), List.all_iff_forall_prop.1 (by decide)⟩
  have hiff := @quotedSecret_removed_iff .reference [] _ _ _ _ [] _ _ h
  have hcovered : PasswordCovered .reference "password: '".toList "hunter2".toList "'".toList :=
    ⟨_, hds, fun i hi hi' => ⟨_, List.mem_singleton_self _, rfl, hi, hi'⟩⟩
  have htails : SkippedTailsClosed .reference "password: 'hunter2'".toList := by
    intro ds hds' _
    obtain rfl := Option.some.inj (hds'.symm.trans hds)
    decide
  exact hiff.2 (hiff.1.1 hcovered).1 (hiff.1.1 hcovered).2 htails

/-- The value ends at its first space, and the other two words stay in the redacted text. -/
theorem quoted_passphrase_stored :
    QuotedSecret Scanner.reference.classes "password".toList [] '=' [] '\x22'
        "correct horse battery".toList ∧
      RedactionEngine.scan .reference "password=\x22correct horse battery\x22".toList =
        some (.redacted "password=\x22[REDACTED:password] horse battery\x22".toList) ∧
      ¬ StretchRemoved .reference "password=\x22".toList "correct horse battery".toList
        "\x22".toList := by
  have hds : detectAll .reference "password=\x22correct horse battery\x22".toList =
      some [⟨10, 17, .password, .high⟩] := by decide +kernel
  refine ⟨⟨by decide, List.all_iff_forall_prop.1 (by decide), by decide,
      List.all_iff_forall_prop.1 (by decide), by decide, by decide,
      List.all_iff_forall_prop.1 (by decide), List.all_iff_forall_prop.1 (by decide)⟩,
    by decide +kernel, fun hremoved => ?_⟩
  rcases hremoved.covered with ⟨ds, hds', hcovered⟩
  obtain rfl := Option.some.inj (hds'.symm.trans hds)
  exact absurd (hcovered 20 (by decide) (by decide)) (by decide)

end Redaction
end HiddenSteps
