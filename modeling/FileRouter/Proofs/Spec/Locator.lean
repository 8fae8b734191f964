import FileRouter.Proofs.Text
import FileRouter.Spec.Locator
import Mathlib
/-!
What is read from a locator.

The scheme of a locator is read in lower case, so what is found as a scheme never has a capital (`cutScheme_cases`),
and there is none at all in front of a question mark (`cutScheme_query`). A locator whose target has no character that
could mean something else is read part by part as it stands (`read_plain`).
-/

namespace FileRouter.Locator

variable {scheme target tail text : Text}

/-! ### Schemes -/

/-- Whether a text is a scheme as it is read: a letter and what may stand behind it, and no capitals. -/
def isLowerScheme : Text → Bool
  | [] => false
  | first :: rest => first.isLower && rest.all fun c => isSchemeChar c && !c.isUpper

theorem isSchemeChar_of_isLower {c : Char} (h : c.isLower = true) : isSchemeChar c = true := by
  simp [isSchemeChar, Char.isAlphanum, Char.isAlpha, h]

/-- The characters of schemes are ASCII characters that can be seen. -/
theorem toNat_of_isSchemeChar {c : Char} (h : isSchemeChar c = true) : 0x2b ≤ c.toNat ∧ c.toNat ≤ 0x7a := by
  simp only [isSchemeChar, Char.isAlphanum, Char.isAlpha, Char.isUpper, Char.isLower, Char.isDigit, Bool.or_eq_true,
    Bool.and_eq_true, decide_eq_true_eq, beq_iff_eq, ge_iff_le, UInt32.le_iff_toNat_le] at h
  rw [Char.toNat]
  rcases h with ((((h | h) | h) | rfl) | rfl) | rfl
  · exact ⟨le_trans (by decide) h.1, le_trans h.2 (by decide)⟩
  · exact ⟨le_trans (by decide) h.1, le_trans h.2 (by decide)⟩
  · exact ⟨le_trans (by decide) h.1, le_trans h.2 (by decide)⟩
  · decide
  · decide
  · decide

theorem isBlank_of_isSchemeChar {c : Char} (h : isSchemeChar c = true) : Text.isBlank c = false := by
  obtain ⟨hlow, hhigh⟩ := toNat_of_isSchemeChar h
  simp only [Text.isBlank, Bool.or_eq_false_iff, Bool.and_eq_false_iff, decide_eq_false_iff_not, beq_eq_false_iff_ne]
  omega

theorem isSchemeChar_toLower {c : Char} (h : isSchemeChar c = true) : isSchemeChar c.toLower = true := by
  by_cases hu : c.isUpper = true
  · have halpha : c.isAlpha = true := by rw [Char.isAlpha, hu, Bool.true_or]
    exact isSchemeChar_of_isLower ((Char.isLower_toLower_eq_isAlpha c).trans halpha)
  · rwa [Char.toLower_eq_of_not_isUpper hu]

theorem isLowerScheme_asciiLower {token : Text} (hfirst : token.head?.any Char.isAlpha = true)
    (hall : token.all isSchemeChar = true) : isLowerScheme (Text.asciiLower token) = true := by
  cases token with
  | nil => simp at hfirst
  | cons first rest =>
    rw [List.head?_cons, Option.any_some] at hfirst
    rw [List.all_cons, Bool.and_eq_true, List.all_eq_true] at hall
    rw [Text.asciiLower, List.map_cons, isLowerScheme, Bool.and_eq_true, List.all_eq_true,
      Char.isLower_toLower_eq_isAlpha]
    refine ⟨hfirst, fun c hc => ?_⟩
    obtain ⟨d, hd, rfl⟩ := List.mem_map.mp hc
    rw [Bool.and_eq_true, isSchemeChar_toLower (hall.2 d hd), Char.isUpper_toLower_eq_false]
    exact ⟨rfl, rfl⟩

theorem isSchemeChar_of_mem (h : isLowerScheme scheme = true) {c : Char} (hc : c ∈ scheme) :
    isSchemeChar c = true ∧ c.isUpper = false := by
  cases scheme with
  | nil => simp [isLowerScheme] at h
  | cons first rest =>
    rw [isLowerScheme, Bool.and_eq_true, List.all_eq_true] at h
    rcases List.mem_cons.mp hc with rfl | hc
    · exact ⟨isSchemeChar_of_isLower h.1, Bool.eq_false_iff.mpr (Char.not_isUpper_of_isLower h.1)⟩
    · simpa using h.2 c hc

theorem ne_nil_of_isLowerScheme (h : isLowerScheme scheme = true) : scheme ≠ [] := by
  rintro rfl
  simp [isLowerScheme] at h

theorem isBlank_of_mem (h : isLowerScheme scheme = true) : ∀ c ∈ scheme, Text.isBlank c = false :=
  fun _ hc => isBlank_of_isSchemeChar (isSchemeChar_of_mem h hc).1

theorem notMem_of_isLowerScheme (h : isLowerScheme scheme = true) {c : Char} (hc : isSchemeChar c = false) :
    c ∉ scheme :=
  fun hm => Bool.eq_false_iff.mp hc (isSchemeChar_of_mem h hm).1

theorem asciiLower_of_isLowerScheme (h : isLowerScheme scheme = true) : Text.asciiLower scheme = scheme := by
  conv_rhs => rw [← List.map_id scheme]
  refine List.map_congr_left fun c hc => Char.toLower_eq_of_not_isUpper ?_
  exact Bool.eq_false_iff.mp (isSchemeChar_of_mem h hc).2

/-- What is found as a scheme is in lower case. -/
theorem cutScheme_cases (text : Text) : (cutScheme text).1 = [] ∨ isLowerScheme (cutScheme text).1 = true := by
  rw [cutScheme]
  split_ifs with h
  · rw [Bool.and_eq_true, Bool.and_eq_true] at h
    exact Or.inr (isLowerScheme_asciiLower h.1.2 h.2)
  · exact Or.inl rfl

theorem cutScheme_join (h : isLowerScheme scheme = true) (rest : Text) :
    cutScheme (scheme ++ ':' :: rest) = (scheme, rest) := by
  have hcolon : ':' ∉ scheme := notMem_of_isLowerScheme h (by decide)
  have hfirst : scheme.head?.any Char.isAlpha = true := by
    cases scheme with
    | nil => simp [isLowerScheme] at h
    | cons first rest =>
      rw [isLowerScheme, Bool.and_eq_true] at h
      simp [Char.isAlpha, h.1]
  have hall : scheme.all isSchemeChar = true := List.all_eq_true.mpr fun c hc => (isSchemeChar_of_mem h hc).1
  have helem : (scheme ++ ':' :: rest).elem ':' = true := by simp
  rw [cutScheme, Text.before_append_cons hcolon, Text.after_append_cons hcolon]
  simp only [helem, hfirst, hall, Bool.and_true, if_true, asciiLower_of_isLowerScheme h]

/-- There is no scheme when a question mark stands in front of the first colon. -/
theorem cutScheme_query {front : Text} (h : ':' ∉ front) (rest : Text) : (cutScheme (front ++ '?' :: rest)).1 = [] := by
  rw [cutScheme]
  split_ifs with hscheme
  · exfalso
    rw [Bool.and_eq_true, List.all_eq_true] at hscheme
    have hquestion : '?' ∈ Text.before ':' (front ++ '?' :: rest) := by
      rw [Text.before, List.takeWhile_append_of_pos, List.takeWhile_cons_of_pos (by decide)]
      · simp
      · exact fun c hc => by simpa using fun he : c = ':' => h (he ▸ hc)
    exact absurd (hscheme.2 _ hquestion) (by decide)
  · rfl

/-! ### Cleaning -/

/-- Whether a character does not count wherever it stands. -/
def isIgnored (c : Char) : Bool := c == '\t' || c == '\r' || c == '\n'

theorem cleaned_eq_self (hhead : text.head?.all fun c => 0x20 < c.toNat) (hall : ∀ c ∈ text, isIgnored c = false) :
    cleaned text = text := by
  have hdrop : (text.dropWhile fun c => c.toNat ≤ 0x20) = text := by
    cases text with
    | nil => rfl
    | cons c rest => exact List.dropWhile_cons_of_neg (by simpa using hhead)
  rw [cleaned, hdrop, List.filter_eq_self]
  intro c hc
  have hkept := hall c hc
  simp only [isIgnored, Bool.or_eq_false_iff, beq_eq_false_iff_ne] at hkept
  simp [hkept]

theorem isIgnored_of_isSchemeChar {c : Char} (h : isSchemeChar c = true) : isIgnored c = false := by
  rw [Bool.eq_false_iff]
  intro hc
  simp only [isIgnored, Bool.or_eq_true, beq_iff_eq] at hc
  rcases hc with (rfl | rfl) | rfl <;> exact absurd h (by decide)

theorem head_of_isLowerScheme (h : isLowerScheme scheme = true) (rest : Text) :
    (scheme ++ rest).head?.all fun c => 0x20 < c.toNat := by
  cases scheme with
  | nil => simp [isLowerScheme] at h
  | cons first others =>
    rw [isLowerScheme, Bool.and_eq_true, Char.isLower, Bool.and_eq_true, decide_eq_true_eq, decide_eq_true_eq] at h
    have hlow : ('a').toNat ≤ first.toNat := h.1.1
    have ha : ('a').toNat = 0x61 := rfl
    rw [List.cons_append, List.head?_cons, Option.all_some, decide_eq_true_eq]
    omega

theorem cleaned_join (h : isLowerScheme scheme = true) {rest : Text} (hrest : ∀ c ∈ rest, isIgnored c = false) :
    cleaned (scheme ++ ':' :: rest) = scheme ++ ':' :: rest := by
  refine cleaned_eq_self (head_of_isLowerScheme h _) fun c hc => ?_
  rcases List.mem_append.mp hc with hc | hc
  · exact isIgnored_of_isSchemeChar (isSchemeChar_of_mem h hc).1
  · rcases List.mem_cons.mp hc with rfl | hc
    · rfl
    · exact hrest c hc

/-- Cleaning keeps a question mark, and what is in front of it. -/
theorem cleaned_query (front rest : Text) :
    ∃ front' rest', cleaned (front ++ '?' :: rest) = front' ++ '?' :: rest' ∧ front' ⊆ front := by
  let keep : Char → Bool := fun c => c != '\t' && c != '\r' && c != '\n'
  let low : Char → Bool := fun c => c.toNat ≤ 0x20
  -- the question mark is not stripped, so nothing behind it is
  have hdrop : ((front ++ '?' :: rest).dropWhile low) = front.dropWhile low ++ '?' :: rest := by
    rw [List.dropWhile_append]
    split_ifs with hnil
    · rw [List.isEmpty_iff.mp hnil, List.nil_append]
      exact List.dropWhile_cons_of_neg (by decide)
    · rfl
  refine ⟨(front.dropWhile low).filter keep, rest.filter keep, ?_, ?_⟩
  · show ((front ++ '?' :: rest).dropWhile low).filter keep = _
    rw [hdrop, List.filter_append, List.filter_cons_of_pos (by decide)]
  · exact fun c hc => (List.dropWhile_suffix _).subset (List.mem_of_mem_filter hc)

/-! ### Parts -/

theorem scheme_of_read {locator : Locator} (h : read text = .ok locator) :
    locator.scheme = (cutScheme (cleaned text)).1 := by
  rw [read] at h
  simp only at h
  split at h
  · simp at h
  · split at h
    · simp at h
    · rw [← Except.ok.inj h]

/-- Whether a character means nothing but itself in a target: it ends no part, opens no address and is not ignored. -/
def isPlain (c : Char) : Bool :=
  !isIgnored c && c != '?' && c != '#' && c != ';' && c != '[' && c != ']' && !disguisedDelimiters.contains c.toNat

theorem isIgnored_of_isPlain {c : Char} (h : isPlain c = true) : isIgnored c = false := by
  simp only [isPlain, Bool.and_eq_true, Bool.not_eq_true'] at h
  exact h.1.1.1.1.1.1

section Plain

variable (ht : ∀ c ∈ target, isPlain c = true)
include ht

theorem notMem_of_isPlain {c : Char} (hc : isPlain c = false) : c ∉ target :=
  fun hm => Bool.eq_false_iff.mp hc (ht c hm)

theorem bracketFault?_of_isPlain : bracketFault? target = none := by
  have hopen : target.elem '[' = false := by simpa using notMem_of_isPlain ht (c := '[') (by decide)
  have hclose : target.elem ']' = false := by simpa using notMem_of_isPlain ht (c := ']') (by decide)
  simp only [bracketFault?, hopen, hclose, bne_self_eq_false, Bool.false_eq_true, if_false]

theorem characterFault?_of_isPlain : characterFault? target = none := by
  refine if_neg ?_
  rw [Bool.not_eq_true, List.any_eq_false]
  intro c hc
  have hplain := ht c hc
  rw [isPlain, Bool.and_eq_true, Bool.not_eq_true'] at hplain
  exact Bool.eq_false_iff.mp hplain.2

theorem dropParameters_of_isPlain : dropParameters target = target := by
  have hsemicolon : ';' ∉ Text.afterLast '/' target := by
    intro hm
    rw [← Text.beforeLast_append_afterLast '/' target] at ht
    exact Bool.eq_false_iff.mp (by decide) (ht ';' (List.mem_append_right _ hm))
  rw [dropParameters, Text.before_of_notMem hsemicolon, Text.beforeLast_append_afterLast]

end Plain

/-- The host ends in front of the query at the latest. -/
theorem cutHost_append (htail : tail.head?.all endsHost) :
    cutHost ('/' :: '/' :: (target ++ tail)) =
      (target.takeWhile (!endsHost ·), target.dropWhile (!endsHost ·) ++ tail) := by
  -- what follows the target ends the host, if the target has not ended it before
  have hends : tail.takeWhile (!endsHost ·) = [] ∧ tail.dropWhile (!endsHost ·) = tail := by
    cases tail with
    | nil => exact ⟨rfl, rfl⟩
    | cons c rest =>
      have hc : (!endsHost c) ≠ true := by simpa using htail
      exact ⟨List.takeWhile_cons_of_neg hc, List.dropWhile_cons_of_neg hc⟩
  rw [cutHost, List.takeWhile_append, List.dropWhile_append, hends.1, hends.2, List.append_nil]
  refine Prod.ext ?_ ?_
  · show (if _ then _ else _) = _
    split_ifs with hall
    · exact ((List.takeWhile_prefix _).eq_of_length hall).symm
    · rfl
  · show (if _ then _ else _) = _
    split_ifs with hnil
    · rw [List.isEmpty_iff.mp hnil, List.nil_append]
    · rfl

/-- The query begins at the first question mark, if there is one. -/
theorem cut_query {path : Text} (hquestion : '?' ∉ path) (htail : tail.head?.all (· == '?')) :
    Text.before '?' (path ++ tail) = path ∧ Text.after '?' (path ++ tail) = tail.tail := by
  cases tail with
  | nil =>
    rw [List.append_nil]
    exact ⟨Text.before_of_notMem hquestion, Text.after_of_notMem hquestion⟩
  | cons c rest =>
    obtain rfl : c = '?' := by simpa using htail
    exact ⟨Text.before_append_cons hquestion rest, Text.after_append_cons hquestion rest⟩

/-- **A plain locator** is read as it stands; its target is cut into a host and a path. -/
theorem read_plain (hs : isLowerScheme scheme = true) (ht : ∀ c ∈ target, isPlain c = true)
    (htail : tail.head?.all (· == '?')) (hquery : ∀ c ∈ tail, c ≠ '#' ∧ isIgnored c = false) :
    ∃ host path, host ++ path = target ∧
      read (scheme ++ "://".toList ++ (target ++ tail)) = .ok ⟨scheme, host, path, tail.tail⟩ := by
  have htext : scheme ++ "://".toList ++ (target ++ tail) = scheme ++ ':' :: '/' :: '/' :: (target ++ tail) := by
    rw [List.append_assoc]
    rfl
  have hhost : ∀ c ∈ target.takeWhile (!endsHost ·), isPlain c = true :=
    fun c hc => ht c ((List.takeWhile_prefix _).subset hc)
  have hpath : ∀ c ∈ target.dropWhile (!endsHost ·), isPlain c = true :=
    fun c hc => ht c ((List.dropWhile_suffix _).subset hc)
  -- nothing is stripped or removed, since no character of the spec is ignored
  have hclean : cleaned (scheme ++ ':' :: '/' :: '/' :: (target ++ tail)) =
      scheme ++ ':' :: '/' :: '/' :: (target ++ tail) := by
    refine cleaned_join hs fun c hc => ?_
    simp only [List.mem_cons, List.mem_append] at hc
    rcases hc with rfl | rfl | hc | hc
    · rfl
    · rfl
    · exact isIgnored_of_isPlain (ht c hc)
    · exact (hquery c hc).2
  have hends : tail.head?.all endsHost := by
    cases tail with
    | nil => rfl
    | cons c rest =>
      obtain rfl : c = '?' := by simpa using htail
      rfl
  -- no mark of a fragment is in it, and the first question mark is the one in front of the query
  have hfragment : '#' ∉ target.dropWhile (!endsHost ·) ++ tail := by
    rw [List.mem_append, not_or]
    exact ⟨notMem_of_isPlain hpath (by decide), fun hm => (hquery _ hm).1 rfl⟩
  have hcut := cut_query (notMem_of_isPlain hpath (by decide)) htail
  refine ⟨target.takeWhile (!endsHost ·), _, List.takeWhile_append_dropWhile, ?_⟩
  rw [htext, read, hclean, cutScheme_join hs]
  simp only [cutHost_append hends, bracketFault?_of_isPlain hhost, characterFault?_of_isPlain hhost,
    Text.before_of_notMem hfragment, hcut, dropParameters_of_isPlain hpath, ite_self]

end FileRouter.Locator
