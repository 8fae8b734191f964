import FileRouter.Proofs.Scheme
import Mathlib.Computability.Language
import Mathlib.Data.Char
import Mathlib.Order.Interval.Set.Defs
/-!
Paths as they are written: a scheme, a colon and a rest.

There are two ways to take a scheme off a path. One looks for the first colon and at the token in front of it
(`split`, `parse?`), the other compares the beginning of the path with a given scheme (`has`, `strip`). What a scheme is
can be said by a pattern (`isValid_iff`). The pattern has no colon in it, so a path is written in one way at most, and
both ways find it (`schemes_read_back`).
-/

namespace FileRouter.Scheme

open scoped Computability

variable {scheme token path rest : Text}

/-! ### The pattern -/

/-- The texts of one character of a class. -/
def oneOf (chars : Set Char) : Language Char := {text | ∃ c ∈ chars, text = [c]}

/-- The ASCII letters. -/
def letters : Set Char := Set.Icc 'A' 'Z' ∪ Set.Icc 'a' 'z'

/-- The letters, digits and signs that a scheme is made of. -/
def schemeChars : Set Char := letters ∪ Set.Icc '0' '9' ∪ {'+', '.', '-'}

/-- The schemes: `[A-Za-z][A-Za-z0-9+.-]+`. -/
def pattern : Language Char := oneOf letters * (oneOf schemeChars * (oneOf schemeChars)∗)

theorem isLetter_iff {c : Char} : isLetter c = true ↔ c ∈ letters := by
  have hupper : c.isUpper = true ↔ c ∈ Set.Icc 'A' 'Z' := decide_eq_true_iff
  have hlower : c.isLower = true ↔ c ∈ Set.Icc 'a' 'z' :=
    Bool.and_eq_true_iff.trans (and_congr decide_eq_true_iff decide_eq_true_iff)
  exact Bool.or_eq_true_iff.trans (or_congr hupper hlower)

theorem isSchemeChar_iff {c : Char} : isSchemeChar c = true ↔ c ∈ schemeChars := by
  have hdigit : c.isDigit = true ↔ c ∈ Set.Icc '0' '9' :=
    Bool.and_eq_true_iff.trans (and_congr decide_eq_true_iff decide_eq_true_iff)
  have halnum : c.isAlphanum = true ↔ c ∈ letters ∪ Set.Icc '0' '9' :=
    Bool.or_eq_true_iff.trans (or_congr isLetter_iff hdigit)
  rw [isSchemeChar, schemeChars, Bool.or_eq_true, Bool.or_eq_true, Bool.or_eq_true, halnum, or_assoc, or_assoc,
    beq_iff_eq, beq_iff_eq, beq_iff_eq]
  rfl

theorem nil_notMem_oneOf_mul (chars : Set Char) (behind : Language Char) : [] ∉ oneOf chars * behind := by
  rw [Language.mem_mul]
  rintro ⟨_, ⟨c, -, rfl⟩, rest, -, h⟩
  exact List.cons_ne_nil _ _ h

theorem cons_mem_oneOf_mul {chars : Set Char} {behind : Language Char} {c : Char} :
    c :: rest ∈ oneOf chars * behind ↔ c ∈ chars ∧ rest ∈ behind := by
  rw [Language.mem_mul]
  constructor
  · rintro ⟨_, ⟨d, hd, rfl⟩, more, hmore, h⟩
    obtain ⟨rfl, rfl⟩ := List.cons.inj h
    exact ⟨hd, hmore⟩
  · rintro ⟨hc, hrest⟩
    exact ⟨[c], ⟨c, hc, rfl⟩, rest, hrest, rfl⟩

/-- Any number of characters of a class, one after the other. -/
theorem mem_kstar_oneOf {chars : Set Char} {text : Text} : text ∈ (oneOf chars)∗ ↔ ∀ c ∈ text, c ∈ chars := by
  rw [Language.mem_kstar]
  constructor
  · rintro ⟨pieces, rfl, hpieces⟩ c hc
    obtain ⟨piece, hpiece, hc⟩ := List.mem_flatten.mp hc
    obtain ⟨d, hd, rfl⟩ := hpieces piece hpiece
    rwa [List.mem_singleton.mp hc]
  · intro h
    refine ⟨text.map fun c => [c], (List.flatMap_singleton' text).symm, fun piece hpiece => ?_⟩
    obtain ⟨c, hc, rfl⟩ := List.mem_map.mp hpiece
    exact ⟨c, h c hc, rfl⟩

/-- A token is a scheme when all of it matches the pattern. -/
theorem isValid_iff : isValid token = true ↔ token ∈ pattern := by
  cases token with
  | nil => exact iff_of_false Bool.false_ne_true (nil_notMem_oneOf_mul _ _)
  | cons first behind =>
    rw [pattern, cons_mem_oneOf_mul, isValid, Bool.and_assoc, Bool.and_eq_true, isLetter_iff]
    refine and_congr_right fun _ => ?_
    cases behind with
    | nil => exact iff_of_false Bool.false_ne_true (nil_notMem_oneOf_mul _ _)
    | cons second behind =>
      rw [cons_mem_oneOf_mul, mem_kstar_oneOf, List.isEmpty_cons, Bool.not_false, Bool.true_and, List.all_cons,
        Bool.and_eq_true, List.all_eq_true, isSchemeChar_iff]
      exact and_congr_right fun _ => forall₂_congr fun c _ => isSchemeChar_iff

/-! ### Splitting and stripping -/

/-- A path is split as the scheme and the rest that it is joined from. -/
theorem split_eq_some_iff : split path = (some scheme, rest) ↔ isValid scheme = true ∧ path = join scheme rest := by
  constructor
  · intro h
    rw [split] at h
    cases hparse : parse? path with
    | none => simp [hparse] at h
    | some token =>
      obtain ⟨hv, hhas⟩ := parse?_eq_some_iff.mp hparse
      -- a path with a scheme is the scheme joined to what is behind it
      obtain ⟨-, behind, rfl⟩ := has_iff.mp hhas
      rw [hparse] at h
      obtain ⟨htoken, hbehind⟩ := Prod.mk.inj h
      obtain rfl := Option.some.inj htoken
      rw [drop_join] at hbehind
      exact ⟨hv, hbehind ▸ rfl⟩
  · rintro ⟨hv, rfl⟩
    rw [split, parse?_join hv]
    exact congrArg (Prod.mk _) (drop_join scheme rest)

/-- A path that is not joined from a scheme is all rest. -/
theorem split_eq_none_iff : split path = (none, rest) ↔
    rest = path ∧ ∀ scheme, isValid scheme = true → ∀ behind, path ≠ join scheme behind := by
  cases hparse : parse? path with
  | none =>
    have hnot : ∀ scheme, isValid scheme = true → ∀ behind, path ≠ join scheme behind := by
      rintro scheme hv behind rfl
      simp [parse?_join hv] at hparse
    have hsplit : split path = (none, path) := by rw [split, hparse]
    rw [hsplit, Prod.mk.injEq, and_iff_right rfl, and_iff_left hnot, eq_comm]
  | some scheme =>
    obtain ⟨hv, hhas⟩ := parse?_eq_some_iff.mp hparse
    obtain ⟨-, behind, hpath⟩ := has_iff.mp hhas
    refine iff_of_false (fun h => ?_) fun h => h.2 scheme hv behind hpath
    rw [split_eq_some_iff.mpr ⟨hv, hpath⟩] at h
    exact Option.some_ne_none _ (Prod.mk.inj h).1

-- the token in front of the first colon is a drive letter, or has a slash in it
example : split "C:mem:/x".toList = (none, "C:mem:/x".toList) ∧ split "./mem:/x".toList = (none, "./mem:/x".toList) := by
  decide

/-- Texts with schemes in front are the same when the schemes are and what is behind them is. -/
theorem join_eq_join {other behind : Text} (hs : isValid scheme = true) (ho : isValid other = true)
    (h : join scheme rest = join other behind) : scheme = other ∧ rest = behind := by
  have hsame : (some scheme, rest) = (some other, behind) := by
    rw [← split_eq_some_iff.mpr ⟨hs, rfl⟩, h, split_eq_some_iff.mpr ⟨ho, rfl⟩]
  exact ⟨Option.some.inj (Prod.mk.inj hsame).1, (Prod.mk.inj hsame).2⟩

/-- Stripping a token changes just the paths that begin with it. -/
theorem strip_ne_self_iff : strip path token ≠ path ↔ has path token = true := by
  refine ⟨fun h => ?_, fun h heq => ?_⟩
  · contrapose! h
    rw [strip, if_neg h]
  · obtain ⟨hne, rest, rfl⟩ := has_iff.mp h
    rw [strip_join hne] at heq
    -- a text is not as long as what stands behind a token and a colon in it
    have hlength := congrArg List.length heq
    rw [join, List.length_append, List.length_cons] at hlength
    omega

/-- **Schemes are read back.** A path is split as a scheme of the pattern, a colon and a rest when it is written so, which
is possible in one way at most; otherwise it is all rest. Joining undoes that, and what is joined to a scheme is split from
it, and stripped of it, as it was. A path begins with a scheme exactly when it is the scheme of the path, and then only
does stripping the scheme change the path. -/
theorem schemes_read_back (path : Text) :
    (∀ token, isValid token = true ↔ token ∈ pattern) ∧
      (∀ scheme rest, split path = (some scheme, rest) ↔ scheme ∈ pattern ∧ path = scheme ++ ':' :: rest) ∧
      {cut : Text × Text | cut.1 ∈ pattern ∧ path = cut.1 ++ ':' :: cut.2}.Subsingleton ∧
      (∀ rest, split path = (none, rest) ↔ rest = path ∧ ∀ scheme ∈ pattern, ∀ behind, path ≠ scheme ++ ':' :: behind) ∧
      (∀ scheme rest, split path = (some scheme, rest) → join scheme rest = path) ∧
      ∀ scheme ∈ pattern,
        (∀ rest, split (join scheme rest) = (some scheme, rest) ∧ strip (join scheme rest) scheme = rest) ∧
        (has path scheme = true ↔ parse? path = some scheme) ∧
        (strip path scheme ≠ path ↔ parse? path = some scheme) := by
  have hread : ∀ scheme rest, split path = (some scheme, rest) ↔ scheme ∈ pattern ∧ path = scheme ++ ':' :: rest :=
    fun scheme rest => by rw [split_eq_some_iff, isValid_iff]; rfl
  refine ⟨fun token => isValid_iff, hread, ?_, fun rest => ?_, ?_, fun scheme hscheme => ?_⟩
  · -- a scheme has no colon in it, so a path is cut in one way only
    rintro ⟨scheme, rest⟩ ⟨hs, hpath⟩ ⟨other, behind⟩ ⟨ho, hother⟩
    obtain ⟨rfl, rfl⟩ := join_eq_join (isValid_iff.mpr hs) (isValid_iff.mpr ho) (hpath.symm.trans hother)
    rfl
  · rw [split_eq_none_iff]
    exact and_congr_right fun _ => forall_congr' fun scheme => imp_congr_left isValid_iff
  · exact fun scheme rest h => ((hread scheme rest).mp h).2.symm
  · have hv := isValid_iff.mpr hscheme
    have hhas : has path scheme = true ↔ parse? path = some scheme := by
      rw [parse?_eq_some_iff, and_iff_right hv]
    exact ⟨fun rest => ⟨split_eq_some_iff.mpr ⟨hv, rfl⟩, strip_join (ne_nil_of_isValid hv) rest⟩, hhas,
      strip_ne_self_iff.trans hhas⟩

/-- A path with one scheme behind another, and a drive letter behind both: only the first one is its scheme. -/
theorem schemes_read_back_nested :
    let path := "ro:mem:C:/x".toList
    "ro".toList ∈ pattern ∧ "mem".toList ∈ pattern ∧ split path = (some "ro".toList, "mem:C:/x".toList) ∧
      join "ro".toList "mem:C:/x".toList = path ∧ strip path "ro".toList = "mem:C:/x".toList ∧
      has path "mem".toList = false ∧ strip path "mem".toList = path := by
  intro path
  obtain ⟨hvalid, -, -, -, hjoin, hscheme⟩ := schemes_read_back path
  have hro : "ro".toList ∈ pattern := (hvalid _).mp (by decide)
  have hmem : "mem".toList ∈ pattern := (hvalid _).mp (by decide)
  obtain ⟨hsplit, hstrip⟩ := (hscheme _ hro).1 "mem:C:/x".toList
  obtain ⟨-, hhas, hchange⟩ := hscheme _ hmem
  have hother : parse? path ≠ some "mem".toList := by decide
  exact ⟨hro, hmem, hsplit, hjoin _ _ hsplit, hstrip, Bool.eq_false_iff.mpr fun h => hother (hhas.mp h),
    not_not.mp fun h => hother (hchange.mp h)⟩

end FileRouter.Scheme
