import FileRouter.Proofs.Spec.Locator
import FileRouter.Proofs.Spec.Query
/-!
Reading specs.

Which of its two forms a spec has is decided by whether `://` stands anywhere in it, the parameters included. So a bare
spec is read as it is meant exactly when its parameters are without that phrase (`parse_bare_iff`), and the name of a
spec with the phrase is the scheme of a locator, in lower case, whatever is written (`name_of_parse`).
-/

namespace FileRouter.Spec

variable {name target query tail text : Text} {spec : Spec}

/-- The phrase that makes a text a locator. -/
def locatorMark : Text := "://".toList

theorem cut_of_occursIn (h : Text.occursIn locatorMark text = true) :
    cut text = match Locator.read text with
      | .error fault => .error (.badValue fault)
      | .ok locator => .ok (locator.scheme, locator.host ++ locator.path, locator.query) :=
  if_pos h

theorem cut_of_not_occursIn (h : Text.occursIn locatorMark text = false) :
    cut text = .ok (Text.before '?' text, [], Text.after '?' text) :=
  if_neg (Bool.eq_false_iff.mp h)

theorem parse_of_cut (h : cut text = .ok (name, target, query)) (hname : ∃ c ∈ name, Text.isBlank c = false) :
    parse text = .ok ⟨Text.trimmed name, target, paramsOf query⟩ := by
  obtain ⟨c, hc, hblank⟩ := hname
  have hne : (Text.trimmed name).isEmpty = false :=
    List.isEmpty_eq_false_iff.mpr (List.ne_nil_of_mem (Text.mem_trimmed hblank hc))
  rw [parse, h]
  simp only [hne, Bool.false_eq_true, if_false]

theorem parse_of_cut_noBlank (h : cut text = .ok (name, target, query)) (hne : name ≠ [])
    (hblank : ∀ c ∈ name, Text.isBlank c = false) : parse text = .ok ⟨name, target, paramsOf query⟩ := by
  obtain ⟨c, hc⟩ := List.exists_mem_of_ne_nil name hne
  rw [parse_of_cut h ⟨c, hc, hblank c hc⟩, Text.trimmed_of_noBlank hblank]

/-- The phrase that makes a locator has no question mark, so it stands in the name or in the parameters. -/
theorem occursIn_query (name query : Text) :
    Text.occursIn locatorMark (name ++ '?' :: query) =
      (Text.occursIn locatorMark name || Text.occursIn locatorMark query) :=
  Text.occursIn_append_cons (by decide) name query

/-! ### Locators -/

/-- The name of a spec with the phrase is what is found as the scheme of a locator, and in lower case. -/
theorem name_of_parse (h : Text.occursIn locatorMark text = true) (hp : parse text = .ok spec) :
    spec.name = (Locator.cutScheme (Locator.cleaned text)).1 ∧ Locator.isLowerScheme spec.name = true := by
  rw [parse, cut_of_occursIn h] at hp
  cases hr : Locator.read text with
  | error fault => simp [hr] at hp
  | ok locator =>
    simp only [hr] at hp
    split_ifs at hp with hempty
    rw [← Except.ok.inj hp]
    -- without a scheme the name would be empty, which is refused
    rcases Locator.cutScheme_cases (Locator.cleaned text) with hnil | hlower
    · rw [Locator.scheme_of_read hr, hnil] at hempty
      exact absurd rfl hempty
    · simp only [Locator.scheme_of_read hr, Text.trimmed_of_noBlank (Locator.isBlank_of_mem hlower)]
      exact ⟨trivial, hlower⟩

/-- A plain locator is read as it stands. -/
theorem parse_locator (hs : Locator.isLowerScheme name = true) (ht : ∀ c ∈ target, Locator.isPlain c = true)
    (htail : tail.head?.all (· == '?')) (hquery : ∀ c ∈ tail, c ≠ '#' ∧ Locator.isIgnored c = false) :
    parse (name ++ locatorMark ++ (target ++ tail)) = .ok ⟨name, target, paramsOf tail.tail⟩ := by
  obtain ⟨host, path, hcut, hread⟩ := Locator.read_plain hs ht htail hquery
  have hmark : Text.occursIn locatorMark (name ++ locatorMark ++ (target ++ tail)) = true :=
    Text.occursIn_iff.mpr ⟨name, target ++ tail, rfl⟩
  have hparts : cut (name ++ locatorMark ++ (target ++ tail)) = .ok (name, target, tail.tail) := by
    rw [cut_of_occursIn hmark]
    rw [← locatorMark] at hread
    simp only [hread, hcut]
  exact parse_of_cut_noBlank hparts (Locator.ne_nil_of_isLowerScheme hs) (Locator.isBlank_of_mem hs)

/-! ### Bare specs -/

theorem parse_bare (hname : ∃ c ∈ name, Text.isBlank c = false) (hquestion : '?' ∉ name)
    (hmark : Text.occursIn locatorMark name = false) (hquery : Text.occursIn locatorMark query = false) :
    parse (name ++ '?' :: query) = .ok ⟨Text.trimmed name, [], paramsOf query⟩ := by
  have hnone : Text.occursIn locatorMark (name ++ '?' :: query) = false := by
    rw [occursIn_query, hmark, hquery, Bool.or_self]
  refine parse_of_cut ?_ hname
  rw [cut_of_not_occursIn hnone, Text.before_append_cons hquestion, Text.after_append_cons hquestion]

/-- With the phrase in its parameters, a spec whose name has no colon names nothing. -/
theorem parse_of_marked_query (hcolon : ':' ∉ name) (hquery : Text.occursIn locatorMark query = true) :
    ∃ failure, parse (name ++ '?' :: query) = .error failure := by
  have hmark : Text.occursIn locatorMark (name ++ '?' :: query) = true := by
    rw [occursIn_query, hquery, Bool.or_true]
  cases hp : parse (name ++ '?' :: query) with
  | error failure => exact ⟨failure, rfl⟩
  | ok spec =>
    obtain ⟨hscheme, hlower⟩ := name_of_parse hmark hp
    obtain ⟨front, rest, hclean, hsub⟩ := Locator.cleaned_query name query
    rw [hclean, Locator.cutScheme_query fun hm => hcolon (hsub hm)] at hscheme
    rw [hscheme] at hlower
    simp [Locator.isLowerScheme] at hlower

/-- **A bare spec is read as it is meant exactly when `://` is not in its parameters**: the name without blanks at its
ends, no target, and the first value of each key. Otherwise it is taken for a locator, and refused if the name has no
colon. -/
theorem parse_bare_iff (hname : ∃ c ∈ name, Text.isBlank c = false) (hquestion : '?' ∉ name)
    (hmark : Text.occursIn locatorMark name = false) (query : Text) :
    (parse (name ++ '?' :: query) = .ok ⟨Text.trimmed name, [], firstValues (collected (pairs query))⟩ ↔
      Text.occursIn locatorMark query = false) ∧
    (Text.occursIn locatorMark query = true → ':' ∉ name → ∃ failure, parse (name ++ '?' :: query) = .error failure) := by
  refine ⟨⟨fun hp => ?_, fun hquery => ?_⟩, fun hquery hcolon => parse_of_marked_query hcolon hquery⟩
  · rw [Bool.eq_false_iff]
    intro hquery
    have hmarked : Text.occursIn locatorMark (name ++ '?' :: query) = true := by
      rw [occursIn_query, hquery, Bool.or_true]
    by_cases hcolon : ':' ∈ name
    -- a colon in the name is still there when the name is trimmed, but in no scheme
    · have htrimmed : ':' ∈ Text.trimmed name := Text.mem_trimmed (by decide) hcolon
      exact Locator.notMem_of_isLowerScheme (name_of_parse hmarked hp).2 (by decide) htrimmed
    · obtain ⟨failure, hfailure⟩ := parse_of_marked_query hcolon hquery
      rw [hfailure] at hp
      simp at hp
  · rw [parse_bare hname hquestion hmark hquery, paramsOf_eq]

/-- Parameters of a drive, with a key twice and a blank in a value. -/
theorem parse_bare_drive :
    parse "memory?scheme=ram&scheme=x&note=a+b".toList =
      .ok ⟨"memory".toList, [], [("scheme".toList, "ram".toList), ("note".toList, "a b".toList)]⟩ := by
  have hparams : firstValues (collected (pairs "scheme=ram&scheme=x&note=a+b".toList)) =
      [("scheme".toList, "ram".toList), ("note".toList, "a b".toList)] := by decide
  rw [← hparams]
  have hname : ∃ c ∈ "memory".toList, Text.isBlank c = false := ⟨'m', by decide, by decide⟩
  exact (parse_bare_iff hname (by decide) (by decide) "scheme=ram&scheme=x&note=a+b".toList).1.mpr (by decide)

/-- A locator among the parameters makes a locator of the whole spec. -/
theorem not_forall_parse_bare :
    ¬ ∀ name query : Text, (∃ c ∈ name, Text.isBlank c = false) → '?' ∉ name →
      Text.occursIn locatorMark name = false →
      parse (name ++ '?' :: query) = .ok ⟨Text.trimmed name, [], firstValues (collected (pairs query))⟩ := by
  intro h
  have hmemory := h "memory".toList "url=http://x".toList ⟨'m', by decide, by decide⟩ (by decide) (by decide)
  exact absurd hmemory (by decide)

end FileRouter.Spec
