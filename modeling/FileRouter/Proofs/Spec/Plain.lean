import FileRouter.Proofs.Catalog
/-!
Specs that are read as they are written.

In a plain spec the name is a scheme in lower case, and the target and the pairs behind the question mark are made of
unreserved characters. Nothing in it can be taken for another part, so both forms of spec are read back: each key with
its first value that is not empty (`firstValue?`), and nothing else (`parse_plain`).
-/

namespace FileRouter.Spec

variable {name target : Text} {pairs : List (Text × Text)}

/-- Whether a character stands for itself in every part of a spec: word characters do, and the tilde. -/
def isUnreserved (c : Char) : Bool := Catalog.isWordChar c || c == '~'

/-- The first value of a key that is not empty. -/
def firstValue? (pairs : List (Text × Text)) (key : Text) : Option Text :=
  (pairs.find? fun pair => pair.1 == key && !pair.2.isEmpty).map Prod.snd

/-- Pairs of texts of unreserved characters. -/
def Unreserved (pairs : List (Text × Text)) : Prop :=
  ∀ pair ∈ pairs, pair.1.all isUnreserved = true ∧ pair.2.all isUnreserved = true

/-! ### Characters -/

theorem isPlain_of_isUnreserved {c : Char} (h : isUnreserved c = true) : Locator.isPlain c = true := by
  rw [isUnreserved, Bool.or_eq_true, beq_iff_eq] at h
  rcases h with hword | rfl
  · exact Catalog.isPlain_of_isWordChar hword
  · decide

theorem notMem_of_unreserved {text : Text} (h : text.all isUnreserved = true) {c : Char}
    (hc : isUnreserved c = false) : c ∉ text :=
  fun hm => Bool.eq_false_iff.mp hc (List.all_eq_true.mp h c hm)

theorem isLiteral_of_unreserved {text : Text} (h : text.all isUnreserved = true) : IsLiteral text :=
  ⟨notMem_of_unreserved h (by decide), notMem_of_unreserved h (by decide), notMem_of_unreserved h (by decide)⟩

theorem mem_queryOf (h : Unreserved pairs) {c : Char} (hc : c ∈ queryOf pairs) :
    isUnreserved c = true ∨ c = '=' ∨ c = '&' := by
  rcases Text.mem_joined hc with rfl | ⟨piece, hpiece, hc⟩
  · exact Or.inr (Or.inr rfl)
  · obtain ⟨pair, hpair, rfl⟩ := List.mem_map.mp hpiece
    obtain ⟨hkey, hvalue⟩ := h pair hpair
    rcases List.mem_append.mp hc with hc | hc
    · exact Or.inl (List.all_eq_true.mp hkey c hc)
    · rcases List.mem_cons.mp hc with rfl | hc
      · exact Or.inr (Or.inl rfl)
      · exact Or.inl (List.all_eq_true.mp hvalue c hc)

/-- A query of such pairs has nothing in it that ends a locator's query, or is ignored. -/
theorem queryOf_plain (h : Unreserved pairs) : ∀ c ∈ queryOf pairs, c ≠ '#' ∧ Locator.isIgnored c = false := by
  intro c hc
  rcases mem_queryOf h hc with hc | rfl | rfl
  · refine ⟨fun he => ?_, Locator.isIgnored_of_isPlain (isPlain_of_isUnreserved hc)⟩
    exact Bool.eq_false_iff.mp (by decide) (he ▸ hc)
  · decide
  · decide

theorem occursIn_queryOf (h : Unreserved pairs) : Text.occursIn locatorMark (queryOf pairs) = false := by
  refine Text.occursIn_of_notMem (c := ':') (by decide) fun hm => ?_
  rcases mem_queryOf h hm with hc | hc | hc <;> exact absurd hc (by decide)

theorem isName_of_isLowerScheme (h : Locator.isLowerScheme name = true) : Catalog.isName name = true := by
  have hne := List.isEmpty_eq_false_iff.mpr (Locator.ne_nil_of_isLowerScheme h)
  rw [Catalog.isName, hne, Bool.not_false, Bool.true_and, List.all_eq_true]
  intro c hc
  have hend : Catalog.specEnds.contains c = false := by
    rw [Bool.eq_false_iff, Ne, List.contains_iff_mem]
    intro hm
    have hnone : (Catalog.specEnds.all fun d => !Locator.isSchemeChar d) = true := by decide
    exact Locator.notMem_of_isLowerScheme h (by simpa using List.all_eq_true.mp hnone c hm) hc
  rw [Locator.isBlank_of_mem h c hc, hend]
  rfl

/-! ### Parameters -/

theorem paramsOf_queryOf (h : Unreserved pairs) :
    paramsOf (queryOf pairs) = firstOfEach (pairs.filter fun pair => !pair.2.isEmpty) := by
  rw [paramsOf, pairs_queryOf]
  intro pair hm
  obtain ⟨hkey, hvalue⟩ := h pair hm
  exact ⟨notMem_of_unreserved hkey (by decide), isLiteral_of_unreserved hkey, isLiteral_of_unreserved hvalue⟩

/-- The parameters of a plain spec are the first values of the keys that are not empty. -/
theorem param?_queryOf (h : Unreserved pairs) (name target key : Text) :
    (⟨name, target, paramsOf (queryOf pairs)⟩ : Spec).param? key = firstValue? pairs key := by
  rw [param?, paramsOf_queryOf h, find?_firstOfEach, List.find?_filter, firstValue?]
  congr 2
  funext pair
  rw [← Bool.and_eq_decide, Bool.and_comm]

/-! ### Plain specs -/

/-- **Plain specs are read back.** With a target and without, a spec has the name and the target that are written in it,
and each key has its first value that is not empty as a parameter; there are no other parameters, and none is there
twice. -/
theorem parse_plain (hname : Locator.isLowerScheme name = true)
    (ht : (target.all fun c => isUnreserved c || c == '/') = true) (hp : Unreserved pairs) :
    ∃ params : List (Text × Text), (params.map Prod.fst).Nodup ∧
      (∀ key, (⟨name, target, params⟩ : Spec).param? key = firstValue? pairs key) ∧
      parse (name ++ locatorMark ++ target) = .ok ⟨name, target, []⟩ ∧
      parse (name ++ locatorMark ++ (target ++ '?' :: queryOf pairs)) = .ok ⟨name, target, params⟩ ∧
      parse name = .ok ⟨name, [], []⟩ ∧
      parse (name ++ '?' :: queryOf pairs) = .ok ⟨name, [], params⟩ := by
  have hplain : ∀ c ∈ target, Locator.isPlain c = true := by
    intro c hc
    have htarget := List.all_eq_true.mp ht c hc
    rw [Bool.or_eq_true, beq_iff_eq] at htarget
    rcases htarget with hc | rfl
    · exact isPlain_of_isUnreserved hc
    · decide
  have hname' := isName_of_isLowerScheme hname
  obtain ⟨c, hc⟩ := List.exists_mem_of_ne_nil name (Locator.ne_nil_of_isLowerScheme hname)
  -- the four forms: with and without a target, each with and without parameters
  refine ⟨paramsOf (queryOf pairs), nodup_keys_firstOfEach _, param?_queryOf hp name target, ?_, ?_,
    Catalog.parse_name hname', ?_⟩
  · have hbare : parse (name ++ locatorMark ++ (target ++ [])) = .ok ⟨name, target, []⟩ :=
      parse_locator hname hplain rfl fun c hc => absurd hc List.not_mem_nil
    rwa [List.append_nil] at hbare
  · refine parse_locator hname hplain rfl fun c hc => ?_
    rcases List.mem_cons.mp hc with rfl | hc
    · decide
    · exact queryOf_plain hp c hc
  · rw [parse_bare ⟨c, hc, Locator.isBlank_of_mem hname c hc⟩ (Locator.notMem_of_isLowerScheme hname (by decide))
      (Catalog.occursIn_of_isName hname') (occursIn_queryOf hp), Text.trimmed_of_noBlank (Locator.isBlank_of_mem hname)]

/-- A target that begins with slashes, and a key that first comes without a value. -/
theorem parse_plain_slashes :
    ∃ params : List (Text × Text),
      (⟨"zip+x".toList, "//../~a".toList, params⟩ : Spec).param? "k".toList = some "v".toList ∧
      (⟨"zip+x".toList, "//../~a".toList, params⟩ : Spec).param? [] = some "w".toList ∧
      parse "zip+x:////../~a?k=&k=v&=w&k=x".toList = .ok ⟨"zip+x".toList, "//../~a".toList, params⟩ ∧
      parse "zip+x?k=&k=v&=w&k=x".toList = .ok ⟨"zip+x".toList, [], params⟩ := by
  have hname : Locator.isLowerScheme "zip+x".toList = true := by decide
  have htarget : ("//../~a".toList.all fun c => isUnreserved c || c == '/') = true := by decide
  have hpairs : Unreserved [("k".toList, []), ("k".toList, "v".toList), ([], "w".toList), ("k".toList, "x".toList)] := by
    unfold Unreserved
    decide
  obtain ⟨params, -, hparam, -, hlocator, -, hbare⟩ := parse_plain hname htarget hpairs
  exact ⟨params, (hparam _).trans (by decide), (hparam _).trans (by decide), hlocator, hbare⟩

end FileRouter.Spec
