import FileRouter.Makers
import FileRouter.Proofs.Spec.Parse
/-!
Names in catalogs.

What is registered under a name is found in a bare spec, whatever the name is made of. In front of a target a name is
read as the scheme of a locator, so it is found there when it is one in lower case, and otherwise registering it makes
no difference to such a spec (`create_registered`).
-/

namespace FileRouter.Catalog

variable {μ : Type} {catalog : Catalog μ} {name other text : Text} {maker : μ} {spec : Spec}

/-! ### Lookups -/

theorem maker?_put_self (catalog : Catalog μ) (name : Text) (maker : μ) :
    (catalog.put name maker).maker? name = some maker := by
  have hnone : (catalog.filter fun entry => entry.1 ≠ name).find? (fun entry => entry.1 = name) = none := by
    rw [List.find?_eq_none]
    intro entry hm
    simpa using (List.mem_filter.mp hm).2
  rw [maker?, put, List.find?_append, hnone]
  simp

theorem maker?_put_of_ne (h : other ≠ name) (catalog : Catalog μ) (maker : μ) :
    (catalog.put name maker).maker? other = catalog.maker? other := by
  have hlast : [(name, maker)].find? (fun entry => entry.1 = other) = none := by simp [Ne.symm h]
  have hrest : (catalog.filter fun entry => entry.1 ≠ name).find? (fun entry => entry.1 = other) =
      catalog.find? fun entry => entry.1 = other := by
    rw [List.find?_filter]
    congr 1
    funext entry
    by_cases he : entry.1 = other
    · simp [he, h]
    · simp [he]
  rw [maker?, put, List.find?_append, hlast, Option.or_none, hrest, maker?]

theorem choose_of_parse (hp : Spec.parse text = .ok spec) (hm : catalog.maker? spec.name = some maker) :
    catalog.choose text = .ok (maker, spec) := by
  rw [choose, hp]
  simp only [hm]

theorem create_of_choose {σ α : Type} {make : μ → Spec → Call σ α} (h : catalog.choose text = .ok (maker, spec)) :
    catalog.create make text = make maker spec := by
  refine Call.ext fun s => ?_
  rw [create, Call.outcome_bind, Call.outcome_ofExcept, h]

/-- What is registered under a name makes no difference to a spec that names something else, or nothing. -/
theorem choose_put_iff (h : ∀ {spec : Spec}, Spec.parse text = .ok spec → spec.name ≠ name) (catalog : Catalog μ)
    (maker : μ) (chosen : μ × Spec) :
    (catalog.put name maker).choose text = .ok chosen ↔ catalog.choose text = .ok chosen := by
  rw [choose, choose]
  cases hp : Spec.parse text with
  | error failure => exact Iff.rfl
  | ok spec =>
    simp only [maker?_put_of_ne (h hp)]
    cases catalog.maker? spec.name <;> simp

/-! ### Names -/

/-- Dots, hyphens, underscores, the letters and digits of ASCII, and what is not in ASCII, the letters and digits of other
scripts among it, but for the delimiters in disguise. -/
def isWordChar (c : Char) : Bool :=
  c.isAlphanum || c == '.' || c == '-' || c == '_' ||
    (0x80 ≤ c.toNat && !Locator.disguisedDelimiters.contains c.toNat)

/-- Word characters and slashes. -/
def isTargetChar (c : Char) : Bool := isWordChar c || c == '/'

/-- The characters that end a part of a spec. -/
def specEnds : List Char := ['?', '#', '/', ':']

/-- Whether a text can be a name: it is not empty, and has no blanks and nothing that ends a part of a spec. -/
def isName (name : Text) : Bool :=
  !name.isEmpty && name.all fun c => !Text.isBlank c && !specEnds.contains c

theorem ne_of_isWordChar {c d : Char} (h : isWordChar c = true) (hd : isWordChar d = false) : c ≠ d := by
  rintro rfl
  exact Bool.eq_false_iff.mp hd h

/-- A word character is one of ASCII, or no delimiter in disguise. -/
theorem isWordChar_cases {c : Char} (h : isWordChar c = true) :
    c.toNat < 0x80 ∨ Locator.disguisedDelimiters.contains c.toNat = false := by
  simp only [isWordChar, Bool.or_eq_true, Bool.and_eq_true, Bool.not_eq_true', beq_iff_eq] at h
  rcases h with (((h | rfl) | rfl) | rfl) | ⟨-, h⟩
  · have hscheme : Locator.isSchemeChar c = true := by simp [Locator.isSchemeChar, h]
    have hbound := (Locator.toNat_of_isSchemeChar hscheme).2
    exact Or.inl (by omega)
  · exact Or.inl (by decide)
  · exact Or.inl (by decide)
  · exact Or.inl (by decide)
  · exact Or.inr h

theorem isPlain_of_isWordChar {c : Char} (h : isWordChar c = true) : Locator.isPlain c = true := by
  have hdisguised : Locator.disguisedDelimiters.contains c.toNat = false := by
    rcases isWordChar_cases h with hlow | hdisguised
    · rw [Bool.eq_false_iff, Ne, List.contains_iff_mem]
      have hhigh : ∀ n ∈ Locator.disguisedDelimiters, 0x80 ≤ n := by decide
      exact fun hm => absurd (hhigh _ hm) (by omega)
    · exact hdisguised
  -- each of the excluded characters fails the test that `c` passes
  have hother : ∀ {d : Char}, isWordChar d = false → (c == d) = false :=
    fun hd => beq_eq_false_iff_ne.mpr (ne_of_isWordChar h hd)
  simp only [Locator.isPlain, Locator.isIgnored, bne, hdisguised, hother (d := '\t') (by decide),
    hother (d := '\r') (by decide), hother (d := '\n') (by decide), hother (d := '?') (by decide),
    hother (d := '#') (by decide), hother (d := ';') (by decide), hother (d := '[') (by decide),
    hother (d := ']') (by decide)]
  rfl

theorem isPlain_of_isTargetChar {c : Char} (h : isTargetChar c = true) : Locator.isPlain c = true := by
  rw [isTargetChar, Bool.or_eq_true, beq_iff_eq] at h
  rcases h with hword | rfl
  · exact isPlain_of_isWordChar hword
  · decide

/-! ### Registered names -/

section Word

variable {key value : Text} (hkey : key.all isWordChar = true) (hvalue : value.all isWordChar = true)
include hkey hvalue

/-- A pair of words, as it stands in a spec, has no character but the sign between them that is no word character. -/
theorem mem_pair {c : Char} (hc : c ∈ key ++ '=' :: value) : isWordChar c = true ∨ c = '=' := by
  rcases List.mem_append.mp hc with hc | hc
  · exact Or.inl (List.all_eq_true.mp hkey c hc)
  · rcases List.mem_cons.mp hc with rfl | hc
    · exact Or.inr rfl
    · exact Or.inl (List.all_eq_true.mp hvalue c hc)

theorem notMem_pair {c : Char} (hword : isWordChar c = false) (hequal : c ≠ '=') : c ∉ key ++ '=' :: value := by
  intro hc
  rcases mem_pair hkey hvalue hc with h | h
  · exact Bool.eq_false_iff.mp hword h
  · exact hequal h

/-- The parameters of a spec with one pair of words. -/
theorem paramsOf_words :
    Spec.paramsOf (key ++ '=' :: value) = if value.isEmpty then [] else [(key, value)] := by
  have hout : ∀ {text : Text}, text.all isWordChar = true → ∀ {d : Char}, isWordChar d = false → d ∉ text :=
    fun ht _ hd hm => Bool.eq_false_iff.mp hd (List.all_eq_true.mp ht _ hm)
  exact Spec.paramsOf_pair (hout hkey (by decide)) (hout hkey (by decide)) (hout hkey (by decide))
    (hout hkey (by decide)) (hout hvalue (by decide)) (hout hvalue (by decide)) (hout hvalue (by decide))

end Word

variable {target key value : Text}

section Name

variable (h : isName name = true)
include h

theorem ne_nil_of_isName : name ≠ [] := by
  rw [isName, Bool.and_eq_true, Bool.not_eq_true', List.isEmpty_eq_false_iff] at h
  exact h.1

theorem isBlank_of_isName : ∀ c ∈ name, Text.isBlank c = false := by
  intro c hc
  simp only [isName, Bool.and_eq_true, Bool.not_eq_true', List.all_eq_true] at h
  exact (h.2 c hc).1

theorem notMem_of_isName {c : Char} (hc : specEnds.contains c = true) : c ∉ name := by
  intro hm
  simp only [isName, Bool.and_eq_true, List.all_eq_true] at h
  have hnot := (h.2 c hm).2
  rw [hc] at hnot
  exact Bool.false_ne_true hnot

theorem occursIn_of_isName : Text.occursIn Spec.locatorMark name = false :=
  Text.occursIn_of_notMem (c := ':') (by decide) (notMem_of_isName h (by decide))

/-- A bare name names itself, with parameters and without. -/
theorem parse_name : Spec.parse name = .ok ⟨name, [], []⟩ := by
  have hquestion : '?' ∉ name := notMem_of_isName h (by decide)
  have hcut : Spec.cut name = .ok (name, [], []) := by
    rw [Spec.cut_of_not_occursIn (occursIn_of_isName h), Text.before_of_notMem hquestion,
      Text.after_of_notMem hquestion]
  exact Spec.parse_of_cut_noBlank hcut (ne_nil_of_isName h) (isBlank_of_isName h)

theorem parse_name_pair (hkey : key.all isWordChar = true) (hvalue : value.all isWordChar = true) :
    Spec.parse (name ++ '?' :: (key ++ '=' :: value)) =
      .ok ⟨name, [], if value.isEmpty then [] else [(key, value)]⟩ := by
  have hquery : Text.occursIn Spec.locatorMark (key ++ '=' :: value) = false :=
    Text.occursIn_of_notMem (c := ':') (by decide) (notMem_pair hkey hvalue (by decide) (by decide))
  obtain ⟨c, hc⟩ := List.exists_mem_of_ne_nil name (ne_nil_of_isName h)
  rw [Spec.parse_bare ⟨c, hc, isBlank_of_isName h c hc⟩ (notMem_of_isName h (by decide)) (occursIn_of_isName h) hquery,
    Text.trimmed_of_noBlank (isBlank_of_isName h), paramsOf_words hkey hvalue]

end Name

/-- A spec with a name, a target and one parameter. -/
def locatorOf (name target key value : Text) : Text :=
  name ++ Spec.locatorMark ++ (target ++ '?' :: (key ++ '=' :: value))

theorem parse_locatorOf (hs : Locator.isLowerScheme name = true) (ht : target.all isTargetChar = true)
    (hkey : key.all isWordChar = true) (hvalue : value.all isWordChar = true) :
    Spec.parse (locatorOf name target key value) =
      .ok ⟨name, target, if value.isEmpty then [] else [(key, value)]⟩ := by
  have hplain : ∀ c ∈ target, Locator.isPlain c = true :=
    fun c hc => isPlain_of_isTargetChar (List.all_eq_true.mp ht c hc)
  rw [locatorOf, Spec.parse_locator hs hplain rfl ?_, List.tail_cons, paramsOf_words hkey hvalue]
  intro c hc
  rcases List.mem_cons.mp hc with rfl | hc
  · decide
  · rcases mem_pair hkey hvalue hc with hword | rfl
    · exact ⟨ne_of_isWordChar hword (by decide), Locator.isIgnored_of_isPlain (isPlain_of_isWordChar hword)⟩
    · decide

/-- **What is registered under a name is let work by every bare spec with the name**, and by one with a target exactly
when the name is in lower case and can be the scheme of a locator: registering any other name makes no difference to
the specs that have it in front of a target. -/
theorem create_registered {σ α : Type} (catalog : Catalog μ) (maker : μ) (make : μ → Spec → Call σ α)
    (hname : isName name = true) (ht : target.all isTargetChar = true) (hkey : key.all isWordChar = true)
    (hvalue : value.all isWordChar = true) :
    ∃ registered, catalog.register name (some maker) = .ok registered ∧
      registered.create make name = make maker ⟨name, [], []⟩ ∧
      registered.create make (name ++ '?' :: (key ++ '=' :: value)) =
        make maker ⟨name, [], if value.isEmpty then [] else [(key, value)]⟩ ∧
      (Locator.isLowerScheme name = true → registered.create make (locatorOf name target key value) =
        make maker ⟨name, target, if value.isEmpty then [] else [(key, value)]⟩) ∧
      (Locator.isLowerScheme name = false → ∀ chosen,
        registered.choose (locatorOf name target key value) = .ok chosen ↔
          catalog.choose (locatorOf name target key value) = .ok chosen) := by
  have hself := maker?_put_self catalog name maker
  refine ⟨catalog.put name maker, rfl, ?_, ?_, fun hlower => ?_, fun hnot chosen => ?_⟩
  · exact create_of_choose (choose_of_parse (parse_name hname) hself)
  · exact create_of_choose (choose_of_parse (parse_name_pair hname hkey hvalue) hself)
  · exact create_of_choose (choose_of_parse (parse_locatorOf hlower ht hkey hvalue) hself)
  · -- whatever the spec names is in lower case
    refine choose_put_iff (fun hp he => ?_) catalog maker chosen
    have hmark : Text.occursIn Spec.locatorMark (locatorOf name target key value) = true :=
      Text.occursIn_iff.mpr ⟨name, target ++ '?' :: (key ++ '=' :: value), rfl⟩
    have hlower := (Spec.name_of_parse hmark hp).2
    rw [he, hnot] at hlower
    exact Bool.false_ne_true hlower

/-- A maker under a name in lower case is let work in all three forms. -/
theorem create_registered_zip :
    ∃ registered, Catalog.register Makers.builtIn "zip".toList (some .targetMemory) = .ok registered ∧
      Makers.create registered 0 "zip".toList = Maker.targetMemory.make 0 ⟨"zip".toList, [], []⟩ ∧
      Makers.create registered 0 "zip?level=9".toList =
        Maker.targetMemory.make 0 ⟨"zip".toList, [], [("level".toList, "9".toList)]⟩ ∧
      Makers.create registered 0 "zip:///data/a.zip?level=9".toList =
        Maker.targetMemory.make 0 ⟨"zip".toList, "/data/a.zip".toList, [("level".toList, "9".toList)]⟩ := by
  have hname : isName "zip".toList = true := by decide
  have htarget : "/data/a.zip".toList.all isTargetChar = true := by decide
  have hkey : "level".toList.all isWordChar = true := by decide
  have hvalue : "9".toList.all isWordChar = true := by decide
  obtain ⟨registered, hregistered, hbare, hquery, hlocator, -⟩ :=
    create_registered Makers.builtIn Maker.targetMemory (fun maker spec => maker.make 0 spec) hname htarget hkey hvalue
  exact ⟨registered, hregistered, hbare, hquery, hlocator (by decide)⟩

/-- A name with a capital is not found in front of a target. -/
theorem not_forall_create_registered :
    ¬ ∀ (makers : Makers) (maker : Maker) (name target key value : Text), isName name = true →
      target.all isTargetChar = true → key.all isWordChar = true → value.all isWordChar = true →
      ∃ registered spec, Catalog.register makers name (some maker) = .ok registered ∧
        registered.choose (locatorOf name target key value) = .ok (maker, spec) ∧ spec.target = target := by
  intro h
  obtain ⟨registered, spec, hregistered, hchosen, -⟩ :=
    h Makers.builtIn .targetMemory "Zip".toList "abc".toList "k".toList "v".toList (by decide) (by decide)
      (by decide) (by decide)
  obtain rfl := Except.ok.inj hregistered
  have hfails : (Catalog.choose (Catalog.put Makers.builtIn "Zip".toList Maker.targetMemory)
      (locatorOf "Zip".toList "abc".toList "k".toList "v".toList)).toOption = none := by decide +kernel
  rw [hchosen] at hfails
  simp [Except.toOption] at hfails

end FileRouter.Catalog
