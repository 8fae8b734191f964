import FileRouter.Text.Blank
import Mathlib.Data.List.Infix
import Mathlib.Data.List.Perm.Basic
import Mathlib.Data.List.TakeWhile
import Mathlib.Tactic.Common
/-!
Cutting, searching, trimming and ordering texts.

Three facts the rest rests on: the pieces of a text hold no separator and can be read off a text that is
put together from such pieces (`parts_append`, `not_mem_of_mem_parts`), a phrase does not occur across a
character that it does not have (`occursIn_append_cons`), and `Text.le` is a linear order in which
`Text.sorted` puts a list without losing or doubling anything (`sorted_perm`, `sorted_pairwise`).
-/

namespace FileRouter.Text

/-! ### Pieces -/

theorem parts_ne_nil (separator : Char) (text : Text) : parts separator text ≠ [] := by
  induction text with
  | nil => simp [parts]
  | cons c rest ih =>
    rw [parts]
    split
    · simp
    · split <;> simp

/-- There is one piece more than there are separators. -/
theorem length_parts (separator : Char) (text : Text) : (parts separator text).length = text.count separator + 1 := by
  induction text with
  | nil => rfl
  | cons c rest ih =>
    rw [parts]
    split_ifs with hc
    · rw [List.length_cons, ih, hc, List.count_cons_self]
    · rw [List.count_cons_of_ne hc, ← ih]
      cases h : parts separator rest with
      | nil => exact absurd h (parts_ne_nil separator rest)
      | cons piece pieces => rfl

theorem not_mem_of_mem_parts {separator : Char} {text piece : Text}
    (h : piece ∈ parts separator text) : separator ∉ piece := by
  induction text generalizing piece with
  | nil =>
    rw [parts, List.mem_singleton] at h
    simp [h]
  | cons c rest ih =>
    rw [parts] at h
    split at h
    next hc =>
      rcases List.mem_cons.mp h with rfl | h
      · simp
      · exact ih h
    next hc =>
      cases hp : parts separator rest with
      | nil => exact absurd hp (parts_ne_nil separator rest)
      | cons first others =>
        rw [hp] at h ih
        -- the first piece is one character longer than that of the rest
        rcases List.mem_cons.mp h with rfl | h
        · have hf := ih (List.mem_cons_self)
          simp only [List.mem_cons, not_or]
          exact ⟨fun he => hc he.symm, hf⟩
        · exact ih (List.mem_cons_of_mem _ h)

theorem mem_of_mem_parts {separator c : Char} {text piece : Text} (hp : piece ∈ parts separator text)
    (hc : c ∈ piece) : c ∈ text := by
  induction text generalizing piece with
  | nil =>
    rw [parts, List.mem_singleton] at hp
    simp [hp] at hc
  | cons d rest ih =>
    rw [parts] at hp
    split at hp
    next hd =>
      rcases List.mem_cons.mp hp with rfl | hp
      · simp at hc
      · exact List.mem_cons_of_mem _ (ih hp hc)
    next hd =>
      -- a character that does not separate joins the first of the parts of the rest
      cases hparts : parts separator rest with
      | nil => exact absurd hparts (parts_ne_nil separator rest)
      | cons first others =>
        rw [hparts] at hp ih
        rcases List.mem_cons.mp hp with rfl | hp
        · rcases List.mem_cons.mp hc with rfl | hc
          · exact List.mem_cons_self
          · exact List.mem_cons_of_mem _ (ih List.mem_cons_self hc)
        · exact List.mem_cons_of_mem _ (ih (List.mem_cons_of_mem _ hp) hc)

theorem parts_of_not_mem {separator : Char} {text : Text} (h : separator ∉ text) :
    parts separator text = [text] := by
  induction text with
  | nil => rfl
  | cons c rest ih =>
    rw [List.mem_cons, not_or] at h
    rw [parts, if_neg (fun hc => h.1 hc.symm), ih h.2]

/-- A piece in front of a separator is read off as it is. -/
theorem parts_append {separator : Char} {piece : Text} (h : separator ∉ piece) (rest : Text) :
    parts separator (piece ++ separator :: rest) = piece :: parts separator rest := by
  induction piece with
  | nil => rw [List.nil_append, parts, if_pos rfl]
  | cons c piece ih =>
    rw [List.mem_cons, not_or] at h
    rw [List.cons_append, parts, if_neg (fun hc => h.1 hc.symm), ih h.2]

theorem joined_cons_cons (separator piece next : Text) (pieces : List Text) :
    joined separator (piece :: next :: pieces) = piece ++ separator ++ joined separator (next :: pieces) :=
  rfl

/-- Pieces that are put together with a separator are the pieces of the whole. -/
theorem parts_joined {separator : Char} {pieces : List Text} (h : ∀ piece ∈ pieces, separator ∉ piece)
    (hne : pieces ≠ []) : parts separator (joined [separator] pieces) = pieces := by
  induction pieces with
  | nil => exact absurd rfl hne
  | cons piece pieces ih =>
    cases pieces with
    | nil => exact parts_of_not_mem (h piece List.mem_cons_self)
    | cons next pieces =>
      rw [joined_cons_cons, List.append_assoc, List.singleton_append, parts_append (h piece List.mem_cons_self),
        ih (fun other ho => h other (List.mem_cons_of_mem _ ho)) (List.cons_ne_nil _ _)]

theorem mem_joined {separator c : Char} {pieces : List Text} (h : c ∈ joined [separator] pieces) :
    c = separator ∨ ∃ piece ∈ pieces, c ∈ piece := by
  induction pieces with
  | nil => simp [joined] at h
  | cons piece pieces ih =>
    cases pieces with
    | nil => exact Or.inr ⟨piece, List.mem_cons_self, h⟩
    | cons next pieces =>
      rw [joined_cons_cons, List.append_assoc, List.mem_append, List.singleton_append, List.mem_cons] at h
      rcases h with h | h | h
      · exact Or.inr ⟨piece, List.mem_cons_self, h⟩
      · exact Or.inl h
      · exact (ih h).imp_right fun ⟨other, ho, hc⟩ => ⟨other, List.mem_cons_of_mem _ ho, hc⟩

/-- A text is cut at each of its separators on its own. -/
theorem parts_append_parts (separator : Char) (text rest : Text) :
    parts separator (text ++ separator :: rest) = parts separator text ++ parts separator rest := by
  induction text with
  | nil => rw [List.nil_append, parts, parts, if_pos rfl, List.singleton_append]
  | cons c text ih =>
    rw [List.cons_append, parts, parts, ih]
    split_ifs
    · rfl
    · cases hp : parts separator text with
      | nil => exact absurd hp (parts_ne_nil separator text)
      | cons piece pieces => rfl

/-- What stands in front of a text without a separator in between belongs to its first piece. -/
theorem parts_append_piece {separator : Char} {piece : Text} (h : separator ∉ piece) (rest : Text) :
    parts separator (piece ++ rest) =
      (piece ++ (parts separator rest).headD []) :: (parts separator rest).tail := by
  induction piece with
  | nil =>
    cases hp : parts separator rest with
    | nil => exact absurd hp (parts_ne_nil separator rest)
    | cons first others => rw [List.nil_append, List.nil_append, hp, List.headD_cons, List.tail_cons]
  | cons c piece ih =>
    rw [List.mem_cons, not_or] at h
    rw [List.cons_append, parts, if_neg (fun hc => h.1 hc.symm), ih h.2]
    rfl

theorem beforeLast_append_afterLast (c : Char) (text : Text) : beforeLast c text ++ afterLast c text = text := by
  rw [beforeLast, afterLast, ← List.reverse_append, List.takeWhile_append_dropWhile, List.reverse_reverse]

theorem notMem_afterLast (c : Char) (text : Text) : c ∉ afterLast c text := by
  intro hc
  simpa using List.mem_takeWhile_imp (List.mem_reverse.mp hc)

/-- The last occurrence of a character is the end of the text up to it. -/
theorem beforeLast_eq (c : Char) (text : Text) :
    beforeLast c text = [] ∨ ∃ front, beforeLast c text = front ++ [c] := by
  rw [beforeLast]
  cases hd : text.reverse.dropWhile (· != c) with
  | nil => exact Or.inl rfl
  | cons d rest =>
    have hhead := List.head?_dropWhile_not (· != c) text.reverse
    rw [hd] at hhead
    obtain rfl : d = c := by simpa using hhead
    exact Or.inr ⟨rest.reverse, List.reverse_cons⟩

/-- What follows a separator, or begins with one, adds nothing in front of the first separator. -/
theorem before_append {c : Char} {text rest : Text} (h : c ∈ text ∨ rest.head? = some c) :
    before c (text ++ rest) = before c text := by
  rw [before, before, List.takeWhile_append]
  split_ifs with hall
  · have hnot : c ∉ text := by
      intro hc
      rw [(List.takeWhile_prefix _).eq_of_length hall |>.symm] at hc
      simpa using List.mem_takeWhile_imp hc
    obtain ⟨rest, rfl⟩ : ∃ rest', rest = c :: rest' := by
      cases rest with
      | nil => simp [hnot] at h
      | cons d rest => exact ⟨rest, by simpa [hnot] using h⟩
    rw [List.takeWhile_cons_of_neg (by simp), List.append_nil,
      (List.takeWhile_prefix _).eq_of_length hall]
  · rfl

theorem drop_before (c : Char) (text : Text) :
    text.drop (before c text).length = text.dropWhile (· != c) := by
  conv_lhs => rw [← List.takeWhile_append_dropWhile (p := (· != c)) (l := text)]
  rw [before, List.drop_left']
  rw [List.takeWhile_append_dropWhile]

theorem dropWhile_eq_nil_iff {c : Char} {text : Text} : text.dropWhile (· != c) = [] ↔ c ∉ text := by
  rw [List.dropWhile_eq_nil_iff]
  constructor
  · intro h hc
    simpa using h c hc
  · rintro h d hd
    simpa using fun he : d = c => h (he ▸ hd)

theorem before_of_notMem {c : Char} {text : Text} (h : c ∉ text) : before c text = text := by
  rw [before, List.takeWhile_eq_self_iff]
  intro d hd
  simpa using fun he : d = c => h (he ▸ hd)

theorem after_of_notMem {c : Char} {text : Text} (h : c ∉ text) : after c text = [] := by
  rw [after, dropWhile_eq_nil_iff.mpr h, List.tail_nil]

theorem before_append_cons {c : Char} {text : Text} (h : c ∉ text) (rest : Text) :
    before c (text ++ c :: rest) = text := by
  rw [before_append (Or.inr List.head?_cons), before_of_notMem h]

theorem after_append_cons {c : Char} {text : Text} (h : c ∉ text) (rest : Text) :
    after c (text ++ c :: rest) = rest := by
  have hall : ∀ d ∈ text, (d != c) = true := fun d hd => by simpa using fun he : d = c => h (he ▸ hd)
  rw [after, List.dropWhile_append_of_pos hall, List.dropWhile_cons_of_neg (by simp), List.tail_cons]

theorem getLast?_dropTrailing (c : Char) (text : Text) : (dropTrailing c text).getLast? ≠ some c := by
  rw [dropTrailing, List.getLast?_reverse]
  intro h
  have hnot := List.head?_dropWhile_not (· == c) text.reverse
  rw [h] at hnot
  simp at hnot

theorem dropTrailing_of_getLast? {c : Char} {text : Text} (h : text.getLast? ≠ some c) : dropTrailing c text = text := by
  rw [dropTrailing, List.reverse_eq_iff]
  cases hrev : text.reverse with
  | nil => rfl
  | cons d rest =>
    have hd : d ≠ c := by
      rintro rfl
      exact h (by rw [← List.head?_reverse, hrev, List.head?_cons])
    simp [hd]

/-- What is dropped at the end is a run of one character. -/
theorem exists_dropTrailing (c : Char) (text : Text) : ∃ n, text = dropTrailing c text ++ List.replicate n c := by
  refine ⟨(text.reverse.takeWhile (· == c)).length, ?_⟩
  have hrun : (text.reverse.takeWhile (· == c)).reverse =
      List.replicate (text.reverse.takeWhile (· == c)).length c := by
    refine List.eq_replicate_iff.mpr ⟨List.length_reverse, fun d hd => ?_⟩
    simpa using List.mem_takeWhile_imp (List.mem_reverse.mp hd)
  rw [← hrun, dropTrailing, ← List.reverse_append, List.takeWhile_append_dropWhile, List.reverse_reverse]

theorem prefix_dropTrailing (c : Char) (text : Text) : dropTrailing c text <+: text := by
  obtain ⟨n, hrun⟩ := exists_dropTrailing c text
  exact ⟨List.replicate n c, hrun.symm⟩

theorem dropTrailing_concat_self (c : Char) (text : Text) : dropTrailing c (text ++ [c]) = dropTrailing c text := by
  rw [dropTrailing, List.reverse_append, List.reverse_singleton, List.singleton_append,
    List.dropWhile_cons_of_pos (by simp), dropTrailing]

/-! ### Phrases -/

/-- A phrase occurs where it is a stretch of the text. -/
theorem occursIn_iff {phrase text : Text} : occursIn phrase text = true ↔ phrase <:+: text := by
  induction text with
  | nil => rw [occursIn, List.isEmpty_iff, List.infix_nil]
  | cons c rest ih => rw [occursIn, Bool.or_eq_true, ih, List.isPrefixOf_iff_prefix, List.infix_cons_iff]

/-- A phrase does not occur across a character that it does not have. -/
theorem infix_append_cons_iff {c : Char} {phrase : Text} (hc : c ∉ phrase) (first second : Text) :
    phrase <:+: first ++ c :: second ↔ phrase <:+: first ∨ phrase <:+: second := by
  constructor
  · rintro ⟨front, back, h⟩
    rw [List.append_assoc, List.append_eq_append_iff] at h
    rcases h with ⟨more, rfl, h⟩ | ⟨more, rfl, h⟩
    -- the phrase begins in front of the character
    · rcases List.append_eq_append_iff.mp h with ⟨back', rfl, -⟩ | ⟨inside, hphrase, hcut⟩
      · exact Or.inl ⟨front, back', by rw [List.append_assoc]⟩
      · cases inside with
        | nil => exact Or.inl ⟨front, [], by rw [hphrase, List.append_nil, List.append_nil]⟩
        | cons d inside =>
          obtain ⟨rfl, -⟩ := List.cons.inj hcut
          exact absurd (by simp [hphrase]) hc
    -- the phrase begins at the character or behind it
    · cases more with
      | nil =>
        cases phrase with
        | nil => exact Or.inl (List.nil_infix)
        | cons d phrase =>
          obtain ⟨rfl, -⟩ := List.cons.inj h
          exact absurd List.mem_cons_self hc
      | cons d more =>
        obtain ⟨-, hbehind⟩ := List.cons.inj h
        exact Or.inr ⟨more, back, by rw [List.append_assoc]; exact hbehind.symm⟩
  · rintro (h | h)
    · exact h.trans (List.prefix_append _ _).isInfix
    · exact h.trans ((List.suffix_cons c second).trans (List.suffix_append _ _)).isInfix

theorem occursIn_append_cons {c : Char} {phrase : Text} (hc : c ∉ phrase) (first second : Text) :
    occursIn phrase (first ++ c :: second) = (occursIn phrase first || occursIn phrase second) := by
  rw [Bool.eq_iff_iff, Bool.or_eq_true, occursIn_iff, occursIn_iff, occursIn_iff, infix_append_cons_iff hc]

/-- A phrase does not occur in a text without one of its characters. -/
theorem occursIn_of_notMem {c : Char} {phrase text : Text} (hc : c ∈ phrase) (h : c ∉ text) :
    occursIn phrase text = false := by
  rw [Bool.eq_false_iff, Ne, occursIn_iff]
  exact fun hstretch => h (hstretch.subset hc)

/-! ### Trimming -/

/-- Trimming keeps every character that is not blank. -/
theorem mem_trimmed {c : Char} {text : Text} (hc : isBlank c = false) (h : c ∈ text) : c ∈ trimmed text := by
  have hkeep : ∀ {text : Text}, c ∈ text → c ∈ text.dropWhile isBlank := by
    intro text hm
    rw [← List.takeWhile_append_dropWhile (p := isBlank) (l := text), List.mem_append] at hm
    exact hm.resolve_left fun hblank => Bool.eq_false_iff.mp hc (List.mem_takeWhile_imp hblank)
  rw [trimmed, List.mem_reverse]
  exact hkeep (List.mem_reverse.mpr (hkeep h))

theorem trimmed_of_noBlank {text : Text} (h : ∀ c ∈ text, isBlank c = false) : trimmed text = text := by
  have hself : ∀ {text : Text}, (∀ c ∈ text, isBlank c = false) → text.dropWhile isBlank = text := by
    intro text ht
    cases text with
    | nil => rfl
    | cons c rest => exact List.dropWhile_cons_of_neg (by simp [ht c List.mem_cons_self])
  rw [trimmed, hself h, hself fun c hc => h c (List.mem_reverse.mp hc), List.reverse_reverse]

/-! ### Order -/

@[simp] theorem le_refl (text : Text) : le text text = true := by
  induction text with
  | nil => rfl
  | cons c text ih => simp [le, ih]

/-- What two texts begin with alike does not matter for their order. -/
theorem le_append_left (front a b : Text) : le (front ++ a) (front ++ b) = le a b := by
  induction front with
  | nil => rfl
  | cons c front ih => simp [le, ih]

theorem toNat_inj {a b : Char} (h : a.toNat = b.toNat) : a = b :=
  Char.ext (UInt32.toNat_inj.mp h)

theorem le_total (a b : Text) : le a b = true ∨ le b a = true := by
  induction a generalizing b with
  | nil => exact Or.inl rfl
  | cons c a ih =>
    cases b with
    | nil => exact Or.inr rfl
    | cons d b =>
      simp only [le, Bool.or_eq_true, Bool.and_eq_true, decide_eq_true_eq, beq_iff_eq]
      rcases Nat.lt_trichotomy c.toNat d.toNat with h | h | h
      · exact Or.inl (Or.inl h)
      · have hcd := toNat_inj h
        rcases ih b with hab | hba
        · exact Or.inl (Or.inr ⟨hcd, hab⟩)
        · exact Or.inr (Or.inr ⟨hcd.symm, hba⟩)
      · exact Or.inr (Or.inl h)

theorem le_antisymm {a b : Text} (hab : le a b = true) (hba : le b a = true) : a = b := by
  induction a generalizing b with
  | nil =>
    cases b with
    | nil => rfl
    | cons d b => simp [le] at hba
  | cons c a ih =>
    cases b with
    | nil => simp [le] at hab
    | cons d b =>
      simp only [le, Bool.or_eq_true, Bool.and_eq_true, decide_eq_true_eq, beq_iff_eq] at hab hba
      -- the first characters are equal, or they are smaller both ways
      rcases hab with hlt | ⟨rfl, hab⟩
      · rcases hba with hgt | ⟨rfl, -⟩
        · omega
        · omega
      · rcases hba with hlt | ⟨-, hba⟩
        · omega
        · rw [ih hab hba]

theorem le_trans {a b c : Text} (hab : le a b = true) (hbc : le b c = true) : le a c = true := by
  induction a generalizing b c with
  | nil => rfl
  | cons x a ih =>
    cases b with
    | nil => simp [le] at hab
    | cons y b =>
      cases c with
      | nil => simp [le] at hbc
      | cons z c =>
        simp only [le, Bool.or_eq_true, Bool.and_eq_true, decide_eq_true_eq, beq_iff_eq]
          at hab hbc ⊢
        -- the induction is needed only where the first characters agree twice
        rcases hab with hxy | ⟨rfl, hab⟩ <;> rcases hbc with hyz | ⟨rfl, hbc⟩
        · exact Or.inl (by omega)
        · exact Or.inl hxy
        · exact Or.inl hyz
        · exact Or.inr ⟨rfl, ih hab hbc⟩

theorem insert_perm (text : Text) (texts : List Text) :
    (insert text texts).Perm (text :: texts) := by
  induction texts with
  | nil => exact List.Perm.refl _
  | cons other others ih =>
    rw [insert]
    split
    · exact List.Perm.refl _
    · exact (ih.cons other).trans (List.Perm.swap text other others)

/-- Sorting loses nothing and doubles nothing. -/
theorem sorted_perm (texts : List Text) : (sorted texts).Perm texts := by
  induction texts with
  | nil => exact List.Perm.refl _
  | cons text texts ih => exact (insert_perm text _).trans (ih.cons text)

theorem mem_sorted {text : Text} {texts : List Text} : text ∈ sorted texts ↔ text ∈ texts :=
  (sorted_perm texts).mem_iff

theorem insert_pairwise {text : Text} {texts : List Text}
    (h : texts.Pairwise fun a b => le a b = true) :
    (insert text texts).Pairwise fun a b => le a b = true := by
  induction texts with
  | nil => simp [insert]
  | cons other others ih =>
    obtain ⟨hall, hrest⟩ := List.pairwise_cons.mp h
    rw [insert]
    split
    next hle =>
      refine List.pairwise_cons.mpr ⟨fun t ht => ?_, h⟩
      rcases List.mem_cons.mp ht with rfl | ht
      · exact hle
      · exact le_trans hle (hall t ht)
    next hle =>
      refine List.pairwise_cons.mpr ⟨fun t ht => ?_, ih hrest⟩
      -- what follows is the new text or was there before
      rcases List.mem_cons.mp ((insert_perm text others).mem_iff.mp ht) with rfl | ht
      · exact (le_total t other).resolve_left hle
      · exact hall t ht

/-- Sorting puts texts in the order of their code points. -/
theorem sorted_pairwise (texts : List Text) :
    (sorted texts).Pairwise fun a b => le a b = true := by
  induction texts with
  | nil => exact List.Pairwise.nil
  | cons text texts ih => exact insert_pairwise ih

end FileRouter.Text
