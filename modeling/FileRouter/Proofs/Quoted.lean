import FileRouter.Proofs.Text
import FileRouter.Text.Quoted
import Mathlib
/-!
Phrases in quoted texts.

A quoted text shows most characters as they are, and the others by an escape that begins with a backslash. A phrase
without backslashes is therefore found in what is shown where it is found in the text itself, or where an escape ends in
the first character of the phrase and the rest of it follows (`Shown.infix_iff`). What an escape can end in is said by
`escaped_cases`.
-/

namespace FileRouter.Text

variable {quote c d : Char} {text phrase rest : Text}

/-! ### Escapes -/

theorem mem_toDigits {n : Nat} (h : d ∈ Nat.toDigits 16 n) : ∃ k < 16, d = Nat.digitChar k := by
  induction n using Nat.strong_induction_on with
  | _ n ih =>
    rw [Nat.toDigits_eq_if (by decide)] at h
    split_ifs at h with hlt
    · exact ⟨n, hlt, List.mem_singleton.mp h⟩
    · rcases List.mem_append.mp h with h | h
      · exact ih (n / 16) (by omega) h
      · exact ⟨n % 16, Nat.mod_lt n (by decide), List.mem_singleton.mp h⟩

theorem mem_hexadecimal {width n : Nat} (h : d ∈ hexadecimal width n) : ∃ k < 16, d = Nat.digitChar k := by
  rcases List.mem_append.mp h with h | h
  · exact ⟨0, by decide, List.eq_of_mem_replicate h⟩
  · exact mem_toDigits h

/-- What can stand in an escape behind its backslash: the character itself, if it is a quote or a backslash, the letter
for a tab, a line feed or a carriage return, or a code point in hexadecimal digits. -/
inductive InEscape (quote c d : Char) : Prop
  | same : (c = quote ∨ c = '\\') → d = c → InEscape quote c d
  | control : c = '\t' ∧ d = 't' ∨ c = '\n' ∧ d = 'n' ∨ c = '\r' ∧ d = 'r' → InEscape quote c d
  | width : d = 'x' ∨ d = 'u' ∨ d = 'U' → InEscape quote c d
  | digit {k : Nat} : k < 16 → d = Nat.digitChar k → InEscape quote c d

/-- A character is shown as it is, or by an escape. -/
theorem escaped_cases (quote c : Char) :
    escaped quote c = [c] ∨ ∃ tail, escaped quote c = '\\' :: tail ∧ ∀ d ∈ tail, InEscape quote c d := by
  rw [escaped]
  split_ifs with hself htab hfeed hreturn hshown
  · refine Or.inr ⟨[c], rfl, fun d hd => .same ?_ (List.mem_singleton.mp hd)⟩
    simpa using hself
  · exact Or.inr ⟨_, rfl, fun d hd => .control (Or.inl ⟨htab, List.mem_singleton.mp hd⟩)⟩
  · exact Or.inr ⟨_, rfl, fun d hd => .control (Or.inr (Or.inl ⟨hfeed, List.mem_singleton.mp hd⟩))⟩
  · exact Or.inr ⟨_, rfl, fun d hd => .control (Or.inr (Or.inr ⟨hreturn, List.mem_singleton.mp hd⟩))⟩
  · exact Or.inl rfl
  all_goals
    refine Or.inr ⟨_, rfl, fun d hd => ?_⟩
    rcases List.mem_cons.mp hd with rfl | hd
    · exact .width (by decide)
    · obtain ⟨k, hk, rfl⟩ := mem_hexadecimal hd
      exact .digit hk rfl

theorem quoteOf_cases (text : Text) : quoteOf text = '"' ∨ quoteOf text = '\'' := by
  rw [quoteOf]
  split_ifs
  · exact Or.inl rfl
  · exact Or.inr rfl

theorem toNat_of_isAlpha (h : c.isAlpha = true) : 0x41 ≤ c.toNat ∧ c.toNat ≤ 0x7a := by
  simp only [Char.isAlpha, Char.isUpper, Char.isLower, Bool.or_eq_true, Bool.and_eq_true, decide_eq_true_eq, ge_iff_le,
    UInt32.le_iff_toNat_le] at h
  rw [Char.toNat]
  rcases h with h | h
  · exact ⟨h.1, Nat.le_trans h.2 (by decide)⟩
  · exact ⟨Nat.le_trans (by decide) h.1, h.2⟩

/-- Letters and blanks are shown as they are. -/
theorem escaped_of_letter (hquote : quote = '"' ∨ quote = '\'') (h : c.isAlpha = true ∨ c = ' ') :
    escaped quote c = [c] := by
  rcases h with h | rfl
  · have hne : ∀ d : Char, d.isAlpha = false → c ≠ d := fun d hd he => Bool.eq_false_iff.mp hd (he ▸ h)
    have hself : ¬ (decide (c = quote) || decide (c = '\\')) = true := by
      rcases hquote with rfl | rfl <;> simp [hne]
    have hshown : isPrintable c = true := by
      obtain ⟨hlow, hhigh⟩ := toNat_of_isAlpha h
      rw [isPrintable, if_pos (by omega), decide_eq_true_eq]
      omega
    rw [escaped, if_neg hself, if_neg (hne _ (by decide)), if_neg (hne _ (by decide)), if_neg (hne _ (by decide)),
      if_pos hshown]
  · rcases hquote with rfl | rfl <;> decide

/-! ### Phrases -/

/-- How the characters of a text are shown, for the search for a phrase without backslashes: each as a character of its
own, or as more than one of which the first is a backslash; and those that can be part of the phrase as they are. -/
structure Shown (phrase : Text) (shown : Char → Text) (read : Char → Char) : Prop where
  cases : ∀ c, shown c = [read c] ∨ ∃ tail, shown c = '\\' :: tail
  plain : ∀ c, read c ∈ phrase → shown c = [read c]
  clean : '\\' ∉ phrase

section Shown

variable {shown : Char → Text} {read : Char → Char}

theorem Shown.tail {first : Char} (h : Shown (first :: rest) shown read) : Shown rest shown read :=
  ⟨h.cases, fun c hc => h.plain c (List.mem_cons_of_mem _ hc), fun hm => h.clean (List.mem_cons_of_mem _ hm)⟩

/-- No escape stands where a phrase begins. -/
theorem Shown.prefix_iff (h : Shown phrase shown read) (text : Text) :
    phrase <+: text.flatMap shown ↔ phrase <+: text.map read := by
  induction text generalizing phrase with
  | nil => rfl
  | cons c text ih =>
    cases phrase with
    | nil => exact iff_of_true List.nil_prefix List.nil_prefix
    | cons first rest =>
      rw [List.flatMap_cons, List.map_cons, List.cons_prefix_cons]
      rcases h.cases c with hplain | ⟨tail, hescape⟩
      · rw [hplain, List.singleton_append, List.cons_prefix_cons, ih h.tail]
      · rw [hescape, List.cons_append, List.cons_prefix_cons]
        refine iff_of_false (fun hp => h.clean (hp.1 ▸ List.mem_cons_self)) fun hp => ?_
        have hplain := h.plain c (hp.1 ▸ List.mem_cons_self)
        rw [hescape, List.cons.injEq] at hplain
        exact h.clean (hplain.1 ▸ hp.1 ▸ List.mem_cons_self)

/-- A phrase does not begin among characters that its first one is not one of. -/
theorem infix_append_of_notMem {first : Char} {front : Text} (h : first ∉ front) (behind : Text) :
    first :: rest <:+: front ++ behind ↔ first :: rest <:+: behind := by
  induction front with
  | nil => rfl
  | cons c front ih =>
    rw [List.mem_cons, not_or] at h
    rw [List.cons_append, List.infix_cons_iff, List.cons_prefix_cons, ih h.2]
    exact or_iff_right fun hp => h.1 hp.1

/-- **A phrase is found in what is shown of a text** where it is found in the text itself, or where the escape of some
character ends in the first character of the phrase and the rest of it follows. -/
theorem Shown.infix_iff {first : Char} (h : Shown (first :: rest) shown read) (ending : Char → Prop)
    (hending : ∀ c, ending c → shown c = ['\\', first])
    (hother : ∀ c tail, shown c = '\\' :: tail → first ∈ tail → ending c) (text : Text) :
    first :: rest <:+: text.flatMap shown ↔ first :: rest <:+: text.map read ∨
      ∃ front c behind, text = front ++ c :: behind ∧ ending c ∧ rest <+: behind.map read := by
  induction text with
  | nil => simp
  | cons c text ih =>
    have hcut : (∃ front d behind, c :: text = front ++ d :: behind ∧ ending d ∧ rest <+: behind.map read) ↔
        (ending c ∧ rest <+: text.map read) ∨
          ∃ front d behind, text = front ++ d :: behind ∧ ending d ∧ rest <+: behind.map read := by
      constructor
      · rintro ⟨front, d, behind, htext, hd, hrest⟩
        rcases List.cons_eq_append_iff.mp htext with ⟨rfl, hsame⟩ | ⟨front', rfl, htext'⟩
        · obtain ⟨rfl, rfl⟩ := List.cons.inj hsame
          exact Or.inl ⟨hd, hrest⟩
        · exact Or.inr ⟨front', d, behind, htext', hd, hrest⟩
      · rintro (⟨hd, hrest⟩ | ⟨front, d, behind, rfl, hd, hrest⟩)
        · exact ⟨[], c, text, rfl, hd, hrest⟩
        · exact ⟨c :: front, d, behind, rfl, hd, hrest⟩
    rw [List.flatMap_cons, List.map_cons, hcut, List.infix_cons_iff, List.cons_prefix_cons]
    -- a character is shown as it is, or as an escape; only an escape that ends in the first letter can begin the text
    rcases h.cases c with hplain | ⟨tail, hescape⟩
    · have hnot : ¬ ending c := by
        intro hd
        rw [hending c hd] at hplain
        simp at hplain
      rw [hplain, List.singleton_append, List.infix_cons_iff, List.cons_prefix_cons, h.tail.prefix_iff, ih]
      simp only [hnot, false_and, false_or, or_assoc]
    · have hne : first ≠ '\\' := fun he => h.clean (he ▸ List.mem_cons_self)
      have hread : first ≠ read c := by
        intro he
        have hplain := h.plain c (he ▸ List.mem_cons_self)
        rw [hescape, List.cons.injEq, ← he] at hplain
        exact hne hplain.1.symm
      rw [hescape, List.cons_append, List.infix_cons_iff, List.cons_prefix_cons]
      simp only [hne, hread, false_and, false_or]
      by_cases hd : ending c
      · obtain rfl : tail = [first] := by
          have hsame := hending c hd
          rwa [hescape, List.cons.injEq, and_iff_right rfl] at hsame
        rw [List.singleton_append, List.infix_cons_iff, List.cons_prefix_cons, h.tail.prefix_iff, ih]
        simp only [hd, true_and]
        exact or_left_comm
      · rw [infix_append_of_notMem (fun hm => hd (hother c tail hescape hm)), ih]
        simp only [hd, false_and, false_or]

end Shown

end FileRouter.Text
