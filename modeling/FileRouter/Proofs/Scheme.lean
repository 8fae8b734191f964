import FileRouter.Proofs.Text
import FileRouter.Scheme
import Mathlib.Data.List.TakeWhile
/-!
Schemes in front of paths.

A scheme holds no colon, so a path that begins with a valid scheme and a colon has exactly that scheme
(`parse?_of_has`), and what `join` puts in front `strip` takes off again (`strip_join`).
-/

namespace FileRouter.Scheme

variable {scheme path : Text}

theorem ne_nil_of_isValid (h : isValid scheme = true) : scheme ≠ [] := by
  rintro rfl
  simp [isValid] at h

theorem two_le_length_of_isValid (h : isValid scheme = true) : 2 ≤ scheme.length := by
  match scheme, h with
  | _ :: _ :: _, _ => simp
  | [_], h => simp [isValid] at h

/-- A character that no scheme can have in it is in none. -/
theorem notMem_of_isValid {c : Char} (hletter : isLetter c = false) (hchar : isSchemeChar c = false)
    (h : isValid scheme = true) : c ∉ scheme := by
  cases scheme with
  | nil => simp
  | cons first rest =>
    simp only [isValid, Bool.and_eq_true, List.all_eq_true] at h
    obtain ⟨⟨hfirst, -⟩, hrest⟩ := h
    intro hm
    rcases List.mem_cons.mp hm with rfl | hm
    · simp [hletter] at hfirst
    · exact absurd (hrest c hm) (by simp [hchar])

theorem separator_notMem_of_isValid (h : isValid scheme = true) : separator ∉ scheme :=
  notMem_of_isValid (by decide) (by decide) h

theorem slash_notMem_of_isValid (h : isValid scheme = true) : '/' ∉ scheme :=
  notMem_of_isValid (by decide) (by decide) h

theorem nul_notMem_of_isValid (h : isValid scheme = true) : '\x00' ∉ scheme :=
  notMem_of_isValid (by decide) (by decide) h

theorem has_iff : has path scheme = true ↔ scheme ≠ [] ∧ ∃ rest, path = join scheme rest := by
  rw [has, Bool.and_eq_true, Bool.not_eq_true', List.isEmpty_eq_false_iff,
    List.isPrefixOf_iff_prefix]
  refine and_congr_right fun _ => ⟨?_, ?_⟩
  · rintro ⟨rest, rfl⟩
    exact ⟨rest, by simp [join]⟩
  · rintro ⟨rest, rfl⟩
    exact ⟨rest, by simp [join]⟩

theorem has_join (h : scheme ≠ []) (rest : Text) : has (join scheme rest) scheme = true :=
  has_iff.mpr ⟨h, rest, rfl⟩

theorem join_injective (scheme : Text) : Function.Injective (join scheme) :=
  fun _ _ h => (List.cons.inj (List.append_cancel_left h)).2

theorem drop_join (scheme rest : Text) : (join scheme rest).drop (scheme.length + 1) = rest := by
  rw [join, List.append_cons, List.drop_left']
  simp

theorem strip_join (h : scheme ≠ []) (rest : Text) : strip (join scheme rest) scheme = rest := by
  rw [strip, if_pos (has_join h rest), drop_join]

theorem strip_suffix (path scheme : Text) : strip path scheme <:+ path := by
  rw [strip]
  split_ifs
  · exact List.drop_suffix _ _
  · exact List.suffix_refl path

/-- What stands behind a slash has nothing to do with the scheme of a path. -/
theorem has_append_slash (h : '/' ∉ scheme) (path rest : Text) : has (path ++ '/' :: rest) scheme = has path scheme := by
  have hnot : '/' ∉ scheme ++ [separator] := by
    rw [List.mem_append, List.mem_singleton, not_or]
    exact ⟨h, by decide⟩
  rw [has, has]
  congr 1
  rw [Bool.eq_iff_iff, List.isPrefixOf_iff_prefix, List.isPrefixOf_iff_prefix]
  refine ⟨fun hp => ?_, fun hp => hp.trans (List.prefix_append _ _)⟩
  rcases List.prefix_or_prefix_of_prefix hp (List.prefix_append path _) with hp' | ⟨more, hmore⟩
  · exact hp'
  · -- what the scheme has beyond the path would begin with the slash
    rw [← hmore, List.prefix_append_right_inj, List.prefix_cons_iff] at hp
    rcases hp with rfl | ⟨more, rfl, -⟩
    · rw [← hmore, List.append_nil]
    · simp [← hmore] at hnot

theorem strip_append_slash (h : '/' ∉ scheme) (path rest : Text) :
    strip (path ++ '/' :: rest) scheme = strip path scheme ++ '/' :: rest := by
  rw [strip, strip, has_append_slash h]
  split_ifs with hhas
  · obtain ⟨-, behind, rfl⟩ := has_iff.mp hhas
    refine List.drop_append_of_le_length ?_
    rw [join, List.length_append, List.length_cons]
    omega
  · rfl

theorem parse?_join (h : isValid scheme = true) (rest : Text) : parse? (join scheme rest) = some scheme := by
  have hbefore : Text.before separator (join scheme rest) = scheme :=
    Text.before_append_cons (separator_notMem_of_isValid h) rest
  have hcontains : (join scheme rest).contains separator = true := by
    simp [join]
  rw [parse?, if_pos hcontains, hbefore]
  simp [h]

/-- The scheme of a path is the valid one that it begins with. -/
theorem parse?_of_has (hv : isValid scheme = true) (h : has path scheme = true) :
    parse? path = some scheme := by
  obtain ⟨-, rest, rfl⟩ := has_iff.mp h
  exact parse?_join hv rest

/-- A path has a scheme exactly when the scheme is valid and the path begins with it and a colon. -/
theorem parse?_eq_some_iff : parse? path = some scheme ↔ isValid scheme = true ∧ has path scheme = true := by
  refine ⟨fun h => ?_, fun h => parse?_of_has h.1 h.2⟩
  rw [parse?] at h
  split_ifs at h with hcolon
  dsimp only at h
  split_ifs at h with hvalid
  obtain rfl := Option.some.inj h
  refine ⟨hvalid, has_iff.mpr ⟨ne_nil_of_isValid hvalid, ?_⟩⟩
  have hcut : path = Text.before separator path ++ path.dropWhile (· != separator) :=
    List.takeWhile_append_dropWhile.symm
  -- the first character that is not taken is the colon itself
  cases hrest : path.dropWhile (· != separator) with
  | nil => exact absurd (List.contains_iff_mem.mp hcolon) (Text.dropWhile_eq_nil_iff.mp hrest)
  | cons c rest =>
    have hc : (c != separator) = false := by
      have hhead := List.head?_dropWhile_not (· != separator) path
      rw [hrest] at hhead
      simpa using hhead
    obtain rfl : c = separator := by simpa using hc
    exact ⟨rest, by rw [join, ← hrest]; exact hcut⟩

/-- What stands behind a slash is not the scheme of a path. -/
theorem parse?_append_slash (path rest : Text) : parse? (path ++ '/' :: rest) = parse? path := by
  refine Option.ext fun scheme => ?_
  rw [parse?_eq_some_iff, parse?_eq_some_iff]
  exact and_congr_right fun hv => by rw [has_append_slash (slash_notMem_of_isValid hv)]

/-- A path that begins with no letter has no scheme. -/
theorem parse?_of_head? {c : Char} (hc : isLetter c = false) (h : path.head? = some c) : parse? path = none := by
  refine Option.eq_none_iff_forall_ne_some.mpr fun scheme hparse => ?_
  obtain ⟨hv, hhas⟩ := parse?_eq_some_iff.mp hparse
  obtain ⟨-, rest, rfl⟩ := has_iff.mp hhas
  cases scheme with
  | nil => simp [isValid] at hv
  | cons first more =>
    obtain rfl : first = c := by simpa [join] using h
    simp [isValid, hc] at hv

/-- Paths with the same scheme, or with none, begin with the same valid schemes. -/
theorem has_eq_of_parse? {other : Text} (hv : isValid scheme = true) (h : parse? other = parse? path) :
    has other scheme = has path scheme := by
  have hiff : ∀ text, has text scheme = true ↔ parse? text = some scheme := fun text => by
    rw [parse?_eq_some_iff, and_iff_right hv]
  rw [Bool.eq_iff_iff, hiff, hiff, h]

/-- A path with schemes in front, the first one first. -/
def joinAll (schemes : List Text) (path : Text) : Text := schemes.foldr join path

/-- What is in no scheme and not in the path is not in the path with the schemes in front. -/
theorem notMem_joinAll {c : Char} {schemes : List Text} (hs : ∀ scheme ∈ schemes, c ∉ scheme)
    (hc : c ≠ separator) (hp : c ∉ path) : c ∉ joinAll schemes path := by
  induction schemes with
  | nil => exact hp
  | cons scheme schemes ih =>
    have hbehind := ih fun other ho => hs other (List.mem_cons_of_mem _ ho)
    rw [joinAll, List.foldr_cons, join, List.mem_append, List.mem_cons]
    rintro (hm | rfl | hm)
    · exact hs scheme List.mem_cons_self hm
    · exact hc rfl
    · exact hbehind hm

end FileRouter.Scheme
