import FileRouter.Disk.Provider
import FileRouter.Proofs.Key
import FileRouter.Proofs.Scheme
import Mathlib.Tactic.SplitIfs
/-!
The paths of the entries in a directory.

A listing answers the path that it is asked for with a name behind it. Such a path has the segments of the
directory's path and the name (`segments_joined`), it ends in no slash, and it carries the same scheme and begins
with the same home (`nativePath_joined`): for the operating system too it is the directory's path with the name
behind it.
-/

namespace FileRouter

variable {path name : Text}

namespace Disk

open FileSystem NativePath

/-! ### Segments -/

theorem segments_append (path other : Text) :
    segments (path ++ '/' :: other) = segments path ++ segments other := by
  rw [segments, Text.parts_append_parts, List.filter_append]
  rfl

theorem segments_of_isName (h : Key.IsName name) : segments name = [name] := by
  rw [segments, Text.parts_of_not_mem h.no_slash]
  simpa using h.ne_nil

/-- The slash that is put between a path and a name, unless there is one already. -/
def slashBehind (path : Text) : Text :=
  if path.isEmpty || path.getLast? = some '/' then [] else ['/']

theorem joined_eq (h : '/' ∉ name) (path : Text) : joined path name = path ++ (slashBehind path ++ name) := by
  have hhead : name.head? ≠ some '/' := by
    intro hh
    exact h (List.mem_of_head? hh)
  rw [joined, if_neg hhead, slashBehind]
  split_ifs <;> simp

/-- **The segments of an entry's path** are those of the directory's path and the name. -/
theorem segments_joined (h : Key.IsName name) (path : Text) :
    segments (joined path name) = segments path ++ [name] := by
  rw [joined_eq h.no_slash, slashBehind]
  split_ifs with hslash
  · rw [List.nil_append]
    rcases List.eq_nil_or_concat path with rfl | ⟨start, last, rfl⟩
    · rw [List.nil_append, segments_of_isName h]
      rfl
    · rw [List.concat_eq_append] at hslash ⊢
      obtain rfl : last = '/' := by simpa using hslash
      have hstart : segments (start ++ ['/']) = segments start := by
        rw [segments_append]
        simp [segments, Text.parts]
      rw [List.append_assoc, List.singleton_append, segments_append, segments_of_isName h, hstart]
  · rw [List.singleton_append, segments_append, segments_of_isName h]

/-- A path with a name behind it ends in no slash. -/
theorem endsInSlash_joined (h : Key.IsName name) (path : Text) : endsInSlash (joined path name) = false := by
  have hlast : (joined path name).getLast? ≠ some '/' := by
    rw [joined_eq h.no_slash, ← List.append_assoc, List.getLast?_append_of_ne_nil _ h.ne_nil]
    exact fun hl => h.no_slash (List.mem_of_getLast? hl)
  rw [endsInSlash]
  simp [hlast]

theorem origin_joined (h : '/' ∉ name) (hne : path ≠ []) (work : Key) :
    origin work (joined path name) = origin work path := by
  rw [origin, origin, joined_eq h]
  cases path with
  | nil => exact absurd rfl hne
  | cons c path => rfl

/-! ### Schemes and homes -/

/-- A path with a name behind it carries the schemes that the path carries. -/
theorem has_joined {scheme : Text} (hs : '/' ∉ scheme) (h : '/' ∉ name) (hne : path ≠ []) :
    Scheme.has (joined path name) scheme = Scheme.has path scheme := by
  rw [joined_eq h, slashBehind]
  split_ifs with hslash
  · -- the slash between them is the last of the path
    rw [Bool.or_eq_true, List.isEmpty_iff, decide_eq_true_eq] at hslash
    obtain ⟨front, rfl⟩ := List.getLast?_eq_some_iff.mp (hslash.resolve_left hne)
    rw [List.nil_append, List.append_assoc, List.singleton_append, Scheme.has_append_slash hs,
      Scheme.has_append_slash hs]
  · rw [List.singleton_append, Scheme.has_append_slash hs]

theorem strip_joined {scheme : Text} (hs : '/' ∉ scheme) (h : '/' ∉ name)
    (hne : Scheme.strip path scheme ≠ []) :
    Scheme.strip (joined path name) scheme = joined (Scheme.strip path scheme) name := by
  have hpath : path ≠ [] := by
    rintro rfl
    simp [Scheme.strip] at hne
  rw [Scheme.strip, Scheme.strip, has_joined hs h hpath]
  rw [Scheme.strip] at hne
  split_ifs with hhas
  · rw [if_pos hhas] at hne
    have hlen : scheme.length + 1 ≤ path.length := by
      by_contra hlt
      exact hne (List.drop_eq_nil_of_le (by omega))
    -- the name goes behind the same last character with the scheme as without
    have hlast : (path.drop (scheme.length + 1)).getLast? = path.getLast? := by
      conv_rhs => rw [← List.take_append_drop (scheme.length + 1) path]
      rw [List.getLast?_append_of_ne_nil _ hne]
    have hslash : slashBehind (path.drop (scheme.length + 1)) = slashBehind path := by
      rw [slashBehind, slashBehind, hlast, List.isEmpty_eq_false_iff.mpr hne,
        List.isEmpty_eq_false_iff.mpr hpath]
    rw [joined_eq h, joined_eq h, hslash, List.drop_append_of_le_length hlen]
  · rfl

/-- The home of a user, if there is such a user; the one of the process for the empty name. -/
def homeOf? (fs : FileSystem) (user : Text) : Option Text :=
  if user.isEmpty then some fs.home else (fs.users.find? fun entry => entry.1 = user).map Prod.snd

/-- A home is that of the process or that of a user. -/
theorem homeOf?_cases {fs : FileSystem} {user home : Text} (h : homeOf? fs user = some home) :
    home = fs.home ∨ ∃ entry ∈ fs.users, home = entry.2 := by
  rw [homeOf?] at h
  split_ifs at h
  · exact Or.inl (Option.some.inj h).symm
  · obtain ⟨entry, hfind, rfl⟩ := Option.map_eq_some_iff.mp h
    exact Or.inr ⟨entry, List.mem_of_find?_eq_some hfind, rfl⟩

/-- What a path comes to that has a home in place of the user's name in front. -/
def inHome (home tail : Text) : Text :=
  if (Text.dropTrailing '/' home ++ tail).isEmpty then ['/'] else Text.dropTrailing '/' home ++ tail

theorem expanded_home (fs : FileSystem) (rest : Text) :
    expanded fs ('~' :: rest) =
      match homeOf? fs (Text.before '/' rest) with
      | none => '~' :: rest
      | some home => inHome home (rest.dropWhile (· != '/')) := by
  rw [expanded]
  simp only
  rw [Text.drop_before]
  rfl

theorem expanded_of_ne {c : Char} (hc : c ≠ '~') (fs : FileSystem) (rest : Text) :
    expanded fs (c :: rest) = c :: rest := by
  rw [expanded]
  intro other he
  exact hc (List.cons.inj he).1

/-- The name behind the `~` that a text begins with. -/
def user? : Text → Option Text
  | '~' :: rest => some (Text.before '/' rest)
  | _ => none

theorem user?_eq_some_iff {text user : Text} :
    user? text = some user ↔ ∃ rest, text = '~' :: rest ∧ Text.before '/' rest = user := by
  fun_cases user? text with
  | case1 rest => simp
  | case2 _ hnot =>
    refine iff_of_false (Option.some_ne_none user).symm ?_
    rintro ⟨rest, rfl, -⟩
    exact hnot rest rfl

theorem user?_of_head? {c : Char} {text : Text} (hc : c ≠ '~') (h : text.head? = some c) : user? text = none := by
  refine Option.eq_none_iff_forall_ne_some.mpr fun user huser => ?_
  obtain ⟨rest, rfl, -⟩ := user?_eq_some_iff.mp huser
  exact hc (Option.some.inj h).symm

theorem expanded_of_user? {fs : FileSystem} {text : Text} (h : ∀ user ∈ user? text, homeOf? fs user = none) :
    expanded fs text = text := by
  cases text with
  | nil => rfl
  | cons c rest =>
    by_cases hc : c = '~'
    · subst hc
      rw [expanded_home, h _ rfl]
    · exact expanded_of_ne hc fs rest

/-- A path goes to the operating system as it is, or with the home of a user in front. -/
theorem expanded_cases (fs : FileSystem) (text : Text) :
    (expanded fs text = text ∧ ∀ user ∈ user? text, homeOf? fs user = none) ∨
      ∃ user home, user? text = some user ∧ homeOf? fs user = some home ∧
        expanded fs text = inHome home (text.tail.dropWhile (· != '/')) := by
  by_cases h : ∀ user ∈ user? text, homeOf? fs user = none
  · exact Or.inl ⟨expanded_of_user? h, h⟩
  · push Not at h
    obtain ⟨user, huser, hsome⟩ := h
    obtain ⟨home, hhome⟩ := Option.ne_none_iff_exists'.mp hsome
    obtain ⟨rest, rfl, rfl⟩ := user?_eq_some_iff.mp huser
    exact Or.inr ⟨_, home, rfl, hhome, by rw [expanded_home, hhome, List.tail_cons]⟩

/-- The slash behind a home is dropped, the one behind a longer path is not. -/
theorem inHome_joined (home : Text) (h : Key.IsName name) (tail : Text) :
    inHome home (tail ++ ((if tail.getLast? = some '/' then [] else ['/']) ++ name)) =
      joined (inHome home tail) name := by
  rw [inHome, if_neg (by simp [h.ne_nil]), joined_eq h.no_slash, inHome]
  -- with nothing behind it the home ends in no slash, so one comes in front of the name
  by_cases ht : tail = []
  · subst ht
    have hlast := Text.getLast?_dropTrailing '/' home
    rw [List.append_nil, slashBehind]
    by_cases hempty : Text.dropTrailing '/' home = []
    · simp [hempty]
    · simp [hempty, hlast]
  · have hlast : (Text.dropTrailing '/' home ++ tail).getLast? = tail.getLast? :=
      List.getLast?_append_of_ne_nil _ ht
    have hslash : slashBehind (Text.dropTrailing '/' home ++ tail) =
        if tail.getLast? = some '/' then [] else ['/'] := by
      simp [slashBehind, hlast, ht]
    have hne : ¬ (Text.dropTrailing '/' home ++ tail).isEmpty = true := by simp [ht]
    rw [if_neg hne, hslash, List.append_assoc]

/-- The slash behind a path in a home stands behind what follows the user's name, if it stands anywhere. -/
theorem slashBehind_home (rest : Text) :
    slashBehind ('~' :: rest) = if (rest.dropWhile (· != '/')).getLast? = some '/' then [] else ['/'] := by
  have hlast : ('~' :: rest).getLast? = some '/' ↔ (rest.dropWhile (· != '/')).getLast? = some '/' := by
    by_cases ht : rest.dropWhile (· != '/') = []
    · have hm : '/' ∉ rest := Text.dropWhile_eq_nil_iff.mp ht
      rw [ht]
      refine iff_of_false (fun hl => ?_) (by simp)
      simpa [hm] using List.mem_of_getLast? hl
    · have hrest : Text.before '/' rest ++ rest.dropWhile (· != '/') = rest :=
        List.takeWhile_append_dropWhile
      conv_lhs => rw [← hrest, ← List.cons_append, List.getLast?_append_of_ne_nil _ ht]
  simp [slashBehind, hlast]

/-- A home stays in front of the path with a name behind it. -/
theorem expanded_joined (fs : FileSystem) (h : Key.IsName name) (hne : path ≠ []) :
    expanded fs (joined path name) = joined (expanded fs path) name := by
  rw [joined_eq h.no_slash]
  cases path with
  | nil => exact absurd rfl hne
  | cons c rest =>
    by_cases hc : c = '~'
    · subst hc
      let tail := rest.dropWhile (· != '/')
      have hslash : slashBehind ('~' :: rest) = if tail.getLast? = some '/' then [] else ['/'] :=
        slashBehind_home rest
      let behind := slashBehind ('~' :: rest) ++ name
      have hhead : '/' ∈ rest ∨ behind.head? = some '/' := by
        by_cases hm : '/' ∈ rest
        · exact Or.inl hm
        · have ht : tail = [] := Text.dropWhile_eq_nil_iff.mpr hm
          right
          simp [behind, hslash, ht]
      -- the user ends at the first slash, so what is put behind the path belongs to what follows
      have huser : Text.before '/' (rest ++ behind) = Text.before '/' rest := Text.before_append hhead
      have htail : (rest ++ behind).dropWhile (· != '/') = tail ++ behind := by
        have hle : (Text.before '/' rest).length ≤ rest.length := (List.takeWhile_prefix _).length_le
        rw [← Text.drop_before, huser, List.drop_append_of_le_length hle, Text.drop_before]
      rw [List.cons_append, expanded_home, expanded_home]
      change (match homeOf? fs (Text.before '/' (rest ++ behind)) with
        | none => '~' :: (rest ++ behind)
        | some home => inHome home ((rest ++ behind).dropWhile (· != '/'))) = _
      rw [huser, htail]
      cases homeOf? fs (Text.before '/' rest) with
      | none =>
        simp only
        rw [joined_eq h.no_slash]
        rfl
      | some home =>
        simp only [behind, hslash]
        exact inHome_joined home h tail
    · rw [List.cons_append, expanded_of_ne hc, expanded_of_ne hc, joined_eq h.no_slash]
      rfl

/-- **The path that the operating system gets** for an entry of a directory is what it gets for the directory,
with the name behind it. -/
theorem nativePath_joined (fs : FileSystem) (h : Key.IsName name) (hne : nativePath fs path ≠ []) :
    nativePath fs (joined path name) = joined (nativePath fs path) name := by
  have hstrip : Scheme.strip path scheme ≠ [] := by
    intro hs
    rw [nativePath, hs] at hne
    exact hne rfl
  rw [nativePath, strip_joined (by decide) h.no_slash hstrip, expanded_joined fs h hstrip, nativePath]

end Disk

end FileRouter
