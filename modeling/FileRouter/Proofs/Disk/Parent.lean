import FileRouter.Proofs.Disk.Canonical
/-!
The parents of paths of the disk.

What stands in front of a slash of a path is read like the path itself (`AbsoluteHomes.of_isCut`): it has the same scheme,
and a home in front of it stays the home that it is. So is the parent of a path, which is what stands in front of its
last slash (`AbsoluteHomes.parent?`). It is lower, by a slash or by being made of slashes only (`height_lt`), so from every
path the parents come to an end.
-/

namespace FileRouter.Disk

open NativePath

variable {fs : FileSystem} {path next text front : Text}

/-! ### Cutting at the last slash -/

/-- A path is cut in front of a slash. What is left ends in a slash only if it is made of slashes. -/
theorem directoryPart_cases (h : directoryPart text ≠ []) :
    ∃ front rest, text = front ++ '/' :: rest ∧ (directoryPart text = front ∨
      directoryPart text = front ++ ['/'] ∧ Text.dropTrailing '/' (directoryPart text) = []) := by
  have htext := Text.beforeLast_append_afterLast '/' text
  have hlast := Text.beforeLast_eq '/' text
  rw [directoryPart, withoutSlashes] at h ⊢
  generalize Text.beforeLast '/' text = before at htext hlast h ⊢
  obtain rfl | ⟨front, rfl⟩ := hlast
  · simp [Text.dropTrailing] at h
  rw [List.append_assoc, List.singleton_append] at htext
  split_ifs with hslashes
  · exact ⟨front, _, htext.symm, Or.inr ⟨rfl, List.isEmpty_iff.mp hslashes⟩⟩
  · rw [Text.dropTrailing_concat_self]
    obtain ⟨n, hrun⟩ := Text.exists_dropTrailing '/' front
    -- the slash at which the text is cut is the first of the run
    refine ⟨Text.dropTrailing '/' front, List.replicate n '/' ++ Text.afterLast '/' text, ?_, Or.inl rfl⟩
    conv_lhs => rw [← htext, hrun]
    rw [List.append_assoc, ← List.cons_append, ← List.singleton_append, ← List.append_assoc (List.replicate n '/'),
      ← List.replicate_succ', List.replicate_succ]

theorem prefix_withoutSlashes (text : Text) : withoutSlashes text <+: text := by
  rw [withoutSlashes]
  split_ifs
  · exact List.prefix_rfl
  · exact Text.prefix_dropTrailing '/' text

theorem withoutSlashes_withoutSlashes (text : Text) : withoutSlashes (withoutSlashes text) = withoutSlashes text := by
  by_cases h : (Text.dropTrailing '/' text).isEmpty = true
  · have hself : withoutSlashes text = text := if_pos h
    rw [hself, hself]
  · have hcut : withoutSlashes text = Text.dropTrailing '/' text := if_neg h
    rw [hcut, withoutSlashes, Text.dropTrailing_of_getLast? (Text.getLast?_dropTrailing '/' text), if_neg h]

theorem withoutSlashes_directoryPart (text : Text) : withoutSlashes (directoryPart text) = directoryPart text :=
  withoutSlashes_withoutSlashes _

/-- How many cuts a path can bear: none if it is made of slashes, and otherwise at most one for each slash and one
more. -/
def height (text : Text) : Nat :=
  if Text.dropTrailing '/' text = [] then 0 else text.count '/' + 1

/-- **A cut takes a slash away**, or leaves nothing but slashes. -/
theorem height_lt (h : directoryPart text ≠ []) (hne : directoryPart text ≠ text) :
    height (directoryPart text) < height text := by
  have hslashes : Text.dropTrailing '/' text ≠ [] := by
    intro hnil
    -- a path of slashes is cut behind all of them
    obtain ⟨n, hrun⟩ := Text.exists_dropTrailing '/' text
    rw [hnil, List.nil_append] at hrun
    have hafter : Text.afterLast '/' text = [] := by
      refine List.eq_nil_iff_forall_not_mem.mpr fun c hc => ?_
      have hmem : c ∈ text := by
        rw [← Text.beforeLast_append_afterLast '/' text]
        exact List.mem_append_right _ hc
      rw [hrun] at hmem
      exact Text.notMem_afterLast '/' text (List.eq_of_mem_replicate hmem ▸ hc)
    have hall := Text.beforeLast_append_afterLast '/' text
    rw [hafter, List.append_nil] at hall
    exact hne (by rw [directoryPart, hall, withoutSlashes, hnil]; rfl)
  obtain ⟨front, rest, htext, hfront | ⟨-, hroot⟩⟩ := directoryPart_cases h
  · have hcount : text.count '/' = front.count '/' + (rest.count '/' + 1) := by
      rw [htext, List.count_append, List.count_cons_self]
    rw [hfront, height, height, if_neg hslashes]
    split_ifs <;> omega
  · rw [height, height, if_pos hroot, if_neg hslashes]
    exact Nat.succ_pos _

/-! ### Homes -/

/-- All homes are absolute paths. -/
structure AbsoluteHomes (fs : FileSystem) : Prop where
  home : fs.home.head? = some '/'
  users : ∀ user ∈ fs.users, user.2.head? = some '/'

theorem absoluteHomes_fresh (work : Key) : AbsoluteHomes (.fresh work) where
  home := head?_toText _
  users := by
    intro user hm
    obtain rfl := List.mem_singleton.mp hm
    rfl

theorem hasBadUser_iff : hasBadUser path = true ↔ ∃ user ∈ user? (Scheme.strip path scheme), '\x00' ∈ user := by
  rw [hasBadUser]
  split
  next rest hrest => simp [hrest, user?]
  next hnot =>
    refine iff_of_false Bool.false_ne_true ?_
    rintro ⟨user, huser, -⟩
    obtain ⟨rest, hrest, -⟩ := user?_eq_some_iff.mp huser
    exact hnot rest hrest

theorem AbsoluteHomes.head?_inHome (hh : AbsoluteHomes fs) {user home : Text} (h : homeOf? fs user = some home)
    (rest : Text) : (inHome home (rest.dropWhile (· != '/'))).head? = some '/' := by
  have hhome : home.head? = some '/' := by
    rcases homeOf?_cases h with rfl | ⟨entry, hm, rfl⟩
    · exact hh.home
    · exact hh.users entry hm
  rw [inHome]
  obtain ⟨n, hrun⟩ := Text.exists_dropTrailing '/' home
  -- a home of slashes alone is dropped, and then the rest begins with one, or nothing is left and one is put back
  cases hcut : Text.dropTrailing '/' home with
  | nil =>
    have htail := List.head?_dropWhile_not (· != '/') rest
    cases hrest : rest.dropWhile (· != '/') with
    | nil => rfl
    | cons c more =>
      rw [hrest] at htail
      simpa using htail
  | cons c more =>
    rw [hrun, hcut] at hhome
    simpa using hhome

/-! ### What is in front of a slash -/

/-- A text is what stands in front of a slash of another, perhaps with that slash. -/
def IsCut (directory text : Text) : Prop :=
  ∃ front more, text = front ++ '/' :: more ∧ (directory = front ∨ directory = front ++ ['/'])

theorem isCut_directoryPart (h : directoryPart text ≠ []) : IsCut (directoryPart text) text := by
  obtain ⟨front, more, htext, hfront⟩ := directoryPart_cases h
  exact ⟨front, more, htext, hfront.imp_right And.left⟩

section IsCut

variable {directory whole : Text} (h : IsCut directory text)
include h

theorem IsCut.mono (hp : text <+: whole) : IsCut directory whole := by
  obtain ⟨front, more, rfl, hfront⟩ := h
  obtain ⟨rest, rfl⟩ := hp
  exact ⟨front, more ++ rest, by rw [List.append_assoc, List.cons_append], hfront⟩

theorem IsCut.head?_eq (hne : directory ≠ []) : directory.head? = text.head? := by
  obtain ⟨front, more, rfl, rfl | rfl⟩ := h
  · rw [List.head?_append_of_ne_nil _ hne]
  · cases front <;> rfl

theorem IsCut.parse?_eq : Scheme.parse? directory = Scheme.parse? text := by
  obtain ⟨front, more, rfl, rfl | rfl⟩ := h
  · exact (Scheme.parse?_append_slash _ more).symm
  · exact (Scheme.parse?_append_slash front []).trans (Scheme.parse?_append_slash front more).symm

/-- What is cut off behind a slash is no part of a user's name. -/
theorem IsCut.user?_eq (hne : directory ≠ []) : user? directory = user? text := by
  obtain ⟨front, more, rfl, hfront⟩ := h
  cases front with
  | nil =>
    obtain rfl := hfront.resolve_left hne
    rfl
  | cons c front =>
    by_cases hc : c = '~'
    · subst hc
      -- the name of the user ends at the first slash, which the cut does not reach
      have hbefore : ∀ rest, Text.before '/' (front ++ '/' :: rest) = Text.before '/' front := fun rest =>
        Text.before_append (Or.inr List.head?_cons)
      rcases hfront with rfl | rfl
      · exact congrArg some (hbefore more).symm
      · exact congrArg some ((hbefore []).trans (hbefore more).symm)
    · rw [user?_of_head? hc (by rcases hfront with rfl | rfl <;> rfl), user?_of_head? hc rfl]

end IsCut

/-- **What is cut at a slash is read like the whole**: it goes to the operating system as it is, has the same scheme, and
begins with no other user. -/
theorem AbsoluteHomes.of_isCut (hh : AbsoluteHomes fs) {directory : Text} (h : IsCut directory (expanded fs text))
    (hne : directory ≠ []) :
    expanded fs directory = directory ∧ Scheme.parse? directory = Scheme.parse? text ∧
      ∀ user ∈ user? directory, user ∈ user? text := by
  rcases expanded_cases fs text with ⟨hsame, hnone⟩ | ⟨user, home, huser, hhome, hin⟩
  · rw [hsame] at h
    have heq := h.user?_eq hne
    exact ⟨expanded_of_user? (heq ▸ hnone), h.parse?_eq, fun user hm => heq ▸ hm⟩
  · -- with a home in front the path is absolute, and so is what is left of it
    have hhead : directory.head? = some '/' := by
      rw [h.head?_eq hne, hin]
      exact hh.head?_inHome hhome _
    have hnouser : user? directory = none := user?_of_head? (by decide) hhead
    obtain ⟨rest, rfl, -⟩ := user?_eq_some_iff.mp huser
    refine ⟨expanded_of_user? (by simp [hnouser]), ?_, by simp [hnouser]⟩
    rw [Scheme.parse?_of_head? (by decide) hhead, Scheme.parse?_of_head? (c := '~') (by decide) rfl]

/-! ### Parents -/

theorem parent?_eq_some_iff : parent? fs path = some next ↔
    next = qualified path (directoryPart (trimmedNative fs path)) ∧ directoryPart (trimmedNative fs path) ≠ [] ∧
      directoryPart (trimmedNative fs path) ≠ trimmedNative fs path := by
  rw [parent?]
  simp only [Bool.or_eq_true, List.isEmpty_iff, beq_iff_eq]
  split_ifs with hnone
  · exact iff_of_false (by simp) fun h => hnone.elim h.2.1 h.2.2
  · rw [not_or] at hnone
    rw [Option.some.injEq, eq_comm, and_iff_left hnone]

/-- **The parent of a path is read like the path**: it has the same scheme and no bad user, and it can be cut less often. -/
theorem AbsoluteHomes.parent? (hh : AbsoluteHomes fs) (h : parent? fs path = some next) :
    Scheme.parse? next = Scheme.parse? path ∧ (hasBadUser path = false → hasBadUser next = false) ∧
      height (trimmedNative fs next) < height (trimmedNative fs path) := by
  obtain ⟨rfl, hne, hother⟩ := parent?_eq_some_iff.mp h
  have hlt := height_lt hne hother
  obtain ⟨hexpanded, hparse, husers⟩ := hh.of_isCut ((isCut_directoryPart hne).mono (prefix_withoutSlashes _)) hne
  generalize hd : directoryPart (trimmedNative fs path) = directory at hne hlt hexpanded hparse husers ⊢
  have hscheme : Scheme.isValid scheme = true := by decide
  -- with the scheme put back where it was, the parent is the directory again
  have hstrip : Scheme.strip (qualified path directory) scheme = directory ∧
      Scheme.parse? (qualified path directory) = Scheme.parse? path := by
    rw [qualified]
    split_ifs with hhas
    · exact ⟨Scheme.strip_join (by decide) _, by
        rw [Scheme.parse?_join hscheme, Scheme.parse?_of_has hscheme hhas]⟩
    · have hpath : Scheme.strip path scheme = path := if_neg hhas
      rw [hpath] at hparse
      refine ⟨if_neg ?_, hparse⟩
      rw [Scheme.has_eq_of_parse? hscheme hparse]
      exact hhas
  have htrimmed : trimmedNative fs (qualified path directory) = directory := by
    have hnative : nativePath fs (qualified path directory) = directory := by
      rw [nativePath, hstrip.1, hexpanded]
    rw [trimmedNative, hnative, ← hd]
    exact withoutSlashes_directoryPart _
  refine ⟨hstrip.2, fun hgood => ?_, by rw [htrimmed]; exact hlt⟩
  rw [Bool.eq_false_iff, ne_eq, hasBadUser_iff] at hgood ⊢
  rw [hstrip.1]
  rintro ⟨user, huser, hnul⟩
  exact hgood ⟨user, husers user huser, hnul⟩

theorem length_le_of_homeOf? {user home : Text} (h : homeOf? fs user = some home) :
    home.length ≤ fs.home.length + total (fun user => user.2.length) fs.users := by
  rcases homeOf?_cases h with rfl | ⟨entry, hm, rfl⟩
  · exact Nat.le_add_right _ _
  · exact Nat.le_trans (le_total_of_mem (fun user : Text × Text => user.2.length) hm) (Nat.le_add_left _ _)

theorem count_expanded_le (fs : FileSystem) (text : Text) : (expanded fs text).count '/' ≤
    text.count '/' + (fs.home.length + total (fun user => user.2.length) fs.users) + 1 := by
  rcases expanded_cases fs text with ⟨hsame, -⟩ | ⟨user, home, -, hhome, hin⟩
  · rw [hsame]
    omega
  · have hlength := length_le_of_homeOf? hhome
    have hcut : (Text.dropTrailing '/' home).count '/' ≤ home.length :=
      Nat.le_trans List.count_le_length (Text.prefix_dropTrailing '/' home).length_le
    -- what follows the user brings its own slashes, and the home at most its length
    have htail : (text.tail.dropWhile (· != '/')).count '/' ≤ text.count '/' :=
      ((List.dropWhile_sublist _).trans (List.tail_sublist text)).count_le _
    rw [hin, inHome]
    split_ifs
    · simp
    · rw [List.count_append]
      omega

/-- A path can be cut as often as it has slashes, and as the home has that it may begin with. -/
theorem height_le (fs : FileSystem) (path : Text) :
    height (trimmedNative fs path) ≤
      path.count '/' + (fs.home.length + total (fun user => user.2.length) fs.users) + 2 := by
  have htrim : (trimmedNative fs path).count '/' ≤ (nativePath fs path).count '/' :=
    (prefix_withoutSlashes (nativePath fs path)).sublist.count_le _
  have hnative : (nativePath fs path).count '/' ≤ (Scheme.strip path scheme).count '/' +
      (fs.home.length + total (fun user => user.2.length) fs.users) + 1 := count_expanded_le fs _
  have hstrip : (Scheme.strip path scheme).count '/' ≤ path.count '/' :=
    (Scheme.strip_suffix path scheme).sublist.count_le _
  rw [height]
  split_ifs <;> omega

/-! ### Requests -/

section Requests

variable (path : Text) (s : Disk × TokenSource)

theorem outcome_parent : (perform (.parent path)).outcome s =
    if hasBadUser path then (.error nulFault, s) else (.ok (Disk.parent? s.1.fs path), s) := by
  rw [perform, seen, plain, Call.outcome_within, Call.outcome_bind, outcome_tested]
  split_ifs <;> rfl

theorem outcome_exists : (perform (.exists path)).outcome s =
    if hasBadUser path then (.error nulFault, s) else (.ok (existsAt s.1.fs (nativePath s.1.fs path)), s) := by
  rw [perform, plain, Call.outcome_within, exists?, Call.outcome_bind, outcome_tested]
  split_ifs <;> rfl

/-- A directory cannot be made if the operating system does not take its path, or refuses to make it. -/
theorem failure_createDirectory {failure : Failure}
    (h : ((perform (.createDirectory path)).outcome s).1 = .error failure) :
    failure = nulFault ∨ ∃ error : SystemError, failure = .provider (error.toProvider path) := by
  rw [perform, plain, Call.outcome_within, createDirectory, Call.outcome_bind, outcome_tested] at h
  by_cases hbad : hasBadUser path = true
  · rw [if_pos hbad] at h
    exact Or.inl (Except.error.inj h).symm
  rw [if_neg hbad] at h
  simp only [Call.outcome_bind, Call.outcome_get] at h
  -- a directory that is there is no failure
  split_ifs at h with hdir
  · simp at h
  · rw [Call.outcome_bind, outcome_native] at h
    split_ifs at h with hnul
    · exact Or.inl (Except.error.inj h).symm
    · simp only [outcome_reported_alter] at h
      cases hmade : s.1.fs.makeDirectory (nativePath s.1.fs path) with
      | ok fs => simp [hmade] at h
      | error fault =>
        simp only [hmade] at h
        exact Or.inr ⟨_, (Except.error.inj h).symm⟩

end Requests

end FileRouter.Disk
