import FileRouter.Proofs.Disk.Change
import FileRouter.Proofs.Disk.Path
/-!
File systems that have lost entries, and the entries that paths name.

When entries disappear, a path leads where it led before or nowhere (`Pruned.stretch`, `Pruned.follow`). A path is
straight when no link is on the way to its last segment; it then names the entry that the last segment leads to,
a link itself and not what the link leads to (`named?`). Removing by a straight path removes what it names
(`named?_of_parentOf`). A directory is found by its name or through a link at the end of the path, and through a
link only when a slash stands behind it (`stretch_of_isDirectoryAt`).
-/

namespace FileRouter.Disk.FileSystem

variable {fs fs' fs'' : FileSystem} {region region' : Key → Prop} {key directory : Key} {path name : Text}

/-! ### Lost entries -/

/-- A file system from which some entries of a region are gone, and which is the same otherwise. -/
structure Pruned (region : Key → Prop) (fs fs' : FileSystem) : Prop where
  entries : ∀ key, fs'.entry? key = fs.entry? key ∨ (region key ∧ fs'.entry? key = none)
  rest : { fs' with entries := fs.entries } = fs

namespace Pruned

theorem refl (region : Key → Prop) (fs : FileSystem) : Pruned region fs fs :=
  ⟨fun _ => Or.inl rfl, rfl⟩

theorem trans (h : Pruned region fs fs') (h' : Pruned region fs' fs'') : Pruned region fs fs'' := by
  refine ⟨fun key => ?_, ?_⟩
  · rcases h'.entries key with hsame | hgone
    · rcases h.entries key with hsame' | ⟨hr, hgone⟩
      · exact Or.inl (hsame.trans hsame')
      · exact Or.inr ⟨hr, hsame.trans hgone⟩
    · exact Or.inr hgone
  · have hfirst := h.rest
    have hsecond := h'.rest
    rw [← hfirst, ← hsecond]

theorem mono (h : Pruned region fs fs') (hsub : ∀ {key : Key}, region key → region' key) :
    Pruned region' fs fs' :=
  ⟨fun key => (h.entries key).imp_right fun hgone => ⟨hsub hgone.1, hgone.2⟩, h.rest⟩

theorem work (h : Pruned region fs fs') : fs'.work = fs.work := by
  have hwork := congrArg FileSystem.work h.rest
  exact hwork

theorem nativePath (h : Pruned region fs fs') (path : Text) : nativePath fs' path = nativePath fs path := by
  have hhome := congrArg FileSystem.home h.rest
  have husers := congrArg FileSystem.users h.rest
  simp only at hhome husers
  simp only [Disk.nativePath, NativePath.expanded, hhome, husers]

theorem entry? (h : Pruned region fs fs') {entry : Entry} (he : fs'.entry? key = some entry) :
    fs.entry? key = some entry := by
  rcases h.entries key with hsame | ⟨-, hgone⟩
  · rw [← hsame, he]
  · rw [hgone] at he
    simp at he

theorem isDirectory (h : Pruned region fs fs') (hd : fs'.isDirectory key = true) :
    fs.isDirectory key = true := by
  obtain ⟨mode, modified, he⟩ := entry?_of_isDirectory hd
  rw [FileSystem.isDirectory, h.entry? he]

/-- Whoever looks for a name in a directory finds what was there, or nothing, or fails. -/
theorem child (h : Pruned region fs fs') (directory : Key) (name : Text) :
    fs'.child directory name = fs.child directory name ∨ fs'.child directory name = .ok none ∨
      ∃ fault, fs'.child directory name = .error fault := by
  cases hc : fs'.child directory name with
  | error fault => exact Or.inr (Or.inr ⟨fault, rfl⟩)
  | ok answer =>
    obtain ⟨hdir, hanswer⟩ := isDirectory_of_child hc
    rcases h.entries (directory ++ [name]) with hsame | ⟨-, hgone⟩
    · left
      rw [FileSystem.child, hdir] at hc
      rw [FileSystem.child, h.isDirectory hdir, ← hsame]
      exact hc.symm
    · right; left
      rw [hanswer, hgone]

/-- Segments lead where they led, or nowhere. -/
theorem stretch (h : Pruned region fs fs') (key : Key) (segments : List Text) :
    fs'.stretch key segments = fs.stretch key segments ∨
      ∃ fault, fs'.stretch key segments = .error fault := by
  induction segments generalizing key with
  | nil => exact Or.inl rfl
  | cons segment rest ih =>
    rw [FileSystem.stretch, FileSystem.stretch]
    by_cases hdots : (segment = Key.here || segment = Key.above) = true
    · rw [if_pos hdots, if_pos hdots]
      by_cases hdir : fs'.isDirectory key = true
      · rw [hdir, h.isDirectory hdir]
        exact ih _
      · rw [Bool.not_eq_true] at hdir
        rw [hdir, Bool.not_false, if_pos rfl]
        exact Or.inr ⟨_, rfl⟩
    · rw [if_neg hdots, if_neg hdots]
      -- an entry that is still there is what it was, and one that is gone ends the walk
      rcases h.child key segment with hsame | hgone | ⟨fault, hfault⟩
      · rw [hsame]
        rcases fs.child key segment with fault | _ | entry
        · exact Or.inl rfl
        · exact Or.inl rfl
        · cases entry with
          | link target => exact Or.inl rfl
          | directory mode modified => exact ih _
          | file body => exact ih _
      · rw [hgone]
        exact Or.inr ⟨_, rfl⟩
      · rw [hfault]
        exact Or.inr ⟨_, rfl⟩

theorem follow (h : Pruned region fs fs') {links : Nat} {start : Key} {segments : List Text}
    {found : Key × Nat} (hf : fs'.follow links start segments = .ok found) :
    fs.follow links start segments = .ok found := by
  induction links generalizing start segments with
  | zero =>
    rw [follow_eq] at hf ⊢
    rcases h.stretch start segments with hsame | ⟨fault, hfault⟩
    · rwa [← hsame]
    · simp [hfault] at hf
  | succ links ih =>
    rw [follow_eq] at hf ⊢
    -- each stretch goes as before or fails, and by hf none has failed
    rcases h.stretch start segments with hsame | ⟨fault, hfault⟩
    · rw [← hsame]
      rcases hs : fs'.stretch start segments with fault | stretched
      · simp [hs] at hf
      · rw [hs] at hf
        cases stretched with
        | done key => exact hf
        | link directory target rest => exact ih hf
    · simp [hfault] at hf

theorem find (h : Pruned region fs fs') (hf : fs'.find path = .ok key) : fs.find path = .ok key := by
  obtain ⟨hcheck, left, hfollow, hsome⟩ := find_eq_ok_iff.mp hf
  obtain ⟨entry, he⟩ := Option.isSome_iff_exists.mp hsome
  rw [h.work] at hfollow
  exact find_eq_ok_iff.mpr ⟨hcheck, left, h.follow hfollow, by rw [h.entry? he]; rfl⟩

theorem leadsToDirectory (h : Pruned region fs fs') (hd : leadsToDirectory fs' path = true) :
    leadsToDirectory fs path = true := by
  rw [Disk.leadsToDirectory] at hd ⊢
  cases hf : fs'.find path with
  | error fault => simp [hf] at hd
  | ok key =>
    rw [hf] at hd
    rw [h.find hf]
    exact h.isDirectory hd

end Pruned

theorem pruned_remove (h : region key) : Pruned region fs (fs.remove key) := by
  refine ⟨fun other => ?_, rfl⟩
  rw [entryAt_remove]
  split_ifs with he
  · exact Or.inr ⟨he ▸ h, rfl⟩
  · exact Or.inl rfl

/-! ### What paths name -/

/-- Where one more segment leads from a directory, whatever it names there. -/
def ahead (directory : Key) (segment : Text) : Key :=
  if segment = Key.here then directory
  else if segment = Key.above then directory.parent
  else directory ++ [segment]

/-- The key that a path names: where its last segment leads from the directory that the others lead to without
a link. -/
def named? (fs : FileSystem) (path : Text) : Option Key :=
  match (segments path).getLast? with
  | none => some []
  | some last =>
    match fs.stretch (origin fs.work path) (segments path).dropLast with
    | .ok (.done directory) => some (ahead directory last)
    | _ => none

/-- No link is on the way to the last segment of a path. -/
def Straight (fs : FileSystem) (path : Text) : Prop :=
  ∀ directory target rest,
    fs.stretch (origin fs.work path) (segments path).dropLast ≠ .ok (.link directory target rest)

theorem Straight.pruned (h : fs.Straight path) (hp : Pruned region fs fs') : fs'.Straight path := by
  intro directory target rest
  rw [hp.work]
  rcases hp.stretch (origin fs.work path) (segments path).dropLast with hsame | ⟨fault, hfault⟩
  · rw [hsame]
    exact h directory target rest
  · rw [hfault]
    simp

theorem named?_of_pruned (hp : Pruned region fs fs') (hn : fs'.named? path = some key) :
    fs.named? path = some key := by
  rw [named?] at hn ⊢
  cases hlast : (segments path).getLast? with
  | none => rwa [hlast] at hn
  | some last =>
    rw [hlast, hp.work] at hn
    rcases hp.stretch (origin fs.work path) (segments path).dropLast with hsame | ⟨fault, hfault⟩
    · rwa [hsame] at hn
    · simp [hfault] at hn

theorem named?_of_segments {init : List Text} {last : Text} (hs : segments path = init ++ [last])
    (hinit : fs.stretch (origin fs.work path) init = .ok (.done directory)) :
    fs.named? path = some (ahead directory last) := by
  rw [named?, hs, List.getLast?_concat]
  simp only
  rw [List.dropLast_concat, hinit]

/-- Where a straight path's first segments lead, they lead without a link. -/
theorem Straight.stretch_of_follow (h : fs.Straight path) {init : List Text} {last : Text}
    (hs : segments path = init ++ [last]) {links left : Nat}
    (hf : fs.follow links (origin fs.work path) init = .ok (directory, left)) :
    fs.stretch (origin fs.work path) init = .ok (.done directory) ∧ left = links := by
  have hstraight := h
  rw [Straight, hs, List.dropLast_concat] at hstraight
  rw [follow_eq] at hf
  rcases hst : fs.stretch (origin fs.work path) init with fault | stretched
  · simp [hst] at hf
  · cases stretched with
    | done key =>
      simp only [hst, Except.ok.injEq, Prod.mk.injEq] at hf
      obtain ⟨rfl, rfl⟩ := hf
      exact ⟨rfl, rfl⟩
    | link directory target rest => exact absurd hst (hstraight directory target rest)

/-- What is made or removed by a straight path is what it names. -/
theorem named?_of_parentOf (h : fs.Straight path) {slash : Bool}
    (hp : fs.parentOf path = .ok (directory, .name name slash)) :
    fs.named? path = some (directory ++ [name]) := by
  rw [parentOf] at hp
  obtain ⟨-, -, hp⟩ := exists_of_bind_eq_ok hp
  obtain ⟨⟨key, last, left⟩, hlast, hp⟩ := exists_of_bind_eq_ok hp
  simp only [Except.ok.injEq, Prod.mk.injEq] at hp
  obtain ⟨rfl, rfl⟩ := hp
  obtain ⟨init, hs, -, hhere, habove, hinit⟩ := follow_of_lastIn hlast
  rw [named?_of_segments hs (h.stretch_of_follow hs hinit).1, ahead, if_neg hhere, if_neg habove]

/-! ### The entries of a directory -/

/-- A path leads to a key without a link, if it leads anywhere. -/
def LeadsTo (fs : FileSystem) (path : Text) (key : Key) : Prop :=
  ∀ {stretched : Stretch},
    fs.stretch (origin fs.work path) (segments path) = .ok stretched → stretched = .done key

theorem LeadsTo.straight (h : fs.LeadsTo path key) (hn : Key.IsName name) (hne : path ≠ []) :
    fs.Straight (NativePath.joined path name) := by
  intro directory target rest hs
  rw [origin_joined hn.no_slash hne, segments_joined hn, List.dropLast_concat] at hs
  exact absurd (h hs) (by simp)

theorem LeadsTo.named? (h : fs.LeadsTo path key) (hn : Key.IsName name) (hne : path ≠ []) {other : Key}
    (ho : fs.named? (NativePath.joined path name) = some other) : other = key ++ [name] := by
  rw [FileSystem.named?, segments_joined hn, List.getLast?_concat, List.dropLast_concat,
    origin_joined hn.no_slash hne] at ho
  simp only at ho
  split at ho
  next directory hs =>
    obtain rfl : directory = key := by simpa using h hs
    rw [ahead, if_neg hn.ne_here, if_neg hn.ne_above] at ho
    exact (Option.some.inj ho).symm
  next => simp at ho

/-- A link is found by the path that names it, unless a slash stands behind it. -/
theorem linkAt?_of_named {init : List Text} {last target : Text} (hs : segments path = init ++ [last])
    (hslash : endsInSlash path = false) (hcheck : checkPath path = .ok ())
    (hinit : fs.stretch (origin fs.work path) init = .ok (.done directory))
    (hhere : last ≠ Key.here) (habove : last ≠ Key.above)
    (hchild : fs.child directory last = .ok (some (.link target))) : fs.linkAt? path = some target := by
  have hsteps : steps path = init ++ [last] := by
    rw [steps, hslash, hs]
    rfl
  have hfind : fs.findLink path = .ok (directory ++ [last]) := by
    rw [findLink, hcheck, hsteps, List.getLast?_concat, List.dropLast_concat, follow_eq, hinit]
    simp [bind, Except.bind, hhere, habove, hchild]
  obtain ⟨-, hentry⟩ := isDirectory_of_child hchild
  rw [linkAt?, hfind]
  simp only
  rw [← hentry]

/-- A last segment that leads somewhere and names no link leads ahead. -/
theorem stretch_of_follow_singleton {links : Nat} {last : Text} {found : Key × Nat}
    (hf : fs.follow links directory [last] = .ok found)
    (hlink : last ≠ Key.here → last ≠ Key.above →
      ∀ target, fs.child directory last ≠ .ok (some (.link target))) :
    fs.stretch directory [last] = .ok (.done (ahead directory last)) := by
  rw [follow_eq, stretch] at hf
  rw [stretch]
  by_cases hdots : (last = Key.here || last = Key.above) = true
  · rw [if_pos hdots] at hf ⊢
    by_cases hdir : fs.isDirectory directory = true
    · rw [hdir, Bool.not_true, if_neg (by simp), stretch, ahead]
      by_cases hhere : last = Key.here
      · rw [if_pos hhere, if_pos hhere]
      · have habove : last = Key.above := by simpa [hhere] using hdots
        rw [if_neg hhere, if_neg hhere, if_pos habove]
    · simp [hdir] at hf
  · have hname : last ≠ Key.here ∧ last ≠ Key.above := by simpa using hdots
    rw [if_neg hdots] at hf ⊢
    rw [ahead, if_neg hname.1, if_neg hname.2]
    -- one name that is no link leaves nothing to follow, so the stretch is all there is
    cases hchild : fs.child directory last with
    | error fault => simp [hchild] at hf
    | ok answer =>
      cases answer with
      | none => simp [hchild] at hf
      | some entry =>
        cases entry with
        | directory mode modified => rfl
        | file body => rfl
        | link target => exact absurd hchild (hlink hname.1 hname.2 target)

/-- A slash behind a path leads nowhere else. -/
theorem eq_of_follow_slash {links left : Nat} {found : Key} (slash : Bool)
    (hf : fs.follow links key (if slash then [Key.here] else []) = .ok (found, left)) : key = found := by
  rw [follow_eq] at hf
  cases slash with
  | true =>
    by_cases hdir : fs.isDirectory key = true
    · simp only [if_true, stretch, hdir, decide_true, Bool.true_or, Bool.not_true, Bool.false_eq_true,
        if_false, Except.ok.injEq, Prod.mk.injEq] at hf
      exact hf.1
    · simp [stretch, hdir] at hf
  | false =>
    simp only [Bool.false_eq_true, if_false, stretch, Except.ok.injEq, Prod.mk.injEq] at hf
    exact hf.1

/-- A path that consists of slashes leads to the root. -/
theorem stretch_of_slashes (fs : FileSystem) (hne : path ≠ []) (hnil : segments path = []) :
    steps path = [] ∧ fs.stretch (origin fs.work path) (segments path) = .ok (.done []) := by
  have horigin : origin fs.work path = [] := by
    rw [origin, if_pos (head?_of_segments_eq_nil hne hnil)]
  refine ⟨?_, ?_⟩
  · rw [steps, endsInSlash, hnil]
    simp
  · rw [hnil, horigin]
    rfl

/-- **A directory is found by its name**: the segments of a straight path lead to it without a link, unless the
path names a link with a slash behind it. -/
theorem stretch_of_isDirectoryAt (h : fs.Straight path) (hdir : isDirectoryAt fs path = true)
    (hslash : endsInSlash path = true → ∀ {key : Key} {target : Text}, fs.named? path = some key →
      fs.entry? key ≠ some (.link target)) :
    ∃ key, fs.find path = .ok key ∧ fs.named? path = some key ∧
      fs.stretch (origin fs.work path) (segments path) = .ok (.done key) := by
  rw [isDirectoryAt, Bool.and_eq_true, leadsToDirectory, Option.isNone_iff_eq_none] at hdir
  obtain ⟨hfound, hlink⟩ := hdir
  cases hf : fs.find path with
  | error fault => simp [hf] at hfound
  | ok key =>
    refine ⟨key, rfl, ?_⟩
    obtain ⟨hcheck, left, hfollow, -⟩ := find_eq_ok_iff.mp hf
    rcases List.eq_nil_or_concat (segments path) with hnil | ⟨init, last, hs⟩
    · have hne : path ≠ [] := by
        rintro rfl
        simp [checkPath] at hcheck
      obtain ⟨hsteps, hroot⟩ := stretch_of_slashes fs hne hnil
      rw [hsteps, follow_eq, ← hnil, hroot] at hfollow
      simp only [Except.ok.injEq, Prod.mk.injEq] at hfollow
      obtain ⟨rfl, -⟩ := hfollow
      rw [named?, hnil]
      exact ⟨rfl, hnil ▸ hroot⟩
    · rw [List.concat_eq_append] at hs
      have hsteps : steps path = init ++ ([last] ++ if endsInSlash path then [Key.here] else []) := by
        rw [steps, hs]
        split_ifs <;> simp
      rw [hsteps] at hfollow
      obtain ⟨directory, rest, hinit, hfollow⟩ := exists_of_follow_append hfollow
      obtain ⟨reached, rest', hone, hfollow⟩ := exists_of_follow_append hfollow
      obtain ⟨hstretch, -⟩ := h.stretch_of_follow hs hinit
      have hnamed := named?_of_segments hs hstretch
      -- the last segment is no link: one without a slash would be seen to be a link
      have hlast : fs.stretch directory [last] = .ok (.done (ahead directory last)) := by
        refine stretch_of_follow_singleton hone fun hhere habove target hchild => ?_
        obtain ⟨-, hentry⟩ := isDirectory_of_child hchild
        cases hends : endsInSlash path with
        | true =>
          rw [ahead, if_neg hhere, if_neg habove] at hnamed
          exact hslash hends hnamed hentry.symm
        | false =>
          rw [linkAt?_of_named hs hends hcheck hstretch hhere habove hchild] at hlink
          simp at hlink
      rw [follow_eq, hlast] at hone
      obtain ⟨rfl, -⟩ := Prod.mk.inj (Except.ok.inj hone)
      obtain rfl := eq_of_follow_slash (endsInSlash path) hfollow
      refine ⟨hnamed, ?_⟩
      rw [hs, stretch_append, hstretch]
      exact hlast

end FileRouter.Disk.FileSystem
