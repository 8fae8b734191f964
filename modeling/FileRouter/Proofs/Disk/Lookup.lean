import FileRouter.Disk.Change
import FileRouter.Proofs.Disk.Tree
/-!
Looking up a path for reading and for writing.

Reading a path is reading its first segments and then, from there and with the links that are left, the others
(`follow_append`). The two ways to open a file look it up differently: one follows the whole path, the other
the path to the directory and then, link by link, the last name. On a disk whose entries form a tree, a file
that the first way finds is found by the second (`openOrMake_of_openBody`), and what the second finds is found
by the first, unless it is new (`openOrMake_cases`).
-/

namespace FileRouter.Disk.FileSystem

variable {fs : FileSystem}

/-- What follows on an answer, where both together have one. -/
theorem exists_of_bind_eq_ok {α β : Type} {first : Except Fault α} {next : α → Except Fault β}
    {answer : β} (h : first >>= next = .ok answer) :
    ∃ value, first = .ok value ∧ next value = .ok answer := by
  cases first with
  | error fault => simp [bind, Except.bind] at h
  | ok value => exact ⟨value, rfl, h⟩

/-! ### Segments -/

theorem head?_of_segments_eq_nil {path : Text} (hne : path ≠ []) (h : segments path = []) :
    path.head? = some '/' := by
  cases path with
  | nil => exact absurd rfl hne
  | cons c rest =>
    by_contra hc
    have hc : c ≠ '/' := by simpa using hc
    rw [segments, Text.parts, if_neg hc] at h
    cases hp : Text.parts '/' rest with
    | nil => simp [hp] at h
    | cons piece pieces => simp [hp] at h

/-- A path that is read from the working directory has something to read. -/
theorem steps_ne_nil {path : Text} (hne : path ≠ []) (hhead : path.head? ≠ some '/') : steps path ≠ [] := by
  have hsegments : segments path ≠ [] := fun hnil => hhead (head?_of_segments_eq_nil hne hnil)
  rw [steps]
  split_ifs
  · simp
  · exact hsegments

theorem stretch_append (key : Key) (first second : List Text) :
    fs.stretch key (first ++ second) =
      match fs.stretch key first with
      | .error fault => .error fault
      | .ok (.done key) => fs.stretch key second
      | .ok (.link directory target rest) => .ok (.link directory target (rest ++ second)) := by
  induction first generalizing key with
  | nil => rfl
  | cons segment first ih =>
    rw [List.cons_append, stretch, stretch]
    by_cases hdots : (segment = Key.here || segment = Key.above) = true
    · rw [if_pos hdots, if_pos hdots]
      by_cases hdir : (!fs.isDirectory key) = true
      · rw [if_pos hdir, if_pos hdir]
      · rw [if_neg hdir, if_neg hdir, ih]
    · rw [if_neg hdots, if_neg hdots]
      -- at a link both stop, and the second stretch is left over
      rcases fs.child key segment with fault | _ | entry
      · rfl
      · rfl
      · cases entry with
        | link target => rfl
        | directory mode modified => exact ih _
        | file body => exact ih _

theorem follow_eq (links : Nat) (start : Key) (segments : List Text) :
    fs.follow links start segments =
      match fs.stretch start segments with
      | .error fault => .error fault
      | .ok (.done key) => .ok (key, links)
      | .ok (.link directory target rest) =>
        match links with
        | 0 => .error .tooManyLinks
        | links + 1 => fs.follow links (origin directory target) (steps target ++ rest) :=
  follow.eq_def fs links start segments

/-- What follows in a path is read from where the first part leads, with the links that are left. -/
theorem follow_append (links : Nat) (start : Key) (first second : List Text) :
    fs.follow links start (first ++ second) =
      match fs.follow links start first with
      | .error fault => .error fault
      | .ok (key, left) => fs.follow left key second := by
  -- the recursion is on the links, of which each hands over what is left of its stretch
  induction links generalizing start first with
  | zero =>
    rw [follow_eq, stretch_append, follow_eq 0 start first]
    rcases fs.stretch start first with fault | stretched
    · rfl
    · cases stretched with
      | done key => exact (follow_eq 0 key second).symm
      | link directory target rest => rfl
  | succ links ih =>
    rw [follow_eq, stretch_append, follow_eq (links + 1) start first]
    rcases fs.stretch start first with fault | stretched
    · rfl
    · cases stretched with
      | done key => exact (follow_eq (links + 1) key second).symm
      | link directory target rest =>
        simp only
        rw [← List.append_assoc, ih]

theorem exists_of_follow_append {links : Nat} {start : Key} {first second : List Text} {found : Key × Nat}
    (h : fs.follow links start (first ++ second) = .ok found) :
    ∃ key left, fs.follow links start first = .ok (key, left) ∧ fs.follow left key second = .ok found := by
  rw [follow_append] at h
  cases hfirst : fs.follow links start first with
  | error fault => simp [hfirst] at h
  | ok reached =>
    rw [hfirst] at h
    exact ⟨reached.1, reached.2, rfl, h⟩

/-- Only from a directory does a segment lead anywhere. -/
theorem isDirectory_of_follow {links : Nat} {start : Key} {segments : List Text} {found : Key × Nat}
    (h : fs.follow links start segments = .ok found) (hne : segments ≠ []) :
    fs.isDirectory start = true := by
  cases segments with
  | nil => exact absurd rfl hne
  | cons segment rest =>
    by_contra hdir
    rw [Bool.not_eq_true] at hdir
    rw [follow_eq, stretch, child, hdir] at h
    by_cases hdots : (segment = Key.here || segment = Key.above) = true
    · simp [hdots] at h
    · simp [hdots] at h

/-! ### Files -/

theorem isDirectory_of_child {directory : Key} {name : Text} {answer : Option Entry}
    (h : fs.child directory name = .ok answer) :
    fs.isDirectory directory = true ∧ answer = fs.entry? (directory ++ [name]) := by
  rw [child] at h
  by_cases hdir : fs.isDirectory directory = true
  · rw [hdir, Bool.not_true, if_neg (by simp)] at h
    split at h
    · simp at h
    · exact ⟨hdir, (Except.ok.inj h).symm⟩
  · rw [Bool.not_eq_true] at hdir
    rw [hdir, Bool.not_false, if_pos rfl] at h
    simp at h

/-- A segment of a path that leads to no other directory is a name. -/
theorem isName_of_segments {path name : Text} (h : name ∈ segments path) (hhere : name ≠ Key.here)
    (habove : name ≠ Key.above) : Key.IsName name := by
  obtain ⟨hpart, hne⟩ := List.mem_filter.mp h
  exact ⟨by simpa using hne, Text.not_mem_of_mem_parts hpart, hhere, habove⟩

/-- A name in a directory. -/
theorem isPlace_of_child {directory : Key} {name : Text} {answer : Option Entry}
    (h : fs.child directory name = .ok answer) (hname : Key.IsName name) :
    fs.IsPlace (directory ++ [name]) := by
  refine ⟨?_, fun last hl => ?_⟩
  · rw [Key.parent_append_singleton]
    exact (isDirectory_of_child h).1
  · rw [List.getLast?_concat, Option.mem_some_iff] at hl
    exact hl ▸ hname

/-- A name that a directory does not have yet. -/
theorem isFree_of_child {directory : Key} {name : Text} (h : fs.child directory name = .ok none)
    (hname : Key.IsName name) : fs.IsFree (directory ++ [name]) :=
  ⟨isPlace_of_child h hname, (isDirectory_of_child h).2.symm⟩

/-- A step that stays or goes up leads to a directory, which is no file. -/
theorem not_file_of_dots (hw : fs.WellFormed) {links left body : Nat} {directory key : Key} {last : Text}
    (hdots : (last = Key.here || last = Key.above) = true)
    (hf : fs.follow links directory [last] = .ok (key, left)) : fs.entry? key ≠ some (.file body) := by
  rw [follow_eq, stretch, if_pos hdots] at hf
  by_cases hdir : fs.isDirectory directory = true
  · -- both dots stay among directories: the one above a directory is one itself
    rw [hdir, Bool.not_true, if_neg (by simp), stretch] at hf
    simp only [Except.ok.injEq, Prod.mk.injEq] at hf
    obtain ⟨rfl, -⟩ := hf
    split_ifs
    · exact not_file_of_isDirectory hdir
    · obtain ⟨mode, modified, hentry⟩ := entry?_of_isDirectory hdir
      exact not_file_of_isDirectory (hw.parents (by rw [hentry]; rfl))
  · rw [Bool.not_eq_true] at hdir
    rw [hdir, Bool.not_false, if_pos rfl] at hf
    simp at hf

/-- A way that ends at a file ends with a name: either the file has that name, or a link has it. -/
theorem lastStep_of_file (hw : fs.WellFormed) {links left body : Nat} {directory key : Key} {last : Text}
    (hf : fs.follow links directory [last] = .ok (key, left))
    (he : fs.entry? key = some (.file body)) :
    fs.isDirectory directory = true ∧ last ≠ Key.here ∧ last ≠ Key.above ∧
      (fs.child directory last = .ok (some (.file body)) ∨
        ∃ target links', links = links' + 1 ∧ fs.child directory last = .ok (some (.link target)) ∧
          fs.follow links' (origin directory target) (steps target) = .ok (key, left)) := by
  -- the names for here and above lead to directories
  have hdots : ¬ (last = Key.here || last = Key.above) = true :=
    fun hdots => not_file_of_dots hw hdots hf he
  have hname : last ≠ Key.here ∧ last ≠ Key.above := by simpa using hdots
  rw [follow_eq, stretch, if_neg hdots] at hf
  cases hc : fs.child directory last with
  | error fault => simp [hc] at hf
  | ok answer =>
    obtain ⟨hdir, hentry⟩ := isDirectory_of_child hc
    refine ⟨hdir, hname.1, hname.2, ?_⟩
    rw [hc] at hf
    cases answer with
    | none => simp at hf
    | some entry =>
      cases entry with
      | link target =>
        right
        cases links with
        | zero => simp at hf
        | succ links =>
          simp only [List.append_nil] at hf
          exact ⟨target, links, rfl, rfl, hf⟩
      | file other =>
        left
        simp only [stretch, Except.ok.injEq, Prod.mk.injEq] at hf
        obtain ⟨rfl, -⟩ := hf
        rw [hentry, he]
      | directory mode modified =>
        simp only [stretch, Except.ok.injEq, Prod.mk.injEq] at hf
        obtain ⟨rfl, -⟩ := hf
        rw [he] at hentry
        simp at hentry

theorem lastIn_of_follow {links rest : Nat} {directory parent : Key} {path last : Text}
    {init : List Text} (hs : segments path = init ++ [last])
    (hf : fs.follow links (origin directory path) init = .ok (parent, rest))
    (hdir : fs.isDirectory parent = true) (hhere : last ≠ Key.here) (habove : last ≠ Key.above) :
    fs.lastIn links directory path = .ok (parent, .name last (endsInSlash path), rest) := by
  rw [lastIn, hs, List.getLast?_concat, List.dropLast_concat, hf]
  simp [bind, Except.bind, hdir, hhere, habove]

/-- What is opened for writing under a name in a directory. -/
theorem bodyOrNew_of_lastIn (mode : Nat) {links rest : Nat} {directory parent : Key} {path name : Text}
    (h : fs.lastIn links directory path = .ok (parent, .name name false, rest)) :
    fs.bodyOrNew mode links directory path =
      match fs.child parent name with
      | .error fault => .error fault
      | .ok none => .ok (fs.addFile (parent ++ [name]) mode)
      | .ok (some (.file body)) => .ok (body, fs)
      | .ok (some (.directory _ _)) => .error .isDirectory
      | .ok (some (.link target)) =>
        match rest with
        | 0 => .error .tooManyLinks
        | rest + 1 => fs.bodyOrNew mode rest parent target := by
  rw [bodyOrNew]
  split
  next fault hl => simp [hl] at h
  next parent' name' rest' hl =>
    rw [hl] at h
    simp only [Except.ok.injEq, Prod.mk.injEq, LastSegment.name.injEq, and_true] at h
    -- what is done goes by the entry at the name alone
    obtain ⟨rfl, rfl, rfl⟩ := h
    rcases fs.child parent' name' with fault | _ | entry
    · rfl
    · rfl
    · cases entry with
      | link target => cases rest' <;> rfl
      | file body => rfl
      | directory mode modified => rfl
  next other hno hl => exact absurd h (by rw [hl]; simpa using hno parent name rest)

/-- A file that following a path finds is the one that is opened for writing. -/
theorem bodyOrNew_of_follow (hw : fs.WellFormed) (mode : Nat) {links left body : Nat}
    {directory key : Key} {path : Text}
    (hstart : segments path = [] → fs.isDirectory (origin directory path) = true)
    (hf : fs.follow links (origin directory path) (steps path) = .ok (key, left))
    (he : fs.entry? key = some (.file body)) :
    fs.bodyOrNew mode links directory path = .ok (body, fs) := by
  induction links using Nat.strong_induction_on generalizing directory path with
  | _ links ih =>
    rcases List.eq_nil_or_concat (segments path) with hnil | ⟨init, last, hs⟩
    · have hsteps : steps path = [] := by
        rw [steps, endsInSlash, hnil]
        simp
      -- the path leads nowhere but where it begins, which is a directory
      rw [hsteps, follow_eq, stretch] at hf
      simp only [Except.ok.injEq, Prod.mk.injEq] at hf
      exact absurd (hf.1 ▸ he) (not_file_of_isDirectory (hstart hnil))
    · rw [List.concat_eq_append] at hs
      -- a slash behind the last name would be one more step, which leads to a directory
      have hslash : endsInSlash path = false := by
        by_contra hslash
        rw [Bool.not_eq_false] at hslash
        rw [steps, if_pos hslash] at hf
        obtain ⟨middle, rest, -, hf⟩ := exists_of_follow_append hf
        exact (lastStep_of_file hw hf he).2.1 rfl
      have hsteps : steps path = init ++ [last] := by
        rw [steps, hslash, hs]
        rfl
      rw [hsteps] at hf
      obtain ⟨parent, rest, hinit, hf⟩ := exists_of_follow_append hf
      obtain ⟨hdir, hhere, habove, hchild⟩ := lastStep_of_file hw hf he
      have hlast := lastIn_of_follow hs hinit hdir hhere habove
      rw [hslash] at hlast
      rw [bodyOrNew_of_lastIn mode hlast]
      rcases hchild with hchild | ⟨target, links', rfl, hchild, hrest⟩
      · rw [hchild]
      · rw [hchild]
        -- the name is a link: the same holds of its target, with fewer links left
        have hle := follow_links_le hinit
        refine ih links' (by omega) (fun _ => ?_) hrest
        rw [origin]
        split_ifs
        · exact hw.root
        · exact hdir

theorem follow_of_lastIn {links rest : Nat} {directory parent : Key} {path name : Text} {slash : Bool}
    (h : fs.lastIn links directory path = .ok (parent, .name name slash, rest)) :
    ∃ init, segments path = init ++ [name] ∧ endsInSlash path = slash ∧ name ≠ Key.here ∧
      name ≠ Key.above ∧ fs.follow links (origin directory path) init = .ok (parent, rest) := by
  rcases List.eq_nil_or_concat (segments path) with hnil | ⟨init, last, hs⟩
  · simp [lastIn, hnil] at h
  · rw [List.concat_eq_append] at hs
    rw [lastIn, hs, List.getLast?_concat, List.dropLast_concat] at h
    cases hf : fs.follow links (origin directory path) init with
    | error fault => simp [hf, bind, Except.bind] at h
    | ok found =>
      obtain ⟨key, left⟩ := found
      simp only [hf, bind, Except.bind] at h
      -- the place needs a directory, and its name must not stand for another one
      split_ifs at h with _ hhere habove
      · simp at h
      · simp at h
      · simp only [Except.ok.injEq, Prod.mk.injEq, LastSegment.name.injEq] at h
        obtain ⟨rfl, ⟨rfl, hslash⟩, rfl⟩ := h
        exact ⟨init, hs, hslash, hhere, habove, hf⟩

theorem isName_of_lastIn {links rest : Nat} {directory parent : Key} {path name : Text} {slash : Bool}
    (h : fs.lastIn links directory path = .ok (parent, .name name slash, rest)) : Key.IsName name := by
  obtain ⟨init, hs, -, hhere, habove, -⟩ := follow_of_lastIn h
  exact isName_of_segments (hs ▸ List.mem_append_right init List.mem_cons_self) hhere habove

/-- What is to be made or removed has a name. -/
theorem isName_of_parentOf {path name : Text} {directory : Key} {slash : Bool}
    (h : fs.parentOf path = .ok (directory, .name name slash)) : Key.IsName name := by
  rw [parentOf] at h
  obtain ⟨-, -, h⟩ := exists_of_bind_eq_ok h
  obtain ⟨⟨parent, last, rest⟩, hlast, h⟩ := exists_of_bind_eq_ok h
  obtain ⟨rfl, rfl⟩ := Prod.mk.inj (Except.ok.inj h)
  exact isName_of_lastIn hlast

/-- The file that is opened for writing is the one that following the path finds, or a new one. -/
theorem bodyOrNew_cases {mode links body : Nat} {directory : Key} {path : Text} {fs' : FileSystem}
    (h : fs.bodyOrNew mode links directory path = .ok (body, fs')) :
    (fs' = fs ∧ ∃ key left, fs.follow links (origin directory path) (steps path) = .ok (key, left) ∧
      fs.entry? key = some (.file body)) ∨
        ∃ key, fs.IsFree key ∧ (body, fs') = fs.addFile key mode := by
  -- by the number of links that are left, since each link is followed by a lookup of its own
  induction links using Nat.strong_induction_on generalizing directory path with
  | _ links ih =>
    rw [bodyOrNew] at h
    split at h
    · simp at h
    next parent name left hl =>
      obtain ⟨init, hs, hslash, hhere, habove, hinit⟩ := follow_of_lastIn hl
      have hsteps : steps path = init ++ [name] := by
        rw [steps, hslash, hs]
        rfl
      have hname : ¬ (name = Key.here || name = Key.above) = true := by simp [hhere, habove]
      cases hc : fs.child parent name with
      | error fault => simp [hc] at h
      | ok answer =>
        obtain ⟨-, hentry⟩ := isDirectory_of_child hc
        rw [hc] at h
        cases answer with
        | none =>
          exact Or.inr ⟨parent ++ [name], isFree_of_child hc (isName_of_lastIn hl), (Except.ok.inj h).symm⟩
        | some entry =>
          cases entry with
          | directory mode modified => simp at h
          | file found =>
            simp only [Except.ok.injEq, Prod.mk.injEq] at h
            obtain ⟨rfl, rfl⟩ := h
            refine Or.inl ⟨rfl, parent ++ [name], left, ?_, hentry.symm⟩
            rw [hsteps, follow_append, hinit]
            simp only
            rw [follow_eq, stretch, if_neg hname, hc]
            rfl
          | link target =>
            cases left with
            | zero => simp at h
            | succ left =>
              have hle := lastIn_links_le hl
              rcases ih left (by omega) h with ⟨hsame, key, rest, hrest, he⟩ | hnew
              · refine Or.inl ⟨hsame, key, rest, ?_, he⟩
                rw [hsteps, follow_append, hinit]
                simp only
                rw [follow_eq, stretch, if_neg hname, hc]
                simpa using hrest
              · exact Or.inr hnew
    · simp at h

/-! ### Opening -/

theorem find_eq_ok_iff {path : Text} {key : Key} : fs.find path = .ok key ↔ checkPath path = .ok () ∧
    ∃ left, fs.follow linkLimit (origin fs.work path) (steps path) = .ok (key, left) ∧
      (fs.entry? key).isSome = true := by
  constructor
  · intro h
    rw [find] at h
    obtain ⟨⟨⟩, hcheck, h⟩ := exists_of_bind_eq_ok h
    obtain ⟨⟨found, left⟩, hfollow, h⟩ := exists_of_bind_eq_ok h
    simp only at h
    split_ifs at h with hsome
    obtain rfl := Except.ok.inj h
    exact ⟨hcheck, left, hfollow, hsome⟩
  · rintro ⟨hcheck, left, hfollow, hsome⟩
    rw [find, hcheck, hfollow]
    simp [bind, Except.bind, hsome]

theorem openBody_eq_ok_iff {path : Text} {body : Nat} :
    fs.openBody path = .ok body ↔ checkPath path = .ok () ∧
      ∃ key left, fs.follow linkLimit (origin fs.work path) (steps path) = .ok (key, left) ∧
        fs.entry? key = some (.file body) := by
  constructor
  · intro h
    rw [openBody] at h
    obtain ⟨key, hfind, h⟩ := exists_of_bind_eq_ok h
    obtain ⟨hcheck, left, hfollow, -⟩ := find_eq_ok_iff.mp hfind
    split at h
    next found hentry => exact ⟨hcheck, key, left, hfollow, Except.ok.inj h ▸ hentry⟩
    next => simp at h
  · rintro ⟨hcheck, key, left, hfollow, hentry⟩
    rw [openBody, find_eq_ok_iff.mpr ⟨hcheck, left, hfollow, by rw [hentry]; rfl⟩]
    simp [bind, Except.bind, hentry]

/-- A file that can be read can be opened for writing, and that changes nothing else. -/
theorem openOrMake_of_openBody (hw : fs.WellFormed) {path : Text} {body : Nat}
    (h : fs.openBody path = .ok body) : fs.openOrMake path = .ok (body, fs) := by
  obtain ⟨hc, key, left, hf, he⟩ := openBody_eq_ok_iff.mp h
  rw [openOrMake, hc]
  refine bodyOrNew_of_follow hw fileMode (fun hnil => ?_) hf he
  -- a path that is not empty and has no segments consists of slashes
  have hne : path ≠ [] := by
    rintro rfl
    simp [checkPath] at hc
  rw [origin, if_pos (head?_of_segments_eq_nil hne hnil)]
  exact hw.root

/-- What is opened for writing can be read already, or is new. -/
theorem openOrMake_cases {path : Text} {body : Nat} {fs' : FileSystem}
    (h : fs.openOrMake path = .ok (body, fs')) :
    (fs' = fs ∧ fs.openBody path = .ok body) ∨
      ∃ key, fs.IsFree key ∧ (body, fs') = fs.addFile key fileMode := by
  cases hc : checkPath path with
  | error fault => simp [openOrMake, hc, bind, Except.bind] at h
  | ok _ =>
    rw [openOrMake, hc] at h
    exact (bodyOrNew_cases h).imp_left fun ⟨hsame, hfound⟩ =>
      ⟨hsame, openBody_eq_ok_iff.mpr ⟨hc, hfound⟩⟩

end FileRouter.Disk.FileSystem
