import FileRouter.Proofs.Disk.Canonical
import FileRouter.Proofs.Disk.Pruned
/-!
The absolute paths of keys.

A key goes by its absolute path if its names are names and the path is not too long (`Nameable`). Where no link is at
the key or above it, the path leads to the key and nowhere else: every operation of the operating system finds the
entry at the key, or finds that there is none, or that its directory is none. The path is canonical
(`canonical_toText`).
-/

namespace FileRouter.Disk

namespace FileSystem

open NativePath

variable {fs : FileSystem} {key directory : Key} {name : Text}

/-- A key with a path that the operating system takes. -/
structure Nameable (key : Key) : Prop where
  proper : key.Proper
  clean : ∀ name ∈ key, '\x00' ∉ name
  short : ∀ name ∈ key, Text.utf8Size name ≤ nameLimit
  size : Text.utf8Size key.toText < pathLimit

instance (key : Key) : Decidable (Nameable key) :=
  decidable_of_iff (key.Proper ∧ (∀ name ∈ key, '\x00' ∉ name) ∧ (∀ name ∈ key, Text.utf8Size name ≤ nameLimit) ∧
      Text.utf8Size key.toText < pathLimit)
    ⟨fun ⟨hproper, hclean, hshort, hsize⟩ => ⟨hproper, hclean, hshort, hsize⟩,
      fun h => ⟨h.proper, h.clean, h.short, h.size⟩⟩

/-- No link is at a key or above it. -/
def Unlinked (fs : FileSystem) (key : Key) : Prop :=
  ∀ (other : Key) (target : Text), other <+: key → fs.entry? other ≠ some (.link target)

theorem Unlinked.of_prefix {other : Key} (h : fs.Unlinked key) (hle : other <+: key) : fs.Unlinked other :=
  fun above target habove => h above target (habove.trans hle)

/-! ### The path of a key -/

theorem segments_toText (hkey : key.Proper) : segments key.toText = key := by
  by_cases hne : key = []
  · subst hne
    decide
  · rw [segments, Key.parts_toText hkey hne]
    have hall : key.filter (fun segment => !segment.isEmpty) = key :=
      List.filter_eq_self.mpr fun segment hs => by simpa using (hkey segment hs).ne_nil
    simpa using hall

theorem endsInSlash_toText (hkey : key.Proper) : endsInSlash key.toText = false := by
  rw [endsInSlash, segments_toText hkey]
  by_cases hne : key = []
  · subst hne
    decide
  · simp [Key.getLast?_toText hkey hne]

theorem steps_toText (hkey : key.Proper) : steps key.toText = key := by
  rw [steps, endsInSlash_toText hkey, segments_toText hkey]
  rfl

theorem origin_toText (work key : Key) : origin work key.toText = [] := by
  rw [origin, if_pos (head?_toText key)]

theorem utf8Size_append (text other : Text) : Text.utf8Size (text ++ other) = Text.utf8Size text + Text.utf8Size other :=
  total_append _ _ _

/-- The directory of a key has a shorter path. -/
theorem Nameable.init (h : Nameable (directory ++ [name])) : Nameable directory := by
  refine ⟨(Key.proper_append.mp h.proper).1, fun other ho => h.clean other (List.mem_append_left _ ho),
    fun other ho => h.short other (List.mem_append_left _ ho), ?_⟩
  have hsize := h.size
  rw [Key.toText_append_singleton, utf8Size_append] at hsize
  split_ifs at hsize with hroot
  · subst hroot
    decide
  · omega

theorem Nameable.checkPath (h : Nameable key) : checkPath key.toText = .ok () := by
  have hne : key.toText.isEmpty = false := by
    cases key <;> rfl
  rw [FileSystem.checkPath, hne, if_neg (by simp), if_neg (Nat.not_le.mpr h.size)]

theorem Nameable.of_prefix {other : Key} (h : Nameable key) (hle : other <+: key) : Nameable other := by
  obtain ⟨rest, rfl⟩ := hle
  induction rest using List.reverseRecOn with
  | nil => rwa [List.append_nil] at h
  | append_singleton rest name ih =>
    rw [← List.append_assoc] at h
    exact ih h.init

/-! ### Parts of a path -/

theorem joined_toText (hdirectory : directory.Proper) (hname : '/' ∉ name) :
    joined directory.toText name = Key.toText (directory ++ [name]) := by
  rw [joined_eq hname, Key.toText_append_singleton, slashBehind]
  by_cases hroot : directory = []
  · subst hroot
    rfl
  · have hne : directory.toText.isEmpty = false := by
      cases directory <;> rfl
    rw [if_neg hroot, hne, if_neg (by simpa using Key.getLast?_toText hdirectory hroot)]
    rfl

theorem directoryPart_toText (hdirectory : directory.Proper) (hname : '/' ∉ name) :
    directoryPart (Key.toText (directory ++ [name])) = directory.toText := by
  have hbefore : Text.beforeLast '/' (Key.toText (directory ++ [name])) =
      (if directory = [] then [] else directory.toText) ++ ['/'] := by
    have hrest : ∀ c ∈ name.reverse, (c != '/') = true := fun c hc => by
      simpa using fun he : c = '/' => hname (he ▸ List.mem_reverse.mp hc)
    rw [Key.toText_append_singleton, Text.beforeLast, List.reverse_append, List.reverse_cons, List.append_assoc,
      List.dropWhile_append_of_pos hrest]
    simp
  -- the slash in front of the name is dropped, but for the root it is all there is
  rw [directoryPart, hbefore, withoutSlashes]
  by_cases hroot : directory = []
  · subst hroot
    rfl
  · have hdrop : Text.dropTrailing '/' (directory.toText ++ ['/']) = directory.toText := by
      rw [Text.dropTrailing_concat_self]
      exact Text.dropTrailing_of_getLast? (Key.getLast?_toText hdirectory hroot)
    have hne : directory.toText.isEmpty = false := by
      cases directory <;> rfl
    rw [if_neg hroot, hdrop, hne, if_neg (by simp)]

theorem absolute_toText (hkey : key.Proper) (work : Key) : absolute work key.toText = key.toText := by
  rw [absolute, joined, if_pos (head?_toText key), Key.ofText_toText hkey, if_neg]
  rintro ⟨hslashes, -⟩
  cases key with
  | nil => simp [Key.toText] at hslashes
  | cons first rest =>
    have hname := hkey first List.mem_cons_self
    cases hfirst : first with
    | nil => exact hname.ne_nil hfirst
    | cons c tail =>
      have hc : c = '/' := by simpa [Key.toText, hfirst] using hslashes
      exact hname.no_slash (by simp [hfirst, hc])

/-! ### Finding -/

/-- A name in a directory, which may be there or not. -/
theorem child_of_isDirectory (hdir : fs.isDirectory directory = true) (hshort : Text.utf8Size name ≤ nameLimit) :
    fs.child directory name = .ok (fs.entry? (directory ++ [name])) := by
  rw [child, if_neg (by simp [hdir]), if_neg (Nat.not_lt.mpr hshort)]

theorem child_error (hdir : fs.isDirectory directory = false) (name : Text) :
    ∃ fault, fs.child directory name = .error fault := by
  rw [child, hdir]
  exact ⟨_, rfl⟩

/-- Names lead on to an entry. -/
theorem stretch_of_entry (hw : fs.WellFormed) {names : Key} (hnames : Key.Proper names)
    (hshort : ∀ name ∈ names, Text.utf8Size name ≤ nameLimit) (hlink : fs.Unlinked (directory ++ names)) {entry : Entry}
    (hentry : fs.entry? (directory ++ names) = some entry) :
    fs.stretch directory names = .ok (.done (directory ++ names)) := by
  induction names generalizing directory with
  | nil => simp [stretch]
  | cons name names ih =>
    have hname := hnames name List.mem_cons_self
    have hdir : fs.isDirectory directory = true := isDirectory_iff.mpr (hw.rooted.above hentry (by simp))
    have hsplit : directory ++ name :: names = directory ++ [name] ++ names := by simp
    rw [hsplit] at hentry hlink ⊢
    have hrest := ih (fun other ho => hnames other (List.mem_cons_of_mem _ ho))
      (fun other ho => hshort other (List.mem_cons_of_mem _ ho)) hlink hentry
    have hdots : (name = Key.here || name = Key.above) = false := by simp [hname.ne_here, hname.ne_above]
    rw [stretch, hdots, child_of_isDirectory hdir (hshort name List.mem_cons_self)]
    simp only [Bool.false_eq_true, if_false]
    cases hchild : fs.entry? (directory ++ [name]) with
    | none =>
      -- nothing would be below it
      by_cases hnil : names = []
      · rw [hnil, List.append_nil, hchild] at hentry
        simp at hentry
      · obtain ⟨value, hvalue, -⟩ := hw.rooted.above hentry hnil
        rw [FileSystem.entry?] at hchild
        simp [hchild] at hvalue
    | some entry =>
      cases entry with
      | link target => exact absurd hchild (hlink _ target (List.prefix_append _ names))
      | directory mode modified => exact hrest
      | file body => exact hrest

/-- Names lead nowhere where nothing is. -/
theorem stretch_of_nothing {names : Key} (hnames : Key.Proper names)
    (hshort : ∀ name ∈ names, Text.utf8Size name ≤ nameLimit) (hlink : fs.Unlinked (directory ++ names))
    (hstart : fs.entry? directory ≠ none) (hentry : fs.entry? (directory ++ names) = none) :
    ∃ fault, fs.stretch directory names = .error fault := by
  induction names generalizing directory with
  | nil =>
    rw [List.append_nil] at hentry
    exact absurd hentry hstart
  | cons name names ih =>
    have hname := hnames name List.mem_cons_self
    have hsplit : directory ++ name :: names = directory ++ [name] ++ names := by simp
    rw [hsplit] at hentry hlink
    have hdots : (name = Key.here || name = Key.above) = false := by simp [hname.ne_here, hname.ne_above]
    rw [stretch, hdots]
    simp only [Bool.false_eq_true, if_false]
    -- the next name is looked up in a directory; something at it leads on, with fewer names left
    cases hdir : fs.isDirectory directory with
    | false =>
      obtain ⟨fault, hchild⟩ := child_error hdir name
      rw [hchild]
      exact ⟨fault, rfl⟩
    | true =>
      rw [child_of_isDirectory hdir (hshort name List.mem_cons_self)]
      cases hchild : fs.entry? (directory ++ [name]) with
      | none => exact ⟨_, rfl⟩
      | some entry =>
        have hrest := ih (fun other ho => hnames other (List.mem_cons_of_mem _ ho))
          (fun other ho => hshort other (List.mem_cons_of_mem _ ho)) hlink (by simp [hchild]) hentry
        cases entry with
        | link target => exact absurd hchild (hlink _ target (List.prefix_append _ names))
        | directory mode modified => exact hrest
        | file body => exact hrest

section Paths

variable (hw : fs.WellFormed) (hkey : Nameable key) (hlink : fs.Unlinked key)
include hw hkey hlink

theorem follow_toText {entry : Entry} (hentry : fs.entry? key = some entry) (links : Nat) :
    fs.follow links [] key = .ok (key, links) := by
  have hstretch : fs.stretch [] ([] ++ key) = .ok (.done ([] ++ key)) :=
    stretch_of_entry hw hkey.proper hkey.short hlink hentry
  rw [List.nil_append] at hstretch
  rw [follow_eq, hstretch]

theorem follow_toText_error (hentry : fs.entry? key = none) (links : Nat) :
    ∃ fault, fs.follow links [] key = .error fault := by
  obtain ⟨fault, hstretch⟩ : ∃ fault, fs.stretch [] key = .error fault := by
    obtain ⟨mode, modified, hroot⟩ := entry?_of_isDirectory hw.root
    have hstart : fs.entry? [] ≠ none := by simp [hroot]
    exact stretch_of_nothing hkey.proper hkey.short hlink hstart hentry
  exact ⟨fault, by rw [follow_eq, hstretch]⟩

theorem find_toText {entry : Entry} (hentry : fs.entry? key = some entry) : fs.find key.toText = .ok key := by
  refine find_eq_ok_iff.mpr ⟨hkey.checkPath, linkLimit, ?_, by simp [hentry]⟩
  rw [origin_toText, steps_toText hkey.proper]
  exact follow_toText hw hkey hlink hentry linkLimit

theorem find_toText_error (hentry : fs.entry? key = none) : ∃ fault, fs.find key.toText = .error fault := by
  cases hfind : fs.find key.toText with
  | error fault => exact ⟨fault, rfl⟩
  | ok found =>
    obtain ⟨-, left, hfollow, -⟩ := find_eq_ok_iff.mp hfind
    obtain ⟨fault, herror⟩ := follow_toText_error hw hkey hlink hentry linkLimit
    rw [origin_toText, steps_toText hkey.proper, herror] at hfollow
    simp at hfollow

end Paths

section Places

variable (hw : fs.WellFormed) (hkey : Nameable key) (hlink : fs.Unlinked key)
include hw hkey hlink

theorem follow_parent (hdir : fs.isDirectory key.parent = true) (links : Nat) :
    fs.follow links [] key.parent = .ok (key.parent, links) := by
  obtain ⟨mode, modified, hentry⟩ := entry?_of_isDirectory hdir
  exact follow_toText hw (hkey.of_prefix (List.dropLast_prefix key)) (hlink.of_prefix (List.dropLast_prefix key)) hentry
    links

/-- What is above a key is found, or not. -/
theorem follow_parent_cases (links : Nat) :
    fs.follow links [] key.parent = .ok (key.parent, links) ∨
      ∃ fault, fs.follow links [] key.parent = .error fault := by
  have hkey' := hkey.of_prefix (List.dropLast_prefix key)
  have hlink' := hlink.of_prefix (List.dropLast_prefix key)
  cases hentry : fs.entry? key.parent with
  | none => exact Or.inr (follow_toText_error hw hkey' hlink' hentry links)
  | some entry => exact Or.inl (follow_toText hw hkey' hlink' hentry links)

variable (hne : key ≠ [])
include hne

omit hw hlink in
theorem isName_name : Key.IsName key.name :=
  hkey.proper key.name (List.mem_of_getLast? (Key.getLast?_eq_name hne))

omit hw hlink in
/-- The last name of a key in the directory above it. -/
theorem child_parent (hdir : fs.isDirectory key.parent = true) :
    fs.child key.parent key.name = .ok (fs.entry? key) := by
  have hshort := hkey.short key.name (List.mem_of_getLast? (Key.getLast?_eq_name hne))
  rw [child_of_isDirectory hdir hshort, Key.parent_append_name hne]

/-- A link at the end of a path would not be followed. -/
theorem findLink_place (hdir : fs.isDirectory key.parent = true) :
    fs.findLink key.toText = if (fs.entry? key).isSome then .ok key else .error .noEntry := by
  have hname := isName_name hkey hne
  rw [findLink, hkey.checkPath, steps_toText hkey.proper, Key.getLast?_eq_name hne, origin_toText]
  simp only [bind, Except.bind, hname.ne_here, hname.ne_above, decide_false, Bool.or_self, Bool.false_eq_true, if_false]
  have hfollow : fs.follow linkLimit [] key.dropLast = .ok (key.parent, linkLimit) :=
    follow_parent hw hkey hlink hdir linkLimit
  simp only [hfollow, child_parent hkey hne hdir, Key.parent_append_name hne]
  cases fs.entry? key <;> rfl

theorem findLink_place_error (hdir : fs.isDirectory key.parent = false) :
    ∃ fault, fs.findLink key.toText = .error fault := by
  have hname := isName_name hkey hne
  rw [findLink, hkey.checkPath, steps_toText hkey.proper, Key.getLast?_eq_name hne, origin_toText]
  simp only [bind, Except.bind, hname.ne_here, hname.ne_above, decide_false, Bool.or_self, Bool.false_eq_true, if_false]
  rcases follow_parent_cases hw hkey hlink linkLimit with hfollow | ⟨fault, hfollow⟩
  · obtain ⟨fault, hchild⟩ := child_error hdir key.name
    rw [Key.parent] at hfollow hchild
    exact ⟨fault, by simp only [hfollow, hchild]⟩
  · rw [Key.parent] at hfollow
    exact ⟨fault, by simp only [hfollow]⟩

theorem lastIn_toText (hdir : fs.isDirectory key.parent = true) :
    fs.lastIn linkLimit fs.work key.toText = .ok (key.parent, .name key.name false, linkLimit) := by
  have hname := isName_name hkey hne
  have hsegments : segments key.toText = key.parent ++ [key.name] :=
    (segments_toText hkey.proper).trans (Key.parent_append_name hne).symm
  have hfollow : fs.follow linkLimit (origin fs.work key.toText) key.parent = .ok (key.parent, linkLimit) := by
    rw [origin_toText]
    exact follow_parent hw hkey hlink hdir linkLimit
  rw [lastIn_of_follow hsegments hfollow hdir hname.ne_here hname.ne_above, endsInSlash_toText hkey.proper]

theorem lastIn_toText_error (hdir : fs.isDirectory key.parent = false) :
    ∃ fault, fs.lastIn linkLimit fs.work key.toText = .error fault := by
  rw [lastIn, segments_toText hkey.proper, Key.getLast?_eq_name hne, origin_toText]
  rcases follow_parent_cases hw hkey hlink linkLimit with hfollow | ⟨fault, hfollow⟩
  · rw [Key.parent] at hfollow hdir
    simp only [hfollow, bind, Except.bind, hdir, Bool.not_false, if_true]
    exact ⟨_, rfl⟩
  · rw [Key.parent] at hfollow
    exact ⟨fault, by simp only [hfollow, bind, Except.bind]⟩

/-- What is made or removed at a key is a name in the directory above it. -/
theorem parentOf_toText (hdir : fs.isDirectory key.parent = true) :
    fs.parentOf key.toText = .ok (key.parent, .name key.name false) := by
  rw [parentOf, hkey.checkPath, lastIn_toText hw hkey hlink hne hdir]
  rfl

theorem parentOf_toText_error (hdir : fs.isDirectory key.parent = false) :
    ∃ fault, fs.parentOf key.toText = .error fault := by
  obtain ⟨fault, hlast⟩ := lastIn_toText_error hw hkey hlink hne hdir
  refine ⟨fault, ?_⟩
  rw [parentOf, hkey.checkPath, hlast]
  rfl

/-! ### Changing -/

theorem makeDirectory_toText (hdir : fs.isDirectory key.parent = true) (hentry : fs.entry? key = none) :
    fs.makeDirectory key.toText = .ok (fs.put key (.directory directoryMode 0)) := by
  simp only [makeDirectory, parentOf_toText hw hkey hlink hne hdir, bind, Except.bind, child_parent hkey hne hdir, hentry,
    Key.parent_append_name hne]

theorem makeDirectory_toText_error (hdir : fs.isDirectory key.parent = false) :
    ∃ fault, fs.makeDirectory key.toText = .error fault := by
  obtain ⟨fault, hparent⟩ := parentOf_toText_error hw hkey hlink hne hdir
  exact ⟨fault, by simp only [makeDirectory, hparent, bind, Except.bind]⟩

theorem openOrMake_toText (hdir : fs.isDirectory key.parent = true) (hentry : fs.entry? key = none) :
    fs.openOrMake key.toText = .ok (fs.addFile key fileMode) := by
  rw [openOrMake, hkey.checkPath]
  simp only [bind, Except.bind]
  rw [bodyOrNew_of_lastIn fileMode (lastIn_toText hw hkey hlink hne hdir), child_parent hkey hne hdir, hentry,
    Key.parent_append_name hne]

/-- Where nothing can be made and no file is, nothing can be opened for writing. -/
theorem openOrMake_toText_error (hfile : ∀ body, fs.entry? key ≠ some (.file body))
    (h : fs.isDirectory key.parent = true → fs.entry? key ≠ none) :
    ∃ fault, fs.openOrMake key.toText = .error fault := by
  rw [openOrMake, hkey.checkPath]
  simp only [bind, Except.bind]
  -- the place needs a directory above it; if there is one, what is at the place is not opened
  cases hdir : fs.isDirectory key.parent with
  | false =>
    obtain ⟨fault, hlast⟩ := lastIn_toText_error hw hkey hlink hne hdir
    refine ⟨fault, ?_⟩
    rw [bodyOrNew]
    split <;> simp_all
  | true =>
    rw [bodyOrNew_of_lastIn fileMode (lastIn_toText hw hkey hlink hne hdir), child_parent hkey hne hdir]
    cases hentry : fs.entry? key with
    | none => exact absurd hentry (h hdir)
    | some entry =>
      cases entry with
      | directory mode modified => exact ⟨_, rfl⟩
      | link target => exact absurd hentry (hlink key target (List.prefix_refl key))
      | file body => exact absurd hentry (hfile body)

omit hkey hlink in
theorem isDirectory_parent {entry : Entry} (hentry : fs.entry? key = some entry) : fs.isDirectory key.parent = true :=
  isDirectory_iff.mpr (hw.rooted.parents hentry hne)

theorem removeDirectory_toText (hdir : fs.isDirectory key = true) :
    fs.removeDirectory key.toText =
      if fs.entries.isEmptyAt key then .ok (fs.remove key) else .error .notEmpty := by
  obtain ⟨mode, modified, hentry⟩ := entry?_of_isDirectory hdir
  have hparent := isDirectory_parent hw hne hentry
  simp only [removeDirectory, parentOf_toText hw hkey hlink hne hparent, bind, Except.bind, child_parent hkey hne hparent,
    hentry, Key.parent_append_name hne]

theorem removeFile_toText {body : Nat} (hentry : fs.entry? key = some (.file body)) :
    fs.removeFile key.toText = .ok (fs.remove key) := by
  have hparent := isDirectory_parent hw hne hentry
  simp only [removeFile, parentOf_toText hw hkey hlink hne hparent, bind, Except.bind, child_parent hkey hne hparent,
    hentry, Key.parent_append_name hne, Bool.false_eq_true, if_false]

theorem removeFile_toText_error (hentry : fs.entry? key = none) : ∃ fault, fs.removeFile key.toText = .error fault := by
  cases hparent : fs.isDirectory key.parent with
  | false =>
    obtain ⟨fault, hplace⟩ := parentOf_toText_error hw hkey hlink hne hparent
    exact ⟨fault, by simp only [removeFile, hplace, bind, Except.bind]⟩
  | true =>
    refine ⟨.noEntry, ?_⟩
    simp only [removeFile, parentOf_toText hw hkey hlink hne hparent, bind, Except.bind, child_parent hkey hne hparent,
      hentry]

end Places

/-! ### Entries -/

section Entries

variable (hw : fs.WellFormed) (hkey : Nameable key) (hlink : fs.Unlinked key)
include hw hkey hlink

theorem findLink_toText {entry : Entry} (hentry : fs.entry? key = some entry) : fs.findLink key.toText = .ok key := by
  by_cases hne : key = []
  · have hfind := find_toText hw hkey hlink hentry
    subst hne
    rw [findLink, hkey.checkPath]
    exact hfind
  · rw [findLink_place hw hkey hlink hne (isDirectory_parent hw hne hentry), hentry]
    rfl

theorem findLink_toText_error (hentry : fs.entry? key = none) : ∃ fault, fs.findLink key.toText = .error fault := by
  have hne : key ≠ [] := by
    rintro rfl
    obtain ⟨mode, modified, hroot⟩ := entry?_of_isDirectory hw.root
    simp [hroot] at hentry
  cases hdir : fs.isDirectory key.parent with
  | false => exact findLink_place_error hw hkey hlink hne hdir
  | true =>
    refine ⟨.noEntry, ?_⟩
    rw [findLink_place hw hkey hlink hne hdir, hentry]
    rfl

theorem existsAt_toText : existsAt fs key.toText = (fs.entry? key).isSome := by
  rw [existsAt]
  cases hentry : fs.entry? key with
  | none =>
    obtain ⟨fault, hfind⟩ := findLink_toText_error hw hkey hlink hentry
    rw [hfind]
    rfl
  | some entry =>
    rw [findLink_toText hw hkey hlink hentry]
    rfl

theorem linkAt?_toText : fs.linkAt? key.toText = none := by
  rw [linkAt?]
  cases hentry : fs.entry? key with
  | none =>
    obtain ⟨fault, hfind⟩ := findLink_toText_error hw hkey hlink hentry
    rw [hfind]
  | some entry =>
    rw [findLink_toText hw hkey hlink hentry]
    cases entry with
    | link target => exact absurd hentry (hlink key target (List.prefix_refl key))
    | directory mode modified => simp only [hentry]
    | file body => simp only [hentry]

theorem leadsToDirectory_toText : leadsToDirectory fs key.toText = fs.isDirectory key := by
  rw [leadsToDirectory]
  cases hentry : fs.entry? key with
  | none =>
    obtain ⟨fault, hfind⟩ := find_toText_error hw hkey hlink hentry
    rw [hfind, isDirectory, hentry]
  | some entry => rw [find_toText hw hkey hlink hentry]

theorem isDirectoryAt_toText : isDirectoryAt fs key.toText = fs.isDirectory key := by
  rw [isDirectoryAt, leadsToDirectory_toText hw hkey hlink, linkAt?_toText hw hkey hlink]
  simp

theorem list_toText (hdir : fs.isDirectory key = true) : fs.list key.toText = .ok (fs.entries.childrenNames key) := by
  obtain ⟨mode, modified, hentry⟩ := entry?_of_isDirectory hdir
  simp only [list, find_toText hw hkey hlink hentry, bind, Except.bind, hdir, if_true]

theorem openBody_toText {body : Nat} (hentry : fs.entry? key = some (.file body)) :
    fs.openBody key.toText = .ok body := by
  simp only [openBody, find_toText hw hkey hlink hentry, bind, Except.bind, hentry]

theorem openBody_toText_error (hfile : ∀ body, fs.entry? key ≠ some (.file body)) :
    ∃ fault, fs.openBody key.toText = .error fault := by
  rw [openBody]
  cases hentry : fs.entry? key with
  | none =>
    obtain ⟨fault, hfind⟩ := find_toText_error hw hkey hlink hentry
    exact ⟨fault, by simp only [hfind, bind, Except.bind]⟩
  | some entry =>
    refine ⟨.isDirectory, ?_⟩
    cases entry with
    | file body => exact absurd hentry (hfile body)
    | directory mode modified => simp only [find_toText hw hkey hlink hentry, bind, Except.bind, hentry]
    | link target => simp only [find_toText hw hkey hlink hentry, bind, Except.bind, hentry]

/-! ### Canonical paths -/

/-- Resolving goes through the names behind a directory's path one by one. -/
theorem resolve_toText {names : Key} (links : Links) {steps : Nat} (hsteps : names.length < steps)
    (hle : directory ++ names <+: key) :
    fs.resolve steps directory.toText names links = ⟨(directory ++ names).toText, true, [], links⟩ := by
  induction names generalizing directory steps with
  | nil =>
    obtain ⟨steps, rfl⟩ := Nat.exists_eq_succ_of_ne_zero (Nat.ne_of_gt hsteps)
    rw [resolve, List.append_nil]
  | cons name names ih =>
    obtain ⟨steps, rfl⟩ := Nat.exists_eq_succ_of_ne_zero (Nat.ne_of_gt (Nat.zero_lt_of_lt hsteps))
    have hsplit : directory ++ name :: names = directory ++ [name] ++ names := by simp
    rw [hsplit] at hle ⊢
    have hplace : directory ++ [name] <+: key := (List.prefix_append _ names).trans hle
    have hname := hkey.proper name (hplace.subset (by simp))
    have hdirectory : directory.Proper := (hkey.of_prefix ((List.prefix_append _ _).trans hplace)).proper
    have hdots : (name.isEmpty || decide (name = Key.here)) = false := by simp [hname.ne_nil, hname.ne_here]
    have hlinkAt : fs.linkAt? (Key.toText (directory ++ [name])) = none :=
      linkAt?_toText hw (hkey.of_prefix hplace) (hlink.of_prefix hplace)
    -- a name that is no link is put behind what has been resolved
    rw [resolve, hdots, if_neg (by simp), if_neg hname.ne_above]
    simp only [joined_toText hdirectory hname.no_slash, hlinkAt]
    exact ih (Nat.lt_of_succ_lt_succ hsteps) hle

theorem text_resolution_toText : (fs.resolution key.toText).text = key.toText := by
  have hlimit : key.toText.length + 1 < fs.resolveLimit key.toText := by
    rw [resolveLimit, Nat.mul_assoc]
    exact Nat.lt_of_lt_of_le (by omega) (Nat.le_mul_of_pos_right _ (by omega))
  -- the first piece of the path is the nothing in front of its slash
  have hresolve : fs.resolve (fs.resolveLimit key.toText) ['/'] (Text.parts '/' key.toText) [] =
      ⟨key.toText, true, [], []⟩ := by
    by_cases hroot : key = []
    · subst hroot
      obtain ⟨steps, hsteps⟩ := Nat.exists_eq_add_of_le hlimit
      rw [hsteps, Nat.add_comm]
      rfl
    · obtain ⟨steps, hsteps⟩ := Nat.exists_eq_succ_of_ne_zero (Nat.ne_of_gt (Nat.zero_lt_of_lt hlimit))
      have hlt : key.length < steps := by
        have hlength := (Key.length_le_count key).trans List.count_le_length
        omega
      have hrest : fs.resolve steps (Key.toText []) key [] = ⟨Key.toText ([] ++ key), true, [], []⟩ :=
        resolve_toText hw hkey hlink [] hlt (List.prefix_refl key)
      rw [Key.parts_toText hkey.proper hroot, hsteps, resolve]
      exact hrest
  rw [resolution, if_pos (head?_toText key), hresolve]
  rfl

/-- **The path of a key is canonical**, where no link is at the key or above it. -/
theorem canonical_toText : fs.canonical key.toText = key.toText := by
  rw [canonical, text_resolution_toText hw hkey hlink, absolute_toText hkey.proper]

end Entries

end FileSystem

end FileRouter.Disk
