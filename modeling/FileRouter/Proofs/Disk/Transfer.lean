import FileRouter.Proofs.Disk.Contents
/-!
Handles for a copy within a directory of the disk.

While a file is copied, one handle reads it and another writes to a second file. Each shows its own file, and what is
done with one of them does not disturb the other. The contents of the directory change at the second file alone, and
when its handle is closed, the file holds what has been written.
-/

namespace FileRouter.Disk

open Call FileSystem

variable {disk disk' start : Disk} {base source target : Key} {items : Contents} {bytes left written : Bytes}
  {index reader writer body : Nat} {access : Access} {c : Cursor}

/-! ### What a handle shows of a disk -/

/-- What a handle shows, it shows of the disk as it is. -/
theorem Shows.here (h : Shows index body access start c disk) : Shows index body access disk c disk := by
  obtain ⟨file, hs⟩ := h
  exact ⟨file, { hs with through := Through.refl index body disk }⟩

theorem Shows.through (h : Shows index body access start c disk) : Through index body start disk :=
  h.elim fun _ hs => hs.through

/-- A handle is not disturbed by what is done to other handles and other files. -/
theorem Shows.undisturbed (h : Shows index body access disk c disk) (hfile : disk'.files[index]? = disk.files[index]?)
    (hbytes : disk'.fs.bytesOf body = disk.fs.bytesOf body) (hthere : body < disk'.fs.bodies.length) :
    Shows index body access disk' c disk' := by
  obtain ⟨file, hs⟩ := h
  have hbuffered : disk'.buffered file = disk.buffered file := by
    rw [buffered, buffered, hs.sameBody, hbytes]
  exact ⟨file, hfile.trans hs.found, hs.sameBody, hs.sameAccess, hs.opened, hthere, hbuffered ▸ hs.fits,
    hbuffered ▸ hs.view, hs.direct, Through.refl index body disk'⟩

/-- A handle for reading has some bytes of its file left. -/
def Reader (index body : Nat) (left : Bytes) (disk : Disk) : Prop :=
  OnlyReads disk index ∧ ∃ c : Cursor, c.rest = left ∧ Shows index body .reader disk c disk

theorem Reader.undisturbed (h : Reader index body left disk) (hfile : disk'.files[index]? = disk.files[index]?)
    (hbytes : disk'.fs.bytesOf body = disk.fs.bytesOf body) (hthere : body < disk'.fs.bodies.length) :
    Reader index body left disk' := by
  obtain ⟨⟨file, hfound, hreads⟩, c, hrest, hshows⟩ := h
  exact ⟨⟨file, hfile.trans hfound, hreads⟩, c, hrest, hshows.undisturbed hfile hbytes hthere⟩

theorem Reader.lt_length (h : Reader index body left disk) : index < disk.files.length := by
  obtain ⟨⟨file, hfound, -⟩, -⟩ := h
  exact (List.getElem?_eq_some_iff.mp hfound).1

/-- Reading takes bytes from the front of what is left, and changes nothing but the handle. -/
theorem Reader.read (h : Reader index body left disk) {count : Nat} (hroom : (count : Int) ≤ Count.room) :
    ∃ disk', (Disk.read index (some (count : Int))).outcome disk = (.ok (left.take (min count left.length)), disk') ∧
      disk'.fs = disk.fs ∧ (∀ {other : Nat}, other ≠ index → disk'.files[other]? = disk.files[other]?) ∧
      Reader index body (left.drop (min count left.length)) disk' := by
  obtain ⟨hreads, c, rfl, hshows⟩ := h
  have hfits : Fits ((some (count : Int)).getD (-1)) := Count.fits_of_le_room hroom
  -- a count that leaves room fits, so it is taken as it is
  obtain ⟨n, hcount, hasked⟩ := Count.ofOption_of_fits hfits
  have hdoes : Does (Shows index body .reader disk) c (Disk.read index (some (count : Int))) (c.read n).1 (c.read n).2 :=
    does_read rfl hcount (hasked ▸ hroom) (Or.inr (by rw [hasked, Option.getD_some]; omega))
  obtain ⟨htaken, hrest⟩ := Cursor.read_of_asked hasked c
  obtain ⟨disk', hread, hshows'⟩ := hdoes disk hshows
  have hquiet := undisturbed_onFile hreads (.read (some (count : Int)))
  have hleft : ((onFile index (.read (some (count : Int)))).outcome disk).2 = disk' := congrArg Prod.snd hread
  rw [hleft] at hquiet
  rw [htaken] at hread
  exact ⟨disk', hread, hquiet.fs, hshows'.through.files, hquiet.files hreads, _, hrest, hshows'.here⟩

/-- A number that is no count is refused. -/
theorem Reader.read_refused (h : Reader index body left disk) {count : Option Int} (hmisfit : ¬ Fits (count.getD (-1))) :
    (Disk.read index count).outcome disk = (.error Count.misfit, disk) := by
  obtain ⟨-, c, -, file, hs⟩ := h
  exact outcome_read_of_misfit hs.found (by rw [hs.sameAccess]; rfl) hmisfit

/-- Closing a handle for reading changes nothing else. -/
theorem Reader.close (h : Reader index body left disk) :
    ∃ disk', (Disk.close index).outcome disk = (.ok (), disk') ∧ disk'.fs = disk.fs := by
  obtain ⟨hreads, c, -, hshows⟩ := h
  obtain ⟨flushed, -, -, hclose⟩ := outcome_close hshows
  have hquiet := undisturbed_onFile hreads .close
  exact ⟨_, hclose, (congrArg (fun out => out.2.fs) hclose).symm.trans hquiet.fs⟩

/-! ### Copies -/

/-- A handle has been opened for reading from a key, and has some bytes left. -/
def ReadsContents (base : Key) (items : Contents) (source : Key) (reader : Nat) (left : Bytes) (disk : Disk) : Prop :=
  ShowsContents base items disk ∧ ∃ body, disk.fs.entry? (base ++ source) = some (.file body) ∧
    Reader reader body left disk

/-- A second handle has been opened for writing at another key, and has been given some bytes. -/
structure Copying (base : Key) (items : Contents) (source target : Key) (reader writer : Nat)
    (left written stored : Bytes) (body sink : Nat) (disk : Disk) : Prop where
  shows : ShowsContents base (items.put target (.file stored)) disk
  source : disk.fs.entry? (base ++ source) = some (.file body)
  target : disk.fs.entry? (base ++ target) = some (.file sink)
  bodies : body ≠ sink
  handles : reader ≠ writer
  reads : Reader reader body left disk
  writes : Shows writer sink (.writer false) disk ⟨written, written.length⟩ disk

@[inherit_doc Copying]
def CopiesContents (base : Key) (items : Contents) (source target : Key) (reader writer : Nat)
    (left written : Bytes) (disk : Disk) : Prop :=
  ∃ stored body sink, Copying base items source target reader writer left written stored body sink disk

/-! ### Opening -/

theorem bodyAt?_toText (h : ShowsContents base items disk) (hkey : Nameable (base ++ source))
    (hentry : disk.fs.entry? (base ++ source) = some (.file body)) :
    disk.bodyAt? (Key.toText (base ++ source)) = some body := by
  refine bodyAt?_eq_some_iff.mpr ⟨hasBadUser_of_notMem (notMem_toText hkey), ?_, ?_⟩
  · rw [nativePath_toText]
    exact notMem_toText hkey
  · rw [nativePath_toText]
    exact openBody_toText h.wellFormed hkey (h.unlinked source) hentry

theorem yields_openInput (h : ShowsContents base items disk) (hkey : Nameable (base ++ source))
    (hfile : items source = some (.file bytes)) :
    Yields (openInput (Key.toText (base ++ source))) disk disk.files.length
      (ReadsContents base items source disk.files.length bytes) := by
  obtain ⟨body, hentry, rfl⟩ := h.eq_file_iff.mp hfile
  have hshows : Shows disk.files.length body .reader disk ⟨disk.fs.bytesOf body, 0⟩
      { disk with files := disk.files ++ [⟨body, .reader, 0, .idle, none, false⟩] } :=
    shows_new (h.wellFormed.bodies hentry) rfl
  exact ⟨_, outcome_openInput (bodyAt?_toText h hkey hentry), h, body, hentry,
    ⟨_, List.getElem?_concat_length, rfl, rfl⟩, _, rfl, hshows.here⟩

theorem refuses_openInput (h : ShowsContents base items disk) (hkey : Nameable (base ++ source))
    (hnofile : ∀ bytes, items source ≠ some (.file bytes)) :
    Refuses (openInput (Key.toText (base ++ source))) disk (ShowsContents base items) := by
  obtain ⟨fault, hfault⟩ := openBody_toText_error h.wellFormed hkey (h.unlinked source)
    fun body hentry => hnofile _ (h.file hentry)
  refine ⟨(fault.failure [Key.toText (base ++ source)]).reportedAt (Key.toText (base ++ source)), disk, ?_, h⟩
  rw [openInput, outcome_bind, outcome_native_toText hkey]
  simp only
  rw [outcome_bind, outcome_reported_ask, hfault]
  rfl

/-- What opening a file for writing leaves of a file system: the file is empty, and everything else as it was. -/
structure Emptied (base : Key) (items : Contents) (key : Key) (body : Nat) (fs fs' : FileSystem) : Prop where
  shows : fs'.Shows base (items.put key (.file []))
  entry : fs'.entry? (base ++ key) = some (.file body)
  entries : ∀ {other : Key}, other ≠ key → fs'.entry? (base ++ other) = fs.entry? (base ++ other)
  bytes : ∀ {other : Nat}, other < fs.bodies.length → other ≠ body → fs'.bytesOf other = fs.bytesOf other

/-- A place that can be written is opened, and made where nothing is. -/
theorem exists_emptied {fs : FileSystem} {key : Key} (h : fs.Shows base items) (hkey : Nameable (base ++ key))
    (hwritable : items.Writable key) :
    ∃ body fs', fs.openOrMake (Key.toText (base ++ key)) = .ok (body, fs') ∧
      Emptied base items key body fs (fs'.changeBody body fun b => { b with bytes := [] }) := by
  -- a file that is there is emptied, one that is not is made empty
  rcases hwritable with ⟨bytes, hfile⟩ | ⟨hnone, hparent⟩
  · obtain ⟨body, hentry, -⟩ := h.eq_file_iff.mp hfile
    have hopen := openBody_toText h.wellFormed hkey (h.unlinked key) hentry
    refine ⟨body, fs, openOrMake_of_openBody h.wellFormed hopen, h.write hentry [], hentry, fun _ => rfl,
      fun _ hne => ?_⟩
    rw [bytesOf_changeBody, if_neg hne.symm]
  · have hmade := h.addFile hkey hnone hparent fileMode
    have hentry : FileSystem.entry? (fs.addFile (base ++ key) fileMode).2 (base ++ key) = some (.file fs.bodies.length) :=
      (entryAt_put (base ++ key) (base ++ key) _).trans (if_pos rfl)
    have hshows := hmade.write hentry []
    rw [Contents.put_put] at hshows
    refine ⟨fs.bodies.length, (fs.addFile (base ++ key) fileMode).2, ?_, hshows, hentry, fun hne => ?_, fun hlt hne => ?_⟩
    · have hne : base ++ key ≠ [] := List.append_ne_nil_of_right_ne_nil base (h.ne_nil hnone)
      rw [h.eq_directory_iff, ← Key.parent_append (h.ne_nil hnone)] at hparent
      exact openOrMake_toText h.wellFormed hkey (h.unlinked key) hne hparent (h.eq_none_iff.mp hnone)
    · exact (entryAt_put (base ++ key) _ _).trans (if_neg fun he => hne (List.append_cancel_left he))
    · rw [bytesOf_changeBody, if_neg hne.symm, bytesOf_addFile_of_lt hlt]

theorem outcome_openOutput_toText {key : Key} (hkey : Nameable key) (disk : Disk) :
    (openOutput key.toText false).outcome disk =
      match disk.fs.openOrMake key.toText with
      | .error fault => (.error ((fault.failure [key.toText]).reportedAt key.toText), disk)
      | .ok (body, fs) =>
        (.ok disk.files.length,
          { disk with
            fs := fs.changeBody body fun b => { b with bytes := [] }
            files := disk.files ++ [⟨body, .writer false, 0, .idle, none, false⟩] }) := by
  rw [outcome_openOutput, outcome_bodyForWriting, nativePath_toText, if_neg]
  · rcases disk.fs.openOrMake key.toText with fault | ⟨body, fs⟩ <;> rfl
  · simp [hasBadUser_of_notMem (notMem_toText hkey), notMem_toText hkey]

theorem yields_openOutput (h : ReadsContents base items source reader left disk) (hkey : Nameable (base ++ target))
    (hne : target ≠ source) (hwritable : items.Writable target) :
    Yields (openOutput (Key.toText (base ++ target)) false) disk disk.files.length
      (CopiesContents base items source target reader disk.files.length left []) := by
  obtain ⟨hshows, body, hsource, hreader⟩ := h
  obtain ⟨sink, fs, hopen, hemptied⟩ := exists_emptied hshows hkey hwritable
  have hout := outcome_openOutput_toText hkey disk
  rw [hopen] at hout
  have hsource' := hsource
  rw [← hemptied.entries hne.symm] at hsource'
  -- the two files are two entries, so they have two bodies
  have hbodies : body ≠ sink := by
    rintro rfl
    exact hne (hemptied.shows.single hemptied.entry hsource')
  let opened : Disk := { disk with fs := fs.changeBody sink fun b => { b with bytes := [] } }
  have hthere : sink < opened.fs.bodies.length := hemptied.shows.wellFormed.bodies hemptied.entry
  have hblank : opened.fs.bytesOf sink = [] := by
    have hfile := hemptied.shows.file hemptied.entry
    rw [Contents.put, if_pos rfl] at hfile
    exact (Item.file.inj (Option.some.inj hfile)).symm
  have hnew : Shows opened.files.length sink (.writer false) opened ⟨opened.fs.bytesOf sink, 0⟩
      { opened with files := opened.files ++ [⟨sink, .writer false, 0, .idle, none, false⟩] } :=
    shows_new hthere rfl
  have hwriter := hnew.here
  rw [hblank] at hwriter
  have hlt := hreader.lt_length
  refine ⟨_, hout, [], body, sink, hemptied.shows, hsource', hemptied.entry, hbodies, Nat.ne_of_lt hlt, ?_, hwriter⟩
  refine hreader.undisturbed (List.getElem?_append_left hlt) ?_ (hemptied.shows.wellFormed.bodies hsource')
  exact hemptied.bytes (hshows.wellFormed.bodies hsource) hbodies

theorem refuses_openOutput (h : ReadsContents base items source reader left disk) (hkey : Nameable (base ++ target))
    (hroot : target ≠ []) (hwritable : ¬ items.Writable target) :
    Refuses (openOutput (Key.toText (base ++ target)) false) disk (ReadsContents base items source reader left) := by
  have hout := outcome_openOutput_toText hkey disk
  have hshows := h.1
  have hfault : ∃ fault, disk.fs.openOrMake (Key.toText (base ++ target)) = .error fault := by
    have hne : base ++ target ≠ [] := List.append_ne_nil_of_right_ne_nil base hroot
    have hnofile : ∀ body, disk.fs.entry? (base ++ target) ≠ some (.file body) := fun body hentry =>
      hwritable (Or.inl ⟨_, hshows.file hentry⟩)
    -- the two ways of being writable, read off the entries instead of the contents
    have hnoplace : ¬ (items target = none ∧ items target.parent = some .directory) := fun hp => hwritable (Or.inr hp)
    rw [hshows.eq_none_iff, hshows.eq_directory_iff, ← Key.parent_append hroot] at hnoplace
    exact openOrMake_toText_error hshows.wellFormed hkey (hshows.unlinked target) hne hnofile
      fun hdir hnone => hnoplace ⟨hnone, hdir⟩
  obtain ⟨fault, hfault⟩ := hfault
  rw [hfault] at hout
  exact ⟨_, disk, hout, h⟩

/-! ### Copying -/

theorem yields_read (h : CopiesContents base items source target reader writer left written disk) {count : Nat}
    (hroom : (count : Int) ≤ Count.room) :
    Yields (Disk.read reader (some (count : Int))) disk (left.take (min count left.length))
      (CopiesContents base items source target reader writer (left.drop (min count left.length)) written) := by
  obtain ⟨stored, body, sink, h⟩ := h
  obtain ⟨disk', hread, hfs, hfiles, hreader⟩ := h.reads.read hroom
  have hwriter : Shows writer sink (.writer false) disk' ⟨written, written.length⟩ disk' :=
    h.writes.undisturbed (hfiles h.handles.symm) (by rw [hfs]) (hfs ▸ h.writes.elim fun _ hs => hs.there)
  have hshows : ShowsContents base (items.put target (.file stored)) disk' := by
    rw [ShowsContents, hfs]
    exact h.shows
  exact ⟨disk', hread, stored, body, sink, hshows, hfs ▸ h.source, hfs ▸ h.target, h.bodies, h.handles, hreader, hwriter⟩

theorem refuses_read (h : CopiesContents base items source target reader writer left written disk) {count : Nat}
    (hmisfit : ¬ Fits count) :
    Refuses (Disk.read reader (some (count : Int))) disk
      (CopiesContents base items source target reader writer left written) := by
  have hcopies := h
  obtain ⟨stored, body, sink, h⟩ := h
  exact ⟨_, disk, h.reads.read_refused hmisfit, hcopies⟩

/-- What goes through the writer changes the second file alone. -/
theorem Copying.through {stored : Bytes} {sink : Nat}
    (h : Copying base items source target reader writer left written stored body sink disk)
    (hthrough : Through writer sink disk disk') :
    ∃ stored', ShowsContents base (items.put target (.file stored')) disk' ∧ disk'.fs.bytesOf sink = stored' ∧
      disk'.fs.entry? (base ++ source) = some (.file body) ∧ disk'.fs.entry? (base ++ target) = some (.file sink) ∧
      Reader reader body left disk' := by
  obtain ⟨stored', hfs⟩ := hthrough.fs
  have hthere : sink < disk.fs.bodies.length := h.shows.wellFormed.bodies h.target
  -- only the body of the second file has changed, and the first file has another
  refine ⟨stored', ?_, ?_, ?_, ?_, ?_⟩
  · have hwritten := h.shows.write h.target stored'
    rw [Contents.put_put, ← hfs] at hwritten
    exact hwritten
  · rw [hfs, bytesOf_changeBody_self hthere]
  · rw [hfs]
    exact h.source
  · rw [hfs]
    exact h.target
  · refine h.reads.undisturbed (hthrough.files h.handles) ?_ ?_
    · rw [hfs, bytesOf_changeBody, if_neg h.bodies.symm]
    · rw [hfs, length_changeBody]
      exact h.shows.wellFormed.bodies h.source

theorem yields_write (h : CopiesContents base items source target reader writer left written disk) {chunk : Bytes}
    (hchunk : chunk ≠ []) :
    Yields (Disk.write writer chunk) disk chunk.length
      (CopiesContents base items source target reader writer left (written ++ chunk)) := by
  obtain ⟨stored, body, sink, h⟩ := h
  obtain ⟨disk', hwrite, hshows⟩ := does_write rfl chunk disk h.writes
  rw [Cursor.write_end hchunk] at hshows
  obtain ⟨stored', hcontents, -, hsource, htarget, hreader⟩ := h.through hshows.through
  exact ⟨disk', hwrite, stored', body, sink, hcontents, hsource, htarget, h.bodies, h.handles, hreader, hshows.here⟩

theorem yields_close_writer (h : CopiesContents base items source target reader writer left written disk) :
    Yields (Disk.close writer) disk () (ReadsContents base (items.put target (.file written)) source reader left) := by
  obtain ⟨stored, body, sink, h⟩ := h
  obtain ⟨disk', hclose, hbytes, hthrough⟩ := outcome_close_of_shows rfl h.writes
  obtain ⟨stored', hcontents, hstored, hsource, -, hreader⟩ := h.through hthrough
  obtain rfl : stored' = written := hstored.symm.trans hbytes
  exact ⟨disk', hclose, hcontents, body, hsource, hreader⟩

theorem yields_close_reader (h : ReadsContents base items source reader left disk) :
    Yields (Disk.close reader) disk () (ShowsContents base items) := by
  obtain ⟨hshows, body, -, hreader⟩ := h
  obtain ⟨disk', hclose, hfs⟩ := hreader.close
  refine ⟨disk', hclose, ?_⟩
  rwa [ShowsContents, hfs]

end FileRouter.Disk
