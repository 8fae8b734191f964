import FileRouter.Proofs.Memory.FreshName
import FileRouter.Proofs.Memory.Listing
/-!
Where a fresh file is placed.

What is asked for is put together to a path before it is read: the beginning, a token and the ending. The directory is
what the beginning names up to its last slash, whatever dots, empty segments or further colons are in it, and an ending
without a slash belongs to the name. So all candidates stand in that directory, each under the name that has its token
in it (`keyOf_candidatePath`): the file is made under the first of them that is free, or the directory is missing and
nothing is made (`placed_createTemp`).
-/

namespace FileRouter.Drive

open KeyMap TokenSource

variable {drive : Drive} {tokens : TokenSource} {start ending token : Text}

/-- The name of a candidate: what stands behind the last slash of the beginning, a token, and the ending. -/
def candidateName (drive : Drive) (start ending token : Text) : Text :=
  Text.afterLast '/' (Scheme.strip start drive.scheme) ++ token ++ ending

/-- The path of that name in a directory. -/
def candidatePath (drive : Drive) (directory start ending token : Text) : Text :=
  Text.dropTrailing '/' directory ++ '/' :: drive.candidateName start ending token

/-! ### Candidates in a directory -/

theorem tempDirectory_proper (drive : Drive) (start : Text) : (drive.tempDirectory start).Proper :=
  Key.ofText_proper _

/-- The directory of a beginning is what the beginning names up to its last slash. -/
theorem keyOf_join_beforeLast (hscheme : drive.scheme ≠ []) (start : Text) :
    drive.keyOf (Scheme.join drive.scheme (Text.beforeLast '/' (Scheme.strip start drive.scheme))) =
      drive.tempDirectory start := by
  rw [keyOf, Scheme.strip_join hscheme, tempDirectory]

theorem tempName_of_flat (drive : Drive) (start token : Text) (hflat : '/' ∉ ending) :
    drive.tempName start ending token = drive.candidateName start ending token := by
  rw [tempName, Text.parts_of_not_mem hflat, List.headD_cons, candidateName]

theorem returnKey?_of_flat (drive : Drive) (start : Text) (hflat : '/' ∉ ending) :
    drive.returnKey? start ending = none := by
  rw [returnKey?, Text.parts_of_not_mem hflat]
  rfl

/-- An ending without a slash leads nowhere else: the candidate stands in the directory of the beginning. -/
theorem ofText_candidateText_of_flat (drive : Drive) (start : Text) (hflat : '/' ∉ ending) (h : IsHexadecimal token) :
    Key.ofText (drive.candidateText start ending token) =
      drive.tempDirectory start ++ [drive.candidateName start ending token] := by
  rw [ofText_candidateText drive start ending h, Text.parts_of_not_mem hflat, tempName_of_flat drive start token hflat]
  rfl

theorem isName_candidateName (drive : Drive) (start : Text) (hflat : '/' ∉ ending) (h : IsHexadecimal token) :
    Key.IsName (drive.candidateName start ending token) :=
  tempName_of_flat drive start token hflat ▸ isName_tempName drive start ending h

theorem candidatePath_eq (drive : Drive) (start ending token : Text) :
    drive.candidatePath (drive.pathOf (drive.tempDirectory start)) start ending token =
      drive.pathOf (drive.tempDirectory start ++ [drive.candidateName start ending token]) :=
  (pathOf_append_singleton (tempDirectory_proper drive start) _).symm

/-- The path of a candidate is read as the name in the directory. -/
theorem keyOf_candidatePath (hscheme : drive.scheme ≠ []) (start : Text) (hflat : '/' ∉ ending)
    (h : IsHexadecimal token) :
    drive.keyOf (drive.candidatePath (drive.pathOf (drive.tempDirectory start)) start ending token) =
      drive.tempDirectory start ++ [drive.candidateName start ending token] := by
  rw [candidatePath_eq]
  exact keyOf_pathOf hscheme (Key.proper_append.mpr ⟨tempDirectory_proper drive start,
    Key.proper_singleton (isName_candidateName drive start hflat h)⟩)

/-- Among the candidates there is a first one that is free, before the tokens that a request tries are used up. -/
theorem exists_first_isUnused (hdistinct : Function.Injective tokens.token) (hhex : ∀ n, IsHexadecimal (tokens.token n))
    (hstays : drive.returnKey? start ending = none) :
    ∃ n < drive.searchLimit tokens,
      (∀ i < n, drive.isUnused (drive.candidateText start ending (tokens.token i)) = false) ∧
        drive.isUnused (drive.candidateText start ending (tokens.token n)) = true := by
  classical
  obtain ⟨m, hm, hunused⟩ := exists_isUnused hdistinct hhex hstays
  have hsome : ∃ n, drive.isUnused (drive.candidateText start ending (tokens.token n)) = true := ⟨m, hunused⟩
  have hfirst : Nat.find hsome ≤ m := Nat.find_min' hsome hunused
  have hlimit := lt_searchLimit drive tokens
  exact ⟨Nat.find hsome, by omega, fun i hi => by simpa using Nat.find_min hsome hi, Nat.find_spec hsome⟩

/-! ### The request -/

/-- What a request for a fresh file comes to, by the first candidate that is free. -/
theorem outcome_createTemp_of_unused (now : Int) {n : Nat} (hhex : IsHexadecimal (tokens.token n))
    (hflat : '/' ∉ ending) (hlimit : n < drive.searchLimit tokens)
    (hused : ∀ i < n, drive.isUnused (drive.candidateText start ending (tokens.token i)) = false)
    (hn : drive.isUnused (drive.candidateText start ending (tokens.token n)) = true) :
    (createTemp now start ending).outcome (drive, tokens) =
      let key := drive.tempDirectory start ++ [drive.candidateName start ending (tokens.token n)]
      match drive.parentFault? key start with
      | some failure => (.error failure, drive, tokens.advanced (n + 1))
      | none => (.ok (drive.pathOf key), { drive with tree := drive.tree.put key (.newFile now) },
          tokens.advanced (n + 1)) := by
  rw [createTemp, Call.outcome_bind, Call.outcome_get]
  simp only
  rw [outcome_createTempWithin_of_unused now hhex hused hn hlimit, ofText_candidateText_of_flat drive start hflat hhex]
  simp only [outcome_create]
  cases drive.parentFault? (drive.tempDirectory start ++ [drive.candidateName start ending (tokens.token n)]) start <;>
    rfl

/-- In a directory the file is made under the first name that is free. -/
theorem outcome_createTemp_of_hasDirectory (now : Int) {n : Nat} (hhex : IsHexadecimal (tokens.token n))
    (hflat : '/' ∉ ending) (hdir : drive.tree.HasDirectory (drive.tempDirectory start))
    (hlimit : n < drive.searchLimit tokens)
    (hused : ∀ i < n, drive.isUnused (drive.candidateText start ending (tokens.token i)) = false)
    (hn : drive.isUnused (drive.candidateText start ending (tokens.token n)) = true) {key : Key}
    (hkey : drive.tempDirectory start ++ [drive.candidateName start ending (tokens.token n)] = key) :
    (createTemp now start ending).outcome (drive, tokens) =
      (.ok (drive.pathOf key), { drive with tree := drive.tree.put key (.newFile now) }, tokens.advanced (n + 1)) := by
  have hfault : drive.parentFault? key start = none := by
    rw [parentFault?_eq_none_iff, ← hkey, Key.parent_append_singleton]
    exact hdir
  rw [outcome_createTemp_of_unused now hhex hflat hlimit hused hn]
  simp only [hkey, hfault]

/-- Where there is no directory, nothing is in it, so the first candidate is free. -/
theorem isUnused_of_not_hasDirectory (hw : drive.tree.WellFormed) (hflat : '/' ∉ ending) (h : IsHexadecimal token)
    (hdir : ¬ drive.tree.HasDirectory (drive.tempDirectory start)) :
    drive.isUnused (drive.candidateText start ending token) = true := by
  rw [isUnused_candidateText drive start ending h, ofText_candidateText_of_flat drive start hflat h,
    Bool.not_eq_true', has_eq_false_iff]
  by_contra hsome
  obtain ⟨node, hnode⟩ := Option.ne_none_iff_exists'.mp hsome
  have hparent := hw.parents hnode (by simp)
  rw [Key.parent_append_singleton] at hparent
  exact hdir hparent

theorem parentFault?_of_not_hasDirectory {key : Key} (h : ¬ drive.tree.HasDirectory key.parent) (path : Text) :
    drive.parentFault? key path =
      some (if drive.tree.has key.parent then .refused .parentNotDirectory path
        else .notFound (drive.pathOf key.parent)) := by
  rw [parentFault?, has]
  cases hg : drive.tree.get? key.parent with
  | none => rfl
  | some node =>
    have hfile : ¬ node.isDirectory = true := fun hdir => h ⟨node, hg, hdir⟩
    simp [hfile]

/-- A request for a fresh file fails where there is no directory for it, and leaves the drive as it was. -/
theorem outcome_createTemp_of_not_hasDirectory (hw : drive.tree.WellFormed) (now : Int)
    (hhex : ∀ n, IsHexadecimal (tokens.token n)) (hflat : '/' ∉ ending)
    (hdir : ¬ drive.tree.HasDirectory (drive.tempDirectory start)) :
    (createTemp now start ending).outcome (drive, tokens) =
      (.error (if drive.tree.has (drive.tempDirectory start) then .refused .parentNotDirectory start
        else .notFound (drive.pathOf (drive.tempDirectory start))), drive, tokens.advanced 1) := by
  have hparent : (drive.tempDirectory start ++ [drive.candidateName start ending (tokens.token 0)]).parent =
      drive.tempDirectory start := Key.parent_append_singleton _ _
  rw [outcome_createTemp_of_unused now (hhex 0) hflat (Nat.zero_lt_of_lt (lt_searchLimit drive tokens))
    (fun i hi => absurd hi (Nat.not_lt_zero i)) (isUnused_of_not_hasDirectory hw hflat (hhex 0) hdir)]
  simp only [parentFault?_of_not_hasDirectory (hparent ▸ hdir), hparent]

/-- A candidate is there exactly when its token does not pass. -/
theorem answers_exists_candidatePath (hscheme : drive.scheme ≠ []) (start : Text) (hflat : '/' ∉ ending)
    (h : IsHexadecimal token) (tokens : TokenSource) :
    Answers (drive, tokens)
      (.exists (drive.candidatePath (drive.pathOf (drive.tempDirectory start)) start ending token))
      (!drive.isUnused (drive.candidateText start ending token)) := by
  have hself := answers_exists (drive, tokens)
    (drive.candidatePath (drive.pathOf (drive.tempDirectory start)) start ending token)
  rwa [keyOf_candidatePath hscheme start hflat h, ← ofText_candidateText_of_flat drive start hflat h,
    ← Bool.not_not (KeyMap.has _ _), ← isUnused_candidateText drive start ending h] at hself

/-- What a drive says about a file that has just been made. -/
structure NewFileAt (s : Drive × TokenSource) (path : Text) : Prop where
  isThere : Answers s (.exists path) true
  isFile : Answers s (.isDirectory path) false
  isEmpty : Answers s (.size path) 0
  canWrite : Answers s (.canWrite path) true

theorem newFileAt_of_get? {s : Drive × TokenSource} {path : Text} {now : Int}
    (h : s.1.tree.get? (s.1.keyOf path) = some (.newFile now)) : NewFileAt s path where
  isThere := answers_exists_iff.mpr (has_iff.mpr ⟨_, h⟩)
  isFile _ := by simp [perform, node?, h, Node.newFile]
  isEmpty _ := by
    rw [perform, outcome_plain, Call.outcome_map, outcome_node, h]
    rfl
  canWrite _ := by simp [perform, node?, h, Node.newFile]

/-- **Where a fresh file is placed.** Take a beginning, cut behind its last slash, and let `directory` be the canonical
path of the front part. For every drive that a run has led to, every ending without a slash and every source of distinct
hexadecimal tokens:

* if `directory` is a directory, the request answers the path in it whose name is the rest of the beginning, a token and
  the ending, for the first token whose path is free; the file is new, empty and writable, `directory` is its parent, and
  nothing else on the drive has changed;
* if `directory` is missing or a file, the request fails, and the drive is as it was. -/
theorem placed_createTemp (hreached : Reached drive) (hscheme : Scheme.isValid drive.scheme = true)
    (hdistinct : Function.Injective tokens.token) (hhex : ∀ n, IsHexadecimal (tokens.token n)) (hflat : '/' ∉ ending)
    (now : Int) (start : Text) (deleteOnExit inTempDir : Bool) (directory : Text)
    (hdirectory : Answers (drive, tokens) (.canonicalPath
      (Scheme.join drive.scheme (Text.beforeLast '/' (Scheme.strip start drive.scheme)))) directory) :
    (Answers (drive, tokens) (.isDirectory directory) true →
      ∃ n path drive', path = drive.candidatePath directory start ending (tokens.token n) ∧
        (∀ i < n, Answers (drive, tokens)
          (.exists (drive.candidatePath directory start ending (tokens.token i))) true) ∧
        Answers (drive, tokens) (.exists path) false ∧
        (perform now (.createTemp start ending deleteOnExit inTempDir)).outcome (drive, tokens) =
          (.ok path, drive', tokens.advanced (n + 1)) ∧
        Answers (drive', tokens.advanced (n + 1)) (.parent path) (some directory) ∧
        Answers (drive', tokens.advanced (n + 1)) (.name path)
          (drive.candidateName start ending (tokens.token n)) ∧
        NewFileAt (drive', tokens.advanced (n + 1)) path ∧
        drive'.scheme = drive.scheme ∧ drive'.files = drive.files ∧
        ∀ key ≠ drive.keyOf path, drive'.tree.get? key = drive.tree.get? key) ∧
    (Answers (drive, tokens) (.isDirectory directory) false →
      (perform now (.createTemp start ending deleteOnExit inTempDir)).outcome (drive, tokens) =
          (.error (.notFound directory), drive, tokens.advanced 1) ∧
        Answers (drive, tokens) (.exists directory) false ∨
      (perform now (.createTemp start ending deleteOnExit inTempDir)).outcome (drive, tokens) =
          (.error (.refused .parentNotDirectory start), drive, tokens.advanced 1) ∧
        Answers (drive, tokens) (.exists directory) true) := by
  have hw := hreached.wellFormed
  have hne := Scheme.ne_nil_of_isValid hscheme
  obtain rfl : drive.pathOf (drive.tempDirectory start) = directory :=
    keyOf_join_beforeLast hne start ▸ (answers_canonicalPath (drive, tokens) _).unique hdirectory
  have hself : drive.keyOf (drive.pathOf (drive.tempDirectory start)) = drive.tempDirectory start :=
    keyOf_pathOf hne (tempDirectory_proper drive start)
  constructor
  · intro hdir
    have hhas : drive.tree.HasDirectory (drive.tempDirectory start) := hself ▸ answers_isDirectory_iff.mp hdir
    -- tokens are distinct, so one of them is not used yet; the first of these is taken
    obtain ⟨n, hlimit, hused, hn⟩ :=
      exists_first_isUnused hdistinct hhex (returnKey?_of_flat drive start hflat)
    have hexists := fun i => answers_exists_candidatePath hne start hflat (hhex i) tokens
    have hkey := keyOf_candidatePath hne start hflat (hhex n)
    have hmade := outcome_createTemp_of_hasDirectory now (hhex n) hflat hhas hlimit hused hn hkey.symm
    refine ⟨n, _, { drive with tree := drive.tree.put (drive.keyOf _) (.newFile now) }, rfl, fun i hi => ?_, ?_, ?_,
      ?_, ?_, newFileAt_of_get? ((get?_put _ _ _ _).trans (if_pos rfl)), rfl, rfl,
      fun key hother => (get?_put _ _ _ _).trans (if_neg hother)⟩
    · have hthere := hexists i
      rwa [hused i hi] at hthere
    · have hfree := hexists n
      rwa [hn] at hfree
    · rw [perform, hmade, hkey, candidatePath_eq]
    · refine answers_parent_iff.mpr ⟨?_, ?_⟩
      · exact hkey.symm ▸ List.concat_ne_nil _ _
      · exact congrArg drive.pathOf ((congrArg Key.parent hkey).trans (Key.parent_append_singleton _ _))
    · have hname := (congrArg Key.name hkey).trans (Key.name_append_singleton _ _)
      exact hname ▸ answers_name _ _
  · intro hdir
    have hnot : ¬ drive.tree.HasDirectory (drive.tempDirectory start) := fun h => by
      simpa using hdir.unique (answers_isDirectory_iff.mpr (hself.symm ▸ h))
    rw [perform, outcome_createTemp_of_not_hasDirectory hw now hhex hflat hnot]
    have hexists := answers_exists (drive, tokens) (drive.pathOf (drive.tempDirectory start))
    rw [hself] at hexists
    -- no directory is there: either nothing is, or a file
    cases hhas : drive.tree.has (drive.tempDirectory start) with
    | false => exact Or.inl ⟨rfl, hhas ▸ hexists⟩
    | true => exact Or.inr ⟨rfl, hhas ▸ hexists⟩

/-- On the crowded drive the first token is passed over, whatever the way in which the beginning names the root; where
the beginning leads through a missing entry or a file, nothing is made. -/
theorem placed_createTemp_crowded :
    (∃ n drive', 0 < n ∧
      (perform 5 (.createTemp "mem:mem:/..//x".toList [] false false)).outcome (crowded, longerTokens) =
        (.ok (crowded.candidatePath "mem:/".toList "mem:mem:/..//x".toList [] (longerTokens.token n)), drive',
          longerTokens.advanced (n + 1))) ∧
    (perform 5 (.createTemp "mem:/b/x".toList [] false false)).outcome (crowded, longerTokens) =
      (.error (.notFound "mem:/b".toList), crowded, longerTokens.advanced 1) ∧
    (perform 5 (.createTemp "mem:/xa/x".toList [] false false)).outcome (crowded, longerTokens) =
      (.error (.refused .parentNotDirectory "mem:/xa/x".toList), crowded, longerTokens.advanced 1) := by
  have hreached : Reached crowded :=
    ⟨"mem".toList, 0, longerTokens, [.ask 0 (.createFile "mem:/xa".toList)], by decide⟩
  have hplaced := fun start => placed_createTemp hreached (by decide) longerTokens_injective isHexadecimal_longerTokens
    (by decide : '/' ∉ ([] : Text)) 5 start false false
  refine ⟨?_, ?_, ?_⟩
  · obtain ⟨n, path, drive', rfl, -, hfree, houtcome, -⟩ :=
      (hplaced "mem:mem:/..//x".toList "mem:/".toList fun _ => rfl).1 fun _ => rfl
    refine ⟨n, drive', Nat.pos_of_ne_zero ?_, houtcome⟩
    -- the first candidate is taken, so it is not the one that was free
    rintro rfl
    exact absurd (hfree.unique (answers_exists _ _)) (by decide)
  · refine ((hplaced "mem:/b/x".toList "mem:/b".toList fun _ => rfl).2 fun _ => rfl).elim And.left fun h => ?_
    exact absurd (h.2.unique (answers_exists _ _)) (by decide)
  · refine ((hplaced "mem:/xa/x".toList "mem:/xa".toList fun _ => rfl).2 fun _ => rfl).elim (fun h => ?_) And.left
    exact absurd (h.2.unique (answers_exists _ _)) (by decide)

end FileRouter.Drive
