import FileRouter.Memory.Handle
import FileRouter.Proofs.Memory.Tree
import FileRouter.Proofs.Scheme
/-!
What calls do to a drive.

The first part gives the outcome of each operation as one equation, so that no later proof has to take a
call apart. The second part shows that whatever is asked of a drive or of a handle, and however it ends,
the drive that is left comes `Later` than the one before: the same scheme, a tree reached by steps, and
every handle still on the key it was opened on (`later_perform`, `later_onFile`). Only deleting and
moving need steps that take an entry away; everything else lets the tree grow.
-/

namespace FileRouter

/-- A token that a search has found passes the test. -/
theorem TokenSource.search_fits {fits : Text → Bool} {limit : Nat} {source rest : TokenSource}
    {token : Text} (h : source.search fits limit = (some token, rest)) : fits token = true := by
  induction limit generalizing source with
  | zero => simp [search] at h
  | succ limit ih =>
    rw [search] at h
    simp only at h
    split_ifs at h with hf
    · simp only [Prod.mk.injEq, Option.some.injEq] at h
      exact h.1 ▸ hf
    · exact ih h

namespace Drive

open KeyMap

theorem keyOf_proper (drive : Drive) (path : Text) : (drive.keyOf path).Proper :=
  Key.ofText_proper _

theorem length_keyOf_le (drive : Drive) (path : Text) : (drive.keyOf path).length ≤ path.count '/' + 1 :=
  Nat.le_trans (Key.length_ofText_le _)
    (Nat.succ_le_succ ((Scheme.strip_suffix path drive.scheme).sublist.count_le '/'))

/-- The path that is written for an entry names it. -/
theorem keyOf_pathOf {drive : Drive} (hscheme : drive.scheme ≠ []) {key : Key} (h : key.Proper) :
    drive.keyOf (drive.pathOf key) = key := by
  rw [keyOf, pathOf, Scheme.strip_join hscheme, Key.ofText_toText h]

theorem parentFault?_eq_none_iff {drive : Drive} {key : Key} {path : Text} :
    drive.parentFault? key path = none ↔ drive.tree.HasDirectory key.parent := by
  rw [parentFault?]
  constructor
  · intro h
    cases hg : drive.tree.get? key.parent with
    | none => simp [hg] at h
    | some node =>
      simp only [hg] at h
      exact ⟨node, hg, by_contra fun hn => by simp [hn] at h⟩
  · rintro ⟨node, hg, hdir⟩
    simp [hg, hdir]

theorem parentFault?_cases {drive : Drive} {key : Key} {path : Text} {failure : Failure}
    (h : drive.parentFault? key path = some failure) :
    failure = .notFound (drive.pathOf key.parent) ∨ failure = .refused .parentNotDirectory path := by
  rw [parentFault?] at h
  cases hg : drive.tree.get? key.parent with
  | none =>
    rw [hg] at h
    exact Or.inl (Option.some.inj h).symm
  | some node =>
    simp only [hg] at h
    split_ifs at h
    exact Or.inr (Option.some.inj h).symm

/-! ### Outcomes -/

theorem outcome_create (key : Key) (node : Node) (path : Text) (drive : Drive) :
    (create key node path).outcome drive =
      match drive.parentFault? key path with
      | some failure => (.error failure, drive)
      | none => (.ok (), { drive with tree := drive.tree.put key node }) := by
  rw [create, Call.outcome_bind, Call.outcome_get]
  cases h : drive.parentFault? key path <;> simp [store, h]

theorem outcome_createDirectory (now : Int) (path : Text) (drive : Drive) :
    (createDirectory now path).outcome drive =
      match drive.tree.get? (drive.keyOf path) with
      | none => (create (drive.keyOf path) (.newDirectory now) path).outcome drive
      | some node =>
        if node.isDirectory then (.ok (), drive)
        else (.error (.refused .cannotReplaceFile path), drive) := by
  rw [createDirectory, Call.outcome_bind, Call.outcome_get]
  cases h : drive.tree.get? (drive.keyOf path) with
  | none => simp [node?, h]
  | some node =>
    simp only [node?, h]
    split_ifs <;> simp

theorem outcome_createFile (now : Int) (path : Text) (drive : Drive) :
    (createFile now path).outcome drive =
      match drive.tree.get? (drive.keyOf path) with
      | some _ => (.ok false, drive)
      | none =>
        let made := (create (drive.keyOf path) (.newFile now) path).outcome drive
        (made.1.map fun _ => true, made.2) := by
  rw [createFile, Call.outcome_bind, Call.outcome_get]
  cases h : drive.tree.get? (drive.keyOf path) <;> simp [node?, h]

theorem outcome_delete (path : Text) (drive : Drive) :
    (delete path).outcome drive =
      match drive.tree.get? (drive.keyOf path) with
      | none => (.error (.notFound path), drive)
      | some node =>
        if drive.keyOf path = [] then (.error (.denied "Cannot delete the root".toList path), drive)
        else if node.readOnly then (.error (.denied "File is read-only".toList path), drive)
        else if node.isDirectory && !drive.tree.isEmptyAt (drive.keyOf path) then
          (.error (.atPath .directoryNotEmpty path), drive)
        else (.ok (), { drive with tree := drive.tree.erase (drive.keyOf path) }) := by
  rw [delete, Call.outcome_bind, Call.outcome_get]
  cases h : drive.tree.get? (drive.keyOf path) with
  | none => simp [h]
  | some node =>
    simp only [h]
    split_ifs <;> simp

theorem outcome_move (old new : Text) (replace : Bool) (drive : Drive) :
    (move old new replace).outcome drive =
      match drive.tree.get? (drive.keyOf old) with
      | none => (.error (.notFound old), drive)
      | some _ =>
        if drive.keyOf old = drive.keyOf new then (.ok (), drive)
        else
          match drive.moveFault? old new replace with
          | some failure => (.error failure, drive)
          | none =>
            (.ok (), { drive with tree := drive.tree.rename (drive.keyOf old) (drive.keyOf new) }) := by
  rw [move, Call.outcome_bind, Call.outcome_get]
  cases h : drive.tree.get? (drive.keyOf old) with
  | none => simp [has, h]
  | some node =>
    simp only [has, h, Option.isSome_some, Bool.not_true, Bool.false_eq_true, if_false]
    split_ifs
    · simp
    · cases drive.moveFault? old new replace <;> simp

theorem outcome_listFiles (path : Text) (drive : Drive) :
    (listFiles path).outcome drive =
      match drive.tree.get? (drive.keyOf path) with
      | none => (.error (.notFound path), drive)
      | some node =>
        if node.isDirectory then
          (.ok ((drive.tree.childrenNames (drive.keyOf path)).map fun name =>
            drive.pathOf (drive.keyOf path ++ [name])), drive)
        else (.error (.refused .notADirectory path), drive) := by
  rw [listFiles, Call.outcome_bind, Call.outcome_get]
  cases h : drive.tree.get? (drive.keyOf path) with
  | none => simp [h]
  | some node =>
    simp only [h]
    split_ifs <;> simp

theorem outcome_node (path : Text) (drive : Drive) :
    (node path).outcome drive =
      match drive.tree.get? (drive.keyOf path) with
      | none => (.error (.notFound path), drive)
      | some node => (.ok node, drive) := by
  rw [node, Call.outcome_bind, Call.outcome_get]
  cases h : drive.tree.get? (drive.keyOf path) <;> simp [node?, h]

theorem outcome_setReadOnly (path : Text) (drive : Drive) :
    (setReadOnly path).outcome drive =
      match drive.tree.get? (drive.keyOf path) with
      | none => (.ok false, drive)
      | some node =>
        (.ok true,
          { drive with tree := drive.tree.put (drive.keyOf path) { node with readOnly := true } }) := by
  rw [setReadOnly, Call.outcome_bind, Call.outcome_get]
  cases h : drive.tree.get? (drive.keyOf path) <;> simp [node?, store, h, Except.map]

theorem outcome_addFile (file : DriveFile) (drive : Drive) :
    (addFile file).outcome drive =
      (.ok drive.files.length, { drive with files := drive.files ++ [file] }) :=
  rfl

theorem outcome_openForReading (path : Text) (drive : Drive) :
    (openForReading path).outcome drive =
      match drive.tree.get? (drive.keyOf path) with
      | none => (.error (.notFound path), drive)
      | some node =>
        if node.isDirectory then (.error (.refused .cannotOpenDirectory path), drive)
        else (addFile ⟨drive.keyOf path, ⟨node.bytes, 0⟩, false, false, false, false, false⟩).outcome
          drive := by
  rw [openForReading, Call.outcome_bind, Call.outcome_get]
  cases h : drive.tree.get? (drive.keyOf path) with
  | none => simp [node?, h]
  | some node =>
    simp only [node?, h]
    split_ifs <;> simp

theorem outcome_prepareForWriting (now : Int) (path : Text) (drive : Drive) :
    (prepareForWriting now path).outcome drive =
      match drive.tree.get? (drive.keyOf path) with
      | none =>
        let made := (create (drive.keyOf path) (.newFile now) path).outcome drive
        (made.1.map fun _ => [], made.2)
      | some node =>
        if node.isDirectory then (.error (.refused .cannotOpenDirectory path), drive)
        else if node.readOnly then (.error (.denied "File is read-only".toList path), drive)
        else (.ok node.bytes, drive) := by
  rw [prepareForWriting, Call.outcome_bind, Call.outcome_get]
  cases h : drive.tree.get? (drive.keyOf path) with
  | none => simp [node?, h]
  | some node =>
    simp only [node?, h]
    split_ifs <;> simp

theorem outcome_clear (now : Int) (key : Key) (drive : Drive) :
    (clear now key).outcome drive =
      (.ok (), match drive.tree.get? key with
        | none => drive
        | some node => { drive with tree := drive.tree.put key (node.written [] now) }) :=
  rfl

theorem outcome_file (index : Nat) (drive : Drive) :
    (file index).outcome drive =
      match drive.files[index]? with
      | some file => (.ok file, drive)
      | none => (.error closedFault, drive) := by
  rw [file, Call.outcome_bind, Call.outcome_get]
  cases h : drive.files[index]? <;> simp [h]

theorem outcome_openFile (index : Nat) (drive : Drive) :
    (openFile index).outcome drive =
      match drive.files[index]? with
      | some file => if file.closed then (.error closedFault, drive) else (.ok file, drive)
      | none => (.error closedFault, drive) := by
  rw [openFile, Call.outcome_bind, outcome_file]
  cases h : drive.files[index]? with
  | none => rfl
  | some file =>
    simp only
    split_ifs <;> simp

/-! Looking at an entry or at a handle changes nothing. -/

theorem listFiles_unchanged (path : Text) (drive : Drive) :
    ((listFiles path).outcome drive).2 = drive := by
  rw [outcome_listFiles]
  cases drive.tree.get? (drive.keyOf path) with
  | none => rfl
  | some node =>
    simp only
    split_ifs <;> rfl

theorem node_unchanged (path : Text) (drive : Drive) : ((node path).outcome drive).2 = drive := by
  rw [outcome_node]
  cases drive.tree.get? (drive.keyOf path) <;> rfl

theorem file_unchanged (index : Nat) (drive : Drive) : ((file index).outcome drive).2 = drive := by
  rw [outcome_file]
  cases drive.files[index]? <;> rfl

theorem openFile_unchanged (index : Nat) (drive : Drive) : ((openFile index).outcome drive).2 = drive := by
  rw [outcome_openFile]
  cases drive.files[index]? with
  | none => rfl
  | some file =>
    simp only
    split_ifs <;> rfl

theorem outcome_commit (now : Int) (key : Key) (bytes : Bytes) (drive : Drive) :
    (commit now key bytes).outcome drive =
      match drive.tree.get? key with
      | none => (.error (.notFound (drive.pathOf key)), drive)
      | some node =>
        if node.isDirectory then (.error (.refused .cannotOpenDirectory (drive.pathOf key)), drive)
        else (.ok (), { drive with tree := drive.tree.put key (node.written bytes now) }) := by
  rw [commit, Call.outcome_bind, Call.outcome_get]
  cases h : drive.tree.get? key with
  | none => simp [h]
  | some node =>
    simp only [h]
    split_ifs <;> simp [store]

/-! ### The drive that is left -/

/-- What never changes about a handle: the key it was opened on, and what it may do. -/
structure SameHandle (file file' : DriveFile) : Prop where
  key : file'.key = file.key
  canWrite : file'.canWrite = file.canWrite
  appends : file'.appends = file.appends
  isSync : file'.isSync = file.isSync

/-- A drive that calls may have led to from another one, by changes of its tree of a given sort. -/
structure Later (Change : Tree → Tree → Prop) (drive drive' : Drive) : Prop where
  scheme : drive'.scheme = drive.scheme
  tree : Relation.ReflTransGen Change drive.tree drive'.tree
  files : ∀ {index : Nat} {file : DriveFile}, drive.files[index]? = some file →
    ∃ file', drive'.files[index]? = some file' ∧ SameHandle file file'

theorem SameHandle.refl (file : DriveFile) : SameHandle file file := ⟨rfl, rfl, rfl, rfl⟩

theorem SameHandle.trans {a b c : DriveFile} (hab : SameHandle a b) (hbc : SameHandle b c) :
    SameHandle a c :=
  ⟨hbc.key.trans hab.key, hbc.canWrite.trans hab.canWrite, hbc.appends.trans hab.appends,
    hbc.isSync.trans hab.isSync⟩

section Later

variable {Change : Tree → Tree → Prop}

theorem Later.refl (drive : Drive) : Later Change drive drive :=
  ⟨rfl, .refl, fun {_ file} h => ⟨file, h, .refl file⟩⟩

theorem Later.trans {a b c : Drive} (hab : Later Change a b) (hbc : Later Change b c) :
    Later Change a c := by
  refine ⟨hbc.scheme.trans hab.scheme, hab.tree.trans hbc.tree, fun h => ?_⟩
  obtain ⟨file', h', hsame⟩ := hab.files h
  obtain ⟨file'', h'', hsame'⟩ := hbc.files h'
  exact ⟨file'', h'', hsame.trans hsame'⟩

/-- One change of the tree. -/
theorem Later.step {drive : Drive} {tree : Tree} (h : Change drive.tree tree) :
    Later Change drive { drive with tree } :=
  ⟨rfl, .single h, fun {_ file} hf => ⟨file, hf, .refl file⟩⟩

theorem Later.mono {Change' : Tree → Tree → Prop} (hle : ∀ {a b : Tree}, Change a b → Change' a b)
    {drive drive' : Drive} (h : Later Change drive drive') : Later Change' drive drive' :=
  ⟨h.scheme, Relation.ReflTransGen.mono (fun _ _ => hle) _ _ h.tree, h.files⟩

end Later

open FileRouter.Tree (Growth)

theorem later_addFile (file : DriveFile) (drive : Drive) :
    Later Growth drive ((addFile file).outcome drive).2 := by
  refine ⟨rfl, .refl, fun {index old} h => ⟨old, ?_, .refl old⟩⟩
  have hlt := (List.getElem?_eq_some_iff.mp h).1
  rw [outcome_addFile, List.getElem?_append_left hlt, h]

theorem later_changeFile (index : Nat) {f : DriveFile → DriveFile}
    (hf : ∀ file, SameHandle file (f file)) (drive : Drive) :
    Later Growth drive ((changeFile index f).outcome drive).2 := by
  refine ⟨rfl, .refl, fun {other old} h => ?_⟩
  change ∃ file', (drive.files.modify index f)[other]? = some file' ∧ _
  rw [List.getElem?_modify, h]
  by_cases he : index = other
  · exact ⟨f old, by simp [he], hf old⟩
  · exact ⟨old, by simp [he], .refl old⟩

theorem later_create {drive : Drive} {key : Key} (node : Node) (path : Text) (hk : key.Proper)
    (hg : drive.tree.get? key = none) (hb : node.bytes = []) :
    Later Growth drive ((create key node path).outcome drive).2 := by
  rw [outcome_create]
  cases hp : drive.parentFault? key path with
  | some failure => exact .refl drive
  | none => exact .step (.made hk hg (parentFault?_eq_none_iff.mp hp) hb)

theorem later_createDirectory (now : Int) (path : Text) (drive : Drive) :
    Later Growth drive ((createDirectory now path).outcome drive).2 := by
  rw [outcome_createDirectory]
  cases hg : drive.tree.get? (drive.keyOf path) with
  | none => exact later_create _ path (drive.keyOf_proper path) hg rfl
  | some node =>
    simp only
    split_ifs <;> exact .refl drive

theorem later_createFile (now : Int) (path : Text) (drive : Drive) :
    Later Growth drive ((createFile now path).outcome drive).2 := by
  rw [outcome_createFile]
  cases hg : drive.tree.get? (drive.keyOf path) with
  | some node => exact .refl drive
  | none => exact later_create _ path (drive.keyOf_proper path) hg rfl

theorem later_delete (path : Text) (drive : Drive) :
    Later Tree.Step drive ((delete path).outcome drive).2 := by
  rw [outcome_delete]
  cases hg : drive.tree.get? (drive.keyOf path) with
  | none => exact .refl drive
  | some node =>
    simp only
    split_ifs with hroot hro hempty
    · exact .refl drive
    · exact .refl drive
    · exact .refl drive
    · refine .step (.removed hg hroot (by simpa using hro) (fun hdir => ?_))
      simpa [hdir] using hempty

/-- A move that nothing speaks against leads outside of the source, into a directory, to a free place. -/
theorem moveFault?_eq_none {drive : Drive} {old new : Text} {replace : Bool}
    (h : drive.moveFault? old new replace = none) :
    drive.keyOf old ≠ [] ∧ (drive.keyOf new).isBelow (drive.keyOf old) = false ∧
      drive.tree.HasDirectory (drive.keyOf new).parent ∧
      ∀ {node : Node}, drive.tree.get? (drive.keyOf new) = some node →
        replace = true ∧ (node.isDirectory = true → drive.tree.isEmptyAt (drive.keyOf new) = true) := by
  -- the checks in their order, of which none has found a fault
  simp only [moveFault?] at h
  by_cases hroot : drive.keyOf old = []
  · simp [hroot] at h
  by_cases hbelow : (drive.keyOf new).isBelow (drive.keyOf old) = true
  · simp [hroot, hbelow] at h
  rw [if_neg hroot, if_neg hbelow] at h
  rw [Bool.not_eq_true] at hbelow
  cases hg : drive.tree.get? (drive.keyOf new) with
  | none =>
    rw [hg] at h
    exact ⟨hroot, hbelow, parentFault?_eq_none_iff.mp h, fun hn => by simp at hn⟩
  | some node =>
    rw [hg] at h
    simp only at h
    split_ifs at h with hrep hempty
    refine ⟨hroot, hbelow, parentFault?_eq_none_iff.mp h, fun hn => ?_⟩
    obtain rfl := Option.some.inj hn
    exact ⟨by simpa using hrep, fun hdir => by simpa [hdir] using hempty⟩

theorem later_move (old new : Text) (replace : Bool) (drive : Drive) :
    Later Tree.Step drive ((move old new replace).outcome drive).2 := by
  rw [outcome_move]
  cases hg : drive.tree.get? (drive.keyOf old) with
  | none => exact .refl drive
  | some node =>
    simp only
    split_ifs with hsame
    · exact .refl drive
    · cases hf : drive.moveFault? old new replace with
      | some failure => exact .refl drive
      | none =>
        -- one that is not refused is the step of a tree
        obtain ⟨hroot, hbelow, hparent, hfree⟩ := moveFault?_eq_none hf
        refine .step (.moved hg hroot (fun hp => ?_) (drive.keyOf_proper new) hparent
          (fun hn => (hfree hn).2))
        rw [← Bool.not_eq_true, Key.isBelow_iff] at hbelow
        exact hbelow ⟨hp, Ne.symm hsame⟩

theorem later_setReadOnly (path : Text) (drive : Drive) :
    Later Growth drive ((setReadOnly path).outcome drive).2 := by
  rw [outcome_setReadOnly]
  cases hg : drive.tree.get? (drive.keyOf path) with
  | none => exact .refl drive
  | some node => exact .step (.locked hg)

theorem later_openForReading (path : Text) (drive : Drive) :
    Later Growth drive ((openForReading path).outcome drive).2 := by
  rw [outcome_openForReading]
  cases hg : drive.tree.get? (drive.keyOf path) with
  | none => exact .refl drive
  | some node =>
    simp only
    split_ifs
    · exact .refl drive
    · exact later_addFile _ drive

theorem later_prepareForWriting (now : Int) (path : Text) (drive : Drive) :
    Later Growth drive ((prepareForWriting now path).outcome drive).2 := by
  rw [outcome_prepareForWriting]
  cases hg : drive.tree.get? (drive.keyOf path) with
  | none => exact later_create _ path (drive.keyOf_proper path) hg rfl
  | some node =>
    simp only
    split_ifs <;> exact .refl drive

/-- A file that has been prepared for writing is there, and it is not protected. -/
theorem file_of_prepareForWriting {now : Int} {path : Text} {drive drive' : Drive} {bytes : Bytes}
    (h : (prepareForWriting now path).outcome drive = (.ok bytes, drive')) :
    ∃ node, drive'.tree.get? (drive'.keyOf path) = some node ∧ node.isDirectory = false ∧
      node.readOnly = false := by
  rw [outcome_prepareForWriting] at h
  -- a file is made where nothing is, and one that is there is neither a directory nor protected
  cases hg : drive.tree.get? (drive.keyOf path) with
  | none =>
    rw [hg, outcome_create] at h
    simp only at h
    cases hp : drive.parentFault? (drive.keyOf path) path with
    | some failure => simp [hp, Except.map] at h
    | none =>
      simp only [hp, Except.map, Prod.mk.injEq, Except.ok.injEq] at h
      obtain ⟨-, rfl⟩ := h
      exact ⟨.newFile now, by rw [get?_put]; exact if_pos rfl, rfl, rfl⟩
  | some node =>
    rw [hg] at h
    simp only at h
    split_ifs at h with hdir hro
    all_goals simp only [Prod.mk.injEq, Except.ok.injEq, reduceCtorEq, false_and] at h
    obtain ⟨-, rfl⟩ := h
    exact ⟨node, hg, by simpa using hdir, by simpa using hro⟩

theorem later_clear (now : Int) {key : Key} {drive : Drive} {node : Node}
    (hg : drive.tree.get? key = some node) (hfile : node.isDirectory = false) :
    Later Growth drive ((clear now key).outcome drive).2 := by
  rw [outcome_clear, hg]
  exact .step (.written [] now hg hfile)

theorem later_openForUpdate (now : Int) (path : Text) (isSync : Bool) (drive : Drive) :
    Later Growth drive ((openForUpdate now path isSync).outcome drive).2 := by
  rw [openForUpdate]
  refine Call.rel_bind (R := Later Growth) Later.trans (later_prepareForWriting now path drive) fun _ => ?_
  exact Call.rel_bind (R := Later Growth) Later.trans (.refl _) fun _ => later_addFile _ _

theorem later_openOutput (now : Int) (path : Text) (append : Bool) (drive : Drive) :
    Later Growth drive ((openOutput now path append).outcome drive).2 := by
  rw [openOutput]
  refine Call.rel_bind (R := Later Growth) Later.trans (later_prepareForWriting now path drive) fun hp => ?_
  refine Call.rel_bind (R := Later Growth) Later.trans (.refl _) fun hget => ?_
  obtain ⟨node, hn, hfile, -⟩ := file_of_prepareForWriting hp
  simp only [Call.outcome_get, Prod.mk.injEq, Except.ok.injEq] at hget
  obtain ⟨rfl, rfl⟩ := hget
  split_ifs
  · exact later_addFile _ _
  · exact Call.rel_bind (R := Later Growth) Later.trans (later_clear now hn hfile) fun _ => later_addFile _ _

theorem later_openHandle (now : Int) (path mode : Text) (drive : Drive) :
    Later Growth drive ((openHandle now path mode).outcome drive).2 := by
  rw [openHandle]
  refine Call.rel_bind (R := Later Growth) Later.trans (.refl _) fun _ => ?_
  split_ifs
  · exact later_openForUpdate now path _ _
  · exact later_openForReading path _

theorem later_createTempWithin (limit : Nat) (now : Int) (start ending : Text)
    (s : Drive × TokenSource) :
    Later Growth s.1 ((createTempWithin limit now start ending).outcome s).2.1 := by
  obtain ⟨drive, tokens⟩ := s
  rw [createTempWithin, Call.outcome_bind, Call.outcome_get]
  simp only
  cases hs : tokens.search (fun token => drive.isUnused (drive.candidateText start ending token))
    limit with
  | mk token? rest =>
    cases token? with
    | none => exact .refl drive
    | some token =>
      simp only [Call.outcome_bind, Call.outcome_set]
      split_ifs with hout
      · exact .refl drive
      -- the candidate that the search has settled on is free
      · have hunused := TokenSource.search_fits hs
        rw [isUnused, Bool.or_eq_true, Bool.not_eq_true', has_eq_false_iff] at hunused
        have hfree := hunused.resolve_left hout
        have h := later_create (.newFile now) start (Key.ofText_proper _) hfree rfl
        revert h
        simp only [Call.outcome_bind, Call.outcome_within]
        rcases (create (Key.ofText (drive.candidateText start ending token)) (.newFile now) start).outcome
          drive with ⟨_ | _, _⟩ <;> exact id

@[simp] theorem outcome_plain {α : Type} (call : Call Drive α) (s : Drive × TokenSource) :
    (plain call).outcome s = ((call.outcome s.1).1, ((call.outcome s.1).2, s.2)) :=
  rfl

theorem later_listFiles (path : Text) (drive : Drive) :
    Later Growth drive ((listFiles path).outcome drive).2 := by
  rw [listFiles_unchanged]
  exact .refl drive

theorem later_node (path : Text) (drive : Drive) : Later Growth drive ((node path).outcome drive).2 := by
  rw [node_unchanged]
  exact .refl drive

/-- What a request can do to the tree: only deleting and moving take something away. -/
def changeOf : Request → Tree → Tree → Prop
  | .delete _ | .move _ _ _ => Tree.Step
  | _ => Growth

/-- Whatever is asked of a drive, the one that is left comes later. -/
theorem later_perform (now : Int) (request : Request) (s : Drive × TokenSource) :
    Later (changeOf request) s.1 ((perform now request).outcome s).2.1 := by
  cases request with
  | createDirectory path =>
    rw [perform, outcome_plain]
    exact later_createDirectory now path s.1
  | createFile path =>
    rw [perform, outcome_plain]
    exact later_createFile now path s.1
  | delete path =>
    rw [perform, outcome_plain]
    exact later_delete path s.1
  | move old new replace =>
    rw [perform, outcome_plain]
    exact later_move old new replace s.1
  | listFiles path =>
    rw [perform, outcome_plain]
    exact later_listFiles path s.1
  | lastModified path =>
    rw [perform, outcome_plain, Call.outcome_map]
    exact later_node path s.1
  | size path =>
    rw [perform, outcome_plain, Call.outcome_map]
    exact later_node path s.1
  | openHandle path mode =>
    rw [perform, outcome_plain]
    exact later_openHandle now path mode s.1
  | openInput path =>
    rw [perform, outcome_plain]
    exact later_openForReading path s.1
  | openOutput path append =>
    rw [perform, outcome_plain]
    exact later_openOutput now path append s.1
  | setReadOnly path =>
    rw [perform, outcome_plain]
    exact later_setReadOnly path s.1
  | createTemp start ending deleteOnExit inTempDir =>
    rw [perform, createTemp, Call.outcome_bind, Call.outcome_get]
    exact later_createTempWithin _ now start ending s
  -- the other requests only look
  | «exists» | canonicalPath | parent | isAbsolute | name | isDirectory | canWrite | isReadOnly | unwrap | startsWith =>
    exact .refl _

/-! ### Handles -/

theorem later_file (index : Nat) (drive : Drive) : Later Growth drive ((file index).outcome drive).2 := by
  rw [file_unchanged]
  exact .refl drive

theorem later_openFile (index : Nat) (drive : Drive) :
    Later Growth drive ((openFile index).outcome drive).2 := by
  rw [openFile_unchanged]
  exact .refl drive

theorem later_commit (now : Int) (key : Key) (bytes : Bytes) (drive : Drive) :
    Later Growth drive ((commit now key bytes).outcome drive).2 := by
  rw [outcome_commit]
  cases hg : drive.tree.get? key with
  | none => exact .refl drive
  | some node =>
    simp only
    split_ifs with hdir
    · exact .refl drive
    · exact .step (.written bytes now hg (by simpa using hdir))

theorem later_flush (now : Int) (index : Nat) (drive : Drive) :
    Later Growth drive ((flush now index).outcome drive).2 := by
  rw [flush]
  refine Call.rel_bind (R := Later Growth) Later.trans (later_openFile index drive) fun _ => ?_
  split_ifs
  · refine Call.rel_bind (R := Later Growth) Later.trans ?_ fun _ => later_commit now _ _ _
    exact later_changeFile index (fun _ => by exact ⟨rfl, rfl, rfl, rfl⟩) _
  · exact .refl _

theorem later_accept (now : Int) (index : Nat) (cursor : Cursor) (drive : Drive) :
    Later Growth drive ((accept now index cursor).outcome drive).2 := by
  rw [accept]
  refine Call.rel_bind (R := Later Growth) Later.trans
    (later_changeFile index (fun _ => by exact ⟨rfl, rfl, rfl, rfl⟩) drive) fun _ => ?_
  refine Call.rel_bind (R := Later Growth) Later.trans (later_file index _) fun _ => ?_
  split_ifs
  · exact later_flush now index _
  · exact .refl _

theorem later_write (now : Int) (index : Nat) (data : Bytes) (drive : Drive) :
    Later Growth drive ((write now index data).outcome drive).2 := by
  rw [write]
  refine Call.rel_bind (R := Later Growth) Later.trans (later_file index drive) fun _ => ?_
  split_ifs
  · exact .refl _
  · refine Call.rel_bind (R := Later Growth) Later.trans (later_openFile index _) fun _ => ?_
    exact Call.rel_bind (R := Later Growth) Later.trans (later_accept now index _ _) fun _ => .refl _

theorem later_truncate (now : Int) (index : Nat) (size : Option Int) (drive : Drive) :
    Later Growth drive ((truncate now index size).outcome drive).2 := by
  rw [truncate]
  refine Call.rel_bind (R := Later Growth) Later.trans (later_file index drive) fun _ => ?_
  split_ifs
  · exact .refl _
  · refine Call.rel_bind (R := Later Growth) Later.trans (later_openFile index _) fun _ => ?_
    refine Call.rel_bind (R := Later Growth) Later.trans (.refl _) fun _ => ?_
    exact Call.rel_bind (R := Later Growth) Later.trans (later_accept now index _ _) fun _ => .refl _

theorem later_close (now : Int) (index : Nat) (drive : Drive) :
    Later Growth drive ((close now index).outcome drive).2 := by
  rw [close]
  refine Call.rel_bind (R := Later Growth) Later.trans (later_file index drive) fun _ => ?_
  split_ifs
  · exact .refl _
  · rw [Call.outcome_ensuring]
    exact (later_flush now index _).trans
      (later_changeFile index (fun _ => by exact ⟨rfl, rfl, rfl, rfl⟩) _)

theorem later_take {α : Type} (index : Nat) (f : Cursor → α × Cursor) (drive : Drive) :
    Later Growth drive ((take index f).outcome drive).2 := by
  rw [take]
  refine Call.rel_bind (R := Later Growth) Later.trans (later_openFile index drive) fun _ => ?_
  exact Call.rel_bind (R := Later Growth) Later.trans
    (later_changeFile index (fun _ => by exact ⟨rfl, rfl, rfl, rfl⟩) _) fun _ => .refl _

theorem later_takeCounted {α : Type} (index : Nat) (count : Option Int) (f : Option Count → Cursor → α × Cursor)
    (drive : Drive) : Later Growth drive ((takeCounted index count f).outcome drive).2 :=
  Call.inv_ofExcept (.refl drive) fun {n} _ => later_take index (f n) drive

theorem later_seek (index : Nat) (offset whence : Int) (drive : Drive) :
    Later Growth drive ((seek index offset whence).outcome drive).2 := by
  rw [seek]
  refine Call.rel_bind (R := Later Growth) Later.trans (later_openFile index drive) fun _ => ?_
  refine Call.rel_bind (R := Later Growth) Later.trans (.refl _) fun _ => ?_
  exact Call.rel_bind (R := Later Growth) Later.trans
    (later_changeFile index (fun _ => by exact ⟨rfl, rfl, rfl, rfl⟩) _) fun _ => .refl _

/-- Whatever is asked of a handle, the drive that is left comes later. -/
theorem later_onFile (now : Int) (index : Nat) (request : StreamRequest) (drive : Drive) :
    Later Growth drive ((onFile now index request).outcome drive).2 := by
  cases request <;> rw [onFile]
  case read count => exact later_takeCounted index count Cursor.read drive
  case readLine limit => exact later_takeCounted index limit Cursor.readLine drive
  case readLines => exact later_take index Cursor.readLines drive
  case write data => exact later_write now index data drive
  case seek offset whence => exact later_seek index offset whence drive
  case truncate size => exact later_truncate now index size drive
  case flush => exact later_flush now index drive
  case close => exact later_close now index drive
  case tell | readable | seekable =>
    rw [Call.outcome_map]
    exact later_openFile index drive
  case closed =>
    rw [Call.outcome_map]
    exact later_file index drive
  case writable =>
    refine Call.rel_bind (R := Later Growth) Later.trans (later_file index drive) fun _ => ?_
    split_ifs
    · rw [Call.outcome_map]
      exact later_openFile index _
    · exact .refl _

end Drive

end FileRouter
