import FileRouter.Proofs.Memory.Handle
import FileRouter.Proofs.Memory.Run
/-!
Handles whose file has been taken away.

A handle remembers its file by key only. As long as nothing is taken away from that key its file is there
(`hasFile_run`). Once it has been taken away, the handle is `Stale`, and what it still has to store goes to
whatever file is at the key by then: the request that stores it fails, and changes nothing, exactly when no
file is there (`stale_commit_iff`).
-/

namespace FileRouter

/-- What a request would store through an open handle: the buffer if it holds changes, when the handle is
flushed or closed, and the changed buffer in a synchronous mode. -/
def DriveFile.pending (file : DriveFile) : StreamRequest → Option Bytes
  | .flush | .close => if !file.closed && file.dirty then some file.cursor.bytes else none
  | .write data =>
    if file.canWrite && !file.closed && file.isSync then
      some ((if file.appends then file.cursor.toEnd else file.cursor).write data).bytes
    else none
  | .truncate size =>
    if file.canWrite && !file.closed && file.isSync then
      match file.cursor.truncate size with
      | .ok (_, cursor) => some cursor.bytes
      | .error _ => none
    else none
  | _ => none

namespace Drive

open KeyMap

/-! ### Taking a file away -/

/-- The action ends well and takes away what is at a key: it deletes it, carries it off, or puts something
else in its place. -/
def Takes (s : Drive × TokenSource) (action : Action) (key : Key) : Prop :=
  match action with
  | .ask _ (.delete path) => ((delete path).outcome s.1).1 = .ok () ∧ s.1.keyOf path = key
  | .ask _ (.move old new replace) =>
    ((move old new replace).outcome s.1).1 = .ok () ∧ s.1.keyOf old ≠ s.1.keyOf new ∧
      (s.1.keyOf old <+: key ∨ s.1.keyOf new = key)
  | _ => False

theorem hasFile_delete {path : Text} {drive : Drive} {key : Key} (h : drive.tree.HasFile key)
    (hkeep : ¬ (((delete path).outcome drive).1 = .ok () ∧ drive.keyOf path = key)) :
    ((delete path).outcome drive).2.tree.HasFile key := by
  rw [outcome_delete] at hkeep ⊢
  cases hg : drive.tree.get? (drive.keyOf path) with
  | none => exact h
  | some old =>
    rw [hg] at hkeep
    simp only at hkeep ⊢
    split_ifs at hkeep ⊢
    · exact h
    · exact h
    · exact h
    · obtain ⟨node, hn, hfile⟩ := h
      have hne : key ≠ drive.keyOf path := fun he => hkeep ⟨rfl, he.symm⟩
      exact ⟨node, by rw [get?_erase, if_neg hne, hn], hfile⟩

/-- A move that neither carries an entry off nor puts another in its place leaves it as it is. -/
theorem get?_move_of_spared {old new : Text} {replace : Bool} {drive : Drive} {key : Key} {node : Node}
    (hw : drive.tree.WellFormed) (h : drive.tree.get? key = some node)
    (hkeep : ¬ (((move old new replace).outcome drive).1 = .ok () ∧ drive.keyOf old ≠ drive.keyOf new ∧
      (drive.keyOf old <+: key ∨ drive.keyOf new = key))) :
    ((move old new replace).outcome drive).2.tree.get? key = some node := by
  rw [outcome_move] at hkeep ⊢
  cases hg : drive.tree.get? (drive.keyOf old) with
  | none => exact h
  | some source =>
    rw [hg] at hkeep
    simp only at hkeep ⊢
    split_ifs at hkeep ⊢ with hsame
    · exact h
    · cases hf : drive.moveFault? old new replace with
      | some failure => exact h
      | none =>
        rw [hf] at hkeep
        obtain ⟨-, -, -, hfree⟩ := moveFault?_eq_none hf
        -- a free target is bare, so of what is at or below it only the target itself can be there
        have hbare : BareAt drive.tree (drive.keyOf new) := hw.rooted.bareAt fun hn => (hfree hn).2
        have hs : ¬ drive.keyOf old <+: key := fun hp => hkeep ⟨rfl, hsame, Or.inl hp⟩
        have ht : ¬ drive.keyOf new <+: key := by
          intro hp
          rw [hbare key hp (fun he => hkeep ⟨rfl, hsame, Or.inr he.symm⟩)] at h
          simp at h
        rw [← List.isPrefixOf_iff_prefix] at hs ht
        rw [get?_rename hw.distinct hbare, if_neg ht, if_neg hs, h]

theorem hasFile_move {old new : Text} {replace : Bool} {drive : Drive} {key : Key}
    (hw : drive.tree.WellFormed) (h : drive.tree.HasFile key)
    (hkeep : ¬ (((move old new replace).outcome drive).1 = .ok () ∧ drive.keyOf old ≠ drive.keyOf new ∧
      (drive.keyOf old <+: key ∨ drive.keyOf new = key))) :
    ((move old new replace).outcome drive).2.tree.HasFile key := by
  obtain ⟨node, hn, hfile⟩ := h
  exact ⟨node, get?_move_of_spared hw hn hkeep, hfile⟩

/-- A file that an action does not take away is still there. -/
theorem hasFile_act {s : Drive × TokenSource} {action : Action} {key : Key}
    (hw : s.1.tree.WellFormed) (h : s.1.tree.HasFile key) (hkeep : ¬ Takes s action key) :
    (act s action).1.tree.HasFile key := by
  cases action with
  | search limit now start ending =>
    exact Tree.hasFile_of_growths (later_createTempWithin limit now start ending s).tree h
  | use now index request =>
    exact Tree.hasFile_of_growths (later_onFile now index request s.1).tree h
  | ask now request =>
    have hlater := later_perform now request s
    -- only a deletion and a move take anything away; the rest lets the tree grow
    cases request with
    | delete path =>
      rw [act, perform, outcome_plain]
      exact hasFile_delete h hkeep
    | move old new replace =>
      rw [act, perform, outcome_plain]
      exact hasFile_move hw h hkeep
    | _ => exact Tree.hasFile_of_growths hlater.tree h

/-- A file stays where it is for as long as no action takes it away. -/
theorem hasFile_run {s : Drive × TokenSource} {actions : List Action} {key : Key}
    (hw : s.1.tree.WellFormed) (h : s.1.tree.HasFile key)
    (hkeep : ∀ before action after, actions = before ++ action :: after →
      ¬ Takes (run s before) action key) :
    (run s actions).1.tree.HasFile key := by
  induction actions generalizing s with
  | nil => exact h
  | cons action actions ih =>
    have hw' := Tree.wellFormed_of_steps (later_act s action).tree hw
    have h' : (act s action).1.tree.HasFile key := hasFile_act hw h (hkeep [] action actions rfl)
    refine ih hw' h' fun before other after he => ?_
    exact hkeep (action :: before) other after (by rw [he, List.cons_append])

/-! ### Storing -/

/-- What a commit does depends on the tree and the scheme of the drive alone. -/
theorem outcome_commit_files (now : Int) (key : Key) (bytes : Bytes) (drive : Drive)
    (files : List DriveFile) :
    (commit now key bytes).outcome { drive with files } =
      (((commit now key bytes).outcome drive).1,
        { ((commit now key bytes).outcome drive).2 with files }) := by
  rw [outcome_commit, outcome_commit]
  cases hg : drive.tree.get? key with
  | none => rfl
  | some node =>
    simp only
    split_ifs <;> rfl

theorem eq_error_of_map {α : Type} {result : Except Failure α} {failure : Failure}
    (h : result.map (fun _ => ()) = .error failure) : result = .error failure := by
  cases result with
  | error other => exact congrArg Except.error (Except.error.inj h)
  | ok answer => simp [Except.map] at h

theorem eq_ok_of_map {α : Type} {result : Except Failure α}
    (h : result.map (fun _ => ()) = .ok ()) : ∃ answer, result = .ok answer := by
  cases result with
  | error failure => simp [Except.map] at h
  | ok answer => exact ⟨answer, rfl⟩

/-- A call ends like another one that answers nothing: with its failure, if it fails, and with its
tree. -/
structure EndsLike {α : Type} (outcome : Except Failure α × Drive) (other : Except Failure Unit × Drive) :
    Prop where
  result : outcome.1.map (fun _ => ()) = other.1
  tree : outcome.2.tree = other.2.tree

theorem EndsLike.bind_pure {α : Type} {call : Call Drive Unit} {drive : Drive}
    {other : Except Failure Unit × Drive} (h : EndsLike (call.outcome drive) other) (answer : α) :
    EndsLike ((call >>= fun _ => pure answer).outcome drive) other := by
  obtain ⟨hresult, htree⟩ := h
  rw [Call.outcome_bind]
  rcases hc : call.outcome drive with ⟨_ | _, drive'⟩
  all_goals
    rw [hc] at hresult htree
    exact ⟨hresult, htree⟩

variable (now : Int) {index : Nat} {drive : Drive} {file : DriveFile}

/-- Flushing a handle that holds changes ends like a commit of its buffer. -/
theorem endsLike_flush (h : drive.files[index]? = some file) (hopen : file.closed = false)
    (hdirty : file.dirty = true) :
    EndsLike ((flush now index).outcome drive)
      ((commit now file.key file.cursor.bytes).outcome drive) := by
  rw [outcome_flush_dirty now h hopen hdirty, outcome_commit_files]
  refine ⟨?_, rfl⟩
  rcases ((commit now file.key file.cursor.bytes).outcome drive).1 with _ | _ <;> rfl

/-- In a synchronous mode, taking in a changed buffer ends like a commit of it. -/
theorem endsLike_accept (cursor : Cursor) (h : drive.files[index]? = some file)
    (hopen : file.closed = false) (hsync : file.isSync = true) :
    EndsLike ((accept now index cursor).outcome drive)
      ((commit now file.key cursor.bytes).outcome drive) := by
  let files := drive.files.set index { file with cursor, dirty := true }
  have hget : ({ drive with files } : Drive).files[index]? = some { file with cursor, dirty := true } :=
    List.getElem?_set_self (List.getElem?_eq_some_iff.mp h).1
  have hends := endsLike_flush now hget hopen rfl
  rw [outcome_commit_files] at hends
  rw [outcome_accept_of_found now h, if_pos hsync]
  exact ⟨hends.result, hends.tree⟩

/-- A request that has something to store ends like the commit of it. -/
theorem endsLike_commit {request : StreamRequest} {bytes : Bytes} (h : drive.files[index]? = some file)
    (hp : file.pending request = some bytes) :
    EndsLike ((onFile now index request).outcome drive)
      ((commit now file.key bytes).outcome drive) := by
  cases request with
  | flush =>
    simp only [DriveFile.pending, Bool.and_eq_true, Bool.not_eq_true', Option.ite_none_right_eq_some,
      Option.some.injEq] at hp
    obtain ⟨⟨hopen, hdirty⟩, rfl⟩ := hp
    rw [onFile]
    exact endsLike_flush now h hopen hdirty
  | close =>
    simp only [DriveFile.pending, Bool.and_eq_true, Bool.not_eq_true', Option.ite_none_right_eq_some,
      Option.some.injEq] at hp
    obtain ⟨⟨hopen, hdirty⟩, rfl⟩ := hp
    rw [onFile, outcome_close_of_found now h, if_neg (by simp [hopen]), Call.outcome_ensuring]
    have hends := endsLike_flush now h hopen hdirty
    exact ⟨hends.result, hends.tree⟩
  | write data =>
    simp only [DriveFile.pending, Bool.and_eq_true, Bool.not_eq_true', Option.ite_none_right_eq_some,
      Option.some.injEq] at hp
    obtain ⟨⟨⟨hwrite, hopen⟩, hsync⟩, rfl⟩ := hp
    rw [onFile, outcome_write_of_found now h, if_pos hwrite, if_neg (by simp [hopen])]
    exact (endsLike_accept now _ h hopen hsync).bind_pure _
  | truncate size =>
    simp only [DriveFile.pending, Bool.and_eq_true, Bool.not_eq_true',
      Option.ite_none_right_eq_some] at hp
    obtain ⟨⟨⟨hwrite, hopen⟩, hsync⟩, hp⟩ := hp
    cases ht : file.cursor.truncate size with
    | error failure => simp [ht] at hp
    | ok cut =>
      obtain ⟨answer, cursor⟩ := cut
      rw [ht] at hp
      obtain rfl : cursor.bytes = bytes := Option.some.inj hp
      rw [onFile, outcome_truncate_of_found now h, if_pos hwrite, if_neg (by simp [hopen]), ht]
      exact (endsLike_accept now _ h hopen hsync).bind_pure _
  -- no other request has anything to store
  | _ => simp [DriveFile.pending] at hp

/-! ### Stale handles -/

/-- A writable handle, by its index and the key it was opened on, whose file has been taken away since: the
drive has been reached by a run in which one action opens the handle and a later one takes away what is at
its key. -/
inductive Stale : Drive → Nat → Key → Prop
  | intro {s : Drive × TokenSource} {opening taking : Action} {between after : List Action}
      {file : DriveFile} : Reached s.1 → (act s opening).1.files = s.1.files ++ [file] →
      file.canWrite = true → Takes (run (act s opening) between) taking file.key →
      Stale (run (act s opening) (between ++ taking :: after)).1 s.1.files.length file.key

/-- The outcome of a call that could not store anything at a key: it fails since nothing or a directory is
there, and changes no entry. -/
structure Refused {α : Type} (drive : Drive) (key : Key) (outcome : Except Failure α × Drive) : Prop where
  failure : outcome.1 = .error (.notFound (drive.pathOf key)) ∨
    outcome.1 = .error (.refused .cannotOpenDirectory (drive.pathOf key))
  tree : outcome.2.tree = drive.tree

/-- A stale handle is still there, on the key it was opened on. -/
theorem Stale.handle {key : Key} (h : Stale drive index key) :
    ∃ file, drive.files[index]? = some file ∧ file.key = key ∧ file.canWrite = true := by
  obtain @⟨s, opening, taking, between, after, file, -, hopen, hwrite, -⟩ := h
  have hfirst : (act s opening).1.files[s.1.files.length]? = some file := by
    rw [hopen, List.getElem?_concat_length]
  obtain ⟨file', hlast, hsame⟩ :=
    (later_run (act s opening) (between ++ taking :: after)).files hfirst
  exact ⟨file', hlast, hsame.key, hsame.canWrite.trans hwrite⟩

/-- **What a stale handle stores.** A request that has something to store through a stale handle is refused,
and changes no entry, exactly when no file is at the key of the handle; and otherwise it ends well and puts
the content of the handle in place of that of the file. -/
theorem stale_commit_iff {key : Key} (h : Stale drive index key) :
    ∃ file, drive.files[index]? = some file ∧ file.canWrite = true ∧
      ∀ {request : StreamRequest} {bytes : Bytes}, file.pending request = some bytes →
        (Refused drive key ((onFile now index request).outcome drive) ↔ ¬ drive.tree.HasFile key) ∧
        ∀ {node : Node}, drive.tree.get? key = some node → node.isDirectory = false →
          (∃ answer, ((onFile now index request).outcome drive).1 = .ok answer) ∧
            ((onFile now index request).outcome drive).2.tree =
              drive.tree.put key (node.written bytes now) := by
  obtain ⟨file, hfile, rfl, hwrite⟩ := h.handle
  refine ⟨file, hfile, hwrite, fun {request bytes} hp => ?_⟩
  -- so far for the handle: from here on it is about the commit and what is at the key
  obtain ⟨hresult, htree⟩ := endsLike_commit now hfile hp
  rw [outcome_commit] at hresult htree
  cases hg : drive.tree.get? file.key with
  | none =>
    rw [hg] at hresult htree
    have hno : ¬ drive.tree.HasFile file.key := by
      rintro ⟨node, hn, -⟩
      simp [hg] at hn
    refine ⟨⟨fun _ => hno, fun _ => ⟨Or.inl ?_, htree⟩⟩, fun hn => by simp at hn⟩
    exact eq_error_of_map hresult
  | some node =>
    rw [hg] at hresult htree
    by_cases hdir : node.isDirectory = true
    · simp only [hdir, if_true] at hresult htree
      have hno : ¬ drive.tree.HasFile file.key := by
        rintro ⟨other, ho, hfile⟩
        obtain rfl := Option.some.inj (hg.symm.trans ho)
        simp [hdir] at hfile
      refine ⟨⟨fun _ => hno, fun _ => ⟨Or.inr ?_, htree⟩⟩, fun hn hfile => ?_⟩
      · exact eq_error_of_map hresult
      · obtain rfl := Option.some.inj hn
        simp [hdir] at hfile
    · rw [Bool.not_eq_true] at hdir
      simp only [hdir, Bool.false_eq_true, if_false] at hresult htree
      have hok : ∃ answer, ((onFile now index request).outcome drive).1 = .ok answer :=
        eq_ok_of_map hresult
      refine ⟨⟨fun hr => ?_, fun hno => absurd ⟨node, hg, hdir⟩ hno⟩, fun hn _ => ?_⟩
      · obtain ⟨answer, ha⟩ := hok
        rcases hr.failure with hf | hf
        all_goals simp [ha] at hf
      · obtain rfl := Option.some.inj hn
        exact ⟨hok, htree⟩

/-- A drive on which a file has been opened and written, then deleted and made anew. -/
def remade : Drive :=
  (run (.fresh "mem".toList 0, .counting [])
    [.ask 0 (.openOutput "mem:/a".toList false), .use 0 0 (.write [120]), .ask 0 (.delete "mem:/a".toList),
      .ask 0 (.createFile "mem:/a".toList)]).1

/-- The handle on it. -/
def lateHandle : DriveFile := ⟨[['a']], ⟨[120], 1⟩, true, false, false, true, false⟩

theorem stale_remade : Stale remade 0 [['a']] := by
  have h := @Stale.intro (.fresh "mem".toList 0, .counting [])
    (.ask 0 (.openOutput "mem:/a".toList false)) (.ask 0 (.delete "mem:/a".toList))
    [.use 0 0 (.write [120])] [.ask 0 (.createFile "mem:/a".toList)]
    ⟨[['a']], ⟨[], 0⟩, true, false, false, false, false⟩ ⟨"mem".toList, 0, .counting [], [], rfl⟩
    (by decide) rfl ⟨by rfl, by decide⟩
  exact h

theorem files_remade : remade.files[0]? = some lateHandle := by decide

theorem pending_lateHandle : lateHandle.pending .close = some [120] := rfl

/-- The content of the handle lands in the file that was made anew. -/
theorem stale_commit_remade :
    Stale remade 0 [['a']] ∧ remade.files[0]? = some lateHandle ∧ lateHandle.pending .close = some [120] ∧
      ¬ Refused remade [['a']] ((onFile 5 0 .close).outcome remade) ∧
      ((onFile 5 0 .close).outcome remade).2.tree =
        remade.tree.put [['a']] ((Node.newFile 0).written [120] 5) := by
  obtain ⟨file, hfile, -, hstored⟩ := stale_commit_iff 5 stale_remade
  obtain rfl := Option.some.inj (files_remade.symm.trans hfile)
  have hthere : remade.tree.get? [['a']] = some (Node.newFile 0) := by decide
  obtain ⟨hiff, hput⟩ := hstored pending_lateHandle
  exact ⟨stale_remade, files_remade, pending_lateHandle, fun hr => hiff.mp hr ⟨_, hthere, rfl⟩,
    (hput hthere rfl).2⟩

/-- Not every stale handle is refused. -/
theorem not_forall_stale_refused :
    ¬ ∀ {drive : Drive} {index : Nat} {key : Key} {file : DriveFile} {now : Int}
      {request : StreamRequest} {bytes : Bytes}, Stale drive index key →
        drive.files[index]? = some file → file.pending request = some bytes →
        Refused drive key ((onFile now index request).outcome drive) := by
  intro h
  have hrefused : Refused remade [['a']] ((onFile 5 0 .close).outcome remade) :=
    h stale_remade files_remade pending_lateHandle
  have hmade : ((onFile 5 0 .close).outcome remade).1 = .ok () := rfl
  rcases hrefused.failure with hf | hf
  all_goals simp [hmade] at hf

end Drive

end FileRouter
