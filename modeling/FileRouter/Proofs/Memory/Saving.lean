import FileRouter.Proofs.Memory.Bookkeeping
import FileRouter.Proofs.Memory.Protected
/-!
Changes that are made through handles.

In a run from a fresh drive a handle has changes to store exactly as long as a write or a truncation that it has
accepted has not been settled: it has neither been flushed nor closed since, and it does not store its changes at
once (`hasChanges_run`). So no accepted change is lost silently. By the time the handle is closed, a request has
stored the whole buffer, or a request that could have stored it has failed. And a handle that has nothing unsettled
leaves the tree alone, whatever has happened to it since (`saved_run`).
-/

namespace FileRouter

/-- The requests that may store the buffer of a handle. -/
def StreamRequest.MayStore : StreamRequest → Prop
  | .write _ | .truncate _ | .flush | .close => True
  | _ => False

namespace Drive

open KeyMap Call

/-- The action is a write or a truncation that the handle with an index accepts. -/
def Accepts (s : Drive × TokenSource) (index : Nat) : Action → Prop
  | .use _ other request =>
    other = index ∧ ∃ file, s.1.files[index]? = some file ∧ (file.accepted? request).isSome = true
  | _ => False

/-- The action leaves the handle with an index without changes to store, whether it could store them or not. -/
def Settles (s : Drive × TokenSource) (index : Nat) : Action → Prop
  | .use _ other request =>
    other = index ∧ ∃ file, s.1.files[index]? = some file ∧ file.settles request = true
  | _ => False

/-- Some write or truncation that the handle with an index has accepted in the course of a run has not been
settled, neither at once nor later. -/
def Unsettled (s : Drive × TokenSource) (actions : List Action) (index : Nat) : Prop :=
  ∃ before action after, actions = before ++ action :: after ∧ Accepts (run s before) index action ∧
    ∀ mid later rest, action :: after = mid ++ later :: rest → ¬ Settles (run s (before ++ mid)) index later

/-- A request to a handle ends well and puts the whole buffer that it leaves in the handle in place of the content
of the file at the key of the handle. -/
def Commits (drive : Drive) (now : Int) (index : Nat) (request : StreamRequest) : Prop :=
  ∃ answer drive' file node, (onFile now index request).outcome drive = (.ok answer, drive') ∧
    drive'.files[index]? = some file ∧ drive.tree.get? file.key = some node ∧ node.isDirectory = false ∧
    drive'.tree = drive.tree.put file.key (node.written file.cursor.bytes now)

/-- A request to a handle fails. -/
def Raises (drive : Drive) (now : Int) (index : Nat) (request : StreamRequest) : Prop :=
  ∃ failure, ((onFile now index request).outcome drive).1 = .error failure

/-- The handle with an index has changes to store. -/
def HasChanges (drive : Drive) (index : Nat) : Prop :=
  ∃ file, drive.files[index]? = some file ∧ file.dirty = true

/-- No closed handle has changes to store. -/
def Tidy (drive : Drive) : Prop :=
  ∀ (index : Nat) (file : DriveFile), drive.files[index]? = some file → file.closed = true → file.dirty = false

variable {s : Drive × TokenSource} {action : Action} {actions : List Action} {index : Nat}

/-! ### One action -/

theorem hasChanges_of_grown {drive drive' : Drive} (h : Grown drive.files drive') :
    HasChanges drive' index ↔ HasChanges drive index := by
  constructor
  · rintro ⟨file, hf, hdirty⟩
    cases hold : drive.files[index]? with
    | none => simp [(h.clean hold hf).1] at hdirty
    | some old =>
      obtain rfl := Option.some.inj ((h.getElem? hold).symm.trans hf)
      exact ⟨old, hold, hdirty⟩
  · rintro ⟨file, hf, hdirty⟩
    exact ⟨file, h.getElem? hf, hdirty⟩

theorem tidy_of_nil {drive : Drive} (h : drive.files = []) : Tidy drive := by
  intro index file hf
  simp [h] at hf

theorem Tidy.of_grown {drive drive' : Drive} (htidy : Tidy drive) (h : Grown drive.files drive') :
    Tidy drive' := by
  intro index file hf hclosed
  cases hold : drive.files[index]? with
  | none => exact (h.clean hold hf).1
  | some old =>
    obtain rfl := Option.some.inj ((h.getElem? hold).symm.trans hf)
    exact htidy index old hold hclosed

/-- What an action that is no request to a handle leaves of the handles. -/
theorem grown_act (hpath : ∀ now index request, action ≠ .use now index request) :
    Grown s.1.files (act s action).1 := by
  cases action with
  | ask now request => exact grown_perform now request s
  | search limit now start ending =>
    exact (grown_self s.1).of_files (files_createTempWithin limit now start ending s)
  | use now index request => exact absurd rfl (hpath now index request)

/-- The handles after a request to one of them. -/
theorem files_use (now : Int) (index : Nat) (request : StreamRequest) (s : Drive × TokenSource) (other : Nat) :
    (act s (.use now index request)).1.files[other]? =
      if other = index then (s.1.files[index]?).map fun file => file.after request else s.1.files[other]? := by
  show ((onFile now index request).outcome s.1).2.files[other]? = _
  -- a handle that is not there refuses, and nothing changes
  cases hf : s.1.files[index]? with
  | none =>
    obtain ⟨failure, hfails⟩ := outcome_onFile_of_missing now hf request
    rw [hfails]
    by_cases he : other = index
    · rw [if_pos he, he, hf]
      rfl
    · rw [if_neg he]
  | some file =>
    rw [files_onFile now hf]
    by_cases he : other = index
    · rw [if_pos he, he, List.getElem?_set_self (List.getElem?_eq_some_iff.mp hf).1]
      rfl
    · rw [if_neg he, List.getElem?_set_ne (Ne.symm he)]

theorem Tidy.act (h : Tidy s.1) (action : Action) : Tidy (act s action).1 := by
  by_cases hpath : ∀ now index request, action ≠ .use now index request
  · exact h.of_grown (grown_act hpath)
  · simp only [ne_eq, not_forall, not_not] at hpath
    obtain ⟨now, index, request, rfl⟩ := hpath
    intro other file hf hclosed
    rw [files_use] at hf
    split_ifs at hf
    · obtain ⟨old, hold, rfl⟩ := Option.map_eq_some_iff.mp hf
      exact old.clean_after (h index old hold) hclosed
    · exact h other file hf hclosed

theorem Tidy.run (h : Tidy s.1) (actions : List Action) : Tidy (run s actions).1 := by
  induction actions generalizing s with
  | nil => exact h
  | cons action actions ih => exact ih (h.act action)

/-- **What one action does about changes**: a handle has changes to store after an action that does not settle it,
if it had some before or accepts one. -/
theorem hasChanges_act (h : Tidy s.1) :
    HasChanges (act s action).1 index ↔
      ¬ Settles s index action ∧ (HasChanges s.1 index ∨ Accepts s index action) := by
  cases action with
  | ask | search =>
    rw [hasChanges_of_grown (grown_act (by simp))]
    simp [Settles, Accepts]
  | use now other request =>
    by_cases he : other = index
    · subst he
      cases hf : s.1.files[other]? with
      | none => simp [HasChanges, files_use, Settles, Accepts, hf]
      | some file =>
        have hdirty := @DriveFile.dirty_after file request (h other file hf)
        simpa [HasChanges, files_use, Settles, Accepts, hf] using hdirty
    · simp [HasChanges, files_use, Settles, Accepts, he, Ne.symm he]

/-! ### Runs -/

theorem run_append (s : Drive × TokenSource) (before after : List Action) :
    run s (before ++ after) = run (run s before) after :=
  List.foldl_append

/-- A place in a run that is one action longer is the last one or a place in the shorter run. -/
theorem concat_eq_append_cons {before after : List Action} {other : Action} :
    actions ++ [action] = before ++ other :: after ↔
      (before = actions ∧ other = action ∧ after = []) ∨
        ∃ rest, after = rest ++ [action] ∧ actions = before ++ other :: rest := by
  -- the last action is the one that splits the run, or it is the last of those behind it
  induction after using List.reverseRecOn with
  | nil =>
    constructor
    · intro h
      obtain ⟨rfl, hlast⟩ := List.append_inj' h rfl
      exact Or.inl ⟨rfl, (List.cons.inj hlast).1.symm, rfl⟩
    · rintro (⟨rfl, rfl, -⟩ | ⟨rest, hrest, -⟩)
      · rfl
      · simp at hrest
  | append_singleton after last _ =>
    constructor
    · intro h
      rw [← List.cons_append, ← List.append_assoc] at h
      obtain ⟨rfl, hlast⟩ := List.append_inj' h rfl
      exact Or.inr ⟨after, by rw [hlast], rfl⟩
    · rintro (⟨-, -, hnil⟩ | ⟨rest, hrest, rfl⟩)
      · simp at hnil
      · rw [hrest]
        simp

/-- An action leaves a change unsettled if it does not settle it itself, whether it has just been accepted or was
unsettled before. -/
theorem unsettled_concat :
    Unsettled s (actions ++ [action]) index ↔
      ¬ Settles (run s actions) index action ∧
        (Unsettled s actions index ∨ Accepts (run s actions) index action) := by
  constructor
  · rintro ⟨before, other, after, hsplit, haccepts, hnever⟩
    -- the new action is the one that is accepted, or it comes behind that one and does not settle it
    rcases concat_eq_append_cons.mp hsplit with ⟨rfl, rfl, rfl⟩ | ⟨rest, rfl, rfl⟩
    · refine ⟨?_, Or.inr haccepts⟩
      have hself := hnever [] other [] rfl
      rwa [List.append_nil] at hself
    · refine ⟨hnever (other :: rest) action [] (by simp), Or.inl ⟨before, other, rest, rfl, haccepts, ?_⟩⟩
      intro mid later rest' hmid
      exact hnever mid later (rest' ++ [action]) (by rw [← List.cons_append, hmid]; simp)
  · rintro ⟨hsettles, ⟨before, other, after, rfl, haccepts, hnever⟩ | haccepts⟩
    · refine ⟨before, other, after ++ [action], by simp, haccepts, ?_⟩
      intro mid later rest hmid
      rw [← List.cons_append] at hmid
      -- any action behind it is the new one or one of those before
      rcases concat_eq_append_cons.mp hmid with ⟨rfl, rfl, rfl⟩ | ⟨rest', rfl, hshorter⟩
      · exact hsettles
      · exact hnever mid later rest' hshorter
    · refine ⟨actions, action, [], rfl, haccepts, ?_⟩
      rintro (_ | ⟨first, mid⟩) later rest hmid
      · obtain ⟨rfl, -⟩ := List.cons.inj hmid
        rwa [List.append_nil]
      · simp at hmid

/-- In a run from a drive without handles, a handle has changes to store exactly as long as one is unsettled. -/
theorem hasChanges_run (hnone : s.1.files = []) (actions : List Action) :
    HasChanges (run s actions).1 index ↔ Unsettled s actions index := by
  have htidy := tidy_of_nil hnone
  induction actions using List.reverseRecOn with
  | nil =>
    constructor
    · rintro ⟨file, hf, -⟩
      simp [run, hnone] at hf
    · rintro ⟨before, action, after, hsplit, -⟩
      simp at hsplit
  | append_singleton actions action ih =>
    rw [run_append, unsettled_concat]
    exact (hasChanges_act (htidy.run actions)).trans (and_congr_right fun _ => or_congr_left ih)

/-! ### Storing -/

/-- A request has something to store through the handle with an index. -/
def Attempts (s : Drive × TokenSource) (index : Nat) (request : StreamRequest) : Prop :=
  ∃ file, s.1.files[index]? = some file ∧ (file.pending request).isSome = true

theorem Attempts.mayStore {request : StreamRequest} (h : Attempts s index request) : request.MayStore := by
  obtain ⟨file, -, hp⟩ := h
  cases request with
  | write | truncate | flush | close => trivial
  | _ => simp [DriveFile.pending] at hp

/-- An action that settles a handle that has changes, or accepts one, is a request that has something to store. -/
theorem attempts_of_settles (hsettles : Settles s index action)
    (hchanges : HasChanges s.1 index ∨ Accepts s index action) :
    ∃ now request, action = .use now index request ∧ Attempts s index request := by
  cases action with
  | ask | search => exact hsettles.elim
  | use now other request =>
    obtain ⟨rfl, file, hf, hsettles⟩ := hsettles
    refine ⟨now, request, rfl, file, hf, DriveFile.isSome_pending.mpr ⟨hsettles, ?_⟩⟩
    rcases hchanges with ⟨file', hf', hdirty⟩ | ⟨-, file', hf', haccepts⟩
    · obtain rfl := Option.some.inj (hf.symm.trans hf')
      exact Or.inl hdirty
    · obtain rfl := Option.some.inj (hf.symm.trans hf')
      exact Or.inr haccepts

/-- What has something to store through a handle puts the whole buffer in its file, or fails. -/
theorem Attempts.commits_or_raises {request : StreamRequest} (h : Attempts s index request) (now : Int) :
    Commits s.1 now index request ∨ Raises s.1 now index request := by
  obtain ⟨file, hf, hp⟩ := h
  obtain ⟨bytes, hp⟩ := Option.isSome_iff_exists.mp hp
  obtain ⟨hresult, htree⟩ := endsLike_commit now hf hp
  rw [outcome_commit] at hresult htree
  cases hg : s.1.tree.get? file.key with
  | none =>
    rw [hg] at hresult
    exact Or.inr ⟨_, eq_error_of_map hresult⟩
  | some node =>
    rw [hg] at hresult htree
    by_cases hdir : node.isDirectory = true
    · simp only [hdir, if_true] at hresult
      exact Or.inr ⟨_, eq_error_of_map hresult⟩
    · simp only [hdir, Bool.false_eq_true, if_false] at hresult htree
      obtain ⟨answer, hanswer⟩ := eq_ok_of_map hresult
      -- the handle is on the same key as before, and holds what has been stored
      obtain ⟨file', hf', hsame⟩ := (later_onFile now index request s.1).files hf
      have hafter : file' = file.after request := by
        rw [files_onFile now hf, List.getElem?_set_self (List.getElem?_eq_some_iff.mp hf).1] at hf'
        exact (Option.some.inj hf').symm
      refine Or.inl ⟨answer, _, file', node, Prod.ext hanswer rfl, hf', ?_, by simpa using hdir, ?_⟩
      · rw [hsame.key, hg]
      · rw [htree, hsame.key, hafter, DriveFile.bytes_after hp]

/-- Between a moment at which a handle has changes and one at which it has none lies a request that has something to
store. -/
theorem exists_attempts (htidy : Tidy s.1) (hchanges : HasChanges s.1 index)
    (hnone : ¬ HasChanges (run s actions).1 index) :
    ∃ mid now request rest, actions = mid ++ .use now index request :: rest ∧
      Attempts (run s mid) index request := by
  induction actions generalizing s with
  | nil => exact absurd hchanges hnone
  | cons action actions ih =>
    by_cases hsettles : Settles s index action
    · obtain ⟨now, request, rfl, hattempts⟩ := attempts_of_settles hsettles (Or.inl hchanges)
      exact ⟨[], now, request, actions, rfl, hattempts⟩
    · have hstill : HasChanges (act s action).1 index := (hasChanges_act htidy).mpr ⟨hsettles, Or.inl hchanges⟩
      obtain ⟨mid, now, request, rest, rfl, hattempts⟩ := ih (htidy.act action) hstill hnone
      exact ⟨action :: mid, now, request, rest, rfl, hattempts⟩

/-- A change that a handle accepts is followed by a request that has something to store, unless the handle still has
changes in the end. -/
theorem exists_attempts_of_accepts (htidy : Tidy s.1) (haccepts : Accepts s index action)
    (hnone : ¬ HasChanges (run s (action :: actions)).1 index) :
    ∃ mid now request rest, action :: actions = mid ++ .use now index request :: rest ∧
      Attempts (run s mid) index request := by
  by_cases hsettles : Settles s index action
  · obtain ⟨now, request, rfl, hattempts⟩ := attempts_of_settles hsettles (Or.inr haccepts)
    exact ⟨[], now, request, actions, rfl, hattempts⟩
  · have hchanges : HasChanges (act s action).1 index := (hasChanges_act htidy).mpr ⟨hsettles, Or.inr haccepts⟩
    obtain ⟨mid, now, request, rest, rfl, hattempts⟩ := exists_attempts (htidy.act action) hchanges hnone
    exact ⟨action :: mid, now, request, rest, rfl, hattempts⟩

/-- **No change is lost silently, and nothing is stored without one.** In every run from a drive on which nothing has
been opened:

* when a handle is closed in the end, every write and truncation that it has accepted is followed by a request to it,
  or is itself one, that either ends well and puts the whole buffer of that moment in the file, or is one of those that
  may store the buffer and fails;
* a request to a handle that has nothing unsettled and that accepts no change, such as flushing it or closing it, leaves
  the tree as it is. -/
theorem saved_run (hnone : s.1.files = []) (actions : List Action) (index : Nat) :
    (∀ {before : List Action} {now : Int} {request : StreamRequest} {after : List Action} {file : DriveFile},
      actions = before ++ .use now index request :: after →
      Accepts (run s before) index (.use now index request) →
      (run s actions).1.files[index]? = some file → file.closed = true →
      ∃ mid now' request' rest, .use now index request :: after = mid ++ .use now' index request' :: rest ∧
        request'.MayStore ∧
        (Commits (run s (before ++ mid)).1 now' index request' ∨
          Raises (run s (before ++ mid)).1 now' index request')) ∧
    ∀ {now : Int} {request : StreamRequest}, ¬ Unsettled s actions index →
      ¬ Accepts (run s actions) index (.use now index request) →
      (act (run s actions) (.use now index request)).1.tree = (run s actions).1.tree := by
  have htidy := tidy_of_nil hnone
  constructor
  · intro before now request after file hsplit haccepts hf hclosed
    -- a handle that is closed has no changes left, so what has been accepted was settled on the way
    have hclean : ¬ HasChanges (run s actions).1 index := by
      rintro ⟨file', hf', hdirty⟩
      obtain rfl := Option.some.inj (hf.symm.trans hf')
      rw [htidy.run actions index file hf hclosed] at hdirty
      simp at hdirty
    rw [hsplit, run_append] at hclean
    obtain ⟨mid, now', request', rest, hmid, hattempts⟩ :=
      exists_attempts_of_accepts (htidy.run before) haccepts hclean
    rw [← run_append] at hattempts
    exact ⟨mid, now', request', rest, hmid, hattempts.mayStore, hattempts.commits_or_raises now'⟩
  · intro now request hsettled hrefused
    rw [← hasChanges_run hnone] at hsettled
    refine tree_onFile_of_idle now fun file hf => ?_
    -- a request that stores something has changes of the handle to store, or its own
    by_contra hp
    obtain ⟨-, hdirty | haccepts⟩ := DriveFile.isSome_pending.mp (Option.isSome_iff_ne_none.mpr hp)
    · exact hsettled ⟨file, hf, hdirty⟩
    · exact hrefused ⟨rfl, file, hf, haccepts⟩

/-! ### Two handles on one file -/

/-- A file is opened twice for writing. A write through the first handle cannot be stored, since the file has been
moved away meanwhile; once the file is back, a write through the second handle is stored when that is closed. -/
def rivals : List Action :=
  [.ask 0 (.openOutput "mem:/a".toList false), .ask 0 (.openHandle "mem:/a".toList "rw".toList),
    .use 1 0 (.write [120]), .ask 2 (.move "mem:/a".toList "mem:/b".toList false), .use 3 0 .flush,
    .ask 4 (.move "mem:/b".toList "mem:/a".toList false), .use 5 1 (.write [121]), .use 6 1 .close]

/-- What this leaves of a fresh drive. -/
def published : Drive × TokenSource := run (.fresh "mem".toList 0, .counting []) rivals

/-- The first handle by then: its flush has failed, so it has no changes to store any more. -/
def overtaken : DriveFile := ⟨[['a']], ⟨[120], 1⟩, true, false, false, false, false⟩

theorem files_published : published.1.files[0]? = some overtaken := by decide

theorem settled_published : ¬ Unsettled (.fresh "mem".toList 0, .counting []) rivals 0 := by
  rw [← hasChanges_run rfl]
  rintro ⟨file, hf, hdirty⟩
  obtain rfl := Option.some.inj (files_published.symm.trans hf)
  simp [overtaken] at hdirty

/-- The write through the first handle is followed by a flush that fails, and closing that handle at last does not put
it over what the second one has stored. -/
theorem saved_run_rivals :
    (∃ mid now request rest,
        .use 1 0 (.write [120]) :: (rivals.drop 3 ++ [.use 9 0 .close]) = mid ++ .use now 0 request :: rest ∧
        request.MayStore ∧
        (Commits (run (.fresh "mem".toList 0, .counting []) (rivals.take 2 ++ mid)).1 now 0 request ∨
          Raises (run (.fresh "mem".toList 0, .counting []) (rivals.take 2 ++ mid)).1 now 0 request)) ∧
      (act published (.use 9 0 .close)).1.tree = published.1.tree ∧
      published.1.tree.get? [['a']] = some ⟨false, [121], 6, false⟩ := by
  have hsplit : rivals ++ [.use 9 0 .close] =
      rivals.take 2 ++ .use 1 0 (.write [120]) :: (rivals.drop 3 ++ [.use 9 0 .close]) := rfl
  have hopened : (run (.fresh "mem".toList 0, .counting []) (rivals.take 2)).1.files[0]? =
      some ⟨[['a']], ⟨[], 0⟩, true, false, false, false, false⟩ := by decide
  have hclosed : (run (.fresh "mem".toList 0, .counting []) (rivals ++ [.use 9 0 .close])).1.files[0]? =
      some { overtaken with closed := true } := by decide +kernel
  have hrefused : ¬ Accepts published 0 (.use 9 0 .close) := by
    rintro ⟨-, file, hf, haccepts⟩
    simp [DriveFile.accepted?] at haccepts
  have hstored : published.1.tree.get? [['a']] = some ⟨false, [121], 6, false⟩ := by decide +kernel
  obtain ⟨hlost, -⟩ := saved_run (s := (.fresh "mem".toList 0, .counting [])) rfl (rivals ++ [.use 9 0 .close]) 0
  obtain ⟨-, hspared⟩ := saved_run (s := (.fresh "mem".toList 0, .counting [])) rfl rivals 0
  exact ⟨hlost hsplit ⟨rfl, _, hopened, rfl⟩ hclosed rfl, hspared settled_published hrefused, hstored⟩

end Drive

end FileRouter
