import FileRouter.Proofs.Call
import FileRouter.Proofs.World.Views
import FileRouter.World.Stores
import Mathlib.Data.List.Dedup
import Mathlib.Data.List.Nodup
import Mathlib.Data.List.Perm.Subperm
import Mathlib.Data.Nat.Find
/-!
Climbing from a path to what exists.

The way up is the sequence of a path, its parent, the parent of that, and so on (`ancestor`). Making directories climbs
as long as nothing is there, and either comes to an end (`EndsAfter`) or to a path that it has passed already
(`LoopsAfter`). Nothing is assumed about the providers but that they answer steadily while the climb goes on
(`Steady`). What they are asked is told by a store with a record (`recorded`), which otherwise does the same
(`mirrors_createDirectories`).
-/

namespace FileRouter

namespace Store

open Call

/-! ### The way up -/

/-- The path that a number of steps upwards lead to, if there is one. -/
def ancestor (parent : Text → Option Text) (path : Text) : Nat → Option Text
  | 0 => some path
  | n + 1 => (ancestor parent path n).bind parent

/-- The paths that a number of steps upwards pass, in their order. -/
def ascent (parent : Text → Option Text) (path : Text) (n : Nat) : List Text :=
  (List.range n).filterMap (ancestor parent path)

/-- A number of steps upwards lead to a path where nothing is. -/
def Misses (found : Text → Bool) (parent : Text → Option Text) (path : Text) (n : Nat) : Prop :=
  ∃ above, ancestor parent path n = some above ∧ found above = false

/-- The way up first comes to something, or has no next path, after a number of steps. -/
structure EndsAfter (found : Text → Bool) (parent : Text → Option Text) (path : Text) (n : Nat) : Prop where
  passed : ∀ i < n, Misses found parent path i
  ended : ¬ Misses found parent path n

/-- The way up first leads to a path for the second time after a number of steps, and nothing is on it. -/
structure LoopsAfter (found : Text → Bool) (parent : Text → Option Text) (path : Text) (n : Nat) : Prop where
  passed : ∀ i ≤ n, Misses found parent path i
  fresh : (ascent parent path n).Nodup
  again : ∃ i < n, ancestor parent path i = ancestor parent path n

variable {found : Text → Bool} {parent : Text → Option Text} {path above : Text} {n : Nat}

/-- The first step of the way up may be taken by itself. -/
theorem ancestor_succ (parent : Text → Option Text) (path : Text) (n : Nat) :
    ancestor parent path (n + 1) = (parent path).bind fun next => ancestor parent next n := by
  induction n with
  | zero => simp [ancestor]
  | succ n ih =>
    rw [ancestor, ih]
    cases parent path <;> rfl

/-- A way up that has a last path ends there, or before at something. -/
theorem exists_endsAfter (h : ancestor parent path n = none) : ∃ k ≤ n, EndsAfter found parent path k := by
  classical
  have hend : ¬ Misses found parent path n := fun ⟨above, habove, _⟩ => by simp [h] at habove
  have hex : ∃ k, ¬ Misses found parent path k := ⟨n, hend⟩
  refine ⟨Nat.find hex, Nat.find_min' hex hend, fun i hi => ?_, Nat.find_spec hex⟩
  exact not_not.mp (Nat.find_min hex hi)

theorem mem_ascent : above ∈ ascent parent path n ↔ ∃ i < n, ancestor parent path i = some above := by
  simp [ascent]

theorem ascent_succ (h : ancestor parent path n = some above) :
    ascent parent path (n + 1) = ascent parent path n ++ [above] := by
  rw [ascent, ascent, List.range_succ, List.filterMap_append]
  simp [h]

theorem length_ascent (h : ∀ i < n, Misses found parent path i) : (ascent parent path n).length = n := by
  induction n with
  | zero => rfl
  | succ n ih =>
    obtain ⟨above, habove, -⟩ := h n (Nat.lt_succ_self n)
    rw [ascent_succ habove, List.length_append, ih fun i hi => h i (Nat.lt_succ_of_lt hi), List.length_singleton]

theorem nodup_ascent (hmiss : ∀ i < n, Misses found parent path i)
    (hne : ∀ {i j}, i < j → j < n → ancestor parent path i ≠ ancestor parent path j) :
    (ascent parent path n).Nodup := by
  induction n with
  | zero => exact List.nodup_nil
  | succ n ih =>
    obtain ⟨above, habove, -⟩ := hmiss n (Nat.lt_succ_self n)
    rw [ascent_succ habove, List.nodup_append]
    refine ⟨ih (fun i hi => hmiss i (Nat.lt_succ_of_lt hi)) fun hij hj => hne hij (Nat.lt_succ_of_lt hj),
      List.nodup_singleton above, ?_⟩
    rintro other hother last hlast rfl
    obtain rfl := List.mem_singleton.mp hlast
    obtain ⟨i, hi, hsame⟩ := mem_ascent.mp hother
    exact hne hi (Nat.lt_succ_self n) (hsame.trans habove.symm)

/-- From where the way up comes to a path again it goes on as before. -/
theorem ancestor_add {i j : Nat} (h : ancestor parent path i = ancestor parent path j) (m : Nat) :
    ancestor parent path (i + m) = ancestor parent path (j + m) := by
  induction m with
  | zero => exact h
  | succ m ih => rw [← Nat.add_assoc, ← Nat.add_assoc, ancestor, ancestor, ih]

/-- A way that comes to an end has no path twice: it would go round for ever. -/
theorem EndsAfter.nodup (h : EndsAfter found parent path n) : (ascent parent path n).Nodup := by
  -- if the paths after i and j steps are the same, then so are the end and a path that has been passed
  refine nodup_ascent h.passed fun {i j} hij hj hsame => h.ended ?_
  have hround := ancestor_add hsame (n - j)
  rw [Nat.add_sub_cancel' (Nat.le_of_lt hj)] at hround
  obtain ⟨above, habove, hmiss⟩ := h.passed (i + (n - j)) (by omega)
  exact ⟨above, hround ▸ habove, hmiss⟩

/-- A way on which nothing is and some path comes twice has a first such path. -/
theorem exists_loopsAfter (hpassed : ∀ i ≤ n, Misses found parent path i)
    (hagain : ∃ i < n, ancestor parent path i = ancestor parent path n) :
    ∃ k ≤ n, LoopsAfter found parent path k := by
  classical
  -- before the first path that comes twice all are different
  have hex : ∃ k, ∃ i < k, ancestor parent path i = ancestor parent path k := ⟨n, hagain⟩
  have hle : Nat.find hex ≤ n := Nat.find_min' hex hagain
  have hmiss : ∀ i ≤ Nat.find hex, Misses found parent path i := fun i hi => hpassed i (Nat.le_trans hi hle)
  refine ⟨Nat.find hex, hle, hmiss, nodup_ascent (fun i hi => hmiss i (Nat.le_of_lt hi)) ?_, Nat.find_spec hex⟩
  intro i j hij hj hsame
  exact Nat.find_min hex hj ⟨i, hij, hsame⟩

/-- Paths whose parents are among them have all their ancestors among them. -/
theorem ancestor_mem {paths : List Text} (hclosed : ∀ above ∈ paths, ∀ next ∈ parent above, next ∈ paths)
    (hpath : path ∈ paths) (h : ancestor parent path n = some above) : above ∈ paths := by
  induction n generalizing above with
  | zero => exact Option.some.inj h ▸ hpath
  | succ n ih =>
    obtain ⟨below, hbelow, hnext⟩ := Option.bind_eq_some_iff.mp h
    exact hclosed below (ih hbelow) above hnext

/-! ### A record of the requests -/

section Recorded

variable {σ η : Type}

/-- The store with a record of the requests that it gets. -/
def recorded (store : Store σ η) : Store (σ × List Request) η where
  owner s path := store.owner s.1 path
  perform request := Call.within Prod.fst (fun s s' => (s, s'.2 ++ [request])) (store.perform request)
  onHandle handle request := Call.within Prod.fst (fun s s' => (s, s'.2)) (store.onHandle handle request)

/-- A call with a record does what another does without, and only adds to the record. -/
def Mirrors {α : Type} (recording : Call (σ × List Request) α) (call : Call σ α) : Prop :=
  ∀ s requests, ∃ more, recording.outcome (s, requests) =
    ((call.outcome s).1, (call.outcome s).2, requests ++ more)

variable {α β : Type} {recording : Call (σ × List Request) α} {call : Call σ α}
  {next' : α → Call (σ × List Request) β} {next : α → Call σ β}

/-- What is seen with a record is what happens without. -/
theorem Mirrors.outcome_eq (h : Mirrors recording call) {answer : Except Failure α} {s t : σ}
    {requests requests' : List Request} (hout : recording.outcome (s, requests) = (answer, t, requests')) :
    call.outcome s = (answer, t) := by
  obtain ⟨more, hmore⟩ := h s requests
  rw [hout, Prod.mk.injEq, Prod.mk.injEq] at hmore
  exact Prod.ext hmore.1.symm hmore.2.1.symm

theorem mirrors_pure (value : α) : Mirrors (pure value) (pure value : Call σ α) :=
  fun s requests => ⟨[], by rw [List.append_nil]; rfl⟩

theorem mirrors_throw (failure : Failure) : Mirrors (throw failure) (throw failure : Call σ α) :=
  fun s requests => ⟨[], by rw [List.append_nil]; rfl⟩

theorem Mirrors.bind (h : Mirrors recording call) (hnext : ∀ value, Mirrors (next' value) (next value)) :
    Mirrors (recording >>= next') (call >>= next) := by
  intro s requests
  obtain ⟨more, hmore⟩ := h s requests
  rw [outcome_bind, outcome_bind, hmore]
  rcases call.outcome s with ⟨failure | value, t⟩
  · exact ⟨more, rfl⟩
  · obtain ⟨more', hmore'⟩ := hnext value t (requests ++ more)
    exact ⟨more ++ more', by rw [← List.append_assoc]; exact hmore'⟩

theorem Mirrors.forM {act' : Text → Call (σ × List Request) Unit} {act : Text → Call σ Unit}
    (h : ∀ path, Mirrors (act' path) (act path)) (paths : List Text) : Mirrors (paths.forM act') (paths.forM act) := by
  induction paths with
  | nil => exact mirrors_pure ()
  | cons path paths ih => exact (h path).bind fun _ => ih

variable (store : Store σ η)

theorem outcome_recorded (request : Request) (s : σ) (requests : List Request) :
    (store.recorded.perform request).outcome (s, requests) =
      (((store.perform request).outcome s).1, ((store.perform request).outcome s).2, requests ++ [request]) :=
  rfl

theorem mirrors_perform (request : Request) : Mirrors (store.recorded.perform request) (store.perform request) :=
  fun s requests => ⟨[request], store.outcome_recorded request s requests⟩

theorem mirrors_missing (steps : Nat) (path : Option Text) (passed : List Text) :
    Mirrors (store.recorded.missing steps path passed) (store.missing steps path passed) := by
  induction steps generalizing path passed with
  | zero => exact mirrors_throw _
  | succ steps ih =>
    cases path with
    | none => exact mirrors_pure passed
    | some path =>
      rw [missing, missing]
      refine (store.mirrors_perform (.exists path)).bind fun here => ?_
      split_ifs
      · exact mirrors_pure passed
      · exact mirrors_throw _
      · exact (store.mirrors_perform (.parent path)).bind fun next => ih next (path :: passed)

/-- Making directories does the same with a record of the requests. -/
theorem mirrors_createDirectories (steps : Nat) (path : Option Text) :
    Mirrors (store.recorded.createDirectories steps path) (store.createDirectories steps path) :=
  (store.mirrors_missing steps path []).bind fun made =>
    Mirrors.forM (fun path => store.mirrors_perform (.createDirectory path)) made

/-! ### The climb -/

/-- Along the way up from a path, a store answers steadily whether something is there and which path is next, as long as
a property of its state holds, and it keeps that property. -/
structure Steady (store : Store σ η) (Inv : σ → Prop) (found : Text → Bool) (parent : Text → Option Text) (path : Text) :
    Prop where
  exists? : ∀ {n above s}, ancestor parent path n = some above → Inv s →
    Yields (store.exists? above) s (found above) Inv
  parent? : ∀ {n above s}, ancestor parent path n = some above → found above = false → Inv s →
    Yields (store.parent? above) s (parent above) Inv

/-- What is asked about the paths that a number of steps upwards pass. -/
def questions (parent : Text → Option Text) (path : Text) (n : Nat) : List Request :=
  (ascent parent path n).flatMap fun above => [.exists above, .parent above]

theorem questions_succ (h : ancestor parent path n = some above) :
    questions parent path (n + 1) = questions parent path n ++ [.exists above] ++ [.parent above] := by
  rw [questions, questions, ascent_succ h, List.flatMap_append]
  simp

variable {Inv : σ → Prop} {s : σ} {store}

theorem outcome_recorded_of_yields {request : Request} {answer : request.Reply η}
    (h : Yields (store.perform request) s answer Inv) (requests : List Request) :
    ∃ t, (store.recorded.perform request).outcome (s, requests) = (.ok answer, t, requests ++ [request]) ∧ Inv t := by
  obtain ⟨t, hout, ht⟩ := h
  exact ⟨t, by rw [outcome_recorded, hout], ht⟩

namespace Steady

/-- Where nothing is and no path comes twice, the climb goes on. -/
theorem outcome_step (h : Steady store Inv found parent path) (hs : Inv s) (hn : ancestor parent path n = some above)
    (hmiss : found above = false) (hnew : above ∉ ascent parent path n) (steps : Nat) :
    ∃ t, (store.recorded.missing (steps + 1) (ancestor parent path n) (ascent parent path n).reverse).outcome
        (s, questions parent path n) =
      (store.recorded.missing steps (ancestor parent path (n + 1)) (ascent parent path (n + 1)).reverse).outcome
        (t, questions parent path (n + 1)) ∧ Inv t := by
  obtain ⟨t, hexists, ht⟩ := outcome_recorded_of_yields (h.exists? hn hs) (questions parent path n)
  obtain ⟨u, hparent, hu⟩ :=
    outcome_recorded_of_yields (h.parent? hn hmiss ht) (questions parent path n ++ [.exists above])
  refine ⟨u, ?_, hu⟩
  have hnext : ancestor parent path (n + 1) = parent above := by rw [ancestor, hn, Option.bind_some]
  rw [hnext, ascent_succ hn, List.reverse_append, List.reverse_singleton, List.singleton_append, questions_succ hn, hn,
    missing, outcome_bind, Store.exists?, hexists]
  simp only [hmiss, Bool.false_eq_true, if_false, List.mem_reverse, hnew]
  rw [outcome_bind, Store.parent?, hparent]

/-- The climb comes to where the way up first does not go on. -/
theorem outcome_steps (h : Steady store Inv found parent path) (hs : Inv s)
    (hpassed : ∀ i < n, Misses found parent path i) (hfresh : (ascent parent path n).Nodup) (steps : Nat) :
    ∃ t, (store.recorded.missing (steps + n) (some path) []).outcome (s, []) =
      (store.recorded.missing steps (ancestor parent path n) (ascent parent path n).reverse).outcome
        (t, questions parent path n) ∧ Inv t := by
  -- by induction on the steps taken, with any number of steps still allowed
  induction n generalizing steps with
  | zero => exact ⟨s, rfl, hs⟩
  | succ n ih =>
    obtain ⟨above, habove, hmiss⟩ := hpassed n (Nat.lt_succ_self n)
    rw [ascent_succ habove, List.nodup_append] at hfresh
    obtain ⟨t, hsame, ht⟩ := ih (fun i hi => hpassed i (Nat.lt_succ_of_lt hi)) hfresh.1 (steps + 1)
    have hnew : above ∉ ascent parent path n := fun hm => hfresh.2.2 above hm above (List.mem_singleton_self above) rfl
    obtain ⟨u, hstep, hu⟩ := h.outcome_step ht habove hmiss hnew steps
    exact ⟨u, by rw [← hstep, ← hsame, Nat.add_right_comm, Nat.add_assoc], hu⟩

/-- A climb that comes to an end has passed what is missing. -/
theorem outcome_missing (h : Steady store Inv found parent path) (hs : Inv s) (hn : EndsAfter found parent path n)
    {steps : Nat} (hsteps : n < steps) :
    ∃ t, (store.recorded.missing steps (some path) []).outcome (s, []) =
      (.ok (ascent parent path n).reverse, t,
        questions parent path n ++ (ancestor parent path n).toList.map .exists) ∧ Inv t := by
  obtain ⟨steps, rfl⟩ : ∃ left, steps = left + 1 + n := ⟨steps - (n + 1), by omega⟩
  obtain ⟨t, hclimb, ht⟩ := h.outcome_steps hs hn.passed hn.nodup (steps + 1)
  rw [hclimb]
  cases habove : ancestor parent path n with
  | none => exact ⟨t, by rw [missing, Option.toList_none, List.map_nil, List.append_nil]; rfl, ht⟩
  | some above =>
    -- the climb ends here, so what is above exists
    have hfound : found above = true := by
      by_contra hmiss
      exact hn.ended ⟨above, habove, Bool.not_eq_true _ ▸ hmiss⟩
    obtain ⟨u, hexists, hu⟩ := outcome_recorded_of_yields (h.exists? habove ht) (questions parent path n)
    refine ⟨u, ?_, hu⟩
    rw [missing, outcome_bind, Store.exists?, hexists]
    simp only [hfound, if_true]
    rfl

/-- The same without a record. -/
theorem yields_missing (h : Steady store Inv found parent path) (hs : Inv s) (hn : EndsAfter found parent path n)
    {steps : Nat} (hsteps : n < steps) :
    Yields (store.missing steps (some path) []) s (ascent parent path n).reverse Inv := by
  obtain ⟨t, hclimb, ht⟩ := h.outcome_missing hs hn hsteps
  exact ⟨t, (store.mirrors_missing steps (some path) []).outcome_eq hclimb, ht⟩

/-- A climb that goes round is found out. -/
theorem outcome_missing_of_loop (h : Steady store Inv found parent path) (hs : Inv s)
    (hn : LoopsAfter found parent path n) {steps : Nat} (hsteps : n < steps) :
    ∃ again t, ancestor parent path n = some again ∧
      (store.recorded.missing steps (some path) []).outcome (s, []) =
        (.error (.refused .parentLoop again), t, questions parent path n ++ [.exists again]) ∧ Inv t := by
  obtain ⟨steps, rfl⟩ : ∃ left, steps = left + 1 + n := ⟨steps - (n + 1), by omega⟩
  obtain ⟨t, hclimb, ht⟩ := h.outcome_steps hs (fun i hi => hn.passed i (Nat.le_of_lt hi)) hn.fresh (steps + 1)
  obtain ⟨again, hagain, hmiss⟩ := hn.passed n (Nat.le_refl n)
  obtain ⟨i, hi, hsame⟩ := hn.again
  have hpassed : again ∈ (ascent parent path n).reverse :=
    List.mem_reverse.mpr (mem_ascent.mpr ⟨i, hi, hsame.trans hagain⟩)
  obtain ⟨u, hexists, hu⟩ := outcome_recorded_of_yields (h.exists? hagain ht) (questions parent path n)
  refine ⟨again, u, hagain, ?_, hu⟩
  rw [hclimb, hagain, missing, outcome_bind, Store.exists?, hexists]
  simp only [hmiss, Bool.false_eq_true, if_false, hpassed, if_true]
  rfl

end Steady

/-! ### Making what is missing -/

/-- Directories are made one after the other, up to the first that cannot be made: the paths that have been tried, and
how it ends. -/
inductive MadeInTurn (store : Store σ η) : List Text → σ → List Text → Except Failure Unit × σ → Prop
  | all {s : σ} : MadeInTurn store [] s [] (.ok (), s)
  | made {path : Text} {paths tried : List Text} {s t : σ} {out : Except Failure Unit × σ} :
      (store.createDirectory path).outcome s = (.ok (), t) → MadeInTurn store paths t tried out →
      MadeInTurn store (path :: paths) s (path :: tried) out
  | stopped {path : Text} {paths : List Text} {s t : σ} {failure : Failure} :
      (store.createDirectory path).outcome s = (.error failure, t) →
      MadeInTurn store (path :: paths) s [path] (.error failure, t)

theorem exists_madeInTurn (store : Store σ η) (paths : List Text) (s : σ) (requests : List Request) :
    ∃ tried out, MadeInTurn store paths s tried out ∧
      (paths.forM store.recorded.createDirectory).outcome (s, requests) =
        (out.1, out.2, requests ++ tried.map .createDirectory) := by
  induction paths generalizing s requests with
  | nil => exact ⟨[], _, .all, by rw [List.map_nil, List.append_nil]; rfl⟩
  | cons path paths ih =>
    have hrecord := store.outcome_recorded (.createDirectory path) s requests
    rw [List.forM, outcome_bind, createDirectory, hrecord]
    -- a creation that fails is the last one that is tried
    rcases hmake : (store.createDirectory path).outcome s with ⟨failure | value, t⟩
    · refine ⟨[path], _, .stopped hmake, ?_⟩
      rw [createDirectory] at hmake
      rw [hmake]
      rfl
    · obtain ⟨tried, out, hmade, hout⟩ := ih t (requests ++ [.createDirectory path])
      refine ⟨path :: tried, out, .made hmake hmade, ?_⟩
      rw [createDirectory] at hmake
      rw [hmake]
      simpa using hout

/-- How often a record asks whether something is at a path. -/
def lookups (requests : List Request) : Nat := requests.countP fun request => request.operation = .exists

theorem lookups_append (first second : List Request) : lookups (first ++ second) = lookups first + lookups second :=
  List.countP_append

theorem lookups_questions (parent : Text → Option Text) (path : Text) (n : Nat) :
    lookups (questions parent path n) = (ascent parent path n).length := by
  rw [questions]
  induction ascent parent path n with
  | nil => rfl
  | cons above paths ih =>
    rw [List.flatMap_cons, lookups_append, ih, List.length_cons, Nat.add_comm]
    rfl

theorem lookups_made (paths : List Text) : lookups (paths.map .createDirectory) = 0 := by
  rw [lookups, List.countP_eq_zero]
  intro request hm
  obtain ⟨path, -, rfl⟩ := List.mem_map.mp hm
  simp [Request.operation]

/-- The paths that have been passed are all different, so there are no more of them than different paths on the way. -/
theorem length_le_dedup (hfresh : (ascent parent path n).Nodup) :
    (ascent parent path n).length ≤ (ascent parent path (n + 1)).dedup.length := by
  refine (hfresh.subperm fun above hm => List.mem_dedup.mpr ?_).length_le
  obtain ⟨i, hi, habove⟩ := mem_ascent.mp hm
  exact mem_ascent.mpr ⟨i, Nat.lt_succ_of_lt hi, habove⟩

/-- Where the way up comes to an end, it is asked at most once more than there are different paths on it. -/
theorem lookups_le_of_endsAfter (h : EndsAfter found parent path n) (tried : List Text) :
    lookups (questions parent path n ++ (ancestor parent path n).toList.map .exists ++ tried.map .createDirectory) ≤
      (ascent parent path (n + 1)).dedup.length + 1 := by
  have hlast : lookups ((ancestor parent path n).toList.map .exists) ≤ 1 := by
    cases ancestor parent path n with
    | none => exact Nat.zero_le 1
    | some above => exact Nat.le_refl 1
  have hle := length_le_dedup h.nodup
  rw [lookups_append, lookups_append, lookups_questions, lookups_made]
  omega

theorem lookups_le_of_loopsAfter (h : LoopsAfter found parent path n) (again : Text) :
    lookups (questions parent path n ++ [.exists again]) ≤ (ascent parent path (n + 1)).dedup.length + 1 := by
  have hlast : lookups [.exists again] = 1 := rfl
  have hle := length_le_dedup h.fresh
  rw [lookups_append, lookups_questions, hlast]
  omega

/-- **Making directories over any providers** that answer steadily. If the way up comes to an end, the paths on it are all
different, and what is made are just these, the uppermost first, up to the first that cannot be made, whose failure is
the answer. If instead it comes to some path a second time, the answer is that this path is among its own ancestors, and
nothing is made. Either way it is asked whether something is there at most once more than there are different paths on
the way. -/
theorem createDirectories_steady {store : Store σ η} (h : Steady store Inv found parent path) (hs : Inv s) :
    (∀ {k steps : Nat}, EndsAfter found parent path k → k < steps →
      ∃ t tried requests, ∃ out : Except Failure Unit × σ,
        (store.createDirectories steps (some path)).outcome s = out ∧
        (store.recorded.createDirectories steps (some path)).outcome (s, []) = (out.1, out.2, requests) ∧
        requests = questions parent path k ++ (ancestor parent path k).toList.map .exists ++
          tried.map .createDirectory ∧
        Inv t ∧ MadeInTurn store (ascent parent path k).reverse t tried out ∧
        (ascent parent path k).Nodup ∧ (ascent parent path k).length = k ∧
        lookups requests ≤ (ascent parent path (k + 1)).dedup.length + 1) ∧
    ∀ {n : Nat}, (∀ i ≤ n, Misses found parent path i) →
      (∃ i < n, ancestor parent path i = ancestor parent path n) →
      ∃ k ≤ n, ∃ again, LoopsAfter found parent path k ∧ ancestor parent path k = some again ∧
        ∀ {steps : Nat}, k < steps → ∃ t requests,
          (store.createDirectories steps (some path)).outcome s = (.error (.refused .parentLoop again), t) ∧
          (store.recorded.createDirectories steps (some path)).outcome (s, []) =
            (.error (.refused .parentLoop again), t, requests) ∧
          requests = questions parent path k ++ [.exists again] ∧
          (∀ made, .createDirectory made ∉ requests) ∧ Inv t ∧
          lookups requests ≤ (ascent parent path (k + 1)).dedup.length + 1 := by
  constructor
  · intro k steps hk hsteps
    -- The climb has asked its questions; what remains is to make what it passed, from the top down.
    obtain ⟨t, hclimb, ht⟩ := h.outcome_missing hs hk hsteps
    obtain ⟨tried, out, hmade, hout⟩ := exists_madeInTurn store (ascent parent path k).reverse t
      (questions parent path k ++ (ancestor parent path k).toList.map .exists)
    have hrecorded : (store.recorded.createDirectories steps (some path)).outcome (s, []) = (out.1, out.2,
        questions parent path k ++ (ancestor parent path k).toList.map .exists ++ tried.map .createDirectory) := by
      rw [createDirectories, outcome_bind, hclimb]
      exact hout
    exact ⟨t, tried, _, out, (store.mirrors_createDirectories steps (some path)).outcome_eq hrecorded, hrecorded, rfl, ht,
      hmade, hk.nodup, length_ascent hk.passed, lookups_le_of_endsAfter hk tried⟩
  · intro n hpassed hagain
    -- The first path that comes again ends the climb, before anything is made.
    obtain ⟨k, hle, hk⟩ := exists_loopsAfter hpassed hagain
    obtain ⟨again, hancestor, -⟩ := hk.passed k (Nat.le_refl k)
    refine ⟨k, hle, again, hk, hancestor, fun {steps} hsteps => ?_⟩
    obtain ⟨again', t, hsame, hclimb, ht⟩ := h.outcome_missing_of_loop hs hk hsteps
    obtain rfl : again = again' := Option.some.inj (hancestor.symm.trans hsame)
    have hrecorded : (store.recorded.createDirectories steps (some path)).outcome (s, []) =
        (.error (.refused .parentLoop again), t, questions parent path k ++ [.exists again]) := by
      rw [createDirectories, outcome_bind, hclimb]
    refine ⟨t, _, (store.mirrors_createDirectories steps (some path)).outcome_eq hrecorded, hrecorded, rfl,
      fun made hm => ?_, ht, lookups_le_of_loopsAfter hk again⟩
    simp [questions] at hm

end Recorded

end Store

namespace World

/-- A request to a scripted provider that owns its path goes to the script. -/
theorem outcome_perform_scripted {world : World} {registry id : Nat} {scheme : Text} {claim : Claim}
    {label : Option Text} {script : Script} (hp : world.provider? id = some ⟨scheme, claim, label, .scripted script⟩)
    {request : Request} (hm : world.mismatch? registry request = none)
    (howner : world.owner registry request.path = id) :
    (perform registry request).outcome world = (onScript id script .all request).outcome world := by
  obtain ⟨limit, hl⟩ := exists_handOverLimit world request.path
  rw [outcome_perform_owner hm, howner, hl, performWithin, Call.outcome_bind, Call.outcome_get]
  simp only [hp]

/-- A script in which two paths are the parents of each other, and two others lead up to what exists. -/
def roundScript : Script where
  label := "sc".toList
  rules := [⟨.exists, some "top".toList, none, .flag true⟩, ⟨.exists, none, none, .flag false⟩,
    ⟨.parent, some "x".toList, none, .text "y".toList⟩, ⟨.parent, some "y".toList, none, .text "top".toList⟩,
    ⟨.parent, some "a".toList, none, .text "b".toList⟩, ⟨.parent, some "b".toList, none, .text "a".toList⟩]

/-- The paths that the script knows. -/
def roundPaths : List Text := ["x", "y", "top", "a", "b"].map String.toList

/-- The next path upwards by that script. -/
def roundParent (path : Text) : Option Text :=
  ([("x", "y"), ("y", "top"), ("a", "b"), ("b", "a")].find? fun step => step.1.toList = path).map fun step =>
    step.2.toList

/-- A world with that script as the only provider, and with some events. -/
def roundWorld (events : List Event) : World :=
  { fresh [] 0 (.counting []) with
    providers := [⟨"sc".toList, .ownSchemeOrNone, none, .scripted roundScript⟩]
    registries := [⟨[], ⟨0, "sc".toList, .ownSchemeOrNone⟩⟩]
    events }

theorem respond_round : ∀ path ∈ roundPaths,
    roundScript.respond (.exists path) = (.ok (decide (path = "top".toList)), roundScript) ∧
      roundScript.respond (.parent path) = (.ok (roundParent path), roundScript) := by
  rintro path (_ | ⟨_, _ | ⟨_, _ | ⟨_, _ | ⟨_, _ | ⟨_, hm⟩⟩⟩⟩⟩)
  · exact ⟨rfl, rfl⟩
  · exact ⟨rfl, rfl⟩
  · exact ⟨rfl, rfl⟩
  · exact ⟨rfl, rfl⟩
  · exact ⟨rfl, rfl⟩
  · cases hm

/-- The only provider answers by the script. -/
theorem outcome_roundWorld {request : Request} (hm : ∀ world, mismatch? world 0 request = none)
    (hsilent : Script.isSilent request = false) {answer : request.Reply StreamPlan}
    (hanswer : roundScript.respond request = (.ok answer, roundScript)) (hhandle : request.handle? answer = none)
    (events : List Event) :
    (perform 0 request).outcome (roundWorld events) =
      (.ok (request.mapHandle (fun _ => .scripted 0) answer),
        roundWorld (events ++ [.request "sc".toList .all request])) := by
  rw [outcome_perform_scripted rfl (hm _) rfl, onScript, hanswer, hsilent]
  simp only [Call.outcome_bind, Call.outcome_change, Call.outcome_get, Call.outcome_ofExcept, hhandle]
  rfl

theorem steady_round {path : Text} (hpath : path ∈ roundPaths) :
    Store.Steady (store 0) (fun world => ∃ events, world = roundWorld events) (fun path => path = "top".toList)
      roundParent path := by
  have hknown : ∀ {n above}, Store.ancestor roundParent path n = some above → above ∈ roundPaths :=
    fun h => Store.ancestor_mem (by decide) hpath h
  constructor
  · rintro n above - habove ⟨events, rfl⟩
    exact ⟨_, outcome_roundWorld (fun _ => rfl) rfl (respond_round above (hknown habove)).1 rfl events, _, rfl⟩
  · rintro n above - habove - ⟨events, rfl⟩
    exact ⟨_, outcome_roundWorld (fun _ => rfl) rfl (respond_round above (hknown habove)).2 rfl events, _, rfl⟩

theorem createDirectories_steady_round :
    (∃ t tried, ∃ out : Except Failure Unit × World,
      ((store 0).createDirectories 3 (some "x".toList)).outcome (roundWorld []) = out ∧
      Store.MadeInTurn (store 0) ["y".toList, "x".toList] t tried out ∧ (∃ events, t = roundWorld events)) ∧
    ∃ t, ((store 0).createDirectories 3 (some "a".toList)).outcome (roundWorld []) =
      (.error (.refused .parentLoop "a".toList), t) := by
  constructor
  · have hpassed : ∀ i < 2, Store.Misses (fun path => decide (path = "top".toList)) roundParent "x".toList i
      | 0, _ => ⟨"x".toList, rfl, by decide⟩
      | 1, _ => ⟨"y".toList, rfl, by decide⟩
    have hended : ¬ Store.Misses (fun path => decide (path = "top".toList)) roundParent "x".toList 2 := by
      rintro ⟨above, habove, hmiss⟩
      obtain rfl := Option.some.inj habove
      simp at hmiss
    obtain ⟨t, tried, requests, out, hout, -, -, hinv, hmade, -⟩ :=
      (Store.createDirectories_steady (steady_round (by decide)) ⟨[], rfl⟩).1 ⟨hpassed, hended⟩ (Nat.lt_succ_self 2)
    exact ⟨t, tried, out, hout, hmade, hinv⟩
  · have hpassed : ∀ i ≤ 2, Store.Misses (fun path => decide (path = "top".toList)) roundParent "a".toList i
      | 0, _ => ⟨"a".toList, rfl, by decide⟩
      | 1, _ => ⟨"b".toList, rfl, by decide⟩
      | 2, _ => ⟨"a".toList, rfl, by decide⟩
    obtain ⟨k, hk, again, hloop, hagain, hout⟩ :=
      (Store.createDirectories_steady (steady_round (by decide)) ⟨[], rfl⟩).2 hpassed ⟨0, by decide, rfl⟩
    obtain ⟨t, requests, hfails, -⟩ := hout (Nat.lt_succ_of_le hk)
    -- nothing comes twice before the first path does
    obtain rfl : "a".toList = again := by
      obtain ⟨i, hi, hsame⟩ := hloop.again
      match k, hk, i, hi with
      | 1, _, 0, _ => exact absurd hsame (by decide)
      | 2, _, _, _ => exact Option.some.inj hagain
    exact ⟨t, hfails⟩

end World

end FileRouter
