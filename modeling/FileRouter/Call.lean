import FileRouter.Failure.Basic
/-!
Calls: computations on a state that end with a value or a failure.

A call that fails keeps the changes it has made to the state, as a program that stops half way does.
`Call.outcome` is the whole meaning of a call: what it answers and the state it leaves. The equations
at the end say what the outcome of each way to put calls together is.
-/

namespace FileRouter

/-- A computation on a state `σ` that ends with an `α` or a failure and leaves a state either way. -/
abbrev Call (σ α : Type) := ExceptT Failure (StateM σ) α

namespace Call

variable {σ τ α : Type}

/-- What a call answers from a state, and the state it leaves. -/
def outcome (call : Call σ α) (s : σ) : Except Failure α × σ :=
  call.run.run s

/-- The call with a given meaning. -/
def ofOutcome (f : σ → Except Failure α × σ) : Call σ α :=
  ExceptT.mk fun s => f s

/-- A value or a failure that is known already. -/
def ofExcept (result : Except Failure α) : Call σ α :=
  ofOutcome fun s => (result, s)

/-- Looks at the state. -/
def look (f : σ → α) : Call σ α :=
  ofOutcome fun s => (.ok (f s), s)

/-- Changes the state. -/
def change (f : σ → σ) : Call σ Unit :=
  ofOutcome fun s => (.ok (), f s)

/-- Makes a call on a part of the state. -/
def within (part : σ → τ) (replace : τ → σ → σ) (call : Call τ α) : Call σ α :=
  ofOutcome fun s =>
    let (result, t) := call.outcome (part s)
    (result, replace t s)

/-- Makes a second call after the first, however the first ended. A failure of the second counts more
than the outcome of the first. -/
def ensuring (call : Call σ α) (last : Call σ Unit) : Call σ α :=
  ofOutcome fun s =>
    let (result, s) := call.outcome s
    match last.outcome s with
    | (.ok (), s) => (result, s)
    | (.error failure, s) => (.error failure, s)

/-- The failure that a call ends with, if it fails. -/
def failure? (call : Call σ α) : Call σ (Option Failure) :=
  ofOutcome fun s =>
    match call.outcome s with
    | (.ok _, s) => (.ok none, s)
    | (.error failure, s) => (.ok (some failure), s)

/-- Changes the failure that a call ends with. -/
def mapFailure (f : Failure → Failure) (call : Call σ α) : Call σ α :=
  ofOutcome fun s =>
    match call.outcome s with
    | (.ok value, s) => (.ok value, s)
    | (.error failure, s) => (.error (f failure), s)

/-- The outcome of a call as a value. -/
def attempt (call : Call σ α) : Call σ (Except Failure α) :=
  ofOutcome fun s =>
    let (result, s) := call.outcome s
    (.ok result, s)

/-! ### Outcomes -/

/-- Two calls with the same outcomes are equal. -/
theorem ext {first second : Call σ α} (h : ∀ s, first.outcome s = second.outcome s) :
    first = second :=
  funext h

@[simp] theorem outcome_ofOutcome (f : σ → Except Failure α × σ) (s : σ) :
    (ofOutcome f).outcome s = f s :=
  rfl

@[simp] theorem outcome_pure (value : α) (s : σ) :
    (pure value : Call σ α).outcome s = (.ok value, s) :=
  rfl

@[simp] theorem outcome_throw (failure : Failure) (s : σ) :
    (throw failure : Call σ α).outcome s = (.error failure, s) :=
  rfl

@[simp] theorem outcome_get (s : σ) : (get : Call σ σ).outcome s = (.ok s, s) :=
  rfl

@[simp] theorem outcome_set (s t : σ) : (set t : Call σ Unit).outcome s = (.ok (), t) :=
  rfl

@[simp] theorem outcome_ofExcept (result : Except Failure α) (s : σ) :
    (ofExcept result).outcome s = (result, s) :=
  rfl

@[simp] theorem outcome_look (f : σ → α) (s : σ) : (look f).outcome s = (.ok (f s), s) :=
  rfl

@[simp] theorem outcome_change (f : σ → σ) (s : σ) : (change f).outcome s = (.ok (), f s) :=
  rfl

@[simp] theorem outcome_within (part : σ → τ) (replace : τ → σ → σ) (call : Call τ α) (s : σ) :
    (within part replace call).outcome s =
      ((call.outcome (part s)).1, replace (call.outcome (part s)).2 s) :=
  rfl

@[simp] theorem outcome_ensuring (call : Call σ α) (last : Call σ Unit) (s : σ) :
    (ensuring call last).outcome s =
      match last.outcome (call.outcome s).2 with
      | (.ok (), t) => ((call.outcome s).1, t)
      | (.error failure, t) => (.error failure, t) :=
  rfl

@[simp] theorem outcome_failure? (call : Call σ α) (s : σ) :
    (failure? call).outcome s =
      match call.outcome s with
      | (.ok _, t) => (.ok none, t)
      | (.error failure, t) => (.ok (some failure), t) :=
  rfl

@[simp] theorem outcome_mapFailure (f : Failure → Failure) (call : Call σ α) (s : σ) :
    (mapFailure f call).outcome s =
      match call.outcome s with
      | (.ok value, t) => (.ok value, t)
      | (.error failure, t) => (.error (f failure), t) :=
  rfl

/-- A call that fails ends the calls after it. -/
@[simp] theorem outcome_bind {β : Type} (call : Call σ α) (next : α → Call σ β) (s : σ) :
    (call >>= next).outcome s =
      match call.outcome s with
      | (.ok value, s) => (next value).outcome s
      | (.error failure, s) => (.error failure, s) := by
  change StateT.bind call.run (ExceptT.bindCont next) s = _
  unfold StateT.bind outcome
  change (match call.run.run s with | (result, t) => ExceptT.bindCont next result t) = _
  rcases call.run.run s with ⟨_ | _, _⟩ <;> rfl

@[simp] theorem outcome_map {β : Type} (f : α → β) (call : Call σ α) (s : σ) :
    (f <$> call).outcome s = ((call.outcome s).1.map f, (call.outcome s).2) := by
  rw [map_eq_pure_bind, outcome_bind]
  rcases call.outcome s with ⟨_ | _, _⟩ <;> rfl

@[simp] theorem outcome_discard (call : Call σ α) (s : σ) :
    (discard call).outcome s = ((call.outcome s).1.map fun _ => (), (call.outcome s).2) := by
  rw [show discard call = (fun _ => ()) <$> call from rfl, outcome_map]

/-- What a call keeps, and what follows keeps, the two keep together. -/
theorem inv_bind {β : Type} {Inv : σ → Prop} {call : Call σ α} {next : α → Call σ β} {s : σ}
    (h : Inv (call.outcome s).2)
    (hnext : ∀ {value : α} {t : σ}, call.outcome s = (.ok value, t) → Inv t →
      Inv ((next value).outcome t).2) :
    Inv ((call >>= next).outcome s).2 := by
  rw [Call.outcome_bind]
  cases hc : call.outcome s with
  | mk result t =>
    rw [hc] at h
    cases result with
    | error failure => exact h
    | ok value => exact hnext hc h

/-- A result that is known already leaves the state to what follows. -/
theorem inv_ofExcept {β : Type} {Inv : σ → Prop} {result : Except Failure α} {next : α → Call σ β} {s : σ}
    (h : Inv s) (hnext : ∀ {value : α}, result = .ok value → Inv ((next value).outcome s).2) :
    Inv ((ofExcept result >>= next).outcome s).2 := by
  rw [outcome_bind, outcome_ofExcept]
  cases result with
  | error failure => exact h
  | ok value => exact hnext rfl

/-- Whatever a call answers, it leaves a property of the state as it holds. -/
def Keeps (Inv : σ → Prop) (call : Call σ α) : Prop :=
  ∀ s, Inv s → Inv (call.outcome s).2

theorem keeps_of_unchanged {Inv : σ → Prop} {call : Call σ α} (h : ∀ s, (call.outcome s).2 = s) :
    Keeps Inv call :=
  fun s hs => (h s).symm ▸ hs

theorem keeps_pure {Inv : σ → Prop} (value : α) : Keeps Inv (pure value : Call σ α) :=
  fun _ h => h

theorem keeps_throw {Inv : σ → Prop} (failure : Failure) : Keeps Inv (throw failure : Call σ α) :=
  fun _ h => h

theorem keeps_bind {β : Type} {Inv : σ → Prop} {call : Call σ α} {next : α → Call σ β}
    (h : Keeps Inv call) (hnext : ∀ value, Keeps Inv (next value)) : Keeps Inv (call >>= next) :=
  fun s hs => inv_bind (h s hs) fun {value t} _ ht => hnext value t ht

/-- What is done with the state may depend on what holds of it. -/
theorem keeps_get {Inv : σ → Prop} {next : σ → Call σ α}
    (h : ∀ s, Inv s → Inv ((next s).outcome s).2) : Keeps Inv (get >>= next) :=
  fun s hs => inv_bind hs fun {value t} ht _ => by
    rw [outcome_get, Prod.mk.injEq, Except.ok.injEq] at ht
    obtain ⟨rfl, rfl⟩ := ht
    exact h _ hs

theorem keeps_map {β : Type} {Inv : σ → Prop} {call : Call σ α} (f : α → β) (h : Keeps Inv call) :
    Keeps Inv (f <$> call) := by
  intro s hs
  rw [outcome_map]
  exact h s hs

theorem keeps_mapFailure {Inv : σ → Prop} {call : Call σ α} (f : Failure → Failure)
    (h : Keeps Inv call) : Keeps Inv (mapFailure f call) := by
  intro s hs
  have hkept := h s hs
  rw [outcome_mapFailure]
  cases hc : call.outcome s with
  | mk result t =>
    rw [hc] at hkept
    cases result <;> exact hkept

/-- A relation on states that can be composed holds from before a call to after the call and what
follows it. -/
theorem rel_bind {β : Type} {R : σ → σ → Prop}
    (htrans : ∀ {s t u : σ}, R s t → R t u → R s u)
    {call : Call σ α} {next : α → Call σ β} {s : σ} (h : R s (call.outcome s).2)
    (hnext : ∀ {value : α} {t : σ}, call.outcome s = (.ok value, t) →
      R t ((next value).outcome t).2) :
    R s ((call >>= next).outcome s).2 :=
  inv_bind h fun hc hst => htrans hst (hnext hc)

/-- A last call is made however the first one ended. -/
theorem outcome_ensuring_snd (call : Call σ α) (last : Call σ Unit) (s : σ) :
    ((ensuring call last).outcome s).2 = (last.outcome (call.outcome s).2).2 := by
  rw [outcome_ensuring]
  rcases last.outcome (call.outcome s).2 with ⟨_ | _, _⟩ <;> rfl

end Call

end FileRouter
