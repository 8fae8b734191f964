import FileRouter.Call
/-!
Two calls that do the same.

Two calls agree when they leave the same state and both fail for the same reason, or answer values that a
relation holds of. The paths that failures are told at are not compared, since the two calls may know a file by
different paths. Agreement goes through whatever calls are put together with: what follows two answers agrees if
it agrees for all values that are related (`agree_bind`).
-/

namespace FileRouter

/-- A failure without the paths that it is told at. -/
def Failure.unplaced : Failure → Failure
  | .provider ⟨.mismatch _, _⟩ => .provider ⟨.mismatch [], none⟩
  | .provider error => .provider { error with path := none }
  | failure => failure

/-- Two answers that are alike: both failures for one reason, or two values in a relation. -/
inductive Alike {α β : Type} (R : α → β → Prop) : Except Failure α → Except Failure β → Prop
  | ok {value : α} {value' : β} : R value value' → Alike R (.ok value) (.ok value')
  | error {failure failure' : Failure} : failure.unplaced = failure'.unplaced →
      Alike R (.error failure) (.error failure')

section Alike

variable {α β γ : Type} {R R' : α → β → Prop} {Q : β → γ → Prop}
  {answer : Except Failure α} {answer' : Except Failure β} {answer'' : Except Failure γ}

theorem alike_map (f : α → β) (h : ∀ value, R value (f value)) (answer : Except Failure α) :
    Alike R answer (answer.map f) := by
  cases answer with
  | error failure => exact .error rfl
  | ok value => exact .ok (h value)

theorem Alike.mono (h : Alike R answer answer') (hsub : ∀ {value : α} {value' : β}, R value value' →
    R' value value') : Alike R' answer answer' := by
  cases h with
  | ok hr => exact .ok (hsub hr)
  | error hf => exact .error hf

theorem Alike.exists_of_ok {value : α} (h : Alike R (.ok value) answer') : ∃ value', R value value' := by
  cases h with
  | ok hr => exact ⟨_, hr⟩

theorem Alike.trans {S : α → γ → Prop} (h : Alike R answer answer') (h' : Alike Q answer' answer'')
    (hsub : ∀ {value : α} {value' : β} {value'' : γ}, R value value' → Q value' value'' →
      S value value'') : Alike S answer answer'' := by
  cases h with
  | ok hr =>
    cases h' with
    | ok hq => exact .ok (hsub hr hq)
  | error hf =>
    cases h' with
    | error hf' => exact .error (hf.trans hf')

end Alike

namespace Call

variable {σ α β α' β' : Type} {Inv : σ → Prop} {R : α → β → Prop} {Q : α' → β' → Prop}

/-- From a state two calls come to the same: alike answers and one state. -/
def AgreeAt (R : α → β → Prop) (call : Call σ α) (call' : Call σ β) (s : σ) : Prop :=
  Alike R (call.outcome s).1 (call'.outcome s).1 ∧ (call'.outcome s).2 = (call.outcome s).2

/-- From every state with a property two calls come to the same, and the state has the property again. -/
def Agree (Inv : σ → Prop) (R : α → β → Prop) (call : Call σ α) (call' : Call σ β) : Prop :=
  ∀ s, Inv s → AgreeAt R call call' s ∧ Inv (call.outcome s).2

variable {call : Call σ α} {call' : Call σ β} {next : α → Call σ α'} {next' : β → Call σ β'} {s : σ}

theorem agreeAt_map {f : α → α'} {f' : β → β'} (h : AgreeAt R call call' s)
    (hf : ∀ value value', R value value' → Q (f value) (f' value')) :
    AgreeAt Q (f <$> call) (f' <$> call') s := by
  obtain ⟨halike, hstate⟩ := h
  rw [AgreeAt, outcome_map, outcome_map]
  refine ⟨?_, hstate⟩
  revert halike
  generalize (call.outcome s).1 = answer, (call'.outcome s).1 = answer'
  rintro (hr | hfail)
  · exact .ok (hf _ _ hr)
  · exact .error hfail

theorem agree_refl (h : Keeps Inv call) : Agree Inv Eq call call := by
  intro s hs
  refine ⟨⟨?_, rfl⟩, h s hs⟩
  cases (call.outcome s).1 with
  | error failure => exact .error rfl
  | ok value => exact .ok rfl

theorem agree_pure {value : α} {value' : β} (h : R value value') :
    Agree Inv R (pure value : Call σ α) (pure value' : Call σ β) :=
  fun _ hs => ⟨⟨.ok h, rfl⟩, hs⟩

theorem agree_throw {failure failure' : Failure} (h : failure.unplaced = failure'.unplaced) :
    Agree Inv R (throw failure : Call σ α) (throw failure' : Call σ β) :=
  fun _ hs => ⟨⟨.error h, rfl⟩, hs⟩

theorem Agree.mono {R' : α → β → Prop} (h : Agree Inv R call call')
    (hsub : ∀ {value : α} {value' : β}, R value value' → R' value value') : Agree Inv R' call call' :=
  fun s hs => ⟨⟨(h s hs).1.1.mono hsub, (h s hs).1.2⟩, (h s hs).2⟩

/-- What follows a value has to agree with what follows the values it is related to only. -/
theorem agreeAt_bind (h : AgreeAt R call call' s)
    (hnext : ∀ value value', R value value' → AgreeAt Q (next value) (next' value') (call.outcome s).2) :
    AgreeAt Q (call >>= next) (call' >>= next') s := by
  obtain ⟨halike, hstate⟩ := h
  rw [AgreeAt, outcome_bind, outcome_bind]
  cases hc : call.outcome s with
  | mk answer t =>
    cases hc' : call'.outcome s with
    | mk answer' t' =>
      rw [hc] at halike hstate hnext
      rw [hc'] at halike hstate
      obtain rfl : t' = t := hstate
      -- the same state on both sides, so the rest may be compared from there
      cases halike with
      | ok hr => exact hnext _ _ hr
      | error hf => exact ⟨.error hf, rfl⟩

/-- What is done with a state may differ as long as it agrees at that state. -/
theorem agreeAt_get {next : σ → Call σ α} {next' : σ → Call σ β} (h : AgreeAt R (next s) (next' s) s) :
    AgreeAt R (get >>= next) (get >>= next') s := by
  rw [AgreeAt, outcome_bind, outcome_bind, outcome_get]
  exact h

theorem agree_bind (h : Agree Inv R call call')
    (hnext : ∀ value value', R value value' → Agree Inv Q (next value) (next' value')) :
    Agree Inv Q (call >>= next) (call' >>= next') := by
  intro s hs
  obtain ⟨hagree, hinv⟩ := h s hs
  refine ⟨agreeAt_bind hagree fun value value' hr => (hnext value value' hr _ hinv).1, ?_⟩
  refine inv_bind hinv fun {value t} hc ht => ?_
  -- a value is answered only together with one that it is related to
  obtain ⟨halike, -⟩ := hagree
  rw [hc] at halike
  obtain ⟨value', hr⟩ := halike.exists_of_ok
  exact (hnext value value' hr t ht).2

/-- One call for each item of a list agrees with one for each changed item. -/
theorem agree_forM {ι κ : Type} {f : ι → Call σ Unit} {f' : κ → Call σ Unit} {change : ι → κ} (items : List ι)
    (h : ∀ item ∈ items, Agree Inv (fun _ _ => True) (f item) (f' (change item))) :
    Agree Inv (fun _ _ => True) (items.forM f) ((items.map change).forM f') := by
  induction items with
  | nil => exact agree_pure trivial
  | cons item items ih =>
    rw [List.map_cons, List.forM, List.forM]
    exact agree_bind (h item List.mem_cons_self) fun _ _ _ =>
      ih fun other ho => h other (List.mem_cons_of_mem _ ho)

/-- The same last call after two calls that agree. -/
theorem agree_ensuring {last : Call σ Unit} (h : Agree Inv R call call') (hlast : Keeps Inv last) :
    Agree Inv R (ensuring call last) (ensuring call' last) := by
  intro s hs
  obtain ⟨⟨halike, hstate⟩, hinv⟩ := h s hs
  rw [AgreeAt, outcome_ensuring, outcome_ensuring, hstate]
  have hkept := hlast _ hinv
  cases hl : last.outcome (call.outcome s).2 with
  | mk answer t =>
    rw [hl] at hkept
    cases answer with
    | error failure => exact ⟨⟨.error rfl, rfl⟩, hkept⟩
    | ok value => exact ⟨⟨halike, rfl⟩, hkept⟩

end Call

end FileRouter
