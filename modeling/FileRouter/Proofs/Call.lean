import FileRouter.Call
/-!
What calls keep and what they answer.

A call that keeps a property of the state, made once for each item of a list, keeps it, and calls that do alike
for each item do alike in a row (`outcomes_of_related`). `Gives` says besides which
values the call answers, for what follows to rely on; from one state, `Yields` says the very answer, and `Refuses` that
there is none. `Traceless` is about failing: a call that fails has changed nothing if whatever comes before the failure
changes nothing (`traceless_bind`) and whatever comes after a change cannot fail (`traceless_bind_succeeds`).
-/

namespace FileRouter

namespace Call

theorem exists_of_map_eq_ok {α β : Type} {f : α → β} {answer : Except Failure α} {value : β}
    (h : answer.map f = .ok value) : ∃ value', answer = .ok value' ∧ f value' = value := by
  cases answer with
  | error failure => simp [Except.map] at h
  | ok value' => exact ⟨value', rfl, Except.ok.inj h⟩

variable {σ α : Type} {Inv : σ → Prop}

theorem forM_append (f : α → Call σ Unit) (first second : List α) :
    (first ++ second).forM f = (do first.forM f; second.forM f) :=
  List.forM_append

/-- Answering something else changes nothing about the state. -/
theorem outcome_bind_pure_snd {β : Type} (call : Call σ α) (answer : α → β) (s : σ) :
    ((call >>= fun value => pure (answer value)).outcome s).2 = (call.outcome s).2 := by
  rw [outcome_bind]
  rcases call.outcome s with ⟨_ | _, _⟩ <;> rfl

theorem keeps_forM {f : α → Call σ Unit} {items : List α} (h : ∀ item ∈ items, Keeps Inv (f item)) :
    Keeps Inv (items.forM f) := by
  induction items with
  | nil => exact keeps_pure _
  | cons item items ih =>
    rw [List.forM]
    exact keeps_bind (h item List.mem_cons_self) fun _ =>
      ih fun other ho => h other (List.mem_cons_of_mem _ ho)

/-- What a call answers for each item in turn, however it ends for the others, and the state in the end. -/
def outcomes {β : Type} (call : α → Call σ β) : List α → σ → List (Except Failure β) × σ
  | [], s => ([], s)
  | item :: items, s =>
    let (answer, s) := (call item).outcome s
    let (answers, s) := outcomes call items s
    (answer :: answers, s)

theorem outcomes_concat_snd {β : Type} (call : α → Call σ β) (items : List α) (item : α) (s : σ) :
    (outcomes call (items ++ [item]) s).2 = ((call item).outcome (outcomes call items s).2).2 := by
  induction items generalizing s with
  | nil => rfl
  | cons first items ih => exact ih _

/-- Two calls that answer alike and keep a relation between their states do so in a row. -/
theorem outcomes_of_related {τ β γ : Type} {R : σ → τ → Prop} {call : α → Call σ β} {call' : α → Call τ γ}
    {via : γ → β} {items : List α} {s : σ} {t : τ}
    (h : ∀ item ∈ items, ∀ s t, R s t →
      ((call item).outcome s).1 = ((call' item).outcome t).1.map via ∧
        R ((call item).outcome s).2 ((call' item).outcome t).2)
    (hr : R s t) :
    (outcomes call items s).1 = (outcomes call' items t).1.map (Except.map via) ∧
      R (outcomes call items s).2 (outcomes call' items t).2 := by
  induction items generalizing s t with
  | nil => exact ⟨rfl, hr⟩
  | cons item items ih =>
    obtain ⟨hanswer, hrelated⟩ := h item List.mem_cons_self s t hr
    obtain ⟨hanswers, hend⟩ := ih (fun other ho => h other (List.mem_cons_of_mem _ ho)) hrelated
    refine ⟨?_, hend⟩
    show ((call item).outcome s).1 :: (outcomes call items ((call item).outcome s).2).1 = _
    rw [hanswer, hanswers]
    rfl

theorem keeps_failure? {call : Call σ α} (h : Keeps Inv call) : Keeps Inv (failure? call) := by
  intro s hs
  have hkept := h s hs
  rw [outcome_failure?]
  cases hc : call.outcome s with
  | mk result t =>
    rw [hc] at hkept
    cases result <;> exact hkept

/-- From every state with a property, a call leads to one with it and answers values of a sort only. -/
def Gives (Inv : σ → Prop) (P : α → Prop) (call : Call σ α) : Prop :=
  ∀ s, Inv s → Inv (call.outcome s).2 ∧ ∀ {value : α}, (call.outcome s).1 = .ok value → P value

variable {β : Type} {P : α → Prop} {Q : β → Prop} {call : Call σ α} {next : α → Call σ β}

theorem Gives.keeps (h : Gives Inv P call) : Keeps Inv call := fun s hs => (h s hs).1

theorem gives_of_keeps (h : Keeps Inv call) : Gives Inv (fun _ => True) call :=
  fun s hs => ⟨h s hs, fun _ => trivial⟩

theorem gives_pure {value : α} (h : P value) : Gives Inv P (pure value : Call σ α) :=
  fun _ hs => ⟨hs, fun hv => Except.ok.inj hv ▸ h⟩

theorem gives_throw (failure : Failure) : Gives Inv P (throw failure : Call σ α) :=
  fun _ hs => ⟨hs, fun hv => by simp at hv⟩

/-- What follows a call has to do with the values that it answers only. -/
theorem gives_bind (h : Gives Inv P call) (hnext : ∀ value, P value → Gives Inv Q (next value)) :
    Gives Inv Q (call >>= next) := by
  intro s hs
  obtain ⟨hleft, hvalue⟩ := h s hs
  rw [outcome_bind]
  cases hc : call.outcome s with
  | mk answer t =>
    rw [hc] at hleft hvalue
    cases answer with
    | error failure => exact ⟨hleft, fun hv => by simp at hv⟩
    | ok value => exact hnext value (hvalue rfl) t hleft

theorem keeps_of_gives (h : Gives Inv P call) (hnext : ∀ value, P value → Keeps Inv (next value)) :
    Keeps Inv (call >>= next) :=
  (gives_bind h fun value hv => gives_of_keeps (hnext value hv)).keeps

/-! ### Yielding and refusing -/

section Yields

variable {R S : σ → Prop} {s : σ} {value : α} {answer : β}

/-- From a state, a call answers a value and leads to a state with a property. -/
def Yields (call : Call σ α) (s : σ) (value : α) (R : σ → Prop) : Prop :=
  ∃ t, call.outcome s = (.ok value, t) ∧ R t

/-- From a state, a call fails and leads to a state with a property. -/
def Refuses (call : Call σ α) (s : σ) (R : σ → Prop) : Prop :=
  ∃ failure t, call.outcome s = (.error failure, t) ∧ R t

theorem yields_pure (h : R s) : Yields (pure value : Call σ α) s value R := ⟨s, rfl, h⟩

theorem refuses_throw (failure : Failure) (h : R s) : Refuses (throw failure : Call σ α) s R :=
  ⟨failure, s, rfl, h⟩

theorem Yields.bind (h : Yields call s value R) (hnext : ∀ t, R t → Yields (next value) t answer S) :
    Yields (call >>= next) s answer S := by
  obtain ⟨t, hcall, ht⟩ := h
  obtain ⟨u, hcall', hu⟩ := hnext t ht
  exact ⟨u, by rw [outcome_bind, hcall]; exact hcall', hu⟩

theorem Yields.bind_refuses (h : Yields call s value R) (hnext : ∀ t, R t → Refuses (next value) t S) :
    Refuses (call >>= next) s S := by
  obtain ⟨t, hcall, ht⟩ := h
  obtain ⟨failure, u, hcall', hu⟩ := hnext t ht
  exact ⟨failure, u, by rw [outcome_bind, hcall]; exact hcall', hu⟩

theorem Refuses.bind (h : Refuses call s R) : Refuses (call >>= next) s R := by
  obtain ⟨failure, t, hcall, ht⟩ := h
  exact ⟨failure, t, by rw [outcome_bind, hcall], ht⟩

/-- A last call is made after a call that yields, and it does not change the answer. -/
theorem Yields.ensuring {last : Call σ Unit} (h : Yields call s value R) (hlast : ∀ t, R t → Yields last t () S) :
    Yields (ensuring call last) s value S := by
  obtain ⟨t, hcall, ht⟩ := h
  obtain ⟨u, hcall', hu⟩ := hlast t ht
  exact ⟨u, by rw [outcome_ensuring, hcall]; simp only [hcall'], hu⟩

theorem Refuses.ensuring {last : Call σ Unit} (h : Refuses call s R) (hlast : ∀ t, R t → Yields last t () S) :
    Refuses (ensuring call last) s S := by
  obtain ⟨failure, t, hcall, ht⟩ := h
  obtain ⟨u, hcall', hu⟩ := hlast t ht
  exact ⟨failure, u, by rw [outcome_ensuring, hcall]; simp only [hcall'], hu⟩

end Yields

/-! ### Failing without a trace -/

section Traceless

variable {τ : Type} {view : σ → τ} {s : σ}

/-- If a call fails from a state, it has left a view of the state as it was. -/
def TracelessAt (view : σ → τ) (call : Call σ α) (s : σ) : Prop :=
  ∀ failure, (call.outcome s).1 = .error failure → view (call.outcome s).2 = view s

/-- Whenever a call fails, it has left a view of the state as it was. -/
def Traceless (view : σ → τ) (call : Call σ α) : Prop := ∀ s, TracelessAt view call s

/-- A call that never fails. -/
def Succeeds (call : Call σ α) : Prop := ∀ s, ∃ value, (call.outcome s).1 = .ok value

/-- A call that leaves a view of the state as it is, however it ends. -/
def Spares (view : σ → τ) (call : Call σ α) : Prop := ∀ s, view (call.outcome s).2 = view s

theorem succeeds_pure (value : α) : Succeeds (pure value : Call σ α) := fun _ => ⟨value, rfl⟩

theorem succeeds_change (f : σ → σ) : Succeeds (change f) := fun _ => ⟨(), rfl⟩

theorem succeeds_get : Succeeds (get : Call σ σ) := fun s => ⟨s, rfl⟩

theorem succeeds_bind (h : Succeeds call) (hnext : ∀ value, Succeeds (next value)) :
    Succeeds (call >>= next) := by
  intro s
  obtain ⟨value, hvalue⟩ := h s
  rw [outcome_bind]
  cases hc : call.outcome s with
  | mk answer t =>
    rw [hc] at hvalue
    obtain rfl : answer = .ok value := hvalue
    exact hnext value t

theorem Spares.view_eq (h : Spares view call) {answer : Except Failure α} {t : σ}
    (hout : call.outcome s = (answer, t)) : view t = view s := by
  rw [← h s, hout]

theorem spares_pure (value : α) : Spares view (pure value : Call σ α) := fun _ => rfl

theorem spares_throw (failure : Failure) : Spares view (throw failure : Call σ α) := fun _ => rfl

theorem spares_get : Spares view (get : Call σ σ) := fun _ => rfl

theorem spares_ofExcept (result : Except Failure α) : Spares view (ofExcept result : Call σ α) := fun _ => rfl

theorem spares_bind (h : Spares view call) (hnext : ∀ value, Spares view (next value)) :
    Spares view (call >>= next) :=
  fun s => rel_bind (R := fun s t => view t = view s) (fun hst htu => htu.trans hst) (h s)
    fun {value t} _ => hnext value t

theorem Succeeds.traceless (h : Succeeds call) : Traceless view call := by
  intro s failure hfailure
  obtain ⟨value, hvalue⟩ := h s
  simp [hvalue] at hfailure

theorem Spares.traceless (h : Spares view call) : Traceless view call := fun s _ _ => h s

/-- What follows a call that changes something must not fail. -/
theorem traceless_bind_succeeds (h : Traceless view call) (hnext : ∀ value, Succeeds (next value)) :
    Traceless view (call >>= next) := by
  intro s failure hfailure
  have hs := h s
  rw [outcome_bind] at hfailure ⊢
  cases hc : call.outcome s with
  | mk answer t =>
    rw [hc] at hfailure
    cases answer with
    | error failure =>
      rw [TracelessAt, hc] at hs
      exact hs _ rfl
    | ok value =>
      -- the second call never fails, so the failure would have come from the first
      obtain ⟨value', hvalue⟩ := hnext value t
      simp [hvalue] at hfailure

/-- What follows a call that leaves everything as it is may fail. -/
theorem tracelessAt_bind (h : view (call.outcome s).2 = view s)
    (hnext : ∀ {value t}, call.outcome s = (.ok value, t) → TracelessAt view (next value) t) :
    TracelessAt view (call >>= next) s := by
  intro failure hfailure
  rw [outcome_bind] at hfailure ⊢
  cases hc : call.outcome s with
  | mk answer t =>
    rw [hc] at hfailure h
    cases answer with
    | error failure => exact h
    | ok value => exact (hnext hc _ hfailure).trans h

theorem traceless_bind (h : Spares view call) (hnext : ∀ value, Traceless view (next value)) :
    Traceless view (call >>= next) :=
  fun s => tracelessAt_bind (h s) fun {value t} _ => hnext value t

theorem traceless_map {f : α → β} (h : Traceless view call) : Traceless view (f <$> call) := by
  intro s failure hfailure
  rw [outcome_map] at hfailure ⊢
  cases hr : (call.outcome s).1 with
  | error failure => exact h s _ hr
  | ok value => simp [hr, Except.map] at hfailure

/-- A last call that neither fails nor changes anything leaves no trace either. -/
theorem traceless_ensuring {last : Call σ Unit} (h : Traceless view call) (hlast : Succeeds last)
    (hspares : Spares view last) : Traceless view (ensuring call last) := by
  intro s failure hfailure
  have hcall := h s
  have hafter := hspares (call.outcome s).2
  obtain ⟨value, hvalue⟩ := hlast (call.outcome s).2
  rw [outcome_ensuring] at hfailure ⊢
  cases hl : last.outcome (call.outcome s).2 with
  | mk answer t =>
    rw [hl] at hfailure hvalue hafter
    obtain rfl : answer = .ok value := hvalue
    exact hafter.trans (hcall _ hfailure)

end Traceless

end Call

end FileRouter
