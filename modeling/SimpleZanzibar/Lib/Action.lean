/-!
# Fallible computations over a mutable state

A method that takes a mutable receiver and can fail is a function from the state
before the call to a result and the state after it.  The state is returned on
failure too, so that what a failed call leaves behind can be stated.
-/

namespace SimpleZanzibar

/-- A fallible computation over a mutable state. -/
def Action (σ ε α : Type) : Type :=
  σ → Except ε α × σ

namespace Action

variable {σ τ ε α β : Type}

instance : Monad (Action σ ε) where
  pure a := fun s => (.ok a, s)
  bind x f := fun s =>
    match x s with
    | (.ok a, s') => f a s'
    | (.error e, s') => (.error e, s')

/-- Reads the state. -/
def get : Action σ ε σ :=
  fun s => (.ok s, s)

/-- Replaces the state. -/
def set (s : σ) : Action σ ε Unit :=
  fun _ => (.ok (), s)

/-- Updates the state. -/
def modify (f : σ → σ) : Action σ ε Unit :=
  fun s => (.ok (), f s)

/-- Fails and leaves the state as it is. -/
def throw (e : ε) : Action σ ε α :=
  fun s => (.error e, s)

/-- A fallible computation that does not touch the state. -/
def lift (x : Except ε α) : Action σ ε α :=
  fun s => (x, s)

/-- Runs a computation and hands its failure over as a value. -/
def attempt (x : Action σ ε α) : Action σ ε (Except ε α) :=
  fun s => (.ok (x s).1, (x s).2)

/-- Runs a computation on one component of the state. -/
def zoom (component : σ → τ) (update : τ → σ → σ) (x : Action τ ε α) : Action σ ε α :=
  fun s =>
    match x (component s) with
    | (r, t) => (r, update t s)

/-- Runs a computation on an owned state that is dropped on failure. -/
def exec (x : Action σ ε α) (s : σ) : Except ε σ :=
  match x s with
  | (.ok _, t) => .ok t
  | (.error e, _) => .error e

/-- Runs a computation for each element, from left to right. -/
def forEach (step : α → Action σ ε Unit) : List α → Action σ ε Unit
  | [] => pure ()
  | a :: rest => do
      step a
      forEach step rest

@[simp] theorem pure_apply
    (a : α) (s : σ) :
    (pure a : Action σ ε α) s = (.ok a, s) :=
  rfl

@[simp] theorem get_apply
    (s : σ) :
    (get : Action σ ε σ) s = (.ok s, s) :=
  rfl

@[simp] theorem set_apply
    (s t : σ) :
    (set t : Action σ ε Unit) s = (.ok (), t) :=
  rfl

@[simp] theorem modify_apply
    (f : σ → σ) (s : σ) :
    (modify f : Action σ ε Unit) s = (.ok (), f s) :=
  rfl

@[simp] theorem throw_apply
    (e : ε) (s : σ) :
    (throw e : Action σ ε α) s = (.error e, s) :=
  rfl

@[simp] theorem lift_apply
    (x : Except ε α) (s : σ) :
    (lift x : Action σ ε α) s = (x, s) :=
  rfl

theorem bind_apply
    (x : Action σ ε α) (f : α → Action σ ε β) (s : σ) :
    (x >>= f) s =
      match x s with
      | (.ok a, s') => f a s'
      | (.error e, s') => (.error e, s') :=
  rfl

/-- A sequence succeeds iff both of its steps do. -/
theorem bind_eq_ok
    {x : Action σ ε α} {f : α → Action σ ε β} {s t : σ} {b : β} :
    (x >>= f) s = (.ok b, t) ↔ ∃ a u, x s = (.ok a, u) ∧ f a u = (.ok b, t) := by
  rw [bind_apply]
  rcases x s with ⟨r, u⟩
  cases r with
  | error e =>
      constructor
      · intro h
        cases h
      · rintro ⟨a, v, h, _⟩
        cases h
  | ok a =>
      constructor
      · intro h
        exact ⟨a, u, rfl, h⟩
      · rintro ⟨a', v, h, h'⟩
        cases h
        exact h'

/-- A sequence that starts with a lifted computation. -/
theorem lift_bind_eq_ok
    {r : Except ε α} {f : α → Action σ ε β} {s t : σ} {b : β} :
    (lift r >>= f) s = (.ok b, t) ↔ ∃ a, r = .ok a ∧ f a s = (.ok b, t) := by
  rw [bind_eq_ok]
  constructor
  · rintro ⟨a, u, hlift, h⟩
    obtain ⟨hr, rfl⟩ := Prod.mk.inj hlift
    exact ⟨a, hr, h⟩
  · rintro ⟨a, rfl, h⟩
    exact ⟨a, s, rfl, h⟩

/-- A sequence that starts with reading the state. -/
theorem get_bind_apply
    (f : σ → Action σ ε α) (s : σ) :
    (get >>= f) s = f s s :=
  rfl

/-- A computation on a component ends as it does on the component alone. -/
theorem zoom_eq_iff
    {component : σ → τ} {update : τ → σ → σ} {y : Action τ ε α} {s s' : σ} {r : Except ε α} :
    zoom component update y s = (r, s') ↔ ∃ t, y (component s) = (r, t) ∧ s' = update t s := by
  unfold zoom
  rcases y (component s) with ⟨r', t⟩
  constructor
  · intro h
    cases h
    exact ⟨t, rfl, rfl⟩
  · rintro ⟨t', h, rfl⟩
    cases h
    rfl

/-- A computation on a component succeeds iff it does on the component alone. -/
theorem zoom_eq_ok
    {component : σ → τ} {update : τ → σ → σ} {y : Action τ ε α} {s s' : σ} {a : α} :
    zoom component update y s = (.ok a, s') ↔
      ∃ t, y (component s) = (.ok a, t) ∧ s' = update t s :=
  zoom_eq_iff

/-- A sequence fails iff one of its steps does. -/
theorem bind_eq_error
    {x : Action σ ε α} {f : α → Action σ ε β} {s t : σ} {e : ε} :
    (x >>= f) s = (.error e, t) ↔
      x s = (.error e, t) ∨ ∃ a u, x s = (.ok a, u) ∧ f a u = (.error e, t) := by
  rw [bind_apply]
  rcases x s with ⟨r, u⟩
  cases r with
  | error e' =>
      constructor
      · intro h
        cases h
        exact Or.inl rfl
      · rintro (h | ⟨a, v, h, _⟩)
        · cases h
          rfl
        · cases h
  | ok a =>
      constructor
      · intro h
        exact Or.inr ⟨a, u, rfl, h⟩
      · rintro (h | ⟨a', v, h, h'⟩)
        · cases h
        · cases h
          exact h'

/-- From this state the computation either succeeds with a result and a state that
satisfy `post`, or fails with an error that satisfies `exn`. -/
def Ensures (x : Action σ ε α) (s : σ) (post : α → σ → Prop) (exn : ε → Prop) : Prop :=
  match x s with
  | (.ok a, t) => post a t
  | (.error e, _) => exn e

section Ensures

variable {x : Action σ ε α} {s : σ} {post : α → σ → Prop} {exn : ε → Prop}

theorem Ensures.of_ok
    {a : α} {t : σ}
    (hx : x s = (.ok a, t))
    (h : post a t) :
    x.Ensures s post exn := by
  unfold Ensures
  rw [hx]
  exact h

theorem Ensures.of_error
    {e : ε} {t : σ}
    (hx : x s = (.error e, t))
    (h : exn e) :
    x.Ensures s post exn := by
  unfold Ensures
  rw [hx]
  exact h

theorem Ensures.cases
    (h : x.Ensures s post exn) :
    (∃ a t, x s = (.ok a, t) ∧ post a t) ∨ ∃ e t, x s = (.error e, t) ∧ exn e := by
  unfold Ensures at h
  rcases hx : x s with ⟨r, t⟩
  rw [hx] at h
  cases r with
  | ok a =>
      exact Or.inl ⟨a, t, rfl, h⟩
  | error e =>
      exact Or.inr ⟨e, t, rfl, h⟩

/-- Sequencing: the second computation runs from what the first one leaves. -/
theorem Ensures.bind
    {f : α → Action σ ε β} {post' : β → σ → Prop}
    (hx : x.Ensures s post exn)
    (hf : ∀ a t, post a t → (f a).Ensures t post' exn) :
    (x >>= f).Ensures s post' exn := by
  rcases hx.cases with ⟨a, t, hxs, hpost⟩ | ⟨e, t, hxs, hexn⟩
  · have h := hf a t hpost
    unfold Ensures at h ⊢
    rw [bind_apply, hxs]
    exact h
  · apply Ensures.of_error (e := e) (t := t) _ hexn
    rw [bind_apply, hxs]

theorem Ensures.imp
    {post' : α → σ → Prop} {exn' : ε → Prop}
    (h : x.Ensures s post exn)
    (hpost : ∀ a t, post a t → post' a t)
    (hexn : ∀ e, exn e → exn' e) :
    x.Ensures s post' exn' := by
  rcases h.cases with ⟨a, t, hxs, hp⟩ | ⟨e, t, hxs, he⟩
  · exact Ensures.of_ok hxs (hpost a t hp)
  · exact Ensures.of_error hxs (hexn e he)

theorem Ensures.get_bind
    {f : σ → Action σ ε α}
    (h : (f s).Ensures s post exn) :
    (get >>= f).Ensures s post exn :=
  h

theorem Ensures.lift_bind
    {r : Except ε β} {f : β → Action σ ε α}
    (hok : ∀ b, r = .ok b → (f b).Ensures s post exn)
    (herror : ∀ e, r = .error e → exn e) :
    (lift r >>= f).Ensures s post exn := by
  cases r with
  | ok b =>
      exact hok b rfl
  | error e =>
      exact herror e rfl

/-- A loop that puts distinct new elements behind those that are there.  The invariant may
speak of the elements that are still to come. -/
theorem ensures_forEach_append
    (inv : σ → List α → Prop) (items : σ → List α)
    {step : α → Action σ ε Unit} {as : List α}
    (hstep : ∀ s a rest, inv s (a :: rest) → a ∉ items s →
      (step a).Ensures s (fun _ t => inv t rest ∧ items t = items s ++ [a]) exn)
    (hs : inv s as)
    (hdistinct : as.Nodup)
    (hnew : ∀ a ∈ as, a ∉ items s) :
    (forEach step as).Ensures s (fun _ t => inv t [] ∧ items t = items s ++ as) exn := by
  induction as generalizing s with
  | nil => exact ⟨hs, (List.append_nil _).symm⟩
  | cons a rest ih =>
      obtain ⟨hfirst, hrest⟩ := List.nodup_cons.mp hdistinct
      apply Ensures.bind (hstep s a rest hs (hnew a List.mem_cons_self))
      rintro _ t ⟨ht, hitems⟩
      have hnew' : ∀ b ∈ rest, b ∉ items t := by
        intro b hb hmem
        rw [hitems, List.mem_append, List.mem_singleton] at hmem
        rcases hmem with hmem | rfl
        · exact hnew b (List.mem_cons_of_mem _ hb) hmem
        · exact hfirst hb
      refine (ih ht hrest hnew').imp ?_ (fun _ h => h)
      rintro _ u ⟨hu, hitems'⟩
      exact ⟨hu, by rw [hitems', hitems, List.append_assoc, List.singleton_append]⟩

/-- A loop without failures succeeds. -/
theorem Ensures.exists_ok
    (h : x.Ensures s post (fun _ => False)) :
    ∃ a t, x s = (.ok a, t) ∧ post a t := by
  rcases h.cases with hok | ⟨_, _, _, hfalse⟩
  · exact hok
  · exact hfalse.elim

/-- Running on a component updates that component only. -/
theorem Ensures.zoom
    {component : σ → τ} {update : τ → σ → σ} {y : Action τ ε α} {post' : α → τ → Prop}
    (h : y.Ensures (component s) post' exn) :
    (Action.zoom component update y).Ensures s
      (fun a s' => ∃ t, post' a t ∧ s' = update t s) exn := by
  rcases h.cases with ⟨a, t, hy, hpost⟩ | ⟨e, t, hy, hexn⟩
  · apply Ensures.of_ok (a := a) (t := update t s)
    · unfold Action.zoom
      rw [hy]
    · exact ⟨t, hpost, rfl⟩
  · apply Ensures.of_error (e := e) (t := update t s) _ hexn
    unfold Action.zoom
    rw [hy]

end Ensures

/-- From this state the computation ends with a result, also a failure, and a state that
satisfy `post`. -/
def Leaves (x : Action σ ε α) (s : σ) (post : Except ε α → σ → Prop) : Prop :=
  post (x s).1 (x s).2

section Leaves

variable {x : Action σ ε α} {s : σ} {post : Except ε α → σ → Prop}

/-- Sequencing: the second computation runs from what the first one leaves, and a failure
of the first one ends both. -/
theorem Leaves.bind
    {f : α → Action σ ε β} {post' : Except ε β → σ → Prop}
    (hx : x.Leaves s post)
    (hok : ∀ a t, post (.ok a) t → (f a).Leaves t post')
    (herror : ∀ e t, post (.error e) t → post' (.error e) t) :
    (x >>= f).Leaves s post' := by
  unfold Leaves at hx ⊢
  rw [bind_apply]
  rcases hxs : x s with ⟨r, t⟩
  rw [hxs] at hx
  cases r with
  | ok a =>
      exact hok a t hx
  | error e =>
      exact herror e t hx

theorem Leaves.imp
    {post' : Except ε α → σ → Prop}
    (h : x.Leaves s post)
    (hpost : ∀ r t, post r t → post' r t) :
    x.Leaves s post' :=
  hpost _ _ h

theorem Leaves.ensures
    (h : x.Leaves s post) :
    x.Ensures s (fun a t => post (.ok a) t) (fun e => ∃ t, post (.error e) t) := by
  unfold Leaves at h
  rcases hx : x s with ⟨r, t⟩
  rw [hx] at h
  cases r with
  | ok a =>
      exact Ensures.of_ok hx h
  | error e =>
      exact Ensures.of_error hx ⟨t, h⟩

theorem Leaves.get_bind
    {f : σ → Action σ ε α}
    (h : (f s).Leaves s post) :
    (get >>= f).Leaves s post :=
  h

theorem Leaves.lift_bind
    {r : Except ε β} {f : β → Action σ ε α}
    (hok : ∀ b, r = .ok b → (f b).Leaves s post)
    (herror : ∀ e, r = .error e → post (.error e) s) :
    (lift r >>= f).Leaves s post := by
  cases r with
  | ok b =>
      exact hok b rfl
  | error e =>
      exact herror e rfl

/-- Running on a component. -/
theorem Leaves.zoom
    {component : σ → τ} {update : τ → σ → σ} {y : Action τ ε α} {post' : Except ε α → τ → Prop}
    (h : y.Leaves (component s) post') :
    (Action.zoom component update y).Leaves s
      (fun r s' => ∃ t, post' r t ∧ s' = update t s) := by
  unfold Leaves at h ⊢
  unfold Action.zoom
  rcases hy : y (component s) with ⟨r, t⟩
  rw [hy] at h
  exact ⟨t, h, rfl⟩

end Leaves

section Zoom

variable {γ : Type} {component : σ → τ} {update : τ → σ → σ}

/-- A sequence on a component is a sequence of computations on it. -/
theorem zoom_bind_bind
    (hget : ∀ t s, component (update t s) = t)
    (hset : ∀ t t' s, update t (update t' s) = update t s)
    (x : Action τ ε α) (f : α → Action τ ε β) (g : β → Action σ ε γ) :
    zoom component update (x >>= f) >>= g =
      zoom component update x >>= fun a => zoom component update (f a) >>= g := by
  funext s
  simp only [bind_apply, zoom]
  rcases hx : x (component s) with ⟨r, t⟩
  cases r with
  | error e => rfl
  | ok a =>
      dsimp only
      rw [hget]
      rcases hf : f a t with ⟨r', t'⟩
      dsimp only
      rw [hset]

/-- A result on a component leaves the state alone. -/
theorem zoom_pure_bind
    (hself : ∀ s, update (component s) s = s)
    (a : α) (g : α → Action σ ε γ) :
    zoom component update (pure a) >>= g = g a := by
  funext s
  simp only [bind_apply, zoom, pure_apply]
  rw [hself]

end Zoom

/-- Every run of the computation, also a failing one, moves the state along the relation. -/
def Respects (R : σ → σ → Prop) (x : Action σ ε α) : Prop :=
  ∀ s, R s (x s).2

section Respects

variable {R : σ → σ → Prop} {x : Action σ ε α}

theorem Respects.bind
    [Trans R R R] {f : α → Action σ ε β}
    (hx : x.Respects R)
    (hf : ∀ a, (f a).Respects R) :
    (x >>= f).Respects R := by
  intro s
  have hs := hx s
  rw [bind_apply]
  rcases hxs : x s with ⟨r, t⟩
  rw [hxs] at hs
  cases r with
  | ok a =>
      exact Trans.trans hs (hf a t)
  | error e =>
      exact hs

theorem respects_pure
    [Std.Refl R]
    (a : α) :
    (pure a : Action σ ε α).Respects R :=
  fun s => Std.Refl.refl s

theorem respects_lift
    [Std.Refl R]
    (r : Except ε α) :
    (lift r : Action σ ε α).Respects R :=
  fun s => Std.Refl.refl s

/-- Reading the state first. -/
theorem respects_get_bind
    {f : σ → Action σ ε α}
    (h : ∀ s, R s (f s s).2) :
    (get >>= f).Respects R :=
  h

theorem Respects.attempt
    (hx : x.Respects R) :
    x.attempt.Respects R :=
  hx

/-- Running on a component. -/
theorem Respects.zoom
    {component : σ → τ} {update : τ → σ → σ} {S : τ → τ → Prop} {y : Action τ ε α}
    (hy : y.Respects S)
    (h : ∀ s t, S (component s) t → R s (update t s)) :
    (Action.zoom component update y).Respects R := by
  intro s
  have hs := hy (component s)
  unfold Action.zoom
  rcases hys : y (component s) with ⟨r, t⟩
  rw [hys] at hs
  exact h s t hs

end Respects

/-- From this state the computation either succeeds with a result and a state that satisfy
`post`, or fails and leaves the state as it was. -/
def Transacts (x : Action σ ε α) (s : σ) (post : α → σ → Prop) : Prop :=
  match x s with
  | (.ok a, t) => post a t
  | (.error _, t) => t = s

section Transacts

variable {x : Action σ ε α} {s : σ} {post post' : α → σ → Prop}

theorem Transacts.get_bind
    {f : σ → Action σ ε α}
    (h : (f s).Transacts s post) :
    (get >>= f).Transacts s post :=
  h

/-- A computation that fails before the state is touched. -/
theorem Transacts.lift_bind
    {r : Except ε β} {f : β → Action σ ε α}
    (h : ∀ b, r = .ok b → (f b).Transacts s post) :
    (lift r >>= f).Transacts s post := by
  cases r with
  | ok b => exact h b rfl
  | error e => rfl

theorem transacts_throw
    (e : ε) :
    (throw e : Action σ ε α).Transacts s post :=
  rfl

/-- What a failed run leaves behind. -/
theorem Transacts.of_error
    (h : x.Transacts s post)
    {e : ε}
    (he : (x s).1 = .error e) :
    (x s).2 = s := by
  unfold Transacts at h
  rcases hx : x s with ⟨r, t⟩
  rw [hx] at h he
  cases he
  exact h

/-- What a successful run leads to. -/
theorem Transacts.apply_ok
    (h : x.Transacts s post)
    {a : α} {t : σ}
    (hx : x s = (.ok a, t)) :
    post a t := by
  unfold Transacts at h
  rw [hx] at h
  exact h

end Transacts

/-- What the first computation returns from one state, the second one returns from the other
state, and the states after them are related. -/
def SimulatedBy (R : σ → σ → Prop) (x : Action σ ε α) (s : σ) (x' : Action σ ε α) (s' : σ) :
    Prop :=
  ∀ a t, x s = (.ok a, t) → ∃ t', x' s' = (.ok a, t') ∧ R t t'

section SimulatedBy

variable {R : σ → σ → Prop} {x x' : Action σ ε α} {s s' : σ}

theorem simulatedBy_pure
    (hrel : R s s')
    (a : α) :
    (pure a : Action σ ε α).SimulatedBy R s (pure a) s' := by
  rintro b t h
  cases h
  exact ⟨s', rfl, hrel⟩

theorem simulatedBy_throw
    (e : ε) :
    (throw e : Action σ ε α).SimulatedBy R s x' s' := by
  rintro b t h
  cases h

theorem SimulatedBy.get_bind
    {f f' : σ → Action σ ε α}
    (h : (f s).SimulatedBy R s (f' s') s') :
    (get >>= f).SimulatedBy R s (get >>= f') s' :=
  h

end SimulatedBy

/-- From a state that satisfies `inv` every run, also a failing one, ends in such a state, and
it fails only with errors that satisfy `exn`. -/
def Within (inv : σ → Prop) (exn : ε → Prop) (x : Action σ ε α) : Prop :=
  ∀ s, inv s → inv (x s).2 ∧ ∀ e, (x s).1 = .error e → exn e

section Within

variable {inv : σ → Prop} {exn : ε → Prop} {x : Action σ ε α}

theorem within_pure
    (a : α) :
    (pure a : Action σ ε α).Within inv exn := by
  intro s hs
  exact ⟨hs, fun e he => (by cases he)⟩

theorem within_throw
    {e : ε}
    (he : exn e) :
    (throw e : Action σ ε α).Within inv exn := by
  intro s hs
  refine ⟨hs, ?_⟩
  rintro _ h
  cases h
  exact he

theorem within_lift
    {r : Except ε α}
    (h : ∀ e, r = .error e → exn e) :
    (lift r : Action σ ε α).Within inv exn :=
  fun _ hs => ⟨hs, h⟩

theorem within_modify
    {f : σ → σ}
    (h : ∀ s, inv s → inv (f s)) :
    (modify f : Action σ ε Unit).Within inv exn := by
  intro s hs
  exact ⟨h s hs, fun e he => (by cases he)⟩

theorem within_set
    {t : σ}
    (ht : inv t) :
    (set t : Action σ ε Unit).Within inv exn := by
  intro s _
  exact ⟨ht, fun e he => (by cases he)⟩

theorem Within.bind
    {f : α → Action σ ε β}
    (hx : x.Within inv exn)
    (hf : ∀ a, (f a).Within inv exn) :
    (x >>= f).Within inv exn := by
  intro s hs
  obtain ⟨hinv, herror⟩ := hx s hs
  rw [bind_apply]
  rcases hxs : x s with ⟨r, t⟩
  rw [hxs] at hinv herror
  cases r with
  | ok a => exact hf a t hinv
  | error e =>
      refine ⟨hinv, ?_⟩
      rintro _ h
      cases h
      exact herror e rfl

/-- Reading the state first. -/
theorem within_get_bind
    {f : σ → Action σ ε α}
    (h : ∀ s, inv s → (f s).Within inv exn) :
    (get >>= f).Within inv exn :=
  fun s hs => h s hs s hs

theorem within_lift_bind
    {r : Except ε α} {f : α → Action σ ε β}
    (herror : ∀ e, r = .error e → exn e)
    (hok : ∀ a, r = .ok a → (f a).Within inv exn) :
    (lift r >>= f).Within inv exn := by
  cases r with
  | ok a => exact hok a rfl
  | error e =>
      intro s hs
      refine ⟨hs, ?_⟩
      rintro _ h
      cases h
      exact herror e rfl

/-- Going on after a failure: what is handed over fails within bounds. -/
theorem Within.attempt_bind
    {f : Except ε α → Action σ ε β}
    (hx : x.Within inv exn)
    (hf : ∀ r, (∀ e, r = .error e → exn e) → (f r).Within inv exn) :
    (attempt x >>= f).Within inv exn := by
  intro s hs
  obtain ⟨hinv, herror⟩ := hx s hs
  exact hf (x s).1 herror (x s).2 hinv

/-- Running on a component. -/
theorem Within.zoom
    {component : σ → τ} {update : τ → σ → σ} {inv' : τ → Prop} {y : Action τ ε α}
    (hy : y.Within inv' exn)
    (hcomponent : ∀ s, inv s → inv' (component s))
    (hupdate : ∀ s t, inv s → inv' t → inv (update t s)) :
    (Action.zoom component update y).Within inv exn := by
  intro s hs
  obtain ⟨hinv, herror⟩ := hy (component s) (hcomponent s hs)
  unfold Action.zoom
  rcases hys : y (component s) with ⟨r, t⟩
  rw [hys] at hinv herror
  exact ⟨hupdate s t hs hinv, herror⟩

theorem within_forEach
    {step : α → Action σ ε Unit}
    (hstep : ∀ a, (step a).Within inv exn)
    (as : List α) :
    (forEach step as).Within inv exn := by
  induction as with
  | nil => exact within_pure ()
  | cons a rest ih => exact (hstep a).bind (fun _ => ih)

end Within

/-- From a state that satisfies `inv` every run, also a failing one, ends in such a state, and a
result satisfies `post`. -/
def Confines (inv : σ → Prop) (post : α → Prop) (x : Action σ ε α) : Prop :=
  ∀ s, inv s → inv (x s).2 ∧ ∀ a, (x s).1 = .ok a → post a

section Confines

variable {inv : σ → Prop} {post : α → Prop} {x : Action σ ε α}

theorem confines_lift
    {r : Except ε α}
    (h : ∀ a, r = .ok a → post a) :
    (lift r : Action σ ε α).Confines inv post :=
  fun _ hs => ⟨hs, h⟩

theorem confines_pure
    {a : α}
    (h : post a) :
    (pure a : Action σ ε α).Confines inv post :=
  confines_lift (fun _ heq => (by cases heq; exact h))

theorem confines_modify
    {post : Unit → Prop} {f : σ → σ}
    (h : ∀ s, inv s → inv (f s))
    (hpost : post ()) :
    (modify f : Action σ ε Unit).Confines inv post :=
  fun s hs => ⟨h s hs, fun _ _ => hpost⟩

theorem confines_set
    {post : Unit → Prop} {t : σ}
    (ht : inv t)
    (hpost : post ()) :
    (set t : Action σ ε Unit).Confines inv post :=
  fun _ _ => ⟨ht, fun _ _ => hpost⟩

theorem Confines.bind
    {post' : β → Prop} {f : α → Action σ ε β}
    (hx : x.Confines inv post)
    (hf : ∀ a, post a → (f a).Confines inv post') :
    (x >>= f).Confines inv post' := by
  intro s hs
  obtain ⟨hinv, hpost⟩ := hx s hs
  rw [bind_apply]
  rcases hxs : x s with ⟨r, t⟩
  rw [hxs] at hinv hpost
  cases r with
  | ok a => exact hf a (hpost a rfl) t hinv
  | error e => exact ⟨hinv, fun _ h => (by cases h)⟩

/-- Reading the state first. -/
theorem confines_get_bind
    {f : σ → Action σ ε α}
    (h : ∀ s, inv s → (f s).Confines inv post) :
    (get >>= f).Confines inv post :=
  fun s hs => h s hs s hs

theorem confines_lift_bind
    {r : Except ε β} {f : β → Action σ ε α}
    (h : ∀ b, r = .ok b → (f b).Confines inv post) :
    (lift r >>= f).Confines inv post :=
  (confines_lift (fun _ hb => hb)).bind h

theorem confines_set_bind
    {t : σ} {f : Unit → Action σ ε α}
    (ht : inv t)
    (hf : (f ()).Confines inv post) :
    (set t >>= f).Confines inv post :=
  (confines_set ht trivial : (set t : Action σ ε Unit).Confines inv (fun _ => True)).bind
    (fun _ _ => hf)

theorem confines_modify_bind
    {g : σ → σ} {f : Unit → Action σ ε α}
    (hg : ∀ s, inv s → inv (g s))
    (hf : (f ()).Confines inv post) :
    (modify g >>= f).Confines inv post :=
  (confines_modify hg trivial : (modify g : Action σ ε Unit).Confines inv (fun _ => True)).bind
    (fun _ _ => hf)

/-- Running on a component that the invariant does not speak of. -/
theorem confines_zoom
    {component : σ → τ} {update : τ → σ → σ} {post : α → Prop} {y : Action τ ε α}
    (hupdate : ∀ s t, inv s → inv (update t s))
    (hpost : ∀ a, post a) :
    (zoom component update y).Confines inv post :=
  fun s hs => ⟨hupdate s _ hs, fun a _ => hpost a⟩

theorem confines_forEach
    {step : α → Action σ ε Unit} {as : List α}
    (hstep : ∀ a ∈ as, (step a).Confines inv (fun _ => True)) :
    (forEach step as).Confines inv (fun _ => True) := by
  induction as with
  | nil => exact confines_pure trivial
  | cons a rest ih =>
      exact (hstep a List.mem_cons_self).bind
        (fun _ _ => ih (fun other hother => hstep other (List.mem_cons_of_mem _ hother)))

end Confines

/-- The first computation keeps an invariant and cannot bring a dead state back to life; where it
ends in a live state, but for the exempt errors, the second one ends alike from every related
state, in a related state. -/
structure Tracks (inv live : σ → Prop) (exempt : ε → Prop) (R : σ → σ → Prop)
    (x x' : Action σ ε α) : Prop where
  keeps : ∀ s, inv s → inv (x s).2
  back : ∀ s, inv s → live (x s).2 → live s
  simulates : ∀ s s' r t, inv s → R s s' → x s = (r, t) → live t →
    (∀ e, r = .error e → ¬ exempt e) → ∃ t', x' s' = (r, t') ∧ R t t'

section Tracks

variable {inv live : σ → Prop} {exempt : ε → Prop} {R : σ → σ → Prop} {x x' : Action σ ε α}

theorem tracks_lift
    (r : Except ε α) :
    (lift r : Action σ ε α).Tracks inv live exempt R (lift r) := by
  refine ⟨fun s hs => hs, fun s _ hlive => hlive, ?_⟩
  rintro s s' _ _ _ hrel ⟨⟩ _ _
  exact ⟨s', rfl, hrel⟩

/-- An exempt error is tracked by everything. -/
theorem tracks_throw
    {e : ε}
    (he : exempt e)
    (x' : Action σ ε α) :
    (throw e : Action σ ε α).Tracks inv live exempt R x' := by
  refine ⟨fun s hs => hs, fun s _ hlive => hlive, ?_⟩
  rintro s s' _ _ _ _ ⟨⟩ _ hexempt
  exact absurd he (hexempt e rfl)

theorem Tracks.bind
    {f f' : α → Action σ ε β}
    (hx : x.Tracks inv live exempt R x')
    (hf : ∀ a, (f a).Tracks inv live exempt R (f' a)) :
    (x >>= f).Tracks inv live exempt R (x' >>= f') := by
  refine ⟨fun s hs => ?_, fun s hs hlive => ?_, ?_⟩
  · have hkeeps := hx.keeps s hs
    rw [bind_apply]
    rcases hxs : x s with ⟨r, t⟩
    rw [hxs] at hkeeps
    cases r with
    | ok a => exact (hf a).keeps t hkeeps
    | error e => exact hkeeps
  · have hkeeps := hx.keeps s hs
    have hback := hx.back s hs
    rw [bind_apply] at hlive
    rcases hxs : x s with ⟨r, t⟩
    rw [hxs] at hkeeps hback hlive
    cases r with
    | ok a => exact hback ((hf a).back t hkeeps hlive)
    | error e => exact hback hlive
  · intro s s' r u hs hrel hrun hlive hexempt
    have hkeeps := hx.keeps s hs
    rw [bind_apply] at hrun
    rcases hxs : x s with ⟨r', t⟩
    rw [hxs] at hkeeps hrun
    cases r' with
    | ok a =>
        have hmid : live t := by
          apply (hf a).back t hkeeps
          have hstate := congrArg Prod.snd hrun
          rw [hstate]
          exact hlive
        obtain ⟨t', hxs', hrel'⟩ := hx.simulates s s' _ t hs hrel hxs hmid
          (fun _ h => (by cases h))
        obtain ⟨u', hft', hrel''⟩ := (hf a).simulates t t' r u hkeeps hrel' hrun hlive hexempt
        refine ⟨u', ?_, hrel''⟩
        rw [bind_apply, hxs']
        exact hft'
    | error e =>
        cases hrun
        obtain ⟨t', hxs', hrel'⟩ := hx.simulates s s' _ _ hs hrel hxs hlive
          (fun e' h => (by cases h; exact hexempt e rfl))
        refine ⟨t', ?_, hrel'⟩
        rw [bind_apply, hxs']

/-- Reading the state first. -/
theorem tracks_get_bind
    {f f' : σ → Action σ ε α}
    (h : ∀ s s', inv s → R s s' → (f s).Tracks inv live exempt R (f' s'))
    (hself : ∀ s, inv s → (f s).Tracks inv live exempt R (f' s)) :
    (get >>= f).Tracks inv live exempt R (get >>= f') :=
  ⟨fun s hs => (hself s hs).keeps s hs, fun s hs => (hself s hs).back s hs,
    fun s s' r t hs hrel => (h s s' hs hrel).simulates s s' r t hs hrel⟩

/-- Tracking looks at the actions only where the invariant and the relation hold. -/
theorem Tracks.congr
    {y y' : Action σ ε α}
    (h : y.Tracks inv live exempt R y')
    (hx : ∀ s, inv s → x s = y s)
    (hx' : ∀ s s', inv s → R s s' → x' s' = y' s') :
    x.Tracks inv live exempt R x' := by
  refine ⟨fun s hs => ?_, fun s hs => ?_, fun s s' r t hs hrel => ?_⟩
  · rw [hx s hs]
    exact h.keeps s hs
  · rw [hx s hs]
    exact h.back s hs
  · rw [hx s hs, hx' s s' hs hrel]
    exact h.simulates s s' r t hs hrel

end Tracks

end Action

/-- The fallible computation succeeds with a value that satisfies `post`, or fails with
an error that satisfies `exn`. -/
def Outcome {ε α : Type} (x : Except ε α) (post : α → Prop) (exn : ε → Prop) : Prop :=
  match x with
  | .ok a => post a
  | .error e => exn e

section Outcome

variable {σ ε α β : Type} {post : α → Prop} {exn : ε → Prop}

theorem Outcome.bind
    {x : Except ε α} {f : α → Except ε β} {post' : β → Prop}
    (hx : Outcome x post exn)
    (hf : ∀ a, post a → Outcome (f a) post' exn) :
    Outcome (x >>= f) post' exn := by
  cases x with
  | ok a =>
      exact hf a hx
  | error e =>
      exact hx

theorem Outcome.imp
    {x : Except ε α} {post' : α → Prop} {exn' : ε → Prop}
    (hx : Outcome x post exn)
    (hpost : ∀ a, post a → post' a)
    (hexn : ∀ e, exn e → exn' e) :
    Outcome x post' exn' := by
  cases x with
  | ok a =>
      exact hpost a hx
  | error e =>
      exact hexn e hx

theorem Outcome.exec
    {x : Action σ ε α} {s : σ} {post' : α → σ → Prop}
    (hx : x.Ensures s post' exn) :
    Outcome (x.exec s) (fun t => ∃ a, post' a t) exn := by
  unfold Action.exec
  rcases hx.cases with ⟨a, t, hxs, hpost⟩ | ⟨e, t, hxs, hexn⟩
  · rw [hxs]
    exact ⟨a, hpost⟩
  · rw [hxs]
    exact hexn

end Outcome

end SimpleZanzibar
