import SimpleZanzibar.Lib.Action

/-!
# The states that a computation passes through

`Action.Passes step x s points`: built up from its reads and updates, the computation started in
the state `s` goes through the listed states, also when it fails, and each of its updates is one
of the steps.  A property of all these states is stated with what the computation as a whole
restores.

**Results.**
* `Action.Passes.last_mem`: the state after the computation is among them.
* `Action.Always.bind`, `Action.Always.bracket`, `Action.Balanced.bind` and their companions: a
  property of every state on the way, and a relation between the states before and after.
-/

namespace SimpleZanzibar

namespace Action

variable {σ τ ε α β : Type}

/-- The computation goes from the state through these states, by steps. -/
inductive Passes {ε : Type} :
    {σ α : Type} → (σ → σ → Prop) → Action σ ε α → σ → List σ → Prop
  | get {σ : Type} {step : σ → σ → Prop} (s : σ) : Passes step get s [s]
  | lift {σ α : Type} {step : σ → σ → Prop} (r : Except ε α) (s : σ) :
      Passes step (lift r) s [s]
  | set {σ : Type} {step : σ → σ → Prop} {s t : σ} (hstep : step s t) :
      Passes step (set t) s [s, t]
  | modify {σ : Type} {step : σ → σ → Prop} {f : σ → σ} {s : σ} (hstep : step s (f s)) :
      Passes step (modify f) s [s, f s]
  | bind_ok {σ α β : Type} {step : σ → σ → Prop} {x : Action σ ε α} {f : α → Action σ ε β}
      {s t : σ} {a : α} {points points' : List σ} (hx : Passes step x s points)
      (ha : x s = (.ok a, t)) (hf : Passes step (f a) t points') :
      Passes step (x >>= f) s (points ++ points')
  | bind_error {σ α β : Type} {step : σ → σ → Prop} {x : Action σ ε α} {f : α → Action σ ε β}
      {s t : σ} {e : ε} {points : List σ} (hx : Passes step x s points)
      (he : x s = (.error e, t)) : Passes step (x >>= f) s points
  | attempt {σ α : Type} {step : σ → σ → Prop} {x : Action σ ε α} {s : σ} {points : List σ}
      (hx : Passes step x s points) : Passes step x.attempt s points
  | zoom {σ τ α : Type} {step : σ → σ → Prop} {step' : τ → τ → Prop} {component : σ → τ}
      {update : τ → σ → σ} {x : Action τ ε α} {s : σ} {points : List τ}
      (hx : Passes step' x (component s) points)
      (hstep : ∀ t t', step' t t' → step (update t s) (update t' s)) :
      Passes step (zoom component update x) s (points.map (fun t => update t s))

/-- The state after the computation is one of them. -/
theorem Passes.last_mem
    {step : σ → σ → Prop} {x : Action σ ε α} {s : σ} {points : List σ}
    (h : x.Passes step s points) :
    (x s).2 ∈ points := by
  induction h with
  | get s => exact List.mem_singleton_self s
  | lift r s => exact List.mem_singleton_self s
  | set _ => exact List.mem_cons_of_mem _ (List.mem_singleton_self _)
  | modify _ => exact List.mem_cons_of_mem _ (List.mem_singleton_self _)
  | bind_ok _ ha _ _ ih =>
      rw [bind_apply, ha]
      exact List.mem_append_right _ ih
  | bind_error _ he ih =>
      rw [bind_apply, he]
      rw [he] at ih
      exact ih
  | attempt _ ih => exact ih
  | @zoom σ τ α _ _ component update x s points _ _ ih =>
      show (Action.zoom component update x s).2 ∈ _
      unfold Action.zoom
      exact List.mem_map_of_mem ih

/-- Every state on the way has the property, and the state after the computation is related to
the state before it, whatever the result. -/
def Always (step : σ → σ → Prop) (point : σ → Prop) (restored : σ → σ → Prop)
    (x : Action σ ε α) (s : σ) : Prop :=
  (∃ points, x.Passes step s points ∧ ∀ t ∈ points, point t) ∧ restored s (x s).2

section Always

variable {step : σ → σ → Prop} {point : σ → Prop} {restored : σ → σ → Prop}
  {x : Action σ ε α} {s : σ}

theorem Always.last
    (h : x.Always step point restored s) :
    point (x s).2 := by
  obtain ⟨⟨points, hpasses, hpoints⟩, _⟩ := h
  exact hpoints _ hpasses.last_mem

/-- A computation that leaves the state alone. -/
theorem always_lift
    (hs : point s)
    (hself : restored s s)
    (r : Except ε α) :
    (lift r).Always step point restored s :=
  ⟨⟨[s], .lift r s, fun _ ht => List.mem_singleton.mp ht ▸ hs⟩, hself⟩

theorem always_modify
    {f : σ → σ}
    (hs : point s)
    (hf : point (f s))
    (hstep : step s (f s))
    (hrestored : restored s (f s)) :
    (modify f : Action σ ε Unit).Always step point restored s := by
  refine ⟨⟨[s, f s], .modify hstep, fun t ht => ?_⟩, hrestored⟩
  rcases List.mem_cons.mp ht with rfl | ht
  · exact hs
  · rw [List.mem_singleton.mp ht]
    exact hf

/-- Sequencing.  The relations of the two parts may differ: the first part may leave what the
second one restores. -/
theorem Always.bind
    {f : α → Action σ ε β} {Q R S : σ → σ → Prop}
    (hx : x.Always step point Q s)
    (herror : ∀ e t, x s = (.error e, t) → Q s t → S s t)
    (hf : ∀ a t, x s = (.ok a, t) → Q s t → point t →
      (f a).Always step point R t ∧ ∀ u, R t u → S s u) :
    (x >>= f).Always step point S s := by
  have hlast := hx.last
  obtain ⟨⟨points, hpasses, hpoints⟩, hfirst⟩ := hx
  rcases hxs : x s with ⟨r, t⟩
  rw [hxs] at hfirst hlast
  unfold Always
  rw [bind_apply, hxs]
  cases r with
  | error e =>
      exact ⟨⟨points, .bind_error hpasses hxs, hpoints⟩, herror e t hxs hfirst⟩
  | ok a =>
      obtain ⟨⟨⟨points', hpasses', hpoints'⟩, hsecond⟩, hwhole⟩ := hf a t hxs hfirst hlast
      refine ⟨⟨points ++ points', .bind_ok hpasses hxs hpasses', fun u hu => ?_⟩,
        hwhole _ hsecond⟩
      rcases List.mem_append.mp hu with hu | hu
      · exact hpoints u hu
      · exact hpoints' u hu

/-- Sequencing under one transitive relation. -/
theorem Always.bind_trans
    [Trans restored restored restored] {f : α → Action σ ε β}
    (hx : x.Always step point restored s)
    (hf : ∀ a t, point t → restored s t → (f a).Always step point restored t) :
    (x >>= f).Always step point restored s :=
  hx.bind (fun _ _ _ h => h)
    (fun a t _ hst ht => ⟨hf a t ht hst, fun _ h => Trans.trans hst h⟩)

/-- A result at the end that leaves the state alone. -/
theorem Always.bind_lift
    (hx : x.Always step point restored s)
    (r : α → Except ε β) :
    (x >>= fun a => lift (r a)).Always step point restored s := by
  refine hx.bind (fun _ _ _ h => h) (R := Eq)
    (fun a t _ hst ht => ⟨always_lift ht rfl (r a), ?_⟩)
  rintro u rfl
  exact hst

theorem Always.get_bind
    {f : σ → Action σ ε α}
    (hs : point s)
    (h : (f s).Always step point restored s) :
    (get >>= f).Always step point restored s := by
  obtain ⟨⟨points, hpasses, hpoints⟩, hrestored⟩ := h
  refine ⟨⟨[s] ++ points, .bind_ok (.get s) rfl hpasses, fun t ht => ?_⟩, hrestored⟩
  rcases List.mem_append.mp ht with ht | ht
  · rw [List.mem_singleton.mp ht]
    exact hs
  · exact hpoints t ht

theorem Always.lift_bind
    {r : Except ε α} {f : α → Action σ ε β}
    (hs : point s)
    (hself : restored s s)
    (h : ∀ a, r = .ok a → (f a).Always step point restored s) :
    (lift r >>= f).Always step point restored s := by
  refine (always_lift hs rfl r).bind (Q := Eq) (R := restored) ?_ ?_
  · rintro _ _ _ rfl
    exact hself
  · rintro a _ hrun rfl _
    exact ⟨h a (Prod.mk.inj hrun).1, fun _ hu => hu⟩

/-- Handing a failure over. -/
theorem Always.attempt
    (h : x.Always step point restored s) :
    x.attempt.Always step point restored s := by
  obtain ⟨⟨points, hpasses, hpoints⟩, hrestored⟩ := h
  exact ⟨⟨points, hpasses.attempt, hpoints⟩, hrestored⟩

/-- Running on a component. -/
theorem Always.zoom
    {component : σ → τ} {update : τ → σ → σ} {step' : τ → τ → Prop} {point' : τ → Prop}
    {restored' : τ → τ → Prop} {y : Action τ ε α}
    (hy : y.Always step' point' restored' (component s))
    (hstep : ∀ t t', step' t t' → step (update t s) (update t' s))
    (hpoint : ∀ t, point' t → point (update t s))
    (hrestored : ∀ t, point' t → restored' (component s) t → restored s (update t s)) :
    (Action.zoom component update y).Always step point restored s := by
  have hlast := hy.last
  obtain ⟨⟨points, hpasses, hpoints⟩, hback⟩ := hy
  refine ⟨⟨_, .zoom hpasses hstep, fun u hu => ?_⟩, ?_⟩
  · obtain ⟨t, ht, rfl⟩ := List.mem_map.mp hu
    exact hpoint t (hpoints t ht)
  · show restored s (Action.zoom component update y s).2
    unfold Action.zoom
    exact hrestored _ hlast hback

/-- A body between opening and closing, with its failure kept until the end.  Closing undoes what
opening did to the state. -/
theorem Always.bracket
    {opening : Action σ ε Unit} {c : Except ε α → σ → σ}
    (hopening : opening.Always step point (fun _ _ => True) s)
    (hfailed : ∀ e t, opening s = (.error e, t) → restored s t)
    (hx : ∀ t, opening s = (.ok (), t) → point t → x.Always step point restored t)
    (hclosing : ∀ t u r, opening s = (.ok (), t) → point u → restored t u →
      point (c r u) ∧ step u (c r u) ∧ restored s (c r u)) :
    (do
      opening
      let r ← Action.attempt x
      modify (c r)
      lift r : Action σ ε α).Always step point restored s := by
  refine hopening.bind (fun e t hrun _ => hfailed e t hrun) (R := fun _ u => restored s u) ?_
  rintro ⟨⟩ t hrun - ht
  refine ⟨?_, fun _ hu => hu⟩
  refine ((hx t hrun ht).attempt).bind (fun e u hattempt _ => ?_) (R := fun _ u => restored s u)
    (fun r u _ htu hu => ?_)
  · cases hattempt
  · obtain ⟨hpoint, hstep, hback⟩ := hclosing t u r hrun hu htu
    exact ⟨(always_modify hu hpoint hstep hback).bind_lift (fun _ => r), fun _ h => h⟩

end Always

/-- From every state with the property, all states on the way have it, and the state after the
computation is related to the state before it. -/
def Balanced (step : σ → σ → Prop) (point : σ → Prop) (restored : σ → σ → Prop)
    (x : Action σ ε α) : Prop :=
  ∀ s, point s → x.Always step point restored s

section Balanced

variable {step : σ → σ → Prop} {point : σ → Prop} {restored : σ → σ → Prop}
  {x : Action σ ε α}

theorem balanced_lift
    [Std.Refl restored]
    (r : Except ε α) :
    (lift r : Action σ ε α).Balanced step point restored :=
  fun s hs => always_lift hs (Std.Refl.refl s) r

theorem balanced_pure
    [Std.Refl restored]
    (a : α) :
    (pure a : Action σ ε α).Balanced step point restored :=
  balanced_lift (.ok a)

theorem balanced_throw
    [Std.Refl restored]
    (e : ε) :
    (throw e : Action σ ε α).Balanced step point restored :=
  balanced_lift (.error e)

theorem Balanced.bind
    [Trans restored restored restored] {f : α → Action σ ε β}
    (hx : x.Balanced step point restored)
    (hf : ∀ a, (f a).Balanced step point restored) :
    (x >>= f).Balanced step point restored :=
  fun s hs => (hx s hs).bind_trans (fun a t ht _ => hf a t ht)

/-- Reading the state first. -/
theorem balanced_get_bind
    {f : σ → Action σ ε α}
    (h : ∀ s, point s → (f s).Balanced step point restored) :
    (get >>= f).Balanced step point restored :=
  fun s hs => Always.get_bind hs (h s hs s hs)

end Balanced

end Action

end SimpleZanzibar
