import Mathlib.Data.List.AList
import Mathlib.Data.List.Nodup
import SimpleZanzibar.EngineProtocol
import SimpleZanzibar.RelationshipText

/-!
# Tenant shards

One engine for each tenant, in a map that readers load as a whole.  A caller that does not find
its tenant takes the gate, looks again, and publishes a copy of the map with a new engine in it.
Between any two of these steps other callers may run.

An engine is known by the number under which it was built.  The log is kept for the statements
only: it records what the callers asked for and what they were given, oldest first.

**Results.**
* `validateTenantId_ok_iff`: which strings are tenant ids.
* `ShardSystem.Inv.step`: what one step keeps.
* `ShardSystem.run_agrees`: in every interleaving a tenant has one engine, no engine is shared,
  and what a caller was given is found by everyone from then on.
* `ShardSystem.call_completes`: no caller is stuck, whoever holds the gate.
-/

namespace SimpleZanzibar

/-! ## Tenant ids -/

def maxTenantIdBytes : Nat := 128

inductive TenantIdError where
  | empty
  | tooLong (maxBytes : Nat)
  | invalidByte (offset : Nat)
deriving DecidableEq, Repr

/-- Letters, digits, `_`, `-` and `.`. -/
def isTenantIdByte (byte : UInt8) : Bool :=
  isAsciiAlphanumeric byte || byte == 95 || byte == 45 || byte == 46

def validateTenantId (value : String) : Except TenantIdError Unit :=
  if (stringBytes value).isEmpty then
    .error .empty
  else if maxTenantIdBytes < (stringBytes value).length then
    .error (.tooLong maxTenantIdBytes)
  else
    match firstInvalidOffset (fun _ byte => isTenantIdByte byte) 0 (stringBytes value) with
    | some offset => .error (.invalidByte offset)
    | none => .ok ()

/-- A validated tenant id. -/
structure TenantId where
  value : String
  valid : validateTenantId value = .ok ()
deriving DecidableEq

theorem TenantId.ext
    {a b : TenantId}
    (h : a.value = b.value) :
    a = b := by
  cases a
  cases b
  cases h
  rfl

/-- The strings that are tenant ids. -/
theorem validateTenantId_ok_iff
    (value : String) :
    validateTenantId value = .ok () ↔
      stringBytes value ≠ [] ∧ (stringBytes value).length ≤ maxTenantIdBytes ∧
        ∀ byte ∈ stringBytes value, isTenantIdByte byte = true := by
  unfold validateTenantId
  rw [← @firstInvalidOffset_eq_none_iff (fun _ byte => isTenantIdByte byte) isTenantIdByte 0
    (stringBytes value) (fun _ _ => rfl)]
  by_cases hempty : stringBytes value = []
  · simp [hempty]
  · by_cases hlong : maxTenantIdBytes < (stringBytes value).length
    · simp [hempty, hlong]
    · cases hoffset : firstInvalidOffset (fun _ byte => isTenantIdByte byte) 0
          (stringBytes value) with
      | none => simp [hempty, hlong, Nat.not_lt.mp hlong]
      | some offset => simp [hempty, hlong]

/-! ## The parties -/

/-- The engines of the tenants, each by the number under which it was built. -/
abbrev ShardMap := AList (fun _ : TenantId => Nat)

/-- The tenant ids of a map, sorted. -/
def ShardMap.tenants (shards : ShardMap) : List TenantId :=
  sortByName (·.value) shards.keys

/-- Where a caller is in `get_or_create`. -/
inductive ShardCall where
  | idle
  /-- Before the lookup without the gate. -/
  | looking (tenant : TenantId)
  /-- At the gate. -/
  | waiting (tenant : TenantId)
  /-- Behind the gate, before the second lookup. -/
  | lookingAgain (tenant : TenantId)
  /-- The second lookup found nothing. -/
  | missed (tenant : TenantId)
  /-- The map was loaded and copied. -/
  | copied (tenant : TenantId) (next : ShardMap)
  /-- An engine was built and entered into the copy. -/
  | built (tenant : TenantId) (engine : Nat) (next : ShardMap)
  /-- About to leave the gate. -/
  | leaving (tenant : TenantId) (engine : Nat)

/-- The tenant that the caller asks for. -/
def ShardCall.tenant? : ShardCall → Option TenantId
  | .idle => none
  | .looking tenant | .waiting tenant | .lookingAgain tenant | .missed tenant
  | .copied tenant _ | .built tenant _ _ | .leaving tenant _ => some tenant

/-- The caller is between the gate and its release. -/
def ShardCall.HoldsGate : ShardCall → Prop
  | .idle | .looking _ | .waiting _ => False
  | _ => True

/-- What a caller asked for and what it was given. -/
inductive ShardObservation where
  | called (tenant : TenantId)
  | returned (tenant : TenantId) (engine : Nat)
  | got (tenant : TenantId) (engine : Option Nat)
  | listed (tenants : List TenantId)

/-- The caller of `get_or_create` or of `get` was given the engine. -/
def ShardObservation.Gives (tenant : TenantId) (engine : Nat) :
    ShardObservation → Prop
  | .returned tenant' engine' => tenant' = tenant ∧ engine' = engine
  | .got tenant' engine' => tenant' = tenant ∧ engine' = some engine
  | _ => False

/-- What an observation may say, in view of the earlier ones: only tenants that were asked for
have engines, and a tenant whose engine was given to a caller is found. -/
def ShardObservation.Justified (before : List ShardObservation) : ShardObservation → Prop
  | .called _ => True
  | .returned tenant _ => .called tenant ∈ before
  | .got tenant (some _) => .called tenant ∈ before
  | .got tenant none => ∀ seen ∈ before, ∀ engine, ¬ seen.Gives tenant engine
  | .listed tenants =>
      tenants.Pairwise (fun left right => left.value < right.value) ∧
        (∀ tenant ∈ tenants, .called tenant ∈ before) ∧
        ∀ seen ∈ before, ∀ tenant engine, seen.Gives tenant engine → tenant ∈ tenants

/-- A tenant has one engine, no engine serves two tenants, and every observation is justified
by those before it. -/
structure ShardsAgree (log : List ShardObservation) : Prop where
  one : ∀ seen ∈ log, ∀ seen' ∈ log, ∀ tenant engine engine',
    seen.Gives tenant engine → seen'.Gives tenant engine' → engine = engine'
  apart : ∀ seen ∈ log, ∀ seen' ∈ log, ∀ tenant tenant' engine,
    seen.Gives tenant engine → seen'.Gives tenant' engine → tenant = tenant'
  justified : ∀ before seen after, log = before ++ seen :: after → seen.Justified before

/-- What may happen next. -/
inductive ShardEvent (Caller : Type) where
  | call (caller : Caller) (tenant : TenantId)
  | look (caller : Caller)
  | lock (caller : Caller)
  | lookAgain (caller : Caller)
  | copy (caller : Caller)
  | build (caller : Caller)
  | store (caller : Caller)
  | release (caller : Caller)
  | get (tenant : TenantId)
  | tenants

/-- The published map, the gate, the callers and the number of engines that were built. -/
structure ShardSystem (Caller : Type) where
  shards : ShardMap
  createGate : Option Caller
  calls : Caller → ShardCall
  engines : Nat
  log : List ShardObservation

namespace ShardSystem

variable {Caller : Type}

/-- An empty shard set. -/
def new : ShardSystem Caller where
  shards := ∅
  createGate := none
  calls := fun _ => .idle
  engines := 0
  log := []

variable [DecidableEq Caller]

/-- The caller goes on to another place. -/
def goto (system : ShardSystem Caller) (caller : Caller) (call : ShardCall) :
    ShardSystem Caller :=
  { system with calls := Function.update system.calls caller call }

/-- One event, when it can happen. -/
def step (system : ShardSystem Caller) : ShardEvent Caller → Option (ShardSystem Caller)
  | .call caller tenant =>
      match system.calls caller with
      | .idle =>
          some { system.goto caller (.looking tenant) with
            log := system.log ++ [.called tenant] }
      | _ => none
  | .look caller =>
      match system.calls caller with
      | .looking tenant =>
          match system.shards.lookup tenant with
          | some engine =>
              some { system.goto caller .idle with
                log := system.log ++ [.returned tenant engine] }
          | none => some (system.goto caller (.waiting tenant))
      | _ => none
  | .lock caller =>
      match system.calls caller, system.createGate with
      | .waiting tenant, none =>
          some { system.goto caller (.lookingAgain tenant) with createGate := some caller }
      | _, _ => none
  | .lookAgain caller =>
      match system.calls caller with
      | .lookingAgain tenant =>
          match system.shards.lookup tenant with
          | some engine => some (system.goto caller (.leaving tenant engine))
          | none => some (system.goto caller (.missed tenant))
      | _ => none
  | .copy caller =>
      match system.calls caller with
      | .missed tenant => some (system.goto caller (.copied tenant system.shards))
      | _ => none
  | .build caller =>
      match system.calls caller with
      | .copied tenant next =>
          some { system.goto caller
            (.built tenant system.engines (next.insert tenant system.engines)) with
              engines := system.engines + 1 }
      | _ => none
  | .store caller =>
      match system.calls caller with
      | .built tenant engine next =>
          some { system.goto caller (.leaving tenant engine) with shards := next }
      | _ => none
  | .release caller =>
      match system.calls caller with
      | .leaving tenant engine =>
          some { system.goto caller .idle with
            createGate := none
            log := system.log ++ [.returned tenant engine] }
      | _ => none
  | .get tenant =>
      some { system with log := system.log ++ [.got tenant (system.shards.lookup tenant)] }
  | .tenants =>
      some { system with log := system.log ++ [.listed system.shards.tenants] }

/-- Runs an interleaving; an event that cannot happen is skipped. -/
def run (system : ShardSystem Caller) (events : List (ShardEvent Caller)) :
    ShardSystem Caller :=
  events.foldl (fun system event => (system.step event).getD system) system

/-! ## The map, the gate and the places of the callers -/

/-- What a caller behind the gate knows at its place: the map has as many entries as engines
were built, but for one that is built and not yet stored. -/
def At (system : ShardSystem Caller) : ShardCall → Prop
  | .lookingAgain _ => system.shards.keys.length = system.engines
  | .missed tenant =>
      system.shards.keys.length = system.engines ∧ system.shards.lookup tenant = none
  | .copied tenant next =>
      system.shards.keys.length = system.engines ∧ system.shards.lookup tenant = none ∧
        next = system.shards
  | .built tenant engine next =>
      system.shards.keys.length = engine ∧ engine + 1 = system.engines ∧
        system.shards.lookup tenant = none ∧ next = system.shards.insert tenant engine
  | .leaving tenant engine =>
      system.shards.keys.length = system.engines ∧ system.shards.lookup tenant = some engine
  | _ => True

/-- One caller is behind the gate, and the engines of the map are numbered one after the other. -/
structure Sound (system : ShardSystem Caller) : Prop where
  gate : ∀ caller, (system.calls caller).HoldsGate ↔ system.createGate = some caller
  free : system.createGate = none → system.shards.keys.length = system.engines
  place : ∀ caller, (system.calls caller).HoldsGate → system.At (system.calls caller)
  handles : ∀ tenant engine, system.shards.lookup tenant = some engine →
    engine < system.shards.keys.length
  apart : ∀ tenant tenant' engine, system.shards.lookup tenant = some engine →
    system.shards.lookup tenant' = some engine → tenant = tenant'

omit [DecidableEq Caller] in
theorem sound_new :
    (new : ShardSystem Caller).Sound where
  gate caller := by simp [new, ShardCall.HoldsGate]
  free _ := rfl
  place caller h := h.elim
  handles tenant engine h := by simp [new] at h
  apart tenant tenant' engine h := by simp [new] at h

variable {system system' : ShardSystem Caller} {caller : Caller}

/-- A caller moves before the gate. -/
theorem Sound.outside
    {call : ShardCall}
    (h : system.Sound)
    (hbefore : ¬ (system.calls caller).HoldsGate)
    (hafter : ¬ call.HoldsGate)
    (hcalls : system'.calls = Function.update system.calls caller call)
    (hgate : system'.createGate = system.createGate)
    (hshards : system'.shards = system.shards)
    (hengines : system'.engines = system.engines) :
    system'.Sound := by
  have hat : ∀ place, system.At place → system'.At place := by
    intro place hplace
    cases place <;> simp_all [At]
  constructor
  · intro other
    rw [hcalls, hgate]
    by_cases hother : other = caller
    · subst hother
      have hnot := (h.gate other).not.mp hbefore
      simp [hafter, hnot]
    · simp [Function.update_of_ne hother, h.gate other]
  · intro hfree
    rw [hshards, hengines]
    exact h.free (hgate ▸ hfree)
  · intro other hholds
    rw [hcalls] at hholds ⊢
    by_cases hother : other = caller
    · subst hother
      simp [hafter] at hholds
    · rw [Function.update_of_ne hother] at hholds ⊢
      exact hat _ (h.place other hholds)
  · rw [hshards]
    exact h.handles
  · rw [hshards]
    exact h.apart

/-- The caller behind the gate, which no other caller holds, goes on. -/
theorem Sound.inside
    {call : ShardCall}
    (halone : ∀ other, other ≠ caller → ¬ (system.calls other).HoldsGate)
    (hcalls : system'.calls = Function.update system.calls caller call)
    (hafter : call.HoldsGate)
    (hgate : system'.createGate = some caller)
    (hplace : system'.At call)
    (hhandles : ∀ tenant engine, system'.shards.lookup tenant = some engine →
      engine < system'.shards.keys.length)
    (hapart : ∀ tenant tenant' engine, system'.shards.lookup tenant = some engine →
      system'.shards.lookup tenant' = some engine → tenant = tenant') :
    system'.Sound := by
  constructor
  · intro other
    rw [hcalls, hgate]
    by_cases hother : other = caller
    · subst hother
      simp [hafter]
    · have hne : ¬ caller = other := fun heq => hother heq.symm
      simp [Function.update_of_ne hother, halone other hother, hne]
  · intro hfree
    rw [hgate] at hfree
    cases hfree
  · intro other hholds
    rw [hcalls] at hholds ⊢
    by_cases hother : other = caller
    · subst hother
      simpa using hplace
    · rw [Function.update_of_ne hother] at hholds
      exact (halone other hother hholds).elim
  · exact hhandles
  · exact hapart

omit [DecidableEq Caller] in
/-- While one caller holds the gate, no other does. -/
theorem Sound.alone
    (h : system.Sound)
    (hholds : (system.calls caller).HoldsGate) :
    ∀ other, other ≠ caller → ¬ (system.calls other).HoldsGate := by
  intro other hother hotherHolds
  have hcaller := (h.gate caller).mp hholds
  have hgate := (h.gate other).mp hotherHolds
  rw [hcaller] at hgate
  exact hother (Option.some.inj hgate).symm

omit [DecidableEq Caller] in
/-- A caller behind the gate is alone there and knows its place. -/
theorem Sound.behind
    {call : ShardCall}
    (h : system.Sound)
    (hcall : system.calls caller = call)
    (hholds : call.HoldsGate) :
    system.createGate = some caller ∧
      (∀ other, other ≠ caller → ¬ (system.calls other).HoldsGate) ∧ system.At call := by
  subst hcall
  exact ⟨(h.gate caller).mp hholds, h.alone hholds, h.place caller hholds⟩

/-- The last caller behind the gate leaves it. -/
theorem Sound.leave
    {call : ShardCall}
    (h : system.Sound)
    (halone : ∀ other, other ≠ caller → ¬ (system.calls other).HoldsGate)
    (hcalls : system'.calls = Function.update system.calls caller call)
    (hafter : ¬ call.HoldsGate)
    (hgate : system'.createGate = none)
    (hshards : system'.shards = system.shards)
    (hcount : system'.shards.keys.length = system'.engines) :
    system'.Sound := by
  have hnone : ∀ other, ¬ (system'.calls other).HoldsGate := by
    intro other
    rw [hcalls]
    by_cases hother : other = caller
    · subst hother
      simpa using hafter
    · rw [Function.update_of_ne hother]
      exact halone other hother
  constructor
  · intro other
    simp [hnone other, hgate]
  · intro _
    exact hcount
  · intro other hholds
    exact (hnone other hholds).elim
  · rw [hshards]
    exact h.handles
  · rw [hshards]
    exact h.apart

/-- A new engine is entered under a new tenant. -/
theorem lookup_insert_new
    {shards : ShardMap} {tenant : TenantId} {engine : Nat}
    (hnew : shards.lookup tenant = none)
    {tenant' : TenantId} {engine' : Nat} :
    (shards.insert tenant engine).lookup tenant' = some engine' ↔
      (tenant' = tenant ∧ engine' = engine) ∨ shards.lookup tenant' = some engine' := by
  by_cases htenant : tenant' = tenant
  · subst htenant
    simp [hnew, eq_comm]
  · simp [AList.lookup_insert_ne htenant, htenant]

theorem length_keys_insert
    {shards : ShardMap} {tenant : TenantId} {engine : Nat}
    (hnew : shards.lookup tenant = none) :
    (shards.insert tenant engine).keys.length = shards.keys.length + 1 := by
  rw [AList.keys_insert, List.length_cons, List.erase_of_not_mem]
  exact AList.lookup_eq_none.mp hnew

theorem Sound.call
    {tenant : TenantId}
    (h : system.Sound)
    (hstep : system.step (.call caller tenant) = some system') :
    system'.Sound := by
  simp only [ShardSystem.step] at hstep
  split at hstep
  · next hcall =>
      cases hstep
      exact h.outside (by simp [hcall, ShardCall.HoldsGate]) (by simp [ShardCall.HoldsGate])
        rfl rfl rfl rfl
  · cases hstep

theorem Sound.look
    (h : system.Sound)
    (hstep : system.step (.look caller) = some system') :
    system'.Sound := by
  simp only [ShardSystem.step] at hstep
  split at hstep
  · next tenant hcall =>
      split at hstep <;> cases hstep <;>
        exact h.outside (by simp [hcall, ShardCall.HoldsGate])
          (by simp [ShardCall.HoldsGate]) rfl rfl rfl rfl
  · cases hstep

theorem Sound.lock
    (h : system.Sound)
    (hstep : system.step (.lock caller) = some system') :
    system'.Sound := by
  simp only [ShardSystem.step] at hstep
  split at hstep
  · next tenant hcall hfree =>
      cases hstep
      have hnone : ∀ other, other ≠ caller → ¬ (system.calls other).HoldsGate := by
        intro other _ hholds
        have hgate := (h.gate other).mp hholds
        rw [hfree] at hgate
        cases hgate
      exact Sound.inside hnone rfl trivial rfl (h.free hfree) h.handles h.apart
  · cases hstep

theorem Sound.lookAgain
    (h : system.Sound)
    (hstep : system.step (.lookAgain caller) = some system') :
    system'.Sound := by
  simp only [ShardSystem.step] at hstep
  split at hstep
  · next tenant hcall =>
      obtain ⟨hgate, halone, hplace⟩ := h.behind hcall trivial
      split at hstep
      · next engine hfound =>
          cases hstep
          exact Sound.inside halone rfl trivial hgate
            ⟨hplace, hfound⟩ h.handles h.apart
      · next hmissed =>
          cases hstep
          exact Sound.inside halone rfl trivial hgate
            ⟨hplace, hmissed⟩ h.handles h.apart
  · cases hstep

theorem Sound.copy
    (h : system.Sound)
    (hstep : system.step (.copy caller) = some system') :
    system'.Sound := by
  simp only [ShardSystem.step] at hstep
  split at hstep
  · next tenant hcall =>
      obtain ⟨hgate, halone, hplace⟩ := h.behind hcall trivial
      cases hstep
      exact Sound.inside halone rfl trivial hgate
        ⟨hplace.1, hplace.2, rfl⟩ h.handles h.apart
  · cases hstep

theorem Sound.build
    (h : system.Sound)
    (hstep : system.step (.build caller) = some system') :
    system'.Sound := by
  simp only [ShardSystem.step] at hstep
  split at hstep
  · next tenant next hcall =>
      obtain ⟨hgate, halone, hplace⟩ := h.behind hcall trivial
      obtain ⟨hcount, hmissed, rfl⟩ := hplace
      cases hstep
      exact Sound.inside halone rfl trivial hgate
        ⟨hcount, rfl, hmissed, rfl⟩ h.handles h.apart
  · cases hstep

/-- The new engine has the number of the entries before it. -/
theorem Sound.store
    (h : system.Sound)
    (hstep : system.step (.store caller) = some system') :
    system'.Sound := by
  simp only [ShardSystem.step] at hstep
  split at hstep
  · next tenant engine next hcall =>
      obtain ⟨hgate, halone, hplace⟩ := h.behind hcall trivial
      obtain ⟨hcount, hengines, hmissed, rfl⟩ := hplace
      cases hstep
      have hlength := @length_keys_insert _ tenant engine hmissed
      refine Sound.inside halone rfl trivial hgate
        ⟨by dsimp only [goto]; omega, AList.lookup_insert _⟩ ?_ ?_
      · intro tenant' engine' hfound
        dsimp only [goto] at hfound ⊢
        rcases (lookup_insert_new hmissed).mp hfound with ⟨_, rfl⟩ | hold
        · omega
        · have hlt := h.handles _ _ hold
          omega
      · intro tenant' tenant'' engine' hfound hfound'
        rcases (lookup_insert_new hmissed).mp hfound with ⟨rfl, rfl⟩ | hold <;>
          rcases (lookup_insert_new hmissed).mp hfound' with ⟨rfl, heq⟩ | hold'
        · rfl
        · have hlt := h.handles _ _ hold'
          omega
        · have hlt := h.handles _ _ hold
          omega
        · exact h.apart _ _ _ hold hold'
  · cases hstep

theorem Sound.release
    (h : system.Sound)
    (hstep : system.step (.release caller) = some system') :
    system'.Sound := by
  simp only [ShardSystem.step] at hstep
  split at hstep
  · next tenant engine hcall =>
      obtain ⟨hgate, halone, hplace⟩ := h.behind hcall trivial
      cases hstep
      exact h.leave halone rfl (by simp [ShardCall.HoldsGate]) rfl rfl hplace.1
  · cases hstep

/-- Every step keeps the map, the gate and the places in order. -/
theorem Sound.step
    {event : ShardEvent Caller}
    (h : system.Sound)
    (hstep : system.step event = some system') :
    system'.Sound := by
  cases event with
  | call caller tenant => exact h.call hstep
  | look caller => exact h.look hstep
  | lock caller => exact h.lock hstep
  | lookAgain caller => exact h.lookAgain hstep
  | copy caller => exact h.copy hstep
  | build caller => exact h.build hstep
  | store caller => exact h.store hstep
  | release caller => exact h.release hstep
  | get tenant =>
      cases hstep
      exact ⟨h.gate, h.free, h.place, h.handles, h.apart⟩
  | tenants =>
      cases hstep
      exact ⟨h.gate, h.free, h.place, h.handles, h.apart⟩

/-! ## What the callers are told -/

/-- What is logged agrees with the map. -/
structure Told (system : ShardSystem Caller) : Prop where
  asked : ∀ caller tenant, (system.calls caller).tenant? = some tenant →
    .called tenant ∈ system.log
  entered : ∀ tenant engine, system.shards.lookup tenant = some engine →
    .called tenant ∈ system.log
  given : ∀ seen ∈ system.log, ∀ tenant engine, seen.Gives tenant engine →
    system.shards.lookup tenant = some engine
  justified : ∀ before seen after, system.log = before ++ seen :: after → seen.Justified before

omit [DecidableEq Caller] in
theorem told_new :
    (new : ShardSystem Caller).Told where
  asked caller tenant h := by simp [new, ShardCall.tenant?] at h
  entered tenant engine h := by simp [new] at h
  given seen h := by simp [new] at h
  justified before seen after h := by simp [new] at h

omit [DecidableEq Caller] in
/-- A step that logs nothing. -/
theorem Told.silent
    (h : system.Told)
    (hlog : system'.log = system.log)
    (hcalls : ∀ caller tenant, (system'.calls caller).tenant? = some tenant →
      (system.calls caller).tenant? = some tenant)
    (hkept : ∀ tenant engine, system.shards.lookup tenant = some engine →
      system'.shards.lookup tenant = some engine)
    (hentered : ∀ tenant engine, system'.shards.lookup tenant = some engine →
      .called tenant ∈ system.log) :
    system'.Told := by
  constructor
  · intro caller tenant hcall
    rw [hlog]
    exact h.asked caller tenant (hcalls caller tenant hcall)
  · intro tenant engine hfound
    rw [hlog]
    exact hentered tenant engine hfound
  · intro seen hseen tenant engine hgives
    rw [hlog] at hseen
    exact hkept tenant engine (h.given seen hseen tenant engine hgives)
  · rw [hlog]
    exact h.justified

omit [DecidableEq Caller] in
/-- A step that logs an observation and leaves the map alone. -/
theorem Told.observe
    {seen : ShardObservation}
    (h : system.Told)
    (hlog : system'.log = system.log ++ [seen])
    (hcalls : ∀ caller tenant, (system'.calls caller).tenant? = some tenant →
      (system.calls caller).tenant? = some tenant ∨ seen = .called tenant)
    (hshards : system'.shards = system.shards)
    (hgives : ∀ tenant engine, seen.Gives tenant engine →
      system.shards.lookup tenant = some engine)
    (hjustified : seen.Justified system.log) :
    system'.Told := by
  constructor
  · intro caller tenant hcall
    rw [hlog]
    rcases hcalls caller tenant hcall with hbefore | rfl
    · exact List.mem_append_left _ (h.asked caller tenant hbefore)
    · simp
  · intro tenant engine hfound
    rw [hlog]
    rw [hshards] at hfound
    exact List.mem_append_left _ (h.entered tenant engine hfound)
  · intro seen' hseen tenant engine hgives'
    rw [hshards]
    rw [hlog] at hseen
    rcases List.mem_append.mp hseen with hold | hnew
    · exact h.given seen' hold tenant engine hgives'
    · rw [List.mem_singleton.mp hnew] at hgives'
      exact hgives tenant engine hgives'
  · intro before seen' after hsplit
    rw [hlog] at hsplit
    rcases append_singleton_eq_split hsplit with ⟨rfl, rfl⟩ | ⟨after', rfl, hbefore⟩
    · obtain ⟨rfl, _⟩ := List.append_inj' hsplit rfl
      exact hjustified
    · exact h.justified before seen' after' hbefore

omit [DecidableEq Caller] in
/-- A lookup that finds nothing is justified: nothing was given. -/
theorem Told.justified_got
    (h : system.Told)
    (tenant : TenantId) :
    (ShardObservation.got tenant (system.shards.lookup tenant)).Justified system.log := by
  cases hfound : system.shards.lookup tenant with
  | none =>
      intro seen hseen engine hgives
      have hgiven := h.given seen hseen tenant engine hgives
      rw [hfound] at hgiven
      cases hgiven
  | some engine => exact h.entered tenant engine hfound

theorem mem_tenants_iff
    {shards : ShardMap} {tenant : TenantId} :
    tenant ∈ shards.tenants ↔ ∃ engine, shards.lookup tenant = some engine := by
  unfold ShardMap.tenants
  rw [(perm_sortByName shards.keys).mem_iff, ← Option.isSome_iff_exists, AList.lookup_isSome]
  exact AList.mem_keys.symm

theorem pairwise_tenants
    (shards : ShardMap) :
    shards.tenants.Pairwise (fun left right => left.value < right.value) := by
  have hnodup : shards.tenants.Nodup :=
    (perm_sortByName shards.keys).nodup_iff.mpr shards.nodupKeys
  refine ((pairwise_sortByName shards.keys).and hnodup).imp ?_
  rintro left right ⟨hle, hne⟩
  exact lt_of_le_of_ne hle (fun heq => hne (TenantId.ext heq))

omit [DecidableEq Caller] in
/-- A listing is justified: it has the tenants of the map. -/
theorem Told.justified_listed
    (h : system.Told) :
    (ShardObservation.listed system.shards.tenants).Justified system.log := by
  refine ⟨pairwise_tenants _, ?_, ?_⟩
  · intro tenant hmem
    obtain ⟨engine, hfound⟩ := mem_tenants_iff.mp hmem
    exact h.entered tenant engine hfound
  · intro seen hseen tenant engine hgives
    exact mem_tenants_iff.mpr ⟨engine, h.given seen hseen tenant engine hgives⟩

/-- A caller that moves on asks for the same tenant or for none. -/
theorem tenant?_update
    {call : ShardCall}
    (hcall : call.tenant? = none ∨ call.tenant? = (system.calls caller).tenant?)
    (other : Caller) (tenant : TenantId)
    (h : (Function.update system.calls caller call other).tenant? = some tenant) :
    (system.calls other).tenant? = some tenant := by
  by_cases hother : other = caller
  · subst hother
    rw [Function.update_self] at h
    rcases hcall with hnone | hsame
    · rw [hnone] at h
      cases h
    · rw [← hsame]
      exact h
  · rw [Function.update_of_ne hother] at h
    exact h

/-- A caller moves on and nothing else changes. -/
theorem Told.goto
    {call : ShardCall}
    (h : system.Told)
    (hcalls : system'.calls = Function.update system.calls caller call)
    (hcall : call.tenant? = none ∨ call.tenant? = (system.calls caller).tenant?)
    (hlog : system'.log = system.log)
    (hshards : system'.shards = system.shards) :
    system'.Told := by
  refine h.silent hlog (fun other tenant hother => ?_) (fun tenant engine hfound => ?_)
    (fun tenant engine hfound => ?_)
  · rw [hcalls] at hother
    exact tenant?_update hcall other tenant hother
  · rw [hshards]
    exact hfound
  · rw [hshards] at hfound
    exact h.entered tenant engine hfound

/-- A caller returns with the engine of its tenant. -/
theorem Told.returns
    {tenant : TenantId} {engine : Nat}
    (h : system.Told)
    (hasks : (system.calls caller).tenant? = some tenant)
    (hfound : system.shards.lookup tenant = some engine)
    (hcalls : system'.calls = Function.update system.calls caller .idle)
    (hlog : system'.log = system.log ++ [.returned tenant engine])
    (hshards : system'.shards = system.shards) :
    system'.Told := by
  refine h.observe hlog (fun other tenant' hother => ?_) hshards ?_
    (h.asked caller tenant hasks)
  · rw [hcalls] at hother
    exact Or.inl (tenant?_update (Or.inl rfl) other tenant' hother)
  · rintro _ _ ⟨rfl, rfl⟩
    exact hfound

theorem Told.call
    {tenant : TenantId}
    (h : system.Told)
    (hstep : system.step (.call caller tenant) = some system') :
    system'.Told := by
  simp only [ShardSystem.step] at hstep
  split at hstep
  · next hcall =>
      cases hstep
      refine h.observe rfl (fun other tenant' hother => ?_) rfl (fun _ _ hgives => hgives.elim)
        trivial
      change (Function.update system.calls caller (.looking tenant) other).tenant? =
        some tenant' at hother
      by_cases hsame : other = caller
      · rw [hsame, Function.update_self] at hother
        exact Or.inr (congrArg _ (Option.some.inj hother))
      · rw [Function.update_of_ne hsame] at hother
        exact Or.inl hother
  · cases hstep

theorem Told.look
    (h : system.Told)
    (hstep : system.step (.look caller) = some system') :
    system'.Told := by
  simp only [ShardSystem.step] at hstep
  split at hstep
  · next tenant hcall =>
      split at hstep
      · next engine hfound =>
          cases hstep
          exact h.returns (by rw [hcall]; rfl) hfound rfl rfl rfl
      · cases hstep
        exact h.goto rfl (Or.inr (by rw [hcall]; rfl)) rfl rfl
  · cases hstep

theorem Told.lock
    (h : system.Told)
    (hstep : system.step (.lock caller) = some system') :
    system'.Told := by
  simp only [ShardSystem.step] at hstep
  split at hstep
  · next tenant hcall hfree =>
      cases hstep
      exact h.goto rfl (Or.inr (by rw [hcall]; rfl)) rfl rfl
  · cases hstep

theorem Told.lookAgain
    (h : system.Told)
    (hstep : system.step (.lookAgain caller) = some system') :
    system'.Told := by
  simp only [ShardSystem.step] at hstep
  split at hstep
  · next tenant hcall =>
      split at hstep <;> cases hstep <;>
        exact h.goto rfl (Or.inr (by rw [hcall]; rfl)) rfl rfl
  · cases hstep

theorem Told.copy
    (h : system.Told)
    (hstep : system.step (.copy caller) = some system') :
    system'.Told := by
  simp only [ShardSystem.step] at hstep
  split at hstep
  · next tenant hcall =>
      cases hstep
      exact h.goto rfl (Or.inr (by rw [hcall]; rfl)) rfl rfl
  · cases hstep

theorem Told.build
    (h : system.Told)
    (hstep : system.step (.build caller) = some system') :
    system'.Told := by
  simp only [ShardSystem.step] at hstep
  split at hstep
  · next tenant next hcall =>
      cases hstep
      exact h.goto rfl (Or.inr (by rw [hcall]; rfl)) rfl rfl
  · cases hstep

/-- The tenant of the new engine was asked for. -/
theorem Told.store
    (hsound : system.Sound)
    (h : system.Told)
    (hstep : system.step (.store caller) = some system') :
    system'.Told := by
  simp only [ShardSystem.step] at hstep
  split at hstep
  · next tenant engine next hcall =>
      obtain ⟨_, _, hplace⟩ := hsound.behind hcall trivial
      obtain ⟨_, _, hmissed, rfl⟩ := hplace
      cases hstep
      refine h.silent rfl (tenant?_update (Or.inr (by rw [hcall]; rfl)))
        (fun tenant' engine' hold => (lookup_insert_new hmissed).mpr (Or.inr hold)) ?_
      intro tenant' engine' hfound
      rcases (lookup_insert_new hmissed).mp hfound with ⟨rfl, _⟩ | hold
      · exact h.asked caller tenant' (by rw [hcall]; rfl)
      · exact h.entered tenant' engine' hold
  · cases hstep

theorem Told.release
    (hsound : system.Sound)
    (h : system.Told)
    (hstep : system.step (.release caller) = some system') :
    system'.Told := by
  simp only [ShardSystem.step] at hstep
  split at hstep
  · next tenant engine hcall =>
      obtain ⟨_, _, hplace⟩ := hsound.behind hcall trivial
      cases hstep
      exact h.returns (by rw [hcall]; rfl) hplace.2 rfl rfl rfl
  · cases hstep

theorem Told.get
    {tenant : TenantId}
    (h : system.Told)
    (hstep : system.step (.get tenant) = some system') :
    system'.Told := by
  cases hstep
  refine h.observe rfl (fun _ _ hcall => Or.inl hcall) rfl ?_ (h.justified_got tenant)
  rintro _ _ ⟨rfl, hfound⟩
  exact hfound

theorem Told.tenants
    (h : system.Told)
    (hstep : system.step (.tenants) = some system') :
    system'.Told := by
  cases hstep
  exact h.observe rfl (fun _ _ hcall => Or.inl hcall) rfl (fun _ _ hgives => hgives.elim)
    h.justified_listed

/-- Every step keeps the log in agreement with the map. -/
theorem Told.step
    {event : ShardEvent Caller}
    (hsound : system.Sound)
    (h : system.Told)
    (hstep : system.step event = some system') :
    system'.Told := by
  cases event with
  | call caller tenant => exact h.call hstep
  | look caller => exact h.look hstep
  | lock caller => exact h.lock hstep
  | lookAgain caller => exact h.lookAgain hstep
  | copy caller => exact h.copy hstep
  | build caller => exact h.build hstep
  | store caller => exact h.store hsound hstep
  | release caller => exact h.release hsound hstep
  | get tenant => exact h.get hstep
  | tenants => exact h.tenants hstep

/-- What one step keeps. -/
structure Inv (system : ShardSystem Caller) : Prop where
  sound : system.Sound
  told : system.Told

omit [DecidableEq Caller] in
theorem inv_new :
    (new : ShardSystem Caller).Inv :=
  ⟨sound_new, told_new⟩

theorem Inv.step
    {event : ShardEvent Caller}
    (h : system.Inv)
    (hstep : system.step event = some system') :
    system'.Inv :=
  ⟨h.sound.step hstep, h.told.step h.sound hstep⟩

theorem Inv.run
    (h : system.Inv)
    (events : List (ShardEvent Caller)) :
    (system.run events).Inv := by
  induction events generalizing system with
  | nil => exact h
  | cons event rest ih =>
      refine ih ?_
      cases hstep : system.step event with
      | none => simpa [hstep] using h
      | some next => simpa [hstep] using h.step hstep

/-- In every interleaving of the callers a tenant has one engine, no engine serves two tenants,
and an engine that was given to a caller is found by all from then on.  At most one engine is
built and not yet in the map, and none when the gate is free. -/
theorem run_agrees
    (events : List (ShardEvent Caller)) :
    ShardsAgree ((new : ShardSystem Caller).run events).log ∧
      (((new : ShardSystem Caller).run events).createGate = none →
        ((new : ShardSystem Caller).run events).engines =
          ((new : ShardSystem Caller).run events).shards.tenants.length) := by
  have hinv := (inv_new : (new : ShardSystem Caller).Inv).run events
  refine ⟨⟨?_, ?_, hinv.told.justified⟩, fun hfree => ?_⟩
  · intro seen hseen seen' hseen' tenant engine engine' hgives hgives'
    have hfound := hinv.told.given seen hseen tenant engine hgives
    rw [hinv.told.given seen' hseen' tenant engine' hgives'] at hfound
    exact (Option.some.inj hfound).symm
  · intro seen hseen seen' hseen' tenant tenant' engine hgives hgives'
    exact hinv.sound.apart tenant tenant' engine (hinv.told.given seen hseen tenant engine hgives)
      (hinv.told.given seen' hseen' tenant' engine hgives')
  · rw [ShardMap.tenants, (perm_sortByName _).length_eq]
    exact (hinv.sound.free hfree).symm

/-! ## No caller is stuck -/

/-- Within so many steps of its own the caller returns and leaves the gate free. -/
def Releases (steps : Nat) (caller : Caller) (system : ShardSystem Caller) : Prop :=
  ∃ events, events.length ≤ steps ∧ (system.run events).calls caller = .idle ∧
    (system.run events).createGate = none ∧
    ∀ other, other ≠ caller → (system.run events).calls other = system.calls other

theorem run_cons
    {event : ShardEvent Caller} {events : List (ShardEvent Caller)}
    (hstep : system.step event = some system') :
    system.run (event :: events) = system'.run events := by
  simp [run, hstep]

/-- One step before a release. -/
theorem Releases.cons
    {steps : Nat} {event : ShardEvent Caller} {call : ShardCall}
    (hstep : system.step event = some system')
    (hcalls : system'.calls = Function.update system.calls caller call)
    (h : system'.calls caller = call → system'.Releases steps caller) :
    system.Releases (steps + 1) caller := by
  obtain ⟨events, hlength, hidle, hfree, hothers⟩ := h (by rw [hcalls, Function.update_self])
  refine ⟨event :: events, ?_, ?_, ?_, ?_⟩
  · rw [List.length_cons]
    omega
  · rw [run_cons hstep]
    exact hidle
  · rw [run_cons hstep]
    exact hfree
  · intro other hother
    rw [run_cons hstep, hothers other hother, hcalls, Function.update_of_ne hother]

theorem Releases.mono
    {steps steps' : Nat}
    (h : system.Releases steps caller)
    (hle : steps ≤ steps') :
    system.Releases steps' caller := by
  obtain ⟨events, hlength, hidle, hfree, hothers⟩ := h
  exact ⟨events, hlength.trans hle, hidle, hfree, hothers⟩

theorem releases_leaving
    {tenant : TenantId} {engine : Nat}
    (hcall : system.calls caller = .leaving tenant engine) :
    system.Releases 1 caller := by
  have hstep : system.step (.release caller) =
      some { system.goto caller .idle with
        createGate := none
        log := system.log ++ [.returned tenant engine] } := by
    simp [step, hcall]
  refine ⟨[.release caller], Nat.le_refl _, ?_, ?_, ?_⟩
  · rw [run_cons hstep]
    simp [run, goto]
  · rw [run_cons hstep]
    simp [run]
  · intro other hother
    rw [run_cons hstep]
    simp [run, goto, Function.update_of_ne hother]

theorem releases_built
    {tenant : TenantId} {engine : Nat} {next : ShardMap}
    (hcall : system.calls caller = .built tenant engine next) :
    system.Releases 2 caller := by
  have hstep : system.step (.store caller) =
      some { system.goto caller (.leaving tenant engine) with shards := next } := by
    simp [step, hcall]
  exact Releases.cons hstep rfl releases_leaving

theorem releases_copied
    {tenant : TenantId} {next : ShardMap}
    (hcall : system.calls caller = .copied tenant next) :
    system.Releases 3 caller := by
  have hstep : system.step (.build caller) =
      some { system.goto caller
        (.built tenant system.engines (next.insert tenant system.engines)) with
          engines := system.engines + 1 } := by
    simp [step, hcall]
  exact Releases.cons hstep rfl releases_built

theorem releases_missed
    {tenant : TenantId}
    (hcall : system.calls caller = .missed tenant) :
    system.Releases 4 caller := by
  have hstep : system.step (.copy caller) =
      some (system.goto caller (.copied tenant system.shards)) := by
    simp [step, hcall]
  exact Releases.cons hstep rfl releases_copied

theorem releases_lookingAgain
    {tenant : TenantId}
    (hcall : system.calls caller = .lookingAgain tenant) :
    system.Releases 5 caller := by
  cases hfound : system.shards.lookup tenant with
  | none =>
      have hstep : system.step (.lookAgain caller) =
          some (system.goto caller (.missed tenant)) := by
        simp [step, hcall, hfound]
      exact Releases.cons hstep rfl releases_missed
  | some engine =>
      have hstep : system.step (.lookAgain caller) =
          some (system.goto caller (.leaving tenant engine)) := by
        simp [step, hcall, hfound]
      exact (Releases.cons hstep rfl releases_leaving).mono (by omega)

/-- The caller behind the gate returns by its own steps. -/
theorem releases_of_holdsGate
    (hholds : (system.calls caller).HoldsGate) :
    system.Releases 5 caller := by
  cases hcall : system.calls caller with
  | lookingAgain tenant => exact releases_lookingAgain hcall
  | missed tenant => exact (releases_missed hcall).mono (by omega)
  | copied tenant next => exact (releases_copied hcall).mono (by omega)
  | built tenant engine next => exact (releases_built hcall).mono (by omega)
  | leaving tenant engine => exact (releases_leaving hcall).mono (by omega)
  | idle => simp [hcall, ShardCall.HoldsGate] at hholds
  | looking tenant => simp [hcall, ShardCall.HoldsGate] at hholds
  | waiting tenant => simp [hcall, ShardCall.HoldsGate] at hholds

/-- Within so many steps the caller returns. -/
def Returns (steps : Nat) (caller : Caller) (system : ShardSystem Caller) : Prop :=
  ∃ events, events.length ≤ steps ∧ (system.run events).calls caller = .idle

theorem Releases.returns
    {steps : Nat}
    (h : system.Releases steps caller) :
    system.Returns steps caller := by
  obtain ⟨events, hlength, hidle, _⟩ := h
  exact ⟨events, hlength, hidle⟩

theorem Returns.cons
    {steps : Nat} {event : ShardEvent Caller} {call : ShardCall}
    (hstep : system.step event = some system')
    (hcalls : system'.calls = Function.update system.calls caller call)
    (h : system'.calls caller = call → system'.Returns steps caller) :
    system.Returns (steps + 1) caller := by
  obtain ⟨events, hlength, hidle⟩ := h (by rw [hcalls, Function.update_self])
  refine ⟨event :: events, ?_, ?_⟩
  · rw [List.length_cons]
    omega
  · rw [run_cons hstep]
    exact hidle

theorem run_append
    (events events' : List (ShardEvent Caller)) :
    system.run (events ++ events') = (system.run events).run events' :=
  List.foldl_append

/-- The gate is free: the waiting caller passes it. -/
theorem returns_waiting_free
    {tenant : TenantId}
    (hcall : system.calls caller = .waiting tenant)
    (hfree : system.createGate = none) :
    system.Returns 6 caller := by
  have hstep : system.step (.lock caller) =
      some { system.goto caller (.lookingAgain tenant) with createGate := some caller } := by
    simp [step, hcall, hfree]
  exact Returns.cons hstep rfl (fun hnext => (releases_lookingAgain hnext).returns)

/-- The waiting caller passes the gate after the one behind it has left. -/
theorem returns_waiting
    {tenant : TenantId}
    (hsound : system.Sound)
    (hcall : system.calls caller = .waiting tenant) :
    system.Returns 11 caller := by
  cases hgate : system.createGate with
  | none =>
      obtain ⟨events, hlength, hidle⟩ := returns_waiting_free hcall hgate
      exact ⟨events, by omega, hidle⟩
  | some holder =>
      have hholds := (hsound.gate holder).mpr hgate
      have hother : caller ≠ holder := by
        rintro rfl
        simp [hcall, ShardCall.HoldsGate] at hholds
      obtain ⟨events, hlength, _, hfree, hothers⟩ := releases_of_holdsGate hholds
      obtain ⟨events', hlength', hidle⟩ :=
        returns_waiting_free ((hothers caller hother).trans hcall) hfree
      refine ⟨events ++ events', ?_, ?_⟩
      · rw [List.length_append]
        omega
      · rw [run_append]
        exact hidle

/-- From every state that the callers can reach, each call can return within twelve steps,
whoever holds the gate. -/
theorem call_completes
    (events : List (ShardEvent Caller)) (caller : Caller) :
    ((new : ShardSystem Caller).run events).Returns 12 caller := by
  have hsound := ((inv_new : (new : ShardSystem Caller).Inv).run events).sound
  generalize (new : ShardSystem Caller).run events = system at hsound
  have held : (system.calls caller).HoldsGate → system.Returns 12 caller := by
    intro hholds
    obtain ⟨rest, hlength, hidle⟩ := (releases_of_holdsGate hholds).returns
    exact ⟨rest, by omega, hidle⟩
  cases hcall : system.calls caller with
  | idle => exact ⟨[], Nat.zero_le _, hcall⟩
  | looking tenant =>
      cases hfound : system.shards.lookup tenant with
      | none =>
          have hstep : system.step (.look caller) =
              some (system.goto caller (.waiting tenant)) := by
            simp [step, hcall, hfound]
          exact Returns.cons hstep rfl (returns_waiting (hsound.step hstep))
      | some engine =>
          have hstep : system.step (.look caller) =
              some { system.goto caller .idle with
                log := system.log ++ [.returned tenant engine] } := by
            simp [step, hcall, hfound]
          refine ⟨[.look caller], by simp, ?_⟩
          rw [run_cons hstep]
          exact Function.update_self caller _ system.calls
  | waiting tenant =>
      obtain ⟨rest, hlength, hidle⟩ := returns_waiting hsound hcall
      exact ⟨rest, by omega, hidle⟩
  | lookingAgain tenant => exact held (by simp [hcall, ShardCall.HoldsGate])
  | missed tenant => exact held (by simp [hcall, ShardCall.HoldsGate])
  | copied tenant next => exact held (by simp [hcall, ShardCall.HoldsGate])
  | built tenant engine next => exact held (by simp [hcall, ShardCall.HoldsGate])
  | leaving tenant engine => exact held (by simp [hcall, ShardCall.HoldsGate])

end ShardSystem

end SimpleZanzibar
