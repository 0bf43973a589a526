import Mathlib.Data.List.AList
import Mathlib.Data.List.Nodup
import SimpleZanzibar.EngineProtocol

/-!
# The writer actor and its end

Callers send a command into a bounded queue and wait for the answer; a thread takes the commands
in queue order, executes them and answers.  Dropping the engine raises a flag, tries to send a
last message and joins the thread.  Sending the last message does not wait for a free place in
the queue, and the thread ends on nothing but that message.

The drop has exclusive access to the engine: no caller is inside a call.  What a command does to
the state is a parameter of the protocol.  The log is kept for the statements only.

**Results.**
* `WriterActor.Inv.step`: what one step keeps.
* `WriterActor.run_shutsDown`: in every interleaving no accepted command is lost, none is executed
  or answered twice, no caller is told that the writer is gone, and the drop ends.
* `WriterActor.call_returns`: a caller inside a call can always be answered.
* `EngineWriter.actor_shutsDown`: the same with the commands of the writer, and the state that
  the engine is dropped in.
-/

namespace SimpleZanzibar

/-- A message in the queue. -/
inductive ActorMessage (Client Cmd : Type) where
  | command (client : Client) (command : Cmd)
  | shutdown

/-- What the thread does. -/
inductive WorkerPhase (Client Reply : Type) where
  | receiving
  | responding (client : Client) (reply : Reply)
  | stopped

/-- Where a caller is inside its call. -/
inductive CallPhase (Cmd Reply : Type) where
  /-- The flag was read; the command waits for a place in the queue. -/
  | sending (command : Cmd)
  | waiting
  /-- The answer is in the channel of the call. -/
  | replied (reply : Reply)

/-- How far the drop of the engine has come. -/
inductive OwnerPhase where
  | alive
  /-- The flag is raised. -/
  | flagged
  /-- The thread is joined. -/
  | joining
  | dropped
deriving DecidableEq

/-- What happened, for the statements. -/
inductive ActorObservation (Client Cmd Reply : Type) where
  | sent (client : Client) (command : Cmd)
  | executed (client : Client) (command : Cmd) (reply : Reply)
  | answered (client : Client) (reply : Reply)
  | unavailable (client : Client)

/-- What may happen next. -/
inductive ActorEvent (Client Cmd : Type) where
  | submit (client : Client) (command : Cmd)
  | send (client : Client)
  | receive
  | respond
  | finish (client : Client)
  | dropBegin
  | trySend
  | join

/-- The state of the thread, the queue, the flag, the owner and the callers inside a call. -/
structure WriterActor (σ Client Cmd Reply : Type) where
  state : σ
  queueCapacity : ℕ+
  queue : List (ActorMessage Client Cmd)
  worker : WorkerPhase Client Reply
  shutdown : Bool
  owner : OwnerPhase
  calls : AList (fun _ : Client => CallPhase Cmd Reply)
  log : List (ActorObservation Client Cmd Reply)

namespace WriterActor

variable {σ Client Cmd Reply : Type}

def start (state : σ) (queueCapacity : ℕ+) : WriterActor σ Client Cmd Reply where
  state := state
  queueCapacity := queueCapacity
  queue := []
  worker := .receiving
  shutdown := false
  owner := .alive
  calls := ∅
  log := []

variable [DecidableEq Client] (execute : Cmd → σ → Reply × σ)

/-- One event, when it can happen. -/
def step (actor : WriterActor σ Client Cmd Reply) :
    ActorEvent Client Cmd → Option (WriterActor σ Client Cmd Reply)
  | .submit client command =>
      match actor.owner, actor.calls.lookup client with
      | .alive, none =>
          if actor.shutdown then
            some { actor with log := actor.log ++ [.unavailable client] }
          else some { actor with calls := actor.calls.insert client (.sending command) }
      | _, _ => none
  | .send client =>
      match actor.calls.lookup client, actor.worker with
      | some (.sending _), .stopped =>
          some { actor with
            calls := actor.calls.erase client
            log := actor.log ++ [.unavailable client] }
      | some (.sending command), _ =>
          if actor.queue.length < actor.queueCapacity then
            some { actor with
              queue := actor.queue ++ [.command client command]
              calls := actor.calls.insert client .waiting
              log := actor.log ++ [.sent client command] }
          else none
      | _, _ => none
  | .receive =>
      match actor.worker, actor.queue with
      | .receiving, .command client command :: queue =>
          let (reply, state) := execute command actor.state
          some { actor with
            state := state
            queue := queue
            worker := .responding client reply
            log := actor.log ++ [.executed client command reply] }
      | .receiving, .shutdown :: _ => some { actor with queue := [], worker := .stopped }
      | _, _ => none
  | .respond =>
      match actor.worker with
      | .responding client reply =>
          some { actor with
            worker := .receiving
            calls := actor.calls.insert client (.replied reply) }
      | _ => none
  | .finish client =>
      match actor.calls.lookup client, actor.worker with
      | some (.replied reply), _ =>
          some { actor with
            calls := actor.calls.erase client
            log := actor.log ++ [.answered client reply] }
      | some .waiting, .stopped =>
          some { actor with
            calls := actor.calls.erase client
            log := actor.log ++ [.unavailable client] }
      | _, _ => none
  | .dropBegin =>
      if actor.owner = .alive ∧ actor.calls.keys = [] then
        some { actor with shutdown := true, owner := .flagged }
      else none
  | .trySend =>
      if actor.owner = .flagged then
        if actor.queue.length < actor.queueCapacity then
          some { actor with queue := actor.queue ++ [.shutdown], owner := .joining }
        else some { actor with owner := .joining }
      else none
  | .join =>
      match actor.owner, actor.worker with
      | .joining, .stopped => some { actor with owner := .dropped }
      | _, _ => none

/-- Runs an interleaving; an event that cannot happen is skipped. -/
def run (actor : WriterActor σ Client Cmd Reply) (events : List (ActorEvent Client Cmd)) :
    WriterActor σ Client Cmd Reply :=
  events.foldl (fun actor event => (actor.step execute event).getD actor) actor

end WriterActor

/-! ## What the log says -/

section Log

variable {Client Cmd Reply : Type}

/-- The commands in the order in which they entered the queue. -/
def sentCommands (log : List (ActorObservation Client Cmd Reply)) : List (Client × Cmd) :=
  log.filterMap (fun
    | .sent client command => some (client, command)
    | _ => none)

/-- The commands in the order in which they were executed, with what they returned. -/
def executedCommands (log : List (ActorObservation Client Cmd Reply)) :
    List ((Client × Cmd) × Reply) :=
  log.filterMap (fun
    | .executed client command reply => some ((client, command), reply)
    | _ => none)

/-- The answers that a caller received. -/
def answersTo [DecidableEq Client] (client : Client)
    (log : List (ActorObservation Client Cmd Reply)) : List Reply :=
  log.filterMap (fun
    | .answered client' reply => if client' = client then some reply else none
    | _ => none)

/-- What the commands of a caller returned. -/
def repliesTo [DecidableEq Client] (client : Client)
    (executions : List ((Client × Cmd) × Reply)) : List Reply :=
  executions.filterMap (fun execution =>
    if execution.1.1 = client then some execution.2 else none)

/-- A caller was told that the writer is gone. -/
def ActorObservation.IsUnavailable : ActorObservation Client Cmd Reply → Prop
  | .unavailable _ => True
  | _ => False

/-- Executes commands one after the other. -/
def replayCommands {σ : Type} (execute : Cmd → σ → Reply × σ) :
    List (Client × Cmd) → σ → List Reply × σ
  | [], state => ([], state)
  | (_, command) :: rest, state =>
      let (reply, state) := execute command state
      let (replies, state) := replayCommands execute rest state
      (reply :: replies, state)

theorem replayCommands_append
    {σ : Type} (execute : Cmd → σ → Reply × σ)
    (before after : List (Client × Cmd)) (state : σ) :
    replayCommands execute (before ++ after) state =
      ((replayCommands execute before state).1 ++
          (replayCommands execute after (replayCommands execute before state).2).1,
        (replayCommands execute after (replayCommands execute before state).2).2) := by
  induction before generalizing state with
  | nil => simp [replayCommands]
  | cons entry rest ih => simp [replayCommands, ih]

end Log

/-! ## The invariant -/

/-- The commands in the queue. -/
def queuedCommands {Client Cmd : Type} (queue : List (ActorMessage Client Cmd)) :
    List (Client × Cmd) :=
  queue.filterMap (fun
    | .command client command => some (client, command)
    | .shutdown => none)

/-- The answer that the thread is about to give. -/
def WorkerPhase.answer {Client Reply : Type} : WorkerPhase Client Reply → List (Client × Reply)
  | .responding client reply => [(client, reply)]
  | _ => []

/-- The answer in the channel of a call. -/
def CallPhase.answer {Cmd Reply : Type} : CallPhase Cmd Reply → List Reply
  | .replied reply => [reply]
  | _ => []

namespace WriterActor

section Invariant

variable {σ Client Cmd Reply : Type}

/-- The callers whose commands were accepted and not answered. -/
def unanswered (actor : WriterActor σ Client Cmd Reply) : List Client :=
  actor.worker.answer.map (·.1) ++ (queuedCommands actor.queue).map (·.1)

variable [DecidableEq Client]

/-- The answers that are under way to a caller. -/
def underWay (actor : WriterActor σ Client Cmd Reply) (client : Client) : List Reply :=
  (actor.calls.lookup client).elim [] CallPhase.answer ++
    (actor.worker.answer.filter (·.1 = client)).map (·.2)

/-- What the queue and the thread are in each phase of the drop.  The last message finds a free
place because no caller is left. -/
def AtPhase (actor : WriterActor σ Client Cmd Reply) : OwnerPhase → Prop
  | .alive => actor.shutdown = false ∧ .shutdown ∉ actor.queue ∧ actor.worker ≠ .stopped
  | .flagged => actor.calls.keys = [] ∧ actor.queue = [] ∧ actor.worker = .receiving
  | .joining => actor.calls.keys = [] ∧
      (actor.queue = [.shutdown] ∧ actor.worker = .receiving ∨
        actor.queue = [] ∧ actor.worker = .stopped)
  | .dropped => actor.calls.keys = [] ∧ actor.queue = [] ∧ actor.worker = .stopped

/-- What every step keeps. -/
structure Inv (execute : Cmd → σ → Reply × σ) (initial : σ)
    (actor : WriterActor σ Client Cmd Reply) : Prop where
  phase : actor.AtPhase actor.owner
  fits : actor.queue.length ≤ actor.queueCapacity
  waiting : ∀ client, actor.calls.lookup client = some .waiting ↔ client ∈ actor.unanswered
  nodup : actor.unanswered.Nodup
  executed : (executedCommands actor.log).map (·.1) ++ queuedCommands actor.queue =
    sentCommands actor.log
  state : replayCommands execute ((executedCommands actor.log).map (·.1)) initial =
    ((executedCommands actor.log).map (·.2), actor.state)
  answers : ∀ client, answersTo client actor.log ++ actor.underWay client =
    repliesTo client (executedCommands actor.log)
  available : ∀ seen ∈ actor.log, ¬ seen.IsUnavailable

variable {execute : Cmd → σ → Reply × σ} {initial : σ} {queueCapacity : ℕ+}
  {actor actor' : WriterActor σ Client Cmd Reply}

theorem inv_start :
    (start initial queueCapacity : WriterActor σ Client Cmd Reply).Inv execute initial := by
  constructor <;>
    simp [start, AtPhase, unanswered, underWay, queuedCommands, WorkerPhase.answer,
      executedCommands, sentCommands, replayCommands, answersTo, repliesTo]

/-- While a caller is inside its call, the engine is not dropped. -/
theorem Inv.alive
    {client : Client} {call : CallPhase Cmd Reply}
    (h : actor.Inv execute initial)
    (hcall : actor.calls.lookup client = some call) :
    actor.owner = .alive := by
  have hphase := h.phase
  have hmem : client ∈ actor.calls.keys := by
    rw [← AList.mem_keys, ← AList.lookup_isSome, hcall]
    rfl
  cases howner : actor.owner with
  | alive => rfl
  | flagged =>
      rw [howner] at hphase
      simp [hphase.1] at hmem
  | joining =>
      rw [howner] at hphase
      simp [hphase.1] at hmem
  | dropped =>
      rw [howner] at hphase
      simp [hphase.1] at hmem

/-- Such a caller finds the thread running and the flag down. -/
theorem Inv.running
    {client : Client} {call : CallPhase Cmd Reply}
    (h : actor.Inv execute initial)
    (hcall : actor.calls.lookup client = some call) :
    actor.shutdown = false ∧ .shutdown ∉ actor.queue ∧ actor.worker ≠ .stopped := by
  have hphase := h.phase
  rwa [h.alive hcall] at hphase

/-- A caller enters its call. -/
theorem Inv.submit
    {client : Client} {command : Cmd}
    (h : actor.Inv execute initial)
    (hstep : actor.step execute (.submit client command) = some actor') :
    actor'.Inv execute initial := by
  simp only [step] at hstep
  split at hstep
  · next halive hnone =>
      have hphase := h.phase
      rw [halive] at hphase
      simp only [hphase.1, Bool.false_eq_true, if_false] at hstep
      cases hstep
      have hnot : client ∉ actor.unanswered := by
        rw [← h.waiting, hnone]
        simp
      constructor
      · simp only [halive]
        exact ⟨rfl, hphase.2⟩
      · exact h.fits
      · intro other
        by_cases hother : other = client
        · subst hother
          simpa [unanswered] using hnot
        · rw [AList.lookup_insert_ne hother]
          exact h.waiting other
      · exact h.nodup
      · exact h.executed
      · exact h.state
      · intro other
        rw [← h.answers other]
        by_cases hother : other = client
        · subst hother
          simp [underWay, hnone, CallPhase.answer]
        · simp [underWay, AList.lookup_insert_ne hother]
      · exact h.available
  · cases hstep

/-- A command enters the queue. -/
theorem Inv.send
    {client : Client}
    (h : actor.Inv execute initial)
    (hstep : actor.step execute (.send client) = some actor') :
    actor'.Inv execute initial := by
  simp only [step] at hstep
  split at hstep
  · next hcall hstopped => exact absurd hstopped (h.running hcall).2.2
  · next command hcall hworker =>
      split at hstep
      · next hroom =>
          cases hstep
          have halive := h.alive hcall
          have hrunning := h.running hcall
          have hnot : client ∉ actor.unanswered := by
            rw [← h.waiting, hcall]
            simp
          have hunanswered : ∀ {calls log}, unanswered { actor with
              queue := actor.queue ++ [.command client command], calls := calls, log := log } =
                actor.unanswered ++ [client] := by
            intro calls log
            simp [unanswered, queuedCommands]
          constructor
          · simp only [halive]
            exact ⟨hrunning.1, by simpa using hrunning.2.1, hrunning.2.2⟩
          · simp
            omega
          · intro other
            rw [hunanswered]
            by_cases hother : other = client
            · subst hother
              simp
            · rw [AList.lookup_insert_ne hother, h.waiting]
              simp [hother]
          · rw [hunanswered, List.nodup_append]
            refine ⟨h.nodup, List.nodup_singleton _, ?_⟩
            rintro other hmem other' hmem' rfl
            rw [List.mem_singleton.mp hmem'] at hmem
            exact hnot hmem
          · have hexecuted := h.executed
            simp only [executedCommands, sentCommands, queuedCommands] at hexecuted ⊢
            simp [← hexecuted]
          · simpa [executedCommands] using h.state
          · intro other
            have hanswers := h.answers other
            simp only [answersTo, executedCommands, underWay] at hanswers ⊢
            by_cases hother : other = client
            · subst hother
              simpa [hcall, CallPhase.answer] using hanswers
            · simpa [AList.lookup_insert_ne hother] using hanswers
          · simpa [or_imp, forall_and, ActorObservation.IsUnavailable] using h.available
      · cases hstep
  · cases hstep

/-- The thread takes a message. -/
theorem Inv.receive
    (h : actor.Inv execute initial)
    (hstep : actor.step execute .receive = some actor') :
    actor'.Inv execute initial := by
  simp only [step] at hstep
  split at hstep
  · next client command queue hworker hqueue =>
      cases hstep
      have hmem : client ∈ actor.unanswered := by
        simp [unanswered, hworker, hqueue, queuedCommands]
      have hcall := (h.waiting client).mpr hmem
      have halive := h.alive hcall
      have hrunning := h.running hcall
      have hunanswered : ∀ {state : σ} {reply log}, unanswered { actor with
          state := state, queue := queue, worker := .responding client reply, log := log } =
            actor.unanswered := by
        intro state reply log
        simp [unanswered, hworker, hqueue, queuedCommands, WorkerPhase.answer]
      have hfits := h.fits
      rw [hqueue] at hfits hrunning
      constructor
      · simp only [halive]
        exact ⟨hrunning.1, fun hmem => hrunning.2.1 (List.mem_cons_of_mem _ hmem), by simp⟩
      · exact (Nat.le_succ _).trans hfits
      · intro other
        rw [hunanswered]
        exact h.waiting other
      · rw [hunanswered]
        exact h.nodup
      · have hexecuted := h.executed
        rw [hqueue] at hexecuted
        simp only [executedCommands, sentCommands, queuedCommands] at hexecuted ⊢
        simpa using hexecuted
      · have hstate := h.state
        simp only [executedCommands] at hstate ⊢
        simp [replayCommands_append, hstate, replayCommands]
      · intro other
        have hanswers := h.answers other
        simp only [answersTo, executedCommands, underWay, hworker, WorkerPhase.answer,
          repliesTo] at hanswers ⊢
        by_cases hother : client = other
        · subst hother
          simp [← hanswers, hcall, CallPhase.answer]
        · simp [← hanswers, hother]
      · simpa [or_imp, forall_and, ActorObservation.IsUnavailable] using h.available
  · next queue hworker hqueue =>
      cases hstep
      have hphase := h.phase
      cases howner : actor.owner with
      | joining =>
          rw [howner] at hphase
          obtain ⟨hcalls, ⟨hlast, _⟩ | ⟨hempty, _⟩⟩ := hphase
          · have hunanswered : actor.unanswered = [] := by
              simp [unanswered, hworker, hlast, queuedCommands, WorkerPhase.answer]
            constructor
            · simp [AtPhase, hcalls]
            · simp
            · intro other
              rw [h.waiting, hunanswered]
              simp [unanswered, queuedCommands, WorkerPhase.answer]
            · simp [unanswered, queuedCommands, WorkerPhase.answer]
            · rw [← h.executed, hlast]
              simp [queuedCommands]
            · exact h.state
            · intro other
              rw [← h.answers other]
              simp [underWay, hworker, WorkerPhase.answer]
            · exact h.available
          · simp [hqueue] at hempty
      | alive =>
          rw [howner] at hphase
          simp [AtPhase, hqueue] at hphase
      | flagged =>
          rw [howner] at hphase
          simp [AtPhase, hqueue] at hphase
      | dropped =>
          rw [howner] at hphase
          simp [AtPhase, hqueue] at hphase
  · cases hstep

/-- The thread answers. -/
theorem Inv.respond
    (h : actor.Inv execute initial)
    (hstep : actor.step execute .respond = some actor') :
    actor'.Inv execute initial := by
  simp only [step] at hstep
  split at hstep
  · next client reply hworker =>
      cases hstep
      have hunanswered : actor.unanswered =
          client :: (queuedCommands actor.queue).map (·.1) := by
        simp [unanswered, hworker, WorkerPhase.answer]
      have hnext : ∀ {calls}, unanswered { actor with worker := .receiving, calls := calls } =
          (queuedCommands actor.queue).map (·.1) := by
        simp [unanswered, WorkerPhase.answer]
      have hcall := (h.waiting client).mpr (by simp [hunanswered])
      have halive := h.alive hcall
      have hrunning := h.running hcall
      have hnodup := h.nodup
      rw [hunanswered, List.nodup_cons] at hnodup
      constructor
      · simp only [halive]
        exact ⟨hrunning.1, hrunning.2.1, by simp⟩
      · exact h.fits
      · intro other
        rw [hnext]
        by_cases hother : other = client
        · subst hother
          simpa using hnodup.1
        · rw [AList.lookup_insert_ne hother, h.waiting, hunanswered]
          simp [hother]
      · rw [hnext]
        exact hnodup.2
      · exact h.executed
      · exact h.state
      · intro other
        rw [← h.answers other]
        by_cases hother : other = client
        · subst hother
          simp [underWay, hworker, WorkerPhase.answer, hcall, CallPhase.answer]
        · have hne : ¬ client = other := fun heq => hother heq.symm
          simp [underWay, hworker, WorkerPhase.answer, AList.lookup_insert_ne hother, hne]
      · exact h.available
  · cases hstep

/-- A caller takes its answer. -/
theorem Inv.finish
    {client : Client}
    (h : actor.Inv execute initial)
    (hstep : actor.step execute (.finish client) = some actor') :
    actor'.Inv execute initial := by
  simp only [step] at hstep
  split at hstep
  · next reply hcall =>
      cases hstep
      have halive := h.alive hcall
      have hnot : client ∉ actor.unanswered := by
        rw [← h.waiting, hcall]
        simp
      have hanswer : actor.worker.answer.filter (·.1 = client) = [] := by
        simp only [unanswered, List.mem_append, List.mem_map, not_or, not_exists, not_and] at hnot
        simpa [List.filter_eq_nil_iff] using hnot.1
      constructor
      · simp only [halive]
        exact h.running hcall
      · exact h.fits
      · intro other
        by_cases hother : other = client
        · subst hother
          simpa [unanswered] using hnot
        · rw [AList.lookup_erase_ne hother]
          exact h.waiting other
      · exact h.nodup
      · simpa [executedCommands, sentCommands] using h.executed
      · simpa [executedCommands] using h.state
      · intro other
        have hanswers := h.answers other
        simp only [answersTo, executedCommands, underWay] at hanswers ⊢
        by_cases hother : client = other
        · subst hother
          simpa [hcall, CallPhase.answer, hanswer] using hanswers
        · have hne : ¬ other = client := fun heq => hother heq.symm
          simpa [AList.lookup_erase_ne hne, hother] using hanswers
      · simpa [or_imp, forall_and, ActorObservation.IsUnavailable] using h.available
  · next hcall hstopped => exact absurd hstopped (h.running hcall).2.2
  · cases hstep

/-- Only the phase of the drop changes. -/
theorem Inv.ofPhase
    {shutdown : Bool} {owner : OwnerPhase}
    (h : actor.Inv execute initial)
    (hphase : { actor with shutdown := shutdown, owner := owner }.AtPhase owner) :
    { actor with shutdown := shutdown, owner := owner }.Inv execute initial :=
  ⟨hphase, h.fits, h.waiting, h.nodup, h.executed, h.state, h.answers, h.available⟩

/-- The drop begins: no command is left in the queue, since no caller waits. -/
theorem Inv.dropBegin
    (h : actor.Inv execute initial)
    (hstep : actor.step execute .dropBegin = some actor') :
    actor'.Inv execute initial := by
  simp only [WriterActor.step] at hstep
  split at hstep
  · next hidle =>
      cases hstep
      obtain ⟨halive, hcalls⟩ := hidle
      have hphase := h.phase
      rw [halive] at hphase
      have hnone : ∀ client, client ∉ actor.unanswered := by
        intro client hmem
        have hcall := (h.waiting client).mpr hmem
        have hkey : client ∈ actor.calls.keys := by
          rw [← AList.mem_keys, ← AList.lookup_isSome, hcall]
          rfl
        simp [hcalls] at hkey
      have hworker : actor.worker = .receiving := by
        cases hworker : actor.worker with
        | receiving => rfl
        | responding client reply =>
            exact absurd (by simp [unanswered, hworker, WorkerPhase.answer]) (hnone client)
        | stopped => exact absurd hworker hphase.2.2
      have hqueue : actor.queue = [] := by
        cases hqueue : actor.queue with
        | nil => rfl
        | cons message rest =>
            cases message with
            | command client command =>
                exact absurd (by simp [unanswered, hqueue, queuedCommands]) (hnone client)
            | shutdown => simp [AtPhase, hqueue] at hphase
      exact h.ofPhase ⟨hcalls, hqueue, hworker⟩
  · cases hstep

/-- The last message is sent: the queue is empty, so there is a place. -/
theorem Inv.trySend
    (h : actor.Inv execute initial)
    (hstep : actor.step execute .trySend = some actor') :
    actor'.Inv execute initial := by
  simp only [WriterActor.step] at hstep
  split at hstep
  · next hflagged =>
      have hphase := h.phase
      rw [hflagged] at hphase
      obtain ⟨hcalls, hqueue, hworker⟩ := hphase
      have hroom : actor.queue.length < actor.queueCapacity := by
        rw [hqueue]
        exact actor.queueCapacity.2
      rw [if_pos hroom] at hstep
      cases hstep
      have hunanswered : ∀ {owner}, unanswered { actor with
          queue := actor.queue ++ [.shutdown], owner := owner } = actor.unanswered := by
        simp [unanswered, queuedCommands]
      constructor
      · exact ⟨hcalls, .inl ⟨by simp [hqueue], hworker⟩⟩
      · simp
        omega
      · intro client
        rw [hunanswered]
        exact h.waiting client
      · rw [hunanswered]
        exact h.nodup
      · simpa [queuedCommands] using h.executed
      · exact h.state
      · exact h.answers
      · exact h.available
  · cases hstep

/-- The thread is joined. -/
theorem Inv.join
    (h : actor.Inv execute initial)
    (hstep : actor.step execute .join = some actor') :
    actor'.Inv execute initial := by
  simp only [WriterActor.step] at hstep
  split at hstep
  · next hjoining hstopped =>
      cases hstep
      have hphase := h.phase
      rw [hjoining] at hphase
      obtain ⟨hcalls, ⟨_, hreceiving⟩ | ⟨hqueue, _⟩⟩ := hphase
      · simp [hstopped] at hreceiving
      · exact h.ofPhase ⟨hcalls, hqueue, hstopped⟩
  · cases hstep

/-- What one step keeps. -/
theorem Inv.step
    {event : ActorEvent Client Cmd}
    (h : actor.Inv execute initial)
    (hstep : actor.step execute event = some actor') :
    actor'.Inv execute initial := by
  cases event with
  | submit client command => exact h.submit hstep
  | send client => exact h.send hstep
  | receive => exact h.receive hstep
  | respond => exact h.respond hstep
  | finish client => exact h.finish hstep
  | dropBegin => exact h.dropBegin hstep
  | trySend => exact h.trySend hstep
  | join => exact h.join hstep

theorem Inv.run
    (h : actor.Inv execute initial)
    (events : List (ActorEvent Client Cmd)) :
    (actor.run execute events).Inv execute initial := by
  induction events generalizing actor with
  | nil => exact h
  | cons event rest ih =>
      refine ih ?_
      cases hstep : actor.step execute event with
      | none => simpa [hstep] using h
      | some next => simpa [hstep] using h.step hstep

/-! ## Calls return, and the drop ends -/

theorem run_cons
    {event : ActorEvent Client Cmd} {events : List (ActorEvent Client Cmd)}
    (hstep : actor.step execute event = some actor') :
    actor.run execute (event :: events) = actor'.run execute events := by
  simp [WriterActor.run, hstep]

theorem run_append
    (events events' : List (ActorEvent Client Cmd)) :
    actor.run execute (events ++ events') = (actor.run execute events).run execute events' :=
  List.foldl_append

/-- The thread worked for a while: no caller noticed, but for those whose answers arrived. -/
structure Served (before after : WriterActor σ Client Cmd Reply) : Prop where
  queueCapacity : after.queueCapacity = before.queueCapacity
  answered : ∀ client, answersTo client after.log = answersTo client before.log
  calls : ∀ client call, before.calls.lookup client = some call →
    after.calls.lookup client = some call ∨
      call = .waiting ∧ ∃ reply, after.calls.lookup client = some (.replied reply)

theorem Served.trans
    {first second third : WriterActor σ Client Cmd Reply}
    (h : first.Served second)
    (h' : second.Served third) :
    first.Served third := by
  refine ⟨h'.queueCapacity.trans h.queueCapacity,
    fun client => (h'.answered client).trans (h.answered client), ?_⟩
  intro client call hcall
  rcases h.calls client call hcall with hsame | ⟨hwaiting, reply, hreplied⟩
  · exact h'.calls client call hsame
  · rcases h'.calls client _ hreplied with hsame | ⟨hnot, _⟩
    · exact .inr ⟨hwaiting, reply, hsame⟩
    · cases hnot

/-- The thread gives the answer that it holds. -/
theorem Inv.serves_respond
    {client : Client} {reply : Reply}
    (h : actor.Inv execute initial)
    (hworker : actor.worker = .responding client reply) :
    ∃ after, actor.step execute .respond = some after ∧ actor.Served after ∧
      after.queue = actor.queue ∧ after.worker = .receiving := by
  have hstep : actor.step execute .respond =
      some { actor with
        worker := .receiving
        calls := actor.calls.insert client (.replied reply) } := by
    simp [WriterActor.step, hworker]
  refine ⟨_, hstep, ⟨rfl, fun _ => rfl, ?_⟩, rfl, rfl⟩
  intro other call hcall
  by_cases hother : other = client
  · subst hother
    have hwaiting := (h.waiting other).mpr (by simp [unanswered, hworker, WorkerPhase.answer])
    rw [hwaiting] at hcall
    exact .inr ⟨(Option.some.inj hcall).symm, reply, AList.lookup_insert _⟩
  · exact .inl ((AList.lookup_insert_ne hother).trans hcall)

/-- The thread takes the next command and executes it. -/
theorem serves_receive
    {client : Client} {command : Cmd} {queue : List (ActorMessage Client Cmd)}
    (hworker : actor.worker = .receiving)
    (hqueue : actor.queue = .command client command :: queue) :
    ∃ after, actor.step execute .receive = some after ∧ actor.Served after ∧
      after.queue = queue ∧ ∃ reply, after.worker = .responding client reply := by
  have hstep : actor.step execute .receive =
      some { actor with
        state := (execute command actor.state).2
        queue := queue
        worker := .responding client (execute command actor.state).1
        log := actor.log ++ [.executed client command (execute command actor.state).1] } := by
    simp [WriterActor.step, hworker, hqueue]
  refine ⟨_, hstep, ⟨rfl, ?_, fun _ _ => .inl⟩, rfl, _, rfl⟩
  simp [answersTo]

/-- The thread works off the queue. -/
theorem Inv.serves
    (h : actor.Inv execute initial)
    (hworker : actor.worker = .receiving)
    (hshutdown : .shutdown ∉ actor.queue) :
    ∃ events, events.length ≤ 2 * actor.queue.length ∧
      actor.Served (actor.run execute events) ∧
      (actor.run execute events).queue = [] ∧
      (actor.run execute events).worker = .receiving := by
  generalize hlength : actor.queue.length = length
  induction length generalizing actor with
  | zero =>
      exact ⟨[], Nat.zero_le _, ⟨rfl, fun _ => rfl, fun _ _ => .inl⟩,
        List.length_eq_zero_iff.mp hlength, hworker⟩
  | succ length ih =>
      cases hqueue : actor.queue with
      | nil => simp [hqueue] at hlength
      | cons message queue =>
          cases message with
          | shutdown => simp [hqueue] at hshutdown
          | command client command =>
              rw [hqueue] at hlength hshutdown
              obtain ⟨taken, htaken, hserved, htakenQueue, reply, htakenWorker⟩ :=
                @serves_receive _ _ _ _ _ execute _ _ _ _ hworker hqueue
              have htakenInv := h.step htaken
              obtain ⟨after, hafter, hserved', hafterQueue, hafterWorker⟩ :=
                htakenInv.serves_respond htakenWorker
              rw [htakenQueue] at hafterQueue
              obtain ⟨events, hevents, hserved'', hempty, hreceiving⟩ :=
                ih (htakenInv.step hafter) hafterWorker
                  (by rw [hafterQueue]; exact fun hmem => hshutdown (List.mem_cons_of_mem _ hmem))
                  (by rw [hafterQueue]; simpa using hlength)
              refine ⟨.receive :: .respond :: events, ?_, ?_, ?_, ?_⟩
              · simp only [List.length_cons]
                omega
              all_goals rw [run_cons htaken, run_cons hafter]
              · exact hserved.trans (hserved'.trans hserved'')
              · exact hempty
              · exact hreceiving

/-- Until the drop begins, the thread can come to rest. -/
theorem Inv.comesToRest
    (h : actor.Inv execute initial)
    (hrunning : .shutdown ∉ actor.queue ∧ actor.worker ≠ .stopped) :
    ∃ events, events.length ≤ 2 * actor.queue.length + 1 ∧
      actor.Served (actor.run execute events) ∧
      (actor.run execute events).queue = [] ∧
      (actor.run execute events).worker = .receiving := by
  cases hworker : actor.worker with
  | receiving =>
      obtain ⟨events, hevents, hserved⟩ := h.serves hworker hrunning.1
      exact ⟨events, hevents.trans (Nat.le_succ _), hserved⟩
  | responding client reply =>
      obtain ⟨after, hafter, hserved, hqueue, hreceiving⟩ := h.serves_respond hworker
      obtain ⟨events, hevents, hserved', hrest⟩ :=
        (h.step hafter).serves hreceiving (by rw [hqueue]; exact hrunning.1)
      rw [hqueue] at hevents
      refine ⟨.respond :: events, ?_, ?_⟩
      · rw [List.length_cons]
        omega
      · rw [run_cons hafter]
        exact ⟨hserved.trans hserved', hrest⟩
  | stopped => exact absurd hworker hrunning.2

/-- Within so many steps the caller is outside with one more answer. -/
def Returns (execute : Cmd → σ → Reply × σ) (steps : Nat) (client : Client)
    (actor : WriterActor σ Client Cmd Reply) : Prop :=
  ∃ events reply, events.length ≤ steps ∧
    (actor.run execute events).calls.lookup client = none ∧
    answersTo client (actor.run execute events).log = answersTo client actor.log ++ [reply]

theorem returns_replied
    {client : Client} {reply : Reply}
    (hcall : actor.calls.lookup client = some (.replied reply)) :
    actor.Returns execute 1 client := by
  have hstep : actor.step execute (.finish client) =
      some { actor with
        calls := actor.calls.erase client
        log := actor.log ++ [.answered client reply] } := by
    simp [WriterActor.step, hcall]
  refine ⟨[.finish client], reply, Nat.le_refl _, ?_, ?_⟩
  · rw [run_cons hstep]
    simp [WriterActor.run]
  · rw [run_cons hstep]
    simp [WriterActor.run, answersTo]

/-- Steps of others before a return. -/
theorem Returns.prepend
    {steps : Nat} {client : Client} {events : List (ActorEvent Client Cmd)}
    (hanswered : answersTo client (actor.run execute events).log = answersTo client actor.log)
    (h : (actor.run execute events).Returns execute steps client) :
    actor.Returns execute (events.length + steps) client := by
  obtain ⟨events', reply, hlength, hnone, hanswer⟩ := h
  refine ⟨events ++ events', reply, ?_, ?_, ?_⟩
  · rw [List.length_append]
    omega
  · rw [run_append]
    exact hnone
  · rw [run_append, hanswer, hanswered]

theorem Returns.mono
    {steps steps' : Nat} {client : Client}
    (h : actor.Returns execute steps client)
    (hle : steps ≤ steps') :
    actor.Returns execute steps' client := by
  obtain ⟨events, reply, hlength, hreturns⟩ := h
  exact ⟨events, reply, hlength.trans hle, hreturns⟩

/-- The thread answers a caller that waits. -/
theorem Inv.returns_waiting
    {client : Client}
    (h : actor.Inv execute initial)
    (hcall : actor.calls.lookup client = some .waiting) :
    actor.Returns execute (2 * actor.queue.length + 2) client := by
  obtain ⟨events, hevents, hserved, hqueue, hworker⟩ := h.comesToRest (h.running hcall).2
  have hnot : client ∉ (actor.run execute events).unanswered := by
    simp [unanswered, hqueue, hworker, queuedCommands, WorkerPhase.answer]
  rcases hserved.calls client _ hcall with hwaiting | ⟨_, reply, hreplied⟩
  · exact absurd (((h.run events).waiting client).mp hwaiting) hnot
  · exact (Returns.prepend (hserved.answered client) (returns_replied hreplied)).mono (by omega)

/-- The thread rests: a caller sends its command and is answered. -/
theorem Inv.returns_sending_rest
    {client : Client} {command : Cmd}
    (h : actor.Inv execute initial)
    (hqueue : actor.queue = [])
    (hworker : actor.worker = .receiving)
    (hcall : actor.calls.lookup client = some (.sending command)) :
    actor.Returns execute 5 client := by
  have hroom : actor.queue.length < actor.queueCapacity := by
    rw [hqueue]
    exact actor.queueCapacity.2
  have hstep : actor.step execute (.send client) =
      some { actor with
        queue := actor.queue ++ [.command client command]
        calls := actor.calls.insert client .waiting
        log := actor.log ++ [.sent client command] } := by
    simp [WriterActor.step, hcall, hworker, hroom]
  obtain ⟨events, reply, hlength, hnone, hanswer⟩ :=
    (h.step hstep).returns_waiting (AList.lookup_insert _)
  refine ⟨.send client :: events, reply, ?_, ?_, ?_⟩
  · simp only [hqueue, List.nil_append, List.length_cons, List.length_nil] at hlength ⊢
    omega
  · rw [run_cons hstep]
    exact hnone
  · rw [run_cons hstep, hanswer]
    simp [answersTo]

/-- A caller with a command to send finds a place once the thread rests. -/
theorem Inv.returns_sending
    {client : Client} {command : Cmd}
    (h : actor.Inv execute initial)
    (hcall : actor.calls.lookup client = some (.sending command)) :
    actor.Returns execute (2 * actor.queue.length + 6) client := by
  obtain ⟨events, hevents, hserved, hqueue, hworker⟩ := h.comesToRest (h.running hcall).2
  rcases hserved.calls client _ hcall with hsending | ⟨hnot, _⟩
  · have hreturns := (h.run events).returns_sending_rest hqueue hworker hsending
    exact (Returns.prepend (hserved.answered client) hreturns).mono (by omega)
  · cases hnot

/-- A caller outside has all its answers. -/
theorem Inv.answersTo_eq
    {client : Client}
    (h : actor.Inv execute initial)
    (hcall : actor.calls.lookup client = none) :
    answersTo client actor.log = repliesTo client (executedCommands actor.log) := by
  have hnot : client ∉ actor.unanswered := by
    rw [← h.waiting, hcall]
    simp
  simp only [unanswered, List.mem_append, List.mem_map, not_or, not_exists, not_and] at hnot
  have hworker : actor.worker.answer.filter (·.1 = client) = [] := by
    simpa [List.filter_eq_nil_iff] using hnot.1
  have hanswers := h.answers client
  simpa [underWay, hcall, hworker] using hanswers

theorem step_queueCapacity
    {event : ActorEvent Client Cmd}
    (hstep : actor.step execute event = some actor') :
    actor'.queueCapacity = actor.queueCapacity := by
  cases event <;> simp only [WriterActor.step] at hstep <;> split at hstep
  all_goals try split at hstep
  all_goals cases hstep
  all_goals rfl

theorem run_queueCapacity
    (events : List (ActorEvent Client Cmd)) :
    (actor.run execute events).queueCapacity = actor.queueCapacity := by
  induction events generalizing actor with
  | nil => rfl
  | cons event rest ih =>
      rw [WriterActor.run, List.foldl_cons]
      refine ih.trans ?_
      cases hstep : actor.step execute event with
      | none => rfl
      | some next => exact step_queueCapacity hstep

/-- From every state of the actor that its callers can reach, a caller inside a call can be
answered within so many steps, however full the queue is, with what its command returned. -/
theorem call_returns
    (execute : Cmd → σ → Reply × σ) (initial : σ) (queueCapacity : ℕ+)
    (events : List (ActorEvent Client Cmd)) (client : Client) :
    let actor := (start initial queueCapacity).run execute events
    actor.calls.lookup client = none ∨
      ∃ events' reply, events'.length ≤ 2 * (queueCapacity : Nat) + 6 ∧
        (actor.run execute events').calls.lookup client = none ∧
        answersTo client (actor.run execute events').log =
          answersTo client actor.log ++ [reply] ∧
        answersTo client (actor.run execute events').log =
          repliesTo client (executedCommands (actor.run execute events').log) := by
  intro actor
  have hinv : actor.Inv execute initial := inv_start.run events
  have hfits := hinv.fits
  rw [show actor.queueCapacity = queueCapacity from run_queueCapacity events] at hfits
  have hreturns : ∀ call, actor.calls.lookup client = some call →
      actor.Returns execute (2 * (queueCapacity : Nat) + 6) client := by
    intro call hcall
    cases call with
    | sending command => exact (hinv.returns_sending hcall).mono (by omega)
    | waiting => exact (hinv.returns_waiting hcall).mono (by omega)
    | replied reply => exact (returns_replied hcall).mono (by omega)
  cases hcall : actor.calls.lookup client with
  | none => exact .inl rfl
  | some call =>
      obtain ⟨events', reply, hlength, hnone, hanswer⟩ := hreturns call hcall
      exact .inr ⟨events', reply, hlength, hnone, hanswer,
        (hinv.run events').answersTo_eq hnone⟩

/-- The drop ends, once it has begun. -/
theorem Inv.dropEnds
    (h : actor.Inv execute initial)
    (hdrop : actor.owner ≠ .alive) :
    ∃ events, events.length ≤ 3 ∧ (actor.run execute events).owner = .dropped := by
  have hphase := h.phase
  have joins : ∀ {stopped : WriterActor σ Client Cmd Reply}, stopped.owner = .joining →
      stopped.worker = .stopped → (stopped.run execute [.join]).owner = .dropped := by
    intro stopped howner hworker
    simp [WriterActor.run, WriterActor.step, howner, hworker]
  have stops : ∀ {last : WriterActor σ Client Cmd Reply}, last.owner = .joining →
      last.queue = [.shutdown] → last.worker = .receiving →
      (last.run execute [.receive, .join]).owner = .dropped := by
    intro last howner hqueue hworker
    have hstep : last.step execute .receive =
        some { last with queue := [], worker := .stopped } := by
      simp [WriterActor.step, hqueue, hworker]
    rw [run_cons hstep]
    exact joins howner rfl
  cases howner : actor.owner with
  | alive => exact absurd howner hdrop
  | flagged =>
      rw [howner] at hphase
      obtain ⟨_, hqueue, hworker⟩ := hphase
      have hroom : actor.queue.length < actor.queueCapacity := by
        rw [hqueue]
        exact actor.queueCapacity.2
      have hstep : actor.step execute .trySend =
          some { actor with queue := actor.queue ++ [.shutdown], owner := .joining } := by
        simp [WriterActor.step, howner, hroom]
      refine ⟨[.trySend, .receive, .join], Nat.le_refl _, ?_⟩
      rw [run_cons hstep]
      exact stops rfl (by simp [hqueue]) hworker
  | joining =>
      rw [howner] at hphase
      rcases hphase.2 with ⟨hqueue, hworker⟩ | ⟨hqueue, hworker⟩
      · exact ⟨[.receive, .join], by simp, stops howner hqueue hworker⟩
      · exact ⟨[.join], by simp, joins howner hworker⟩
  | dropped => exact ⟨[], by simp, howner⟩

/-- When the drop has begun, no command is left. -/
theorem Inv.drained
    (h : actor.Inv execute initial)
    (hdrop : actor.owner ≠ .alive) :
    (executedCommands actor.log).map (·.1) = sentCommands actor.log ∧
      actor.calls.keys = [] := by
  have hphase := h.phase
  have hqueued : queuedCommands actor.queue = [] ∧ actor.calls.keys = [] := by
    cases howner : actor.owner with
    | alive => exact absurd howner hdrop
    | flagged =>
        rw [howner] at hphase
        simp [hphase.2.1, hphase.1, queuedCommands]
    | joining =>
        rw [howner] at hphase
        rcases hphase.2 with ⟨hqueue, _⟩ | ⟨hqueue, _⟩ <;>
          simp [hqueue, hphase.1, queuedCommands]
    | dropped =>
        rw [howner] at hphase
        simp [hphase.2.1, hphase.1, queuedCommands]
  refine ⟨?_, hqueued.2⟩
  rw [← h.executed, hqueued.1, List.append_nil]

end Invariant

/-! ## The whole run -/

/-- What the log of a run says: commands are executed in queue order and each once, each caller
is told what its commands returned, and the drop waits for the last of them. -/
structure ShutsDown {σ Client Cmd Reply : Type} [DecidableEq Client]
    (execute : Cmd → σ → Reply × σ) (initial : σ) (actor : WriterActor σ Client Cmd Reply) :
    Prop where
  executed : (executedCommands actor.log).map (·.1) <+: sentCommands actor.log
  state : replayCommands execute ((executedCommands actor.log).map (·.1)) initial =
    ((executedCommands actor.log).map (·.2), actor.state)
  answered : ∀ client, answersTo client actor.log <+:
    repliesTo client (executedCommands actor.log)
  available : ∀ seen ∈ actor.log, ¬ seen.IsUnavailable
  drained : actor.owner ≠ .alive →
    (executedCommands actor.log).map (·.1) = sentCommands actor.log ∧
      ∀ client, answersTo client actor.log = repliesTo client (executedCommands actor.log)
  ends : actor.owner ≠ .alive →
    ∃ events, events.length ≤ 3 ∧ (actor.run execute events).owner = .dropped

/-- In every interleaving of the callers, the thread and the drop. -/
theorem run_shutsDown {σ Client Cmd Reply : Type} [DecidableEq Client]
    (execute : Cmd → σ → Reply × σ) (initial : σ) (queueCapacity : ℕ+)
    (events : List (ActorEvent Client Cmd)) :
    ((start initial queueCapacity).run execute events).ShutsDown execute initial := by
  have hinv : ((start initial queueCapacity).run execute events).Inv execute initial :=
    inv_start.run events
  refine ⟨?_, hinv.state, fun client => ?_, hinv.available, fun hdrop => ?_, hinv.dropEnds⟩
  · rw [← hinv.executed]
    exact List.prefix_append _ _
  · rw [← hinv.answers]
    exact List.prefix_append _ _
  · obtain ⟨hexecuted, hcalls⟩ := hinv.drained hdrop
    refine ⟨hexecuted, fun client => hinv.answersTo_eq ?_⟩
    rw [AList.lookup_eq_none, AList.mem_keys, hcalls]
    exact List.not_mem_nil

end WriterActor

namespace EngineWriter

variable [Blake3] [StoreHasher]

/-- The writer runs its commands one after the other. -/
theorem runAll_eq_replayCommands {Client : Type}
    (commands : List (Client × MapListing × EngineCommand)) (writer : EngineWriter) :
    EngineCommand.runAll (commands.map (·.2)) writer =
      (replayCommands (fun command => command.2.run command.1) commands writer).2 := by
  induction commands generalizing writer with
  | nil => rfl
  | cons entry rest ih =>
      rw [List.map_cons, EngineCommand.runAll, ih]
      rfl

/-- An engine that is dropped has run every command that a caller sent, in the order in which
they entered the queue, and every caller was answered; what it leaves satisfies the invariant
of the writer. -/
theorem actor_shutsDown {Client : Type} [DecidableEq Client]
    (datastoreId : DatastoreId) (retainedSnapshots : ℕ+) (evaluationLimits : EvaluationLimits)
    (queueCapacity : ℕ+) (events : List (ActorEvent Client (MapListing × EngineCommand))) :
    let execute := fun command : MapListing × EngineCommand => command.2.run command.1
    let initial := EngineWriter.new datastoreId retainedSnapshots evaluationLimits
    let actor := (WriterActor.start initial queueCapacity).run execute events
    actor.ShutsDown execute initial ∧ actor.state.Inv ∧
      (actor.owner ≠ .alive →
        actor.state = EngineCommand.runAll ((sentCommands actor.log).map (·.2)) initial) := by
  intro execute initial actor
  have hshuts : actor.ShutsDown execute initial :=
    WriterActor.run_shutsDown execute initial queueCapacity events
  have hstate : actor.state =
      EngineCommand.runAll (((executedCommands actor.log).map (·.1)).map (·.2)) initial := by
    rw [runAll_eq_replayCommands, hshuts.state]
  refine ⟨hshuts, ?_, fun hdrop => ?_⟩
  · rw [hstate]
    exact (EngineCommand.sound_runAll (sound_new _ _ _) _).inv
  · rw [hstate, (hshuts.drained hdrop).1]

end EngineWriter

end SimpleZanzibar
