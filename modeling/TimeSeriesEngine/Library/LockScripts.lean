import Mathlib.Data.Multiset.DershowitzManna
import Mathlib.SetTheory.Ordinal.Family
import Mathlib.Data.Fintype.Sum
import TimeSeriesEngine.Library.Transition

/-!
# Threads that lock reader/writer mutexes and share a pool

Any number of clients run programs that lock and unlock reader/writer mutexes, read and
change the data behind them, hand tasks to a pool of workers and wait for these.  A
program is a tree (`Script`): what a thread does next may depend on what it has read.
Which waiting thread gets a mutex is up to an admission policy, which sees the whole
past.

* **`Script.Flat`** — the script holds one mutex at a time, and none while it submits,
  waits or ends.
* **`Orderly.step`** — if every program is flat, every reachable state is `Orderly`: each
  thread is inside a flat script.
* **`Orderly.not_requestsHeld`** — no thread of an orderly state asks for a mutex it has.
* **`Orderly.progress`** — in an orderly state with something left to do some thread can
  act, whatever lawful policy decides.
* **`moves_wellFounded`** — without new programs the threads act finitely often.
-/

namespace LockScripts

open Transition

variable {M D P : Type} {n w : Nat}

/-- A mutex is taken together with other readers, or alone. -/
inductive Mode where
  | shared
  | exclusive
deriving DecidableEq, Repr

/-- A mutex, how it is locked, and what is done to the data under it. -/
structure CriticalSection (M D : Type) where
  mutex : M
  mode : Mode
  change : D → D

/-- What a thread has left to do.  `blocked` is a `lock` that has been requested and not
    yet granted; programs do not contain it. -/
inductive Script (M D : Type) where
  | done
  | lock (mutex : M) (mode : Mode) (rest : Script M D)
  | blocked (mutex : M) (mode : Mode) (rest : Script M D)
  | unlock (mutex : M) (rest : Script M D)
  | read (rest : D → Script M D)
  | write (change : D → D) (rest : Script M D)
  | submit (task : List (CriticalSection M D)) (rest : Script M D)
  | await (rest : Script M D)

/-- Nothing is left to do. -/
def Script.isDone : Script M D → Bool
  | .done => true
  | _ => false

/-- The script is in front of a read. -/
def Script.isRead : Script M D → Bool
  | .read _ => true
  | _ => false

/-- What the thread has requested and not got. -/
def Script.request : Script M D → Option (M × Mode)
  | .blocked mutex mode _ => some (mutex, mode)
  | _ => none

/-- One critical section after another. -/
def runSections : List (CriticalSection M D) → Script M D → Script M D
  | [], rest => rest
  | one :: sections, rest =>
      .lock one.mutex one.mode
        (.write one.change (.unlock one.mutex (runSections sections rest)))

/-- Every task goes to the pool; then all of them are waited for. -/
def runTasks : List (List (CriticalSection M D)) → Script M D → Script M D
  | [], rest => .await rest
  | task :: tasks, rest => .submit task (runTasks tasks rest)

/-- What the script leaves when nobody else runs. -/
def Script.alone : Script M D → D → D
  | .done, data => data
  | .lock _ _ rest, data | .blocked _ _ rest, data | .unlock _ rest, data
  | .await rest, data => rest.alone data
  | .read rest, data => (rest data).alone data
  | .write change rest, data => rest.alone (change data)
  | .submit task rest, data => rest.alone (task.foldl (fun acc one => one.change acc) data)

theorem alone_runSections (sections : List (CriticalSection M D)) (rest : Script M D) (data : D) :
    (runSections sections rest).alone data =
      rest.alone (sections.foldl (fun acc one => one.change acc) data) := by
  induction sections generalizing data with
  | nil => rfl
  | cons one sections ih => exact ih (one.change data)

/-- Tasks of sections, run alone. -/
theorem alone_runTasks (tasks : List (List (CriticalSection M D))) (rest : Script M D) (data : D) :
    (runTasks tasks rest).alone data =
      rest.alone (tasks.flatten.foldl (fun acc one => one.change acc) data) := by
  induction tasks generalizing data with
  | nil => rfl
  | cons task tasks ih =>
      rw [List.flatten_cons, List.foldl_append]
      exact ih _

/-- Clients on the left, workers on the right. -/
abbrev Thread (n w : Nat) := Fin n ⊕ Fin w

/-- `program` is what a client runs, `caller` whose task a worker runs. -/
structure ThreadState (M D P : Type) (n : Nat) where
  script : Script M D := .done
  held : List (M × Mode) := []
  program : Option P := none
  caller : Option (Fin n) := none

/-- A client starts a program, or a thread acts. -/
inductive Step (P : Type) (n w : Nat) where
  | start (client : Fin n) (program : P)
  | act (thread : Thread n w)

/-- The data, the threads, and the work that waits for the pool. -/
structure State (M D P : Type) (n w : Nat) where
  data : D
  threads : Thread n w → ThreadState M D P n := fun _ => {}
  queue : List (Fin n × List (CriticalSection M D)) := []
  past : List (Step P n w) := []

variable [DecidableEq M]

/-- A thread goes on. -/
def State.setThread (state : State M D P n w) (thread : Thread n w)
    (changed : ThreadState M D P n) : State M D P n w :=
  { state with threads := Function.update state.threads thread changed }

/-- The next action of a thread.  A worker with nothing to do takes the oldest task. -/
def act (state : State M D P n w) (thread : Thread n w) : State M D P n w :=
  let self := state.threads thread
  match self.script with
  | .done =>
      match thread, state.queue with
      | .inr _, (caller, task) :: queue =>
          { state with queue := queue }.setThread thread
            { self with script := runSections task .done, caller := some caller }
      | _, _ => state
  | .lock mutex mode rest =>
      state.setThread thread { self with script := .blocked mutex mode rest }
  | .blocked mutex mode rest =>
      state.setThread thread { self with script := rest, held := (mutex, mode) :: self.held }
  | .unlock mutex rest =>
      state.setThread thread
        { self with script := rest, held := self.held.eraseP fun hold => hold.1 = mutex }
  | .read rest => state.setThread thread { self with script := rest state.data }
  | .write change rest =>
      { state with data := change state.data }.setThread thread { self with script := rest }
  | .submit task rest =>
      match thread with
      | .inl client =>
          { state with queue := state.queue ++ [(client, task)] }.setThread thread
            { self with script := rest }
      | .inr _ => state
  | .await rest => state.setThread thread { self with script := rest }

/-- A client that has nothing left to do may start a program. -/
def step (scriptOf : P → Script M D) (state : State M D P n w) (action : Step P n w) :
    State M D P n w :=
  let after :=
    match action with
    | .start client program =>
        if (state.threads (.inl client)).script.isDone then
          state.setThread (.inl client)
            { state.threads (.inl client) with
              script := scriptOf program
              program := some program }
        else state
    | .act thread => act state thread
  { after with past := action :: state.past }

/-! ## What a thread may do -/

section Actions

omit [DecidableEq M]

/-- No holder excludes the mode. -/
def Compatible (state : State M D P n w) (mutex : M) (mode : Mode) : Prop :=
  ∀ other, ∀ hold ∈ (state.threads other).held,
    hold.1 = mutex → hold.2 = .shared ∧ mode = .shared

/-- Every task the client has submitted has run. -/
def AllReady (state : State M D P n w) (client : Fin n) : Prop :=
  (∀ entry ∈ state.queue, entry.1 ≠ client) ∧
    ∀ worker : Fin w, (state.threads (.inr worker)).caller = some client →
      (state.threads (.inr worker)).script.isDone = true

/-- Which of the threads waiting for a mutex may have it. -/
abbrev Policy (M D P : Type) (n w : Nat) := State M D P n w → Thread n w → Prop

/-- The thread can go on with the script. -/
def CanRun (admits : Policy M D P n w) (state : State M D P n w) :
    Thread n w → Script M D → Prop
  | .inl _, .done => False
  | .inr _, .done => state.queue ≠ []
  | thread, .blocked mutex mode _ => Compatible state mutex mode ∧ admits state thread
  | .inl client, .await _ => AllReady state client
  | .inr _, .submit _ _ => False
  | .inr _, .await _ => False
  | _, _ => True

/-- The thread can take its next step. -/
def CanAct (admits : Policy M D P n w) (state : State M D P n w) (thread : Thread n w) : Prop :=
  CanRun admits state thread (state.threads thread).script

/-- The step can be taken. -/
def Enabled (admits : Policy M D P n w) (state : State M D P n w) : Step P n w → Prop
  | .start client _ => (state.threads (.inl client)).script.isDone = true
  | .act thread => CanAct admits state thread

/-- The thread has requested the mutex and not got it. -/
def Waits (state : State M D P n w) (thread : Thread n w) (mutex : M) : Prop :=
  ∃ mode, (state.threads thread).script.request = some (mutex, mode)

/-- No thread holds the mutex. -/
def Unheld (state : State M D P n w) (mutex : M) : Prop :=
  ∀ other, ∀ hold ∈ (state.threads other).held, hold.1 ≠ mutex

/-- A mutex that nobody holds goes to one of those waiting for it. -/
def Lawful (admits : Policy M D P n w) : Prop :=
  ∀ state mutex, Unheld state mutex → (∃ thread, Waits state thread mutex) →
    ∃ thread, Waits state thread mutex ∧ admits state thread

/-- The thread waits for a mutex it holds. -/
def RequestsHeld (state : State M D P n w) (thread : Thread n w) : Prop :=
  ∃ mutex, Waits state thread mutex ∧ ∃ hold ∈ (state.threads thread).held, hold.1 = mutex

/-- Nothing is left to do. -/
def Finished (state : State M D P n w) : Prop :=
  (∀ thread, (state.threads thread).script.isDone = true) ∧ state.queue = []

/-- The reads of a program find only such data. -/
def Sees (sees : P → D → Prop) (state : State M D P n w) : Step P n w → Prop
  | .start _ _ => True
  | .act thread =>
      (state.threads thread).script.isRead = true →
        ∀ program ∈ (state.threads thread).program, sees program state.data

/-- A policy of this kind: a thread that asks for shared access comes after every thread
    that waits for exclusive access. -/
def writerFirst : Policy M D P n w := fun state thread =>
  match (state.threads thread).script.request with
  | some (mutex, .shared) =>
      ∀ other, (state.threads other).script.request ≠ some (mutex, .exclusive)
  | _ => True

end Actions

section Decisions

variable (state : State M D P n w)

instance (mutex : M) (mode : Mode) : Decidable (Compatible state mutex mode) :=
  inferInstanceAs (Decidable (∀ other, ∀ hold ∈ (state.threads other).held, _ → _ ∧ _))

instance (client : Fin n) : Decidable (AllReady state client) :=
  inferInstanceAs (Decidable ((∀ entry ∈ state.queue, _) ∧ ∀ _ : Fin w, _ → _))

instance decidableCanRun (admits : Policy M D P n w)
    [∀ state thread, Decidable (admits state thread)] :
    (thread : Thread n w) → (script : Script M D) → Decidable (CanRun admits state thread script)
  | .inl _, .done | .inr _, .submit _ _ | .inr _, .await _ => isFalse not_false
  | .inr _, .done => decidable_of_iff (state.queue.isEmpty = false) List.isEmpty_eq_false_iff
  | .inl client, .blocked mutex mode _ =>
      inferInstanceAs (Decidable (Compatible state mutex mode ∧ admits state (.inl client)))
  | .inr worker, .blocked mutex mode _ =>
      inferInstanceAs (Decidable (Compatible state mutex mode ∧ admits state (.inr worker)))
  | .inl client, .await _ => inferInstanceAs (Decidable (AllReady state client))
  | .inl _, .submit _ _ => isTrue trivial
  | .inl _, .lock _ _ _ | .inr _, .lock _ _ _ => isTrue trivial
  | .inl _, .unlock _ _ | .inr _, .unlock _ _ => isTrue trivial
  | .inl _, .read _ | .inr _, .read _ => isTrue trivial
  | .inl _, .write _ _ | .inr _, .write _ _ => isTrue trivial

instance (admits : Policy M D P n w) [∀ state thread, Decidable (admits state thread)]
    (thread : Thread n w) : Decidable (CanAct admits state thread) :=
  decidableCanRun state admits thread (state.threads thread).script

instance decidableEnabled (admits : Policy M D P n w)
    [∀ state thread, Decidable (admits state thread)] :
    (action : Step P n w) → Decidable (Enabled admits state action)
  | .start client _ => inferInstanceAs (Decidable ((state.threads (.inl client)).script.isDone = true))
  | .act thread => inferInstanceAs (Decidable (CanAct admits state thread))

instance decidableSees (sees : P → D → Prop) [∀ program data, Decidable (sees program data)] :
    (action : Step P n w) → Decidable (Sees sees state action)
  | .start _ _ => isTrue trivial
  | .act thread =>
      inferInstanceAs (Decidable ((state.threads thread).script.isRead = true →
        ∀ program ∈ (state.threads thread).program, sees program state.data))

instance decidableWriterFirst : (thread : Thread n w) → Decidable (writerFirst state thread) :=
  fun thread =>
    match h : (state.threads thread).script.request with
    | some (mutex, .shared) =>
        decidable_of_iff
          (∀ other, (state.threads other).script.request ≠ some (mutex, .exclusive))
          (by rw [writerFirst, h])
    | some (_, .exclusive) | none => isTrue (by rw [writerFirst, h]; trivial)

end Decisions

/-- A free mutex goes to somebody, whoever waits for it. -/
theorem writerFirst_lawful : Lawful (writerFirst : Policy M D P n w) := by
  rintro state mutex - ⟨thread, mode, hrequest⟩
  by_cases hwriter : ∃ other, (state.threads other).script.request = some (mutex, .exclusive)
  · obtain ⟨other, hother⟩ := hwriter
    exact ⟨other, ⟨.exclusive, hother⟩, by rw [writerFirst, hother]; trivial⟩
  · refine ⟨thread, ⟨mode, hrequest⟩, ?_⟩
    cases mode with
    | exclusive => exact absurd ⟨thread, hrequest⟩ hwriter
    | shared =>
        rw [writerFirst, hrequest]
        exact not_exists.mp hwriter

/-- The threads act for ever, without a new program. -/
def Endless (scriptOf : P → Script M D) (admits : Policy M D P n w)
    (state : State M D P n w) : Prop :=
  ∃ states : ℕ → State M D P n w, states 0 = state ∧ ∀ i, ∃ thread,
    CanAct admits (states i) thread ∧ states (i + 1) = step scriptOf (states i) (.act thread)

/-! ## One mutex at a time -/

section Flatness

omit [DecidableEq M]

/-- The script, of a thread that holds `holding` and nothing else, locks only while it
    holds nothing, unlocks what it holds, and neither submits, waits nor ends in between. -/
def Script.Flat (sees : D → Prop) : Script M D → Option M → Prop
  | .done, holding => holding = none
  | .lock mutex _ rest, holding => holding = none ∧ rest.Flat sees (some mutex)
  | .blocked mutex _ rest, holding => holding = none ∧ rest.Flat sees (some mutex)
  | .unlock mutex rest, holding => holding = some mutex ∧ rest.Flat sees none
  | .read rest, holding => ∀ data, sees data → (rest data).Flat sees holding
  | .write _ rest, holding => rest.Flat sees holding
  | .submit _ rest, holding => holding = none ∧ rest.Flat sees none
  | .await rest, holding => holding = none ∧ rest.Flat sees none

/-- The script needs no other thread to have run first. -/
def Script.Local : Script M D → Prop
  | .done => True
  | .lock _ _ rest | .blocked _ _ rest | .unlock _ rest | .write _ rest => rest.Local
  | .read rest => ∀ data, (rest data).Local
  | .submit _ _ | .await _ => False

theorem runSections_flat {sees : D → Prop} (sections : List (CriticalSection M D))
    {rest : Script M D} (h : rest.Flat sees none) : (runSections sections rest).Flat sees none := by
  induction sections with
  | nil => exact h
  | cons one sections ih => exact ⟨rfl, rfl, ih⟩

theorem runTasks_flat {sees : D → Prop} (tasks : List (List (CriticalSection M D)))
    {rest : Script M D} (h : rest.Flat sees none) : (runTasks tasks rest).Flat sees none := by
  induction tasks with
  | nil => exact ⟨rfl, h⟩
  | cons task tasks ih => exact ⟨rfl, ih⟩

theorem runSections_local (sections : List (CriticalSection M D)) :
    (runSections sections .done).Local := by
  induction sections with
  | nil => exact trivial
  | cons one sections ih => exact ih

/-- A script that is flat whatever it reads is flat when it reads less. -/
theorem Script.Flat.mono {sees sees' : D → Prop} (h : ∀ data, sees' data → sees data)
    {script : Script M D} {holding : Option M} (hflat : script.Flat sees holding) :
    script.Flat sees' holding := by
  induction script generalizing holding with
  | done => exact hflat
  | lock _ _ _ ih | blocked _ _ _ ih | unlock _ _ ih | submit _ _ ih | await _ ih =>
      exact ⟨hflat.1, ih hflat.2⟩
  | read _ ih => exact fun data hdata => ih data (hflat data (h data hdata))
  | write _ _ ih => exact ih hflat

/-- What the thread holds is the one mutex its script takes it to hold. -/
def Holds (held : List (M × Mode)) : Option M → Prop
  | none => held = []
  | some mutex => ∃ mode, held = [(mutex, mode)]

/-- The thread is inside a flat script. -/
def ThreadState.Flat (sees : P → D → Prop) (self : ThreadState M D P n) : Prop :=
  ∃ holding, Holds self.held holding ∧
    self.script.Flat (fun data => ∀ program, self.program = some program → sees program data)
      holding

/-- Threads hold one mutex at a time, and the pool runs tasks only. -/
structure Orderly (sees : P → D → Prop) (threads : Thread n w → ThreadState M D P n) : Prop where
  flat : ∀ thread, (threads thread).Flat sees
  tasks : ∀ worker : Fin w, (threads (.inr worker)).script.Local

theorem orderly_start (sees : P → D → Prop) (data : D) :
    Orderly sees ({ data := data } : State M D P n w).threads where
  flat _ := ⟨none, rfl, rfl⟩
  tasks _ := trivial

/-- One thread changes, and is still inside a flat script. -/
theorem Orderly.update {sees : P → D → Prop} {threads : Thread n w → ThreadState M D P n}
    (h : Orderly sees threads) {thread : Thread n w} {changed : ThreadState M D P n}
    (hflat : changed.Flat sees)
    (htask : ∀ worker : Fin w, thread = .inr worker → (threads thread).script.Local →
      changed.script.Local) :
    Orderly sees (Function.update threads thread changed) := by
  refine ⟨fun other => ?_, fun worker => ?_⟩
  · by_cases hother : other = thread
    · rw [hother, Function.update_self]
      exact hflat
    · rw [Function.update_of_ne hother]
      exact h.flat other
  · by_cases hother : Sum.inr worker = thread
    · rw [hother, Function.update_self]
      refine htask worker hother.symm ?_
      rw [← hother]
      exact h.tasks worker
    · rw [Function.update_of_ne hother]
      exact h.tasks worker

/-- A thread goes on with a script that is local if the one before was. -/
theorem Orderly.advance {sees : P → D → Prop} {threads : Thread n w → ThreadState M D P n}
    (h : Orderly sees threads) {thread : Thread n w} {script : Script M D}
    (hscript : (threads thread).script = script) {changed : ThreadState M D P n}
    (hflat : changed.Flat sees) (hlocal : script.Local → changed.script.Local) :
    Orderly sees (Function.update threads thread changed) := by
  refine h.update hflat fun _ _ hbefore => hlocal ?_
  rw [← hscript]
  exact hbefore

end Flatness

/-- **An action of a thread.**  One case for each kind of script. -/
theorem Orderly.act {sees : P → D → Prop} {state : State M D P n w}
    (h : Orderly sees state.threads) {thread : Thread n w}
    (hsees : Sees sees state (.act thread)) : Orderly sees (act state thread).threads := by
  obtain ⟨holding, hholds, hflat⟩ := h.flat thread
  cases hscript : (state.threads thread).script with
  | done =>
      rw [hscript] at hflat
      cases thread with
      | inl client =>
          simp only [LockScripts.act, hscript]
          exact h
      | inr worker =>
          simp only [LockScripts.act, hscript]
          cases hqueue : state.queue with
          | nil => exact h
          | cons entry queue =>
              refine h.update ⟨none, ?_, runSections_flat entry.2 rfl⟩ fun _ _ _ =>
                runSections_local entry.2
              rw [show holding = none from hflat] at hholds
              exact hholds
  | lock mutex mode rest =>
      rw [hscript] at hflat
      simp only [LockScripts.act, hscript]
      exact h.advance hscript ⟨holding, hholds, hflat⟩ id
  | blocked mutex mode rest =>
      rw [hscript] at hflat
      simp only [LockScripts.act, hscript]
      obtain ⟨rfl, hrest⟩ := hflat
      refine h.advance hscript ⟨some mutex, ⟨mode, ?_⟩, hrest⟩ id
      rw [show (state.threads thread).held = [] from hholds]
  | unlock mutex rest =>
      rw [hscript] at hflat
      simp only [LockScripts.act, hscript]
      obtain ⟨rfl, hrest⟩ := hflat
      obtain ⟨mode, hheld⟩ := hholds
      refine h.advance hscript ⟨none, ?_, hrest⟩ id
      show (state.threads thread).held.eraseP _ = []
      simp [hheld]
  | read rest =>
      rw [hscript] at hflat
      simp only [LockScripts.act, hscript]
      refine h.advance hscript ⟨holding, hholds, hflat state.data fun program hprogram => ?_⟩
        fun hlocal => hlocal state.data
      exact hsees (by rw [hscript]; rfl) program hprogram
  | write change rest =>
      rw [hscript] at hflat
      simp only [LockScripts.act, hscript]
      exact h.advance hscript ⟨holding, hholds, hflat⟩ id
  | submit task rest =>
      rw [hscript] at hflat
      obtain ⟨rfl, hrest⟩ := hflat
      cases thread with
      | inl client =>
          simp only [LockScripts.act, hscript]
          exact h.update ⟨none, hholds, hrest⟩ nofun
      | inr worker =>
          simp only [LockScripts.act, hscript]
          exact h
  | await rest =>
      rw [hscript] at hflat
      simp only [LockScripts.act, hscript]
      obtain ⟨rfl, hrest⟩ := hflat
      exact h.advance hscript ⟨none, hholds, hrest⟩ fun hlocal => hlocal.elim

/-- **A step** keeps every thread inside a flat script. -/
theorem Orderly.step {sees : P → D → Prop} {scriptOf : P → Script M D}
    (hprograms : ∀ program, (scriptOf program).Flat (sees program) none)
    {state : State M D P n w} (h : Orderly sees state.threads) {action : Step P n w}
    (hsees : Sees sees state action) : Orderly sees (step scriptOf state action).threads := by
  cases action with
  | start client program =>
      simp only [LockScripts.step]
      split
      · rename_i hdone
        obtain ⟨holding, hholds, hflat⟩ := h.flat (.inl client)
        refine h.update ⟨none, ?_, ?_⟩ nofun
        · cases hscript : (state.threads (.inl client)).script with
          | done =>
              rw [hscript] at hflat
              rw [show holding = none from hflat] at hholds
              exact hholds
          | _ => simp [hscript, Script.isDone] at hdone
        · refine Script.Flat.mono (fun data hdata => ?_) (hprograms program)
          exact hdata program rfl
      · exact h
  | act thread => exact h.act hsees

/-- **Every reachable state** is orderly. -/
theorem orderly_run {sees : P → D → Prop} {scriptOf : P → Script M D}
    (hprograms : ∀ program, (scriptOf program).Flat (sees program) none) {data : D}
    {steps : List (Step P n w)}
    (hsees : Admissible (step scriptOf) (Sees sees) { data := data } steps) :
    Orderly sees (run (step scriptOf) { data := data } steps).threads :=
  @admissible_invariant _ _ (step scriptOf) (fun state => Orderly sees state.threads) (Sees sees)
    (fun _ _ hstep h => h.step hprograms hstep) _ (orderly_start sees data) _ hsees

/-! ## Nobody is stuck -/

section Progress

omit [DecidableEq M]

/-- A thread that waits has a lock to take next. -/
theorem Waits.script_eq {state : State M D P n w} {thread : Thread n w} {mutex : M}
    (h : Waits state thread mutex) :
    ∃ mode rest, (state.threads thread).script = .blocked mutex mode rest := by
  obtain ⟨mode, hrequest⟩ := h
  cases hscript : (state.threads thread).script with
  | blocked mutex' mode' rest =>
      rw [hscript] at hrequest
      cases hrequest
      exact ⟨mode, rest, rfl⟩
  | _ =>
      rw [hscript] at hrequest
      cases hrequest

/-- A thread that waits for a mutex holds none. -/
theorem Orderly.held_of_waits {sees : P → D → Prop} {state : State M D P n w}
    (h : Orderly sees state.threads) {thread : Thread n w} {mutex : M}
    (hwaits : Waits state thread mutex) : (state.threads thread).held = [] := by
  obtain ⟨mode, rest, hscript⟩ := hwaits.script_eq
  obtain ⟨holding, hholds, hflat⟩ := h.flat thread
  rw [hscript] at hflat
  rw [hflat.1] at hholds
  exact hholds

/-- **No thread asks for a mutex it holds.** -/
theorem Orderly.not_requestsHeld {sees : P → D → Prop} {state : State M D P n w}
    (h : Orderly sees state.threads) (thread : Thread n w) : ¬ RequestsHeld state thread := by
  rintro ⟨mutex, hwaits, hold, hmem, -⟩
  rw [h.held_of_waits hwaits] at hmem
  exact List.not_mem_nil hmem

/-- A thread that holds a mutex can go on. -/
theorem Orderly.canAct_of_held {sees : P → D → Prop} {state : State M D P n w}
    (h : Orderly sees state.threads) (admits : Policy M D P n w) {thread : Thread n w}
    (hheld : (state.threads thread).held ≠ []) : CanAct admits state thread := by
  obtain ⟨holding, hholds, hflat⟩ := h.flat thread
  have hsome : holding ≠ none := by
    rintro rfl
    exact hheld hholds
  cases hscript : (state.threads thread).script with
  | unlock mutex rest | read rest | write change rest => simp only [CanAct, CanRun, hscript]
  | done =>
      rw [hscript] at hflat
      exact absurd hflat hsome
  | lock mutex mode rest | blocked mutex mode rest | submit task rest | await rest =>
      rw [hscript] at hflat
      exact absurd hflat.1 hsome

/-- While nobody holds anything, one of those who wait for a mutex gets it. -/
theorem canAct_of_waits {admits : Policy M D P n w} (hlawful : Lawful admits)
    {state : State M D P n w} (hfree : ∀ thread, (state.threads thread).held = [])
    {thread : Thread n w} {mutex : M} (hwaits : Waits state thread mutex) :
    ∃ other, CanAct admits state other := by
  have hunheld : Unheld state mutex := by
    intro other hold hmem
    rw [hfree other] at hmem
    exact absurd hmem List.not_mem_nil
  obtain ⟨other, hother, hadmits⟩ := hlawful state mutex hunheld ⟨thread, hwaits⟩
  obtain ⟨mode, rest, hscript⟩ := hother.script_eq
  refine ⟨other, ?_⟩
  simp only [CanAct, CanRun, hscript]
  refine ⟨fun third hold hmem _ => ?_, hadmits⟩
  rw [hfree third] at hmem
  exact absurd hmem List.not_mem_nil

/-- Where no thread waits for a mutex and none can act, every worker is done, so the
    clients are: nothing is left to wait for. -/
theorem finished_of_idle {sees : P → D → Prop} {state : State M D P n w}
    (h : Orderly sees state.threads) (hworkers : 0 < w) {admits : Policy M D P n w}
    (hwaits : ∀ thread mutex, ¬ Waits state thread mutex)
    (hidle : ∀ thread, ¬ CanAct admits state thread) : Finished state := by
  have hdone : ∀ worker : Fin w, (state.threads (.inr worker)).script.isDone = true := by
    intro worker
    have hlocal := h.tasks worker
    have hstuck := hidle (.inr worker)
    cases hscript : (state.threads (.inr worker)).script with
    | done => rfl
    | lock mutex mode rest | unlock mutex rest | read rest | write change rest =>
        simp [CanAct, CanRun, hscript] at hstuck
    | blocked mutex mode rest => exact absurd ⟨mode, by rw [hscript]; rfl⟩ (hwaits _ mutex)
    | submit task rest | await rest =>
        rw [hscript] at hlocal
        exact hlocal.elim
  have hqueue : state.queue = [] := by
    by_contra hsome
    refine hidle (.inr ⟨0, hworkers⟩) ?_
    have hscript := hdone ⟨0, hworkers⟩
    cases hself : (state.threads (.inr ⟨0, hworkers⟩)).script with
    | done => simpa only [CanAct, CanRun, hself] using hsome
    | _ => simp [hself, Script.isDone] at hscript
  refine ⟨fun thread => ?_, hqueue⟩
  cases thread with
  | inr worker => exact hdone worker
  | inl client =>
      have hstuck := hidle (.inl client)
      cases hscript : (state.threads (.inl client)).script with
      | done => rfl
      | lock mutex mode rest | unlock mutex rest | read rest | write change rest
      | submit task rest => simp [CanAct, CanRun, hscript] at hstuck
      | blocked mutex mode rest => exact absurd ⟨mode, by rw [hscript]; rfl⟩ (hwaits _ mutex)
      | await rest =>
          simp only [CanAct, CanRun, hscript] at hstuck
          refine absurd ⟨fun entry hentry => ?_, fun worker _ => hdone worker⟩ hstuck
          rw [hqueue] at hentry
          exact absurd hentry List.not_mem_nil

/-- **Some thread can act**, unless nothing is left to do: one that holds a mutex, else
    one of those that wait for one, else anybody. -/
theorem Orderly.progress {sees : P → D → Prop} {state : State M D P n w}
    (h : Orderly sees state.threads) (hworkers : 0 < w) {admits : Policy M D P n w}
    (hlawful : Lawful admits) (hleft : ¬ Finished state) : ∃ thread, CanAct admits state thread := by
  by_contra hstuck
  have hidle : ∀ thread, ¬ CanAct admits state thread := not_exists.mp hstuck
  have hfree : ∀ thread, (state.threads thread).held = [] := by
    intro thread
    by_contra hheld
    exact hidle thread (h.canAct_of_held admits hheld)
  refine hleft (finished_of_idle h hworkers (fun thread mutex hwaits => ?_) hidle)
  exact hstuck (canAct_of_waits hlawful hfree hwaits)

end Progress

/-! ## Nobody acts for ever

What is left of a script is an ordinal, since how much follows a read depends on what is
read.  An action replaces the ordinal of one thread, or that of a task, by smaller ones. -/

/-- What is left of a task, in the queue. -/
noncomputable def taskRank (task : List (CriticalSection M D)) : Ordinal.{0} :=
  ((4 * task.length + 1 : ℕ) : Ordinal)

/-- An upper bound on the steps of a script. -/
noncomputable def Script.rank : Script M D → Ordinal.{0}
  | .done => 0
  | .lock _ _ rest => rest.rank + 1 + 1
  | .blocked _ _ rest => rest.rank + 1
  | .unlock _ rest => rest.rank + 1
  | .read rest => (⨆ data, (rest data).rank) + 1
  | .write _ rest => rest.rank + 1
  | .submit task rest => max rest.rank (taskRank task) + 1
  | .await rest => rest.rank + 1

section Ranks

omit [DecidableEq M]

/-- The steps some sections can take. -/
theorem rank_runSections (task : List (CriticalSection M D)) :
    (runSections task .done).rank = ((4 * task.length : ℕ) : Ordinal) := by
  induction task with
  | nil => simp [runSections, Script.rank]
  | cons one task ih =>
      have hlength : 4 * (one :: task).length = 4 * task.length + 1 + 1 + 1 + 1 := rfl
      rw [runSections, hlength]
      simp only [Script.rank, ih]
      push_cast
      rfl

theorem rank_runSections_lt (task : List (CriticalSection M D)) :
    (runSections task .done).rank < taskRank task := by
  rw [rank_runSections, taskRank, Nat.cast_lt]
  exact Nat.lt_succ_self _

/-- What the threads have left to do. -/
noncomputable def threadsLeft (threads : Thread n w → ThreadState M D P n) :
    Multiset Ordinal.{0} :=
  Finset.univ.val.map fun thread => (threads thread).script.rank

/-- What waits for the pool. -/
noncomputable def queueLeft (queue : List (Fin n × List (CriticalSection M D))) :
    Multiset Ordinal.{0} :=
  queue.map fun entry => taskRank entry.2

/-- What is left to do for all threads, and in the queue. -/
noncomputable def leftToDo (state : State M D P n w) : Multiset Ordinal.{0} :=
  threadsLeft state.threads + queueLeft state.queue

/-- One thread and all others. -/
theorem threadsLeft_split (threads : Thread n w → ThreadState M D P n) (thread : Thread n w) :
    threadsLeft threads =
      (Finset.univ.val.erase thread).map (fun other => (threads other).script.rank) +
        {(threads thread).script.rank} := by
  rw [threadsLeft]
  nth_rewrite 1 [← Multiset.cons_erase (Finset.mem_univ_val thread)]
  rw [Multiset.map_cons, add_comm, Multiset.singleton_add]

/-- The threads left after one of them has moved. -/
theorem threadsLeft_update (threads : Thread n w → ThreadState M D P n) (thread : Thread n w)
    (changed : ThreadState M D P n) :
    threadsLeft (Function.update threads thread changed) =
      (Finset.univ.val.erase thread).map (fun other => (threads other).script.rank) +
        {changed.script.rank} := by
  rw [threadsLeft_split _ thread, Function.update_self]
  refine congrArg (· + _) (Multiset.map_congr rfl fun other hother => ?_)
  have hne : other ≠ thread := ((Multiset.Nodup.mem_erase_iff Finset.univ.nodup).mp hother).1
  rw [Function.update_of_ne hne]

/-- Smaller ordinals in the place of the thread's, and of `used`. -/
theorem leftToDo_lt {state : State M D P n w} {thread : Thread n w}
    {changed : ThreadState M D P n} {queue : List (Fin n × List (CriticalSection M D))}
    {shared used made : Multiset Ordinal.{0}} (hqueue : queueLeft state.queue = shared + used)
    (hqueue' : queueLeft queue = shared + made)
    (hchanged : ∃ a ∈ {(state.threads thread).script.rank} + used, changed.script.rank < a)
    (hmade : ∀ b ∈ made, ∃ a ∈ {(state.threads thread).script.rank} + used, b < a) :
    (threadsLeft (Function.update state.threads thread changed) +
      queueLeft queue).IsDershowitzMannaLT (leftToDo state) := by
  rw [leftToDo, threadsLeft_update, threadsLeft_split _ thread, hqueue, hqueue']
  refine ⟨(Finset.univ.val.erase thread).map (fun other => (state.threads other).script.rank) +
    shared, {changed.script.rank} + made, {(state.threads thread).script.rank} + used,
    ?_, ?_, ?_, ?_⟩
  · simp
  · exact add_add_add_comm _ _ _ _
  · exact add_add_add_comm _ _ _ _
  · intro b hb
    rcases Multiset.mem_add.mp hb with hb | hb
    · rw [Multiset.mem_singleton.mp hb]
      exact hchanged
    · exact hmade b hb

end Ranks

/-- An action leaves less to do. -/
theorem leftToDo_act {admits : Policy M D P n w} {state : State M D P n w}
    {thread : Thread n w} (hcan : CanAct admits state thread) :
    (leftToDo (act state thread)).IsDershowitzMannaLT (leftToDo state) := by
  have hqueue : queueLeft state.queue = queueLeft state.queue + 0 := (add_zero _).symm
  -- the actions that leave the queue alone
  have hown : ∀ {changed : ThreadState M D P n},
      changed.script.rank < (state.threads thread).script.rank →
      (threadsLeft (Function.update state.threads thread changed) +
        queueLeft state.queue).IsDershowitzMannaLT (leftToDo state) := by
    intro changed hless
    refine leftToDo_lt hqueue hqueue ⟨_, ?_, hless⟩ fun b hb => absurd hb (Multiset.notMem_zero b)
    simp
  cases hscript : (state.threads thread).script with
  | done =>
      cases thread with
      | inl client => simp [CanAct, CanRun, hscript] at hcan
      | inr worker =>
          cases hentries : state.queue with
          | nil => simp [CanAct, CanRun, hscript, hentries] at hcan
          | cons entry queue =>
              have hused : queueLeft state.queue = queueLeft queue + {taskRank entry.2} := by
                rw [hentries, add_comm, Multiset.singleton_add]
                rfl
              simp only [act, hscript, hentries]
              refine leftToDo_lt hused (add_zero _).symm ⟨taskRank entry.2, ?_, ?_⟩ fun b hb =>
                absurd hb (Multiset.notMem_zero b)
              · simp
              · exact rank_runSections_lt entry.2
  | lock mutex mode rest | blocked mutex mode rest | unlock mutex rest | write change rest
  | await rest =>
      simp only [act, hscript]
      refine hown ?_
      rw [hscript]
      exact lt_add_one _
  | read rest =>
      simp only [act, hscript]
      refine hown ?_
      rw [hscript]
      exact lt_of_le_of_lt (Ordinal.le_iSup (fun data => (rest data).rank) state.data)
        (lt_add_one _)
  | submit task rest =>
      cases thread with
      | inr worker => simp [CanAct, CanRun, hscript] at hcan
      | inl client =>
          have hmade : queueLeft (state.queue ++ [(client, task)]) =
              queueLeft state.queue + {taskRank task} := by
            rw [queueLeft, List.map_append, ← Multiset.coe_add]
            rfl
          have hmem : (state.threads (.inl client)).script.rank ∈
              {(state.threads (.inl client)).script.rank} + (0 : Multiset Ordinal.{0}) := by
            simp
          simp only [act, hscript]
          refine leftToDo_lt hqueue hmade ⟨_, hmem, ?_⟩ fun b hb => ⟨_, hmem, ?_⟩
          · rw [hscript]
            exact lt_of_le_of_lt (le_max_left _ _) (lt_add_one _)
          · rw [hscript, Multiset.mem_singleton.mp hb]
            exact lt_of_le_of_lt (le_max_right _ _) (lt_add_one _)

/-- **Without new programs** the threads act finitely often. -/
theorem moves_wellFounded (scriptOf : P → Script M D) (admits : Policy M D P n w) :
    WellFounded fun after before : State M D P n w =>
      ∃ thread, CanAct admits before thread ∧ after = step scriptOf before (.act thread) := by
  refine Subrelation.wf ?_
    (InvImage.wf leftToDo (@Multiset.wellFounded_isDershowitzMannaLT Ordinal.{0} _ _))
  rintro after before ⟨thread, hcan, rfl⟩
  exact leftToDo_act hcan

theorem not_endless (scriptOf : P → Script M D) (admits : Policy M D P n w)
    (state : State M D P n w) : ¬ Endless scriptOf admits state := by
  rintro ⟨states, -, hmoves⟩
  have hchains := wellFounded_iff_isEmpty_descending_chain.mp (moves_wellFounded scriptOf admits)
  exact hchains.false ⟨states, hmoves⟩

end LockScripts
