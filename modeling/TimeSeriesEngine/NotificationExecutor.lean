import TimeSeriesEngine.ResultReceiver
import TimeSeriesEngine.IngestExecutor

/-!
# The queue of violation reports

`constraint_result_notification_executor.cpp`: hot workers hand reports to a bounded
queue, and one worker sends them, a report at a time.  The destructor lets the worker
finish the queue.

A step is what one thread does under the lock, or one call of the receiver, which is
made without it; `step` is partial, a thread whose step is not enabled waits.

* `Queued` — what was accepted is what was sent, what is being sent and the queue;
* `reports_in_order` — after every interleaving nothing accepted is lost, sent twice or
  overtaken, and a worker that has left has sent everything;
* `reached_drains` — once the destructor has begun, the worker leaves after finitely
  many steps, whatever the service replies.
-/

namespace NotificationExecutor

open TseTypes HotIngest IngestExecutor ResultReceiver Transition

/-- `configuredCapacity`: the queue bound, from the environment variable. -/
def configuredCapacity (text : Option String) : Nat :=
  match text with
  | none => 1024
  | some text =>
      if text.isEmpty then 1024
      else
        match readDigits 100000 text.toList 0 with
        | none => 1024
        | some value => if value = 0 then 1024 else value

/-- The queue has room for at least one report. -/
theorem configuredCapacity_pos (text : Option String) : 0 < configuredCapacity text := by
  cases text with
  | none => decide
  | some text =>
      rw [configuredCapacity]
      split
      · decide
      · cases readDigits 100000 text.toList 0 with
        | none => decide
        | some value =>
            simp only
            split <;> omega

/-- Where `workerLoop` is. -/
inductive WorkerPlace where
  /-- In front of the wait. -/
  | waiting
  /-- Behind the pop, with the report it took. -/
  | sending (report : ConstraintNotification)
  /-- Out of the loop. -/
  | left
  deriving DecidableEq

/-- A report that was sent: what the call came to, and the calls of the stub. -/
structure Delivery where
  report : ConstraintNotification
  result : OperationResult
  sent : List SentCall

/-- The executor, and what the run has done so far. -/
structure Executor where
  queue : List ConstraintNotification := []
  stopping : Bool := false
  worker : WorkerPlace := .waiting
  accepted : List ConstraintNotification := []
  delivered : List Delivery := []

/-- `tryEnqueue`. -/
def tryEnqueue (capacity : Nat) (report : ConstraintNotification) (s : Executor) :
    Executor × OperationResult :=
  if report.constraintIds.isEmpty then (s, okResult 0 "no constraint violations to notify")
  else if s.stopping then
    (s, unavailable report.constraintIds.length
      "constraint notification executor is shutting down")
  else if capacity ≤ s.queue.length then
    (s, unavailable report.constraintIds.length
      "constraint notification queue is full; retry later")
  else
    ({ s with
        queue := s.queue ++ [report]
        accepted := s.accepted ++ [report] },
      okResult report.constraintIds.length "constraint result notification queued")

/-- What the hot workers, the worker of the queue and the destructor do in one piece. -/
inductive Action where
  /-- A hot worker calls `tryEnqueue`. -/
  | enqueue (report : ConstraintNotification)
  /-- The destructor sets `stopping_`. -/
  | stop
  /-- The worker takes the oldest report. -/
  | take
  /-- The call of the receiver, begun at `now`. -/
  | send (now : Nat) (turns : Nat → Turn)
  /-- The worker leaves its loop. -/
  | leave

/-- Steps of the worker. -/
def Action.byWorker : Action → Bool
  | .take => true
  | .send _ _ => true
  | .leave => true
  | _ => false

/-- `configured` says whether the receiver has an address. -/
def step (capacity : Nat) (configured : Bool) (s : Executor) : Action → Option Executor
  | .enqueue report => some (tryEnqueue capacity report s).1
  | .stop => some { s with stopping := true }
  | .take =>
      match s.worker, s.queue with
      | .waiting, report :: queue => some { s with queue := queue, worker := .sending report }
      | _, _ => none
  | .send now turns =>
      match s.worker with
      | .sending report =>
          let (result, sent) := receiveConstraintResult configured report now turns
          -- a failed call is only logged
          some { s with
            worker := .waiting
            delivered := s.delivered ++ [{ report := report, result := result, sent := sent }] }
      | _ => none
  | .leave =>
      match s.worker, s.queue with
      | .waiting, [] => if s.stopping then some { s with worker := .left } else none
      | _, _ => none

/-- A step that is not enabled does not happen. -/
def perform (capacity : Nat) (configured : Bool) (s : Executor) (action : Action) : Executor :=
  (step capacity configured s action).getD s

/-- The state after an interleaving. -/
def reached (capacity : Nat) (configured : Bool) (actions : List Action) : Executor :=
  run (perform capacity configured) {} actions

/-! ## One step -/

section Steps

variable {capacity : Nat} {configured : Bool} {s s' : Executor}

/-- A report is accepted, or nothing happens. -/
theorem tryEnqueue_cases (capacity : Nat) (report : ConstraintNotification) (s : Executor) :
    (report.constraintIds ≠ [] ∧ s.stopping = false ∧ s.queue.length < capacity ∧
        tryEnqueue capacity report s =
          ({ s with
              queue := s.queue ++ [report]
              accepted := s.accepted ++ [report] },
            okResult report.constraintIds.length "constraint result notification queued")) ∨
      (report.constraintIds = [] ∧
        tryEnqueue capacity report s = (s, okResult 0 "no constraint violations to notify")) ∨
      (report.constraintIds ≠ [] ∧ (s.stopping = true ∨ capacity ≤ s.queue.length) ∧
        ∃ message, tryEnqueue capacity report s =
          (s, unavailable report.constraintIds.length message)) := by
  rw [tryEnqueue]
  by_cases hids : report.constraintIds = []
  · rw [if_pos (by simp [hids])]
    exact Or.inr (Or.inl ⟨hids, rfl⟩)
  rw [if_neg (by simpa using hids)]
  by_cases hstop : s.stopping = true
  · rw [if_pos hstop]
    exact Or.inr (Or.inr ⟨hids, Or.inl hstop, _, rfl⟩)
  rw [if_neg hstop]
  by_cases hfull : capacity ≤ s.queue.length
  · rw [if_pos hfull]
    exact Or.inr (Or.inr ⟨hids, Or.inr hfull, _, rfl⟩)
  · rw [if_neg hfull]
    exact Or.inl ⟨hids, Bool.eq_false_iff.mpr hstop, not_le.mp hfull, rfl⟩

/-- What a step does. -/
inductive Moved (capacity : Nat) (configured : Bool) (s : Executor) : Executor → Prop where
  | accepted (report : ConstraintNotification) (ids : report.constraintIds ≠ [])
      (running : s.stopping = false) (room : s.queue.length < capacity) :
      Moved capacity configured s
        { s with queue := s.queue ++ [report], accepted := s.accepted ++ [report] }
  | refused : Moved capacity configured s s
  | stopped : Moved capacity configured s { s with stopping := true }
  | took (report : ConstraintNotification) (queue : List ConstraintNotification)
      (place : s.worker = .waiting) (front : s.queue = report :: queue) :
      Moved capacity configured s { s with queue := queue, worker := .sending report }
  | sent (report : ConstraintNotification) (place : s.worker = .sending report) (now : Nat)
      (turns : Nat → Turn) :
      Moved capacity configured s
        { s with
          worker := .waiting
          delivered := s.delivered ++
            [{ report := report
               result := (receiveConstraintResult configured report now turns).1
               sent := (receiveConstraintResult configured report now turns).2 }] }
  | gone (place : s.worker = .waiting) (empty : s.queue = []) (stopping : s.stopping = true) :
      Moved capacity configured s { s with worker := .left }

/-- What a step can do. -/
theorem step_moved {action : Action} (h : step capacity configured s action = some s') :
    Moved capacity configured s s' := by
  cases action with
  | enqueue report =>
      obtain rfl := Option.some.inj h
      rcases tryEnqueue_cases capacity report s with ⟨hids, hrun, hroom, heq⟩ | ⟨-, heq⟩ |
        ⟨-, -, message, heq⟩
      · rw [heq]
        exact .accepted report hids hrun hroom
      · rw [heq]
        exact .refused
      · rw [heq]
        exact .refused
  | stop =>
      obtain rfl := Option.some.inj h
      exact .stopped
  | take =>
      simp only [step] at h
      split at h
      · rename_i report queue hplace hfront
        obtain rfl := Option.some.inj h
        exact .took report queue hplace hfront
      · cases h
  | send now turns =>
      simp only [step] at h
      split at h
      · rename_i report hplace
        obtain rfl := Option.some.inj h
        exact .sent report hplace now turns
      · cases h
  | leave =>
      simp only [step] at h
      split at h
      · rename_i hplace hempty
        split at h
        · rename_i hstop
          obtain rfl := Option.some.inj h
          exact .gone hplace hempty hstop
        · cases h
      · cases h

theorem perform_moved (capacity : Nat) (configured : Bool) (s : Executor) (action : Action) :
    Moved capacity configured s (perform capacity configured s action) := by
  rw [perform]
  cases h : step capacity configured s action with
  | none => exact .refused
  | some s' => exact step_moved h

/-- The worker and the destructor accept nothing. -/
theorem perform_accepted (s : Executor) {action : Action}
    (h : ∀ report, action ≠ .enqueue report) :
    (perform capacity configured s action).accepted = s.accepted := by
  cases action with
  | enqueue report => exact absurd rfl (h report)
  | stop => rfl
  | take =>
      rw [perform, step]
      split <;> rfl
  | send now turns =>
      rw [perform, step]
      split <;> rfl
  | leave =>
      rw [perform, step]
      split
      · split <;> rfl
      · rfl

end Steps

/-! ## Every run -/

/-- The report the worker has taken. -/
def inHand : WorkerPlace → List ConstraintNotification
  | .waiting => []
  | .sending report => [report]
  | .left => []

/-- What holds between the queue and what has been accepted and sent. -/
structure Queued (capacity : Nat) (configured : Bool) (s : Executor) : Prop where
  fifo : s.accepted = s.delivered.map Delivery.report ++ inHand s.worker ++ s.queue
  bounded : s.queue.length ≤ capacity
  ids : ∀ report ∈ s.accepted, report.constraintIds ≠ []
  left : s.worker = .left → s.queue = [] ∧ s.stopping = true
  calls : ∀ delivery ∈ s.delivered, ∃ now turns,
    receiveConstraintResult configured delivery.report now turns =
      (delivery.result, delivery.sent)

section Runs

variable {capacity : Nat} {configured : Bool} {s s' : Executor}

theorem queued_init (capacity : Nat) (configured : Bool) : Queued capacity configured {} where
  fifo := rfl
  bounded := Nat.zero_le _
  ids := fun _ h => nomatch h
  left := fun h => nomatch h
  calls := fun _ h => nomatch h

/-- Every step keeps the queue in order. -/
theorem Queued.moved (h : Queued capacity configured s) (hmoved : Moved capacity configured s s') :
    Queued capacity configured s' := by
  cases hmoved with
  | accepted report ids running room =>
      refine ⟨?_, ?_, ?_, fun hleft => ?_, h.calls⟩
      · show s.accepted ++ [report] = _ ++ (s.queue ++ [report])
        rw [h.fifo, List.append_assoc _ s.queue]
      · show (s.queue ++ [report]).length ≤ capacity
        rw [List.length_append, List.length_singleton]
        exact room
      · intro other hother
        rcases List.mem_append.mp hother with hold | hnew
        · exact h.ids other hold
        · exact List.mem_singleton.mp hnew ▸ ids
      · exact absurd (h.left hleft).2 (by rw [running]; exact Bool.false_ne_true)
  | refused => exact h
  | stopped => exact ⟨h.fifo, h.bounded, h.ids, fun hleft => ⟨(h.left hleft).1, rfl⟩, h.calls⟩
  | took report queue place front =>
      refine ⟨?_, ?_, h.ids, fun hleft => (by cases hleft), h.calls⟩
      · show s.accepted = s.delivered.map Delivery.report ++ [report] ++ queue
        rw [h.fifo, place, front, inHand, List.append_nil, List.append_assoc,
          List.singleton_append]
      · have hbound := h.bounded
        rw [front, List.length_cons] at hbound
        exact Nat.le_of_succ_le hbound
  | sent report place now turns =>
      refine ⟨?_, h.bounded, h.ids, fun hleft => (by cases hleft), ?_⟩
      · show s.accepted = (s.delivered ++ [_]).map Delivery.report ++ [] ++ s.queue
        rw [h.fifo, place, inHand, List.map_append, List.append_nil]
        rfl
      · intro delivery hdelivery
        rcases List.mem_append.mp hdelivery with hold | hnew
        · exact h.calls delivery hold
        · obtain rfl := List.mem_singleton.mp hnew
          exact ⟨now, turns, rfl⟩
  | gone place empty stopping =>
      refine ⟨?_, h.bounded, h.ids, fun _ => ⟨empty, stopping⟩, h.calls⟩
      rw [h.fifo, place]
      rfl

theorem run_queued (h : Queued capacity configured s) (actions : List Action) :
    Queued capacity configured (run (perform capacity configured) s actions) :=
  @run_invariant _ _ (perform capacity configured) (Queued capacity configured) (fun _ => True)
    (fun s action _ h => h.moved (perform_moved capacity configured s action)) _ h _
    fun _ _ => trivial

theorem reached_queued (capacity : Nat) (configured : Bool) (actions : List Action) :
    Queued capacity configured (reached capacity configured actions) :=
  run_queued (queued_init capacity configured) actions

/-- What has been accepted and sent stays so, in its order, and once the destructor has
    begun nothing more is accepted. -/
structure Extends (s s' : Executor) : Prop where
  accepted : s.accepted <+: s'.accepted
  delivered : s.delivered <+: s'.delivered
  stopping : s.stopping = true → s'.stopping = true ∧ s'.accepted = s.accepted

theorem Extends.refl (s : Executor) : Extends s s :=
  ⟨List.prefix_refl _, List.prefix_refl _, fun h => ⟨h, rfl⟩⟩

/-- An extension of an extension is one. -/
theorem Extends.trans {s₁ s₂ s₃ : Executor} (h : Extends s₁ s₂) (h' : Extends s₂ s₃) :
    Extends s₁ s₃ where
  accepted := h.accepted.trans h'.accepted
  delivered := h.delivered.trans h'.delivered
  stopping := fun hstop =>
    ⟨(h'.stopping (h.stopping hstop).1).1,
      (h'.stopping (h.stopping hstop).1).2.trans (h.stopping hstop).2⟩

/-- A step extends what has been accepted and delivered. -/
theorem Moved.extends (h : Moved capacity configured s s') : Extends s s' := by
  cases h with
  | accepted report ids running room =>
      refine ⟨List.prefix_append _ _, List.prefix_refl _, fun hstop => ?_⟩
      rw [running] at hstop
      cases hstop
  | refused => exact .refl s
  | stopped => exact ⟨List.prefix_refl _, List.prefix_refl _, fun _ => ⟨rfl, rfl⟩⟩
  | took report queue place front =>
      exact ⟨List.prefix_refl _, List.prefix_refl _, fun hstop => ⟨hstop, rfl⟩⟩
  | sent report place now turns =>
      exact ⟨List.prefix_refl _, List.prefix_append _ _, fun hstop => ⟨hstop, rfl⟩⟩
  | gone place empty stopping =>
      exact ⟨List.prefix_refl _, List.prefix_refl _, fun hstop => ⟨hstop, rfl⟩⟩

theorem run_extends (capacity : Nat) (configured : Bool) (s : Executor) (actions : List Action) :
    Extends s (run (perform capacity configured) s actions) := by
  induction actions generalizing s with
  | nil => exact .refl s
  | cons action actions ih =>
      exact (perform_moved capacity configured s action).extends.trans (ih _)

/-- **Reports are sent in order, once.**  After every interleaving of hot workers, the
    worker and the destructor: what was accepted is what was sent, then the report in
    hand, then the queue, which keeps its bound; later steps only add to both; an answer
    accepts a report or leaves everything as it is and counts its rules as failed; each
    report was sent with at most four calls; and behind a worker that has left, every
    accepted report has been sent. -/
theorem reports_in_order (capacity : Nat) (configured : Bool) (actions : List Action) :
    let s := reached capacity configured actions
    (s.accepted = s.delivered.map Delivery.report ++ inHand s.worker ++ s.queue ∧
        s.queue.length ≤ capacity) ∧
      (∀ more, Extends s (reached capacity configured (actions ++ more))) ∧
      (∀ report, report.constraintIds ≠ [] →
        (isSuccessful (tryEnqueue capacity report s).2.code = true ∧
            (tryEnqueue capacity report s).1.accepted = s.accepted ++ [report]) ∨
          ((tryEnqueue capacity report s).2.code = .unavailable ∧
            (tryEnqueue capacity report s).2.failedCount = report.constraintIds.length ∧
            (tryEnqueue capacity report s).1 = s)) ∧
      (∀ delivery ∈ s.delivered, delivery.sent.length ≤ 4) ∧
      (s.worker = .left → s.delivered.map Delivery.report = s.accepted ∧
        ∀ more, (reached capacity configured (actions ++ more)).accepted = s.accepted) := by
  have h := reached_queued capacity configured actions
  have hmore : ∀ more, Extends (reached capacity configured actions)
      (reached capacity configured (actions ++ more)) := by
    intro more
    rw [reached, reached, run_append]
    exact run_extends _ _ _ more
  refine ⟨⟨h.fifo, h.bounded⟩, hmore, fun report hids => ?_, fun delivery hdelivery => ?_,
    fun hleft => ⟨?_, fun more => ((hmore more).stopping (h.left hleft).2).2⟩⟩
  · rcases tryEnqueue_cases capacity report (reached capacity configured actions) with
      ⟨-, -, -, heq⟩ | ⟨hnone, -⟩ | ⟨-, -, message, heq⟩
    · rw [heq]
      exact Or.inl ⟨rfl, rfl⟩
    · exact absurd hnone hids
    · rw [heq]
      exact Or.inr ⟨rfl, rfl, rfl⟩
  · obtain ⟨now, turns, hcall⟩ := h.calls delivery hdelivery
    have hfour := sent_length_le configured delivery.report now turns
    rwa [hcall] at hfour
  · rw [h.fifo, hleft, (h.left hleft).1, inHand, List.append_nil, List.append_nil]

/-! ## The worker leaves -/

/-- The steps the worker has left to do. -/
def toDo (s : Executor) : Nat :=
  2 * s.queue.length +
    match s.worker with
    | .left => 0
    | .waiting => 1
    | .sending _ => 2

/-- How many of the actions are steps the worker takes. -/
def workerSteps (capacity : Nat) (configured : Bool) : Executor → List Action → Nat
  | _, [] => 0
  | s, action :: actions =>
      (if action.byWorker && (step capacity configured s action).isSome then 1 else 0) +
        workerSteps capacity configured (perform capacity configured s action) actions

/-- Once the destructor has begun, a step of the worker is one step less to do, and the
    others add nothing. -/
theorem toDo_perform (capacity : Nat) (configured : Bool) (hstop : s.stopping = true)
    (action : Action) :
    toDo (perform capacity configured s action) +
        (if action.byWorker && (step capacity configured s action).isSome then 1 else 0) =
      toDo s := by
  cases action with
  | enqueue report =>
      rcases tryEnqueue_cases capacity report s with ⟨-, hrun, -⟩ | ⟨-, heq⟩ | ⟨-, -, message, heq⟩
      · rw [hstop] at hrun
        cases hrun
      · show toDo (tryEnqueue capacity report s).1 + 0 = toDo s
        rw [heq, Nat.add_zero]
      · show toDo (tryEnqueue capacity report s).1 + 0 = toDo s
        rw [heq, Nat.add_zero]
  | stop => rfl
  | take =>
      cases hplace : s.worker with
      | waiting =>
          cases hfront : s.queue with
          | nil => simp [perform, step, hplace, hfront, Action.byWorker]
          | cons report queue =>
              simp only [perform, step, hplace, hfront, Action.byWorker, toDo, Option.getD_some,
                Option.isSome_some, Bool.and_self, if_true, List.length_cons]
              omega
      | sending report => simp [perform, step, hplace, Action.byWorker]
      | left => simp [perform, step, hplace, Action.byWorker]
  | send now turns =>
      cases hplace : s.worker with
      | sending report => simp [perform, step, hplace, Action.byWorker, toDo]
      | waiting => simp [perform, step, hplace, Action.byWorker]
      | left => simp [perform, step, hplace, Action.byWorker]
  | leave =>
      cases hplace : s.worker with
      | waiting =>
          cases hfront : s.queue with
          | nil => simp [perform, step, hplace, hfront, hstop, Action.byWorker, toDo]
          | cons report queue => simp [perform, step, hplace, hfront, Action.byWorker]
      | sending report => simp [perform, step, hplace, Action.byWorker]
      | left => simp [perform, step, hplace, Action.byWorker]

/-- What a worker does is taken off what is left to do. -/
theorem toDo_run (capacity : Nat) (configured : Bool) (hstop : s.stopping = true)
    (more : List Action) :
    toDo (run (perform capacity configured) s more) + workerSteps capacity configured s more =
      toDo s := by
  induction more generalizing s with
  | nil => rfl
  | cons action more ih =>
      have hnext := (perform_moved capacity configured s action).extends.stopping hstop
      have hstep := toDo_perform capacity configured hstop action
      have hrest := ih hnext.1
      rw [run_cons, workerSteps]
      omega

/-- Nothing is left to do when the worker has left. -/
theorem toDo_eq_zero (h : Queued capacity configured s) : toDo s = 0 ↔ s.worker = .left := by
  rw [toDo]
  cases hplace : s.worker with
  | left =>
      rw [(h.left hplace).1]
      exact iff_of_true rfl rfl
  | waiting => exact iff_of_false (by simp) (fun h => nomatch h)
  | sending report => exact iff_of_false (by simp) (fun h => nomatch h)

/-- **The worker leaves.**  From every state reached once the destructor has begun: the
    worker can take a step as long as it has not left, whatever the service replies, and
    it has left as soon as it has taken `toDo` of them, however the others interleave;
    then every accepted report has been sent. -/
theorem reached_drains (capacity : Nat) (configured : Bool) (actions : List Action)
    (hstop : (reached capacity configured actions).stopping = true) :
    ((reached capacity configured actions).worker ≠ .left →
        (step capacity configured (reached capacity configured actions) .take).isSome = true ∨
          (step capacity configured (reached capacity configured actions) .leave).isSome = true ∨
          ∀ now turns, (step capacity configured (reached capacity configured actions)
            (.send now turns)).isSome = true) ∧
      ∀ more, workerSteps capacity configured (reached capacity configured actions) more ≤
          toDo (reached capacity configured actions) ∧
        ((reached capacity configured (actions ++ more)).worker = .left ↔
          workerSteps capacity configured (reached capacity configured actions) more =
            toDo (reached capacity configured actions)) ∧
        ((reached capacity configured (actions ++ more)).worker = .left →
          (reached capacity configured (actions ++ more)).delivered.map Delivery.report =
            (reached capacity configured actions).accepted) := by
  refine ⟨fun hin => ?_, fun more => ?_⟩
  · generalize reached capacity configured actions = s at hstop hin ⊢
    cases hplace : s.worker with
    | left => exact absurd hplace hin
    | sending report => exact Or.inr (Or.inr fun now turns => by simp [step, hplace])
    | waiting =>
        cases hfront : s.queue with
        | nil => exact Or.inr (Or.inl (by simp [step, hplace, hfront, hstop]))
        | cons report queue => exact Or.inl (by simp [step, hplace, hfront])
  · have hleft := toDo_run capacity configured hstop more
    have hafter := reached_queued capacity configured (actions ++ more)
    have hzero := toDo_eq_zero hafter
    have hrun : run (perform capacity configured) (reached capacity configured actions) more =
        reached capacity configured (actions ++ more) := (run_append _ _ _ _).symm
    rw [hrun] at hleft
    refine ⟨by omega, by rw [← hzero]; omega, fun hgone => ?_⟩
    have hkept := (run_extends capacity configured
      (reached capacity configured actions) more).stopping hstop
    rw [hrun] at hkept
    rw [← hkept.2, hafter.fifo, hgone, (hafter.left hgone).1, inHand, List.append_nil,
      List.append_nil]

end Runs

/-- One report in the queue, and the destructor has begun: the worker takes the report, sends it
    and leaves. -/
theorem reached_drains_one :
    let actions : List Action := [.enqueue sampleReport, .stop]
    let more : List Action := [.take, .send 0 (sampleTurns true), .leave]
    (reached 1 true actions).stopping = true ∧
      ((step 1 true (reached 1 true actions) .take).isSome = true ∨
        (step 1 true (reached 1 true actions) .leave).isSome = true ∨
        ∀ now turns, (step 1 true (reached 1 true actions) (.send now turns)).isSome = true) ∧
      workerSteps 1 true (reached 1 true actions) more = toDo (reached 1 true actions) ∧
      (reached 1 true (actions ++ more)).worker = .left ∧
      (reached 1 true (actions ++ more)).delivered.map Delivery.report =
        (reached 1 true actions).accepted := by
  intro actions more
  have hstop : (reached 1 true actions).stopping = true := by decide
  obtain ⟨hmoves, hdrains⟩ := reached_drains 1 true actions hstop
  obtain ⟨-, hleaves, hdelivered⟩ := hdrains more
  have hall : workerSteps 1 true (reached 1 true actions) more = toDo (reached 1 true actions) := by
    decide +kernel
  exact ⟨hstop, hmoves (by decide), hall, hleaves.mpr hall, hdelivered (hleaves.mpr hall)⟩

end NotificationExecutor
