import TimeSeriesEngine.BatchSections

/-!
# From a violation to the service that is told

Batches of any number of hot workers, in their sections, run together with configuration
calls, the worker of the queue and the destructor, in any interleaving.  A report is found
by the publication of its batch, handed over, and sent; its batch is completed later, when
a derived refresh beside it has been joined, so batches may be completed in another order
than their reports are handed over.

* `Found`, `FoundExactly` — the report of a publication, and what it says about the cache
  that the publication left;
* `Numbered`, `Traced` — what every run keeps;
* `reports_delivered` — what is sent are the reports that publications found, each once, in
  the order of their hand-over, and a report that is not queued shows in the answer.
-/

namespace ViolationDelivery

open TseTypes KeyedTable OrderedSeries HotWindow WindowUpdate ConstraintCheck Registry UpdateRange
open HotIngest RuleGroups IngestStep PersistentReport BatchSections Transition
open NotificationExecutor (tryEnqueue tryEnqueue_cases perform perform_moved Moved Queued queued_init
  inHand Delivery)

/-! ## What a publication finds -/

/-- The publication of the worker's batch, right behind the run, comes to a report. -/
def Found (setting : Setting) (before : List Action) (worker : Nat) (batch : Batch)
    (update : WindowUpdateResult) (plan : CheckPlan) (report : ConstraintNotification) : Prop :=
  ∃ refresh executions,
    (reached setting before).workers worker =
        .evaluated batch update refresh plan executions ∧
      (constraintOutcome batch.projectId plan update executions
        (publishExecutions update executions
          (cachedStates batch.projectId (reached setting before).core))).2 =
        some report

/-- The rules were taken and the cache was read at two moments of the run. -/
def Planned (setting : Setting) (actions : List Action) (p : ProjectId)
    (update : WindowUpdateResult) (plan : CheckPlan) : Prop :=
  ∃ first second, first <+: second ∧ second <+: actions ∧
    plan = prepareCheck p (reached setting first).core.configs update
      (cachedStates p (reached setting second).core)

/-- The report names exactly the selected rules of clauses that the published cache
    violates, every rule of them. -/
structure FoundExactly (setting : Setting) (before : List Action) (worker : Nat) (batch : Batch)
    (update : WindowUpdateResult) (plan : CheckPlan) (report : ConstraintNotification) :
    Prop where
  planned : Planned setting before batch.projectId update plan
  project : report.projectId = batch.projectId
  exact : ∀ id, id ∈ report.constraintIds ↔
    ∃ rule ∈ plan.selectedRules, rule.constraintId = id ∧
      ∀ other ∈ plan.selectedRules, clauseKey other = clauseKey rule →
        OnRecord (cachedStates batch.projectId
          (reached setting (before ++ [.publish worker])).core) other

/-- The batch has found the report in the run. -/
def FoundIn (setting : Setting) (actions : List Action) (batch : Batch)
    (report : ConstraintNotification) : Prop :=
  ∃ before worker after update plan, actions = before ++ .publish worker :: after ∧
    Found setting before worker batch update plan report

theorem Planned.snoc {setting : Setting} {actions : List Action} {p : ProjectId}
    {update : WindowUpdateResult} {plan : CheckPlan} (h : Planned setting actions p update plan)
    (action : Action) : Planned setting (actions ++ [action]) p update plan := by
  obtain ⟨first, second, hfirst, hsecond, hplan⟩ := h
  exact ⟨first, second, hfirst, hsecond.trans (List.prefix_append _ _), hplan⟩

theorem FoundIn.snoc {setting : Setting} {actions : List Action} {batch : Batch}
    {report : ConstraintNotification} (h : FoundIn setting actions batch report)
    (action : Action) : FoundIn setting (actions ++ [action]) batch report := by
  obtain ⟨before, worker, after, update, plan, rfl, hfound⟩ := h
  exact ⟨before, worker, after ++ [action], update, plan, by simp, hfound⟩

/-- A report has violations behind it. -/
theorem constraintOutcome_report {p : ProjectId} {plan : CheckPlan} {update : WindowUpdateResult}
    {executions : List ConstraintGroupExecution} {states : Table String CachedConstraintState}
    {report : ConstraintNotification}
    (h : (constraintOutcome p plan update executions states).2 = some report) :
    reportClauses plan.selectedRules states ≠ [] ∧
      report = notificationFor p plan.enabledRules update
        (reportClauses plan.selectedRules states) := by
  unfold constraintOutcome at h
  simp only at h
  split at h
  · cases h
  · rename_i hsome
    exact ⟨by simpa using hsome, (Option.some.inj h).symm⟩

/-- The ids of a report are those of its violations. -/
theorem mem_reported_ids {p : ProjectId} {rules selected : List ConstraintRule}
    {update : WindowUpdateResult} {states : Table String CachedConstraintState}
    (h : Filed states) (id : String) :
    id ∈ (notificationFor p rules update (reportClauses selected states)).constraintIds ↔
      ∃ rule ∈ selected, rule.constraintId = id ∧
        ∀ other ∈ selected, clauseKey other = clauseKey rule → OnRecord states other := by
  show id ∈ sortUnique (fun id => id) _ ↔ _
  rw [mem_sortUnique_ids, List.mem_map]
  constructor
  · rintro ⟨violation, hviolation, rfl⟩
    obtain ⟨rule, hrule, hmem, hall⟩ := (mem_reportClauses h).mp hviolation
    exact ⟨rule, hrule, ((h _).own violation hmem).symm, hall⟩
  · rintro ⟨rule, hrule, rfl, hall⟩
    obtain ⟨violation, hmem⟩ := List.exists_mem_of_ne_nil _ (hall rule hrule rfl)
    exact ⟨violation, (mem_reportClauses h).mpr ⟨rule, hrule, hmem, hall⟩,
      (h _).own violation hmem⟩

/-- A report found names some rule. -/
theorem Found.ids {setting : Setting} {before : List Action} {worker : Nat} {batch : Batch}
    {update : WindowUpdateResult} {plan : CheckPlan} {report : ConstraintNotification}
    (h : Found setting before worker batch update plan report) : report.constraintIds ≠ [] := by
  obtain ⟨refresh, executions, -, hreport⟩ := h
  obtain ⟨hviolated, rfl⟩ := constraintOutcome_report hreport
  obtain ⟨violation, hviolation⟩ := List.exists_mem_of_ne_nil _ hviolated
  exact List.ne_nil_of_mem (mem_sortUnique_ids.mpr (List.mem_map_of_mem hviolation))

/-! ## Where a batch and its report are -/

/-- The batch of a worker. -/
def batchOf : Place → Option Batch
  | .free => none
  | .updating batch => some batch
  | .updated batch _ => some batch
  | .ruled batch _ _ => some batch
  | .refreshed batch _ _ _ => some batch
  | .prepared batch _ _ _ => some batch
  | .evaluated batch _ _ _ _ => some batch
  | .reporting batch _ _ _ => some batch
  | .joining batch _ _ _ _ => some batch
  | .returned batch _ _ => some batch

/-- The hand-over of a batch that is not completed. -/
def handedBy : Place → Option HandOver
  | .joining _ _ _ _ handed => handed
  | .returned _ handed _ => handed
  | _ => none

/-- The report in front of its hand-over. -/
def reportAt : Place → Option ConstraintNotification
  | .reporting _ _ _ report => some report
  | _ => none

/-- The report that was queued. -/
def queued (handed : HandOver) : Option ConstraintNotification :=
  if isSuccessful handed.result.code then some handed.report else none

/-- What a place knows about the run that led to it. -/
def Known (setting : Setting) (actions : List Action) : Place → Prop
  | .ruled _ _ registry =>
      ∃ first, first <+: actions ∧ registry = (reached setting first).core.configs
  | .refreshed _ _ registry _ =>
      ∃ first, first <+: actions ∧ registry = (reached setting first).core.configs
  | .prepared batch update _ plan => Planned setting actions batch.projectId update plan
  | .evaluated batch update _ plan _ => Planned setting actions batch.projectId update plan
  | .reporting batch _ _ report => FoundIn setting actions batch report
  | .joining _ _ _ decided handed => ∀ one, handed = some one → decided = one.result
  | .returned _ handed result => ∀ one, handed = some one → queued one = none →
      isSuccessful result.constraintNotificationResult.code = false
  | _ => True

/-- What is known of a worker stays known. -/
theorem Known.snoc {setting : Setting} {actions : List Action} {place : Place}
    (h : Known setting actions place) (action : Action) :
    Known setting (actions ++ [action]) place := by
  cases place with
  | free => trivial
  | updating batch => trivial
  | updated batch update => trivial
  | ruled batch update registry =>
      obtain ⟨first, hfirst, hregistry⟩ := h
      exact ⟨first, hfirst.trans (List.prefix_append _ _), hregistry⟩
  | refreshed batch update registry refresh =>
      obtain ⟨first, hfirst, hregistry⟩ := h
      exact ⟨first, hfirst.trans (List.prefix_append _ _), hregistry⟩
  | prepared batch update refresh plan => exact Planned.snoc h action
  | evaluated batch update refresh plan executions => exact Planned.snoc h action
  | reporting batch update refresh report => exact FoundIn.snoc h action
  | joining batch update refresh decided handed => exact h
  | returned batch handed result => exact h

/-- A section of a worker keeps its batch, its hand-over and its report. -/
theorem next_kept (capacity : Nat) (core : CoreService) (taken : OwnSection) (place : Place) :
    batchOf (next capacity core taken place) = batchOf place ∧
      handedBy (next capacity core taken place) = handedBy place ∧
      reportAt (next capacity core taken place) = reportAt place := by
  cases taken with
  | update update => cases place <;> exact ⟨rfl, rfl, rfl⟩
  | rules => cases place <;> exact ⟨rfl, rfl, rfl⟩
  | refresh outcome =>
      cases place with
      | ruled batch update registry =>
          simp only [next, refreshStep]
          split
          · exact ⟨rfl, rfl, rfl⟩
          split
          · exact ⟨rfl, rfl, rfl⟩
          split
          · cases outcome <;> exact ⟨rfl, rfl, rfl⟩
          · exact ⟨rfl, rfl, rfl⟩
      | _ => exact ⟨rfl, rfl, rfl⟩
  | prepare =>
      cases place with
      | refreshed batch update registry refresh =>
          simp only [next, prepareStep]
          split
          · exact ⟨rfl, rfl, rfl⟩
          split <;> exact ⟨rfl, rfl, rfl⟩
      | _ => exact ⟨rfl, rfl, rfl⟩
  | evaluate found windows =>
      cases place with
      | prepared batch update refresh plan =>
          simp only [next, evaluateStep]
          split
          · exact ⟨rfl, rfl, rfl⟩
          split <;> exact ⟨rfl, rfl, rfl⟩
      | _ => exact ⟨rfl, rfl, rfl⟩
  | join outcome =>
      cases place with
      | joining batch update refresh decided handed =>
          cases refresh <;> exact ⟨rfl, rfl, rfl⟩
      | _ => exact ⟨rfl, rfl, rfl⟩

/-- A section of a worker learns from the run. -/
theorem next_known {setting : Setting} {before : List Action} {place : Place}
    (h : Known setting before place) (taken : OwnSection) :
    Known setting before
      (next setting.windows (reached setting before).core taken place) := by
  cases taken with
  | update update => cases place <;> exact h
  | rules =>
      cases place with
      | updated batch update => exact ⟨before, List.prefix_refl _, rfl⟩
      | _ => exact h
  | refresh outcome =>
      cases place with
      | ruled batch update registry =>
          simp only [next, refreshStep]
          split
          · exact fun one hone => by cases hone
          split
          · exact h
          split
          · cases outcome with
            | ok result => exact h
            | error what => exact fun one hone => by cases hone
          · exact h
      | _ => exact h
  | prepare =>
      cases place with
      | refreshed batch update registry refresh =>
          simp only [next, prepareStep]
          split
          · exact fun one hone => by cases hone
          split
          · exact fun one hone => by cases hone
          · obtain ⟨first, hfirst, rfl⟩ := h
            exact ⟨first, before, hfirst, List.prefix_refl _, rfl⟩
      | _ => exact h
  | evaluate found windows =>
      cases place with
      | prepared batch update refresh plan =>
          simp only [next, evaluateStep]
          split
          · exact fun one hone => by cases hone
          split
          · exact fun one hone => by cases hone
          · exact h
      | _ => exact h
  | join outcome =>
      cases place with
      | joining batch update refresh decided handed =>
          have hfinished : ∀ derived, Known setting before
              (.returned batch handed (finished batch update.operation decided derived)) := by
            intro derived one hone hlost
            cases derived with
            | error what => rfl
            | ok derivedResult =>
                show isSuccessful decided.code = false
                rw [h one hone]
                rw [queued] at hlost
                split at hlost
                · cases hlost
                · rename_i hrefused
                  exact Bool.eq_false_iff.mpr hrefused
          cases refresh with
          | done result => exact hfinished (.ok result)
          | running => exact hfinished outcome
      | _ => exact h

/-! ## Batches are told apart -/

/-- Batches are numbered, and a hand-over belongs to the batch that made it. -/
structure Numbered (s : Service) : Prop where
  fresh : ∀ worker batch, batchOf (s.workers worker) = some batch → batch.number < s.taken
  apart : ∀ worker other batch batch', batchOf (s.workers worker) = some batch →
    batchOf (s.workers other) = some batch' → batch.number = batch'.number → worker = other
  past : ∀ answer ∈ s.answers, answer.batch.number < s.taken
  gone : ∀ answer ∈ s.answers, ∀ worker batch, batchOf (s.workers worker) = some batch →
    batch.number ≠ answer.batch.number
  answered : (s.answers.map fun answer => answer.batch.number).Nodup
  own : ∀ worker handed, handedBy (s.workers worker) = some handed →
    batchOf (s.workers worker) = some handed.batch
  ownAnswer : ∀ answer ∈ s.answers, ∀ handed, answer.handed = some handed →
    handed.batch = answer.batch
  handed : ∀ handed, handed ∈ s.handed ↔
    (∃ worker, handedBy (s.workers worker) = some handed) ∨
      ∃ answer ∈ s.answers, answer.handed = some handed
  once : (s.handed.map fun handed => handed.batch.number).Nodup

section Numbering

variable {s s' : Service}

/-- A step that moves no batch and hands nothing over. -/
theorem Numbered.frame (h : Numbered s)
    (hbatch : ∀ worker, batchOf (s'.workers worker) = batchOf (s.workers worker))
    (hhanded : ∀ worker, handedBy (s'.workers worker) = handedBy (s.workers worker))
    (htaken : s'.taken = s.taken) (hlist : s'.handed = s.handed)
    (hanswers : s'.answers = s.answers) : Numbered s' where
  fresh := by simpa only [hbatch, htaken] using h.fresh
  apart := by simpa only [hbatch] using h.apart
  past := by simpa only [hanswers, htaken] using h.past
  gone := by simpa only [hanswers, hbatch] using h.gone
  answered := by simpa only [hanswers] using h.answered
  own := by simpa only [hbatch, hhanded] using h.own
  ownAnswer := by simpa only [hanswers] using h.ownAnswer
  handed := by simpa only [hlist, hhanded, hanswers] using h.handed
  once := by simpa only [hlist] using h.once

/-- A worker that moves with its batch and its hand-over. -/
theorem Numbered.moved (h : Numbered s) {worker : Nat} {place : Place}
    (hbatch : batchOf place = batchOf (s.workers worker))
    (hhanded : handedBy place = handedBy (s.workers worker))
    (hworkers : s'.workers = (s.setPlace worker place).workers)
    (htaken : s'.taken = s.taken) (hlist : s'.handed = s.handed)
    (hanswers : s'.answers = s.answers) : Numbered s' := by
  refine h.frame (fun other => ?_) (fun other => ?_) htaken hlist hanswers
  · rw [hworkers]
    by_cases hother : other = worker
    · rw [hother, setPlace_self, hbatch]
    · rw [setPlace_other s place hother]
  · rw [hworkers]
    by_cases hother : other = worker
    · rw [hother, setPlace_self, hhanded]
    · rw [setPlace_other s place hother]

/-- What a worker has is what it was put to, or was there. -/
theorem at_setPlace {α : Type} {f : Place → Option α} {worker other : Nat} {place : Place} {x : α}
    (h : f ((s.setPlace worker place).workers other) = some x) :
    (other = worker ∧ f place = some x) ∨ (other ≠ worker ∧ f (s.workers other) = some x) := by
  by_cases hother : other = worker
  · rw [hother, setPlace_self] at h
    exact Or.inl ⟨hother, h⟩
  · rw [setPlace_other s place hother] at h
    exact Or.inr ⟨hother, h⟩

/-- A batch is taken. -/
theorem Numbered.take (h : Numbered s) {worker : Nat} (hfree : s.workers worker = .free)
    (p : ProjectId) (data : TimeseriesBatch) :
    Numbered (Service.setPlace { s with taken := s.taken + 1 } worker
      (.updating { number := s.taken, projectId := p, data := data })) := by
  have hold : ∀ other one, batchOf (s.workers other) = some one → one.number ≠ s.taken :=
    fun other one hone => (h.fresh other one hone).ne
  have hsame : ∀ other, handedBy ((Service.setPlace { s with taken := s.taken + 1 } worker
      (.updating { number := s.taken, projectId := p, data := data })).workers other) =
        handedBy (s.workers other) := by
    intro other
    by_cases hother : other = worker
    · rw [hother, setPlace_self, hfree]
      rfl
    · rw [setPlace_other _ _ hother]
  refine ⟨fun other one hone => ?_, fun first second one two hone htwo hnumber => ?_,
    fun answer hanswer => (h.past answer hanswer).trans (Nat.lt_succ_self _),
    fun answer hanswer other one hone => ?_, h.answered, fun other handed hhanded => ?_,
    h.ownAnswer, fun handed => ?_, h.once⟩
  · rcases at_setPlace hone with ⟨-, hnew⟩ | ⟨-, hwas⟩
    · rw [← Option.some.inj hnew]
      exact Nat.lt_succ_self _
    · exact (h.fresh other one hwas).trans (Nat.lt_succ_self _)
  · rcases at_setPlace hone with ⟨rfl, hnew⟩ | ⟨-, hwas⟩
    · rcases at_setPlace htwo with ⟨rfl, -⟩ | ⟨-, hwas'⟩
      · rfl
      · rw [← Option.some.inj hnew] at hnumber
        exact absurd hnumber.symm (hold second two hwas')
    · rcases at_setPlace htwo with ⟨rfl, hnew⟩ | ⟨-, hwas'⟩
      · rw [← Option.some.inj hnew] at hnumber
        exact absurd hnumber (hold first one hwas)
      · exact h.apart first second one two hwas hwas' hnumber
  · rcases at_setPlace hone with ⟨-, hnew⟩ | ⟨-, hwas⟩
    · rw [← Option.some.inj hnew]
      exact (h.past answer hanswer).ne'
    · exact h.gone answer hanswer other one hwas
  · rcases at_setPlace hhanded with ⟨-, hnew⟩ | ⟨hother, hwas⟩
    · cases hnew
    · rw [setPlace_other _ _ hother]
      exact h.own other handed hwas
  · simp only [hsame]
    exact h.handed handed

/-- A report is handed over. -/
theorem Numbered.report (h : Numbered s) {worker : Nat} {batch : Batch}
    {update : WindowUpdateResult} {refresh : Refresh} {report : ConstraintNotification}
    (hplace : s.workers worker = .reporting batch update refresh report)
    (reports : NotificationExecutor.Executor) (result : OperationResult) :
    Numbered (Service.setPlace
      { s with
        reports := reports
        handed := s.handed ++ [{ batch := batch, report := report, result := result }] } worker
      (.joining batch update refresh result
        (some { batch := batch, report := report, result := result }))) := by
  have hbatch : batchOf (s.workers worker) = some batch := by
    rw [hplace]
    rfl
  have hsame : ∀ other, batchOf ((Service.setPlace
      { s with
        reports := reports
        handed := s.handed ++ [{ batch := batch, report := report, result := result }] } worker
      (.joining batch update refresh result
        (some { batch := batch, report := report, result := result }))).workers other) =
        batchOf (s.workers other) := by
    intro other
    by_cases hother : other = worker
    · rw [hother, setPlace_self, hplace]
      rfl
    · rw [setPlace_other _ _ hother]
  -- no hand-over carries the number of a batch that still has its report
  have hunhanded : ∀ handed ∈ s.handed, handed.batch.number ≠ batch.number := by
    intro handed hhanded hnumber
    rcases (h.handed handed).mp hhanded with ⟨other, hother⟩ | ⟨answer, hanswer, hwith⟩
    · have hworker := h.apart other worker _ _ (h.own other handed hother) hbatch hnumber
      rw [hworker, hplace] at hother
      cases hother
    · rw [h.ownAnswer answer hanswer handed hwith] at hnumber
      exact h.gone answer hanswer worker batch hbatch hnumber.symm
  refine ⟨?_, ?_, h.past, ?_, h.answered, fun other handed hhanded => ?_, h.ownAnswer,
    fun handed => ?_, ?_⟩
  · exact fun other one hone => h.fresh other one ((hsame other).symm.trans hone)
  · simpa only [hsame] using h.apart
  · exact fun answer hanswer other one hone =>
      h.gone answer hanswer other one ((hsame other).symm.trans hone)
  · rcases at_setPlace hhanded with ⟨rfl, hnew⟩ | ⟨hother, hwas⟩
    · rw [setPlace_self, ← Option.some.inj hnew]
      rfl
    · rw [setPlace_other _ _ hother]
      exact h.own other handed hwas
  · show handed ∈ s.handed ++ [_] ↔ _
    rw [List.mem_append, List.mem_singleton, h.handed]
    constructor
    · rintro ((⟨other, hother⟩ | hanswered) | rfl)
      · refine Or.inl ⟨other, ?_⟩
        rw [setPlace_other _ _ fun hsame => ?_]
        · exact hother
        · rw [hsame, hplace] at hother
          cases hother
      · exact Or.inr hanswered
      · refine Or.inl ⟨worker, ?_⟩
        rw [setPlace_self]
        rfl
    · rintro (⟨other, hother⟩ | hanswered)
      · rcases at_setPlace hother with ⟨-, hnew⟩ | ⟨-, hwas⟩
        · exact Or.inr (Option.some.inj hnew).symm
        · exact Or.inl (Or.inl ⟨other, hwas⟩)
      · exact Or.inl (Or.inr hanswered)
  · show (List.map _ (s.handed ++ [_])).Nodup
    rw [List.map_append, List.map_singleton]
    refine List.nodup_append.mpr ⟨h.once, List.nodup_singleton _, ?_⟩
    intro number hnumber other hother heq
    obtain ⟨handed, hhanded, rfl⟩ := List.mem_map.mp hnumber
    rw [List.mem_singleton.mp hother] at heq
    exact hunhanded handed hhanded heq

/-- A batch is completed. -/
theorem Numbered.complete (h : Numbered s) {worker : Nat} {batch : Batch}
    {handed : Option HandOver} {result : IngestExecutor.IngestPipelineResult}
    (hplace : s.workers worker = .returned batch handed result) :
    Numbered (Service.setPlace
      { s with answers := s.answers ++ [{ batch := batch, handed := handed, result := result }] }
      worker .free) := by
  have hbatch : batchOf (s.workers worker) = some batch := by
    rw [hplace]
    rfl
  have hhanded : handedBy (s.workers worker) = handed := by
    rw [hplace]
    rfl
  refine ⟨fun other one hone => ?_, fun first second one two hone htwo => ?_,
    fun answer hanswer => ?_, fun answer hanswer other one hone => ?_, ?_,
    fun other one hone => ?_, fun answer hanswer one hone => ?_, fun one => ?_, h.once⟩
  · rcases at_setPlace hone with ⟨-, hnew⟩ | ⟨-, hwas⟩
    · cases hnew
    · exact h.fresh other one hwas
  · rcases at_setPlace hone with ⟨-, hnew⟩ | ⟨-, hwas⟩
    · cases hnew
    rcases at_setPlace htwo with ⟨-, hnew⟩ | ⟨-, hwas'⟩
    · cases hnew
    · exact h.apart first second one two hwas hwas'
  · rcases List.mem_append.mp hanswer with hold | hnew
    · exact h.past answer hold
    · rw [List.mem_singleton.mp hnew]
      exact h.fresh worker batch hbatch
  · rcases at_setPlace hone with ⟨-, hnew⟩ | ⟨hother, hwas⟩
    · cases hnew
    rcases List.mem_append.mp hanswer with hold | hnew
    · exact h.gone answer hold other one hwas
    · rw [List.mem_singleton.mp hnew]
      exact fun hnumber => hother (h.apart other worker one batch hwas hbatch hnumber)
  · show (List.map _ (s.answers ++ [_])).Nodup
    rw [List.map_append, List.map_singleton]
    refine List.nodup_append.mpr ⟨h.answered, List.nodup_singleton _, ?_⟩
    intro number hnumber other hother heq
    obtain ⟨answer, hanswer, rfl⟩ := List.mem_map.mp hnumber
    rw [List.mem_singleton.mp hother] at heq
    exact h.gone answer hanswer worker batch hbatch heq.symm
  · rcases at_setPlace hone with ⟨-, hnew⟩ | ⟨hother, hwas⟩
    · cases hnew
    · rw [setPlace_other _ _ hother]
      exact h.own other one hwas
  · rcases List.mem_append.mp hanswer with hold | hnew
    · exact h.ownAnswer answer hold one hone
    · rw [List.mem_singleton.mp hnew] at hone ⊢
      have hown := h.own worker one (hhanded.trans hone)
      exact (Option.some.inj (hbatch.symm.trans hown)).symm
  · refine (h.handed one).trans ?_
    constructor
    · rintro (⟨other, hother⟩ | ⟨answer, hanswer, hwith⟩)
      · by_cases hsame : other = worker
        · rw [hsame, hhanded] at hother
          exact Or.inr ⟨_, List.mem_append_right _ List.mem_cons_self, hother⟩
        · refine Or.inl ⟨other, ?_⟩
          rw [setPlace_other _ _ hsame]
          exact hother
      · exact Or.inr ⟨answer, List.mem_append_left _ hanswer, hwith⟩
    · rintro (⟨other, hother⟩ | ⟨answer, hanswer, hwith⟩)
      · rcases at_setPlace hother with ⟨-, hnew⟩ | ⟨-, hwas⟩
        · cases hnew
        · exact Or.inl ⟨other, hwas⟩
      · rcases List.mem_append.mp hanswer with hold | hnew
        · exact Or.inr ⟨answer, hold, hwith⟩
        · rw [List.mem_singleton.mp hnew] at hwith
          exact Or.inl ⟨worker, hhanded.trans hwith⟩

end Numbering

/-! ## Every run -/

/-- The invariant of a run. -/
structure Traced (setting : Setting) (actions : List Action) (s : Service) : Prop where
  queue : Queued setting.capacity setting.configured s.reports
  accepted : s.reports.accepted = s.handed.filterMap queued
  filed : ∀ p, Filed (cachedStates p s.core)
  numbered : Numbered s
  known : ∀ worker, Known setting actions (s.workers worker)
  handed : ∀ handed ∈ s.handed, FoundIn setting actions handed.batch handed.report
  refused : ∀ answer ∈ s.answers,
    Known setting actions (.returned answer.batch answer.handed answer.result)
  /-- A report that was found is not lost. -/
  kept : ∀ batch report, FoundIn setting actions batch report →
    (∃ worker, batchOf (s.workers worker) = some batch ∧
      reportAt (s.workers worker) = some report) ∨
      ∃ handed ∈ s.handed, handed.batch = batch ∧ handed.report = report

section Steps

variable {setting : Setting} {before : List Action}

/-- What a run with one more step has found. -/
theorem foundIn_snoc {action : Action} {batch : Batch} {report : ConstraintNotification}
    (h : FoundIn setting (before ++ [action]) batch report) :
    FoundIn setting before batch report ∨
      ∃ worker update plan, action = .publish worker ∧
        Found setting before worker batch update plan report := by
  obtain ⟨front, worker, after, update, plan, heq, hfound⟩ := h
  rcases after.eq_nil_or_concat with rfl | ⟨rest, last, rfl⟩
  · obtain ⟨rfl, hlast⟩ := List.append_inj' heq rfl
    exact Or.inr ⟨worker, update, plan, (List.cons.inj hlast).1, hfound⟩
  · rw [List.concat_eq_append, ← List.cons_append, ← List.append_assoc] at heq
    obtain ⟨rfl, -⟩ := List.append_inj' heq rfl
    exact Or.inl ⟨front, worker, rest, update, plan, rfl, hfound⟩

/-- One worker moves, the others stay. -/
theorem known_setPlace {s : Service} (h : ∀ worker, Known setting before (s.workers worker))
    (action : Action) {worker : Nat} {place : Place}
    (hplace : Known setting (before ++ [action]) place) (other : Nat) :
    Known setting (before ++ [action]) ((s.setPlace worker place).workers other) := by
  by_cases hother : other = worker
  · rw [hother, setPlace_self]
    exact hplace
  · rw [setPlace_other s place hother]
    exact (h other).snoc action

/-- A worker that has no report in hand moves; the reports of the others stay. -/
theorem reports_setPlace {s : Service} {worker : Nat} {place : Place}
    (hnone : reportAt (s.workers worker) = none) {other : Nat} {batch : Batch}
    {report : ConstraintNotification} (hbatch : batchOf (s.workers other) = some batch)
    (hreport : reportAt (s.workers other) = some report) :
    batchOf ((s.setPlace worker place).workers other) = some batch ∧
      reportAt ((s.setPlace worker place).workers other) = some report := by
  have hother : other ≠ worker := by
    rintro rfl
    rw [hnone] at hreport
    cases hreport
  rw [setPlace_other s place hother]
  exact ⟨hbatch, hreport⟩

/-- A step that hands nothing over. -/
theorem Traced.frame (h : Traced setting before (reached setting before)) {action : Action}
    {s : Service} (hqueue : Queued setting.capacity setting.configured s.reports)
    (haccepted : s.reports.accepted = (reached setting before).reports.accepted)
    (hfiled : ∀ p, Filed (cachedStates p s.core)) (hnumbered : Numbered s)
    (hknown : ∀ worker, Known setting (before ++ [action]) (s.workers worker))
    (hhanded : s.handed = (reached setting before).handed)
    (hrefused : ∀ answer ∈ s.answers, answer ∈ (reached setting before).answers ∨
      Known setting before (.returned answer.batch answer.handed answer.result))
    (hkept : ∀ other batch report, batchOf ((reached setting before).workers other) = some batch →
      reportAt ((reached setting before).workers other) = some report →
        batchOf (s.workers other) = some batch ∧ reportAt (s.workers other) = some report)
    (hfound : ∀ worker batch update plan report, action = .publish worker →
      Found setting before worker batch update plan report →
        batchOf (s.workers worker) = some batch ∧ reportAt (s.workers worker) = some report) :
    Traced setting (before ++ [action]) s where
  queue := hqueue
  accepted := by rw [haccepted, hhanded, h.accepted]
  filed := hfiled
  numbered := hnumbered
  known := hknown
  handed := fun handed hin => (h.handed handed (hhanded ▸ hin)).snoc action
  refused := fun answer hanswer =>
    Known.snoc ((hrefused answer hanswer).elim (h.refused answer) fun hnew => hnew) action
  kept := by
    intro batch report hin
    rw [hhanded]
    rcases foundIn_snoc hin with hold | ⟨worker, update, plan, hpublish, hnew⟩
    · refine (h.kept batch report hold).imp_left fun ⟨worker, hbatch, hreport⟩ => ⟨worker, ?_⟩
      exact hkept worker batch report hbatch hreport
    · exact Or.inl ⟨worker, hfound worker batch update plan report hpublish hnew⟩

/-- The publication takes its worker in front of the hand-over, or behind it. -/
theorem publishStep_kept (states : Table String CachedConstraintState) (batch : Batch)
    (update : WindowUpdateResult) (refresh : Refresh) (plan : CheckPlan)
    (executions : List ConstraintGroupExecution) :
    let place := publishStep states batch update refresh plan executions
    batchOf place = some batch ∧ handedBy place = none ∧
      reportAt place = (constraintOutcome batch.projectId plan update executions states).2 := by
  intro place
  show batchOf (publishStep ..) = _ ∧ handedBy (publishStep ..) = _ ∧ reportAt (publishStep ..) = _
  rw [publishStep]
  split
  · rename_i report hreport
    exact ⟨rfl, rfl, hreport.symm⟩
  · rename_i hnone
    exact ⟨rfl, rfl, hnone.symm⟩

/-- A step that does nothing. -/
theorem Traced.still (h : Traced setting before (reached setting before)) {action : Action}
    (hnone : ∀ worker batch update plan report, action = .publish worker →
      ¬ Found setting before worker batch update plan report) :
    Traced setting (before ++ [action]) (reached setting before) :=
  h.frame h.queue rfl h.filed h.numbered (fun worker => (h.known worker).snoc action) rfl
    (fun _ hanswer => Or.inl hanswer) (fun _ _ _ hbatch hreport => ⟨hbatch, hreport⟩)
    fun worker batch update plan report hpublish hfound =>
      absurd hfound (hnone worker batch update plan report hpublish)

/-- What others do to the service, or to the queue. -/
theorem Traced.outside (h : Traced setting before (reached setting before)) {action : Action}
    {core : CoreService} {reports : NotificationExecutor.Executor}
    (hother : ∀ worker, action ≠ .publish worker)
    (hqueue : Queued setting.capacity setting.configured reports)
    (haccepted : reports.accepted = (reached setting before).reports.accepted)
    (hfiled : ∀ p, Filed (cachedStates p core)) :
    Traced setting (before ++ [action])
      { reached setting before with core := core, reports := reports } :=
  h.frame hqueue haccepted hfiled
    (h.numbered.frame (fun _ => rfl) (fun _ => rfl) rfl rfl rfl)
    (fun worker => (h.known worker).snoc action) rfl (fun _ hanswer => Or.inl hanswer)
    (fun _ _ _ hbatch hreport => ⟨hbatch, hreport⟩)
    fun worker _ _ _ _ hpublish _ => absurd hpublish (hother worker)

/-- Taking a task. -/
theorem Traced.take (h : Traced setting before (reached setting before)) (worker : Nat)
    (p : ProjectId) (data : TimeseriesBatch) :
    Traced setting (before ++ [.take worker p data])
      (step setting (reached setting before) (.take worker p data)) := by
  simp only [step]
  split
  · rename_i hfree
    refine h.frame h.queue rfl h.filed (h.numbered.take hfree p data)
      (known_setPlace h.known _ trivial) rfl (fun _ hanswer => Or.inl hanswer)
      (fun other batch report hbatch hreport => ?_) fun _ _ _ _ _ hpublish => by cases hpublish
    have hnone : reportAt ((reached setting before).workers worker) = none := by
      rw [hfree]
      rfl
    exact reports_setPlace hnone hbatch hreport
  · exact h.still fun _ _ _ _ _ hpublish => by cases hpublish

/-- A section of a single worker. -/
theorem Traced.own (h : Traced setting before (reached setting before)) (worker : Nat)
    (taken : OwnSection) :
    Traced setting (before ++ [.own worker taken])
      (step setting (reached setting before) (.own worker taken)) := by
  obtain ⟨hbatch, hhanded, hreport⟩ := next_kept setting.windows (reached setting before).core
    taken ((reached setting before).workers worker)
  refine h.frame h.queue rfl h.filed (h.numbered.moved hbatch hhanded rfl rfl rfl rfl)
    (known_setPlace h.known _ ((next_known (h.known worker) taken).snoc _)) rfl
    (fun _ hanswer => Or.inl hanswer) (fun other batch report hb hr => ?_)
    fun _ _ _ _ _ hpublish => by cases hpublish
  show batchOf ((Service.setPlace _ worker _).workers other) = _ ∧
    reportAt ((Service.setPlace _ worker _).workers other) = _
  by_cases hother : other = worker
  · rw [hother] at hb hr ⊢
    rw [setPlace_self, hbatch, hreport]
    exact ⟨hb, hr⟩
  · rw [setPlace_other _ _ hother]
    exact ⟨hb, hr⟩

/-- Publishing. -/
theorem Traced.publish (h : Traced setting before (reached setting before)) (worker : Nat) :
    Traced setting (before ++ [.publish worker])
      (step setting (reached setting before) (.publish worker)) := by
  simp only [step]
  split
  · rename_i batch update refresh plan executions hplace
    have hstates := cachedStates_publish (reached setting before).core batch.projectId update
      executions
    obtain ⟨hbatch, hhanded, hreport⟩ := publishStep_kept
      (publishExecutions update executions
        (cachedStates batch.projectId (reached setting before).core))
      batch update refresh plan executions
    rw [hstates]
    refine h.frame h.queue rfl
      (filed_enter h.filed (.publish batch.projectId update executions))
      (@Numbered.moved _ _ h.numbered worker _ ?_ ?_ rfl rfl rfl rfl) (known_setPlace h.known _ ?_)
      rfl (fun _ hanswer => Or.inl hanswer) (fun other one report hone hwas => ?_)
      fun other one other' plan' report hpublish hfound => ?_
    · rw [hbatch, hplace]
      rfl
    · rw [hhanded, hplace]
      rfl
    · rw [publishStep]
      split
      · rename_i report hfound
        exact ⟨before, worker, [], update, plan, rfl, refresh, executions, hplace, hfound⟩
      · exact fun handed hnone => by cases hnone
    · refine reports_setPlace ?_ hone hwas
      show reportAt ((reached setting before).workers worker) = none
      rw [hplace]
      rfl
    · obtain rfl := Action.publish.inj hpublish
      obtain ⟨refresh', executions', hplace', hfound⟩ := hfound
      obtain ⟨rfl, rfl, -, rfl, rfl⟩ := Place.evaluated.inj (hplace.symm.trans hplace')
      rw [setPlace_self, hbatch, hreport]
      exact ⟨rfl, hfound⟩
  · rename_i hplace
    refine h.still fun other batch update plan report hpublish hfound => ?_
    obtain rfl := Action.publish.inj hpublish
    obtain ⟨refresh, executions, heq, -⟩ := hfound
    exact hplace _ _ _ _ _ heq

/-- Handing a report over. -/
theorem Traced.report (h : Traced setting before (reached setting before)) (worker : Nat) :
    Traced setting (before ++ [.report worker])
      (step setting (reached setting before) (.report worker)) := by
  simp only [step]
  split
  · rename_i batch update refresh report hplace
    have hfound : FoundIn setting before batch report := by
      have hknown := h.known worker
      rw [hplace] at hknown
      exact hknown
    have hids : report.constraintIds ≠ [] := by
      obtain ⟨front, publisher, after, update', plan, -, hreport⟩ := hfound
      exact hreport.ids
    refine ⟨h.queue.moved (perform_moved _ _ _ (.enqueue report)), ?_, h.filed,
      h.numbered.report hplace _ _, known_setPlace h.known _ ?_, fun handed hin => ?_,
      fun answer hanswer => Known.snoc (h.refused answer hanswer) _, fun other one hin => ?_⟩
    · show (tryEnqueue setting.capacity report (reached setting before).reports).1.accepted =
        List.filterMap queued ((reached setting before).handed ++ [_])
      rw [List.filterMap_append, ← h.accepted]
      rcases tryEnqueue_cases setting.capacity report (reached setting before).reports with
        ⟨-, -, -, heq⟩ | ⟨hnil, -⟩ | ⟨-, -, message, heq⟩
      · rw [heq]
        rfl
      · exact absurd hnil hids
      · rw [heq]
        exact (List.append_nil _).symm
    · intro handed hhanded
      rw [← Option.some.inj hhanded]
    · rcases List.mem_append.mp hin with hold | hnew
      · exact (h.handed handed hold).snoc _
      · rw [List.mem_singleton.mp hnew]
        exact hfound.snoc _
    · rcases foundIn_snoc hin with hold | ⟨publisher, update', plan, hpublish, -⟩
      · rcases h.kept other one hold with ⟨holder, hbatch, hreport⟩ | ⟨handed, hhanded, hsame⟩
        · by_cases hholder : holder = worker
          · rw [hholder, hplace] at hbatch hreport
            exact Or.inr ⟨_, List.mem_append_right _ List.mem_cons_self,
              Option.some.inj hbatch, Option.some.inj hreport⟩
          · refine Or.inl ⟨holder, ?_⟩
            rw [setPlace_other _ _ hholder]
            exact ⟨hbatch, hreport⟩
        · exact Or.inr ⟨handed, List.mem_append_left _ hhanded, hsame⟩
      · cases hpublish
  · exact h.still fun _ _ _ _ _ hpublish => by cases hpublish

/-- Completing a task. -/
theorem Traced.complete (h : Traced setting before (reached setting before)) (worker : Nat) :
    Traced setting (before ++ [.complete worker])
      (step setting (reached setting before) (.complete worker)) := by
  simp only [step]
  split
  · rename_i batch handed result hplace
    have hknown := h.known worker
    rw [hplace] at hknown
    refine h.frame h.queue rfl h.filed (h.numbered.complete hplace)
      (known_setPlace h.known _ trivial) rfl (fun answer hanswer => ?_)
      (fun other one report hbatch hreport => ?_) fun _ _ _ _ _ hpublish => by cases hpublish
    · refine (List.mem_append.mp hanswer).imp_right fun hnew => ?_
      rw [List.mem_singleton.mp hnew]
      exact hknown
    · refine reports_setPlace ?_ hbatch hreport
      show reportAt ((reached setting before).workers worker) = none
      rw [hplace]
      rfl
  · exact h.still fun _ _ _ _ _ hpublish => by cases hpublish

/-- Every action keeps the trace. -/
theorem Traced.step (h : Traced setting before (reached setting before)) (action : Action) :
    Traced setting (before ++ [action])
      (BatchSections.step setting (reached setting before) action) := by
  cases action with
  | take worker p data => exact h.take worker p data
  | own worker taken => exact h.own worker taken
  | publish worker => exact h.publish worker
  | report worker => exact h.report worker
  | complete worker => exact h.complete worker
  | locked taken =>
      have hfiled := filed_enter h.filed taken
      cases taken with
      | publish p update executions =>
          exact h.still fun _ _ _ _ _ hpublish => by cases hpublish
      | registry op => exact h.outside (fun _ hno => by cases hno) h.queue rfl hfiled
      | relations p items => exact h.outside (fun _ hno => by cases hno) h.queue rfl hfiled
      | windows window generation =>
          exact h.outside (fun _ hno => by cases hno) h.queue rfl hfiled
      | forget p => exact h.outside (fun _ hno => by cases hno) h.queue rfl hfiled
  | queue action =>
      have hmoved := h.queue.moved (perform_moved setting.capacity setting.configured
        (reached setting before).reports action)
      have haccepted := @NotificationExecutor.perform_accepted setting.capacity
        setting.configured (reached setting before).reports action
      cases action with
      | enqueue report => exact h.still fun _ _ _ _ _ hpublish => by cases hpublish
      | stop => exact h.outside (fun _ hno => by cases hno) hmoved rfl h.filed
      | take =>
          exact h.outside (fun _ hno => by cases hno) hmoved
            (haccepted fun _ hno => by cases hno) h.filed
      | send now turns =>
          exact h.outside (fun _ hno => by cases hno) hmoved
            (haccepted fun _ hno => by cases hno) h.filed
      | leave =>
          exact h.outside (fun _ hno => by cases hno) hmoved
            (haccepted fun _ hno => by cases hno) h.filed

/-- Every reachable service has its trace. -/
theorem reached_traced (setting : Setting) (actions : List Action) :
    Traced setting actions (reached setting actions) := by
  refine run_history ⟨queued_init _ _, rfl, fun _ => nothing_filed, ?_, fun _ => trivial, ?_, ?_,
    ?_⟩ (fun before action h => h.step action) actions
  · refine ⟨?_, ?_, ?_, ?_, List.nodup_nil, ?_, ?_, ?_, List.nodup_nil⟩
    · exact fun worker batch hbatch => by cases hbatch
    · exact fun worker other batch batch' hbatch => by cases hbatch
    · exact fun answer hanswer => by cases hanswer
    · exact fun answer hanswer => by cases hanswer
    · exact fun worker handed hhanded => by cases hhanded
    · exact fun answer hanswer => by cases hanswer
    · refine fun handed => iff_of_false List.not_mem_nil ?_
      rintro (⟨worker, hworker⟩ | ⟨answer, hanswer, -⟩)
      · cases hworker
      · cases hanswer
  · exact fun handed hhanded => by cases hhanded
  · exact fun answer hanswer => by cases hanswer
  · rintro batch report ⟨front, worker, after, update, plan, heq, -⟩
    exact absurd heq (by simp)

end Steps

/-! ## Delivery -/

/-- **What a publication finds** is what it published. -/
theorem found_exactly {setting : Setting} {before : List Action} {worker : Nat} {batch : Batch}
    {update : WindowUpdateResult} {plan : CheckPlan} {report : ConstraintNotification}
    (h : Found setting before worker batch update plan report) :
    FoundExactly setting before worker batch update plan report := by
  have htraced := reached_traced setting before
  obtain ⟨refresh, executions, hplace, hreport⟩ := h
  have hknown := htraced.known worker
  rw [hplace] at hknown
  obtain ⟨-, rfl⟩ := constraintOutcome_report hreport
  refine ⟨hknown, rfl, fun id => ?_⟩
  have hafter : (reached setting (before ++ [.publish worker])).core =
      enter (reached setting before).core (.publish batch.projectId update executions) := by
    rw [reached, run_append, run_cons, run_nil]
    show (BatchSections.step setting (reached setting before) (.publish worker)).core = _
    simp only [BatchSections.step, hplace, setPlace_core]
  rw [hafter, cachedStates_publish]
  exact mem_reported_ids ((htraced.filed batch.projectId).publishExecutions update executions) id

/-- A request is not told `OK` when its report was not queued. -/
theorem response_not_ok {result : IngestExecutor.IngestPipelineResult}
    (h : isSuccessful result.constraintNotificationResult.code = false)
    (registry : RuntimeConfigRegistry) (request : IngestHandler.IngestDataRequest) :
    (IngestHandler.ingestData registry (fun _ => .completed result) request).operation.code ≠
      .ok := by
  intro hok
  have hhandled := IngestHandler.handled_cases registry (fun _ => .completed result) request
  generalize IngestHandler.ingestData registry _ request = response at hok hhandled
  cases hhandled with
  | malformed message untaken converts => cases hok
  | unresolved filled converted failed =>
      rw [IngestHandler.skipped_operation failed] at hok
      rw [hok] at failed
      cases failed
  | submitted filled converted resolved handed =>
      rw [← handed, IngestHandler.completed_code _ resolved] at hok
      split at hok
      · rename_i hall
        rw [h] at hall
        exact absurd hall.2.2.2 Bool.false_ne_true
      · cases hok

/-- **Violations are reported.**  After every interleaving of the sections of any batches
    with configuration calls, the queue's worker and the destructor:

    * the reports that were sent, the one being sent and the queue are those handed over
      that the queue took, in the order of their hand-over;
    * a batch hands over at most once, and what it hands over is what its publication found;
    * what a publication finds names exactly the selected rules of violated clauses of the
      cache it left, and a batch is not answered before its report is handed over;
    * and a request whose report was not queued is not answered `OK`. -/
theorem reports_delivered (setting : Setting) (actions : List Action) :
    let s := reached setting actions
    (s.reports.delivered.map Delivery.report ++ inHand s.reports.worker ++ s.reports.queue =
          s.handed.filterMap queued ∧
        (s.reports.worker = .left →
          s.reports.delivered.map Delivery.report = s.handed.filterMap queued)) ∧
      ((s.handed.map fun handed => handed.batch.number).Nodup ∧
        ∀ handed ∈ s.handed, FoundIn setting actions handed.batch handed.report) ∧
      (∀ before worker after batch update plan report,
        actions = before ++ .publish worker :: after →
          Found setting before worker batch update plan report →
            FoundExactly setting before worker batch update plan report ∧
              ∀ answer ∈ s.answers, answer.batch = batch →
                ∃ handed ∈ s.handed, answer.handed = some handed ∧ handed.report = report) ∧
      ∀ answer ∈ s.answers, ∀ handed, answer.handed = some handed →
        handed ∈ s.handed ∧ handed.batch = answer.batch ∧
          (queued handed = none → ∀ registry request,
            (IngestHandler.ingestData registry (fun _ => .completed answer.result)
              request).operation.code ≠ .ok) := by
  have h := reached_traced setting actions
  refine ⟨⟨h.queue.fifo.symm.trans h.accepted, fun hleft => ?_⟩, ⟨h.numbered.once, h.handed⟩,
    fun before worker after batch update plan report heq hfound =>
      ⟨found_exactly hfound, fun answer hanswer hbatch => ?_⟩,
    fun answer hanswer handed hhanded => ⟨(h.numbered.handed handed).mpr
      (Or.inr ⟨answer, hanswer, hhanded⟩), h.numbered.ownAnswer answer hanswer handed hhanded,
      fun hlost => response_not_ok (h.refused answer hanswer handed hhanded hlost)⟩⟩
  · have hfifo := h.queue.fifo
    rw [hleft, (h.queue.left hleft).1, inHand, List.append_nil, List.append_nil] at hfifo
    exact hfifo.symm.trans h.accepted
  · rcases h.kept batch report ⟨before, worker, after, update, plan, heq, hfound⟩ with
      ⟨holder, hholder, -⟩ | ⟨handed, hin, hsame, hreport⟩
    · exact absurd (by rw [hbatch]) (h.numbered.gone answer hanswer holder batch hholder)
    · refine ⟨handed, hin, ?_, hreport⟩
      rcases (h.numbered.handed handed).mp hin with ⟨holder, hholder⟩ | ⟨other, hother, hwith⟩
      · have hown := h.numbered.own holder handed hholder
        rw [hsame] at hown
        exact absurd (by rw [hbatch]) (h.numbered.gone answer hanswer holder batch hown)
      · -- the batch of the hand-over was answered once
        have hnumber : other.batch.number = answer.batch.number := by
          rw [← h.numbered.ownAnswer other hother handed hwith, hsame, hbatch]
        rwa [← List.inj_on_of_nodup_map h.numbered.answered hother hanswer hnumber]

/-! ## Two hot workers

A rule bounds the values of `s`.  Both workers update the window before either of them
reads it, so both find both violations; the first hands over before the second, and the
second is completed before the first. -/

/-- A value of `s` over the bound. -/
def firstBatch : TimeseriesBatch := { points := [sampleAt "s" 0 100] }

/-- A later one. -/
def secondBatch : TimeseriesBatch := { points := [sampleAt "s" 1 100] }

/-- The window behind both updates. -/
def bothUpdated : WindowService :=
  (hotUpdate "p" secondBatch (hotUpdate "p" firstBatch {}).1).1

/-- The sections of a worker between its update and its publication. -/
def checkedBy (worker : Nat) (found : Nat → Reading) : List Action :=
  [.own worker .rules, .own worker (.refresh (.ok {})), .own worker .prepare,
    .own worker (.evaluate found fun _ => bothUpdated)]

/-- Two hot workers on two batches, and the worker of the queue. -/
def twoWorkers : List Action :=
  [.locked (.registry (.upsertInstances "p" [instanceOf "s"])),
    .locked (.registry (.upsertConstraints "p" [boundOn "r" "s" ""])), .locked (.forget "p"),
    .take 0 "p" firstBatch, .take 1 "p" secondBatch, .locked (.windows bothUpdated 0),
    .own 0 (.update (hotUpdate "p" firstBatch {}).2),
    .own 1 (.update (hotUpdate "p" secondBatch (hotUpdate "p" firstBatch {}).1).2)] ++
  checkedBy 0 (fun _ => { configs := {}, window := bothUpdated }) ++
  checkedBy 1 (fun _ => { configs := {}, window := bothUpdated }) ++
  [.publish 0, .publish 1, .report 0, .report 1, .own 1 (.join (.ok {})), .complete 1,
    .queue .take, .own 0 (.join (.ok {})), .complete 0]

/-- A queue of two places. -/
def twoPlaces : Setting := { windows := 4, capacity := 2, configured := true }

/-- Two workers that are at one rule at once. -/
theorem reports_delivered_two_workers :
    let s := reached twoPlaces twoWorkers
    s.reports.delivered.map Delivery.report ++ inHand s.reports.worker ++ s.reports.queue =
        s.handed.filterMap queued ∧
      (s.handed.map fun handed => handed.batch.number).Nodup ∧
      s.handed.map (fun handed => handed.batch.number) = [0, 1] ∧
      s.answers.map (fun answer => answer.batch.number) = [1, 0] ∧
      (s.handed.filterMap queued).map (fun report => (report.constraintIds, report.time)) =
        [(["r"], 0), (["r"], 1)] := by
  obtain ⟨⟨hsent, -⟩, ⟨honce, -⟩, -⟩ := reports_delivered twoPlaces twoWorkers
  exact ⟨hsent, honce, by decide +kernel, by decide +kernel, by decide +kernel⟩

end ViolationDelivery
