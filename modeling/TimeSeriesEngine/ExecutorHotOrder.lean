import TimeSeriesEngine.WindowUpdate
import TimeSeriesEngine.ExecutorCounts

/-!
# Hot updates in order of admission

A task waits for the tail of each of its sequences at its admission.  Every
earlier task with one of its sequences is reached over such tails (`Chained.linked`),
and all of them are earlier, so that the chain has no cycle: the oldest task in the
hands of a worker never waits.
-/

namespace ExecutorHotOrder

open TseTypes KeyedTable HotWindow WindowUpdate IngestExecutor ExecutorOwnership ExecutorCounts
  EventLog

variable {config : Config} {s : Executor}

/-! ## The sequences of a batch -/

theorem batchSequenceIds_fold (points : List RawTimeseriesPoint) (seen : List SequenceId) :
    points.foldl (fun seen point => pushUnique point.sequenceId seen) seen =
      (points.map (·.sequenceId)).foldl (fun acc id => pushUnique id acc) seen := by
  rw [List.foldl_map]

theorem mem_batchSequenceIds {points : List RawTimeseriesPoint} {id : SequenceId} :
    id ∈ batchSequenceIds points ↔ ∃ point ∈ points, point.sequenceId = id := by
  rw [batchSequenceIds, List.mem_insertionSort, batchSequenceIds_fold, mem_foldl_pushUnique,
    List.mem_map]
  simp

theorem batchSequenceIds_nodup (points : List RawTimeseriesPoint) :
    (batchSequenceIds points).Nodup := by
  rw [batchSequenceIds, batchSequenceIds_fold]
  exact (List.perm_insertionSort _ _).nodup_iff.mpr (nodup_foldl_pushUnique _ List.nodup_nil)

theorem sequenceKey_inj {projectId : ProjectId} {id id' : SequenceId}
    (h : sequenceKey projectId id = sequenceKey projectId id') : id = id' := by
  have hchars := congrArg String.toList h
  rw [sequenceKey, sequenceKey, String.toList_append, String.toList_append] at hchars
  exact String.toList_inj.mp (List.append_cancel_left hchars)

/-- The keys a task stands under in the hot tails. -/
def taskKeys (task : Task) : List String :=
  (batchSequenceIds task.data.points).map (sequenceKey task.data.projectId)

theorem taskKeys_nodup (task : Task) : (taskKeys task).Nodup :=
  (batchSequenceIds_nodup _).map fun _ _ h => sequenceKey_inj h

/-- The two tasks carry a point of the same sequence of the same project. -/
def Overlap (a b : Task) : Prop :=
  a.data.projectId = b.data.projectId ∧
    ∃ p ∈ a.data.points, ∃ q ∈ b.data.points, p.sequenceId = q.sequenceId

theorem Overlap.key {a b : Task} (h : Overlap a b) : ∃ key ∈ taskKeys a, key ∈ taskKeys b := by
  obtain ⟨hproject, p, hp, q, hq, heq⟩ := h
  refine ⟨sequenceKey a.data.projectId p.sequenceId, ?_, ?_⟩
  · exact List.mem_map_of_mem (mem_batchSequenceIds.mpr ⟨p, hp, rfl⟩)
  · rw [hproject]
    exact List.mem_map_of_mem (mem_batchSequenceIds.mpr ⟨q, hq, heq.symm⟩)

/-! ## The tails -/

/-- Linking a task makes it the tail of each of its keys. -/
theorem linkHotTails_find (t : Nat) (keys : List String) (tails : Table String Nat)
    (predecessors : List Nat) (key : String) :
    (linkHotTails t keys tails predecessors).1.find key =
      if key ∈ keys then some t else tails.find key := by
  induction keys generalizing tails predecessors with
  | nil => rfl
  | cons k ks ih =>
      rw [linkHotTails, ih, find_put]
      by_cases hks : key ∈ ks
      · rw [if_pos hks, if_pos (List.mem_cons_of_mem _ hks)]
      · rw [if_neg hks]
        refine if_congr ?_ rfl rfl
        rw [List.mem_cons]
        exact (or_iff_left hks).symm

/-- A task waits for the former tails of its sequences. -/
theorem linkHotTails_predecessors (t : Nat) {keys : List String} (hkeys : keys.Nodup)
    (tails : Table String Nat) (predecessors : List Nat) (p : Nat) :
    p ∈ (linkHotTails t keys tails predecessors).2 ↔
      p ∈ predecessors ∨ ∃ key ∈ keys, tails.find key = some p := by
  induction keys generalizing tails predecessors with
  | nil => simp [linkHotTails]
  | cons k ks ih =>
      obtain ⟨hk, hks⟩ := List.nodup_cons.mp hkeys
      rw [linkHotTails, ih hks]
      have hrest : (∃ key ∈ ks, (put k t tails).find key = some p) ↔
          ∃ key ∈ ks, tails.find key = some p := by
        refine exists_congr fun key => and_congr_right fun hkey => ?_
        have hne : key ≠ k := by
          rintro rfl
          exact hk hkey
        rw [find_put_of_ne hne]
      rw [hrest]
      cases htail : tails.find k with
      | none => simp [htail]
      | some q =>
          simp only [List.mem_append, List.mem_singleton, List.exists_mem_cons_iff, htail,
            Option.some.injEq, or_assoc]
          exact or_congr_right (or_congr_left eq_comm)

/-! ## The chain -/

/-- The task's callback may start before `t` is over: it is none that overlaps and
    was admitted earlier. -/
def InOrder (tasks : Nat → Task) (e : Event) (before : List Event) : Prop :=
  ∀ b, e = .started b .hot → ∀ a < b, Overlap (tasks a) (tasks b) → .returned a .hot ∈ before

/-- What the predecessors of a hot lane promise. -/
structure Chained (s : Executor) : Prop where
  earlier : ∀ t p, p ∈ (s.task t).hotPredecessors → p < t
  promise : ∀ t, (s.states t).hotOrderCompleted = true ↔ 4 ≤ progress (s.stage t .hot)
  awaited : ∀ t p, p ∈ (s.task t).hotPredecessors → s.stage t .hot = .queued ∨
    (∃ rest, s.stage t .hot = .waiting rest ∧ p ∈ rest) ∨ 4 ≤ progress (s.stage p .hot)
  awaiting : ∀ t rest, s.stage t .hot = .waiting rest →
    ∀ p ∈ rest, p ∈ (s.task t).hotPredecessors
  linked : ∀ key a t, a < t → t < s.tasks.length → key ∈ taskKeys (s.task a) →
    key ∈ taskKeys (s.task t) →
      ∃ c, a ≤ c ∧ key ∈ taskKeys (s.task c) ∧ c ∈ (s.task t).hotPredecessors
  latest : ∀ key t, t < s.tasks.length → key ∈ taskKeys (s.task t) →
    ∃ c, s.sequenceHotTails.find key = some c ∧ t ≤ c
  tail : ∀ key c, s.sequenceHotTails.find key = some c →
    c < s.tasks.length ∧ key ∈ taskKeys (s.task c)
  ordered : Licensed (InOrder s.task) s.log

/-- **THE CHAIN**: a task that has nothing left to wait for has all earlier tasks
    with one of its keys behind it. -/
theorem Chained.behind (h : Chained s) {b : Nat} (hb : b < s.tasks.length)
    (hstage : s.stage b .hot = .waiting [] ∨ 2 ≤ progress (s.stage b .hot)) {a : Nat}
    (hab : a < b) {key : String} (ha : key ∈ taskKeys (s.task a))
    (hkey : key ∈ taskKeys (s.task b)) : 4 ≤ progress (s.stage a .hot) := by
  induction b using Nat.strong_induction_on with
  | _ b ih =>
      obtain ⟨c, hac, hc, hpred⟩ := h.linked key a b hab hb ha hkey
      have hcb := h.earlier b c hpred
      -- the predecessor over this key is over
      have hover : 4 ≤ progress (s.stage c .hot) := by
        rcases h.awaited b c hpred with hqueued | ⟨rest, hwaiting, hin⟩ | hover
        · rw [hqueued] at hstage
          rcases hstage with hno | hno
          · cases hno
          · exact absurd hno (by decide)
        · rw [hwaiting] at hstage
          rcases hstage with hno | hno
          · cases hno
            cases hin
          · exact absurd hno (by simp [progress])
        · exact hover
      rcases Nat.eq_or_lt_of_le hac with rfl | hlt
      · exact hover
      · exact ih c hcb (by omega) (Or.inr (by omega)) hlt hc

theorem chained_init : Chained {} where
  earlier := fun t p hp => by cases hp
  promise := fun t => ⟨nofun, fun hle => absurd (show 4 ≤ 0 from hle) (by decide)⟩
  awaited := fun t p hp => by cases hp
  awaiting := fun t rest hrest => by cases hrest
  linked := fun key a t _ ht => absurd ht (Nat.not_lt_zero t)
  latest := fun key t ht => absurd ht (Nat.not_lt_zero t)
  tail := fun key c hc => by cases hc
  ordered := licensed_nil _

/-- A step that changes no task keeps the chains. -/
theorem Chained.quiet (h : Chained s) {s' : Executor} (hquiet : Quiet s s') : Chained s' := by
  have htask : s'.task = s.task := funext fun t => by
    rw [Executor.task, hquiet.tasks, Executor.task]
  refine ⟨?_, ?_, ?_, ?_, ?_, ?_, ?_, ?_⟩
  · rw [htask]
    exact h.earlier
  · rw [hquiet.states, hquiet.stage]
    exact h.promise
  · rw [htask, hquiet.stage]
    exact h.awaited
  · rw [htask, hquiet.stage]
    exact h.awaiting
  · rw [htask, hquiet.tasks]
    exact h.linked
  · rw [htask, hquiet.tasks, hquiet.tails]
    exact h.latest
  · rw [htask, hquiet.tasks, hquiet.tails]
    exact h.tail
  · rw [htask]
    rcases hquiet.log with hsame | ⟨call, result, hsame⟩
    · rw [hsame]
      exact h.ordered
    · rw [hsame]
      exact licensed_snoc h.ordered fun b hb => by cases hb

/-- The admitted task waits for the former tails of its keys. -/
theorem admit_predecessors (submission : Submission) (p : Nat) :
    p ∈ ((admitTask config submission s).task s.tasks.length).hotPredecessors ↔
      ∃ key ∈ taskKeys (newTask submission s), s.sequenceHotTails.find key = some p := by
  rw [admit_task_new]
  refine (linkHotTails_predecessors s.tasks.length (taskKeys_nodup (newTask submission s))
    s.sequenceHotTails [] p).trans ?_
  exact or_iff_right List.not_mem_nil

/-- The admitted task is the tail of its keys from then on. -/
theorem admit_tails (submission : Submission) (key : String) :
    (admitTask config submission s).sequenceHotTails.find key =
      if key ∈ taskKeys (newTask submission s) then some s.tasks.length
      else s.sequenceHotTails.find key :=
  linkHotTails_find s.tasks.length (taskKeys (newTask submission s)) _ [] key

/-- A task admitted is linked behind the last one with its key. -/
theorem Chained.linked_admit (h : Chained s) (submission : Submission) {key : String} {a t : Nat}
    (hat : a < t) (ht : t < (admitTask config submission s).tasks.length)
    (ha : key ∈ taskKeys ((admitTask config submission s).task a))
    (hkey : key ∈ taskKeys ((admitTask config submission s).task t)) :
    ∃ c, a ≤ c ∧ key ∈ taskKeys ((admitTask config submission s).task c) ∧
      c ∈ ((admitTask config submission s).task t).hotPredecessors := by
  rw [admit_length] at ht
  rw [admit_task_old submission (by omega)] at ha
  by_cases hlt : t < s.tasks.length
  · rw [admit_task_old submission hlt] at hkey ⊢
    obtain ⟨c, hac, hc, hpred⟩ := h.linked key a t hat hlt ha hkey
    have hct := h.earlier t c hpred
    exact ⟨c, hac, by rwa [admit_task_old submission (by omega)], hpred⟩
  · -- the new task: the tail of the key is no earlier than `a`
    obtain rfl : t = s.tasks.length := by omega
    rw [admit_task_new] at hkey
    obtain ⟨c, hfind, hac⟩ := h.latest key a hat ha
    obtain ⟨hlt, hc⟩ := h.tail key c hfind
    exact ⟨c, hac, by rwa [admit_task_old submission hlt],
      (admit_predecessors submission c).mpr ⟨key, hkey, hfind⟩⟩

/-- The tail of a key is its last task. -/
theorem Chained.latest_admit (h : Chained s) (submission : Submission) {key : String} {t : Nat}
    (ht : t < (admitTask config submission s).tasks.length)
    (hkey : key ∈ taskKeys ((admitTask config submission s).task t)) :
    ∃ c, (admitTask config submission s).sequenceHotTails.find key = some c ∧ t ≤ c := by
  rw [admit_length] at ht
  rw [admit_tails]
  by_cases hin : key ∈ taskKeys (newTask submission s)
  · exact ⟨s.tasks.length, if_pos hin, by omega⟩
  · rw [if_neg hin]
    by_cases hlt : t < s.tasks.length
    · rw [admit_task_old submission hlt] at hkey
      exact h.latest key t hlt hkey
    · obtain rfl : t = s.tasks.length := by omega
      rw [admit_task_new] at hkey
      exact absurd hkey hin

/-- The tail of a key is a task with the key. -/
theorem Chained.tail_admit (h : Chained s) (submission : Submission) {key : String} {c : Nat}
    (hfind : (admitTask config submission s).sequenceHotTails.find key = some c) :
    c < (admitTask config submission s).tasks.length ∧
      key ∈ taskKeys ((admitTask config submission s).task c) := by
  rw [admit_tails] at hfind
  rw [admit_length]
  by_cases hin : key ∈ taskKeys (newTask submission s)
  · rw [if_pos hin] at hfind
    cases hfind
    rw [admit_task_new]
    exact ⟨Nat.lt_succ_self _, hin⟩
  · rw [if_neg hin] at hfind
    obtain ⟨hlt, hc⟩ := h.tail key c hfind
    rw [admit_task_old submission hlt]
    exact ⟨by omega, hc⟩

/-- A task that has started was admitted before. -/
theorem started_admitted (howned : Owned config s) (hcounted : Counted config s) {b : Nat}
    (hmem : .started b .hot ∈ s.log) : b < s.tasks.length := by
  have hbegun := (hcounted.mem_log (e := .started b .hot) rfl).mp hmem
  by_contra hge
  rw [howned.unadmitted (Nat.le_of_not_lt hge) .hot] at hbegun
  exact absurd hbegun (by decide)

/-- Admitting a task keeps the chains. -/
theorem Chained.admitTask (h : Chained s) (howned : Owned config s) (hcounted : Counted config s)
    (submission : Submission) : Chained (admitTask config submission s) := by
  have hlength := admit_length config submission s
  have hold : ∀ t, t < s.tasks.length →
      (IngestExecutor.admitTask config submission s).task t = s.task t :=
    fun t ht => admit_task_old submission ht
  have hqueued : s.stage s.tasks.length .hot = .queued :=
    howned.unadmitted (Nat.le_refl _) .hot
  have hbeyond : ∀ t, s.tasks.length < t →
      (IngestExecutor.admitTask config submission s).task t = {} :=
    fun t ht => task_unadmitted (by rw [hlength]; omega)
  refine ⟨?_, ?_, ?_, ?_, fun _ _ _ => h.linked_admit submission,
    fun _ _ => h.latest_admit submission, fun _ _ => h.tail_admit submission, ?_⟩
  · intro t p hp
    rcases Nat.lt_trichotomy t s.tasks.length with hlt | rfl | hgt
    · rw [hold t hlt] at hp
      exact h.earlier t p hp
    · obtain ⟨key, -, hkey⟩ := (admit_predecessors submission p).mp hp
      exact (h.tail key p hkey).1
    · rw [hbeyond t hgt] at hp
      cases hp
  · intro t
    show (Function.update s.states s.tasks.length _ t).hotOrderCompleted = true ↔
      4 ≤ progress (s.stage t .hot)
    by_cases ht : t = s.tasks.length
    · rw [ht, Function.update_self, hqueued]
      exact ⟨nofun, fun hle => absurd (show 4 ≤ 0 from hle) (by decide)⟩
    · rw [Function.update_of_ne ht]
      exact h.promise t
  · intro t p hp
    rcases Nat.lt_trichotomy t s.tasks.length with hlt | rfl | hgt
    · rw [hold t hlt] at hp
      exact h.awaited t p hp
    · exact Or.inl hqueued
    · rw [hbeyond t hgt] at hp
      cases hp
  · intro t rest hrest p hp
    have hlt : t < s.tasks.length := by
      by_contra hge
      have hstage := howned.unadmitted (Nat.le_of_not_lt hge) .hot
      rw [show s.stage t .hot = .waiting rest from hrest] at hstage
      cases hstage
    rw [hold t hlt]
    exact h.awaiting t rest hrest p hp
  · refine licensed_snoc (h.ordered.mono ?_) fun b hb => by cases hb
    rintro x hx before hlicence b rfl a hab hover
    have hlt := started_admitted howned hcounted hx
    rw [hold b hlt, hold a (by omega)] at hover
    exact hlicence b rfl a hab hover

/-- A pop or a step of a cold worker changes none of what the chain is made of. -/
theorem Chained.congr (h : Chained s) {s' : Executor} (htasks : s'.tasks = s.tasks)
    (htails : s'.sequenceHotTails = s.sequenceHotTails)
    (hpromise : ∀ t, (s'.states t).hotOrderCompleted = (s.states t).hotOrderCompleted)
    (hstage : ∀ t, s'.stage t .hot = s.stage t .hot)
    (hordered : Licensed (InOrder s.task) s'.log) : Chained s' := by
  have htask : s'.task = s.task := funext fun t => by
    rw [Executor.task, htasks, Executor.task]
  refine ⟨?_, ?_, ?_, ?_, ?_, ?_, ?_, ?_⟩
  · rw [htask]
    exact h.earlier
  · intro t
    rw [hpromise, hstage]
    exact h.promise t
  · intro t p
    rw [htask, hstage, hstage]
    exact h.awaited t p
  · intro t
    rw [htask, hstage]
    exact h.awaiting t
  · rw [htask, htasks]
    exact h.linked
  · rw [htask, htasks, htails]
    exact h.latest
  · rw [htask, htasks, htails]
    exact h.tail
  · rw [htask]
    exact hordered

/-- A hot lane goes through its waits, starts its callback, and does not go back. -/
theorem Moves.hot {t : Nat} {effect : Effect} (h : Moves s t .hot effect) :
    ((∃ p rest, s.stage t .hot = .waiting (p :: rest) ∧ effect.stage = .waiting rest ∧
          (s.states p).hotOrderCompleted = true ∧ effect.events = []) ∨
        (s.stage t .hot = .waiting [] ∧ effect.stage = .calling ∧
          effect.events = [.started t .hot]) ∨
        (2 ≤ progress (s.stage t .hot) ∧ 2 ≤ progress effect.stage ∧
          (effect.events = [] ∨ ∃ e, effect.events = [e] ∧ ∀ b, e ≠ .started b .hot))) ∧
      (effect.state.hotOrderCompleted = true ↔
        (s.states t).hotOrderCompleted = true ∨ progress (s.stage t .hot) = 3) ∧
      (4 ≤ progress effect.stage ↔
        4 ≤ progress (s.stage t .hot) ∨ progress (s.stage t .hot) = 3) := by
  cases h with
  | waited hstage hdone =>
      rw [hstage]
      exact ⟨Or.inl ⟨_, _, rfl, rfl, hdone, rfl⟩, by simp [progress], by simp [progress]⟩
  | start hstage =>
      rw [hstage]
      exact ⟨Or.inr (Or.inl ⟨rfl, rfl, rfl⟩), by simp [progress], by simp [progress]⟩
  | hotReturn _ hstage | order hstage | answer _ _ hstage | announce hstage | countLast hstage
  | count hstage | finish hstage | release hstage =>
      rw [hstage]
      exact ⟨Or.inr (Or.inr (by simp [progress])), by simp [progress], by simp [progress]⟩

/-- A cold lane has no part in the order of the hot ones. -/
theorem Moves.cold {t index : Nat} {effect : Effect} (h : Moves s t (.cold index) effect) :
    effect.state.hotOrderCompleted = (s.states t).hotOrderCompleted ∧
      (effect.events = [] ∨ ∃ e, effect.events = [e] ∧ ∀ b, e ≠ .started b .hot) := by
  cases h with
  | start hstage | coldReturn _ hstage | merge _ _ hstage | countLast hstage | count hstage
  | finish hstage | release hstage => exact ⟨rfl, by simp⟩

/-- A wait that is over has found its predecessor done; the others stay. -/
theorem Chained.awaited_next (h : Chained s) {t : Nat} {effect : Effect}
    (hmoves : Moves s t .hot effect) {p : Nat} (hp : p ∈ (s.task t).hotPredecessors) :
    (∃ rest, effect.stage = .waiting rest ∧ p ∈ rest) ∨ 4 ≤ progress (s.stage p .hot) := by
  have hold := h.awaited t p hp
  rcases (Moves.hot hmoves).1 with ⟨q, rest, hstage, hnew, hdone, -⟩ | ⟨hstage, -, -⟩ |
    ⟨hle, -, -⟩
  · rw [hstage] at hold
    rcases hold with hno | ⟨rest', heq, hin⟩ | hover
    · cases hno
    · cases heq
      rcases List.mem_cons.mp hin with rfl | hin
      · -- the predecessor waited for keeps its promise
        exact Or.inr ((h.promise p).mp hdone)
      · exact Or.inl ⟨rest, hnew, hin⟩
    · exact Or.inr hover
  · rw [hstage] at hold
    rcases hold with hno | ⟨rest', heq, hin⟩ | hover
    · cases hno
    · cases heq
      cases hin
    · exact Or.inr hover
  · rcases hold with hno | ⟨rest', heq, -⟩ | hover
    · rw [hno] at hle
      exact absurd (show 2 ≤ 0 from hle) (by decide)
    · rw [heq] at hle
      exact absurd (show 2 ≤ 1 from hle) (by decide)
    · exact Or.inr hover

/-- A task awaits its own predecessors only. -/
theorem Chained.awaiting_next (h : Chained s) {t : Nat} {effect : Effect}
    (hmoves : Moves s t .hot effect) {rest : List Nat} (hrest : effect.stage = .waiting rest)
    {p : Nat} (hp : p ∈ rest) : p ∈ (s.task t).hotPredecessors := by
  rcases (Moves.hot hmoves).1 with ⟨q, rest', hstage, hnew, -, -⟩ | ⟨-, hnew, -⟩ | ⟨-, hle, -⟩
  · rw [hnew] at hrest
    cases hrest
    exact h.awaiting t _ hstage p (List.mem_cons_of_mem _ hp)
  · rw [hnew] at hrest
    cases hrest
  · rw [hrest] at hle
    exact absurd (show 2 ≤ 1 from hle) (by decide)

/-- A callback that starts has everything in front of it in the chain behind it. -/
theorem Chained.ordered_next (h : Chained s) (hcounted : Counted config s) {t : Nat}
    (ht : t < s.tasks.length) {effect : Effect} (hmoves : Moves s t .hot effect) :
    Licensed (InOrder s.task) (s.log ++ effect.events) := by
  rcases (Moves.hot hmoves).1 with ⟨q, rest, -, -, -, hnone⟩ | ⟨hstage, -, hone⟩ |
    ⟨-, -, hnone | ⟨e, hone, hne⟩⟩
  · rw [hnone, List.append_nil]
    exact h.ordered
  · rw [hone]
    refine licensed_snoc h.ordered ?_
    intro b hb a hab hoverlap
    cases hb
    obtain ⟨key, ha, hkey⟩ := hoverlap.key
    have hbehind := h.behind ht (Or.inl hstage) hab ha hkey
    exact (hcounted.mem_log (e := .returned a .hot) rfl).mpr (by omega)
  · rw [hnone, List.append_nil]
    exact h.ordered
  · rw [hone]
    exact licensed_snoc h.ordered fun b hb => absurd hb (hne b)

/-- A step on a cold lane keeps the chains. -/
theorem Chained.workCold (h : Chained s) {w : Worker} {t index : Nat} {effect : Effect}
    (hlane : w.lane = .cold index) (hmoves : Moves s t (.cold index) effect) :
    Chained (applyEffect s w t effect) := by
  obtain ⟨hpromise, hevents⟩ := Moves.cold hmoves
  refine h.congr rfl rfl ?_ ?_ ?_
  · intro t'
    by_cases ht : t' = t
    · rw [ht, applyEffect_states_self, hpromise]
    · rw [applyEffect_states_other s w t effect t' ht]
  · refine fun t' => applyEffect_stage_other s w t effect t' .hot fun heq => ?_
    rw [hlane] at heq
    cases heq.2
  · show Licensed (InOrder s.task) (s.log ++ effect.events)
    rcases hevents with hnone | ⟨e, hone, hne⟩
    · rw [hnone, List.append_nil]
      exact h.ordered
    · rw [hone]
      exact licensed_snoc h.ordered fun b hb => absurd hb (hne b)

/-- A step on the hot lane keeps the chains. -/
theorem Chained.workHot (h : Chained s) (hcounted : Counted config s) {w : Worker} {t : Nat}
    (ht : t < s.tasks.length) {effect : Effect} (hlane : w.lane = .hot)
    (hmoves : Moves s t .hot effect) : Chained (applyEffect s w t effect) := by
  have hstageOther := applyEffect_stage_other s w t effect
  have hstageOwn := applyEffect_stage_self s w t effect
  have hstateOwn := applyEffect_states_self s w t effect
  have hstateOther := applyEffect_states_other s w t effect
  rw [hlane] at hstageOwn hstageOther
  obtain ⟨-, hpromise, hover⟩ := Moves.hot hmoves
  -- what is over stays over
  have hkept : ∀ p, 4 ≤ progress (s.stage p .hot) →
      4 ≤ progress ((applyEffect s w t effect).stage p .hot) := by
    intro p hp
    by_cases hpt : p = t
    · subst hpt
      rw [hstageOwn]
      exact hover.mpr (Or.inl hp)
    · rw [hstageOther p .hot fun heq => hpt heq.1]
      exact hp
  refine ⟨h.earlier, ?_, ?_, ?_, h.linked, h.latest, h.tail, h.ordered_next hcounted ht hmoves⟩
  · intro t'
    by_cases ht : t' = t
    · subst ht
      rw [hstateOwn, hstageOwn, hpromise, hover, h.promise]
    · rw [hstateOther t' ht, hstageOther t' .hot fun heq => ht heq.1]
      exact h.promise t'
  · intro t' p hp
    by_cases ht : t' = t
    · subst ht
      rw [hstageOwn]
      exact Or.inr ((h.awaited_next hmoves hp).imp_right (hkept p))
    · rw [hstageOther t' .hot fun heq => ht heq.1]
      exact (h.awaited t' p hp).imp_right (Or.imp_right (hkept p))
  · intro t' rest hrest p hp
    by_cases ht : t' = t
    · subst ht
      rw [hstageOwn] at hrest
      exact h.awaiting_next hmoves hrest hp
    · rw [hstageOther t' .hot fun heq => ht heq.1] at hrest
      exact h.awaiting t' rest hrest p hp

/-- Every step of a worker keeps them. -/
theorem Chained.work (h : Chained s) (howned : Owned config s) (hcounted : Counted config s)
    {w : Worker} {t : Nat} {effect : Effect} (hholding : s.holding w = some t)
    (hmoves : Moves s t w.lane effect) : Chained (applyEffect s w t effect) := by
  obtain ⟨-, ⟨hadmitted, -⟩, -⟩ := howned.holds w t hholding
  cases hlane : w.lane with
  | cold index =>
      rw [hlane] at hmoves
      exact h.workCold hlane hmoves
  | hot =>
      rw [hlane] at hmoves
      exact h.workHot hcounted hadmitted hlane hmoves

/-- Taking a task off a queue keeps them. -/
theorem Chained.pop (h : Chained s) (howned : Owned config s) {w : Worker} {t : Nat}
    {rest : List Nat} (hqueue : s.queue w.lane = t :: rest) : Chained (afterPop s w t) := by
  obtain ⟨-, hqueued⟩ := howned.head hqueue
  have hstageOther := afterPop_stage_other s w t
  have hstageOwn := afterPop_stage_self s w t
  cases hlane : w.lane with
  | cold index =>
      have hrest : (afterPop s w t).tasks = s.tasks ∧
          (afterPop s w t).sequenceHotTails = s.sequenceHotTails ∧
          (afterPop s w t).states = s.states ∧ (afterPop s w t).log = s.log := by
        rw [afterPop, hlane]
        exact ⟨rfl, rfl, rfl, rfl⟩
      obtain ⟨htasks, htails, hstates, hlog⟩ := hrest
      refine h.congr htasks htails (fun t' => by rw [hstates]) ?_ ?_
      · exact fun t' => hstageOther t' .hot fun heq => by
          rw [hlane] at heq
          cases heq.2
      · rw [hlog]
        exact h.ordered
  | hot =>
      rw [hlane] at hqueued hstageOwn hstageOther
      have hrest : (afterPop s w t).task = s.task ∧
          (afterPop s w t).tasks = s.tasks ∧
          (afterPop s w t).sequenceHotTails = s.sequenceHotTails ∧
          (afterPop s w t).states = s.states ∧ (afterPop s w t).log = s.log := by
        rw [afterPop, hlane]
        exact ⟨rfl, rfl, rfl, rfl, rfl⟩
      obtain ⟨htask, htasks, htails, hstates, hlog⟩ := hrest
      have hprogress : ∀ p, 4 ≤ progress ((afterPop s w t).stage p .hot) ↔
          4 ≤ progress (s.stage p .hot) := by
        intro p
        by_cases hp : p = t
        · subst hp
          rw [hstageOwn, hqueued]
          exact ⟨fun hle => absurd (show 4 ≤ 1 from hle) (by decide),
            fun hle => absurd (show 4 ≤ 0 from hle) (by decide)⟩
        · rw [hstageOther p .hot fun heq => hp heq.1]
      refine ⟨?_, ?_, ?_, ?_, ?_, ?_, ?_, ?_⟩
      · rw [htask]
        exact h.earlier
      · intro t'
        rw [hstates, hprogress]
        exact h.promise t'
      · intro t' p hp
        rw [htask] at hp
        rw [hprogress]
        by_cases ht : t' = t
        · subst ht
          rw [hstageOwn]
          exact Or.inr (Or.inl ⟨_, rfl, hp⟩)
        · rw [hstageOther t' .hot fun heq => ht heq.1]
          exact h.awaited t' p hp
      · intro t' rest' hrest' p hp
        rw [htask]
        by_cases ht : t' = t
        · subst ht
          rw [hstageOwn] at hrest'
          cases hrest'
          exact hp
        · rw [hstageOther t' .hot fun heq => ht heq.1] at hrest'
          exact h.awaiting t' rest' hrest' p hp
      · rw [htask, htasks]
        exact h.linked
      · rw [htask, htasks, htails]
        exact h.latest
      · rw [htask, htasks, htails]
        exact h.tail
      · rw [htask, hlog]
        exact h.ordered

/-- What the proofs about runs use. -/
structure Settled (config : Config) (s : Executor) : Prop where
  counted : Counted config s
  chained : Chained s

/-- Every step keeps the counts and the chains. -/
theorem Settled.step (h : Settled config s) (howned : Owned config s) {s' : Executor}
    (hstep : Stepped config s s') : Settled config s' := by
  refine ⟨h.counted.step howned hstep, ?_⟩
  rcases hstep.shape with hquiet | ⟨call, submission, hcall, hrouted, hopen, hroom, rfl⟩ |
    ⟨w, t, rest, hqueue, rfl⟩ | ⟨w, t, effect, hholding, hmoves, rfl⟩
  · exact h.chained.quiet hquiet
  · have hquiet : Quiet s { s with submissions := Function.update s.submissions call none } :=
      ⟨rfl, rfl, rfl, rfl, rfl, rfl, rfl, rfl, Or.inl rfl⟩
    exact (h.chained.quiet hquiet).admitTask (howned.forget call) (h.counted.quiet hquiet) submission
  · exact h.chained.pop howned hqueue
  · exact h.chained.work howned h.counted hholding hmoves

theorem reached_settled (config : Config) (actions : List Action) :
    Owned config (reached config actions) ∧ Settled config (reached config actions) :=
  reached_invariant config ⟨counted_init config, chained_init⟩
    (fun _ _ howned h hstep => h.step howned hstep) actions

/-! ## No deadlock -/

/-- What the callback of a lane can do: return a result of its kind, or throw. -/
def Answers : Lane → Callback → Prop
  | .hot, .cold _ => False
  | .cold _, .hot _ => False
  | _, _ => True

/-- The worker has a step: it pops a task, or goes on with the one in its hands
    however the callback ends. -/
def CanMove (config : Config) (s : Executor) (w : Worker) : Prop :=
  (IngestExecutor.step config s (.pop w)).isSome = true ∨
    ∀ callback, Answers w.lane callback →
      (IngestExecutor.step config s (.work w callback)).isSome = true

/-- The worker waits for the order promise of a task that is not set. -/
def Blocked (s : Executor) (t : Nat) (lane : Lane) : Prop :=
  ∃ p rest, s.stage t lane = .waiting (p :: rest) ∧ (s.states p).hotOrderCompleted = false

/-- An active lane that is not blocked can move. -/
theorem laneEffect_isSome {t : Nat} {lane : Lane} (hactive : Active (s.stage t lane))
    (hfree : ¬ Blocked s t lane) {callback : Callback} (hanswer : Answers lane callback) :
    (laneEffect s t lane callback).isSome = true := by
  simp only [laneEffect]
  cases hstage : s.stage t lane with
  | queued => exact absurd hstage hactive.1
  | waiting predecessors =>
      cases predecessors with
      | nil => rfl
      | cons p rest =>
          have hdone : (s.states p).hotOrderCompleted = true := by
            by_contra hnot
            exact hfree ⟨p, rest, hstage, Bool.eq_false_iff.mpr hnot⟩
          simp only [hdone, if_true]
          rfl
  | calling =>
      cases lane with
      | hot =>
          cases callback with
          | hot result => rfl
          | cold result => exact hanswer.elim
          | threw what => cases what <;> rfl
      | cold index =>
          cases callback with
          | hot result => exact hanswer.elim
          | cold result => rfl
          | threw what => cases what <;> rfl
  | done => exact absurd hstage hactive.2
  | _ => rfl

theorem canMove_of_held {w : Worker} {t : Nat} (hholding : s.holding w = some t)
    (hactive : Active (s.stage t w.lane)) (hfree : ¬ Blocked s t w.lane) : CanMove config s w := by
  refine Or.inr fun callback hanswer => ?_
  simp only [IngestExecutor.step, hholding, Option.isSome_map]
  exact laneEffect_isSome hactive hfree hanswer

/-- A worker the constructor starts for a lane. -/
def workerOf : Lane → Worker
  | .hot => .hot 0
  | .cold index => .cold index

theorem workerOf_lane (lane : Lane) : (workerOf lane).lane = lane := by
  cases lane with
  | hot => rfl
  | cold index => rfl

theorem workerOf_started {task : Task} {lane : Lane} (h : lane ∈ lanes config task) :
    started config (workerOf lane) = true := by
  cases lane with
  | hot => exact decide_eq_true config.hot_pos
  | cold index => exact decide_eq_true ((cold_mem_lanes config task index).mp h).1

/-- Where no task of a lane is in anybody's hands, a worker of it takes the next. -/
theorem canMove_of_queued (h : Owned config s) {t : Nat} {lane : Lane}
    (hlane : HasLane config s t lane) (hqueued : s.stage t lane = .queued)
    (hnone : ∀ t', ¬ Active (s.stage t' lane)) : CanMove config s (workerOf lane) := by
  have hmem : t ∈ s.queue lane := (h.queued lane t).mpr ⟨hlane, hqueued⟩
  have hfree : s.holding (workerOf lane) = none := by
    cases hholding : s.holding (workerOf lane) with
    | none => rfl
    | some t' =>
        have hactive := (h.holds _ t' hholding).2.2
        rw [workerOf_lane] at hactive
        exact absurd hactive (hnone t')
  have hstays : s.exited (workerOf lane) = false := by
    by_contra hexited
    have hempty := (h.exited _ (by simpa using hexited)).2.2
    rw [workerOf_lane] at hempty
    rw [hempty] at hmem
    cases hmem
  have hidle : idle config s (workerOf lane) = true := by
    rw [idle, workerOf_started hlane.2, hfree, hstays]
    rfl
  refine Or.inl ?_
  simp only [IngestExecutor.step, hidle, if_true, workerOf_lane]
  cases hqueue : s.queue lane with
  | nil =>
      rw [hqueue] at hmem
      cases hmem
  | cons t' rest => rfl

/-- A task that another one waits for is in the hands of a hot worker. -/
theorem Settled.awaited_held (h : Settled config s) (howned : Owned config s) {t p : Nat}
    {rest : List Nat} (hstage : s.stage t .hot = .waiting (p :: rest))
    (hopen : (s.states p).hotOrderCompleted = false) :
    p < t ∧ Active (s.stage p .hot) ∧ ∃ w, w.lane = .hot ∧ s.holding w = some p := by
  have hadmitted : t < s.tasks.length := by
    by_contra hge
    rw [howned.unadmitted (Nat.le_of_not_lt hge) .hot] at hstage
    cases hstage
  have hpt := h.chained.earlier t p
    (h.chained.awaiting t _ hstage p (List.mem_cons_self ..))
  -- it was popped before the one that waits, and it is not over
  have hpopped := howned.fifo .hot p t hpt ⟨by omega, hot_mem_lanes config _⟩
    (by rw [hstage]; nofun)
  have hactive : Active (s.stage p .hot) := by
    refine ⟨hpopped, fun hdone => ?_⟩
    have hover := (h.chained.promise p).mpr (by rw [hdone]; decide)
    exact absurd (hopen.symm.trans hover) Bool.false_ne_true
  exact ⟨hpt, hactive, howned.held p .hot hactive⟩

/-- Behind a blocked worker stands an older task in somebody's hands. -/
theorem Settled.canMove_of_active (h : Settled config s) (howned : Owned config s) {t : Nat}
    {lane : Lane} (hactive : Active (s.stage t lane)) :
    ∃ w, w.lane = lane ∧ CanMove config s w := by
  induction t using Nat.strong_induction_on with
  | _ t ih =>
      by_cases hblocked : Blocked s t lane
      · obtain ⟨p, rest, hstage, hunset⟩ := hblocked
        cases lane with
        | hot =>
            obtain ⟨hlt, hp, -⟩ := h.awaited_held howned hstage hunset
            exact ih p hlt hp
        | cold index =>
            have hfits := howned.fits t (.cold index)
            rw [hstage] at hfits
            cases hfits
      · obtain ⟨w, rfl, hholding⟩ := howned.held t lane hactive
        exact ⟨w, rfl, canMove_of_held hholding hactive hblocked⟩

/-- **NO DEADLOCK**: a lane that is not done has a worker with a step. -/
theorem Settled.canMove (h : Settled config s) (howned : Owned config s) {t : Nat} {lane : Lane}
    (hlane : HasLane config s t lane) (hopen : s.stage t lane ≠ .done) :
    ∃ w, w.lane = lane ∧ CanMove config s w := by
  by_cases hsome : ∃ t', Active (s.stage t' lane)
  · obtain ⟨t', hactive⟩ := hsome
    exact h.canMove_of_active howned hactive
  · refine ⟨workerOf lane, workerOf_lane lane, canMove_of_queued howned hlane ?_ ?_⟩
    · by_contra hqueued
      exact hsome ⟨t, hqueued, hopen⟩
    · exact fun t' hactive => hsome ⟨t', hactive⟩

/-! ## The contract -/

/-- **ORDER AND LIVENESS OF HOT UPDATES.**  After every interleaving: a task's update
    starts behind the return of the update of every earlier task it shares a sequence
    with; while a hot lane is not done some hot worker has a step; and a worker that
    waits does so for an older task in the hands of another. -/
theorem hot_updates_ordered (config : Config) (actions : List Action) :
    (∀ before after b, (reached config actions).log = before ++ .started b .hot :: after →
        ∀ a < b, Overlap ((reached config actions).task a) ((reached config actions).task b) →
          .returned a .hot ∈ before) ∧
      ((∃ t < (reached config actions).tasks.length,
          (reached config actions).stage t .hot ≠ .done) →
        ∃ w, w.lane = .hot ∧ CanMove config (reached config actions) w) ∧
      ∀ w t p rest, (reached config actions).holding w = some t →
        (reached config actions).stage t w.lane = .waiting (p :: rest) →
          ((reached config actions).states p).hotOrderCompleted = false →
            p < t ∧ ∃ w', w'.lane = .hot ∧ (reached config actions).holding w' = some p := by
  obtain ⟨howned, hsettled⟩ := reached_settled config actions
  refine ⟨?_, ?_, ?_⟩
  · intro before after b hlog
    exact hsettled.chained.ordered before _ after hlog b rfl
  · rintro ⟨t, ht, hopen⟩
    exact hsettled.canMove howned ⟨ht, hot_mem_lanes config _⟩ hopen
  · intro w t p rest hholding hstage hunset
    cases hlane : w.lane with
    | hot =>
        rw [hlane] at hstage
        obtain ⟨hlt, -, hheld⟩ := hsettled.awaited_held howned hstage hunset
        exact ⟨hlt, hheld⟩
    | cold index =>
        have hfits := howned.fits t w.lane
        rw [hstage, hlane] at hfits
        cases hfits

end ExecutorHotOrder
