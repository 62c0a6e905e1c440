import Mathlib.Data.Finset.Max
import TimeSeriesEngine.Library.LockScripts

/-!
# Mutexes inside mutexes

A second discipline for the programs of `LockScripts`: a thread may hold several mutexes
and takes each above all it holds, in a fixed order.  The programs here neither submit
tasks nor wait for them.

* **`Script.Ascending`** — every mutex is taken above those that are held, and all are
  given back.
* **`Nested.progress`** — then some thread can act while anything is left to do.
* **`Script.Keeps`** — the steps of a program keep an invariant of the data, by what the
  thread knows while it holds its mutexes.
* **`Guarded.run`** — the invariant holds in every run in which mutexes exclude.
-/

namespace LockScripts

open Transition

variable {M D P : Type} {n w : Nat}

/-! ## The order of the mutexes -/

section Order

variable [DecidableEq M]

/-- What a thread holds, without the modes. -/
def ThreadState.holding (self : ThreadState M D P n) : List M := self.held.map Prod.fst

/-- The script, of a thread that holds `holding`, takes each mutex above all it holds, gives
    back what it holds, and ends with nothing. -/
def Script.Ascending (rank : M → Nat) : Script M D → List M → Prop
  | .done, holding => holding = []
  | .lock mutex _ rest, holding | .blocked mutex _ rest, holding =>
      (∀ held ∈ holding, rank held < rank mutex) ∧ rest.Ascending rank (mutex :: holding)
  | .unlock mutex rest, holding =>
      mutex ∈ holding ∧ rest.Ascending rank (holding.erase mutex)
  | .read rest, holding => ∀ data, (rest data).Ascending rank holding
  | .write _ rest, holding => rest.Ascending rank holding
  | .submit _ _, _ | .await _, _ => False

/-! The rules of the order, for each kind of script that follows another. -/

section Rules

variable {rank : M → Nat} {mutex : M} {holding : List M} {rest : Script M D}

theorem ascending_done : (Script.done : Script M D).Ascending rank [] := rfl

theorem ascending_lock (hrest : rest.Ascending rank (mutex :: holding))
    (habove : ∀ held ∈ holding, rank held < rank mutex) :
    (Script.lock mutex .exclusive rest).Ascending rank holding :=
  ⟨habove, hrest⟩

theorem ascending_unlock (hrest : rest.Ascending rank holding) :
    (Script.unlock mutex rest).Ascending rank (mutex :: holding) := by
  refine ⟨List.mem_cons_self, ?_⟩
  rw [List.erase_cons_head]
  exact hrest

theorem ascending_read {body : D → Script M D}
    (hbody : ∀ data, (body data).Ascending rank holding) :
    (Script.read body).Ascending rank holding :=
  hbody

theorem ascending_write {change : D → D} (hrest : rest.Ascending rank holding) :
    (Script.write change rest).Ascending rank holding :=
  hrest

theorem ascending_ite {condition : Prop} [Decidable condition] {yes no : Script M D}
    (hyes : yes.Ascending rank holding) (hno : ¬ condition → no.Ascending rank holding) :
    (if condition then yes else no).Ascending rank holding := by
  split
  · exact hyes
  · rename_i hcondition
    exact hno hcondition

/-- A script that ends early or goes on. -/
theorem ascending_guard {condition : Prop} [Decidable condition] {rest : Script M D}
    (hrest : ¬ condition → rest.Ascending rank []) :
    (if condition then .done else rest).Ascending rank [] :=
  ascending_ite ascending_done hrest

end Rules

/-- The thread is inside an ascending script. -/
def ThreadState.Ascends (rank : M → Nat) (self : ThreadState M D P n) : Prop :=
  self.script.Ascending rank self.holding

/-- Every thread is inside an ascending script, and the pool has nothing to do. -/
structure Nested (rank : M → Nat) (state : State M D P n w) : Prop where
  ascends : ∀ thread, (state.threads thread).Ascends rank
  idle : state.queue = []

theorem nested_start (rank : M → Nat) (data : D) :
    Nested rank ({ data := data } : State M D P n w) where
  ascends _ := rfl
  idle := rfl

/-- One thread moves, and goes on ascending. -/
theorem Nested.update {rank : M → Nat} {state : State M D P n w} (h : Nested rank state)
    {thread : Thread n w} {changed : ThreadState M D P n} (hchanged : changed.Ascends rank) :
    Nested rank (state.setThread thread changed) := by
  refine ⟨fun other => ?_, h.idle⟩
  show (Function.update state.threads thread changed other).Ascends rank
  by_cases hother : other = thread
  · rw [hother, Function.update_self]
    exact hchanged
  · rw [Function.update_of_ne hother]
    exact h.ascends other

/-- Giving a mutex back takes its first hold away. -/
theorem holding_unlock (held : List (M × Mode)) (mutex : M) :
    (held.eraseP fun hold => hold.1 = mutex).map Prod.fst = (held.map Prod.fst).erase mutex := by
  induction held with
  | nil => rfl
  | cons hold held ih =>
      by_cases hfirst : hold.1 = mutex
      · rw [List.eraseP_cons_of_pos (by simpa using hfirst), List.map_cons, hfirst,
          List.erase_cons_head]
      · rw [List.eraseP_cons_of_neg (by simpa using hfirst), List.map_cons, List.map_cons, ih,
          List.erase_cons_tail (by simpa using hfirst)]

/-- **An action of a thread.**  One case for each kind of script. -/
theorem Nested.act {rank : M → Nat} {state : State M D P n w} (h : Nested rank state)
    (thread : Thread n w) : Nested rank (act state thread) := by
  have hself := h.ascends thread
  rw [ThreadState.Ascends] at hself
  cases hscript : (state.threads thread).script with
  | done =>
      cases thread with
      | inl client =>
          simp only [LockScripts.act, hscript]
          exact h
      | inr worker =>
          simp only [LockScripts.act, hscript, h.idle]
          exact h
  | lock mutex mode rest =>
      rw [hscript] at hself
      simp only [LockScripts.act, hscript]
      exact h.update hself
  | blocked mutex mode rest =>
      rw [hscript] at hself
      simp only [LockScripts.act, hscript]
      exact h.update hself.2
  | unlock mutex rest =>
      rw [hscript] at hself
      simp only [LockScripts.act, hscript]
      refine h.update ?_
      show rest.Ascending rank (List.map Prod.fst _)
      rw [holding_unlock]
      exact hself.2
  | read rest =>
      rw [hscript] at hself
      simp only [LockScripts.act, hscript]
      exact h.update (hself state.data)
  | write change rest =>
      rw [hscript] at hself
      simp only [LockScripts.act, hscript]
      have hkept : Nested rank { state with data := change state.data } := ⟨h.ascends, h.idle⟩
      exact hkept.update hself
  | submit task rest =>
      rw [hscript] at hself
      exact hself.elim
  | await rest =>
      rw [hscript] at hself
      exact hself.elim

/-- **A step** keeps every thread inside an ascending script. -/
theorem Nested.step {rank : M → Nat} {scriptOf : P → Script M D}
    (hprograms : ∀ program, (scriptOf program).Ascending rank [])
    {state : State M D P n w} (h : Nested rank state) (action : Step P n w) :
    Nested rank (step scriptOf state action) := by
  cases action with
  | start client program =>
      simp only [LockScripts.step]
      split
      · rename_i hdone
        have hself := h.ascends (.inl client)
        have hupdated : Nested rank (state.setThread (.inl client)
            { state.threads (.inl client) with
              script := scriptOf program
              program := some program }) := by
          refine h.update ?_
          cases hscript : (state.threads (.inl client)).script with
          | done =>
              rw [ThreadState.Ascends, hscript] at hself
              have hnone : (state.threads (.inl client)).holding = [] := hself
              show (scriptOf program).Ascending rank (state.threads (.inl client)).holding
              rw [hnone]
              exact hprograms program
          | _ => simp [hscript, Script.isDone] at hdone
        exact ⟨hupdated.ascends, hupdated.idle⟩
      · exact ⟨h.ascends, h.idle⟩
  | act thread => exact ⟨(h.act thread).ascends, (h.act thread).idle⟩

/-- **Every reachable state** is nested. -/
theorem nested_run {rank : M → Nat} {scriptOf : P → Script M D}
    (hprograms : ∀ program, (scriptOf program).Ascending rank []) (data : D)
    (steps : List (Step P n w)) :
    Nested rank (run (step scriptOf) { data := data } steps) :=
  @run_invariant _ _ (step scriptOf) (Nested rank) (fun _ => True)
    (fun _ action _ h => h.step hprograms action) _ (nested_start rank data) _ fun _ _ => trivial

end Order

/-! ## Nobody is stuck -/

section Progress

variable {rank : M → Nat} {state : State M D P n w}

/-- A thread waits above all it holds. -/
theorem Nested.above_of_waits [DecidableEq M] (h : Nested rank state) {thread : Thread n w}
    {mutex : M} (hwaits : Waits state thread mutex) :
    ∀ held ∈ (state.threads thread).holding, rank held < rank mutex := by
  obtain ⟨mode, rest, hscript⟩ := hwaits.script_eq
  have hself := h.ascends thread
  rw [ThreadState.Ascends, hscript] at hself
  exact hself.1

/-- **No thread asks for a mutex it holds.** -/
theorem Nested.not_requestsHeld [DecidableEq M] (h : Nested rank state) (thread : Thread n w) :
    ¬ RequestsHeld state thread := by
  rintro ⟨mutex, hwaits, hold, hmem, rfl⟩
  exact absurd (h.above_of_waits hwaits hold.1 (List.mem_map_of_mem hmem)) (lt_irrefl _)

/-- Where nobody can act, a thread that is not done waits. -/
theorem Nested.waits_of_idle [DecidableEq M] (h : Nested rank state)
    {admits : Policy M D P n w} (hidle : ∀ thread, ¬ CanAct admits state thread)
    {thread : Thread n w} (hleft : (state.threads thread).script.isDone = false) :
    ∃ mutex, Waits state thread mutex := by
  have hstuck := hidle thread
  have hself := h.ascends thread
  rw [ThreadState.Ascends] at hself
  cases hscript : (state.threads thread).script with
  | done =>
      rw [hscript] at hleft
      cases hleft
  | blocked mutex mode rest => exact ⟨mutex, mode, by rw [hscript]; rfl⟩
  | lock mutex mode rest | unlock mutex rest | read rest | write change rest =>
      simp [CanAct, CanRun, hscript] at hstuck
  | submit task rest | await rest =>
      rw [hscript] at hself
      exact hself.elim

/-- Of the mutexes that are waited for, the highest: nobody holds it, since its holder
    would wait above it. -/
theorem Nested.unheld_of_idle [DecidableEq M] (h : Nested rank state)
    {admits : Policy M D P n w} (hidle : ∀ thread, ¬ CanAct admits state thread) {mutex : M}
    (hhighest : ∀ other mutex', Waits state other mutex' → rank mutex' ≤ rank mutex) :
    Unheld state mutex := by
  rintro other hold hmem rfl
  have hholding : hold.1 ∈ (state.threads other).holding := List.mem_map_of_mem hmem
  have hleft : (state.threads other).script.isDone = false := by
    have hself := h.ascends other
    rw [ThreadState.Ascends] at hself
    cases hscript : (state.threads other).script with
    | done =>
        rw [hscript] at hself
        rw [show (state.threads other).holding = [] from hself] at hholding
        exact absurd hholding List.not_mem_nil
    | _ => rfl
  obtain ⟨above, hwaits⟩ := h.waits_of_idle hidle hleft
  have hbelow := h.above_of_waits hwaits hold.1 hholding
  exact absurd (hhighest other above hwaits) (not_le.mpr hbelow)

/-- **Some thread can act**, unless nothing is left to do. -/
theorem Nested.progress [DecidableEq M] (h : Nested rank state) {admits : Policy M D P n w}
    (hlawful : Lawful admits) (hleft : ¬ Finished state) :
    ∃ thread, CanAct admits state thread := by
  classical
  by_contra hstuck
  have hidle : ∀ thread, ¬ CanAct admits state thread := not_exists.mp hstuck
  obtain ⟨thread, hthread⟩ : ∃ thread, (state.threads thread).script.isDone = false := by
    by_contra hnone
    refine hleft ⟨fun thread => ?_, h.idle⟩
    exact Bool.not_eq_false _ ▸ not_exists.mp hnone thread
  let requested (thread : Thread n w) : Nat :=
    match (state.threads thread).script.request with
    | some (mutex, _) => rank mutex
    | none => 0
  have hrequested : ∀ {thread mutex}, Waits state thread mutex → requested thread = rank mutex := by
    rintro thread mutex ⟨mode, hrequest⟩
    simp only [requested, hrequest]
  obtain ⟨highest, hwaiting, hmost⟩ := Finset.exists_max_image
    (Finset.univ.filter fun thread => ∃ mutex, Waits state thread mutex) requested
    ⟨thread, Finset.mem_filter.mpr ⟨Finset.mem_univ _, h.waits_of_idle hidle hthread⟩⟩
  obtain ⟨mutex, hwaits⟩ := (Finset.mem_filter.mp hwaiting).2
  have hunheld : Unheld state mutex := by
    refine h.unheld_of_idle hidle fun other mutex' hother => ?_
    rw [← hrequested hother, ← hrequested hwaits]
    exact hmost other (Finset.mem_filter.mpr ⟨Finset.mem_univ _, mutex', hother⟩)
  obtain ⟨admitted, hadmitted, hadmits⟩ := hlawful state mutex hunheld ⟨highest, hwaits⟩
  obtain ⟨mode, rest, hscript⟩ := hadmitted.script_eq
  refine hidle admitted ?_
  simp only [CanAct, CanRun, hscript]
  exact ⟨fun other hold hmem hsame => absurd hsame (hunheld other hold hmem), hadmits⟩

end Progress

/-! ## What a thread knows while it holds its mutexes

A thread may change the data as its mutexes allow.  It knows what it has read, as long as
no thread that holds other mutexes can make that false. -/

section Knowledge

/-- An invariant of the data, and how a thread that holds some mutexes may change it. -/
structure Discipline (M D : Type) where
  invariant : D → Prop
  allows : List M → D → D → Prop

/-- The others cannot make it false. -/
def Discipline.Stable (rules : Discipline M D) (holding : List M) (known : D → Prop) : Prop :=
  ∀ others data data', (∀ mutex ∈ others, mutex ∉ holding) → rules.invariant data →
    rules.allows others data data' → known data → known data'

theorem Discipline.Stable.mono {rules : Discipline M D} {holding holding' : List M}
    {known : D → Prop} (h : rules.Stable holding known)
    (hmore : ∀ mutex ∈ holding, mutex ∈ holding') : rules.Stable holding' known :=
  fun others data data' hothers => h others data data' fun mutex hmutex hheld =>
    hothers mutex hmutex (hmore mutex hheld)

theorem Discipline.Stable.and {rules : Discipline M D} {holding : List M} {known known' : D → Prop}
    (h : rules.Stable holding known) (h' : rules.Stable holding known') :
    rules.Stable holding fun data => known data ∧ known' data :=
  fun others data data' hothers hinv hallows hboth =>
    ⟨h others data data' hothers hinv hallows hboth.1,
      h' others data data' hothers hinv hallows hboth.2⟩

theorem Discipline.stable_true (rules : Discipline M D) (holding : List M) :
    rules.Stable holding fun _ => True :=
  fun _ _ _ _ _ _ _ => trivial

variable [DecidableEq M]

/-- The script, of a thread that holds `holding` and knows `known`, changes the data only as
    it may and keeps the invariant. -/
def Script.Keeps (rules : Discipline M D) : Script M D → List M → (D → Prop) → Prop
  | .done, holding, _ => holding = []
  | .lock mutex mode rest, holding, known | .blocked mutex mode rest, holding, known =>
      mode = .exclusive ∧ rest.Keeps rules (mutex :: holding) known
  | .unlock mutex rest, holding, known =>
      ∃ known', rules.Stable (holding.erase mutex) known' ∧
        (∀ data, rules.invariant data → known data → known' data) ∧
        rest.Keeps rules (holding.erase mutex) known'
  | .read rest, holding, known =>
      ∀ data, rules.invariant data → known data →
        ∃ known', rules.Stable holding known' ∧ known' data ∧ (rest data).Keeps rules holding known'
  | .write change rest, holding, known =>
      ∃ known', rules.Stable holding known' ∧
        (∀ data, rules.invariant data → known data → rules.invariant (change data) ∧
          rules.allows holding data (change data) ∧ known' (change data)) ∧
        rest.Keeps rules holding known'
  | .submit _ _, _, _ | .await _, _, _ => False

section Rules

variable {rules : Discipline M D} {mutex : M} {holding : List M} {rest : Script M D}
  {known : D → Prop}

theorem keeps_done : (Script.done : Script M D).Keeps rules [] known := rfl

theorem keeps_lock (hrest : rest.Keeps rules (mutex :: holding) known) :
    (Script.lock mutex .exclusive rest).Keeps rules holding known :=
  ⟨rfl, hrest⟩

/-- Behind a mutex the thread knows what is stable without it. -/
theorem keeps_unlock {known' : D → Prop} (hstable : rules.Stable holding known')
    (hlearned : ∀ data, rules.invariant data → known data → known' data)
    (hrest : rest.Keeps rules holding known') :
    (Script.unlock mutex rest).Keeps rules (mutex :: holding) known := by
  refine ⟨known', ?_, hlearned, ?_⟩
  · rw [List.erase_cons_head]
    exact hstable
  · rw [List.erase_cons_head]
    exact hrest

/-- What a script relies on may be more than it needs. -/
theorem Script.Keeps.weaken {script : Script M D} {known' : D → Prop}
    (h : script.Keeps rules holding known)
    (hmore : ∀ data, rules.invariant data → known' data → known data) :
    script.Keeps rules holding known' := by
  induction script generalizing holding known known' with
  | done => exact h
  | lock _ _ _ ih | blocked _ _ _ ih => exact ⟨h.1, ih h.2 hmore⟩
  | unlock _ _ ih =>
      obtain ⟨later, hstable, hlearned, hrest⟩ := h
      exact ⟨later, hstable, fun data hinv hknown => hlearned data hinv (hmore data hinv hknown),
        hrest⟩
  | read _ ih => exact fun data hinv hknown => h data hinv (hmore data hinv hknown)
  | write _ _ ih =>
      obtain ⟨later, hstable, hchange, hrest⟩ := h
      exact ⟨later, hstable, fun data hinv hknown => hchange data hinv (hmore data hinv hknown),
        hrest⟩
  | submit _ _ ih | await _ ih => exact h

/-- A script that goes two ways by what it reads, and learns a stable fact from it. -/
theorem keeps_read_ite {condition : D → Prop} [DecidablePred condition] {yes no : Script M D}
    {holds fails : D → Prop} (hknown : rules.Stable holding known)
    (hholds : rules.Stable holding holds) (hfails : rules.Stable holding fails)
    (hyes : yes.Keeps rules holding fun data => known data ∧ holds data)
    (hno : no.Keeps rules holding fun data => known data ∧ fails data)
    (hcondition : ∀ data, rules.invariant data → condition data → holds data)
    (hcondition' : ∀ data, rules.invariant data → ¬ condition data → fails data) :
    (Script.read fun data => if condition data then yes else no).Keeps rules holding known := by
  intro data hinv hdata
  by_cases h : condition data
  · refine ⟨_, hknown.and hholds, ⟨hdata, hcondition data hinv h⟩, ?_⟩
    show Script.Keeps rules (if condition data then yes else no) holding _
    rw [if_pos h]
    exact hyes
  · refine ⟨_, hknown.and hfails, ⟨hdata, hcondition' data hinv h⟩, ?_⟩
    show Script.Keeps rules (if condition data then yes else no) holding _
    rw [if_neg h]
    exact hno

theorem keeps_ite {condition : Prop} [Decidable condition] {yes no : Script M D}
    (hyes : condition → yes.Keeps rules holding known)
    (hno : ¬ condition → no.Keeps rules holding known) :
    (if condition then yes else no).Keeps rules holding known := by
  split
  · rename_i h
    exact hyes h
  · rename_i h
    exact hno h

theorem keeps_guard {condition : Prop} [Decidable condition] {rest : Script M D}
    (hrest : ¬ condition → rest.Keeps rules [] known) :
    (if condition then .done else rest).Keeps rules [] known :=
  keeps_ite (fun _ => keeps_done) hrest

end Rules

/-- The thread is inside such a script, and what it knows is true. -/
def ThreadState.Keeps (rules : Discipline M D) (data : D) (self : ThreadState M D P n) : Prop :=
  ∃ known, rules.Stable self.holding known ∧ known data ∧
    self.script.Keeps rules self.holding known

/-- The invariant holds, every thread knows what its script relies on, and nobody holds a
    mutex of another. -/
structure Guarded (rules : Discipline M D) (state : State M D P n w) : Prop where
  invariant : rules.invariant state.data
  keeps : ∀ thread, (state.threads thread).Keeps rules state.data
  apart : ∀ thread other, thread ≠ other →
    ∀ mutex ∈ (state.threads thread).holding, mutex ∉ (state.threads other).holding
  exclusive : ∀ thread, ∀ hold ∈ (state.threads thread).held, hold.2 = .exclusive
  idle : state.queue = []

theorem guarded_start {rules : Discipline M D} {data : D} (h : rules.invariant data) :
    Guarded rules ({ data := data } : State M D P n w) where
  invariant := h
  keeps _ := ⟨fun _ => True, rules.stable_true [], trivial, rfl⟩
  apart _ _ _ _ hmem := absurd hmem List.not_mem_nil
  exclusive _ _ hmem := absurd hmem List.not_mem_nil
  idle := rfl

variable {rules : Discipline M D} {state : State M D P n w} {thread : Thread n w}

/-- One thread changes, and the data as it may. -/
theorem Guarded.update (h : Guarded rules state) {data : D} {changed : ThreadState M D P n}
    (hinv : rules.invariant data)
    (hallows : data = state.data ∨ rules.allows (state.threads thread).holding state.data data)
    (hkeeps : changed.Keeps rules data)
    (hapart : ∀ other, thread ≠ other →
      ∀ mutex ∈ changed.holding, mutex ∉ (state.threads other).holding)
    (hexclusive : ∀ hold ∈ changed.held, hold.2 = .exclusive) :
    Guarded rules ({ state with data := data }.setThread thread changed) := by
  have hself : ({ state with data := data }.setThread thread changed).threads thread = changed :=
    Function.update_self ..
  have hothers : ∀ other, other ≠ thread →
      ({ state with data := data }.setThread thread changed).threads other =
        state.threads other :=
    fun other hother => Function.update_of_ne hother ..
  refine ⟨hinv, fun other => ?_, fun first second hne => ?_, fun other => ?_, h.idle⟩
  · by_cases hother : other = thread
    · rw [hother, hself]
      exact hkeeps
    · rw [hothers other hother]
      obtain ⟨known, hstable, hknown, hscript⟩ := h.keeps other
      refine ⟨known, hstable, ?_, hscript⟩
      rcases hallows with hsame | hchange
      · show known data
        rwa [hsame]
      · exact hstable _ _ _ (h.apart thread other (Ne.symm hother)) h.invariant hchange hknown
  · by_cases hfirst : first = thread
    · have hsecond : second ≠ thread := fun heq => hne (hfirst.trans heq.symm)
      rw [hfirst, hself, hothers second hsecond]
      exact hapart second (Ne.symm hsecond)
    · rw [hothers first hfirst]
      by_cases hsecond : second = thread
      · rw [hsecond, hself]
        exact fun mutex hmutex hheld => hapart first (Ne.symm hfirst) mutex hheld hmutex
      · rw [hothers second hsecond]
        exact h.apart first second hne
  · by_cases hother : other = thread
    · rw [hother, hself]
      exact hexclusive
    · rw [hothers other hother]
      exact h.exclusive other

/-- A thread that has not been given a mutex holds what it held. -/
theorem Guarded.advance (h : Guarded rules state) {changed : ThreadState M D P n}
    (hheld : changed.held = (state.threads thread).held)
    (hkeeps : changed.Keeps rules state.data) : Guarded rules (state.setThread thread changed) := by
  refine h.update h.invariant (Or.inl rfl) hkeeps (fun other hne => ?_) ?_
  · rw [ThreadState.holding, hheld]
    exact h.apart thread other hne
  · rw [hheld]
    exact h.exclusive thread

/-- **An action of a thread that can act.**  One case for each kind of script. -/
theorem Guarded.act (h : Guarded rules state) {admits : Policy M D P n w}
    (hcan : CanAct admits state thread) : Guarded rules (act state thread) := by
  obtain ⟨known, hstable, hknown, hkeeps⟩ := h.keeps thread
  cases hscript : (state.threads thread).script with
  | done =>
      cases thread with
      | inl client =>
          simp only [LockScripts.act, hscript]
          exact h
      | inr worker =>
          simp only [LockScripts.act, hscript, h.idle]
          exact h
  | lock mutex mode rest =>
      rw [hscript] at hkeeps
      simp only [LockScripts.act, hscript]
      exact h.advance rfl ⟨known, hstable, hknown, hkeeps⟩
  | blocked mutex mode rest =>
      rw [hscript] at hkeeps
      obtain ⟨rfl, hrest⟩ := hkeeps
      have hcompatible : Compatible state mutex .exclusive := by
        cases thread <;> simp only [CanAct, CanRun, hscript] at hcan <;> exact hcan.1
      simp only [LockScripts.act, hscript]
      refine h.update h.invariant (Or.inl rfl) ⟨known, ?_, hknown, hrest⟩ (fun other hne => ?_) ?_
      · exact hstable.mono fun held hmem => List.mem_cons_of_mem mutex hmem
      · intro held hmem hother
        rcases List.mem_cons.mp hmem with rfl | hmem
        · -- nobody else holds what was granted
          obtain ⟨hold, hhold, rfl⟩ := List.mem_map.mp hother
          cases (hcompatible other hold hhold rfl).2
        · exact h.apart thread other hne held hmem hother
      · exact List.forall_mem_cons.mpr ⟨rfl, h.exclusive thread⟩
  | unlock mutex rest =>
      rw [hscript] at hkeeps
      obtain ⟨known', hstable', hlearned, hrest⟩ := hkeeps
      simp only [LockScripts.act, hscript]
      have hholding : ((state.threads thread).held.eraseP fun hold => hold.1 = mutex).map
          Prod.fst = (state.threads thread).holding.erase mutex := holding_unlock _ _
      refine h.update h.invariant (Or.inl rfl) ⟨known', ?_, ?_, ?_⟩ (fun other hne => ?_) ?_
      · rw [ThreadState.holding, hholding]
        exact hstable'
      · exact hlearned _ h.invariant hknown
      · rw [ThreadState.holding, hholding]
        exact hrest
      · rw [ThreadState.holding, hholding]
        exact fun held hmem => h.apart thread other hne held (List.mem_of_mem_erase hmem)
      · exact fun hold hmem => h.exclusive thread hold (List.mem_of_mem_eraseP hmem)
  | read rest =>
      rw [hscript] at hkeeps
      obtain ⟨known', hstable', hknown', hrest⟩ := hkeeps state.data h.invariant hknown
      simp only [LockScripts.act, hscript]
      exact h.advance rfl ⟨known', hstable', hknown', hrest⟩
  | write change rest =>
      rw [hscript] at hkeeps
      obtain ⟨known', hstable', hchange, hrest⟩ := hkeeps
      obtain ⟨hinv, hallows, hknown'⟩ := hchange state.data h.invariant hknown
      simp only [LockScripts.act, hscript]
      exact h.update hinv (Or.inr hallows) ⟨known', hstable', hknown', hrest⟩
        (h.apart thread) (h.exclusive thread)
  | submit task rest | await rest =>
      rw [hscript] at hkeeps
      exact hkeeps.elim

/-- **A step** keeps the invariant. -/
theorem Guarded.step {scriptOf : P → Script M D}
    (hprograms : ∀ program, (scriptOf program).Keeps rules [] fun _ => True)
    (h : Guarded rules state) {admits : Policy M D P n w} {action : Step P n w}
    (henabled : Enabled admits state action) : Guarded rules (step scriptOf state action) := by
  cases action with
  | start client program =>
      have hdone : (state.threads (.inl client)).script.isDone = true := henabled
      simp only [LockScripts.step, if_pos hdone]
      have hheld : (state.threads (.inl client)).holding = [] := by
        obtain ⟨known, -, -, hkeeps⟩ := h.keeps (.inl client)
        cases hscript : (state.threads (.inl client)).script with
        | done =>
            rw [hscript] at hkeeps
            exact hkeeps
        | _ => simp [hscript, Script.isDone] at hdone
      have hupdated : Guarded rules (state.setThread (.inl client)
          { state.threads (.inl client) with
            script := scriptOf program
            program := some program }) := by
        refine h.advance rfl ⟨fun _ => True, rules.stable_true _, trivial, ?_⟩
        show (scriptOf program).Keeps rules (state.threads (.inl client)).holding _
        rw [hheld]
        exact hprograms program
      exact ⟨hupdated.invariant, hupdated.keeps, hupdated.apart, hupdated.exclusive, hupdated.idle⟩
  | act thread =>
      have hacted : Guarded rules (LockScripts.act state thread) := h.act henabled
      exact ⟨hacted.invariant, hacted.keeps, hacted.apart, hacted.exclusive, hacted.idle⟩

/-- **Every run** in which mutexes exclude keeps the invariant. -/
theorem Guarded.run {scriptOf : P → Script M D}
    (hprograms : ∀ program, (scriptOf program).Keeps rules [] fun _ => True)
    {admits : Policy M D P n w} (h : Guarded rules state) {steps : List (Step P n w)}
    (hrun : Admissible (LockScripts.step scriptOf) (Enabled admits) state steps) :
    Guarded rules (Transition.run (LockScripts.step scriptOf) state steps) :=
  admissible_invariant (fun _ _ henabled h => h.step hprograms henabled) h hrun

end Knowledge

end LockScripts
