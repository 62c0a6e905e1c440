import TimeSeriesEngine.ColdLocks

/-!
# Which statements the database sees

The calls of the cold store make the schema ready before they write or read.  Other
threads may do the same, and the test harness may drop the database, between any two
steps.  What the threads know while they hold their mutexes is enough to keep a log of
the statements in order.

* `Permitted` — what must stand in front of a statement;
* `schemaRules` — what a thread that holds some mutexes may do to the client;
* `script_keeps` — every call keeps the log permitted;
* `schema_protocol` — in every run the log is permitted: a stable is created once, and no
  data statement goes to a stable that is not there, over a connection without a database
  or behind the drop.
-/

namespace SchemaProtocol

open TseTypes TaosClient LockScripts EventLog Transition ColdLocks

/-! ## The log -/

/-- The database has carried out this statement. -/
def Done (statement : Statement) (issued : List Issued) : Prop := ⟨statement, true⟩ ∈ issued

/-- The test harness has sent its statement. -/
def Dropped (issued : List Issued) : Prop := ∃ accepted, ⟨.dropDatabase, accepted⟩ ∈ issued

/-- What has happened in front of a statement. -/
def Permitted : Issued → List Issued → Prop
  | ⟨.createDatabase, _⟩, before => ¬ Dropped before
  | ⟨.select _, _⟩, before => Done .createDatabase before ∧ ¬ Dropped before
  | ⟨.createStable projectId, _⟩, before =>
      Done .createDatabase before ∧ ¬ Done (.createStable projectId) before ∧ ¬ Dropped before
  | ⟨.insert projectId index _, _⟩, before =>
      Done (.createStable projectId) before ∧ Done (.select (some index)) before ∧
        ¬ Dropped before
  | ⟨.query projectId _, _⟩, before | ⟨.overview projectId, _⟩, before =>
      Done (.createStable projectId) before ∧ Done (.select none) before ∧ ¬ Dropped before
  | ⟨.dropDatabase, _⟩, _ => True

/-- All connections are gone. -/
def Closed (pool : Pool) (store : ColdStore) : Prop :=
  (∀ index < pool.size, store.connected index = false) ∧ store.queryConnected = false

/-- What holds between the client and the log. -/
structure InStep (pool : Pool) (store : ColdStore) : Prop where
  permitted : Licensed Permitted store.issued
  listed : ∀ projectId ∈ store.projectSchemas, Done (.createStable projectId) store.issued
  created : ∀ projectId, Done (.createStable projectId) store.issued →
    projectId ∈ store.projectSchemas ∨ Dropped store.issued
  dropped : Dropped store.issued → Closed pool store

/-- What a thread that holds some mutexes may change: the log grows, connections only go,
    and what a mutex protects stays as it is without it. -/
structure Allows (holding : List MutexId) (store store' : ColdStore) : Prop where
  issued : store.issued <+: store'.issued
  connections : ∀ index, store'.connected index = true → store.connected index = true
  connection : ∀ index, .connection index ∉ holding →
    store'.connected index = store.connected index
  queries : store'.queryConnected = true → store.queryConnected = true
  query : .query ∉ holding → store'.queryConnected = store.queryConnected
  schema : .schema ∉ holding → store'.projectSchemas = store.projectSchemas

/-- The calls keep the protocol, statement by statement. -/
def schemaRules (pool : Pool) : Discipline MutexId ColdStore where
  invariant := InStep pool
  allows := Allows

/-! ## What stays known -/

section Known

variable {pool : Pool} {holding : List MutexId}

theorem stable_done (statement : Statement) :
    (schemaRules pool).Stable holding fun store => Done statement store.issued :=
  fun _ _ _ _ _ hallows hdone => hallows.issued.subset hdone

theorem stable_dropped : (schemaRules pool).Stable holding fun store => Dropped store.issued :=
  fun _ _ _ _ _ hallows ⟨accepted, hdrop⟩ => ⟨accepted, hallows.issued.subset hdrop⟩

theorem stable_connected {index : Nat} (h : .connection index ∈ holding) :
    (schemaRules pool).Stable holding fun store => store.connected index = true := by
  intro others store store' hothers _ hallows hopen
  rw [hallows.connection index fun hheld => hothers _ hheld h]
  exact hopen

theorem stable_gone (index : Nat) :
    (schemaRules pool).Stable holding fun store => store.connected index = false := by
  intro others store store' _ _ hallows hgone
  refine Bool.eq_false_iff.mpr fun hopen => ?_
  rw [hallows.connections index hopen] at hgone
  cases hgone

theorem stable_queryConnected (h : .query ∈ holding) :
    (schemaRules pool).Stable holding fun store => store.queryConnected = true := by
  intro others store store' hothers _ hallows hopen
  rw [hallows.query fun hheld => hothers _ hheld h]
  exact hopen

theorem stable_queryGone :
    (schemaRules pool).Stable holding fun store => store.queryConnected = false := by
  intro others store store' _ _ hallows hgone
  refine Bool.eq_false_iff.mpr fun hopen => ?_
  rw [hallows.queries hopen] at hgone
  cases hgone

theorem stable_unlisted (projectId : ProjectId) (h : .schema ∈ holding) :
    (schemaRules pool).Stable holding fun store => projectId ∉ store.projectSchemas := by
  intro others store store' hothers _ hallows hnot
  rw [hallows.schema fun hheld => hothers _ hheld h]
  exact hnot

/-- While a connection is open the database has not been dropped. -/
theorem InStep.not_dropped {store : ColdStore} (h : InStep pool store) {index : Nat}
    (hindex : index < pool.size) (hopen : store.connected index = true) :
    ¬ Dropped store.issued := by
  intro hdrop
  have hgone := (h.dropped hdrop).1 index hindex
  rw [hopen] at hgone
  cases hgone

theorem InStep.not_dropped_query {store : ColdStore} (h : InStep pool store)
    (hopen : store.queryConnected = true) : ¬ Dropped store.issued := by
  intro hdrop
  have hgone := (h.dropped hdrop).2
  rw [hopen] at hgone
  cases hgone

end Known

/-! ## One statement -/

section Statements

variable {pool : Pool} {holding : List MutexId} {known : ColdStore → Prop} {rest : ColdScript}

/-- Issuing a statement is allowed. -/
theorem issue_allowed (statement : Statement) (accepted : Bool) (store : ColdStore) :
    Allows holding store (issue statement accepted store) where
  issued := List.prefix_append _ _
  connections _ h := h
  connection _ _ := rfl
  queries h := h
  query _ := rfl
  schema _ := rfl

/-- A statement that is permitted and neither makes a stable nor drops the database. -/
theorem issue_inStep {statement : Statement} {accepted : Bool} {store : ColdStore}
    (h : InStep pool store) (hpermitted : Permitted ⟨statement, accepted⟩ store.issued)
    (hstable : ∀ projectId, statement ≠ .createStable projectId)
    (hdrop : statement ≠ .dropDatabase) : InStep pool (issue statement accepted store) := by
  have hdropped : Dropped (issue statement accepted store).issued → Dropped store.issued := by
    rintro ⟨said, hmem⟩
    rcases List.mem_append.mp hmem with hold | hnew
    · exact ⟨said, hold⟩
    · cases List.mem_singleton.mp hnew
      exact absurd rfl hdrop
  refine ⟨licensed_snoc h.permitted hpermitted, fun projectId hlisted => ?_,
    fun projectId hdone => ?_, fun hgone => h.dropped (hdropped hgone)⟩
  · exact List.mem_append_left _ (h.listed projectId hlisted)
  · rcases List.mem_append.mp hdone with hold | hnew
    · rcases h.created projectId hold with hlisted | ⟨said, hmem⟩
      · exact Or.inl hlisted
      · exact Or.inr ⟨said, List.mem_append_left _ hmem⟩
    · cases List.mem_singleton.mp hnew
      exact absurd rfl (hstable projectId)

/-- The rule for such a statement: what was known stays known, and the statement is in the
    log. -/
theorem keeps_issue {statement : Statement} {accepted : Bool}
    (hknown : (schemaRules pool).Stable holding known)
    (hpermitted : ∀ store, InStep pool store → known store →
      Permitted ⟨statement, accepted⟩ store.issued)
    (hstable : ∀ projectId, statement ≠ .createStable projectId)
    (hdrop : statement ≠ .dropDatabase)
    (hrest : rest.Keeps (schemaRules pool) holding fun store =>
      known store ∧ (accepted = true → Done statement store.issued)) :
    (Script.write (issue statement accepted) rest).Keeps (schemaRules pool) holding known := by
  refine ⟨_, hknown.and ?_, fun store hinv hstore => ⟨?_, ?_, ?_, ?_⟩, hrest⟩
  · intro others store store' hothers hinv hallows hdone haccepted
    exact hallows.issued.subset (hdone haccepted)
  · exact issue_inStep hinv (hpermitted store hinv hstore) hstable hdrop
  · exact issue_allowed statement accepted store
  · -- a statement changes nothing that a mutex protects
    exact hknown [] store _ (fun _ hnone => absurd hnone List.not_mem_nil) hinv
      (issue_allowed statement accepted store) hstore
  · rintro rfl
    exact List.mem_append_right _ (List.mem_singleton.mpr rfl)

/-- A write connection the thread has locked: it is gone, or it is open as long as the
    thread holds its mutex. -/
theorem keeps_connected {index : Nat} {no yes : ColdScript} (hheld : .connection index ∈ holding)
    (hknown : (schemaRules pool).Stable holding known)
    (hgone : no.Keeps (schemaRules pool) holding known)
    (hopen : yes.Keeps (schemaRules pool) holding fun store =>
      known store ∧ store.connected index = true) :
    (Script.read fun store : ColdStore => if !store.connected index then no else yes).Keeps
      (schemaRules pool) holding known := by
  refine keeps_read_ite hknown (stable_gone index) (stable_connected hheld)
    (hgone.weaken fun _ _ h => h.1) hopen (fun store _ h => ?_) fun store _ h => ?_
  · simpa using h
  · simpa using h

/-- A branch on the query connection. -/
theorem keeps_queryConnected {no yes : ColdScript} (hheld : .query ∈ holding)
    (hknown : (schemaRules pool).Stable holding known)
    (hgone : no.Keeps (schemaRules pool) holding fun store =>
      known store ∧ store.queryConnected = false)
    (hopen : yes.Keeps (schemaRules pool) holding fun store =>
      known store ∧ store.queryConnected = true) :
    (Script.read fun store : ColdStore => if !store.queryConnected then no else yes).Keeps
      (schemaRules pool) holding known := by
  refine keeps_read_ite hknown stable_queryGone (stable_queryConnected hheld)
    hgone hopen (fun store _ h => ?_) fun store _ h => ?_
  · simpa using h
  · simpa using h

theorem stable_done_if (accepted : Bool) (statement : Statement) :
    (schemaRules pool).Stable holding fun store =>
      accepted = true → Done statement store.issued :=
  fun _ _ _ _ _ hallows hdone haccepted => hallows.issued.subset (hdone haccepted)

end Statements

/-! ## The schema -/

section Schema

variable {pool : Pool} {accepts : Statement → Bool} {known : ColdStore → Prop}

/-- The database exists, and every write connection has selected it. -/
def Selected (pool : Pool) (store : ColdStore) : Prop :=
  Done .createDatabase store.issued ∧ ∀ index < pool.size, Done (.select (some index)) store.issued

/-- The connection for queries has selected it too, unless it is gone. -/
def Ready (pool : Pool) (store : ColdStore) : Prop :=
  Selected pool store ∧ (store.queryConnected = true → Done (.select none) store.issued)

theorem stable_selected {holding : List MutexId} :
    (schemaRules pool).Stable holding (Selected pool) :=
  fun _ _ _ _ _ hallows hselected =>
    ⟨hallows.issued.subset hselected.1, fun index hindex =>
      hallows.issued.subset (hselected.2 index hindex)⟩

theorem stable_ready {holding : List MutexId} :
    (schemaRules pool).Stable holding (Ready pool) :=
  fun others store store' hothers hinv hallows hready =>
    ⟨stable_selected others store store' hothers hinv hallows hready.1, fun hopen =>
      hallows.issued.subset (hready.2 (hallows.queries hopen))⟩

/-- Selecting the database on the other connections keeps the rules. -/
theorem selectConnections_keeps {failed ready : ColdScript} {indices : List Nat}
    (hsize : pool.size ≠ 0) (hknown : (schemaRules pool).Stable [.connection 0] known)
    (hopen : ∀ store, known store →
      store.connected 0 = true ∧ Done .createDatabase store.issued)
    (hfailed : failed.Keeps (schemaRules pool) [.connection 0] known)
    (hready : ready.Keeps (schemaRules pool) [.connection 0] fun store =>
      known store ∧ ∀ index ∈ indices, Done (.select (some index)) store.issued) :
    (selectConnections accepts failed ready indices).Keeps (schemaRules pool) [.connection 0]
      known := by
  induction indices generalizing known with
  | nil => exact hready.weaken fun _ _ h => ⟨h, fun _ hnone => absurd hnone List.not_mem_nil⟩
  | cons index rest ih =>
      have hboth : (schemaRules pool).Stable [.connection index, .connection 0] known :=
        hknown.mono fun _ hmem => List.mem_cons_of_mem _ hmem
      have hsaid : (schemaRules pool).Stable [.connection 0] fun store =>
          accepts (.select (some index)) = true → Done (.select (some index)) store.issued :=
        stable_done_if _ _
      refine keeps_lock (keeps_connected List.mem_cons_self hboth ?_ ?_)
      · exact keeps_unlock hknown (fun _ _ h => h) hfailed
      refine keeps_issue (hboth.and (stable_connected List.mem_cons_self)) ?_
        (fun _ h => by cases h) (fun h => by cases h) ?_
      · intro store hinv hstore
        obtain ⟨hfirst, hdatabase⟩ := hopen store hstore.1
        exact ⟨hdatabase, hinv.not_dropped (Nat.pos_of_ne_zero hsize) hfirst⟩
      refine keeps_unlock (hknown.and hsaid) (fun _ _ h => ⟨h.1.1, h.2⟩) ?_
      refine keeps_ite (fun haccepted => ?_) fun _ => hfailed.weaken fun _ _ h => h.1
      refine ih (hknown.and hsaid) (fun store h => hopen store h.1)
        (hfailed.weaken fun _ _ h => h.1) (hready.weaken fun store _ h => ⟨h.1.1, ?_⟩)
      exact List.forall_mem_cons.mpr ⟨h.1.2 haccepted, h.2⟩

/-- `ensureSchema` keeps the rules. -/
theorem ensureSchema_keeps {rest : Bool → ColdScript}
    (hknown : (schemaRules pool).Stable [] known)
    (hfailed : (rest false).Keeps (schemaRules pool) [] known)
    (hready : pool.size ≠ 0 → (rest true).Keeps (schemaRules pool) [] fun store =>
      known store ∧ Ready pool store) :
    (ensureSchema pool accepts rest).Keeps (schemaRules pool) [] known := by
  refine keeps_ite (fun _ => hfailed) fun _ => keeps_ite (fun _ => hfailed) fun hsize => ?_
  have hfirst : (schemaRules pool).Stable [.connection 0] known :=
    hknown.mono fun _ hmem => absurd hmem List.not_mem_nil
  have hleave : ∀ {ready : Bool} {held : ColdStore → Prop},
      (∀ store, held store → known store ∧ (ready = true → Ready pool store)) →
      (Script.unlock (.connection 0) (rest ready)).Keeps (schemaRules pool) [.connection 0] held := by
    intro ready held hheld
    cases ready with
    | false => exact keeps_unlock hknown (fun store _ h => (hheld store h).1) hfailed
    | true =>
        refine keeps_unlock (hknown.and stable_ready) (fun store _ h => ?_) (hready hsize)
        exact ⟨(hheld store h).1, (hheld store h).2 rfl⟩
  have hopen := hfirst.and (stable_connected List.mem_cons_self)
  refine keeps_lock (keeps_connected List.mem_cons_self hfirst ?_ ?_)
  · exact hleave fun _ h => ⟨h, fun h => nomatch h⟩
  refine keeps_issue hopen ?_ (fun _ h => by cases h) (fun h => by cases h) ?_
  · exact fun store hinv h => hinv.not_dropped (Nat.pos_of_ne_zero hsize) h.2
  refine keeps_ite (fun _ => hleave fun _ h => ⟨h.1.1, fun h => nomatch h⟩) fun hcreated => ?_
  have hdatabase := hopen.and (stable_done_if
    (accepts .createDatabase) .createDatabase)
  have hcreated' : accepts .createDatabase = true := by simpa using hcreated
  refine keeps_issue hdatabase ?_ (fun _ h => by cases h) (fun h => by cases h) ?_
  · exact fun store hinv h =>
      ⟨h.2 hcreated', hinv.not_dropped (Nat.pos_of_ne_zero hsize) h.1.2⟩
  refine keeps_ite (fun _ => hleave fun _ h => ⟨h.1.1.1, fun h => nomatch h⟩) fun hselected => ?_
  have hselected' : accepts (.select (some 0)) = true := by simpa using hselected
  have hall := hdatabase.and (stable_done_if
    (accepts (.select (some 0))) (.select (some 0)))
  refine selectConnections_keeps hsize hall (fun _ h => ⟨h.1.1.2, h.1.2 hcreated'⟩)
    (hleave fun _ h => ⟨h.1.1.1, fun h => nomatch h⟩) ?_
  -- the connections behind the first one have been selected as well
  have hselectedAll : ∀ store, ((((known store ∧ store.connected 0 = true) ∧
      (accepts .createDatabase = true → Done .createDatabase store.issued)) ∧
      (accepts (.select (some 0)) = true → Done (.select (some 0)) store.issued)) ∧
      ∀ index ∈ List.range' 1 (pool.size - 1), Done (.select (some index)) store.issued) →
      known store ∧ Selected pool store := by
    rintro store ⟨⟨⟨⟨hstore, -⟩, hdone⟩, hzero⟩, hothers⟩
    refine ⟨hstore, hdone hcreated', fun index hindex => ?_⟩
    rcases Nat.eq_zero_or_pos index with rfl | hpos
    · exact hzero hselected'
    · exact hothers index (List.mem_range'_1.mpr ⟨hpos, by omega⟩)
  have hmore : ∀ holding, (schemaRules pool).Stable holding fun store =>
      known store ∧ Selected pool store := fun _ =>
    (hknown.mono fun _ hmem => absurd hmem List.not_mem_nil).and stable_selected
  have hboth := (hmore [.query, .connection 0]).and
    (stable_connected (List.mem_cons_of_mem _ List.mem_cons_self))
  refine Script.Keeps.weaken ?_ fun store _ h =>
    (⟨hselectedAll store h, h.1.1.1.2⟩ :
      (known store ∧ Selected pool store) ∧ store.connected 0 = true)
  refine keeps_lock (keeps_queryConnected List.mem_cons_self hboth ?_ ?_)
  · refine keeps_unlock ((hmore [.connection 0]).and stable_queryGone)
      (fun _ _ h => ⟨h.1.1, h.2⟩)
      (hleave fun store h => ⟨h.1.1, fun _ => ⟨h.1.2, fun hopen => ?_⟩⟩)
    rw [h.2] at hopen
    cases hopen
  · refine keeps_issue (hboth.and (stable_queryConnected List.mem_cons_self)) ?_
      (fun _ h => by cases h) (fun h => by cases h) ?_
    · exact fun store hinv h =>
        ⟨h.1.1.2.1, hinv.not_dropped (Nat.pos_of_ne_zero hsize) h.1.2⟩
    · refine keeps_unlock ((hmore [.connection 0]).and (stable_done_if (accepts (.select none))
        (.select none))) (fun _ _ h => ⟨h.1.1.1, h.2⟩)
        (hleave fun _ h => ⟨h.1.1, fun hready => ?_⟩)
      exact ⟨h.1.2, fun _ => h.2 hready⟩

/-- The set grows with the log: the stable that was made is listed. -/
theorem createStable_inStep {projectId : ProjectId} {accepted : Bool} {store : ColdStore}
    (h : InStep pool store)
    (hpermitted : Permitted ⟨.createStable projectId, accepted⟩ store.issued) :
    InStep pool (createStable projectId accepted store) := by
  have hnot := hpermitted.2.2
  have hissued : (createStable projectId accepted store).issued =
      store.issued ++ [⟨.createStable projectId, accepted⟩] := by
    cases accepted <;> rfl
  have hlog : ∀ {statement}, Done statement (createStable projectId accepted store).issued →
      Done statement store.issued ∨ (statement = .createStable projectId ∧ accepted = true) := by
    intro statement hdone
    rw [Done, hissued] at hdone
    rcases List.mem_append.mp hdone with hold | hnew
    · exact Or.inl hold
    · cases List.mem_singleton.mp hnew
      exact Or.inr ⟨rfl, rfl⟩
  refine ⟨?_, fun other hlisted => ?_, fun other hdone => ?_, fun hdrop => ?_⟩
  · rw [hissued]
    exact licensed_snoc h.permitted hpermitted
  · rw [Done, hissued]
    cases accepted with
    | false => exact List.mem_append_left _ (h.listed other hlisted)
    | true =>
        rcases List.mem_cons.mp hlisted with rfl | hlisted
        · exact List.mem_append_right _ List.mem_cons_self
        · exact List.mem_append_left _ (h.listed other hlisted)
  · rcases hlog hdone with hold | ⟨hsame, rfl⟩
    · have hlisted := (h.created other hold).resolve_right hnot
      left
      cases accepted with
      | false => exact hlisted
      | true => exact List.mem_cons_of_mem _ hlisted
    · cases hsame
      exact Or.inl List.mem_cons_self
  · obtain ⟨said, hmem⟩ := hdrop
    rw [hissued] at hmem
    rcases List.mem_append.mp hmem with hold | hnew
    · exact absurd ⟨said, hold⟩ hnot
    · cases List.mem_singleton.mp hnew

/-- Creating a table under the schema mutex is allowed. -/
theorem createStable_allowed {holding : List MutexId} (projectId : ProjectId) (accepted : Bool)
    (store : ColdStore) (hheld : .schema ∈ holding) :
    Allows holding store (createStable projectId accepted store) := by
  cases accepted with
  | false =>
      exact ⟨List.prefix_append _ _, fun _ h => h, fun _ _ => rfl, fun h => h, fun _ => rfl,
        fun _ => rfl⟩
  | true =>
      exact ⟨List.prefix_append _ _, fun _ h => h, fun _ _ => rfl, fun h => h, fun _ => rfl,
        fun hnot => absurd hheld hnot⟩

/-- `ensureStable` keeps the rules. -/
theorem ensureStable_keeps {projectId : ProjectId} {rest : Bool → ColdScript}
    (hsize : pool.size ≠ 0) (hknown : (schemaRules pool).Stable [] known)
    (hdatabase : ∀ store, known store → Done .createDatabase store.issued)
    (hfailed : (rest false).Keeps (schemaRules pool) [] known)
    (hready : (rest true).Keeps (schemaRules pool) [] fun store =>
      known store ∧ Done (.createStable projectId) store.issued) :
    (ensureStable projectId accepts rest).Keeps (schemaRules pool) [] known := by
  have hmore : ∀ holding, (schemaRules pool).Stable holding known := fun _ =>
    hknown.mono fun _ hmem => absurd hmem List.not_mem_nil
  have hmade := hknown.and (stable_done (.createStable projectId))
  refine keeps_lock (keeps_read_ite (hmore _) ((stable_done (.createStable projectId)))
    (stable_unlisted projectId List.mem_cons_self) ?_ ?_ (fun _ hinv h => hinv.listed projectId h)
    fun _ _ h => h)
  · exact keeps_unlock hmade (fun _ _ h => h) hready
  have hunlisted := (hmore [.connection 0, .schema]).and
    (stable_unlisted projectId
      (List.mem_cons_of_mem _ List.mem_cons_self))
  refine keeps_lock (keeps_connected List.mem_cons_self hunlisted ?_ ?_)
  · exact keeps_unlock (hmore _) (fun _ _ h => h.1) (keeps_unlock hknown (fun _ _ h => h) hfailed)
  refine ⟨_, (hmore _).and (stable_done_if (accepts (.createStable projectId))
    (.createStable projectId)), fun store hinv h => ?_, ?_⟩
  · obtain ⟨⟨hstore, hnot⟩, hopen⟩ := h
    have halive := hinv.not_dropped (Nat.pos_of_ne_zero hsize) hopen
    refine ⟨createStable_inStep hinv ⟨hdatabase store hstore, fun hdone => ?_, halive⟩,
      createStable_allowed _ _ _ (List.mem_cons_of_mem _ List.mem_cons_self), ?_,
      fun haccepted => ?_⟩
    · exact ((hinv.created projectId hdone).elim hnot halive)
    · -- nobody relies on the set of the stables without its mutex
      exact hknown [.schema] store _ (fun _ _ h => absurd h List.not_mem_nil) hinv
        (createStable_allowed _ _ _ List.mem_cons_self) hstore
    · rw [haccepted]
      exact List.mem_append_right _ List.mem_cons_self
  · refine keeps_unlock ((hmore [.schema]).and (stable_done_if (accepts (.createStable projectId))
      (.createStable projectId))) (fun _ _ h => h) ?_
    cases haccepted : accepts (.createStable projectId) with
    | false => exact keeps_unlock hknown (fun _ _ h => h.1) hfailed
    | true => exact keeps_unlock hmade (fun _ _ h => ⟨h.1, h.2 rfl⟩) hready

/-- A project whose stable is there, in a database that every write connection has
    selected. -/
def ProjectReady (pool : Pool) (projectId : ProjectId) (store : ColdStore) : Prop :=
  Ready pool store ∧ Done (.createStable projectId) store.issued

/-- `ensureProjectSchema` keeps the rules. -/
theorem ensureProjectSchema_keeps {projectId : ProjectId} {rest : Bool → ColdScript}
    (hknown : (schemaRules pool).Stable [] known)
    (hfailed : (rest false).Keeps (schemaRules pool) [] known)
    (hready : pool.size ≠ 0 → (rest true).Keeps (schemaRules pool) [] fun store =>
      known store ∧ ProjectReady pool projectId store) :
    (ensureProjectSchema pool projectId accepts rest).Keeps (schemaRules pool) [] known := by
  refine keeps_ite (fun _ => hfailed) fun _ => ensureSchema_keeps hknown ?_ fun hsize => ?_
  · exact hfailed
  refine keeps_ite (fun h => nomatch h) fun _ => keeps_ite (fun _ => ?_) fun _ => ?_
  · exact hfailed.weaken fun _ _ h => h.1
  refine ensureStable_keeps hsize (hknown.and stable_ready) (fun _ h => h.2.1.1)
    (hfailed.weaken fun _ _ h => h.1) ((hready hsize).weaken fun _ _ h => ?_)
  exact ⟨h.1.1, h.1.2, h.2⟩

end Schema

/-! ## The calls -/

section Calls

variable {pool : Pool} {accepts : Statement → Bool} {known : ColdStore → Prop}

theorem stable_projectReady {holding : List MutexId} (projectId : ProjectId) :
    (schemaRules pool).Stable holding (ProjectReady pool projectId) :=
  stable_ready.and (stable_done _)

/-- An insert keeps the rules. -/
theorem insertOnConnection_keeps (projectId : ProjectId) (index : Nat) (batch : TimeseriesBatch) :
    (insertOnConnection pool projectId index batch accepts).Keeps (schemaRules pool) []
      fun _ => True := by
  have htrue := (schemaRules pool).stable_true []
  refine keeps_guard fun _ => keeps_guard fun _ =>
    ensureProjectSchema_keeps htrue keeps_done fun hsize => ?_
  refine keeps_guard fun _ => keeps_guard fun _ =>
    keeps_guard fun hindex => ?_
  have hready : (schemaRules pool).Stable [.connection index] (ProjectReady pool projectId) :=
    stable_projectReady projectId
  refine Script.Keeps.weaken ?_ fun _ _ h => h.2
  refine keeps_lock (keeps_connected List.mem_cons_self hready ?_ ?_)
  · exact keeps_unlock htrue (fun _ _ _ => trivial) keeps_done
  refine keeps_issue (hready.and (stable_connected List.mem_cons_self)) ?_
    (fun _ h => by cases h) (fun h => by cases h) ?_
  · rintro store hinv ⟨⟨⟨⟨-, hselected⟩, -⟩, hdone⟩, hopen⟩
    exact ⟨hdone, hselected index (Nat.lt_of_not_le hindex),
      hinv.not_dropped (Nat.lt_of_not_le hindex) hopen⟩
  · exact keeps_unlock htrue (fun _ _ _ => trivial) keeps_done

/-- Statements that go out on the connection for queries. -/
def ForQueries (projectId : ProjectId) : Statement → Prop
  | .query other _ | .overview other => other = projectId
  | _ => False

/-- A query of a project that is ready is permitted. -/
theorem forQueries_permitted {projectId : ProjectId} {statement : Statement} {accepted : Bool}
    {store : ColdStore} (hkind : ForQueries projectId statement) (hinv : InStep pool store)
    (hready : ProjectReady pool projectId store) (hopen : store.queryConnected = true) :
    Permitted ⟨statement, accepted⟩ store.issued := by
  have hbefore := And.intro hready.2 (And.intro (hready.1.2 hopen) (hinv.not_dropped_query hopen))
  cases statement with
  | query other kind =>
      cases hkind
      exact hbefore
  | overview other =>
      cases hkind
      exact hbefore
  | _ => exact hkind.elim

/-- A statement for queries, while its connection is open. -/
theorem keeps_query {projectId : ProjectId} {statement : Statement} {accepted : Bool}
    {rest : ColdScript} (hkind : ForQueries projectId statement)
    (hrest : rest.Keeps (schemaRules pool) [.query] fun store =>
      ProjectReady pool projectId store ∧ store.queryConnected = true) :
    (Script.write (issue statement accepted) rest).Keeps (schemaRules pool) [.query] fun store =>
      ProjectReady pool projectId store ∧ store.queryConnected = true := by
  refine keeps_issue ((stable_projectReady projectId).and
    (stable_queryConnected List.mem_cons_self)) ?_ (fun other h => ?_) (fun h => ?_)
    (hrest.weaken fun _ _ h => h.1)
  · exact fun store hinv h => forQueries_permitted hkind hinv h.1 h.2
  · rw [h] at hkind
    exact hkind
  · rw [h] at hkind
    exact hkind

/-- A statement on the query connection keeps the rules. -/
theorem onQuery_keeps {projectId : ProjectId} {statement : Statement} {accepted : Bool}
    {rest : ColdScript} (hkind : ForQueries projectId statement)
    (hrest : rest.Keeps (schemaRules pool) [.query] fun store =>
      ProjectReady pool projectId store ∧ store.queryConnected = true) :
    (onQuery statement accepted rest).Keeps (schemaRules pool) [] (ProjectReady pool projectId) := by
  refine keeps_lock (keeps_queryConnected List.mem_cons_self (stable_projectReady projectId) ?_ ?_)
  · exact keeps_unlock ((schemaRules pool).stable_true []) (fun _ _ _ => trivial) keeps_done
  · exact keeps_query hkind hrest

/-- A connection that a thread closes. -/
theorem close_inStep {store store' : ColdStore} (h : InStep pool store)
    (hissued : store'.issued = store.issued)
    (hlisted : store'.projectSchemas = store.projectSchemas)
    (hclosed : Closed pool store → Closed pool store') : InStep pool store' := by
  refine ⟨hissued ▸ h.permitted, fun projectId hmem => ?_, fun projectId hdone => ?_,
    fun hdrop => ?_⟩
  · rw [hissued]
    exact h.listed projectId (hlisted ▸ hmem)
  · rw [hissued] at hdone
    rw [hissued, hlisted]
    exact h.created projectId hdone
  · exact hclosed (h.dropped (hissued ▸ hdrop))

/-- Closing the connections keeps the rules. -/
theorem closeConnections_keeps {rest : ColdScript} {indices : List Nat}
    (hknown : (schemaRules pool).Stable [] known)
    (hrest : rest.Keeps (schemaRules pool) [] fun store =>
      known store ∧ ∀ index ∈ indices, store.connected index = false) :
    (closeConnections rest indices).Keeps (schemaRules pool) [] known := by
  induction indices generalizing known with
  | nil => exact hrest.weaken fun _ _ h => ⟨h, fun _ hnone => absurd hnone List.not_mem_nil⟩
  | cons index others ih =>
      have hgone := hknown.and (stable_gone index)
      have hclosed : ∀ store : ColdStore, (closeConnection index store).connected index = false :=
        fun store => Function.update_self ..
      have hallows : ∀ store : ColdStore,
          Allows [.connection index] store (closeConnection index store) := by
        intro store
        refine ⟨List.prefix_rfl, fun other hopen => ?_, fun other hnot => ?_, fun h => h,
          fun _ => rfl, fun _ => rfl⟩
        · by_cases hother : other = index
          · rw [hother, hclosed] at hopen
            cases hopen
          · have hsame : (closeConnection index store).connected other = store.connected other :=
              Function.update_of_ne hother ..
            rwa [hsame] at hopen
        · have hother : other ≠ index := by
            rintro rfl
            exact hnot List.mem_cons_self
          exact Function.update_of_ne hother ..
      refine keeps_lock ⟨_, hgone.mono fun _ hmem => absurd hmem List.not_mem_nil,
        fun store hinv hstore => ⟨?_, hallows store, ?_, hclosed store⟩, ?_⟩
      · refine close_inStep hinv rfl rfl fun hall => ⟨fun other hother => ?_, hall.2⟩
        exact Bool.eq_false_iff.mpr fun hopen => by
          have hstill := (hallows store).connections other hopen
          rw [hall.1 other hother] at hstill
          cases hstill
      · exact hknown _ store _ (fun _ _ h => absurd h List.not_mem_nil) hinv (hallows store) hstore
      · refine keeps_unlock hgone (fun _ _ h => h) (ih hgone (hrest.weaken fun store _ h => ?_))
        exact ⟨h.1.1, List.forall_mem_cons.mpr ⟨h.1.2, h.2⟩⟩

theorem stable_closed {holding : List MutexId} :
    (schemaRules pool).Stable holding (Closed pool) :=
  fun others store store' hothers hinv hallows hclosed =>
    ⟨fun index hindex => stable_gone index others store store' hothers hinv hallows
      (hclosed.1 index hindex),
    stable_queryGone others store store' hothers hinv hallows hclosed.2⟩

/-- The last statement: nothing is connected any more. -/
theorem drop_inStep {accepted : Bool} {store : ColdStore} (h : InStep pool store)
    (hclosed : Closed pool store) : InStep pool (issue .dropDatabase accepted store) := by
  refine ⟨licensed_snoc h.permitted trivial, fun projectId hlisted => ?_,
    fun projectId hdone => ?_, fun _ => hclosed⟩
  · exact List.mem_append_left _ (h.listed projectId hlisted)
  · exact Or.inr ⟨accepted, List.mem_append_right _ List.mem_cons_self⟩

/-- Dropping the database keeps the rules. -/
theorem dropDatabaseForTesting_keeps (reachable : Bool) :
    (dropDatabaseForTesting pool reachable accepts).Keeps (schemaRules pool) [] fun _ => True := by
  refine keeps_guard fun _ => keeps_guard fun _ =>
    closeConnections_keeps ((schemaRules pool).stable_true []) ?_
  have hgone : ∀ holding, (schemaRules pool).Stable holding fun store =>
      ∀ index ∈ List.range pool.size, store.connected index = false :=
    fun _ others store store' hothers hinv hallows hall index hindex =>
      stable_gone index others store store' hothers hinv hallows (hall index hindex)
  refine Script.Keeps.weaken ?_ fun store _ h => h.2
  have hallows : ∀ store : ColdStore, Allows [.query] store (closeQuery store) := fun _ =>
    ⟨List.prefix_rfl, fun _ h => h, fun _ _ => rfl, (fun h => nomatch h),
      fun hnot => absurd List.mem_cons_self hnot, fun _ => rfl⟩
  refine keeps_lock ⟨_, stable_closed, fun store hinv h => ⟨?_, hallows store, ?_⟩, ?_⟩
  · exact close_inStep hinv rfl rfl fun hall => ⟨hall.1, rfl⟩
  · exact ⟨fun index hindex => h index (List.mem_range.mpr hindex), rfl⟩
  refine keeps_unlock stable_closed (fun _ _ h => h) (keeps_guard fun _ => ?_)
  refine ⟨_, stable_dropped, fun store hinv hclosed => ⟨drop_inStep hinv hclosed,
    issue_allowed _ _ _, ⟨_, List.mem_append_right _ List.mem_cons_self⟩⟩, ?_⟩
  refine keeps_guard fun _ => keeps_lock ⟨fun _ => True,
    (schemaRules pool).stable_true _, fun store hinv hdropped => ⟨?_, ?_, trivial⟩, ?_⟩
  · exact ⟨hinv.permitted, fun _ hnone => absurd hnone List.not_mem_nil, fun _ _ => Or.inr hdropped,
      hinv.dropped⟩
  · exact ⟨List.prefix_rfl, fun _ h => h, fun _ _ => rfl, fun h => h, fun _ => rfl,
      fun hnot => absurd List.mem_cons_self hnot⟩
  · exact keeps_unlock ((schemaRules pool).stable_true []) (fun _ _ _ => trivial) keeps_done

/-- **Every call** keeps the log permitted. -/
theorem script_keeps (pool : Pool) (program : Program) :
    (program.script pool).Keeps (schemaRules pool) [] fun _ => True := by
  have htrue := (schemaRules pool).stable_true []
  obtain ⟨call, accepts⟩ := program
  cases call with
  | ensureSchema =>
      show (ensureSchema pool (accepts 0) fun _ => .done).Keeps (schemaRules pool) [] _
      refine ensureSchema_keeps htrue ?_ fun _ => ?_ <;> exact keeps_done
  | ensureProjectSchema projectId =>
      show (ensureProjectSchema pool projectId (accepts 0) fun _ => .done).Keeps _ [] _
      refine ensureProjectSchema_keeps htrue ?_ fun _ => ?_ <;> exact keeps_done
  | insertRaw projectId batch =>
      refine keeps_guard fun _ =>
        ensureProjectSchema_keeps htrue keeps_done fun _ => ?_
      refine keeps_guard fun _ => keeps_guard fun _ => ?_
      exact (insertOnConnection_keeps projectId _ batch).weaken fun _ _ _ => trivial
  | insertRawOnConnection projectId index batch =>
      exact insertOnConnection_keeps projectId index batch
  | queryRaw projectId ids start finish granularity kind mismatch =>
      refine keeps_guard fun _ => keeps_guard fun _ =>
        keeps_guard fun _ => keeps_guard fun _ =>
        ensureProjectSchema_keeps htrue keeps_done fun _ => ?_
      refine keeps_guard fun _ => keeps_guard fun _ =>
        keeps_guard fun _ => ?_
      have hleave : ∀ known, (Script.unlock .query .done : ColdScript).Keeps (schemaRules pool)
          [.query] known := fun _ => keeps_unlock htrue (fun _ _ _ => trivial) keeps_done
      refine Script.Keeps.weaken (onQuery_keeps rfl ?_) fun _ _ h => h.2
      exact keeps_ite (fun _ => keeps_query rfl (hleave _)) fun _ => hleave _
  | queryHistoryOverview projectId ids start finish =>
      refine keeps_guard fun _ => keeps_guard fun _ =>
        keeps_guard fun _ =>
        ensureProjectSchema_keeps htrue keeps_done fun _ => ?_
      refine keeps_guard fun _ => keeps_guard fun _ => ?_
      refine Script.Keeps.weaken (onQuery_keeps rfl ?_) fun _ _ h => h.2
      exact keeps_unlock htrue (fun _ _ _ => trivial) keeps_done
  | dropDatabaseForTesting reachable => exact dropDatabaseForTesting_keeps reachable

end Calls

/-- A client that has sent nothing yet; some connections may have failed. -/
theorem start_inStep (pool : Pool) {store : ColdStore} (hissued : store.issued = [])
    (hlisted : store.projectSchemas = []) : InStep pool store := by
  refine ⟨hissued ▸ licensed_nil Permitted, fun projectId hmem => ?_, fun projectId hdone => ?_,
    fun ⟨accepted, hmem⟩ => ?_⟩
  · rw [hlisted] at hmem
    exact absurd hmem List.not_mem_nil
  · rw [Done, hissued] at hdone
    exact absurd hdone List.not_mem_nil
  · rw [hissued] at hmem
    exact absurd hmem List.not_mem_nil

/-- **The protocol of the cold store.**  In every run of any calls, under every admission
    policy and whatever the database answers, each statement of the log has what it needs in
    front of it. -/
theorem schema_protocol {n : Nat} (pool : Pool) (admits : AdmissionPolicy n)
    {store : ColdStore} (hissued : store.issued = []) (hlisted : store.projectSchemas = [])
    (steps : List (ColdStep n))
    (hrun : Admissible (coldStep pool) (Enabled admits) { data := store } steps) :
    Licensed Permitted (Transition.run (coldStep pool) { data := store } steps).data.issued :=
  (Guarded.run (script_keeps pool) (guarded_start
    (start_inStep pool hissued hlisted)) hrun).invariant.permitted

/-- The second thread finds the stable of the first one. -/
theorem schema_protocol_sample :
    Licensed Permitted
        (Transition.run (coldStep { size := 1 }) ({ data := {} } : ColdState 2)
          sampleSteps).data.issued ∧
      (Transition.run (coldStep { size := 1 }) ({ data := {} } : ColdState 2)
        sampleSteps).data.issued.getLast? = some ⟨.query "p" none, true⟩ :=
  ⟨schema_protocol { size := 1 } writerFirst rfl rfl sampleSteps (by decide +kernel),
    by decide +kernel⟩

end SchemaProtocol
