import TimeSeriesEngine.UpdateRange
import TimeSeriesEngine.WindowRuns

/-!
# The report of a window update

Derived refresh and continuous checking skip work on the strength of what an
update reports.  `update_report_sound` says, in any state a run of the service
can reach, that the report of an accepted update is complete (no sequence
changes without being listed), that its eviction flags are exact, and that a
sequence flagged as incremental really only grew at its end.
-/

namespace UpdateReport

open TseTypes KeyedTable OrderedSeries SeqWindow SeqContent HotWindow WindowContent WindowUpdate
open WindowRefinement WindowRuns UpdateRange Transition

/-- The report says everything that happened to one sequence. -/
structure ReportSound (p : ProjectId) (s : SequenceId) (data : TimeseriesBatch)
    (before after : WindowService) (report : WindowUpdateResult) (start : Timestamp) : Prop where
  listed : retained p s after ≠ retained p s before → s ∈ report.changedSequenceIds
  evicted : (sequenceUpdateOf s report).windowEvicted = true ↔
    ∃ q ∈ retained p s before ++ incomingFor s data.points, q.time < start
  newer : (sequenceUpdateOf s report).incrementalSafe = true →
    ∀ old ∈ retained p s before, ∀ q ∈ incomingFor s data.points, old.time < q.time
  affected : (sequenceUpdateOf s report).incrementalSafe = true → ∃ a b,
    (sequenceUpdateOf s report).affectedStartTime = some a ∧
      (sequenceUpdateOf s report).affectedEndTime = some b ∧
      (∃ q ∈ incomingFor s data.points, q.time = a) ∧
      (∃ q ∈ incomingFor s data.points, q.time = b) ∧
      ∀ q ∈ incomingFor s data.points, a ≤ q.time ∧ q.time ≤ b
  appended : (sequenceUpdateOf s report).incrementalSafe = true →
    retained p s after = (retained p s before ++ incomingFor s data.points).filter
      fun q => decide (start ≤ q.time)

/-- Only an accepted update reports success. -/
theorem accepted_of_code {p : ProjectId} {data : TimeseriesBatch} {override : Option Int}
    {service : WindowService}
    (h : (updateWindowIncremental p data override service).2.operation.code = .ok) :
    Accepted p data override := by
  rcases readBatch_cases p data override with ⟨hacc, _⟩ | ⟨hrej, _⟩
  · exact hacc
  · have hcode := (update_rejected hrej service).2
    rw [h] at hcode
    cases hcode

/-- Every accepted update does, whatever the windows hold. -/
theorem code_of_accepted {p : ProjectId} {data : TimeseriesBatch} {override : Option Int}
    (h : Accepted p data override) (service : WindowService) :
    (updateWindowIncremental p data override service).2.operation.code = .ok := by
  rcases readBatch_cases p data override with ⟨_, heq⟩ | ⟨hrej, _⟩
  · rw [updateWindowIncremental, heq]
    rfl
  · exact absurd h hrej

/-- The times of a sequence after a batch, before anything is evicted. -/
theorem exists_grown {p : ProjectId} {s : SequenceId} {data : TimeseriesBatch}
    {service : WindowService} (hv : AllValid service.sequenceWindows) (test : Timestamp → Prop) :
    (∃ q ∈ grown p s data service, test q.time) ↔
      ∃ q ∈ retained p s service ++ incomingFor s data.points, test q.time := by
  have hasc := hv.ascending (scopedSequenceKey p s)
  constructor
  · rintro ⟨q, hq, ht⟩
    rcases (mem_assignAll _ hasc _ q).mp hq with h | ⟨_, h⟩
    · exact ⟨q, List.mem_append_right _ (lastAt_some _ h).1, ht⟩
    · exact ⟨q, List.mem_append_left _ h, ht⟩
  · rintro ⟨q, hq, ht⟩
    -- a point a later one overrides leaves its time behind
    cases hlast : lastAt RawTimeseriesPoint.time q.time (incomingFor s data.points) with
    | some r =>
        have hr := lastAt_some _ hlast
        refine ⟨r, (mem_assignAll _ hasc _ r).mpr (Or.inl ?_), by rwa [hr.2]⟩
        rw [hr.2]
        exact hlast
    | none =>
        rcases List.mem_append.mp hq with hold | hnew
        · exact ⟨q, (mem_assignAll _ hasc _ q).mpr (Or.inr ⟨hlast, hold⟩), ht⟩
        · exact absurd rfl ((lastAt_eq_none _).mp hlast q hnew)

/-- One accepted update of a valid state. -/
theorem reportSound {p : ProjectId} {data : TimeseriesBatch} {override : Option Int}
    (hacc : Accepted p data override) {service : WindowService}
    (hv : AllValid service.sequenceWindows) (s : SequenceId) :
    ReportSound p s data service (updateWindowIncremental p data override service).1
      (updateWindowIncremental p data override service).2
      (startAfter p data override service) := by
  have hrep := update_reported hacc hv
  have hafter := update_retained hacc hv s
  refine ⟨fun hdiff => ?_, ?_, fun hsafe old hold q hq => ?_, fun hsafe => ?_, fun hsafe => ?_⟩
  · -- a sequence that is not listed got no point and lost none
    by_contra hnot
    have hquiet : (¬ ∃ q ∈ data.points, q.sequenceId = s) ∧
        ¬ ∃ q ∈ grown p s data service, q.time < startAfter p data override service := by
      rw [hrep.changed s, not_or] at hnot
      exact hnot
    have hnone : incomingFor s data.points = [] :=
      List.eq_nil_iff_forall_not_mem.mpr fun q hq =>
        hquiet.1 ⟨q, (mem_incomingFor.mp hq).1, (mem_incomingFor.mp hq).2⟩
    have hgrown : grown p s data service = retained p s service := by
      rw [grown, hnone, assignAll_nil]
      rfl
    refine hdiff ?_
    rw [hafter, ← hgrown]
    exact List.filter_eq_self.mpr fun q hq =>
      decide_eq_true (not_lt.mp fun hlt => hquiet.2 ⟨q, hq, hlt⟩)
  · rw [hrep.evicted s]
    exact exists_grown hv (· < startAfter p data override service)
  · have hgrown := (hrep.safe s hsafe).2
    have hasc : Ascending RawTimeseriesPoint.time (grown p s data service) :=
      (ascending_retained hv p s).assignAll _ _
    rw [hgrown] at hasc
    exact ((ascending_append _).mp hasc).2.2 old hold q hq
  · obtain ⟨a, b, ha, hb, hwithin, hfirst, hlast⟩ :=
      hrep.affected s (hrep.safe s hsafe).1
    exact ⟨a, b, ha, hb, hfirst, hlast, hwithin⟩
  · rw [hafter, (hrep.safe s hsafe).2]

/-- **The update report is complete and its safety flag is sound.**  After any
    run of operations of any projects, an accepted update reports a window start,
    and about every sequence of its project what really happened. -/
theorem update_report_sound (calls : List ServiceCall) (p : ProjectId) (data : TimeseriesBatch)
    (override : Option Int)
    (hok : (updateWindowIncremental p data override (run callStep {} calls)).2.operation.code =
      .ok) :
    ∃ start, (updateWindowIncremental p data override
        (run callStep {} calls)).2.windowStartTime = some start ∧
      ∀ s, ReportSound p s data (run callStep {} calls)
        (updateWindowIncremental p data override (run callStep {} calls)).1
        (updateWindowIncremental p data override (run callStep {} calls)).2 start := by
  have hv := reachable_valid calls
  have hacc := accepted_of_code hok
  exact ⟨_, (update_reported hacc hv).windowStartTime, fun s => reportSound hacc hv s⟩

/-- A whole number at a time. -/
private def reading (s : SequenceId) (t : Timestamp) : RawTimeseriesPoint :=
  { time := t, sequenceId := s, value := .int64 t }

/-- The third batch evicts from a sequence it does not mention. -/
theorem update_report_sound_eviction :
    ∃ start, (updateWindowIncremental "p" { points := [reading "s" 20] } none
        (run callStep {} [⟨"p", .configure 10⟩,
          ⟨"p", .update { points := [reading "s" 1, reading "t" 2] } none⟩])).2.windowStartTime =
            some start ∧
      ∀ s, ReportSound "p" s { points := [reading "s" 20] }
        (run callStep {} [⟨"p", .configure 10⟩,
          ⟨"p", .update { points := [reading "s" 1, reading "t" 2] } none⟩])
        (updateWindowIncremental "p" { points := [reading "s" 20] } none
          (run callStep {} [⟨"p", .configure 10⟩,
            ⟨"p", .update { points := [reading "s" 1, reading "t" 2] } none⟩])).1
        (updateWindowIncremental "p" { points := [reading "s" 20] } none
          (run callStep {} [⟨"p", .configure 10⟩,
            ⟨"p", .update { points := [reading "s" 1, reading "t" 2] } none⟩])).2 start :=
  update_report_sound _ "p" _ none (by decide +kernel)

end UpdateReport
