import TimeSeriesEngine.HotIngest

/-!
# Sending a violation report

`receiveConstraintResult` of `constraint_result_receiver_client.cpp`: a report goes to
the unified service in one call, which is repeated after a transport error, with a
delay in front of each repetition and a budget for all of it.

* `receiveConstraintResult` — the retry loop, over any clock and any replies;
* `retries_exact` — an answer ends the loop, and only a transport error is retried;
* `ends_in_budget` — the loop is over when the budget is;
* `replies_decide` — with a little time to spare the replies alone decide the result.
-/

namespace ResultReceiver

open TseTypes HotIngest

/-! ## The loop -/

/-- The steady clock counts nanoseconds. -/
def seconds (n : Nat) : Nat := n * 1000000000

/-- `kAttemptDeadline`. -/
def kAttemptDeadline : Nat := seconds 1

/-- `kTotalRetryBudget`. -/
def kTotalRetryBudget : Nat := seconds 10

/-- `kRetryDelays`. -/
def kRetryDelays : List Nat := [seconds 1, seconds 2, seconds 3]

/-- `duration_cast<milliseconds>`. -/
def wholeMilliseconds (d : Nat) : Nat := d / 1000000 * 1000000

/-- What a call of the stub comes back with: an answer of the service, or the text of a
    transport error. -/
inductive Reply where
  | answer (success : Bool) (message : String)
  | transportError (message : String)
  deriving DecidableEq

/-- One turn of the loop as its surroundings decide it: the clock in front of the call,
    the reply, and the clock behind it. -/
structure Turn where
  entered : Nat
  reply : Reply
  left : Nat

/-- A call that was made: its deadline, and the delay slept behind it. -/
structure SentCall where
  timeout : Nat
  delay : Nat := 0
  deriving DecidableEq

/-- What an answer of the service makes the result. -/
def answered (count : Nat) (success : Bool) (message : String) : OperationResult :=
  if !success then
    { code := .internalError
      failedCount := count
      message := "constraint result receiver rejected result: " ++ message }
  else okResult count (if message.isEmpty then "constraint result notified" else message)

/-- The result when the budget runs out in front of an attempt. -/
def budgetExceeded (count : Nat) (lastError : String) : OperationResult :=
  { code := .unavailable
    failedCount := count
    message :=
      "constraint result receiver RPC exceeded the 10-second retry budget: " ++ lastError }

/-- The result of the last attempt. -/
def attemptsExhausted (count attempts : Nat) (lastError : String) : OperationResult :=
  { code := .unavailable
    failedCount := count
    message := "constraint result receiver RPC failed after " ++ toString attempts ++
      " attempts: " ++ lastError }

/-- The loop from one attempt on, with the delays that are left; a remaining time below
    zero is zero here. -/
def retryLoop (deadline : Nat) (count : Nat) (turns : Nat → Turn) :
    List Nat → Nat → String → OperationResult × List SentCall
  | delays, attempt, lastError =>
      let turn := turns attempt
      let remaining := deadline - turn.entered
      if remaining = 0 then (budgetExceeded count lastError, [])
      else
        let timeout := min (wholeMilliseconds remaining) kAttemptDeadline
        match turn.reply with
        | .answer success message => (answered count success message, [{ timeout := timeout }])
        | .transportError error =>
            match delays with
            | [] => (attemptsExhausted count (attempt + 1) error, [{ timeout := timeout }])
            | delay :: rest =>
                let next := retryLoop deadline count turns rest (attempt + 1) error
                (next.1,
                  { timeout := timeout, delay := min delay (deadline - turn.left) } :: next.2)

/-- `receiveConstraintResult`, called at `now`: the result, and the calls that were made.
    An empty address leaves the client without a stub. -/
def receiveConstraintResult (configured : Bool) (report : ConstraintNotification)
    (now : Nat) (turns : Nat → Turn) : OperationResult × List SentCall :=
  if report.constraintIds.isEmpty then (okResult 0 "no constraint violations to notify", [])
  else if !configured then
    (invalidArgument "constraint result receiver address is not configured", [])
  else
    retryLoop (now + kTotalRetryBudget) report.constraintIds.length turns kRetryDelays 0 ""

/-! ## What is retried -/

section Loop

variable {deadline : Nat} {count : Nat} {turns : Nat → Turn}

/-- The three ways a turn ends. -/
theorem retryLoop_cases (deadline count : Nat) (turns : Nat → Turn) (delays : List Nat)
    (attempt : Nat) (lastError : String) :
    (deadline ≤ (turns attempt).entered ∧
        retryLoop deadline count turns delays attempt lastError =
          (budgetExceeded count lastError, [])) ∨
      ((turns attempt).entered < deadline ∧
        ((∃ success message, (turns attempt).reply = .answer success message ∧
            retryLoop deadline count turns delays attempt lastError =
              (answered count success message,
                [{ timeout := min (wholeMilliseconds (deadline - (turns attempt).entered))
                    kAttemptDeadline }])) ∨
          ∃ error, (turns attempt).reply = .transportError error ∧
            ((delays = [] ∧ retryLoop deadline count turns delays attempt lastError =
                (attemptsExhausted count (attempt + 1) error,
                  [{ timeout := min (wholeMilliseconds (deadline - (turns attempt).entered))
                      kAttemptDeadline }])) ∨
              ∃ delay rest, delays = delay :: rest ∧
                retryLoop deadline count turns delays attempt lastError =
                  ((retryLoop deadline count turns rest (attempt + 1) error).1,
                    { timeout := min (wholeMilliseconds (deadline - (turns attempt).entered))
                        kAttemptDeadline
                      delay := min delay (deadline - (turns attempt).left) } ::
                      (retryLoop deadline count turns rest (attempt + 1) error).2)))) := by
  rw [retryLoop]
  simp only
  by_cases hover : deadline - (turns attempt).entered = 0
  · rw [if_pos hover]
    exact Or.inl ⟨by omega, rfl⟩
  · rw [if_neg hover]
    refine Or.inr ⟨by omega, ?_⟩
    cases hreply : (turns attempt).reply with
    | answer success message => exact Or.inl ⟨success, message, rfl, rfl⟩
    | transportError error =>
        refine Or.inr ⟨error, rfl, ?_⟩
        cases delays with
        | nil => exact Or.inl ⟨rfl, rfl⟩
        | cons delay rest => exact Or.inr ⟨delay, rest, rfl, rfl⟩

/-- The attempts in front of a number failed on the way. -/
def FailedBefore (turns : Nat → Turn) (attempt n : Nat) : Prop :=
  ∀ m < n, ∃ error, (turns (attempt + m)).reply = .transportError error

/-- How a loop that has made these calls has ended. -/
inductive Ending (deadline count : Nat) (turns : Nat → Turn) (delays : List Nat)
    (attempt : Nat) : OperationResult × List SentCall → Prop where
  /-- A call was answered. -/
  | answered {sent : List SentCall} {n : Nat} {success : Bool} {message : String}
      (few : n ≤ delays.length) (earlier : FailedBefore turns attempt n)
      (last : (turns (attempt + n)).reply = .answer success message)
      (made : sent.length = n + 1) :
      Ending deadline count turns delays attempt (answered count success message, sent)
  /-- All attempts have been made, and the last one failed as well. -/
  | exhausted {sent : List SentCall} {error : String}
      (earlier : FailedBefore turns attempt delays.length)
      (last : (turns (attempt + delays.length)).reply = .transportError error)
      (made : sent.length = delays.length + 1) :
      Ending deadline count turns delays attempt
        (attemptsExhausted count (attempt + delays.length + 1) error, sent)
  /-- The budget was over in front of the next attempt. -/
  | expired {sent : List SentCall} {lastError : String}
      (earlier : FailedBefore turns attempt sent.length) (few : sent.length ≤ delays.length)
      (late : deadline ≤ (turns (attempt + sent.length)).entered) :
      Ending deadline count turns delays attempt (budgetExceeded count lastError, sent)

theorem failedBefore_zero (attempt : Nat) : FailedBefore turns attempt 0 :=
  fun m hm => absurd hm (Nat.not_lt_zero m)

theorem FailedBefore.cons {attempt n : Nat} {error : String}
    (hreply : (turns attempt).reply = .transportError error)
    (h : FailedBefore turns (attempt + 1) n) : FailedBefore turns attempt (n + 1) := by
  intro m hm
  cases m with
  | zero => exact ⟨error, hreply⟩
  | succ m =>
      obtain ⟨later, hlater⟩ := h m (Nat.lt_of_succ_lt_succ hm)
      exact ⟨later, by rwa [show attempt + (m + 1) = attempt + 1 + m by omega]⟩

/-- One more failed call in front of a loop. -/
theorem Ending.cons {delays : List Nat} {attempt : Nat} {error : String}
    (hreply : (turns attempt).reply = .transportError error)
    {outcome : OperationResult × List SentCall}
    (h : Ending deadline count turns delays (attempt + 1) outcome) (delay : Nat)
    (call : SentCall) :
    Ending deadline count turns (delay :: delays) attempt (outcome.1, call :: outcome.2) := by
  have hshift : ∀ n, attempt + 1 + n = attempt + (n + 1) := fun n => by omega
  cases h with
  | answered few earlier last made =>
      refine .answered (Nat.succ_le_succ few) (earlier.cons hreply) ?_
        (congrArg Nat.succ made)
      rwa [← hshift]
  | @exhausted sent lastError earlier last made =>
      have hcount : attempt + 1 + delays.length + 1 = attempt + (delay :: delays).length + 1 := by
        rw [List.length_cons]
        omega
      rw [hcount]
      refine .exhausted (earlier.cons hreply) ?_ (congrArg Nat.succ made)
      rwa [List.length_cons, ← hshift]
  | expired earlier few late =>
      refine .expired (earlier.cons hreply) (Nat.succ_le_succ few) ?_
      rwa [List.length_cons, ← hshift]

/-- Every call is entered in the budget. -/
theorem retryLoop_entered (delays : List Nat) (attempt : Nat) (lastError : String) :
    ∀ n < (retryLoop deadline count turns delays attempt lastError).2.length,
      (turns (attempt + n)).entered < deadline := by
  induction delays generalizing attempt lastError with
  | nil =>
      rcases retryLoop_cases deadline count turns []
        attempt lastError with ⟨-, h⟩ | ⟨hin, ⟨_, _, -, h⟩ | ⟨_, -, ⟨-, h⟩ | ⟨_, _, hnil, -⟩⟩⟩
      · rw [h]
        exact fun n hn => absurd hn (Nat.not_lt_zero n)
      · rw [h]
        exact fun n hn => Nat.lt_one_iff.mp hn ▸ hin
      · rw [h]
        exact fun n hn => Nat.lt_one_iff.mp hn ▸ hin
      · cases hnil
  | cons first later ih =>
      rcases retryLoop_cases deadline count turns
        (first :: later) attempt lastError with ⟨-, h⟩ |
          ⟨hin, ⟨_, _, -, h⟩ | ⟨error, -, ⟨hnil, -⟩ | ⟨delay, rest, hcons, h⟩⟩⟩
      · rw [h]
        exact fun n hn => absurd hn (Nat.not_lt_zero n)
      · rw [h]
        exact fun n hn => Nat.lt_one_iff.mp hn ▸ hin
      · cases hnil
      · obtain ⟨rfl, rfl⟩ := List.cons.inj hcons
        rw [h]
        intro n hn
        cases n with
        | zero => exact hin
        | succ n =>
            rw [show attempt + (n + 1) = attempt + 1 + n by omega]
            exact ih (attempt + 1) error n (Nat.lt_of_succ_lt_succ hn)

/-- How the loop ends, from any attempt. -/
theorem retryLoop_ending (delays : List Nat) (attempt : Nat) (lastError : String) :
    Ending deadline count turns delays attempt
      (retryLoop deadline count turns delays attempt lastError) := by
  induction delays generalizing attempt lastError with
  | nil =>
      rcases retryLoop_cases deadline count turns []
        attempt lastError with ⟨hlate, h⟩ | ⟨-, ⟨success, message, hreply, h⟩ |
          ⟨error, hreply, ⟨-, h⟩ | ⟨delay, rest, hnil, -⟩⟩⟩
      · rw [h]
        exact .expired (failedBefore_zero attempt) (le_refl _) hlate
      · rw [h]
        exact .answered (le_refl _) (failedBefore_zero attempt) hreply rfl
      · rw [h]
        exact .exhausted (failedBefore_zero attempt) hreply rfl
      · cases hnil
  | cons first later ih =>
      rcases retryLoop_cases deadline count turns
        (first :: later) attempt lastError with ⟨hlate, h⟩ |
          ⟨-, ⟨success, message, hreply, h⟩ | ⟨error, hreply, ⟨hnil, -⟩ | ⟨delay, rest, hcons, h⟩⟩⟩
      · rw [h]
        exact .expired (failedBefore_zero attempt) (Nat.zero_le _) hlate
      · rw [h]
        exact .answered (Nat.zero_le _) (failedBefore_zero attempt) hreply rfl
      · cases hnil
      · obtain ⟨rfl, rfl⟩ := List.cons.inj hcons
        rw [h]
        exact (ih (attempt + 1) error).cons hreply _ _

end Loop

/-- A report that is sent at all is sent by the loop. -/
theorem receive_eq_loop {report : ConstraintNotification} (hids : report.constraintIds ≠ [])
    (now : Nat) (turns : Nat → Turn) :
    receiveConstraintResult true report now turns =
      retryLoop (now + kTotalRetryBudget) report.constraintIds.length turns kRetryDelays 0 "" := by
  rw [receiveConstraintResult, if_neg (by simpa using hids), if_neg (by simp)]

theorem receive_ending {report : ConstraintNotification} (hids : report.constraintIds ≠ [])
    (now : Nat) (turns : Nat → Turn) :
    Ending (now + kTotalRetryBudget) report.constraintIds.length turns kRetryDelays 0
      (receiveConstraintResult true report now turns) := by
  rw [receive_eq_loop hids]
  exact retryLoop_ending _ _ _

/-- At most four calls are made, whatever the report and the address. -/
theorem sent_length_le (configured : Bool) (report : ConstraintNotification) (now : Nat)
    (turns : Nat → Turn) :
    (receiveConstraintResult configured report now turns).2.length ≤ 4 := by
  by_cases hids : report.constraintIds = []
  · rw [receiveConstraintResult, if_pos (by simp [hids])]
    exact Nat.zero_le _
  cases configured with
  | false =>
      rw [receiveConstraintResult, if_neg (by simpa using hids), if_pos (by decide)]
      exact Nat.zero_le _
  | true =>
      have hending := receive_ending hids now turns
      generalize receiveConstraintResult true report now turns = outcome at hending ⊢
      cases hending with
      | answered few earlier last made => exact made ▸ Nat.succ_le_succ few
      | exhausted earlier last made => exact le_of_eq made
      | expired earlier few late => exact le_trans few (by decide)

/-- The last of some calls was answered like this. -/
def LastAnswer (turns : Nat → Turn) (sent : List SentCall) (success : Bool) : Prop :=
  ∃ n message, sent.length = n + 1 ∧ (turns n).reply = .answer success message

theorem answered_code (count : Nat) (success : Bool) (message : String) :
    (answered count success message).code = if success then .ok else .internalError := by
  cases success <;> rfl

/-- **An answer ends the loop.**  Whatever the clock shows and the service replies: at
    most four calls are made, every call but the last one met a transport error, and the
    result is a success, or a rejection, exactly when the last call was answered so. -/
theorem retries_exact {report : ConstraintNotification} (hids : report.constraintIds ≠ [])
    (now : Nat) (turns : Nat → Turn) :
    (receiveConstraintResult true report now turns).2.length ≤ 4 ∧
      (∀ n, n + 1 < (receiveConstraintResult true report now turns).2.length →
        ∃ error, (turns n).reply = .transportError error) ∧
      (isSuccessful (receiveConstraintResult true report now turns).1.code = true ↔
        LastAnswer turns (receiveConstraintResult true report now turns).2 true) ∧
      ((receiveConstraintResult true report now turns).1.code = .internalError ↔
        LastAnswer turns (receiveConstraintResult true report now turns).2 false) := by
  refine ⟨sent_length_le true report now turns, ?_⟩
  have hending := receive_ending hids now turns
  generalize receiveConstraintResult true report now turns = outcome at hending ⊢
  -- a loop whose calls all failed has no answer
  have hnone : ∀ {sent : List SentCall}, FailedBefore turns 0 sent.length →
      ∀ success, ¬ LastAnswer turns sent success := by
    rintro sent hfailed success ⟨n, message, hmade, hreply⟩
    obtain ⟨error, herror⟩ := hfailed n (by omega)
    rw [Nat.zero_add, hreply] at herror
    cases herror
  cases hending with
  | @answered sent n success message few earlier last made =>
      rw [Nat.zero_add] at last
      have hiff : ∀ wanted, LastAnswer turns sent wanted ↔ success = wanted := by
        refine fun wanted => ⟨?_, fun heq => ⟨n, message, made, heq ▸ last⟩⟩
        rintro ⟨m, text, hm, htext⟩
        obtain rfl : n = m := by omega
        rw [last] at htext
        cases htext
        rfl
      refine ⟨fun m hm => ?_, ?_, ?_⟩
      · have hlt : m < n := by
          rw [show (answered report.constraintIds.length success message, sent).2 = sent from rfl,
            made] at hm
          exact Nat.lt_of_succ_lt_succ hm
        simpa using earlier m hlt
      · rw [hiff, answered_code]
        cases success <;> decide
      · rw [hiff, answered_code]
        cases success <;> decide
  | @exhausted sent error earlier last made =>
      have hfailed : FailedBefore turns 0 sent.length := by
        rw [made]
        intro m hm
        rcases Nat.lt_succ_iff_lt_or_eq.mp hm with hlt | rfl
        · exact earlier m hlt
        · exact ⟨error, last⟩
      refine ⟨fun m hm => by simpa using hfailed m (Nat.lt_of_succ_lt hm), ?_, ?_⟩
      · exact iff_of_false (by decide : ¬ isSuccessful .unavailable = true) (hnone hfailed _)
      · exact iff_of_false (fun h => by cases h) (hnone hfailed _)
  | @expired sent lastError earlier few late =>
      refine ⟨fun m hm => by simpa using earlier m (Nat.lt_of_succ_lt hm), ?_, ?_⟩
      · exact iff_of_false (by decide : ¬ isSuccessful .unavailable = true) (hnone earlier _)
      · exact iff_of_false (fun h => by cases h) (hnone earlier _)

/-- A report of two rules on two sequences. -/
def sampleReport : ConstraintNotification :=
  { projectId := "default"
    time := 123456
    constraintIds := ["constraint-a", "constraint-b"]
    sequenceIds := ["humidity-1", "temperature-1"] }

/-- A service that cannot be reached twice and then answers, without taking time. -/
def sampleTurns (success : Bool) (n : Nat) : Turn :=
  { entered := seconds (if n = 0 then 0 else if n = 1 then 1 else if n = 2 then 3 else 6)
    reply := if n < 2 then .transportError "receiver unavailable" else .answer success "seen"
    left := seconds (if n = 0 then 0 else if n = 1 then 1 else if n = 2 then 3 else 6) }

/-- A rejection behind two transport errors is not sent again. -/
theorem retries_exact_rejected :
    (receiveConstraintResult true sampleReport 0 (sampleTurns false)).2.length ≤ 4 ∧
      (receiveConstraintResult true sampleReport 0 (sampleTurns false)).1.code = .internalError := by
  obtain ⟨hlength, -, -, hrejected⟩ :=
    @retries_exact sampleReport (by decide) 0 (sampleTurns false)
  exact ⟨hlength, hrejected.mpr ⟨2, "seen", by decide +kernel, rfl⟩⟩

/-! ## Time -/

/-- The clock against what the loop asks of it: time does not run backwards, and the
    start, a call and a delay each end at most `late` after they should. -/
structure Punctual (late now : Nat) (turns : Nat → Turn) : Prop where
  start : now ≤ (turns 0).entered ∧ (turns 0).entered ≤ now + late
  call : ∀ n, (turns n).entered ≤ (turns n).left ∧
    (turns n).left ≤ (turns n).entered +
      min (wholeMilliseconds (now + kTotalRetryBudget - (turns n).entered)) kAttemptDeadline + late
  delay : ∀ n delay, kRetryDelays[n]? = some delay →
    (turns n).left + min delay (now + kTotalRetryBudget - (turns n).left) ≤
        (turns (n + 1)).entered ∧
      (turns (n + 1)).entered ≤
        (turns n).left + min delay (now + kTotalRetryBudget - (turns n).left) + late

theorem wholeMilliseconds_le (d : Nat) : wholeMilliseconds d ≤ d := Nat.div_mul_le_self d 1000000

/-- A call that starts in the budget ends in it, up to its own lateness. -/
theorem Punctual.left_le {late now : Nat} {turns : Nat → Turn} (h : Punctual late now turns)
    {n : Nat} (hin : (turns n).entered ≤ now + kTotalRetryBudget) :
    (turns n).left ≤ now + kTotalRetryBudget + late := by
  have hcall := (h.call n).2
  have hwhole := wholeMilliseconds_le (now + kTotalRetryBudget - (turns n).entered)
  omega

/-- A call is entered in the budget up to the lateness of the call and the delay in
    front of it. -/
theorem Punctual.entered_le {late now : Nat} {turns : Nat → Turn} (h : Punctual late now turns)
    {n delay : Nat} (hdelay : kRetryDelays[n]? = some delay)
    (hin : (turns n).entered ≤ now + kTotalRetryBudget) :
    (turns (n + 1)).entered ≤ now + kTotalRetryBudget + 2 * late := by
  have hleft := h.left_le hin
  have hnext := (h.delay n delay hdelay).2
  omega

/-- **The loop is over when its budget is.**  On a clock on which nothing is later than
    `late`, no call ends more than that behind the ten seconds, and the last turn is
    entered at most twice that behind them. -/
theorem ends_in_budget {report : ConstraintNotification} (hids : report.constraintIds ≠ [])
    {late now : Nat} {turns : Nat → Turn} (h : Punctual late now turns) :
    (∀ n < (receiveConstraintResult true report now turns).2.length,
        (turns n).left ≤ now + kTotalRetryBudget + late) ∧
      ∀ n ≤ (receiveConstraintResult true report now turns).2.length, n < 4 →
        (turns n).entered ≤ now + kTotalRetryBudget + 2 * late := by
  have hentered : ∀ n < (receiveConstraintResult true report now turns).2.length,
      (turns n).entered ≤ now + kTotalRetryBudget := by
    intro n hn
    rw [receive_eq_loop hids] at hn
    have hlt := retryLoop_entered kRetryDelays 0 "" n hn
    rw [Nat.zero_add] at hlt
    exact le_of_lt hlt
  refine ⟨fun n hn => h.left_le (hentered n hn), fun n hn hfour => ?_⟩
  cases n with
  | zero =>
      have hstart := h.start.2
      omega
  | succ n =>
      have hindex : n < kRetryDelays.length := Nat.lt_of_succ_lt_succ hfour
      exact h.entered_le (List.getElem?_eq_getElem hindex) (hentered n hn)

/-- On a punctual clock the attempts start well inside the budget. -/
theorem Punctual.entered_lt {late now : Nat} {turns : Nat → Turn} (h : Punctual late now turns)
    (hlate : 7 * late < seconds 1) :
    ∀ n ≤ kRetryDelays.length, (turns n).entered < now + kTotalRetryBudget := by
  have hturn : ∀ n delay, kRetryDelays[n]? = some delay →
      (turns (n + 1)).entered ≤ (turns n).entered + seconds 1 + delay + 2 * late := by
    intro n delay hdelay
    have hcall := (h.call n).2
    have hnext := (h.delay n delay hdelay).2
    have hdeadline : kAttemptDeadline = seconds 1 := rfl
    omega
  have hstart := h.start.2
  have hfirst : (turns 1).entered ≤ (turns 0).entered + seconds 1 + seconds 1 + 2 * late :=
    hturn 0 (seconds 1) rfl
  have hsecond : (turns 2).entered ≤ (turns 1).entered + seconds 1 + seconds 2 + 2 * late :=
    hturn 1 (seconds 2) rfl
  have hthird : (turns 3).entered ≤ (turns 2).entered + seconds 1 + seconds 3 + 2 * late :=
    hturn 2 (seconds 3) rfl
  have hbudget : kTotalRetryBudget = seconds 1 + seconds 1 + (seconds 1 + seconds 2) +
    (seconds 1 + seconds 3) + seconds 1 := rfl
  intro n hn
  have hfour : n = 0 ∨ n = 1 ∨ n = 2 ∨ n = 3 := by
    have hthree : n ≤ 3 := hn
    omega
  rcases hfour with rfl | rfl | rfl | rfl <;> omega

/-- **The replies decide.**  On a clock on which nothing is a seventh of a second late,
    the budget never runs out in front of an attempt: the first answer among the four
    replies is the result, or the error of the fourth. -/
theorem replies_decide {report : ConstraintNotification} (hids : report.constraintIds ≠ [])
    {late now : Nat} {turns : Nat → Turn} (h : Punctual late now turns)
    (hlate : 7 * late < seconds 1) :
    ∃ n < 4, (∀ m < n, ∃ error, (turns m).reply = .transportError error) ∧
      (receiveConstraintResult true report now turns).2.length = n + 1 ∧
      ((∃ success message, (turns n).reply = .answer success message ∧
          (receiveConstraintResult true report now turns).1 =
            answered report.constraintIds.length success message) ∨
        n = 3 ∧ ∃ error, (turns n).reply = .transportError error ∧
          (receiveConstraintResult true report now turns).1 =
            attemptsExhausted report.constraintIds.length 4 error) := by
  have hending := receive_ending hids now turns
  generalize receiveConstraintResult true report now turns = outcome at hending ⊢
  cases hending with
  | @answered sent n success message few earlier last made =>
      rw [Nat.zero_add] at last
      refine ⟨n, Nat.lt_succ_of_le few, fun m hm => by simpa using earlier m hm, made, ?_⟩
      exact Or.inl ⟨success, message, last, rfl⟩
  | @exhausted sent error earlier last made =>
      rw [Nat.zero_add] at last
      refine ⟨3, by omega, fun m hm => by simpa using earlier m hm, made, ?_⟩
      exact Or.inr ⟨rfl, error, last, rfl⟩
  | @expired sent lastError earlier few late' =>
      rw [Nat.zero_add] at late'
      exact absurd (h.entered_lt hlate _ few) (not_lt.mpr late')

/-- The sample clock is punctual. -/
theorem sampleTurns_punctual : Punctual 0 0 (sampleTurns true) where
  start := by decide +kernel
  call := by
    intro n
    have hinstant : (sampleTurns true n).left = (sampleTurns true n).entered := rfl
    omega
  delay := by
    intro n delay hdelay
    have hthree : n < 3 := (List.getElem?_eq_some_iff.mp hdelay).1
    rcases (by omega : n = 0 ∨ n = 1 ∨ n = 2) with rfl | rfl | rfl
    · obtain rfl : seconds 1 = delay := Option.some.inj hdelay
      decide +kernel
    · obtain rfl : seconds 2 = delay := Option.some.inj hdelay
      decide +kernel
    · obtain rfl : seconds 3 = delay := Option.some.inj hdelay
      decide +kernel

/-- Behind two transport errors the third reply is the result. -/
theorem replies_decide_third :
    ∃ n < 4, (∀ m < n, ∃ error, (sampleTurns true m).reply = .transportError error) ∧
      (receiveConstraintResult true sampleReport 0 (sampleTurns true)).2.length = n + 1 ∧
      ((∃ success message, (sampleTurns true n).reply = .answer success message ∧
          (receiveConstraintResult true sampleReport 0 (sampleTurns true)).1 =
            answered sampleReport.constraintIds.length success message) ∨
        n = 3 ∧ ∃ error, (sampleTurns true n).reply = .transportError error ∧
          (receiveConstraintResult true sampleReport 0 (sampleTurns true)).1 =
            attemptsExhausted sampleReport.constraintIds.length 4 error) :=
  @replies_decide sampleReport (by decide) _ _ _ sampleTurns_punctual (by decide +kernel)

end ResultReceiver
