import Mathlib.Tactic.Linarith
import Mathlib.Tactic.Ring

namespace Ebb.Sync.PresenceRateLimit

/-! Token buckets of presence requests, one for each actor, in milli-tokens. Idle buckets are
swept; a deleted bucket comes back full. -/

/-- Tokens in a second, and the capacity. -/
structure Rate where
  perSecond : Nat
  burst : Nat
  refills : 0 < perSecond
  holds : 0 < burst

structure Bucket where
  tokens : Int
  updatedAt : Int

inductive Answer where
  | ok
  | limited (retryAfter : Int)
deriving DecidableEq

def minIdleMs : Int := 60000

def ceilDiv (dividend divisor : Int) : Int := (dividend + divisor - 1).tdiv divisor

section Rated

variable (rate : Rate)

def full (now : Int) : Bucket := { tokens := rate.burst * 1000, updatedAt := now }

def refilled (bucket : Bucket) (now : Int) : Int :=
  let elapsed := max (now - bucket.updatedAt) 0
  min (bucket.tokens + elapsed * rate.perSecond) (rate.burst * 1000)

def take (bucket : Bucket) (now : Int) : Answer × Bucket :=
  let refilled := refilled rate bucket now
  if 1000 ≤ refilled then (.ok, { tokens := refilled - 1000, updatedAt := now })
  else
    (.limited (ceilDiv (1000 - refilled) rate.perSecond), { tokens := refilled, updatedAt := now })

def idleAfterMs : Int := max (ceilDiv (rate.burst * 1000) rate.perSecond) minIdleMs

end Rated

/-! ## The table -/

abbrev Buckets := String → Option Bucket

def insert (buckets : Buckets) (actorId : String) (bucket : Bucket) : Buckets :=
  fun other => if other = actorId then some bucket else buckets other

def consumeRow (rate : Rate) (actorId : String) (now : Int) (buckets : Buckets) :
    Answer × Buckets :=
  let bucket := (buckets actorId).getD (full rate now)
  let (answer, next) := take rate bucket now
  (answer, insert buckets actorId next)

def consume (rate : Rate) (actorId : String) (now : Int) : Option Buckets → Answer × Option Buckets
  | none => (.ok, none)
  | some buckets =>
      let (answer, next) := consumeRow rate actorId now buckets
      (answer, some next)

def sweepRows (now idleAfter : Int) (buckets : Buckets) : Buckets := fun actorId =>
  let cutoff := now - idleAfter
  (buckets actorId).filter fun bucket => !decide (bucket.updatedAt < cutoff)

def sweep (now idleAfter : Int) (table : Option Buckets) : Option Buckets :=
  table.map (sweepRows now idleAfter)

inductive Event where
  | consume (actorId : String) (now : Int)
  | sweep (now : Int)

def Event.now : Event → Int
  | .consume _ now => now
  | .sweep now => now

def Event.isConsume : Event → Bool
  | .consume _ _ => true
  | .sweep _ => false

def Event.isConsumeOf (actorId : String) : Event → Bool
  | .consume other _ => other = actorId
  | .sweep _ => false

section Runs

variable (rate : Rate)

def step (table : Option Buckets) : Event → Option Buckets
  | .consume actorId now => (consume rate actorId now table).2
  | .sweep now => sweep now (idleAfterMs rate) table

/-- The table after a run from the owner's start. -/
def tableAfter (events : List Event) : Option Buckets :=
  events.foldl (step rate) (some fun _ => none)

/-- How a request is answered after a run. -/
def answerAfter (events : List Event) (actorId : String) (now : Int) : Answer :=
  (consume rate actorId now (tableAfter rate events)).1

/-- The times at which an actor's requests are admitted. -/
def admissions (actorId : String) (table : Option Buckets) : List Event → List Int
  | [] => []
  | .consume other now :: rest =>
      let later := admissions actorId (consume rate other now table).2 rest
      if other = actorId ∧ (consume rate other now table).1 = .ok then now :: later else later
  | .sweep now :: rest => admissions actorId (sweep now (idleAfterMs rate) table) rest

end Runs

def NonDecreasing (events : List Event) : Prop :=
  events.Pairwise fun earlier later => earlier.now ≤ later.now

/-! ## Levels -/

section Levels

variable {rate : Rate} {buckets other : Buckets} {actorId : String} {now later : Int}

def level (rate : Rate) (buckets : Buckets) (actorId : String) (now : Int) : Int :=
  refilled rate ((buckets actorId).getD (full rate now)) now

/-- Every row was written before, with what was left. -/
def Valid (buckets : Buckets) (now : Int) : Prop :=
  ∀ actorId bucket, buckets actorId = some bucket → 0 ≤ bucket.tokens ∧ bucket.updatedAt ≤ now

theorem Valid.mono (valid : Valid buckets now) (before : now ≤ later) : Valid buckets later := by
  intro actorId bucket found
  have row := valid actorId bucket found
  exact ⟨row.1, Int.le_trans row.2 before⟩

theorem level_bounds (valid : Valid buckets now) (actorId : String) :
    0 ≤ level rate buckets actorId now ∧ level rate buckets actorId now ≤ rate.burst * 1000 := by
  have refill := mul_nonneg (le_max_right (now - ((buckets actorId).getD (full rate now)).updatedAt)
    0) (Int.natCast_nonneg rate.perSecond)
  have tokens : 0 ≤ ((buckets actorId).getD (full rate now)).tokens := by
    cases found : buckets actorId with
    | none =>
        simp only [Option.getD_none, full]
        omega
    | some bucket => exact (valid actorId bucket found).1
  simp only [level, refilled]
  omega

theorem level_later (valid : Valid buckets now) (before : now ≤ later) (actorId : String) :
    level rate buckets actorId later =
      min (level rate buckets actorId now + (later - now) * rate.perSecond) (rate.burst * 1000) := by
  have refill := mul_nonneg (sub_nonneg.mpr before) (Int.natCast_nonneg rate.perSecond)
  cases found : buckets actorId with
  | none =>
      simp only [level, refilled, found, Option.getD_none, full, sub_self, max_self, zero_mul]
      omega
  | some bucket =>
      have row := valid actorId bucket found
      have sum : (later - bucket.updatedAt) * (rate.perSecond : Int) =
          (now - bucket.updatedAt) * rate.perSecond + (later - now) * rate.perSecond := by ring
      have first : max (now - bucket.updatedAt) 0 = now - bucket.updatedAt := by omega
      have second : max (later - bucket.updatedAt) 0 = later - bucket.updatedAt := by omega
      simp only [level, refilled, found, Option.getD_some, first, second, sum]
      omega

/-! ## One step -/

theorem consumeRow_answer : (consumeRow rate actorId now buckets).1 =
    if 1000 ≤ level rate buckets actorId now then .ok
    else .limited (ceilDiv (1000 - level rate buckets actorId now) rate.perSecond) := by
  simp only [consumeRow, take, ← level.eq_1]
  split <;> rfl

theorem level_consumeRow (valid : Valid buckets now) (own : String) :
    level rate (consumeRow rate actorId now buckets).2 own now =
      if own = actorId ∧ 1000 ≤ level rate buckets actorId now then
        level rate buckets actorId now - 1000
      else level rate buckets own now := by
  have bounds := @level_bounds rate buckets now valid actorId
  by_cases same : own = actorId
  · subst same
    simp only [level] at bounds ⊢
    simp only [consumeRow, take, insert, if_true, Option.getD_some, true_and]
    split
    · next enough =>
        simp only [refilled, sub_self, max_self, zero_mul] at bounds enough ⊢
        omega
    · next short =>
        simp only [refilled, sub_self, max_self, zero_mul] at bounds short ⊢
        omega
  · rw [if_neg fun both => same both.1]
    simp [level, consumeRow, insert, same]

theorem valid_consumeRow (valid : Valid buckets now) :
    Valid (consumeRow rate actorId now buckets).2 now := by
  intro own bucket found
  have bounds := @level_bounds rate buckets now valid actorId
  simp only [consumeRow, insert] at found
  split at found
  · cases found
    simp only [level] at bounds
    simp only [take]
    split
    · next enough => exact ⟨by simpa using enough, Int.le_refl now⟩
    · exact ⟨bounds.1, Int.le_refl now⟩
  · exact valid own bucket found

theorem ceilDiv_le_iff {dividend divisor quotient : Int} (nonneg : 0 ≤ dividend)
    (positive : 0 < divisor) : ceilDiv dividend divisor ≤ quotient ↔
      dividend ≤ quotient * divisor := by
  have numerator : 0 ≤ dividend + divisor - 1 := by omega
  have next : (quotient + 1) * divisor = quotient * divisor + divisor := by ring
  rw [ceilDiv, Int.tdiv_eq_ediv_of_nonneg numerator, ← Int.lt_add_one_iff,
    Int.ediv_lt_iff_lt_mul positive, next]
  omega

theorem level_sweepRows (valid : Valid buckets now) (own : String) :
    level rate (sweepRows now (idleAfterMs rate) buckets) own now = level rate buckets own now := by
  cases found : buckets own with
  | none => simp [level, sweepRows, found]
  | some bucket =>
      by_cases idle : bucket.updatedAt < now - idleAfterMs rate
      · have row := valid own bucket found
        have positive : (0 : Int) < rate.perSecond := by exact_mod_cast rate.refills
        have window : ceilDiv (rate.burst * 1000) rate.perSecond ≤ now - bucket.updatedAt := by
          rw [idleAfterMs] at idle
          omega
        rw [ceilDiv_le_iff (by omega) positive] at window
        have elapsed : max (now - bucket.updatedAt) 0 = now - bucket.updatedAt := by omega
        simp only [level, sweepRows, found, Option.filter_some, decide_eq_true idle, Bool.not_true,
          Bool.false_eq_true, if_false, Option.getD_none, Option.getD_some, refilled, full,
          sub_self, max_self, zero_mul, elapsed]
        omega
      · simp only [level, sweepRows, found, Option.filter_some, decide_eq_false idle,
          Bool.not_false, if_true]

theorem valid_sweepRows (valid : Valid buckets now) (idleAfter : Int) :
    Valid (sweepRows now idleAfter buckets) now := by
  intro own bucket found
  exact valid own bucket (Option.filter_eq_some_iff.mp found).1

/-! ## Runs -/

def stepRows (rate : Rate) (buckets : Buckets) : Event → Buckets
  | .consume actorId now => (consumeRow rate actorId now buckets).2
  | .sweep now => sweepRows now (idleAfterMs rate) buckets

theorem foldl_step (events : List Event) :
    events.foldl (step rate) (some buckets) = some (events.foldl (stepRows rate) buckets) := by
  induction events generalizing buckets with
  | nil => rfl
  | cons event rest induction =>
      rw [List.foldl_cons, List.foldl_cons, ← induction]
      cases event <;> rfl

theorem valid_stepRows {event : Event} (valid : Valid buckets now) (before : now ≤ event.now) :
    Valid (stepRows rate buckets event) event.now := by
  cases event with
  | consume actorId time => exact valid_consumeRow (valid.mono before)
  | sweep time => exact valid_sweepRows (valid.mono before) _

variable {events : List Event}

theorem valid_run (valid : Valid buckets now) (after : ∀ event ∈ events, now ≤ event.now)
    (ordered : NonDecreasing events) (bounded : ∀ event ∈ events, event.now ≤ later)
    (before : now ≤ later) :
    Valid (events.foldl (stepRows rate) buckets) later := by
  induction events generalizing buckets now with
  | nil => exact valid.mono before
  | cons event rest induction =>
      obtain ⟨others, inner⟩ := List.pairwise_cons.mp ordered
      rw [List.forall_mem_cons] at after bounded
      exact induction (valid_stepRows valid after.1) others inner bounded.2 bounded.1

/-- The event is a request of the actor that finds a token. -/
def Admits (rate : Rate) (buckets : Buckets) (actorId : String) (event : Event) : Prop :=
  event.isConsumeOf actorId = true ∧ 1000 ≤ level rate buckets actorId event.now

instance (event : Event) : Decidable (Admits rate buckets actorId event) := by
  unfold Admits
  infer_instance

theorem level_stepRows {event : Event} (valid : Valid buckets now) (before : now ≤ event.now)
    (own : String) : level rate (stepRows rate buckets event) own event.now =
      level rate buckets own event.now - if Admits rate buckets own event then 1000 else 0 := by
  cases event with
  | consume actorId time =>
      have current : Valid buckets time := valid.mono before
      change level rate (consumeRow rate actorId time buckets).2 own time =
        level rate buckets own time - _
      rw [level_consumeRow current]
      by_cases same : own = actorId
      · subst same
        simp only [Admits, Event.isConsumeOf, decide_true, true_and, Event.now]
        split <;> omega
      · simp [Admits, Event.isConsumeOf, same, Ne.symm same]
  | sweep time =>
      have current : Valid buckets time := valid.mono before
      change level rate (sweepRows time (idleAfterMs rate) buckets) own time =
        level rate buckets own time - _
      rw [level_sweepRows current]
      simp [Admits, Event.isConsumeOf]

theorem level_run {events : List Event} (valid : Valid buckets now) (otherValid : Valid other now)
    (same : ∀ own, level rate buckets own now = level rate other own now)
    (after : ∀ event ∈ events, now ≤ event.now) (ordered : NonDecreasing events)
    (bounded : ∀ event ∈ events, event.now ≤ later) (before : now ≤ later) (own : String) :
    level rate (events.foldl (stepRows rate) buckets) own later =
      level rate ((events.filter Event.isConsume).foldl (stepRows rate) other) own later := by
  induction events generalizing buckets other now with
  | nil => rw [List.foldl_nil, List.filter_nil, List.foldl_nil, level_later valid before,
      level_later otherValid before, same]
  | cons event rest induction =>
      obtain ⟨others, inner⟩ := List.pairwise_cons.mp ordered
      rw [List.forall_mem_cons] at after bounded
      have here (own : String) :
          level rate buckets own event.now = level rate other own event.now := by
        rw [level_later valid after.1, level_later otherValid after.1, same]
      have next := @valid_stepRows rate _ _ _ valid after.1
      have step := @level_stepRows rate _ _ _ valid after.1
      cases consumes : event.isConsume with
      | true =>
          rw [List.filter_cons_of_pos consumes]
          have otherNext := @valid_stepRows rate _ _ _ otherValid after.1
          refine induction next otherNext (fun own => ?_) others inner bounded.2 bounded.1
          rw [step, level_stepRows otherValid after.1]
          simp only [Admits, here]
      | false =>
          rw [List.filter_cons_of_neg (by simp [consumes])]
          refine induction next (otherValid.mono after.1) (fun own => ?_) others inner bounded.2
            bounded.1
          have unpaid : ¬ Admits rate buckets own event := by
            cases event with
            | consume _ _ => cases consumes
            | sweep _ => exact fun admits => Bool.false_ne_true admits.1
          rw [step, if_neg unpaid, sub_zero, here]

/-! ## Admissions -/

theorem admissions_cons (event : Event) (rest : List Event) :
    admissions rate actorId (some buckets) (event :: rest) =
      (if Admits rate buckets actorId event then [event.now] else []) ++
        admissions rate actorId (some (stepRows rate buckets event)) rest := by
  cases event with
  | consume other time =>
      have answer : (consume rate other time (some buckets)).1 = .ok ↔
          1000 ≤ level rate buckets other time := by
        change (consumeRow rate other time buckets).1 = .ok ↔ _
        rw [consumeRow_answer]
        split <;> simp [*]
      simp only [admissions, answer, Admits, Event.isConsumeOf, decide_eq_true_eq, Event.now]
      by_cases same : other = actorId
      · subst same
        split <;> rfl
      · simp only [same, false_and, if_false]
        rfl
  | sweep time =>
      simp only [Admits, Event.isConsumeOf, Bool.false_eq_true, false_and, if_false]
      rfl

theorem le_of_mem_admissions (after : ∀ event ∈ events, now ≤ event.now) {time : Int}
    (member : time ∈ admissions rate actorId (some buckets) events) : now ≤ time := by
  induction events generalizing buckets with
  | nil => cases member
  | cons event rest induction =>
      rw [List.forall_mem_cons] at after
      rw [admissions_cons, List.mem_append] at member
      rcases member with here | later
      · split at here
        · rw [List.mem_singleton.mp here]
          exact after.1
        · cases here
      · exact induction after.2 later

theorem admissions_beyond (after : ∀ event ∈ events, now ≤ event.now) {stop : Int}
    (beyond : stop < now) :
    (admissions rate actorId (some buckets) events).filter (· ≤ stop) = [] := by
  rw [List.filter_eq_nil_iff]
  intro time member
  have later := le_of_mem_admissions after member
  simp only [decide_eq_true_eq]
  omega

theorem admissions_until {events : List Event} (valid : Valid buckets now)
    (after : ∀ event ∈ events, now ≤ event.now) (ordered : NonDecreasing events) {stop : Int}
    (before : now ≤ stop) :
    1000 * (((admissions rate actorId (some buckets) events).filter (· ≤ stop)).length : Int) ≤
      level rate buckets actorId now + (stop - now) * rate.perSecond := by
  induction events generalizing buckets now with
  | nil =>
      have bounds := @level_bounds rate buckets now valid actorId
      have refill := mul_nonneg (sub_nonneg.mpr before) (Int.natCast_nonneg rate.perSecond)
      simp only [admissions, List.filter_nil, List.length_nil]
      omega
  | cons event rest induction =>
      obtain ⟨others, inner⟩ := List.pairwise_cons.mp ordered
      rw [List.forall_mem_cons] at after
      by_cases inside : event.now ≤ stop
      · have rested := induction (@valid_stepRows rate _ _ _ valid after.1) others inner inside
        have level_now := @level_later rate _ _ _ valid after.1 actorId
        rw [level_stepRows valid after.1] at rested
        have split_time : (stop - now) * (rate.perSecond : Int) =
            (event.now - now) * rate.perSecond + (stop - event.now) * rate.perSecond := by ring
        rw [admissions_cons, List.filter_append, List.length_append, split_time]
        split at rested
        · next admits =>
            have counted : [event.now].filter (· ≤ stop) = [event.now] := by simp [inside]
            rw [if_pos admits, counted, List.length_singleton]
            omega
        · next admits =>
            simp only [if_neg admits, List.filter_nil, List.length_nil]
            omega
      · have starts : ∀ later ∈ event :: rest, event.now ≤ later.now :=
          List.forall_mem_cons.mpr ⟨Int.le_refl _, others⟩
        have bounds := @level_bounds rate buckets now valid actorId
        have refill := mul_nonneg (sub_nonneg.mpr before) (Int.natCast_nonneg rate.perSecond)
        rw [admissions_beyond starts (Int.not_le.mp inside), List.length_nil]
        omega

theorem admissions_window {events : List Event} (valid : Valid buckets now)
    (after : ∀ event ∈ events, now ≤ event.now) (ordered : NonDecreasing events) (start : Int)
    (window : Nat) :
    1000 * (((admissions rate actorId (some buckets) events).filter fun time =>
        start ≤ time ∧ time ≤ start + window).length : Int) ≤
      rate.burst * 1000 + window * rate.perSecond := by
  induction events generalizing buckets now with
  | nil =>
      simp only [admissions, List.filter_nil, List.length_nil]
      positivity
  | cons event rest induction =>
      obtain ⟨others, inner⟩ := List.pairwise_cons.mp ordered
      rw [List.forall_mem_cons] at after
      by_cases early : event.now < start
      · have rested := induction (@valid_stepRows rate _ _ _ valid after.1) others inner
        rw [admissions_cons, List.filter_append]
        split
        · rw [List.filter_cons_of_neg (by simp only [decide_eq_true_eq]; omega)]
          exact rested
        · exact rested
      · have starts : ∀ later ∈ event :: rest, event.now ≤ later.now :=
          List.forall_mem_cons.mpr ⟨Int.le_refl _, others⟩
        have all : (admissions rate actorId (some buckets) (event :: rest)).filter
            (fun time => start ≤ time ∧ time ≤ start + window) =
              (admissions rate actorId (some buckets) (event :: rest)).filter
                (· ≤ start + window) := by
          apply List.filter_congr
          intro time member
          have later := le_of_mem_admissions starts member
          have inside : start ≤ time := by omega
          simp [inside]
        rw [all]
        by_cases inside : event.now ≤ start + window
        · have current := valid.mono after.1
          have spent := @admissions_until rate _ actorId _ _ current starts ordered _ inside
          have bounds := @level_bounds rate _ _ current actorId
          have refill : (start + window - event.now) * (rate.perSecond : Int) ≤
              window * rate.perSecond :=
            mul_le_mul_of_nonneg_right (by omega) (Int.natCast_nonneg _)
          omega
        · rw [admissions_beyond starts (Int.not_le.mp inside), List.length_nil]
          positivity

theorem level_unspent {events : List Event} (valid : Valid buckets now)
    (after : ∀ event ∈ events, now ≤ event.now) (ordered : NonDecreasing events)
    (bounded : ∀ event ∈ events, event.now ≤ later)
    (others : ∀ event ∈ events, event.isConsumeOf actorId = false) :
    level rate (events.foldl (stepRows rate) buckets) actorId later =
      level rate buckets actorId later := by
  induction events generalizing buckets now with
  | nil => rfl
  | cons event rest induction =>
      obtain ⟨starts, inner⟩ := List.pairwise_cons.mp ordered
      rw [List.forall_mem_cons] at after bounded others
      have next := @valid_stepRows rate _ _ _ valid after.1
      have unpaid : ¬ Admits rate buckets actorId event := by
        intro admits
        exact Bool.false_ne_true (others.1.symm.trans admits.1)
      rw [List.foldl_cons, induction next starts inner bounded.2 others.2,
        level_later next bounded.1, level_stepRows valid after.1, if_neg unpaid, sub_zero,
        ← level_later (valid.mono after.1) bounded.1]

theorem enough_later_iff (valid : Valid buckets now) (before : now ≤ later)
    (short : level rate buckets actorId now < 1000) : 1000 ≤ level rate buckets actorId later ↔
      now + ceilDiv (1000 - level rate buckets actorId now) rate.perSecond ≤ later := by
  have positive : (0 : Int) < rate.perSecond := by exact_mod_cast rate.refills
  have holds : (0 : Int) < rate.burst := by exact_mod_cast rate.holds
  have wait := @ceilDiv_le_iff (1000 - level rate buckets actorId now) rate.perSecond (later - now)
    (by omega) positive
  rw [level_later valid before]
  omega

end Levels

/-! ## The limiter -/

section Limiter

variable (rate : Rate)

def rowsAfter (events : List Event) : Buckets := events.foldl (stepRows rate) fun _ => none

theorem answerAfter_eq (events : List Event) (actorId : String) (now : Int) :
    answerAfter rate events actorId now =
      if 1000 ≤ level rate (rowsAfter rate events) actorId now then .ok
      else .limited (ceilDiv (1000 - level rate (rowsAfter rate events) actorId now)
        rate.perSecond) := by
  rw [answerAfter, tableAfter, foldl_step]
  exact consumeRow_answer

theorem valid_empty (now : Int) : Valid (fun _ => none) now := by
  intro _ _ found
  cases found

theorem exists_origin {before after : List Event} {event : Event}
    (ordered : NonDecreasing (before ++ event :: after)) :
    ∃ origin, origin ≤ event.now ∧ ∀ earlier ∈ before, origin ≤ earlier.now := by
  cases before with
  | nil => exact ⟨event.now, Int.le_refl _, fun _ member => by cases member⟩
  | cons head rest =>
      have first := (List.pairwise_cons.mp ordered).1
      refine ⟨head.now, first event (by simp), fun earlier member => ?_⟩
      rcases List.mem_cons.mp member with rfl | later
      · exact Int.le_refl _
      · exact first earlier (List.mem_append_left _ later)

theorem valid_rowsAfter {before after : List Event} {event : Event}
    (ordered : NonDecreasing (before ++ event :: after)) :
    Valid (rowsAfter rate before) event.now := by
  obtain ⟨origin, least, starts⟩ := exists_origin ordered
  have parts := List.pairwise_append.mp ordered
  exact valid_run (valid_empty origin) starts parts.1
    (fun earlier member => parts.2.2 earlier member event List.mem_cons_self) least

/-- In every run at times that never go back: no answer shows whether buckets were swept, no
window admits more of an actor than the burst and its refill, and a refusal names the least
wait after which the actor's next request is admitted. -/
theorem limits_of_run {events : List Event} (ordered : NonDecreasing events) :
    (∀ before actorId now after, events = before ++ .consume actorId now :: after →
      answerAfter rate before actorId now =
        answerAfter rate (before.filter Event.isConsume) actorId now) ∧
    (∀ actorId (start : Int) (window : Nat),
      ((admissions rate actorId (some fun _ => none) events).filter fun time =>
        start ≤ time ∧ time ≤ start + window).length ≤
          rate.burst + window * rate.perSecond / 1000) ∧
    ∀ before actorId now between later after retryAfter,
      events = before ++ .consume actorId now :: (between ++ .consume actorId later :: after) →
      answerAfter rate before actorId now = .limited retryAfter →
      (∀ event ∈ between, event.isConsumeOf actorId = false) →
        (answerAfter rate (before ++ .consume actorId now :: between) actorId later = .ok ↔
          now + retryAfter ≤ later) := by
  refine ⟨?_, ?_, ?_⟩
  · rintro before actorId now after rfl
    obtain ⟨origin, least, starts⟩ := exists_origin ordered
    have parts := List.pairwise_append.mp ordered
    have same := @level_run rate _ _ _ _ before (valid_empty origin) (valid_empty origin)
      (fun _ => rfl) starts parts.1
      (fun earlier member => parts.2.2 earlier member _ List.mem_cons_self) least actorId
    change level rate (rowsAfter rate before) actorId now =
      level rate (rowsAfter rate (before.filter Event.isConsume)) actorId now at same
    rw [answerAfter_eq, answerAfter_eq, same]
  · intro actorId start window
    have bound : ∃ origin : Int, ∀ event ∈ events, origin ≤ event.now := by
      cases events with
      | nil => exact ⟨0, fun _ member => by cases member⟩
      | cons head rest =>
          refine ⟨head.now, List.forall_mem_cons.mpr ⟨Int.le_refl _, ?_⟩⟩
          exact (List.pairwise_cons.mp ordered).1
    obtain ⟨origin, starts⟩ := bound
    have paid := @admissions_window rate _ actorId _ _ (valid_empty origin) starts ordered start
      window
    have units : 1000 * ((admissions rate actorId (some fun _ => none) events).filter fun time =>
        start ≤ time ∧ time ≤ start + window).length ≤
          rate.burst * 1000 + window * rate.perSecond := by exact_mod_cast paid
    omega
  · intro before actorId now between later after retryAfter run refused others
    subst run
    have current := valid_rowsAfter rate ordered
    have parts := (List.pairwise_append.mp ordered).2.1
    obtain ⟨starts, inner⟩ := List.pairwise_cons.mp parts
    have rest := List.pairwise_append.mp inner
    have reached : now ≤ later := starts _ (List.mem_append_right _ List.mem_cons_self)
    rw [answerAfter_eq] at refused
    split at refused
    · cases refused
    · next short =>
        cases refused
        have step := @level_stepRows rate _ _ (.consume actorId now) current (Int.le_refl now) actorId
        have unpaid : ¬ Admits rate (rowsAfter rate before) actorId (.consume actorId now) :=
          fun admits => short admits.2
        rw [if_neg unpaid, sub_zero] at step
        change level rate _ actorId now = level rate _ actorId now at step
        have next : Valid (stepRows rate (rowsAfter rate before) (.consume actorId now)) now :=
          @valid_stepRows rate _ _ (.consume actorId now) current (Int.le_refl now)
        have kept := @level_unspent rate _ actorId now later between next
          (fun event member => starts event (List.mem_append_left _ member)) rest.1
          (fun event member => rest.2.2 event member _ List.mem_cons_self) others
        have whole : rowsAfter rate (before ++ .consume actorId now :: between) =
            between.foldl (stepRows rate) (stepRows rate (rowsAfter rate before)
              (.consume actorId now)) := by
          rw [rowsAfter, List.foldl_append, List.foldl_cons, rowsAfter]
        have least := @enough_later_iff rate _ actorId _ _ next reached
          (by rw [step]; exact Int.not_le.mp short)
        rw [answerAfter_eq, whole, kept, ← step, ← least]
        split
        · next enough => exact iff_of_true rfl enough
        · next tooSoon => exact iff_of_false (fun answer => by cases answer) tooSoon

end Limiter

def oneASecond : Rate := { perSecond := 1, burst := 1, refills := by decide, holds := by decide }

theorem waits_a_second :
    answerAfter oneASecond [.consume "actor_a" 0] "actor_a" 0 = .limited 1000 ∧
      (answerAfter oneASecond ([.consume "actor_a" 0] ++ .consume "actor_a" 0 :: [.sweep 500])
        "actor_a" 1000 = .ok ↔ (0 : Int) + 1000 ≤ 1000) := by
  have refused : answerAfter oneASecond [.consume "actor_a" 0] "actor_a" 0 = .limited 1000 := by
    decide
  have ordered : NonDecreasing ([.consume "actor_a" 0] ++ .consume "actor_a" 0 ::
      ([.sweep 500] ++ .consume "actor_a" 1000 :: [])) := by
    unfold NonDecreasing
    decide
  exact ⟨refused, (limits_of_run oneASecond ordered).2.2 _ _ _ _ _ _ _ rfl refused (by decide)⟩

end Ebb.Sync.PresenceRateLimit
