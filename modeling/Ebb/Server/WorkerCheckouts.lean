import Ebb.Foundation.StableSort
import Ebb.Server.WorkerLeases
import Mathlib.Data.List.Count

namespace Ebb.Server

/-! The checkouts of the worker pool over whole runs, and with the leases what the pool
promises its callers. -/

namespace WorkerPool

/-! ## Monitors -/

/-- The monitors that are set, and those that have fired. -/
def watched (pool : WorkerPool) : List (Nat × Process) := pool.monitors ++ pool.downs

/-- Every checkout is queued, answered or gone with its caller, but for those being handled; a
waiter has its timer and the monitor of its caller. -/
structure Queued (handling : List Checkout) (pool : WorkerPool) : Prop where
  accounted : (handling ++ (pool.waiting.map Waiter.checkout ++
    (pool.replies.map Prod.fst ++ pool.abandoned))).Perm pool.checkouts
  tags : (pool.checkouts.map Checkout.tag).Nodup
  timed : ∀ waiter ∈ pool.waiting, waiter.ref ∈ pool.timers
  refs : (pool.waiting.map Waiter.ref).Nodup
  fresh : ∀ waiter ∈ pool.waiting, waiter.ref < pool.nextRef ∧ waiter.monitor < pool.nextRef
  watches : ∀ waiter ∈ pool.waiting, ∀ process, (waiter.monitor, process) ∈ pool.watched →
    process = .caller waiter.caller
  older : ∀ entry ∈ pool.watched, entry.1 < pool.nextRef
  fallen : ∀ entry ∈ pool.downs, entry.2 ∈ pool.dead
  gone : ∀ checkout ∈ pool.abandoned, .caller checkout.caller ∈ pool.dead

section Queued

variable {config : Config} {pool : WorkerPool} {handling : List Checkout}

theorem queued_initial : Queued [] (initial config) where
  accounted := List.Perm.nil
  tags := List.nodup_nil
  timed := nofun
  refs := List.nodup_nil
  fresh := nofun
  watches := nofun
  older := nofun
  fallen := nofun
  gone := nofun

theorem Queued.narrow {next : WorkerPool} (queued : Queued handling pool)
    (waiting : next.waiting = pool.waiting) (replies : next.replies = pool.replies)
    (abandoned : next.abandoned = pool.abandoned) (checkouts : next.checkouts = pool.checkouts)
    (timers : next.timers = pool.timers) (nextRef : next.nextRef = pool.nextRef)
    (dead : next.dead = pool.dead) (watched : next.watched ⊆ pool.watched)
    (downs : next.downs ⊆ pool.downs) : Queued handling next where
  accounted := by
    rw [waiting, replies, abandoned, checkouts]
    exact queued.accounted
  tags := checkouts ▸ queued.tags
  timed := by
    rw [waiting, timers]
    exact queued.timed
  refs := waiting ▸ queued.refs
  fresh := by
    rw [waiting, nextRef]
    exact queued.fresh
  watches := by
    rw [waiting]
    exact fun waiter member process entry => queued.watches waiter member process (watched entry)
  older := by
    rw [nextRef]
    exact fun entry member => queued.older entry (watched member)
  fallen := by
    rw [dead]
    exact fun entry member => queued.fallen entry (downs member)
  gone := by
    rw [abandoned, dead]
    exact queued.gone

theorem Queued.demonitor (queued : Queued handling pool) (ref : Option Nat) :
    Queued handling (pool.demonitor ref) := by
  cases ref with
  | none => exact queued
  | some ref =>
      apply queued.narrow
      case waiting | replies | abandoned | checkouts | timers | nextRef | dead => rfl
      case watched =>
        rw [watched, watched, WorkerPool.demonitor, ← List.filter_append]
        exact List.filter_subset_self _
      case downs => exact List.filter_subset_self _

theorem watched_monitor (pool : WorkerPool) (process : Process) (entry : Nat × Process) :
    entry ∈ (pool.monitor process).watched ↔
      entry ∈ pool.watched ∨ entry = (pool.nextRef, process) := by
  rw [watched, watched, monitor]
  split
  · simp only [List.mem_append, List.mem_singleton]
    tauto
  · simp only [List.mem_append, List.mem_singleton]
    tauto

theorem nextRef_monitor (pool : WorkerPool) (process : Process) :
    (pool.monitor process).nextRef = pool.nextRef + 1 := by
  rw [monitor]
  split
  · rfl
  · rfl

theorem downs_monitor {pool : WorkerPool} {process : Process} {entry : Nat × Process}
    (member : entry ∈ (pool.monitor process).downs) :
    entry ∈ pool.downs ∨ entry.2 ∈ pool.dead := by
  rw [monitor] at member
  split at member
  · exact .inl member
  · next dead =>
      rcases List.mem_append.mp member with earlier | new
      · exact .inl earlier
      · rw [List.mem_singleton.mp new]
        right
        simpa [alive] using dead

theorem Queued.monitor (queued : Queued handling pool) (process : Process) :
    Queued handling (pool.monitor process) := by
  have same := sameTables_monitor pool process
  constructor
  case accounted =>
    rw [same.waiting, same.replies, same.abandoned, same.checkouts]
    exact queued.accounted
  case tags => exact same.checkouts ▸ queued.tags
  case timed =>
    rw [same.waiting, same.timers]
    exact queued.timed
  case refs => exact same.waiting ▸ queued.refs
  case fresh =>
    rw [same.waiting, nextRef_monitor]
    intro waiter member
    have bounds := queued.fresh waiter member
    omega
  case watches =>
    rw [same.waiting]
    intro waiter member other entry
    rcases (watched_monitor pool process _).mp entry with earlier | new
    · exact queued.watches waiter member other earlier
    · have late : waiter.monitor = pool.nextRef := congrArg Prod.fst new
      have early := (queued.fresh waiter member).2
      omega
  case older =>
    rw [nextRef_monitor]
    intro entry member
    rcases (watched_monitor pool process _).mp member with earlier | rfl
    · exact Nat.lt_succ_of_lt (queued.older entry earlier)
    · exact Nat.lt_succ_self _
  case fallen =>
    rw [same.dead]
    intro entry member
    rcases downs_monitor member with earlier | dead
    · exact queued.fallen entry earlier
    · exact dead
  case gone =>
    rw [same.abandoned, same.dead]
    exact queued.gone

theorem Queued.dropRow (queued : Queued handling pool) (ref : Nat) :
    Queued handling (pool.dropRow ref) := by
  rw [WorkerPool.dropRow]
  split
  · exact queued
  · next row there =>
      have kept := (queued.demonitor row.ownerMon).demonitor (some row.monitor)
      exact kept.narrow rfl rfl rfl rfl rfl rfl rfl (List.Subset.refl _) (List.Subset.refl _)

variable {checkout : Checkout} {rest : List Waiter} {waiter : Waiter}

theorem Queued.reply (queued : Queued (checkout :: handling) pool) (answer : Reply)
    : Queued handling (pool.reply checkout answer) := by
  refine { queued with accounted := ?_ }
  refine List.Perm.trans ?_ queued.accounted
  rw [WorkerPool.reply]
  dsimp only
  rw [List.map_append, List.map_cons, List.map_nil, List.cons_append]
  refine List.Perm.trans ?_ List.perm_middle
  refine List.Perm.append_left _ (List.Perm.trans ?_ List.perm_middle)
  refine List.Perm.append_left _ ?_
  rw [List.append_assoc, List.singleton_append]
  exact List.perm_middle

theorem Queued.lease (queued : Queued (checkout :: handling) pool) (row : Row)
    : Queued handling (pool.lease row checkout) := by
  have answered := (queued.monitor (.caller checkout.caller)).reply
    (.leased { ref := row.ref, worker := row.worker })
  exact answered.narrow rfl rfl rfl rfl rfl rfl rfl (List.Subset.refl _) (List.Subset.refl _)

theorem Queued.queueCheckout (queued : Queued [checkout] pool) :
    Queued [] (pool.queueCheckout config checkout) := by
  rw [WorkerPool.queueCheckout]
  split
  · have shifted : Queued [checkout] { pool with nextRef := pool.nextRef + 1 } :=
      { queued with
        fresh := by
          intro waiter member
          have bounds := queued.fresh waiter member
          dsimp only
          omega
        older := fun entry member => Nat.lt_succ_of_lt (queued.older entry member) }
    have monitored := shifted.monitor (.caller checkout.caller)
    have same := sameTables_monitor { pool with nextRef := pool.nextRef + 1 }
      (.caller checkout.caller)
    have next := nextRef_monitor { pool with nextRef := pool.nextRef + 1 }
      (.caller checkout.caller)
    dsimp only
    constructor
    case accounted =>
      refine List.Perm.trans ?_ monitored.accounted
      dsimp only
      rw [List.map_append, List.map_cons, List.map_nil, List.nil_append, List.append_assoc,
        List.singleton_append, List.singleton_append]
      exact List.perm_middle
    case tags => exact monitored.tags
    case timed =>
      intro waiter member
      rcases List.mem_append.mp member with earlier | new
      · exact List.mem_append_left _ (monitored.timed waiter earlier)
      · rw [List.mem_singleton.mp new]
        exact List.mem_append_right _ List.mem_cons_self
    case refs =>
      dsimp only
      rw [List.map_append, List.map_cons, List.map_nil, same.waiting]
      refine List.nodup_append_comm.mp (List.nodup_cons.mpr ⟨?_, queued.refs⟩)
      intro member
      rcases List.mem_map.mp member with ⟨waiter, within, equal⟩
      have early := (queued.fresh waiter within).1
      exact absurd (equal ▸ early) (Nat.lt_irrefl _)
    case fresh =>
      intro waiter member
      dsimp only
      rw [next]
      rcases List.mem_append.mp member with earlier | new
      · rw [same.waiting] at earlier
        have bounds := queued.fresh waiter earlier
        dsimp only
        omega
      · rw [List.mem_singleton.mp new]
        dsimp only
        omega
    case watches =>
      intro waiter member process entry
      rcases List.mem_append.mp member with earlier | new
      · exact monitored.watches waiter earlier process entry
      · rw [List.mem_singleton.mp new] at entry ⊢
        rcases (watched_monitor _ _ _).mp entry with old | here
        · have early := queued.older _ old
          dsimp only at early
          omega
        · exact congrArg Prod.snd here
    case older => exact monitored.older
    case fallen => exact monitored.fallen
    case gone => exact monitored.gone
  · exact queued.reply .saturated

/-! ### Taking a waiter -/

theorem takeWaiter_spec {waiting : List Waiter} {selects : Waiter → Bool}
    (taken : takeWaiter waiting selects = some (waiter, rest)) :
    selects waiter = true ∧ (waiter :: rest).Perm waiting ∧
      rest = waiting.filter fun other => !selects other := by
  rw [takeWaiter] at taken
  split at taken
  · next found =>
      cases taken
      have chosen : waiter ∈ waiting.filter selects := found ▸ List.mem_cons_self
      refine ⟨(List.mem_filter.mp chosen).2, ?_, rfl⟩
      have parts := List.filter_append_perm selects waiting
      rw [found] at parts
      exact parts
  · cases taken

theorem Queued.take (queued : Queued handling pool) (split : (waiter :: rest).Perm pool.waiting)
    (timers : List Nat) (timed : ∀ other ∈ rest, other.ref ∈ timers) :
    Queued (waiter.checkout :: handling) { pool with waiting := rest, timers } where
  accounted := by
    refine List.Perm.trans ?_ queued.accounted
    have mapped := (split.map Waiter.checkout).append_right (pool.replies.map Prod.fst ++ pool.abandoned)
    refine List.Perm.trans ?_ (mapped.append_left handling)
    exact List.perm_middle.symm
  tags := queued.tags
  timed := timed
  refs := (List.nodup_cons.mp ((split.map Waiter.ref).nodup_iff.mpr queued.refs)).2
  fresh := fun other member =>
    queued.fresh other (split.subset (List.mem_cons_of_mem _ member))
  watches := fun other member =>
    queued.watches other (split.subset (List.mem_cons_of_mem _ member))
  older := queued.older
  fallen := queued.fallen
  gone := queued.gone

section

variable (queued : Queued [] pool)
include queued

theorem Queued.serve (row : Row) (idle : List Nat) (waiting : pool.waiting = waiter :: rest) :
    Queued [] (pool.serve row idle waiter rest) := by
  have split : (waiter :: rest).Perm pool.waiting := waiting ▸ List.Perm.refl _
  have taken := queued.take split pool.timers fun other member =>
    queued.timed other (split.subset (List.mem_cons_of_mem _ member))
  have moved : Queued [waiter.checkout] { pool with idle, waiting := rest } :=
    taken.narrow rfl rfl rfl rfl rfl rfl rfl (List.Subset.refl _) (List.Subset.refl _)
  exact (moved.demonitor (some waiter.monitor)).lease row

theorem Queued.serveWaiters : Queued [] pool.serveWaiters :=
  serveWaiters_induct (fun _ row idle _ _ queued waiting _ => queued.serve row idle waiting) queued

/-! ### Messages -/

theorem Queued.handleCheckout (fresh : checkout.tag ∉ pool.checkouts.map Checkout.tag) :
    Queued [] ({ pool with checkouts := pool.checkouts ++ [checkout] }.handleCheckout config
      checkout) := by
  have asked : Queued [checkout] { pool with checkouts := pool.checkouts ++ [checkout] } :=
    { queued with
      accounted := (queued.accounted.append_left [checkout]).trans
        (List.perm_append_singleton checkout pool.checkouts).symm
      tags := by
        dsimp only
        rw [List.map_append]
        exact List.nodup_append_comm.mp (List.nodup_cons.mpr ⟨fresh, queued.tags⟩) }
  rw [WorkerPool.handleCheckout]
  split
  · next row idle _ =>
      have moved : Queued [checkout] { pool with
          checkouts := pool.checkouts ++ [checkout]
          idle } :=
        asked.narrow rfl rfl rfl rfl rfl rfl rfl (List.Subset.refl _) (List.Subset.refl _)
      exact moved.lease row
  · exact asked.queueCheckout

theorem Queued.handleCheckin (lease : Lease) : Queued [] (pool.handleCheckin lease) := by
  rw [WorkerPool.handleCheckin]
  split
  · next row _ =>
      split
      · split
        · have idle : Queued [] ((pool.demonitor row.ownerMon).markIdle row) :=
            (queued.demonitor row.ownerMon).narrow rfl rfl rfl rfl rfl rfl rfl
              (List.Subset.refl _) (List.Subset.refl _)
          exact idle.serveWaiters
        · exact queued.dropRow lease.ref
      · exact queued
  · exact queued

theorem Queued.handleSpawnResult (ref : Nat) (started : Option Nat) :
    Queued [] (pool.handleSpawnResult ref started) := by
  have settled : Queued [] { pool with pending := pool.pending.erase ref } :=
    queued.narrow rfl rfl rfl rfl rfl rfl rfl (List.Subset.refl _) (List.Subset.refl _)
  cases started with
  | some worker =>
      have monitored := settled.monitor (.worker worker)
      have idle : Queued [] ({ WorkerPool.monitor { pool with pending := pool.pending.erase ref }
          (.worker worker) with spawnFailures := 0 }.markIdle
            { ref, worker, monitor := pool.nextRef, status := .idle, owner := none,
              ownerMon := none }) :=
        monitored.narrow rfl rfl rfl rfl rfl rfl rfl (List.Subset.refl _) (List.Subset.refl _)
      exact idle.serveWaiters
  | none =>
      exact settled.narrow rfl rfl rfl rfl rfl rfl rfl (List.Subset.refl _) (List.Subset.refl _)

theorem Queued.handleCheckoutTimeout (waitRef : Nat) :
    Queued [] ({ pool with timers := pool.timers.erase waitRef }.handleCheckoutTimeout waitRef) := by
  rw [WorkerPool.handleCheckoutTimeout]
  split
  · next waiter rest taken =>
      rcases takeWaiter_spec taken with ⟨_, split, others⟩
      have removed := queued.take split (pool.timers.erase waitRef) (by
        intro other member
        have within := queued.timed other (split.subset (List.mem_cons_of_mem _ member))
        rw [others] at member
        have different := (List.mem_filter.mp member).2
        exact (List.mem_erase_of_ne (by simpa using different)).mpr within)
      have quiet := (removed.demonitor (some waiter.monitor)).reply .saturated
      exact quiet.narrow rfl rfl rfl rfl rfl rfl rfl (List.Subset.refl _) (List.Subset.refl _)
  · next none =>
      refine { queued with timed := ?_ }
      intro waiter member
      have different : waiter.ref ≠ waitRef := by
        intro equal
        have alone : (pool.waiting.filter fun other => other.ref == waitRef) = [waiter] := by
          rw [← equal]
          exact fiber_eq_singleton queued.refs member
        rw [takeWaiter, alone] at none
        cases none
      exact (List.mem_erase_of_ne different).mpr (queued.timed waiter member)

theorem Queued.handleDown {ref : Nat} {process : Process} (down : (ref, process) ∈ pool.downs) :
    Queued [] ({ pool with downs := pool.downs.erase (ref, process) }.handleDown ref process) := by
  have received : Queued [] { pool with downs := pool.downs.erase (ref, process) } :=
    queued.narrow rfl rfl rfl rfl rfl rfl rfl
      (fun _ member => (List.mem_append.mp member).elim (List.mem_append_left _)
        fun late => List.mem_append_right _ (List.erase_subset late)) List.erase_subset
  unfold WorkerPool.handleDown
  dsimp only
  split
  · exact received.dropRow _
  · split
    · exact received.dropRow _
    · split
      · next waiter rest taken =>
          rcases takeWaiter_spec taken with ⟨selected, split, _⟩
          have removed := received.take split pool.timers fun other member =>
            queued.timed other (split.subset (List.mem_cons_of_mem _ member))
          refine { removed with accounted := ?_, gone := ?_ }
          · refine List.Perm.trans ?_ removed.accounted
            dsimp only
            rw [List.nil_append, List.cons_append, List.nil_append, ← List.append_assoc,
              ← List.append_assoc, ← List.append_assoc]
            exact List.perm_append_singleton _ _
          · intro checkout member
            rcases List.mem_append.mp member with earlier | new
            · exact queued.gone checkout earlier
            · rw [List.mem_singleton.mp new]
              have watching : process = .caller waiter.caller := by
                have within : waiter ∈ pool.waiting := split.subset List.mem_cons_self
                apply queued.watches waiter within
                rw [beq_iff_eq.mp selected]
                exact List.mem_append_right _ down
              have dead := queued.fallen _ down
              rw [watching] at dead
              exact dead
      · exact received

theorem Queued.die (process : Process) : Queued [] (pool.die process) := by
  have same : (pool.die process).watched ⊆ pool.watched := by
    intro entry member
    rcases List.mem_append.mp member with kept | fired
    · exact List.mem_append_left _ (List.mem_filter.mp kept).1
    · rcases List.mem_append.mp fired with earlier | new
      · exact List.mem_append_right _ earlier
      · exact List.mem_append_left _ (List.mem_filter.mp new).1
  exact
    { queued with
      watches := fun waiter member other entry => queued.watches waiter member other (same entry)
      older := fun entry member => queued.older entry (same member)
      fallen := by
        intro entry member
        rcases List.mem_append.mp member with earlier | new
        · exact List.mem_append_left _ (queued.fallen entry earlier)
        · have fell := (List.mem_filter.mp new).2
          exact List.mem_append_right _ (List.mem_singleton.mpr (by simpa using fell))
      gone := fun checkout member => List.mem_append_left _ (queued.gone checkout member) }

theorem queued_step {next : WorkerPool} {event : Event}
    (stepped : pool.step config event = some next) : Queued [] next := by
  cases event with
  | checkout checkout =>
      rw [step] at stepped
      split at stepped
      · cases stepped
      · next fresh =>
          cases stepped
          exact queued.handleCheckout fresh
  | checkin caller lease =>
      rw [step] at stepped
      split at stepped
      · cases stepped
        have returned : Queued [] (pool.giveBack caller lease) := queued.narrow rfl rfl rfl rfl rfl
          rfl rfl (List.Subset.refl _) (List.Subset.refl _)
        exact returned.handleCheckin lease
      · cases stepped
  | discard caller lease =>
      rw [step] at stepped
      split at stepped
      · cases stepped
        have returned : Queued [] (pool.giveBack caller lease) := queued.narrow rfl rfl rfl rfl rfl
          rfl rfl (List.Subset.refl _) (List.Subset.refl _)
        exact returned.dropRow lease.ref
      · cases stepped
  | spawnResult ref started =>
      rw [step] at stepped
      split at stepped
      · cases stepped
        have known : Queued [] { pool with spawned := pool.spawned ++ started.toList } :=
          queued.narrow rfl rfl rfl rfl rfl rfl rfl (List.Subset.refl _) (List.Subset.refl _)
        exact known.handleSpawnResult ref started
      · cases stepped
  | spawn ref =>
      rw [step] at stepped
      split at stepped
      · cases stepped
        rw [spawnSlot]
        split
        · exact queued.narrow rfl rfl rfl rfl rfl rfl rfl (List.Subset.refl _) (List.Subset.refl _)
        · exact queued.narrow rfl rfl rfl rfl rfl rfl rfl (List.Subset.refl _) (List.Subset.refl _)
      · cases stepped
  | checkoutTimeout waitRef =>
      rw [step] at stepped
      split at stepped
      · cases stepped
        exact queued.handleCheckoutTimeout waitRef
      · cases stepped
  | down ref process =>
      rw [step] at stepped
      split at stepped
      · next down =>
          cases stepped
          exact queued.handleDown down
      · cases stepped
  | dies process =>
      rw [step] at stepped
      split at stepped
      · cases stepped
        exact queued.die process
      · cases stepped

end

end Queued

/-! ## What the pool promises -/

def repliesTo (pool : WorkerPool) (checkout : Checkout) : List Reply :=
  (pool.replies.filter fun entry => entry.1 = checkout).map Prod.snd

/-- Answered once and not queued, queued with its timer and not answered, or gone with its
caller. -/
def Answered (pool : WorkerPool) (checkout : Checkout) : Prop :=
  (pool.repliesTo checkout).length = 1 ∧ checkout ∉ pool.waiting.map Waiter.checkout ∨
    pool.repliesTo checkout = [] ∧
      (∃ waiter ∈ pool.waiting, waiter.checkout = checkout ∧ waiter.ref ∈ pool.timers) ∨
    pool.repliesTo checkout = [] ∧ checkout ∉ pool.waiting.map Waiter.checkout ∧
      .caller checkout.caller ∈ pool.dead

/-- The message leaves the rows that other callers hold as they are. -/
def Undisturbed (config : Config) (pool : WorkerPool) (event : Event) (caller : Nat) : Prop :=
  ∀ next, pool.step config event = some next → ∀ ref row, pool.rows.get? ref = some row →
    row.status = .busy → row.owner ≠ some caller → next.rows.get? ref = some row

structure Exclusive (config : Config) (pool : WorkerPool) : Prop where
  single : ∀ left right leftLease rightLease, (left, leftLease) ∈ pool.held →
    (right, rightLease) ∈ pool.held → leftLease.worker = rightLease.worker → left = right
  checkin : ∀ caller lease, Current pool (.checkin caller lease) →
    Undisturbed config pool (.checkin caller lease) caller
  discard : ∀ caller lease, Current pool (.discard caller lease) →
    Undisturbed config pool (.discard caller lease) caller
  answered : ∀ checkout ∈ pool.checkouts, Answered pool checkout
  slots : pool.rows.entries.length + pool.pending.length + pool.scheduled.length = config.size

section Exclusive

variable {config : Config} {pool : WorkerPool}

theorem dropRow_other {dropped ref : Nat} {row : Row}
    (there : pool.rows.get? ref = some row) (different : ref ≠ dropped) :
    (pool.dropRow dropped).rows.get? ref = some row := by
  cases held : pool.rows.get? dropped with
  | none =>
      rw [dropRow_of_none pool held]
      exact there
  | some other =>
      rw [(dropRow_tables pool held).rows, OrderedMap.get?_erase, if_neg different]
      exact there

variable {lease : Lease}

theorem other_slot {caller : Nat}
    (current : ∀ row ∈ pool.rows.get? lease.ref, row.status = .busy → row.owner = some caller ∧
      row.worker = lease.worker)
    {ref : Nat} {row : Row} (there : pool.rows.get? ref = some row) (busy : row.status = .busy)
    (others : row.owner ≠ some caller) : ref ≠ lease.ref := by
  intro equal
  exact others (current row (equal ▸ there) busy).1

theorem undisturbed_discard {caller : Nat} (current : Current pool (.discard caller lease)) :
    Undisturbed config pool (.discard caller lease) caller := by
  intro next stepped ref row there busy others
  rw [step] at stepped
  split at stepped
  · cases stepped
    exact dropRow_other there (other_slot current there busy others)
  · cases stepped

theorem undisturbed_checkin (leased : Leased config pool) {caller : Nat}
    (current : Current pool (.checkin caller lease)) :
    Undisturbed config pool (.checkin caller lease) caller := by
  intro next stepped ref row there busy others
  have elsewhere := other_slot current there busy others
  rw [step] at stepped
  split at stepped
  · cases stepped
    rw [handleCheckin]
    split
    · next mine found =>
        split
        · next mineBusy =>
            split
            · have same := sameTables_demonitor (pool.giveBack caller lease) mine.ownerMon
              have kept := (leased.giveBack caller lease).same same
              have free := free_of_current leased found (current mine found mineBusy)
              have idle := kept.markIdle (same.rows ▸ found) (same.held ▸ free)
              refine serveWaiters_busy idle ?_ busy
              rw [markIdle]
              dsimp only
              rw [same.rows, leased.named _ _ found, OrderedMap.get?_set_of_ne _ elsewhere]
              exact there
            · exact dropRow_other there elsewhere
        · exact there
    · exact there
  · cases stepped

theorem Queued.answered (queued : Queued [] pool) {checkout : Checkout}
    (asked : checkout ∈ pool.checkouts) : Answered pool checkout := by
  have replies : (pool.repliesTo checkout).length = (pool.replies.map Prod.fst).count checkout := by
    rw [repliesTo, List.length_map, List.count, List.countP_map, List.countP_eq_length_filter]
    congr 1
  have once : pool.checkouts.count checkout = 1 :=
    List.count_eq_one_of_mem queued.tags.of_map asked
  rw [← queued.accounted.count_eq, List.nil_append, List.count_append, List.count_append,
    ← replies] at once
  by_cases waiting : checkout ∈ pool.waiting.map Waiter.checkout
  · have counted := List.count_pos_iff.mpr waiting
    rcases List.mem_map.mp waiting with ⟨waiter, member, rfl⟩
    exact .inr (.inl ⟨List.eq_nil_of_length_eq_zero (by omega), waiter, member, rfl,
      queued.timed waiter member⟩)
  · have absent := List.count_eq_zero.mpr waiting
    by_cases gone : checkout ∈ pool.abandoned
    · have counted := List.count_pos_iff.mpr gone
      exact .inr (.inr ⟨List.eq_nil_of_length_eq_zero (by omega), waiting,
        queued.gone checkout gone⟩)
    · have none := List.count_eq_zero.mpr gone
      exact .inl ⟨by omega, waiting⟩

theorem exclusive_of_parts (leased : Leased config pool) (queued : Queued [] pool) :
    Exclusive config pool where
  single := leased.single
  checkin := fun _ _ current => undisturbed_checkin leased current
  discard := fun _ _ current => undisturbed_discard current
  answered := fun _ asked => queued.answered asked
  slots := by
    have total := leased.slots.length_eq
    rw [WorkerPool.slots, List.length_append, List.length_append, List.length_range,
      OrderedMap.keys, List.length_map] at total
    omega

/-- In every run whose leases come back current, the leases are exclusive, the checkouts
answered and the slots all there. -/
theorem exclusive_of_run {config : Config} {events : List Event} {pool : WorkerPool}
    (current : (machine config).Meets Current (initial config) events)
    (reached : (machine config).run (initial config) events = some pool) :
    Exclusive config pool := by
  have preserved : ∀ pool event next, Leased config pool ∧ Queued [] pool → Current pool event →
      (machine config).step pool event = some next → Leased config next ∧ Queued [] next := by
    rintro pool event next ⟨leased, queued⟩ current stepped
    exact ⟨leased_step leased current stepped, queued_step queued stepped⟩
  have whole := Machine.run_preserves preserved ⟨leased_initial, queued_initial⟩ current reached
  exact exclusive_of_parts whole.1 whole.2

end Exclusive

/-! ### Leases that outlive their worker -/

def oneSlot : Config where
  size := 1
  queueLimit := 20

/-- The first worker dies under its caller, and the slot's next worker is leased to another. -/
def leasedAgain : List Event :=
  [.spawnResult 0 (some 100), .checkout ⟨1, 10⟩, .dies (.worker 100), .down 1 (.worker 100),
    .spawn 0, .spawnResult 0 (some 101), .checkout ⟨2, 11⟩]

/-- The first caller's checkin takes the second worker from its caller and it is leased a third
time; its discard drops the second worker. -/
theorem stale_leases_disturb :
    (∃ pool, (machine oneSlot).run (initial oneSlot)
      (leasedAgain ++ [.checkin 10 ⟨0, 100⟩, .checkout ⟨3, 12⟩]) = some pool ∧
        (11, ⟨0, 101⟩) ∈ pool.held ∧ (12, ⟨0, 101⟩) ∈ pool.held) ∧
    ∃ pool, (machine oneSlot).run (initial oneSlot) leasedAgain = some pool ∧
      ¬ Undisturbed oneSlot pool (.discard 10 ⟨0, 100⟩) 10 := by
  constructor
  · exact ⟨_, rfl, by decide, by decide⟩
  · refine ⟨_, rfl, fun undisturbed => ?_⟩
    have kept := undisturbed _ rfl 0 _ rfl rfl (by decide)
    cases kept

def takingTurns : List Event :=
  [.spawnResult 0 (some 100), .checkout ⟨1, 10⟩, .checkout ⟨2, 11⟩, .checkin 10 ⟨0, 100⟩,
    .checkoutTimeout 3, .discard 11 ⟨0, 100⟩, .spawn 0]

theorem exclusive_takingTurns :
    ∃ pool, (machine oneSlot).run (initial oneSlot) takingTurns = some pool ∧
      Exclusive oneSlot pool := by
  refine ⟨_, rfl, @exclusive_of_run oneSlot takingTurns _ ?_ rfl⟩
  decide

end WorkerPool

end Ebb.Server
