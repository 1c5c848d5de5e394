import Ebb.Server.WorkerPool

namespace Ebb.Server

/-! The leases of the worker pool over whole runs: every slot is in one place, a lease in
force is the row that its slot holds, and every checkout is accounted for. -/

namespace WorkerPool

/-! ## What the primitives leave alone -/

section Frame

variable (pool : WorkerPool)

/-- Setting or dropping a monitor touches nothing else. -/
structure SameTables (left right : WorkerPool) : Prop where
  rows : left.rows = right.rows
  byPid : left.byPid = right.byPid
  idle : left.idle = right.idle
  waiting : left.waiting = right.waiting
  pending : left.pending = right.pending
  scheduled : left.scheduled = right.scheduled
  timers : left.timers = right.timers
  dead : left.dead = right.dead
  spawned : left.spawned = right.spawned
  granted : left.granted = right.granted
  held : left.held = right.held
  checkouts : left.checkouts = right.checkouts
  replies : left.replies = right.replies
  abandoned : left.abandoned = right.abandoned

theorem sameTables_monitor (process : Process) : SameTables (pool.monitor process) pool := by
  rw [monitor]
  split
  · constructor <;> rfl
  · constructor <;> rfl

theorem sameTables_demonitor (ref : Option Nat) : SameTables (pool.demonitor ref) pool := by
  cases ref with
  | none => constructor <;> rfl
  | some ref => constructor <;> rfl

theorem SameTables.trans {first second third : WorkerPool} (before : SameTables first second)
    (after : SameTables second third) : SameTables first third := by
  constructor
  case rows => exact before.rows.trans after.rows
  case byPid => exact before.byPid.trans after.byPid
  case idle => exact before.idle.trans after.idle
  case waiting => exact before.waiting.trans after.waiting
  case pending => exact before.pending.trans after.pending
  case scheduled => exact before.scheduled.trans after.scheduled
  case timers => exact before.timers.trans after.timers
  case dead => exact before.dead.trans after.dead
  case spawned => exact before.spawned.trans after.spawned
  case granted => exact before.granted.trans after.granted
  case held => exact before.held.trans after.held
  case checkouts => exact before.checkouts.trans after.checkouts
  case replies => exact before.replies.trans after.replies
  case abandoned => exact before.abandoned.trans after.abandoned

theorem dropRow_tables {ref : Nat} {row : Row} (held : pool.rows.get? ref = some row) :
    SameTables (pool.dropRow ref)
      { pool with
        rows := pool.rows.erase ref
        byPid := pool.byPid.erase row.worker
        idle := pool.idle.erase ref
        scheduled := pool.scheduled ++ [ref] } := by
  have same := (sameTables_demonitor (pool.demonitor row.ownerMon) (some row.monitor)).trans
    (sameTables_demonitor pool row.ownerMon)
  rw [dropRow, held]
  dsimp only
  constructor
  case rows => exact congrArg (OrderedMap.erase · ref) same.rows
  case byPid => exact congrArg (OrderedMap.erase · row.worker) same.byPid
  case idle => exact congrArg (List.erase · ref) same.idle
  case scheduled => exact congrArg (· ++ [ref]) same.scheduled
  case waiting => exact same.waiting
  case pending => exact same.pending
  case timers => exact same.timers
  case dead => exact same.dead
  case spawned => exact same.spawned
  case granted => exact same.granted
  case held => exact same.held
  case checkouts => exact same.checkouts
  case replies => exact same.replies
  case abandoned => exact same.abandoned

def Row.leasedTo (row : Row) (caller monitor : Nat) : Row :=
  { row with status := .busy, owner := some caller, ownerMon := some monitor }

theorem lease_tables (row : Row) (checkout : Checkout) :
    SameTables (pool.lease row checkout)
      { pool with
        rows := pool.rows.set row.ref (row.leasedTo checkout.caller pool.nextRef)
        byPid := pool.byPid.set row.worker row.ref
        granted := pool.granted ++ [(checkout.caller, ⟨row.ref, row.worker⟩)]
        held := pool.held ++ [(checkout.caller, ⟨row.ref, row.worker⟩)]
        replies := pool.replies ++ [(checkout, .leased ⟨row.ref, row.worker⟩)] } := by
  have same := sameTables_monitor pool (.caller checkout.caller)
  rw [lease]
  constructor
  case rows => exact congrArg (OrderedMap.set · row.ref _) same.rows
  case byPid => exact congrArg (OrderedMap.set · row.worker row.ref) same.byPid
  case granted => exact congrArg (· ++ [_]) same.granted
  case held => exact congrArg (· ++ [_]) same.held
  case replies => exact congrArg (· ++ [_]) same.replies
  case idle => exact same.idle
  case scheduled => exact same.scheduled
  case waiting => exact same.waiting
  case pending => exact same.pending
  case timers => exact same.timers
  case dead => exact same.dead
  case spawned => exact same.spawned
  case checkouts => exact same.checkouts
  case abandoned => exact same.abandoned

theorem dropRow_of_none {ref : Nat} (absent : pool.rows.get? ref = none) :
    pool.dropRow ref = pool := by
  rw [dropRow, absent]

theorem popIdle_spec {refs rest : List Nat} {row : Row}
    (popped : pool.popIdle refs = some (row, rest)) :
    ∃ ref, pool.rows.get? ref = some row ∧ row.status = .idle := by
  induction refs with
  | nil => cases popped
  | cons ref refs induction =>
      rw [popIdle] at popped
      split at popped
      · next candidate found =>
          split at popped
          · next fit =>
              cases popped
              exact ⟨ref, found, fit.1⟩
          · exact induction popped
      · exact induction popped

theorem serveWaiters_induct {P : WorkerPool → Prop}
    (round : ∀ (pool : WorkerPool) row idle waiter rest, P pool → pool.waiting = waiter :: rest →
      pool.popIdle pool.idle = some (row, idle) → P (pool.serve row idle waiter rest))
    {pool : WorkerPool} (holds : P pool) : P pool.serveWaiters := by
  have general : ∀ waiting (pool : WorkerPool), pool.waiting = waiting → P pool →
      P (pool.serveAll waiting) := by
    intro waiting
    induction waiting with
    | nil => exact fun _ _ holds => holds
    | cons waiter rest induction =>
        intro pool queued holds
        rw [serveAll]
        split
        · exact holds
        · next row idle popped =>
            refine induction _ ?_ (round pool row idle waiter rest holds queued popped)
            rw [serve, lease]
            exact ((sameTables_monitor _ _).waiting).trans (sameTables_demonitor _ _).waiting
  exact general pool.waiting pool rfl holds

end Frame

/-! ## Slots and leases -/

def slots (pool : WorkerPool) : List Nat := pool.rows.keys ++ (pool.pending ++ pool.scheduled)

/-- Every slot is a row, at a start task or due to be started; a worker is in one row, and
the row of a lease in force is busy with its holder. -/
structure Leased (config : Config) (pool : WorkerPool) : Prop where
  slots : pool.slots.Perm (List.range config.size)
  named : ∀ ref row, pool.rows.get? ref = some row → row.ref = ref
  known : ∀ ref row, pool.rows.get? ref = some row → row.worker ∈ pool.spawned
  alone : ∀ left right leftRow rightRow, pool.rows.get? left = some leftRow →
    pool.rows.get? right = some rightRow → leftRow.worker = rightRow.worker → left = right
  started : ∀ caller lease, (caller, lease) ∈ pool.held → lease.worker ∈ pool.spawned
  owned : ∀ caller lease, (caller, lease) ∈ pool.held → ∀ ref row, pool.rows.get? ref = some row →
    row.worker = lease.worker → ref = lease.ref ∧ row.status = .busy ∧ row.owner = some caller
  single : ∀ left right leftLease rightLease, (left, leftLease) ∈ pool.held →
    (right, rightLease) ∈ pool.held → leftLease.worker = rightLease.worker → left = right

section Leased

variable {config : Config} {pool : WorkerPool}

theorem leased_initial : Leased config (initial config) where
  slots := by
    rw [WorkerPool.slots]
    simp [initial, OrderedMap.keys, OrderedMap.empty]
  named := nofun
  known := nofun
  alone := nofun
  started := nofun
  owned := nofun
  single := nofun

variable {next : WorkerPool} {ref : Nat} {row : Row}

theorem Leased.congr (leased : Leased config pool) (rows : next.rows = pool.rows)
    (pending : next.pending = pool.pending) (scheduled : next.scheduled = pool.scheduled)
    (spawned : next.spawned = pool.spawned) (held : next.held = pool.held) :
      Leased config next where
  slots := by
    rw [WorkerPool.slots, rows, pending, scheduled]
    exact leased.slots
  named := rows ▸ leased.named
  known := by
    rw [rows, spawned]
    exact leased.known
  alone := rows ▸ leased.alone
  started := by
    rw [held, spawned]
    exact leased.started
  owned := by
    rw [held, rows]
    exact leased.owned
  single := held ▸ leased.single

theorem Leased.same (leased : Leased config pool) (same : SameTables next pool)
    : Leased config next :=
  leased.congr same.rows same.pending same.scheduled same.spawned same.held

theorem Leased.giveBack (leased : Leased config pool) (caller : Nat) (lease : Lease) :
    Leased config (pool.giveBack caller lease) where
  slots := leased.slots
  named := leased.named
  known := leased.known
  alone := leased.alone
  started := fun other held member => leased.started other held (List.mem_filter.mp member).1
  owned := fun other held member => leased.owned other held (List.mem_filter.mp member).1
  single := fun left right leftLease rightLease leftMember rightMember =>
    leased.single left right leftLease rightLease (List.mem_filter.mp leftMember).1
      (List.mem_filter.mp rightMember).1

theorem keys_set_of_held {rows : OrderedMap Nat Row} (held : rows.get? ref = some row) (next : Row)
    : (rows.set ref next).keys = rows.keys := by
  have member : ref ∈ rows.entries.map Prod.fst := (rows.mem_keys_iff ref).mpr ⟨row, held⟩
  rw [OrderedMap.keys, OrderedMap.set]
  exact (keys_setEntry ref next rows.entries).trans (if_pos member)

theorem keys_erase (rows : OrderedMap Nat Row) (ref : Nat) :
    (rows.erase ref).keys = rows.keys.erase ref := by
  rw [OrderedMap.keys, OrderedMap.keys, List.Nodup.erase_eq_filter rows.nodup, List.filter_map]
  congr 1
  apply List.filter_congr
  intro entry _
  simp [bne, beq_eq_decide]

theorem Leased.replace (leased : Leased config pool) {next : WorkerPool} {ref : Nat} {row : Row}
    (other : Row) (there : pool.rows.get? ref = some row) (worker : other.worker = row.worker)
    (slot : other.ref = ref) (rows : next.rows = pool.rows.set ref other)
    (pending : next.pending = pool.pending) (scheduled : next.scheduled = pool.scheduled)
    (spawned : next.spawned = pool.spawned)
    (started : ∀ caller lease, (caller, lease) ∈ next.held → lease.worker ∈ pool.spawned)
    (elsewhere : ∀ caller lease, (caller, lease) ∈ next.held → lease.worker ≠ row.worker →
      (caller, lease) ∈ pool.held)
    (here : ∀ caller lease, (caller, lease) ∈ next.held → lease.worker = row.worker →
      lease.ref = ref ∧ other.status = .busy ∧ other.owner = some caller) :
    Leased config next where
  slots := by
    rw [WorkerPool.slots, rows, pending, scheduled, keys_set_of_held there]
    exact leased.slots
  named := by
    intro key found held
    rw [rows, OrderedMap.get?_set] at held
    split at held
    · next same =>
        cases held
        rw [slot, same]
    · exact leased.named key found held
  known := by
    intro key found held
    rw [rows, OrderedMap.get?_set] at held
    rw [spawned]
    split at held
    · cases held
      rw [worker]
      exact leased.known ref row there
    · exact leased.known key found held
  alone := by
    have plain : ∀ key found, next.rows.get? key = some found →
        ∃ before, pool.rows.get? key = some before ∧ before.worker = found.worker := by
      intro key found held
      rw [rows, OrderedMap.get?_set] at held
      split at held
      · next same =>
          cases held
          exact ⟨row, same ▸ there, worker.symm⟩
      · exact ⟨found, held, rfl⟩
    intro left right leftRow rightRow leftHeld rightHeld equal
    rcases plain left leftRow leftHeld with ⟨leftBefore, leftThere, leftWorker⟩
    rcases plain right rightRow rightHeld with ⟨rightBefore, rightThere, rightWorker⟩
    exact leased.alone left right leftBefore rightBefore leftThere rightThere
      (by rw [leftWorker, rightWorker, equal])
  started := by
    rw [spawned]
    exact started
  owned := by
    intro caller lease member key found held equal
    rw [rows, OrderedMap.get?_set] at held
    split at held
    · next same =>
        cases held
        rw [same]
        rcases here caller lease member (equal.symm.trans worker) with ⟨named, busy, owner⟩
        exact ⟨named.symm, busy, owner⟩
    · next different =>
        by_cases moved : lease.worker = row.worker
        · exact absurd (leased.alone key ref found row held there (equal.trans moved)) different
        · exact leased.owned caller lease (elsewhere caller lease member moved) key found held equal
  single := by
    intro left right leftLease rightLease leftMember rightMember equal
    by_cases moved : leftLease.worker = row.worker
    · have leftOwner := (here left leftLease leftMember moved).2.2
      have rightOwner := (here right rightLease rightMember (equal.symm.trans moved)).2.2
      exact Option.some.inj (leftOwner.symm.trans rightOwner)
    · exact leased.single left right leftLease rightLease (elsewhere left leftLease leftMember moved)
        (elsewhere right rightLease rightMember (equal ▸ moved)) equal

theorem Leased.lease (leased : Leased config pool) (there : pool.rows.get? ref = some row)
    (idle : row.status = .idle) (checkout : Checkout) :
    Leased config (pool.lease row checkout) := by
  have tables := lease_tables pool row checkout
  have named := leased.named ref row there
  have free : ∀ caller lease, (caller, lease) ∈ pool.held → lease.worker ≠ row.worker := by
    intro caller lease member equal
    rcases leased.owned caller lease member ref row there equal.symm with ⟨_, busy, _⟩
    rw [idle] at busy
    cases busy
  have held : ∀ caller lease, (caller, lease) ∈ (pool.lease row checkout).held →
      (caller, lease) ∈ pool.held ∨ caller = checkout.caller ∧ lease = ⟨row.ref, row.worker⟩ := by
    intro caller lease member
    rw [tables.held] at member
    rcases List.mem_append.mp member with earlier | new
    · exact .inl earlier
    · cases List.mem_singleton.mp new
      exact .inr ⟨rfl, rfl⟩
  apply leased.replace (row.leasedTo checkout.caller pool.nextRef) there rfl named
  case rows => exact tables.rows.trans (by rw [named])
  case pending => exact tables.pending
  case scheduled => exact tables.scheduled
  case spawned => exact tables.spawned
  case started =>
    intro caller lease member
    rcases held caller lease member with earlier | ⟨_, rfl⟩
    · exact leased.started caller lease earlier
    · exact leased.known ref row there
  case elsewhere =>
    intro caller lease member different
    rcases held caller lease member with earlier | ⟨_, rfl⟩
    · exact earlier
    · exact absurd rfl different
  case here =>
    intro caller lease member equal
    rcases held caller lease member with earlier | ⟨rfl, rfl⟩
    · exact absurd equal (free caller lease earlier)
    · exact ⟨named, rfl, rfl⟩

theorem Leased.markIdle (leased : Leased config pool) (there : pool.rows.get? ref = some row)
    (free : ∀ caller lease, (caller, lease) ∈ pool.held → lease.worker ≠ row.worker) :
    Leased config (pool.markIdle row) := by
  have named := leased.named ref row there
  apply leased.replace { row with status := .idle, owner := none, ownerMon := none } there rfl named
  case rows => exact congrArg (pool.rows.set · _) named
  case pending => rfl
  case scheduled => rfl
  case spawned => rfl
  case started => exact leased.started
  case elsewhere => exact fun _ _ member _ => member
  case here => exact fun caller lease member equal => absurd equal (free caller lease member)

theorem Leased.markIdle_started (leased : Leased config pool) {row : Row}
    (pending : row.ref ∈ pool.pending) (fresh : row.worker ∉ pool.spawned) :
    Leased config ({ pool with
      pending := pool.pending.erase row.ref
      spawned := pool.spawned ++ [row.worker] }.markIdle row) where
  slots := by
    have absent : row.ref ∉ pool.rows.entries.map Prod.fst := by
      have nodup : pool.slots.Nodup := leased.slots.nodup_iff.mpr List.nodup_range
      exact fun member => (List.disjoint_of_nodup_append nodup) member
        (List.mem_append_left _ pending)
    have keys : (pool.rows.set row.ref
        { row with status := .idle, owner := none, ownerMon := none }).keys =
        pool.rows.keys ++ [row.ref] :=
      (keys_setEntry row.ref _ pool.rows.entries).trans (if_neg absent)
    refine List.Perm.trans ?_ leased.slots
    rw [WorkerPool.slots, WorkerPool.slots, WorkerPool.markIdle]
    dsimp only
    rw [keys, List.append_assoc]
    refine List.Perm.append_left _ ?_
    rw [List.singleton_append, ← List.cons_append]
    exact (List.perm_cons_erase pending).symm.append_right _
  named := by
    intro ref found held
    rw [WorkerPool.markIdle] at held
    dsimp only at held
    rw [OrderedMap.get?_set] at held
    split at held
    · next same =>
        cases held
        exact same.symm
    · exact leased.named ref found held
  known := by
    intro ref found held
    rw [WorkerPool.markIdle] at held
    dsimp only at held
    rw [OrderedMap.get?_set] at held
    split at held
    · cases held
      exact List.mem_append_right _ List.mem_cons_self
    · exact List.mem_append_left _ (leased.known ref found held)
  alone := by
    have cases : ∀ key found, (pool.rows.set row.ref
        { row with status := .idle, owner := none, ownerMon := none }).get? key = some found →
        key = row.ref ∧ found.worker = row.worker ∨
          pool.rows.get? key = some found ∧ found.worker ≠ row.worker := by
      intro key found held
      rw [OrderedMap.get?_set] at held
      split at held
      · next same =>
          cases held
          exact .inl ⟨same, rfl⟩
      · exact .inr ⟨held, fun equal => fresh (equal ▸ leased.known key found held)⟩
    intro left right leftRow rightRow leftHeld rightHeld equal
    rcases cases left leftRow leftHeld with ⟨leftSame, leftWorker⟩ | ⟨leftThere, leftWorker⟩
    · rcases cases right rightRow rightHeld with ⟨rightSame, _⟩ | ⟨_, rightWorker⟩
      · rw [leftSame, rightSame]
      · exact absurd (equal.symm.trans leftWorker) rightWorker
    · rcases cases right rightRow rightHeld with ⟨_, rightWorker⟩ | ⟨rightThere, _⟩
      · exact absurd (equal.trans rightWorker) leftWorker
      · exact leased.alone left right leftRow rightRow leftThere rightThere equal
  started := fun caller lease member =>
    List.mem_append_left _ (leased.started caller lease member)
  owned := by
    intro caller lease member ref found held equal
    rw [WorkerPool.markIdle] at held
    dsimp only at held
    rw [OrderedMap.get?_set] at held
    split at held
    · cases held
      have known := leased.started caller lease member
      rw [← equal] at known
      exact absurd known fresh
    · exact leased.owned caller lease member ref found held equal
  single := leased.single

theorem Leased.dropRow (leased : Leased config pool) (ref : Nat) :
    Leased config (pool.dropRow ref) := by
  cases there : pool.rows.get? ref with
  | none =>
      rw [dropRow_of_none pool there]
      exact leased
  | some row =>
      apply Leased.same _ (dropRow_tables pool there)
      have kept : ∀ key found, (pool.rows.erase ref).get? key = some found →
          pool.rows.get? key = some found := by
        intro key found held
        rw [OrderedMap.get?_erase] at held
        split at held
        · cases held
        · exact held
      constructor
      case slots =>
        have member : ref ∈ pool.rows.keys := (pool.rows.mem_keys_iff ref).mpr ⟨row, there⟩
        refine List.Perm.trans ?_ leased.slots
        rw [WorkerPool.slots, WorkerPool.slots]
        dsimp only
        rw [keys_erase, ← List.append_assoc, ← List.append_assoc]
        refine List.Perm.trans ?_ ((List.perm_cons_erase member).symm.append_right _)
        rw [List.cons_append, ← List.append_assoc]
        exact List.perm_append_singleton _ _
      case named => exact fun key found held => leased.named key found (kept key found held)
      case known => exact fun key found held => leased.known key found (kept key found held)
      case alone =>
        exact fun left right leftRow rightRow leftHeld rightHeld =>
          leased.alone left right leftRow rightRow (kept left leftRow leftHeld)
            (kept right rightRow rightHeld)
      case started => exact leased.started
      case owned =>
        exact fun caller lease member key found held =>
          leased.owned caller lease member key found (kept key found held)
      case single => exact leased.single

theorem Leased.serve (leased : Leased config pool) {idle rest : List Nat}
    (popped : pool.popIdle rest = some (row, idle)) (waiter : Waiter) (waiting : List Waiter) :
    Leased config (pool.serve row idle waiter waiting) := by
  rcases popIdle_spec pool popped with ⟨ref, there, free⟩
  have same := sameTables_demonitor { pool with idle, waiting } (some waiter.monitor)
  have moved : Leased config { pool with idle, waiting } := leased.congr rfl rfl rfl rfl rfl
  exact (moved.same same).lease (same.rows ▸ there) free waiter.checkout

theorem Leased.serveWaiters (leased : Leased config pool) : Leased config pool.serveWaiters :=
  serveWaiters_induct (fun _ _ _ waiter rest leased _ popped => leased.serve popped waiter rest)
    leased

theorem serveWaiters_busy (leased : Leased config pool) (there : pool.rows.get? ref = some row)
    (busy : row.status = .busy) :
    pool.serveWaiters.rows.get? ref = some row := by
  have both : Leased config pool.serveWaiters ∧ pool.serveWaiters.rows.get? ref = some row := by
    refine @serveWaiters_induct
      (fun pool => Leased config pool ∧ pool.rows.get? ref = some row) ?_ pool ⟨leased, there⟩
    · rintro pool taken idle waiter rest ⟨leased, there⟩ queued popped
      refine ⟨leased.serve popped waiter rest, ?_⟩
      rcases popIdle_spec pool popped with ⟨slot, found, free⟩
      have same := sameTables_demonitor { pool with idle, waiting := rest } (some waiter.monitor)
      rw [WorkerPool.serve, (lease_tables _ _ _).rows, OrderedMap.get?_set_of_ne]
      · rw [same.rows]
        exact there
      · intro equal
        rw [leased.named slot taken found] at equal
        rw [equal, found] at there
        cases there
        rw [free] at busy
        cases busy
  exact both.2

/-! ### Messages -/

/-- The condition on the runs: a lease that comes back finds its slot held by the caller, with
the lease's worker, when the slot is held at all. -/
def Current (pool : WorkerPool) : Event → Prop
  | .checkin caller lease => ∀ row ∈ pool.rows.get? lease.ref, row.status = .busy →
      row.owner = some caller ∧ row.worker = lease.worker
  | .discard caller lease => ∀ row ∈ pool.rows.get? lease.ref, row.status = .busy →
      row.owner = some caller ∧ row.worker = lease.worker
  | _ => True

instance : ∀ event, Decidable (Current pool event)
  | .checkin _ lease => decidable_of_iff (∀ row ∈ pool.rows.get? lease.ref, _) Iff.rfl
  | .discard _ lease => decidable_of_iff (∀ row ∈ pool.rows.get? lease.ref, _) Iff.rfl
  | .checkout _ => .isTrue trivial
  | .spawnResult _ _ => .isTrue trivial
  | .spawn _ => .isTrue trivial
  | .checkoutTimeout _ => .isTrue trivial
  | .down _ _ => .isTrue trivial
  | .dies _ => .isTrue trivial

section

variable (leased : Leased config pool)
include leased

theorem Leased.handleCheckout (checkout : Checkout) :
    Leased config (pool.handleCheckout config checkout) := by
  rw [WorkerPool.handleCheckout]
  split
  · next row idle popped =>
      rcases popIdle_spec pool popped with ⟨ref, there, free⟩
      have moved : Leased config { pool with idle } := leased.congr rfl rfl rfl rfl rfl
      exact moved.lease there free checkout
  · rw [queueCheckout]
    split
    · have same := sameTables_monitor { pool with nextRef := pool.nextRef + 1 }
        (.caller checkout.caller)
      exact leased.congr same.rows same.pending same.scheduled same.spawned same.held
    · exact leased.congr rfl rfl rfl rfl rfl

theorem free_of_current {caller : Nat} {lease : Lease} (there : pool.rows.get? lease.ref = some row)
    (current : row.owner = some caller ∧ row.worker = lease.worker) :
    ∀ other held, (other, held) ∈ (pool.giveBack caller lease).held → held.worker ≠ row.worker := by
  intro other held member equal
  rcases List.mem_filter.mp member with ⟨before, different⟩
  rcases leased.owned other held before lease.ref row there equal.symm with ⟨slot, _, owner⟩
  have sameCaller : other = caller := Option.some.inj (owner.symm.trans current.1)
  have sameLease : held = lease := by
    rcases held with ⟨ref, worker⟩
    rcases lease with ⟨otherRef, otherWorker⟩
    dsimp only at slot equal current
    rw [slot, equal, current.2]
  rw [sameCaller, sameLease] at different
  simp at different

theorem Leased.handleCheckin {caller : Nat} {lease : Lease}
    (current : Current pool (.checkin caller lease)) :
    Leased config ((pool.giveBack caller lease).handleCheckin lease) := by
  rw [WorkerPool.handleCheckin]
  split
  · next row there =>
      split
      · next busy =>
          split
          · have same := sameTables_demonitor (pool.giveBack caller lease) row.ownerMon
            have kept := (leased.giveBack caller lease).same same
            have free := free_of_current leased there (current row there busy)
            refine (kept.markIdle (same.rows ▸ there) ?_).serveWaiters
            rw [same.held]
            exact free
          · exact (leased.giveBack caller lease).dropRow lease.ref
      · exact leased.giveBack caller lease
  · exact leased.giveBack caller lease

theorem Leased.handleSpawnResult {started : Option Nat} (pending : ref ∈ pool.pending)
    (fresh : ∀ worker ∈ started, worker ∉ pool.spawned) :
    Leased config ({ pool with spawned := pool.spawned ++ started.toList }.handleSpawnResult
      ref started) := by
  cases started with
  | some worker =>
      have same := sameTables_monitor { pool with
        spawned := pool.spawned ++ [worker]
        pending := pool.pending.erase ref } (.worker worker)
      have started := @Leased.markIdle_started config pool leased
        { ref, worker, monitor := pool.nextRef, status := .idle, owner := none, ownerMon := none }
        pending (fresh worker rfl)
      have ready : Leased config ({ WorkerPool.monitor { pool with
          spawned := pool.spawned ++ [worker]
          pending := pool.pending.erase ref } (.worker worker) with spawnFailures := 0 }.markIdle
            { ref, worker, monitor := pool.nextRef, status := .idle, owner := none,
              ownerMon := none }) :=
        started.congr (congrArg (OrderedMap.set · ref _) same.rows) same.pending same.scheduled
          same.spawned same.held
      exact ready.serveWaiters
  | none =>
      rw [WorkerPool.handleSpawnResult, respawnAfterFailure, Option.toList_none, List.append_nil]
      refine { leased with slots := ?_ }
      refine List.Perm.trans ?_ leased.slots
      refine List.Perm.append_left _ ?_
      rw [← List.append_assoc]
      refine (List.perm_append_singleton _ _).trans ?_
      rw [← List.cons_append]
      exact (List.perm_cons_erase pending).symm.append_right _

theorem Leased.spawn (scheduled : ref ∈ pool.scheduled) :
    Leased config ({ pool with scheduled := pool.scheduled.erase ref }.spawnSlot ref) := by
  have nodup : pool.slots.Nodup := leased.slots.nodup_iff.mpr List.nodup_range
  have absent : ref ∉ pool.pending := fun member =>
    (List.disjoint_of_nodup_append (List.Nodup.of_append_right nodup)) member scheduled
  rw [spawnSlot, if_neg absent]
  refine { leased with slots := ?_ }
  refine List.Perm.trans ?_ leased.slots
  refine List.Perm.append_left _ ?_
  dsimp only
  rw [List.append_assoc, List.singleton_append]
  exact List.Perm.append_left _ (List.perm_cons_erase scheduled).symm

theorem Leased.handleDown (ref : Nat) (process : Process) :
    Leased config (pool.handleDown ref process) := by
  unfold WorkerPool.handleDown
  dsimp only
  split
  · exact leased.dropRow _
  · split
    · exact leased.dropRow _
    · split
      · exact leased.congr rfl rfl rfl rfl rfl
      · exact leased

theorem leased_step {event : Event} (current : Current pool event)
    (stepped : pool.step config event = some next) :
    Leased config next := by
  cases event with
  | checkout checkout =>
      rw [step] at stepped
      split at stepped
      · cases stepped
      · cases stepped
        have asked : Leased config { pool with checkouts := pool.checkouts ++ [checkout] } :=
          leased.congr rfl rfl rfl rfl rfl
        exact asked.handleCheckout checkout
  | checkin caller lease =>
      rw [step] at stepped
      split at stepped
      · cases stepped
        exact leased.handleCheckin current
      · cases stepped
  | discard caller lease =>
      rw [step] at stepped
      split at stepped
      · cases stepped
        exact (leased.giveBack caller lease).dropRow lease.ref
      · cases stepped
  | spawnResult ref started =>
      rw [step] at stepped
      split at stepped
      · next admitted =>
          cases stepped
          exact leased.handleSpawnResult admitted.1 admitted.2
      · cases stepped
  | spawn ref =>
      rw [step] at stepped
      split at stepped
      · next scheduled =>
          cases stepped
          exact leased.spawn scheduled
      · cases stepped
  | checkoutTimeout waitRef =>
      rw [step] at stepped
      split at stepped
      · cases stepped
        rw [handleCheckoutTimeout]
        split
        · next waiter waiting _ =>
            have same := sameTables_demonitor { pool with timers := pool.timers.erase waitRef }
              (some waiter.monitor)
            exact leased.congr same.rows same.pending same.scheduled same.spawned same.held
        · exact leased.congr rfl rfl rfl rfl rfl
      · cases stepped
  | down ref process =>
      rw [step] at stepped
      split at stepped
      · cases stepped
        have taken : Leased config { pool with downs := pool.downs.erase (ref, process) } :=
          leased.congr rfl rfl rfl rfl rfl
        exact taken.handleDown ref process
      · cases stepped
  | dies process =>
      rw [step] at stepped
      split at stepped
      · cases stepped
        exact leased.congr rfl rfl rfl rfl rfl
      · cases stepped

end

end Leased

end WorkerPool

end Ebb.Server
