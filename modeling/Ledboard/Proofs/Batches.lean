/-
# Batches are steps

The board runs its processor batch by batch, takes snapshots on a period and on request, and looks
after each batch whether the processor halted.  How the cycles are cut into batches cannot be told
from what comes out (`batches_are_steps`): the snapshots are those that are due in so many steps,
the machine is the one that stepping leads to, and a processor that halts is reported in the same
way, with the same snapshots in front, for every size of the batches.

* **Requests** (`step_asking`).  The flag by which a snapshot is asked for is nothing that a step
  looks at, so a machine with the flag and one without it go the same way.
* **Cuts** (`runBatch.go_add`).  A batch of `a + b` cycles is one of `a` cycles and then one of `b`
  cycles, wherever the halt lies.  So everything about several batches is about a single one.
* **One batch** (`runBatch.go_eq`).  What it takes and where it ends, by induction on its cycles.
-/
import Ledboard.StepLoop
import Ledboard.Proofs.Traffic

namespace Ledboard

/-! ## 1. The flag of a request -/

namespace Processor

open Addressable

variable {β : Type} [Addressable β]

/-- A processor with the flag of a request set to a value. -/
def asking (p : Processor) (asked : Bool) : Processor := { p with debugRequested := asked }

theorem execute_asking (p : Processor) (asked : Bool) (bus : β) (i : Instruction) :
    (p.asking asked).execute bus i =
      ((p.execute bus i).1.asking asked, (p.execute bus i).2) := by
  cases i with
  | jumpIfLess d =>
    have hless : (p.asking asked).pop.1 = p.pop.1 ∧
        (p.asking asked).pop.2.pop.1 = p.pop.2.pop.1 := ⟨rfl, rfl⟩
    simp only [execute, hless]
    split <;> rfl
  | _ => rfl

/-- A cycle does not look at the flag. -/
theorem cycle_asking (p : Processor) (asked : Bool) (bus : β) :
    (p.asking asked).cycle bus =
      ((p.cycle bus).1, (p.cycle bus).2.1.asking asked, (p.cycle bus).2.2) := by
  cases hh : p.halted with
  | true =>
    have hh' : (p.asking asked).halted = true := hh
    rw [cycle_of_halted hh, cycle_of_halted hh']
  | false =>
    have hh' : (p.asking asked).halted = false := hh
    rw [cycle_of_running hh, cycle_of_running hh']
    exact congrArg (Prod.mk _) (execute_asking { p with cycles := p.cycles + 1 } asked _ _)

theorem cycles_execute (p : Processor) (bus : β) (i : Instruction) :
    (p.execute bus i).1.cycles = p.cycles := by
  cases i with
  | jumpIfLess d =>
    simp only [execute]
    split <;> rfl
  | _ => rfl

end Processor

namespace Machine

variable {m : Machine} {every : Option Nat}

/-- A machine whose processor has the flag of a request set to a value. -/
def asking (m : Machine) (asked : Bool) : Machine :=
  { m with processor := m.processor.asking asked }

@[simp] theorem asking_debugRequested (m : Machine) :
    m.asking m.processor.debugRequested = m := rfl

@[simp] theorem asking_asking (m : Machine) (a b : Bool) : (m.asking a).asking b = m.asking b := rfl

@[simp] theorem halted_asking (m : Machine) (asked : Bool) :
    (m.asking asked).processor.halted = m.processor.halted := rfl

@[simp] theorem snapshot_asking (m : Machine) (asked : Bool) :
    (m.asking asked).processor.snapshot = m.processor.snapshot := rfl

/-- A step does not look at the flag. -/
theorem step_asking (m : Machine) (asked : Bool) :
    (m.asking asked).step = (m.step.1, m.step.2.asking asked) := by
  simp only [step, asking, Processor.cycle_asking]

theorem debugRequested_step (m : Machine) :
    m.step.2.processor.debugRequested = m.processor.debugRequested := by
  have h := step_asking m m.processor.debugRequested
  rw [asking_debugRequested] at h
  exact congrArg (fun r => r.2.processor.debugRequested) h

theorem after_asking (m : Machine) (asked : Bool) (n : Nat) :
    (m.asking asked).after n = (m.after n).asking asked := by
  induction n with
  | zero => rfl
  | succ n ih => rw [after, ih, step_asking, after]

/-! ## 2. Steps up to the halt and beyond -/

theorem step_of_halted (h : m.processor.halted = true) : m.step = (none, m) := by
  simp only [step, Processor.cycle_of_halted h]

/-- A step of a machine that is not halted carries an instruction out, and counts. -/
theorem step_of_running (h : m.processor.halted = false) :
    ∃ i, m.step.1 = some i ∧ m.step.2.processor.cycles = m.processor.cycles + 1 := by
  refine ⟨(Processor.fetch m.bus m.processor.ip).1, ?_, ?_⟩
  · simp only [step, Processor.cycle_of_running h]
  · simp only [step, Processor.cycle_of_running h]
    exact Processor.cycles_execute _ _ _

theorem after_of_halted (h : m.processor.halted = true) (n : Nat) : m.after n = m := by
  induction n with
  | zero => rfl
  | succ n ih => rw [after, ih, step_of_halted h]

/-- A machine that is not halted was not halted before. -/
theorem running_of_after {k n : Nat} (h : (m.after n).processor.halted = false) (hk : k ≤ n) :
    (m.after k).processor.halted = false := by
  rw [← Nat.add_sub_cancel' hk, after_add] at h
  refine Bool.eq_false_iff.mpr fun hhalted => ?_
  rw [after_of_halted hhalted, hhalted] at h
  exact absurd h (by decide)

/-! ## 3. The snapshots that are due -/

/-- Whether the period divides the number of the last cycle. -/
def onPeriod (m : Machine) (every : Option Nat) : Bool :=
  every.any (fun period => decide (period ∣ m.processor.cycles.toNat))

@[simp] theorem onPeriod_asking (m : Machine) (asked : Bool) (every : Option Nat) :
    (m.asking asked).onPeriod every = m.onPeriod every := rfl

/-- The snapshot that is due after cycle `k` from now, if one is; the next cycle is number 0.  One
is due if the cycle is carried out, and the period divides its number or it is the first one after
a request. -/
def snapshotAfter? (m : Machine) (every : Option Nat) (k : Nat) : Option Snapshot :=
  if !(m.after k).processor.halted &&
      ((m.after (k + 1)).onPeriod every || (k == 0 && m.processor.debugRequested)) then
    some (m.after (k + 1)).processor.snapshot
  else none

/-- The snapshots that are due in the next `n` steps, in their order. -/
def dueSnapshots (m : Machine) (every : Option Nat) (n : Nat) : List Snapshot :=
  (List.range n).filterMap (m.snapshotAfter? every)

theorem dueSnapshots_of_halted (h : m.processor.halted = true) (every : Option Nat) (n : Nat) :
    m.dueSnapshots every n = [] := by
  rw [dueSnapshots, List.filterMap_eq_nil_iff]
  intro k _
  simp [snapshotAfter?, after_of_halted h, h]

/-- After the first cycle the request is forgotten. -/
theorem snapshotAfter?_succ (m : Machine) (every : Option Nat) (k : Nat) :
    m.snapshotAfter? every (k + 1) = (m.step.2.asking false).snapshotAfter? every k := by
  have hflag : (m.step.2.asking false).processor.debugRequested = false := rfl
  unfold snapshotAfter?
  rw [after_succ m k, after_succ m (k + 1), after_asking, after_asking, hflag]
  simp

/-- The snapshots of one step and those of the steps behind it. -/
theorem dueSnapshots_succ (m : Machine) (every : Option Nat) (n : Nat) :
    m.dueSnapshots every (n + 1) =
      (m.snapshotAfter? every 0).toList ++ (m.step.2.asking false).dueSnapshots every n := by
  have hlater : (m.snapshotAfter? every ∘ Nat.succ) =
      (m.step.2.asking false).snapshotAfter? every := funext (snapshotAfter?_succ m every)
  rw [dueSnapshots, List.range_succ_eq_map, List.filterMap_cons, List.filterMap_map, hlater]
  cases m.snapshotAfter? every 0 <;> rfl

/-! ## 4. One batch -/

/-- Taking a snapshot where one is due leaves no request behind. -/
theorem takeDebug_requestIfDue (m : Machine) (every : Option Nat) :
    (m.requestIfDue every).takeDebug =
      (if m.onPeriod every || m.processor.debugRequested then some m.processor.snapshot else none,
        m.asking false) := by
  have htake : ∀ m : Machine, m.takeDebug =
      (if m.processor.debugRequested then some m.processor.snapshot else none, m.asking false) := by
    intro m
    unfold takeDebug Processor.takeDebug
    cases hasked : m.processor.debugRequested with
    | true => rfl
    | false =>
      rw [← hasked, asking_debugRequested]
      simp [hasked]
  have hrequest : m.requestIfDue every =
      m.asking (m.onPeriod every || m.processor.debugRequested) := by
    cases every with
    | none => rfl
    | some period =>
      simp only [requestIfDue, onPeriod, Option.any_some, Nat.dvd_iff_mod_eq_zero]
      by_cases hdue : m.processor.cycles.toNat % period = 0
      · simp only [hdue, if_true, decide_true, Bool.true_or]
        rfl
      · simp only [hdue, if_false, decide_false, Bool.false_or, asking_debugRequested]
  rw [hrequest, htake]
  rfl

namespace runBatch

theorem go_of_halted (h : m.processor.halted = true) (taken : Array Snapshot) (n : Nat) :
    go every taken m n = (taken, m) := by
  cases n with
  | zero => rfl
  | succ n => simp only [go, step_of_halted h]

/-- The first cycle of a batch. -/
theorem go_succ (h : m.processor.halted = false) (taken : Array Snapshot) (n : Nat) :
    go every taken m (n + 1) =
      go every (taken ++ (m.snapshotAfter? every 0).toList.toArray) (m.step.2.asking false) n := by
  obtain ⟨i, hi, -⟩ := step_of_running h
  have hdue : m.snapshotAfter? every 0 =
      if m.step.2.onPeriod every || m.step.2.processor.debugRequested then
        some m.step.2.processor.snapshot else none := by
    simp [snapshotAfter?, after, h, debugRequested_step]
  rw [go, hdue]
  generalize m.step = outcome at hi
  rcases outcome with ⟨_, next⟩
  obtain rfl := hi
  simp only [takeDebug_requestIfDue]
  split
  · rename_i hnone
    simp_all
  · rename_i hsome
    simp_all

/-- **One batch** takes the snapshots that are due and leads where stepping leads.  Its first cycle,
if it has one, uses the request up. -/
theorem go_eq (m : Machine) (every : Option Nat) (taken : Array Snapshot) (n : Nat) :
    go every taken m n =
      (taken ++ (m.dueSnapshots every n).toArray,
        (m.after n).asking (m.processor.debugRequested && (n == 0 || m.processor.halted))) := by
  induction n generalizing m taken with
  | zero => simp [go, dueSnapshots, after]
  | succ n ih =>
    cases hh : m.processor.halted with
    | true => simp [go_of_halted hh, dueSnapshots_of_halted hh, after_of_halted hh]
    | false =>
      have hflag : (m.step.2.asking false).processor.debugRequested = false := rfl
      rw [go_succ hh, ih, dueSnapshots_succ, after_succ, after_asking, hflag, Array.append_assoc,
        List.append_toArray]
      simp

/-- **A batch can be cut anywhere.** -/
theorem go_add (m : Machine) (every : Option Nat) (taken : Array Snapshot) (a b : Nat) :
    go every taken m (a + b) = go every (go every taken m a).1 (go every taken m a).2 b := by
  induction a generalizing m taken with
  | zero => rw [Nat.zero_add, go]
  | succ a ih =>
    cases hh : m.processor.halted with
    | true => simp only [go_of_halted hh]
    | false => rw [Nat.add_right_comm, go_succ hh, go_succ hh, ih]

/-- Snapshots that were taken before stay in front. -/
theorem go_taken (m : Machine) (every : Option Nat) (taken : Array Snapshot) (n : Nat) :
    go every taken m n = (taken ++ (go every #[] m n).1, (go every #[] m n).2) := by
  rw [go_eq m every taken n, go_eq m every #[] n, Array.empty_append]

/-- A batch that has come to the halt does not change by being longer. -/
theorem go_of_le {a b : Nat} (hle : a ≤ b) (taken : Array Snapshot)
    (h : (go every taken m a).2.processor.halted = true) :
    go every taken m b = go every taken m a := by
  rw [← Nat.add_sub_cancel' hle, go_add, go_of_halted h]

end runBatch

/-! ## 5. Several batches -/

/-- Batches of several sizes, one after another: all snapshots that they take, and the machine
behind the last one. -/
def runBatches (m : Machine) (every : Option Nat) : List Nat → Array Snapshot × Machine
  | [] => (#[], m)
  | steps :: rest =>
    let (taken, next) := m.runBatch steps every
    let (later, last) := next.runBatches every rest
    (taken ++ later, last)

/-- How many cycles batches of several sizes may take, all together; a size of zero counts as one. -/
def totalSteps (sizes : List Nat) : Nat := sizes.foldr (fun steps n => max steps 1 + n) 0

/-- **Several batches are one.** -/
theorem runBatches_eq (m : Machine) (every : Option Nat) (sizes : List Nat) :
    m.runBatches every sizes = runBatch.go every #[] m (totalSteps sizes) := by
  induction sizes generalizing m with
  | nil => rfl
  | cons steps rest ih =>
    simp only [runBatches, runBatch, ih, totalSteps, List.foldr_cons]
    rw [runBatch.go_add, runBatch.go_taken _ _ (runBatch.go every #[] m (max steps 1)).1]

/-! ## 6. Runs without snapshots -/

/-- **A run counts its cycles**, leads where stepping leads, and is shorter than its limit only at
the halt. -/
theorem run_go_eq (m : Machine) (ran n : Nat) :
    ∃ count ≤ n, run.go ran m n = (ran + count, m.after n) ∧
      (m.after n).processor.cycles = m.processor.cycles + UInt64.ofNat count ∧
      (count < n → (m.after n).processor.halted = true) := by
  induction n generalizing m ran with
  | zero => exact ⟨0, Nat.le_refl 0, rfl, by simp [after], by simp⟩
  | succ n ih =>
    cases hh : m.processor.halted with
    | true =>
      refine ⟨0, Nat.zero_le _, ?_, ?_, ?_⟩
      · simp only [run.go, step_of_halted hh, after_of_halted hh, Nat.add_zero]
      · simp [after_of_halted hh]
      · simp [after_of_halted hh, hh]
    | false =>
      obtain ⟨i, hi, hcycles⟩ := step_of_running hh
      obtain ⟨count, hle, hgo, hcount, hend⟩ := ih m.step.2 (ran + 1)
      rw [after_succ]
      refine ⟨count + 1, Nat.succ_le_succ hle, ?_, ?_, fun hlt => hend (Nat.lt_of_succ_lt_succ hlt)⟩
      · rw [run.go]
        generalize m.step = outcome at hi hgo
        rcases outcome with ⟨_, next⟩
        obtain rfl := hi
        simp only [hgo]
        rw [Nat.add_assoc, Nat.add_comm 1 count]
      · rw [hcount, hcycles, UInt64.ofNat_add, UInt64.add_assoc, UInt64.add_comm 1]
        rfl

/-- **A run that comes to the halt** has taken as many cycles as it takes to get there. -/
theorem run_go_of_halt {n : Nat} (hrunning : ∀ k < n, (m.after k).processor.halted = false)
    (hhalted : (m.after n).processor.halted = true) {limit : Nat} (hlimit : n ≤ limit)
    (ran : Nat) : run.go ran m limit = (ran + n, m.after n) := by
  induction n generalizing m limit ran with
  | zero =>
    cases limit with
    | zero => rfl
    | succ limit =>
      have hstep : m.step = (none, m) := step_of_halted hhalted
      simp only [run.go, hstep, after, Nat.add_zero]
  | succ n ih =>
    obtain ⟨limit, rfl⟩ := Nat.exists_eq_add_of_le' (Nat.lt_of_lt_of_le (Nat.succ_pos n) hlimit)
    obtain ⟨i, hi, -⟩ := step_of_running (hrunning 0 (Nat.succ_pos n))
    have hleft : n ≤ limit := Nat.le_of_succ_le_succ hlimit
    have hlater := ih (m := m.step.2)
      (fun k hk => after_succ m k ▸ hrunning (k + 1) (Nat.succ_lt_succ hk))
      (after_succ m n ▸ hhalted) hleft (ran + 1)
    rw [run.go, after_succ, ← Nat.add_assoc, Nat.add_right_comm ran n 1, ← hlater]
    change m.step.1 = some i at hi
    generalize m.step = outcome at hi
    rcases outcome with ⟨_, next⟩
    obtain rfl := hi
    rfl

/-- The counter counts the cycles up to the halt. -/
theorem cycles_after {n : Nat} (hrunning : ∀ k < n, (m.after k).processor.halted = false) :
    (m.after n).processor.cycles = m.processor.cycles + UInt64.ofNat n := by
  induction n with
  | zero => simp [after]
  | succ n ih =>
    obtain ⟨-, -, hcycles⟩ := step_of_running (hrunning n (Nat.lt_succ_self n))
    rw [after, hcycles, ih (fun k hk => hrunning k (Nat.lt_succ_of_lt hk)), UInt64.ofNat_add,
      UInt64.add_assoc]
    rfl

end Machine

/-! ## 7. The step loop -/

namespace StepLoop

open Machine

/-- What the step loop comes to for a machine that `n` steps bring to the halt. -/
def haltingOutcome (m : Machine) (every : Option Nat) (n : Nat) : Outcome where
  cycles := some (m.after n).processor.cycles.toNat
  machine := (m.after n).asking (m.processor.debugRequested && m.processor.halted)
  events := ((m.dueSnapshots every n).map snapshotEvent ++ [haltEvent (m.after n)]).toArray

/-- The step loop goes on until the halt, whatever the size of its batches is. -/
theorem runFrom_eq {n : Nat} (steps : Nat) (every : Option Nat) {limit : Nat} (hlimit : n < limit)
    {m : Machine} (h : (runBatch.go every #[] m n).2.processor.halted = true)
    (events : Array Log.Event) :
    let all := runBatch.go every #[] m n
    runFrom steps every events limit m =
      ⟨some all.2.processor.cycles.toNat, all.2,
        (events ++ all.1.map snapshotEvent).push (haltEvent all.2)⟩ := by
  induction limit generalizing n m events with
  | zero => exact absurd hlimit (Nat.not_lt_zero n)
  | succ limit ih =>
    intro all
    have hfirst : m.runBatch steps every = runBatch.go every #[] m (max steps 1) := rfl
    rw [runFrom]
    generalize m.runBatch steps every = first at hfirst
    by_cases hhalted : first.2.processor.halted = true
    · have hall : all = first := by
        rcases Nat.le_total n (max steps 1) with hle | hle
        · rw [hfirst]
          exact (runBatch.go_of_le hle #[] h).symm
        · rw [hfirst] at hhalted ⊢
          exact runBatch.go_of_le hle #[] hhalted
      simp only [hhalted, if_true, hall]
    · have hlt : max steps 1 < n := by
        refine Nat.lt_of_not_le (fun hle => hhalted ?_)
        rw [hfirst, runBatch.go_of_le hle #[] h]
        exact h
      have hcut : all = (first.1 ++ (runBatch.go every #[] first.2 (n - max steps 1)).1,
          (runBatch.go every #[] first.2 (n - max steps 1)).2) := by
        rw [← runBatch.go_taken, hfirst, ← runBatch.go_add, Nat.add_sub_cancel' (Nat.le_of_lt hlt)]
      have hrest : (runBatch.go every #[] first.2 (n - max steps 1)).2.processor.halted = true := by
        rw [← congrArg Prod.snd hcut]
        exact h
      rw [Bool.not_eq_true] at hhalted
      simp only [hhalted, Bool.false_eq_true, if_false, ih (by omega) hrest, hcut,
        Array.map_append, Array.append_assoc]

/-- **The step loop comes to the same for every size of its batches.** -/
theorem run_eq {n : Nat} (steps : Nat) (every : Option Nat) {limit : Nat} (hlimit : n < limit)
    {m : Machine} (h : (m.after n).processor.halted = true) :
    run steps every limit m = haltingOutcome m every n := by
  have hflag : (n == 0 || m.processor.halted) = m.processor.halted := by
    cases n with
    | zero => exact h.symm
    | succ n => rfl
  have hgo := runBatch.go_eq m every #[] n
  rw [hflag, Array.empty_append] at hgo
  have hhalted : (runBatch.go every #[] m n).2.processor.halted = true := by
    rw [hgo]
    exact h
  rw [run, runFrom_eq steps every hlimit hhalted, hgo]
  simp [haltingOutcome, haltEvent, asking, Processor.asking]

end StepLoop

/-! ## 8. The whole -/

namespace Machine

/-- **How cycles are cut into batches cannot be told from what comes out.**  From any machine on, and
with any period or none:

* batches of any sizes take the snapshots that are due in as many steps, one for each cycle at
  most, and lead where the steps lead, but for the flag of a request; a run without snapshots leads
  there as well, says by how much the counter went up while the counter does not overflow, and falls
  short of its limit only at the halt;
* a machine that comes to the halt brings the step loop to one outcome, with the same count, the
  same last state and the same snapshots in front of the report of the halt, for every size of the
  batches. -/
theorem batches_are_steps (m : Machine) (every : Option Nat) :
    (∀ sizes, m.processor.cycles.toNat + totalSteps sizes < UInt64.size →
      let n := totalSteps sizes
      (m.runBatches every sizes).1.toList = m.dueSnapshots every n ∧
        (m.runBatches every sizes).2.asking false = (m.after n).asking false ∧
        (m.run n).2 = m.after n ∧
        (m.run n).2.processor.cycles.toNat = m.processor.cycles.toNat + (m.run n).1 ∧
        (m.run n).1 ≤ n ∧ ((m.run n).1 < n → (m.run n).2.processor.halted = true)) ∧
    ∀ n, (m.after n).processor.halted = true → ∀ steps limit, n < limit →
      StepLoop.run steps every limit m = StepLoop.haltingOutcome m every n := by
  refine ⟨?_, fun n h steps limit hlimit => StepLoop.run_eq steps every hlimit h⟩
  intro sizes hcount n
  obtain ⟨count, hle, hrun, hcycles, hend⟩ := run_go_eq m 0 n
  have hrun' : m.run n = (count, m.after n) := by
    rw [run, hrun, Nat.zero_add]
  have htotal : m.processor.cycles.toNat + n < UInt64.size := hcount
  rw [runBatches_eq, runBatch.go_eq, hrun']
  refine ⟨by simp [n], rfl, rfl, ?_, hle, hend⟩
  simp only [UInt64.size] at htotal
  rw [hcycles, UInt64.toNat_add, UInt64.toNat_ofNat']
  omega

/-- A program that counts to two and halts in its fourth cycle, with a request pending: one batch of
no size, one that stops in front of the halt and one that goes past it. -/
theorem batches_are_steps_of_request :
    let start := ((create ⟨16, 64, 128, 2⟩ (Display.dark 2) (Noise.counting 0 1)).load
      [2, 0, 0, 0, 1, 2, 0, 0, 0, 1, 4, 0]).2
    let m := start.asking true
    (m.processor.cycles.toNat + totalSteps [0, 2, 3] < UInt64.size ∧
      (m.runBatches (some 2) [0, 2, 3]).1.toList = m.dueSnapshots (some 2) 6) ∧
    ((m.after 4).processor.halted = true ∧
      StepLoop.run 3 (some 2) 5 m = StepLoop.haltingOutcome m (some 2) 4) := by
  intro start m
  have hcount : m.processor.cycles.toNat + totalSteps [0, 2, 3] < UInt64.size := by decide +kernel
  have hhalted : (m.after 4).processor.halted = true := by decide +kernel
  obtain ⟨hbatches, hloop⟩ := batches_are_steps m (some 2)
  exact ⟨⟨hcount, (hbatches [0, 2, 3] hcount).1⟩, hhalted, hloop 4 hhalted 3 5 (by decide)⟩

/-- The snapshots of that run are those of the first, the second and the fourth cycle. -/
example :
    let m := (((create ⟨16, 64, 128, 2⟩ (Display.dark 2) (Noise.counting 0 1)).load
      [2, 0, 0, 0, 1, 2, 0, 0, 0, 1, 4, 0]).2).asking true
    (m.dueSnapshots (some 2) 6).map (fun s => (s.cycles, s.stack)) =
      [(1, [1]), (2, [1, 1]), (4, [2])] := by
  decide +kernel

end Machine

end Ledboard
