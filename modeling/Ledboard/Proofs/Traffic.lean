/-
# The traffic of a processor

A processor sees its bus through two operations only, so putting a recorder between the two
changes nothing and shows everything: the recorder passes each read and each write on and keeps
a log of them.

* **A recorder does not disturb** (`cycle_recorded`, `after_recorded`): the processor goes through
  the same states, and the bus behind the recorder through the same contents.
* **The log is the whole effect** (`bus_cycle_eq_replay`): what a cycle does to the bus is what the
  transactions of its log do, one after another.  So a property of the bus that reads keep, and
  that the writes in the log keep, holds after the cycle (`cycle_preserves`).

Both follow from one fact about two buses that answer alike (`cycle_alike`).
-/
import Ledboard.Machine

namespace Ledboard

open Addressable

variable {β γ : Type} [Addressable β] [Addressable γ]

/-! ## 1. Two buses that answer alike -/

/-- A relation between buses under which both answer every read with the same word, and which
reads and writes keep. -/
structure Alike (R : β → γ → Prop) : Prop where
  word : ∀ {b c}, R b c → ∀ a, (readWord b a).1 = (readWord c a).1
  read : ∀ {b c}, R b c → ∀ a, R (readWord b a).2 (readWord c a).2
  write : ∀ {b c}, R b c → ∀ a w, R (writeWord b a w) (writeWord c a w)

namespace Processor

theorem fetch_alike {R : β → γ → Prop} (hR : Alike R) {b : β} {c : γ} (h : R b c) (ip : UInt32) :
    (fetch b ip).1 = (fetch c ip).1 ∧ R (fetch b ip).2 (fetch c ip).2 := by
  have hword := hR.word h ip
  have hread := hR.read h ip
  simp only [fetch, hword]
  split
  · exact ⟨by rw [hR.word hread], hR.read hread _⟩
  · exact ⟨rfl, hread⟩

theorem execute_alike {R : β → γ → Prop} (hR : Alike R) {b : β} {c : γ} (h : R b c)
    (p : Processor) (i : Instruction) :
    (p.execute b i).1 = (p.execute c i).1 ∧ R (p.execute b i).2 (p.execute c i).2 := by
  cases i with
  | read => exact ⟨by simp only [execute, hR.word h], hR.read h _⟩
  | write => exact ⟨rfl, hR.write h _ _⟩
  | _ => exact ⟨rfl, h⟩

/-- **One cycle on two buses that answer alike**: the same instruction, the same processor, and
buses that answer alike again. -/
theorem cycle_alike {R : β → γ → Prop} (hR : Alike R) {b : β} {c : γ} (h : R b c)
    (p : Processor) :
    (p.cycle b).1 = (p.cycle c).1 ∧ (p.cycle b).2.1 = (p.cycle c).2.1 ∧
      R (p.cycle b).2.2 (p.cycle c).2.2 := by
  cases hh : p.halted with
  | true =>
    rw [cycle_of_halted hh, cycle_of_halted hh]
    exact ⟨rfl, rfl, h⟩
  | false =>
    obtain ⟨hi, hb⟩ := fetch_alike hR h p.ip
    rw [cycle_of_running hh, cycle_of_running hh, hi]
    exact ⟨rfl, execute_alike hR hb _ _⟩

end Processor

/-! ## 2. The recorder -/

/-- One word that moved over a bus. -/
inductive Transaction where
  | read (address : UInt32) (word : Word)
  | write (address : UInt32) (word : Word)
  deriving DecidableEq, Repr

/-- Whether a transaction is no write, or one behind an address. -/
def Transaction.spares (limit : Nat) : Transaction → Bool
  | .read _ _ => true
  | .write address _ => decide (limit < address.toNat)

/-- What a transaction does to a bus. -/
def Transaction.apply (bus : β) : Transaction → β
  | .read address _ => (readWord bus address).2
  | .write address word => writeWord bus address word

/-- A bus behind a recorder: every transaction is passed on and put down in the log. -/
structure Recorded (β : Type) where
  bus : β
  log : List Transaction
  deriving DecidableEq

namespace Recorded

/-- A recorder with an empty log. -/
def start (bus : β) : Recorded β := ⟨bus, []⟩

instance : Addressable (Recorded β) where
  readWord r a :=
    let (word, bus) := readWord r.bus a
    (word, ⟨bus, r.log ++ [.read a word]⟩)
  writeWord r a w := ⟨writeWord r.bus a w, r.log ++ [.write a w]⟩

/-- A recorder answers like the bus behind it. -/
theorem alike_bus : Alike (fun (r : Recorded β) (bus : β) => r.bus = bus) where
  word := by
    rintro r _ rfl a
    rfl
  read := by
    rintro r _ rfl a
    rfl
  write := by
    rintro r _ rfl a w
    rfl

/-- A recorder whose log says how its bus came about, from a given bus on. -/
def Explains (bus : β) (r : Recorded β) : Prop := r.bus = r.log.foldl Transaction.apply bus

theorem alike_explains (bus : β) :
    Alike (fun (r s : Recorded β) => r = s ∧ Explains bus r) where
  word := by
    rintro r _ ⟨rfl, -⟩ a
    rfl
  read := by
    rintro r _ ⟨rfl, h⟩ a
    refine ⟨rfl, ?_⟩
    unfold Explains at h
    simp only [Explains, readWord, List.foldl_append, List.foldl_cons, List.foldl_nil, ← h]
    rfl
  write := by
    rintro r _ ⟨rfl, h⟩ a w
    refine ⟨rfl, ?_⟩
    unfold Explains at h
    simp only [Explains, writeWord, List.foldl_append, List.foldl_cons, List.foldl_nil, ← h]
    rfl

end Recorded

/-! ## 3. Cycles and runs under the recorder -/

namespace Processor

/-- **A recorder does not disturb a cycle.** -/
theorem cycle_recorded (p : Processor) (r : Recorded β) :
    (p.cycle r).1 = (p.cycle r.bus).1 ∧ (p.cycle r).2.1 = (p.cycle r.bus).2.1 ∧
      (p.cycle r).2.2.bus = (p.cycle r.bus).2.2 :=
  cycle_alike Recorded.alike_bus rfl p

/-- The transactions of one cycle. -/
def traffic (p : Processor) (bus : β) : List Transaction :=
  (p.cycle (Recorded.start bus)).2.2.log

/-- **The log of a cycle is its whole effect on the bus.** -/
theorem bus_cycle_eq_replay (p : Processor) (bus : β) :
    (p.cycle bus).2.2 = (p.traffic bus).foldl Transaction.apply bus := by
  have hexplains := (cycle_alike (Recorded.alike_explains bus)
    (b := Recorded.start bus) ⟨rfl, rfl⟩ p).2.2.2
  have hsame : (p.cycle (Recorded.start bus)).2.2.bus = (p.cycle bus).2.2 :=
    (cycle_recorded p (Recorded.start bus)).2.2
  rw [← hsame]
  exact hexplains

/-- What holds of a bus, survives its reads and survives the writes in the log of a cycle holds
after the cycle. -/
theorem cycle_preserves {P : β → Prop} {p : Processor} {bus : β} (h : P bus)
    (hread : ∀ b a, P b → P (readWord b a).2)
    (hwrite : ∀ b a w, .write a w ∈ p.traffic bus → P b → P (writeWord b a w)) :
    P (p.cycle bus).2.2 := by
  rw [bus_cycle_eq_replay]
  generalize p.traffic bus = log at hwrite
  induction log generalizing bus with
  | nil => exact h
  | cons t rest ih =>
    have hfirst : P (t.apply bus) := by
      cases t with
      | read a w => exact hread bus a h
      | write a w => exact hwrite bus a w List.mem_cons_self h
    exact ih hfirst (fun b a w hmem => hwrite b a w (List.mem_cons_of_mem t hmem))

/-- The processor and its bus after a number of cycles. -/
def after (p : Processor) (bus : β) : Nat → Processor × β
  | 0 => (p, bus)
  | n + 1 => ((p.after bus n).1.cycle (p.after bus n).2).2

/-- **A recorder does not disturb a run.** -/
theorem after_recorded (p : Processor) (r : Recorded β) (n : Nat) :
    (p.after r n).1 = (p.after r.bus n).1 ∧ (p.after r n).2.bus = (p.after r.bus n).2 := by
  induction n with
  | zero => exact ⟨rfl, rfl⟩
  | succ n ih =>
    obtain ⟨hp, hb⟩ := ih
    have h := cycle_recorded (p.after r n).1 (p.after r n).2
    rw [hb, hp] at h
    exact ⟨by simpa only [after, hp] using h.2.1, by simpa only [after, hp] using h.2.2⟩

end Processor

namespace Machine

/-- The transactions of the next step. -/
def traffic (m : Machine) : List Transaction := m.processor.traffic m.bus

/-- The machine after a number of steps. -/
def after (m : Machine) : Nat → Machine
  | 0 => m
  | n + 1 => (m.after n).step.2

/-- The first step may be taken by itself. -/
theorem after_succ (m : Machine) (n : Nat) : m.after (n + 1) = m.step.2.after n := by
  induction n with
  | zero => rfl
  | succ n ih => rw [after, ih, after]

/-- Some steps and then some more. -/
theorem after_add (m : Machine) (a b : Nat) : m.after (a + b) = (m.after a).after b := by
  induction b with
  | zero => rfl
  | succ b ih => rw [← Nat.add_assoc, after, ih, after]

/-- **The transactions of a step are its whole effect on the bus.** -/
theorem bus_step_eq_replay (m : Machine) :
    m.step.2.bus = m.traffic.foldl Transaction.apply m.bus :=
  Processor.bus_cycle_eq_replay m.processor m.bus

end Machine

end Ledboard
