/-
# What reaches a running program

Clients and noise reach a running program in one way only: the processor reads from the bus what
they left there.  Where it does not look, it cannot be disturbed (`reached_by_reads_only`).

* **Two buses that answer alike where it matters** (`AlikeWhere`).  A cycle goes the same way on two
  buses if they give the same words at the addresses that it reads (`cycle_alikeWhere`).
* **Who serves an address** (`Bus.servedBy`).  This depends on the wiring alone, so reads and writes
  leave it as it is.
* **Two relations.**  Machines that are the same but for the display that clients paint
  (`SameButDisplay`), and machines that are the same but for what their noise sources will give
  (`SameButNoise`).  Each is kept by a step that reads nothing of what is left out, also if it
  writes there.
* **Schedules.**  A message changes the display at most (`machine_happen_message`), so both relations
  hold along every schedule of cycles and messages.
-/
import Ledboard.Proofs.FreshFrames

namespace Ledboard

open Addressable

/-! ## 1. Two buses that answer alike at some addresses -/

section

variable {β γ : Type} [Addressable β] [Addressable γ] {ok : UInt32 → Prop} {R : β → γ → Prop}

/-- A relation between buses under which both answer reads at certain addresses with the same word,
and which such reads and all writes keep. -/
structure AlikeWhere (ok : UInt32 → Prop) (R : β → γ → Prop) : Prop where
  word : ∀ {b c}, R b c → ∀ a, ok a → (readWord b a).1 = (readWord c a).1
  read : ∀ {b c}, R b c → ∀ a, ok a → R (readWord b a).2 (readWord c a).2
  write : ∀ {b c}, R b c → ∀ a w, R (writeWord b a w) (writeWord c a w)

/-- All reads in a log are at certain addresses. -/
def ReadsOnly (ok : UInt32 → Prop) (log : List Transaction) : Prop :=
  ∀ a w, .read a w ∈ log → ok a

namespace Processor

/-- A log only grows. -/
theorem log_execute (p : Processor) (r : Recorded β) (i : Instruction) :
    r.log <+: (p.execute r i).2.log := by
  cases i with
  | read => exact List.prefix_append _ _
  | write => exact List.prefix_append _ _
  | _ => exact List.prefix_rfl

theorem fetch_alikeWhere (hR : AlikeWhere ok R) {r : Recorded β} {c : γ} (h : R r.bus c)
    (ip : UInt32) (hok : ReadsOnly ok (fetch r ip).2.log) :
    (fetch r ip).1 = (fetch c ip).1 ∧ R (fetch r ip).2.bus (fetch c ip).2 := by
  have hgrow : (readWord r ip).2.log <+: (fetch r ip).2.log := by
    simp only [fetch]
    split
    · exact List.prefix_append _ _
    · exact List.prefix_rfl
  have hfirst : ok ip := by
    refine hok ip (readWord r ip).1 (hgrow.mem ?_)
    exact List.mem_append_right r.log List.mem_cons_self
  have hword : (readWord r ip).1 = (readWord c ip).1 := hR.word h ip hfirst
  have hread : R (readWord r ip).2.bus (readWord c ip).2 := hR.read h ip hfirst
  by_cases himmediate : (readWord r ip).1.b0 = 2
  · have hsecond : ok (ip + 1) := by
      refine hok (ip + 1) (readWord (readWord r ip).2 (ip + 1)).1 ?_
      simp only [fetch, himmediate, if_true]
      exact List.mem_append_right _ List.mem_cons_self
    have hword' : (readWord (readWord r ip).2 (ip + 1)).1 =
        (readWord (readWord c ip).2 (ip + 1)).1 := hR.word hread _ hsecond
    simp only [fetch, ← hword, himmediate, if_true, hword', true_and]
    exact hR.read hread _ hsecond
  · simp only [fetch, ← hword, himmediate, if_false, true_and]
    exact hread

theorem execute_alikeWhere (hR : AlikeWhere ok R) {r : Recorded β} {c : γ} (h : R r.bus c)
    (p : Processor) (i : Instruction) (hok : ReadsOnly ok (p.execute r i).2.log) :
    (p.execute r i).1 = (p.execute c i).1 ∧ R (p.execute r i).2.bus (p.execute c i).2 := by
  cases i with
  | read =>
    have hread : ok p.pop.1.toUInt32 := hok _ _ (List.mem_append_right _ List.mem_cons_self)
    have hword : (readWord r p.pop.1.toUInt32).1 = (readWord c p.pop.1.toUInt32).1 :=
      hR.word h _ hread
    exact ⟨by simp only [execute, hword], hR.read h _ hread⟩
  | write => exact ⟨rfl, hR.write h _ _⟩
  | _ => exact ⟨rfl, h⟩

/-- **One cycle on two buses that answer alike where it reads.** -/
theorem cycle_alikeWhere (hR : AlikeWhere ok R) {b : β} {c : γ} (h : R b c) (p : Processor)
    (hok : ReadsOnly ok (p.traffic b)) :
    (p.cycle b).1 = (p.cycle c).1 ∧ (p.cycle b).2.1 = (p.cycle c).2.1 ∧
      R (p.cycle b).2.2 (p.cycle c).2.2 := by
  obtain ⟨hi, hp, hb⟩ := cycle_recorded p (Recorded.start b)
  have hstart : (Recorded.start b).bus = b := rfl
  rw [hstart] at hi hp hb
  rw [← hi, ← hp, ← hb]
  rw [traffic] at hok
  generalize Recorded.start b = r at hstart hok
  subst hstart
  cases hh : p.halted with
  | true =>
    rw [cycle_of_halted hh, cycle_of_halted hh]
    exact ⟨rfl, rfl, h⟩
  | false =>
    rw [cycle_of_running hh] at hok ⊢
    rw [cycle_of_running hh]
    have hfetched : ReadsOnly ok (fetch r p.ip).2.log :=
      fun a w hmem => hok a w ((log_execute _ _ _).mem hmem)
    obtain ⟨hinstruction, hbus⟩ := fetch_alikeWhere hR h p.ip hfetched
    rw [hinstruction] at hok ⊢
    exact ⟨rfl, execute_alikeWhere hR hbus _ _ hok⟩

end Processor

end

/-! ## 2. Who serves an address -/

namespace Device

/-- Whether a device is the window of the display that clients paint. -/
def isPainted : Device → Bool
  | .display number => number == 0
  | _ => false

/-- Whether a device is a noise source. -/
def isNoise : Device → Bool
  | .noise _ => true
  | _ => false

/-- A question about devices whose answer no access changes. -/
structure Steady (kind : Device → Bool) : Prop where
  read : ∀ (d : Device) displays offset, kind (d.read displays offset).2 = kind d
  write : ∀ (d : Device) displays offset word, kind (d.write displays offset word).1 = kind d

theorem steady_isPainted : Steady isPainted where
  read := by
    intro d displays offset
    cases d <;> rfl
  write := by
    intro d displays offset word
    cases d <;> rfl

theorem steady_isNoise : Steady isNoise where
  read := by
    intro d displays offset
    cases d <;> rfl
  write := by
    intro d displays offset word
    cases d <;> rfl

end Device

namespace Bus

/-- Whether an address is served by a device of some kind. -/
def servedBy (bus : Bus) (kind : Device → Bool) (address : UInt32) : Bool :=
  (bus.serving? address).any (fun b => kind b.device)

variable {kind : Device → Bool}

theorem servedBy_cons (kind : Device → Bool) (b : Binding) (rest : List Binding)
    (displays : Array Display) (address : UInt32) :
    servedBy ⟨b :: rest, displays⟩ kind address =
      if b.holds address then kind b.device else servedBy ⟨rest, displays⟩ kind address := by
  simp only [servedBy, serving?, List.find?_cons]
  cases b.holds address <;> rfl

/-- Reads leave the wiring as it is. -/
theorem servedBy_read (hkind : Device.Steady kind) (bus : Bus) (a x : UInt32) :
    (bus.read a).2.servedBy kind x = bus.servedBy kind x := by
  rcases bus with ⟨bindings, displays⟩
  simp only [read]
  induction bindings with
  | nil => rfl
  | cons b rest ih =>
    rw [servedBy_cons, Binding.readFirst]
    split
    · rw [servedBy_cons, hkind.read]
      rfl
    · rw [servedBy_cons, ih]

/-- So do writes. -/
theorem servedBy_write (hkind : Device.Steady kind) (bus : Bus) (a x : UInt32) (word : Word) :
    (bus.write a word).servedBy kind x = bus.servedBy kind x := by
  rcases bus with ⟨bindings, displays⟩
  simp only [write]
  induction bindings with
  | nil => rfl
  | cons b rest ih =>
    rw [servedBy_cons, Binding.writeFirst]
    split
    · rw [servedBy_cons, hkind.write]
      rfl
    · rw [servedBy_cons, ← ih]

end Bus

/-- Whether a transaction reads a word that some kind of device serves. -/
def Transaction.readsFrom (kind : Device → Bool) (bus : Bus) : Transaction → Bool
  | .read address _ => bus.servedBy kind address
  | .write _ _ => false

/-! ## 3. Steps that read nothing of what differs -/

/-- Buses that are the same up to what some kind of device gives: whoever reads from other devices
cannot tell them apart, and accesses of any kind keep it so. -/
structure Unseen (kind : Device → Bool) (R : Bus → Bus → Prop) : Prop where
  steady : Device.Steady kind
  word : ∀ {b c}, R b c → ∀ a, b.servedBy kind a = false → (b.read a).1 = (c.read a).1
  read : ∀ {b c}, R b c → ∀ a, R (b.read a).2 (c.read a).2
  write : ∀ {b c}, R b c → ∀ a w, R (b.write a w) (c.write a w)

/-- The wiring of the one bus may be taken as fixed. -/
theorem Unseen.alikeWhere {kind : Device → Bool} {R : Bus → Bus → Prop} (h : Unseen kind R)
    (served : UInt32 → Bool) :
    AlikeWhere (fun a => served a = false)
      (fun b c => (∀ a, b.servedBy kind a = served a) ∧ R b c) where
  word := by
    rintro b c ⟨hserved, hR⟩ a ha
    exact h.word hR a (by rw [hserved, ha])
  read := by
    rintro b c ⟨hserved, hR⟩ a -
    exact ⟨fun x => (Bus.servedBy_read h.steady b a x).trans (hserved x), h.read hR a⟩
  write := by
    rintro b c ⟨hserved, hR⟩ a w
    exact ⟨fun x => (Bus.servedBy_write h.steady b a x w).trans (hserved x), h.write hR a w⟩

namespace Machine

/-- Machines that are the same up to what a relation allows their buses. -/
structure SameUpTo (R : Bus → Bus → Prop) (m m' : Machine) : Prop where
  processor : m.processor = m'.processor
  map : m.map = m'.map
  bus : R m.bus m'.bus

/-- Nothing that the next step reads is served by some kind of device: neither the instruction nor
its immediate nor the word that it asks for. -/
def ReadsNothingOf (kind : Device → Bool) (m : Machine) : Prop :=
  ∀ t ∈ m.traffic, t.readsFrom kind m.bus = false

instance (kind : Device → Bool) (m : Machine) : Decidable (m.ReadsNothingOf kind) :=
  inferInstanceAs (Decidable (∀ t ∈ m.traffic, t.readsFrom kind m.bus = false))

/-- **A step that reads nothing of what differs** goes the same way on both machines. -/
theorem sameUpTo_step {kind : Device → Bool} {R : Bus → Bus → Prop} (hunseen : Unseen kind R)
    {m m' : Machine} (h : m.SameUpTo R m') (hreads : m.ReadsNothingOf kind) :
    m.step.2.SameUpTo R m'.step.2 := by
  have hR := hunseen.alikeWhere (m.bus.servedBy kind)
  have hok : ReadsOnly (fun a => m.bus.servedBy kind a = false) m.traffic :=
    fun a w hmem => hreads (.read a w) hmem
  obtain ⟨-, hprocessor, -, hbus⟩ :=
    Processor.cycle_alikeWhere hR ⟨fun _ => rfl, h.bus⟩ m.processor hok
  refine ⟨?_, h.map, ?_⟩
  · simp only [step, ← h.processor]
    exact hprocessor
  · simp only [step, ← h.processor]
    exact hbus

end Machine

/-! ## 4. The display and the noise -/

/-- Displays that are the same but for the one that clients paint. -/
def OtherDisplaysEqual (displays displays' : Array Display) : Prop :=
  ∀ n ≠ 0, displays[n]? = displays'[n]?

namespace Device

variable {displays displays' : Array Display}

theorem read_upToDisplay (h : OtherDisplaysEqual displays displays') (d : Device) (offset : Nat) :
    (d.read displays offset).2 = (d.read displays' offset).2 ∧
      (d.isPainted = false → (d.read displays offset).1 = (d.read displays' offset).1) := by
  cases d with
  | display number =>
    refine ⟨rfl, fun hother => ?_⟩
    simp only [read, h number (by simpa [isPainted] using hother)]
  | _ => exact ⟨rfl, fun _ => rfl⟩

theorem write_upToDisplay (h : OtherDisplaysEqual displays displays') (d : Device) (offset : Nat)
    (word : Word) :
    (d.write displays offset word).1 = (d.write displays' offset word).1 ∧
      OtherDisplaysEqual (d.write displays offset word).2 (d.write displays' offset word).2 := by
  cases d with
  | display number =>
    refine ⟨rfl, fun n hn => ?_⟩
    simp only [write, Array.getElem?_modify, h n hn]
  | _ => exact ⟨rfl, h⟩

/-- The device with a fixed noise source in the place of its own, if it has one. -/
def muted : Device → Device
  | .noise _ => .noise (Noise.counting 0 0)
  | other => other

/-- Devices that are the same up to noise are the same, or noise sources. -/
theorem eq_or_noise_of_muted {d e : Device} (h : d.muted = e.muted) :
    d = e ∨ ∃ s t, d = .noise s ∧ e = .noise t := by
  cases d <;> cases e <;> simp_all [muted]

theorem read_upToNoise {d e : Device} (h : d.muted = e.muted) (displays : Array Display)
    (offset : Nat) :
    (d.read displays offset).2.muted = (e.read displays offset).2.muted ∧
      (d.isNoise = false → (d.read displays offset).1 = (e.read displays offset).1) := by
  rcases eq_or_noise_of_muted h with rfl | ⟨s, t, rfl, rfl⟩
  · exact ⟨rfl, fun _ => rfl⟩
  · exact ⟨rfl, fun hother => absurd hother (by simp [isNoise])⟩

theorem write_upToNoise {d e : Device} (h : d.muted = e.muted) (displays : Array Display)
    (offset : Nat) (word : Word) :
    (d.write displays offset word).1.muted = (e.write displays offset word).1.muted ∧
      (d.write displays offset word).2 = (e.write displays offset word).2 := by
  rcases eq_or_noise_of_muted h with rfl | ⟨s, t, rfl, rfl⟩
  · exact ⟨rfl, rfl⟩
  · exact ⟨rfl, rfl⟩

end Device

namespace Binding

theorem readFirst_upToDisplay {displays displays' : Array Display}
    (h : OtherDisplaysEqual displays displays') (a : UInt32) (bindings : List Binding) :
    (readFirst displays a bindings).2 = (readFirst displays' a bindings).2 ∧
      (Bus.servedBy ⟨bindings, displays⟩ Device.isPainted a = false →
        (readFirst displays a bindings).1 = (readFirst displays' a bindings).1) := by
  induction bindings with
  | nil => exact ⟨rfl, fun _ => rfl⟩
  | cons b rest ih =>
    obtain ⟨hdevice, hword⟩ := Device.read_upToDisplay h b.device (b.offset a)
    rw [Bus.servedBy_cons]
    simp only [readFirst]
    split
    · exact ⟨by simp only [hdevice], hword⟩
    · exact ⟨by simp only [ih.1], ih.2⟩

theorem writeFirst_upToDisplay {displays displays' : Array Display}
    (h : OtherDisplaysEqual displays displays') (a : UInt32) (w : Word) (bindings : List Binding) :
    (writeFirst displays a w bindings).1 = (writeFirst displays' a w bindings).1 ∧
      OtherDisplaysEqual (writeFirst displays a w bindings).2
        (writeFirst displays' a w bindings).2 := by
  induction bindings with
  | nil => exact ⟨rfl, h⟩
  | cons b rest ih =>
    obtain ⟨hdevice, hothers⟩ := Device.write_upToDisplay h b.device (b.offset a) w
    simp only [writeFirst]
    split
    · exact ⟨by simp only [hdevice], hothers⟩
    · exact ⟨by simp only [ih.1], ih.2⟩

/-- The binding with a fixed noise source in the place of its own, if it has one. -/
def muted (b : Binding) : Binding := { b with device := b.device.muted }

theorem muted_eq_iff {b c : Binding} :
    b.muted = c.muted ↔ b.first = c.first ∧ b.last = c.last ∧ b.device.muted = c.device.muted := by
  simp only [muted, mk.injEq]

/-- Bindings that are the same up to noise answer the same addresses, at the same offsets. -/
theorem holds_of_muted {b c : Binding} (h : b.muted = c.muted) (a : UInt32) :
    b.holds a = c.holds a ∧ b.offset a = c.offset a := by
  obtain ⟨hfirst, hlast, -⟩ := muted_eq_iff.mp h
  simp only [holds, offset, hfirst, hlast, and_self]

theorem readFirst_upToNoise (displays : Array Display) (a : UInt32)
    {bindings bindings' : List Binding} (h : bindings.map muted = bindings'.map muted) :
    (readFirst displays a bindings).2.map muted = (readFirst displays a bindings').2.map muted ∧
      (Bus.servedBy ⟨bindings, displays⟩ Device.isNoise a = false →
        (readFirst displays a bindings).1 = (readFirst displays a bindings').1) := by
  induction bindings generalizing bindings' with
  | nil =>
    obtain rfl := List.map_eq_nil_iff.mp h.symm
    exact ⟨rfl, fun _ => rfl⟩
  | cons b rest ih =>
    obtain ⟨c, rest', rfl, hmuted, hrest⟩ := List.map_eq_cons_iff.mp h.symm
    obtain ⟨hholds, hoffset⟩ := holds_of_muted hmuted.symm a
    obtain ⟨hfirst, hlast, hkind⟩ := muted_eq_iff.mp hmuted.symm
    obtain ⟨hdevice, hword⟩ := Device.read_upToNoise hkind displays (b.offset a)
    rw [Bus.servedBy_cons]
    simp only [readFirst, ← hholds, ← hoffset]
    split
    · exact ⟨by simp only [List.map_cons, muted, hfirst, hlast, hdevice, hrest], hword⟩
    · obtain ⟨hlater, hwords⟩ := ih hrest.symm
      exact ⟨by simp only [List.map_cons, hmuted, hlater], hwords⟩

theorem writeFirst_upToNoise (displays : Array Display) (a : UInt32) (w : Word)
    {bindings bindings' : List Binding} (h : bindings.map muted = bindings'.map muted) :
    (writeFirst displays a w bindings).1.map muted =
        (writeFirst displays a w bindings').1.map muted ∧
      (writeFirst displays a w bindings).2 = (writeFirst displays a w bindings').2 := by
  induction bindings generalizing bindings' with
  | nil =>
    obtain rfl := List.map_eq_nil_iff.mp h.symm
    exact ⟨rfl, rfl⟩
  | cons b rest ih =>
    obtain ⟨c, rest', rfl, hmuted, hrest⟩ := List.map_eq_cons_iff.mp h.symm
    obtain ⟨hholds, hoffset⟩ := holds_of_muted hmuted.symm a
    obtain ⟨hfirst, hlast, hkind⟩ := muted_eq_iff.mp hmuted.symm
    obtain ⟨hdevice, hdisplays⟩ := Device.write_upToNoise hkind displays (b.offset a) w
    simp only [writeFirst, ← hholds, ← hoffset]
    split
    · exact ⟨by simp only [List.map_cons, muted, hfirst, hlast, hdevice, hrest], hdisplays⟩
    · obtain ⟨hlater, hsame⟩ := ih hrest.symm
      exact ⟨by simp only [List.map_cons, hmuted, hlater], hsame⟩

end Binding

namespace Bus

/-- Buses that are the same but for the display that clients paint: memory, noise sources and all
other displays are equal. -/
structure UpToDisplay (b c : Bus) : Prop where
  bindings : b.bindings = c.bindings
  displays : OtherDisplaysEqual b.displays c.displays

/-- Buses that are the same but for what noise sources will give: memory and displays are equal. -/
structure UpToNoise (b c : Bus) : Prop where
  bindings : b.bindings.map Binding.muted = c.bindings.map Binding.muted
  displays : b.displays = c.displays

/-- **What clients paint is seen at the display's addresses only.** -/
theorem unseen_upToDisplay : Unseen Device.isPainted UpToDisplay where
  steady := Device.steady_isPainted
  word := by
    rintro ⟨bindings, displays⟩ ⟨_, displays'⟩ ⟨rfl, hdisplays⟩ a hserved
    exact (Binding.readFirst_upToDisplay hdisplays a bindings).2 hserved
  read := by
    rintro ⟨bindings, displays⟩ ⟨_, displays'⟩ ⟨rfl, hdisplays⟩ a
    exact ⟨(Binding.readFirst_upToDisplay hdisplays a bindings).1, hdisplays⟩
  write := by
    rintro ⟨bindings, displays⟩ ⟨_, displays'⟩ ⟨rfl, hdisplays⟩ a w
    obtain ⟨hbindings, hothers⟩ := Binding.writeFirst_upToDisplay hdisplays a w bindings
    exact ⟨hbindings, hothers⟩

/-- **What noise sources will give is seen at their addresses only.** -/
theorem unseen_upToNoise : Unseen Device.isNoise UpToNoise where
  steady := Device.steady_isNoise
  word := by
    rintro ⟨bindings, displays⟩ ⟨bindings', _⟩ ⟨hbindings, rfl⟩ a hserved
    exact (Binding.readFirst_upToNoise displays a hbindings).2 hserved
  read := by
    rintro ⟨bindings, displays⟩ ⟨bindings', _⟩ ⟨hbindings, rfl⟩ a
    exact ⟨(Binding.readFirst_upToNoise displays a hbindings).1, rfl⟩
  write := by
    rintro ⟨bindings, displays⟩ ⟨bindings', _⟩ ⟨hbindings, rfl⟩ a w
    obtain ⟨hmuted, hdisplays⟩ := Binding.writeFirst_upToNoise displays a w hbindings
    exact ⟨hmuted, hdisplays⟩

end Bus

/-! ## 5. Schedules -/

namespace Machine

/-- Painting on one side keeps machines the same up to the display. -/
theorem SameUpTo.painted {m m' : Machine} (h : m.SameUpTo Bus.UpToDisplay m')
    (change : Display → Display) : m.SameUpTo Bus.UpToDisplay (m'.modifyDisplay change) where
  processor := h.processor
  map := h.map
  bus := by
    refine ⟨h.bus.bindings, fun n hn => ?_⟩
    rw [h.bus.displays n hn, modifyDisplay, Array.getElem?_modify, if_neg (Ne.symm hn)]

/-- Putting a display in its own place changes nothing. -/
theorem modifyDisplay_display (m : Machine) : m.modifyDisplay (fun _ => m.display) = m := by
  rcases m with ⟨processor, ⟨bindings, displays⟩, map⟩
  have hsame : displays.modify 0 (fun _ => displays[0]?.getD default) = displays := by
    refine Array.ext_getElem? (fun n => ?_)
    rw [Array.getElem?_modify]
    split
    · subst_vars
      cases displays[0]? <;> rfl
    · rfl
  simp only [modifyDisplay, display, hsame]

end Machine

namespace Appliance

variable {a b : Appliance}

/-- How many cycles are among some things that happen. -/
def cycles (happenings : List Happening) : Nat := happenings.countP (fun h => h = .cycle)

/-- What a message makes of the board is put in its place, unless the store fails. -/
theorem happen_message (a : Appliance) (bytes : List UInt8) :
    a.happen (.message bytes) =
      match a.board.dispatch a.site.store bytes with
      | .ok (_, next) => a.withBoard next
      | .error _ => a := by
  simp only [happen, dispatch]
  cases a.board.dispatch a.site.store bytes <;> rfl

/-- **A message changes the display of the machine at most**, and only if it is a display
command. -/
theorem machine_happen_message (a : Appliance) (bytes : List UInt8) :
    (∃ change, (a.happen (.message bytes)).machine = a.machine.modifyDisplay change) ∧
      (isDisplayCommand bytes = false → (a.happen (.message bytes)).machine = a.machine) := by
  rw [happen_message]
  have hkept := a.machine.modifyDisplay_display
  cases hdispatch : a.board.dispatch a.site.store bytes with
  | error cause => exact ⟨⟨_, hkept.symm⟩, fun _ => rfl⟩
  | ok outcome =>
    refine ⟨⟨_, rfl⟩, fun hother => ?_⟩
    rcases a.board.dispatch_display a.site.store bytes with ⟨hcommand, -⟩ | ⟨-, hsame⟩
    · exact absurd hcommand (by simp [hother])
    · have hdisplay : outcome.2.display = a.machine.display := hsame outcome.1 outcome.2 hdispatch
      simp only [withBoard, hdisplay, hkept]

/-- Messages that are no display commands are not noticed by the machine. -/
theorem machine_live_of_quiet {happenings : List Happening}
    (h : ∀ bytes, .message bytes ∈ happenings → isDisplayCommand bytes = false) :
    (a.live happenings).machine = a.machine.after (cycles happenings) := by
  induction happenings generalizing a with
  | nil => rfl
  | cons happening rest ih =>
    have hrest := ih (a := a.happen happening)
      (fun bytes hmem => h bytes (List.mem_cons_of_mem _ hmem))
    cases happening with
    | cycle =>
      have hcycles : cycles (.cycle :: rest) = cycles rest + 1 := by simp [cycles]
      rw [hcycles, Machine.after_succ]
      exact hrest
    | message bytes =>
      have hcycles : cycles (.message bytes :: rest) = cycles rest := by simp [cycles]
      rw [(a.machine_happen_message bytes).2 (h bytes List.mem_cons_self)] at hrest
      rw [hcycles]
      exact hrest

/-- A machine that reads nothing of the display goes the same way with and without messages. -/
theorem sameUpTo_live {happenings : List Happening} {m : Machine}
    (hm : m.SameUpTo Bus.UpToDisplay a.machine)
    (hreads : ∀ k < cycles happenings, (m.after k).ReadsNothingOf Device.isPainted) :
    (m.after (cycles happenings)).SameUpTo Bus.UpToDisplay (a.live happenings).machine := by
  induction happenings generalizing a m with
  | nil => exact hm
  | cons happening rest ih =>
    cases happening with
    | cycle =>
      have hcycles : cycles (.cycle :: rest) = cycles rest + 1 := by simp [cycles]
      rw [hcycles] at hreads ⊢
      rw [Machine.after_succ]
      refine ih (Machine.sameUpTo_step Bus.unseen_upToDisplay hm (hreads 0 (Nat.succ_pos _))) ?_
      intro k hk
      rw [← Machine.after_succ]
      exact hreads (k + 1) (Nat.succ_lt_succ hk)
    | message bytes =>
      have hcycles : cycles (.message bytes :: rest) = cycles rest := by simp [cycles]
      obtain ⟨change, hchange⟩ := (a.machine_happen_message bytes).1
      rw [hcycles] at hreads ⊢
      exact ih (hchange ▸ hm.painted change) hreads

/-- Boards that are the same but for what noise sources will give. -/
structure UpToNoise (a b : Appliance) : Prop where
  settings : a.settings = b.settings
  files : a.files = b.files
  machine : a.machine.SameUpTo Bus.UpToNoise b.machine

/-- **Whatever happens on two boards that differ in noise only** leaves them so, as long as the
first one reads nothing of it. -/
theorem upToNoise_happen (h : a.UpToNoise b) (happening : Happening)
    (hreads : happening = .cycle → a.machine.ReadsNothingOf Device.isNoise) :
    (a.happen happening).UpToNoise (b.happen happening) := by
  cases happening with
  | cycle =>
    exact ⟨h.settings, h.files, Machine.sameUpTo_step Bus.unseen_upToNoise h.machine (hreads rfl)⟩
  | message bytes =>
    have hboard : a.board = b.board := by
      simp only [board, Machine.display, h.machine.bus.displays, h.files]
    have hsite : a.site = b.site := by
      simp only [site, h.settings]
    rw [happen_message, happen_message, hboard, hsite]
    split
    · refine ⟨h.settings, rfl, h.machine.processor, h.machine.map, h.machine.bus.bindings, ?_⟩
      simp only [withBoard, Machine.modifyDisplay, h.machine.bus.displays]
    · exact h

theorem upToNoise_live {happenings : List Happening} (h : a.UpToNoise b)
    (hreads : ∀ past, past ++ [.cycle] <+: happenings →
      (a.live past).machine.ReadsNothingOf Device.isNoise) :
    (a.live happenings).UpToNoise (b.live happenings) := by
  induction happenings generalizing a b with
  | nil => exact h
  | cons happening rest ih =>
    refine ih (upToNoise_happen h happening ?_) ?_
    · rintro rfl
      exact hreads [] (List.cons_prefix_cons.mpr ⟨rfl, List.nil_prefix⟩)
    · intro past hpast
      exact hreads (happening :: past) (List.cons_prefix_cons.mpr ⟨rfl, hpast⟩)

/-- **A running program is reached by its reads only.**  Along every schedule of cycles and messages,
and after each part of it:

* if no message is a display command, the machine is the one that the cycles alone lead to, so
  uploads are not noticed;
* if the cycles alone would read nothing that the painted display serves, the machine is that one up
  to this display, with the same processor, memory and noise;
* a machine with other noise is the same up to noise, with the same processor, memory and displays,
  as long as the first one has read nothing that a noise source serves. -/
theorem reached_by_reads_only (a : Appliance) (happenings : List Happening) :
    ((∀ bytes, .message bytes ∈ happenings → isDisplayCommand bytes = false) →
      ∀ front, front <+: happenings →
        (a.live front).machine = a.machine.after (cycles front)) ∧
    ((∀ k < cycles happenings, (a.machine.after k).ReadsNothingOf Device.isPainted) →
      ∀ front, front <+: happenings →
        (a.machine.after (cycles front)).SameUpTo Bus.UpToDisplay (a.live front).machine) ∧
    ∀ other : Machine, a.machine.SameUpTo Bus.UpToNoise other →
      ∀ front, front <+: happenings →
        (∀ past, past ++ [.cycle] <+: front →
          (a.live past).machine.ReadsNothingOf Device.isNoise) →
        (a.live front).machine.SameUpTo Bus.UpToNoise
          ({ a with machine := other }.live front).machine := by
  refine ⟨?_, ?_, ?_⟩
  · intro hquiet front hfront
    exact machine_live_of_quiet (fun bytes hmem => hquiet bytes (hfront.mem hmem))
  · intro hreads front hfront
    have hsame : a.machine.SameUpTo Bus.UpToDisplay a.machine :=
      ⟨rfl, rfl, rfl, fun _ _ => rfl⟩
    have hle : cycles front ≤ cycles happenings := hfront.sublist.countP_le
    exact sameUpTo_live hsame (fun k hk => hreads k (Nat.lt_of_lt_of_le hk hle))
  · intro other hother front _ hreads
    have hboards : a.UpToNoise { a with machine := other } := ⟨rfl, rfl, hother⟩
    exact (upToNoise_live hboards hreads).machine

/-- Uploads are no display commands. -/
example (body : List UInt8) :
    isDisplayCommand (85 :: body) = false ∧ isDisplayCommand (117 :: body) = false :=
  ⟨rfl, rfl⟩

/-- A board starts with its processor at the beginning, whatever was loaded. -/
theorem processor_start (settings : Settings) (network : Network) (noise : Noise)
    (files : FileTree) :
    (start settings network noise files).1.machine.processor = Processor.initial := by
  have hloaded : (Boot.loadRam (Boot.machine settings noise) files settings.defaultProgram
      ⟨settings.programStore⟩).machine.processor = Processor.initial := by
    rcases Boot.machine_loadRam (Boot.machine settings noise) files settings.defaultProgram
      ⟨settings.programStore⟩ with hsame | ⟨program, hprogram⟩
    · rw [hsame]
      rfl
    · rw [hprogram]
      rfl
  exact hloaded

/-- A program that paints a LED and halts, while clients paint and upload.  Neither they nor another
seed of the noise change what it does, and both displays are lit alike. -/
theorem reached_by_reads_only_of_painter :
    let settings : Settings := ⟨.v4 [0, 0, 0, 0] 80, ⟨16, 64, 128, 2⟩, "ram.bin", none,
      "index.html", 1, 1, 1, none, "info"⟩
    let files := FileTree.empty.put "ram.bin" [2, 0, 7, 8, 9, 2, 0, 0, 0, 68, 8, 0]
    let a := (start settings .up (Noise.counting 0 1) files).1
    let other := (start settings .up (Noise.counting 5 3) files).1.machine
    let uploads : List Happening := [.cycle, .message [117], .cycle, .message [85, 4], .cycle]
    let paints : List Happening :=
      [.message [77, 5, 6], .cycle, .cycle, .message [84, 1, 2, 3], .cycle, .cycle]
    (a.live uploads).machine = a.machine.after 3 ∧
      (a.machine.after 4).SameUpTo Bus.UpToDisplay (a.live paints).machine ∧
      (a.live paints).machine.SameUpTo Bus.UpToNoise
        ({ a with machine := other }.live paints).machine := by
  intro settings files a other uploads paints
  have hquiet : ∀ bytes, .message bytes ∈ uploads → isDisplayCommand bytes = false := by
    simp [uploads, isDisplayCommand]
  have hpainted : ∀ k < cycles paints, (a.machine.after k).ReadsNothingOf Device.isPainted := by
    decide +kernel
  have hnoise : ∀ n < 6, (a.live (paints.take n)).machine.ReadsNothingOf Device.isNoise := by
    decide +kernel
  have hother : a.machine.SameUpTo Bus.UpToNoise other :=
    ⟨(processor_start settings .up _ files).trans (processor_start settings .up _ files).symm,
      by decide +kernel, by decide +kernel, by decide +kernel⟩
  refine ⟨(reached_by_reads_only a uploads).1 hquiet uploads List.prefix_rfl,
    (reached_by_reads_only a paints).2.1 hpainted paints List.prefix_rfl,
    (reached_by_reads_only a paints).2.2 other hother paints List.prefix_rfl ?_⟩
  intro past hpast
  have hlength : past.length < 6 := by
    have := hpast.length_le
    rw [List.length_append, List.length_singleton] at this
    exact this
  have htake : past = paints.take past.length :=
    List.prefix_iff_eq_take.mp ((List.prefix_append past _).trans hpast)
  rw [htake]
  exact hnoise _ hlength

end Appliance

end Ledboard
