/-
# Who serves an access

Devices are connected to a bus one after another, each with a range of addresses.  Ranges may
overlap, lie inside each other or be empty, and the word at the last address of a range reaches past
its end.  All the same an access is the matter of one device: the first whose range holds the
address serves it, and nothing else on the bus changes (`first_match_serves`).

* **One access** (`access_of_serving`, `access_of_unserved`).  The bus asks the bindings in their
  order, so whatever is connected behind the one that serves has no part in it.
* **What changes** (`ServedBy`).  A RAM changes where a word is written to it, a display at the LED
  whose word it is, and a noise source by being read.  The other bindings keep their devices.
* **Any number of accesses** (`wiring_accessAll`).  No access changes a range or the kind of a
  device, so who serves an address is settled by the connections alone.
-/
import Ledboard.Proofs.LedWords
import Ledboard.Proofs.RamContents

namespace Ledboard

/-! ## 1. Accesses -/

/-- What is asked of a bus. -/
inductive Access where
  | read (address : UInt32)
  | write (address : UInt32) (word : Word)
  deriving DecidableEq, Repr

namespace Access

def address : Access → UInt32
  | .read address => address
  | .write address _ => address

def isWrite : Access → Bool
  | .read _ => false
  | .write _ _ => true

/-- The answer to an access that no device serves: a read gives zeros. -/
def blank : Access → Option Word
  | .read _ => some Word.zero
  | .write _ _ => none

end Access

namespace Device

/-- How a device serves an access at an offset: its answer, and it and the displays afterwards. -/
def serve (device : Device) (displays : Array Display) (offset : Nat) :
    Access → Option Word × Device × Array Display
  | .read _ =>
    (some (device.read displays offset).1, (device.read displays offset).2, displays)
  | .write _ word => (none, device.write displays offset word)

/-- The noise source in a device, if it is one. -/
def noise? : Device → Option Noise
  | .noise source => some source
  | _ => none

/-- A device as it was when it was new: a RAM of its size, the same display, the start of the same
noise. -/
def renewed : Device → Device
  | .ram memory => .ram (Ram.ofSize memory.size)
  | .display number => .display number
  | .noise source => .noise { source with taken := 0 }

end Device

namespace Binding

/-- Whether an address lies in the range of a binding, its ends included. -/
def Covers (b : Binding) (address : UInt32) : Prop := b.first ≤ address ∧ address ≤ b.last

instance (b : Binding) (address : UInt32) : Decidable (b.Covers address) :=
  inferInstanceAs (Decidable (_ ∧ _))

/-- What no access changes about a binding: its range, and its device but for its contents. -/
def wiring (b : Binding) : Binding := { b with device := b.device.renewed }

variable {b : Binding} {address : UInt32}

theorem holds_iff : b.holds address = true ↔ b.Covers address := holds_eq_true_iff

theorem holds_eq_false_iff : b.holds address = false ↔ ¬ b.Covers address := by
  rw [← holds_iff, Bool.not_eq_true]

theorem offset_of_covers (h : b.Covers address) :
    b.offset address = address.toNat - b.first.toNat := UInt32.toNat_sub_of_le _ _ h.1

theorem covers_of_wiring {c : Binding} (h : b.wiring = c.wiring) :
    b.Covers address ↔ c.Covers address := by
  obtain ⟨hfirst, hlast, -⟩ := Binding.mk.inj h
  rw [Covers, Covers, hfirst, hlast]

end Binding

/-! ## 2. What an access changes of a device -/

namespace Device

variable {device : Device} {displays : Array Display} {offset : Nat} {t : Access}

theorem renewed_serve : (device.serve displays offset t).2.1.renewed = device.renewed := by
  cases t <;> cases device <;> rfl

/-- Of a RAM an access changes the four bytes at its offset at most, and only by writing. -/
theorem byteAt_serve {place : Nat}
    (h : ((device.serve displays offset t).2.1.ram?).map (·.byteAt place) ≠
      device.ram?.map (·.byteAt place)) :
    t.isWrite = true ∧ offset ≤ place ∧ place < offset + 4 := by
  cases t with
  | read address => cases device <;> exact absurd rfl h
  | write address word =>
    cases device with
    | ram memory =>
      refine ⟨rfl, Decidable.byContradiction fun houtside => h (congrArg some ?_)⟩
      change (memory.write offset word).byteAt place = memory.byteAt place
      rw [Ram.write, Ram.byteAt_load, Word.length_toList]
      exact if_neg (fun hcover => houtside ⟨hcover.1, hcover.2.1⟩)
    | display number => exact absurd rfl h
    | noise source => exact absurd rfl h

/-- A noise source changes only by being read. -/
theorem noise?_serve (h : (device.serve displays offset t).2.1.noise? ≠ device.noise?) :
    t.isWrite = false := by
  cases t with
  | read address => rfl
  | write address word => cases device <;> exact absurd rfl h

/-- A display changes only by being written to through a binding that shows it. -/
theorem displays_serve {number : Nat}
    (h : (device.serve displays offset t).2.2[number]? ≠ displays[number]?) :
    device = .display number ∧ t.isWrite = true := by
  cases t with
  | read address => exact absurd rfl h
  | write address word =>
    cases device with
    | display shown =>
      refine ⟨Decidable.byContradiction fun hother => h ?_, rfl⟩
      change (displays.modify shown _)[number]? = _
      rw [Array.getElem?_modify, if_neg (fun hsame => hother (congrArg Device.display hsame))]
    | ram memory => exact absurd rfl h
    | noise source => exact absurd rfl h

end Device

/-- Of a display a written word changes one LED at most, the one that the word belongs to. -/
theorem Display.get?_write {d : Display} {offset led : Nat} {word : Word}
    (h : (d.write offset word).get? led ≠ d.get? led) :
    4 * (led + 1) ≤ offset ∧ offset < 4 * (led + 2) := by
  rw [← ledAt?_eq_some_iff]
  rw [write_eq] at h
  cases hled : ledAt? offset with
  | none =>
    rw [hled] at h
    exact absurd rfl h
  | some other =>
    simp only [hled] at h
    split at h
    · rename_i hexists
      rw [get?_lit hexists] at h
      refine Decidable.byContradiction fun hother => h (if_neg fun hsame => hother ?_)
      rw [hsame]
    · exact absurd rfl h

/-- So of the LEDs of all displays an access changes one at most. -/
theorem Device.leds_serve {device : Device} {displays : Array Display} {offset number led : Nat}
    {t : Access} (h : (device.serve displays offset t).2.2[number]?.bind (·.get? led) ≠
      displays[number]?.bind (·.get? led)) :
    4 * (led + 1) ≤ offset ∧ offset < 4 * (led + 2) := by
  obtain ⟨hshown, hwrite⟩ := displays_serve fun hsame => h (by rw [hsame])
  subst hshown
  cases t with
  | read address => exact absurd hwrite Bool.false_ne_true
  | write address word =>
    have hmodify : (serve (.display number) displays offset (.write address word)).2.2[number]? =
        displays[number]?.map (·.write offset word) :=
      Array.getElem?_modify.trans (if_pos rfl)
    rw [hmodify] at h
    cases hd : displays[number]? with
    | none =>
      rw [hd] at h
      exact absurd rfl h
    | some d =>
      rw [hd] at h
      exact Display.get?_write h

/-! ## 3. Buses -/

namespace Bus

/-- Connects devices, one behind another. -/
def connectAll (bus : Bus) (connections : List Binding) : Bus :=
  connections.foldl (fun bus b => bus.connect b.device b.first b.last) bus

/-- Carries out an access: the word that was read, if any, and the bus afterwards. -/
def access (bus : Bus) : Access → Option Word × Bus
  | .read address => (some (bus.read address).1, (bus.read address).2)
  | .write address word => (none, bus.write address word)

/-- Carries out accesses, one after another. -/
def accessAll (bus : Bus) : List Access → List (Option Word) × Bus
  | [] => ([], bus)
  | t :: rest =>
    ((bus.access t).1 :: ((bus.access t).2.accessAll rest).1, ((bus.access t).2.accessAll rest).2)

/-- The device with a number, in the order of connection. -/
def device? (bus : Bus) (i : Nat) : Option Device := bus.bindings[i]?.map Binding.device

/-- A byte of the RAM with a number. -/
def ramByte? (bus : Bus) (i place : Nat) : Option UInt8 :=
  ((bus.device? i).bind Device.ram?).map (·.byteAt place)

/-- The noise source with a number. -/
def noise? (bus : Bus) (i : Nat) : Option Noise := (bus.device? i).bind Device.noise?

/-- The colour of a LED of one of the displays. -/
def led? (bus : Bus) (number led : Nat) : Option Rgb := bus.displays[number]?.bind (·.get? led)

variable {bus : Bus} {b : Binding} {front rest connections more : List Binding} {t : Access}

theorem connectAll_eq (bus : Bus) (connections : List Binding) :
    bus.connectAll connections = { bus with bindings := bus.bindings ++ connections } := by
  induction connections generalizing bus with
  | nil => rw [List.append_nil]; rfl
  | cons b rest ih =>
    refine (ih (bus.connect b.device b.first b.last)).trans ?_
    rw [connect, List.append_assoc]
    rfl

/-! ## 4. One access -/

theorem readFirst_append (displays : Array Display) (address : UInt32)
    (hfront : ∀ c ∈ front, ¬ c.Covers address) (bindings : List Binding) :
    Binding.readFirst displays address (front ++ bindings) =
      ((Binding.readFirst displays address bindings).1,
        front ++ (Binding.readFirst displays address bindings).2) := by
  induction front with
  | nil => rfl
  | cons c front ih =>
    obtain ⟨hc, hlater⟩ := List.forall_mem_cons.mp hfront
    rw [← Binding.holds_iff] at hc
    rw [List.cons_append, Binding.readFirst, if_neg hc, ih hlater]
    rfl

theorem writeFirst_append (displays : Array Display) (address : UInt32) (word : Word)
    (hfront : ∀ c ∈ front, ¬ c.Covers address) (bindings : List Binding) :
    Binding.writeFirst displays address word (front ++ bindings) =
      (front ++ (Binding.writeFirst displays address word bindings).1,
        (Binding.writeFirst displays address word bindings).2) := by
  induction front with
  | nil => rfl
  | cons c front ih =>
    obtain ⟨hc, hlater⟩ := List.forall_mem_cons.mp hfront
    rw [← Binding.holds_iff] at hc
    rw [List.cons_append, Binding.writeFirst, if_neg hc, ih hlater]
    rfl

/-- **The first binding whose range holds the address serves the access.**  The bindings in front of
it and those behind it stay as they are. -/
theorem access_of_serving (hbus : bus.bindings = front ++ b :: rest)
    (hfront : ∀ c ∈ front, ¬ c.Covers t.address) (hb : b.Covers t.address) :
    let served := b.device.serve bus.displays (t.address.toNat - b.first.toNat) t
    bus.access t =
      (served.1, ⟨front ++ { b with device := served.2.1 } :: rest, served.2.2⟩) := by
  obtain ⟨bindings, displays⟩ := bus
  dsimp only at hbus
  subst hbus
  rw [← Binding.offset_of_covers hb]
  cases t with
  | read address =>
    have hholds : b.holds address = true := Binding.holds_iff.mpr hb
    have hread := readFirst_append displays address hfront (b :: rest)
    rw [Binding.readFirst, if_pos hholds] at hread
    simp only [access, read, hread]
    rfl
  | write address word =>
    have hholds : b.holds address = true := Binding.holds_iff.mpr hb
    have hwrite := writeFirst_append displays address word hfront (b :: rest)
    rw [Binding.writeFirst, if_pos hholds] at hwrite
    simp only [access, write, hwrite]
    rfl

/-- **Where no range holds the address**, a read gives zeros and nothing changes. -/
theorem access_of_unserved (h : ∀ b ∈ bus.bindings, ¬ b.Covers t.address) :
    bus.access t = (t.blank, bus) := by
  obtain ⟨bindings, displays⟩ := bus
  dsimp only at h
  cases t with
  | read address =>
    have hread := readFirst_append displays address h []
    rw [List.append_nil] at hread
    simp only [access, read, hread, Binding.readFirst, List.append_nil]
    rfl
  | write address word =>
    have hwrite := writeFirst_append displays address word h []
    rw [List.append_nil] at hwrite
    simp only [access, write, hwrite, Binding.writeFirst, List.append_nil]
    rfl

/-- An address that lies in some range has a first binding that holds it. -/
theorem exists_first {address : UInt32} (h : ∃ b ∈ connections, b.Covers address) :
    ∃ front b rest, connections = front ++ b :: rest ∧ (∀ c ∈ front, ¬ c.Covers address) ∧
      b.Covers address := by
  cases hfind : connections.find? (·.holds address) with
  | none =>
    obtain ⟨b, hmem, hb⟩ := h
    exact absurd (Binding.holds_iff.mpr hb) (List.find?_eq_none.mp hfind b hmem)
  | some b =>
    obtain ⟨hb, front, rest, hsplit, hfront⟩ := List.find?_eq_some_iff_append.mp hfind
    refine ⟨front, b, rest, hsplit, fun c hc => ?_, Binding.holds_iff.mp hb⟩
    exact Binding.holds_eq_false_iff.mp (by simpa using hfront c hc)

/-- The binding number `i` alone serves an access, at an offset: its device gives the answer, and of
all that is on the bus nothing else changes. -/
structure ServedBy (bus : Bus) (t : Access) (i offset : Nat) : Prop where
  served : ∃ b, bus.bindings[i]? = some b ∧
    let served := b.device.serve bus.displays offset t
    bus.access t =
      (served.1, ⟨bus.bindings.set i { b with device := served.2.1 }, served.2.2⟩)
  /-- a RAM changes at the four bytes of a word that is written to it -/
  ramBytes : ∀ j place, (bus.access t).2.ramByte? j place ≠ bus.ramByte? j place →
    j = i ∧ t.isWrite = true ∧ offset ≤ place ∧ place < offset + 4
  /-- a noise source changes by being read -/
  noise : ∀ j, (bus.access t).2.noise? j ≠ bus.noise? j → j = i ∧ t.isWrite = false
  /-- a display, its frame or its flushes, changes by being written to -/
  displays : ∀ number, (bus.access t).2.displays[number]? ≠ bus.displays[number]? →
    bus.device? i = some (.display number) ∧ t.isWrite = true
  /-- and then at the LED to whose word the offset belongs -/
  leds : ∀ number led, (bus.access t).2.led? number led ≠ bus.led? number led →
    bus.device? i = some (.display number) ∧ t.isWrite = true ∧
      4 * (led + 1) ≤ offset ∧ offset < 4 * (led + 2)

/-- Only the device of the binding that serves can differ. -/
theorem device?_set {i : Nat} {displays : Array Display} {device : Device}
    (hb : bus.bindings[i]? = some b) (j : Nat) :
    device? ⟨bus.bindings.set i { b with device := device }, displays⟩ j =
      if j = i then some device else bus.device? j := by
  have hi : i < bus.bindings.length := (List.getElem?_eq_some_iff.mp hb).1
  rw [device?, List.getElem?_set]
  by_cases hj : i = j
  · rw [if_pos hj, if_pos hi, if_pos hj.symm]
    rfl
  · rw [if_neg hj, if_neg (Ne.symm hj)]
    rfl

theorem servedBy_of_serving (hbus : bus.bindings = front ++ b :: rest)
    (hfront : ∀ c ∈ front, ¬ c.Covers t.address) (hb : b.Covers t.address) :
    bus.ServedBy t front.length (t.address.toNat - b.first.toNat) := by
  have hserving : bus.bindings[front.length]? = some b := by
    rw [hbus, List.getElem?_append_right (Nat.le_refl _), Nat.sub_self]
    rfl
  have hdevice : bus.device? front.length = some b.device :=
    congrArg (·.map Binding.device) hserving
  have hset : ∀ c, bus.bindings.set front.length c = front ++ c :: rest := by
    intro c
    rw [hbus, List.set_append_right _ _ (Nat.le_refl _), Nat.sub_self]
    rfl
  have haccess := access_of_serving hbus hfront hb
  generalize t.address.toNat - b.first.toNat = offset at haccess ⊢
  simp only [← hset] at haccess
  have hdevices := fun j => congrArg (fun outcome => outcome.2.device? j) haccess
  have hdisplays := congrArg (fun outcome => outcome.2.displays) haccess
  simp only [device?_set hserving] at hdevices hdisplays
  constructor
  case served => exact ⟨b, hserving, haccess⟩
  case ramBytes =>
    intro j place hchanged
    rw [ramByte?, ramByte?, hdevices] at hchanged
    by_cases hj : j = front.length
    · rw [if_pos hj, hj, hdevice] at hchanged
      exact ⟨hj, Device.byteAt_serve hchanged⟩
    · rw [if_neg hj] at hchanged
      exact absurd rfl hchanged
  case noise =>
    intro j hchanged
    rw [noise?, noise?, hdevices] at hchanged
    by_cases hj : j = front.length
    · rw [if_pos hj, hj, hdevice] at hchanged
      exact ⟨hj, Device.noise?_serve hchanged⟩
    · rw [if_neg hj] at hchanged
      exact absurd rfl hchanged
  case displays =>
    intro number hchanged
    rw [hdisplays] at hchanged
    obtain ⟨hshown, hwrite⟩ := Device.displays_serve hchanged
    exact ⟨hshown ▸ hdevice, hwrite⟩
  case leds =>
    intro number led hchanged
    rw [led?, led?, hdisplays] at hchanged
    obtain ⟨hshown, hwrite⟩ := Device.displays_serve fun hsame => hchanged (by rw [hsame])
    exact ⟨hshown ▸ hdevice, hwrite, Device.leds_serve hchanged⟩

/-! ## 5. Any number of accesses -/

/-- An access leaves the wiring as it is. -/
theorem wiring_access (bus : Bus) (t : Access) :
    (bus.access t).2.bindings.map Binding.wiring = bus.bindings.map Binding.wiring := by
  by_cases h : ∃ b ∈ bus.bindings, b.Covers t.address
  · obtain ⟨front, b, rest, hbus, hfront, hb⟩ := exists_first h
    rw [access_of_serving hbus hfront hb, hbus, List.map_append, List.map_append, List.map_cons,
      List.map_cons]
    have hsame : Binding.wiring { b with device := (b.device.serve bus.displays
        (t.address.toNat - b.first.toNat) t).2.1 } = b.wiring :=
      congrArg (Binding.mk b.first b.last) Device.renewed_serve
    rw [hsame]
  · rw [access_of_unserved (fun b hb hcovers => h ⟨b, hb, hcovers⟩)]

/-- **So does any number of accesses.** -/
theorem wiring_accessAll (bus : Bus) (ts : List Access) :
    (bus.accessAll ts).2.bindings.map Binding.wiring = bus.bindings.map Binding.wiring := by
  induction ts generalizing bus with
  | nil => rfl
  | cons t rest ih => exact (ih (bus.access t).2).trans (wiring_access bus t)

/-- Who serves an address is settled by the wiring. -/
theorem exists_covers_of_wiring {address : UInt32} {bindings : List Binding}
    (h : bindings.map Binding.wiring = connections.map Binding.wiring)
    (hmapped : ∃ b ∈ connections, b.Covers address) : ∃ b ∈ bindings, b.Covers address := by
  obtain ⟨b, hb, hcovers⟩ := hmapped
  have hmem : b.wiring ∈ bindings.map Binding.wiring := h ▸ List.mem_map_of_mem hb
  obtain ⟨c, hc, hsame⟩ := List.mem_map.mp hmem
  exact ⟨c, hc, (Binding.covers_of_wiring hsame).mpr hcovers⟩

/-- What is connected behind all others takes no part in an access to an address that has a
binding. -/
theorem access_connectAll (hmapped : ∃ b ∈ bus.bindings, b.Covers t.address)
    (more : List Binding) :
    (bus.connectAll more).access t = ((bus.access t).1, (bus.access t).2.connectAll more) := by
  obtain ⟨front, b, rest, hbus, hfront, hb⟩ := exists_first hmapped
  have hmore : (bus.connectAll more).bindings = front ++ b :: (rest ++ more) := by
    rw [connectAll_eq, hbus, List.append_assoc, List.cons_append]
  have hdisplays : (bus.connectAll more).displays = bus.displays := by rw [connectAll_eq]
  rw [access_of_serving hmore hfront hb, hdisplays, access_of_serving hbus hfront hb, connectAll_eq,
    List.append_assoc, List.cons_append]

/-- **Nor does it in any number of such accesses.** -/
theorem accessAll_connectAll {ts : List Access}
    (hmapped : ∀ t ∈ ts, ∃ b ∈ bus.bindings, b.Covers t.address) (more : List Binding) :
    (bus.connectAll more).accessAll ts =
      ((bus.accessAll ts).1, (bus.accessAll ts).2.connectAll more) := by
  induction ts generalizing bus with
  | nil => rfl
  | cons t rest ih =>
    obtain ⟨hfirst, hlater⟩ := List.forall_mem_cons.mp hmapped
    have hkept : ∀ t' ∈ rest, ∃ b ∈ (bus.access t).2.bindings, b.Covers t'.address :=
      fun t' ht' => exists_covers_of_wiring (wiring_access bus t) (hlater t' ht')
    rw [accessAll, access_connectAll hfirst, ih hkept, accessAll]

/-- **The first of the connections whose range holds the address serves it**, whatever their devices
hold by now. -/
theorem servedBy_of_wiring (h : bus.bindings.map Binding.wiring = connections.map Binding.wiring)
    {i : Nat} (hi : connections[i]? = some b) (hcovers : b.Covers t.address)
    (hearlier : ∀ j < i, ∀ c, connections[j]? = some c → ¬ c.Covers t.address) :
    bus.ServedBy t i (t.address.toNat - b.first.toNat) := by
  have hlook : ∀ j : Nat,
      bus.bindings[j]?.map Binding.wiring = connections[j]?.map Binding.wiring := by
    intro j
    rw [← List.getElem?_map, h, List.getElem?_map]
  obtain ⟨b', hi', hsame⟩ := Option.map_eq_some_iff.mp ((hlook i).trans (congrArg _ hi))
  obtain ⟨hlength, hb'⟩ := List.getElem?_eq_some_iff.mp hi'
  have hsplit : bus.bindings = bus.bindings.take i ++ b' :: bus.bindings.drop (i + 1) := by
    rw [← hb', ← List.drop_eq_getElem_cons hlength, List.take_append_drop]
  have hfront : ∀ c ∈ bus.bindings.take i, ¬ c.Covers t.address := by
    intro c hc hcovers'
    obtain ⟨j, hj⟩ := List.mem_iff_getElem?.mp hc
    rw [List.getElem?_take, Option.ite_none_right_eq_some] at hj
    obtain ⟨c', hc', hsame'⟩ :=
      Option.map_eq_some_iff.mp ((hlook j).symm.trans (congrArg _ hj.2))
    exact hearlier j hj.1 c' hc' ((Binding.covers_of_wiring hsame').mpr hcovers')
  have hserved := servedBy_of_serving hsplit hfront ((Binding.covers_of_wiring hsame).mpr hcovers)
  have hplace : (bus.bindings.take i).length = i := List.length_take_of_le (by omega)
  have hfirst : b'.first = b.first := (Binding.mk.inj hsame).1
  rw [hplace, hfirst] at hserved
  exact hserved

/-- **An access is the matter of the first binding whose range holds the address.**  However devices
were connected and whatever accesses there were since then:

* the ranges and the kinds of the devices are those of the connections, in their order;
* an access to an address in no range gives zeros, if it is a read, and changes nothing;
* every other one is served, at the distance from the start of the range, by the binding that was
  connected first among those whose range holds the address, and by it alone;
* connecting more devices changes neither what accesses to addresses in these ranges give nor what
  they do. -/
theorem first_match_serves (displays : Array Display) (connections more : List Binding)
    (past later : List Access) (t : Access) :
    let bus := (((Bus.empty displays).connectAll connections).accessAll past).2
    bus.bindings.map Binding.wiring = connections.map Binding.wiring ∧
      ((∀ b ∈ connections, ¬ b.Covers t.address) → bus.access t = (t.blank, bus)) ∧
      (∀ i b, connections[i]? = some b → b.Covers t.address →
        (∀ j < i, ∀ c, connections[j]? = some c → ¬ c.Covers t.address) →
        bus.ServedBy t i (t.address.toNat - b.first.toNat)) ∧
      ((∀ t' ∈ later, ∃ b ∈ connections, b.Covers t'.address) →
        (bus.connectAll more).accessAll later =
          ((bus.accessAll later).1, (bus.accessAll later).2.connectAll more)) := by
  intro bus
  have hwiring : bus.bindings.map Binding.wiring = connections.map Binding.wiring := by
    refine (wiring_accessAll _ past).trans ?_
    rw [connectAll_eq]
    rfl
  refine ⟨hwiring, ?_, ?_, ?_⟩
  · intro hnone
    refine access_of_unserved fun b hb hcovers => ?_
    obtain ⟨c, hc, hcovers'⟩ := exists_covers_of_wiring hwiring.symm ⟨b, hb, hcovers⟩
    exact hnone c hc hcovers'
  · intro i b hi hcovers hearlier
    exact servedBy_of_wiring hwiring hi hcovers hearlier
  · intro hmapped
    exact accessAll_connectAll (fun t' ht' => exists_covers_of_wiring hwiring (hmapped t' ht')) more

/-- A RAM of eight bytes in front of a display window that starts inside of its range, an empty range
and a range of noise.  The word at the last address of the RAM reaches into the window, and the RAM
alone serves it; nobody serves address 60. -/
theorem first_match_serves_of_overlap :
    let connections : List Binding :=
      [⟨0, 7, .ram (Ram.ofSize 8)⟩, ⟨4, 19, .display 0⟩, ⟨50, 40, .ram (Ram.ofSize 8)⟩,
        ⟨12, 55, .noise (Noise.counting 1 1)⟩]
    let bus := (((Bus.empty #[Display.dark 3]).connectAll connections).accessAll
      [.read 20, .write 8 ⟨0, 1, 2, 3⟩]).2
    let t : Access := .write 7 ⟨9, 9, 9, 9⟩
    (connections[0]? = some ⟨0, 7, .ram (Ram.ofSize 8)⟩ ∧ bus.ServedBy t 0 7) ∧
      (bus.access t).2.led? 0 0 = some ⟨1, 2, 3⟩ ∧
      bus.access (.read 60) = (some Word.zero, bus) ∧
      (bus.connectAll [⟨0, 99, .display 0⟩]).accessAll [t, .read 45] =
        ((bus.accessAll [t, .read 45]).1,
          (bus.accessAll [t, .read 45]).2.connectAll [⟨0, 99, .display 0⟩]) := by
  intro connections bus t
  have hstate := first_match_serves #[Display.dark 3] connections [⟨0, 99, .display 0⟩]
    [.read 20, .write 8 ⟨0, 1, 2, 3⟩] [t, .read 45]
  have hserved : bus.ServedBy t 0 7 := (hstate t).2.2.1 0 ⟨0, 7, .ram (Ram.ofSize 8)⟩ rfl
    (by decide) (fun j hj => absurd hj (Nat.not_lt_zero j))
  have hlit : bus.led? 0 0 = some ⟨1, 2, 3⟩ := by decide +kernel
  have hkept : (bus.access t).2.led? 0 0 = bus.led? 0 0 := by
    refine Decidable.byContradiction fun hchanged => ?_
    exact absurd (hserved.leds 0 0 hchanged).1 (by decide +kernel)
  refine ⟨⟨rfl, hserved⟩, hkept.trans hlit, (hstate (.read 60)).2.1 (by decide),
    (hstate t).2.2.2 (by decide)⟩

end Bus

end Ledboard
