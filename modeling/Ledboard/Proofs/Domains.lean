/-
# No operation leaves its domain

The settings of a board are checked once, when it starts.  From then on the processor runs any
program and clients send any messages, and nothing checks anything any more.  Still all of this work
can be carried out carefully, from the start on and for ever: no operation is ever applied outside
of its domain (`no_operation_leaves_its_domain`).  The one limit is the counter of the cycles, which
has 64 bits.

* **Settings** (`Settings.Accepted`).  What the checks at the start establish: no period is zero,
  and the windows are where the numbers say, without wrapping (`AddressMap.Unwrapped`).
* **Work** (`Appliance.perform`).  A cycle, a batch of cycles with the period of the settings, or a
  message.
* **The invariant** (`Appliance.Steady`).  The settings are the same ones, the stack pointer stands
  in front of a whole word, the counter has counted all cycles, and the bus is wired.  Whatever is
  done keeps this and can be done carefully (`steady_perform`).
-/
import Ledboard.Proofs.Careful

namespace Ledboard

/-! ## 1. Settings and windows -/

/-- The windows of a map are where its numbers say, each with its start in front of its end: RAM
ends at its size, if it has one, the display window behind its last LED, and the noise window behind
its word, if there are so many addresses. -/
structure AddressMap.Unwrapped (map : AddressMap) : Prop where
  ram : map.ramRange.1 = 0 ∧ map.ramRange.2.toNat = map.ramSize - 1
  video : map.videoRange.1 = map.videoBase ∧
    map.videoRange.2.toNat + 1 = map.videoBase.toNat + 4 * (map.ledCount + 1)
  noise : map.noiseRange.1 = map.noiseBase ∧
    map.noiseRange.2.toNat = min (map.noiseBase.toNat + 3) topAddress.toNat
  ordered : map.ramRange.1 ≤ map.ramRange.2 ∧ map.videoRange.1 ≤ map.videoRange.2 ∧
    map.noiseRange.1 ≤ map.noiseRange.2

/-- The end of the noise window. -/
theorem AddressMap.toNat_noiseRange (map : AddressMap) :
    map.noiseRange.2.toNat = min (map.noiseBase.toNat + 3) topAddress.toNat := by
  have htop : topAddress.toNat = 4294967295 := rfl
  have hthree : (3 : UInt32).toNat = 3 := rfl
  have hbase := map.noiseBase.toNat_lt
  simp only [noiseRange, addAddress?, hthree, UInt32.size]
  split
  · rw [Option.getD_some, UInt32.toNat_add, hthree, htop]
    omega
  · rw [Option.getD_none, htop]
    omega

/-- **The windows are computed without wrapping**, if RAM has a size of 32 bits and the display
window fits the address space. -/
theorem AddressMap.unwrapped_of_videoEnd? {map : AddressMap} {last : UInt32}
    (hram : map.ramSize < UInt32.size) (hvideo : map.videoEnd? = some last) : map.Unwrapped := by
  have hend := toNat_videoEnd hvideo
  have hlast : map.videoRange.2 = last := by
    change map.videoEnd?.getD topAddress = last
    rw [hvideo, Option.getD_some]
  have hnoise := toNat_noiseRange map
  have hbase := map.noiseBase.toNat_lt
  have htop : topAddress.toNat = 4294967295 := rfl
  constructor
  case ram => exact ⟨rfl, toNat_ramRange hram⟩
  case video => exact ⟨rfl, by rw [hlast]; exact hend⟩
  case noise => exact ⟨rfl, hnoise⟩
  case ordered =>
    refine ⟨UInt32.zero_le, ?_, ?_⟩
    · rw [hlast, UInt32.le_iff_toNat_le]
      change map.videoBase.toNat ≤ last.toNat
      omega
    · rw [UInt32.le_iff_toNat_le, hnoise]
      change map.noiseBase.toNat ≤ _
      omega

/-- What is known of settings that were accepted. -/
structure Settings.Accepted (a : Arguments) (s : Settings) : Prop where
  map : s.map = a.map
  leds : 0 < s.map.ledCount
  pingInterval : s.pingInterval ≠ 0
  buttonPoll : s.buttonPoll ≠ 0
  stepsPerYield : s.stepsPerYield ≠ 0
  debugEvery : s.debugEvery ≠ some 0
  video : ∃ last, s.map.videoEnd? = some last

theorem Settings.accepted_of_ok {a : Arguments} {s : Settings} (h : ofArguments a = .ok s) :
    s.Accepted a := by
  unfold ofArguments at h
  split at h
  · exact absurd h (by simp)
  rename_i hleds
  split at h
  · exact absurd h (by simp)
  rename_i hsteps
  split at h
  · exact absurd h (by simp)
  rename_i hping
  split at h
  · exact absurd h (by simp)
  rename_i hpoll
  split at h
  · exact absurd h (by simp)
  rename_i hdebug
  split at h
  · exact absurd h (by simp)
  split at h
  · exact absurd h (by simp)
  rename_i hvideo
  obtain rfl := Except.ok.inj h
  exact ⟨rfl, Nat.pos_of_ne_zero hleds, hping, hpoll, hsteps, hdebug,
    Option.ne_none_iff_exists'.mp (by simpa using hvideo)⟩

/-! ## 2. Work -/

/-- What there is to do for a board. -/
inductive Work where
  /-- a cycle of the processor -/
  | cycle
  /-- a batch of cycles, with snapshots on the period of the settings -/
  | batch (steps : Nat)
  /-- a message of a client -/
  | message (bytes : List UInt8)
  deriving DecidableEq, Repr

/-- How many cycles the processor may run for some work. -/
def Work.steps : Work → Nat
  | .cycle => 1
  | .batch steps => max steps 1
  | .message _ => 0

/-- Cycles keep the map of a machine. -/
theorem Machine.map_after (m : Machine) (n : Nat) : (m.after n).map = m.map := by
  induction n with
  | zero => rfl
  | succ n ih => exact ih

namespace Appliance

/-- The board after some work.  Where the store fails, a message changes nothing. -/
def perform (a : Appliance) : Work → Appliance
  | .cycle => a.happen .cycle
  | .batch steps =>
    { a with machine := (a.machine.runBatch steps a.settings.debugEvery).2 }
  | .message bytes => a.happen (.message bytes)

/-- The same, carefully. -/
def perform? (a : Appliance) : Work → Option Appliance
  | .cycle => a.machine.step?.map (fun (_, machine) => { a with machine := machine })
  | .batch steps =>
    (a.machine.runBatch? steps a.settings.debugEvery).map
      (fun (_, machine) => { a with machine := machine })
  | .message bytes =>
    (a.board.dispatch? a.site.store bytes).map fun
      | .ok (_, b) => a.withBoard b
      | .error _ => a

/-- The board after some pieces of work, one after another. -/
def performAll (a : Appliance) (works : List Work) : Appliance := works.foldl perform a

/-- The same, carefully. -/
def performAll? (a : Appliance) (works : List Work) : Option Appliance := works.foldlM perform? a

/-- How many cycles the processor does run for some work; it may halt, or have halted before. -/
def cyclesFor (a : Appliance) (work : Work) : Nat := (a.machine.run work.steps).1

/-- How many cycles the processor runs for some pieces of work, all together. -/
def cyclesForAll (a : Appliance) : List Work → Nat
  | [] => 0
  | work :: rest => a.cyclesFor work + (a.perform work).cyclesForAll rest

/-! ## 3. The invariant -/

/-- A board with the settings of its start, whose processor ran a number of cycles. -/
structure Steady (settings : Settings) (cycles : Nat) (a : Appliance) : Prop where
  same : a.settings = settings
  aligned : a.machine.processor.Aligned
  counted : a.machine.processor.cycles.toNat = cycles
  map : a.machine.map = settings.map
  wired : a.machine.Wired

variable {settings : Settings} {cycles : Nat} {a : Appliance}

/-- A board that was started is steady, and its processor has run no cycle. -/
theorem steady_start (settings : Settings) (network : Network) (noise : Noise)
    (files : FileTree) : (start settings network noise files).1.Steady settings 0 := by
  have hprocessor : (start settings network noise files).1.machine.processor =
      Processor.initial := by
    change (Boot.loadRam (Boot.machine settings noise) files settings.defaultProgram
      ⟨settings.programStore⟩).machine.processor = Processor.initial
    rcases Boot.machine_loadRam (Boot.machine settings noise) files settings.defaultProgram
      ⟨settings.programStore⟩ with hsame | ⟨program, hprogram⟩
    · rw [hsame]
      rfl
    · rw [hprogram]
      rfl
  obtain ⟨hwired, hmap⟩ := wired_live settings network noise files []
  refine ⟨rfl, ?_, ?_, hmap, hwired⟩
  · rw [hprocessor]
    exact Nat.dvd_zero 4
  · rw [hprocessor]
    rfl

/-- A message that is carried out keeps a board steady: it keeps the number of LEDs. -/
theorem steady_withBoard (h : a.Steady settings cycles) {bytes : List UInt8} {effect : Effect}
    {board : Board} (hdispatch : a.board.dispatch a.site.store bytes = .ok (effect, board)) :
    (a.withBoard board).Steady settings cycles := by
  have hleds : board.display.ledCount = a.machine.display.ledCount := by
    rcases a.board.dispatch_display a.site.store bytes with
      ⟨-, effect', board', colors, hpainted, hdisplay⟩ | ⟨-, hsame⟩
    · rw [hdispatch] at hpainted
      obtain ⟨-, rfl⟩ := Prod.mk.inj (Except.ok.inj hpainted)
      rw [hdisplay, Display.ledCount_flush, Display.ledCount_paint]
      rfl
    · rw [hsame effect board hdispatch]
      rfl
  exact ⟨h.same, h.aligned, h.counted, h.map,
    (Machine.wired_modifyDisplay h.wired (fun _ => board.display) hleds).1⟩

/-- Cycles of the processor keep a board steady, with or without the flag of a request. -/
theorem steady_after (h : a.Steady settings cycles) {n : Nat}
    (hcount : cycles + (a.machine.run n).1 < UInt64.size) {m : Machine} (asked : Bool)
    (hm : m = (a.machine.after n).asking asked) (haligned : m.processor.Aligned) :
    Steady settings (cycles + (a.machine.run n).1) { a with machine := m } := by
  subst hm
  rw [← h.counted] at hcount ⊢
  exact ⟨h.same, haligned, Machine.toNat_cycles_after hcount,
    (Machine.map_after a.machine n).trans h.map, Machine.wired_after h.wired n⟩

/-- **Whatever work there is can be done carefully**, and keeps a board steady. -/
theorem steady_perform (h : a.Steady settings cycles) (hevery : settings.debugEvery ≠ some 0)
    {work : Work} (hcount : cycles + a.cyclesFor work < UInt64.size) :
    a.perform? work = some (a.perform work) ∧
      (a.perform work).Steady settings (cycles + a.cyclesFor work) := by
  cases work with
  | cycle =>
    have hroom : a.machine.processor.halted = false →
        a.machine.processor.cycles.toNat + 1 < UInt64.size := by
      intro hrunning
      have hone : (a.machine.run 1).1 = 1 := Machine.fst_run_succ hrunning 0
      rw [h.counted, ← hone]
      exact hcount
    obtain ⟨hstep, haligned⟩ := Machine.step?_eq h.aligned hroom
    refine ⟨?_, steady_after h hcount _ (Machine.asking_debugRequested _).symm haligned⟩
    rw [perform?, hstep]
    rfl
  | batch steps =>
    have hroom : a.machine.processor.cycles.toNat + (a.machine.run (max steps 1)).1 <
        UInt64.size := by
      rw [h.counted]
      exact hcount
    obtain ⟨hbatch, haligned⟩ := Machine.runBatch?_eq (h.same ▸ hevery) h.aligned hroom
    have hgo := Machine.runBatch.go_eq a.machine a.settings.debugEvery #[] (max steps 1)
    refine ⟨?_, steady_after h hcount _ (congrArg Prod.snd hgo) haligned⟩
    rw [perform?, hbatch]
    rfl
  | message bytes =>
    have hnone : a.cyclesFor (.message bytes) = 0 := rfl
    have hcareful := Board.dispatch?_eq a.board a.site.store bytes
    simp only [perform?, perform, happen, dispatch, hcareful, hnone, Nat.add_zero, Option.map_some]
    cases hdispatch : a.board.dispatch a.site.store bytes with
    | error cause => exact ⟨rfl, h⟩
    | ok outcome => exact ⟨rfl, steady_withBoard h hdispatch⟩

/-- **So can all work**, one piece after another. -/
theorem steady_performAll (h : a.Steady settings cycles) (hevery : settings.debugEvery ≠ some 0)
    {works : List Work} (hcount : cycles + a.cyclesForAll works < UInt64.size) :
    a.performAll? works = some (a.performAll works) ∧
      (a.performAll works).Steady settings (cycles + a.cyclesForAll works) := by
  induction works generalizing a cycles with
  | nil => exact ⟨rfl, h⟩
  | cons work rest ih =>
    rw [cyclesForAll, ← Nat.add_assoc] at hcount ⊢
    have hroom : cycles + a.cyclesFor work < UInt64.size := by omega
    obtain ⟨hfirst, hsteady⟩ := steady_perform h hevery hroom
    obtain ⟨hrest, hlast⟩ := ih hsteady hcount
    refine ⟨?_, hlast⟩
    rw [performAll?, List.foldlM_cons, hfirst]
    exact hrest

/-! ## 4. The whole -/

/-- **No operation leaves its domain.**  Let settings be accepted, with a size of RAM of 32 bits.
Then neither their periods are zero nor do their windows wrap.  And on a board that was started with
them, whatever its files and its noise are, and whatever cycles, batches and messages there were
since then, as long as the processor has not run as many cycles as its counter can count:

* all of this work can be done carefully, with every operation within its domain, and comes to the
  same;
* the stack pointer is a multiple of four, and the counter has counted all cycles;
* the bus is wired by the windows of the settings, to a display with as many LEDs as they say. -/
theorem no_operation_leaves_its_domain {arguments : Arguments} {settings : Settings}
    (haccepted : Settings.ofArguments arguments = .ok settings)
    (hram : arguments.ramSize < UInt32.size) (network : Network) (noise : Noise)
    (files : FileTree) {works : List Work}
    (hcount : (start settings network noise files).1.cyclesForAll works < UInt64.size) :
    settings.pingInterval ≠ 0 ∧ settings.buttonPoll ≠ 0 ∧ settings.debugEvery ≠ some 0 ∧
      settings.map.Unwrapped ∧
      let first := (start settings network noise files).1
      let last := first.performAll works
      first.performAll? works = some last ∧
        last.machine.processor.sp.toNat % 4 = 0 ∧
        last.machine.processor.cycles.toNat = first.cyclesForAll works ∧
        last.settings = settings ∧
        last.machine.bus.Wired settings.map last.machine.display := by
  obtain ⟨hmap, -, hping, hpoll, -, hevery, last, hvideo⟩ := Settings.accepted_of_ok haccepted
  have hsize : settings.map.ramSize < UInt32.size := by
    rw [hmap]
    exact hram
  have hsteady := steady_start settings network noise files
  rw [← Nat.zero_add (cyclesForAll _ _)] at hcount
  obtain ⟨hcareful, hlast⟩ := steady_performAll hsteady hevery hcount
  refine ⟨hping, hpoll, hevery, AddressMap.unwrapped_of_videoEnd? hsize hvideo, hcareful,
    Nat.mod_eq_zero_of_dvd hlast.aligned, ?_, hlast.same, ?_⟩
  · rw [hlast.counted, Nat.zero_add]
  · rw [← hlast.map]
    exact hlast.wired

/-- A board with two LEDs, a noise window at the very top and a snapshot in every other cycle.  Its
program pops a word that nobody pushed, writes to the second LED and halts; a client paints. -/
theorem no_operation_leaves_its_domain_of_underflow :
    let arguments : Arguments :=
      { ledCount := 2, ramSize := 64, videoBase := 64, noiseBase := 0xfffffffe,
        debugEvery := some 2 }
    let settings : Settings :=
      ⟨.v4 [0, 0, 0, 0] 80, ⟨64, 64, 0xfffffffe, 2⟩, "ram.bin", none, "index.html", 10000, 10, 1,
        some 2, "info"⟩
    let files := (ProgramStore.append ⟨"ram.bin"⟩ FileTree.empty
      [3, 1, 2, 0, 0, 0, 7, 2, 0, 0, 0, 72, 8, 0]).toOption.getD FileTree.empty
    let first := (start settings .up (Noise.counting 0 1) files).1
    let works : List Work := [.cycle, .batch 3, .message [77, 5, 6], .batch 10]
    (Settings.ofArguments arguments = .ok settings ∧ arguments.ramSize < UInt32.size ∧
      first.cyclesForAll works < UInt64.size) ∧
    settings.map.noiseRange.2 = 0xffffffff ∧
    first.performAll? works = some (first.performAll works) ∧
    (first.performAll works).machine.processor.cycles = 5 := by
  intro arguments settings files first works
  have haccepted : Settings.ofArguments arguments = .ok settings :=
    toOption_eq_some_iff.mp (by decide +kernel)
  have hram : arguments.ramSize < UInt32.size := by decide
  have hcycles : first.cyclesForAll works = 5 := by decide +kernel
  have hcount : first.cyclesForAll works < UInt64.size := by
    rw [hcycles]
    decide
  obtain ⟨-, -, -, hwindows, hcareful, -, hcounted, -, -⟩ :=
    no_operation_leaves_its_domain haccepted hram .up (Noise.counting 0 1) files hcount
  refine ⟨⟨haccepted, hram, hcount⟩, UInt32.toNat_inj.mp hwindows.noise.2, hcareful, ?_⟩
  refine UInt64.toNat_inj.mp ?_
  rw [hcounted, hcycles]
  rfl

end Appliance

end Ledboard
