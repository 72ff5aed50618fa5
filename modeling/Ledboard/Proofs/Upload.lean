/-
# Uploading a program and starting again

A client uploads a program as a message that empties the program store and messages that append
to it, piece by piece.  When the board starts again without a default program, that program is
what it finds in RAM (`upload_then_boot`): whatever the store held before, however the program was
cut into pieces and the frames into packets, whichever keys and opcodes the client chose, and
whatever the senders of the session did meanwhile.  The display takes no part in it.

The parts come from elsewhere.  `Session.board_run` and `Session.drain_frames` bring the bytes of
the client to the messages, `carried_upload` brings the messages to the store, and
`Boot.loadStore_of_holds` brings the store to RAM.
-/
import Ledboard.Boot
import Ledboard.Proofs.Files
import Ledboard.Proofs.MessageLoop
import Ledboard.Proofs.RamContents

namespace Ledboard

open Session (Carried received)

/-! ## 1. From the messages to the store -/

/-- The message that empties the program store. -/
def resetMessage : List UInt8 := [117]

/-- The message that appends a piece to the program store. -/
def appendMessage (chunk : List UInt8) : List UInt8 := 85 :: chunk

/-- The messages that upload a program in pieces. -/
def uploadMessages (chunks : List (List UInt8)) : List (List UInt8) :=
  resetMessage :: chunks.map appendMessage

variable {store : ProgramStore} {board : Board} {bytes : List UInt8}

/-- A message that empties the store. -/
theorem dispatch_resetMessage {files : FileTree} (h : store.truncate board.files = .ok files) :
    board.dispatch store resetMessage = .ok (.storeReset, { board with files := files }) := by
  have hrun : board.dispatch store resetMessage =
      (store.truncate board.files).map
        (fun files => (.storeReset, { board with files := files })) := rfl
  rw [hrun, h]
  rfl

/-- A message that appends to the store. -/
theorem dispatch_appendMessage {files : FileTree} {chunk : List UInt8}
    (h : store.append board.files chunk = .ok files) :
    board.dispatch store (appendMessage chunk) =
      .ok (.storeAppend chunk.length, { board with files := files }) := by
  have hrun : board.dispatch store (appendMessage chunk) =
      (store.append board.files chunk).map
        (fun files => (.storeAppend chunk.length, { board with files := files })) := rfl
  rw [hrun, h]
  rfl

/-- Appending piece by piece appends all pieces. -/
theorem carried_appends (chunks : List (List UInt8)) (h : store.Holds board.files bytes) :
    ∃ last, Carried store board (chunks.map appendMessage) last ∧ last.display = board.display ∧
      store.Holds last.files (bytes ++ chunks.flatten) := by
  induction chunks generalizing board bytes with
  | nil => exact ⟨board, .nil board, rfl, by rw [List.flatten_nil, List.append_nil]; exact h⟩
  | cons chunk chunks ih =>
    obtain ⟨files, happend, hholds⟩ := ProgramStore.append_spec h chunk
    obtain ⟨last, hcarried, hdisplay, hlast⟩ := @ih { board with files := files } _ hholds
    rw [List.append_assoc] at hlast
    exact ⟨last, .cons (dispatch_appendMessage happend) hcarried, hdisplay, hlast⟩

/-- **An upload replaces what the store held**, and does nothing else. -/
theorem carried_upload (chunks : List (List UInt8)) (h : store.Writable board.files) :
    ∃ last, Carried store board (uploadMessages chunks) last ∧ last.display = board.display ∧
      store.Holds last.files chunks.flatten := by
  obtain ⟨files, htruncate, hholds⟩ := ProgramStore.truncate_spec h
  obtain ⟨last, hcarried, hdisplay, hlast⟩ :=
    @carried_appends store { board with files := files } [] chunks hholds
  exact ⟨last, .cons (dispatch_resetMessage htruncate) hcarried, hdisplay, hlast⟩

/-! ## 2. From the store to RAM -/

/-- A program that is loaded into a new machine is cut to the buffer of its RAM. -/
theorem Machine.load_create (map : AddressMap) (display : Display) (noise : Noise)
    (program : List UInt8) :
    ((Machine.create map display noise).load program).1 =
        min program.length (map.ramSize + Ram.padding) ∧
      ((Machine.create map display noise).load program).2.bus.ram? =
        some ((Ram.ofSize map.ramSize).load 0 program) := ⟨rfl, rfl⟩

/-- **A board without a default program starts with what its store holds.** -/
theorem Boot.loadRam_of_holds {files : FileTree} {program : List UInt8}
    (h : store.Holds files program) (map : AddressMap) (display : Display) (noise : Noise) :
    (Boot.loadRam (Machine.create map display noise) files none store).image =
        .store (min program.length (map.ramSize + Ram.padding)) ∧
      (Boot.loadRam (Machine.create map display noise) files none store).machine.bus.ram? =
        some ((Ram.ofSize map.ramSize).load 0 program) := by
  obtain ⟨hcount, hram⟩ := Machine.load_create map display noise program
  simp only [Boot.loadRam, Boot.loadStore, ProgramStore.load_of_holds h]
  exact ⟨congrArg BootImage.store hcount, hram⟩

/-! ## 3. From the client to RAM -/

/-- **A program that was uploaded is in RAM after the next start.** -/
theorem upload_then_boot {program : List UInt8} {chunks : List (List UInt8)}
    (hchunks : chunks.flatten = program) {frames : List Wire.ClientFrame}
    (hframes : frames.map Wire.ClientFrame.payload = uploadMessages chunks)
    {events : List SessionEvent} (hevents : ∀ event ∈ events, event ≠ .inputEnd)
    (hreceived : events.flatMap received = frames.flatMap Wire.ClientFrame.bytes)
    (hwritable : store.Writable board.files) (peer : String) (map : AddressMap)
    (display : Display) (noise : Noise) :
    let after := ((Session.start peer).run store board (events ++ [.inputEnd])).2.1
    let loaded := Boot.loadRam (Machine.create map display noise) after.files none store
    after.display = board.display ∧
      loaded.image = .store (min program.length (map.ramSize + 3)) ∧
      loaded.machine.bus.ram?.map Ram.bytes = some (program.take (map.ramSize + 3) ++
        List.replicate (map.ramSize + 3 - program.length) 0) := by
  obtain ⟨last, hcarried, hdisplay, hholds⟩ := carried_upload chunks hwritable
  have hafter : ((Session.start peer).run store board (events ++ [.inputEnd])).2.1 = last := by
    have hmessages := Session.drain_frames (hframes ▸ hcarried) true []
    have hclosed : Session.drain store true last [] = ⟨last, [], some (.fault .closed), []⟩ :=
      Session.drain_of_stop rfl
    rw [List.append_nil, ← hreceived, hclosed] at hmessages
    rw [(Session.board_run hevents peer store board).2, hmessages]
  rw [hchunks] at hholds
  obtain ⟨himage, hram⟩ := Boot.loadRam_of_holds hholds map display noise
  simp only [hafter]
  refine ⟨hdisplay, himage, ?_⟩
  rw [hram, Option.map_some, Ram.bytes_load_ofSize]
  rfl

/-- An upload of five bytes in three pieces, one of them empty, over another program.  The bytes
come in two packets with a keepalive in between. -/
theorem upload_then_boot_of_three_pieces :
    let frames : List Wire.ClientFrame :=
      [⟨0x82, ⟨1, 2, 3, 4⟩, [117], by decide, by decide, by decide⟩,
        ⟨0x81, ⟨0, 0, 0, 0⟩, [85, 2, 0, 0], by decide, by decide, by decide⟩,
        ⟨0xf2, ⟨9, 9, 9, 9⟩, [85], by decide, by decide, by decide⟩,
        ⟨0x82, ⟨255, 0, 255, 0⟩, [85, 1, 44], by decide, by decide, by decide⟩]
    let sent : List UInt8 :=
      [0x82, 0x81, 1, 2, 3, 4, 116, 0x81, 0x84, 0, 0, 0, 0, 85, 2, 0, 0,
        0xf2, 0x81, 9, 9, 9, 9, 92, 0x82, 0x83, 255, 0, 255, 0, 170, 1, 211]
    let board : Board := ⟨Display.dark 64, FileTree.empty.put "ram.bin" [7, 7, 7, 7, 7, 7]⟩
    let after := ((Session.start "client").run ⟨"ram.bin"⟩ board
      ([.receive (sent.take 9), .ping, .receive (sent.drop 9)] ++ [.inputEnd])).2.1
    let loaded := Boot.loadRam
      (Machine.create ⟨4, 0x10000, 0x50000, 64⟩ (Display.dark 64) (Noise.counting 0 1))
      after.files none ⟨"ram.bin"⟩
    frames.flatMap Wire.ClientFrame.bytes = sent ∧
      after.display = Display.dark 64 ∧ loaded.image = .store 5 ∧
      loaded.machine.bus.ram?.map Ram.bytes = some [2, 0, 0, 1, 44, 0, 0] := by
  intro frames sent board
  have hsent : frames.flatMap Wire.ClientFrame.bytes = sent := by decide
  have hframes : frames.map Wire.ClientFrame.payload = uploadMessages [[2, 0, 0], [], [1, 44]] :=
    rfl
  have hwritable : ProgramStore.Writable ⟨"ram.bin"⟩ board.files :=
    ⟨["ram.bin"], .ofList [7, 7, 7, 7, 7, 7], rfl⟩
  have hevents : ∀ event ∈ [SessionEvent.receive (sent.take 9), .ping, .receive (sent.drop 9)],
      event ≠ .inputEnd := by simp
  have hreceived : [SessionEvent.receive (sent.take 9), .ping, .receive (sent.drop 9)].flatMap
      received = frames.flatMap Wire.ClientFrame.bytes := by
    rw [hsent]
    simp only [List.flatMap_cons, List.flatMap_nil, received, List.nil_append, List.append_nil,
      List.take_append_drop]
  exact ⟨hsent, upload_then_boot rfl hframes hevents hreceived hwritable "client"
    ⟨4, 0x10000, 0x50000, 64⟩ (Display.dark 64) (Noise.counting 0 1)⟩

end Ledboard
