import SbOS.Kernel.Ringbuffer
import SbOS.Lib.Framing

/-! The keyboard and the mouse (`drivers/keyboard.c`, `drivers/mouse.c`): interrupts write events
into a ring of bytes, from which the device files are read. The movements of the mouse are not
stored but made up when a read finds no event. -/
namespace SbOS.Drivers
open Kernel Bytes
open List hiding after

/-! ## The keyboard -/

/-- `ascii_table` -/
def asciiTable : List UInt8 :=
  "e\x1B1234567890-=\x08\tqwertyuiop[]\nCasdfghjkl;'`D\\zxcvbnm,./UUU ".toList.map fun c =>
    UInt8.ofNat c.toNat

/-- `capital_ascii_table` -/
def capitalAsciiTable : List UInt8 :=
  "e\x1B!@#$%^&*()_+\x08\tQWERTYUIOP\x7b\x7d\nCASDFGHJKL:\"~D|ZXCVBNM<>?UUU ".toList.map fun c =>
    UInt8.ofNat c.toNat

/-- `keyboard_to_ascii`; its check lets the first index behind the tables pass, where the
sanitizer halts the kernel. -/
def keyboardToAscii (key : UInt8) (capital : Bool) : Except Stop UInt8 :=
  if asciiTable.length < key.toNat then .ok (UInt8.ofNat 'U'.toNat)
  else match (if capital then capitalAsciiTable else asciiTable)[key.toNat]? with
    | some a => .ok a
    | none => .error .overrun

structure Keyboard where
  ring : Ringbuffer
  isShiftDown : Bool
  isAltDown : Bool
  isCtrlDown : Bool

namespace Keyboard

/-- The two `switch` statements of `int_keyboard`. -/
def modifier (kb : Keyboard) (key : UInt8) (down : Bool) : Option Keyboard :=
  if key = 0x2A ∨ key = 0x36 then some { kb with isShiftDown := down }
  else if key = 0x38 then some { kb with isAltDown := down }
  else if key = 0x1D then some { kb with isCtrlDown := down }
  else none

/-- The bytes of `struct KEY_EVENT`. -/
def event (kb : Keyboard) (a : UInt8) (released : Bool) : List UInt8 :=
  [a, UInt8.ofNat (kb.isShiftDown.toNat + 2 * kb.isAltDown.toNat + 4 * kb.isCtrlDown.toNat),
    if released then 1 else 0]

/-- `int_keyboard` for the byte `c` of the controller: the event that it makes, if any. -/
def intKeyboard (kb : Keyboard) (c : UInt8) : Except Stop (Option (List UInt8) × Keyboard) :=
  let released := c &&& 0x80 != 0
  let key := c &&& 0x7F
  match kb.modifier key (!released) with
  | some kb => .ok (none, kb)
  | none => do
    let a ← keyboardToAscii key kb.isShiftDown
    let event := kb.event a released
    let (_, ring) ← kb.ring.write (event.getD · 0) 3
    return (some event, { kb with ring })

/-- `keyboard_read`: what it returns, and the bytes that it stores. -/
def keyboardRead (kb : Keyboard) (len : Nat) : Except Stop ((Int × List UInt8) × Keyboard) := do
  let ((rc, bytes), ring) ← kb.ring.read true (len % 2 ^ 32)
  let rc : Int := if 0 = rc ∧ 0 < len then -eAGAIN else rc
  return ((rc, bytes.getD []), { kb with ring })

end Keyboard

/-! ## The mouse -/

/-- `struct mouse_event` -/
structure MouseEvent where
  buttons : UInt8
  x : Int
  y : Int

/-- The bytes of the event, three of which are what the stack holds. -/
def MouseEvent.bytes (e : MouseEvent) (padding : Bytes) : List UInt8 :=
  [e.buttons, padding 0, padding 1, padding 2] ++
    (List.range 4).map (encode (e.x % 2 ^ 32).toNat) ++
    (List.range 4).map (encode (e.y % 2 ^ 32).toNat)

structure Mouse where
  ring : Ringbuffer
  mouseCycle : Nat
  /-- `mouse_u8` -/
  first : UInt8
  second : UInt8
  x : Int
  y : Int
  previous : MouseEvent

namespace Mouse

/-- A byte of a packet with its sign. -/
def shift (byte : UInt8) (negative : Bool) : Int :=
  if negative then (byte.toNat : Int) - 256 else byte.toNat

/-- The buttons are not those of the last event. -/
def buttonChange (mouse : Mouse) : Bool :=
  mouse.first &&& 4 != mouse.previous.buttons &&& 4 ||
    mouse.first &&& 2 != mouse.previous.buttons &&& 2 ||
    mouse.first &&& 1 != mouse.previous.buttons &&& 1

/-- The third byte of a packet. -/
def moved (mouse : Mouse) (third : UInt8) : Except Stop Mouse := do
  let x ← signed 32 (mouse.x + shift mouse.second (mouse.first &&& 16 != 0))
  let y ← signed 32 (mouse.y - shift third (mouse.first &&& 32 != 0))
  return { mouse with x := max x 0, y := max y 0, mouseCycle := 0 }

/-- `int_mouse` for the next byte of the controller: the event that it makes, if any. -/
def intMouse (mouse : Mouse) (byte : UInt8) (padding : Bytes) :
    Except Stop (Option (List UInt8) × Mouse) :=
  match mouse.mouseCycle with
  | 0 => .ok (none, { mouse with first := byte, mouseCycle := if byte &&& 8 = 0 then 0 else 1 })
  | 1 => .ok (none, { mouse with second := byte, mouseCycle := 2 })
  | 2 => do
    let mouse ← mouse.moved byte
    if !mouse.buttonChange then return (none, mouse)
    else
      let e : MouseEvent := ⟨mouse.first, mouse.x, mouse.y⟩
      let (_, ring) ← mouse.ring.write ((e.bytes padding).getD · 0) 12
      return (some (e.bytes padding), { mouse with previous := e, ring })
  | _ => .ok (none, mouse)

/-- The event that `fs_mouse_read` makes up. -/
def movement (mouse : Mouse) : MouseEvent := ⟨mouse.first &&& 7, mouse.x, mouse.y⟩

/-- `fs_mouse_read`: what it returns, the bytes that it stores, and the event that it has made
up, if any. -/
def fsMouseRead (mouse : Mouse) (len : Nat) (padding : Bytes) :
    Except Stop ((Int × List UInt8 × Option (List UInt8)) × Mouse) := do
  let ((rc, bytes), ring) ← mouse.ring.read true (len % 2 ^ 32)
  let mouse := { mouse with ring }
  if 0 = rc ∧ 0 < len then
    if mouse.x ≠ mouse.previous.x ∨ mouse.y ≠ mouse.previous.y then
      let event := mouse.movement.bytes padding
      let readLen := min len 12
      return ((readLen, event.take readLen, some event), { mouse with previous := mouse.movement })
    else return ((-eAGAIN, [], none), mouse)
  else return ((rc, bytes.getD [], none), mouse)

end Mouse

/-! ## Runs -/

/-- The events of a device in the order in which they were made, and the bytes that its reads
have returned. -/
structure Log where
  produced : List (List UInt8) := []
  returned : List UInt8 := []

def Log.add (log : Log) (event : Option (List UInt8)) (bytes : List UInt8) : Log :=
  ⟨log.produced ++ event.toList, log.returned ++ bytes⟩

theorem Log.add_nothing (log : Log) : log.add none [] = log := by
  unfold add
  rw [Option.toList_none, append_nil, append_nil]

structure Inputs where
  keyboard : Keyboard
  mouse : Mouse
  keys : Log := {}
  pointer : Log := {}

inductive InputCall where
  | intKeyboard (c : UInt8)
  | intMouse (byte : UInt8) (padding : Bytes)
  | keyboardRead (len : UInt64)
  | fsMouseRead (len : UInt64) (padding : Bytes)

def Inputs.step (s : Inputs) : InputCall → Except Stop Inputs
  | .intKeyboard c => do
    let (event, keyboard) ← s.keyboard.intKeyboard c
    return { s with keyboard, keys := s.keys.add event [] }
  | .intMouse byte padding => do
    let (event, mouse) ← s.mouse.intMouse byte padding
    return { s with mouse, pointer := s.pointer.add event [] }
  | .keyboardRead len => do
    let ((_, bytes), keyboard) ← s.keyboard.keyboardRead len.toNat
    return { s with keyboard, keys := s.keys.add none bytes }
  | .fsMouseRead len padding => do
    let ((_, bytes, event), mouse) ← s.mouse.fsMouseRead len.toNat padding
    return { s with mouse, pointer := s.pointer.add event bytes }

inductive InputRuns (allowed : Inputs → InputCall → Prop) (start : Inputs) : Inputs → Prop where
  | start : InputRuns allowed start start
  | step (before : InputRuns allowed start s) (permitted : allowed s call)
    (returned : s.step call = .ok after) : InputRuns allowed start after

/-- A driver after `add_keyboard`. -/
def Keyboard.add (memory : Bytes) (isShiftDown isAltDown isCtrlDown : Bool) : Keyboard :=
  ⟨(Ringbuffer.init (some memory) 128).2, isShiftDown, isAltDown, isCtrlDown⟩

/-- `add_mouse`; the packets before it have set the rest. -/
def Mouse.add (mouse : Mouse) (memory : Bytes) : Mouse :=
  { mouse with ring := (Ringbuffer.init (some memory) 4096).2 }

/-- The bytes that were returned, and those in the ring, are whole events in the order in which
they were made. -/
def WholeEvents (size : Nat) (log : Log) (ring : Ringbuffer) : Prop :=
  ∃ delivered pending : List (List UInt8), log.returned = delivered.flatten ∧ ring.contents = pending.flatten ∧
    (∀ event ∈ delivered ++ pending, event.length = size) ∧
    (delivered ++ pending).Sublist log.produced

/-- A read asks for whole events. -/
def Multiple : InputCall → Prop
  | .keyboardRead len => len.toNat % 3 = 0
  | .fsMouseRead len _ => len.toNat % 12 = 0
  | _ => True

/-- The movement that ends with this byte leaves the position an `int`. -/
def Mouse.InRange (mouse : Mouse) (third : UInt8) : Prop :=
  (-2 ^ 31 ≤ mouse.x + shift mouse.second (mouse.first &&& 16 != 0) ∧
    mouse.x + shift mouse.second (mouse.first &&& 16 != 0) < 2 ^ 31) ∧
  -2 ^ 31 ≤ mouse.y - shift third (mouse.first &&& 32 != 0) ∧
    mouse.y - shift third (mouse.first &&& 32 != 0) < 2 ^ 31

/-- An event finds room for all of it or none at all, a key is not the one behind the tables (Caps
Lock), and the numbers stay in their types: the position of the mouse, and the length of a read in
the `u32` of the ring. -/
def Roomy (s : Inputs) : InputCall → Prop
  | .intKeyboard c => s.keyboard.modifier (c &&& 0x7F) (!(c &&& 0x80 != 0)) = none →
    c &&& 0x7F ≠ 0x3A ∧ (3 ≤ s.keyboard.ring.unused ∨ s.keyboard.ring.unused = 0)
  | .intMouse byte _ => s.mouse.mouseCycle = 2 → s.mouse.InRange byte ∧
    (s.mouse.buttonChange = true → 12 ≤ s.mouse.ring.unused ∨ s.mouse.ring.unused = 0)
  | .keyboardRead len => len.toNat < 2 ^ 32
  | .fsMouseRead len _ => len.toNat < 2 ^ 32

/-! ## Whole events stay whole -/

namespace WholeEvents

variable {ring : Ringbuffer} {log : Log}

section
variable (whole : WholeEvents size log ring)
include whole

theorem write (valid : ring.Valid)
    (length : event.length = size) (small : size < 2 ^ 32)
    (room : size ≤ ring.unused ∨ ring.unused = 0) :
    ∃ n ring', ring.write (event.getD · 0) size = .ok (n, ring') ∧ ring'.Valid ∧
      WholeEvents size (log.add (some event) []) ring' := by
  obtain ⟨delivered, pending, returned, contents, uniform, sublist⟩ := whole
  have same : (log.add (some event) []).returned = log.returned := append_nil _
  rcases room with room | full
  · obtain ⟨ring', written, valid', after⟩ := valid.write_all event (le_of_eq length.symm) room
    refine ⟨size, ring', written, valid', delivered, pending ++ [event], same.trans returned, ?_,
      ?_, ?_⟩
    · rw [after, contents, ← length, take_length, flatten_append, flatten_singleton]
    · rw [← append_assoc, forall_mem_append, forall_mem_singleton]
      exact ⟨uniform, length⟩
    · rw [← append_assoc]
      exact sublist.append (Sublist.refl [event])
  · obtain ⟨ring', written, valid', after⟩ := valid.write_full (event.getD · 0) small full
    refine ⟨0, ring', written, valid', delivered, pending, same.trans returned,
      after.trans contents, uniform, ?_⟩
    exact sublist.trans (sublist_append_left ..)

theorem read (valid : ring.Valid) (small : len < 2 ^ 32) (multiple : len % size = 0) :
    ∃ bytes ring', ring.read true len = .ok ((min len ring.used, some bytes), ring') ∧
      ring'.Valid ∧ WholeEvents size (log.add none bytes) ring' ∧
      (ring.used = 0 → bytes = [] ∧ ring'.used = 0) := by
  obtain ⟨delivered, pending, returned, contents, uniform, sublist⟩ := whole
  obtain ⟨ring', read, valid', _, after⟩ := valid.read_front small
  obtain ⟨count, rfl⟩ := Nat.dvd_of_mod_eq_zero multiple
  obtain ⟨taken, left⟩ := Framing.cut_flatten
    (fun event member => uniform event (mem_append_right delivered member)) count
  refine ⟨_, ring', read, valid', ⟨delivered ++ pending.take count, pending.drop count, ?_, ?_, ?_,
    ?_⟩, fun empty => ?_⟩
  · rw [flatten_append, ← taken, ← contents, ← returned]
    rfl
  · rw [after, contents, left]
  · rw [append_assoc, take_append_drop]
    exact uniform
  · rw [append_assoc, take_append_drop]
    exact sublist.trans (sublist_append_left ..)
  · have none := eq_nil_of_length_eq_zero (Ringbuffer.Valid.contents_length.trans empty)
    rw [← @Ringbuffer.Valid.contents_length ring', after, none, take_nil, drop_nil]
    exact ⟨rfl, rfl⟩

/-- An event that is returned as soon as it is made finds the ring empty. -/
theorem make (empty : ring.used = 0)
    (length : event.length = size) : WholeEvents size (log.add (some event) event) ring := by
  obtain ⟨delivered, pending, returned, contents, uniform, sublist⟩ := whole
  have none : ring.contents = [] :=
    eq_nil_of_length_eq_zero (Ringbuffer.Valid.contents_length.trans empty)
  refine ⟨delivered ++ [event], [], ?_, none, ?_, ?_⟩
  · rw [flatten_append, flatten_singleton, ← returned]
    rfl
  · rw [append_nil, forall_mem_append, forall_mem_singleton]
    exact ⟨(forall_mem_append.mp uniform).1, length⟩
  · rw [append_nil]
    exact ((sublist_append_left delivered pending).trans sublist).append
      (Sublist.refl [event])

theorem idle : WholeEvents size (log.add none []) ring := by
  rw [Log.add_nothing]
  exact whole

end

end WholeEvents

theorem MouseEvent.bytes_length (e : MouseEvent) (padding : Bytes) : (e.bytes padding).length = 12 :=
  rfl

/-- What holds between the calls. -/
structure Inputs.Sound (s : Inputs) : Prop where
  keyRing : s.keyboard.ring.Valid
  keys : WholeEvents 3 s.keys s.keyboard.ring
  mouseRing : s.mouse.ring.Valid
  pointer : WholeEvents 12 s.pointer s.mouse.ring

theorem keyboardToAscii_ok (known : key ≠ 0x3A) (capital : Bool) :
    ∃ a, keyboardToAscii key capital = .ok a := by
  unfold keyboardToAscii
  split
  · exact ⟨_, rfl⟩
  · rename_i low
    have size : (if capital then capitalAsciiTable else asciiTable).length = 58 := by
      cases capital <;> decide
    have other : key.toNat ≠ 58 := fun same => known (UInt8.toNat_inj.mp same)
    rw [show asciiTable.length = 58 by decide] at low
    rw [List.getElem?_eq_getElem (by omega)]
    exact ⟨_, rfl⟩

namespace Keyboard

variable {kb : Keyboard} {log : Log}

section
variable (valid : kb.ring.Valid) (whole : WholeEvents 3 log kb.ring)
include valid whole

theorem intKeyboard_whole (room : kb.modifier (c &&& 0x7F) (!(c &&& 0x80 != 0)) = none →
      c &&& 0x7F ≠ 0x3A ∧ (3 ≤ kb.ring.unused ∨ kb.ring.unused = 0)) :
    ∃ event kb', kb.intKeyboard c = .ok (event, kb') ∧ kb'.ring.Valid ∧
      WholeEvents 3 (log.add event []) kb'.ring := by
  unfold intKeyboard
  dsimp only
  cases found : kb.modifier (c &&& 0x7F) (!(c &&& 0x80 != 0)) with
  | some changed =>
    have ring : changed.ring = kb.ring := by
      unfold modifier at found
      split at found
      · cases found
        rfl
      · split at found
        · cases found
          rfl
        · split at found
          · cases found
            rfl
          · cases found
    exact ⟨none, changed, rfl, ring ▸ valid, ring ▸ whole.idle⟩
  | none =>
    obtain ⟨known, space⟩ := room found
    obtain ⟨a, ascii⟩ := keyboardToAscii_ok known kb.isShiftDown
    have length : (kb.event a (c &&& 0x80 != 0)).length = 3 := rfl
    obtain ⟨n, ring, written, valid', whole'⟩ := whole.write valid length (by decide) space
    refine ⟨_, { kb with ring }, ?_, valid', whole'⟩
    dsimp only
    rw [ascii, ok_then, written]
    rfl

theorem keyboardRead_whole (small : len < 2 ^ 32) (multiple : len % 3 = 0) :
    ∃ rc bytes kb', kb.keyboardRead len = .ok ((rc, bytes), kb') ∧ kb'.ring.Valid ∧
      WholeEvents 3 (log.add none bytes) kb'.ring := by
  obtain ⟨bytes, ring, read, valid', whole', _⟩ := whole.read valid small multiple
  unfold keyboardRead
  rw [Nat.mod_eq_of_lt small, read]
  exact ⟨_, bytes, { kb with ring }, rfl, valid', whole'⟩

end

end Keyboard

namespace Mouse

variable {mouse : Mouse} {log : Log}

/-- A movement changes the position only. -/
theorem moved_ok (range : mouse.InRange third) :
    ∃ after, mouse.moved third = .ok after ∧ after.ring = mouse.ring ∧
      after.buttonChange = mouse.buttonChange := by
  unfold moved signed
  rw [if_pos range.1, ok_then, if_pos range.2]
  exact ⟨_, rfl, rfl, rfl⟩

section
variable (valid : mouse.ring.Valid) (whole : WholeEvents 12 log mouse.ring)
include valid whole

theorem intMouse_whole (room : mouse.mouseCycle = 2 → mouse.InRange byte ∧
      (mouse.buttonChange = true → 12 ≤ mouse.ring.unused ∨ mouse.ring.unused = 0))
    (padding : Bytes) :
    ∃ event mouse', mouse.intMouse byte padding = .ok (event, mouse') ∧ mouse'.ring.Valid ∧
      WholeEvents 12 (log.add event []) mouse'.ring := by
  unfold intMouse
  split
  · exact ⟨none, _, rfl, valid, whole.idle⟩
  · exact ⟨none, _, rfl, valid, whole.idle⟩
  · next cycle =>
    obtain ⟨range, room⟩ := room cycle
    obtain ⟨after, returned, ring, change⟩ := moved_ok range
    rw [returned, ok_then, change]
    rw [← ring] at valid whole room
    cases changed : mouse.buttonChange with
    | true =>
      obtain ⟨n, ring', written, valid', whole'⟩ := whole.write valid
        (MouseEvent.bytes_length ⟨after.first, after.x, after.y⟩ padding) (by decide)
        (room changed)
      dsimp only
      rw [written]
      exact ⟨_, _, rfl, valid', whole'⟩
    | false =>
      exact ⟨none, _, rfl, valid, whole.idle⟩
  · exact ⟨none, _, rfl, valid, whole.idle⟩

theorem fsMouseRead_whole (small : len < 2 ^ 32) (multiple : len % 12 = 0) (padding : Bytes) :
    ∃ rc bytes event mouse', mouse.fsMouseRead len padding = .ok ((rc, bytes, event), mouse') ∧
      mouse'.ring.Valid ∧ WholeEvents 12 (log.add event bytes) mouse'.ring := by
  obtain ⟨bytes, ring, read, valid', whole', drained⟩ := whole.read valid small multiple
  unfold fsMouseRead
  rw [Nat.mod_eq_of_lt small, read, ok_then]
  dsimp only
  split
  · next nothing =>
    obtain ⟨rfl, empty⟩ := drained (by omega)
    rw [Log.add_nothing] at whole'
    split
    · have all : min len 12 = 12 := by omega
      refine ⟨_, _, _, _, rfl, valid', ?_⟩
      rw [all, ← MouseEvent.bytes_length _ padding, take_length]
      exact whole'.make empty (MouseEvent.bytes_length _ padding)
    · exact ⟨_, [], none, _, rfl, valid', whole'.idle⟩
  · exact ⟨_, bytes, none, _, rfl, valid', whole'⟩

end

end Mouse

/-! ## Every run -/

theorem Inputs.Sound.step (sound : s.Sound) (multiple : Multiple call)
    (roomy : Roomy s call) : ∃ after, s.step call = .ok after ∧ after.Sound := by
  obtain ⟨keyRing, keys, mouseRing, pointer⟩ := sound
  unfold Inputs.step
  cases call with
  | intKeyboard c =>
    obtain ⟨event, keyboard, returned, valid, whole⟩ :=
      Keyboard.intKeyboard_whole keyRing keys roomy
    dsimp only
    rw [returned]
    exact ⟨_, rfl, valid, whole, mouseRing, pointer⟩
  | intMouse byte padding =>
    obtain ⟨event, mouse, returned, valid, whole⟩ :=
      Mouse.intMouse_whole mouseRing pointer roomy padding
    dsimp only
    rw [returned]
    exact ⟨_, rfl, keyRing, keys, valid, whole⟩
  | keyboardRead len =>
    obtain ⟨rc, bytes, keyboard, returned, valid, whole⟩ :=
      Keyboard.keyboardRead_whole keyRing keys roomy multiple
    dsimp only
    rw [returned]
    exact ⟨_, rfl, valid, whole, mouseRing, pointer⟩
  | fsMouseRead len padding =>
    obtain ⟨rc, bytes, event, mouse, returned, valid, whole⟩ :=
      Mouse.fsMouseRead_whole mouseRing pointer roomy multiple padding
    dsimp only
    rw [returned]
    exact ⟨_, rfl, keyRing, keys, valid, whole⟩

theorem InputRuns.sound (run : InputRuns (fun s call => Multiple call ∧ Roomy s call) first s)
    (initial : first.Sound) : s.Sound := by
  induction run with
  | start => exact initial
  | step before permitted returned held =>
    obtain ⟨_, same, sound⟩ := held.step permitted.1 permitted.2
    cases returned.symm.trans same
    exact sound

theorem wholeEvents_init (memory : Bytes) (large : 2 ≤ bufferSize) (small : bufferSize < 2 ^ 32)
    (size : Nat) :
    (Ringbuffer.init (some memory) bufferSize).2.Valid ∧
      WholeEvents size {} (Ringbuffer.init (some memory) bufferSize).2 := by
  have represents := Ringbuffer.init_represents memory large small
  refine ⟨represents.valid, [], [], rfl, represents.items.symm, ?_, Sublist.refl _⟩
  exact forall_mem_nil _

theorem Inputs.sound_add (keyMemory mouseMemory : Bytes) (shift alt ctrl : Bool) (mouse : Mouse) :
    Sound { keyboard := .add keyMemory shift alt ctrl, mouse := mouse.add mouseMemory } := by
  obtain ⟨keyRing, keys⟩ := wholeEvents_init keyMemory (by decide : 2 ≤ 128) (by decide) 3
  obtain ⟨mouseRing, pointer⟩ := wholeEvents_init mouseMemory (by decide : 2 ≤ 4096) (by decide) 12
  exact ⟨keyRing, keys, mouseRing, pointer⟩

/-- Reads of both devices return whole events in their order, as long as every event finds room
for all of it or none. -/
theorem events_whole_when_roomy (keyMemory mouseMemory : Bytes) (shift alt ctrl : Bool)
    (mouse : Mouse)
    (run : InputRuns (fun s call => Multiple call ∧ Roomy s call)
      { keyboard := .add keyMemory shift alt ctrl, mouse := mouse.add mouseMemory } s) :
    WholeEvents 3 s.keys s.keyboard.ring ∧ WholeEvents 12 s.pointer s.mouse.ring ∧
      ∀ call, Multiple call → Roomy s call → Returns (s.step call) := by
  have sound := run.sound (Inputs.sound_add keyMemory mouseMemory shift alt ctrl mouse)
  refine ⟨sound.keys, sound.pointer, fun call multiple roomy => ?_⟩
  obtain ⟨after, returned, _⟩ := sound.step multiple roomy
  exact ⟨after, returned⟩

def stillMouse : Mouse := ⟨(Ringbuffer.init (some zeros) 4096).2, 0, 0, 0, 0, 0, ⟨0, 0, 0⟩⟩

/-- `a`, then shift and `b`; the first of the two events is read. -/
theorem events_whole_two_keys :
    ∃ s, InputRuns (fun s call => Multiple call ∧ Roomy s call)
        { keyboard := .add zeros false false false, mouse := stillMouse.add zeros } s ∧
      s.keys.produced = [[97, 0, 0], [66, 1, 0]] ∧ s.keys.returned = [97, 0, 0] ∧
      WholeEvents 3 s.keys s.keyboard.ring ∧ WholeEvents 12 s.pointer s.mouse.ring ∧
      ∀ call, Multiple call → Roomy s call → Returns (s.step call) := by
  have first : InputRuns (fun s call => Multiple call ∧ Roomy s call)
      { keyboard := .add zeros false false false, mouse := stillMouse.add zeros } _ :=
    InputRuns.start.step ⟨show Multiple (.intKeyboard 0x1E) from trivial,
      fun _ => ⟨by decide, .inl (by decide)⟩⟩ rfl
  have shifted := first.step ⟨show Multiple (.intKeyboard 0x2A) from trivial, nofun⟩ rfl
  have second := shifted.step ⟨show Multiple (.intKeyboard 0x30) from trivial,
    fun _ => ⟨by decide, .inl (by decide)⟩⟩ rfl
  have run := second.step ⟨show Multiple (.keyboardRead 3) from rfl,
    show 3 < 2 ^ 32 by decide⟩ rfl
  exact ⟨_, run, by decide, by decide,
    events_whole_when_roomy zeros zeros false false false stillMouse run⟩

theorem InputRuns.steps {first s : Inputs} {calls : List InputCall} (run : InputRuns allowed first s)
    (permitted : ∀ s, ∀ call ∈ calls, allowed s call)
    (returned : calls.foldlM Inputs.step s = .ok after) : InputRuns allowed first after := by
  induction calls generalizing s with
  | nil =>
    cases returned
    exact run
  | cons call rest ih =>
    obtain ⟨next, one, others⟩ := of_ok_then returned
    exact ih (run.step (permitted s call mem_cons_self) one)
      (fun s call member => permitted s call (mem_cons_of_mem _ member)) others

/-- Of the last of 43 key presses only the first byte finds room. -/
theorem full_ring_splits_event :
    ∃ s, InputRuns (fun _ call => Multiple call)
        { keyboard := .add zeros false false false, mouse := stillMouse.add zeros } s ∧
      s.keys.produced = List.replicate 43 [97, 0, 0] ∧ s.keys.returned.length = 127 ∧
      ¬WholeEvents 3 s.keys s.keyboard.ring := by
  let calls := replicate 43 (.intKeyboard 0x1E) ++ [InputCall.keyboardRead 129]
  obtain ⟨s, ran, seen⟩ := of_report (show (calls.foldlM Inputs.step
      { keyboard := .add zeros false false false, mouse := stillMouse.add zeros }).toOption.map
        (fun s => (s.keys.produced, s.keys.returned.length)) =
      some (replicate 43 [97, 0, 0], 127) by decide +kernel)
  obtain ⟨produced, length⟩ := Prod.mk.inj seen
  have permitted (s : Inputs) : ∀ call ∈ calls, Multiple call := by
    intro call member
    rcases mem_append.mp member with key | read
    · rw [eq_of_mem_replicate key]
      trivial
    · rw [mem_singleton.mp read]
      exact (by decide : 129 % 3 = 0)
  refine ⟨s, InputRuns.start.steps permitted ran, produced, length, ?_⟩
  rintro ⟨delivered, pending, returned, _, uniform, _⟩
  rw [returned, Framing.length_flatten fun event member =>
    uniform event (mem_append_left pending member)] at length
  omega

end SbOS.Drivers
