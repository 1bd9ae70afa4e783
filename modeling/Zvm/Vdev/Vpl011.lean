import Zvm.Verified.RingBuffer
import Zvm.Verified.Run
import Mathlib.Data.BitVec

/-!
# The virtual UART

The host's shell puts input for a guest into the send buffer of the VM's virtual serial port
(`pl011_virt_serial_send`); the guest takes it byte by byte by reading the data register
(`vserial_vdev_mem_read`).  The buffer is a ring with a number of unread bytes, but the test
for room looks at the write position only, as if the buffer were filled from its start.  A
write that ends at the end of the buffer puts the write position back to 0, and from then on
there is room again, whatever is unread.

The calls are taken as a whole.  The register block is a function from word indices.
-/

namespace Zvm.Vdev

open Zvm.Verified.FunArray Zvm.Verified.RingBuffer Zvm.Verified.Run

/-- `SEND_BUFFER_SIZE`. -/
def sendBufferSize : Nat := 4096

/-- `FIFO_SIZE`. -/
def fifoSize : Nat := 16

/-- `struct send_buffer`. -/
structure SendBuffer where
  data : Nat → BitVec 8
  writePos : Nat
  readPos : Nat
  count : Int
  bufferOverflow : Bool

/-- `struct virt_pl011`. -/
structure VirtPl011 where
  regs : Nat → BitVec 32
  vserialBase : BitVec 32
  enabled : BitVec 32
  level : BitVec 32
  setIrq : Bool
  count : BitVec 32
  connecting : Bool

/-- A virtual serial port and its device. -/
structure Vserial where
  sendBuffer : SendBuffer
  vpl011 : VirtPl011

/-! ## The registers -/

/-- The words of `struct vpl011_regs_ctxt`. -/
def drWord : Nat := 0
def frWord : Nat := 6
def crWord : Nat := 12
def iflsWord : Nat := 13
def imscWord : Nat := 14
def risWord : Nat := 15
def icrWord : Nat := 17
def idWord : Nat := 19

/-- The flags of `fr` and the bits of `ris`. -/
def flagRxfe : BitVec 32 := 0x10
def flagRxff : BitVec 32 := 0x40
def intRx : BitVec 32 := 0x10
def intTx : BitVec 32 := 0x20

def VirtPl011.setReg (v : VirtPl011) (word : Nat) (x : BitVec 32) : VirtPl011 :=
  { v with regs := set v.regs word x }

/-- `level` and `enabled` are taken from the registers. -/
def VirtPl011.sample (v : VirtPl011) : VirtPl011 :=
  { v with level := v.regs risWord, enabled := v.regs imscWord }

/-- `id[k]`. -/
def VirtPl011.id (v : VirtPl011) (k : Nat) : BitVec 8 :=
  ((v.regs (idWord + k / 4)) >>> (8 * (k % 4))).setWidth 8

/-- The offset of an address in the register block. -/
def VirtPl011.offset (v : VirtPl011) (addr : BitVec 64) : Nat :=
  ((addr - v.vserialBase.setWidth 64).setWidth 32).toNat

/-! ## The buffer -/

/-- One pass of the loop that stores the input. -/
def SendBuffer.writeByte (b : SendBuffer) (x : BitVec 8) : SendBuffer :=
  { b with
    data := set b.data b.writePos x
    writePos := (b.writePos + 1) % sendBufferSize
    count := b.count + 1 }

def SendBuffer.writeBytes (b : SendBuffer) : List (BitVec 8) → SendBuffer
  | [] => b
  | x :: xs => (b.writeByte x).writeBytes xs

/-- A byte is taken; both positions go back to 0 with the last one. -/
def SendBuffer.take (b : SendBuffer) : SendBuffer :=
  if b.count - 1 = 0 then { b with readPos := 0, writePos := 0, count := b.count - 1 }
  else { b with readPos := (b.readPos + 1) % sendBufferSize, count := b.count - 1 }

/-! ## The functions -/

/-- The registers after `count` bytes are in the buffer; the test of `count >= 0` is true of
every unsigned number. -/
def VirtPl011.received (v : VirtPl011) (count : Int) : VirtPl011 :=
  let v := { v with count := BitVec.ofInt 32 count }
  let v := v.setReg frWord (v.regs frWord &&& ~~~flagRxfe)
  let v :=
    if v.regs crWord &&& 0x10 ≠ 0 ∨ v.count.toNat = fifoSize then
      v.setReg frWord (v.regs frWord ||| flagRxff)
    else v
  { v.setReg risWord (v.regs risWord ||| intRx) with setIrq := true }.sample

/-- `pl011_virt_serial_send`; -28 is `-ENOSPC`. -/
def pl011VirtSerialSend (s : Vserial) (data : List (BitVec 8)) : Vserial × Int :=
  if sendBufferSize < s.sendBuffer.writePos + data.length then
    ({ s with sendBuffer := { s.sendBuffer with bufferOverflow := true } }, -28)
  else
    (⟨s.sendBuffer.writeBytes data, s.vpl011.received (s.sendBuffer.writeBytes data).count⟩, 0)

/-- What a read of the data register does before it looks for a byte. -/
def VirtPl011.beginRead (v : VirtPl011) : VirtPl011 :=
  let v := { v with setIrq := false }
  let v := v.setReg frWord (v.regs frWord &&& ~~~flagRxff)
  (v.setReg risWord (v.regs risWord &&& ~~~intRx)).sample

/-- What it does after that. -/
def VirtPl011.endRead (v : VirtPl011) : VirtPl011 :=
  if 0 < v.count.toNat then
    { v.setReg risWord (v.regs risWord ||| intRx) with level := v.regs risWord ||| intRx }
  else v.setReg frWord (v.regs frWord ||| flagRxfe)

/-- A read of the data register. -/
def readData (s : Vserial) : Vserial × BitVec 32 :=
  if s.vpl011.count ≠ 0 then
    (⟨s.sendBuffer.take, { s.vpl011.beginRead with count := s.vpl011.count - 1 }.endRead⟩,
      (s.sendBuffer.data s.sendBuffer.readPos).setWidth 32)
  else ({ s with vpl011 := s.vpl011.beginRead.endRead }, 0)

/-- `vserial_vdev_mem_read`, with `VPL011_LINUX_OFFSET` as a parameter. -/
def vserialVdevMemRead (linuxOffset : Nat) (s : Vserial) (addr : BitVec 64) : Vserial × BitVec 32 :=
  if s.vpl011.offset addr = 0 then readData s
  else
    ({ s with vpl011 := { s.vpl011 with setIrq := false } },
      if s.vpl011.offset addr = 0x40 then s.vpl011.regs risWord &&& s.vpl011.regs imscWord
      else if linuxOffset ≤ s.vpl011.offset addr ∧ s.vpl011.offset addr < 0x1000 then
        (s.vpl011.id ((s.vpl011.offset addr - linuxOffset) / 4)).setWidth 32
      else s.vpl011.regs (s.vpl011.offset addr / 4))

/-- The registers after a write of `x` at an offset. -/
def VirtPl011.write (v : VirtPl011) (offset : Nat) (x : BitVec 32) : VirtPl011 :=
  let v := { v with setIrq := false }.setReg (offset / 4) x
  if offset = 0 then
    (v.setReg risWord (v.regs risWord ||| intTx)).sample.setReg drWord 0
  else if offset = 0x38 then v.sample
  else if offset = 0x44 then v.setReg risWord (v.regs risWord &&& ~~~v.regs icrWord)
  else v

/-- `vserial_vdev_mem_write`, with the byte that goes to the host's UART. -/
def vserialVdevMemWrite (s : Vserial) (addr value : BitVec 64) : Vserial × Option (BitVec 8) :=
  ({ s with vpl011 := s.vpl011.write (s.vpl011.offset addr) (value.setWidth 32) },
    if s.vpl011.offset addr = 0 ∧ s.vpl011.connecting = true then some (value.setWidth 8) else none)

/-- `ARM_PL011_ID`, as two words. -/
def armPl011Id (k : Nat) : BitVec 32 := if k = 0 then 0x00141011 else 0xb105f00d

/-- `vpl011_regs_init` and `virt_serial_create` for a port with a new name. -/
def vserialInit (base : BitVec 32) : Vserial where
  sendBuffer := ⟨fun _ => 0, 0, 0, 0, false⟩
  vpl011 :=
    { regs := set (set (set (set (set (fun _ => 0) frWord 0x90) crWord 0x30) iflsWord 0x12)
        idWord (armPl011Id 0)) (idWord + 1) (armPl011Id 1)
      vserialBase := base
      enabled := 0
      level := 0
      setIrq := false
      count := 0
      connecting := false }

/-! ## Runs -/

/-- The port with the input that was accepted and the bytes that the guest took. -/
structure Uart where
  serial : Vserial
  accepted : List (BitVec 8)
  taken : List (BitVec 8)

/-- Input from the host, and the guest's accesses. -/
inductive UartOp where
  | send (data : List (BitVec 8))
  | read (addr : BitVec 64)
  | write (addr value : BitVec 64)

/-- A read of the data register takes a byte while `count` is not 0. -/
def Uart.takes (u : Uart) (addr : BitVec 64) : Prop :=
  u.serial.vpl011.offset addr = 0 ∧ u.serial.vpl011.count ≠ 0

instance (u : Uart) (addr : BitVec 64) : Decidable (u.takes addr) :=
  inferInstanceAs (Decidable (_ ∧ _))

def uartStep (linuxOffset : Nat) (u : Uart) : UartOp → Uart
  | .send data =>
    { u with
      serial := (pl011VirtSerialSend u.serial data).1
      accepted :=
        if (pl011VirtSerialSend u.serial data).2 = 0 then u.accepted ++ data else u.accepted }
  | .read addr =>
    { u with
      serial := (vserialVdevMemRead linuxOffset u.serial addr).1
      taken :=
        if u.takes addr then
          u.taken ++ [(vserialVdevMemRead linuxOffset u.serial addr).2.setWidth 8]
        else u.taken }
  | .write addr value => { u with serial := (vserialVdevMemWrite u.serial addr value).1 }

def uartInit (base : BitVec 32) : Uart := ⟨vserialInit base, [], []⟩

/-- What the guest took is what was accepted, up to what is still to come. -/
def Delivered (u : Uart) : Prop :=
  u.taken <+: u.accepted ∧ (u.serial.sendBuffer.count = 0 → u.taken = u.accepted)

/-- And so it stays, whatever the guest reads next. -/
def Delivers (linuxOffset : Nat) (u : Uart) : Prop :=
  ∀ addrs : List (BitVec 64), Delivered (exec (uartStep linuxOffset) u (addrs.map .read))

/-- An accepted byte that is stored over an unread one is the same byte. -/
def SendFits (u : Uart) : UartOp → Prop
  | .send data =>
    u.serial.sendBuffer.writePos + data.length ≤ sendBufferSize →
      ∀ i, i < data.length → u.serial.sendBuffer.count + i < sendBufferSize ∨
        data[i]? = some (u.serial.sendBuffer.data (u.serial.sendBuffer.writePos + i))
  | .read _ => True
  | .write _ _ => True

/-! ## What the accesses leave alone -/

/-- The buffer as a ring. -/
def SendBuffer.ring (b : SendBuffer) : RingBuf (BitVec 8) := ⟨b.data, b.writePos, b.readPos⟩

theorem writeBytes_ring (data : List (BitVec 8)) :
    ∀ b : SendBuffer, (b.writeBytes data).ring = b.ring.pushAll sendBufferSize data := by
  induction data with
  | nil =>
    intro b
    rfl
  | cons x xs ih =>
    intro b
    exact ih (b.writeByte x)

theorem writeBytes_count (data : List (BitVec 8)) :
    ∀ b : SendBuffer, (b.writeBytes data).count = b.count + data.length := by
  induction data with
  | nil =>
    intro b
    simp [SendBuffer.writeBytes]
  | cons x xs ih =>
    intro b
    rw [SendBuffer.writeBytes, ih]
    simp only [SendBuffer.writeByte, List.length_cons]
    omega

@[simp]
theorem received_count (v : VirtPl011) (count : Int) :
    (v.received count).count = BitVec.ofInt 32 count := by
  simp only [VirtPl011.received]
  split <;> rfl

@[simp]
theorem received_vserialBase (v : VirtPl011) (count : Int) :
    (v.received count).vserialBase = v.vserialBase := by
  simp only [VirtPl011.received]
  split <;> rfl

@[simp]
theorem beginRead_count (v : VirtPl011) : v.beginRead.count = v.count := rfl

@[simp]
theorem endRead_count (v : VirtPl011) : v.endRead.count = v.count := by
  simp only [VirtPl011.endRead]
  split <;> rfl

@[simp]
theorem write_count (v : VirtPl011) (offset : Nat) (x : BitVec 32) :
    (v.write offset x).count = v.count := by
  simp only [VirtPl011.write]
  split
  · rfl
  · split
    · rfl
    · split <;> rfl

/-- The base of the registers is the address of the data register. -/
theorem offset_base (v : VirtPl011) : v.offset (v.vserialBase.setWidth 64) = 0 := by
  simp [VirtPl011.offset]

/-- The input and what was taken of it are the same. -/
structure SameInput (u u' : Uart) : Prop where
  ring : u'.serial.sendBuffer.ring = u.serial.sendBuffer.ring
  count : u'.serial.sendBuffer.count = u.serial.sendBuffer.count
  shown : u'.serial.vpl011.count = u.serial.vpl011.count
  accepted : u'.accepted = u.accepted
  taken : u'.taken = u.taken

section Steps

variable {linuxOffset : Nat} {u : Uart} {addr value : BitVec 64} {data : List (BitVec 8)}

theorem sameInput_write : SameInput u (uartStep linuxOffset u (.write addr value)) :=
  ⟨rfl, rfl, write_count _ _ _, rfl, rfl⟩

theorem sameInput_rejected (hFull : ¬ u.serial.sendBuffer.writePos + data.length ≤ sendBufferSize) :
    SameInput u (uartStep linuxOffset u (.send data)) := by
  simp only [uartStep, pl011VirtSerialSend, if_pos (Nat.lt_of_not_le hFull)]
  exact ⟨rfl, rfl, rfl, rfl, rfl⟩

/-- A read that takes no byte. -/
theorem sameInput_read (hNone : ¬ u.takes addr) :
    SameInput u (uartStep linuxOffset u (.read addr)) := by
  simp only [uartStep, if_neg hNone, vserialVdevMemRead]
  split
  case isTrue hData =>
    have hZero : ¬ u.serial.vpl011.count ≠ 0 := fun hCount => hNone ⟨hData, hCount⟩
    simp only [readData, if_neg hZero]
    exact ⟨rfl, rfl, by simp, rfl, rfl⟩
  case isFalse hData => exact ⟨rfl, rfl, rfl, rfl, rfl⟩

/-- A read that takes a byte. -/
theorem read_takes (linuxOffset : Nat) (hTakes : u.takes addr) :
    ∃ v : VirtPl011, v.count = u.serial.vpl011.count - 1 ∧
      uartStep linuxOffset u (.read addr) =
        ⟨⟨u.serial.sendBuffer.take, v⟩, u.accepted,
          u.taken ++ [u.serial.sendBuffer.data u.serial.sendBuffer.readPos]⟩ := by
  refine ⟨{ u.serial.vpl011.beginRead with count := u.serial.vpl011.count - 1 }.endRead,
    endRead_count _, ?_⟩
  simp only [uartStep, if_pos hTakes, vserialVdevMemRead, if_pos hTakes.1, readData,
    if_pos hTakes.2]
  rw [BitVec.setWidth_setWidth_of_le _ (by decide), BitVec.setWidth_eq]

/-- Input that is accepted. -/
theorem send_accepted (hRoom : u.serial.sendBuffer.writePos + data.length ≤ sendBufferSize) :
    uartStep linuxOffset u (.send data) =
      ⟨⟨u.serial.sendBuffer.writeBytes data,
          u.serial.vpl011.received (u.serial.sendBuffer.writeBytes data).count⟩,
        u.accepted ++ data, u.taken⟩ := by
  simp only [uartStep, pl011VirtSerialSend, if_neg (Nat.not_lt_of_le hRoom), if_true]

end Steps

/-! ## The unread bytes -/

/-- The numbers and positions are those of `queue`. -/
structure Counted (u : Uart) (queue : List (BitVec 8)) : Prop where
  split : u.accepted = u.taken ++ queue
  head_lt : u.serial.sendBuffer.readPos < sendBufferSize
  tail_eq : u.serial.sendBuffer.writePos =
    (u.serial.sendBuffer.readPos + queue.length) % sendBufferSize
  count : u.serial.sendBuffer.count = queue.length
  shown : u.serial.vpl011.count = BitVec.ofNat 32 queue.length

/-- And the buffer has them. -/
structure Unread (u : Uart) (queue : List (BitVec 8)) : Prop extends Counted u queue where
  shows : Shows sendBufferSize u.serial.sendBuffer.ring queue

/-- The buffer has what is accepted and not taken. -/
def Accurate (u : Uart) : Prop := ∃ queue, Unread u queue

section Queue

variable {linuxOffset : Nat} {u u' : Uart} {addr : BitVec 64} {queue data : List (BitVec 8)}
  {x : BitVec 8}

theorem SameInput.counted (hSame : SameInput u u') (h : Counted u queue) :
    Counted u' queue where
  split := by rw [hSame.accepted, hSame.taken, h.split]
  head_lt := by
    have hHead := congrArg RingBuf.consHead hSame.ring
    exact hHead.trans_lt h.head_lt
  tail_eq := by
    have hHead : u'.serial.sendBuffer.readPos = _ := congrArg RingBuf.consHead hSame.ring
    have hTail : u'.serial.sendBuffer.writePos = _ := congrArg RingBuf.prodTail hSame.ring
    rw [hHead, hTail]
    exact h.tail_eq
  count := by rw [hSame.count, h.count]
  shown := by rw [hSame.shown, h.shown]

theorem SameInput.unread (hSame : SameInput u u') (h : Unread u queue) :
    Unread u' queue where
  toCounted := hSame.counted h.toCounted
  shows := by
    rw [hSame.ring]
    exact h.shows

/-- While the guest sees bytes, there are some. -/
theorem Counted.exists_cons (h : Counted u queue) (hSeen : u.serial.vpl011.count ≠ 0) :
    ∃ x rest, queue = x :: rest := by
  cases queue with
  | nil => exact absurd h.shown hSeen
  | cons x rest => exact ⟨x, rest, rfl⟩

/-- A byte is taken from the front. -/
theorem Counted.read (linuxOffset : Nat) (h : Counted u (x :: queue)) (hTakes : u.takes addr)
    (hFront : u.serial.sendBuffer.data u.serial.sendBuffer.readPos = x) :
    Counted (uartStep linuxOffset u (.read addr)) queue := by
  obtain ⟨v, hShown, hStep⟩ := read_takes linuxOffset hTakes
  have hCount := h.count
  have hTail := h.tail_eq
  have hHead := h.head_lt
  rw [List.length_cons] at hCount hTail
  have hSplit : u.accepted =
      (u.taken ++ [u.serial.sendBuffer.data u.serial.sendBuffer.readPos]) ++ queue := by
    rw [hFront, h.split, List.append_assoc, List.singleton_append]
  have hLeft : v.count = BitVec.ofNat 32 queue.length := by
    rw [hShown, h.shown, List.length_cons]
    rw [BitVec.ofNat_add]
    exact BitVec.add_sub_cancel _ _
  rw [hStep]
  by_cases hLast : u.serial.sendBuffer.count - 1 = 0
  · have hEmpty : queue = [] := List.length_eq_zero_iff.mp (by omega)
    subst hEmpty
    simp only [SendBuffer.take, if_pos hLast]
    exact ⟨hSplit, Nat.zero_lt_succ _, rfl, hLast, hLeft⟩
  · simp only [SendBuffer.take, if_neg hLast]
    refine ⟨hSplit, Nat.mod_lt _ (by decide), ?_, by simp only; omega, hLeft⟩
    simp only [Nat.mod_add_mod, hTail]
    congr 1
    omega

theorem Unread.read (h : Unread u (x :: queue)) (hTakes : u.takes addr) :
    Unread (uartStep linuxOffset u (.read addr)) queue := by
  have hFront : u.serial.sendBuffer.data u.serial.sendBuffer.readPos = x := h.shows.front
  have hCounted := h.toCounted.read linuxOffset hTakes hFront
  refine ⟨hCounted, hCounted.head_lt, hCounted.tail_eq, ?_⟩
  cases queue with
  | nil =>
    intro k hk
    cases hk
  | cons y rest =>
    have hMore : ¬ u.serial.sendBuffer.count - 1 = 0 := by
      rw [h.count, List.length_cons, List.length_cons]
      omega
    obtain ⟨v, _, hStep⟩ := read_takes linuxOffset hTakes
    have hRing : (uartStep linuxOffset u (.read addr)).serial.sendBuffer.ring =
        u.serial.sendBuffer.ring.advance sendBufferSize := by
      rw [hStep]
      simp only [SendBuffer.take, if_neg hMore]
      rfl
    rw [hRing]
    exact h.shows.advance.entries

/-- Every read keeps an accurate buffer accurate. -/
theorem Unread.any_read (h : Unread u queue) : Accurate (uartStep linuxOffset u (.read addr)) := by
  by_cases hTakes : u.takes addr
  · obtain ⟨x, rest, rfl⟩ := h.exists_cons hTakes.2
    exact ⟨rest, h.read hTakes⟩
  · exact ⟨queue, (sameInput_read hTakes).unread h⟩

theorem Unread.delivered (h : Unread u queue) : Delivered u := by
  rw [Delivered, h.split]
  refine ⟨List.prefix_append _ _, ?_⟩
  intro hNone
  have hEmpty : queue = [] := List.length_eq_zero_iff.mp (by have := h.count; omega)
  rw [hEmpty, List.append_nil]

/-- From an accurate buffer the guest gets its input. -/
theorem Unread.delivers (h : Unread u queue) : Delivers linuxOffset u := by
  intro addrs
  have hKeep : ∀ op ∈ addrs.map UartOp.read, ∀ v : Uart,
      Accurate v → Accurate (uartStep linuxOffset v op) := by
    intro op hOp v hv
    obtain ⟨addr, _, rfl⟩ := List.mem_map.mp hOp
    obtain ⟨q, hq⟩ := hv
    exact hq.any_read
  obtain ⟨q, hq⟩ := exec_invariant_of_mem (addrs.map UartOp.read) hKeep u ⟨queue, h⟩
  exact hq.delivered

/-- The numbers after an accepted input. -/
theorem Counted.send (linuxOffset : Nat) (h : Counted u queue)
    (hRoom : u.serial.sendBuffer.writePos + data.length ≤ sendBufferSize) :
    Counted (uartStep linuxOffset u (.send data)) (queue ++ data) := by
  have hTailLt : u.serial.sendBuffer.writePos < sendBufferSize := by
    rw [h.tail_eq]
    exact Nat.mod_lt _ (by decide)
  have hRing := writeBytes_ring data u.serial.sendBuffer
  have hHead : (u.serial.sendBuffer.writeBytes data).readPos = u.serial.sendBuffer.readPos :=
    (congrArg RingBuf.consHead hRing).trans (pushAll_consHead _ _ _)
  have hTail : (u.serial.sendBuffer.writeBytes data).writePos =
      (u.serial.sendBuffer.writePos + data.length) % sendBufferSize :=
    (congrArg RingBuf.prodTail hRing).trans (pushAll_prodTail _ _ _ hTailLt)
  have hCount : (u.serial.sendBuffer.writeBytes data).count = ((queue ++ data).length : Nat) := by
    rw [writeBytes_count, h.count, List.length_append]
    omega
  rw [send_accepted hRoom]
  refine ⟨by rw [h.split, List.append_assoc], by rw [hHead]; exact h.head_lt, ?_, hCount, ?_⟩
  · rw [hHead, hTail, h.tail_eq, Nat.mod_add_mod, List.length_append, Nat.add_assoc]
  · rw [received_count, hCount, BitVec.ofInt_natCast]

/-- Accepted input leaves the buffer accurate exactly if it fits. -/
theorem Unread.send_iff (h : Unread u queue)
    (hRoom : u.serial.sendBuffer.writePos + data.length ≤ sendBufferSize) :
    Unread (uartStep linuxOffset u (.send data)) (queue ++ data) ↔ SendFits u (.send data) := by
  have hCounted := h.toCounted.send linuxOffset hRoom
  have hRing : (uartStep linuxOffset u (.send data)).serial.sendBuffer.ring =
      u.serial.sendBuffer.ring.pushAll sendBufferSize data := by
    rw [send_accepted hRoom]
    exact writeBytes_ring data u.serial.sendBuffer
  have hShows := h.shows.pushAll_iff hRoom
  have hCount := h.count
  constructor
  · intro hUnread _ i hi
    have hEntries := hUnread.shows
    rw [hRing] at hEntries
    rcases hShows.mp hEntries i hi with hFree | hSame
    · left
      omega
    · exact Or.inr hSame
  · intro hFits
    refine ⟨hCounted, ?_⟩
    rw [hRing]
    apply hShows.mpr
    intro i hi
    rcases hFits hRoom i hi with hFree | hSame
    · left
      omega
    · exact Or.inr hSame

/-- If the guest gets the input by reading on, the buffer has it. -/
theorem Counted.entries_of_delivers (queue : List (BitVec 8)) :
    ∀ u, Counted u queue → queue.length < 2 ^ 32 → Delivers linuxOffset u →
      ∀ k, k < queue.length → queue[k]? = some (u.serial.sendBuffer.data
        ((u.serial.sendBuffer.readPos + k) % sendBufferSize)) := by
  induction queue with
  | nil =>
    intro u _ _ _ k hk
    cases hk
  | cons x rest ih =>
    intro u h hBound hDelivers k hk
    rw [List.length_cons] at hBound hk
    have hSeen : u.serial.vpl011.count ≠ 0 := by
      rw [h.shown, List.length_cons]
      intro hZero
      have hNat := congrArg BitVec.toNat hZero
      rw [BitVec.toNat_ofNat, Nat.mod_eq_of_lt hBound] at hNat
      cases hNat
    have hTakes : u.takes (u.serial.vpl011.vserialBase.setWidth 64) := ⟨offset_base _, hSeen⟩
    obtain ⟨v, _, hStep⟩ := read_takes linuxOffset hTakes
    -- the first byte that the guest takes
    have hFront : u.serial.sendBuffer.data u.serial.sendBuffer.readPos = x := by
      have hOne := (hDelivers [u.serial.vpl011.vserialBase.setWidth 64]).1
      simp only [List.map_cons, List.map_nil, exec_cons, exec_nil, hStep, h.split] at hOne
      have hHead := (List.prefix_append_right_inj _).mp hOne
      exact (List.cons_prefix_cons.mp hHead).1
    cases k with
    | zero =>
      rw [Nat.add_zero, Nat.mod_eq_of_lt h.head_lt, hFront]
      rfl
    | succ k =>
      have hNext := h.read linuxOffset hTakes hFront
      have hLater : Delivers linuxOffset (uartStep linuxOffset u
          (.read (u.serial.vpl011.vserialBase.setWidth 64))) := by
        intro addrs
        exact hDelivers (u.serial.vpl011.vserialBase.setWidth 64 :: addrs)
      have hk' : k < rest.length := by omega
      have hRest := ih _ hNext (by omega) hLater k hk'
      have hMore : ¬ u.serial.sendBuffer.count - 1 = 0 := by
        rw [h.count, List.length_cons]
        omega
      rw [List.getElem?_cons_succ, hRest, hStep]
      simp only [SendBuffer.take, if_neg hMore, Nat.mod_add_mod]
      congr 3
      omega

end Queue

/-! ## Whole runs -/

section Run

variable {linuxOffset : Nat} {u : Uart}

theorem unread_init (base : BitVec 32) :
    Unread (uartInit base) [] where
  split := rfl
  head_lt := Nat.zero_lt_succ _
  tail_eq := rfl
  count := rfl
  shown := rfl
  shows := ⟨Nat.zero_lt_succ _, rfl, fun _ hk => absurd hk (Nat.not_lt_zero _)⟩

theorem Accurate.step (linuxOffset : Nat) {op : UartOp} (h : Accurate u) (hFits : SendFits u op) :
    Accurate (uartStep linuxOffset u op) := by
  obtain ⟨queue, hQueue⟩ := h
  cases op with
  | send data =>
    by_cases hRoom : u.serial.sendBuffer.writePos + data.length ≤ sendBufferSize
    · exact ⟨queue ++ data, (hQueue.send_iff hRoom).mpr hFits⟩
    · exact ⟨queue, (sameInput_rejected hRoom).unread hQueue⟩
  | read addr => exact hQueue.any_read
  | write addr value => exact ⟨queue, sameInput_write.unread hQueue⟩

/-- A buffer that still delivers after a step was not overrun by it. -/
theorem Accurate.sendFits {op : UartOp} (h : Accurate u)
    (hAfter : (uartStep linuxOffset u op).serial.sendBuffer.count < 2 ^ 32 ∧
      Delivers linuxOffset (uartStep linuxOffset u op)) : SendFits u op := by
  obtain ⟨queue, hQueue⟩ := h
  cases op with
  | send data =>
    intro hRoom
    have hCounted := hQueue.toCounted.send linuxOffset hRoom
    have hBound : (queue ++ data).length < 2 ^ 32 := by
      have hLt := hAfter.1
      rw [hCounted.count] at hLt
      omega
    have hEntries := Counted.entries_of_delivers _ _ hCounted hBound hAfter.2
    exact (hQueue.send_iff hRoom).mp
      ⟨hCounted, hCounted.head_lt, hCounted.tail_eq, hEntries⟩ hRoom
  | read addr => exact trivial
  | write addr value => exact trivial

end Run

/--
**Input is delivered unless it is overrun**: in every interleaving of input and guest accesses
in which no accepted byte is stored over a different unread one, the guest gets the accepted
bytes in every state; as long as fewer than 2^32 bytes are unread, these are the only
interleavings in which it does.  Input that is rejected changes neither the bytes nor a
position nor a count.
-/
theorem delivers_unless_overrun (linuxOffset : Nat) (base : BitVec 32) (ops : List UartOp) :
    (Admissible (uartStep linuxOffset) SendFits (uartInit base) ops →
      Always (uartStep linuxOffset) (Delivers linuxOffset) (uartInit base) ops) ∧
    (Always (uartStep linuxOffset)
        (fun u => u.serial.sendBuffer.count < 2 ^ 32 ∧ Delivers linuxOffset u) (uartInit base) ops →
      Admissible (uartStep linuxOffset) SendFits (uartInit base) ops) ∧
    ∀ (s : Vserial) (data : List (BitVec 8)), (pl011VirtSerialSend s data).2 ≠ 0 →
      (pl011VirtSerialSend s data).1.sendBuffer =
          { s.sendBuffer with bufferOverflow := true } ∧
        (pl011VirtSerialSend s data).1.vpl011 = s.vpl011 := by
  have hStart : Accurate (uartInit base) := ⟨[], unread_init base⟩
  have hKeep : ∀ u op, Accurate u → SendFits u op → Accurate (uartStep linuxOffset u op) :=
    fun _ _ h hFits => h.step linuxOffset hFits
  refine ⟨?_, ?_, ?_⟩
  · have hGood : ∀ u, Accurate u → Delivers linuxOffset u := by
      intro u h
      obtain ⟨queue, hQueue⟩ := h
      exact hQueue.delivers
    exact always_of_admissible hGood hKeep ops _ hStart
  · exact admissible_of_always hKeep (fun _ _ h hAfter => h.sendFits hAfter) ops _ hStart
  · intro s data hRejected
    by_cases hFull : sendBufferSize < s.sendBuffer.writePos + data.length
    · rw [pl011VirtSerialSend, if_pos hFull]
      exact ⟨rfl, rfl⟩
    · simp [pl011VirtSerialSend, hFull] at hRejected

/-- One byte more than the buffer holds is the first one that the guest reads. -/
theorem Counted.overrun {u : Uart} {queue : List (BitVec 8)} {addr : BitVec 64}
    (linuxOffset : Nat) (h : Counted u queue) (hFull : queue.length = sendBufferSize)
    (x : BitVec 8) (hAddr : u.serial.vpl011.offset addr = 0) :
    (exec (uartStep linuxOffset) u [.send [x], .read addr]).taken = u.taken ++ [x] ∧
      (exec (uartStep linuxOffset) u [.send [x], .read addr]).accepted = u.accepted ++ [x] := by
  have hSame : u.serial.sendBuffer.writePos = u.serial.sendBuffer.readPos := by
    rw [h.tail_eq, hFull, Nat.add_mod_right, Nat.mod_eq_of_lt h.head_lt]
  have hRoom : u.serial.sendBuffer.writePos + [x].length ≤ sendBufferSize := by
    rw [hSame]
    exact h.head_lt
  have hSent := h.send linuxOffset hRoom
  have hTakes : (uartStep linuxOffset u (.send [x])).takes addr := by
    constructor
    · rw [send_accepted hRoom, VirtPl011.offset, received_vserialBase]
      exact hAddr
    · rw [hSent.shown, List.length_append, hFull, List.length_singleton]
      decide
  obtain ⟨v, _, hStep⟩ := read_takes linuxOffset hTakes
  have hRead : (u.serial.sendBuffer.writeBytes [x]).data u.serial.sendBuffer.readPos = x := by
    rw [← hSame]
    exact set_same _ _ _
  simp only [exec_cons, exec_nil]
  rw [hStep, send_accepted hRoom]
  exact ⟨congrArg (fun y => u.taken ++ [y]) hRead, rfl⟩

/-- Input that fills the buffer, and one byte more; then the guest reads. -/
def overrun : List UartOp :=
  [.send (List.replicate 4096 0x61), .send [0x62], .read 0]

/-- The second input is accepted, and the guest gets its byte first. -/
theorem overrun_not_delivered :
    (exec (uartStep 0xfe0) (uartInit 0) overrun).taken = [0x62] ∧
      (exec (uartStep 0xfe0) (uartInit 0) overrun).accepted =
        List.replicate 4096 0x61 ++ [0x62] ∧
      ¬ Delivered (exec (uartStep 0xfe0) (uartInit 0) overrun) := by
  have hRoom : (uartInit 0).serial.sendBuffer.writePos +
      (List.replicate 4096 (0x61 : BitVec 8)).length ≤ sendBufferSize := by
    rw [List.length_replicate]
    exact Nat.le_refl _
  have hFilled := (unread_init 0).toCounted.send 0xfe0 hRoom
  have hFull : ([] ++ List.replicate 4096 (0x61 : BitVec 8)).length = sendBufferSize :=
    List.length_replicate
  have hAddr : (uartStep 0xfe0 (uartInit 0) (.send (List.replicate 4096 0x61))).serial.vpl011.offset
      0 = 0 := by
    rw [send_accepted hRoom, VirtPl011.offset, received_vserialBase]
    rfl
  obtain ⟨hTaken, hAccepted⟩ := hFilled.overrun 0xfe0 hFull 0x62 hAddr
  rw [send_accepted hRoom] at hTaken hAccepted
  refine ⟨?_, ?_, ?_⟩
  · rw [overrun, exec_cons, send_accepted hRoom, hTaken]
    rfl
  · rw [overrun, exec_cons, send_accepted hRoom, hAccepted]
    rfl
  · rintro ⟨hPrefix, _⟩
    rw [overrun, exec_cons, send_accepted hRoom, hTaken, hAccepted] at hPrefix
    exact absurd (List.cons_prefix_cons.mp hPrefix).1 (by decide)

end Zvm.Vdev
